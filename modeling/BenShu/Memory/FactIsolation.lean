import BenShu.Memory.FactStore
import Mathlib.Data.Set.Operations

/-!
# Which facts a partition sees

A partition is told apart from the others by the key of its rows, and found by a prefix of
this key. The partitions in use do not get in each other's way where no key is a prefix of
another one with its colon.
-/

namespace BenShu.Memory

open Protocol

inductive FactOp where
  | store (security : Option SecurityHandler) (who : Partition) (fact : Fact)
  | delete (who : Partition) (factId : String)
  | updateStatus (factId : String) (status : FactStatus) (now : DateTime)
  | updateImportance (who : Partition) (factId : String) (importance : ℚ) (now : DateTime)
  | updateProtection (who : Partition) (factId : String) (protection : FactProtection)
      (now : DateTime)

namespace FactOp

/-- The partition of an update is not looked at. -/
def apply (toLowercase : String → String) : FactOp → FactStore → FactStore
  | store security who fact, facts => facts.storeFact toLowercase security who fact
  | delete who factId, facts => facts.deleteFact who factId
  | updateStatus factId status now, facts => facts.updateFactStatus factId status now
  | updateImportance _ factId importance now, facts =>
      facts.updateFactImportanceById factId importance now
  | updateProtection _ factId protection now, facts =>
      facts.updateFactProtectionById factId protection now

/-- The operation names partitions of the set only. -/
def Within (N : Set Partition) : FactOp → Prop
  | store _ who _ | delete who _ | updateImportance who _ _ _ | updateProtection who _ _ _ =>
      who ∈ N
  | updateStatus _ _ _ => True

def concerns (who : Partition) : FactOp → Bool
  | store _ other _ | delete other _ => other = who
  | _ => true

/-- Under which partition the row of a key was stored, after the operation. -/
def keeper (key : String) (last : Option Partition) : FactOp → Option Partition
  | store _ who fact => if key = factKey who fact.id then some who else last
  | delete who factId => if key = factKey who factId then none else last
  | _ => last

end FactOp

def runFacts (toLowercase : String → String) (ops : List FactOp) : FactStore :=
  ops.foldl (fun facts op => op.apply toLowercase facts) {}

def storedUnder (ops : List FactOp) (key : String) : Option Partition :=
  ops.foldl (fun last op => op.keeper key last) none

/-- What the partitions of a set see after some operations: their own facts, the same as
without the operations of the others, and no delete of another one changes these. -/
structure Isolated (toLowercase : String → String) (N : Set Partition) (ops : List FactOp) :
    Prop where
  retrieved : ∀ who ∈ N, ∀ row ∈ (runFacts toLowercase ops).retrievedRows who,
    storedUnder ops row.1 = some who
  related : ∀ who ∈ N, ∀ factId depth,
    ∀ row ∈ (runFacts toLowercase ops).relatedRows who factId depth,
      storedUnder ops row.1 = some who
  deleted : ∀ who ∈ N, ∀ other ∈ N, who ≠ other → ∀ factId otherId,
    ((runFacts toLowercase ops).deleteFact who factId).facts.lookup (factKey other otherId) =
      (runFacts toLowercase ops).facts.lookup (factKey other otherId)
  independent : ∀ who ∈ N,
    let alone := runFacts toLowercase (ops.filter (·.concerns who))
    (∀ security, (runFacts toLowercase ops).retrieveFacts security who =
      alone.retrieveFacts security who) ∧
    ∀ factId depth, (runFacts toLowercase ops).findRelatedFacts who factId depth =
      alone.findRelatedFacts who factId depth

/-- No key of a partition is the beginning of the key of another one with its colon. -/
def PrefixFree (N : Set Partition) : Prop :=
  ∀ who ∈ N, ∀ other ∈ N, who ≠ other → ¬(key who).toList <+: (key other ++ ":").toList

variable {toLowercase : String → String} {N : Set Partition} {ops : List FactOp}

/-! ## One operation -/

theorem runFacts_append (op : FactOp) :
    runFacts toLowercase (ops ++ [op]) = op.apply toLowercase (runFacts toLowercase ops) := by
  simp [runFacts]

theorem storedUnder_append (op : FactOp) (key : String) :
    storedUnder (ops ++ [op]) key = op.keeper key (storedUnder ops key) := by
  simp [storedUnder]

def Kept (N : Set Partition) (ops : List FactOp) (facts : FactStore) : Prop :=
  ∀ key fact, facts.facts.lookup key = some fact →
    ∃ who ∈ N, storedUnder ops key = some who ∧ key = factKey who fact.id

theorem Kept.update {facts : FactStore} {update : Fact → Fact} {factId : String} {op : FactOp}
    (hkept : Kept N ops facts) (hid : ∀ fact, (update fact).id = fact.id)
    (hop : ∀ key last, op.keeper key last = last) :
    Kept N (ops ++ [op]) (facts.updateFactById update factId) := by
  intro key fact hlookup
  rw [FactStore.lookup_updateFactById, Option.map_eq_some_iff] at hlookup
  obtain ⟨before, hbefore, rfl⟩ := hlookup
  obtain ⟨who, hwho, hstored, hkey⟩ := hkept key before hbefore
  refine ⟨who, hwho, by rw [storedUnder_append, hop, hstored], ?_⟩
  split_ifs
  · rw [hid]
    exact hkey
  · exact hkey

theorem Kept.apply {facts : FactStore} {op : FactOp} (hkept : Kept N ops facts)
    (hop : op.Within N) : Kept N (ops ++ [op]) (op.apply toLowercase facts) := by
  cases op with
  | store security who fact =>
      intro key found hlookup
      rw [storedUnder_append]
      unfold FactOp.keeper
      unfold FactOp.apply at hlookup
      dsimp only at hlookup ⊢
      rw [FactStore.lookup_storeFact] at hlookup
      split_ifs at hlookup ⊢ with hkey
      · cases hlookup
        exact ⟨who, hop, rfl, by rw [encrypted_id, hkey]⟩
      · exact hkept key found hlookup
  | delete who factId =>
      intro key found hlookup
      rw [storedUnder_append]
      unfold FactOp.keeper
      unfold FactOp.apply at hlookup
      dsimp only at hlookup ⊢
      rw [FactStore.lookup_deleteFact] at hlookup
      split_ifs at hlookup ⊢ with hkey
      exact hkept key found hlookup
  | updateStatus factId status now => exact hkept.update (fun _ => rfl) fun _ _ => rfl
  | updateImportance who factId importance now => exact hkept.update (fun _ => rfl) fun _ _ => rfl
  | updateProtection who factId protection now => exact hkept.update (fun _ => rfl) fun _ _ => rfl

theorem kept_run (h : ∀ op ∈ ops, op.Within N) : Kept N ops (runFacts toLowercase ops) := by
  induction ops using List.reverseRecOn with
  | nil =>
      intro key fact hlookup
      cases hlookup
  | append_singleton ops op ih =>
      rw [runFacts_append]
      exact (ih fun earlier hmem => h earlier (List.mem_append_left _ hmem)).apply
        (h op (List.mem_append_right _ List.mem_cons_self))

def AgreeBelow (base : String) (facts facts' : FactStore) : Prop :=
  ∀ k, base.toList <+: k.toList → facts.facts.lookup k = facts'.facts.lookup k

theorem AgreeBelow.apply {base : String} {facts facts' : FactStore}
    (h : AgreeBelow base facts facts') (op : FactOp) :
    AgreeBelow base (op.apply toLowercase facts) (op.apply toLowercase facts') := by
  intro k hk
  have hupdate : ∀ (update : Fact → Fact) (factId : String),
      (facts.updateFactById update factId).facts.lookup k =
        (facts'.updateFactById update factId).facts.lookup k := by
    intro update factId
    rw [FactStore.lookup_updateFactById, FactStore.lookup_updateFactById, h k hk]
  cases op with
  | store security who fact =>
      unfold FactOp.apply
      dsimp only
      rw [FactStore.lookup_storeFact, FactStore.lookup_storeFact, h k hk]
  | delete who factId =>
      unfold FactOp.apply
      dsimp only
      rw [FactStore.lookup_deleteFact, FactStore.lookup_deleteFact, h k hk]
  | updateStatus factId status now => exact hupdate _ factId
  | updateImportance who factId importance now => exact hupdate _ factId
  | updateProtection who factId protection now => exact hupdate _ factId

/-! ## Names whose keys are apart -/

section Apart

variable {who other : Partition} {factId : String}

theorem PrefixFree.eq_of_prefix (h : PrefixFree N) (hwho : who ∈ N) (hother : other ∈ N)
    (hstarts : (key who).toList <+: (factKey other factId).toList) : other = who := by
  by_contra hne
  rw [toList_factKey] at hstarts
  rcases List.prefix_or_prefix_of_prefix hstarts (List.prefix_append _ _) with hshort | hlong
  · exact h who hwho other hother (Ne.symm hne) hshort
  · refine h other hother who hwho hne ?_
    rw [String.toList_append] at hlong ⊢
    exact (List.prefix_append _ _).trans (hlong.trans (List.prefix_append _ _))

theorem PrefixFree.unconcerned (h : PrefixFree N) (hwho : who ∈ N) {op : FactOp}
    (hop : op.Within N) (hother : op.concerns who = false) (facts : FactStore) :
    AgreeBelow (key who) (op.apply toLowercase facts) facts := by
  intro k hk
  cases op with
  | store security other fact =>
      unfold FactOp.apply
      dsimp only
      rw [FactStore.lookup_storeFact, if_neg]
      rintro rfl
      exact of_decide_eq_false hother (h.eq_of_prefix hwho hop hk)
  | delete other factId =>
      unfold FactOp.apply
      dsimp only
      rw [FactStore.lookup_deleteFact, if_neg]
      rintro rfl
      exact of_decide_eq_false hother (h.eq_of_prefix hwho hop hk)
  | updateStatus factId status now => cases hother
  | updateImportance who factId importance now => cases hother
  | updateProtection who factId protection now => cases hother

theorem PrefixFree.agree_run (h : PrefixFree N) (hwho : who ∈ N) (hops : ∀ op ∈ ops, op.Within N) :
    AgreeBelow (key who) (runFacts toLowercase ops)
      (runFacts toLowercase (ops.filter (·.concerns who))) := by
  induction ops using List.reverseRecOn with
  | nil => exact fun k _ => rfl
  | append_singleton ops op ih =>
      have hop : op.Within N := hops op (List.mem_append_right _ List.mem_cons_self)
      have hearlier := ih fun earlier hmem => hops earlier (List.mem_append_left _ hmem)
      rw [runFacts_append, List.filter_append]
      rcases hconcerns : op.concerns who
      · rw [List.filter_cons_of_neg (by simp [hconcerns]), List.filter_nil, List.append_nil]
        exact fun k hk => (h.unconcerned hwho hop hconcerns _ k hk).trans (hearlier k hk)
      · rw [List.filter_cons_of_pos hconcerns, List.filter_nil, runFacts_append]
        exact hearlier.apply op

theorem PrefixFree.storedUnder_eq (h : PrefixFree N) (hwho : who ∈ N)
    (hops : ∀ op ∈ ops, op.Within N) {row : FactRow}
    (hlookup : (runFacts toLowercase ops).facts.lookup row.1 = some row.2)
    (hstarts : (key who).toList <+: row.1.toList) : storedUnder ops row.1 = some who := by
  obtain ⟨other, hother, hstored, hkey⟩ := kept_run hops row.1 row.2 hlookup
  rw [hstored, h.eq_of_prefix hwho hother (hkey ▸ hstarts)]

theorem PrefixFree.isolated (h : PrefixFree N) (hops : ∀ op ∈ ops, op.Within N) :
    Isolated toLowercase N ops where
  retrieved who hwho row hrow := by
    obtain ⟨hlookup, hstarts⟩ := FactStore.mem_retrievedRows.mp hrow
    rw [String.toList_append] at hstarts
    exact h.storedUnder_eq hwho hops hlookup ((List.prefix_append _ _).trans hstarts)
  related who hwho factId depth row hrow := by
    obtain ⟨targetId, -, hlookup⟩ := led_of_mem_traverse hrow
    obtain ⟨hlookup, hstarts, -⟩ := FactStore.lookup_of_factsById hlookup
    exact h.storedUnder_eq hwho hops hlookup hstarts
  deleted who hwho other hother hne factId otherId := by
    rw [FactStore.lookup_deleteFact, if_neg]
    intro heq
    have hstarts : (key other).toList <+: (factKey who factId).toList := by
      rw [← heq, toList_factKey, String.toList_append, List.append_assoc]
      exact List.prefix_append _ _
    exact hne (h.eq_of_prefix hother hwho hstarts)
  independent who hwho := by
    have hagree : AgreeBelow (key who) (runFacts toLowercase ops) _ := h.agree_run hwho hops
    refine ⟨fun security => ?_, fun factId depth => ?_⟩
    · unfold FactStore.retrieveFacts
      rw [FactStore.retrievedRows_congr hagree]
    · unfold FactStore.findRelatedFacts FactStore.relatedRows
      rw [FactStore.factsById_congr hagree]

end Apart

/-! ## Names whose keys are not apart -/

def sampleFact (factId : String) (relations : List Relation) : Fact :=
  { id := factId, category := "", content := "", importance := 0, createdAt := 0, updatedAt := 0,
    verified := false, source := none, confidence := 0, relations := relations,
    semanticHash := none, status := .pending, protection := .normal }

def linkingFact : Fact := sampleFact "from" [{ predicate := "", targetId := "to", strength := 1 }]

def linkedFact : Fact := sampleFact "to" []

def linkedFacts (who : Partition) : List FactOp :=
  [.store none who linkingFact, .store none who linkedFact]

theorem lookup_linkedFacts (who : Partition) (k : String) :
    (runFacts toLowercase (linkedFacts who)).facts.lookup k =
      if k = factKey who "to" then some linkedFact
      else if k = factKey who "from" then some linkingFact else none := by
  have hplain : ∀ fact, encrypted toLowercase none fact = fact := fun fact => by
    unfold encrypted
    split_ifs <;> rfl
  have hto : linkedFact.id = "to" := rfl
  have hfrom : linkingFact.id = "from" := rfl
  show ((({} : FactStore).storeFact toLowercase none who linkingFact).storeFact toLowercase none who
    linkedFact).facts.lookup k = _
  rw [FactStore.lookup_storeFact, FactStore.lookup_storeFact, hplain, hplain, hto, hfrom]
  rfl

theorem leadsTo_linkedFact : LeadsTo linkingFact.relations "from" "to" :=
  ⟨by decide, by decide, _, List.mem_cons_self, rfl⟩

theorem mem_relatedRows_linkedFacts {who other : Partition}
    (hstarts : (key who).toList <+: (key other ++ ":").toList) :
    (⟨factKey other "to", linkedFact⟩ : FactRow) ∈
      (runFacts toLowercase (linkedFacts other)).relatedRows who "from" 1 := by
  have hne : factKey other "from" ≠ factKey other "to" := fun h =>
    absurd (factKey_injective h) (by decide)
  have hbelow : ∀ factId, (key who).toList <+: (factKey other factId).toList := fun factId => by
    rw [toList_factKey]
    exact hstarts.trans (List.prefix_append _ _)
  have hkeys : ∀ k fact, (runFacts toLowercase (linkedFacts other)).facts.lookup k = some fact →
      k = factKey other fact.id := by
    intro k fact hlookup
    rw [lookup_linkedFacts] at hlookup
    split_ifs at hlookup with hto hfrom
    · cases hlookup
      exact hto
    · cases hlookup
      exact hfrom
  have hfrom := @FactStore.factsById_of_unique who (runFacts toLowercase (linkedFacts other))
    ⟨factKey other "from", linkingFact⟩ (by rw [lookup_linkedFacts, if_neg hne, if_pos rfl])
    (hbelow "from") fun k fact hlookup hid => by rw [hkeys k fact hlookup, hid]; rfl
  have hto := @FactStore.factsById_of_unique who (runFacts toLowercase (linkedFacts other))
    ⟨factKey other "to", linkedFact⟩ (by rw [lookup_linkedFacts, if_pos rfl]) (hbelow "to")
    fun k fact hlookup hid => by rw [hkeys k fact hlookup, hid]; rfl
  exact mem_traverse_of_leadsTo hfrom leadsTo_linkedFact hto

theorem storedUnder_linkedFacts (who : Partition) :
    storedUnder (linkedFacts who) (factKey who "to") = some who := by
  show (if factKey who "to" = factKey who "to" then some who else _) = some who
  rw [if_pos rfl]

theorem runs_isolated_iff (toLowercase : String → String) (N : Set Partition) :
    (∀ ops : List FactOp, (∀ op ∈ ops, op.Within N) → Isolated toLowercase N ops) ↔
      PrefixFree N := by
  constructor
  · intro h who hwho other hother hne hstarts
    have hisolated := h (linkedFacts other) (by simp [linkedFacts, FactOp.Within, hother])
    have hown := hisolated.related who hwho "from" 1 _ (mem_relatedRows_linkedFacts hstarts)
    rw [storedUnder_linkedFacts] at hown
    exact hne (Option.some.inj hown).symm
  · exact fun h ops hops => h.isolated hops

/-- A fact that was stored under the user and an agent is returned for the user without one. -/
theorem agentFact_seenWithout : ¬∀ ops : List FactOp, Isolated id Set.univ ops := by
  intro h
  have hown := (h [.store none ⟨"alice", some "bot"⟩ (sampleFact "y" [])]).retrieved
    ⟨"alice", none⟩ (Set.mem_univ _) ⟨"alice:bot:y", sampleFact "y" []⟩ (by decide +kernel)
  exact absurd hown (by decide +kernel)

end BenShu.Memory
