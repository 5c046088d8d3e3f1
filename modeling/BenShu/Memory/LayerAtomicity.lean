import BenShu.Memory.FactIsolation
import BenShu.Memory.MemoryManager

/-!
# What a failed write leaves behind

A write of the memory manager is atomic where the hot layer shows the same after an error,
and both layers hold the same session or fact after a success. The condition is one on the
layers before.
-/

namespace BenShu.Memory

open Protocol

section Statement

variable {σ : Type} (memory : DurableMemory σ) (cipher : FactCipher) (clock : Clock)

/-- The two show the same sessions, reviews and facts, under every key. -/
structure SameHot (hot hot' : HotLayer) : Prop where
  sessions : ∀ k, hot.sessions.lookup k = hot'.sessions.lookup k
  reviews : ∀ k, hot.reviews.lookup k = hot'.reviews.lookup k
  facts : ∀ k, (hot.facts.lookup k).map (decrypted cipher.security) =
    (hot'.facts.lookup k).map (decrypted cipher.security)

def HotLayer.fact (who : Partition) (factId : String) (hot : HotLayer) : Option Fact :=
  (hot.facts.lookup (factKey who factId)).map (decrypted cipher.security)

/-- Both layers hold the same of what the write is about. -/
def HoldSame (layers : Layers σ) : MemoryWrite → Prop
  | .storeSession session =>
      layers.hot.retrieveSession session.id = memory.session layers.engram session.id
  | .deleteSession sessionId =>
      layers.hot.retrieveSession sessionId = memory.session layers.engram sessionId
  | .storeFact who fact =>
      SameFact (layers.hot.fact cipher who fact.id) (memory.fact layers.engram who fact.id)
  | .deleteFact who factId | .updateFactImportance who factId _
  | .setFactProtection who factId _ =>
      SameFact (layers.hot.fact cipher who factId) (memory.fact layers.engram who factId)
  | .markVerified factId | .markPendingReview factId _ | .requestFactReview factId _
  | .resolvePendingReview factId _ | .markPruned factId => ∀ who,
      SameFact (layers.hot.fact cipher who factId) (memory.fact layers.engram who factId)

/-- After an error the hot layer is as before, after a success both layers hold the same. -/
def AllOrNothing (before : HotLayer) (request : MemoryWrite)
    (result : Layers σ × Except MemoryError Unit) : Prop :=
  match result.2 with
  | .error _ => SameHot cipher result.1.hot before
  | .ok _ => HoldSame memory cipher result.1 request

def Atomic (layers : Layers σ) (request : MemoryWrite) : Prop :=
  AllOrNothing memory cipher layers.hot request
    (MemoryManager.run memory cipher clock request layers)

/-! ## When a write is atomic -/

def readBack (fact : Fact) : Fact :=
  decrypted cipher.security (encrypted cipher.toLowercase cipher.security fact)

/-- A row with the id below the key of the partition with its colon. -/
structure Under (who : Partition) (factId : String) (hot : HotLayer) (row : FactRow) : Prop where
  stored : hot.facts.lookup row.1 = some row.2
  below : (key who ++ ":").toList <+: row.1.toList
  named : row.2.id = factId

/-- The first row with the id below the key of the partition reads back as the partition's
own one; without an own one there is none. -/
def Restorable (who : Partition) (factId : String) (hot : HotLayer) : Prop :=
  match hot.fact cipher who factId with
  | none => ∀ row, ¬Under who factId hot row
  | some own => ∃ row, Under who factId hot row ∧
      (∀ other, Under who factId hot other → row.1 ≤ other.1) ∧
      readBack cipher (decrypted cipher.security row.2) = own

/-- The other rows with the id are as the update would leave them. -/
def OthersUpdated (update : Fact → Fact) (who : Partition) (factId : String) (hot : HotLayer) :
    Prop :=
  ∀ k ≠ factKey who factId, ∀ fact, hot.facts.lookup k = some fact → fact.id = factId →
    fact = { update fact with updatedAt := clock.now }

/-- The condition where the durable write fails. -/
def RollsBack (hot : HotLayer) : MemoryWrite → Prop
  | .storeFact who fact => Restorable cipher who fact.id hot
  | .deleteFact who factId => Restorable cipher who factId hot
  | .updateFactImportance who factId importance =>
      Restorable cipher who factId hot ∧
        OthersUpdated clock (·.withImportance importance) who factId hot
  | .setFactProtection who factId protection =>
      Restorable cipher who factId hot ∧
        OthersUpdated clock (·.withProtection protection) who factId hot
  | _ => True

def SameBut (mask : Fact → Fact) (fact fact' : Option Fact) : Prop :=
  SameFact (fact.map mask) (fact'.map mask)

/-- The condition where the durable write is applied. -/
def AgreeBefore (layers : Layers σ) : MemoryWrite → Prop
  | .storeFact _ fact => readBack cipher fact = fact
  | .updateFactImportance who factId _ =>
      SameBut (·.withImportance 0) (layers.hot.fact cipher who factId)
        (memory.fact layers.engram who factId)
  | .setFactProtection who factId _ =>
      SameBut (·.withProtection .normal) (layers.hot.fact cipher who factId)
        (memory.fact layers.engram who factId)
  | .markVerified factId | .markPendingReview factId _ | .requestFactReview factId _
  | .resolvePendingReview factId _ | .markPruned factId => ∀ who,
      SameBut (·.withStatus .pending) (layers.hot.fact cipher who factId)
        (memory.fact layers.engram who factId)
  | _ => True

/-- One condition where the durable write fails, the other one where it is applied. -/
def AtomicWhen (layers : Layers σ) (request : MemoryWrite) (fails applied : Prop) : Prop :=
  match memory.write request layers.engram with
  | .error _ => fails
  | .ok _ => applied

end Statement

/-! ## Reading and writing facts -/

section Cipher

variable {cipher : FactCipher}

def Fact.withContent (content : String) (fact : Fact) : Fact := { fact with content := content }

@[simp] theorem Fact.withContent_self (fact : Fact) : fact.withContent fact.content = fact := rfl

@[simp] theorem Fact.withContent_withContent (content content' : String) (fact : Fact) :
    (fact.withContent content).withContent content' = fact.withContent content' := rfl

theorem exists_decrypted (security : Option SecurityHandler) :
    ∃ shown : String → String, ∀ fact : Fact,
      decrypted security fact = fact.withContent (shown fact.content) := by
  refine ⟨fun content => if Text.startsWith content "enc:" then
    (security.bind (·.decryptFact content)).getD content else content, fun fact => ?_⟩
  unfold decrypted
  by_cases hmarked : Text.startsWith fact.content "enc:" = true
  · simp only [if_pos hmarked]
    rcases security.bind (·.decryptFact fact.content) with _ | content <;> rfl
  · simp only [if_neg hmarked, Fact.withContent_self]

@[simp] theorem decrypted_id (security : Option SecurityHandler) (fact : Fact) :
    (decrypted security fact).id = fact.id := by
  obtain ⟨shown, hshown⟩ := exists_decrypted security
  rw [hshown]
  rfl

theorem exists_readBack (cipher : FactCipher) (fact : Fact) :
    ∃ content, readBack cipher fact = fact.withContent content := by
  obtain ⟨shown, hshown⟩ := exists_decrypted cipher.security
  unfold readBack encrypted
  split_ifs
  · rcases cipher.security.bind (·.encryptFact fact.content) with _ | content
    · exact ⟨_, hshown fact⟩
    · exact ⟨_, hshown (fact.withContent content)⟩
  · exact ⟨_, hshown fact⟩

theorem undated_readBack_iff (fact : Fact) :
    (readBack cipher fact).undated = fact.undated ↔ readBack cipher fact = fact := by
  obtain ⟨content, hcontent⟩ := exists_readBack cipher fact
  rw [hcontent]
  cases fact
  simp [Fact.undated, Fact.withContent]

/-- A change that leaves the contents of facts alone, and their ids. -/
structure Plain (change : Fact → Fact) : Prop where
  named : ∀ fact, (change fact).id = fact.id
  content : ∀ content fact, change (fact.withContent content) = (change fact).withContent content

namespace Plain

variable {change : Fact → Fact}

theorem decrypted_change (h : Plain change) (security : Option SecurityHandler) (fact : Fact) :
    decrypted security (change fact) = change (decrypted security fact) := by
  obtain ⟨shown, hshown⟩ := exists_decrypted security
  have hback : change fact = (change fact).withContent fact.content := h.content fact.content fact
  have hcontent : (change fact).content = fact.content := by
    rw [hback]
    rfl
  rw [hshown, hshown, h.content, hcontent]

theorem decrypted_eq_iff (h : Plain change) (security : Option SecurityHandler) (fact : Fact) :
    decrypted security (change fact) = decrypted security fact ↔ change fact = fact := by
  refine ⟨fun heq => ?_, fun heq => by rw [heq]⟩
  obtain ⟨shown, hshown⟩ := exists_decrypted security
  rw [h.decrypted_change, hshown, h.content] at heq
  calc change fact = (change fact).withContent fact.content := h.content fact.content fact
    _ = ((change fact).withContent (shown fact.content)).withContent fact.content := rfl
    _ = fact := by rw [heq, Fact.withContent_withContent, Fact.withContent_self]

end Plain

end Cipher

/-! ## Restoring a fact -/

section Restore

variable {cipher : FactCipher} {who : Partition} {factId : String} {hot : HotLayer}

theorem lookup_restoreFactLayer {previous : Option Fact}
    (hprevious : ∀ fact, previous = some fact → fact.id = factId) (k : String) :
    (MemoryManager.restoreFactLayer cipher who factId previous hot).facts.lookup k =
      if k = factKey who factId then
        previous.map (encrypted cipher.toLowercase cipher.security)
      else hot.facts.lookup k := by
  rcases previous with _ | fact
  · exact FactStore.lookup_deleteFact who factId hot.toFactStore k
  · have hstore := FactStore.lookup_storeFact cipher.toLowercase cipher.security who fact
      (hot.toFactStore.deleteFact who factId) k
    rw [FactStore.lookup_deleteFact, hprevious fact rfl] at hstore
    refine hstore.trans ?_
    split_ifs <;> rfl

theorem snapshotFact_eq (cipher : FactCipher) (who : Partition) (factId : String)
    (hot : HotLayer) :
    MemoryManager.snapshotFact cipher who factId hot =
      ((hot.retrievedRows who).find? (·.2.id == factId)).map
        (decrypted cipher.security ·.2) := by
  unfold MemoryManager.snapshotFact FactStore.retrieveFacts
  rw [List.find?_map]
  congr 2
  funext row
  simp

theorem id_of_snapshotFact {fact : Fact}
    (h : MemoryManager.snapshotFact cipher who factId hot = some fact) : fact.id = factId := by
  unfold MemoryManager.snapshotFact at h
  simpa using List.find?_some h

theorem under_iff {row : FactRow} :
    Under who factId hot row ↔ row ∈ hot.retrievedRows who ∧ (row.2.id == factId) = true := by
  rw [FactStore.mem_retrievedRows, beq_iff_eq]
  exact ⟨fun h => ⟨⟨h.stored, h.below⟩, h.named⟩, fun h => ⟨h.1.1, h.1.2, h.2⟩⟩

theorem restorable_iff :
    Restorable cipher who factId hot ↔
      (MemoryManager.snapshotFact cipher who factId hot).map (readBack cipher) =
        hot.fact cipher who factId := by
  unfold Restorable
  rw [snapshotFact_eq, Option.map_map]
  rcases hot.fact cipher who factId with _ | own
  · rw [Option.map_eq_none_iff, List.find?_eq_none]
    constructor
    · exact fun h row hrow hid => h row (under_iff.mpr ⟨hrow, hid⟩)
    · exact fun h row hrow => h row (under_iff.mp hrow).1 (under_iff.mp hrow).2
  · rw [Option.map_eq_some_iff]
    refine exists_congr fun row => ?_
    unfold FactStore.retrievedRows
    rw [Table.find?_scan, and_assoc, and_assoc]
    constructor
    · rintro ⟨hrow, hfirst, hback⟩
      obtain ⟨hmem, hid⟩ := under_iff.mp hrow
      exact ⟨hmem, hid, fun other hother hid' => hfirst other (under_iff.mpr ⟨hother, hid'⟩), hback⟩
    · rintro ⟨hmem, hid, hfirst, hback⟩
      exact ⟨under_iff.mpr ⟨hmem, hid⟩, fun other hother =>
        hfirst other (under_iff.mp hother).1 (under_iff.mp hother).2, hback⟩

theorem sameHot_restore_iff {written : HotLayer} {change : Fact → Fact} (hplain : Plain change)
    (hsessions : written.sessions = hot.sessions) (hreviews : written.reviews = hot.reviews)
    (hfacts : ∀ k ≠ factKey who factId, written.facts.lookup k =
      (hot.facts.lookup k).map fun fact => if fact.id = factId then change fact else fact) :
    SameHot cipher (MemoryManager.restoreFactLayer cipher who factId
        (MemoryManager.snapshotFact cipher who factId hot) written) hot ↔
      Restorable cipher who factId hot ∧ ∀ k ≠ factKey who factId, ∀ fact,
        hot.facts.lookup k = some fact → fact.id = factId → change fact = fact := by
  have hlookup := @lookup_restoreFactLayer cipher who factId written _
    fun fact h => @id_of_snapshotFact cipher who factId hot fact h
  have hrest : ∀ previous,
      (MemoryManager.restoreFactLayer cipher who factId previous written).sessions =
        written.sessions ∧
      (MemoryManager.restoreFactLayer cipher who factId previous written).reviews =
        written.reviews := by
    rintro (_ | fact) <;> exact ⟨rfl, rfl⟩
  rw [restorable_iff]
  constructor
  · rintro ⟨-, -, hsame⟩
    constructor
    · have hown := hsame (factKey who factId)
      rw [hlookup, if_pos rfl, Option.map_map] at hown
      exact hown
    · intro k hk fact hfact hid
      have hrow := hsame k
      rw [hlookup, if_neg hk, hfacts k hk, hfact, Option.map_some, if_pos hid] at hrow
      exact (hplain.decrypted_eq_iff cipher.security fact).mp (Option.some.inj hrow)
  · rintro ⟨hown, hothers⟩
    refine ⟨fun k => by rw [(hrest _).1, hsessions], fun k => by rw [(hrest _).2, hreviews],
      fun k => ?_⟩
    rw [hlookup]
    split_ifs with hk
    · rw [hk, Option.map_map]
      exact hown
    · rw [hfacts k hk]
      rcases hfact : hot.facts.lookup k with _ | fact
      · rfl
      · rw [Option.map_some]
        split_ifs with hid
        · rw [hothers k hk fact hfact hid]
        · rfl

end Restore

/-! ## Updates -/

section Update

variable {cipher : FactCipher} {clock : Clock} {who : Partition} {factId : String} {hot : HotLayer}
  {update : Fact → Fact}

def dated (clock : Clock) (update : Fact → Fact) (fact : Fact) : Fact :=
  { update fact with updatedAt := clock.now }

theorem Plain.dated (h : Plain update) : Plain (dated clock update) where
  named fact := h.named fact
  content content fact := by
    unfold Memory.dated
    rw [h.content]
    rfl

theorem othersUpdated_iff :
    OthersUpdated clock update who factId hot ↔ ∀ k ≠ factKey who factId, ∀ fact,
      hot.facts.lookup k = some fact → fact.id = factId → dated clock update fact = fact :=
  forall_congr' fun _ => forall_congr' fun _ => forall_congr' fun _ => forall_congr' fun _ =>
    forall_congr' fun _ => eq_comm

theorem fact_update (h : Plain update) :
    (hot.mapFacts (·.updateFactById (dated clock update) factId)).fact cipher who factId =
      (hot.fact cipher who factId).map fun fact =>
        if fact.id = factId then dated clock update fact else fact := by
  unfold HotLayer.fact HotLayer.mapFacts
  dsimp only
  rw [FactStore.lookup_updateFactById]
  rcases hot.facts.lookup (factKey who factId) with _ | fact
  · rfl
  · simp only [Option.map_some, decrypted_id]
    split_ifs
    · rw [h.dated.decrypted_change]
    · rfl

/-- After an update both layers hold the same fact where they did but for what it sets. -/
theorem sameFact_update_iff {mask : Fact → Fact} {fact fact' updated : Option Fact}
    (hplain : Plain update)
    (hset : ∀ f g : Fact, (update f).undated = (update g).undated ↔
      (mask f).undated = (mask g).undated)
    (hkeyed : ∀ found, fact' = some found → found.id = factId)
    (hupdated : SameFact updated (fact'.map update)) :
    SameFact (fact.map fun fact => if fact.id = factId then dated clock update fact else fact)
        updated ↔ SameBut mask fact fact' := by
  unfold SameBut SameFact at *
  rw [hupdated]
  rcases fact with _ | f <;> rcases fact' with _ | g
  · exact iff_of_true rfl rfl
  · simp
  · simp
  have hg : g.id = factId := hkeyed g rfl
  simp only [Option.map_some, Option.some.injEq]
  rw [← hset]
  split_ifs with hid
  · exact Iff.rfl
  · refine iff_of_false (fun heq => hid ?_) (fun heq => hid ?_)
    · exact (congrArg Fact.id heq).trans ((hplain.named g).trans hg)
    · exact (hplain.named f).symm.trans ((congrArg Fact.id heq).trans ((hplain.named g).trans hg))

end Update

/-! ## Every write -/

section Writes

variable {σ : Type} {memory : DurableMemory σ} {cipher : FactCipher} {clock : Clock}
  {layers : Layers σ} {request : MemoryWrite}

theorem allOrNothing_writeBoth {doing operation subject : String}
    {write restore : HotLayer → HotLayer} {fails applied : Prop}
    (hfails : SameHot cipher (restore (write layers.hot)) layers.hot ↔ fails)
    (happlied : ∀ engram, memory.write request layers.engram = .ok engram →
      (HoldSame memory cipher { hot := write layers.hot, engram } request ↔ applied)) :
    AllOrNothing memory cipher layers.hot request (MemoryManager.writeBoth memory request doing
      operation subject write restore layers) ↔ AtomicWhen memory layers request fails applied := by
  unfold MemoryManager.writeBoth AtomicWhen
  rcases hwrite : memory.write request layers.engram with err | engram
  · exact hfails
  · exact happlied engram hwrite

theorem allOrNothing_writeReview {follow : HotLayer → HotLayer} {applied : Prop}
    (happlied : ∀ engram, memory.write request layers.engram = .ok engram →
      (HoldSame memory cipher { hot := follow layers.hot, engram } request ↔ applied)) :
    AllOrNothing memory cipher layers.hot request
      (MemoryManager.writeReview memory request follow layers) ↔
        AtomicWhen memory layers request True applied := by
  unfold MemoryManager.writeReview AtomicWhen
  rcases hwrite : memory.write request layers.engram with err | engram
  · exact iff_of_true ⟨fun _ => rfl, fun _ => rfl, fun _ => rfl⟩ trivial
  · exact happlied engram hwrite

theorem restoreSessionLayer_sessions (hot : HotLayer) {written : HotLayer} {sessionId : String}
    (hwritten : ∀ k ≠ sessionId, written.sessions.lookup k = hot.sessions.lookup k) (k : String) :
    (MemoryManager.restoreSessionLayer sessionId (hot.retrieveSession sessionId)
      written).sessions.lookup k = hot.sessions.lookup k := by
  rcases hprevious : hot.retrieveSession sessionId with _ | session
  · refine (Table.lookup_erase _ _ _).trans ?_
    split_ifs with hk
    · rw [hk]
      exact hprevious.symm
    · exact hwritten k hk
  · refine (Table.lookup_insert _ _ _ _).trans ?_
    have hkeyed := hot.sessions_keyed sessionId session hprevious
    split_ifs with hk
    · rw [hk, hkeyed]
      exact hprevious.symm
    · exact hwritten k fun heq => hk (heq.trans hkeyed.symm)

theorem atomic_storeSession (session : AgentSession) :
    Atomic memory cipher clock layers (.storeSession session) ↔
      AtomicWhen memory layers (.storeSession session) True True := by
  refine allOrNothing_writeBoth (iff_of_true ?_ trivial) fun engram hwrite =>
    iff_of_true ?_ trivial
  · refine ⟨restoreSessionLayer_sessions layers.hot fun k hk => ?_, fun k => ?_, fun k => ?_⟩
    · exact (Table.lookup_insert _ _ _ _).trans (if_neg hk)
    · rcases layers.hot.retrieveSession session.id with _ | previous <;> rfl
    · rcases layers.hot.retrieveSession session.id with _ | previous <;> rfl
  · refine Eq.trans ?_ (memory.session_store hwrite).symm
    exact (Table.lookup_insert _ _ _ _).trans (if_pos rfl)

theorem atomic_deleteSession (sessionId : String) :
    Atomic memory cipher clock layers (.deleteSession sessionId) ↔
      AtomicWhen memory layers (.deleteSession sessionId) True True := by
  refine allOrNothing_writeBoth (iff_of_true ?_ trivial) fun engram hwrite =>
    iff_of_true ?_ trivial
  · refine ⟨restoreSessionLayer_sessions layers.hot fun k hk => ?_, fun k => ?_, fun k => ?_⟩
    · exact (Table.lookup_erase _ _ _).trans (if_neg hk)
    · rcases layers.hot.retrieveSession sessionId with _ | previous <;> rfl
    · rcases layers.hot.retrieveSession sessionId with _ | previous <;> rfl
  · refine Eq.trans ?_ (memory.session_delete hwrite).symm
    exact (Table.lookup_erase _ _ _).trans (if_pos rfl)

theorem plain_id : Plain id := ⟨fun _ => rfl, fun _ _ => rfl⟩

theorem sameHot_restore_row_iff {who : Partition} {factId : String} {hot written : HotLayer}
    (hsessions : written.sessions = hot.sessions) (hreviews : written.reviews = hot.reviews)
    (hfacts : ∀ k ≠ factKey who factId, written.facts.lookup k = hot.facts.lookup k) :
    SameHot cipher (MemoryManager.restoreFactLayer cipher who factId
        (MemoryManager.snapshotFact cipher who factId hot) written) hot ↔
      Restorable cipher who factId hot := by
  rw [sameHot_restore_iff plain_id hsessions hreviews fun k hk => ?_]
  · exact and_iff_left fun _ _ _ _ _ => rfl
  · rw [hfacts k hk]
    rcases hot.facts.lookup k with _ | fact
    · rfl
    · rw [Option.map_some, id, ite_self]

theorem atomic_storeFact (who : Partition) (fact : Fact) :
    Atomic memory cipher clock layers (.storeFact who fact) ↔
      AtomicWhen memory layers (.storeFact who fact) (Restorable cipher who fact.id layers.hot)
        (readBack cipher fact = fact) := by
  have hlookup := FactStore.lookup_storeFact cipher.toLowercase cipher.security who fact
    layers.hot.toFactStore
  refine allOrNothing_writeBoth (sameHot_restore_row_iff rfl rfl fun k hk => ?_)
    fun engram hwrite => ?_
  · exact (hlookup k).trans (if_neg hk)
  · show SameFact _ (memory.fact engram who fact.id) ↔ _
    have hown : (layers.hot.storeFact cipher who fact).fact cipher who fact.id =
        some (readBack cipher fact) := by
      unfold HotLayer.fact
      exact congrArg _ ((hlookup (factKey who fact.id)).trans (if_pos rfl))
    rw [memory.fact_store hwrite, hown, ← undated_readBack_iff]
    exact Option.some_inj

theorem atomic_deleteFact (who : Partition) (factId : String) :
    Atomic memory cipher clock layers (.deleteFact who factId) ↔
      AtomicWhen memory layers (.deleteFact who factId) (Restorable cipher who factId layers.hot)
        True := by
  have hlookup := FactStore.lookup_deleteFact who factId layers.hot.toFactStore
  refine allOrNothing_writeBoth (sameHot_restore_row_iff rfl rfl fun k hk => ?_)
    fun engram hwrite => iff_of_true ?_ trivial
  · exact (hlookup k).trans (if_neg hk)
  · show SameFact _ (memory.fact engram who factId)
    have hown : (layers.hot.deleteFact who factId).fact cipher who factId = none := by
      unfold HotLayer.fact
      exact congrArg _ ((hlookup (factKey who factId)).trans (if_pos rfl))
    rw [memory.fact_delete hwrite, hown]
    rfl

/-- An update of a fact, undone where the row can be restored and no other row changed. -/
theorem allOrNothing_update {who : Partition} {factId doing operation subject : String}
    {update mask : Fact → Fact} (hplain : Plain update)
    (hset : ∀ f g : Fact, (update f).undated = (update g).undated ↔
      (mask f).undated = (mask g).undated)
    (hholds : ∀ after, HoldSame memory cipher after request ↔
      SameFact (after.hot.fact cipher who factId) (memory.fact after.engram who factId))
    (hupdated : ∀ engram, memory.write request layers.engram = .ok engram →
      SameFact (memory.fact engram who factId) ((memory.fact layers.engram who factId).map update)) :
    AllOrNothing memory cipher layers.hot request (MemoryManager.writeBoth memory request doing
        operation subject (·.mapFacts (·.updateFactById (dated clock update) factId))
        (MemoryManager.restoreFactLayer cipher who factId
          (MemoryManager.snapshotFact cipher who factId layers.hot)) layers) ↔
      AtomicWhen memory layers request
        (Restorable cipher who factId layers.hot ∧
          OthersUpdated clock update who factId layers.hot)
        (SameBut mask (layers.hot.fact cipher who factId)
          (memory.fact layers.engram who factId)) := by
  refine allOrNothing_writeBoth ?_ fun engram hwrite => ?_
  · rw [othersUpdated_iff]
    exact sameHot_restore_iff hplain.dated rfl rfl fun k _ =>
      FactStore.lookup_updateFactById _ _ _ k
  · rw [hholds]
    dsimp only
    rw [fact_update hplain]
    exact sameFact_update_iff hplain hset (fun found hfound => memory.fact_keyed hfound)
      (hupdated engram hwrite)

theorem plain_withImportance (importance : ℚ) : Plain (·.withImportance importance) :=
  ⟨fun _ => rfl, fun _ _ => rfl⟩

theorem plain_withProtection (protection : FactProtection) : Plain (·.withProtection protection) :=
  ⟨fun _ => rfl, fun _ _ => rfl⟩

theorem plain_withStatus (status : FactStatus) : Plain (·.withStatus status) :=
  ⟨fun _ => rfl, fun _ _ => rfl⟩

theorem atomic_updateFactImportance (who : Partition) (factId : String) (importance : ℚ) :
    Atomic memory cipher clock layers (.updateFactImportance who factId importance) ↔
      AtomicWhen memory layers (.updateFactImportance who factId importance)
        (Restorable cipher who factId layers.hot ∧
          OthersUpdated clock (·.withImportance importance) who factId layers.hot)
        (SameBut (·.withImportance 0) (layers.hot.fact cipher who factId)
          (memory.fact layers.engram who factId)) := by
  refine allOrNothing_update (plain_withImportance importance) (fun f g => ?_)
    (fun _ => Iff.rfl) fun engram hwrite => memory.fact_importance hwrite
  simp [Fact.withImportance, Fact.undated]

theorem atomic_setFactProtection (who : Partition) (factId : String)
    (protection : FactProtection) :
    Atomic memory cipher clock layers (.setFactProtection who factId protection) ↔
      AtomicWhen memory layers (.setFactProtection who factId protection)
        (Restorable cipher who factId layers.hot ∧
          OthersUpdated clock (·.withProtection protection) who factId layers.hot)
        (SameBut (·.withProtection .normal) (layers.hot.fact cipher who factId)
          (memory.fact layers.engram who factId)) := by
  refine allOrNothing_update (plain_withProtection protection) (fun f g => ?_)
    (fun _ => Iff.rfl) fun engram hwrite => memory.fact_protection hwrite
  simp [Fact.withProtection, Fact.undated]

theorem allOrNothing_review {factId : String} {status : FactStatus} {follow : HotLayer → HotLayer}
    (hrequest : request.reviewed = some (factId, status))
    (hfollow : (follow layers.hot).facts =
      (layers.hot.updateFactStatus clock factId status).facts)
    (hholds : ∀ after, HoldSame memory cipher after request ↔ ∀ who,
      SameFact (after.hot.fact cipher who factId) (memory.fact after.engram who factId)) :
    AllOrNothing memory cipher layers.hot request
        (MemoryManager.writeReview memory request follow layers) ↔
      AtomicWhen memory layers request True (∀ who, SameBut (·.withStatus .pending)
        (layers.hot.fact cipher who factId) (memory.fact layers.engram who factId)) := by
  refine allOrNothing_writeReview fun engram hwrite => ?_
  rw [hholds]
  refine forall_congr' fun who => ?_
  have hfact : (follow layers.hot).fact cipher who factId =
      (layers.hot.mapFacts (·.updateFactById (dated clock (·.withStatus status)) factId)).fact
        cipher who factId := by
    unfold HotLayer.fact
    rw [hfollow]
    rfl
  dsimp only
  rw [hfact, fact_update (plain_withStatus status)]
  refine sameFact_update_iff (plain_withStatus status) (fun f g => ?_)
    (fun found hfound => memory.fact_keyed hfound) (memory.fact_review hrequest hwrite who)
  simp [Fact.withStatus, Fact.undated]

end Writes

theorem atomic_iff {σ : Type} (memory : DurableMemory σ) (cipher : FactCipher) (clock : Clock)
    (layers : Layers σ) (request : MemoryWrite) :
    Atomic memory cipher clock layers request ↔
      AtomicWhen memory layers request (RollsBack cipher clock layers.hot request)
        (AgreeBefore memory cipher layers request) := by
  cases request with
  | storeSession session => exact atomic_storeSession session
  | deleteSession sessionId => exact atomic_deleteSession sessionId
  | storeFact who fact => exact atomic_storeFact who fact
  | deleteFact who factId => exact atomic_deleteFact who factId
  | updateFactImportance who factId importance =>
      exact atomic_updateFactImportance who factId importance
  | setFactProtection who factId protection =>
      exact atomic_setFactProtection who factId protection
  | markVerified factId => exact allOrNothing_review rfl rfl fun _ => Iff.rfl
  | markPendingReview factId summary => exact allOrNothing_review rfl rfl fun _ => Iff.rfl
  | requestFactReview factId payload => exact allOrNothing_review rfl rfl fun _ => Iff.rfl
  | resolvePendingReview factId resolution => exact allOrNothing_review rfl rfl fun _ => Iff.rfl
  | markPruned factId => exact allOrNothing_review rfl rfl fun _ => Iff.rfl

/-! ## A write that is not atomic -/

/-- A durable memory as plain maps. -/
structure DurableMaps where
  session : String → Option AgentSession
  fact : Partition → String → Option Fact

namespace DurableMaps

def mapFact (factId : String) (f : Partition → Option Fact → Option Fact) (maps : DurableMaps) :
    DurableMaps :=
  { maps with
    fact := fun who id => if id = factId then f who (maps.fact who id) else maps.fact who id }

def setFact (who : Partition) (factId : String) (f : Option Fact → Option Fact) :
    DurableMaps → DurableMaps :=
  mapFact factId fun other fact => if other = who then f fact else fact

def apply : MemoryWrite → DurableMaps → DurableMaps
  | .storeSession session, maps =>
      { maps with session := Function.update maps.session session.id (some session) }
  | .deleteSession sessionId, maps =>
      { maps with session := Function.update maps.session sessionId none }
  | .storeFact who fact, maps => maps.setFact who fact.id fun _ => some fact
  | .deleteFact who factId, maps => maps.setFact who factId fun _ => none
  | .updateFactImportance who factId importance, maps =>
      maps.setFact who factId (·.map (·.withImportance importance))
  | .setFactProtection who factId protection, maps =>
      maps.setFact who factId (·.map (·.withProtection protection))
  | request, maps =>
      match request.reviewed with
      | some (factId, status) => maps.mapFact factId fun _ => (·.map (·.withStatus status))
      | none => maps

def factOf (maps : DurableMaps) (who : Partition) (factId : String) : Option Fact :=
  (maps.fact who factId).map fun fact => { fact with id := factId }

theorem factOf_mapFact (factId : String) (f : Partition → Option Fact → Option Fact)
    (maps : DurableMaps) (who : Partition) :
    (maps.mapFact factId f).factOf who factId =
      (f who (maps.fact who factId)).map fun fact => { fact with id := factId } := by
  unfold factOf mapFact
  dsimp only
  rw [if_pos rfl]

theorem factOf_setFact (who : Partition) (factId : String) (f : Option Fact → Option Fact)
    (maps : DurableMaps) :
    (maps.setFact who factId f).factOf who factId =
      (f (maps.fact who factId)).map fun fact => { fact with id := factId } := by
  unfold setFact
  rw [factOf_mapFact, if_pos rfl]

/-- The maps are changed where they are available. -/
def memory (available : Bool) : DurableMemory DurableMaps where
  write request maps := if available then .ok (maps.apply request) else .error "unavailable"
  session := session
  fact := factOf
  fact_keyed := by
    intro maps who factId found h
    obtain ⟨fact, -, rfl⟩ := Option.map_eq_some_iff.mp h
    rfl
  session_store := by
    intro maps maps' stored h
    cases available <;> cases h
    exact Function.update_self _ _ _
  session_delete := by
    intro maps maps' sessionId h
    cases available <;> cases h
    exact Function.update_self _ _ _
  fact_store := by
    intro maps maps' who stored h
    cases available <;> cases h
    exact factOf_setFact who stored.id _ maps
  fact_delete := by
    intro maps maps' who factId h
    cases available <;> cases h
    exact factOf_setFact who factId _ maps
  fact_importance := by
    intro maps maps' who factId importance h
    cases available <;> cases h
    unfold SameFact apply
    rw [factOf_setFact]
    unfold factOf
    rcases maps.fact who factId <;> rfl
  fact_protection := by
    intro maps maps' who factId protection h
    cases available <;> cases h
    unfold SameFact apply
    rw [factOf_setFact]
    unfold factOf
    rcases maps.fact who factId <;> rfl
  fact_review := by
    intro maps maps' request factId status hrequest h who
    cases available <;> cases h
    have happly : maps.apply request =
        maps.mapFact factId fun _ => (·.map (·.withStatus status)) := by
      cases request <;> cases hrequest <;> rfl
    unfold SameFact
    rw [happly, factOf_mapFact]
    unfold factOf
    rcases maps.fact who factId <;> rfl

end DurableMaps

/-- Two users have a fact of the same id, the durable memory is empty. -/
def sharedId : Layers DurableMaps where
  hot :=
    { toFactStore := runFacts id
        [.store none ⟨"alice", none⟩ linkedFact, .store none ⟨"bob", none⟩ linkedFact]
      sessions_keyed := fun _ _ h => by cases h }
  engram := { session := fun _ => none, fact := fun _ _ => none }

/-- After a failed update for one user, the fact of the other one stays changed. -/
theorem failedUpdate_changesOther :
    ¬∀ layers request,
      Atomic (DurableMaps.memory false) ⟨id, none⟩ ⟨1, 1⟩ layers request := by
  intro h
  have hsame := (h sharedId (.updateFactImportance ⟨"alice", none⟩ "to" 1)).facts "bob:to"
  exact absurd hsame (by decide +kernel)

end BenShu.Memory
