import BenShu.Agent.ContextFit

/-!
# The order of the history in the context

A context keeps the conversation when the history in it stands in its order, each message
at most once, with the latest user message among them.
-/

namespace BenShu.Agent

open Protocol Selection

def LatestUserAt (history : List Message) (index : Nat) : Prop :=
  (∃ message, history[index]? = some message ∧ message.role = .user) ∧
    ∀ later message, index < later → history[later]? = some message → message.role ≠ .user

structure KeepsConversation (history : List Message) (messages : List Placed) : Prop where
  /-- In particular no message of the history stands twice. -/
  chronological : (origins messages).Pairwise (· < ·)
  trimmed : ∀ placed ∈ messages, ∀ index, placed.origin = some index →
    ∃ message, history[index]? = some message ∧
      ∃ limits : List Nat, placed.message = limits.foldl Message.softTrim message
  latestUser : ∀ index, LatestUserAt history index → index ∈ origins messages

/-! ## The history -/

section History

variable {history : List Message}

variable (history) in
theorem placeHistory_getElem? (index : Nat) :
    (placeHistory history)[index]? = history[index]?.map (⟨some index, ·⟩) := by
  simp [placeHistory, List.getElem?_zipIdx, Option.map_map, Function.comp_def]

theorem origins_placeHistory : origins (placeHistory history) = List.range history.length := by
  have hsome : origins (placeHistory history) = history.zipIdx.map (·.2) := by
    simp only [origins, placeHistory, List.filterMap_map, Function.comp_def, List.filterMap_eq_map']
  rw [hsome, List.zipIdx_map_snd, List.range_eq_range']

theorem placeHistory_sorted : (origins (placeHistory history)).Pairwise (· < ·) := by
  rw [origins_placeHistory]
  exact List.pairwise_lt_range

theorem of_mem_placeHistory {placed : Placed} (h : placed ∈ placeHistory history) :
    ∃ index, placed.origin = some index ∧ history[index]? = some placed.message := by
  obtain ⟨index, hindex⟩ := List.mem_iff_getElem?.mp h
  rw [placeHistory_getElem?] at hindex
  obtain ⟨message, hmessage, rfl⟩ := Option.map_eq_some_iff.mp hindex
  exact ⟨index, rfl, hmessage⟩

theorem latestUserAt_iff {index : Nat} :
    LatestUserAt history index ↔
      ∃ latest, latestUser (placeHistory history) = some latest ∧ latest.origin = some index := by
  have hof : ∀ latest, latestUser (placeHistory history) = some latest →
      ∃ i, latest.origin = some i ∧ LatestUserAt history i := by
    intro latest hlatest
    obtain ⟨huser, pre, post, hsplit, hpost⟩ := reverse_find?_eq_some.mp hlatest
    have hget := placeHistory_getElem? history pre.length
    rw [hsplit, List.getElem?_append_right (Nat.le_refl _), Nat.sub_self,
      List.getElem?_cons_zero] at hget
    obtain ⟨message, hmessage, hplaced⟩ := Option.map_eq_some_iff.mp hget.symm
    subst hplaced
    refine ⟨pre.length, rfl, ⟨message, hmessage, of_decide_eq_true huser⟩, ?_⟩
    intro later other hlater hother hrole
    have hget' := placeHistory_getElem? history later
    obtain ⟨k, rfl⟩ := Nat.exists_eq_add_of_lt hlater
    rw [hsplit, hother, List.getElem?_append_right (by omega),
      show pre.length + k + 1 - pre.length = k + 1 by omega, List.getElem?_cons_succ] at hget'
    have hfalse := hpost _ (List.mem_of_getElem? hget')
    simp [Placed.isUser, hrole] at hfalse
  constructor
  · rintro ⟨⟨message, hmessage, hrole⟩, hlater⟩
    have hmem : (⟨some index, message⟩ : Placed) ∈ placeHistory history :=
      List.mem_of_getElem? (i := index) (by rw [placeHistory_getElem?, hmessage]; rfl)
    rcases hfound : latestUser (placeHistory history) with _ | latest
    · have hnone := List.find?_eq_none.mp hfound _ (List.mem_reverse.mpr hmem)
      simp [Placed.isUser, hrole] at hnone
    · obtain ⟨i, horigin, ⟨other, hother, hotherRole⟩, hlast⟩ := hof latest hfound
      refine ⟨latest, rfl, ?_⟩
      rcases Nat.lt_trichotomy i index with hlt | heq | hgt
      · exact absurd hrole (hlast index message hlt hmessage)
      · rw [horigin, heq]
      · exact absurd hotherRole (hlater i other hgt hother)
  · rintro ⟨latest, hlatest, horigin⟩
    obtain ⟨i, hi, hat⟩ := hof latest hlatest
    rw [hi, Option.some.injEq] at horigin
    exact horigin ▸ hat

/-- Messages of the history in their order, behind messages that are not from it. -/
theorem keeps_of_taken {made selected found : List Placed} (hmade : origins made = [])
    (hselected : ∀ placed ∈ selected, ∃ source ∈ placeHistory history, TrimOf placed source)
    (hsorted : (origins selected).Pairwise (· < ·)) (hfound : TakenFrom found (made ++ selected))
    (hlatest : ∀ index, LatestUserAt history index → index ∈ origins found) :
    KeepsConversation history found := by
  refine ⟨?_, ?_, hlatest⟩
  · have hsub := hfound.origins_sublist
    rw [origins_append, hmade, List.nil_append] at hsub
    exact hsorted.sublist hsub
  · intro placed hplaced index horigin
    obtain ⟨source, hsource, htrim⟩ := hfound.exists_of_mem hplaced
    rcases List.mem_append.mp hsource with hmem | hmem
    · have hin : index ∈ origins made := mem_origins.mpr ⟨source, hmem, htrim.1 ▸ horigin⟩
      rw [hmade] at hin
      cases hin
    · obtain ⟨original, horiginal, htrim'⟩ := hselected source hmem
      obtain ⟨i, hi, hget⟩ := of_mem_placeHistory horiginal
      obtain ⟨heq, limits, hlimits⟩ := htrim.trans htrim'
      rw [horigin, hi, Option.some.injEq] at heq
      exact ⟨original.message, heq ▸ hget, limits, hlimits⟩

end History

/-! ## The selected history -/

theorem foldr_selectHistoryMessage_taken {bpe : String → Nat} {render : Json → String}
    {isLocal : Bool} (budget : Nat) (pruned slice : List Placed) :
    TakenFrom (slice.foldr (selectHistoryMessage bpe render isLocal budget)
      { pruned := pruned }).selected slice := by
  induction slice with
  | nil => exact .nil
  | cons placed slice ih =>
      rw [List.foldr_cons, selectHistoryMessage]
      dsimp only
      split_ifs
      · exact .cons (.softTrim placed 4000) ih
      · exact .cons_right ih
      · exact .cons (.refl placed) ih
      · exact .cons_right ih

theorem selectHistory_taken {bpe : String → Nat} {render : Json → String} {isLocal : Bool}
    (window budget : Nat) (history : List Placed) :
    TakenFrom (selectHistory bpe render isLocal window budget history).selected history :=
  (foldr_selectHistoryMessage_taken budget _ _).trans
    (List.drop_sublist _ history).sublistForall₂

section Context

variable {manager : ContextManager} {bpe : String → Nat} {history : List Message}
  {strategy : Strategy} {isLocal : Bool}

theorem select_source {placed : Placed}
    (h : placed ∈ (manager.select bpe history strategy isLocal).selected) :
    ∃ source ∈ placeHistory history, TrimOf placed source :=
  TakenFrom.exists_of_mem (selectHistory_taken _ _ _) h

variable (manager bpe history strategy isLocal) in
theorem select_sorted :
    (origins (manager.select bpe history strategy isLocal).selected).Pairwise (· < ·) :=
  placeHistory_sorted.sublist (selectHistory_taken _ _ _).origins_sublist

theorem origins_staticPrefix : origins (manager.staticPrefix strategy) = [] := by
  unfold ContextManager.staticPrefix
  cases manager.systemPrompt <;> rfl

theorem origins_background (selected : List Placed) (band : BackgroundPressureBand) :
    origins (manager.background selected band) = [] := origins_map_made _

theorem origins_dynamicInjections : origins (manager.dynamicInjections history) = [] := by
  unfold ContextManager.dynamicInjections
  induction manager.library.injectors with
  | nil => rfl
  | cons inject injectors ih =>
      rw [List.flatMap_cons, origins_append, ih, List.append_nil]
      cases inject history with
      | error e => rfl
      | ok messages => exact origins_map_made messages

theorem origins_preamble (band : BackgroundPressureBand) :
    origins (manager.preamble bpe history strategy isLocal band) = [] := by
  have hsummary : ∀ (summary : Bool) (pruned : List Placed),
      origins (if summary then [prunedHistorySummary manager.library.render pruned] else []) = [] :=
    fun summary pruned => by cases summary <;> rfl
  unfold ContextManager.preamble
  dsimp only
  rw [origins_append, origins_append, origins_append, origins_staticPrefix, origins_background,
    origins_dynamicInjections, hsummary]
  rfl

variable (manager bpe history strategy isLocal) in
/-- What the messages that are fitted consist of. -/
theorem assemble_eq :
    ∃ made, origins made = [] ∧ manager.assemble bpe history strategy isLocal =
      made ++ restoreLatestUser (placeHistory history)
        (manager.select bpe history strategy isLocal).selected :=
  ⟨_, origins_preamble _, rfl⟩

theorem fallbackMessages_eq (manager : ContextManager) (history : List Placed) :
    ∃ made selected, origins made = [] ∧ List.Sublist selected history ∧
      manager.fallbackMessages history = made ++ selected ∧
      ∀ latest, latestUser history = some latest →
        ∃ post, selected = latest :: post ∧ ∀ placed ∈ post, placed.isUser = false := by
  have hmade : origins (manager.staticPrefix .fallback ++ manager.background history .normal) =
      [] := by
    rw [origins_append, origins_staticPrefix, origins_background, List.append_nil]
  unfold ContextManager.fallbackMessages
  rcases hlatest : latestUser history with _ | latest
  · rcases hlast : history.getLast? with _ | last
    · exact ⟨_, [], hmade, List.nil_sublist _, rfl, fun _ h => by cases h⟩
    · dsimp only [Option.toList_none]
      rw [List.append_nil]
      split_ifs
      · exact ⟨_, [], hmade, List.nil_sublist _, (List.append_nil _).symm, fun _ h => by cases h⟩
      · exact ⟨_, [last], hmade, List.singleton_sublist.mpr (List.mem_of_getLast? hlast), rfl,
          fun _ h => by cases h⟩
  · obtain ⟨huser, pre, post, rfl, hpost⟩ := reverse_find?_eq_some.mp hlatest
    have hsub : List.Sublist (latest :: post) (pre ++ latest :: post) :=
      List.sublist_append_right pre _
    rw [Option.toList_some]
    dsimp only
    rcases hback : post.getLast? with _ | last
    · obtain rfl := List.getLast?_eq_none_iff.mp hback
      rw [List.getLast?_concat]
      dsimp only
      rw [List.getLast?_concat, Option.any_some, if_pos (by simp)]
      exact ⟨_, [latest], hmade, List.sublist_append_right pre _, rfl,
        fun _ h => ⟨[], by rw [Option.some.inj h], by simp⟩⟩
    · have hlast : (pre ++ latest :: post).getLast? = some last := by
        simp [List.getLast?_cons, hback]
      have hmem := List.mem_of_getLast? hback
      rw [hlast]
      dsimp only
      have hdiffer : latest.message.role ≠ last.message.role := by
        have hother := hpost last hmem
        unfold Placed.isUser at huser hother
        intro heq
        rw [heq] at huser
        rw [huser] at hother
        cases hother
      rw [List.getLast?_concat, Option.any_some, decide_eq_false hdiffer, Bool.false_and,
        if_neg Bool.false_ne_true, List.append_assoc]
      refine ⟨_, [latest, last], hmade, ?_, rfl, fun _ h => ⟨[last], by rw [Option.some.inj h], ?_⟩⟩
      · exact ((List.singleton_sublist.mpr hmem).cons_cons latest).trans hsub
      · simpa using hpost last hmem

theorem fallback_keeps : KeepsConversation history
    (manager.contextMessages bpe history .fallback isLocal) := by
  obtain ⟨made, selected, hmade, hsub, hmessages, hlatest⟩ :=
    fallbackMessages_eq manager (placeHistory history)
  rw [ContextManager.contextMessages, if_pos rfl, hmessages]
  refine keeps_of_taken hmade (fun placed h => ⟨placed, hsub.mem h, .refl placed⟩)
    (placeHistory_sorted.sublist (hsub.filterMap _)) (fit_taken _ _ _ _ _) fun index hindex => ?_
  obtain ⟨latest, hfound, horigin⟩ := latestUserAt_iff.mp hindex
  obtain ⟨post, rfl, hpost⟩ := hlatest latest hfound
  obtain ⟨kept, hkept, htrim⟩ := exists_latest_mem_fit bpe manager.library.render isLocal
      manager.finalContextPromptBudget made (reverse_find?_eq_some.mp hfound).1 hpost
  exact mem_origins.mpr ⟨kept, hkept, htrim.1.trans horigin⟩

/-! ## Keeping the conversation -/

/-- The latest user message as it is put back behind the selected history. -/
def restoredUser (latest : Placed) : Placed := latest.softTrim 2000

variable (manager bpe history strategy isLocal) in
/-- No selected message that is later than `latest` stays: together they are over the budget,
it is not the system message at the head, and it does not fit beside `latest`. -/
def CrowdedOut (latest : Placed) (index : Nat) : Prop :=
  let messages := manager.assemble bpe history strategy isLocal
  let render := manager.library.render
  let budget := tailBudget bpe render isLocal manager.finalContextPromptBudget messages
  let cost := messageTokenCostForProvider bpe render isLocal
  ∀ placed ∈ (manager.select bpe history strategy isLocal).selected,
    ∀ later, placed.origin = some later → index < later →
      manager.finalContextPromptBudget <
          estimateTokensForProvider bpe render isLocal messages ∧
        (∀ system, firstSystem messages = some system → system.origin ≠ some later) ∧
        budget < cost (fittedLatest bpe render isLocal budget (restoredUser latest)) + cost placed

variable (manager bpe history strategy isLocal) in
/-- The latest user message is selected with the history, or no user message is and nothing
that is later than it stays beside it. -/
def LatestUserInPlace : Prop :=
  strategy = .fallback ∨
    ∀ latest index, latestUser (placeHistory history) = some latest → latest.origin = some index →
      index ∈ origins (manager.select bpe history strategy isLocal).selected ∨
        ((manager.select bpe history strategy isLocal).selected.any Placed.isUser = false ∧
          CrowdedOut manager bpe history strategy isLocal latest index)

theorem contextMessages_eq (hstrategy : strategy ≠ .fallback) :
    manager.contextMessages bpe history strategy isLocal =
      fitMessagesToPromptBudget bpe manager.library.render isLocal
        manager.finalContextPromptBudget (manager.assemble bpe history strategy isLocal) := by
  rw [ContextManager.contextMessages, if_neg hstrategy]

theorem select_isUser_iff {placed : Placed} {index : Nat}
    (hmem : placed ∈ (manager.select bpe history strategy isLocal).selected)
    (horigin : placed.origin = some index) :
    ∃ message, history[index]? = some message ∧
      (placed.isUser = true ↔ message.role = .user) := by
  obtain ⟨source, hsource, htrim⟩ := select_source hmem
  obtain ⟨i, hi, hget⟩ := of_mem_placeHistory hsource
  have heq : some index = some i := horigin.symm.trans (htrim.1.trans hi)
  rw [Option.some.injEq] at heq
  refine ⟨source.message, heq ▸ hget, ?_⟩
  rw [htrim.isUser]
  exact decide_eq_true_iff

theorem exists_origin_of_select {placed : Placed}
    (hmem : placed ∈ (manager.select bpe history strategy isLocal).selected) :
    ∃ index, placed.origin = some index := by
  obtain ⟨source, hsource, htrim⟩ := select_source hmem
  obtain ⟨i, hi, -⟩ := of_mem_placeHistory hsource
  exact ⟨i, htrim.1.trans hi⟩

theorem lt_of_select_split {pre post : List Placed} {placed later : Placed} {i j : Nat}
    (hsplit : (manager.select bpe history strategy isLocal).selected = pre ++ placed :: post)
    (hi : placed.origin = some i) (hlater : later ∈ post) (hj : later.origin = some j) : i < j := by
  have hsorted := select_sorted manager bpe history strategy isLocal
  rw [hsplit, origins_append] at hsorted
  have hcons := (List.pairwise_append.mp hsorted).2.1
  rw [origins, List.filterMap_cons, hi] at hcons
  exact (List.pairwise_cons.mp hcons).1 j (mem_origins.mpr ⟨later, hlater, hj⟩)

theorem restoreLatestUser_of_any {selected placed : List Placed}
    (h : selected.any Placed.isUser = true) : restoreLatestUser placed selected = selected :=
  if_pos h

theorem restoreLatestUser_of_none {selected placed : List Placed}
    (h : latestUser placed = none) : restoreLatestUser placed selected = selected := by
  unfold restoreLatestUser
  rw [h]
  split_ifs
  · rfl
  · exact List.append_nil selected

theorem restoreLatestUser_of_some {selected placed : List Placed} {latest : Placed}
    (hany : selected.any Placed.isUser = false) (h : latestUser placed = some latest) :
    restoreLatestUser placed selected = selected ++ [restoredUser latest] := by
  unfold restoreLatestUser
  rw [hany, h, if_neg Bool.false_ne_true]
  rfl

theorem keeps_of_selected (hstrategy : strategy ≠ .fallback)
    (hselected : ∀ latest index, latestUser (placeHistory history) = some latest →
      latest.origin = some index →
        index ∈ origins (manager.select bpe history strategy isLocal).selected) :
    KeepsConversation history (manager.contextMessages bpe history strategy isLocal) := by
  rw [contextMessages_eq hstrategy]
  obtain ⟨made, hmade, hassemble⟩ := assemble_eq manager bpe history strategy isLocal
  rcases hlatest : latestUser (placeHistory history) with _ | latest
  · rw [hassemble, restoreLatestUser_of_none hlatest]
    refine keeps_of_taken hmade (fun _ => select_source) (select_sorted _ _ _ _ _)
      (fit_taken _ _ _ _ _) ?_
    intro index hindex
    obtain ⟨latest, hfound, -⟩ := latestUserAt_iff.mp hindex
    rw [hlatest] at hfound
    cases hfound
  · obtain ⟨index, horigin, -⟩ := of_mem_placeHistory
      (List.mem_reverse.mp (List.mem_of_find?_eq_some hlatest))
    have hat : LatestUserAt history index := latestUserAt_iff.mpr ⟨latest, hlatest, horigin⟩
    obtain ⟨⟨message, hmessage, hrole⟩, hlast⟩ := hat
    obtain ⟨placed, hplaced, hplacedOrigin⟩ :=
      mem_origins.mp (hselected latest index hlatest horigin)
    have huser : placed.isUser = true := by
      obtain ⟨other, hother, hiff⟩ := select_isUser_iff hplaced hplacedOrigin
      rw [hmessage, Option.some.injEq] at hother
      exact hiff.mpr (hother ▸ hrole)
    rw [hassemble, restoreLatestUser_of_any (List.any_eq_true.mpr ⟨placed, hplaced, huser⟩)]
    refine keeps_of_taken hmade (fun _ => select_source) (select_sorted _ _ _ _ _)
      (fit_taken _ _ _ _ _) ?_
    intro i hi
    obtain ⟨other, hother, hotherOrigin⟩ := latestUserAt_iff.mp hi
    rw [hlatest, Option.some.injEq] at hother
    rw [← hother, horigin, Option.some.injEq] at hotherOrigin
    obtain ⟨pre, post, hsplit⟩ := List.append_of_mem hplaced
    have hpost : ∀ later ∈ post, later.isUser = false := by
      intro later hlater
      have hmem : later ∈ (manager.select bpe history strategy isLocal).selected := by
        simp [hsplit, hlater]
      obtain ⟨k, hk⟩ := exists_origin_of_select hmem
      obtain ⟨message', hget, hiff⟩ := select_isUser_iff hmem hk
      have hlt := lt_of_select_split hsplit hplacedOrigin hlater hk
      exact Bool.eq_false_iff.mpr fun h => hlast k message' hlt hget (hiff.mp h)
    obtain ⟨kept, hkept, htrim⟩ := exists_latest_mem_fit bpe manager.library.render isLocal
      manager.finalContextPromptBudget (made ++ pre) huser hpost
    rw [List.append_assoc, ← hsplit] at hkept
    exact mem_origins.mpr ⟨kept, hkept, hotherOrigin ▸ htrim.1.trans hplacedOrigin⟩

theorem TakenFrom.filter {found original : List Placed} (h : TakenFrom found original)
    (p : Placed → Bool) (hp : ∀ placed ∈ found, ∀ source, TrimOf placed source → p source = true) :
    TakenFrom found (original.filter p) := by
  induction h with
  | nil => exact .nil
  | @cons placed source found original htrim _ ih =>
      obtain ⟨hplaced, hrest⟩ := List.forall_mem_cons.mp hp
      rw [List.filter_cons_of_pos (hplaced source htrim)]
      exact .cons htrim (ih hrest)
  | @cons_right source found original _ ih =>
      rw [List.filter_cons]
      split_ifs
      · exact .cons_right (ih hp)
      · exact ih hp

theorem le_of_mem_of_crowdedOut (hstrategy : strategy ≠ .fallback) {latest : Placed} {index : Nat}
    (hlatest : latestUser (placeHistory history) = some latest)
    (horigin : latest.origin = some index)
    (hany : (manager.select bpe history strategy isLocal).selected.any Placed.isUser = false)
    (hcrowded : CrowdedOut manager bpe history strategy isLocal latest index) {found : Placed}
    (hfound : found ∈ manager.contextMessages bpe history strategy isLocal) {k : Nat}
    (hk : found.origin = some k) : k ≤ index := by
  rw [contextMessages_eq hstrategy] at hfound
  obtain ⟨made, hmade, hassemble⟩ := assemble_eq manager bpe history strategy isLocal
  rw [restoreLatestUser_of_some hany hlatest, ← List.append_assoc] at hassemble
  have huser : (restoredUser latest).isUser = true := (reverse_find?_eq_some.mp hlatest).1
  unfold CrowdedOut at hcrowded
  dsimp only at hcrowded
  rw [hassemble] at hcrowded hfound
  have hfront : ∀ placed ∈ made ++ (manager.select bpe history strategy isLocal).selected,
      placed.origin = some k →
        placed ∈ (manager.select bpe history strategy isLocal).selected := by
    intro placed hplaced hk
    rcases List.mem_append.mp hplaced with hmem | hmem
    · have hin : k ∈ origins made := mem_origins.mpr ⟨placed, hmem, hk⟩
      rw [hmade] at hin
      cases hin
    · exact hmem
  have hnotLatest : ∀ other, TrimOf found other → other.origin = some index → k ≤ index := by
    intro other htrim hother
    have heq : some k = some index := hk.symm.trans (htrim.1.trans hother)
    exact Nat.le_of_eq (Option.some.inj heq)
  by_contra hlt
  rw [Nat.not_le] at hlt
  obtain ⟨source, hsource, htrim⟩ := (fit_taken _ _ _ _ _).exists_of_mem hfound
  have hsourceOrigin : source.origin = some k := htrim.1 ▸ hk
  rcases List.mem_append.mp hsource with hmem | hmem
  · obtain ⟨hover, hhead, -⟩ := hcrowded source (hfront source hmem hsourceOrigin) k
      hsourceOrigin hlt
    rcases fit_append_latest_cases huser hfound with hle | hlast | ⟨system, hsystem, htrim'⟩ |
      ⟨placed, hplaced, htrim', hfits⟩
    · exact Nat.not_lt.mpr hle hover
    · exact Nat.not_le.mpr hlt (hnotLatest _ hlast horigin)
    · exact hhead system (by rw [firstSystem_append_latest _ huser, hsystem]) (htrim'.1 ▸ hk)
    · have horigin' : placed.origin = some k := htrim'.1 ▸ hk
      obtain ⟨-, -, hcost⟩ := hcrowded placed (hfront placed hplaced horigin') k horigin' hlt
      exact Nat.not_lt.mpr hfits hcost
  · rw [List.mem_singleton] at hmem
    exact Nat.not_le.mpr hlt (hnotLatest source htrim (by rw [hmem]; exact horigin))

theorem notMem_origins_select {latest : Placed} {index : Nat}
    (hlatest : latestUser (placeHistory history) = some latest)
    (horigin : latest.origin = some index)
    (hany : (manager.select bpe history strategy isLocal).selected.any Placed.isUser = false) :
    index ∉ origins (manager.select bpe history strategy isLocal).selected := by
  intro hmem
  obtain ⟨⟨message, hmessage, hrole⟩, -⟩ := latestUserAt_iff.mpr ⟨latest, hlatest, horigin⟩
  obtain ⟨placed, hplaced, hplacedOrigin⟩ := mem_origins.mp hmem
  obtain ⟨other, hother, hiff⟩ := select_isUser_iff hplaced hplacedOrigin
  rw [hmessage, Option.some.injEq] at hother
  exact List.any_eq_false.mp hany placed hplaced (hiff.mpr (hother ▸ hrole))

theorem origins_restoredUser {latest : Placed} {index : Nat}
    (horigin : latest.origin = some index) :
    origins [restoredUser latest] = [index] := by
  simp [origins, restoredUser, Placed.softTrim, horigin]

/-- The selected messages up to the latest user message, and the message itself. -/
theorem sorted_upTo_latest {latest : Placed} {index : Nat}
    (hlatest : latestUser (placeHistory history) = some latest)
    (horigin : latest.origin = some index)
    (hany : (manager.select bpe history strategy isLocal).selected.any Placed.isUser = false) :
    (origins ((manager.select bpe history strategy isLocal).selected.filter
      (fun placed => placed.origin.all (· ≤ index)) ++ [restoredUser latest])).Pairwise
        (· < ·) := by
  rw [origins_append, origins_restoredUser horigin]
  refine List.pairwise_append.mpr ⟨?_, List.pairwise_singleton _ _, ?_⟩
  · exact (select_sorted _ _ _ _ _).sublist (List.filter_sublist.filterMap _)
  · intro i hi j hj
    rw [List.mem_singleton] at hj
    obtain ⟨placed, hplaced, hplacedOrigin⟩ := mem_origins.mp hi
    obtain ⟨hmem, hle⟩ := List.mem_filter.mp hplaced
    rw [hplacedOrigin, Option.all_some, decide_eq_true_eq] at hle
    have hne : i ≠ index := by
      rintro rfl
      exact notMem_origins_select hlatest horigin hany
        (mem_origins.mpr ⟨placed, hmem, hplacedOrigin⟩)
    omega

theorem keeps_of_crowdedOut (hstrategy : strategy ≠ .fallback) {latest : Placed} {index : Nat}
    (hlatest : latestUser (placeHistory history) = some latest)
    (horigin : latest.origin = some index)
    (hany : (manager.select bpe history strategy isLocal).selected.any Placed.isUser = false)
    (hcrowded : CrowdedOut manager bpe history strategy isLocal latest index) :
    KeepsConversation history (manager.contextMessages bpe history strategy isLocal) := by
  have hle : ∀ found ∈ manager.contextMessages bpe history strategy isLocal,
      ∀ k, found.origin = some k → k ≤ index := fun _ hfound _ hk =>
    le_of_mem_of_crowdedOut hstrategy hlatest horigin hany hcrowded hfound hk
  rw [contextMessages_eq hstrategy] at hle ⊢
  obtain ⟨made, hmade, hassemble⟩ := assemble_eq manager bpe history strategy isLocal
  rw [restoreLatestUser_of_some hany hlatest] at hassemble
  have huser : (restoredUser latest).isUser = true := (reverse_find?_eq_some.mp hlatest).1
  have hfiltered := (fit_taken bpe manager.library.render isLocal manager.finalContextPromptBudget
    (manager.assemble bpe history strategy isLocal)).filter
      (fun source => source.origin.all (· ≤ index)) fun found hfound source htrim => by
        rw [Option.all_eq_true]
        intro k hk
        exact decide_eq_true (hle found hfound k (htrim.1.trans hk))
  have hlast : [restoredUser latest].filter (fun source => source.origin.all (· ≤ index)) =
      [restoredUser latest] := by
    simp [restoredUser, Placed.softTrim, horigin]
  refine keeps_of_taken
    (?_ : origins (made.filter fun source => source.origin.all (· ≤ index)) = [])
    ?_
    (sorted_upTo_latest hlatest horigin hany) ?_ ?_
  · exact List.eq_nil_of_sublist_nil (hmade ▸ List.filter_sublist.filterMap _)
  · intro placed hplaced
    rcases List.mem_append.mp hplaced with hmem | hmem
    · exact select_source (List.mem_of_mem_filter hmem)
    · rw [List.mem_singleton] at hmem
      exact ⟨latest, List.mem_reverse.mp (List.mem_of_find?_eq_some hlatest),
        hmem ▸ .softTrim latest 2000⟩
  · have hsplit : (manager.assemble bpe history strategy isLocal).filter
        (fun source => source.origin.all (· ≤ index)) =
        made.filter (fun source => source.origin.all (· ≤ index)) ++
          ((manager.select bpe history strategy isLocal).selected.filter
            (fun placed => placed.origin.all (· ≤ index)) ++ [restoredUser latest]) := by
      rw [hassemble, List.filter_append, List.filter_append, hlast]
    rwa [hsplit] at hfiltered
  · intro i hi
    obtain ⟨other, hother, hotherOrigin⟩ := latestUserAt_iff.mp hi
    rw [hlatest, Option.some.injEq] at hother
    rw [hassemble, ← List.append_assoc]
    obtain ⟨kept, hkept, htrim⟩ := exists_latest_mem_fit bpe manager.library.render isLocal
      manager.finalContextPromptBudget
      (made ++ (manager.select bpe history strategy isLocal).selected) huser (List.forall_mem_nil _)
    exact mem_origins.mpr ⟨kept, hkept, htrim.1.trans (hother ▸ hotherOrigin)⟩

/-! ## Where the conversation is kept -/

theorem behindHead_split (pre post : List Placed) (placed : Placed) :
    (∃ pre', behindHead (pre ++ placed :: post) = pre' ++ placed :: post) ∨
      firstSystem (pre ++ placed :: post) = some placed := by
  unfold behindHead
  rcases hfirst : firstSystem (pre ++ placed :: post) with _ | system
  · exact .inl ⟨pre, rfl⟩
  · cases pre with
    | nil =>
        obtain ⟨-, rest, hrest⟩ := firstSystem_eq_some hfirst
        exact .inr (by rw [(List.cons.inj hrest).1])
    | cons first pre => exact .inl ⟨pre, rfl⟩

theorem exists_later_of_not_crowdedOut (hstrategy : strategy ≠ .fallback) {latest : Placed}
    {index : Nat} (hlatest : latestUser (placeHistory history) = some latest)
    (hany : (manager.select bpe history strategy isLocal).selected.any Placed.isUser = false)
    (hcrowded : ¬CrowdedOut manager bpe history strategy isLocal latest index) :
    ∃ later ∈ origins (manager.contextMessages bpe history strategy isLocal), index < later := by
  rw [contextMessages_eq hstrategy]
  obtain ⟨made, -, hassemble⟩ := assemble_eq manager bpe history strategy isLocal
  rw [restoreLatestUser_of_some hany hlatest, ← List.append_assoc] at hassemble
  have huser : (restoredUser latest).isUser = true := (reverse_find?_eq_some.mp hlatest).1
  unfold CrowdedOut at hcrowded
  dsimp only at hcrowded
  rw [hassemble] at hcrowded ⊢
  simp only [not_forall, not_and_or] at hcrowded
  obtain ⟨placed, hplaced, k, hk, hlt, hstays⟩ := hcrowded
  obtain ⟨pre, post, hsplit⟩ := List.append_of_mem hplaced
  have hhead : ∀ system, firstSystem (made ++
      (manager.select bpe history strategy isLocal).selected ++ [restoredUser latest]) =
        some system →
      system.origin = some k → ∃ later ∈ origins (fitMessagesToPromptBudget bpe
        manager.library.render isLocal manager.finalContextPromptBudget (made ++
          (manager.select bpe history strategy isLocal).selected ++ [restoredUser latest])),
        index < later := by
    intro system hsystem hsystemOrigin
    obtain ⟨found, hfound, htrim⟩ := exists_head_mem_fit bpe manager.library.render isLocal
      manager.finalContextPromptBudget hsystem
    exact ⟨k, mem_origins.mpr ⟨found, hfound, htrim.1.trans hsystemOrigin⟩, hlt⟩
  rcases hstays with hle | ⟨system, hsystem, hsystemOrigin⟩ | hfits
  · rw [fit_of_le (Nat.not_lt.mp hle)]
    exact ⟨k, mem_origins.mpr ⟨placed, by simp [hplaced], hk⟩, hlt⟩
  · exact hhead system hsystem (not_not.mp hsystemOrigin)
  · rcases behindHead_split (made ++ pre) post placed with
      ⟨pre', hbehind⟩ | hfirst
    · rw [List.append_assoc, ← hsplit] at hbehind
      obtain ⟨later, hlater, found, hfound, htrim⟩ := exists_mem_fit_of_fits huser hbehind
        (Nat.not_lt.mp hfits)
      have hmem : later ∈ (manager.select bpe history strategy isLocal).selected :=
        hsplit ▸ List.mem_append_right pre hlater
      obtain ⟨j, hj⟩ := exists_origin_of_select hmem
      refine ⟨j, mem_origins.mpr ⟨found, hfound, htrim.1.trans hj⟩, ?_⟩
      rcases List.mem_cons.mp hlater with rfl | hpost
      · rw [hk, Option.some.injEq] at hj
        omega
      · exact hlt.trans (lt_of_select_split hsplit hk hpost hj)
    · rw [List.append_assoc, ← hsplit] at hfirst
      exact hhead placed (by rw [firstSystem_append_latest _ huser, hfirst]) hk

theorem inPlace_of_keeps
    (hkeeps : KeepsConversation history (manager.contextMessages bpe history strategy isLocal)) :
    LatestUserInPlace manager bpe history strategy isLocal := by
  unfold LatestUserInPlace
  by_cases hstrategy : strategy = .fallback
  · exact .inl hstrategy
  refine .inr fun latest index hlatest horigin => ?_
  have hin := hkeeps.latestUser index (latestUserAt_iff.mpr ⟨latest, hlatest, horigin⟩)
  obtain ⟨made, hmade, hassemble⟩ := assemble_eq manager bpe history strategy isLocal
  have htaken := fit_taken bpe manager.library.render isLocal
    manager.finalContextPromptBudget (manager.assemble bpe history strategy isLocal)
  rw [← contextMessages_eq hstrategy, hassemble] at htaken
  have hsub := htaken.origins_sublist
  rw [origins_append, hmade, List.nil_append] at hsub
  rcases hany : (manager.select bpe history strategy isLocal).selected.any Placed.isUser with _ | _
  · refine .inr ⟨rfl, ?_⟩
    by_contra hcrowded
    obtain ⟨later, hlater, hlt⟩ := exists_later_of_not_crowdedOut hstrategy hlatest hany hcrowded
    -- the latest user message comes last, behind the later one
    rw [restoreLatestUser_of_some hany hlatest, origins_append,
      origins_restoredUser horigin] at hsub
    obtain ⟨front, last, heq, hfront, hlast⟩ := List.sublist_append_iff.mp hsub
    have hnot : index ∉ front := fun h =>
      notMem_origins_select hlatest horigin hany (hfront.mem h)
    rw [heq, List.mem_append, or_iff_right hnot] at hin
    have hbefore : later ∈ front := by
      rw [heq, List.mem_append] at hlater
      rcases hlater with h | h
      · exact h
      · have hlaterEq := List.mem_singleton.mp (hlast.mem h)
        omega
    have hsorted := hkeeps.chronological
    rw [heq] at hsorted
    have hgt := (List.pairwise_append.mp hsorted).2.2 later hbefore index hin
    omega
  · rw [restoreLatestUser_of_any hany] at hsub
    exact .inl (hsub.mem hin)

end Context

/-- The context keeps the conversation exactly where the latest user message is in its place. -/
theorem buildContext_keepsConversation_iff (manager : ContextManager) (history : List Message)
    (strategy : Strategy) (isLocal : Bool) :
    (∀ messages, manager.buildContext history strategy isLocal = .ok messages →
      KeepsConversation history messages) ↔
      ∀ bpe, manager.library.cl100kBase = .ok bpe →
        LatestUserInPlace manager bpe history strategy isLocal := by
  have hcontext : ∀ bpe, KeepsConversation history
      (manager.contextMessages bpe history strategy isLocal) ↔
        LatestUserInPlace manager bpe history strategy isLocal := by
    intro bpe
    constructor
    · exact inPlace_of_keeps
    · intro hplace
      by_cases hstrategy : strategy = .fallback
      · subst hstrategy
        exact fallback_keeps
      have hplace := hplace.resolve_left hstrategy
      rcases hlatest : latestUser (placeHistory history) with _ | latest
      · exact keeps_of_selected hstrategy fun latest _ h => by rw [hlatest] at h; cases h
      · obtain ⟨index, horigin, -⟩ := of_mem_placeHistory
          (List.mem_reverse.mp (List.mem_of_find?_eq_some hlatest))
        rcases hplace latest index hlatest horigin with hin | ⟨hany, hcrowded⟩
        · refine keeps_of_selected hstrategy fun other i hother hi => ?_
          rw [hlatest, Option.some.injEq] at hother
          rw [← hother, horigin, Option.some.injEq] at hi
          exact hi ▸ hin
        · exact keeps_of_crowdedOut hstrategy hlatest horigin hany hcrowded
  unfold ContextManager.buildContext
  cases manager.library.cl100kBase with
  | error e => simp
  | ok bpe =>
      simp only [Except.ok.injEq, forall_eq']
      exact hcontext bpe

/-- A manager that keeps one message of the history, with a token for each character. -/
def sampleManager : ContextManager :=
  { config := { maxHistoryMessages := 1 }
    systemPrompt := some "You are an agent."
    hasBackgroundEnvelope := false
    library :=
      { cl100kBase := .ok fun text => text.toList.length
        historyWindow := fun messages ratio =>
          (messages * ratio.num.toNat + ratio.den - 1) / ratio.den
        pressureBand := fun tokens window =>
          if 20 * tokens ≥ 17 * window then .critical
          else if 10 * tokens ≥ 7 * window then .high
          else .normal
        backgroundMessages := fun _ _ => []
        injectors := []
        render := fun _ => "" } }

/-- After an answer the question is put back behind it. -/
theorem answeredHistory_reordered :
    ∃ messages, sampleManager.buildContext [.user "What is new?", .assistant "Nothing."]
        .standard false = .ok messages ∧
      ¬KeepsConversation [.user "What is new?", .assistant "Nothing."] messages := by
  refine ⟨sampleManager.contextMessages (fun text => text.toList.length)
    [.user "What is new?", .assistant "Nothing."] .standard false, rfl, fun hkeeps => ?_⟩
  have horigins : origins (sampleManager.contextMessages (fun text => text.toList.length)
      [.user "What is new?", .assistant "Nothing."] .standard false) = [1, 0] := by
    decide +kernel
  have hsorted := hkeeps.chronological
  rw [horigins] at hsorted
  simp at hsorted

end BenShu.Agent
