import BenShu.Agent.ContextOrder

/-!
# The summary of pruned messages

Messages are left out where the window ends and where the budget refuses them. What the
summary says of them is to stand in their order.
-/

namespace BenShu.Agent

open Protocol Selection

def summarized (pruned : List Placed) : List Placed :=
  pruned.reverse.filter fun placed => !placed.isSystem

def summaryText (render : Json → String) (listed : List Placed) : String :=
  "### Historical Context Summary (Pruned)\n" ++
    "To save context space, early history was summarized below:\n" ++
    String.join (listed.map fun placed => summaryLine render placed.message)

/-- The list has the user, assistant and tool messages of the history that are not selected,
each one once and in their order. -/
structure Chronicle (history : List Message) (selected listed : List Placed) : Prop where
  chronological : (origins listed).Pairwise (· < ·)
  complete : ∀ index, index ∈ origins listed ↔ index ∉ origins selected ∧
    ∃ message, history[index]? = some message ∧ message.role ≠ .system
  taken : ∀ placed ∈ listed, ∃ source ∈ placeHistory history, TrimOf placed source

section Selecting

variable (bpe : String → Nat) (render : Json → String) (isLocal : Bool)

def beforeWindow (window : Nat) (history : List Placed) : List Placed :=
  history.take (history.length - window)

def inWindow (window : Nat) (history : List Placed) : List Placed :=
  history.drop (history.length - window)

def selectionCost (placed : Placed) : Nat :=
  let tokens := fun (placed : Placed) => bpe (placed.message.text render)
  let trimmed := if tokens placed > 2000 then placed.softTrim 4000 else placed
  adjustEstimatedTokens (tokens trimmed + 4) isLocal

/-- What the messages of the window use up, gone through from the last one. -/
def selectionUsage (budget : Nat) (messages : List Placed) : Nat :=
  (messages.foldr (selectHistoryMessage bpe render isLocal budget) { pruned := [] }).usage

/-- At most one message with a line stands before the window, and if one does, all such
messages of the window fit in the budget beside those behind them. -/
structure InOrder (window budget : Nat) (history : List Placed) : Prop where
  few : ((beforeWindow window history).filter fun placed => !placed.isSystem).length ≤ 1
  fits : ((beforeWindow window history).filter fun placed => !placed.isSystem) ≠ [] →
    ∀ earlier placed later, inWindow window history = earlier ++ placed :: later →
      placed.isSystem = false →
        selectionUsage bpe render isLocal budget later + selectionCost bpe render isLocal placed ≤
          budget

end Selecting

/-- A summary is put into the context. -/
def ContextManager.summarizes (manager : ContextManager) (bpe : String → Nat)
    (history : List Message) (strategy : Strategy) (isLocal : Bool) : Bool :=
  strategy ≠ .fallback && (manager.config.smartPruning || strategy.config.enableSmartPruning) &&
    !(manager.select bpe history strategy isLocal).pruned.isEmpty &&
    !(isLocal && manager.hasBackgroundEnvelope)

/-! ## The text of the summary -/

theorem prunedHistorySummary_eq (render : Json → String) (pruned : List Placed) :
    prunedHistorySummary render pruned =
      .made (.system (summaryText render (summarized pruned))) := by
  have hlines : ∀ l : List Placed,
      String.join (l.map fun placed => summaryLine render placed.message) =
        String.join ((l.filter fun placed => !placed.isSystem).map fun placed =>
          summaryLine render placed.message) := by
    intro l
    induction l with
    | nil => rfl
    | cons placed l ih =>
        rw [List.map_cons, String.join_cons, ih]
        cases hsystem : placed.isSystem with
        | true =>
            have hrole : placed.message.role = .system := of_decide_eq_true hsystem
            have hline : summaryLine render placed.message = "" := by
              unfold summaryLine
              rw [hrole]
            rw [hline, String.empty_append, List.filter_cons_of_neg (by simp [hsystem])]
        | false =>
            rw [List.filter_cons_of_pos (by simp [hsystem]), List.map_cons, String.join_cons]
  unfold prunedHistorySummary summaryText summarized
  rw [hlines]

/-! ## What the budget refuses -/

section Refused

variable {bpe : String → Nat} {render : Json → String} {isLocal : Bool} {budget : Nat}

theorem selectHistoryMessage_cases (placed : Placed) (selection : HistorySelection) :
    ∃ trimmed, TrimOf trimmed placed ∧
      selectHistoryMessage bpe render isLocal budget placed selection =
        if selection.usage + selectionCost bpe render isLocal placed ≤ budget then
          { selection with
            usage := selection.usage + selectionCost bpe render isLocal placed
            selected := trimmed :: selection.selected }
        else { selection with pruned := selection.pruned ++ [trimmed] } := by
  refine ⟨_, ?_, rfl⟩
  split_ifs
  · exact .softTrim placed 4000
  · exact .refl placed

theorem foldr_select_pruned (messages pruned : List Placed) :
    messages.foldr (selectHistoryMessage bpe render isLocal budget) { pruned := pruned } =
      let selection :=
        messages.foldr (selectHistoryMessage bpe render isLocal budget) { pruned := [] }
      { selection with pruned := pruned ++ selection.pruned } := by
  induction messages with
  | nil => simp
  | cons placed messages ih =>
      rw [List.foldr_cons, List.foldr_cons, ih]
      generalize List.foldr (selectHistoryMessage bpe render isLocal budget) { pruned := [] }
        messages = selection
      unfold selectHistoryMessage
      dsimp only
      split_ifs
      · rfl
      · simp only [List.append_assoc]
      · rfl
      · simp only [List.append_assoc]

variable (bpe render isLocal budget) in
def refused (messages : List Placed) : List Placed :=
  (messages.foldr (selectHistoryMessage bpe render isLocal budget) { pruned := [] }).pruned

theorem refused_cons (placed : Placed) (messages : List Placed) :
    ∃ trimmed, TrimOf trimmed placed ∧
      refused bpe render isLocal budget (placed :: messages) =
        if selectionUsage bpe render isLocal budget messages +
            selectionCost bpe render isLocal placed ≤ budget then
          refused bpe render isLocal budget messages
        else refused bpe render isLocal budget messages ++ [trimmed] := by
  rcases @selectHistoryMessage_cases bpe render isLocal budget placed
    (messages.foldr (selectHistoryMessage bpe render isLocal budget) { pruned := [] }) with
    ⟨trimmed, htrim, hselect⟩
  refine ⟨trimmed, htrim, ?_⟩
  unfold refused selectionUsage
  rw [List.foldr_cons, hselect]
  split <;> rfl

theorem refused_taken (messages : List Placed) :
    TakenFrom (refused bpe render isLocal budget messages).reverse messages := by
  induction messages with
  | nil => exact .nil
  | cons placed messages ih =>
      rcases @refused_cons bpe render isLocal budget placed messages with ⟨trimmed, htrim, hcons⟩
      rw [hcons]
      split
      · exact .cons_right ih
      · rw [List.reverse_append]
        exact .cons htrim ih

theorem select_perm (messages : List Placed) :
    (origins (messages.foldr (selectHistoryMessage bpe render isLocal budget)
        { pruned := [] }).selected ++ origins (refused bpe render isLocal budget messages)).Perm
      (origins messages) := by
  induction messages with
  | nil => exact List.Perm.refl _
  | cons placed messages ih =>
      rcases @selectHistoryMessage_cases bpe render isLocal budget placed
        (messages.foldr (selectHistoryMessage bpe render isLocal budget) { pruned := [] }) with
        ⟨trimmed, htrim, hselect⟩
      have hone : origins [trimmed] = origins [placed] := by
        unfold origins
        rw [List.filterMap_cons, List.filterMap_cons, htrim.1]
      have hcons : ∀ (first : Placed) (l : List Placed),
          origins (first :: l) = origins [first] ++ origins l :=
        fun first l => origins_append [first] l
      unfold refused at ih ⊢
      rw [List.foldr_cons, hselect, hcons placed]
      split
      · dsimp only
        rw [hcons trimmed, hone, List.append_assoc]
        exact ih.append_left _
      · dsimp only
        rw [origins_append, hone, ← List.append_assoc]
        exact (ih.append_right _).trans List.perm_append_comm

theorem refused_unlisted_iff (messages : List Placed) :
    (refused bpe render isLocal budget messages).filter (fun placed => !placed.isSystem) = [] ↔
      ∀ earlier placed later, messages = earlier ++ placed :: later → placed.isSystem = false →
        selectionUsage bpe render isLocal budget later +
          selectionCost bpe render isLocal placed ≤ budget := by
  induction messages with
  | nil =>
      refine iff_of_true rfl ?_
      intro earlier placed later heq
      simp at heq
  | cons placed messages ih =>
      rcases @refused_cons bpe render isLocal budget placed messages with ⟨trimmed, htrim, hcons⟩
      have hsystem : trimmed.isSystem = placed.isSystem := by
        unfold Placed.isSystem
        rw [htrim.role]
      have hsplits : ∀ P : Placed → List Placed → Prop,
          (∀ earlier other later, placed :: messages = earlier ++ other :: later → P other later) ↔
            P placed messages ∧
              ∀ earlier other later, messages = earlier ++ other :: later → P other later := by
        intro P
        constructor
        · intro h
          refine ⟨h [] placed messages rfl, fun earlier other later heq => ?_⟩
          exact h (placed :: earlier) other later (by rw [heq]; rfl)
        · intro ⟨hfirst, hrest⟩ earlier other later heq
          cases earlier with
          | nil =>
              cases heq
              exact hfirst
          | cons first earlier => exact hrest earlier other later (List.cons.inj heq).2
      rw [hcons, hsplits fun other later => other.isSystem = false → _ ≤ budget, ← ih]
      split
      · rename_i hfits
        exact (and_iff_right fun _ => hfits).symm
      · rename_i hover
        rw [List.filter_append, List.append_eq_nil_iff, and_comm]
        refine and_congr_left' ?_
        rw [List.filter_eq_nil_iff, List.forall_mem_singleton, hsystem]
        cases placed.isSystem <;> simp [hover]

end Refused

/-! ## The order of the summary -/

/-- Two runs of numbers, the second one backwards and below the first one, are in order if the
second one has one number at most, and has none unless the first one is empty. -/
theorem pairwise_append_reverse_iff {high low : List Nat} (hhigh : high.Pairwise (· < ·))
    (hlow : low.Pairwise (· < ·)) (hbelow : ∀ x ∈ low, ∀ y ∈ high, x < y) :
    (high ++ low.reverse).Pairwise (· < ·) ↔ low.length ≤ 1 ∧ (low ≠ [] → high = []) := by
  rw [List.pairwise_append, List.pairwise_reverse]
  constructor
  · intro ⟨_, hback, hacross⟩
    constructor
    · cases low with
      | nil => exact Nat.zero_le _
      | cons x low =>
          cases low with
          | nil => exact Nat.le_refl _
          | cons y low =>
              have hup := (List.pairwise_cons.mp hlow).1 y List.mem_cons_self
              have hdown := (List.pairwise_cons.mp hback).1 y List.mem_cons_self
              omega
    · intro hne
      cases low with
      | nil => exact absurd rfl hne
      | cons x low =>
          cases high with
          | nil => rfl
          | cons y high =>
              have hup := hbelow x List.mem_cons_self y List.mem_cons_self
              have hdown := hacross y List.mem_cons_self x
                (List.mem_reverse.mpr List.mem_cons_self)
              omega
  · intro ⟨hfew, hempty⟩
    refine ⟨hhigh, ?_, ?_⟩
    · cases low with
      | nil => exact List.Pairwise.nil
      | cons x low =>
          cases low with
          | nil => exact List.pairwise_singleton _ _
          | cons y low =>
              rw [List.length_cons, List.length_cons] at hfew
              omega
    · intro x hx y hy
      cases low with
      | nil => cases hy
      | cons z low =>
          rw [hempty (List.cons_ne_nil z low)] at hx
          cases hx

theorem length_origins {l : List Placed} (h : ∀ placed ∈ l, placed.origin.isSome = true) :
    (origins l).length = l.length := by
  induction l with
  | nil => rfl
  | cons placed l ih =>
      rw [List.forall_mem_cons] at h
      rcases Option.isSome_iff_exists.mp h.1 with ⟨index, hindex⟩
      unfold origins at ih ⊢
      rw [List.filterMap_cons_some hindex, List.length_cons, List.length_cons, ih h.2]

theorem origins_eq_nil_iff {l : List Placed} (h : ∀ placed ∈ l, placed.origin.isSome = true) :
    origins l = [] ↔ l = [] := by
  rw [← List.length_eq_zero_iff, length_origins h, List.length_eq_zero_iff]

section Summary

variable (manager : ContextManager) (bpe : String → Nat) (history : List Message)
  (strategy : Strategy) (isLocal : Bool)

/-- What the window leaves out, and then what the budget refuses, latest first. -/
theorem select_eq :
    (manager.select bpe history strategy isLocal).pruned =
        beforeWindow (manager.effectiveMaxHistory strategy isLocal) (placeHistory history) ++
          refused bpe manager.library.render isLocal
            (manager.historyBudget bpe history strategy isLocal)
            (inWindow (manager.effectiveMaxHistory strategy isLocal) (placeHistory history)) ∧
      (manager.select bpe history strategy isLocal).selected =
        ((inWindow (manager.effectiveMaxHistory strategy isLocal) (placeHistory history)).foldr
          (selectHistoryMessage bpe manager.library.render isLocal
            (manager.historyBudget bpe history strategy isLocal)) { pruned := [] }).selected := by
  unfold ContextManager.select selectHistory
  rw [foldr_select_pruned]
  exact ⟨rfl, rfl⟩

theorem placed_some {placed : Placed} (h : placed ∈ placeHistory history) :
    placed.origin.isSome = true := by
  rcases of_mem_placeHistory h with ⟨index, hindex, _⟩
  rw [hindex]
  rfl

theorem summarized_complete (index : Nat) :
    index ∈ origins (summarized (manager.select bpe history strategy isLocal).pruned) ↔
      index ∉ origins (manager.select bpe history strategy isLocal).selected ∧
        ∃ message, history[index]? = some message ∧ message.role ≠ .system := by
  rcases select_eq manager bpe history strategy isLocal with ⟨hpruned, hselected⟩
  rw [hpruned, hselected]
  generalize manager.effectiveMaxHistory strategy isLocal = window
  generalize manager.historyBudget bpe history strategy isLocal = budget
  have hsplit : beforeWindow window (placeHistory history) ++
      inWindow window (placeHistory history) = placeHistory history := List.take_append_drop _ _
  have hsorted := @placeHistory_sorted history
  rw [← hsplit, origins_append, List.pairwise_append] at hsorted
  rcases hsorted with ⟨_, hwindow, hacross⟩
  have hperm := @select_perm bpe manager.library.render isLocal budget
    (inWindow window (placeHistory history))
  have hnodup := hperm.nodup_iff.mpr (hwindow.imp fun hlt => Nat.ne_of_lt hlt)
  have hdisjoint := (List.nodup_append.mp hnodup).2.2
  have hmem : ∀ placed : Placed, placed ∈ beforeWindow window (placeHistory history) ∨
      placed ∈ inWindow window (placeHistory history) → placed ∈ placeHistory history := by
    intro placed h
    rw [← hsplit]
    exact List.mem_append.mpr h
  have hlisted : index ∈ origins (summarized (beforeWindow window (placeHistory history) ++
      refused bpe manager.library.render isLocal budget
        (inWindow window (placeHistory history)))) ↔
      ∃ placed, (placed ∈ beforeWindow window (placeHistory history) ∨
        placed ∈ refused bpe manager.library.render isLocal budget
          (inWindow window (placeHistory history))) ∧
        placed.message.role ≠ .system ∧ placed.origin = some index := by
    rw [mem_origins]
    unfold summarized Placed.isSystem
    simp only [List.mem_filter, List.mem_reverse, List.mem_append, Bool.not_eq_true',
      decide_eq_false_iff_not, and_assoc]
  have hrefused : ∀ placed ∈ refused bpe manager.library.render isLocal budget
      (inWindow window (placeHistory history)), ∃ source ∈ inWindow window (placeHistory history),
        TrimOf placed source :=
    fun placed h => (refused_taken _).exists_of_mem (List.mem_reverse.mpr h)
  rw [hlisted]
  constructor
  · intro ⟨placed, hplaced, hrole, horigin⟩
    rcases hplaced with hbefore | hrefusedMem
    · rcases of_mem_placeHistory (hmem placed (.inl hbefore)) with ⟨i, hi, hmessage⟩
      rw [horigin, Option.some.injEq] at hi
      refine ⟨fun hsel => ?_, placed.message, by rw [hi]; exact hmessage, hrole⟩
      have hin := hperm.mem_iff.mp (List.mem_append_left _ hsel)
      have hlt := hacross index (mem_origins.mpr ⟨placed, hbefore, horigin⟩) index hin
      omega
    · rcases hrefused placed hrefusedMem with ⟨source, hsource, htrim⟩
      rcases of_mem_placeHistory (hmem source (.inr hsource)) with ⟨i, hi, hmessage⟩
      rw [← htrim.1, horigin, Option.some.injEq] at hi
      refine ⟨fun hsel => ?_, source.message, by rw [hi]; exact hmessage, ?_⟩
      · exact hdisjoint index hsel index
          (mem_origins.mpr ⟨placed, hrefusedMem, horigin⟩) rfl
      · rwa [← htrim.role]
  · intro ⟨hunselected, message, hmessage, hrole⟩
    have hplaced : (⟨some index, message⟩ : Placed) ∈ placeHistory history :=
      List.mem_of_getElem? (i := index) (by rw [placeHistory_getElem?, hmessage]; rfl)
    rw [← hsplit] at hplaced
    rcases List.mem_append.mp hplaced with hbefore | hin
    · exact ⟨_, .inl hbefore, hrole, rfl⟩
    · have horigin : index ∈ origins (inWindow window (placeHistory history)) :=
        mem_origins.mpr ⟨_, hin, rfl⟩
      have hleft := (List.mem_append.mp (hperm.mem_iff.mpr horigin)).resolve_left hunselected
      rcases mem_origins.mp hleft with ⟨placed, hrefusedMem, hindex⟩
      rcases hrefused placed hrefusedMem with ⟨source, hsource, htrim⟩
      rcases of_mem_placeHistory (hmem source (.inr hsource)) with ⟨i, hi, hat⟩
      rw [← htrim.1, hindex, Option.some.injEq] at hi
      rw [← hi, hmessage, Option.some.injEq] at hat
      refine ⟨placed, .inr hrefusedMem, ?_, hindex⟩
      rwa [htrim.role, ← hat]

theorem summarized_taken {placed : Placed}
    (h : placed ∈ summarized (manager.select bpe history strategy isLocal).pruned) :
    ∃ source ∈ placeHistory history, TrimOf placed source := by
  have hmem := List.mem_reverse.mp (List.mem_of_mem_filter h)
  rw [(select_eq manager bpe history strategy isLocal).1] at hmem
  rcases List.mem_append.mp hmem with hbefore | hrefused
  · exact ⟨placed, List.mem_of_mem_take hbefore, .refl placed⟩
  · rcases (refused_taken _).exists_of_mem (List.mem_reverse.mpr hrefused) with
      ⟨source, hsource, htrim⟩
    exact ⟨source, List.mem_of_mem_drop hsource, htrim⟩

theorem summarized_chronological_iff :
    (origins (summarized (manager.select bpe history strategy isLocal).pruned)).Pairwise
        (· < ·) ↔
      InOrder bpe manager.library.render isLocal (manager.effectiveMaxHistory strategy isLocal)
        (manager.historyBudget bpe history strategy isLocal) (placeHistory history) := by
  rw [(select_eq manager bpe history strategy isLocal).1]
  generalize manager.effectiveMaxHistory strategy isLocal = window
  generalize manager.historyBudget bpe history strategy isLocal = budget
  have hsplit : beforeWindow window (placeHistory history) ++
      inWindow window (placeHistory history) = placeHistory history := List.take_append_drop _ _
  have hsorted := @placeHistory_sorted history
  rw [← hsplit, origins_append, List.pairwise_append] at hsorted
  rcases hsorted with ⟨hbefore, hwindow, hacross⟩
  have hrefused := @refused_taken bpe manager.library.render isLocal budget
    (inWindow window (placeHistory history))
  have hlow : (origins ((beforeWindow window (placeHistory history)).filter
      fun placed => !placed.isSystem)).Sublist
        (origins (beforeWindow window (placeHistory history))) :=
    List.filter_sublist.filterMap _
  have hhigh : (origins ((refused bpe manager.library.render isLocal budget
      (inWindow window (placeHistory history))).reverse.filter
        fun placed => !placed.isSystem)).Sublist
          (origins (inWindow window (placeHistory history))) :=
    (List.filter_sublist.filterMap _).trans hrefused.origins_sublist
  have hlowSome : ∀ placed ∈ (beforeWindow window (placeHistory history)).filter
      (fun placed => !placed.isSystem), placed.origin.isSome = true :=
    fun placed h => placed_some history (List.mem_of_mem_take (List.mem_of_mem_filter h))
  have hhighSome : ∀ placed ∈ (refused bpe manager.library.render isLocal budget
      (inWindow window (placeHistory history))).reverse.filter
        (fun placed => !placed.isSystem), placed.origin.isSome = true := by
    intro placed h
    rcases hrefused.exists_of_mem (List.mem_of_mem_filter h) with ⟨source, hsource, htrim⟩
    rw [htrim.1]
    exact placed_some history (List.mem_of_mem_drop hsource)
  have hempty : (refused bpe manager.library.render isLocal budget
      (inWindow window (placeHistory history))).reverse.filter (fun placed => !placed.isSystem) =
        [] ↔ (refused bpe manager.library.render isLocal budget
          (inWindow window (placeHistory history))).filter (fun placed => !placed.isSystem) =
            [] := by
    rw [List.filter_reverse, List.reverse_eq_nil_iff]
  have hback : origins ((beforeWindow window (placeHistory history)).reverse.filter
      fun placed => !placed.isSystem) =
        (origins ((beforeWindow window (placeHistory history)).filter
          fun placed => !placed.isSystem)).reverse := by
    rw [List.filter_reverse]
    exact List.filterMap_reverse
  unfold summarized
  rw [List.reverse_append, List.filter_append, origins_append, hback,
    pairwise_append_reverse_iff (hwindow.sublist hhigh) (hbefore.sublist hlow)
    (fun x hx y hy => hacross x (hlow.mem hx) y (hhigh.mem hy)), length_origins hlowSome,
    ne_eq, origins_eq_nil_iff hlowSome, origins_eq_nil_iff hhighSome, hempty,
    refused_unlisted_iff]
  exact ⟨fun h => ⟨h.1, h.2⟩, fun h => ⟨h.few, h.fits⟩⟩

/-- The summary that is put into the context has the pruned messages in their order exactly if
at most one of them stands before the window, and no other one is pruned if one does. -/
theorem summary_chronicle_iff
    (hsummarizes : manager.summarizes bpe history strategy isLocal = true) :
    (∃ front, manager.assemble bpe history strategy isLocal =
      front ++ .made (.system (summaryText manager.library.render
          (summarized (manager.select bpe history strategy isLocal).pruned))) ::
        restoreLatestUser (placeHistory history)
          (manager.select bpe history strategy isLocal).selected) ∧
    (Chronicle history (manager.select bpe history strategy isLocal).selected
        (summarized (manager.select bpe history strategy isLocal).pruned) ↔
      InOrder bpe manager.library.render isLocal (manager.effectiveMaxHistory strategy isLocal)
        (manager.historyBudget bpe history strategy isLocal) (placeHistory history)) := by
  constructor
  · unfold ContextManager.summarizes at hsummarizes
    simp only [Bool.and_eq_true] at hsummarizes
    have hshown : ((manager.config.smartPruning || strategy.config.enableSmartPruning) &&
        !(manager.select bpe history strategy isLocal).pruned.isEmpty &&
        !(isLocal && manager.hasBackgroundEnvelope)) = true := by
      rw [Bool.and_eq_true, Bool.and_eq_true]
      exact ⟨⟨hsummarizes.1.1.2, hsummarizes.1.2⟩, hsummarizes.2⟩
    have hpreamble : ∀ band, ∃ front, manager.preamble bpe history strategy isLocal band =
        front ++ [.made (.system (summaryText manager.library.render
          (summarized (manager.select bpe history strategy isLocal).pruned)))] := by
      intro band
      unfold ContextManager.preamble
      dsimp only
      rw [if_pos hshown, prunedHistorySummary_eq]
      exact ⟨_, rfl⟩
    unfold ContextManager.assemble
    dsimp only
    rcases hpreamble (if manager.config.maxTokens = 0 then .normal else _) with ⟨front, hfront⟩
    rw [hfront, List.append_assoc]
    exact ⟨front, rfl⟩
  · rw [← summarized_chronological_iff]
    constructor
    · exact fun h => h.chronological
    · exact fun h => ⟨h, summarized_complete manager bpe history strategy isLocal,
        fun _ hplaced => summarized_taken manager bpe history strategy isLocal hplaced⟩

end Summary

theorem sampleManager_window : sampleManager.effectiveMaxHistory .compressed false = 1 := by
  decide +kernel

theorem sampleManager_summarizes (bpe : String → Nat) {history : List Message}
    (h : 1 < history.length) : sampleManager.summarizes bpe history .compressed false = true := by
  have hpruned : (sampleManager.select bpe history .compressed false).pruned ≠ [] := by
    rw [(select_eq sampleManager bpe history .compressed false).1, sampleManager_window]
    refine List.append_ne_nil_of_left_ne_nil (fun hnil => ?_) _
    have hlength := congrArg List.length hnil
    unfold beforeWindow placeHistory at hlength
    simp only [List.length_take, List.length_map, List.length_zipIdx, List.length_nil] at hlength
    omega
  unfold ContextManager.summarizes
  rw [List.isEmpty_eq_false_iff.mpr hpruned]
  rfl

/-- One message before the window. -/
theorem summary_chronicle_pair : Chronicle [.user "one", .user "two"]
    (sampleManager.select (fun text => text.toList.length) [.user "one", .user "two"]
      .compressed false).selected
    (summarized (sampleManager.select (fun text => text.toList.length)
      [.user "one", .user "two"] .compressed false).pruned) := by
  refine (summary_chronicle_iff sampleManager (fun text => text.toList.length)
    [.user "one", .user "two"] .compressed false
    (sampleManager_summarizes _ (by decide))).2.mpr ⟨by decide +kernel, ?_⟩
  intro _ earlier placed later heq _
  have hwindow : inWindow (sampleManager.effectiveMaxHistory .compressed false)
      (placeHistory [.user "one", .user "two"]) = [⟨some 1, .user "two"⟩] := by
    rw [sampleManager_window]
    rfl
  rw [hwindow] at heq
  cases earlier with
  | nil =>
      cases heq
      decide +kernel
  | cons first earlier => simp at heq

/-- Two messages before the window are listed the later one first. -/
theorem summary_reversed :
    sampleManager.summarizes (fun text => text.toList.length)
      [.user "one", .user "two", .user "three"] .compressed false = true ∧
    ¬Chronicle [.user "one", .user "two", .user "three"]
      (sampleManager.select (fun text => text.toList.length)
        [.user "one", .user "two", .user "three"] .compressed false).selected
      (summarized (sampleManager.select (fun text => text.toList.length)
        [.user "one", .user "two", .user "three"] .compressed false).pruned) := by
  refine ⟨sampleManager_summarizes _ (by decide), fun h => ?_⟩
  have hlisted : origins (summarized (sampleManager.select (fun text => text.toList.length)
      [.user "one", .user "two", .user "three"] .compressed false).pruned) = [1, 0] := by
    decide +kernel
  have hsorted := h.chronological
  rw [hlisted] at hsorted
  simp at hsorted

end BenShu.Agent
