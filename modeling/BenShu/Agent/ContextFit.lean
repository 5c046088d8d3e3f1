import BenShu.Agent.Context

/-!
# Fitting a prompt to its budget

What the second budget pass keeps of the messages it is given: their order, the system
message at the head, the latest user message, and what fits beside it.
-/

namespace BenShu.Agent

open Protocol Selection

/-! ## Trimmed messages -/

/-- The same message of the history, trimmed any number of times. -/
def TrimOf (found original : Placed) : Prop :=
  found.origin = original.origin ∧
    ∃ limits : List Nat, found.message = limits.foldl Message.softTrim original.message

namespace TrimOf

theorem refl (placed : Placed) : TrimOf placed placed := ⟨rfl, [], rfl⟩

theorem trans {a b c : Placed} (hab : TrimOf a b) (hbc : TrimOf b c) : TrimOf a c := by
  obtain ⟨hab, limits, hlimits⟩ := hab
  obtain ⟨hbc, earlier, hearlier⟩ := hbc
  refine ⟨hab.trans hbc, earlier ++ limits, ?_⟩
  rw [hlimits, hearlier, List.foldl_append]

theorem softTrim (placed : Placed) (limit : Nat) : TrimOf (placed.softTrim limit) placed :=
  ⟨rfl, [limit], rfl⟩

theorem role {a b : Placed} (h : TrimOf a b) : a.message.role = b.message.role := by
  obtain ⟨-, limits, hlimits⟩ := h
  rw [hlimits]
  generalize b.message = message
  clear hlimits
  induction limits generalizing message with
  | nil => rfl
  | cons limit limits ih => rw [List.foldl_cons, ih, Message.role_softTrim]

theorem isUser {a b : Placed} (h : TrimOf a b) : a.isUser = b.isUser := by
  unfold Placed.isUser
  rw [h.role]

end TrimOf

instance : Std.Refl TrimOf := ⟨TrimOf.refl⟩

instance : IsTrans Placed TrimOf := ⟨fun _ _ _ => TrimOf.trans⟩

abbrev TakenFrom (found original : List Placed) : Prop := List.SublistForall₂ TrimOf found original

def origins (messages : List Placed) : List Nat := messages.filterMap (·.origin)

theorem mem_origins {messages : List Placed} {i : Nat} :
    i ∈ origins messages ↔ ∃ placed ∈ messages, placed.origin = some i := List.mem_filterMap

@[simp] theorem origins_append (l l' : List Placed) :
    origins (l ++ l') = origins l ++ origins l' := List.filterMap_append

@[simp] theorem origins_map_made (messages : List Message) :
    origins (messages.map .made) = [] := by
  simp [origins, Placed.made, List.filterMap_map]

namespace TakenFrom

theorem trans {a b c : List Placed} (hab : TakenFrom a b) (hbc : TakenFrom b c) :
    TakenFrom a c :=
  IsTrans.trans _ _ _ hab hbc

theorem origins_sublist {found original : List Placed} (h : TakenFrom found original) :
    List.Sublist (origins found) (origins original) :=
  labels_sublist (fun _ _ htrim => htrim.1) h

theorem exists_of_mem {found original : List Placed} (h : TakenFrom found original)
    {placed : Placed} (hmem : placed ∈ found) : ∃ source ∈ original, TrimOf placed source := by
  obtain ⟨l, hall, hsub⟩ := List.sublistForall₂_iff.mp h
  obtain ⟨i, hi, rfl⟩ := List.mem_iff_getElem.mp hmem
  have hlen : i < l.length := hall.length_eq ▸ hi
  exact ⟨l[i], hsub.mem (List.getElem_mem hlen), hall.get hi hlen⟩

end TakenFrom

theorem exists_trimOf_of_mem {found original : List Placed} (h : List.Forall₂ TrimOf found original)
    {source : Placed} (hmem : source ∈ original) : ∃ placed ∈ found, TrimOf placed source := by
  induction h with
  | nil => cases hmem
  | @cons placed source' found original htrim _ ih =>
      rcases List.mem_cons.mp hmem with rfl | hrest
      · exact ⟨placed, List.mem_cons_self, htrim⟩
      · obtain ⟨later, hlater, hlaterTrim⟩ := ih hrest
        exact ⟨later, List.mem_cons_of_mem placed hlater, hlaterTrim⟩

/-! ## Fitting -/

section Fit

variable {bpe : String → Nat} {render : Json → String} {isLocal : Bool}

theorem trimMessageToTokenBudget_trims (placed : Placed) (budget : Nat) :
    TrimOf (trimMessageToTokenBudget placed budget isLocal) placed := .softTrim placed _

/-- A message of the tail is passed over, or it is put in front, whole or trimmed. -/
theorem fitTailMessage_cases (budget : Nat) (skipFirst : Bool) (latest : Option Nat)
    (entry : Placed × Nat) (tail : Tail) :
    fitTailMessage bpe render isLocal budget skipFirst latest entry tail = tail ∨
      ∃ candidate used, TrimOf candidate entry.1 ∧
        fitTailMessage bpe render isLocal budget skipFirst latest entry tail =
          ⟨used, candidate :: tail.messages⟩ := by
  unfold fitTailMessage
  dsimp only
  split_ifs
  · exact .inl rfl
  · exact .inl rfl
  · exact .inr ⟨_, _, trimMessageToTokenBudget_trims entry.1 _, rfl⟩
  · exact .inr ⟨_, _, .refl entry.1, rfl⟩

theorem foldr_fitTailMessage_taken (budget : Nat) (skipFirst : Bool) (latest : Option Nat)
    (messages : List Placed) (first : Nat) :
    TakenFrom ((messages.zipIdx first).foldr
      (fitTailMessage bpe render isLocal budget skipFirst latest) {}).messages messages := by
  induction messages generalizing first with
  | nil => exact .nil
  | cons placed messages ih =>
      rw [List.zipIdx_cons, List.foldr_cons]
      rcases fitTailMessage_cases budget skipFirst latest (placed, first)
        ((messages.zipIdx (first + 1)).foldr
          (fitTailMessage bpe render isLocal budget skipFirst latest) {}) with
        h | ⟨candidate, used, htrim, h⟩
      · rw [h]
        exact .cons_right (ih (first + 1))
      · rw [h]
        exact .cons htrim (ih (first + 1))

theorem mem_foldr_fitTailMessage {budget : Nat} {skipFirst : Bool} {latest : Option Nat}
    {placed : Placed} {tail : Tail} (h : placed ∈ tail.messages) (entries : List (Placed × Nat)) :
    placed ∈ (entries.foldr
      (fitTailMessage bpe render isLocal budget skipFirst latest) tail).messages := by
  induction entries with
  | nil => exact h
  | cons entry entries ih =>
      rw [List.foldr_cons]
      rcases fitTailMessage_cases budget skipFirst latest entry (entries.foldr
        (fitTailMessage bpe render isLocal budget skipFirst latest) tail) with
        hstep | ⟨candidate, used, _, hstep⟩
      · rwa [hstep]
      · rw [hstep]
        exact List.mem_cons_of_mem candidate ih

variable (bpe render isLocal) in
theorem fitTailMessage_latest {budget index : Nat} {skipFirst : Bool} (placed : Placed)
    {tail : Tail} (hskip : (index = 0 && skipFirst) = false) :
    ∃ candidate, TrimOf candidate placed ∧
      (fitTailMessage bpe render isLocal budget skipFirst (some index) (placed, index)
        tail).messages = candidate :: tail.messages := by
  unfold fitTailMessage
  dsimp only
  rw [if_neg (by simpa using hskip)]
  split_ifs with hover
  · simp at *
  · exact ⟨_, trimMessageToTokenBudget_trims placed _, rfl⟩
  · exact ⟨placed, .refl placed, rfl⟩

theorem firstSystem_eq_some {messages : List Placed} {system : Placed}
    (h : firstSystem messages = some system) :
    system.isSystem = true ∧ ∃ rest, messages = system :: rest := by
  unfold firstSystem at h
  obtain ⟨hhead, hsystem⟩ := Option.filter_eq_some_iff.mp h
  obtain ⟨rest, hrest⟩ := List.head?_eq_some_iff.mp hhead
  exact ⟨hsystem, rest, hrest⟩

variable (bpe render isLocal) in
theorem fittedHead_of_some (promptBudget : Nat) {messages : List Placed} {system : Placed}
    (h : firstSystem messages = some system) :
    ∃ head, TrimOf head system ∧ fittedHead bpe render isLocal promptBudget messages = [head] := by
  unfold fittedHead
  rw [h]
  dsimp only
  split_ifs
  · exact ⟨_, trimMessageToTokenBudget_trims system _, rfl⟩
  · exact ⟨system, .refl system, rfl⟩

theorem fittedHead_of_none {promptBudget : Nat} {messages : List Placed}
    (h : firstSystem messages = none) :
    fittedHead bpe render isLocal promptBudget messages = [] := by
  unfold fittedHead
  rw [h]

theorem fittedHead_fitTail_taken (promptBudget : Nat) (messages : List Placed) :
    TakenFrom (fittedHead bpe render isLocal promptBudget messages ++
      fitTail bpe render isLocal promptBudget messages) messages := by
  unfold fitTail
  rcases hfirst : firstSystem messages with _ | system
  · rw [fittedHead_of_none hfirst, List.nil_append]
    exact foldr_fitTailMessage_taken _ _ _ messages 0
  · obtain ⟨-, rest, rfl⟩ := firstSystem_eq_some hfirst
    obtain ⟨head, htrim, hhead⟩ := fittedHead_of_some bpe render isLocal promptBudget
      hfirst
    rw [hhead, List.zipIdx_cons, List.foldr_cons]
    have hskip : ∀ budget latest tail, fitTailMessage bpe render isLocal budget true latest
        (system, 0) tail = tail := fun budget latest tail => by simp [fitTailMessage]
    rw [Option.isSome_some, hskip]
    exact .cons htrim (foldr_fitTailMessage_taken _ _ _ rest 1)

variable (bpe render isLocal) in
theorem dropWhileOver_sublist (promptBudget : Nat) (fitted : List Placed) :
    List.Sublist (dropWhileOver bpe render isLocal promptBudget fitted) fitted := by
  fun_induction dropWhileOver bpe render isLocal promptBudget fitted with
  | case1 fitted _ _ => exact List.Sublist.refl fitted
  | case2 fitted _ index _ ih => exact ih.trans (List.eraseIdx_sublist fitted index)
  | case3 fitted _ => exact List.Sublist.refl fitted

variable (bpe render isLocal) in
theorem mem_dropWhileOver (promptBudget : Nat) {fitted : List Placed} {placed : Placed}
    (hmem : placed ∈ fitted) (hkeep : (placed.isSystem || placed.isUser) = true) :
    placed ∈ dropWhileOver bpe render isLocal promptBudget fitted := by
  fun_induction dropWhileOver bpe render isLocal promptBudget fitted with
  | case1 fitted _ _ => exact hmem
  | case2 fitted _ index hindex ih =>
      refine ih (List.mem_eraseIdx_iff_getElem.mpr ?_)
      obtain ⟨hlt, hdropped, -⟩ := List.findIdx?_eq_some_iff_getElem.mp hindex
      obtain ⟨i, hi, rfl⟩ := List.mem_iff_getElem.mp hmem
      refine ⟨i, hi, ?_, rfl⟩
      rintro rfl
      rw [hkeep] at hdropped
      cases hdropped
  | case3 fitted _ => exact hmem

theorem dropWhileOver_of_le {promptBudget : Nat} {fitted : List Placed}
    (h : estimateTokensForProvider bpe render isLocal fitted ≤ promptBudget) :
    dropWhileOver bpe render isLocal promptBudget fitted = fitted := by
  rw [dropWhileOver, if_neg fun hover => Nat.not_lt.mpr h hover.1]

theorem fit_of_over {promptBudget : Nat} {messages : List Placed}
    (h : promptBudget < estimateTokensForProvider bpe render isLocal messages) :
    List.Forall₂ TrimOf (fitMessagesToPromptBudget bpe render isLocal promptBudget messages)
      (dropWhileOver bpe render isLocal promptBudget
        (fittedHead bpe render isLocal promptBudget messages ++
          fitTail bpe render isLocal promptBudget messages)) := by
  unfold fitMessagesToPromptBudget
  have hne : ¬(messages.isEmpty ∨
      estimateTokensForProvider bpe render isLocal messages ≤ promptBudget) := by
    rintro (hempty | hle)
    · rw [List.isEmpty_iff.mp hempty] at h
      simp [estimateTokensForProvider, estimateTokens, adjustEstimatedTokens] at h
    · exact Nat.not_lt.mpr hle h
  rw [if_neg hne]
  dsimp only
  split_ifs
  · rw [List.forall₂_map_left_iff]
    exact List.forall₂_same.mpr fun placed _ => trimMessageToTokenBudget_trims placed _
  · exact List.forall₂_refl _

theorem fit_of_le {promptBudget : Nat} {messages : List Placed}
    (h : estimateTokensForProvider bpe render isLocal messages ≤ promptBudget) :
    fitMessagesToPromptBudget bpe render isLocal promptBudget messages = messages :=
  if_pos (.inr h)

variable (bpe render isLocal) in
theorem fit_taken (promptBudget : Nat) (messages : List Placed) :
    TakenFrom (fitMessagesToPromptBudget bpe render isLocal promptBudget messages) messages := by
  rcases Nat.lt_or_ge promptBudget (estimateTokensForProvider bpe render isLocal messages) with
    hover | hle
  · have hfit := fit_of_over hover
    have hdropped := dropWhileOver_sublist bpe render isLocal
      promptBudget (fittedHead bpe render isLocal promptBudget messages ++
        fitTail bpe render isLocal promptBudget messages)
    exact TakenFrom.trans (List.sublistForall₂_iff.mpr ⟨_, hfit, hdropped⟩)
      (fittedHead_fitTail_taken promptBudget messages)
  · rw [fit_of_le hle]
    exact (List.Sublist.refl messages).sublistForall₂

/-! ## The latest user message -/

theorem isSystem_eq_false_of_isUser {placed : Placed} (h : placed.isUser = true) :
    placed.isSystem = false := by
  have hrole : placed.message.role = .user := of_decide_eq_true h
  simp [Placed.isSystem, hrole]

variable (bpe render isLocal) in
theorem exists_latest_mem_fit (promptBudget : Nat) (pre : List Placed) {post : List Placed}
    {latest : Placed}
    (huser : latest.isUser = true) (hpost : ∀ placed ∈ post, placed.isUser = false) :
    ∃ found ∈ fitMessagesToPromptBudget bpe render isLocal promptBudget (pre ++ latest :: post),
      TrimOf found latest := by
  have hnotSystem := isSystem_eq_false_of_isUser huser
  have hskip : (decide (pre.length = 0) && (firstSystem (pre ++ latest :: post)).isSome) =
      false := by
    rcases pre with _ | ⟨placed, pre⟩
    · simp [firstSystem, hnotSystem]
    · simp
  have htail : ∃ found ∈ fitTail bpe render isLocal promptBudget (pre ++ latest :: post),
      TrimOf found latest := by
    unfold fitTail
    rw [lastIndex_append_cons huser hpost, List.zipIdx_append, List.foldr_append,
      List.zipIdx_cons, List.foldr_cons, Nat.zero_add]
    obtain ⟨candidate, htrim, hcandidate⟩ := fitTailMessage_latest bpe render isLocal latest hskip
    exact ⟨candidate, mem_foldr_fitTailMessage (hcandidate ▸ List.mem_cons_self) _, htrim⟩
  rcases Nat.lt_or_ge promptBudget
    (estimateTokensForProvider bpe render isLocal (pre ++ latest :: post)) with hover | hle
  · obtain ⟨kept, hkept, htrim⟩ := htail
    have hstays := mem_dropWhileOver bpe render isLocal promptBudget
      (List.mem_append_right
        (fittedHead bpe render isLocal promptBudget (pre ++ latest :: post)) hkept)
      (by rw [htrim.isUser, huser, Bool.or_true])
    obtain ⟨found, hfound, hlast⟩ := exists_trimOf_of_mem (fit_of_over hover) hstays
    exact ⟨found, hfound, hlast.trans htrim⟩
  · exact ⟨latest, by rw [fit_of_le hle]; simp, .refl latest⟩

/-! ## What stays beside the latest user message -/

variable (isLocal) in
theorem adjustEstimatedTokens_add_le (a b : Nat) :
    adjustEstimatedTokens (a + b) isLocal ≤
      adjustEstimatedTokens a isLocal + adjustEstimatedTokens b isLocal := by
  unfold adjustEstimatedTokens localProviderTokenInflationNumerator
    localProviderTokenInflationDenominator
  cases isLocal
  · simp
  · simp only [Bool.not_true, Bool.false_or, decide_eq_true_eq]
    split_ifs <;> omega

theorem estimate_le_sum (messages : List Placed) :
    estimateTokensForProvider bpe render isLocal messages ≤
      (messages.map (messageTokenCostForProvider bpe render isLocal)).sum := by
  induction messages with
  | nil => simp [estimateTokensForProvider, estimateTokens, adjustEstimatedTokens]
  | cons placed messages ih =>
      have hsplit : estimateTokens bpe render (placed :: messages) =
          estimateTokens bpe render [placed] + estimateTokens bpe render messages := by
        simp [estimateTokens]
      have hadd := adjustEstimatedTokens_add_le isLocal
        (estimateTokens bpe render [placed]) (estimateTokens bpe render messages)
      have hcost : adjustEstimatedTokens (estimateTokens bpe render [placed]) isLocal ≤
          messageTokenCostForProvider bpe render isLocal placed := Nat.le_max_left _ _
      rw [estimateTokensForProvider, hsplit, List.map_cons, List.sum_cons]
      exact hadd.trans (Nat.add_le_add hcost ih)

variable (bpe render isLocal) in
/-- The latest user message where it comes last, trimmed when it does not fit alone. -/
def fittedLatest (budget : Nat) (latest : Placed) : Placed :=
  if messageTokenCostForProvider bpe render isLocal latest > budget then
    trimMessageToTokenBudget latest (max budget 1) isLocal
  else latest

theorem fittedLatest_trims (budget : Nat) (latest : Placed) :
    TrimOf (fittedLatest bpe render isLocal budget latest) latest := by
  unfold fittedLatest
  split_ifs
  · exact trimMessageToTokenBudget_trims latest _
  · exact .refl latest

def behindHead (messages : List Placed) : List Placed :=
  if (firstSystem messages).isSome then messages.tail else messages

variable (bpe render isLocal) in
theorem foldr_fitTailMessage_eq_fill (budget latest : Nat) (skipFirst : Bool) (tail : Tail)
    (hne : tail.messages ≠ []) (front : List Placed) (first : Nat)
    (hbefore : first + front.length ≤ latest) :
    (front.zipIdx first).foldr
        (fitTailMessage bpe render isLocal budget skipFirst (some latest)) tail =
      let kept := fill (messageTokenCostForProvider bpe render isLocal) budget tail.used
        (if first = 0 ∧ skipFirst = true then front.tail else front)
      ⟨kept.1, kept.2 ++ tail.messages⟩ := by
  induction front generalizing first with
  | nil => simp [fill]
  | cons placed front ih =>
      rw [List.length_cons] at hbefore
      have hrest := ih (first + 1) (by omega)
      rw [if_neg (by simp)] at hrest
      rw [List.zipIdx_cons, List.foldr_cons, hrest]
      by_cases hskip : first = 0 ∧ skipFirst = true
      · rw [if_pos hskip, fitTailMessage, if_pos (by simpa using hskip), List.tail_cons]
      · rw [if_neg hskip, fitTailMessage, if_neg (by simpa using hskip)]
        have hkeep : (decide (some first = some latest) || (List.isEmpty
            ((fill (messageTokenCostForProvider bpe render isLocal) budget tail.used front).2 ++
              tail.messages))) = false := by
          have hlt : first ≠ latest := by omega
          simp [hlt, hne]
        dsimp only
        rw [hkeep, fill_cons]
        by_cases hfits : (fill (messageTokenCostForProvider bpe render isLocal) budget tail.used
            front).1 + messageTokenCostForProvider bpe render isLocal placed ≤ budget
        · rw [if_neg (by omega), if_pos hfits]
          rfl
        · rw [if_pos (by omega), if_neg hfits]
          rfl

theorem firstSystem_append_latest (front : List Placed) {latest : Placed}
    (huser : latest.isUser = true) : firstSystem (front ++ [latest]) = firstSystem front := by
  have hnotSystem : latest.isSystem = false := isSystem_eq_false_of_isUser huser
  cases front with
  | nil => simp [firstSystem, hnotSystem]
  | cons placed front => rfl

variable (bpe render isLocal) in
theorem fitTail_append_latest (promptBudget : Nat) (front : List Placed) {latest : Placed}
    (huser : latest.isUser = true) :
    let budget := tailBudget bpe render isLocal promptBudget (front ++ [latest])
    fitTail bpe render isLocal promptBudget (front ++ [latest]) =
      (fill (messageTokenCostForProvider bpe render isLocal) budget
        (messageTokenCostForProvider bpe render isLocal
          (fittedLatest bpe render isLocal budget latest)) (behindHead front)).2 ++
        [fittedLatest bpe render isLocal budget latest] := by
  intro budget
  have hskip : (decide (front.length = 0) && (firstSystem front).isSome) = false := by
    cases front with
    | nil => simp [firstSystem]
    | cons placed front => simp
  have hlatest : fitTailMessage bpe render isLocal budget (firstSystem front).isSome
      (some front.length) (latest, front.length) {} =
      ⟨messageTokenCostForProvider bpe render isLocal
        (fittedLatest bpe render isLocal budget latest),
        [fittedLatest bpe render isLocal budget latest]⟩ := by
    rw [fitTailMessage, if_neg (by simpa using hskip), fittedLatest]
    by_cases hover : messageTokenCostForProvider bpe render isLocal latest > budget
    · simp [hover]
    · simp [hover]
  have hindex := lastIndex_append_cons huser (List.forall_mem_nil _) front
  have hfill := foldr_fitTailMessage_eq_fill bpe render isLocal
    budget front.length
    (firstSystem front).isSome ⟨messageTokenCostForProvider bpe render isLocal
      (fittedLatest bpe render isLocal budget latest),
      [fittedLatest bpe render isLocal budget latest]⟩ (List.cons_ne_nil _ _) front 0 (by omega)
  rw [fitTail, hindex, firstSystem_append_latest front huser, List.zipIdx_append,
    List.foldr_append, List.zipIdx_singleton, Nat.zero_add, List.foldr_cons, List.foldr_nil,
    hlatest, hfill]
  simp only [true_and, behindHead]

variable (bpe render isLocal) in
theorem exists_head_mem_fit (promptBudget : Nat) {messages : List Placed} {system : Placed}
    (h : firstSystem messages = some system) :
    ∃ found ∈ fitMessagesToPromptBudget bpe render isLocal promptBudget messages,
      TrimOf found system := by
  rcases Nat.lt_or_ge promptBudget (estimateTokensForProvider bpe render isLocal messages) with
    hover | hle
  · obtain ⟨head, htrim, hhead⟩ := fittedHead_of_some bpe render isLocal promptBudget
      h
    have hsystem : head.isSystem = true := by
      rw [Placed.isSystem, htrim.role]
      exact (firstSystem_eq_some h).1
    have hmem : head ∈ fittedHead bpe render isLocal promptBudget messages ++
        fitTail bpe render isLocal promptBudget messages := by simp [hhead]
    have hstays := mem_dropWhileOver bpe render isLocal promptBudget
      hmem (by simp [hsystem])
    obtain ⟨found, hfound, hlast⟩ := exists_trimOf_of_mem (fit_of_over hover) hstays
    exact ⟨found, hfound, hlast.trans htrim⟩
  · obtain ⟨-, rest, rfl⟩ := firstSystem_eq_some h
    exact ⟨system, by simp [fit_of_le hle], .refl system⟩

theorem one_le_cost (placed : Placed) : 1 ≤ messageTokenCostForProvider bpe render isLocal placed :=
  Nat.le_max_right _ _

/-- A message that fits beside the latest user message stays, or one behind it does. -/
theorem exists_mem_fit_of_fits {promptBudget : Nat} {front pre post : List Placed}
    {latest placed : Placed} (huser : latest.isUser = true)
    (hfront : behindHead front = pre ++ placed :: post)
    (hfits : messageTokenCostForProvider bpe render isLocal (fittedLatest bpe render isLocal
        (tailBudget bpe render isLocal promptBudget (front ++ [latest])) latest) +
      messageTokenCostForProvider bpe render isLocal placed ≤
        tailBudget bpe render isLocal promptBudget (front ++ [latest])) :
    ∃ later ∈ placed :: post,
      ∃ found ∈ fitMessagesToPromptBudget bpe render isLocal promptBudget (front ++ [latest]),
        TrimOf found later := by
  have htail := fitTail_append_latest bpe render isLocal
    promptBudget front huser
  set cost := messageTokenCostForProvider bpe render isLocal with hcost
  set budget := tailBudget bpe render isLocal promptBudget (front ++ [latest]) with hbudget
  set fitted := fittedLatest bpe render isLocal budget latest with hfitted
  obtain ⟨later, hlater, hkept⟩ := exists_mem_fill_of_fits pre post hfits
  refine ⟨later, hlater, ?_⟩
  rcases Nat.lt_or_ge promptBudget
    (estimateTokensForProvider bpe render isLocal (front ++ [latest])) with hover | hle
  · have hmem : later ∈ fittedHead bpe render isLocal promptBudget (front ++ [latest]) ++
        fitTail bpe render isLocal promptBudget (front ++ [latest]) := by
      rw [htail, hfront]
      exact List.mem_append_right _ (List.mem_append_left _ hkept)
    -- everything kept is within the budget, so nothing is dropped again
    have hwithin : estimateTokensForProvider bpe render isLocal
        (fittedHead bpe render isLocal promptBudget (front ++ [latest]) ++
          fitTail bpe render isLocal promptBudget (front ++ [latest])) ≤ promptBudget := by
      refine (estimate_le_sum _).trans ?_
      have hsum := fill_fst_eq cost budget (cost fitted) (behindHead front)
      have hfill : (fill cost budget (cost fitted) (behindHead front)).1 ≤ budget :=
        fill_le_budget (Nat.le_of_add_right_le hfits)
      have hplaced : 1 ≤ cost placed := one_le_cost placed
      have hlatest : 1 ≤ cost fitted := one_le_cost fitted
      have hhead : budget = max (promptBudget -
          ((fittedHead bpe render isLocal promptBudget (front ++ [latest])).map cost).sum) 1 :=
        hbudget
      rw [htail, List.map_append, List.map_append, List.sum_append, List.sum_append,
        List.map_singleton, List.sum_singleton, ← hcost, ← hfitted]
      omega
    have hdrop := dropWhileOver_of_le hwithin
    exact exists_trimOf_of_mem (fit_of_over hover) (by rwa [hdrop])
  · have hmem : later ∈ behindHead front := hfront ▸ List.mem_append_right pre hlater
    have hin : later ∈ front := by
      unfold behindHead at hmem
      split_ifs at hmem
      · exact List.mem_of_mem_tail hmem
      · exact hmem
    exact ⟨later, by rw [fit_of_le hle]; exact List.mem_append_left _ hin, .refl later⟩

/-- What stays beside the latest user message was not over the budget, stood at the head, or
fits. -/
theorem fit_append_latest_cases {promptBudget : Nat} {front : List Placed} {latest found : Placed}
    (huser : latest.isUser = true)
    (hfound : found ∈ fitMessagesToPromptBudget bpe render isLocal promptBudget
      (front ++ [latest])) :
    estimateTokensForProvider bpe render isLocal (front ++ [latest]) ≤ promptBudget ∨
      TrimOf found latest ∨
      (∃ system, firstSystem front = some system ∧ TrimOf found system) ∨
      ∃ placed ∈ front, TrimOf found placed ∧
        messageTokenCostForProvider bpe render isLocal (fittedLatest bpe render isLocal
            (tailBudget bpe render isLocal promptBudget (front ++ [latest])) latest) +
          messageTokenCostForProvider bpe render isLocal placed ≤
            tailBudget bpe render isLocal promptBudget (front ++ [latest]) := by
  rcases Nat.lt_or_ge promptBudget
    (estimateTokensForProvider bpe render isLocal (front ++ [latest])) with hover | hle
  · obtain ⟨kept, hkept, htrim⟩ := TakenFrom.exists_of_mem
      (List.sublistForall₂_iff.mpr ⟨_, fit_of_over hover, .refl _⟩) hfound
    have hmem := (dropWhileOver_sublist bpe render isLocal promptBudget _).mem hkept
    rcases List.mem_append.mp hmem with hhead | htail
    · rcases hfirst : firstSystem front with _ | system
      · rw [fittedHead_of_none (firstSystem_append_latest front huser ▸ hfirst)] at hhead
        cases hhead
      · obtain ⟨head, hsystem, hfitted⟩ := fittedHead_of_some bpe render isLocal
          promptBudget (firstSystem_append_latest front huser ▸ hfirst)
        rw [hfitted, List.mem_singleton] at hhead
        exact .inr (.inr (.inl ⟨system, rfl, htrim.trans (hhead ▸ hsystem)⟩))
    · rw [fitTail_append_latest bpe render isLocal promptBudget front huser] at htail
      rcases List.mem_append.mp htail with hfill | hlatest
      · have hfits := fits_of_mem_fill hfill
        have hbehind := (fill_sublist (behindHead front)).mem hfill
        refine .inr (.inr (.inr ⟨kept, ?_, htrim, hfits⟩))
        unfold behindHead at hbehind
        split_ifs at hbehind
        · exact List.mem_of_mem_tail hbehind
        · exact hbehind
      · rw [List.mem_singleton] at hlatest
        exact .inr (.inl (htrim.trans (hlatest ▸ fittedLatest_trims _ latest)))
  · exact .inl hle

/-! ## What stays over the budget -/

variable (bpe render isLocal) in
theorem dropWhileOver_fits (promptBudget : Nat) (fitted : List Placed) :
    estimateTokensForProvider bpe render isLocal
        (dropWhileOver bpe render isLocal promptBudget fitted) ≤ promptBudget ∨
      (dropWhileOver bpe render isLocal promptBudget fitted).length ≤ 1 ∨
      ∀ placed ∈ dropWhileOver bpe render isLocal promptBudget fitted,
        (placed.isSystem || placed.isUser) = true := by
  fun_induction dropWhileOver bpe render isLocal promptBudget fitted with
  | case1 fitted _ hnone =>
      refine .inr (.inr fun placed hplaced => ?_)
      rw [← Bool.not_eq_false']
      exact List.findIdx?_eq_none_iff.mp hnone placed hplaced
  | case2 fitted _ index _ ih => exact ih
  | case3 fitted hstop =>
      rw [not_and_or, not_lt, not_lt] at hstop
      exact hstop.imp_right .inl

theorem trimMessageToTokenBudget_role (placed : Placed) (budget : Nat) :
    (trimMessageToTokenBudget placed budget isLocal).message.role = placed.message.role :=
  (trimMessageToTokenBudget_trims placed budget).role

end Fit

end BenShu.Agent
