import Mathlib.Data.Finset.Card
import BenShu.Lib.RecentWindow
import BenShu.Lib.Table
import BenShu.Lib.Text

/-!
# The loop guard

A window over the last tool calls, with a count for every tool. The guard decides by the count,
then by an exact repeat of the latest call, then by the similarity to an earlier one.
-/

namespace BenShu.LoopGuard

/-! ## Policy -/

inductive LoopGuardAction where
  | warn
  | reusePrevious
  | block
deriving DecidableEq

structure LoopAlert where
  action : LoopGuardAction
  message : String

/-- `ρ` are the numbers that scores are computed with. -/
structure LoopGuardPolicy (ρ : Type) where
  maxHistoryRecords : Nat
  minTokenLength : Nat
  maxToolCallFrequency : Nat
  maxLookupToolCallFrequency : Nat
  percentMultiplier : ρ

def LoopGuardPolicy.maxFrequencyForTool {ρ : Type} (policy : LoopGuardPolicy ρ)
    (toolName : String) : Nat :=
  if toolName ∈ ["browser", "browser_browse", "web_fetch", "web_search"] then
    policy.maxLookupToolCallFrequency
  else policy.maxToolCallFrequency

/-- Unicode and the arithmetic of scores. -/
structure GuardLibrary (ρ : Type) where
  toLowercase : String → String
  isAlphanumeric : Char → Bool
  one : ρ
  quotient : Nat → Nat → ρ
  atLeast : ρ → ρ → Bool
  /-- The product of a score and the multiplier, without decimals. -/
  percent : ρ → ρ → String

/-! ## History -/

structure CallRecord where
  toolName : String
  input : String
deriving DecidableEq

structure QueryHistory (ρ : Type) where
  records : List CallRecord
  counts : Table String Nat
  policy : LoopGuardPolicy ρ

namespace QueryHistory

variable {ρ : Type}

def withPolicy (policy : LoopGuardPolicy ρ) : QueryHistory ρ where
  records := []
  counts := ∅
  policy

def getCount (history : QueryHistory ρ) (toolName : String) : Nat :=
  (history.counts.lookup toolName).getD 0

/-- Over its limit the history loses its first record, and the count of that record's tool falls
with it. -/
def record (history : QueryHistory ρ) (call : CallRecord) : QueryHistory ρ :=
  let counts := history.counts.insert call.toolName (history.getCount call.toolName + 1)
  let records := history.records ++ [call]
  if records.length > history.policy.maxHistoryRecords then
    match records with
    | [] => { history with counts, records }
    | removed :: records =>
        let counts := match counts.lookup removed.toolName with
          | some count =>
              if count > 0 then counts.insert removed.toolName (count - 1) else counts
          | none => counts
        { history with counts, records }
  else { history with counts, records }

variable (lib : GuardLibrary ρ)

/-- The words of a text that are longer than the minimum, as they are compared. -/
def tokens (minTokenLength : Nat) (s : String) : List String :=
  ((Text.splitWhitespace s).map fun word =>
      String.ofList ((lib.toLowercase word).toList.filter lib.isAlphanumeric)).filter
    fun token => decide (token.utf8ByteSize > minTokenLength)

def calculateSimilarity (s1 s2 : String) (minTokenLength : Nat) : ρ :=
  let tokens1 := (tokens lib minTokenLength s1).toFinset
  let tokens2 := (tokens lib minTokenLength s2).toFinset
  if tokens1 = ∅ ∧ tokens2 = ∅ then lib.one
  else lib.quotient (tokens1 ∩ tokens2).card (tokens1 ∪ tokens2).card

def canonicalizeForExactMatch (input : String) : String :=
  " ".intercalate (Text.splitWhitespace input)

def blockAlert (toolName : String) (callCount : Nat) : LoopAlert where
  action := .block
  message := s!"CRITICAL: '{toolName}' has been called {callCount} times in this session. " ++
    "This indicates a plan stagnation. You MUST stop and re-think: " ++
    "are you using the wrong tool, or misinterpreting the error/result?"

def frequencyAlert (toolName : String) (callCount : Nat) : LoopAlert where
  action := .warn
  message := s!"WARNING: '{toolName}' has already been called {callCount} times in this task. " ++
    "Continue only if this call has changed arguments or is expected to produce new information."

def reuseAlert (toolName : String) : LoopAlert where
  action := .reusePrevious
  message := s!"CRITICAL: This call to '{toolName}' exactly repeats the most recent invocation. " ++
    "Reuse the existing result instead of hammering the same tool with the same arguments. " ++
    "If the existing result is insufficient, change the arguments or choose a different next step."

def similarityAlert (toolName percent : String) : LoopAlert where
  action := .warn
  message := s!"WARNING: This call to '{toolName}' is {percent}% similar to a previous call. " ++
    "Repeating highly similar actions may indicate a logic loop. " ++
    "Prefer changing parameters, reusing the prior result, or choosing the next step more narrowly."

/-- A warning about the latest record of the tool that is similar enough. -/
def findSimilar (history : QueryHistory ρ) (toolName input : String) (threshold : ρ) :
    Option LoopAlert :=
  history.records.reverse.findSome? fun record =>
    if record.toolName = toolName then
      let similarity := calculateSimilarity lib record.input input history.policy.minTokenLength
      if lib.atLeast similarity threshold then
        some (similarityAlert toolName
          (lib.percent similarity history.policy.percentMultiplier))
      else none
    else none

/-- The bound on the frequency is doubled without saturation: no count reaches the limit of
`usize`. -/
def checkLoop (history : QueryHistory ρ) (toolName input : String) (threshold : ρ) :
    Option LoopAlert :=
  let callCount := history.getCount toolName
  let maxFrequency := history.policy.maxFrequencyForTool toolName
  if callCount ≥ maxFrequency * 2 then some (blockAlert toolName callCount)
  else if callCount ≥ maxFrequency then some (frequencyAlert toolName callCount)
  else
    let previous := history.records.reverse.find? fun record => record.toolName = toolName
    if (previous.map fun record => canonicalizeForExactMatch record.input) =
        some (canonicalizeForExactMatch input) then
      some (reuseAlert toolName)
    else history.findSimilar lib toolName input threshold

/-! ## The window -/

def occurrences (calls : List CallRecord) (toolName : String) : Nat :=
  calls.countP fun call => call.toolName = toolName

/-- Every count is the number of records of its tool, and the limit is kept. -/
structure Windowed (history : QueryHistory ρ) : Prop where
  counted : ∀ toolName, history.getCount toolName = occurrences history.records toolName
  limited : history.records.length ≤ history.policy.maxHistoryRecords

theorem windowed_withPolicy (policy : LoopGuardPolicy ρ) : Windowed (withPolicy policy) :=
  ⟨fun _ => rfl, Nat.zero_le _⟩

theorem getCount_mk (records : List CallRecord) (counts : Table String Nat)
    (policy : LoopGuardPolicy ρ) (toolName : String) :
    getCount { records, counts, policy } toolName = (counts.lookup toolName).getD 0 := rfl

theorem occurrences_cons (call : CallRecord) (calls : List CallRecord) (toolName : String) :
    occurrences (call :: calls) toolName =
      occurrences calls toolName + if toolName = call.toolName then 1 else 0 := by
  rw [occurrences, List.countP_cons, ← occurrences]
  simp only [decide_eq_true_eq, eq_comm (a := call.toolName)]

theorem occurrences_snoc (calls : List CallRecord) (call : CallRecord) (toolName : String) :
    occurrences (calls ++ [call]) toolName =
      occurrences calls toolName + if toolName = call.toolName then 1 else 0 := by
  rw [occurrences, List.countP_append, List.countP_singleton, ← occurrences]
  simp only [decide_eq_true_eq, eq_comm (a := call.toolName)]

theorem record_windowed {history : QueryHistory ρ} (h : Windowed history) (call : CallRecord) :
    Windowed (history.record call) ∧
      (history.record call).policy = history.policy ∧
      (history.record call).records =
        RecentWindow.recent history.policy.maxHistoryRecords (history.records ++ [call]) := by
  have hcounted : ∀ toolName,
      ((history.counts.insert call.toolName (history.getCount call.toolName + 1)).lookup
        toolName).getD 0 = occurrences (history.records ++ [call]) toolName := by
    intro toolName
    rw [Table.lookup_insert, occurrences_snoc, ← h.counted]
    split
    · rename_i heq
      rw [heq, Option.getD_some]
    · rfl
  have hlimited := h.limited
  unfold record
  dsimp only
  split
  · rename_i hover
    rw [List.length_append, List.length_singleton] at hover
    generalize hadded : history.records ++ [call] = added at hcounted ⊢
    generalize history.counts.insert call.toolName (history.getCount call.toolName + 1) = counts
      at hcounted ⊢
    have hlength := congrArg List.length hadded
    rw [List.length_append, List.length_singleton] at hlength
    cases added with
    | nil => cases hlength
    | cons removed records =>
        rw [List.length_cons] at hlength
        have hkept : records = RecentWindow.recent history.policy.maxHistoryRecords
            (removed :: records) := by
          have hone : (removed :: records).length - history.policy.maxHistoryRecords = 1 := by
            rw [List.length_cons]
            omega
          rw [RecentWindow.recent, hone, List.drop_one, List.tail_cons]
        refine ⟨⟨fun toolName => ?_, by dsimp only; omega⟩, rfl, hkept⟩
        have hremoved := hcounted removed.toolName
        have hcount := hcounted toolName
        rw [occurrences_cons] at hcount
        rw [occurrences_cons, if_pos rfl] at hremoved
        cases hlookup : counts.lookup removed.toolName with
        | none =>
            rw [hlookup] at hremoved
            cases hremoved
        | some count =>
            rw [hlookup, Option.getD_some] at hremoved
            have hpos : count > 0 := by omega
            rw [getCount_mk, hlookup]
            dsimp only
            rw [if_pos hpos, Table.lookup_insert]
            split
            · rename_i heq
              rw [heq, hremoved, Option.getD_some, Nat.add_sub_cancel]
            · rename_i hne
              rw [hcount, if_neg hne, Nat.add_zero]
  · rename_i hfits
    have hle : (history.records ++ [call]).length ≤ history.policy.maxHistoryRecords :=
      Nat.le_of_not_lt hfits
    exact ⟨⟨hcounted, hle⟩, rfl, (RecentWindow.recent_of_length_le hle).symm⟩

/-- Any sequence of calls leaves the last ones. -/
theorem records_foldl (policy : LoopGuardPolicy ρ) (calls : List CallRecord) :
    Windowed (calls.foldl record (withPolicy policy)) ∧
      (calls.foldl record (withPolicy policy)).policy = policy ∧
      (calls.foldl record (withPolicy policy)).records =
        RecentWindow.recent policy.maxHistoryRecords calls := by
  induction calls using List.reverseRecOn with
  | nil => exact ⟨windowed_withPolicy policy, rfl, (RecentWindow.recent_nil _).symm⟩
  | append_singleton calls call ih =>
      obtain ⟨hwindowed, hpolicy, hrecords⟩ := ih
      obtain ⟨hnext, hkept, hwindow⟩ := record_windowed hwindowed call
      rw [List.foldl_append, List.foldl_cons, List.foldl_nil]
      refine ⟨hnext, hkept.trans hpolicy, ?_⟩
      rw [hwindow, hpolicy, hrecords, RecentWindow.recent_recent_append]

/-! ## Decisions -/

def latest? (calls : List CallRecord) (toolName : String) : Option CallRecord :=
  (calls.filter fun call => call.toolName = toolName).getLast?

theorem find?_reverse_eq_latest? (calls : List CallRecord) (toolName : String) :
    (calls.reverse.find? fun call => call.toolName = toolName) = latest? calls toolName := by
  rw [latest?, List.getLast?_eq_head?_reverse, ← List.filter_reverse, List.head?_filter]

variable (history : QueryHistory ρ) (toolName input : String) (threshold : ρ)

theorem action_of_findSimilar {alert : LoopAlert}
    (h : history.findSimilar lib toolName input threshold = some alert) :
    alert.action = .warn := by
  obtain ⟨record, -, halert⟩ := List.exists_of_findSome?_eq_some h
  dsimp only at halert
  split_ifs at halert
  cases halert
  rfl

theorem checkLoop_block_iff :
    (history.checkLoop lib toolName input threshold).map LoopAlert.action = some .block ↔
      2 * history.policy.maxFrequencyForTool toolName ≤ history.getCount toolName := by
  unfold checkLoop
  dsimp only
  split
  · rename_i hblock
    exact iff_of_true rfl (by omega)
  · rename_i hblock
    refine iff_of_false (fun h => ?_) (by omega)
    obtain ⟨alert, halert, haction⟩ := Option.map_eq_some_iff.mp h
    split_ifs at halert with hwarn hrepeat
    · cases halert
      cases haction
    · cases halert
      cases haction
    · rw [action_of_findSimilar lib history toolName input threshold halert] at haction
      cases haction

theorem checkLoop_reuse_iff
    (hbelow : history.getCount toolName < history.policy.maxFrequencyForTool toolName) :
    (history.checkLoop lib toolName input threshold).map LoopAlert.action =
        some .reusePrevious ↔
      ∃ previous ∈ latest? history.records toolName,
        canonicalizeForExactMatch previous.input = canonicalizeForExactMatch input := by
  unfold checkLoop
  dsimp only
  rw [if_neg (by omega), if_neg (by omega), find?_reverse_eq_latest?]
  split
  · rename_i hrepeat
    exact iff_of_true rfl (Option.map_eq_some_iff.mp hrepeat)
  · rename_i hother
    refine iff_of_false (fun h => ?_) fun h => hother (Option.map_eq_some_iff.mpr h)
    obtain ⟨alert, halert, haction⟩ := Option.map_eq_some_iff.mp h
    rw [action_of_findSimilar lib history toolName input threshold halert] at haction
    cases haction

/-- The records are the last calls, every count is the number of them, and the guard decides by
them. -/
theorem queryHistory_spec (policy : LoopGuardPolicy ρ) (calls : List CallRecord) :
    let history := calls.foldl record (withPolicy policy)
    let window := RecentWindow.recent policy.maxHistoryRecords calls
    history.records = window ∧
      (∀ toolName, history.getCount toolName = occurrences window toolName) ∧
      ∀ toolName input threshold,
        ((history.checkLoop lib toolName input threshold).map LoopAlert.action = some .block ↔
          2 * policy.maxFrequencyForTool toolName ≤ occurrences window toolName) ∧
        (occurrences window toolName < policy.maxFrequencyForTool toolName →
          ((history.checkLoop lib toolName input threshold).map LoopAlert.action =
              some .reusePrevious ↔
            ∃ previous ∈ latest? window toolName,
              canonicalizeForExactMatch previous.input = canonicalizeForExactMatch input)) := by
  obtain ⟨hwindowed, hpolicy, hrecords⟩ := records_foldl policy calls
  have hcount := hwindowed.counted
  rw [hrecords] at hcount
  refine ⟨hrecords, hcount, fun toolName input threshold => ⟨?_, fun hbelow => ?_⟩⟩
  · rw [checkLoop_block_iff, hpolicy, hcount]
  · rw [checkLoop_reuse_iff, hrecords]
    rw [hpolicy, hcount]
    exact hbelow

end QueryHistory

end BenShu.LoopGuard
