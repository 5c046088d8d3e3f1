import BenShu.Lib.RecentWindow
import BenShu.Lib.Table
import BenShu.Lib.Text
import Mathlib.Data.List.Induction

/-!
# Query protection

Repeated costly queries of one signature are first degraded and then paused for a while.
Instants are nanoseconds of a clock.
-/

namespace BenShu.Security

open Text SlidingWindow

structure QueryProtectionConfig where
  enabled : Bool
  burstWindowSecs : Nat
  burstLimit : Nat
  highCostThreshold : Nat
  pauseSecs : Nat

inductive QueryProtectionAction where
  | allow
  | degrade
  | pauseCurrentPath
deriving DecidableEq

structure QueryProtectionRequest where
  surface : String
  query : String
  requestedLimit : Nat
  estimatedCost : Option Nat

structure QueryProtectionDecision where
  action : QueryProtectionAction
  surface : String
  querySignature : String
  estimatedCost : Nat
  retryAfterMs : Option Nat
  protectUser : Bool
  protectSystem : Bool
  reasons : List String
  userMessage : String
deriving DecidableEq

structure QueryProtectionState where
  recentHits : List Nat := []
  pauseUntil : Option Nat := none

namespace QueryProtection

def nanosPerSec : Nat := 1000000000

def nanosPerMilli : Nat := 1000000

def normalizeQuerySignature (query : String) : String :=
  " ".intercalate ((splitWhitespace query).map toAsciiLowercase)

def estimateQueryCost (query : String) (requestedLimit : Nat) : Nat :=
  let charCost := max (max (charCount query) 1 / 24) 1
  let termCost := max (splitWhitespace query).length 1
  let resultCost := max (requestedLimit / 2) 1
  min (max charCost termCost + resultCost) (2 ^ 64 - 1)

def requestCost (request : QueryProtectionRequest) : Nat :=
  request.estimatedCost.getD (estimateQueryCost request.query request.requestedLimit)

def burstWindow (config : QueryProtectionConfig) : Nat := config.burstWindowSecs * nanosPerSec

def pauseDuration (config : QueryProtectionConfig) : Nat := config.pauseSecs * nanosPerSec

def allowed (request : QueryProtectionRequest) : QueryProtectionDecision where
  action := .allow
  surface := request.surface
  querySignature := normalizeQuerySignature request.query
  estimatedCost := requestCost request
  retryAfterMs := none
  protectUser := true
  protectSystem := true
  reasons := []
  userMessage := "query allowed"

def stillPaused (request : QueryProtectionRequest) (remaining : Nat) : QueryProtectionDecision :=
  { allowed request with
    action := .pauseCurrentPath
    retryAfterMs := some (remaining / nanosPerMilli % 2 ^ 64)
    reasons := ["deep_query_path_temporarily_paused", "burst_protection_active"]
    userMessage := "Deep retrieval is temporarily paused to avoid runaway query storms. Lightweight results can still continue, and you can retry shortly." }

def nowPaused (request : QueryProtectionRequest) (pause : Nat) : QueryProtectionDecision :=
  { allowed request with
    action := .pauseCurrentPath
    retryAfterMs := some (pause / nanosPerMilli % 2 ^ 64)
    reasons := ["repeated_high_cost_query", "deep_query_path_paused"]
    userMessage := "Deep retrieval was paused for a few seconds to protect your session from repetitive high-cost query loops." }

def degraded (request : QueryProtectionRequest) : QueryProtectionDecision :=
  { allowed request with
    action := .degrade
    reasons := ["repeated_high_cost_query", "prefer_lightweight_path"]
    userMessage := "Deep retrieval was temporarily downgraded to a lighter path to avoid unnecessary cost and runaway repetition." }

variable (config : QueryProtectionConfig) (now : Nat) (request : QueryProtectionRequest)

def HighCost : Prop := requestCost request ≥ config.highCostThreshold

instance : Decidable (HighCost config request) := inferInstanceAs (Decidable (_ ≥ _))

/-- The request counts as a hit, and the hits decide about it. -/
def answerHit (hits : List Nat) : QueryProtectionDecision × QueryProtectionState :=
  if HighCost config request ∧ hits.length ≥ config.burstLimit then
    (nowPaused request (pauseDuration config), ⟨hits, some (now + pauseDuration config)⟩)
  else if HighCost config request ∧ hits.length ≥ 2 then (degraded request, ⟨hits, none⟩)
  else (allowed request, ⟨hits, none⟩)

/-- During a pause no hits are added. -/
def answer (entry : QueryProtectionState) : QueryProtectionDecision × QueryProtectionState :=
  let hits := prune (burstWindow config) now entry.recentHits
  match entry.pauseUntil with
  | some pauseUntil =>
      if pauseUntil > now then (stillPaused request (pauseUntil - now), ⟨hits, some pauseUntil⟩)
      else answerHit config now request (hits ++ [now])
  | none => answerHit config now request (hits ++ [now])

def protectQuery (state : Table String QueryProtectionState) :
    QueryProtectionDecision × Table String QueryProtectionState :=
  let querySignature := normalizeQuerySignature request.query
  if !config.enabled || querySignature.isEmpty then (allowed request, state)
  else
    let (decision, entry) := answer config now request ((state.lookup querySignature).getD {})
    (decision, state.insert querySignature entry)

end QueryProtection

/-- A call with the time at which it reads the clock. -/
structure QueryCall where
  now : Nat
  request : QueryProtectionRequest

namespace QueryCall

open QueryProtection

def signature (call : QueryCall) : String := normalizeQuerySignature call.request.query

variable (config : QueryProtectionConfig)

def perform (state : Table String QueryProtectionState) (call : QueryCall) :
    Table String QueryProtectionState := (protectQuery config call.now call.request state).2

def run (calls : List QueryCall) : Table String QueryProtectionState :=
  calls.foldl (perform config) ∅

def entryOf (state : Table String QueryProtectionState) (signature : String) :
    QueryProtectionState := (state.lookup signature).getD {}

def actionAfter (before : List QueryCall) (call : QueryCall) : QueryProtectionAction :=
  (protectQuery config call.now call.request (run config before)).1.action

def answersFrom (state : Table String QueryProtectionState) :
    List QueryCall → List (QueryCall × QueryProtectionAction)
  | [] => []
  | call :: calls =>
      (call, (protectQuery config call.now call.request state).1.action) ::
        answersFrom (perform config state call) calls

def answered (calls : List QueryCall) : List (QueryCall × QueryProtectionAction) :=
  answersFrom config ∅ calls

theorem run_snoc (calls : List QueryCall) (call : QueryCall) :
    run config (calls ++ [call]) = perform config (run config calls) call := by
  rw [run, List.foldl_append]
  rfl

theorem answersFrom_snoc (state : Table String QueryProtectionState) (calls : List QueryCall)
    (call : QueryCall) :
    answersFrom config state (calls ++ [call]) = answersFrom config state calls ++
      [(call, (protectQuery config call.now call.request
        (calls.foldl (perform config) state)).1.action)] := by
  induction calls generalizing state with
  | nil => rfl
  | cons first calls ih => rw [List.cons_append, answersFrom, ih, answersFrom]; rfl

theorem answered_snoc (calls : List QueryCall) (call : QueryCall) :
    answered config (calls ++ [call]) =
      answered config calls ++ [(call, actionAfter config calls call)] :=
  answersFrom_snoc config ∅ calls call

end QueryCall

end BenShu.Security

/-!
# How often costly queries get through

Within a burst window fewer costly requests of one signature than the burst limit are
answered without a pause, and a pause holds for every request until it has expired.
-/

namespace BenShu.Security.QueryCall

open QueryProtection SlidingWindow

variable (config : QueryProtectionConfig)

/-! ## One call -/

def Paused (entry : QueryProtectionState) (now : Nat) : Prop :=
  ∃ pauseUntil, entry.pauseUntil = some pauseUntil ∧ now < pauseUntil

theorem answer_of_paused {now : Nat} {request : QueryProtectionRequest}
    {entry : QueryProtectionState} (h : Paused entry now) :
    (answer config now request entry).1.action = .pauseCurrentPath ∧
      (answer config now request entry).2 =
        ⟨prune (burstWindow config) now entry.recentHits, entry.pauseUntil⟩ := by
  rcases h with ⟨pauseUntil, hsome, hlt⟩
  simp [answer, hsome, hlt, stillPaused]

theorem answer_of_not_paused {now : Nat} {request : QueryProtectionRequest}
    {entry : QueryProtectionState} (h : ¬Paused entry now) :
    answer config now request entry = answerHit config now request
      (prune (burstWindow config) now entry.recentHits ++ [now]) := by
  unfold answer
  cases hpause : entry.pauseUntil with
  | none => rfl
  | some pauseUntil =>
      have hnot : ¬pauseUntil > now := fun hlt => h ⟨pauseUntil, hpause, hlt⟩
      simp [hnot]

theorem answerHit_hits (now : Nat) (request : QueryProtectionRequest) (hits : List Nat) :
    (answerHit config now request hits).2.recentHits = hits := by
  unfold answerHit
  split_ifs <;> rfl

theorem length_lt_of_action_ne {now : Nat} {request : QueryProtectionRequest} {hits : List Nat}
    (hcost : HighCost config request)
    (h : (answerHit config now request hits).1.action ≠ .pauseCurrentPath) :
    hits.length < config.burstLimit := by
  by_contra hge
  refine h ?_
  rw [answerHit, if_pos ⟨hcost, Nat.le_of_not_lt hge⟩]
  rfl

theorem nowPaused_ne_stillPaused (request : QueryProtectionRequest) (pause remaining : Nat) :
    stillPaused request remaining ≠ nowPaused request pause := by
  intro h
  have hreasons := congrArg QueryProtectionDecision.reasons h
  simp [stillPaused, nowPaused] at hreasons

theorem pauseUntil_of_nowPaused {now : Nat} {request : QueryProtectionRequest}
    {entry : QueryProtectionState}
    (h : (answer config now request entry).1 = nowPaused request (pauseDuration config)) :
    (answer config now request entry).2.pauseUntil = some (now + pauseDuration config) := by
  by_cases hpaused : Paused entry now
  · rcases hpaused with ⟨pauseUntil, hsome, hlt⟩
    simp only [answer, hsome, gt_iff_lt, hlt, if_pos] at h
    exact absurd h (nowPaused_ne_stillPaused request _ _)
  · rw [answer_of_not_paused config hpaused] at h ⊢
    unfold answerHit at h ⊢
    split_ifs at h ⊢ with hpause hdegrade
    · rfl
    · have haction := congrArg QueryProtectionDecision.action h
      simp [degraded, nowPaused] at haction
    · have haction := congrArg QueryProtectionDecision.action h
      simp [allowed, nowPaused] at haction

variable {config} (henabled : config.enabled = true)

include henabled in
theorem protectQuery_of_signature {call : QueryCall} (hne : call.signature ≠ "")
    (state : Table String QueryProtectionState) :
    protectQuery config call.now call.request state =
      ((answer config call.now call.request (entryOf state call.signature)).1,
        state.insert call.signature
          (answer config call.now call.request (entryOf state call.signature)).2) := by
  have hempty : (normalizeQuerySignature call.request.query).isEmpty = false := by
    rw [← Bool.not_eq_true, String.isEmpty_iff]
    exact hne
  simp only [protectQuery, henabled, hempty, Bool.not_true, Bool.or_self, Bool.false_eq_true,
    if_false]
  rfl

include henabled in
theorem entryOf_perform {signature : String} (hne : signature ≠ "") (call : QueryCall)
    (state : Table String QueryProtectionState) :
    entryOf (perform config state call) signature =
      if call.signature = signature then
        (answer config call.now call.request (entryOf state signature)).2
      else entryOf state signature := by
  by_cases hempty : call.signature = ""
  · have hother : call.signature ≠ signature := fun heq => hne (by rw [← heq, hempty])
    have hempty : (normalizeQuerySignature call.request.query).isEmpty = true := by
      rw [String.isEmpty_iff]
      exact hempty
    rw [if_neg hother, perform, protectQuery]
    simp [hempty]
  · rw [perform, protectQuery_of_signature henabled hempty, entryOf, Table.lookup_insert]
    by_cases heq : call.signature = signature
    · rw [if_pos heq.symm, if_pos heq, heq]
      rfl
    · rw [if_neg fun h => heq h.symm, if_neg heq]
      rfl

include henabled in
theorem actionAfter_eq {call : QueryCall} (hne : call.signature ≠ "") (before : List QueryCall) :
    actionAfter config before call =
      (answer config call.now call.request
        (entryOf (run config before) call.signature)).1.action := by
  rw [actionAfter, protectQuery_of_signature henabled hne]

/-! ## Bursts -/

variable (config)

/-- The times of the requests of a signature that were answered without a pause. -/
def passed (signature : String) (calls : List QueryCall) : List Nat :=
  ((answered config calls).filter fun entry =>
    decide (entry.1.signature = signature ∧ entry.2 ≠ .pauseCurrentPath)).map fun entry =>
      entry.1.now

/-- The costly ones of them within a burst window. -/
def costlyPassed (signature : String) (start : Nat) (calls : List QueryCall) :
    List (QueryCall × QueryProtectionAction) :=
  (answered config calls).filter fun entry =>
    decide (entry.1.signature = signature ∧ HighCost config entry.1.request ∧
      entry.2 ≠ .pauseCurrentPath ∧ start ≤ entry.1.now ∧
      entry.1.now ≤ start + burstWindow config)

theorem passed_snoc (signature : String) (calls : List QueryCall) (call : QueryCall) :
    passed config signature (calls ++ [call]) = passed config signature calls ++
      if call.signature = signature ∧ actionAfter config calls call ≠ .pauseCurrentPath then
        [call.now]
      else [] := by
  unfold passed
  rw [answered_snoc, List.filter_append, List.map_append, List.filter_singleton]
  split_ifs with h <;> simp [h]

theorem length_costlyPassed_le (signature : String) (start : Nat) (calls : List QueryCall) :
    (costlyPassed config signature start calls).length ≤
      ((passed config signature calls).filter fun time => decide (start ≤ time)).length := by
  unfold costlyPassed passed
  rw [List.filter_map, List.length_map, List.filter_filter]
  refine List.Sublist.length_le (List.monotone_filter_right _ ?_)
  intro entry hentry
  simp only [decide_eq_true_eq] at hentry
  simp [hentry]

variable {config}

include henabled in
theorem covers_passed {signature : String} (hne : signature ≠ "") {calls : List QueryCall}
    (hclock : calls.Pairwise fun call later => call.now ≤ later.now) {latest : Nat}
    (hlatest : ∀ call ∈ calls, call.now ≤ latest) :
    Covers (burstWindow config) latest (entryOf (run config calls) signature).recentHits
      (passed config signature calls) := by
  induction calls using List.reverseRecOn generalizing latest with
  | nil => exact Covers.nil
  | append_singleton calls call ih =>
      obtain ⟨hbefore, -, hlast⟩ := List.pairwise_append.mp hclock
      have hcovers := ih hbefore fun earlier hmem => hlast earlier hmem call (by simp)
      have hnow : call.now ≤ latest := hlatest call (by simp)
      rw [run_snoc, entryOf_perform henabled hne, passed_snoc]
      by_cases heq : call.signature = signature
      · have haction := actionAfter_eq henabled (by rw [heq]; exact hne) calls
        rw [if_pos heq, haction, heq]
        have hpruned := hcovers.pruned (Nat.le_refl call.now)
        by_cases hpaused : Paused (entryOf (run config calls) signature) call.now
        · obtain ⟨hpause, hentry⟩ :=
            @answer_of_paused config call.now call.request _ hpaused
          rw [hentry, hpause]
          simpa using hpruned.later hnow
        · rw [answer_of_not_paused config hpaused, answerHit_hits]
          split_ifs
          · exact (hpruned.push call.now).later hnow
          · rw [List.append_nil]
            exact (hpruned.keep call.now).later hnow
      · rw [if_neg heq, if_neg fun h => heq h.1, List.append_nil]
        exact hcovers.later hnow

/-- Whether a request counts against the burst limit of a window. -/
def Counts (config : QueryProtectionConfig) (signature : String) (start : Nat)
    (calls : List QueryCall) (call : QueryCall) : Prop :=
  call.signature = signature ∧ HighCost config call.request ∧
    actionAfter config calls call ≠ .pauseCurrentPath ∧ start ≤ call.now ∧
    call.now ≤ start + burstWindow config

theorem costlyPassed_snoc_of_not_counts {signature : String} {start : Nat}
    {calls : List QueryCall} {call : QueryCall} (h : ¬Counts config signature start calls call) :
    costlyPassed config signature start (calls ++ [call]) =
      costlyPassed config signature start calls := by
  unfold costlyPassed
  rw [answered_snoc, List.filter_append]
  refine (congrArg _ (List.filter_eq_nil_iff.mpr ?_)).trans (List.append_nil _)
  intro entry hmem
  rw [List.mem_singleton.mp hmem, decide_eq_true_iff]
  exact h

theorem length_costlyPassed_snoc (signature : String) (start : Nat) (calls : List QueryCall)
    (call : QueryCall) :
    (costlyPassed config signature start (calls ++ [call])).length ≤
      (costlyPassed config signature start calls).length + 1 := by
  unfold costlyPassed
  rw [answered_snoc, List.filter_append, List.length_append]
  exact Nat.add_le_add_left (List.length_filter_le _ [_]) _

include henabled in
theorem length_costlyPassed_lt {signature : String} (hne : signature ≠ "")
    (hlimit : 1 ≤ config.burstLimit) {calls : List QueryCall}
    (hclock : calls.Pairwise fun call later => call.now ≤ later.now) (start : Nat) :
    (costlyPassed config signature start calls).length < config.burstLimit := by
  induction calls using List.reverseRecOn with
  | nil => exact hlimit
  | append_singleton calls call ih =>
      obtain ⟨hbefore, -, hlast⟩ := List.pairwise_append.mp hclock
      by_cases hcounts : Counts config signature start calls call
      · obtain ⟨heq, hcost, haction, -, hend⟩ := hcounts
        -- What counted before is among the hits that are kept at this call.
        have hcovers := covers_passed henabled hne hbefore
          fun earlier hmem => hlast earlier hmem call (by simp)
        have hkept := hcovers.length_le (Nat.le_refl call.now) hend
        have hpassed := length_costlyPassed_le config signature start calls
        rw [actionAfter_eq henabled (by rw [heq]; exact hne), heq] at haction
        have hfree : ¬Paused (entryOf (run config calls) signature) call.now := fun hpaused =>
          haction (answer_of_paused config hpaused).1
        rw [answer_of_not_paused config hfree] at haction
        have hlength := length_lt_of_action_ne config hcost haction
        have hsnoc := @length_costlyPassed_snoc config signature start calls call
        rw [List.length_append, List.length_singleton] at hlength
        omega
      · rw [costlyPassed_snoc_of_not_counts hcounts]
        exact ih hbefore

/-! ## Pauses -/

/-- The call is answered with the decision that starts a pause. -/
def StartsPause (config : QueryProtectionConfig) (before : List QueryCall) (call : QueryCall) :
    Prop :=
  (protectQuery config call.now call.request (run config before)).1 =
    nowPaused call.request (pauseDuration config)

include henabled in
theorem pauseUntil_perform {signature : String} (hne : signature ≠ "") {pauseUntil : Nat}
    {state : Table String QueryProtectionState} {call : QueryCall}
    (h : (entryOf state signature).pauseUntil = some pauseUntil) (hlt : call.now < pauseUntil) :
    (entryOf (perform config state call) signature).pauseUntil = some pauseUntil := by
  rw [entryOf_perform henabled hne]
  split_ifs
  · rw [(answer_of_paused config ⟨pauseUntil, h, hlt⟩).2]
    exact h
  · exact h

include henabled in
theorem pauseUntil_append {signature : String} (hne : signature ≠ "") {pauseUntil : Nat}
    {before : List QueryCall}
    (h : (entryOf (run config before) signature).pauseUntil = some pauseUntil)
    {mid : List QueryCall} (hlt : ∀ call ∈ mid, call.now < pauseUntil) :
    (entryOf (run config (before ++ mid)) signature).pauseUntil = some pauseUntil := by
  induction mid using List.reverseRecOn with
  | nil => rwa [List.append_nil]
  | append_singleton mid call ih =>
      rw [← List.append_assoc, run_snoc]
      exact pauseUntil_perform henabled hne
        (ih fun earlier hmem => hlt earlier (List.mem_append_left _ hmem)) (hlt call (by simp))

include henabled in
theorem pauseUntil_of_startsPause {before : List QueryCall} {call : QueryCall}
    (hne : call.signature ≠ "") (h : StartsPause config before call) :
    (entryOf (run config (before ++ [call])) call.signature).pauseUntil =
      some (call.now + pauseDuration config) := by
  rw [StartsPause, protectQuery_of_signature henabled hne] at h
  rw [run_snoc, entryOf_perform henabled hne, if_pos rfl]
  exact pauseUntil_of_nowPaused config h

/-! ## Runs -/

structure RateKept (config : QueryProtectionConfig) (calls : List QueryCall)
    (signature : String) : Prop where
  burst : ∀ start, (costlyPassed config signature start calls).length ≤ config.burstLimit - 1
  paused : ∀ before call after, calls = before ++ call :: after → call.signature = signature →
    Paused (entryOf (run config before) signature) call.now →
      actionAfter config before call = .pauseCurrentPath
  lasts : ∀ before call mid later after, calls = before ++ call :: (mid ++ later :: after) →
    call.signature = signature → later.signature = signature → StartsPause config before call →
      later.now < call.now + pauseDuration config →
        actionAfter config (before ++ call :: mid) later = .pauseCurrentPath

/-- With the protection on, the rate of every signature that is not empty is kept. -/
theorem rate_kept (henabled : config.enabled = true) (hlimit : 1 ≤ config.burstLimit)
    (calls : List QueryCall)
    (hclock : calls.Pairwise fun call later => call.now ≤ later.now) (signature : String)
    (hne : signature ≠ "") : RateKept config calls signature where
  burst := fun start =>
    Nat.le_sub_one_of_lt (length_costlyPassed_lt henabled hne hlimit hclock start)
  paused := by
    intro before call after _ hsignature hpaused
    subst hsignature
    rw [actionAfter_eq henabled hne]
    exact (answer_of_paused config hpaused).1
  lasts := by
    intro before call mid later after hcalls hsignature hlater hstarts hlt
    subst hsignature
    have hmid : ∀ earlier ∈ mid, earlier.now < call.now + pauseDuration config := by
      intro earlier hmem
      rw [hcalls] at hclock
      have hafter := (List.pairwise_cons.mp (List.pairwise_append.mp hclock).2.1).2
      have hle := (List.pairwise_append.mp hafter).2.2 earlier hmem later List.mem_cons_self
      omega
    have hpause := pauseUntil_append henabled hne
      (pauseUntil_of_startsPause henabled hne hstarts) hmid
    rw [List.append_assoc, List.singleton_append] at hpause
    rw [actionAfter_eq henabled (by rw [hlater]; exact hne), hlater]
    exact (answer_of_paused config ⟨_, hpause, hlt⟩).1

/-! ## Calls that are not protected -/

def sampleConfig (enabled : Bool) : QueryProtectionConfig := ⟨enabled, 8, 3, 12, 6⟩

def sampleCall (query : String) (now : Nat) : QueryCall := ⟨now, ⟨"memory", query, 8, some 32⟩⟩

theorem sampleRate_kept : RateKept (sampleConfig true)
    [sampleCall "deep" 0, sampleCall "deep" 1, sampleCall "deep" 2, sampleCall "deep" 3] "deep" :=
  rate_kept rfl (by decide) _ (by decide) "deep" (by decide)

/-- Neither a blank query nor a protection that is off ever pauses. -/
theorem unprotected_not_kept :
    (¬∀ (config : QueryProtectionConfig) (calls : List QueryCall) (signature : String),
      config.enabled = true → 1 ≤ config.burstLimit →
        (calls.Pairwise fun call later => call.now ≤ later.now) →
          RateKept config calls signature) ∧
    ¬∀ (config : QueryProtectionConfig) (calls : List QueryCall) (signature : String),
      signature ≠ "" → 1 ≤ config.burstLimit →
        (calls.Pairwise fun call later => call.now ≤ later.now) →
          RateKept config calls signature := by
  constructor
  · intro h
    have hburst := (h (sampleConfig true) [sampleCall " " 0, sampleCall " " 0, sampleCall " " 0] ""
      rfl (by decide) (by decide)).burst 0
    exact absurd hburst (by decide +kernel)
  · intro h
    have hburst := (h (sampleConfig false)
      [sampleCall "deep" 0, sampleCall "deep" 0, sampleCall "deep" 0] "deep" (by decide)
      (by decide) (by decide)).burst 0
    exact absurd hburst (by decide +kernel)

end BenShu.Security.QueryCall
