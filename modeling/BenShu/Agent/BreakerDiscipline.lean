import BenShu.Lib.History
import BenShu.Lib.Threads

/-!
# The circuit breaker of the resilient provider

Requests look at the circuit and report how the primary provider did in two separate
lock sections, with the call to the primary in between. Any number of requests may be
anywhere in this at a time.
-/

namespace BenShu.Agent

open Interaction

structure CircuitBreakerConfig where
  failureThreshold : UInt32
  resetTimeout : Nat

inductive CircuitState where
  | closed
  | «open»
  | halfOpen
deriving DecidableEq

structure CircuitStateInternal where
  state : CircuitState
  failures : UInt32
  lastFailureTime : Option Nat

namespace CircuitStateInternal

def initial : CircuitStateInternal := ⟨.closed, 0, none⟩

variable (config : CircuitBreakerConfig) (router : CircuitStateInternal) (now : Nat)

/-- An open circuit becomes half-open when the reset timeout has passed. -/
def checkState : CircuitStateInternal × CircuitState :=
  match router.state with
  | .open =>
      match router.lastFailureTime with
      | some lastFailure =>
          if now - lastFailure > config.resetTimeout then
            ({ router with state := .halfOpen }, .halfOpen)
          else (router, .open)
      | none => (router, .open)
  | state => (router, state)

def reportSuccess : CircuitStateInternal :=
  match router.state with
  | .halfOpen => ⟨.closed, 0, none⟩
  | .closed => { router with failures := 0 }
  | .open => router

def reportFailure : CircuitStateInternal :=
  let failures := router.failures + 1
  let state :=
    if router.state = .closed ∧ failures ≥ config.failureThreshold then .open
    else if router.state = .halfOpen then .open
    else router.state
  ⟨state, failures, some now⟩

end CircuitStateInternal

/-! ## Requests -/

/-- The atomic steps of a request; a report of failure also reads the clock. -/
inductive BreakerOp where
  | checkState
  | askPrimary
  | askPrimaryMetadata
  | reportSuccess
  | reportFailure
deriving DecidableEq

abbrev BreakerAns : BreakerOp → Type
  | .checkState => CircuitState × Nat
  | .askPrimary => Bool
  | .askPrimaryMetadata => Bool
  | .reportSuccess => Unit
  | .reportFailure => Nat

abbrev BreakerEvent := Event BreakerOp BreakerAns

/-- Which provider answered in the end. -/
inductive Route where
  | primary
  | fallback
deriving DecidableEq

/-- An answer of the primary that is an error or comes too late is a failure. -/
def reportAnswer (answered : Bool) : Prog BreakerOp BreakerAns Route :=
  if answered then .request .reportSuccess fun _ => .pure .primary
  else .request .reportFailure fun _ => .pure .fallback

def usePrimary (checked : CircuitState × Nat) : Prog BreakerOp BreakerAns Route :=
  if checked.1 = .open then .pure .fallback else .request .askPrimary reportAnswer

def streamCompletion : Prog BreakerOp BreakerAns Route := .request .checkState usePrimary

def getDynamicMetadata : Prog BreakerOp BreakerAns Route :=
  .request .checkState fun checked =>
    if checked.1 = .open then .pure .fallback
    else .request .askPrimaryMetadata fun answered =>
      .pure (if answered then .primary else .fallback)

inductive Call where
  | completion
  | metadata
deriving DecidableEq

def Call.program : Call → Prog BreakerOp BreakerAns Route
  | .completion => streamCompletion
  | .metadata => getDynamicMetadata

/-! ## The shared circuit -/

structure BreakerState where
  router : CircuitStateInternal
  clock : Nat

def BreakerState.initial : BreakerState := ⟨.initial, 0⟩

variable (config : CircuitBreakerConfig)

def CircuitStateInternal.after (router : CircuitStateInternal) : BreakerEvent → CircuitStateInternal
  | ⟨.checkState, checked⟩ => (router.checkState config checked.2).1
  | ⟨.askPrimary, _⟩ => router
  | ⟨.askPrimaryMetadata, _⟩ => router
  | ⟨.reportSuccess, _⟩ => router.reportSuccess
  | ⟨.reportFailure, now⟩ => router.reportFailure config now

/-- The time an event reads off the clock. -/
def timeOf : BreakerEvent → Option Nat
  | ⟨.checkState, checked⟩ => some checked.2
  | ⟨.reportFailure, now⟩ => some now
  | _ => none

/-- A look at the circuit is answered with its state; the clock does not go back. -/
def breaker : Resource BreakerOp BreakerAns BreakerState where
  allows s e :=
    (∀ now ∈ timeOf e, s.clock ≤ now) ∧
      match e with
      | ⟨.checkState, checked⟩ => checked.1 = (s.router.checkState config checked.2).2
      | _ => True
  after s e := ⟨s.router.after config e, (timeOf e).getD s.clock⟩

end BenShu.Agent

/-!
# When the breaker keeps its discipline

An open circuit keeps every request from the primary until its timeout has passed, in
every interleaving. One probe at a time, and closing by a probe alone, hold in just those
runs where the requests see to it themselves.
-/

namespace BenShu.Agent

open Interaction History

abbrev BreakerLog (ι : Type) := ThreadLog ι BreakerOp BreakerAns

variable {ι : Type} (config : CircuitBreakerConfig) (kind : ι → Call)

/-! ## What a log tells -/

def routerAfter (log : BreakerLog ι) : CircuitStateInternal :=
  log.foldl (fun router entry => router.after config entry.2) .initial

def lastFailure (log : BreakerLog ι) : Option Nat :=
  (log.filterMap fun entry =>
    if entry.2.op = .reportFailure then timeOf entry.2 else none).getLast?

def IsRequestCheck (entry : ι × BreakerEvent) : Prop :=
  kind entry.1 = .completion ∧ entry.2.op = .checkState

instance (entry : ι × BreakerEvent) : Decidable (IsRequestCheck kind entry) :=
  inferInstanceAs (Decidable (kind entry.1 = .completion ∧ entry.2.op = .checkState))

/-- The circuit, and the requests sent since it became half-open. -/
structure Watch (ι : Type) where
  router : CircuitStateInternal
  probes : List ι

def Watch.after (watch : Watch ι) (entry : ι × BreakerEvent) : Watch ι :=
  let router := watch.router.after config entry.2
  ⟨router,
    if router.state ≠ .halfOpen then []
    else if IsRequestCheck kind entry then watch.probes ++ [entry.1]
    else watch.probes⟩

def probes (log : BreakerLog ι) : List ι :=
  (log.foldl (Watch.after config kind) ⟨.initial, []⟩).probes

/-- The breaker keeps its discipline over a run. -/
structure Disciplined (log : BreakerLog ι) : Prop where
  /-- Before the timeout has passed no request goes from an open circuit to the primary. -/
  whileOpen : ∀ before i checked later, log = before ++ (i, ⟨.checkState, checked⟩) :: later →
    kind i = .completion → (routerAfter config before).state = .open →
      (∃ failed ∈ lastFailure before, checked.2 < failed + config.resetTimeout) →
        ∀ entry ∈ log, entry.1 = i → entry.2.op ≠ .askPrimary
  oneProbe : ∀ before later, log = before ++ later → (probes config kind before).length ≤ 1
  closedByProbe : ∀ before entry later, log = before ++ entry :: later →
    (routerAfter config before).state ≠ .closed →
      (routerAfter config (before ++ [entry])).state = .closed →
        entry.2.op = .reportSuccess ∧ entry.1 ∈ probes config kind before

/-- What the step does not run into: a second request that looks at a half-open circuit, and
in a half-open circuit the success of a request that was not sent in it. -/
def MeetsProbe (before : BreakerLog ι) (entry : ι × BreakerEvent) : Prop :=
  (routerAfter config before).state = .halfOpen →
    (IsRequestCheck kind entry → probes config kind before = []) ∧
      (entry.2.op = .reportSuccess → entry.1 ∈ probes config kind before)

/-! ## One step -/

section Step

variable {config} {kind} {before : BreakerLog ι} {entry : ι × BreakerEvent}

theorem routerAfter_snoc :
    routerAfter config (before ++ [entry]) = (routerAfter config before).after config entry.2 := by
  unfold routerAfter
  rw [List.foldl_append]
  rfl

variable (kind) in
theorem watch_router (log : BreakerLog ι) :
    (log.foldl (Watch.after config kind) ⟨.initial, []⟩).router = routerAfter config log := by
  induction log using List.reverseRecOn with
  | nil => rfl
  | append_singleton log entry ih =>
      rw [List.foldl_append, routerAfter_snoc, ← ih]
      rfl

theorem probes_snoc :
    probes config kind (before ++ [entry]) =
      if (routerAfter config (before ++ [entry])).state ≠ .halfOpen then []
      else if IsRequestCheck kind entry then probes config kind before ++ [entry.1]
      else probes config kind before := by
  rw [routerAfter_snoc, ← watch_router kind]
  unfold probes
  rw [List.foldl_append]
  rfl

theorem state_after_cases (router : CircuitStateInternal) (e : BreakerEvent) :
    ((router.after config e).state = router.state) ∨
      (e.op = .checkState ∧ router.state = .open ∧ (router.after config e).state = .halfOpen) ∨
      (e.op = .reportSuccess ∧ router.state = .halfOpen ∧ (router.after config e).state = .closed) ∨
      (e.op = .reportFailure ∧ router.state ≠ .open ∧ (router.after config e).state = .open) := by
  rcases router with ⟨state, failures, lastFailureTime⟩
  rcases e with ⟨op, answer⟩
  cases op with
  | checkState =>
      cases state with
      | closed => exact .inl rfl
      | halfOpen => exact .inl rfl
      | «open» =>
          cases lastFailureTime with
          | none => exact .inl rfl
          | some failed =>
              by_cases hpassed : answer.2 - failed > config.resetTimeout
              · refine .inr (.inl ⟨rfl, rfl, ?_⟩)
                simp [CircuitStateInternal.after, CircuitStateInternal.checkState, hpassed]
              · refine .inl ?_
                simp [CircuitStateInternal.after, CircuitStateInternal.checkState, hpassed]
  | askPrimary => exact .inl rfl
  | askPrimaryMetadata => exact .inl rfl
  | reportSuccess =>
      cases state with
      | closed => exact .inl rfl
      | «open» => exact .inl rfl
      | halfOpen => exact .inr (.inr (.inl ⟨rfl, rfl, rfl⟩))
  | reportFailure =>
      cases state with
      | «open» => exact .inl rfl
      | halfOpen => exact .inr (.inr (.inr ⟨rfl, by simp, rfl⟩))
      | closed =>
          by_cases hthreshold : failures + 1 ≥ config.failureThreshold
          · refine .inr (.inr (.inr ⟨rfl, by simp, ?_⟩))
            simp [CircuitStateInternal.after, CircuitStateInternal.reportFailure, hthreshold]
          · refine .inl ?_
            simp [CircuitStateInternal.after, CircuitStateInternal.reportFailure, hthreshold]

theorem probes_eq_nil {log : BreakerLog ι} (h : (routerAfter config log).state ≠ .halfOpen) :
    probes config kind log = [] := by
  induction log using List.reverseRecOn with
  | nil => rfl
  | append_singleton log entry ih => rw [probes_snoc, if_pos h]

theorem lastFailureTime_eq {log : BreakerLog ι} (h : (routerAfter config log).state ≠ .closed) :
    (routerAfter config log).lastFailureTime = lastFailure log := by
  induction log using List.reverseRecOn with
  | nil => exact absurd rfl h
  | append_singleton log entry ih =>
      have hlast : lastFailure (log ++ [entry]) =
          if entry.2.op = .reportFailure then timeOf entry.2 else lastFailure log := by
        unfold lastFailure
        rw [List.filterMap_append]
        rcases entry with ⟨i, op, answer⟩
        cases op <;> simp [timeOf]
      rw [routerAfter_snoc] at h ⊢
      rw [hlast]
      generalize routerAfter config log = router at h ih ⊢
      rcases router with ⟨state, failures, lastFailureTime⟩
      rcases entry with ⟨i, op, answer⟩
      cases op with
      | checkState =>
          rw [if_neg (by simp)]
          have hstate : state ≠ .closed := by
            rintro rfl
            exact h rfl
          rw [← ih hstate]
          simp only [CircuitStateInternal.after, CircuitStateInternal.checkState]
          cases state with
          | closed => rfl
          | halfOpen => rfl
          | «open» =>
              cases lastFailureTime with
              | none => rfl
              | some failed =>
                  dsimp only
                  split <;> rfl
      | askPrimary => exact ih h
      | askPrimaryMetadata => exact ih h
      | reportSuccess =>
          cases state with
          | closed => exact absurd rfl h
          | «open» => exact ih (by simp)
          | halfOpen => exact absurd rfl h
      | reportFailure => rfl

end Step

/-! ## Whole runs -/

section Runs

variable [DecidableEq ι] {config} {kind} {log : BreakerLog ι}
  {programs' : ι → Prog BreakerOp BreakerAns Route}

omit [DecidableEq ι] in
theorem afterAll_router (log : BreakerLog ι) :
    ((breaker config).afterAll .initial log).router = routerAfter config log := by
  induction log using List.reverseRecOn with
  | nil => rfl
  | append_singleton log entry ih =>
      rw [Resource.afterAll_append, routerAfter_snoc, ← ih]
      rfl

omit [DecidableEq ι] in
variable {t : Trace BreakerOp BreakerAns} {q : Prog BreakerOp BreakerAns Route}

theorem reportAnswer_reaches {answered : Bool} (h : Reaches (reportAnswer answered) t q) :
    ∀ e ∈ t, e.op ≠ .checkState := by
  unfold reportAnswer at h
  split at h
  · cases h with
    | refl => exact fun e he => by cases he
    | step rest =>
        cases rest
        exact fun e he => by rw [List.mem_singleton.mp he]; simp
  · cases h with
    | refl => exact fun e he => by cases he
    | step rest =>
        cases rest
        exact fun e he => by rw [List.mem_singleton.mp he]; simp

omit [DecidableEq ι] in
variable {checked : CircuitState × Nat}

theorem usePrimary_reaches (h : Reaches (usePrimary checked) t q) :
    (∀ e ∈ t, e.op ≠ .checkState) ∧ (checked.1 = .open → t = []) := by
  unfold usePrimary at h
  split at h
  · cases h
    exact ⟨fun e he => absurd he List.not_mem_nil, fun _ => rfl⟩
  · rename_i hclosed
    refine ⟨?_, fun hopen => absurd hopen hclosed⟩
    cases h with
    | refl => exact fun e he => by cases he
    | step rest =>
        intro e he
        rcases List.mem_cons.mp he with rfl | he
        · simp
        · exact reportAnswer_reaches rest e he

theorem streamCompletion_of_open (h : Reaches streamCompletion t q) {now : Nat}
    (hopen : (⟨.checkState, (.open, now)⟩ : BreakerEvent) ∈ t) :
    t = [⟨.checkState, (.open, now)⟩] := by
  cases h with
  | refl => cases hopen
  | @step _ _ checked t _ rest =>
      have hlater := usePrimary_reaches rest
      rcases List.mem_cons.mp hopen with hfirst | hmem
      · cases hfirst
        rw [hlater.2 rfl]
      · exact absurd rfl (hlater.1 _ hmem)

theorem answered_open (hrun : Interleaved (breaker config) (fun i => (kind i).program) .initial log
    programs') {before later : BreakerLog ι} {i : ι}
    (hsplit : log = before ++ (i, ⟨.checkState, checked⟩) :: later)
    (hopen : (routerAfter config before).state = .open) {failed : Nat}
    (hfailed : failed ∈ lastFailure before) (hearly : checked.2 < failed + config.resetTimeout) :
    checked.1 = .open := by
  rw [hsplit] at hrun
  rcases hrun.split with ⟨middle, -, hrest⟩
  cases hrest with
  | move turn allowed rest =>
      have hanswer : checked.1 = (((breaker config).afterAll .initial before).router.checkState
          config checked.2).2 := allowed.2
      rw [afterAll_router] at hanswer
      have htime := @lastFailureTime_eq _ config before (by rw [hopen]; simp)
      rw [Option.mem_def.mp hfailed] at htime
      rw [hanswer]
      unfold CircuitStateInternal.checkState
      rw [hopen, htime]
      dsimp only
      rw [if_neg (by omega)]

/-- An open circuit keeps requests from the primary, whatever else goes on. -/
theorem whileOpen_holds
    (hrun : Interleaved (breaker config) (fun i => (kind i).program) .initial log programs')
    {before later : BreakerLog ι} {i : ι}
    (hsplit : log = before ++ (i, ⟨.checkState, checked⟩) :: later) (hkind : kind i = .completion)
    (hopen : (routerAfter config before).state = .open)
    (hearly : ∃ failed ∈ lastFailure before, checked.2 < failed + config.resetTimeout) :
    ∀ entry ∈ log, entry.1 = i → entry.2.op ≠ .askPrimary := by
  rcases hearly with ⟨failed, hfailed, hearly⟩
  have hanswer := answered_open hrun hsplit hopen hfailed hearly
  have hreaches := hrun.reaches i
  rw [hkind] at hreaches
  have hmem : (⟨.checkState, (.open, checked.2)⟩ : BreakerEvent) ∈ threadLog i log := by
    rw [hsplit, ← hanswer]
    unfold threadLog
    simp
  have hall := streamCompletion_of_open hreaches hmem
  rintro ⟨j, e⟩ hentry rfl hask
  have hown : e ∈ threadLog j log := by
    unfold threadLog
    exact List.mem_filterMap.mpr ⟨_, hentry, by simp⟩
  rw [hall, List.mem_singleton] at hown
  rw [hown] at hask
  cases hask

/-- The breaker keeps its discipline over a run just when no step of it runs into a probe. -/
theorem disciplined_iff
    (hrun : Interleaved (breaker config) (fun i => (kind i).program) .initial log programs') :
    Disciplined config kind log ↔ Preceded (MeetsProbe config kind) log := by
  constructor
  · intro hdisciplined before entry later hsplit hhalf
    constructor
    · intro hcheck
      have hstays : (routerAfter config (before ++ [entry])).state = .halfOpen := by
        rw [routerAfter_snoc]
        rcases state_after_cases (routerAfter config before) entry.2 with
          hsame | ⟨-, hopen, -⟩ | ⟨hop, -, -⟩ | ⟨hop, -, -⟩
        · rw [hsame, hhalf]
        · rw [hhalf] at hopen
          cases hopen
        · rw [hcheck.2] at hop
          cases hop
        · rw [hcheck.2] at hop
          cases hop
      have hlength := hdisciplined.oneProbe (before ++ [entry]) later (by simp [hsplit])
      rw [probes_snoc, if_neg (by simpa using hstays), if_pos hcheck, List.length_append,
        List.length_singleton] at hlength
      exact List.eq_nil_of_length_eq_zero (by omega)
    · intro hsuccess
      refine (hdisciplined.closedByProbe before entry later hsplit (by rw [hhalf]; simp) ?_).2
      rw [routerAfter_snoc]
      rcases entry with ⟨i, op, answer⟩
      cases hsuccess
      generalize routerAfter config before = router at hhalf
      rcases router with ⟨state, failures, lastFailureTime⟩
      cases hhalf
      rfl
  · intro hmeets
    refine ⟨fun before i checked later hsplit hkind hopen hearly =>
      whileOpen_holds hrun hsplit hkind hopen hearly, ?_, ?_⟩
    · intro before
      induction before using List.reverseRecOn with
      | nil => exact fun _ _ => Nat.zero_le _
      | append_singleton before entry ih =>
          intro later hsplit
          rw [List.append_assoc, List.singleton_append] at hsplit
          have hbefore := ih (entry :: later) hsplit
          rw [probes_snoc]
          split
          · exact Nat.zero_le _
          · split
            · rename_i hcheck
              by_cases hhalf : (routerAfter config before).state = .halfOpen
              · rw [(hmeets before entry later hsplit hhalf).1 hcheck]
                exact Nat.le_refl 1
              · rw [probes_eq_nil hhalf]
                exact Nat.le_refl 1
            · exact hbefore
    · intro before entry later hsplit hclosed hcloses
      rw [routerAfter_snoc] at hcloses
      rcases state_after_cases (routerAfter config before) entry.2 with
        hsame | ⟨-, -, hhalf⟩ | ⟨hop, hhalf, -⟩ | ⟨-, -, hopen⟩
      · exact absurd (hsame.symm.trans hcloses) hclosed
      · rw [hcloses] at hhalf
        cases hhalf
      · exact ⟨hop, (hmeets before entry later hsplit hhalf).2 hop⟩
      · rw [hcloses] at hopen
        cases hopen

end Runs

/-! ## Two probes at a time -/

def sampleConfig : CircuitBreakerConfig := ⟨1, 10⟩

def openingLog : BreakerLog Nat :=
  [(0, ⟨.checkState, (.closed, 0)⟩), (0, ⟨.askPrimary, false⟩), (0, ⟨.reportFailure, 1⟩)]

/-- After the timeout a second request probes the primary, and closes the circuit. -/
def probedLog : BreakerLog Nat :=
  openingLog ++ [(1, ⟨.checkState, (.halfOpen, 20)⟩), (1, ⟨.askPrimary, true⟩),
    (1, ⟨.reportSuccess, ()⟩)]

def twoProbesLog : BreakerLog Nat :=
  openingLog ++ [(1, ⟨.checkState, (.halfOpen, 20)⟩), (2, ⟨.checkState, (.halfOpen, 20)⟩)]

abbrev completions : Nat → Call := fun _ => .completion

theorem probedLog_interleaved : ∃ programs', Interleaved (breaker sampleConfig)
    (fun i => (completions i).program) .initial probedLog programs' :=
  ⟨_, .move rfl ⟨by decide, rfl⟩ (.move rfl ⟨by decide, trivial⟩
    (.move rfl ⟨by decide, trivial⟩ (.move rfl ⟨by decide, rfl⟩
      (.move rfl ⟨by decide, trivial⟩ (.move rfl ⟨by decide, trivial⟩ (.done _ _))))))⟩

theorem twoProbesLog_interleaved : ∃ programs', Interleaved (breaker sampleConfig)
    (fun i => (completions i).program) .initial twoProbesLog programs' :=
  ⟨_, .move rfl ⟨by decide, rfl⟩ (.move rfl ⟨by decide, trivial⟩
    (.move rfl ⟨by decide, trivial⟩ (.move rfl ⟨by decide, rfl⟩
      (.move rfl ⟨by decide, rfl⟩ (.done _ _)))))⟩

theorem probedLog_meets : Preceded (MeetsProbe sampleConfig completions) probedLog := by
  have hsnoc : ∀ before entry, Preceded (MeetsProbe sampleConfig completions) before →
      MeetsProbe sampleConfig completions before entry →
        Preceded (MeetsProbe sampleConfig completions) (before ++ [entry]) :=
    fun _ _ h hx => h.snoc hx
  have hopening : Preceded (MeetsProbe sampleConfig completions) openingLog :=
    hsnoc _ _ (hsnoc _ _ (hsnoc [] _ .nil fun h => by cases h) fun h => by cases h) fun h => by
      cases h
  have hprobe := hsnoc _ (1, ⟨.checkState, (.halfOpen, 20)⟩) hopening fun h => by cases h
  have hasked := hsnoc _ (1, ⟨.askPrimary, true⟩) hprobe fun _ =>
    ⟨fun h => (by cases h.2), fun h => (by cases h)⟩
  exact hsnoc _ (1, ⟨.reportSuccess, ()⟩) hasked fun _ =>
    ⟨fun h => (by cases h.2), fun _ => by decide⟩

theorem probedLog_disciplined : Disciplined sampleConfig completions probedLog := by
  rcases probedLog_interleaved with ⟨programs', hrun⟩
  exact (disciplined_iff hrun).mpr probedLog_meets

theorem twoProbesLog_undisciplined :
    (∃ programs', Interleaved (breaker sampleConfig) (fun i => (completions i).program) .initial
      twoProbesLog programs') ∧ ¬ Disciplined sampleConfig completions twoProbesLog := by
  refine ⟨twoProbesLog_interleaved, fun h => ?_⟩
  have hlength := h.oneProbe twoProbesLog [] (List.append_nil _).symm
  revert hlength
  decide

end BenShu.Agent
