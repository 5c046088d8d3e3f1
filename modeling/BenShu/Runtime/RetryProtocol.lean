import BenShu.Runtime.CheckpointContract

/-!
# The retry protocol

What the runner is asked in the course of a run: the attempts of a step are numbered from
zero, each is told why the one before it failed and what the last checkpoint says, and after
an answer that ends the run nothing more is asked.
-/

namespace BenShu.Runtime

open Interaction History RuntimePolicy

/-! ## What is observed -/

/-- The answer of the runner, if it came in time. -/
def runnerAnswer : ExecutorEvent → Option (Except StepError ContinuousStepResult)
  | ⟨.runStep _, answer⟩ => some answer
  | ⟨.runStepWithin _ _, answer⟩ => answer
  | _ => none

structure AttemptReport where
  request : ContinuousStepRequest
  status : String
  reason : String

def attemptReport : ExecutorEvent → Option AttemptReport
  | ⟨.recordStepAttempt request status reason _, _⟩ => some ⟨request, status, reason⟩
  | _ => none

def attemptReports (t : ExecutorTrace) : List AttemptReport := t.filterMap attemptReport

def checkpointSummary : ExecutorEvent → Option String
  | ⟨.recordStep _ result, .ok _⟩ => some result.summary
  | _ => none

def lastCheckpointSummary (t : ExecutorTrace) : Option String :=
  (t.filterMap checkpointSummary).getLast?

/-- A typed blocker, a disconnect of the provider, or a declared blocker that is not to be
repaired. What an output declares is not looked at if its quality is rejected. -/
def endsStep : Except StepError ContinuousStepResult → Bool
  | .error (.blocker _) => true
  | .error (.other error) => isRecoverableProviderDisconnect error
  | .ok value =>
      (continuousStepQualityBlocker value.output).isNone &&
        (continuousStepDeclaredBlocker value.output).isSome &&
        !continuousStepDeclaredBlockerIsRecoverable value.output

/-- An answer of the runner that ends the step, an attempt reported as blocked, or an error
of the sink. -/
def endsRun (e : ExecutorEvent) : Bool :=
  sinkFailed e || (runnerAnswer e).any endsStep ||
    (attemptReport e).any fun report => report.status == "blocked"

/-- The first attempt of a step has no previous error; each later one has the reason that was
recorded of the attempt before it. -/
def FollowsReports (reports : List AttemptReport) (request : ContinuousStepRequest) : Prop :=
  request.attempt = 0 ∧ request.previousError = none ∨
    ∃ earlier last running, reports = earlier ++ [last, running] ∧
      running.request = request ∧ last.request.step = request.step ∧
      request.attempt = last.request.attempt + 1 ∧ request.previousError = some last.reason

def InProtocol (before : ExecutorTrace) (e : ExecutorEvent) : Prop :=
  ∀ request, calledRequest e = some request →
    FollowsReports (attemptReports before) request ∧
      request.previousSummary = lastCheckpointSummary before

def StopsAtEnd (t : ExecutorTrace) : Prop :=
  ∀ before e after, t = before ++ e :: after → endsRun e = true → runnerRequests after = []

@[simp] theorem attemptReports_append (t₁ t₂ : ExecutorTrace) :
    attemptReports (t₁ ++ t₂) = attemptReports t₁ ++ attemptReports t₂ :=
  List.filterMap_append

theorem lastCheckpointSummary_append {t₁ t₂ : ExecutorTrace}
    (h : ∀ e ∈ t₂, checkpointSummary e = none) :
    lastCheckpointSummary (t₁ ++ t₂) = lastCheckpointSummary t₁ := by
  rw [lastCheckpointSummary, List.filterMap_append, List.filterMap_eq_nil_iff.mpr h,
    List.append_nil, lastCheckpointSummary]

variable {t : ExecutorTrace}

theorem runnerRequests_eq_nil (h : ∀ e ∈ t, calledRequest e = none) :
    runnerRequests t = [] := List.filterMap_eq_nil_iff.mpr h

theorem stopsAtEnd_nil : StopsAtEnd [] := fun _ _ _ heq => by simp at heq

theorem StopsAtEnd.append_left {t₁ t₂ : ExecutorTrace} (h : ∀ e ∈ t₁, endsRun e = false)
    (h₂ : StopsAtEnd t₂) : StopsAtEnd (t₁ ++ t₂) := by
  intro before e after heq hends
  rcases List.append_eq_append_iff.mp heq with ⟨m, rfl, hm⟩ | ⟨m, rfl, hm⟩
  · exact h₂ m e after hm hends
  · cases m with
    | nil => exact h₂ [] e after hm.symm hends
    | cons x m =>
        obtain ⟨rfl, -⟩ := List.cons.inj hm
        rw [h e (by simp)] at hends
        cases hends

theorem StopsAtEnd.append_right {t₁ t₂ : ExecutorTrace} (h₁ : StopsAtEnd t₁)
    (h : runnerRequests t₂ = []) : StopsAtEnd (t₁ ++ t₂) := by
  intro before e after heq hends
  rcases List.append_eq_append_iff.mp heq with ⟨m, rfl, hm⟩ | ⟨m, rfl, hm⟩
  · rw [hm, runnerRequests_append] at h
    have hcons : runnerRequests (e :: after) = [] := (List.append_eq_nil_iff.mp h).2
    exact List.filterMap_eq_nil_iff.mpr fun x hx =>
      List.filterMap_eq_nil_iff.mp hcons x (List.mem_cons_of_mem e hx)
  · cases m with
    | nil =>
        rw [List.nil_append] at hm
        rw [← hm] at h
        exact List.filterMap_eq_nil_iff.mpr fun x hx =>
          List.filterMap_eq_nil_iff.mp h x (List.mem_cons_of_mem e hx)
    | cons x m =>
        rw [List.cons_append, List.cons.injEq] at hm
        rw [hm.2, runnerRequests_append, h, List.append_nil]
        exact h₁ before e m (by rw [hm.1]) hends

theorem stopsAtEnd_singleton (e : ExecutorEvent) : StopsAtEnd [e] := by
  intro before e' after heq hends
  cases before with
  | nil =>
      obtain ⟨-, rfl⟩ := List.cons.inj heq
      rfl
  | cons x before =>
      obtain ⟨-, hnil⟩ := List.cons.inj heq
      simp at hnil

/-! ## One attempt -/

variable {policy : ContinuousTaskPolicy} {ran : RunnerOutcome} {request : ContinuousStepRequest}

theorem callRunner_cases (h : Runs (callRunner policy request) t ran) :
    (∃ d, t = [⟨.elapsed, d⟩] ∧ ∃ error, ran = .totalBudgetSpent error) ∨
      ∃ before e, t = before ++ [e] ∧ (∀ x ∈ before, ∃ d, x = ⟨.elapsed, d⟩) ∧
        calledRequest e = some request ∧
        ∀ answer, runnerAnswer e = some answer → ran = .finished answer := by
  have hwithin : ∀ {budget : Option Duration} {t : ExecutorTrace},
      Runs (runWithin request budget) t ran → ∃ e, t = [e] ∧ calledRequest e = some request ∧
        ∀ answer, runnerAnswer e = some answer → ran = .finished answer := by
    intro budget t h
    cases budget with
    | none =>
        rcases h with ⟨answer, rest, rfl, rfl, rfl⟩
        exact ⟨_, rfl, rfl, fun _ heq => congrArg _ (Option.some.inj heq)⟩
    | some budget =>
        rcases h with ⟨answer, rest, rfl, h⟩
        cases answer with
        | none =>
            rcases h with ⟨rfl, rfl⟩
            exact ⟨_, rfl, rfl, fun _ heq => by cases heq⟩
        | some result =>
            rcases h with ⟨rfl, rfl⟩
            exact ⟨_, rfl, rfl, fun _ heq => congrArg _ (Option.some.inj heq)⟩
  unfold callRunner at h
  split at h
  · simp only [Prog.perform_bind, runs_request] at h
    rcases h with ⟨d, rest, rfl, h⟩
    split at h
    · rcases h with ⟨rfl, rfl⟩
      exact .inl ⟨d, rfl, _, rfl⟩
    · obtain ⟨e, rfl, hcalled, hanswer⟩ := hwithin h
      exact .inr ⟨[_], e, rfl, by simp, hcalled, hanswer⟩
  · obtain ⟨e, rfl, hcalled, hanswer⟩ := hwithin h
    exact .inr ⟨[], e, rfl, by simp, hcalled, hanswer⟩

theorem endsStep_of_judge {answer : Except StepError ContinuousStepResult}
    (h : (∃ result, judge policy request (.finished answer) = .accept result) ∨
      ∃ status reason preview,
        judge policy request (.finished answer) = .retry status reason preview) :
    endsStep answer = false := by
  rcases answer with (b | error) | value
  · rcases h with ⟨_, h⟩ | ⟨_, _, _, h⟩ <;> cases h
  · simp only [judge] at h
    split at h
    · rcases h with ⟨_, h⟩ | ⟨_, _, _, h⟩ <;> cases h
    · rename_i hdisconnect
      exact Bool.eq_false_iff.mpr hdisconnect
  · simp only [judge] at h
    simp only [endsStep]
    split at h
    · rename_i hquality
      rw [hquality]
      rfl
    · split at h
      · split at h
        · rename_i hrecoverable
          rw [hrecoverable.2, Bool.not_true, Bool.and_false]
        · rcases h with ⟨_, h⟩ | ⟨_, _, _, h⟩ <;> cases h
      · rename_i hdeclared
        rw [hdeclared, Option.isSome_none, Bool.and_false, Bool.false_and]

theorem status_ne_blocked_of_retry {status reason : String} {preview : Option String}
    (h : judge policy request ran = .retry status reason preview) : status ≠ "blocked" := by
  unfold judge at h
  split at h
  · cases h
  · cases h
    decide
  · split at h
    · cases h
      decide
    · split at h
      · split at h <;> cases h
        decide
      · cases h
  · cases h
  · split at h <;> cases h
    decide

/-! ## The attempts of a step -/

section

variable (plan : ContinuousTaskPlan) (step : ContinuousTaskStep) (progress : Progress)

abbrev started (attempt : Nat) (lastError : Option String) (answer : Except String Unit) :
    ExecutorEvent :=
  ⟨.recordStepAttempt (attemptRequest plan step progress attempt lastError) "running"
    "continuous step attempt started" none, answer⟩

/-- What the loop reports of an attempt that is not accepted, and how it goes on:
`none` to the next attempt. -/
def reported : Verdict → Option (String × String × Option String × Option StepOutcome)
  | .accept _ => none
  | .giveUp reason => some ("failed", reason, none, some (.exhausted (some reason)))
  | .retry status reason preview => some (status, reason, preview, none)
  | .stop status reason preview runStatus output =>
      some (status, reason, preview, some (.stopped runStatus output))

/-- How the attempts of a step can go, one after the other. -/
inductive Attempted : Nat → Nat → Option String → ExecutorTrace → Except String StepOutcome → Prop
  | exhausted {attempt : Nat} {lastError : Option String} :
      Attempted 0 attempt lastError [] (.ok (.exhausted lastError))
  | unstarted {remaining attempt : Nat} {lastError : Option String} {e : String} :
      Attempted (remaining + 1) attempt lastError
        [started plan step progress attempt lastError (.error e)] (.error e)
  | accepted {remaining attempt : Nat} {lastError : Option String} {call : ExecutorTrace}
      {ran : RunnerOutcome} {result : ContinuousStepResult}
      (hcall : Runs (callRunner plan.policy
        (attemptRequest plan step progress attempt lastError)) call ran)
      (hjudge : judge plan.policy (attemptRequest plan step progress attempt lastError) ran =
        .accept result) :
      Attempted (remaining + 1) attempt lastError
        (started plan step progress attempt lastError (.ok ()) :: call) (.ok (.accepted result))
  | unreported {remaining attempt : Nat} {lastError : Option String} {call : ExecutorTrace}
      {ran : RunnerOutcome} {status reason e : String} {preview : Option String}
      {next : Option StepOutcome}
      (hcall : Runs (callRunner plan.policy
        (attemptRequest plan step progress attempt lastError)) call ran)
      (hjudge : reported (judge plan.policy
        (attemptRequest plan step progress attempt lastError) ran) =
          some (status, reason, preview, next)) :
      Attempted (remaining + 1) attempt lastError
        (started plan step progress attempt lastError (.ok ()) :: (call ++
          [⟨.recordStepAttempt (attemptRequest plan step progress attempt lastError) status reason
            preview, .error e⟩])) (.error e)
  | ended {remaining attempt : Nat} {lastError : Option String} {call : ExecutorTrace}
      {ran : RunnerOutcome} {status reason : String} {preview : Option String}
      {outcome : StepOutcome}
      (hcall : Runs (callRunner plan.policy
        (attemptRequest plan step progress attempt lastError)) call ran)
      (hjudge : reported (judge plan.policy
        (attemptRequest plan step progress attempt lastError) ran) =
          some (status, reason, preview, some outcome)) :
      Attempted (remaining + 1) attempt lastError
        (started plan step progress attempt lastError (.ok ()) :: (call ++
          [⟨.recordStepAttempt (attemptRequest plan step progress attempt lastError) status reason
            preview, .ok ()⟩])) (.ok outcome)
  | retried {remaining attempt : Nat} {lastError : Option String} {call t : ExecutorTrace}
      {ran : RunnerOutcome} {status reason : String} {preview : Option String}
      {outcome : Except String StepOutcome}
      (hcall : Runs (callRunner plan.policy
        (attemptRequest plan step progress attempt lastError)) call ran)
      (hjudge : judge plan.policy (attemptRequest plan step progress attempt lastError) ran =
        .retry status reason preview)
      (later : Attempted remaining (attempt + 1) (some reason) t outcome) :
      Attempted (remaining + 1) attempt lastError
        (started plan step progress attempt lastError (.ok ()) :: (call ++
          ⟨.recordStepAttempt (attemptRequest plan step progress attempt lastError) status reason
            preview, .ok ()⟩ :: t)) outcome

end

variable {outcome : Except String StepOutcome} {lastError : Option String}

theorem attempts_attempted {plan : ContinuousTaskPlan} {step : ContinuousTaskStep}
    {progress : Progress} {remaining attempt : Nat}
    (h : Runs (attempts plan step progress remaining attempt lastError) t outcome) :
    Attempted plan step progress remaining attempt lastError t outcome := by
  induction remaining generalizing attempt lastError t with
  | zero =>
      rcases h with ⟨rfl, rfl⟩
      exact .exhausted
  | succ remaining ih =>
      simp only [attempts, Prog.perform_bind, runs_request] at h
      rcases h with ⟨answer, rest, rfl, h⟩
      rcases answer with e | ⟨⟨⟩⟩
      · rcases h with ⟨rfl, rfl⟩
        exact .unstarted
      · replace h := runs_bind.mp h
        rcases h with ⟨call, t₂, ran, rfl, hcall, h⟩
        split at h
        · rename_i result hjudge
          rcases h with ⟨rfl, rfl⟩
          rw [List.append_nil]
          exact .accepted hcall hjudge
        · rename_i reason hjudge
          rcases h with ⟨answer, rest, rfl, h⟩
          rcases answer with e | ⟨⟨⟩⟩
          · rcases h with ⟨rfl, rfl⟩
            exact .unreported hcall (by rw [hjudge]; rfl)
          · rcases h with ⟨rfl, rfl⟩
            exact .ended hcall (by rw [hjudge]; rfl)
        · rename_i status reason preview hjudge
          rcases h with ⟨answer, rest, rfl, h⟩
          rcases answer with e | ⟨⟨⟩⟩
          · rcases h with ⟨rfl, rfl⟩
            exact .unreported hcall (by rw [hjudge]; rfl)
          · exact .retried hcall hjudge (ih h)
        · rename_i status reason preview runStatus output hjudge
          rcases h with ⟨answer, rest, rfl, h⟩
          rcases answer with e | ⟨⟨⟩⟩
          · rcases h with ⟨rfl, rfl⟩
            exact .unreported hcall (by rw [hjudge]; rfl)
          · rcases h with ⟨rfl, rfl⟩
            exact .ended hcall (by rw [hjudge]; rfl)

/-- What the calls and reports of one step keep to, after the events `ctx`. -/
structure StepProtocol (plan : ContinuousTaskPlan) (step : ContinuousTaskStep) (limit : Nat)
    (attempt : Nat) (ctx t : ExecutorTrace) (outcome : Except String StepOutcome) : Prop where
  inProtocol : Preceded (fun before e => InProtocol (ctx ++ before) e) t
  calls_le : (runnerRequests t).length ≤ limit
  numbered : (runnerRequests t).map (·.attempt) = List.range' attempt (runnerRequests t).length
  ofStep : ∀ request ∈ runnerRequests t, request.step = step
  stops : StopsAtEnd t
  accepted : ∀ result, outcome = .ok (.accepted result) → ∀ e ∈ t, endsRun e = false
  noCheckpoint : ∀ e ∈ t, checkpointSummary e = none

/-- The reports so far, when an attempt is about to begin. -/
def AtAttempt (step : ContinuousTaskStep) (attempt : Nat) (lastError : Option String)
    (ctx : ExecutorTrace) : Prop :=
  attempt = 0 ∧ lastError = none ∨
    ∃ earlier last, attemptReports ctx = earlier ++ [last] ∧ last.request.step = step ∧
      attempt = last.request.attempt + 1 ∧ lastError = some last.reason

theorem inProtocol_of_called_none {before : ExecutorTrace} {e : ExecutorEvent}
    (h : calledRequest e = none) : InProtocol before e := by
  intro request hrequest
  rw [h] at hrequest
  cases hrequest

/-- An attempt up to the answer of the runner. -/
structure AttemptFront (plan : ContinuousTaskPlan) (step : ContinuousTaskStep)
    (request : ContinuousStepRequest) (ran : RunnerOutcome) (ctx t : ExecutorTrace) : Prop where
  inProtocol : Preceded (fun before e => InProtocol (ctx ++ before) e) t
  calls : runnerRequests t = [request] ∨
    runnerRequests t = [] ∧ ∃ error, ran = .totalBudgetSpent error
  reports : attemptReports t = [⟨request, "running", "continuous step attempt started"⟩]
  stops : StopsAtEnd t
  goesOn : (∀ answer, ran = .finished answer → endsStep answer = false) →
    ∀ e ∈ t, endsRun e = false
  noCheckpoint : ∀ e ∈ t, checkpointSummary e = none

variable {ctx : ExecutorTrace}

theorem attemptFront {plan : ContinuousTaskPlan} {step : ContinuousTaskStep} {progress : Progress}
    {attempt : Nat} {call : ExecutorTrace} (hcall : Runs (callRunner plan.policy
      (attemptRequest plan step progress attempt lastError)) call ran)
    (hsummary : progress.previousSummary = lastCheckpointSummary ctx)
    (hctx : AtAttempt step attempt lastError ctx) :
    AttemptFront plan step (attemptRequest plan step progress attempt lastError) ran ctx
      (started plan step progress attempt lastError (.ok ()) :: call) := by
  have hrunning : endsRun (started plan step progress attempt lastError (.ok ())) = false := rfl
  rcases callRunner_cases hcall with
    ⟨d, rfl, error, rfl⟩ | ⟨before, e, rfl, hclock, hcalled, hanswer⟩
  · refine ⟨?_, .inr ⟨rfl, error, rfl⟩, rfl, ?_, ?_, ?_⟩
    · refine .of_forall fun e he _ => inProtocol_of_called_none ?_
      rcases List.mem_cons.mp he with rfl | he
      · rfl
      · rw [List.mem_singleton.mp he]
        rfl
    · exact (stopsAtEnd_singleton _).append_right rfl
    · intro _ e he
      rcases List.mem_cons.mp he with rfl | he
      · exact hrunning
      · rw [List.mem_singleton.mp he]
        rfl
    · intro e he
      rcases List.mem_cons.mp he with rfl | he
      · rfl
      · rw [List.mem_singleton.mp he]
        rfl
  · -- the clock may be read before the runner is called
    have hclockNone : ∀ x ∈ before, calledRequest x = none ∧ endsRun x = false ∧
        attemptReport x = none ∧ checkpointSummary x = none := by
      intro x hx
      obtain ⟨d, rfl⟩ := hclock x hx
      exact ⟨rfl, rfl, rfl, rfl⟩
    have hasked : sinkFailed e = false ∧ attemptReport e = none ∧ checkpointSummary e = none := by
      unfold calledRequest at hcalled
      split at hcalled
      · exact ⟨rfl, rfl, rfl⟩
      · exact ⟨rfl, rfl, rfl⟩
      · cases hcalled
    have hreports : attemptReports (started plan step progress attempt lastError (.ok ()) ::
        before) = [⟨attemptRequest plan step progress attempt lastError, "running",
          "continuous step attempt started"⟩] := by
      have hnone : attemptReports before = [] :=
        List.filterMap_eq_nil_iff.mpr fun x hx => (hclockNone x hx).2.2.1
      show _ :: attemptReports before = _
      rw [hnone]
    have hquiet : ∀ x ∈ started plan step progress attempt lastError (.ok ()) :: before,
        calledRequest x = none ∧ endsRun x = false ∧ checkpointSummary x = none := by
      intro x hx
      rcases List.mem_cons.mp hx with rfl | hx
      · exact ⟨rfl, rfl, rfl⟩
      · exact ⟨(hclockNone x hx).1, (hclockNone x hx).2.1, (hclockNone x hx).2.2.2⟩
    rw [← List.cons_append]
    refine ⟨?_, .inl ?_, ?_, ?_, ?_, ?_⟩
    · refine Preceded.snoc (.of_forall fun x hx _ => inProtocol_of_called_none (hquiet x hx).1) ?_
      intro request hrequest
      rw [hcalled] at hrequest
      cases hrequest
      constructor
      · rw [attemptReports_append, hreports]
        rcases hctx with ⟨rfl, rfl⟩ | ⟨earlier, last, hlast, hstep, hattempt, hreason⟩
        · exact .inl ⟨rfl, rfl⟩
        · refine .inr ⟨earlier, last, ⟨attemptRequest plan step progress attempt lastError,
            "running", "continuous step attempt started"⟩, ?_, rfl, hstep, hattempt, hreason⟩
          rw [hlast, List.append_assoc]
          rfl
      · rw [lastCheckpointSummary_append fun x hx => (hquiet x hx).2.2]
        exact hsummary
    · rw [runnerRequests_append, runnerRequests_eq_nil fun x hx => (hquiet x hx).1]
      simp [runnerRequests, hcalled]
    · rw [attemptReports_append, hreports]
      simp [attemptReports, hasked.2.1]
    · exact .append_left (fun x hx => (hquiet x hx).2.1) (stopsAtEnd_singleton e)
    · intro hgoes x hx
      rcases List.mem_append.mp hx with hx | hx
      · exact (hquiet x hx).2.1
      · rw [List.mem_singleton.mp hx]
        simp only [endsRun, hasked.1, hasked.2.1, Bool.false_or, Option.any_none, Bool.or_false]
        cases hran : runnerAnswer e with
        | none => rfl
        | some answer => exact hgoes answer (hanswer answer hran)
    · intro x hx
      rcases List.mem_append.mp hx with hx | hx
      · exact (hquiet x hx).2.2
      · rw [List.mem_singleton.mp hx]
        exact hasked.2.2

/-- A report after the answer of the runner ends the part of one attempt. -/
theorem StepProtocol.of_front {plan : ContinuousTaskPlan} {step : ContinuousTaskStep}
    {progress : Progress} {remaining attempt : Nat} {front rest : ExecutorTrace}
    (hfront : AttemptFront plan step (attemptRequest plan step progress attempt lastError) ran ctx
      front) (hrest : ∀ e ∈ rest, calledRequest e = none ∧ checkpointSummary e = none)
    (haccepted : ∀ result, outcome = .ok (.accepted result) →
      rest = [] ∧ ∀ answer, ran = .finished answer → endsStep answer = false) :
    StepProtocol plan step (remaining + 1) attempt ctx (front ++ rest) outcome := by
  have hnone := runnerRequests_eq_nil fun e he => (hrest e he).1
  have hcalls : runnerRequests (front ++ rest) = runnerRequests front := by
    rw [runnerRequests_append, hnone, List.append_nil]
  constructor
  · exact hfront.inProtocol.trans
      (.of_forall fun e he _ => inProtocol_of_called_none (hrest e he).1)
  · rw [hcalls]
    rcases hfront.calls with h | ⟨h, -⟩ <;> simp [h]
  · rw [hcalls]
    rcases hfront.calls with h | ⟨h, -⟩ <;> simp [h, attemptRequest]
  · rw [hcalls]
    rcases hfront.calls with h | ⟨h, -⟩ <;> simp [h, attemptRequest]
  · exact hfront.stops.append_right hnone
  · intro result hresult
    obtain ⟨rfl, hgoes⟩ := haccepted result hresult
    rw [List.append_nil]
    exact hfront.goesOn hgoes
  · intro e he
    rcases List.mem_append.mp he with he | he
    · exact hfront.noCheckpoint e he
    · exact (hrest e he).2

/-- An attempt that failed, and the ones after it. -/
theorem StepProtocol.retry {plan : ContinuousTaskPlan} {step : ContinuousTaskStep}
    {progress : Progress} {remaining attempt : Nat} {preview : Option String}
    {status reason : String} {front : ExecutorTrace}
    (hfront : AttemptFront plan step (attemptRequest plan step progress attempt lastError) ran ctx
      front) (hjudge : judge plan.policy (attemptRequest plan step progress attempt lastError) ran =
      .retry status reason preview)
    (later : StepProtocol plan step remaining (attempt + 1) (ctx ++ (front ++
      [⟨.recordStepAttempt (attemptRequest plan step progress attempt lastError) status reason
        preview, .ok ()⟩])) t outcome) :
    StepProtocol plan step (remaining + 1) attempt ctx (front ++
      [⟨.recordStepAttempt (attemptRequest plan step progress attempt lastError) status reason
        preview, .ok ()⟩] ++ t) outcome := by
  have hfirst : runnerRequests front = [attemptRequest plan step progress attempt lastError] := by
    rcases hfront.calls with h | ⟨-, error, rfl⟩
    · exact h
    · cases hjudge
  have hcalls : runnerRequests (front ++ [⟨.recordStepAttempt (attemptRequest plan step progress
      attempt lastError) status reason preview, .ok ()⟩] ++ t) =
      attemptRequest plan step progress attempt lastError :: runnerRequests t := by
    rw [runnerRequests_append, runnerRequests_append, hfirst]
    rfl
  have hgoes : ∀ e ∈ front ++ [⟨.recordStepAttempt (attemptRequest plan step progress attempt
      lastError) status reason preview, .ok ()⟩], endsRun e = false := by
    intro e he
    rcases List.mem_append.mp he with he | he
    · refine hfront.goesOn (fun answer hran => ?_) e he
      subst hran
      exact endsStep_of_judge (.inr ⟨_, _, _, hjudge⟩)
    · rw [List.mem_singleton.mp he]
      simpa [endsRun, sinkFailed, runnerAnswer, attemptReport] using
        status_ne_blocked_of_retry hjudge
  constructor
  · refine Preceded.trans (hfront.inProtocol.trans (.of_forall fun e he _ => ?_)) ?_
    · rw [List.mem_singleton.mp he]
      exact inProtocol_of_called_none rfl
    · simpa only [List.append_assoc] using later.inProtocol
  · rw [hcalls]
    exact Nat.succ_le_succ later.calls_le
  · rw [hcalls, List.map_cons, later.numbered, List.length_cons, List.range'_succ]
    rfl
  · rw [hcalls]
    intro request hrequest
    rcases List.mem_cons.mp hrequest with rfl | hrequest
    · rfl
    · exact later.ofStep request hrequest
  · exact later.stops.append_left hgoes
  · intro result hresult e he
    rcases List.mem_append.mp he with he | he
    · exact hgoes e he
    · exact later.accepted result hresult e he
  · intro e he
    rcases List.mem_append.mp he with he | he
    · rcases List.mem_append.mp he with he | he
      · exact hfront.noCheckpoint e he
      · rw [List.mem_singleton.mp he]
        rfl
    · exact later.noCheckpoint e he

theorem reported_ne_accepted {verdict : Verdict} {status reason : String}
    {preview : Option String} {result : ContinuousStepResult} :
    reported verdict ≠ some (status, reason, preview, some (.accepted result)) := by
  cases verdict <;> simp [reported]

theorem attempts_protocol {plan : ContinuousTaskPlan} {step : ContinuousTaskStep}
    {progress : Progress} {remaining attempt : Nat}
    (h : Attempted plan step progress remaining attempt lastError t outcome)
    (hsummary : progress.previousSummary = lastCheckpointSummary ctx)
    (hctx : AtAttempt step attempt lastError ctx) :
    StepProtocol plan step remaining attempt ctx t outcome := by
  induction h generalizing ctx with
  | exhausted =>
      exact ⟨.nil, Nat.le_refl 0, rfl, by simp [runnerRequests], stopsAtEnd_nil,
        (fun _ _ _ he => by cases he), (fun _ he => by cases he)⟩
  | unstarted =>
      refine ⟨.of_forall fun e he _ => ?_, Nat.zero_le _, rfl, by simp [runnerRequests, calledRequest],
        stopsAtEnd_singleton _, (fun _ hok => by cases hok), fun e he => ?_⟩
      · rw [List.mem_singleton.mp he]
        exact inProtocol_of_called_none rfl
      · rw [List.mem_singleton.mp he]
        rfl
  | accepted hcall hjudge =>
      have hfront := attemptFront hcall hsummary hctx
      rw [← List.append_nil (_ :: _)]
      refine .of_front hfront (fun e he => by cases he) fun _ _ => ⟨rfl, fun answer hran => ?_⟩
      subst hran
      exact endsStep_of_judge (.inl ⟨_, hjudge⟩)
  | unreported hcall hjudge =>
      rw [← List.cons_append]
      refine .of_front (attemptFront hcall hsummary hctx) (fun e he => ?_) fun _ hok => by cases hok
      rw [List.mem_singleton.mp he]
      exact ⟨rfl, rfl⟩
  | @ended _ _ _ _ _ _ _ _ outcome hcall hjudge =>
      rw [← List.cons_append]
      refine .of_front (attemptFront hcall hsummary hctx) (fun e he => ?_) fun result hok => ?_
      · rw [List.mem_singleton.mp he]
        exact ⟨rfl, rfl⟩
      · cases hok
        exact absurd hjudge reported_ne_accepted
  | @retried _ attempt lastError call t ran status reason preview outcome hcall hjudge later ih =>
      have hfront := attemptFront hcall hsummary hctx
      have hlater := @ih (ctx ++ (started plan step progress attempt lastError (.ok ()) :: call ++
        [⟨.recordStepAttempt (attemptRequest plan step progress attempt lastError) status reason
          preview, .ok ()⟩])) ?_ ?_
      · have hwhole := StepProtocol.retry hfront hjudge hlater
        simpa using hwhole
      · rw [lastCheckpointSummary_append, hsummary]
        intro e he
        rcases List.mem_append.mp he with he | he
        · exact hfront.noCheckpoint e he
        · rw [List.mem_singleton.mp he]
          rfl
      · refine .inr ⟨attemptReports ctx ++ attemptReports
          (started plan step progress attempt lastError (.ok ()) :: call),
          ⟨attemptRequest plan step progress attempt lastError, status, reason⟩, ?_, rfl, rfl, rfl⟩
        rw [attemptReports_append, attemptReports_append, List.append_assoc]
        rfl

/-! ## The steps of a run -/

abbrev AskedStep := ContinuousTaskStep × List ContinuousStepRequest

/-- The attempts of one step: at most one more than the retries, numbered from zero. -/
structure AskedInOrder (plan : ContinuousTaskPlan) (asked : AskedStep) : Prop where
  calls_le : asked.2.length ≤ plan.policy.maxRetriesPerStep + 1
  numbered : asked.2.map (·.attempt) = List.range asked.2.length
  ofStep : ∀ request ∈ asked.2, request.step = asked.1

structure StepsProtocol (plan : ContinuousTaskPlan) (steps : List ContinuousTaskStep)
    (ctx t : ExecutorTrace) : Prop where
  inProtocol : Preceded (fun before e => InProtocol (ctx ++ before) e) t
  asked : ∃ asked : List AskedStep, asked.map Prod.fst <+: steps ∧
    runnerRequests t = asked.flatMap Prod.snd ∧ ∀ entry ∈ asked, AskedInOrder plan entry
  stops : StopsAtEnd t

variable {steps : List ContinuousTaskStep}

theorem stepsProtocol_quiet {plan : ContinuousTaskPlan} (h : ∀ e ∈ t, calledRequest e = none) :
    StepsProtocol plan steps ctx t where
  inProtocol := .of_forall fun e he _ => inProtocol_of_called_none (h e he)
  asked := ⟨[], List.nil_prefix, runnerRequests_eq_nil h, by simp⟩
  stops := stopsAtEnd_nil.append_right (runnerRequests_eq_nil h)

theorem called_none_of_finishRun {plan : ContinuousTaskPlan} {startedAt : Timestamp}
    {progress : Progress} {status : ContinuousTaskStatus}
    {answer : Except String ContinuousTaskRun}
    (h : Runs (finishRun plan startedAt progress status) t answer) :
    ∀ e ∈ t, calledRequest e = none := by
  rcases h with ⟨now, rest, rfl, rfl, -⟩
  intro e he
  rw [List.mem_singleton.mp he]
  rfl

/-- The attempts of the first step, and what comes after them. -/
theorem StepProtocol.cons {plan : ContinuousTaskPlan} {step : ContinuousTaskStep}
    {rest : List ContinuousTaskStep} {t₁ t₂ : ExecutorTrace}
    (hstep : StepProtocol plan step (plan.policy.maxRetriesPerStep + 1) 0 ctx t₁ outcome)
    (later : StepsProtocol plan rest (ctx ++ t₁) t₂)
    (hgoes : (∀ e ∈ t₁, endsRun e = false) ∨ runnerRequests t₂ = []) :
    StepsProtocol plan (step :: rest) ctx (t₁ ++ t₂) where
  inProtocol := hstep.inProtocol.trans (by simpa only [List.append_assoc] using later.inProtocol)
  asked := by
    obtain ⟨asked, hsteps, hcalls, horder⟩ := later.asked
    refine ⟨(step, runnerRequests t₁) :: asked, ?_, ?_, ?_⟩
    · exact List.cons_prefix_cons.mpr ⟨rfl, hsteps⟩
    · rw [runnerRequests_append, hcalls, List.flatMap_cons]
    · intro entry hentry
      rcases List.mem_cons.mp hentry with rfl | hentry
      · exact ⟨hstep.calls_le, by rw [hstep.numbered, List.range_eq_range'], hstep.ofStep⟩
      · exact horder entry hentry
  stops := by
    rcases hgoes with hgoes | hnone
    · exact later.stops.append_left hgoes
    · exact hstep.stops.append_right hnone

theorem StepsProtocol.after {plan : ContinuousTaskPlan} {front : ExecutorTrace}
    (later : StepsProtocol plan steps (ctx ++ front) t)
    (hquiet : ∀ e ∈ front, calledRequest e = none ∧ endsRun e = false) :
    StepsProtocol plan steps ctx (front ++ t) where
  inProtocol := Preceded.trans
    (.of_forall fun e he _ => inProtocol_of_called_none (hquiet e he).1)
    (by simpa only [List.append_assoc] using later.inProtocol)
  asked := by
    rw [runnerRequests_append, runnerRequests_eq_nil fun e he => (hquiet e he).1]
    exact later.asked
  stops := later.stops.append_left fun e he => (hquiet e he).2

theorem runSteps_protocol {plan : ContinuousTaskPlan} {startedAt : Timestamp}
    {progress : Progress} {answer : Except String ContinuousTaskRun}
    (h : Runs (runSteps plan startedAt steps progress) t answer)
    (hsummary : progress.previousSummary = lastCheckpointSummary ctx) :
    StepsProtocol plan steps ctx t := by
  induction steps generalizing progress ctx t with
  | nil => exact stepsProtocol_quiet (called_none_of_finishRun h)
  | cons step rest ih =>
      simp only [runSteps] at h
      split at h
      · exact stepsProtocol_quiet (called_none_of_finishRun h)
      · replace h := runs_bind.mp h
        rcases h with ⟨t₁, t₂, outcome, rfl, hattempts, h⟩
        have hstep := attempts_protocol (attempts_attempted hattempts) hsummary (.inl ⟨rfl, rfl⟩)
        -- the run ends after this step
        have last : (∀ e ∈ t₂, calledRequest e = none) →
            StepsProtocol plan (step :: rest) ctx (t₁ ++ t₂) := fun hquiet =>
          hstep.cons (stepsProtocol_quiet hquiet) (.inr (runnerRequests_eq_nil hquiet))
        split at h
        · rcases h with ⟨rfl, -⟩
          exact last (by simp)
        · exact last (called_none_of_finishRun h)
        · exact last (called_none_of_finishRun h)
        · rename_i result
          split at h
          · exact last (called_none_of_finishRun h)
          · simp only [Prog.perform_bind, runs_request] at h
            rcases h with ⟨recorded, t₃, rfl, h⟩
            cases recorded with
            | error e =>
                rcases h with ⟨rfl, -⟩
                refine last fun e he => ?_
                rw [List.mem_singleton.mp he]
                rfl
            | ok artifactUri =>
                rcases h with ⟨recordedAt, t₄, rfl, h⟩
                have hrecorded : lastCheckpointSummary (ctx ++ t₁ ++ [⟨.recordStep
                    (requestForCheckpoint plan step progress.previousSummary) result,
                    .ok artifactUri⟩, ⟨.utcNow, recordedAt⟩]) = some result.summary := by
                  rw [lastCheckpointSummary, List.filterMap_append]
                  exact List.getLast?_concat
                refine hstep.cons ((ih h hrecorded.symm).after fun e he => ?_)
                  (.inl (hstep.accepted result rfl))
                rcases List.mem_pair.mp he with rfl | rfl <;> exact ⟨rfl, rfl⟩

/-- The retry protocol of one run. -/
structure RetryProtocol (plan : ContinuousTaskPlan) (t : ExecutorTrace) : Prop where
  asked : ∃ asked : List AskedStep,
    asked.map Prod.fst <+: plan.steps.take plan.boundedSteps ∧
      runnerRequests t = asked.flatMap Prod.snd ∧ ∀ entry ∈ asked, AskedInOrder plan entry
  calls_le : (runnerRequests t).length ≤
    plan.boundedSteps * (plan.policy.maxRetriesPerStep + 1)
  inProtocol : Preceded InProtocol t
  stops : StopsAtEnd t

theorem length_calls_le {asked : List AskedStep} {limit : Nat}
    (h : ∀ entry ∈ asked, entry.2.length ≤ limit) :
    (asked.flatMap Prod.snd).length ≤ asked.length * limit := by
  induction asked with
  | nil => exact Nat.zero_le _
  | cons entry asked ih =>
      have hfirst := h entry List.mem_cons_self
      have hrest := ih fun e he => h e (List.mem_cons_of_mem _ he)
      rw [List.flatMap_cons, List.length_append, List.length_cons, Nat.succ_mul]
      omega

/-- Whatever the runner and the sink answer, a run keeps to the protocol. -/
theorem runWithCheckpointSink_retryProtocol {plan : ContinuousTaskPlan} {t : ExecutorTrace}
    {answer : Except String ContinuousTaskRun}
    (h : Runs (runWithCheckpointSink plan) t answer) : RetryProtocol plan t := by
  rcases h with ⟨startedAt, t, rfl, h⟩
  have hsteps : StepsProtocol plan (plan.steps.take plan.boundedSteps) [⟨.utcNow, startedAt⟩]
      t := by
    change Runs (if plan.boundedSteps = 0 then _ else _) t _ at h
    split at h
    · exact stepsProtocol_quiet (called_none_of_finishRun h)
    · exact runSteps_protocol h rfl
  have hwhole : StepsProtocol plan (plan.steps.take plan.boundedSteps) []
      (⟨.utcNow, startedAt⟩ :: t) := by
    have hafter : StepsProtocol plan (plan.steps.take plan.boundedSteps)
        ([] ++ [⟨.utcNow, startedAt⟩]) t := hsteps
    refine hafter.after fun e he => ?_
    rw [List.mem_singleton.mp he]
    exact ⟨rfl, rfl⟩
  refine ⟨hwhole.asked, ?_, hwhole.inProtocol, hwhole.stops⟩
  obtain ⟨asked, hplanned, hcalls, horder⟩ := hwhole.asked
  have hcount : asked.length ≤ plan.boundedSteps := by
    have hlen := hplanned.length_le
    rw [List.length_map, List.length_take] at hlen
    omega
  rw [hcalls]
  exact (length_calls_le fun entry hentry => (horder entry hentry).calls_le).trans
    (Nat.mul_le_mul_right _ hcount)

theorem runWithCheckpointSink_retryProtocol_draftPlan :
    ∃ t run calls,
      exec draftSurroundings (runWithCheckpointSink draftPlan) 0 = some (t, .ok run, calls) ∧
        (runnerRequests t).map (·.attempt) = [0, 1, 0] ∧ RetryProtocol draftPlan t :=
  ⟨_, _, 3, rfl, rfl, runWithCheckpointSink_retryProtocol (exec_runs draftSurroundings 0 rfl)⟩

end BenShu.Runtime
