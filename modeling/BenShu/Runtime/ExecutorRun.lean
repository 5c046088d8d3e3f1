import BenShu.Runtime.ContinuousTask

/-!
# Runs of the executor

Every returned run is a chain of checkpointed steps followed by one of the
loop's exits. `Advances` is that chain; the facts about returned runs are
inductions over it.
-/

namespace BenShu.Runtime

open Interaction

abbrev ExecutorEvent := Event ExecutorOp ExecutorAns
abbrev ExecutorTrace := Trace ExecutorOp ExecutorAns

/-! ## Observations of a trace -/

/-- The request and result of a runner call that returned a result. -/
def returnedResult : ExecutorEvent → Option (ContinuousStepRequest × ContinuousStepResult)
  | ⟨.runStep request, .ok result⟩ => some (request, result)
  | ⟨.runStepWithin _ request, some (.ok result)⟩ => some (request, result)
  | _ => none

def recordStepCall :
    ExecutorEvent → Option (ContinuousStepRequest × ContinuousStepResult)
  | ⟨.recordStep request result, _⟩ => some (request, result)
  | _ => none

def reportedRequest : ExecutorEvent → Option ContinuousStepRequest
  | ⟨.recordStepAttempt request _ _ _, _⟩ => some request
  | _ => none

def calledRequest : ExecutorEvent → Option ContinuousStepRequest
  | ⟨.runStep request, _⟩ => some request
  | ⟨.runStepWithin _ request, _⟩ => some request
  | _ => none

def sinkFailed : ExecutorEvent → Bool
  | ⟨.recordStepAttempt _ _ _ _, .error _⟩ => true
  | ⟨.recordStep _ _, .error _⟩ => true
  | _ => false

def recordStepCalls (t : ExecutorTrace) : List (ContinuousStepRequest × ContinuousStepResult) :=
  t.filterMap recordStepCall

def attemptRequests (t : ExecutorTrace) : List ContinuousStepRequest :=
  t.filterMap reportedRequest

def runnerRequests (t : ExecutorTrace) : List ContinuousStepRequest :=
  t.filterMap calledRequest

@[simp] theorem recordStepCalls_append (t₁ t₂ : ExecutorTrace) :
    recordStepCalls (t₁ ++ t₂) = recordStepCalls t₁ ++ recordStepCalls t₂ :=
  List.filterMap_append

@[simp] theorem attemptRequests_append (t₁ t₂ : ExecutorTrace) :
    attemptRequests (t₁ ++ t₂) = attemptRequests t₁ ++ attemptRequests t₂ :=
  List.filterMap_append

@[simp] theorem runnerRequests_append (t₁ t₂ : ExecutorTrace) :
    runnerRequests (t₁ ++ t₂) = runnerRequests t₁ ++ runnerRequests t₂ :=
  List.filterMap_append

/-! ## Attempts -/

def Passes (result : ContinuousStepResult) : Prop :=
  continuousStepQualityBlocker result.output = none ∧
    continuousStepDeclaredBlocker result.output = none

variable {outcome : RunnerOutcome} {result : ContinuousStepResult} {policy : ContinuousTaskPolicy}
  {request : ContinuousStepRequest}

theorem judge_accept (h : judge policy request outcome = .accept result) :
    outcome = .finished (.ok result) ∧ Passes result := by
  unfold judge at h
  split at h
  · cases h
  · cases h
  · rename_i value
    split at h
    · cases h
    · rename_i hquality
      split at h
      · split at h <;> cases h
      · rename_i hdeclared
        cases h
        exact ⟨rfl, hquality, hdeclared⟩
  · cases h
  · split at h <;> cases h

theorem judge_stop {status reason : String} {outputPreview output : Option String}
    {runStatus : ContinuousTaskStatus}
    (h : judge policy request outcome = .stop status reason outputPreview runStatus output) :
    runStatus ≠ .completed := by
  unfold judge at h
  split at h
  · cases h
  · cases h
  · split at h
    · cases h
    · split at h
      · split at h
        · cases h
        · cases h
          intro hfalse
          cases hfalse
      · cases h
  · cases h
    intro hfalse
    cases hfalse
  · split at h
    · cases h
      intro hfalse
      cases hfalse
    · cases h

/-- A runner call made for a request. -/
structure RunnerCall (request : ContinuousStepRequest) (outcome : RunnerOutcome)
    (t : ExecutorTrace) : Prop where
  noRecord : recordStepCalls t = []
  noAttempt : attemptRequests t = []
  noFailure : ∀ e ∈ t, sinkFailed e = false
  requests : runnerRequests t =
    match outcome with
    | .totalBudgetSpent _ => []
    | _ => [request]
  lastRan : ∀ result, outcome = .finished (.ok result) →
    ∃ before e, t = before ++ [e] ∧ returnedResult e = some (request, result)

variable {t : ExecutorTrace}

theorem runWithin_call {budget : Option Duration} (h : Runs (runWithin request budget) t outcome) :
    RunnerCall request outcome t := by
  cases budget with
  | none =>
      rcases h with ⟨answer, rest, rfl, rfl, rfl⟩
      refine ⟨rfl, rfl, by simp [sinkFailed], rfl, ?_⟩
      intro result hfalse
      cases hfalse
      exact ⟨[], _, rfl, rfl⟩
  | some budget =>
      rcases h with ⟨answer, rest, rfl, h⟩
      cases answer with
      | none =>
          rcases h with ⟨rfl, rfl⟩
          exact ⟨rfl, rfl, by simp [sinkFailed], rfl, by intro _ h; cases h⟩
      | some result =>
          rcases h with ⟨rfl, rfl⟩
          refine ⟨rfl, rfl, by simp [sinkFailed], rfl, ?_⟩
          intro result hfalse
          cases hfalse
          exact ⟨[], _, rfl, rfl⟩

theorem callRunner_call (h : Runs (callRunner policy request) t outcome) :
    RunnerCall request outcome t := by
  unfold callRunner at h
  split at h
  · simp only [Prog.perform_bind, runs_request] at h
    rcases h with ⟨elapsed, rest, rfl, h⟩
    split at h
    · rcases h with ⟨rfl, rfl⟩
      exact ⟨rfl, rfl, by simp [sinkFailed], rfl, by intro _ h; cases h⟩
    · obtain ⟨hrecord, hattempt, hfailure, hrequests, hlast⟩ := runWithin_call h
      refine ⟨hrecord, hattempt, ?_, hrequests, ?_⟩
      · simpa [sinkFailed] using hfailure
      · intro result hr
        obtain ⟨before, e, rfl, he⟩ := hlast result hr
        exact ⟨_ :: before, e, rfl, he⟩
  · exact runWithin_call h

/-- The request concerns this step of this plan. -/
structure RequestFor (plan : ContinuousTaskPlan) (step : ContinuousTaskStep)
    (request : ContinuousStepRequest) : Prop where
  taskId : request.taskId = plan.id
  workerRole : request.workerRole = plan.workerRole
  step : request.step = step

/-- A trace in which a step is attempted up to its acceptance. Every attempt but
the last is reported twice, at its start and at its failure. -/
structure AcceptedAttempts (plan : ContinuousTaskPlan) (step : ContinuousTaskStep) (limit : Nat)
    (result : ContinuousStepResult) (t : ExecutorTrace) : Prop where
  passes : Passes result
  noFailure : ∀ e ∈ t, sinkFailed e = false
  attemptsFor : ∀ request ∈ attemptRequests t, RequestFor plan step request
  callsFor : ∀ request ∈ runnerRequests t, RequestFor plan step request
  calls_pos : 0 < (runnerRequests t).length
  calls_le : (runnerRequests t).length ≤ limit
  reports : (attemptRequests t).length + 1 = 2 * (runnerRequests t).length
  lastRan : ∃ before e request, t = before ++ [e] ∧ returnedResult e = some (request, result) ∧
    RequestFor plan step request

theorem attemptRequest_for (plan : ContinuousTaskPlan) (step : ContinuousTaskStep)
    (progress : Progress) (attempt : Nat) (lastError : Option String) :
    RequestFor plan step (attemptRequest plan step progress attempt lastError) := ⟨rfl, rfl, rfl⟩

variable {step : ContinuousTaskStep} {plan : ContinuousTaskPlan}

theorem AcceptedAttempts.last {status reason : String} (hfor : RequestFor plan step request)
    (hpass : Passes result) (call : RunnerCall request (.finished (.ok result)) t) (limit : Nat) :
    AcceptedAttempts plan step (limit + 1) result
      (⟨.recordStepAttempt request status reason none, .ok ()⟩ :: t) where
  passes := hpass
  noFailure := by simpa [sinkFailed] using call.noFailure
  attemptsFor := by
    show ∀ r ∈ request :: attemptRequests t, _
    simpa [call.noAttempt] using hfor
  callsFor := by
    show ∀ r ∈ runnerRequests t, _
    simpa [call.requests] using hfor
  calls_pos := by
    show 0 < (runnerRequests t).length
    simp [call.requests]
  calls_le := by
    show (runnerRequests t).length ≤ _
    simp [call.requests]
  reports := by
    show (request :: attemptRequests t).length + 1 = 2 * (runnerRequests t).length
    simp [call.noAttempt, call.requests]
  lastRan := by
    obtain ⟨before, e, rfl, he⟩ := call.lastRan result rfl
    exact ⟨_ :: before, e, request, rfl, he, hfor⟩

/-- A failed attempt in front: two reports and one runner call. -/
theorem AcceptedAttempts.retry {running started status reason : String}
    {outputPreview : Option String} {t' : ExecutorTrace} {limit : Nat}
    (hfor : RequestFor plan step request) (call : RunnerCall request outcome t)
    (hcalled : runnerRequests t = [request]) (later : AcceptedAttempts plan step limit result t') :
    AcceptedAttempts plan step (limit + 1) result
      (⟨.recordStepAttempt request running started none, .ok ()⟩ ::
        (t ++ ⟨.recordStepAttempt request status reason outputPreview, .ok ()⟩ :: t')) := by
  have hattempts : attemptRequests (⟨.recordStepAttempt request running started none, .ok ()⟩ ::
      (t ++ ⟨.recordStepAttempt request status reason outputPreview, .ok ()⟩ :: t')) =
        request :: request :: attemptRequests t' := by
    show request :: attemptRequests (t ++ _) = _
    rw [attemptRequests_append, call.noAttempt]
    rfl
  have hcalls : runnerRequests (⟨.recordStepAttempt request running started none, .ok ()⟩ ::
      (t ++ ⟨.recordStepAttempt request status reason outputPreview, .ok ()⟩ :: t')) =
        request :: runnerRequests t' := by
    show runnerRequests (t ++ _) = _
    rw [runnerRequests_append, hcalled]
    rfl
  constructor
  · exact later.passes
  · intro e he
    simp only [List.mem_cons, List.mem_append] at he
    rcases he with rfl | he | rfl | he
    · rfl
    · exact call.noFailure e he
    · rfl
    · exact later.noFailure e he
  · rw [hattempts]
    simpa [hfor] using later.attemptsFor
  · rw [hcalls]
    simpa [hfor] using later.callsFor
  · rw [hcalls]
    exact Nat.succ_pos _
  · rw [hcalls]
    exact Nat.succ_le_succ later.calls_le
  · have hlater := later.reports
    rw [hattempts, hcalls]
    simp only [List.length_cons]
    omega
  · obtain ⟨before, e, r, rfl, he, hr⟩ := later.lastRan
    refine ⟨⟨.recordStepAttempt request running started none, .ok ()⟩ ::
      (t ++ ⟨.recordStepAttempt request status reason outputPreview, .ok ()⟩ :: before),
      e, r, ?_, he, hr⟩
    simp

variable {progress : Progress}

theorem attempts_run {remaining attempt : Nat} {lastError : Option String}
    {outcome : Except String StepOutcome}
    (h : Runs (attempts plan step progress remaining attempt lastError) t outcome) :
    recordStepCalls t = [] ∧ ∀ result, outcome = .ok (.accepted result) →
      AcceptedAttempts plan step remaining result t := by
  induction remaining generalizing attempt lastError t with
  | zero =>
      rcases h with ⟨rfl, rfl⟩
      exact ⟨rfl, by intro _ h; cases h⟩
  | succ remaining ih =>
      simp only [attempts, Prog.perform_bind, runs_request] at h
      rcases h with ⟨answer, rest, rfl, h⟩
      rcases answer with e | ⟨⟨⟩⟩
      · rcases h with ⟨rfl, rfl⟩
        exact ⟨rfl, by intro _ h; cases h⟩
      · replace h := runs_bind.mp h
        rcases h with ⟨t₁, t₂, ran, rfl, hcall, h⟩
        have call := callRunner_call hcall
        have hfor := attemptRequest_for plan step progress attempt lastError
        -- a report after the runner call adds no record
        have noRecord : ∀ (request : ContinuousStepRequest) (status reason : String)
            (preview : Option String) (answer : Except String Unit) (t : ExecutorTrace),
            recordStepCalls t = [] →
            recordStepCalls (t₁ ++ ⟨.recordStepAttempt request status reason preview, answer⟩ :: t)
              = [] := by
          intro request status reason preview answer t ht
          rw [recordStepCalls_append, call.noRecord]
          exact ht
        split at h
        · rename_i result hjudge
          rcases h with ⟨rfl, rfl⟩
          obtain ⟨rfl, hpass⟩ := judge_accept hjudge
          rw [List.append_nil]
          refine ⟨call.noRecord, ?_⟩
          intro _ hfalse
          cases hfalse
          exact .last hfor hpass call remaining
        · simp only [runs_request] at h
          rcases h with ⟨answer, rest, rfl, h⟩
          rcases answer with e | ⟨⟨⟩⟩ <;> obtain ⟨rfl, rfl⟩ := h <;>
            exact ⟨noRecord _ _ _ _ _ [] rfl, by intro _ h; cases h⟩
        · rename_i status reason outputPreview hjudge
          simp only [runs_request] at h
          rcases h with ⟨answer, rest, rfl, h⟩
          rcases answer with e | ⟨⟨⟩⟩
          · rcases h with ⟨rfl, rfl⟩
            exact ⟨noRecord _ _ _ _ _ [] rfl, by intro _ h; cases h⟩
          · obtain ⟨hnone, haccepted⟩ := ih h
            refine ⟨noRecord _ _ _ _ _ _ hnone,
              fun result hres => .retry hfor call ?_ (haccepted result hres)⟩
            have hrequests := call.requests
            cases ran with
            | totalBudgetSpent e => cases hjudge
            | finished r => exact hrequests
            | timedOut e => exact hrequests
        · simp only [runs_request] at h
          rcases h with ⟨answer, rest, rfl, h⟩
          rcases answer with e | ⟨⟨⟩⟩ <;> obtain ⟨rfl, rfl⟩ := h <;>
            exact ⟨noRecord _ _ _ _ _ [] rfl, by intro _ h; cases h⟩

/-! ## The chain of checkpointed steps -/

/-- The steps checkpointed so far, the trace that did so and the accumulators it
left. Each step is accepted, recorded and then dated. -/
inductive Advances (plan : ContinuousTaskPlan) :
    List ContinuousTaskStep → ExecutorTrace → Progress → Prop
  | start : Advances plan [] [] {}
  | step {steps : List ContinuousTaskStep} {t t' : ExecutorTrace} {progress : Progress}
      {step : ContinuousTaskStep} {result : ContinuousStepResult} (earlier : Advances plan steps t progress)
      (dependencies : missingDependency step progress = none)
      (accepted : AcceptedAttempts plan step (plan.policy.maxRetriesPerStep + 1) result t')
      (noRecord : recordStepCalls t' = [])
      (fresh : isExactRepeat plan.policy progress result = false)
      (artifactUri : Option String) (recordedAt : Timestamp) :
      Advances plan (steps ++ [step])
        (t ++ (t' ++
          [⟨.recordStep (requestForCheckpoint plan step progress.previousSummary) result,
            .ok artifactUri⟩, ⟨.utcNow, recordedAt⟩]))
        (progress.checkpointed step result artifactUri recordedAt)

/-- How a run ends after the steps in `progress`: nothing more is recorded, and a
completed run has no steps left. -/
structure Finishes (plan : ContinuousTaskPlan) (rest : List ContinuousTaskStep)
    (progress : Progress) (tail : ExecutorTrace) (run : ContinuousTaskRun) : Prop where
  noRecord : recordStepCalls tail = []
  checkpoints : run.checkpoints = progress.checkpoints
  completedSteps : run.completedSteps = progress.checkpoints.length
  outputs : progress.outputs <+: run.outputs
  completed : run.status = .completed →
    rest = [] ∧ plan.steps.length ≤ plan.boundedSteps ∧ ∃ now, tail = [⟨.utcNow, now⟩]

theorem finishRun_finishes {startedAt : Timestamp} {ending : Progress}
    {status : ContinuousTaskStatus} {rest : List ContinuousTaskStep} {tail : ExecutorTrace}
    {run : ContinuousTaskRun} (before : ExecutorTrace)
    (h : Runs (finishRun plan startedAt ending status) tail (.ok run))
    (hbefore : recordStepCalls before = [])
    (hcheckpoints : ending.checkpoints = progress.checkpoints)
    (houtputs : progress.outputs <+: ending.outputs) (hstatus : status = .completed →
      rest = [] ∧ plan.steps.length ≤ plan.boundedSteps ∧ before = []) :
    Finishes plan rest progress (before ++ tail) run := by
  rcases h with ⟨now, rest, rfl, rfl, hrun⟩
  cases hrun
  refine ⟨?_, hcheckpoints, congrArg List.length hcheckpoints, houtputs, fun hc => ?_⟩
  · rw [recordStepCalls_append, hbefore]
    rfl
  · obtain ⟨hrest, hbounded, rfl⟩ := hstatus hc
    exact ⟨hrest, hbounded, now, rfl⟩

theorem exhaustedStatus_ne_completed (lastError : Option String) :
    exhaustedStatus lastError ≠ .completed := by
  unfold exhaustedStatus
  dsimp only
  split <;> rintro ⟨⟩

theorem attempts_stopped {remaining attempt : Nat} {lastError : Option String}
    {status : ContinuousTaskStatus} {output : Option String}
    (h : Runs (attempts plan step progress remaining attempt lastError) t
      (.ok (.stopped status output))) : status ≠ .completed := by
  induction remaining generalizing attempt lastError t with
  | zero => cases h.2
  | succ remaining ih =>
      simp only [attempts, Prog.perform_bind, runs_request] at h
      rcases h with ⟨answer, rest, rfl, h⟩
      rcases answer with e | ⟨⟨⟩⟩
      · cases h.2
      · replace h := runs_bind.mp h
        rcases h with ⟨t₁, t₂, ran, rfl, hcall, h⟩
        split at h
        · cases h.2
        · simp only [runs_request] at h
          rcases h with ⟨answer, rest, rfl, h⟩
          rcases answer with e | ⟨⟨⟩⟩ <;> cases h.2
        · simp only [runs_request] at h
          rcases h with ⟨answer, rest, rfl, h⟩
          rcases answer with e | ⟨⟨⟩⟩
          · cases h.2
          · exact ih h
        · rename_i runStatus output hjudge
          simp only [runs_request] at h
          rcases h with ⟨answer, rest, rfl, h⟩
          rcases answer with e | ⟨⟨⟩⟩
          · cases h.2
          · rcases h with ⟨-, hstopped⟩
            cases hstopped
            exact judge_stop hjudge

/-- The run of the loop is a chain of steps and an ending. -/
theorem runSteps_run {startedAt : Timestamp} {steps done : List ContinuousTaskStep}
    {t₀ : ExecutorTrace} {run : ContinuousTaskRun}
    (h : Runs (runSteps plan startedAt steps progress) t (.ok run))
    (hdone : Advances plan done t₀ progress) :
    ∃ taken rest t₁ tail final, steps = taken ++ rest ∧ t = t₁ ++ tail ∧
      Advances plan (done ++ taken) (t₀ ++ t₁) final ∧ Finishes plan rest final tail run := by
  induction steps generalizing done progress t₀ t with
  | nil =>
      refine ⟨[], [], [], t, progress, rfl, rfl, by simpa using hdone, ?_⟩
      refine finishRun_finishes [] h rfl rfl (List.prefix_refl _) ?_
      split
      · intro hfalse
        cases hfalse
      · intro _
        exact ⟨rfl, by omega, rfl⟩
  | cons step rest ih =>
      -- a run that ends here leaves this step and the rest undone
      have stop : ∀ (before : ExecutorTrace) {tail : ExecutorTrace} {ending : Progress}
          {status : ContinuousTaskStatus}, t = before ++ tail →
          Runs (finishRun plan startedAt ending status) tail (.ok run) →
          recordStepCalls before = [] → ending.checkpoints = progress.checkpoints →
          progress.outputs <+: ending.outputs → status ≠ .completed →
          ∃ taken rest' t₁ tail final, step :: rest = taken ++ rest' ∧ t = t₁ ++ tail ∧
            Advances plan (done ++ taken) (t₀ ++ t₁) final ∧
            Finishes plan rest' final tail run := by
        intro before tail ending status heq hrun hbefore hcheckpoints houtputs hstatus
        subst heq
        exact ⟨[], _, [], _, progress, rfl, rfl, by simpa using hdone,
          finishRun_finishes before hrun hbefore hcheckpoints houtputs fun hc => absurd hc hstatus⟩
      simp only [runSteps] at h
      split at h
      · exact stop [] rfl h rfl rfl (List.prefix_refl _) (by intro h; cases h)
      · rename_i hdependencies
        replace h := runs_bind.mp h
        rcases h with ⟨t₁, t₂, outcome, ht, hattempts, h⟩
        obtain ⟨noRecord, haccepted⟩ := attempts_run hattempts
        split at h
        · cases h.2
        · exact stop t₁ ht h noRecord rfl (List.prefix_append _ _) (attempts_stopped hattempts)
        · exact stop t₁ ht h noRecord rfl (List.prefix_refl _) (exhaustedStatus_ne_completed _)
        · rename_i result
          split at h
          · exact stop t₁ ht h noRecord rfl (List.prefix_refl _) (by intro h; cases h)
          · rename_i hfresh
            simp only [Prog.perform_bind, runs_request] at h
            rcases h with ⟨answer, t₃, rfl, h⟩
            cases answer with
            | error e => cases h.2
            | ok artifactUri =>
                rcases h with ⟨recordedAt, t₄, rfl, h⟩
                have hstep := hdone.step hdependencies (haccepted result rfl) noRecord
                  (Bool.eq_false_iff.mpr hfresh) artifactUri recordedAt
                obtain ⟨taken, rest', t₅, tail, final, rfl, rfl, hadvances, hfinishes⟩ :=
                  ih h hstep
                refine ⟨step :: taken, rest', t₁ ++
                  ⟨.recordStep (requestForCheckpoint plan step progress.previousSummary) result,
                    .ok artifactUri⟩ :: ⟨.utcNow, recordedAt⟩ :: t₅, tail, final, rfl, ?_, ?_,
                  hfinishes⟩
                · rw [ht]
                  simp
                · simpa using hadvances

end BenShu.Runtime
