import BenShu.Lib.Interaction
import BenShu.RuntimePolicy.ProviderHealth
import BenShu.State.RuntimeEvent

/-!
# Tests on the output of a continuous step

The quality blocker rejects degenerate text; the declared blocker finds the
markers with which a step reports that its own artifact is not finished.
-/

namespace BenShu.Runtime

open Text

def repeatedSeparatorRatio (text : String) : Nat :=
  let total := charCount text
  let separators :=
    (text.toList.filter fun ch =>
      ch = '_' || ch = '|' || ch = '-' || ch = '=' || ch = '~').length
  if total = 0 then 0 else min ((separators * 1000) / total) 1000

def sameCharRunAux : Option Char → Nat → Nat → List Char → Nat
  | _, _, best, [] => best
  | previous, current, best, ch :: rest =>
      let current := if some ch = previous then current + 1 else 1
      sameCharRunAux (some ch) current (max best current) rest

def maxConsecutiveSameCharRun (text : String) : Nat :=
  sameCharRunAux none 0 0 text.toList

def repeatedLineBlocker (text : String) : Option String :=
  let substantive := ((lines text).map trim).filter fun line => charCount line ≥ 8
  if substantive.length < 6 then none
  else
    let best := ((runningCounts [] substantive).map (·.2)).foldl max 0
    if best ≥ 4 ∧ best * 1000 / substantive.length ≥ 600 then
      some s!"line-level repetition detected: {best} of {substantive.length} substantive lines are identical"
    else none

def isTokenSeparator (ch : Char) : Bool :=
  isWhitespace ch ||
    ['-', '_', '|', '/', '\\', ',', '.', ';', ':', '，', '。', '；', '：', '、', '！', '？',
      '(', ')', '（', '）', '[', ']', '【', '】', '{', '}'].contains ch

def repetitionTokens (text : String) : List String :=
  ((split text isTokenSeparator).map trim).filter fun token => charCount token ≥ 2

/-- The first token to reach the highest count, as the counting loop keeps it. -/
def bestToken (tokens : List String) : String × Nat :=
  (runningCounts [] tokens).foldl
    (fun best counted => if counted.2 > best.2 then counted else best) ("", 0)

def repeatedTokenBlocker (text : String) : Option String :=
  let tokens := repetitionTokens text
  if tokens.length < 80 then none
  else
    let best := bestToken tokens
    let uniqueCount := tokens.dedup.length
    if best.2 ≥ 24 ∧ best.2 * 1000 / tokens.length ≥ 250 then
      some s!"token-level repetition detected: '{best.1}' appears {best.2} times in {tokens.length} tokens"
    else if tokens.length ≥ 120 ∧ uniqueCount ≤ tokens.length / 12 then
      some s!"low-diversity repeated output detected: {uniqueCount} unique tokens across {tokens.length} tokens"
    else none

def continuousStepQualityBlocker (output : String) : Option String :=
  let trimmed := trim output
  if trimmed.isEmpty then some "empty output"
  else if repeatedSeparatorRatio trimmed > 180 then
    some "output is dominated by repeated separators"
  else if maxConsecutiveSameCharRun trimmed ≥ 80 then
    some s!"single character repeated {maxConsecutiveSameCharRun trimmed} times consecutively"
  else
    match repeatedLineBlocker trimmed with
    | some reason => some reason
    | none => repeatedTokenBlocker trimmed

def recoverableMarkers : List String :=
  ["runtime_effect: artifact.needs_revision",
    "\"runtime_effect\":\"artifact.needs_revision\"",
    "runtime_effect: artifact.metadata_needs_repair",
    "\"runtime_effect\":\"artifact.metadata_needs_repair\""]

def declaredBlockedMarkers : List String :=
  ["status: blocked", "\"status\":\"blocked\"", "\"status\": \"blocked\""] ++ recoverableMarkers

def isBlockerLine (line : String) : Bool :=
  let lowered := toAsciiLowercase line
  startsWith lowered "blockers:" || startsWith lowered "status:" ||
    startsWith lowered "runtime_effect:"

def continuousStepDeclaredBlocker (output : String) : Option String :=
  if declaredBlockedMarkers.any (contains (toAsciiLowercase output)) then
    some (trim (((lines output).find? isBlockerLine).getD
      "continuous step declared a blocked artifact state"))
  else none

def continuousStepDeclaredBlockerIsRecoverable (output : String) : Bool :=
  recoverableMarkers.any (contains (toAsciiLowercase output))

example : continuousStepQualityBlocker "  \n" = some "empty output" := by decide

example : continuousStepDeclaredBlocker "status: blocked\nblockers: draft" =
    some "status: blocked" := by decide

end BenShu.Runtime

/-!
# The continuous task executor

A plan's steps run one after the other, each with bounded retries. The executor
is a program over requests to its surroundings: the clock, the step runner and
the checkpoint sink. What those answer is left open.
-/

namespace BenShu.Runtime

open Interaction RuntimePolicy

abbrev Timestamp := Int
abbrev Duration := Nat

def Duration.fromSecs (secs : Nat) : Duration := secs * 1000000000
def Duration.asSecs (d : Duration) : Nat := d / 1000000000

/-! ## Plans -/

structure ContinuousTaskPolicy where
  maxSteps : Nat := 32
  maxRetriesPerStep : Nat := 1
  stopOnExactRepeat : Bool := true
  maxStepDurationSecs : Option Nat := some 300
  maxStepTotalDurationSecs : Option Nat := none

structure ContinuousTaskAnchor where
  name : String
  value : String

structure ContinuousTaskContract where
  invariants : List String := []
  anchors : List ContinuousTaskAnchor := []
  completionCriteria : List String := []
  requiredEvents : List String := []
  completionEvent : Option String := none

inductive ContinuousStepAction where
  | delegate (role task : String)
  | tool (name : String) (arguments : Json)
  | skill (name : String) (arguments : Json)
  | model (prompt : String)
  | browser (operation : String) (payload : Json)
  | file (operation path : String) (payload : Json)
  | composite (actions : List ContinuousStepAction)
  | custom (action : String) (payload : Json)

structure ContinuousTaskStep where
  index : Nat
  label : String
  instruction : String := ""
  expectedOutput : Option String := none
  dependsOn : List Nat := []
  action : ContinuousStepAction := .custom "instruction" (.object [])

structure ContinuousTaskPlan where
  id : Uuid
  objective : String
  workerRole : String
  steps : List ContinuousTaskStep
  policy : ContinuousTaskPolicy := {}
  contract : Option ContinuousTaskContract := none

/-! ## Requests, results and runs -/

structure ContinuousStepRequest where
  taskId : Uuid
  objective : String
  workerRole : String
  step : ContinuousTaskStep
  previousSummary : Option String
  recentCheckpointSummaries : List String
  attempt : Nat
  previousError : Option String
  contract : Option ContinuousTaskContract

structure ContinuousStepResult where
  output : String
  summary : String
  artifactUri : Option String
  deriving DecidableEq

/-- A durable blocker reported by the runner, which is not to be retried. -/
structure ContinuousStepBlocker where
  reason : String
  output : String

inductive StepError where
  | blocker (b : ContinuousStepBlocker)
  | other (message : String)

structure ContinuousTaskCheckpoint where
  step : Nat
  label : String
  recordedAt : Timestamp
  summary : String
  artifactUri : Option String
  deriving DecidableEq

inductive ContinuousTaskStatus where
  | completed
  | paused (reason : String)
  | blocked (reason : String)
  | failed (reason : String)
  deriving DecidableEq

structure ContinuousTaskRun where
  taskId : Uuid
  status : ContinuousTaskStatus
  completedSteps : Nat
  totalSteps : Nat
  startedAt : Timestamp
  finishedAt : Timestamp
  checkpoints : List ContinuousTaskCheckpoint
  outputs : List String
  deriving DecidableEq

/-! ## What the executor asks of its surroundings -/

inductive ExecutorOp where
  | utcNow
  /-- time since the current step began -/
  | elapsed
  | runStep (request : ContinuousStepRequest)
  /-- the runner under `tokio::time::timeout`; `none` when the budget ran out -/
  | runStepWithin (budget : Duration) (request : ContinuousStepRequest)
  | recordStepAttempt (request : ContinuousStepRequest) (status reason : String)
      (outputPreview : Option String)
  | recordStep (request : ContinuousStepRequest) (result : ContinuousStepResult)

abbrev ExecutorAns : ExecutorOp → Type
  | .utcNow => Timestamp
  | .elapsed => Duration
  | .runStep _ => Except StepError ContinuousStepResult
  | .runStepWithin _ _ => Option (Except StepError ContinuousStepResult)
  | .recordStepAttempt _ _ _ _ => Except String Unit
  | .recordStep _ _ => Except String (Option String)

abbrev Executor := Prog ExecutorOp ExecutorAns

namespace Executor

abbrev utcNow : Executor Timestamp := Prog.perform ExecutorOp.utcNow

abbrev elapsed : Executor Duration := Prog.perform ExecutorOp.elapsed

abbrev runStep (request : ContinuousStepRequest) :
    Executor (Except StepError ContinuousStepResult) := Prog.perform (ExecutorOp.runStep request)

abbrev runStepWithin (budget : Duration) (request : ContinuousStepRequest) :
    Executor (Option (Except StepError ContinuousStepResult)) :=
  Prog.perform (ExecutorOp.runStepWithin budget request)

abbrev recordStepAttempt (request : ContinuousStepRequest) (status reason : String)
    (outputPreview : Option String) : Executor (Except String Unit) :=
  Prog.perform (ExecutorOp.recordStepAttempt request status reason outputPreview)

abbrev recordStep (request : ContinuousStepRequest) (result : ContinuousStepResult) :
    Executor (Except String (Option String)) := Prog.perform (ExecutorOp.recordStep request result)

end Executor

/-! ## One attempt -/

def budgetOfSecs (secs : Option Nat) : Option Duration :=
  (secs.filter (0 < ·)).map Duration.fromSecs

inductive RunnerOutcome where
  | finished (result : Except StepError ContinuousStepResult)
  | timedOut (error : String)
  | totalBudgetSpent (error : String)

def runWithin (request : ContinuousStepRequest) : Option Duration → Executor RunnerOutcome
  | some budget => do
      match ← Executor.runStepWithin budget request with
      | some result => return .finished result
      | none =>
          return .timedOut
            s!"step {request.step.index} attempt {request.attempt + 1} exceeded its {Duration.asSecs budget}s execution budget"
  | none => do return .finished (← Executor.runStep request)

def callRunner (policy : ContinuousTaskPolicy) (request : ContinuousStepRequest) :
    Executor RunnerOutcome :=
  let stepBudget := budgetOfSecs policy.maxStepDurationSecs
  match budgetOfSecs policy.maxStepTotalDurationSecs with
  | some totalBudget => do
      let elapsed ← Executor.elapsed
      if elapsed ≥ totalBudget then
        return .totalBudgetSpent
          s!"step {request.step.index} exceeded its {Duration.asSecs totalBudget}s total execution budget"
      else
        let totalRemaining := totalBudget - elapsed
        runWithin request (some ((stepBudget.map (min · totalRemaining)).getD totalRemaining))
  | none => runWithin request stepBudget

/-- What the executor does with an attempt. A retry or a stop is reported to the
sink with the given attempt status, reason and output preview. -/
inductive Verdict where
  | accept (result : ContinuousStepResult)
  | retry (status reason : String) (outputPreview : Option String)
  /-- no further attempt: the total budget of the step is spent -/
  | giveUp (reason : String)
  | stop (status reason : String) (outputPreview : Option String)
      (runStatus : ContinuousTaskStatus) (output : Option String)

def judge (policy : ContinuousTaskPolicy) (request : ContinuousStepRequest) :
    RunnerOutcome → Verdict
  | .totalBudgetSpent error => .giveUp error
  | .timedOut error => .retry "failed" error none
  | .finished (.ok value) =>
      match continuousStepQualityBlocker value.output with
      | some reason =>
          .retry "rejected"
            s!"step {request.step.index} produced invalid continuous output: {reason}"
            (some value.output)
      | none =>
          match continuousStepDeclaredBlocker value.output with
          | some reason =>
              if request.attempt < policy.maxRetriesPerStep ∧
                  continuousStepDeclaredBlockerIsRecoverable value.output then
                .retry "rejected" reason (some value.output)
              else
                .stop "blocked" reason (some value.output) (.blocked reason) (some value.output)
          | none => .accept value
  | .finished (.error (.blocker b)) =>
      .stop "blocked" b.reason (some b.output) (.blocked b.reason) (some b.output)
  | .finished (.error (.other error)) =>
      if isRecoverableProviderDisconnect error then
        .stop "failed" error none (.paused (providerServicePauseReason error)) none
      else .retry "failed" error none

/-! ## The attempts of a step -/

inductive StepOutcome where
  | accepted (result : ContinuousStepResult)
  | exhausted (lastError : Option String)
  | stopped (runStatus : ContinuousTaskStatus) (output : Option String)

/-- The accumulators of the loop over the steps. -/
structure Progress where
  checkpoints : List ContinuousTaskCheckpoint := []
  outputs : List String := []
  previousSummary : Option String := none
  previousOutput : Option String := none

def recentCheckpointSummaries (checkpoints : List ContinuousTaskCheckpoint) (limit : Nat) :
    List String :=
  (checkpoints.drop (checkpoints.length - limit)).map fun checkpoint =>
    s!"{checkpoint.step}. {checkpoint.label}: {checkpoint.summary}"

def attemptRequest (plan : ContinuousTaskPlan) (step : ContinuousTaskStep) (progress : Progress)
    (attempt : Nat) (lastError : Option String) : ContinuousStepRequest where
  taskId := plan.id
  objective := plan.objective
  workerRole := plan.workerRole
  step := step
  previousSummary := progress.previousSummary
  recentCheckpointSummaries := recentCheckpointSummaries progress.checkpoints 8
  attempt := attempt
  previousError := lastError
  contract := plan.contract

/-- `for attempt in 0..=max_retries_per_step`; the first argument counts the
attempts left. -/
def attempts (plan : ContinuousTaskPlan) (step : ContinuousTaskStep) (progress : Progress) :
    Nat → Nat → Option String → Executor (Except String StepOutcome)
  | 0, _, lastError => return .ok (.exhausted lastError)
  | remaining + 1, attempt, lastError => do
      let request := attemptRequest plan step progress attempt lastError
      match ← Executor.recordStepAttempt request "running" "continuous step attempt started"
          none with
      | .error e => return .error e
      | .ok () =>
          match judge plan.policy request (← callRunner plan.policy request) with
          | .accept result => return .ok (.accepted result)
          | .giveUp reason =>
              match ← Executor.recordStepAttempt request "failed" reason none with
              | .error e => return .error e
              | .ok () => return .ok (.exhausted (some reason))
          | .retry status reason outputPreview =>
              match ← Executor.recordStepAttempt request status reason outputPreview with
              | .error e => return .error e
              | .ok () => attempts plan step progress remaining (attempt + 1) (some reason)
          | .stop status reason outputPreview runStatus output =>
              match ← Executor.recordStepAttempt request status reason outputPreview with
              | .error e => return .error e
              | .ok () => return .ok (.stopped runStatus output)

/-! ## The steps of a plan -/

def ContinuousTaskPlan.boundedSteps (plan : ContinuousTaskPlan) : Nat :=
  min plan.policy.maxSteps plan.steps.length

def finishRun (plan : ContinuousTaskPlan) (startedAt : Timestamp) (progress : Progress)
    (status : ContinuousTaskStatus) : Executor (Except String ContinuousTaskRun) := do
  let now ← Executor.utcNow
  return .ok {
    taskId := plan.id
    status := status
    completedSteps := progress.checkpoints.length
    totalSteps := plan.steps.length
    startedAt := startedAt
    finishedAt := now
    checkpoints := progress.checkpoints
    outputs := progress.outputs }

def exhaustedStatus (lastError : Option String) : ContinuousTaskStatus :=
  let reason := lastError.getD "step failed without an error message"
  if isRecoverableProviderDisconnect reason then .paused (providerServicePauseReason reason)
  else .failed reason

def requestForCheckpoint (plan : ContinuousTaskPlan) (step : ContinuousTaskStep)
    (previousSummary : Option String) : ContinuousStepRequest where
  taskId := plan.id
  objective := plan.objective
  workerRole := plan.workerRole
  step := step
  previousSummary := previousSummary
  recentCheckpointSummaries := []
  attempt := 0
  previousError := none
  contract := plan.contract

def missingDependency (step : ContinuousTaskStep) (progress : Progress) : Option Nat :=
  step.dependsOn.find? fun dependency =>
    !progress.checkpoints.any fun checkpoint => checkpoint.step == dependency

def isExactRepeat (policy : ContinuousTaskPolicy) (progress : Progress)
    (result : ContinuousStepResult) : Bool :=
  policy.stopOnExactRepeat && progress.previousOutput == some result.output

def Progress.checkpointed (progress : Progress) (step : ContinuousTaskStep)
    (result : ContinuousStepResult) (artifactUri : Option String) (recordedAt : Timestamp) :
    Progress where
  checkpoints := progress.checkpoints ++
    [{ step := step.index, label := step.label, recordedAt := recordedAt,
       summary := result.summary, artifactUri := artifactUri.or result.artifactUri }]
  outputs := progress.outputs ++ [result.output]
  previousSummary := some result.summary
  previousOutput := some result.output

def runSteps (plan : ContinuousTaskPlan) (startedAt : Timestamp) :
    List ContinuousTaskStep → Progress → Executor (Except String ContinuousTaskRun)
  | [], progress =>
      finishRun plan startedAt progress
        (if plan.steps.length > plan.boundedSteps then
          .blocked s!"step budget exhausted: completed {plan.boundedSteps} of {plan.steps.length} planned steps"
        else .completed)
  | step :: rest, progress =>
      match missingDependency step progress with
      | some dependency =>
          finishRun plan startedAt progress
            (.blocked s!"step {step.index} depends on unfinished step {dependency}")
      | none => do
          match ← attempts plan step progress (plan.policy.maxRetriesPerStep + 1) 0 none with
          | .error e => return .error e
          | .ok (.stopped status output) =>
              finishRun plan startedAt
                { progress with outputs := progress.outputs ++ output.toList } status
          | .ok (.exhausted lastError) =>
              finishRun plan startedAt progress (exhaustedStatus lastError)
          | .ok (.accepted result) =>
              if isExactRepeat plan.policy progress result then
                finishRun plan startedAt progress
                  (.blocked s!"exact repeated output at step {step.index}; stopped to avoid a loop")
              else
                match ← Executor.recordStep
                    (requestForCheckpoint plan step progress.previousSummary) result with
                | .error e => return .error e
                | .ok artifactUri =>
                    let recordedAt ← Executor.utcNow
                    runSteps plan startedAt rest
                      (progress.checkpointed step result artifactUri recordedAt)

def runWithCheckpointSink (plan : ContinuousTaskPlan) :
    Executor (Except String ContinuousTaskRun) := do
  let startedAt ← Executor.utcNow
  if plan.boundedSteps = 0 then
    finishRun plan startedAt {} (.blocked "continuous task has no executable steps")
  else
    runSteps plan startedAt (plan.steps.take plan.boundedSteps) {}

end BenShu.Runtime
