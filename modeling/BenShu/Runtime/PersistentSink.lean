import BenShu.Runtime.ContinuousTask
import BenShu.State.Task

/-!
# The persistent task checkpoint sink

The sink keeps the durable task and the event log up to date. It is a program
over single transactions: the reload of a task and its save are two of them.
Composed with the executor it answers the two sink requests; everything else the
executor asks passes through.
-/

namespace BenShu.Runtime

open Interaction State

inductive TaskSinkOp where
  | utcNow
  | elapsed
  | runStep (request : ContinuousStepRequest)
  | runStepWithin (budget : Duration) (request : ContinuousStepRequest)
  | loadTask (taskId : Uuid)
  | saveTask (task : TaskState)
  | appendEvent (event : RuntimeEventRecord)
  /-- the wrapped sink's own `record_step` -/
  | innerRecordStep (request : ContinuousStepRequest) (result : ContinuousStepResult)
  | sleep
  /-- never answered -/
  | park

abbrev TaskSinkAns : TaskSinkOp → Type
  | .utcNow => Timestamp
  | .elapsed => Duration
  | .runStep _ => Except StepError ContinuousStepResult
  | .runStepWithin _ _ => Option (Except StepError ContinuousStepResult)
  | .loadTask _ => Except String (Option TaskState)
  | .saveTask _ => Except String Unit
  | .appendEvent _ => Except String Unit
  | .innerRecordStep _ _ => Except String (Option String)
  | .sleep => Unit
  | .park => Empty

abbrev TaskSink := Prog TaskSinkOp TaskSinkAns

namespace TaskSink

abbrev utcNow : TaskSink Timestamp := Prog.perform TaskSinkOp.utcNow

abbrev loadTask (taskId : Uuid) : TaskSink (Except String (Option TaskState)) :=
  Prog.perform (TaskSinkOp.loadTask taskId)

abbrev saveTask (task : TaskState) : TaskSink (Except String Unit) :=
  Prog.perform (TaskSinkOp.saveTask task)

abbrev appendEvent (event : RuntimeEventRecord) : TaskSink (Except String Unit) :=
  Prog.perform (TaskSinkOp.appendEvent event)

abbrev innerRecordStep (request : ContinuousStepRequest) (result : ContinuousStepResult) :
    TaskSink (Except String (Option String)) :=
  Prog.perform (TaskSinkOp.innerRecordStep request result)

end TaskSink

structure PersistentTaskCheckpointSink where
  taskId : Uuid
  hasEventManager : Bool

def compactRuntimePreview (value : String) (maxChars : Nat) : String := Text.preview value maxChars

/-- The status the sink saves for a task it reloaded. -/
def savedStatus : TaskStatus → TaskStatus
  | .cancelled => .cancelled
  | .paused since => .paused since
  | _ => .running

def attemptStatus (status : String) : String :=
  if (Text.trim status).isEmpty then "failed" else Text.trim status

/-! ## Events -/

def stepAttemptEvent (request : ContinuousStepRequest) (status reason : String)
    (outputPreview : Option String) : RuntimeEventRecord where
  topic := "continuous.step.attempt"
  taskId := some request.taskId
  actor := some request.workerRole
  payload := .object
    [("step", .number request.step.index),
      ("label", .string request.step.label),
      ("attempt", .number (request.attempt + 1 : Nat)),
      ("status", .string status),
      ("reason", .string reason),
      ("output_chars",
        .ofOption (fun preview => .number (Text.charCount preview)) outputPreview)]

def stepCheckpointedEvent (request : ContinuousStepRequest) (result : ContinuousStepResult)
    (artifactUri : Option String) : RuntimeEventRecord where
  topic := "continuous.step.checkpointed"
  taskId := some request.taskId
  actor := some request.workerRole
  payload := .object
    [("step", .number request.step.index),
      ("label", .string request.step.label),
      ("summary", .string result.summary),
      ("artifact_uri", .ofOption .string artifactUri)]

def artifactWrittenEvent (request : ContinuousStepRequest) (uri : String) :
    RuntimeEventRecord where
  topic := "artifact.written"
  taskId := some request.taskId
  actor := some request.workerRole
  payload := .object [("step", .number request.step.index), ("uri", .string uri)]

/-! ## The sink -/

namespace PersistentTaskCheckpointSink

def appendEvents (sink : PersistentTaskCheckpointSink) :
    List RuntimeEventRecord → TaskSink (Except String Unit)
  | [] => return .ok ()
  | event :: events =>
      if sink.hasEventManager then
        (TaskSink.appendEvent event).andThen fun _ => sink.appendEvents events
      else return .ok ()

/-- Reload the task, change it and save it; an absent task is left absent. -/
def updateTask (sink : PersistentTaskCheckpointSink)
    (change : TaskState → Timestamp → Timestamp → TaskState) : TaskSink (Except String Unit) :=
  (TaskSink.loadTask sink.taskId).andThen fun
    | none => return .ok ()
    | some task => do
        let updatedAt ← TaskSink.utcNow
        let recordedAt ← TaskSink.utcNow
        TaskSink.saveTask (change task updatedAt recordedAt)

def withCheckpoint (request : ContinuousStepRequest) (label summary : String) (task : TaskState)
    (updatedAt recordedAt : Timestamp) : TaskState :=
  { task with
    updatedAt := updatedAt
    status := savedStatus task.status
    currentStep := UInt32.ofNat request.step.index
    checkpoints := task.checkpoints ++
      [{ step := UInt32.ofNat request.step.index, label := label, recordedAt := recordedAt,
         summary := some summary }] }

def withArtifact (request : ContinuousStepRequest) (artifactUri : Option String)
    (task : TaskState) : TaskState :=
  match artifactUri with
  | none => task
  | some uri =>
      let artifactId := s!"continuous:{request.taskId}:{request.step.index}"
      if task.artifacts.any fun artifact => artifact.artifactId == artifactId then task
      else { task with artifacts := task.artifacts ++
              [{ artifactId := artifactId, kind := "continuous_output", uri := uri,
                 mediaType := some "text/plain" }] }

def recordStep (sink : PersistentTaskCheckpointSink) (request : ContinuousStepRequest)
    (result : ContinuousStepResult) : TaskSink (Except String (Option String)) :=
  (TaskSink.loadTask sink.taskId).andThen fun stored =>
    if stored.map (·.status) = some .cancelled then
      return .error "continuous task was cancelled"
    else
      (TaskSink.innerRecordStep request result).andThen fun artifactUri =>
        let written := artifactUri.or result.artifactUri
        (sink.appendEvents (stepCheckpointedEvent request result written ::
          (written.map (artifactWrittenEvent request)).toList)).andThen fun _ =>
          (sink.updateTask fun task updatedAt recordedAt =>
            withArtifact request written
              (withCheckpoint request request.step.label result.summary task updatedAt
                recordedAt)).andThen fun _ =>
            return .ok artifactUri

/-- `loop { load; … }` of `record_step_attempt`. A run polls a paused task
finitely often; the argument is how often. -/
def awaitUnpaused (sink : PersistentTaskCheckpointSink) : Nat → TaskSink (Except String Unit)
  | 0 => .request .park Empty.elim
  | polls + 1 =>
      (TaskSink.loadTask sink.taskId).andThen fun
        | none => return .ok ()
        | some task =>
            match task.status with
            | .cancelled => return .error "continuous task was cancelled"
            | .paused _ => do
                Prog.perform TaskSinkOp.sleep
                sink.awaitUnpaused polls
            | _ => return .ok ()

def recordStepAttempt (sink : PersistentTaskCheckpointSink) (polls : Nat)
    (request : ContinuousStepRequest) (status reason : String) (outputPreview : Option String) :
    TaskSink (Except String Unit) :=
  (sink.awaitUnpaused polls).andThen fun _ =>
    let status := attemptStatus status
    let summary := s!"continuous step {request.step.index} attempt {request.attempt + 1} {status}: {compactRuntimePreview reason 500}"
    (sink.appendEvents [stepAttemptEvent request status reason outputPreview]).andThen fun _ =>
      sink.updateTask (withCheckpoint request
        s!"{request.step.label}:attempt-{request.attempt + 1}-{status}" summary)

/-- How the sink and the surroundings answer the executor. -/
def answer (sink : PersistentTaskCheckpointSink) (polls : Nat) :
    (o : ExecutorOp) → TaskSink (ExecutorAns o)
  | .utcNow => TaskSink.utcNow
  | .elapsed => Prog.perform TaskSinkOp.elapsed
  | .runStep request => Prog.perform (TaskSinkOp.runStep request)
  | .runStepWithin budget request => Prog.perform (TaskSinkOp.runStepWithin budget request)
  | .recordStepAttempt request status reason outputPreview =>
      sink.recordStepAttempt polls request status reason outputPreview
  | .recordStep request result => sink.recordStep request result

def runPlan (sink : PersistentTaskCheckpointSink) (polls : Nat) (plan : ContinuousTaskPlan) :
    TaskSink (Except String ContinuousTaskRun) :=
  (runWithCheckpointSink plan).translate (sink.answer polls)

end PersistentTaskCheckpointSink

end BenShu.Runtime
