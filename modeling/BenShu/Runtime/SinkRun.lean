import BenShu.Runtime.ExecutorRun
import BenShu.Runtime.PersistentSink

/-!
# What a run over the persistent sink leaves behind

A run calls the runner, appends events and records steps. The effects of a sink
request are those of the executor event it answers, so the event log of a run can
be read off its chain of steps.
-/

namespace BenShu.Runtime

open Interaction State

abbrev TaskSinkTrace := Trace TaskSinkOp TaskSinkAns

inductive Effect where
  | called
  | appended (event : RuntimeEventRecord)
  | recorded (artifact : Bool)

def effectOf : Event TaskSinkOp TaskSinkAns → Option Effect
  | ⟨.runStep _, _⟩ => some .called
  | ⟨.runStepWithin _ _, _⟩ => some .called
  | ⟨.appendEvent event, .ok _⟩ => some (.appended event)
  | ⟨.innerRecordStep _ result, .ok uri⟩ => some (.recorded (uri.or result.artifactUri).isSome)
  | _ => none

def effects (s : TaskSinkTrace) : List Effect := s.filterMap effectOf

@[simp] theorem effects_append (s₁ s₂ : TaskSinkTrace) :
    effects (s₁ ++ s₂) = effects s₁ ++ effects s₂ :=
  List.filterMap_append

def Effect.event? : Effect → Option RuntimeEventRecord
  | .appended event => some event
  | _ => none

def eventLog (s : TaskSinkTrace) : List RuntimeEventRecord := (effects s).filterMap Effect.event?

/-! ## The effects of one sink request -/

namespace PersistentTaskCheckpointSink

variable {sink : PersistentTaskCheckpointSink} {s : TaskSinkTrace}

theorem appendEvents_effects {events : List RuntimeEventRecord}
    (hevents : sink.hasEventManager = true) (h : Runs (sink.appendEvents events) s (.ok ())) :
    effects s = events.map .appended := by
  induction events generalizing s with
  | nil =>
      rcases h with ⟨rfl, -⟩
      rfl
  | cons event events ih =>
      rw [appendEvents, if_pos hevents, runs_andThen_ok] at h
      rcases h with ⟨s₁, s₂, u, rfl, happend, hrest⟩
      rw [runs_perform.mp happend, effects_append, ih hrest]
      rfl

theorem updateTask_effects {change : TaskState → Timestamp → Timestamp → TaskState}
    (h : Runs (sink.updateTask change) s (.ok ())) : effects s = [] := by
  rw [updateTask, runs_andThen_ok] at h
  rcases h with ⟨s₁, s₂, stored, rfl, hload, h⟩
  rw [runs_perform.mp hload, effects_append]
  cases stored with
  | none =>
      rcases h with ⟨rfl, -⟩
      rfl
  | some task =>
      rcases h with ⟨updatedAt, s₃, rfl, recordedAt, s₄, rfl, hsave⟩
      rw [runs_perform.mp hsave]
      rfl

theorem awaitUnpaused_effects {polls : Nat} (h : Runs (sink.awaitUnpaused polls) s (.ok ())) :
    effects s = [] := by
  induction polls generalizing s with
  | zero =>
      rcases h with ⟨answer, -⟩
      exact answer.elim
  | succ polls ih =>
      rw [awaitUnpaused, runs_andThen_ok] at h
      rcases h with ⟨s₁, s₂, stored, rfl, hload, h⟩
      rw [runs_perform.mp hload, effects_append]
      cases stored with
      | none =>
          rcases h with ⟨rfl, -⟩
          rfl
      | some task =>
          dsimp only at h
          split at h
          · cases h.2
          · rcases h with ⟨answer, s₃, rfl, h⟩
            show effects s₃ = []
            exact ih h
          · rcases h with ⟨rfl, -⟩
            rfl

theorem recordStepAttempt_effects {polls : Nat} {request : ContinuousStepRequest}
    {status reason : String} {outputPreview : Option String}
    (hevents : sink.hasEventManager = true)
    (h : Runs (sink.recordStepAttempt polls request status reason outputPreview) s (.ok ())) :
    effects s =
      [.appended (stepAttemptEvent request (attemptStatus status) reason outputPreview)] := by
  rw [recordStepAttempt, runs_andThen_ok] at h
  rcases h with ⟨s₁, s₂, u, rfl, hawait, h⟩
  rw [runs_andThen_ok] at h
  rcases h with ⟨s₃, s₄, u, rfl, hevent, h⟩
  rw [effects_append, effects_append, awaitUnpaused_effects hawait,
    appendEvents_effects hevents hevent, updateTask_effects h]
  rfl

theorem recordStep_effects {request : ContinuousStepRequest} {result : ContinuousStepResult}
    {artifactUri : Option String} (hevents : sink.hasEventManager = true)
    (h : Runs (sink.recordStep request result) s (.ok artifactUri)) :
    effects s = .recorded (artifactUri.or result.artifactUri).isSome ::
      (stepCheckpointedEvent request result (artifactUri.or result.artifactUri) ::
        ((artifactUri.or result.artifactUri).map (artifactWrittenEvent request)).toList).map
          .appended := by
  rw [recordStep, runs_andThen_ok] at h
  rcases h with ⟨s₁, s₂, stored, rfl, hload, h⟩
  split at h
  · cases h.2
  · rw [runs_andThen_ok] at h
    rcases h with ⟨s₃, s₄, uri, rfl, hinner, h⟩
    rw [runs_andThen_ok] at h
    rcases h with ⟨s₅, s₆, u, rfl, hevent, h⟩
    rw [runs_andThen_ok] at h
    rcases h with ⟨s₇, s₈, u, rfl, hupdate, rfl, huri⟩
    cases huri
    rw [effects_append, effects_append, effects_append, effects_append, runs_perform.mp hload,
      runs_perform.mp hinner, appendEvents_effects hevents hevent, updateTask_effects hupdate]
    simp [effects, effectOf]

end PersistentTaskCheckpointSink

/-! ## The effects of an executor event -/

def executorEffects : ExecutorEvent → List Effect
  | ⟨.runStep _, _⟩ => [.called]
  | ⟨.runStepWithin _ _, _⟩ => [.called]
  | ⟨.recordStepAttempt request status reason outputPreview, .ok _⟩ =>
      [.appended (stepAttemptEvent request (attemptStatus status) reason outputPreview)]
  | ⟨.recordStep request result, .ok artifactUri⟩ =>
      .recorded (artifactUri.or result.artifactUri).isSome ::
        (stepCheckpointedEvent request result (artifactUri.or result.artifactUri) ::
          ((artifactUri.or result.artifactUri).map (artifactWrittenEvent request)).toList).map
            .appended
  | _ => []

theorem answer_effects {sink : PersistentTaskCheckpointSink} {polls : Nat}
    (hevents : sink.hasEventManager = true) (e : ExecutorEvent) (hok : sinkFailed e = false)
    {s : TaskSinkTrace} (h : Runs (sink.answer polls e.op) s e.answer) :
    effects s = executorEffects e := by
  rcases e with ⟨o, answer⟩
  cases o with
  | utcNow => rw [runs_perform.mp h]; rfl
  | elapsed => rw [runs_perform.mp h]; rfl
  | runStep request => rw [runs_perform.mp h]; rfl
  | runStepWithin budget request => rw [runs_perform.mp h]; rfl
  | recordStepAttempt request status reason outputPreview =>
      cases answer with
      | error e => cases hok
      | ok u => exact sink.recordStepAttempt_effects hevents h
  | recordStep request result =>
      cases answer with
      | error e => cases hok
      | ok artifactUri => exact sink.recordStep_effects hevents h

variable {t : ExecutorTrace}

theorem refines_effects {sink : PersistentTaskCheckpointSink} {polls : Nat}
    (hevents : sink.hasEventManager = true) {s : TaskSinkTrace}
    (h : Refines (sink.answer polls) t s) (hok : ∀ e ∈ t, sinkFailed e = false) :
    effects s = t.flatMap executorEffects := by
  induction h with
  | nil => rfl
  | @cons o answer t s₁ s₂ head tail ih =>
      rw [effects_append, List.flatMap_cons, ih fun e he => hok e (List.mem_cons_of_mem _ he),
        answer_effects hevents ⟨o, answer⟩ (hok _ List.mem_cons_self) head]

/-! ## The effort of each recorded step -/

/-- The runner calls made for a recorded step, and whether it wrote an artifact. -/
structure StepEffort where
  calls : Nat
  wroteArtifact : Bool

/-- Count the runner calls since the last recorded step. -/
def countEffect : List StepEffort × Nat → Effect → List StepEffort × Nat
  | (efforts, calls), .called => (efforts, calls + 1)
  | (efforts, calls), .recorded artifact => (efforts ++ [⟨calls, artifact⟩], 0)
  | counted, .appended _ => counted

def stepEfforts (s : TaskSinkTrace) : List StepEffort := ((effects s).foldl countEffect ([], 0)).1

/-! ## Signatures -/

def stepSignature (topic role : String) (index : Nat) : String :=
  s!"{topic}|{role}||{index}"

theorem signature_stepEvent (topic role : String) (taskId : Option Uuid) (index : Nat)
    (fields : List (String × Json)) :
    RuntimeEventRecord.signature
      { topic := topic, taskId := taskId, actor := some role,
        payload := .object (("step", .number index) :: fields) } =
      stepSignature topic role index := by
  have hstep : Json.asU64 (.number index) = some index := rfl
  simp only [RuntimeEventRecord.signature, Json.get_object_head, Option.bind_some, hstep,
    Option.map_some, Option.getD_some, Option.getD_none, stepSignature]
  show topic ++ "|" ++ role ++ "|" ++ "" ++ "|" ++ toString index =
    topic ++ "|" ++ role ++ "||" ++ toString index
  have hbars : "||" = "|" ++ "" ++ "|" := by decide
  rw [hbars]
  simp only [String.append_assoc]

/-- The signatures a recorded step leaves in the log. -/
def blockSignatures (role : String) (step : ContinuousTaskStep) (effort : StepEffort) :
    List String :=
  List.replicate (2 * effort.calls - 1) (stepSignature "continuous.step.attempt" role step.index) ++
    stepSignature "continuous.step.checkpointed" role step.index ::
      if effort.wroteArtifact then [stepSignature "artifact.written" role step.index] else []

def signatures (l : List Effect) : List String :=
  l.filterMap fun effect => effect.event?.map (·.signature)

@[simp] theorem signatures_append (l₁ l₂ : List Effect) :
    signatures (l₁ ++ l₂) = signatures l₁ ++ signatures l₂ :=
  List.filterMap_append

theorem eventLog_signatures (s : TaskSinkTrace) :
    (eventLog s).map (·.signature) = signatures (effects s) := by
  simp [eventLog, signatures, List.map_filterMap]

theorem recordStep_signatures (request : ContinuousStepRequest) (result : ContinuousStepResult)
    (written : Option String) :
    signatures ((stepCheckpointedEvent request result written ::
      (written.map (artifactWrittenEvent request)).toList).map .appended) =
        stepSignature "continuous.step.checkpointed" request.workerRole request.step.index ::
          if written.isSome then
            [stepSignature "artifact.written" request.workerRole request.step.index]
          else [] := by
  cases written <;>
    simp [signatures, Effect.event?, stepCheckpointedEvent, artifactWrittenEvent,
      signature_stepEvent]

/-- Attempts leave their reports in the log and count as calls. -/
theorem attempts_effects (hrecord : recordStepCalls t = []) (hok : ∀ e ∈ t, sinkFailed e = false)
    (efforts : List StepEffort) (calls : Nat) :
    (t.flatMap executorEffects).foldl countEffect (efforts, calls) =
        (efforts, calls + (runnerRequests t).length) ∧
      signatures (t.flatMap executorEffects) = (attemptRequests t).map fun request =>
        stepSignature "continuous.step.attempt" request.workerRole request.step.index := by
  induction t generalizing calls with
  | nil => exact ⟨rfl, rfl⟩
  | cons e t ih =>
      have hok' : ∀ e ∈ t, sinkFailed e = false := fun e he => hok e (List.mem_cons_of_mem _ he)
      have hfailed := hok e List.mem_cons_self
      have hrecord' : recordStepCalls t = [] := by
        rw [← List.singleton_append, recordStepCalls_append] at hrecord
        exact (List.append_eq_nil_iff.mp hrecord).2
      rcases e with ⟨o, answer⟩
      rw [List.flatMap_cons, List.foldl_append, signatures_append]
      cases o with
      | utcNow => exact ih hrecord' hok' calls
      | elapsed => exact ih hrecord' hok' calls
      | runStep request =>
          obtain ⟨hcount, hsignatures⟩ := ih hrecord' hok' (calls + 1)
          refine ⟨hcount.trans ?_, hsignatures⟩
          rw [Nat.add_assoc, Nat.add_comm 1]
          rfl
      | runStepWithin budget request =>
          obtain ⟨hcount, hsignatures⟩ := ih hrecord' hok' (calls + 1)
          refine ⟨hcount.trans ?_, hsignatures⟩
          rw [Nat.add_assoc, Nat.add_comm 1]
          rfl
      | recordStepAttempt request status reason outputPreview =>
          cases answer with
          | error e => cases hfailed
          | ok u =>
              obtain ⟨hcount, hsignatures⟩ := ih hrecord' hok' calls
              refine ⟨hcount, ?_⟩
              rw [hsignatures]
              exact congrArg (· :: _) (signature_stepEvent _ _ _ _ _)
      | recordStep request result => cases hrecord

/-- The requests with which the loop ends an accepted step. -/
abbrev recordingEvents (plan : ContinuousTaskPlan) (step : ContinuousTaskStep)
    (progress : Progress) (result : ContinuousStepResult) (artifactUri : Option String)
    (recordedAt : Timestamp) : ExecutorTrace :=
  [⟨.recordStep (requestForCheckpoint plan step progress.previousSummary) result,
    .ok artifactUri⟩, ⟨.utcNow, recordedAt⟩]

theorem recordingEvents_effects (plan : ContinuousTaskPlan) (step : ContinuousTaskStep)
    (progress : Progress) (result : ContinuousStepResult) (artifactUri : Option String)
    (recordedAt : Timestamp) :
    (recordingEvents plan step progress result artifactUri recordedAt).flatMap executorEffects =
      executorEffects ⟨.recordStep (requestForCheckpoint plan step progress.previousSummary) result,
        .ok artifactUri⟩ :=
  List.append_nil _

theorem foldl_countEffect_appended (events : List RuntimeEventRecord)
    (counted : List StepEffort × Nat) :
    (events.map Effect.appended).foldl countEffect counted = counted := by
  induction events with
  | nil => rfl
  | cons event events ih => exact ih

variable {plan : ContinuousTaskPlan}

theorem AcceptedAttempts.effects {step : ContinuousTaskStep} {limit : Nat}
    {result : ContinuousStepResult} {progress : Progress} {artifactUri : Option String}
    {recordedAt : Timestamp} (accepted : AcceptedAttempts plan step limit result t)
    (noRecord : recordStepCalls t = []) (efforts : List StepEffort) :
    ∃ effort : StepEffort, 0 < effort.calls ∧
      ((t ++ recordingEvents plan step progress result artifactUri recordedAt).flatMap
        executorEffects).foldl countEffect (efforts, 0) = (efforts ++ [effort], 0) ∧
      signatures ((t ++ recordingEvents plan step progress result artifactUri recordedAt).flatMap
        executorEffects) = blockSignatures plan.workerRole step effort := by
  obtain ⟨hcount, hsignatures⟩ := attempts_effects noRecord accepted.noFailure efforts 0
  refine ⟨⟨(runnerRequests t).length, (artifactUri.or result.artifactUri).isSome⟩,
    accepted.calls_pos, ?_, ?_⟩
  · rw [List.flatMap_append, List.foldl_append, hcount, Nat.zero_add, recordingEvents_effects]
    exact foldl_countEffect_appended _ _
  · have hreports : (attemptRequests t).map (fun request =>
        stepSignature "continuous.step.attempt" request.workerRole request.step.index) =
          List.replicate (2 * (runnerRequests t).length - 1)
            (stepSignature "continuous.step.attempt" plan.workerRole step.index) := by
      refine List.eq_replicate_iff.mpr ⟨?_, ?_⟩
      · have hlength := accepted.reports
        rw [List.length_map]
        omega
      · intro signature hsignature
        rcases List.mem_map.mp hsignature with ⟨request, hrequest, rfl⟩
        have hfor := accepted.attemptsFor request hrequest
        rw [hfor.workerRole, hfor.step]
    rw [List.flatMap_append, signatures_append, hsignatures, hreports, recordingEvents_effects,
      blockSignatures]
    exact congrArg _ (recordStep_signatures _ result (artifactUri.or result.artifactUri))

theorem Advances.effects {steps : List ContinuousTaskStep} {progress : Progress}
    (h : Advances plan steps t progress) :
    ∃ efforts : List StepEffort, efforts.length = steps.length ∧ (∀ e ∈ efforts, 0 < e.calls) ∧
      (t.flatMap executorEffects).foldl countEffect ([], 0) = (efforts, 0) ∧
      signatures (t.flatMap executorEffects) =
        (List.zipWith (blockSignatures plan.workerRole) steps efforts).flatten := by
  induction h with
  | start => exact ⟨[], rfl, by simp, rfl, rfl⟩
  | @step steps t t' progress step result earlier dependencies accepted noRecord fresh
      artifactUri recordedAt ih =>
      rcases ih with ⟨efforts, hlength, hpos, hcount, hsignatures⟩
      obtain ⟨effort, heffort, hcount', hsignatures'⟩ := accepted.effects noRecord efforts
      refine ⟨efforts ++ [effort], by simp [hlength], ?_, ?_, ?_⟩
      · intro e he
        rcases List.mem_append.mp he with he | he
        · exact hpos e he
        · rwa [List.mem_singleton.mp he]
      · rw [List.flatMap_append, List.foldl_append, hcount]
        exact hcount'
      · rw [List.flatMap_append, signatures_append, hsignatures,
          List.zipWith_append hlength.symm, List.flatten_append]
        exact congrArg _ (hsignatures'.trans (List.append_nil _).symm)

theorem Advances.noFailure {steps : List ContinuousTaskStep} {progress : Progress}
    (h : Advances plan steps t progress) : ∀ e ∈ t, sinkFailed e = false := by
  induction h with
  | start => simp
  | step earlier dependencies accepted noRecord fresh artifactUri recordedAt ih =>
      intro e he
      simp only [List.mem_append, List.mem_cons, List.not_mem_nil, or_false] at he
      rcases he with he | he | rfl | rfl
      · exact ih e he
      · exact accepted.noFailure e he
      · rfl
      · rfl

end BenShu.Runtime
