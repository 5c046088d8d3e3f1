import BenShu.Runtime.SinkRun
import BenShu.Runtime.CheckpointContract

/-!
# The completion gate

The gate reads a run and its event log. It completes a completed run unless a
required topic is missing or one of the last twelve events has a signature that
occurs four times among them. Every failed attempt is reported twice under one
signature, so the gate depends on how late in the run a step was retried.
-/

namespace BenShu.Runtime

open Interaction State RecentWindow

inductive ContinuousCompletionGateDecision where
  | complete
  | blocked (reason : String)
  deriving DecidableEq

def ContinuousTaskPlan.requiredTopics (plan : ContinuousTaskPlan) : List String :=
  (plan.contract.map (·.requiredEvents)).getD [] ++
    (plan.contract.bind (·.completionEvent)).toList

section

-- the derived debug text of a status
variable (statusText : ContinuousTaskStatus → String)

def continuousCompletionGateDecision (plan : ContinuousTaskPlan) (run : ContinuousTaskRun)
    (events : List RuntimeEventRecord) : ContinuousCompletionGateDecision :=
  if run.status ≠ .completed then
    .blocked s!"continuous task status is {statusText run.status}"
  else
    match missingRequiredTopics events plan.requiredTopics with
    | [] =>
        match repeatedEventSignature events 12 4 with
        | some signature => .blocked s!"repeated runtime event signature detected: {signature}"
        | none => .complete
    | missing =>
        let topics := String.intercalate ", " missing
        .blocked s!"missing required runtime events: {topics}"

variable {statusText}

theorem continuousCompletionGateDecision_eq_complete {plan : ContinuousTaskPlan}
    {run : ContinuousTaskRun} {events : List RuntimeEventRecord} :
    continuousCompletionGateDecision statusText plan run events = .complete ↔
      run.status = .completed ∧
        (∀ topic ∈ plan.requiredTopics, ∃ event ∈ events, event.topic = topic) ∧
        repeatedEventSignature events 12 4 = none := by
  rw [← missingRequiredTopics_eq_nil, continuousCompletionGateDecision]
  split
  · simp_all
  · split
    · split <;> simp_all
    · rename_i hmissing
      refine iff_of_false (by intro h; cases h) fun h => hmissing h.2.1

end

/-! ## Blocks of equal signatures -/

theorem stepSignature_inj {topic topic' role : String} {index index' : Nat}
    (htopic : '|' ∉ topic.toList) (htopic' : '|' ∉ topic'.toList)
    (h : stepSignature topic role index = stepSignature topic' role index') :
    topic = topic' ∧ index = index' := by
  have hchars : topic.toList ++ '|' :: (role.toList ++ "||".toList ++ (toString index).toList) =
      topic'.toList ++ '|' :: (role.toList ++ "||".toList ++ (toString index').toList) := by
    have hlist := congrArg String.toList h
    change (topic ++ "|" ++ role ++ "||" ++ toString index).toList =
      (topic' ++ "|" ++ role ++ "||" ++ toString index').toList at hlist
    simp only [String.toList_append, List.append_assoc] at hlist ⊢
    exact hlist
  obtain ⟨htopics, hrest⟩ := Text.append_cons_inj_of_notMem_left hchars htopic htopic'
  exact ⟨String.toList_injective htopics,
    Text.toString_injective (String.toList_injective (List.append_cancel_left hrest))⟩

def StepEffort.artifacts (effort : StepEffort) : Nat := if effort.wroteArtifact then 1 else 0

/-- The events a run of recorded steps appends: two for each runner call, and one
for each artifact. -/
def eventCount (efforts : List StepEffort) : Nat :=
  (efforts.map fun effort => 2 * effort.calls + effort.artifacts).sum

/-- Each step that needed a third runner call is followed by at least nine events:
its own checkpoint, its artifact and the events of the later steps. -/
def RetriesSettle : List StepEffort → Prop
  | [] => True
  | effort :: later =>
      (3 ≤ effort.calls → 8 ≤ effort.artifacts + eventCount later) ∧ RetriesSettle later

instance : DecidablePred RetriesSettle := fun efforts => by
  induction efforts with
  | nil => exact .isTrue trivial
  | cons effort later ih =>
      unfold RetriesSettle
      exact inferInstance

section

variable {role : String}

theorem mem_blockSignatures {step : ContinuousTaskStep} {effort : StepEffort} {signature : String}
    (h : signature ∈ blockSignatures role step effort) :
    ∃ topic, '|' ∉ topic.toList ∧ signature = stepSignature topic role step.index := by
  rw [blockSignatures, List.mem_append, List.mem_cons] at h
  rcases h with h | rfl | h
  · exact ⟨_, by decide, (List.mem_replicate.mp h).2⟩
  · exact ⟨_, by decide, rfl⟩
  · split at h
    · rw [List.mem_singleton] at h
      exact ⟨_, by decide, h⟩
    · cases h

theorem mem_blocks {steps : List ContinuousTaskStep} {efforts : List StepEffort}
    {signature : String}
    (h : signature ∈ (List.zipWith (blockSignatures role) steps efforts).flatten) :
    ∃ step ∈ steps, ∃ topic, '|' ∉ topic.toList ∧
      signature = stepSignature topic role step.index := by
  rcases List.mem_flatten.mp h with ⟨block, hblock, hsignature⟩
  induction steps generalizing efforts with
  | nil => simp at hblock
  | cons step steps ih =>
      cases efforts with
      | nil => simp at hblock
      | cons effort efforts =>
          rw [List.zipWith_cons_cons, List.mem_cons] at hblock
          rcases hblock with rfl | hblock
          · exact ⟨step, List.mem_cons_self, mem_blockSignatures hsignature⟩
          · obtain ⟨step', hmem, htopic⟩ :=
              ih (List.mem_flatten.mpr ⟨block, hblock, hsignature⟩) hblock
            exact ⟨step', List.mem_cons_of_mem _ hmem, htopic⟩

theorem notMem_blocks {step : ContinuousTaskStep} {steps : List ContinuousTaskStep}
    {efforts : List StepEffort} {topic : String} (htopic : '|' ∉ topic.toList)
    (hdistinct : step.index ∉ steps.map (·.index)) :
    stepSignature topic role step.index ∉
      (List.zipWith (blockSignatures role) steps efforts).flatten := by
  intro h
  obtain ⟨step', hmem, topic', htopic', heq⟩ := mem_blocks h
  obtain ⟨-, hindex⟩ := stepSignature_inj htopic htopic' heq
  exact hdistinct (List.mem_map.mpr ⟨step', hmem, hindex.symm⟩)

theorem length_blockSignatures {step : ContinuousTaskStep} {effort : StepEffort}
    (h : 0 < effort.calls) :
    (blockSignatures role step effort).length = 2 * effort.calls + effort.artifacts := by
  rw [blockSignatures, StepEffort.artifacts, List.length_append, List.length_replicate]
  split <;> simp <;> omega

theorem length_blocks {steps : List ContinuousTaskStep} {efforts : List StepEffort}
    (hlength : efforts.length = steps.length) (hpos : ∀ e ∈ efforts, 0 < e.calls) :
    (List.zipWith (blockSignatures role) steps efforts).flatten.length = eventCount efforts := by
  induction steps generalizing efforts with
  | nil =>
      rw [List.length_eq_zero_iff.mp hlength]
      rfl
  | cons step steps ih =>
      cases efforts with
      | nil => simp at hlength
      | cons effort efforts =>
          rw [List.zipWith_cons_cons, List.flatten_cons, List.length_append,
            length_blockSignatures (hpos _ List.mem_cons_self),
            ih (Nat.succ.inj hlength) fun e he => hpos e (List.mem_cons_of_mem _ he)]
          simp [eventCount]

/-- How often the window shows a step's attempts. -/
theorem count_attempts {step : ContinuousTaskStep} {steps : List ContinuousTaskStep}
    {effort : StepEffort} {efforts : List StepEffort}
    (hdistinct : step.index ∉ steps.map (·.index)) (hlength : efforts.length = steps.length)
    (hpos : ∀ e ∈ efforts, 0 < e.calls) :
    (recent 12 (blockSignatures role step effort ++
      (List.zipWith (blockSignatures role) steps efforts).flatten)).count
        (stepSignature "continuous.step.attempt" role step.index) =
      min (2 * effort.calls - 1) (12 - (1 + effort.artifacts + eventCount efforts)) := by
  rw [blockSignatures, List.append_assoc, count_recent_replicate]
  · rw [List.length_append, length_blocks hlength hpos, List.length_cons, StepEffort.artifacts]
    split <;> simp
  · rw [List.mem_append, List.mem_cons]
    intro hcase
    rcases hcase with (h | h) | h
    · exact absurd (stepSignature_inj (by decide) (by decide) h).1 (by decide)
    · split at h
      · rw [List.mem_singleton] at h
        exact absurd (stepSignature_inj (by decide) (by decide) h).1 (by decide)
      · cases h
    · exact notMem_blocks (by decide) hdistinct h

theorem count_block_of_ne {step : ContinuousTaskStep} {effort : StepEffort} {signature : String}
    (h : signature ≠ stepSignature "continuous.step.attempt" role step.index) :
    (blockSignatures role step effort).count signature ≤ 2 := by
  rw [blockSignatures, List.count_append, List.count_replicate, if_neg (by simpa using h.symm)]
  refine (Nat.zero_add _).trans_le (List.count_le_length.trans ?_)
  split <;> simp

theorem count_blocks_lt_iff {steps : List ContinuousTaskStep} {efforts : List StepEffort}
    (hdistinct : (steps.map (·.index)).Nodup) (hlength : efforts.length = steps.length)
    (hpos : ∀ e ∈ efforts, 0 < e.calls) :
    (∀ signature, (recent 12 (List.zipWith (blockSignatures role) steps efforts).flatten).count
      signature < 4) ↔ RetriesSettle efforts := by
  induction steps generalizing efforts with
  | nil =>
      rw [List.length_eq_zero_iff.mp hlength]
      simp [RetriesSettle, recent]
  | cons step steps ih =>
      cases efforts with
      | nil => simp at hlength
      | cons effort efforts =>
          rcases List.nodup_cons.mp hdistinct with ⟨hstep, hdistinct'⟩
          have hlength' : efforts.length = steps.length := Nat.succ.inj hlength
          have hpos' : ∀ e ∈ efforts, 0 < e.calls := fun e he => hpos e (List.mem_cons_of_mem _ he)
          have hattempts := @count_attempts role step steps effort efforts hstep hlength' hpos'
          rw [List.zipWith_cons_cons, List.flatten_cons, RetriesSettle,
            ← ih hdistinct' hlength' hpos']
          constructor
          · intro h
            refine ⟨fun hcalls => ?_, fun signature => ?_⟩
            · have hfew := h (stepSignature "continuous.step.attempt" role step.index)
              rw [hattempts] at hfew
              omega
            · by_cases hmem :
                  signature ∈ (List.zipWith (blockSignatures role) steps efforts).flatten
              · rw [← count_recent_append_of_notMem]
                · exact h signature
                · intro hblock
                  obtain ⟨topic, htopic, rfl⟩ := mem_blockSignatures hblock
                  exact notMem_blocks htopic hstep hmem
              · rw [count_recent_of_notMem hmem]
                exact Nat.succ_pos _
          · intro hex signature
            rcases hex with ⟨hcalls, hlater⟩
            by_cases hblock : signature ∈ blockSignatures role step effort
            · by_cases hattempt :
                  signature = stepSignature "continuous.step.attempt" role step.index
              · rw [hattempt, hattempts]
                omega
              · obtain ⟨topic, htopic, rfl⟩ := mem_blockSignatures hblock
                refine ((count_recent_le _ _ _).trans ?_).trans_lt (by omega : 2 < 4)
                rw [List.count_append, List.count_eq_zero.mpr (notMem_blocks htopic hstep)]
                exact count_block_of_ne hattempt
            · rw [count_recent_append_of_notMem hblock]
              exact hlater signature

end

/-! ## The gate on a completed run -/

theorem Advances.events_task {plan : ContinuousTaskPlan} {steps : List ContinuousTaskStep}
    {t : ExecutorTrace} {progress : Progress} (h : Advances plan steps t progress) :
    ∀ effect ∈ t.flatMap executorEffects, ∀ event, effect.event? = some event →
      event.taskId = some plan.id := by
  induction h with
  | start => simp
  | @step steps t t' progress step result earlier dependencies accepted noRecord fresh
      artifactUri recordedAt ih =>
      intro effect heffect event hevent
      rw [List.flatMap_append, List.mem_append] at heffect
      rcases heffect with heffect | heffect
      · exact ih effect heffect event hevent
      · rcases List.mem_flatMap.mp heffect with ⟨e, he, heffect⟩
        rcases List.mem_append.mp he with he | he
        · rcases e with ⟨o, answer⟩
          cases o with
          | utcNow => cases heffect
          | elapsed => cases heffect
          | runStep request =>
              rw [List.mem_singleton.mp heffect] at hevent
              cases hevent
          | runStepWithin budget request =>
              rw [List.mem_singleton.mp heffect] at hevent
              cases hevent
          | recordStepAttempt request status reason outputPreview =>
              cases answer with
              | error e => cases heffect
              | ok u =>
                  rw [List.mem_singleton.mp heffect] at hevent
                  cases hevent
                  have hrequest : request ∈ attemptRequests t' :=
                    List.mem_filterMap.mpr ⟨_, he, rfl⟩
                  exact congrArg some (accepted.attemptsFor request hrequest).taskId
          | recordStep request result =>
              have hrecorded := List.filterMap_eq_nil_iff.mp noRecord _ he
              cases hrecorded
        · rw [List.mem_cons, List.mem_singleton] at he
          rcases he with rfl | rfl
          · rcases List.mem_cons.mp heffect with rfl | heffect
            · cases hevent
            · rcases List.mem_map.mp heffect with ⟨event', hmem, rfl⟩
              cases hevent
              rcases List.mem_cons.mp hmem with rfl | hmem
              · rfl
              · cases hwritten : artifactUri.or result.artifactUri with
                | none => simp [hwritten] at hmem
                | some uri =>
                    rw [hwritten] at hmem
                    rw [List.mem_singleton.mp hmem]
                    rfl
          · cases heffect

theorem runPlan_completed {sink : PersistentTaskCheckpointSink} {polls : Nat}
    {plan : ContinuousTaskPlan} {s : TaskSinkTrace} {run : ContinuousTaskRun}
    (hevents : sink.hasEventManager = true) (h : Runs (sink.runPlan polls plan) s (.ok run))
    (hcompleted : run.status = .completed) :
    (stepEfforts s).length = plan.steps.length ∧ (∀ e ∈ stepEfforts s, 0 < e.calls) ∧
      (eventLog s).map (·.signature) =
        (List.zipWith (blockSignatures plan.workerRole) plan.steps (stepEfforts s)).flatten ∧
      ∀ event ∈ eventLog s, event.taskId = some plan.id := by
  obtain ⟨t, hrun, hrefines⟩ := runs_translate h
  rcases hrun with ⟨startedAt, t, rfl, hrun⟩
  change Runs (if plan.boundedSteps = 0 then _ else _) t _ at hrun
  split at hrun
  · rcases hrun with ⟨now, rest, rfl, rfl, hrun⟩
    cases hrun
    cases hcompleted
  · obtain ⟨taken, rest, t₁, tail, final, hsteps, rfl, hadvances, hfinishes⟩ :=
      runSteps_run hrun Advances.start
    obtain ⟨rfl, hbounded, now, rfl⟩ := hfinishes.completed hcompleted
    have htaken : taken = plan.steps := by
      rw [List.append_nil, List.take_of_length_le hbounded] at hsteps
      exact hsteps.symm
    rw [List.nil_append, List.nil_append, htaken] at hadvances
    have heffects : effects s = t₁.flatMap executorEffects := by
      have hok : ∀ e ∈ (⟨.utcNow, startedAt⟩ :: (t₁ ++ [⟨.utcNow, now⟩]) : ExecutorTrace),
          sinkFailed e = false := by
        simp only [List.mem_cons, List.mem_append, List.not_mem_nil, or_false]
        intro e hcase
        rcases hcase with rfl | he | rfl
        · rfl
        · exact hadvances.noFailure e he
        · rfl
      rw [refines_effects hevents hrefines hok, List.flatMap_cons, List.flatMap_append]
      exact List.append_nil _
    obtain ⟨efforts, hlength, hpos, hcount, hsignatures⟩ := hadvances.effects
    have hefforts : stepEfforts s = efforts := by
      rw [stepEfforts, heffects, hcount]
    rw [hefforts, eventLog_signatures, heffects]
    refine ⟨hlength, hpos, hsignatures, fun event hevent => ?_⟩
    rw [eventLog, heffects] at hevent
    rcases List.mem_filterMap.mp hevent with ⟨effect, heffect, hsome⟩
    exact hadvances.events_task effect heffect event hsome

/-- A completed run passes the gate exactly when its retries settle. -/
theorem completionGate_complete_iff {statusText : ContinuousTaskStatus → String}
    {sink : PersistentTaskCheckpointSink} {polls : Nat} {plan : ContinuousTaskPlan}
    {prior : List RuntimeEventRecord} {s : TaskSinkTrace} {run : ContinuousTaskRun}
    (hevents : sink.hasEventManager = true) (hdistinct : (plan.steps.map (·.index)).Nodup)
    (hfresh : listByTask prior plan.id = [])
    (h : Runs (sink.runPlan polls plan) s (.ok run)) (hcompleted : run.status = .completed)
    (htopics : ∀ topic ∈ plan.requiredTopics, ∃ event ∈ eventLog s, event.topic = topic) :
    continuousCompletionGateDecision statusText plan run
        (listByTask (prior ++ eventLog s) plan.id) = .complete ↔
      RetriesSettle (stepEfforts s) := by
  obtain ⟨hlength, hpos, hsignatures, htask⟩ := runPlan_completed hevents h hcompleted
  have hlist : listByTask (prior ++ eventLog s) plan.id = eventLog s := by
    have hall : listByTask (eventLog s) plan.id = eventLog s :=
      List.filter_eq_self.mpr fun event hevent => by simp [htask event hevent]
    rw [listByTask, List.filter_append, ← listByTask, ← listByTask, hfresh, hall,
      List.nil_append]
  rw [hlist, continuousCompletionGateDecision_eq_complete,
    repeatedEventSignature_eq_none (by decide), hsignatures,
    count_blocks_lt_iff hdistinct hlength hpos]
  exact ⟨fun hgate => hgate.2.2, fun hsettle => ⟨hcompleted, htopics, hsettle⟩⟩

/-! ## A step that needed its retries -/

def eventedPlan : ContinuousTaskPlan where
  id := "11111111-1111-1111-1111-111111111111"
  objective := "evented task"
  workerRole := "worker"
  steps := [{ index := 1, label := "write" }]
  policy := { maxRetriesPerStep := 2 }
  contract := some { requiredEvents := ["continuous.step.checkpointed"] }

def eventedSink : PersistentTaskCheckpointSink where
  taskId := eventedPlan.id
  hasEventManager := true

/-- The first runner calls give blank output, the next one text. The task table is
empty, and every other request succeeds. The state counts the blank outputs left. -/
def flakySurroundings : Handler TaskSinkOp TaskSinkAns Nat
  | .utcNow, blanks => some (0, blanks)
  | .elapsed, blanks => some (0, blanks)
  | .runStep _, blanks => some (flakyResult blanks, blanks - 1)
  | .runStepWithin _ _, blanks => some (some (flakyResult blanks), blanks - 1)
  | .loadTask _, blanks => some (.ok none, blanks)
  | .saveTask _, blanks => some (.ok (), blanks)
  | .appendEvent _, blanks => some (.ok (), blanks)
  | .innerRecordStep _ _, blanks => some (.ok none, blanks)
  | .sleep, blanks => some ((), blanks)
  | .park, _ => none
where
  flakyResult (blanks : Nat) : Except StepError ContinuousStepResult :=
    .ok { output := if blanks = 0 then "text" else " ", summary := "done", artifactUri := none }

theorem completionGate_complete_iff_eventedPlan :
    ∃ s run, exec flakySurroundings (eventedSink.runPlan 1 eventedPlan) 1 = some (s, .ok run, 0) ∧
      (continuousCompletionGateDecision (fun _ => "") eventedPlan run
          (listByTask ([] ++ eventLog s) eventedPlan.id) = .complete ↔
        RetriesSettle (stepEfforts s)) := by
  have hexec : exec flakySurroundings (eventedSink.runPlan 1 eventedPlan) 1 =
    some (_, .ok _, 0) := rfl
  exact ⟨_, _, hexec, completionGate_complete_iff (by rfl) (by decide) rfl (exec_runs _ _ hexec) rfl
    (by decide)⟩

/-- Two rejected attempts within the retry bound, then an accepted one: the run
completes and the gate takes its reports for an event loop. -/
theorem completionGate_blocks_retried_step :
    ∃ s run, Runs (eventedSink.runPlan 1 eventedPlan) s (.ok run) ∧ run.status = .completed ∧
      (eventedPlan.steps.map (·.index)).Nodup ∧
      (∀ topic ∈ eventedPlan.requiredTopics, ∃ event ∈ eventLog s, event.topic = topic) ∧
      ∀ statusText, continuousCompletionGateDecision statusText eventedPlan run
          (listByTask (eventLog s) eventedPlan.id) =
        .blocked
          "repeated runtime event signature detected: continuous.step.attempt|worker||1" := by
  have hexec : exec flakySurroundings (eventedSink.runPlan 1 eventedPlan) 2 =
    some (_, .ok _, 0) := rfl
  exact ⟨_, _, exec_runs _ _ hexec, rfl, by decide, by decide, fun _ => rfl⟩

end BenShu.Runtime
