import BenShu.Lib.History
import BenShu.Runtime.ExecutorRun
import Mathlib.Data.List.Chain

/-!
# What a returned run promises

The checkpoints of a returned run are the first steps of its plan, and the sink
was asked to record those steps and nothing else. The runner and the sink are
arbitrary.
-/

namespace BenShu.Runtime

open Interaction History

/-! ## Recorded results were just returned by the runner -/

/-- A record request follows at once on a runner call for the same step that
returned the recorded result. -/
def FollowsReturn (before : ExecutorTrace) (e : ExecutorEvent) : Prop :=
  ∀ request result, recordStepCall e = some (request, result) →
    ∃ t₀ e' called, before = t₀ ++ [e'] ∧ returnedResult e' = some (called, result) ∧
      called.step = request.step

theorem FollowsReturn.mono (t₀ before : ExecutorTrace) (e : ExecutorEvent)
    (h : FollowsReturn before e) : FollowsReturn (t₀ ++ before) e := by
  intro request result he
  obtain ⟨t₁, e', called, rfl, hreturned, hstep⟩ := h request result he
  exact ⟨t₀ ++ t₁, e', called, (List.append_assoc ..).symm, hreturned, hstep⟩

theorem preceded_of_noRecord {t : ExecutorTrace} (h : recordStepCalls t = []) :
    Preceded FollowsReturn t := by
  refine .of_forall fun e he before request result hcall => ?_
  rw [List.filterMap_eq_nil_iff.mp h e he] at hcall
  cases hcall

theorem AcceptedAttempts.preceded {plan : ContinuousTaskPlan} {step : ContinuousTaskStep}
    {limit : Nat} {result : ContinuousStepResult} {t : ExecutorTrace} (progress : Progress)
    (accepted : AcceptedAttempts plan step limit result t) (noRecord : recordStepCalls t = [])
    (artifactUri : Option String) (recordedAt : Timestamp) :
    Preceded FollowsReturn (t ++
      [⟨.recordStep (requestForCheckpoint plan step progress.previousSummary) result,
        .ok artifactUri⟩, ⟨.utcNow, recordedAt⟩]) := by
  have hrecord : FollowsReturn t
      ⟨.recordStep (requestForCheckpoint plan step progress.previousSummary) result,
        .ok artifactUri⟩ := by
    intro request r hcall
    cases hcall
    obtain ⟨before, e', called, rfl, hreturned, hfor⟩ := accepted.lastRan
    exact ⟨before, e', called, rfl, hreturned, hfor.step⟩
  have hsnoc := ((preceded_of_noRecord noRecord).snoc hrecord).snoc (x := ⟨.utcNow, recordedAt⟩)
    (by rintro request r ⟨⟩)
  rwa [List.append_assoc] at hsnoc

/-! ## Facts about chains -/

namespace Advances

variable {plan : ContinuousTaskPlan} {steps : List ContinuousTaskStep} {t : ExecutorTrace}
  {progress : Progress}

theorem checkpoints (h : Advances plan steps t progress) :
    progress.checkpoints.map (fun checkpoint => (checkpoint.step, checkpoint.label)) =
      steps.map fun step => (step.index, step.label) := by
  induction h with
  | start => rfl
  | step earlier dependencies accepted noRecord fresh artifactUri recordedAt ih =>
      simp [Progress.checkpointed, ih]

theorem length_checkpoints (h : Advances plan steps t progress) :
    progress.checkpoints.length = steps.length := by
  simpa using congrArg List.length h.checkpoints

theorem recordStepCalls_snoc {t t' : ExecutorTrace} {request : ContinuousStepRequest}
    {result : ContinuousStepResult} {artifactUri : Option String} {recordedAt : Timestamp}
    (noRecord : recordStepCalls t' = []) :
    recordStepCalls (t ++ (t' ++
      [⟨.recordStep request result, .ok artifactUri⟩, ⟨.utcNow, recordedAt⟩])) =
        recordStepCalls t ++ [(request, result)] := by
  rw [recordStepCalls_append, recordStepCalls_append, noRecord]
  rfl

theorem recordedSteps (h : Advances plan steps t progress) :
    (recordStepCalls t).map (·.1.step) = steps := by
  induction h with
  | start => rfl
  | step earlier dependencies accepted noRecord fresh artifactUri recordedAt ih =>
      simp [recordStepCalls_snoc noRecord, ih, requestForCheckpoint]

theorem recordedOutputs (h : Advances plan steps t progress) :
    (recordStepCalls t).map (·.2.output) = progress.outputs := by
  induction h with
  | start => rfl
  | step earlier dependencies accepted noRecord fresh artifactUri recordedAt ih =>
      simp [recordStepCalls_snoc noRecord, ih, Progress.checkpointed]

theorem recordedSummaries (h : Advances plan steps t progress) :
    (recordStepCalls t).map (·.2.summary) = progress.checkpoints.map (·.summary) := by
  induction h with
  | start => rfl
  | step earlier dependencies accepted noRecord fresh artifactUri recordedAt ih =>
      simp [recordStepCalls_snoc noRecord, ih, Progress.checkpointed]

theorem recordedPass (h : Advances plan steps t progress) :
    ∀ record ∈ recordStepCalls t, Passes record.2 := by
  induction h with
  | start => simp [recordStepCalls]
  | step earlier dependencies accepted noRecord fresh artifactUri recordedAt ih =>
      rw [recordStepCalls_snoc noRecord]
      intro record hrecord
      rcases List.mem_append.mp hrecord with hrecord | hrecord
      · exact ih record hrecord
      · rw [List.mem_singleton.mp hrecord]
        exact accepted.passes

theorem recordsReturned (h : Advances plan steps t progress) : Preceded FollowsReturn t := by
  induction h with
  | start => exact .nil
  | step earlier dependencies accepted noRecord fresh artifactUri recordedAt ih =>
      exact ih.append FollowsReturn.mono
        (accepted.preceded _ noRecord artifactUri recordedAt)

theorem previousOutput (h : Advances plan steps t progress) :
    progress.previousOutput = progress.outputs.getLast? := by
  cases h with
  | start => rfl
  | step earlier dependencies accepted noRecord fresh artifactUri recordedAt => simp [Progress.checkpointed]

theorem outputs_chain (h : Advances plan steps t progress)
    (hstop : plan.policy.stopOnExactRepeat = true) :
    progress.outputs.IsChain (· ≠ ·) := by
  induction h with
  | start => exact .nil
  | @step steps t t' progress step result earlier dependencies accepted noRecord fresh
      artifactUri recordedAt ih =>
      refine List.isChain_append.mpr ⟨ih, .singleton _, ?_⟩
      intro x hx y hy heq
      cases hy
      have hlast : progress.previousOutput = some result.output := by
        rw [earlier.previousOutput, ← heq]
        exact hx
      simp [isExactRepeat, hstop, hlast] at fresh

theorem missingDependency_none {step : ContinuousTaskStep} {progress : Progress}
    (h : missingDependency step progress = none) {dependency : Nat}
    (hd : dependency ∈ step.dependsOn) :
    ∃ checkpoint ∈ progress.checkpoints, checkpoint.step = dependency := by
  have hfound := List.find?_eq_none.mp h dependency hd
  simpa using hfound

theorem dependencies (h : Advances plan steps t progress) {i : Nat} {step : ContinuousTaskStep}
    (hi : steps[i]? = some step) {dependency : Nat} (hd : dependency ∈ step.dependsOn) :
    ∃ j < i, (progress.checkpoints[j]?).map (·.step) = some dependency := by
  induction h with
  | start => simp at hi
  | @step steps t t' progress last result earlier dependencies accepted noRecord fresh
      artifactUri recordedAt ih =>
      rcases Nat.lt_or_ge i steps.length with hlt | hge
      · rw [List.getElem?_append_left hlt] at hi
        obtain ⟨j, hj, hstep⟩ := ih hi
        refine ⟨j, hj, ?_⟩
        rw [Progress.checkpointed, List.getElem?_append_left]
        · exact hstep
        · rw [earlier.length_checkpoints]
          omega
      · have hlast : i = steps.length ∧ step = last := by
          rw [List.getElem?_append_right hge, List.getElem?_singleton] at hi
          split at hi
          · exact ⟨by omega, (Option.some.inj hi).symm⟩
          · cases hi
        rcases hlast with ⟨rfl, rfl⟩
        obtain ⟨checkpoint, hmem, hstep⟩ := missingDependency_none dependencies hd
        obtain ⟨j, hj, hget⟩ := List.getElem_of_mem hmem
        refine ⟨j, earlier.length_checkpoints ▸ hj, ?_⟩
        rw [Progress.checkpointed, List.getElem?_append_left hj, List.getElem?_eq_getElem hj, hget,
          Option.map_some, hstep]

end Advances

/-! ## The contract -/

/-- What a returned run says about its plan and about the calls it made. -/
structure RunContract (plan : ContinuousTaskPlan) (t : ExecutorTrace) (run : ContinuousTaskRun) :
    Prop where
  completedSteps_le : run.completedSteps ≤ plan.steps.length
  checkpoints :
    run.checkpoints.map (fun checkpoint => (checkpoint.step, checkpoint.label)) =
      (plan.steps.take run.completedSteps).map fun step => (step.index, step.label)
  dependencies : ∀ (i : Nat) (step : ContinuousTaskStep), i < run.completedSteps →
    plan.steps[i]? = some step → ∀ dependency ∈ step.dependsOn,
      ∃ j < i, (run.checkpoints[j]?).map (·.step) = some dependency
  /-- one record request per checkpoint, in the order of the checkpoints -/
  recordedSteps : (recordStepCalls t).map (·.1.step) = plan.steps.take run.completedSteps
  recordedSummaries :
    (recordStepCalls t).map (·.2.summary) = run.checkpoints.map (·.summary)
  recordedOutputs :
    (recordStepCalls t).map (·.2.output) = run.outputs.take run.completedSteps
  recordedPass : ∀ record ∈ recordStepCalls t, Passes record.2
  recordsReturned : Preceded FollowsReturn t
  noRepeat : plan.policy.stopOnExactRepeat = true →
    ((recordStepCalls t).map (·.2.output)).IsChain (· ≠ ·)
  completed : run.status = .completed →
    run.completedSteps = plan.steps.length ∧ 0 < run.completedSteps ∧
      run.completedSteps ≤ plan.policy.maxSteps

theorem runContract_nothingDone {plan : ContinuousTaskPlan} {t : ExecutorTrace}
    {run : ContinuousTaskRun} (hrecord : recordStepCalls t = []) (hcheckpoints : run.checkpoints = [])
    (hsteps : run.completedSteps = 0) (hstatus : run.status ≠ .completed) :
    RunContract plan t run := by
  constructor <;> simp [hrecord, hcheckpoints, hsteps, hstatus, preceded_of_noRecord]

theorem Finishes.recordStepCalls_append {plan : ContinuousTaskPlan}
    {rest : List ContinuousTaskStep} {progress : Progress} {t tail : ExecutorTrace}
    {run : ContinuousTaskRun} (h : Finishes plan rest progress tail run) :
    recordStepCalls (t ++ tail) = recordStepCalls t := by
  rw [Runtime.recordStepCalls_append, h.noRecord, List.append_nil]

/-- The loop's chain and its ending, read as the contract. -/
theorem Advances.contract {plan : ContinuousTaskPlan} {taken rest : List ContinuousTaskStep}
    {t tail : ExecutorTrace} {progress : Progress} {run : ContinuousTaskRun}
    (h : Advances plan taken t progress) (hsteps : plan.steps.take plan.boundedSteps = taken ++ rest)
    (hbounded : plan.boundedSteps ≠ 0) (hend : Finishes plan rest progress tail run) :
    RunContract plan (t ++ tail) run := by
  have hlength : run.completedSteps = taken.length := by
    rw [hend.completedSteps, h.length_checkpoints]
  have hbound : plan.boundedSteps = taken.length + rest.length := by
    have hcount := congrArg List.length hsteps
    rw [List.length_take, List.length_append, ContinuousTaskPlan.boundedSteps] at hcount
    rw [← hcount, ContinuousTaskPlan.boundedSteps]
    omega
  have htake : plan.steps.take run.completedSteps = taken := by
    have hbegins := congrArg (List.take taken.length) hsteps
    rw [List.take_take, List.take_left, Nat.min_eq_left (by omega)] at hbegins
    rw [hlength, hbegins]
  have hrecords : recordStepCalls (t ++ tail) = recordStepCalls t := hend.recordStepCalls_append
  have hbounds : plan.boundedSteps ≤ plan.steps.length ∧ plan.boundedSteps ≤ plan.policy.maxSteps := by
    rw [ContinuousTaskPlan.boundedSteps]
    omega
  have houtputs : progress.outputs.length = taken.length := by
    rw [← h.recordedOutputs, ← h.recordedSteps, List.length_map, List.length_map]
  constructor
  · omega
  · rw [hend.checkpoints, htake, h.checkpoints]
  · intro i step hi hstep dependency hd
    rw [hend.checkpoints]
    refine h.dependencies ?_ hd
    rw [← htake, List.getElem?_take_of_lt hi, hstep]
  · rw [hrecords, htake, h.recordedSteps]
  · rw [hrecords, hend.checkpoints, h.recordedSummaries]
  · rw [hrecords, h.recordedOutputs, hlength, ← houtputs]
    exact (List.prefix_iff_eq_take.mp hend.outputs)
  · rw [hrecords]
    exact h.recordedPass
  · exact h.recordsReturned.append FollowsReturn.mono (preceded_of_noRecord hend.noRecord)
  · intro hstop
    rw [hrecords, h.recordedOutputs]
    exact h.outputs_chain hstop
  · intro hcompleted
    obtain ⟨rfl, hall, -⟩ := hend.completed hcompleted
    rw [List.length_nil] at hbound
    omega

/-- Every returned run keeps the contract, whatever the runner and the sink do. -/
theorem runWithCheckpointSink_contract {plan : ContinuousTaskPlan} {t : ExecutorTrace}
    {run : ContinuousTaskRun} (h : Runs (runWithCheckpointSink plan) t (.ok run)) :
    RunContract plan t run := by
  rcases h with ⟨startedAt, t, rfl, h⟩
  have hcons : ∀ t, RunContract plan t run → RunContract plan (⟨.utcNow, startedAt⟩ :: t) run := by
    intro t hex
    rcases hex with ⟨h₁, h₂, h₃, h₄, h₅, h₆, h₇, h₈, h₉, h₁₀⟩
    have hnow : Preceded FollowsReturn [⟨.utcNow, startedAt⟩] := preceded_of_noRecord rfl
    exact ⟨h₁, h₂, h₃, h₄, h₅, h₆, h₇,
      hnow.append FollowsReturn.mono h₈, h₉, h₁₀⟩
  refine hcons t ?_
  change Runs (if plan.boundedSteps = 0 then _ else _) t _ at h
  split at h
  · rcases h with ⟨now, rest, rfl, rfl, hrun⟩
    cases hrun
    exact runContract_nothingDone rfl rfl rfl (by intro h; cases h)
  · rename_i hbounded
    obtain ⟨taken, rest, t₁, tail, final, hsteps, rfl, hadvances, hfinishes⟩ :=
      runSteps_run h Advances.start
    exact hadvances.contract hsteps hbounded hfinishes

/-! ## A run with a rejected attempt and a dependency -/

def draftPlan : ContinuousTaskPlan where
  id := "11111111-1111-1111-1111-111111111111"
  objective := "write two chapters"
  workerRole := "writer"
  steps := [{ index := 1, label := "chapter 1" },
    { index := 2, label := "chapter 2", dependsOn := [1] }]

/-- A runner whose first output is blank; the sink accepts everything. The state
counts the runner calls. -/
def draftSurroundings : Handler ExecutorOp ExecutorAns Nat
  | .utcNow, calls => some (0, calls)
  | .elapsed, calls => some (0, calls)
  | .runStep _, calls => some (draftResult calls, calls + 1)
  | .runStepWithin _ _, calls => some (some (draftResult calls), calls + 1)
  | .recordStepAttempt _ _ _ _, calls => some (.ok (), calls)
  | .recordStep _ _, calls => some (.ok none, calls)
where
  draftResult (calls : Nat) : Except StepError ContinuousStepResult :=
    .ok { output := if calls = 0 then " " else s!"text {calls}", summary := "done",
          artifactUri := none }

theorem runWithCheckpointSink_contract_draftPlan :
    ∃ t run calls,
      exec draftSurroundings (runWithCheckpointSink draftPlan) 0 = some (t, .ok run, calls) ∧
        run.status = .completed ∧ RunContract draftPlan t run :=
  ⟨_, _, 3, rfl, rfl, runWithCheckpointSink_contract (exec_runs draftSurroundings 0 rfl)⟩

end BenShu.Runtime
