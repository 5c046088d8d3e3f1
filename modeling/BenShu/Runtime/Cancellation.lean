import BenShu.Lib.History
import BenShu.Lib.Interleaving
import BenShu.Runtime.PersistentSink

/-!
# Cancellation against the sink's saves

Another party cancels the task while the executor runs: it loads the task and
later saves its copy as cancelled. The sink reloads a task, changes it and saves
it in transactions of their own, so what the cancelling party commits in between
is overwritten.
-/

namespace BenShu.Runtime

open Interaction State History

/-! ## The shared task table -/

inductive CancellerAct where
  | load
  | save

/-- The task table and the cancelling party's copy of the task. -/
structure CancelStore (taskId : Uuid) where
  table : TaskTable
  copy : Option TaskState
  copyKeyed : ∀ task, copy = some task → task.id = taskId

abbrev SinkMove := Move TaskSinkOp TaskSinkAns CancellerAct
abbrev SinkLog := List SinkMove

namespace CancelStore

variable {taskId : Uuid}

def loadCopy (store : CancelStore taskId) : CancelStore taskId where
  table := store.table
  copy := store.table.load taskId
  copyKeyed := fun _ h => TaskTable.load_id h

def saveCopy (store : CancelStore taskId) : CancelStore taskId :=
  match store.copy with
  | none => store
  | some task => { store with table := store.table.save { task with status := .cancelled } }

def saveTask (store : CancelStore taskId) (task : TaskState) : CancelStore taskId :=
  { store with table := store.table.save task }

def Cancelled (store : CancelStore taskId) : Prop := store.table.Cancelled taskId

theorem saveCopy_cancelled {store : CancelStore taskId} (h : store.copy.isSome) :
    store.saveCopy.Cancelled := by
  rcases Option.isSome_iff_exists.mp h with ⟨task, htask⟩
  have hsave : store.saveCopy =
      { store with table := store.table.save { task with status := .cancelled } } := by
    unfold saveCopy
    split <;> simp_all
  have hload : (store.table.save { task with status := .cancelled }).load taskId = some _ :=
    TaskTable.load_save (store.copyKeyed task htask)
  rw [hsave, Cancelled, TaskTable.Cancelled, hload]
  rfl

theorem saveTask_cancelled_iff {store : CancelStore taskId} {task : TaskState}
    (hid : task.id = taskId) : (store.saveTask task).Cancelled ↔ task.status = .cancelled := by
  rw [Cancelled, TaskTable.Cancelled, saveTask]
  dsimp only
  rw [TaskTable.load_save hid]
  show _ ↔ task.readBack.status = _
  simp

end CancelStore

/-- A load answers with the stored task; any transaction may fail. -/
def taskStore (taskId : Uuid) :
    SharedStore TaskSinkOp TaskSinkAns CancellerAct (CancelStore taskId) where
  allows store
    | ⟨.loadTask id, .ok stored⟩ => stored = store.table.load id
    | _ => True
  after store
    | .program ⟨.saveTask task, .ok _⟩ => store.saveTask task
    | .program _ => store
    | .other .load => store.loadCopy
    | .other .save => store.saveCopy

/-! ## Every save follows a reload -/

/-- A save of the sink follows on a reload of the task with nothing but clock
readings in between, and keeps a cancelled or paused status. -/
def FollowsReload (taskId : Uuid) (before : Trace TaskSinkOp TaskSinkAns)
    (e : Event TaskSinkOp TaskSinkAns) : Prop :=
  ∀ task, e.op = .saveTask task →
    ∃ t₀ loaded mid, before = t₀ ++ ⟨.loadTask taskId, .ok (some loaded)⟩ :: mid ∧
      (∀ e ∈ mid, e.op = .utcNow) ∧ task.status = savedStatus loaded.status ∧ task.id = loaded.id

theorem FollowsReload.mono (taskId : Uuid) (t₀ before : Trace TaskSinkOp TaskSinkAns)
    (e : Event TaskSinkOp TaskSinkAns) (h : FollowsReload taskId before e) :
    FollowsReload taskId (t₀ ++ before) e := by
  intro task he
  obtain ⟨t₁, loaded, mid, rfl, hmid, hstatus⟩ := h task he
  exact ⟨t₀ ++ t₁, loaded, mid, (List.append_assoc ..).symm, hmid, hstatus⟩

theorem followsReload_append {taskId : Uuid} (t₁ t₂ : Trace TaskSinkOp TaskSinkAns)
    (h₁ : Preceded (FollowsReload taskId) t₁) (h₂ : Preceded (FollowsReload taskId) t₂) :
    Preceded (FollowsReload taskId) (t₁ ++ t₂) :=
  h₁.append (FollowsReload.mono taskId) h₂

abbrev SavesReloaded (taskId : Uuid) {α : Type} (p : TaskSink α) : Prop :=
  Always (Preceded (FollowsReload taskId)) p

theorem SavesReloaded.perform {taskId : Uuid} (o : TaskSinkOp) (ho : ∀ task, o ≠ .saveTask task) :
    SavesReloaded taskId (Prog.perform o) := by
  refine Always.perform .nil o fun answer => .of_forall fun e he before task hop => ?_
  rw [List.mem_singleton.mp he] at hop
  exact absurd hop (ho task)

theorem SavesReloaded.andThen {taskId : Uuid} {α β : Type} {p : TaskSink (Except String α)}
    {f : α → TaskSink (Except String β)} (hp : SavesReloaded taskId p)
    (hf : ∀ a, SavesReloaded taskId (f a)) : SavesReloaded taskId (p.andThen f) :=
  Always.andThen .nil followsReload_append hp hf

theorem SavesReloaded.pure {taskId : Uuid} {α : Type} (value : α) :
    SavesReloaded taskId (Pure.pure value) :=
  Always.pure .nil value

namespace PersistentTaskCheckpointSink

variable {sink : PersistentTaskCheckpointSink}

theorem appendEvents_savesReloaded (events : List RuntimeEventRecord) :
    SavesReloaded sink.taskId (sink.appendEvents events) := by
  induction events with
  | nil => exact .pure _
  | cons event events ih =>
      rw [appendEvents]
      split
      · exact (SavesReloaded.perform (.appendEvent event) (by intro _ h; cases h)).andThen fun _ => ih
      · exact .pure _

theorem awaitUnpaused_savesReloaded (polls : Nat) :
    SavesReloaded sink.taskId (sink.awaitUnpaused polls) := by
  induction polls with
  | zero => exact Always.request .nil fun answer => answer.elim
  | succ polls ih =>
      rw [awaitUnpaused]
      refine (SavesReloaded.perform (.loadTask sink.taskId) (by intro _ h; cases h)).andThen fun stored => ?_
      cases stored with
      | none => exact .pure _
      | some task =>
          dsimp only
          split
          · exact .pure _
          · exact Always.bind followsReload_append (SavesReloaded.perform .sleep (by intro _ h; cases h))
              fun _ => ih
          · exact .pure _

theorem updateTask_savesReloaded {change : TaskState → Timestamp → Timestamp → TaskState}
    (hstatus : ∀ task updatedAt recordedAt,
      (change task updatedAt recordedAt).status = savedStatus task.status)
    (hid : ∀ task updatedAt recordedAt, (change task updatedAt recordedAt).id = task.id) :
    SavesReloaded sink.taskId (sink.updateTask change) := by
  have hquiet : ∀ (e : Event TaskSinkOp TaskSinkAns) (before : Trace TaskSinkOp TaskSinkAns),
      (∀ task, e.op ≠ .saveTask task) → FollowsReload sink.taskId before e :=
    fun e before hop task heq => absurd heq (hop task)
  refine Always.request .nil fun answer t q h => ?_
  rcases answer with e | _ | task
  · cases h
    exact Preceded.nil.snoc (hquiet _ _ (by intro _ h; cases h))
  · cases h
    exact Preceded.nil.snoc (hquiet _ _ (by intro _ h; cases h))
  · have hload : Preceded (FollowsReload sink.taskId)
        [⟨.loadTask sink.taskId, .ok (some task)⟩] :=
      Preceded.nil.snoc (hquiet _ _ (by intro _ h; cases h))
    cases h with
    | refl => exact hload
    | @step _ _ updatedAt t _ h =>
        have hupdated := hload.snoc (x := ⟨.utcNow, updatedAt⟩) (hquiet _ _ (by intro _ h; cases h))
        cases h with
        | refl => exact hupdated
        | @step _ _ recordedAt t _ h =>
            have hrecorded :=
              hupdated.snoc (x := ⟨.utcNow, recordedAt⟩) (hquiet _ _ (by intro _ h; cases h))
            cases h with
            | refl => exact hrecorded
            | @step _ _ answer t _ h =>
                cases h
                refine hrecorded.snoc (x := ⟨.saveTask _, answer⟩) fun saved hsaved => ?_
                cases hsaved
                exact ⟨[], task, [⟨.utcNow, updatedAt⟩, ⟨.utcNow, recordedAt⟩], rfl, by simp,
                  hstatus _ _ _, hid _ _ _⟩

theorem withArtifact_status (request : ContinuousStepRequest) (artifactUri : Option String)
    (task : TaskState) : (withArtifact request artifactUri task).status = task.status ∧
      (withArtifact request artifactUri task).id = task.id := by
  unfold withArtifact
  split
  · exact ⟨rfl, rfl⟩
  · dsimp only
    split <;> exact ⟨rfl, rfl⟩

theorem recordStep_savesReloaded (request : ContinuousStepRequest)
    (result : ContinuousStepResult) :
    SavesReloaded sink.taskId (sink.recordStep request result) := by
  refine (SavesReloaded.perform (.loadTask sink.taskId) (by intro _ h; cases h)).andThen fun stored => ?_
  dsimp only
  split
  · exact .pure _
  · refine (SavesReloaded.perform (.innerRecordStep request result)
      (by intro _ h; cases h)).andThen fun artifactUri => ?_
    refine (appendEvents_savesReloaded _).andThen fun _ => ?_
    refine (updateTask_savesReloaded ?_ ?_).andThen fun _ => .pure _
    · exact fun task _ _ => (withArtifact_status _ _ _).1
    · exact fun task _ _ => (withArtifact_status _ _ _).2

theorem recordStepAttempt_savesReloaded (polls : Nat) (request : ContinuousStepRequest)
    (status reason : String) (outputPreview : Option String) :
    SavesReloaded sink.taskId
      (sink.recordStepAttempt polls request status reason outputPreview) := by
  refine (awaitUnpaused_savesReloaded polls).andThen fun _ => ?_
  exact (appendEvents_savesReloaded _).andThen fun _ =>
    updateTask_savesReloaded (fun _ _ _ => rfl) fun _ _ _ => rfl

theorem runPlan_savesReloaded (polls : Nat) (plan : ContinuousTaskPlan) :
    SavesReloaded sink.taskId (sink.runPlan polls plan) := by
  refine Always.translate .nil followsReload_append (fun o => ?_) _
  cases o with
  | utcNow => exact SavesReloaded.perform .utcNow (by intro _ h; cases h)
  | elapsed => exact SavesReloaded.perform .elapsed (by intro _ h; cases h)
  | runStep request => exact SavesReloaded.perform (.runStep request) (by intro _ h; cases h)
  | runStepWithin budget request =>
      exact SavesReloaded.perform (.runStepWithin budget request) (by intro _ h; cases h)
  | recordStepAttempt request status reason outputPreview =>
      exact recordStepAttempt_savesReloaded polls request status reason outputPreview
  | recordStep request result => exact recordStep_savesReloaded request result

end PersistentTaskCheckpointSink

/-! ## Lost cancellations -/

section

variable {taskId : Uuid}

/-- Whenever the stored task was cancelled at some point, every later save of the
sink leaves it cancelled. -/
def CancellationKept (store : CancelStore taskId) (log : SinkLog) : Prop :=
  ∀ (l₀ l₁ l₂ : SinkLog) (task : TaskState),
    log = l₀ ++ l₁ ++ .program ⟨.saveTask task, .ok ()⟩ :: l₂ →
      ((taskStore taskId).afterAll store l₀).Cancelled →
        ((taskStore taskId).afterAll store
          (l₀ ++ l₁ ++ [.program ⟨.saveTask task, .ok ()⟩])).Cancelled

/-- The sink reloads a task that is not cancelled and saves it, and a cancelling
save is committed between the two. -/
def CancelledDuringUpdate (store : CancelStore taskId) (log : SinkLog) : Prop :=
  ∃ (l₁ l₂ l₃ l₄ : SinkLog) (loaded task : TaskState),
    log = l₁ ++ .program ⟨.loadTask taskId, .ok (some loaded)⟩ ::
        (l₂ ++ .other .save :: (l₃ ++ .program ⟨.saveTask task, .ok ()⟩ :: l₄)) ∧
      loaded.status ≠ .cancelled ∧
      (∀ e ∈ programEvents (l₂ ++ l₃), e.op = .utcNow) ∧
      ((taskStore taskId).afterAll store
        (l₁ ++ .program ⟨.loadTask taskId, .ok (some loaded)⟩ :: l₂)).copy.isSome

theorem savedStatus_cancelled_iff (status : TaskStatus) :
    savedStatus status = .cancelled ↔ status = .cancelled := by
  cases status <;> simp [savedStatus]

theorem cancelled_of_afterAll {store : CancelStore taskId} {log : SinkLog}
    (hquiet : ∀ e ∈ programEvents log, e.op = .utcNow)
    (h : ((taskStore taskId).afterAll store log).Cancelled) (hstart : ¬store.Cancelled) :
    ∃ l₁ l₂, log = l₁ ++ .other .save :: l₂ ∧
      ((taskStore taskId).afterAll store l₁).copy.isSome := by
  induction log generalizing store with
  | nil => exact absurd h hstart
  | cons m log ih =>
      cases m with
      | program e =>
          have hnow : e.op = .utcNow := hquiet e (List.mem_cons_self (l := programEvents log))
          have hafter : (taskStore taskId).after store (.program e) = store := by
            rcases e with ⟨o, answer⟩
            cases hnow
            rfl
          rw [SharedStore.afterAll_cons, hafter] at h
          obtain ⟨l₁, l₂, rfl, hcopy⟩ :=
            ih (fun e he => hquiet e (List.mem_cons_of_mem _ he)) h hstart
          refine ⟨.program e :: l₁, l₂, rfl, ?_⟩
          rwa [SharedStore.afterAll_cons, hafter]
      | other act =>
          cases act with
          | load =>
              obtain ⟨l₁, l₂, rfl, hcopy⟩ := ih hquiet h hstart
              exact ⟨.other .load :: l₁, l₂, rfl, hcopy⟩
          | save =>
              by_cases hcopy : store.copy.isSome
              · exact ⟨[], log, rfl, hcopy⟩
              · have hafter : (taskStore taskId).after store (.other .save) = store := by
                  show store.saveCopy = store
                  unfold CancelStore.saveCopy
                  split <;> simp_all
                rw [SharedStore.afterAll_cons, hafter] at h
                obtain ⟨l₁, l₂, rfl, hcopy'⟩ := ih hquiet h hstart
                refine ⟨.other .save :: l₁, l₂, rfl, ?_⟩
                rwa [SharedStore.afterAll_cons, hafter]

end

section

variable {sink : PersistentTaskCheckpointSink} {polls : Nat} {plan : ContinuousTaskPlan}
  {store : CancelStore sink.taskId} {q : TaskSink (Except String ContinuousTaskRun)}

theorem save_reload {l₁ l₂ : SinkLog} {task : TaskState}
    {answer : TaskSinkAns (.saveTask task)}
    (h : Interleaves (taskStore sink.taskId) (sink.runPlan polls plan) store
      (l₁ ++ .program ⟨.saveTask task, answer⟩ :: l₂) q) :
    ∃ (k k' : SinkLog) (loaded : TaskState),
      l₁ = k ++ .program ⟨.loadTask sink.taskId, .ok (some loaded)⟩ :: k' ∧
      (∀ e ∈ programEvents k', e.op = .utcNow) ∧ task.status = savedStatus loaded.status ∧
      task.id = sink.taskId ∧
      ((taskStore sink.taskId).afterAll store k).table.load sink.taskId = some loaded := by
  have hfollows := sink.runPlan_savesReloaded polls plan _ q h.reaches
  rw [programEvents_append] at hfollows
  obtain ⟨t₀, loaded, mid, hsplit, hmid, hstatus, hid⟩ :=
    hfollows (programEvents l₁) ⟨.saveTask task, answer⟩ (programEvents l₂) rfl task rfl
  obtain ⟨k, k', rfl, rfl, rfl⟩ := programEvents_split hsplit
  rw [List.append_assoc] at h
  have hload : some loaded = _ := h.allowed
  exact ⟨k, k', loaded, rfl, hmid, hstatus, hid.trans (TaskTable.load_id hload.symm), hload.symm⟩

theorem cancelled_step {l₁ l₂ : SinkLog} {m : SinkMove}
    (h : Interleaves (taskStore sink.taskId) (sink.runPlan polls plan) store (l₁ ++ m :: l₂) q)
    (hsafe : ¬CancelledDuringUpdate store (l₁ ++ m :: l₂))
    (hcancelled : ((taskStore sink.taskId).afterAll store l₁).Cancelled) :
    ((taskStore sink.taskId).afterAll store (l₁ ++ [m])).Cancelled := by
  rw [SharedStore.afterAll_append, SharedStore.afterAll_cons, SharedStore.afterAll_nil]
  cases m with
  | other act =>
      cases act with
      | load => exact hcancelled
      | save =>
          by_cases hcopy : ((taskStore sink.taskId).afterAll store l₁).copy.isSome
          · exact CancelStore.saveCopy_cancelled hcopy
          · show (CancelStore.saveCopy _).Cancelled
            unfold CancelStore.saveCopy
            split <;> simp_all
  | program e =>
      rcases e with ⟨o, answer⟩
      cases o with
      | saveTask task =>
          cases answer with
          | error e => exact hcancelled
          | ok u =>
              obtain ⟨k, k', loaded, rfl, hmid, hstatus, hid, hload⟩ := save_reload h
              refine (CancelStore.saveTask_cancelled_iff hid).mpr ?_
              rw [hstatus, savedStatus_cancelled_iff]
              by_contra hloaded
              -- the table changed since the reload, so a cancelling save came in between
              have hstart : ¬((taskStore sink.taskId).afterAll store k).Cancelled := by
                rw [CancelStore.Cancelled, TaskTable.Cancelled, hload]
                simpa using hloaded
              rw [SharedStore.afterAll_append, SharedStore.afterAll_cons] at hcancelled
              obtain ⟨k₂, k₃, rfl, hcopy⟩ := cancelled_of_afterAll hmid hcancelled hstart
              refine hsafe ⟨k, k₂, k₃, l₂, loaded, task, by simp, hloaded, ?_, ?_⟩
              · simpa using hmid
              · rwa [SharedStore.afterAll_append, SharedStore.afterAll_cons]
      | utcNow => exact hcancelled
      | elapsed => exact hcancelled
      | runStep request => exact hcancelled
      | runStepWithin budget request => exact hcancelled
      | loadTask id => exact hcancelled
      | appendEvent event => exact hcancelled
      | innerRecordStep request result => exact hcancelled
      | sleep => exact hcancelled
      | park => exact answer.elim

theorem cancelled_run {l₀ l₁ l₂ : SinkLog}
    (h : Interleaves (taskStore sink.taskId) (sink.runPlan polls plan) store
      (l₀ ++ (l₁ ++ l₂)) q)
    (hsafe : ¬CancelledDuringUpdate store (l₀ ++ (l₁ ++ l₂)))
    (hcancelled : ((taskStore sink.taskId).afterAll store l₀).Cancelled) :
    ((taskStore sink.taskId).afterAll store (l₀ ++ l₁)).Cancelled := by
  induction l₁ generalizing l₀ with
  | nil => rwa [List.append_nil]
  | cons m l₁ ih =>
      have hstep := cancelled_step h hsafe hcancelled
      rw [← List.singleton_append, List.append_assoc, ← List.append_assoc] at h hsafe
      rw [← List.singleton_append, ← List.append_assoc]
      exact ih h hsafe hstep

/-- Over every interleaving, a cancellation is kept exactly when none is committed
between a reload of the sink and its save. -/
theorem cancellationKept_iff {log : SinkLog}
    (h : Interleaves (taskStore sink.taskId) (sink.runPlan polls plan) store log q) :
    CancellationKept store log ↔ ¬CancelledDuringUpdate store log := by
  constructor
  · intro hkept hex
    rcases hex with ⟨l₁, l₂, l₃, l₄, loaded, task, rfl, hloaded, hquiet, hcopy⟩
    have hlog : l₁ ++ .program ⟨.loadTask sink.taskId, .ok (some loaded)⟩ ::
        (l₂ ++ .other .save :: (l₃ ++ .program ⟨.saveTask task, .ok ()⟩ :: l₄)) =
        (l₁ ++ .program ⟨.loadTask sink.taskId, .ok (some loaded)⟩ :: (l₂ ++ [.other .save])) ++
          l₃ ++ .program ⟨.saveTask task, .ok ()⟩ :: l₄ := by simp
    have hcancelled := hkept _ _ _ task hlog (by
      simp only [SharedStore.afterAll_append, SharedStore.afterAll_cons, SharedStore.afterAll_nil]
      simp only [SharedStore.afterAll_append, SharedStore.afterAll_cons] at hcopy
      exact CancelStore.saveCopy_cancelled hcopy)
    rw [hlog] at h
    obtain ⟨k, k', loaded', hsplit, hmid, hstatus, hid, -⟩ := save_reload h
    rw [SharedStore.afterAll_append] at hcancelled
    have hsaved := (CancelStore.saveTask_cancelled_iff hid).mp hcancelled
    rw [hstatus, savedStatus_cancelled_iff] at hsaved
    -- both reloads are the last move of the sink that is not a clock reading
    have hevents := congrArg programEvents hsplit
    have hsame : (⟨.loadTask sink.taskId, .ok (some loaded)⟩ : Event TaskSinkOp TaskSinkAns) =
        ⟨.loadTask sink.taskId, .ok (some loaded')⟩ := by
      simp only [List.append_assoc, List.cons_append, programEvents_append, programEvents_program,
        programEvents_other, List.nil_append] at hevents hquiet
      exact last_unique (p := fun e => e.op = .utcNow) hevents (by intro h; cases h) (by intro h; cases h)
        hquiet hmid
    cases hsame
    exact hloaded hsaved
  · intro hsafe l₀ l₁ l₂ task hlog hcancelled
    have hassoc : log = l₀ ++ ((l₁ ++ [.program ⟨.saveTask task, .ok ()⟩]) ++ l₂) := by
      rw [hlog]
      simp
    rw [hassoc] at h hsafe
    have hrun := cancelled_run h hsafe hcancelled
    rwa [← List.append_assoc] at hrun

end

/-! ## A cancellation between the reload and the save -/

def cancelledPlan : ContinuousTaskPlan where
  id := "11111111-1111-1111-1111-111111111111"
  objective := "one step"
  workerRole := "worker"
  steps := [{ index := 1, label := "write" }]

def cancelledSink : PersistentTaskCheckpointSink where
  taskId := cancelledPlan.id
  hasEventManager := true

def runningStore : CancelStore cancelledSink.taskId where
  table := TaskTable.empty.save { id := cancelledPlan.id, status := .running }
  copy := none
  copyKeyed := by simp

/-- Every transaction succeeds and every runner call is accepted. -/
def serveAll : (o : TaskSinkOp) → CancelStore cancelledSink.taskId → Option (TaskSinkAns o)
  | .utcNow, _ => some (0 : Int)
  | .elapsed, _ => some (0 : Nat)
  | .runStep _, _ => some (.ok ⟨"text", "done", none⟩)
  | .runStepWithin _ _, _ => some (some (.ok ⟨"text", "done", none⟩))
  | .loadTask id, store => some (.ok (store.table.load id))
  | .saveTask _, _ => some (.ok ())
  | .appendEvent _, _ => some (.ok ())
  | .innerRecordStep _ _, _ => some (.ok none)
  | .sleep, _ => some ()
  | .park, _ => none

theorem serveAll_allowed (o : TaskSinkOp) (store : CancelStore cancelledSink.taskId)
    (answer : TaskSinkAns o) (h : serveAll o store = some answer) :
    (taskStore cancelledSink.taskId).allows store ⟨o, answer⟩ := by
  cases o <;> cases h <;> trivial

/-- The party cancels the task after the reload of the first attempt's report. -/
def cancelDuringReport : List (Option CancellerAct) :=
  [none, none, none, none, some .load, some .save, none, none, none]

theorem cancellationKept_iff_cancelledPlan :
    ∃ log q, followSchedule (taskStore cancelledSink.taskId) serveAll
        (cancelledSink.runPlan 1 cancelledPlan) runningStore cancelDuringReport = some (log, q) ∧
      (CancellationKept runningStore log ↔ ¬CancelledDuringUpdate runningStore log) := by
  have hfollow : followSchedule (taskStore cancelledSink.taskId) serveAll
      (cancelledSink.runPlan 1 cancelledPlan) runningStore cancelDuringReport = some (_, _) := rfl
  exact ⟨_, _, hfollow,
    cancellationKept_iff (followSchedule_interleaves serveAll_allowed hfollow)⟩

theorem cancellation_lost :
    ∃ log q, Interleaves (taskStore cancelledSink.taskId) (cancelledSink.runPlan 1 cancelledPlan)
      runningStore log q ∧ ¬CancellationKept runningStore log := by
  have hfollow : followSchedule (taskStore cancelledSink.taskId) serveAll
      (cancelledSink.runPlan 1 cancelledPlan) runningStore cancelDuringReport = some (_, _) := rfl
  refine ⟨_, _, followSchedule_interleaves serveAll_allowed hfollow, fun hkept => ?_⟩
  have hcancelled := hkept [_, _, _, _, .other .load, .other .save] [_, _] [] _ rfl rfl
  exact absurd hcancelled (by intro h; cases h)

end BenShu.Runtime
