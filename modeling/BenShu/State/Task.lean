import BenShu.Lib.Table
import BenShu.State.RuntimeEvent
import Mathlib.Logic.Function.Basic

/-!
# Durable tasks

The task table maps each identifier to the task that carries it. `load` and
`save` are one transaction each.
-/

namespace BenShu.State

inductive TaskStatus where
  | pending
  | queued
  | running
  | completed
  | failed (error : String)
  | cancelled
  | paused (since : Int)
  | awaitingApproval (approvalKind summary : String)
  | blocked (reason : String)
  | deferred (until_ : Int) (reason : Option String)
  deriving DecidableEq

structure TaskArtifactRef where
  artifactId : String
  kind : String
  uri : String
  mediaType : Option String

structure TaskCheckpoint where
  step : UInt32
  label : String
  recordedAt : Int
  summary : Option String

inductive TaskVerificationVerdict where
  | pass
  | fail
  | skip
  | uncertain
  | pendingReview
  deriving DecidableEq

structure TaskVerification where
  verdict : TaskVerificationVerdict
  missingEvents : List String := []
  evidenceEventIds : List Uuid := []
  warnings : List String := []
  summary : Option String := none

structure TaskState where
  id : Uuid
  status : TaskStatus := .pending
  updatedAt : Int := 0
  result : Option Json := none
  currentStep : UInt32 := 0
  verification : Option TaskVerification := none
  evidence : Table String Json := ∅
  artifacts : List TaskArtifactRef := []
  checkpoints : List TaskCheckpoint := []

def TaskState.readBack (task : TaskState) : TaskState :=
  { task with result := task.result.filter fun value => !value.isNull }

/-- Rows are keyed by the identifier of their task, as every save writes them. -/
structure TaskTable where
  rows : Uuid → Option TaskState
  keyed : ∀ id task, rows id = some task → task.id = id

namespace TaskTable

def empty : TaskTable where
  rows := fun _ => none
  keyed := by simp

def load (table : TaskTable) (taskId : Uuid) : Option TaskState := table.rows taskId

def save (table : TaskTable) (task : TaskState) : TaskTable where
  rows := Function.update table.rows task.id (some task.readBack)
  keyed := by
    intro id stored h
    by_cases hid : id = task.id
    · subst hid
      rw [Function.update_self] at h
      cases h
      rfl
    · rw [Function.update_of_ne hid] at h
      exact table.keyed id stored h

theorem load_id {table : TaskTable} {taskId : Uuid} {task : TaskState}
    (h : table.load taskId = some task) : task.id = taskId :=
  table.keyed taskId task h

theorem load_save {table : TaskTable} {task : TaskState} {taskId : Uuid} (h : task.id = taskId) :
    (table.save task).load taskId = some task.readBack := by
  subst h
  simp [load, save]

end TaskTable

def TaskTable.Cancelled (table : TaskTable) (taskId : Uuid) : Prop :=
  (table.load taskId).map (·.status) = some .cancelled

end BenShu.State
