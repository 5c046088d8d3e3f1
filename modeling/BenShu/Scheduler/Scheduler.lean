import BenShu.Lib.Threads
import BenShu.Protocol.AgentSession
import BenShu.State.RuntimeEvent

/-!
# Jobs

A job has a schedule and a payload. A table keeps each job under its own identifier.
-/

namespace BenShu.Scheduler

open Protocol (DateTime)

inductive SchedulerError where
  | internal (text : String)
  | execution (text : String)
  | handlerDropped
  deriving DecidableEq

inductive AgentRole where
  | researcher
  | trader
  | riskAnalyst
  | strategist
  | custom (name : String)
  deriving DecidableEq

inductive JobSchedule where
  | atTime (time : DateTime)
  | every (intervalSecs : UInt64)
  | cron (expr : String)
  deriving DecidableEq

inductive JobPayload where
  | agentTurn (role : AgentRole) (prompt : String)
  | summarizeDoc (collection path content : String)
  | distillLogs (limit : Nat)
  | consolidateMemory (limit : Nat) (agentId globalContext : Option String)
  deriving DecidableEq

structure CronJob where
  id : Uuid
  name : String
  schedule : JobSchedule
  payload : JobPayload
  enabled : Bool := true
  lastRunAt : Option DateTime := none
  errorCount : UInt32 := 0
  maxRetries : UInt32 := 3
  deriving DecidableEq

def JobSchedule.stored : JobSchedule → JobSchedule
  | .atTime time => .atTime (time / 1000000000 * 1000000000)
  | schedule => schedule

def CronJob.stored (job : CronJob) : CronJob := { job with schedule := job.schedule.stored }

/-! ## Tables -/

abbrev JobOf (id : Uuid) := { job : CronJob // job.id = id }

abbrev JobTable := AList JobOf

def JobTable.put (jobs : JobTable) (job : CronJob) : JobTable := jobs.insert job.id ⟨job, rfl⟩

theorem JobTable.mem_put_iff {jobs : JobTable} {job : CronJob} {id : Uuid} :
    id ∈ jobs.put job ↔ id = job.id ∨ id ∈ jobs := AList.mem_insert jobs

/-! ## Jobs of the runtime -/

/-- When the runtime fires a job. A one-shot job waits from the time it was made. -/
inductive Trigger where
  | oneShot (made : DateTime) (duration : Int)
  | repeated (intervalSecs : UInt64)
  | cron (expr : String)
  deriving DecidableEq

structure RuntimeJob where
  trigger : Trigger
  name : String
  payload : JobPayload
  deriving DecidableEq

end BenShu.Scheduler

/-!
# The scheduler

The scheduler keeps its jobs in a map, in a store and in a runtime that fires them. Its
operations are programs over lock sections and calls; an entry of the map that is being
changed blocks the entries of its shard.
-/

namespace BenShu.Scheduler

open Interaction
open Protocol (DateTime)

/-! ## Requests -/

/-- What became of a call of the handler. -/
inductive HandlerReply where
  | dropped
  | timeout
  | replied (result : Except SchedulerError (Option String))

def HandlerReply.result : HandlerReply → Except SchedulerError Unit
  | .dropped => .error .handlerDropped
  | .timeout => .error (.execution "Timeout")
  | .replied result => result.map fun _ => ()

inductive SchedulerOp where
  | handle (name : String) (payload : JobPayload)
  | utcNow
  | newUuid
  | createJob (job : RuntimeJob)
  | lockScheduler
  | unlockScheduler
  | addRuntime (job : RuntimeJob)
  | removeRuntime (id : Uuid)
  | borrowJob (id : Uuid)
  | releaseJob (job : CronJob)
  | insertJob (job : CronJob)
  | takeJob (id : Uuid)
  | saveJob (job : CronJob)
  | forgetJob (id : Uuid)
  | loadAllJobs

abbrev SchedulerAns : SchedulerOp → Type
  | .handle _ _ => HandlerReply
  | .utcNow => DateTime
  | .newUuid => Uuid
  | .createJob _ => Except String Unit
  | .lockScheduler | .unlockScheduler => Unit
  | .addRuntime _ => Except String Uuid
  | .removeRuntime _ => Except String Unit
  | .borrowJob id => Option (JobOf id)
  | .releaseJob _ | .insertJob _ => Unit
  | .takeJob _ => Bool
  | .saveJob _ | .forgetJob _ => Except SchedulerError Unit
  | .loadAllJobs => Except SchedulerError (List CronJob)

abbrev SchedulerProg := Prog SchedulerOp SchedulerAns

/-! ## What requests act on -/

/-- `issued` are the identifiers handed out so far, `borrowed` those of the entries being
changed. -/
structure SchedulerState where
  jobs : JobTable := ∅
  store : JobTable := ∅
  registrations : Table Uuid RuntimeJob := ∅
  issued : List Uuid := []
  locked : Bool := false
  borrowed : List Uuid := []

namespace SchedulerState

def ShardFree (shard : Uuid → Nat) (s : SchedulerState) (id : Uuid) : Prop :=
  ∀ other ∈ s.borrowed, shard other ≠ shard id

instance (shard : Uuid → Nat) (s : SchedulerState) (id : Uuid) : Decidable (s.ShardFree shard id) :=
  inferInstanceAs (Decidable (∀ other ∈ s.borrowed, shard other ≠ shard id))

/-- Identifiers are fresh, locks exclude each other; any call may fail. -/
def allows (shard : Uuid → Nat) (s : SchedulerState) : Event SchedulerOp SchedulerAns → Prop
  | ⟨.newUuid, id⟩ => id ∉ s.issued
  | ⟨.addRuntime _, .ok id⟩ => id ∉ s.issued
  | ⟨.lockScheduler, _⟩ => s.locked = false
  | ⟨.borrowJob id, found⟩ => found = s.jobs.lookup id ∧ s.ShardFree shard id
  | ⟨.insertJob job, _⟩ => s.ShardFree shard job.id
  | ⟨.takeJob id, found⟩ => found = decide (id ∈ s.jobs) ∧ s.ShardFree shard id
  | ⟨.loadAllJobs, .ok jobs⟩ => jobs.Perm (s.store.entries.map fun entry => entry.2.1)
  | _ => True

def after (s : SchedulerState) : Event SchedulerOp SchedulerAns → SchedulerState
  | ⟨.newUuid, id⟩ => { s with issued := id :: s.issued }
  | ⟨.addRuntime job, .ok id⟩ =>
      { s with registrations := s.registrations.insert id job, issued := id :: s.issued }
  | ⟨.removeRuntime id, .ok _⟩ => { s with registrations := s.registrations.erase id }
  | ⟨.lockScheduler, _⟩ => { s with locked := true }
  | ⟨.unlockScheduler, _⟩ => { s with locked := false }
  | ⟨.borrowJob id, some _⟩ => { s with borrowed := id :: s.borrowed }
  | ⟨.releaseJob job, _⟩ =>
      { s with jobs := s.jobs.put job, borrowed := s.borrowed.erase job.id }
  | ⟨.insertJob job, _⟩ => { s with jobs := s.jobs.put job }
  | ⟨.takeJob id, _⟩ => { s with jobs := s.jobs.erase id }
  | ⟨.saveJob job, .ok _⟩ => { s with store := s.store.put job.stored }
  | ⟨.forgetJob id, .ok _⟩ => { s with store := s.store.erase id }
  | _ => s

end SchedulerState

def schedulerResource (shard : Uuid → Nat) : Resource SchedulerOp SchedulerAns SchedulerState where
  allows := SchedulerState.allows shard
  after := SchedulerState.after

/-! ## Operations -/

section Requests

def handle (name : String) (payload : JobPayload) : SchedulerProg HandlerReply :=
  .request (.handle name payload) .pure

def utcNow : SchedulerProg DateTime := .request .utcNow .pure

def newUuid : SchedulerProg Uuid := .request .newUuid .pure

def createJob (job : RuntimeJob) : SchedulerProg (Except String Unit) :=
  .request (.createJob job) .pure

def lockScheduler : SchedulerProg Unit := .request .lockScheduler .pure

def unlockScheduler : SchedulerProg Unit := .request .unlockScheduler .pure

def addRuntime (job : RuntimeJob) : SchedulerProg (Except String Uuid) :=
  .request (.addRuntime job) .pure

def removeRuntime (id : Uuid) : SchedulerProg (Except String Unit) :=
  .request (.removeRuntime id) .pure

def borrowJob (id : Uuid) : SchedulerProg (Option (JobOf id)) := .request (.borrowJob id) .pure

def releaseJob (job : CronJob) : SchedulerProg Unit := .request (.releaseJob job) .pure

def insertJob (job : CronJob) : SchedulerProg Unit := .request (.insertJob job) .pure

def takeJob (id : Uuid) : SchedulerProg Bool := .request (.takeJob id) .pure

def loadAllJobs : SchedulerProg (Except SchedulerError (List CronJob)) :=
  .request .loadAllJobs .pure

variable (hasStore : Bool)

def saveJob (job : CronJob) : SchedulerProg (Except SchedulerError Unit) :=
  if hasStore then .request (.saveJob job) .pure else return .ok ()

def forgetJob (id : Uuid) : SchedulerProg (Except SchedulerError Unit) :=
  if hasStore then .request (.forgetJob id) .pure else return .ok ()

end Requests

section Operations

def executePayload (name : String) (payload : JobPayload) :
    SchedulerProg (Except SchedulerError Unit) := do
  let reply ← handle name payload
  return reply.result

/-- The trigger for a schedule, with the text for a failure. A time that has come has none. -/
def triggerOf : JobSchedule → SchedulerProg (Option (Trigger × String))
  | .atTime time => do
      let now ← utcNow
      if time ≤ now then return none
      else return some (.oneShot now (time - now), "one-shot")
  | .every intervalSecs => return some (.repeated intervalSecs, "repeated")
  | .cron expr => return some (.cron expr, "cron")

variable (hasStore : Bool)

/-- The job is no longer kept under its old identifier. -/
def leaveOriginal (idOriginal registeredId : Uuid) : SchedulerProg Unit :=
  if registeredId ≠ idOriginal then do
    let _ ← takeJob idOriginal
    let _ ← forgetJob hasStore idOriginal
  else return ()

/-- The part of a registration under the lock of the scheduler. -/
def enterJob (cronJob : CronJob) (job : RuntimeJob) : SchedulerProg (Except SchedulerError Uuid) := do
  match ← addRuntime job with
  | .error e => return .error (.internal s!"Failed to add job: {e}")
  | .ok registeredId =>
      let idOriginal := cronJob.id
      let cronJob := { cronJob with id := registeredId }
      insertJob cronJob
      leaveOriginal hasStore idOriginal registeredId
      match ← saveJob hasStore cronJob with
      | .error e => return .error e
      | .ok () => return .ok registeredId

def registerJobRuntime (cronJob : CronJob) : SchedulerProg (Except SchedulerError Uuid) := do
  match ← triggerOf cronJob.schedule with
  | none => return .ok cronJob.id
  | some (trigger, kind) =>
      let job : RuntimeJob := { trigger := trigger, name := cronJob.name, payload := cronJob.payload }
      match ← createJob job with
      | .error e => return .error (.internal s!"Failed to create {kind} job: {e}")
      | .ok () =>
          lockScheduler
          let result ← enterJob hasStore cronJob job
          unlockScheduler
          return result

def addJob (name : String) (schedule : JobSchedule) (payload : JobPayload) :
    SchedulerProg (Except SchedulerError Uuid) := do
  let id ← newUuid
  registerJobRuntime hasStore { id := id, name := name, schedule := schedule, payload := payload }

def triggerConsolidation (agentId : Option String) (limit : Nat) :
    SchedulerProg (Except SchedulerError Uuid) := do
  let now ← utcNow
  addJob hasStore "manual_consolidation" (.atTime now) (.consolidateMemory limit agentId none)

/-- Register jobs in order, up to the first failure. -/
def registerAll : List CronJob → SchedulerProg (Except SchedulerError Unit)
  | [] => return .ok ()
  | cronJob :: rest => do
      match ← registerJobRuntime hasStore cronJob with
      | .error e => return .error e
      | .ok _ => registerAll rest

def loadJobs : SchedulerProg (Except SchedulerError Unit) :=
  if hasStore then do
    match ← loadAllJobs with
    | .error e => return .error e
    | .ok jobs => registerAll hasStore jobs
  else return .ok ()

/-- The record of a run, and whether the job is to be tried again. A job that failed too
often is disabled and taken out of the runtime. -/
def recordRun {id : Uuid} (job : JobOf id) (time : DateTime) (success : Bool) :
    SchedulerProg (JobOf id × Bool) :=
  let ran := { job.1 with lastRunAt := some time }
  if success then return (⟨{ ran with errorCount := 0 }, job.2⟩, false)
  else
    let failed := { ran with errorCount := ran.errorCount + 1 }
    if failed.errorCount > failed.maxRetries then do
      lockScheduler
      let _ ← removeRuntime id
      unlockScheduler
      return (⟨{ failed with enabled := false }, job.2⟩, false)
    else
      match failed.schedule with
      | .atTime _ => return (⟨failed, job.2⟩, true)
      | _ => return (⟨failed, job.2⟩, false)

def retryDelay : Int := 30 * 1000000000

/-- A failed save is passed on; a job that is to be tried again is registered anew, whatever
becomes of that. -/
def finishRun (job : CronJob) (saved : Except SchedulerError Unit) (retryNeeded : Bool) :
    SchedulerProg (Except SchedulerError Unit) :=
  match saved, retryNeeded with
  | .error e, _ => return .error e
  | .ok (), false => return .ok ()
  | .ok (), true => do
      let now ← utcNow
      let _ ← registerJobRuntime hasStore { job with schedule := .atTime (now + retryDelay) }
      return .ok ()

def updateJobStatus (id : Uuid) (success : Bool) : SchedulerProg (Except SchedulerError Unit) := do
  match ← borrowJob id with
  | none => return .ok ()
  | some job =>
      let time ← utcNow
      let (job, retryNeeded) ← recordRun job time success
      let saved ← saveJob hasStore job.1
      -- the entry is released before the result of the save is passed on
      releaseJob job.1
      finishRun hasStore job.1 saved retryNeeded

def RuntimeJob.fire (job : RuntimeJob) (id : Uuid) : SchedulerProg Unit := do
  let result ← executePayload job.name job.payload
  let _ ← updateJobStatus hasStore id result.isOk

def removeJob (id : Uuid) : SchedulerProg (Except SchedulerError Bool) := do
  lockScheduler
  let _ ← removeRuntime id
  let _ ← forgetJob hasStore id
  let found ← takeJob id
  unlockScheduler
  return .ok found

end Operations

end BenShu.Scheduler
