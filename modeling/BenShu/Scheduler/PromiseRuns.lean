import BenShu.Lib.History
import BenShu.Scheduler.Promises

/-!
# Runs of the scheduler

A run is a sequence of calls, firings and restarts, each with the answers it gets from
outside. It keeps its promises if every promised job is registered after every step.
-/

namespace BenShu.Scheduler

open Interaction
open Protocol (DateTime)

/-- What is asked of the scheduler. -/
inductive SchedulerRequest where
  | addJob (name : String) (schedule : JobSchedule) (payload : JobPayload)
  | triggerConsolidation (agentId : Option String) (limit : Nat)
  | removeJob (id : Uuid)
  | updateJobStatus (id : Uuid) (success : Bool)
  | fire (id : Uuid) (job : RuntimeJob)
  | restart

/-- What is asked, with the answers that it gets from outside. A restart may fail to load
the jobs. -/
inductive SchedulerCall where
  | addJob (name : String) (schedule : JobSchedule) (payload : JobPayload) (id : Uuid)
      (a : RegistrationAnswers)
  | triggerConsolidation (agentId : Option String) (limit : Nat) (now : DateTime) (id : Uuid)
      (a : RegistrationAnswers)
  | removeJob (id : Uuid) (unregistered : Except String Unit)
      (forgotten : Except SchedulerError Unit)
  | updateJobStatus (id : Uuid) (a : FiringAnswers)
  | fire (id : Uuid) (job : RuntimeJob) (a : FiringAnswers)
  | restart (loaded : Option (List (CronJob × RegistrationAnswers)))

def SchedulerCall.request : SchedulerCall → SchedulerRequest
  | .addJob name schedule payload _ _ => .addJob name schedule payload
  | .triggerConsolidation agentId limit _ _ _ => .triggerConsolidation agentId limit
  | .removeJob id _ _ => .removeJob id
  | .updateJobStatus id a => .updateJobStatus id a.success
  | .fire id job _ => .fire id job
  | .restart _ => .restart

def SchedulerState.stopped (s : SchedulerState) : SchedulerState :=
  { s with jobs := ∅, registrations := ∅, locked := false, borrowed := [] }

section Steps

variable (hasStore : Bool)

/-- The program for a request, with the identifier that a caller is given for a job. -/
def SchedulerRequest.program : SchedulerRequest → SchedulerProg (Option Uuid)
  | .addJob name schedule payload => do
      let result ← Scheduler.addJob hasStore name schedule payload
      return result.toOption
  | .triggerConsolidation agentId limit => do
      let result ← Scheduler.triggerConsolidation hasStore agentId limit
      return result.toOption
  | .removeJob id => do
      let _ ← Scheduler.removeJob hasStore id
      return none
  | .updateJobStatus id success => do
      let _ ← Scheduler.updateJobStatus hasStore id success
      return none
  | .fire id job => do
      job.fire hasStore id
      return none
  | .restart => do
      let _ ← loadJobs hasStore
      return none

def SchedulerRequest.before (s : SchedulerState) : SchedulerRequest → SchedulerState
  | .fire id _ => s.usedUp id
  | .restart => s.stopped
  | _ => s

namespace SchedulerCall

def perform (s : SchedulerState) : SchedulerCall → SchedulerState × Option Uuid
  | .addJob name schedule payload id a =>
      ((s.add hasStore id name schedule payload a).1,
        (s.add hasStore id name schedule payload a).2.toOption)
  | .triggerConsolidation agentId limit now id a =>
      ((s.add hasStore id "manual_consolidation" (.atTime now)
          (.consolidateMemory limit agentId none) a).1,
        (s.add hasStore id "manual_consolidation" (.atTime now)
          (.consolidateMemory limit agentId none) a).2.toOption)
  | .removeJob id unregistered forgotten => ((s.remove hasStore id unregistered forgotten).1, none)
  | .updateJobStatus id a => ((s.updateStatus hasStore id a).1, none)
  | .fire id _ a => (((s.usedUp id).updateStatus hasStore id a).1, none)
  | .restart none => (s.stopped, none)
  | .restart (some attempts) => ((s.stopped.registerAll hasStore attempts).1, none)

/-- The answers can be given: new identifiers are fresh, and what is loaded is the store. -/
def Answered (s : SchedulerState) : SchedulerCall → Prop
  | .addJob _ _ _ id a | .triggerConsolidation _ _ _ id a =>
      id ∉ s.issued ∧ a.Fresh { s with issued := id :: s.issued }
  | .removeJob _ _ _ => True
  | .updateJobStatus _ a | .fire _ _ a => a.retry.Fresh s
  | .restart none => True
  | .restart (some attempts) => hasStore = true ∧
      (attempts.map Prod.fst).Perm (s.store.entries.map fun entry => entry.2.1) ∧
      AllFresh hasStore s.stopped attempts

end SchedulerCall

end Steps

/-! ## What a program does is a step -/

section Programs

variable {hasStore : Bool} {shard : Uuid → Nat} {s s' : SchedulerState}

theorem usedUp_idle {id : Uuid} (hidle : s.Idle) : (s.usedUp id).Idle := by
  unfold SchedulerState.usedUp
  split <;> exact ⟨hidle.unlocked, hidle.returned⟩

theorem stopped_idle (s : SchedulerState) : s.stopped.Idle := ⟨rfl, rfl⟩

theorem completes_discard {α : Type} {p : SchedulerProg α} {f : α → Option Uuid}
    {r : Option Uuid} (h : Completes (schedulerResource shard) (p >>= fun x => pure (f x)) s s' r) :
    ∃ x, Completes (schedulerResource shard) p s s' x ∧ r = f x := by
  rcases completes_bind.mp h with ⟨middle, x, hp, hs, hr⟩
  rw [hs]
  exact ⟨x, hp, hr⟩

/-- What a program makes of the state a call makes of it, with some answers. -/
theorem completes_program {q : SchedulerRequest} {r : Option Uuid} (hidle : s.Idle)
    (h : Completes (schedulerResource shard) (q.program hasStore) (q.before s) s' r) :
    ∃ call : SchedulerCall, call.request = q ∧ call.Answered hasStore s ∧
      call.perform hasStore s = (s', r) := by
  cases q with
  | addJob name schedule payload =>
      rcases completes_discard h with ⟨x, hx, hr⟩
      rcases completes_addJob hidle hx with ⟨id, hid, a, hfresh, h⟩
      refine ⟨.addJob name schedule payload id a, rfl, ⟨hid, hfresh⟩, ?_⟩
      rw [SchedulerCall.perform, h, hr]
  | triggerConsolidation agentId limit =>
      rcases completes_discard h with ⟨x, hx, hr⟩
      rcases completes_triggerConsolidation hidle hx with ⟨now, id, hid, a, hfresh, h⟩
      refine ⟨.triggerConsolidation agentId limit now id a, rfl, ⟨hid, hfresh⟩, ?_⟩
      rw [SchedulerCall.perform, h, hr]
  | removeJob id =>
      rcases completes_discard h with ⟨x, hx, hr⟩
      rcases completes_removeJob hidle hx with ⟨unregistered, forgotten, hs, _⟩
      refine ⟨.removeJob id unregistered forgotten, rfl, trivial, ?_⟩
      rw [hs, hr]
      rfl
  | updateJobStatus id success =>
      rcases completes_discard h with ⟨x, hx, hr⟩
      rcases completes_updateJobStatus hidle hx with ⟨a, hsuccess, hfresh, h⟩
      refine ⟨.updateJobStatus id a, ?_, hfresh, ?_⟩
      · rw [SchedulerCall.request, hsuccess]
      · rw [SchedulerCall.perform, h, hr]
  | fire id job =>
      rcases completes_discard h with ⟨x, hx, hr⟩
      rcases completes_fire (usedUp_idle hidle) hx with ⟨a, hfresh, h⟩
      refine ⟨.fire id job a, rfl, ?_, ?_⟩
      · unfold RegistrationAnswers.Fresh at hfresh
        rw [(usedUp_eq s id).2.2.1] at hfresh
        exact hfresh
      · rw [SchedulerCall.perform, h, hr]
  | restart =>
      rcases completes_discard h with ⟨x, hx, hr⟩
      cases hasStore with
      | false =>
          refine ⟨.restart none, rfl, trivial, ?_⟩
          rw [hx.1, hr]
          rfl
      | true =>
          rcases completes_loadJobs (stopped_idle s) hx with
            ⟨e, hs, _⟩ | ⟨attempts, hperm, hfresh, h⟩
          · refine ⟨.restart none, rfl, trivial, ?_⟩
            rw [hs, hr]
            rfl
          · refine ⟨.restart (some attempts), rfl, ⟨rfl, hperm, hfresh⟩, ?_⟩
            rw [SchedulerCall.perform, h, hr]

end Programs

/-! ## Promises -/

/-- A job that is registered anew is known under its new identifier. -/
def renamed (id : Uuid) (registered : Option Uuid) (promised : List Uuid) : List Uuid :=
  promised.map fun other => if other = id then registered.getD id else other

/-- The scheduler with the jobs that it has promised to run. -/
structure World where
  state : SchedulerState := {}
  promised : List Uuid := []

def World.Kept (w : World) : Prop := ∀ id ∈ w.promised, w.state.Registered id

structure World.Sound (w : World) : Prop where
  state : w.state.Sound
  promised : ∀ id ∈ w.promised, id ∈ w.state.issued

section Promised

variable (hasStore : Bool)

def RegistrationAnswers.succeeds (a : RegistrationAnswers) (job : CronJob) : Bool :=
  (triggerAt a.now job.schedule).isNone ||
    (a.registers job).isSome && (storeResult hasStore a.saved).isOk

def reached : List (CronJob × RegistrationAnswers) → List (CronJob × RegistrationAnswers)
  | [] => []
  | (job, a) :: rest => (job, a) :: if a.succeeds hasStore job then reached rest else []

def promisedAfterRun {id : Uuid} (found : Option (JobOf id)) (a : FiringAnswers)
    (promised : List Uuid) : List Uuid :=
  match found with
  | none => promised
  | some job =>
      if job.1.finishes a.success then promised.filter fun other => other ≠ id
      else renamed id (a.retried hasStore job.1) promised

def SchedulerCall.promisedAfter (w : World) : SchedulerCall → List Uuid
  | .removeJob id _ _ => w.promised.filter fun other => other ≠ id
  | .updateJobStatus id a | .fire id _ a =>
      promisedAfterRun hasStore (w.state.jobs.lookup id) a w.promised
  | .restart (some attempts) =>
      (reached hasStore attempts).foldl
        (fun promised attempt => renamed attempt.1.id (attempt.2.registers attempt.1) promised)
        w.promised
  | call => (call.perform hasStore w.state).2.toList ++ w.promised

def World.perform (w : World) (call : SchedulerCall) : World where
  state := (call.perform hasStore w.state).1
  promised := call.promisedAfter hasStore w

/-! ## When promises are kept -/

/-- A run keeps the promises: a promised job that is not over stays with the runtime or is
tried again, and what is stored as disabled does not stay and is not registered. -/
structure KeepsAtRun (s : SchedulerState) (promised : List Uuid) (id : Uuid) (job : CronJob)
    (a : FiringAnswers) : Prop where
  registered : id ∈ promised → job.finishes a.success = true ∨
    (a.retried hasStore job).isSome = true ∨ id ∈ s.registrations
  quiet : hasStore = true → a.saved.isOk = true →
    (job.afterRun a.time a.success).enabled = true ∨ id ∉ s.registrations ∨
      a.unregisters job = true ∨
      (a.retried hasStore job).isSome = true ∧ a.retry.forgotten.isOk = true
  retry : (a.retried hasStore job).isSome = true → hasStore = true →
    a.retry.saved.isOk = true → job.enabled = true

/-- A restart keeps the promises: every promised job is registered before one fails, and no
job that is stored as disabled is. -/
structure KeepsAtLoad (promised : List Uuid) (attempts : List (CronJob × RegistrationAnswers)) :
    Prop where
  registered : ∀ id ∈ promised, ∃ attempt ∈ reached hasStore attempts,
    attempt.1.id = id ∧ (attempt.2.registers attempt.1).isSome = true
  quiet : ∀ attempt ∈ reached hasStore attempts, (attempt.2.registers attempt.1).isSome = true →
    attempt.2.saved.isOk = true → attempt.1.enabled = true

/-- The call keeps the promises. A one-shot job is registered if its time is yet to come. -/
def SchedulerCall.Keeps (w : World) : SchedulerCall → Prop
  | .addJob _ schedule _ _ a => ∀ time, schedule = .atTime time → a.now < time
  | .triggerConsolidation _ _ now _ a => a.now < now
  | .removeJob _ _ _ => True
  | .updateJobStatus id a => ∀ job, w.state.jobs.lookup id = some job →
      KeepsAtRun hasStore w.state w.promised id job.1 a
  | .fire id _ a => ∀ job, w.state.jobs.lookup id = some job →
      KeepsAtRun hasStore (w.state.usedUp id) w.promised id job.1 a
  | .restart none => w.promised = []
  | .restart (some attempts) => KeepsAtLoad hasStore w.promised attempts

def SchedulerCall.Possible (s : SchedulerState) (call : SchedulerCall) : Prop :=
  call.Answered hasStore s ∧
    ∀ id job, call.request = .fire id job → s.registrations.lookup id = some job

def worldAfter (calls : List SchedulerCall) : World := calls.foldl (World.perform hasStore) {}

/-- Calls, each of which is possible in the state before it. -/
structure SchedulerRun where
  calls : List SchedulerCall
  possible : History.Preceded
    (fun pre call => call.Possible hasStore (worldAfter hasStore pre).state) calls

end Promised

namespace SchedulerRun

variable {hasStore : Bool}

def start : SchedulerRun hasStore := ⟨[], .nil⟩

def snoc (run : SchedulerRun hasStore) (call : SchedulerCall)
    (h : call.Possible hasStore (worldAfter hasStore run.calls).state) : SchedulerRun hasStore :=
  ⟨run.calls ++ [call], run.possible.snoc h⟩

end SchedulerRun

end BenShu.Scheduler
