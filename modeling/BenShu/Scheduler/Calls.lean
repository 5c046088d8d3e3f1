import BenShu.Scheduler.Scheduler

/-!
# The scheduler one call at a time

Without other callers, what a call makes of the state is a function of the answers it
gets from outside: clock readings, fresh identifiers, and which calls of the runtime and
of the store fail.
-/

namespace BenShu.Scheduler

open Interaction
open Protocol (DateTime)

/-- The answers to a registration. -/
structure RegistrationAnswers where
  now : DateTime
  created : Except String Unit
  added : Except String Uuid
  forgotten : Except SchedulerError Unit
  saved : Except SchedulerError Unit

/-- The answers to a firing of a job. -/
structure FiringAnswers where
  success : Bool
  time : DateTime
  unregistered : Except String Unit
  saved : Except SchedulerError Unit
  retryFrom : DateTime
  retry : RegistrationAnswers

/-! ## Jobs -/

def triggerAt (now : DateTime) : JobSchedule → Option (Trigger × String)
  | .atTime time => if time ≤ now then none else some (.oneShot now (time - now), "one-shot")
  | .every intervalSecs => some (.repeated intervalSecs, "repeated")
  | .cron expr => some (.cron expr, "cron")

namespace CronJob

def runtimeJob (job : CronJob) (trigger : Trigger) : RuntimeJob where
  trigger := trigger
  name := job.name
  payload := job.payload

def exhausted (job : CronJob) : Bool := job.errorCount + 1 > job.maxRetries

def afterRun (job : CronJob) (time : DateTime) (success : Bool) : CronJob :=
  if success then { job with lastRunAt := some time, errorCount := 0 }
  else { job with
    lastRunAt := some time
    errorCount := job.errorCount + 1
    enabled := job.enabled && !job.exhausted }

def oneShot (job : CronJob) : Bool :=
  match job.schedule with
  | .atTime _ => true
  | _ => false

def retries (job : CronJob) (success : Bool) : Bool := !success && !job.exhausted && job.oneShot

def retryJob (job : CronJob) (a : FiringAnswers) : CronJob :=
  { job.afterRun a.time a.success with schedule := .atTime (a.retryFrom + retryDelay) }

end CronJob

/-- The identifier under which the runtime takes a job. -/
def RegistrationAnswers.registers (a : RegistrationAnswers) (job : CronJob) : Option Uuid :=
  match triggerAt a.now job.schedule, a.created, a.added with
  | some _, .ok (), .ok id => some id
  | _, _, _ => none

/-! ## Calls -/

section Calls

variable (hasStore : Bool)

def storeResult (result : Except SchedulerError Unit) : Except SchedulerError Unit :=
  if hasStore then result else .ok ()

namespace SchedulerState

def save (s : SchedulerState) (job : CronJob) (saved : Except SchedulerError Unit) :
    SchedulerState :=
  if hasStore = true ∧ saved.isOk = true then { s with store := s.store.put job.stored } else s

def forget (s : SchedulerState) (id : Uuid) (forgotten : Except SchedulerError Unit) :
    SchedulerState :=
  if hasStore = true ∧ forgotten.isOk = true then { s with store := s.store.erase id } else s

def unregister (s : SchedulerState) (id : Uuid) (unregistered : Except String Unit) :
    SchedulerState :=
  if unregistered.isOk = true then { s with registrations := s.registrations.erase id } else s

/-- The runtime has taken the job under a new identifier. -/
def enter (s : SchedulerState) (job : CronJob) (trigger : Trigger) (id : Uuid)
    (forgotten saved : Except SchedulerError Unit) : SchedulerState :=
  let entered := { s with
    registrations := s.registrations.insert id (job.runtimeJob trigger)
    issued := id :: s.issued
    jobs := s.jobs.put { job with id := id } }
  let moved :=
    if id ≠ job.id then
      { entered with jobs := entered.jobs.erase job.id }.forget hasStore job.id forgotten
    else entered
  moved.save hasStore { job with id := id } saved

def register (s : SchedulerState) (job : CronJob) (a : RegistrationAnswers) :
    SchedulerState × Except SchedulerError Uuid :=
  match triggerAt a.now job.schedule with
  | none => (s, .ok job.id)
  | some (trigger, kind) =>
      match a.created, a.added with
      | .error e, _ => (s, .error (.internal s!"Failed to create {kind} job: {e}"))
      | .ok (), .error e => (s, .error (.internal s!"Failed to add job: {e}"))
      | .ok (), .ok id =>
          (s.enter hasStore job trigger id a.forgotten a.saved,
            (storeResult hasStore a.saved).map fun _ => id)

def add (s : SchedulerState) (id : Uuid) (name : String) (schedule : JobSchedule)
    (payload : JobPayload) (a : RegistrationAnswers) :
    SchedulerState × Except SchedulerError Uuid :=
  { s with issued := id :: s.issued }.register hasStore
    { id := id, name := name, schedule := schedule, payload := payload } a

/-- Jobs and the answers to their registrations. -/
def registerAll (s : SchedulerState) :
    List (CronJob × RegistrationAnswers) → SchedulerState × Except SchedulerError Unit
  | [] => (s, .ok ())
  | (job, a) :: rest =>
      match s.register hasStore job a with
      | (s, .error e) => (s, .error e)
      | (s, .ok _) => s.registerAll rest

def recordFiring (s : SchedulerState) (id : Uuid) (job : CronJob) (a : FiringAnswers) :
    SchedulerState :=
  let stopped := if !a.success && job.exhausted then s.unregister id a.unregistered else s
  let saved := stopped.save hasStore (job.afterRun a.time a.success) a.saved
  { saved with jobs := saved.jobs.put (job.afterRun a.time a.success) }

def finish (s : SchedulerState) (job : CronJob) (saved : Except SchedulerError Unit)
    (retryNeeded : Bool) (a : RegistrationAnswers) : SchedulerState × Except SchedulerError Unit :=
  match saved, retryNeeded with
  | .error e, _ => (s, .error e)
  | .ok (), false => (s, .ok ())
  | .ok (), true => ((s.register hasStore job a).1, .ok ())

def updateStatus (s : SchedulerState) (id : Uuid) (a : FiringAnswers) :
    SchedulerState × Except SchedulerError Unit :=
  match s.jobs.lookup id with
  | none => (s, .ok ())
  | some job =>
      (s.recordFiring hasStore id job.1 a).finish hasStore (job.1.retryJob a)
        (storeResult hasStore a.saved) (job.1.retries a.success) a.retry

def remove (s : SchedulerState) (id : Uuid) (unregistered : Except String Unit)
    (forgotten : Except SchedulerError Unit) : SchedulerState × Bool :=
  let forgot := (s.unregister id unregistered).forget hasStore id forgotten
  ({ forgot with jobs := forgot.jobs.erase id }, decide (id ∈ s.jobs))

end SchedulerState

end Calls

/-! ## What a program does is a call -/

/-- No lock is taken. -/
structure SchedulerState.Idle (s : SchedulerState) : Prop where
  unlocked : s.locked = false
  returned : s.borrowed = []

def RegistrationAnswers.Fresh (a : RegistrationAnswers) (s : SchedulerState) : Prop :=
  ∀ id, a.added = .ok id → id ∉ s.issued

variable {hasStore : Bool} {shard : Uuid → Nat} {s s' : SchedulerState}

theorem completes_triggerOf {schedule : JobSchedule} {r : Option (Trigger × String)}
    (h : Completes (schedulerResource shard) (triggerOf schedule) s s' r) :
    s' = s ∧ ∃ now, r = triggerAt now schedule := by
  cases schedule with
  | atTime time =>
      rcases completes_request.mp h with ⟨now, _, hrest⟩
      split at hrest
      · rename_i hdue
        exact ⟨hrest.1, now, hrest.2.trans (if_pos hdue).symm⟩
      · rename_i hdue
        exact ⟨hrest.1, now, hrest.2.trans (if_neg hdue).symm⟩
  | every intervalSecs => exact ⟨h.1, 0, h.2⟩
  | cron expr => exact ⟨h.1, 0, h.2⟩

variable {r : Except SchedulerError Unit} {job : CronJob}

theorem completes_saveJob (h : Completes (schedulerResource shard) (saveJob hasStore job) s s' r) :
    ∃ saved, s' = s.save hasStore job saved ∧ r = storeResult hasStore saved := by
  unfold storeResult SchedulerState.save
  cases hasStore with
  | false => exact ⟨.ok (), by simpa [saveJob, Completes, Pure.pure] using h⟩
  | true =>
      rcases completes_request.mp h with ⟨saved, _, hs, hr⟩
      refine ⟨saved, ?_, hr⟩
      rw [hs]
      cases saved <;> rfl

variable {id : Uuid}

theorem completes_forgetJob
    (h : Completes (schedulerResource shard) (forgetJob hasStore id) s s' r) :
    ∃ forgotten, s' = s.forget hasStore id forgotten ∧ r = storeResult hasStore forgotten := by
  unfold storeResult SchedulerState.forget
  cases hasStore with
  | false => exact ⟨.ok (), by simpa [forgetJob, Completes, Pure.pure] using h⟩
  | true =>
      rcases completes_request.mp h with ⟨forgotten, _, hs, hr⟩
      refine ⟨forgotten, ?_, hr⟩
      rw [hs]
      cases forgotten <;> rfl

theorem completes_leaveOriginal {idOriginal registeredId : Uuid}
    (h : Completes (schedulerResource shard) (leaveOriginal hasStore idOriginal registeredId)
      s s' ()) :
    ∃ forgotten, s' = if registeredId ≠ idOriginal then
      { s with jobs := s.jobs.erase idOriginal }.forget hasStore idOriginal forgotten
      else s := by
  unfold leaveOriginal at h
  split at h
  · rename_i hother
    rcases completes_request.mp h with ⟨found, _, hrest⟩
    rcases completes_bind.mp hrest with ⟨middle, r, hforget, hs, _⟩
    rcases completes_forgetJob hforget with ⟨forgotten, hmiddle, _⟩
    refine ⟨forgotten, ?_⟩
    rw [if_pos hother]
    exact hs.trans hmiddle
  · rename_i hsame
    refine ⟨.ok (), ?_⟩
    rw [if_neg hsame]
    exact h.1

/-- What a registration does once the runtime has been asked. -/
theorem completes_enterJob {trigger : Trigger} {r : Except SchedulerError Uuid}
    (h : Completes (schedulerResource shard) (enterJob hasStore job (job.runtimeJob trigger))
      s s' r) :
    (∃ e : String, s' = s ∧ r = .error (.internal s!"Failed to add job: {e}")) ∨
      ∃ id, id ∉ s.issued ∧ ∃ forgotten saved,
        s' = s.enter hasStore job trigger id forgotten saved ∧
        r = (storeResult hasStore saved).map fun _ => id := by
  rcases completes_request.mp h with ⟨added, hallows, hrest⟩
  cases added with
  | error e => exact .inl ⟨e, hrest⟩
  | ok id =>
      rcases completes_request.mp hrest with ⟨_, _, hrest⟩
      rcases completes_bind.mp hrest with ⟨middle, _, hleave, hrest⟩
      rcases completes_leaveOriginal hleave with ⟨forgotten, hmiddle⟩
      rcases completes_bind.mp hrest with ⟨final, result, hsave, hreply⟩
      rcases completes_saveJob hsave with ⟨saved, hfinal, hsaved⟩
      have hleft : s' = final ∧ r = result.map fun _ => id := by
        cases result <;> exact hreply
      refine .inr ⟨id, hallows, forgotten, saved, ?_, ?_⟩
      · rw [hleft.1, hfinal, hmiddle]
        rfl
      · rw [hleft.2, hsaved]

theorem enter_locked (hasStore : Bool) (s : SchedulerState) (job : CronJob) (trigger : Trigger) (id : Uuid)
    (forgotten saved : Except SchedulerError Unit) :
    { { s with locked := true }.enter hasStore job trigger id forgotten saved with
        locked := s.locked } = s.enter hasStore job trigger id forgotten saved := by
  unfold SchedulerState.enter SchedulerState.save SchedulerState.forget
  dsimp only
  split <;> split <;> (try split) <;> rfl

theorem fresh_of_error {a : RegistrationAnswers} {e : String} (h : a.added = .error e) :
    a.Fresh s := by
  intro id hid
  rw [h] at hid
  cases hid

theorem completes_registerJobRuntime {r : Except SchedulerError Uuid} (hidle : s.Idle)
    (h : Completes (schedulerResource shard) (registerJobRuntime hasStore job) s s' r) :
    ∃ a : RegistrationAnswers, a.Fresh s ∧ s.register hasStore job a = (s', r) := by
  have hunlock : { { s with locked := true } with locked := false } = s := by
    rw [← hidle.unlocked]
  rcases completes_bind.mp h with ⟨middle, found, htrigger, hrest⟩
  rcases completes_triggerOf htrigger with ⟨hmiddle, now, hfound⟩
  subst hmiddle
  cases found with
  | none =>
      rcases completes_pure.mp hrest with ⟨hs, hr⟩
      refine ⟨⟨now, .error "", .error "", .ok (), .ok ()⟩, fresh_of_error rfl, ?_⟩
      rw [SchedulerState.register, ← hfound, hs, hr]
  | some found =>
      rcases found with ⟨trigger, kind⟩
      rcases completes_request.mp hrest with ⟨created, _, hrest⟩
      cases created with
      | error e =>
          rcases completes_pure.mp hrest with ⟨hs, hr⟩
          refine ⟨⟨now, .error e, .error "", .ok (), .ok ()⟩, fresh_of_error rfl, ?_⟩
          rw [SchedulerState.register, ← hfound, hs, hr]
          rfl
      | ok _ =>
          rcases completes_request.mp hrest with ⟨_, _, hrest⟩
          rcases completes_bind.mp hrest with ⟨entered, result, henter, hrest⟩
          rcases completes_request.mp hrest with ⟨_, _, hrest⟩
          rcases completes_pure.mp hrest with ⟨hs, hr⟩
          rcases completes_enterJob henter with
            ⟨e, hentered, hresult⟩ | ⟨id, hfresh, forgotten, saved, hentered, hresult⟩
          · refine ⟨⟨now, .ok (), .error e, .ok (), .ok ()⟩, fresh_of_error rfl, ?_⟩
            rw [SchedulerState.register, ← hfound, hs, hr, hentered, hresult]
            exact congrArg (·, _) hunlock.symm
          · refine ⟨⟨now, .ok (), .ok id, forgotten, saved⟩, ?_, ?_⟩
            · intro id' hid
              cases hid
              exact hfresh
            · rw [SchedulerState.register, ← hfound, hs, hr, hentered, hresult]
              have hlocked := enter_locked hasStore middle job trigger id forgotten saved
              rw [hidle.unlocked] at hlocked
              exact congrArg (·, _) hlocked.symm

theorem completes_addJob {name : String} {schedule : JobSchedule} {payload : JobPayload}
    {r : Except SchedulerError Uuid} (hidle : s.Idle)
    (h : Completes (schedulerResource shard) (addJob hasStore name schedule payload) s s' r) :
    ∃ id, id ∉ s.issued ∧ ∃ a : RegistrationAnswers, a.Fresh { s with issued := id :: s.issued } ∧
      s.add hasStore id name schedule payload a = (s', r) := by
  rcases completes_request.mp h with ⟨id, hfresh, hrest⟩
  exact ⟨id, hfresh, completes_registerJobRuntime ⟨hidle.unlocked, hidle.returned⟩ hrest⟩

theorem completes_triggerConsolidation {agentId : Option String} {limit : Nat}
    {r : Except SchedulerError Uuid} (hidle : s.Idle)
    (h : Completes (schedulerResource shard) (triggerConsolidation hasStore agentId limit)
      s s' r) :
    ∃ now id, id ∉ s.issued ∧
      ∃ a : RegistrationAnswers, a.Fresh { s with issued := id :: s.issued } ∧
        s.add hasStore id "manual_consolidation" (.atTime now)
          (.consolidateMemory limit agentId none) a = (s', r) := by
  rcases completes_request.mp h with ⟨now, _, hrest⟩
  exact ⟨now, completes_addJob hidle hrest⟩

theorem remove_locked (hasStore : Bool) (s : SchedulerState) (id : Uuid)
    (unregistered : Except String Unit) (forgotten : Except SchedulerError Unit) :
    { ({ s with locked := true }.remove hasStore id unregistered forgotten).1 with
        locked := s.locked } = (s.remove hasStore id unregistered forgotten).1 := by
  unfold SchedulerState.remove SchedulerState.unregister SchedulerState.forget
  dsimp only
  split <;> split <;> rfl

theorem unregister_eq_after (s : SchedulerState) (id : Uuid) (unregistered : Except String Unit) :
    (schedulerResource shard).after s ⟨.removeRuntime id, unregistered⟩ =
      s.unregister id unregistered := by
  cases unregistered <;> rfl

theorem completes_removeJob {r : Except SchedulerError Bool} (hidle : s.Idle)
    (h : Completes (schedulerResource shard) (removeJob hasStore id) s s' r) :
    ∃ unregistered forgotten, s' = (s.remove hasStore id unregistered forgotten).1 ∧
      r = .ok (s.remove hasStore id unregistered forgotten).2 := by
  rcases completes_request.mp h with ⟨_, _, hrest⟩
  rcases completes_request.mp hrest with ⟨unregistered, _, hrest⟩
  rcases completes_bind.mp hrest with ⟨middle, _, hforget, hrest⟩
  rcases completes_forgetJob hforget with ⟨forgotten, hmiddle, _⟩
  rcases completes_request.mp hrest with ⟨found, hfound, hrest⟩
  rcases completes_request.mp hrest with ⟨_, _, hs, hr⟩
  rw [unregister_eq_after] at hmiddle
  subst hmiddle
  have hlocked := remove_locked hasStore s id unregistered forgotten
  rw [hidle.unlocked] at hlocked
  have hjobs : (({ s with locked := true }.unregister id unregistered).forget hasStore id
      forgotten).jobs = s.jobs := by
    unfold SchedulerState.unregister SchedulerState.forget
    split <;> split <;> rfl
  refine ⟨unregistered, forgotten, hs.trans hlocked, ?_⟩
  rw [hr, hfound.1]
  exact congrArg (fun jobs : JobTable => Except.ok (decide (id ∈ jobs))) hjobs

theorem completes_recorded {job job' : JobOf id} {retry retry' : Bool}
    (h : Completes (schedulerResource shard) (pure (job, retry)) s s' (job', retry')) :
    job'.1 = job.1 ∧ retry' = retry ∧ ∃ _ : Except String Unit, s' = s := by
  cases h.2
  exact ⟨rfl, rfl, .ok (), h.1⟩

theorem completes_recordRun {job : JobOf id} {time : DateTime} {success : Bool}
    {r : JobOf id × Bool} (hunlocked : s.locked = false)
    (h : Completes (schedulerResource shard) (recordRun job time success) s s' r) :
    r.1.1 = job.1.afterRun time success ∧ r.2 = job.1.retries success ∧
      ∃ unregistered,
        s' = if !success && job.1.exhausted then s.unregister id unregistered else s := by
  rcases r with ⟨job', retry⟩
  unfold recordRun at h
  cases success with
  | true => exact completes_recorded h
  | false =>
      by_cases hmany : job.1.errorCount + 1 > job.1.maxRetries
      · have hexhausted : job.1.exhausted = true := decide_eq_true hmany
        have hafter : job.1.afterRun time false = { job.1 with
            lastRunAt := some time, errorCount := job.1.errorCount + 1, enabled := false } := by
          simp [CronJob.afterRun, hexhausted]
        have hretries : job.1.retries false = false := by
          simp [CronJob.retries, hexhausted]
        rw [hafter, hretries, hexhausted]
        dsimp only at h
        rw [if_neg Bool.false_ne_true, if_pos hmany] at h
        rcases completes_request.mp h with ⟨_, _, hrest⟩
        rcases completes_request.mp hrest with ⟨unregistered, _, hrest⟩
        rcases completes_request.mp hrest with ⟨_, _, hs, hr⟩
        cases hr
        refine ⟨rfl, rfl, unregistered, hs.trans ?_⟩
        have hstep := @unregister_eq_after shard { s with locked := true } id unregistered
        have hunlock : { ({ s with locked := true } : SchedulerState).unregister id
            unregistered with locked := false } = s.unregister id unregistered := by
          rw [← hunlocked]
          unfold SchedulerState.unregister
          split <;> rfl
        exact (congrArg (fun middle : SchedulerState => { middle with locked := false })
          hstep).trans hunlock
      · have hexhausted : job.1.exhausted = false := decide_eq_false hmany
        have hafter : job.1.afterRun time false = { job.1 with
            lastRunAt := some time, errorCount := job.1.errorCount + 1 } := by
          simp [CronJob.afterRun, hexhausted]
        have hretries : job.1.retries false = job.1.oneShot := by
          simp [CronJob.retries, hexhausted]
        rw [hafter, hretries, hexhausted]
        dsimp only at h ⊢
        rw [if_neg Bool.false_ne_true, if_neg hmany] at h
        unfold CronJob.oneShot
        revert h
        cases job.1.schedule with
        | atTime _ => exact completes_recorded
        | every _ => exact completes_recorded
        | cron _ => exact completes_recorded

theorem afterRun_id (job : CronJob) (time : DateTime) (success : Bool) :
    (job.afterRun time success).id = job.id := by
  unfold CronJob.afterRun
  split <;> rfl

theorem after_releaseJob (shard : Uuid → Nat) (hasStore : Bool) (job : JobOf id)
    (a : FiringAnswers) (hreturned : s.borrowed = []) :
    (schedulerResource shard).after ((if !a.success && job.1.exhausted then
        { s with borrowed := id :: s.borrowed }.unregister id a.unregistered
        else { s with borrowed := id :: s.borrowed }).save hasStore
          (job.1.afterRun a.time a.success) a.saved)
        ⟨.releaseJob (job.1.afterRun a.time a.success), ()⟩ =
      s.recordFiring hasStore id job.1 a := by
  have herase : (id :: s.borrowed).erase (job.1.afterRun a.time a.success).id = s.borrowed := by
    rw [hreturned, afterRun_id, job.2]
    simp
  simp only [schedulerResource, SchedulerState.after]
  unfold SchedulerState.recordFiring SchedulerState.save SchedulerState.unregister
  dsimp only
  split <;> split <;> (try split) <;> simp [herase]

theorem recordFiring_idle {a : FiringAnswers} (hidle : s.Idle) :
    (s.recordFiring hasStore id job a).Idle := by
  unfold SchedulerState.recordFiring SchedulerState.save SchedulerState.unregister
  dsimp only
  split <;> split <;> (try split) <;> exact ⟨hidle.unlocked, hidle.returned⟩

theorem recordFiring_issued {a : FiringAnswers} :
    (s.recordFiring hasStore id job a).issued = s.issued := by
  unfold SchedulerState.recordFiring SchedulerState.save SchedulerState.unregister
  dsimp only
  split <;> split <;> (try split) <;> rfl

theorem completes_finishRun {saved : Except SchedulerError Unit} {retryNeeded : Bool}
    (hidle : s.Idle)
    (h : Completes (schedulerResource shard) (finishRun hasStore job saved retryNeeded) s s' r) :
    ∃ now, ∃ a : RegistrationAnswers, a.Fresh s ∧
      s.finish hasStore { job with schedule := .atTime (now + retryDelay) } saved retryNeeded a =
        (s', r) := by
  have hquiet : ∀ r', Completes (schedulerResource shard) (pure r') s s' r →
      ∃ now : DateTime, ∃ a : RegistrationAnswers, a.Fresh s ∧ (s, r') = (s', r) := by
    intro r' ⟨hs, hr⟩
    exact ⟨0, ⟨0, .ok (), .error "", .ok (), .ok ()⟩, fresh_of_error rfl, by rw [hs, hr]⟩
  cases saved with
  | error e => exact hquiet _ h
  | ok _ =>
      cases retryNeeded with
      | false => exact hquiet _ h
      | true =>
          rcases completes_request.mp h with ⟨now, _, hrest⟩
          rcases completes_bind.mp hrest with ⟨middle, result, hregister, hs, hr⟩
          rcases completes_registerJobRuntime hidle hregister with ⟨a, hfresh, ha⟩
          refine ⟨now, a, hfresh, ?_⟩
          rw [hs, hr]
          exact congrArg (fun x => (x.1, Except.ok ())) ha

theorem completes_updateJobStatus {success : Bool} (hidle : s.Idle)
    (h : Completes (schedulerResource shard) (updateJobStatus hasStore id success) s s' r) :
    ∃ a : FiringAnswers, a.success = success ∧ a.retry.Fresh s ∧
      s.updateStatus hasStore id a = (s', r) := by
  rcases completes_request.mp h with ⟨found, ⟨hfound, _⟩, hrest⟩
  cases found with
  | none =>
      rcases completes_pure.mp hrest with ⟨hs, hr⟩
      refine ⟨⟨success, 0, .ok (), .ok (), 0, ⟨0, .ok (), .error "", .ok (), .ok ()⟩⟩, rfl,
        fresh_of_error rfl, ?_⟩
      rw [SchedulerState.updateStatus, ← hfound, hs, hr]
      rfl
  | some job =>
      rcases completes_request.mp hrest with ⟨time, _, hrest⟩
      rcases completes_bind.mp hrest with ⟨stopped, recorded, hrecord, hrest⟩
      rcases completes_recordRun (by exact hidle.unlocked) hrecord with
        ⟨hjob, hretry, unregistered, hstopped⟩
      rcases recorded with ⟨job', retry⟩
      rcases completes_bind.mp hrest with ⟨kept, result, hsave, hrest⟩
      rcases completes_saveJob hsave with ⟨saved, hkept, hresult⟩
      rcases completes_request.mp hrest with ⟨_, _, hrest⟩
      dsimp only at hjob hretry
      subst hretry
      rw [hkept, hstopped, hjob, hresult] at hrest
      let unused : RegistrationAnswers := ⟨0, .ok (), .error "", .ok (), .ok ()⟩
      have hreleased := after_releaseJob shard hasStore job
        ⟨success, time, unregistered, saved, 0, unused⟩ hidle.returned
      have hfinish : Completes (schedulerResource shard) (finishRun hasStore
          (job.1.afterRun time success) (storeResult hasStore saved) (job.1.retries success))
          (s.recordFiring hasStore id job.1 ⟨success, time, unregistered, saved, 0, unused⟩)
          s' r := by
        rw [← hreleased]
        exact hrest
      rcases completes_finishRun (recordFiring_idle hidle) hfinish with ⟨now, a, hfresh, ha⟩
      refine ⟨⟨success, time, unregistered, saved, now, a⟩, rfl, ?_, ?_⟩
      · unfold RegistrationAnswers.Fresh at hfresh
        rw [recordFiring_issued] at hfresh
        exact hfresh
      · rw [SchedulerState.updateStatus, ← hfound]
        exact ha

theorem completes_fire {job : RuntimeJob} (hidle : s.Idle)
    (h : Completes (schedulerResource shard) (job.fire hasStore id) s s' ()) :
    ∃ a : FiringAnswers, a.retry.Fresh s ∧ (s.updateStatus hasStore id a).1 = s' := by
  rcases completes_bind.mp h with ⟨middle, result, hexecute, hrest⟩
  rcases completes_request.mp hexecute with ⟨_, _, hmiddle, _⟩
  rw [hmiddle] at hrest
  rcases completes_bind.mp hrest with ⟨final, _, hupdate, hs, _⟩
  rcases completes_updateJobStatus hidle hupdate with ⟨a, _, hfresh, ha⟩
  refine ⟨a, hfresh, ?_⟩
  rw [ha, hs]

/-! ## Loading -/

/-- The answers to a sequence of registrations are fresh where they are asked for. -/
def AllFresh (hasStore : Bool) (s : SchedulerState) : List (CronJob × RegistrationAnswers) → Prop
  | [] => True
  | (job, a) :: rest => a.Fresh s ∧
      ((s.register hasStore job a).2.isOk = true →
        AllFresh hasStore (s.register hasStore job a).1 rest)

theorem register_idle (hasStore : Bool) (job : CronJob) (a : RegistrationAnswers)
    (hidle : s.Idle) :
    (s.register hasStore job a).1.Idle := by
  unfold SchedulerState.register
  split
  · exact hidle
  · split
    · exact hidle
    · exact hidle
    · unfold SchedulerState.enter SchedulerState.save SchedulerState.forget
      dsimp only
      split <;> split <;> (try split) <;> exact ⟨hidle.unlocked, hidle.returned⟩

theorem completes_registerAll {jobs : List CronJob} (hidle : s.Idle)
    (h : Completes (schedulerResource shard) (registerAll hasStore jobs) s s' r) :
    ∃ attempts, attempts.map Prod.fst = jobs ∧ AllFresh hasStore s attempts ∧
      s.registerAll hasStore attempts = (s', r) := by
  induction jobs generalizing s with
  | nil => exact ⟨[], rfl, trivial, by rw [h.1, h.2]; rfl⟩
  | cons job jobs ih =>
      rcases completes_bind.mp h with ⟨middle, result, hregister, hrest⟩
      rcases completes_registerJobRuntime hidle hregister with ⟨a, hfresh, ha⟩
      have hmiddle : middle.Idle := by
        have hkept := register_idle hasStore job a hidle
        rw [ha] at hkept
        exact hkept
      cases result with
      | error e =>
          rcases completes_pure.mp hrest with ⟨hs, hr⟩
          let unused : RegistrationAnswers := ⟨0, .ok (), .error "", .ok (), .ok ()⟩
          refine ⟨(job, a) :: jobs.map fun other => (other, unused), ?_, ⟨hfresh, ?_⟩, ?_⟩
          · simp [Function.comp_def]
          · rw [ha]
            exact fun hok => nomatch hok
          · rw [SchedulerState.registerAll, ha, hs, hr]
      | ok id =>
          rcases ih hmiddle hrest with ⟨attempts, hmap, hall, hattempts⟩
          refine ⟨(job, a) :: attempts, ?_, ⟨hfresh, ?_⟩, ?_⟩
          · rw [List.map_cons, hmap]
          · rw [ha]
            exact fun _ => hall
          · rw [SchedulerState.registerAll, ha]
            exact hattempts

theorem completes_loadJobs (hidle : s.Idle)
    (h : Completes (schedulerResource shard) (loadJobs true) s s' r) :
    (∃ e, s' = s ∧ r = .error e) ∨
      ∃ attempts, (attempts.map Prod.fst).Perm (s.store.entries.map fun entry => entry.2.1) ∧
        AllFresh true s attempts ∧ s.registerAll true attempts = (s', r) := by
  rcases completes_request.mp h with ⟨loaded, hloaded, hrest⟩
  cases loaded with
  | error e => exact .inl ⟨e, hrest⟩
  | ok jobs =>
      rcases completes_registerAll hidle hrest with ⟨attempts, hmap, hall, h⟩
      refine .inr ⟨attempts, ?_, hall, h⟩
      rw [hmap]
      exact hloaded

end BenShu.Scheduler
