import BenShu.Scheduler.Calls

/-!
# Promised jobs

A job is promised from the moment a call accepts it until it is removed, is disabled or
has done its one run. What a registration makes of promised and of disabled jobs is said
once here.
-/

namespace BenShu.Scheduler

open Protocol (DateTime)

/-- The trigger fires at the schedule. -/
def Trigger.Meets : Trigger → JobSchedule → Prop
  | .oneShot made duration, .atTime time => made + duration = time
  | .repeated secs, .every intervalSecs => secs = intervalSecs
  | .cron expr, .cron expr' => expr = expr'
  | _, _ => False

/-- The runtime runs the payload of the job at its schedule. -/
structure RuntimeJob.Fires (registration : RuntimeJob) (job : CronJob) : Prop where
  name : registration.name = job.name
  payload : registration.payload = job.payload
  trigger : registration.trigger.Meets job.schedule

namespace SchedulerState

def Registered (s : SchedulerState) (id : Uuid) : Prop :=
  ∃ job registration, s.jobs.lookup id = some job ∧
    s.registrations.lookup id = some registration ∧ registration.Fires job.1

def QuietAt (s : SchedulerState) (id : Uuid) : Prop :=
  ∀ job, s.store.lookup id = some job → job.1.enabled = false → s.registrations.lookup id = none

def Quiet (s : SchedulerState) : Prop := ∀ id, s.QuietAt id

/-- The two states have the same of the job. -/
structure SameAt (s s' : SchedulerState) (id : Uuid) : Prop where
  jobs : s'.jobs.lookup id = s.jobs.lookup id
  store : s'.store.lookup id = s.store.lookup id
  registrations : s'.registrations.lookup id = s.registrations.lookup id

/-- What holds of every state between calls. -/
structure Sound (s : SchedulerState) : Prop where
  idle : s.Idle
  jobs : ∀ id ∈ s.jobs, id ∈ s.issued
  store : ∀ id ∈ s.store, id ∈ s.issued
  registrations : ∀ id ∈ s.registrations, id ∈ s.issued
  fires : ∀ id job registration, s.jobs.lookup id = some job →
    s.registrations.lookup id = some registration → registration.Fires job.1

end SchedulerState

theorem SchedulerState.SameAt.trans {s s' s'' : SchedulerState} {id : Uuid} (h : s.SameAt s' id)
    (h' : s'.SameAt s'' id) : s.SameAt s'' id :=
  ⟨h'.jobs.trans h.jobs, h'.store.trans h.store, h'.registrations.trans h.registrations⟩

theorem SchedulerState.SameAt.registered_iff {s s' : SchedulerState} {id : Uuid}
    (h : s.SameAt s' id) : s'.Registered id ↔ s.Registered id := by
  unfold SchedulerState.Registered
  rw [h.jobs, h.registrations]

theorem SchedulerState.SameAt.quietAt_iff {s s' : SchedulerState} {id : Uuid}
    (h : s.SameAt s' id) : s'.QuietAt id ↔ s.QuietAt id := by
  unfold SchedulerState.QuietAt
  rw [h.store, h.registrations]

theorem SchedulerState.SameAt.fires {s s' : SchedulerState} {id : Uuid} (h : s.SameAt s' id)
    (hsound : s.Sound) : ∀ job registration, s'.jobs.lookup id = some job →
      s'.registrations.lookup id = some registration → registration.Fires job.1 := by
  rw [h.jobs, h.registrations]
  exact hsound.fires id

/-! ## Tables -/

theorem JobTable.lookup_put_self (jobs : JobTable) (job : CronJob) :
    (jobs.put job).lookup job.id = some ⟨job, rfl⟩ := AList.lookup_insert jobs

theorem JobTable.lookup_put_ne {jobs : JobTable} {job : CronJob} {id : Uuid} (h : id ≠ job.id) :
    (jobs.put job).lookup id = jobs.lookup id := AList.lookup_insert_ne h

theorem JobTable.lookup_put (jobs : JobTable) {job : CronJob} {id : Uuid} (h : job.id = id) :
    ∃ found, (jobs.put job).lookup id = some found ∧ found.1 = job := by
  subst h
  exact ⟨_, JobTable.lookup_put_self jobs job, rfl⟩

theorem triggerAt_meets {now : DateTime} {schedule : JobSchedule} {trigger : Trigger}
    {kind : String} (h : triggerAt now schedule = some (trigger, kind)) :
    trigger.Meets schedule := by
  cases schedule with
  | atTime time =>
      unfold triggerAt at h
      dsimp only at h
      split at h
      · cases h
      · cases h
        exact (Int.add_comm now (time - now)).trans (Int.sub_add_cancel time now)
  | every intervalSecs =>
      cases h
      rfl
  | cron expr =>
      cases h
      rfl

/-! ## What a registration changes -/

section Enter

variable {hasStore : Bool} {s : SchedulerState} {job : CronJob} {trigger : Trigger}
  {id other : Uuid} {forgotten saved : Except SchedulerError Unit} {a : RegistrationAnswers}

theorem enter_registrations :
    (s.enter hasStore job trigger id forgotten saved).registrations =
      s.registrations.insert id (job.runtimeJob trigger) := by
  unfold SchedulerState.enter SchedulerState.save SchedulerState.forget
  dsimp only
  split <;> split <;> (try split) <;> rfl

theorem enter_issued :
    (s.enter hasStore job trigger id forgotten saved).issued = id :: s.issued := by
  unfold SchedulerState.enter SchedulerState.save SchedulerState.forget
  dsimp only
  split <;> split <;> (try split) <;> rfl

theorem enter_jobs (hne : id ≠ job.id) :
    (s.enter hasStore job trigger id forgotten saved).jobs =
      (s.jobs.put { job with id := id }).erase job.id := by
  unfold SchedulerState.enter SchedulerState.save SchedulerState.forget
  dsimp only
  rw [if_pos hne]
  split <;> split <;> rfl

theorem enter_store (hne : id ≠ job.id) :
    (s.enter hasStore job trigger id forgotten saved).store =
      let kept : JobTable :=
        if hasStore = true ∧ forgotten.isOk = true then s.store.erase job.id else s.store
      if hasStore = true ∧ saved.isOk = true then kept.put { job with id := id }.stored
      else kept := by
  unfold SchedulerState.enter SchedulerState.save SchedulerState.forget
  dsimp only
  rw [if_pos hne]
  split <;> split <;> rfl

theorem register_of_registers (hasStore : Bool) (s : SchedulerState)
    (h : a.registers job = some id) :
    ∃ trigger kind, triggerAt a.now job.schedule = some (trigger, kind) ∧ a.added = .ok id ∧
      s.register hasStore job a = (s.enter hasStore job trigger id a.forgotten a.saved,
        (storeResult hasStore a.saved).map fun _ => id) := by
  unfold RegistrationAnswers.registers at h
  split at h
  · rename_i found id' htrigger hcreated hadded
    cases h
    rcases found with ⟨trigger, kind⟩
    refine ⟨trigger, kind, htrigger, hadded, ?_⟩
    unfold SchedulerState.register
    rw [htrigger, hcreated, hadded]
  · cases h

theorem register_of_none (hasStore : Bool) (s : SchedulerState) (h : a.registers job = none) :
    (s.register hasStore job a).1 = s := by
  unfold RegistrationAnswers.registers at h
  unfold SchedulerState.register
  split
  · rfl
  · rename_i htrigger
    split
    · rfl
    · rfl
    · rename_i hcreated hadded
      rw [htrigger, hcreated, hadded] at h
      cases h

theorem registers_fresh (hfresh : a.Fresh s) (hjob : job.id ∈ s.issued)
    (h : a.registers job = some id) : id ∉ s.issued ∧ id ≠ job.id := by
  rcases register_of_registers false s h with ⟨_, _, _, hadded, _⟩
  have hid : id ∉ s.issued := hfresh id hadded
  refine ⟨hid, ?_⟩
  intro heq
  rw [heq] at hid
  exact hid hjob

theorem register_issued (h : a.registers job = some id) :
    (s.register hasStore job a).1.issued = id :: s.issued := by
  rcases register_of_registers hasStore s h with ⟨trigger, _, _, _, hstate⟩
  rw [hstate]
  exact enter_issued

theorem register_sameAt (h : a.registers job = some id) (hne : id ≠ job.id) (hnew : other ≠ id)
    (hold : other ≠ job.id) : s.SameAt (s.register hasStore job a).1 other := by
  rcases register_of_registers hasStore s h with ⟨trigger, _, _, _, hstate⟩
  rw [hstate]
  constructor
  · dsimp only
    rw [enter_jobs hne, AList.lookup_erase_ne hold, JobTable.lookup_put_ne hnew]
  · dsimp only
    rw [enter_store hne]
    dsimp only
    have hkept : AList.lookup other (if hasStore = true ∧ a.forgotten.isOk = true
        then s.store.erase job.id else s.store) = s.store.lookup other := by
      split
      · exact AList.lookup_erase_ne hold
      · rfl
    split
    · rw [JobTable.lookup_put_ne hnew, hkept]
    · exact hkept
  · dsimp only
    rw [enter_registrations, AList.lookup_insert_ne hnew]

theorem register_new (hasStore : Bool) (s : SchedulerState) (h : a.registers job = some id)
    (hne : id ≠ job.id) : ∃ trigger, trigger.Meets job.schedule ∧
      (s.register hasStore job a).1.jobs.lookup id = some ⟨{ job with id := id }, rfl⟩ ∧
      (s.register hasStore job a).1.registrations.lookup id = some (job.runtimeJob trigger) := by
  rcases register_of_registers hasStore s h with ⟨trigger, _, htrigger, _, hstate⟩
  refine ⟨trigger, triggerAt_meets htrigger, ?_, ?_⟩
  · rw [hstate]
    dsimp only
    rw [enter_jobs hne, AList.lookup_erase_ne hne]
    exact JobTable.lookup_put_self s.jobs { job with id := id }
  · rw [hstate]
    dsimp only
    rw [enter_registrations, AList.lookup_insert]

theorem register_registered (hasStore : Bool) (s : SchedulerState) (h : a.registers job = some id)
    (hne : id ≠ job.id) : (s.register hasStore job a).1.Registered id := by
  rcases register_new hasStore s h hne with ⟨trigger, hmeets, hlookup, hregistration⟩
  exact ⟨_, _, hlookup, hregistration, rfl, rfl, hmeets⟩

theorem register_quietAt_new (h : a.registers job = some id) (hne : id ≠ job.id)
    (hunstored : id ∉ s.store) :
    (s.register hasStore job a).1.QuietAt id ↔
      (hasStore = true → a.saved.isOk = true → job.enabled = true) := by
  rcases register_new hasStore s h hne with ⟨trigger, _, _, hregistration⟩
  rcases register_of_registers hasStore s h with ⟨trigger', _, _, _, hstate⟩
  unfold SchedulerState.QuietAt
  rw [hregistration, hstate]
  dsimp only
  rw [enter_store hne]
  dsimp only
  split
  · rename_i hsaved
    have hlookup := fun kept : JobTable =>
      JobTable.lookup_put_self kept { job with id := id }.stored
    constructor
    · intro hquiet _ _
      cases henabled : job.enabled with
      | true => rfl
      | false => exact absurd (hquiet _ (hlookup _) henabled) (by simp)
    · intro henabled job' hjob' hdisabled
      have hstored := (hlookup _).symm.trans hjob'
      cases hstored
      have hfalse : job.enabled = false := hdisabled
      rw [henabled hsaved.1 hsaved.2] at hfalse
      cases hfalse
  · rename_i hsaved
    have hnone : AList.lookup id (if hasStore = true ∧ a.forgotten.isOk = true
        then s.store.erase job.id else s.store) = none := by
      apply AList.lookup_eq_none.mpr
      split
      · exact fun hmem => hunstored (AList.mem_erase.mp hmem).2
      · exact hunstored
    rw [hnone]
    constructor
    · exact fun _ hstore hok => absurd ⟨hstore, hok⟩ hsaved
    · intro _ _ hlookup
      cases hlookup

theorem register_quietAt_old (h : a.registers job = some id) (hne : id ≠ job.id) :
    (s.register hasStore job a).1.QuietAt job.id ↔
      hasStore = true ∧ a.forgotten.isOk = true ∨ s.QuietAt job.id := by
  rcases register_of_registers hasStore s h with ⟨trigger, _, _, _, hstate⟩
  have hregistrations : AList.lookup job.id (s.registrations.insert id (job.runtimeJob trigger)) =
      s.registrations.lookup job.id := AList.lookup_insert_ne hne.symm
  have hput : ∀ kept : JobTable, AList.lookup job.id (if hasStore = true ∧ a.saved.isOk = true
      then kept.put { job with id := id }.stored else kept) = kept.lookup job.id := by
    intro kept
    split
    · exact JobTable.lookup_put_ne hne.symm
    · rfl
  unfold SchedulerState.QuietAt
  rw [hstate]
  dsimp only
  rw [enter_registrations, hregistrations, enter_store hne]
  dsimp only
  rw [hput]
  split
  · rename_i hforgotten
    rw [AList.lookup_erase]
    refine iff_of_true (fun kept hkept => ?_) (.inl hforgotten)
    cases hkept
  · rename_i hforgotten
    exact (or_iff_right hforgotten).symm

theorem register_quiet_iff (hunstored : id ∉ s.store) (h : a.registers job = some id)
    (hne : id ≠ job.id) (hquiet : ∀ other, other ≠ job.id → s.QuietAt other) :
    (s.register hasStore job a).1.Quiet ↔
      (hasStore = true ∧ a.forgotten.isOk = true ∨ s.QuietAt job.id) ∧
        (hasStore = true → a.saved.isOk = true → job.enabled = true) := by
  constructor
  · intro hafter
    exact ⟨(register_quietAt_old h hne).mp (hafter job.id),
      (register_quietAt_new h hne hunstored).mp (hafter id)⟩
  · intro ⟨hold, hnew⟩ other
    by_cases hid : other = id
    · rw [hid]
      exact (register_quietAt_new h hne hunstored).mpr hnew
    · by_cases hjob : other = job.id
      · rw [hjob]
        exact (register_quietAt_old h hne).mpr hold
      · exact (register_sameAt h hne hid hjob).quietAt_iff.mpr (hquiet other hjob)

theorem register_sound (hasStore : Bool) (hsound : s.Sound) (hfresh : a.Fresh s)
    (hjob : job.id ∈ s.issued) : (s.register hasStore job a).1.Sound := by
  cases h : a.registers job with
  | none =>
      rw [register_of_none hasStore s h]
      exact hsound
  | some id =>
      rcases registers_fresh hfresh hjob h with ⟨hid, hne⟩
      have hissued := @register_issued hasStore s job id a h
      have hsame := fun other => @register_sameAt hasStore s job id other a h hne
      have hmem : ∀ (p p' : Prop) (other : Uuid), (other ≠ id → other ≠ job.id → (p' ↔ p)) →
          (p → other ∈ s.issued) → p' → other ∈ id :: s.issued := by
        intro p p' other hiff hold hp'
        by_cases hnew : other = id
        · rw [hnew]
          exact List.mem_cons_self
        · by_cases holdId : other = job.id
          · rw [holdId]
            exact List.mem_cons_of_mem _ hjob
          · exact List.mem_cons_of_mem _ (hold ((hiff hnew holdId).mp hp'))
      constructor
      · exact register_idle hasStore job a hsound.idle
      · rw [hissued]
        intro other
        refine hmem _ _ other (fun hnew hold => ?_) (hsound.jobs other)
        rw [← AList.lookup_isSome, ← AList.lookup_isSome, (hsame other hnew hold).jobs]
      · rw [hissued]
        intro other
        refine hmem _ _ other (fun hnew hold => ?_) (hsound.store other)
        rw [← AList.lookup_isSome, ← AList.lookup_isSome, (hsame other hnew hold).store]
      · rw [hissued]
        intro other
        refine hmem _ _ other (fun hnew hold => ?_) (hsound.registrations other)
        rw [← AList.lookup_isSome, ← AList.lookup_isSome, (hsame other hnew hold).registrations]
      · intro other job' registration hlookup hregistration
        by_cases hnew : other = id
        · subst hnew
          rcases register_new hasStore s h hne with ⟨trigger, hmeets, hjobs, hruntime⟩
          rw [hjobs] at hlookup
          rw [hruntime] at hregistration
          cases hlookup
          cases hregistration
          exact ⟨rfl, rfl, hmeets⟩
        · by_cases hold : other = job.id
          · subst hold
            rcases register_of_registers hasStore s h with ⟨trigger, _, _, _, hstate⟩
            rw [hstate] at hlookup
            dsimp only at hlookup
            rw [enter_jobs hne, AList.lookup_erase] at hlookup
            cases hlookup
          · exact (hsame other hnew hold).fires hsound job' registration hlookup hregistration

end Enter

/-! ## What a firing changes -/

def CronJob.finishes (job : CronJob) (success : Bool) : Bool :=
  if success then job.oneShot else job.exhausted

namespace FiringAnswers

def unregisters (a : FiringAnswers) (job : CronJob) : Bool :=
  !a.success && job.exhausted && a.unregistered.isOk

/-- The identifier under which a failed job is tried again. -/
def retried (a : FiringAnswers) (hasStore : Bool) (job : CronJob) : Option Uuid :=
  if (storeResult hasStore a.saved).isOk && job.retries a.success then
    a.retry.registers (job.retryJob a)
  else none

end FiringAnswers

/-- A one-shot job of the runtime fires once. -/
def SchedulerState.usedUp (s : SchedulerState) (id : Uuid) : SchedulerState :=
  match s.registrations.lookup id with
  | some ⟨.oneShot _ _, _, _⟩ => { s with registrations := s.registrations.erase id }
  | _ => s

section Firing

variable {hasStore : Bool} {s : SchedulerState} {job : CronJob} {id other : Uuid}
  {a : FiringAnswers}

theorem recordFiring_registrations :
    (s.recordFiring hasStore id job a).registrations =
      if a.unregisters job = true then s.registrations.erase id else s.registrations := by
  unfold SchedulerState.recordFiring SchedulerState.save SchedulerState.unregister
    FiringAnswers.unregisters
  dsimp only
  cases (!a.success && job.exhausted) <;> cases a.unregistered.isOk <;> (try split) <;> rfl

theorem recordFiring_jobs :
    (s.recordFiring hasStore id job a).jobs = s.jobs.put (job.afterRun a.time a.success) := by
  unfold SchedulerState.recordFiring SchedulerState.save SchedulerState.unregister
  dsimp only
  split <;> split <;> (try split) <;> rfl

theorem recordFiring_store :
    (s.recordFiring hasStore id job a).store =
      if hasStore = true ∧ a.saved.isOk = true then
        s.store.put (job.afterRun a.time a.success).stored
      else s.store := by
  unfold SchedulerState.recordFiring SchedulerState.save SchedulerState.unregister
  dsimp only
  split <;> split <;> (try split) <;> rfl

theorem stored_id (job : CronJob) : job.stored.id = job.id := rfl

theorem recordFiring_sameAt (hjob : job.id = id) (hne : other ≠ id) :
    s.SameAt (s.recordFiring hasStore id job a) other := by
  have hafter : other ≠ (job.afterRun a.time a.success).id := by rwa [afterRun_id, hjob]
  constructor
  · rw [recordFiring_jobs, JobTable.lookup_put_ne hafter]
  · rw [recordFiring_store]
    split
    · exact JobTable.lookup_put_ne hafter
    · rfl
  · rw [recordFiring_registrations]
    split
    · exact AList.lookup_erase_ne hne
    · rfl

theorem fires_afterRun_iff {registration : RuntimeJob} (time : DateTime) (success : Bool) :
    registration.Fires (job.afterRun time success) ↔ registration.Fires job := by
  have hparts : (job.afterRun time success).name = job.name ∧
      (job.afterRun time success).payload = job.payload ∧
      (job.afterRun time success).schedule = job.schedule := by
    unfold CronJob.afterRun
    split <;> exact ⟨rfl, rfl, rfl⟩
  constructor
  · intro ⟨hname, hpayload, hmeets⟩
    rw [hparts.1] at hname
    rw [hparts.2.1] at hpayload
    rw [hparts.2.2] at hmeets
    exact ⟨hname, hpayload, hmeets⟩
  · intro ⟨hname, hpayload, hmeets⟩
    refine ⟨?_, ?_, ?_⟩
    · rw [hparts.1]
      exact hname
    · rw [hparts.2.1]
      exact hpayload
    · rw [hparts.2.2]
      exact hmeets

theorem recordFiring_registered_iff (hjob : job.id = id)
    (hfires : ∀ registration, s.registrations.lookup id = some registration →
      registration.Fires job) :
    (s.recordFiring hasStore id job a).Registered id ↔
      id ∈ s.registrations ∧ a.unregisters job = false := by
  have hafter : (job.afterRun a.time a.success).id = id := by rw [afterRun_id, hjob]
  rcases JobTable.lookup_put s.jobs hafter with ⟨found, hfound, heq⟩
  unfold SchedulerState.Registered
  rw [recordFiring_jobs, recordFiring_registrations, hfound]
  cases hunregisters : a.unregisters job with
  | true =>
      rw [if_pos rfl, AList.lookup_erase]
      simp
  | false =>
      rw [if_neg Bool.false_ne_true]
      constructor
      · intro ⟨_, registration, _, hregistration, _⟩
        refine ⟨AList.lookup_isSome.mp ?_, rfl⟩
        rw [hregistration]
        rfl
      · intro ⟨hmem, _⟩
        rcases Option.isSome_iff_exists.mp (AList.lookup_isSome.mpr hmem) with
          ⟨registration, hregistration⟩
        refine ⟨found, registration, rfl, hregistration, ?_⟩
        rw [heq]
        exact (fires_afterRun_iff _ _).mpr (hfires registration hregistration)

theorem recordFiring_quietAt_iff (hjob : job.id = id) (hquiet : s.QuietAt id) :
    (s.recordFiring hasStore id job a).QuietAt id ↔
      (hasStore = true → a.saved.isOk = true → (job.afterRun a.time a.success).enabled = true ∨
        id ∉ s.registrations ∨ a.unregisters job = true) := by
  have hnone : AList.lookup id (if a.unregisters job = true then s.registrations.erase id
      else s.registrations) = none ↔ id ∉ s.registrations ∨ a.unregisters job = true := by
    split
    · rename_i hunregisters
      rw [AList.lookup_erase]
      exact iff_of_true rfl (.inr hunregisters)
    · rename_i hunregisters
      rw [AList.lookup_eq_none]
      exact (or_iff_left hunregisters).symm
  unfold SchedulerState.QuietAt
  rw [recordFiring_store, recordFiring_registrations, hnone]
  split
  · rename_i hsaved
    have hafter : (job.afterRun a.time a.success).stored.id = id := by
      rw [stored_id, afterRun_id, hjob]
    rcases JobTable.lookup_put s.store hafter with ⟨found, hfound, heq⟩
    rw [hfound]
    have henabled : found.1.enabled = (job.afterRun a.time a.success).enabled := by rw [heq]; rfl
    constructor
    · intro h _ _
      cases hrun : (job.afterRun a.time a.success).enabled with
      | true => exact .inl rfl
      | false => exact .inr (h found rfl (henabled.trans hrun))
    · intro h job' hjob' hdisabled
      cases hjob'
      rw [henabled] at hdisabled
      refine (h hsaved.1 hsaved.2).resolve_left ?_
      rw [hdisabled]
      exact Bool.false_ne_true
  · rename_i hsaved
    refine iff_of_true ?_ fun hstore hok => absurd ⟨hstore, hok⟩ hsaved
    intro job' hjob' hdisabled
    exact .inl (AList.lookup_eq_none.mp (hquiet job' hjob' hdisabled))

theorem recordFiring_sound (hsound : s.Sound) (hjob : job.id = id) (hid : id ∈ s.issued)
    (hfires : ∀ registration, s.registrations.lookup id = some registration →
      registration.Fires job) :
    (s.recordFiring hasStore id job a).Sound := by
  have hafter : (job.afterRun a.time a.success).id = id := by rw [afterRun_id, hjob]
  have hput : ∀ (jobs : JobTable) (job' : CronJob), job'.id = id → (∀ x ∈ jobs, x ∈ s.issued) →
      ∀ x ∈ jobs.put job', x ∈ s.issued := by
    intro jobs job' hjob' hjobs x hx
    rcases JobTable.mem_put_iff.mp hx with hnew | hold
    · rwa [hnew, hjob']
    · exact hjobs x hold
  constructor
  · exact recordFiring_idle hsound.idle
  · rw [recordFiring_jobs, recordFiring_issued]
    exact hput _ _ hafter hsound.jobs
  · rw [recordFiring_store, recordFiring_issued]
    split
    · exact hput _ _ hafter hsound.store
    · exact hsound.store
  · rw [recordFiring_registrations, recordFiring_issued]
    split
    · exact fun x hx => hsound.registrations x (AList.mem_erase.mp hx).2
    · exact hsound.registrations
  · intro x job' registration hlookup hregistration
    by_cases hx : x = id
    · subst hx
      rcases JobTable.lookup_put s.jobs hafter with ⟨found, hfound, heq⟩
      rw [recordFiring_jobs, hfound] at hlookup
      cases hlookup
      rw [heq, fires_afterRun_iff]
      apply hfires registration
      rw [recordFiring_registrations] at hregistration
      split at hregistration
      · rw [AList.lookup_erase] at hregistration
        cases hregistration
      · exact hregistration
    · exact (recordFiring_sameAt hjob hx).fires hsound job' registration hlookup hregistration

theorem retryJob_id (job : CronJob) (a : FiringAnswers) : (job.retryJob a).id = job.id :=
  afterRun_id job a.time a.success

theorem retryJob_enabled (h : job.retries a.success = true) :
    (job.retryJob a).enabled = job.enabled := by
  unfold CronJob.retries at h
  unfold CronJob.retryJob CronJob.afterRun
  cases hsuccess : a.success with
  | true => simp [hsuccess] at h
  | false =>
      cases hexhausted : job.exhausted with
      | true => simp [hexhausted] at h
      | false => simp

theorem updateStatus_of_none (hlookup : s.jobs.lookup id = none) :
    (s.updateStatus hasStore id a).1 = s := by
  unfold SchedulerState.updateStatus
  rw [hlookup]

theorem updateStatus_of_retried {job : JobOf id} (hlookup : s.jobs.lookup id = some job)
    (h : a.retried hasStore job.1 = some other) :
    job.1.retries a.success = true ∧ a.retry.registers (job.1.retryJob a) = some other ∧
      (s.updateStatus hasStore id a).1 = ((s.recordFiring hasStore id job.1 a).register hasStore
        (job.1.retryJob a) a.retry).1 := by
  unfold FiringAnswers.retried at h
  split at h
  · rename_i hneeded
    rcases Bool.and_eq_true_iff.mp hneeded with ⟨hsaved, hretries⟩
    refine ⟨hretries, h, ?_⟩
    unfold SchedulerState.updateStatus
    rw [hlookup]
    dsimp only
    rw [hretries]
    cases hresult : storeResult hasStore a.saved with
    | error e =>
        rw [hresult] at hsaved
        cases hsaved
    | ok _ => rfl
  · cases h

theorem updateStatus_of_kept {job : JobOf id} (hlookup : s.jobs.lookup id = some job)
    (h : a.retried hasStore job.1 = none) :
    (s.updateStatus hasStore id a).1 = s.recordFiring hasStore id job.1 a := by
  unfold SchedulerState.updateStatus
  rw [hlookup]
  dsimp only
  unfold FiringAnswers.retried at h
  cases hresult : storeResult hasStore a.saved with
  | error e => rfl
  | ok _ =>
      cases hretries : job.1.retries a.success with
      | false => rfl
      | true =>
          rw [hresult, hretries] at h
          exact register_of_none hasStore _ h

theorem usedUp_sameAt (hne : other ≠ id) : s.SameAt (s.usedUp id) other := by
  unfold SchedulerState.usedUp
  split
  · exact ⟨rfl, rfl, AList.lookup_erase_ne hne⟩
  · exact ⟨rfl, rfl, rfl⟩

theorem usedUp_eq (s : SchedulerState) (id : Uuid) : (s.usedUp id).jobs = s.jobs ∧
    (s.usedUp id).store = s.store ∧ (s.usedUp id).issued = s.issued ∧
    ((s.usedUp id).registrations = s.registrations ∨
      (s.usedUp id).registrations = s.registrations.erase id) := by
  unfold SchedulerState.usedUp
  split
  · exact ⟨rfl, rfl, rfl, .inr rfl⟩
  · exact ⟨rfl, rfl, rfl, .inl rfl⟩

end Firing

end BenShu.Scheduler
