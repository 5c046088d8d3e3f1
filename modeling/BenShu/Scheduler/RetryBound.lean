import BenShu.Scheduler.PromisesKept

/-!
# Retries of a one-shot job

A job gets a new name whenever it is registered again. Its failures are counted in the
entry that is kept under its current name, and the counter bounds the runs under all of its
names, as long as no entry stays behind that a restart registers besides.
-/

namespace BenShu.Scheduler

open Protocol (DateTime)

/-- The scheduler with all names that one job has had and those under which it was run. -/
structure JobLife where
  state : SchedulerState := {}
  names : List Uuid := []
  runs : List Uuid := []

def renewed (names : List Uuid) (id : Uuid) (registered : Option Uuid) : List Uuid :=
  if id ∈ names then registered.toList ++ names else names

section Lives

variable (hasStore : Bool) (original : Uuid)

/-- A new job has the name that it was made with, and the one it is registered under. -/
def namesAfterAdd (names : List Uuid) (job : CronJob) (a : RegistrationAnswers) : List Uuid :=
  if job.id = original then renewed [job.id] job.id (a.registers job) else names

/-- A job that failed has the name under which it is tried again. -/
def namesAfterRun {id : Uuid} (names : List Uuid) (found : Option (JobOf id)) (a : FiringAnswers) :
    List Uuid :=
  match found with
  | none => names
  | some job => renewed names id (a.retried hasStore job.1)

namespace SchedulerCall

def namesAfter (life : JobLife) : SchedulerCall → List Uuid
  | .addJob name schedule payload id a =>
      namesAfterAdd original life.names
        { id := id, name := name, schedule := schedule, payload := payload } a
  | .triggerConsolidation agentId limit now id a =>
      namesAfterAdd original life.names
        { id := id, name := "manual_consolidation", schedule := .atTime now
          payload := .consolidateMemory limit agentId none } a
  | .updateJobStatus id a | .fire id _ a =>
      namesAfterRun hasStore life.names (life.state.jobs.lookup id) a
  | .restart (some attempts) =>
      (reached hasStore attempts).foldl
        (fun names attempt => renewed names attempt.1.id (attempt.2.registers attempt.1))
        life.names
  | .removeJob _ _ _ | .restart none => life.names

def runsAfter (life : JobLife) : SchedulerCall → List Uuid
  | .fire id _ _ => if id ∈ life.names then id :: life.runs else life.runs
  | _ => life.runs

end SchedulerCall

def JobLife.perform (life : JobLife) (call : SchedulerCall) : JobLife where
  state := (call.perform hasStore life.state).1
  names := call.namesAfter hasStore original life
  runs := call.runsAfter life

def lifeAfter (calls : List SchedulerCall) : JobLife :=
  calls.foldl (JobLife.perform hasStore original) {}

/-- The job is one-shot and all of its runs fail, and only its runs report its status. -/
def SchedulerCall.Failing (life : JobLife) : SchedulerCall → Prop
  | .addJob _ schedule _ id _ => id = original → ∃ time, schedule = .atTime time
  | .updateJobStatus id _ => id ∉ life.names
  | .fire id _ a => id ∈ life.names → a.success = false
  | _ => True

/-- A restart that registers the job again takes its old entry out of the store, and finds
the time of a job that has run behind it. -/
def SchedulerCall.Replaces (life : JobLife) : SchedulerCall → Prop
  | .restart (some attempts) => ∀ attempt ∈ reached hasStore attempts,
      attempt.1.id ∈ life.names → (attempt.2.registers attempt.1).isSome = true →
        attempt.2.forgotten.isOk = true ∧ attempt.1.id ∉ life.runs
  | _ => True

end Lives

/-! ## What is kept of the job -/

/-- The failures that are counted are as many as the runs, and there is one left. -/
structure CronJob.Pending (job : CronJob) (runs : Nat) : Prop where
  oneShot : job.oneShot = true
  maxRetries : job.maxRetries = 3
  counted : runs ≤ job.errorCount.toNat
  left : job.errorCount.toNat ≤ 3

/-- The job is kept under its current name only. Under an old name the store may have what
has been run. -/
structure HeldAs (s : SchedulerState) (names runs : List Uuid) (current : Uuid) : Prop where
  mem : current ∈ names
  issued : ∀ x ∈ names, x ∈ s.issued
  ran : ∀ x ∈ runs, x ∈ names
  jobs : ∀ x ∈ names, x ∈ s.jobs → x = current
  store : ∀ x ∈ names, x ∈ s.store → x = current ∨ x ∈ runs
  registrations : ∀ x ∈ names, x ∈ s.registrations → x = current ∧ x ∉ runs
  trigger : ∀ registration, s.registrations.lookup current = some registration →
    ∃ made duration, registration.trigger = .oneShot made duration
  maxRetries : ∀ job : JobOf current, s.jobs.lookup current = some job → job.1.maxRetries = 3
  bounded : runs.length ≤ 4
  pending : current ∉ runs → runs.length ≤ 3 ∧ ∀ job : JobOf current,
    s.jobs.lookup current = some job ∨ s.store.lookup current = some job →
      job.1.Pending runs.length

/-- The second state has nothing else of the job than the first one. -/
structure SchedulerState.LessAt (s s' : SchedulerState) (id : Uuid) : Prop where
  jobs : ∀ job, s'.jobs.lookup id = some job → s.jobs.lookup id = some job
  store : ∀ job, s'.store.lookup id = some job → s.store.lookup id = some job
  registrations : ∀ registration, s'.registrations.lookup id = some registration →
    s.registrations.lookup id = some registration

variable {hasStore : Bool} {s s' : SchedulerState} {names runs : List Uuid} {current id : Uuid}

namespace SchedulerState

theorem SameAt.less (h : s.SameAt s' id) : s.LessAt s' id := by
  refine ⟨fun job => ?_, fun job => ?_, fun registration => ?_⟩
  · rw [h.jobs]
    exact fun hlookup => hlookup
  · rw [h.store]
    exact fun hlookup => hlookup
  · rw [h.registrations]
    exact fun hlookup => hlookup

theorem LessAt.trans {s'' : SchedulerState} (h : s.LessAt s' id) (h' : s'.LessAt s'' id) :
    s.LessAt s'' id :=
  ⟨fun job hjob => h.jobs job (h'.jobs job hjob),
    fun job hjob => h.store job (h'.store job hjob),
    fun registration hregistration =>
      h.registrations registration (h'.registrations registration hregistration)⟩

theorem LessAt.mem_jobs (h : s.LessAt s' id) (hid : id ∈ s'.jobs) : id ∈ s.jobs := by
  rcases Option.isSome_iff_exists.mp (AList.lookup_isSome.mpr hid) with ⟨job, hjob⟩
  rw [← AList.lookup_isSome, h.jobs job hjob]
  rfl

theorem LessAt.mem_store (h : s.LessAt s' id) (hid : id ∈ s'.store) : id ∈ s.store := by
  rcases Option.isSome_iff_exists.mp (AList.lookup_isSome.mpr hid) with ⟨job, hjob⟩
  rw [← AList.lookup_isSome, h.store job hjob]
  rfl

theorem LessAt.mem_registrations (h : s.LessAt s' id) (hid : id ∈ s'.registrations) :
    id ∈ s.registrations := by
  rcases Option.isSome_iff_exists.mp (AList.lookup_isSome.mpr hid) with ⟨registration, hlookup⟩
  rw [← AList.lookup_isSome, h.registrations registration hlookup]
  rfl

end SchedulerState

theorem HeldAs.of_less (h : HeldAs s names runs current) (hless : ∀ x ∈ names, s.LessAt s' x)
    (hissued : ∀ x ∈ s.issued, x ∈ s'.issued) : HeldAs s' names runs current := by
  have hcurrent := hless current h.mem
  refine ⟨h.mem, fun x hx => hissued x (h.issued x hx), h.ran, ?_, ?_, ?_, ?_, ?_, h.bounded, ?_⟩
  · exact fun x hx hjobs => h.jobs x hx ((hless x hx).mem_jobs hjobs)
  · exact fun x hx hstore => h.store x hx ((hless x hx).mem_store hstore)
  · exact fun x hx hmem => h.registrations x hx ((hless x hx).mem_registrations hmem)
  · exact fun registration hlookup => h.trigger registration (hcurrent.registrations _ hlookup)
  · exact fun job hlookup => h.maxRetries job (hcurrent.jobs job hlookup)
  · intro hwaits
    rcases h.pending hwaits with ⟨hleft, hpending⟩
    refine ⟨hleft, fun job hlookup => hpending job ?_⟩
    exact hlookup.imp (hcurrent.jobs job) (hcurrent.store job)

/-! ## A registration -/

section Register

variable {job : CronJob} {a : RegistrationAnswers} {new : Uuid}

/-- Under its old name a job is kept where its removal from the store fails. -/
theorem register_old (h : a.registers job = some new) (hne : new ≠ job.id) :
    job.id ∉ (s.register hasStore job a).1.jobs ∧
      (job.id ∈ (s.register hasStore job a).1.store →
        job.id ∈ s.store ∧ ¬(hasStore = true ∧ a.forgotten.isOk = true)) ∧
      (s.register hasStore job a).1.registrations.lookup job.id =
        s.registrations.lookup job.id := by
  rcases register_of_registers hasStore s h with ⟨trigger, _, _, _, hstate⟩
  rw [hstate]
  dsimp only
  rw [enter_jobs hne, enter_store hne, enter_registrations, AList.lookup_insert_ne hne.symm]
  refine ⟨fun hmem => (AList.mem_erase.mp hmem).1 rfl, ?_, rfl⟩
  have hput : ∀ kept : JobTable, job.id ∈ (if hasStore = true ∧ a.saved.isOk = true
      then kept.put ({ job with id := new } : CronJob).stored else kept) → job.id ∈ kept := by
    intro kept hmem
    split at hmem
    · exact (JobTable.mem_put_iff.mp hmem).resolve_left hne.symm
    · exact hmem
  intro hmem
  have hkept := hput _ hmem
  split at hkept
  · exact absurd rfl (AList.mem_erase.mp hkept).1
  · rename_i hforgotten
    exact ⟨hkept, hforgotten⟩

theorem register_new_store (h : a.registers job = some new) (hne : new ≠ job.id)
    (hunstored : new ∉ s.store) {found : JobOf new}
    (hfound : (s.register hasStore job a).1.store.lookup new = some found) :
    found.1 = ({ job with id := new } : CronJob).stored := by
  rcases register_of_registers hasStore s h with ⟨trigger, _, _, _, hstate⟩
  rw [hstate] at hfound
  dsimp only at hfound
  rw [enter_store hne] at hfound
  dsimp only at hfound
  split at hfound
  · have hput := fun kept : JobTable =>
      JobTable.lookup_put_self kept ({ job with id := new } : CronJob).stored
    have hstored := (hput _).symm.trans hfound
    cases hstored
    rfl
  · have hmem : new ∈ (if hasStore = true ∧ a.forgotten.isOk = true
        then s.store.erase job.id else s.store) := by
      rw [← AList.lookup_isSome, hfound]
      rfl
    split at hmem
    · exact absurd (AList.mem_erase.mp hmem).2 hunstored
    · exact absurd hmem hunstored

theorem stored_pending {runs : Nat} (h : job.Pending runs) :
    ({ job with id := id } : CronJob).stored.Pending runs := by
  refine ⟨?_, h.maxRetries, h.counted, h.left⟩
  have honeShot := h.oneShot
  unfold CronJob.oneShot at honeShot ⊢
  unfold CronJob.stored JobSchedule.stored
  dsimp only
  cases hschedule : job.schedule with
  | atTime time => rfl
  | _ => simp [hschedule] at honeShot

theorem meets_oneShot {trigger : Trigger} (hmeets : trigger.Meets job.schedule)
    (honeShot : job.oneShot = true) : ∃ made duration, trigger = .oneShot made duration := by
  unfold CronJob.oneShot at honeShot
  cases hschedule : job.schedule with
  | atTime time =>
      rw [hschedule] at hmeets
      cases trigger with
      | oneShot made duration => exact ⟨made, duration, rfl⟩
      | _ => cases hmeets
  | _ => simp [hschedule] at honeShot

/-- A registration of the job moves it to a new name, if nothing that was not run stays
behind in the store. -/
theorem HeldAs.register (h : HeldAs s names runs current) (hjob : job.id = current)
    (hsound : s.Sound)
    (hregisters : a.registers job = some new) (hnew : new ∉ s.issued)
    (hleft : runs.length ≤ 3) (hpending : job.Pending runs.length)
    (hunregistered : current ∉ s.registrations)
    (hreplaced : current ∈ (s.register hasStore job a).1.store → current ∈ runs) :
    HeldAs (s.register hasStore job a).1 (new :: names) runs new := by
  subst hjob
  have hunnamed : new ∉ names := fun hmem => hnew (h.issued new hmem)
  have hne : new ≠ job.id := fun heq => hunnamed (heq ▸ h.mem)
  have hunstored : new ∉ s.store := fun hmem => hnew (hsound.store new hmem)
  rcases register_new hasStore s hregisters hne with ⟨trigger, hmeets, hjobs, hregistration⟩
  rcases @register_old hasStore s job a new hregisters hne with ⟨hmoved, _, hsame⟩
  have hothers : ∀ x ∈ names, x ≠ job.id → s.LessAt (s.register hasStore job a).1 x := by
    intro x hx hdiffer
    refine (register_sameAt hregisters hne ?_ hdiffer).less
    intro heq
    rw [heq] at hx
    exact hunnamed hx
  constructor
  · exact List.mem_cons_self
  · rw [register_issued hregisters]
    intro x hx
    rcases List.mem_cons.mp hx with hx | hx
    · rw [hx]
      exact List.mem_cons_self
    · exact List.mem_cons_of_mem _ (h.issued x hx)
  · exact fun x hx => List.mem_cons_of_mem _ (h.ran x hx)
  · intro x hx hmem
    rcases List.mem_cons.mp hx with hx | hx
    · exact hx
    · by_cases hdiffer : x = job.id
      · rw [hdiffer] at hmem
        exact absurd hmem hmoved
      · exact absurd (h.jobs x hx ((hothers x hx hdiffer).mem_jobs hmem)) hdiffer
  · intro x hx hmem
    rcases List.mem_cons.mp hx with hx | hx
    · exact .inl hx
    · by_cases hdiffer : x = job.id
      · rw [hdiffer] at hmem ⊢
        exact .inr (hreplaced hmem)
      · have hold := h.store x hx ((hothers x hx hdiffer).mem_store hmem)
        exact .inr (hold.resolve_left hdiffer)
  · intro x hx hmem
    rcases List.mem_cons.mp hx with hx | hx
    · rw [hx]
      exact ⟨rfl, fun hrun => hunnamed (h.ran new hrun)⟩
    · by_cases hdiffer : x = job.id
      · rw [hdiffer, ← AList.lookup_isSome, hsame, AList.lookup_isSome] at hmem
        exact absurd hmem hunregistered
      · exact absurd (h.registrations x hx ((hothers x hx hdiffer).mem_registrations hmem)).1
          hdiffer
  · intro registration hlookup
    rw [hregistration] at hlookup
    cases hlookup
    exact meets_oneShot hmeets hpending.oneShot
  · intro found hlookup
    rw [hjobs] at hlookup
    cases hlookup
    exact hpending.maxRetries
  · exact h.bounded
  · intro _
    refine ⟨hleft, ?_⟩
    intro found hlookup
    rcases hlookup with hlookup | hlookup
    · rw [hjobs] at hlookup
      cases hlookup
      exact ⟨hpending.oneShot, hpending.maxRetries, hpending.counted, hpending.left⟩
    · rw [register_new_store hregisters hne hunstored hlookup]
      exact stored_pending hpending

end Register

/-! ## A run of the job -/

section Run

variable {a : FiringAnswers}

theorem usedUp_less (s : SchedulerState) (id x : Uuid) : s.LessAt (s.usedUp id) x := by
  rcases usedUp_eq s id with ⟨hjobs, hstore, _, hregistrations⟩
  refine ⟨fun job => ?_, fun job => ?_, fun registration => ?_⟩
  · rw [hjobs]
    exact fun hlookup => hlookup
  · rw [hstore]
    exact fun hlookup => hlookup
  · rcases hregistrations with hsame | herased
    · rw [hsame]
      exact fun hlookup => hlookup
    · rw [herased]
      intro hlookup
      by_cases hx : x = id
      · rw [hx, AList.lookup_erase] at hlookup
        cases hlookup
      · rwa [AList.lookup_erase_ne hx] at hlookup

theorem usedUp_unregistered {registration : RuntimeJob}
    (hregistration : s.registrations.lookup id = some registration)
    (htrigger : ∃ made duration, registration.trigger = .oneShot made duration) :
    id ∉ (s.usedUp id).registrations := by
  rcases registration with ⟨trigger, name, payload⟩
  rcases htrigger with ⟨made, duration, heq⟩
  dsimp only at heq
  unfold SchedulerState.usedUp
  rw [hregistration, heq]
  dsimp only
  exact fun hmem => (AList.mem_erase.mp hmem).1 rfl

theorem HeldAs.ran_current {registration : RuntimeJob} (h : HeldAs s names runs current)
    (hregistration : s.registrations.lookup current = some registration) (hwaits : current ∉ runs) :
    HeldAs (s.usedUp current) names (current :: runs) current := by
  have hless := h.of_less (fun x _ => usedUp_less s current x)
    (by rw [(usedUp_eq s current).2.2.1]; exact fun x hx => hx)
  have hleft := (h.pending hwaits).1
  refine { hless with ran := ?_, store := ?_, registrations := ?_, bounded := ?_, pending := ?_ }
  · intro x hx
    rcases List.mem_cons.mp hx with hx | hx
    · rw [hx]
      exact h.mem
    · exact h.ran x hx
  · exact fun x hx hmem => (hless.store x hx hmem).imp id fun hrun => List.mem_cons_of_mem _ hrun
  · intro x hx hmem
    have hcurrent := (hless.registrations x hx hmem).1
    rw [hcurrent] at hmem
    exact absurd hmem (usedUp_unregistered hregistration (h.trigger _ hregistration))
  · rw [List.length_cons]
    omega
  · exact fun hnot => absurd List.mem_cons_self hnot

theorem recordFiring_held {job : JobOf current} (h : HeldAs s names (current :: runs) current)
    (hfailed : a.success = false) (hlookup : s.jobs.lookup current = some job)
    (hunregistered : current ∉ s.registrations) :
    HeldAs (s.recordFiring hasStore current job.1 a) names (current :: runs) current := by
  have hothers : ∀ x ∈ names, x ≠ current →
      s.LessAt (s.recordFiring hasStore current job.1 a) x :=
    fun x _ hdiffer => (recordFiring_sameAt job.2 hdiffer).less
  have hafter : (job.1.afterRun a.time a.success).id = current := by rw [afterRun_id, job.2]
  have hstays : current ∉ (s.recordFiring hasStore current job.1 a).registrations := by
    rw [recordFiring_registrations]
    split
    · exact fun hmem => (AList.mem_erase.mp hmem).1 rfl
    · exact hunregistered
  refine ⟨h.mem, ?_, h.ran, ?_, ?_, ?_, ?_, ?_, h.bounded, ?_⟩
  · rw [recordFiring_issued]
    exact h.issued
  · intro x hx hmem
    by_cases hdiffer : x = current
    · exact hdiffer
    · exact h.jobs x hx ((hothers x hx hdiffer).mem_jobs hmem)
  · intro x hx hmem
    by_cases hdiffer : x = current
    · exact .inl hdiffer
    · exact h.store x hx ((hothers x hx hdiffer).mem_store hmem)
  · intro x hx hmem
    by_cases hdiffer : x = current
    · rw [hdiffer] at hmem
      exact absurd hmem hstays
    · exact h.registrations x hx ((hothers x hx hdiffer).mem_registrations hmem)
  · intro registration hregistration
    refine absurd ?_ hstays
    rw [← AList.lookup_isSome, hregistration]
    rfl
  · intro found hfound
    rcases JobTable.lookup_put s.jobs hafter with ⟨kept, hkept, heq⟩
    rw [recordFiring_jobs, hkept] at hfound
    cases hfound
    rw [heq, hfailed]
    exact h.maxRetries job hlookup
  · exact fun hnot => absurd List.mem_cons_self hnot

theorem retryJob_pending {job : CronJob} {count : Nat} (h : job.Pending count)
    (hfailed : a.success = false) (hretries : job.retries a.success = true) :
    (job.retryJob a).Pending (count + 1) := by
  have hleft := h.left
  have hcounted := h.counted
  have hnotExhausted : job.exhausted = false := by
    unfold CronJob.retries at hretries
    simp only [Bool.and_eq_true, Bool.not_eq_true'] at hretries
    exact hretries.1.2
  unfold CronJob.exhausted at hnotExhausted
  rw [h.maxRetries] at hnotExhausted
  have hsucc : (job.errorCount + 1).toNat = job.errorCount.toNat + 1 := by
    rw [UInt32.toNat_add]
    have hone : (1 : UInt32).toNat = 1 := rfl
    omega
  have hbound : (job.errorCount + 1).toNat ≤ 3 := by
    have hle := of_decide_eq_false hnotExhausted
    exact UInt32.le_iff_toNat_le.mp (UInt32.not_lt.mp hle)
  refine ⟨rfl, ?_, ?_, ?_⟩
  · unfold CronJob.retryJob
    rw [hfailed]
    exact h.maxRetries
  · unfold CronJob.retryJob
    rw [hfailed]
    show count + 1 ≤ (job.errorCount + 1).toNat
    omega
  · unfold CronJob.retryJob
    rw [hfailed]
    exact hbound

theorem updateStatus_sameAt {x : Uuid} (hsound : s.Sound) (hfresh : a.retry.Fresh s)
    (hx : x ∈ s.issued) (hne : x ≠ id) : s.SameAt (s.updateStatus hasStore id a).1 x := by
  cases hlookup : s.jobs.lookup id with
  | none =>
      rw [updateStatus_of_none hlookup]
      exact ⟨rfl, rfl, rfl⟩
  | some job =>
      have hrecorded := @recordFiring_sameAt hasStore s job.1 id x a job.2 hne
      cases hretried : a.retried hasStore job.1 with
      | none =>
          rw [updateStatus_of_kept hlookup hretried]
          exact hrecorded
      | some new =>
          rcases updateStatus_of_retried hlookup hretried with ⟨_, hregisters, hstate⟩
          have hid : id ∈ s.issued := by
            apply hsound.jobs
            rw [← AList.lookup_isSome, hlookup]
            rfl
          have hretry : (job.1.retryJob a).id = id := by rw [retryJob_id, job.2]
          rcases registers_fresh hfresh (by rw [hretry]; exact hid) hregisters with ⟨hnew, hdiffer⟩
          rw [hstate]
          refine hrecorded.trans (register_sameAt hregisters hdiffer ?_ ?_)
          · intro heq
            rw [heq] at hx
            exact hnew hx
          · rwa [hretry]

theorem updateStatus_issued_mono {x : Uuid} (hx : x ∈ s.issued) :
    x ∈ (s.updateStatus hasStore id a).1.issued := by
  cases hlookup : s.jobs.lookup id with
  | none => rwa [updateStatus_of_none hlookup]
  | some job =>
      cases hretried : a.retried hasStore job.1 with
      | none => rwa [updateStatus_of_kept hlookup hretried, recordFiring_issued]
      | some new =>
          rw [(updateStatus_of_retried hlookup hretried).2.2, register_issued_eq,
            recordFiring_issued]
          exact List.mem_append_right _ hx

theorem HeldAs.fired {registration : RuntimeJob} (h : HeldAs s names runs current)
    (hsound : s.Sound) (hregistration : s.registrations.lookup current = some registration)
    (hfresh : a.retry.Fresh s) (hfailed : a.success = false) :
    ∃ next, HeldAs ((s.usedUp current).updateStatus hasStore current a).1
      (namesAfterRun hasStore names (s.jobs.lookup current) a) (current :: runs) next := by
  have hregistered : current ∈ s.registrations := by
    rw [← AList.lookup_isSome, hregistration]
    rfl
  have hwaits := (h.registrations current h.mem hregistered).2
  have hran := h.ran_current hregistration hwaits
  have hunregistered := usedUp_unregistered hregistration (h.trigger _ hregistration)
  have hused := @usedUp_sound s current hsound
  rcases usedUp_eq s current with ⟨hjobs, _, hgiven, _⟩
  cases hlookup : s.jobs.lookup current with
  | none =>
      rw [← hjobs] at hlookup
      rw [updateStatus_of_none hlookup]
      exact ⟨current, hran⟩
  | some job =>
      have hpending := (h.pending hwaits).2 job (.inl hlookup)
      rw [← hjobs] at hlookup
      have hrecorded := @recordFiring_held hasStore (s.usedUp current) names runs current a job hran
        hfailed hlookup hunregistered
      unfold namesAfterRun
      dsimp only
      cases hretried : a.retried hasStore job.1 with
      | none =>
          rw [updateStatus_of_kept hlookup hretried]
          refine ⟨current, ?_⟩
          unfold renewed
          rw [if_pos h.mem]
          exact hrecorded
      | some new =>
          rcases updateStatus_of_retried hlookup hretried with ⟨hretries, hregisters, hstate⟩
          have hretry : (job.1.retryJob a).id = current := by rw [retryJob_id, job.2]
          have hagain := retryJob_pending hpending hfailed hretries
          have hissued := h.issued current h.mem
          have hrecordedSound := @recordFiring_sound hasStore (s.usedUp current) job.1 current a
            hused job.2 (by rw [hgiven]; exact hissued)
            fun registration => hused.fires current job registration hlookup
          have hnew := (registers_fresh hfresh (by rw [hretry]; exact hissued) hregisters).1
          have hstays : current ∉
              ((s.usedUp current).recordFiring hasStore current job.1 a).registrations :=
            fun hmem => (hrecorded.registrations current h.mem hmem).2 List.mem_cons_self
          have hleft : (current :: runs).length ≤ 3 := hagain.counted.trans hagain.left
          refine ⟨new, ?_⟩
          rw [hstate]
          unfold renewed
          rw [if_pos h.mem]
          refine hrecorded.register hretry hrecordedSound hregisters ?_ hleft hagain hstays ?_
          · rw [recordFiring_issued, hgiven]
            exact hnew
          · exact fun _ => List.mem_cons_self

end Run

/-! ## New jobs and restarts -/

theorem mem_renewed {x : Uuid} (registered : Option Uuid) (hx : x ∈ names) :
    x ∈ renewed names id registered := by
  unfold renewed
  split
  · exact List.mem_append_right _ hx
  · exact hx

theorem renewed_of_notMem (registered : Option Uuid) (h : id ∉ names) :
    renewed names id registered = names := if_neg h

theorem renewed_of_none (names : List Uuid) (id : Uuid) : renewed names id none = names := by
  unfold renewed
  split <;> rfl

section Restart

variable {job : CronJob} {a : RegistrationAnswers}

theorem register_others {x : Uuid} (hfresh : a.Fresh s) (hjob : job.id ∈ s.issued)
    (hx : x ∈ s.issued) (hne : x ≠ job.id) : s.SameAt (s.register hasStore job a).1 x := by
  cases h : a.registers job with
  | none =>
      rw [register_of_none hasStore s h]
      exact ⟨rfl, rfl, rfl⟩
  | some new =>
      rcases registers_fresh hfresh hjob h with ⟨hnew, hdiffer⟩
      refine register_sameAt h hdiffer ?_ hne
      intro heq
      rw [heq] at hx
      exact hnew hx

theorem named_of_issued {x : Uuid} (hfresh : a.Fresh s) (hx : x ∈ s.issued)
    (hnamed : x ∈ renewed names id (a.registers job)) : x ∈ names := by
  unfold renewed at hnamed
  split at hnamed
  · rcases List.mem_append.mp hnamed with hnew | hold
    · rcases register_of_registers false s (Option.mem_toList.mp hnew) with ⟨_, _, _, hadded, _⟩
      exact absurd hx (hfresh x hadded)
    · exact hold
  · exact hnamed

theorem reached_subset {attempts : List (CronJob × RegistrationAnswers)} :
    reached hasStore attempts ⊆ attempts := by
  induction attempts with
  | nil => exact List.Subset.refl _
  | cons attempt attempts ih =>
      rcases attempt with ⟨job, a⟩
      rw [reached]
      split
      · exact List.cons_subset_cons _ ih
      · exact List.cons_subset_cons _ (List.nil_subset _)

theorem mem_namesAfterRun {x : Uuid} (found : Option (JobOf id)) (a : FiringAnswers)
    (hx : x ∈ names) : x ∈ namesAfterRun hasStore names found a := by
  unfold namesAfterRun
  cases found with
  | none => exact hx
  | some job => exact mem_renewed _ hx

theorem namesAfterRun_of_notMem (found : Option (JobOf id)) (a : FiringAnswers)
    (hid : id ∉ names) : namesAfterRun hasStore names found a = names := by
  unfold namesAfterRun
  cases found with
  | none => rfl
  | some job => exact renewed_of_notMem _ hid

theorem add_held (hsound : s.Sound) (hid : job.id ∉ s.issued)
    (hfresh : a.Fresh { s with issued := job.id :: s.issued }) (hpending : job.Pending 0) :
    ∃ current, HeldAs
      (({ s with issued := job.id :: s.issued } : SchedulerState).register hasStore job a).1
      (renewed [job.id] job.id (a.registers job)) [] current := by
  have hunnamed : ∀ x ∈ [job.id], x ∉ s.jobs ∧ x ∉ s.store ∧ x ∉ s.registrations := by
    intro x hx
    rw [List.mem_singleton.mp hx]
    exact ⟨fun hmem => hid (hsound.jobs _ hmem), fun hmem => hid (hsound.store _ hmem),
      fun hmem => hid (hsound.registrations _ hmem)⟩
  have hself : job.id ∈ [job.id] := List.mem_singleton_self _
  have hstart : HeldAs { s with issued := job.id :: s.issued } [job.id] [] job.id := by
    have hnone := hunnamed job.id hself
    have hjobs := AList.lookup_eq_none.mpr hnone.1
    have hstore := AList.lookup_eq_none.mpr hnone.2.1
    have hregistrations := AList.lookup_eq_none.mpr hnone.2.2
    refine ⟨hself, ?_, nofun, ?_, ?_, ?_, ?_, ?_, Nat.zero_le _, fun _ => ⟨Nat.zero_le _, ?_⟩⟩
    · intro x hx
      rw [List.mem_singleton.mp hx]
      exact List.mem_cons_self
    · exact fun x hx hmem => absurd hmem (hunnamed x hx).1
    · exact fun x hx hmem => absurd hmem (hunnamed x hx).2.1
    · exact fun x hx hmem => absurd hmem (hunnamed x hx).2.2
    · intro registration hlookup
      rw [hregistrations] at hlookup
      cases hlookup
    · intro found hlookup
      rw [hjobs] at hlookup
      cases hlookup
    · intro found hlookup
      rw [hjobs, hstore] at hlookup
      rcases hlookup with hlookup | hlookup <;> cases hlookup
  cases h : a.registers job with
  | none =>
      rw [register_of_none hasStore _ h, renewed_of_none]
      exact ⟨job.id, hstart⟩
  | some new =>
      rcases registers_fresh hfresh List.mem_cons_self h with ⟨hnew, hne⟩
      refine ⟨new, ?_⟩
      unfold renewed
      rw [if_pos hself]
      refine hstart.register rfl (issue_sound hsound job.id) h hnew (Nat.zero_le _) hpending
        (hunnamed job.id hself).2.2 ?_
      intro hmem
      exact absurd ((register_old h hne).2.1 hmem).1 (hunnamed job.id hself).2.1

/-- Loading the jobs keeps the job under one name. -/
theorem registerAll_held {attempts : List (CronJob × RegistrationAnswers)} (hsound : s.Sound)
    (hfresh : AllFresh true s attempts)
    (hjobs : ∀ attempt ∈ attempts, attempt.1.id ∈ s.issued ∧
      s.store.lookup attempt.1.id = some ⟨attempt.1, rfl⟩ ∧ attempt.1.id ∉ s.registrations)
    (hnodup : (attempts.map fun attempt => attempt.1.id).Nodup)
    (h : HeldAs s names runs current)
    (hreplaces : ∀ attempt ∈ reached true attempts, attempt.1.id ∈ names →
      (attempt.2.registers attempt.1).isSome = true →
        attempt.2.forgotten.isOk = true ∧ attempt.1.id ∉ runs) :
    ∃ next, HeldAs (s.registerAll true attempts).1
      ((reached true attempts).foldl
        (fun names attempt => renewed names attempt.1.id (attempt.2.registers attempt.1)) names)
      runs next := by
  induction attempts generalizing s names current with
  | nil => exact ⟨current, h⟩
  | cons attempt attempts ih =>
      rcases attempt with ⟨job, a⟩
      rcases hjobs (job, a) List.mem_cons_self with ⟨hissued, hlookup, hunregistered⟩
      dsimp only at hissued hlookup hunregistered
      have hstored : job.id ∈ s.store := by
        rw [← AList.lookup_isSome, hlookup]
        rfl
      have hothers := fun x => @register_others true s job a x hfresh.1 hissued
      -- the job itself is either not concerned or moved to a new name
      have hfirst : ∃ next, HeldAs (s.register true job a).1
          (renewed names job.id (a.registers job)) runs next := by
        cases hregisters : a.registers job with
        | none =>
            rw [register_of_none true s hregisters, renewed_of_none]
            exact ⟨current, h⟩
        | some new =>
            by_cases hnamed : job.id ∈ names
            · rcases hreplaces (job, a) (by rw [reached]; exact List.mem_cons_self) hnamed
                (by rw [hregisters]; rfl) with ⟨hforgotten, hwaits⟩
              have hcurrent := (h.store job.id hnamed hstored).resolve_right hwaits
              subst hcurrent
              rcases registers_fresh hfresh.1 hissued hregisters with ⟨hnew, hne⟩
              rcases h.pending hwaits with ⟨hleft, hpending⟩
              refine ⟨new, ?_⟩
              unfold renewed
              rw [if_pos hnamed]
              refine h.register rfl hsound hregisters hnew hleft (hpending _ (.inr hlookup))
                hunregistered ?_
              exact fun hmem => absurd ⟨rfl, hforgotten⟩ ((register_old hregisters hne).2.1 hmem).2
            · rw [renewed_of_notMem _ hnamed]
              refine ⟨current, h.of_less ?_ fun x hx => register_issued_mono true job a hx⟩
              intro x hx
              refine (hothers x (h.issued x hx) ?_).less
              intro heq
              rw [heq] at hx
              exact hnamed hx
      rcases hfirst with ⟨next, hnext⟩
      rw [registerAll_cons, reached, List.foldl_cons]
      by_cases hsucceeds : a.succeeds true job = true
      · rw [if_pos hsucceeds, if_pos hsucceeds]
        rw [List.map_cons, List.nodup_cons] at hnodup
        have hdiffer : ∀ other ∈ attempts, other.1.id ≠ job.id := by
          intro other hother heq
          exact hnodup.1 (List.mem_map.mpr ⟨other, hother, heq⟩)
        refine ih (register_sound true hsound hfresh.1 hissued)
          (hfresh.2 (by rwa [register_succeeds_iff])) ?_ hnodup.2 hnext ?_
        · intro other hother
          rcases hjobs other (List.mem_cons_of_mem _ hother) with ⟨hold, hkept, hnone⟩
          have hsame := hothers other.1.id hold (hdiffer other hother)
          refine ⟨register_issued_mono true job a hold, hsame.store.trans hkept, ?_⟩
          exact fun hmem => hnone (hsame.less.mem_registrations hmem)
        · intro other hother hmem hsome
          have hold := (hjobs other (List.mem_cons_of_mem _ (reached_subset hother))).1
          refine hreplaces other ?_ (named_of_issued hfresh.1 hold hmem) hsome
          rw [reached, if_pos hsucceeds]
          exact List.mem_cons_of_mem _ hother
      · rw [if_neg hsucceeds, if_neg hsucceeds]
        exact ⟨next, hnext⟩

end Restart

/-! ## Steps and runs -/

def JobLife.Held (original : Uuid) (life : JobLife) : Prop :=
  life.names = [] ∧ life.runs = [] ∨
    original ∈ life.names ∧ ∃ current, HeldAs life.state life.names life.runs current

section Steps

variable {original : Uuid} {life : JobLife}

theorem JobLife.Held.of_less (h : life.Held original)
    (hless : ∀ x ∈ life.names, life.state.LessAt s' x)
    (hissued : ∀ x ∈ life.state.issued, x ∈ s'.issued) :
    JobLife.Held original ⟨s', life.names, life.runs⟩ :=
  h.imp id fun ⟨horiginal, current, hheld⟩ => ⟨horiginal, current, hheld.of_less hless hissued⟩

theorem JobLife.Held.issued (h : life.Held original) {x : Uuid} (hx : x ∈ life.names) :
    x ∈ life.state.issued := by
  rcases h with ⟨hnames, _⟩ | ⟨_, current, hheld⟩
  · rw [hnames] at hx
    cases hx
  · exact hheld.issued x hx

theorem JobLife.Held.add {job : CronJob} {a : RegistrationAnswers} (h : life.Held original)
    (hsound : life.state.Sound) (hid : job.id ∉ life.state.issued)
    (hfresh : a.Fresh { life.state with issued := job.id :: life.state.issued })
    (hpending : job.id = original → job.Pending 0) :
    JobLife.Held original
      ⟨(({ life.state with issued := job.id :: life.state.issued } :
          SchedulerState).register hasStore job a).1,
        namesAfterAdd original life.names job a, life.runs⟩ := by
  by_cases hnew : job.id = original
  · have hunmade : life.names = [] ∧ life.runs = [] := by
      refine h.resolve_right ?_
      intro ⟨horiginal, current, hheld⟩
      rw [← hnew] at horiginal
      exact hid (hheld.issued _ horiginal)
    rcases @add_held hasStore life.state job a hsound hid hfresh (hpending hnew) with
      ⟨current, hheld⟩
    unfold namesAfterAdd
    rw [if_pos hnew, hunmade.2]
    refine .inr ⟨?_, current, hheld⟩
    rw [← hnew]
    exact mem_renewed _ (List.mem_singleton_self _)
  · unfold namesAfterAdd
    rw [if_neg hnew]
    refine h.of_less ?_ ?_
    · intro x hx
      have hissued := h.issued hx
      have hissue : life.state.LessAt
          { life.state with issued := job.id :: life.state.issued } x :=
        ⟨fun _ hlookup => hlookup, fun _ hlookup => hlookup, fun _ hlookup => hlookup⟩
      refine hissue.trans (register_others hfresh List.mem_cons_self
        (List.mem_cons_of_mem _ hissued) ?_).less
      intro heq
      rw [heq] at hissued
      exact hid hissued
    · exact fun x hx => register_issued_mono hasStore job a (List.mem_cons_of_mem _ hx)

theorem remove_less {unregistered : Except String Unit} {forgotten : Except SchedulerError Unit}
    (x : Uuid) : s.LessAt (s.remove hasStore id unregistered forgotten).1 x := by
  by_cases hx : x = id
  · subst hx
    rw [remove_eq]
    refine ⟨fun job hlookup => ?_, fun job hlookup => ?_, fun registration hlookup => ?_⟩
    · rw [AList.lookup_erase] at hlookup
      cases hlookup
    · dsimp only at hlookup
      split at hlookup
      · rw [AList.lookup_erase] at hlookup
        cases hlookup
      · exact hlookup
    · dsimp only at hlookup
      split at hlookup
      · rw [AList.lookup_erase] at hlookup
        cases hlookup
      · exact hlookup
  · exact (remove_sameAt hx).less

theorem stopped_less (s : SchedulerState) (x : Uuid) : s.LessAt s.stopped x := by
  have hnone : ∀ {β : Uuid → Type} (found : β x),
      AList.lookup x (∅ : AList β) = some found → False := by
    intro β found hlookup
    rw [AList.lookup_empty] at hlookup
    cases hlookup
  exact ⟨fun job hlookup => (hnone job hlookup).elim, fun _ hlookup => hlookup,
    fun registration hlookup => (@hnone (fun _ => RuntimeJob) registration hlookup).elim⟩

theorem loaded_stored {attempts : List (CronJob × RegistrationAnswers)}
    (hperm : (attempts.map Prod.fst).Perm (s.store.entries.map fun entry => entry.2.1)) :
    (∀ attempt ∈ attempts, s.store.lookup attempt.1.id = some ⟨attempt.1, rfl⟩) ∧
      (attempts.map fun attempt => attempt.1.id).Nodup := by
  constructor
  · intro attempt hattempt
    rcases List.mem_map.mp (hperm.mem_iff.mp (List.mem_map_of_mem hattempt)) with
      ⟨entry, hentry, heq⟩
    rcases entry with ⟨key, job, hkey⟩
    dsimp only at heq
    subst heq
    subst hkey
    exact AList.mem_lookup_iff.mpr hentry
  · have hids := hperm.map CronJob.id
    rw [List.map_map, List.map_map] at hids
    refine hids.nodup_iff.mpr ?_
    have hkeys : s.store.entries.map (CronJob.id ∘ fun entry => entry.2.1) = s.store.keys := by
      refine List.map_congr_left fun entry _ => ?_
      exact entry.2.2
    rw [hkeys]
    exact s.store.keys_nodup

theorem foldl_renewed_nil (attempts : List (CronJob × RegistrationAnswers)) :
    attempts.foldl (fun names attempt =>
      renewed names attempt.1.id (attempt.2.registers attempt.1)) [] = [] := by
  induction attempts with
  | nil => rfl
  | cons attempt attempts ih => rwa [List.foldl_cons, renewed_of_notMem _ (List.not_mem_nil)]

theorem mem_foldl_renewed {x : Uuid} (attempts : List (CronJob × RegistrationAnswers))
    (hx : x ∈ names) : x ∈ attempts.foldl (fun names attempt =>
      renewed names attempt.1.id (attempt.2.registers attempt.1)) names := by
  induction attempts generalizing names with
  | nil => exact hx
  | cons attempt attempts ih =>
      rw [List.foldl_cons]
      exact ih (mem_renewed _ hx)

theorem JobLife.Held.fire {registration : RuntimeJob} {a : FiringAnswers}
    (h : life.Held original) (hsound : life.state.Sound)
    (hregistration : life.state.registrations.lookup id = some registration)
    (hfresh : a.retry.Fresh life.state) (hfailed : id ∈ life.names → a.success = false) :
    JobLife.Held original (life.perform hasStore original (.fire id registration a)) := by
  by_cases hid : id ∈ life.names
  · rcases h with ⟨hnames, _⟩ | ⟨horiginal, current, hheld⟩
    · rw [hnames] at hid
      cases hid
    · have hregistered : id ∈ life.state.registrations := by
        rw [← AList.lookup_isSome, hregistration]
        rfl
      have hcurrent := (hheld.registrations id hid hregistered).1
      subst hcurrent
      rcases @HeldAs.fired hasStore life.state life.names life.runs id a registration hheld hsound
        hregistration hfresh (hfailed hid) with ⟨next, hnext⟩
      refine .inr ⟨?_, next, ?_⟩
      · exact mem_namesAfterRun _ a horiginal
      · unfold JobLife.perform SchedulerCall.namesAfter SchedulerCall.runsAfter
        dsimp only
        rw [if_pos hid]
        exact hnext
  · have hstays : SchedulerCall.namesAfter hasStore original life (.fire id registration a) =
        life.names := namesAfterRun_of_notMem _ a hid
    have hruns : SchedulerCall.runsAfter life (.fire id registration a) = life.runs := if_neg hid
    unfold JobLife.perform
    rw [hstays, hruns]
    have hgiven := (usedUp_eq life.state id).2.2.1
    have hfresh' : a.retry.Fresh (life.state.usedUp id) := by
      unfold RegistrationAnswers.Fresh
      rw [hgiven]
      exact hfresh
    refine h.of_less ?_ ?_
    · intro x hx
      have hne : x ≠ id := by
        intro heq
        rw [heq] at hx
        exact hid hx
      exact ((usedUp_sameAt hne).trans (updateStatus_sameAt (usedUp_sound hsound) hfresh'
        (by rw [hgiven]; exact h.issued hx) hne)).less
    · exact fun x hx => updateStatus_issued_mono (by rwa [hgiven])

/-- One step keeps the job under one name. -/
theorem JobLife.Held.perform {call : SchedulerCall} (h : life.Held original)
    (hsound : life.state.Sound) (hpossible : call.Possible hasStore life.state)
    (hfailing : call.Failing original life) (hreplaces : call.Replaces hasStore life) :
    (life.perform hasStore original call).Held original := by
  rcases hpossible with ⟨hanswered, hfired⟩
  cases call with
  | addJob name schedule payload id a =>
      refine @JobLife.Held.add hasStore original life
        { id := id, name := name, schedule := schedule, payload := payload } a
        h hsound hanswered.1 hanswered.2 ?_
      intro hid
      rcases hfailing hid with ⟨time, htime⟩
      subst htime
      exact ⟨rfl, rfl, Nat.zero_le _, Nat.zero_le _⟩
  | triggerConsolidation agentId limit now id a =>
      refine @JobLife.Held.add hasStore original life
        { id := id, name := "manual_consolidation", schedule := .atTime now
          payload := .consolidateMemory limit agentId none } a
        h hsound hanswered.1 hanswered.2 ?_
      exact fun _ => ⟨rfl, rfl, Nat.zero_le _, Nat.zero_le _⟩
  | removeJob id unregistered forgotten =>
      refine h.of_less (fun x _ => remove_less x) ?_
      intro x hx
      show x ∈ (life.state.remove hasStore id unregistered forgotten).1.issued
      rwa [remove_eq]
  | updateJobStatus id a =>
      have hstays : SchedulerCall.namesAfter hasStore original life (.updateJobStatus id a) =
          life.names := namesAfterRun_of_notMem _ a hfailing
      unfold JobLife.perform
      rw [hstays]
      refine h.of_less ?_ fun x hx => updateStatus_issued_mono hx
      intro x hx
      refine (updateStatus_sameAt hsound hanswered (h.issued hx) ?_).less
      intro heq
      rw [heq] at hx
      exact hfailing hx
  | fire id job a => exact h.fire hsound (hfired id job rfl) hanswered hfailing
  | restart loaded =>
      cases loaded with
      | none => exact h.of_less (fun x _ => stopped_less life.state x) fun x hx => hx
      | some attempts =>
          rcases hanswered with ⟨hstore, hperm, hfresh⟩
          subst hstore
          rcases loaded_stored hperm with ⟨hlookup, hnodup⟩
          rcases h with ⟨hnames, hruns⟩ | ⟨horiginal, current, hheld⟩
          · refine .inl ⟨?_, hruns⟩
            show List.foldl _ life.names _ = []
            rw [hnames]
            exact foldl_renewed_nil _
          · have hstopped := hheld.of_less (fun x _ => stopped_less life.state x) fun x hx => hx
            rcases registerAll_held (stopped_sound hsound) hfresh
              (fun attempt hattempt => ⟨loaded_issued hsound hperm attempt hattempt,
                hlookup attempt hattempt, AList.notMem_empty _⟩)
              hnodup hstopped hreplaces with ⟨next, hnext⟩
            exact .inr ⟨mem_foldl_renewed _ horiginal, next, hnext⟩

end Steps

theorem lifeAfter_state (hasStore : Bool) (original : Uuid) (calls : List SchedulerCall) :
    (lifeAfter hasStore original calls).state = (worldAfter hasStore calls).state := by
  induction calls using List.reverseRecOn with
  | nil => rfl
  | append_singleton calls call ih =>
      unfold lifeAfter worldAfter at ih ⊢
      rw [List.foldl_append, List.foldl_append]
      show (SchedulerCall.perform hasStore _ call).1 = (SchedulerCall.perform hasStore _ call).1
      rw [ih]

theorem HeldAs.maxRetries_of_mem (h : HeldAs s names runs current) (hid : id ∈ names)
    {job : JobOf id} (hlookup : s.jobs.lookup id = some job) : job.1.maxRetries = 3 := by
  have hcurrent : id = current := by
    apply h.jobs id hid
    rw [← AList.lookup_isSome, hlookup]
    rfl
  subst hcurrent
  exact h.maxRetries job hlookup

/-- A one-shot job whose runs all fail is run at most once more than it may be tried again, in
every run of the scheduler whose restarts replace the entries that they register again. All
entries are kept under their own identifiers. -/
theorem SchedulerRun.retries_bounded {hasStore : Bool} (run : SchedulerRun hasStore)
    (original : Uuid)
    (hfailing : History.Preceded
      (fun pre call => call.Failing original (lifeAfter hasStore original pre)) run.calls)
    (hreplaces : History.Preceded
      (fun pre call => call.Replaces hasStore (lifeAfter hasStore original pre)) run.calls) :
    ∀ pre, pre <+: run.calls →
      (lifeAfter hasStore original pre).runs.length ≤ 3 + 1 ∧
      (∀ id ∈ (lifeAfter hasStore original pre).names, ∀ job,
        (worldAfter hasStore pre).state.jobs.lookup id = some job → job.1.maxRetries = 3) ∧
      (∀ entry ∈ (worldAfter hasStore pre).state.jobs.entries, entry.2.1.id = entry.1) ∧
      ∀ entry ∈ (worldAfter hasStore pre).state.store.entries, entry.2.1.id = entry.1 := by
  have hkeys : ∀ (jobs : JobTable), ∀ entry ∈ jobs.entries, entry.2.1.id = entry.1 :=
    fun _ entry _ => entry.2.2
  have hpossible : History.Preceded (fun pre call =>
      (call.Possible hasStore (pre.foldl (JobLife.perform hasStore original) {}).state ∧
        call.Failing original (pre.foldl (JobLife.perform hasStore original) {})) ∧
      call.Replaces hasStore (pre.foldl (JobLife.perform hasStore original) {})) run.calls := by
    intro pre call post heq
    refine ⟨⟨?_, hfailing pre call post heq⟩, hreplaces pre call post heq⟩
    have hstate := lifeAfter_state hasStore original pre
    unfold lifeAfter at hstate
    rw [hstate]
    exact run.possible pre call post heq
  intro pre hpre
  have hheld := @History.foldl_throughout _ run.calls _ (JobLife.perform hasStore original) {}
    (fun life => life.state.Sound ∧ life.Held original)
    (fun life call => (call.Possible hasStore life.state ∧ call.Failing original life) ∧
      call.Replaces hasStore life) hpossible ⟨start_sound.state, .inl ⟨rfl, rfl⟩⟩
    (by
      intro life call ⟨hsound, hheld⟩ ⟨⟨hcall, hfails⟩, hreplaced⟩
      have hworld : World.Sound ⟨life.state, []⟩ := ⟨hsound, nofun⟩
      exact ⟨(perform_step hworld hcall).1.state, hheld.perform hsound hcall hfails hreplaced⟩)
    pre hpre
  refine ⟨?_, ?_, hkeys _, hkeys _⟩
  · rcases hheld.2 with ⟨_, hruns⟩ | ⟨_, _, hheld⟩
    · show (lifeAfter hasStore original pre).runs.length ≤ 3 + 1
      unfold lifeAfter
      rw [hruns]
      exact Nat.zero_le _
    · exact hheld.bounded
  · intro id hid job hlookup
    rw [← lifeAfter_state hasStore original] at hlookup
    rcases hheld.2 with ⟨hnames, _⟩ | ⟨_, _, hheld⟩
    · unfold lifeAfter at hid
      rw [hnames] at hid
      cases hid
    · exact hheld.maxRetries_of_mem hid hlookup

/-! ## Runs of a job -/

def onceJob (id : Uuid) : CronJob where
  id := id
  name := "once"
  schedule := .atTime 100000000000
  payload := .distillLogs 100

def failOnce (id : Uuid) (duration : Int) (next : Uuid) : SchedulerCall :=
  .fire id ((onceJob id).runtimeJob (.oneShot 0 duration))
    ⟨false, 0, .ok (), .ok (), 0, accepted next⟩

def onceRun : SchedulerRun true :=
  SchedulerRun.start.snoc
    (.addJob "once" (.atTime 100000000000) (.distillLogs 100) "made" (accepted "1"))
    (possible_of_answered ⟨by decide, accepted_fresh (by decide)⟩ nofun)

def onceFailed : SchedulerRun true :=
  onceRun.snoc (failOnce "1" 100000000000 "2")
    (fire_possible (accepted_fresh (by decide +kernel)) (by decide +kernel))

theorem onceFailed_bounded : (lifeAfter true "made" onceFailed.calls).runs.length ≤ 3 + 1 := by
  have hfailing : ∀ call ∈ onceFailed.calls, ∀ life, call.Failing "made" life := by
    show ∀ call ∈ [_, _], ∀ life, _
    simp only [List.forall_mem_cons, List.not_mem_nil, false_imp_iff, implies_true, and_true]
    exact ⟨fun _ _ => ⟨_, rfl⟩, fun _ _ => rfl⟩
  have hreplaces : ∀ call ∈ onceFailed.calls, ∀ life, call.Replaces true life := by
    show ∀ call ∈ [_, _], ∀ life, _
    simp only [List.forall_mem_cons, List.not_mem_nil, false_imp_iff, implies_true, and_true]
    exact ⟨fun _ => trivial, fun _ => trivial⟩
  exact (onceFailed.retries_bounded "made"
    (.of_forall fun call hcall pre => hfailing call hcall _)
    (.of_forall fun call hcall pre => hreplaces call hcall _) _ (List.prefix_refl _)).1

/-- The old entry stays in the store. -/
def keptRun : SchedulerRun true :=
  onceRun.snoc
    (.restart (some [(onceJob "1", { accepted "2" with forgotten := .error (.internal "full") })]))
    (possible_of_answered ⟨rfl, .of_eq (by decide +kernel),
      @accepted_fresh (worldAfter true onceRun.calls).state.stopped "2" (by decide +kernel),
      fun _ => trivial⟩ nofun)

/-- Both entries are registered. -/
def doubledRun : SchedulerRun true :=
  keptRun.snoc
    (.restart (some [(onceJob "2", accepted "3"), (onceJob "1", accepted "4")]))
    (possible_of_answered ⟨rfl, .of_eq (by decide +kernel),
      accepted_fresh (by decide +kernel),
      fun _ => ⟨accepted_fresh (by decide +kernel), fun _ => trivial⟩⟩ nofun)

def doubledRun₁ : SchedulerRun true :=
  doubledRun.snoc (failOnce "3" 100000000000 "5")
    (fire_possible (accepted_fresh (by decide +kernel)) (by decide +kernel))

def doubledRun₂ : SchedulerRun true :=
  doubledRun₁.snoc (failOnce "4" 100000000000 "6")
    (fire_possible (accepted_fresh (by decide +kernel)) (by decide +kernel))

def doubledRun₃ : SchedulerRun true :=
  doubledRun₂.snoc (failOnce "5" 30000000000 "7")
    (fire_possible (accepted_fresh (by decide +kernel)) (by decide +kernel))

def doubledRun₄ : SchedulerRun true :=
  doubledRun₃.snoc (failOnce "6" 30000000000 "8")
    (fire_possible (accepted_fresh (by decide +kernel)) (by decide +kernel))

def doubledRun₅ : SchedulerRun true :=
  doubledRun₄.snoc (failOnce "7" 30000000000 "9")
    (fire_possible (accepted_fresh (by decide +kernel)) (by decide +kernel))

/-- A restart that cannot take the old entry out of the store leaves two, which are run and
tried again besides each other. -/
theorem retries_unbounded : ∃ (run : SchedulerRun true) (original : Uuid),
    History.Preceded
      (fun pre call => call.Failing original (lifeAfter true original pre)) run.calls ∧
    3 + 1 < (lifeAfter true original run.calls).runs.length := by
  refine ⟨doubledRun₅, "made", ?_, by decide +kernel⟩
  have hcalls : ∀ call ∈ doubledRun₅.calls, ∀ life, call.Failing "made" life := by
    show ∀ call ∈ [_, _, _, _, _, _, _, _], ∀ life, _
    simp only [List.forall_mem_cons, List.not_mem_nil, false_imp_iff, implies_true, and_true]
    exact ⟨fun _ _ => ⟨_, rfl⟩, fun _ => trivial, fun _ => trivial, fun _ _ => rfl, fun _ _ => rfl,
      fun _ _ => rfl, fun _ _ => rfl, fun _ _ => rfl⟩
  exact History.Preceded.of_forall fun call hcall pre => hcalls call hcall _

end BenShu.Scheduler
