import BenShu.Scheduler.PromiseRuns

/-!
# Kept promises

Each kind of step keeps the promises under an exact condition on the state before it and
on the answers; a run keeps them if all its steps do.
-/

namespace BenShu.Scheduler

open Protocol (DateTime)

variable {hasStore : Bool} {s : SchedulerState} {promised : List Uuid} {id : Uuid}

theorem renamed_none (id : Uuid) (promised : List Uuid) : renamed id none promised = promised := by
  unfold renamed
  refine (List.map_congr_left fun other _ => ?_).trans (List.map_id promised)
  split
  · rename_i heq
    exact heq.symm
  · rfl

/-! ## Registrations -/

section Register

variable {job : CronJob} {a : RegistrationAnswers}

theorem register_issued_eq (hasStore : Bool) (s : SchedulerState) (job : CronJob)
    (a : RegistrationAnswers) :
    (s.register hasStore job a).1.issued = (a.registers job).toList ++ s.issued := by
  cases h : a.registers job with
  | none =>
      rw [register_of_none hasStore s h]
      rfl
  | some new => exact register_issued h

theorem register_promised_issued (hasStore : Bool) (hissued : ∀ x ∈ promised, x ∈ s.issued) :
    ∀ x ∈ renamed job.id (a.registers job) promised, x ∈ (s.register hasStore job a).1.issued := by
  cases h : a.registers job with
  | none =>
      rw [renamed_none, register_of_none hasStore s h]
      exact hissued
  | some new =>
      rw [register_issued h]
      intro x hx
      rcases List.mem_map.mp hx with ⟨old, hold, heq⟩
      split at heq
      · rw [← heq]
        exact List.mem_cons_self
      · rw [← heq]
        exact List.mem_cons_of_mem _ (hissued old hold)

/-- A registration keeps the promises that are kept, and those for the job if the runtime
takes it. -/
theorem register_kept_iff (hfresh : a.Fresh s) (hjob : job.id ∈ s.issued)
    (hissued : ∀ x ∈ promised, x ∈ s.issued) (P : Uuid → Prop) :
    (∀ x ∈ renamed job.id (a.registers job) promised,
        (s.register hasStore job a).1.Registered x ∨ P x) ↔
      ∀ x ∈ promised, (x = job.id ∧ (a.registers job).isSome = true) ∨ s.Registered x ∨ P x := by
  cases h : a.registers job with
  | none =>
      rw [renamed_none, register_of_none hasStore s h]
      simp
  | some new =>
      rcases registers_fresh hfresh hjob h with ⟨hnew, hne⟩
      have hother : ∀ x ∈ promised, x ≠ job.id →
          ((s.register hasStore job a).1.Registered x ↔ s.Registered x) := by
        intro x hx hdiffer
        have hnot : x ≠ new := by
          intro heq
          rw [heq] at hx
          exact hnew (hissued new hx)
        exact (register_sameAt h hne hnot hdiffer).registered_iff
      constructor
      · intro hkept x hx
        by_cases hdiffer : x = job.id
        · exact .inl ⟨hdiffer, rfl⟩
        · have hmem : x ∈ renamed job.id (some new) promised :=
            List.mem_map.mpr ⟨x, hx, if_neg hdiffer⟩
          rw [← hother x hx hdiffer]
          exact .inr (hkept x hmem)
      · intro hkept x hx
        rcases List.mem_map.mp hx with ⟨old, hold, heq⟩
        split at heq
        · rw [← heq]
          exact .inl (register_registered hasStore s h hne)
        · rename_i hdiffer
          rw [← heq, hother old hold hdiffer]
          exact (hkept old hold).resolve_left fun hsame => hdiffer hsame.1

theorem registered_mem (h : s.Registered id) : id ∈ s.jobs := by
  rcases h with ⟨job, _, hlookup, _⟩
  rw [← AList.lookup_isSome, hlookup]
  rfl

theorem registered_issued (hsound : s.Sound) (h : s.Registered id) : id ∈ s.issued :=
  hsound.jobs id (registered_mem h)

theorem register_keeps_quiet_iff (hsound : s.Sound) (hfresh : a.Fresh s)
    (hjob : job.id ∈ s.issued) (hquiet : s.Quiet) :
    (s.register hasStore job a).1.Quiet ↔
      ((a.registers job).isSome = true → hasStore = true → a.saved.isOk = true →
        job.enabled = true) := by
  cases h : a.registers job with
  | none =>
      rw [register_of_none hasStore s h]
      exact iff_of_true hquiet nofun
  | some new =>
      rcases registers_fresh hfresh hjob h with ⟨hnew, hne⟩
      have hunstored : new ∉ s.store := fun hmem => hnew (hsound.store new hmem)
      rw [register_quiet_iff hunstored h hne fun other _ => hquiet other,
        and_iff_right (.inr (hquiet job.id))]
      exact ⟨fun hkept _ => hkept, fun hkept => hkept rfl⟩

end Register

/-! ## New jobs -/

section Add

variable {name : String} {schedule : JobSchedule} {payload : JobPayload} {a : RegistrationAnswers}

theorem triggerAt_none_iff {now : DateTime} :
    triggerAt now schedule = none ↔ ∃ time, schedule = .atTime time ∧ time ≤ now := by
  cases schedule with
  | atTime time => simp [triggerAt]
  | every intervalSecs => simp [triggerAt]
  | cron expr => simp [triggerAt]

theorem issue_sound (hsound : s.Sound) (id : Uuid) :
    ({ s with issued := id :: s.issued } : SchedulerState).Sound :=
  ⟨⟨hsound.idle.unlocked, hsound.idle.returned⟩,
    fun x hx => List.mem_cons_of_mem _ (hsound.jobs x hx),
    fun x hx => List.mem_cons_of_mem _ (hsound.store x hx),
    fun x hx => List.mem_cons_of_mem _ (hsound.registrations x hx), hsound.fires⟩

theorem add_quiet (hsound : s.Sound) (hfresh : a.Fresh { s with issued := id :: s.issued }) (hquiet : s.Quiet) :
    (s.add hasStore id name schedule payload a).1.Quiet := by
  have hstart : ({ s with issued := id :: s.issued } : SchedulerState).Quiet := hquiet
  exact (register_keeps_quiet_iff (issue_sound hsound id) hfresh List.mem_cons_self hstart).mpr
    fun _ _ _ => rfl

theorem add_registered_iff (hid : id ∉ s.issued)
    (hfresh : a.Fresh { s with issued := id :: s.issued }) {x : Uuid} (hx : x ∈ s.issued) :
    (s.add hasStore id name schedule payload a).1.Registered x ↔ s.Registered x := by
  have hold : x ≠ id := by
    intro heq
    rw [heq] at hx
    exact hid hx
  let job : CronJob := { id := id, name := name, schedule := schedule, payload := payload }
  cases h : a.registers job with
  | none =>
      have hstate := register_of_none hasStore { s with issued := id :: s.issued } h
      show (SchedulerState.register hasStore _ job a).1.Registered x ↔ _
      rw [hstate]
      exact Iff.rfl
  | some new =>
      rcases registers_fresh hfresh List.mem_cons_self h with ⟨hnew, hne⟩
      have hdiffer : x ≠ new := by
        intro heq
        rw [heq] at hx
        exact hnew (List.mem_cons_of_mem _ hx)
      exact (register_sameAt h hne hdiffer hold).registered_iff

/-- A caller is given the identifier of the job in the runtime, or the one it was made with
if its time has come. -/
theorem add_result (hasStore : Bool) (s : SchedulerState) (id : Uuid) (name : String)
    (schedule : JobSchedule) (payload : JobPayload) (a : RegistrationAnswers) :
    (s.add hasStore id name schedule payload a).2.toOption =
      if (triggerAt a.now schedule).isNone then some id
      else if (storeResult hasStore a.saved).isOk then
        a.registers { id := id, name := name, schedule := schedule, payload := payload }
      else none := by
  unfold SchedulerState.add SchedulerState.register RegistrationAnswers.registers
  dsimp only
  cases triggerAt a.now schedule with
  | none => rfl
  | some found =>
      rcases found with ⟨trigger, kind⟩
      cases a.created with
      | error e => simp [Except.toOption]
      | ok _ =>
          cases a.added with
          | error e => simp [Except.toOption]
          | ok new => cases storeResult hasStore a.saved <;> rfl

theorem add_sound (hsound : s.Sound) (hfresh : a.Fresh { s with issued := id :: s.issued })
    (hissued : ∀ x ∈ promised, x ∈ s.issued) :
    World.Sound {
      state := (s.add hasStore id name schedule payload a).1
      promised := (s.add hasStore id name schedule payload a).2.toOption.toList ++ promised } := by
  let job : CronJob := { id := id, name := name, schedule := schedule, payload := payload }
  have hgrows : (s.add hasStore id name schedule payload a).1.issued =
      (a.registers job).toList ++ id :: s.issued :=
    register_issued_eq hasStore { s with issued := id :: s.issued } job a
  refine ⟨register_sound hasStore (issue_sound hsound id) hfresh List.mem_cons_self, ?_⟩
  dsimp only
  rw [hgrows, add_result]
  intro x hx
  rcases List.mem_append.mp hx with hnew | hold
  · split at hnew
    · rw [Option.toList_some, List.mem_singleton] at hnew
      rw [hnew]
      exact List.mem_append_right _ List.mem_cons_self
    · split at hnew
      · exact List.mem_append_left _ hnew
      · cases hnew
  · exact List.mem_append_right _ (List.mem_cons_of_mem _ (hissued x hold))

theorem add_kept_iff (hsound : s.Sound) (hid : id ∉ s.issued)
    (hfresh : a.Fresh { s with issued := id :: s.issued })
    (hissued : ∀ x ∈ promised, x ∈ s.issued) (hkept : ∀ x ∈ promised, s.Registered x) :
    World.Kept {
      state := (s.add hasStore id name schedule payload a).1
      promised := (s.add hasStore id name schedule payload a).2.toOption.toList ++ promised } ↔
      ∀ time, schedule = .atTime time → a.now < time := by
  let job : CronJob := { id := id, name := name, schedule := schedule, payload := payload }
  have hothers : ∀ x ∈ promised, (s.add hasStore id name schedule payload a).1.Registered x :=
    fun x hx => (add_registered_iff hid hfresh (hissued x hx)).mpr (hkept x hx)
  unfold World.Kept
  dsimp only
  rw [add_result]
  cases htrigger : triggerAt a.now schedule with
  | none =>
      rcases triggerAt_none_iff.mp htrigger with ⟨time, htime, hpast⟩
      have hnone : a.registers job = none := by
        unfold RegistrationAnswers.registers
        rw [htrigger]
      have hstate : (s.add hasStore id name schedule payload a).1 =
          { s with issued := id :: s.issued } := register_of_none hasStore _ hnone
      have hunregistered : ¬(s.add hasStore id name schedule payload a).1.Registered id := by
        rw [hstate]
        exact fun h => hid (registered_issued hsound h)
      refine iff_of_false ?_ fun h => absurd (h time htime) (Int.not_lt.mpr hpast)
      exact fun h => hunregistered (h id (by simp))
  | some found =>
      refine iff_of_true ?_ ?_
      · intro x hx
        rcases List.mem_append.mp hx with hnew | hold
        · rw [Option.isNone_some, if_neg Bool.false_ne_true] at hnew
          split at hnew
          · have hregisters : a.registers job = some x := Option.mem_toList.mp hnew
            have hne := (registers_fresh hfresh List.mem_cons_self hregisters).2
            exact register_registered hasStore { s with issued := id :: s.issued } hregisters hne
          · cases hnew
        · exact hothers x hold
      · intro time htime
        rw [htime] at htrigger
        unfold triggerAt at htrigger
        dsimp only at htrigger
        split at htrigger
        · cases htrigger
        · rename_i hfuture
          exact Int.not_le.mp hfuture

end Add

/-! ## Removed jobs -/

section Remove

variable {unregistered : Except String Unit} {forgotten : Except SchedulerError Unit}

theorem remove_eq : (s.remove hasStore id unregistered forgotten).1 = { s with
    jobs := s.jobs.erase id
    store := if hasStore = true ∧ forgotten.isOk = true then s.store.erase id else s.store
    registrations := if unregistered.isOk = true then s.registrations.erase id
      else s.registrations } := by
  unfold SchedulerState.remove SchedulerState.unregister SchedulerState.forget
  split <;> split <;> rfl

theorem remove_sameAt {x : Uuid} (hne : x ≠ id) :
    s.SameAt (s.remove hasStore id unregistered forgotten).1 x := by
  rw [remove_eq]
  constructor
  · exact AList.lookup_erase_ne hne
  · dsimp only
    split
    · exact AList.lookup_erase_ne hne
    · rfl
  · dsimp only
    split
    · exact AList.lookup_erase_ne hne
    · rfl

theorem remove_sound (hsound : s.Sound) : (s.remove hasStore id unregistered forgotten).1.Sound := by
  have hsame := fun x => @remove_sameAt hasStore s id unregistered forgotten x
  have hforgot : ∀ x ∈ (s.remove hasStore id unregistered forgotten).1.store, x ∈ s.store := by
    rw [remove_eq]
    dsimp only
    split
    · exact fun x hx => (AList.mem_erase.mp hx).2
    · exact fun _ hx => hx
  have hremoved : ∀ x ∈ (s.remove hasStore id unregistered forgotten).1.registrations,
      x ∈ s.registrations := by
    rw [remove_eq]
    dsimp only
    split
    · exact fun x hx => (AList.mem_erase.mp hx).2
    · exact fun _ hx => hx
  have hissued : (s.remove hasStore id unregistered forgotten).1.issued = s.issued := by
    rw [remove_eq]
  constructor
  · rw [remove_eq]
    exact ⟨hsound.idle.unlocked, hsound.idle.returned⟩
  · rw [hissued, remove_eq]
    exact fun x hx => hsound.jobs x (AList.mem_erase.mp hx).2
  · rw [hissued]
    exact fun x hx => hsound.store x (hforgot x hx)
  · rw [hissued]
    exact fun x hx => hsound.registrations x (hremoved x hx)
  · intro x job registration hlookup hregistration
    by_cases hx : x = id
    · subst hx
      rw [remove_eq, AList.lookup_erase] at hlookup
      cases hlookup
    · exact (hsame x hx).fires hsound job registration hlookup hregistration

theorem remove_quiet (hquiet : s.Quiet) :
    (s.remove hasStore id unregistered forgotten).1.Quiet := by
  intro x
  by_cases hx : x = id
  · subst hx
    rw [remove_eq]
    intro job hlookup hdisabled
    dsimp only at hlookup ⊢
    split
    · rw [AList.lookup_erase]
    · split at hlookup
      · rw [AList.lookup_erase] at hlookup
        cases hlookup
      · exact hquiet x job hlookup hdisabled
  · exact (remove_sameAt hx).quietAt_iff.mpr (hquiet x)

theorem remove_kept (hkept : ∀ x ∈ promised, s.Registered x) :
    ∀ x ∈ promised.filter fun other => other ≠ id,
      (s.remove hasStore id unregistered forgotten).1.Registered x := by
  intro x hx
  rcases List.mem_filter.mp hx with ⟨hmem, hne⟩
  exact (remove_sameAt (of_decide_eq_true hne)).registered_iff.mpr (hkept x hmem)

end Remove

/-! ## Runs of a job -/

section Run

variable {a : FiringAnswers}

theorem finishes_of_retries {job : CronJob} (h : job.retries a.success = true) :
    job.finishes a.success = false := by
  unfold CronJob.retries at h
  unfold CronJob.finishes
  cases hsuccess : a.success with
  | true => simp [hsuccess] at h
  | false =>
      cases hexhausted : job.exhausted with
      | true => simp [hexhausted] at h
      | false => rfl

theorem unregisters_finishes {job : CronJob} (h : a.unregisters job = true) :
    job.finishes a.success = true := by
  unfold FiringAnswers.unregisters at h
  unfold CronJob.finishes
  cases hsuccess : a.success with
  | true => simp [hsuccess] at h
  | false =>
      cases hexhausted : job.exhausted with
      | true => rfl
      | false => simp [hexhausted] at h

theorem recordFiring_others {job : CronJob} (hjob : job.id = id)
    (hothers : ∀ x ∈ promised, x ≠ id → s.Registered x) :
    ∀ x ∈ promised, x ≠ id → (s.recordFiring hasStore id job a).Registered x :=
  fun x hx hne => (recordFiring_sameAt hjob hne).registered_iff.mpr (hothers x hx hne)

theorem updateStatus_kept_iff {job : JobOf id} (hsound : s.Sound)
    (hlookup : s.jobs.lookup id = some job) (hfresh : a.retry.Fresh s)
    (hissued : ∀ x ∈ promised, x ∈ s.issued) (hid : id ∈ s.issued)
    (hothers : ∀ x ∈ promised, x ≠ id → s.Registered x) :
    (∀ x ∈ promisedAfterRun hasStore (some job) a promised,
        (s.updateStatus hasStore id a).1.Registered x) ↔
      (id ∈ promised → job.1.finishes a.success = true ∨
        (a.retried hasStore job.1).isSome = true ∨ id ∈ s.registrations) := by
  have hrecorded := @recordFiring_others hasStore s promised id a job.1 job.2 hothers
  have hregistered := @recordFiring_registered_iff hasStore s job.1 id a job.2
    fun registration => hsound.fires id job registration hlookup
  unfold promisedAfterRun
  dsimp only
  cases hretried : a.retried hasStore job.1 with
  | none =>
      rw [updateStatus_of_kept hlookup hretried, renamed_none]
      cases hfinishes : job.1.finishes a.success with
      | true =>
          rw [if_pos rfl]
          refine iff_of_true ?_ fun _ => .inl rfl
          intro x hx
          rcases List.mem_filter.mp hx with ⟨hmem, hne⟩
          exact hrecorded x hmem (of_decide_eq_true hne)
      | false =>
          have hstays : a.unregisters job.1 = false := by
            cases hunregisters : a.unregisters job.1 with
            | false => rfl
            | true =>
                rw [unregisters_finishes hunregisters] at hfinishes
                cases hfinishes
          rw [if_neg Bool.false_ne_true]
          constructor
          · intro hkept hmem
            exact .inr (.inr (hregistered.mp (hkept id hmem)).1)
          · intro hkept x hx
            by_cases hne : x = id
            · subst hne
              rcases hkept hx with hover | hagain | hmem
              · cases hover
              · cases hagain
              · exact hregistered.mpr ⟨hmem, hstays⟩
            · exact hrecorded x hx hne
  | some new =>
      rcases updateStatus_of_retried hlookup hretried with ⟨hretries, hregisters, hstate⟩
      rw [hstate, finishes_of_retries hretries, if_neg Bool.false_ne_true]
      refine iff_of_true ?_ fun _ => .inr (.inl rfl)
      have hretry : (job.1.retryJob a).id = id := by rw [retryJob_id, job.2]
      have hafresh : a.retry.Fresh (s.recordFiring hasStore id job.1 a) := by
        unfold RegistrationAnswers.Fresh
        rw [recordFiring_issued]
        exact hfresh
      have hkept := (@register_kept_iff hasStore (s.recordFiring hasStore id job.1 a) promised
        (job.1.retryJob a) a.retry hafresh (by rw [recordFiring_issued, hretry]; exact hid)
        (by rw [recordFiring_issued]; exact hissued) fun _ => False).mpr
      rw [hretry, hregisters] at hkept
      simp only [or_false] at hkept
      apply hkept
      intro x hx
      by_cases hne : x = id
      · exact .inl ⟨hne, rfl⟩
      · exact .inr (hrecorded x hx hne)

theorem updateStatus_quiet_iff {job : JobOf id} (hsound : s.Sound)
    (hlookup : s.jobs.lookup id = some job) (hfresh : a.retry.Fresh s) (hquiet : s.Quiet) :
    (s.updateStatus hasStore id a).1.Quiet ↔
      (hasStore = true → a.saved.isOk = true →
        (job.1.afterRun a.time a.success).enabled = true ∨ id ∉ s.registrations ∨
          a.unregisters job.1 = true ∨
          (a.retried hasStore job.1).isSome = true ∧ a.retry.forgotten.isOk = true) ∧
      ((a.retried hasStore job.1).isSome = true → hasStore = true →
        a.retry.saved.isOk = true → job.1.enabled = true) := by
  have hat := @recordFiring_quietAt_iff hasStore s job.1 id a job.2 (hquiet id)
  have hothers : ∀ x, x ≠ id → (s.recordFiring hasStore id job.1 a).QuietAt x :=
    fun x hne => (recordFiring_sameAt job.2 hne).quietAt_iff.mpr (hquiet x)
  cases hretried : a.retried hasStore job.1 with
  | none =>
      rw [updateStatus_of_kept hlookup hretried]
      have hall : (s.recordFiring hasStore id job.1 a).Quiet ↔
          (s.recordFiring hasStore id job.1 a).QuietAt id := by
        constructor
        · exact fun h => h id
        · intro h x
          by_cases hne : x = id
          · rw [hne]
            exact h
          · exact hothers x hne
      rw [hall, hat]
      simp
  | some new =>
      rcases updateStatus_of_retried hlookup hretried with ⟨hretries, hregisters, hstate⟩
      have hid : id ∈ s.issued := by
        apply hsound.jobs
        rw [← AList.lookup_isSome, hlookup]
        rfl
      have hretry : (job.1.retryJob a).id = id := by rw [retryJob_id, job.2]
      have hnew : new ∉ s.issued ∧ new ≠ (job.1.retryJob a).id :=
        registers_fresh hfresh (by rw [hretry]; exact hid) hregisters
      have hunstored : new ∉ (s.recordFiring hasStore id job.1 a).store := by
        have hrecorded := @recordFiring_sound hasStore s job.1 id a hsound job.2 hid
          fun registration => hsound.fires id job registration hlookup
        intro hmem
        have hissued := hrecorded.store new hmem
        rw [recordFiring_issued] at hissued
        exact hnew.1 hissued
      rw [hstate, register_quiet_iff hunstored hregisters hnew.2
        (by rw [hretry]; exact hothers), hretry, hat, retryJob_enabled hretries]
      refine and_congr ?_ (by simp)
      constructor
      · intro h hstore hsaved
        rcases h with hforgotten | hrecorded
        · exact .inr (.inr (.inr ⟨rfl, hforgotten.2⟩))
        · rcases hrecorded hstore hsaved with henabled | hmissing | hunregisters
          · exact .inl henabled
          · exact .inr (.inl hmissing)
          · exact .inr (.inr (.inl hunregisters))
      · intro h
        by_cases hforgotten : hasStore = true ∧ a.retry.forgotten.isOk = true
        · exact .inl hforgotten
        · refine .inr fun hstore hsaved => ?_
          rcases h hstore hsaved with henabled | hmissing | hunregisters | hagain
          · exact .inl henabled
          · exact .inr (.inl hmissing)
          · exact .inr (.inr hunregisters)
          · exact absurd ⟨hstore, hagain.2⟩ hforgotten

theorem updateStatus_sound (hsound : s.Sound) (hfresh : a.retry.Fresh s)
    (hissued : ∀ x ∈ promised, x ∈ s.issued) :
    World.Sound {
      state := (s.updateStatus hasStore id a).1
      promised := promisedAfterRun hasStore (s.jobs.lookup id) a promised } := by
  cases hlookup : s.jobs.lookup id with
  | none =>
      rw [updateStatus_of_none hlookup]
      exact ⟨hsound, hissued⟩
  | some job =>
      have hid : id ∈ s.issued := by
        apply hsound.jobs
        rw [← AList.lookup_isSome, hlookup]
        rfl
      have hrecorded := @recordFiring_sound hasStore s job.1 id a hsound job.2 hid
        fun registration => hsound.fires id job registration hlookup
      have hgrows : ∀ x ∈ promised, x ∈ (s.recordFiring hasStore id job.1 a).issued := by
        rw [recordFiring_issued]
        exact hissued
      cases hretried : a.retried hasStore job.1 with
      | none =>
          rw [updateStatus_of_kept hlookup hretried]
          refine ⟨hrecorded, ?_⟩
          unfold promisedAfterRun
          dsimp only
          rw [hretried, renamed_none]
          split
          · exact fun x hx => hgrows x (List.mem_filter.mp hx).1
          · exact hgrows
      | some new =>
          rcases updateStatus_of_retried hlookup hretried with ⟨hretries, hregisters, hstate⟩
          have hretry : (job.1.retryJob a).id = id := by rw [retryJob_id, job.2]
          rw [hstate]
          constructor
          · apply register_sound hasStore hrecorded
            · unfold RegistrationAnswers.Fresh
              rw [recordFiring_issued]
              exact hfresh
            · rw [recordFiring_issued, hretry]
              exact hid
          · unfold promisedAfterRun
            dsimp only
            rw [finishes_of_retries hretries, if_neg Bool.false_ne_true, hretried, ← hregisters]
            have hrenamed := @register_promised_issued (s.recordFiring hasStore id job.1 a) promised
              (job.1.retryJob a) a.retry hasStore hgrows
            rw [hretry] at hrenamed
            exact hrenamed

theorem updateStatus_keeps_iff (hsound : s.Sound) (hfresh : a.retry.Fresh s)
    (hissued : ∀ x ∈ promised, x ∈ s.issued) (hquiet : s.Quiet)
    (hothers : ∀ x ∈ promised, x ≠ id → s.Registered x)
    (hpresent : id ∈ promised → id ∈ s.jobs) :
    ((∀ x ∈ promisedAfterRun hasStore (s.jobs.lookup id) a promised,
        (s.updateStatus hasStore id a).1.Registered x) ∧
      (s.updateStatus hasStore id a).1.Quiet) ↔
      ∀ job, s.jobs.lookup id = some job → KeepsAtRun hasStore s promised id job.1 a := by
  cases hlookup : s.jobs.lookup id with
  | none =>
      rw [updateStatus_of_none hlookup]
      have hkept : ∀ x ∈ promised, s.Registered x := by
        intro x hx
        refine hothers x hx ?_
        intro heq
        rw [heq] at hx
        exact AList.lookup_eq_none.mp hlookup (hpresent hx)
      refine iff_of_true ⟨hkept, hquiet⟩ ?_
      intro job hjob
      cases hjob
  | some job =>
      have hid : id ∈ s.issued := by
        apply hsound.jobs
        rw [← AList.lookup_isSome, hlookup]
        rfl
      rw [updateStatus_kept_iff hsound hlookup hfresh hissued hid hothers,
        updateStatus_quiet_iff hsound hlookup hfresh hquiet]
      constructor
      · intro ⟨hregistered, hstored, hretry⟩ job' hjob'
        cases hjob'
        exact ⟨hregistered, hstored, hretry⟩
      · intro h
        rcases h job rfl with ⟨hregistered, hstored, hretry⟩
        exact ⟨hregistered, hstored, hretry⟩

theorem usedUp_sound (hsound : s.Sound) : (s.usedUp id).Sound := by
  rcases usedUp_eq s id with ⟨hjobs, hstore, hissued, hregistrations⟩
  constructor
  · exact usedUp_idle hsound.idle
  · rw [hjobs, hissued]
    exact hsound.jobs
  · rw [hstore, hissued]
    exact hsound.store
  · rw [hissued]
    rcases hregistrations with hsame | herased
    · rw [hsame]
      exact hsound.registrations
    · rw [herased]
      exact fun x hx => hsound.registrations x (AList.mem_erase.mp hx).2
  · intro x job registration hlookup hregistration
    rw [hjobs] at hlookup
    refine hsound.fires x job registration hlookup ?_
    rcases hregistrations with hsame | herased
    · rwa [hsame] at hregistration
    · by_cases hne : x = id
      · rw [herased, hne, AList.lookup_erase] at hregistration
        cases hregistration
      · rwa [herased, AList.lookup_erase_ne hne] at hregistration

theorem usedUp_quiet (hquiet : s.Quiet) : (s.usedUp id).Quiet := by
  rcases usedUp_eq s id with ⟨_, hstore, _, hregistrations⟩
  intro x job hlookup hdisabled
  rw [hstore] at hlookup
  have hnone := hquiet x job hlookup hdisabled
  rcases hregistrations with hsame | herased
  · rwa [hsame]
  · rw [herased, AList.lookup_eq_none]
    exact fun hmem => AList.lookup_eq_none.mp hnone (AList.mem_erase.mp hmem).2

end Run

/-! ## Restarts -/

section Restart

variable {job : CronJob} {a : RegistrationAnswers} {attempts : List (CronJob × RegistrationAnswers)}

theorem register_succeeds_iff (hasStore : Bool) (s : SchedulerState) (job : CronJob)
    (a : RegistrationAnswers) :
    (s.register hasStore job a).2.isOk = a.succeeds hasStore job := by
  unfold SchedulerState.register RegistrationAnswers.succeeds RegistrationAnswers.registers
  cases triggerAt a.now job.schedule with
  | none => rfl
  | some found =>
      rcases found with ⟨trigger, kind⟩
      cases a.created with
      | error e => rfl
      | ok _ =>
          cases a.added with
          | error e => rfl
          | ok new => cases storeResult hasStore a.saved <;> rfl

theorem registerAll_cons (hasStore : Bool) (s : SchedulerState) (job : CronJob)
    (a : RegistrationAnswers) (attempts : List (CronJob × RegistrationAnswers)) :
    (s.registerAll hasStore ((job, a) :: attempts)).1 =
      if a.succeeds hasStore job then
        ((s.register hasStore job a).1.registerAll hasStore attempts).1
      else (s.register hasStore job a).1 := by
  rw [SchedulerState.registerAll, ← register_succeeds_iff hasStore s job a]
  rcases s.register hasStore job a with ⟨s', result⟩
  cases result <;> rfl

theorem register_issued_mono (hasStore : Bool) (job : CronJob) (a : RegistrationAnswers) {x : Uuid}
    (hx : x ∈ s.issued) : x ∈ (s.register hasStore job a).1.issued := by
  rw [register_issued_eq]
  exact List.mem_append_right _ hx

theorem registerAll_sound (hsound : s.Sound) (hfresh : AllFresh hasStore s attempts)
    (hjobs : ∀ attempt ∈ attempts, attempt.1.id ∈ s.issued)
    (hissued : ∀ x ∈ promised, x ∈ s.issued) :
    World.Sound {
      state := (s.registerAll hasStore attempts).1
      promised := (reached hasStore attempts).foldl
        (fun promised attempt => renamed attempt.1.id (attempt.2.registers attempt.1) promised)
        promised } := by
  induction attempts generalizing s promised with
  | nil => exact ⟨hsound, hissued⟩
  | cons attempt attempts ih =>
      rcases attempt with ⟨job, a⟩
      have hjob : job.id ∈ s.issued := hjobs (job, a) List.mem_cons_self
      have hregister := register_sound hasStore hsound hfresh.1 hjob
      have hrenamed := @register_promised_issued s promised job a hasStore hissued
      rw [registerAll_cons, reached, List.foldl_cons]
      by_cases hsucceeds : a.succeeds hasStore job = true
      · rw [if_pos hsucceeds, if_pos hsucceeds]
        refine ih hregister (hfresh.2 ?_) ?_ hrenamed
        · rwa [register_succeeds_iff]
        · intro other hother
          exact register_issued_mono hasStore job a (hjobs other (List.mem_cons_of_mem _ hother))
      · rw [if_neg hsucceeds, if_neg hsucceeds]
        exact ⟨hregister, hrenamed⟩

/-- Loading registers the promised jobs that are reached and that the runtime takes. -/
theorem registerAll_kept_iff (hsound : s.Sound) (hfresh : AllFresh hasStore s attempts)
    (hjobs : ∀ attempt ∈ attempts, attempt.1.id ∈ s.issued)
    (hissued : ∀ x ∈ promised, x ∈ s.issued) :
    (∀ x ∈ (reached hasStore attempts).foldl
        (fun promised attempt => renamed attempt.1.id (attempt.2.registers attempt.1) promised)
        promised, (s.registerAll hasStore attempts).1.Registered x) ↔
      ∀ x ∈ promised, s.Registered x ∨ ∃ attempt ∈ reached hasStore attempts,
        attempt.1.id = x ∧ (attempt.2.registers attempt.1).isSome = true := by
  induction attempts generalizing s promised with
  | nil => simp [reached, SchedulerState.registerAll]
  | cons attempt attempts ih =>
      rcases attempt with ⟨job, a⟩
      have hjob : job.id ∈ s.issued := hjobs (job, a) List.mem_cons_self
      rw [registerAll_cons, reached, List.foldl_cons]
      by_cases hsucceeds : a.succeeds hasStore job = true
      · have hrest := @ih (s.register hasStore job a).1
          (renamed job.id (a.registers job) promised)
          (register_sound hasStore hsound hfresh.1 hjob)
          (hfresh.2 (by rwa [register_succeeds_iff]))
          (fun other hother =>
            register_issued_mono hasStore job a (hjobs other (List.mem_cons_of_mem _ hother)))
          (register_promised_issued hasStore hissued)
        rw [if_pos hsucceeds, if_pos hsucceeds, hrest, register_kept_iff hfresh.1 hjob hissued]
        apply forall₂_congr
        intro x _
        simp only [List.mem_cons, exists_eq_or_imp]
        rw [or_left_comm, eq_comm]
      · have hfirst := @register_kept_iff hasStore s promised job a hfresh.1 hjob hissued
          fun _ => False
        simp only [or_false] at hfirst
        rw [if_neg hsucceeds, if_neg hsucceeds, List.foldl_nil, hfirst]
        apply forall₂_congr
        intro x _
        simp only [List.mem_singleton, exists_eq_left]
        rw [or_comm, eq_comm]

theorem registerAll_sameAt (hfresh : AllFresh hasStore s attempts)
    (hjobs : ∀ attempt ∈ attempts, attempt.1.id ∈ s.issued ∧ attempt.1.id ≠ id)
    (hid : id ∈ s.issued) : s.SameAt (s.registerAll hasStore attempts).1 id := by
  induction attempts generalizing s with
  | nil => exact ⟨rfl, rfl, rfl⟩
  | cons attempt attempts ih =>
      rcases attempt with ⟨job, a⟩
      have hjob := hjobs (job, a) List.mem_cons_self
      have hfirst : s.SameAt (s.register hasStore job a).1 id := by
        cases h : a.registers job with
        | none =>
            rw [register_of_none hasStore s h]
            exact ⟨rfl, rfl, rfl⟩
        | some new =>
            rcases registers_fresh hfresh.1 hjob.1 h with ⟨hnew, hne⟩
            refine register_sameAt h hne ?_ hjob.2.symm
            intro heq
            rw [heq] at hid
            exact hnew hid
      rw [registerAll_cons]
      by_cases hsucceeds : a.succeeds hasStore job = true
      · rw [if_pos hsucceeds]
        refine hfirst.trans (ih (hfresh.2 ?_) ?_ (register_issued_mono hasStore job a hid))
        · rwa [register_succeeds_iff]
        · intro other hother
          have hold := hjobs other (List.mem_cons_of_mem _ hother)
          exact ⟨register_issued_mono hasStore job a hold.1, hold.2⟩
      · rw [if_neg hsucceeds]
        exact hfirst

/-- Loading registers a job that is stored as disabled if it is reached and taken. -/
theorem registerAll_quiet_iff (hsound : s.Sound) (hfresh : AllFresh hasStore s attempts)
    (hjobs : ∀ attempt ∈ attempts, attempt.1.id ∈ s.issued) (hquiet : s.Quiet) :
    (s.registerAll hasStore attempts).1.Quiet ↔
      ∀ attempt ∈ reached hasStore attempts, (attempt.2.registers attempt.1).isSome = true →
        hasStore = true → attempt.2.saved.isOk = true → attempt.1.enabled = true := by
  induction attempts generalizing s with
  | nil =>
      refine iff_of_true hquiet ?_
      intro attempt hattempt
      cases hattempt
  | cons attempt attempts ih =>
      rcases attempt with ⟨job, a⟩
      have hjob : job.id ∈ s.issued := hjobs (job, a) List.mem_cons_self
      have hfirst := @register_keeps_quiet_iff hasStore s job a hsound hfresh.1 hjob hquiet
      rw [registerAll_cons, reached, List.forall_mem_cons, ← hfirst]
      by_cases hsucceeds : a.succeeds hasStore job = true
      · rw [if_pos hsucceeds, if_pos hsucceeds]
        have hallFresh : AllFresh hasStore (s.register hasStore job a).1 attempts :=
          hfresh.2 (by rwa [register_succeeds_iff])
        have hkept : ∀ other ∈ attempts, other.1.id ∈ (s.register hasStore job a).1.issued :=
          fun other hother =>
            register_issued_mono hasStore job a (hjobs other (List.mem_cons_of_mem _ hother))
        by_cases hafter : (s.register hasStore job a).1.Quiet
        · rw [and_iff_right hafter]
          exact ih (register_sound hasStore hsound hfresh.1 hjob) hallFresh hkept hafter
        · -- the job stays as it is while the others are registered
          refine iff_of_false ?_ fun h => hafter h.1
          intro hall
          apply hafter
          rw [hfirst]
          intro hsome
          rcases Option.isSome_iff_exists.mp hsome with ⟨new, hregisters⟩
          rcases registers_fresh hfresh.1 hjob hregisters with ⟨hnew, hne⟩
          have hunstored : new ∉ s.store := fun hmem => hnew (hsound.store new hmem)
          have hissued : new ∈ (s.register hasStore job a).1.issued := by
            rw [register_issued hregisters]
            exact List.mem_cons_self
          have hsame := @registerAll_sameAt hasStore (s.register hasStore job a).1 new attempts
            hallFresh
            (by
              intro other hother
              refine ⟨hkept other hother, ?_⟩
              intro heq
              apply hnew
              rw [← heq]
              exact hjobs other (List.mem_cons_of_mem _ hother))
            hissued
          exact (register_quietAt_new hregisters hne hunstored).mp
            (hsame.quietAt_iff.mp (hall new))
      · rw [if_neg hsucceeds, if_neg hsucceeds]
        simp

theorem stopped_sound (hsound : s.Sound) : s.stopped.Sound :=
  ⟨stopped_idle s, fun _ hx => absurd hx (AList.notMem_empty _), hsound.store,
    fun _ hx => absurd hx (AList.notMem_empty _), fun _ _ _ hlookup => nomatch hlookup⟩

theorem stopped_quiet (s : SchedulerState) : s.stopped.Quiet := fun _ _ _ _ => rfl

theorem stopped_registered (s : SchedulerState) (id : Uuid) : ¬s.stopped.Registered id :=
  fun ⟨_, _, hlookup, _⟩ => nomatch hlookup

theorem loaded_issued (hsound : s.Sound)
    (hperm : (attempts.map Prod.fst).Perm (s.store.entries.map fun entry => entry.2.1)) :
    ∀ attempt ∈ attempts, attempt.1.id ∈ s.issued := by
  intro attempt hattempt
  rcases List.mem_map.mp (hperm.mem_iff.mp (List.mem_map_of_mem hattempt)) with ⟨entry, hentry, heq⟩
  rw [← heq, entry.2.2]
  exact hsound.store entry.1 (List.mem_map_of_mem hentry)

end Restart

/-! ## Steps and runs -/

theorem perform_step {w : World} {call : SchedulerCall} (hsound : w.Sound)
    (hpossible : call.Possible hasStore w.state) :
    (w.perform hasStore call).Sound ∧ (w.Kept ∧ w.state.Quiet →
      ((w.perform hasStore call).Kept ∧ (w.perform hasStore call).state.Quiet ↔
        call.Keeps hasStore w)) := by
  rcases w with ⟨s, promised⟩
  rcases hsound with ⟨hsound, hissued⟩
  rcases hpossible with ⟨hanswered, hfired⟩
  dsimp only at hsound hissued hanswered hfired
  cases call with
  | addJob name schedule payload id a =>
      refine ⟨add_sound hsound hanswered.2 hissued, ?_⟩
      intro ⟨hkept, hquiet⟩
      refine (and_iff_left ?_).trans (add_kept_iff hsound hanswered.1 hanswered.2 hissued hkept)
      exact add_quiet hsound hanswered.2 hquiet
  | triggerConsolidation agentId limit now id a =>
      refine ⟨add_sound hsound hanswered.2 hissued, ?_⟩
      intro ⟨hkept, hquiet⟩
      refine (and_iff_left ?_).trans
        ((add_kept_iff hsound hanswered.1 hanswered.2 hissued hkept).trans ?_)
      · exact add_quiet hsound hanswered.2 hquiet
      · exact ⟨fun h => h now rfl, fun h time htime => by cases htime; exact h⟩
  | removeJob id unregistered forgotten =>
      refine ⟨⟨remove_sound hsound, ?_⟩, ?_⟩
      · have heq : (s.remove hasStore id unregistered forgotten).1.issued = s.issued := by
          rw [remove_eq]
        intro x hx
        show x ∈ (s.remove hasStore id unregistered forgotten).1.issued
        rw [heq]
        exact hissued x (List.mem_filter.mp hx).1
      · intro ⟨hkept, hquiet⟩
        exact iff_of_true ⟨remove_kept hkept, remove_quiet hquiet⟩ trivial
  | updateJobStatus id a =>
      refine ⟨updateStatus_sound hsound hanswered hissued, ?_⟩
      intro ⟨hkept, hquiet⟩
      exact updateStatus_keeps_iff hsound hanswered hissued hquiet (fun x hx _ => hkept x hx)
        fun hx => registered_mem (hkept id hx)
  | fire id job a =>
      rcases usedUp_eq s id with ⟨hjobs, _, hgiven, _⟩
      have hfresh : a.retry.Fresh (s.usedUp id) := by
        unfold RegistrationAnswers.Fresh
        rw [hgiven]
        exact hanswered
      have hused : ∀ x ∈ promised, x ∈ (s.usedUp id).issued := by
        rw [hgiven]
        exact hissued
      constructor
      · have hafter := @updateStatus_sound hasStore (s.usedUp id) promised id a
          (usedUp_sound hsound) hfresh hused
        rw [hjobs] at hafter
        exact hafter
      · intro ⟨hkept, hquiet⟩
        have hkeeps := @updateStatus_keeps_iff hasStore (s.usedUp id) promised id a
          (usedUp_sound hsound) hfresh hused (usedUp_quiet hquiet)
          (fun x hx hne => (usedUp_sameAt hne).registered_iff.mpr (hkept x hx))
          (fun hx => by rw [hjobs]; exact registered_mem (hkept id hx))
        rw [hjobs] at hkeeps
        exact hkeeps
  | restart loaded =>
      cases loaded with
      | none =>
          refine ⟨⟨stopped_sound hsound, hissued⟩, ?_⟩
          intro _
          refine (and_iff_left (stopped_quiet s)).trans ?_
          refine Iff.trans ?_ List.eq_nil_iff_forall_not_mem.symm
          exact forall₂_congr fun x _ => iff_of_false (stopped_registered s x) id
      | some attempts =>
          rcases hanswered with ⟨hstore, hperm, hfresh⟩
          have hjobs := loaded_issued hsound hperm
          have hstopped := stopped_sound hsound
          refine ⟨registerAll_sound hstopped hfresh hjobs hissued, ?_⟩
          intro _
          refine (and_congr (registerAll_kept_iff hstopped hfresh hjobs hissued)
            (registerAll_quiet_iff hstopped hfresh hjobs (stopped_quiet s))).trans ?_
          simp only [stopped_registered, false_or, hstore, forall_true_left]
          exact ⟨fun ⟨hregistered, hquiet⟩ => ⟨hregistered, hquiet⟩,
            fun ⟨hregistered, hquiet⟩ => ⟨hregistered, hquiet⟩⟩

theorem start_sound : World.Sound {} := by
  have hempty : ∀ (p : Uuid → Prop) (x : Uuid), x ∈ (∅ : JobTable) → p x :=
    fun _ x hx => absurd hx (AList.notMem_empty x)
  refine ⟨⟨⟨rfl, rfl⟩, hempty _, hempty _, ?_, ?_⟩, ?_⟩
  · exact fun x hx => absurd hx (AList.notMem_empty x)
  · intro _ _ _ hlookup
    cases hlookup
  · intro x hx
    cases hx

/-- After every step all promised jobs are registered and no disabled job is, exactly if
every step keeps the promises. -/
theorem SchedulerRun.promisesKept_iff (run : SchedulerRun hasStore) :
    (∀ pre, pre <+: run.calls →
      (worldAfter hasStore pre).Kept ∧ (worldAfter hasStore pre).state.Quiet) ↔
      History.Preceded (fun pre call => call.Keeps hasStore (worldAfter hasStore pre))
        run.calls := by
  have hstart : World.Kept {} ∧ SchedulerState.Quiet {} := by
    constructor
    · intro x hx
      cases hx
    · intro _ _ hlookup
      cases hlookup
  exact @History.foldl_throughout_of_possible _ run.calls _ (World.perform hasStore) {} World.Sound
    (fun w => w.Kept ∧ w.state.Quiet) (fun w call => call.Possible hasStore w.state)
    (fun w call => call.Keeps hasStore w) run.possible start_sound hstart
    fun _ _ hsound hpossible => perform_step hsound hpossible

/-! ## Programs one after another -/

/-- Programs that run one after another, with what each returns. The runtime fires a job that it
has. -/
inductive Executes (hasStore : Bool) (shard : Uuid → Nat) :
    List (SchedulerRequest × Option Uuid) → SchedulerState → Prop
  | start : Executes hasStore shard [] {}
  | next {log : List (SchedulerRequest × Option Uuid)} {s s' : SchedulerState}
      {q : SchedulerRequest} {r : Option Uuid} (h : Executes hasStore shard log s)
      (hfired : ∀ id job, q = .fire id job → s.registrations.lookup id = some job)
      (hcompletes : Interaction.Completes (schedulerResource shard) (q.program hasStore)
        (q.before s) s' r) : Executes hasStore shard (log ++ [(q, r)]) s'

/-- The clock stands still, and no call of the runtime or of the store fails. -/
def accepted (id : Uuid) : RegistrationAnswers := ⟨0, .ok (), .ok id, .ok (), .ok ()⟩

theorem accepted_fresh {new : Uuid} (h : new ∉ s.issued) : (accepted new).Fresh s := by
  intro id hid
  cases hid
  exact h

theorem fire_possible {job : RuntimeJob} {a : FiringAnswers} (hfresh : a.retry.Fresh s)
    (hregistration : s.registrations.lookup id = some job) :
    SchedulerCall.Possible hasStore s (.fire id job a) := by
  refine ⟨hfresh, ?_⟩
  intro id' job' hrequest
  cases hrequest
  exact hregistration

theorem possible_of_answered {call : SchedulerCall} (h : call.Answered hasStore s)
    (hrequest : ∀ id job, call.request ≠ .fire id job) : call.Possible hasStore s :=
  ⟨h, fun id job heq => absurd heq (hrequest id job)⟩

def consolidationRun : SchedulerRun true :=
  SchedulerRun.start.snoc (.triggerConsolidation none 10 0 "made" (accepted "run"))
    (possible_of_answered ⟨by decide, accepted_fresh (by decide)⟩ nofun)

/-- The job after four failures. -/
def disabledJob : CronJob where
  id := "run"
  name := "logs"
  schedule := .every 3600
  payload := .distillLogs 100
  enabled := false
  lastRunAt := some 0
  errorCount := 4

def failure : SchedulerCall :=
  .fire "run" (disabledJob.runtimeJob (.repeated 3600))
    ⟨false, 0, .ok (), .ok (), 0, accepted "again"⟩

def addedRun : SchedulerRun true :=
  SchedulerRun.start.snoc
    (.addJob "logs" (.every 3600) (.distillLogs 100) "made" (accepted "run"))
    (possible_of_answered ⟨by decide, accepted_fresh (by decide)⟩ nofun)

def failedOnce : SchedulerRun true :=
  addedRun.snoc failure (fire_possible (accepted_fresh (by decide)) (by decide +kernel))

def failedTwice : SchedulerRun true :=
  failedOnce.snoc failure (fire_possible (accepted_fresh (by decide +kernel)) (by decide +kernel))

def failedThrice : SchedulerRun true :=
  failedTwice.snoc failure (fire_possible (accepted_fresh (by decide +kernel)) (by decide +kernel))

def failedRun : SchedulerRun true :=
  failedThrice.snoc failure (fire_possible (accepted_fresh (by decide +kernel)) (by decide +kernel))

theorem failedRun_store : (worldAfter true failedRun.calls).state.store.entries.map
    (fun entry => entry.2.1) = [disabledJob] := by
  decide +kernel

def disabledRun : SchedulerRun true :=
  failedRun.snoc (.restart (some [(disabledJob, accepted "late")]))
    (possible_of_answered
      ⟨rfl, .of_eq failedRun_store.symm, accepted_fresh (by decide +kernel), fun _ => trivial⟩ nofun)

/-- A consolidation that is triggered is never run, and a restart registers a job that is
stored as disabled. -/
theorem promises_broken :
    ¬(worldAfter true consolidationRun.calls).Kept ∧
      ¬(worldAfter true disabledRun.calls).state.Quiet := by
  constructor
  · intro hkept
    rcases hkept "made" (by decide +kernel) with ⟨_, _, hlookup, _⟩
    have hnone : (worldAfter true consolidationRun.calls).state.jobs.lookup "made" = none := by
      decide +kernel
    rw [hnone] at hlookup
    cases hlookup
  · intro hquiet
    have hstored : (worldAfter true disabledRun.calls).state.store.lookup "late" =
        some ⟨{ disabledJob with id := "late" }, rfl⟩ := by
      decide +kernel
    have hregistered : ((worldAfter true disabledRun.calls).state.registrations.lookup "late") =
        some (disabledJob.runtimeJob (.repeated 3600)) := by
      decide +kernel
    have hnone := hquiet "late" _ hstored rfl
    rw [hregistered] at hnone
    cases hnone

end BenShu.Scheduler
