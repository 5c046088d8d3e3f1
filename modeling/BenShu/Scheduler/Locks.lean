import BenShu.Scheduler.Scheduler

/-!
# Who holds which lock

Every caller takes its locks in turn, changes entries of the map it has borrowed, and
saves jobs it has borrowed or registered. The identifier in question is never handed
out again.
-/

namespace BenShu.Scheduler

open Interaction
open Protocol (DateTime)

/-! ## The callers -/

/-- What a call returns. -/
inductive Reply where
  | removed (result : Except SchedulerError Bool)
  | fired

/-- One removal of a job beside firings of any jobs. -/
def callers {κ : Type} (hasStore : Bool) (id : Uuid) (firings : κ → Uuid × RuntimeJob) :
    Option κ → SchedulerProg Reply
  | none => do return .removed (← removeJob hasStore id)
  | some k => do
      (firings k).2.fire hasStore (firings k).1
      return .fired

/-! ## The rule -/

/-- The locks of a caller, and the identifier it was last handed out. -/
structure Holding where
  locking : Bool := false
  borrowing : Option Uuid := none
  registered : Option Uuid := none

namespace Holding

def setLocking (t : Holding) (locking : Bool) : Holding := { t with locking := locking }

def setBorrowing (t : Holding) (borrowing : Option Uuid) : Holding :=
  { t with borrowing := borrowing }

def setRegistered (t : Holding) (registered : Uuid) : Holding :=
  { t with registered := some registered }

end Holding

def lockRule : Rule SchedulerOp SchedulerAns Holding where
  may t
    | .lockScheduler => t.locking = false
    | .unlockScheduler => t.locking = true
    | .borrowJob _ => t.borrowing = none
    | .releaseJob job => t.borrowing = some job.id
    | .insertJob job => t.registered = some job.id
    | .saveJob job => t.borrowing = some job.id ∨ t.registered = some job.id
    | .forgetJob _ => t.locking = true
    | _ => True
  next t
    | ⟨.lockScheduler, _⟩ => t.setLocking true
    | ⟨.unlockScheduler, _⟩ => t.setLocking false
    | ⟨.borrowJob id, some _⟩ => t.setBorrowing (some id)
    | ⟨.releaseJob _, _⟩ => t.setBorrowing none
    | ⟨.addRuntime _, .ok id⟩ => t.setRegistered id
    | _ => t

variable {hasStore : Bool} {t : Holding} {α : Type}

variable {ends : Except SchedulerError Unit → Holding → Prop}

theorem follows_saveJob {job : CronJob}
    (hmay : t.borrowing = some job.id ∨ t.registered = some job.id)
    (hends : ∀ saved, ends saved t) : Follows lockRule (saveJob hasStore job) t ends := by
  unfold saveJob
  split
  · exact ⟨hmay, hends⟩
  · exact hends _

theorem follows_forgetJob {id : Uuid} (hmay : t.locking = true)
    (hends : ∀ forgotten, ends forgotten t) : Follows lockRule (forgetJob hasStore id) t ends := by
  unfold forgetJob
  split
  · exact ⟨hmay, hends⟩
  · exact hends _

theorem follows_executePayload {name : String} {payload : JobPayload}
    (hends : ∀ result, ends result t) : Follows lockRule (executePayload name payload) t ends := by
  apply Follows.request trivial
  intro reply
  exact hends _

theorem follows_triggerOf {schedule : JobSchedule}
    {ends : Option (Trigger × String) → Holding → Prop} (hends : ∀ trigger, ends trigger t) :
    Follows lockRule (triggerOf schedule) t ends := by
  cases schedule with
  | atTime time =>
      apply Follows.request trivial
      intro now
      split
      · exact hends _
      · exact hends _
  | every intervalSecs => exact hends _
  | cron expr => exact hends _

theorem follows_leaveOriginal {idOriginal registeredId : Uuid} {ends : Unit → Holding → Prop}
    (hmay : t.locking = true) (hends : ends () t) :
    Follows lockRule (leaveOriginal hasStore idOriginal registeredId) t ends := by
  unfold leaveOriginal
  split
  · apply Follows.request trivial
    intro found
    exact Follows.bind (follows_forgetJob hmay fun _ => hends)
  · exact hends

theorem follows_enterJob {cronJob : CronJob} {job : RuntimeJob} (hlocking : t.locking = true) :
    Follows lockRule (enterJob hasStore cronJob job) t fun _ t' =>
      t'.locking = true ∧ t'.borrowing = t.borrowing := by
  apply Follows.request trivial
  intro added
  cases added with
  | error e => exact ⟨hlocking, rfl⟩
  | ok registeredId =>
      apply Follows.request rfl
      intro _
      apply Follows.bind
      apply follows_leaveOriginal
      · exact hlocking
      · apply Follows.bind
        apply follows_saveJob
        · exact .inr rfl
        · intro saved
          cases saved with
          | error e => exact ⟨hlocking, rfl⟩
          | ok _ => exact ⟨hlocking, rfl⟩

theorem follows_registerJobRuntime {cronJob : CronJob} (hlocking : t.locking = false) :
    Follows lockRule (registerJobRuntime hasStore cronJob) t fun _ t' =>
      t'.locking = false ∧ t'.borrowing = t.borrowing := by
  apply Follows.bind
  apply follows_triggerOf
  intro trigger
  cases trigger with
  | none => exact ⟨hlocking, rfl⟩
  | some trigger =>
      apply Follows.request trivial
      intro created
      cases created with
      | error e => exact ⟨hlocking, rfl⟩
      | ok _ =>
          apply Follows.request hlocking
          intro _
          apply Follows.bind
          apply Follows.mono (follows_enterJob rfl)
          intro result t' hends
          exact ⟨hends.1, fun _ => ⟨rfl, hends.2⟩⟩

theorem follows_recordRun {id : Uuid} {job : JobOf id} {time : DateTime} {success : Bool}
    {ends : JobOf id × Bool → Holding → Prop} (hlocking : t.locking = false)
    (hends : ∀ recorded, ends recorded t) :
    Follows lockRule (recordRun job time success) t ends := by
  have hunlocked : t.setLocking false = t := by
    rw [← hlocking]
    rfl
  unfold recordRun
  dsimp only
  split
  · exact hends _
  · split
    · apply Follows.request hlocking
      intro _
      apply Follows.request trivial
      intro removed
      have hsame : ∀ t' : Holding, lockRule.next t' ⟨.removeRuntime id, removed⟩ = t' := by
        intro t'
        cases removed <;> rfl
      rw [hsame]
      apply Follows.request rfl
      intro _
      show ends _ (t.setLocking false)
      rw [hunlocked]
      exact hends _
    · split
      · exact hends _
      · exact hends _

theorem follows_finishRun {job : CronJob} {saved : Except SchedulerError Unit} {retryNeeded : Bool}
    (hlocking : t.locking = false) :
    Follows lockRule (finishRun hasStore job saved retryNeeded) t fun _ _ => True := by
  cases saved with
  | error e => exact trivial
  | ok _ =>
      cases retryNeeded with
      | false => exact trivial
      | true =>
          apply Follows.request trivial
          intro now
          apply Follows.bind
          refine Follows.mono (follows_registerJobRuntime ?_) ?_
          · exact hlocking
          · intro _ _ _
            exact trivial

theorem follows_updateJobStatus {id : Uuid} {success : Bool} (hlocking : t.locking = false)
    (hborrowing : t.borrowing = none) :
    Follows lockRule (updateJobStatus hasStore id success) t fun _ _ => True := by
  apply Follows.request hborrowing
  intro found
  cases found with
  | none => exact trivial
  | some job =>
      apply Follows.request trivial
      intro time
      apply Follows.bind
      apply follows_recordRun
      · exact hlocking
      · intro recorded
        have hborrowed : some id = some recorded.1.1.id := congrArg some recorded.1.2.symm
        apply Follows.bind
        apply follows_saveJob (.inl hborrowed)
        intro saved
        apply Follows.request hborrowed
        intro _
        apply follows_finishRun
        exact hlocking

theorem follows_removeJob {id : Uuid} (hlocking : t.locking = false) :
    Follows lockRule (removeJob hasStore id) t fun _ _ => True := by
  apply Follows.request hlocking
  intro _
  apply Follows.request trivial
  intro removed
  have hlocked : (lockRule.next (t.setLocking true)
      ⟨.removeRuntime id, removed⟩).locking = true := by
    cases removed <;> rfl
  apply Follows.bind
  apply follows_forgetJob hlocked
  intro _
  apply Follows.request trivial
  intro found
  exact ⟨hlocked, fun _ => trivial⟩

theorem callers_follow {κ : Type} (id : Uuid) (firings : κ → Uuid × RuntimeJob) (i : Option κ) :
    Follows lockRule (callers hasStore id firings i) {} fun _ _ => True := by
  cases i with
  | none => exact Follows.bind ((follows_removeJob rfl).mono fun _ _ _ => trivial)
  | some k =>
      apply Follows.bind
      apply Follows.bind
      apply follows_executePayload
      intro result
      apply Follows.bind
      exact (follows_updateJobStatus rfl rfl).mono fun _ _ _ => trivial

/-! ## The locks and the state -/

variable {ι : Type} [DecidableEq ι] {shard : Uuid → Nat} {id : Uuid} {ghosts : ι → Holding}
  {s s' : SchedulerState} {i : ι}

/-- The locks that callers hold are taken in the state, each by one caller, and no caller
was handed out the identifier. -/
structure Coherent (shard : Uuid → Nat) (id : Uuid) (ghosts : ι → Holding) (s : SchedulerState) :
    Prop where
  lock : ∀ i, (ghosts i).locking = true → s.locked = true
  lockUnique : ∀ i j, (ghosts i).locking = true → (ghosts j).locking = true → i = j
  borrow : ∀ i k, (ghosts i).borrowing = some k → k ∈ s.borrowed ∧ k ∈ s.jobs
  borrowUnique : ∀ i j k l, (ghosts i).borrowing = some k → (ghosts j).borrowing = some l →
    shard k = shard l → i = j
  issued : id ∈ s.issued
  fresh : ∀ i, (ghosts i).registered ≠ some id

omit [DecidableEq ι] in
theorem coherent_start (h : id ∈ s.issued) : Coherent shard id (fun _ : ι => {}) s where
  lock := by simp
  lockUnique := by simp
  borrow := by simp
  borrowUnique := by simp
  issued := h
  fresh := by simp

theorem field_update {γ : Type} (field : Holding → γ) (ghosts : ι → Holding) (i j : ι)
    {t : Holding} (h : field t = field (ghosts i)) :
    field (Function.update ghosts i t j) = field (ghosts j) := by
  by_cases hj : j = i
  · rw [hj, Function.update_self, h]
  · rw [Function.update_of_ne hj]

theorem field_update_apply {γ : Type} (field : Holding → γ) {t : Holding} (j : ι) :
    field (Function.update ghosts i t j) = if j = i then field t else field (ghosts j) := by
  rw [Function.update_apply, apply_ite field]

section Fields

variable {j : ι} {locking : Bool} {borrowing : Option Uuid} {registered : Uuid}

@[simp] theorem borrowing_setLocking :
    (Function.update ghosts i ((ghosts i).setLocking locking) j).borrowing =
      (ghosts j).borrowing :=
  field_update Holding.borrowing ghosts i j rfl

@[simp] theorem registered_setLocking :
    (Function.update ghosts i ((ghosts i).setLocking locking) j).registered =
      (ghosts j).registered :=
  field_update Holding.registered ghosts i j rfl

@[simp] theorem locking_setBorrowing :
    (Function.update ghosts i ((ghosts i).setBorrowing borrowing) j).locking =
      (ghosts j).locking :=
  field_update Holding.locking ghosts i j rfl

@[simp] theorem registered_setBorrowing :
    (Function.update ghosts i ((ghosts i).setBorrowing borrowing) j).registered =
      (ghosts j).registered :=
  field_update Holding.registered ghosts i j rfl

@[simp] theorem locking_setRegistered :
    (Function.update ghosts i ((ghosts i).setRegistered registered) j).locking =
      (ghosts j).locking :=
  field_update Holding.locking ghosts i j rfl

@[simp] theorem borrowing_setRegistered :
    (Function.update ghosts i ((ghosts i).setRegistered registered) j).borrowing =
      (ghosts j).borrowing :=
  field_update Holding.borrowing ghosts i j rfl

end Fields

theorem Coherent.same (h : Coherent shard id ghosts s) (hlocked : s'.locked = s.locked)
    (hborrowed : ∀ i k, (ghosts i).borrowing = some k → k ∈ s'.borrowed ∧ k ∈ s'.jobs)
    (hissued : id ∈ s'.issued) : Coherent shard id (Function.update ghosts i (ghosts i)) s' := by
  rw [Function.update_eq_self]
  refine ⟨?_, h.lockUnique, hborrowed, h.borrowUnique, hissued, h.fresh⟩
  rw [hlocked]
  exact h.lock

theorem Coherent.locks (h : Coherent shard id ghosts s) (hfree : s.locked = false) :
    Coherent shard id (Function.update ghosts i ((ghosts i).setLocking true))
      { s with locked := true } := by
  have hnone : ∀ j, (ghosts j).locking = false := by
    intro j
    by_contra hj
    have hlocked := h.lock j (by simpa using hj)
    rw [hfree] at hlocked
    cases hlocked
  have honly : ∀ j, (Function.update ghosts i ((ghosts i).setLocking true) j).locking = true →
      j = i := by
    intro j hj
    rw [field_update_apply Holding.locking, hnone] at hj
    by_contra hne
    rw [if_neg hne] at hj
    cases hj
  constructor
  · exact fun _ _ => rfl
  · intro j j' hj hj'
    rw [honly j hj, honly j' hj']
  · simpa using h.borrow
  · simpa using h.borrowUnique
  · exact h.issued
  · simpa using h.fresh

theorem Coherent.unlocks (h : Coherent shard id ghosts s) (hlocking : (ghosts i).locking = true) :
    Coherent shard id (Function.update ghosts i ((ghosts i).setLocking false))
      { s with locked := false } := by
  have hnone : ∀ j, (Function.update ghosts i ((ghosts i).setLocking false) j).locking =
      false := by
    intro j
    rw [field_update_apply Holding.locking]
    split
    · rfl
    · rename_i hj
      by_contra hlocks
      exact hj (h.lockUnique j i (by simpa using hlocks) hlocking)
  constructor
  · intro j hj
    rw [hnone] at hj
    cases hj
  · intro j j' hj
    rw [hnone] at hj
    cases hj
  · simpa using h.borrow
  · simpa using h.borrowUnique
  · exact h.issued
  · simpa using h.fresh

theorem Coherent.borrows (h : Coherent shard id ghosts s) {k : Uuid} (hmem : k ∈ s.jobs)
    (hfree : s.ShardFree shard k) :
    Coherent shard id (Function.update ghosts i ((ghosts i).setBorrowing (some k)))
      { s with borrowed := k :: s.borrowed } := by
  constructor
  · simpa using h.lock
  · simpa using h.lockUnique
  · intro j l hj
    rw [field_update_apply Holding.borrowing] at hj
    split at hj
    · cases hj
      exact ⟨List.mem_cons_self, hmem⟩
    · exact ⟨List.mem_cons_of_mem _ (h.borrow j l hj).1, (h.borrow j l hj).2⟩
  · intro j j' l l' hj hj' hshard
    rw [field_update_apply Holding.borrowing] at hj hj'
    split at hj
    · cases hj
      split at hj'
      · simp_all
      · exact absurd hshard.symm (hfree l' (h.borrow j' l' hj').1)
    · split at hj'
      · cases hj'
        exact absurd hshard (hfree l (h.borrow j l hj).1)
      · exact h.borrowUnique j j' l l' hj hj' hshard
  · exact h.issued
  · simpa using h.fresh

theorem Coherent.releases (h : Coherent shard id ghosts s) {job : CronJob}
    (hborrowing : (ghosts i).borrowing = some job.id) :
    Coherent shard id (Function.update ghosts i ((ghosts i).setBorrowing none))
      { s with jobs := s.jobs.put job, borrowed := s.borrowed.erase job.id } := by
  have hother : ∀ j k, (Function.update ghosts i ((ghosts i).setBorrowing none) j).borrowing =
      some k → j ≠ i ∧ (ghosts j).borrowing = some k := by
    intro j k hj
    rw [field_update_apply Holding.borrowing] at hj
    split at hj
    · cases hj
    · rename_i hne
      exact ⟨hne, hj⟩
  constructor
  · simpa using h.lock
  · simpa using h.lockUnique
  · intro j k hj
    rcases hother j k hj with ⟨hne, hk⟩
    have hdiffer : k ≠ job.id := by
      intro heq
      subst heq
      exact hne (h.borrowUnique j i _ _ hk hborrowing rfl)
    constructor
    · exact (List.mem_erase_of_ne hdiffer).mpr (h.borrow j k hk).1
    · exact JobTable.mem_put_iff.mpr (.inr (h.borrow j k hk).2)
  · intro j j' k l hj hj'
    exact h.borrowUnique j j' k l (hother j k hj).2 (hother j' l hj').2
  · exact h.issued
  · simpa using h.fresh

theorem Coherent.registers (h : Coherent shard id ghosts s) {k : Uuid} (hfresh : k ∉ s.issued)
    (job : RuntimeJob) :
    Coherent shard id (Function.update ghosts i ((ghosts i).setRegistered k))
      { s with registrations := s.registrations.insert k job, issued := k :: s.issued } := by
  constructor
  · simpa using h.lock
  · simpa using h.lockUnique
  · simpa using h.borrow
  · simpa using h.borrowUnique
  · exact List.mem_cons_of_mem _ h.issued
  · intro j
    rw [field_update_apply Holding.registered]
    split
    · intro heq
      cases heq
      exact hfresh h.issued
    · exact h.fresh j

/-- Every request within the rule keeps the locks coherent. -/
theorem coherent_step (ghosts : ι → Holding) (s : SchedulerState) (i : ι)
    (e : Event SchedulerOp SchedulerAns) (h : Coherent shard id ghosts s)
    (hmay : lockRule.may (ghosts i) e.op) (hallows : (schedulerResource shard).allows s e) :
    Coherent shard id (Function.update ghosts i (lockRule.next (ghosts i) e))
      ((schedulerResource shard).after s e) := by
  have hunchanged := h.same (i := i) rfl h.borrow h.issued
  rcases e with ⟨o, answer⟩
  cases o with
  | handle name payload => exact hunchanged
  | utcNow => exact hunchanged
  | newUuid => exact h.same rfl h.borrow (List.mem_cons_of_mem _ h.issued)
  | createJob job => exact hunchanged
  | lockScheduler => exact h.locks hallows
  | unlockScheduler => exact h.unlocks hmay
  | addRuntime job =>
      cases answer with
      | error e => exact hunchanged
      | ok k => exact h.registers hallows job
  | removeRuntime k =>
      cases answer with
      | error e => exact hunchanged
      | ok _ => exact h.same rfl h.borrow h.issued
  | borrowJob k =>
      cases answer with
      | none => exact hunchanged
      | some job =>
          have hmem : k ∈ s.jobs := by
            rw [← AList.lookup_isSome, ← hallows.1]
            rfl
          exact h.borrows hmem hallows.2
  | releaseJob job => exact h.releases hmay
  | insertJob job =>
      refine h.same rfl (fun j k hj => ?_) h.issued
      exact ⟨(h.borrow j k hj).1, JobTable.mem_put_iff.mpr (.inr (h.borrow j k hj).2)⟩
  | takeJob k =>
      refine h.same rfl (fun j l hj => ?_) h.issued
      have hne : l ≠ k := fun heq => hallows.2 l (h.borrow j l hj).1 (by rw [heq])
      exact ⟨(h.borrow j l hj).1, AList.mem_erase.mpr ⟨hne, (h.borrow j l hj).2⟩⟩
  | saveJob job =>
      cases answer with
      | error e => exact hunchanged
      | ok _ => exact h.same rfl h.borrow h.issued
  | forgetJob k =>
      cases answer with
      | error e => exact hunchanged
      | ok _ => exact h.same rfl h.borrow h.issued
  | loadAllJobs =>
      cases answer with
      | error e => exact hunchanged
      | ok jobs => exact hunchanged

end BenShu.Scheduler
