import BenShu.Scheduler.Locks

/-!
# Removing a job

A removal takes the job out of the store first and out of the map last. A firing that
borrows the entry in between writes the job back to the store.
-/

namespace BenShu.Scheduler

open Interaction

variable {κ : Type} [DecidableEq κ] {hasStore : Bool} {shard : Uuid → Nat} {id : Uuid}
  {firings : κ → Uuid × RuntimeJob} {s : SchedulerState}

/-- Requests of a removal, at `none`, and of firings. -/
abbrev SchedulerLog (κ : Type) := ThreadLog (Option κ) SchedulerOp SchedulerAns

variable {log l l' : SchedulerLog κ} {programs : Option κ → SchedulerProg Reply}
  {ghosts : Option κ → Holding}

def Present (hasStore : Bool) (id : Uuid) (s : SchedulerState) : Prop :=
  id ∈ s.jobs ∨ hasStore = true ∧ id ∈ s.store

def Saves (id : Uuid) (e : Event SchedulerOp SchedulerAns) : Prop :=
  ∃ job, e = ⟨.saveJob job, .ok ()⟩ ∧ job.id = id

/-- From the return of the removal on, the job is nowhere. -/
def RemovedForGood (hasStore : Bool) (shard : Uuid → Nat) (id : Uuid)
    (firings : κ → Uuid × RuntimeJob) (s : SchedulerState) (log : SchedulerLog κ) : Prop :=
  ∀ pre post middle result, log = pre ++ post →
    Interleaved (schedulerResource shard) (callers hasStore id firings) s pre middle →
    middle none = .pure (.removed result) →
    ¬Present hasStore id ((schedulerResource shard).afterAll s pre)

/-- The call to the store succeeds unless the job is not there, and nobody saves the job
between this call and its removal from the map. -/
def StaysForgotten (shard : Uuid → Nat) (id : Uuid) (s : SchedulerState) (log : SchedulerLog κ) :
    Prop :=
  ∀ l₁ forgotten l₂ found l₃,
    log = l₁ ++ (none, ⟨.forgetJob id, forgotten⟩) :: (l₂ ++ (none, ⟨.takeJob id, found⟩) :: l₃) →
    (forgotten.isOk = true ∨ id ∉ ((schedulerResource shard).afterAll s l₁).store) ∧
      ∀ entry ∈ l₂, ¬Saves id entry.2

/-! ## What the store keeps -/

theorem mem_store_after_iff {e : Event SchedulerOp SchedulerAns}
    (h : ∀ k, e.op ≠ .forgetJob k) : id ∈ (s.after e).store ↔ id ∈ s.store ∨ Saves id e := by
  have hother : (∀ job, e.op ≠ .saveJob job) → ¬Saves id e := by
    intro hop ⟨job, he, _⟩
    rw [he] at hop
    exact hop job rfl
  have hsame : (∀ job, e.op ≠ .saveJob job) → (s.after e).store = s.store →
      (id ∈ (s.after e).store ↔ id ∈ s.store ∨ Saves id e) := by
    intro hop hstore
    rw [hstore]
    simp [hother hop]
  rcases e with ⟨o, answer⟩
  cases o with
  | saveJob job =>
      cases answer with
      | error e =>
          have hnot : ¬Saves id ⟨.saveJob job, .error e⟩ := by
            intro ⟨job', he, _⟩
            cases he
          simp [SchedulerState.after, hnot]
      | ok _ =>
          have hsaves : Saves id ⟨.saveJob job, .ok ()⟩ ↔ id = job.id := by
            constructor
            · intro ⟨job', he, hid⟩
              cases he
              exact hid.symm
            · intro hid
              exact ⟨job, rfl, hid.symm⟩
          rw [hsaves, or_comm]
          exact JobTable.mem_put_iff
  | forgetJob k => exact absurd rfl (h k)
  | addRuntime job => cases answer <;> exact hsame (fun _ => nofun) rfl
  | removeRuntime k => cases answer <;> exact hsame (fun _ => nofun) rfl
  | borrowJob k => cases answer <;> exact hsame (fun _ => nofun) rfl
  | _ => exact hsame (fun _ => nofun) rfl

omit [DecidableEq κ] in
theorem mem_store_afterAll_iff (h : ∀ entry ∈ l, ∀ k, entry.2.op ≠ .forgetJob k) :
    id ∈ ((schedulerResource shard).afterAll s l).store ↔
      id ∈ s.store ∨ ∃ entry ∈ l, Saves id entry.2 := by
  induction l generalizing s with
  | nil => simp [Resource.afterAll]
  | cons entry l ih =>
      show id ∈ ((schedulerResource shard).afterAll (s.after entry.2) l).store ↔ _
      rw [ih fun other hother => h other (List.mem_cons_of_mem _ hother),
        mem_store_after_iff (h entry List.mem_cons_self)]
      simp [or_assoc]

/-! ## While the removal holds the lock -/

theorem locking_foldl {t : Trace SchedulerOp SchedulerAns} {g : Holding} (hlocking : g.locking = true)
    (h : ∀ e ∈ t, e.op ≠ .unlockScheduler) : (t.foldl lockRule.next g).locking = true := by
  induction t generalizing g with
  | nil => exact hlocking
  | cons e t ih =>
      rw [List.foldl_cons]
      refine ih ?_ fun e' he' => h e' (List.mem_cons_of_mem _ he')
      have hfirst := h e List.mem_cons_self
      rcases e with ⟨o, answer⟩
      cases o with
      | lockScheduler => rfl
      | unlockScheduler => exact absurd rfl hfirst
      | addRuntime job => cases answer <;> exact hlocking
      | borrowJob k => cases answer <;> exact hlocking
      | _ => exact hlocking

theorem forgets_as_holder {i : Option κ} {k : Uuid} {answer : Except SchedulerError Unit}
    (h : Interleaved (schedulerResource shard) (callers hasStore id firings) s
      (l ++ (i, ⟨.forgetJob k, answer⟩) :: l') programs) (hid : id ∈ s.issued)
    (hlocking : ((threadLog none l).foldl lockRule.next {}).locking = true) : i = none := by
  rcases h.request_within coherent_step (callers_follow id firings) (coherent_start hid) with
    ⟨hcoherent, hmay, _⟩
  refine hcoherent.lockUnique i none hmay ?_
  rw [Rule.afterAll_apply]
  exact hlocking

theorem no_forget_while_locked {region : SchedulerLog κ}
    (h : Interleaved (schedulerResource shard) (callers hasStore id firings) s
      (l ++ (region ++ l')) programs) (hid : id ∈ s.issued)
    (hlocking : ((threadLog none l).foldl lockRule.next {}).locking = true)
    (hregion : ∀ e ∈ threadLog none region, e.op ≠ .unlockScheduler ∧ ∀ k, e.op ≠ .forgetJob k) :
    ∀ entry ∈ region, ∀ k, entry.2.op ≠ .forgetJob k := by
  intro ⟨i, o, answer⟩ hmem k hop
  dsimp only at hop
  subst hop
  rcases List.append_of_mem hmem with ⟨m₁, m₂, hsplit⟩
  have hnone : i = none := by
    rw [hsplit, List.append_assoc, ← List.append_assoc l, List.cons_append] at h
    refine forgets_as_holder h hid ?_
    rw [threadLog_append, List.foldl_append]
    refine locking_foldl hlocking fun e he => (hregion e ?_).1
    rw [hsplit, threadLog_append]
    exact List.mem_append_left _ he
  subst hnone
  refine (hregion ⟨.forgetJob k, answer⟩ ?_).2 k rfl
  rw [hsplit, threadLog_append, threadLog_cons_self]
  exact List.mem_append_right _ List.mem_cons_self

/-! ## Once the map has lost the job -/

/-- The job is not in the map, and not in the store if that matters. -/
def Gone (hasStore : Bool) (shard : Uuid → Nat) (id : Uuid) (ghosts : Option κ → Holding)
    (s : SchedulerState) : Prop :=
  Coherent shard id ghosts s ∧ ¬Present hasStore id s

/-- Nobody brings a job back that is not in the map. -/
theorem gone_step (ghosts : Option κ → Holding) (s : SchedulerState) (i : Option κ)
    (e : Event SchedulerOp SchedulerAns) (h : Gone hasStore shard id ghosts s)
    (hmay : lockRule.may (ghosts i) e.op) (hallows : (schedulerResource shard).allows s e) :
    Gone hasStore shard id (Function.update ghosts i (lockRule.next (ghosts i) e))
      ((schedulerResource shard).after s e) := by
  refine ⟨coherent_step ghosts s i e h.1 hmay hallows, ?_⟩
  have hmap : id ∉ s.jobs := fun hmem => h.2 (.inl hmem)
  have hborrow : ∀ k, (ghosts i).borrowing = some k → k ≠ id := by
    intro k hk heq
    subst heq
    exact hmap (h.1.borrow i _ hk).2
  have hregistered : ∀ k, (ghosts i).registered = some k → k ≠ id := by
    intro k hk heq
    subst heq
    exact h.1.fresh i hk
  rcases e with ⟨o, answer⟩
  cases o with
  | releaseJob job =>
      intro hpresent
      rcases hpresent with hjobs | hstore
      · rcases JobTable.mem_put_iff.mp hjobs with heq | hin
        · exact hborrow job.id hmay heq.symm
        · exact hmap hin
      · exact h.2 (.inr hstore)
  | insertJob job =>
      intro hpresent
      rcases hpresent with hjobs | hstore
      · rcases JobTable.mem_put_iff.mp hjobs with heq | hin
        · exact hregistered job.id hmay heq.symm
        · exact hmap hin
      · exact h.2 (.inr hstore)
  | takeJob k =>
      intro hpresent
      rcases hpresent with hjobs | hstore
      · exact hmap (AList.mem_erase.mp hjobs).2
      · exact h.2 (.inr hstore)
  | saveJob job =>
      cases answer with
      | error e => exact h.2
      | ok _ =>
          have hne : job.id ≠ id := by
            rcases hmay with hborrowed | hown
            · exact hborrow job.id hborrowed
            · exact hregistered job.id hown
          intro hpresent
          rcases hpresent with hjobs | ⟨hhas, hstore⟩
          · exact hmap hjobs
          · rcases JobTable.mem_put_iff.mp hstore with heq | hin
            · exact hne heq.symm
            · exact h.2 (.inr ⟨hhas, hin⟩)
  | forgetJob k =>
      cases answer with
      | error e => exact h.2
      | ok _ =>
          intro hpresent
          rcases hpresent with hjobs | ⟨hhas, hstore⟩
          · exact hmap hjobs
          · exact h.2 (.inr ⟨hhas, (AList.mem_erase.mp hstore).2⟩)
  | addRuntime job => cases answer <;> exact h.2
  | removeRuntime k => cases answer <;> exact h.2
  | borrowJob k => cases answer <;> exact h.2
  | _ => exact h.2

theorem not_present_after_take {found : Bool}
    (h : Interleaved (schedulerResource shard) (callers hasStore id firings) s
      (l ++ (none, ⟨.takeJob id, found⟩) :: l') programs) (hid : id ∈ s.issued)
    (hstore : ¬(hasStore = true ∧ id ∈ ((schedulerResource shard).afterAll s l).store)) :
    ¬Present hasStore id ((schedulerResource shard).afterAll s
      (l ++ (none, ⟨.takeJob id, found⟩) :: l')) := by
  rw [List.append_cons] at h ⊢
  rcases h.split with ⟨middle, hfirst, hrest⟩
  rcases hfirst.invariant coherent_step (callers_follow id firings) (coherent_start hid) with
    ⟨hcoherent, hfollows⟩
  have htaken : ¬Present hasStore id ((schedulerResource shard).afterAll s
      (l ++ [(none, ⟨.takeJob id, found⟩)])) := by
    rw [Resource.afterAll_append]
    intro hpresent
    rcases hpresent with hjobs | hkept
    · exact (AList.mem_erase.mp hjobs).1 rfl
    · exact hstore hkept
  rw [Resource.afterAll_append]
  exact (hrest.invariant gone_step hfollows ⟨hcoherent, htaken⟩).1.2

/-! ## The removal from start to end -/

omit [DecidableEq κ] in
theorem runs_removal {t : Trace SchedulerOp SchedulerAns} {reply : Reply}
    (h : Runs (callers hasStore id firings none) t reply) :
    ∃ removed found,
      (hasStore = true ∧ ∃ forgotten, t = [⟨.lockScheduler, ()⟩, ⟨.removeRuntime id, removed⟩,
        ⟨.forgetJob id, forgotten⟩, ⟨.takeJob id, found⟩, ⟨.unlockScheduler, ()⟩]) ∨
      (hasStore = false ∧ t = [⟨.lockScheduler, ()⟩, ⟨.removeRuntime id, removed⟩,
        ⟨.takeJob id, found⟩, ⟨.unlockScheduler, ()⟩]) := by
  cases hasStore with
  | true =>
      rcases h with ⟨_, _, rfl, removed, _, rfl, forgotten, _, rfl, found, _, rfl, _, _, rfl, rfl, _⟩
      exact ⟨removed, found, .inl ⟨rfl, forgotten, rfl⟩⟩
  | false =>
      rcases h with ⟨_, _, rfl, removed, _, rfl, found, _, rfl, _, _, rfl, rfl, _⟩
      exact ⟨removed, found, .inr ⟨rfl, rfl⟩⟩

variable {forgotten : Except SchedulerError Unit}

/-- The calls of the removal stand in this order. -/
theorem removal_parts {x y z : Trace SchedulerOp SchedulerAns} {removed : Except String Unit}
    {forgotten' : Except SchedulerError Unit} {found found' : Bool}
    (h : x ++ ⟨.forgetJob id, forgotten⟩ :: (y ++ ⟨.takeJob id, found⟩ :: z) =
      [⟨.lockScheduler, ()⟩, ⟨.removeRuntime id, removed⟩, ⟨.forgetJob id, forgotten'⟩,
        ⟨.takeJob id, found'⟩, ⟨.unlockScheduler, ()⟩]) :
    x = [⟨.lockScheduler, ()⟩, ⟨.removeRuntime id, removed⟩] ∧ y = [] ∧
      z = [⟨.unlockScheduler, ()⟩] := by
  rcases x with _ | ⟨_, _ | ⟨_, _ | ⟨_, _ | ⟨_, _ | ⟨_, x⟩⟩⟩⟩⟩
  · simp at h
  · simp at h
  · simp only [List.cons_append, List.nil_append, List.cons.injEq] at h
    rcases h with ⟨rfl, rfl, -, h⟩
    rcases y with _ | ⟨_, _ | ⟨_, y⟩⟩
    · simp at h
      exact ⟨rfl, rfl, h.2⟩
    · simp at h
    · simp at h
  · simp at h
  · simp at h
  · simp at h

omit [DecidableEq κ] in
theorem mem_store_forget_iff :
    id ∈ (s.after ⟨.forgetJob id, forgotten⟩).store ↔ ¬(forgotten.isOk = true ∨ id ∉ s.store) := by
  cases forgotten with
  | error e => simp [SchedulerState.after, Except.isOk, Except.toBool]
  | ok _ => simp [SchedulerState.after, Except.isOk, Except.toBool]

/-- Up to the return of the removal, the store keeps the job if it did after the call to forget it
or if somebody saved it. -/
theorem mem_store_region_iff {region : SchedulerLog κ} {removed : Except String Unit}
    (h : Interleaved (schedulerResource shard) (callers hasStore id firings) s
      (l ++ (none, ⟨.forgetJob id, forgotten⟩) :: (region ++ l')) programs) (hid : id ∈ s.issued)
    (hown : threadLog none l = [⟨.lockScheduler, ()⟩, ⟨.removeRuntime id, removed⟩])
    (hregion : ∀ e ∈ threadLog none region, e.op ≠ .unlockScheduler ∧ ∀ k, e.op ≠ .forgetJob k) :
    id ∈ ((schedulerResource shard).afterAll s
        (l ++ (none, ⟨.forgetJob id, forgotten⟩) :: region)).store ↔
      ¬(forgotten.isOk = true ∨ id ∉ ((schedulerResource shard).afterAll s l).store) ∨
        ∃ entry ∈ region, Saves id entry.2 := by
  rw [List.append_cons] at h
  have hlocking : ((threadLog none (l ++ [(none, ⟨.forgetJob id, forgotten⟩)])).foldl
      lockRule.next {}).locking = true := by
    rw [threadLog_append, hown]
    cases removed <;> rfl
  have hkept := no_forget_while_locked h hid hlocking hregion
  rw [Resource.afterAll_append]
  show id ∈ ((schedulerResource shard).afterAll
    (((schedulerResource shard).afterAll s l).after ⟨.forgetJob id, forgotten⟩) region).store ↔ _
  rw [mem_store_afterAll_iff hkept, mem_store_forget_iff]

theorem removal_order {l₁ l₂ l₃ : SchedulerLog κ} {found : Bool} {reply : Reply}
    (h : Runs (callers hasStore id firings none) (threadLog none (l₁ ++
      (none, ⟨.forgetJob id, forgotten⟩) :: (l₂ ++ (none, ⟨.takeJob id, found⟩) :: l₃))) reply) :
    hasStore = true ∧ (∃ removed,
      threadLog none l₁ = [⟨.lockScheduler, ()⟩, ⟨.removeRuntime id, removed⟩]) ∧
      threadLog none l₂ = [] ∧ threadLog none l₃ = [⟨.unlockScheduler, ()⟩] := by
  rw [threadLog_append, threadLog_cons_self, threadLog_append, threadLog_cons_self] at h
  rcases runs_removal h with ⟨removed, found', hparts⟩
  rcases hparts with ⟨hhas, forgotten', hown⟩ | ⟨_, hown⟩
  · rcases removal_parts hown with ⟨hfirst, hmiddle, hlast⟩
    exact ⟨hhas, ⟨removed, hfirst⟩, hmiddle, hlast⟩
  · have hmem : (⟨.forgetJob id, forgotten⟩ : Event SchedulerOp SchedulerAns) ∈
        threadLog none l₁ ++ ⟨.forgetJob id, forgotten⟩ ::
          (threadLog none l₂ ++ ⟨.takeJob id, found⟩ :: threadLog none l₃) :=
      List.mem_append_right _ List.mem_cons_self
    rw [hown] at hmem
    simp at hmem

theorem staysForgotten_of_removedForGood
    (h : Interleaved (schedulerResource shard) (callers hasStore id firings) s log programs)
    {result : Except SchedulerError Bool} (hreturned : programs none = .pure (.removed result))
    (hid : id ∈ s.issued) (hgone : RemovedForGood hasStore shard id firings s log) :
    StaysForgotten shard id s log := by
  intro l₁ forgotten l₂ found l₃ hlog
  have hruns := h.runs hreturned
  rw [hlog] at hruns
  rcases removal_order hruns with ⟨hhas, ⟨removed, hfirst⟩, hmiddle, hlast⟩
  rcases threadLog_split [] hlast with ⟨m₁, m₂, hl₃, hm₁, hm₂⟩
  -- the log up to the return
  have hsplit : log = (l₁ ++ (none, ⟨.forgetJob id, forgotten⟩) ::
      (l₂ ++ (none, ⟨.takeJob id, found⟩) :: m₁)) ++ (none, ⟨.unlockScheduler, ()⟩) :: m₂ := by
    rw [hlog, hl₃]
    simp
  have hreturn := hsplit
  rw [List.append_cons] at hreturn
  rw [hreturn] at h
  rcases h.split with ⟨middle, hpre, hpost⟩
  have hdone : middle none = .pure (.removed result) := by
    rw [← hpost.idle hm₂]
    exact hreturned
  have habsent := hgone _ m₂ middle result hreturn hpre hdone
  have hregion : ∀ e ∈ threadLog none (l₂ ++ (none, ⟨.takeJob id, found⟩) :: m₁),
      e.op ≠ .unlockScheduler ∧ ∀ k, e.op ≠ .forgetJob k := by
    rw [threadLog_append, threadLog_cons_self, hmiddle, hm₁]
    simp
  have hstore : id ∉ ((schedulerResource shard).afterAll s
      (l₁ ++ (none, ⟨.forgetJob id, forgotten⟩) ::
        (l₂ ++ (none, ⟨.takeJob id, found⟩) :: m₁))).store := by
    intro hmem
    rw [Resource.afterAll_append] at habsent
    exact habsent (.inr ⟨hhas, hmem⟩)
  have hinterleaved := h
  rw [← hreturn, hsplit, List.append_assoc, List.cons_append] at hinterleaved
  rw [mem_store_region_iff hinterleaved hid hfirst hregion, not_or, not_not] at hstore
  refine ⟨hstore.1, fun entry hentry hsaves => hstore.2 ⟨entry, ?_, hsaves⟩⟩
  exact List.mem_append_left _ hentry

theorem removedForGood_of_staysForgotten (hid : id ∈ s.issued)
    (hstays : StaysForgotten shard id s log) :
    RemovedForGood hasStore shard id firings s log := by
  intro pre post middle result hlog hpre hdone
  rcases runs_removal (hpre.runs hdone) with ⟨removed, found, hparts⟩
  rcases hparts with ⟨_, forgotten, hown⟩ | ⟨hhas, hown⟩
  · rcases threadLog_split [_, _] hown with ⟨l₁, m, hsplit, hfirst, hm⟩
    rcases threadLog_split [] hm with ⟨l₂, l₃, hm', hl₂, _⟩
    subst hm'
    have hcondition := hstays l₁ forgotten l₂ found (l₃ ++ post) (by rw [hlog, hsplit]; simp)
    rw [hsplit] at hpre ⊢
    have hstore : id ∉ ((schedulerResource shard).afterAll s
        (l₁ ++ (none, ⟨.forgetJob id, forgotten⟩) :: l₂)).store := by
      rw [mem_store_region_iff hpre hid hfirst (by simp [hl₂]), not_or, not_not]
      exact ⟨hcondition.1, fun ⟨entry, hentry, hsaves⟩ => hcondition.2 entry hentry hsaves⟩
    rw [← List.cons_append, ← List.append_assoc] at hpre ⊢
    exact not_present_after_take hpre hid fun h => hstore h.2
  · rcases threadLog_split [_, _] hown with ⟨l₁, l₂, hsplit, _, _⟩
    rw [hsplit] at hpre ⊢
    refine not_present_after_take hpre hid fun h => ?_
    rw [hhas] at h
    cases h.1

/-- A removal is final if and only if the store forgets the job when it is told to, and no firing
saves the job between that call and its removal from the map. -/
theorem removedForGood_iff
    (h : Interleaved (schedulerResource shard) (callers hasStore id firings) s log programs)
    (hreturned : ∃ result, programs none = .pure (.removed result)) (hid : id ∈ s.issued) :
    RemovedForGood hasStore shard id firings s log ↔ StaysForgotten shard id s log := by
  rcases hreturned with ⟨result, hreturned⟩
  constructor
  · exact staysForgotten_of_removedForGood h hreturned hid
  · exact removedForGood_of_staysForgotten hid

/-! ## A run -/

section Run

def hourlyJob : CronJob where
  id := "hourly"
  name := "logs"
  schedule := .every 3600
  payload := .distillLogs 100

def hourlyRuntimeJob : RuntimeJob where
  trigger := .repeated 3600
  name := "logs"
  payload := .distillLogs 100

def hourlyState : SchedulerState where
  jobs := JobTable.put ∅ hourlyJob
  store := JobTable.put ∅ hourlyJob
  registrations := Table.ofList [("hourly", hourlyRuntimeJob)]
  issued := ["hourly"]

/-- A firing finds the job in the map while the removal is between its last two calls. -/
def hourlyLog : SchedulerLog Unit :=
  let ran := { hourlyJob with lastRunAt := some 5 }
  [(some (), ⟨.handle "logs" (.distillLogs 100), .replied (.ok none)⟩),
    (none, ⟨.lockScheduler, ()⟩),
    (none, ⟨.removeRuntime "hourly", .ok ()⟩),
    (none, ⟨.forgetJob "hourly", .ok ()⟩),
    (some (), ⟨.borrowJob "hourly", some ⟨hourlyJob, rfl⟩⟩),
    (some (), ⟨.utcNow, (5 : Int)⟩),
    (some (), ⟨.saveJob ran, .ok ()⟩),
    (some (), ⟨.releaseJob ran, ()⟩),
    (none, ⟨.takeJob "hourly", true⟩),
    (none, ⟨.unlockScheduler, ()⟩)]

theorem hourlyLog_interleaved :
    ∃ programs, Interleaved (schedulerResource fun _ => 0)
        (callers true "hourly" fun _ : Unit => ("hourly", hourlyRuntimeJob)) hourlyState hourlyLog
        programs ∧
      programs none = .pure (.removed (.ok true)) := by
  refine Interleaved.follow (by rfl) (by trivial) ?_
  refine Interleaved.follow (by rfl) (by rfl) ?_
  refine Interleaved.follow (by rfl) (by trivial) ?_
  refine Interleaved.follow (by rfl) (by trivial) ?_
  refine Interleaved.follow (by rfl) ⟨by rfl, by decide⟩ ?_
  refine Interleaved.follow (by rfl) (by trivial) ?_
  refine Interleaved.follow (by rfl) (by trivial) ?_
  refine Interleaved.follow (by rfl) (by trivial) ?_
  refine Interleaved.follow (by rfl) ⟨by rfl, by decide⟩ ?_
  refine Interleaved.follow (by rfl) (by trivial) ?_
  exact ⟨_, .done _ _, rfl⟩

theorem hourlyLog_present :
    Present true "hourly" ((schedulerResource fun _ => 0).afterAll hourlyState hourlyLog) := by
  right
  exact ⟨rfl, by decide⟩

/-- The removal has returned, and the job is in the store. -/
theorem removal_undone :
    ∃ programs : Option Unit → SchedulerProg Reply,
      Interleaved (schedulerResource fun _ => 0)
        (callers true "hourly" fun _ => ("hourly", hourlyRuntimeJob)) hourlyState hourlyLog
        programs ∧
      programs none = .pure (.removed (.ok true)) ∧
      ¬RemovedForGood true (fun _ => 0) "hourly" (fun _ => ("hourly", hourlyRuntimeJob))
        hourlyState hourlyLog := by
  rcases hourlyLog_interleaved with ⟨programs, hrun, hreturned⟩
  refine ⟨programs, hrun, hreturned, fun hgone => ?_⟩
  exact hgone hourlyLog [] programs _ (List.append_nil _).symm hrun hreturned hourlyLog_present

theorem removedForGood_iff_hourly :
    RemovedForGood true (fun _ => 0) "hourly" (fun _ => ("hourly", hourlyRuntimeJob)) hourlyState
        hourlyLog ↔
      StaysForgotten (fun _ => 0) "hourly" hourlyState hourlyLog := by
  rcases hourlyLog_interleaved with ⟨programs, hrun, hreturned⟩
  exact removedForGood_iff hrun ⟨_, hreturned⟩ (by decide)

end Run

end BenShu.Scheduler
