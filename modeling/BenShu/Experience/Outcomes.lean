import BenShu.Experience.IndexAgreement
import Mathlib.Logic.Function.Basic

/-!
# Concurrent calls on one experience

An update reads the record in one transaction and writes it in another, a deletion is one
transaction. Any number of calls on one id may be anywhere in this at a time.
-/

namespace BenShu.Experience

variable {F ι : Type}

inductive OutcomeCall where
  | update (mutation : UsageUpdate)
  | delete
deriving DecidableEq

/-- What a call has returned. -/
inductive Outcome where
  | updated
  | notFound
  | deleted
  | failed
deriving DecidableEq

/-- An update that has read holds the record and knows how many transactions had been
committed. -/
inductive Progress (F : Type) where
  | waiting
  | holding (experience : TaskExperience F) (since : Nat)
  | returned

structure Concurrent (F ι : Type) where
  store : ExperienceStore F
  progress : ι → Progress F
  committed : Nat
  returned : List (OutcomeCall × Outcome)

/-- The next transaction of a call, with the times that it reads from the clock. -/
structure Turn (ι : Type) where
  call : ι
  readNow : Int
  now : Int

namespace Concurrent

variable [DecidableEq ι] (lib : ExperienceLibrary F) (id : String) (calls : ι → OutcomeCall)

def returns (c : Concurrent F ι) (i : ι) (outcome : Outcome) : Concurrent F ι :=
  { c with
    progress := Function.update c.progress i .returned
    returned := c.returned ++ [(calls i, outcome)] }

def commits (c : Concurrent F ι) (i : ι) (store : ExperienceStore F) (outcome : Outcome) :
    Concurrent F ι :=
  { returns calls c i outcome with store := store, committed := c.committed + 1 }

def holds (c : Concurrent F ι) (i : ι) (experience : TaskExperience F) : Concurrent F ι :=
  { c with progress := Function.update c.progress i (.holding experience c.committed) }

def perform (c : Concurrent F ι) (turn : Turn ι) : Concurrent F ι :=
  let i := turn.call
  match calls i, c.progress i with
  | .update _, .waiting =>
      match c.store.get lib id with
      | .error _ => returns calls c i .failed
      | .ok none => returns calls c i .notFound
      | .ok (some experience) => holds c i experience
  | .update mutation, .holding experience _ =>
      match c.store.upsert lib turn.now (experience.apply lib mutation turn.readNow) with
      | (.error _, _) => returns calls c i .failed
      | (.ok _, store) => commits calls c i store .updated
  | .delete, .waiting =>
      match c.store.delete lib id with
      | (.error _, _) => returns calls c i .failed
      | (.ok false, _) => returns calls c i .notFound
      | (.ok true, store) => commits calls c i store .deleted
  | _, _ => c

def start (store : ExperienceStore F) : Concurrent F ι := ⟨store, fun _ => .waiting, 0, []⟩

def run (store : ExperienceStore F) (turns : List (Turn ι)) : Concurrent F ι :=
  turns.foldl (perform lib id calls) (start store)

end Concurrent

/-! ## What one transaction does -/

theorem ExperienceStore.get_ok_some {lib : ExperienceLibrary F} {s : ExperienceStore F}
    {id : String} {experience : TaskExperience F} (h : s.get lib id = .ok (some experience)) :
    ∃ stored, s.experiences.lookup id = some stored ∧ readBack lib stored = some experience := by
  unfold ExperienceStore.get at h
  split at h
  · cases h
  · rename_i stored hstored
    split at h
    · cases h
    · rename_i found hread
      cases h
      exact ⟨stored, hstored, hread⟩

theorem ExperienceStore.upsert_ok {lib : ExperienceLibrary F} {s s' : ExperienceStore F}
    {now : Int} {experience stored : TaskExperience F}
    (h : s.upsert lib now experience = (.ok stored, s')) :
    stored = experience.normalizeBeforeStore lib now ∧
      s'.experiences = s.experiences.insert experience.id stored := by
  rw [← experience.normalizeBeforeStore_id lib now]
  unfold ExperienceStore.upsert at h
  generalize experience.normalizeBeforeStore lib now = normalized at h ⊢
  dsimp only at h
  split at h
  · cases h
    exact ⟨rfl, rfl⟩
  · split at h
    · cases h
    · cases h
      exact ⟨rfl, rfl⟩

theorem ExperienceStore.upsert_of_readable {lib : ExperienceLibrary F} {s : ExperienceStore F}
    (now : Int) {experience : TaskExperience F}
    (h : ∀ stored, s.experiences.lookup experience.id = some stored →
      (readBack lib stored).isSome = true) :
    ∃ s', s.upsert lib now experience = (.ok (experience.normalizeBeforeStore lib now), s') := by
  rw [← experience.normalizeBeforeStore_id lib now] at h
  unfold ExperienceStore.upsert
  generalize experience.normalizeBeforeStore lib now = normalized at h ⊢
  dsimp only
  split
  · exact ⟨_, rfl⟩
  · rename_i stored hstored
    split
    · rename_i hnone
      have hsome := h stored hstored
      rw [hnone] at hsome
      cases hsome
    · exact ⟨_, rfl⟩

theorem ExperienceStore.readable_of_upsert {lib : ExperienceLibrary F} {s s' : ExperienceStore F}
    {now : Int} {experience stored found : TaskExperience F}
    (h : s.upsert lib now experience = (.ok stored, s'))
    (hfound : s.experiences.lookup experience.id = some found) :
    (readBack lib found).isSome = true := by
  rw [← experience.normalizeBeforeStore_id lib now] at hfound
  unfold ExperienceStore.upsert at h
  generalize experience.normalizeBeforeStore lib now = normalized at h hfound
  simp only [hfound] at h
  split at h
  · cases h
  · rename_i hread
    rw [hread]
    rfl

theorem ExperienceStore.delete_ok_true {lib : ExperienceLibrary F} {s s' : ExperienceStore F}
    {id : String} (h : s.delete lib id = (.ok true, s')) :
    s'.experiences = s.experiences.erase id := by
  unfold ExperienceStore.delete at h
  split at h
  · cases h
  · split at h
    · cases h
    · cases h
      rfl

namespace Concurrent

variable [DecidableEq ι] (lib : ExperienceLibrary F) (id : String) (calls : ι → OutcomeCall)

/-- The ways in which a transaction changes the state. -/
inductive Effect (c : Concurrent F ι) (turn : Turn ι) : Concurrent F ι → Prop where
  | idle : Effect c turn c
  | refused {outcome : Outcome} (hupdated : outcome ≠ .updated) (hdeleted : outcome ≠ .deleted) :
      Effect c turn (returns calls c turn.call outcome)
  | read {stored experience : TaskExperience F}
      (hstored : c.store.experiences.lookup id = some stored)
      (hread : readBack lib stored = some experience) :
      Effect c turn (holds c turn.call experience)
  | updated {mutation : UsageUpdate} {experience : TaskExperience F} {since : Nat}
      {store : ExperienceStore F} (hcall : calls turn.call = .update mutation)
      (hholding : c.progress turn.call = .holding experience since)
      (hupsert : c.store.upsert lib turn.now (experience.apply lib mutation turn.readNow) =
        (.ok ((experience.apply lib mutation turn.readNow).normalizeBeforeStore lib turn.now),
          store)) :
      Effect c turn (commits calls c turn.call store .updated)
  | deleted {store : ExperienceStore F} (hcall : calls turn.call = .delete)
      (hdelete : c.store.delete lib id = (.ok true, store)) :
      Effect c turn (commits calls c turn.call store .deleted)

theorem perform_effect (c : Concurrent F ι) (turn : Turn ι) :
    Effect lib id calls c turn (perform lib id calls c turn) := by
  unfold perform
  dsimp only
  split
  · split
    · exact .refused (by decide) (by decide)
    · exact .refused (by decide) (by decide)
    · rename_i experience hget
      obtain ⟨stored, hstored, hread⟩ := ExperienceStore.get_ok_some hget
      exact .read hstored hread
  · rename_i mutation experience since hcall hholding
    split
    · exact .refused (by decide) (by decide)
    · rename_i stored store hupsert
      have hstored := (ExperienceStore.upsert_ok hupsert).1
      rw [hstored] at hupsert
      exact .updated hcall hholding hupsert
  · rename_i hcall _
    split
    · exact .refused (by decide) (by decide)
    · exact .refused (by decide) (by decide)
    · rename_i store hdelete
      exact .deleted hcall hdelete
  · exact .idle

theorem holding_of_returns {c : Concurrent F ι} {i j : ι} {outcome : Outcome}
    {experience : TaskExperience F} {since : Nat}
    (h : (returns calls c i outcome).progress j = .holding experience since) :
    c.progress j = .holding experience since := by
  by_cases hj : j = i
  · subst hj
    simp [returns] at h
  · simpa [returns, hj] using h

theorem holding_of_commits {c : Concurrent F ι} {i j : ι} {store : ExperienceStore F}
    {outcome : Outcome} {experience : TaskExperience F} {since : Nat}
    (h : (commits calls c i store outcome).progress j = .holding experience since) :
    c.progress j = .holding experience since :=
  @holding_of_returns F ι _ calls c i j outcome experience since h

/-- An update that writes commits and returns the record. -/
theorem perform_of_holding {c : Concurrent F ι} {turn : Turn ι} {mutation : UsageUpdate}
    {experience stored : TaskExperience F} {since : Nat} {store : ExperienceStore F}
    (hcall : calls turn.call = .update mutation)
    (hholding : c.progress turn.call = .holding experience since)
    (hupsert : c.store.upsert lib turn.now (experience.apply lib mutation turn.readNow) =
      (.ok stored, store)) :
    perform lib id calls c turn = commits calls c turn.call store .updated := by
  simp only [perform, hcall, hholding, hupsert]

theorem holding_of_holds {c : Concurrent F ι} {i j : ι} {held experience : TaskExperience F}
    {since : Nat} (h : (holds c i held).progress j = .holding experience since) :
    c.progress j = .holding experience since ∨ experience = held ∧ since = c.committed := by
  by_cases hj : j = i
  · subst hj
    simp only [holds, Function.update_self, Progress.holding.injEq] at h
    exact .inr ⟨h.1.symm, h.2.symm⟩
  · exact .inl (by simpa [holds, hj] using h)

end Concurrent

/-! ## Counters -/

def UsageUpdate.countOf (usage : UsageStats) : UsageUpdate → Nat
  | .markSelected => usage.selectedCount
  | .recordPreflightResult true => usage.preflightPassCount
  | .recordPreflightResult false => usage.preflightFailCount
  | .recordTaskResult true => usage.successCount
  | .recordTaskResult false => usage.failureCount

def totalCount (usage : UsageStats) : Nat :=
  usage.selectedCount + usage.preflightPassCount + usage.preflightFailCount +
    usage.successCount + usage.failureCount

theorem countOf_apply (lib : ExperienceLibrary F) (mutation other : UsageUpdate) (now : Int)
    (experience : TaskExperience F) :
    other.countOf (experience.apply lib mutation now).usage =
      if other = mutation then saturatingIncr (other.countOf experience.usage)
      else other.countOf experience.usage := by
  rcases mutation with _ | (_ | _) | (_ | _) <;> rcases other with _ | (_ | _) | (_ | _) <;> rfl

theorem totalCount_apply_le (lib : ExperienceLibrary F) (mutation : UsageUpdate) (now : Int)
    (experience : TaskExperience F) :
    totalCount (experience.apply lib mutation now).usage ≤ totalCount experience.usage + 1 := by
  have hcount := fun other => countOf_apply lib mutation other now experience
  have hselected := hcount .markSelected
  have hpassed := hcount (.recordPreflightResult true)
  have hfailed := hcount (.recordPreflightResult false)
  have hsucceeded := hcount (.recordTaskResult true)
  have hfailure := hcount (.recordTaskResult false)
  have hraised : saturatingIncr (mutation.countOf experience.usage) ≤
      mutation.countOf experience.usage + 1 := Nat.min_le_left _ _
  simp only [UsageUpdate.countOf] at hselected hpassed hfailed hsucceeded hfailure
  unfold totalCount
  rcases mutation with _ | (_ | _) | (_ | _) <;>
    simp_all [UsageUpdate.countOf] <;> omega

def updatesReturned (returned : List (OutcomeCall × Outcome)) (mutation : UsageUpdate) : Nat :=
  returned.count (.update mutation, .updated)

def totalReturned (returned : List (OutcomeCall × Outcome)) : Nat :=
  updatesReturned returned .markSelected + updatesReturned returned (.recordPreflightResult true) +
    updatesReturned returned (.recordPreflightResult false) +
    updatesReturned returned (.recordTaskResult true) +
    updatesReturned returned (.recordTaskResult false)

def deletionsReturned (returned : List (OutcomeCall × Outcome)) : Nat :=
  returned.count (.delete, .deleted)

theorem updatesReturned_snoc (returned : List (OutcomeCall × Outcome))
    (entry : OutcomeCall × Outcome) (mutation : UsageUpdate) :
    updatesReturned (returned ++ [entry]) mutation =
      updatesReturned returned mutation + if entry = (.update mutation, .updated) then 1 else 0 := by
  simp [updatesReturned, List.count_append, List.count_singleton]

theorem deletionsReturned_snoc (returned : List (OutcomeCall × Outcome))
    (entry : OutcomeCall × Outcome) :
    deletionsReturned (returned ++ [entry]) =
      deletionsReturned returned + if entry = (.delete, .deleted) then 1 else 0 := by
  simp [deletionsReturned, List.count_append, List.count_singleton]

theorem totalReturned_updated (returned : List (OutcomeCall × Outcome)) (mutation : UsageUpdate) :
    totalReturned (returned ++ [(.update mutation, .updated)]) = totalReturned returned + 1 := by
  simp only [totalReturned, updatesReturned_snoc, Prod.mk.injEq, OutcomeCall.update.injEq, and_true]
  rcases mutation with _ | (_ | _) | (_ | _) <;> simp <;> omega

theorem updatesReturned_other {returned : List (OutcomeCall × Outcome)} {call : OutcomeCall}
    {outcome : Outcome} (h : outcome ≠ .updated) (mutation : UsageUpdate) :
    updatesReturned (returned ++ [(call, outcome)]) mutation = updatesReturned returned mutation := by
  simp [updatesReturned_snoc, h]

theorem totalReturned_other {returned : List (OutcomeCall × Outcome)} {call : OutcomeCall}
    {outcome : Outcome} (h : outcome ≠ .updated) :
    totalReturned (returned ++ [(call, outcome)]) = totalReturned returned := by
  simp [totalReturned, updatesReturned_other h]

end BenShu.Experience
