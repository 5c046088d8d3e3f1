import BenShu.Experience.Outcomes
import BenShu.Lib.History

/-!
# When no outcome is lost

The counters of an experience agree with the answers of the calls along an interleaving
exactly when nothing is committed between the two transactions of an update, and no
counter is at its limit.
-/

namespace BenShu.Experience

open DerivedIndex

variable {F ι : Type} {lib : ExperienceLibrary F} {id : String}
  {calls : ι → OutcomeCall} {initial : ExperienceStore F} {c c' : Concurrent F ι} {turn : Turn ι}

/-- The counters of a stored experience; none have been counted without one. -/
def usageOf (s : ExperienceStore F) (id : String) : UsageStats :=
  (s.experiences.lookup id).elim {} TaskExperience.usage

/-- The counters are the initial ones and what the calls have returned, and an experience
whose deletion was confirmed is not there. -/
structure OutcomesKept (initial : ExperienceStore F) (id : String) (c : Concurrent F ι) :
    Prop where
  counted : ∀ experience, c.store.experiences.lookup id = some experience → ∀ mutation,
    UsageUpdate.countOf experience.usage mutation =
      UsageUpdate.countOf (usageOf initial id) mutation + updatesReturned c.returned mutation
  gone : (.delete, .deleted) ∈ c.returned → c.store.experiences.lookup id = none

/-- An update that will write finds that nothing was committed since it has read, and its
counter below the limit. -/
def Fresh (lib : ExperienceLibrary F) (id : String) (calls : ι → OutcomeCall)
    (c : Concurrent F ι) (turn : Turn ι) : Prop :=
  ∀ mutation experience since, calls turn.call = .update mutation →
    c.progress turn.call = .holding experience since →
      (∀ stored, c.store.experiences.lookup id = some stored →
        (readBack lib stored).isSome = true) →
          since = c.committed ∧ UsageUpdate.countOf experience.usage mutation < 2 ^ 64 - 1

/-! ## What holds in every interleaving -/

/-- What an update holds is the stored record as long as nothing is committed. -/
structure Sound (lib : ExperienceLibrary F) (id : String) (c : Concurrent F ι) : Prop where
  keyed : Keyed TaskExperience.id c.store.experiences
  committed : c.committed = totalReturned c.returned + deletionsReturned c.returned
  held : ∀ i experience since, c.progress i = .holding experience since →
    experience.id = id ∧ since ≤ c.committed ∧ (since = c.committed →
      ∃ stored, c.store.experiences.lookup id = some stored ∧
        readBack lib stored = some experience)

theorem Sound.start (hkeyed : Keyed TaskExperience.id initial.experiences) :
    Sound lib id (Concurrent.start initial : Concurrent F ι) where
  keyed := hkeyed
  committed := rfl
  held := by
    intro i experience since h
    cases h

variable {stored experience : TaskExperience F} {store : ExperienceStore F}

theorem keyed_of_upsert (h : Keyed TaskExperience.id c.store.experiences) {now : Int}
    (hupsert : c.store.upsert lib now experience = (.ok stored, store)) :
    Keyed TaskExperience.id store.experiences := by
  obtain ⟨hstored, hinsert⟩ := ExperienceStore.upsert_ok hupsert
  have hid : stored.id = experience.id := by
    rw [hstored]
    exact experience.normalizeBeforeStore_id lib now
  rw [hinsert, ← hid]
  exact h.insert stored

/-- An update holds as many counts as had been committed when it has read. -/
def HeldCounts (initial : ExperienceStore F) (id : String) (c : Concurrent F ι) : Prop :=
  ∀ i experience since, c.progress i = .holding experience since →
    totalCount experience.usage = totalCount (usageOf initial id) + since

theorem totalCount_eq {usage usage' : UsageStats} {returned : List (OutcomeCall × Outcome)}
    (h : ∀ mutation, UsageUpdate.countOf usage mutation =
      UsageUpdate.countOf usage' mutation + updatesReturned returned mutation) :
    totalCount usage = totalCount usage' + totalReturned returned := by
  have hselected := h .markSelected
  have hpassed := h (.recordPreflightResult true)
  have hfailed := h (.recordPreflightResult false)
  have hsucceeded := h (.recordTaskResult true)
  have hfailure := h (.recordTaskResult false)
  simp only [UsageUpdate.countOf] at hselected hpassed hfailed hsucceeded hfailure
  unfold totalCount totalReturned
  omega

theorem OutcomesKept.totalCount_stored (h : OutcomesKept initial id c) (hsound : Sound lib id c)
    (hstored : c.store.experiences.lookup id = some stored) :
    totalCount stored.usage = totalCount (usageOf initial id) + c.committed := by
  have hnone : deletionsReturned c.returned = 0 := by
    refine List.count_eq_zero.mpr fun hmem => ?_
    rw [h.gone hmem] at hstored
    cases hstored
  rw [totalCount_eq (h.counted stored hstored), hsound.committed, hnone, Nat.add_zero]

theorem readBack_usage (h : readBack lib stored = some experience) :
    experience.usage = stored.usage := by
  obtain ⟨confidence, rfl⟩ := readBack_eq h
  rfl

theorem Sound.lookup_written (h : Sound lib id c) {i : ι} {mutation : UsageUpdate} {since : Nat}
    {readNow now : Int} (hholding : c.progress i = .holding experience since)
    (hupsert : c.store.upsert lib now (experience.apply lib mutation readNow) =
      (.ok stored, store)) :
    store.experiences.lookup id = some stored ∧
      stored.usage = (experience.apply lib mutation readNow).usage := by
  obtain ⟨hstored, hinsert⟩ := ExperienceStore.upsert_ok hupsert
  have hid : (experience.apply lib mutation readNow).id = id := by
    rw [TaskExperience.apply_id]
    exact (h.held i experience since hholding).1
  refine ⟨?_, ?_⟩
  · rw [hinsert, hid, Table.lookup_insert, if_pos rfl]
  · rw [hstored]
    exact TaskExperience.normalizeBeforeStore_usage ..

theorem start_kept : OutcomesKept initial id (Concurrent.start initial : Concurrent F ι) where
  counted := by
    intro experience hstored mutation
    have hlookup : initial.experiences.lookup id = some experience := hstored
    simp [usageOf, hlookup, Concurrent.start, updatesReturned]
  gone := by simp [Concurrent.start]

/-! ## One transaction -/

variable [DecidableEq ι]

theorem Sound.refused (h : Sound lib id c) {i : ι} {outcome : Outcome}
    (hupdated : outcome ≠ .updated) (hdeleted : outcome ≠ .deleted) :
    Sound lib id (c.returns calls i outcome) where
  keyed := h.keyed
  committed := by
    show c.committed = totalReturned (c.returned ++ [(calls i, outcome)]) +
      deletionsReturned (c.returned ++ [(calls i, outcome)])
    rw [totalReturned_other hupdated, deletionsReturned_snoc, h.committed]
    simp [hdeleted]
  held := fun j experience since hj =>
    h.held j experience since (Concurrent.holding_of_returns calls hj)

theorem Sound.read (h : Sound lib id c) {i : ι}
    (hstored : c.store.experiences.lookup id = some stored)
    (hread : readBack lib stored = some experience) : Sound lib id (c.holds i experience) where
  keyed := h.keyed
  committed := h.committed
  held := by
    intro j held since hj
    rcases Concurrent.holding_of_holds hj with hold | ⟨rfl, rfl⟩
    · exact h.held j held since hold
    · refine ⟨?_, Nat.le_refl _, fun _ => ⟨stored, hstored, hread⟩⟩
      rw [(readBack_keys hread).1]
      exact h.keyed id stored hstored

/-- A commit leaves what all other updates hold behind. -/
theorem Sound.commits (h : Sound lib id c) {i : ι} {outcome : Outcome}
    (hkeyed : Keyed TaskExperience.id store.experiences)
    (hcount : totalReturned (c.returned ++ [(calls i, outcome)]) +
      deletionsReturned (c.returned ++ [(calls i, outcome)]) = c.committed + 1) :
    Sound lib id (c.commits calls i store outcome) where
  keyed := hkeyed
  committed := hcount.symm
  held := by
    intro j experience since hj
    obtain ⟨hid, hle, -⟩ := h.held j experience since (Concurrent.holding_of_commits calls hj)
    refine ⟨hid, Nat.le_succ_of_le hle, fun heq => ?_⟩
    have hlater : since = c.committed + 1 := heq
    omega

theorem Sound.effect (h : Sound lib id c) (heffect : Concurrent.Effect lib id calls c turn c') :
    Sound lib id c' := by
  cases heffect with
  | idle => exact h
  | refused hupdated hdeleted => exact h.refused hupdated hdeleted
  | read hstored hread => exact h.read hstored hread
  | updated hcall hholding hupsert =>
      refine h.commits (keyed_of_upsert h.keyed hupsert) ?_
      rw [hcall, totalReturned_updated, deletionsReturned_snoc, h.committed]
      simp
      omega
  | deleted hcall hdelete =>
      refine h.commits ?_ ?_
      · rw [ExperienceStore.delete_ok_true hdelete]
        exact h.keyed.erase id
      · rw [hcall, totalReturned_other (by decide), deletionsReturned_snoc, h.committed]
        simp
        omega

theorem HeldCounts.effect (h : HeldCounts initial id c) (hsound : Sound lib id c)
    (hkept : OutcomesKept initial id c) (heffect : Concurrent.Effect lib id calls c turn c') :
    HeldCounts initial id c' := by
  intro i experience since hi
  cases heffect with
  | idle => exact h i experience since hi
  | refused hupdated hdeleted =>
      exact h i experience since (Concurrent.holding_of_returns calls hi)
  | @read stored held hstored hread =>
      rcases Concurrent.holding_of_holds hi with hold | ⟨rfl, rfl⟩
      · exact h i experience since hold
      · rw [readBack_usage hread]
        exact hkept.totalCount_stored hsound hstored
  | updated hcall hholding hupsert =>
      exact h i experience since (Concurrent.holding_of_commits calls hi)
  | deleted hcall hdelete =>
      exact h i experience since (Concurrent.holding_of_commits calls hi)

theorem OutcomesKept.effect (h : OutcomesKept initial id c) (hsound : Sound lib id c)
    (hfresh : Fresh lib id calls c turn) (heffect : Concurrent.Effect lib id calls c turn c') :
    OutcomesKept initial id c' := by
  cases heffect with
  | idle => exact h
  | @refused outcome hupdated hdeleted =>
      constructor
      · intro experience hstored mutation
        show _ = _ + updatesReturned (c.returned ++ [(calls turn.call, outcome)]) mutation
        rw [updatesReturned_other hupdated]
        exact h.counted experience hstored mutation
      · intro hmem
        rcases List.mem_append.mp hmem with hold | hnew
        · exact h.gone hold
        · rw [List.mem_singleton, Prod.mk.injEq] at hnew
          exact absurd hnew.2.symm hdeleted
  | read hstored hread => exact ⟨h.counted, h.gone⟩
  | @updated mutation experience since store hcall hholding hupsert =>
      obtain ⟨hwritten, husage⟩ := hsound.lookup_written hholding hupsert
      obtain ⟨hid, -, hunchanged⟩ := hsound.held turn.call experience since hholding
      have hreadable : ∀ stored, c.store.experiences.lookup id = some stored →
          (readBack lib stored).isSome = true := by
        intro stored hstored
        refine ExperienceStore.readable_of_upsert hupsert ?_
        rw [TaskExperience.apply_id, hid]
        exact hstored
      obtain ⟨hsince, hlimit⟩ := hfresh mutation experience since hcall hholding hreadable
      obtain ⟨stored, hstored, hread⟩ := hunchanged hsince
      constructor
      · intro found hfound other
        have hsame : found = _ := Option.some.inj (hfound.symm.trans hwritten)
        show _ = _ + updatesReturned (c.returned ++ [(calls turn.call, .updated)]) other
        have hcounted := h.counted stored hstored other
        rw [hsame, husage, countOf_apply, hcall, updatesReturned_snoc, readBack_usage hread]
        rw [readBack_usage hread] at hlimit
        by_cases hother : other = mutation
        · subst hother
          rw [if_pos rfl, if_pos rfl, saturatingIncr]
          omega
        · rw [if_neg hother, if_neg (by simp [Ne.symm hother])]
          exact hcounted
      · intro hmem
        rcases List.mem_append.mp hmem with hold | hnew
        · rw [h.gone hold] at hstored
          cases hstored
        · simp at hnew
  | @deleted store hcall hdelete =>
      have hlookup : store.experiences.lookup id = none := by
        rw [ExperienceStore.delete_ok_true hdelete, Table.lookup_erase, if_pos rfl]
      constructor
      · intro experience hstored
        have hsome : store.experiences.lookup id = some experience := hstored
        rw [hlookup] at hsome
        cases hsome
      · exact fun _ => hlookup

theorem fresh_of_kept (hsound : Sound lib id c) (hheld : HeldCounts initial id c)
    (hkept : OutcomesKept initial id c)
    (hafter : OutcomesKept initial id (c.perform lib id calls turn)) :
    Fresh lib id calls c turn := by
  intro mutation experience since hcall hholding hreadable
  obtain ⟨hid, hle, hunchanged⟩ := hsound.held turn.call experience since hholding
  have happlied : (experience.apply lib mutation turn.readNow).id = id := by
    rw [TaskExperience.apply_id, hid]
  obtain ⟨store, hupsert⟩ := ExperienceStore.upsert_of_readable turn.now
    (by rw [happlied]; exact hreadable)
  obtain ⟨hwritten, husage⟩ := hsound.lookup_written hholding hupsert
  have hsoundAfter := hsound.effect (Concurrent.perform_effect lib id calls c turn)
  rw [Concurrent.perform_of_holding lib id calls hcall hholding hupsert] at hafter hsoundAfter
  -- The update raises what it has read by one, and the counters have to reach all commits.
  have htotal := hafter.totalCount_stored hsoundAfter hwritten
  rw [husage] at htotal
  have hraised := totalCount_apply_le lib mutation turn.readNow experience
  have hread := hheld turn.call experience since hholding
  have hcommitted : (c.commits calls turn.call store .updated).committed = c.committed + 1 := rfl
  have hsince : since = c.committed := by omega
  refine ⟨hsince, ?_⟩
  obtain ⟨stored, hstored, hback⟩ := hunchanged hsince
  have hbefore := hkept.counted stored hstored mutation
  have hcounted := hafter.counted _ hwritten mutation
  have hreturned : updatesReturned (c.commits calls turn.call store .updated).returned mutation =
      updatesReturned c.returned mutation + 1 := by
    show updatesReturned (c.returned ++ [(calls turn.call, .updated)]) mutation = _
    rw [hcall, updatesReturned_snoc, if_pos rfl]
  rw [husage, countOf_apply, if_pos rfl, hreturned, readBack_usage hback, saturatingIncr] at hcounted
  rw [readBack_usage hback]
  omega

/-! ## Interleavings -/

/-- Where the outcomes are kept all along, updates hold what had been committed. -/
theorem held_of_kept (hkeyed : Keyed TaskExperience.id initial.experiences)
    {turns : List (Turn ι)} (hkept : ∀ pre, pre <+: turns →
      OutcomesKept initial id (Concurrent.run lib id calls initial pre)) {pre : List (Turn ι)}
    (hpre : pre <+: turns) :
    Sound lib id (Concurrent.run lib id calls initial pre) ∧
      HeldCounts initial id (Concurrent.run lib id calls initial pre) := by
  induction pre using List.reverseRecOn with
  | nil =>
      refine ⟨Sound.start hkeyed, ?_⟩
      intro i experience since h
      cases h
  | append_singleton pre turn ih =>
      have hbefore : pre <+: turns := (List.prefix_append pre [turn]).trans hpre
      obtain ⟨hsound, hheld⟩ := ih hbefore
      have heffect := Concurrent.perform_effect lib id calls
        (Concurrent.run lib id calls initial pre) turn
      rw [Concurrent.run, List.foldl_append]
      exact ⟨hsound.effect heffect, hheld.effect hsound (hkept pre hbefore) heffect⟩

/-- From the store that any calls have left, no outcome is lost in an interleaving exactly
when all its transactions are fresh. -/
theorem outcomes_kept_iff (lib : ExperienceLibrary F) (setup : List (StoreCall F)) (id : String)
    (calls : ι → OutcomeCall) (turns : List (Turn ι)) :
    (∀ pre, pre <+: turns → OutcomesKept (ExperienceStore.run lib setup) id
        (Concurrent.run lib id calls (ExperienceStore.run lib setup) pre)) ↔
      History.Preceded (fun pre turn => Fresh lib id calls
        (Concurrent.run lib id calls (ExperienceStore.run lib setup) pre) turn) turns := by
  have hkeyed := (@IndexesExact.run F lib setup).keyed
  generalize ExperienceStore.run lib setup = initial at hkeyed ⊢
  have hthroughout := @History.foldl_throughout_iff _ turns _ (Concurrent.perform lib id calls)
    (Concurrent.start initial) (Sound lib id)
    (fun c => OutcomesKept initial id c ∧ HeldCounts initial id c) (Fresh lib id calls)
    (Sound.start hkeyed) ⟨start_kept, by intro i experience since h; cases h⟩
    (by
      intro turn _ c hsound
      have heffect := Concurrent.perform_effect lib id calls c turn
      refine ⟨hsound.effect heffect, fun hexact => ?_⟩
      obtain ⟨hkept, hheld⟩ := hexact
      constructor
      · intro hafter
        exact fresh_of_kept hsound hheld hkept hafter.1
      · intro hfresh
        exact ⟨hkept.effect hsound hfresh heffect, hheld.effect hsound hkept heffect⟩)
  refine Iff.trans ?_ hthroughout
  constructor
  · intro hkept pre hpre
    exact ⟨hkept pre hpre, (held_of_kept hkeyed hkept hpre).2⟩
  · intro hboth pre hpre
    exact (hboth pre hpre).1

/-! ## Two updates that overlap -/

def sampleLibrary : ExperienceLibrary ℚ where
  clamp c := if c < 0 then 0 else if 1 < c then 1 else c
  add c by_ := c + by_
  atMost c bound := decide (c ≤ bound)
  readBack := some
  toLowercase := Text.toAsciiLowercase
  sha256 _ := [0xe3, 0xb0, 0xc4, 0x42, 0x98, 0xfc, 0x1c, 0x14]

def sampleExperience : TaskExperience ℚ where
  id := "experience"
  «namespace» := "system_experience"
  status := .candidate
  taskSignature := ""
  scope := .web
  workerRole := none
  toolNames := []
  hints := []
  antiPatterns := []
  confidence := 1 / 2
  usage := {}
  ttlSeconds := none
  createdAtMs := 1
  updatedAtMs := 1
  lastVerifiedAtMs := none
  expiresAtMs := none

def sampleStore : ExperienceStore ℚ :=
  ExperienceStore.run sampleLibrary [.upsert 1 sampleExperience]

def sampleRun : Concurrent ℚ Bool :=
  Concurrent.run sampleLibrary "experience" (fun _ => .update .markSelected) sampleStore
    [⟨false, 2, 2⟩, ⟨true, 2, 2⟩, ⟨false, 2, 2⟩, ⟨true, 2, 2⟩]

theorem overlappingUpdates_lost :
    ¬∀ (lib : ExperienceLibrary ℚ) (setup : List (StoreCall ℚ)) (id : String)
      (calls : Bool → OutcomeCall) (turns : List (Turn Bool)),
      OutcomesKept (ExperienceStore.run lib setup) id
        (Concurrent.run lib id calls (ExperienceStore.run lib setup) turns) := by
  intro h
  have hkept : OutcomesKept sampleStore "experience" sampleRun := h _ _ _ _ _
  have husage : (usageOf sampleRun.store "experience").selectedCount = 1 := by decide +kernel
  have hreturned : updatesReturned sampleRun.returned .markSelected = 2 := by decide +kernel
  cases hstored : sampleRun.store.experiences.lookup "experience" with
  | none =>
      rw [usageOf, hstored] at husage
      exact absurd husage (by decide)
  | some experience =>
      have hcounted := hkept.counted experience hstored .markSelected
      rw [usageOf, hstored] at husage
      rw [hreturned] at hcounted
      exact absurd (hcounted.symm.trans husage) (by decide +kernel)

end BenShu.Experience
