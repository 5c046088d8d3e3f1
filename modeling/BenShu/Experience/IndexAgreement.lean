import BenShu.Experience.ExperienceStore

/-!
# Agreement of the index tables

The index tables hold what can be derived from the stored experiences after every
sequence of calls. An index key ends in the id of its experience, and what stands before
the id contains no separator.
-/

namespace BenShu.Experience

open DerivedIndex

/-! ## Keys without separators -/

def NoSep (text : String) : Prop := '\x1f' ∉ text.toList

theorem keyChar_ne_sep (c : Char) : keyChar c ≠ '\x1f' := by
  unfold keyChar
  split_ifs with h
  · intro heq
    unfold Char.toLower at heq
    split_ifs at heq with hupper
    · have hsum := congrArg (fun c : Char => c.val.toNat) heq
      have hle : c.val.toNat ≤ 90 := UInt32.le_iff_toNat_le.mp hupper.2
      have hshift : ('a'.val - 'A'.val).toNat = 32 := rfl
      have hsep : '\x1f'.val.toNat = 31 := rfl
      simp only [UInt32.toNat_add, hshift, hsep] at hsum
      omega
    · subst heq
      exact absurd h (by decide)
  · decide

theorem noSep_normalizeKey (value : String) : NoSep (normalizeKey value) := by
  intro hmem
  rcases Text.mem_intercalate hmem with hunderscore | ⟨piece, hpiece, hc⟩
  · exact absurd hunderscore (by decide)
  · have hchars := Text.mem_of_mem_split (List.mem_filter.mp hpiece).1 hc
    rw [String.toList_ofList] at hchars
    obtain ⟨c, -, hc⟩ := List.mem_map.mp hchars
    exact keyChar_ne_sep c hc

theorem noSep_normalizeNamespace (value : String) : NoSep (normalizeNamespace value) := by
  unfold normalizeNamespace
  dsimp only
  split_ifs
  · unfold NoSep
    decide
  · exact noSep_normalizeKey value

theorem noSep_asKey (scope : ExperienceScope) : NoSep scope.asKey := by
  cases scope with
  | other value =>
      unfold NoSep ExperienceScope.asKey
      rw [String.toList_append, List.mem_append]
      rintro (hlabel | hvalue)
      · exact absurd hlabel (by decide)
      · exact noSep_normalizeKey value hvalue
  | _ =>
      unfold NoSep ExperienceScope.asKey
      decide

theorem digitChar_ne_sep : ∀ n < 16, Nat.digitChar n ≠ '\x1f' := by decide

variable {F : Type} (lib : ExperienceLibrary F)

theorem noSep_taskHash (task : String) : NoSep (taskHash lib task) := by
  unfold NoSep taskHash
  rw [String.toList_ofList, List.mem_flatMap]
  rintro ⟨byte, -, hc⟩
  simp only [hexByte, List.mem_cons, List.not_mem_nil, or_false] at hc
  have hbyte := byte.toNat_lt
  rcases hc with hc | hc
  · exact digitChar_ne_sep _ (by omega) hc.symm
  · exact digitChar_ne_sep _ (Nat.mod_lt _ (by decide)) hc.symm

/-! ## Keys determine the id -/

/-- A joined key can be taken apart at its first separator. -/
theorem joined_inj {first first' : String} {rest rest' : List String} (hrest : rest ≠ [])
    (hrest' : rest' ≠ []) (hfirst : NoSep first) (hfirst' : NoSep first')
    (h : sep.intercalate (first :: rest) = sep.intercalate (first' :: rest')) :
    sep.intercalate rest = sep.intercalate rest' := by
  rw [String.intercalate_cons_of_ne_nil hrest, String.intercalate_cons_of_ne_nil hrest'] at h
  have hlist := congrArg String.toList h
  simp only [String.toList_append, List.append_assoc] at hlist
  have hsep : sep.toList = ['\x1f'] := rfl
  simp only [hsep, List.singleton_append] at hlist
  exact String.toList_inj.mp (Text.append_cons_inj_of_notMem_left hlist hfirst hfirst').2

theorem indexKey_id {ns ns' value value' id id' : String}
    (h : indexKey ns value id = indexKey ns' value' id') : id = id' := by
  unfold indexKey at h
  have hvalues := joined_inj (by simp) (by simp) (noSep_normalizeNamespace _)
    (noSep_normalizeNamespace _) h
  simpa using joined_inj (by simp) (by simp) (noSep_normalizeKey _) (noSep_normalizeKey _) hvalues

theorem scopedTaskKey_id {experience experience' : TaskExperience F}
    (h : scopedTaskKey lib experience = scopedTaskKey lib experience') :
    experience.id = experience'.id := by
  unfold scopedTaskKey at h
  have hscopes := joined_inj (by simp) (by simp) (noSep_normalizeNamespace _)
    (noSep_normalizeNamespace _) h
  have hhashes := joined_inj (by simp) (by simp) (noSep_asKey _) (noSep_asKey _) hscopes
  simpa using joined_inj (by simp) (by simp) (noSep_taskHash lib _) (noSep_taskHash lib _) hhashes

theorem separate_scopeTaskKeys :
    Separate (TaskExperience.id (F := F)) (scopeTaskKeys lib) := by
  intro b b' x hx hx'
  rw [scopeTaskKeys, List.mem_singleton] at hx hx'
  exact scopedTaskKey_id lib (hx.symm.trans hx')

theorem separate_workerKeys : Separate (TaskExperience.id (F := F)) workerKeys := by
  intro b b' x hx hx'
  obtain ⟨role, -, hrole⟩ := List.mem_map.mp hx
  obtain ⟨role', -, hrole'⟩ := List.mem_map.mp hx'
  exact indexKey_id (hrole.trans hrole'.symm)

theorem separate_toolKeys : Separate (TaskExperience.id (F := F)) toolKeys := by
  intro b b' x hx hx'
  obtain ⟨tool, -, htool⟩ := List.mem_map.mp hx
  obtain ⟨tool', -, htool'⟩ := List.mem_map.mp hx'
  exact indexKey_id (htool.trans htool'.symm)

theorem separate_statusKeys : Separate (TaskExperience.id (F := F)) statusKeys := by
  intro b b' x hx hx'
  rw [statusKeys, List.mem_singleton] at hx hx'
  exact indexKey_id (hx.symm.trans hx')

/-! ## Stored experiences -/

variable {lib}

theorem readBack_eq {stored experience : TaskExperience F}
    (h : readBack lib stored = some experience) :
    ∃ confidence, experience = { stored with confidence := confidence } := by
  obtain ⟨confidence, -, heq⟩ := Option.map_eq_some_iff.mp h
  exact ⟨confidence, heq.symm⟩

theorem readBack_keys {stored experience : TaskExperience F}
    (h : readBack lib stored = some experience) :
    experience.id = stored.id ∧ scopeTaskKeys lib experience = scopeTaskKeys lib stored ∧
      workerKeys experience = workerKeys stored ∧ toolKeys experience = toolKeys stored ∧
        statusKeys experience = statusKeys stored := by
  obtain ⟨confidence, rfl⟩ := readBack_eq h
  exact ⟨rfl, rfl, rfl, rfl, rfl⟩

variable (lib) in
/-- The index tables hold what can be derived from the stored experiences. -/
structure IndexesExact (s : ExperienceStore F) : Prop where
  keyed : Keyed TaskExperience.id s.experiences
  scopeTask : Exact (scopeTaskKeys lib) s.experiences s.byScopeTask
  worker : Exact workerKeys s.experiences s.byWorker
  tool : Exact toolKeys s.experiences s.byTool
  status : Exact statusKeys s.experiences s.byStatus

namespace IndexesExact

variable {s : ExperienceStore F}

theorem empty : IndexesExact lib ({} : ExperienceStore F) where
  keyed := keyed_empty
  scopeTask := exact_empty
  worker := exact_empty
  tool := exact_empty
  status := exact_empty

theorem insert (h : IndexesExact lib s) {experience : TaskExperience F}
    (hnew : s.experiences.lookup experience.id = none) :
    IndexesExact lib (insertIndexes lib experience
      { s with experiences := s.experiences.insert experience.id experience }) where
  keyed := h.keyed.insert experience
  scopeTask := h.scopeTask.insert h.keyed (separate_scopeTaskKeys lib) hnew
  worker := h.worker.insert h.keyed separate_workerKeys hnew
  tool := h.tool.insert h.keyed separate_toolKeys hnew
  status := h.status.insert h.keyed separate_statusKeys hnew

theorem replace (h : IndexesExact lib s) {experience stored old : TaskExperience F}
    (hstored : s.experiences.lookup experience.id = some stored)
    (hread : readBack lib stored = some old) :
    IndexesExact lib (insertIndexes lib experience
      { removeIndexes lib old s with
        experiences := s.experiences.insert experience.id experience }) := by
  obtain ⟨-, hscope, hworker, htool, hstatus⟩ := readBack_keys hread
  constructor
  · exact h.keyed.insert experience
  · show Exact _ _ (insertAll (eraseAll s.byScopeTask (scopeTaskKeys lib old)) _ _)
    rw [hscope]
    exact h.scopeTask.replace h.keyed (separate_scopeTaskKeys lib) hstored
  · show Exact _ _ (insertAll (eraseAll s.byWorker (workerKeys old)) _ _)
    rw [hworker]
    exact h.worker.replace h.keyed separate_workerKeys hstored
  · show Exact _ _ (insertAll (eraseAll s.byTool (toolKeys old)) _ _)
    rw [htool]
    exact h.tool.replace h.keyed separate_toolKeys hstored
  · show Exact _ _ (insertAll (eraseAll s.byStatus (statusKeys old)) _ _)
    rw [hstatus]
    exact h.status.replace h.keyed separate_statusKeys hstored

theorem upsert (h : IndexesExact lib s) (now : Int) (experience : TaskExperience F) :
    IndexesExact lib (s.upsert lib now experience).2 := by
  unfold ExperienceStore.upsert
  dsimp only
  split
  · rename_i hnew
    exact h.insert hnew
  · rename_i stored hstored
    split
    · exact h
    · rename_i old hread
      exact h.replace hstored hread

theorem delete (h : IndexesExact lib s) (id : String) : IndexesExact lib (s.delete lib id).2 := by
  unfold ExperienceStore.delete
  split
  · exact h
  · rename_i stored hstored
    split
    · exact h
    · rename_i old hread
      obtain ⟨-, hscope, hworker, htool, hstatus⟩ := readBack_keys hread
      constructor
      · exact h.keyed.erase id
      · show Exact _ _ (eraseAll s.byScopeTask (scopeTaskKeys lib old))
        rw [hscope]
        exact h.scopeTask.erase h.keyed (separate_scopeTaskKeys lib) hstored
      · show Exact _ _ (eraseAll s.byWorker (workerKeys old))
        rw [hworker]
        exact h.worker.erase h.keyed separate_workerKeys hstored
      · show Exact _ _ (eraseAll s.byTool (toolKeys old))
        rw [htool]
        exact h.tool.erase h.keyed separate_toolKeys hstored
      · show Exact _ _ (eraseAll s.byStatus (statusKeys old))
        rw [hstatus]
        exact h.status.erase h.keyed separate_statusKeys hstored

theorem update (h : IndexesExact lib s) (id : String) (mutation : UsageUpdate) (readNow now : Int) :
    IndexesExact lib (s.update lib id mutation readNow now).2 := by
  unfold ExperienceStore.update
  split
  · exact h
  · exact h
  · rename_i experience _
    have hupsert := h.upsert now (experience.apply lib mutation readNow)
    split
    · rename_i heq
      rwa [heq] at hupsert
    · rename_i heq
      rwa [heq] at hupsert

theorem deleteAll (h : IndexesExact lib s) (ids : List String) (removed : Nat) :
    IndexesExact lib (s.deleteAll lib ids removed).2 := by
  induction ids generalizing s removed with
  | nil => exact h
  | cons id ids ih =>
      have hdelete := h.delete id
      unfold ExperienceStore.deleteAll
      split
      · rename_i heq
        rwa [heq] at hdelete
      · rename_i heq
        rw [heq] at hdelete
        exact ih hdelete _
      · rename_i heq
        rw [heq] at hdelete
        exact ih hdelete _

theorem perform (h : IndexesExact lib s) (call : StoreCall F) :
    IndexesExact lib (s.perform lib call) := by
  cases call with
  | upsert now experience => exact h.upsert now experience
  | update id mutation readNow now => exact h.update id mutation readNow now
  | delete id => exact h.delete id
  | pruneExpired nowMs =>
      show IndexesExact lib (s.pruneExpired lib nowMs).2
      unfold ExperienceStore.pruneExpired
      split
      · exact h
      · exact h.deleteAll _ 0

theorem run (calls : List (StoreCall F)) : IndexesExact lib (ExperienceStore.run lib calls) := by
  induction calls using List.reverseRecOn with
  | nil => exact empty
  | append_singleton calls call ih =>
      rw [ExperienceStore.run, List.foldl_append]
      exact ih.perform call

end IndexesExact

/-! ## Sizes -/

/-- No index entry belongs to two stored experiences. -/
def Unshared (entriesOf : TaskExperience F → List String) (s : ExperienceStore F) : Prop :=
  ∀ id id' experience experience' key, s.experiences.lookup id = some experience →
    s.experiences.lookup id' = some experience' → key ∈ entriesOf experience →
      key ∈ entriesOf experience' → id = id'

theorem unshared {entriesOf : TaskExperience F → List String} {s : ExperienceStore F}
    (hkeyed : Keyed TaskExperience.id s.experiences)
    (hseparate : Separate TaskExperience.id entriesOf) : Unshared entriesOf s := by
  intro id id' experience experience' key hlookup hlookup' hkey hkey'
  rw [← hkeyed id experience hlookup, ← hkeyed id' experience' hlookup']
  exact hseparate experience experience' key hkey hkey'

/-- What the statistics say of the stored experiences. -/
structure StatsExact (s : ExperienceStore F) : Prop where
  scopeTask : s.stats.indexScopeTaskEntries = s.stats.totalExperiences
  worker : s.stats.indexWorkerEntries = s.experiences.total fun experience =>
    (workerKeys experience).dedup.length
  tool : s.stats.indexToolEntries = s.experiences.total fun experience =>
    (toolKeys experience).dedup.length
  status : s.stats.indexStatusEntries = s.stats.totalExperiences

theorem IndexesExact.stats {s : ExperienceStore F} (h : IndexesExact lib s) : StatsExact s where
  scopeTask := by
    show Table.size s.byScopeTask = Table.size s.experiences
    rw [h.scopeTask.size_eq h.keyed (separate_scopeTaskKeys lib), Table.size_eq_total]
    simp [scopeTaskKeys]
  worker := h.worker.size_eq h.keyed separate_workerKeys
  tool := h.tool.size_eq h.keyed separate_toolKeys
  status := by
    show Table.size s.byStatus = Table.size s.experiences
    rw [h.status.size_eq h.keyed separate_statusKeys, Table.size_eq_total]
    simp [statusKeys]

end BenShu.Experience
