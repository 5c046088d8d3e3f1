import BenShu.State.Task

/-!
# Saves that keep completion data

A task is saved again while it runs and after it has ended. The preserving save takes over
from the stored task what the new one leaves out, by a rule of its own for each field.
-/

namespace BenShu.State

def taskStatusIsTerminal : TaskStatus → Bool
  | .completed | .failed _ | .cancelled | .blocked _ => true
  | _ => false

def mergeCompletionFields (existing next : TaskState) : TaskState :=
  { next with
    status :=
      if taskStatusIsTerminal existing.status && !taskStatusIsTerminal next.status then
        existing.status
      else next.status
    result := next.result.or existing.result
    verification := next.verification.or existing.verification
    artifacts := if next.artifacts.isEmpty then existing.artifacts else next.artifacts
    evidence := next.evidence ∪ existing.evidence }

namespace TaskTable

def savePreservingCompletionFields (table : TaskTable) (task : TaskState) : TaskTable :=
  match table.load task.id with
  | some existing => table.save (mergeCompletionFields existing task)
  | none => table.save task

def saveAll (table : TaskTable) (saves : List TaskState) : TaskTable :=
  saves.foldl savePreservingCompletionFields table

/-- A reference is added unless one with its identifier is there. -/
def addArtifactRefs (artifacts refs : List TaskArtifactRef) : List TaskArtifactRef :=
  refs.foldl (fun artifacts ref =>
    if artifacts.any (·.artifactId == ref.artifactId) then artifacts else artifacts ++ [ref])
    artifacts

/-- `now` is the time of the update; the table is written only if a reference is new. -/
def upsertArtifactRefs (table : TaskTable) (taskId : Uuid) (refs : List TaskArtifactRef)
    (now : Int) : TaskTable × Option TaskState :=
  match table.load taskId with
  | none => (table, none)
  | some task =>
      let artifacts := addArtifactRefs task.artifacts refs
      if artifacts.length = task.artifacts.length then (table, some task)
      else
        let task := { task with artifacts, updatedAt := now }
        (table.save task, some task)

end TaskTable

/-! ## One save -/

def savedOver (existing : Option TaskState) (next : TaskState) : TaskState :=
  (existing.elim next fun existing => mergeCompletionFields existing next).readBack

theorem TaskTable.load_savePreserving {table : TaskTable} {task : TaskState} {taskId : Uuid}
    (hid : task.id = taskId) :
    (table.savePreservingCompletionFields task).load taskId =
      some (savedOver (table.load taskId) task) := by
  subst hid
  unfold savePreservingCompletionFields savedOver
  cases table.load task.id with
  | none => exact load_save rfl
  | some existing => exact @load_save table (mergeCompletionFields existing task) _ rfl

theorem TaskTable.load_saveAll_concat {table : TaskTable} {saves : List TaskState}
    {task : TaskState} {taskId : Uuid} (hid : task.id = taskId) :
    (table.saveAll (saves ++ [task])).load taskId =
      some (savedOver ((table.saveAll saves).load taskId) task) := by
  rw [saveAll, List.foldl_append]
  exact load_savePreserving hid

/-- The completion data of a stored task is still there in a later one. -/
structure RetainsCompletion (existing stored : TaskState) : Prop where
  terminal : taskStatusIsTerminal existing.status = true →
    taskStatusIsTerminal stored.status = true
  result : existing.result.isSome → stored.result.isSome
  verification : existing.verification.isSome → stored.verification.isSome
  evidence : ∀ key ∈ existing.evidence, key ∈ stored.evidence

theorem RetainsCompletion.refl (task : TaskState) : RetainsCompletion task task :=
  ⟨id, id, id, fun _ h => h⟩

theorem RetainsCompletion.trans {first second third : TaskState}
    (h₁ : RetainsCompletion first second) (h₂ : RetainsCompletion second third) :
    RetainsCompletion first third :=
  ⟨h₂.terminal ∘ h₁.terminal, h₂.result ∘ h₁.result, h₂.verification ∘ h₁.verification,
    fun key h => h₂.evidence key (h₁.evidence key h)⟩

def TaskState.SetsResult (task : TaskState) : Prop :=
  ∃ value, task.result = some value ∧ value.isNull = false

def TaskState.ErasesResult (task : TaskState) : Prop :=
  ∃ value, task.result = some value ∧ value.isNull = true

theorem readBack_result_isSome {task : TaskState} :
    task.readBack.result.isSome ↔ task.SetsResult := by
  unfold TaskState.readBack TaskState.SetsResult
  cases h : task.result with
  | none => simp
  | some value => cases hnull : value.isNull <;> simp [hnull]

variable {next : TaskState} {existing : Option TaskState}

theorem savedOver_result (h : (savedOver existing next).result.isSome) :
    next.SetsResult ∨ ∃ task, existing = some task ∧ task.result.isSome := by
  obtain ⟨value, hvalue, hnull⟩ := readBack_result_isSome.mp h
  cases existing with
  | none => exact .inl ⟨value, hvalue, hnull⟩
  | some task =>
      rcases Option.or_eq_some_iff.mp hvalue with hnext | ⟨-, hexisting⟩
      · exact .inl ⟨value, hnext, hnull⟩
      · exact .inr ⟨task, rfl, by rw [hexisting]; rfl⟩

theorem savedOver_setsResult (h : next.SetsResult) : (savedOver existing next).result.isSome := by
  refine readBack_result_isSome.mpr ?_
  obtain ⟨value, hvalue, hnull⟩ := h
  refine ⟨value, ?_, hnull⟩
  cases existing with
  | none => exact hvalue
  | some task => exact Option.or_eq_some_iff.mpr (.inl hvalue)

theorem savedOver_erasesResult (h : next.ErasesResult) :
    (savedOver existing next).result = none := by
  obtain ⟨value, hvalue, hnull⟩ := h
  cases existing with
  | none => simp [savedOver, TaskState.readBack, hvalue, hnull]
  | some task => simp [savedOver, TaskState.readBack, mergeCompletionFields, hvalue, hnull]

theorem savedOver_artifacts :
    (savedOver existing next).artifacts =
      if next.artifacts = [] then existing.elim [] (·.artifacts) else next.artifacts := by
  cases existing with
  | none =>
      split
      · assumption
      · rfl
  | some task => simp [savedOver, TaskState.readBack, mergeCompletionFields]

theorem savedOver_retains {existing : TaskState}
    (hread : ∀ value, existing.result = some value → value.isNull = false)
    (h : existing.result.isSome → ¬next.ErasesResult) :
    RetainsCompletion existing (savedOver (some existing) next) where
  terminal hterminal := by
    change taskStatusIsTerminal (if _ then _ else _) = true
    split
    · exact hterminal
    · rename_i hstatus
      simpa [hterminal] using hstatus
  result hsome := by
    obtain ⟨value, hvalue⟩ := Option.isSome_iff_exists.mp hsome
    refine readBack_result_isSome.mpr ?_
    cases hnext : next.result with
    | none => exact ⟨value, by simp [mergeCompletionFields, hnext, hvalue], hread value hvalue⟩
    | some result =>
        refine ⟨result, by simp [mergeCompletionFields, hnext], ?_⟩
        exact Bool.eq_false_iff.mpr fun hnull => h hsome ⟨result, hnext, hnull⟩
  verification hsome := by
    change (next.verification.or existing.verification).isSome
    rw [Option.isSome_or, hsome, Bool.or_true]
  evidence key hkey := AList.mem_union.mpr (.inr hkey)

/-! ## Any number of saves -/

section

variable {β : Type} (key : TaskArtifactRef → β)

/-- The later save neither drops a reference of the earlier one nor erases its result. -/
structure Compatible (task later : TaskState) : Prop where
  artifacts : later.artifacts = [] ∨
    ∀ ref ∈ task.artifacts, key ref ∈ later.artifacts.map key
  result : task.SetsResult → ¬later.ErasesResult

/-- What the saves have set, and nothing else, is stored. -/
structure StoredOf (saves : List TaskState) (stored : TaskState) : Prop where
  readable : ∀ value, stored.result = some value → value.isNull = false
  result : stored.result.isSome → ∃ task ∈ saves, task.SetsResult
  artifacts : ∀ task ∈ saves, ∀ ref ∈ task.artifacts, key ref ∈ stored.artifacts.map key

variable {key}

theorem savedOver_readable {existing : Option TaskState} {next : TaskState} :
    ∀ value, (savedOver existing next).result = some value → value.isNull = false := by
  intro value hvalue
  have hkept := (Option.filter_eq_some_iff.mp hvalue).2
  simpa using hkept

variable {saves : List TaskState}

theorem StoredOf.concat {existing : Option TaskState} {next : TaskState}
    (hexisting : ∀ task, existing = some task → StoredOf key saves task)
    (hnone : existing = none → saves = []) (h : ∀ task ∈ saves, Compatible key task next) :
    StoredOf key (saves ++ [next]) (savedOver existing next) where
  readable := savedOver_readable
  result hsome := by
    rcases savedOver_result hsome with hnext | ⟨task, htask, hresult⟩
    · exact ⟨next, by simp, hnext⟩
    · obtain ⟨earlier, hearlier, hset⟩ := (hexisting task htask).result hresult
      exact ⟨earlier, List.mem_append_left _ hearlier, hset⟩
  artifacts task htask ref href := by
    rw [savedOver_artifacts]
    rcases List.mem_append.mp htask with hearlier | hlast
    · split
      · cases existing with
        | none =>
            rw [hnone rfl] at hearlier
            cases hearlier
        | some stored => exact (hexisting stored rfl).artifacts task hearlier ref href
      · rename_i hnonempty
        exact ((h task hearlier).artifacts.resolve_left hnonempty) ref href
    · rw [List.mem_singleton.mp hlast] at href
      rw [if_neg (List.ne_nil_of_mem href)]
      exact List.mem_map_of_mem href

variable (key)

/-- No save of the sequence loses completion data that an earlier one has set. -/
structure KeepsCompletion (table : TaskTable) (taskId : Uuid) (saves : List TaskState) :
    Prop where
  retains : ∀ earlier later, earlier <+: later → later <+: saves → ∀ existing,
    (table.saveAll earlier).load taskId = some existing →
      ∃ stored, (table.saveAll later).load taskId = some stored ∧
        RetainsCompletion existing stored
  artifacts : ∀ later, later <+: saves → ∀ task ∈ later, ∀ ref ∈ task.artifacts,
    ∃ stored, (table.saveAll later).load taskId = some stored ∧
      key ref ∈ stored.artifacts.map key

variable {key} {table : TaskTable} {taskId : Uuid}

theorem KeepsCompletion.of_prefix {whole : List TaskState}
    (h : KeepsCompletion key table taskId whole) (hsaves : saves <+: whole) :
    KeepsCompletion key table taskId saves where
  retains earlier later hearlier hlater := h.retains earlier later hearlier (hlater.trans hsaves)
  artifacts later hlater := h.artifacts later (hlater.trans hsaves)

theorem KeepsCompletion.compatible {task next : TaskState}
    (hid : ∀ task ∈ saves ++ [next], task.id = taskId)
    (h : KeepsCompletion key table taskId (saves ++ [next])) (htask : task ∈ saves) :
    Compatible key task next := by
  have hlast := @TaskTable.load_saveAll_concat table saves _ _ (hid next (by simp))
  constructor
  · refine or_iff_not_imp_left.mpr fun hnonempty ref href => ?_
    obtain ⟨stored, hstored, hkey⟩ := h.artifacts _ List.prefix_rfl task
      (List.mem_append_left _ htask) ref href
    rw [hlast] at hstored
    cases hstored
    rwa [savedOver_artifacts, if_neg hnonempty] at hkey
  · intro hset herases
    obtain ⟨before, after, rfl⟩ := List.append_of_mem htask
    have hsaved := @TaskTable.load_saveAll_concat table before _ _ (hid task (by simp))
    obtain ⟨stored, hstored, hretains⟩ := h.retains (before ++ [task])
      (before ++ task :: after ++ [next]) (by simp) List.prefix_rfl _ hsaved
    rw [hlast] at hstored
    cases hstored
    have hsome := hretains.result (savedOver_setsResult hset)
    rw [savedOver_erasesResult herases] at hsome
    cases hsome

theorem load_saveAll_eq_none (hid : ∀ task ∈ saves, task.id = taskId)
    (h : (table.saveAll saves).load taskId = none) : saves = [] := by
  rcases List.eq_nil_or_concat' saves with rfl | ⟨earlier, last, rfl⟩
  · rfl
  · rw [TaskTable.load_saveAll_concat (hid last (by simp))] at h
    cases h

theorem storedOf_saveAll (hfresh : table.load taskId = none)
    (hid : ∀ task ∈ saves, task.id = taskId) (h : saves.Pairwise (Compatible key)) :
    ∀ stored, (table.saveAll saves).load taskId = some stored → StoredOf key saves stored := by
  induction saves using List.reverseRecOn with
  | nil =>
      intro stored hstored
      rw [show table.saveAll [] = table from rfl, hfresh] at hstored
      cases hstored
  | append_singleton saves next ih =>
      have hearlier : ∀ task ∈ saves, task.id = taskId := fun task htask =>
        hid task (List.mem_append_left _ htask)
      obtain ⟨hsaves, -, hnext⟩ := List.pairwise_append.mp h
      intro stored hstored
      rw [TaskTable.load_saveAll_concat (hid next (by simp))] at hstored
      cases hstored
      exact .concat (ih hearlier hsaves) (load_saveAll_eq_none hearlier)
        fun task htask => hnext task htask next (List.mem_singleton_self next)

theorem saveAll_retains (hfresh : table.load taskId = none)
    (hid : ∀ task ∈ saves, task.id = taskId) (h : saves.Pairwise (Compatible key))
    {earlier : List TaskState} (hearlier : earlier <+: saves) {existing : TaskState}
    (hexisting : (table.saveAll earlier).load taskId = some existing) :
    ∃ stored, (table.saveAll saves).load taskId = some stored ∧
      RetainsCompletion existing stored := by
  induction saves using List.reverseRecOn with
  | nil =>
      rw [List.prefix_nil.mp hearlier] at hexisting
      exact ⟨existing, hexisting, .refl existing⟩
  | append_singleton saves next ih =>
      have hids : ∀ task ∈ saves, task.id = taskId := fun task htask =>
        hid task (List.mem_append_left _ htask)
      obtain ⟨hsaves, -, hnext⟩ := List.pairwise_append.mp h
      rcases List.prefix_concat_iff.mp hearlier with rfl | hearlier
      · exact ⟨existing, hexisting, .refl existing⟩
      · obtain ⟨stored, hstored, hretains⟩ := ih hids hsaves hearlier
        have hof := storedOf_saveAll hfresh hids hsaves stored hstored
        refine ⟨_, TaskTable.load_saveAll_concat (hid next (by simp)), ?_⟩
        rw [hstored]
        refine hretains.trans (savedOver_retains hof.readable fun hsome => ?_)
        obtain ⟨task, htask, hset⟩ := hof.result hsome
        exact (hnext task htask next (List.mem_singleton_self next)).result hset

/-- Saves of one task keep its completion data exactly when each later save that carries
references carries those of the earlier saves, and none has the result `null` after a save
with a result. -/
theorem saveAll_keepsCompletion_iff {saves : List TaskState} (hfresh : table.load taskId = none)
    (hid : ∀ task ∈ saves, task.id = taskId) :
    KeepsCompletion key table taskId saves ↔ saves.Pairwise (Compatible key) := by
  constructor
  · intro h
    induction saves using List.reverseRecOn with
    | nil => exact .nil
    | append_singleton saves next ih =>
        refine List.pairwise_append.mpr ⟨?_, List.pairwise_singleton _ _, ?_⟩
        · exact ih (fun task htask => hid task (List.mem_append_left _ htask))
            (h.of_prefix (List.prefix_append _ _))
        · intro task htask later hlater
          rw [List.mem_singleton.mp hlater]
          exact h.compatible hid htask
  · intro h
    refine ⟨fun earlier later hearlier hlater existing hexisting => ?_,
      fun later hlater task htask ref href => ?_⟩
    · exact saveAll_retains hfresh (fun task htask => hid task (hlater.subset htask))
        (h.sublist hlater.sublist) hearlier hexisting
    · have hids : ∀ task ∈ later, task.id = taskId := fun task htask =>
        hid task (hlater.subset htask)
      cases hstored : (table.saveAll later).load taskId with
      | none =>
          rw [load_saveAll_eq_none hids hstored] at htask
          cases htask
      | some stored =>
          exact ⟨stored, rfl, (storedOf_saveAll hfresh hids (h.sublist hlater.sublist) stored
            hstored).artifacts task htask ref href⟩

theorem saveAll_keepsCompletion_iff_draft :
    let draft : TaskState :=
      { id := "t", status := .completed, artifacts := [⟨"a", "file", "draft.md", none⟩] }
    KeepsCompletion (·.artifactId) TaskTable.empty "t" [draft, { id := "t" }] ↔
      [draft, { id := "t" }].Pairwise (Compatible (·.artifactId)) :=
  saveAll_keepsCompletion_iff rfl (by simp)

/-- The reference of the first save is gone after the second, which carries another. -/
theorem saveAll_otherArtifacts :
    let draft : TaskState := { id := "t", artifacts := [⟨"a", "file", "draft.md", none⟩] }
    let report : TaskState := { id := "t", artifacts := [⟨"b", "file", "report.md", none⟩] }
    ¬KeepsCompletion (·.artifactId) TaskTable.empty "t" [draft, report] := by
  intro draft report h
  obtain ⟨stored, hstored, hkey⟩ := h.artifacts _ List.prefix_rfl draft (by simp) _
    List.mem_cons_self
  have hreport : (TaskTable.empty.saveAll [draft, report]).load "t" = some report := rfl
  rw [hreport] at hstored
  cases hstored
  simp [report] at hkey

end

end BenShu.State
