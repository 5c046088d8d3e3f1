import BenShu.State.Artifact
import Mathlib

/-!
# What a cleanup reports

A cleanup accounts for every record it scans and removes none that its filters exclude. Its
dry run reports the same as the real run unless the real run meets a file that it cannot
remove, or a record whose file it has itself removed.
-/

namespace BenShu.State

/-- The record is in the scope and of the kind asked for, and an orphan if only those are. -/
structure PassesFilters (policy : ArtifactCleanupPolicy) (artifact : ArtifactRecord) : Prop where
  scope : ∀ scope, policy.scope = some scope → artifact.scope = scope
  sourceKind : ∀ kind, policy.sourceKind = some kind → artifact.sourceKind = kind
  orphan : policy.orphanOnly = true → artifact.isOrphan = true

section

variable {policy : ArtifactCleanupPolicy} {now : Int} {artifact : ArtifactRecord}

theorem passesFilters_of_matched {missing : Bool}
    (h : (judgeArtifact policy now artifact missing).isMatched = true) :
    PassesFilters policy artifact := by
  unfold judgeArtifact at h
  split at h
  · cases h
  · rename_i hscope
    split at h
    · cases h
    · rename_i hkind
      split at h
      · cases h
      · rename_i horphan
        refine ⟨fun scope hpolicy => ?_, fun kind hpolicy => ?_, fun hpolicy => ?_⟩
        · rw [hpolicy, Option.any_some, bne_iff_ne, ne_eq, not_not] at hscope
          exact hscope.symm
        · rw [hpolicy, Option.any_some, bne_iff_ne, ne_eq, not_not] at hkind
          exact hkind.symm
        · rw [hpolicy] at horphan
          simpa using horphan

/-! ## One step -/

def ArtifactCleanupReport.ofRecords (report : ArtifactCleanupReport) : ArtifactCleanupReport :=
  { report with deletedLocalFiles := 0, skippedExternalFiles := 0, deletedFilePaths := [] }

theorem CleanupState.planFile_frame (policy : ArtifactCleanupPolicy) (s : CleanupState)
    (artifact : ArtifactRecord) :
    (s.planFile policy artifact).table = s.table ∧ (s.planFile policy artifact).files = s.files ∧
      (s.planFile policy artifact).report.ofRecords = s.report.ofRecords := by
  unfold planFile skipExternal addDeletedFile
  split
  · split
    · exact ⟨rfl, rfl, rfl⟩
    · split <;> exact ⟨rfl, rfl, rfl⟩
  · exact ⟨rfl, rfl, rfl⟩

def LocalFiles.CanRemove (files : LocalFiles) (path : String) : Prop :=
  files.isPresent path = true ∧ files.isRemovable path = true

instance (files : LocalFiles) (path : String) : Decidable (files.CanRemove path) :=
  inferInstanceAs (Decidable (_ ∧ _))

def LocalFiles.without (files : LocalFiles) (path : String) : LocalFiles :=
  { files with isPresent := fun other => files.isPresent other && !files.hides path other }

theorem LocalFiles.removeFile_eq (files : LocalFiles) (path : String) :
    files.removeFile path = if files.CanRemove path then some (files.without path) else none := by
  unfold removeFile without CanRemove
  simp only [Bool.and_eq_true]
  rfl

def filePath (policy : ArtifactCleanupPolicy) (artifact : ArtifactRecord) : Option String :=
  if policy.deleteLocalFiles then artifact.localFilePath else none

/-- A real run does with the file what a dry run reports, or cannot remove it. -/
theorem CleanupState.dropFile_cases (policy : ArtifactCleanupPolicy) (s : CleanupState)
    (artifact : ArtifactRecord) :
    (s.dropFile policy artifact =
        { s.planFile policy artifact with
          files := (filePath policy artifact).elim s.files s.files.without } ∧
      ∀ path, filePath policy artifact = some path → s.files.CanRemove path) ∨
    s.dropFile policy artifact = s ∧
      ∃ path, filePath policy artifact = some path ∧ ¬s.files.CanRemove path := by
  unfold dropFile planFile filePath
  by_cases hdelete : policy.deleteLocalFiles = true
  · simp only [if_pos hdelete]
    cases artifact.localFilePath with
    | none =>
        refine .inl ⟨?_, fun _ h => by cases h⟩
        dsimp only
        unfold skipExternal
        split <;> rfl
    | some path =>
        simp only [LocalFiles.removeFile_eq]
        by_cases hcan : s.files.CanRemove path
        · left
          simp only [if_pos hcan, if_pos hcan.1]
          exact ⟨rfl, fun other h => Option.some.inj h ▸ hcan⟩
        · right
          simp only [if_neg hcan, ite_self]
          exact ⟨trivial, path, rfl, hcan⟩
  · left
    simp only [if_neg hdelete]
    exact ⟨rfl, fun _ h => by cases h⟩

/-- What a step over a record does. -/
inductive Cleaned (policy : ArtifactCleanupPolicy) (s : CleanupState)
    (artifact : ArtifactRecord) : Judgement → CleanupState → Prop
  | kept : Cleaned policy s artifact .keep s.keep
  | keptDurable : Cleaned policy s artifact .keepDurable { s with
      report.skippedDurableWithoutPolicy := s.report.skippedDurableWithoutPolicy + 1 }.keep
  | overBudget {orphan missing : Bool} (hspent : s.budgetSpent policy = true) :
      Cleaned policy s artifact (.matched orphan missing) (s.countMatch orphan missing).keep
  | planned {orphan missing : Bool} (hbudget : s.budgetSpent policy = false)
      (hdry : policy.dryRun = true) :
      Cleaned policy s artifact (.matched orphan missing)
        (((s.countMatch orphan missing).planFile policy artifact).addDeleted artifact)
  | deleted {orphan missing : Bool} (hbudget : s.budgetSpent policy = false)
      (hreal : policy.dryRun = false) :
      Cleaned policy s artifact (.matched orphan missing)
        ((s.countMatch orphan missing).deleteRecord policy artifact)

theorem cleanupStep_cleaned {s s' : CleanupState}
    (h : cleanupStep policy now s artifact = some s') :
    Cleaned policy s artifact
      (judgeArtifact policy now artifact (artifact.missingLocalFile s.files)) s' := by
  unfold cleanupStep at h
  split at h
  · rename_i hjudge
    cases h
    rw [hjudge]
    exact .kept
  · rename_i hjudge
    cases h
    rw [hjudge]
    exact .keptDurable
  · cases h
  · rename_i orphan missing hjudge
    rw [hjudge]
    change (if s.budgetSpent policy = true then _ else _) = _ at h
    split at h
    · rename_i hspent
      cases h
      exact .overBudget hspent
    · rename_i hbudget
      rw [Bool.not_eq_true] at hbudget
      split at h
      · rename_i hdry
        cases h
        exact .planned hbudget hdry
      · rename_i hreal
        rw [Bool.not_eq_true] at hreal
        cases h
        exact .deleted hbudget hreal

theorem cleanupStep_isSome_iff {s : CleanupState} :
    (cleanupStep policy now s artifact).isSome ↔
      judgeArtifact policy now artifact (artifact.missingLocalFile s.files) ≠ .noDuration := by
  unfold cleanupStep
  cases judgeArtifact policy now artifact (artifact.missingLocalFile s.files) with
  | keep => simp
  | keepDurable => simp
  | noDuration => simp
  | matched orphan missing =>
      simp only [ne_eq, reduceCtorEq, not_false_eq_true, iff_true]
      split
      · rfl
      · split <;> rfl

/-- What becomes of the record under the step's own hand. -/
theorem CleanupState.deleteRecord_cases (policy : ArtifactCleanupPolicy) (s : CleanupState)
    (artifact : ArtifactRecord) :
    (s.deleteRecord policy artifact = { s with
        table := (s.table.delete artifact.artifactId).2
        report.kept := s.report.kept + 1 } ∧ s.table.load artifact.artifactId = none) ∨
    (s.deleteRecord policy artifact = ({ s with
        table := (s.table.delete artifact.artifactId).2 }.dropFile policy artifact).addDeleted
          artifact ∧ (s.table.load artifact.artifactId).isSome) := by
  unfold deleteRecord
  cases hload : s.table.load artifact.artifactId with
  | none =>
      refine .inl ⟨?_, rfl⟩
      simp only [ArtifactTable.delete, hload, Option.isSome_none, Bool.false_eq_true, if_false]
      rfl
  | some stored =>
      refine .inr ⟨?_, rfl⟩
      simp only [ArtifactTable.delete, hload, Option.isSome_some, if_true]

theorem CleanupState.dropFile_frame (policy : ArtifactCleanupPolicy) (s : CleanupState)
    (artifact : ArtifactRecord) :
    (s.dropFile policy artifact).table = s.table ∧
      (s.dropFile policy artifact).report.ofRecords = s.report.ofRecords := by
  rcases s.dropFile_cases policy artifact with ⟨heq, -⟩ | ⟨heq, -⟩
  · rw [heq]
    obtain ⟨htable, -, hreport⟩ := s.planFile_frame policy artifact
    exact ⟨htable, hreport⟩
  · rw [heq]
    exact ⟨rfl, rfl⟩

/-! ## One run -/

/-- What holds of a cleanup of the table after the records that it has gone over. -/
structure CleanupInvariant (policy : ArtifactCleanupPolicy) (table : ArtifactTable)
    (files : LocalFiles) (scanned done : Nat) (s : CleanupState) : Prop where
  scanned : s.report.scanned = scanned
  unfinished : s.report.deleted = 0
  counted : s.report.deletedArtifactIds.length + s.report.kept = done
  bounded : ∀ limit, policy.maxDelete = some limit →
    s.report.deletedArtifactIds.length ≤ limit
  spared : ∀ id artifact, table.load id = some artifact → ¬PassesFilters policy artifact →
    s.table.load id = some artifact
  unchanged : policy.dryRun = true → s.table = table ∧ s.files = files

theorem CleanupInvariant.step {table : ArtifactTable} {files : LocalFiles} {scanned done : Nat}
    {s s' : CleanupState} (hinv : CleanupInvariant policy table files scanned done s)
    (hlisted : table.load artifact.artifactId = some artifact)
    (h : cleanupStep policy now s artifact = some s') :
    CleanupInvariant policy table files scanned (done + 1) s' := by
  have hstep := cleanupStep_cleaned h
  have hcounted := hinv.counted
  -- a record that is kept moves one count
  have kept : ∀ {t : CleanupState}, t.table = s.table → t.files = s.files →
      t.report.scanned = s.report.scanned → t.report.deleted = s.report.deleted →
      t.report.deletedArtifactIds = s.report.deletedArtifactIds →
      t.report.kept = s.report.kept + 1 →
      CleanupInvariant policy table files scanned (done + 1) t := by
    intro t htable hfiles hscanned hdeleted hids hkept
    refine ⟨hscanned.trans hinv.scanned, hdeleted.trans hinv.unfinished,
      by rw [hids, hkept]; omega, ?_, ?_, ?_⟩
    · rw [hids]
      exact hinv.bounded
    · rw [htable]
      exact hinv.spared
    · rw [htable, hfiles]
      exact hinv.unchanged
  -- what is deleted within the budget stays within the limit
  have gone : s.budgetSpent policy = false → ∀ {t : CleanupState},
      t.report.scanned = s.report.scanned → t.report.deleted = s.report.deleted →
      t.report.deletedArtifactIds = s.report.deletedArtifactIds ++ [artifact.artifactId] →
      t.report.kept = s.report.kept →
      (∀ id stored, table.load id = some stored → ¬PassesFilters policy stored →
        t.table.load id = some stored) →
      (policy.dryRun = true → t.table = table ∧ t.files = files) →
      CleanupInvariant policy table files scanned (done + 1) t := by
    intro hbudget t hscanned hdeleted hids hkept hspared hunchanged
    have hlength : t.report.deletedArtifactIds.length =
        s.report.deletedArtifactIds.length + 1 := by
      rw [hids, List.length_append, List.length_singleton]
    refine ⟨hscanned.trans hinv.scanned, hdeleted.trans hinv.unfinished,
      by rw [hlength, hkept]; omega, ?_, hspared, hunchanged⟩
    intro limit hlimit
    unfold CleanupState.budgetSpent at hbudget
    rw [hlimit, Option.any_some, decide_eq_false_iff_not] at hbudget
    omega
  have spared : (judgeArtifact policy now artifact
      (artifact.missingLocalFile s.files)).isMatched = true → ∀ id stored,
      table.load id = some stored → ¬PassesFilters policy stored →
      (s.table.delete artifact.artifactId).2.load id = some stored := by
    intro hmatched id stored hload hexcluded
    rw [ArtifactTable.load_delete, if_neg, hinv.spared id stored hload hexcluded]
    rintro rfl
    rw [hlisted] at hload
    cases hload
    exact hexcluded (passesFilters_of_matched hmatched)
  cases hjudge : judgeArtifact policy now artifact (artifact.missingLocalFile s.files) with
  | keep =>
      rw [hjudge] at hstep
      cases hstep
      exact kept rfl rfl rfl rfl rfl rfl
  | keepDurable =>
      rw [hjudge] at hstep
      cases hstep
      exact kept rfl rfl rfl rfl rfl rfl
  | noDuration =>
      rw [hjudge] at hstep
      cases hstep
  | matched orphan missing =>
      rw [hjudge] at hstep spared
      cases hstep with
      | overBudget => exact kept rfl rfl rfl rfl rfl rfl
      | planned hbudget hdry =>
          obtain ⟨htable, hfiles, hreport⟩ := (s.countMatch orphan missing).planFile_frame policy
            artifact
          refine gone hbudget (congrArg (·.scanned) hreport) (congrArg (·.deleted) hreport)
            (congrArg (· ++ [artifact.artifactId]) (congrArg (·.deletedArtifactIds) hreport))
            (congrArg (·.kept) hreport) ?_ ?_
          · intro id stored hload hexcluded
            change ((s.countMatch orphan missing).planFile policy artifact).table.load id = _
            rw [htable]
            exact hinv.spared id stored hload hexcluded
          · intro _
            exact ⟨htable.trans (hinv.unchanged hdry).1, hfiles.trans (hinv.unchanged hdry).2⟩
      | deleted hbudget hreal =>
          have hdry : policy.dryRun = true → False := fun hdry => by
            rw [hdry] at hreal
            cases hreal
          rcases (s.countMatch orphan missing).deleteRecord_cases policy artifact with
            ⟨heq, -⟩ | ⟨heq, -⟩
          · rw [heq]
            refine ⟨hinv.scanned, hinv.unfinished, ?_, hinv.bounded, spared rfl,
              fun h => (hdry h).elim⟩
            change s.report.deletedArtifactIds.length + (s.report.kept + 1) = _
            omega
          · rw [heq]
            obtain ⟨htable, hreport⟩ := CleanupState.dropFile_frame policy ⟨(s.table.delete
              artifact.artifactId).2, s.files, (s.countMatch orphan missing).report⟩ artifact
            refine gone hbudget (congrArg (·.scanned) hreport) (congrArg (·.deleted) hreport)
              (congrArg (· ++ [artifact.artifactId]) (congrArg (·.deletedArtifactIds) hreport))
              (congrArg (·.kept) hreport) ?_ fun h => (hdry h).elim
            intro id stored hload hexcluded
            refine (congrArg (·.load id) htable).trans ?_
            exact spared rfl id stored hload hexcluded

theorem CleanupInvariant.loop {table : ArtifactTable} {files : LocalFiles} {scanned done : Nat}
    {s : CleanupState} {rest : List ArtifactRecord}
    (hinv : CleanupInvariant policy table files scanned done s)
    (hlisted : ∀ artifact ∈ rest, table.load artifact.artifactId = some artifact) :
    ∃ gone, CleanupInvariant policy table files scanned gone (cleanupLoop policy now rest s).1 ∧
      ((cleanupLoop policy now rest s).2 = true → gone = done + rest.length) := by
  induction rest generalizing s done with
  | nil => exact ⟨done, hinv, fun _ => rfl⟩
  | cons artifact rest ih =>
      unfold cleanupLoop
      split
      · rename_i s' hstep
        obtain ⟨gone, hgone, hall⟩ := ih (hinv.step (hlisted artifact List.mem_cons_self) hstep)
          fun other hother => hlisted other (List.mem_cons_of_mem _ hother)
        refine ⟨gone, hgone, fun hfinished => ?_⟩
        rw [hall hfinished, List.length_cons]
        omega
      · exact ⟨done, hinv, fun h => by cases h⟩

end

theorem ArtifactTable.mem_list {table : ArtifactTable} {artifact : ArtifactRecord} :
    artifact ∈ table.list ↔ table.load artifact.artifactId = some artifact := by
  unfold list load
  rw [List.mem_insertionSort, List.mem_map, ← Table.mem_entries_iff]
  constructor
  · rintro ⟨⟨id, stored⟩, hentry, rfl⟩
    rwa [table.keyed id stored (Table.mem_entries_iff.mp hentry)]
  · exact fun hentry => ⟨_, hentry, rfl⟩

theorem ArtifactTable.nodup_list (table : ArtifactTable) :
    (table.list.map (·.artifactId)).Nodup := by
  have hperm : (table.list.map (·.artifactId)).Perm table.rows.keys := by
    unfold list
    refine ((List.perm_insertionSort ListedBefore _).map _).trans (List.Perm.of_eq ?_)
    rw [List.map_map]
    refine List.map_congr_left fun entry hentry => ?_
    exact table.keyed entry.1 entry.2 (Table.mem_entries_iff.mp hentry)
  exact hperm.nodup_iff.mpr table.rows.keys_nodup

/-! ## Two runs -/

def ArtifactCleanupPolicy.withDryRun (policy : ArtifactCleanupPolicy) (dryRun : Bool) :
    ArtifactCleanupPolicy := { policy with dryRun }

namespace Judgement

def missingCount : Judgement → Nat
  | .matched _ missing => missing.toNat
  | _ => 0

/-- What is counted of a record that comes to its age. -/
def agedCount : Judgement → Nat
  | .matched _ _ => 1
  | .keepDurable => 1
  | _ => 0

end Judgement

theorem Judgement.ofAge_counts (orphan : Bool) (aged : Option Bool) :
    (ofAge orphan aged).missingCount = 0 ∧
      (ofAge orphan aged = .keep ∨ ofAge orphan aged = .noDuration ∨
        (ofAge orphan aged).agedCount = 1) := by
  rcases aged with _ | _ | _
  · exact ⟨rfl, .inr (.inl rfl)⟩
  · exact ⟨rfl, .inl rfl⟩
  · exact ⟨rfl, .inr (.inr rfl)⟩

theorem judgeAge_counts (policy : ArtifactCleanupPolicy) (now : Int) (artifact : ArtifactRecord) :
    (judgeAge policy now artifact).missingCount = 0 ∧
      (judgeAge policy now artifact = .keep ∨ judgeAge policy now artifact = .noDuration ∨
        (judgeAge policy now artifact).agedCount = 1) := by
  unfold judgeAge
  cases artifact.lifecycle with
  | ephemeral => exact Judgement.ofAge_counts _ _
  | session => exact Judgement.ofAge_counts _ _
  | durable =>
      cases policy.durableMaxAgeDays with
      | none => exact ⟨rfl, .inr (.inr rfl)⟩
      | some days => exact Judgement.ofAge_counts _ _

/-- A record whose file goes missing counts as missing, or no longer counts for its age. -/
theorem judgeArtifact_missing {policy : ArtifactCleanupPolicy} {now : Int}
    {artifact : ArtifactRecord}
    (hduration : judgeArtifact policy now artifact false ≠ .noDuration) :
    judgeArtifact policy now artifact true = judgeArtifact policy now artifact false ∨
      (policy.pruneMissingLocalFiles = true ∧
        (judgeArtifact policy now artifact false).missingCount <
          (judgeArtifact policy now artifact true).missingCount) ∨
      policy.pruneMissingLocalFiles = false ∧
        (judgeArtifact policy now artifact true).agedCount <
          (judgeArtifact policy now artifact false).agedCount := by
  obtain ⟨hmissing, haged⟩ := judgeAge_counts policy now artifact
  unfold judgeArtifact at hduration ⊢
  split
  · exact .inl rfl
  · split
    · exact .inl rfl
    · split
      · exact .inl rfl
      · rename_i hscope hkind horphan
        simp only [hscope, hkind, horphan, if_false, Bool.false_and, Bool.true_and,
          Bool.false_eq_true, if_true] at hduration ⊢
        cases hprune : policy.pruneMissingLocalFiles with
        | true =>
            refine .inr (.inl ⟨rfl, ?_⟩)
            rw [hmissing]
            exact Nat.one_pos
        | false =>
            rcases haged with hkeep | hnone | hcount
            · exact .inl hkeep.symm
            · exact absurd hnone hduration
            · refine .inr (.inr ⟨rfl, ?_⟩)
              rw [hcount]
              exact Nat.one_pos

def Judgement.plannedFiles (policy : ArtifactCleanupPolicy) (s : CleanupState)
    (artifact : ArtifactRecord) (j : Judgement) : Nat :=
  (j.isMatched && !s.budgetSpent policy && (filePath policy artifact).isSome).toNat

/-- What a step adds to the counts. -/
structure StepCounts (policy : ArtifactCleanupPolicy) (s : CleanupState)
    (artifact : ArtifactRecord) (j : Judgement) (s' : CleanupState) : Prop where
  missing : s'.report.missingLocalFileMatched =
    s.report.missingLocalFileMatched + j.missingCount
  aged : s'.report.matched + s'.report.skippedDurableWithoutPolicy =
    s.report.matched + s.report.skippedDurableWithoutPolicy + j.agedCount
  ids : s'.report.deletedArtifactIds = s.report.deletedArtifactIds ++
    if j.isMatched && !s.budgetSpent policy then [artifact.artifactId] else []
  filesLe : s'.report.deletedLocalFiles ≤
    s.report.deletedLocalFiles + j.plannedFiles policy s artifact
  filesDry : policy.dryRun = true → s'.report.deletedLocalFiles =
    s.report.deletedLocalFiles + j.plannedFiles policy s artifact

theorem CleanupState.planFile_localFiles (policy : ArtifactCleanupPolicy) (s : CleanupState)
    (artifact : ArtifactRecord) :
    (s.planFile policy artifact).report.deletedLocalFiles =
      s.report.deletedLocalFiles + (filePath policy artifact).isSome.toNat := by
  unfold planFile filePath skipExternal
  split
  · split
    · rename_i hpath
      rw [hpath]
      rfl
    · rename_i hpath
      rw [hpath]
      split <;> rfl
  · rfl

theorem CleanupState.dropFile_localFiles_le (policy : ArtifactCleanupPolicy) (s : CleanupState)
    (artifact : ArtifactRecord) :
    (s.dropFile policy artifact).report.deletedLocalFiles ≤
      s.report.deletedLocalFiles + (filePath policy artifact).isSome.toNat := by
  rcases s.dropFile_cases policy artifact with ⟨heq, -⟩ | ⟨heq, -⟩
  · rw [heq]
    exact (s.planFile_localFiles policy artifact).le
  · rw [heq]
    exact Nat.le_add_right _ _

theorem Cleaned.counts {policy : ArtifactCleanupPolicy} {s s' : CleanupState}
    {artifact : ArtifactRecord} {j : Judgement} (h : Cleaned policy s artifact j s')
    (hrow : (s.table.load artifact.artifactId).isSome) : StepCounts policy s artifact j s' := by
  cases h with
  | kept => exact ⟨rfl, rfl, (List.append_nil _).symm, Nat.le_refl _, fun _ => rfl⟩
  | keptDurable =>
      refine ⟨rfl, ?_, (List.append_nil _).symm, Nat.le_refl _, fun _ => rfl⟩
      change s.report.matched + (s.report.skippedDurableWithoutPolicy + 1) = _
      simp only [Judgement.agedCount]
      omega
  | @overBudget orphan missing hspent =>
      refine ⟨rfl, ?_, ?_, ?_, fun _ => ?_⟩
      · change s.report.matched + 1 + s.report.skippedDurableWithoutPolicy = _
        simp only [Judgement.agedCount]
        omega
      · simp only [hspent, Bool.not_true, Bool.and_false, Bool.false_eq_true, if_false,
          List.append_nil]
        rfl
      · exact Nat.le_add_right _ _
      · simp only [Judgement.plannedFiles, hspent, Bool.not_true, Bool.and_false,
          Bool.false_and, Bool.toNat_false, Nat.add_zero]
        rfl
  | @planned orphan missing hbudget hdry =>
      obtain ⟨-, -, hreport⟩ := (s.countMatch orphan missing).planFile_frame policy artifact
      have hfiles := (s.countMatch orphan missing).planFile_localFiles policy artifact
      have hplanned : (Judgement.matched orphan missing).plannedFiles policy s artifact =
          (filePath policy artifact).isSome.toNat := by
        simp [Judgement.plannedFiles, Judgement.isMatched, hbudget]
      refine ⟨congrArg (·.missingLocalFileMatched) hreport, ?_, ?_, ?_, fun _ => ?_⟩
      · refine (congrArg (fun report : ArtifactCleanupReport =>
          report.matched + report.skippedDurableWithoutPolicy) hreport).trans ?_
        change s.report.matched + 1 + s.report.skippedDurableWithoutPolicy = _
        simp only [Judgement.agedCount]
        omega
      · simp only [Judgement.isMatched, hbudget, Bool.not_false, Bool.and_true, if_true]
        exact congrArg (· ++ [artifact.artifactId]) (congrArg (·.deletedArtifactIds) hreport)
      · rw [hplanned]
        exact hfiles.le
      · rw [hplanned]
        exact hfiles
  | @deleted orphan missing hbudget hreal =>
      have hplanned : (Judgement.matched orphan missing).plannedFiles policy s artifact =
          (filePath policy artifact).isSome.toNat := by
        simp [Judgement.plannedFiles, Judgement.isMatched, hbudget]
      rcases (s.countMatch orphan missing).deleteRecord_cases policy artifact with
        ⟨-, hnone⟩ | ⟨heq, -⟩
      · change s.table.load artifact.artifactId = none at hnone
        rw [hnone] at hrow
        cases hrow
      · rw [heq]
        obtain ⟨-, hreport⟩ := CleanupState.dropFile_frame policy ⟨(s.table.delete
          artifact.artifactId).2, s.files, (s.countMatch orphan missing).report⟩ artifact
        have hfiles := CleanupState.dropFile_localFiles_le policy ⟨(s.table.delete
          artifact.artifactId).2, s.files, (s.countMatch orphan missing).report⟩ artifact
        refine ⟨congrArg (·.missingLocalFileMatched) hreport, ?_, ?_, ?_, fun hdry => ?_⟩
        · refine (congrArg (fun report : ArtifactCleanupReport =>
            report.matched + report.skippedDurableWithoutPolicy) hreport).trans ?_
          change s.report.matched + 1 + s.report.skippedDurableWithoutPolicy = _
          simp only [Judgement.agedCount]
          omega
        · simp only [Judgement.isMatched, hbudget, Bool.not_false, Bool.and_true, if_true]
          exact congrArg (· ++ [artifact.artifactId]) (congrArg (·.deletedArtifactIds) hreport)
        · rw [hplanned]
          exact hfiles
        · rw [hdry] at hreal
          cases hreal

theorem Cleaned.moves {policy : ArtifactCleanupPolicy} {s s' : CleanupState}
    {artifact : ArtifactRecord} {j : Judgement} (h : Cleaned policy s artifact j s') :
    (s'.table = s.table ∨ s'.table = (s.table.delete artifact.artifactId).2) ∧
      (s'.files = s.files ∨ ∃ path, s'.files = s.files.without path) ∧
      (policy.dryRun = true → s'.table = s.table ∧ s'.files = s.files) := by
  cases h with
  | kept => exact ⟨.inl rfl, .inl rfl, fun _ => ⟨rfl, rfl⟩⟩
  | keptDurable => exact ⟨.inl rfl, .inl rfl, fun _ => ⟨rfl, rfl⟩⟩
  | overBudget => exact ⟨.inl rfl, .inl rfl, fun _ => ⟨rfl, rfl⟩⟩
  | @planned orphan missing =>
      obtain ⟨htable, hfiles, -⟩ := (s.countMatch orphan missing).planFile_frame policy artifact
      exact ⟨.inl htable, .inl hfiles, fun _ => ⟨htable, hfiles⟩⟩
  | @deleted orphan missing hbudget hreal =>
      have hdry : policy.dryRun = true → False := fun hdry => by
        rw [hdry] at hreal
        cases hreal
      rcases (s.countMatch orphan missing).deleteRecord_cases policy artifact with
        ⟨heq, -⟩ | ⟨heq, -⟩
      · rw [heq]
        exact ⟨.inr rfl, .inl rfl, fun h => (hdry h).elim⟩
      · rw [heq]
        obtain ⟨htable, -⟩ := CleanupState.dropFile_frame policy ⟨(s.table.delete
          artifact.artifactId).2, s.files, (s.countMatch orphan missing).report⟩ artifact
        refine ⟨.inr htable, ?_, fun h => (hdry h).elim⟩
        rcases CleanupState.dropFile_cases policy ⟨(s.table.delete artifact.artifactId).2,
          s.files, (s.countMatch orphan missing).report⟩ artifact with ⟨hdrop, -⟩ | ⟨hdrop, -⟩
        · cases hpath : filePath policy artifact with
          | none =>
              rw [hpath] at hdrop
              exact .inl (congrArg (·.files) hdrop)
          | some path =>
              rw [hpath] at hdrop
              exact .inr ⟨path, congrArg (·.files) hdrop⟩
        · exact .inl (congrArg (·.files) hdrop)

section

variable (policy : ArtifactCleanupPolicy) (now : Int) (files : LocalFiles)

/-- A dry run and a real run of one policy that are both about to go over `rest`. The dry
run finds the files as they were. -/
structure BothAt (rest : List ArtifactRecord) (d r : CleanupState) : Prop where
  dryFiles : d.files = files
  present : ∀ path, r.files.isPresent path = true → files.isPresent path = true
  removable : r.files.isRemovable = files.isRemovable
  hides : r.files.hides = files.hides
  dryRows : ∀ artifact ∈ rest, (d.table.load artifact.artifactId).isSome
  realRows : ∀ artifact ∈ rest, (r.table.load artifact.artifactId).isSome
  distinct : (rest.map (·.artifactId)).Nodup

def SameReport (d r : CleanupState) : Prop := r.report = { d.report with dryRun := false }

/-- The reports differ and will differ: the real run has counted more missing files, or fewer
records that came to their age, or it has judged all records alike and removed fewer files. -/
inductive Apart (d r : CleanupState) : Prop
  | missing (hprune : policy.pruneMissingLocalFiles = true)
      (h : d.report.missingLocalFileMatched < r.report.missingLocalFileMatched)
  | aged (hprune : policy.pruneMissingLocalFiles = false)
      (h : r.report.matched + r.report.skippedDurableWithoutPolicy <
        d.report.matched + d.report.skippedDurableWithoutPolicy)
  | files (hmissing : d.report.missingLocalFileMatched = r.report.missingLocalFileMatched)
      (haged : d.report.matched + d.report.skippedDurableWithoutPolicy =
        r.report.matched + r.report.skippedDurableWithoutPolicy)
      (hids : r.report.deletedArtifactIds.length = d.report.deletedArtifactIds.length)
      (h : r.report.deletedLocalFiles < d.report.deletedLocalFiles)

variable {policy now files} {rest : List ArtifactRecord} {artifact : ArtifactRecord}
  {d r d' r' : CleanupState}

theorem Apart.not_sameReport (h : Apart policy d r) : ¬SameReport d r := by
  intro hsame
  unfold SameReport at hsame
  cases h with
  | missing _ h =>
      rw [hsame] at h
      exact Nat.lt_irrefl _ h
  | aged _ h =>
      rw [hsame] at h
      exact Nat.lt_irrefl _ h
  | files _ _ _ h =>
      rw [hsame] at h
      exact Nat.lt_irrefl _ h

theorem missingLocalFile_iff {files : LocalFiles} :
    artifact.missingLocalFile files = true ↔
      ∃ path, artifact.localFilePath = some path ∧ files.isPresent path = false := by
  unfold ArtifactRecord.missingLocalFile
  rw [Option.any_eq_true]
  simp only [Bool.not_eq_true']

theorem BothAt.missing (h : BothAt files rest d r)
    (hmissing : artifact.missingLocalFile files = true) :
    artifact.missingLocalFile r.files = true := by
  obtain ⟨path, hpath, habsent⟩ := missingLocalFile_iff.mp hmissing
  refine missingLocalFile_iff.mpr ⟨path, hpath, Bool.eq_false_iff.mpr fun hpresent => ?_⟩
  rw [h.present path hpresent] at habsent
  cases habsent

def JudgedApart (policy : ArtifactCleanupPolicy) (dry real : Judgement) : Prop :=
  (policy.pruneMissingLocalFiles = true ∧ dry.missingCount < real.missingCount) ∨
    policy.pruneMissingLocalFiles = false ∧ real.agedCount < dry.agedCount

theorem BothAt.judged (h : BothAt files rest d r)
    (hduration : judgeArtifact policy now artifact (artifact.missingLocalFile files) ≠
      .noDuration) :
    judgeArtifact policy now artifact (artifact.missingLocalFile r.files) =
        judgeArtifact policy now artifact (artifact.missingLocalFile files) ∨
      JudgedApart policy (judgeArtifact policy now artifact (artifact.missingLocalFile files))
        (judgeArtifact policy now artifact (artifact.missingLocalFile r.files)) := by
  cases hdry : artifact.missingLocalFile files with
  | true =>
      rw [h.missing hdry]
      exact .inl rfl
  | false =>
      rw [hdry] at hduration
      cases artifact.missingLocalFile r.files with
      | false => exact .inl rfl
      | true => exact judgeArtifact_missing hduration

theorem BothAt.step (h : BothAt files (artifact :: rest) d r) {jd jr : Judgement}
    (hd : Cleaned (policy.withDryRun true) d artifact jd d')
    (hr : Cleaned (policy.withDryRun false) r artifact jr r') : BothAt files rest d' r' := by
  obtain ⟨-, -, hdry⟩ := hd.moves
  obtain ⟨hdryTable, hdryFiles⟩ := hdry rfl
  obtain ⟨htable, hfiles, -⟩ := hr.moves
  have hdistinct : artifact.artifactId ∉ rest.map (·.artifactId) ∧
      (rest.map (·.artifactId)).Nodup := List.nodup_cons.mp h.distinct
  refine ⟨hdryFiles.trans h.dryFiles, ?_, ?_, ?_, ?_, ?_, hdistinct.2⟩
  · intro path hpresent
    rcases hfiles with heq | ⟨gone, heq⟩
    · rw [heq] at hpresent
      exact h.present path hpresent
    · rw [heq] at hpresent
      exact h.present path (Bool.and_eq_true_iff.mp hpresent).1
  · rcases hfiles with heq | ⟨gone, heq⟩ <;> rw [heq]
    · exact h.removable
    · exact h.removable
  · rcases hfiles with heq | ⟨gone, heq⟩ <;> rw [heq]
    · exact h.hides
    · exact h.hides
  · intro other hother
    rw [hdryTable]
    exact h.dryRows other (List.mem_cons_of_mem _ hother)
  · intro other hother
    have hrow := h.realRows other (List.mem_cons_of_mem _ hother)
    rcases htable with heq | heq
    · rwa [heq]
    · rw [heq, ArtifactTable.load_delete, if_neg]
      · exact hrow
      · intro hid
        exact hdistinct.1 (hid ▸ List.mem_map_of_mem hother)

theorem plannedFiles_eq {j : Judgement}
    (hids : r.report.deletedArtifactIds.length = d.report.deletedArtifactIds.length) :
    j.plannedFiles (policy.withDryRun false) r artifact =
      j.plannedFiles (policy.withDryRun true) d artifact := by
  unfold Judgement.plannedFiles CleanupState.budgetSpent
  rw [hids]
  rfl

theorem idsLength_eq {j : Judgement}
    (hids : r.report.deletedArtifactIds.length = d.report.deletedArtifactIds.length)
    (hd : StepCounts (policy.withDryRun true) d artifact j d')
    (hr : StepCounts (policy.withDryRun false) r artifact j r') :
    r'.report.deletedArtifactIds.length = d'.report.deletedArtifactIds.length := by
  rw [hd.ids, hr.ids, List.length_append, List.length_append, hids]
  unfold CleanupState.budgetSpent
  rw [hids]
  rfl

/-- A difference of the counts is never made up for. -/
theorem Apart.step {jd jr : Judgement} (hjudged : jr = jd ∨ JudgedApart policy jd jr)
    (hd : StepCounts (policy.withDryRun true) d artifact jd d')
    (hr : StepCounts (policy.withDryRun false) r artifact jr r') (h : Apart policy d r) :
    Apart policy d' r' := by
  have hdm := hd.missing
  have hda := hd.aged
  have hrm := hr.missing
  have hra := hr.aged
  cases h with
  | missing hprune h =>
      refine .missing hprune ?_
      rcases hjudged with rfl | ⟨-, hlt⟩ | ⟨hkeep, -⟩
      · omega
      · omega
      · rw [hkeep] at hprune
        cases hprune
  | aged hprune h =>
      refine .aged hprune ?_
      rcases hjudged with rfl | ⟨hpruned, -⟩ | ⟨-, hlt⟩
      · omega
      · rw [hpruned] at hprune
        cases hprune
      · omega
  | files hmissing haged hids h =>
      rcases hjudged with rfl | ⟨hprune, hlt⟩ | ⟨hprune, hlt⟩
      · have hle := hr.filesLe
        have heq := hd.filesDry rfl
        rw [plannedFiles_eq (j := jr) hids] at hle
        exact .files (by omega) (by omega) (idsLength_eq hids hd hr) (by omega)
      · exact .missing hprune (by omega)
      · exact .aged hprune (by omega)

/-- What both runs do with their next record. -/
structure BothStep (policy : ArtifactCleanupPolicy) (now : Int) (files : LocalFiles)
    (artifact : ArtifactRecord) (rest : List ArtifactRecord) (d r d' r' : CleanupState) :
    Prop where
  dryLoop : cleanupLoop (policy.withDryRun true) now (artifact :: rest) d =
    cleanupLoop (policy.withDryRun true) now rest d'
  realLoop : cleanupLoop (policy.withDryRun false) now (artifact :: rest) r =
    cleanupLoop (policy.withDryRun false) now rest r'
  dry : Cleaned (policy.withDryRun true) d artifact
    (judgeArtifact policy now artifact (artifact.missingLocalFile files)) d'
  real : Cleaned (policy.withDryRun false) r artifact
    (judgeArtifact policy now artifact (artifact.missingLocalFile r.files)) r'
  judged : judgeArtifact policy now artifact (artifact.missingLocalFile r.files) =
      judgeArtifact policy now artifact (artifact.missingLocalFile files) ∨
    JudgedApart policy (judgeArtifact policy now artifact (artifact.missingLocalFile files))
      (judgeArtifact policy now artifact (artifact.missingLocalFile r.files))
  next : BothAt files rest d' r'

theorem judgeArtifact_true_ne_noDuration :
    judgeArtifact policy now artifact true ≠ .noDuration := by
  unfold judgeArtifact
  split
  · simp
  · split
    · simp
    · split
      · simp
      · split
        · simp
        · simp

theorem cleanupLoop_step {s s' : CleanupState}
    (h : cleanupStep policy now s artifact = some s') :
    cleanupLoop policy now (artifact :: rest) s = cleanupLoop policy now rest s' := by
  rw [cleanupLoop, h]

theorem BothAt.steps (h : BothAt files (artifact :: rest) d r)
    (hfinished : (cleanupLoop (policy.withDryRun true) now (artifact :: rest) d).2 = true) :
    ∃ d' r', BothStep policy now files artifact rest d r d' r' := by
  cases hdry : cleanupStep (policy.withDryRun true) now d artifact with
  | none =>
      rw [cleanupLoop, hdry] at hfinished
      cases hfinished
  | some d' =>
      have hd := cleanupStep_cleaned hdry
      have hsome := cleanupStep_isSome_iff.mp (Option.isSome_iff_exists.mpr ⟨d', hdry⟩)
      rw [h.dryFiles] at hd hsome
      have hduration : judgeArtifact (policy.withDryRun false) now artifact
          (artifact.missingLocalFile r.files) ≠ .noDuration := by
        cases hmissing : artifact.missingLocalFile r.files with
        | true => exact judgeArtifact_true_ne_noDuration
        | false =>
            cases hinitial : artifact.missingLocalFile files with
            | true =>
                rw [h.missing hinitial] at hmissing
                cases hmissing
            | false =>
                rw [hinitial] at hsome
                exact hsome
      obtain ⟨r', hreal⟩ := Option.isSome_iff_exists.mp (cleanupStep_isSome_iff.mpr hduration)
      have hr := cleanupStep_cleaned hreal
      exact ⟨d', r', cleanupLoop_step hdry, cleanupLoop_step hreal, hd, hr, h.judged hsome,
        h.step hd hr⟩

theorem Apart.loop (hboth : BothAt files rest d r) (h : Apart policy d r)
    (hfinished : (cleanupLoop (policy.withDryRun true) now rest d).2 = true) :
    ¬SameReport (cleanupLoop (policy.withDryRun true) now rest d).1
      (cleanupLoop (policy.withDryRun false) now rest r).1 := by
  induction rest generalizing d r with
  | nil => exact h.not_sameReport
  | cons artifact rest ih =>
      obtain ⟨d', r', hstep⟩ := hboth.steps hfinished
      rw [hstep.dryLoop] at hfinished ⊢
      rw [hstep.realLoop]
      have hd := hstep.dry.counts (hboth.dryRows artifact List.mem_cons_self)
      have hr := hstep.real.counts (hboth.realRows artifact List.mem_cons_self)
      exact ih hstep.next (h.step hstep.judged hd hr) hfinished

theorem BothAt.finishes (hboth : BothAt files rest d r)
    (hfinished : (cleanupLoop (policy.withDryRun true) now rest d).2 = true) :
    (cleanupLoop (policy.withDryRun false) now rest r).2 = true := by
  induction rest generalizing d r with
  | nil => rfl
  | cons artifact rest ih =>
      obtain ⟨d', r', hstep⟩ := hboth.steps hfinished
      rw [hstep.dryLoop] at hfinished
      rw [hstep.realLoop]
      exact ih hstep.next hfinished

/-! ## Runs that report the same so far -/

/-- The dry run deletes the record, and with it the file at a path if there is one. -/
def deletesNow (policy : ArtifactCleanupPolicy) (d : CleanupState) (j : Judgement) : Bool :=
  j.isMatched && !d.budgetSpent policy

/-- The real run has done with the record what the dry run reports. -/
structure StepsAlike (policy : ArtifactCleanupPolicy) (artifact : ArtifactRecord)
    (j : Judgement) (d r d' r' : CleanupState) : Prop where
  report : SameReport d' r'
  files : r'.files = if deletesNow policy d j then
    (filePath policy artifact).elim r.files r.files.without else r.files
  removed : deletesNow policy d j = true → ∀ path, filePath policy artifact = some path →
    r.files.CanRemove path

theorem SameReport.planFile {policy policy' : ArtifactCleanupPolicy} {s t : CleanupState}
    (hpolicy : policy'.deleteLocalFiles = policy.deleteLocalFiles) (h : SameReport s t) :
    SameReport (s.planFile policy artifact) (t.planFile policy' artifact) := by
  unfold SameReport at h ⊢
  unfold CleanupState.planFile CleanupState.skipExternal CleanupState.addDeletedFile
  rw [hpolicy]
  split
  · split
    · rw [h]
    · split
      · rw [h]
      · rw [h]
  · rw [h]

theorem SameReport.addDeleted {s t : CleanupState} (h : SameReport s t) :
    SameReport (s.addDeleted artifact) (t.addDeleted artifact) := by
  unfold SameReport CleanupState.addDeleted at *
  rw [h]

theorem SameReport.step {j : Judgement} (hsame : SameReport d r)
    (hd : Cleaned (policy.withDryRun true) d artifact j d')
    (hr : Cleaned (policy.withDryRun false) r artifact j r')
    (hdryRow : (d.table.load artifact.artifactId).isSome)
    (hrow : (r.table.load artifact.artifactId).isSome) :
    StepsAlike policy artifact j d r d' r' ∨
      Apart policy d' r' ∧ deletesNow policy d j = true ∧
        ∃ path, filePath policy artifact = some path ∧ ¬r.files.CanRemove path := by
  have hbudget : r.budgetSpent (policy.withDryRun false) =
      d.budgetSpent (policy.withDryRun true) := by
    unfold CleanupState.budgetSpent
    rw [hsame]
    rfl
  have hdCounts := hd.counts hdryRow
  have hrCounts := hr.counts hrow
  cases hd with
  | kept =>
      cases hr
      refine .inl ⟨?_, rfl, fun h => by cases h⟩
      unfold SameReport CleanupState.keep
      rw [hsame]
  | keptDurable =>
      cases hr
      refine .inl ⟨?_, rfl, fun h => by cases h⟩
      unfold SameReport CleanupState.keep
      rw [hsame]
  | @overBudget orphan missing hspent =>
      cases hr with
      | overBudget =>
          have hkept : deletesNow policy d (.matched orphan missing) = false := by
            change (_ && !d.budgetSpent (policy.withDryRun true)) = false
            rw [hspent, Bool.not_true, Bool.and_false]
          refine .inl ⟨?_, by rw [hkept]; rfl, fun h => ?_⟩
          · unfold SameReport CleanupState.keep CleanupState.countMatch
            rw [hsame]
          · rw [hkept] at h
            cases h
      | planned hfree => rw [hbudget, hspent] at hfree; cases hfree
      | deleted hfree => rw [hbudget, hspent] at hfree; cases hfree
  | deleted _ hreal => cases hreal
  | @planned orphan missing hfree hdry =>
      have hdeletes : deletesNow policy d (.matched orphan missing) = true := by
        change (_ && !d.budgetSpent (policy.withDryRun true)) = true
        rw [hfree]
        rfl
      have hcounted : SameReport (d.countMatch orphan missing) (r.countMatch orphan missing) := by
        unfold SameReport CleanupState.countMatch
        rw [hsame]
      cases hr with
      | overBudget hspent => rw [hbudget, hfree] at hspent; cases hspent
      | planned _ hreal => cases hreal
      | deleted =>
          rcases (r.countMatch orphan missing).deleteRecord_cases (policy.withDryRun false)
            artifact with ⟨-, hnone⟩ | ⟨heq, -⟩
          · change r.table.load artifact.artifactId = none at hnone
            rw [hnone] at hrow
            cases hrow
          · rw [heq] at hrCounts ⊢
            rcases CleanupState.dropFile_cases (policy.withDryRun false)
              ⟨((r.countMatch orphan missing).table.delete artifact.artifactId).2,
                (r.countMatch orphan missing).files, (r.countMatch orphan missing).report⟩
              artifact with
              ⟨hdrop, hcan⟩ | ⟨hdrop, path, hpath, hcannot⟩
            · rw [hdrop]
              refine .inl ⟨?_, ?_, fun _ => hcan⟩
              · have hplanned : SameReport ((d.countMatch orphan missing).planFile
                    (policy.withDryRun true) artifact) (CleanupState.planFile
                    (policy.withDryRun false) ⟨((r.countMatch orphan missing).table.delete
                    artifact.artifactId).2, (r.countMatch orphan missing).files,
                    (r.countMatch orphan missing).report⟩ artifact) :=
                  SameReport.planFile rfl hcounted
                exact hplanned.addDeleted
              · rw [hdeletes]
                rfl
            · change filePath policy artifact = some path at hpath
              refine .inr ⟨?_, hdeletes, path, hpath, hcannot⟩
              have hids : r.report.deletedArtifactIds.length =
                  d.report.deletedArtifactIds.length := by rw [hsame]
              have hmissing : r.report.missingLocalFileMatched =
                  d.report.missingLocalFileMatched := by rw [hsame]
              have haged : r.report.matched + r.report.skippedDurableWithoutPolicy =
                  d.report.matched + d.report.skippedDurableWithoutPolicy := by rw [hsame]
              have hfiles : r.report.deletedLocalFiles = d.report.deletedLocalFiles := by
                rw [hsame]
              have hone : (Judgement.matched orphan missing).plannedFiles
                  (policy.withDryRun true) d artifact = 1 := by
                change (deletesNow policy d _ && (filePath policy artifact).isSome).toNat = 1
                rw [hdeletes, hpath]
                rfl
              refine .files ?_ ?_ (idsLength_eq hids hdCounts hrCounts) ?_
              · rw [hdCounts.missing, hrCounts.missing, hmissing]
              · rw [hdCounts.aged, hrCounts.aged, haged]
              · rw [hdCounts.filesDry rfl, hone, hdrop]
                change r.report.deletedLocalFiles < _
                omega

/-- A record that the real run judges in another way than the dry run sets the reports apart. -/
theorem BothAt.apart_of_judged (hboth : BothAt files rest d r)
    (hsame : SameReport d r ∨ Apart policy d r)
    (hfinished : (cleanupLoop (policy.withDryRun true) now rest d).2 = true)
    (hdiffers : ∃ later ∈ rest,
      judgeArtifact policy now later (later.missingLocalFile r.files) ≠
        judgeArtifact policy now later (later.missingLocalFile files)) :
    ¬SameReport (cleanupLoop (policy.withDryRun true) now rest d).1
      (cleanupLoop (policy.withDryRun false) now rest r).1 := by
  induction rest generalizing d r with
  | nil =>
      obtain ⟨later, hlater, -⟩ := hdiffers
      cases hlater
  | cons artifact rest ih =>
      rcases hsame with hsame | hapart
      · obtain ⟨d', r', hstep⟩ := hboth.steps hfinished
        have hd := hstep.dry.counts (hboth.dryRows artifact List.mem_cons_self)
        have hr := hstep.real.counts (hboth.realRows artifact List.mem_cons_self)
        rw [hstep.dryLoop] at hfinished ⊢
        rw [hstep.realLoop]
        rcases hstep.judged with heq | hjudged
        · have hreal := hstep.real
          rw [heq] at hreal
          have hnext := hsame.step hstep.dry hreal (hboth.dryRows artifact List.mem_cons_self)
            (hboth.realRows artifact List.mem_cons_self)
          refine ih hstep.next ?_ hfinished ?_
          · rcases hnext with halike | ⟨hapart, -⟩
            · exact .inl halike.report
            · exact .inr hapart
          · obtain ⟨later, hlater, hne⟩ := hdiffers
            rcases List.mem_cons.mp hlater with rfl | hlater
            · exact absurd heq hne
            · refine ⟨later, hlater, ?_⟩
              have hgone : later.missingLocalFile r.files = true := by
                by_contra hpresent
                rw [Bool.not_eq_true] at hpresent
                cases hinitial : later.missingLocalFile files with
                | true =>
                    rw [hboth.missing hinitial] at hpresent
                    cases hpresent
                | false =>
                    rw [hpresent, hinitial] at hne
                    exact hne rfl
              have hstill : later.missingLocalFile r'.files = true := by
                obtain ⟨path, hpath, habsent⟩ := missingLocalFile_iff.mp hgone
                refine missingLocalFile_iff.mpr ⟨path, hpath, ?_⟩
                rcases hstep.real.moves.2.1 with hfiles | ⟨gone, hfiles⟩
                · rw [hfiles]
                  exact habsent
                · rw [hfiles]
                  change (r.files.isPresent path && _) = false
                  rw [habsent, Bool.false_and]
              rwa [hstill, ← hgone]
        · refine Apart.loop hstep.next ?_ hfinished
          have hdm := hd.missing
          have hda := hd.aged
          have hrm := hr.missing
          have hra := hr.aged
          have hmissing : r.report.missingLocalFileMatched =
              d.report.missingLocalFileMatched := by rw [hsame]
          have haged : r.report.matched + r.report.skippedDurableWithoutPolicy =
              d.report.matched + d.report.skippedDurableWithoutPolicy := by rw [hsame]
          rcases hjudged with ⟨hprune, hlt⟩ | ⟨hprune, hlt⟩
          · exact .missing hprune (by omega)
          · exact .aged hprune (by omega)
      · exact hapart.loop hboth hfinished

/-! ## When the reports are the same -/

/-- The policy matches the record, and the records before it leave room for its deletion. -/
def Selected (policy : ArtifactCleanupPolicy) (now : Int) (files : LocalFiles)
    (before : List ArtifactRecord) (artifact : ArtifactRecord) : Prop :=
  (judgeArtifact policy now artifact (artifact.missingLocalFile files)).isMatched = true ∧
    ∀ limit, policy.maxDelete = some limit →
      before.countP (fun earlier =>
        (judgeArtifact policy now earlier (earlier.missingLocalFile files)).isMatched) < limit

/-- The record is judged alike with and without the file at the path. -/
def Unaffected (policy : ArtifactCleanupPolicy) (now : Int) (files : LocalFiles)
    (path : String) (later : ArtifactRecord) : Prop :=
  ∀ other, later.localFilePath = some other → files.isPresent other = true →
    files.hides path other = true →
      judgeArtifact policy now later true = judgeArtifact policy now later false

/-- Each file that is to be deleted can be, and no later record needs it. -/
def DeletesSafely (policy : ArtifactCleanupPolicy) (now : Int) (files : LocalFiles)
    (done rest : List ArtifactRecord) : Prop :=
  ∀ before artifact after, rest = before ++ artifact :: after →
    Selected policy now files (done ++ before) artifact →
      ∀ path, filePath policy artifact = some path →
        files.CanRemove path ∧ ∀ later ∈ after, Unaffected policy now files path later

variable {done : List ArtifactRecord}

theorem deletesSafely_cons :
    DeletesSafely policy now files done (artifact :: rest) ↔
      (Selected policy now files done artifact →
        ∀ path, filePath policy artifact = some path →
          files.CanRemove path ∧ ∀ later ∈ rest, Unaffected policy now files path later) ∧
      DeletesSafely policy now files (done ++ [artifact]) rest := by
  constructor
  · intro h
    refine ⟨fun hselected => h [] artifact rest rfl (by rwa [List.append_nil]), ?_⟩
    rintro before other after rfl hselected
    rw [List.append_assoc] at hselected
    exact h (artifact :: before) other after rfl hselected
  · rintro ⟨hfirst, hrest⟩ before other after heq hselected
    cases before with
    | nil =>
        obtain ⟨rfl, rfl⟩ := List.cons.inj heq
        rw [List.append_nil] at hselected
        exact hfirst hselected
    | cons head before =>
        obtain ⟨rfl, rfl⟩ := List.cons.inj heq
        refine hrest before other after rfl ?_
        rwa [List.append_assoc]

theorem missingCount_of_matched {missing : Bool}
    (h : (judgeArtifact policy now artifact missing).isMatched = true) :
    (judgeArtifact policy now artifact missing).missingCount = missing.toNat := by
  unfold judgeArtifact at h ⊢
  split at h
  · cases h
  · split at h
    · cases h
    · split at h
      · cases h
      · split at h
        · cases h
        · rename_i hscope hkind horphan hprune
          rw [if_neg hscope, if_neg hkind, if_neg horphan, if_neg hprune]
          cases missing with
          | true => rfl
          | false => exact (judgeAge_counts policy now artifact).1

/-- A matched record that both runs judge alike has its file in both or in neither. -/
theorem missing_eq_of_judged {missing missing' : Bool}
    (hmatched : (judgeArtifact policy now artifact missing').isMatched = true)
    (h : judgeArtifact policy now artifact missing = judgeArtifact policy now artifact missing') :
    missing = missing' := by
  have hcount := missingCount_of_matched hmatched
  have hcount' := missingCount_of_matched (h ▸ hmatched)
  rw [h, hcount] at hcount'
  cases missing <;> cases missing' <;> first | rfl | cases hcount'

def deletions (policy : ArtifactCleanupPolicy) (matched : Nat) : Nat :=
  policy.maxDelete.elim matched (min matched)

theorem deletesNow_iff
    (hcount : d.report.deletedArtifactIds.length = deletions policy (done.countP fun earlier =>
      (judgeArtifact policy now earlier (earlier.missingLocalFile files)).isMatched)) :
    deletesNow policy d (judgeArtifact policy now artifact (artifact.missingLocalFile files)) =
      true ↔ Selected policy now files done artifact := by
  unfold deletesNow CleanupState.budgetSpent Selected
  rw [Bool.and_eq_true, hcount]
  refine and_congr_right fun _ => ?_
  unfold deletions
  cases policy.maxDelete with
  | none => simp
  | some limit => simp

theorem deletions_concat
    (hcount : d.report.deletedArtifactIds.length = deletions policy (done.countP fun earlier =>
      (judgeArtifact policy now earlier (earlier.missingLocalFile files)).isMatched))
    (hd : StepCounts (policy.withDryRun true) d artifact
      (judgeArtifact policy now artifact (artifact.missingLocalFile files)) d') :
    d'.report.deletedArtifactIds.length = deletions policy ((done ++ [artifact]).countP
      fun earlier =>
        (judgeArtifact policy now earlier (earlier.missingLocalFile files)).isMatched) := by
  rw [hd.ids, List.length_append, List.countP_append, List.countP_singleton]
  unfold CleanupState.budgetSpent
  rw [hcount]
  unfold deletions ArtifactCleanupPolicy.withDryRun
  cases (judgeArtifact policy now artifact (artifact.missingLocalFile files)).isMatched with
  | false => rfl
  | true =>
      cases policy.maxDelete with
      | none => rfl
      | some limit =>
          simp only [Option.elim_some, Option.any_some, Bool.true_and, if_true]
          by_cases hlimit : limit ≤ min (done.countP fun earlier =>
              (judgeArtifact policy now earlier (earlier.missingLocalFile files)).isMatched) limit
          · simp only [hlimit, decide_true, Bool.not_true, Bool.false_eq_true, if_false,
              List.length_nil]
            omega
          · simp only [hlimit, decide_false, Bool.not_false, if_true, List.length_singleton]
            omega

/-- The records left are judged as before exactly when none needs the file that is removed. -/
theorem judged_without_iff (path : String) (hhides : r.files.hides = files.hides)
    (hjudged : ∀ later ∈ rest,
      judgeArtifact policy now later (later.missingLocalFile r.files) =
        judgeArtifact policy now later (later.missingLocalFile files)) :
    (∀ later ∈ rest,
      judgeArtifact policy now later (later.missingLocalFile (r.files.without path)) =
        judgeArtifact policy now later (later.missingLocalFile files)) ↔
      ∀ later ∈ rest, Unaffected policy now files path later := by
  have hidden : ∀ {later : ArtifactRecord} {other : String}, later.localFilePath = some other →
      later.missingLocalFile (r.files.without path) =
        (!(r.files.isPresent other && !files.hides path other)) := by
    intro later other hother
    unfold ArtifactRecord.missingLocalFile LocalFiles.without
    rw [hother, Option.any_some, ← hhides]
  refine forall₂_congr fun later hlater => ⟨fun h other hother hpresent hhides => ?_, fun h => ?_⟩
  · have hinitial : later.missingLocalFile files = false := by
      unfold ArtifactRecord.missingLocalFile
      rw [hother, Option.any_some, hpresent, Bool.not_true]
    rwa [hidden hother, hhides, hinitial, Bool.not_true, Bool.and_false] at h
  · cases hother : later.localFilePath with
    | none =>
        unfold ArtifactRecord.missingLocalFile
        rw [hother]
        rfl
    | some other =>
        have hlaterJudged := hjudged later hlater
        have hnow : later.missingLocalFile r.files = !r.files.isPresent other := by
          unfold ArtifactRecord.missingLocalFile
          rw [hother, Option.any_some]
        have hinitial : later.missingLocalFile files = !files.isPresent other := by
          unfold ArtifactRecord.missingLocalFile
          rw [hother, Option.any_some]
        rw [hidden hother]
        cases hother' : files.hides path other with
        | false => rwa [Bool.not_false, Bool.and_true, ← hnow]
        | true =>
            rw [Bool.not_true, Bool.and_false, Bool.not_false]
            cases hpresent : files.isPresent other with
            | true =>
                rw [hinitial, hpresent]
                exact h other hother hpresent hother'
            | false => rw [hinitial, hpresent, Bool.not_false]

theorem filePath_eq_some {path : String} (h : filePath policy artifact = some path) :
    artifact.localFilePath = some path := by
  unfold filePath at h
  split at h
  · exact h
  · cases h

theorem BothAt.canRemove_iff {path : String} (hboth : BothAt files rest d r)
    (hmatched : (judgeArtifact policy now artifact
      (artifact.missingLocalFile files)).isMatched = true)
    (hjudged : judgeArtifact policy now artifact (artifact.missingLocalFile r.files) =
      judgeArtifact policy now artifact (artifact.missingLocalFile files))
    (hpath : filePath policy artifact = some path) :
    r.files.CanRemove path ↔ files.CanRemove path := by
  have hmissing := missing_eq_of_judged hmatched hjudged
  unfold ArtifactRecord.missingLocalFile at hmissing
  rw [filePath_eq_some hpath, Option.any_some, Option.any_some, Bool.not_inj_iff] at hmissing
  unfold LocalFiles.CanRemove
  rw [hmissing, hboth.removable]

/-- What the runs report of the records left is the same exactly when those can be deleted
safely. -/
theorem BothAt.sameReport_iff (hboth : BothAt files rest d r) (hsame : SameReport d r)
    (hcount : d.report.deletedArtifactIds.length = deletions policy (done.countP fun earlier =>
      (judgeArtifact policy now earlier (earlier.missingLocalFile files)).isMatched))
    (hjudged : ∀ later ∈ rest,
      judgeArtifact policy now later (later.missingLocalFile r.files) =
        judgeArtifact policy now later (later.missingLocalFile files))
    (hfinished : (cleanupLoop (policy.withDryRun true) now rest d).2 = true) :
    SameReport (cleanupLoop (policy.withDryRun true) now rest d).1
        (cleanupLoop (policy.withDryRun false) now rest r).1 ↔
      DeletesSafely policy now files done rest := by
  induction rest generalizing done d r with
  | nil => exact ⟨fun _ before artifact after heq => by simp at heq, fun _ => hsame⟩
  | cons artifact rest ih =>
      obtain ⟨d', r', hstep⟩ := hboth.steps hfinished
      have hrow := hboth.dryRows artifact List.mem_cons_self
      have hrow' := hboth.realRows artifact List.mem_cons_self
      have hd := hstep.dry.counts hrow
      have heq := hjudged artifact List.mem_cons_self
      have hreal := hstep.real
      rw [heq] at hreal
      rw [hstep.dryLoop] at hfinished ⊢
      rw [hstep.realLoop, deletesSafely_cons, ← deletesNow_iff hcount]
      have hrest : ∀ later ∈ rest,
          judgeArtifact policy now later (later.missingLocalFile r.files) =
            judgeArtifact policy now later (later.missingLocalFile files) :=
        fun later hlater => hjudged later (List.mem_cons_of_mem _ hlater)
      have hcount' := deletions_concat hcount hd
      rcases hsame.step hstep.dry hreal hrow hrow' with
        halike | ⟨hapart, hdeletes, path, hpath, hcannot⟩
      · -- the files are as they were
        have unmoved : r'.files = r.files →
            (deletesNow policy d (judgeArtifact policy now artifact
              (artifact.missingLocalFile files)) = true → filePath policy artifact = none) →
            (SameReport (cleanupLoop (policy.withDryRun true) now rest d').1
              (cleanupLoop (policy.withDryRun false) now rest r').1 ↔
              (deletesNow policy d (judgeArtifact policy now artifact
                (artifact.missingLocalFile files)) = true →
                ∀ path, filePath policy artifact = some path → files.CanRemove path ∧
                  ∀ later ∈ rest, Unaffected policy now files path later) ∧
                DeletesSafely policy now files (done ++ [artifact]) rest) := by
          intro hfiles hnone
          rw [ih hstep.next halike.report hcount' (by rwa [hfiles]) hfinished]
          refine (and_iff_right fun hdeletes path hpath => ?_).symm
          rw [hnone hdeletes] at hpath
          cases hpath
        by_cases hdeletes : deletesNow policy d (judgeArtifact policy now artifact
            (artifact.missingLocalFile files)) = true
        · have hfiles := halike.files
          rw [if_pos hdeletes] at hfiles
          cases hpath : filePath policy artifact with
          | none =>
              rw [hpath] at hfiles unmoved
              exact unmoved hfiles fun _ => rfl
          | some path =>
              rw [hpath] at hfiles
              have hwithout := judged_without_iff path hboth.hides hrest
              have hmatched := (Bool.and_eq_true_iff.mp hdeletes).1
              have hcan := (hboth.canRemove_iff hmatched heq hpath).mp
                (halike.removed hdeletes path hpath)
              by_cases hunaffected : ∀ later ∈ rest, Unaffected policy now files path later
              · rw [ih hstep.next halike.report hcount' (by
                  rw [hfiles]
                  exact hwithout.mpr hunaffected) hfinished]
                refine (and_iff_right fun _ other hother => ?_).symm
                cases hother
                exact ⟨hcan, hunaffected⟩
              · refine iff_of_false (hstep.next.apart_of_judged (.inl halike.report) hfinished ?_)
                  fun ⟨hfirst, _⟩ => hunaffected (hfirst hdeletes path rfl).2
                rw [← hwithout] at hunaffected
                push Not at hunaffected
                rw [hfiles]
                exact hunaffected
        · have hfiles := halike.files
          rw [if_neg hdeletes] at hfiles
          exact unmoved hfiles fun h => absurd h hdeletes
      · refine iff_of_false (hapart.loop hstep.next hfinished) fun ⟨hfirst, _⟩ => hcannot ?_
        have hmatched := (Bool.and_eq_true_iff.mp hdeletes).1
        exact (hboth.canRemove_iff hmatched heq hpath).mpr (hfirst hdeletes path hpath).1

theorem cleanupLoop_dryRun_finishes_iff {s : CleanupState} :
    (cleanupLoop (policy.withDryRun true) now rest s).2 = true ↔
      ∀ artifact ∈ rest,
        judgeArtifact policy now artifact (artifact.missingLocalFile s.files) ≠ .noDuration := by
  induction rest generalizing s with
  | nil => exact iff_of_true rfl (by simp)
  | cons artifact rest ih =>
      have hsome : (cleanupStep (policy.withDryRun true) now s artifact).isSome ↔
          judgeArtifact policy now artifact (artifact.missingLocalFile s.files) ≠ .noDuration :=
        cleanupStep_isSome_iff
      rw [List.forall_mem_cons]
      cases hstep : cleanupStep (policy.withDryRun true) now s artifact with
      | none =>
          rw [cleanupLoop, hstep]
          rw [hstep] at hsome
          exact iff_of_false (by simp) fun h => absurd (hsome.mpr h.1) (by simp)
      | some s' =>
          rw [cleanupLoop_step hstep, ih, ((cleanupStep_cleaned hstep).moves.2.2 rfl).2]
          rw [hstep] at hsome
          exact (and_iff_right (hsome.mp rfl)).symm

end

/-! ## The report of a cleanup -/

/-- What is promised of the cleanup of a table. -/
structure CleanupContract (policy : ArtifactCleanupPolicy) (now : Int) (table : ArtifactTable)
    (files : LocalFiles) : Prop where
  counted : ∀ report, (cleanup policy now table files).report = some report →
    report.scanned = report.deleted + report.kept
  bounded : ∀ report, (cleanup policy now table files).report = some report →
    ∀ limit, policy.maxDelete = some limit → report.deleted ≤ limit
  spared : ∀ id artifact, table.load id = some artifact → ¬PassesFilters policy artifact →
    (cleanup policy now table files).table.load id = some artifact
  sameReport : ∀ report,
    (cleanup (policy.withDryRun true) now table files).report = some report →
      (cleanup (policy.withDryRun false) now table files).report =
        some { report with dryRun := false }

section

variable (policy : ArtifactCleanupPolicy) (now : Int) (table : ArtifactTable) (files : LocalFiles)

def cleanupStart : CleanupState :=
  ⟨table, files, { dryRun := policy.dryRun, scanned := table.list.length }⟩

theorem cleanup_invariant :
    ∃ gone, CleanupInvariant policy table files table.list.length gone
        (cleanupLoop policy now table.list (cleanupStart policy table files)).1 ∧
      ((cleanupLoop policy now table.list (cleanupStart policy table files)).2 = true →
        gone = table.list.length) := by
  have hstart : CleanupInvariant policy table files table.list.length 0
      (cleanupStart policy table files) :=
    ⟨rfl, rfl, rfl, fun _ _ => Nat.zero_le _, fun _ _ h _ => h, fun _ => ⟨rfl, rfl⟩⟩
  obtain ⟨gone, hgone, hall⟩ := @CleanupInvariant.loop policy now table files _ _ _ table.list
    hstart fun artifact hartifact => ArtifactTable.mem_list.mp hartifact
  exact ⟨gone, hgone, fun hfinished => (hall hfinished).trans (Nat.zero_add _)⟩

theorem report_eq_some_iff {report : ArtifactCleanupReport} :
    (cleanup policy now table files).report = some report ↔
      (cleanupLoop policy now table.list (cleanupStart policy table files)).2 = true ∧
        (cleanupLoop policy now table.list (cleanupStart policy table files)).1.finish =
          report := by
  change (if (cleanupLoop policy now table.list (cleanupStart policy table files)).2 = true
    then some (cleanupLoop policy now table.list (cleanupStart policy table files)).1.finish
    else none) = _ ↔ _
  split
  · rename_i hfinished
    rw [Option.some.injEq, and_iff_right hfinished]
  · rename_i hpanics
    exact iff_of_false (by simp) fun h => hpanics h.1

theorem bothAt_start :
    BothAt files table.list (cleanupStart (policy.withDryRun true) table files)
      (cleanupStart (policy.withDryRun false) table files) where
  dryFiles := rfl
  present _ h := h
  removable := rfl
  hides := rfl
  dryRows artifact h := by
    change (table.load artifact.artifactId).isSome = true
    rw [ArtifactTable.mem_list.mp h, Option.isSome_some]
  realRows artifact h := by
    change (table.load artifact.artifactId).isSome = true
    rw [ArtifactTable.mem_list.mp h, Option.isSome_some]
  distinct := table.nodup_list

theorem sameReport_finish_iff {d r : CleanupState} (hd : d.report.deleted = 0)
    (hr : r.report.deleted = 0) :
    r.finish = { d.finish with dryRun := false } ↔ SameReport d r := by
  have hdry : d.report = { d.finish with deleted := 0 } := by
    rw [← hd]
    rfl
  have hreal : r.report = { r.finish with deleted := 0 } := by
    rw [← hr]
    rfl
  constructor
  · intro h
    unfold SameReport
    rw [hreal, hdry, h]
  · intro h
    unfold CleanupState.finish
    rw [h]

/-- The dry run reports what the real run would exactly when the records can be deleted
safely. -/
theorem sameReport_iff {report : ArtifactCleanupReport}
    (h : (cleanup (policy.withDryRun true) now table files).report = some report) :
    (cleanup (policy.withDryRun false) now table files).report =
        some { report with dryRun := false } ↔
      DeletesSafely policy now files [] table.list := by
  obtain ⟨hfinished, rfl⟩ := (report_eq_some_iff _ _ _ _).mp h
  have hboth := bothAt_start policy table files
  rw [report_eq_some_iff, and_iff_right (hboth.finishes hfinished), sameReport_finish_iff]
  · refine hboth.sameReport_iff rfl ?_ (fun _ _ => rfl) hfinished
    change 0 = policy.maxDelete.elim 0 (min 0)
    cases policy.maxDelete with
    | none => rfl
    | some limit => exact (Nat.zero_min limit).symm
  · obtain ⟨_, hinv, -⟩ := cleanup_invariant (policy.withDryRun true) now table files
    exact hinv.unfinished
  · obtain ⟨_, hinv, -⟩ := cleanup_invariant (policy.withDryRun false) now table files
    exact hinv.unfinished

/-- A cleanup keeps its contract exactly if no record comes to an age that is no duration, so
that its dry run panics, or each file that is to be deleted can be and no later record needs it. -/
theorem cleanup_contract_iff :
    CleanupContract policy now table files ↔
      (∃ artifact ∈ table.list,
        judgeArtifact policy now artifact (artifact.missingLocalFile files) = .noDuration) ∨
      DeletesSafely policy now files [] table.list := by
  obtain ⟨gone, hinv, hall⟩ := cleanup_invariant policy now table files
  have hpanics : (∃ artifact ∈ table.list,
      judgeArtifact policy now artifact (artifact.missingLocalFile files) = .noDuration) ↔
      (cleanup (policy.withDryRun true) now table files).report = none := by
    have hfinishes : (cleanupLoop (policy.withDryRun true) now table.list
        (cleanupStart (policy.withDryRun true) table files)).2 = true ↔ _ :=
      cleanupLoop_dryRun_finishes_iff
    rw [Option.eq_none_iff_forall_ne_some]
    constructor
    · rintro ⟨artifact, hartifact, hnone⟩ report hreport
      exact hfinishes.mp ((report_eq_some_iff _ _ _ _).mp hreport).1 artifact hartifact hnone
    · intro h
      by_contra hall
      push Not at hall
      exact h _ ((report_eq_some_iff _ _ _ _).mpr ⟨hfinishes.mpr hall, rfl⟩)
  constructor
  · intro h
    cases hreport : (cleanup (policy.withDryRun true) now table files).report with
    | none => exact .inl (hpanics.mpr hreport)
    | some report =>
        exact .inr ((sameReport_iff policy now table files hreport).mp
          (h.sameReport report hreport))
  · intro h
    refine ⟨fun report hreport => ?_, fun report hreport limit hlimit => ?_, hinv.spared,
      fun report hreport => ?_⟩
    · obtain ⟨hfinished, rfl⟩ := (report_eq_some_iff _ _ _ _).mp hreport
      exact hinv.scanned.trans ((hall hfinished).symm.trans hinv.counted.symm)
    · obtain ⟨-, rfl⟩ := (report_eq_some_iff _ _ _ _).mp hreport
      exact hinv.bounded limit hlimit
    · rcases h with hpanic | hsafe
      · rw [hpanics.mp hpanic] at hreport
        cases hreport
      · exact (sameReport_iff policy now table files hreport).mpr hsafe

end

/-- Two old records of one file: the dry run reports two deletions, the real run one. -/
theorem cleanup_sharedFile :
    let policy : ArtifactCleanupPolicy :=
      { deleteLocalFiles := true, ephemeralMaxAgeHours := some 1 }
    let table := (ArtifactTable.empty.save { artifactId := "a", uri := "/draft.md" }).save
      { artifactId := "b", uri := "/draft.md", updatedAt := 1 }
    let files : LocalFiles :=
      { isPresent := fun path => path == "/draft.md"
        isRemovable := fun _ => true
        hides := fun path other => path == other
        hides_self := fun _ => beq_self_eq_true _ }
    ¬CleanupContract policy (10 ^ 16) table files := by
  intro policy table files h
  have hreal := h.sameReport _ rfl
  have hdeleted := congrArg (Option.map (·.deleted)) hreal
  revert hdeleted
  decide +kernel

end BenShu.State
