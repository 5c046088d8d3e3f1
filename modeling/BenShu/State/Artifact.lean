import BenShu.Lib.Table
import BenShu.State.RuntimeEvent
import Mathlib.Data.List.Sort

/-!
# Artifacts and their cleanup

A record says where an artifact lies. A cleanup goes over all records, the newest first,
and a real one removes records and files as it goes.
-/

namespace BenShu.State

inductive ArtifactScope where
  | uploads
  | workspace
  | outputs
  | artifacts
  deriving DecidableEq

inductive ArtifactLifecycle where
  | ephemeral
  | session
  | durable
  deriving DecidableEq

/-- Times are in nanoseconds. -/
structure ArtifactRecord where
  artifactId : String
  uri : String
  scope : ArtifactScope := .artifacts
  lifecycle : ArtifactLifecycle := .ephemeral
  updatedAt : Int := 0
  taskId : Option Uuid := none
  runId : Option Uuid := none
  traceId : Option Uuid := none
  sessionId : Option String := none
  threadId : Option String := none
  sourceKind : String := ""
  deriving DecidableEq

structure ArtifactCleanupPolicy where
  dryRun : Bool := false
  orphanOnly : Bool := false
  pruneMissingLocalFiles : Bool := false
  deleteLocalFiles : Bool := false
  scope : Option ArtifactScope := none
  sourceKind : Option String := none
  ephemeralMaxAgeHours : Option Int := none
  sessionMaxAgeHours : Option Int := none
  durableMaxAgeDays : Option Int := none
  maxDelete : Option Nat := none

structure ArtifactCleanupReport where
  dryRun : Bool := false
  scanned : Nat := 0
  matched : Nat := 0
  deleted : Nat := 0
  kept : Nat := 0
  orphanMatched : Nat := 0
  missingLocalFileMatched : Nat := 0
  deletedLocalFiles : Nat := 0
  skippedExternalFiles : Nat := 0
  skippedDurableWithoutPolicy : Nat := 0
  deletedArtifactIds : List String := []
  deletedFilePaths : List String := []
  deriving DecidableEq

/-! ## Records and files -/

/-- Rows are keyed by the identifier of their record, as every save writes them. -/
structure ArtifactTable where
  rows : Table String ArtifactRecord
  keyed : ∀ id artifact, rows.lookup id = some artifact → artifact.artifactId = id

/-- The newest first, and by identifier among those of one time. -/
def ListedBefore (left right : ArtifactRecord) : Prop :=
  right.updatedAt < left.updatedAt ∨
    right.updatedAt = left.updatedAt ∧ left.artifactId ≤ right.artifactId

instance : DecidableRel ListedBefore := fun left right =>
  inferInstanceAs (Decidable (right.updatedAt < left.updatedAt ∨
    right.updatedAt = left.updatedAt ∧ left.artifactId ≤ right.artifactId))

namespace ArtifactTable

def empty : ArtifactTable where
  rows := ∅
  keyed := fun _ _ h => by cases h

def save (table : ArtifactTable) (artifact : ArtifactRecord) : ArtifactTable where
  rows := table.rows.insert artifact.artifactId artifact
  keyed := by
    intro id stored h
    rw [Table.lookup_insert] at h
    split at h
    · rename_i hid
      cases h
      exact hid.symm
    · exact table.keyed id stored h

def load (table : ArtifactTable) (artifactId : String) : Option ArtifactRecord :=
  table.rows.lookup artifactId

/-- Whether there was a record, and the table without it. -/
def delete (table : ArtifactTable) (artifactId : String) : Bool × ArtifactTable :=
  ((table.load artifactId).isSome,
    { rows := table.rows.erase artifactId
      keyed := by
        intro id stored h
        rw [Table.lookup_erase] at h
        split at h
        · cases h
        · exact table.keyed id stored h })

def list (table : ArtifactTable) : List ArtifactRecord :=
  (table.rows.entries.map Sigma.snd).insertionSort ListedBefore

theorem load_delete (table : ArtifactTable) (artifactId id : String) :
    (table.delete artifactId).2.load id = if id = artifactId then none else table.load id :=
  Table.lookup_erase table.rows artifactId id

end ArtifactTable

/-- The local files, by the paths that lead to them. More than one path can lead to a file. -/
structure LocalFiles where
  isPresent : String → Bool
  /-- What lies at the path is a file, and may be removed. -/
  isRemovable : String → Bool
  /-- After the removal at the first path the second leads nowhere. -/
  hides : String → String → Bool
  hides_self : ∀ path, hides path path = true

def LocalFiles.removeFile (files : LocalFiles) (path : String) : Option LocalFiles :=
  if files.isPresent path && files.isRemovable path then
    some { files with isPresent := fun other => files.isPresent other && !files.hides path other }
  else none

/-! ## What a record is -/

namespace ArtifactRecord

def isOrphan (artifact : ArtifactRecord) : Bool :=
  artifact.taskId.isNone && artifact.runId.isNone && artifact.traceId.isNone &&
    artifact.sessionId.isNone && artifact.threadId.isNone

def localFilePath (artifact : ArtifactRecord) : Option String :=
  match Text.afterStart? artifact.uri "file://" with
  | some rest => if rest = "" then none else some rest
  | none => if Text.startsWith artifact.uri "/" then some artifact.uri else none

def looksExternalUri (uri : String) : Bool :=
  Text.contains uri "://" && !Text.startsWith uri "file://"

def missingLocalFile (artifact : ArtifactRecord) (files : LocalFiles) : Bool :=
  artifact.localFilePath.any fun path => !files.isPresent path

end ArtifactRecord

def maxDurationSeconds : Nat := (2 ^ 63 - 1) / 1000

/-- The age is at least that many units of so many seconds. chrono panics if it has no such
duration. -/
def reachesAge (age : Int) (count : Int) (unitSeconds : Int) : Option Bool :=
  if (count * unitSeconds).natAbs ≤ maxDurationSeconds then
    some (decide (count * unitSeconds * 1000000000 ≤ age))
  else none

inductive Judgement where
  | keep
  /-- Kept because the policy has no age for durable artifacts. -/
  | keepDurable
  | matched (orphan missing : Bool)
  | noDuration
  deriving DecidableEq

namespace Judgement

def isMatched : Judgement → Bool
  | .matched _ _ => true
  | _ => false

def ofAge (orphan : Bool) : Option Bool → Judgement
  | some true => .matched orphan false
  | some false => .keep
  | none => .noDuration

end Judgement

/-- What the policy says of a record by its age. -/
def judgeAge (policy : ArtifactCleanupPolicy) (now : Int) (artifact : ArtifactRecord) :
    Judgement :=
  let age := now - artifact.updatedAt
  match artifact.lifecycle with
  | .ephemeral => .ofAge artifact.isOrphan
      (policy.ephemeralMaxAgeHours.elim (some false) (reachesAge age · 3600))
  | .session => .ofAge artifact.isOrphan
      (policy.sessionMaxAgeHours.elim (some false) (reachesAge age · 3600))
  | .durable =>
      match policy.durableMaxAgeDays with
      | some days => .ofAge artifact.isOrphan (reachesAge age days 86400)
      | none => .keepDurable

def judgeArtifact (policy : ArtifactCleanupPolicy) (now : Int) (artifact : ArtifactRecord)
    (missing : Bool) : Judgement :=
  if policy.scope.any (· != artifact.scope) then .keep
  else if policy.sourceKind.any (· != artifact.sourceKind) then .keep
  else if policy.orphanOnly && !artifact.isOrphan then .keep
  else if missing && !policy.pruneMissingLocalFiles then .keep
  else if missing then .matched artifact.isOrphan true
  else judgeAge policy now artifact

/-! ## The cleanup -/

/-- The records and files as they are, and the report so far. -/
structure CleanupState where
  table : ArtifactTable
  files : LocalFiles
  report : ArtifactCleanupReport

namespace CleanupState

variable (policy : ArtifactCleanupPolicy) (s : CleanupState) (artifact : ArtifactRecord)

def keep : CleanupState := { s with report.kept := s.report.kept + 1 }

def countMatch (orphan missing : Bool) : CleanupState :=
  { s with
    report.matched := s.report.matched + 1
    report.orphanMatched := s.report.orphanMatched + orphan.toNat
    report.missingLocalFileMatched := s.report.missingLocalFileMatched + missing.toNat }

def addDeleted : CleanupState :=
  { s with report.deletedArtifactIds := s.report.deletedArtifactIds ++ [artifact.artifactId] }

def addDeletedFile (path : String) : CleanupState :=
  { s with
    report.deletedLocalFiles := s.report.deletedLocalFiles + 1
    report.deletedFilePaths := s.report.deletedFilePaths ++ [path] }

def skipExternal : CleanupState :=
  if ArtifactRecord.looksExternalUri artifact.uri then
    { s with report.skippedExternalFiles := s.report.skippedExternalFiles + 1 }
  else s

/-- What a dry run reports of the file. -/
def planFile : CleanupState :=
  if policy.deleteLocalFiles then
    match artifact.localFilePath with
    | some path => s.addDeletedFile path
    | none => s.skipExternal artifact
  else s

/-- A file that cannot be removed stays unreported. -/
def dropFile : CleanupState :=
  if policy.deleteLocalFiles then
    match artifact.localFilePath with
    | some path =>
        if s.files.isPresent path then
          match s.files.removeFile path with
          | some files => { s with files }.addDeletedFile path
          | none => s
        else s
    | none => s.skipExternal artifact
  else s

def deleteRecord : CleanupState :=
  let (removed, table) := s.table.delete artifact.artifactId
  if removed then ({ s with table }.dropFile policy artifact).addDeleted artifact
  else { s with table }.keep

def finish : ArtifactCleanupReport :=
  { s.report with deleted := s.report.deletedArtifactIds.length }

def budgetSpent : Bool := policy.maxDelete.any (· ≤ s.report.deletedArtifactIds.length)

end CleanupState

/-- `none` is a panic. -/
def cleanupStep (policy : ArtifactCleanupPolicy) (now : Int) (s : CleanupState)
    (artifact : ArtifactRecord) : Option CleanupState :=
  match judgeArtifact policy now artifact (artifact.missingLocalFile s.files) with
  | .keep => some s.keep
  | .keepDurable =>
      some { s with
        report.skippedDurableWithoutPolicy := s.report.skippedDurableWithoutPolicy + 1 }.keep
  | .noDuration => none
  | .matched orphan missing =>
      let s := s.countMatch orphan missing
      if s.budgetSpent policy then some s.keep
      else if policy.dryRun then some ((s.planFile policy artifact).addDeleted artifact)
      else some (s.deleteRecord policy artifact)

def cleanupLoop (policy : ArtifactCleanupPolicy) (now : Int) :
    List ArtifactRecord → CleanupState → CleanupState × Bool
  | [], s => (s, true)
  | artifact :: rest, s =>
      match cleanupStep policy now s artifact with
      | some s => cleanupLoop policy now rest s
      | none => (s, false)

structure CleanupOutcome where
  table : ArtifactTable
  files : LocalFiles
  report : Option ArtifactCleanupReport

/-- The records and files after a cleanup at the time, and its report unless it panics. -/
def cleanup (policy : ArtifactCleanupPolicy) (now : Int) (table : ArtifactTable)
    (files : LocalFiles) : CleanupOutcome :=
  let artifacts := table.list
  let (s, finished) := cleanupLoop policy now artifacts
    ⟨table, files, { dryRun := policy.dryRun, scanned := artifacts.length }⟩
  { table := s.table
    files := s.files
    report := if finished then some s.finish else none }

end BenShu.State
