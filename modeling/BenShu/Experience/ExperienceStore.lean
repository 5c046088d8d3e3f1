import BenShu.Lib.DerivedIndex
import BenShu.Lib.I64
import Mathlib.Data.Rat.Defs

/-!
# Task experiences

What is learned from a task, with the counters of its use. Times are milliseconds.
-/

namespace BenShu.Experience

open Text

/-- The confidence arithmetic, what is read back of a stored confidence, and what the
task hash is made of. -/
structure ExperienceLibrary (F : Type) where
  clamp : F → F
  add : F → ℚ → F
  atMost : F → ℚ → Bool
  readBack : F → Option F
  toLowercase : String → String
  sha256 : String → List UInt8

/-! ## Keys -/

def keyChar (ch : Char) : Char :=
  if ch.isAlphanum || ch == '_' || ch == '-' || ch == ':' then ch.toLower else '_'

def normalizeKey (value : String) : String :=
  "_".intercalate ((split (.ofList ((trim value).toList.map keyChar)) (· == '_')).filter
    fun part => !part.isEmpty)

def normalizeNamespace (value : String) : String :=
  let normalized := normalizeKey value
  if normalized.isEmpty then "system_experience" else normalized

/-- The values before which no value with the same trimmed text was kept. -/
def dedupAux (seen : List String) : List String → List String
  | [] => []
  | value :: values =>
      let normalized := trim value
      if normalized.isEmpty || seen.contains normalized then dedupAux seen values
      else value :: dedupAux (normalized :: seen) values

def dedupStrings (values : List String) : List String := dedupAux [] values

/-! ## Records -/

inductive ExperienceScope where
  | localWindows
  | web
  | workspace
  | tool
  | agent
  | other (value : String)

namespace ExperienceScope

def asKey : ExperienceScope → String
  | .localWindows => "local_windows"
  | .web => "web"
  | .workspace => "workspace"
  | .tool => "tool"
  | .agent => "agent"
  | .other value => "other:" ++ normalizeKey value

def defaultTtlSeconds : ExperienceScope → Option Int
  | .web => some (24 * 60 * 60)
  | .localWindows | .workspace | .tool | .agent => some (30 * 24 * 60 * 60)
  | .other _ => some (7 * 24 * 60 * 60)

end ExperienceScope

inductive ExperienceStatus where
  | candidate
  | active
  | retired

structure UsageStats where
  selectedCount : Nat := 0
  preflightPassCount : Nat := 0
  preflightFailCount : Nat := 0
  successCount : Nat := 0
  failureCount : Nat := 0
  lastSelectedAtMs : Option Int := none
  lastFailedAtMs : Option Int := none

structure TaskExperience (F : Type) where
  id : String
  «namespace» : String
  status : ExperienceStatus
  taskSignature : String
  scope : ExperienceScope
  workerRole : Option String
  toolNames : List String
  hints : List String
  antiPatterns : List String
  confidence : F
  usage : UsageStats
  ttlSeconds : Option Int
  createdAtMs : Int
  updatedAtMs : Int
  lastVerifiedAtMs : Option Int
  expiresAtMs : Option Int

namespace TaskExperience

variable {F : Type} (lib : ExperienceLibrary F)

def expiryAfter (basis : Int) (ttl : Int) : Int :=
  I64.saturate (basis + I64.saturate (ttl * 1000))

def normalizeBeforeStore (nowMs : Int) (experience : TaskExperience F) : TaskExperience F :=
  let ttlSeconds := experience.ttlSeconds.or experience.scope.defaultTtlSeconds
  let basis := experience.lastVerifiedAtMs.getD nowMs
  { experience with
    «namespace» := normalizeNamespace experience.namespace
    confidence := lib.clamp experience.confidence
    updatedAtMs := nowMs
    createdAtMs := if experience.createdAtMs ≤ 0 then nowMs else experience.createdAtMs
    ttlSeconds := ttlSeconds
    expiresAtMs := experience.expiresAtMs.or (ttlSeconds.map (expiryAfter basis))
    toolNames := dedupStrings experience.toolNames
    hints := dedupStrings experience.hints
    antiPatterns := dedupStrings experience.antiPatterns }

def isExpiredAt (nowMs : Int) (experience : TaskExperience F) : Bool :=
  experience.expiresAtMs.any fun deadline => decide (deadline ≤ nowMs)

def refreshExpiry (nowMs : Int) (experience : TaskExperience F) : TaskExperience F :=
  { experience with expiresAtMs := experience.ttlSeconds.map (expiryAfter nowMs) }

end TaskExperience

/-! ## Updates of the counters -/

def saturatingIncr (count : Nat) : Nat := min (count + 1) (2 ^ 64 - 1)

inductive UsageUpdate where
  | markSelected
  | recordPreflightResult (passed : Bool)
  | recordTaskResult (succeeded : Bool)
deriving DecidableEq

namespace TaskExperience

variable {F : Type} (lib : ExperienceLibrary F)

def markSelected (nowMs : Int) (experience : TaskExperience F) : TaskExperience F :=
  { experience with
    usage := { experience.usage with
      selectedCount := saturatingIncr experience.usage.selectedCount
      lastSelectedAtMs := some nowMs }
    updatedAtMs := nowMs }

def recordPreflightResult (passed : Bool) (nowMs : Int) (experience : TaskExperience F) :
    TaskExperience F :=
  if passed then
    let refreshed := refreshExpiry nowMs { experience with
      usage := { experience.usage with
        preflightPassCount := saturatingIncr experience.usage.preflightPassCount }
      lastVerifiedAtMs := some nowMs }
    { refreshed with
      confidence := lib.clamp (lib.add experience.confidence (3 / 100))
      updatedAtMs := nowMs }
  else
    { experience with
      usage := { experience.usage with
        preflightFailCount := saturatingIncr experience.usage.preflightFailCount
        lastFailedAtMs := some nowMs }
      confidence := lib.clamp (lib.add experience.confidence (-12 / 100))
      updatedAtMs := nowMs }

def recordTaskResult (succeeded : Bool) (nowMs : Int) (experience : TaskExperience F) :
    TaskExperience F :=
  if succeeded then
    let refreshed := refreshExpiry nowMs { experience with
      usage := { experience.usage with
        successCount := saturatingIncr experience.usage.successCount }
      status := .active
      lastVerifiedAtMs := some nowMs }
    { refreshed with
      confidence := lib.clamp (lib.add experience.confidence (8 / 100))
      updatedAtMs := nowMs }
  else
    let confidence := lib.clamp (lib.add experience.confidence (-18 / 100))
    { experience with
      usage := { experience.usage with
        failureCount := saturatingIncr experience.usage.failureCount
        lastFailedAtMs := some nowMs }
      confidence := confidence
      status := if lib.atMost confidence (5 / 100) then .retired else experience.status
      updatedAtMs := nowMs }

def apply (update : UsageUpdate) (nowMs : Int) (experience : TaskExperience F) :
    TaskExperience F :=
  match update with
  | .markSelected => experience.markSelected nowMs
  | .recordPreflightResult passed => experience.recordPreflightResult lib passed nowMs
  | .recordTaskResult succeeded => experience.recordTaskResult lib succeeded nowMs

@[simp] theorem apply_id (update : UsageUpdate) (nowMs : Int) (experience : TaskExperience F) :
    (experience.apply lib update nowMs).id = experience.id := by
  cases update with
  | markSelected => rfl
  | recordPreflightResult passed => cases passed <;> rfl
  | recordTaskResult succeeded => cases succeeded <;> rfl

@[simp] theorem normalizeBeforeStore_id (nowMs : Int) (experience : TaskExperience F) :
    (experience.normalizeBeforeStore lib nowMs).id = experience.id := by
  simp only [normalizeBeforeStore]

@[simp] theorem normalizeBeforeStore_usage (nowMs : Int) (experience : TaskExperience F) :
    (experience.normalizeBeforeStore lib nowMs).usage = experience.usage := by
  simp only [normalizeBeforeStore]

end TaskExperience

end BenShu.Experience

/-!
# The experience store

The experiences by their id, with four index tables. A write transaction changes all of
the tables or none.
-/

namespace BenShu.Experience

open DerivedIndex

structure ExperienceStoreStats where
  totalExperiences : Nat
  indexScopeTaskEntries : Nat
  indexWorkerEntries : Nat
  indexToolEntries : Nat
  indexStatusEntries : Nat

structure ExperienceStore (F : Type) where
  experiences : Table String (TaskExperience F) := ∅
  byScopeTask : Table String String := ∅
  byWorker : Table String String := ∅
  byTool : Table String String := ∅
  byStatus : Table String String := ∅

def sep : String := "\x1f"

variable {F : Type} (lib : ExperienceLibrary F)

/-! ## Index keys -/

def hexByte (byte : UInt8) : List Char :=
  [Nat.digitChar (byte.toNat / 16), Nat.digitChar (byte.toNat % 16)]

def taskHash (task : String) : String :=
  .ofList (((lib.sha256 (lib.toLowercase (Text.trim task))).take 8).flatMap hexByte)

def statusKey : ExperienceStatus → String
  | .candidate => "candidate"
  | .active => "active"
  | .retired => "retired"

def indexKey («namespace» value id : String) : String :=
  sep.intercalate [normalizeNamespace «namespace», normalizeKey value, id]

def scopedTaskKey (experience : TaskExperience F) : String :=
  sep.intercalate [normalizeNamespace experience.namespace, experience.scope.asKey,
    taskHash lib experience.taskSignature, experience.id]

def scopeTaskKeys (experience : TaskExperience F) : List String := [scopedTaskKey lib experience]

def workerKeys (experience : TaskExperience F) : List String :=
  experience.workerRole.toList.map fun workerRole =>
    indexKey experience.namespace (normalizeKey workerRole) experience.id

def toolKeys (experience : TaskExperience F) : List String :=
  experience.toolNames.map fun tool =>
    indexKey experience.namespace (normalizeKey tool) experience.id

def statusKeys (experience : TaskExperience F) : List String :=
  [indexKey experience.namespace (statusKey experience.status) experience.id]

def insertIndexes (experience : TaskExperience F) (s : ExperienceStore F) : ExperienceStore F :=
  { s with
    byScopeTask := insertAll s.byScopeTask (scopeTaskKeys lib experience) experience.id
    byWorker := insertAll s.byWorker (workerKeys experience) experience.id
    byTool := insertAll s.byTool (toolKeys experience) experience.id
    byStatus := insertAll s.byStatus (statusKeys experience) experience.id }

def removeIndexes (experience : TaskExperience F) (s : ExperienceStore F) : ExperienceStore F :=
  { s with
    byScopeTask := eraseAll s.byScopeTask (scopeTaskKeys lib experience)
    byWorker := eraseAll s.byWorker (workerKeys experience)
    byTool := eraseAll s.byTool (toolKeys experience)
    byStatus := eraseAll s.byStatus (statusKeys experience) }

/-! ## Calls -/

/-- A stored experience as it is deserialized, which fails with its confidence. -/
def readBack (experience : TaskExperience F) : Option (TaskExperience F) :=
  (lib.readBack experience.confidence).map fun confidence =>
    { experience with confidence := confidence }

namespace ExperienceStore

def upsert (now : Int) (experience : TaskExperience F) (s : ExperienceStore F) :
    Except String (TaskExperience F) × ExperienceStore F :=
  let experience := experience.normalizeBeforeStore lib now
  let insert := fun s : ExperienceStore F =>
    (Except.ok experience, insertIndexes lib experience
      { s with experiences := s.experiences.insert experience.id experience })
  match s.experiences.lookup experience.id with
  | none => insert s
  | some stored =>
      match readBack lib stored with
      | none => (.error "failed to deserialize existing experience", s)
      | some old => insert (removeIndexes lib old s)

def get (id : String) (s : ExperienceStore F) : Except String (Option (TaskExperience F)) :=
  match s.experiences.lookup id with
  | none => .ok none
  | some stored =>
      match readBack lib stored with
      | none => .error "failed to deserialize experience"
      | some experience => .ok (some experience)

def delete (id : String) (s : ExperienceStore F) : Except String Bool × ExperienceStore F :=
  match s.experiences.lookup id with
  | none => (.ok false, s)
  | some stored =>
      match readBack lib stored with
      | none => (.error "failed to deserialize experience before delete", s)
      | some existing =>
          (.ok true, { removeIndexes lib existing s with experiences := s.experiences.erase id })

def list (s : ExperienceStore F) : Except String (List (TaskExperience F)) :=
  s.experiences.entries.mapM fun entry =>
    (readBack lib entry.2).elim (.error "failed to deserialize experience during list") .ok

def deleteAll (ids : List String) (removed : Nat) (s : ExperienceStore F) :
    Except String Nat × ExperienceStore F :=
  match ids with
  | [] => (.ok removed, s)
  | id :: ids =>
      match s.delete lib id with
      | (.error e, s) => (.error e, s)
      | (.ok true, s) => deleteAll ids (saturatingIncr removed) s
      | (.ok false, s) => deleteAll ids removed s

def pruneExpired (nowMs : Int) (s : ExperienceStore F) : Except String Nat × ExperienceStore F :=
  match s.list lib with
  | .error e => (.error e, s)
  | .ok records =>
      deleteAll lib ((records.filter (·.isExpiredAt nowMs)).map (·.id)) 0 s

/-- The record is read in one transaction and written in another. -/
def update (id : String) (mutation : UsageUpdate) (readNow now : Int) (s : ExperienceStore F) :
    Except String (Option (TaskExperience F)) × ExperienceStore F :=
  match s.get lib id with
  | .error e => (.error e, s)
  | .ok none => (.ok none, s)
  | .ok (some experience) =>
      match s.upsert lib now (experience.apply lib mutation readNow) with
      | (.error e, s) => (.error e, s)
      | (.ok stored, s) => (.ok (some stored), s)

def stats (s : ExperienceStore F) : ExperienceStoreStats where
  totalExperiences := s.experiences.size
  indexScopeTaskEntries := s.byScopeTask.size
  indexWorkerEntries := s.byWorker.size
  indexToolEntries := s.byTool.size
  indexStatusEntries := s.byStatus.size

end ExperienceStore

inductive StoreCall (F : Type) where
  | upsert (now : Int) (experience : TaskExperience F)
  | update (id : String) (mutation : UsageUpdate) (readNow now : Int)
  | delete (id : String)
  | pruneExpired (nowMs : Int)

namespace ExperienceStore

def perform (s : ExperienceStore F) : StoreCall F → ExperienceStore F
  | .upsert now experience => (s.upsert lib now experience).2
  | .update id mutation readNow now => (s.update lib id mutation readNow now).2
  | .delete id => (s.delete lib id).2
  | .pruneExpired nowMs => (s.pruneExpired lib nowMs).2

def run (calls : List (StoreCall F)) : ExperienceStore F := calls.foldl (perform lib) {}

end ExperienceStore

end BenShu.Experience
