import BenShu.Lib.FileTree
import BenShu.Protocol.AgentSession
import Mathlib.Data.List.Sort

/-!
# Sealed memory backups

A restore point holds the durable memory files of a storage root, sealed one by one, with
a manifest that lists them.
-/

namespace BenShu.Security

open Files
open Protocol (DateTime)

abbrev Bytes := List UInt8

def contractVersion : String := "1"

structure MemoryBackupFileEntry where
  label : String
  relativePath : String
  payloadPath : String
  sizeBytes : Nat
  sha256 : String
  deriving DecidableEq

structure MemoryRestorePointManifest where
  backupId : String
  product : String
  contractVersion : String
  createdAt : DateTime
  storageRootHint : String
  encryptionKeyFingerprint : String
  fileCount : Nat
  totalBytes : Nat
  files : List MemoryBackupFileEntry
  deriving DecidableEq

structure MemoryRestoreReceipt where
  receiptId : String
  backupId : String
  restoredAt : DateTime
  contractVersion : String
  encryptionKeyFingerprint : String
  restoredFiles : Nat
  restoredBytes : Nat
  deriving DecidableEq

structure MemoryRestoreDryRunReport where
  backupId : String
  checkedAt : DateTime
  contractVersion : String
  encryptionKeyFingerprint : String
  valid : Bool
  fileCount : Nat
  totalBytes : Nat
  restorableFiles : Nat
  missingPayloads : List String
  integrityMismatches : List String
  deriving DecidableEq

inductive BackupError where
  | io
  | json
  | encryption
  | decryption
  | noTargets
  | unsupportedVersion (version : String)
  | fingerprintMismatch (backupId : String)
  | integrityMismatch (relativePath : String)
  deriving DecidableEq

namespace BackupError

/-- The message of an error of the backups themselves. -/
def message : BackupError → Option String
  | .noTargets => some "No durable memory files found to back up"
  | .unsupportedVersion version =>
      some s!"Unsupported memory backup contract version: {version}"
  | .fingerprintMismatch backupId => some s!"Restore key fingerprint mismatch for backup {backupId}"
  | .integrityMismatch relativePath => some s!"Payload integrity mismatch for {relativePath}"
  | _ => none

end BackupError

/-! ## What the backups build on -/

abbrev Nonce := { bytes : Bytes // bytes.length = 12 }

/-- An authenticated cipher, a digest as text, and the JSON of the records. -/
structure BackupLibrary where
  encrypt : Bytes → Bytes → Bytes → Option Bytes
  decrypt : Bytes → Bytes → Bytes → Option Bytes
  digest : Bytes → String
  manifestBytes : MemoryRestorePointManifest → Bytes
  parseManifest : Bytes → Option MemoryRestorePointManifest
  receiptBytes : MemoryRestoreReceipt → Bytes

structure FactEncryptor where
  key : Bytes

namespace FactEncryptor

variable (lib : BackupLibrary) (encryptor : FactEncryptor)

def encryptBytes (nonce : Nonce) (plaintext : Bytes) : Option Bytes :=
  (lib.encrypt encryptor.key nonce plaintext).map (nonce.1 ++ ·)

def decryptBytes (encrypted : Bytes) : Option Bytes :=
  if encrypted.length < 12 then none
  else lib.decrypt encryptor.key (encrypted.take 12) (encrypted.drop 12)

def fingerprint : String := lib.digest encryptor.key

end FactEncryptor

structure SealedMemoryBackupManager where
  storageRoot : PlainPath
  maxRestorePoints : Nat

namespace SealedMemoryBackupManager

abbrev Tree := FileTree Bytes

variable (lib : BackupLibrary) (manager : SealedMemoryBackupManager)

def restoreRoot : PlainPath :=
  manager.storageRoot ++ [⟨"data", by decide⟩, ⟨"memory_restore_points", by decide⟩]

def backupDir (backupId : String) : RawPath := manager.restoreRoot.raw.join backupId

def manifestName : FileName := ⟨"manifest.json", by decide⟩

def payloadsName : FileName := ⟨"payloads", by decide⟩

def receiptsName : FileName := ⟨"receipts", by decide⟩

/-! ## Creating -/

structure BackupTarget where
  label : String
  path : PlainPath
  relativePath : String
  deriving DecidableEq

/-- The path below the storage root, with slashes for backslashes. -/
def relativeText (path : PlainPath) : String :=
  .ofList ((PlainPath.text (path.drop manager.storageRoot.length)).toList.map fun c =>
    if c = '\\' then '/' else c)

def fileTarget (t : Tree) (label : String) (path : PlainPath) : List BackupTarget :=
  if t.isFile path then [⟨label, path, manager.relativeText path⟩] else []

def directoryTargets (t : Tree) (labelPrefix : String) (directory : PlainPath) :
    Except BackupError (List BackupTarget) :=
  if t.isFile directory then .error .io
  else .ok ((t.filesBelow directory).map fun path =>
    ⟨s!"{labelPrefix}:{manager.relativeText path}", path, manager.relativeText path⟩)

def stmPath : PlainPath := manager.storageRoot ++ [⟨"short_term_memory.redb", by decide⟩]

def auditPath : PlainPath := manager.storageRoot ++ [⟨"audit.redb", by decide⟩]

def experiencePath : PlainPath := manager.storageRoot ++ [⟨"experience.redb", by decide⟩]

def searchRoot : PlainPath := manager.storageRoot ++ [⟨"search", by decide⟩]

def discoverTargets (t : Tree) : Except BackupError (List BackupTarget) :=
  match manager.directoryTargets t "engram_search" manager.searchRoot with
  | .error err => .error err
  | .ok searchTargets =>
      .ok (manager.fileTarget t "stm_hot" manager.stmPath ++
        manager.fileTarget t "audit_log" manager.auditPath ++
        manager.fileTarget t "system_experience" manager.experiencePath ++ searchTargets)

variable (encryptor : FactEncryptor)

/-- A target is read, sealed and written. -/
def sealTarget (backupDir : RawPath) (t : Tree) (nonce : Nonce) (target : BackupTarget) :
    Tree × Except BackupError MemoryBackupFileEntry :=
  match t.read target.path with
  | none => (t, .error .io)
  | some plaintext =>
      match encryptor.encryptBytes lib nonce plaintext with
      | none => (t, .error .encryption)
      | some payload =>
          let payloadPath := s!"payloads/{target.relativePath}.sealed"
          match t.writeWithParents (backupDir.join payloadPath) payload with
          | (t, false) => (t, .error .io)
          | (t, true) =>
              (t, .ok { label := target.label
                        relativePath := target.relativePath
                        payloadPath := payloadPath
                        sizeBytes := plaintext.length
                        sha256 := lib.digest plaintext })

/-- The targets are sealed in order, each under its own nonce. -/
def sealTargets (backupDir : RawPath) (nonces : Nat → Nonce) :
    Tree → List MemoryBackupFileEntry → List BackupTarget →
    Tree × Except BackupError (List MemoryBackupFileEntry)
  | t, entries, [] => (t, .ok entries)
  | t, entries, target :: targets =>
      match sealTarget lib encryptor backupDir t (nonces entries.length) target with
      | (t, .error err) => (t, .error err)
      | (t, .ok entry) => sealTargets backupDir nonces t (entries ++ [entry]) targets

/-! ## Listing and pruning -/

def inspectRestorePoint (t : Tree) (backupId : String) :
    Except BackupError MemoryRestorePointManifest :=
  match t.readAt (manager.backupDir backupId ++ [.name manifestName]) with
  | none => .error .io
  | some data =>
      match lib.parseManifest data with
      | none => .error .json
      | some manifest => .ok manifest

def NewestFirst (a b : MemoryRestorePointManifest) : Prop := b.createdAt ≤ a.createdAt

instance : DecidableRel NewestFirst := fun a b =>
  inferInstanceAs (Decidable (b.createdAt ≤ a.createdAt))

def PathOrder (a b : MemoryBackupFileEntry) : Prop := a.relativePath ≤ b.relativePath

instance : DecidableRel PathOrder := fun a b =>
  inferInstanceAs (Decidable (a.relativePath ≤ b.relativePath))

def listRestorePoints (t : Tree) : List MemoryRestorePointManifest :=
  let manifests := (t.children manager.restoreRoot).filterMap fun name =>
    (t.read (manager.restoreRoot ++ [name, manifestName])).bind lib.parseManifest
  manifests.insertionSort NewestFirst

def removeRestorePoints :
    Tree → List MemoryRestorePointManifest → Tree × Except BackupError Unit
  | t, [] => (t, .ok ())
  | t, manifest :: manifests =>
      if t.existsAt (manager.backupDir manifest.backupId) then
        match t.removeDirAll (manager.backupDir manifest.backupId) with
        | none => (t, .error .io)
        | some t => removeRestorePoints t manifests
      else removeRestorePoints t manifests

def pruneOldRestorePoints (t : Tree) : Tree × Except BackupError Unit :=
  if manager.maxRestorePoints = 0 then (t, .ok ())
  else manager.removeRestorePoints t
    ((manager.listRestorePoints lib t).drop manager.maxRestorePoints)

/-- What a new restore point takes from outside. -/
structure RestorePointSeed where
  backupId : String
  createdAt : DateTime
  nonces : Nat → Nonce

def manifestOf (seed : RestorePointSeed) (entries : List MemoryBackupFileEntry) :
    MemoryRestorePointManifest where
  backupId := seed.backupId
  product := "BenShu"
  contractVersion := Security.contractVersion
  createdAt := seed.createdAt
  storageRootHint := "/" ++ PlainPath.text manager.storageRoot
  encryptionKeyFingerprint := encryptor.fingerprint lib
  fileCount := entries.length
  totalBytes := (entries.map (·.sizeBytes)).sum
  files := entries.insertionSort PathOrder

def createRestorePoint (t : Tree) (seed : RestorePointSeed) :
    Tree × Except BackupError MemoryRestorePointManifest :=
  match manager.discoverTargets t with
  | .error err => (t, .error err)
  | .ok targets =>
      if targets.isEmpty then (t, .error .noTargets)
      else
        let backupDir := manager.backupDir seed.backupId
        match t.createDirAll (backupDir ++ [.name payloadsName]) with
        | (t, false) => (t, .error .io)
        | (t, true) =>
            match sealTargets lib encryptor backupDir seed.nonces t [] targets with
            | (t, .error err) => (t, .error err)
            | (t, .ok entries) =>
                let manifest := manager.manifestOf lib encryptor seed entries
                match t.write (backupDir ++ [.name manifestName]) (lib.manifestBytes manifest) with
                | none => (t, .error .io)
                | some t =>
                    match manager.pruneOldRestorePoints lib t with
                    | (t, .error err) => (t, .error err)
                    | (t, .ok ()) => (t, .ok manifest)

/-! ## Restoring -/

/-- The checks of a manifest before its files. -/
def checkManifest (manifest : MemoryRestorePointManifest) : Except BackupError Unit :=
  if manifest.contractVersion ≠ Security.contractVersion then
    .error (.unsupportedVersion manifest.contractVersion)
  else if manifest.encryptionKeyFingerprint ≠ encryptor.fingerprint lib then
    .error (.fingerprintMismatch manifest.backupId)
  else .ok ()

def targetPath (entry : MemoryBackupFileEntry) : RawPath :=
  manager.storageRoot.raw.join entry.relativePath

/-- An entry is opened, checked and written; the bytes are counted. -/
def restoreEntry (backupDir : RawPath) (t : Tree) (entry : MemoryBackupFileEntry) :
    Tree × Except BackupError Nat :=
  match t.readAt (backupDir.join entry.payloadPath) with
  | none => (t, .error .io)
  | some payload =>
      match encryptor.decryptBytes lib payload with
      | none => (t, .error .decryption)
      | some plaintext =>
          if lib.digest plaintext ≠ entry.sha256 then
            (t, .error (.integrityMismatch entry.relativePath))
          else
            match t.writeWithParents (manager.targetPath entry) plaintext with
            | (t, false) => (t, .error .io)
            | (t, true) => (t, .ok plaintext.length)

def restoreEntries (backupDir : RawPath) :
    Tree → Nat → List MemoryBackupFileEntry → Tree × Except BackupError Nat
  | t, restoredBytes, [] => (t, .ok restoredBytes)
  | t, restoredBytes, entry :: entries =>
      match manager.restoreEntry lib encryptor backupDir t entry with
      | (t, .error err) => (t, .error err)
      | (t, .ok bytes) => restoreEntries backupDir t (restoredBytes + bytes) entries

def receiptsDir (backupDir : RawPath) : RawPath := backupDir ++ [.name receiptsName]

def receiptPath (backupDir : RawPath) (receiptId : String) : RawPath :=
  (receiptsDir backupDir).join s!"{receiptId}.json"

def writeReceipt (backupDir : RawPath) (t : Tree) (receipt : MemoryRestoreReceipt) :
    Tree × Except BackupError MemoryRestoreReceipt :=
  match t.createDirAll (receiptsDir backupDir) with
  | (t, false) => (t, .error .io)
  | (t, true) =>
      match t.write (receiptPath backupDir receipt.receiptId) (lib.receiptBytes receipt) with
      | none => (t, .error .io)
      | some t => (t, .ok receipt)

def restoreRestorePoint (t : Tree) (backupId receiptId : String) (now : DateTime) :
    Tree × Except BackupError MemoryRestoreReceipt :=
  match manager.inspectRestorePoint lib t backupId with
  | .error err => (t, .error err)
  | .ok manifest =>
      match checkManifest lib encryptor manifest with
      | .error err => (t, .error err)
      | .ok () =>
          let backupDir := manager.backupDir backupId
          match manager.restoreEntries lib encryptor backupDir t 0 manifest.files with
          | (t, .error err) => (t, .error err)
          | (t, .ok restoredBytes) =>
              writeReceipt lib backupDir t
                { receiptId := receiptId
                  backupId := manifest.backupId
                  restoredAt := now
                  contractVersion := Security.contractVersion
                  encryptionKeyFingerprint := manifest.encryptionKeyFingerprint
                  restoredFiles := manifest.fileCount
                  restoredBytes := restoredBytes }

/-! ## The dry run -/

structure DryRunTally where
  restorableFiles : Nat := 0
  missingPayloads : List String := []
  integrityMismatches : List String := []

def dryRunEntry (backupDir : RawPath) (t : Tree) (tally : DryRunTally)
    (entry : MemoryBackupFileEntry) : DryRunTally :=
  match t.readAt (backupDir.join entry.payloadPath) with
  | none => { tally with missingPayloads := tally.missingPayloads ++ [entry.relativePath] }
  | some payload =>
      match encryptor.decryptBytes lib payload with
      | none =>
          { tally with integrityMismatches := tally.integrityMismatches ++ [entry.relativePath] }
      | some plaintext =>
          if lib.digest plaintext ≠ entry.sha256 then
            { tally with integrityMismatches := tally.integrityMismatches ++ [entry.relativePath] }
          else { tally with restorableFiles := tally.restorableFiles + 1 }

def dryRunRestorePoint (t : Tree) (backupId : String) (now : DateTime) :
    Except BackupError MemoryRestoreDryRunReport :=
  match manager.inspectRestorePoint lib t backupId with
  | .error err => .error err
  | .ok manifest =>
      match checkManifest lib encryptor manifest with
      | .error err => .error err
      | .ok () =>
          let tally := manifest.files.foldl
            (dryRunEntry lib encryptor (manager.backupDir backupId) t) {}
          .ok { backupId := manifest.backupId
                checkedAt := now
                contractVersion := Security.contractVersion
                encryptionKeyFingerprint := manifest.encryptionKeyFingerprint
                valid := tally.missingPayloads.isEmpty && tally.integrityMismatches.isEmpty
                fileCount := manifest.fileCount
                totalBytes := manifest.totalBytes
                restorableFiles := tally.restorableFiles
                missingPayloads := tally.missingPayloads
                integrityMismatches := tally.integrityMismatches }

end SealedMemoryBackupManager

end BenShu.Security
