import BenShu.Security.MemoryBackup

/-!
# Restoring in order

Restoring puts the entries of a manifest back one after the other and stops at the first
that cannot be. The dry run opens the same payloads and writes nothing.
-/

namespace BenShu.Security.SealedMemoryBackupManager

open Files
open Protocol (DateTime)

variable (lib : BackupLibrary) (manager : SealedMemoryBackupManager) (encryptor : FactEncryptor)

/-! ## What a payload holds -/

/-- The bytes behind an entry: the payload is there, opens, and has the digest of the entry. -/
def captured (backupDir : RawPath) (t : Tree) (entry : MemoryBackupFileEntry) : Option Bytes :=
  ((t.readAt (backupDir.join entry.payloadPath)).bind (encryptor.decryptBytes lib)).filter
    fun plaintext => lib.digest plaintext = entry.sha256

/-- A file that was put back. -/
structure RestoredFile where
  entry : MemoryBackupFileEntry
  path : PlainPath
  bytes : Bytes

/-- Files put back one after the other, each with the bytes its payload has at its turn. -/
inductive PutBack (backupDir : RawPath) : Tree → List RestoredFile → Tree → Prop where
  | nil (t : Tree) : PutBack backupDir t [] t
  | cons {t t' t'' : Tree} {file : RestoredFile} {files : List RestoredFile}
      (hcaptured : captured lib encryptor backupDir t file.entry = some file.bytes)
      (hpath : t'.locate (manager.targetPath file.entry) = some file.path)
      (hread : ∀ p, t'.read p = if p = file.path then some file.bytes else t.read p)
      (hrest : PutBack backupDir t' files t'') : PutBack backupDir t (file :: files) t''

def lastBytes (files : List RestoredFile) (p : PlainPath) : Option Bytes :=
  (files.reverse.find? fun file => file.path = p).map (·.bytes)

/-- An entry that is not put back: its payload is not in order, or its file cannot be
written. -/
def Stops (backupDir : RawPath) (t : Tree) (entry : MemoryBackupFileEntry) : Prop :=
  ∀ bytes, captured lib encryptor backupDir t entry = some bytes →
    (t.writeWithParents (manager.targetPath entry) bytes).2 = false

variable {lib manager encryptor}
variable {backupDir : RawPath} {t t' : Tree} {entry : MemoryBackupFileEntry}
  {entries : List MemoryBackupFileEntry} {files : List RestoredFile}

theorem captured_eq_some_iff {plaintext : Bytes} :
    captured lib encryptor backupDir t entry = some plaintext ↔
      ∃ payload, t.readAt (backupDir.join entry.payloadPath) = some payload ∧
        encryptor.decryptBytes lib payload = some plaintext ∧
        lib.digest plaintext = entry.sha256 := by
  unfold captured
  simp only [Option.filter_eq_some_iff, Option.bind_eq_some_iff, decide_eq_true_eq]
  constructor
  · intro h
    rcases h with ⟨⟨payload, hpayload, hplain⟩, hdigest⟩
    exact ⟨payload, hpayload, hplain, hdigest⟩
  · intro h
    rcases h with ⟨payload, hpayload, hplain, hdigest⟩
    exact ⟨⟨payload, hpayload, hplain⟩, hdigest⟩

theorem restoreEntry_of_captured {plaintext : Bytes}
    (h : captured lib encryptor backupDir t entry = some plaintext) :
    manager.restoreEntry lib encryptor backupDir t entry =
      match t.writeWithParents (manager.targetPath entry) plaintext with
      | (t, false) => (t, .error .io)
      | (t, true) => (t, .ok plaintext.length) := by
  rcases captured_eq_some_iff.mp h with ⟨payload, hpayload, hplain, hdigest⟩
  unfold restoreEntry
  rw [hpayload]
  dsimp only
  rw [hplain]
  dsimp only
  exact if_neg (not_not.mpr hdigest)

theorem restoreEntry_of_captured_none (h : captured lib encryptor backupDir t entry = none) :
    ∃ err, manager.restoreEntry lib encryptor backupDir t entry = (t, .error err) := by
  unfold restoreEntry
  cases hpayload : t.readAt (backupDir.join entry.payloadPath) with
  | none => exact ⟨_, rfl⟩
  | some payload =>
      dsimp only
      cases hplain : encryptor.decryptBytes lib payload with
      | none => exact ⟨_, rfl⟩
      | some plaintext =>
          dsimp only
          by_cases hdigest : lib.digest plaintext = entry.sha256
          · rw [captured_eq_some_iff.mpr ⟨payload, hpayload, hplain, hdigest⟩] at h
            cases h
          · rw [if_pos hdigest]
            exact ⟨_, rfl⟩

theorem restoreEntry_ok {bytes : Nat}
    (h : manager.restoreEntry lib encryptor backupDir t entry = (t', .ok bytes)) :
    ∃ plaintext q, captured lib encryptor backupDir t entry = some plaintext ∧
      t'.locate (manager.targetPath entry) = some q ∧
      ∀ p, t'.read p = if p = q then some plaintext else t.read p := by
  cases hcaptured : captured lib encryptor backupDir t entry with
  | none =>
      rcases @restoreEntry_of_captured_none lib manager encryptor _ _ _ hcaptured with ⟨err, herr⟩
      rw [herr] at h
      cases h
  | some plaintext =>
      rw [restoreEntry_of_captured hcaptured] at h
      split at h
      · cases h
      · rename_i hwrite
        cases h
        rcases FileTree.writeWithParents_read hwrite with ⟨q, hq, hread⟩
        exact ⟨plaintext, q, rfl, hq, hread⟩

theorem restoreEntry_error {err : BackupError}
    (h : manager.restoreEntry lib encryptor backupDir t entry = (t', .error err)) :
    (∀ p, t'.read p = t.read p) ∧ Stops lib manager encryptor backupDir t entry := by
  cases hcaptured : captured lib encryptor backupDir t entry with
  | none =>
      rcases @restoreEntry_of_captured_none lib manager encryptor _ _ _ hcaptured with ⟨err, herr⟩
      rw [herr] at h
      cases h
      refine ⟨fun _ => rfl, fun bytes hbytes => ?_⟩
      rw [hcaptured] at hbytes
      cases hbytes
  | some plaintext =>
      rw [restoreEntry_of_captured hcaptured] at h
      split at h
      · rename_i hwrite
        cases h
        refine ⟨(FileTree.writeWithParents_addsDirs hwrite).read, fun bytes hbytes => ?_⟩
        rw [hcaptured] at hbytes
        cases hbytes
        rw [hwrite]
      · cases h

theorem restoreEntries_putBack (restoredBytes : Nat)
    (t : Tree) (entries : List MemoryBackupFileEntry) :
    ∃ files t', PutBack lib manager encryptor backupDir t files t' ∧
      (∀ p, (manager.restoreEntries lib encryptor backupDir t restoredBytes entries).1.read p =
        t'.read p) ∧
      (((manager.restoreEntries lib encryptor backupDir t restoredBytes entries).2.isOk = true ∧
          files.map (·.entry) = entries) ∨
        ((manager.restoreEntries lib encryptor backupDir t restoredBytes entries).2.isOk = false ∧
          ∃ entry rest, entries = files.map (·.entry) ++ entry :: rest ∧
            Stops lib manager encryptor backupDir t' entry)) := by
  induction entries generalizing t restoredBytes with
  | nil => exact ⟨[], t, .nil t, fun _ => rfl, .inl ⟨rfl, rfl⟩⟩
  | cons entry entries ih =>
      unfold restoreEntries
      cases hentry : manager.restoreEntry lib encryptor backupDir t entry with
      | mk t₁ result =>
          cases result with
          | error err =>
              rcases restoreEntry_error hentry with ⟨hread, hstops⟩
              exact ⟨[], t, .nil t, hread, .inr ⟨rfl, entry, entries, rfl, hstops⟩⟩
          | ok bytes =>
              rcases restoreEntry_ok hentry with ⟨plaintext, q, hcaptured, hq, hread⟩
              rcases ih (restoredBytes + bytes) t₁ with ⟨files, t', hput, hsame, hend⟩
              refine ⟨⟨entry, q, plaintext⟩ :: files, t', .cons hcaptured hq hread hput, hsame, ?_⟩
              rcases hend with ⟨hok, hall⟩ | ⟨herr, next, rest, hsplit, hstops⟩
              · exact .inl ⟨hok, congrArg (entry :: ·) hall⟩
              · exact .inr ⟨herr, next, rest, congrArg (entry :: ·) hsplit, hstops⟩

/-! ## What is put back -/

theorem lastBytes_cons (file : RestoredFile) (files : List RestoredFile) (p : PlainPath) :
    lastBytes (file :: files) p =
      (lastBytes files p).or (if p = file.path then some file.bytes else none) := by
  unfold lastBytes
  rw [List.reverse_cons, List.find?_append]
  cases files.reverse.find? fun file => file.path = p with
  | some last => rfl
  | none =>
      by_cases h : p = file.path
      · simp [h]
      · simp [h, Ne.symm h]

theorem PutBack.read (h : PutBack lib manager encryptor backupDir t files t') (p : PlainPath) :
    t'.read p = (lastBytes files p).or (t.read p) := by
  induction h with
  | nil t => rfl
  | cons hcaptured hpath hread hrest ih =>
      rw [ih, lastBytes_cons, hread]
      cases lastBytes _ p with
      | some bytes => rfl
      | none =>
          split
          · rfl
          · rfl

theorem PutBack.confined (h : PutBack lib manager encryptor backupDir t files t') :
    ∀ file ∈ files, RawPath.Confined file.entry.relativePath →
      file.path = manager.storageRoot ++ (RawPath.ofText file.entry.relativePath).names := by
  induction h with
  | nil t => simp
  | cons hcaptured hpath hread hrest ih =>
      intro file hmem hconfined
      rcases List.mem_cons.mp hmem with rfl | hmem
      · unfold targetPath RawPath.join at hpath
        rw [hconfined.1, if_neg Bool.false_ne_true, FileTree.locate, FileTree.walk_append,
          FileTree.walk_raw, Option.bind_some] at hpath
        exact FileTree.eq_names_of_walk hpath hconfined.2
      · exact ih file hmem hconfined

/-! ## Payloads apart from what is put back -/

/-- No path goes up, and no entry is put back where a payload lies. -/
structure Apart (manager : SealedMemoryBackupManager) (backupDir : RawPath)
    (entries : List MemoryBackupFileEntry) : Prop where
  target : ∀ entry ∈ entries, PathStep.up ∉ manager.targetPath entry
  payload : ∀ entry ∈ entries, PathStep.up ∉ backupDir.join entry.payloadPath
  apart : ∀ entry ∈ entries, ∀ entry' ∈ entries,
    (manager.targetPath entry).names ≠ (backupDir.join entry'.payloadPath).names

/-- Then the payloads are what they were. -/
theorem PutBack.captured_eq (h : PutBack lib manager encryptor backupDir t files t')
    (hapart : Apart manager backupDir entries) (hfiles : ∀ file ∈ files, file.entry ∈ entries)
    {entry : MemoryBackupFileEntry} (hentry : entry ∈ entries) :
    captured lib encryptor backupDir t' entry = captured lib encryptor backupDir t entry := by
  induction h with
  | nil t => rfl
  | @cons t t₁ t₂ file files hcaptured hpath hread hrest ih =>
      rw [ih fun file hmem => hfiles file (List.mem_cons_of_mem _ hmem)]
      have hfile := hfiles file List.mem_cons_self
      have hplace : file.path = (manager.targetPath file.entry).names :=
        FileTree.eq_names_of_walk hpath (hapart.target _ hfile)
      unfold captured
      rw [FileTree.readAt_congr (hapart.payload entry hentry)]
      rw [hread, if_neg]
      rw [hplace]
      exact (hapart.apart _ hfile _ hentry).symm

/-! ## The dry run -/

theorem dryRun_none_iff (backupDir : RawPath) (t : Tree) (entries : List MemoryBackupFileEntry)
    (tally : DryRunTally) :
    let tally' := entries.foldl (dryRunEntry lib encryptor backupDir t) tally
    (tally'.missingPayloads = [] ∧ tally'.integrityMismatches = []) ↔
      (tally.missingPayloads = [] ∧ tally.integrityMismatches = []) ∧
        ∀ entry ∈ entries, (captured lib encryptor backupDir t entry).isSome = true := by
  induction entries generalizing tally with
  | nil => simp
  | cons entry entries ih =>
      have hentry : ((dryRunEntry lib encryptor backupDir t tally entry).missingPayloads = [] ∧
          (dryRunEntry lib encryptor backupDir t tally entry).integrityMismatches = []) ↔
          (tally.missingPayloads = [] ∧ tally.integrityMismatches = []) ∧
            (captured lib encryptor backupDir t entry).isSome = true := by
        unfold dryRunEntry captured
        cases t.readAt (backupDir.join entry.payloadPath) with
        | none => simp
        | some payload =>
            dsimp only [Option.bind_some]
            cases encryptor.decryptBytes lib payload with
            | none => simp
            | some plaintext =>
                by_cases hdigest : lib.digest plaintext = entry.sha256
                · simp [hdigest]
                · simp [hdigest]
      simp only [List.foldl_cons, List.forall_mem_cons]
      refine (ih _).trans ?_
      rw [hentry, and_assoc]

variable (lib manager encryptor)

def DryRunValid (t : Tree) (backupId : String) (now : DateTime) : Prop :=
  ∃ report, manager.dryRunRestorePoint lib encryptor t backupId now = .ok report ∧
    report.valid = true

variable {lib manager encryptor}

theorem dryRunValid_iff {backupId : String} {now : DateTime}
    {manifest : MemoryRestorePointManifest}
    (hinspect : manager.inspectRestorePoint lib t backupId = .ok manifest)
    (hcheck : checkManifest lib encryptor manifest = .ok ()) :
    DryRunValid lib manager encryptor t backupId now ↔
      ∀ entry ∈ manifest.files,
        (captured lib encryptor (manager.backupDir backupId) t entry).isSome = true := by
  have htally := @dryRun_none_iff lib encryptor (manager.backupDir backupId) t manifest.files {}
  simp only [true_and] at htally
  unfold DryRunValid dryRunRestorePoint
  rw [hinspect]
  dsimp only
  rw [hcheck]
  dsimp only
  rw [← htally]
  constructor
  · intro ⟨report, hreport, hvalid⟩
    cases hreport
    simpa using hvalid
  · intro hnone
    exact ⟨_, rfl, by simpa using hnone⟩

/-! ## Outcomes -/

variable (lib manager encryptor)

/-- The files that were put back, in the order of the manifest, and nothing else. -/
structure RestoredInOrder (t : Tree) (backupId : String) (manifest : MemoryRestorePointManifest)
    (outcome : Tree × Except BackupError MemoryRestoreReceipt) (files : List RestoredFile)
    (t' : Tree) : Prop where
  putBack : PutBack lib manager encryptor (manager.backupDir backupId) t files t'
  confined : ∀ file ∈ files, RawPath.Confined file.entry.relativePath →
    manager.storageRoot <+: file.path
  success : ∀ receipt, outcome.2 = .ok receipt →
    files.map (·.entry) = manifest.files ∧
      ∃ q, outcome.1.locate (receiptPath (manager.backupDir backupId) receipt.receiptId) = some q ∧
        ∀ p, outcome.1.read p = if p = q then some (lib.receiptBytes receipt) else t'.read p
  failure : ∀ err, outcome.2 = .error err →
    (∀ p, outcome.1.read p = t'.read p) ∧
      (files.map (·.entry) = manifest.files ∨
        ∃ entry rest, manifest.files = files.map (·.entry) ++ entry :: rest ∧
          Stops lib manager encryptor (manager.backupDir backupId) t' entry)

/-- The dry run and the restore find the same payloads. -/
structure DryRunAgrees (t : Tree) (backupId : String) (now : DateTime)
    (manifest : MemoryRestorePointManifest)
    (outcome : Tree × Except BackupError MemoryRestoreReceipt) (files : List RestoredFile)
    (t' : Tree) : Prop where
  captured : ∀ file ∈ files,
    captured lib encryptor (manager.backupDir backupId) t file.entry = some file.bytes
  success : outcome.2.isOk = true → DryRunValid lib manager encryptor t backupId now
  failure : DryRunValid lib manager encryptor t backupId now →
    ∀ entry rest, manifest.files = files.map (·.entry) ++ entry :: rest →
      ∃ bytes, SealedMemoryBackupManager.captured lib encryptor (manager.backupDir backupId) t'
        entry = some bytes

variable {lib manager encryptor}

theorem PutBack.captured_all {backupDir : RawPath}
    (h : PutBack lib manager encryptor backupDir t files t')
    (hapart : Apart manager backupDir entries) (hfiles : ∀ file ∈ files, file.entry ∈ entries) :
    ∀ file ∈ files, captured lib encryptor backupDir t file.entry = some file.bytes := by
  induction h with
  | nil t => simp
  | @cons t t₁ t₂ file files hcaptured hpath hread hrest ih =>
      intro file' hmem
      rcases List.mem_cons.mp hmem with rfl | hmem'
      · exact hcaptured
      · have hfirst : PutBack lib manager encryptor backupDir t [file] t₁ :=
          .cons hcaptured hpath hread (.nil t₁)
        have hone : ∀ f ∈ [file], f.entry ∈ entries := by
          intro f hf
          rw [List.mem_singleton.mp hf]
          exact hfiles file List.mem_cons_self
        rw [← hfirst.captured_eq hapart hone (hfiles file' hmem)]
        exact ih (fun f hf => hfiles f (List.mem_cons_of_mem _ hf)) file' hmem'

/-- A receipt is one more file, or none. -/
theorem writeReceipt_read (backupDir : RawPath) (t : Tree) (receipt : MemoryRestoreReceipt) :
    (∃ q, (writeReceipt lib backupDir t receipt).2 = .ok receipt ∧
      (writeReceipt lib backupDir t receipt).1.locate (receiptPath backupDir receipt.receiptId) =
        some q ∧
      ∀ p, (writeReceipt lib backupDir t receipt).1.read p =
        if p = q then some (lib.receiptBytes receipt) else t.read p) ∨
    ((writeReceipt lib backupDir t receipt).2 = .error .io ∧
      ∀ p, (writeReceipt lib backupDir t receipt).1.read p = t.read p) := by
  unfold writeReceipt
  have hdirs := t.createDirAll_addsDirs (receiptsDir backupDir)
  generalize t.createDirAll (receiptsDir backupDir) = made at hdirs
  rcases made with ⟨t₁, _ | _⟩
  · exact .inr ⟨rfl, hdirs.read⟩
  · dsimp only at hdirs ⊢
    split
    · exact .inr ⟨rfl, hdirs.read⟩
    · rename_i t₂ hwrite
      rcases FileTree.write_read hwrite with ⟨q, hq, hread⟩
      exact .inl ⟨q, rfl, hq, fun p => by rw [hread, hdirs.read]⟩

theorem PutBack.restoredInOrder {backupId receiptId : String} {now : DateTime}
    {manifest : MemoryRestorePointManifest}
    (hinspect : manager.inspectRestorePoint lib t backupId = .ok manifest)
    (hcheck : checkManifest lib encryptor manifest = .ok ()) :
    ∃ files t', RestoredInOrder lib manager encryptor t backupId manifest
      (manager.restoreRestorePoint lib encryptor t backupId receiptId now) files t' := by
  rcases @restoreEntries_putBack lib manager encryptor (manager.backupDir backupId) 0 t
    manifest.files with ⟨files, t', hput, hsame, hend⟩
  have hconfined : ∀ file ∈ files, RawPath.Confined file.entry.relativePath →
      manager.storageRoot <+: file.path := by
    intro file hfile hrelative
    rw [hput.confined file hfile hrelative]
    exact List.prefix_append _ _
  refine ⟨files, t', ?_⟩
  unfold restoreRestorePoint
  rw [hinspect]
  dsimp only
  rw [hcheck]
  dsimp only
  cases hentries : manager.restoreEntries lib encryptor (manager.backupDir backupId) t 0
      manifest.files with
  | mk t₁ result =>
      rw [hentries] at hsame hend
      cases result with
      | error err =>
          refine ⟨hput, hconfined, (fun receipt h => by cases h), fun err' _ => ⟨hsame, .inr ?_⟩⟩
          rcases hend with ⟨hok, -⟩ | ⟨-, hstops⟩
          · cases hok
          · exact hstops
      | ok bytes =>
          have hall : files.map (·.entry) = manifest.files := by
            rcases hend with ⟨-, hall⟩ | ⟨herr, -⟩
            · exact hall
            · cases herr
          rcases writeReceipt_read (manager.backupDir backupId) t₁ _ with
            ⟨q, hok, hq, hread⟩ | ⟨herr, hread⟩
          · refine ⟨hput, hconfined, fun receipt h => ⟨hall, q, ?_, fun p => ?_⟩, fun err h => ?_⟩
            · rw [hok] at h
              cases h
              exact hq
            · rw [hok] at h
              cases h
              rw [hread, hsame]
            · rw [hok] at h
              cases h
          · refine ⟨hput, hconfined, fun receipt h => ?_, fun err h => ⟨fun p => ?_, .inl hall⟩⟩
            · rw [herr] at h
              cases h
            · rw [hread, hsame]

theorem RestoredInOrder.dryRunAgrees {backupId : String} {now : DateTime}
    {manifest : MemoryRestorePointManifest}
    {outcome : Tree × Except BackupError MemoryRestoreReceipt}
    (h : RestoredInOrder lib manager encryptor t backupId manifest outcome files t')
    (hinspect : manager.inspectRestorePoint lib t backupId = .ok manifest)
    (hcheck : checkManifest lib encryptor manifest = .ok ())
    (hapart : Apart manager (manager.backupDir backupId) manifest.files) :
    DryRunAgrees lib manager encryptor t backupId now manifest outcome files t' := by
  have hfiles : ∀ file ∈ files, file.entry ∈ manifest.files := by
    intro file hfile
    have hmem : file.entry ∈ files.map (·.entry) := List.mem_map_of_mem hfile
    cases hresult : outcome.2 with
    | ok receipt =>
        rw [← (h.success receipt hresult).1]
        exact hmem
    | error err =>
        rcases (h.failure err hresult).2 with hall | ⟨entry, rest, hsplit, -⟩
        · rw [← hall]
          exact hmem
        · rw [hsplit]
          exact List.mem_append_left _ hmem
  have hcaptured := h.putBack.captured_all hapart hfiles
  constructor
  · exact hcaptured
  · intro hok
    rw [dryRunValid_iff hinspect hcheck]
    cases hresult : outcome.2 with
    | error err =>
        rw [hresult] at hok
        cases hok
    | ok receipt =>
        intro entry hentry
        rw [← (h.success receipt hresult).1] at hentry
        rcases List.mem_map.mp hentry with ⟨file, hfile, rfl⟩
        rw [hcaptured file hfile]
        rfl
  · intro hvalid entry rest hsplit
    rw [dryRunValid_iff hinspect hcheck] at hvalid
    have hentry : entry ∈ manifest.files := by simp [hsplit]
    rw [h.putBack.captured_eq hapart hfiles hentry]
    exact Option.isSome_iff_exists.mp (hvalid entry hentry)

/-- All captured files are there after a success, and no file is another after a failure. -/
def AllOrNothing (lib : BackupLibrary) (manager : SealedMemoryBackupManager)
    (encryptor : FactEncryptor) (t : Tree) (backupId receiptId : String) (now : DateTime) : Prop :=
  match manager.restoreRestorePoint lib encryptor t backupId receiptId now with
  | (t', .error _) => ∀ p, t'.read p = t.read p
  | (t', .ok _) => ∀ manifest, manager.inspectRestorePoint lib t backupId = .ok manifest →
      ∀ entry ∈ manifest.files, ∃ bytes,
        captured lib encryptor (manager.backupDir backupId) t entry = some bytes ∧
          t'.readAt (manager.targetPath entry) = some bytes

def BelowRoot (lib : BackupLibrary) (manager : SealedMemoryBackupManager)
    (encryptor : FactEncryptor) (t : Tree) (backupId receiptId : String) (now : DateTime) : Prop :=
  ∀ p, ¬manager.storageRoot <+: p →
    (manager.restoreRestorePoint lib encryptor t backupId receiptId now).1.read p = t.read p

def DryRunExact (lib : BackupLibrary) (manager : SealedMemoryBackupManager)
    (encryptor : FactEncryptor) (t : Tree) (backupId receiptId : String) (now : DateTime) : Prop :=
  DryRunValid lib manager encryptor t backupId now ↔
    (manager.restoreRestorePoint lib encryptor t backupId receiptId now).2.isOk = true

/-- A cipher that keeps its plaintext, and a manifest of two files. -/
def sampleLibrary (relativePath : String) : BackupLibrary where
  encrypt _ _ plaintext := some plaintext
  decrypt _ _ ciphertext := some ciphertext
  digest bytes := .ofList (bytes.map fun byte => Char.ofNat byte.toNat)
  manifestBytes _ := [1]
  parseManifest _ := some
    { backupId := "id", product := "BenShu", contractVersion := "1", createdAt := 0
      storageRootHint := "/agentos", encryptionKeyFingerprint := "", fileCount := 2
      totalBytes := 2
      files := [⟨"audit_log", relativePath, "payloads/audit.redb.sealed", 1, "A"⟩,
        ⟨"stm_hot", "stm.redb", "payloads/stm.redb.sealed", 1, "B"⟩] }
  receiptBytes _ := [2]

def sampleManager : SealedMemoryBackupManager where
  storageRoot := [⟨"agentos", by decide⟩]
  maxRestorePoints := 5

def samplePayload (byte : UInt8) : Bytes := List.replicate 12 0 ++ [byte]

def sampleTree (payloads : List (String × Bytes)) : Tree :=
  let dir := sampleManager.backupDir "id"
  (("manifest.json", [1]) :: payloads).foldl
    (fun t payload => (t.writeWithParents (dir.join payload.1) payload.2).1) .empty

def sampleFirst : String × Bytes := ("payloads/audit.redb.sealed", samplePayload 65)

def sampleSecond : String × Bytes := ("payloads/stm.redb.sealed", samplePayload 66)

theorem AllOrNothing.read_eq {backupId receiptId : String} {now : DateTime}
    (h : AllOrNothing lib manager encryptor t backupId receiptId now)
    (herror : (manager.restoreRestorePoint lib encryptor t backupId receiptId now).2.isOk = false)
    (p : PlainPath) :
    (manager.restoreRestorePoint lib encryptor t backupId receiptId now).1.read p = t.read p := by
  unfold AllOrNothing at h
  generalize manager.restoreRestorePoint lib encryptor t backupId receiptId now = outcome
    at h herror ⊢
  rcases outcome with ⟨t', _ | _⟩
  · exact h p
  · cases herror

theorem DryRunExact.isOk {backupId receiptId : String} {now : DateTime}
    (h : DryRunExact lib manager encryptor t backupId receiptId now)
    (hvalid : (manager.dryRunRestorePoint lib encryptor t backupId now).map (·.valid) = .ok true) :
    (manager.restoreRestorePoint lib encryptor t backupId receiptId now).2.isOk = true := by
  refine h.mp ?_
  unfold DryRunValid
  generalize manager.dryRunRestorePoint lib encryptor t backupId now = result at hvalid ⊢
  cases result with
  | error err => cases hvalid
  | ok report => exact ⟨report, rfl, Except.ok.inj hvalid⟩

end BenShu.Security.SealedMemoryBackupManager
