import BenShu.Security.Restoring

/-!
# Sealing the captured files

Where the names of the captured files have no backslash, every file gets a payload of its
own in the directory of the new restore point, and its entry captures what the file holds.
-/

namespace BenShu.Security

open Files

/-- What is sealed opens to the same bytes, and a manifest is parsed back. -/
structure BackupLibrary.Lawful (lib : BackupLibrary) : Prop where
  opens : ∀ key nonce plaintext ciphertext,
    lib.encrypt key nonce plaintext = some ciphertext →
      lib.decrypt key nonce ciphertext = some plaintext
  parses : ∀ manifest, lib.parseManifest (lib.manifestBytes manifest) = some manifest

/-! ## The path of a payload -/

/-- The name of a payload. -/
def sealedName (name : FileName) : FileName where
  text := name.text ++ ".sealed"
  valid := by
    have hlength : 7 ≤ (name.text ++ ".sealed").toList.length := by simp
    refine ⟨?_, ?_, ?_, ?_⟩
    · intro h
      rw [h] at hlength
      simp at hlength
    · intro h
      rw [h] at hlength
      simp at hlength
    · intro h
      rw [h] at hlength
      simp at hlength
    · rw [String.toList_append, List.mem_append, not_or]
      exact ⟨name.valid.2.2.2, by decide⟩

theorem sealedName_injective {name name' : FileName} (h : sealedName name = sealedName name') :
    name = name' := by
  have htext := congrArg (fun n => n.text.toList) h
  simp only [sealedName, String.toList_append] at htext
  rcases name with ⟨text, _⟩
  rcases name' with ⟨text', _⟩
  rw [FileName.mk.injEq]
  exact String.toList_injective (List.append_cancel_right htext)

/-- The path of a payload below the directory of the payloads. -/
def sealedPath : PlainPath → PlainPath
  | [] => []
  | [name] => [sealedName name]
  | name :: next :: path => name :: sealedPath (next :: path)

variable {path : PlainPath}

theorem sealedPath_ne_nil (h : path ≠ []) : sealedPath path ≠ [] := by
  cases path with
  | nil => exact absurd rfl h
  | cons name path => cases path <;> simp [sealedPath]

theorem sealedPath_injective {path' : PlainPath} (h : sealedPath path = sealedPath path') :
    path = path' := by
  induction path using sealedPath.induct generalizing path' with
  | case1 =>
      by_contra hne
      exact sealedPath_ne_nil (Ne.symm hne) h.symm
  | case2 name =>
      match path' with
      | [] => cases h
      | [name'] => rw [sealedName_injective (List.cons.inj h).1]
      | name' :: next :: path' =>
          exact absurd (List.cons.inj h).2.symm (sealedPath_ne_nil (List.cons_ne_nil _ _))
  | case3 name next path ih =>
      match path' with
      | [] => cases h
      | [name'] => exact absurd (List.cons.inj h).2 (sealedPath_ne_nil (List.cons_ne_nil _ _))
      | name' :: next' :: path' =>
          rcases List.cons.inj h with ⟨hname, hrest⟩
          rw [hname, ih hrest]

theorem text_cons {name : FileName} (h : path ≠ []) :
    PlainPath.text (name :: path) = name.text ++ "/" ++ PlainPath.text path := by
  unfold PlainPath.text
  rw [List.map_cons, String.intercalate_cons_of_ne_nil (by simpa using h)]

theorem text_sealedPath (h : path ≠ []) :
    PlainPath.text (sealedPath path) = PlainPath.text path ++ ".sealed" := by
  induction path using sealedPath.induct with
  | case1 => exact absurd rfl h
  | case2 name => simp [sealedPath, PlainPath.text, sealedName]
  | case3 name next path ih =>
      rw [sealedPath, text_cons (sealedPath_ne_nil (List.cons_ne_nil _ _)),
        ih (List.cons_ne_nil _ _), text_cons (List.cons_ne_nil _ _)]
      simp [String.append_assoc]

theorem mem_text {c : Char} (h : c ∈ (PlainPath.text path).toList) :
    c = '/' ∨ ∃ name ∈ path, c ∈ name.text.toList := by
  induction path with
  | nil => simp [PlainPath.text] at h
  | cons name path ih =>
      by_cases hne : path = []
      · subst hne
        exact .inr ⟨name, List.mem_cons_self, by simpa [PlainPath.text] using h⟩
      · rw [text_cons hne, String.toList_append, String.toList_append, List.mem_append,
          List.mem_append] at h
        rcases h with (hname | hslash) | hrest
        · exact .inr ⟨name, List.mem_cons_self, hname⟩
        · exact .inl (by simpa using hslash)
        · rcases ih hrest with hslash | ⟨name', hmem, hc⟩
          · exact .inl hslash
          · exact .inr ⟨name', List.mem_cons_of_mem _ hmem, hc⟩

namespace SealedMemoryBackupManager

variable {lib : BackupLibrary} {manager : SealedMemoryBackupManager} {encryptor : FactEncryptor}
  {t t' : Tree}

def NoBackslash (path : PlainPath) : Prop := ∀ name ∈ path, '\\' ∉ name.text.toList

theorem relativeText_eq {path : PlainPath} (h : NoBackslash path) :
    manager.relativeText (manager.storageRoot ++ path) = PlainPath.text path := by
  unfold relativeText
  rw [List.drop_left]
  have hchars : ∀ c ∈ (PlainPath.text path).toList, c ≠ '\\' := by
    intro c hc heq
    rcases mem_text hc with hslash | ⟨name, hname, hc⟩
    · rw [heq] at hslash
      cases hslash
    · exact h name hname (heq ▸ hc)
  have hmap : (PlainPath.text path).toList.map (fun c => if c = '\\' then '/' else c) =
      (PlainPath.text path).toList := by
    refine (List.map_congr_left fun c hc => ?_).trans (List.map_id _)
    rw [if_neg (hchars c hc)]
    rfl
  rw [hmap, String.ofList_toList]

/-! ## Targets -/

def relative (manager : SealedMemoryBackupManager) (target : BackupTarget) : PlainPath :=
  target.path.drop manager.storageRoot.length

/-- A target is a file below the storage root and outside the restore points. -/
structure IsTarget (manager : SealedMemoryBackupManager) (t : Tree) (target : BackupTarget) :
    Prop where
  path : target.path = manager.storageRoot ++ manager.relative target
  ne_nil : manager.relative target ≠ []
  head : ∀ rest, manager.relative target ≠ ⟨"data", by decide⟩ :: rest
  isFile : t.isFile target.path = true
  relativePath : target.relativePath = manager.relativeText target.path

theorem IsTarget.not_below (h : IsTarget manager t target) :
    ¬manager.restoreRoot <+: target.path := by
  intro hpre
  rw [h.path, restoreRoot, List.prefix_append_right_inj] at hpre
  rcases hpre with ⟨rest, hrest⟩
  exact h.head _ hrest.symm

theorem isTarget_of_path {name : FileName} {rest : PlainPath} {label : String}
    (hname : name.text ≠ "data") (hfile : t.isFile (manager.storageRoot ++ name :: rest) = true) :
    IsTarget manager t ⟨label, manager.storageRoot ++ name :: rest,
      manager.relativeText (manager.storageRoot ++ name :: rest)⟩ := by
  have hrelative : manager.relative ⟨label, manager.storageRoot ++ name :: rest,
      manager.relativeText (manager.storageRoot ++ name :: rest)⟩ = name :: rest :=
    List.drop_left
  constructor
  · rw [hrelative]
  · rw [hrelative]
    exact List.cons_ne_nil _ _
  · intro rest' heq
    rw [hrelative] at heq
    exact hname (congrArg FileName.text (List.cons.inj heq).1)
  · exact hfile
  · rfl

variable {target : BackupTarget}

theorem mem_fileTarget {label : String} {path : PlainPath}
    (h : target ∈ manager.fileTarget t label path) :
    target = ⟨label, path, manager.relativeText path⟩ ∧ t.isFile path = true := by
  unfold fileTarget at h
  split at h
  · rename_i hfile
    exact ⟨List.mem_singleton.mp h, hfile⟩
  · cases h

variable {targets : List BackupTarget}

theorem mem_directoryTargets {label : String} {directory : PlainPath}
    (h : manager.directoryTargets t label directory = .ok targets) (hmem : target ∈ targets) :
    ∃ name rest, target.path = directory ++ name :: rest ∧ t.isFile target.path = true ∧
      target.relativePath = manager.relativeText target.path := by
  unfold directoryTargets at h
  split at h
  · cases h
  · rename_i hdirectory
    cases h
    rcases List.mem_map.mp hmem with ⟨path, hpath, rfl⟩
    unfold FileTree.filesBelow at hpath
    rw [List.mem_filter, Bool.and_eq_true, List.isPrefixOf_iff_prefix] at hpath
    rcases hpath with ⟨-, ⟨rest, hrest⟩, hfile⟩
    cases rest with
    | nil =>
        rw [List.append_nil] at hrest
        exact absurd (hrest ▸ hfile) hdirectory
    | cons name rest => exact ⟨name, rest, hrest.symm, hfile, rfl⟩

theorem isTarget_of_mem (h : manager.discoverTargets t = .ok targets) (hmem : target ∈ targets) :
    IsTarget manager t target := by
  unfold discoverTargets at h
  split at h
  · cases h
  · rename_i searchTargets hsearch
    cases h
    have hone : ∀ label name, name.text ≠ "data" →
        target ∈ manager.fileTarget t label (manager.storageRoot ++ [name]) →
        IsTarget manager t target := by
      intro label name hname hmem
      rcases mem_fileTarget hmem with ⟨rfl, hfile⟩
      exact isTarget_of_path hname hfile
    simp only [List.mem_append] at hmem
    rcases hmem with ((hmem | hmem) | hmem) | hmem
    · exact hone _ _ (by decide) hmem
    · exact hone _ _ (by decide) hmem
    · exact hone _ _ (by decide) hmem
    · rcases mem_directoryTargets hsearch hmem with ⟨name, rest, hpath, hfile, hrelative⟩
      rcases target with ⟨label, path, relativePath⟩
      dsimp only at hpath hfile hrelative
      subst hpath hrelative
      unfold searchRoot at hfile ⊢
      rw [List.append_assoc] at hfile ⊢
      exact isTarget_of_path (by decide) hfile

theorem nodup_targets (h : manager.discoverTargets t = .ok targets) :
    (targets.map (·.path)).Nodup := by
  unfold discoverTargets at h
  split at h
  · cases h
  · rename_i searchTargets hsearch
    cases h
    have hone : ∀ label path, (manager.fileTarget t label path).map (·.path) =
        if t.isFile path then [path] else [] := by
      intro label path
      unfold fileTarget
      split <;> rfl
    have hbelow : ∀ path ∈ searchTargets.map (·.path), ∀ name,
        name.text ≠ "search" → path ≠ manager.storageRoot ++ [name] := by
      intro path hpath name hname heq
      rcases List.mem_map.mp hpath with ⟨target, htarget, rfl⟩
      rcases mem_directoryTargets hsearch htarget with ⟨_, _, hplace, -, -⟩
      rw [hplace, searchRoot, List.append_assoc, List.append_cancel_left_eq] at heq
      exact hname (congrArg FileName.text (List.cons.inj heq).1.symm)
    have hsearchNodup : (searchTargets.map (·.path)).Nodup := by
      unfold directoryTargets at hsearch
      split at hsearch
      · cases hsearch
      · cases hsearch
        rw [List.map_map]
        exact List.Nodup.map (fun _ _ h => h) (t.nodes.keys_nodup.filter _)
    have hmem : ∀ (path p : PlainPath), p ∈ (if t.isFile path then [path] else []) → p = path := by
      intro path p hp
      split at hp
      · exact List.mem_singleton.mp hp
      · cases hp
    have hsingle : ∀ path : PlainPath, (if t.isFile path then [path] else []).Nodup := by
      intro path
      split
      · exact List.nodup_singleton path
      · exact List.nodup_nil
    simp only [List.map_append, hone]
    refine List.nodup_append.mpr ⟨List.nodup_append.mpr ⟨List.nodup_append.mpr
      ⟨hsingle _, hsingle _, ?_⟩, hsingle _, ?_⟩, hsearchNodup, ?_⟩
    · intro p hp q hq
      rw [hmem _ p hp, hmem _ q hq]
      simp [stmPath, auditPath]
    · intro p hp q hq
      rw [hmem _ q hq]
      rcases List.mem_append.mp hp with hp | hp
      · rw [hmem _ p hp]
        simp [stmPath, experiencePath]
      · rw [hmem _ p hp]
        simp [auditPath, experiencePath]
    · intro p hp q hq
      rcases List.mem_append.mp hp with hp | hp
      · rcases List.mem_append.mp hp with hp | hp
        · rw [hmem _ p hp]
          exact (hbelow q hq _ (by decide)).symm
        · rw [hmem _ p hp]
          exact (hbelow q hq _ (by decide)).symm
      · rw [hmem _ p hp]
        exact (hbelow q hq _ (by decide)).symm

/-! ## Payloads -/

def payloadFile (manager : SealedMemoryBackupManager) (dir : PlainPath) (target : BackupTarget) :
    PlainPath := dir ++ payloadsName :: sealedPath (manager.relative target)

/-- The entry of a target that held some bytes. -/
def entryOf (lib : BackupLibrary) (target : BackupTarget) (plaintext : Bytes) :
    MemoryBackupFileEntry where
  label := target.label
  relativePath := target.relativePath
  payloadPath := s!"payloads/{target.relativePath}.sealed"
  sizeBytes := plaintext.length
  sha256 := lib.digest plaintext

theorem payloadPath_eq (htarget : IsTarget manager t target)
    (hplain : NoBackslash (manager.relative target)) (dir : PlainPath) :
    (PlainPath.raw dir).join s!"payloads/{target.relativePath}.sealed" =
      PlainPath.raw (manager.payloadFile dir target) := by
  have htext : s!"payloads/{target.relativePath}.sealed" =
      PlainPath.text (payloadsName :: sealedPath (manager.relative target)) := by
    rw [htarget.relativePath, htarget.path, relativeText_eq hplain,
      text_cons (sealedPath_ne_nil htarget.ne_nil), text_sealedPath htarget.ne_nil]
    have hslash : "payloads/" = payloadsName.text ++ "/" := by decide
    show "payloads/" ++ PlainPath.text (manager.relative target) ++ ".sealed" = _
    rw [hslash, String.append_assoc]
  rw [htext, RawPath.join_text (List.cons_ne_nil _ _)]
  simp [payloadFile, PlainPath.raw]

theorem targetPath_eq (htarget : IsTarget manager t target)
    (hplain : NoBackslash (manager.relative target)) (plaintext : Bytes) :
    manager.targetPath (entryOf lib target plaintext) = PlainPath.raw target.path := by
  unfold targetPath entryOf
  dsimp only
  rw [htarget.relativePath, htarget.path, relativeText_eq hplain,
    RawPath.join_text htarget.ne_nil]
  simp [PlainPath.raw]

variable {dir : PlainPath}

theorem payloadFile_injective {target' : BackupTarget} (htarget : IsTarget manager t target)
    (htarget' : IsTarget manager t target')
    (h : manager.payloadFile dir target = manager.payloadFile dir target') :
    target.path = target'.path := by
  have hrelative := sealedPath_injective (List.cons.inj (List.append_cancel_left h)).2
  rw [htarget.path, htarget'.path, hrelative]

/-- What was sealed opens again. -/
theorem decryptBytes_encryptBytes (nonce : Nonce) {plaintext payload : Bytes}
    (hlib : lib.Lawful)
    (h : encryptor.encryptBytes lib nonce plaintext = some payload) :
    encryptor.decryptBytes lib payload = some plaintext := by
  rcases nonce with ⟨nonce, hnonce⟩
  rcases Option.map_eq_some_iff.mp h with ⟨ciphertext, hencrypt, rfl⟩
  unfold FactEncryptor.decryptBytes
  rw [if_neg (by simp [hnonce]), List.take_left' hnonce, List.drop_left' hnonce]
  exact hlib.opens _ _ _ _ hencrypt

theorem captured_entryOf {plaintext payload : Bytes} (htarget : IsTarget manager t target)
    (hplain : NoBackslash (manager.relative target))
    (hread : t'.read (manager.payloadFile dir target) = some payload)
    (hdecrypt : encryptor.decryptBytes lib payload = some plaintext) :
    captured lib encryptor (PlainPath.raw dir) t' (entryOf lib target plaintext) =
      some plaintext := by
  refine captured_eq_some_iff.mpr ⟨payload, ?_, hdecrypt, rfl⟩
  show t'.readAt ((PlainPath.raw dir).join s!"payloads/{target.relativePath}.sealed") = _
  rw [payloadPath_eq htarget hplain, FileTree.readAt_raw, hread]

/-- Sealing a target writes its payload or nothing. -/
theorem sealTarget_spec (dir : PlainPath) (nonce : Nonce) (htarget : IsTarget manager t target)
    (hplain : NoBackslash (manager.relative target))
    {result : Except BackupError MemoryBackupFileEntry}
    (h : sealTarget lib encryptor (PlainPath.raw dir) t nonce target = (t', result)) :
    (∀ p, p ≠ manager.payloadFile dir target → t'.read p = t.read p) ∧
      ∀ entry, result = .ok entry → ∃ plaintext payload, t.read target.path = some plaintext ∧
        entry = entryOf lib target plaintext ∧
        t'.read (manager.payloadFile dir target) = some payload ∧
        encryptor.encryptBytes lib nonce plaintext = some payload := by
  unfold sealTarget at h
  cases hread : t.read target.path with
  | none =>
      rw [hread] at h
      cases h
      exact ⟨fun _ _ => rfl, nofun⟩
  | some plaintext =>
      rw [hread] at h
      dsimp only at h
      cases hencrypt : encryptor.encryptBytes lib nonce plaintext with
      | none =>
          rw [hencrypt] at h
          cases h
          exact ⟨fun _ _ => rfl, nofun⟩
      | some payload =>
          rw [hencrypt] at h
          dsimp only at h
          split at h
          · rename_i hwrite
            cases h
            exact ⟨fun p _ => (FileTree.writeWithParents_addsDirs hwrite).read p, nofun⟩
          · rename_i hwrite
            cases h
            rcases FileTree.writeWithParents_read hwrite with ⟨q, hq, hreads⟩
            rw [payloadPath_eq htarget hplain, FileTree.locate_raw] at hq
            cases hq
            refine ⟨fun p hp => by rw [hreads, if_neg hp], fun entry hentry => ?_⟩
            cases hentry
            exact ⟨plaintext, payload, rfl, rfl, by rw [hreads, if_pos rfl], hencrypt⟩

theorem IsTarget.of_read (h : IsTarget manager t target)
    (hread : t'.read target.path = t.read target.path) : IsTarget manager t' target where
  path := h.path
  ne_nil := h.ne_nil
  head := h.head
  isFile := by
    unfold FileTree.isFile
    rw [hread]
    exact h.isFile
  relativePath := h.relativePath

theorem IsTarget.ne_payloadFile {other : BackupTarget} (h : IsTarget manager t target)
    (hdir : manager.restoreRoot <+: dir) : target.path ≠ manager.payloadFile dir other := by
  intro heq
  exact h.not_below (heq ▸ hdir.trans (List.prefix_append dir _))

/-- Sealing the targets writes their payloads only, and all of them if it succeeds. -/
theorem sealTargets_spec (hlib : lib.Lawful) (hdir : manager.restoreRoot <+: dir)
    (nonces : Nat → Nonce) (targets : List BackupTarget) :
    ∀ (t t' : Tree) (entries : List MemoryBackupFileEntry)
      (result : Except BackupError (List MemoryBackupFileEntry)),
      (∀ target ∈ targets, IsTarget manager t target) →
      (∀ target ∈ targets, NoBackslash (manager.relative target)) →
      (targets.map (·.path)).Nodup →
      sealTargets lib encryptor (PlainPath.raw dir) nonces t entries targets = (t', result) →
      (∀ p, (∀ target ∈ targets, p ≠ manager.payloadFile dir target) → t'.read p = t.read p) ∧
        ∀ entries', result = .ok entries' →
          entries' = entries ++ targets.map
            (fun target => entryOf lib target ((t.read target.path).getD [])) ∧
          ∀ target ∈ targets, ∃ plaintext, t.read target.path = some plaintext ∧
            captured lib encryptor (PlainPath.raw dir) t' (entryOf lib target plaintext) =
              some plaintext := by
  induction targets with
  | nil =>
      intro t t' entries result _ _ _ h
      cases h
      refine ⟨fun _ _ => rfl, fun entries' h => ?_⟩
      cases h
      simp
  | cons target targets ih =>
      intro t t' entries result htargets hplain hnodup h
      rw [List.forall_mem_cons] at htargets hplain
      rw [List.map_cons, List.nodup_cons] at hnodup
      unfold sealTargets at h
      cases hfirst : sealTarget lib encryptor (PlainPath.raw dir) t (nonces entries.length)
          target with
      | mk t₁ first =>
          rcases sealTarget_spec dir _ htargets.1 hplain.1 hfirst with ⟨hframe, hok⟩
          rw [hfirst] at h
          cases first with
          | error err =>
              cases h
              refine ⟨fun p hp => hframe p (hp target List.mem_cons_self), nofun⟩
          | ok entry =>
              dsimp only at h
              rcases hok entry rfl with ⟨plaintext, payload, hread, rfl, hpayload, hencrypt⟩
              have hsame : ∀ other ∈ targets, t₁.read other.path = t.read other.path :=
                fun other hother => hframe _ ((htargets.2 other hother).ne_payloadFile hdir)
              rcases ih t₁ t' _ result
                (fun other hother => (htargets.2 other hother).of_read (hsame other hother))
                hplain.2 hnodup.2 h with ⟨hrest, hall⟩
              refine ⟨fun p hp => ?_, fun entries' hresult => ?_⟩
              · rw [hrest p fun other hother => hp other (List.mem_cons_of_mem _ hother)]
                exact hframe p (hp target List.mem_cons_self)
              · rcases hall entries' hresult with ⟨hentries, hcaptured⟩
                have hmap : targets.map
                    (fun other => entryOf lib other ((t₁.read other.path).getD [])) =
                    targets.map fun other => entryOf lib other ((t.read other.path).getD []) :=
                  List.map_congr_left fun other hother => by rw [hsame other hother]
                refine ⟨?_, ?_⟩
                · rw [hentries, hmap, List.map_cons, hread, Option.getD_some]
                  simp
                · rw [List.forall_mem_cons]
                  constructor
                  · refine ⟨plaintext, hread, ?_⟩
                    refine captured_entryOf htargets.1 hplain.1 ?_
                      (decryptBytes_encryptBytes _ hlib hencrypt)
                    rw [hrest, hpayload]
                    intro other hother heq
                    have hpath := payloadFile_injective htargets.1 (htargets.2 other hother) heq
                    exact hnodup.1 (List.mem_map.mpr ⟨other, hother, hpath.symm⟩)
                  · intro other hother
                    rcases hcaptured other hother with ⟨held, hheld, hcap⟩
                    exact ⟨held, (hsame other hother).symm.trans hheld, hcap⟩

end SealedMemoryBackupManager

end BenShu.Security
