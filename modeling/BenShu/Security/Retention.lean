import BenShu.Security.Sealing
import Mathlib.Data.Countable.Basic
import Mathlib.Logic.Equiv.List
import Mathlib.Logic.Function.Basic

/-!
# Retention of restore points

Where the clock moves forward and every restore point gets an identifier of its own, the
restore points that are kept are the newest, and all that they captured is restored.
-/

namespace BenShu.Security.SealedMemoryBackupManager

open Files
open Protocol (DateTime)

variable {lib : BackupLibrary} {manager : SealedMemoryBackupManager} {encryptor : FactEncryptor}
  {t t' : Tree}

/-- A restore point with the tree it was created from. -/
structure RestorePoint where
  manifest : MemoryRestorePointManifest
  tree : Tree

def pointDir (manager : SealedMemoryBackupManager) (name : FileName) : PlainPath :=
  manager.restoreRoot ++ [name]

/-- The newest of the restore points, of which there may be any number if there is no limit. -/
def retain (manager : SealedMemoryBackupManager) (points : List RestorePoint) :
    List RestorePoint :=
  if manager.maxRestorePoints = 0 then points else points.take manager.maxRestorePoints

/-- A restore point has all it captured. -/
structure Holds (lib : BackupLibrary) (manager : SealedMemoryBackupManager)
    (encryptor : FactEncryptor) (t : Tree) (point : RestorePoint) (name : FileName)
    (targets : List BackupTarget) : Prop where
  backupId : point.manifest.backupId = name.text
  version : point.manifest.contractVersion = Security.contractVersion
  fingerprint : point.manifest.encryptionKeyFingerprint = encryptor.fingerprint lib
  discovered : manager.discoverTargets point.tree = .ok targets
  plain : ∀ target ∈ targets, NoBackslash (manager.relative target)
  files : point.manifest.files.Perm (targets.map fun target =>
    entryOf lib target ((point.tree.read target.path).getD []))
  captured : ∀ target ∈ targets, ∃ plaintext, point.tree.read target.path = some plaintext ∧
    captured lib encryptor (PlainPath.raw (manager.pointDir name)) t
      (entryOf lib target plaintext) = some plaintext

/-- The directory of the restore points lists the points that are kept, the newest first. -/
structure Kept (lib : BackupLibrary) (manager : SealedMemoryBackupManager)
    (encryptor : FactEncryptor) (t : Tree) (points : List RestorePoint) : Prop where
  listed : ∀ name manifest,
    (t.read (manager.restoreRoot ++ [name, manifestName])).bind lib.parseManifest =
        some manifest ↔
      ∃ point ∈ points, point.manifest = manifest ∧ manifest.backupId = name.text
  sorted : points.Pairwise fun point older =>
    older.manifest.createdAt < point.manifest.createdAt
  holds : ∀ point ∈ points, ∃ name targets, Holds lib manager encryptor t point name targets

theorem backupDir_eq (name : FileName) :
    manager.backupDir name.text = PlainPath.raw (manager.pointDir name) := by
  have htext : name.text = PlainPath.text [name] := by simp [PlainPath.text]
  unfold backupDir pointDir
  rw [htext, RawPath.join_text (List.cons_ne_nil _ _)]
  simp [PlainPath.raw]

/-! ## Listing -/

theorem Kept.listRestorePoints_eq {points : List RestorePoint}
    (h : Kept lib manager encryptor t points) :
    manager.listRestorePoints lib t = points.map (·.manifest) := by
  have hread : ∀ name manifest,
      (t.read (manager.restoreRoot ++ [name, manifestName])).bind lib.parseManifest =
        some manifest → name ∈ t.children manager.restoreRoot := by
    intro name manifest hmanifest
    rcases Option.bind_eq_some_iff.mp hmanifest with ⟨data, hdata, -⟩
    rw [FileTree.mem_children_iff]
    have hbelow : (t.lookup (manager.restoreRoot ++ [name] ++ [manifestName])).isSome = true := by
      rw [List.append_assoc]
      exact Option.isSome_iff_exists.mpr ⟨_, FileTree.read_eq_some_iff.mp hdata⟩
    rw [FileTree.isDir_iff.mp (FileTree.isDir_of_append hbelow)]
    rfl
  have hnodup : (points.map (·.manifest)).Nodup := by
    refine List.pairwise_map.mpr (h.sorted.imp fun hlt heq => ?_)
    rw [heq] at hlt
    exact Int.lt_irrefl _ hlt
  have hperm : ((t.children manager.restoreRoot).filterMap fun name =>
      (t.read (manager.restoreRoot ++ [name, manifestName])).bind lib.parseManifest).Perm
      (points.map (·.manifest)) := by
    refine (List.perm_ext_iff_of_nodup ?_ hnodup).mpr fun manifest => ?_
    · refine (t.nodup_children _).filterMap fun name name' manifest hname hname' => ?_
      rcases (h.listed name manifest).mp hname with ⟨-, -, -, hid⟩
      rcases (h.listed name' manifest).mp hname' with ⟨-, -, -, hid'⟩
      rcases name with ⟨text, _⟩
      rcases name' with ⟨text', _⟩
      rw [FileName.mk.injEq]
      exact hid.symm.trans hid'
    · rw [List.mem_filterMap, List.mem_map]
      constructor
      · intro hmem
        rcases hmem with ⟨name, -, hname⟩
        rcases (h.listed name manifest).mp hname with ⟨point, hpoint, hmanifest, -⟩
        exact ⟨point, hpoint, hmanifest⟩
      · intro hmem
        rcases hmem with ⟨point, hpoint, hmanifest⟩
        rcases h.holds point hpoint with ⟨name, targets, hholds⟩
        have hname := (h.listed name manifest).mpr
          ⟨point, hpoint, hmanifest, hmanifest ▸ hholds.backupId⟩
        exact ⟨name, hread name manifest hname, hname⟩
  have hdistinct : points.Pairwise fun point point' =>
      point.manifest.createdAt ≠ point'.manifest.createdAt :=
    h.sorted.imp fun hlt => (Int.ne_of_lt hlt).symm
  have htotal : Std.Total NewestFirst := ⟨fun a b => Int.le_total b.createdAt a.createdAt⟩
  have htrans : IsTrans MemoryRestorePointManifest NewestFirst :=
    ⟨fun a b c hab hbc => Int.le_trans hbc hab⟩
  have hsorted : (points.map (·.manifest)).Pairwise NewestFirst :=
    List.pairwise_map.mpr (h.sorted.imp fun hlt => Int.le_of_lt hlt)
  unfold listRestorePoints
  refine List.Perm.eq_of_pairwise ?_ (List.pairwise_insertionSort NewestFirst _) hsorted
    ((List.perm_insertionSort NewestFirst _).trans hperm)
  intro a b ha hb hab hba
  rcases List.mem_map.mp (hperm.subset ((List.mem_insertionSort _).mp ha)) with ⟨point, hpoint, rfl⟩
  rcases List.mem_map.mp hb with ⟨point', hpoint', rfl⟩
  by_contra hne
  have : Std.Symm fun point point' : RestorePoint =>
      point.manifest.createdAt ≠ point'.manifest.createdAt := ⟨fun _ _ h => h.symm⟩
  refine hdistinct.forall hpoint hpoint' (fun heq => hne (by rw [heq])) ?_
  exact Int.le_antisymm hba hab

/-! ## What keeps restore points -/

theorem Holds.of_read {point : RestorePoint} {name : FileName} {targets : List BackupTarget}
    (h : Holds lib manager encryptor t point name targets)
    (hsame : ∀ p, manager.pointDir name ++ [payloadsName] <+: p → t'.read p = t.read p) :
    Holds lib manager encryptor t' point name targets := by
  refine ⟨h.backupId, h.version, h.fingerprint, h.discovered, h.plain, h.files, ?_⟩
  intro target htarget
  rcases h.captured target htarget with ⟨plaintext, hread, hcaptured⟩
  refine ⟨plaintext, hread, ?_⟩
  have hpath := payloadPath_eq (isTarget_of_mem h.discovered htarget) (h.plain target htarget)
    (manager.pointDir name)
  rcases captured_eq_some_iff.mp hcaptured with ⟨payload, hpayload, hrest⟩
  refine captured_eq_some_iff.mpr ⟨payload, ?_, hrest⟩
  unfold entryOf at hpayload ⊢
  dsimp only at hpayload ⊢
  rw [hpath, FileTree.readAt_raw] at hpayload ⊢
  have hbelow : manager.pointDir name ++ [payloadsName] <+:
      manager.payloadFile (manager.pointDir name) target :=
    ⟨sealedPath (manager.relative target), by simp [payloadFile]⟩
  rw [hsame _ hbelow, hpayload]

theorem Kept.of_read {points : List RestorePoint} (h : Kept lib manager encryptor t points)
    (hmanifest : ∀ name, t'.read (manager.restoreRoot ++ [name, manifestName]) =
      t.read (manager.restoreRoot ++ [name, manifestName]))
    (hpayload : ∀ point ∈ points, ∀ name, point.manifest.backupId = name.text →
      ∀ p, manager.pointDir name <+: p → t'.read p = t.read p) :
    Kept lib manager encryptor t' points where
  listed name manifest := by
    rw [hmanifest]
    exact h.listed name manifest
  sorted := h.sorted
  holds point hpoint := by
    rcases h.holds point hpoint with ⟨name, targets, hholds⟩
    exact ⟨name, targets, hholds.of_read fun p hp =>
      hpayload point hpoint name hholds.backupId p ((List.prefix_append _ _).trans hp)⟩

/-! ## Pruning -/

theorem FileName.eq_of_text {name name' : FileName} (h : name.text = name'.text) :
    name = name' := by
  rcases name with ⟨text, _⟩
  rcases name' with ⟨text', _⟩
  rw [FileName.mk.injEq]
  exact h

theorem pointDir_prefix_iff {name name' : FileName} {path : PlainPath} :
    manager.pointDir name <+: manager.restoreRoot ++ name' :: path ↔ name = name' := by
  unfold pointDir
  rw [List.prefix_append_right_inj, List.cons_prefix_cons]
  exact and_iff_left List.nil_prefix

/-- The path lies in the directory of one of the restore points. -/
def Below (manager : SealedMemoryBackupManager) (manifests : List MemoryRestorePointManifest)
    (p : PlainPath) : Prop :=
  ∃ manifest ∈ manifests, ∃ name : FileName,
    manifest.backupId = name.text ∧ manager.pointDir name <+: p

theorem read_eq_none_below {p q : PlainPath} (hnone : t.lookup p = none) (hpre : p <+: q) :
    t.read q = none := by
  rcases hpre with ⟨rest, rfl⟩
  cases hread : t.read (p ++ rest) with
  | none => rfl
  | some contents =>
      rw [FileTree.read_eq_some_iff] at hread
      cases rest with
      | nil =>
          rw [List.append_nil, hnone] at hread
          cases hread
      | cons next rest =>
          have hdir := FileTree.isDir_of_append (by rw [hread]; rfl)
          rw [FileTree.isDir_iff, hnone] at hdir
          cases hdir

/-- A directory that is there goes with all below it, and nothing else goes. -/
theorem removeRestorePoints_cons {manifest : MemoryRestorePointManifest} {name : FileName}
    (hid : manifest.backupId = name.text) (hnot : t.read (manager.pointDir name) = none)
    (manifests : List MemoryRestorePointManifest) :
    ∃ t₁, manager.removeRestorePoints t (manifest :: manifests) =
        manager.removeRestorePoints t₁ manifests ∧
      ∀ p, t₁.read p = if manager.pointDir name <+: p then none else t.read p := by
  rw [removeRestorePoints, hid, backupDir_eq]
  unfold FileTree.existsAt
  rw [FileTree.locate_raw]
  dsimp only
  by_cases hsome : (t.lookup (manager.pointDir name)).isSome = true
  · have hdir : t.isDir (manager.pointDir name) = true := by
      rcases Option.isSome_iff_exists.mp hsome with ⟨node, hnode⟩
      cases node with
      | dir => exact FileTree.isDir_iff.mpr hnode
      | file contents =>
          rw [FileTree.read_eq_some_iff.mpr hnode] at hnot
          cases hnot
    have hne : manager.pointDir name ≠ [] := by simp [pointDir]
    have hremove : t.removeDirAll (PlainPath.raw (manager.pointDir name)) =
        some (t.remove (manager.pointDir name) hne) := by
      unfold FileTree.removeDirAll
      rw [FileTree.locate_raw]
      dsimp only
      rw [dif_pos hne, if_pos hdir]
    rw [if_pos hsome, hremove]
    exact ⟨_, rfl, fun p => FileTree.read_remove hne⟩
  · rw [if_neg hsome]
    refine ⟨t, rfl, fun p => ?_⟩
    split
    · rename_i hpre
      exact read_eq_none_below (Option.not_isSome_iff_eq_none.mp hsome) hpre
    · rfl

/-- The directories of restore points are removed, and nothing else. -/
theorem removeRestorePoints_spec (manifests : List MemoryRestorePointManifest) :
    ∀ t : Tree, (∀ manifest ∈ manifests, ∃ name, manifest.backupId = FileName.text name ∧
        t.read (manager.pointDir name) = none) →
      ∃ t', manager.removeRestorePoints t manifests = (t', .ok ()) ∧
        (∀ p, Below manager manifests p → t'.read p = none) ∧
        ∀ p, ¬Below manager manifests p → t'.read p = t.read p := by
  induction manifests with
  | nil =>
      intro t _
      refine ⟨t, rfl, fun p hbelow => ?_, fun p _ => rfl⟩
      rcases hbelow with ⟨_, hmem, -⟩
      cases hmem
  | cons manifest manifests ih =>
      intro t hnamed
      rw [List.forall_mem_cons] at hnamed
      rcases hnamed with ⟨⟨name, hid, hnot⟩, hrest⟩
      rcases removeRestorePoints_cons hid hnot manifests with ⟨t₁, heq, hread₁⟩
      rcases ih t₁ (fun other hother => by
        rcases hrest other hother with ⟨name', hid', hnot'⟩
        refine ⟨name', hid', ?_⟩
        rw [hread₁]
        split
        · rfl
        · exact hnot') with ⟨t', hremoved, hgone, hsame⟩
      refine ⟨t', heq.trans hremoved, fun p hbelow => ?_, fun p hbelow => ?_⟩
      · by_cases hold : Below manager manifests p
        · exact hgone p hold
        · rcases hbelow with ⟨other, hother, name', hname', hp⟩
          rcases List.mem_cons.mp hother with rfl | hother
          · rw [hsame p hold, hread₁, FileName.eq_of_text (hid.symm.trans hname'), if_pos hp]
          · exact absurd ⟨other, hother, name', hname', hp⟩ hold
      · have hold : ¬Below manager manifests p := by
          intro hold
          rcases hold with ⟨other, hother, hname⟩
          exact hbelow ⟨other, List.mem_cons_of_mem _ hother, hname⟩
        have hfirst : ¬manager.pointDir name <+: p := fun hp =>
          hbelow ⟨manifest, List.mem_cons_self, name, hid, hp⟩
        rw [hsame p hold, hread₁, if_neg hfirst]

theorem eq_of_pointDir_above {name name' : FileName} {p : PlainPath}
    (h : manager.pointDir name <+: p) (h' : manager.pointDir name' <+: p) : name = name' := by
  have hsame : manager.pointDir name = manager.pointDir name' :=
    List.IsPrefix.eq_of_length (List.prefix_of_prefix_length_le h h' (by simp [pointDir]))
      (by simp [pointDir])
  exact (List.cons.inj (List.append_cancel_left hsame)).1

section Kept

variable {points : List RestorePoint} {point point' : RestorePoint} {name : FileName}

theorem Kept.read_manifest (h : Kept lib manager encryptor t points) (hpoint : point ∈ points)
    (hid : point.manifest.backupId = name.text) :
    (t.read (manager.restoreRoot ++ [name, manifestName])).bind lib.parseManifest =
      some point.manifest := (h.listed name _).mpr ⟨point, hpoint, rfl, hid⟩

theorem Kept.isDir (h : Kept lib manager encryptor t points) (hpoint : point ∈ points)
    (hid : point.manifest.backupId = name.text) : t.isDir (manager.pointDir name) = true := by
  rcases Option.bind_eq_some_iff.mp (h.read_manifest hpoint hid) with ⟨data, hdata, -⟩
  refine @FileTree.isDir_of_append _ _ _ manifestName [] ?_
  rw [pointDir, List.append_assoc]
  exact Option.isSome_iff_exists.mpr ⟨_, FileTree.read_eq_some_iff.mp hdata⟩

theorem Kept.eq_manifest (h : Kept lib manager encryptor t points) (hpoint : point ∈ points)
    (hpoint' : point' ∈ points) (hid : point.manifest.backupId = name.text)
    (hid' : point'.manifest.backupId = name.text) : point.manifest = point'.manifest := by
  have hread := h.read_manifest hpoint hid
  rw [h.read_manifest hpoint' hid'] at hread
  exact (Option.some.inj hread).symm

theorem Kept.prune (h : Kept lib manager encryptor t points) :
    ∃ t', manager.pruneOldRestorePoints lib t = (t', .ok ()) ∧
      Kept lib manager encryptor t' (manager.retain points) := by
  unfold pruneOldRestorePoints retain
  by_cases hmax : manager.maxRestorePoints = 0
  · rw [if_pos hmax, if_pos hmax]
    exact ⟨t, rfl, h⟩
  rw [if_neg hmax, if_neg hmax, h.listRestorePoints_eq, ← List.map_drop]
  generalize manager.maxRestorePoints = limit
  have hold : ∀ point ∈ points.drop limit, point ∈ points :=
    fun point hpoint => List.mem_of_mem_drop hpoint
  have hnew : ∀ point ∈ points.take limit, point ∈ points :=
    fun point hpoint => List.mem_of_mem_take hpoint
  have hsplit : ∀ point ∈ points.take limit, ∀ old ∈ points.drop limit,
      old.manifest.createdAt < point.manifest.createdAt := by
    have hsorted := h.sorted
    rw [← List.take_append_drop limit points, List.pairwise_append] at hsorted
    exact hsorted.2.2
  rcases removeRestorePoints_spec ((points.drop limit).map (·.manifest)) t (fun manifest hmem => by
    rcases List.mem_map.mp hmem with ⟨point, hpoint, rfl⟩
    rcases h.holds point (hold point hpoint) with ⟨name, targets, hholds⟩
    exact ⟨name, hholds.backupId, FileTree.read_eq_none_of_isDir
      (h.isDir (hold point hpoint) hholds.backupId)⟩) with ⟨t', hremoved, hgone, hsame⟩
  -- what lies in the directory of a newer restore point stays
  have hkeep : ∀ point ∈ points.take limit, ∀ name, point.manifest.backupId = name.text →
      ∀ p, manager.pointDir name <+: p → t'.read p = t.read p := by
    intro point hpoint name hid p hp
    refine hsame p fun hbelow => ?_
    rcases hbelow with ⟨manifest, hmem, name', hid', hp'⟩
    rcases List.mem_map.mp hmem with ⟨old, hold', rfl⟩
    rw [← eq_of_pointDir_above hp hp'] at hid'
    have heq := h.eq_manifest (hnew point hpoint) (hold old hold') hid hid'
    have hlt := hsplit point hpoint old hold'
    rw [heq] at hlt
    exact Int.lt_irrefl _ hlt
  refine ⟨t', hremoved, ?_, h.sorted.sublist (List.take_sublist _ _), ?_⟩
  · intro name manifest
    constructor
    · intro hread
      have hnot : ¬Below manager ((points.drop limit).map (·.manifest))
          (manager.restoreRoot ++ [name, manifestName]) := by
        intro hbelow
        rw [hgone _ hbelow] at hread
        cases hread
      rw [hsame _ hnot] at hread
      rcases (h.listed name manifest).mp hread with ⟨point, hpoint, rfl, hid⟩
      rw [← List.take_append_drop limit points] at hpoint
      rcases List.mem_append.mp hpoint with hpoint | hpoint
      · exact ⟨point, hpoint, rfl, hid⟩
      · exact absurd ⟨_, List.mem_map_of_mem hpoint, name, hid, pointDir_prefix_iff.mpr rfl⟩ hnot
    · intro hkept
      rcases hkept with ⟨point, hpoint, rfl, hid⟩
      rw [hkeep point hpoint name hid _ (pointDir_prefix_iff.mpr rfl)]
      exact h.read_manifest (hnew point hpoint) hid
  · intro point hpoint
    rcases h.holds point (hnew point hpoint) with ⟨name, targets, hholds⟩
    exact ⟨name, targets, hholds.of_read fun p hp =>
      hkeep point hpoint name hholds.backupId p ((List.prefix_append _ _).trans hp)⟩

end Kept

/-! ## Creating -/

theorem Kept.ne_of_fresh {points : List RestorePoint} {point : RestorePoint}
    {name name' : FileName} (h : Kept lib manager encryptor t points)
    (hfresh : t.lookup (manager.pointDir name) = none) (hpoint : point ∈ points)
    (hid : point.manifest.backupId = name'.text) : name' ≠ name := by
  intro heq
  have hdir := h.isDir hpoint hid
  rw [heq, FileTree.isDir_iff, hfresh] at hdir
  cases hdir

/-- What is written below a new directory, apart from a manifest, leaves the restore points
as they are. -/
theorem Kept.of_fresh {points : List RestorePoint} {name : FileName}
    (h : Kept lib manager encryptor t points)
    (hfresh : t.lookup (manager.pointDir name) = none)
    (hsame : ∀ p, ¬manager.pointDir name ++ [payloadsName] <+: p → t'.read p = t.read p) :
    Kept lib manager encryptor t' points := by
  refine h.of_read (fun name' => hsame _ ?_) fun point hpoint name' hid p hp => hsame p ?_
  · unfold pointDir
    rw [List.append_assoc, List.prefix_append_right_inj]
    simp [payloadsName, manifestName, List.cons_prefix_cons]
  · intro hbelow
    exact h.ne_of_fresh hfresh hpoint hid
      (eq_of_pointDir_above hp ((List.prefix_append _ _).trans hbelow))

/-- A restore point whose payloads are written is kept once its manifest is. -/
theorem Kept.cons {t₂ : Tree} {points : List RestorePoint} {point : RestorePoint}
    {name : FileName} {targets : List BackupTarget} (hlib : lib.Lawful)
    (h : Kept lib manager encryptor t points)
    (hfresh : t.lookup (manager.pointDir name) = none)
    (hsame : ∀ p, ¬manager.pointDir name ++ [payloadsName] <+: p → t₂.read p = t.read p)
    (hlater : ∀ older ∈ points, older.manifest.createdAt < point.manifest.createdAt)
    (hholds : Holds lib manager encryptor t₂ point name targets)
    (hwrite : ∀ p, t'.read p = if p = manager.pointDir name ++ [manifestName] then
      some (lib.manifestBytes point.manifest) else t₂.read p) :
    Kept lib manager encryptor t' (point :: points) := by
  have hkept := h.of_fresh hfresh hsame
  have hother : ∀ name' ≠ name, ∀ p, manager.pointDir name' <+: p → t'.read p = t₂.read p := by
    intro name' hne p hp
    rw [hwrite, if_neg]
    intro heq
    rw [heq] at hp
    exact hne (eq_of_pointDir_above hp (List.prefix_append _ _))
  refine ⟨fun name' manifest => ?_, ?_, ?_⟩
  · by_cases hname : name' = name
    · subst hname
      have hread : t'.read (manager.restoreRoot ++ [name', manifestName]) =
          some (lib.manifestBytes point.manifest) := by
        rw [hwrite, if_pos (by simp [pointDir])]
      rw [hread, Option.bind_some, hlib.parses, Option.some_inj]
      constructor
      · intro heq
        exact ⟨point, List.mem_cons_self, heq, heq ▸ hholds.backupId⟩
      · intro hsome
        rcases hsome with ⟨other, hmem, rfl, hid⟩
        rcases List.mem_cons.mp hmem with rfl | hmem
        · rfl
        · exact absurd rfl (h.ne_of_fresh hfresh hmem hid)
    · rw [hother name' hname _ (pointDir_prefix_iff.mpr rfl), hkept.listed]
      constructor
      · intro hsome
        rcases hsome with ⟨other, hmem, hmanifest⟩
        exact ⟨other, List.mem_cons_of_mem _ hmem, hmanifest⟩
      · intro hsome
        rcases hsome with ⟨other, hmem, rfl, hid⟩
        rcases List.mem_cons.mp hmem with rfl | hmem
        · exact absurd (FileName.eq_of_text (hid.symm.trans hholds.backupId)) hname
        · exact ⟨other, hmem, rfl, hid⟩
  · exact List.pairwise_cons.mpr ⟨hlater, h.sorted⟩
  · rw [List.forall_mem_cons]
    constructor
    · refine ⟨name, targets, hholds.of_read fun p hp => ?_⟩
      rw [hwrite, if_neg]
      rintro rfl
      rw [List.prefix_append_right_inj] at hp
      simp [payloadsName, manifestName, List.cons_prefix_cons] at hp
    · intro other hmem
      rcases hkept.holds other hmem with ⟨name', targets', hother'⟩
      have hne := h.ne_of_fresh hfresh hmem hother'.backupId
      exact ⟨name', targets', hother'.of_read fun p hp =>
        hother name' hne p ((List.prefix_append _ _).trans hp)⟩

/-- A new restore point comes before the others if it is complete, and leaves them as they are
if it is not. -/
theorem Kept.create (hlib : lib.Lawful) {points : List RestorePoint} {seed : RestorePointSeed}
    {name : FileName} (h : Kept lib manager encryptor t points) (hid : seed.backupId = name.text)
    (hfresh : t.lookup (manager.pointDir name) = none)
    (hlater : ∀ point ∈ points, point.manifest.createdAt < seed.createdAt)
    (hplain : ∀ targets, manager.discoverTargets t = .ok targets →
      ∀ target ∈ targets, NoBackslash (manager.relative target)) :
    (∃ manifest t', manager.createRestorePoint lib encryptor t seed = (t', .ok manifest) ∧
        Kept lib manager encryptor t' (manager.retain (⟨manifest, t⟩ :: points))) ∨
      (∃ err t', manager.createRestorePoint lib encryptor t seed = (t', .error err) ∧
        Kept lib manager encryptor t' points) := by
  unfold createRestorePoint
  cases hdiscover : manager.discoverTargets t with
  | error err => exact .inr ⟨err, t, rfl, h⟩
  | ok targets =>
      dsimp only
      split
      · exact .inr ⟨_, t, rfl, h⟩
      rw [hid, backupDir_eq]
      have hdirs := t.createDirAll_addsDirs
        (PlainPath.raw (manager.pointDir name) ++ [.name payloadsName])
      generalize t.createDirAll (PlainPath.raw (manager.pointDir name) ++ [.name payloadsName]) =
        made at hdirs
      rcases made with ⟨t₁, _ | _⟩
      · exact .inr ⟨_, t₁, rfl, h.of_fresh hfresh fun p _ => hdirs.read p⟩
      dsimp only at hdirs ⊢
      cases hseal : sealTargets lib encryptor (PlainPath.raw (manager.pointDir name)) seed.nonces
          t₁ [] targets with
      | mk t₂ result =>
          have htargets : ∀ target ∈ targets, IsTarget manager t₁ target := fun target hmem =>
            (isTarget_of_mem hdiscover hmem).of_read (hdirs.read target.path)
          have hdir : manager.restoreRoot <+: manager.pointDir name := List.prefix_append _ _
          rcases sealTargets_spec hlib hdir seed.nonces targets t₁ t₂ [] result htargets
            (hplain targets hdiscover) (nodup_targets hdiscover) hseal with
            ⟨hframe, hsealed⟩
          have hsame : ∀ p, ¬manager.pointDir name ++ [payloadsName] <+: p →
              t₂.read p = t.read p := by
            intro p hp
            rw [hframe p, hdirs.read]
            rintro target - rfl
            exact hp ⟨sealedPath (manager.relative target), by simp [payloadFile]⟩
          have hkept := h.of_fresh hfresh hsame
          cases result with
          | error err => exact .inr ⟨err, t₂, rfl, hkept⟩
          | ok entries =>
              dsimp only
              rcases hsealed entries rfl with ⟨hentries, hcaptured⟩
              have hraw : PlainPath.raw (manager.pointDir name) ++ [.name manifestName] =
                  PlainPath.raw (manager.pointDir name ++ [manifestName]) := by
                simp [PlainPath.raw]
              rw [hraw]
              split
              · exact .inr ⟨_, t₂, rfl, hkept⟩
              · rename_i t₃ hwrite
                rcases FileTree.write_read hwrite with ⟨q, hq, hread⟩
                rw [FileTree.locate_raw] at hq
                cases hq
                have hholds : Holds lib manager encryptor t₂
                    ⟨manager.manifestOf lib encryptor seed entries, t⟩ name targets := by
                  refine ⟨hid, rfl, rfl, hdiscover, hplain targets hdiscover, ?_, ?_⟩
                  · refine (List.perm_insertionSort PathOrder _).trans (List.Perm.of_eq ?_)
                    rw [hentries, List.nil_append]
                    exact List.map_congr_left fun target _ => by rw [hdirs.read]
                  · intro target hmem
                    rcases hcaptured target hmem with ⟨plaintext, hplaintext, hcap⟩
                    exact ⟨plaintext, by rw [← hdirs.read]; exact hplaintext, hcap⟩
                have hnew := h.cons hlib hfresh hsame hlater hholds hread
                rcases hnew.prune with ⟨t₄, hprune, hretained⟩
                rw [hprune]
                exact .inl ⟨_, t₄, rfl, hretained⟩

/-! ## Restoring what is kept -/

/-- Entries whose payloads are in order and whose files can be written are all put back. -/
theorem restoreEntries_isOk {backupDir : RawPath} {all : List MemoryBackupFileEntry}
    (hapart : Apart manager backupDir all)
    (hraw : ∀ entry ∈ all, ∃ p name, manager.targetPath entry = PlainPath.raw (p ++ [name]))
    (hpre : ∀ entry ∈ all, ∀ entry' ∈ all,
      (manager.targetPath entry).names <+: (manager.targetPath entry').names →
      (manager.targetPath entry).names = (manager.targetPath entry').names)
    (entries : List MemoryBackupFileEntry) (hsub : entries ⊆ all) :
    ∀ (t : Tree) (restoredBytes : Nat),
      (entries.map fun entry => (manager.targetPath entry).names).Nodup →
      (∀ entry ∈ entries, (captured lib encryptor backupDir t entry).isSome = true) →
      (∀ entry ∈ entries, t.Free (manager.targetPath entry).names) →
      ∃ t' bytes, manager.restoreEntries lib encryptor backupDir t restoredBytes entries =
          (t', .ok bytes) ∧
        ∀ p, t.Free p → (∀ entry ∈ entries, ¬(manager.targetPath entry).names <+: p ∧
          ¬p <+: (manager.targetPath entry).names) → t'.Free p := by
  induction entries with
  | nil =>
      intro t restoredBytes _ _ _
      exact ⟨t, restoredBytes, rfl, fun p hp _ => hp⟩
  | cons entry entries ih =>
      intro t restoredBytes hnodup hcaptured hfree
      rw [List.map_cons, List.nodup_cons] at hnodup
      rw [List.forall_mem_cons] at hcaptured hfree
      rcases Option.isSome_iff_exists.mp hcaptured.1 with ⟨plaintext, hplaintext⟩
      have hentry : entry ∈ all := hsub List.mem_cons_self
      have hrest : entries ⊆ all := fun other hother => hsub (List.mem_cons_of_mem _ hother)
      rcases hraw entry hentry with ⟨p, name, hpath⟩
      have hnames : (manager.targetPath entry).names = p ++ [name] := by
        rw [hpath, RawPath.names_raw]
      have hfirst := hfree.1
      rw [hnames] at hfirst
      rcases FileTree.writeWithParents_of_free plaintext hfirst with ⟨t₁, hwrite, hdirs⟩
      rcases FileTree.writeWithParents_read hwrite with ⟨q, hq, hread⟩
      have hlocate := hq
      rw [FileTree.locate_raw] at hq
      cases hq
      have hput : PutBack lib manager encryptor backupDir t [⟨entry, p ++ [name], plaintext⟩] t₁ :=
        .cons hplaintext (by rw [hpath]; exact hlocate) hread (.nil t₁)
      have hone : ∀ file ∈ [RestoredFile.mk entry (p ++ [name]) plaintext], file.entry ∈ all := by
        intro file hfile
        rw [List.mem_singleton.mp hfile]
        exact hentry
      have hapartPaths : ∀ other ∈ entries, ¬p ++ [name] <+: (manager.targetPath other).names ∧
          ¬(manager.targetPath other).names <+: p ++ [name] := by
        intro other hother
        have hne : (manager.targetPath other).names ≠ p ++ [name] := by
          intro heq
          exact hnodup.1 (List.mem_map.mpr ⟨other, hother, heq.trans hnames.symm⟩)
        rw [← hnames] at hne ⊢
        exact ⟨fun h => hne (hpre _ hentry _ (hrest hother) h).symm,
          fun h => hne (hpre _ (hrest hother) _ hentry h)⟩
      rcases ih hrest t₁ (restoredBytes + plaintext.length) hnodup.2
        (fun other hother => by
          rw [hput.captured_eq hapart hone (hrest hother)]
          exact hcaptured.2 other hother)
        (fun other hother => (hfree.2 other hother).write hread hdirs
          (hapartPaths other hother).1 (hapartPaths other hother).2) with
        ⟨t', bytes, hrestored, hfree'⟩
      refine ⟨t', bytes, ?_, fun r hr hapart' => ?_⟩
      · unfold restoreEntries
        rw [restoreEntry_of_captured hplaintext, hpath, hwrite]
        exact hrestored
      · rw [List.forall_mem_cons, hnames] at hapart'
        exact hfree' r (hr.write hread hdirs hapart'.1.1 hapart'.1.2) hapart'.2

section Restoring

variable {points : List RestorePoint} {point : RestorePoint} {name : FileName}
  {targets : List BackupTarget} {entry : MemoryBackupFileEntry}

theorem Holds.mem_files_iff (h : Holds lib manager encryptor t point name targets) :
    entry ∈ point.manifest.files ↔ ∃ target ∈ targets, ∃ plaintext,
      point.tree.read target.path = some plaintext ∧ entry = entryOf lib target plaintext := by
  rw [h.files.mem_iff, List.mem_map]
  constructor
  · intro hmem
    rcases hmem with ⟨target, htarget, rfl⟩
    rcases h.captured target htarget with ⟨plaintext, hread, -⟩
    exact ⟨target, htarget, plaintext, hread, by rw [hread]; rfl⟩
  · intro hmem
    rcases hmem with ⟨target, htarget, plaintext, hread, rfl⟩
    exact ⟨target, htarget, by rw [hread]; rfl⟩

theorem Holds.captured_of_mem (h : Holds lib manager encryptor t point name targets)
    {target : BackupTarget} {plaintext : Bytes} (htarget : target ∈ targets)
    (hread : point.tree.read target.path = some plaintext) :
    SealedMemoryBackupManager.captured lib encryptor (manager.backupDir point.manifest.backupId) t
      (entryOf lib target plaintext) = some plaintext := by
  rcases h.captured target htarget with ⟨held, hheld, hcaptured⟩
  rw [hread] at hheld
  cases hheld
  rw [h.backupId, backupDir_eq]
  exact hcaptured

theorem Holds.targetPath_eq (h : Holds lib manager encryptor t point name targets)
    {target : BackupTarget} (htarget : target ∈ targets) (plaintext : Bytes) :
    manager.targetPath (entryOf lib target plaintext) = PlainPath.raw target.path :=
  SealedMemoryBackupManager.targetPath_eq (isTarget_of_mem h.discovered htarget)
    (h.plain target htarget) plaintext

theorem Holds.apart (h : Holds lib manager encryptor t point name targets) :
    Apart manager (manager.backupDir point.manifest.backupId) point.manifest.files := by
  have hpayload : ∀ target ∈ targets, ∀ plaintext,
      (manager.backupDir point.manifest.backupId).join (entryOf lib target plaintext).payloadPath =
        PlainPath.raw (manager.payloadFile (manager.pointDir name) target) := by
    intro target htarget plaintext
    rw [h.backupId, backupDir_eq]
    exact payloadPath_eq (isTarget_of_mem h.discovered htarget) (h.plain target htarget) _
  constructor
  · intro entry hentry
    rcases h.mem_files_iff.mp hentry with ⟨target, htarget, plaintext, -, rfl⟩
    rw [h.targetPath_eq htarget]
    exact RawPath.up_notMem_raw _
  · intro entry hentry
    rcases h.mem_files_iff.mp hentry with ⟨target, htarget, plaintext, -, rfl⟩
    rw [hpayload target htarget]
    exact RawPath.up_notMem_raw _
  · intro entry hentry entry' hentry'
    rcases h.mem_files_iff.mp hentry with ⟨target, htarget, plaintext, -, rfl⟩
    rcases h.mem_files_iff.mp hentry' with ⟨target', htarget', plaintext', -, rfl⟩
    rw [h.targetPath_eq htarget, hpayload target' htarget', RawPath.names_raw, RawPath.names_raw]
    exact (isTarget_of_mem h.discovered htarget).ne_payloadFile (List.prefix_append _ _)

theorem Kept.inspect (h : Kept lib manager encryptor t points) (hpoint : point ∈ points)
    (hid : point.manifest.backupId = name.text) :
    manager.inspectRestorePoint lib t point.manifest.backupId = .ok point.manifest := by
  have hread := h.read_manifest hpoint hid
  have hraw : PlainPath.raw (manager.pointDir name) ++ [.name manifestName] =
      PlainPath.raw (manager.restoreRoot ++ [name, manifestName]) := by
    simp [PlainPath.raw, pointDir]
  unfold inspectRestorePoint
  rw [hid, backupDir_eq, hraw, FileTree.readAt_raw]
  rcases Option.bind_eq_some_iff.mp hread with ⟨data, hdata, hparse⟩
  rw [hdata]
  dsimp only
  rw [hparse]

theorem Holds.check (h : Holds lib manager encryptor t point name targets) :
    checkManifest lib encryptor point.manifest = .ok () := by
  unfold checkManifest
  rw [if_neg (not_not.mpr h.version), if_neg (not_not.mpr h.fingerprint)]

theorem Kept.dryRunValid (h : Kept lib manager encryptor t points) (hpoint : point ∈ points)
    (now : DateTime) : DryRunValid lib manager encryptor t point.manifest.backupId now := by
  rcases h.holds point hpoint with ⟨name, targets, hholds⟩
  rw [dryRunValid_iff (h.inspect hpoint hholds.backupId) hholds.check]
  intro entry hentry
  rcases hholds.mem_files_iff.mp hentry with ⟨target, htarget, plaintext, hread, rfl⟩
  rw [hholds.captured_of_mem htarget hread]
  rfl

theorem receiptPath_eq {receiptId : String} {file : FileName} (dir : PlainPath)
    (hfile : s!"{receiptId}.json" = file.text) :
    receiptPath (PlainPath.raw dir) receiptId = PlainPath.raw (dir ++ [receiptsName] ++ [file]) := by
  have htext : file.text = PlainPath.text [file] := by simp [PlainPath.text]
  unfold receiptPath receiptsDir
  rw [hfile, htext, RawPath.join_text (List.cons_ne_nil _ _)]
  simp [PlainPath.raw]

theorem writeReceipt_of_free {dir : PlainPath} {receipt : MemoryRestoreReceipt} {file : FileName}
    (hfile : s!"{receipt.receiptId}.json" = file.text)
    (hfree : t.Free (dir ++ [receiptsName] ++ [file])) :
    ∃ t', writeReceipt lib (PlainPath.raw dir) t receipt = (t', .ok receipt) := by
  rcases FileTree.writeWithParents_of_free (lib.receiptBytes receipt) hfree with ⟨t', hwrite, -⟩
  have hdir : receiptsDir (PlainPath.raw dir) = PlainPath.raw (dir ++ [receiptsName]) := by
    simp [receiptsDir, PlainPath.raw]
  unfold FileTree.writeWithParents at hwrite
  rw [RawPath.parent_raw_concat] at hwrite
  unfold writeReceipt
  rw [receiptPath_eq dir hfile, hdir]
  generalize t.createDirAll (PlainPath.raw (dir ++ [receiptsName])) = made at hwrite ⊢
  rcases made with ⟨t₁, _ | _⟩
  · cases hwrite
  · dsimp only at hwrite ⊢
    split at hwrite
    · cases hwrite
    · rename_i t₂ hwritten
      rw [hwritten]
      exact ⟨t₂, rfl⟩

theorem lastBytes_eq {files : List RestoredFile} {p : PlainPath} {bytes : Bytes}
    (hsome : ∃ file ∈ files, file.path = p) (hall : ∀ file ∈ files, file.path = p →
      file.bytes = bytes) : lastBytes files p = some bytes := by
  unfold lastBytes
  cases hfind : files.reverse.find? fun file => file.path = p with
  | none =>
      rcases hsome with ⟨file, hfile, hpath⟩
      have hnot := List.find?_eq_none.mp hfind file (List.mem_reverse.mpr hfile)
      exact absurd hpath (by simpa using hnot)
  | some file =>
      have hmem := List.mem_reverse.mp (List.mem_of_find?_eq_some hfind)
      have hpath := List.find?_some hfind
      rw [Option.map_some, hall file hmem (by simpa using hpath)]

theorem PutBack.path_eq {backupDir : RawPath} {files : List RestoredFile}
    (h : PutBack lib manager encryptor backupDir t files t') :
    ∀ file ∈ files, ∀ p, manager.targetPath file.entry = PlainPath.raw p → file.path = p := by
  induction h with
  | nil t => simp
  | cons hcaptured hpath hread hrest ih =>
      intro file hmem p hraw
      rcases List.mem_cons.mp hmem with rfl | hmem
      · rw [hraw, FileTree.locate_raw] at hpath
        exact (Option.some.inj hpath).symm
      · exact ih file hmem p hraw

theorem Kept.restore_isOk (h : Kept lib manager encryptor t points) (hpoint : point ∈ points)
    (hholds : Holds lib manager encryptor t point name targets) {receiptId : String}
    {file : FileName} (hfile : s!"{receiptId}.json" = file.text) (now : DateTime)
    (hfree : ∀ target ∈ targets, t.Free target.path)
    (hreceipt : t.Free (manager.pointDir name ++ [receiptsName] ++ [file])) :
    ∃ t' receipt, manager.restoreRestorePoint lib encryptor t point.manifest.backupId receiptId
      now = (t', .ok receipt) ∧ receipt.receiptId = receiptId := by
  have hnames : ∀ entry ∈ point.manifest.files, ∃ target ∈ targets,
      manager.targetPath entry = PlainPath.raw target.path := by
    intro entry hentry
    rcases hholds.mem_files_iff.mp hentry with ⟨target, htarget, plaintext, -, rfl⟩
    exact ⟨target, htarget, hholds.targetPath_eq htarget plaintext⟩
  have htarget : ∀ target ∈ targets, IsTarget manager point.tree target :=
    fun target htarget => isTarget_of_mem hholds.discovered htarget
  have hraw : ∀ entry ∈ point.manifest.files, ∃ p name,
      manager.targetPath entry = PlainPath.raw (p ++ [name]) := by
    intro entry hentry
    rcases hnames entry hentry with ⟨target, hmem, hraw⟩
    rcases List.eq_nil_or_concat target.path with hnil | ⟨p, name, hsplit⟩
    · have hne := (htarget target hmem).ne_nil
      rw [(htarget target hmem).path, List.append_eq_nil_iff] at hnil
      exact absurd hnil.2 hne
    · exact ⟨p, name, by rw [hraw, hsplit, List.concat_eq_append]⟩
  have hpre : ∀ entry ∈ point.manifest.files, ∀ entry' ∈ point.manifest.files,
      (manager.targetPath entry).names <+: (manager.targetPath entry').names →
      (manager.targetPath entry).names = (manager.targetPath entry').names := by
    intro entry hentry entry' hentry' hpre
    rcases hnames entry hentry with ⟨target, hmem, hraw⟩
    rcases hnames entry' hentry' with ⟨target', hmem', hraw'⟩
    rw [hraw, hraw', RawPath.names_raw, RawPath.names_raw] at hpre ⊢
    exact FileTree.eq_of_isFile_above (htarget target hmem).isFile
      (htarget target' hmem').isFile hpre
  have hnodup : (point.manifest.files.map fun entry =>
      (manager.targetPath entry).names).Nodup := by
    rw [(hholds.files.map _).nodup_iff, List.map_map]
    have hpaths : targets.map ((fun entry => (manager.targetPath entry).names) ∘ fun target =>
        entryOf lib target ((point.tree.read target.path).getD [])) = targets.map (·.path) := by
      refine List.map_congr_left fun target hmem => ?_
      rw [Function.comp_apply, hholds.targetPath_eq hmem, RawPath.names_raw]
    rw [hpaths]
    exact nodup_targets hholds.discovered
  have hcaptured : ∀ entry ∈ point.manifest.files,
      (SealedMemoryBackupManager.captured lib encryptor
        (manager.backupDir point.manifest.backupId) t entry).isSome = true := by
    intro entry hentry
    rcases hholds.mem_files_iff.mp hentry with ⟨target, hmem, plaintext, hread, rfl⟩
    rw [hholds.captured_of_mem hmem hread]
    rfl
  have hfiles : ∀ entry ∈ point.manifest.files, t.Free (manager.targetPath entry).names := by
    intro entry hentry
    rcases hnames entry hentry with ⟨target, hmem, hraw⟩
    rw [hraw, RawPath.names_raw]
    exact hfree target hmem
  have houtside : ∀ entry ∈ point.manifest.files,
      ¬(manager.targetPath entry).names <+: manager.pointDir name ++ [receiptsName] ++ [file] ∧
        ¬manager.pointDir name ++ [receiptsName] ++ [file] <+: (manager.targetPath entry).names := by
    intro entry hentry
    rcases hnames entry hentry with ⟨target, hmem, hraw⟩
    rw [hraw, RawPath.names_raw]
    constructor
    · intro hbelow
      rw [(htarget target hmem).path, pointDir, restoreRoot] at hbelow
      simp only [List.append_assoc, List.prefix_append_right_inj] at hbelow
      cases hrelative : manager.relative target with
      | nil => exact (htarget target hmem).ne_nil hrelative
      | cons first rest =>
          rw [hrelative, List.cons_append, List.cons_prefix_cons] at hbelow
          exact (htarget target hmem).head rest (hrelative.trans (by rw [hbelow.1]))
    · intro habove
      exact (htarget target hmem).not_below
        (((List.prefix_append _ [name]).trans (List.prefix_append _ [receiptsName])).trans
          ((List.prefix_append _ [file]).trans habove))
  rcases @restoreEntries_isOk lib manager encryptor _ _ hholds.apart hraw hpre
    point.manifest.files (List.Subset.refl _) t 0 hnodup hcaptured hfiles with
    ⟨t₁, bytes, hrestored, hkeep⟩
  have hreceipt₁ := hkeep _ hreceipt houtside
  unfold restoreRestorePoint
  rw [h.inspect hpoint hholds.backupId]
  dsimp only
  rw [hholds.check]
  dsimp only
  rw [hrestored]
  dsimp only
  rw [hholds.backupId, backupDir_eq]
  rcases @writeReceipt_of_free lib t₁ (manager.pointDir name)
    { receiptId := receiptId
      backupId := name.text
      restoredAt := now
      contractVersion := Security.contractVersion
      encryptionKeyFingerprint := point.manifest.encryptionKeyFingerprint
      restoredFiles := point.manifest.fileCount
      restoredBytes := bytes } file hfile hreceipt₁ with ⟨t₂, hwritten⟩
  exact ⟨t₂, _, hwritten, rfl⟩

theorem Kept.restore_read (h : Kept lib manager encryptor t points) (hpoint : point ∈ points)
    (hholds : Holds lib manager encryptor t point name targets) {receiptId : String}
    {file : FileName} (hfile : s!"{receiptId}.json" = file.text) {now : DateTime}
    {receipt : MemoryRestoreReceipt} (hreceipt : receipt.receiptId = receiptId)
    (hrestore : manager.restoreRestorePoint lib encryptor t point.manifest.backupId receiptId now =
      (t', .ok receipt)) : ∀ target ∈ targets, t'.read target.path = point.tree.read target.path := by
  have hinspect := h.inspect hpoint hholds.backupId
  rcases @PutBack.restoredInOrder lib manager encryptor t _ receiptId now _ hinspect
    hholds.check with ⟨files, t₁, hrestored⟩
  have hagrees := @RestoredInOrder.dryRunAgrees lib manager encryptor t t₁ files _ now _ _
    hrestored hinspect hholds.check hholds.apart
  rw [hrestore] at hrestored
  rcases hrestored.success receipt rfl with ⟨hall, q, hq, hread⟩
  rw [hholds.backupId, backupDir_eq, hreceipt, receiptPath_eq _ hfile, FileTree.locate_raw] at hq
  cases hq
  intro target hmem
  have htarget := isTarget_of_mem hholds.discovered hmem
  rcases hholds.captured target hmem with ⟨plaintext, hplaintext, -⟩
  have hne : target.path ≠ manager.pointDir name ++ [receiptsName] ++ [file] := by
    intro heq
    refine htarget.not_below (heq ▸ ?_)
    exact ((List.prefix_append _ [name]).trans (List.prefix_append _ [receiptsName])).trans
      (List.prefix_append _ [file])
  rw [hread, if_neg hne, hrestored.putBack.read, hplaintext]
  have hlast : lastBytes files target.path = some plaintext := by
    refine lastBytes_eq ?_ fun file' hfile' hpath => ?_
    · have hentry : entryOf lib target plaintext ∈ files.map (·.entry) := by
        rw [hall]
        exact hholds.mem_files_iff.mpr ⟨target, hmem, plaintext, hplaintext, rfl⟩
      rcases List.mem_map.mp hentry with ⟨file', hfile', heq⟩
      refine ⟨file', hfile', hrestored.putBack.path_eq file' hfile' _ ?_⟩
      rw [heq, hholds.targetPath_eq hmem]
    · have hentry : file'.entry ∈ point.manifest.files := by
        rw [← hall]
        exact List.mem_map_of_mem hfile'
      rcases hholds.mem_files_iff.mp hentry with ⟨target', hmem', held, hheld, heq⟩
      have hpath' : file'.path = target'.path :=
        hrestored.putBack.path_eq file' hfile' _ (by rw [heq, hholds.targetPath_eq hmem'])
      have hbytes := hagrees.captured file' hfile'
      rw [heq, hholds.captured_of_mem hmem' hheld] at hbytes
      rw [← hpath', hpath, hplaintext] at hheld
      rw [← Option.some.inj hbytes, Option.some.inj hheld]
  rw [hlast]
  rfl

end Restoring

/-! ## Runs -/

/-- The storage and its restore points after any writes, removals and creations, the newest
restore point first. What others write lies outside the restore points, an identifier is new
when it is used, and the clock moves forward. -/
inductive Reachable (lib : BackupLibrary) (manager : SealedMemoryBackupManager)
    (encryptor : FactEncryptor) : Tree → List RestorePoint → Prop where
  | start {t : Tree} (hnone : t.lookup manager.restoreRoot = none) :
      Reachable lib manager encryptor t []
  | write {t : Tree} {points : List RestorePoint} (path : PlainPath) (contents : Bytes)
      (houtside : ¬manager.restoreRoot <+: path)
      (hbefore : Reachable lib manager encryptor t points) :
      Reachable lib manager encryptor (t.writeWithParents path.raw contents).1 points
  | remove {t : Tree} {points : List RestorePoint} (path : PlainPath) (hne : path ≠ [])
      (houtside : ¬manager.restoreRoot <+: path) (habove : ¬path <+: manager.restoreRoot)
      (hbefore : Reachable lib manager encryptor t points) :
      Reachable lib manager encryptor (t.remove path hne) points
  | create {t : Tree} {points : List RestorePoint} {seed : RestorePointSeed} {name : FileName}
      (hid : seed.backupId = name.text) (hfresh : t.lookup (manager.pointDir name) = none)
      (hlater : ∀ point ∈ points, point.manifest.createdAt < seed.createdAt)
      (hplain : ∀ targets, manager.discoverTargets t = .ok targets →
        ∀ target ∈ targets, NoBackslash (manager.relative target))
      (hbefore : Reachable lib manager encryptor t points) :
      Reachable lib manager encryptor (manager.createRestorePoint lib encryptor t seed).1
        (match (manager.createRestorePoint lib encryptor t seed).2 with
          | .ok manifest => ⟨manifest, t⟩ :: points
          | .error _ => points)

theorem retain_cons (manager : SealedMemoryBackupManager) (point : RestorePoint)
    (points : List RestorePoint) :
    manager.retain (point :: manager.retain points) = manager.retain (point :: points) := by
  unfold retain
  by_cases hmax : manager.maxRestorePoints = 0
  · simp [hmax]
  · rw [if_neg hmax, if_neg hmax, if_neg hmax]
    obtain ⟨limit, hlimit⟩ := Nat.exists_eq_succ_of_ne_zero hmax
    rw [hlimit, Nat.succ_eq_add_one, List.take_succ_cons, List.take_succ_cons, List.take_take,
      Nat.min_eq_left (Nat.le_succ limit)]

theorem mem_of_mem_retain {point : RestorePoint} {points : List RestorePoint}
    (h : point ∈ manager.retain points) : point ∈ points := by
  unfold retain at h
  split at h
  · exact h
  · exact List.mem_of_mem_take h

theorem Reachable.kept (hlib : lib.Lawful) {points : List RestorePoint}
    (h : Reachable lib manager encryptor t points) :
    Kept lib manager encryptor t (manager.retain points) := by
  induction h with
  | start hnone =>
      have hretain : manager.retain [] = [] := by
        unfold retain
        split <;> simp
      rw [hretain]
      refine ⟨fun name manifest => ?_, List.Pairwise.nil, nofun⟩
      rw [read_eq_none_below hnone (List.prefix_append _ _)]
      simp
  | write path contents houtside hbefore ih =>
      rename_i t points
      have hsame : ∀ p, manager.restoreRoot <+: p →
          (t.writeWithParents path.raw contents).1.read p = t.read p := by
        intro p hp
        cases hwrite : t.writeWithParents path.raw contents with
        | mk t' made =>
            cases made with
            | false => exact (FileTree.writeWithParents_addsDirs hwrite).read p
            | true =>
                rcases FileTree.writeWithParents_read hwrite with ⟨q, hq, hread⟩
                rw [FileTree.locate_raw] at hq
                cases hq
                rw [hread, if_neg]
                rintro rfl
                exact houtside hp
      exact ih.of_read (fun name => hsame _ (List.prefix_append _ _))
        fun point _ name _ p hp => hsame p ((List.prefix_append _ _).trans hp)
  | remove path hne houtside habove hbefore ih =>
      rename_i t points
      have hsame : ∀ p, manager.restoreRoot <+: p → (t.remove path hne).read p = t.read p := by
        intro p hp
        rw [FileTree.read_remove, if_neg]
        intro hpath
        rcases List.prefix_or_prefix_of_prefix hpath hp with h | h
        · exact habove h
        · exact houtside h
      exact ih.of_read (fun name => hsame _ (List.prefix_append _ _))
        fun point _ name _ p hp => hsame p ((List.prefix_append _ _).trans hp)
  | create hid hfresh hlater hplain hbefore ih =>
      rcases ih.create hlib hid hfresh
        (fun point hpoint => hlater point (mem_of_mem_retain hpoint)) hplain with
        ⟨manifest, t', heq, hkept⟩ | ⟨err, t', heq, hkept⟩
      · rw [heq]
        rw [retain_cons] at hkept
        exact hkept
      · rw [heq]
        exact hkept

/-- Of the restore points created in a run the newest are listed, none of them misses a
payload, and each gives all its files back where they can be written. -/
theorem Reachable.restores (hlib : lib.Lawful) {points : List RestorePoint}
    (h : Reachable lib manager encryptor t points) :
    manager.listRestorePoints lib t = (manager.retain points).map (·.manifest) ∧
      ∀ point ∈ manager.retain points, ∀ now,
        DryRunValid lib manager encryptor t point.manifest.backupId now ∧
          ∀ targets, manager.discoverTargets point.tree = .ok targets →
            ∀ (receiptId : String) (file : FileName), s!"{receiptId}.json" = file.text →
              (∀ target ∈ targets, t.Free target.path) →
              t.Free (receiptPath (manager.backupDir point.manifest.backupId) receiptId).names →
              ∃ t' receipt, manager.restoreRestorePoint lib encryptor t point.manifest.backupId
                  receiptId now = (t', .ok receipt) ∧
                ∀ target ∈ targets, t'.read target.path = point.tree.read target.path := by
  have hkept := h.kept hlib
  refine ⟨hkept.listRestorePoints_eq, fun point hpoint now => ⟨hkept.dryRunValid hpoint now, ?_⟩⟩
  intro targets hdiscover receiptId file hfile hfree hreceipt
  rcases hkept.holds point hpoint with ⟨name, targets', hholds⟩
  have heq : targets' = targets := Except.ok.inj (hholds.discovered.symm.trans hdiscover)
  subst heq
  rw [hholds.backupId, backupDir_eq, receiptPath_eq _ hfile, RawPath.names_raw] at hreceipt
  rcases hkept.restore_isOk hpoint hholds hfile now hfree hreceipt with
    ⟨t', receipt, hrestore, hid⟩
  exact ⟨t', receipt, hrestore, hkept.restore_read hpoint hholds hfile hid hrestore⟩

/-! ## Samples -/

/-- The trees after restore points are created, and the manifests of those that were. -/
def createAll (lib : BackupLibrary) (manager : SealedMemoryBackupManager)
    (encryptor : FactEncryptor) (t : Tree) (seeds : List RestorePointSeed) :
    Tree × List MemoryRestorePointManifest :=
  seeds.foldl (fun created seed =>
    match manager.createRestorePoint lib encryptor created.1 seed with
    | (t, .ok manifest) => (t, manifest :: created.2)
    | (t, .error _) => (t, created.2)) (t, [])

def KeepsNewest (lib : BackupLibrary) (manager : SealedMemoryBackupManager)
    (encryptor : FactEncryptor) (t : Tree) (seeds : List RestorePointSeed) : Prop :=
  manager.listRestorePoints lib (createAll lib manager encryptor t seeds).1 =
    (createAll lib manager encryptor t seeds).2.take manager.maxRestorePoints

instance (lib : BackupLibrary) (manager : SealedMemoryBackupManager)
    (encryptor : FactEncryptor) (t : Tree) (seeds : List RestorePointSeed) :
    Decidable (KeepsNewest lib manager encryptor t seeds) := inferInstanceAs (Decidable (_ = _))

def sampleSeed (backupId : String) (createdAt : DateTime) : RestorePointSeed where
  backupId := backupId
  createdAt := createdAt
  nonces _ := ⟨List.replicate 12 0, rfl⟩

def sampleStorage (files : List (PlainPath × Bytes)) : Tree :=
  files.foldl (fun t file =>
    (t.writeWithParents (PlainPath.raw (sampleManager.storageRoot ++ file.1)) file.2).1) .empty

theorem audit_isFileName : IsFileName "audit.redb" := by decide

def auditFile : PlainPath × Bytes := ([⟨"audit.redb", audit_isFileName⟩], [65])

def sampleManifest (backupId : String) (createdAt : DateTime)
    (files : List MemoryBackupFileEntry) : MemoryRestorePointManifest where
  backupId := backupId
  product := "BenShu"
  contractVersion := "1"
  createdAt := createdAt
  storageRootHint := "/agentos"
  encryptionKeyFingerprint := ""
  fileCount := files.length
  totalBytes := files.length
  files := files

/-- A manifest is written as its place in a table. -/
def tableLibrary (manifests : List MemoryRestorePointManifest) : BackupLibrary where
  encrypt _ _ plaintext := some plaintext
  decrypt _ _ ciphertext := some ciphertext
  digest bytes := .ofList (bytes.map fun byte => Char.ofNat byte.toNat)
  manifestBytes manifest := [UInt8.ofNat (manifests.idxOf manifest)]
  parseManifest bytes := bytes.head?.bind fun byte => manifests[byte.toNat]?
  receiptBytes _ := [2]

def auditEntry : MemoryBackupFileEntry :=
  ⟨"audit_log", "audit.redb", "payloads/audit.redb.sealed", 1, "A"⟩

theorem search_isFileName : IsFileName "search" := by decide

theorem a_isFileName : IsFileName "a" := by decide

theorem b_isFileName : IsFileName "b" := by decide

theorem backslash_isFileName : IsFileName "a\\b" := by decide

def slashFiles : List (PlainPath × Bytes) :=
  [([⟨"search", search_isFileName⟩, ⟨"a", a_isFileName⟩, ⟨"b", b_isFileName⟩], [65]),
    ([⟨"search", search_isFileName⟩, ⟨"a\\b", backslash_isFileName⟩], [66])]

def slashEntries : List MemoryBackupFileEntry :=
  [⟨"engram_search:search/a/b", "search/a/b", "payloads/search/a/b.sealed", 1, "B"⟩,
    ⟨"engram_search:search/a/b", "search/a/b", "payloads/search/a/b.sealed", 1, "A"⟩]

def limited (limit : Nat) : SealedMemoryBackupManager :=
  { sampleManager with maxRestorePoints := limit }

/-- A clock that goes back makes the newest restore point the first to be pruned, without a
limit none is pruned, and files with one path after the backslashes are replaced are sealed
over each other. -/
theorem newest_not_kept :
    ¬KeepsNewest (tableLibrary [sampleManifest "a" 10 [auditEntry],
        sampleManifest "b" 5 [auditEntry]]) (limited 1) ⟨[]⟩ (sampleStorage [auditFile])
        [sampleSeed "a" 10, sampleSeed "b" 5] ∧
      ¬KeepsNewest (tableLibrary [sampleManifest "a" 10 [auditEntry]]) (limited 0) ⟨[]⟩
        (sampleStorage [auditFile]) [sampleSeed "a" 10] ∧
      (let lib := tableLibrary [sampleManifest "a" 10 slashEntries]
        let created := createAll lib (limited 1) ⟨[]⟩ (sampleStorage slashFiles)
          [sampleSeed "a" 10]
        created.2 = [sampleManifest "a" 10 slashEntries] ∧
          ((limited 1).restoreRestorePoint lib ⟨[]⟩ created.1 "a" "r" 0).2.isOk = false) := by
  refine ⟨?_, ?_, ?_, ?_⟩
  · decide +kernel
  · decide +kernel
  · decide +kernel
  · decide +kernel

theorem exists_injective_manifest :
    ∃ f : MemoryRestorePointManifest → Nat, Function.Injective f := by
  have hchar : Countable Char :=
    Function.Injective.countable (f := fun c : Char => c.toNat) fun _ _ h => Char.toNat_inj.mp h
  have hstring : Countable String :=
    Function.Injective.countable (f := fun s : String => s.toList) fun _ _ h =>
      String.toList_injective h
  have hentry : Countable MemoryBackupFileEntry := by
    refine Function.Injective.countable (f := fun e : MemoryBackupFileEntry =>
      (e.label, e.relativePath, e.payloadPath, e.sizeBytes, e.sha256)) fun e e' h => ?_
    rcases e with ⟨_, _, _, _, _⟩
    rcases e' with ⟨_, _, _, _, _⟩
    simpa using h
  have hmanifest : Countable MemoryRestorePointManifest := by
    refine Function.Injective.countable (f := fun m : MemoryRestorePointManifest =>
      (m.backupId, m.product, m.contractVersion, m.createdAt, m.storageRootHint,
        m.encryptionKeyFingerprint, m.fileCount, m.totalBytes, m.files)) fun m m' h => ?_
    rcases m with ⟨_, _, _, _, _, _, _, _, _⟩
    rcases m' with ⟨_, _, _, _, _, _, _, _, _⟩
    simpa using h
  exact exists_injective_nat MemoryRestorePointManifest

/-- Every manifest is written in its own way. -/
noncomputable def injectiveLibrary : BackupLibrary where
  encrypt _ _ plaintext := some plaintext
  decrypt _ _ ciphertext := some ciphertext
  digest bytes := .ofList (bytes.map fun byte => Char.ofNat byte.toNat)
  manifestBytes manifest := List.replicate (exists_injective_manifest.choose manifest) 0
  parseManifest bytes := Function.partialInv exists_injective_manifest.choose bytes.length
  receiptBytes _ := [2]

theorem injectiveLibrary_lawful : injectiveLibrary.Lawful where
  opens _ _ _ _ h := by
    cases h
    rfl
  parses manifest := by
    show Function.partialInv _ (List.replicate _ _).length = _
    rw [List.length_replicate]
    exact Function.partialInv_left exists_injective_manifest.choose_spec manifest

theorem sample_reachable : Reachable injectiveLibrary (limited 0) ⟨[]⟩
    (sampleStorage [auditFile]) [] := by
  exact @Reachable.start _ (limited 0) _ _ (by decide +kernel)

theorem sample_targets : (limited 0).discoverTargets (sampleStorage [auditFile]) =
    .ok [⟨"audit_log", (limited 0).auditPath, "audit.redb"⟩] := by
  decide +kernel

theorem sample_plain (targets : List BackupTarget)
    (h : (limited 0).discoverTargets (sampleStorage [auditFile]) = .ok targets) :
    ∀ target ∈ targets, NoBackslash ((limited 0).relative target) := by
  rw [sample_targets] at h
  cases h
  intro target htarget
  rw [List.mem_singleton.mp htarget]
  unfold NoBackslash
  decide +kernel

/-- One file is sealed and given back. -/
theorem restores_sample :
    let created := (limited 0).createRestorePoint injectiveLibrary ⟨[]⟩
      (sampleStorage [auditFile]) (sampleSeed "a" 10)
    ∃ manifest, created.2 = .ok manifest ∧
      (limited 0).listRestorePoints injectiveLibrary created.1 = [manifest] ∧
      ∃ t' receipt, (limited 0).restoreRestorePoint injectiveLibrary ⟨[]⟩ created.1
          "a" "r" 0 = (t', .ok receipt) ∧
        t'.read (limited 0).auditPath = some [65] := by
  intro created
  have hid : created.2.map (·.backupId) = .ok "a" := by decide +kernel
  have hfree : created.1.Free (limited 0).auditPath := by decide +kernel
  have hreceipt : created.1.Free (receiptPath ((limited 0).backupDir "a") "r").names := by
    decide +kernel
  have hread : (sampleStorage [auditFile]).read (limited 0).auditPath = some [65] := by
    decide +kernel
  cases hcreated : created.2 with
  | error err =>
      rw [hcreated] at hid
      cases hid
  | ok manifest =>
      rw [hcreated] at hid
      replace hid : manifest.backupId = "a" := Except.ok.inj hid
      have hreachable := @Reachable.create injectiveLibrary (limited 0) ⟨[]⟩
        (sampleStorage [auditFile]) [] (sampleSeed "a" 10) ⟨"a", by decide⟩ rfl
        (by decide +kernel) (by simp) sample_plain sample_reachable
      rw [show ((limited 0).createRestorePoint injectiveLibrary ⟨[]⟩ (sampleStorage [auditFile])
        (sampleSeed "a" 10)).2 = .ok manifest from hcreated] at hreachable
      rcases Reachable.restores injectiveLibrary_lawful hreachable with ⟨hlist, hrestore⟩
      refine ⟨manifest, rfl, hlist, ?_⟩
      have hpoint := hrestore ⟨manifest, sampleStorage [auditFile]⟩ (by simp [retain, limited]) 0
      rw [hid] at hpoint
      rcases hpoint.2 _ sample_targets "r" ⟨"r.json", by decide⟩ rfl
        (by simpa using hfree) hreceipt with ⟨t', receipt, hresult, hsame⟩
      exact ⟨t', receipt, hresult, (hsame _ List.mem_cons_self).trans hread⟩

end BenShu.Security.SealedMemoryBackupManager
