import BenShu.Lib.Table
import BenShu.Lib.Text
import Mathlib.Data.List.Induction

/-!
# File paths

A path is a list of names. Texts name paths as an operating system reads them: step by step,
with steps that stay and steps that go up.
-/

namespace Files

def IsFileName (text : String) : Prop :=
  text ≠ "" ∧ text ≠ "." ∧ text ≠ ".." ∧ '/' ∉ text.toList

instance (text : String) : Decidable (IsFileName text) :=
  inferInstanceAs (Decidable (_ ∧ _ ∧ _ ∧ _))

/-- A name that a directory can hold. -/
structure FileName where
  text : String
  valid : IsFileName text
  deriving DecidableEq

abbrev PlainPath := List FileName

inductive PathStep where
  | stay
  | up
  | name (name : FileName)
  deriving DecidableEq

abbrev RawPath := List PathStep

namespace PlainPath

def raw (p : PlainPath) : RawPath := p.map .name

def text (p : PlainPath) : String := "/".intercalate (p.map FileName.text)

end PlainPath

namespace PathStep

def ofText (text : String) : PathStep :=
  if text = ".." then .up
  else if h : IsFileName text then .name ⟨text, h⟩
  else .stay

theorem ofText_name (name : FileName) : ofText name.text = .name name := by
  unfold ofText
  rw [if_neg name.valid.2.2.1, dif_pos name.valid]

end PathStep

namespace RawPath

def ofText (text : String) : RawPath :=
  (text.toList.splitOn '/').map fun piece => PathStep.ofText (.ofList piece)

def join (base : RawPath) (text : String) : RawPath :=
  if Text.startsWith text "/" then ofText text else base ++ ofText text

/-- The path without its last step that moves, and what stays after it. -/
def parent (raw : RawPath) : RawPath := ((raw.reverse.dropWhile (· = .stay)).drop 1).reverse

/-- The names of a path that never goes up. -/
def names (raw : RawPath) : PlainPath :=
  raw.filterMap fun step =>
    match step with
    | .name name => some name
    | _ => none

def Confined (text : String) : Prop :=
  Text.startsWith text "/" = false ∧ PathStep.up ∉ ofText text

@[simp] theorem names_raw (p : PlainPath) : names p.raw = p := by
  simp [names, PlainPath.raw, List.filterMap_map]

@[simp] theorem up_notMem_raw (p : PlainPath) : PathStep.up ∉ p.raw := by
  simp [PlainPath.raw]

theorem ofText_text {p : PlainPath} (h : p ≠ []) : ofText p.text = p.raw := by
  have hpieces : p.text.toList.splitOn '/' = p.map fun name => name.text.toList := by
    have htext : p.text.toList = ['/'].intercalate (p.map fun name => name.text.toList) := by
      simp [PlainPath.text, Function.comp_def]
    rw [htext, List.splitOn_intercalate]
    · intro l hl
      rcases List.mem_map.mp hl with ⟨name, -, rfl⟩
      exact name.valid.2.2.2
    · simpa using h
  unfold ofText PlainPath.raw
  rw [hpieces, List.map_map]
  apply List.map_congr_left
  intro name _
  simp [PathStep.ofText_name]

theorem text_not_absolute {p : PlainPath} : Text.startsWith p.text "/" = false := by
  rw [Bool.eq_false_iff]
  intro habsolute
  rw [Text.startsWith_iff] at habsolute
  cases p with
  | nil => simp [PlainPath.text] at habsolute
  | cons name p =>
      have hname : ∃ rest, PlainPath.text (name :: p) = name.text ++ rest := by
        cases p with
        | nil => exact ⟨"", by simp [PlainPath.text]⟩
        | cons next p =>
            exact ⟨"/" ++ PlainPath.text (next :: p), by
              simp [PlainPath.text, String.intercalate_cons_cons, String.append_assoc]⟩
      rcases hname with ⟨rest, hrest⟩
      rcases name.valid with ⟨hne, -, -, hslash⟩
      rw [hrest, String.toList_append] at habsolute
      cases htext : name.text.toList with
      | nil => exact hne (by rw [← String.ofList_toList (s := name.text), htext])
      | cons c cs =>
          rw [htext] at habsolute hslash
          have hc : '/' = c := by simpa using habsolute
          exact hslash (by rw [hc]; exact List.mem_cons_self)

theorem join_text {base : RawPath} {p : PlainPath} (h : p ≠ []) :
    join base p.text = base ++ p.raw := by
  unfold join
  rw [text_not_absolute, if_neg Bool.false_ne_true, ofText_text h]

theorem parent_raw_concat (p : PlainPath) (name : FileName) :
    parent (PlainPath.raw (p ++ [name])) = p.raw := by
  simp [parent, PlainPath.raw]

end RawPath

end Files

/-!
# File trees

A file tree holds files and directories under paths of names. An operation either succeeds
or leaves the files as they were; what can change is said by one lemma for each.
-/

namespace Files

inductive FileNode (β : Type) where
  | file (contents : β)
  | dir
  deriving DecidableEq

/-- What lies in a directory that is there. -/
structure FileTree (β : Type) where
  nodes : Table PlainPath (FileNode β)
  root : nodes.lookup [] = some .dir
  rooted : ∀ p name, p ++ [name] ∈ nodes → nodes.lookup p = some .dir

namespace FileTree

variable {β : Type} (t : FileTree β)

/-- A directory with nothing in it. -/
def empty : FileTree β where
  nodes := (∅ : Table PlainPath (FileNode β)).insert [] .dir
  root := AList.lookup_insert _
  rooted := by
    intro p name hmem
    rcases (AList.mem_insert _).mp hmem with heq | hmem
    · simp at heq
    · exact absurd hmem (AList.notMem_empty _)

def lookup (p : PlainPath) : Option (FileNode β) := t.nodes.lookup p

def isDir (p : PlainPath) : Bool :=
  match t.lookup p with
  | some .dir => true
  | _ => false

def read (p : PlainPath) : Option β :=
  match t.lookup p with
  | some (.file contents) => some contents
  | _ => none

def isFile (p : PlainPath) : Bool := (t.read p).isSome

/-- The names in a directory. -/
def children (p : PlainPath) : List FileName :=
  t.nodes.keys.filterMap fun q =>
    match q.getLast? with
    | some name => if q.dropLast = p then some name else none
    | none => none

def filesBelow (p : PlainPath) : List PlainPath :=
  t.nodes.keys.filter fun q => p.isPrefixOf q && t.isFile q

@[simp] theorem isDir_iff {t : FileTree β} {p : PlainPath} :
    t.isDir p = true ↔ t.lookup p = some .dir := by
  unfold isDir
  cases t.lookup p with
  | none => simp
  | some node => cases node <;> simp

theorem read_eq_some_iff {t : FileTree β} {p : PlainPath} {contents : β} :
    t.read p = some contents ↔ t.lookup p = some (.file contents) := by
  unfold read
  cases t.lookup p with
  | none => simp
  | some node => cases node <;> simp

/-! ## What operations do to a tree -/

/-- Something new in a directory, or a file in the place of a file. -/
def place (q : PlainPath) (node : FileNode β) (hne : q ≠ [])
    (hparent : t.isDir q.dropLast = true) (hnot : ¬t.isDir q = true) : FileTree β where
  nodes := t.nodes.insert q node
  root := by
    rw [AList.lookup_insert_ne hne.symm]
    exact t.root
  rooted := by
    intro p name hmem
    have hold : t.nodes.lookup p = some .dir := by
      rcases (AList.mem_insert t.nodes).mp hmem with hnew | hmem
      · rw [← hnew, List.dropLast_concat] at hparent
        exact isDir_iff.mp hparent
      · exact t.rooted p name hmem
    have hp : p ≠ q := by
      intro heq
      subst heq
      exact hnot (isDir_iff.mpr hold)
    rw [AList.lookup_insert_ne hp, hold]

/-- The directory and all that is in it are gone. -/
def remove (q : PlainPath) (hne : q ≠ []) : FileTree β where
  nodes :=
    (t.nodes.keys.filter fun p => q.isPrefixOf p).foldl (fun nodes p => nodes.erase p) t.nodes
  root := by
    rw [Table.lookup_foldl_erase, if_neg]
    · exact t.root
    · simp [hne]
  rooted := by
    intro p name hmem
    rw [← AList.lookup_isSome, Table.lookup_foldl_erase] at hmem
    split at hmem
    · cases hmem
    · rename_i hkept
      rw [Table.lookup_foldl_erase, if_neg]
      · exact t.rooted p name (AList.lookup_isSome.mp hmem)
      · intro hgone
        refine hkept ?_
        rw [List.mem_filter, List.isPrefixOf_iff_prefix] at hgone ⊢
        exact ⟨AList.mem_keys.mpr (AList.lookup_isSome.mp hmem),
          hgone.2.trans (List.prefix_append p [name])⟩

/-- Where a written path leads to. -/
def walk : PlainPath → RawPath → Option PlainPath
  | p, [] => some p
  | p, .stay :: raw => if t.isDir p then walk p raw else none
  | p, .up :: raw => if t.isDir p then walk p.dropLast raw else none
  | p, .name name :: raw => walk (p ++ [name]) raw

def locate (raw : RawPath) : Option PlainPath := t.walk [] raw

def readAt (raw : RawPath) : Option β := (t.locate raw).bind t.read

/-- The directories of a path are made one after the other, and stay where a file is in the
way of the next. -/
def createDirs : FileTree β → PlainPath → RawPath → FileTree β × Bool
  | t, _, [] => (t, true)
  | t, p, .stay :: raw => createDirs t p raw
  | t, p, .up :: raw => createDirs t p.dropLast raw
  | t, p, .name name :: raw =>
      if h : t.isDir p = true ∧ (t.lookup (p ++ [name])).isNone = true then
        createDirs (t.place (p ++ [name]) .dir (by simp) (by simpa using h.1)
          (by simp [Option.isNone_iff_eq_none.mp h.2])) (p ++ [name]) raw
      else if t.isDir (p ++ [name]) then createDirs t (p ++ [name]) raw
      else (t, false)

def createDirAll (raw : RawPath) : FileTree β × Bool := t.createDirs [] raw

def write (raw : RawPath) (contents : β) : Option (FileTree β) :=
  match t.locate raw with
  | none => none
  | some q =>
      if h : q ≠ [] ∧ t.isDir q.dropLast = true ∧ ¬t.isDir q = true then
        some (t.place q (.file contents) h.1 h.2.1 h.2.2)
      else none

/-- A file with the directories it needs. -/
def writeWithParents (raw : RawPath) (contents : β) : FileTree β × Bool :=
  match t.createDirAll raw.parent with
  | (t, false) => (t, false)
  | (t, true) =>
      match t.write raw contents with
      | none => (t, false)
      | some t => (t, true)

def existsAt (raw : RawPath) : Bool :=
  match t.locate raw with
  | some q => (t.lookup q).isSome
  | none => false

def removeDirAll (raw : RawPath) : Option (FileTree β) :=
  match t.locate raw with
  | none => none
  | some q => if h : q ≠ [] then if t.isDir q then some (t.remove q h) else none else none

variable {t t' : FileTree β} {p q : PlainPath} {raw : RawPath} {contents : β}

/-! ## Reading after an operation -/

theorem read_eq_none_of_isDir (h : t.isDir p = true) : t.read p = none := by
  unfold read
  rw [isDir_iff.mp h]

theorem isDir_of_append {name : FileName} {rest : PlainPath}
    (h : (t.lookup (p ++ name :: rest)).isSome = true) : t.isDir p = true := by
  induction rest using List.reverseRecOn with
  | nil => exact isDir_iff.mpr (t.rooted p name (AList.lookup_isSome.mp h))
  | append_singleton rest last ih =>
      have hparent : t.lookup (p ++ name :: rest) = some .dir := by
        refine t.rooted _ last (AList.lookup_isSome.mp ?_)
        rwa [List.append_assoc]
      exact ih (by rw [hparent]; rfl)

theorem lookup_place {node : FileNode β} (hne : q ≠ []) (hparent : t.isDir q.dropLast = true)
    (hnot : ¬t.isDir q = true) :
    (t.place q node hne hparent hnot).lookup p = if p = q then some node else t.lookup p :=
  Table.lookup_insert t.nodes q p node

theorem lookup_remove (hne : q ≠ []) :
    (t.remove q hne).lookup p = if q <+: p then none else t.lookup p := by
  unfold lookup remove
  dsimp only
  rw [Table.lookup_foldl_erase]
  by_cases hp : q <+: p
  · rw [if_pos hp]
    split
    · rfl
    · rename_i hkept
      rw [List.mem_filter, List.isPrefixOf_iff_prefix, not_and'] at hkept
      exact AList.lookup_eq_none.mpr fun hmem => hkept hp (AList.mem_keys.mp hmem)
  · rw [if_neg hp, if_neg]
    rw [List.mem_filter, List.isPrefixOf_iff_prefix]
    exact fun h => hp h.2

theorem read_remove (hne : q ≠ []) :
    (t.remove q hne).read p = if q <+: p then none else t.read p := by
  unfold read
  rw [lookup_remove]
  by_cases hp : q <+: p
  · rw [if_pos hp, if_pos hp]
  · rw [if_neg hp, if_neg hp]

theorem eq_of_isFile_above (hp : t.isFile p = true) (hq : t.isFile q = true)
    (hpre : p <+: q) : p = q := by
  rcases hpre with ⟨rest, rfl⟩
  cases rest with
  | nil => rw [List.append_nil]
  | cons name rest =>
      have hsome : (t.lookup (p ++ name :: rest)).isSome = true := by
        rcases Option.isSome_iff_exists.mp hq with ⟨contents, hcontents⟩
        rw [read_eq_some_iff.mp hcontents]
        rfl
      rw [isFile, read_eq_none_of_isDir (isDir_of_append hsome)] at hp
      cases hp

/-- All that a tree holds stays, and no file is new. -/
structure AddsDirs (t t' : FileTree β) : Prop where
  lookup : ∀ p node, t.lookup p = some node → t'.lookup p = some node
  read : ∀ p, t'.read p = t.read p

theorem AddsDirs.refl : AddsDirs t t := ⟨fun _ _ h => h, fun _ => rfl⟩

theorem AddsDirs.trans {t'' : FileTree β} (h : AddsDirs t t') (h' : AddsDirs t' t'') :
    AddsDirs t t'' where
  lookup p node hp := h'.lookup p node (h.lookup p node hp)
  read p := (h'.read p).trans (h.read p)

theorem AddsDirs.place (hne : q ≠ []) (hparent : t.isDir q.dropLast = true)
    (hnot : ¬t.isDir q = true) (hnone : t.lookup q = none) :
    AddsDirs t (t.place q .dir hne hparent hnot) := by
  constructor
  · intro p node hp
    rw [lookup_place, if_neg]
    · exact hp
    · intro heq
      rw [heq, hnone] at hp
      cases hp
  · intro p
    unfold FileTree.read
    rw [lookup_place]
    by_cases hp : p = q
    · rw [if_pos hp, hp, hnone]
    · rw [if_neg hp]

theorem createDirs_addsDirs (t : FileTree β) (p : PlainPath) (raw : RawPath) :
    AddsDirs t (t.createDirs p raw).1 := by
  induction raw generalizing t p with
  | nil => exact .refl
  | cons step raw ih =>
      cases step with
      | stay => exact ih t p
      | up => exact ih t p.dropLast
      | name name =>
          unfold createDirs
          split
          · rename_i h
            exact (AddsDirs.place _ _ _ (Option.isNone_iff_eq_none.mp h.2)).trans (ih _ _)
          · split
            · exact ih t _
            · exact .refl

theorem createDirAll_addsDirs (t : FileTree β) (raw : RawPath) :
    AddsDirs t (t.createDirAll raw).1 := createDirs_addsDirs t [] raw

/-! ## Where paths lead -/

theorem walk_append (t : FileTree β) (p : PlainPath) (raw raw' : RawPath) :
    t.walk p (raw ++ raw') = (t.walk p raw).bind fun q => t.walk q raw' := by
  induction raw generalizing p with
  | nil => rfl
  | cons step raw ih =>
      cases step with
      | stay =>
          rw [List.cons_append, walk, walk]
          split
          · exact ih p
          · rfl
      | up =>
          rw [List.cons_append, walk, walk]
          split
          · exact ih p.dropLast
          · rfl
      | name name => exact ih (p ++ [name])

@[simp] theorem walk_raw (t : FileTree β) (p q : PlainPath) : t.walk p q.raw = some (p ++ q) := by
  induction q generalizing p with
  | nil => rw [List.append_nil]; rfl
  | cons name q ih =>
      show t.walk (p ++ [name]) (PlainPath.raw q) = _
      rw [ih, List.append_assoc]
      rfl

@[simp] theorem locate_raw (t : FileTree β) (p : PlainPath) : t.locate p.raw = some p :=
  walk_raw t [] p

@[simp] theorem readAt_raw (t : FileTree β) (p : PlainPath) : t.readAt p.raw = t.read p := by
  unfold readAt
  rw [locate_raw, Option.bind_some]

theorem eq_names_of_walk (hwalk : t.walk p raw = some q) (hup : .up ∉ raw) :
    q = p ++ raw.names := by
  induction raw generalizing p with
  | nil => exact (Option.some.inj hwalk).symm.trans (List.append_nil p).symm
  | cons step raw ih =>
      rw [List.mem_cons, not_or] at hup
      cases step with
      | stay =>
          rw [walk] at hwalk
          split at hwalk
          · exact ih hwalk hup.2
          · cases hwalk
      | up => exact absurd rfl hup.1
      | name name => exact (ih hwalk hup.2).trans (by simp [RawPath.names])

theorem readAt_eq_some_iff (hup : .up ∉ raw) :
    t.readAt raw = some contents ↔
      t.read raw.names = some contents ∧ raw.getLast? ≠ some .stay := by
  have hwalks : ∀ p, (t.lookup (p ++ raw.names)).isSome = true → raw.getLast? ≠ some .stay →
      t.walk p raw = some (p ++ raw.names) := by
    induction raw with
    | nil => exact fun p _ _ => congrArg some (List.append_nil p).symm
    | cons step raw ih =>
        rw [List.mem_cons, not_or] at hup
        intro p hsome hlast
        cases step with
        | up => exact absurd rfl hup.1
        | name name =>
            have hnames : p ++ RawPath.names (.name name :: raw) = p ++ [name] ++ RawPath.names raw := by
              simp [RawPath.names]
            rw [hnames] at hsome ⊢
            refine ih hup.2 (p ++ [name]) hsome fun hstay => hlast ?_
            rw [List.getLast?_cons, hstay]
            rfl
        | stay =>
            -- a name comes after the step, so that the path so far is a directory
            have hne : raw ≠ [] := by
              rintro rfl
              exact hlast rfl
            have hlast' : raw.getLast? ≠ some .stay := by
              intro hstay
              rw [List.getLast?_cons, hstay] at hlast
              exact hlast rfl
            have hdir : t.isDir p = true := by
              have hnames : RawPath.names raw ≠ [] := by
                rcases List.eq_nil_or_concat raw with rfl | ⟨raw', last, rfl⟩
                · exact absurd rfl hne
                · cases last with
                  | stay => simp at hlast'
                  | up => simp at hup
                  | name name => simp [RawPath.names]
              cases hrest : RawPath.names raw with
              | nil => exact absurd hrest hnames
              | cons name rest =>
                  refine @isDir_of_append _ _ _ name rest ?_
                  rw [← hrest]
                  exact hsome
            rw [walk, if_pos hdir]
            exact ih hup.2 p hsome hlast'
  constructor
  · intro h
    rcases Option.bind_eq_some_iff.mp h with ⟨q, hq, hread⟩
    have hnames := eq_names_of_walk hq hup
    rw [List.nil_append] at hnames
    refine ⟨by rw [← hnames]; exact hread, fun hstay => ?_⟩
    rcases List.getLast?_eq_some_iff.mp hstay with ⟨before, rfl⟩
    unfold locate at hq
    rw [walk_append] at hq
    rcases Option.bind_eq_some_iff.mp hq with ⟨q', -, hq'⟩
    rw [walk] at hq'
    split at hq'
    · rename_i hdir
      cases hq'
      rw [read_eq_none_of_isDir hdir] at hread
      cases hread
    · cases hq'
  · intro h
    rcases h with ⟨hread, hlast⟩
    refine Option.bind_eq_some_iff.mpr ⟨raw.names, ?_, hread⟩
    refine hwalks [] ?_ hlast
    rw [List.nil_append, read_eq_some_iff.mp hread]
    rfl

theorem readAt_congr (hup : .up ∉ raw) (h : t'.read raw.names = t.read raw.names) :
    t'.readAt raw = t.readAt raw := by
  apply Option.ext
  intro contents
  rw [readAt_eq_some_iff hup, readAt_eq_some_iff hup, h]

theorem walk_of_isDir (h : ∀ p, t.isDir p = true → t'.isDir p = true)
    (hwalk : t.walk p raw = some q) : t'.walk p raw = some q := by
  induction raw generalizing p with
  | nil => exact hwalk
  | cons step raw ih =>
      cases step with
      | stay =>
          rw [walk] at hwalk ⊢
          split at hwalk
          · rename_i hdir
            rw [if_pos (h p hdir)]
            exact ih hwalk
          · cases hwalk
      | up =>
          rw [walk] at hwalk ⊢
          split at hwalk
          · rename_i hdir
            rw [if_pos (h p hdir)]
            exact ih hwalk
          · cases hwalk
      | name name => exact ih hwalk

/-! ## Writing -/

theorem write_spec (h : t.write raw contents = some t') :
    ∃ q, t.locate raw = some q ∧ t.isDir q = false ∧
      ∀ p, t'.lookup p = if p = q then some (.file contents) else t.lookup p := by
  unfold write at h
  cases hq : t.locate raw with
  | none =>
      rw [hq] at h
      cases h
  | some q =>
      rw [hq] at h
      dsimp only at h
      split at h
      · rename_i hplace
        cases h
        exact ⟨q, rfl, Bool.eq_false_iff.mpr hplace.2.2, fun p => lookup_place _ _ _⟩
      · cases h

theorem write_read (h : t.write raw contents = some t') :
    ∃ q, t'.locate raw = some q ∧
      ∀ p, t'.read p = if p = q then some contents else t.read p := by
  rcases write_spec h with ⟨q, hq, hnot, hlookup⟩
  refine ⟨q, walk_of_isDir (fun p hp => ?_) hq, fun p => ?_⟩
  · have hne : p ≠ q := by
      intro heq
      rw [heq, hnot] at hp
      cases hp
    rw [isDir_iff, hlookup, if_neg hne]
    exact isDir_iff.mp hp
  · unfold read
    rw [hlookup]
    by_cases hp : p = q
    · rw [if_pos hp, if_pos hp]
    · rw [if_neg hp, if_neg hp]

theorem writeWithParents_read (h : t.writeWithParents raw contents = (t', true)) :
    ∃ q, t'.locate raw = some q ∧
      ∀ p, t'.read p = if p = q then some contents else t.read p := by
  unfold writeWithParents at h
  have hdirs := t.createDirAll_addsDirs raw.parent
  generalize t.createDirAll raw.parent = made at h hdirs
  rcases made with ⟨t₁, _ | _⟩
  · cases h
  · dsimp only at h hdirs
    split at h
    · cases h
    · rename_i t₂ hwrite
      cases h
      rcases write_read hwrite with ⟨q, hq, hread⟩
      exact ⟨q, hq, fun p => by rw [hread, hdirs.read]⟩

theorem writeWithParents_addsDirs (h : t.writeWithParents raw contents = (t', false)) :
    AddsDirs t t' := by
  unfold writeWithParents at h
  have hdirs := t.createDirAll_addsDirs raw.parent
  generalize t.createDirAll raw.parent = made at h hdirs
  rcases made with ⟨t₁, _ | _⟩
  · cases h
    exact hdirs
  · dsimp only at h hdirs
    split at h
    · cases h
      exact hdirs
    · cases h

/-! ## Places where a file can be written -/

/-- No directory lies at the path, and no file where it needs a directory. -/
structure Free (t : FileTree β) (p : PlainPath) : Prop where
  above : ∀ q, q <+: p → q ≠ p → t.read q = none
  here : t.isDir p = false

theorem free_iff {t : FileTree β} {p : PlainPath} :
    Free t p ↔ (∀ q ∈ p.inits, q ≠ p → (t.read q).isNone = true) ∧ t.isDir p = false := by
  simp only [List.mem_inits, Option.isNone_iff_eq_none]
  exact ⟨fun h => ⟨h.above, h.here⟩, fun h => ⟨h.1, h.2⟩⟩

instance (t : FileTree β) (p : PlainPath) : Decidable (Free t p) := decidable_of_iff' _ free_iff

theorem createDirs_raw (t : FileTree β) (p q : PlainPath) (hdir : t.isDir p = true)
    (hfree : ∀ r, r <+: q → t.read (p ++ r) = none) :
    (t.createDirs p (PlainPath.raw q)).2 = true ∧ (t.createDirs p (PlainPath.raw q)).1.isDir (p ++ q) = true ∧
      ∀ r, (t.createDirs p (PlainPath.raw q)).1.isDir r = true → t.isDir r = true ∨ r <+: p ++ q := by
  induction q generalizing t p with
  | nil =>
      rw [List.append_nil]
      exact ⟨rfl, hdir, fun r hr => .inl hr⟩
  | cons name q ih =>
      have hsplit : p ++ name :: q = p ++ [name] ++ q := by simp
      have hrest : ∀ t' : FileTree β, t'.isDir (p ++ [name]) = true →
          (∀ r, t'.read r = t.read r) →
          (∀ r, t'.isDir r = true → t.isDir r = true ∨ r = p ++ [name]) →
          t.createDirs p (PlainPath.raw (name :: q)) = t'.createDirs (p ++ [name]) (PlainPath.raw q) →
          (t.createDirs p (PlainPath.raw (name :: q))).2 = true ∧
            (t.createDirs p (PlainPath.raw (name :: q))).1.isDir (p ++ name :: q) = true ∧
            ∀ r, (t.createDirs p (PlainPath.raw (name :: q))).1.isDir r = true →
              t.isDir r = true ∨ r <+: p ++ name :: q := by
        intro t' hdir' hread hdirs heq
        rw [heq, hsplit]
        rcases ih t' (p ++ [name]) hdir' (fun r hr => by
          rw [hread, List.append_assoc]
          exact hfree (name :: r) (List.cons_prefix_cons.mpr ⟨rfl, hr⟩)) with ⟨hok, hlast, hnew⟩
        refine ⟨hok, hlast, fun r hr => ?_⟩
        rcases hnew r hr with hr | hr
        · rcases hdirs r hr with hold | rfl
          · exact .inl hold
          · exact .inr (List.prefix_append _ q)
        · exact .inr hr
      have hunfold : t.createDirs p (PlainPath.raw (name :: q)) =
          t.createDirs p (.name name :: PlainPath.raw q) := rfl
      cases hnode : t.lookup (p ++ [name]) with
      | none =>
          have h : t.isDir p = true ∧ (t.lookup (p ++ [name])).isNone = true :=
            ⟨hdir, by rw [hnode]; rfl⟩
          refine hrest (t.place (p ++ [name]) .dir (by simp) (by simpa using h.1)
            (by simp [hnode])) ?_ ?_ ?_ ?_
          · rw [isDir_iff, lookup_place, if_pos rfl]
          · exact (AddsDirs.place _ _ _ hnode).read
          · intro r hr
            rw [isDir_iff, lookup_place] at hr
            by_cases heq : r = p ++ [name]
            · exact .inr heq
            · rw [if_neg heq] at hr
              exact .inl (isDir_iff.mpr hr)
          · rw [hunfold, createDirs, dif_pos h]
      | some node =>
          have hdir' : t.isDir (p ++ [name]) = true := by
            cases node with
            | dir => exact isDir_iff.mpr hnode
            | file contents =>
                have hnone := hfree [name] (List.cons_prefix_cons.mpr ⟨rfl, List.nil_prefix⟩)
                rw [read_eq_some_iff.mpr hnode] at hnone
                cases hnone
          refine hrest t hdir' (fun _ => rfl) (fun r hr => .inl hr) ?_
          rw [hunfold, createDirs, dif_neg (by simp [hnode]), if_pos hdir']

/-- A file is written where one can be, and the new directories are those it needs. -/
theorem writeWithParents_of_free {name : FileName} (contents : β)
    (hfree : Free t (p ++ [name])) :
    ∃ t', t.writeWithParents (PlainPath.raw (p ++ [name])) contents = (t', true) ∧
      ∀ r, t'.isDir r = true → t.isDir r = true ∨ r <+: p := by
  have hroot : t.isDir [] = true := isDir_iff.mpr t.root
  rcases createDirs_raw t [] p hroot (fun r hr => by
    refine hfree.above r (hr.trans (List.prefix_append p [name])) fun heq => ?_
    have hlength := hr.length_le
    rw [heq, List.length_append, List.length_singleton] at hlength
    omega) with ⟨hok, hdir, hnew⟩
  rw [List.nil_append] at hdir
  unfold writeWithParents
  rw [RawPath.parent_raw_concat, createDirAll]
  generalize t.createDirs [] p.raw = made at hok hdir hnew
  rcases made with ⟨t₁, made⟩
  dsimp only at hok hdir hnew
  subst hok
  dsimp only
  have hnot : ¬t₁.isDir (p ++ [name]) = true := by
    intro h
    rcases hnew _ h with hold | hpre
    · rw [hfree.here] at hold
      cases hold
    · have hlength := hpre.length_le
      rw [List.nil_append, List.length_append, List.length_singleton] at hlength
      omega
  have hplace : p ++ [name] ≠ [] ∧ t₁.isDir (p ++ [name]).dropLast = true ∧
      ¬t₁.isDir (p ++ [name]) = true := by
    refine ⟨by simp, ?_, hnot⟩
    rw [List.dropLast_concat]
    exact hdir
  have hwrite : t₁.write (PlainPath.raw (p ++ [name])) contents =
      some (t₁.place (p ++ [name]) (.file contents) hplace.1 hplace.2.1 hplace.2.2) := by
    unfold write
    rw [locate_raw]
    dsimp only
    rw [dif_pos hplace]
  rw [hwrite]
  refine ⟨_, rfl, fun r hr => ?_⟩
  rw [isDir_iff, lookup_place] at hr
  by_cases heq : r = p ++ [name]
  · rw [if_pos heq] at hr
    cases hr
  · rw [if_neg heq] at hr
    rcases hnew r (isDir_iff.mpr hr) with hold | hpre
    · exact .inl hold
    · rw [List.nil_append] at hpre
      exact .inr hpre

theorem Free.write {name : FileName} (hfree : Free t q) (hread : ∀ r, t'.read r =
      if r = p ++ [name] then some contents else t.read r)
    (hdirs : ∀ r, t'.isDir r = true → t.isDir r = true ∨ r <+: p)
    (hbelow : ¬p ++ [name] <+: q) (habove : ¬q <+: p ++ [name]) : Free t' q where
  above r hr hne := by
    rw [hread, if_neg]
    · exact hfree.above r hr hne
    · rintro rfl
      exact hbelow hr
  here := by
    rw [Bool.eq_false_iff]
    intro hdir
    rcases hdirs q hdir with hold | hpre
    · rw [hfree.here] at hold
      cases hold
    · exact habove (hpre.trans (List.prefix_append p [name]))

theorem mem_children_iff {name : FileName} :
    name ∈ t.children p ↔ (t.lookup (p ++ [name])).isSome = true := by
  have hkey : ∀ q, q ∈ t.nodes.keys ↔ (t.lookup q).isSome = true := by
    intro q
    rw [← AList.mem_keys]
    exact AList.lookup_isSome.symm
  unfold children
  rw [List.mem_filterMap]
  constructor
  · intro ⟨q, hq, hname⟩
    rcases List.eq_nil_or_concat q with rfl | ⟨before, last, rfl⟩
    · cases hname
    · simp only [List.concat_eq_append, List.getLast?_concat, List.dropLast_concat] at hname hq
      split at hname
      · rename_i heq
        cases hname
        rw [← heq]
        exact (hkey _).mp hq
      · cases hname
  · intro hsome
    refine ⟨p ++ [name], (hkey _).mpr hsome, ?_⟩
    simp

theorem nodup_children (t : FileTree β) (p : PlainPath) : (t.children p).Nodup := by
  unfold children
  refine t.nodes.keys_nodup.filterMap ?_
  intro q q' name hq hq'
  have hkey : ∀ q : PlainPath, (match q.getLast? with
      | some name => if q.dropLast = p then some name else none
      | none => none) = some name → q = p ++ [name] := by
    intro q hq
    rcases List.eq_nil_or_concat q with rfl | ⟨before, last, rfl⟩
    · cases hq
    · simp only [List.concat_eq_append, List.getLast?_concat, List.dropLast_concat] at hq ⊢
      split at hq
      · rename_i heq
        cases hq
        rw [heq]
      · cases hq
  rw [hkey q hq, hkey q' hq']

end FileTree

end Files
