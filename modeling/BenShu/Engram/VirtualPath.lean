import BenShu.Lib.Segments

/-!
# Virtual paths

The addresses of documents: a collection and the path of a document within it, read from a text
with a scheme. A text is trimmed and brought into a normal form of its characters before it is
read.
-/

namespace BenShu.Engram

structure VirtualPath where
  collection : String
  path : String
  deriving DecidableEq

structure InvalidPath where
  reason : String
  deriving DecidableEq

def isSlash (c : Char) : Bool := c == '/'

namespace VirtualPath

def isSafeSegment (s : String) : Bool := !s.isEmpty && s != ".." && s != "."

/-- What stands for the collection and what stands for the path, where the scheme is there. -/
def location (nfc : String → String) (input : String) : Option (String × String) :=
  let normalized := nfc (Text.trim input)
  let rest := (Text.afterStart? normalized "benshu://").or (Text.afterStart? normalized "//")
  rest.map fun rest => (Text.splitOnce rest '/').getD (rest, "")

def parse (nfc : String → String) (input : String) : Except InvalidPath VirtualPath :=
  match location nfc input with
  | none => .error ⟨"Missing benshu:// prefix"⟩
  | some (collection, innerPath) =>
      if collection.isEmpty || collection.toList.any (fun c => Text.isWhitespace c || c == ':') then
        .error ⟨"Invalid collection name"⟩
      -- empty segments pass
      else if !innerPath.isEmpty && (Text.split innerPath isSlash).any
          (fun segment => !isSafeSegment segment && !segment.isEmpty) then
        .error ⟨"Path traversal detected"⟩
      else .ok { collection, path := Text.trimMatches innerPath isSlash }

def build (collection path : String) : String :=
  let path := Text.trimMatches path isSlash
  if path.isEmpty then "benshu://" ++ collection
  else "benshu://" ++ collection ++ "/" ++ path

def toStorageKey (v : VirtualPath) : String := v.collection ++ ":" ++ v.path

instance : ToString VirtualPath := ⟨fun v => build v.collection v.path⟩

def components (v : VirtualPath) : List String :=
  v.collection :: if v.path.isEmpty then [] else Text.split v.path isSlash

/-- What the normal form of a text is known to keep: it is reached in one step, pieces of a text
in normal form are in normal form, and so are two such texts around a slash. -/
structure NormalForm (nfc : String → String) : Prop where
  idempotent : ∀ s, nfc (nfc s) = nfc s
  piece : ∀ s t, nfc s = s → t.toList <:+: s.toList → nfc t = t
  joined : ∀ s t, nfc s = s → nfc t = t → nfc (s ++ "/" ++ t) = s ++ "/" ++ t
  ascii : ∀ s, (∀ c ∈ s.toList, c.toNat < 128) → nfc s = s

/-- The collection is no dot segment, empty segments stand only at the ends of the path, and no
white space stands at its end or before the slashes there. -/
structure Clean (collection innerPath : String) : Prop where
  named : collection ≠ "." ∧ collection ≠ ".."
  gapless : Text.Gapless (Text.splitAux isSlash innerPath.toList [])
  solid : ∀ c ∈ (Text.trimEndMatches innerPath isSlash).toList.getLast?,
    Text.isWhitespace c = false

/-! ## Reading -/

section

variable {nfc : String → String} {input collection innerPath : String}

/-- The collection has no slash, and both parts stand in the normal form as they were written. -/
theorem location_spec (h : location nfc input = some (collection, innerPath)) :
    '/' ∉ collection.toList ∧
      ∃ rest, '/' :: '/' :: (collection.toList ++ rest) <:+ (nfc (Text.trim input)).toList ∧
        (rest = [] ∧ innerPath = "" ∨ rest = '/' :: innerPath.toList) := by
  obtain ⟨rest, hrest, hparts⟩ := Option.map_eq_some_iff.mp h
  have hsuffix : '/' :: '/' :: rest.toList <:+ (nfc (Text.trim input)).toList := by
    rcases Option.or_eq_some_iff.mp hrest with hscheme | ⟨-, hscheme⟩
    · exact ⟨"benshu:".toList, (Text.afterStart?_some hscheme).symm⟩
    · exact ⟨[], (Text.afterStart?_some hscheme).symm⟩
  cases hsplit : Text.splitOnce rest '/' with
  | none =>
      rw [hsplit] at hparts
      cases hparts
      exact ⟨Text.splitOnce_none hsplit, [], by simpa using hsuffix, .inl ⟨rfl, rfl⟩⟩
  | some parts =>
      rw [hsplit] at hparts
      cases hparts
      obtain ⟨happend, hslash⟩ := Text.splitOnce_some hsplit
      exact ⟨hslash, _, happend ▸ hsuffix, .inr rfl⟩

theorem location_of_bare (hslash : '/' ∉ collection.toList)
    (h : nfc (Text.trim input) = "benshu://" ++ collection) :
    location nfc input = some (collection, "") := by
  rw [location, h, Text.afterStart?_append]
  simp [Text.splitOnce_of_notMem hslash]

theorem location_of_path (hslash : '/' ∉ collection.toList)
    (h : nfc (Text.trim input) = "benshu://" ++ (collection ++ "/" ++ innerPath)) :
    location nfc input = some (collection, innerPath) := by
  have hsplit : Text.splitOnce (collection ++ "/" ++ innerPath) '/' =
      some (collection, innerPath) :=
    Text.splitOnce_append hslash (by simp [String.toList_append])
  rw [location, h, Text.afterStart?_append]
  simp [hsplit]

def Nameable (collection : String) : Prop :=
  collection ≠ "" ∧ ∀ c ∈ collection.toList, Text.isWhitespace c = false ∧ c ≠ ':'

theorem nameable_iff : (collection.isEmpty || collection.toList.any
    (fun c => Text.isWhitespace c || c == ':')) = false ↔ Nameable collection := by
  simp [Nameable]

theorem segments_iff : (!innerPath.isEmpty && (Text.split innerPath isSlash).any
    (fun segment => !isSafeSegment segment && !segment.isEmpty)) = false ↔
      ∀ segment ∈ Text.split innerPath isSlash, segment ≠ "." ∧ segment ≠ ".." := by
  have hsegment : ∀ segment : String, (!isSafeSegment segment && !segment.isEmpty) = false ↔
      segment ≠ "." ∧ segment ≠ ".." := by
    intro segment
    by_cases hempty : segment = ""
    · subst hempty
      simp
    · by_cases hdot : segment = "." <;> by_cases hdots : segment = ".." <;>
        simp [isSafeSegment, hempty, hdot, hdots]
  by_cases hempty : innerPath = ""
  · subst hempty
    simp [Text.split, Text.splitAux]
  · simp only [Bool.and_eq_false_iff, List.any_eq_false, Bool.not_eq_true, hsegment]
    simp [hempty]

theorem parse_eq_ok_iff {v : VirtualPath} :
    parse nfc input = .ok v ↔
      ∃ innerPath, location nfc input = some (v.collection, innerPath) ∧
        Nameable v.collection ∧
        (∀ segment ∈ Text.split innerPath isSlash, segment ≠ "." ∧ segment ≠ "..") ∧
        v.path = Text.trimMatches innerPath isSlash := by
  unfold parse
  constructor
  · intro h
    split at h
    · cases h
    · rename_i collection innerPath hlocation
      split_ifs at h with hname hsegments
      cases h
      exact ⟨innerPath, hlocation, nameable_iff.mp (by simpa using hname),
        segments_iff.mp (by simpa using hsegments), rfl⟩
  · rintro ⟨innerPath, hlocation, hname, hsegments, hpath⟩
    rw [hlocation]
    dsimp only
    rw [nameable_iff.mpr hname, segments_iff.mpr hsegments, ← hpath]
    rfl

end

/-! ## What was read -/

/-- The parts of an accepted text. -/
structure ReadFrom (nfc : String → String) (input : String) (v : VirtualPath)
    (innerPath : String) (lead middle tail : List Char) : Prop where
  located : location nfc input = some (v.collection, innerPath)
  nameable : Nameable v.collection
  segments : ∀ segment ∈ Text.split innerPath isSlash, segment ≠ "." ∧ segment ≠ ".."
  parts : Text.TrimParts isSlash innerPath.toList lead middle tail
  path : v.path = .ofList middle

theorem exists_readFrom {nfc : String → String} {input : String} {v : VirtualPath}
    (h : parse nfc input = .ok v) :
    ∃ innerPath lead middle tail, ReadFrom nfc input v innerPath lead middle tail := by
  obtain ⟨innerPath, hlocation, hname, hsegments, hpath⟩ := parse_eq_ok_iff.mp h
  obtain ⟨lead, middle, tail, hparts⟩ := Text.trim_parts isSlash innerPath.toList
  exact ⟨innerPath, lead, middle, tail, hlocation, hname, hsegments, hparts,
    hpath.trans hparts.trimMatches⟩

namespace ReadFrom

variable {nfc : String → String} {input : String} {v : VirtualPath} {innerPath : String}
  {lead middle tail : List Char} (h : ReadFrom nfc input v innerPath lead middle tail)
include h

theorem path_toList : v.path.toList = middle := by rw [h.path, String.toList_ofList]

theorem trim_path : Text.trimMatches v.path isSlash = v.path :=
  Text.trimMatches_eq_self (h.path_toList ▸ h.parts.head_not) (h.path_toList ▸ h.parts.last_not)

theorem path_eq_empty_iff : v.path = "" ↔ middle = [] := by
  rw [← String.toList_inj, h.path_toList, String.toList_empty]

theorem path_segments : ∀ segment ∈ Text.split v.path isSlash, segment ≠ "." ∧ segment ≠ ".." := by
  intro segment hsegment
  obtain ⟨piece, hpiece, rfl⟩ := List.mem_map.mp hsegment
  rw [h.path_toList] at hpiece
  refine h.segments _ (List.mem_map_of_mem ?_)
  rw [h.parts.pieces]
  exact List.mem_append_right _ (List.mem_append_left _ hpiece)

theorem toString_bare (hpath : v.path = "") : toString v = "benshu://" ++ v.collection := by
  show build _ _ = _
  rw [build, h.trim_path, hpath]
  rfl

theorem toString_path (hpath : v.path ≠ "") :
    toString v = "benshu://" ++ (v.collection ++ "/" ++ v.path) := by
  show build _ _ = _
  rw [build, h.trim_path]
  simp [hpath, String.append_assoc]

theorem normal_toString (laws : NormalForm nfc) : nfc (toString v) = toString v := by
  have hnormal := laws.idempotent (Text.trim input)
  obtain ⟨-, rest, hsuffix, hrest⟩ := location_spec h.located
  have hcollection : nfc ("/" ++ v.collection) = "/" ++ v.collection := by
    refine laws.piece _ _ hnormal (List.IsInfix.trans ?_ hsuffix.isInfix)
    exact ⟨['/'], rest, by simp [String.toList_append]⟩
  have hbare : nfc ("benshu://" ++ v.collection) = "benshu://" ++ v.collection := by
    have hscheme : nfc "benshu:" = "benshu:" := laws.ascii _ (by simp)
    have hjoined := laws.joined _ _ hscheme hcollection
    have heq : "benshu:" ++ "/" ++ ("/" ++ v.collection) = "benshu://" ++ v.collection := by
      apply String.toList_injective
      simp [String.toList_append]
    rwa [heq] at hjoined
  by_cases hpath : v.path = ""
  · rw [h.toString_bare hpath]
    exact hbare
  · have hinner : nfc v.path = v.path := by
      refine laws.piece _ _ hnormal (List.IsInfix.trans ?_ hsuffix.isInfix)
      rw [h.path_toList]
      rcases hrest with ⟨-, hempty⟩ | hrest
      · have hnil := h.parts.append
        rw [hempty] at hnil
        obtain ⟨-, hmiddle, -⟩ : lead = [] ∧ middle = [] ∧ tail = [] := by simpa using hnil.symm
        exact absurd (h.path_eq_empty_iff.mpr hmiddle) hpath
      · refine ⟨'/' :: '/' :: (v.collection.toList ++ '/' :: lead), tail, ?_⟩
        rw [hrest, h.parts.append]
        simp
    rw [h.toString_path hpath]
    have hjoined := laws.joined _ _ hbare hinner
    simpa [String.append_assoc] using hjoined

theorem trim_toString (hpath : v.path ≠ "") :
    Text.trim (toString v) =
      "benshu://" ++ (v.collection ++ "/" ++ Text.trimEndMatches v.path Text.isWhitespace) := by
  have htrim := @Text.trimChars_append ('b' :: ("enshu://".toList ++ v.collection.toList) ++ ['/'])
    v.path.toList _ _ _ rfl (by decide) (by decide)
  apply String.toList_injective
  rw [Text.trim, h.toString_path hpath, String.toList_ofList]
  simpa [String.toList_append, Text.trimEndMatches, List.rdropWhile] using htrim

theorem trim_toString_bare (hpath : v.path = "") : Text.trim (toString v) = toString v := by
  have hkept : v.collection.toList.rdropWhile Text.isWhitespace = v.collection.toList :=
    Text.rdropWhile_eq_self_iff_last.mpr fun c hc =>
      (h.nameable.2 c (List.mem_of_getLast? hc)).1
  have htrim := @Text.trimChars_append ('b' :: "enshu:/".toList ++ ['/']) v.collection.toList
    _ _ _ rfl (by decide) (by decide)
  rw [hkept] at htrim
  apply String.toList_injective
  rw [Text.trim, h.toString_bare hpath, String.toList_ofList]
  simpa [String.toList_append] using htrim

theorem location_toString (laws : NormalForm nfc) :
    location nfc (toString v) =
      some (v.collection, Text.trimEndMatches v.path Text.isWhitespace) := by
  obtain ⟨hslash, -⟩ := location_spec h.located
  have hnormal := h.normal_toString laws
  by_cases hpath : v.path = ""
  · rw [hpath]
    apply location_of_bare hslash
    rw [h.trim_toString_bare hpath, hnormal, h.toString_bare hpath]
  · apply location_of_path hslash
    have htrimmed : nfc (Text.trim (toString v)) = Text.trim (toString v) := by
      refine laws.piece _ _ hnormal (List.IsPrefix.isInfix ?_)
      obtain ⟨cut, hcut⟩ := List.rdropWhile_prefix Text.isWhitespace v.path.toList
      refine ⟨cut, ?_⟩
      rw [h.trim_toString hpath, h.toString_path hpath]
      simpa [String.toList_append, Text.trimEndMatches, List.rdropWhile] using hcut
    rw [htrimmed, h.trim_toString hpath]

theorem parse_toString_iff (laws : NormalForm nfc) :
    parse nfc (toString v) = .ok v ↔
      ∀ c ∈ v.path.toList.getLast?, Text.isWhitespace c = false := by
  have hlocation := h.location_toString laws
  rw [← Text.rdropWhile_eq_self_iff_last]
  constructor
  · intro hparse
    obtain ⟨innerPath', hlocation', -, -, hpath⟩ := parse_eq_ok_iff.mp hparse
    rw [hlocation] at hlocation'
    cases hlocation'
    obtain ⟨front, kept, back, hparts⟩ := Text.trim_parts isSlash
      (Text.trimEndMatches v.path Text.isWhitespace).toList
    rw [hparts.trimMatches] at hpath
    have hcut := List.rdropWhile_prefix Text.isWhitespace v.path.toList
    have hkept := congrArg List.length hparts.append
    have hlength : v.path.toList.length = kept.length := by rw [hpath, String.toList_ofList]
    rw [Text.trimEndMatches, String.toList_ofList, List.length_append, List.length_append] at hkept
    refine hcut.eq_of_length_le ?_
    rw [List.rdropWhile, hkept]
    omega
  · intro hkept
    have hpath : Text.trimEndMatches v.path Text.isWhitespace = v.path :=
      (congrArg String.ofList hkept).trans String.ofList_toList
    rw [hpath] at hlocation
    exact parse_eq_ok_iff.mpr
      ⟨v.path, hlocation, h.nameable, h.path_segments, h.trim_path.symm⟩

theorem solid_iff :
    (∀ c ∈ (Text.trimEndMatches innerPath isSlash).toList.getLast?,
        Text.isWhitespace c = false) ↔
      ∀ c ∈ v.path.toList.getLast?, Text.isWhitespace c = false := by
  rw [h.path_toList]
  by_cases hmiddle : middle = []
  · have hall : ∀ c ∈ innerPath.toList, isSlash c = true := by
      rw [h.parts.append, hmiddle, h.parts.tail_nil hmiddle]
      simpa using h.parts.lead_all
    have hnil : innerPath.toList.rdropWhile isSlash = [] := List.rdropWhile_eq_nil_iff.mpr hall
    rw [hmiddle, Text.trimEndMatches, String.toList_ofList, ← List.rdropWhile, hnil]
  · rw [h.parts.trimEndMatches hmiddle, String.toList_ofList,
      List.getLast?_append_of_ne_nil _ hmiddle]

theorem segments_nonempty_iff :
    Text.Gapless (Text.splitAux isSlash innerPath.toList []) ↔
      v.path ≠ "" → ∀ segment ∈ Text.split v.path isSlash, segment ≠ "" := by
  by_cases hmiddle : middle = []
  · have hgapless := h.parts.gapless_of_nil hmiddle
    simp [hgapless, h.path_eq_empty_iff, hmiddle]
  · rw [h.parts.gapless_iff hmiddle, Text.split, h.path_toList]
    simp [h.path_eq_empty_iff, hmiddle]

/-- The components are proper ones exactly when the collection is no dot segment and the path
has no gap. -/
theorem components_iff :
    (∀ component ∈ v.components, component ≠ "." ∧ component ≠ ".." ∧ component ≠ "") ↔
      (v.collection ≠ "." ∧ v.collection ≠ "..") ∧
        Text.Gapless (Text.splitAux isSlash innerPath.toList []) := by
  have hname := h.nameable.1
  rw [h.segments_nonempty_iff]
  by_cases hpath : v.path = ""
  · simp [components, hpath, hname]
  · have hdots := h.path_segments
    have hcomponents : v.components = v.collection :: Text.split v.path isSlash := by
      rw [components, if_neg (by simp [hpath])]
    rw [hcomponents, List.forall_mem_cons]
    constructor
    · rintro ⟨⟨hdot, hdotdot, -⟩, hrest⟩
      exact ⟨⟨hdot, hdotdot⟩, fun _ segment hsegment => (hrest segment hsegment).2.2⟩
    · rintro ⟨⟨hdot, hdotdot⟩, hrest⟩
      exact ⟨⟨hdot, hdotdot, hname⟩, fun segment hsegment =>
        ⟨(hdots segment hsegment).1, (hdots segment hsegment).2, hrest hpath segment hsegment⟩⟩

end ReadFrom

/-! ## Canonical texts -/

theorem toStorageKey_injective {v w : VirtualPath} (hv : Nameable v.collection)
    (hw : Nameable w.collection) (h : w.toStorageKey = v.toStorageKey) : w = v := by
  have hkey := congrArg String.toList h
  simp only [toStorageKey, String.toList_append, List.append_assoc] at hkey
  obtain ⟨hcollection, hpath⟩ := Text.append_cons_inj_of_notMem_left hkey
    (fun hmem => (hw.2 _ hmem).2 rfl) (fun hmem => (hv.2 _ hmem).2 rfl)
  exact congrArg₂ mk (String.toList_injective hcollection) (String.toList_injective hpath)

def CleanInput (nfc : String → String) (input : String) : Prop :=
  ∃ parts ∈ location nfc input, Clean parts.1 parts.2

/-- An accepted text has a canonical form that is read back, proper components and a storage key
of its own exactly when it is clean. -/
theorem parse_canonical_iff {nfc : String → String} (laws : NormalForm nfc) {input : String}
    {v : VirtualPath} (hv : parse nfc input = .ok v) :
    (parse nfc (toString v) = .ok v ∧
        (∀ component ∈ v.components, component ≠ "." ∧ component ≠ ".." ∧ component ≠ "") ∧
        ∀ input' w, parse nfc input' = .ok w → w.toStorageKey = v.toStorageKey → w = v) ↔
      CleanInput nfc input := by
  obtain ⟨innerPath, lead, middle, tail, h⟩ := exists_readFrom hv
  have hkeys : ∀ input' w, parse nfc input' = .ok w → w.toStorageKey = v.toStorageKey → w = v := by
    intro input' w hw hkey
    obtain ⟨_, -, hname, -⟩ := parse_eq_ok_iff.mp hw
    exact toStorageKey_injective h.nameable hname hkey
  rw [h.parse_toString_iff laws, h.components_iff, ← h.solid_iff]
  constructor
  · rintro ⟨hsolid, ⟨hnamed, hgapless⟩, -⟩
    exact ⟨_, h.located, hnamed, hgapless, hsolid⟩
  · rintro ⟨parts, hparts, hclean⟩
    rw [Option.mem_def, h.located] at hparts
    cases hparts
    exact ⟨hclean.solid, ⟨hclean.named, hclean.gapless⟩, hkeys⟩

theorem normalForm_id : NormalForm id :=
  ⟨fun _ => rfl, fun _ _ _ _ => rfl, fun _ _ _ _ => rfl, fun _ _ => rfl⟩

theorem parse_canonical_document :
    parse id "benshu://docs/a.md" = .ok ⟨"docs", "a.md"⟩ ∧
      ((parse id "benshu://docs/a.md" = .ok ⟨"docs", "a.md"⟩ ∧
          (∀ component ∈ components ⟨"docs", "a.md"⟩,
            component ≠ "." ∧ component ≠ ".." ∧ component ≠ "") ∧
          ∀ input' w, parse id input' = .ok w →
            w.toStorageKey = toStorageKey ⟨"docs", "a.md"⟩ → w = ⟨"docs", "a.md"⟩) ↔
        CleanInput id "benshu://docs/a.md") := by
  have hread : parse id "benshu://docs/a.md" = .ok ⟨"docs", "a.md"⟩ := by decide +kernel
  have htext : toString (⟨"docs", "a.md"⟩ : VirtualPath) = "benshu://docs/a.md" := by
    decide +kernel
  have hiff := parse_canonical_iff normalForm_id hread
  rw [htext] at hiff
  exact ⟨hread, hiff⟩

/-- A blank before the last slash is lost on the second reading, a collection may be a dot segment,
and segments within the path may be empty. -/
theorem parse_accepts_improper :
    (parse id "benshu://docs/a /" = .ok ⟨"docs", "a "⟩ ∧
        parse id (toString (⟨"docs", "a "⟩ : VirtualPath)) = .ok ⟨"docs", "a"⟩) ∧
      (parse id "benshu://../a" = .ok ⟨"..", "a"⟩ ∧ ".." ∈ components ⟨"..", "a"⟩) ∧
      (parse id "benshu://docs/a//b" = .ok ⟨"docs", "a//b"⟩ ∧
        "" ∈ components ⟨"docs", "a//b"⟩) := by
  decide +kernel

end VirtualPath

end BenShu.Engram
