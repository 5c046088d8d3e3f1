import BenShu.Lib.JsonTree
import BenShu.Lib.Text

/-!
# The policy guard of tool calls

A call is checked by the installed Wasm module. Where there is none, or it fails, the
rules below decide from the name of the tool and the text of the arguments.
-/

namespace BenShu.Security

open Text

/-- The JSON parser, Unicode lowering, regular expressions and the Wasm module. -/
structure GuardLibrary (N : Type) where
  fromStr : String → Option (JsonTree N)
  toLowercase : String → String
  isMatch : String → String → Bool
  runWasmCheck : String → String → String → Except String String

namespace PolicyGuard

variable {N : Type}

def jsonKeyIsPathLike (key : String) : Bool :=
  let normalized := toAsciiLowercase (trim key)
  ["path", "file", "filepath", "file_path", "filename", "file_name", "dir", "directory",
    "source_path", "target_path", "output_path", "input_path"].contains normalized ||
    endsWith normalized "_path"

mutual

def collectPathLikeJsonStrings (key : Option String) : JsonTree N → List String
  | .string text => if key.any jsonKeyIsPathLike then [text] else []
  | .array items => collectItems key items
  | .object fields => collectFields fields
  | _ => []

def collectItems (key : Option String) : List (JsonTree N) → List String
  | [] => []
  | item :: items => collectPathLikeJsonStrings key item ++ collectItems key items

def collectFields : List (String × JsonTree N) → List String
  | [] => []
  | (childKey, childValue) :: fields =>
      collectPathLikeJsonStrings (some childKey) childValue ++ collectFields fields

end

variable (lib : GuardLibrary N) (toolName args : String)

def requiresShellStyleGuard : Bool :=
  ["terminal", "shell", "bash", "exec", "execute", "run_command", "git_ops",
    "desktop_sense"].contains (lib.toLowercase (trim toolName))

def maxArgumentBytes : Nat :=
  let normalized := lib.toLowercase (trim toolName)
  if ["delegate", "handover", "decompose", "multi_agent_audit"].contains normalized then 64 * 1024
  else if ["novel_studio", "writing_studio", "write_file", "edit_file"].contains normalized then
    128 * 1024
  else 8000

/-- The whole text is looked at when it is not JSON. -/
def traversalCheckInputs : List String :=
  match lib.fromStr args with
  | none => [args]
  | some value => collectPathLikeJsonStrings none value

def universalPatterns : List (String × String) := [("\\.\\./", "../"), ("\\.\\.\\\\", "..\\")]

def dangerousPatterns : List String :=
  ["(?i)\\b(sudo|su|dos2unix|chown|chmod)\\b", "(?i)\\brm\\s+-[rf]\x7b1,2\x7d",
    "(?i)\\b(format|vssadmin|certutil|bitsadmin)\\b",
    "(?i)\\b(del|rd|erase)\\b.*\\s/[sqrf]\x7b1,3\x7d",
    "(?i)\\b(powershell|pwsh|cmd)(\\.exe)?\\s+(-(enc|encodedcommand|c|command))?",
    "(?i)\\b(nc|netcat|ncat)\\b.*-e", "/dev/(tcp|udp)/"]

def matchedTraversal : Option String :=
  (universalPatterns.find? fun pattern =>
    (traversalCheckInputs lib args).any fun candidate => contains candidate pattern.2).map (·.1)

/-- Only tools that run commands are held to the shell patterns. -/
def matchedDanger : Option String :=
  if requiresShellStyleGuard lib toolName then
    dangerousPatterns.find? fun pattern => lib.isMatch pattern args
  else none

def internalRustPreCheck : Except String Unit :=
  match matchedTraversal lib args with
  | some pattern =>
      .error s!"Blocked by Internal Safety Guard: Matches dangerous pattern '{pattern}'"
  | none =>
      match matchedDanger lib toolName args with
      | some pattern =>
          .error s!"Blocked by Internal Safety Guard: Matches dangerous pattern '{pattern}'"
      | none =>
          let length := args.utf8ByteSize
          let limit := maxArgumentBytes lib toolName
          if length > limit then
            .error s!"Blocked by Internal Safety Guard: Arguments too long ({length} bytes > {limit} bytes)"
          else .ok ()

def Accepts (output : String) : Prop :=
  trim output = "OK" ∨ lib.toLowercase (trim output) = "pass"

instance (output : String) : Decidable (Accepts lib output) :=
  inferInstanceAs (Decidable (_ ∨ _))

def preCheck : Except String Unit :=
  match lib.runWasmCheck "pre_check" toolName args with
  | .ok output =>
      if Accepts lib output then .ok () else .error s!"Wasm Policy Violation: {output}"
  | .error _ => internalRustPreCheck lib toolName args

/-! ## The strings that are path-like -/

/-- The strings under a key that is path-like, at any depth. -/
inductive PathLike : Option String → JsonTree N → String → Prop where
  | string {key : String} {text : String} (hkey : jsonKeyIsPathLike key = true) :
      PathLike (some key) (.string text) text
  | item {key : Option String} {items : List (JsonTree N)} {item : JsonTree N} {text : String}
      (hmem : item ∈ items) (hitem : PathLike key item text) : PathLike key (.array items) text
  | field {key : Option String} {fields : List (String × JsonTree N)} {childKey : String}
      {childValue : JsonTree N} {text : String} (hmem : (childKey, childValue) ∈ fields)
      (hchild : PathLike (some childKey) childValue text) : PathLike key (.object fields) text

theorem mem_collectItems {key : Option String} {items : List (JsonTree N)} {text : String} :
    text ∈ collectItems key items ↔ ∃ item ∈ items, text ∈ collectPathLikeJsonStrings key item := by
  induction items with
  | nil => simp [collectItems]
  | cons item items ih => simp [collectItems, ih]

theorem mem_collectFields {fields : List (String × JsonTree N)} {text : String} :
    text ∈ collectFields fields ↔
      ∃ field ∈ fields, text ∈ collectPathLikeJsonStrings (some field.1) field.2 := by
  induction fields with
  | nil => simp [collectFields]
  | cons field fields ih => simp [collectFields, ih]

theorem mem_collect_of_pathLike {key : Option String} {value : JsonTree N} {text : String}
    (h : PathLike key value text) : text ∈ collectPathLikeJsonStrings key value := by
  induction h with
  | string hkey => simp [collectPathLikeJsonStrings, hkey]
  | item hmem hitem ih =>
      rw [collectPathLikeJsonStrings]
      exact mem_collectItems.mpr ⟨_, hmem, ih⟩
  | field hmem hchild ih =>
      rw [collectPathLikeJsonStrings]
      exact mem_collectFields.mpr ⟨_, hmem, ih⟩

theorem pathLike_of_mem_collect {key : Option String} {value : JsonTree N} {text : String}
    (h : text ∈ collectPathLikeJsonStrings key value) : PathLike key value text := by
  cases hvalue : value with
  | null => simp [hvalue, collectPathLikeJsonStrings] at h
  | bool value => simp [hvalue, collectPathLikeJsonStrings] at h
  | number value => simp [hvalue, collectPathLikeJsonStrings] at h
  | string found =>
      rw [hvalue] at h
      cases key with
      | none => simp [collectPathLikeJsonStrings] at h
      | some key =>
          by_cases hkey : jsonKeyIsPathLike key = true
          · simp only [collectPathLikeJsonStrings, Option.any_some, hkey, if_pos,
              List.mem_singleton] at h
            rw [h]
            exact .string hkey
          · simp [collectPathLikeJsonStrings, hkey] at h
  | array items =>
      rw [hvalue, collectPathLikeJsonStrings] at h
      obtain ⟨item, hmem, hitem⟩ := mem_collectItems.mp h
      have hsize := List.sizeOf_lt_of_mem hmem
      exact .item hmem (pathLike_of_mem_collect hitem)
  | object fields =>
      rw [hvalue, collectPathLikeJsonStrings] at h
      obtain ⟨⟨childKey, childValue⟩, hmem, hchild⟩ := mem_collectFields.mp h
      have hsize := List.sizeOf_lt_of_mem hmem
      exact .field hmem (pathLike_of_mem_collect hchild)
termination_by sizeOf value
decreasing_by
  · rw [hvalue, JsonTree.array.sizeOf_spec]
    omega
  · rw [Prod.mk.sizeOf_spec] at hsize
    rw [hvalue, JsonTree.object.sizeOf_spec]
    omega

theorem mem_collect_iff {key : Option String} {value : JsonTree N} {text : String} :
    text ∈ collectPathLikeJsonStrings key value ↔ PathLike key value text :=
  ⟨pathLike_of_mem_collect, mem_collect_of_pathLike⟩

/-! ## Traversal -/

def isSeparator (c : Char) : Bool := c == '/' || c == '\\'

def components (path : String) : List String := split path isSeparator

def HasTraversal (value : JsonTree N) : Prop :=
  ∃ text, PathLike none value text ∧ ".." ∈ components text

theorem contains_universal_iff (text : String) :
    (∃ pattern ∈ universalPatterns, contains text pattern.2 = true) ↔
      ∃ component ∈ (components text).dropLast, endsWith component ".." = true := by
  have hsep : (∃ d, isSeparator d = true ∧ "..".toList ++ [d] <:+: text.toList) ↔ _ :=
    infix_sep_iff (by simp [isSeparator]) text.toList
  have hslash : "../".toList = "..".toList ++ ['/'] := by decide
  have hback : "..\\".toList = "..".toList ++ ['\\'] := by decide
  have hpieces : (components text).dropLast =
      (splitAux isSeparator text.toList []).dropLast.map .ofList := List.map_dropLast.symm
  rw [hpieces]
  simp only [universalPatterns, List.mem_cons, List.not_mem_nil, or_false, exists_eq_or_imp,
    exists_eq_left, contains_iff, hslash, hback, List.mem_map, endsWith,
    List.isSuffixOf_iff_suffix, exists_exists_and_eq_and, String.toList_ofList, ← hsep]
  simp only [isSeparator, Bool.or_eq_true, beq_iff_eq, or_and_right, exists_or, exists_eq_left]

/-- The rules that do not look at paths. -/
def RefusedAnyway : Prop :=
  match lib.runWasmCheck "pre_check" toolName args with
  | .ok output => ¬Accepts lib output
  | .error _ =>
      (matchedDanger lib toolName args).isSome ∨
        args.utf8ByteSize > maxArgumentBytes lib toolName

def WasmUnavailable : Prop :=
  ∃ reason, lib.runWasmCheck "pre_check" toolName args = .error reason

variable {lib toolName args}

theorem matchedTraversal_isSome_iff :
    (matchedTraversal lib args).isSome = true ↔
      ∃ text ∈ traversalCheckInputs lib args,
        ∃ component ∈ (components text).dropLast, endsWith component ".." = true := by
  unfold matchedTraversal
  rw [Option.isSome_map, List.find?_isSome]
  simp only [List.any_eq_true, ← contains_universal_iff]
  constructor
  · rintro ⟨pattern, hmem, text, htext, h⟩
    exact ⟨text, htext, pattern, hmem, h⟩
  · rintro ⟨text, htext, pattern, hmem, h⟩
    exact ⟨pattern, hmem, text, htext, h⟩

theorem internalRustPreCheck_refuses_iff :
    (∃ reason, internalRustPreCheck lib toolName args = .error reason) ↔
      (matchedTraversal lib args).isSome = true ∨ (matchedDanger lib toolName args).isSome = true ∨
        args.utf8ByteSize > maxArgumentBytes lib toolName := by
  unfold internalRustPreCheck
  cases matchedTraversal lib args with
  | some pattern => simp
  | none =>
      cases matchedDanger lib toolName args with
      | some pattern => simp
      | none =>
          simp only [Option.isSome_none, Bool.false_eq_true, false_or]
          split_ifs with hlength <;> simp [hlength]

theorem preCheck_refuses_iff {value : JsonTree N} (hparse : lib.fromStr args = some value) :
    (∃ reason, preCheck lib toolName args = .error reason) ↔
      (WasmUnavailable lib toolName args ∧ ∃ text, PathLike none value text ∧
        ∃ component ∈ (components text).dropLast, endsWith component ".." = true) ∨
      RefusedAnyway lib toolName args := by
  have htraversal := @matchedTraversal_isSome_iff N lib args
  rw [traversalCheckInputs, hparse] at htraversal
  simp only [mem_collect_iff] at htraversal
  unfold preCheck WasmUnavailable RefusedAnyway
  cases lib.runWasmCheck "pre_check" toolName args with
  | ok output =>
      by_cases haccepts : Accepts lib output <;> simp [haccepts]
  | error reason =>
      simp only [Except.error.injEq, exists_eq', true_and]
      rw [internalRustPreCheck_refuses_iff, htraversal]

/-- Arguments with a traversal are refused exactly when the traversal is followed by another
component somewhere, or the call is refused for something else. -/
theorem traversal_refused_iff {value : JsonTree N} (hparse : lib.fromStr args = some value) :
    (HasTraversal value → ∃ reason, preCheck lib toolName args = .error reason) ↔
      ¬HasTraversal value ∨
      (WasmUnavailable lib toolName args ∧ ∃ text, PathLike none value text ∧
        ∃ component ∈ (components text).dropLast, endsWith component ".." = true) ∨
      RefusedAnyway lib toolName args := by
  rw [preCheck_refuses_iff hparse, ← imp_iff_not_or]

/-! ## A path that ends in two dots -/

def sampleArgs (path : String) : String := "\x7b\"path\":\"" ++ path ++ "\"\x7d"

def sampleValue (path : String) : JsonTree Nat := .object [("path", .string path)]

/-- There is no Wasm module, and the parser knows the arguments with the path. -/
def sampleLibrary (path : String) : GuardLibrary Nat where
  fromStr text := if text = sampleArgs path then some (sampleValue path) else none
  toLowercase := toAsciiLowercase
  isMatch _ _ := false
  runWasmCheck _ _ _ := .error "Security policy guard Wasm file not found"

theorem sampleLibrary_fromStr (path : String) :
    (sampleLibrary path).fromStr (sampleArgs path) = some (sampleValue path) := if_pos rfl

theorem pathLike_sampleValue (path : String) : PathLike none (sampleValue path) path :=
  .field List.mem_cons_self (.string (by decide +kernel))

theorem leadingTraversal_refused :
    ∃ reason, preCheck (sampleLibrary "../etc") "read_file" (sampleArgs "../etc") =
      .error reason := by
  refine (traversal_refused_iff (sampleLibrary_fromStr _)).mpr (.inr (.inl ?_))
    ⟨"../etc", pathLike_sampleValue _, by decide +kernel⟩
  exact ⟨⟨_, rfl⟩, "../etc", pathLike_sampleValue _, by decide +kernel⟩

theorem trailingTraversal_passes :
    ¬∀ (lib : GuardLibrary Nat) (toolName args : String) (value : JsonTree Nat),
      lib.fromStr args = some value → HasTraversal value →
        ∃ reason, preCheck lib toolName args = .error reason := by
  intro h
  obtain ⟨reason, hrefused⟩ := h (sampleLibrary "a/..") "read_file" (sampleArgs "a/..") _
    (sampleLibrary_fromStr _) ⟨"a/..", pathLike_sampleValue _, by decide +kernel⟩
  have hpasses : preCheck (sampleLibrary "a/..") "read_file" (sampleArgs "a/..") = .ok () := by
    decide +kernel
  rw [hpasses] at hrefused
  cases hrefused

end PolicyGuard

end BenShu.Security
