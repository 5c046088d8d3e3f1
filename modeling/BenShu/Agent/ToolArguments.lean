import BenShu.Agent.Executor
import BenShu.Lib.FirstMatch
import BenShu.Lib.JsonTree

/-!
# Arguments at the security boundary

The long texts among the arguments of a coordination or browser tool are cut before they are
checked. Which fields are cut and how far is fixed, so the whole fits only if the rest leaves
enough space.
-/

namespace BenShu.Agent

open FirstMatch

abbrev ArgumentFields (N : Type) := List (String × JsonTree N)

def coordinationToolArgSecurityLimit : Nat := 7600

def coordinationToolTextFieldLimit : Nat := 4800

def browserToolArgSecurityLimit : Nat := 7600

def browserRuntimeContextFieldLimit : Nat := 1200

def browserTextFieldLimit : Nat := 2400

def runtimeTaskContextArgKey : String := "_benshu_task_context"

def coordinationTextKeys : List String :=
  ["task", "full_user_request", "message", "content", "input"]

def browserTextKeys : List String := ["text", "query", "selector", "script"]

def isBrowserTool (toolName : String) : Bool :=
  toolName == "browser_browse" || toolName == "browser"

/-! ## One text -/

def compactionMarker (omitted : Nat) : String :=
  s!"\n\n[... runtime compacted oversized tool argument; omitted {omitted} chars ...]\n\n"

def compactArgumentText (text : String) (maxChars : Nat) : String :=
  let cs := text.toList
  if cs.length ≤ maxChars then text
  else
    let headLen := maxChars * 3 / 5
    let tailLen := maxChars - headLen - 96
    .ofList (cs.take headLen ++ (compactionMarker (cs.length - (headLen + tailLen))).toList ++
      cs.drop (cs.length - tailLen))

theorem length_compactionMarker (omitted : Nat) :
    (compactionMarker omitted).toList.length = 71 + (Nat.toDigits 10 omitted).length ∧
      (JsonTree.escape (compactionMarker omitted).toList).length =
        75 + (Nat.toDigits 10 omitted).length := by
  have hdigits : (toString omitted).toList = Nat.toDigits 10 omitted := Nat.toList_repr
  have hmarker : (compactionMarker omitted).toList =
      "\n\n[... runtime compacted oversized tool argument; omitted ".toList ++
        Nat.toDigits 10 omitted ++ " chars ...]\n\n".toList := by
    rw [← hdigits, ← String.toList_append, ← String.toList_append]
    rfl
  have hescape : JsonTree.escape (Nat.toDigits 10 omitted) = Nat.toDigits 10 omitted :=
    JsonTree.escape_digits fun c hc => Nat.isDigit_of_mem_toDigits (by decide) (by decide) hc
  have hfront : (JsonTree.escape
      "\n\n[... runtime compacted oversized tool argument; omitted ".toList).length = 60 := by
    simp [JsonTree.escape, JsonTree.escapeChar]
  have hback : (JsonTree.escape " chars ...]\n\n".toList).length = 15 := by
    simp [JsonTree.escape, JsonTree.escapeChar]
  rw [hmarker]
  constructor
  · simp
    omega
  · simp only [JsonTree.escape_append, List.length_append, hescape, hfront, hback]
    omega

theorem length_compactionMarker_le {omitted : Nat} (h : 97 ≤ omitted) :
    (compactionMarker omitted).toList.length < omitted ∧
      (JsonTree.escape (compactionMarker omitted).toList).length ≤ omitted := by
  have hpow : omitted - 97 < 10 ^ (omitted - 97) := Nat.lt_pow_self (by decide)
  have hsplit : 10 ^ (omitted - 75) = 10 ^ (omitted - 97) * 10 ^ 22 := by
    rw [← pow_add]
    exact congrArg (10 ^ ·) (by omega)
  have hdigits : (Nat.toDigits 10 omitted).length ≤ omitted - 75 :=
    (Nat.length_toDigits_le_iff (by decide) (by omega)).mpr (by omega)
  rw [(length_compactionMarker omitted).1, (length_compactionMarker omitted).2]
  omega

def SameEnds (text text' : String) : Prop :=
  text'.toList.take 720 = text.toList.take 720 ∧
    text'.toList.reverse.take 384 = text.toList.reverse.take 384

theorem compactArgumentText_of_le {text : String} {maxChars : Nat}
    (h : text.toList.length ≤ maxChars) : compactArgumentText text maxChars = text := by
  rw [compactArgumentText, if_pos h]

/-- A text over its cap of at least 1200 characters keeps its ends and gets shorter, also when it
is written out. -/
theorem compactArgumentText_cut {text : String} {maxChars : Nat} (hcap : 1200 ≤ maxChars)
    (h : maxChars < text.toList.length) :
    SameEnds text (compactArgumentText text maxChars) ∧
      (compactArgumentText text maxChars).toList.length < text.toList.length ∧
      (JsonTree.escape (compactArgumentText text maxChars).toList).length ≤
        (JsonTree.escape text.toList).length := by
  obtain ⟨head, omitted, tail, htext, hhead, htail, hlong, hcut⟩ :
      ∃ head omitted tail, text.toList = head ++ omitted ++ tail ∧ 720 ≤ head.length ∧
        384 ≤ tail.length ∧ 97 ≤ omitted.length ∧
        (compactArgumentText text maxChars).toList =
          head ++ (compactionMarker omitted.length).toList ++ tail := by
    refine ⟨text.toList.take (maxChars * 3 / 5),
      (text.toList.drop (maxChars * 3 / 5)).take
        (text.toList.length - (maxChars * 3 / 5 + (maxChars - maxChars * 3 / 5 - 96))),
      text.toList.drop (text.toList.length - (maxChars - maxChars * 3 / 5 - 96)),
      ?_, ?_, ?_, ?_, ?_⟩
    · have hafter : text.toList.drop (text.toList.length - (maxChars - maxChars * 3 / 5 - 96)) =
          (text.toList.drop (maxChars * 3 / 5)).drop
            (text.toList.length - (maxChars * 3 / 5 + (maxChars - maxChars * 3 / 5 - 96))) := by
        rw [List.drop_drop]
        congr 1
        omega
      rw [hafter, List.append_assoc, List.take_append_drop, List.take_append_drop]
    · rw [List.length_take]
      omega
    · rw [List.length_drop]
      omega
    · rw [List.length_take, List.length_drop]
      omega
    · have hlength : ((text.toList.drop (maxChars * 3 / 5)).take (text.toList.length -
          (maxChars * 3 / 5 + (maxChars - maxChars * 3 / 5 - 96)))).length =
          text.toList.length - (maxChars * 3 / 5 + (maxChars - maxChars * 3 / 5 - 96)) := by
        rw [List.length_take, List.length_drop]
        omega
      rw [compactArgumentText, if_neg (Nat.not_le.mpr h), String.toList_ofList, hlength]
  obtain ⟨hraw, hescaped⟩ := length_compactionMarker_le hlong
  rw [SameEnds, hcut, htext]
  refine ⟨⟨?_, ?_⟩, ?_, ?_⟩
  · rw [List.append_assoc, List.append_assoc, List.take_append_of_le_length hhead,
      List.take_append_of_le_length hhead]
  · rw [← List.length_reverse] at htail
    simp only [List.reverse_append, List.take_append_of_le_length htail]
  · simp only [List.length_append]
    omega
  · have hlower := JsonTree.length_le_length_escape omitted
    simp only [JsonTree.escape_append, List.length_append]
    omega

/-! ## One value -/

def compactValue {N : Type} (maxChars : Nat) : JsonTree N → JsonTree N
  | .string text => .string (compactArgumentText text maxChars)
  | value => value

variable {N : Type} (number : N → List Char)

/-- A value is left as it is, or it is a text that keeps its ends. -/
inductive KeptValue : JsonTree N → JsonTree N → Prop where
  | same (value : JsonTree N) : KeptValue value value
  | cut {text text' : String} (hends : SameEnds text text') :
      KeptValue (.string text) (.string text')

/-- A field with its key, and a kept value that is not longer when it is written. -/
structure ShorterField (field field' : String × JsonTree N) : Prop where
  key : field'.1 = field.1
  value : KeptValue field.2 field'.2
  length : (field'.2.text number).length ≤ (field.2.text number).length

variable {number}

theorem ShorterField.refl (field : String × JsonTree N) : ShorterField number field field :=
  ⟨rfl, .same _, Nat.le_refl _⟩

theorem ShorterField.trans {field field' field'' : String × JsonTree N}
    (h : ShorterField number field field') (h' : ShorterField number field' field'') :
    ShorterField number field field'' := by
  refine ⟨h'.key.trans h.key, ?_, h'.length.trans h.length⟩
  have hvalue := h.value
  have hvalue' := h'.value
  revert hvalue hvalue'
  generalize field.2 = value, field'.2 = value', field''.2 = value''
  rintro (_ | @⟨text, text', hends⟩) hvalue'
  · exact hvalue'
  · rcases hvalue' with _ | hends'
    · exact .cut hends
    · exact .cut ⟨hends'.1.trans hends.1, hends'.2.trans hends.2⟩

theorem shorterField_compactValue {maxChars : Nat} (hcap : 1200 ≤ maxChars) (key : String)
    (value : JsonTree N) : ShorterField number (key, value) (key, compactValue maxChars value) := by
  cases value with
  | string text =>
      by_cases h : text.toList.length ≤ maxChars
      · rw [compactValue, compactArgumentText_of_le h]
        exact .refl _
      · obtain ⟨hends, -, hlength⟩ := compactArgumentText_cut hcap (Nat.not_le.mp h)
        refine ⟨rfl, .cut hends, ?_⟩
        simp only [compactValue, JsonTree.text, JsonTree.quoted, List.length_append,
          List.length_cons]
        omega
  | _ => exact .refl _

/-! ## The fields of an object -/

variable (number)

def encodedLength (fields : ArgumentFields N) : Nat :=
  (JsonTree.text number (.object fields)).length

/-- The fields of an object, each with its key and a kept value that is not longer. -/
abbrev Shorter : ArgumentFields N → ArgumentFields N → Prop := List.Forall₂ (ShorterField number)

def compactField (maxChars : Nat) (key : String) (fields : ArgumentFields N) : ArgumentFields N :=
  modifyFirst (·.1 == key) (fun field => (field.1, compactValue maxChars field.2)) fields

def compactFields (maxChars : Nat) (keys : List String) (fields : ArgumentFields N) :
    ArgumentFields N :=
  keys.foldl (fun fields key => compactField maxChars key fields) fields

variable {number} {fields fields' fields'' : ArgumentFields N} {maxChars : Nat}

theorem Shorter.refl (fields : ArgumentFields N) : Shorter number fields fields :=
  List.forall₂_same.mpr fun field _ => .refl field

theorem Shorter.trans (h : Shorter number fields fields') (h' : Shorter number fields' fields'') :
    Shorter number fields fields'' := by
  induction h generalizing fields'' with
  | nil => exact h'
  | cons hfield _ ih =>
      cases h' with
      | cons hfield' h' => exact .cons (hfield.trans hfield') (ih h')

theorem Shorter.encodedLength_le (h : Shorter number fields fields') :
    encodedLength number fields' ≤ encodedLength number fields :=
  JsonTree.length_text_object_le (h.imp fun _ _ hfield => ⟨hfield.key, hfield.length⟩)

theorem shorter_compactField (hcap : 1200 ≤ maxChars) (key : String) (fields : ArgumentFields N) :
    Shorter number fields (compactField maxChars key fields) := by
  induction fields with
  | nil => exact .nil
  | cons field fields ih =>
      rw [compactField, modifyFirst]
      split_ifs with hkey
      · exact .cons (shorterField_compactValue hcap field.1 field.2) (Shorter.refl fields)
      · exact .cons (.refl field) ih

theorem shorter_compactFields (hcap : 1200 ≤ maxChars) (keys : List String)
    (fields : ArgumentFields N) : Shorter number fields (compactFields maxChars keys fields) := by
  induction keys generalizing fields with
  | nil => exact Shorter.refl fields
  | cons key keys ih => exact (shorter_compactField hcap key fields).trans (ih _)

/-! ## The compactions -/

section

variable (number)

/-- One field after the other, until the object fits. -/
def compactUntilFits : List String → ArgumentFields N → ArgumentFields N
  | [], fields => fields
  | key :: keys, fields =>
      match fields.find? (·.1 == key) with
      | some (_, .string _) =>
          let compacted := compactField 2400 key fields
          if encodedLength number compacted ≤ coordinationToolArgSecurityLimit then compacted
          else compactUntilFits keys compacted
      | _ => compactUntilFits keys fields

def compactCoordinationToolArgs (fields : ArgumentFields N) : ArgumentFields N :=
  if encodedLength number fields ≤ coordinationToolArgSecurityLimit then fields
  else
    let compacted := compactFields coordinationToolTextFieldLimit coordinationTextKeys fields
    if encodedLength number compacted ≤ coordinationToolArgSecurityLimit then compacted
    else compactUntilFits number coordinationTextKeys compacted

def compactBrowserToolArgs (fields : ArgumentFields N) : ArgumentFields N :=
  let compacted := compactField browserRuntimeContextFieldLimit runtimeTaskContextArgKey fields
  if encodedLength number compacted ≤ browserToolArgSecurityLimit then compacted
  else compactFields browserTextFieldLimit browserTextKeys compacted

def compactToolArgsForSecurityBoundary (toolName : String) : JsonTree N → JsonTree N
  | .object fields =>
      if isBrowserTool toolName then .object (compactBrowserToolArgs number fields)
      else if isCoordinationTool toolName then .object (compactCoordinationToolArgs number fields)
      else .object fields
  | args => args

end

theorem compactValue_eq_self_iff (hcap : 1200 ≤ maxChars) (value : JsonTree N) :
    compactValue maxChars value = value ↔
      ∀ text, value = .string text → text.toList.length ≤ maxChars := by
  cases value with
  | string text =>
      rw [compactValue, JsonTree.string.injEq]
      constructor
      · rintro hsame _ ⟨⟩
        by_contra hlong
        exact absurd (compactArgumentText_cut hcap (Nat.not_le.mp hlong)).2.1 (by simp [hsame])
      · exact fun hshort => compactArgumentText_of_le (hshort text rfl)
  | _ => simp [compactValue]

theorem compactField_eq_self_iff {key : String} (hcap : 1200 ≤ maxChars) :
    compactField maxChars key fields = fields ↔
      ∀ name text, fields.find? (·.1 == key) = some (name, .string text) →
        text.toList.length ≤ maxChars := by
  induction fields with
  | nil => simp [compactField, modifyFirst]
  | cons field fields ih =>
      rw [compactField, modifyFirst, List.find?_cons]
      cases hkey : field.1 == key with
      | true =>
          rcases field with ⟨name, value⟩
          have hvalue := compactValue_eq_self_iff hcap value
          simp only [if_true, List.cons.injEq, and_true, Prod.mk.injEq, true_and, hvalue,
            Option.some.injEq]
          exact ⟨fun h _ text hfound => h text hfound.2, fun h text hfound =>
            h name text ⟨rfl, hfound⟩⟩
      | false => simpa [compactField] using ih

/-- What is reached lies between the fields and those with every text at its cap, and is the
latter unless it fits. -/
theorem compactUntilFits_spec (keys : List String) (fields : ArgumentFields N) :
    Shorter number fields (compactUntilFits number keys fields) ∧
      Shorter number (compactUntilFits number keys fields) (compactFields 2400 keys fields) ∧
      (encodedLength number (compactUntilFits number keys fields) ≤
          coordinationToolArgSecurityLimit ∨
        compactUntilFits number keys fields = compactFields 2400 keys fields) := by
  induction keys generalizing fields with
  | nil => exact ⟨Shorter.refl _, Shorter.refl _, .inr rfl⟩
  | cons key keys ih =>
      have hstep : Shorter number fields (compactField 2400 key fields) :=
        shorter_compactField (by decide) key fields
      have hfold : compactFields 2400 (key :: keys) fields =
          compactFields 2400 keys (compactField 2400 key fields) := rfl
      rw [compactUntilFits, hfold]
      split
      · dsimp only
        split_ifs with hfits
        · exact ⟨hstep, shorter_compactFields (by decide) keys _, .inl hfits⟩
        · exact ⟨hstep.trans (ih _).1, (ih _).2⟩
      · rename_i hother
        rw [(compactField_eq_self_iff (by decide)).mpr fun name text heq =>
          absurd heq (hother name text)]
        exact ih fields

/-! ## At the boundary -/

/-- The fields with every text that is cut for the tool at its lowest cap. -/
def leastToolArgs (toolName : String) (fields : ArgumentFields N) : ArgumentFields N :=
  if isBrowserTool toolName then
    compactFields browserTextFieldLimit browserTextKeys
      (compactField browserRuntimeContextFieldLimit runtimeTaskContextArgKey fields)
  else
    compactFields 2400 coordinationTextKeys
      (compactFields coordinationToolTextFieldLimit coordinationTextKeys fields)

def securityLimit (toolName : String) : Nat :=
  if isBrowserTool toolName then browserToolArgSecurityLimit else coordinationToolArgSecurityLimit

def ContextWithinCap (fields : ArgumentFields N) : Prop :=
  ∀ name text, fields.find? (·.1 == runtimeTaskContextArgKey) = some (name, .string text) →
    text.toList.length ≤ browserRuntimeContextFieldLimit

/-- What lies between the fields and the least ones, and is the latter unless it fits. -/
theorem Shorter.at_boundary {least : ArgumentFields N} {limit : Nat}
    (hlower : Shorter number fields fields') (hupper : Shorter number fields' least)
    (hend : encodedLength number fields' ≤ limit ∨ fields' = least) :
    List.Forall₂ (fun field field' => field'.1 = field.1 ∧ KeptValue field.2 field'.2) fields
        fields' ∧
      encodedLength number fields' ≤ encodedLength number fields ∧
      (encodedLength number fields' ≤ limit ↔ encodedLength number least ≤ limit) := by
  refine ⟨hlower.imp fun _ _ hfield => ⟨hfield.key, hfield.value⟩, hlower.encodedLength_le,
    hupper.encodedLength_le.trans, fun hleast => ?_⟩
  rcases hend with hfits | rfl
  · exact hfits
  · exact hleast

/-- The arguments of a coordination or browser tool keep their keys and the ends of their texts
and get no longer. They fit exactly if they do with every text at its lowest cap, and arguments
that fitted before are left as they are unless a task context is over its cap. -/
theorem compactToolArgs_at_boundary (number : N → List Char) (toolName : String)
    (fields : ArgumentFields N)
    (htool : isBrowserTool toolName = true ∨ isCoordinationTool toolName = true) :
    ∃ fields', compactToolArgsForSecurityBoundary number toolName (.object fields) =
        .object fields' ∧
      (List.Forall₂ (fun field field' => field'.1 = field.1 ∧ KeptValue field.2 field'.2) fields
          fields' ∧
        encodedLength number fields' ≤ encodedLength number fields ∧
        (encodedLength number fields' ≤ securityLimit toolName ↔
          encodedLength number (leastToolArgs toolName fields) ≤ securityLimit toolName)) ∧
      (encodedLength number fields ≤ securityLimit toolName →
        (fields' = fields ↔ (isBrowserTool toolName = true → ContextWithinCap fields))) := by
  rw [compactToolArgsForSecurityBoundary, leastToolArgs, securityLimit]
  by_cases hbrowser : isBrowserTool toolName = true
  · rw [if_pos hbrowser, if_pos hbrowser, if_pos hbrowser]
    have hcontext : Shorter number fields
        (compactField browserRuntimeContextFieldLimit runtimeTaskContextArgKey fields) :=
      shorter_compactField (by decide) _ fields
    have htexts : Shorter number _ (compactFields browserTextFieldLimit browserTextKeys
        (compactField browserRuntimeContextFieldLimit runtimeTaskContextArgKey fields)) :=
      shorter_compactFields (by decide) browserTextKeys _
    refine ⟨_, rfl, ?_⟩
    unfold compactBrowserToolArgs
    dsimp only
    split_ifs with hfits
    · refine ⟨hcontext.at_boundary htexts (.inl hfits), fun _ => ?_⟩
      rw [forall_prop_of_true hbrowser]
      exact compactField_eq_self_iff (by decide)
    · exact ⟨(hcontext.trans htexts).at_boundary (Shorter.refl _) (.inr rfl), fun hwithin =>
        absurd (hcontext.encodedLength_le.trans hwithin) hfits⟩
  · rw [if_neg hbrowser, if_neg hbrowser, if_neg hbrowser, if_pos (htool.resolve_left hbrowser)]
    have hfirst : Shorter number fields
        (compactFields coordinationToolTextFieldLimit coordinationTextKeys fields) :=
      shorter_compactFields (by decide) coordinationTextKeys fields
    have hsecond : Shorter number _ (compactFields 2400 coordinationTextKeys
        (compactFields coordinationToolTextFieldLimit coordinationTextKeys fields)) :=
      shorter_compactFields (by decide) coordinationTextKeys _
    refine ⟨_, rfl, ?_⟩
    unfold compactCoordinationToolArgs
    dsimp only
    split_ifs with hwithin hfits
    · exact ⟨(Shorter.refl _).at_boundary (hfirst.trans hsecond) (.inl hwithin), fun _ =>
        iff_of_true rfl fun h => absurd h hbrowser⟩
    · exact ⟨hfirst.at_boundary hsecond (.inl hfits), fun h => absurd h hwithin⟩
    · obtain ⟨hlower, hupper, hend⟩ := @compactUntilFits_spec _ number coordinationTextKeys
        (compactFields coordinationToolTextFieldLimit coordinationTextKeys fields)
      exact ⟨(hfirst.trans hlower).at_boundary hupper hend, fun h => absurd h hwithin⟩

theorem compactToolArgs_at_boundary_delegate :
    ∃ fields', compactToolArgsForSecurityBoundary (Nat.toDigits 10) "delegate"
        (.object [("limit", .number 3), ("task", .string "Find sources")]) = .object fields' ∧
      fields' = [("limit", .number 3), ("task", .string "Find sources")] := by
  obtain ⟨fields', hresult, -, hwithin⟩ := compactToolArgs_at_boundary (Nat.toDigits 10) "delegate"
    [("limit", .number 3), ("task", .string "Find sources")] (.inr (by decide))
  exact ⟨fields', hresult, (hwithin (by decide +kernel)).mpr fun h => absurd h (by decide)⟩

end BenShu.Agent
