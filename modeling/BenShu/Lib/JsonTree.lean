import Mathlib.Data.List.Basic

/-!
# JSON trees

Any JSON value, over any type of numbers, for code that walks through a value and only
looks at its text.
-/

inductive JsonTree (N : Type) where
  | null
  | bool (value : Bool)
  | number (value : N)
  | string (value : String)
  | array (items : List (JsonTree N))
  | object (fields : List (String × JsonTree N))

namespace JsonTree

variable {N : Type}

mutual

/-- The strings inside a value, the names of its fields among them. -/
def strings : JsonTree N → List String
  | .null => []
  | .bool _ => []
  | .number _ => []
  | .string value => [value]
  | .array items => itemStrings items
  | .object fields => fieldStrings fields

def itemStrings : List (JsonTree N) → List String
  | [] => []
  | item :: items => item.strings ++ itemStrings items

def fieldStrings : List (String × JsonTree N) → List String
  | [] => []
  | (key, value) :: fields => key :: (value.strings ++ fieldStrings fields)

end

mutual

/-- The value with every string inside it rewritten. -/
def mapStrings (f : String → String) : JsonTree N → JsonTree N
  | .null => .null
  | .bool value => .bool value
  | .number value => .number value
  | .string value => .string (f value)
  | .array items => .array (mapItems f items)
  | .object fields => .object (mapFields f fields)

def mapItems (f : String → String) : List (JsonTree N) → List (JsonTree N)
  | [] => []
  | item :: items => item.mapStrings f :: mapItems f items

def mapFields (f : String → String) : List (String × JsonTree N) → List (String × JsonTree N)
  | [] => []
  | (key, value) :: fields => (f key, value.mapStrings f) :: mapFields f fields

end

variable (f : String → String)

mutual

theorem strings_mapStrings : ∀ value : JsonTree N,
    (value.mapStrings f).strings = value.strings.map f
  | .null => rfl
  | .bool _ => rfl
  | .number _ => rfl
  | .string _ => rfl
  | .array items => by
      rw [mapStrings, strings, strings]
      exact itemStrings_mapItems items
  | .object fields => by
      rw [mapStrings, strings, strings]
      exact fieldStrings_mapFields fields

theorem itemStrings_mapItems : ∀ items : List (JsonTree N),
    itemStrings (mapItems f items) = (itemStrings items).map f
  | [] => rfl
  | item :: items => by
      rw [mapItems, itemStrings, itemStrings, List.map_append, strings_mapStrings item,
        itemStrings_mapItems items]

theorem fieldStrings_mapFields : ∀ fields : List (String × JsonTree N),
    fieldStrings (mapFields f fields) = (fieldStrings fields).map f
  | [] => rfl
  | (key, value) :: fields => by
      rw [mapFields, fieldStrings, fieldStrings, List.map_cons, List.map_append,
        strings_mapStrings value, fieldStrings_mapFields fields]

end

mutual

theorem mapStrings_eq_self_iff : ∀ value : JsonTree N,
    value.mapStrings f = value ↔ ∀ s ∈ value.strings, f s = s
  | .null => by simp [mapStrings, strings]
  | .bool _ => by simp [mapStrings, strings]
  | .number _ => by simp [mapStrings, strings]
  | .string _ => by simp [mapStrings, strings]
  | .array items => by
      rw [mapStrings, strings, array.injEq]
      exact mapItems_eq_self_iff items
  | .object fields => by
      rw [mapStrings, strings, object.injEq]
      exact mapFields_eq_self_iff fields

theorem mapItems_eq_self_iff : ∀ items : List (JsonTree N),
    mapItems f items = items ↔ ∀ s ∈ itemStrings items, f s = s
  | [] => by simp [mapItems, itemStrings]
  | item :: items => by
      rw [mapItems, itemStrings, List.cons.injEq, mapStrings_eq_self_iff item,
        mapItems_eq_self_iff items, List.forall_mem_append]

theorem mapFields_eq_self_iff : ∀ fields : List (String × JsonTree N),
    mapFields f fields = fields ↔ ∀ s ∈ fieldStrings fields, f s = s
  | [] => by simp [mapFields, fieldStrings]
  | (key, value) :: fields => by
      rw [mapFields, fieldStrings, List.cons.injEq, Prod.mk.injEq, mapStrings_eq_self_iff value,
        mapFields_eq_self_iff fields, List.forall_mem_cons, List.forall_mem_append, and_assoc]

end

/-! ## Written out -/

/-- A character between quotes, as a compact writer escapes it. -/
def escapeChar (c : Char) : List Char :=
  if c = '\x22' ∨ c = '\\' then ['\\', c]
  else if c = '\x08' then ['\\', 'b']
  else if c = '\t' then ['\\', 't']
  else if c = '\n' then ['\\', 'n']
  else if c = '\x0c' then ['\\', 'f']
  else if c = '\r' then ['\\', 'r']
  else if c.toNat < 32 then
    ['\\', 'u', '0', '0', Nat.digitChar (c.toNat / 16), Nat.digitChar (c.toNat % 16)]
  else [c]

def escape (cs : List Char) : List Char := cs.flatMap escapeChar

def quoted (s : String) : List Char := '\x22' :: escape s.toList ++ ['\x22']

mutual

/-- The text of a value without white space. -/
def text (number : N → List Char) : JsonTree N → List Char
  | .null => "null".toList
  | .bool value => (toString value).toList
  | .number value => number value
  | .string value => quoted value
  | .array items => '[' :: [','].intercalate (itemTexts number items) ++ [']']
  | .object fields => '\x7b' :: [','].intercalate (fieldTexts number fields) ++ ['\x7d']

def itemTexts (number : N → List Char) : List (JsonTree N) → List (List Char)
  | [] => []
  | item :: items => item.text number :: itemTexts number items

def fieldTexts (number : N → List Char) : List (String × JsonTree N) → List (List Char)
  | [] => []
  | (key, value) :: fields => (quoted key ++ ':' :: value.text number) :: fieldTexts number fields

end

theorem length_le_length_escape (cs : List Char) : cs.length ≤ (escape cs).length := by
  induction cs with
  | nil => exact Nat.le_refl 0
  | cons c cs ih =>
      have hone : 1 ≤ (escapeChar c).length := by
        unfold escapeChar
        split_ifs <;> simp
      rw [escape, List.flatMap_cons, List.length_append, List.length_cons]
      unfold escape at ih
      omega

theorem escape_append (cs cs' : List Char) : escape (cs ++ cs') = escape cs ++ escape cs' :=
  List.flatMap_append

theorem escape_digits {cs : List Char} (h : ∀ c ∈ cs, c.isDigit = true) : escape cs = cs := by
  refine (List.flatMap_congr fun c hc => ?_).trans (List.flatMap_singleton' cs)
  have hdigit : 48 ≤ c.toNat ∧ c.toNat ≤ 57 := Char.isDigit_iff_toNat.mp (h c hc)
  have hne : ∀ other : Char, other.toNat < 48 ∨ 57 < other.toNat → c ≠ other := by
    rintro other hother rfl
    omega
  simp only [escapeChar, hne '\x22' (by decide), hne '\\' (by decide), hne '\x08' (by decide),
    hne '\t' (by decide), hne '\n' (by decide), hne '\x0c' (by decide), hne '\r' (by decide),
    or_self, if_false, if_neg (show ¬c.toNat < 32 from by omega)]

theorem length_intercalate_le {sep : List Char} {xs ys : List (List Char)}
    (h : List.Forall₂ (fun x y => x.length ≤ y.length) xs ys) :
    (sep.intercalate xs).length ≤ (sep.intercalate ys).length := by
  induction h with
  | nil => exact Nat.le_refl _
  | cons hxy htail ih =>
      cases htail with
      | nil => simpa using hxy
      | cons hnext htail =>
          rw [List.intercalate_cons_cons, List.intercalate_cons_cons]
          simp only [List.length_append] at ih ⊢
          omega

/-- A value in the place of a longer one does not make an object longer. -/
theorem length_text_object_le {number : N → List Char} {fields fields' : List (String × JsonTree N)}
    (h : List.Forall₂ (fun field field' => field'.1 = field.1 ∧
      (field'.2.text number).length ≤ (field.2.text number).length) fields fields') :
    (text number (.object fields')).length ≤ (text number (.object fields)).length := by
  have htexts : List.Forall₂ (fun x y => x.length ≤ y.length) (fieldTexts number fields')
      (fieldTexts number fields) := by
    induction h with
    | nil => exact .nil
    | @cons field field' fields fields' hfield hfields ih =>
        refine .cons ?_ ih
        simp only [List.length_append, List.length_cons, hfield.1]
        omega
  have hlength := @length_intercalate_le [','] _ _ htexts
  simp only [text, List.length_append, List.length_cons]
  omega

end JsonTree
