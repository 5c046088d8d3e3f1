import Mathlib.Data.List.Basic

/-!
# JSON values

The part of a JSON value that records carry as payload: integers, text, lists
and objects with their fields in order. Fractional numbers are not represented.
-/

inductive Json where
  | null
  | bool (value : Bool)
  | number (value : Int)
  | string (value : String)
  | array (items : List Json)
  | object (fields : List (String × Json))

namespace Json

def get (field : String) : Json → Option Json
  | .object fields => (fields.find? fun f => f.1 == field).map (·.2)
  | _ => none

/-- Numbers come from machine integers, so a nonnegative one is in range. -/
def asU64 : Json → Option Nat
  | .number (.ofNat n) => some n
  | _ => none

def isNull : Json → Bool
  | .null => true
  | _ => false

def ofOption {α : Type} (f : α → Json) : Option α → Json
  | none => .null
  | some a => f a

def asStr : Json → Option String
  | .string value => some value
  | _ => none

def asArray : Json → Option (List Json)
  | .array items => some items
  | _ => none

def setField (field : String) (value : Json) (fields : List (String × Json)) :
    List (String × Json) :=
  (fields.filter fun f => f.1 != field) ++ [(field, value)]

mutual

def same : Json → Json → Bool
  | .null, .null => true
  | .bool value, .bool value' => value == value'
  | .number value, .number value' => value == value'
  | .string value, .string value' => value == value'
  | .array items, .array items' => sameItems items items'
  | .object fields, .object fields' => sameFields fields fields'
  | _, _ => false

def sameItems : List Json → List Json → Bool
  | [], [] => true
  | item :: items, item' :: items' => same item item' && sameItems items items'
  | _, _ => false

def sameFields : List (String × Json) → List (String × Json) → Bool
  | [], [] => true
  | (field, value) :: fields, (field', value') :: fields' =>
      field == field' && same value value' && sameFields fields fields'
  | _, _ => false

end

theorem get_object_head (field : String) (value : Json) (fields : List (String × Json)) :
    get field (.object ((field, value) :: fields)) = some value := by
  simp [get]

end Json
