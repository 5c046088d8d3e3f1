import BenShu.Lib.Table
import BenShu.Lib.Text
import Mathlib.Algebra.Order.Field.Rat

/-!
# Triples

A triple relates a subject to an object. What validation rejects is named by a fault;
how a number is shown in it is a parameter.
-/

namespace BenShu.Knowledge

structure Triple where
  subject : String
  predicate : String
  object : String
  metadata : Table String String := ∅
  sentiment : Option String := none
  urgency : Rat := 0

inductive TripleFault where
  | empty
  | tooLong
  | urgency (urgency : Rat)
  | reserved (key : String)
  | restricted
  deriving DecidableEq

def TripleFault.text (display : Rat → String) : TripleFault → String
  | empty => "Triple components cannot be empty"
  | tooLong => "Triple components must be < 1024 characters"
  | urgency value => s!"Urgency must be between 0.0 and 1.0 (got {display value})"
  | reserved key => s!"Metadata keys starting with '_' are reserved (got {key})"
  | restricted => "Triple contains restricted control characters"

def separator : Char := '\x1f'

def invalidChars : List Char := ['\x00', '\n', '\r', separator]

namespace Triple

def components (triple : Triple) : List String := [triple.subject, triple.predicate, triple.object]

end Triple

def isReserved (key : String) : Bool :=
  Text.startsWith key "_" && !Text.startsWith key "_sentiment" && !Text.startsWith key "_urgency"

def validateTriple (triple : Triple) : Except TripleFault Unit :=
  if triple.components.any fun component => Text.trim component == "" then .error .empty
  else if triple.components.any fun component => decide (component.utf8ByteSize > 1024) then
    .error .tooLong
  else if !(decide (0 ≤ triple.urgency) && decide (triple.urgency ≤ 1)) then
    .error (.urgency triple.urgency)
  else match triple.metadata.entries.find? fun entry => isReserved entry.1 with
    | some entry => .error (.reserved entry.1)
    | none =>
        if triple.components.any fun component => component.toList.any invalidChars.contains then
          .error .restricted
        else .ok ()

theorem separator_notMem_of_valid {triple : Triple} (h : validateTriple triple = .ok ())
    {component : String} (hcomponent : component ∈ triple.components) :
    separator ∉ component.toList := by
  intro hseparator
  unfold validateTriple at h
  split at h
  · cases h
  · split at h
    · cases h
    · split at h
      · cases h
      · split at h
        · cases h
        · split at h
          · cases h
          · rename_i hrestricted
            apply hrestricted
            rw [List.any_eq_true]
            refine ⟨component, hcomponent, ?_⟩
            rw [List.any_eq_true]
            exact ⟨separator, hseparator, by decide⟩

end BenShu.Knowledge
