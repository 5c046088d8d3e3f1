import BenShu.Lib.Text
import Mathlib.Algebra.Group.Nat.Defs
import Mathlib.Algebra.Ring.Int.Defs

/-!
# Signed 64-bit numbers

Arithmetic that wraps around, and numbers written in decimal.
-/

namespace I64

def InRange (n : Int) : Prop := -(2 ^ 63) ≤ n ∧ n < 2 ^ 63

instance (n : Int) : Decidable (InRange n) := inferInstanceAs (Decidable (_ ∧ _))

def wrap (n : Int) : Int := n.bmod (2 ^ 64)

def saturate (n : Int) : Int :=
  if n < -(2 ^ 63) then -(2 ^ 63) else if 2 ^ 63 ≤ n then 2 ^ 63 - 1 else n

def parseDigits (sign : Int) (digits : List Char) : Option Int :=
  let n := sign * Nat.ofDigitChars 10 digits 0
  if digits ≠ [] ∧ digits.all Char.isDigit = true ∧ InRange n then some n else none

/-- An optional sign and decimal digits, within the range. -/
def parse (s : String) : Option Int :=
  match s.toList with
  | '-' :: digits => parseDigits (-1) digits
  | '+' :: digits => parseDigits 1 digits
  | digits => parseDigits 1 digits

theorem isDigit_toDigits {n : Nat} {c : Char} (h : c ∈ Nat.toDigits 10 n) : c.isDigit = true :=
  Nat.isDigit_of_mem_toDigits (by decide) (by decide) h

theorem parseDigits_toDigits {sign : Int} {n : Nat} (h : InRange (sign * n)) :
    parseDigits sign (Nat.toDigits 10 n) = some (sign * n) := by
  unfold parseDigits
  rw [Nat.ofDigitChars_ten_toDigits]
  exact if_pos ⟨Nat.toDigits_ne_nil, List.all_eq_true.mpr fun c hc => isDigit_toDigits hc, h⟩

theorem parse_toString {n : Int} (h : InRange n) : parse (toString n) = some n := by
  unfold parse
  cases n with
  | ofNat n =>
      have hlist : (toString (Int.ofNat n)).toList = Nat.toDigits 10 n := Nat.toList_repr
      have hfirst : ∀ c rest, Nat.toDigits 10 n = c :: rest → c.isDigit = true := by
        intro c rest heq
        exact isDigit_toDigits (n := n) (by rw [heq]; exact List.mem_cons_self)
      rw [hlist]
      split
      · rename_i digits heq
        exact absurd (hfirst _ _ heq) (by decide)
      · rename_i digits heq
        exact absurd (hfirst _ _ heq) (by decide)
      · rw [parseDigits_toDigits (by rw [Int.one_mul]; exact h), Int.one_mul]
        rfl
  | negSucc n =>
      have hlist : (toString (Int.negSucc n)).toList = '-' :: Nat.toDigits 10 (n + 1) := by
        show ("-" ++ Nat.repr (n + 1)).toList = _
        rw [String.toList_append, Nat.toList_repr]
        rfl
      have hvalue : (-1 : Int) * (n + 1 : Nat) = Int.negSucc n := by omega
      rw [hlist]
      show parseDigits (-1) (Nat.toDigits 10 (n + 1)) = _
      rw [parseDigits_toDigits (by rw [hvalue]; exact h), hvalue]

theorem colon_notMem_toString (n : Int) : ':' ∉ (toString n).toList := by
  cases n with
  | ofNat n => exact Text.colon_notMem_toString n
  | negSucc n =>
      have hlist : (toString (Int.negSucc n)).toList = '-' :: (toString (n + 1)).toList := by
        show ("-" ++ toString (n + 1)).toList = _
        rw [String.toList_append]
        rfl
      rw [hlist]
      intro h
      rcases List.mem_cons.mp h with hsign | hdigit
      · exact absurd hsign (by decide)
      · exact Text.colon_notMem_toString _ hdigit

end I64
