import Mathlib.Algebra.Group.Nat.Defs
import Mathlib.Data.List.Basic

/-!
# Bytes of numbers and of text

Little-endian numbers of a fixed width, hexadecimal digits, and the UTF-8 bytes of text.
Each encoding comes with the way back.
-/

namespace ByteCodec

/-! ## Numbers -/

def leBytes : Nat → Nat → List UInt8
  | 0, _ => []
  | width + 1, n => UInt8.ofNat (n % 256) :: leBytes width (n / 256)

def ofLeBytes : List UInt8 → Nat
  | [] => 0
  | byte :: rest => byte.toNat + 256 * ofLeBytes rest

@[simp] theorem leBytes_length (width n : Nat) : (leBytes width n).length = width := by
  induction width generalizing n with
  | zero => rfl
  | succ width ih => simp [leBytes, ih]

theorem ofLeBytes_leBytes {width n : Nat} (hbound : n < 256 ^ width) :
    ofLeBytes (leBytes width n) = n := by
  induction width generalizing n with
  | zero =>
      have hn : n = 0 := by simpa using hbound
      simp [leBytes, ofLeBytes, hn]
  | succ width ih =>
      have hrest : n / 256 < 256 ^ width := by
        rw [Nat.pow_succ] at hbound
        exact (Nat.div_lt_iff_lt_mul (by decide)).mpr hbound
      have hbyte : (UInt8.ofNat (n % 256)).toNat = n % 256 := by simp
      simp only [leBytes, ofLeBytes]
      rw [ih hrest, hbyte]
      exact Nat.mod_add_div n 256

def wordBytes (n : UInt64) : List UInt8 := leBytes 8 n.toNat

theorem wordBytes_injective {m n : UInt64} (h : wordBytes m = wordBytes n) : m = n := by
  have hbound : ∀ k : UInt64, k.toNat < 256 ^ 8 := fun k => k.toNat_lt
  have hnat := congrArg ofLeBytes h
  unfold wordBytes at hnat
  rw [ofLeBytes_leBytes (hbound m), ofLeBytes_leBytes (hbound n)] at hnat
  exact UInt64.toNat_inj.mp hnat

/-! ## Text -/

def utf8 (s : String) : List UInt8 := s.toByteArray.data.toList

theorem utf8_append (s t : String) : utf8 (s ++ t) = utf8 s ++ utf8 t := by
  simp [utf8, String.toByteArray_append]

theorem utf8_injective {s t : String} (h : utf8 s = utf8 t) : s = t := by
  rw [← String.toByteArray_inj]
  exact ByteArray.ext (Array.toList_inj.mp h)

theorem utf8_ofList (cs : List Char) :
    utf8 (.ofList cs) = cs.flatMap String.utf8EncodeChar := by
  simp [utf8, String.toByteArray_ofList, List.utf8Encode]

def isContinuation (byte : UInt8) : Bool := byte &&& 0xC0 == 0x80

/-! ## Hexadecimal digits -/

def hexDigit (n : Nat) : Char :=
  if n < 10 then Char.ofNat (48 + n) else Char.ofNat (87 + n)

/-- The value of a digit, of either case. -/
def hexValue (byte : UInt8) : Option Nat :=
  let n := byte.toNat
  if 48 ≤ n ∧ n ≤ 57 then some (n - 48)
  else if 97 ≤ n ∧ n ≤ 102 then some (n - 87)
  else if 65 ≤ n ∧ n ≤ 70 then some (n - 55)
  else none

def hexPair (byte : UInt8) : List Char := [hexDigit (byte.toNat / 16), hexDigit (byte.toNat % 16)]

def hexText (bytes : List UInt8) : String := .ofList (bytes.flatMap hexPair)

theorem hexDigit_byte : ∀ n < 16, ∃ byte : UInt8,
    String.utf8EncodeChar (hexDigit n) = [byte] ∧ hexValue byte = some n ∧
      isContinuation byte = false ∧ byte ≠ 43 := by
  intro n hn
  refine ⟨UInt8.ofNat (hexDigit n).toNat, ?_⟩
  revert n
  decide

theorem utf8_hexText_cons (byte : UInt8) (bytes : List UInt8) :
    ∃ high low : UInt8, utf8 (hexText (byte :: bytes)) = high :: low :: utf8 (hexText bytes) ∧
      hexValue high = some (byte.toNat / 16) ∧ hexValue low = some (byte.toNat % 16) ∧
      isContinuation high = false ∧ high ≠ 43 := by
  have hsmall : byte.toNat < 256 := byte.toNat_lt
  rcases hexDigit_byte (byte.toNat / 16) (by omega) with ⟨high, hhigh, hvalue, hstart, hplus⟩
  rcases hexDigit_byte (byte.toNat % 16) (by omega) with ⟨low, hlow, hvalue', -, -⟩
  refine ⟨high, low, ?_, hvalue, hvalue', hstart, hplus⟩
  simp only [hexText, utf8_ofList, hexPair, List.flatMap_cons, List.cons_append, List.nil_append]
  rw [hhigh, hlow]
  rfl

end ByteCodec

/-!
# The well-formed part of a byte string

The longest start of a byte string that is UTF-8. When more bytes come in, it grows by
the well-formed start of what was left.
-/

namespace Utf8

open ByteCodec

def decode (bytes : List UInt8) : Option String := String.fromUTF8? ⟨bytes.toArray⟩

theorem decode_utf8 (s : String) : decode (utf8 s) = some s := by
  have hbytes : (⟨(utf8 s).toArray⟩ : ByteArray) = s.toByteArray := rfl
  unfold decode String.fromUTF8?
  rw [hbytes, dif_pos s.isValidUTF8]
  rfl

variable {bytes : List UInt8}

theorem decode_eq_some_iff {s : String} : decode bytes = some s ↔ bytes = utf8 s := by
  constructor
  · intro h
    unfold decode String.fromUTF8? at h
    split_ifs at h
    rw [← Option.some.inj h]
    rfl
  · intro h
    rw [h, decode_utf8]

theorem isSome_decode_iff : (decode bytes).isSome = true ↔ ∃ s, bytes = utf8 s := by
  simp only [Option.isSome_iff_exists, decode_eq_some_iff]

theorem encode_append_inj {c c' : Char} {bytes' : List UInt8}
    (h : String.utf8EncodeChar c ++ bytes = String.utf8EncodeChar c' ++ bytes') :
    c = c' ∧ bytes = bytes' := by
  have hdecode : ∀ (c : Char) (bytes : List UInt8),
      (String.utf8EncodeChar c ++ bytes).toByteArray.utf8DecodeChar? 0 = some c := by
    intro c bytes
    rw [List.toByteArray_append]
    exact ByteArray.utf8DecodeChar?_utf8EncodeChar_append
  have hchar : c = c' := by
    have hsome := hdecode c bytes
    rw [h, hdecode] at hsome
    exact (Option.some.inj hsome).symm
  subst hchar
  exact ⟨rfl, List.append_cancel_left h⟩

theorem append_utf8 {s t : String} (h : utf8 s ++ bytes = utf8 t) :
    ∃ u, bytes = utf8 u ∧ t = s ++ u := by
  have hlists : ∀ (cs ds : List Char), cs.flatMap String.utf8EncodeChar ++ bytes =
      ds.flatMap String.utf8EncodeChar →
        ∃ es : List Char, bytes = es.flatMap String.utf8EncodeChar ∧ ds = cs ++ es := by
    intro cs
    induction cs with
    | nil => exact fun ds h => ⟨ds, h, rfl⟩
    | cons c cs ih =>
        intro ds h
        cases ds with
        | nil =>
            rw [List.flatMap_cons, List.append_assoc, List.flatMap_nil] at h
            have hlength := congrArg List.length h
            rw [List.length_append, String.length_utf8EncodeChar, List.length_nil] at hlength
            have hpos := c.utf8Size_pos
            omega
        | cons d ds =>
            rw [List.flatMap_cons, List.flatMap_cons, List.append_assoc] at h
            obtain ⟨rfl, hrest⟩ := encode_append_inj h
            obtain ⟨es, hes, rfl⟩ := ih ds hrest
            exact ⟨es, hes, rfl⟩
  have hlist : ∀ s : String, utf8 s = s.toList.flatMap String.utf8EncodeChar := fun s => by
    rw [← utf8_ofList, String.ofList_toList]
  rw [hlist, hlist] at h
  obtain ⟨es, hes, htail⟩ := hlists s.toList t.toList h
  refine ⟨.ofList es, by rw [utf8_ofList, hes], String.toList_inj.mp ?_⟩
  rw [htail, String.toList_append, String.toList_ofList]

/-! ## The longest start -/

def validUpToAux (bytes : List UInt8) : Nat → Nat
  | 0 => 0
  | n + 1 => if (decode (bytes.take (n + 1))).isSome then n + 1 else validUpToAux bytes n

def validUpTo (bytes : List UInt8) : Nat := validUpToAux bytes bytes.length

theorem validUpToAux_spec (bytes : List UInt8) (n : Nat) :
    (decode (bytes.take (validUpToAux bytes n))).isSome = true ∧ validUpToAux bytes n ≤ n ∧
      ∀ m ≤ n, (decode (bytes.take m)).isSome = true → m ≤ validUpToAux bytes n := by
  induction n with
  | zero =>
      refine ⟨?_, Nat.le_refl _, fun m hm _ => hm⟩
      rw [validUpToAux, List.take_zero, isSome_decode_iff]
      exact ⟨"", rfl⟩
  | succ n ih =>
      rw [validUpToAux]
      split_ifs with h
      · exact ⟨h, Nat.le_refl _, fun m hm _ => hm⟩
      · obtain ⟨hvalid, hle, hmax⟩ := ih
        refine ⟨hvalid, Nat.le_succ_of_le hle, fun m hm hm' => ?_⟩
        have hne : m ≠ n + 1 := fun heq => h (by rw [← heq]; exact hm')
        exact hmax m (by omega) hm'

theorem validUpTo_le (bytes : List UInt8) : validUpTo bytes ≤ bytes.length :=
  (validUpToAux_spec bytes bytes.length).2.1

theorem le_validUpTo {n : Nat} (hn : n ≤ bytes.length) (h : (decode (bytes.take n)).isSome = true) :
    n ≤ validUpTo bytes :=
  (validUpToAux_spec bytes bytes.length).2.2 n hn h

def validText (bytes : List UInt8) : String := (decode (bytes.take (validUpTo bytes))).getD ""

def incomplete (bytes : List UInt8) : List UInt8 := bytes.drop (validUpTo bytes)

theorem utf8_validText (bytes : List UInt8) :
    utf8 (validText bytes) = bytes.take (validUpTo bytes) := by
  obtain ⟨s, hs⟩ := isSome_decode_iff.mp (validUpToAux_spec bytes bytes.length).1
  have htake : bytes.take (validUpTo bytes) = utf8 s := hs
  rw [validText, htake, decode_utf8]
  rfl

theorem validUpTo_utf8 (s : String) : validUpTo (utf8 s) = (utf8 s).length := by
  refine Nat.le_antisymm (validUpTo_le _) (le_validUpTo (Nat.le_refl _) ?_)
  rw [List.take_length, decode_utf8]
  rfl

theorem validUpTo_append (bytes more : List UInt8) :
    validUpTo (bytes ++ more) = validUpTo bytes + validUpTo (incomplete bytes ++ more) := by
  have hle := validUpTo_le bytes
  have htake : ∀ n, (bytes ++ more).take (validUpTo bytes + n) =
      utf8 (validText bytes) ++ (incomplete bytes ++ more).take n := by
    intro n
    rw [utf8_validText, List.take_add, List.take_append_of_le_length hle,
      List.drop_append_of_le_length hle]
    rfl
  have hlength : (incomplete bytes ++ more).length = (bytes ++ more).length - validUpTo bytes := by
    rw [incomplete, List.length_append, List.length_append, List.length_drop]
    omega
  apply Nat.le_antisymm
  · -- A longer start would leave a longer start of what is left.
    have hstart : validUpTo bytes ≤ validUpTo (bytes ++ more) := by
      refine le_validUpTo (by rw [List.length_append]; omega) ?_
      have h0 := htake 0
      rw [Nat.add_zero, List.take_zero, List.append_nil] at h0
      rw [h0, decode_utf8]
      rfl
    have hwhole := utf8_validText (bytes ++ more)
    have hsplit := htake (validUpTo (bytes ++ more) - validUpTo bytes)
    rw [Nat.add_sub_cancel' hstart, ← hwhole] at hsplit
    obtain ⟨u, hu, -⟩ := append_utf8 hsplit.symm
    have hvalid := validUpTo_le (bytes ++ more)
    have hrest : validUpTo (bytes ++ more) - validUpTo bytes ≤
        validUpTo (incomplete bytes ++ more) := by
      refine le_validUpTo (by rw [hlength]; omega) ?_
      rw [hu, decode_utf8]
      rfl
    omega
  · have hvalid := validUpTo_le (incomplete bytes ++ more)
    refine le_validUpTo (by rw [hlength] at hvalid; rw [List.length_append] at hvalid ⊢; omega) ?_
    rw [htake, ← utf8_validText, ← utf8_append, decode_utf8]
    rfl

theorem validText_append (bytes more : List UInt8) :
    validText (bytes ++ more) = validText bytes ++ validText (incomplete bytes ++ more) := by
  apply utf8_injective
  have hle := validUpTo_le bytes
  rw [utf8_append, utf8_validText, utf8_validText, utf8_validText, validUpTo_append, List.take_add,
    List.take_append_of_le_length hle, List.drop_append_of_le_length hle]
  rfl

theorem incomplete_append (bytes more : List UInt8) :
    incomplete (bytes ++ more) = incomplete (incomplete bytes ++ more) := by
  have hle := validUpTo_le bytes
  rw [incomplete, validUpTo_append, ← List.drop_drop, List.drop_append_of_le_length hle]
  rfl

end Utf8
