import BenShu.Inference.TernaryKernels
import Mathlib.Algebra.Order.BigOperators.Group.List
import Mathlib.Algebra.Order.Floor.Ring
import Mathlib.Data.Rat.Floor

/-!
# Quantizers

The scalar quantizer at its int4 level puts two components into a byte, by fitted ranges of their
own. The ternary quantizer puts four components into a byte, by one scale for the whole vector
that is stored as half a float. Arithmetic is exact.
-/

namespace BenShu.Inference

open Simd

def roundAway (x : Rat) : Int := if 0 ≤ x then ⌊x + 1 / 2⌋ else -⌊-x + 1 / 2⌋

def clamp (x low high : Rat) : Rat := max low (min x high)

/-! ## The scalar quantizer -/

structure ScalarQuantizer where
  dim : Nat
  minVals : List Rat
  maxVals : List Rat

def int4Code (minVals maxVals vector : List Rat) (d : Nat) : UInt8 :=
  let r := max (rangeAt minVals maxVals d) minRange
  let n := clamp ((memory vector d - memory minVals d) / r) 0 1
  UInt8.ofNat (roundAway (n * 15)).toNat

namespace ScalarQuantizer

variable (q : ScalarQuantizer)

def encode (vector : List Rat) : List UInt8 :=
  (List.range ((q.dim + 1) / 2)).map fun i =>
    let d := 2 * i
    let q1 := int4Code q.minVals q.maxVals vector d
    let q2 := if d + 1 < q.dim then int4Code q.minVals q.maxVals vector (d + 1) else 0
    q2 <<< 4 ||| q1

def component (code : UInt8) (d : Nat) : Rat :=
  code.toNat / 15 * rangeAt q.minVals q.maxVals d + memory q.minVals d

def decodeByte (byte : UInt8) (i : Nat) : List Rat :=
  let q1 := byte &&& 0x0F
  let q2 := (byte >>> 4) &&& 0x0F
  let d1 := i * 2
  let d2 := d1 + 1
  q.component q1 d1 :: if d2 < q.dim then [q.component q2 d2] else []

def decode (codes : List UInt8) : List Rat :=
  codes.zipIdx.flatMap fun byte => q.decodeByte byte.1 byte.2

end ScalarQuantizer

/-! ## The ternary quantizer -/

/-- The half float next to a value towards zero. `none` is NaN; its sign is left out. Values
below the least normal half float are 0, those above the greatest are infinite. -/
def f32ToF16Bits : Option Rat → UInt16
  | none => 0x7C00
  | some val =>
      let sign : Nat := if val < 0 then 1 else 0
      -- how many of the powers of two from -14 to 16 the value reaches
      let exp := (List.range 31).countP fun k => 2 ^ k ≤ |val| * 2 ^ 14
      let mant : Nat :=
        if exp = 0 ∨ exp = 31 then 0 else (⌊|val| * 2 ^ 15 / 2 ^ exp * 2 ^ 10⌋ - 2 ^ 10).toNat
      UInt16.ofNat (sign * 2 ^ 15 + exp * 2 ^ 10 + mant)

def le16 (bits : UInt16) : List UInt8 := [bits.toUInt8, (bits >>> 8).toUInt8]

structure TernaryQuantizer where
  dim : Nat

namespace TernaryQuantizer

variable (q : TernaryQuantizer)

def scaleOf (vector : List Rat) : Rat := (vector.map fun v => |v|).sum / q.dim

def ternaryLevel (scale val : Rat) : Int :=
  if 0 < scale then max (-1) (min (roundAway (val / scale)) 1) else 0

def ternaryBits (scale val : Rat) : UInt8 := UInt8.ofNat (ternaryLevel scale val + 1).toNat

def encodeByte (scale : Rat) (vector : List Rat) (i : Nat) : UInt8 :=
  (List.range 4).foldl (fun byte j =>
    if i + j < q.dim then
      byte ||| ternaryBits scale (memory vector (i + j)) <<< (j * 2).toUInt8
    else byte) 0

/-- The mean of no components is NaN. -/
def encode (vector : List Rat) : List UInt8 :=
  let scale := q.scaleOf vector
  le16 (f32ToF16Bits (if q.dim = 0 then none else some scale)) ++
    (List.range ((q.dim + 3) / 4)).map fun i => q.encodeByte scale vector (4 * i)

def decode (codes : List UInt8) : List Rat :=
  if codes.length < 2 then List.replicate q.dim 0
  else
    let scale := f16ToF32 (u16FromLeBytes (memory codes 0) (memory codes 1))
    ((unpacked (codes.drop 2)).take q.dim).map fun bits => ((bits.toNat : Rat) - 1) * scale

end TernaryQuantizer

/-! ## Fitted ranges -/

def ScalarQuantizer.Fitted (q : ScalarQuantizer) : Prop :=
  ∀ d < q.dim, minRange ≤ rangeAt q.minVals q.maxVals d

section

variable {beyond : Rat → Rat → Bool}

section

variable (hasymm : ∀ x y, beyond x y = true → beyond y x = false)
  (htrans : ∀ x y z, beyond x y = false → beyond y z = false → beyond x z = false)

include hasymm htrans

end

end

namespace ScalarQuantizer

section

variable {vectors : List (List Rat)} {dim : Nat} (hsome : vectors ≠ [])
  (hdim : ∀ v ∈ vectors, v.length = dim)

include hsome hdim

end

end ScalarQuantizer

/-! ## Int4 codes -/

theorem roundAway_of_nonneg {x : Rat} (h : 0 ≤ x) : roundAway x = ⌊x + 1 / 2⌋ := if_pos h

theorem roundAway_intCast (n : Int) : roundAway n = n := by
  have hhalf : ⌊(1 / 2 : Rat)⌋ = 0 := by norm_num
  have hfloor : ∀ m : Int, ⌊(m : Rat) + 1 / 2⌋ = m := by
    intro m
    rw [Int.floor_intCast_add, hhalf, add_zero]
  unfold roundAway
  split
  · exact hfloor n
  · rw [← Int.cast_neg, hfloor, neg_neg]

theorem clamp_mem {x low high : Rat} (h : low ≤ high) :
    low ≤ clamp x low high ∧ clamp x low high ≤ high :=
  ⟨le_max_left _ _, max_le h (min_le_right _ _)⟩

theorem clamp_of_mem {x low high : Rat} (h : low ≤ x ∧ x ≤ high) : clamp x low high = x := by
  rw [clamp, min_eq_left h.2, max_eq_right h.1]

theorem int4Code_toNat (minVals maxVals vector : List Rat) (d : Nat) :
    ((int4Code minVals maxVals vector d).toNat : Int) =
        roundAway (clamp ((memory vector d - memory minVals d) /
          max (rangeAt minVals maxVals d) minRange) 0 1 * 15) ∧
      (int4Code minVals maxVals vector d).toNat ≤ 15 := by
  set n := clamp ((memory vector d - memory minVals d) /
    max (rangeAt minVals maxVals d) minRange) 0 1 with hn
  obtain ⟨hlow, hhigh⟩ : 0 ≤ n ∧ n ≤ 1 := clamp_mem (by norm_num)
  have hnonneg : 0 ≤ roundAway (n * 15) := by
    rw [roundAway_of_nonneg (by linarith)]
    exact Int.floor_nonneg.mpr (by linarith)
  have hle : roundAway (n * 15) ≤ 15 := by
    rw [roundAway_of_nonneg (by linarith)]
    have hlt : ⌊n * 15 + 1 / 2⌋ < 16 := Int.floor_lt.mpr (by push_cast; linarith)
    omega
  have hcode : (int4Code minVals maxVals vector d).toNat = (roundAway (n * 15)).toNat := by
    rw [int4Code, ← hn, UInt8.toNat_ofNat', Nat.mod_eq_of_lt (by omega)]
  omega

theorem nibbles_of_codes {q1 q2 : UInt8} (h1 : q1.toNat ≤ 15) (h2 : q2.toNat ≤ 15) :
    (q2 <<< 4 ||| q1) &&& (0x0F : UInt8) = q1 ∧
      ((q2 <<< 4 ||| q1) >>> 4) &&& (0x0F : UInt8) = q2 := by
  have hall : ∀ n1 < 16, ∀ n2 < 16,
      (UInt8.ofNat n2 <<< 4 ||| UInt8.ofNat n1) &&& (0x0F : UInt8) = UInt8.ofNat n1 ∧
        ((UInt8.ofNat n2 <<< 4 ||| UInt8.ofNat n1) >>> 4) &&& (0x0F : UInt8) =
          UInt8.ofNat n2 := by
    decide +kernel
  simpa only [UInt8.ofNat_toNat] using
    hall q1.toNat (Nat.lt_succ_of_le h1) q2.toNat (Nat.lt_succ_of_le h2)

namespace ScalarQuantizer

variable (q : ScalarQuantizer)

theorem encode_length (vector : List Rat) : (q.encode vector).length = (q.dim + 1) / 2 := by
  simp [encode]

def codeAt (vector : List Rat) (d : Nat) : UInt8 := int4Code q.minVals q.maxVals vector d

def componentAt (codes : List UInt8) (d : Nat) : Rat :=
  if d % 2 = 0 then q.component (memory codes (d / 2) &&& 0x0F) d
  else q.component ((memory codes (d / 2) >>> 4) &&& 0x0F) d

theorem decode_eq_map {codes : List UInt8} (h : codes.length = (q.dim + 1) / 2) :
    q.decode codes = (List.range q.dim).map (q.componentAt codes) := by
  have hfrom : ∀ (rest done : List UInt8), codes = done ++ rest →
      (rest.zipIdx done.length).flatMap (fun byte => q.decodeByte byte.1 byte.2) =
        (List.range (q.dim - done.length * 2)).map
          fun e => q.componentAt codes (done.length * 2 + e) := by
    intro rest
    induction rest with
    | nil =>
        intro done hcodes
        have hend : q.dim - done.length * 2 = 0 := by
          rw [hcodes, List.append_nil] at h
          omega
        simp [hend]
    | cons byte rest ih =>
        intro done hcodes
        have hlen : done.length + (rest.length + 1) = (q.dim + 1) / 2 := by
          simpa [hcodes] using h
        have hread : memory codes done.length = byte := by
          rw [hcodes, memory_append, if_neg (by omega), Nat.sub_self, memory_cons_zero]
        have hlow : q.componentAt codes (done.length * 2) =
            q.component (byte &&& 0x0F) (done.length * 2) := by
          simp [componentAt, hread]
        have hhigh : q.componentAt codes (done.length * 2 + 1) =
            q.component (byte >>> 4 &&& 0x0F) (done.length * 2 + 1) := by
          have hparity : (done.length * 2 + 1) % 2 = 1 := by omega
          have hhalf : (done.length * 2 + 1) / 2 = done.length := by omega
          simp [componentAt, hread, hparity, hhalf]
        have hlater := ih (done ++ [byte]) (by simp [hcodes])
        simp only [List.length_append, List.length_singleton] at hlater
        rw [List.zipIdx_cons, List.flatMap_cons, hlater, decodeByte]
        by_cases htwo : done.length * 2 + 1 < q.dim
        · have hcount : q.dim - done.length * 2 = q.dim - (done.length + 1) * 2 + 1 + 1 := by omega
          have hpos : ∀ e, done.length * 2 + (e + 1 + 1) = (done.length + 1) * 2 + e := by omega
          rw [hcount, List.range_succ_eq_map, List.range_succ_eq_map]
          simp [htwo, hlow, hhigh, Function.comp_def, hpos]
        · have hcount : q.dim - done.length * 2 = 1 := by omega
          have hnone : q.dim - (done.length + 1) * 2 = 0 := by omega
          simp [htwo, hcount, hnone, hlow]
  simpa [decode] using hfrom codes [] rfl

theorem decode_encode (vector : List Rat) :
    q.decode (q.encode vector) =
      (List.range q.dim).map fun d => q.component (q.codeAt vector d) d := by
  rw [q.decode_eq_map (q.encode_length vector)]
  refine List.map_congr_left fun d hd => ?_
  have hd := List.mem_range.mp hd
  have hbyte : memory (q.encode vector) (d / 2) =
      (if 2 * (d / 2) + 1 < q.dim then q.codeAt vector (2 * (d / 2) + 1) else 0) <<< 4 |||
        q.codeAt vector (2 * (d / 2)) :=
    memory_map_range _ (by omega)
  have hcodes : ∀ e, (q.codeAt vector e).toNat ≤ 15 := fun e => (int4Code_toNat _ _ _ e).2
  rcases Nat.mod_two_eq_zero_or_one d with hparity | hparity
  · have hhigh : (if 2 * (d / 2) + 1 < q.dim then q.codeAt vector (2 * (d / 2) + 1)
        else 0).toNat ≤ 15 := by
      split
      · exact hcodes _
      · decide
    rw [componentAt, if_pos hparity, hbyte, (nibbles_of_codes (hcodes _) hhigh).1]
    congr 2
    omega
  · rw [componentAt, if_neg (by omega), hbyte, if_pos (by omega),
      (nibbles_of_codes (hcodes _) (hcodes _)).2]
    congr 2
    omega

theorem decode_encode_length (vector : List Rat) :
    (q.decode (q.encode vector)).length = q.dim := by
  rw [decode_encode, List.length_map, List.length_range]

theorem memory_decode_encode (vector : List Rat) {d : Nat} (hd : d < q.dim) :
    memory (q.decode (q.encode vector)) d = q.component (q.codeAt vector d) d := by
  rw [decode_encode, memory_map_range _ hd]

theorem codeAt_congr {v w : List Rat} {d : Nat} (h : memory v d = memory w d) :
    q.codeAt v d = q.codeAt w d := by
  rw [codeAt, codeAt, int4Code, int4Code, h]

theorem encode_eq_map (vector : List Rat) :
    q.encode vector = (List.range ((q.dim + 1) / 2)).map fun i =>
      (if 2 * i + 1 < q.dim then q.codeAt vector (2 * i + 1) else 0) <<< 4 |||
        q.codeAt vector (2 * i) := rfl

theorem encode_congr {v w : List Rat} (h : ∀ d < q.dim, q.codeAt v d = q.codeAt w d) :
    q.encode v = q.encode w := by
  rw [encode_eq_map, encode_eq_map]
  refine List.map_congr_left fun i hi => ?_
  have hi := List.mem_range.mp hi
  rw [h (2 * i) (by omega)]
  by_cases hhigh : 2 * i + 1 < q.dim
  · rw [if_pos hhigh, if_pos hhigh, h (2 * i + 1) hhigh]
  · rw [if_neg hhigh, if_neg hhigh]

section

variable {q} (hfit : q.Fitted) {vector : List Rat} {d : Nat} (hd : d < q.dim)

include hfit hd

theorem Fitted.range_pos : 0 < rangeAt q.minVals q.maxVals d ∧
    max (rangeAt q.minVals q.maxVals d) minRange = rangeAt q.minVals q.maxVals d := by
  have hrange := hfit d hd
  have hmin : (0 : Rat) < minRange := by norm_num [minRange]
  exact ⟨lt_of_lt_of_le hmin hrange, max_eq_left hrange⟩

/-- A component within its range comes back with an error of at most half a step. -/
theorem Fitted.error_le (hlow : memory q.minVals d ≤ memory vector d)
    (hhigh : memory vector d ≤ memory q.maxVals d) :
    |memory (q.decode (q.encode vector)) d - memory vector d| ≤
      rangeAt q.minVals q.maxVals d / 15 / 2 := by
  obtain ⟨hpos, hmax⟩ := Fitted.range_pos hfit hd
  have hcode := (int4Code_toNat q.minVals q.maxVals vector d).1
  rw [q.memory_decode_encode vector hd, component, codeAt]
  set range := rangeAt q.minVals q.maxVals d with hrange
  set x := (memory vector d - memory q.minVals d) / range with hx
  have hvalue : memory vector d = x * range + memory q.minVals d := by
    rw [hx, div_mul_cancel₀ _ hpos.ne']
    ring
  have hx0 : 0 ≤ x := div_nonneg (by linarith) hpos.le
  have hx1 : x ≤ 1 := (div_le_one hpos).mpr (by rw [hrange, rangeAt]; linarith)
  rw [hmax, clamp_of_mem ⟨hx0, hx1⟩, roundAway_of_nonneg (by linarith)] at hcode
  have hcast : ((int4Code q.minVals q.maxVals vector d).toNat : Rat) = ⌊x * 15 + 1 / 2⌋ :=
    mod_cast congrArg (Int.cast (R := Rat)) hcode
  have hfloor := Int.floor_le (x * 15 + 1 / 2)
  have hnext := Int.lt_floor_add_one (x * 15 + 1 / 2)
  have herror : (⌊x * 15 + 1 / 2⌋ : Rat) / 15 * range + memory q.minVals d - memory vector d =
      (⌊x * 15 + 1 / 2⌋ - x * 15) * (range / 15) := by
    rw [hvalue]
    ring
  have hstep : 0 < range / 15 := by positivity
  rw [hcast, herror, abs_mul, abs_of_pos hstep]
  have habs : |(⌊x * 15 + 1 / 2⌋ : Rat) - x * 15| ≤ 1 / 2 := abs_le.mpr ⟨by linarith, by linarith⟩
  calc |(⌊x * 15 + 1 / 2⌋ : Rat) - x * 15| * (range / 15)
      ≤ 1 / 2 * (range / 15) := mul_le_mul_of_nonneg_right habs hstep.le
    _ = range / 15 / 2 := by ring

theorem Fitted.codeAt_decode (v : List Rat) :
    q.codeAt (q.decode (q.encode v)) d = q.codeAt v d := by
  obtain ⟨hpos, hmax⟩ := Fitted.range_pos hfit hd
  have hle := (int4Code_toNat q.minVals q.maxVals v d).2
  have hagain := (int4Code_toNat q.minVals q.maxVals (q.decode (q.encode v)) d).1
  have hvalue := q.memory_decode_encode v hd
  rw [component] at hvalue
  set code := q.codeAt v d with hcode
  have hfraction : (memory (q.decode (q.encode v)) d - memory q.minVals d) /
      rangeAt q.minVals q.maxVals d = (code.toNat : Rat) / 15 := by
    rw [hvalue, add_sub_cancel_right, mul_div_cancel_right₀ _ hpos.ne']
  have hbound : (code.toNat : Rat) ≤ 15 := by exact_mod_cast hle
  have hwithin : 0 ≤ (code.toNat : Rat) / 15 ∧ (code.toNat : Rat) / 15 ≤ 1 :=
    ⟨by positivity, (div_le_one (by norm_num)).mpr hbound⟩
  have hround : roundAway ((code.toNat : Rat) / 15 * 15) = code.toNat := by
    rw [div_mul_cancel₀ _ (by norm_num)]
    exact roundAway_intCast code.toNat
  rw [hmax, hfraction, clamp_of_mem hwithin, hround] at hagain
  exact UInt8.toNat_inj.mp (by exact_mod_cast hagain)

end

end ScalarQuantizer

/-! ## Ternary codes -/

namespace TernaryQuantizer

theorem ternaryLevel_mem (scale val : Rat) :
    -1 ≤ ternaryLevel scale val ∧ ternaryLevel scale val ≤ 1 := by
  unfold ternaryLevel
  split <;> omega

theorem ternaryBits_toNat (scale val : Rat) :
    ((ternaryBits scale val).toNat : Int) = ternaryLevel scale val + 1 := by
  obtain ⟨hlow, hhigh⟩ := ternaryLevel_mem scale val
  rw [ternaryBits, UInt8.toNat_ofNat', Nat.mod_eq_of_lt (by omega)]
  omega

theorem ternaryBits_cast (scale val : Rat) :
    ((ternaryBits scale val).toNat : Rat) = ternaryLevel scale val + 1 := by
  exact_mod_cast ternaryBits_toNat scale val

def packBits (c0 c1 c2 c3 : UInt8) : UInt8 :=
  (0 : UInt8) ||| c0 <<< 0 ||| c1 <<< 2 ||| c2 <<< 4 ||| c3 <<< 6

theorem twoBits_of_codes {c0 c1 c2 c3 : UInt8} (h0 : c0.toNat ≤ 2) (h1 : c1.toNat ≤ 2)
    (h2 : c2.toNat ≤ 2) (h3 : c3.toNat ≤ 2) :
    (List.range 4).map (twoBits (packBits c0 c1 c2 c3)) = [c0, c1, c2, c3] := by
  have hall : ∀ n0 < 3, ∀ n1 < 3, ∀ n2 < 3, ∀ n3 < 3,
      (List.range 4).map (twoBits (packBits (UInt8.ofNat n0) (UInt8.ofNat n1) (UInt8.ofNat n2)
        (UInt8.ofNat n3))) =
        [UInt8.ofNat n0, UInt8.ofNat n1, UInt8.ofNat n2, UInt8.ofNat n3] := by
    decide +kernel
  simpa only [UInt8.ofNat_toNat] using hall c0.toNat (Nat.lt_succ_of_le h0) c1.toNat
    (Nat.lt_succ_of_le h1) c2.toNat (Nat.lt_succ_of_le h2) c3.toNat (Nat.lt_succ_of_le h3)

variable (q : TernaryQuantizer)

/-- The code at a position of the last byte that no component has is 0. -/
def paddedBits (scale : Rat) (vector : List Rat) (d : Nat) : UInt8 :=
  if d < q.dim then ternaryBits scale (memory vector d) else 0

theorem paddedBits_le (scale : Rat) (vector : List Rat) (d : Nat) :
    (q.paddedBits scale vector d).toNat ≤ 2 := by
  unfold paddedBits
  split
  · have hbits := ternaryBits_toNat scale (memory vector d)
    have hlevel := (ternaryLevel_mem scale (memory vector d)).2
    omega
  · decide

theorem encodeByte_eq (scale : Rat) (vector : List Rat) (i : Nat) :
    q.encodeByte scale vector i =
      packBits (q.paddedBits scale vector i) (q.paddedBits scale vector (i + 1))
        (q.paddedBits scale vector (i + 2)) (q.paddedBits scale vector (i + 3)) := by
  have hstep : ∀ (byte shift : UInt8) (d : Nat),
      (if d < q.dim then byte ||| ternaryBits scale (memory vector d) <<< shift else byte) =
        byte ||| q.paddedBits scale vector d <<< shift := by
    intro byte shift d
    unfold paddedBits
    split
    · rfl
    · simp
  have hrange : List.range 4 = [0, 1, 2, 3] := rfl
  simp only [encodeByte, hrange, List.foldl_cons, List.foldl_nil, hstep]
  rfl

theorem twoBits_encodeByte (scale : Rat) (vector : List Rat) (i : Nat) {j : Nat} (h : j < 4) :
    twoBits (q.encodeByte scale vector i) j = q.paddedBits scale vector (i + j) := by
  have hcodes := twoBits_of_codes (q.paddedBits_le scale vector i)
    (q.paddedBits_le scale vector (i + 1)) (q.paddedBits_le scale vector (i + 2))
    (q.paddedBits_le scale vector (i + 3))
  rw [← encodeByte_eq] at hcodes
  have hread := congrArg (memory · j) hcodes
  simp only [memory_map_range _ h] at hread
  rw [hread]
  obtain rfl | rfl | rfl | rfl : j = 0 ∨ j = 1 ∨ j = 2 ∨ j = 3 := by omega
  all_goals rfl

def codesOf (scale : Rat) (vector : List Rat) : List UInt8 :=
  (List.range ((q.dim + 3) / 4)).map fun i => q.encodeByte scale vector (4 * i)

theorem encode_drop (vector : List Rat) :
    (q.encode vector).drop 2 = q.codesOf (q.scaleOf vector) vector := rfl

theorem memory_unpacked_codesOf (scale : Rat) (vector : List Rat) {d : Nat} (h : d < q.dim) :
    memory (unpacked (q.codesOf scale vector)) d = ternaryBits scale (memory vector d) := by
  have hlen : (q.codesOf scale vector).length = (q.dim + 3) / 4 := by simp [codesOf]
  apply UInt8.toNat_inj.mp
  rw [memory_unpacked _ (by omega), ternaryCode, codesOf, memory_map_range _ (by omega),
    twoBits_encodeByte _ _ _ _ (Nat.mod_lt _ (by omega)), Nat.div_add_mod, paddedBits, if_pos h]

def storedScale (vector : List Rat) : Rat :=
  f16ToF32 (u16FromLeBytes (memory (q.encode vector) 0) (memory (q.encode vector) 1))

theorem storedScale_eq (vector : List Rat) :
    q.storedScale vector =
      let bits := f32ToF16Bits (if q.dim = 0 then none else some (q.scaleOf vector))
      f16ToF32 (u16FromLeBytes bits.toUInt8 (bits >>> 8).toUInt8) := rfl

theorem decode_encode (vector : List Rat) :
    q.decode (q.encode vector) = (List.range q.dim).map fun d =>
      (ternaryLevel (q.scaleOf vector) (memory vector d) : Rat) * q.storedScale vector := by
  have hshort : ¬(q.encode vector).length < 2 := by simp [encode, le16]
  have hcodes : (q.codesOf (q.scaleOf vector) vector).length = (q.dim + 3) / 4 := by
    simp [codesOf]
  have hlen : ((unpacked (q.codesOf (q.scaleOf vector) vector)).take q.dim).length = q.dim := by
    rw [List.length_take, unpacked_length]
    omega
  rw [decode, if_neg hshort, encode_drop]
  refine memory_ext (by rw [List.length_map, List.length_map, hlen, List.length_range])
    fun d hd => ?_
  rw [List.length_map, hlen] at hd
  rw [memory_map_of_lt _ (hlen.symm ▸ hd), memory_take _ hd, q.memory_unpacked_codesOf _ _ hd,
    memory_map_range _ hd, storedScale]
  rw [ternaryBits_cast, add_sub_cancel_right]

theorem roundAway_zero : roundAway 0 = 0 := by simpa using roundAway_intCast 0

theorem one_le_roundAway {x : Rat} (h : 1 ≤ x) : 1 ≤ roundAway x := by
  rw [roundAway_of_nonneg (by linarith)]
  exact Int.le_floor.mpr (by push_cast; linarith)

theorem roundAway_le_neg_one {x : Rat} (h : x ≤ -1) : roundAway x ≤ -1 := by
  have hfloor : (1 : Int) ≤ ⌊-x + 1 / 2⌋ := Int.le_floor.mpr (by push_cast; linarith)
  rw [roundAway, if_neg (by linarith)]
  omega

theorem ternaryLevel_mul {level : Int} (hlevel : -1 ≤ level ∧ level ≤ 1) {stored scale : Rat}
    (hle : scale ≤ stored) (hpos : level ≠ 0 → 0 < scale) :
    ternaryLevel scale (level * stored) = level := by
  by_cases hscale : 0 < scale
  · have hratio : 1 ≤ stored / scale := (one_le_div hscale).mpr hle
    obtain rfl | rfl | rfl : level = -1 ∨ level = 0 ∨ level = 1 := by omega
    · have hround := roundAway_le_neg_one (show ((-1 : Int) : Rat) * stored / scale ≤ -1 by
        rw [mul_div_assoc]
        push_cast
        linarith)
      rw [ternaryLevel, if_pos hscale]
      omega
    · simp [ternaryLevel, roundAway_zero]
    · have hround := one_le_roundAway (show 1 ≤ ((1 : Int) : Rat) * stored / scale by
        rw [mul_div_assoc]
        push_cast
        linarith)
      rw [ternaryLevel, if_pos hscale]
      omega
  · obtain rfl : level = 0 := by
      by_contra h
      exact hscale (hpos h)
    simp [ternaryLevel, hscale]

/-- The mean magnitude of a decoded vector is at most its scale, and 0 only when all codes are
those of 0. -/
theorem scaleOf_decode {vector : List Rat} (hstored : 0 < q.storedScale vector) :
    q.scaleOf (q.decode (q.encode vector)) ≤ q.storedScale vector ∧
      ∀ d < q.dim, ternaryLevel (q.scaleOf vector) (memory vector d) ≠ 0 →
        0 < q.scaleOf (q.decode (q.encode vector)) := by
  set level : Nat → Int := fun d => ternaryLevel (q.scaleOf vector) (memory vector d)
  set magnitudes := (List.range q.dim).map fun d => |(level d : Rat) * q.storedScale vector|
    with hmagnitudes
  have hmean : q.scaleOf (q.decode (q.encode vector)) = magnitudes.sum / q.dim := by
    rw [scaleOf, decode_encode, List.map_map]
    rfl
  have hle : ∀ x ∈ magnitudes, x ≤ q.storedScale vector := by
    intro x hx
    obtain ⟨d, -, rfl⟩ := List.mem_map.mp hx
    obtain ⟨hlow, hhigh⟩ := ternaryLevel_mem (q.scaleOf vector) (memory vector d)
    have habs : |(level d : Rat)| ≤ 1 :=
      abs_le.mpr ⟨by exact_mod_cast hlow, by exact_mod_cast hhigh⟩
    rw [abs_mul, abs_of_pos hstored]
    exact mul_le_of_le_one_left hstored.le habs
  have hnonneg : ∀ x ∈ magnitudes, 0 ≤ x := by
    intro x hx
    obtain ⟨d, -, rfl⟩ := List.mem_map.mp hx
    exact abs_nonneg _
  rw [hmean]
  constructor
  · have hsum := List.sum_le_card_nsmul magnitudes _ hle
    rw [hmagnitudes, List.length_map, List.length_range, ← hmagnitudes, nsmul_eq_mul] at hsum
    exact div_le_of_le_mul₀ (Nat.cast_nonneg _) hstored.le (by linarith)
  · intro d hd hlevel
    have hdim : (0 : Rat) < q.dim := by exact_mod_cast Nat.lt_of_le_of_lt (Nat.zero_le d) hd
    have hmem : |(level d : Rat) * q.storedScale vector| ∈ magnitudes :=
      List.mem_map.mpr ⟨d, List.mem_range.mpr hd, rfl⟩
    have hone : 0 < |(level d : Rat) * q.storedScale vector| :=
      abs_pos.mpr (mul_ne_zero (by exact_mod_cast hlevel) hstored.ne')
    exact div_pos (lt_of_lt_of_le hone (List.single_le_sum hnonneg _ hmem)) hdim

theorem codes_encode_decode {vector : List Rat} (hstored : 0 < q.storedScale vector) :
    (q.encode (q.decode (q.encode vector))).drop 2 = (q.encode vector).drop 2 := by
  obtain ⟨hle, hpos⟩ := q.scaleOf_decode hstored
  have hbits : ∀ d < q.dim,
      ternaryBits (q.scaleOf (q.decode (q.encode vector)))
          (memory (q.decode (q.encode vector)) d) =
        ternaryBits (q.scaleOf vector) (memory vector d) := by
    intro d hd
    rw [ternaryBits, ternaryBits, show memory (q.decode (q.encode vector)) d = _ by
      rw [decode_encode, memory_map_range _ hd],
      ternaryLevel_mul (ternaryLevel_mem _ _) hle (hpos d hd)]
  rw [encode_drop, encode_drop]
  refine List.map_congr_left fun i _ => ?_
  have hpadded : ∀ d, q.paddedBits (q.scaleOf (q.decode (q.encode vector)))
      (q.decode (q.encode vector)) d = q.paddedBits (q.scaleOf vector) vector d := by
    intro d
    unfold paddedBits
    split
    · rename_i hd
      exact hbits d hd
    · rfl
  rw [encodeByte_eq, encodeByte_eq, hpadded, hpadded, hpadded, hpadded]

end TernaryQuantizer

end BenShu.Inference
