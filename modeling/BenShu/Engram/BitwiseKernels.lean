import BenShu.Engram.VectorStore
import BenShu.Lib.Simd
import Mathlib.Data.BitVec

/-!
# Bitwise similarity

Distances between encoded vectors, taken from the codes. The vector kernels work through whole
blocks and leave the rest to the software versions.
-/

namespace BenShu.Engram.Bitwise

open Simd Lanes Finset

/-! ## Software versions -/

def countOnes (byte : UInt8) : Nat := ((List.range 8).filter byte.toBitVec.getLsbD).length

def softwareHamming (a b : List UInt8) : Nat :=
  ((a.zip b).map fun pair => countOnes (pair.1 ^^^ pair.2)).sum

def int4Products (ba bb : UInt8) : Nat :=
  (ba &&& 0x0F).toNat * (bb &&& 0x0F).toNat + (ba >>> 4 &&& 0x0F).toNat * (bb >>> 4 &&& 0x0F).toNat

def softwareInt4Dot (a b : List UInt8) : Nat :=
  ((a.zip b).map fun pair => int4Products pair.1 pair.2).sum

/-! ## Hamming distance in blocks -/

section

variable (a b : List UInt8)

/-- The counts of eight bytes are added into one word, the words into the distance. -/
def avx512HammingStep (s : Nat × Nat) : Nat × Nat :=
  let vxor := map₂ (· ^^^ ·) (load (memory a) s.1) (load (memory b) s.1)
  let vcnt := vxor.map countOnes
  let vsum : Lanes Nat := fun word => ∑ t ∈ range 8, vcnt (8 * word + t)
  (s.1 + 64, s.2 + ((List.range 8).map vsum).sum)

def avx512HammingTernary : Nat :=
  let s := whileLoop (fun s => decide (s.1 + 64 ≤ a.length)) (avx512HammingStep a b) a.length (0, 0)
  s.2 + softwareHamming (a.drop s.1) (b.drop s.1)

def avx2HammingStep (s : Nat × Nat) : Nat × Nat :=
  let vxor := map₂ (· ^^^ ·) (load (memory a) s.1) (load (memory b) s.1)
  (s.1 + 32, (List.range 32).foldl (fun distance k => distance + countOnes (vxor k)) s.2)

def avx2HammingTernary : Nat :=
  let s := whileLoop (fun s => decide (s.1 + 32 ≤ a.length)) (avx2HammingStep a b) a.length (0, 0)
  s.2 + softwareHamming (a.drop s.1) (b.drop s.1)

end

/-! ## Int4 products in blocks -/

/-- Bytes shifted within words of 16 bits. -/
def srliEpi16 (count : UInt16) (x : Lanes UInt8) : Lanes UInt8 := fun k =>
  let word := (x (2 * (k / 2))).toUInt16 ||| (x (2 * (k / 2) + 1)).toUInt16 <<< 8
  let shifted := word >>> count
  if k % 2 = 0 then shifted.toUInt8 else (shifted >>> 8).toUInt8

/-- Four products of an unsigned and a signed byte are added to each word of 32 bits. -/
def dpbusd (acc : Lanes (BitVec 32)) (x y : Lanes UInt8) : Lanes (BitVec 32) := fun word =>
  acc word + ∑ t ∈ range 4,
    (x (4 * word + t)).toBitVec.setWidth 32 * (y (4 * word + t)).toBitVec.signExtend 32

section

variable (size : Nat) (a b : List UInt8)

/-- One block of `size` bytes: the position and the running total. -/
def vnniStep (s : Nat × BitVec 32) : Nat × BitVec 32 :=
  let va := load (memory a) s.1
  let vb := load (memory b) s.1
  let lowMask : Lanes UInt8 := set1 0x0F
  let vaLow := map₂ (· &&& ·) va lowMask
  let vaHigh := map₂ (· &&& ·) (srliEpi16 4 va) lowMask
  let vbLow := map₂ (· &&& ·) vb lowMask
  let vbHigh := map₂ (· &&& ·) (srliEpi16 4 vb) lowMask
  let vresLow := dpbusd (set1 0) vaLow vbLow
  let vresHigh := dpbusd (set1 0) vaHigh vbHigh
  let vresid := map₂ (· + ·) vresLow vresHigh
  (s.1 + size, s.2 + reduceAdd (size / 4) vresid)

def vnniInt4Dot : Rat :=
  let s := whileLoop (fun s => decide (s.1 + (size - 1) < a.length)) (vnniStep size a b) a.length
    (0, 0)
  s.2.toNat + softwareInt4Dot (a.drop s.1) (b.drop s.1)

end

def avx512VnniInt4Dot := vnniInt4Dot 64

def avxVnniInt4Dot := vnniInt4Dot 32

/-! ## Similarity -/

structure CpuFeatures where
  avx2 : Bool
  avxvnni : Bool
  avx512 : Bool
  avx512vnni : Bool
  deriving DecidableEq

/-- `none` is the quotient of two zeros, which two empty slices have for a distance. -/
def bitwiseSimilarity (cpu : CpuFeatures) (a b : List UInt8) (level : QuantLevel) : Option Rat :=
  if a.length ≠ b.length then some 0
  else
    match level with
    | .background =>
        let distance :=
          if cpu.avx512 then avx512HammingTernary a b
          else if cpu.avx2 then avx2HammingTernary a b
          else softwareHamming a b
        if a.length = 0 then none else some (1 - distance / (a.length * 8))
    | .cold =>
        let dot :=
          if cpu.avx512vnni then avx512VnniInt4Dot a b
          else if cpu.avxvnni then avxVnniInt4Dot a b
          else softwareInt4Dot a b
        some (dot / max (a.length * 2 * 15 * 15) 1)
    | _ => some 1

/-! ## The software versions by position -/

theorem sum_zip_eq (f : UInt8 → UInt8 → Nat) {a b : List UInt8} (h : a.length = b.length) :
    ((a.zip b).map fun pair => f pair.1 pair.2).sum =
      ∑ d ∈ range a.length, f (memory a d) (memory b d) := by
  induction a generalizing b with
  | nil => simp
  | cons x a ih =>
      cases b with
      | nil => simp at h
      | cons y b =>
          rw [List.zip_cons_cons, List.map_cons, List.sum_cons, ih (by simpa using h),
            List.length_cons, sum_range_succ', Nat.add_comm]
          rfl

theorem sum_zip_drop (f : UInt8 → UInt8 → Nat) {a b : List UInt8} (h : a.length = b.length)
    {n : Nat} (hn : n ≤ a.length) :
    (∑ d ∈ range n, f (memory a d) (memory b d)) +
        (((a.drop n).zip (b.drop n)).map fun pair => f pair.1 pair.2).sum =
      ((a.zip b).map fun pair => f pair.1 pair.2).sum := by
  have hdrop : (a.drop n).length = (b.drop n).length := by simp [h]
  rw [sum_zip_eq f hdrop, sum_zip_eq f h, List.length_drop]
  simp only [memory_drop]
  obtain ⟨m, hm⟩ := Nat.exists_eq_add_of_le hn
  rw [hm, Nat.add_sub_cancel_left, sum_range_add]

/-! ## The blocks -/

/-- The differing bits of a block. -/
def hammingBlock (a b : List UInt8) (size i : Nat) : Nat :=
  ∑ k ∈ range size, countOnes (memory a (i + k) ^^^ memory b (i + k))

theorem avx512HammingStep_eq (a b : List UInt8) (s : Nat × Nat) :
    avx512HammingStep a b s = (s.1 + 64, s.2 + hammingBlock a b 64 s.1) := by
  have hsum : ∀ f : Nat → Nat, ((List.range 8).map f).sum = ∑ word ∈ range 8, f word :=
    fun f => rfl
  rw [avx512HammingStep, hsum, sum_range_blocks 8 8]
  rfl

theorem avx2HammingStep_eq (a b : List UInt8) (s : Nat × Nat) :
    avx2HammingStep a b s = (s.1 + 32, s.2 + hammingBlock a b 32 s.1) := by
  have hfold : ∀ (f : Nat → Nat) (n start : Nat),
      (List.range n).foldl (fun distance k => distance + f k) start =
        start + ∑ k ∈ range n, f k := by
    intro f n start
    induction n with
    | zero => simp
    | succ n ih => simp [List.range_succ, sum_range_succ, ih, Nat.add_assoc]
  rw [avx2HammingStep, hfold]
  rfl

/-- The blocks of a loop and the software version of the rest make the software version. -/
theorem blocks_add_rest (f : UInt8 → UInt8 → Nat) {a b : List UInt8} (h : a.length = b.length)
    (size : Nat) :
    (∑ j ∈ range (a.length / size), ∑ k ∈ range size,
        f (memory a (size * j + k)) (memory b (size * j + k))) +
        (((a.drop (size * (a.length / size))).zip (b.drop (size * (a.length / size)))).map
          fun pair => f pair.1 pair.2).sum =
      ((a.zip b).map fun pair => f pair.1 pair.2).sum := by
  rw [sum_range_blocks size _ fun d => f (memory a d) (memory b d)]
  exact sum_zip_drop f h (Nat.mul_div_le _ _)

theorem avx512HammingTernary_eq {a b : List UInt8} (h : a.length = b.length) :
    avx512HammingTernary a b = softwareHamming a b := by
  have hloop := whileLoop_blocks a.length (show 0 < 64 by decide)
    (hammingBlock a b 64) (fun _ => rfl) (avx512HammingStep_eq a b)
  rw [avx512HammingTernary, hloop]
  exact blocks_add_rest (fun x y => countOnes (x ^^^ y)) h 64

theorem avx2HammingTernary_eq {a b : List UInt8} (h : a.length = b.length) :
    avx2HammingTernary a b = softwareHamming a b := by
  have hloop := whileLoop_blocks a.length (show 0 < 32 by decide)
    (hammingBlock a b 32) (fun _ => rfl) (avx2HammingStep_eq a b)
  rw [avx2HammingTernary, hloop]
  exact blocks_add_rest (fun x y => countOnes (x ^^^ y)) h 32

theorem shifted_low (low high : UInt8) :
    ((low.toUInt16 ||| high.toUInt16 <<< 8) >>> 4).toUInt8 &&& (0x0F : UInt8) =
      low >>> 4 &&& (0x0F : UInt8) := by
  have hlow : ∀ x : BitVec 8,
      (x.setWidth 16 >>> 4).setWidth 8 &&& 0x0F#8 = x >>> 4#8 &&& 0x0F#8 := by
    decide +kernel
  have hhigh : ∀ x : BitVec 8,
      ((x.setWidth 16 <<< 8#16) >>> 4).setWidth 8 &&& 0x0F#8 = 0#8 := by
    decide +kernel
  apply UInt8.toBitVec_inj.mp
  show ((low.toBitVec.setWidth 16 ||| high.toBitVec.setWidth 16 <<< 8#16) >>> 4).setWidth 8 &&&
    0x0F#8 = low.toBitVec >>> 4#8 &&& 0x0F#8
  rw [BitVec.ushiftRight_or_distrib, BitVec.setWidth_or, BitVec.and_or_distrib_right, hlow, hhigh,
    BitVec.or_zero]

theorem shifted_high (low high : UInt8) :
    ((low.toUInt16 ||| high.toUInt16 <<< 8) >>> 4 >>> 8).toUInt8 &&& (0x0F : UInt8) =
      high >>> 4 &&& (0x0F : UInt8) := by
  have hlow : ∀ x : BitVec 8, (x.setWidth 16 >>> 4 >>> 8).setWidth 8 &&& 0x0F#8 = 0#8 := by
    decide +kernel
  have hhigh : ∀ x : BitVec 8,
      ((x.setWidth 16 <<< 8#16) >>> 4 >>> 8).setWidth 8 &&& 0x0F#8 = x >>> 4#8 &&& 0x0F#8 := by
    decide +kernel
  apply UInt8.toBitVec_inj.mp
  show ((low.toBitVec.setWidth 16 ||| high.toBitVec.setWidth 16 <<< 8#16) >>> 4 >>> 8).setWidth 8
    &&& 0x0F#8 = high.toBitVec >>> 4#8 &&& 0x0F#8
  rw [BitVec.ushiftRight_or_distrib, BitVec.ushiftRight_or_distrib, BitVec.setWidth_or,
    BitVec.and_or_distrib_right, hlow, hhigh, BitVec.zero_or]

theorem srliEpi16_nibble (x : Lanes UInt8) (k : Nat) :
    srliEpi16 4 x k &&& (0x0F : UInt8) = x k >>> 4 &&& (0x0F : UInt8) := by
  rcases Nat.mod_two_eq_zero_or_one k with h | h
  · have hk : 2 * (k / 2) = k := by omega
    rw [srliEpi16, if_pos h, shifted_low, hk]
  · have hk : 2 * (k / 2) + 1 = k := by omega
    rw [srliEpi16, if_neg (by omega), shifted_high, hk]

theorem nibble_product (x y : UInt8) :
    (x &&& 0x0F).toBitVec.setWidth 32 * (y &&& 0x0F).toBitVec.signExtend 32 =
      (((x &&& 0x0F).toNat * (y &&& 0x0F).toNat : Nat) : BitVec 32) := by
  have hx : ∀ z : BitVec 8, (z &&& 0x0F#8).setWidth 32 = BitVec.ofNat 32 (z &&& 0x0F#8).toNat := by
    decide +kernel
  have hy : ∀ z : BitVec 8,
      (z &&& 0x0F#8).signExtend 32 = BitVec.ofNat 32 (z &&& 0x0F#8).toNat := by
    decide +kernel
  rw [Nat.cast_mul]
  exact congr (congrArg HMul.hMul (hx x.toBitVec)) (hy y.toBitVec)

theorem vnniStep_eq {size : Nat} (hwords : size / 4 * 4 = size) (a b : List UInt8)
    (s : Nat × BitVec 32) :
    vnniStep size a b s = (s.1 + size, s.2 +
      ((∑ k ∈ range size, int4Products (memory a (s.1 + k)) (memory b (s.1 + k)) : Nat) :
        BitVec 32)) := by
  rw [vnniStep]
  congr 2
  rw [Nat.cast_sum]
  calc reduceAdd (size / 4) _
      = ∑ word ∈ range (size / 4), ∑ t ∈ range 4,
          ((int4Products (memory a (s.1 + (4 * word + t))) (memory b (s.1 + (4 * word + t))) :
            Nat) : BitVec 32) := by
        refine sum_congr rfl fun word _ => ?_
        simp only [map₂, dpbusd, set1, zero_add, srliEpi16_nibble, load, nibble_product,
          ← sum_add_distrib, int4Products, Nat.cast_add]
    _ = _ := by
        rw [sum_range_blocks 4 (size / 4) fun k =>
          ((int4Products (memory a (s.1 + k)) (memory b (s.1 + k)) : Nat) : BitVec 32),
          Nat.mul_comm 4, hwords]

theorem vnniInt4Dot_eq {size : Nat} (hwords : size / 4 * 4 = size) (hsize : 0 < size)
    {a b : List UInt8} (h : a.length = b.length) (hfits : softwareInt4Dot a b < 2 ^ 32) :
    vnniInt4Dot size a b = softwareInt4Dot a b := by
  have hguard : ∀ s : Nat × BitVec 32,
      decide (s.1 + (size - 1) < a.length) = decide (s.1 + size ≤ a.length) := by
    intro s
    exact decide_eq_decide.mpr (by omega)
  have hloop := whileLoop_blocks a.length hsize
    (fun i => ((∑ k ∈ range size, int4Products (memory a (i + k)) (memory b (i + k)) : Nat) :
      BitVec 32)) hguard (vnniStep_eq hwords a b)
  have hsum := blocks_add_rest int4Products h size
  rw [vnniInt4Dot, hloop]
  simp only [← Nat.cast_sum]
  rw [BitVec.natCast_eq_ofNat, BitVec.toNat_ofNat, Nat.mod_eq_of_lt, ← Nat.cast_add]
  · exact congrArg Nat.cast hsum
  · exact lt_of_le_of_lt ((Nat.le_add_right _ _).trans_eq hsum) hfits

end BenShu.Engram.Bitwise
