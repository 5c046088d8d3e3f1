import BenShu.Lib.Simd
import Mathlib.Tactic.FinCases
import Mathlib.Tactic.Ring

/-!
# Dot products with int4 weights

A byte holds two weights, the even one in its lower half. The vector kernels widen the bytes of
a block to 16 bits and bring the two halves of each byte side by side with unpack instructions,
which work within 128 bits. The activations are loaded in their order. Arithmetic is exact.
-/

namespace BenShu.Inference

open Simd Lanes Finset

/-! ## The scalar kernel -/

def minRange : Rat := 1 / 1000000

def rangeAt (minVals maxVals : List Rat) (d : Nat) : Rat := memory maxVals d - memory minVals d

section

variable (fVec minVals maxVals : List Rat)

def int4Term (q : UInt8) (d : Nat) : Rat :=
  (q.toNat / 15 * max (rangeAt minVals maxVals d) minRange + memory minVals d) * memory fVec d

/-- The loop over the bytes. It stops at the byte in which the activations end. -/
def int4ScalarLoop (i : Nat) (sum : Rat) : List UInt8 → Rat
  | [] => sum
  | byte :: rest =>
      let q1 := byte &&& 0x0F
      let q2 := (byte >>> 4) &&& 0x0F
      let d1 := i * 2
      let d2 := d1 + 1
      if fVec.length ≤ d2 then
        if d1 < fVec.length then sum + int4Term fVec minVals maxVals q1 d1 else sum
      else
        int4ScalarLoop (i + 1)
          (sum + int4Term fVec minVals maxVals q1 d1 + int4Term fVec minVals maxVals q2 d2) rest

end

def dotProductInt4Scalar (codes : List UInt8) (fVec minVals maxVals : List Rat) : Rat :=
  int4ScalarLoop fVec minVals maxVals 0 0 codes

/-! ## The vector kernels -/

inductive Int4Variant where
  | avx2Fma
  | avx2NoFma
  | avx512
  deriving DecidableEq

def Int4Variant.lanes : Int4Variant → Nat
  | .avx2Fma | .avx2NoFma => 8
  | .avx512 => 16

def fmadd (a b c : Rat) : Rat := a * b + c

def mulThenAdd (a b c : Rat) : Rat := c + a * b

def Int4Variant.mulAdd : Int4Variant → Rat → Rat → Rat → Rat
  | .avx2Fma | .avx512 => fmadd
  | .avx2NoFma => mulThenAdd

/-- Sign extension to 32 bits and conversion to a float. -/
def floatOfEpi16 (x : UInt16) : Rat := x.toInt16.toInt

/-- The four registers of weights in a widened block. -/
def qBlocks (lanes : Nat) (chunk : Lanes UInt16) : List (Lanes UInt16) :=
  let lowBitsMask : Lanes UInt16 := set1 0x0F0F
  let q1 := map₂ (· &&& ·) chunk lowBitsMask
  let q2 := map₂ (· &&& ·) (chunk.map fun word : UInt16 => word >>> 4) lowBitsMask
  let q12Low := unpackLo q1 q2
  let q12High := unpackHi q1 q2
  [extract lanes 0 q12Low, extract lanes 1 q12Low, extract lanes 0 q12High, extract lanes 1 q12High]

namespace Int4Variant

variable (variant : Int4Variant) (codes : List UInt8) (fVec minVals maxVals : List Rat)

/-- One register of weights against the activations at `offset`. -/
def accumulate (offset : Nat) (qBlock : Lanes UInt16) (sumVec : Lanes Rat) : Lanes Rat :=
  let minVec := load (memory minVals) offset
  let maxVec := load (memory maxVals) offset
  let qVec := load (memory fVec) offset
  fun k =>
    let scale := (maxVec k - minVec k) * (1 / 15)
    let decoded := variant.mulAdd (floatOfEpi16 (qBlock k)) scale (minVec k)
    variant.mulAdd decoded (qVec k) (sumVec k)

/-- One block: the position in the codes and the sums of the lanes. -/
def int4Step (s : Nat × Lanes Rat) : Nat × Lanes Rat :=
  let chunk := (load (memory codes) s.1).map UInt8.toUInt16
  (s.1 + 2 * variant.lanes,
    (qBlocks variant.lanes chunk).zipIdx.foldl (fun sumVec block =>
      variant.accumulate fVec minVals maxVals (s.1 * 2 + block.2 * variant.lanes) block.1 sumVec)
      s.2)

def int4Guard (s : Nat × Lanes Rat) : Bool :=
  s.1 + (2 * variant.lanes - 1) < codes.length && s.1 * 2 + (4 * variant.lanes - 1) < fVec.length

def dotProduct : Rat :=
  let s := whileLoop (variant.int4Guard codes fVec)
    (variant.int4Step codes fVec minVals maxVals) codes.length (0, set1 0)
  reduceAdd variant.lanes s.2 +
    dotProductInt4Scalar (codes.drop s.1) (fVec.drop (s.1 * 2)) (minVals.drop (s.1 * 2))
      (maxVals.drop (s.1 * 2))

end Int4Variant

def dotProductInt4Avx2Fma := Int4Variant.avx2Fma.dotProduct

def dotProductInt4Avx2NoFma := Int4Variant.avx2NoFma.dotProduct

def dotProductInt4Avx512 := Int4Variant.avx512.dotProduct

structure CpuFeatures where
  avx512f : Bool
  avx512vpopcntdq : Bool
  avx2 : Bool
  fma : Bool
  deriving DecidableEq

def getFeatureState (cpu : CpuFeatures) : Nat :=
  if cpu.avx2 && cpu.fma then 1 else if cpu.avx2 then 2 else 3

def dotProductInt4F32 (cpu : CpuFeatures) : List UInt8 → List Rat → List Rat → List Rat → Rat :=
  if cpu.avx512f then dotProductInt4Avx512
  else
    match getFeatureState cpu with
    | 1 => dotProductInt4Avx2Fma
    | 2 => dotProductInt4Avx2NoFma
    | _ => dotProductInt4Scalar

/-! ## Weights by position -/

def nibble (codes : List UInt8) (d : Nat) : Nat :=
  if d % 2 = 0 then (memory codes (d / 2) &&& 0x0F).toNat
  else ((memory codes (d / 2) >>> 4) &&& 0x0F).toNat

theorem nibble_drop (codes : List UInt8) (i d : Nat) :
    nibble (codes.drop i) d = nibble codes (i * 2 + d) := by
  have hparity : (i * 2 + d) % 2 = d % 2 := by omega
  have hhalf : (i * 2 + d) / 2 = i + d / 2 := by omega
  simp only [nibble, memory_drop, hparity, hhalf]

theorem rangeAt_drop (minVals maxVals : List Rat) (n d : Nat) :
    rangeAt (minVals.drop n) (maxVals.drop n) d = rangeAt minVals maxVals (n + d) := by
  simp [rangeAt, memory_drop]

def int4Weight (codes : List UInt8) (minVals maxVals : List Rat) (d : Nat) : Rat :=
  nibble codes d / 15 * max (rangeAt minVals maxVals d) minRange + memory minVals d

theorem int4Weight_drop (codes : List UInt8) (minVals maxVals : List Rat) {i n : Nat}
    (h : i * 2 = n) (d : Nat) :
    int4Weight (codes.drop i) (minVals.drop n) (maxVals.drop n) d =
      int4Weight codes minVals maxVals (n + d) := by
  simp only [int4Weight, nibble_drop, rangeAt_drop, memory_drop, h]

theorem int4ScalarLoop_eq (fVec minVals maxVals : List Rat) (i : Nat) (sum : Rat)
    (codes : List UInt8) :
    int4ScalarLoop fVec minVals maxVals i sum codes =
      sum + ∑ d ∈ range (min (fVec.length - i * 2) (2 * codes.length)),
        (nibble codes d / 15 * max (rangeAt minVals maxVals (i * 2 + d)) minRange +
          memory minVals (i * 2 + d)) * memory fVec (i * 2 + d) := by
  induction codes generalizing i sum with
  | nil => simp [int4ScalarLoop]
  | cons byte rest ih =>
      have hlow : nibble (byte :: rest) 0 = (byte &&& 0x0F).toNat := rfl
      have hhigh : nibble (byte :: rest) 1 = ((byte >>> 4) &&& 0x0F).toNat := rfl
      have hrest : ∀ d, nibble (byte :: rest) (d + 2) = nibble rest d := by
        intro d
        have := nibble_drop (byte :: rest) 1 d
        simpa [Nat.add_comm] using this.symm
      simp only [int4ScalarLoop]
      by_cases hend : fVec.length ≤ i * 2 + 1
      · by_cases hone : i * 2 < fVec.length
        · have hlen : min (fVec.length - i * 2) (2 * (byte :: rest).length) = 1 := by
            simp only [List.length_cons]
            omega
          rw [if_pos hend, if_pos hone, hlen, sum_range_one, hlow, Nat.add_zero]
          rfl
        · have hlen : min (fVec.length - i * 2) (2 * (byte :: rest).length) = 0 := by omega
          rw [if_pos hend, if_neg hone, hlen, sum_range_zero, add_zero]
      · have hlen : min (fVec.length - i * 2) (2 * (byte :: rest).length) =
            min (fVec.length - (i + 1) * 2) (2 * rest.length) + 1 + 1 := by
          simp only [List.length_cons]
          omega
        have hpos : ∀ d, i * 2 + (d + 1 + 1) = (i + 1) * 2 + d := by omega
        rw [if_neg hend, ih, hlen, sum_range_succ', sum_range_succ']
        simp only [hpos, hrest, hlow, hhigh, Nat.zero_add, Nat.add_zero, int4Term]
        ring

theorem dotProductInt4Scalar_eq (codes : List UInt8) (fVec minVals maxVals : List Rat) :
    dotProductInt4Scalar codes fVec minVals maxVals =
      ∑ d ∈ range (min fVec.length (2 * codes.length)),
        int4Weight codes minVals maxVals d * memory fVec d := by
  simp [dotProductInt4Scalar, int4ScalarLoop_eq, int4Weight]

/-! ## What the vector kernels multiply -/

/-- The position within a block whose code meets the activation at `d`. -/
def pairedInBlock (lanes d : Nat) : Nat :=
  16 * (d % (2 * lanes) / 8) + 8 * (d / (2 * lanes)) + d % (2 * lanes) % 8

theorem mulAdd_eq (variant : Int4Variant) (a b c : Rat) : variant.mulAdd a b c = a * b + c := by
  cases variant
  · rfl
  · exact add_comm c (a * b)
  · rfl

theorem widened_low (byte : UInt8) :
    floatOfEpi16 (byte.toUInt16 &&& 0x0F0F) = ((byte &&& 0x0F).toNat : Rat) := by
  have hall : ∀ x : BitVec 8,
      (x.setWidth 16 &&& 0x0F0F#16).toInt = ((x &&& 0x0F#8).toNat : Int) := by
    decide +kernel
  have := hall byte.toBitVec
  exact congrArg (fun z : Int => (z : Rat)) this

theorem widened_high (byte : UInt8) :
    floatOfEpi16 (byte.toUInt16 >>> 4 &&& 0x0F0F) = (((byte >>> 4) &&& 0x0F).toNat : Rat) := by
  have hall : ∀ x : BitVec 8,
      (x.setWidth 16 >>> 4#16 &&& 0x0F0F#16).toInt = ((x >>> 4#8 &&& 0x0F#8).toNat : Int) := by
    decide +kernel
  have := hall byte.toBitVec
  exact congrArg (fun z : Int => (z : Rat)) this

theorem nibble_even (codes : List UInt8) (s : Nat) :
    nibble codes (s * 2) = (memory codes s &&& 0x0F).toNat := by
  simp [nibble]

theorem nibble_odd (codes : List UInt8) (s : Nat) :
    nibble codes (s * 2 + 1) = ((memory codes s >>> 4) &&& 0x0F).toNat := by
  have hhalf : (s * 2 + 1) / 2 = s := by omega
  have hparity : (s * 2 + 1) % 2 = 1 := by omega
  simp [nibble, hhalf, hparity]

section

variable (codes : List UInt8) (i : Nat)

/-- A chunk of widened bytes, its lower or upper halves by the parity of the lane. -/
theorem float_halves (s r : Nat) :
    floatOfEpi16 ((if r % 2 = 0 then
        map₂ (· &&& ·) ((load (memory codes) i).map UInt8.toUInt16) (set1 0x0F0F)
      else map₂ (· &&& ·)
        (((load (memory codes) i).map UInt8.toUInt16).map fun word : UInt16 => word >>> 4)
        (set1 0x0F0F)) s) =
      nibble codes (i * 2 + (2 * s + r % 2)) := by
  rcases Nat.mod_two_eq_zero_or_one r with h | h
  · rw [if_pos h, h, show i * 2 + (2 * s + 0) = (i + s) * 2 by omega, nibble_even]
    exact widened_low _
  · rw [if_neg (by omega), h, show i * 2 + (2 * s + 1) = (i + s) * 2 + 1 by omega, nibble_odd]
    exact widened_high _

theorem float_unpackLo (r : Nat) :
    floatOfEpi16 (unpackLo (map₂ (· &&& ·) ((load (memory codes) i).map UInt8.toUInt16)
        (set1 0x0F0F)) (map₂ (· &&& ·)
        (((load (memory codes) i).map UInt8.toUInt16).map fun word : UInt16 => word >>> 4)
        (set1 0x0F0F)) r) =
      nibble codes (i * 2 + (16 * (r / 8) + r % 8)) := by
  rw [unpackLo, float_halves, show 2 * (8 * (r / 8) + r % 8 / 2) + r % 2 = 16 * (r / 8) + r % 8 by
    omega]

theorem float_unpackHi (r : Nat) :
    floatOfEpi16 (unpackHi (map₂ (· &&& ·) ((load (memory codes) i).map UInt8.toUInt16)
        (set1 0x0F0F)) (map₂ (· &&& ·)
        (((load (memory codes) i).map UInt8.toUInt16).map fun word : UInt16 => word >>> 4)
        (set1 0x0F0F)) r) =
      nibble codes (i * 2 + (16 * (r / 8) + 8 + r % 8)) := by
  rw [unpackHi, float_halves,
    show 2 * (8 * (r / 8) + 4 + r % 8 / 2) + r % 2 = 16 * (r / 8) + 8 + r % 8 by omega]

theorem pairedInBlock_of_lt {lanes r : Nat} (half : Nat) (h : r < 2 * lanes) :
    pairedInBlock lanes (2 * lanes * half + r) = 16 * (r / 8) + 8 * half + r % 8 := by
  have hmod : (2 * lanes * half + r) % (2 * lanes) = r := by
    rw [Nat.mul_add_mod, Nat.mod_eq_of_lt h]
  have hdiv : (2 * lanes * half + r) / (2 * lanes) = half := by
    rw [Nat.mul_add_div (by omega), Nat.div_eq_of_lt h, Nat.add_zero]
  rw [pairedInBlock, hmod, hdiv]

theorem float_qBlocks (lanes : Nat) {k : Nat} (hk : k < lanes) :
    (qBlocks lanes ((load (memory codes) i).map UInt8.toUInt16)).map
        (fun q => floatOfEpi16 (q k)) =
      (List.range 4).map fun b =>
        (nibble codes (i * 2 + pairedInBlock lanes (b * lanes + k)) : Rat) := by
  have h0 : pairedInBlock lanes (0 * lanes + k) = 16 * (k / 8) + k % 8 := by
    simpa using pairedInBlock_of_lt 0 (show k < 2 * lanes by omega)
  have h1 : pairedInBlock lanes (1 * lanes + k) =
      16 * ((lanes + k) / 8) + (lanes + k) % 8 := by
    simpa using pairedInBlock_of_lt 0 (show lanes + k < 2 * lanes by omega)
  have h2 : pairedInBlock lanes (2 * lanes + k) = 16 * (k / 8) + 8 + k % 8 := by
    simpa using pairedInBlock_of_lt 1 (show k < 2 * lanes by omega)
  have h3 : pairedInBlock lanes (3 * lanes + k) =
      16 * ((lanes + k) / 8) + 8 + (lanes + k) % 8 := by
    have := pairedInBlock_of_lt 1 (show lanes + k < 2 * lanes by omega)
    rw [← this]
    congr 1
    omega
  have hrange : List.range 4 = [0, 1, 2, 3] := rfl
  rw [hrange, qBlocks]
  simp only [List.map_cons, List.map_nil, extract, float_unpackLo, float_unpackHi, h0, h1, h2, h3,
    Nat.mul_zero, Nat.zero_add, Nat.mul_one]

end

def pairedWith (lanes d : Nat) : Nat :=
  4 * lanes * (d / (4 * lanes)) + pairedInBlock lanes (d % (4 * lanes))

section

variable (variant : Int4Variant) (codes : List UInt8) (fVec minVals maxVals : List Rat)

def vectorWeight (lanes d : Nat) : Rat :=
  nibble codes (pairedWith lanes d) * (rangeAt minVals maxVals d * (1 / 15)) + memory minVals d

theorem accumulate_eq (offset : Nat) (qBlock : Lanes UInt16) (sumVec : Lanes Rat) (k : Nat) :
    variant.accumulate fVec minVals maxVals offset qBlock sumVec k =
      sumVec k +
        (floatOfEpi16 (qBlock k) * (rangeAt minVals maxVals (offset + k) * (1 / 15)) +
          memory minVals (offset + k)) * memory fVec (offset + k) := by
  simp only [Int4Variant.accumulate, mulAdd_eq, load, rangeAt]
  ring

/-- The registers of a block, one after the other. -/
theorem accumulate_blocks (base first : Nat) (blocks : List (Lanes UInt16)) (sumVec : Lanes Rat)
    (k : Nat) :
    (blocks.zipIdx first).foldl (fun sumVec block => variant.accumulate fVec minVals maxVals
        (base + block.2 * variant.lanes) block.1 sumVec) sumVec k =
      sumVec k + (((blocks.map fun q => floatOfEpi16 (q k)).zipIdx first).map fun q =>
        (q.1 * (rangeAt minVals maxVals (base + q.2 * variant.lanes + k) * (1 / 15)) +
          memory minVals (base + q.2 * variant.lanes + k)) *
            memory fVec (base + q.2 * variant.lanes + k)).sum := by
  induction blocks generalizing first sumVec with
  | nil => simp
  | cons block blocks ih =>
      simp only [List.zipIdx_cons, List.foldl_cons, List.map_cons, List.sum_cons]
      rw [ih, accumulate_eq, add_assoc]

theorem int4Step_lane {j k : Nat} {s : Nat × Lanes Rat} (hpos : s.1 = 2 * variant.lanes * j)
    (hk : k < variant.lanes) :
    (variant.int4Step codes fVec minVals maxVals s).2 k =
      s.2 k + ∑ b ∈ range 4,
        vectorWeight codes minVals maxVals variant.lanes
            (4 * variant.lanes * j + (variant.lanes * b + k)) *
          memory fVec (4 * variant.lanes * j + (variant.lanes * b + k)) := by
  have hbase : s.1 * 2 = 4 * variant.lanes * j := by
    rw [hpos]
    ring
  have hpaired : ∀ b < 4,
      pairedWith variant.lanes (4 * variant.lanes * j + (variant.lanes * b + k)) =
        s.1 * 2 + pairedInBlock variant.lanes (b * variant.lanes + k) := by
    intro b hb
    have hin : variant.lanes * b + k < 4 * variant.lanes := by
      have := Nat.mul_le_mul_left variant.lanes (Nat.le_of_lt_succ hb)
      omega
    rw [pairedWith, Nat.mul_add_mod, Nat.mod_eq_of_lt hin, Nat.mul_add_div (by omega),
      Nat.div_eq_of_lt hin, Nat.add_zero, hbase, Nat.mul_comm b]
  have hcodes : (List.range 4).map (fun b =>
        (nibble codes (s.1 * 2 + pairedInBlock variant.lanes (b * variant.lanes + k)) : Rat)) =
      (List.range 4).map fun b => (nibble codes
        (pairedWith variant.lanes (4 * variant.lanes * j + (variant.lanes * b + k))) : Rat) :=
    List.map_congr_left fun b hb => by rw [hpaired b (List.mem_range.mp hb)]
  have hoffset : ∀ b, s.1 * 2 + b * variant.lanes + k =
      4 * variant.lanes * j + (variant.lanes * b + k) := by
    intro b
    rw [hbase, Nat.mul_comm b, Nat.add_assoc]
  refine (accumulate_blocks variant fVec minVals maxVals (s.1 * 2) 0 _ s.2 k).trans ?_
  rw [float_qBlocks codes s.1 variant.lanes hk, hcodes, sum_zipIdx_range]
  simp only [hoffset, vectorWeight]

def AfterBlocks (j : Nat) (s : Nat × Lanes Rat) : Prop :=
  s.1 = 2 * variant.lanes * j ∧
    ∀ k < variant.lanes, s.2 k = ∑ t ∈ range j, ∑ b ∈ range 4,
      vectorWeight codes minVals maxVals variant.lanes
          (4 * variant.lanes * t + (variant.lanes * b + k)) *
        memory fVec (4 * variant.lanes * t + (variant.lanes * b + k))

theorem AfterBlocks.step {j : Nat} {s : Nat × Lanes Rat}
    (h : AfterBlocks variant codes fVec minVals maxVals j s) :
    AfterBlocks variant codes fVec minVals maxVals (j + 1)
      (variant.int4Step codes fVec minVals maxVals s) := by
  constructor
  · show s.1 + 2 * variant.lanes = 2 * variant.lanes * (j + 1)
    rw [h.1]
    ring
  · intro k hk
    rw [int4Step_lane variant codes fVec minVals maxVals h.1 hk, h.2 k hk, sum_range_succ _ j]

theorem AfterBlocks.reduceAdd_eq {j : Nat} {s : Nat × Lanes Rat}
    (h : AfterBlocks variant codes fVec minVals maxVals j s) :
    reduceAdd variant.lanes s.2 = ∑ d ∈ range (4 * variant.lanes * j),
      vectorWeight codes minVals maxVals variant.lanes d * memory fVec d := by
  set f : Nat → Rat := fun d =>
    vectorWeight codes minVals maxVals variant.lanes d * memory fVec d with hf
  calc reduceAdd variant.lanes s.2
      = ∑ k ∈ range variant.lanes, ∑ t ∈ range j, ∑ b ∈ range 4,
          f (4 * variant.lanes * t + (variant.lanes * b + k)) :=
        sum_congr rfl fun k hk => h.2 k (mem_range.mp hk)
    _ = ∑ t ∈ range j, ∑ b ∈ range 4, ∑ k ∈ range variant.lanes,
          f (4 * variant.lanes * t + (variant.lanes * b + k)) := by
        rw [sum_comm]
        exact sum_congr rfl fun t _ => sum_comm
    _ = ∑ t ∈ range j, ∑ e ∈ range (variant.lanes * 4), f (4 * variant.lanes * t + e) :=
        sum_congr rfl fun t _ =>
          sum_range_blocks variant.lanes 4 fun e => f (4 * variant.lanes * t + e)
    _ = ∑ d ∈ range (4 * variant.lanes * j), f d := by
        rw [Nat.mul_comm variant.lanes 4]
        exact sum_range_blocks (4 * variant.lanes) j f

end

/-! ## Agreement with the scalar kernel -/

/-- Packed weights: two codes to a byte and a fitted range for each weight. -/
structure Int4Weights where
  dim : Nat
  codes : List UInt8
  minVals : List Rat
  maxVals : List Rat
  codes_length : codes.length = (dim + 1) / 2
  minVals_length : minVals.length = dim
  maxVals_length : maxVals.length = dim

namespace Int4Weights

variable (weights : Int4Weights) (variant : Int4Variant)

def scalarDot (fVec : List Rat) : Rat :=
  dotProductInt4Scalar weights.codes fVec weights.minVals weights.maxVals

def vectorDot (fVec : List Rat) : Rat :=
  variant.dotProduct weights.codes fVec weights.minVals weights.maxVals

def covered : Nat := 4 * variant.lanes * (weights.dim / (4 * variant.lanes))

theorem covered_le : weights.covered variant ≤ weights.dim := Nat.mul_div_le _ _

theorem lanes_pos : 0 < variant.lanes := by cases variant <;> decide

theorem scalarDot_eq {fVec : List Rat} (h : fVec.length = weights.dim) :
    weights.scalarDot fVec = ∑ d ∈ range weights.dim,
      int4Weight weights.codes weights.minVals weights.maxVals d * memory fVec d := by
  have hlen : min fVec.length (2 * weights.codes.length) = weights.dim := by
    rw [h, weights.codes_length]
    omega
  rw [scalarDot, dotProductInt4Scalar_eq, hlen]

theorem afterBlocks_loop {fVec : List Rat} (h : fVec.length = weights.dim) :
    AfterBlocks variant weights.codes fVec weights.minVals weights.maxVals
      (weights.dim / (4 * variant.lanes))
      (whileLoop (variant.int4Guard weights.codes fVec)
        (variant.int4Step weights.codes fVec weights.minVals weights.maxVals)
        weights.codes.length (0, set1 0)) := by
  have hpos := lanes_pos variant
  have hcodes := weights.codes_length
  have hassoc : ∀ n j, n * variant.lanes * j = n * (variant.lanes * j) :=
    fun n j => Nat.mul_assoc n _ j
  have hlast := weights.covered_le variant
  have hbeyond := no_further_block (show 0 < 4 * variant.lanes by omega) weights.dim
  rw [covered, hassoc] at hlast
  rw [hassoc] at hbeyond
  apply whileLoop_rule (AfterBlocks variant weights.codes fVec weights.minVals weights.maxVals)
  · exact ⟨rfl, fun k _ => rfl⟩
  · intro j hj s hs
    have hfits := block_fits hj
    rw [hassoc] at hfits
    refine ⟨?_, hs.step⟩
    simp only [Int4Variant.int4Guard, hs.1, hassoc, Bool.and_eq_true, decide_eq_true_eq]
    omega
  · intro s hs
    simp only [Int4Variant.int4Guard, hs.1, hassoc, Bool.and_eq_false_iff, decide_eq_false_iff_not]
    right
    omega
  · have hle : weights.dim / (4 * variant.lanes) ≤
        variant.lanes * (weights.dim / (4 * variant.lanes)) := Nat.le_mul_of_pos_left _ hpos
    omega

/-- A vector kernel's value: the paired weights in the blocks, the decoded ones behind them. -/
theorem vectorDot_eq {fVec : List Rat} (h : fVec.length = weights.dim) :
    weights.vectorDot variant fVec = ∑ d ∈ range weights.dim,
      (if d < weights.covered variant then
        vectorWeight weights.codes weights.minVals weights.maxVals variant.lanes d
      else int4Weight weights.codes weights.minVals weights.maxVals d) * memory fVec d := by
  have hloop := weights.afterBlocks_loop variant h
  have hend : 2 * variant.lanes * (weights.dim / (4 * variant.lanes)) * 2 =
      weights.covered variant := by
    rw [covered]
    ring
  have hcodes := weights.codes_length
  have htail : min (weights.dim - weights.covered variant)
      (2 * (weights.codes.length - 2 * variant.lanes * (weights.dim / (4 * variant.lanes)))) =
        weights.dim - weights.covered variant := by omega
  simp only [vectorDot, Int4Variant.dotProduct, hloop.reduceAdd_eq, hloop.1,
    dotProductInt4Scalar_eq, memory_drop, List.length_drop, h, hend, htail,
    int4Weight_drop _ _ _ hend]
  rw [← covered]
  refine (sum_range_split (weights.covered_le variant) _ fun d =>
    int4Weight weights.codes weights.minVals weights.maxVals d * memory fVec d).trans ?_
  exact sum_congr rfl fun d _ => (ite_mul _ _ _ _).symm

/-- In the whole blocks the code that an activation meets is worth the code of its position. -/
def Aligned : Prop :=
  ∀ d < weights.covered variant,
    nibble weights.codes (pairedWith variant.lanes d) *
        rangeAt weights.minVals weights.maxVals d =
      nibble weights.codes d * max (rangeAt weights.minVals weights.maxVals d) minRange

theorem vectorDot_aligned_iff :
    (∀ fVec : List Rat, fVec.length = weights.dim →
      weights.vectorDot variant fVec = weights.scalarDot fVec) ↔ weights.Aligned variant := by
  have hsums : (∀ fVec : List Rat, fVec.length = weights.dim →
      weights.vectorDot variant fVec = weights.scalarDot fVec) ↔ _ :=
    (forall_congr' fun fVec => imp_congr_right fun h => by
      rw [weights.vectorDot_eq variant h, weights.scalarDot_eq h]).trans weighted_eq_iff
  rw [hsums]
  constructor
  · intro h d hd
    have hweight := h d (Nat.lt_of_lt_of_le hd (weights.covered_le variant))
    simp only [if_pos hd, vectorWeight, int4Weight] at hweight
    linarith
  · intro h d _
    by_cases hd : d < weights.covered variant
    · have hcode := h d hd
      simp only [if_pos hd, vectorWeight, int4Weight]
      linarith
    · rw [if_neg hd]

/-- A vector kernel computes the scalar kernel's value on all activations exactly when, in the
whole blocks, the code that each activation meets is worth the code of its position. -/
theorem vectorDot_exact_iff :
    (∀ fVec : List Rat, fVec.length = weights.dim →
      variant.dotProduct weights.codes fVec weights.minVals weights.maxVals =
        dotProductInt4Scalar weights.codes fVec weights.minVals weights.maxVals) ↔
      ∀ d < weights.covered variant,
        nibble weights.codes (pairedWith variant.lanes d) *
            rangeAt weights.minVals weights.maxVals d =
          nibble weights.codes d * max (rangeAt weights.minVals weights.maxVals d) minRange :=
  weights.vectorDot_aligned_iff variant

/-- Thirty-two weights with ranges from 0 to 15. The only code that is not zero is the 16th. -/
def sparse : Int4Weights where
  dim := 32
  codes := (List.range 16).map fun i => if i = 8 then 1 else 0
  minVals := List.replicate 32 0
  maxVals := List.replicate 32 15
  codes_length := rfl
  minVals_length := rfl
  maxVals_length := rfl

/-- The code at position 16 does not meet the activation there. -/
theorem vectorDot_mispairs :
    sparse.scalarDot (unitVector 32 16) = 1 ∧
      sparse.vectorDot .avx2Fma (unitVector 32 16) = 0 := by
  decide +kernel

end Int4Weights

end BenShu.Inference
