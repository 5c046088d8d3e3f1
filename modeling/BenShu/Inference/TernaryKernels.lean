import BenShu.Inference.Int4Kernels

/-!
# Dot products with ternary weights

A weight array opens with its scale, half a float in two bytes. Each byte behind it holds four
weights in two bits each: 0 stands for -1, 1 for 0 and 2 for 1. The vector kernels take the first
weights of all bytes of a block, then the second ones, and so on, but load the activations in
their order.
-/

namespace BenShu.Inference

open Simd Lanes Finset

/-! ## Half floats -/

def halfExponent (bits : UInt16) : Nat := ((bits >>> 10) &&& 0x1F).toNat

def HalfFinite (bits : UInt16) : Prop := halfExponent bits ≠ 31

/-- The value of a finite half float. -/
def f16ToF32 (bits : UInt16) : Rat :=
  let sign : Rat := if (bits >>> 15) &&& 1 = 0 then 1 else -1
  let exp := halfExponent bits
  let mant := (bits &&& 0x03FF).toNat
  if exp = 0 then
    if mant = 0 then 0 else sign * mant / 2 ^ 24
  else if exp = 31 then 0
  else sign * (1024 + mant) * 2 ^ exp / 2 ^ 25

def u16FromLeBytes (low high : UInt8) : UInt16 := low.toUInt16 ||| high.toUInt16 <<< 8

/-! ## The scalar kernel -/

def twoBits (byte : UInt8) (j : Nat) : UInt8 := (byte >>> (j * 2).toUInt8) &&& 0x03

def ternaryScale (qData : List UInt8) : Rat :=
  max (f16ToF32 (u16FromLeBytes (memory qData 0) (memory qData 1))) (1 / 10000000)

/-- One code: the next activation and the sum. Codes behind the activations are not read. -/
def ternaryStep (scale : Rat) (fVec : List Rat) (s : Nat × Rat) (code : UInt8) : Nat × Rat :=
  if s.1 < fVec.length then
    (s.1 + 1, s.2 + (((code.toNat : Rat) - 1) * scale) * memory fVec s.1)
  else s

def dotProductTernaryScalar (qData : List UInt8) (fVec : List Rat) : Rat :=
  if qData.length < 2 then 0
  else
    ((qData.drop 2).foldl (fun s byte =>
      ((List.range 4).map (twoBits byte)).foldl (ternaryStep (ternaryScale qData) fVec) s)
      (0, 0)).2

/-! ## The vector kernels -/

inductive TernaryVariant where
  | avx2
  | avx512
  deriving DecidableEq

namespace TernaryVariant

def lanes : TernaryVariant → Nat
  | .avx2 => 8
  | .avx512 => 16

/-- The registers of activations that one pass over the bytes of a block takes. -/
def parts : TernaryVariant → Nat
  | .avx2 => 1
  | .avx512 => 2

def bytes (variant : TernaryVariant) : Nat := variant.lanes * variant.parts

def maskAdd : TernaryVariant → Bool → Rat → Rat → Rat
  | .avx2, mask, acc, v => acc + if mask then v else 0
  | .avx512, mask, acc, v => if mask then acc + v else acc

end TernaryVariant

structure TernaryState where
  i : Nat
  vIdx : Nat
  accPos : Lanes Rat
  accNeg : Lanes Rat

namespace TernaryVariant

variable (variant : TernaryVariant) (mem : Nat → UInt8) (fVec : List Rat)

/-- The codes at one bit offset of a block, for one register of activations. -/
def ternaryPart (bits : Lanes UInt16) (s : TernaryState) (part : Nat) : TernaryState :=
  let maskPos := extract variant.lanes part (bits.map (· == 2))
  let maskNeg := extract variant.lanes part (bits.map (· == 0))
  let v := load (memory fVec) (s.vIdx + variant.lanes * part)
  { s with
    accPos := fun k => variant.maskAdd (maskPos k) (s.accPos k) (v k)
    accNeg := fun k => variant.maskAdd (maskNeg k) (s.accNeg k) (v k) }

def ternaryPass (chunk : Lanes UInt16) (s : TernaryState) (bitOffset : Nat) : TernaryState :=
  let shifted := chunk.map fun word : UInt16 => word >>> bitOffset.toUInt16
  let bits := map₂ (· &&& ·) shifted (set1 0x03)
  let s := (List.range variant.parts).foldl (variant.ternaryPart fVec bits) s
  { s with vIdx := s.vIdx + variant.bytes }

def ternaryBlock (s : TernaryState) : TernaryState :=
  let chunk := (load mem s.i).map UInt8.toUInt16
  let s := [0, 2, 4, 6].foldl (variant.ternaryPass fVec chunk) s
  { s with i := s.i + variant.bytes }

def ternaryGuard (codes : List UInt8) (s : TernaryState) : Bool :=
  s.i + (variant.bytes - 1) < codes.length && s.vIdx + (4 * variant.bytes - 1) < fVec.length

end TernaryVariant

/-- What a load from the codes sees: behind their end the bytes that happen to lie there. -/
def codesInMemory (codes : List UInt8) (behind : Nat → UInt8) (address : Nat) : UInt8 :=
  if address < codes.length then memory codes address else behind address

/-- The rest behind the blocks is handed to the scalar kernel from its first code on. -/
def TernaryVariant.dotProduct (variant : TernaryVariant) (behind : Nat → UInt8)
    (qData : List UInt8) (fVec : List Rat) : Rat :=
  if qData.length < 2 then 0
  else
    let codes := qData.drop 2
    let s := whileLoop (variant.ternaryGuard fVec codes)
      (variant.ternaryBlock (codesInMemory codes behind) fVec) codes.length
      ⟨0, 0, set1 0, set1 0⟩
    (reduceAdd variant.lanes s.accPos - reduceAdd variant.lanes s.accNeg) * ternaryScale qData +
      dotProductTernaryScalar (qData.drop (s.i + 2)) (fVec.drop s.vIdx)

def dotProductTernaryAvx2 := TernaryVariant.avx2.dotProduct

def dotProductTernaryAvx512 := TernaryVariant.avx512.dotProduct

def dotProductTernaryF32 (cpu : CpuFeatures) (behind : Nat → UInt8) :
    List UInt8 → List Rat → Rat :=
  if cpu.avx512vpopcntdq then dotProductTernaryAvx512 behind
  else if getFeatureState cpu ≤ 2 then dotProductTernaryAvx2 behind
  else dotProductTernaryScalar

/-! ## Weights by position -/

def ternaryCode (codes : List UInt8) (d : Nat) : Nat :=
  (twoBits (memory codes (d / 4)) (d % 4)).toNat

theorem ternaryCode_drop (codes : List UInt8) (i d : Nat) :
    ternaryCode (codes.drop i) d = ternaryCode codes (4 * i + d) := by
  have hmod : (4 * i + d) % 4 = d % 4 := by omega
  have hdiv : (4 * i + d) / 4 = i + d / 4 := by omega
  simp only [ternaryCode, memory_drop, hmod, hdiv]

/-- The weight that the scalar kernel decodes, 0 behind the last code. -/
def ternaryWeight (qData : List UInt8) (d : Nat) : Rat :=
  if d < 4 * (qData.length - 2) then
    ((ternaryCode (qData.drop 2) d : Rat) - 1) * ternaryScale qData
  else 0

theorem foldl_ternaryStep (scale : Rat) (fVec : List Rat) (codes : List UInt8) (s : Nat × Rat) :
    (codes.foldl (ternaryStep scale fVec) s).2 =
      s.2 + ∑ d ∈ range (min (fVec.length - s.1) codes.length),
        ((((memory codes d).toNat : Rat) - 1) * scale) * memory fVec (s.1 + d) := by
  induction codes generalizing s with
  | nil => simp
  | cons code codes ih =>
      rw [List.foldl_cons, ih]
      by_cases h : s.1 < fVec.length
      · have hlen : min (fVec.length - s.1) (code :: codes).length =
            min (fVec.length - (s.1 + 1)) codes.length + 1 := by
          simp only [List.length_cons]
          omega
        have hpos : ∀ d, s.1 + 1 + d = s.1 + (d + 1) := by omega
        rw [hlen, sum_range_succ']
        simp only [ternaryStep, if_pos h, memory_cons_succ, memory_cons_zero, hpos, Nat.add_zero]
        ring
      · have hlen : fVec.length - s.1 = 0 := by omega
        rw [ternaryStep, if_neg h, hlen, Nat.zero_min, Nat.zero_min, sum_range_zero, sum_range_zero]

def unpacked (codes : List UInt8) : List UInt8 :=
  codes.flatMap fun byte => (List.range 4).map (twoBits byte)

theorem unpacked_length (codes : List UInt8) : (unpacked codes).length = 4 * codes.length := by
  induction codes with
  | nil => rfl
  | cons byte codes ih =>
      rw [unpacked, List.flatMap_cons, List.length_append, ← unpacked, ih]
      simp only [List.length_map, List.length_range, List.length_cons]
      omega

theorem memory_unpacked (codes : List UInt8) {d : Nat} (h : d < 4 * codes.length) :
    (memory (unpacked codes) d).toNat = ternaryCode codes d := by
  induction codes generalizing d with
  | nil => simp at h
  | cons byte codes ih =>
      rw [unpacked, List.flatMap_cons, memory_append, List.length_map, List.length_range,
        ← unpacked]
      by_cases hd : d < 4
      · rw [if_pos hd, memory_map_range _ hd, ternaryCode, Nat.div_eq_of_lt hd,
          Nat.mod_eq_of_lt hd, memory_cons_zero]
      · rw [List.length_cons] at h
        have hrest := ternaryCode_drop (byte :: codes) 1 (d - 4)
        rw [if_neg hd, ih (by omega)]
        rwa [show 4 * 1 + (d - 4) = d by omega] at hrest

theorem dotProductTernaryScalar_eq (qData : List UInt8) (fVec : List Rat) :
    dotProductTernaryScalar qData fVec =
      ∑ d ∈ range fVec.length, ternaryWeight qData d * memory fVec d := by
  by_cases hshort : qData.length < 2
  · have hnone : ∀ d, ternaryWeight qData d = 0 := by
      intro d
      rw [ternaryWeight, if_neg (by omega)]
    simp [dotProductTernaryScalar, hshort, hnone]
  · have hlen : 4 * (qData.drop 2).length = 4 * (qData.length - 2) := by rw [List.length_drop]
    have hloop := foldl_ternaryStep (ternaryScale qData) fVec (unpacked (qData.drop 2)) (0, 0)
    rw [unpacked, List.foldl_flatMap, ← unpacked, unpacked_length, hlen, zero_add,
      Nat.sub_zero] at hloop
    rw [dotProductTernaryScalar, if_neg hshort, hloop]
    have hextend : ∑ d ∈ range fVec.length, ternaryWeight qData d * memory fVec d =
        ∑ d ∈ range (min fVec.length (4 * (qData.length - 2))),
          ternaryWeight qData d * memory fVec d := by
      symm
      apply sum_subset (range_subset_range.mpr (min_le_left _ _))
      intro d hd hnot
      have hout : ¬d < 4 * (qData.length - 2) := by
        simp only [mem_range] at hd hnot
        omega
      rw [ternaryWeight, if_neg hout, zero_mul]
    rw [hextend]
    refine sum_congr rfl fun d hd => ?_
    have hin : d < 4 * (qData.length - 2) := by
      have := mem_range.mp hd
      omega
    rw [memory_unpacked _ (hlen ▸ hin), ternaryWeight, if_pos hin, Nat.zero_add]

/-! ## What the vector kernels add -/

def signOf (code : Nat) : Rat := if code = 2 then 1 else if code = 0 then -1 else 0

theorem ternaryCode_at (codes : List UInt8) (address : Nat) {p : Nat} (h : p < 4) :
    ternaryCode codes (4 * address + p) = (twoBits (memory codes address) p).toNat := by
  have hmod : (4 * address + p) % 4 = p := by omega
  have hdiv : (4 * address + p) / 4 = address := by omega
  rw [ternaryCode, hmod, hdiv]

theorem widened_code (byte : UInt8) {p : Nat} (h : p < 4) :
    (byte.toUInt16 >>> (p * 2).toUInt16 &&& 0x03).toNat = (twoBits byte p).toNat := by
  have hall : ∀ x : BitVec 8,
      (x.setWidth 16 >>> 0#16 &&& 3#16).toNat = (x >>> 0#8 &&& 3#8).toNat ∧
      (x.setWidth 16 >>> 2#16 &&& 3#16).toNat = (x >>> 2#8 &&& 3#8).toNat ∧
      (x.setWidth 16 >>> 4#16 &&& 3#16).toNat = (x >>> 4#8 &&& 3#8).toNat ∧
      (x.setWidth 16 >>> 6#16 &&& 3#16).toNat = (x >>> 6#8 &&& 3#8).toNat := by
    decide +kernel
  obtain ⟨h0, h1, h2, h3⟩ := hall byte.toBitVec
  obtain rfl | rfl | rfl | rfl : p = 0 ∨ p = 1 ∨ p = 2 ∨ p = 3 := by omega
  · exact h0
  · exact h1
  · exact h2
  · exact h3

namespace TernaryState

def net (s : TernaryState) (k : Nat) : Rat := s.accPos k - s.accNeg k

end TernaryState

namespace TernaryVariant

variable (variant : TernaryVariant) (fVec : List Rat)

theorem maskAdd_eq (mask : Bool) (acc v : Rat) :
    variant.maskAdd mask acc v = acc + if mask then v else 0 := by
  cases variant <;> cases mask <;> simp [maskAdd]

theorem net_ternaryPart (bits : Lanes UInt16) (s : TernaryState) (part k : Nat) :
    (variant.ternaryPart fVec bits s part).net k =
      s.net k + signOf (bits (variant.lanes * part + k)).toNat *
        memory fVec (s.vIdx + (variant.lanes * part + k)) := by
  have htwo : bits (variant.lanes * part + k) = 2 ↔
      (bits (variant.lanes * part + k)).toNat = 2 := UInt16.toNat_inj.symm
  have hzero : bits (variant.lanes * part + k) = 0 ↔
      (bits (variant.lanes * part + k)).toNat = 0 := UInt16.toNat_inj.symm
  simp only [TernaryState.net, ternaryPart, maskAdd_eq, extract, Lanes.map, load, beq_iff_eq, htwo,
    hzero, signOf, Nat.add_assoc]
  by_cases h2 : (bits (variant.lanes * part + k)).toNat = 2
  · simp [h2]
    ring
  · by_cases h0 : (bits (variant.lanes * part + k)).toNat = 0
    · simp [h0]
      ring
    · simp [h2, h0]

theorem foldl_ternaryPart (bits : Lanes UInt16) (s : TernaryState) (n : Nat) :
    let s' := (List.range n).foldl (variant.ternaryPart fVec bits) s
    s'.i = s.i ∧ s'.vIdx = s.vIdx ∧
      ∀ k, s'.net k = s.net k + ∑ part ∈ range n,
        signOf (bits (variant.lanes * part + k)).toNat *
          memory fVec (s.vIdx + (variant.lanes * part + k)) := by
  induction n with
  | zero => simp
  | succ n ih =>
      obtain ⟨hi, hv, hnet⟩ := ih
      rw [List.range_succ, List.foldl_append]
      refine ⟨hi, hv, fun k => ?_⟩
      rw [List.foldl_cons, List.foldl_nil, net_ternaryPart, hnet, hv, sum_range_succ, add_assoc]

theorem foldl_ternaryPass (chunk : Lanes UInt16) (s : TernaryState) (n : Nat) :
    let s' := ((List.range n).map (· * 2)).foldl (variant.ternaryPass fVec chunk) s
    s'.i = s.i ∧ s'.vIdx = s.vIdx + variant.bytes * n ∧
      ∀ k, s'.net k = s.net k + ∑ p ∈ range n, ∑ part ∈ range variant.parts,
        signOf (chunk (variant.lanes * part + k) >>> (p * 2).toUInt16 &&& 0x03).toNat *
          memory fVec (s.vIdx + (variant.bytes * p + (variant.lanes * part + k))) := by
  induction n with
  | zero => simp
  | succ n ih =>
      obtain ⟨hi, hv, hnet⟩ := ih
      rw [List.range_succ, List.map_append, List.foldl_append, List.map_cons, List.map_nil,
        List.foldl_cons, List.foldl_nil]
      set before := ((List.range n).map (· * 2)).foldl (variant.ternaryPass fVec chunk) s
      obtain ⟨hi', hv', hnet'⟩ := variant.foldl_ternaryPart fVec
        (map₂ (· &&& ·) (chunk.map fun word : UInt16 => word >>> (n * 2).toUInt16) (set1 0x03))
        before variant.parts
      refine ⟨hi'.trans hi, ?_, fun k => ?_⟩
      · show TernaryState.vIdx _ + variant.bytes = _
        rw [hv', hv, Nat.mul_succ, Nat.add_assoc]
      · refine (hnet' k).trans ?_
        rw [hnet, hv, sum_range_succ, add_assoc]
        simp only [Nat.add_assoc]
        rfl

def pairedWith (d : Nat) : Nat :=
  4 * (variant.bytes * (d / (4 * variant.bytes)) + d % variant.bytes) +
    d % (4 * variant.bytes) / variant.bytes

theorem pairedWith_at {t p e : Nat} (hp : p < 4) (he : e < variant.bytes) :
    variant.pairedWith (4 * variant.bytes * t + (variant.bytes * p + e)) =
      4 * (variant.bytes * t + e) + p := by
  have hin : variant.bytes * p + e < 4 * variant.bytes := by
    have := Nat.mul_le_mul_left variant.bytes (Nat.le_of_lt_succ hp)
    omega
  have hdiv : (4 * variant.bytes * t + (variant.bytes * p + e)) / (4 * variant.bytes) = t := by
    rw [Nat.mul_add_div (by omega), Nat.div_eq_of_lt hin, Nat.add_zero]
  have hmod : (4 * variant.bytes * t + (variant.bytes * p + e)) % (4 * variant.bytes) =
      variant.bytes * p + e := by
    rw [Nat.mul_add_mod, Nat.mod_eq_of_lt hin]
  have hbyte : (4 * variant.bytes * t + (variant.bytes * p + e)) % variant.bytes = e := by
    rw [show 4 * variant.bytes * t + (variant.bytes * p + e) =
      variant.bytes * (4 * t + p) + e by ring, Nat.mul_add_mod, Nat.mod_eq_of_lt he]
  rw [pairedWith, hdiv, hmod, hbyte, Nat.mul_add_div (by omega), Nat.div_eq_of_lt he, Nat.add_zero]

section

variable (codes : List UInt8) (behind : Nat → UInt8)

def vectorTerm (d : Nat) : Rat :=
  signOf (ternaryCode codes (variant.pairedWith d)) * memory fVec d

def AfterBlocks (j : Nat) (s : TernaryState) : Prop :=
  s.i = variant.bytes * j ∧ s.vIdx = 4 * variant.bytes * j ∧
    ∀ k < variant.lanes, s.net k = ∑ t ∈ range j, ∑ p ∈ range 4, ∑ part ∈ range variant.parts,
      variant.vectorTerm fVec codes
        (4 * variant.bytes * t + (variant.bytes * p + (variant.lanes * part + k)))

theorem AfterBlocks.step {j : Nat} {s : TernaryState}
    (h : variant.AfterBlocks fVec codes j s) (hin : variant.bytes * (j + 1) ≤ codes.length) :
    variant.AfterBlocks fVec codes (j + 1)
      (variant.ternaryBlock (codesInMemory codes behind) fVec s) := by
  obtain ⟨hpos, hv, hnet⟩ := h
  obtain ⟨hi', hv', hnet'⟩ := variant.foldl_ternaryPass fVec
    ((load (codesInMemory codes behind) s.i).map UInt8.toUInt16) s 4
  refine ⟨?_, ?_, fun k hk => ?_⟩
  · show TernaryState.i _ + variant.bytes = _
    exact (congrArg (· + variant.bytes) (hi'.trans hpos)).trans (Nat.mul_succ _ _).symm
  · refine hv'.trans ?_
    rw [hv]
    ring
  · refine (hnet' k).trans ?_
    rw [hnet k hk, sum_range_succ _ j]
    congr 1
    refine sum_congr rfl fun p hp => sum_congr rfl fun part hpart => ?_
    have he : variant.lanes * part + k < variant.bytes := by
      have := Nat.mul_le_mul_left variant.lanes (Nat.succ_le_of_lt (mem_range.mp hpart))
      rw [Nat.mul_succ] at this
      exact Nat.lt_of_lt_of_le (by omega) this
    have hread : codesInMemory codes behind (s.i + (variant.lanes * part + k)) =
        memory codes (variant.bytes * j + (variant.lanes * part + k)) := by
      rw [codesInMemory, hpos, if_pos]
      rw [Nat.mul_succ] at hin
      omega
    have hcode : (Lanes.map UInt8.toUInt16 (load (codesInMemory codes behind) s.i)
        (variant.lanes * part + k) >>> (p * 2).toUInt16 &&& 0x03).toNat =
          ternaryCode codes (4 * (variant.bytes * j + (variant.lanes * part + k)) + p) := by
      rw [ternaryCode_at _ _ (mem_range.mp hp), ← hread]
      exact widened_code _ (mem_range.mp hp)
    rw [hcode, vectorTerm, variant.pairedWith_at (mem_range.mp hp) he, hv]

theorem AfterBlocks.reduceAdd_eq {j : Nat} {s : TernaryState}
    (h : variant.AfterBlocks fVec codes j s) :
    reduceAdd variant.lanes s.accPos - reduceAdd variant.lanes s.accNeg =
      ∑ d ∈ range (4 * variant.bytes * j), variant.vectorTerm fVec codes d := by
  set f := variant.vectorTerm fVec codes
  calc reduceAdd variant.lanes s.accPos - reduceAdd variant.lanes s.accNeg
      = ∑ k ∈ range variant.lanes, ∑ t ∈ range j, ∑ p ∈ range 4, ∑ part ∈ range variant.parts,
          f (4 * variant.bytes * t + (variant.bytes * p + (variant.lanes * part + k))) := by
        rw [reduceAdd, reduceAdd, ← sum_sub_distrib]
        exact sum_congr rfl fun k hk => h.2.2 k (mem_range.mp hk)
    _ = ∑ t ∈ range j, ∑ p ∈ range 4, ∑ part ∈ range variant.parts, ∑ k ∈ range variant.lanes,
          f (4 * variant.bytes * t + (variant.bytes * p + (variant.lanes * part + k))) := by
        rw [sum_comm]
        refine sum_congr rfl fun t _ => ?_
        rw [sum_comm]
        exact sum_congr rfl fun p _ => sum_comm
    _ = ∑ t ∈ range j, ∑ p ∈ range 4, ∑ e ∈ range variant.bytes,
          f (4 * variant.bytes * t + (variant.bytes * p + e)) :=
        sum_congr rfl fun t _ => sum_congr rfl fun p _ =>
          sum_range_blocks variant.lanes variant.parts fun e =>
            f (4 * variant.bytes * t + (variant.bytes * p + e))
    _ = ∑ t ∈ range j, ∑ e ∈ range (4 * variant.bytes), f (4 * variant.bytes * t + e) := by
        rw [Nat.mul_comm 4 variant.bytes]
        exact sum_congr rfl fun t _ => sum_range_blocks variant.bytes 4 fun e =>
          f (variant.bytes * 4 * t + e)
    _ = ∑ d ∈ range (4 * variant.bytes * j), f d :=
        sum_range_blocks (4 * variant.bytes) j f

end

end TernaryVariant

/-! ## Agreement with the scalar kernel -/

/-- A packed weight array: a finite scale in two bytes and four ternary codes to a byte. -/
structure TernaryWeights where
  dim : Nat
  scaleLow : UInt8
  scaleHigh : UInt8
  codes : List UInt8
  finite : HalfFinite (u16FromLeBytes scaleLow scaleHigh)
  codes_length : codes.length = (dim + 3) / 4
  ternary : ∀ byte ∈ codes, ∀ j < 4, (twoBits byte j).toNat ≤ 2

namespace TernaryWeights

variable (weights : TernaryWeights) (variant : TernaryVariant) (behind : Nat → UInt8)

def qData : List UInt8 := weights.scaleLow :: weights.scaleHigh :: weights.codes

def covered : Nat := 4 * variant.bytes * (weights.dim / (4 * variant.bytes))

def remaining : List UInt8 :=
  weights.codes.drop (variant.bytes * (weights.dim / (4 * variant.bytes)))

theorem covered_le : weights.covered variant ≤ weights.dim := Nat.mul_div_le _ _

theorem bytes_pos : 0 < variant.bytes := by cases variant <;> decide

theorem code_le (d : Nat) : ternaryCode weights.codes d ≤ 2 := by
  rw [ternaryCode]
  by_cases h : d / 4 < weights.codes.length
  · have hmem : memory weights.codes (d / 4) ∈ weights.codes := by
      rw [memory, List.getD_eq_getElem _ _ h]
      exact List.getElem_mem h
    exact weights.ternary _ hmem _ (Nat.mod_lt _ (by omega))
  · rw [memory_of_le (by omega)]
    have hzero : ∀ j < 4, (twoBits default j).toNat ≤ 2 := by decide
    exact hzero _ (Nat.mod_lt _ (by omega))

theorem signOf_eq {code : Nat} (h : code ≤ 2) : signOf code = (code : Rat) - 1 := by
  obtain rfl | rfl | rfl : code = 0 ∨ code = 1 ∨ code = 2 := by omega
  all_goals norm_num [signOf]

theorem weight_eq {d : Nat} (h : d < weights.dim) :
    ternaryWeight weights.qData d =
      ((ternaryCode weights.codes d : Rat) - 1) * ternaryScale weights.qData := by
  have hlen : weights.qData.length - 2 = weights.codes.length := rfl
  have hin : d < 4 * (weights.qData.length - 2) := by
    rw [hlen, weights.codes_length]
    omega
  rw [ternaryWeight, if_pos hin]
  rfl

theorem scale_pos (qData : List UInt8) : 0 < ternaryScale qData :=
  lt_of_lt_of_le (by norm_num) (le_max_right _ _)

theorem afterBlocks_loop {fVec : List Rat} (h : fVec.length = weights.dim) :
    variant.AfterBlocks fVec weights.codes (weights.dim / (4 * variant.bytes))
      (whileLoop (variant.ternaryGuard fVec weights.codes)
        (variant.ternaryBlock (codesInMemory weights.codes behind) fVec) weights.codes.length
        ⟨0, 0, set1 0, set1 0⟩) := by
  have hpos := bytes_pos variant
  have hcodes := weights.codes_length
  have hassoc : ∀ j, 4 * variant.bytes * j = 4 * (variant.bytes * j) := Nat.mul_assoc 4 _
  have hlast := weights.covered_le variant
  have hbeyond := no_further_block (show 0 < 4 * variant.bytes by omega) weights.dim
  rw [covered, hassoc] at hlast
  rw [hassoc] at hbeyond
  apply whileLoop_rule (variant.AfterBlocks fVec weights.codes)
  · exact ⟨rfl, rfl, fun k _ => sub_self 0⟩
  · intro j hj s hs
    have hfits := block_fits hj
    rw [hassoc] at hfits
    refine ⟨?_, TernaryVariant.AfterBlocks.step variant fVec _ behind hs ?_⟩
    · simp only [TernaryVariant.ternaryGuard, hs.1, hs.2.1, hassoc, Bool.and_eq_true,
        decide_eq_true_eq]
      omega
    · rw [Nat.mul_succ]
      omega
  · intro s hs
    simp only [TernaryVariant.ternaryGuard, hs.1, hs.2.1, hassoc, Bool.and_eq_false_iff,
      decide_eq_false_iff_not]
    right
    omega
  · have hle : weights.dim / (4 * variant.bytes) ≤
        variant.bytes * (weights.dim / (4 * variant.bytes)) := Nat.le_mul_of_pos_left _ hpos
    omega

/-- The weights of a vector kernel: shuffled ones in the blocks, those of the rest read as an
array of its own behind them. -/
theorem vectorDot_eq {fVec : List Rat} (h : fVec.length = weights.dim) :
    variant.dotProduct behind weights.qData fVec = ∑ d ∈ range weights.dim,
      (if d < weights.covered variant then
        signOf (ternaryCode weights.codes (variant.pairedWith d)) * ternaryScale weights.qData
      else ternaryWeight (weights.remaining variant) (d - weights.covered variant)) *
        memory fVec d := by
  have hloop := weights.afterBlocks_loop variant behind h
  have hlong : ¬weights.qData.length < 2 := by simp [qData]
  have htail : ∀ i, weights.qData.drop (i + 2) = weights.codes.drop i := fun i => rfl
  rw [TernaryVariant.dotProduct, if_neg hlong]
  simp only [show weights.qData.drop 2 = weights.codes from rfl,
    TernaryVariant.AfterBlocks.reduceAdd_eq variant fVec _ hloop, hloop.1, hloop.2.1, htail,
    dotProductTernaryScalar_eq, List.length_drop, memory_drop, h, sum_mul]
  rw [← covered, ← remaining]
  have hsplit := sum_range_split (weights.covered_le variant)
    (fun d => variant.vectorTerm fVec weights.codes d * ternaryScale weights.qData) fun d =>
      ternaryWeight (weights.remaining variant) (d - weights.covered variant) * memory fVec d
  simp only [Nat.add_sub_cancel_left] at hsplit
  rw [hsplit]
  refine sum_congr rfl fun d _ => ?_
  rw [ite_mul, TernaryVariant.vectorTerm, mul_right_comm]

/-- The whole blocks hold the same codes after the shuffle, and the bytes behind them, with their
first two read as a scale, hold the weights that stand there. -/
def Aligned : Prop :=
  (∀ d < weights.covered variant,
    ternaryCode weights.codes (variant.pairedWith d) = ternaryCode weights.codes d) ∧
  ∀ d, weights.covered variant ≤ d → d < weights.dim →
    ternaryWeight (weights.remaining variant) (d - weights.covered variant) =
      ternaryWeight weights.qData d

theorem vectorDot_aligned_iff :
    (∀ fVec : List Rat, fVec.length = weights.dim →
      variant.dotProduct behind weights.qData fVec =
        dotProductTernaryScalar weights.qData fVec) ↔ weights.Aligned variant := by
  have hsums : (∀ fVec : List Rat, fVec.length = weights.dim →
      variant.dotProduct behind weights.qData fVec =
        dotProductTernaryScalar weights.qData fVec) ↔ _ :=
    (forall_congr' fun fVec => imp_congr_right fun h => by
      rw [weights.vectorDot_eq variant behind h, dotProductTernaryScalar_eq, h]).trans
      weighted_eq_iff
  have hblock : ∀ d < weights.dim, signOf (ternaryCode weights.codes (variant.pairedWith d)) *
        ternaryScale weights.qData = ternaryWeight weights.qData d ↔
      ternaryCode weights.codes (variant.pairedWith d) = ternaryCode weights.codes d := by
    intro d hd
    rw [weights.weight_eq hd, signOf_eq (weights.code_le _),
      mul_left_inj' (scale_pos weights.qData).ne', sub_left_inj, Nat.cast_inj]
  rw [hsums]
  constructor
  · intro h
    refine ⟨fun d hd => ?_, fun d hge hd => ?_⟩
    · have hin := Nat.lt_of_lt_of_le hd (weights.covered_le variant)
      have hweight := h d hin
      rw [if_pos hd] at hweight
      exact (hblock d hin).mp hweight
    · have hweight := h d hd
      rwa [if_neg (by omega)] at hweight
  · rintro ⟨hcodes, htail⟩ d hd
    by_cases hin : d < weights.covered variant
    · rw [if_pos hin]
      exact (hblock d hd).mpr (hcodes d hin)
    · rw [if_neg hin]
      exact htail d (by omega) hd

/-- A vector kernel computes the scalar kernel's value on all activations exactly when its blocks
and the rest behind them are aligned. -/
theorem ternaryDot_exact_iff :
    (∀ fVec : List Rat, fVec.length = weights.dim →
      variant.dotProduct behind weights.qData fVec =
        dotProductTernaryScalar weights.qData fVec) ↔
      (∀ d < weights.covered variant,
        ternaryCode weights.codes (variant.pairedWith d) = ternaryCode weights.codes d) ∧
      ∀ d, weights.covered variant ≤ d → d < weights.dim →
        ternaryWeight (weights.remaining variant) (d - weights.covered variant) =
          ternaryWeight weights.qData d :=
  weights.vectorDot_aligned_iff variant behind

/-- Thirty-two weights with the scale 1. All are 0 but the second, which is 1. -/
def sparse : TernaryWeights where
  dim := 32
  scaleLow := 0x00
  scaleHigh := 0x3C
  codes := 0x59 :: List.replicate 7 0x55
  finite := show halfExponent _ ≠ 31 by decide
  codes_length := rfl
  ternary := by decide +kernel

/-- The second activation meets the second byte's first code. -/
theorem ternaryDot_mispairs :
    dotProductTernaryScalar sparse.qData (unitVector 32 1) = 1 ∧
      dotProductTernaryAvx2 (fun _ => 0) sparse.qData (unitVector 32 1) = 0 := by
  decide +kernel

end TernaryWeights

end BenShu.Inference
