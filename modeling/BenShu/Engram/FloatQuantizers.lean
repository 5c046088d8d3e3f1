import BenShu.Engram.VectorStore
import BenShu.Lib.CheckedReads

/-!
# Quantizers over floats

The scalar and the ternary quantizer with every index they read. A read past the end of a
slice or a table is a panic. The values are computed by float operations that are parameters.
-/

namespace BenShu.Engram

open CheckedReads

/-- Single floats. `literal m e` is `m` divided by ten to the `e`. -/
structure FloatArithmetic where
  F : Type
  literal : Nat → Nat → F
  infinity : F
  negInfinity : F
  nan : F
  neg : F → F
  add : F → F → F
  sub : F → F → F
  mul : F → F → F
  div : F → F → F
  max : F → F → F
  lt : F → F → Bool
  abs : F → F
  round : F → F
  acosh : F → F
  mulAdd : F → F → F → F
  reduceAdd : List F → F
  powi : F → Int → F
  toU8 : F → UInt8
  toI8 : F → Int8
  ofI8 : Int8 → F
  toBits : F → UInt32
  ofBits : UInt32 → F

namespace FloatArithmetic

variable (ar : FloatArithmetic)

instance : Add ar.F := ⟨ar.add⟩
instance : Sub ar.F := ⟨ar.sub⟩
instance : Mul ar.F := ⟨ar.mul⟩
instance : Div ar.F := ⟨ar.div⟩
instance : Neg ar.F := ⟨ar.neg⟩

def zero : ar.F := ar.literal 0 0

def one : ar.F := ar.literal 1 0

def clamp (x low high : ar.F) : ar.F :=
  if ar.lt x low then low else if ar.lt high x then high else x

def toLeBytes (x : ar.F) : List UInt8 :=
  let bits := ar.toBits x
  [bits.toUInt8, (bits >>> 8).toUInt8, (bits >>> 16).toUInt8, (bits >>> 24).toUInt8]

def ofLeBytes (bytes : List UInt8) : ar.F :=
  ar.ofBits (bytes.reverse.foldl (fun bits byte => bits <<< 8 ||| byte.toUInt32) 0)

def f16ToF32Bits (val : ar.F) : UInt16 :=
  let bits := ar.toBits val
  let sign := (bits >>> 31) &&& 1
  let exp := ((bits >>> 23) &&& 0xFF).toNat
  let mant := bits &&& 0x7FFFFF
  let resExp : Int := exp - 127 + 15
  let (resExp, resMant) : Int × UInt32 :=
    if resExp ≤ 0 then (0, 0) else if 31 ≤ resExp then (31, 0) else (resExp, mant >>> 13)
  ((sign <<< 15) ||| (UInt32.ofNat resExp.toNat <<< 10) ||| resMant).toUInt16

def f16ToF32 (bits : UInt16) : ar.F :=
  let sign := if (bits >>> 15) &&& 1 = 0 then ar.one else -ar.one
  let exp := ((bits >>> 10) &&& 0x1F).toNat
  let mant := bits &&& 0x03FF
  let two := ar.literal 2 0
  if exp = 0 then
    if mant = 0 then if (bits >>> 15) &&& 1 = 0 then ar.zero else -ar.zero
    else sign * ar.literal mant.toNat 0 * ar.powi two (-24)
  else if exp = 0x1F then if mant = 0 then ar.infinity else ar.nan
  else sign * ar.literal (0x400 ||| mant).toNat 0 * ar.powi two (exp - 15 - 10)

end FloatArithmetic

/-! ## The scalar quantizer -/

structure ScalarQuantizer (ar : FloatArithmetic) where
  level : QuantLevel
  dim : Nat
  minVals : List ar.F
  maxVals : List ar.F

namespace ScalarQuantizer

variable {ar : FloatArithmetic}

/-- The bounds with those of a component widened to a value. -/
def widen (bounds : List ar.F × List ar.F) (component : ar.F × Nat) :
    Option (List ar.F × List ar.F) := do
  let (val, d) := component
  let low ← bounds.1[d]?
  let minVals := if ar.lt val low then bounds.1.set d val else bounds.1
  let high ← bounds.2[d]?
  some (minVals, if ar.lt high val then bounds.2.set d val else bounds.2)

def stabilize (low high : ar.F) : ar.F :=
  if ar.lt (ar.abs (high - low)) (ar.literal 1 6) then low + ar.one else high

/-- Training asserts that there is a vector; the first one gives the dimension. -/
def train (vectors : List (List ar.F)) (level : QuantLevel) : Option (ScalarQuantizer ar) := do
  let first ← vectors.head?
  let dim := first.length
  let bounds := (List.replicate dim ar.infinity, List.replicate dim ar.negInfinity)
  let (minVals, maxVals) ← vectors.foldlM (fun bounds v => v.zipIdx.foldlM widen bounds) bounds
  some { level, dim, minVals, maxVals := List.zipWith stabilize minVals maxVals }

variable (q : ScalarQuantizer ar)

def warmCode (component : ar.F × Nat) : Option UInt8 := do
  let (val, d) := component
  let high ← q.maxVals[d]?
  let low ← q.minVals[d]?
  let range := high - low
  let normalized := ar.clamp ((val - low) / range) ar.zero ar.one
  some (ar.toU8 (ar.round (normalized * ar.literal 255 0)))

/-- The cold code of the `d`-th component. -/
def coldCode (vector : List ar.F) (d : Nat) : Option UInt8 := do
  let v ← vector[d]?
  let high ← q.maxVals[d]?
  let low ← q.minVals[d]?
  let r := ar.max (high - low) (ar.literal 1 6)
  let n := ar.clamp ((v - low) / r) ar.zero ar.one
  some (ar.toU8 (ar.round (n * ar.literal 15 0)))

/-- The cold codes of the components `2 * i` and `2 * i + 1`. -/
def coldByte (vector : List ar.F) (i : Nat) : Option UInt8 := do
  let d := 2 * i
  let q1 ← q.coldCode vector d
  let q2 ← if d + 1 < q.dim then q.coldCode vector (d + 1) else some 0
  some ((q2 <<< 4) ||| q1)

def encode (vector : List ar.F) : Option (List UInt8) :=
  match q.level with
  | .full => some (vector.flatMap ar.toLeBytes)
  | .warm => vector.zipIdx.mapM q.warmCode
  | .cold => (List.range ((q.dim + 1) / 2)).mapM (q.coldByte vector)
  | .background => none

def value (steps : Nat) (code : UInt8) (d : Nat) : Option ar.F := do
  let high ← q.maxVals[d]?
  let low ← q.minVals[d]?
  let range := high - low
  some (ar.literal code.toNat 0 / ar.literal steps 0 * range + low)

def coldValues (byte : UInt8 × Nat) : Option (List ar.F) := do
  let q1 := byte.1 &&& 0x0F
  let q2 := (byte.1 >>> 4) &&& 0x0F
  let d1 := byte.2 * 2
  let first ← q.value 15 q1 d1
  let d2 := d1 + 1
  if d2 < q.dim then do
    let second ← q.value 15 q2 d2
    some [first, second]
  else some [first]

def fullValue (codes : List UInt8) (i : Nat) : Option ar.F :=
  (slice codes (4 * i) 4).map ar.ofLeBytes

def decode (codes : List UInt8) : Option (List ar.F) :=
  match q.level with
  | .full => (List.range ((codes.length + 3) / 4)).mapM (fullValue codes)
  | .warm => codes.zipIdx.mapM fun code => q.value 255 code.1 code.2
  | .cold => (codes.zipIdx.mapM q.coldValues).map List.flatten
  | .background => none

end ScalarQuantizer

/-- A quantizer with a range for every dimension. -/
structure FittedQuantizer (ar : FloatArithmetic) extends ScalarQuantizer ar where
  minLength : minVals.length = dim
  maxLength : maxVals.length = dim

/-! ## The ternary quantizer -/

structure TernaryQuantizer where
  dim : Nat

namespace TernaryQuantizer

variable (q : TernaryQuantizer) (ar : FloatArithmetic)

def scaleOf (vector : List ar.F) : ar.F :=
  vector.foldl (fun sum v => sum + ar.abs v) ar.zero / ar.literal q.dim 0

/-- The code of component `i + j` goes to the `j`-th two bits. -/
def putBits (scale : ar.F) (vector : List ar.F) (i : Nat) (byte : UInt8) (j : Nat) :
    Option UInt8 :=
  if i + j < q.dim then do
    let val ← vector[i + j]?
    let level : Int8 := if ar.lt ar.zero scale then
      ar.toI8 (ar.clamp (ar.round (val / scale)) (-ar.one) ar.one) else 0
    let bits := (level + 1).toUInt8
    some (byte ||| (bits <<< (j * 2).toUInt8))
  else some byte

def encodeByte (scale : ar.F) (vector : List ar.F) (i : Nat) : Option UInt8 :=
  (List.range 4).foldlM (q.putBits ar scale vector (4 * i)) 0

def encode (vector : List ar.F) : Option (List UInt8) := do
  let scale := q.scaleOf ar vector
  let scaleBits := ar.f16ToF32Bits scale
  let bytes ← (List.range ((q.dim + 3) / 4)).mapM (q.encodeByte ar scale vector)
  some ([scaleBits.toUInt8, (scaleBits >>> 8).toUInt8] ++ bytes)

/-- The components of a code, four a byte. -/
def pushValue (scale : ar.F) (vector : List ar.F) (code : UInt8 × Nat) : List ar.F :=
  let (byte, j) := code
  if vector.length < q.dim then
    let bits := (byte >>> (j * 2).toUInt8) &&& 0x03
    vector ++ [ar.ofI8 (bits.toInt8 - 1) * scale]
  else vector

def decode (codes : List UInt8) : List ar.F :=
  match codes with
  | low :: high :: bytes =>
      let scale := ar.f16ToF32 (low.toUInt16 ||| high.toUInt16 <<< 8)
      (bytes.flatMap fun byte => (List.range 4).map fun j => (byte, j)).foldl
        (q.pushValue ar scale) []
  | _ => List.replicate q.dim ar.zero

end TernaryQuantizer

/-! ## What training gives -/

namespace ScalarQuantizer

variable {ar : FloatArithmetic}

theorem widen_succeeds {dim : Nat} {bounds : List ar.F × List ar.F} {component : ar.F × Nat}
    (hlow : bounds.1.length = dim) (hhigh : bounds.2.length = dim) (hd : component.2 < dim) :
    ∃ widened, widen bounds component = some widened ∧ widened.1.length = dim ∧
      widened.2.length = dim := by
  obtain ⟨low, hlowAt⟩ : ∃ low, bounds.1[component.2]? = some low :=
    ⟨_, List.getElem?_eq_getElem (hlow ▸ hd)⟩
  obtain ⟨high, hhighAt⟩ : ∃ high, bounds.2[component.2]? = some high :=
    ⟨_, List.getElem?_eq_getElem (hhigh ▸ hd)⟩
  refine ⟨_, by simp only [widen, hlowAt, hhighAt]; rfl, ?_, ?_⟩
  · dsimp only
    split <;> simp [hlow]
  · dsimp only
    split <;> simp [hhigh]

theorem train_singleton (vector : List ar.F) (level : QuantLevel) :
    ∃ q, train [vector] level = some q ∧ q.level = level ∧ q.dim = vector.length ∧
      q.minVals.length = q.dim ∧ q.maxVals.length = q.dim := by
  let start := (List.replicate vector.length ar.infinity,
    List.replicate vector.length ar.negInfinity)
  let Sized (bounds : List ar.F × List ar.F) : Prop :=
    bounds.1.length = vector.length ∧ bounds.2.length = vector.length
  have hstep : ∀ bounds, ∀ component ∈ vector.zipIdx, Sized bounds →
      ∃ widened, widen bounds component = some widened ∧ Sized widened := by
    intro bounds component hcomponent hsized
    have hd : component.2 < vector.length := by
      simpa using (List.mem_zipIdx hcomponent).2.1
    exact widen_succeeds hsized.1 hsized.2 hd
  have hstart : Sized start := by simp [Sized, start]
  obtain ⟨bounds, hbounds, hlow, hhigh⟩ := foldlM_succeeds hstep hstart
  let maxVals := List.zipWith stabilize bounds.1 bounds.2
  refine ⟨⟨level, vector.length, bounds.1, maxVals⟩, ?_, rfl, rfl, hlow, ?_⟩
  · simp [train, start, hbounds, maxVals]
  · simp [maxVals, hlow, hhigh]

theorem train_isSome (vector : List ar.F) (level : QuantLevel) :
    (train [vector] level).isSome = true := by
  obtain ⟨q, hq, -⟩ := train_singleton vector level
  rw [hq]
  rfl

theorem train_spec {vector : List ar.F} {level : QuantLevel} {q : ScalarQuantizer ar}
    (h : train [vector] level = some q) : q.level = level ∧ q.dim = vector.length ∧
      q.minVals.length = q.dim ∧ q.maxVals.length = q.dim := by
  obtain ⟨trained, htrained, hspec⟩ := train_singleton vector level
  rw [htrained] at h
  cases h
  exact hspec

end ScalarQuantizer

namespace FittedQuantizer

open ScalarQuantizer

variable {ar : FloatArithmetic}

def fit (vector : List ar.F) (level : QuantLevel) : FittedQuantizer ar where
  toScalarQuantizer := (train [vector] level).get (train_isSome vector level)
  minLength := (train_spec (Option.some_get _).symm).2.2.1
  maxLength := (train_spec (Option.some_get _).symm).2.2.2

theorem fit_spec (vector : List ar.F) (level : QuantLevel) :
    (fit vector level).level = level ∧ (fit vector level).dim = vector.length :=
  ⟨(train_spec (Option.some_get _).symm).1, (train_spec (Option.some_get _).symm).2.1⟩

/-! ## What the scalar quantizer reads -/

variable (q : FittedQuantizer ar)

theorem min_eq_none_iff {d : Nat} : q.minVals[d]? = none ↔ q.dim ≤ d := by
  rw [List.getElem?_eq_none_iff, q.minLength]

theorem max_eq_none_iff {d : Nat} : q.maxVals[d]? = none ↔ q.dim ≤ d := by
  rw [List.getElem?_eq_none_iff, q.maxLength]

theorem ranges_eq_none_iff {β : Type} {d : Nat} {f : ar.F → ar.F → β} :
    (q.maxVals[d]?.bind fun high => q.minVals[d]?.bind fun low => some (f high low)) = none ↔
      q.dim ≤ d := by
  rw [bind_eq_none_iff, q.max_eq_none_iff]
  constructor
  · intro h
    rcases h with h | ⟨high, -, hlow⟩
    · exact h
    · rcases bind_eq_none_iff.mp hlow with hnone | ⟨low, -, hsome⟩
      · exact q.min_eq_none_iff.mp hnone
      · cases hsome
  · exact .inl

theorem warmCode_eq_none_iff {component : ar.F × Nat} :
    q.warmCode component = none ↔ q.dim ≤ component.2 := q.ranges_eq_none_iff

theorem value_eq_none_iff {steps d : Nat} {code : UInt8} :
    q.value steps code d = none ↔ q.dim ≤ d := q.ranges_eq_none_iff

variable {vector : List ar.F}

theorem coldCode_eq_none_iff {d : Nat} :
    q.coldCode vector d = none ↔ vector.length ≤ d ∨ q.dim ≤ d := by
  unfold ScalarQuantizer.coldCode
  rw [Option.bind_eq_bind, bind_eq_none_iff, List.getElem?_eq_none_iff]
  by_cases hd : vector.length ≤ d
  · simp only [hd, true_or]
  · obtain ⟨v, hv⟩ : ∃ v, vector[d]? = some v := ⟨_, List.getElem?_eq_getElem (Nat.lt_of_not_le hd)⟩
    rw [or_iff_right hd, or_iff_right hd]
    constructor
    · intro h
      obtain ⟨v, -, hranges⟩ := h
      exact q.ranges_eq_none_iff.mp hranges
    · intro h
      exact ⟨v, hv, q.ranges_eq_none_iff.mpr h⟩

theorem coldByte_eq_none_iff {i : Nat} (hi : i < (q.dim + 1) / 2) :
    q.coldByte vector i = none ↔ vector.length < min q.dim (2 * i + 2) := by
  unfold ScalarQuantizer.coldByte
  dsimp only
  rw [Option.bind_eq_bind, bind_eq_none_iff, q.coldCode_eq_none_iff]
  by_cases hfirst : vector.length ≤ 2 * i
  · rw [or_iff_left_of_imp fun _ => .inl hfirst]
    omega
  · obtain ⟨q1, hq1⟩ : ∃ q1, q.coldCode vector (2 * i) = some q1 := by
      refine Option.ne_none_iff_exists'.mp fun h => ?_
      rcases q.coldCode_eq_none_iff.mp h with h | h
      · exact hfirst h
      · omega
    have hin : ¬(vector.length ≤ 2 * i ∨ q.dim ≤ 2 * i) := by omega
    rw [or_iff_right hin]
    by_cases hsecond : 2 * i + 1 < q.dim
    · constructor
      · intro h
        obtain ⟨q1, -, hrest⟩ := h
        rw [if_pos hsecond] at hrest
        rcases bind_eq_none_iff.mp hrest with hnone | ⟨q2, -, hsome⟩
        · rcases q.coldCode_eq_none_iff.mp hnone with h | h
          · omega
          · omega
        · cases hsome
      · intro h
        refine ⟨q1, hq1, ?_⟩
        rw [if_pos hsecond, q.coldCode_eq_none_iff.mpr (.inl (by omega))]
        rfl
    · constructor
      · intro h
        obtain ⟨q1, -, hrest⟩ := h
        rw [if_neg hsecond] at hrest
        cases hrest
      · intro h
        omega

theorem encode_eq_none_iff : q.encode vector = none ↔
    match q.level with
    | .full => False
    | .warm => q.dim < vector.length
    | .cold => vector.length < q.dim
    | .background => True := by
  unfold ScalarQuantizer.encode
  cases hlevel : q.level with
  | full => simp
  | background => simp
  | warm =>
      dsimp only
      rw [mapM_eq_none_iff]
      constructor
      · intro h
        obtain ⟨component, hcomponent, hnone⟩ := h
        have hd := (List.mem_zipIdx hcomponent).2.1
        have hdim := q.warmCode_eq_none_iff.mp hnone
        omega
      · intro h
        refine ⟨(vector[q.dim], q.dim), ?_, q.warmCode_eq_none_iff.mpr (Nat.le_refl _)⟩
        exact List.mem_zipIdx_iff_getElem?.mpr (List.getElem?_eq_getElem h)
  | cold =>
      dsimp only
      rw [mapM_eq_none_iff]
      constructor
      · intro h
        obtain ⟨i, hi, hnone⟩ := h
        have := (q.coldByte_eq_none_iff (List.mem_range.mp hi)).mp hnone
        omega
      · intro h
        have hlast : (q.dim + 1) / 2 - 1 < (q.dim + 1) / 2 := by omega
        refine ⟨(q.dim + 1) / 2 - 1, List.mem_range.mpr hlast,
          (q.coldByte_eq_none_iff hlast).mpr ?_⟩
        omega

theorem length_of_encode {codes : List UInt8} (h : q.encode vector = some codes) :
    (q.level = .warm → codes.length = vector.length) ∧
      (q.level = .cold → codes.length = (q.dim + 1) / 2) := by
  unfold ScalarQuantizer.encode at h
  constructor
  · intro hwarm
    rw [hwarm] at h
    rw [length_of_mapM h, List.length_zipIdx]
  · intro hcold
    rw [hcold] at h
    rw [length_of_mapM h, List.length_range]

theorem coldValues_of_lt (byte : UInt8) {i : Nat} (h : 2 * i < q.dim) :
    ∃ values, q.coldValues (byte, i) = some values ∧
      values.length = if 2 * i + 1 < q.dim then 2 else 1 := by
  have hread : ∀ code d, d < q.dim → ∃ v, q.value 15 code d = some v := by
    intro code d hd
    refine Option.ne_none_iff_exists'.mp fun hnone => ?_
    have := q.value_eq_none_iff.mp hnone
    omega
  obtain ⟨first, hfirst⟩ := hread (byte &&& 0x0F) (i * 2) (by omega)
  unfold ScalarQuantizer.coldValues
  dsimp only
  rw [hfirst, Option.bind_eq_bind, Option.bind_some, Nat.mul_comm 2 i]
  by_cases hsecond : i * 2 + 1 < q.dim
  · obtain ⟨second, hread⟩ := hread ((byte >>> 4) &&& 0x0F) (i * 2 + 1) hsecond
    rw [if_pos hsecond, if_pos hsecond, hread]
    exact ⟨_, rfl, rfl⟩
  · rw [if_neg hsecond, if_neg hsecond]
    exact ⟨_, rfl, rfl⟩

/-- The bytes from the `k`-th on stand for the components from `2 * k` on. -/
theorem coldValues_from (codes : List UInt8) (k : Nat)
    (h : codes = [] ∨ 2 * (k + codes.length) ≤ q.dim + 1) :
    ∃ parts, (codes.zipIdx k).mapM q.coldValues = some parts ∧
      parts.flatten.length = min q.dim (2 * (k + codes.length)) - 2 * k := by
  induction codes generalizing k with
  | nil =>
      refine ⟨[], rfl, ?_⟩
      simp only [List.flatten_nil, List.length_nil]
      omega
  | cons byte codes ih =>
      rw [List.length_cons] at h ⊢
      have hbound : 2 * (k + 1 + codes.length) ≤ q.dim + 1 := by
        rcases h with h | h
        · cases h
        · omega
      obtain ⟨values, hvalues, hlength⟩ := q.coldValues_of_lt byte (i := k) (by omega)
      obtain ⟨parts, hparts, hrest⟩ := ih (k + 1) (.inr hbound)
      refine ⟨values :: parts, ?_, ?_⟩
      · rw [List.zipIdx_cons, List.mapM_cons, hvalues, hparts]
        rfl
      · rw [List.flatten_cons, List.length_append, hlength, hrest]
        split <;> omega

/-- A code of the quantizer is decoded without a panic: a warm one to as many components as it
has bytes, a cold one to as many as there are ranges. -/
theorem decode_of_encode {codes : List UInt8} (h : q.encode vector = some codes) :
    (q.level = .warm → ∃ values, q.decode codes = some values ∧
        values.length = codes.length) ∧
      (q.level = .cold → ∃ values, q.decode codes = some values ∧ values.length = q.dim) := by
  have hlengths := q.length_of_encode h
  unfold ScalarQuantizer.decode
  constructor
  · intro hwarm
    have hfits : ¬q.encode vector = none := by simp [h]
    rw [q.encode_eq_none_iff, hwarm] at hfits
    rw [hwarm]
    dsimp only
    cases hvalues : codes.zipIdx.mapM fun code => q.value 255 code.1 code.2 with
    | none =>
        obtain ⟨code, hcode, hnone⟩ := mapM_eq_none_iff.mp hvalues
        have hd := (List.mem_zipIdx hcode).2.1
        have hdim := q.value_eq_none_iff.mp hnone
        have hlength := hlengths.1 hwarm
        omega
    | some values =>
        refine ⟨values, rfl, ?_⟩
        rw [length_of_mapM hvalues, List.length_zipIdx]
  · intro hcold
    have hlength := hlengths.2 hcold
    obtain ⟨parts, hparts, hcount⟩ := q.coldValues_from codes 0 (.inr (by omega))
    rw [hcold]
    dsimp only
    rw [hparts]
    refine ⟨parts.flatten, rfl, ?_⟩
    omega

end FittedQuantizer

namespace TernaryQuantizer

variable {ar : FloatArithmetic} (q : TernaryQuantizer)

variable {vector : List ar.F}

theorem putBits_eq_none_iff {scale : ar.F} {i j : Nat} {byte : UInt8} :
    q.putBits ar scale vector i byte j = none ↔ vector.length ≤ i + j ∧ i + j < q.dim := by
  unfold putBits
  by_cases hdim : i + j < q.dim
  · rw [if_pos hdim, Option.bind_eq_bind, bind_eq_none_iff, List.getElem?_eq_none_iff]
    simp [hdim]
  · rw [if_neg hdim]
    simp [hdim]

theorem encode_eq_none_iff : q.encode ar vector = none ↔ vector.length < q.dim := by
  unfold encode
  dsimp only
  rw [Option.bind_eq_bind, bind_eq_none_iff, mapM_eq_none_iff]
  have hbyte : ∀ i, q.encodeByte ar (q.scaleOf ar vector) vector i = none ↔
      ∃ j ∈ List.range 4, vector.length ≤ 4 * i + j ∧ 4 * i + j < q.dim := fun i =>
    foldlM_eq_none_iff (P := fun j => vector.length ≤ 4 * i + j ∧ 4 * i + j < q.dim)
      (fun _ _ _ => q.putBits_eq_none_iff) 0
  constructor
  · intro h
    rcases h with ⟨i, -, hnone⟩ | ⟨bytes, -, hnone⟩
    · obtain ⟨j, -, hlow, hhigh⟩ := (hbyte i).mp hnone
      omega
    · cases hnone
  · intro h
    refine .inl ⟨vector.length / 4, List.mem_range.mpr (by omega), (hbyte _).mpr ?_⟩
    refine ⟨vector.length % 4, List.mem_range.mpr (by omega), ?_⟩
    omega

theorem length_of_encode {codes : List UInt8} (h : q.encode ar vector = some codes) :
    codes.length = 2 + (q.dim + 3) / 4 := by
  obtain ⟨bytes, hbytes, heq⟩ := Option.bind_eq_some_iff.mp h
  cases heq
  rw [List.length_append, length_of_mapM hbytes, List.length_range]
  rfl

theorem length_pushValue (scale : ar.F) (vector : List ar.F) (code : UInt8 × Nat) :
    (q.pushValue ar scale vector code).length =
      if vector.length < q.dim then vector.length + 1 else vector.length := by
  unfold pushValue
  dsimp only
  split
  · rw [List.length_append]
    rfl
  · rfl

theorem length_foldl_pushValue (scale : ar.F) (codes : List (UInt8 × Nat)) (vector : List ar.F)
    (h : vector.length ≤ q.dim) :
    (codes.foldl (q.pushValue ar scale) vector).length =
      min q.dim (vector.length + codes.length) := by
  induction codes generalizing vector with
  | nil =>
      rw [List.foldl_nil, List.length_nil]
      omega
  | cons code codes ih =>
      have hlength := q.length_pushValue scale vector code
      rw [List.foldl_cons, List.length_cons, ih _ (by rw [hlength]; split <;> omega), hlength]
      split <;> omega

theorem length_decode_of_encode {codes : List UInt8} (h : q.encode ar vector = some codes) :
    (q.decode ar codes).length = q.dim := by
  have hlength := q.length_of_encode h
  match codes with
  | [] => simp at hlength; omega
  | [_] => simp at hlength; omega
  | low :: high :: bytes =>
      have hcount : (bytes.flatMap fun byte => (List.range 4).map fun j => (byte, j)).length =
          4 * bytes.length := by
        rw [List.length_flatMap]
        simp [Nat.mul_comm]
      rw [List.length_cons, List.length_cons] at hlength
      unfold decode
      dsimp only
      rw [q.length_foldl_pushValue _ _ _ (Nat.zero_le _), hcount, List.length_nil]
      omega

end TernaryQuantizer

/-- Float vectors and their bytes. A panic of the scalar decoder gives nothing here. -/
abbrev floatQuantization (ar : FloatArithmetic) : Quantization where
  Vec := List ar.F
  Code := List UInt8
  Scalar := FittedQuantizer ar
  trainScalar := FittedQuantizer.fit
  encodeScalar := fun q vector => q.encode vector
  decodeScalar := fun q codes => (q.decode codes).getD []
  encodeTernary := fun dim vector => (TernaryQuantizer.mk dim).encode ar vector
  decodeTernary := fun dim codes => (TernaryQuantizer.mk dim).decode ar codes

end BenShu.Engram
