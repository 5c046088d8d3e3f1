import BenShu.Engram.FloatQuantizers
import BenShu.Engram.VectorEvents

/-!
# Insertion of vectors of any length

Adding a vector and changing its level with every index that is read: by the quantizers, and
by the distances the graph library evaluates for a new point. Neither call looks at the length
of the vector; a read out of bounds panics and leaves what was changed before it.
-/

namespace BenShu.Engram

open CheckedReads

/-! ## Distances -/

structure PoincareNorms (ar : FloatArithmetic) where
  distSq : ar.F
  normASq : ar.F
  normBSq : ar.F

namespace PoincareNorms

variable {ar : FloatArithmetic}

def zero (ar : FloatArithmetic) : PoincareNorms ar := ⟨ar.zero, ar.zero, ar.zero⟩

def push (norms : PoincareNorms ar) (a b : ar.F) : PoincareNorms ar :=
  let diff := a - b
  ⟨norms.distSq + diff * diff, norms.normASq + a * a, norms.normBSq + b * b⟩

/-- One lane of a fused step. -/
def pushLane (norms : PoincareNorms ar) (pair : ar.F × ar.F) : PoincareNorms ar :=
  let (a, b) := pair
  let diff := a - b
  ⟨ar.mulAdd diff diff norms.distSq, ar.mulAdd a a norms.normASq, ar.mulAdd b b norms.normBSq⟩

/-- The distance in the ball. -/
def distance (norms : PoincareNorms ar) : ar.F :=
  let eps := ar.literal 1 4
  let lambdaA := ar.max (ar.one - norms.normASq) eps
  let lambdaB := ar.max (ar.one - norms.normBSq) eps
  ar.acosh (ar.one + ar.literal 2 0 * norms.distSq / (lambdaA * lambdaB))

/-- The registers after the block from position `lanes * k`. The loads are not checked: past
the end of a vector they read foreign memory. -/
def pushBlock (lanes : Nat) (va vb : List ar.F) (registers : List (PoincareNorms ar)) (k : Nat) :
    Option (List (PoincareNorms ar)) := do
  let a ← slice va (lanes * k) lanes
  let b ← slice vb (lanes * k) lanes
  some (List.zipWith pushLane registers (a.zip b))

def pushTail (va vb : List ar.F) (norms : PoincareNorms ar) (j : Nat) :
    Option (PoincareNorms ar) := do
  let a ← va[j]?
  let b ← vb[j]?
  some (norms.push a b)

def reduce (sum : List ar.F → ar.F) (registers : List (PoincareNorms ar)) : PoincareNorms ar :=
  ⟨sum (registers.map (·.distSq)), sum (registers.map (·.normASq)),
    sum (registers.map (·.normBSq))⟩

/-- The kernel of a register width: blocks over the first vector, then its tail. -/
def ofLanes (sum : List ar.F → ar.F) (lanes : Nat) (va vb : List ar.F) :
    Option (PoincareNorms ar) := do
  let blocks := va.length / lanes
  let registers ← (List.range blocks).foldlM (pushBlock lanes va vb)
    (List.replicate lanes (zero ar))
  (List.range' (lanes * blocks) (va.length % lanes)).foldlM (pushTail va vb)
    (reduce sum registers)

end PoincareNorms

section

variable {ar : FloatArithmetic}

def avx512PoincareNorms (va vb : List ar.F) : Option (PoincareNorms ar) :=
  PoincareNorms.ofLanes ar.reduceAdd 16 va vb

def avx2PoincareNorms (va vb : List ar.F) : Option (PoincareNorms ar) :=
  PoincareNorms.ofLanes (fun lanes => lanes.foldl (· + ·) ar.zero) 8 va vb

structure SimdFeatures where
  avx512f : Bool
  avx2 : Bool

def distPoincare (cpu : SimdFeatures) (va vb : List ar.F) : Option ar.F :=
  if cpu.avx512f then (avx512PoincareNorms va vb).map PoincareNorms.distance
  else if cpu.avx2 then (avx2PoincareNorms va vb).map PoincareNorms.distance
  else
    let norms := (va.zip vb).foldl (fun norms pair => norms.push pair.1 pair.2)
      (PoincareNorms.zero ar)
    some norms.distance

end

namespace PoincareNorms

variable {ar : FloatArithmetic} {va vb : List ar.F} {lanes : Nat}

theorem pushBlock_eq_none_iff {k : Nat} (hk : k < va.length / lanes)
    (registers : List (PoincareNorms ar)) :
    pushBlock lanes va vb registers k = none ↔ vb.length < lanes * (k + 1) := by
  have hin : ¬va.length < lanes * k + lanes := by
    have hle : lanes * (k + 1) ≤ lanes * (va.length / lanes) := Nat.mul_le_mul_left _ hk
    have hblocks := Nat.mul_div_le va.length lanes
    rw [Nat.mul_succ] at hle
    omega
  obtain ⟨a, ha⟩ : ∃ a, slice va (lanes * k) lanes = some a :=
    Option.ne_none_iff_exists'.mp fun h => hin (slice_eq_none_iff.mp h)
  unfold pushBlock
  rw [ha, Nat.mul_succ, ← slice_eq_none_iff]
  cases slice vb (lanes * k) lanes with
  | none => simp
  | some b => simp

theorem pushTail_eq_none_iff {j : Nat} (hj : j < va.length) (norms : PoincareNorms ar) :
    pushTail va vb norms j = none ↔ vb.length ≤ j := by
  unfold pushTail
  rw [List.getElem?_eq_getElem hj, ← List.getElem?_eq_none_iff]
  cases vb[j]? with
  | none => simp
  | some b => simp

theorem ofLanes_eq_none_iff {sum : List ar.F → ar.F} (hlanes : 0 < lanes) :
    ofLanes sum lanes va vb = none ↔ vb.length < va.length := by
  have hlength := Nat.div_add_mod va.length lanes
  have hblocks : ∀ registers,
      (List.range (va.length / lanes)).foldlM (pushBlock lanes va vb) registers = none ↔
        ∃ k ∈ List.range (va.length / lanes), vb.length < lanes * (k + 1) :=
    foldlM_eq_none_iff fun registers k hk =>
      pushBlock_eq_none_iff (List.mem_range.mp hk) registers
  have htail : ∀ norms, (List.range' (lanes * (va.length / lanes)) (va.length % lanes)).foldlM
      (pushTail va vb) norms = none ↔
        ∃ j ∈ List.range' (lanes * (va.length / lanes)) (va.length % lanes), vb.length ≤ j :=
    foldlM_eq_none_iff fun norms j hj => by
      have := List.mem_range'_1.mp hj
      exact pushTail_eq_none_iff (by omega) norms
  unfold ofLanes
  dsimp only
  rw [Option.bind_eq_bind, bind_eq_none_iff, hblocks]
  constructor
  · intro h
    rcases h with ⟨k, hk, hshort⟩ | ⟨registers, -, hnone⟩
    · have hle : lanes * (k + 1) ≤ lanes * (va.length / lanes) :=
        Nat.mul_le_mul_left _ (List.mem_range.mp hk)
      omega
    · obtain ⟨j, hj, hshort⟩ := (htail _).mp hnone
      have := List.mem_range'_1.mp hj
      omega
  · intro hshort
    by_cases hfirst : vb.length < lanes * (va.length / lanes)
    · -- the block with the first missing component
      refine .inl ⟨vb.length / lanes, List.mem_range.mpr ?_, Nat.lt_mul_div_succ _ hlanes⟩
      exact Nat.div_lt_of_lt_mul hfirst
    · have hread : ¬∃ k ∈ List.range (va.length / lanes), vb.length < lanes * (k + 1) := by
        intro h
        obtain ⟨k, hk, hlt⟩ := h
        have hle : lanes * (k + 1) ≤ lanes * (va.length / lanes) :=
          Nat.mul_le_mul_left _ (List.mem_range.mp hk)
        omega
      obtain ⟨registers, hregisters⟩ := Option.ne_none_iff_exists'.mp fun h =>
        hread ((hblocks (List.replicate lanes (zero ar))).mp h)
      refine .inr ⟨registers, hregisters, (htail _).mpr ⟨vb.length, ?_, Nat.le_refl _⟩⟩
      rw [List.mem_range'_1]
      omega

end PoincareNorms

/-- The kernels go out of bounds exactly where the second vector is the shorter one; without
them the longer vector is cut. -/
theorem distPoincare_eq_none_iff {ar : FloatArithmetic} (cpu : SimdFeatures) (va vb : List ar.F) :
    distPoincare cpu va vb = none ↔
      (cpu.avx512f = true ∨ cpu.avx2 = true) ∧ vb.length < va.length := by
  unfold distPoincare avx512PoincareNorms avx2PoincareNorms
  cases cpu.avx512f with
  | true => simp [PoincareNorms.ofLanes_eq_none_iff]
  | false =>
      cases cpu.avx2 with
      | true => simp [PoincareNorms.ofLanes_eq_none_iff]
      | false => simp

/-! ## Calls -/

/-- The graph library and the processor: which distances are evaluated for a new point, where
the library panics by itself, and what a panic leaves of the graph. -/
structure InsertionHost (ar : FloatArithmetic) where
  cpu : SimdFeatures
  evaluated : Hnsw (floatQuantization ar) → List ar.F → List (List ar.F × List ar.F)
  refuses : VectorMetric → Hnsw (floatQuantization ar) → List ar.F → Bool
  leftOver : Hnsw (floatQuantization ar) → List ar.F × Nat → Hnsw (floatQuantization ar)

abbrev FloatStore (ar : FloatArithmetic) := VectorStore (floatQuantization ar)

/-- Decoding the code of an entry reads past the ranges of its quantizer. -/
def decodePanics {ar : FloatArithmetic} (quantizers : Quantizers (floatQuantization ar))
    (entry : VectorEntry (floatQuantization ar)) : Bool :=
  match entry.embedding, entry.quantCode,
      quantizers.find? fun quantizer => quantizer.1 = entry.quantLevel with
  | none, some code, some (_, .scalar q) =>
      ((FittedQuantizer.toScalarQuantizer q).decode code).isNone
  | _, _, _ => false

namespace InsertionHost

variable {ar : FloatArithmetic} (host : InsertionHost ar)

def distancePanics (metric : VectorMetric) (pair : List ar.F × List ar.F) : Bool :=
  match metric with
  | .poincare => (distPoincare host.cpu pair.1 pair.2).isNone
  | _ => false

/-- The insertion of a point into the graph of a level panics. -/
def insertionPanics (store : FloatStore ar) (embedding : List ar.F) (level : QuantLevel) : Bool :=
  if store.annContractEnabled then
    match store.hnswIndexes.lookup level with
    | none => false
    | some hnsw => host.refuses store.metric hnsw embedding ||
        (host.evaluated hnsw embedding).any (host.distancePanics store.metric)
  else false

/-- The store after a panic in the graph: the key has no slot any more. -/
def afterPanic (store : FloatStore ar) (key : String) (embedding : List ar.F)
    (level : QuantLevel) : FloatStore ar :=
  let store := store.retireKey key
  let indexes := match store.hnswIndexes.lookup level with
    | none => store.hnswIndexes
    | some hnsw =>
        store.hnswIndexes.insert level (host.leftOver hnsw (embedding, store.idMap.length))
  { store with hnswIndexes := indexes }

def addAtLevel (store : FloatStore ar) (collection path docid : String) (chunkSeq : Nat)
    (embedding : List ar.F) (level : QuantLevel) : FloatStore ar × Except VectorFailure Unit :=
  let key := vectorKey collection path
  let entry := VectorEntry.new (floatQuantization ar) docid collection path chunkSeq level
  match store.quantize entry embedding level with
  | (store, .error failure) => (store, .error failure)
  | (store, .ok entry) =>
      if host.insertionPanics store embedding level then
        (host.afterPanic store key embedding level, .error .panic)
      else
        let store := (store.updateHnsw key embedding level).persist key entry
        let cache := if level = .full then store.decodedCache.put key embedding
          else store.decodedCache.pop key
        (({ store with decodedCache := cache } : FloatStore ar).saveMetadata, .ok ())

def changeLevel (store : FloatStore ar) (collection path : String) (targetLevel : QuantLevel) :
    FloatStore ar × Except VectorFailure Unit :=
  let key := vectorKey collection path
  match store.kv.vectors.lookup key with
  | none => (store, .ok ())
  | some entry =>
      if entry.quantLevel = targetLevel then (store, .ok ())
      else if decodePanics store.quantizers entry then (store, .error .panic)
      else
        match recoverEmbedding store.quantizers store.dimension entry with
        | .error failure => (store, .error failure)
        | .ok none => (store, .error (.retrievalError "No data found to migrate"))
        | .ok (some embedding) =>
            match store.quantize entry embedding targetLevel with
            | (store, .error failure) => (store, .error failure)
            | (store, .ok entry) =>
                if host.insertionPanics store embedding targetLevel then
                  (host.afterPanic store key embedding targetLevel, .error .panic)
                else
                  let store := (store.updateHnsw key embedding targetLevel).persist key entry
                  (store.saveMetadata, .ok ())

variable {format : SnapshotFormat (floatQuantization ar)}

/-- Insertions as they read; the other events as before. -/
def occur (session : VectorSession format) :
    VectorEvent (floatQuantization ar) → VectorSession format
  | .call (.add collection path docid chunkSeq embedding) =>
      let added := host.addAtLevel session.store collection path docid chunkSeq embedding .full
      { session with store := added.1 }
  | .call (.addAtLevel collection path docid chunkSeq embedding level) =>
      let added := host.addAtLevel session.store collection path docid chunkSeq embedding level
      { session with store := added.1 }
  | .call (.changeLevel collection path targetLevel) =>
      { session with store := (host.changeLevel session.store collection path targetLevel).1 }
  | event => session.occur event

def runEvents (session : VectorSession format)
    (events : List (VectorEvent (floatQuantization ar))) : VectorSession format :=
  events.foldl host.occur session

end InsertionHost

/-! ## Which vectors fit -/

/-- The quantizer of a level. -/
inductive Serves {ar : FloatArithmetic} (dimension : Nat) :
    QuantLevel → DynamicQuantizer (floatQuantization ar) → Prop where
  | warm (q : FittedQuantizer ar) (h : q.level = .warm) : Serves dimension .warm (.scalar q)
  | cold (q : FittedQuantizer ar) (h : q.level = .cold) : Serves dimension .cold (.scalar q)
  | background : Serves dimension .background (.ternary dimension)

def Coded {ar : FloatArithmetic} (quantizers : Quantizers (floatQuantization ar))
    (entry : VectorEntry (floatQuantization ar)) : Prop :=
  entry.embedding.isSome = true ∨ ∃ quantizer code vector, entry.quantCode = some code ∧
    quantizers.find? (fun quantizer => quantizer.1 = entry.quantLevel) =
      some (entry.quantLevel, quantizer) ∧ quantizer.encode vector = some code

theorem Coded.mono {ar : FloatArithmetic}
    {quantizers quantizers' : Quantizers (floatQuantization ar)}
    {entry : VectorEntry (floatQuantization ar)} (h : Coded quantizers entry)
    (hbegins : quantizers <+: quantizers') : Coded quantizers' entry := by
  rcases h with hembedding | ⟨quantizer, code, vector, hcode, hfind, hencode⟩
  · exact .inl hembedding
  · obtain ⟨added, rfl⟩ := hbegins
    refine .inr ⟨quantizer, code, vector, hcode, ?_, hencode⟩
    rw [List.find?_append, hfind]
    rfl

namespace VectorStore

variable {ar : FloatArithmetic}

/-- A vector of a length fits the quantizer of a level. -/
def Admits (store : FloatStore ar) (length : Nat) : QuantLevel → Prop
  | .full => True
  | .warm => ∀ q : FittedQuantizer ar,
      store.quantizers.find? (fun quantizer => quantizer.1 = .warm) = some (.warm, .scalar q) →
        length ≤ q.dim
  | .cold => ∀ q : FittedQuantizer ar,
      store.quantizers.find? (fun quantizer => quantizer.1 = .cold) = some (.cold, .scalar q) →
        q.dim ≤ length
  | .background => store.dimension ≤ length

/-- The number of components an entry stands for. -/
def components (store : FloatStore ar) (entry : VectorEntry (floatQuantization ar)) : Nat :=
  match entry.embedding with
  | some embedding => List.length embedding
  | none =>
      match entry.quantLevel with
      | .full => 0
      | .warm => (entry.quantCode.map List.length).getD 0
      | .cold =>
          match store.quantizers.find? fun quantizer => quantizer.1 = .cold with
          | some (_, .scalar q) => (FittedQuantizer.toScalarQuantizer q).dim
          | _ => 0
      | .background => store.dimension

/-! ## Stores of all runs -/

/-- Every quantizer serves its level, and every code can be read, also after a restart. -/
structure Sized (store : FloatStore ar) : Prop where
  serves : ∀ quantizer ∈ store.quantizers, Serves store.dimension quantizer.1 quantizer.2
  stored : store.storedQuantizers <+: store.quantizers
  coded : ∀ key entry, store.kv.vectors.lookup key = some entry →
    Coded store.storedQuantizers entry

theorem Sized.change {store store' : FloatStore ar} (h : store.Sized)
    (hserves : ∀ quantizer ∈ store'.quantizers, Serves store'.dimension quantizer.1 quantizer.2)
    (hbegins : store.quantizers <+: store'.quantizers)
    (hstored : store'.storedQuantizers = store.storedQuantizers ∨
      store'.storedQuantizers = store'.quantizers)
    (hcoded : ∀ key entry, store'.kv.vectors.lookup key = some entry →
      store.kv.vectors.lookup key = some entry ∨ Coded store'.storedQuantizers entry) :
    store'.Sized := by
  have hkept : store.storedQuantizers <+: store'.storedQuantizers := by
    rcases hstored with heq | heq
    · rw [heq]
    · rw [heq]
      exact h.stored.trans hbegins
  refine ⟨hserves, ?_, ?_⟩
  · rcases hstored with heq | heq
    · rw [heq]
      exact h.stored.trans hbegins
    · rw [heq]
  · intro key entry hlookup
    rcases hcoded key entry hlookup with hbefore | hnew
    · exact (h.coded key entry hbefore).mono hkept
    · exact hnew

abbrev withQuantizers (store : FloatStore ar) (quantizers : Quantizers (floatQuantization ar)) :
    FloatStore ar :=
  { store with quantizers := quantizers }

/-- A quantizer codes the vectors of a length. -/
def Takes (length : Nat) : DynamicQuantizer (floatQuantization ar) → Prop
  | .scalar q =>
      ((FittedQuantizer.toScalarQuantizer q).level = .warm →
        length ≤ (FittedQuantizer.toScalarQuantizer q).dim) ∧
      ((FittedQuantizer.toScalarQuantizer q).level = .cold →
        (FittedQuantizer.toScalarQuantizer q).dim ≤ length)
  | .ternary dim => dim ≤ length

theorem takes_warm {q : FittedQuantizer ar} {length : Nat} (h : q.level = .warm) :
    @Takes ar length (.scalar q) ↔ length ≤ q.dim := by
  constructor
  · intro htakes
    exact htakes.1 h
  · intro hle
    refine ⟨fun _ => hle, fun hcold => ?_⟩
    rw [h] at hcold
    cases hcold

theorem takes_cold {q : FittedQuantizer ar} {length : Nat} (h : q.level = .cold) :
    @Takes ar length (.scalar q) ↔ q.dim ≤ length := by
  constructor
  · intro htakes
    exact htakes.2 h
  · intro hle
    refine ⟨fun hwarm => ?_, fun _ => hle⟩
    rw [h] at hwarm
    cases hwarm

theorem encode_serving {dimension : Nat} {level : QuantLevel}
    {quantizer : DynamicQuantizer (floatQuantization ar)} (h : Serves dimension level quantizer)
    (vector : List ar.F) : quantizer.encode vector = none ↔ ¬Takes vector.length quantizer := by
  cases h with
  | warm q hlevel =>
      refine q.encode_eq_none_iff.trans ?_
      rw [takes_warm hlevel, hlevel]
      exact Nat.not_le.symm
  | cold q hlevel =>
      refine q.encode_eq_none_iff.trans ?_
      rw [takes_cold hlevel, hlevel]
      exact Nat.not_le.symm
  | background =>
      refine (TernaryQuantizer.encode_eq_none_iff ⟨dimension⟩).trans ?_
      exact Nat.not_le.symm

/-- The quantizer that a level has, or is given for the vector. -/
theorem Sized.quantizerFor {store : FloatStore ar} (h : store.Sized) (embedding : List ar.F)
    {level : QuantLevel} (hlevel : level ≠ .full) :
    ∃ quantizers quantizer,
      store.quantizerFor level embedding = (store.withQuantizers quantizers, quantizer) ∧
      store.quantizers <+: quantizers ∧
      (∀ quantizer ∈ quantizers, Serves store.dimension quantizer.1 quantizer.2) ∧
      quantizers.find? (fun quantizer => quantizer.1 = level) = some (level, quantizer) ∧
      (Takes embedding.length quantizer ↔ store.Admits embedding.length level) := by
  unfold VectorStore.quantizerFor
  cases hfind : store.quantizers.find? fun quantizer => quantizer.1 = level with
  | some found =>
      obtain ⟨foundLevel, quantizer⟩ := found
      have hfound : foundLevel = level := by simpa using List.find?_some hfind
      subst hfound
      refine ⟨store.quantizers, quantizer, rfl, List.prefix_refl _, h.serves, hfind, ?_⟩
      have hserves := h.serves _ (List.mem_of_find?_eq_some hfind)
      cases hserves with
      | warm q hq =>
          rw [takes_warm hq]
          constructor
          · intro hle other hother
            rw [hfind] at hother
            cases hother
            exact hle
          · intro hadmits
            exact hadmits q hfind
      | cold q hq =>
          rw [takes_cold hq]
          constructor
          · intro hle other hother
            rw [hfind] at hother
            cases hother
            exact hle
          · intro hadmits
            exact hadmits q hfind
      | background => exact Iff.rfl
  | none =>
      have hserves : ∀ quantizer : DynamicQuantizer (floatQuantization ar),
          Serves store.dimension level quantizer →
          ∀ pair ∈ store.quantizers ++ [(level, quantizer)],
            Serves store.dimension pair.1 pair.2 := by
        intro quantizer hnew pair hpair
        rcases List.mem_append.mp hpair with hold | hlast
        · exact h.serves pair hold
        · rw [List.mem_singleton.mp hlast]
          exact hnew
      have hfirst : ∀ quantizer : DynamicQuantizer (floatQuantization ar),
          (store.quantizers ++ [(level, quantizer)]).find?
            (fun quantizer => quantizer.1 = level) = some (level, quantizer) := by
        intro quantizer
        rw [List.find?_append, hfind]
        simp
      obtain ⟨hfit, hdim⟩ := FittedQuantizer.fit_spec embedding level
      cases level with
      | full => exact absurd rfl hlevel
      | warm =>
          refine ⟨_, _, rfl, List.prefix_append _ _, hserves _ (.warm _ hfit), hfirst _, ?_⟩
          refine (takes_warm hfit).trans ?_
          rw [hdim]
          exact ⟨fun _ q hq => by simp [hfind] at hq, fun _ => Nat.le_refl _⟩
      | cold =>
          refine ⟨_, _, rfl, List.prefix_append _ _, hserves _ (.cold _ hfit), hfirst _, ?_⟩
          refine (takes_cold hfit).trans ?_
          rw [hdim]
          exact ⟨fun _ q hq => by simp [hfind] at hq, fun _ => Nat.le_refl _⟩
      | background =>
          exact ⟨_, _, rfl, List.prefix_append _ _, hserves _ .background, hfirst _, Iff.rfl⟩

/-- Quantizing changes the quantizers alone. It panics exactly on a vector that does not fit the
level; else the entry has the vector or a code of the level's quantizer. -/
theorem Sized.quantize {store : FloatStore ar} (h : store.Sized)
    (entry : VectorEntry (floatQuantization ar)) (embedding : List ar.F) (level : QuantLevel) :
    ∃ quantizers result,
      store.quantize entry embedding level = (store.withQuantizers quantizers, result) ∧
      store.quantizers <+: quantizers ∧
      (∀ quantizer ∈ quantizers, Serves store.dimension quantizer.1 quantizer.2) ∧
      (store.Admits embedding.length level →
        ∃ entry', result = .ok entry' ∧ entry'.quantLevel = level ∧ Coded quantizers entry') ∧
      (¬store.Admits embedding.length level → result = .error .panic) := by
  by_cases hfull : level = .full
  · subst hfull
    refine ⟨store.quantizers, _, rfl, List.prefix_refl _, h.serves, fun _ => ?_, fun hnot => ?_⟩
    · exact ⟨_, rfl, rfl, .inl rfl⟩
    · exact absurd trivial hnot
  · obtain ⟨quantizers, quantizer, hfor, hbegins, hserves, hfind, htakes⟩ :=
      h.quantizerFor embedding hfull
    have hencode := encode_serving (hserves _ (List.mem_of_find?_eq_some hfind)) embedding
    unfold VectorStore.quantize
    rw [if_neg hfull, hfor]
    dsimp only
    cases hcode : quantizer.encode embedding with
    | none =>
        refine ⟨quantizers, _, rfl, hbegins, hserves, fun hadmits => ?_, fun _ => rfl⟩
        exact absurd (htakes.mpr hadmits) (hencode.mp hcode)
    | some code =>
        refine ⟨quantizers, _, rfl, hbegins, hserves, fun _ => ?_, fun hnot => ?_⟩
        · exact ⟨_, rfl, rfl, .inr ⟨quantizer, code, embedding, rfl, hfind, hcode⟩⟩
        · rw [hencode.mpr fun h => hnot (htakes.mp h)] at hcode
          cases hcode

variable {entry : VectorEntry (floatQuantization ar)}

theorem Sized.recovers {store : FloatStore ar} (h : store.Sized) {key : String}
    (hlookup : store.kv.vectors.lookup key = some entry) :
    decodePanics store.quantizers entry = false ∧
      ∃ embedding : List ar.F,
        recoverEmbedding store.quantizers store.dimension entry = .ok (some embedding) ∧
        embedding.length = store.components entry := by
  have hcoded := (h.coded key entry hlookup).mono h.stored
  unfold decodePanics recoverEmbedding components
  cases hembedding : entry.embedding with
  | some embedding => exact ⟨rfl, embedding, rfl, rfl⟩
  | none =>
      rcases hcoded with hsome | ⟨quantizer, code, vector, hcode, hfind, hencode⟩
      · rw [hembedding] at hsome
        cases hsome
      · have hserves := h.serves _ (List.mem_of_find?_eq_some hfind)
        dsimp only at hserves
        rw [hcode, hfind]
        dsimp only
        cases hserves' : entry.quantLevel with
        | full =>
            rw [hserves'] at hserves
            cases hserves
        | warm =>
            rw [hserves'] at hserves
            cases hserves with
            | warm q hq =>
                obtain ⟨values, hvalues, hlength⟩ := (q.decode_of_encode hencode).1 hq
                have hdecode : DynamicQuantizer.decode code (.scalar q) = values :=
                  congrArg (fun decoded => decoded.getD []) hvalues
                exact ⟨congrArg Option.isNone hvalues, values, by rw [hdecode], hlength⟩
        | cold =>
            rw [hserves'] at hserves
            cases hserves with
            | cold q hq =>
                obtain ⟨values, hvalues, hlength⟩ := (q.decode_of_encode hencode).2 hq
                have hdecode : DynamicQuantizer.decode code (.scalar q) = values :=
                  congrArg (fun decoded => decoded.getD []) hvalues
                rw [hserves'] at hfind
                rw [hfind]
                exact ⟨congrArg Option.isNone hvalues, values, by rw [hdecode], hlength⟩
        | background =>
            rw [hserves'] at hserves
            cases hserves with
            | background =>
                refine ⟨rfl, _, rfl, ?_⟩
                exact TernaryQuantizer.length_decode_of_encode ⟨store.dimension⟩ hencode

theorem Coded.recoverable {quantizers : Quantizers (floatQuantization ar)}
    (h : Coded quantizers entry) : Recoverable quantizers entry := by
  rcases h with hembedding | ⟨quantizer, code, vector, hcode, hfind, hencode⟩
  · exact .inl hembedding
  · exact .inr ⟨by rw [hcode]; rfl, quantizer, List.mem_of_find?_eq_some hfind⟩

theorem Sized.withQuantizers {store : FloatStore ar} (h : store.Sized)
    {quantizers : Quantizers (floatQuantization ar)} (hbegins : store.quantizers <+: quantizers)
    (hserves : ∀ quantizer ∈ quantizers, Serves store.dimension quantizer.1 quantizer.2) :
    (store.withQuantizers quantizers).Sized :=
  h.change hserves hbegins (.inl rfl) fun _ _ hlookup => .inl hlookup

theorem Sized.persisted {store : FloatStore ar} (h : store.Sized) (key : String)
    (embedding : List ar.F) (cache : LruCache String (List ar.F))
    (hcoded : Coded store.quantizers entry) :
    ({ (store.updateHnsw key embedding entry.quantLevel).persist key entry with
      decodedCache := cache } : FloatStore ar).saveMetadata.Sized := by
  obtain ⟨hvectors, -, -, -, -, -, hdimension, hbegins, hstored, -, -⟩ :=
    store.updateHnsw_persist key entry embedding cache (Coded.recoverable hcoded)
  have hquantizers := store.updateHnsw_quantizers key embedding entry.quantLevel
  refine h.change ?_ hbegins (.inr hstored) fun other stored hlookup => ?_
  · rw [hdimension]
    intro quantizer hquantizer
    exact h.serves quantizer (hquantizers ▸ hquantizer)
  · rw [hvectors, Table.lookup_insert] at hlookup
    split at hlookup
    · cases hlookup
      rw [hstored]
      exact .inr (hcoded.mono hbegins)
    · exact .inl hlookup

end VectorStore

/-! ## When a call answers -/

/-- The call returns a value or an error, and an error leaves the store as it was. -/
def Answers {ar : FloatArithmetic} (store : FloatStore ar)
    (outcome : FloatStore ar × Except VectorFailure Unit) : Prop :=
  outcome.2 ≠ .error .panic ∧ ∀ failure, outcome.2 = .error failure → outcome.1 = store

namespace InsertionHost

open VectorStore

variable {ar : FloatArithmetic} (host : InsertionHost ar)

/-- The graph of a level takes a point: the library does not panic by itself, and no vector it
hands to a kernel as the second one is the shorter one. -/
def GraphAdmits (store : FloatStore ar) (embedding : List ar.F) (level : QuantLevel) : Prop :=
  store.annContractEnabled → ∀ hnsw, store.hnswIndexes.lookup level = some hnsw →
    host.refuses store.metric hnsw embedding = false ∧
      (store.metric = .poincare → host.cpu.avx512f = true ∨ host.cpu.avx2 = true →
        ∀ pair ∈ host.evaluated hnsw embedding, pair.1.length ≤ pair.2.length)

theorem distancePanics_eq_false_iff (metric : VectorMetric) (pair : List ar.F × List ar.F) :
    host.distancePanics metric pair = false ↔
      (metric = .poincare → host.cpu.avx512f = true ∨ host.cpu.avx2 = true →
        pair.1.length ≤ pair.2.length) := by
  cases metric with
  | poincare =>
      have hdistance := distPoincare_eq_none_iff host.cpu pair.1 pair.2
      unfold distancePanics
      rw [Option.isNone_eq_false_iff, Option.isSome_iff_ne_none, ne_eq, hdistance, not_and,
        Nat.not_lt]
      exact ⟨fun h _ => h, fun h => h rfl⟩
  | cosine => simp [distancePanics]
  | l2 => simp [distancePanics]
  | innerProduct => simp [distancePanics]

theorem insertionPanics_eq_false_iff (store : FloatStore ar) (embedding : List ar.F)
    (level : QuantLevel) :
    host.insertionPanics store embedding level = false ↔
      host.GraphAdmits store embedding level := by
  unfold insertionPanics GraphAdmits
  by_cases hann : store.annContractEnabled
  · rw [if_pos hann]
    cases hlookup : store.hnswIndexes.lookup level with
    | none => simp
    | some hnsw =>
        dsimp only
        rw [Bool.or_eq_false_iff, List.any_eq_false]
        constructor
        · intro h _ found hfound
          cases hfound
          refine ⟨h.1, fun hmetric hcpu pair hpair => ?_⟩
          have hpanics := Bool.eq_false_iff.mpr (h.2 pair hpair)
          exact (host.distancePanics_eq_false_iff _ pair).mp hpanics hmetric hcpu
        · intro h
          obtain ⟨hrefuses, hpairs⟩ := h hann hnsw rfl
          refine ⟨hrefuses, fun pair hpair => ?_⟩
          have hpanics := (host.distancePanics_eq_false_iff store.metric pair).mpr
            fun hmetric hcpu => hpairs hmetric hcpu pair hpair
          simp [hpanics]
  · rw [if_neg hann]
    exact ⟨fun _ h => absurd h hann, fun _ => rfl⟩

theorem not_answers_panic (store store' : FloatStore ar) :
    ¬Answers store (store', .error .panic) := fun h => h.1 rfl

theorem answers_ok (store store' : FloatStore ar) : Answers store (store', .ok ()) := by
  refine ⟨fun h => ?_, fun failure h => ?_⟩
  · cases h
  · cases h

theorem afterPanic_sized {store : FloatStore ar} (h : store.Sized) (key : String)
    (embedding : List ar.F) (level : QuantLevel) :
    (host.afterPanic store key embedding level).Sized :=
  h.change h.serves (List.prefix_refl _) (.inl rfl) fun _ _ hlookup => .inl hlookup

variable {store : FloatStore ar}

theorem addAtLevel_spec (h : store.Sized) (collection path docid : String) (chunkSeq : Nat)
    (embedding : List ar.F) (level : QuantLevel) :
    (host.addAtLevel store collection path docid chunkSeq embedding level).1.Sized ∧
      (Answers store (host.addAtLevel store collection path docid chunkSeq embedding level) ↔
        store.Admits embedding.length level ∧ host.GraphAdmits store embedding level) := by
  obtain ⟨quantizers, result, hquantize, hbegins, hserves, hfits, hpanics⟩ := h.quantize
    (VectorEntry.new (floatQuantization ar) docid collection path chunkSeq level) embedding level
  have hsized := h.withQuantizers hbegins hserves
  unfold addAtLevel
  dsimp only
  rw [hquantize]
  by_cases hadmits : store.Admits embedding.length level
  · obtain ⟨entry, hresult, hlevel, hcoded⟩ := hfits hadmits
    rw [hresult]
    dsimp only
    have hgraph := host.insertionPanics_eq_false_iff (store.withQuantizers quantizers) embedding
      level
    cases hinsert : host.insertionPanics (store.withQuantizers quantizers) embedding level with
    | true =>
        rw [if_pos rfl]
        refine ⟨host.afterPanic_sized hsized _ _ _, fun hanswers => ?_, fun hboth => ?_⟩
        · exact absurd hanswers (not_answers_panic _ _)
        · rw [hgraph.mpr hboth.2] at hinsert
          cases hinsert
    | false =>
        rw [if_neg Bool.false_ne_true]
        refine ⟨?_, fun _ => ⟨hadmits, hgraph.mp hinsert⟩, fun _ => answers_ok _ _⟩
        have hpersisted := fun cache =>
          hsized.persisted (vectorKey collection path) embedding cache hcoded
        rw [hlevel] at hpersisted
        exact hpersisted _
  · rw [hpanics hadmits]
    refine ⟨hsized, fun hanswers => ?_, fun hboth => absurd hboth.1 hadmits⟩
    exact absurd hanswers (not_answers_panic _ _)

theorem changeLevel_spec (h : store.Sized) (collection path : String) (targetLevel : QuantLevel) :
    (host.changeLevel store collection path targetLevel).1.Sized ∧
      (Answers store (host.changeLevel store collection path targetLevel) ↔
        ∀ entry, store.kv.vectors.lookup (vectorKey collection path) = some entry →
          entry.quantLevel ≠ targetLevel →
          store.Admits (store.components entry) targetLevel ∧
            ∀ embedding, recoverEmbedding store.quantizers store.dimension entry =
              .ok (some embedding) → host.GraphAdmits store embedding targetLevel) := by
  unfold changeLevel
  dsimp only
  cases hlookup : store.kv.vectors.lookup (vectorKey collection path) with
  | none =>
      refine ⟨h, fun _ entry hentry => ?_, fun _ => answers_ok _ _⟩
      cases hentry
  | some old =>
      dsimp only
      by_cases hsame : old.quantLevel = targetLevel
      · rw [if_pos hsame]
        refine ⟨h, fun _ entry hentry hdiffers => ?_, fun _ => answers_ok _ _⟩
        cases hentry
        exact absurd hsame hdiffers
      · obtain ⟨hdecodes, embedding, hrecover, hlength⟩ := h.recovers hlookup
        obtain ⟨quantizers, result, hquantize, hbegins, hserves, hfits, hpanics⟩ :=
          h.quantize old embedding targetLevel
        have hsized := h.withQuantizers hbegins hserves
        rw [if_neg hsame, hdecodes, if_neg Bool.false_ne_true, hrecover]
        dsimp only
        rw [hquantize]
        rw [hlength] at hfits hpanics
        by_cases hadmits : store.Admits (store.components old) targetLevel
        · obtain ⟨entry, hresult, hlevel, hcoded⟩ := hfits hadmits
          rw [hresult]
          dsimp only
          have hgraph := host.insertionPanics_eq_false_iff (store.withQuantizers quantizers)
            embedding targetLevel
          cases hinsert : host.insertionPanics (store.withQuantizers quantizers) embedding
              targetLevel with
          | true =>
              rw [if_pos rfl]
              refine ⟨host.afterPanic_sized hsized _ _ _, fun hanswers => ?_, fun hall => ?_⟩
              · exact absurd hanswers (not_answers_panic _ _)
              · rw [hgraph.mpr ((hall old rfl hsame).2 embedding hrecover)] at hinsert
                cases hinsert
          | false =>
              rw [if_neg Bool.false_ne_true]
              refine ⟨?_, fun _ other hother _ => ?_, fun _ => answers_ok _ _⟩
              · have hpersisted := fun cache =>
                  hsized.persisted (vectorKey collection path) embedding cache hcoded
                rw [hlevel] at hpersisted
                exact hpersisted _
              · cases hother
                refine ⟨hadmits, fun recovered hrecovered => ?_⟩
                rw [hrecover] at hrecovered
                cases hrecovered
                exact hgraph.mp hinsert
        · rw [hpanics hadmits]
          refine ⟨hsized, fun hanswers => ?_, fun hall => ?_⟩
          · exact absurd hanswers (not_answers_panic _ _)
          · exact absurd (hall old rfl hsame).1 hadmits

/-! ## Runs -/

variable {format : SnapshotFormat (floatQuantization ar)}

theorem load_sized {order : HashOrder} {files : Table QuantLevel format.File}
    {loaded : FloatStore ar} (h : store.Sized)
    (hload : VectorStore.load format order store.kv files store.dimension store.metric =
      .ok loaded) : loaded.Sized := by
  have hrestored : loaded.kv.vectors = store.kv.vectors ∧
      loaded.quantizers = store.storedQuantizers ∧
      loaded.kv.quantizers = store.kv.quantizers ∧ loaded.dimension = store.dimension := by
    cases hopen : openStore store.kv store.dimension store.metric with
    | error failure =>
        unfold VectorStore.load at hload
        rw [hopen] at hload
        cases hload
    | ok opened =>
        have hopened := openStore_opened hopen
        have hread := loadSnapshots_same files opened
        have hsame : SameStored opened loaded := by
          rw [load_eq hopen] at hload
          split at hload
          · unfold restoreIndexes at hload
            dsimp only at hload
            split at hload
            · cases hload
              exact ⟨hread.kv, hread.vectorEntries, hread.quantizers, hread.dimension, hread.metric⟩
            · have hrebuilt := (rebuild_same hload).1
              exact ⟨hrebuilt.kv.trans hread.kv, hrebuilt.vectorEntries.trans hread.vectorEntries,
                hrebuilt.quantizers.trans hread.quantizers,
                hrebuilt.dimension.trans hread.dimension, hrebuilt.metric.trans hread.metric⟩
          · cases hload
            exact ⟨rfl, rfl, rfl, rfl, rfl⟩
        rw [hsame.kv, hsame.quantizers, hsame.dimension]
        exact ⟨hopened.vectors, hopened.quantizers, hopened.kvQuantizers, hopened.dimension⟩
  obtain ⟨hvectors, hquantizers, hkept, hdimension⟩ := hrestored
  have hstored : loaded.storedQuantizers = store.storedQuantizers := by
    unfold storedQuantizers
    rw [hkept, hdimension]
  refine ⟨?_, ?_, ?_⟩
  · rw [hquantizers, hdimension]
    exact fun quantizer hquantizer => h.serves quantizer (h.stored.subset hquantizer)
  · rw [hstored, hquantizers]
  · rw [hvectors, hstored]
    exact h.coded

theorem removed_sized (h : store.Sized) (collection path : String) :
    (store.remove collection path).Sized := by
  have herased := store.remove_erased collection path
  refine h.change ?_ ?_ (.inl herased.stored) fun key entry hlookup => ?_
  · rw [herased.quantizers, herased.dimension]
    exact h.serves
  · rw [herased.quantizers]
  · rw [herased.vectors, Table.lookup_erase] at hlookup
    split at hlookup
    · cases hlookup
    · exact .inl hlookup

theorem saved_sized (h : store.Sized) (files : Table QuantLevel format.File) :
    (store.save format files).1.Sized := by
  have hsame := save_same format store files
  have hquantizers : (store.save format files).1.quantizers = store.quantizers := by
    unfold VectorStore.save
    dsimp only
    split
    · rfl
    · rfl
  refine h.change ?_ hsame.quantizers hsame.stored fun key entry hlookup => ?_
  · rw [hquantizers, hsame.dimension]
    exact h.serves
  · rw [hsame.vectors] at hlookup
    exact .inl hlookup

theorem occur_sized (session : VectorSession format)
    (event : VectorEvent (floatQuantization ar)) (h : session.store.Sized) :
    (host.occur session event).store.Sized := by
  cases event with
  | call op =>
      cases op with
      | add collection path docid chunkSeq embedding =>
          exact (host.addAtLevel_spec h collection path docid chunkSeq embedding .full).1
      | addAtLevel collection path docid chunkSeq embedding level =>
          exact (host.addAtLevel_spec h collection path docid chunkSeq embedding level).1
      | changeLevel collection path targetLevel =>
          exact (host.changeLevel_spec h collection path targetLevel).1
      | remove collection path =>
          exact removed_sized h collection path
      | save => exact saved_sized h session.files
  | search scoring query order graphSearch collection limit =>
      show (session.occur (.search scoring query order graphSearch collection limit)).store.Sized
      unfold VectorSession.occur
      dsimp only
      cases hsearch : session.store.search scoring query order graphSearch collection limit with
      | error failure => exact h
      | ok searched =>
          obtain ⟨cache, hcache⟩ := searchCandidates_store hsearch
          dsimp only
          rw [hcache]
          exact h.change h.serves (List.prefix_refl _) (.inl rfl) fun _ _ hlookup => .inl hlookup
  | restart order =>
      show (session.occur (.restart order)).store.Sized
      unfold VectorSession.occur
      dsimp only
      cases hload : VectorStore.load format order session.store.kv session.files
          session.store.dimension session.store.metric with
      | error failure => exact h
      | ok loaded => exact load_sized h hload

theorem new_sized (dimension : Nat) (metric : VectorMetric) :
    (VectorStore.new ({} : VectorKv (floatQuantization ar)) dimension metric).Sized where
  serves := fun quantizer hquantizer => by cases hquantizer
  stored := List.prefix_refl _
  coded := fun key entry hlookup => by cases hlookup

theorem runEvents_sized (format : SnapshotFormat (floatQuantization ar)) (dimension : Nat)
    (metric : VectorMetric) (events : List (VectorEvent (floatQuantization ar))) :
    (host.runEvents (VectorSession.new format dimension metric) events).store.Sized := by
  induction events using List.reverseRecOn with
  | nil => exact new_sized dimension metric
  | append_singleton events event ih =>
      rw [runEvents, List.foldl_append]
      exact host.occur_sized _ event ih

/-- Adding a vector or changing its level returns a value or an error and changes nothing with
an error, exactly where the vector fits the quantizer of the level and the graph takes it. -/
theorem insertion_answers_iff (format : SnapshotFormat (floatQuantization ar)) (dimension : Nat)
    (metric : VectorMetric) (events : List (VectorEvent (floatQuantization ar))) :
    let store := (host.runEvents (VectorSession.new format dimension metric) events).store
    (∀ collection path docid chunkSeq embedding level,
      Answers store (host.addAtLevel store collection path docid chunkSeq embedding level) ↔
        store.Admits (List.length embedding) level ∧ host.GraphAdmits store embedding level) ∧
    ∀ collection path targetLevel,
      Answers store (host.changeLevel store collection path targetLevel) ↔
        ∀ entry, store.kv.vectors.lookup (vectorKey collection path) = some entry →
          entry.quantLevel ≠ targetLevel →
          store.Admits (store.components entry) targetLevel ∧
            ∀ embedding, recoverEmbedding store.quantizers store.dimension entry =
              .ok (some embedding) → host.GraphAdmits store embedding targetLevel := by
  intro store
  have hsized := host.runEvents_sized format dimension metric events
  refine ⟨?_, ?_⟩
  · intro collection path docid chunkSeq embedding level
    exact (host.addAtLevel_spec hsized collection path docid chunkSeq embedding level).2
  · intro collection path targetLevel
    exact (host.changeLevel_spec hsized collection path targetLevel).2

end InsertionHost

/-! ## Single floats -/

def float32Arithmetic : FloatArithmetic where
  F := Float32
  literal := fun m e => Float32.ofScientific m true e
  infinity := 1 / 0
  negInfinity := -1 / 0
  nan := 0 / 0
  neg := Neg.neg
  add := (· + ·)
  sub := (· - ·)
  mul := (· * ·)
  div := (· / ·)
  max := fun x y => if y < x || y.isNaN then x else y
  lt := fun x y => x < y
  abs := Float32.abs
  round := Float32.round
  acosh := Float32.acosh
  mulAdd := fun a b c => (a.toFloat * b.toFloat + c.toFloat).toFloat32
  reduceAdd := fun lanes => lanes.foldl (· + ·) 0
  powi := fun x n => Float32.pow x (Float32.ofInt n)
  toU8 := Float32.toUInt8
  toI8 := Float32.toInt8
  ofI8 := fun x => Float32.ofInt x.toInt
  toBits := Float32.toBits
  ofBits := Float32.ofBits

/-- No register kernels, and a graph that evaluates no distance. -/
def scalarHost : InsertionHost float32Arithmetic where
  cpu := { avx512f := false, avx2 := false }
  evaluated := fun _ _ => []
  refuses := fun _ _ _ => false
  leftOver := fun hnsw _ => hnsw

namespace InsertionHost

open VectorStore

/-- A background vector that is shorter than the dimension panics. -/
theorem short_background_vector :
    ¬Answers (VectorStore.new {} 2 .cosine) (scalarHost.addAtLevel (VectorStore.new {} 2 .cosine)
      "docs" "a" "d" 0 [float32Arithmetic.one] .background) := by
  intro h
  have hspec := scalarHost.addAtLevel_spec (new_sized 2 .cosine) "docs" "a" "d" 0
    [float32Arithmetic.one] .background
  have hadmits : 2 ≤ 1 := (hspec.2.mp h).1
  omega

end InsertionHost

end BenShu.Engram
