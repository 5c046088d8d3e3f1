import BenShu.Engram.Fts

/-!
# Reciprocal rank fusion

Ranked streams are fused to one ranking: a document gets a share of the weight of each stream
that ranks it. The arithmetic of the scores is a parameter.
-/

namespace BenShu.Engram

/-- What is computed with scores in double precision. -/
structure ScoreArithmetic where
  Score : Type
  zero : Score
  add : Score → Score → Score
  divide : Score → Score → Score
  ofNat : Nat → Score
  /-- `as usize`. -/
  toNat : Score → Nat
  isNegative : Score → Bool
  partialCmp : Score → Score → Option Ordering

structure RrfConfig (arith : ScoreArithmetic) where
  k : Nat
  bm25Weight : arith.Score
  vectorWeight : arith.Score

structure RankedStream (arith : ScoreArithmetic) where
  name : String
  weight : arith.Score
  results : List (String × arith.Score)

/-- The metadata has the place and the score of the document in each stream. -/
structure FusedResult (arith : ScoreArithmetic) where
  docid : String
  rrfScore : arith.Score
  sourceMetadata : Table String (Nat × arith.Score) := ∅

variable {arith : ScoreArithmetic}

def RrfConfig.validate (config : RrfConfig arith) : Except String Unit :=
  if config.k = 0 then .error "RRF constant 'k' must be greater than 0"
  else if arith.isNegative config.bm25Weight || arith.isNegative config.vectorWeight then
    .error "Weights must be non-negative"
  else .ok ()

def FusedResult.isHybrid (result : FusedResult arith) : Bool :=
  (result.sourceMetadata.lookup "bm25").isSome && (result.sourceMetadata.lookup "vector").isSome

/-- A higher score comes first, then what both streams rank, then the smaller id. -/
def FusedResult.compare (left right : FusedResult arith) : Ordering :=
  ((arith.partialCmp right.rrfScore left.rrfScore).getD .eq).then
    ((Ord.compare right.isHybrid.toNat left.isHybrid.toNat).then
      (Ord.compare left.docid right.docid))

namespace RrfConfig

variable (config : RrfConfig arith)

/-- A second entry of a document in one stream is skipped. -/
def fuseEntry (stream : RankedStream arith) (builders : Table String (FusedResult arith))
    (entry : (String × arith.Score) × Nat) : Table String (FusedResult arith) :=
  let ((docid, score), rank) := entry
  let rrfContribution := arith.divide stream.weight (arith.ofNat (config.k + rank + 1))
  let builder := (builders.lookup docid).getD { docid := docid, rrfScore := arith.zero }
  if (builder.sourceMetadata.lookup stream.name).isSome then builders.insert docid builder
  else builders.insert docid
    { builder with
      rrfScore := arith.add builder.rrfScore rrfContribution
      sourceMetadata := builder.sourceMetadata.insert stream.name (rank, score) }

def fuseStream (builders : Table String (FusedResult arith)) (stream : RankedStream arith) :
    Table String (FusedResult arith) :=
  stream.results.zipIdx.foldl (config.fuseEntry stream) builders

def fuse (order : HashOrder) (streams : List (RankedStream arith)) : List (FusedResult arith) :=
  let builders := streams.foldl config.fuseStream ∅
  ((order.arrange builders.keys).filterMap builders.lookup).insertionSort
    fun left right => left.compare right ≠ .gt

def fuseHybrid (order : HashOrder) (bm25 vector : List (String × arith.Score)) :
    List (FusedResult arith) :=
  config.fuse order
    [{ name := "bm25", weight := config.bm25Weight, results := bm25 },
      { name := "vector", weight := config.vectorWeight, results := vector }]

/-! ## What is fused -/

/-- The builders have the documents of the streams, each under its id. -/
structure Fused (seen : String → Prop) (builders : Table String (FusedResult arith)) : Prop where
  keyed : ∀ key builder, builders.lookup key = some builder → builder.docid = key
  covers : ∀ key, key ∈ builders ↔ seen key

variable (stream : RankedStream arith) {seen : String → Prop}
  {builders : Table String (FusedResult arith)}

theorem Fused.empty : Fused (fun _ => False) (∅ : Table String (FusedResult arith)) where
  keyed key builder hlookup := by cases hlookup
  covers key := iff_of_false (AList.notMem_empty key) id

theorem Fused.fuseEntry (h : Fused seen builders) (entry : (String × arith.Score) × Nat) :
    Fused (fun key => key = entry.1.1 ∨ seen key) (config.fuseEntry stream builders entry) := by
  obtain ⟨⟨docid, score⟩, rank⟩ := entry
  have hbuilder : ((builders.lookup docid).getD
      { docid := docid, rrfScore := arith.zero }).docid = docid := by
    rcases hlookup : builders.lookup docid with _ | builder
    · rfl
    · exact h.keyed docid builder hlookup
  have hinsert : ∀ builder : FusedResult arith, builder.docid = docid →
      Fused (fun key => key = docid ∨ seen key) (builders.insert docid builder) := by
    intro builder hid
    refine ⟨fun key found hfound => ?_, fun key => ?_⟩
    · rw [Table.lookup_insert] at hfound
      split_ifs at hfound with hkey
      · cases hfound
        rw [hid, hkey]
      · exact h.keyed key found hfound
    · rw [AList.mem_insert, h.covers key]
  unfold RrfConfig.fuseEntry
  dsimp only
  split_ifs
  · exact hinsert _ hbuilder
  · exact hinsert _ hbuilder

theorem Fused.foldl_fuseEntry (h : Fused seen builders)
    (entries : List ((String × arith.Score) × Nat)) :
    Fused (fun key => key ∈ entries.map (fun entry => entry.1.1) ∨ seen key)
      (entries.foldl (config.fuseEntry stream) builders) := by
  induction entries generalizing seen builders with
  | nil => simpa using h
  | cons entry entries ih =>
      have hrest := ih (Fused.fuseEntry config stream h entry)
      refine ⟨hrest.keyed, fun key => (hrest.covers key).trans ?_⟩
      rw [List.map_cons, List.mem_cons]
      tauto

theorem Fused.fuseStream (h : Fused seen builders) :
    Fused (fun key => key ∈ stream.results.map Prod.fst ∨ seen key)
      (config.fuseStream builders stream) := by
  have hstream := Fused.foldl_fuseEntry config stream h stream.results.zipIdx
  have hkeys : stream.results.zipIdx.map (fun entry => entry.1.1) =
      stream.results.map Prod.fst := by
    rw [← List.zipIdx_map_fst 0 stream.results, List.map_map, List.zipIdx_map_fst]
    rfl
  rwa [hkeys] at hstream

variable {config}

theorem mem_fuseHybrid {order : HashOrder} {bm25 vector : List (String × arith.Score)}
    {result : FusedResult arith} (h : result ∈ config.fuseHybrid order bm25 vector) :
    result.docid ∈ bm25.map Prod.fst ∨ result.docid ∈ vector.map Prod.fst := by
  have hfused := Fused.fuseStream config
    { name := "vector", weight := config.vectorWeight, results := vector }
    (Fused.fuseStream config
      { name := "bm25", weight := config.bm25Weight, results := bm25 } Fused.empty)
  unfold fuseHybrid fuse at h
  rw [List.mem_insertionSort, List.mem_filterMap] at h
  obtain ⟨key, -, hlookup⟩ := h
  rw [List.foldl_cons, List.foldl_cons, List.foldl_nil] at hlookup
  rw [hfused.keyed key result hlookup]
  rcases (hfused.covers key).mp (AList.lookup_isSome.mp (by rw [hlookup]; rfl)) with hvector | hbm25 | hnone
  · exact .inr hvector
  · exact .inl hbm25
  · exact hnone.elim

end RrfConfig

end BenShu.Engram
