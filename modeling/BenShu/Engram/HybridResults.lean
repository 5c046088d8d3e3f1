import BenShu.Engram.DocumentSearch
import BenShu.Engram.HybridSearch
import BenShu.Engram.RankFusion

/-!
# Hybrid searches

A search fuses the full-text hits with the hits of the vector stream, reads the documents that
only the vector stream found, keeps the best and has them reordered. The searches of one
collection take the full-text hits alone.
-/

namespace BenShu.Engram

variable {quant : Quantization}

structure HybridSearchResult (host : HybridHost quant) (arith : ScoreArithmetic) where
  document : Document
  rrfScore : arith.Score
  bm25Score : Option arith.Score
  vectorScore : Option host.scoring.Score
  rank : Nat := 0

/-- A model that scores and orders the documents of a search anew; it can fail. -/
structure Reranker (host : HybridHost quant) (arith : ScoreArithmetic) where
  rerank : String → List (HybridSearchResult host arith) →
    Option (List (HybridSearchResult host arith))
  reorders : ∀ {query documents reranked}, rerank query documents = some reranked →
    (reranked.map (·.document)).Perm (documents.map (·.document))

/-- The scores of the streams; those of the vectors are in single precision. -/
structure SearchScores (host : HybridHost quant) where
  arith : ScoreArithmetic
  rank : Ranking arith.Score
  toDouble : host.scoring.Score → arith.Score
  toSingle : arith.Score → host.scoring.Score

/-- The part of the configuration that only a search reads. -/
structure RankingConfig (arith : ScoreArithmetic) where
  bm25Weight : arith.Score
  vectorWeight : arith.Score
  rrfK : arith.Score
  useReranker : Bool

/-- What a search meets: a permit or none, the hash order of the fusion, and the reranker
where one is there and loads. -/
structure SearchSetting {host : HybridHost quant} (scores : SearchScores host) extends
    HybridSetting host where
  permit : Bool
  fusedOrder : HashOrder
  reranker : Option (Reranker host scores.arith)

inductive SearchFailure where
  | concurrencyLimit
  | invalidFusion (text : String)
  | engram (error : EngramError)

def splitDocumentKey (key : String) : Option (String × String) :=
  match key.toList.dropWhile (· ≠ ':') with
  | [] => none
  | _ :: path => some (.ofList (key.toList.takeWhile (· ≠ ':')), .ofList path)

def RankingConfig.fusion {arith : ScoreArithmetic} (config : RankingConfig arith) :
    RrfConfig arith :=
  { k := arith.toNat config.rrfK
    bm25Weight := config.bm25Weight
    vectorWeight := config.vectorWeight }

namespace HybridSearchEngine

variable {host : HybridHost quant} (scores : SearchScores host)

def bm25Key {Score : Type} (result : SearchResult Score) : String :=
  documentKey result.document.collection result.document.path

/-- A result for a fused entry: with the document of the full-text hit of its key, or with the
one stored under its key. -/
def fusedResult (store : EngramStore) (bm25Results : List (SearchResult scores.arith.Score))
    (entry : FusedResult scores.arith) : Option (HybridSearchResult host scores.arith) :=
  let result (document : Document) : HybridSearchResult host scores.arith :=
    { document := document
      rrfScore := entry.rrfScore
      bm25Score := (entry.sourceMetadata.lookup "bm25").map (·.2)
      vectorScore := (entry.sourceMetadata.lookup "vector").map fun found =>
        scores.toSingle found.2 }
  match bm25Results.find? fun found => bm25Key found == entry.docid with
  | some found => some (result found.document)
  | none =>
      (splitDocumentKey entry.docid).bind fun parts =>
        (store.getByPath parts.1 parts.2).map result

def bm25Result (found : SearchResult scores.arith.Score) :
    HybridSearchResult host scores.arith :=
  { document := found.document, rrfScore := found.score, bm25Score := some found.score,
    vectorScore := none }

def RanksBefore (left right : scores.arith.Score) : Prop :=
  (scores.arith.partialCmp right left).getD .eq ≠ .gt

instance : DecidableRel (RanksBefore scores) := fun _ _ => inferInstanceAs (Decidable (_ ≠ _))

variable {scores}

def fusedEntries (ranking : RankingConfig scores.arith) (setting : SearchSetting scores)
    (bm25Results : List (SearchResult scores.arith.Score))
    (vectorInput : List (String × host.scoring.Score)) : List (FusedResult scores.arith) :=
  ranking.fusion.fuseHybrid setting.fusedOrder
    (bm25Results.map fun found => (bm25Key found, found.score))
    (vectorInput.map fun hit => (hit.1, scores.toDouble hit.2))

def assembled (store : EngramStore) (ranking : RankingConfig scores.arith)
    (setting : SearchSetting scores) (bm25Results : List (SearchResult scores.arith.Score))
    (vectorInput : List (String × host.scoring.Score)) :
    List (HybridSearchResult host scores.arith) :=
  if vectorInput.isEmpty then bm25Results.map (bm25Result scores)
  else (fusedEntries ranking setting bm25Results vectorInput).filterMap
    (fusedResult scores store bm25Results)

def best (limit : Nat) (results : List (HybridSearchResult host scores.arith)) :
    List (HybridSearchResult host scores.arith) :=
  (results.insertionSort fun left right =>
    RanksBefore scores left.rrfScore right.rrfScore).take limit

/-- What the reranker fails on stays as it is. -/
def reranked (ranking : RankingConfig scores.arith) (setting : SearchSetting scores)
    (query : String) (results : List (HybridSearchResult host scores.arith)) :
    List (HybridSearchResult host scores.arith) :=
  if ranking.useReranker then
    match setting.reranker with
    | some reranker => (reranker.rerank query results).getD results
    | none => results
  else results

def withRanks (results : List (HybridSearchResult host scores.arith)) :
    List (HybridSearchResult host scores.arith) :=
  results.zipIdx.map fun entry => { entry.1 with rank := entry.2 + 1 }

/-- The vector store after the vector stream was asked. -/
def vectorSearched (engine : HybridSearchEngine host) (setting : HybridSetting host)
    (query : String) (limit : Nat) : VectorStore quant :=
  match engine.embed query with
  | none => engine.vectorStore
  | some embedding =>
      match engine.vectorStore.search host.scoring embedding setting.order setting.graphSearch ""
        (limit * 2) with
      | .ok (vectorStore, _) => vectorStore
      | .error _ => engine.vectorStore

def search (engine : HybridSearchEngine host) (ranking : RankingConfig scores.arith)
    (setting : SearchSetting scores) (query : String) (limit : Nat) :
    HybridSearchEngine host ×
      Except SearchFailure (List (HybridSearchResult host scores.arith)) :=
  if !setting.permit then (engine, .error .concurrencyLimit)
  else
    match engine.store.searchFts host.engram scores.rank query (limit * 2) with
    | (store, .error error) => ({ engine with store := store }, .error (.engram error))
    | (store, .ok bm25Results) =>
        let vectorInput := engine.vectorInput setting.toHybridSetting query limit
        let engine := { engine with
          store := store
          vectorStore := engine.vectorSearched setting.toHybridSetting query limit }
        match ranking.fusion.validate with
        | .error text => (engine, .error (.invalidFusion text))
        | .ok () =>
            let results := best limit (assembled store ranking setting bm25Results vectorInput)
            (engine, .ok (withRanks (reranked ranking setting query results)))

/-- The score of a full-text hit is that of its place. -/
def placed (ranking : RankingConfig scores.arith)
    (bm25Results : List (SearchResult scores.arith.Score)) :
    List (HybridSearchResult host scores.arith) :=
  bm25Results.zipIdx.map fun entry =>
    { document := entry.1.document
      rrfScore := scores.arith.divide ranking.bm25Weight
        (scores.arith.add (scores.arith.add ranking.rrfK (scores.arith.ofNat entry.2))
          (scores.arith.ofNat 1))
      bm25Score := some entry.1.score
      vectorScore := none
      rank := entry.2 + 1 }

def searchInCollection (engine : HybridSearchEngine host) (ranking : RankingConfig scores.arith)
    (query collection : String) (limit : Nat) :
    HybridSearchEngine host × Except EngramError (List (HybridSearchResult host scores.arith)) :=
  let (store, found) :=
    engine.store.searchFtsInCollection host.engram scores.rank query collection limit
  ({ engine with store := store }, found.map (placed ranking))

def searchWithPath (engine : HybridSearchEngine host) (ranking : RankingConfig scores.arith)
    (query collection pathPrefix : String) (limit : Nat) :
    HybridSearchEngine host × Except EngramError (List (HybridSearchResult host scores.arith)) :=
  let (store, found) :=
    engine.store.searchFtsWithPath host.engram scores.rank query collection pathPrefix limit
  ({ engine with store := store }, found.map (placed ranking))

end HybridSearchEngine

end BenShu.Engram
