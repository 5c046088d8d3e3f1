import BenShu.Engram.EngramStore
import BenShu.Engram.VectorSearch

/-!
# The hybrid search engine

The engine indexes a document in the vector store and in the document store, one
after the other. A vector is left out when the content is taken for a duplicate.
The embedding model is a parameter.
-/

namespace BenShu.Engram

structure HybridSearchConfig (Score : Type) where
  useVector : Bool := true
  enableSemanticDedup : Bool := true
  dedupThreshold : Score

/-- What the engine takes from its host; embedding can fail. -/
structure HybridHost (quant : Quantization) where
  scoring : Scoring quant
  embedder : String → Option quant.Vec
  engram : EngramHost

structure HybridSetting {quant : Quantization} (host : HybridHost quant) extends CallSetting where
  graphSearch : GraphSearch host.scoring

structure HybridSearchEngine {quant : Quantization} (host : HybridHost quant) where
  store : EngramStore := {}
  vectorStore : VectorStore quant
  config : HybridSearchConfig host.scoring.Score

namespace HybridSearchEngine

variable {quant : Quantization} {host : HybridHost quant}

def new (config : HybridSearchConfig host.scoring.Score) (dimension : Nat)
    (metric : VectorMetric) : HybridSearchEngine host where
  vectorStore := VectorStore.new {} dimension metric
  config := config

def embed (engine : HybridSearchEngine host) (text : String) : Option quant.Vec :=
  if engine.config.useVector then host.embedder text else none

/-! ## Searching -/

def vectorHits (found : Except VectorFailure
    (VectorStore quant × List (VectorSearchResult host.scoring.Score))) :
    List (String × host.scoring.Score) :=
  match found with
  | .ok (_, results) =>
      results.map fun result => (documentKey result.collection result.path, result.score)
  | .error _ => []

/-- The vector stream of a search without a collection. -/
def vectorInput (engine : HybridSearchEngine host) (setting : HybridSetting host)
    (query : String) (limit : Nat) : List (String × host.scoring.Score) :=
  if engine.config.useVector then
    match engine.embed query with
    | some embedding =>
        vectorHits (engine.vectorStore.search host.scoring embedding setting.order
          setting.graphSearch "" (limit * 2))
    | none => []
  else []

/-! ## Indexing -/

section

variable (setting : HybridSetting host)

def atLeast (score threshold : host.scoring.Score) : Bool :=
  match host.scoring.partialCmp score threshold with
  | some .lt => false
  | some _ => true
  | none => false

/-- A content is a duplicate if its body is stored, or if one of the three nearest
vectors of the collection is near enough. -/
def isSemanticDuplicate (engine : HybridSearchEngine host) (collection : String)
    (embedding : quant.Vec) (content : String) :
    Except VectorFailure (HybridSearchEngine host × Bool) :=
  if !engine.config.enableSemanticDedup then .ok (engine, false)
  else if (engine.store.contents.lookup (host.engram.hashContent content)).isSome then
    .ok (engine, true)
  else do
    let (vectorStore, results) ← engine.vectorStore.search host.scoring embedding setting.order
      setting.graphSearch collection 3
    .ok ({ engine with vectorStore := vectorStore },
      results.any fun result => atLeast result.score engine.config.dedupThreshold)

def checkDuplicate (engine : HybridSearchEngine host) (collection : String)
    (embedding : quant.Vec) (content : String) : HybridSearchEngine host × Bool :=
  match engine.isSemanticDuplicate setting collection embedding content with
  | .ok checked => checked
  | .error _ => (engine, false)

/-- The vector part of indexing: a duplicate gets no vector. -/
def indexVector (engine : HybridSearchEngine host) (collection path title content : String)
    (level : QuantLevel) : HybridSearchEngine host × Except VectorFailure Unit :=
  match engine.embed content with
  | none => (engine, .ok ())
  | some embedding =>
      let (engine, isDuplicate) := engine.checkDuplicate setting collection embedding content
      if isDuplicate then (engine, .ok ())
      else
        let (vectorStore, added) :=
          engine.vectorStore.addAtLevel collection path title 0 embedding level
        ({ engine with vectorStore := vectorStore }, added)

def indexAtLevel (engine : HybridSearchEngine host) (collection path title content : String)
    (level : QuantLevel) (unverified : Bool) (metadata : Table String String) :
    HybridSearchEngine host × Except EngramError Unit :=
  match engine.indexVector setting collection path title content level with
  | (engine, .error failure) => (engine, .error (.retrieval failure))
  | (engine, .ok ()) =>
      let (store, stored) := engine.store.storeDocument host.engram setting.toCallSetting
        collection path title content unverified metadata
      ({ engine with store := store }, stored.map fun _ => ())

def deleteDocument (engine : HybridSearchEngine host) (collection path : String) :
    HybridSearchEngine host :=
  { engine with
    vectorStore := engine.vectorStore.remove collection path
    store := engine.store.deleteDocument host.engram setting.toCallSetting collection path }

def replaceDocumentContent (engine : HybridSearchEngine host)
    (collection path title content : String) (metadata : Table String String) :
    HybridSearchEngine host × Except EngramError Document :=
  let engine := { engine with vectorStore := engine.vectorStore.remove collection path }
  match engine.indexAtLevel setting collection path title content .warm false metadata with
  | (engine, .error failure) => (engine, .error failure)
  | (engine, .ok ()) =>
      match engine.store.getByPath collection path with
      | some doc => (engine, .ok doc)
      | none => (engine, .error (.notFound (documentKey collection path)))

end

end HybridSearchEngine

def wordHybridHost : HybridHost intQuantization where
  scoring := intScoring
  embedder := fun text => some (if text.length % 2 = 0 then [1, 0] else [0, 1])
  engram := { hashContent := id, fts := wordHost }

def wordSetting : HybridSetting wordHybridHost where
  nowMs := 0
  order := .same
  graphSearch := everyPoint

end BenShu.Engram
