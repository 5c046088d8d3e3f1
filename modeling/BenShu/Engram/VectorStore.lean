import BenShu.Engram.Fts
import BenShu.Lib.SlotMap

/-!
# The vector store

Vectors are kept by key in the key-value store and in memory. Every metric but the
inner product also gives a vector a slot of the id map and a point in the graph of
its level. Floating point, the graph library and its files are parameters.
-/

namespace BenShu.Engram

inductive QuantLevel where
  | full
  | warm
  | cold
  | background
  deriving DecidableEq

def QuantLevel.debug : QuantLevel → String
  | .full => "Full"
  | .warm => "Warm"
  | .cold => "Cold"
  | .background => "Background"

def quantLevels : List QuantLevel := [.full, .warm, .cold, .background]

inductive VectorMetric where
  | cosine
  | l2
  | innerProduct
  | poincare
  deriving DecidableEq

def VectorMetric.debug : VectorMetric → String
  | .cosine => "Cosine"
  | .l2 => "L2"
  | .innerProduct => "InnerProduct"
  | .poincare => "Poincare"

/-- Vectors and their codes. Encoding panics on a vector of another dimension. -/
structure Quantization where
  Vec : Type
  Code : Type
  Scalar : Type
  trainScalar : Vec → QuantLevel → Scalar
  encodeScalar : Scalar → Vec → Option Code
  decodeScalar : Scalar → Code → Vec
  encodeTernary : Nat → Vec → Option Code
  decodeTernary : Nat → Code → Vec

inductive DynamicQuantizer (quant : Quantization) where
  | scalar (quantizer : quant.Scalar)
  | ternary (dim : Nat)

namespace DynamicQuantizer

variable {quant : Quantization}

def encode (vector : quant.Vec) : DynamicQuantizer quant → Option quant.Code
  | .scalar quantizer => quant.encodeScalar quantizer vector
  | .ternary dim => quant.encodeTernary dim vector

def decode (code : quant.Code) : DynamicQuantizer quant → quant.Vec
  | .scalar quantizer => quant.decodeScalar quantizer code
  | .ternary dim => quant.decodeTernary dim code

end DynamicQuantizer

structure VectorEntry (quant : Quantization) where
  docid : String
  collection : String
  path : String
  chunkSeq : Nat
  embedding : Option quant.Vec := none
  quantCode : Option quant.Code := none
  quantLevel : QuantLevel

def VectorEntry.new (quant : Quantization) (docid collection path : String) (chunkSeq : Nat)
    (level : QuantLevel) : VectorEntry quant where
  docid := docid
  collection := collection
  path := path
  chunkSeq := chunkSeq
  quantLevel := level

structure VectorStoreMetadata where
  dimension : Nat
  metric : VectorMetric
  deriving DecidableEq

structure VectorSnapshotManifest where
  contractVersion : Nat
  dimension : Nat
  metric : VectorMetric
  vectorCount : Nat
  idMapLen : Nat
  activeIdCount : Nat
  idMapChecksum : String
  deriving DecidableEq

inductive VectorFailure where
  | panic
  | invalidInput (text : String)
  | retrievalError (text : String)
  deriving DecidableEq

abbrev Hnsw (quant : Quantization) := List (quant.Vec × Nat)

abbrev Quantizers (quant : Quantization) := List (QuantLevel × DynamicQuantizer quant)

/-- What the store keeps in the key-value store; quantizers are kept by dimension. -/
structure VectorKv (quant : Quantization) where
  vectors : Table String (VectorEntry quant) := ∅
  config : Option VectorStoreMetadata := none
  idMap : Option (List String) := none
  manifest : Option VectorSnapshotManifest := none
  quantizers : Table Nat (Quantizers quant) := ∅

/-- The graph files and the hash of the manifest. A graph with points is dumped and
read back; the file of an empty graph, if there is one, is empty or unreadable. -/
structure SnapshotFormat (quant : Quantization) where
  File : Type
  fileDump : Hnsw quant → Option File
  loadHnsw : File → Option (Hnsw quant)
  sha256 : List UInt8 → String
  loadDumped : ∀ hnsw, hnsw ≠ [] → ∃ file, fileDump hnsw = some file ∧ loadHnsw file = some hnsw
  loadEmpty : ∀ file hnsw, fileDump [] = some file → loadHnsw file = some hnsw → hnsw = []

structure VectorStore (quant : Quantization) where
  kv : VectorKv quant
  idMap : List String := []
  quantizers : Quantizers quant := []
  dimension : Nat
  metric : VectorMetric
  hnswIndexes : Table QuantLevel (Hnsw quant)
  vectorEntries : Table String (VectorEntry quant) := ∅
  decodedCache : LruCache String quant.Vec := { capacity := 1000 }
  tombstones : Finset Nat := ∅
  snapshotLoadCount : Nat := 0
  rebuildCount : Nat := 0

def vectorKey (collection path : String) : String := s!"v:{collection}:{path}"

def deletedKeyMarker (id : Nat) (key : String) : String := s!"__deleted__:{id}:{key}"

def isDeletedKey (key : String) : Bool := Text.startsWith key "__deleted__:"

def buildHnswIndexes (quant : Quantization) (metric : VectorMetric) :
    Table QuantLevel (Hnsw quant) :=
  if metric = .innerProduct then ∅
  else quantLevels.foldl (fun indexes level => indexes.insert level []) ∅

/-- The vector an entry stands for, with the quantizers at hand. -/
def recoverEmbedding {quant : Quantization} (quantizers : Quantizers quant) (dimension : Nat)
    (entry : VectorEntry quant) : Except VectorFailure (Option quant.Vec) :=
  match entry.embedding with
  | some embedding => .ok (some embedding)
  | none =>
      match entry.quantCode with
      | none => .ok none
      | some code =>
          match quantizers.find? fun quantizer => quantizer.1 = entry.quantLevel with
          | some (_, quantizer) => .ok (some (quantizer.decode code))
          | none =>
              match entry.quantLevel with
              | .background => .ok (some (quant.decodeTernary dimension code))
              | level =>
                  let name := level.debug
                  .error (.retrievalError
                    s!"Missing quantizer metadata for {name} vector reconstruction")

namespace VectorStore

variable {quant : Quantization}

def new (kv : VectorKv quant) (dimension : Nat) (metric : VectorMetric) : VectorStore quant where
  kv := kv
  dimension := dimension
  metric := metric
  hnswIndexes := buildHnswIndexes quant metric

def annContractEnabled (store : VectorStore quant) : Prop := store.metric ≠ .innerProduct

instance (store : VectorStore quant) : Decidable store.annContractEnabled :=
  inferInstanceAs (Decidable (store.metric ≠ .innerProduct))

def len (store : VectorStore quant) : Nat :=
  if store.annContractEnabled then store.idMap.length else store.vectorEntries.size

/-! ## Metadata -/

def saveConfigMetadata (store : VectorStore quant) : VectorStore quant :=
  let config : VectorStoreMetadata := { dimension := store.dimension, metric := store.metric }
  { store with kv := { store.kv with config := some config } }

def saveMetadata (store : VectorStore quant) : VectorStore quant :=
  let store := store.saveConfigMetadata
  let quantizers := store.kv.quantizers.insert store.dimension store.quantizers
  { store with kv := { store.kv with quantizers := quantizers } }

def storedQuantizers (store : VectorStore quant) : Quantizers quant :=
  (store.kv.quantizers.lookup store.dimension).getD []

/-! ## Changes -/

def retireKey (store : VectorStore quant) (key : String) : VectorStore quant :=
  { store with
    decodedCache := store.decodedCache.pop key
    tombstones := store.tombstones ∪ SlotMap.positions key store.idMap
    idMap := SlotMap.retire deletedKeyMarker key store.idMap }

def insertHnswRecord (store : VectorStore quant) (key : String) (embedding : quant.Vec)
    (level : QuantLevel) : VectorStore quant :=
  let id := store.idMap.length
  let indexes := match store.hnswIndexes.lookup level with
    | some hnsw => store.hnswIndexes.insert level (hnsw ++ [(embedding, id)])
    | none => store.hnswIndexes
  { store with hnswIndexes := indexes, idMap := store.idMap ++ [key] }

/-- The quantizer of a level, trained on the vector if there is none. -/
def quantizerFor (store : VectorStore quant) (level : QuantLevel) (embedding : quant.Vec) :
    VectorStore quant × DynamicQuantizer quant :=
  match store.quantizers.find? fun quantizer => quantizer.1 = level with
  | some (_, quantizer) => (store, quantizer)
  | none =>
      let quantizer : DynamicQuantizer quant := match level with
        | .background => .ternary store.dimension
        | level => .scalar (quant.trainScalar embedding level)
      ({ store with quantizers := store.quantizers ++ [(level, quantizer)] }, quantizer)

/-- Set the vector of an entry at a level. -/
def quantize (store : VectorStore quant) (entry : VectorEntry quant) (embedding : quant.Vec)
    (level : QuantLevel) : VectorStore quant × Except VectorFailure (VectorEntry quant) :=
  if level = .full then
    (store, .ok { entry with embedding := some embedding, quantCode := none, quantLevel := level })
  else
    let (store, quantizer) := store.quantizerFor level embedding
    match quantizer.encode embedding with
    | none => (store, .error .panic)
    | some code =>
        (store, .ok { entry with embedding := none, quantCode := some code, quantLevel := level })

/-- Give the key a new slot and point. -/
def updateHnsw (store : VectorStore quant) (key : String) (embedding : quant.Vec)
    (level : QuantLevel) : VectorStore quant :=
  if store.annContractEnabled then (store.retireKey key).insertHnswRecord key embedding level
  else store

def persist (store : VectorStore quant) (key : String) (entry : VectorEntry quant) :
    VectorStore quant :=
  { store with
    kv := { store.kv with vectors := store.kv.vectors.insert key entry }
    vectorEntries := store.vectorEntries.insert key entry }

def addAtLevel (store : VectorStore quant) (collection path docid : String) (chunkSeq : Nat)
    (embedding : quant.Vec) (level : QuantLevel) :
    VectorStore quant × Except VectorFailure Unit :=
  let key := vectorKey collection path
  let entry := VectorEntry.new quant docid collection path chunkSeq level
  match store.quantize entry embedding level with
  | (store, .error failure) => (store, .error failure)
  | (store, .ok entry) =>
      let store := (store.updateHnsw key embedding level).persist key entry
      let cache := if level = .full then store.decodedCache.put key embedding
        else store.decodedCache.pop key
      (({ store with decodedCache := cache } : VectorStore quant).saveMetadata, .ok ())

def add (store : VectorStore quant) (collection path docid : String) (chunkSeq : Nat)
    (embedding : quant.Vec) : VectorStore quant × Except VectorFailure Unit :=
  store.addAtLevel collection path docid chunkSeq embedding .full

def changeLevel (store : VectorStore quant) (collection path : String)
    (targetLevel : QuantLevel) : VectorStore quant × Except VectorFailure Unit :=
  let key := vectorKey collection path
  match store.kv.vectors.lookup key with
  | none => (store, .ok ())
  | some entry =>
      if entry.quantLevel = targetLevel then (store, .ok ())
      else
        match recoverEmbedding store.quantizers store.dimension entry with
        | .error failure => (store, .error failure)
        | .ok none => (store, .error (.retrievalError "No data found to migrate"))
        | .ok (some embedding) =>
            match store.quantize entry embedding targetLevel with
            | (store, .error failure) => (store, .error failure)
            | (store, .ok entry) =>
                let store := (store.updateHnsw key embedding targetLevel).persist key entry
                (store.saveMetadata, .ok ())

def remove (store : VectorStore quant) (collection path : String) : VectorStore quant :=
  let key := vectorKey collection path
  let store := { store with
    kv := { store.kv with vectors := store.kv.vectors.erase key }
    vectorEntries := store.vectorEntries.erase key }
  if store.annContractEnabled then store.retireKey key
  else { store with decodedCache := store.decodedCache.pop key }

/-! ## Snapshots -/

section

variable (format : SnapshotFormat quant)

def idMapChecksum (entries : List String) : String :=
  format.sha256 (entries.flatMap fun entry => entry.toUTF8.toList ++ [0])

def currentSnapshotManifest (store : VectorStore quant) : VectorSnapshotManifest where
  contractVersion := 1
  dimension := store.dimension
  metric := store.metric
  vectorCount := store.vectorEntries.size
  idMapLen := store.idMap.length
  activeIdCount := (store.idMap.filter fun key => !isDeletedKey key).length
  idMapChecksum := idMapChecksum format store.idMap

def saveSnapshotManifest (store : VectorStore quant) : VectorStore quant :=
  let manifest := store.currentSnapshotManifest format
  { store with kv := { store.kv with manifest := some manifest } }

/-- Dump a graph over its old file; a dump that fails is ignored. -/
def dumpLevel (files : Table QuantLevel format.File) (index : Sigma fun _ : QuantLevel => Hnsw quant) :
    Table QuantLevel format.File :=
  match format.fileDump index.2 with
  | some file => files.insert index.1 file
  | none => files

def save (store : VectorStore quant) (files : Table QuantLevel format.File) :
    VectorStore quant × Table QuantLevel format.File :=
  let store := store.saveMetadata
  if store.annContractEnabled then
    let files := store.hnswIndexes.entries.foldl (dumpLevel format) files
    let store := { store with kv := { store.kv with idMap := some store.idMap } }
    (store.saveSnapshotManifest format, files)
  else (store, files)

def snapshotManifestMatchesKv (store : VectorStore quant) : Bool :=
  match store.kv.manifest with
  | none => false
  | some persisted => decide (persisted = store.currentSnapshotManifest format)

def restoreTombstonesFromIdMap (store : VectorStore quant) : VectorStore quant :=
  { store with
    tombstones := (Finset.range store.idMap.length).filter fun id =>
      (store.idMap[id]?.map isDeletedKey).getD false }

/-- Open the store up to the graphs. -/
def openStore (kv : VectorKv quant) (expectedDimension : Nat) (expectedMetric : VectorMetric) :
    Except VectorFailure (VectorStore quant) := do
  let store ← match kv.config with
    | some persisted =>
        if persisted.dimension ≠ expectedDimension ∨ persisted.metric ≠ expectedMetric then
          let persistedDim := toString persisted.dimension
          let persistedMetric := persisted.metric.debug
          let requestedDim := toString expectedDimension
          let requestedMetric := expectedMetric.debug
          let text := "VectorStore config mismatch: persisted dim=" ++ persistedDim ++ " metric=" ++
            persistedMetric ++ ", requested dim=" ++ requestedDim ++ " metric=" ++ requestedMetric
          .error (.invalidInput text)
        else .ok (new kv persisted.dimension persisted.metric)
    | none => .ok (new kv expectedDimension expectedMetric).saveConfigMetadata
  .ok { store with vectorEntries := kv.vectors, quantizers := store.storedQuantizers }

/-- Read one graph file, if it is there and can be read. -/
def loadLevel (files : Table QuantLevel format.File)
    (loaded : Table QuantLevel (Hnsw quant) × Bool) (level : QuantLevel) :
    Table QuantLevel (Hnsw quant) × Bool :=
  match (files.lookup level).bind format.loadHnsw with
  | some hnsw => (loaded.1.insert level hnsw, true)
  | none => loaded

/-- Read the graph files and, if there was one, the id map. -/
def loadSnapshots (store : VectorStore quant) (files : Table QuantLevel format.File) :
    VectorStore quant × Bool :=
  let (indexes, loadedAny) :=
    quantLevels.foldl (loadLevel format files) (store.hnswIndexes, false)
  let store := { store with hnswIndexes := indexes }
  if loadedAny then
    let idMap := store.kv.idMap.getD store.idMap
    (({ store with idMap := idMap } : VectorStore quant).restoreTombstonesFromIdMap, true)
  else (store, false)

def rebuildStep (store : VectorStore quant) (cached : String × VectorEntry quant) :
    Except VectorFailure (VectorStore quant) :=
  let (key, entry) := cached
  if store.idMap.contains key then .ok store
  else
    let id := store.idMap.length
    let pushed := { store with idMap := store.idMap ++ [key] }
    match store.hnswIndexes.lookup entry.quantLevel with
    | none => .ok pushed
    | some hnsw => do
        match ← recoverEmbedding store.quantizers store.dimension entry with
        | none => .ok pushed
        | some embedding =>
            let indexes := store.hnswIndexes.insert entry.quantLevel (hnsw ++ [(embedding, id)])
            .ok { pushed with hnswIndexes := indexes }

/-- Build the graphs anew from the stored vectors. -/
def rebuild (store : VectorStore quant) (cached : List (String × VectorEntry quant)) :
    Except VectorFailure (VectorStore quant) :=
  cached.foldlM rebuildStep { store with
    idMap := []
    tombstones := ∅
    hnswIndexes := buildHnswIndexes quant store.metric
    rebuildCount := 1
    snapshotLoadCount := 0 }

def iterVectors (order : HashOrder) (vectors : Table String (VectorEntry quant)) :
    List (String × VectorEntry quant) :=
  (order.arrange vectors.keys).filterMap fun key => (vectors.lookup key).map fun entry => (key, entry)

/-- Take the dumped graphs, or build them anew. -/
def restoreIndexes (order : HashOrder) (store : VectorStore quant)
    (files : Table QuantLevel format.File) : Except VectorFailure (VectorStore quant) :=
  let (store, loadedAny) := store.loadSnapshots format files
  if loadedAny && store.snapshotManifestMatchesKv format then
    .ok { store with snapshotLoadCount := 1, rebuildCount := 0 }
  else store.rebuild (iterVectors order store.kv.vectors)

def load (order : HashOrder) (kv : VectorKv quant) (files : Table QuantLevel format.File)
    (expectedDimension : Nat) (expectedMetric : VectorMetric) :
    Except VectorFailure (VectorStore quant) := do
  let store ← openStore kv expectedDimension expectedMetric
  if store.annContractEnabled then store.restoreIndexes format order files else .ok store

end

end VectorStore

/-! ## Runs -/

inductive VectorOp (quant : Quantization) where
  | add (collection path docid : String) (chunkSeq : Nat) (embedding : quant.Vec)
  | addAtLevel (collection path docid : String) (chunkSeq : Nat) (embedding : quant.Vec)
      (level : QuantLevel)
  | changeLevel (collection path : String) (targetLevel : QuantLevel)
  | remove (collection path : String)
  | save

def VectorOp.target {quant : Quantization} : VectorOp quant → Option (String × String)
  | .add collection path _ _ _ => some (collection, path)
  | .addAtLevel collection path _ _ _ _ => some (collection, path)
  | .changeLevel collection path _ => some (collection, path)
  | .remove collection path => some (collection, path)
  | .save => none

/-- The document an adding call gives. -/
def VectorOp.docid {quant : Quantization} : VectorOp quant → Option String
  | .add _ _ docid _ _ => some docid
  | .addAtLevel _ _ docid _ _ _ => some docid
  | .changeLevel _ _ _ => none
  | .remove _ _ => none
  | .save => none

/-- A store with the directory it saves to, and the store as it was last saved. -/
structure VectorSession {quant : Quantization} (format : SnapshotFormat quant) where
  store : VectorStore quant
  files : Table QuantLevel format.File := ∅
  lastSave : Option (VectorStore quant) := none

namespace VectorSession

variable {quant : Quantization} {format : SnapshotFormat quant}

def new (format : SnapshotFormat quant) (dimension : Nat) (metric : VectorMetric) :
    VectorSession format where
  store := VectorStore.new {} dimension metric

/-- A call that fails leaves the store as it found it or with one more quantizer. -/
def perform (session : VectorSession format) : VectorOp quant → VectorSession format
  | .add collection path docid chunkSeq embedding =>
      { session with store := (session.store.add collection path docid chunkSeq embedding).1 }
  | .addAtLevel collection path docid chunkSeq embedding level =>
      let store := (session.store.addAtLevel collection path docid chunkSeq embedding level).1
      { session with store := store }
  | .changeLevel collection path targetLevel =>
      { session with store := (session.store.changeLevel collection path targetLevel).1 }
  | .remove collection path => { session with store := session.store.remove collection path }
  | .save =>
      let saved := session.store.save format session.files
      { store := saved.1, files := saved.2, lastSave := some saved.1 }

def run (session : VectorSession format) (ops : List (VectorOp quant)) : VectorSession format :=
  ops.foldl perform session

end VectorSession

end BenShu.Engram
