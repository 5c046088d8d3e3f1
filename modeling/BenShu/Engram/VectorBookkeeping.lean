import BenShu.Engram.VectorStore

/-!
# What a call does to the store

A call leaves the vectors alone, puts one vector under a key or erases one. Every
invariant of the store is read off these three cases.
-/

namespace BenShu.Engram

namespace VectorStore

variable {quant : Quantization} {store store' : VectorStore quant} {key : String}

/-! ## Keys -/

theorem toList_vectorKey (collection path : String) :
    (vectorKey collection path).toList = 'v' :: ':' :: collection.toList ++ ':' :: path.toList := by
  have hkey : vectorKey collection path = "v:" ++ collection ++ ":" ++ path := rfl
  rw [hkey, String.toList_append, String.toList_append, String.toList_append]
  simp

theorem toList_deletedKeyMarker (id : Nat) (key : String) :
    (deletedKeyMarker id key).toList =
      "__deleted__:".toList ++ ((toString id).toList ++ ':' :: key.toList) := by
  have hmarker : deletedKeyMarker id key = "__deleted__:" ++ toString id ++ ":" ++ key := rfl
  rw [hmarker, String.toList_append, String.toList_append, String.toList_append]
  simp

theorem isDeletedKey_marker (id : Nat) (key : String) :
    isDeletedKey (deletedKeyMarker id key) = true := by
  rw [isDeletedKey, Text.startsWith, toList_deletedKeyMarker, List.isPrefixOf_iff_prefix]
  exact List.prefix_append _ _

theorem not_isDeletedKey (collection path : String) :
    ¬isDeletedKey (vectorKey collection path) = true := by
  rw [isDeletedKey, Text.startsWith, toList_vectorKey]
  simp [List.isPrefixOf]

/-! ## The stored vectors in order -/

theorem mem_iterVectors (order : HashOrder) {vectors : Table String (VectorEntry quant)}
    {pair : String × VectorEntry quant} :
    pair ∈ iterVectors order vectors ↔ vectors.lookup pair.1 = some pair.2 := by
  unfold iterVectors
  rw [List.mem_filterMap]
  constructor
  · intro h
    rcases h with ⟨key, -, hpair⟩
    rcases Option.map_eq_some_iff.mp hpair with ⟨entry, hlookup, heq⟩
    rw [← heq]
    exact hlookup
  · intro h
    refine ⟨pair.1, ?_, ?_⟩
    · rw [(order.perm _).mem_iff]
      exact Table.mem_keys_iff.mpr ⟨pair.2, h⟩
    · rw [h]
      rfl

/-! ## The three cases -/

/-- The vectors, slots and points are as before. -/
structure SameVectors (store store' : VectorStore quant) : Prop where
  vectors : store'.kv.vectors = store.kv.vectors
  vectorEntries : store'.vectorEntries = store.vectorEntries
  idMap : store'.idMap = store.idMap
  tombstones : store'.tombstones = store.tombstones
  hnswIndexes : store'.hnswIndexes = store.hnswIndexes
  metric : store'.metric = store.metric
  dimension : store'.dimension = store.dimension
  quantizers : store.quantizers <+: store'.quantizers
  stored : store'.storedQuantizers = store.storedQuantizers ∨
    store'.storedQuantizers = store'.quantizers
  config : store'.kv.config = store.kv.config ∨
    store'.kv.config = some { dimension := store.dimension, metric := store.metric }

def Recoverable (quantizers : Quantizers quant) (entry : VectorEntry quant) : Prop :=
  entry.embedding.isSome = true ∨
    (entry.quantCode.isSome = true ∧ ∃ quantizer, (entry.quantLevel, quantizer) ∈ quantizers)

/-- The entry is under the key, with a new slot and a point of its level. -/
structure Put (store store' : VectorStore quant) (key : String) (entry : VectorEntry quant)
    (embedding : quant.Vec) : Prop where
  vectors : store'.kv.vectors = store.kv.vectors.insert key entry
  vectorEntries : store'.vectorEntries = store.vectorEntries.insert key entry
  idMap : store'.idMap = if store.annContractEnabled
    then SlotMap.retire deletedKeyMarker key store.idMap ++ [key] else store.idMap
  tombstones : store'.tombstones = if store.annContractEnabled
    then store.tombstones ∪ SlotMap.positions key store.idMap else store.tombstones
  hnswIndexes : ∀ level, store'.hnswIndexes.lookup level =
    if store.annContractEnabled ∧ level = entry.quantLevel
    then (store.hnswIndexes.lookup level).map fun hnsw => hnsw ++ [(embedding, store.idMap.length)]
    else store.hnswIndexes.lookup level
  metric : store'.metric = store.metric
  dimension : store'.dimension = store.dimension
  quantizers : store.quantizers <+: store'.quantizers
  stored : store'.storedQuantizers = store'.quantizers
  config : store'.kv.config = some { dimension := store.dimension, metric := store.metric }
  recoverable : Recoverable store'.quantizers entry

structure Erased (store store' : VectorStore quant) (key : String) : Prop where
  vectors : store'.kv.vectors = store.kv.vectors.erase key
  vectorEntries : store'.vectorEntries = store.vectorEntries.erase key
  idMap : store'.idMap = if store.annContractEnabled
    then SlotMap.retire deletedKeyMarker key store.idMap else store.idMap
  tombstones : store'.tombstones = if store.annContractEnabled
    then store.tombstones ∪ SlotMap.positions key store.idMap else store.tombstones
  hnswIndexes : store'.hnswIndexes = store.hnswIndexes
  metric : store'.metric = store.metric
  dimension : store'.dimension = store.dimension
  quantizers : store'.quantizers = store.quantizers
  stored : store'.storedQuantizers = store.storedQuantizers
  config : store'.kv.config = store.kv.config

/-- What a save has stored is still there. -/
structure KeepsSnapshot (store store' : VectorStore quant) : Prop where
  idMap : store'.kv.idMap = store.kv.idMap
  manifest : store'.kv.manifest = store.kv.manifest

/-- Where the document of an entry put under a key comes from: the call, if it has one,
or the entry the key had. -/
def Origin (store : VectorStore quant) (collection path : String) (docid : Option String)
    (entry : VectorEntry quant) : Prop :=
  (docid = some entry.docid ∧ entry.collection = collection ∧ entry.path = path) ∨
    ∃ old, store.kv.vectors.lookup (vectorKey collection path) = some old ∧
      entry.docid = old.docid ∧ entry.collection = old.collection ∧ entry.path = old.path

/-- The vectors are as before, or one was put under the key. -/
def Changed (store store' : VectorStore quant) (collection path : String)
    (docid : Option String) : Prop :=
  (SameVectors store store' ∧ KeepsSnapshot store store') ∨
    ∃ entry embedding, Put store store' (vectorKey collection path) entry embedding ∧
      KeepsSnapshot store store' ∧ Origin store collection path docid entry

/-- What a call for a collection and a path does. -/
inductive Step (store store' : VectorStore quant) (collection path : String)
    (docid : Option String) : Prop where
  | same (h : SameVectors store store') (keeps : KeepsSnapshot store store')
  | put (entry : VectorEntry quant) (embedding : quant.Vec)
      (h : Put store store' (vectorKey collection path) entry embedding)
      (keeps : KeepsSnapshot store store') (origin : Origin store collection path docid entry)
  | erased (h : Erased store store' (vectorKey collection path))
      (keeps : KeepsSnapshot store store')

variable {collection path : String} {docid : Option String}

theorem Step.keeps (h : Step store store' collection path docid) : KeepsSnapshot store store' := by
  cases h with
  | same h keeps => exact keeps
  | put entry embedding h keeps origin => exact keeps
  | erased h keeps => exact keeps

theorem Changed.step (h : Changed store store' collection path docid) :
    Step store store' collection path docid := by
  rcases h with ⟨hsame, hkeeps⟩ | ⟨entry, embedding, hput, hkeeps, horigin⟩
  · exact .same hsame hkeeps
  · exact .put entry embedding hput hkeeps horigin

theorem SameVectors.refl (store : VectorStore quant) : SameVectors store store :=
  ⟨rfl, rfl, rfl, rfl, rfl, rfl, rfl, List.prefix_refl _, .inl rfl, .inl rfl⟩

theorem Changed.refl (store : VectorStore quant) (collection path : String)
    (docid : Option String) : Changed store store collection path docid :=
  .inl ⟨SameVectors.refl store, rfl, rfl⟩

theorem quantizerFor_spec (store : VectorStore quant) (level : QuantLevel)
    (embedding : quant.Vec) :
    SameVectors store (store.quantizerFor level embedding).1 ∧
      (store.quantizerFor level embedding).1.kv = store.kv ∧
      (level, (store.quantizerFor level embedding).2) ∈
        (store.quantizerFor level embedding).1.quantizers := by
  unfold quantizerFor
  cases hfind : store.quantizers.find? fun quantizer => quantizer.1 = level with
  | some found =>
      have hlevel : found.1 = level := by simpa using List.find?_some hfind
      refine ⟨SameVectors.refl store, rfl, ?_⟩
      rw [← hlevel]
      exact List.mem_of_find?_eq_some hfind
  | none =>
      refine ⟨⟨rfl, rfl, rfl, rfl, rfl, rfl, rfl, List.prefix_append _ _, .inl rfl, .inl rfl⟩,
        rfl, ?_⟩
      exact List.mem_append_right _ List.mem_cons_self

theorem quantize_spec (store : VectorStore quant) (entry : VectorEntry quant)
    (embedding : quant.Vec) (level : QuantLevel) :
    SameVectors store (store.quantize entry embedding level).1 ∧
      (store.quantize entry embedding level).1.kv = store.kv ∧
      ∀ entry', (store.quantize entry embedding level).2 = .ok entry' →
        entry'.quantLevel = level ∧ entry'.docid = entry.docid ∧
          entry'.collection = entry.collection ∧ entry'.path = entry.path ∧
          Recoverable (store.quantize entry embedding level).1.quantizers entry' := by
  unfold quantize
  by_cases hfull : level = .full
  · rw [if_pos hfull]
    refine ⟨SameVectors.refl store, rfl, ?_⟩
    intro entry' hok
    cases hok
    exact ⟨rfl, rfl, rfl, rfl, .inl rfl⟩
  · rw [if_neg hfull]
    obtain ⟨hsame, hkv, hmem⟩ := store.quantizerFor_spec level embedding
    cases hencode : (store.quantizerFor level embedding).2.encode embedding with
    | none =>
        simp only [hencode]
        exact ⟨hsame, hkv, by simp⟩
    | some code =>
        simp only [hencode]
        refine ⟨hsame, hkv, ?_⟩
        intro entry' hok
        cases hok
        exact ⟨rfl, rfl, rfl, rfl, .inr ⟨rfl, _, hmem⟩⟩

theorem storedQuantizers_saveMetadata (store : VectorStore quant) :
    store.saveMetadata.storedQuantizers = store.quantizers := by
  have hlookup : (store.kv.quantizers.insert store.dimension store.quantizers).lookup
      store.dimension = some store.quantizers := AList.lookup_insert _
  unfold storedQuantizers saveMetadata
  simp only [saveConfigMetadata, hlookup, Option.getD_some]

theorem updateHnsw_persist (store : VectorStore quant) (key : String) (entry : VectorEntry quant)
    (embedding : quant.Vec) (cache : LruCache String quant.Vec)
    (hrecover : Recoverable store.quantizers entry) :
    Put store ({ (store.updateHnsw key embedding entry.quantLevel).persist key entry with
      decodedCache := cache } : VectorStore quant).saveMetadata key entry embedding := by
  have hstored := storedQuantizers_saveMetadata
    ({ (store.updateHnsw key embedding entry.quantLevel).persist key entry with
      decodedCache := cache } : VectorStore quant)
  unfold updateHnsw at hstored ⊢
  by_cases hann : store.annContractEnabled
  · rw [if_pos hann] at hstored ⊢
    refine ⟨rfl, rfl, ?_, ?_, ?_, rfl, rfl, List.prefix_refl _, hstored, rfl, hrecover⟩
    · rw [if_pos hann]
      rfl
    · rw [if_pos hann]
      rfl
    · intro level
      have hlength : (store.retireKey key).idMap.length = store.idMap.length :=
        SlotMap.length_retire
      show ((store.retireKey key).insertHnswRecord key embedding
        entry.quantLevel).hnswIndexes.lookup level = _
      unfold insertHnswRecord
      dsimp only
      rw [hlength]
      have hindexes : (store.retireKey key).hnswIndexes = store.hnswIndexes := rfl
      rw [hindexes]
      cases hlookup : store.hnswIndexes.lookup entry.quantLevel with
      | none =>
          by_cases hlevel : level = entry.quantLevel
          · subst hlevel
            simp [hlookup]
          · simp [hlevel]
      | some hnsw =>
          dsimp only
          rw [Table.lookup_insert]
          by_cases hlevel : level = entry.quantLevel
          · subst hlevel
            simp [hlookup, hann]
          · simp [hlevel]
  · rw [if_neg hann] at hstored ⊢
    refine ⟨rfl, rfl, ?_, ?_, ?_, rfl, rfl, List.prefix_refl _, hstored, rfl, hrecover⟩
    · rw [if_neg hann]
      rfl
    · rw [if_neg hann]
      rfl
    · intro level
      rw [if_neg fun h => hann h.1]
      rfl

variable {embedding : quant.Vec} {store₁ : VectorStore quant} {entry : VectorEntry quant}

theorem Put.of_same (hsame : SameVectors store store₁) (h : Put store₁ store' key entry embedding) :
    Put store store' key entry embedding := by
  have hann : store₁.annContractEnabled ↔ store.annContractEnabled := by
    unfold annContractEnabled
    rw [hsame.metric]
  obtain ⟨hvectors, hentries, hidMap, htombstones, hindexes, hmetric, hdimension, hquantizers,
    hstored, hconfig, hrecover⟩ := h
  simp only [hann, hsame.vectors, hsame.vectorEntries, hsame.idMap, hsame.tombstones,
    hsame.hnswIndexes, hsame.metric, hsame.dimension] at *
  exact ⟨hvectors, hentries, hidMap, htombstones, hindexes, hmetric, hdimension,
    hsame.quantizers.trans hquantizers, hstored, hconfig, hrecover⟩

theorem updateHnsw_quantizers (store : VectorStore quant) (key : String)
    (embedding : quant.Vec) (level : QuantLevel) :
    (store.updateHnsw key embedding level).quantizers = store.quantizers := by
  unfold updateHnsw
  split
  · rfl
  · rfl

theorem updateHnsw_persist_keeps (hkv : store₁.kv = store.kv) (key : String)
    (entry : VectorEntry quant) (embedding : quant.Vec) (level : QuantLevel)
    (cache : LruCache String quant.Vec) :
    KeepsSnapshot store ({ (store₁.updateHnsw key embedding level).persist key entry with
      decodedCache := cache } : VectorStore quant).saveMetadata := by
  have hidMap : store₁.kv.idMap = store.kv.idMap := by rw [hkv]
  have hmanifest : store₁.kv.manifest = store.kv.manifest := by rw [hkv]
  unfold updateHnsw
  split
  · exact ⟨hidMap, hmanifest⟩
  · exact ⟨hidMap, hmanifest⟩

theorem KeepsSnapshot.of_kv (h : store'.kv = store.kv) : KeepsSnapshot store store' :=
  ⟨by rw [h], by rw [h]⟩

/-- Adding a vector that can be quantized puts the entry under its key. -/
theorem addAtLevel_put {store : VectorStore quant} {collection path docid : String}
    {chunkSeq : Nat} {level : QuantLevel}
    (h : store.quantize (VectorEntry.new quant docid collection path chunkSeq level) embedding
      level = (store₁, .ok entry)) :
    Put store (store.addAtLevel collection path docid chunkSeq embedding level).1
        (vectorKey collection path) entry embedding ∧
      KeepsSnapshot store (store.addAtLevel collection path docid chunkSeq embedding level).1 ∧
      (store.addAtLevel collection path docid chunkSeq embedding level).1.quantizers =
        store₁.quantizers ∧
      (store.addAtLevel collection path docid chunkSeq embedding level).2 = .ok () := by
  obtain ⟨hsame, hkv, hok⟩ := store.quantize_spec
    (VectorEntry.new quant docid collection path chunkSeq level) embedding level
  rw [h] at hsame hkv hok
  obtain ⟨hlevel, -, -, -, hrecover⟩ := hok entry rfl
  have hput := fun cache =>
    store₁.updateHnsw_persist (vectorKey collection path) entry embedding cache hrecover
  rw [hlevel] at hput
  unfold addAtLevel
  dsimp only
  rw [h]
  exact ⟨(hput _).of_same hsame, updateHnsw_persist_keeps hkv _ _ _ _ _,
    store₁.updateHnsw_quantizers _ _ _, rfl⟩

theorem addAtLevel_error {store : VectorStore quant} {collection path docid : String}
    {chunkSeq : Nat} {level : QuantLevel} {failure : VectorFailure}
    (h : store.quantize (VectorEntry.new quant docid collection path chunkSeq level) embedding
      level = (store₁, .error failure)) :
    store.addAtLevel collection path docid chunkSeq embedding level =
      (store₁, .error failure) := by
  unfold addAtLevel
  dsimp only
  rw [h]

theorem addAtLevel_step (store : VectorStore quant) (collection path docid : String)
    (chunkSeq : Nat) (embedding : quant.Vec) (level : QuantLevel) :
    Step store (store.addAtLevel collection path docid chunkSeq embedding level).1 collection path
      (some docid) := by
  obtain ⟨hsame, hkv, hok⟩ := store.quantize_spec
    (VectorEntry.new quant docid collection path chunkSeq level) embedding level
  cases hquantize : store.quantize
      (VectorEntry.new quant docid collection path chunkSeq level) embedding level with
  | mk store₁ result =>
      rw [hquantize] at hsame hkv hok
      cases result with
      | error failure =>
          rw [addAtLevel_error hquantize]
          exact .same hsame (.of_kv hkv)
      | ok entry =>
          obtain ⟨-, hdocid, hcollection, hpath, -⟩ := hok entry rfl
          obtain ⟨hput, hkeeps, -, -⟩ := addAtLevel_put hquantize
          exact .put entry embedding hput hkeeps
            (.inl ⟨congrArg some hdocid.symm, hcollection, hpath⟩)

theorem changeLevel_changed (store : VectorStore quant) (collection path : String)
    (targetLevel : QuantLevel) :
    Changed store (store.changeLevel collection path targetLevel).1 collection path none := by
  unfold changeLevel
  dsimp only
  cases hlookup : store.kv.vectors.lookup (vectorKey collection path) with
  | none => exact Changed.refl store collection path none
  | some old =>
      dsimp only
      by_cases hsameLevel : old.quantLevel = targetLevel
      · rw [if_pos hsameLevel]
        exact Changed.refl store collection path none
      · rw [if_neg hsameLevel]
        cases hrecover : recoverEmbedding store.quantizers store.dimension old with
        | error failure => exact Changed.refl store collection path none
        | ok recovered =>
            cases recovered with
            | none => exact Changed.refl store collection path none
            | some embedding =>
                dsimp only
                obtain ⟨hsame, hkv, hok⟩ := store.quantize_spec old embedding targetLevel
                cases hquantize : store.quantize old embedding targetLevel with
                | mk store₁ result =>
                    rw [hquantize] at hsame hkv hok
                    cases result with
                    | error failure => exact .inl ⟨hsame, .of_kv hkv⟩
                    | ok entry =>
                        obtain ⟨hlevel, hdocid, hcollection, hpath, hrecoverable⟩ := hok entry rfl
                        have hput := fun cache =>
                          store₁.updateHnsw_persist (vectorKey collection path) entry embedding
                            cache hrecoverable
                        rw [hlevel] at hput
                        exact .inr ⟨entry, embedding, (hput _).of_same hsame,
                          updateHnsw_persist_keeps hkv _ _ _ _ _,
                          .inr ⟨old, hlookup, hdocid, hcollection, hpath⟩⟩

theorem changeLevel_step (store : VectorStore quant) (collection path : String)
    (targetLevel : QuantLevel) :
    Step store (store.changeLevel collection path targetLevel).1 collection path none :=
  (store.changeLevel_changed collection path targetLevel).step

theorem remove_erased (store : VectorStore quant) (collection path : String) :
    Erased store (store.remove collection path) (vectorKey collection path) := by
  unfold remove
  dsimp only
  have hann : ∀ kv entries, ({ store with kv := kv, vectorEntries := entries } :
      VectorStore quant).annContractEnabled ↔ store.annContractEnabled := fun _ _ => Iff.rfl
  by_cases h : store.annContractEnabled
  · rw [if_pos ((hann _ _).mpr h)]
    exact ⟨rfl, rfl, by rw [if_pos h]; rfl, by rw [if_pos h]; rfl, rfl, rfl, rfl, rfl, rfl, rfl⟩
  · rw [if_neg fun hcopy => h ((hann _ _).mp hcopy)]
    exact ⟨rfl, rfl, by rw [if_neg h], by rw [if_neg h], rfl, rfl, rfl, rfl, rfl, rfl⟩

theorem remove_step (store : VectorStore quant) (collection path : String) :
    Step store (store.remove collection path) collection path none := by
  have hkeeps : KeepsSnapshot store (store.remove collection path) := by
    unfold remove
    dsimp only
    split
    · exact ⟨rfl, rfl⟩
    · exact ⟨rfl, rfl⟩
  exact .erased (store.remove_erased collection path) hkeeps

theorem save_same (format : SnapshotFormat quant) (store : VectorStore quant)
    (files : Table QuantLevel format.File) : SameVectors store (store.save format files).1 := by
  have hstored := store.storedQuantizers_saveMetadata
  unfold save
  dsimp only
  split
  · exact ⟨rfl, rfl, rfl, rfl, rfl, rfl, rfl, List.prefix_refl _, .inr hstored, .inr rfl⟩
  · exact ⟨rfl, rfl, rfl, rfl, rfl, rfl, rfl, List.prefix_refl _, .inr hstored, .inr rfl⟩

/-! ## The books of the store -/

/-- The stored vectors and the cached entries are the same, under the keys of their
collections and paths, and can be recovered, also after a restart. -/
structure Keyed (store : VectorStore quant) : Prop where
  entries : store.vectorEntries = store.kv.vectors
  keyed : ∀ key entry, store.kv.vectors.lookup key = some entry →
    key = vectorKey entry.collection entry.path
  recoverable : ∀ key entry, store.kv.vectors.lookup key = some entry →
    Recoverable store.quantizers entry
  stored : ∀ key entry, store.kv.vectors.lookup key = some entry →
    Recoverable store.storedQuantizers entry
  config : ∀ key entry, store.kv.vectors.lookup key = some entry →
    store.kv.config = some { dimension := store.dimension, metric := store.metric }

/-- The vectors are keyed, and unless the metric is the inner product, the id map tracks
them. -/
structure Booked (store : VectorStore quant) : Prop extends Keyed store where
  tracks : store.annContractEnabled → SlotMap.Tracks (fun slot => isDeletedKey slot = true)
    store.idMap store.tombstones fun key => key ∈ store.kv.vectors
  marked : ∀ (id : Nat) slot, store.idMap[id]? = some slot → isDeletedKey slot = true →
    ∃ key, slot = deletedKeyMarker id key
  unused : ¬store.annContractEnabled → store.idMap = [] ∧ store.tombstones = ∅

theorem new_booked (dimension : Nat) (metric : VectorMetric) :
    (VectorStore.new ({} : VectorKv quant) dimension metric).Booked where
  entries := rfl
  keyed := by simp [VectorStore.new]
  recoverable := by simp [VectorStore.new]
  stored := by simp [VectorStore.new]
  config := by simp [VectorStore.new]
  tracks := fun _ => SlotMap.Tracks.nil.congr fun name => by simp [VectorStore.new]
  marked := by simp [VectorStore.new]
  unused := fun _ => ⟨rfl, rfl⟩

theorem Recoverable.mono {quantizers quantizers' : Quantizers quant}
    (h : Recoverable quantizers entry) (hbegins : quantizers <+: quantizers') :
    Recoverable quantizers' entry := by
  rcases h with hembedding | ⟨hcode, quantizer, hmem⟩
  · exact .inl hembedding
  · exact .inr ⟨hcode, quantizer, hbegins.subset hmem⟩

theorem SameVectors.ann (h : SameVectors store store') :
    store'.annContractEnabled ↔ store.annContractEnabled := by
  unfold annContractEnabled
  rw [h.metric]

theorem SameVectors.keyed (h : SameVectors store store') (hkeyed : store.Keyed) :
    store'.Keyed where
  entries := by rw [h.vectorEntries, h.vectors, hkeyed.entries]
  keyed := by
    rw [h.vectors]
    exact hkeyed.keyed
  recoverable := by
    rw [h.vectors]
    intro key entry hlookup
    exact (hkeyed.recoverable key entry hlookup).mono h.quantizers
  stored := by
    rw [h.vectors]
    intro key entry hlookup
    rcases h.stored with hstored | hstored
    · rw [hstored]
      exact hkeyed.stored key entry hlookup
    · rw [hstored]
      exact (hkeyed.recoverable key entry hlookup).mono h.quantizers
  config := by
    rw [h.vectors, h.dimension, h.metric]
    intro key entry hlookup
    rcases h.config with hconfig | hconfig
    · rw [hconfig]
      exact hkeyed.config key entry hlookup
    · exact hconfig

theorem SameVectors.booked (h : SameVectors store store') (hbooked : store.Booked) :
    store'.Booked where
  toKeyed := h.keyed hbooked.toKeyed
  tracks := by
    rw [h.ann, h.idMap, h.tombstones, h.vectors]
    exact hbooked.tracks
  marked := by
    rw [h.idMap]
    exact hbooked.marked
  unused := by
    rw [h.ann, h.idMap, h.tombstones]
    exact hbooked.unused

theorem marked_retire {idMap : List String} (key : String)
    (h : ∀ (id : Nat) slot, idMap[id]? = some slot → isDeletedKey slot = true →
      ∃ key, slot = deletedKeyMarker id key) :
    ∀ (id : Nat) slot, (SlotMap.retire deletedKeyMarker key idMap)[id]? = some slot →
      isDeletedKey slot = true → ∃ key, slot = deletedKeyMarker id key := by
  intro id slot hslot hdeleted
  rw [SlotMap.getElem?_retire] at hslot
  rcases Option.map_eq_some_iff.mp hslot with ⟨old, hold, hrenamed⟩
  by_cases heq : old = key
  · rw [if_pos heq] at hrenamed
    exact ⟨key, hrenamed.symm⟩
  · rw [if_neg heq] at hrenamed
    exact h id slot (hrenamed ▸ hold) hdeleted

theorem mem_insert_iff {vectors : Table String (VectorEntry quant)} {other : String} :
    other ∈ vectors.insert key entry ↔ (other ∈ vectors ∧ other ≠ key) ∨
      other = key := by
  rw [AList.mem_insert]
  by_cases h : other = key
  · simp [h]
  · simp [h]

theorem Put.ann (h : Put store store' key entry embedding) :
    store'.annContractEnabled ↔ store.annContractEnabled := by
  unfold annContractEnabled
  rw [h.metric]

theorem Put.recoverable_entries (h : Put store store' key entry embedding) (hkeyed : store.Keyed) :
    ∀ key entry, store'.kv.vectors.lookup key = some entry →
      Recoverable store'.quantizers entry := by
  intro other found hlookup
  rw [h.vectors, Table.lookup_insert] at hlookup
  by_cases hkey : other = key
  · rw [if_pos hkey] at hlookup
    cases hlookup
    exact h.recoverable
  · rw [if_neg hkey] at hlookup
    exact (hkeyed.recoverable other found hlookup).mono h.quantizers

theorem Put.keyed {entry : VectorEntry quant} {embedding : quant.Vec}
    (h : Put store store' (vectorKey collection path) entry embedding)
    (origin : Origin store collection path docid entry) (hkeyed : store.Keyed) : store'.Keyed where
  entries := by rw [h.vectorEntries, h.vectors, hkeyed.entries]
  keyed := by
    intro key other hlookup
    rw [h.vectors, Table.lookup_insert] at hlookup
    by_cases hkey : key = vectorKey collection path
    · rw [if_pos hkey] at hlookup
      cases hlookup
      rcases origin with ⟨-, hcollection, hpath⟩ | ⟨old, hold, -, hcollection, hpath⟩
      · rw [hkey, hcollection, hpath]
      · rw [hkey, hcollection, hpath]
        exact hkeyed.keyed _ old hold
    · rw [if_neg hkey] at hlookup
      exact hkeyed.keyed key other hlookup
  recoverable := h.recoverable_entries hkeyed
  stored := by
    rw [h.stored]
    exact h.recoverable_entries hkeyed
  config := by
    rw [h.dimension, h.metric]
    intro key other hlookup
    exact h.config

theorem Put.booked (h : Put store store' (vectorKey collection path) entry embedding)
    (origin : Origin store collection path docid entry) (hbooked : store.Booked) :
    store'.Booked where
  toKeyed := h.keyed origin hbooked.toKeyed
  tracks := by
    intro hann
    have hbefore := h.ann.mp hann
    rw [h.idMap, h.tombstones, if_pos hbefore, if_pos hbefore, h.vectors]
    have hretired := (hbooked.tracks hbefore).retire
      fun id => isDeletedKey_marker id (vectorKey collection path)
    have hpushed := hretired.push (not_isDeletedKey collection path) fun hlive => hlive.2 rfl
    exact hpushed.congr fun name => mem_insert_iff
  marked := by
    by_cases hann : store.annContractEnabled
    · rw [h.idMap, if_pos hann]
      intro id slot hslot hdeleted
      rw [List.getElem?_append] at hslot
      split at hslot
      · exact marked_retire _ hbooked.marked id slot hslot hdeleted
      · have hnew := List.mem_of_getElem? hslot
        rw [List.mem_singleton.mp hnew] at hdeleted
        exact absurd hdeleted (not_isDeletedKey collection path)
    · rw [h.idMap, if_neg hann]
      exact hbooked.marked
  unused := by
    intro hann
    have hbefore : ¬store.annContractEnabled := fun hstore => hann (h.ann.mpr hstore)
    rw [h.idMap, h.tombstones, if_neg hbefore, if_neg hbefore]
    exact hbooked.unused hbefore

theorem Erased.keyed (h : Erased store store' key) (hkeyed : store.Keyed) : store'.Keyed := by
  have hbefore : ∀ other entry, store'.kv.vectors.lookup other = some entry →
      store.kv.vectors.lookup other = some entry := by
    intro other entry hlookup
    rw [h.vectors, Table.lookup_erase] at hlookup
    split at hlookup
    · cases hlookup
    · exact hlookup
  refine ⟨by rw [h.vectorEntries, h.vectors, hkeyed.entries], ?_, ?_, ?_, ?_⟩
  · intro other entry hlookup
    exact hkeyed.keyed other entry (hbefore other entry hlookup)
  · intro other entry hlookup
    rw [h.quantizers]
    exact hkeyed.recoverable other entry (hbefore other entry hlookup)
  · intro other entry hlookup
    rw [h.stored]
    exact hkeyed.stored other entry (hbefore other entry hlookup)
  · intro other entry hlookup
    rw [h.config, h.dimension, h.metric]
    exact hkeyed.config other entry (hbefore other entry hlookup)

theorem Erased.booked (h : Erased store store' key) (hbooked : store.Booked) : store'.Booked where
  toKeyed := h.keyed hbooked.toKeyed
  tracks := by
    intro hann
    have hbefore : store.annContractEnabled := by
      unfold annContractEnabled at hann ⊢
      rwa [h.metric] at hann
    rw [h.idMap, h.tombstones, if_pos hbefore, if_pos hbefore, h.vectors]
    have hretired := (hbooked.tracks hbefore).retire fun id => isDeletedKey_marker id key
    exact hretired.congr fun name => by rw [AList.mem_erase, and_comm]
  marked := by
    by_cases hann : store.annContractEnabled
    · rw [h.idMap, if_pos hann]
      exact marked_retire key hbooked.marked
    · rw [h.idMap, if_neg hann]
      exact hbooked.marked
  unused := by
    intro hann
    have hbefore : ¬store.annContractEnabled := by
      unfold annContractEnabled at hann ⊢
      rwa [h.metric] at hann
    rw [h.idMap, h.tombstones, if_neg hbefore, if_neg hbefore]
    exact hbooked.unused hbefore

theorem Step.metric (h : Step store store' collection path docid) :
    store'.metric = store.metric := by
  cases h with
  | same h keeps => exact h.metric
  | put entry embedding h keeps origin => exact h.metric
  | erased h keeps => exact h.metric

theorem Step.dimension (h : Step store store' collection path docid) :
    store'.dimension = store.dimension := by
  cases h with
  | same h keeps => exact h.dimension
  | put entry embedding h keeps origin => exact h.dimension
  | erased h keeps => exact h.dimension

theorem Step.config (h : Step store store' collection path docid) :
    store'.kv.config = store.kv.config ∨
      store'.kv.config = some { dimension := store.dimension, metric := store.metric } := by
  cases h with
  | same h keeps => exact h.config
  | put entry embedding h keeps origin => exact .inr h.config
  | erased h keeps => exact .inl h.config

theorem Step.keyed (h : Step store store' collection path docid) (hkeyed : store.Keyed) :
    store'.Keyed := by
  cases h with
  | same h keeps => exact h.keyed hkeyed
  | put entry embedding h keeps origin => exact h.keyed origin hkeyed
  | erased h keeps => exact h.keyed hkeyed

theorem Step.booked (h : Step store store' collection path docid)
    (hbooked : store.Booked) : store'.Booked := by
  cases h with
  | same h keeps => exact h.booked hbooked
  | put entry embedding h keeps origin => exact h.booked origin hbooked
  | erased h keeps => exact h.booked hbooked

/-! ## Keys and slots -/

/-- Unless the metric is the inner product, every cached key has one slot that is
neither renamed nor a tombstone, the tombstones are the slots renamed as deleted, and
the active keys are the stored ones. The inner product uses no slots, and its length
is the number of stored vectors. -/
structure KeysTracked (store : VectorStore quant) : Prop where
  cached : ∀ key, store.vectorEntries.lookup key = store.kv.vectors.lookup key
  slot : store.annContractEnabled → ∀ key, key ∈ store.vectorEntries → ¬isDeletedKey key = true ∧
    ∃ id, store.idMap[id]? = some key ∧ id ∉ store.tombstones ∧
      ∀ other : Nat, store.idMap[other]? = some key → other = id
  tombstones : store.annContractEnabled → ∀ id : Nat, id ∈ store.tombstones ↔
    ∃ key, store.idMap[id]? = some (deletedKeyMarker id key)
  active : store.annContractEnabled → ∀ key,
    (key ∈ store.idMap ∧ ¬isDeletedKey key = true) ↔ key ∈ store.kv.vectors
  exact : ¬store.annContractEnabled →
    store.idMap = [] ∧ store.tombstones = ∅ ∧ store.len = store.kv.vectors.size

theorem Booked.keysTracked (h : store.Booked) : store.KeysTracked where
  cached := by
    intro key
    rw [h.entries]
  slot := by
    intro hann key hkey
    rw [h.entries] at hkey
    have halive := (((h.tracks hann).live_iff key).mp hkey).2
    obtain ⟨id, hslot, htombstone⟩ := (h.tracks hann).slot hkey
    refine ⟨halive, id, hslot, htombstone, ?_⟩
    intro other hother
    exact (h.tracks hann).unique other id key hother hslot halive
  tombstones := by
    intro hann id
    rw [(h.tracks hann).tombstone_iff]
    constructor
    · intro hdead
      rcases hdead with ⟨slot, hslot, hdeleted⟩
      obtain ⟨key, hkey⟩ := h.marked id slot hslot hdeleted
      exact ⟨key, hkey ▸ hslot⟩
    · intro hmarked
      rcases hmarked with ⟨key, hslot⟩
      exact ⟨_, hslot, isDeletedKey_marker id key⟩
  active := by
    intro hann key
    exact ((h.tracks hann).live_iff key).symm
  exact := by
    intro hann
    obtain ⟨hidMap, htombstones⟩ := h.unused hann
    refine ⟨hidMap, htombstones, ?_⟩
    rw [len, if_neg hann, h.entries]

end VectorStore

/-! ## Runs -/

namespace VectorSession

open VectorStore

variable {quant : Quantization} {format : SnapshotFormat quant}

theorem perform_step (session : VectorSession format) (op : VectorOp quant) :
    SameVectors session.store (session.perform op).store ∨
      ∃ collection path, op.target = some (collection, path) ∧
        Step session.store (session.perform op).store collection path op.docid := by
  cases op with
  | add collection path docid chunkSeq embedding =>
      exact .inr ⟨collection, path, rfl, addAtLevel_step _ _ _ _ _ _ _⟩
  | addAtLevel collection path docid chunkSeq embedding level =>
      exact .inr ⟨collection, path, rfl, addAtLevel_step _ _ _ _ _ _ _⟩
  | changeLevel collection path targetLevel =>
      exact .inr ⟨collection, path, rfl, changeLevel_step _ _ _ _⟩
  | remove collection path => exact .inr ⟨collection, path, rfl, remove_step _ _ _⟩
  | save => exact .inl (save_same format session.store session.files)

theorem perform_keyed (session : VectorSession format) (op : VectorOp quant)
    (h : session.store.Keyed) : (session.perform op).store.Keyed := by
  rcases session.perform_step op with hsame | ⟨collection, path, -, hstep⟩
  · exact hsame.keyed h
  · exact hstep.keyed h

theorem perform_booked (session : VectorSession format) (op : VectorOp quant)
    (h : session.store.Booked) : (session.perform op).store.Booked := by
  rcases session.perform_step op with hsame | ⟨collection, path, -, hstep⟩
  · exact hsame.booked h
  · exact hstep.booked h

theorem run_snoc (session : VectorSession format) (ops : List (VectorOp quant))
    (op : VectorOp quant) : session.run (ops ++ [op]) = (session.run ops).perform op := by
  rw [run, List.foldl_append]
  rfl

theorem run_booked (dimension : Nat) (metric : VectorMetric) (ops : List (VectorOp quant)) :
    ((VectorSession.new format dimension metric).run ops).store.Booked := by
  induction ops using List.reverseRecOn with
  | nil => exact new_booked dimension metric
  | append_singleton ops op ih =>
      rw [run_snoc]
      exact perform_booked _ op ih

theorem perform_metric (session : VectorSession format) (op : VectorOp quant) :
    (session.perform op).store.metric = session.store.metric := by
  rcases session.perform_step op with hsame | ⟨collection, path, -, hstep⟩
  · exact hsame.metric
  · exact hstep.metric

theorem run_metric (dimension : Nat) (metric : VectorMetric) (ops : List (VectorOp quant)) :
    ((VectorSession.new format dimension metric).run ops).store.metric = metric := by
  induction ops using List.reverseRecOn with
  | nil => rfl
  | append_singleton ops op ih =>
      rw [run_snoc, perform_metric, ih]

/-- The keys of a store are tracked in every state of a run. -/
theorem run_keysTracked (format : SnapshotFormat quant) (dimension : Nat) (metric : VectorMetric)
    (ops : List (VectorOp quant)) :
    ((VectorSession.new format dimension metric).run ops).store.KeysTracked :=
  (run_booked dimension metric ops).keysTracked

end VectorSession

/-! ## Integer vectors -/

/-- Vectors of integers; coding loses the last bit. -/
def intQuantization : Quantization where
  Vec := List Int
  Code := List Int
  Scalar := Nat
  trainScalar := fun vector _ => vector.length
  encodeScalar := fun dim vector =>
    if vector.length ≤ dim then some (vector.map fun x => x / 2) else none
  decodeScalar := fun _ code => code.map fun x => x * 2
  encodeTernary := fun dim vector =>
    if dim ≤ vector.length then some (vector.map fun x => x.sign) else none
  decodeTernary := fun _ code => code

/-- Graph files that hold the graph; an empty graph has none. -/
def intSnapshots : SnapshotFormat intQuantization where
  File := List (List Int × Nat)
  fileDump := fun hnsw => if hnsw.isEmpty then none else some hnsw
  loadHnsw := some
  sha256 := fun bytes => String.ofList (bytes.map fun byte => Char.ofNat byte.toNat)
  loadDumped := by
    intro hnsw hne
    exact ⟨hnsw, by simp [hne], rfl⟩
  loadEmpty := by simp

namespace VectorSession

/-- The inner product gives a cached key no slot. -/
theorem innerProduct_without_slot :
    ∃ key, key ∈ ((VectorSession.new intSnapshots 2 .innerProduct).run
        [.add "docs" "a" "d" 0 [1, 0]]).store.vectorEntries ∧
      ∀ id : Nat, ((VectorSession.new intSnapshots 2 .innerProduct).run
        [.add "docs" "a" "d" 0 [1, 0]]).store.idMap[id]? ≠ some key := by
  refine ⟨vectorKey "docs" "a", ?_, ?_⟩
  · exact AList.mem_keys.mp (List.mem_cons_self)
  · intro id hslot
    cases hslot

end VectorSession

end BenShu.Engram
