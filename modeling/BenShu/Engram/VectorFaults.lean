import BenShu.Engram.VectorCompleteness
import BenShu.Lib.FaultPoints

/-!
# Updates that fail on the way

The update of a vector is a sequence of changes in memory and of operations of the key-value
store. Any of the operations may fail, and then the update stops with what is done so far.
-/

namespace BenShu.Engram

namespace VectorStore

variable {quant : Quantization}

/-! ## The operations -/

abbrev VectorProgram (quant : Quantization) (α : Type) : Type :=
  Faulty (VectorStore quant) VectorFailure α

def getVector (key : String) : VectorProgram quant (Option (VectorEntry quant)) :=
  .call fun store => (store.kv.vectors.lookup key, store)

def putVector (key : String) (entry : VectorEntry quant) : VectorProgram quant Unit :=
  .call fun store =>
    ((), { store with kv := { store.kv with vectors := store.kv.vectors.insert key entry } })

def putIdx (_id : Nat) (_slot : String) : VectorProgram quant Unit :=
  .call fun store => ((), store)

def putConfig : VectorProgram quant Unit := .call fun store => ((), store.saveConfigMetadata)

def putQuantizers : VectorProgram quant Unit := .call fun store =>
  let quantizers := store.kv.quantizers.insert store.dimension store.quantizers
  ((), { store with kv := { store.kv with quantizers := quantizers } })

def saveMetadataProgram : VectorProgram quant Unit := do
  putConfig
  putQuantizers

def slotsOf (key : String) (idMap : List String) : List Nat :=
  (List.range idMap.length).filter fun id => idMap[id]? = some key

def renameSlot (key : String) (idMap : List String) (id : Nat) : List String :=
  idMap.set id (deletedKeyMarker id key)

def retireSlot (key : String) (id : Nat) : VectorProgram quant Unit := do
  .update fun store => ((), { store with idMap := renameSlot key store.idMap id })
  putIdx id (deletedKeyMarker id key)

def retireKeyProgram (key : String) : VectorProgram quant Unit := do
  .update fun store => ((), { store with decodedCache := store.decodedCache.pop key })
  let slots ← .update fun store => (slotsOf key store.idMap, store)
  if slots.isEmpty then return ()
  else do
    .update fun store => ((), { store with tombstones := store.tombstones ∪ slots.toFinset })
    .forEach (retireSlot key) slots

def insertHnswProgram (key : String) (embedding : quant.Vec) (level : QuantLevel) :
    VectorProgram quant Unit := do
  let id ← .update fun store => (store.idMap.length, store)
  match ← .update fun store => (store.hnswIndexes.lookup level, store) with
  | some hnsw =>
      .update fun store =>
        let indexes := store.hnswIndexes.insert level (hnsw ++ [(embedding, id)])
        ((), { store with hnswIndexes := indexes })
      putIdx id key
  | none => pure ()
  .update fun store => ((), { store with idMap := store.idMap ++ [key] })

def updateHnswProgram (key : String) (embedding : quant.Vec) (level : QuantLevel) :
    VectorProgram quant Unit := do
  if (← .update fun store => (decide store.annContractEnabled, store)) then
    retireKeyProgram key
    insertHnswProgram key embedding level
  else return ()

def quantizeProgram (entry : VectorEntry quant) (embedding : quant.Vec) (level : QuantLevel) :
    VectorProgram quant (VectorEntry quant) :=
  .attempt fun store => store.quantize entry embedding level

/-- Store an entry with its vector at a level, and change the cache. -/
def storeEntry (key : String) (embedding : quant.Vec) (level : QuantLevel)
    (recache : LruCache String quant.Vec → LruCache String quant.Vec)
    (entry : VectorEntry quant) : VectorProgram quant Unit := do
  updateHnswProgram key embedding level
  putVector key entry
  .update fun store => ((), { store with vectorEntries := store.vectorEntries.insert key entry })
  .update fun store => ((), { store with decodedCache := recache store.decodedCache })
  saveMetadataProgram

/-- A vector as it is stays in the cache, another is decoded when it is asked for. -/
def recacheAdded (key : String) (embedding : quant.Vec) (level : QuantLevel)
    (cache : LruCache String quant.Vec) : LruCache String quant.Vec :=
  if level = .full then cache.put key embedding else cache.pop key

def addAtLevelProgram (collection path docid : String) (chunkSeq : Nat) (embedding : quant.Vec)
    (level : QuantLevel) : VectorProgram quant Unit := do
  let key := vectorKey collection path
  let entry ← quantizeProgram (VectorEntry.new quant docid collection path chunkSeq level)
    embedding level
  storeEntry key embedding level (recacheAdded key embedding level) entry

def migrate (key : String) (targetLevel : QuantLevel) (entry : VectorEntry quant) :
    VectorProgram quant Unit := do
  let recovered ← .attempt fun store =>
    (store, recoverEmbedding store.quantizers store.dimension entry)
  match recovered with
  | none => .fail (.retrievalError "No data found to migrate")
  | some embedding => do
      let entry ← quantizeProgram entry embedding targetLevel
      storeEntry key embedding targetLevel id entry

def changeLevelProgram (collection path : String) (targetLevel : QuantLevel) :
    VectorProgram quant Unit := do
  let key := vectorKey collection path
  match ← getVector key with
  | none => return ()
  | some entry =>
      if entry.quantLevel = targetLevel then return () else migrate key targetLevel entry

/-! ## Without a failure -/

section

variable {store : VectorStore quant} {key : String} {embedding : quant.Vec} {level : QuantLevel}

theorem foldl_renameSlot (key : String) (idMap : List String) :
    (slotsOf key idMap).foldl (renameSlot key) idMap =
      SlotMap.retire deletedKeyMarker key idMap := by
  have hget : ∀ (slots : List Nat) (idMap : List String) (id : Nat),
      (slots.foldl (renameSlot key) idMap)[id]? =
        idMap[id]?.map fun slot => if id ∈ slots then deletedKeyMarker id key else slot := by
    intro slots
    induction slots with
    | nil => simp
    | cons first slots ih =>
        intro idMap id
        rw [List.foldl_cons, ih, renameSlot, List.getElem?_set]
        by_cases hfirst : first = id
        · subst hfirst
          cases hslot : idMap[first]? with
          | none => simp [List.getElem?_eq_none_iff.mp hslot]
          | some slot => simp [(List.getElem?_eq_some_iff.mp hslot).1]
        · have hne : id ≠ first := fun heq => hfirst heq.symm
          simp [hfirst, hne]
  apply List.ext_getElem?
  intro id
  rw [hget, SlotMap.getElem?_retire]
  cases hslot : idMap[id]? with
  | none => rfl
  | some slot =>
      obtain ⟨hlt, heq⟩ := List.getElem?_eq_some_iff.mp hslot
      simp [slotsOf, hlt, heq]

theorem toFinset_slotsOf (key : String) (idMap : List String) :
    (slotsOf key idMap).toFinset = SlotMap.positions key idMap := by
  ext id
  rw [SlotMap.mem_positions, List.mem_toFinset, slotsOf, List.mem_filter, List.mem_range,
    decide_eq_true_iff]
  constructor
  · intro h
    exact h.2
  · intro h
    exact ⟨(List.getElem?_eq_some_iff.mp h).1, h⟩

theorem foldl_renameStore (key : String) (slots : List Nat) (store : VectorStore quant) :
    slots.foldl (fun store id => { store with idMap := renameSlot key store.idMap id }) store =
      { store with idMap := slots.foldl (renameSlot key) store.idMap } := by
  induction slots generalizing store with
  | nil => rfl
  | cons id slots ih =>
      rw [List.foldl_cons, ih]
      rfl

theorem outcome_retireSlot (key : String) (id : Nat) (store : VectorStore quant) :
    (retireSlot key id).outcome store =
      .ok ((), { store with idMap := renameSlot key store.idMap id }) := rfl

theorem outcome_retireKeyProgram (key : String) (store : VectorStore quant) :
    (retireKeyProgram key).outcome store = .ok ((), store.retireKey key) := by
  have hslots := toFinset_slotsOf key store.idMap
  have hrenamed := foldl_renameSlot key store.idMap
  unfold retireKeyProgram retireKey
  rw [Faulty.outcome_bind, Faulty.outcome_update]
  dsimp only [Except.bind]
  rw [Faulty.outcome_bind, Faulty.outcome_update]
  dsimp only [Except.bind]
  by_cases hnone : (slotsOf key store.idMap).isEmpty = true
  · rw [List.isEmpty_iff] at hnone
    rw [hnone] at hslots hrenamed
    rw [← hslots, ← hrenamed, hnone]
    simp
  · rw [if_neg hnone, Faulty.outcome_bind, Faulty.outcome_update]
    dsimp only [Except.bind]
    rw [Faulty.outcome_forEach (outcome_retireSlot key), foldl_renameStore]
    dsimp only
    rw [hslots, hrenamed]

theorem outcome_insertHnswProgram (key : String) (embedding : quant.Vec) (level : QuantLevel)
    (store : VectorStore quant) :
    (insertHnswProgram key embedding level).outcome store =
      .ok ((), store.insertHnswRecord key embedding level) := by
  unfold insertHnswProgram insertHnswRecord
  rw [Faulty.outcome_bind, Faulty.outcome_update]
  dsimp only [Except.bind]
  rw [Faulty.outcome_bind, Faulty.outcome_update]
  dsimp only [Except.bind]
  cases store.hnswIndexes.lookup level with
  | none => rfl
  | some hnsw => rfl

theorem outcome_updateHnswProgram (key : String) (embedding : quant.Vec) (level : QuantLevel)
    (store : VectorStore quant) :
    (updateHnswProgram key embedding level).outcome store =
      .ok ((), store.updateHnsw key embedding level) := by
  unfold updateHnswProgram updateHnsw
  rw [Faulty.outcome_bind, Faulty.outcome_update]
  dsimp only [Except.bind]
  by_cases hann : store.annContractEnabled
  · rw [if_pos hann, if_pos (decide_eq_true hann), Faulty.outcome_bind, outcome_retireKeyProgram]
    exact outcome_insertHnswProgram key embedding level _
  · rw [if_neg hann, if_neg (by simp [hann])]
    rfl

variable {recache : LruCache String quant.Vec → LruCache String quant.Vec}

end

end VectorStore

/-! ## Updates of a vector -/

inductive VectorUpdate (quant : Quantization) where
  | addAtLevel (collection path docid : String) (chunkSeq : Nat) (embedding : quant.Vec)
      (level : QuantLevel)
  | changeLevel (collection path : String) (targetLevel : QuantLevel)

namespace VectorStore

variable {quant : Quantization}

/-- Every search of the collection of an entry that has room for all vectors finds it. -/
def Finds (store : VectorStore quant) (entry : VectorEntry quant) : Prop :=
  ∀ (scoring : Scoring quant) query order (graphSearch : GraphSearch scoring) limit,
    Answers graphSearch → store.vectorEntries.size ≤ limit →
      ∃ searched results score,
        search scoring store query order graphSearch entry.collection limit =
          .ok (searched, results) ∧ resultOf scoring entry score ∈ results

/-- The entry map, the active slots, the tombstones and the stored vector of the key are what
they were, and its entry is found as before. -/
structure StillDescribes (store store' : VectorStore quant) (key : String)
    (old : VectorEntry quant) : Prop where
  entry : store'.vectorEntries.lookup key = store.vectorEntries.lookup key
  slot : SlotMap.positions key store'.idMap = SlotMap.positions key store.idMap
  tombstones : store'.tombstones = store.tombstones
  vector : store'.kv.vectors.lookup key = store.kv.vectors.lookup key
  found : store.Finds old → store'.Finds old

def Encodes (store : VectorStore quant) (level : QuantLevel) (embedding : quant.Vec) : Prop :=
  level = .full ∨ ((store.quantizerFor level embedding).2.encode embedding).isSome = true

def entryFor (store : VectorStore quant) (entry : VectorEntry quant) (embedding : quant.Vec)
    (level : QuantLevel) : VectorEntry quant :=
  if level = .full then
    { entry with embedding := some embedding, quantCode := none, quantLevel := level }
  else
    let code := (store.quantizerFor level embedding).2.encode embedding
    { entry with embedding := none, quantCode := code, quantLevel := level }

end VectorStore

namespace VectorUpdate

variable {quant : Quantization}

def key : VectorUpdate quant → String
  | .addAtLevel collection path _ _ _ _ => vectorKey collection path
  | .changeLevel collection path _ => vectorKey collection path

def program : VectorUpdate quant → VectorStore.VectorProgram quant Unit
  | .addAtLevel collection path docid chunkSeq embedding level =>
      VectorStore.addAtLevelProgram collection path docid chunkSeq embedding level
  | .changeLevel collection path targetLevel =>
      VectorStore.changeLevelProgram collection path targetLevel

/-- There is nothing to store, or the entry that the key has under the inner product is the one
to be stored. -/
def Spares (store : VectorStore quant) : VectorUpdate quant → Prop
  | .addAtLevel collection path docid chunkSeq embedding level =>
      ¬store.Encodes level embedding ∨ store.metric = .innerProduct ∧
        store.kv.vectors.lookup (vectorKey collection path) = some
          (store.entryFor (.new quant docid collection path chunkSeq level) embedding level)
  | .changeLevel collection path targetLevel =>
      ∀ entry, store.kv.vectors.lookup (vectorKey collection path) = some entry →
        entry.quantLevel = targetLevel ∨ ∀ embedding,
          recoverEmbedding store.quantizers store.dimension entry = .ok (some embedding) →
            ¬store.Encodes targetLevel embedding

end VectorUpdate

namespace VectorStore

variable {quant : Quantization} {store store₁ : VectorStore quant} {key : String}
  {entry old : VectorEntry quant} {embedding : quant.Vec} {level : QuantLevel}
  {recache : LruCache String quant.Vec → LruCache String quant.Vec}

theorem quantize_result (store : VectorStore quant) (entry : VectorEntry quant)
    (embedding : quant.Vec) (level : QuantLevel) :
    (store.Encodes level embedding ∧ (store.quantize entry embedding level).2 =
        .ok (store.entryFor entry embedding level)) ∨
      (¬store.Encodes level embedding ∧
        (store.quantize entry embedding level).2 = .error .panic) := by
  unfold Encodes quantize entryFor
  by_cases hfull : level = .full
  · rw [if_pos hfull, if_pos hfull]
    exact .inl ⟨.inl hfull, rfl⟩
  · rw [if_neg hfull, if_neg hfull]
    dsimp only
    cases hencode : (store.quantizerFor level embedding).2.encode embedding with
    | none => exact .inr ⟨by simp [hfull], rfl⟩
    | some code => exact .inl ⟨.inr rfl, rfl⟩

theorem StillDescribes.refl (store : VectorStore quant) (key : String)
    (old : VectorEntry quant) : StillDescribes store store key old :=
  ⟨rfl, rfl, rfl, rfl, id⟩

/-! ## Where an update may fail -/

theorem mem_points_storeEntry (entry : VectorEntry quant) :
    store.updateHnsw key embedding level ∈
      (storeEntry key embedding level recache entry store).points := by
  unfold storeEntry
  rw [Faulty.mem_points_bind]
  refine .inr ⟨(), _, outcome_updateHnswProgram key embedding level store, ?_⟩
  exact Faulty.mem_points_bind.mpr (.inl (List.mem_singleton_self _))

/-- The store with the vector and the cached entry, before the metadata. -/
def entered (store : VectorStore quant) (key : String)
    (recache : LruCache String quant.Vec → LruCache String quant.Vec)
    (entry : VectorEntry quant) : VectorStore quant :=
  { store.persist key entry with decodedCache := recache store.decodedCache }

theorem points_storeEntry (hann : ¬store.annContractEnabled) (entry : VectorEntry quant) :
    (storeEntry key embedding level recache entry store).points =
      [store, store.entered key recache entry,
        (store.entered key recache entry).saveConfigMetadata] := by
  have hupdate : Faulty.RunsTo (updateHnswProgram key embedding level) store [] () store := by
    unfold updateHnswProgram
    refine Faulty.RunsTo.update_bind ?_
    rw [if_neg (by simp [hann])]
    exact Faulty.RunsTo.pure () store
  have hrest : Faulty.RunsTo
      (putVector key entry >>= fun _ => Faulty.update (fun store : VectorStore quant =>
        ((), { store with vectorEntries := store.vectorEntries.insert key entry })) >>=
          fun _ => Faulty.update (fun store : VectorStore quant =>
            ((), { store with decodedCache := recache store.decodedCache })) >>=
              fun _ => saveMetadataProgram) store
      [store, store.entered key recache entry,
        (store.entered key recache entry).saveConfigMetadata] ()
      (store.entered key recache entry).saveMetadata := rfl
  exact (hupdate.bind hrest).points_eq

/-! ## What is left of the old vector -/

theorem result_of_listed {scoring : Scoring quant} {query : quant.Vec}
    {Gives : VectorEntry quant → quant.Vec → Prop} {entries : List (VectorEntry quant)}
    {results : List (VectorSearchResult scoring.Score)}
    (h : List.Forall₂ (ResultFor scoring store query Gives) entries results) :
    ∀ entry ∈ entries, ∃ score, resultOf scoring entry score ∈ results := by
  induction h with
  | nil =>
      intro entry hentry
      cases hentry
  | cons hfirst hrest ih =>
      intro entry hentry
      rcases List.mem_cons.mp hentry with rfl | hlater
      · obtain ⟨vector, -, rfl⟩ := hfirst
        exact ⟨_, List.mem_cons_self⟩
      · obtain ⟨score, hscore⟩ := ih entry hlater
        exact ⟨score, List.mem_cons_of_mem _ hscore⟩

theorem Keyed.finds_inner (h : store.Keyed) (hinner : store.metric = .innerProduct)
    (hlookup : store.vectorEntries.lookup key = some old) : store.Finds old := by
  intro scoring query order graphSearch limit _ hroom
  obtain ⟨found, hscan, -, hlisted⟩ : ∃ found : Found scoring,
      exactScan scoring store query order (fun entry => entry.collection == old.collection)
        store.decodedCache = .ok found ∧ True ∧ _ := h.yields.exactScan_ok h order _ trivial
  have hlength : found.2.length ≤ limit := by
    rw [← hlisted.length_eq]
    refine (List.length_filter_le _ _).trans ?_
    have hkeys : (iterVectors order store.vectorEntries).length = store.vectorEntries.size := by
      rw [← List.length_map (·.1), keys_iterVectors, (order.perm _).length_eq]
      exact List.length_map _
    rw [List.length_map, hkeys]
    exact hroom
  have hmem : old ∈ store.scanned order fun entry => entry.collection == old.collection :=
    mem_scanned.mpr ⟨⟨key, hlookup⟩, beq_self_eq_true _⟩
  obtain ⟨score, hscore⟩ := result_of_listed hlisted old hmem
  refine ⟨_, _, score, search_inner hinner hscan, ?_⟩
  rwa [List.take_of_length_le (by rwa [length_sortResults]), mem_sortResults]

/-- Every key has the entry it had, in both tables. -/
structure SameEntries (store store' : VectorStore quant) : Prop where
  entries : store'.vectorEntries = store'.kv.vectors
  vectors : ∀ key, store'.kv.vectors.lookup key = store.kv.vectors.lookup key
  idMap : store'.idMap = store.idMap
  tombstones : store'.tombstones = store.tombstones
  metric : store'.metric = store.metric
  dimension : store'.dimension = store.dimension
  quantizers : store.quantizers <+: store'.quantizers
  stored : store'.kv.quantizers = store.kv.quantizers
  config : store'.kv.config = store.kv.config ∨
    store'.kv.config = some { dimension := store.dimension, metric := store.metric }

theorem SameEntries.keyed {store' : VectorStore quant} (h : SameEntries store store')
    (hkeyed : store.Keyed) : store'.Keyed where
  entries := h.entries
  keyed := by
    intro key entry hlookup
    rw [h.vectors] at hlookup
    exact hkeyed.keyed key entry hlookup
  recoverable := by
    intro key entry hlookup
    rw [h.vectors] at hlookup
    exact (hkeyed.recoverable key entry hlookup).mono h.quantizers
  stored := by
    intro key entry hlookup
    rw [h.vectors] at hlookup
    unfold storedQuantizers
    rw [h.stored, h.dimension]
    exact hkeyed.stored key entry hlookup
  config := by
    intro key entry hlookup
    rw [h.vectors] at hlookup
    rw [h.dimension, h.metric]
    rcases h.config with hconfig | hconfig
    · rw [hconfig]
      exact hkeyed.config key entry hlookup
    · exact hconfig

variable {store' : VectorStore quant}

theorem SameEntries.stillDescribes (h : SameEntries store store') (hkeyed : store.Keyed)
    (hinner : store.metric = .innerProduct) (hold : store.kv.vectors.lookup key = some old) :
    StillDescribes store store' key old where
  entry := by rw [h.entries, h.vectors, hkeyed.entries]
  slot := by rw [h.idMap]
  tombstones := h.tombstones
  vector := h.vectors key
  found := by
    intro _
    have hlookup : store'.vectorEntries.lookup key = some old := by
      rw [h.entries, h.vectors]
      exact hold
    exact (h.keyed hkeyed).finds_inner (h.metric.trans hinner) hlookup

theorem SameEntries.of_same (h : store.Keyed) (hsame : SameVectors store store₁)
    (hkv : store₁.kv = store.kv) : SameEntries store store₁ where
  entries := by rw [hsame.vectorEntries, hsame.vectors, h.entries]
  vectors := by simp [hsame.vectors]
  idMap := hsame.idMap
  tombstones := hsame.tombstones
  metric := hsame.metric
  dimension := hsame.dimension
  quantizers := hsame.quantizers
  stored := by rw [hkv]
  config := .inl (by rw [hkv])

theorem SameEntries.entered (h : SameEntries store store₁)
    (hold : store.kv.vectors.lookup key = some old) :
    SameEntries store (store₁.entered key recache old) where
  entries := congrArg (·.insert key old) h.entries
  vectors := by
    intro other
    show (store₁.kv.vectors.insert key old).lookup other = _
    rw [Table.lookup_insert, h.vectors]
    by_cases hother : other = key
    · rw [if_pos hother, hother, hold]
    · rw [if_neg hother]
  idMap := h.idMap
  tombstones := h.tombstones
  metric := h.metric
  dimension := h.dimension
  quantizers := h.quantizers
  stored := h.stored
  config := h.config

theorem SameEntries.saveConfigMetadata (h : SameEntries store store₁) :
    SameEntries store store₁.saveConfigMetadata where
  entries := h.entries
  vectors := h.vectors
  idMap := h.idMap
  tombstones := h.tombstones
  metric := h.metric
  dimension := h.dimension
  quantizers := h.quantizers
  stored := h.stored
  config := .inr (by
    show some ({ dimension := store₁.dimension, metric := store₁.metric } :
      VectorStoreMetadata) = _
    rw [h.dimension, h.metric])

theorem storeEntry_stillDescribes_iff (h : store.Keyed) (hsame : SameVectors store store₁)
    (hkv : store₁.kv = store.kv) (hold : store.kv.vectors.lookup key = some old) :
    (∀ store' ∈ (storeEntry key embedding level recache entry store₁).points,
        StillDescribes store store' key old) ↔
      store.metric = .innerProduct ∧ entry = old := by
  have hentries := SameEntries.of_same h hsame hkv
  constructor
  · intro hkept
    by_cases hann : store.annContractEnabled
    · -- the new slot is there before the new vector is
      exfalso
      have hslot := (hkept _ (mem_points_storeEntry entry)).slot
      have hnew : store₁.idMap.length ∈
          SlotMap.positions key (store₁.updateHnsw key embedding level).idMap := by
        unfold updateHnsw
        rw [if_pos (hsame.ann.mpr hann), SlotMap.mem_positions]
        have hlength : (SlotMap.retire deletedKeyMarker key store₁.idMap).length =
            store₁.idMap.length := SlotMap.length_retire
        show (SlotMap.retire deletedKeyMarker key store₁.idMap ++ [key])[_]? = _
        rw [← hlength]
        exact List.getElem?_concat_length
      rw [hslot, SlotMap.mem_positions, hsame.idMap] at hnew
      exact absurd (List.getElem?_eq_some_iff.mp hnew).1 (Nat.lt_irrefl _)
    · refine ⟨not_not.mp hann, ?_⟩
      rw [points_storeEntry fun hann₁ => hann (hsame.ann.mp hann₁)] at hkept
      have hvector := (hkept (store₁.entered key recache entry) (by simp)).vector
      rw [hold] at hvector
      have hnew : (store₁.kv.vectors.insert key entry).lookup key = some entry :=
        AList.lookup_insert _
      exact Option.some.inj (hnew.symm.trans hvector)
  · rintro ⟨hinner, rfl⟩ store' hpoint
    have hann : ¬store₁.annContractEnabled := fun hann => hsame.ann.mp hann hinner
    rw [points_storeEntry hann] at hpoint
    have hentered : SameEntries store (store₁.entered key recache entry) :=
      hentries.entered hold
    rcases List.mem_cons.mp hpoint with rfl | hlater
    · exact hentries.stillDescribes h hinner hold
    rcases List.mem_cons.mp hlater with rfl | hlast
    · exact hentered.stillDescribes h hinner hold
    rw [List.mem_singleton.mp hlast]
    exact hentered.saveConfigMetadata.stillDescribes h hinner hold

/-! ## Updates that leave the vector -/

theorem mem_points_quantize {f : VectorEntry quant → VectorProgram quant Unit} :
    store' ∈ ((quantizeProgram entry embedding level >>= f) store).points ↔
      store.Encodes level embedding ∧
        store' ∈ (f (store.entryFor entry embedding level)
          (store.quantize entry embedding level).1).points := by
  rw [Faulty.mem_points_bind, quantizeProgram, Faulty.outcome_attempt]
  have hnone : (Faulty.attempt (fun store : VectorStore quant =>
      store.quantize entry embedding level) store).points = [] := rfl
  rw [hnone]
  rcases store.quantize_result entry embedding level with ⟨hencodes, hok⟩ | ⟨hnot, herror⟩
  · rw [hok]
    simp [hencodes, Except.map]
  · rw [herror]
    simp [hnot, Except.map]

/-- Quantizing and storing an entry leave the key's vector as it was if and only if the vector
is not taken, or there are no slots and the entry is the one the key has. -/
theorem quantize_stillDescribes_iff (h : store.Keyed)
    (hold : store.kv.vectors.lookup key = some old) :
    (∀ store' ∈ ((quantizeProgram entry embedding level >>=
        storeEntry key embedding level recache) store).points,
          StillDescribes store store' key old) ↔
      ¬store.Encodes level embedding ∨
        store.metric = .innerProduct ∧ store.entryFor entry embedding level = old := by
  obtain ⟨hsame, hkv, -⟩ := store.quantize_spec entry embedding level
  have hstored : ∀ entry', (∀ store' ∈ (storeEntry key embedding level recache entry'
      (store.quantize entry embedding level).1).points, StillDescribes store store' key old) ↔
        store.metric = .innerProduct ∧ entry' = old :=
    fun _ => storeEntry_stillDescribes_iff h hsame hkv hold
  by_cases hencodes : store.Encodes level embedding
  · rw [or_iff_right (not_not_intro hencodes), ← hstored]
    exact forall_congr' fun store' =>
      imp_congr_left (mem_points_quantize.trans (and_iff_right hencodes))
  · refine iff_of_true (fun store' hpoint => ?_) (.inl hencodes)
    exact absurd (mem_points_quantize.mp hpoint).1 hencodes

variable {targetLevel : QuantLevel}

theorem mem_points_migrate :
    store' ∈ (migrate key targetLevel old store).points ↔
      ∃ embedding, recoverEmbedding store.quantizers store.dimension old = .ok (some embedding) ∧
        store' ∈ ((quantizeProgram old embedding targetLevel >>=
          storeEntry key embedding targetLevel id) store).points := by
  refine Faulty.mem_points_bind.trans ?_
  rw [Faulty.outcome_attempt]
  constructor
  · rintro (hpoint | ⟨recovered, store₁, heq, hpoint⟩)
    · cases hpoint
    · dsimp only at heq
      cases hrecover : recoverEmbedding store.quantizers store.dimension old with
      | error failure =>
          rw [hrecover] at heq
          cases heq
      | ok found =>
          rw [hrecover] at heq
          cases heq
          cases recovered with
          | none => cases hpoint
          | some embedding => exact ⟨embedding, rfl, hpoint⟩
  · rintro ⟨embedding, hrecover, hpoint⟩
    refine .inr ⟨some embedding, store, ?_, hpoint⟩
    dsimp only
    rw [hrecover]
    rfl

theorem mem_points_changeLevel {collection path : String}
    (hold : store.kv.vectors.lookup (vectorKey collection path) = some old) :
    store' ∈ (changeLevelProgram collection path targetLevel store).points ↔
      store' = store ∨ old.quantLevel ≠ targetLevel ∧
        store' ∈ (migrate (vectorKey collection path) targetLevel old store).points := by
  have hget : (getVector (vectorKey collection path)).outcome store = .ok (some old, store) :=
    congrArg (fun found => Except.ok (found, store)) hold
  refine Faulty.mem_points_bind.trans (or_congr List.mem_singleton ?_)
  rw [hget]
  constructor
  · rintro ⟨found, store₁, heq, hpoint⟩
    cases heq
    dsimp only at hpoint
    by_cases hlevel : old.quantLevel = targetLevel
    · rw [if_pos hlevel] at hpoint
      cases hpoint
    · rw [if_neg hlevel] at hpoint
      exact ⟨hlevel, hpoint⟩
  · rintro ⟨hlevel, hpoint⟩
    refine ⟨some old, store, rfl, ?_⟩
    dsimp only
    rwa [if_neg hlevel]

theorem changeLevel_stillDescribes_iff {collection path : String} (h : store.Keyed)
    (hold : store.kv.vectors.lookup (vectorKey collection path) = some old) :
    (∀ store' ∈ (changeLevelProgram collection path targetLevel store).points,
        StillDescribes store store' (vectorKey collection path) old) ↔
      old.quantLevel = targetLevel ∨ ∀ embedding,
        recoverEmbedding store.quantizers store.dimension old = .ok (some embedding) →
          ¬store.Encodes targetLevel embedding := by
  constructor
  · intro hkept
    refine or_iff_not_imp_left.mpr fun hlevel embedding hrecover hencodes => ?_
    have hmigrated : ∀ store' ∈ ((quantizeProgram old embedding targetLevel >>=
        storeEntry (vectorKey collection path) embedding targetLevel id) store).points,
          StillDescribes store store' (vectorKey collection path) old :=
      fun store' hpoint => hkept store' ((mem_points_changeLevel hold).mpr
        (.inr ⟨hlevel, mem_points_migrate.mpr ⟨embedding, hrecover, hpoint⟩⟩))
    rcases (quantize_stillDescribes_iff h hold).mp hmigrated with hnot | ⟨-, hsame⟩
    · exact hnot hencodes
    · -- the entry to be stored has the new level
      apply hlevel
      rw [← hsame, entryFor]
      split
      · rfl
      · rfl
  · intro hspared store' hpoint
    rcases (mem_points_changeLevel hold).mp hpoint with rfl | ⟨hlevel, hpoint⟩
    · exact .refl _ _ _
    · obtain ⟨embedding, hrecover, hpoint⟩ := mem_points_migrate.mp hpoint
      have hnot := hspared.resolve_left hlevel embedding hrecover
      exact (quantize_stillDescribes_iff h hold).mpr (.inl hnot) store' hpoint

end VectorStore

namespace VectorUpdate

open VectorStore

variable {quant : Quantization}

theorem stillDescribes_iff {store : VectorStore quant} {old : VectorEntry quant}
    (update : VectorUpdate quant) (h : store.Keyed)
    (hold : store.kv.vectors.lookup update.key = some old) :
    (∀ store' ∈ (update.program store).points, StillDescribes store store' update.key old) ↔
      update.Spares store := by
  cases update with
  | addAtLevel collection path docid chunkSeq embedding level =>
      refine (quantize_stillDescribes_iff h hold).trans
        (or_congr_right (and_congr_right fun _ => ?_))
      rw [show store.kv.vectors.lookup (vectorKey collection path) = some old from hold,
        Option.some.injEq]
      exact eq_comm
  | changeLevel collection path targetLevel =>
      refine (changeLevel_stillDescribes_iff h hold).trans ?_
      constructor
      · intro hspared entry hentry
        rw [show store.kv.vectors.lookup (vectorKey collection path) = some old from hold] at hentry
        cases hentry
        exact hspared
      · intro hspared
        exact hspared old hold

end VectorUpdate

namespace VectorSession

open VectorStore

/-- In every state that calls, searches and restarts lead to, an update of a key that has a
vector leaves that vector as it was wherever an operation fails, if and only if there is nothing
to store, or there are no slots and the entry to be stored is the one the key has. -/
theorem update_failure_atomic_iff {quant : Quantization} (format : SnapshotFormat quant)
    (dimension : Nat) (metric : VectorMetric) (events : List (VectorEvent quant))
    (update : VectorUpdate quant) (old : VectorEntry quant)
    (h : ((VectorSession.new format dimension metric).runEvents events).store.kv.vectors.lookup
      update.key = some old) :
    (∀ store' ∈ (update.program
        ((VectorSession.new format dimension metric).runEvents events).store).points,
      StillDescribes ((VectorSession.new format dimension metric).runEvents events).store store'
        update.key old) ↔
      update.Spares ((VectorSession.new format dimension metric).runEvents events).store :=
  update.stillDescribes_iff (runEvents_searchable format dimension metric events).toKeyed h

/-- Under the inner product the vector that a key has can be added again. -/
theorem update_failure_atomic_repeated :
    ((VectorSession.new intSnapshots 2 .innerProduct).runEvents
        [.call (.add "docs" "a" "d" 0 [1, 0])]).store.kv.vectors.lookup (vectorKey "docs" "a") =
        some
          { docid := "d", collection := "docs", path := "a", chunkSeq := 0,
            embedding := some [1, 0], quantLevel := .full } ∧
      ∀ store' ∈ ((VectorUpdate.addAtLevel "docs" "a" "d" 0 [1, 0] .full).program
          ((VectorSession.new intSnapshots 2 .innerProduct).runEvents
            [.call (.add "docs" "a" "d" 0 [1, 0])]).store).points,
        StillDescribes ((VectorSession.new intSnapshots 2 .innerProduct).runEvents
          [.call (.add "docs" "a" "d" 0 [1, 0])]).store store' (vectorKey "docs" "a")
            { docid := "d", collection := "docs", path := "a", chunkSeq := 0,
              embedding := some [1, 0], quantLevel := .full } :=
  ⟨rfl, (update_failure_atomic_iff intSnapshots 2 .innerProduct
    [.call (.add "docs" "a" "d" 0 [1, 0])] (.addAtLevel "docs" "a" "d" 0 [1, 0] .full)
    { docid := "d", collection := "docs", path := "a", chunkSeq := 0,
      embedding := some [1, 0], quantLevel := .full } rfl).mpr (.inr ⟨rfl, rfl⟩)⟩

def twoVectors : VectorStore intQuantization :=
  ((VectorSession.new intSnapshots 2 .cosine).runEvents
    [.call (.add "docs" "a" "d" 0 [1, 0]), .call (.addAtLevel "docs" "b" "e" 0 [0, 2] .warm)]).store

def nearest (store : VectorStore intQuantization) (query : List Int) :
    Except VectorFailure (List String) :=
  (search intScoring store query .same everyPoint "docs" 1).map fun searched =>
    searched.2.map (·.path)

/-- The first slot cannot be recorded: the old vector has its tombstone, and a search for it
gives another vector. -/
theorem update_not_failure_atomic :
    ∃ store' ∈ ((VectorUpdate.addAtLevel "docs" "a" "d" 0 [1, 1] .full).program
        twoVectors).points,
      (∀ old, ¬StillDescribes twoVectors store' (vectorKey "docs" "a") old) ∧
        nearest twoVectors [1, 0] = .ok ["a"] ∧ nearest store' [1, 0] = .ok ["b"] := by
  refine ⟨_, List.mem_cons_self, fun old hkept => ?_, rfl, rfl⟩
  have htombstones := hkept.tombstones
  have hslot : 0 ∉ twoVectors.tombstones := by decide
  rw [← htombstones] at hslot
  exact hslot (by decide)

end VectorSession

end BenShu.Engram
