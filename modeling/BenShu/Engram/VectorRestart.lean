import BenShu.Engram.VectorSnapshot
import BenShu.Lib.FallibleRun

/-!
# Restarts

A store that is built anew has a point for every stored vector. A store that takes
the dumped graphs agrees with it exactly when the stored vectors are those of the
dump.
-/

namespace BenShu.Engram

namespace VectorStore

variable {quant : Quantization} {store store' : VectorStore quant} {key : String}

variable {order : HashOrder} {metric : VectorMetric} {dimension : Nat}

theorem load_eq {format : SnapshotFormat quant} {kv : VectorKv quant}
    {files : Table QuantLevel format.File} (hopen : openStore kv dimension metric = .ok store) :
    load format order kv files dimension metric =
      if store.annContractEnabled then store.restoreIndexes format order files else .ok store := by
  unfold load
  rw [hopen]
  rfl

/-! ## Recovering -/

theorem Recoverable.recovers {quantizers : Quantizers quant} {entry : VectorEntry quant}
    (h : Recoverable quantizers entry) (dimension : Nat) :
    ∃ embedding, recoverEmbedding quantizers dimension entry = .ok (some embedding) := by
  unfold recoverEmbedding
  cases hembedding : entry.embedding with
  | some embedding => exact ⟨embedding, rfl⟩
  | none =>
      rcases h with hsome | ⟨hcode, quantizer, hmem⟩
      · simp [hembedding] at hsome
      · cases hquantCode : entry.quantCode with
        | none => simp [hquantCode] at hcode
        | some code =>
            dsimp only
            cases hfind : quantizers.find? fun quantizer => quantizer.1 = entry.quantLevel with
            | none => exact absurd (List.find?_eq_none.mp hfind _ hmem) (by simp)
            | some found => exact ⟨_, rfl⟩

/-! ## Building anew -/

/-- The vectors that were read so far are in their slots and graphs. -/
structure Rebuilt (store : VectorStore quant) (cached : List (String × VectorEntry quant))
    (rebuilt : VectorStore quant) : Prop where
  idMap : rebuilt.idMap = cached.map (·.1)
  built : ∀ level, ∃ hnsw, rebuilt.hnswIndexes.lookup level = some hnsw
  quantizers : rebuilt.quantizers = store.quantizers
  dimension : rebuilt.dimension = store.dimension
  point : ∀ level embedding id, (embedding, id) ∈ rebuilt.graph level ↔
    ∃ key entry, cached[id]? = some (key, entry) ∧ entry.quantLevel = level ∧
      recoverEmbedding store.quantizers store.dimension entry = .ok (some embedding)

variable {cached : List (String × VectorEntry quant)}

theorem Rebuilt.step {rebuilt : VectorStore quant} {entry : VectorEntry quant}
    {embedding : quant.Vec} (h : Rebuilt store cached rebuilt) (hfresh : key ∉ cached.map (·.1))
    (hrecover : recoverEmbedding store.quantizers store.dimension entry = .ok (some embedding)) :
    ∃ rebuilt', rebuilt.rebuildStep (key, entry) = .ok rebuilt' ∧
      Rebuilt store (cached ++ [(key, entry)]) rebuilt' := by
  obtain ⟨hnsw, hhnsw⟩ := h.built entry.quantLevel
  have hcontains : ¬rebuilt.idMap.contains key = true := by
    rw [List.contains_iff_mem, h.idMap]
    exact hfresh
  have hrecover' : recoverEmbedding rebuilt.quantizers rebuilt.dimension entry =
      .ok (some embedding) := by
    rw [h.quantizers, h.dimension]
    exact hrecover
  have hlength : rebuilt.idMap.length = cached.length := by
    rw [h.idMap, List.length_map]
  refine ⟨{ rebuilt with
    idMap := rebuilt.idMap ++ [key]
    hnswIndexes := rebuilt.hnswIndexes.insert entry.quantLevel
      (hnsw ++ [(embedding, rebuilt.idMap.length)]) }, ?_, ?_, ?_, h.quantizers, h.dimension, ?_⟩
  · unfold rebuildStep
    dsimp only
    rw [if_neg hcontains, hhnsw]
    dsimp only
    rw [hrecover']
    rfl
  · rw [h.idMap, List.map_append]
    rfl
  · intro level
    dsimp only
    rw [Table.lookup_insert]
    by_cases hlevel : level = entry.quantLevel
    · rw [if_pos hlevel]
      exact ⟨_, rfl⟩
    · rw [if_neg hlevel]
      exact h.built level
  · intro level vector id
    have hgraph : ({ rebuilt with
        idMap := rebuilt.idMap ++ [key]
        hnswIndexes := rebuilt.hnswIndexes.insert entry.quantLevel
          (hnsw ++ [(embedding, rebuilt.idMap.length)]) } : VectorStore quant).graph level =
        rebuilt.graph level ++
          if level = entry.quantLevel then [(embedding, cached.length)] else [] := by
      unfold graph
      dsimp only
      rw [Table.lookup_insert, hlength]
      by_cases hlevel : level = entry.quantLevel
      · subst hlevel
        rw [if_pos rfl, if_pos rfl, hhnsw]
        rfl
      · rw [if_neg hlevel, if_neg hlevel, List.append_nil]
    rw [hgraph, List.mem_append, h.point, List.getElem?_append]
    by_cases hid : id < cached.length
    · rw [if_pos hid]
      constructor
      · intro hpoint
        rcases hpoint with hold | hnew
        · exact hold
        · split at hnew
          · cases List.mem_singleton.mp hnew
            omega
          · cases hnew
      · intro hpoint
        exact .inl hpoint
    · have hnone : cached[id]? = none := List.getElem?_eq_none (by omega)
      rw [if_neg hid, hnone]
      constructor
      · intro hpoint
        rcases hpoint with ⟨_, _, hcached, -⟩ | hnew
        · cases hcached
        · split at hnew
          · rename_i hlevel
            cases List.mem_singleton.mp hnew
            exact ⟨key, entry, by simp, hlevel.symm, hrecover⟩
          · cases hnew
      · intro hpoint
        rcases hpoint with ⟨key', entry', hcached, hlevel, hrecovered⟩
        have hmem := List.mem_of_getElem? hcached
        have hbound := (List.getElem?_eq_some_iff.mp hcached).1
        rw [List.length_singleton] at hbound
        have hlast : id = cached.length := by omega
        cases List.mem_singleton.mp hmem
        rw [hrecover] at hrecovered
        cases hrecovered
        rw [if_pos hlevel.symm, hlast]
        exact .inr List.mem_cons_self

theorem rebuild_spec (hann : store.annContractEnabled) (hnodup : (cached.map (·.1)).Nodup)
    (hrecover : ∀ pair ∈ cached, ∃ embedding,
      recoverEmbedding store.quantizers store.dimension pair.2 = .ok (some embedding)) :
    ∃ rebuilt, store.rebuild cached = .ok rebuilt ∧ Rebuilt store cached rebuilt := by
  unfold rebuild
  induction cached using List.reverseRecOn with
  | nil =>
      refine ⟨_, rfl, rfl, ?_, rfl, rfl, ?_⟩
      · intro level
        exact ⟨[], lookup_buildHnswIndexes hann level⟩
      · intro level embedding id
        have hempty : ({ store with
            idMap := []
            tombstones := ∅
            hnswIndexes := buildHnswIndexes quant store.metric
            rebuildCount := 1
            snapshotLoadCount := 0 } : VectorStore quant).graph level = [] := by
          unfold graph
          rw [lookup_buildHnswIndexes hann level]
          rfl
        rw [hempty]
        simp
  | append_singleton cached pair ih =>
      rcases pair with ⟨key, entry⟩
      rw [List.map_append, List.nodup_append] at hnodup
      rcases hnodup with ⟨hbefore, -, hdisjoint⟩
      obtain ⟨rebuilt, hok, hrebuilt⟩ :=
        ih hbefore fun pair hpair => hrecover pair (List.mem_append_left _ hpair)
      obtain ⟨embedding, hembedding⟩ :=
        hrecover (key, entry) (List.mem_append_right _ List.mem_cons_self)
      have hfresh : key ∉ cached.map (·.1) := by
        intro hmem
        exact hdisjoint key hmem key (by simp) rfl
      obtain ⟨rebuilt', hstep, hrebuilt'⟩ := hrebuilt.step hfresh hembedding
      refine ⟨rebuilt', ?_, hrebuilt'⟩
      rw [List.foldlM_append, hok]
      show ([(key, entry)].foldlM rebuildStep rebuilt) = _
      rw [List.foldlM_cons, hstep]
      rfl

/-- The stored vectors, the cached entries and what they are recovered with are as
before. -/
structure SameStored (store store' : VectorStore quant) : Prop where
  kv : store'.kv = store.kv
  vectorEntries : store'.vectorEntries = store.vectorEntries
  quantizers : store'.quantizers = store.quantizers
  dimension : store'.dimension = store.dimension
  metric : store'.metric = store.metric

theorem rebuildStep_spec {cached : String × VectorEntry quant}
    (h : store.rebuildStep cached = .ok store') :
    SameStored store store' ∧ store'.snapshotLoadCount = store.snapshotLoadCount := by
  unfold rebuildStep at h
  dsimp only at h
  split at h
  · cases h
    exact ⟨⟨rfl, rfl, rfl, rfl, rfl⟩, rfl⟩
  · split at h
    · cases h
      exact ⟨⟨rfl, rfl, rfl, rfl, rfl⟩, rfl⟩
    · rcases FallibleRun.bind_eq_ok.mp h with ⟨recovered, -, hstored⟩
      cases recovered with
      | none =>
          cases hstored
          exact ⟨⟨rfl, rfl, rfl, rfl, rfl⟩, rfl⟩
      | some embedding =>
          cases hstored
          exact ⟨⟨rfl, rfl, rfl, rfl, rfl⟩, rfl⟩

theorem rebuild_same {rebuilt : VectorStore quant} (h : store.rebuild cached = .ok rebuilt) :
    SameStored store rebuilt ∧ rebuilt.snapshotLoadCount = 0 := by
  apply FallibleRun.foldlM_preserves
    (P := fun built => SameStored store built ∧ built.snapshotLoadCount = 0) ?_ ?_ h
  · intro pair hpair before after hbefore hstep
    obtain ⟨hsame, hcount⟩ := rebuildStep_spec hstep
    refine ⟨⟨?_, ?_, ?_, ?_, ?_⟩, hcount.trans hbefore.2⟩
    · exact hsame.kv.trans hbefore.1.kv
    · exact hsame.vectorEntries.trans hbefore.1.vectorEntries
    · exact hsame.quantizers.trans hbefore.1.quantizers
    · exact hsame.dimension.trans hbefore.1.dimension
    · exact hsame.metric.trans hbefore.1.metric
  · exact ⟨⟨rfl, rfl, rfl, rfl, rfl⟩, rfl⟩

variable {loaded : VectorStore quant}

/-- A restart that counts a snapshot has read a graph and matched the manifest. -/
theorem load_taken {format : SnapshotFormat quant} {kv : VectorKv quant}
    {files : Table QuantLevel format.File}
    (hload : load format order kv files dimension metric = .ok loaded)
    (haccept : loaded.snapshotLoadCount = 1) :
    ∃ store, openStore kv dimension metric = .ok store ∧ store.annContractEnabled ∧
      (store.loadSnapshots format files).2 = true ∧
      (store.loadSnapshots format files).1.snapshotManifestMatchesKv format = true ∧
      loaded = { (store.loadSnapshots format files).1 with
        snapshotLoadCount := 1, rebuildCount := 0 } := by
  cases hopen : openStore kv dimension metric with
  | error failure =>
      unfold load at hload
      rw [hopen] at hload
      cases hload
  | ok store =>
      have hopened := openStore_opened hopen
      rw [load_eq hopen] at hload
      by_cases hann : store.annContractEnabled
      · rw [if_pos hann] at hload
        unfold restoreIndexes at hload
        dsimp only at hload
        by_cases htaken : ((store.loadSnapshots format files).2 &&
            (store.loadSnapshots format files).1.snapshotManifestMatchesKv format) = true
        · rw [if_pos htaken] at hload
          rw [Bool.and_eq_true] at htaken
          exact ⟨store, rfl, hann, htaken.1, htaken.2, (Except.ok.inj hload).symm⟩
        · rw [if_neg htaken] at hload
          rw [(rebuild_same hload).2] at haccept
          cases haccept
      · rw [if_neg hann] at hload
        cases hload
        rw [hopened.snapshotLoadCount] at haccept
        cases haccept

theorem load_without_manifest {format : SnapshotFormat quant} {kv : VectorKv quant}
    {files : Table QuantLevel format.File} (hmanifest : kv.manifest = none)
    (hload : load format order kv files dimension metric = .ok loaded) :
    loaded.snapshotLoadCount ≠ 1 := by
  intro haccept
  obtain ⟨store, hopen, -, -, hmatches, -⟩ := load_taken hload haccept
  have hnone : (store.loadSnapshots format files).1.kv.manifest = none := by
    have hkept : (store.loadSnapshots format files).1.kv = store.kv := by
      unfold loadSnapshots
      dsimp only
      split
      · rfl
      · rfl
    rw [hkept, (openStore_opened hopen).manifest, hmanifest]
  unfold snapshotManifestMatchesKv at hmatches
  rw [hnone] at hmatches
  cases hmatches

/-! ## Keyed vectors after a restart -/

theorem SameStored.keyed (h : SameStored store store') (hkeyed : store.Keyed) :
    store'.Keyed := by
  have hstored : store'.storedQuantizers = store.storedQuantizers := by
    rw [storedQuantizers, storedQuantizers, h.kv, h.dimension]
  refine ⟨by rw [h.vectorEntries, h.kv, hkeyed.entries], ?_, ?_, ?_, ?_⟩
  · rw [h.kv]
    exact hkeyed.keyed
  · rw [h.kv, h.quantizers]
    exact hkeyed.recoverable
  · rw [h.kv, hstored]
    exact hkeyed.stored
  · rw [h.kv, h.dimension, h.metric]
    exact hkeyed.config

theorem Opened.keyed {requested : VectorStoreMetadata} (h : Opened store.kv requested store')
    (hkeyed : store.Keyed) : store'.Keyed := by
  have hquantizers : ∀ key entry, store.kv.vectors.lookup key = some entry →
      store'.quantizers = store.storedQuantizers := by
    intro key entry hlookup
    have hrequested := h.config _ (hkeyed.config key entry hlookup)
    rw [h.quantizers, ← hrequested, storedQuantizers]
  have hstored : store'.storedQuantizers = store'.quantizers := by
    rw [storedQuantizers, h.kvQuantizers, h.dimension, h.quantizers]
  refine ⟨h.vectorEntries.trans h.vectors.symm, ?_, ?_, ?_, ?_⟩
  · rw [h.vectors]
    exact hkeyed.keyed
  · rw [h.vectors]
    intro key entry hlookup
    rw [hquantizers key entry hlookup]
    exact hkeyed.stored key entry hlookup
  · rw [h.vectors, hstored]
    intro key entry hlookup
    rw [hquantizers key entry hlookup]
    exact hkeyed.stored key entry hlookup
  · intro key entry hlookup
    rw [h.kvConfig, h.dimension, h.metric]

theorem loadSnapshots_same {format : SnapshotFormat quant} (files : Table QuantLevel format.File)
    (store : VectorStore quant) : SameStored store (store.loadSnapshots format files).1 := by
  unfold loadSnapshots
  dsimp only
  split
  · exact ⟨rfl, rfl, rfl, rfl, rfl⟩
  · exact ⟨rfl, rfl, rfl, rfl, rfl⟩

theorem load_keyed {format : SnapshotFormat quant} {files : Table QuantLevel format.File}
    (hkeyed : store.Keyed)
    (hload : load format order store.kv files dimension metric = .ok loaded) : loaded.Keyed := by
  cases hopen : openStore store.kv dimension metric with
  | error failure =>
      unfold load at hload
      rw [hopen] at hload
      cases hload
  | ok opened =>
      have hopened := (openStore_opened hopen).keyed hkeyed
      rw [load_eq hopen] at hload
      split at hload
      · have hread := (loadSnapshots_same files opened).keyed hopened
        unfold restoreIndexes at hload
        dsimp only at hload
        split at hload
        · cases hload
          have hsame : SameStored (opened.loadSnapshots format files).1
              { (opened.loadSnapshots format files).1 with
                snapshotLoadCount := 1, rebuildCount := 0 } := ⟨rfl, rfl, rfl, rfl, rfl⟩
          exact hsame.keyed hread
        · exact (rebuild_same hload).1.keyed hread
      · cases hload
        exact hopened

/-! ## The stored vectors in order -/

theorem keys_iterVectors (order : HashOrder) (vectors : Table String (VectorEntry quant)) :
    (iterVectors order vectors).map (·.1) = order.arrange vectors.keys := by
  have hfound : ∀ key ∈ order.arrange vectors.keys, ∃ entry, vectors.lookup key = some entry := by
    intro key hkey
    rw [(order.perm _).mem_iff] at hkey
    exact Table.mem_keys_iff.mp hkey
  unfold iterVectors
  generalize order.arrange vectors.keys = keys at hfound
  induction keys with
  | nil => rfl
  | cons key keys ih =>
      obtain ⟨entry, hentry⟩ := hfound key List.mem_cons_self
      rw [List.filterMap_cons, hentry]
      show key :: _ = _
      rw [ih fun other hother => hfound other (List.mem_cons_of_mem _ hother)]

/-! ## Soundness of a loaded snapshot -/

/-- The active keys are the stored ones, every active slot carries the embedding that
is stored for its key, in the graph of its level alone, and a store that is built anew
carries the same. -/
structure SnapshotSound (order : HashOrder) (loaded : VectorStore quant) : Prop where
  keys : ∀ key, (key ∈ loaded.idMap ∧ ¬isDeletedKey key = true) ↔ key ∈ loaded.kv.vectors
  slots : ∀ (id : Nat) key entry, loaded.idMap[id]? = some key →
    loaded.kv.vectors.lookup key = some entry →
      ∃ embedding, recoverEmbedding loaded.quantizers loaded.dimension entry =
          .ok (some embedding) ∧
        ∀ level vector, (vector, id) ∈ loaded.graph level ↔
          level = entry.quantLevel ∧ vector = embedding
  rebuilt : ∃ rebuilt, loaded.rebuild (iterVectors order loaded.kv.vectors) = .ok rebuilt ∧
    ∀ level key embedding, loaded.Carries level key embedding ↔
      rebuilt.Carries level key embedding

/-- Every vector stored now was dumped by the saved store, under the same key and
level and with the embedding that is recovered for it now. -/
def DumpedBy (saved now : VectorStore quant) : Prop :=
  ∀ key entry, now.kv.vectors.lookup key = some entry →
    ∃ embedding, recoverEmbedding now.storedQuantizers now.dimension entry = .ok (some embedding) ∧
      saved.Carries entry.quantLevel key embedding

/-- `loaded` has the graphs and the id map of `saved` and the stored vectors of `now`. -/
structure LoadedFrom (saved now loaded : VectorStore quant) : Prop where
  idMap : loaded.idMap = saved.idMap
  graph : ∀ level, loaded.graph level = saved.graph level
  vectors : loaded.kv.vectors = now.kv.vectors
  quantizers : loaded.quantizers = now.storedQuantizers
  dimension : loaded.dimension = now.dimension
  ann : loaded.annContractEnabled

theorem rebuilt_carries {rebuilt : VectorStore quant}
    (hkeyed : ∀ key entry, loaded.kv.vectors.lookup key = some entry → ¬isDeletedKey key = true)
    (h : Rebuilt loaded (iterVectors order loaded.kv.vectors) rebuilt) {level : QuantLevel}
    {embedding : quant.Vec} : rebuilt.Carries level key embedding ↔
      ∃ entry, loaded.kv.vectors.lookup key = some entry ∧ entry.quantLevel = level ∧
        recoverEmbedding loaded.quantizers loaded.dimension entry = .ok (some embedding) := by
  constructor
  · intro hcarries
    rcases hcarries with ⟨-, id, hslot, hpoint⟩
    obtain ⟨key', entry, hcached, hlevel, hrecover⟩ := (h.point level embedding id).mp hpoint
    rw [h.idMap, List.getElem?_map, hcached, Option.map_some] at hslot
    have hkey : key' = key := Option.some.inj hslot
    have hmem := (mem_iterVectors order).mp (List.mem_of_getElem? hcached)
    exact ⟨entry, hkey ▸ hmem, hlevel, hrecover⟩
  · intro hstored
    rcases hstored with ⟨entry, hlookup, hlevel, hrecover⟩
    have hmem : (key, entry) ∈ iterVectors order loaded.kv.vectors :=
      (mem_iterVectors order).mpr hlookup
    obtain ⟨id, hid, hget⟩ := List.getElem_of_mem hmem
    have hcached : (iterVectors order loaded.kv.vectors)[id]? = some (key, entry) := by
      rw [List.getElem?_eq_getElem hid, hget]
    refine ⟨hkeyed key entry hlookup, id, ?_, ?_⟩
    · rw [h.idMap, List.getElem?_map, hcached]
      rfl
    · exact (h.point level embedding id).mpr ⟨key, entry, hcached, hlevel, hrecover⟩

/-- A loaded store whose slots carry the stored embeddings agrees with one that is
built anew. -/
theorem sound_of_slots (order : HashOrder) (hann : loaded.annContractEnabled)
    (hkeys : ∀ key, (key ∈ loaded.idMap ∧ ¬isDeletedKey key = true) ↔ key ∈ loaded.kv.vectors)
    (hslots : ∀ (id : Nat) key entry, loaded.idMap[id]? = some key →
      loaded.kv.vectors.lookup key = some entry →
        ∃ embedding, recoverEmbedding loaded.quantizers loaded.dimension entry =
            .ok (some embedding) ∧
          ∀ level vector, (vector, id) ∈ loaded.graph level ↔
            level = entry.quantLevel ∧ vector = embedding) : SnapshotSound order loaded := by
  have hslot : ∀ key entry, loaded.kv.vectors.lookup key = some entry →
      ¬isDeletedKey key = true ∧ ∃ id : Nat, loaded.idMap[id]? = some key := by
    intro key entry hlookup
    have hmem : key ∈ loaded.kv.vectors :=
      AList.lookup_isSome.mp (Option.isSome_of_eq_some hlookup)
    obtain ⟨hin, halive⟩ := (hkeys key).mpr hmem
    obtain ⟨id, hid, hget⟩ := List.getElem_of_mem hin
    exact ⟨halive, id, by rw [List.getElem?_eq_getElem hid, hget]⟩
  have hnodup : ((iterVectors order loaded.kv.vectors).map (·.1)).Nodup := by
    rw [keys_iterVectors]
    exact (order.perm _).nodup_iff.mpr loaded.kv.vectors.keys_nodup
  have hrecover : ∀ pair ∈ iterVectors order loaded.kv.vectors, ∃ embedding,
      recoverEmbedding loaded.quantizers loaded.dimension pair.2 = .ok (some embedding) := by
    intro pair hpair
    have hlookup := (mem_iterVectors order).mp hpair
    obtain ⟨-, id, hid⟩ := hslot pair.1 pair.2 hlookup
    obtain ⟨embedding, hembedding, -⟩ := hslots id pair.1 pair.2 hid hlookup
    exact ⟨embedding, hembedding⟩
  obtain ⟨rebuilt, hok, hrebuilt⟩ := rebuild_spec hann hnodup hrecover
  refine ⟨hkeys, hslots, rebuilt, hok, ?_⟩
  intro level key embedding
  rw [rebuilt_carries (fun key entry hlookup => (hslot key entry hlookup).1) hrebuilt]
  constructor
  · intro hcarries
    rcases hcarries with ⟨halive, id, hid, hpoint⟩
    have hmem := (hkeys key).mp ⟨List.mem_of_getElem? hid, halive⟩
    obtain ⟨entry, hlookup⟩ := Option.isSome_iff_exists.mp (AList.lookup_isSome.mpr hmem)
    obtain ⟨vector, hvector, hpoints⟩ := hslots id key entry hid hlookup
    obtain ⟨hlevel, heq⟩ := (hpoints level embedding).mp hpoint
    exact ⟨entry, hlookup, hlevel.symm, heq ▸ hvector⟩
  · intro hstored
    rcases hstored with ⟨entry, hlookup, hlevel, hvector⟩
    obtain ⟨halive, id, hid⟩ := hslot key entry hlookup
    obtain ⟨vector, hvector', hpoints⟩ := hslots id key entry hid hlookup
    rw [hvector] at hvector'
    cases hvector'
    exact ⟨halive, id, hid, (hpoints level embedding).mpr ⟨hlevel.symm, rfl⟩⟩

theorem LoadedFrom.sound_iff (order : HashOrder) {saved now : VectorStore quant}
    (h : LoadedFrom saved now loaded) (hann : saved.annContractEnabled) (hbooked : saved.Booked)
    (hgraphed : saved.Graphed) (hsize : saved.kv.vectors.size = now.kv.vectors.size) :
    SnapshotSound order loaded ↔ DumpedBy saved now := by
  constructor
  · intro hsound key entry hlookup
    have hlookup' : loaded.kv.vectors.lookup key = some entry := by
      rw [h.vectors]
      exact hlookup
    have hmem : key ∈ loaded.kv.vectors :=
      AList.lookup_isSome.mp (Option.isSome_of_eq_some hlookup')
    obtain ⟨hin, halive⟩ := (hsound.keys key).mpr hmem
    obtain ⟨id, hid, hget⟩ := List.getElem_of_mem hin
    have hslot : loaded.idMap[id]? = some key := by
      rw [List.getElem?_eq_getElem hid, hget]
    obtain ⟨embedding, hrecover, hpoints⟩ := hsound.slots id key entry hslot hlookup'
    rw [h.quantizers, h.dimension] at hrecover
    refine ⟨embedding, hrecover, halive, id, ?_, ?_⟩
    · rw [← h.idMap]
      exact hslot
    · rw [← h.graph]
      exact (hpoints entry.quantLevel embedding).mpr ⟨rfl, rfl⟩
  · intro hdumped
    have htracks := hbooked.tracks hann
    have hsub : ∀ key, key ∈ now.kv.vectors → key ∈ saved.kv.vectors := by
      intro key hmem
      obtain ⟨entry, hlookup⟩ := Option.isSome_iff_exists.mp (AList.lookup_isSome.mpr hmem)
      obtain ⟨embedding, -, halive, id, hslot, -⟩ := hdumped key entry hlookup
      exact htracks.live_of_slot hslot halive
    have hkeys : ∀ key, key ∈ now.kv.vectors ↔ key ∈ saved.kv.vectors :=
      fun key => ⟨hsub key, Table.mem_of_size_eq hsize hsub⟩
    refine sound_of_slots order h.ann ?_ ?_
    · intro key
      rw [h.idMap, h.vectors, hkeys]
      exact (htracks.live_iff key).symm
    · intro id key entry hslot hlookup
      rw [h.idMap] at hslot
      rw [h.vectors] at hlookup
      rw [h.quantizers, h.dimension]
      obtain ⟨embedding, hrecover, halive, other, hother, hpoint⟩ := hdumped key entry hlookup
      have hsame : other = id := htracks.unique other id key hother hslot halive
      rw [hsame] at hpoint
      have hmem := (hkeys key).mp (AList.lookup_isSome.mp (Option.isSome_of_eq_some hlookup))
      obtain ⟨savedEntry, hsaved⟩ := Option.isSome_iff_exists.mp (AList.lookup_isSome.mpr hmem)
      obtain ⟨vector, hvector, hunique⟩ := hgraphed.point id key savedEntry hslot hsaved
      obtain ⟨hlevel, heq⟩ := hunique entry.quantLevel embedding hpoint
      refine ⟨embedding, hrecover, ?_⟩
      intro level vector'
      rw [h.graph]
      constructor
      · intro hpoint'
        obtain ⟨hlevel', heq'⟩ := hunique level vector' hpoint'
        exact ⟨hlevel'.trans hlevel.symm, heq'.trans heq.symm⟩
      · intro hboth
        rw [hboth.1, hboth.2]
        exact hpoint

end VectorStore

/-! ## Runs -/

namespace VectorSession

open VectorStore

variable {quant : Quantization} {format : SnapshotFormat quant}

variable {saved : VectorStore quant} {session : VectorSession format}

/-- The manifest of the last save matches exactly when it counted as many vectors as
are stored now. -/
theorem StoredSnapshot.matches_iff (h : session.StoredSnapshot saved) (store : VectorStore quant)
    (hmanifest : store.kv.manifest = session.store.kv.manifest)
    (hentries : store.vectorEntries = session.store.kv.vectors)
    (hdimension : store.dimension = session.store.dimension)
    (hmetric : store.metric = session.store.metric) (hidMap : store.idMap = saved.idMap) :
    store.snapshotManifestMatchesKv format = true ↔
      saved.kv.vectors.size = session.store.kv.vectors.size := by
  unfold snapshotManifestMatchesKv currentSnapshotManifest
  rw [hmanifest, h.manifest]
  dsimp only [currentSnapshotManifest]
  rw [decide_eq_true_iff, hentries, hdimension, hmetric, hidMap, h.dimension, h.metric,
    h.booked.entries]
  simp

/-- A restart that takes the dumped graphs does so after a save that counted as many
vectors as are stored now. -/
theorem Snapshotted.load_accepted (h : session.Snapshotted) {order : HashOrder} {dimension : Nat}
    {metric : VectorMetric} {loaded : VectorStore quant}
    (hload : VectorStore.load format order session.store.kv session.files dimension metric =
      .ok loaded) (haccept : loaded.snapshotLoadCount = 1) :
    ∃ saved, session.lastSave = some saved ∧
      saved.kv.vectors.size = session.store.kv.vectors.size ∧
      LoadedFrom saved session.store loaded := by
  obtain ⟨store, hopen, hann, hloadedAny, hmatches, hloaded⟩ := load_taken hload haccept
  have hopened := openStore_opened hopen
  have hempty : store.hnswIndexes = buildHnswIndexes quant store.metric := by
    rw [hopened.hnswIndexes, hopened.metric]
  obtain ⟨idMap, tombstones, indexes, hstore, hidMap, hindexes⟩ :=
    (loadSnapshots_spec hann hempty h.reads).2 hloadedAny
  rw [hstore] at hmatches hloaded
  cases hlast : session.lastSave with
  | none => exact absurd haccept (load_without_manifest (h.unsaved hlast) hload)
  | some saved =>
      have hsaved := h.saved saved hlast
      have hconfig := hopened.config _ hsaved.config
      rw [VectorStoreMetadata.mk.injEq] at hconfig
      have hidMap' : idMap = saved.idMap := by
        rw [hidMap, hopened.kvIdMap, hsaved.idMap]
        rfl
      have hsize := (hsaved.matches_iff
        { store with idMap := idMap, hnswIndexes := indexes, tombstones := tombstones }
        hopened.manifest hopened.vectorEntries (hopened.dimension.trans hconfig.1.symm)
        (hopened.metric.trans hconfig.2.symm) hidMap').mp hmatches
      rw [hloaded]
      refine ⟨saved, rfl, hsize, hidMap', ?_, hopened.vectors, ?_,
        hopened.dimension.trans hconfig.1.symm, hann⟩
      · intro level
        show (indexes.lookup level).getD [] = saved.graph level
        rw [hindexes, savedGraph, hlast]
        rfl
      · show store.quantizers = _
        rw [hopened.quantizers, ← hconfig.1]
        rfl

/-- A restart after a save that dumped a point and counted as many vectors as are
stored now takes the dumped graphs. -/
theorem Snapshotted.load_accepts (h : session.Snapshotted) (order : HashOrder)
    (hlast : session.lastSave = some saved)
    (hsize : saved.kv.vectors.size = session.store.kv.vectors.size) {level : QuantLevel}
    (hpoint : saved.graph level ≠ []) :
    ∃ loaded, VectorStore.load format order session.store.kv session.files
        session.store.dimension session.store.metric = .ok loaded ∧
      loaded.snapshotLoadCount = 1 := by
  have hsaved := h.saved saved hlast
  obtain ⟨store, hopen⟩ := openStore_ok hsaved.config
  have hopened := openStore_opened hopen
  have hann : store.annContractEnabled := by
    rw [annContractEnabled, hopened.metric]
    exact h.ann
  have hempty : store.hnswIndexes = buildHnswIndexes quant store.metric := by
    rw [hopened.hnswIndexes, hopened.metric]
  obtain ⟨hnone, hread⟩ := loadSnapshots_spec hann hempty h.reads
  rw [load_eq hopen, if_pos hann]
  unfold restoreIndexes
  generalize store.loadSnapshots format session.files = result at hnone hread
  rcases result with ⟨read, loadedAny⟩
  dsimp only at hnone hread ⊢
  cases loadedAny with
  | false =>
      have hgraph := hnone rfl level
      rw [savedGraph, hlast] at hgraph
      exact absurd hgraph hpoint
  | true =>
      obtain ⟨idMap, tombstones, indexes, hstore, hidMap, -⟩ := hread rfl
      have hidMap' : idMap = saved.idMap := by
        rw [hidMap, hopened.kvIdMap, hsaved.idMap]
        rfl
      have hmatches : read.snapshotManifestMatchesKv format = true := by
        rw [hstore]
        exact (hsaved.matches_iff
          { store with idMap := idMap, hnswIndexes := indexes, tombstones := tombstones }
          hopened.manifest hopened.vectorEntries hopened.dimension hopened.metric hidMap').mpr hsize
      rw [hmatches]
      exact ⟨_, rfl, rfl⟩

/-- The vectors stored now are those that the last save dumped, unless it counted
another number of vectors. -/
def DumpCurrent (session : VectorSession format) : Prop :=
  ∀ saved, session.lastSave = some saved →
    saved.kv.vectors.size = session.store.kv.vectors.size → DumpedBy saved session.store

theorem StoredSnapshot.exists_point (h : session.StoredSnapshot saved)
    (hann : saved.annContractEnabled) {key : String} (hkey : key ∈ saved.kv.vectors) :
    ∃ level, saved.graph level ≠ [] := by
  obtain ⟨id, hslot, -⟩ := (h.booked.tracks hann).slot hkey
  obtain ⟨entry, hlookup⟩ := Option.isSome_iff_exists.mp (AList.lookup_isSome.mpr hkey)
  obtain ⟨embedding, hpoint, -⟩ := h.graphed.point id key entry hslot hlookup
  exact ⟨entry.quantLevel, List.ne_nil_of_mem hpoint⟩

theorem Snapshotted.sound_iff (h : session.Snapshotted) :
    (∀ order dimension metric loaded,
        VectorStore.load format order session.store.kv session.files dimension metric =
          .ok loaded →
        loaded.snapshotLoadCount = 1 → SnapshotSound order loaded) ↔ session.DumpCurrent := by
  have hann : ∀ saved, session.lastSave = some saved → saved.annContractEnabled := by
    intro saved hlast
    rw [annContractEnabled, ← (h.saved saved hlast).metric]
    exact h.ann
  constructor
  · intro hsound saved hlast hsize key entry hlookup
    have hsaved := h.saved saved hlast
    -- a store as large as this one has dumped a point, so the restart takes the dump
    have hpoint : ∃ level, saved.graph level ≠ [] := by
      by_contra hnone
      have hempty : ∀ key, key ∉ saved.kv.vectors := by
        intro key hkey
        exact hnone (hsaved.exists_point (hann saved hlast) hkey)
      have hmem : key ∈ session.store.kv.vectors :=
        AList.lookup_isSome.mp (Option.isSome_of_eq_some hlookup)
      exact hempty key (Table.mem_of_size_eq hsize.symm (fun key hkey => absurd hkey (hempty key))
        hmem)
    rcases hpoint with ⟨level, hlevel⟩
    obtain ⟨loaded, hload, haccept⟩ := h.load_accepts HashOrder.same hlast hsize hlevel
    have hloaded := hsound HashOrder.same _ _ loaded hload haccept
    obtain ⟨saved', hlast', hsize', hfrom⟩ := h.load_accepted hload haccept
    rw [hlast] at hlast'
    cases hlast'
    exact (hfrom.sound_iff HashOrder.same (hann saved hlast) hsaved.booked hsaved.graphed
      hsize').mp hloaded key entry hlookup
  · intro hcurrent order dimension metric loaded hload haccept
    obtain ⟨saved, hlast, hsize, hfrom⟩ := h.load_accepted hload haccept
    have hsaved := h.saved saved hlast
    exact (hfrom.sound_iff order (hann saved hlast) hsaved.booked hsaved.graphed hsize).mpr
      (hcurrent saved hlast hsize)

theorem run_without_manifest (format : SnapshotFormat quant) (dimension : Nat)
    (ops : List (VectorOp quant)) :
    ((VectorSession.new format dimension .innerProduct).run ops).store.kv.manifest = none := by
  induction ops using List.reverseRecOn with
  | nil => rfl
  | append_singleton ops op ih =>
      rw [run_snoc]
      have hmetric : ((VectorSession.new format dimension .innerProduct).run ops).store.metric =
          .innerProduct := run_metric dimension .innerProduct ops
      generalize (VectorSession.new format dimension .innerProduct).run ops = session at *
      cases op with
      | save =>
          have hann : ¬session.store.saveMetadata.annContractEnabled :=
            fun hne => hne hmetric
          unfold perform VectorStore.save
          dsimp only
          rw [if_neg hann]
          exact ih
      | add collection path docid chunkSeq embedding =>
          rw [← ih]
          exact (addAtLevel_step session.store collection path docid chunkSeq embedding
            .full).keeps.manifest
      | addAtLevel collection path docid chunkSeq embedding level =>
          rw [← ih]
          exact (addAtLevel_step session.store collection path docid chunkSeq embedding
            level).keeps.manifest
      | changeLevel collection path targetLevel =>
          rw [← ih]
          exact (changeLevel_step session.store collection path targetLevel).keeps.manifest
      | remove collection path =>
          rw [← ih]
          exact (remove_step session.store collection path).keeps.manifest

/-- After any calls, a restart that takes the dumped graphs loads a sound snapshot
exactly when the vectors stored now are those of the last dump, or another number of
vectors; the inner product has no dump. -/
theorem load_sound_iff (format : SnapshotFormat quant) (dimension : Nat) (metric : VectorMetric)
    (ops : List (VectorOp quant)) :
    (∀ order requestedDimension requestedMetric loaded,
        VectorStore.load format order
            ((VectorSession.new format dimension metric).run ops).store.kv
            ((VectorSession.new format dimension metric).run ops).files
            requestedDimension requestedMetric = .ok loaded →
        loaded.snapshotLoadCount = 1 → SnapshotSound order loaded) ↔
      (metric ≠ .innerProduct →
        ((VectorSession.new format dimension metric).run ops).DumpCurrent) := by
  by_cases hinner : metric = .innerProduct
  · subst hinner
    refine iff_of_true ?_ fun hne => absurd rfl hne
    intro order requestedDimension requestedMetric loaded hload haccept
    exact absurd haccept
      (load_without_manifest (run_without_manifest format dimension ops) hload)
  · rw [(run_snapshotted format dimension hinner ops).sound_iff]
    exact ⟨fun h _ => h, fun h => h hinner⟩

def replacedSession : VectorSession intSnapshots :=
  (VectorSession.new intSnapshots 2 .cosine).run [.add "docs" "a" "d" 0 [1, 0], .save,
    .remove "docs" "a", .add "docs" "b" "e" 0 [0, 1]]

/-- The restart takes the graph of the removed vector. -/
theorem load_stale_snapshot :
    ∃ loaded, VectorStore.load intSnapshots .same replacedSession.store.kv replacedSession.files
        2 .cosine = .ok loaded ∧
      loaded.snapshotLoadCount = 1 ∧ ¬SnapshotSound .same loaded := by
  have hsession : replacedSession.Snapshotted :=
    run_snapshotted intSnapshots 2 (by decide) _
  obtain ⟨saved, hlast⟩ : ∃ saved, replacedSession.lastSave = some saved := ⟨_, rfl⟩
  have hidMap : saved.idMap = ["v:docs:a"] := by
    cases hlast
    rfl
  have hgraph : saved.graph .full ≠ [] := by
    cases hlast
    exact List.cons_ne_nil _ _
  have hsize : saved.kv.vectors.size = replacedSession.store.kv.vectors.size := by
    cases hlast
    rfl
  obtain ⟨loaded, hload, haccept⟩ :=
    hsession.load_accepts .same hlast hsize hgraph
  refine ⟨loaded, hload, haccept, ?_⟩
  intro hsound
  obtain ⟨saved', hlast', -, hfrom⟩ := hsession.load_accepted hload haccept
  rw [hlast] at hlast'
  cases hlast'
  have hstored : "v:docs:b" ∈ loaded.kv.vectors := by
    rw [hfrom.vectors]
    exact AList.mem_keys.mp (by decide)
  have hactive := ((hsound.keys "v:docs:b").mpr hstored).1
  rw [hfrom.idMap, hidMap] at hactive
  simp at hactive

end VectorSession

end BenShu.Engram
