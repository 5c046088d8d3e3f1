import BenShu.Engram.VectorBookkeeping

/-!
# Snapshots

A save dumps the graphs and stores the id map with a manifest. A restart takes the
dumped graphs if the manifest matches, and builds them anew from the stored vectors
otherwise. Of what can change after a save, the manifest sees the number of vectors
only.
-/

namespace BenShu.Engram

namespace VectorStore

variable {quant : Quantization} {store store' : VectorStore quant} {key : String}

/-! ## Points -/

def graph (store : VectorStore quant) (level : QuantLevel) : Hnsw quant :=
  (store.hnswIndexes.lookup level).getD []

/-- The graph of the level holds the vector under the active slot of the key. -/
def Carries (store : VectorStore quant) (level : QuantLevel) (key : String)
    (embedding : quant.Vec) : Prop :=
  ¬isDeletedKey key = true ∧
    ∃ id, store.idMap[id]? = some key ∧ (embedding, id) ∈ store.graph level

/-- Every stored vector has one point, in the graph of its level. -/
structure Graphed (store : VectorStore quant) : Prop where
  built : ∀ level, ∃ hnsw, store.hnswIndexes.lookup level = some hnsw
  inside : ∀ level embedding id, (embedding, id) ∈ store.graph level → id < store.idMap.length
  point : ∀ (id : Nat) key entry, store.idMap[id]? = some key →
    store.kv.vectors.lookup key = some entry →
      ∃ embedding, (embedding, id) ∈ store.graph entry.quantLevel ∧
        ∀ level other, (other, id) ∈ store.graph level →
          level = entry.quantLevel ∧ other = embedding

theorem lookup_buildHnswIndexes {metric : VectorMetric} (hann : metric ≠ .innerProduct)
    (level : QuantLevel) : (buildHnswIndexes quant metric).lookup level = some [] := by
  unfold buildHnswIndexes
  rw [if_neg hann]
  cases level <;> rfl

theorem new_graphed (dimension : Nat) {metric : VectorMetric} (hann : metric ≠ .innerProduct) :
    (VectorStore.new ({} : VectorKv quant) dimension metric).Graphed where
  built := fun level => ⟨[], lookup_buildHnswIndexes hann level⟩
  inside := by
    intro level embedding id hmem
    rw [graph, VectorStore.new, lookup_buildHnswIndexes hann] at hmem
    cases hmem
  point := by
    intro id key entry hslot
    cases hslot

theorem SameVectors.graphed (h : SameVectors store store') (hgraphed : store.Graphed) :
    store'.Graphed := by
  have hgraph : ∀ level, store'.graph level = store.graph level := by
    intro level
    rw [graph, graph, h.hnswIndexes]
  refine ⟨?_, ?_, ?_⟩
  · rw [h.hnswIndexes]
    exact hgraphed.built
  · rw [h.idMap]
    simp only [hgraph]
    exact hgraphed.inside
  · rw [h.idMap, h.vectors]
    simp only [hgraph]
    exact hgraphed.point

theorem slot_of_alive {idMap : List String} {other : String} {id : Nat}
    (halive : ¬isDeletedKey other = true)
    (hslot : (SlotMap.retire deletedKeyMarker key idMap)[id]? = some other) :
    idMap[id]? = some other ∧ other ≠ key :=
  (SlotMap.getElem?_retire_alive (fun slot => isDeletedKey slot = true)
    (fun id => isDeletedKey_marker id key) halive).mp hslot

theorem slot_of_retire (hbooked : store.Booked) {other : String} {entry : VectorEntry quant}
    {id : Nat} (hlookup : store.kv.vectors.lookup other = some entry)
    (hslot : (SlotMap.retire deletedKeyMarker key store.idMap)[id]? = some other) :
    store.idMap[id]? = some other := by
  have halive : ¬isDeletedKey other = true := by
    rw [hbooked.keyed other entry hlookup]
    exact not_isDeletedKey _ _
  exact (slot_of_alive halive hslot).1

theorem Put.graph {entry : VectorEntry quant} {embedding : quant.Vec}
    (h : Put store store' key entry embedding) (hann : store.annContractEnabled)
    (hgraphed : store.Graphed) (level : QuantLevel) :
    store'.graph level =
      store.graph level ++
        if level = entry.quantLevel then [(embedding, store.idMap.length)] else [] := by
  obtain ⟨hnsw, hhnsw⟩ := hgraphed.built level
  have hlookup := h.hnswIndexes level
  unfold VectorStore.graph
  rw [hlookup, hhnsw]
  by_cases hlevel : level = entry.quantLevel
  · rw [if_pos ⟨hann, hlevel⟩, if_pos hlevel]
    rfl
  · rw [if_neg fun hboth => hlevel hboth.2, if_neg hlevel, List.append_nil]

theorem Put.graphed {collection path : String} {entry : VectorEntry quant} {embedding : quant.Vec}
    (h : Put store store' (vectorKey collection path) entry embedding)
    (hann : store.annContractEnabled) (hbooked : store.Booked) (hgraphed : store.Graphed) :
    store'.Graphed := by
  have hgraph := h.graph hann hgraphed
  have hidMap := h.idMap
  rw [if_pos hann] at hidMap
  have hlength : (SlotMap.retire deletedKeyMarker (vectorKey collection path)
      store.idMap).length = store.idMap.length := SlotMap.length_retire
  -- a point of the new graphs is an old one or the new one
  have hpoint : ∀ level other id, (other, id) ∈ store'.graph level →
      (other, id) ∈ store.graph level ∧ id < store.idMap.length ∨
        level = entry.quantLevel ∧ other = embedding ∧ id = store.idMap.length := by
    intro level other id hmem
    rw [hgraph, List.mem_append] at hmem
    rcases hmem with hold | hnew
    · exact .inl ⟨hold, hgraphed.inside level other id hold⟩
    · by_cases hlevel : level = entry.quantLevel
      · rw [if_pos hlevel, List.mem_singleton] at hnew
        cases hnew
        exact .inr ⟨hlevel, rfl, rfl⟩
      · rw [if_neg hlevel] at hnew
        cases hnew
  refine ⟨?_, ?_, ?_⟩
  · intro level
    obtain ⟨hnsw, hhnsw⟩ := hgraphed.built level
    rw [h.hnswIndexes, hhnsw]
    split
    · exact ⟨_, rfl⟩
    · exact ⟨_, rfl⟩
  · intro level other id hmem
    rw [hidMap, List.length_append, hlength, List.length_singleton]
    rcases hpoint level other id hmem with hold | hnew
    · omega
    · omega
  · intro id other found hslot hlookup
    rw [hidMap, List.getElem?_append, hlength] at hslot
    rw [h.vectors, Table.lookup_insert] at hlookup
    by_cases hid : id < store.idMap.length
    · rw [if_pos hid] at hslot
      by_cases hkey : other = vectorKey collection path
      · have halive : ¬isDeletedKey other = true := hkey ▸ not_isDeletedKey collection path
        exact absurd hkey (slot_of_alive halive hslot).2
      · rw [if_neg hkey] at hlookup
        obtain ⟨vector, hmem, hunique⟩ :=
          hgraphed.point id other found (slot_of_retire hbooked hlookup hslot) hlookup
        refine ⟨vector, ?_, ?_⟩
        · rw [hgraph]
          exact List.mem_append_left _ hmem
        · intro level vector' hmem'
          rcases hpoint level vector' id hmem' with hold | hnew
          · exact hunique level vector' hold.1
          · omega
    · rw [if_neg hid] at hslot
      have hnew : other = vectorKey collection path :=
        List.mem_singleton.mp (List.mem_of_getElem? hslot)
      have hidLast : id = store.idMap.length := by
        have hbound := (List.getElem?_eq_some_iff.mp hslot).1
        rw [List.length_singleton] at hbound
        omega
      rw [if_pos hnew] at hlookup
      cases hlookup
      refine ⟨embedding, ?_, ?_⟩
      · rw [hgraph, if_pos rfl, hidLast]
        exact List.mem_append_right _ List.mem_cons_self
      · intro level vector' hmem'
        rcases hpoint level vector' id hmem' with hold | hnew
        · omega
        · exact ⟨hnew.1, hnew.2.1⟩

theorem Erased.graphed (h : Erased store store' key) (hann : store.annContractEnabled)
    (hbooked : store.Booked) (hgraphed : store.Graphed) : store'.Graphed := by
  have hgraph : ∀ level, store'.graph level = store.graph level := by
    intro level
    rw [graph, graph, h.hnswIndexes]
  have hidMap := h.idMap
  rw [if_pos hann] at hidMap
  refine ⟨?_, ?_, ?_⟩
  · rw [h.hnswIndexes]
    exact hgraphed.built
  · intro level other id hmem
    rw [hgraph] at hmem
    rw [hidMap, SlotMap.length_retire]
    exact hgraphed.inside level other id hmem
  · intro id other entry hslot hlookup
    rw [hidMap] at hslot
    rw [h.vectors, Table.lookup_erase] at hlookup
    split at hlookup
    · cases hlookup
    · simp only [hgraph]
      exact hgraphed.point id other entry (slot_of_retire hbooked hlookup hslot) hlookup

theorem Step.graphed {collection path : String} {docid : Option String}
    (h : Step store store' collection path docid)
    (hann : store.annContractEnabled) (hbooked : store.Booked) (hgraphed : store.Graphed) :
    store'.Graphed := by
  cases h with
  | same h keeps => exact h.graphed hgraphed
  | put entry embedding h keeps origin => exact h.graphed hann hbooked hgraphed
  | erased h keeps => exact h.graphed hann hbooked hgraphed

theorem Step.graph_prefix {collection path : String} {docid : Option String}
    (h : Step store store' collection path docid)
    (hann : store.annContractEnabled) (hgraphed : store.Graphed) (level : QuantLevel) :
    store.graph level <+: store'.graph level := by
  cases h with
  | same h keeps =>
      rw [graph, graph, h.hnswIndexes]
  | put entry embedding h keeps origin =>
      rw [h.graph hann hgraphed]
      exact List.prefix_append _ _
  | erased h keeps =>
      rw [graph, graph, h.hnswIndexes]

/-! ## The directory -/

section

variable {format : SnapshotFormat quant} {files : Table QuantLevel format.File}

/-- Reading the file of a level gives the graph; an empty graph may have none. -/
def Reads (format : SnapshotFormat quant) (files : Table QuantLevel format.File)
    (level : QuantLevel) (hnsw : Hnsw quant) : Prop :=
  match (files.lookup level).bind format.loadHnsw with
  | some read => read = hnsw
  | none => hnsw = []

theorem lookup_foldl_dumpLevel (format : SnapshotFormat quant)
    (files : Table QuantLevel format.File) (indexes : Table QuantLevel (Hnsw quant))
    (level : QuantLevel) :
    (indexes.entries.foldl (dumpLevel format) files).lookup level =
      ((indexes.lookup level).bind format.fileDump).or (files.lookup level) := by
  rcases indexes with ⟨indexes, hnodup⟩
  show (indexes.foldl (dumpLevel format) files).lookup level =
    ((indexes.dlookup level).bind format.fileDump).or (files.lookup level)
  induction indexes generalizing files with
  | nil => rfl
  | cons index indexes ih =>
      rcases List.nodupKeys_cons.mp hnodup with ⟨hfirst, hrest⟩
      have hstep : (dumpLevel format files index).lookup level =
          if level = index.1 then (format.fileDump index.2).or (files.lookup level)
          else files.lookup level := by
        unfold dumpLevel
        cases format.fileDump index.2 with
        | none => simp
        | some file => rw [Table.lookup_insert, Option.some_or]
      rw [List.foldl_cons, ih _ hrest, hstep]
      by_cases hlevel : level = index.1
      · subst hlevel
        have hnone : indexes.dlookup index.1 = none := List.dlookup_eq_none.mpr hfirst
        rw [if_pos rfl, hnone, List.dlookup_cons_eq]
        rfl
      · rw [if_neg hlevel, List.dlookup_cons_ne indexes index hlevel]

/-- A dump over the files of an earlier state of the graphs. -/
theorem reads_dump {old : Hnsw quant} {indexes : Table QuantLevel (Hnsw quant)}
    {level : QuantLevel} {hnsw : Hnsw quant} (hlookup : indexes.lookup level = some hnsw)
    (hreads : Reads format files level old) (hbegins : old <+: hnsw) :
    Reads format (indexes.entries.foldl (dumpLevel format) files) level hnsw := by
  unfold Reads
  rw [lookup_foldl_dumpLevel, hlookup, Option.bind_some]
  by_cases hempty : hnsw = []
  · rw [hempty] at hbegins ⊢
    have hold : old = [] := List.prefix_nil.mp hbegins
    unfold Reads at hreads
    rw [hold] at hreads
    cases hdump : format.fileDump [] with
    | none =>
        rw [Option.none_or]
        exact hreads
    | some file =>
        rw [Option.some_or, Option.bind_some]
        cases hload : format.loadHnsw file with
        | none => rfl
        | some read => exact format.loadEmpty file read hdump hload
  · obtain ⟨file, hdump, hload⟩ := format.loadDumped hnsw hempty
    rw [hdump, Option.some_or, Option.bind_some, hload]

theorem save_spec (format : SnapshotFormat quant) (files : Table QuantLevel format.File)
    (hann : store.annContractEnabled) :
    ∃ saved, store.save format files =
        (saved, store.hnswIndexes.entries.foldl (dumpLevel format) files) ∧
      SameVectors store saved ∧ saved.kv.idMap = some saved.idMap ∧
      saved.kv.manifest = some (saved.currentSnapshotManifest format) ∧
      saved.kv.config = some { dimension := saved.dimension, metric := saved.metric } := by
  have hsame := save_same format store files
  unfold save at hsame ⊢
  dsimp only at hsame ⊢
  have hmetadata : store.saveMetadata.annContractEnabled := hann
  rw [if_pos hmetadata] at hsame ⊢
  exact ⟨_, rfl, hsame, rfl, rfl, rfl⟩

/-! ## Opening -/

/-- A store that was just opened: the stored vectors and quantizers, and empty graphs. -/
structure Opened (kv : VectorKv quant) (requested : VectorStoreMetadata)
    (store : VectorStore quant) : Prop where
  vectors : store.kv.vectors = kv.vectors
  kvIdMap : store.kv.idMap = kv.idMap
  manifest : store.kv.manifest = kv.manifest
  kvQuantizers : store.kv.quantizers = kv.quantizers
  kvConfig : store.kv.config = some requested
  vectorEntries : store.vectorEntries = kv.vectors
  quantizers : store.quantizers = (kv.quantizers.lookup requested.dimension).getD []
  dimension : store.dimension = requested.dimension
  metric : store.metric = requested.metric
  hnswIndexes : store.hnswIndexes = buildHnswIndexes quant requested.metric
  snapshotLoadCount : store.snapshotLoadCount = 0
  config : ∀ config, kv.config = some config → config = requested

theorem openStore_opened {kv : VectorKv quant} {dimension : Nat} {metric : VectorMetric}
    (h : openStore kv dimension metric = .ok store) :
    Opened kv { dimension := dimension, metric := metric } store := by
  unfold openStore at h
  cases hconfig : kv.config with
  | none =>
      rw [hconfig] at h
      cases h
      exact ⟨rfl, rfl, rfl, rfl, rfl, rfl, rfl, rfl, rfl, rfl, rfl, by simp [hconfig]⟩
  | some persisted =>
      rw [hconfig] at h
      dsimp only at h
      by_cases hmismatch : persisted.dimension ≠ dimension ∨ persisted.metric ≠ metric
      · rw [if_pos hmismatch] at h
        cases h
      · rw [if_neg hmismatch] at h
        have hsame : persisted = { dimension := dimension, metric := metric } := by
          rcases persisted with ⟨persistedDimension, persistedMetric⟩
          simp only [ne_eq, not_or, not_not] at hmismatch
          rw [hmismatch.1, hmismatch.2]
        subst hsame
        cases h
        refine ⟨rfl, rfl, rfl, rfl, hconfig, rfl, rfl, rfl, rfl, rfl, rfl, ?_⟩
        intro config heq
        rw [hconfig] at heq
        exact (Option.some.inj heq).symm

theorem openStore_ok {kv : VectorKv quant} {dimension : Nat} {metric : VectorMetric}
    (h : kv.config = some { dimension := dimension, metric := metric }) :
    ∃ store, openStore kv dimension metric = .ok store := by
  unfold openStore
  rw [h]
  dsimp only
  rw [if_neg (by simp)]
  exact ⟨_, rfl⟩

/-! ## Reading the graphs -/

theorem foldl_loadLevel (levels : List QuantLevel) (loaded : Table QuantLevel (Hnsw quant) × Bool) :
    (∀ level, (levels.foldl (loadLevel format files) loaded).1.lookup level =
      if level ∈ levels then
        ((files.lookup level).bind format.loadHnsw).or (loaded.1.lookup level)
      else loaded.1.lookup level) ∧
    ((levels.foldl (loadLevel format files) loaded).2 = true ↔ loaded.2 = true ∨
      ∃ level ∈ levels, ((files.lookup level).bind format.loadHnsw).isSome = true) := by
  induction levels generalizing loaded with
  | nil => simp
  | cons first levels ih =>
      obtain ⟨hlookup, hany⟩ := ih (loadLevel format files loaded first)
      have hstep : (∀ level, (loadLevel format files loaded first).1.lookup level =
          if level = first then
            ((files.lookup level).bind format.loadHnsw).or (loaded.1.lookup level)
          else loaded.1.lookup level) ∧
          ((loadLevel format files loaded first).2 = true ↔ loaded.2 = true ∨
            ((files.lookup first).bind format.loadHnsw).isSome = true) := by
        unfold loadLevel
        cases hread : (files.lookup first).bind format.loadHnsw with
        | none =>
            refine ⟨fun level => ?_, by simp⟩
            by_cases hlevel : level = first
            · rw [if_pos hlevel, hlevel, hread, Option.none_or]
            · rw [if_neg hlevel]
        | some hnsw =>
            refine ⟨fun level => ?_, by simp⟩
            dsimp only
            rw [Table.lookup_insert]
            by_cases hlevel : level = first
            · rw [if_pos hlevel, if_pos hlevel, hlevel, hread, Option.some_or]
            · rw [if_neg hlevel, if_neg hlevel]
      refine ⟨fun level => ?_, ?_⟩
      · rw [List.foldl_cons, hlookup, hstep.1]
        by_cases hlevel : level = first
        · subst hlevel
          by_cases hmem : level ∈ levels
          · cases (files.lookup level).bind format.loadHnsw <;> simp [hmem]
          · simp [hmem]
        · simp [hlevel]
      · rw [List.foldl_cons, hany, hstep.2, or_assoc]
        simp

theorem mem_quantLevels (level : QuantLevel) : level ∈ quantLevels := by
  cases level <;> decide

/-- Reading the files of a save into empty graphs gives the saved graphs, or finds
that all of them are empty. -/
theorem loadSnapshots_spec (hann : store.annContractEnabled)
    (hempty : store.hnswIndexes = buildHnswIndexes quant store.metric)
    {saved : QuantLevel → Hnsw quant} (hreads : ∀ level, Reads format files level (saved level)) :
    ((store.loadSnapshots format files).2 = false → ∀ level, saved level = []) ∧
      ((store.loadSnapshots format files).2 = true →
        ∃ idMap tombstones indexes, (store.loadSnapshots format files).1 = { store with
            idMap := idMap, hnswIndexes := indexes, tombstones := tombstones } ∧
          idMap = store.kv.idMap.getD store.idMap ∧
          ∀ level, indexes.lookup level = some (saved level)) := by
  obtain ⟨hindexes, hany⟩ := foldl_loadLevel quantLevels (store.hnswIndexes, false)
  unfold loadSnapshots
  generalize quantLevels.foldl (loadLevel format files) (store.hnswIndexes, false) = loaded at *
  rcases loaded with ⟨indexes, loadedAny⟩
  dsimp only at hindexes hany ⊢
  constructor
  · intro hnone level
    have hread := hreads level
    unfold Reads at hread
    cases hlevel : (files.lookup level).bind format.loadHnsw with
    | none =>
        rw [hlevel] at hread
        exact hread
    | some hnsw =>
        have hloaded : loadedAny = true :=
          hany.mpr (.inr ⟨level, mem_quantLevels level, by rw [hlevel]; rfl⟩)
        rw [if_pos hloaded] at hnone
        cases hnone
  · intro hsome
    have hloaded : loadedAny = true := by
      by_contra hnot
      rw [if_neg hnot] at hsome
      cases hsome
    rw [if_pos hloaded]
    refine ⟨_, _, indexes, rfl, rfl, ?_⟩
    intro level
    have hread := hreads level
    unfold Reads at hread
    rw [hindexes, if_pos (mem_quantLevels level), hempty, lookup_buildHnswIndexes hann]
    cases hlevel : (files.lookup level).bind format.loadHnsw with
    | none =>
        rw [hlevel] at hread
        rw [Option.none_or, hread]
    | some hnsw =>
        rw [hlevel] at hread
        rw [Option.some_or, hread]

end

end VectorStore

/-! ## Runs -/

namespace VectorSession

open VectorStore

variable {quant : Quantization} {format : SnapshotFormat quant}

def savedGraph (session : VectorSession format) (level : QuantLevel) : Hnsw quant :=
  (session.lastSave.map fun saved => saved.graph level).getD []

/-- The stored id map, manifest and configuration are those of the last save. -/
structure StoredSnapshot (session : VectorSession format) (saved : VectorStore quant) : Prop where
  booked : saved.Booked
  graphed : saved.Graphed
  metric : session.store.metric = saved.metric
  dimension : session.store.dimension = saved.dimension
  idMap : session.store.kv.idMap = some saved.idMap
  manifest : session.store.kv.manifest = some (saved.currentSnapshotManifest format)
  config : session.store.kv.config =
    some { dimension := session.store.dimension, metric := session.store.metric }

/-- What holds of a session whose metric has graphs. -/
structure Snapshotted (session : VectorSession format) : Prop where
  ann : session.store.annContractEnabled
  booked : session.store.Booked
  graphed : session.store.Graphed
  reads : ∀ level, Reads format session.files level (session.savedGraph level)
  grows : ∀ level, session.savedGraph level <+: session.store.graph level
  saved : ∀ saved, session.lastSave = some saved → session.StoredSnapshot saved
  unsaved : session.lastSave = none → session.store.kv.manifest = none

theorem new_snapshotted (format : SnapshotFormat quant) (dimension : Nat) {metric : VectorMetric}
    (hann : metric ≠ .innerProduct) : (VectorSession.new format dimension metric).Snapshotted where
  ann := hann
  booked := new_booked dimension metric
  graphed := new_graphed dimension hann
  reads := fun level => rfl
  grows := fun level => List.nil_prefix
  saved := by simp [VectorSession.new]
  unsaved := fun _ => rfl

/-- A call that is not a save keeps the files. -/
theorem Snapshotted.step {session session' : VectorSession format} (h : session.Snapshotted)
    {collection path : String} {docid : Option String}
    (hstep : Step session.store session'.store collection path docid)
    (hfiles : session'.files = session.files) (hlast : session'.lastSave = session.lastSave)
    (hmetric : session'.store.metric = session.store.metric)
    (hdimension : session'.store.dimension = session.store.dimension) :
    session'.Snapshotted := by
  have hsavedGraph : ∀ level, session'.savedGraph level = session.savedGraph level := by
    intro level
    rw [savedGraph, savedGraph, hlast]
  refine ⟨?_, hstep.booked h.booked, hstep.graphed h.ann h.booked h.graphed, ?_, ?_, ?_, ?_⟩
  · rw [annContractEnabled, hmetric]
    exact h.ann
  · intro level
    rw [hsavedGraph, hfiles]
    exact h.reads level
  · intro level
    rw [hsavedGraph]
    exact (h.grows level).trans (hstep.graph_prefix h.ann h.graphed level)
  · intro saved hsaved
    have hstored := h.saved saved (hlast ▸ hsaved)
    refine ⟨hstored.booked, hstored.graphed, hmetric.trans hstored.metric,
      hdimension.trans hstored.dimension, hstep.keeps.idMap.trans hstored.idMap,
      hstep.keeps.manifest.trans hstored.manifest, ?_⟩
    rw [hmetric, hdimension]
    rcases hstep.config with hconfig | hconfig
    · rw [hconfig, hstored.config]
    · exact hconfig
  · intro hnone
    rw [hstep.keeps.manifest]
    exact h.unsaved (hlast ▸ hnone)

theorem Snapshotted.save {session : VectorSession format} (h : session.Snapshotted) :
    (session.perform .save).Snapshotted := by
  obtain ⟨saved, hsave, hsame, hidMap, hmanifest, hconfig⟩ :=
    save_spec format session.files h.ann
  have hperform : session.perform .save = VectorSession.mk saved
      (session.store.hnswIndexes.entries.foldl (dumpLevel format) session.files) (some saved) := by
    unfold perform
    rw [hsave]
  have hgraph : ∀ level, saved.graph level = session.store.graph level := by
    intro level
    rw [graph, graph, hsame.hnswIndexes]
  rw [hperform]
  refine ⟨hsame.ann.mpr h.ann, hsame.booked h.booked, hsame.graphed h.graphed, ?_, ?_, ?_, ?_⟩
  · intro level
    obtain ⟨hnsw, hhnsw⟩ := h.graphed.built level
    have hcurrent : session.store.graph level = hnsw := by
      rw [graph, hhnsw]
      rfl
    have hdumped := reads_dump hhnsw (h.reads level) (hcurrent ▸ h.grows level)
    show Reads format _ level (saved.graph level)
    rw [hgraph, hcurrent]
    exact hdumped
  · intro level
    exact List.prefix_refl _
  · intro other hother
    cases hother
    exact ⟨hsame.booked h.booked, hsame.graphed h.graphed, rfl, rfl, hidMap, hmanifest, hconfig⟩
  · intro hnone
    cases hnone

theorem perform_snapshotted {session : VectorSession format} (op : VectorOp quant)
    (h : session.Snapshotted) : (session.perform op).Snapshotted := by
  cases op with
  | save => exact h.save
  | add collection path docid chunkSeq embedding =>
      have hstep := addAtLevel_step session.store collection path docid chunkSeq embedding .full
      exact h.step hstep rfl rfl hstep.metric hstep.dimension
  | addAtLevel collection path docid chunkSeq embedding level =>
      have hstep := addAtLevel_step session.store collection path docid chunkSeq embedding level
      exact h.step hstep rfl rfl hstep.metric hstep.dimension
  | changeLevel collection path targetLevel =>
      have hstep := changeLevel_step session.store collection path targetLevel
      exact h.step hstep rfl rfl hstep.metric hstep.dimension
  | remove collection path =>
      have hstep := remove_step session.store collection path
      exact h.step hstep rfl rfl hstep.metric hstep.dimension

theorem run_snapshotted (format : SnapshotFormat quant) (dimension : Nat) {metric : VectorMetric}
    (hann : metric ≠ .innerProduct) (ops : List (VectorOp quant)) :
    ((VectorSession.new format dimension metric).run ops).Snapshotted := by
  induction ops using List.reverseRecOn with
  | nil => exact new_snapshotted format dimension hann
  | append_singleton ops op ih =>
      rw [run_snoc]
      exact perform_snapshotted op ih

end VectorSession

end BenShu.Engram
