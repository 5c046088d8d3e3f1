import BenShu.Engram.HybridSearch
import BenShu.Engram.VectorRestart

/-!
# Search without a collection

A hybrid search passes the empty collection to the vector store, which takes it for
the name of a collection. The vector stream covers all collections exactly when no
vector has another one.
-/

namespace BenShu.Engram

namespace VectorStore

variable {quant : Quantization} {scoring : Scoring quant} {store : VectorStore quant}
  {query : quant.Vec} {order : HashOrder} {graphSearch : GraphSearch scoring} {limit : Nat}
  {wantedKey wantedKey' : String → Bool} {wanted wanted' : VectorEntry quant → Bool}
  {sameDocument sameDocument' : VectorSearchResult scoring.Score → VectorEntry quant → Bool}

/-- The search whose candidates are the documents of all collections. -/
def searchAll (scoring : Scoring quant) (store : VectorStore quant) (query : quant.Vec)
    (order : HashOrder) (graphSearch : GraphSearch scoring) (limit : Nat) :
    Except VectorFailure (VectorStore quant × List (VectorSearchResult scoring.Score)) :=
  searchCandidates scoring store query order graphSearch (fun _ => true) (fun _ => true)
    (fun result entry => result.collection == entry.collection && result.path == entry.path) limit

/-! ## Searches of the same candidates -/

theorem exactScan_congr {cache : LruCache String quant.Vec}
    (h : ∀ key entry, store.vectorEntries.lookup key = some entry →
      wanted entry = wanted' entry) :
    exactScan scoring store query order wanted cache =
      exactScan scoring store query order wanted' cache := by
  have hfilter : ((iterVectors order store.vectorEntries).map (·.2)).filter wanted =
      ((iterVectors order store.vectorEntries).map (·.2)).filter wanted' := by
    apply List.filter_congr
    intro entry hentry
    rcases List.mem_map.mp hentry with ⟨pair, hpair, heq⟩
    rw [mem_iterVectors, heq] at hpair
    exact h pair.1 entry hpair
  unfold exactScan
  rw [hfilter]

theorem annStep_congr (h : ∀ key entry, store.vectorEntries.lookup key = some entry →
    wantedKey key = wantedKey' key) (level : QuantLevel) :
    annStep scoring store query wantedKey level = annStep scoring store query wantedKey' level := by
  funext found neighbor
  unfold annStep
  split
  · rfl
  · split
    · rfl
    · rename_i key hslot
      cases hentry : store.vectorEntries.lookup key with
      | none =>
          dsimp only
          split <;> split <;> rfl
      | some entry => rw [h key entry hentry]

/-- Searches that agree on the cached entries are the same. -/
theorem searchCandidates_congr
    (hkey : ∀ key entry, store.vectorEntries.lookup key = some entry →
      wantedKey key = wantedKey' key)
    (hwanted : ∀ key entry, store.vectorEntries.lookup key = some entry →
      wanted entry = wanted' entry)
    (hsame : ∀ key entry other score, store.vectorEntries.lookup key = some entry →
      (∃ key, store.vectorEntries.lookup key = some other) →
        sameDocument (resultOf scoring other score) entry =
          sameDocument' (resultOf scoring other score) entry) :
    searchCandidates scoring store query order graphSearch wantedKey wanted sameDocument limit =
      searchCandidates scoring store query order graphSearch wantedKey' wanted' sameDocument'
        limit := by
  have hlevel : annLevel scoring store query graphSearch wantedKey limit =
      annLevel scoring store query graphSearch wantedKey' limit := by
    funext found level
    unfold annLevel
    rw [annStep_congr hkey]
  unfold searchCandidates
  rw [exactScan_congr hwanted, hlevel]
  by_cases hinner : store.metric = .innerProduct
  · rw [if_pos hinner, if_pos hinner]
  · rw [if_neg hinner, if_neg hinner]
    cases hann : quantLevels.foldlM
        (annLevel scoring store query graphSearch wantedKey' limit) (store.decodedCache, []) with
    | error failure => rfl
    | ok found =>
        have hfound := annLevels_result hann
        have hmissing : exactScan scoring store query order (fun entry => wanted entry &&
              !(sortResults scoring found.2).any fun result => sameDocument result entry) found.1 =
            exactScan scoring store query order (fun entry => wanted' entry &&
              !(sortResults scoring found.2).any fun result => sameDocument' result entry)
              found.1 := by
          apply exactScan_congr
          intro key entry hentry
          have hany : ((sortResults scoring found.2).any fun result =>
                sameDocument result entry) =
              (sortResults scoring found.2).any fun result => sameDocument' result entry := by
            rw [Bool.eq_iff_iff, List.any_eq_true, List.any_eq_true]
            apply exists_congr
            intro result
            apply and_congr_right
            intro hresult
            obtain ⟨otherKey, other, score, hother, -, heq⟩ :=
              hfound result (mem_sortResults.mp hresult)
            rw [heq, hsame key entry other score hentry ⟨otherKey, hother⟩]
          rw [hwanted key entry hentry, hany]
        show (if (sortResults scoring found.2).length < limit then _ else _) =
          (if (sortResults scoring found.2).length < limit then _ else _)
        rw [hmissing]

/-! ## Searches whose graphs find nothing -/

theorem recoverSearchVector_ok (cache : LruCache String quant.Vec) (key : String)
    {entry : VectorEntry quant} (h : Recoverable store.quantizers entry) :
    ∃ recovered, store.recoverSearchVector cache key entry = .ok recovered := by
  obtain ⟨embedding, hrecover⟩ := h.recovers store.dimension
  unfold recoverSearchVector
  split
  · exact ⟨_, rfl⟩
  · split
    · exact ⟨_, rfl⟩
    · rw [hrecover]
      exact ⟨_, rfl⟩

theorem foldlM_scanStep (scoring : Scoring quant) (query : quant.Vec)
    (entries : List (VectorEntry quant))
    (h : ∀ entry ∈ entries, Recoverable store.quantizers entry) (start : Found scoring) :
    ∃ found, entries.foldlM (scanStep scoring store query) start = .ok found ∧
      (∀ result ∈ start.2, result ∈ found.2) ∧
      ∀ entry ∈ entries, ∃ score, resultOf scoring entry score ∈ found.2 := by
  induction entries generalizing start with
  | nil => exact ⟨start, rfl, fun _ hresult => hresult, by simp⟩
  | cons entry entries ih =>
      obtain ⟨recovered, hrecover⟩ := recoverSearchVector_ok start.1
        (vectorKey entry.collection entry.path) (h entry List.mem_cons_self)
      have hstep : ∃ next, scanStep scoring store query start entry = .ok next := by
        unfold scanStep
        dsimp only
        rw [hrecover]
        exact ⟨_, rfl⟩
      rcases hstep with ⟨next, hnext⟩
      obtain ⟨score, hscore⟩ := scanStep_result hnext
      obtain ⟨found, hfound, hkeeps, hfinds⟩ :=
        ih (fun other hother => h other (List.mem_cons_of_mem _ hother)) next
      refine ⟨found, ?_, ?_, ?_⟩
      · rw [List.foldlM_cons, hnext]
        exact hfound
      · intro result hresult
        apply hkeeps
        rw [hscore]
        exact List.mem_append_left _ hresult
      · intro other hother
        rcases List.mem_cons.mp hother with heq | hrest
        · refine ⟨score, hkeeps _ ?_⟩
          rw [hscore, heq]
          exact List.mem_append_right _ List.mem_cons_self
        · exact hfinds other hrest

theorem exactScan_ok (scoring : Scoring quant) (query : quant.Vec) (order : HashOrder)
    (wanted : VectorEntry quant → Bool) (cache : LruCache String quant.Vec)
    (hkeyed : store.Keyed) :
    ∃ found, exactScan scoring store query order wanted cache = .ok found ∧
      ∀ key entry, store.vectorEntries.lookup key = some entry → wanted entry = true →
        ∃ score, resultOf scoring entry score ∈ found.2 := by
  have hrecover : ∀ entry ∈ ((iterVectors order store.vectorEntries).map (·.2)).filter wanted,
      Recoverable store.quantizers entry := by
    intro entry hentry
    obtain ⟨pair, hpair, heq⟩ := List.mem_map.mp (List.mem_filter.mp hentry).1
    rw [mem_iterVectors, heq, hkeyed.entries] at hpair
    exact hkeyed.recoverable pair.1 entry hpair
  obtain ⟨found, hfound, -, hfinds⟩ := foldlM_scanStep scoring query _ hrecover (cache, [])
  refine ⟨found, hfound, ?_⟩
  intro key entry hentry hwanted
  apply hfinds
  rw [List.mem_filter, List.mem_map]
  exact ⟨⟨(key, entry), (mem_iterVectors order).mpr hentry, rfl⟩, hwanted⟩

def noPoint (scoring : Scoring quant) : GraphSearch scoring := fun _ _ _ _ => []

theorem foldlM_annLevel_noPoint (levels : List QuantLevel) (found : Found scoring) :
    levels.foldlM (annLevel scoring store query (noPoint scoring) wantedKey limit) found =
      .ok found := by
  have hlevel : ∀ level,
      annLevel scoring store query (noPoint scoring) wantedKey limit found level = .ok found := by
    intro level
    unfold annLevel
    split
    · rfl
    · rfl
  induction levels with
  | nil => rfl
  | cons level levels ih =>
      rw [List.foldlM_cons, hlevel]
      exact ih

theorem searchCandidates_noPoint {found : Found scoring} (limit : Nat)
    (hscan : exactScan scoring store query order wanted store.decodedCache = .ok found)
    (hlimit : found.2.length < limit) :
    ∃ searched results, searchCandidates scoring store query order (noPoint scoring) wantedKey
        wanted sameDocument limit = .ok (searched, results) ∧
      ∀ result, result ∈ results ↔ result ∈ found.2 := by
  have htake : ∀ result, result ∈ (sortResults scoring found.2).take limit ↔
      result ∈ found.2 := by
    intro result
    have hlength : (sortResults scoring found.2).length ≤ limit := by
      rw [sortResults, List.length_insertionSort]
      omega
    rw [List.take_of_length_le hlength, mem_sortResults]
  unfold searchCandidates
  by_cases hinner : store.metric = .innerProduct
  · rw [if_pos hinner, hscan]
    exact ⟨_, _, rfl, htake⟩
  · have hmissing : (fun entry => wanted entry && !(sortResults scoring []).any fun result =>
        sameDocument result entry) = wanted := by
      funext entry
      simp [sortResults]
    rw [if_neg hinner, foldlM_annLevel_noPoint]
    show ∃ searched results, (if (sortResults scoring []).length < limit then _ else _) = _ ∧ _
    rw [if_pos (by simp only [sortResults, List.insertionSort_nil, List.length_nil]; omega),
      hmissing, hscan]
    exact ⟨_, _, rfl, htake⟩

end VectorStore

/-! ## The engine -/

namespace VectorSession

variable {quant : Quantization} {format : SnapshotFormat quant}

/-- The sessions that calls, searches and restarts lead to. -/
inductive Served (format : SnapshotFormat quant) : VectorSession format → Prop where
  | new (dimension : Nat) (metric : VectorMetric) :
      Served format (VectorSession.new format dimension metric)
  | perform {session : VectorSession format} (h : Served format session) (op : VectorOp quant) :
      Served format (session.perform op)
  | search {session : VectorSession format} (h : Served format session)
      (cache : LruCache String quant.Vec) :
      Served format { session with store := { session.store with decodedCache := cache } }
  | restart {session : VectorSession format} {loaded : VectorStore quant}
      (h : Served format session) (order : HashOrder) (dimension : Nat) (metric : VectorMetric)
      (hload : VectorStore.load format order session.store.kv session.files dimension metric =
        .ok loaded) :
      Served format { store := loaded, files := session.files }

theorem Served.keyed {session : VectorSession format} (h : Served format session) :
    session.store.Keyed := by
  induction h with
  | new dimension metric => exact (VectorStore.new_booked dimension metric).toKeyed
  | perform h op ih => exact perform_keyed _ op ih
  | search h cache ih => exact ⟨ih.entries, ih.keyed, ih.recoverable, ih.stored, ih.config⟩
  | restart h order dimension metric hload ih => exact VectorStore.load_keyed ih hload

end VectorSession

namespace HybridSearchEngine

open VectorStore

variable {quant : Quantization} {host : HybridHost quant} {engine : HybridSearchEngine host}

/-- The vector stream if the documents of all collections were the candidates. -/
def globalInput (engine : HybridSearchEngine host) (setting : HybridSetting host)
    (query : String) (limit : Nat) : List (String × host.scoring.Score) :=
  match engine.embed query with
  | some embedding =>
      vectorHits (engine.vectorStore.searchAll host.scoring embedding setting.order
        setting.graphSearch (limit * 2))
  | none => []

/-- The vector stream has the hits of all collections, whatever the graphs' search
finds. -/
def CoversCollections (engine : HybridSearchEngine host) : Prop :=
  ∀ setting query limit hit,
    hit ∈ engine.vectorInput setting query limit ↔ hit ∈ engine.globalInput setting query limit

def EmbedsQuery (engine : HybridSearchEngine host) : Prop :=
  ∃ query embedding, engine.embed query = some embedding

theorem vectorInput_eq (setting : HybridSetting host) (query : String) (limit : Nat) :
    engine.vectorInput setting query limit = match engine.embed query with
      | some embedding =>
          vectorHits (engine.vectorStore.search host.scoring embedding setting.order
            setting.graphSearch "" (limit * 2))
      | none => [] := by
  unfold vectorInput embed
  cases engine.config.useVector with
  | false => rfl
  | true => rfl

theorem search_eq_searchAll (hkeyed : engine.vectorStore.Keyed)
    (h : ∀ key entry, engine.vectorStore.kv.vectors.lookup key = some entry →
      entry.collection = "") (embedding : quant.Vec) (order : HashOrder)
    (graphSearch : GraphSearch host.scoring) (limit : Nat) :
    engine.vectorStore.search host.scoring embedding order graphSearch "" limit =
      engine.vectorStore.searchAll host.scoring embedding order graphSearch limit := by
  rw [← hkeyed.entries] at h
  apply searchCandidates_congr
  · intro key entry hentry
    have hkey := hkeyed.keyed key entry (hkeyed.entries ▸ hentry)
    rw [h key entry hentry] at hkey
    rw [hkey, Text.startsWith_iff, toList_vectorKey]
    exact List.prefix_append _ _
  · intro key entry hentry
    rw [h key entry hentry]
    rfl
  · intro key entry other score hentry hother
    rcases hother with ⟨otherKey, hother⟩
    show (other.path == entry.path) =
      (other.collection == entry.collection && other.path == entry.path)
    rw [h key entry hentry, h otherKey other hother]
    rfl

theorem mem_vectorHits {searched : VectorStore quant}
    {results : List (VectorSearchResult host.scoring.Score)}
    {hit : String × host.scoring.Score} : hit ∈ vectorHits (.ok (searched, results)) ↔
      ∃ result ∈ results, (documentKey result.collection result.path, result.score) = hit :=
  List.mem_map

/-- A vector of another collection is missed when the graphs' search finds nothing. -/
theorem hit_missed (hkeyed : engine.vectorStore.Keyed) {key : String}
    {entry : VectorEntry quant} (hentry : engine.vectorStore.kv.vectors.lookup key = some entry)
    (hcollection : entry.collection ≠ "") {query : String} {embedding : quant.Vec}
    (hembed : engine.embed query = some embedding) :
    ∃ setting limit hit, hit ∈ engine.globalInput setting query limit ∧
      hit ∉ engine.vectorInput setting query limit := by
  have hcached := hentry
  rw [← hkeyed.entries] at hcached
  obtain ⟨all, hall, hfinds⟩ := exactScan_ok host.scoring embedding .same (fun _ => true)
    engine.vectorStore.decodedCache hkeyed
  obtain ⟨named, hnamed, -⟩ := exactScan_ok host.scoring embedding .same
    (fun entry => entry.collection == "") engine.vectorStore.decodedCache hkeyed
  obtain ⟨score, hscore⟩ := hfinds key entry hcached rfl
  let setting : HybridSetting host :=
    { nowMs := 0, order := .same, graphSearch := noPoint host.scoring }
  let limit := all.2.length + named.2.length + 1
  refine ⟨setting, limit, (documentKey entry.collection entry.path, score), ?_, ?_⟩
  · obtain ⟨searched, results, hsearch, hmem⟩ :=
      searchCandidates_noPoint (limit * 2) hall (by omega)
    unfold globalInput
    rw [hembed]
    dsimp only
    unfold searchAll
    rw [hsearch, mem_vectorHits]
    exact ⟨_, (hmem _).mpr hscore, rfl⟩
  · obtain ⟨searched, results, hsearch, hmem⟩ :=
      searchCandidates_noPoint (limit * 2) hnamed (by omega)
    rw [vectorInput_eq, hembed]
    dsimp only
    unfold VectorStore.search
    rw [hsearch, mem_vectorHits]
    intro hhit
    rcases hhit with ⟨result, hresult, heq⟩
    obtain ⟨otherKey, other, otherScore, hother, hname, hof⟩ :=
      exactScan_result hnamed result ((hmem result).mp hresult)
    -- equal document keys are equal vector keys, so the entries are the same
    have hdocument : documentKey other.collection other.path =
        documentKey entry.collection entry.path := by
      rw [hof] at heq
      exact (Prod.mk.inj heq).1
    rw [hkeyed.entries] at hother
    have hkeys : otherKey = key := by
      rw [hkeyed.keyed otherKey other hother, hkeyed.keyed key entry hentry, vectorKey_eq,
        vectorKey_eq, hdocument]
    rw [hkeys, hentry] at hother
    cases hother
    exact hcollection (by simpa using hname)

/-- In every state an engine can be served in, the vector stream of a search without a
collection covers all collections exactly when no query is embedded or every stored
vector has the empty collection. -/
theorem coversCollections_iff {format : SnapshotFormat quant} {session : VectorSession format}
    (h : VectorSession.Served format session) (engine : HybridSearchEngine host)
    (hstore : engine.vectorStore = session.store) :
    engine.CoversCollections ↔ (engine.EmbedsQuery →
      ∀ key entry, engine.vectorStore.kv.vectors.lookup key = some entry →
        entry.collection = "") := by
  have hkeyed := h.keyed
  rw [← hstore] at hkeyed
  constructor
  · intro hcovers hembeds key entry hentry
    rcases hembeds with ⟨query, embedding, hembed⟩
    by_contra hcollection
    obtain ⟨setting, limit, hit, hglobal, hmissed⟩ :=
      hit_missed hkeyed hentry hcollection hembed
    exact hmissed ((hcovers setting query limit hit).mpr hglobal)
  · intro hempty setting query limit hit
    rw [vectorInput_eq, globalInput]
    cases hembed : engine.embed query with
    | none => rfl
    | some embedding =>
        dsimp only
        rw [search_eq_searchAll hkeyed (hempty ⟨query, embedding, hembed⟩)]

/-- The engine of a session whose only vector has no collection. -/
def unnamedEngine : HybridSearchEngine wordHybridHost where
  vectorStore := ((VectorSession.new intSnapshots 2 .cosine).run
    [.add "" "a" "d" 0 [1, 0]]).store
  config := { dedupThreshold := (1 : Int) }

theorem unnamedEngine_covers : unnamedEngine.CoversCollections := by
  have hnew : VectorSession.Served intSnapshots (VectorSession.new intSnapshots 2 .cosine) :=
    .new 2 .cosine
  have hserved : VectorSession.Served intSnapshots
      ((VectorSession.new intSnapshots 2 .cosine).run [.add "" "a" "d" 0 [1, 0]]) :=
    hnew.perform (.add "" "a" "d" 0 [1, 0])
  refine (coversCollections_iff hserved unnamedEngine rfl).mpr ?_
  intro hembeds key entry hentry
  have hkey : key ∈ unnamedEngine.vectorStore.kv.vectors.keys :=
    Table.mem_keys_iff.mpr ⟨entry, hentry⟩
  cases List.mem_singleton.mp hkey
  cases hentry
  rfl

def docsEngine : HybridSearchEngine wordHybridHost :=
  ((HybridSearchEngine.new { dedupThreshold := (1 : Int) } 2 .cosine).indexAtLevel
    wordSetting "docs" "a" "Title" "text" .full false ∅).1

/-- The only vector is one of `docs`, and the vector stream is empty. -/
theorem docsEngine_misses : ¬docsEngine.CoversCollections := by
  intro h
  have hhit := (h wordSetting "text" 1 (documentKey "docs" "a", (1 : Int))).mpr
    List.mem_cons_self
  cases hhit

end HybridSearchEngine

end BenShu.Engram
