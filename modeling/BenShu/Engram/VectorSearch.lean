import BenShu.Engram.VectorBookkeeping
import BenShu.Lib.FallibleRun
import Mathlib.Algebra.Ring.Int.Defs

/-!
# Vector search

A search asks the graph of every level for neighbours, drops those that are retired,
foreign or of another level, and fills up from an exact scan of the cached entries.
The inner product is scanned only. Scores and the graph search are parameters.
-/

namespace BenShu.Engram

/-- Scores of vectors, and the order they are compared in. -/
structure Scoring (quant : Quantization) where
  Score : Type
  scoreVector : VectorMetric → quant.Vec → quant.Vec → Score
  scoreNeighborDistance : VectorMetric → Score → Score
  zero : Score
  partialCmp : Score → Score → Option Ordering

structure Neighbour (Score : Type) where
  dId : Nat
  distance : Score

/-- The search of a graph, with the number of neighbours wanted and `ef`. -/
abbrev GraphSearch {quant : Quantization} (scoring : Scoring quant) :=
  Hnsw quant → quant.Vec → Nat → Nat → List (Neighbour scoring.Score)

structure VectorSearchResult (Score : Type) where
  docid : String
  collection : String
  path : String
  score : Score
  level : QuantLevel

namespace VectorStore

variable {quant : Quantization} (scoring : Scoring quant)

def resultOf (entry : VectorEntry quant) (score : scoring.Score) :
    VectorSearchResult scoring.Score where
  docid := entry.docid
  collection := entry.collection
  path := entry.path
  score := score
  level := entry.quantLevel

/-- The better of two results comes first; what cannot be compared keeps its place. -/
def BeforeOrEqual (left right : VectorSearchResult scoring.Score) : Prop :=
  (scoring.partialCmp right.score left.score).getD .eq ≠ .gt

instance : DecidableRel (BeforeOrEqual scoring) :=
  fun _ _ => inferInstanceAs (Decidable (_ ≠ _))

def sortResults (results : List (VectorSearchResult scoring.Score)) :
    List (VectorSearchResult scoring.Score) :=
  results.insertionSort (BeforeOrEqual scoring)

/-- The vector of an entry: its own, a decoded one from the cache, or one decoded now. -/
def recoverSearchVector (store : VectorStore quant) (cache : LruCache String quant.Vec)
    (key : String) (entry : VectorEntry quant) :
    Except VectorFailure (LruCache String quant.Vec × Option quant.Vec) :=
  match entry.embedding with
  | some embedding => .ok (cache, some embedding)
  | none =>
      match cache.get key with
      | (some vector, cache) => .ok (cache, some vector)
      | (none, cache) => do
          match ← recoverEmbedding store.quantizers store.dimension entry with
          | some decoded => .ok (cache.put key decoded, some decoded)
          | none => .ok (cache, none)

section

variable (store : VectorStore quant) (query : quant.Vec)

abbrev Found := LruCache String quant.Vec × List (VectorSearchResult scoring.Score)

def scanStep (found : Found scoring) (entry : VectorEntry quant) :
    Except VectorFailure (Found scoring) := do
  let key := vectorKey entry.collection entry.path
  let (cache, recovered) ← store.recoverSearchVector found.1 key entry
  let score := (recovered.map (scoring.scoreVector store.metric query)).getD scoring.zero
  .ok (cache, found.2 ++ [resultOf scoring entry score])

def exactScan (order : HashOrder) (wanted : VectorEntry quant → Bool)
    (cache : LruCache String quant.Vec) : Except VectorFailure (Found scoring) :=
  (((iterVectors order store.vectorEntries).map (·.2)).filter wanted).foldlM
    (scanStep scoring store query) (cache, [])

def annStep (wantedKey : String → Bool) (level : QuantLevel) (found : Found scoring)
    (neighbor : Neighbour scoring.Score) : Except VectorFailure (Found scoring) :=
  if neighbor.dId ∈ store.tombstones then .ok found
  else
    match store.idMap[neighbor.dId]? with
    | none => .ok found
    | some key =>
        if !wantedKey key then .ok found
        else
          match store.vectorEntries.lookup key with
          | none => .ok found
          | some entry =>
              if entry.quantLevel ≠ level then .ok found
              else do
                let (cache, recovered) ← store.recoverSearchVector found.1 key entry
                -- an entry with a code is recovered, so no codes are compared here
                let score := match recovered with
                  | some decoded => scoring.scoreVector store.metric query decoded
                  | none => scoring.scoreNeighborDistance store.metric neighbor.distance
                .ok (cache, found.2 ++ [resultOf scoring entry score])

def annLevel (graphSearch : GraphSearch scoring) (wantedKey : String → Bool) (limit : Nat)
    (found : Found scoring) (level : QuantLevel) : Except VectorFailure (Found scoring) :=
  match store.hnswIndexes.lookup level with
  | none => .ok found
  | some hnsw =>
      (graphSearch hnsw query limit 128).foldlM (annStep scoring store query wantedKey level) found

/-- A search among candidates: which keys and entries are wanted, and when a result is
of the same document as an entry. -/
def searchCandidates (order : HashOrder) (graphSearch : GraphSearch scoring)
    (wantedKey : String → Bool) (wanted : VectorEntry quant → Bool)
    (sameDocument : VectorSearchResult scoring.Score → VectorEntry quant → Bool) (limit : Nat) :
    Except VectorFailure (VectorStore quant × List (VectorSearchResult scoring.Score)) :=
  if store.metric = .innerProduct then do
    let (cache, results) ← exactScan scoring store query order wanted store.decodedCache
    .ok ({ store with decodedCache := cache }, (sortResults scoring results).take limit)
  else do
    let (cache, results) ← quantLevels.foldlM
      (annLevel scoring store query graphSearch wantedKey limit) (store.decodedCache, [])
    let results := sortResults scoring results
    if results.length < limit then
      let missing := fun entry =>
        wanted entry && !results.any fun result => sameDocument result entry
      let (cache, supplemental) ← exactScan scoring store query order missing cache
      let results := sortResults scoring (results ++ supplemental)
      .ok ({ store with decodedCache := cache }, results.take limit)
    else .ok ({ store with decodedCache := cache }, results.take limit)

def search (order : HashOrder) (graphSearch : GraphSearch scoring) (collection : String)
    (limit : Nat) :
    Except VectorFailure (VectorStore quant × List (VectorSearchResult scoring.Score)) :=
  searchCandidates scoring store query order graphSearch
    (fun key => Text.startsWith key s!"v:{collection}:")
    (fun entry => entry.collection == collection)
    (fun result entry => result.path == entry.path) limit

end

/-! ## What a search returns -/

section

variable {scoring} {store : VectorStore quant} {query : quant.Vec} {found found' : Found scoring}

def ResultOf (scoring : Scoring quant) (store : VectorStore quant)
    (described : String → VectorEntry quant → Prop)
    (result : VectorSearchResult scoring.Score) : Prop :=
  ∃ key entry score, store.vectorEntries.lookup key = some entry ∧ described key entry ∧
    result = resultOf scoring entry score

theorem scanStep_result {entry : VectorEntry quant}
    (h : scanStep scoring store query found entry = .ok found') :
    ∃ score, found'.2 = found.2 ++ [resultOf scoring entry score] := by
  rcases FallibleRun.bind_eq_ok.mp h with ⟨recovered, -, hfound⟩
  cases hfound
  exact ⟨_, rfl⟩

theorem annStep_result {wantedKey : String → Bool} {level : QuantLevel}
    {neighbor : Neighbour scoring.Score}
    (h : annStep scoring store query wantedKey level found neighbor = .ok found') :
    found'.2 = found.2 ∨ ∃ key entry score, store.vectorEntries.lookup key = some entry ∧
      wantedKey key = true ∧ found'.2 = found.2 ++ [resultOf scoring entry score] := by
  unfold annStep at h
  by_cases hdead : neighbor.dId ∈ store.tombstones
  · rw [if_pos hdead] at h
    cases h
    exact .inl rfl
  rw [if_neg hdead] at h
  cases hslot : store.idMap[neighbor.dId]? with
  | none =>
      rw [hslot] at h
      cases h
      exact .inl rfl
  | some key =>
      rw [hslot] at h
      dsimp only at h
      by_cases hkey : wantedKey key = true
      · rw [if_neg (by simp [hkey])] at h
        cases hentry : store.vectorEntries.lookup key with
        | none =>
            rw [hentry] at h
            cases h
            exact .inl rfl
        | some entry =>
            rw [hentry] at h
            dsimp only at h
            by_cases hlevel : entry.quantLevel ≠ level
            · rw [if_pos hlevel] at h
              cases h
              exact .inl rfl
            · rw [if_neg hlevel] at h
              rcases FallibleRun.bind_eq_ok.mp h with ⟨recovered, -, hfound⟩
              cases hfound
              exact .inr ⟨key, entry, _, hentry, hkey, rfl⟩
      · rw [if_pos (by simp [hkey])] at h
        cases h
        exact .inl rfl

theorem exactScan_result {order : HashOrder} {wanted : VectorEntry quant → Bool}
    {cache : LruCache String quant.Vec}
    (h : exactScan scoring store query order wanted cache = .ok found) :
    ∀ result ∈ found.2, ResultOf scoring store (fun _ entry => wanted entry = true) result := by
  apply FallibleRun.foldlM_preserves
    (P := fun found : Found scoring => ∀ result ∈ found.2,
      ResultOf scoring store (fun _ entry => wanted entry = true) result) ?_ ?_ h
  · intro entry hentry before after hbefore hstep result hresult
    obtain ⟨score, hafter⟩ := scanStep_result hstep
    rw [hafter, List.mem_append, List.mem_singleton] at hresult
    rcases hresult with hold | hnew
    · exact hbefore result hold
    · rw [List.mem_filter, List.mem_map] at hentry
      rcases hentry with ⟨⟨pair, hpair, hcached⟩, hwanted⟩
      rw [mem_iterVectors, hcached] at hpair
      exact ⟨pair.1, entry, score, hpair, hwanted, hnew⟩
  · intro result hresult
    cases hresult

theorem annLevel_result {graphSearch : GraphSearch scoring} {wantedKey : String → Bool}
    {limit : Nat} {level : QuantLevel}
    (h : annLevel scoring store query graphSearch wantedKey limit found level = .ok found')
    (hfound : ∀ result ∈ found.2,
      ResultOf scoring store (fun key _ => wantedKey key = true) result) :
    ∀ result ∈ found'.2, ResultOf scoring store (fun key _ => wantedKey key = true) result := by
  unfold annLevel at h
  cases hhnsw : store.hnswIndexes.lookup level with
  | none =>
      rw [hhnsw] at h
      cases h
      exact hfound
  | some hnsw =>
      rw [hhnsw] at h
      apply FallibleRun.foldlM_preserves
        (P := fun found : Found scoring => ∀ result ∈ found.2,
          ResultOf scoring store (fun key _ => wantedKey key = true) result) ?_ hfound h
      intro neighbor hneighbor before after hbefore hstep result hresult
      rcases annStep_result hstep with hsame | ⟨key, entry, score, hentry, hkey, hafter⟩
      · rw [hsame] at hresult
        exact hbefore result hresult
      · rw [hafter, List.mem_append, List.mem_singleton] at hresult
        rcases hresult with hold | hnew
        · exact hbefore result hold
        · exact ⟨key, entry, score, hentry, hkey, hnew⟩

theorem annLevels_result {graphSearch : GraphSearch scoring} {wantedKey : String → Bool}
    {limit : Nat} {levels : List QuantLevel} {cache : LruCache String quant.Vec}
    (h : levels.foldlM (annLevel scoring store query graphSearch wantedKey limit) (cache, []) =
      .ok found) :
    ∀ result ∈ found.2, ResultOf scoring store (fun key _ => wantedKey key = true) result := by
  apply FallibleRun.foldlM_preserves
    (P := fun found : Found scoring => ∀ result ∈ found.2,
      ResultOf scoring store (fun key _ => wantedKey key = true) result) ?_ ?_ h
  · intro level hlevel before after hbefore hstep
    exact annLevel_result hstep hbefore
  · intro result hresult
    cases hresult

theorem mem_sortResults {results : List (VectorSearchResult scoring.Score)}
    {result : VectorSearchResult scoring.Score} :
    result ∈ sortResults scoring results ↔ result ∈ results :=
  (List.perm_insertionSort _ results).mem_iff

theorem ResultOf.mono {described described' : String → VectorEntry quant → Prop}
    {result : VectorSearchResult scoring.Score} (h : ResultOf scoring store described result)
    (himp : ∀ key entry, described key entry → described' key entry) :
    ResultOf scoring store described' result := by
  rcases h with ⟨key, entry, score, hentry, hdescribed, hresult⟩
  exact ⟨key, entry, score, hentry, himp key entry hdescribed, hresult⟩

section

variable {order : HashOrder} {graphSearch : GraphSearch scoring} {wantedKey : String → Bool}
  {wanted : VectorEntry quant → Bool}
  {sameDocument : VectorSearchResult scoring.Score → VectorEntry quant → Bool} {limit : Nat}
  {searched : VectorStore quant} {results : List (VectorSearchResult scoring.Score)}

/-- A search that succeeds is an exact scan, or the approximate search and, where that
leaves room, an exact scan of what it missed. The store changes in its cache of decoded
vectors only. -/
theorem searchCandidates_cases
    (h : searchCandidates scoring store query order graphSearch wantedKey wanted sameDocument
      limit = .ok (searched, results)) :
    ∃ found, searched = { store with decodedCache := found.1 } ∧
      results = (sortResults scoring found.2).take limit ∧
      ((store.metric = .innerProduct ∧
          exactScan scoring store query order wanted store.decodedCache = .ok found) ∨
        (store.annContractEnabled ∧ ∃ neighbours,
          quantLevels.foldlM (annLevel scoring store query graphSearch wantedKey limit)
            (store.decodedCache, []) = .ok neighbours ∧
          (found = neighbours ∨ ∃ more,
            exactScan scoring store query order (fun entry => wanted entry &&
              !(sortResults scoring neighbours.2).any fun result => sameDocument result entry)
              neighbours.1 = .ok more ∧
            found = (more.1, sortResults scoring neighbours.2 ++ more.2)))) := by
  unfold searchCandidates at h
  by_cases hinner : store.metric = .innerProduct
  · rw [if_pos hinner] at h
    rcases FallibleRun.bind_eq_ok.mp h with ⟨found, hscan, hresult⟩
    cases hresult
    exact ⟨found, rfl, rfl, .inl ⟨hinner, hscan⟩⟩
  · rw [if_neg hinner] at h
    rcases FallibleRun.bind_eq_ok.mp h with ⟨neighbours, hann, hrest⟩
    dsimp only at hrest
    by_cases hshort : (sortResults scoring neighbours.2).length < limit
    · rw [if_pos hshort] at hrest
      rcases FallibleRun.bind_eq_ok.mp hrest with ⟨more, hscan, hresult⟩
      cases hresult
      refine ⟨(more.1, sortResults scoring neighbours.2 ++ more.2), rfl, rfl, .inr ⟨hinner, ?_⟩⟩
      exact ⟨neighbours, hann, .inr ⟨more, hscan, rfl⟩⟩
    · rw [if_neg hshort] at hrest
      cases hrest
      exact ⟨neighbours, rfl, rfl, .inr ⟨hinner, neighbours, hann, .inl rfl⟩⟩

theorem searchCandidates_result
    (h : searchCandidates scoring store query order graphSearch wantedKey wanted sameDocument
      limit = .ok (searched, results)) :
    ∀ result ∈ results, ResultOf scoring store (fun key entry =>
      (store.annContractEnabled ∧ wantedKey key = true) ∨ wanted entry = true) result := by
  intro result hresult
  obtain ⟨found, -, hresults, hfound⟩ := searchCandidates_cases h
  rw [hresults] at hresult
  have hmem := mem_sortResults.mp (List.mem_of_mem_take hresult)
  rcases hfound with ⟨-, hscan⟩ | ⟨henabled, neighbours, hann, hmore⟩
  · exact (exactScan_result hscan result hmem).mono fun _ _ hwanted => .inr hwanted
  · have hneighbour : ∀ result ∈ neighbours.2, ResultOf scoring store (fun key entry =>
        (store.annContractEnabled ∧ wantedKey key = true) ∨ wanted entry = true) result := by
      intro result hmem
      exact (annLevels_result hann result hmem).mono fun _ _ hkey => .inl ⟨henabled, hkey⟩
    rcases hmore with heq | ⟨more, hscan, heq⟩
    · rw [heq] at hmem
      exact hneighbour result hmem
    · rw [heq] at hmem
      rcases List.mem_append.mp hmem with hold | hnew
      · exact hneighbour result (mem_sortResults.mp hold)
      · refine (exactScan_result hscan result hnew).mono fun _ _ hwanted => .inr ?_
        rw [Bool.and_eq_true] at hwanted
        exact hwanted.1

theorem searchCandidates_store
    (h : searchCandidates scoring store query order graphSearch wantedKey wanted sameDocument
      limit = .ok (searched, results)) :
    ∃ cache, searched = { store with decodedCache := cache } := by
  obtain ⟨found, hstore, -, -⟩ := searchCandidates_cases h
  exact ⟨found.1, hstore⟩

end

end

end VectorStore

/-! ## Integer scores -/

def intInner (left right : List Int) : Int := (List.zipWith (fun x y => x * y) left right).sum

/-- The inner product, which is the cosine of unit vectors. -/
def intScoring : Scoring intQuantization where
  Score := Int
  scoreVector := fun _ => intInner
  scoreNeighborDistance := fun _ distance => 1 - distance
  zero := 0
  partialCmp := fun left right => some (compare left right)

def everyPoint : GraphSearch intScoring := fun hnsw query limit _ =>
  (hnsw.map fun point =>
    { dId := point.2, distance := (1 - intInner query point.1 : Int) }).take limit

end BenShu.Engram
