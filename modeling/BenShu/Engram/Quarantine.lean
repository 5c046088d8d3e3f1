import BenShu.Engram.HybridResults
import BenShu.Lib.Selection
import Mathlib.Data.List.TakeWhile

/-!
# Quarantine in hybrid searches

A document is quarantined while it is unverified, or archived or pruned. The full-text searches
leave quarantined documents out. The vector stream does not, and what only it finds is read
from the store as it is.
-/

namespace BenShu.Engram

variable {quant : Quantization} {host : HybridHost quant} {scores : SearchScores host}

def Quarantined (doc : Document) : Prop :=
  doc.unverified = true ∨ documentIsArchived doc = true

theorem not_quarantined_iff {doc : Document} :
    ¬Quarantined doc ↔ (!(doc.unverified || documentIsArchived doc)) = true := by
  unfold Quarantined
  cases doc.unverified <;> cases documentIsArchived doc <;> simp

/-! ## Keys -/

theorem documentKey_splitDocumentKey {key : String} {parts : String × String}
    (h : splitDocumentKey key = some parts) : documentKey parts.1 parts.2 = key := by
  unfold splitDocumentKey at h
  have hsplit := List.takeWhile_append_dropWhile (p := (· ≠ ':')) (l := key.toList)
  rcases hdrop : key.toList.dropWhile (· ≠ ':') with _ | ⟨colon, path⟩
  · rw [hdrop] at h
    cases h
  · rw [hdrop] at h
    cases h
    have hcolon : colon = ':' := by
      have hhead := List.head?_dropWhile_not (· ≠ ':') key.toList
      rw [hdrop, List.head?_cons] at hhead
      simpa using hhead
    subst hcolon
    rw [hdrop] at hsplit
    apply String.toList_injective
    simpa [documentKey, ToString.toString, String.toList_append] using hsplit

theorem splitDocumentKey_documentKey (collection path : String) :
    (splitDocumentKey (documentKey collection path)).isSome := by
  unfold splitDocumentKey
  have hcolon : ':' ∈ (documentKey collection path).toList := by
    simp [documentKey, ToString.toString, String.toList_append]
  rcases hdrop : (documentKey collection path).toList.dropWhile (· ≠ ':') with _ | ⟨colon, rest⟩
  · have hall := List.dropWhile_eq_nil_iff.mp hdrop ':' hcolon
    simp at hall
  · rfl

namespace HybridSearchEngine

theorem vectorInput_key {engine : HybridSearchEngine host} {setting : HybridSetting host}
    {query : String} {limit : Nat} {hit : String × host.scoring.Score}
    (h : hit ∈ engine.vectorInput setting query limit) :
    ∃ collection path, hit.1 = documentKey collection path := by
  unfold vectorInput at h
  split_ifs at h
  · rcases hembed : engine.embed query with _ | embedding
    · rw [hembed] at h
      cases h
    · rw [hembed] at h
      dsimp only at h
      unfold vectorHits at h
      rcases hsearch : engine.vectorStore.search host.scoring embedding setting.order
        setting.graphSearch "" (limit * 2) with failure | ⟨searched, results⟩
      · rw [hsearch] at h
        cases h
      · rw [hsearch] at h
        obtain ⟨result, -, rfl⟩ := List.mem_map.mp h
        exact ⟨result.collection, result.path, rfl⟩
  · cases h

/-! ## Results -/

section Results

variable {store : EngramStore} {bm25Results : List (SearchResult scores.arith.Score)}
  {entry : FusedResult scores.arith} {result : HybridSearchResult host scores.arith}

theorem fusedResult_score (h : fusedResult scores store bm25Results entry = some result) :
    result.rrfScore = entry.rrfScore := by
  unfold fusedResult at h
  rcases hfind : bm25Results.find? fun found => bm25Key found == entry.docid with _ | found
  · rw [hfind] at h
    obtain ⟨parts, -, hresult⟩ := Option.bind_eq_some_iff.mp h
    obtain ⟨document, -, rfl⟩ := Option.map_eq_some_iff.mp hresult
    rfl
  · rw [hfind] at h
    cases h
    rfl

theorem fusedResult_found (hkey : entry.docid ∈ bm25Results.map bm25Key)
    (h : fusedResult scores store bm25Results entry = some result) :
    ∃ found ∈ bm25Results, result.document = found.document := by
  unfold fusedResult at h
  rcases hfind : bm25Results.find? fun found => bm25Key found == entry.docid with _ | found
  · obtain ⟨found, hfound, hsame⟩ := List.mem_map.mp hkey
    rw [List.find?_eq_none] at hfind
    exact absurd (beq_iff_eq.mpr hsame) (hfind found hfound)
  · rw [hfind] at h
    cases h
    exact ⟨found, List.mem_of_find?_eq_some hfind, rfl⟩

theorem fusedResult_stored (hkey : entry.docid ∉ bm25Results.map bm25Key)
    {collection path : String} (hdocid : entry.docid = documentKey collection path) :
    (fusedResult scores store bm25Results entry).map (·.document) =
      store.getByDocKey entry.docid := by
  unfold fusedResult
  have hfind : bm25Results.find? (fun found => bm25Key found == entry.docid) = none := by
    rw [List.find?_eq_none]
    intro found hfound hsame
    exact hkey (List.mem_map.mpr ⟨found, hfound, beq_iff_eq.mp hsame⟩)
  rw [hfind]
  dsimp only
  obtain ⟨parts, hparts⟩ := Option.isSome_iff_exists.mp
    (hdocid ▸ splitDocumentKey_documentKey collection path)
  rw [hparts, Option.bind_some, Option.map_map]
  unfold EngramStore.getByPath
  rw [documentKey_splitDocumentKey hparts]
  exact Option.map_id'

end Results

def Cleared (results : List (HybridSearchResult host scores.arith)) : Prop :=
  ∀ result ∈ results, ¬Quarantined result.document

variable {results : List (HybridSearchResult host scores.arith)}

theorem cleared_iff_documents :
    Cleared results ↔ ∀ doc ∈ results.map (·.document), ¬Quarantined doc := by
  unfold Cleared
  rw [List.forall_mem_map]

theorem cleared_withRanks_iff : Cleared (withRanks results) ↔ Cleared results := by
  rw [cleared_iff_documents, cleared_iff_documents, withRanks, List.map_map]
  have hdocuments : results.zipIdx.map
      ((·.document) ∘ fun entry => { entry.1 with rank := entry.2 + 1 }) =
        results.map (·.document) := by
    conv => rhs; rw [← List.zipIdx_map_fst 0 results, List.map_map]
    rfl
  rw [hdocuments]

theorem cleared_reranked_iff (ranking : RankingConfig scores.arith)
    (setting : SearchSetting scores) (query : String) :
    Cleared (reranked ranking setting query results) ↔ Cleared results := by
  unfold reranked
  split_ifs
  · rcases setting.reranker with _ | reranker
    · rfl
    · rcases hreranked : reranker.rerank query results with _ | reordered
      · simp [hreranked]
      · simp only [hreranked, Option.getD_some]
        rw [cleared_iff_documents, cleared_iff_documents]
        have hperm := reranker.reorders hreranked
        exact ⟨fun h doc hdoc => h doc (hperm.mem_iff.mpr hdoc),
          fun h doc hdoc => h doc (hperm.mem_iff.mp hdoc)⟩
  · rfl

/-- The keys in the first places of the fused ranking, among those with a document. -/
def leadingKeys (store : EngramStore) (ranking : RankingConfig scores.arith)
    (setting : SearchSetting scores) (bm25Results : List (SearchResult scores.arith.Score))
    (vectorInput : List (String × host.scoring.Score)) (limit : Nat) : List String :=
  (((fusedEntries ranking setting bm25Results vectorInput).filter fun entry =>
      (fusedResult scores store bm25Results entry).isSome).insertionSort
    fun left right => RanksBefore scores left.rrfScore right.rrfScore).take limit |>.map (·.docid)

/-- No hit of the vector stream alone brings a quarantined document to the first places. -/
def HitsCleared (store : EngramStore) (ranking : RankingConfig scores.arith)
    (setting : SearchSetting scores) (bm25Results : List (SearchResult scores.arith.Score))
    (vectorInput : List (String × host.scoring.Score)) (limit : Nat) : Prop :=
  ∀ hit ∈ vectorInput, hit.1 ∉ bm25Results.map bm25Key →
    hit.1 ∈ leadingKeys store ranking setting bm25Results vectorInput limit →
      ∀ doc, store.getByDocKey hit.1 = some doc → ¬Quarantined doc

section Assembled

variable (store : EngramStore) (ranking : RankingConfig scores.arith)
  (setting : SearchSetting scores) {bm25Results : List (SearchResult scores.arith.Score)}
  {vectorInput : List (String × host.scoring.Score)} (limit : Nat)

theorem cleared_best_iff
    (hbm25 : ∀ found ∈ bm25Results, ¬Quarantined found.document)
    (hkeys : ∀ hit ∈ vectorInput, ∃ collection path, hit.1 = documentKey collection path) :
    Cleared (best limit (assembled store ranking setting bm25Results vectorInput)) ↔
      HitsCleared store ranking setting bm25Results vectorInput limit := by
  unfold assembled best
  split_ifs with hempty
  · rw [List.isEmpty_iff] at hempty
    subst hempty
    refine iff_of_true (fun result hresult => ?_) fun hit hhit => absurd hhit List.not_mem_nil
    have hmem := (List.mem_insertionSort _).mp (List.mem_of_mem_take hresult)
    obtain ⟨found, hfound, rfl⟩ := List.mem_map.mp hmem
    exact hbm25 found hfound
  · unfold Cleared
    rw [Selection.forall_mem_best_iff
      (r := fun left right : FusedResult scores.arith =>
        RanksBefore scores left.rrfScore right.rrfScore)
      (fun entry result entry' result' hresult hresult' => by
        rw [fusedResult_score hresult, fusedResult_score hresult'])]
    constructor
    · intro hcleared hit hhit hnew hleading doc hdoc
      obtain ⟨entry, hentry, hdocid⟩ := List.mem_map.mp hleading
      obtain ⟨collection, path, hkey⟩ := hkeys hit hhit
      rw [← hdocid] at hnew hdoc hkey
      have hstored := @fusedResult_stored _ host scores store bm25Results entry hnew _ _ hkey
      rw [← hstored] at hdoc
      obtain ⟨result, hresult, rfl⟩ := Option.map_eq_some_iff.mp hdoc
      exact hcleared entry hentry result hresult
    · intro hhits entry hentry result hresult
      have hfused := (List.mem_filter.mp
        ((List.mem_insertionSort _).mp (List.mem_of_mem_take hentry))).1
      by_cases hbm25Key : entry.docid ∈ bm25Results.map bm25Key
      · obtain ⟨found, hfound, hdocument⟩ := fusedResult_found hbm25Key hresult
        rw [hdocument]
        exact hbm25 found hfound
      · rcases RrfConfig.mem_fuseHybrid hfused with hstream | hstream
        · rw [List.map_map] at hstream
          exact absurd hstream hbm25Key
        · rw [List.map_map] at hstream
          obtain ⟨hit, hhit, hdocid⟩ := List.mem_map.mp hstream
          have hdocid : hit.1 = entry.docid := hdocid
          obtain ⟨collection, path, hkey⟩ := hkeys hit hhit
          have hstored := @fusedResult_stored _ host scores store bm25Results entry hbm25Key _ _
            (hdocid.symm.trans hkey)
          rw [hresult, Option.map_some] at hstored
          refine hhits hit hhit (hdocid ▸ hbm25Key) ?_ result.document ?_
          · rw [hdocid]
            exact List.mem_map.mpr ⟨entry, hentry, rfl⟩
          · rw [hdocid]
            exact hstored.symm

end Assembled

/-! ## Searches -/

section Store

variable {store store' : EngramStore} {ranking : RankingConfig scores.arith}
  {setting : SearchSetting scores} {bm25Results : List (SearchResult scores.arith.Score)}
  {vectorInput : List (String × host.scoring.Score)} {limit : Nat}

theorem hitsCleared_congr (h : store.documents = store'.documents) :
    HitsCleared store ranking setting bm25Results vectorInput limit ↔
      HitsCleared store' ranking setting bm25Results vectorInput limit := by
  have hdocKey : ∀ key, store.getByDocKey key = store'.getByDocKey key := fun key => by
    unfold EngramStore.getByDocKey
    rw [h]
  have hfused : fusedResult scores store bm25Results =
      fusedResult scores store' bm25Results := by
    funext entry
    unfold fusedResult EngramStore.getByPath
    simp only [hdocKey]
  unfold HitsCleared leadingKeys
  simp only [hfused, hdocKey]

end Store

theorem placed_cleared (ranking : RankingConfig scores.arith)
    {bm25Results : List (SearchResult scores.arith.Score)}
    (h : ∀ found ∈ bm25Results, ¬Quarantined found.document) :
    @Cleared quant host scores (placed ranking bm25Results) := by
  intro result hresult
  obtain ⟨⟨found, place⟩, hfound, rfl⟩ := List.mem_map.mp hresult
  exact h found (List.fst_mem_of_mem_zipIdx hfound)

variable (engine : HybridSearchEngine host) (ranking : RankingConfig scores.arith)

theorem searchWith_cleared {wanted : Document → Bool}
    (hwanted : ∀ doc, wanted doc = true → ¬Quarantined doc) (store : EngramStore) (query : String)
    (everyKey : Bool) (fetched limit : Nat) :
    ∀ results, ((store.searchWith host.engram scores.rank query wanted everyKey fetched
        limit).2.map (placed ranking)) = .ok results → @Cleared quant host scores results := by
  intro results hresults
  obtain ⟨-, hspec⟩ := EngramStore.searchWith_spec host.engram scores.rank store query wanted
    everyKey fetched limit
  rcases hfound : (store.searchWith host.engram scores.rank query wanted everyKey fetched
    limit).2 with error | found
  · rw [hfound] at hresults
    cases hresults
  · rw [hfound] at hresults
    cases hresults
    exact placed_cleared ranking fun hit hhit => hwanted hit.document (hspec found hfound hit hhit)

theorem searchInCollection_cleared (query collection : String) (limit : Nat) :
    ∀ results, (engine.searchInCollection ranking query collection limit).2 = .ok results →
      Cleared results := by
  refine searchWith_cleared ranking (fun doc hdoc => not_quarantined_iff.mpr ?_) engine.store
    query true (limit * 4) limit
  simp only [Bool.and_eq_true] at hdoc
  rw [Bool.not_or, hdoc.1.2, hdoc.2, Bool.and_self]

theorem searchWithPath_cleared (query collection path : String) (limit : Nat) :
    ∀ results, (engine.searchWithPath ranking query collection path limit).2 = .ok results →
      Cleared results := by
  refine searchWith_cleared ranking (fun doc hdoc => not_quarantined_iff.mpr ?_) engine.store
    query true (limit * 10) limit
  simp only [Bool.and_eq_true] at hdoc
  rw [Bool.not_or, hdoc.1.2, hdoc.2, Bool.and_self]

/-- Whole scores, and the posting lists as the full-text ranking. -/
def wholeScores : SearchScores wordHybridHost where
  arith :=
    { Score := Int
      zero := 0
      add := (· + ·)
      divide := (· / ·)
      ofNat := Int.ofNat
      toNat := Int.toNat
      isNegative := fun score => decide (score < 0)
      partialCmp := fun left right => some (compare left right) }
  rank := fun _ lists => lists.flatMap fun list => list.entries.map fun entry => ⟨entry.docKey, 0⟩
  toDouble := id
  toSingle := id

def wholeRanking : RankingConfig wholeScores.arith :=
  { bm25Weight := (100 : Int), vectorWeight := (100 : Int), rrfK := (60 : Int),
    useReranker := false }

def wholeSetting : SearchSetting wholeScores :=
  { wordSetting with permit := true, fusedOrder := .same, reranker := none }

/-- The engine after a document without a collection was indexed, and put under review. -/
def reviewedEngine : HybridSearchEngine wordHybridHost :=
  let engine := ((HybridSearchEngine.new { dedupThreshold := (1 : Int) } 2 .cosine).indexAtLevel
    wordSetting "" "a" "Title" "text" .full false ∅).1
  { engine with
    store := (engine.store.markPendingReview wordSetting.toCallSetting "" "a" none).1 }

end HybridSearchEngine

end BenShu.Engram
