import BenShu.Engram.DocumentUpdates

/-!
# Filtered searches

A search ranks the keys of the text index and reads the documents under them. The
ranking by score is a parameter.
-/

namespace BenShu.Engram

structure FtsResult (Score : Type) where
  docKey : String
  score : Score

structure SearchResult (Score : Type) where
  document : Document
  score : Score
  snippet : Option String := none

/-- The scores of the documents in the posting lists of a query, best first. -/
abbrev Ranking (Score : Type) := FtsStats → List PostingList → List (FtsResult Score)

variable {Score : Type}

namespace FtsEngine

def searchStep (found : FtsEngine × List PostingList) (term : String) :
    Except String (FtsEngine × List PostingList) := do
  let (engine, list) ← found.1.getPostingListInternal term
  .ok (engine, found.2 ++ [list])

def search (host : FtsHost) (rank : Ranking Score) (engine : FtsEngine) (query : String)
    (limit : Nat) : Except String (FtsEngine × List (FtsResult Score)) :=
  let stats := engine.getStats
  if stats.totalDocs = 0 then .ok (engine, [])
  else do
    let (engine, lists) ← (host.segmenter.tokenize query).foldlM searchStep (engine, [])
    .ok (engine, (rank stats lists).take limit)

end FtsEngine

namespace EngramStore

/-- The loop over the ranked keys. It stops once enough documents are found; a search of
a collection looks after every key, any other one after every document it takes. -/
def collectResults (store : EngramStore) (wanted : Document → Bool) (everyKey : Bool)
    (limit : Nat) :
    List (SearchResult Score) → List (FtsResult Score) → List (SearchResult Score)
  | results, [] => results
  | results, res :: rest =>
      match (store.getByDocKey res.docKey).filter wanted with
      | some doc =>
          let results := results ++ [{ document := doc, score := res.score }]
          if results.length ≥ limit then results
          else store.collectResults wanted everyKey limit results rest
      | none =>
          if everyKey && decide (results.length ≥ limit) then results
          else store.collectResults wanted everyKey limit results rest

section

variable (host : EngramHost) (rank : Ranking Score) (store : EngramStore) (query : String)

def searchWith (wanted : Document → Bool) (everyKey : Bool) (fetched limit : Nat) :
    EngramStore × Except EngramError (List (SearchResult Score)) :=
  match store.fts.search host.fts rank query fetched with
  | .error text => (store, .error (.serialization text))
  | .ok (fts, found) =>
      ({ store with fts := fts }, .ok (store.collectResults wanted everyKey limit [] found))

def searchFts (limit : Nat) : EngramStore × Except EngramError (List (SearchResult Score)) :=
  store.searchWith host rank query
    (fun doc => !(doc.unverified || documentIsArchived doc)) false (limit * 2) limit

def searchFtsInCollection (collection : String) (limit : Nat) :
    EngramStore × Except EngramError (List (SearchResult Score)) :=
  store.searchWith host rank query
    (fun doc => doc.collection == collection && !doc.unverified && !documentIsArchived doc)
    true (limit * 4) limit

def searchFtsWithPath (collection path : String) (limit : Nat) :
    EngramStore × Except EngramError (List (SearchResult Score)) :=
  store.searchWith host rank query
    (fun doc => doc.collection == collection && Text.startsWith doc.path path &&
      !doc.unverified && !documentIsArchived doc)
    true (limit * 10) limit

end

/-! ## What a search returns -/

variable {host : EngramHost} {rank : Ranking Score} {store searched : EngramStore}
  {query : String} {wanted : Document → Bool} {everyKey : Bool} {fetched limit : Nat}
  {results : List (SearchResult Score)}

theorem collectResults_wanted {found : List (FtsResult Score)}
    (h : ∀ result ∈ results, wanted result.document = true) :
    ∀ result ∈ store.collectResults wanted everyKey limit results found,
      wanted result.document = true := by
  induction found generalizing results with
  | nil => exact h
  | cons res rest ih =>
      unfold collectResults
      cases hdoc : (store.getByDocKey res.docKey).filter wanted with
      | none =>
          dsimp only
          split
          · exact h
          · exact ih h
      | some doc =>
          have hwanted : wanted doc = true := (Option.filter_eq_some_iff.mp hdoc).2
          have hresults : ∀ result ∈ results ++ [{ document := doc, score := res.score }],
              wanted result.document = true := by
            intro result hresult
            rcases List.mem_append.mp hresult with hold | hnew
            · exact h result hold
            · rw [List.mem_singleton.mp hnew]
              exact hwanted
          dsimp only
          split
          · exact hresults
          · exact ih hresults

theorem searchWith_spec (host : EngramHost) (rank : Ranking Score) (store : EngramStore)
    (query : String) (wanted : Document → Bool) (everyKey : Bool) (fetched limit : Nat) :
    let searched := store.searchWith host rank query wanted everyKey fetched limit
    searched.1.documents = store.documents ∧ ∀ results, searched.2 = .ok results →
      ∀ result ∈ results, wanted result.document = true := by
  unfold searchWith
  cases store.fts.search host.fts rank query fetched with
  | error text =>
      refine ⟨rfl, ?_⟩
      intro results hresults
      cases hresults
  | ok found =>
      refine ⟨rfl, ?_⟩
      intro results hresults
      cases hresults
      exact collectResults_wanted (by simp)

end EngramStore

end BenShu.Engram
