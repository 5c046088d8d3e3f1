import BenShu.Engram.DocumentLifecycle

/-!
# The top hits of a filtered search

A filtered search asks the text index for a multiple of the hits that it is to return and
drops those that it may not. It returns the top hits of all documents that it may return
exactly when enough of them are among the ones it asked for.
-/

namespace BenShu.Engram

variable {Score : Type}

theorem take_eq_take_iff_of_prefix {α : Type} {l whole : List α} (h : l <+: whole) {n : Nat} :
    l.take n = whole.take n ↔ min n whole.length ≤ l.length := by
  obtain ⟨rest, rfl⟩ := h
  constructor
  · intro heq
    have hlength := congrArg List.length heq
    rw [List.length_take, List.length_take] at hlength
    omega
  · intro hle
    rw [List.length_append] at hle
    by_cases hn : n ≤ l.length
    · rw [List.take_append_of_le_length hn]
    · have hrest : rest = [] := List.eq_nil_of_length_eq_zero (by omega)
      rw [hrest, List.append_nil]

namespace FtsEngine

/-- All hits of the query, the best first. -/
def ranked (host : FtsHost) (rank : Ranking Score) (engine : FtsEngine) (query : String) :
    Except String (List (FtsResult Score)) :=
  if engine.getStats.totalDocs = 0 then .ok []
  else ((host.segmenter.tokenize query).foldlM searchStep (engine, [])).map fun found =>
    rank engine.getStats found.2

theorem search_hits (host : FtsHost) (rank : Ranking Score) (engine : FtsEngine) (query : String)
    (limit : Nat) :
    (engine.search host rank query limit).map Prod.snd =
      (engine.ranked host rank query).map (·.take limit) := by
  unfold search ranked
  dsimp only
  split
  · simp [Except.map]
  · cases (host.segmenter.tokenize query).foldlM searchStep (engine, []) with
    | error text => rfl
    | ok found => rfl

end FtsEngine

/-- The three searches of the text index. -/
inductive FilteredSearch where
  | all
  | inCollection (collection : String)
  | withPath (collection path : String)

namespace FilteredSearch

def wanted : FilteredSearch → Document → Bool
  | .all, doc => !(doc.unverified || documentIsArchived doc)
  | .inCollection collection, doc =>
      doc.collection == collection && !doc.unverified && !documentIsArchived doc
  | .withPath collection path, doc =>
      doc.collection == collection && Text.startsWith doc.path path && !doc.unverified &&
        !documentIsArchived doc

/-- How many hits it asks for, for each that it is to return. -/
def factor : FilteredSearch → Nat
  | .all => 2
  | .inCollection _ => 4
  | .withPath _ _ => 10

end FilteredSearch

namespace EngramStore

def filteredSearch (host : EngramHost) (rank : Ranking Score) (store : EngramStore)
    (query : String) (limit : Nat) :
    FilteredSearch → EngramStore × Except EngramError (List (SearchResult Score))
  | .all => store.searchFts host rank query limit
  | .inCollection collection => store.searchFtsInCollection host rank query collection limit
  | .withPath collection path => store.searchFtsWithPath host rank query collection path limit

/-- What a hit gives, if its document may be returned. -/
def eligible (store : EngramStore) (wanted : Document → Bool) (res : FtsResult Score) :
    Option (SearchResult Score) :=
  ((store.getByDocKey res.docKey).filter wanted).map fun doc =>
    { document := doc, score := res.score }

def topHits (store : EngramStore) (wanted : Document → Bool) (limit : Nat)
    (ranked : List (FtsResult Score)) : List (SearchResult Score) :=
  (ranked.filterMap (store.eligible wanted)).take limit

theorem collectResults_eq (store : EngramStore) (wanted : Document → Bool) (everyKey : Bool)
    {limit : Nat} {results : List (SearchResult Score)} (found : List (FtsResult Score))
    (h : results.length < limit) :
    store.collectResults wanted everyKey limit results found =
      results ++ store.topHits wanted (limit - results.length) found := by
  induction found generalizing results with
  | nil => simp [collectResults, topHits]
  | cons res rest ih =>
      unfold collectResults topHits eligible
      rw [List.filterMap_cons]
      cases hdoc : (store.getByDocKey res.docKey).filter wanted with
      | none =>
          simp only [ge_iff_le, Nat.not_le.mpr h, decide_false, Bool.and_false,
            Bool.false_eq_true, if_false, Option.map_none]
          exact ih h
      | some doc =>
          simp only [Option.map_some]
          have hroom : limit - results.length = limit - (results.length + 1) + 1 := by omega
          rw [hroom, List.take_succ_cons]
          split
          · rename_i henough
            rw [List.length_append, List.length_singleton] at henough
            have hlast : limit - (results.length + 1) = 0 := by omega
            rw [hlast, List.take_zero]
          · rename_i hfew
            rw [ih (by omega), List.length_append, List.length_singleton, List.append_assoc]
            rfl

variable (host : EngramHost) (rank : Ranking Score) (store : EngramStore) (query : String)

theorem searchWith_hits (wanted : Document → Bool) (everyKey : Bool) (factor limit : Nat) :
    (store.searchWith host rank query wanted everyKey (factor * limit) limit).2 =
      match store.fts.ranked host.fts rank query with
      | .error text => .error (.serialization text)
      | .ok ranked => .ok (store.topHits wanted limit (ranked.take (factor * limit))) := by
  have hsearch := store.fts.search_hits host.fts rank query (factor * limit)
  unfold searchWith
  cases hranked : store.fts.ranked host.fts rank query with
  | error text =>
      rw [hranked] at hsearch
      cases hfound : store.fts.search host.fts rank query (factor * limit) with
      | error text' =>
          rw [hfound] at hsearch
          cases hsearch
          rfl
      | ok found =>
          rw [hfound] at hsearch
          cases hsearch
  | ok ranked =>
      rw [hranked] at hsearch
      cases hfound : store.fts.search host.fts rank query (factor * limit) with
      | error text' =>
          rw [hfound] at hsearch
          cases hsearch
      | ok found =>
          rw [hfound] at hsearch
          have hhits : found.2 = ranked.take (factor * limit) := Except.ok.inj hsearch
          dsimp only
          rw [hhits]
          cases limit with
          | zero => rw [Nat.mul_zero, List.take_zero]; rfl
          | succ limit =>
              rw [collectResults_eq store wanted everyKey _ (Nat.succ_pos limit)]
              rfl

theorem filteredSearch_hits (search : FilteredSearch) (limit : Nat) :
    (store.filteredSearch host rank query limit search).2 =
      match store.fts.ranked host.fts rank query with
      | .error text => .error (.serialization text)
      | .ok ranked =>
          .ok (store.topHits search.wanted limit (ranked.take (search.factor * limit))) := by
  cases search with
  | all =>
      rw [← store.searchWith_hits host rank query _ false _ limit, Nat.mul_comm]
      rfl
  | inCollection collection =>
      rw [← store.searchWith_hits host rank query _ true _ limit, Nat.mul_comm]
      rfl
  | withPath collection path =>
      rw [← store.searchWith_hits host rank query _ true _ limit, Nat.mul_comm]
      rfl

end EngramStore

end BenShu.Engram
