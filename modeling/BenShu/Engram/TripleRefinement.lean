import BenShu.Engram.TripleStore

/-!
# The tables against the list

Every table has one record for each triple of the list. A scan finds the triples that are
asked for, but for those whose next component starts with the greatest letter.
-/

namespace BenShu.Engram

open Knowledge

variable {Bytes : Type} {x y : StoredTriple Bytes} {table : TripleTable} {pattern : TriplePattern}

def Plain (x : StoredTriple Bytes) : Prop :=
  separator ∉ x.subject.toList ∧ separator ∉ x.predicate.toList ∧ separator ∉ x.object.toList

theorem ValidRecord.plain (record : ValidRecord Bytes) : Plain record.stored := by
  have h : ∀ component ∈ record.triple.components, separator ∉ component.toList :=
    fun component hcomponent => separator_notMem_of_valid record.valid hcomponent
  exact ⟨h _ (by simp [Triple.components, stored]), h _ (by simp [Triple.components, stored]),
    h _ (by simp [Triple.components, stored])⟩

/-! ## Keys -/

theorem joinKey_toList (a b c : String) : (joinKey (a, b, c)).toList =
    a.toList ++ separator :: (b.toList ++ separator :: c.toList) := by
  show (a ++ String.singleton separator ++ b ++ String.singleton separator ++ c).toList = _
  simp [String.toList_append]

theorem split_joinKey {a b c : String} (ha : separator ∉ a.toList) (hb : separator ∉ b.toList)
    (hc : separator ∉ c.toList) : Text.split (joinKey (a, b, c)) (· == separator) = [a, b, c] := by
  have hplain : ∀ l : List Char, separator ∉ l → ∀ x ∈ l, (x == separator) = false := by
    intro l hl x hx
    rw [beq_eq_false_iff_ne]
    exact fun heq => hl (heq ▸ hx)
  unfold Text.split
  rw [joinKey_toList, Text.splitAux_piece (hplain _ ha) (by simp),
    Text.splitAux_piece (hplain _ hb) (by simp), Text.splitAux_last (hplain _ hc)]
  simp [String.ofList_toList]

theorem triple_parts (table : TripleTable) (x : StoredTriple Bytes) :
    table.triple (table.parts x).1 (table.parts x).2.1 (table.parts x).2.2 x.data = x := by
  cases table <;> rfl

/-- A record is read as the triple it was written for. -/
theorem processTripleResult_joinKey (hplain : Plain x) (table : TripleTable)
    (pattern : TriplePattern) :
    EngramKV.processTripleResult table pattern (joinKey (table.parts x)) x.data =
      if pattern.Matches x then some x else none := by
  have hparts : Text.split (joinKey (table.parts x)) (· == separator) =
      [(table.parts x).1, (table.parts x).2.1, (table.parts x).2.2] := by
    cases table with
    | spo => exact split_joinKey hplain.1 hplain.2.1 hplain.2.2
    | ops => exact split_joinKey hplain.2.2 hplain.2.1 hplain.1
    | pos => exact split_joinKey hplain.2.1 hplain.2.2 hplain.1
  unfold EngramKV.processTripleResult
  rw [hparts]
  dsimp only
  rw [triple_parts]

theorem matches_all (x : StoredTriple Bytes) : ({} : TriplePattern).Matches x :=
  ⟨fun _ h => (nomatch h), fun _ h => (nomatch h), fun _ h => (nomatch h)⟩

theorem StoredTriple.Same.parts (h : x.Same y) (table : TripleTable) :
    table.parts x = table.parts y := by
  rcases h with ⟨hsubject, hpredicate, hobject⟩
  cases table with
  | spo => exact Prod.ext hsubject (Prod.ext hpredicate hobject)
  | ops => exact Prod.ext hobject (Prod.ext hpredicate hsubject)
  | pos => exact Prod.ext hpredicate (Prod.ext hobject hsubject)

theorem joinKey_eq_iff (hx : Plain x) (hy : Plain y) :
    joinKey (table.parts x) = joinKey (table.parts y) ↔ x.Same y := by
  constructor
  · intro h
    let renamed : StoredTriple Bytes := { y with data := x.data }
    have hplain : Plain renamed := hy
    have hparts : table.parts renamed = table.parts y := by cases table <;> rfl
    have hread := processTripleResult_joinKey hx table {}
    have hread' := processTripleResult_joinKey hplain table {}
    rw [if_pos (matches_all _), h] at hread
    rw [if_pos (matches_all _), hparts, hread] at hread'
    have heq : x = renamed := Option.some.inj hread'
    show x.subject = renamed.subject ∧ x.predicate = renamed.predicate ∧ x.object = renamed.object
    rw [← heq]
    exact ⟨rfl, rfl, rfl⟩
  · intro h
    rw [h.parts]

/-! ## Steps -/

/-- Each table has the records of the triples in the list, and no others. -/
structure Refines (kv : EngramKV Bytes) (store : InMemoryStorage Bytes) : Prop where
  plain : ∀ x ∈ store.triples, Plain x
  records : ∀ table key data, (kv.table table).lookup key = some data ↔
    ∃ x ∈ store.triples, joinKey (table.parts x) = key ∧ x.data = data

variable {kv : EngramKV Bytes} {store : InMemoryStorage Bytes}

theorem refines_empty : Refines ({} : EngramKV Bytes) {} where
  plain x h := absurd h (by simp)
  records table key data := by cases table <;> simp [EngramKV.table]

theorem mem_remove_iff : y ∈ (store.remove x).triples ↔ y ∈ store.triples ∧ ¬y.Same x := by
  simp [InMemoryStorage.remove]

theorem Refines.deleteTriple (h : Refines kv store) (hx : Plain x) :
    Refines (kv.deleteTriple x).1 (store.deleteTriple x).1 := by
  have htable : ∀ table, (kv.deleteTriple x).1.table table =
      (kv.table table).erase (joinKey (table.parts x)) := by
    intro table
    cases table <;> rfl
  refine ⟨fun y hy => h.plain y (mem_remove_iff.mp hy).1, ?_⟩
  intro table key data
  show _ ↔ ∃ y ∈ (store.remove x).triples, _
  rw [htable, Table.lookup_erase]
  by_cases hkey : key = joinKey (table.parts x)
  · rw [if_pos hkey]
    refine iff_of_false (by simp) ?_
    intro ⟨y, hy, hjoin, _⟩
    rcases mem_remove_iff.mp hy with ⟨hmem, hnot⟩
    exact hnot ((joinKey_eq_iff (h.plain y hmem) hx).mp (hjoin.trans hkey))
  · rw [if_neg hkey, h.records]
    constructor
    · intro ⟨y, hmem, hjoin, hdata⟩
      refine ⟨y, mem_remove_iff.mpr ⟨hmem, fun hsame => hkey ?_⟩, hjoin, hdata⟩
      rw [← hjoin, hsame.parts]
    · intro ⟨y, hy, hrest⟩
      exact ⟨y, (mem_remove_iff.mp hy).1, hrest⟩

theorem Refines.putTriple (h : Refines kv store) (hx : Plain x) :
    Refines (kv.putTriple x) (store.putTriple x) := by
  have htable : ∀ table, (kv.putTriple x).table table =
      (kv.table table).insert (joinKey (table.parts x)) x.data := by
    intro table
    cases table <;> rfl
  have hmem : ∀ y, y ∈ (store.putTriple x).triples ↔ y ∈ store.triples ∧ ¬y.Same x ∨ y = x := by
    intro y
    show y ∈ (store.remove x).triples ++ [x] ↔ _
    rw [List.mem_append, mem_remove_iff, List.mem_singleton]
  have hplain : ∀ y ∈ (store.putTriple x).triples, Plain y := by
    intro y hy
    rcases (hmem y).mp hy with hold | hnew
    · exact h.plain y hold.1
    · rw [hnew]
      exact hx
  refine ⟨hplain, ?_⟩
  intro table key data
  rw [htable, Table.lookup_insert]
  by_cases hkey : key = joinKey (table.parts x)
  · rw [if_pos hkey, Option.some.injEq]
    constructor
    · intro hdata
      exact ⟨x, (hmem x).mpr (.inr rfl), hkey.symm, hdata⟩
    · intro ⟨y, hy, hjoin, hdata⟩
      have hsame := (joinKey_eq_iff (hplain y hy) hx).mp (hjoin.trans hkey)
      rcases (hmem y).mp hy with ⟨-, hnot⟩ | hnew
      · exact absurd hsame hnot
      · rw [← hdata, hnew]
  · rw [if_neg hkey, h.records]
    constructor
    · intro ⟨y, hold, hjoin, hdata⟩
      refine ⟨y, (hmem y).mpr (.inl ⟨hold, fun hsame => hkey ?_⟩), hjoin, hdata⟩
      rw [← hjoin, hsame.parts]
    · intro ⟨y, hy, hjoin, hdata⟩
      rcases (hmem y).mp hy with hold | hnew
      · exact ⟨y, hold.1, hjoin, hdata⟩
      · rw [hnew] at hjoin
        exact absurd hjoin.symm hkey

theorem Refines.perform (h : Refines kv store) (call : TripleCall Bytes) :
    Refines (kv.perform call) (store.perform call) := by
  cases call with
  | putTriple record => exact h.putTriple record.plain
  | putTriplesBatch batch =>
      show Refines ((batch.map (·.stored)).foldl EngramKV.putTriple kv)
        ((batch.map (·.stored)).foldl InMemoryStorage.putTriple store)
      induction batch generalizing kv store with
      | nil => exact h
      | cons record batch ih => exact ih (h.putTriple record.plain)
  | deleteTriple record => exact h.deleteTriple record.plain

theorem run_refines (calls : List (TripleCall Bytes)) (h : Refines kv store) :
    Refines (calls.foldl EngramKV.perform kv) (calls.foldl InMemoryStorage.perform store) := by
  induction calls generalizing kv store with
  | nil => exact h
  | cons call calls ih => exact ih (h.perform call)

/-! ## Queries -/

/-- The component that follows the fixed ones in the keys of a scan. -/
def nextOf (pattern : TriplePattern) (x : StoredTriple Bytes) : String :=
  match pattern.subject, pattern.predicate, pattern.object with
  | some _, some _, _ => x.object
  | some _, none, _ => x.predicate
  | none, some _, some _ => x.subject
  | none, none, some _ => x.predicate
  | none, some _, none => x.object
  | none, none, none => x.subject

def PastScan (pattern : TriplePattern) (x : StoredTriple Bytes) : Prop :=
  (nextOf pattern x).toList.head? = some EngramKV.sentinel

/-- The key of a triple that is asked for is the prefix, the next component and what may
follow a separator. -/
theorem joinKey_scan (h : pattern.Matches x) :
    ∃ tail, (joinKey ((EngramKV.scanOf pattern).1.parts x)).toList =
        (EngramKV.scanOf pattern).2.toList ++ ((nextOf pattern x).toList ++ tail) ∧
      tail.head? ≠ some EngramKV.sentinel := by
  have hseparator : some separator ≠ some EngramKV.sentinel := by decide
  -- the keys with two fixed components, with one and with none
  have htwo : ∀ a b c : String, (joinKey (a, b, c)).toList =
      (s!"{a}{separator}{b}{separator}" : String).toList ++ (c.toList ++ []) := by
    intro a b c
    show _ = (a ++ String.singleton separator ++ b ++ String.singleton separator).toList ++ _
    rw [joinKey_toList]
    simp
  have hone : ∀ a b c : String, (joinKey (a, b, c)).toList =
      (s!"{a}{separator}" : String).toList ++ (b.toList ++ separator :: c.toList) := by
    intro a b c
    show _ = (a ++ String.singleton separator).toList ++ _
    rw [joinKey_toList]
    simp
  rcases pattern with ⟨subject, predicate, object⟩
  rcases h with ⟨hsubject, hpredicate, hobject⟩
  dsimp only at hsubject hpredicate hobject
  cases subject with
  | some s =>
      have hs := hsubject s rfl
      subst hs
      cases predicate with
      | some p =>
          have hp := hpredicate p rfl
          subst hp
          exact ⟨[], htwo x.subject x.predicate x.object, by simp⟩
      | none => exact ⟨_, hone x.subject x.predicate x.object, hseparator⟩
  | none =>
      cases predicate with
      | some p =>
          have hp := hpredicate p rfl
          subst hp
          cases object with
          | some o =>
              have ho := hobject o rfl
              subst ho
              exact ⟨[], htwo x.object x.predicate x.subject, by simp⟩
          | none => exact ⟨_, hone x.predicate x.object x.subject, hseparator⟩
      | none =>
          cases object with
          | some o =>
              have ho := hobject o rfl
              subst ho
              exact ⟨_, hone x.object x.predicate x.subject, hseparator⟩
          | none => exact ⟨_, joinKey_toList x.subject x.predicate x.object, hseparator⟩

theorem le_sentinel (c : Char) : c ≤ EngramKV.sentinel := by
  show c.val ≤ EngramKV.sentinel.val
  have hvalid : c.val.toNat < 0x110000 := by
    rcases c.valid with hlow | hhigh
    · exact hlow.trans (by decide)
    · exact hhigh.2
  have hsentinel : EngramKV.sentinel.val.toNat = 0x10ffff := by decide
  rw [UInt32.le_iff_toNat_le, hsentinel]
  omega

/-- The key of a triple that is asked for is within the scan if the next component does
not start with the greatest letter. -/
theorem between_scan_iff (h : pattern.Matches x) :
    KeyRange.Between (EngramKV.scanOf pattern).2.toList
        (s!"{(EngramKV.scanOf pattern).2}{EngramKV.sentinel}" : String).toList
        (joinKey ((EngramKV.scanOf pattern).1.parts x)).toList ↔ ¬PastScan pattern x := by
  have hstop : (s!"{(EngramKV.scanOf pattern).2}{EngramKV.sentinel}" : String).toList =
      (EngramKV.scanOf pattern).2.toList ++ [EngramKV.sentinel] := by
    show ((EngramKV.scanOf pattern).2 ++ String.singleton EngramKV.sentinel).toList = _
    rw [String.toList_append, String.toList_singleton]
  rcases joinKey_scan h with ⟨tail, hkey, htail⟩
  have hhead : ((nextOf pattern x).toList ++ tail).head? = some EngramKV.sentinel ↔
      PastScan pattern x := by
    unfold PastScan
    cases (nextOf pattern x).toList with
    | nil => simp [htail]
    | cons c rest => simp
  rw [hstop, KeyRange.between_append_iff le_sentinel, hkey]
  constructor
  · intro ⟨rest, hrest, hnot⟩
    rw [← List.append_cancel_left hrest] at hnot
    exact fun hpast => hnot (hhead.mpr hpast)
  · intro hnot
    exact ⟨_, rfl, fun hstarts => hnot (hhead.mp hstarts)⟩

/-- A scan finds the triples that are asked for and whose next component does not start
with the greatest letter. -/
theorem mem_queryTriples_iff (h : Refines kv store) :
    x ∈ kv.queryTriples pattern ↔
      x ∈ store.triples ∧ pattern.Matches x ∧ ¬PastScan pattern x := by
  unfold EngramKV.queryTriples EngramKV.range
  simp only [List.mem_filterMap, List.mem_mergeSort, List.mem_map, List.mem_filter,
    decide_eq_true_eq]
  constructor
  · intro ⟨record, ⟨entry, ⟨hentry, hbetween⟩, hrecord⟩, hread⟩
    subst hrecord
    rcases (h.records _ _ _).mp (Table.mem_entries_iff.mp hentry) with ⟨y, hy, hjoin, hdata⟩
    dsimp only at hread
    rw [← hjoin, ← hdata, processTripleResult_joinKey (h.plain y hy)] at hread
    split at hread
    · rename_i hmatches
      cases hread
      rw [← hjoin] at hbetween
      exact ⟨hy, hmatches, (between_scan_iff hmatches).mp hbetween⟩
    · cases hread
  · intro ⟨hmem, hmatches, hnot⟩
    have hstored := (h.records (EngramKV.scanOf pattern).1 _ _).mpr ⟨x, hmem, rfl, rfl⟩
    refine ⟨_, ⟨⟨_, x.data⟩, ⟨Table.mem_entries_iff.mpr hstored, ?_⟩, rfl⟩, ?_⟩
    · exact (between_scan_iff hmatches).mpr hnot
    · dsimp only
      rw [processTripleResult_joinKey (h.plain x hmem), if_pos hmatches]

theorem mem_inMemory_iff : x ∈ store.queryTriples pattern ↔ x ∈ store.triples ∧ pattern.Matches x := by
  simp [InMemoryStorage.queryTriples]

def EngramKV.contents (kv : EngramKV Bytes) (table : TripleTable) : List (StoredTriple Bytes) :=
  (kv.table table).entries.filterMap fun entry => processTripleResult table {} entry.1 entry.2

theorem mem_contents_iff (h : Refines kv store) : x ∈ kv.contents table ↔ x ∈ store.triples := by
  unfold EngramKV.contents
  rw [List.mem_filterMap]
  constructor
  · intro ⟨entry, hentry, hread⟩
    rcases (h.records _ _ _).mp (Table.mem_entries_iff.mp hentry) with ⟨y, hy, hjoin, hdata⟩
    rw [← hjoin, ← hdata, processTripleResult_joinKey (h.plain y hy), if_pos (matches_all y)] at hread
    cases hread
    exact hy
  · intro hmem
    have hstored := (h.records table _ _).mpr ⟨x, hmem, rfl, rfl⟩
    refine ⟨⟨_, x.data⟩, Table.mem_entries_iff.mpr hstored, ?_⟩
    dsimp only
    rw [processTripleResult_joinKey (h.plain x hmem), if_pos (matches_all x)]

/-- After any calls the tables hold the same triples, and a query is answered as by the
list exactly when no stored triple that it asks for lies past its scan. -/
theorem run_queryTriples_iff (calls : List (TripleCall Bytes)) (pattern : TriplePattern) :
    let kv := calls.foldl EngramKV.perform {}
    let store := calls.foldl InMemoryStorage.perform {}
    ((∀ x, x ∈ kv.queryTriples pattern ↔ x ∈ store.queryTriples pattern) ∧
        ∀ table table' x, x ∈ kv.contents table ↔ x ∈ kv.contents table') ↔
      ∀ x ∈ store.triples, pattern.Matches x → ¬PastScan pattern x := by
  intro kv store
  have hrefines : Refines kv store := run_refines calls refines_empty
  constructor
  · intro ⟨hsame, _⟩ x hmem hmatches
    exact ((mem_queryTriples_iff hrefines).mp
      ((hsame x).mpr (mem_inMemory_iff.mpr ⟨hmem, hmatches⟩))).2.2
  · intro hnone
    constructor
    · intro x
      rw [mem_queryTriples_iff hrefines, mem_inMemory_iff]
      constructor
      · intro ⟨hmem, hmatches, _⟩
        exact ⟨hmem, hmatches⟩
      · intro ⟨hmem, hmatches⟩
        exact ⟨hmem, hmatches, hnone x hmem hmatches⟩
    · intro table table' x
      rw [mem_contents_iff hrefines, mem_contents_iff hrefines]

def greatest : ValidRecord Unit where
  triple := { subject := String.singleton EngramKV.sentinel, predicate := "is", object := "last" }
  data := ()
  valid := by decide

/-- It is not among all triples. -/
theorem greatest_missed :
    let kv := [TripleCall.putTriple greatest].foldl EngramKV.perform {}
    let store := [TripleCall.putTriple greatest].foldl InMemoryStorage.perform {}
    greatest.stored ∈ store.queryTriples {} ∧ greatest.stored ∉ kv.queryTriples {} := by
  intro kv store
  have hrefines : Refines kv store := run_refines _ refines_empty
  have hmem : greatest.stored ∈ store.triples := List.mem_singleton.mpr rfl
  refine ⟨mem_inMemory_iff.mpr ⟨hmem, matches_all _⟩, fun hfound => ?_⟩
  exact ((mem_queryTriples_iff hrefines).mp hfound).2.2 rfl

end BenShu.Engram
