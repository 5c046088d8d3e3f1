import BenShu.Engram.VectorEvents
import BenShu.Engram.VectorIsolation

/-!
# What a search misses

Approximate hits and the exact scan together list every vector of the collection once, as long
as the graphs' search cannot take the vector of another collection for one of it.
-/

namespace BenShu.Engram

/-- Scores are compared like numbers. -/
structure Scoring.Ordered {quant : Quantization} (scoring : Scoring quant) : Prop where
  total : ∀ left right, (scoring.partialCmp right left).getD .eq ≠ .gt ∨
    (scoring.partialCmp left right).getD .eq ≠ .gt
  trans : ∀ first second third, (scoring.partialCmp second first).getD .eq ≠ .gt →
    (scoring.partialCmp third second).getD .eq ≠ .gt →
      (scoring.partialCmp third first).getD .eq ≠ .gt

namespace VectorStore

variable {quant : Quantization} {scoring : Scoring quant} {store : VectorStore quant}
  {collection : String} {results : List (VectorSearchResult scoring.Score)}

/-! ## Complete answers -/

def liveVectors (store : VectorStore quant) (collection : String) :
    List (Sigma fun _ : String => VectorEntry quant) :=
  store.vectorEntries.entries.filter fun cached => cached.2.collection == collection

def Lives (scoring : Scoring quant) (store : VectorStore quant) (collection : String)
    (result : VectorSearchResult scoring.Score) : Prop :=
  ResultOf scoring store (fun _ entry => entry.collection = collection) result

/-- As many vectors of the collection as there are, up to the limit, each once and the best
first. -/
structure Complete (scoring : Scoring quant) (store : VectorStore quant) (collection : String)
    (limit : Nat) (results : List (VectorSearchResult scoring.Score)) : Prop where
  count : results.length = min limit (store.liveVectors collection).length
  paths : (results.map (·.path)).Nodup
  lives : ∀ result ∈ results, Lives scoring store collection result
  sorted : scoring.Ordered → results.Pairwise (BeforeOrEqual scoring)

def Answers {scoring : Scoring quant} (graphSearch : GraphSearch scoring) : Prop :=
  ∀ hnsw query limit ef, ((graphSearch hnsw query limit ef).map (·.dId)).Nodup ∧
    ∀ neighbor ∈ graphSearch hnsw query limit ef, neighbor.dId ∈ hnsw.map (·.2)

def SearchComplete (store : VectorStore quant) (collection : String) : Prop :=
  ∀ (scoring : Scoring quant) query order (graphSearch : GraphSearch scoring) limit,
    Answers graphSearch →
      ∃ searched results,
        search scoring store query order graphSearch collection limit = .ok (searched, results) ∧
          Complete scoring store collection limit results

/-- No active point of a graph is of another collection under a key that begins like those of
the collection. -/
def NoneExposed (store : VectorStore quant) (collection : String) : Prop :=
  store.annContractEnabled → ∀ level hnsw embedding id key entry,
    store.hnswIndexes.lookup level = some hnsw → (embedding, id) ∈ hnsw →
      id ∉ store.tombstones → store.idMap[id]? = some key →
        store.vectorEntries.lookup key = some entry → entry.quantLevel = level →
          Text.startsWith key (keyPrefix collection) = true → entry.collection = collection

/-! ## Counting the vectors of a collection -/

theorem Keyed.key_eq (h : store.Keyed) {key : String} {entry : VectorEntry quant}
    (hlookup : store.vectorEntries.lookup key = some entry) :
    key = vectorKey entry.collection entry.path :=
  h.keyed key entry (h.entries ▸ hlookup)

theorem mem_liveVectors {cached : Sigma fun _ : String => VectorEntry quant} :
    cached ∈ store.liveVectors collection ↔
      store.vectorEntries.lookup cached.1 = some cached.2 ∧ cached.2.collection = collection := by
  rcases cached with ⟨key, entry⟩
  rw [liveVectors, List.mem_filter, Table.mem_entries_iff, beq_iff_eq]

theorem livePaths_nodup (h : store.Keyed) :
    ((store.liveVectors collection).map (·.2.path)).Nodup := by
  have hnodup : (store.liveVectors collection).Nodup :=
    (List.NodupKeys.nodup store.vectorEntries.nodupKeys).filter _
  refine hnodup.map_on fun cached hcached other hother hpath => ?_
  obtain ⟨hlookup, hcollection⟩ := mem_liveVectors.mp hcached
  obtain ⟨hlookup', hcollection'⟩ := mem_liveVectors.mp hother
  have hkey : cached.1 = other.1 := by
    rw [h.key_eq hlookup, h.key_eq hlookup', hcollection, hcollection', hpath]
  rcases cached with ⟨key, entry⟩
  rcases other with ⟨key', entry'⟩
  dsimp only at hkey hlookup hlookup'
  rw [hkey, hlookup'] at hlookup
  rw [hkey, Option.some.inj hlookup]

theorem Lives.path_mem {result : VectorSearchResult scoring.Score}
    (h : Lives scoring store collection result) :
    result.path ∈ (store.liveVectors collection).map (·.2.path) := by
  rcases h with ⟨key, entry, score, hlookup, hcollection, rfl⟩
  exact List.mem_map.mpr ⟨⟨key, entry⟩, mem_liveVectors.mpr ⟨hlookup, hcollection⟩, rfl⟩

theorem length_le_live (hpaths : (results.map (·.path)).Nodup)
    (hlives : ∀ result ∈ results, Lives scoring store collection result) :
    results.length ≤ (store.liveVectors collection).length := by
  have hsubset : results.map (·.path) ⊆ (store.liveVectors collection).map (·.2.path) := by
    intro path hpath
    obtain ⟨result, hresult, rfl⟩ := List.mem_map.mp hpath
    exact (hlives result hresult).path_mem
  simpa using (hpaths.subperm hsubset).length_le

theorem length_eq_live (hkeyed : store.Keyed) (hpaths : (results.map (·.path)).Nodup)
    (hlives : ∀ result ∈ results, Lives scoring store collection result)
    (hall : ∀ path ∈ (store.liveVectors collection).map (·.2.path), path ∈ results.map (·.path)) :
    results.length = (store.liveVectors collection).length := by
  refine Nat.le_antisymm (length_le_live hpaths hlives) ?_
  simpa using ((livePaths_nodup hkeyed).subperm hall).length_le

/-- The best of results with different paths that are too many, or all there are. -/
theorem complete_of_results (hkeyed : store.Keyed) {limit : Nat}
    (hpaths : (results.map (·.path)).Nodup)
    (hlives : ∀ result ∈ results, Lives scoring store collection result)
    (henough : limit ≤ results.length ∨
      ∀ path ∈ (store.liveVectors collection).map (·.2.path), path ∈ results.map (·.path)) :
    Complete scoring store collection limit ((sortResults scoring results).take limit) := by
  have hperm : (sortResults scoring results).Perm results := List.perm_insertionSort _ results
  refine ⟨?_, ?_, fun result hresult => ?_, fun hordered => ?_⟩
  · rw [List.length_take, hperm.length_eq]
    have hle := length_le_live hpaths hlives
    rcases henough with hmany | hall
    · omega
    · rw [length_eq_live hkeyed hpaths hlives hall]
  · have hnodup : ((sortResults scoring results).map (·.path)).Nodup :=
      (hperm.map _).nodup_iff.mpr hpaths
    exact hnodup.sublist ((List.take_sublist _ _).map _)
  · exact hlives result (mem_sortResults.mp (List.mem_of_mem_take hresult))
  · have htotal : Std.Total (BeforeOrEqual scoring) :=
      ⟨fun left right => hordered.total left.score right.score⟩
    have htrans : IsTrans (VectorSearchResult scoring.Score) (BeforeOrEqual scoring) :=
      ⟨fun a b c hab hbc => hordered.trans a.score b.score c.score hab hbc⟩
    exact (List.pairwise_insertionSort (BeforeOrEqual scoring) results).sublist
      (List.take_sublist _ _)

/-! ## What is listed -/

/-- The entry an approximate hit stands for, unless it is dropped. -/
def takes (store : VectorStore quant) (wantedKey : String → Bool) (level : QuantLevel)
    (id : Nat) : Option (VectorEntry quant) :=
  if id ∈ store.tombstones then none
  else
    match store.idMap[id]? with
    | none => none
    | some key =>
        if !wantedKey key then none
        else
          match store.vectorEntries.lookup key with
          | none => none
          | some entry => if entry.quantLevel ≠ level then none else some entry

/-- The entries the approximate search lists. -/
def hits (store : VectorStore quant) (graphSearch : GraphSearch scoring) (query : quant.Vec)
    (wantedKey : String → Bool) (limit : Nat) : List (VectorEntry quant) :=
  quantLevels.flatMap fun level =>
    match store.hnswIndexes.lookup level with
    | none => []
    | some hnsw => (graphSearch hnsw query limit 128).flatMap fun neighbor =>
        (store.takes wantedKey level neighbor.dId).toList

/-- While the cache is as described, an entry that is in use gives a vector as described. -/
def Yields (store : VectorStore quant) (Fit : LruCache String quant.Vec → Prop)
    (Gives : VectorEntry quant → quant.Vec → Prop) : Prop :=
  ∀ key entry cache, store.vectorEntries.lookup key = some entry → Fit cache →
    ∃ cache' vector, store.recoverSearchVector cache key entry = .ok (cache', some vector) ∧
      Fit cache' ∧ Gives entry vector

def ResultFor (scoring : Scoring quant) (store : VectorStore quant) (query : quant.Vec)
    (Gives : VectorEntry quant → quant.Vec → Prop) (entry : VectorEntry quant)
    (result : VectorSearchResult scoring.Score) : Prop :=
  ∃ vector, Gives entry vector ∧
    result = resultOf scoring entry (scoring.scoreVector store.metric query vector)

section

variable {wantedKey : String → Bool} {level : QuantLevel} {id : Nat} {entry : VectorEntry quant}
  {query : quant.Vec} {graphSearch : GraphSearch scoring} {limit : Nat}

theorem takes_eq_some : store.takes wantedKey level id = some entry ↔
    id ∉ store.tombstones ∧ ∃ key, store.idMap[id]? = some key ∧ wantedKey key = true ∧
      store.vectorEntries.lookup key = some entry ∧ entry.quantLevel = level := by
  unfold takes
  by_cases hdead : id ∈ store.tombstones
  · simp [hdead]
  · rw [if_neg hdead]
    cases hslot : store.idMap[id]? with
    | none => simp
    | some key =>
        by_cases hwanted : wantedKey key = true
        · cases hentry : store.vectorEntries.lookup key with
          | none => simp [hwanted, hentry]
          | some found =>
              by_cases hlevel : found.quantLevel = level
              · simp [hdead, hwanted, hentry, hlevel]
                rintro rfl
                exact hlevel
              · simp [hdead, hwanted, hentry, hlevel]
                rintro rfl
                exact hlevel
        · simp [hwanted]

/-- A hit of a level. -/
theorem mem_levelHits {wantedKey : String → Bool} :
    entry ∈ (match store.hnswIndexes.lookup level with
      | none => []
      | some hnsw => (graphSearch hnsw query limit 128).flatMap
          fun neighbor : Neighbour scoring.Score =>
            (store.takes wantedKey level neighbor.dId).toList) ↔
      ∃ hnsw, store.hnswIndexes.lookup level = some hnsw ∧
        ∃ neighbor ∈ graphSearch hnsw query limit 128,
          store.takes wantedKey level neighbor.dId = some entry := by
  cases store.hnswIndexes.lookup level with
  | none => simp
  | some hnsw => simp

theorem mem_hits {wantedKey : String → Bool} :
    entry ∈ store.hits graphSearch query wantedKey limit ↔
      ∃ level hnsw, store.hnswIndexes.lookup level = some hnsw ∧
        ∃ neighbor ∈ graphSearch hnsw query limit 128,
          store.takes wantedKey level neighbor.dId = some entry := by
  rw [hits, List.mem_flatMap]
  constructor
  · rintro ⟨level, -, hentry⟩
    exact ⟨level, mem_levelHits.mp hentry⟩
  · rintro ⟨level, hentry⟩
    exact ⟨level, mem_quantLevels level, mem_levelHits.mpr hentry⟩

theorem Keyed.yields (h : store.Keyed) : store.Yields (fun _ => True) (fun _ _ => True) := by
  intro key entry cache hentry _
  have hrecoverable := h.recoverable key entry (h.entries ▸ hentry)
  unfold recoverSearchVector
  cases entry.embedding with
  | some embedding => exact ⟨_, _, rfl, trivial, trivial⟩
  | none =>
      obtain ⟨embedding, hrecover⟩ := hrecoverable.recovers store.dimension
      dsimp only
      cases cache.get key with
      | mk cached cache =>
          cases cached with
          | some vector => exact ⟨_, _, rfl, trivial, trivial⟩
          | none =>
              dsimp only
              rw [hrecover]
              exact ⟨_, _, rfl, trivial, trivial⟩

def scanned (store : VectorStore quant) (order : HashOrder) (wanted : VectorEntry quant → Bool) :
    List (VectorEntry quant) :=
  ((iterVectors order store.vectorEntries).map (·.2)).filter wanted

section

variable {Fit : LruCache String quant.Vec → Prop} {Gives : VectorEntry quant → quant.Vec → Prop}
  {found : Found scoring}

theorem Yields.scanStep_ok (hyields : store.Yields Fit Gives) (hkeyed : store.Keyed) {key : String}
    (hentry : store.vectorEntries.lookup key = some entry) (hfit : Fit found.1) :
    ∃ found' new, scanStep scoring store query found entry = .ok found' ∧ Fit found'.1 ∧
      found'.2 = found.2 ++ new ∧
        List.Forall₂ (ResultFor scoring store query Gives) [entry] new := by
  obtain ⟨cache, vector, hrecovered, hfit', hgives⟩ := hyields key entry found.1 hentry hfit
  unfold scanStep
  dsimp only
  rw [← hkeyed.key_eq hentry, hrecovered]
  exact ⟨_, _, rfl, hfit', rfl, .cons ⟨vector, hgives, rfl⟩ .nil⟩

theorem Yields.annStep_ok (hyields : store.Yields Fit Gives) (neighbor : Neighbour scoring.Score)
    (hfit : Fit found.1) :
    ∃ found' new, annStep scoring store query wantedKey level found neighbor = .ok found' ∧
      Fit found'.1 ∧ found'.2 = found.2 ++ new ∧
        List.Forall₂ (ResultFor scoring store query Gives)
          (store.takes wantedKey level neighbor.dId).toList new := by
  unfold annStep takes
  by_cases hdead : neighbor.dId ∈ store.tombstones
  · rw [if_pos hdead, if_pos hdead]
    exact ⟨found, [], rfl, hfit, by simp, .nil⟩
  rw [if_neg hdead, if_neg hdead]
  cases hslot : store.idMap[neighbor.dId]? with
  | none => exact ⟨found, [], rfl, hfit, by simp, .nil⟩
  | some key =>
      dsimp only
      by_cases hwanted : wantedKey key = true
      · have hkept : ¬(!wantedKey key) = true := by simp [hwanted]
        rw [if_neg hkept, if_neg hkept]
        cases hentry : store.vectorEntries.lookup key with
        | none => exact ⟨found, [], rfl, hfit, by simp, .nil⟩
        | some entry =>
            dsimp only
            by_cases hlevel : entry.quantLevel ≠ level
            · rw [if_pos hlevel, if_pos hlevel]
              exact ⟨found, [], rfl, hfit, by simp, .nil⟩
            · rw [if_neg hlevel, if_neg hlevel]
              obtain ⟨cache, vector, hrecovered, hfit', hgives⟩ :=
                hyields key entry found.1 hentry hfit
              rw [hrecovered]
              exact ⟨_, _, rfl, hfit', rfl, .cons ⟨vector, hgives, rfl⟩ .nil⟩
      · have hdropped : (!wantedKey key) = true := by simp [hwanted]
        rw [if_pos hdropped, if_pos hdropped]
        exact ⟨found, [], rfl, hfit, by simp, .nil⟩

theorem Yields.annLevels_ok (hyields : store.Yields Fit Gives) {cache : LruCache String quant.Vec}
    (hfit : Fit cache) :
    ∃ found : Found scoring, quantLevels.foldlM
        (annLevel scoring store query graphSearch wantedKey limit) (cache, []) = .ok found ∧
      Fit found.1 ∧ List.Forall₂ (ResultFor scoring store query Gives)
        (store.hits graphSearch query wantedKey limit) found.2 := by
  have hlevel : ∀ level ∈ quantLevels, ∀ found : Found scoring, Fit found.1 → ∃ found' new,
      annLevel scoring store query graphSearch wantedKey limit found level = .ok found' ∧
        Fit found'.1 ∧ found'.2 = found.2 ++ new ∧
          List.Forall₂ (ResultFor scoring store query Gives)
            (match store.hnswIndexes.lookup level with
              | none => []
              | some hnsw => (graphSearch hnsw query limit 128).flatMap fun neighbor =>
                  (store.takes wantedKey level neighbor.dId).toList) new := by
    intro level _ found hfound
    unfold annLevel
    cases store.hnswIndexes.lookup level with
    | none => exact ⟨found, [], rfl, hfound, by simp, .nil⟩
    | some hnsw =>
        exact FallibleRun.foldlM_appends (fun found : Found scoring => Fit found.1)
          (fun neighbor _ found hfound => hyields.annStep_ok neighbor hfound) hfound
  have hstart : Fit ((cache, []) : Found scoring).1 := hfit
  obtain ⟨found, new, hrun, hkept, hfound, hlisted⟩ :=
    FallibleRun.foldlM_appends (fun found : Found scoring => Fit found.1) hlevel hstart
  rw [List.nil_append] at hfound
  exact ⟨found, hrun, hkept, hfound ▸ hlisted⟩

theorem Yields.exactScan_ok (hyields : store.Yields Fit Gives) (hkeyed : store.Keyed)
    (order : HashOrder) (wanted : VectorEntry quant → Bool) {cache : LruCache String quant.Vec}
    (hfit : Fit cache) :
    ∃ found : Found scoring, exactScan scoring store query order wanted cache = .ok found ∧
      Fit found.1 ∧ List.Forall₂ (ResultFor scoring store query Gives)
        (store.scanned order wanted) found.2 := by
  have hstep : ∀ entry ∈ store.scanned order wanted, ∀ found : Found scoring, Fit found.1 →
      ∃ found' new, scanStep scoring store query found entry = .ok found' ∧ Fit found'.1 ∧
        found'.2 = found.2 ++ new ∧
          List.Forall₂ (ResultFor scoring store query Gives) [entry] new := by
    intro entry hentry found hfound
    rw [scanned, List.mem_filter, List.mem_map] at hentry
    obtain ⟨⟨pair, hpair, rfl⟩, -⟩ := hentry
    exact hyields.scanStep_ok hkeyed ((mem_iterVectors order).mp hpair) hfound
  have hstart : Fit ((cache, []) : Found scoring).1 := hfit
  obtain ⟨found, new, hrun, hkept, hfound, hlisted⟩ :=
    FallibleRun.foldlM_appends (fun found : Found scoring => Fit found.1) hstep hstart
  rw [List.nil_append] at hfound
  rw [List.flatMap_singleton'] at hlisted
  exact ⟨found, hrun, hkept, hfound ▸ hlisted⟩

end

end

/-! ## Every vector once -/

def Live (store : VectorStore quant) (collection : String) (entry : VectorEntry quant) : Prop :=
  store.vectorEntries.lookup (vectorKey collection entry.path) = some entry ∧
    entry.collection = collection

theorem Keyed.live (h : store.Keyed) {key : String} {entry : VectorEntry quant}
    (hlookup : store.vectorEntries.lookup key = some entry)
    (hcollection : entry.collection = collection) : store.Live collection entry := by
  rw [h.key_eq hlookup, hcollection] at hlookup
  exact ⟨hlookup, hcollection⟩

theorem Live.eq_of_path {entry other : VectorEntry quant} (h : store.Live collection entry)
    (hother : store.Live collection other) (hpath : entry.path = other.path) : entry = other := by
  have hlookup := h.1
  rw [hpath, hother.1] at hlookup
  exact (Option.some.inj hlookup).symm

section

variable {query : quant.Vec} {Gives : VectorEntry quant → quant.Vec → Prop}

variable {entries : List (VectorEntry quant)}

theorem paths_of_listed (h : List.Forall₂ (ResultFor scoring store query Gives) entries results) :
    results.map (·.path) = entries.map (·.path) := by
  induction h with
  | nil => rfl
  | cons hfirst hrest ih =>
      obtain ⟨vector, -, rfl⟩ := hfirst
      rw [List.map_cons, List.map_cons, ih]
      rfl

theorem entry_of_listed (h : List.Forall₂ (ResultFor scoring store query Gives) entries results) :
    ∀ result ∈ results, ∃ entry ∈ entries, ResultFor scoring store query Gives entry result := by
  induction h with
  | nil =>
      intro result hresult
      cases hresult
  | cons hfirst hrest ih =>
      intro result hresult
      rcases List.mem_cons.mp hresult with rfl | hlater
      · exact ⟨_, List.mem_cons_self, hfirst⟩
      · obtain ⟨entry, hentry, hresultFor⟩ := ih result hlater
        exact ⟨entry, List.mem_cons_of_mem _ hentry, hresultFor⟩

theorem lives_of_listed (h : List.Forall₂ (ResultFor scoring store query Gives) entries results)
    (hlive : ∀ entry ∈ entries, store.Live collection entry) :
    ∀ result ∈ results, Lives scoring store collection result := by
  intro result hresult
  obtain ⟨entry, hentry, vector, -, hscore⟩ := entry_of_listed h result hresult
  obtain ⟨hlookup, hcollection⟩ := hlive entry hentry
  exact ⟨_, entry, _, hlookup, hcollection, hscore⟩

end

section

variable {level other : QuantLevel} {id id' : Nat} {entry entry' : VectorEntry quant}
  {query : quant.Vec} {graphSearch : GraphSearch scoring} {limit : Nat}

/-- The keys that the graphs' search takes for keys of the collection. -/
abbrev beginsLike (collection : String) (key : String) : Bool :=
  Text.startsWith key (keyPrefix collection)

theorem live_of_hits (hkeyed : store.Keyed) (hann : store.annContractEnabled)
    (hexposed : store.NoneExposed collection) (hanswers : Answers graphSearch) :
    ∀ entry ∈ store.hits graphSearch query (beginsLike collection) limit,
      store.Live collection entry := by
  intro entry hentry
  obtain ⟨level, hnsw, hlookup, neighbor, hneighbor, htaken⟩ := mem_hits.mp hentry
  obtain ⟨hactive, key, hslot, hbegins, hcached, hlevel⟩ := takes_eq_some.mp htaken
  have hpoint := (hanswers hnsw query limit 128).2 neighbor hneighbor
  obtain ⟨⟨embedding, id⟩, hmem, hid⟩ := List.mem_map.mp hpoint
  dsimp only at hid
  rw [← hid] at hactive hslot
  exact hkeyed.live hcached (hexposed hann level hnsw embedding id key entry hlookup hmem
    hactive hslot hcached hlevel hbegins)

theorem Searchable.takes_id (h : store.Searchable) (hann : store.annContractEnabled)
    {wantedKey : String → Bool}
    (hentry : store.takes wantedKey level id = some entry)
    (hentry' : store.takes wantedKey other id' = some entry) : id = id' ∧ level = other := by
  obtain ⟨hactive, key, hslot, -, hcached, hlevel⟩ := takes_eq_some.mp hentry
  obtain ⟨-, key', hslot', -, hcached', hlevel'⟩ := takes_eq_some.mp hentry'
  have hkey : key = key' := (h.key_eq hcached).trans (h.key_eq hcached').symm
  have hname : ¬isDeletedKey key = true := by
    rw [h.key_eq hcached]
    exact not_isDeletedKey _ _
  exact ⟨(h.slotted hann).unique id id' key hslot (hkey ▸ hslot') hname, hlevel.symm.trans hlevel'⟩

theorem Searchable.hits_nodup (h : store.Searchable) (hann : store.annContractEnabled)
    {wantedKey : String → Bool} (hanswers : Answers graphSearch) :
    (store.hits graphSearch query wantedKey limit).Nodup := by
  have hlevels : quantLevels.Nodup := by decide
  rw [hits, List.nodup_flatMap]
  constructor
  · intro level _
    cases store.hnswIndexes.lookup level with
    | none => exact List.nodup_nil
    | some hnsw =>
        dsimp only
        rw [List.nodup_flatMap]
        constructor
        · intro neighbor _
          cases store.takes wantedKey level neighbor.dId with
          | none => exact List.nodup_nil
          | some entry => exact List.nodup_singleton entry
        · have hids := (hanswers hnsw query limit 128).1
          rw [List.Nodup, List.pairwise_map] at hids
          refine hids.imp fun {neighbor other} hne => ?_
          intro entry hentry hother
          rw [Option.mem_toList] at hentry hother
          exact hne (h.takes_id hann hentry hother).1
  · refine List.Pairwise.imp ?_ hlevels
    intro level other hne entry hentry hother
    obtain ⟨-, -, neighbor, -, htaken⟩ := mem_levelHits.mp hentry
    obtain ⟨-, -, neighbor', -, htaken'⟩ := mem_levelHits.mp hother
    exact hne (h.takes_id hann htaken htaken').2

theorem paths_nodup {entries : List (VectorEntry quant)} (hnodup : entries.Nodup)
    (hlive : ∀ entry ∈ entries, store.Live collection entry) :
    (entries.map (·.path)).Nodup :=
  hnodup.map_on fun entry hentry other hother hpath =>
    (hlive entry hentry).eq_of_path (hlive other hother) hpath

theorem mem_scanned {order : HashOrder} {wanted : VectorEntry quant → Bool} :
    entry ∈ store.scanned order wanted ↔
      (∃ key, store.vectorEntries.lookup key = some entry) ∧ wanted entry = true := by
  rw [scanned, List.mem_filter, List.mem_map]
  constructor
  · rintro ⟨⟨pair, hpair, rfl⟩, hwanted⟩
    exact ⟨⟨pair.1, (mem_iterVectors order).mp hpair⟩, hwanted⟩
  · rintro ⟨⟨key, hlookup⟩, hwanted⟩
    exact ⟨⟨(key, entry), (mem_iterVectors order).mpr hlookup, rfl⟩, hwanted⟩

theorem Keyed.scanned_nodup (h : store.Keyed) (order : HashOrder)
    (wanted : VectorEntry quant → Bool) : (store.scanned order wanted).Nodup := by
  have hkeys : ((iterVectors order store.vectorEntries).map (·.1)).Nodup := by
    rw [keys_iterVectors, (order.perm _).nodup_iff]
    exact store.vectorEntries.nodupKeys
  refine List.Nodup.filter _ ((List.Nodup.of_map _ hkeys).map_on ?_)
  intro pair hpair other hother hentry
  rw [mem_iterVectors] at hpair hother
  refine Prod.ext ?_ hentry
  rw [h.key_eq hpair, h.key_eq hother, hentry]

end

/-! ## Complete searches -/

section

variable {query : quant.Vec} {order : HashOrder} {graphSearch : GraphSearch scoring} {limit : Nat}
  {found more : Found scoring}

theorem length_sortResults (results : List (VectorSearchResult scoring.Score)) :
    (sortResults scoring results).length = results.length :=
  (List.perm_insertionSort _ results).length_eq

/-- The entries of the collection that the approximate search has not found. -/
abbrev missing (collection : String) (results : List (VectorSearchResult scoring.Score))
    (entry : VectorEntry quant) : Bool :=
  (entry.collection == collection) && !results.any fun result => result.path == entry.path

theorem search_inner (hinner : store.metric = .innerProduct)
    (hscan : exactScan scoring store query order (fun entry => entry.collection == collection)
      store.decodedCache = .ok found) :
    search scoring store query order graphSearch collection limit =
      .ok ({ store with decodedCache := found.1 }, (sortResults scoring found.2).take limit) := by
  unfold search searchCandidates
  rw [if_pos hinner, hscan]
  rfl

theorem search_found (hann : store.annContractEnabled)
    (hlevels : quantLevels.foldlM (annLevel scoring store query graphSearch
      (beginsLike collection) limit) (store.decodedCache, []) = .ok found)
    (henough : limit ≤ found.2.length) :
    search scoring store query order graphSearch collection limit =
      .ok ({ store with decodedCache := found.1 }, (sortResults scoring found.2).take limit) := by
  have hlong : ¬(sortResults scoring found.2).length < limit := by
    rw [length_sortResults]
    omega
  show searchCandidates scoring store query order graphSearch (beginsLike collection) _ _ limit = _
  unfold searchCandidates
  rw [if_neg hann, hlevels]
  exact if_neg hlong

theorem search_backfilled (hann : store.annContractEnabled)
    (hlevels : quantLevels.foldlM (annLevel scoring store query graphSearch
      (beginsLike collection) limit) (store.decodedCache, []) = .ok found)
    (hfew : found.2.length < limit)
    (hscan : exactScan scoring store query order
      (missing collection (sortResults scoring found.2)) found.1 = .ok more) :
    search scoring store query order graphSearch collection limit =
      .ok ({ store with decodedCache := more.1 },
        (sortResults scoring (sortResults scoring found.2 ++ more.2)).take limit) := by
  have hshort : (sortResults scoring found.2).length < limit := by
    rwa [length_sortResults]
  show searchCandidates scoring store query order graphSearch (beginsLike collection) _ _ limit = _
  unfold searchCandidates
  rw [if_neg hann, hlevels]
  refine (if_pos hshort).trans ?_
  show (exactScan scoring store query order (missing collection (sortResults scoring found.2))
    found.1 >>= _) = _
  rw [hscan]
  rfl

theorem Searchable.complete_inner (h : store.Searchable) (hinner : store.metric = .innerProduct) :
    store.SearchComplete collection := by
  intro scoring query order graphSearch limit _
  obtain ⟨found, hscan, -, hlisted⟩ :
      ∃ found : Found scoring, exactScan scoring store query order
          (fun entry => entry.collection == collection) store.decodedCache = .ok found ∧ True ∧ _ :=
    h.yields.exactScan_ok h.toKeyed order _ trivial
  have hlive : ∀ entry ∈ store.scanned order (fun entry => entry.collection == collection),
      store.Live collection entry := by
    intro entry hentry
    obtain ⟨⟨key, hlookup⟩, hwanted⟩ := mem_scanned.mp hentry
    exact h.live hlookup (beq_iff_eq.mp hwanted)
  refine ⟨_, _, search_inner hinner hscan, complete_of_results h.toKeyed ?_
    (lives_of_listed hlisted hlive) (.inr ?_)⟩
  · rw [paths_of_listed hlisted]
    exact paths_nodup (h.scanned_nodup order _) hlive
  · intro path hpath
    obtain ⟨cached, hcached, rfl⟩ := List.mem_map.mp hpath
    obtain ⟨hlookup, hcollection⟩ := mem_liveVectors.mp hcached
    rw [paths_of_listed hlisted]
    exact List.mem_map_of_mem (mem_scanned.mpr ⟨⟨cached.1, hlookup⟩, beq_iff_eq.mpr hcollection⟩)

theorem missing_iff {results : List (VectorSearchResult scoring.Score)}
    {entry : VectorEntry quant} :
    missing collection results entry = true ↔
      entry.collection = collection ∧ entry.path ∉ results.map (·.path) := by
  rw [missing, Bool.and_eq_true, beq_iff_eq, Bool.not_eq_true', ← Bool.not_eq_true,
    List.any_eq_true]
  refine and_congr_right fun _ => not_congr ?_
  simp [List.mem_map]

theorem Searchable.complete_ann (h : store.Searchable) (hann : store.annContractEnabled)
    (hexposed : store.NoneExposed collection) : store.SearchComplete collection := by
  intro scoring query order graphSearch limit hanswers
  obtain ⟨found, hlevels, -, hlisted⟩ : ∃ found, quantLevels.foldlM (annLevel scoring store query
      graphSearch (beginsLike collection) limit) (store.decodedCache, []) = .ok found ∧ True ∧ _ :=
    h.yields.annLevels_ok trivial
  have hlive : ∀ entry ∈ store.hits graphSearch query (beginsLike collection) limit,
      store.Live collection entry := live_of_hits h.toKeyed hann hexposed hanswers
  have hlives := lives_of_listed hlisted hlive
  have hpaths : (found.2.map (·.path)).Nodup := by
    rw [paths_of_listed hlisted]
    exact paths_nodup (h.hits_nodup hann hanswers) hlive
  by_cases hfew : found.2.length < limit
  · obtain ⟨more, hscan, -, hmore⟩ : ∃ more, exactScan scoring store query order
        (missing collection (sortResults scoring found.2)) found.1 = .ok more ∧ True ∧ _ :=
      h.yields.exactScan_ok h.toKeyed order _ trivial
    have hperm : (sortResults scoring found.2).Perm found.2 := List.perm_insertionSort _ _
    have hmissing : ∀ entry ∈ store.scanned order (missing collection
        (sortResults scoring found.2)), store.Live collection entry ∧
          entry.path ∉ (sortResults scoring found.2).map (·.path) := by
      intro entry hentry
      obtain ⟨⟨key, hlookup⟩, hwanted⟩ := mem_scanned.mp hentry
      obtain ⟨hcollection, hnew⟩ := missing_iff.mp hwanted
      exact ⟨h.live hlookup hcollection, hnew⟩
    refine ⟨_, _, search_backfilled hann hlevels hfew hscan, complete_of_results h.toKeyed ?_ ?_
      (.inr ?_)⟩
    · rw [List.map_append, List.nodup_append']
      refine ⟨(hperm.map _).nodup_iff.mpr hpaths, ?_, fun path hpath hother => ?_⟩
      · rw [paths_of_listed hmore]
        exact paths_nodup (h.scanned_nodup order _) fun entry hentry => (hmissing entry hentry).1
      · rw [paths_of_listed hmore] at hother
        obtain ⟨entry, hentry, rfl⟩ := List.mem_map.mp hother
        exact (hmissing entry hentry).2 hpath
    · intro result hresult
      rcases List.mem_append.mp hresult with hold | hnew
      · exact hlives result (mem_sortResults.mp hold)
      · exact lives_of_listed hmore (fun entry hentry => (hmissing entry hentry).1) result hnew
    · intro path hpath
      obtain ⟨cached, hcached, rfl⟩ := List.mem_map.mp hpath
      obtain ⟨hlookup, hcollection⟩ := mem_liveVectors.mp hcached
      rw [List.map_append, List.mem_append]
      by_cases hold : cached.2.path ∈ (sortResults scoring found.2).map (·.path)
      · exact .inl hold
      · refine .inr ?_
        rw [paths_of_listed hmore]
        exact List.mem_map_of_mem (mem_scanned.mpr
          ⟨⟨cached.1, hlookup⟩, missing_iff.mpr ⟨hcollection, hold⟩⟩)
  · exact ⟨_, _, search_found hann hlevels (Nat.le_of_not_lt hfew),
      complete_of_results h.toKeyed hpaths hlives (.inl (Nat.le_of_not_lt hfew))⟩

end

/-! ## Incomplete searches -/

def flatScoring (quant : Quantization) : Scoring quant where
  Score := Unit
  scoreVector := fun _ _ _ => ()
  scoreNeighborDistance := fun _ _ => ()
  zero := ()
  partialCmp := fun _ _ => some .eq

def onlyPoint (quant : Quantization) (id : Nat) : GraphSearch (flatScoring quant) :=
  fun hnsw _ _ _ => if id ∈ hnsw.map (·.2) then [{ dId := id, distance := () }] else []

theorem onlyPoint_answers (id : Nat) : Answers (onlyPoint quant id) := by
  intro hnsw query limit ef
  unfold onlyPoint
  by_cases hmem : id ∈ hnsw.map (·.2)
  · rw [if_pos hmem]
    refine ⟨List.nodup_singleton id, fun neighbor hneighbor => ?_⟩
    rw [List.mem_singleton.mp hneighbor]
    exact hmem
  · rw [if_neg hmem]
    exact ⟨List.nodup_nil, fun neighbor hneighbor => by cases hneighbor⟩

theorem Searchable.noneExposed (h : store.Searchable)
    (hcomplete : store.SearchComplete collection) : store.NoneExposed collection := by
  intro hann level hnsw embedding id key entry hlookup hpoint hactive hslot hcached hlevel hbegins
  obtain ⟨searched, results, hsearch, hresults⟩ :=
    hcomplete (flatScoring quant) embedding .same (onlyPoint quant id) 1 (onlyPoint_answers id)
  obtain ⟨found, hlevels, -, hlisted⟩ : ∃ found, quantLevels.foldlM (annLevel (flatScoring quant)
      store embedding (onlyPoint quant id) (beginsLike collection) 1) (store.decodedCache, []) =
        .ok found ∧ True ∧ _ :=
    h.yields.annLevels_ok trivial
  have htaken : store.takes (beginsLike collection) level id = some entry :=
    takes_eq_some.mpr ⟨hactive, key, hslot, hbegins, hcached, hlevel⟩
  have hfinds : { dId := id, distance := () } ∈ onlyPoint quant id hnsw embedding 1 128 := by
    rw [onlyPoint, if_pos (List.mem_map_of_mem hpoint)]
    exact List.mem_singleton_self _
  have hhit : entry ∈ store.hits (onlyPoint quant id) embedding (beginsLike collection) 1 :=
    mem_hits.mpr ⟨level, hnsw, hlookup, _, hfinds, htaken⟩
  have hfound : 1 ≤ found.2.length := by
    rw [← hlisted.length_eq]
    exact List.length_pos_of_mem hhit
  rw [search_found hann hlevels hfound] at hsearch
  cases hsearch
  have hlength : 0 < ((sortResults (flatScoring quant) found.2).take 1).length := by
    rw [List.length_take, length_sortResults]
    omega
  obtain ⟨result, hresult⟩ := List.exists_mem_of_length_pos hlength
  obtain ⟨key', entry', score, hcached', hcollection, hlives⟩ := hresults.lives result hresult
  obtain ⟨listed, hmem, vector, -, hscore⟩ :=
    entry_of_listed hlisted result (mem_sortResults.mp (List.mem_of_mem_take hresult))
  have hsame : listed = entry := by
    obtain ⟨level', hnsw', -, neighbor, hneighbor, htaken'⟩ := mem_hits.mp hmem
    have hid : neighbor.dId = id := by
      rw [onlyPoint] at hneighbor
      split at hneighbor
      · rw [List.mem_singleton.mp hneighbor]
      · cases hneighbor
    obtain ⟨-, other, hother, -, hlisted', -⟩ := takes_eq_some.mp htaken'
    rw [hid, hslot] at hother
    cases hother
    rw [hcached] at hlisted'
    exact (Option.some.inj hlisted').symm
  have hentry : entry.collection = entry'.collection := by
    rw [hlives, hsame] at hscore
    exact congrArg (fun result : VectorSearchResult Unit => result.collection) hscore.symm
  exact hentry.trans hcollection

theorem Searchable.complete_iff (h : store.Searchable) :
    store.SearchComplete collection ↔ store.NoneExposed collection := by
  constructor
  · exact h.noneExposed
  · intro hexposed
    by_cases hinner : store.metric = .innerProduct
    · exact h.complete_inner hinner
    · exact h.complete_ann hinner hexposed

end VectorStore

namespace VectorSession

open VectorStore

/-- In every state that calls, searches and restarts lead to, the searches of a collection are
complete if and only if no point of another collection is exposed. -/
theorem search_complete_iff {quant : Quantization} (format : SnapshotFormat quant)
    (dimension : Nat) (metric : VectorMetric) (events : List (VectorEvent quant))
    (collection : String) :
    ((VectorSession.new format dimension metric).runEvents events).store.SearchComplete collection ↔
      ((VectorSession.new format dimension metric).runEvents events).store.NoneExposed
        collection :=
  (runEvents_searchable format dimension metric events).complete_iff

/-- The search of `a` counts the vector of `a:b`, though `a` has none. -/
theorem search_counts_other_collection :
    ¬((VectorSession.new intSnapshots 2 .cosine).runEvents
      [.call (.add "a:b" "p" "d" 0 [1, 0])]).store.SearchComplete "a" := by
  intro hcomplete
  obtain ⟨searched, results, hsearch, hresults⟩ :=
    hcomplete (flatScoring intQuantization) [1, 0] .same (onlyPoint intQuantization 0) 1
      (onlyPoint_answers 0)
  cases hsearch
  exact absurd hresults.count (by decide)

end VectorSession

end BenShu.Engram
