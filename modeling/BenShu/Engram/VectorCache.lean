import BenShu.Engram.VectorCompleteness

/-!
# The cache of decoded vectors

A cached vector is the one its entry decodes to, unless a level change under the inner product
gives the entry a code that stands for another one. Searches of a store whose cache is so cannot
tell it from an empty one.
-/

namespace BenShu.Engram

namespace VectorStore

variable {quant : Quantization} {store store' : VectorStore quant} {key : String}
  {cache cache' : LruCache String quant.Vec}

/-- What the cache has for an entry without a vector of its own is what the entry decodes to. -/
def CacheCurrent (store : VectorStore quant) (cache : LruCache String quant.Vec) : Prop :=
  ∀ key entry vector, store.vectorEntries.lookup key = some entry → entry.embedding = none →
    (cache.get key).1 = some vector →
      recoverEmbedding store.quantizers store.dimension entry = .ok (some vector)

/-- The results of a search are those of a search with an empty cache. -/
def CacheFree (store : VectorStore quant) : Prop :=
  ∀ (scoring : Scoring quant) query order (graphSearch : GraphSearch scoring) collection limit,
    (search scoring store query order graphSearch collection limit).map (·.2) =
      (search scoring { store with decodedCache := { capacity := 1000 } } query order graphSearch
        collection limit).map (·.2)

/-! ## Searches -/

theorem cacheCurrent_empty (store : VectorStore quant) (capacity : Nat) :
    store.CacheCurrent { capacity := capacity } := by
  intro key entry vector _ _ hcached
  rw [LruCache.get_fst] at hcached
  cases hcached

theorem CacheCurrent.get (h : store.CacheCurrent cache) (key : String) :
    store.CacheCurrent (cache.get key).2 := by
  intro other entry vector hentry hdecoded hcached
  rw [LruCache.get_get] at hcached
  exact h other entry vector hentry hdecoded hcached

variable {entry : VectorEntry quant}

theorem CacheCurrent.put {vector : quant.Vec} (h : store.CacheCurrent cache)
    (hentry : store.vectorEntries.lookup key = some entry)
    (hrecover : recoverEmbedding store.quantizers store.dimension entry = .ok (some vector)) :
    store.CacheCurrent (cache.put key vector) := by
  intro other found cached hfound hdecoded hcached
  by_cases hkey : other = key
  · subst hkey
    rw [hentry] at hfound
    cases hfound
    rw [hrecover, LruCache.get_put_self hcached]
  · exact h other found cached hfound hdecoded (LruCache.get_put_ne hkey hcached)

theorem Keyed.yields_current (h : store.Keyed) :
    store.Yields store.CacheCurrent fun entry vector =>
      recoverEmbedding store.quantizers store.dimension entry = .ok (some vector) := by
  intro key entry cache hentry hcurrent
  obtain ⟨decoded, hrecover⟩ :=
    (h.recoverable key entry (h.entries ▸ hentry)).recovers store.dimension
  unfold recoverSearchVector
  cases hembedding : entry.embedding with
  | some embedding =>
      have hown : recoverEmbedding store.quantizers store.dimension entry =
          .ok (some embedding) := by
        unfold recoverEmbedding
        rw [hembedding]
      exact ⟨cache, embedding, rfl, hcurrent, hown⟩
  | none =>
      dsimp only
      have hget := hcurrent.get key
      cases hcached : cache.get key with
      | mk cached after =>
          rw [hcached] at hget
          cases cached with
          | some vector =>
              exact ⟨after, vector, rfl, hget,
                hcurrent key entry vector hentry hembedding (congrArg (·.1) hcached)⟩
          | none =>
              dsimp only
              rw [hrecover]
              exact ⟨_, decoded, rfl, hget.put hentry hrecover, rfl⟩

section

variable {scoring : Scoring quant} {query : quant.Vec} {order : HashOrder}
  {graphSearch : GraphSearch scoring} {collection : String} {limit : Nat}

theorem resultFor_unique : Relator.RightUnique (ResultFor scoring store query fun entry vector =>
    recoverEmbedding store.quantizers store.dimension entry = .ok (some vector)) := by
  rintro entry first second ⟨vector, hvector, rfl⟩ ⟨other, hother, rfl⟩
  rw [hvector] at hother
  cases hother
  rfl

theorem exactScan_current (h : store.Keyed) (hcache : store.CacheCurrent cache)
    (hcache' : store.CacheCurrent cache') (order : HashOrder) (wanted : VectorEntry quant → Bool) :
    ∃ found found', exactScan scoring store query order wanted cache = .ok found ∧
      exactScan scoring store query order wanted cache' = .ok found' ∧
        found.2 = found'.2 := by
  obtain ⟨found, hscan, -, hlisted⟩ : ∃ found : Found scoring,
      exactScan scoring store query order wanted cache = .ok found ∧ _ :=
    h.yields_current.exactScan_ok h order wanted hcache
  obtain ⟨found', hscan', -, hlisted'⟩ : ∃ found : Found scoring,
      exactScan scoring store query order wanted cache' = .ok found ∧ _ :=
    h.yields_current.exactScan_ok h order wanted hcache'
  exact ⟨found, found', hscan, hscan', List.right_unique_forall₂' resultFor_unique hlisted hlisted'⟩

theorem search_current (h : store.Searchable) (hcache : store.CacheCurrent cache)
    (hcache' : store.CacheCurrent cache') :
    (search scoring { store with decodedCache := cache } query order graphSearch collection
        limit).map (·.2) =
      (search scoring { store with decodedCache := cache' } query order graphSearch collection
        limit).map (·.2) := by
  by_cases hinner : store.metric = .innerProduct
  · obtain ⟨found, found', hscan, hscan', hsame⟩ : ∃ found found' : Found scoring,
        exactScan scoring store query order (fun entry => entry.collection == collection) cache =
          .ok found ∧ _ ∧ _ := exactScan_current h.toKeyed hcache hcache' order _
    have hsearch : search scoring { store with decodedCache := cache } query order graphSearch
        collection limit = _ := search_inner hinner hscan
    have hsearch' : search scoring { store with decodedCache := cache' } query order graphSearch
        collection limit = _ := search_inner hinner hscan'
    rw [hsearch, hsearch']
    show Except.ok _ = Except.ok _
    dsimp only
    rw [hsame]
  · have hlevels : ∀ cache, store.CacheCurrent cache → ∃ found : Found scoring,
        quantLevels.foldlM (annLevel scoring store query graphSearch (beginsLike collection) limit)
          (cache, []) = .ok found ∧ store.CacheCurrent found.1 ∧ _ :=
      fun cache hcache => h.yields_current.annLevels_ok hcache
    obtain ⟨found, hann, hcurrent, hlisted⟩ := hlevels cache hcache
    obtain ⟨found', hann', hcurrent', hlisted'⟩ := hlevels cache' hcache'
    have hsame : found.2 = found'.2 := List.right_unique_forall₂' resultFor_unique hlisted hlisted'
    by_cases hfew : found.2.length < limit
    · obtain ⟨more, more', hscan, hscan', hmore⟩ : ∃ found₁ found₂ : Found scoring,
          exactScan scoring store query order (missing collection (sortResults scoring found.2))
            found.1 = .ok found₁ ∧ _ ∧ _ :=
        exactScan_current h.toKeyed hcurrent hcurrent' order _
      have hsearch : search scoring { store with decodedCache := cache } query order graphSearch
          collection limit = _ := search_backfilled hinner hann hfew hscan
      have hsearch' : search scoring { store with decodedCache := cache' } query order graphSearch
          collection limit = _ :=
        search_backfilled hinner hann' (hsame ▸ hfew) (hsame ▸ hscan')
      rw [hsearch, hsearch']
      show Except.ok _ = Except.ok _
      dsimp only
      rw [hsame, hmore]
    · have hsearch : search scoring { store with decodedCache := cache } query order graphSearch
          collection limit = _ := search_found hinner hann (Nat.le_of_not_lt hfew)
      have hsearch' : search scoring { store with decodedCache := cache' } query order graphSearch
          collection limit = _ :=
        search_found hinner hann' (hsame ▸ Nat.le_of_not_lt hfew)
      rw [hsearch, hsearch']
      show Except.ok _ = Except.ok _
      dsimp only
      rw [hsame]

end

theorem Searchable.cacheFree (h : store.Searchable)
    (hcache : store.CacheCurrent store.decodedCache) : store.CacheFree :=
  fun _ _ _ _ _ _ => search_current h hcache (store.cacheCurrent_empty 1000)

/-! ## Calls -/

theorem recoverEmbedding_of_more {quantizers quantizers' : Quantizers quant}
    (h : Recoverable quantizers entry) (hfront : quantizers <+: quantizers') (dimension : Nat) :
    recoverEmbedding quantizers' dimension entry =
      recoverEmbedding quantizers dimension entry := by
  unfold recoverEmbedding
  cases hembedding : entry.embedding with
  | some embedding => rfl
  | none =>
      rcases h with hsome | ⟨hcode, quantizer, hmem⟩
      · simp [hembedding] at hsome
      · cases hquantCode : entry.quantCode with
        | none => rfl
        | some code =>
            dsimp only
            cases hfind : quantizers.find? fun quantizer => quantizer.1 = entry.quantLevel with
            | none => exact absurd (List.find?_eq_none.mp hfind _ hmem) (by simp)
            | some found => rw [hfront.find?_eq_some hfind]

/-- A call that puts an entry keeps the cache current if it does so under the key. -/
theorem Put.cacheCurrent {embedding : quant.Vec} (h : Put store store' key entry embedding)
    (hkeyed : store.Keyed) (hcurrent : store.CacheCurrent cache)
    (hothers : ∀ other, other ≠ key → ∀ vector, (cache'.get other).1 = some vector →
      (cache.get other).1 = some vector)
    (hkey : entry.embedding = none → ∀ vector, (cache'.get key).1 = some vector →
      recoverEmbedding store'.quantizers store.dimension entry = .ok (some vector)) :
    store'.CacheCurrent cache' := by
  intro other found vector hfound hdecoded hcached
  rw [h.vectorEntries, Table.lookup_insert] at hfound
  rw [h.dimension]
  by_cases hother : other = key
  · subst hother
    rw [if_pos rfl] at hfound
    cases hfound
    exact hkey hdecoded vector hcached
  · rw [if_neg hother] at hfound
    have hrecoverable := hkeyed.recoverable other found (hkeyed.entries ▸ hfound)
    rw [recoverEmbedding_of_more hrecoverable h.quantizers]
    exact hcurrent other found vector hfound hdecoded (hothers other hother vector hcached)

theorem Erased.cacheCurrent (h : Erased store store' key) (hcurrent : store.CacheCurrent cache) :
    store'.CacheCurrent (cache.pop key) := by
  intro other found vector hfound hdecoded hcached
  rw [h.vectorEntries, Table.lookup_erase] at hfound
  by_cases hother : other = key
  · rw [if_pos hother] at hfound
    cases hfound
  · rw [if_neg hother] at hfound
    rw [LruCache.get_pop_ne cache hother] at hcached
    rw [h.dimension, h.quantizers]
    exact hcurrent other found vector hfound hdecoded hcached

theorem SameVectors.cacheCurrent (h : SameVectors store store') (hkeyed : store.Keyed)
    (hcurrent : store.CacheCurrent cache) : store'.CacheCurrent cache := by
  intro key entry vector hfound hdecoded hcached
  rw [h.vectorEntries] at hfound
  have hrecoverable := hkeyed.recoverable key entry (hkeyed.entries ▸ hfound)
  rw [h.dimension, recoverEmbedding_of_more hrecoverable h.quantizers]
  exact hcurrent key entry vector hfound hdecoded hcached

variable {collection path docid : String} {chunkSeq : Nat} {embedding : quant.Vec}
  {level : QuantLevel}

theorem quantizerFor_cache (store : VectorStore quant) (level : QuantLevel)
    (embedding : quant.Vec) :
    (store.quantizerFor level embedding).1.decodedCache = store.decodedCache := by
  unfold quantizerFor
  split
  · rfl
  · rfl

theorem find_quantizerFor (store : VectorStore quant) (level : QuantLevel)
    (embedding : quant.Vec) :
    ∃ found, (store.quantizerFor level embedding).1.quantizers.find?
        (fun quantizer => quantizer.1 = level) = some found ∧
      found.2 = (store.quantizerFor level embedding).2 := by
  unfold quantizerFor
  cases hfind : store.quantizers.find? fun quantizer => quantizer.1 = level with
  | some found => exact ⟨found, hfind, rfl⟩
  | none =>
      have hnew : ∀ quantizer : DynamicQuantizer quant,
          (store.quantizers ++ [(level, quantizer)]).find? (fun quantizer => quantizer.1 = level) =
            some (level, quantizer) := by
        intro quantizer
        rw [List.find?_append, hfind]
        simp
      exact ⟨_, hnew _, rfl⟩

theorem quantize_cache (store : VectorStore quant) (entry : VectorEntry quant)
    (embedding : quant.Vec) (level : QuantLevel) :
    (store.quantize entry embedding level).1.decodedCache = store.decodedCache := by
  unfold quantize
  split
  · rfl
  · dsimp only
    split
    · exact store.quantizerFor_cache level embedding
    · exact store.quantizerFor_cache level embedding

theorem quantize_decoded {store₁ : VectorStore quant} {entry' : VectorEntry quant}
    (h : store.quantize entry embedding level = (store₁, .ok entry')) :
    if level = .full then entry'.embedding = some embedding
    else ∃ code, (store.quantizerFor level embedding).2.encode embedding = some code ∧
      recoverEmbedding store₁.quantizers store.dimension entry' =
        .ok (some ((store.quantizerFor level embedding).2.decode code)) := by
  unfold quantize at h
  by_cases hfull : level = .full
  · rw [if_pos hfull] at h ⊢
    cases h
    rfl
  · rw [if_neg hfull] at h ⊢
    dsimp only at h
    obtain ⟨found, hfind, hquantizer⟩ := store.find_quantizerFor level embedding
    cases hencode : (store.quantizerFor level embedding).2.encode embedding with
    | none =>
        rw [hencode] at h
        cases h
    | some code =>
        rw [hencode] at h
        cases h
        refine ⟨code, rfl, ?_⟩
        unfold recoverEmbedding
        dsimp only
        rw [hfind]
        dsimp only
        rw [hquantizer]

theorem updateHnsw_cache (store : VectorStore quant) (key : String) (embedding : quant.Vec)
    (level : QuantLevel) : (store.updateHnsw key embedding level).decodedCache =
      if store.annContractEnabled then store.decodedCache.pop key else store.decodedCache := by
  unfold updateHnsw
  split
  · rfl
  · rfl

theorem addAtLevel_current (h : store.Keyed) (hcurrent : store.CacheCurrent store.decodedCache) :
    (store.addAtLevel collection path docid chunkSeq embedding level).1.CacheCurrent
      (store.addAtLevel collection path docid chunkSeq embedding level).1.decodedCache := by
  obtain ⟨hsame, -, -⟩ := store.quantize_spec
    (VectorEntry.new quant docid collection path chunkSeq level) embedding level
  have hcache := store.quantize_cache
    (VectorEntry.new quant docid collection path chunkSeq level) embedding level
  cases hquantize : store.quantize
      (VectorEntry.new quant docid collection path chunkSeq level) embedding level with
  | mk store₁ result =>
      rw [hquantize] at hsame hcache
      cases result with
      | error failure =>
          rw [addAtLevel_error hquantize, hcache]
          exact hsame.cacheCurrent h hcurrent
      | ok entry =>
          obtain ⟨hput, -, -, -⟩ := addAtLevel_put hquantize
          have hdecoded := quantize_decoded hquantize
          have hleft : ∀ other, other ≠ vectorKey collection path → ∀ vector,
              (((store₁.updateHnsw (vectorKey collection path) embedding level).decodedCache.get
                other).1 = some vector → (store.decodedCache.get other).1 = some vector) := by
            intro other hother vector hcached
            rw [updateHnsw_cache, hcache] at hcached
            split at hcached
            · rwa [LruCache.get_pop_ne _ hother] at hcached
            · exact hcached
          have hafter : (store.addAtLevel collection path docid chunkSeq embedding
              level).1.decodedCache = if level = .full then
                (store₁.updateHnsw (vectorKey collection path) embedding level).decodedCache.put
                  (vectorKey collection path) embedding
              else (store₁.updateHnsw (vectorKey collection path) embedding
                level).decodedCache.pop (vectorKey collection path) := by
            unfold addAtLevel
            dsimp only
            rw [hquantize]
            rfl
          refine hput.cacheCurrent h hcurrent (fun other hother vector hcached => ?_)
            fun hnone vector hcached => ?_
          · rw [hafter] at hcached
            split at hcached
            · exact hleft other hother vector (LruCache.get_put_ne hother hcached)
            · rw [LruCache.get_pop_ne _ hother] at hcached
              exact hleft other hother vector hcached
          · rw [hafter] at hcached
            by_cases hfull : level = .full
            · rw [if_pos hfull] at hdecoded
              rw [hdecoded] at hnone
              cases hnone
            · rw [if_neg hfull, LruCache.get_pop_self] at hcached
              cases hcached

/-- The level change leaves a cached vector that the new code of the key does not stand for. -/
def LeavesStale (store : VectorStore quant) (collection path : String)
    (targetLevel : QuantLevel) : Prop :=
  store.metric = .innerProduct ∧ targetLevel ≠ .full ∧
    ∃ entry embedding code vector,
      store.kv.vectors.lookup (vectorKey collection path) = some entry ∧
        entry.quantLevel ≠ targetLevel ∧
        recoverEmbedding store.quantizers store.dimension entry = .ok (some embedding) ∧
        (store.quantizerFor targetLevel embedding).2.encode embedding = some code ∧
        (store.decodedCache.get (vectorKey collection path)).1 = some vector ∧
        (store.quantizerFor targetLevel embedding).2.decode code ≠ vector

theorem changeLevel_current {targetLevel : QuantLevel} (h : store.Keyed)
    (hcurrent : store.CacheCurrent store.decodedCache)
    (hstale : ¬store.LeavesStale collection path targetLevel) :
    (store.changeLevel collection path targetLevel).1.CacheCurrent
      (store.changeLevel collection path targetLevel).1.decodedCache := by
  unfold changeLevel
  dsimp only
  cases hlookup : store.kv.vectors.lookup (vectorKey collection path) with
  | none => exact hcurrent
  | some old =>
      dsimp only
      by_cases hsameLevel : old.quantLevel = targetLevel
      · rw [if_pos hsameLevel]
        exact hcurrent
      rw [if_neg hsameLevel]
      cases hrecover : recoverEmbedding store.quantizers store.dimension old with
      | error failure => exact hcurrent
      | ok recovered =>
          cases recovered with
          | none => exact hcurrent
          | some embedding =>
              dsimp only
              obtain ⟨hsame, -, hok⟩ := store.quantize_spec old embedding targetLevel
              have hcache := store.quantize_cache old embedding targetLevel
              cases hquantize : store.quantize old embedding targetLevel with
              | mk store₁ result =>
                  rw [hquantize] at hsame hcache hok
                  cases result with
                  | error failure =>
                      dsimp only
                      rw [hcache]
                      exact hsame.cacheCurrent h hcurrent
                  | ok entry =>
                      obtain ⟨hlevel, -, -, -, hrecoverable⟩ := hok entry rfl
                      have hdecoded := quantize_decoded hquantize
                      have hput := fun cache =>
                        store₁.updateHnsw_persist (vectorKey collection path) entry embedding
                          cache hrecoverable
                      rw [hlevel] at hput
                      have hafter : ((store₁.updateHnsw (vectorKey collection path) embedding
                          targetLevel).persist (vectorKey collection path)
                            entry).saveMetadata.decodedCache =
                          if store.annContractEnabled then
                            store.decodedCache.pop (vectorKey collection path)
                          else store.decodedCache := by
                        have hann : store₁.annContractEnabled ↔ store.annContractEnabled := by
                          rw [hsame.ann]
                        refine (store₁.updateHnsw_cache (vectorKey collection path) embedding
                          targetLevel).trans ?_
                        rw [hcache]
                        exact if_congr hann rfl rfl
                      refine ((hput _).of_same hsame).cacheCurrent h hcurrent
                        (fun other hother vector hcached => ?_) fun hnone vector hcached => ?_
                      · rw [hafter] at hcached
                        split at hcached
                        · rwa [LruCache.get_pop_ne _ hother] at hcached
                        · exact hcached
                      · rw [hafter] at hcached
                        by_cases hann : store.annContractEnabled
                        · rw [if_pos hann, LruCache.get_pop_self] at hcached
                          cases hcached
                        rw [if_neg hann] at hcached
                        by_cases hfull : targetLevel = .full
                        · rw [if_pos hfull] at hdecoded
                          rw [hdecoded] at hnone
                          cases hnone
                        rw [if_neg hfull] at hdecoded
                        obtain ⟨code, hencode, hdecode⟩ := hdecoded
                        -- the code stands for the cached vector, or the change leaves it stale
                        by_contra hother
                        refine hstale ⟨not_not.mp hann, hfull, old, embedding, code, vector,
                          hlookup, hsameLevel, hrecover, hencode, hcached, fun heq => hother ?_⟩
                        rw [← heq]
                        show recoverEmbedding (store₁.updateHnsw _ _ _).quantizers _ _ = _
                        rw [updateHnsw_quantizers]
                        exact hdecode

theorem remove_current (hcurrent : store.CacheCurrent store.decodedCache) :
    (store.remove collection path).CacheCurrent (store.remove collection path).decodedCache := by
  have hafter : (store.remove collection path).decodedCache =
      store.decodedCache.pop (vectorKey collection path) := by
    unfold remove
    dsimp only
    split
    · rfl
    · rfl
  rw [hafter]
  exact (store.remove_erased collection path).cacheCurrent hcurrent

theorem save_current (format : SnapshotFormat quant) (files : Table QuantLevel format.File)
    (h : store.Keyed) (hcurrent : store.CacheCurrent store.decodedCache) :
    (store.save format files).1.CacheCurrent (store.save format files).1.decodedCache := by
  have hafter : (store.save format files).1.decodedCache = store.decodedCache := by
    unfold save
    dsimp only
    split
    · rfl
    · rfl
  rw [hafter]
  exact (save_same format store files).cacheCurrent h hcurrent

/-! ## Searches and restarts -/

theorem search_keepsCurrent {scoring : Scoring quant} {query : quant.Vec} {order : HashOrder}
    {graphSearch : GraphSearch scoring} {limit : Nat} {searched : VectorStore quant}
    {results : List (VectorSearchResult scoring.Score)} (h : store.Keyed)
    (hcurrent : store.CacheCurrent store.decodedCache)
    (hsearch : search scoring store query order graphSearch collection limit =
      .ok (searched, results)) : searched.CacheCurrent searched.decodedCache := by
  obtain ⟨found, hsearched, -, hcases⟩ := searchCandidates_cases hsearch
  have hscans : ∀ wanted cache, store.CacheCurrent cache → ∀ found : Found scoring,
      exactScan scoring store query order wanted cache = .ok found →
        store.CacheCurrent found.1 := by
    intro wanted cache hcache found hscan
    obtain ⟨found', hscan', hkept, -⟩ : ∃ found : Found scoring,
        exactScan scoring store query order wanted cache = .ok found ∧ _ :=
      h.yields_current.exactScan_ok h order wanted hcache
    rw [hscan] at hscan'
    cases hscan'
    exact hkept
  have hfound : store.CacheCurrent found.1 := by
    rcases hcases with ⟨-, hscan⟩ | ⟨-, neighbours, hann, hmore⟩
    · exact hscans _ _ hcurrent found hscan
    · obtain ⟨neighbours', hann', hkept, -⟩ : ∃ found : Found scoring, quantLevels.foldlM
          (annLevel scoring store query graphSearch (beginsLike collection) limit)
            (store.decodedCache, []) = .ok found ∧ _ :=
        h.yields_current.annLevels_ok hcurrent
      have hsame : neighbours' = neighbours := Except.ok.inj (hann'.symm.trans hann)
      rw [hsame] at hkept
      rcases hmore with heq | ⟨more, hscan, heq⟩
      · rw [heq]
        exact hkept
      · rw [heq]
        exact hscans _ _ hkept more hscan
  rw [hsearched]
  exact hfound

theorem openStore_cache {kv : VectorKv quant} {dimension : Nat} {metric : VectorMetric}
    (h : openStore kv dimension metric = .ok store) :
    store.decodedCache = { capacity := 1000 } := by
  unfold openStore at h
  cases hconfig : kv.config with
  | none =>
      rw [hconfig] at h
      cases h
      rfl
  | some persisted =>
      rw [hconfig] at h
      dsimp only at h
      by_cases hmismatch : persisted.dimension ≠ dimension ∨ persisted.metric ≠ metric
      · rw [if_pos hmismatch] at h
        cases h
      · rw [if_neg hmismatch] at h
        cases h
        rfl

theorem rebuildStep_cache {cached : String × VectorEntry quant}
    (h : store.rebuildStep cached = .ok store') : store'.decodedCache = store.decodedCache := by
  unfold rebuildStep at h
  dsimp only at h
  split at h
  · cases h
    rfl
  · split at h
    · cases h
      rfl
    · rcases FallibleRun.bind_eq_ok.mp h with ⟨recovered, -, hstored⟩
      cases recovered with
      | none =>
          cases hstored
          rfl
      | some embedding =>
          cases hstored
          rfl

/-- A restart begins with an empty cache. -/
theorem load_cache {format : SnapshotFormat quant} {order : HashOrder} {kv : VectorKv quant}
    {files : Table QuantLevel format.File} {dimension : Nat} {metric : VectorMetric}
    {loaded : VectorStore quant} (h : load format order kv files dimension metric = .ok loaded) :
    loaded.decodedCache = { capacity := 1000 } := by
  cases hopen : openStore kv dimension metric with
  | error failure =>
      unfold load at h
      rw [hopen] at h
      cases h
  | ok opened =>
      have hopened := openStore_cache hopen
      rw [load_eq hopen] at h
      split at h
      · have hread : (opened.loadSnapshots format files).1.decodedCache = opened.decodedCache := by
          unfold loadSnapshots
          dsimp only
          split
          · rfl
          · rfl
        unfold restoreIndexes at h
        dsimp only at h
        split at h
        · cases h
          exact hread.trans hopened
        · apply FallibleRun.foldlM_preserves
            (P := fun built : VectorStore quant => built.decodedCache = { capacity := 1000 })
            ?_ ?_ h
          · intro pair _ before after hbefore hstep
            exact (rebuildStep_cache hstep).trans hbefore
          · exact hread.trans hopened
      · cases h
        exact hopened

end VectorStore

namespace VectorSession

open VectorStore

variable {quant : Quantization} {format : SnapshotFormat quant}

def LeavesStale (session : VectorSession format) : VectorEvent quant → Prop
  | .call (.changeLevel collection path targetLevel) =>
      session.store.LeavesStale collection path targetLevel
  | _ => False

theorem perform_current (session : VectorSession format) (op : VectorOp quant)
    (h : session.store.Keyed) (hcurrent : session.store.CacheCurrent session.store.decodedCache)
    (hstale : ¬session.LeavesStale (.call op)) :
    (session.perform op).store.CacheCurrent (session.perform op).store.decodedCache := by
  cases op with
  | add collection path docid chunkSeq embedding => exact addAtLevel_current h hcurrent
  | addAtLevel collection path docid chunkSeq embedding level =>
      exact addAtLevel_current h hcurrent
  | changeLevel collection path targetLevel => exact changeLevel_current h hcurrent hstale
  | remove collection path => exact remove_current hcurrent
  | save => exact save_current format session.files h hcurrent

theorem occur_current (session : VectorSession format) (event : VectorEvent quant)
    (h : session.store.Keyed) (hcurrent : session.store.CacheCurrent session.store.decodedCache)
    (hstale : ¬session.LeavesStale event) :
    (session.occur event).store.CacheCurrent (session.occur event).store.decodedCache := by
  cases event with
  | call op => exact perform_current session op h hcurrent hstale
  | search scoring query order graphSearch collection limit =>
      unfold occur
      dsimp only
      cases hsearch : session.store.search scoring query order graphSearch collection limit with
      | error failure => exact hcurrent
      | ok searched => exact search_keepsCurrent h hcurrent hsearch
  | restart order =>
      unfold occur
      dsimp only
      cases hload : VectorStore.load format order session.store.kv session.files
          session.store.dimension session.store.metric with
      | error failure => exact hcurrent
      | ok loaded =>
          dsimp only
          rw [load_cache hload]
          exact loaded.cacheCurrent_empty 1000

def NoneStale (format : SnapshotFormat quant) (dimension : Nat) (metric : VectorMetric)
    (events : List (VectorEvent quant)) : Prop :=
  ∀ before event after, events = before ++ event :: after →
    ¬((VectorSession.new format dimension metric).runEvents before).LeavesStale event

theorem NoneStale.before {dimension : Nat} {metric : VectorMetric}
    {before after : List (VectorEvent quant)}
    (h : NoneStale format dimension metric (before ++ after)) :
    NoneStale format dimension metric before :=
  fun first event rest heq => h first event (rest ++ after) (by rw [heq]; simp)

theorem runEvents_current {dimension : Nat} {metric : VectorMetric}
    {events : List (VectorEvent quant)} (h : NoneStale format dimension metric events) :
    ((VectorSession.new format dimension metric).runEvents events).store.CacheCurrent
      ((VectorSession.new format dimension metric).runEvents events).store.decodedCache := by
  induction events using List.reverseRecOn with
  | nil => exact cacheCurrent_empty _ 1000
  | append_singleton events event ih =>
      rw [runEvents_snoc]
      exact occur_current _ event (runEvents_searchable format dimension metric events).toKeyed
        (ih h.before) (h events event [] rfl)

/-- As long as no level change leaves a stale vector in the cache, no search of a run can tell
the cache from an empty one. -/
theorem runEvents_cacheFree {quant : Quantization} (format : SnapshotFormat quant)
    (dimension : Nat) (metric : VectorMetric) (events : List (VectorEvent quant))
    (h : NoneStale format dimension metric events) :
    ∀ before, before <+: events →
      ((VectorSession.new format dimension metric).runEvents before).store.CacheFree := by
  rintro before ⟨after, rfl⟩
  exact (runEvents_searchable format dimension metric before).cacheFree (runEvents_current h.before)

/-- A cosine store forgets the cached vector when the level changes. -/
theorem runEvents_cacheFree_cosine :
    ((VectorSession.new intSnapshots 2 .cosine).runEvents [.call (.add "docs" "a" "d" 0 [1, 3]),
      .call (.changeLevel "docs" "a" .warm)]).store.CacheFree := by
  have hnone : NoneStale intSnapshots 2 .cosine [.call (.add "docs" "a" "d" 0 [1, 3]),
      .call (.changeLevel "docs" "a" .warm)] := by
    intro before event after heq hstale
    cases before with
    | nil =>
        cases heq
        exact hstale
    | cons first before =>
        cases before with
        | nil =>
            cases heq
            cases hstale.1
        | cons second before =>
            cases before <;> cases heq
  exact runEvents_cacheFree intSnapshots 2 .cosine _ hnone _ (List.prefix_refl _)

/-- Under the inner product the search after the level change scores the vector that was
added, not what its code stands for. -/
theorem search_scores_stale_vector :
    ¬((VectorSession.new intSnapshots 2 .innerProduct).runEvents [
      .call (.add "docs" "a" "d" 0 [1, 3]),
      .call (.changeLevel "docs" "a" .warm)]).store.CacheFree := by
  intro hfree
  have hsame := hfree intScoring [1, 1] .same everyPoint "docs" 1
  have hscores : (Except.ok [4] : Except VectorFailure (List Int)) = .ok [2] :=
    congrArg (fun results => results.map (List.map (·.score))) hsame
  cases hscores

end VectorSession

end BenShu.Engram
