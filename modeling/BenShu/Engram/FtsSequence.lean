import BenShu.Engram.FtsStore
import BenShu.Engram.TopHits

/-!
# A batch against its documents one after the other

A batch writes one segment for a term where single documents write many, and compacts at other
times. Documents with distinct keys leave the same forward index, statistics and posting lists
either way, and so the same hits.
-/

namespace BenShu.Engram

open DeltaLog

namespace FtsEngine

def indexEach (host : FtsHost) (engine : FtsEngine) (calls : List (HashOrder × String × String)) :
    Except String FtsEngine :=
  calls.foldlM (fun engine call => engine.indexDocument host call.1 call.2.1 call.2.2) engine

variable {host : FtsHost} {engine : FtsEngine}

theorem PlainTerms.insert {engine₁ : FtsEngine} {docKey text : String} (h : engine.PlainTerms)
    (hforward : engine₁.forward =
      engine.forward.insert docKey (tfMapOf (host.segmenter.tokenize text))) :
    engine₁.PlainTerms := by
  intro key tf hlookup term hterm
  rw [hforward, Table.lookup_insert] at hlookup
  by_cases hkey : key = docKey
  · rw [if_pos hkey] at hlookup
    cases hlookup
    exact Segmenter.colon_notMem_of_tokenize (isSome_lookup_tfMapOf.mp hterm)
  · rw [if_neg hkey] at hlookup
    exact h key tf hlookup term hterm

/-- Storing one document leaves the term counts of the other keys. -/
theorem lookup_insert_of_mem {forward : Table String TfMap} {docs : List (String × String)}
    {first docKey text : String} {tf : TfMap} (hfirst : first ∉ docs.map (·.1))
    (hmem : (docKey, text) ∈ docs) :
    (forward.insert first tf).lookup docKey = forward.lookup docKey := by
  have hne : docKey ≠ first := fun heq => hfirst (heq ▸ List.mem_map.mpr ⟨_, hmem, rfl⟩)
  rw [Table.lookup_insert, if_neg hne]

theorem touches_cons {segmenter : Segmenter} {forward : Table String TfMap}
    {docs : List (String × String)} {first text term : String} (tf : TfMap)
    (hfirst : first ∉ docs.map (·.1)) :
    Touches segmenter forward ((first, text) :: docs) term ↔
      (term ∈ segmenter.tokenize text ∨
        ((forward.lookup first).bind (·.lookup term)).isSome = true) ∨
      Touches segmenter (forward.insert first tf) docs term := by
  constructor
  · rintro ⟨docKey, text', hmem, h⟩
    rcases List.mem_cons.mp hmem with heq | hmem
    · cases heq
      exact .inl h
    · refine .inr ⟨docKey, text', hmem, ?_⟩
      rwa [lookup_insert_of_mem hfirst hmem]
  · rintro (h | ⟨docKey, text', hmem, h⟩)
    · exact ⟨first, text, List.mem_cons_self, h⟩
    · rw [lookup_insert_of_mem hfirst hmem] at h
      exact ⟨docKey, text', List.mem_cons_of_mem _ hmem, h⟩

theorem gatherBatch_stats_congr {host' : FtsHost} {engine engine' : FtsEngine}
    {batch batch' : Batch} (hsegmenter : host'.segmenter = host.segmenter)
    (hforward : engine'.forward = engine.forward) (hstats : batch'.stats = batch.stats)
    (docs : List (String × String)) :
    (engine'.gatherBatch host' batch' docs).2.stats =
      (engine.gatherBatch host batch docs).2.stats := by
  induction docs generalizing engine engine' batch batch' with
  | nil => exact hstats
  | cons doc docs ih =>
      rw [gatherBatch_cons, gatherBatch_cons]
      refine ih ?_ ?_
      · rw [putFtsForward, putFtsForward, hforward, hsegmenter]
      · rw [(gatherStep_spec host' _ _ doc).1, (gatherStep_spec host _ _ doc).1, hforward, hstats,
          hsegmenter]

/-- Documents with distinct keys, one after the other, act as the batch of them does. -/
theorem PostingView.indexEach (v : PostingView host) (h : v.Inv engine)
    (hplain : engine.PlainTerms) (calls : List (HashOrder × String × String))
    (hdistinct : (calls.map fun call => call.2.1).Nodup) :
    ∃ engine', engine.indexEach host calls = .ok engine' ∧ v.Inv engine' ∧
      engine'.forward = storeForward host.segmenter engine.forward (calls.map (·.2)) ∧
      engine'.getStats =
        (engine.gatherBatch host { stats := engine.getStats } (calls.map (·.2))).2.stats ∧
      (∀ term docKey, v.posting engine' term docKey =
        (lastEntry host.segmenter (calls.map (·.2)) term docKey).or
          (if docKey ∈ (calls.map (·.2)).map (·.1) ∧
              ((engine.forward.lookup docKey).bind (·.lookup term)).isSome = true then none
          else v.posting engine term docKey)) ∧
      ∀ term, (Touches host.segmenter engine.forward (calls.map (·.2)) term →
          v.old engine' term = none) ∧
        (¬Touches host.segmenter engine.forward (calls.map (·.2)) term →
          v.old engine' term = v.old engine term) := by
  induction calls generalizing engine with
  | nil =>
      refine ⟨engine, rfl, h, rfl, rfl, ?_, ?_⟩
      · simp [lastEntry, entriesFor, lastWith]
      · simp [Touches]
  | cons call calls ih =>
      rcases call with ⟨order, first, text⟩
      rcases List.nodup_cons.mp hdistinct with ⟨hfirst, hrest⟩
      have hnew : first ∉ (calls.map (·.2)).map (·.1) := by
        rw [List.map_map]
        exact hfirst
      obtain ⟨engine₁, hok₁, hinv₁, hforward₁, hstats₁, hposting₁, hold₁⟩ :=
        v.indexDocument order h hplain first text
      obtain ⟨engine₂, hok₂, hinv₂, hforward₂, hstats₂, hposting₂, hold₂⟩ :=
        ih hinv₁ (hplain.insert hforward₁) hrest
      rw [hforward₁] at hforward₂ hposting₂ hold₂
      refine ⟨engine₂, ?_, hinv₂, hforward₂, ?_, ?_, ?_⟩
      · rw [FtsEngine.indexEach, List.foldlM_cons, hok₁]
        exact hok₂
      · rw [hstats₂, List.map_cons, gatherBatch_cons]
        refine gatherBatch_stats_congr rfl hforward₁ ?_ _
        rw [(gatherStep_spec host engine.forward _ _).1, getStats, hstats₁]
        rfl
      · intro term docKey
        rw [hposting₂, hposting₁, List.map_cons, lastEntry_cons]
        by_cases hkey : docKey = first
        · rw [hkey]
          have hnone : lastEntry host.segmenter (calls.map (·.2)) term first = none :=
            lastEntry_eq_none fun text hmem =>
              absurd (List.mem_map.mpr ⟨_, hmem, rfl⟩) hnew
          rw [hnone, if_neg fun hmem => hnew hmem.1, if_pos rfl, if_pos rfl]
          simp [docEntry]
        · have hne : first ≠ docKey := fun heq => hkey heq.symm
          have hmem : docKey ∈ first :: (calls.map (·.2)).map (·.1) ↔
              docKey ∈ (calls.map (·.2)).map (·.1) := by simp [hkey]
          rw [Table.lookup_insert, if_neg hkey, if_neg hkey, if_neg hne, Option.or_none]
          simp only [List.map_cons, hmem]
      · intro term
        have htouched : Touches host.segmenter engine.forward
            (((order, first, text) :: calls).map (·.2)) term ↔ _ :=
          touches_cons (tfMapOf (host.segmenter.tokenize text)) hnew
        rw [htouched]
        by_cases hrest : Touches host.segmenter
            (engine.forward.insert first (tfMapOf (host.segmenter.tokenize text)))
            (calls.map (·.2)) term
        · exact ⟨fun _ => (hold₂ term).1 hrest, fun hnot => absurd (.inr hrest) hnot⟩
        · rw [(hold₂ term).2 hrest, hold₁]
          refine ⟨fun hcase => if_pos (hcase.resolve_right hrest), fun hnot => if_neg ?_⟩
          exact fun hfirst => hnot (.inl hfirst)

/-! ## Hits -/

theorem foldlM_searchStep (hsound : Sound host engine) {terms : List String}
    (hterms : ∀ term ∈ terms, PlainKey term) (found : List PostingList) :
    ∃ engine', terms.foldlM searchStep (engine, found) =
      .ok (engine', found ++ terms.filterMap fun term =>
        (storedList engine.inverted term).toOption) := by
  induction terms generalizing engine found with
  | nil => exact ⟨engine, by simp [pure, Except.pure]⟩
  | cons first terms ih =>
      obtain ⟨engine₁, list, hlist, hget, hsound₁, hinverted, -, -⟩ :=
        getPostingListInternal_stored hsound (hterms first List.mem_cons_self)
      obtain ⟨engine₂, hrest⟩ := ih hsound₁ (fun term hterm =>
        hterms term (List.mem_cons_of_mem _ hterm)) (found ++ [list])
      rw [hinverted] at hrest
      refine ⟨engine₂, ?_⟩
      have hstep : searchStep (engine, found) first = .ok (engine₁, found ++ [list]) := by
        rw [searchStep, hget]
        rfl
      rw [List.foldlM_cons, hstep]
      refine hrest.trans ?_
      rw [List.append_assoc, List.singleton_append, List.filterMap_cons, hlist]
      rfl

theorem search_congr {Score : Type} {host' : FtsHost} {engine' : FtsEngine}
    (hsegmenter : host'.segmenter = host.segmenter) (hsound : Sound host engine)
    (hsound' : Sound host' engine') (hstats : engine'.getStats = engine.getStats)
    (hlists : ∀ term, PlainKey term →
      storedList engine'.inverted term = storedList engine.inverted term)
    (rank : Ranking Score) (query : String) (limit : Nat) :
    (engine'.search host' rank query limit).map Prod.snd =
      (engine.search host rank query limit).map Prod.snd := by
  have hterms : ∀ term ∈ host.segmenter.tokenize query, PlainKey term := fun _ hterm =>
    Segmenter.colon_notMem_of_tokenize hterm
  obtain ⟨last, hfound⟩ := foldlM_searchStep hsound hterms []
  obtain ⟨last', hfound'⟩ := foldlM_searchStep hsound' hterms []
  have hsame : (host.segmenter.tokenize query).filterMap
        (fun term => (storedList engine'.inverted term).toOption) =
      (host.segmenter.tokenize query).filterMap
        (fun term => (storedList engine.inverted term).toOption) :=
    List.filterMap_congr fun term hterm => by rw [hlists term (hterms term hterm)]
  rw [hsame] at hfound'
  rw [search_hits, search_hits, ranked, ranked, hstats, hsegmenter, hfound, hfound']
  rfl

/-- For documents with distinct keys the batch and the documents one after the other, whatever
the clock shows, succeed and leave the same forward index, statistics, posting lists and hits. -/
theorem indexBatch_indexEach (host host' : FtsHost) (order : HashOrder) (engine : FtsEngine)
    (calls : List (HashOrder × String × String)) (hsegmenter : host'.segmenter = host.segmenter)
    (hsound : Sound host engine) (hsound' : Sound host' engine) (hplain : engine.PlainTerms)
    (hdistinct : (calls.map fun call => call.2.1).Nodup) :
    ∃ batched each, engine.indexBatch host order (calls.map (·.2)) = .ok batched ∧
      engine.indexEach host' calls = .ok each ∧
      batched.forward = each.forward ∧ batched.getStats = each.getStats ∧
      (∀ term, PlainKey term →
        storedList batched.inverted term = storedList each.inverted term ∧
          (batched.getPostingListInternal term).map (·.2) =
            (each.getPostingListInternal term).map (·.2)) ∧
      ∀ (Score : Type) (rank : Ranking Score) (query : String) (limit : Nat),
        (batched.search host rank query limit).map Prod.snd =
          (each.search host' rank query limit).map Prod.snd := by
  obtain ⟨batched, hbatch, hsound₁, hforward₁, hstats₁, hposting₁, hold₁⟩ :=
    (soundView host).indexBatch order hsound hplain (calls.map (·.2))
  obtain ⟨each, heach, hsound₂, hforward₂, hstats₂, hposting₂, hold₂⟩ :=
    (soundView host').indexEach hsound' hplain calls hdistinct
  rw [hsegmenter] at hforward₂ hposting₂ hold₂
  have hstats : batched.getStats = each.getStats := by
    rw [hstats₂, getStats, hstats₁]
    exact (gatherBatch_stats_congr hsegmenter rfl rfl _).symm
  have hlists : ∀ term, PlainKey term →
      storedList batched.inverted term = storedList each.inverted term := by
    intro term hterm
    refine storedList_congr hsound₂.store hsound₁.store hterm (fun docKey => ?_) ?_
    · have hbatched := hposting₁ term docKey
      have heach := hposting₂ term docKey
      simp only [soundView, if_pos hterm] at hbatched heach
      exact hbatched.trans heach.symm
    · by_cases htouched : Touches host.segmenter engine.forward (calls.map (·.2)) term
      · have hbatched := (hold₁ term).1 htouched
        have heach := (hold₂ term).1 htouched
        simp only [soundView, if_pos hterm] at hbatched heach
        exact hbatched.trans heach.symm
      · have hbatched := (hold₁ term).2 htouched
        have heach := (hold₂ term).2 htouched
        simp only [soundView, if_pos hterm] at hbatched heach
        exact hbatched.trans heach.symm
  refine ⟨batched, each, hbatch, heach, hforward₁.trans hforward₂.symm, hstats,
    fun term hterm => ⟨hlists term hterm, ?_⟩, fun Score rank query limit =>
      search_congr hsegmenter.symm hsound₂ hsound₁ hstats hlists rank query limit⟩
  obtain ⟨_, list, hlist, hget, -⟩ := getPostingListInternal_stored hsound₁ hterm
  obtain ⟨_, list', hlist', hget', -⟩ := getPostingListInternal_stored hsound₂ hterm
  have hsame := hlist.symm.trans ((hlists term hterm).trans hlist')
  rw [hget, hget']
  exact hsame

/-- Two documents that share a term, on an empty engine. -/
theorem indexBatch_indexEach_shared :
    ∃ batched each, ({} : FtsEngine).indexBatch wordHost .same
        [("guide", "rust book"), ("notes", "rust")] = .ok batched ∧
      ({} : FtsEngine).indexEach wordHost
        [(.same, "guide", "rust book"), (.same, "notes", "rust")] = .ok each ∧
      batched.forward = each.forward ∧ batched.getStats = each.getStats := by
  have hplain : ({} : FtsEngine).PlainTerms := by simp [PlainTerms]
  obtain ⟨batched, each, hbatch, heach, hforward, hstats, -⟩ := indexBatch_indexEach wordHost wordHost
    .same {} [(.same, "guide", "rust book"), (.same, "notes", "rust")] rfl (new_sound wordHost)
    (new_sound wordHost) hplain (by decide)
  exact ⟨batched, each, hbatch, heach, hforward, hstats⟩

end FtsEngine

end BenShu.Engram
