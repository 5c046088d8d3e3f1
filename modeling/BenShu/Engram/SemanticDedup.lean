import BenShu.Engram.HybridSearch
import BenShu.Engram.StoredVector
import BenShu.Lib.Coverage

/-!
# Semantic deduplication

A content that is taken for a duplicate gets no vector. Its document then depends on
another one whose vector stands for it. The engine looks at bodies that outlive their
documents and at the document's own old vector, and it forgets who depends on whom.
-/

namespace BenShu.Engram

inductive HybridOp where
  | indexAtLevel (collection path title content : String) (level : QuantLevel)
      (unverified : Bool) (metadata : Table String String)
  | replaceDocumentContent (collection path title content : String)
      (metadata : Table String String)
  | deleteDocument (collection path : String)

/-- The text a call gives. -/
def HybridOp.content : HybridOp → Option String
  | .indexAtLevel _ _ _ content _ _ _ => some content
  | .replaceDocumentContent _ _ _ content _ => some content
  | .deleteDocument _ _ => none

namespace HybridSearchEngine

variable {quant : Quantization} {host : HybridHost quant}

/-- A call that fails leaves what it has done so far. -/
def perform (engine : HybridSearchEngine host) (call : HybridSetting host × HybridOp) :
    HybridSearchEngine host :=
  match call.2 with
  | .indexAtLevel collection path title content level unverified metadata =>
      (engine.indexAtLevel call.1 collection path title content level unverified metadata).1
  | .replaceDocumentContent collection path title content metadata =>
      (engine.replaceDocumentContent call.1 collection path title content metadata).1
  | .deleteDocument collection path => engine.deleteDocument call.1 collection path

def run (engine : HybridSearchEngine host) (calls : List (HybridSetting host × HybridOp)) :
    HybridSearchEngine host :=
  calls.foldl perform engine

/-! ## Documents and their vectors -/

def IsVectorOf (host : HybridHost quant) (content : String) (stored : StoredVector quant) : Prop :=
  ∃ vector, host.embedder content = some vector ∧ stored.Keeps vector

def IsNear (engine : HybridSearchEngine host) (content : String) (stored : StoredVector quant) :
    Prop :=
  ∃ vector, host.embedder content = some vector ∧
    atLeast (host.scoring.scoreVector engine.vectorStore.metric vector stored.recover)
      engine.config.dedupThreshold = true

def view (engine : HybridSearchEngine host) : Coverage.Store String String (StoredVector quant) where
  item := engine.store.contentAt
  mark := fun key => engine.vectorStore.vectorAt ("v:" ++ key)

/-- Every stored document has a live vector of its own content, or another stored
document of equal or near content has a live vector, and no live vector is of another
content than its document's. -/
def Deduplicated (engine : HybridSearchEngine host) : Prop :=
  Coverage.Covered (IsVectorOf host) engine.IsNear engine.view

/-! ## When a call is safe -/

/-- What indexing a content does about its vector. -/
inductive VectorOutcome (quant : Quantization) where
  | kept
  | failed
  | added (stored : StoredVector quant)

def vectorOutcome (engine : HybridSearchEngine host) (setting : HybridSetting host)
    (collection content : String) (level : QuantLevel) : VectorOutcome quant :=
  match engine.embed content with
  | none => .kept
  | some embedding =>
      if (engine.checkDuplicate setting collection embedding content).2 then .kept
      else
        match engine.vectorStore.newVector embedding level with
        | none => .failed
        | some stored => .added stored

/-- The content a document has after it was indexed: one that is too large is refused. -/
def indexedContent (engine : HybridSearchEngine host) (key content : String) : Option String :=
  if content.utf8ByteSize > engine.store.config.maxContentSize then engine.store.contentAt key
  else some content

/-- A content and a vector under a document key. -/
structure Change (quant : Quantization) where
  key : String
  content : Option String
  stored : Option (StoredVector quant)

def indexChange (engine : HybridSearchEngine host) (setting : HybridSetting host)
    (collection path content : String) (level : QuantLevel) : Change quant :=
  let key := documentKey collection path
  match engine.vectorOutcome setting collection content level with
  | .kept => ⟨key, engine.indexedContent key content, engine.view.mark key⟩
  | .failed => ⟨key, engine.view.item key, engine.view.mark key⟩
  | .added stored => ⟨key, engine.indexedContent key content, some stored⟩

def withoutVector (engine : HybridSearchEngine host) (collection path : String) :
    HybridSearchEngine host :=
  { engine with vectorStore := engine.vectorStore.remove collection path }

/-- The change a call is about to make. -/
def change (engine : HybridSearchEngine host) (call : HybridSetting host × HybridOp) :
    Change quant :=
  match call.2 with
  | .indexAtLevel collection path _ content level _ _ =>
      engine.indexChange call.1 collection path content level
  | .replaceDocumentContent collection path _ content _ =>
      (engine.withoutVector collection path).indexChange call.1 collection path content .warm
  | .deleteDocument collection path => ⟨documentKey collection path, none, none⟩

/-- The documents can do with the change: a vector that is kept or added is one of the
content, a content without a vector is covered by another document, and no other
document loses the last one that covers it. -/
def SafeCall (engine : HybridSearchEngine host) (call : HybridSetting host × HybridOp) : Prop :=
  Coverage.Admits (IsVectorOf host) engine.IsNear engine.view (engine.change call).key
    (engine.change call).content (engine.change call).stored

/-! ## What indexing does -/

theorem checkDuplicate_engine (engine : HybridSearchEngine host) (setting : HybridSetting host)
    (collection : String) (embedding : quant.Vec) (content : String) :
    ∃ cache, (engine.checkDuplicate setting collection embedding content).1 =
      { engine with vectorStore := { engine.vectorStore with decodedCache := cache } } := by
  unfold checkDuplicate isSemanticDuplicate
  by_cases hdedup : engine.config.enableSemanticDedup = true
  · rw [if_neg (by simp [hdedup])]
    split
    · rename_i checked hchecked
      split at hchecked
      · cases hchecked
        exact ⟨engine.vectorStore.decodedCache, rfl⟩
      · rcases FallibleRun.bind_eq_ok.mp hchecked with ⟨found, hsearch, hfound⟩
        obtain ⟨cache, hcache⟩ := VectorStore.searchCandidates_store hsearch
        cases hfound
        exact ⟨cache, by rw [hcache]⟩
    · exact ⟨engine.vectorStore.decodedCache, rfl⟩
  · rw [if_pos (by simp [hdedup])]
    exact ⟨engine.vectorStore.decodedCache, rfl⟩

/-- The engine reads and compares contents as before. -/
structure SameTerms (engine engine' : HybridSearchEngine host) : Prop where
  config : engine'.config = engine.config
  metric : engine'.vectorStore.metric = engine.vectorStore.metric
  limit : engine'.store.config = engine.store.config
  keyed : engine'.vectorStore.Keyed

theorem indexVector_spec (engine : HybridSearchEngine host) (setting : HybridSetting host)
    (collection path title content : String) (level : QuantLevel)
    (hkeyed : engine.vectorStore.Keyed) :
    let indexed := engine.indexVector setting collection path title content level
    indexed.1.store = engine.store ∧ SameTerms engine indexed.1 ∧
      match engine.vectorOutcome setting collection content level with
      | .kept => indexed.2 = .ok () ∧
          ∀ key, indexed.1.vectorStore.vectorAt key = engine.vectorStore.vectorAt key
      | .failed => (∃ failure, indexed.2 = .error failure) ∧
          ∀ key, indexed.1.vectorStore.vectorAt key = engine.vectorStore.vectorAt key
      | .added stored => indexed.2 = .ok () ∧
          ∀ key, indexed.1.vectorStore.vectorAt key =
            if key = vectorKey collection path then some stored
            else engine.vectorStore.vectorAt key := by
  intro indexed
  have hindexed : indexed = engine.indexVector setting collection path title content level := rfl
  unfold indexVector at hindexed
  unfold vectorOutcome
  cases hembed : engine.embed content with
  | none =>
      rw [hembed] at hindexed
      rw [hindexed]
      exact ⟨rfl, ⟨rfl, rfl, rfl, hkeyed⟩, rfl, fun _ => rfl⟩
  | some embedding =>
      rw [hembed] at hindexed
      dsimp only at hindexed ⊢
      obtain ⟨cache, hchecked⟩ := engine.checkDuplicate_engine setting collection embedding content
      generalize engine.checkDuplicate setting collection embedding content = checked at *
      rcases checked with ⟨searched, isDuplicate⟩
      dsimp only at hchecked hindexed ⊢
      have hsearched : ({ engine.vectorStore with decodedCache := cache } :
          VectorStore quant).Keyed :=
        ⟨hkeyed.entries, hkeyed.keyed, hkeyed.recoverable, hkeyed.stored, hkeyed.config⟩
      cases isDuplicate with
      | true =>
          rw [if_pos rfl] at hindexed ⊢
          rw [hindexed, hchecked]
          exact ⟨rfl, ⟨rfl, rfl, rfl, hsearched⟩, rfl, fun _ => rfl⟩
      | false =>
          rw [if_neg (by decide)] at hindexed ⊢
          have hadded := VectorStore.addAtLevel_vectorAt hsearched collection path title 0
            embedding level
          have hstep := VectorStore.addAtLevel_step ({ engine.vectorStore with
            decodedCache := cache } : VectorStore quant) collection path title 0 embedding level
          rw [engine.vectorStore.newVector_cache] at hadded
          rw [hchecked] at hindexed
          rw [hindexed]
          refine ⟨rfl, ⟨rfl, hstep.metric, rfl, hstep.keyed hsearched⟩, ?_⟩
          cases hvector : engine.vectorStore.newVector embedding level with
          | none =>
              rw [hvector] at hadded
              exact hadded
          | some stored =>
              rw [hvector] at hadded
              exact hadded

variable {texts : List String}

theorem storeDocument_indexed (engine : HybridSearchEngine host) (setting : CallSetting)
    (hfiled : engine.store.Filed host.engram texts) (collection path title : String)
    {content : String} (unverified : Bool) (metadata : Table String String)
    (hcontent : content ∈ texts) (hhash : ∀ text ∈ texts,
      host.engram.hashContent text = host.engram.hashContent content → text = content) :
    let stored := (engine.store.storeDocument host.engram setting collection path title content
      unverified metadata).1
    stored.Filed host.engram texts ∧ stored.config = engine.store.config ∧
      ∀ key, stored.contentAt key = if key = documentKey collection path
        then engine.indexedContent key content else engine.store.contentAt key := by
  intro stored
  by_cases hsize : content.utf8ByteSize > engine.store.config.maxContentSize
  · have hstored : stored = engine.store := EngramStore.storeDocument_tooLarge hsize
    rw [hstored]
    refine ⟨hfiled, rfl, ?_⟩
    intro key
    rw [indexedContent, if_pos hsize, ite_self]
  · obtain ⟨-, -, -, -, hconfig⟩ := engine.store.storeDocument_spec host.engram setting collection
      path title unverified metadata (Nat.le_of_not_lt hsize)
    obtain ⟨hstored, hcontents⟩ := EngramStore.storeDocument_contentAt hfiled hcontent hhash
      (Nat.le_of_not_lt hsize)
    refine ⟨hstored, hconfig, ?_⟩
    intro key
    rw [hcontents, indexedContent, if_neg hsize]

variable {engine : HybridSearchEngine host}

theorem view_eq_set {engine' : HybridSearchEngine host} {key : String} {content : Option String}
    {stored : Option (StoredVector quant)} (hcontents : ∀ other, engine'.store.contentAt other =
      if other = key then content else engine.store.contentAt other)
    (hvectors : ∀ other, engine'.vectorStore.vectorAt other =
      if other = "v:" ++ key then stored else engine.vectorStore.vectorAt other) :
    engine'.view = engine.view.set key content stored := by
  apply Coverage.Store.ext
  · funext other
    rw [Coverage.Store.item_set]
    exact hcontents other
  · funext other
    rw [Coverage.Store.mark_set]
    have hmark := hvectors ("v:" ++ other)
    simp only [String.append_right_inj] at hmark
    exact hmark

/-- The vectors are keyed and every document has one of the texts. -/
structure Sound (texts : List String) (engine : HybridSearchEngine host) : Prop where
  keyed : engine.vectorStore.Keyed
  filed : engine.store.Filed host.engram texts

theorem indexAtLevel_spec (hsound : engine.Sound texts) (setting : HybridSetting host)
    (collection path title : String) {content : String} (level : QuantLevel) (unverified : Bool)
    (metadata : Table String String) (hcontent : content ∈ texts) (hhash : ∀ text ∈ texts,
      host.engram.hashContent text = host.engram.hashContent content → text = content) :
    let indexed := (engine.indexAtLevel setting collection path title content level unverified
      metadata).1
    let change := engine.indexChange setting collection path content level
    indexed.Sound texts ∧ SameTerms engine indexed ∧
      indexed.view = engine.view.set change.key change.content change.stored := by
  intro indexed change
  have hchange : change = engine.indexChange setting collection path content level := rfl
  have hindexed : indexed = (engine.indexAtLevel setting collection path title content level
    unverified metadata).1 := rfl
  obtain ⟨hstore, hterms, hvectors⟩ := engine.indexVector_spec setting collection path title
    content level hsound.keyed
  unfold indexAtLevel at hindexed
  unfold indexChange at hchange
  generalize engine.indexVector setting collection path title content level = vectored at *
  rcases vectored with ⟨vectored, result⟩
  dsimp only at hstore hterms hvectors
  have hfiled : vectored.store.Filed host.engram texts := by
    rw [hstore]
    exact hsound.filed
  obtain ⟨hstored, hconfig, hcontents⟩ := vectored.storeDocument_indexed setting.toCallSetting
    hfiled collection path title unverified metadata hcontent hhash
  -- the text part, if it is reached
  have hreached : result = .ok () → indexed.Sound texts ∧ SameTerms engine indexed ∧
      (∀ other, indexed.store.contentAt other =
        if other = documentKey collection path
        then engine.indexedContent (documentKey collection path) content
        else engine.store.contentAt other) ∧
      indexed.vectorStore = vectored.vectorStore := by
    intro hok
    rw [hok] at hindexed
    rw [hindexed]
    refine ⟨⟨hterms.keyed, hstored⟩, ⟨hterms.config, hterms.metric, ?_, hterms.keyed⟩, ?_, rfl⟩
    · exact hconfig.trans hterms.limit
    · intro other
      rw [hcontents other, hstore]
      by_cases hother : other = documentKey collection path
      · rw [if_pos hother, if_pos hother, hother, indexedContent, indexedContent, hstore]
      · rw [if_neg hother, if_neg hother]
  cases houtcome : engine.vectorOutcome setting collection content level with
  | kept =>
      rw [houtcome] at hvectors hchange
      obtain ⟨hsound', hterms', hcontents', hstore'⟩ := hreached hvectors.1
      rw [hchange]
      refine ⟨hsound', hterms', view_eq_set hcontents' ?_⟩
      intro other
      rw [hstore', hvectors.2]
      by_cases hother : other = "v:" ++ documentKey collection path
      · rw [if_pos hother, hother]
        rfl
      · rw [if_neg hother]
  | failed =>
      rw [houtcome] at hvectors hchange
      rcases hvectors with ⟨⟨failure, hfailure⟩, hsame⟩
      rw [hfailure] at hindexed
      rw [hindexed, hchange, Coverage.Store.set_self]
      refine ⟨⟨hterms.keyed, hfiled⟩, hterms, ?_⟩
      unfold view
      rw [hstore]
      simp only [hsame]
  | added stored =>
      rw [houtcome] at hvectors hchange
      obtain ⟨hsound', hterms', hcontents', hstore'⟩ := hreached hvectors.1
      rw [hchange]
      refine ⟨hsound', hterms', view_eq_set hcontents' ?_⟩
      intro other
      rw [hstore', hvectors.2, vectorKey_eq]

/-! ## Calls -/

theorem indexChange_key (engine : HybridSearchEngine host) (setting : HybridSetting host)
    (collection path content : String) (level : QuantLevel) :
    (engine.indexChange setting collection path content level).key =
      documentKey collection path := by
  unfold indexChange
  dsimp only
  split
  · rfl
  · rfl
  · rfl

theorem withoutVector_spec (hsound : engine.Sound texts) (collection path : String) :
    (engine.withoutVector collection path).Sound texts ∧
      SameTerms engine (engine.withoutVector collection path) ∧
      (engine.withoutVector collection path).view =
        engine.view.set (documentKey collection path)
          (engine.store.contentAt (documentKey collection path)) none := by
  have hstep := VectorStore.remove_step engine.vectorStore collection path
  have hkeyed := hstep.keyed hsound.keyed
  refine ⟨⟨hkeyed, hsound.filed⟩, ⟨rfl, hstep.metric, rfl, hkeyed⟩, view_eq_set ?_ ?_⟩
  · intro other
    by_cases hother : other = documentKey collection path
    · rw [if_pos hother, hother]
      rfl
    · rw [if_neg hother]
      rfl
  · intro other
    rw [← vectorKey_eq]
    exact engine.vectorStore.remove_vectorAt collection path other

theorem replaceDocumentContent_engine (engine : HybridSearchEngine host)
    (setting : HybridSetting host) (collection path title content : String)
    (metadata : Table String String) :
    (engine.replaceDocumentContent setting collection path title content metadata).1 =
      ((engine.withoutVector collection path).indexAtLevel setting collection path title content
        .warm false metadata).1 := by
  unfold replaceDocumentContent withoutVector
  dsimp only
  split
  · rename_i hindexed
    rw [hindexed]
  · rename_i hindexed
    rw [hindexed]
    split
    · rfl
    · rfl

theorem perform_spec (hsound : engine.Sound texts) (call : HybridSetting host × HybridOp)
    (hcall : ∀ content, call.2.content = some content → content ∈ texts ∧ ∀ text ∈ texts,
      host.engram.hashContent text = host.engram.hashContent content → text = content) :
    (engine.perform call).Sound texts ∧ SameTerms engine (engine.perform call) ∧
      (engine.perform call).view = engine.view.set (engine.change call).key
        (engine.change call).content (engine.change call).stored := by
  rcases call with ⟨setting, op⟩
  cases op with
  | indexAtLevel collection path title content level unverified metadata =>
      obtain ⟨hcontent, hhash⟩ := hcall content rfl
      exact indexAtLevel_spec hsound setting collection path title level unverified metadata
        hcontent hhash
  | replaceDocumentContent collection path title content metadata =>
      obtain ⟨hcontent, hhash⟩ := hcall content rfl
      obtain ⟨hremoved, hterms, hview⟩ := withoutVector_spec hsound collection path
      obtain ⟨hsound', hterms', hindexed⟩ := indexAtLevel_spec hremoved setting collection path
        title .warm false metadata hcontent hhash
      have hperform : engine.perform (setting, .replaceDocumentContent collection path title
          content metadata) = ((engine.withoutVector collection path).indexAtLevel setting
            collection path title content .warm false metadata).1 :=
        engine.replaceDocumentContent_engine setting collection path title content metadata
      rw [hview, indexChange_key, Coverage.Store.set_set] at hindexed
      rw [hperform]
      refine ⟨hsound', ⟨?_, ?_, ?_, hterms'.keyed⟩, ?_⟩
      · exact hterms'.config.trans hterms.config
      · exact hterms'.metric.trans hterms.metric
      · exact hterms'.limit.trans hterms.limit
      · rw [hindexed, change, indexChange_key]
  | deleteDocument collection path =>
      have hstep := VectorStore.remove_step engine.vectorStore collection path
      have hkeyed := hstep.keyed hsound.keyed
      refine ⟨⟨hkeyed, EngramStore.deleteDocument_filed hsound.filed⟩,
        ⟨rfl, hstep.metric, rfl, hkeyed⟩, view_eq_set ?_ ?_⟩
      · intro other
        exact engine.store.deleteDocument_contentAt host.engram setting.toCallSetting collection
          path other
      · intro other
        have hremoved := engine.vectorStore.remove_vectorAt collection path other
        rw [vectorKey_eq] at hremoved
        exact hremoved

theorem perform_deduplicated (hsound : engine.Sound texts) (call : HybridSetting host × HybridOp)
    (hcall : ∀ content, call.2.content = some content → content ∈ texts ∧ ∀ text ∈ texts,
      host.engram.hashContent text = host.engram.hashContent content → text = content)
    (h : engine.Deduplicated) : (engine.perform call).Deduplicated ↔ engine.SafeCall call := by
  obtain ⟨-, hterms, hview⟩ := perform_spec hsound call hcall
  have hnear : (engine.perform call).IsNear = engine.IsNear := by
    funext content stored
    rw [IsNear, IsNear, hterms.config, hterms.metric]
  unfold Deduplicated SafeCall
  rw [hnear, hview]
  exact Coverage.covered_set_iff h

/-! ## Runs -/

def contentsOf (calls : List (HybridSetting host × HybridOp)) : List String :=
  calls.filterMap fun call => call.2.content

theorem new_sound (config : HybridSearchConfig host.scoring.Score) (dimension : Nat)
    (metric : VectorMetric) (texts : List String) :
    (HybridSearchEngine.new config dimension metric : HybridSearchEngine host).Sound texts where
  keyed := (VectorStore.new_booked dimension metric).toKeyed
  filed := by
    intro key doc hdoc
    cases hdoc

theorem new_deduplicated (config : HybridSearchConfig host.scoring.Score) (dimension : Nat)
    (metric : VectorMetric) :
    (HybridSearchEngine.new config dimension metric : HybridSearchEngine host).Deduplicated where
  own := by
    intro key content stored hcontent
    cases hcontent
  covered := by
    intro key content hcontent
    cases hcontent

/-- Unless hashes collide, the documents are covered in every state of a run exactly when
every call is safe in the state it meets. -/
theorem run_deduplicated_iff (config : HybridSearchConfig host.scoring.Score) (dimension : Nat)
    (metric : VectorMetric) (calls : List (HybridSetting host × HybridOp))
    (hhash : ∀ text ∈ contentsOf calls, ∀ content ∈ contentsOf calls,
      host.engram.hashContent text = host.engram.hashContent content → text = content) :
    (∀ pre, pre <+: calls →
        ((HybridSearchEngine.new config dimension metric).run pre).Deduplicated) ↔
      History.Preceded (fun pre call =>
        ((HybridSearchEngine.new config dimension metric).run pre).SafeCall call) calls := by
  apply History.foldl_throughout_iff (new_sound config dimension metric (contentsOf calls))
    (new_deduplicated config dimension metric)
  intro call hcall engine hsound
  have hcontent : ∀ content, call.2.content = some content →
      content ∈ contentsOf calls ∧ ∀ text ∈ contentsOf calls,
        host.engram.hashContent text = host.engram.hashContent content → text = content := by
    intro content heq
    have hmem : content ∈ contentsOf calls := List.mem_filterMap.mpr ⟨call, hcall, heq⟩
    exact ⟨hmem, fun text htext => hhash text htext content hmem⟩
  exact ⟨(perform_spec hsound call hcontent).1, perform_deduplicated hsound call hcontent⟩

def indexText : HybridSetting wordHybridHost × HybridOp :=
  (wordSetting, .indexAtLevel "docs" "a" "Title" "text" .full false ∅)

/-- The first document gets its vector. -/
theorem run_deduplicated_first :
    ((HybridSearchEngine.new { dedupThreshold := (1 : Int) } 2 .cosine).run
      [indexText]).Deduplicated := by
  have hsafe : SafeCall (HybridSearchEngine.new { dedupThreshold := (1 : Int) } 2 .cosine)
      indexText := by
    refine ⟨?_, ?_, ?_⟩
    · intro content stored hcontent hstored
      cases hcontent
      cases hstored
      exact ⟨[1, 0], rfl, rfl⟩
    · intro content hcontent hstored
      cases hstored
    · intro other content hne hcontent
      cases hcontent
  exact (run_deduplicated_iff _ 2 .cosine [indexText] fun _ _ _ _ heq => heq).mpr
    (History.Preceded.nil.snoc hsafe) [indexText] (List.prefix_refl _)

def reindexedEngine : HybridSearchEngine wordHybridHost :=
  (HybridSearchEngine.new { dedupThreshold := (1 : Int) } 2 .cosine).run
    [indexText, (wordSetting, .deleteDocument "docs" "a"), indexText]

/-- The body of the deleted document is still stored, so the document gets no vector. -/
theorem reindexedEngine_uncovered : ¬reindexedEngine.Deduplicated := by
  intro h
  rcases h.covered "docs:a" "text" rfl with ⟨stored, hstored, -⟩ | ⟨other, hother, hcovers⟩
  · cases hstored
  · rcases hcovers with ⟨content, stored, hcontent, -⟩
    rcases Option.bind_eq_some_iff.mp hcontent with ⟨doc, hdoc, -⟩
    have hkey : other ∈ reindexedEngine.store.documents.keys :=
      Table.mem_keys_iff.mpr ⟨doc, hdoc⟩
    exact hother (List.mem_singleton.mp hkey)

end HybridSearchEngine

end BenShu.Engram
