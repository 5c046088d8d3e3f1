import BenShu.Engram.DocumentSearch
import BenShu.Lib.History

/-!
# The lifecycle of a document

A document is archived by the lifecycle state of its metadata, of its fact or by the
status of the fact. A summary overwrites the first of these and a review all three.
-/

namespace BenShu.Engram

def factIsArchived (doc : Document) : Bool :=
  ((doc.metadata.lookup metaFactLifecycleState).map fun value =>
      value == factLifecycleArchived || value == factLifecyclePruned).getD false ||
    ((doc.metadata.lookup metaFactStatus).map fun value =>
      Text.contains value "archived").getD false

def lifecycleKeys : List String :=
  [metaDocumentLifecycleState, metaFactLifecycleState, metaFactStatus]

theorem documentIsArchived_congr {doc doc' : Document}
    (h : ∀ key ∈ lifecycleKeys, doc'.metadata.lookup key = doc.metadata.lookup key) :
    documentIsArchived doc' = documentIsArchived doc := by
  unfold documentIsArchived
  rw [h metaDocumentLifecycleState (by simp [lifecycleKeys]),
    h metaFactLifecycleState (by simp [lifecycleKeys]),
    h metaFactStatus (by simp [lifecycleKeys])]

theorem pendingReview_notArchived (doc : Document) (updatedAtMs : Int) (summary : Option String) :
    documentIsArchived { doc with
      metadata := pendingReviewMetadata updatedAtMs summary ∪ doc.metadata } = false := by
  have hlookup : ∀ key ∈ lifecycleKeys, ∀ value,
      (pendingReviewMetadata updatedAtMs none).lookup key = some value →
        (pendingReviewMetadata updatedAtMs summary ∪ doc.metadata).lookup key = some value := by
    intro key hkey value hvalue
    rw [Table.lookup_union]
    cases summary with
    | none => rw [hvalue, Option.some_or]
    | some summary =>
        have hne : key ≠ metaFactReviewSummary := by
          intro heq
          subst heq
          revert hkey
          decide
        show Option.or ((AList.insert metaFactReviewSummary summary
          (pendingReviewMetadata updatedAtMs none)).lookup key) _ = _
        rw [Table.lookup_insert, if_neg hne, hvalue, Option.some_or]
  unfold documentIsArchived
  dsimp only
  rw [hlookup metaDocumentLifecycleState (by simp [lifecycleKeys]) documentLifecyclePendingReview rfl,
    hlookup metaFactLifecycleState (by simp [lifecycleKeys]) documentLifecyclePendingReview rfl,
    hlookup metaFactStatus (by simp [lifecycleKeys]) "\"pending_review\"" rfl]
  decide

theorem summarized_archived_iff (doc : Document) (updatedAtMs : Int) (summary : String) :
    documentIsArchived { doc with
      summary := some summary
      metadata := documentSummaryMetadata updatedAtMs ∪ doc.metadata } = factIsArchived doc := by
  have hstate : (documentSummaryMetadata updatedAtMs ∪ doc.metadata).lookup
      metaDocumentLifecycleState = some documentLifecycleSummarized := by
    rw [Table.lookup_union]
    rfl
  have hfact : ∀ key, (documentSummaryMetadata updatedAtMs).lookup key = none →
      (documentSummaryMetadata updatedAtMs ∪ doc.metadata).lookup key = doc.metadata.lookup key := by
    intro key hnone
    rw [Table.lookup_union, hnone, Option.none_or]
  unfold documentIsArchived factIsArchived
  dsimp only
  rw [hstate, hfact metaFactLifecycleState rfl, hfact metaFactStatus rfl]
  rfl

namespace EngramStore

/-! ## Calls that are not for the lifecycle -/

/-- An operation that updates a document or searches. -/
inductive QuietOp where
  | markVerified (collection path : String)
  | markPendingReview (collection path : String) (summary : Option String)
  | updateSummary (collection path summary : String)
  | mergeMetadata (collection path : String) (metadata : Table String String)
      (plain : ∀ key ∈ lifecycleKeys, metadata.lookup key = none)
  | updateUtility (docid : String) (increment : Rat)
  | searchFts (query : String) (limit : Nat)
  | searchFtsInCollection (collection query : String) (limit : Nat)
  | searchFtsWithPath (collection path query : String) (limit : Nat)

abbrev QuietCall := CallSetting × QuietOp

section

variable {Score : Type} (host : EngramHost) (rank : Ranking Score)

def performQuiet (store : EngramStore) (call : QuietCall) : EngramStore :=
  match call.2 with
  | .markVerified collection path => (store.markVerified call.1 collection path).1
  | .markPendingReview collection path summary =>
      (store.markPendingReview call.1 collection path summary).1
  | .updateSummary collection path summary =>
      (store.updateSummary call.1 collection path summary).1
  | .mergeMetadata collection path metadata _ =>
      (store.mergeMetadata call.1 collection path metadata).1
  | .updateUtility docid increment => (store.updateUtility call.1 docid increment).1
  | .searchFts query limit => (store.searchFts host rank query limit).1
  | .searchFtsInCollection collection query limit =>
      (store.searchFtsInCollection host rank query collection limit).1
  | .searchFtsWithPath collection path query limit =>
      (store.searchFtsWithPath host rank query collection path limit).1

/-- There is a document under the key, it is archived and no filtered search returns it. -/
structure OutOfSearch (store : EngramStore) (key : String) : Prop where
  archived : ∃ doc, store.getByDocKey key = some doc ∧ documentIsArchived doc = true
  searchFts : ∀ query limit results,
    (store.searchFts host rank query limit).2 = .ok results →
      ∀ result ∈ results, store.getByDocKey key ≠ some result.document
  searchFtsInCollection : ∀ collection query limit results,
    (store.searchFtsInCollection host rank query collection limit).2 = .ok results →
      ∀ result ∈ results, store.getByDocKey key ≠ some result.document
  searchFtsWithPath : ∀ collection path query limit results,
    (store.searchFtsWithPath host rank query collection path limit).2 = .ok results →
      ∀ result ∈ results, store.getByDocKey key ≠ some result.document

end

/-- The call leaves the document under the key archived: it is no review of it, and no
summary unless it is archived as a fact. -/
def LeavesArchived (key : String) (store : EngramStore) (call : QuietCall) : Prop :=
  match call.2 with
  | .markPendingReview collection path _ => documentKey collection path ≠ key
  | .updateSummary collection path _ => documentKey collection path = key →
      ∀ doc, store.getByDocKey key = some doc → factIsArchived doc = true
  | _ => True

variable {Score : Type} {host : EngramHost} {rank : Ranking Score} {setting : CallSetting}
  {store : EngramStore} {collection path key : String}

theorem outOfSearch_iff (store : EngramStore) (key : String) :
    store.OutOfSearch host rank key ↔
      ∃ doc, store.getByDocKey key = some doc ∧ documentIsArchived doc = true := by
  constructor
  · intro h
    exact h.archived
  · intro h
    have hother : ∀ {wanted : Document → Bool} {everyKey : Bool} {query : String}
        {fetched limit : Nat} {results : List (SearchResult Score)},
        (∀ doc, wanted doc = true → documentIsArchived doc = false) →
          (store.searchWith host rank query wanted everyKey fetched limit).2 = .ok results →
            ∀ result ∈ results, store.getByDocKey key ≠ some result.document := by
      intro wanted everyKey query fetched limit results hwanted hresults result hresult hfound
      rcases h with ⟨doc, hdoc, harchived⟩
      rw [hdoc] at hfound
      cases hfound
      have hshown := hwanted _ ((searchWith_spec host rank store query wanted everyKey fetched
        limit).2 results hresults result hresult)
      rw [harchived] at hshown
      cases hshown
    constructor
    · exact h
    · intro query limit results hresults
      exact hother (by simp) hresults
    · intro collection query limit results hresults
      exact hother (by simp) hresults
    · intro collection path query limit results hresults
      exact hother (by simp) hresults

/-! ## Steps -/

theorem updateDocument_getByDocKey {doc : Document} (hdoc : store.getByDocKey key = some doc)
    (change : Document → Document) :
    (store.updateDocument collection path change).1.getByDocKey key =
      some (if documentKey collection path = key then change doc else doc) := by
  unfold updateDocument
  by_cases hkey : documentKey collection path = key
  · have hfound : store.getByPath collection path = some doc := by
      rw [getByPath, hkey, hdoc]
    rw [if_pos hkey, hfound]
    show (store.documents.insert (documentKey collection path) (change doc)).lookup key = _
    rw [Table.lookup_insert, if_pos hkey.symm]
  · rw [if_neg hkey]
    cases store.getByPath collection path with
    | none => exact hdoc
    | some found =>
        show (store.documents.insert (documentKey collection path) (change found)).lookup key = _
        rw [Table.lookup_insert, if_neg fun heq => hkey heq.symm]
        exact hdoc

theorem updateUtility_getByDocKey {doc : Document} (hdoc : store.getByDocKey key = some doc)
    (setting : CallSetting) (docid : String) (increment : Rat) :
    ∃ doc', (store.updateUtility setting docid increment).1.getByDocKey key = some doc' ∧
      doc'.metadata = doc.metadata := by
  unfold updateUtility
  cases store.docidMap.lookup docid with
  | none => exact ⟨doc, hdoc, rfl⟩
  | some named =>
      dsimp only
      cases hfound : store.getByDocKey named with
      | none => exact ⟨doc, hdoc, rfl⟩
      | some found =>
          dsimp only
          by_cases hkey : key = named
          · subst hkey
            refine ⟨rescored setting increment found, ?_, ?_⟩
            · show (store.documents.insert _ _).lookup _ = _
              rw [Table.lookup_insert, if_pos rfl]
            · rw [hdoc] at hfound
              cases hfound
              rfl
          · refine ⟨doc, ?_, rfl⟩
            show (store.documents.insert _ _).lookup _ = _
            rw [Table.lookup_insert, if_neg hkey]
            exact hdoc

theorem updateDocument_archived_iff {doc : Document} (hdoc : store.getByDocKey key = some doc)
    (harchived : documentIsArchived doc = true) (change : Document → Document) :
    (∃ doc', (store.updateDocument collection path change).1.getByDocKey key = some doc' ∧
        documentIsArchived doc' = true) ↔
      (documentKey collection path = key → documentIsArchived (change doc) = true) := by
  rw [updateDocument_getByDocKey hdoc]
  constructor
  · intro ⟨doc', hdoc', harchived'⟩ hkey
    rw [if_pos hkey] at hdoc'
    cases hdoc'
    exact harchived'
  · intro hchange
    refine ⟨_, rfl, ?_⟩
    split
    · rename_i hkey
      exact hchange hkey
    · exact harchived

theorem performQuiet_outOfSearch_iff (h : store.OutOfSearch host rank key) (call : QuietCall) :
    (store.performQuiet host rank call).OutOfSearch host rank key ↔
      store.LeavesArchived key call := by
  rcases call with ⟨setting, op⟩
  rcases h.archived with ⟨doc, hdoc, harchived⟩
  have hsearched : ∀ (wanted : Document → Bool) (everyKey : Bool) (query : String)
      (fetched limit : Nat),
      (store.searchWith host rank query wanted everyKey fetched limit).1.getByDocKey key =
        some doc := by
    intro wanted everyKey query fetched limit
    unfold getByDocKey
    rw [(searchWith_spec host rank store query wanted everyKey fetched limit).1]
    exact hdoc
  rw [outOfSearch_iff]
  cases op with
  | markVerified collection path =>
      apply iff_of_true ((updateDocument_archived_iff hdoc harchived _).mpr fun _ => ?_) trivial
      rw [← harchived]
      exact documentIsArchived_congr fun _ _ => rfl
  | markPendingReview collection path summary =>
      apply (updateDocument_archived_iff hdoc harchived _).trans
      constructor
      · intro hleft hkey
        have hshown := pendingReview_notArchived doc setting.nowMs summary
        have hhidden := hleft hkey
        change documentIsArchived { doc with
          metadata := pendingReviewMetadata setting.nowMs summary ∪ doc.metadata } = true at hhidden
        rw [hshown] at hhidden
        cases hhidden
      · intro hother hkey
        exact absurd hkey hother
  | updateSummary collection path summary =>
      have hsummarized := summarized_archived_iff doc setting.nowMs summary
      apply (updateDocument_archived_iff hdoc harchived _).trans
      constructor
      · intro hleft hkey found hfound
        rw [hdoc] at hfound
        cases hfound
        exact hsummarized.symm.trans (hleft hkey)
      · intro hfact hkey
        exact hsummarized.trans (hfact hkey doc hdoc)
  | mergeMetadata collection path metadata plain =>
      apply iff_of_true ((updateDocument_archived_iff hdoc harchived _).mpr fun _ => ?_) trivial
      rw [← harchived]
      apply documentIsArchived_congr
      intro key hkey
      show (metadata ∪ doc.metadata).lookup key = _
      rw [Table.lookup_union, plain key hkey, Option.none_or]
  | updateUtility docid increment =>
      apply iff_of_true ?_ trivial
      rcases updateUtility_getByDocKey hdoc setting docid increment with
        ⟨doc', hdoc', hmetadata⟩
      refine ⟨doc', hdoc', ?_⟩
      rw [← harchived]
      exact documentIsArchived_congr fun _ _ => by rw [hmetadata]
  | searchFts query limit => exact iff_of_true ⟨doc, hsearched _ _ _ _ _, harchived⟩ trivial
  | searchFtsInCollection collection query limit =>
      exact iff_of_true ⟨doc, hsearched _ _ _ _ _, harchived⟩ trivial
  | searchFtsWithPath collection path query limit =>
      exact iff_of_true ⟨doc, hsearched _ _ _ _ _, harchived⟩ trivial

/-! ## Runs -/

/-- An archived document stays out of the filtered searches exactly until it is put under
review, or summarized without being archived as a fact. -/
theorem quiet_outOfSearch_iff (h : store.OutOfSearch host rank key) (calls : List QuietCall) :
    (∀ pre, pre <+: calls →
        (pre.foldl (performQuiet host rank) store).OutOfSearch host rank key) ↔
      History.Preceded (fun pre call =>
        (pre.foldl (performQuiet host rank) store).LeavesArchived key call) calls :=
  @History.foldl_throughout_iff _ calls _ (performQuiet host rank) _ (fun _ => True)
    (fun state => state.OutOfSearch host rank key) (LeavesArchived key) trivial h
    fun call _ _ _ => ⟨trivial, fun hstate => performQuiet_outOfSearch_iff hstate call⟩

def archivedStore : EngramStore :=
  run wordEngramHost {} [
    (⟨0, .same⟩, .storeDocument "docs" "a" "Title" "text" false ∅),
    (⟨1, .same⟩, .archiveDocument "docs" "a" 1 ∅)]

def rankAsListed : Ranking Nat := fun _ lists =>
  lists.flatMap fun list => list.entries.map fun entry => ⟨entry.docKey, 0⟩

theorem archivedStore_outOfSearch :
    archivedStore.OutOfSearch wordEngramHost rankAsListed "docs:a" :=
  (outOfSearch_iff _ _).mpr ⟨_, rfl, by decide⟩

theorem quiet_outOfSearch_verified :
    archivedStore.OutOfSearch wordEngramHost rankAsListed "docs:a" ∧
      (archivedStore.performQuiet wordEngramHost rankAsListed
        (⟨2, .same⟩, .markVerified "docs" "a")).OutOfSearch wordEngramHost rankAsListed "docs:a" := by
  refine ⟨archivedStore_outOfSearch, ?_⟩
  exact (quiet_outOfSearch_iff archivedStore_outOfSearch
    [(⟨2, .same⟩, .markVerified "docs" "a")]).mpr
      (History.Preceded.of_forall (by simp [LeavesArchived])) _ (List.prefix_refl _)

/-- A summary of an archived document brings it back into the search. -/
theorem summary_backInSearch :
    archivedStore.OutOfSearch wordEngramHost rankAsListed "docs:a" ∧
      ¬(archivedStore.performQuiet wordEngramHost rankAsListed
        (⟨2, .same⟩, .updateSummary "docs" "a" "Summary")).OutOfSearch wordEngramHost
          rankAsListed "docs:a" := by
  refine ⟨archivedStore_outOfSearch, fun h => ?_⟩
  exact h.searchFts "text" 10 _ rfl _ List.mem_cons_self rfl

end EngramStore

end BenShu.Engram
