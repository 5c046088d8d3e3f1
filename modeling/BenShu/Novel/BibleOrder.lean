import BenShu.Novel.StoryBible

/-!
# The order of approvals

A bible is kept up to date by every approval and can be built again from all chapters. Built
again it is the same if the chapters were approved in their order.
-/

namespace BenShu.Novel

open FirstMatch

variable {ledgers : ContractLedgers} {bible : StoryBible}

/-! ## Stamps -/

def StoryBible.stamped (bible : StoryBible) (last : Option Nat) (now : String) : StoryBible :=
  { bible with lastRebuiltChapter := last, updatedAt := now }

def StoryBible.content (bible : StoryBible) : StoryBible := bible.stamped none ""

theorem applyTypedStateChange_stamped (number : Nat) (change : ChapterStateChange)
    (last : Option Nat) (now : String) :
    applyTypedStateChange number (bible.stamped last now) change =
      (applyTypedStateChange number bible change).stamped last now := by
  unfold applyTypedStateChange
  split
  · rfl
  · cases change.eventType <;> rfl

theorem foldl_applyTypedStateChange_stamped (number : Nat) (changes : List ChapterStateChange)
    (last : Option Nat) (now : String) :
    changes.foldl (applyTypedStateChange number) (bible.stamped last now) =
      (changes.foldl (applyTypedStateChange number) bible).stamped last now := by
  induction changes generalizing bible with
  | nil => rfl
  | cons change changes ih =>
      rw [List.foldl_cons, List.foldl_cons, applyTypedStateChange_stamped, ih]

theorem applyApprovedChapterDelta_stamped (chapter : ApprovedChapterDelta) (last : Option Nat)
    (before now now' : String) :
    (applyApprovedChapterDelta (bible.stamped last before) chapter now).content =
      (applyApprovedChapterDelta bible chapter now').content := by
  unfold applyApprovedChapterDelta applyTypedStateChanges
  have hfold := @foldl_applyTypedStateChange_stamped { bible with
    characterLedger := ensureCharacterAnchorsFromChapter
      (sanitizeCharacterLedger bible.characterLedger) chapter
    chapterSummaries := upsertChapterSummary bible.chapterSummaries chapter.continuity }
    chapter.number chapter.stateChanges last before
  unfold StoryBible.stamped at hfold
  unfold StoryBible.stamped
  dsimp only
  rw [hfold]
  rfl

theorem applyApprovedChapterDelta_congr {bible' : StoryBible} (chapter : ApprovedChapterDelta)
    (now now' : String) (h : bible.content = bible'.content) :
    (applyApprovedChapterDelta bible chapter now).content =
      (applyApprovedChapterDelta bible' chapter now').content := by
  have hstamp := @applyApprovedChapterDelta_stamped bible chapter none "" now now
  have hstamp' := @applyApprovedChapterDelta_stamped bible' chapter none "" now now'
  rw [← hstamp, ← hstamp']
  exact congrArg (fun b => (applyApprovedChapterDelta b chapter now).content) h

theorem foldl_approvals_content {bible' : StoryBible} (now : String)
    (approvals : List (ApprovedChapterDelta × String)) (h : bible.content = bible'.content) :
    (approvals.foldl updateStoryBibleAfterApprovedChapter bible).content =
      ((approvals.map Prod.fst).foldl
        (fun b chapter => applyApprovedChapterDelta b chapter now) bible').content := by
  induction approvals generalizing bible bible' with
  | nil => exact h
  | cons approval approvals ih =>
      rw [List.map_cons, List.foldl_cons, List.foldl_cons]
      exact ih (applyApprovedChapterDelta_congr approval.1 approval.2 now h)

/-! ## Sorting by number -/

theorem eq_of_sorted_of_perm {α : Type*} (key : α → Nat) {l l' : List α} (hperm : l.Perm l')
    (hkeys : (l.map key).Nodup) (hl : l.Pairwise (key · ≤ key ·))
    (hl' : l'.Pairwise (key · ≤ key ·)) : l = l' := by
  refine hperm.eq_of_pairwise (fun a b ha hb hab hba => ?_) hl hl'
  exact List.inj_on_of_nodup_map hkeys ha (hperm.mem_iff.mpr hb) (le_antisymm hab hba)

instance : Std.Total ByNumber := ⟨fun chapter later => le_total chapter.number later.number⟩

instance : IsTrans ApprovedChapterDelta ByNumber := ⟨fun _ _ _ => le_trans⟩

instance : Std.Total ByChapter :=
  ⟨fun summary later => le_total summary.chapterNumber later.chapterNumber⟩

instance : IsTrans ChapterContinuitySummary ByChapter := ⟨fun _ _ _ => le_trans⟩

theorem insertionSort_byNumber {approved chapters : List ApprovedChapterDelta}
    (hperm : chapters.Perm approved) (hordered : (chapters.map (·.number)).Pairwise (· < ·)) :
    approved.insertionSort ByNumber = chapters := by
  refine (eq_of_sorted_of_perm ApprovedChapterDelta.number ?_ (hordered.imp ne_of_lt) ?_ ?_).symm
  · exact hperm.trans (List.perm_insertionSort ByNumber approved).symm
  · exact (List.pairwise_map.mp hordered).imp le_of_lt
  · exact List.pairwise_insertionSort ByNumber approved

/-! ## Summaries -/

theorem applyTypedStateChange_chapterSummaries (number : Nat) (change : ChapterStateChange) :
    (applyTypedStateChange number bible change).chapterSummaries = bible.chapterSummaries := by
  unfold applyTypedStateChange
  split
  · rfl
  · cases change.eventType <;> rfl

theorem foldl_applyTypedStateChange_chapterSummaries (number : Nat)
    (changes : List ChapterStateChange) :
    (changes.foldl (applyTypedStateChange number) bible).chapterSummaries =
      bible.chapterSummaries := by
  induction changes generalizing bible with
  | nil => rfl
  | cons change changes ih =>
      rw [List.foldl_cons, ih, applyTypedStateChange_chapterSummaries]

theorem applyApprovedChapterDelta_chapterSummaries (chapter : ApprovedChapterDelta)
    (now : String) :
    (applyApprovedChapterDelta bible chapter now).chapterSummaries =
      upsertChapterSummary bible.chapterSummaries chapter.continuity := by
  unfold applyApprovedChapterDelta applyTypedStateChanges
  dsimp only
  rw [foldl_applyTypedStateChange_chapterSummaries]

theorem upsertChapterSummary_insertionSort {summaries : List ChapterContinuitySummary}
    {summary : ChapterContinuitySummary}
    (h : ((summaries ++ [summary]).map (·.chapterNumber)).Nodup) :
    upsertChapterSummary (summaries.insertionSort ByChapter) summary =
      (summaries ++ [summary]).insertionSort ByChapter := by
  have hother : ∀ s ∈ summaries, s.chapterNumber ≠ summary.chapterNumber := by
    intro s hs heq
    rw [List.map_append, List.nodup_append] at h
    exact h.2.2 _ (List.mem_map_of_mem hs) _ (by simp) heq
  have hfilter : (summaries.insertionSort ByChapter).filter
      (·.chapterNumber != summary.chapterNumber) = summaries.insertionSort ByChapter := by
    rw [List.filter_eq_self]
    intro s hs
    simpa using hother s ((List.mem_insertionSort ByChapter).mp hs)
  unfold upsertChapterSummary
  rw [hfilter]
  have hperm : (summaries.insertionSort ByChapter ++ [summary]).Perm (summaries ++ [summary]) :=
    (List.perm_insertionSort ByChapter summaries).append_right [summary]
  refine eq_of_sorted_of_perm ChapterContinuitySummary.chapterNumber ?_ ?_
    (List.pairwise_insertionSort ByChapter _) (List.pairwise_insertionSort ByChapter _)
  · exact ((List.perm_insertionSort _ _).trans hperm).trans (List.perm_insertionSort _ _).symm
  · exact (((List.perm_insertionSort _ _).trans hperm).map _).nodup_iff.mpr h

theorem foldl_approvals_chapterSummaries (before : List ApprovedChapterDelta)
    (approvals : List (ApprovedChapterDelta × String))
    (hbible : bible.chapterSummaries = (before.map (·.continuity)).insertionSort ByChapter)
    (hdistinct : ((before ++ approvals.map Prod.fst).map (·.number)).Nodup) :
    (approvals.foldl updateStoryBibleAfterApprovedChapter bible).chapterSummaries =
      ((before ++ approvals.map Prod.fst).map (·.continuity)).insertionSort ByChapter := by
  induction approvals generalizing before bible with
  | nil => simpa using hbible
  | cons approval approvals ih =>
      rw [List.foldl_cons, List.map_cons, List.append_cons]
      rw [List.map_cons, List.append_cons] at hdistinct
      refine ih (before ++ [approval.1]) ?_ hdistinct
      show (applyApprovedChapterDelta bible approval.1 approval.2).chapterSummaries = _
      rw [applyApprovedChapterDelta_chapterSummaries, hbible, upsertChapterSummary_insertionSort]
      · simp
      · rw [List.map_append, List.nodup_append] at hdistinct
        simpa [ApprovedChapterDelta.continuity, Function.comp_def] using hdistinct.1

theorem approvedStoryBible_chapterSummaries (start : String)
    (approvals : List (ApprovedChapterDelta × String))
    (hdistinct : ((approvals.map Prod.fst).map (·.number)).Nodup) :
    (approvedStoryBible ledgers start approvals).chapterSummaries =
      ((approvals.map Prod.fst).map (·.continuity)).insertionSort ByChapter :=
  foldl_approvals_chapterSummaries [] approvals rfl hdistinct

/-! ## Building again -/

theorem map_fst_at (chapters : List ApprovedChapterDelta) (now : String) :
    (chapters.map fun chapter => (chapter, now)).map Prod.fst = chapters := by
  rw [List.map_map]
  exact List.map_id chapters

/-- Building again is approving all chapters in their order. -/
theorem rebuildStoryBible_content (approved : List ApprovedChapterDelta) (start now : String) :
    (rebuildStoryBible ledgers approved now).content =
      (approvedStoryBible ledgers start
        ((approved.insertionSort ByNumber).map fun chapter => (chapter, now))).content := by
  have hfold := @foldl_approvals_content (buildStoryBible ledgers start)
    (buildStoryBible ledgers now) now
    ((approved.insertionSort ByNumber).map fun chapter => (chapter, now)) rfl
  rw [map_fst_at] at hfold
  exact hfold.symm

end BenShu.Novel
