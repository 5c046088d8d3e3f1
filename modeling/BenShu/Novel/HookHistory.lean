import BenShu.Novel.BibleOrder

/-!
# The history of the hooks

The hook ledger is what its events leave: the changes of every chapter, and the end of the
chapter, at which a hook can be overdue. A hook keeps its place in the ledger.
-/

namespace BenShu.Novel

open FirstMatch

variable {ledgers : ContractLedgers} {bible : StoryBible} {ledger : List HookLedgerEntry}

inductive HookEvent where
  | change (number : Nat) (change : ChapterStateChange)
  | chapterEnd (number : Nat)

def stepHook (ledger : List HookLedgerEntry) : HookEvent → List HookLedgerEntry
  | .change number change => applyTypedHookChange ledger number change
  | .chapterEnd number => ledger.map (HookLedgerEntry.markOverdue number)

def ApprovedChapterDelta.hookEvents (chapter : ApprovedChapterDelta) : List HookEvent :=
  (chapter.stateChanges.filter (·.durable)).map (.change chapter.number) ++
    [.chapterEnd chapter.number]

def hookEvents (chapters : List ApprovedChapterDelta) : List HookEvent :=
  chapters.flatMap (·.hookEvents)

/-! ## The ledger of a bible -/

theorem applyTypedStateChange_hookLedger (number : Nat) (change : ChapterStateChange) :
    (applyTypedStateChange number bible change).hookLedger =
      if change.durable then applyTypedHookChange bible.hookLedger number change
      else bible.hookLedger := by
  unfold applyTypedStateChange
  cases change.durable with
  | false => rfl
  | true =>
      unfold applyTypedHookChange
      cases change.eventType <;> rfl

theorem foldl_applyTypedStateChange_hookLedger (number : Nat)
    (changes : List ChapterStateChange) :
    (changes.foldl (applyTypedStateChange number) bible).hookLedger =
      ((changes.filter (·.durable)).map (HookEvent.change number)).foldl stepHook
        bible.hookLedger := by
  induction changes generalizing bible with
  | nil => rfl
  | cons change changes ih =>
      rw [List.foldl_cons, ih, applyTypedStateChange_hookLedger, List.filter_cons]
      split <;> rfl

theorem applyApprovedChapterDelta_hookLedger (chapter : ApprovedChapterDelta) (now : String) :
    (applyApprovedChapterDelta bible chapter now).hookLedger =
      chapter.hookEvents.foldl stepHook bible.hookLedger := by
  unfold applyApprovedChapterDelta applyTypedStateChanges ApprovedChapterDelta.hookEvents
  dsimp only
  rw [foldl_applyTypedStateChange_hookLedger, List.foldl_append]
  rfl

theorem approvedStoryBible_hookLedger (start : String)
    (approvals : List (ApprovedChapterDelta × String)) :
    (approvedStoryBible ledgers start approvals).hookLedger =
      (hookEvents (approvals.map Prod.fst)).foldl stepHook ledgers.hookLedger := by
  have hfold : ∀ bible : StoryBible,
      (approvals.foldl updateStoryBibleAfterApprovedChapter bible).hookLedger =
        (hookEvents (approvals.map Prod.fst)).foldl stepHook bible.hookLedger := by
    induction approvals with
    | nil => exact fun _ => rfl
    | cons approval approvals ih =>
        intro bible
        have hstep : (updateStoryBibleAfterApprovedChapter bible approval).hookLedger =
            approval.1.hookEvents.foldl stepHook bible.hookLedger :=
          applyApprovedChapterDelta_hookLedger approval.1 approval.2
        rw [List.foldl_cons, ih, hstep, ← List.foldl_append]
        rfl
  exact hfold _

/-! ## Places in the ledger -/

def hookIndex? (ledger : List HookLedgerEntry) (entityId : String) : Option Nat :=
  ledger.findIdx? (HookLedgerEntry.named entityId)

theorem hookIndex?_stepHook {entityId : String} {i : Nat} (event : HookEvent)
    (h : hookIndex? ledger entityId = some i) :
    hookIndex? (stepHook ledger event) entityId = some i := by
  unfold hookIndex? at h ⊢
  cases event with
  | chapterEnd number =>
      rw [stepHook, List.findIdx?_map]
      have hnamed : HookLedgerEntry.named entityId ∘ HookLedgerEntry.markOverdue number =
          HookLedgerEntry.named entityId := by
        funext hook
        unfold Function.comp HookLedgerEntry.markOverdue
        split
        · rfl
        · split <;> rfl
      rw [hnamed]
      exact h
  | change number change =>
      show (applyTypedHookChange ledger number change).findIdx? _ = _
      unfold applyTypedHookChange
      cases change.eventType with
      | hookSeed =>
          dsimp only
          split
          · exact h
          · exact findIdx?_append_of_some _ h
      | hookAdvance | hookPayOff | hookDefer =>
          dsimp only
          rw [findIdx?_modifyFirst]
          · exact h
          · exact fun _ => rfl
      | _ => exact h

theorem hookIndex?_foldl {entityId : String} {i : Nat} (events : List HookEvent)
    (h : hookIndex? ledger entityId = some i) :
    hookIndex? (events.foldl stepHook ledger) entityId = some i := by
  induction events generalizing ledger with
  | nil => exact h
  | cons event events ih => exact ih (hookIndex?_stepHook event h)

/-! ## Paid-off hooks -/

def Reopens (ledger : List HookLedgerEntry) (i : Nat) (event : HookEvent) : Prop :=
  ∃ number change, event = .change number change ∧
    (change.eventType = .hookAdvance ∨ change.eventType = .hookDefer) ∧
    hookIndex? ledger change.entityId = some i

def PaidOffAt (ledger : List HookLedgerEntry) (i : Nat) : Prop :=
  ∃ hook, ledger[i]? = some hook ∧ hook.status = .paidOff

theorem paidOffAt_modifyFirst {p : HookLedgerEntry → Bool} {f : HookLedgerEntry → HookLedgerEntry}
    {i : Nat} (h : PaidOffAt ledger i) (hf : ledger.findIdx? p = some i →
      ∀ hook, (f hook).status = .paidOff) :
    PaidOffAt (modifyFirst p f ledger) i := by
  rcases h with ⟨hook, hhook, hstatus⟩
  unfold PaidOffAt
  rw [getElem?_modifyFirst]
  split
  · rename_i hfound
    exact ⟨f hook, by rw [hhook]; rfl, hf hfound hook⟩
  · exact ⟨hook, hhook, hstatus⟩

theorem paidOffAt_stepHook {i : Nat} (event : HookEvent) (h : PaidOffAt ledger i)
    (hevent : ¬Reopens ledger i event) : PaidOffAt (stepHook ledger event) i := by
  cases event with
  | chapterEnd number =>
      rcases h with ⟨hook, hhook, hstatus⟩
      refine ⟨hook, ?_, hstatus⟩
      rw [stepHook, List.getElem?_map, hhook]
      simp [HookLedgerEntry.markOverdue, hstatus]
  | change number change =>
      have hnot : change.eventType = .hookAdvance ∨ change.eventType = .hookDefer →
          hookIndex? ledger change.entityId ≠ some i :=
        fun htype hindex => hevent ⟨number, change, rfl, htype, hindex⟩
      show PaidOffAt (applyTypedHookChange ledger number change) i
      unfold applyTypedHookChange
      cases htype : change.eventType with
      | hookSeed =>
          dsimp only
          split
          · exact h
          · rcases h with ⟨hook, hhook, hstatus⟩
            exact ⟨hook, List.getElem?_append_left (List.getElem?_eq_some_iff.mp hhook).1 ▸ hhook,
              hstatus⟩
      | hookAdvance => exact paidOffAt_modifyFirst h fun hi => absurd hi (hnot (.inl htype))
      | hookDefer => exact paidOffAt_modifyFirst h fun hi => absurd hi (hnot (.inr htype))
      | hookPayOff => exact paidOffAt_modifyFirst h fun _ _ => rfl
      | _ => exact h

theorem paidOffAt_foldl {i : Nat} (events : List HookEvent) (h : PaidOffAt ledger i)
    (hevents : ∀ event ∈ events, ¬Reopens (events.foldl stepHook ledger) i event) :
    PaidOffAt (events.foldl stepHook ledger) i := by
  induction events generalizing ledger with
  | nil => exact h
  | cons event events ih =>
      rw [List.foldl_cons] at hevents ⊢
      refine ih (paidOffAt_stepHook event h ?_) fun e he => hevents e (List.mem_cons_of_mem _ he)
      rintro ⟨number, change, rfl, htype, hindex⟩
      -- The hook has the same place at the end.
      exact hevents _ List.mem_cons_self ⟨number, change, rfl, htype,
        hookIndex?_foldl events (hookIndex?_stepHook _ hindex)⟩

theorem paidOffAt_payOff {i number : Nat} {change : ChapterStateChange}
    (htype : change.eventType = .hookPayOff)
    (hindex : hookIndex? ledger change.entityId = some i) :
    PaidOffAt (stepHook ledger (.change number change)) i := by
  have hlt : i < ledger.length := (List.findIdx?_eq_some_iff_getElem.mp hindex).1
  show PaidOffAt (applyTypedHookChange ledger number change) i
  unfold applyTypedHookChange PaidOffAt
  rw [htype]
  dsimp only
  rw [getElem?_modifyFirst, if_pos (show ledger.findIdx? _ = _ from hindex), List.getElem?_eq_getElem hlt]
  exact ⟨_, rfl, rfl⟩

/-- A hook that a chapter paid off is paid off unless a chapter approved later, or a later change
of the same chapter, advances or defers it. -/
def KeepsPaidOff (ledgers : ContractLedgers) (chapters : List ApprovedChapterDelta)
    (bible : StoryBible) : Prop :=
  ∀ before number change after i,
    hookEvents chapters = before ++ .change number change :: after →
    change.eventType = .hookPayOff →
    hookIndex? (before.foldl stepHook ledgers.hookLedger) change.entityId = some i →
    (∀ event ∈ after, ¬Reopens bible.hookLedger i event) →
    PaidOffAt bible.hookLedger i

theorem approvedStoryBible_keepsPaidOff (start : String)
    (approvals : List (ApprovedChapterDelta × String)) :
    KeepsPaidOff ledgers (approvals.map Prod.fst)
      (approvedStoryBible ledgers start approvals) := by
  intro before number change after i hevents htype hindex hafter
  rw [approvedStoryBible_hookLedger, hevents, List.foldl_append, List.foldl_cons] at hafter ⊢
  exact paidOffAt_foldl after (paidOffAt_payOff htype hindex) hafter

/-! ## The bible of a project -/

/-- Chapters approved in their order leave the bible that is built again from them. In any order
the summaries are the same, and paid-off hooks that are let be stay paid off. -/
theorem approvedStoryBible_spec (start now : String)
    (approvals : List (ApprovedChapterDelta × String)) (approved : List ApprovedChapterDelta)
    (hperm : (approvals.map Prod.fst).Perm approved)
    (hdistinct : (approved.map (·.number)).Nodup) :
    (((approvals.map Prod.fst).map (·.number)).Pairwise (· < ·) →
        (approvedStoryBible ledgers start approvals).content =
          (rebuildStoryBible ledgers approved now).content) ∧
      (approvedStoryBible ledgers start approvals).chapterSummaries =
        (rebuildStoryBible ledgers approved now).chapterSummaries ∧
      KeepsPaidOff ledgers (approvals.map Prod.fst)
        (approvedStoryBible ledgers start approvals) ∧
      KeepsPaidOff ledgers (approved.insertionSort ByNumber)
        (rebuildStoryBible ledgers approved now) := by
  have hrebuilt := @rebuildStoryBible_content ledgers approved start now
  have hsorted := map_fst_at (approved.insertionSort ByNumber) now
  refine ⟨fun hordered => ?_, ?_, approvedStoryBible_keepsPaidOff start approvals, ?_⟩
  · rw [hrebuilt, insertionSort_byNumber hperm hordered]
    have hfold := @foldl_approvals_content (buildStoryBible ledgers start) _ now approvals rfl
    have hfold' := @foldl_approvals_content (buildStoryBible ledgers start) _ now
      ((approvals.map Prod.fst).map fun chapter => (chapter, now)) rfl
    rw [map_fst_at] at hfold'
    exact hfold.trans hfold'.symm
  · have hsummaries := congrArg StoryBible.chapterSummaries hrebuilt
    refine Eq.trans ?_ hsummaries.symm
    show _ = (approvedStoryBible ledgers start _).chapterSummaries
    have hnumbers := ((List.perm_insertionSort ByNumber approved).map (·.number)).nodup_iff.mpr
      hdistinct
    rw [approvedStoryBible_chapterSummaries, approvedStoryBible_chapterSummaries, hsorted]
    · refine eq_of_sorted_of_perm ChapterContinuitySummary.chapterNumber ?_ ?_
        (List.pairwise_insertionSort _ _) (List.pairwise_insertionSort _ _)
      · refine ((List.perm_insertionSort _ _).trans ?_).trans (List.perm_insertionSort _ _).symm
        exact (hperm.trans (List.perm_insertionSort ByNumber approved).symm).map _
      · refine ((List.perm_insertionSort ByChapter _).map _).nodup_iff.mpr ?_
        rw [List.map_map]
        exact (hperm.map _).nodup_iff.mpr hdistinct
    · rw [hsorted]
      exact hnumbers
    · exact (hperm.map _).nodup_iff.mpr hdistinct
  · have hkeeps := @approvedStoryBible_keepsPaidOff ledgers start
      ((approved.insertionSort ByNumber).map fun chapter => (chapter, now))
    rw [hsorted] at hkeeps
    have hhooks := congrArg (fun b : StoryBible => b.hookLedger) hrebuilt
    unfold KeepsPaidOff at hkeeps ⊢
    rw [show (rebuildStoryBible ledgers approved now).hookLedger = _ from hhooks]
    exact hkeeps

/-! ## A hook over three chapters -/

def hookChange (eventType : ChapterStateEventType) : ChapterStateChange where
  entityId := "hook-seed"
  eventType := eventType
  value := "The gate"
  allowance := .contract

def seedChapter : ApprovedChapterDelta where
  number := 1
  stateChanges := [hookChange .hookSeed]

def payOffChapter : ApprovedChapterDelta where
  number := 2
  stateChanges := [hookChange .hookPayOff]

def advanceChapter : ApprovedChapterDelta where
  number := 3
  stateChanges := [hookChange .hookAdvance]

/-- A chapter that pays a hook off has no effect before the chapter that seeds it, and a later
chapter can advance a hook that is paid off. -/
theorem approvalOrder_matters :
    (approvedStoryBible {} "" [(payOffChapter, ""), (seedChapter, "")]).content ≠
        (rebuildStoryBible {} [seedChapter, payOffChapter] "").content ∧
      (rebuildStoryBible {} [seedChapter, payOffChapter, advanceChapter] "").hookLedger.map
        (fun hook => (hook.payoffChapter, hook.status)) = [(some 2, .advancing)] := by
  refine ⟨?_, ?_⟩
  · decide +kernel
  · decide +kernel

theorem approvedStoryBible_spec_sample :
    (approvedStoryBible {} "" [(seedChapter, ""), (payOffChapter, "")]).content =
        (rebuildStoryBible {} [payOffChapter, seedChapter] "later").content ∧
      PaidOffAt (approvedStoryBible {} "" [(seedChapter, ""), (payOffChapter, "")]).hookLedger 0 := by
  have hspec := @approvedStoryBible_spec {} "" "later" [(seedChapter, ""), (payOffChapter, "")]
    [payOffChapter, seedChapter] (List.Perm.swap _ _ _) (by decide)
  refine ⟨hspec.1 (by decide), hspec.2.2.1 [.change 1 (hookChange .hookSeed), .chapterEnd 1] 2
    (hookChange .hookPayOff) [.chapterEnd 2] 0 rfl rfl (by decide +kernel) ?_⟩
  intro event hevent
  rw [List.mem_singleton.mp hevent]
  rintro ⟨_, _, heq, _⟩
  cases heq

end BenShu.Novel
