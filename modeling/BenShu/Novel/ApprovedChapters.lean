import BenShu.Lib.History
import BenShu.Novel.PipelineAgreement

/-!
# Approved chapters

What an approval leaves of a chapter stays, as long as no later action is aimed at the chapter and
no other approval is rolled back to a backup in which the chapter is different.
-/

namespace BenShu.Novel

open FirstMatch

variable {ρ : Type} {lib : NovelLibrary ρ}

/-! ## Paths and numbers -/

theorem isChapterPath_stable (number : Nat) : IsChapterPath number (stableChapterPath number) :=
  ⟨".md".toList, by simp, by simp [stableChapterPath]⟩

theorem ofDigitChars_padded (number : Nat) :
    Nat.ofDigitChars 10 (padded number).toList 0 = number := by
  simp [padded, Nat.ofDigitChars_append]

theorem isDigit_padded {number : Nat} {c : Char} (h : c ∈ (padded number).toList) :
    c.isDigit = true := by
  have hdigits : (toString number).toList = Nat.toDigits 10 number := Nat.toList_repr
  simp only [padded, String.toList_append, String.toList_ofList, hdigits, List.mem_append,
    List.mem_replicate] at h
  rcases h with ⟨-, rfl⟩ | h
  · rfl
  · exact Nat.isDigit_of_mem_toDigits (by decide) (by decide) h

theorem IsChapterPath.unique {number other : Nat} {path : String} (h : IsChapterPath number path)
    (h' : IsChapterPath other path) : number = other := by
  obtain ⟨rest, hrest, hpath⟩ := h
  obtain ⟨rest', hrest', hpath'⟩ := h'
  have hcut : ∀ (number : Nat) (rest : List Char), (∀ c ∈ rest.head?, c.isDigit = false) →
      ((padded number).toList ++ rest).takeWhile Char.isDigit = (padded number).toList := by
    intro number rest hrest
    rw [List.takeWhile_append_of_pos fun c hc => isDigit_padded hc]
    cases rest with
    | nil => simp
    | cons c rest => simp [hrest c rfl]
  have hsame := List.append_cancel_left (hpath.symm.trans hpath')
  rw [← ofDigitChars_padded number, ← ofDigitChars_padded other, ← hcut number rest hrest,
    ← hcut other rest' hrest', hsame]

/-! ## What an action on a chapter leaves -/

/-- The first records of the other chapters, and that each has a path of its number. -/
structure Revised (number : Nat) (chapters chapters' : List ChapterRecord) : Prop where
  others : ∀ other, other ≠ number →
    chapters'.find? (·.number == other) = chapters.find? (·.number == other)
  placed : (∀ chapter ∈ chapters, IsChapterPath chapter.number chapter.path) →
    ∀ chapter ∈ chapters', IsChapterPath chapter.number chapter.path

theorem Revised.refl (number : Nat) (chapters : List ChapterRecord) :
    Revised number chapters chapters :=
  ⟨fun _ _ => rfl, id⟩

theorem Revised.trans {number : Nat} {chapters chapters' chapters'' : List ChapterRecord}
    (h : Revised number chapters chapters') (h' : Revised number chapters' chapters'') :
    Revised number chapters chapters'' :=
  ⟨fun other hother => (h'.others other hother).trans (h.others other hother),
    fun hplaced => h'.placed (h.placed hplaced)⟩

theorem revised_modifyFirst {number : Nat} {f : ChapterRecord → ChapterRecord}
    (hf : ∀ chapter, chapter.number = number → (f chapter).number = number ∧
      (IsChapterPath number chapter.path → IsChapterPath number (f chapter).path))
    (chapters : List ChapterRecord) :
    Revised number chapters (modifyFirst (·.number == number) f chapters) := by
  induction chapters with
  | nil => exact .refl _ _
  | cons chapter chapters ih =>
      rw [modifyFirst]
      split_ifs with hnumber
      · have hnumber := eq_of_beq hnumber
        obtain ⟨hkept, hpath⟩ := hf chapter hnumber
        constructor
        · intro other hother
          rw [List.find?_cons_of_neg, List.find?_cons_of_neg]
          · simpa [hnumber] using hother.symm
          · simpa [hkept] using hother.symm
        · intro hplaced
          rw [List.forall_mem_cons] at hplaced ⊢
          rw [hkept]
          exact ⟨hpath (hnumber ▸ hplaced.1), hplaced.2⟩
      · constructor
        · intro other hother
          rw [List.find?_cons, List.find?_cons, ih.others other hother]
        · intro hplaced
          rw [List.forall_mem_cons] at hplaced ⊢
          exact ⟨hplaced.1, ih.placed hplaced.2⟩

/-- A record takes its place among those of the other chapters, which keep their order. -/
theorem revised_put {number : Nat} {record : ChapterRecord} (hnumber : record.number = number)
    (hpath : IsChapterPath number record.path) (chapters : List ChapterRecord) :
    Revised number chapters ((chapters.filter (·.number != record.number) ++ [record]).insertionSort
      fun chapter later => chapter.number ≤ later.number) := by
  subst hnumber
  constructor
  · intro other hother
    have hkept : (chapters.filter (·.number != record.number) ++ [record]).filter
        (·.number == other) = chapters.filter (·.number == other) := by
      rw [List.filter_append, List.filter_filter, List.filter_cons_of_neg (by simpa using hother.symm),
        List.filter_nil, List.append_nil]
      refine List.filter_congr fun chapter _ => ?_
      by_cases hsame : chapter.number = other <;> simp [hsame, hother]
    generalize chapters.filter (·.number != record.number) ++ [record] = all at hkept
    have hsub : (all.filter (·.number == other)).Sublist (all.insertionSort
        fun chapter later => chapter.number ≤ later.number) := by
      refine List.sublist_insertionSort ?_ List.filter_sublist
      rw [List.pairwise_iff_forall_sublist]
      intro a b hab
      have ha := List.of_mem_filter (hab.subset List.mem_cons_self)
      have hb := List.of_mem_filter (hab.subset (List.mem_cons_of_mem _ List.mem_cons_self))
      rw [eq_of_beq ha, eq_of_beq hb]
    have hsame := (hsub.filter (·.number == other)).eq_of_length (by
      rw [List.filter_filter]
      simp only [Bool.and_self]
      exact ((List.perm_insertionSort _ all).filter _).length_eq.symm)
    rw [← List.head?_filter, ← List.head?_filter, ← hsame, List.filter_filter]
    simp only [Bool.and_self]
    rw [hkept]
  · intro hplaced chapter hchapter
    rw [List.mem_insertionSort, List.mem_append, List.mem_singleton] at hchapter
    rcases hchapter with hchapter | rfl
    · exact hplaced chapter (List.mem_of_mem_filter hchapter)
    · exact hpath

/-- What an action on a chapter leaves to the others. -/
structure Touches (number : Nat) (m m' : Managed ρ) : Prop where
  chapters : Revised number m.manifest.chapters m'.manifest.chapters
  files : ∀ path, ¬IsChapterPath number path → m'.chapterFiles path = m.chapterFiles path
  receipts : ∀ other, other ≠ number → m'.receipts other = m.receipts other

theorem update_file {number : Nat} {path : String} (h : IsChapterPath number path)
    (files : String → Option String) (content : Option String) (other : String)
    (hother : ¬IsChapterPath number other) :
    Function.update files path content other = files other :=
  Function.update_of_ne (fun hsame => hother (by rwa [hsame])) _ _

variable {m : Managed ρ} {args : NovelStudioArgs} {now : String}

/-- The chapter that an action is aimed at. -/
def NovelRequest.target (lib : NovelLibrary ρ) (m : Managed ρ) (request : NovelRequest) :
    Option Nat :=
  match request.action with
  | .addChapter | .writeDraft =>
      some (request.args.chapterNumber.getD (lib.nextChapter m))
  | _ => request.args.chapterNumber.or (lib.readManifest m).latestChapterNumber

/-- Nothing happens, or an action on its chapter. -/
def Acts (target : Option Nat) (m m' : Managed ρ) : Prop :=
  m' = m ∨ ∃ number, target = some number ∧ Touches number m m'

theorem chapter?_spec {manifest : NovelProjectManifest ρ} {number : Nat} {chapter : ChapterRecord}
    (hplaced : manifest.Placed) (h : manifest.chapter? number = some chapter) :
    chapter.number = number ∧ IsChapterPath number chapter.path := by
  have hfound : manifest.chapters.find? (·.number == number) = some chapter := h
  have hnumber : chapter.number = number := by simpa using List.find?_some hfound
  exact ⟨hnumber, hnumber ▸ hplaced chapter (List.mem_of_find?_eq_some hfound)⟩

theorem writeNewDraft_touches (hplaced : m.manifest.Placed) (number : Nat) :
    Touches number m (writeNewDraft lib m args number now) := by
  have hdrafted : (draftOf lib m (lib.readManifest m) args number).1.number = number ∧
      IsChapterPath number (draftOf lib m (lib.readManifest m) args number).1.path := by
    refine ⟨rfl, ?_⟩
    show IsChapterPath number ((((lib.readManifest m).chapter? number).map
      fun chapter => chapter.path).getD (stableChapterPath number))
    cases hfound : (lib.readManifest m).chapter? number with
    | none => exact isChapterPath_stable number
    | some chapter => exact (chapter?_spec hplaced hfound).2
  unfold writeNewDraft
  dsimp only
  generalize draftOf lib m (lib.readManifest m) args number = drafted at hdrafted ⊢
  have hkept : (keptDraft drafted).number = number ∧
      IsChapterPath number (keptDraft drafted).path := by
    unfold keptDraft
    split_ifs
    · exact hdrafted
    · exact hdrafted
  exact ⟨revised_put hkept.1 hkept.2 _, update_file hkept.2 _ _, fun _ _ => rfl⟩

theorem addDraft_touches (hplaced : m.manifest.Placed) (sealed : Bool) :
    Acts (some (args.chapterNumber.getD (lib.nextChapter m))) m
      (addDraft lib sealed m args now).1 := by
  unfold addDraft
  dsimp only
  split
  · exact .inl rfl
  split_ifs
  · exact .inl rfl
  split
  · exact .inl rfl
  · exact .inr ⟨_, rfl, writeNewDraft_touches hplaced _⟩

theorem acts_of_chapter {chapter : ChapterRecord} {m' : Managed ρ} (hplaced : m.manifest.Placed)
    (hfound : requireChapter (lib.readManifest m) args.chapterNumber = .ok chapter)
    (h : IsChapterPath chapter.number chapter.path → Touches chapter.number m m') :
    Acts (args.chapterNumber.or (lib.readManifest m).latestChapterNumber) m m' := by
  unfold requireChapter at hfound
  split at hfound
  · cases hfound
  rename_i number hnumber
  split at hfound
  · cases hfound
  rename_i found hchapter
  cases hfound
  obtain ⟨rfl, hpath⟩ := chapter?_spec hplaced hchapter
  exact .inr ⟨_, hnumber, h hpath⟩

theorem revised_withStatus (number : Nat) (status : ChapterLifecycleStatus)
    (chapters : List ChapterRecord) :
    Revised number chapters (modifyFirst (·.number == number) (withStatus · status) chapters) :=
  @revised_modifyFirst number (withStatus · status) (fun _ hnumber => ⟨hnumber, id⟩) chapters

theorem revised_record {record : ChapterRecord} (hpath : IsChapterPath record.number record.path)
    (chapters : List ChapterRecord) :
    Revised record.number chapters
      (modifyFirst (·.number == record.number) (fun _ => record) chapters) :=
  revised_modifyFirst (fun _ _ => ⟨rfl, fun _ => hpath⟩) chapters

theorem syncChapterRecordFile_touches {record : ChapterRecord}
    (hpath : IsChapterPath record.number record.path) (m : Managed ρ) :
    Touches record.number m (syncChapterRecordFile lib m record) := by
  unfold syncChapterRecordFile
  dsimp only
  split_ifs
  · exact ⟨.refl _ _, fun _ _ => rfl, fun _ _ => rfl⟩
  · exact ⟨.refl _ _, update_file hpath _ _, fun _ _ => rfl⟩

theorem writeRevision_touches {record : ChapterRecord}
    (hpath : IsChapterPath record.number record.path) (content : String) :
    Touches record.number m
        (writeRevision lib m (lib.readManifest m) args record content now).1 ∧
      Revised record.number m.manifest.chapters
        (writeRevision lib m (lib.readManifest m) args record content now).2.chapters := by
  have hfirst := revised_record hpath m.manifest.chapters
  unfold writeRevision
  dsimp only
  split_ifs
  · exact ⟨⟨.refl _ _, update_file hpath _ _, fun _ _ => rfl⟩, hfirst⟩
  · exact ⟨⟨.refl _ _, update_file hpath _ _, fun _ _ => rfl⟩, hfirst⟩
  · have hmarked : IsChapterPath record.number (withStatus record .needsRevision).path := hpath
    refine ⟨⟨.refl _ _, fun other hother => ?_, fun _ _ => rfl⟩,
      hfirst.trans (@revised_record (withStatus record .needsRevision) hmarked _)⟩
    exact (update_file hmarked _ _ other hother).trans (update_file hpath _ _ other hother)

theorem storeRevision_touches {chapter : ChapterRecord}
    (hpath : IsChapterPath chapter.number chapter.path) :
    Touches chapter.number m (storeRevision lib m args chapter now).1 := by
  have hrecord : (revisionOf lib m (lib.readManifest m) args chapter).1.number = chapter.number ∧
      (revisionOf lib m (lib.readManifest m) args chapter).1.path = chapter.path := ⟨rfl, rfl⟩
  unfold storeRevision
  dsimp only
  generalize revisionOf lib m (lib.readManifest m) args chapter = revision at hrecord ⊢
  obtain ⟨record, content⟩ := revision
  dsimp only at hrecord ⊢
  rw [← hrecord.1, ← hrecord.2] at hpath
  have hwritten := @writeRevision_touches _ lib m args now record hpath content
  rw [hrecord.1] at hwritten
  generalize writeRevision lib m (lib.readManifest m) args record content now = written at hwritten ⊢
  obtain ⟨hwrites, hrevised⟩ := hwritten
  split_ifs
  · exact ⟨hrevised, hwrites.files, hwrites.receipts⟩
  split
  · exact hwrites
  · exact ⟨hrevised, hwrites.files, hwrites.receipts⟩

theorem storeRejection_touches {chapter : ChapterRecord}
    (hpath : IsChapterPath chapter.number chapter.path) :
    Touches chapter.number m (storeRejection lib m chapter).1 := by
  have hrevised := @revised_record (withStatus chapter .rejected) hpath m.manifest.chapters
  have hsync := @syncChapterRecordFile_touches _ lib (withStatus chapter .rejected) hpath m
  unfold storeRejection
  dsimp only
  generalize syncChapterRecordFile lib m (withStatus chapter .rejected) = synced at hsync ⊢
  exact ⟨hrevised, hsync.files, hsync.receipts⟩

theorem runOnFiles_touches {request : NovelRequest} (hplaced : m.manifest.Placed) :
    Acts (request.target lib m) m (runOnFiles lib request m).1 := by
  have hrevise : ∀ sealed, Acts
      (request.args.chapterNumber.or (lib.readManifest m).latestChapterNumber) m
      (reviseWith lib sealed m request.args request.now).1 := by
    intro sealed
    unfold reviseWith
    dsimp only
    split
    · exact .inl rfl
    split
    · exact .inl rfl
    rename_i chapter hchapter
    split
    · exact .inl rfl
    split_ifs
    · exact .inl rfl
    · exact .inl rfl
    · exact acts_of_chapter hplaced hchapter storeRevision_touches
  have hjudge : ∀ stage statusOf, Acts
      (request.args.chapterNumber.or (lib.readManifest m).latestChapterNumber) m
      (judgeChapter lib stage statusOf m request.args request.now).1 := by
    intro stage statusOf
    unfold judgeChapter
    dsimp only
    split
    · exact .inl rfl
    rename_i chapter hchapter
    split
    · exact .inl rfl
    split
    · exact .inl rfl
    exact acts_of_chapter hplaced hchapter fun _ =>
      ⟨revised_withStatus _ _ _, fun _ _ => rfl, fun _ _ => rfl⟩
  unfold runOnFiles NovelRequest.target
  cases request.action with
  | addChapter => exact addDraft_touches hplaced false
  | writeDraft => exact addDraft_touches hplaced true
  | reviseChapter => exact hrevise false
  | reviseDraft => exact hrevise true
  | reviewChapter => exact hjudge _ _
  | auditChapter => exact hjudge _ _
  | settleChapterState =>
      dsimp only [settleChapterState]
      split
      · exact .inl rfl
      rename_i chapter hchapter
      split
      · exact .inl rfl
      split
      · exact .inl rfl
      exact acts_of_chapter hplaced hchapter fun _ =>
        ⟨revised_withStatus _ _ _, fun _ _ => rfl, fun _ _ => rfl⟩
  | rejectChapter =>
      dsimp only [rejectChapter]
      split
      · exact .inl rfl
      rename_i chapter hchapter
      split_ifs
      · exact .inl rfl
      · exact acts_of_chapter hplaced hchapter storeRejection_touches
  | approveChapter => exact .inl rfl

/-! ## What an approval leaves -/

variable {p : Project ρ} {ctx : ApprovalContext ρ} {plan : ApprovalPlan} {freshId : String}

theorem Touches.refl (number : Nat) (m : Managed ρ) : Touches number m m :=
  ⟨.refl _ _, fun _ _ => rfl, fun _ _ => rfl⟩

theorem Touches.trans {number : Nat} {m m' m'' : Managed ρ} (h : Touches number m m')
    (h' : Touches number m' m'') : Touches number m m'' :=
  ⟨h.chapters.trans h'.chapters, fun path hother => (h'.files path hother).trans (h.files path hother),
    fun other hother => (h'.receipts other hother).trans (h.receipts other hother)⟩

theorem managed_removeBackup (p : Project ρ) (backup : Option String) :
    (removeBackup p backup).managed = p.managed := by
  cases backup <;> rfl

theorem chapters_approvedManifest (m : Managed ρ) :
    (approvedManifest lib m ctx plan now).chapters =
      modifyFirst (·.number == ctx.number) (fun _ => plan.chapter) ctx.manifest.chapters := by
  unfold approvedManifest settledManifest
  dsimp only
  split_ifs <;> rfl

theorem checkApproval_plan (h : checkApproval lib m ctx = .ok plan) :
    plan.chapter.number = ctx.chapter.number ∧ plan.chapter.path = ctx.chapter.path := by
  unfold checkApproval at h
  dsimp only at h
  repeat
    split at h
    · cases h
  cases h
  exact ⟨rfl, rfl⟩

theorem commitJournal_touches (p : Project ρ) (number : Nat) (journal : ApprovalJournal)
    (receipt : ApprovalReceipt) :
    Touches number p.managed (commitJournal p number journal receipt).managed := by
  unfold commitJournal
  rw [managed_removeBackup]
  exact ⟨.refl _ _, fun _ _ => rfl, fun _ hother => Function.update_of_ne hother _ _⟩

theorem afterCommit_touches {number : Nat} {manifest : NovelProjectManifest ρ}
    (h : Touches number m p.managed)
    (hmanifest : Revised number m.manifest.chapters manifest.chapters) :
    Touches number m (afterCommit lib p manifest number).managed := by
  unfold afterCommit
  split_ifs
  · exact ⟨hmanifest, h.files, h.receipts⟩
  · exact ⟨h.chapters, h.files, h.receipts⟩

theorem commitApproval_touches (journal : ApprovalJournal)
    (hchapters : ctx.manifest.chapters = p.managed.manifest.chapters)
    (hnumber : plan.chapter.number = ctx.number) (hpath : IsChapterPath ctx.number plan.chapter.path) :
    Touches ctx.number p.managed (commitApproval lib p ctx plan journal now).1.managed := by
  have hinstalled : Touches ctx.number p.managed (installApproval lib p.managed ctx plan) := by
    have hsettled : Touches ctx.number p.managed { p.managed with
        approvedSettlements :=
          Function.update p.managed.approvedSettlements ctx.number (some plan.settlement) } :=
      ⟨.refl _ _, fun _ _ => rfl, fun _ _ => rfl⟩
    unfold installApproval
    rw [← hnumber] at hpath hsettled ⊢
    exact hsettled.trans (syncChapterRecordFile_touches hpath _)
  unfold commitApproval
  dsimp only
  generalize installApproval lib p.managed ctx plan = installed at hinstalled ⊢
  split_ifs
  · exact hinstalled
  have hrevised : Revised ctx.number p.managed.manifest.chapters
      (approvedManifest lib installed ctx plan now).chapters := by
    rw [chapters_approvedManifest, hchapters]
    exact revised_modifyFirst (fun _ _ => ⟨hnumber, fun _ => hpath⟩) _
  have hwritten : Touches ctx.number p.managed
      (lib.writeManifest installed (approvedManifest lib installed ctx plan now)) :=
    ⟨hrevised, hinstalled.files, hinstalled.receipts⟩
  exact afterCommit_touches (hwritten.trans (commitJournal_touches { p with managed := _ } _ _ _))
    hrevised

theorem replayApproval_touches (number : Nat) (receipt : ApprovalReceipt) :
    Touches number p.managed (replayApproval lib p ctx receipt).1.managed := by
  unfold replayApproval
  split_ifs
  · exact .refl _ _
  split
  · exact .refl _ _
  split_ifs
  · exact .refl _ _
  · unfold finishJournal
    dsimp only
    rw [managed_removeBackup]
    split_ifs
    · exact ⟨.refl _ _, fun _ _ => rfl, fun _ _ => rfl⟩
    · exact .refl _ _

/-- The approval goes back to the files before an earlier one. -/
def RollsBack (number : Nat) (p : Project ρ) (before : Managed ρ) : Prop :=
  ∃ journal ∈ p.managed.journals number, journal.state = .prepared ∧
    ∃ id ∈ journal.backup, p.backups id = some before

theorem recoverApproval_touches {journal : ApprovalJournal} {result : Project ρ × NovelReply}
    (hjournal : p.managed.journals ctx.number = some journal)
    (h : recoverApproval lib p ctx journal now = some result) :
    Touches ctx.number p.managed result.1.managed ∨
      RollsBack ctx.number p result.1.managed := by
  unfold recoverApproval at h
  split_ifs at h with hother hprepared happroved
  · cases h
    exact .inl (.refl _ _)
  · cases h
    left
    unfold finishPrepared
    split
    · exact .refl _ _
    split
    · exact .refl _ _
    split_ifs
    · exact .refl _ _
    · exact .refl _ _
    · exact .refl _ _
    · exact commitJournal_touches _ _ _ _
  · split at h
    · cases h
    rename_i id hid
    obtain ⟨before, hbefore, rfl⟩ := Option.map_eq_some_iff.mp h
    unfold rollBack copyProjectStateFromSnapshot
    split
    · rename_i heq
      split at heq
      · cases heq
        exact .inl (.refl _ _)
      · cases heq
    · rename_i heq
      split at heq
      · cases heq
      · cases heq
        exact .inr ⟨journal, hjournal, hprepared, id, hid, hbefore⟩

theorem approveChapter_touches {number : Nat} {chapterNumber : Option Nat}
    (hplaced : p.managed.manifest.Placed) (hreceipt : (p.managed.receipts number).isSome = true) :
    ∃ other, other ≠ number ∧
      (Touches other p.managed (approveChapter lib p chapterNumber now freshId).1.managed ∨
        chapterNumber.or (lib.readManifest p.managed).latestChapterNumber = some other ∧
          RollsBack other p (approveChapter lib p chapterNumber now freshId).1.managed) := by
  have hnext : number + 1 ≠ number := Nat.succ_ne_self number
  unfold approveChapter
  cases hctx : approvalContext lib p.managed chapterNumber with
  | error error => exact ⟨_, hnext, .inl (.refl _ _)⟩
  | ok ctx =>
      obtain ⟨htarget, hread⟩ := approvalContext_ok hctx
      dsimp only
      cases hother : p.managed.receipts ctx.number with
      | some receipt => exact ⟨_, hnext, .inl (replayApproval_touches _ receipt)⟩
      | none =>
          have hne : ctx.number ≠ number := by
            intro hsame
            rw [← hsame, hother] at hreceipt
            cases hreceipt
          refine ⟨ctx.number, hne, ?_⟩
          dsimp only
          split
          · rename_i recovered hrecovered
            obtain ⟨journal, hjournal, hrecovered⟩ := Option.bind_eq_some_iff.mp hrecovered
            exact (recoverApproval_touches hjournal hrecovered).imp_right fun h => ⟨htarget, h⟩
          · left
            unfold newApproval
            split
            · exact .refl _ _
            rename_i plan hplan
            obtain ⟨hnumber, hpath⟩ := checkApproval_plan hplan
            have hchapter := hread.chapter
            rw [hread.manifest] at hchapter
            obtain ⟨hfound, hplace⟩ := chapter?_spec hplaced hchapter
            rw [hfound] at hnumber
            rw [← hpath] at hplace
            have hchapters : ctx.manifest.chapters = p.managed.manifest.chapters := by
              rw [hread.manifest]
              rfl
            have hprepared : Touches ctx.number p.managed (prepareApproval lib p ctx
                (approvalTransactionId p.managed ctx.number freshId)).1.managed :=
              ⟨.refl _ _, fun _ _ => rfl, fun _ _ => rfl⟩
            exact hprepared.trans (commitApproval_touches _ hchapters hnumber hplace)

/-! ## Runs -/

/-- A record with its file and its receipt. -/
structure Kept (number : Nat) (chapter : ChapterRecord) (raw : String) (receipt : ApprovalReceipt)
    (m : Managed ρ) : Prop where
  placed : m.manifest.Placed
  record : m.manifest.chapter? number = some chapter
  file : m.chapterFiles chapter.path = some raw
  receipt : m.receipts number = some receipt

variable {number : Nat} {chapter : ChapterRecord} {raw : String} {receipt : ApprovalReceipt}

theorem Kept.touches {other : Nat} {m' : Managed ρ} (h : Kept number chapter raw receipt m)
    (hother : other ≠ number) (htouches : Touches other m m') :
    Kept number chapter raw receipt m' := by
  have hpath := (chapter?_spec h.placed h.record).2
  constructor
  · exact htouches.chapters.placed h.placed
  · exact (htouches.chapters.others number hother.symm).trans h.record
  · rw [htouches.files _ fun hsame => hother (hsame.unique hpath), h.file]
  · rw [htouches.receipts number hother.symm, h.receipt]

/-- The action is aimed at another chapter or refused, and where it goes back to earlier files
these have the chapter. -/
def Spares (lib : NovelLibrary ρ) (number : Nat) (kept : Managed ρ → Prop) (p : Project ρ)
    (request : NovelRequest) : Prop :=
  match request.action with
  | .rejectChapter => True
  | .approveChapter => ∀ other before, other ≠ number →
      request.target lib p.managed = some other → RollsBack other p before → kept before
  | _ => request.target lib p.managed ≠ some number

theorem Kept.runAction {request : NovelRequest} (h : Kept number chapter raw receipt p.managed)
    (happroved : chapterIsApproved chapter = true)
    (hspares : Spares lib number (Kept number chapter raw receipt) p request) :
    Kept number chapter raw receipt (runAction lib p request).1.managed := by
  unfold BenShu.Novel.runAction
  split_ifs with happrove
  · obtain ⟨other, hother, htouches | ⟨htarget, hback⟩⟩ := @approveChapter_touches _ lib
      request.now p request.freshId number request.args.chapterNumber h.placed (by simp [h.receipt])
    · exact h.touches hother htouches
    · unfold Spares NovelRequest.target at hspares
      rw [happrove] at hspares
      exact hspares other _ hother htarget hback
  · dsimp only
    by_cases haimed : request.target lib p.managed = some number
    · -- of the actions aimed at the chapter only a rejection spares it, and it is refused
      have hreject : request.action = .rejectChapter := by
        unfold Spares at hspares
        cases haction : request.action <;> simp_all
      have hrefused : (runOnFiles lib request p.managed).1 = p.managed := by
        unfold NovelRequest.target at haimed
        rw [hreject] at haimed
        have hfound : (lib.readManifest p.managed).chapter? number = some chapter := h.record
        simp [runOnFiles, hreject, rejectChapter, requireChapter, haimed, hfound, happroved]
      rwa [hrefused]
    · rcases runOnFiles_touches h.placed with hsame | ⟨other, htarget, htouches⟩
      · rwa [hsame]
      · refine h.touches (fun hother => haimed ?_) htouches
        rw [htarget, hother]

def approvalOf (number : Nat) : NovelRequest where
  action := .approveChapter
  args := { chapterNumber := some number }
  now := "approval"
  freshId := toString number

def rejectionOfOne : NovelRequest where
  action := .rejectChapter
  args := { chapterNumber := some 1 }

def approvedRun : Project Unit := sampleRun (sampleChapter 1 "One" ++ [approvalOf 1])

def approvedOne : ChapterRecord where
  title := "One"
  summary := ""
  keyFacts := []
  continuityUpdates := []
  unitCount := 3
  number := 1
  path := "chapters/0001.md"
  status := "approved"

def receiptOfOne : ApprovalReceipt where
  transactionId := "1"
  chapterNumber := 1
  bodyFingerprint := "One"
  metadataFingerprint := "One/"
  authorityFingerprint := "root"
  reviewFingerprint := "passedOneaudit"
  settlementFingerprint := "One"
  truthFingerprint := "chapter_summaries1approvalcontinuity_index1approval"
  committedAt := "approval"
  legacy := false

end BenShu.Novel
