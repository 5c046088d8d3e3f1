import BenShu.Novel.Actions
import Mathlib.Data.List.Induction

/-!
# Histories of a project

A project is created without chapters and changed by its actions: the actions on a chapter,
planning, imports and repairs, snapshots and their restoration. The path of a chapter's file
starts with its number.
-/

namespace BenShu.Novel

variable {ρ : Type} {lib : NovelLibrary ρ}

/-! ## Paths -/

def IsChapterPath (number : Nat) (path : String) : Prop :=
  ∃ rest : List Char, (∀ c ∈ rest.head?, c.isDigit = false) ∧
    path.toList = "chapters/".toList ++ ((padded number).toList ++ rest)

def NovelProjectManifest.Placed (manifest : NovelProjectManifest ρ) : Prop :=
  ∀ chapter ∈ manifest.chapters, IsChapterPath chapter.number chapter.path

/-! ## States -/

/-- Planning leaves the chapters with their reviews and validations, and what approvals wrote. -/
structure Plans (m m' : Managed ρ) : Prop where
  chapters : m'.manifest.chapters = m.manifest.chapters
  reviews : m'.manifest.reviews = m.manifest.reviews
  truthValidations : m'.manifest.truthValidations = m.manifest.truthValidations
  chapterFiles : m'.chapterFiles = m.chapterFiles
  pendingSettlements : m'.pendingSettlements = m.pendingSettlements
  legacySettlements : m'.legacySettlements = m.legacySettlements
  approvedSettlements : m'.approvedSettlements = m.approvedSettlements
  receipts : m'.receipts = m.receipts
  journals : m'.journals = m.journals

def takeSnapshot (p : Project ρ) (id : String) : Project ρ :=
  { p with snapshots := Function.update p.snapshots id (some p.managed) }

/-- The states of a project. Imports, repairs and migrations are not told apart: all that is
known of them is that each chapter keeps a path of its number. -/
inductive Reachable (lib : NovelLibrary ρ) : Project ρ → Prop
  | created (manifest : NovelProjectManifest ρ) (hchapters : manifest.chapters = [])
      (hreviews : manifest.reviews = []) : Reachable lib { managed := { manifest := manifest } }
  | acted {p : Project ρ} (request : NovelRequest) (h : Reachable lib p) :
      Reachable lib (runAction lib p request).1
  | planned {p : Project ρ} (m : Managed ρ) (h : Reachable lib p) (hplans : Plans p.managed m) :
      Reachable lib { p with managed := m }
  | edited {p : Project ρ} (m : Managed ρ) (h : Reachable lib p) (hplaced : m.manifest.Placed) :
      Reachable lib { p with managed := m }
  | copied {p : Project ρ} (id : String) (h : Reachable lib p) : Reachable lib (takeSnapshot p id)
  | restored {p : Project ρ} {id : String} {snapshot : Managed ρ} (h : Reachable lib p)
      (hid : p.snapshots id = some snapshot) :
      Reachable lib (copyProjectStateFromSnapshot lib snapshot p).1

/-! ## A small library -/

/-- A library whose fingerprints are the texts themselves and whose files start with a line of
front matter. -/
def sampleLibrary : NovelLibrary Unit where
  bodyFingerprint body := body
  reviewFingerprint review := review.verdict ++ review.chapterFingerprint ++ review.createdAt
  settlementFingerprint settlement := settlement.bodyFingerprint
  metadataFingerprint metadata := metadata.title ++ "/" ++ metadata.summary
  truthFingerprint records _ := .join (records.map fun record =>
    record.sectionName ++ toString record.unitCount ++ record.updatedAt)
  stripFrontmatter raw := .ofList ((raw.toList.dropWhile (· != '\n')).drop 1)
  normalizeChapterBody content _ := content
  renderChapterFile record content := record.status ++ "\n" ++ content
  sanitizeSavedProse content := content
  cleanList texts := texts
  sealedAuthorityVersion := "v1"
  ensureProjectGovernance manifest := (manifest.storyBible, ())
  nextChapter m := m.manifest.chapters.length + 1
  draftChapter _ args _ :=
    (⟨args.chapterTitle, args.summary, args.keyFacts, args.continuityUpdates,
      args.content.length⟩, args.content)
  reviseChapter _ args chapter content :=
    ({ chapter.toChapterMetadata with
      summary := if args.summary = "" then chapter.summary else args.summary }, content)
  validateTruth _ _ := ("passed", [])
  qualityGate _ _ _ _ _ _ := ⟨true, [], []⟩
  settleFromBody _ body _ authority :=
    (⟨body, body, authority.authorityRootFingerprint, [], "summary", [], []⟩, true)
  validateSettlement _ body _ settlement := settlement.bodyFingerprint == body
  selectMetadata _ chapter settlement _ := (chapter.toChapterMetadata, settlement)
  metadataBlocks _ _ _ := false
  promoteRegistrations manifest _ _ := (manifest.storyBible, ())
  discardRegistrations _ _ := ()
  recordReports _ _ _ := ()
  truthUnits _ manifest _ := manifest.chapters.length
  readableExport _ _ := none

def sampleAuthorityPath (number : Nat) : String := "runtime/chapter-" ++ padded number ++ ".json"

theorem root_not_blank : isBlank "root" = false := by decide +kernel

def samplePackage (number : Nat) : ContextPackageRecord where
  number := number
  path := sampleAuthorityPath number
  authorityRootFingerprint := "root"
  sealed := true
  coverageComplete := true
  rooted _ := root_not_blank

/-- A project that has been planned for two chapters. -/
def sampleManaged : Managed Unit where
  manifest := {
    contractReady := true
    contextPackages := [samplePackage 1, samplePackage 2]
    chapterContracts := [⟨1, []⟩, ⟨2, []⟩]
    records := () }
  authorities path :=
    if path = sampleAuthorityPath 1 then some ⟨"v1", 1, "root", ""⟩
    else if path = sampleAuthorityPath 2 then some ⟨"v1", 2, "root", ""⟩
    else none
  bestCandidates number :=
    if number = 1 then some ⟨"root", "One", "One", true⟩
    else if number = 2 then some ⟨"root", "Two", "Two", true⟩
    else none

def sampleRun (requests : List NovelRequest) : Project Unit :=
  requests.foldl (fun p request => (runAction sampleLibrary p request).1)
    { managed := sampleManaged }

theorem reachable_sampleRun (requests : List NovelRequest) :
    Reachable sampleLibrary (sampleRun requests) := by
  have hplanned : Reachable sampleLibrary { managed := sampleManaged } :=
    .planned sampleManaged (.created { contractReady := true, records := () } rfl rfl)
      ⟨rfl, rfl, rfl, rfl, rfl, rfl, rfl, rfl, rfl⟩
  unfold sampleRun
  induction requests using List.reverseRecOn with
  | nil => exact hplanned
  | append_singleton requests request ih =>
      rw [List.foldl_append]
      exact .acted request ih

def sampleChapter (number : Nat) (content : String) : List NovelRequest :=
  [{ action := .writeDraft
     args := { chapterNumber := some number, content := content, chapterTitle := content }
     now := "draft" },
    { action := .auditChapter, args := { chapterNumber := some number }, now := "audit" },
    { action := .settleChapterState, args := { chapterNumber := some number } }]

end BenShu.Novel

/-!
# The pipeline and the approval

The pipeline sends a chapter to its approval after a look at its reviews, its truth validation
and its status as text. The approval reads the status itself and lets pass only two: a chapter
whose status was set back beside a review that still matches is sent to an approval that
refuses it.
-/

namespace BenShu.Novel

variable {ρ : Type}

/-! ## What the pipeline looks at -/

namespace NovelProjectManifest

variable (manifest : NovelProjectManifest ρ)

def chapterHasPassedReview (number : Nat) : Bool :=
  let currentFingerprint := ((manifest.latestTruthValidation number).map
    (·.chapterFingerprint)).filter (!·.isEmpty)
  let authorityFingerprint := ((manifest.contextPackages.find? fun record =>
    record.number == number && record.sealed).map (·.authorityRootFingerprint)).filter (!·.isEmpty)
  match currentFingerprint, authorityFingerprint with
  | some currentFingerprint, some authorityFingerprint =>
      (manifest.latestReview number).any (·.passes currentFingerprint authorityFingerprint)
  | _, _ => false

def chapterTruthValidationAllowsApproval (number : Nat) : Bool :=
  (manifest.latestTruthValidation number).any fun record =>
    record.passes && !record.chapterFingerprint.isEmpty

def projectPipelineTransition (number : Nat)
    (settlementReady targetReached exportReady : Bool) : NovelTransitionDecision :=
  let chapter := manifest.chapter? number
  let chapterStatus := (chapter.map (·.status)).getD ""
  let chapterApproved := chapter.any chapterIsApproved
  nextTransition
    { sourceIntakeRequested := false
      sourceReady := true
      contractReady := manifest.contractReady
      contextReady := manifest.contextPackages.any (·.number == number)
      executionPackageReady := manifest.chapterContracts.any (·.number == number)
      chapterExists := chapter.isSome
      chapterNeedsRevision := Text.toAsciiLowercase chapterStatus == "needs_revision" ||
        statusIsRejected chapterStatus
      chapterStateRepairRequired := statusRequiresStateRepair chapterStatus
      auditPassed := chapter.isSome && manifest.chapterHasPassedReview number
      settlementReady := settlementReady
      truthValidated := manifest.chapterTruthValidationAllowsApproval number
      chapterApproved := chapterApproved
      snapshotRequested := chapterApproved && shouldWriteAutoChapterSnapshot number
      snapshotReady := manifest.snapshots.contains (autoSnapshotId number)
      exportRequested := chapterApproved && manifest.exportWhenComplete && targetReached
      exportReady := exportReady }

end NovelProjectManifest

/-! ## What the approval asks for -/

/-- A refusal for the status, the review, the truth validation or a missing settlement. -/
def ApprovalRefusal.unready : ApprovalRefusal → Bool
  | invalidChapterLifecycleTransition _ | approvalRequiresCurrentReview
  | approvalRequiresCurrentTruthValidation | approvalRequiresStateSettlement => true
  | _ => false

def NovelReply.refusedUnready : NovelReply → Bool
  | refused refusal => refusal.unready
  | _ => false

def ChapterLifecycleStatus.admitsApproval (status : ChapterLifecycleStatus) : Bool :=
  status == .reviewPassed || status == .stateReady

/-- A journal answers for the approval: it is of another body or authority, or its transaction
can be finished or rolled back. -/
def ApprovalJournal.Answers (p : Project ρ) (bodyFingerprint authorityFingerprint : String)
    (journal : ApprovalJournal) : Prop :=
  journal.bodyFingerprint ≠ bodyFingerprint ∨
    journal.authorityFingerprint ≠ authorityFingerprint ∨
    journal.state = .prepared ∧ ∃ id ∈ journal.backup, (p.backups id).isSome = true

/-- The approval answers before it looks at the chapter. -/
def AnsweredBefore (p : Project ρ) (number : Nat) (bodyFingerprint authorityFingerprint : String) :
    Prop :=
  (p.managed.receipts number).isSome = true ∨
    ∃ journal ∈ p.managed.journals number, journal.Answers p bodyFingerprint authorityFingerprint

variable {lib : NovelLibrary ρ} {p : Project ρ} {ctx : ApprovalContext ρ}
  {now freshId : String}

/-! ## Agreement -/

/-- What the pipeline has made sure of when it sends a chapter to its approval. -/
structure ApprovalContext.Prepared (lib : NovelLibrary ρ) (m : Managed ρ)
    (ctx : ApprovalContext ρ) : Prop where
  review : (ctx.review? lib).isSome = true
  truth : ctx.truthMatches lib = true
  settlement : (m.readPendingSettlement ctx.number).isSome = true
  unapproved : chapterIsApproved ctx.chapter = false

theorem passedReview_of_audit {manifest : NovelProjectManifest ρ} {number : Nat}
    (h : manifest.chapterHasPassedReview number = true) :
    ∃ validation record review, manifest.latestTruthValidation number = some validation ∧
      manifest.contextPackages.find? (fun record =>
        record.number == number && record.sealed) = some record ∧
      manifest.latestReview number = some review ∧
      review.passes validation.chapterFingerprint record.authorityRootFingerprint = true := by
  unfold NovelProjectManifest.chapterHasPassedReview at h
  dsimp only at h
  split at h
  · rename_i hcurrent hauthority
    rcases Option.map_eq_some_iff.mp (Option.filter_eq_some_iff.mp hcurrent).1 with
      ⟨validation, hvalidation, rfl⟩
    rcases Option.map_eq_some_iff.mp (Option.filter_eq_some_iff.mp hauthority).1 with
      ⟨record, hrecord, rfl⟩
    cases hreview : manifest.latestReview number with
    | none =>
        rw [hreview] at h
        cases h
    | some review =>
        rw [hreview] at h
        exact ⟨validation, record, review, hvalidation, hrecord, rfl, h⟩
  · cases h

theorem prepared_of_approval {targetReached exportReady : Bool} (hread : ctx.ReadFrom lib p.managed)
    (hvalidated : (ctx.manifest.latestTruthValidation ctx.number).map (·.chapterFingerprint) =
      some (ctx.bodyFingerprint lib))
    (hphase : (ctx.manifest.projectPipelineTransition ctx.number
      (p.managed.readPendingSettlement ctx.number).isSome targetReached exportReady).nextPhase =
        some .approval) :
    ctx.Prepared lib p.managed := by
  rcases nextTransition_approval hphase with
    ⟨-, hunapproved, -, -, haudit, hsettlement, htruth⟩
  dsimp only at hunapproved haudit hsettlement htruth
  rw [hread.chapter] at hunapproved haudit
  rcases passedReview_of_audit haudit with
    ⟨validation, record, review, hvalidation, hrecord, hreview, hpasses⟩
  rcases authority_of_readSealed hread.authority with ⟨record', hrecord', hroot⟩
  rw [hrecord] at hrecord'
  cases hrecord'
  rw [hvalidation] at hvalidated
  have hfingerprint : validation.chapterFingerprint = ctx.bodyFingerprint lib :=
    Option.some.inj hvalidated
  have hauthority : record.authorityRootFingerprint = ctx.authorityFingerprint := hroot.symm
  rw [hfingerprint, hauthority] at hpasses
  refine ⟨?_, ?_, hsettlement, by simpa using hunapproved⟩
  · unfold ApprovalContext.review? NovelProjectManifest.latestPassingReview
    rw [hreview, Option.filter_some, if_pos hpasses]
    rfl
  · unfold NovelProjectManifest.chapterTruthValidationAllowsApproval at htruth
    rw [hvalidation, Option.any_some, Bool.and_eq_true] at htruth
    unfold ApprovalContext.truthMatches
    rw [hvalidation, Option.any_some, htruth.1, hfingerprint]
    exact beq_self_eq_true _

theorem checkApproval_unready_iff (h : ctx.Prepared lib p.managed) :
    (∃ refusal, checkApproval lib p.managed ctx = .error refusal ∧ refusal.unready = true) ↔
      (ChapterLifecycleStatus.parse ctx.chapter.status).admitsApproval = false := by
  rcases Option.isSome_iff_exists.mp h.review with ⟨review, hreview⟩
  rcases Option.isSome_iff_exists.mp h.settlement with ⟨settlement, hsettlement⟩
  unfold ChapterLifecycleStatus.admitsApproval
  rw [Bool.or_eq_false_iff, beq_eq_false_iff_ne, beq_eq_false_iff_ne]
  constructor
  · intro hrefused
    rcases hrefused with ⟨refusal, hcheck, hunready⟩
    by_contra hadmits
    unfold checkApproval at hcheck
    dsimp only at hcheck
    rw [if_neg hadmits, hreview] at hcheck
    dsimp only at hcheck
    rw [h.truth, hsettlement] at hcheck
    rw [if_neg (by decide)] at hcheck
    -- the checks that are left refuse for other reasons
    split at hcheck
    · cases hcheck
      cases hunready
    dsimp only at hcheck
    split at hcheck
    · cases hcheck
      cases hunready
    split at hcheck
    · cases hcheck
      cases hunready
    split at hcheck
    · cases hcheck
      cases hunready
    · cases hcheck
  · intro hstatus
    refine ⟨.invalidChapterLifecycleTransition (ChapterLifecycleStatus.parse ctx.chapter.status),
      ?_, rfl⟩
    unfold checkApproval
    exact if_pos hstatus

theorem replayApproval_ready (receipt : ApprovalReceipt) :
    (replayApproval lib p ctx receipt).2.refusedUnready = false := by
  unfold replayApproval
  split
  · rfl
  · split
    · rfl
    · split <;> rfl

theorem finishPrepared_ready (journal : ApprovalJournal) :
    (finishPrepared lib p ctx journal now).2.refusedUnready = false := by
  unfold finishPrepared
  split
  · rfl
  split
  · rfl
  split
  · rfl
  split
  · rfl
  split <;> rfl

theorem rollBack_ready (transactionId : String) (before : Managed ρ) :
    (rollBack lib p transactionId before).2.refusedUnready = false := by
  unfold rollBack
  split <;> rfl

theorem recoverApproval_ready {journal : ApprovalJournal} {result : Project ρ × NovelReply}
    (h : recoverApproval lib p ctx journal now = some result) :
    result.2.refusedUnready = false := by
  unfold recoverApproval at h
  split at h
  · cases h
    rfl
  split at h
  · split at h
    · cases h
      exact finishPrepared_ready journal
    · split at h
      · cases h
      · rcases Option.map_eq_some_iff.mp h with ⟨before, -, rfl⟩
        exact rollBack_ready _ before
  · cases h

theorem recoverApproval_isSome_iff {journal : ApprovalJournal}
    (hunapproved : chapterIsApproved ctx.chapter = false) :
    (recoverApproval lib p ctx journal now).isSome = true ↔
      journal.Answers p (ctx.bodyFingerprint lib) ctx.authorityFingerprint := by
  unfold recoverApproval ApprovalJournal.Answers
  rw [hunapproved, ← or_assoc]
  split
  · rename_i hother
    exact iff_of_true rfl (.inl hother)
  · rename_i hother
    rw [or_iff_right hother]
    split
    · rename_i hprepared
      rw [if_neg Bool.false_ne_true, and_iff_right hprepared]
      cases journal.backup with
      | none => simp
      | some transactionId => simp
    · rename_i hprepared
      exact iff_of_false (by simp) fun h => hprepared h.1

theorem commitApproval_ready (plan : ApprovalPlan) (journal : ApprovalJournal) :
    (commitApproval lib p ctx plan journal now).2.refusedUnready = false := by
  unfold commitApproval
  dsimp only
  split <;> rfl

theorem newApproval_unready_iff (h : ctx.Prepared lib p.managed) :
    (newApproval lib p ctx now freshId).2.refusedUnready = false ↔
      (ChapterLifecycleStatus.parse ctx.chapter.status).admitsApproval = true := by
  have hcheck := checkApproval_unready_iff h
  unfold newApproval
  cases hresult : checkApproval lib p.managed ctx with
  | error refusal =>
      rw [hresult] at hcheck
      have hunready : refusal.unready = true ↔
          (ChapterLifecycleStatus.parse ctx.chapter.status).admitsApproval = false := by
        rw [← hcheck]
        constructor
        · exact fun hrefusal => ⟨refusal, rfl, hrefusal⟩
        · intro hrefused
          rcases hrefused with ⟨refusal', heq, hrefusal⟩
          cases heq
          exact hrefusal
      show refusal.unready = false ↔ _
      cases hrefusal : refusal.unready with
      | true => simp [hunready.mp hrefusal]
      | false =>
          refine iff_of_true rfl ((Bool.not_eq_false _).mp fun hadmits => ?_)
          rw [hunready.mpr hadmits] at hrefusal
          cases hrefusal
  | ok plan =>
      rw [hresult] at hcheck
      refine iff_of_true (commitApproval_ready plan _) ?_
      by_contra hadmits
      rcases hcheck.mpr (by simpa using hadmits) with ⟨refusal, heq, -⟩
      cases heq

/-- A chapter that the pipeline sends to its approval is not refused as unready, unless its
status was set back beside its review and nothing earlier answers. -/
theorem approveChapter_ready_iff {number : Nat} {targetReached exportReady : Bool}
    (hctx : approvalContext lib p.managed (some number) = .ok ctx)
    (hvalidated : (ctx.manifest.latestTruthValidation number).map (·.chapterFingerprint) =
      some (ctx.bodyFingerprint lib))
    (hphase : (ctx.manifest.projectPipelineTransition number
      (p.managed.readPendingSettlement number).isSome targetReached exportReady).nextPhase =
        some .approval) :
    (approveChapter lib p (some number) now freshId).2.refusedUnready = false ↔
      (ChapterLifecycleStatus.parse ctx.chapter.status).admitsApproval = true ∨
        AnsweredBefore p number (ctx.bodyFingerprint lib) ctx.authorityFingerprint := by
  rcases approvalContext_ok hctx with ⟨hnumber, hread⟩
  cases hnumber
  have hprepared := prepared_of_approval hread hvalidated hphase
  unfold approveChapter AnsweredBefore
  rw [hctx]
  dsimp only
  split
  · rename_i receipt hreceipt
    exact iff_of_true (replayApproval_ready receipt) (.inr (.inl (by rw [hreceipt]; rfl)))
  · rename_i hreceipt
    have hnoReceipt : ¬(p.managed.receipts ctx.number).isSome = true := by simp [hreceipt]
    rw [or_iff_right hnoReceipt]
    cases hjournal : p.managed.journals ctx.number with
    | none => simp [newApproval_unready_iff hprepared]
    | some journal =>
        have hanswers := @recoverApproval_isSome_iff ρ lib p ctx now journal hprepared.unapproved
        dsimp only [Option.bind_some]
        cases hrecovered : recoverApproval lib p ctx journal now with
        | some recovered =>
            rw [hrecovered] at hanswers
            exact iff_of_true (recoverApproval_ready hrecovered)
              (.inr ⟨journal, rfl, hanswers.mp rfl⟩)
        | none =>
            rw [hrecovered] at hanswers
            have hsilent : ¬journal.Answers p (ctx.bodyFingerprint lib) ctx.authorityFingerprint :=
              fun h => by cases hanswers.mpr h
            simp [newApproval_unready_iff hprepared, hsilent]

/-! ## A status that was set back -/

def metadataRevisionOfOne : NovelRequest where
  action := .reviseChapter
  args := { chapterNumber := some 1, summary := "New" }

/-- The chapter was drafted, audited and settled; then its summary was revised. -/
def revisedRun : Project Unit := sampleRun (sampleChapter 1 "One" ++ [metadataRevisionOfOne])

def revisedContext : ApprovalContext Unit where
  number := 1
  manifest := sampleLibrary.readManifest revisedRun.managed
  chapter := {
    title := "One"
    summary := "New"
    keyFacts := []
    continuityUpdates := []
    unitCount := 3
    number := 1
    path := "chapters/0001.md"
    status := "draft" }
  body := "One"
  authority := ⟨"v1", 1, "root", ""⟩

theorem revisedContext_read : revisedContext.ReadFrom sampleLibrary revisedRun.managed :=
  ⟨rfl, by decide +kernel, by decide +kernel, by decide +kernel⟩

theorem approveChapter_ready_iff_sample :
    (approveChapter sampleLibrary revisedRun (some 1) "" "").2.refusedUnready = false ↔
      (ChapterLifecycleStatus.parse revisedContext.chapter.status).admitsApproval = true ∨
        AnsweredBefore revisedRun 1 "One" "root" :=
  @approveChapter_ready_iff _ _ _ _ _ _ _ false false
    (approvalContext_eq revisedContext_read) (by decide +kernel) (by decide +kernel)

/-- The pipeline sends the revised chapter to its approval, which refuses it. -/
theorem revised_chapter_refused :
    Reachable sampleLibrary revisedRun ∧
      revisedContext.ReadFrom sampleLibrary revisedRun.managed ∧
      revisedContext.manifest.chapters.countP (·.number == 1) = 1 ∧
      (revisedContext.manifest.latestTruthValidation 1).map (·.chapterFingerprint) =
        some (sampleLibrary.bodyFingerprint revisedContext.body) ∧
      (revisedContext.manifest.projectPipelineTransition 1
        (revisedRun.managed.readPendingSettlement 1).isSome false false).nextPhase =
          some .approval ∧
      (approveChapter sampleLibrary revisedRun (some 1) "" "").2 =
        .refused (.invalidChapterLifecycleTransition .draft) :=
  ⟨reachable_sampleRun _, revisedContext_read, by decide +kernel, by decide +kernel,
    by decide +kernel, by decide +kernel⟩

end BenShu.Novel
