import BenShu.Novel.Project

/-!
# Approving a chapter

An approval first looks for what an earlier one left behind: a receipt is replayed, a prepared
transaction is finished or rolled back. Otherwise the chapter is checked, the project is
backed up and the approval is committed.
-/

namespace BenShu.Novel

inductive ApprovalRefusal where
  | approvedChapterIsImmutable
  | approvalReceiptStale
  | approvalTransactionStale
  | invalidChapterLifecycleTransition (status : ChapterLifecycleStatus)
  | approvalRequiresCurrentReview
  | approvalRequiresCurrentTruthValidation
  | approvalRequiresAcceptedBestCandidate
  | approvalRequiresStateSettlement
  | approvalRequiresValidStateSettlement
  | approvalMetadataBlocked
  | approvalRequiresQualityGate
  deriving DecidableEq, Repr

namespace ApprovalRefusal

def errorKind : ApprovalRefusal → String
  | approvedChapterIsImmutable => "approved_chapter_is_immutable"
  | approvalReceiptStale => "approval_receipt_stale"
  | approvalTransactionStale => "approval_transaction_stale"
  | invalidChapterLifecycleTransition _ => "invalid_chapter_lifecycle_transition"
  | approvalRequiresCurrentReview => "approval_requires_current_review"
  | approvalRequiresCurrentTruthValidation => "approval_requires_current_truth_validation"
  | approvalRequiresAcceptedBestCandidate => "approval_requires_accepted_best_candidate"
  | approvalRequiresStateSettlement => "approval_requires_state_settlement"
  | approvalRequiresValidStateSettlement => "approval_requires_valid_state_settlement"
  | approvalMetadataBlocked => "approval_metadata_blocked"
  | approvalRequiresQualityGate => "approval_requires_quality_gate"

def nextAction : ApprovalRefusal → String
  | approvedChapterIsImmutable => "status"
  | approvalReceiptStale => "restore_or_explicitly_reopen_chapter"
  | approvalTransactionStale => "audit_chapter"
  | invalidChapterLifecycleTransition status =>
      if status = .stateRepairRequired then "settle_chapter_state" else "audit_chapter"
  | approvalRequiresCurrentReview => "audit_chapter"
  | approvalRequiresCurrentTruthValidation => "audit_chapter"
  | approvalRequiresAcceptedBestCandidate => "run_next_chapter"
  | approvalRequiresStateSettlement => "settle_chapter_state"
  | approvalRequiresValidStateSettlement => "settle_chapter_state"
  | approvalMetadataBlocked => "inspect_project"
  | approvalRequiresQualityGate => "revise_chapter"

end ApprovalRefusal

inductive NovelReply where
  | failed (error : String)
  | refused (refusal : ApprovalRefusal)
  | evaluated
  | written
  | replayed (receipt : ApprovalReceipt)
  | recovered (receipt : ApprovalReceipt)
  | rolledBack
  | approved (receipt : ApprovalReceipt)
  deriving DecidableEq, Repr

def NovelReply.receipt? : NovelReply → Option ApprovalReceipt
  | replayed receipt | recovered receipt | approved receipt => some receipt
  | _ => none

variable {ρ : Type} (lib : NovelLibrary ρ)

/-! ## Snapshots -/

def Managed.withoutExports (m : Managed ρ) : Managed ρ := { m with exports := fun _ => none }

def reviewMatches (receipt : ApprovalReceipt) (review : ReviewReceipt) : Bool :=
  review.chapterNumber == receipt.chapterNumber && review.verdict == "passed" &&
    review.locallyValidated && review.chapterFingerprint == receipt.bodyFingerprint &&
    review.authorityFingerprint == receipt.authorityFingerprint

/-- What is wrong with an approved chapter of a staged snapshot, truth apart. -/
def approvalProblem (m : Managed ρ) (chapter : ChapterRecord) : Option String :=
  match m.receipts chapter.number with
  | none => some s!"snapshot approved chapter {chapter.number} has no approval receipt"
  | some receipt =>
      match lib.bodyOf m chapter with
      | none => some "No such file or directory"
      | some body =>
          if receipt.bodyFingerprint ≠ lib.bodyFingerprint body then
            some s!"snapshot approval receipt for chapter {chapter.number} does not match its body"
          else if receipt.legacy then none
          else match m.readSealedChapterAuthority lib m.manifest chapter.number with
            | .error error =>
                some s!"snapshot approved chapter {chapter.number} authority is invalid: {error}"
            | .ok authority =>
                if receipt.authorityFingerprint ≠ authority.authorityRootFingerprint then
                  some s!"snapshot approval receipt for chapter {chapter.number} does not match sealed authority"
                else match m.approvedSettlements chapter.number with
                  | none =>
                      some s!"snapshot approved chapter {chapter.number} has no approved settlement"
                  | some settlement =>
                      if receipt.settlementFingerprint ≠ lib.settlementFingerprint settlement then
                        some s!"snapshot approval receipt for chapter {chapter.number} does not match settlement"
                      else if !m.acceptedBestCandidateMatches lib chapter.number
                          receipt.authorityFingerprint receipt.bodyFingerprint then
                        some s!"snapshot approved chapter {chapter.number} has no matching accepted best candidate"
                      else if receipt.metadataFingerprint ≠
                          lib.metadataFingerprint chapter.toChapterMetadata then
                        some s!"snapshot approval receipt for chapter {chapter.number} does not match metadata"
                      else if (m.manifest.reviews.reverse.find? (reviewMatches
                            { receipt with chapterNumber := chapter.number })).map
                              lib.reviewFingerprint ≠ some receipt.reviewFingerprint then
                        some s!"snapshot approval receipt for chapter {chapter.number} does not match review"
                      else none

/-- Whether a receipt of the latest approved chapter is of the truth of the manifest. -/
def truthProblem (m : Managed ρ) (chapter : ChapterRecord) : Option String :=
  match m.receipts chapter.number with
  | none => none
  | some receipt =>
      if !receipt.legacy && m.manifest.latestApproved == some chapter.number &&
          (receipt.truthFingerprint.isEmpty ||
            receipt.truthFingerprint != lib.approvalTruthFingerprint m.manifest) then
        some s!"snapshot approval receipt for latest chapter {chapter.number} does not match current truth"
      else none

def validateStagedApprovalDependencies (m : Managed ρ) : Option String :=
  (m.manifest.chapters.filter chapterIsApproved).findSome? fun chapter =>
    (approvalProblem lib m chapter).or (truthProblem lib m chapter)

/-- The managed files become those of the snapshot. -/
def copyProjectStateFromSnapshot (snapshot : Managed ρ) (p : Project ρ) :
    Project ρ × Except String Unit :=
  match validateStagedApprovalDependencies lib snapshot with
  | some error => (p, .error error)
  | none => ({ p with managed := snapshot }, .ok ())

/-! ## Writing chapters -/

def writeChapterRecord (m : Managed ρ) (record : ChapterRecord) (content : String) : Managed ρ :=
  { m with
    chapterFiles := Function.update m.chapterFiles record.path
      (some (lib.renderChapterFile record content)) }

def syncChapterRecordFile (m : Managed ρ) (record : ChapterRecord) : Managed ρ :=
  let raw := (m.chapterFiles record.path).getD ""
  if isBlank raw then m else writeChapterRecord lib m record (lib.stripFrontmatter raw)

def refreshTruthRecord (m : Managed ρ) (now sectionName : String)
    (manifest : NovelProjectManifest ρ) : NovelProjectManifest ρ :=
  manifest.upsertTruthRecord ⟨sectionName, lib.truthUnits m manifest sectionName, now⟩

/-! ## What earlier approvals left -/

structure ApprovalContext (ρ : Type) where
  number : Nat
  manifest : NovelProjectManifest ρ
  chapter : ChapterRecord
  body : String
  authority : SealedChapterAuthority

def ApprovalContext.bodyFingerprint (ctx : ApprovalContext ρ) : String :=
  lib.bodyFingerprint ctx.body

def ApprovalContext.authorityFingerprint (ctx : ApprovalContext ρ) : String :=
  ctx.authority.authorityRootFingerprint

def ApprovalContext.review? (ctx : ApprovalContext ρ) : Option ReviewReceipt :=
  ctx.manifest.latestPassingReview ctx.number (ctx.bodyFingerprint lib) ctx.authorityFingerprint

def ApprovalContext.truthMatches (ctx : ApprovalContext ρ) : Bool :=
  (ctx.manifest.latestTruthValidation ctx.number).any fun record =>
    record.passes && record.chapterFingerprint == ctx.bodyFingerprint lib

def approvalContext (m : Managed ρ) (chapterNumber : Option Nat) :
    Except String (ApprovalContext ρ) :=
  let manifest := lib.readManifest m
  match chapterNumber.or manifest.latestChapterNumber with
  | none => .error "no chapter exists in this project"
  | some number =>
      match manifest.chapter? number with
      | none => .error s!"chapter {number} not found"
      | some chapter =>
          match lib.bodyOf m chapter with
          | none => .error "No such file or directory"
          | some body =>
              match m.readSealedChapterAuthority lib manifest number with
              | .error error => .error error
              | .ok authority => .ok ⟨number, manifest, chapter, body, authority⟩

def removeBackup (p : Project ρ) (backup : Option String) : Project ρ :=
  match backup with
  | none => p
  | some transactionId => { p with backups := Function.update p.backups transactionId none }

def writeApprovalJournal (m : Managed ρ) (number : Nat) (journal : ApprovalJournal) :
    Managed ρ :=
  { m with journals := Function.update m.journals number (some journal) }

def writeApprovalReceipt (m : Managed ρ) (number : Nat) (receipt : ApprovalReceipt) :
    Managed ρ :=
  { m with receipts := Function.update m.receipts number (some receipt) }

def receiptMatches (m : Managed ρ) (ctx : ApprovalContext ρ) (receipt : ApprovalReceipt) : Bool :=
  receipt.bodyFingerprint == ctx.bodyFingerprint lib &&
    receipt.authorityFingerprint == ctx.authorityFingerprint &&
    receipt.metadataFingerprint == lib.metadataFingerprint ctx.chapter.toChapterMetadata &&
    (m.approvedSettlements ctx.number).any
      (fun settlement => lib.settlementFingerprint settlement == receipt.settlementFingerprint) &&
    (ctx.review? lib).any (fun review => lib.reviewFingerprint review == receipt.reviewFingerprint)

/-- While the chapter is the latest that is approved, the truth is that of its receipt. -/
def truthUnchanged (ctx : ApprovalContext ρ) (receipt : ApprovalReceipt) : Bool :=
  ctx.manifest.latestApproved != some ctx.number ||
    (!receipt.truthFingerprint.isEmpty &&
      receipt.truthFingerprint == lib.approvalTruthFingerprint ctx.manifest)

def journalMatches (receipt : ApprovalReceipt) (journal : ApprovalJournal) : Bool :=
  journal.transactionId == receipt.transactionId &&
    journal.bodyFingerprint == receipt.bodyFingerprint &&
    journal.authorityFingerprint == receipt.authorityFingerprint

def finishJournal (p : Project ρ) (number : Nat) (receipt : ApprovalReceipt)
    (journal : ApprovalJournal) : Project ρ :=
  let p := if journal.state = .prepared then
      { p with
        managed := writeApprovalJournal p.managed number
          { journal with state := .committed, committedAt := receipt.committedAt } }
    else p
  removeBackup p journal.backup

def replayApproval (p : Project ρ) (ctx : ApprovalContext ρ) (receipt : ApprovalReceipt) :
    Project ρ × NovelReply :=
  if !(receiptMatches lib p.managed ctx receipt && truthUnchanged lib ctx receipt) then
    (p, .refused .approvalReceiptStale)
  else match p.managed.journals ctx.number with
    | none => (p, .replayed receipt)
    | some journal =>
        if !journalMatches receipt journal then (p, .refused .approvalTransactionStale)
        else (finishJournal p ctx.number receipt journal, .replayed receipt)

def buildApprovalReceipt (ctx : ApprovalContext ρ) (transactionId : String)
    (chapter : ChapterRecord) (review : ReviewReceipt) (settlement : SettlementOutput)
    (truthFingerprint now : String) : ApprovalReceipt where
  transactionId := transactionId
  chapterNumber := chapter.number
  bodyFingerprint := ctx.bodyFingerprint lib
  metadataFingerprint := lib.metadataFingerprint chapter.toChapterMetadata
  authorityFingerprint := ctx.authorityFingerprint
  reviewFingerprint := lib.reviewFingerprint review
  settlementFingerprint := lib.settlementFingerprint settlement
  truthFingerprint := truthFingerprint
  committedAt := now
  legacy := false

def commitJournal (p : Project ρ) (number : Nat) (journal : ApprovalJournal)
    (receipt : ApprovalReceipt) : Project ρ :=
  removeBackup { p with
    managed := writeApprovalJournal (writeApprovalReceipt p.managed number receipt) number
      { journal with state := .committed, committedAt := receipt.committedAt } } journal.backup

/-- The manifest of a prepared approval was written: the receipt is made up for. -/
def finishPrepared (p : Project ρ) (ctx : ApprovalContext ρ) (journal : ApprovalJournal)
    (now : String) : Project ρ × NovelReply :=
  match p.managed.approvedSettlements ctx.number with
  | none => (p, .failed
      s!"prepared approval {ctx.number} committed its manifest without settlement")
  | some settlement =>
      match ctx.review? lib with
      | none => (p, .failed "prepared approval lost its review dependency")
      | some review =>
          if !p.managed.acceptedBestCandidateMatches lib ctx.number ctx.authorityFingerprint
              (ctx.bodyFingerprint lib) then
            (p, .failed "prepared approval lost its accepted best candidate dependency")
          else if !lib.validateSettlement ctx.chapter ctx.body ctx.authority settlement then
            (p, .failed "prepared approval settlement no longer validates against final body and authority")
          else if !ctx.truthMatches lib then
            (p, .failed "prepared approval lost its deterministic truth validation")
          else
            let receipt := buildApprovalReceipt lib ctx journal.transactionId ctx.chapter review
              settlement (lib.approvalTruthFingerprint ctx.manifest) now
            (commitJournal p ctx.number journal receipt, .recovered receipt)

def rollBack (p : Project ρ) (transactionId : String) (before : Managed ρ) :
    Project ρ × NovelReply :=
  match copyProjectStateFromSnapshot lib before p with
  | (p, .error error) => (p, .failed error)
  | (p, .ok ()) => (removeBackup p (some transactionId), .rolledBack)

/-- What a journal without a receipt calls for; `none` if it is nothing. -/
def recoverApproval (p : Project ρ) (ctx : ApprovalContext ρ) (journal : ApprovalJournal)
    (now : String) : Option (Project ρ × NovelReply) :=
  if journal.bodyFingerprint ≠ ctx.bodyFingerprint lib ∨
      journal.authorityFingerprint ≠ ctx.authorityFingerprint then
    some (p, .refused .approvalTransactionStale)
  else if journal.state = .prepared then
    if chapterIsApproved ctx.chapter then some (finishPrepared lib p ctx journal now)
    else match journal.backup with
      | none => none
      | some transactionId => (p.backups transactionId).map (rollBack lib p transactionId)
  else none

/-! ## A new approval -/

structure ApprovalPlan where
  review : ReviewReceipt
  chapter : ChapterRecord
  settlement : SettlementOutput

def approvedRecord (chapter : ChapterRecord) (metadata : ChapterMetadata) : ChapterRecord :=
  { chapter with
    toChapterMetadata := metadata, status := ChapterLifecycleStatus.approved.asStr }

def checkApproval (m : Managed ρ) (ctx : ApprovalContext ρ) :
    Except ApprovalRefusal ApprovalPlan :=
  let status := ChapterLifecycleStatus.parse ctx.chapter.status
  if status ≠ .reviewPassed ∧ status ≠ .stateReady then
    .error (.invalidChapterLifecycleTransition status)
  else match ctx.review? lib with
    | none => .error .approvalRequiresCurrentReview
    | some review =>
        if !ctx.truthMatches lib then .error .approvalRequiresCurrentTruthValidation
        else if !m.acceptedBestCandidateMatches lib ctx.number ctx.authorityFingerprint
            (ctx.bodyFingerprint lib) then
          .error .approvalRequiresAcceptedBestCandidate
        else match m.readPendingSettlement ctx.number with
          | none => .error .approvalRequiresStateSettlement
          | some settlement =>
              if !lib.validateSettlement ctx.chapter ctx.body ctx.authority settlement then
                .error .approvalRequiresValidStateSettlement
              else
                let (metadata, settlement) :=
                  lib.selectMetadata ctx.manifest ctx.chapter settlement ctx.body
                let chapter := { ctx.chapter with toChapterMetadata := metadata }
                let issues := ((ctx.manifest.latestTruthValidation ctx.number).map
                  (·.issues)).getD []
                if lib.metadataBlocks ctx.manifest chapter ctx.body then
                  .error .approvalMetadataBlocked
                else if (lib.qualityGate m ctx.manifest {} chapter ctx.body
                    issues).blocksApprovalAfterBoundedRecovery then
                  .error .approvalRequiresQualityGate
                else .ok ⟨review, approvedRecord ctx.chapter metadata, settlement⟩

def shouldWriteAutoChapterSnapshot (number : Nat) : Bool := number == 1 || number % 5 == 0

def autoSnapshotId (number : Nat) : String := s!"chapter-{padded number}-approved"

def prepareApproval (p : Project ρ) (ctx : ApprovalContext ρ) (transactionId : String) :
    Project ρ × ApprovalJournal :=
  let journal : ApprovalJournal :=
    ⟨transactionId, .prepared, ctx.bodyFingerprint lib, ctx.authorityFingerprint, "",
      some transactionId⟩
  ({ p with
    managed := writeApprovalJournal p.managed ctx.number journal
    backups := Function.update p.backups transactionId (some p.managed) }, journal)

def deltaOf (manifest : NovelProjectManifest ρ) (chapter : ChapterRecord)
    (settlement : SettlementOutput) : ApprovedChapterDelta where
  number := chapter.number
  title := chapter.title
  summary := settlement.chapterSummary
  unitCount := chapter.unitCount
  continuityUpdates := settlement.continuityUpdates
  characterRegistrations := ((manifest.chapterContracts.find?
    (·.number == chapter.number)).map (·.characterRegistrations)).getD []
  stateChanges := settlement.stateChanges

def promotedManifest (ctx : ApprovalContext ρ) (chapter : ChapterRecord) :
    NovelProjectManifest ρ :=
  let manifest := ctx.manifest.setChapter ctx.number fun _ => chapter
  let promoted := lib.promoteRegistrations manifest ctx.number ctx.body
  { manifest with storyBible := promoted.1, records := promoted.2 }

/-- The manifest after the settlement was applied to the truth. -/
def settledManifest (m : Managed ρ) (manifest : NovelProjectManifest ρ) (chapter : ChapterRecord)
    (settlement : SettlementOutput) (now : String) : NovelProjectManifest ρ :=
  let refresh := refreshTruthRecord lib m now
  let manifest := if isBlank settlement.chapterSummary then manifest
    else refresh "chapter_summaries" manifest
  let delta := deltaOf manifest chapter settlement
  let manifest := { manifest with
    storyBible := manifest.storyBible.map (updateStoryBibleAfterApprovedChapter · (delta, now)) }
  let manifest := if manifest.storyBible.isSome then
      refresh "pending_hooks" (refresh "current_state" manifest)
    else manifest
  refresh "continuity_index"
    { manifest with records := lib.recordReports "approval" manifest chapter.number }

def upsertAutoChapterSnapshot (p : Project ρ) (manifest : NovelProjectManifest ρ) (number : Nat) :
    Project ρ :=
  let id := autoSnapshotId number
  { p with
    managed := lib.writeManifest p.managed { manifest with
      snapshots := (manifest.snapshots.filter (· != id) ++ [id]).insertionSort (· ≤ ·) }
    snapshots := Function.update p.snapshots id (some p.managed.withoutExports) }

def installApproval (m : Managed ρ) (ctx : ApprovalContext ρ) (plan : ApprovalPlan) : Managed ρ :=
  syncChapterRecordFile lib { m with
    approvedSettlements :=
      Function.update m.approvedSettlements ctx.number (some plan.settlement) } plan.chapter

def installedValid (m : Managed ρ) (ctx : ApprovalContext ρ) (plan : ApprovalPlan) : Bool :=
  (lib.bodyOf m plan.chapter).any
    (lib.validateSettlement plan.chapter · ctx.authority plan.settlement)

def approvedManifest (m : Managed ρ) (ctx : ApprovalContext ρ) (plan : ApprovalPlan)
    (now : String) : NovelProjectManifest ρ :=
  settledManifest lib m (promotedManifest lib ctx plan.chapter) plan.chapter plan.settlement now

def receiptOf (m : Managed ρ) (ctx : ApprovalContext ρ) (plan : ApprovalPlan)
    (transactionId now : String) : ApprovalReceipt :=
  buildApprovalReceipt lib ctx transactionId plan.chapter plan.review plan.settlement
    (lib.approvalTruthFingerprint (approvedManifest lib m ctx plan now)) now

def committedProject (p : Project ρ) (installed : Managed ρ) (ctx : ApprovalContext ρ)
    (plan : ApprovalPlan) (journal : ApprovalJournal) (now : String) : Project ρ :=
  commitJournal
    { p with managed := lib.writeManifest installed (approvedManifest lib installed ctx plan now) }
    ctx.number journal (receiptOf lib installed ctx plan journal.transactionId now)

/-- What follows the commit: a checkpoint now and then, and the export. -/
def afterCommit (p : Project ρ) (manifest : NovelProjectManifest ρ) (number : Nat) : Project ρ :=
  let p := if shouldWriteAutoChapterSnapshot number then
      upsertAutoChapterSnapshot lib p manifest number
    else p
  { p with managed := { p.managed with exports := lib.readableExport p.managed } }

def commitApproval (p : Project ρ) (ctx : ApprovalContext ρ) (plan : ApprovalPlan)
    (journal : ApprovalJournal) (now : String) : Project ρ × NovelReply :=
  let m := installApproval lib p.managed ctx plan
  if installedValid lib m ctx plan = false then
    ({ p with managed := m }, .failed s!"approved chapter {ctx.number} settlement is invalid")
  else
    (afterCommit lib (committedProject lib p m ctx plan journal now)
        (approvedManifest lib m ctx plan now) ctx.number,
      .approved (receiptOf lib m ctx plan journal.transactionId now))

/-- An interrupted transaction keeps its name. -/
def approvalTransactionId (m : Managed ρ) (number : Nat) (freshId : String) : String :=
  match m.journals number with
  | some journal => if journal.state = .prepared then journal.transactionId else freshId
  | none => freshId

def newApproval (p : Project ρ) (ctx : ApprovalContext ρ) (now freshId : String) :
    Project ρ × NovelReply :=
  match checkApproval lib p.managed ctx with
  | .error refusal => (p, .refused refusal)
  | .ok plan =>
      let (p, journal) := prepareApproval lib p ctx
        (approvalTransactionId p.managed ctx.number freshId)
      commitApproval lib p ctx plan journal now

def approveChapter (p : Project ρ) (chapterNumber : Option Nat) (now freshId : String) :
    Project ρ × NovelReply :=
  match approvalContext lib p.managed chapterNumber with
  | .error error => (p, .failed error)
  | .ok ctx =>
      match p.managed.receipts ctx.number with
      | some receipt => replayApproval lib p ctx receipt
      | none =>
          match (p.managed.journals ctx.number).bind
            fun journal => recoverApproval lib p ctx journal now with
          | some recovered => recovered
          | none => newApproval lib p ctx now freshId

/-! ## What an approval reads -/

section

variable {ρ : Type} {lib : NovelLibrary ρ} {m : Managed ρ} {ctx : ApprovalContext ρ}
  {chapterNumber : Option Nat}

/-- What an approval has read when it starts. -/
structure ApprovalContext.ReadFrom (lib : NovelLibrary ρ) (m : Managed ρ)
    (ctx : ApprovalContext ρ) : Prop where
  manifest : ctx.manifest = lib.readManifest m
  chapter : ctx.manifest.chapter? ctx.number = some ctx.chapter
  body : lib.bodyOf m ctx.chapter = some ctx.body
  authority : m.readSealedChapterAuthority lib ctx.manifest ctx.number = .ok ctx.authority

theorem approvalContext_ok (h : approvalContext lib m chapterNumber = .ok ctx) :
    chapterNumber.or (lib.readManifest m).latestChapterNumber = some ctx.number ∧
      ctx.ReadFrom lib m := by
  unfold approvalContext at h
  dsimp only at h
  split at h
  · cases h
  rename_i number hnumber
  split at h
  · cases h
  rename_i chapter hchapter
  split at h
  · cases h
  rename_i body hbody
  split at h
  · cases h
  rename_i authority hauthority
  cases h
  exact ⟨hnumber, rfl, hchapter, hbody, hauthority⟩

theorem approvalContext_eq (h : ctx.ReadFrom lib m) :
    approvalContext lib m (some ctx.number) = .ok ctx := by
  rcases h with ⟨hmanifest, hchapter, hbody, hauthority⟩
  rcases ctx with ⟨number, manifest, chapter, body, authority⟩
  dsimp only at hmanifest hchapter hbody hauthority
  subst hmanifest
  unfold approvalContext
  dsimp only [Option.some_or]
  rw [hchapter]
  dsimp only
  rw [hbody]
  dsimp only
  rw [hauthority]

theorem authority_of_readSealed {manifest : NovelProjectManifest ρ} {number : Nat}
    {authority : SealedChapterAuthority}
    (h : m.readSealedChapterAuthority lib manifest number = .ok authority) :
    ∃ record, manifest.contextPackages.find? (fun record =>
        record.number == number && record.sealed) = some record ∧
      authority.authorityRootFingerprint = record.authorityRootFingerprint := by
  unfold Managed.readSealedChapterAuthority at h
  cases hrequired : manifest.requireSealedChapterAuthority number with
  | error error =>
      rw [hrequired] at h
      cases h
  | ok record =>
      rw [hrequired] at h
      simp only [bind, Except.bind] at h
      have hroot : authority.authorityRootFingerprint = record.authorityRootFingerprint := by
        split at h
        · cases h
        · split at h
          · cases h
          · rename_i hagrees
            cases h
            simpa using (not_or.mp (not_or.mp hagrees).2).2
      refine ⟨record, ?_, hroot⟩
      unfold NovelProjectManifest.requireSealedChapterAuthority at hrequired
      split at hrequired
      · cases hrequired
      · rename_i found hfound
        split at hrequired
        · cases hrequired
        · cases hrequired
          exact hfound

end

end BenShu.Novel
