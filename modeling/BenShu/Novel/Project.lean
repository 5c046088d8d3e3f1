import BenShu.Novel.Lifecycle
import BenShu.Novel.StoryBible
import Mathlib.Logic.Function.Basic

/-!
# Novel projects

The records and files of a project, and what is read from them. Texts are judged, selected and
rendered by a library of functions; what depends on which files there are is spelled out.
-/

namespace BenShu.Novel

def isBlank (s : String) : Bool := (Text.trim s).isEmpty

/-! ## Records -/

inductive ChapterFindingDisposition where
  | hardBlock
  | deterministicRepair
  | warning
  deriving DecidableEq, Repr

inductive FindingEvidenceGrade where
  | deterministicInvariant
  | evidenceBackedSemantic
  | heuristic
  deriving DecidableEq, Repr

structure ChapterFinding where
  code : String
  disposition : ChapterFindingDisposition
  evidenceGrade : FindingEvidenceGrade
  message : String
  authorityEvidence : List (String × String)
  bodyEvidence : List (Nat × Nat × String)
  authorityFingerprint : String
  bodyFingerprint : String
  deriving DecidableEq, Repr

def ChapterFinding.hardBlocking (finding : ChapterFinding) : Bool :=
  finding.disposition == .hardBlock &&
    match finding.evidenceGrade with
    | .deterministicInvariant => true
    | .evidenceBackedSemantic =>
        !finding.authorityFingerprint.isEmpty && !finding.bodyFingerprint.isEmpty &&
          !finding.authorityEvidence.isEmpty && !finding.bodyEvidence.isEmpty
    | .heuristic => false

structure ChapterQualityGate where
  passed : Bool
  findings : List ChapterFinding
  warnings : List String
  deriving DecidableEq, Repr

def ChapterQualityGate.blocksApprovalAfterBoundedRecovery (gate : ChapterQualityGate) : Bool :=
  gate.findings.any fun finding =>
    finding.hardBlocking ||
      (finding.disposition == .deterministicRepair && finding.code != "length_below_target")

structure ChapterMetadata where
  title : String
  summary : String
  keyFacts : List String
  continuityUpdates : List String
  unitCount : Nat
  deriving DecidableEq, Repr

structure ChapterRecord extends ChapterMetadata where
  number : Nat
  path : String
  status : String
  deriving DecidableEq, Repr

structure ReviewReceipt where
  chapterNumber : Nat
  chapterFingerprint : String
  authorityFingerprint : String
  findings : List ChapterFinding
  advisories : List String
  score : Option Nat
  locallyValidated : Bool
  verdict : String
  issues : List String
  feedback : String
  createdAt : String
  deriving DecidableEq, Repr

structure TruthValidationRecord where
  chapterNumber : Nat
  chapterFingerprint : String
  verdict : String
  issues : List String
  deriving DecidableEq, Repr

/-- A package is sealed with the fingerprint of its authority. -/
structure ContextPackageRecord where
  number : Nat
  path : String
  authorityRootFingerprint : String
  sealed : Bool
  coverageComplete : Bool
  rooted : sealed = true → isBlank authorityRootFingerprint = false

structure ChapterContractRecord where
  number : Nat
  characterRegistrations : List ChapterCharacterRegistration
  deriving DecidableEq, Repr

structure TruthFileRecord where
  sectionName : String
  unitCount : Nat
  updatedAt : String
  deriving DecidableEq, Repr

/-- The manifest of a project, with records of type `ρ` that are not looked into. -/
structure NovelProjectManifest (ρ : Type) where
  contractReady : Bool
  chapters : List ChapterRecord := []
  reviews : List ReviewReceipt := []
  truthValidations : List TruthValidationRecord := []
  contextPackages : List ContextPackageRecord := []
  chapterContracts : List ChapterContractRecord := []
  truthFiles : List TruthFileRecord := []
  storyBible : Option StoryBible := none
  snapshots : List String := []
  exportWhenComplete : Bool := false
  records : ρ

structure SealedChapterAuthority where
  schemaVersion : String
  chapterNumber : Nat
  authorityRootFingerprint : String
  protectedPayload : String
  deriving DecidableEq, Repr

structure SettlementOutput where
  chapterFingerprint : String
  bodyFingerprint : String
  authorityFingerprint : String
  stateChanges : List ChapterStateChange
  chapterSummary : String
  continuityUpdates : List String
  resolvedHooks : List String
  deriving DecidableEq, Repr

structure ApprovalReceipt where
  transactionId : String
  chapterNumber : Nat
  bodyFingerprint : String
  metadataFingerprint : String
  authorityFingerprint : String
  reviewFingerprint : String
  settlementFingerprint : String
  truthFingerprint : String
  committedAt : String
  legacy : Bool
  deriving DecidableEq, Repr

inductive ApprovalJournalState where
  | prepared
  | committed
  deriving DecidableEq, Repr

structure ApprovalJournal where
  transactionId : String
  state : ApprovalJournalState
  bodyFingerprint : String
  authorityFingerprint : String
  committedAt : String
  /-- The transaction whose backup the journal names. -/
  backup : Option String
  deriving DecidableEq, Repr

structure DraftCandidateRecord where
  authorityFingerprint : String
  bodyFingerprint : String
  content : String
  acceptedAsBest : Bool
  deriving DecidableEq, Repr

/-! ## Files -/

/-- The files that a snapshot copies. -/
structure Managed (ρ : Type) where
  manifest : NovelProjectManifest ρ
  chapterFiles : String → Option String := fun _ => none
  authorities : String → Option SealedChapterAuthority := fun _ => none
  pendingSettlements : Nat → Option SettlementOutput := fun _ => none
  legacySettlements : Nat → Option SettlementOutput := fun _ => none
  approvedSettlements : Nat → Option SettlementOutput := fun _ => none
  receipts : Nat → Option ApprovalReceipt := fun _ => none
  journals : Nat → Option ApprovalJournal := fun _ => none
  bestCandidates : Nat → Option DraftCandidateRecord := fun _ => none
  draftCandidates : Nat → List DraftCandidateRecord := fun _ => []
  exports : String → Option String := fun _ => none

/-- A project with its snapshots and the backups of its approvals. -/
structure Project (ρ : Type) where
  managed : Managed ρ
  snapshots : String → Option (Managed ρ) := fun _ => none
  backups : String → Option (Managed ρ) := fun _ => none

structure NovelStudioArgs where
  chapterNumber : Option Nat := none
  content : String := ""
  chapterTitle : String := ""
  summary : String := ""
  keyFacts : List String := []
  continuityUpdates : List String := []
  status : String := ""
  revisionNotes : String := ""
  feedback : String := ""
  verdict : String := ""
  issues : List String := []
  advisories : List String := []
  findings : List ChapterFinding := []
  score : Option Nat := none
  candidateOnly : Bool := false
  observerAttemptsExhausted : Bool := false

/-- Fingerprints, and the functions that judge, select and render texts. -/
structure NovelLibrary (ρ : Type) where
  bodyFingerprint : String → String
  reviewFingerprint : ReviewReceipt → String
  settlementFingerprint : SettlementOutput → String
  metadataFingerprint : ChapterMetadata → String
  truthFingerprint : List TruthFileRecord → Option StoryBible → String
  stripFrontmatter : String → String
  normalizeChapterBody : String → String → String
  renderChapterFile : ChapterRecord → String → String
  sanitizeSavedProse : String → String
  cleanList : List String → List String
  sealedAuthorityVersion : String
  ensureProjectGovernance : NovelProjectManifest ρ → Option StoryBible × ρ
  nextChapter : Managed ρ → Nat
  draftChapter : NovelProjectManifest ρ → NovelStudioArgs → Nat → ChapterMetadata × String
  reviseChapter : NovelProjectManifest ρ → NovelStudioArgs → ChapterRecord → String →
    ChapterMetadata × String
  validateTruth : ChapterRecord → String → String × List String
  qualityGate : Managed ρ → NovelProjectManifest ρ → NovelStudioArgs → ChapterRecord → String →
    List String → ChapterQualityGate
  settleFromBody : NovelStudioArgs → String → ChapterRecord → SealedChapterAuthority →
    SettlementOutput × Bool
  validateSettlement : ChapterRecord → String → SealedChapterAuthority → SettlementOutput → Bool
  selectMetadata : NovelProjectManifest ρ → ChapterRecord → SettlementOutput → String →
    ChapterMetadata × SettlementOutput
  metadataBlocks : NovelProjectManifest ρ → ChapterRecord → String → Bool
  promoteRegistrations : NovelProjectManifest ρ → Nat → String → Option StoryBible × ρ
  discardRegistrations : NovelProjectManifest ρ → Nat → ρ
  recordReports : String → NovelProjectManifest ρ → Nat → ρ
  truthUnits : Managed ρ → NovelProjectManifest ρ → String → Nat
  readableExport : Managed ρ → String → Option String

variable {ρ : Type} (lib : NovelLibrary ρ)

/-! ## The manifest -/

def NovelLibrary.govern (manifest : NovelProjectManifest ρ) : NovelProjectManifest ρ :=
  let governed := lib.ensureProjectGovernance manifest
  { manifest with storyBible := governed.1, records := governed.2 }

def NovelLibrary.readManifest (m : Managed ρ) : NovelProjectManifest ρ := lib.govern m.manifest

def NovelLibrary.writeManifest (m : Managed ρ) (manifest : NovelProjectManifest ρ) : Managed ρ :=
  { m with manifest := lib.govern manifest }

namespace NovelProjectManifest

variable (manifest : NovelProjectManifest ρ)

def chapter? (number : Nat) : Option ChapterRecord :=
  manifest.chapters.find? (·.number == number)

def latestChapterNumber : Option Nat := (manifest.chapters.map (·.number)).max?

def setChapter (number : Nat) (f : ChapterRecord → ChapterRecord) : NovelProjectManifest ρ :=
  { manifest with
    chapters := FirstMatch.modifyFirst (·.number == number) f manifest.chapters }

def upsertTruthRecord (record : TruthFileRecord) : NovelProjectManifest ρ :=
  { manifest with
    truthFiles := (manifest.truthFiles.filter (·.sectionName != record.sectionName) ++
      [record]).insertionSort fun truth later => truth.sectionName ≤ later.sectionName }

def upsertTruthValidationRecord (record : TruthValidationRecord) : NovelProjectManifest ρ :=
  { manifest with
    truthValidations := (manifest.truthValidations.filter
      (·.chapterNumber != record.chapterNumber) ++ [record]).insertionSort
        fun validation later => validation.chapterNumber ≤ later.chapterNumber }

def requireSealedChapterAuthority (number : Nat) : Except String ContextPackageRecord :=
  match manifest.contextPackages.find? fun record => record.number == number && record.sealed with
  | none => .error
      s!"chapter {number} has no sealed authority; normal prose persistence is blocked"
  | some record =>
      if isBlank record.authorityRootFingerprint || !record.coverageComplete then
        .error s!"chapter {number} sealed authority has incomplete protected coverage"
      else .ok record

def latestReview (number : Nat) : Option ReviewReceipt :=
  manifest.reviews.reverse.find? (·.chapterNumber == number)

def latestTruthValidation (number : Nat) : Option TruthValidationRecord :=
  manifest.truthValidations.reverse.find? (·.chapterNumber == number)

end NovelProjectManifest

def chapterIsApproved (chapter : ChapterRecord) : Bool := statusIsApproved chapter.status

def NovelProjectManifest.latestApproved (manifest : NovelProjectManifest ρ) : Option Nat :=
  ((manifest.chapters.filter chapterIsApproved).map (·.number)).max?

def ReviewReceipt.passes (review : ReviewReceipt) (bodyFingerprint authorityFingerprint : String) :
    Bool :=
  review.verdict == "passed" && review.locallyValidated &&
    review.chapterFingerprint == bodyFingerprint &&
    review.authorityFingerprint == authorityFingerprint &&
    review.findings.all fun finding => !finding.hardBlocking

def NovelProjectManifest.latestPassingReview (manifest : NovelProjectManifest ρ) (number : Nat)
    (bodyFingerprint authorityFingerprint : String) : Option ReviewReceipt :=
  (manifest.latestReview number).filter (·.passes bodyFingerprint authorityFingerprint)

def TruthValidationRecord.passes (record : TruthValidationRecord) : Bool :=
  record.verdict == "passed" && record.issues.isEmpty

def NovelLibrary.approvalTruthFingerprint (manifest : NovelProjectManifest ρ) : String :=
  lib.truthFingerprint manifest.truthFiles manifest.storyBible

/-! ## Reading files -/

def padded (number : Nat) : String :=
  let digits := toString number
  String.ofList (List.replicate (4 - digits.length) '0') ++ digits

def stableChapterPath (number : Nat) : String := "chapters/" ++ padded number ++ ".md"

namespace Managed

variable (m : Managed ρ)

def readSealedChapterAuthority (manifest : NovelProjectManifest ρ) (number : Nat) :
    Except String SealedChapterAuthority := do
  let record ← manifest.requireSealedChapterAuthority number
  match m.authorities record.path with
  | none => .error "No such file or directory"
  | some authority =>
      if authority.schemaVersion ≠ lib.sealedAuthorityVersion ∨
          authority.chapterNumber ≠ number ∨
          authority.authorityRootFingerprint ≠ record.authorityRootFingerprint then
        .error s!"chapter {number} sealed authority does not match its manifest record"
      else .ok authority

def readPendingSettlement (number : Nat) : Option SettlementOutput :=
  (m.pendingSettlements number).or (m.legacySettlements number)

def candidateMatches (authorityFingerprint bodyFingerprint : String)
    (candidate : DraftCandidateRecord) : Bool :=
  candidate.acceptedAsBest && candidate.authorityFingerprint == authorityFingerprint &&
    candidate.bodyFingerprint == bodyFingerprint &&
    lib.bodyFingerprint candidate.content == bodyFingerprint

def acceptedBestCandidateMatches (number : Nat) (authorityFingerprint bodyFingerprint : String) :
    Bool :=
  match m.bestCandidates number with
  | some candidate => candidateMatches lib authorityFingerprint bodyFingerprint candidate
  | none =>
      (m.draftCandidates number).any (candidateMatches lib authorityFingerprint bodyFingerprint)

end Managed

def NovelLibrary.chapterBody (raw title : String) : String :=
  lib.normalizeChapterBody (lib.stripFrontmatter raw) title

def NovelLibrary.bodyOf (m : Managed ρ) (chapter : ChapterRecord) : Option String :=
  (m.chapterFiles chapter.path).map (lib.chapterBody · chapter.title)

end BenShu.Novel
