import BenShu.Novel.Approval

/-!
# The actions on a chapter

Drafting, revising, reviewing, auditing, settling and rejecting a chapter. Each reads the
manifest, works on one chapter and writes the manifest back; an action that fails its checks
leaves the files as they were.
-/

namespace BenShu.Novel

variable {ρ : Type} (lib : NovelLibrary ρ)

def maxSingleTextBytes : Nat := 8 * 1024 * 1024

def ensureTextSize (text field : String) : Except String Unit :=
  if maxSingleTextBytes < text.utf8ByteSize then
    .error s!"{field} exceeds the 8MB single-call safety limit"
  else .ok ()

/-- The chapter that the arguments name, or the latest. -/
def requireChapter (manifest : NovelProjectManifest ρ) (chapterNumber : Option Nat) :
    Except String ChapterRecord :=
  match chapterNumber.or manifest.latestChapterNumber with
  | none => .error "no chapter exists in this project"
  | some number =>
      match manifest.chapter? number with
      | none => .error s!"chapter {number} not found"
      | some chapter => .ok chapter

def requireAuthorityIf (asked : Bool) (manifest : NovelProjectManifest ρ) (number : Nat) :
    Except String Unit :=
  if asked then (manifest.requireSealedChapterAuthority number).map fun _ => () else .ok ()

def truthValidationOf (chapter : ChapterRecord) (content : String) : TruthValidationRecord where
  chapterNumber := chapter.number
  chapterFingerprint := lib.bodyFingerprint content
  verdict := (lib.validateTruth chapter content).1
  issues := (lib.validateTruth chapter content).2

def withStatus (chapter : ChapterRecord) (status : ChapterLifecycleStatus) : ChapterRecord :=
  { chapter with status := status.asStr }

def NovelProjectManifest.putChapter (manifest : NovelProjectManifest ρ) (record : ChapterRecord) :
    NovelProjectManifest ρ :=
  { manifest with
    chapters := (manifest.chapters.filter (·.number != record.number) ++
      [record]).insertionSort fun chapter later => chapter.number ≤ later.number }

def reported (stage : String) (manifest : NovelProjectManifest ρ) (number : Nat) :
    NovelProjectManifest ρ :=
  { manifest with records := lib.recordReports stage manifest number }

def syncReadableExport (m : Managed ρ) : Managed ρ := { m with exports := lib.readableExport m }

/-! ## Drafting -/

/-- The record and the body of a new draft, and whether it passes its gate. -/
def draftOf (m : Managed ρ) (manifest : NovelProjectManifest ρ) (args : NovelStudioArgs)
    (number : Nat) : ChapterRecord × String × Bool :=
  let path := ((manifest.chapter? number).map (·.path)).getD (stableChapterPath number)
  let (metadata, content) := lib.draftChapter manifest args number
  let record := withStatus { metadata with number := number, path := path, status := "" } .draft
  let validation := truthValidationOf lib record content
  let gate := lib.qualityGate m (manifest.upsertTruthValidationRecord validation) args record
    content validation.issues
  (record, content, gate.passed)

def keptDraft (drafted : ChapterRecord × String × Bool) : ChapterRecord :=
  if drafted.2.2 then drafted.1 else withStatus drafted.1 .needsRevision

def writeNewDraft (m : Managed ρ) (args : NovelStudioArgs) (number : Nat) (now : String) :
    Managed ρ :=
  let manifest := lib.readManifest m
  let drafted := draftOf lib m manifest args number
  let content := drafted.2.1
  let manifest := manifest.upsertTruthValidationRecord (truthValidationOf lib drafted.1 content)
  let record := keptDraft drafted
  let m := writeChapterRecord lib m record content
  let manifest := refreshTruthRecord lib m now "continuity_index" (manifest.putChapter record)
  syncReadableExport lib (lib.writeManifest m (reported lib "draft" manifest number))

def addDraft (sealed : Bool) (m : Managed ρ) (args : NovelStudioArgs) (now : String) :
    Managed ρ × NovelReply :=
  let content := lib.sanitizeSavedProse args.content
  let manifest := lib.readManifest m
  let number := args.chapterNumber.getD (lib.nextChapter m)
  match ensureTextSize content "content" with
  | .error error => (m, .failed error)
  | .ok () =>
      if isBlank content then (m, .failed "content is required for add_chapter")
      else match requireAuthorityIf sealed manifest number with
        | .error error => (m, .failed error)
        | .ok () => (writeNewDraft lib m args number now, .written)

def addChapter : Managed ρ → NovelStudioArgs → String → Managed ρ × NovelReply :=
  addDraft lib false

def writeDraft : Managed ρ → NovelStudioArgs → String → Managed ρ × NovelReply :=
  addDraft lib true

/-! ## Revising -/

def metadataRevision (args : NovelStudioArgs) : Bool :=
  !isBlank args.summary || !args.keyFacts.isEmpty || !args.continuityUpdates.isEmpty ||
    !isBlank args.chapterTitle || !isBlank args.status || !isBlank args.revisionNotes ||
    !isBlank args.feedback

def firstNonEmpty : List String → String
  | [] => ""
  | text :: texts => if isBlank text then firstNonEmpty texts else text

def revisionNote (args : NovelStudioArgs) (number : Nat) (content authorityFingerprint
    now : String) : ReviewReceipt where
  chapterNumber := number
  chapterFingerprint := lib.bodyFingerprint content
  authorityFingerprint := authorityFingerprint
  findings := []
  advisories := []
  score := none
  locallyValidated := false
  verdict := "revision_note"
  issues := []
  feedback := firstNonEmpty [args.revisionNotes, args.feedback]
  createdAt := now

def revisionOf (m : Managed ρ) (manifest : NovelProjectManifest ρ) (args : NovelStudioArgs)
    (chapter : ChapterRecord) : ChapterRecord × String :=
  let existing := lib.chapterBody ((m.chapterFiles chapter.path).getD "") chapter.title
  let content := if isBlank args.content then existing else lib.sanitizeSavedProse args.content
  let (metadata, content) := lib.reviseChapter manifest args chapter content
  (withStatus { chapter with toChapterMetadata := metadata } .draft, content)

/-- A new body makes the pending settlement stale; a body that fails its gate is marked. -/
def writeRevision (m : Managed ρ) (manifest : NovelProjectManifest ρ) (args : NovelStudioArgs)
    (record : ChapterRecord) (content now : String) : Managed ρ × NovelProjectManifest ρ :=
  let number := record.number
  let validation := truthValidationOf lib record content
  let m := writeChapterRecord lib m record content
  let manifest := (refreshTruthRecord lib m now "continuity_index"
    (manifest.setChapter number fun _ => record)).upsertTruthValidationRecord validation
  let gate := lib.qualityGate m manifest {} record content validation.issues
  if isBlank args.content then (m, reported lib "revision" manifest number)
  else
    let m := { m with pendingSettlements := Function.update m.pendingSettlements number none }
    if gate.passed then (m, reported lib "revision" manifest number)
    else
      let record := withStatus record .needsRevision
      (writeChapterRecord lib m record content,
        reported lib "revision" (manifest.setChapter number fun _ => record) number)

/-- A note needs a sealed authority, and is written after the file. -/
def storeRevision (m : Managed ρ) (args : NovelStudioArgs) (chapter : ChapterRecord)
    (now : String) : Managed ρ × NovelReply :=
  let manifest := lib.readManifest m
  let (record, content) := revisionOf lib m manifest args chapter
  let (m, revised) := writeRevision lib m manifest args record content now
  if isBlank args.revisionNotes ∧ isBlank args.feedback then
    (syncReadableExport lib (lib.writeManifest m revised), .written)
  else match manifest.requireSealedChapterAuthority chapter.number with
    | .error error => (m, .failed error)
    | .ok package =>
        let note := revisionNote lib args chapter.number content package.authorityRootFingerprint
          now
        let revised := { revised with reviews := revised.reviews ++ [note] }
        (syncReadableExport lib (lib.writeManifest m revised), .written)

def reviseWith (sealed : Bool) (m : Managed ρ) (args : NovelStudioArgs) (now : String) :
    Managed ρ × NovelReply :=
  let manifest := lib.readManifest m
  match ensureTextSize args.content "content" with
  | .error error => (m, .failed error)
  | .ok () =>
      match requireChapter manifest args.chapterNumber with
      | .error error => (m, .failed error)
      | .ok chapter =>
          match requireAuthorityIf sealed manifest chapter.number with
          | .error error => (m, .failed error)
          | .ok () =>
              if isBlank args.content ∧ metadataRevision args = false then
                (m, .failed "content or revision metadata is required for revise_chapter")
              else if args.candidateOnly then (m, .evaluated)
              else storeRevision lib m args chapter now

def reviseChapter : Managed ρ → NovelStudioArgs → String → Managed ρ × NovelReply :=
  reviseWith lib false

def reviseDraft : Managed ρ → NovelStudioArgs → String → Managed ρ × NovelReply :=
  reviseWith lib true

/-! ## Reviewing -/

def sortedDistinct (texts : List String) : List String := (texts.insertionSort (· ≤ ·)).dedup

/-- The findings of a gate and those of the arguments that it bears out. -/
def reviewFindings (args : NovelStudioArgs) (bodyFingerprint authorityFingerprint : String)
    (gate : ChapterQualityGate) : List ChapterFinding :=
  let locallyHardCodes := (gate.findings.filter (·.hardBlocking)).map (·.code)
  gate.findings ++ args.findings.filter fun finding =>
    finding.hardBlocking && locallyHardCodes.contains finding.code &&
      finding.authorityFingerprint == authorityFingerprint &&
      finding.bodyFingerprint == bodyFingerprint &&
      !finding.authorityEvidence.isEmpty && !finding.bodyEvidence.isEmpty

def buildLocalReviewRecord (args : NovelStudioArgs) (chapter : ChapterRecord)
    (body authorityFingerprint : String) (gate : ChapterQualityGate) (now : String) :
    ReviewReceipt :=
  let bodyFingerprint := lib.bodyFingerprint body
  let findings := reviewFindings args bodyFingerprint authorityFingerprint gate
  { chapterNumber := chapter.number
    chapterFingerprint := bodyFingerprint
    authorityFingerprint := authorityFingerprint
    findings := findings
    advisories := sortedDistinct
      (gate.warnings ++ lib.cleanList args.advisories ++ lib.cleanList args.issues)
    score := args.score
    locallyValidated := true
    verdict :=
      if Text.toAsciiLowercase (Text.trim args.verdict) == "rejected" then "rejected"
      else if findings.all fun finding => !finding.hardBlocking then "passed"
      else "needs_revision"
    issues := sortedDistinct ((findings.filter (·.hardBlocking)).map (·.message))
    feedback := Text.trim args.feedback
    createdAt := now }

/-- A review, with the status that its verdict gives the chapter. -/
def storeVerdict (stage : String) (statusOf : String → ChapterLifecycleStatus) (m : Managed ρ)
    (chapter : ChapterRecord) (body : String) (package : ContextPackageRecord)
    (args : NovelStudioArgs) (now : String) : Managed ρ × NovelReply :=
  let validation := truthValidationOf lib chapter body
  let manifest := (lib.readManifest m).upsertTruthValidationRecord validation
  let gate := lib.qualityGate m manifest {} chapter body validation.issues
  let review := buildLocalReviewRecord lib args chapter body package.authorityRootFingerprint gate
    now
  let manifest := manifest.setChapter chapter.number (withStatus · (statusOf review.verdict))
  let manifest := { manifest with reviews := manifest.reviews ++ [review] }
  (lib.writeManifest m (reported lib stage manifest chapter.number), .written)

def judgeChapter (stage : String) (statusOf : String → ChapterLifecycleStatus) (m : Managed ρ)
    (args : NovelStudioArgs) (now : String) : Managed ρ × NovelReply :=
  let manifest := lib.readManifest m
  match requireChapter manifest args.chapterNumber with
  | .error error => (m, .failed error)
  | .ok chapter =>
      match lib.bodyOf m chapter with
      | none => (m, .failed "No such file or directory")
      | some body =>
          match manifest.requireSealedChapterAuthority chapter.number with
          | .error error => (m, .failed error)
          | .ok package => storeVerdict lib stage statusOf m chapter body package args now

def reviewChapter : Managed ρ → NovelStudioArgs → String → Managed ρ × NovelReply :=
  judgeChapter lib "review" fun verdict =>
    if verdict = "passed" then .reviewPassed
    else if verdict = "rejected" then .rejected
    else .needsRevision

def auditChapter : Managed ρ → NovelStudioArgs → String → Managed ρ × NovelReply :=
  judgeChapter lib "audit" fun verdict =>
    if verdict = "passed" then .reviewPassed else .needsRevision

/-! ## Settling and rejecting -/

def storeSettlement (m : Managed ρ) (chapter : ChapterRecord) (body : String)
    (authority : SealedChapterAuthority) (args : NovelStudioArgs) : Managed ρ × NovelReply :=
  let (settlement, passed) := lib.settleFromBody args body chapter authority
  let manifest := (lib.readManifest m).setChapter chapter.number
    (withStatus · (if passed then .stateReady else .stateRepairRequired))
  let m := { m with
    pendingSettlements := Function.update m.pendingSettlements chapter.number (some settlement) }
  (lib.writeManifest m manifest, .written)

def settleChapterState (m : Managed ρ) (args : NovelStudioArgs) : Managed ρ × NovelReply :=
  let manifest := lib.readManifest m
  match requireChapter manifest args.chapterNumber with
  | .error error => (m, .failed error)
  | .ok chapter =>
      match lib.bodyOf m chapter with
      | none => (m, .failed "No such file or directory")
      | some body =>
          match m.readSealedChapterAuthority lib manifest chapter.number with
          | .error error => (m, .failed error)
          | .ok authority => storeSettlement lib m chapter body authority args

def storeRejection (m : Managed ρ) (chapter : ChapterRecord) : Managed ρ × NovelReply :=
  let record := withStatus chapter .rejected
  let manifest := (lib.readManifest m).setChapter chapter.number fun _ => record
  let manifest := { manifest with records := lib.discardRegistrations manifest chapter.number }
  (lib.writeManifest (syncChapterRecordFile lib m record) manifest, .written)

def rejectChapter (m : Managed ρ) (args : NovelStudioArgs) : Managed ρ × NovelReply :=
  let manifest := lib.readManifest m
  match requireChapter manifest args.chapterNumber with
  | .error error => (m, .failed error)
  | .ok chapter =>
      if chapterIsApproved chapter then (m, .refused .approvedChapterIsImmutable)
      else storeRejection lib m chapter

/-! ## One step -/

inductive NovelAction where
  | addChapter
  | writeDraft
  | reviseChapter
  | reviseDraft
  | reviewChapter
  | auditChapter
  | settleChapterState
  | rejectChapter
  | approveChapter
  deriving DecidableEq, Repr

/-- An action with what it is given: its arguments, the time and a fresh identifier. -/
structure NovelRequest where
  action : NovelAction
  args : NovelStudioArgs := {}
  now : String := ""
  freshId : String := ""

/-- What an action other than an approval does to the files that a snapshot copies. -/
def runOnFiles (request : NovelRequest) (m : Managed ρ) : Managed ρ × NovelReply :=
  match request.action with
  | .addChapter => addChapter lib m request.args request.now
  | .writeDraft => writeDraft lib m request.args request.now
  | .reviseChapter => reviseChapter lib m request.args request.now
  | .reviseDraft => reviseDraft lib m request.args request.now
  | .reviewChapter => reviewChapter lib m request.args request.now
  | .auditChapter => auditChapter lib m request.args request.now
  | .settleChapterState => settleChapterState lib m request.args
  | .rejectChapter => rejectChapter lib m request.args
  | .approveChapter => (m, .evaluated)

def runAction (p : Project ρ) (request : NovelRequest) : Project ρ × NovelReply :=
  if request.action = .approveChapter then
    approveChapter lib p request.args.chapterNumber request.now request.freshId
  else
    let (m, reply) := runOnFiles lib request p.managed
    ({ p with managed := m }, reply)

end BenShu.Novel
