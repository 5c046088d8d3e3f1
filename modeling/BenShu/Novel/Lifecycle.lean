import BenShu.Lib.Text

/-!
# The lifecycle of a chapter

How the status of a chapter is read, and which phase of the pipeline the facts about a
chapter call for.
-/

namespace BenShu.Novel

inductive ChapterLifecycleStatus where
  | draft
  | importedUnverified
  | needsRevision
  | reviewPassed
  | stateReady
  | stateRepairRequired
  | approved
  | rejected
  | cancelled
  | unknown
  deriving DecidableEq, Repr

namespace ChapterLifecycleStatus

def parse (status : String) : ChapterLifecycleStatus :=
  match Text.toAsciiLowercase (Text.trim status) with
  | "draft" | "drafted" | "revised" | "written" => .draft
  | "imported" | "imported_unverified" => .importedUnverified
  | "needs_revision" => .needsRevision
  | "audit_passed" | "reviewed_passed" | "review_passed" => .reviewPassed
  | "state_ready" => .stateReady
  | "state_repair_required" | "state-degraded" | "state_degraded" => .stateRepairRequired
  | "approved" | "final" | "accepted" => .approved
  | "rejected" | "discarded" | "deleted" => .rejected
  | "cancelled" => .cancelled
  | _ => .unknown

def asStr : ChapterLifecycleStatus → String
  | draft => "draft"
  | importedUnverified => "imported_unverified"
  | needsRevision => "needs_revision"
  | reviewPassed => "review_passed"
  | stateReady => "state_ready"
  | stateRepairRequired => "state_repair_required"
  | approved => "approved"
  | rejected => "rejected"
  | cancelled => "cancelled"
  | unknown => "unknown"

end ChapterLifecycleStatus

def statusIsApproved (status : String) : Bool :=
  ChapterLifecycleStatus.parse status == .approved

def statusIsRejected (status : String) : Bool :=
  ChapterLifecycleStatus.parse status == .rejected ||
    ChapterLifecycleStatus.parse status == .cancelled

def statusRequiresStateRepair (status : String) : Bool :=
  ChapterLifecycleStatus.parse status == .stateRepairRequired

/-! ## The pipeline -/

inductive NovelPhase where
  | sourceIntake
  | storyContract
  | contextPackage
  | chapterExecutionPackage
  | draft
  | audit
  | revision
  | truthSettlement
  | truthValidation
  | approval
  | snapshot
  | export
  deriving DecidableEq, Repr

structure NovelPipelineFacts where
  sourceIntakeRequested : Bool := false
  sourceReady : Bool := false
  contractReady : Bool := false
  contextReady : Bool := false
  executionPackageReady : Bool := false
  chapterExists : Bool := false
  chapterNeedsRevision : Bool := false
  chapterStateRepairRequired : Bool := false
  auditPassed : Bool := false
  settlementReady : Bool := false
  truthValidated : Bool := false
  chapterApproved : Bool := false
  snapshotRequested : Bool := false
  snapshotReady : Bool := false
  exportRequested : Bool := false
  exportReady : Bool := false
  deriving DecidableEq, Repr

structure NovelTransitionDecision where
  nextPhase : Option NovelPhase
  reason : String
  deriving DecidableEq, Repr

def nextTransition (facts : NovelPipelineFacts) : NovelTransitionDecision :=
  if facts.sourceIntakeRequested && !facts.sourceReady then
    ⟨some .sourceIntake, "requested source intake is incomplete"⟩
  else if !facts.contractReady then
    ⟨some .storyContract, "the authoritative story contract is not ready"⟩
  else if facts.chapterApproved then
    if facts.snapshotRequested && !facts.snapshotReady then
      ⟨some .snapshot, "the approved chapter requires a checkpoint"⟩
    else if facts.exportRequested && !facts.exportReady then
      ⟨some .export, "the project requested an export after approval"⟩
    else ⟨none, "the chapter pipeline is complete"⟩
  else if !facts.contextReady then
    ⟨some .contextPackage, "the chapter context package is missing"⟩
  else if !facts.executionPackageReady then
    ⟨some .chapterExecutionPackage, "the chapter execution package is missing"⟩
  else if !facts.chapterExists then
    ⟨some .draft, "the chapter draft does not exist"⟩
  else if facts.chapterStateRepairRequired then
    ⟨some .truthSettlement, "the final chapter body requires state repair before approval"⟩
  else if facts.chapterNeedsRevision then
    ⟨some .revision, "the chapter quality result requires revision"⟩
  else if !facts.auditPassed then
    ⟨some .audit, "the chapter has not passed audit"⟩
  else if !facts.settlementReady then
    ⟨some .truthSettlement, "the pending truth settlement is missing"⟩
  else if !facts.truthValidated then
    ⟨some .truthValidation, "the pending truth settlement is not validated"⟩
  else ⟨some .approval, "the chapter is ready for approval"⟩

/-- A phase that the first branch does not name is named by the other one. -/
theorem later_of_nextPhase {c : Prop} [Decidable c] {first later : NovelTransitionDecision}
    {phase : NovelPhase} (hfirst : first.nextPhase ≠ some phase)
    (h : (if c then first else later).nextPhase = some phase) :
    ¬c ∧ later.nextPhase = some phase := by
  by_cases hc : c
  · rw [if_pos hc] at h
    exact absurd h hfirst
  · rw [if_neg hc] at h
    exact ⟨hc, h⟩

theorem nextTransition_approval {facts : NovelPipelineFacts}
    (h : (nextTransition facts).nextPhase = some .approval) :
    facts.chapterExists = true ∧ facts.chapterApproved = false ∧
      facts.chapterStateRepairRequired = false ∧ facts.chapterNeedsRevision = false ∧
      facts.auditPassed = true ∧ facts.settlementReady = true ∧
      facts.truthValidated = true := by
  obtain ⟨-, h⟩ := later_of_nextPhase (by decide) h
  obtain ⟨-, h⟩ := later_of_nextPhase (by decide) h
  have hafter : ∀ {checkpoint wanted : Bool}, (if checkpoint = true then
      (⟨some .snapshot, "the approved chapter requires a checkpoint"⟩ : NovelTransitionDecision)
      else if wanted = true then ⟨some .export, "the project requested an export after approval"⟩
      else ⟨none, "the chapter pipeline is complete"⟩).nextPhase ≠ some .approval := by
    intro checkpoint wanted h
    obtain ⟨-, h⟩ := later_of_nextPhase (by decide) h
    obtain ⟨-, h⟩ := later_of_nextPhase (by decide) h
    cases h
  obtain ⟨hopen, h⟩ := later_of_nextPhase hafter h
  obtain ⟨-, h⟩ := later_of_nextPhase (by decide) h
  obtain ⟨-, h⟩ := later_of_nextPhase (by decide) h
  obtain ⟨hexists, h⟩ := later_of_nextPhase (by decide) h
  obtain ⟨hrepair, h⟩ := later_of_nextPhase (by decide) h
  obtain ⟨hrevision, h⟩ := later_of_nextPhase (by decide) h
  obtain ⟨haudit, h⟩ := later_of_nextPhase (by decide) h
  obtain ⟨hsettled, h⟩ := later_of_nextPhase (by decide) h
  obtain ⟨htruth, -⟩ := later_of_nextPhase (by decide) h
  rw [Bool.not_eq_true] at hopen hrepair hrevision
  simp only [Bool.not_eq_true, Bool.not_eq_false'] at hexists haudit hsettled htruth
  exact ⟨hexists, hopen, hrepair, hrevision, haudit, hsettled, htruth⟩

end BenShu.Novel
