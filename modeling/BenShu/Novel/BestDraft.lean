import BenShu.Novel.Project
import Mathlib.Data.Prod.Lex

/-!
# The best draft of a chapter

A draft replaces the best one so far where its quality vector is an improvement. The criteria of
an improvement compare different counts, so that drafts can replace one another in turn.
-/

namespace BenShu.Novel

inductive ChapterFindingClass where
  | contract
  | continuity
  | state
  | bodyIntegrity
  | length
  | metadata
  | advisory
  deriving DecidableEq, Repr

structure ClassedFinding extends ChapterFinding where
  findingClass : ChapterFindingClass
  deriving DecidableEq, Repr

inductive CandidateProvenance where
  | initialDraft
  | recoveredBest
  | legacyCandidate
  | localCleanup
  | lengthTopup
  | tailCompletion
  | metadataRepair
  | semanticRevision
  | regenerated
  | truncatedRecovery
  deriving DecidableEq, Repr

structure RevisionQualityVector where
  hardBlockers : Nat
  authorityConflicts : Nat
  stateConflicts : Nat
  protectedFactsLost : Nat
  newHighPriorityBlockers : Nat
  materialDeletionRatio : Nat
  incompleteBody : Bool
  contaminatedBody : Bool
  degenerateRepetition : Bool
  lengthViolation : Nat
  lengthShortfall : Nat
  lengthBlockers : Nat
  lengthTopupEligible : Bool
  deterministicRepairs : Nat
  deriving DecidableEq, Repr

/-- What is read off texts: how long they are, what is wrong with them, and which names and hooks
the sealed authority of the chapter protects. -/
structure DraftLibrary where
  countChapterUnits : String → Nat
  chapterTierMaxUnits : Nat → Nat
  lengthTopupShortfallLimit : Nat → Nat
  chapterBodyCompletionIssueList : String → List String
  chapterBodyHasToolOrJsonResidue : String → Bool
  chapterBodyHasDegenerateRepetition : String → Bool
  protectedAnchors : List String

def hardFindings (classes : List ChapterFindingClass) (findings : List ClassedFinding) : Nat :=
  (findings.filter fun finding =>
    finding.hardBlocking && decide (finding.findingClass ∈ classes)).length

def hardBlockers (findings : List ClassedFinding) : Nat :=
  (findings.filter (·.hardBlocking)).length

def authorityConflicts (findings : List ClassedFinding) : Nat :=
  hardFindings [.contract, .continuity] findings

def stateConflicts (findings : List ClassedFinding) : Nat := hardFindings [.state] findings

namespace DraftLibrary

variable (lib : DraftLibrary)

def protectedAuthorityAnchorsLost (parent candidate : String) : Nat :=
  (lib.protectedAnchors.filter fun anchor =>
    Text.contains parent anchor && !Text.contains candidate anchor).length

def lengthShortfall (target : Option Nat) (content : String) : Nat :=
  match target.filter (0 < ·) with
  | some target => target - lib.countChapterUnits content
  | none => 0

def materialDeletionRatio (parent content : String) : Nat :=
  let before := lib.countChapterUnits parent
  let after := lib.countChapterUnits content
  if before = 0 ∨ after ≥ before then 0
  else min (min ((before - after) * 1000) (2 ^ 64 - 1) / before) 1000

def revisionQualityVector (content : String) (findings : List ClassedFinding)
    (parent : Option String) (parentFindings : List ClassedFinding) (target : Option Nat) :
    RevisionQualityVector :=
  let parentHardCodes := (parentFindings.filter (·.hardBlocking)).map (·.code)
  let typed := [.contract, .continuity, .state]
  { hardBlockers := hardBlockers findings
    authorityConflicts := authorityConflicts findings
    stateConflicts := stateConflicts findings
    protectedFactsLost := hardFindings typed findings +
      (parent.map fun parent => lib.protectedAuthorityAnchorsLost parent content).getD 0
    newHighPriorityBlockers := hardFindings typed
      (findings.filter fun finding => decide (finding.code ∉ parentHardCodes))
    materialDeletionRatio :=
      (parent.map fun parent => lib.materialDeletionRatio parent content).getD 0
    incompleteBody := !(lib.chapterBodyCompletionIssueList content).isEmpty
    contaminatedBody := lib.chapterBodyHasToolOrJsonResidue content
    degenerateRepetition := lib.chapterBodyHasDegenerateRepetition content
    lengthViolation := match target.filter (0 < ·) with
      | some target => lib.countChapterUnits content - lib.chapterTierMaxUnits target
      | none => 0
    lengthShortfall := lib.lengthShortfall target content
    lengthBlockers := (findings.filter fun finding =>
      finding.hardBlocking && finding.code == "length_below_usable_floor").length
    lengthTopupEligible := match target.filter (0 < ·) with
      | some target => lib.lengthShortfall (some target) content == 0 ||
          lib.lengthShortfall (some target) content ≤ lib.lengthTopupShortfallLimit target
      | none => true
    deterministicRepairs :=
      (findings.filter (·.disposition == .deterministicRepair)).length }

end DraftLibrary

/-- The conflicts count first with the authority, then with the state. -/
def candidateIsStrictImprovement (current candidate : RevisionQualityVector)
    (provenance : CandidateProvenance) : Bool :=
  if candidate.newHighPriorityBlockers > 0 ||
      candidate.protectedFactsLost > current.protectedFactsLost ||
      candidate.materialDeletionRatio > 350 || candidate.incompleteBody ||
      candidate.contaminatedBody || candidate.degenerateRepetition ||
      candidate.lengthViolation > 0 then false
  else if candidate.hardBlockers < current.hardBlockers then true
  else if candidate.hardBlockers == current.hardBlockers &&
      (candidate.authorityConflicts < current.authorityConflicts ||
        candidate.authorityConflicts == current.authorityConflicts &&
          candidate.stateConflicts < current.stateConflicts) &&
      (candidate.lengthBlockers == 0 || candidate.lengthTopupEligible) then true
  else if current.hardBlockers > 0 && current.hardBlockers == current.lengthBlockers &&
      candidate.hardBlockers == candidate.lengthBlockers &&
      candidate.hardBlockers == current.hardBlockers &&
      candidate.lengthShortfall < current.lengthShortfall then true
  else
    (provenance == .localCleanup || provenance == .lengthTopup || provenance == .tailCompletion ||
        provenance == .metadataRepair) &&
      candidate.hardBlockers == current.hardBlockers &&
      candidate.deterministicRepairs < current.deterministicRepairs

/-! ## Chains of best drafts -/

structure BestDraft where
  content : String
  findings : List ClassedFinding
  qualityVector : RevisionQualityVector
  deriving DecidableEq

namespace BestDraft

variable (lib : DraftLibrary) (target : Option Nat)

def Computed (best : BestDraft) : Prop :=
  ∃ parent parentFindings, best.qualityVector =
    lib.revisionQualityVector best.content best.findings parent parentFindings target

def Replaces (current next : BestDraft) : Prop :=
  next.qualityVector = lib.revisionQualityVector next.content next.findings (some current.content)
      current.findings target ∧
    ∃ provenance,
      candidateIsStrictImprovement current.qualityVector next.qualityVector provenance = true

/-- As many hard blockers as before come with no more conflicts, and as many conflicts as before
with no larger shortfall. -/
def KeepsOrder (current next : BestDraft) : Prop :=
  hardBlockers next.findings = hardBlockers current.findings →
    authorityConflicts next.findings < authorityConflicts current.findings ∨
    authorityConflicts next.findings = authorityConflicts current.findings ∧
      (stateConflicts next.findings < stateConflicts current.findings ∨
        stateConflicts next.findings = stateConflicts current.findings ∧
          lib.lengthShortfall target next.content ≤ lib.lengthShortfall target current.content)

def rank (vector : RevisionQualityVector) : ℕ ×ₗ ℕ ×ₗ ℕ ×ₗ ℕ ×ₗ ℕ :=
  toLex (vector.hardBlockers, toLex (vector.authorityConflicts, toLex (vector.stateConflicts,
    toLex (vector.lengthShortfall, vector.deterministicRepairs))))

variable {lib target} {current next : BestDraft} {bests : List BestDraft}

theorem rank_lt (hcomputed : current.Computed lib target) (h : current.Replaces lib target next)
    (hkeeps : current.KeepsOrder lib target next) :
    rank next.qualityVector < rank current.qualityVector := by
  obtain ⟨hvector, provenance, haccepted⟩ := h
  obtain ⟨parent, parentFindings, hcurrent⟩ := hcomputed
  unfold candidateIsStrictImprovement at haccepted
  unfold KeepsOrder at hkeeps
  have hblockers : next.qualityVector.hardBlockers = hardBlockers next.findings ∧
      current.qualityVector.hardBlockers = hardBlockers current.findings := by
    rw [hvector, hcurrent]
    exact ⟨rfl, rfl⟩
  have hauthority : next.qualityVector.authorityConflicts = authorityConflicts next.findings ∧
      current.qualityVector.authorityConflicts = authorityConflicts current.findings := by
    rw [hvector, hcurrent]
    exact ⟨rfl, rfl⟩
  have hstate : next.qualityVector.stateConflicts = stateConflicts next.findings ∧
      current.qualityVector.stateConflicts = stateConflicts current.findings := by
    rw [hvector, hcurrent]
    exact ⟨rfl, rfl⟩
  have hshortfall : next.qualityVector.lengthShortfall = lib.lengthShortfall target next.content ∧
      current.qualityVector.lengthShortfall = lib.lengthShortfall target current.content := by
    rw [hvector, hcurrent]
    exact ⟨rfl, rfl⟩
  simp only [rank, Prod.Lex.toLex_lt_toLex]
  simp only [Bool.if_true_left, Bool.if_false_left, Bool.and_eq_true, Bool.or_eq_true,
    decide_eq_true_eq, beq_iff_eq] at haccepted
  omega

/-- No draft becomes the best one again in a run of replacements that keep the order. -/
theorem replaced_for_good (hstart : ∀ best ∈ bests.head?, best.Computed lib target)
    (hruns : bests.IsChain (Replaces lib target)) (hkeeps : bests.IsChain (KeepsOrder lib target)) :
    bests.Nodup := by
  have hrank : bests.IsChain fun current next =>
      rank next.qualityVector < rank current.qualityVector := by
    induction bests with
    | nil => exact .nil
    | cons current rest ih =>
        cases rest with
        | nil => exact .singleton _
        | cons next rest =>
            obtain ⟨hreplaces, hruns⟩ := List.isChain_cons_cons.mp hruns
            obtain ⟨hkeep, hkeeps⟩ := List.isChain_cons_cons.mp hkeeps
            have hcurrent : current.Computed lib target := hstart current rfl
            have hnext : next.Computed lib target := ⟨_, _, hreplaces.1⟩
            exact List.isChain_cons_cons.mpr ⟨rank_lt hcurrent hreplaces hkeep,
              ih (by simpa using hnext) hruns hkeeps⟩
  have hpairs := List.isChain_iff_pairwise.mp hrank
  exact hpairs.imp fun hlt heq => absurd (heq ▸ hlt) (lt_irrefl _)

/-! ## Two drafts in turn -/

def sampleDraftLibrary : DraftLibrary where
  countChapterUnits content := if content = "long" then 9 else 8
  chapterTierMaxUnits target := 2 * target
  lengthTopupShortfallLimit target := target / 2
  chapterBodyCompletionIssueList _ := []
  chapterBodyHasToolOrJsonResidue _ := false
  chapterBodyHasDegenerateRepetition _ := false
  protectedAnchors := []

def belowFloor : ClassedFinding where
  code := "length_below_usable_floor"
  disposition := .hardBlock
  evidenceGrade := .deterministicInvariant
  message := ""
  authorityEvidence := []
  bodyEvidence := []
  authorityFingerprint := ""
  bodyFingerprint := ""
  findingClass := .length

def doubledPunctuation : ClassedFinding :=
  { belowFloor with
    code := "doubled_punctuation", disposition := .deterministicRepair
    findingClass := .bodyIntegrity }

def sampleBest (content : String) (findings : List ClassedFinding)
    (parentFindings : List ClassedFinding) : BestDraft where
  content := content
  findings := findings
  qualityVector := sampleDraftLibrary.revisionQualityVector content findings (some "long")
    parentFindings (some 10)

def toppedUp : BestDraft := sampleBest "long" [belowFloor, doubledPunctuation] []

def finished : BestDraft := sampleBest "long" [] toppedUp.findings

theorem replaced_for_good_finished : [toppedUp, finished].Nodup := by
  refine @replaced_for_good sampleDraftLibrary (some 10) _ ?_ ?_ ?_
  · exact fun best hbest => Option.some.inj hbest ▸ ⟨_, _, rfl⟩
  · exact List.isChain_cons_cons.mpr ⟨⟨rfl, .regenerated, by decide⟩, .singleton _⟩
  · exact List.isChain_cons_cons.mpr ⟨fun h => absurd h (by decide), .singleton _⟩

/-- A cleanup takes back what a top-up added, and is topped up again. -/
theorem best_draft_returns :
    ¬∀ (lib : DraftLibrary) (target : Option Nat) (bests : List BestDraft),
      (∀ best ∈ bests.head?, best.Computed lib target) → bests.IsChain (Replaces lib target) →
        bests.Nodup := by
  intro h
  have hcleaned : toppedUp.Replaces sampleDraftLibrary (some 10)
      (sampleBest "short" [belowFloor] toppedUp.findings) := ⟨rfl, .localCleanup, by decide⟩
  have htoppedUp : (sampleBest "short" [belowFloor] toppedUp.findings).Replaces
      sampleDraftLibrary (some 10) toppedUp := ⟨by decide, .lengthTopup, by decide⟩
  have hnodup := h sampleDraftLibrary (some 10) [toppedUp, _, toppedUp]
    (fun best hbest => Option.some.inj hbest ▸ ⟨_, _, rfl⟩)
    (List.isChain_cons_cons.mpr ⟨hcleaned, List.isChain_cons_cons.mpr ⟨htoppedUp, .singleton _⟩⟩)
  simp at hnodup

end BestDraft

end BenShu.Novel
