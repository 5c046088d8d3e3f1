import BenShu.Memory.FactStore

/-!
# The hot layer

What the short-term memory keeps of facts, their reviews and the sessions, as the layer in
front of the durable memory.
-/

namespace BenShu.Memory

open Protocol

inductive FactReviewResolutionOutcome where
  | verified
  | pruned
  | pendingReview
deriving DecidableEq

structure FactReviewResolution where
  outcome : FactReviewResolutionOutcome
  resolutionReason : Option String
  resolutionBasis : Option String
  resolvedBy : Option String
  resolvedAt : DateTime

structure FactReviewPayload where
  reviewReason : Option String := none
  challengerSummary : Option String := none
  challengerSource : Option String := none
  reviewRequestedAt : Option DateTime := none
  resolution : Option FactReviewResolution := none

def factReviewMetaKey (factId : String) : String := s!"fact.review.{factId}"

def FactReviewResolutionOutcome.status : FactReviewResolutionOutcome → FactStatus
  | verified => .verified
  | pruned => .archived
  | pendingReview => .pendingReview

structure HotLayer extends FactStore where
  sessions : Table String AgentSession := ∅
  reviews : Table String FactReviewPayload := ∅
  sessions_keyed : ∀ sessionId session,
    sessions.lookup sessionId = some session → session.id = sessionId

/-- What the clock shows: when a fact is changed, and when a review is asked for. -/
structure Clock where
  now : DateTime
  requestedAt : DateTime

/-- How facts are written to the hot layer and read from it. -/
structure FactCipher where
  toLowercase : String → String
  security : Option SecurityHandler

namespace HotLayer

/-! ## Sessions -/

def storeSession (session : AgentSession) (hot : HotLayer) : HotLayer :=
  { hot with
    sessions := hot.sessions.insert session.id session
    sessions_keyed := fun sessionId found hfound => by
      rw [Table.lookup_insert] at hfound
      split_ifs at hfound with hid
      · cases hfound
        exact hid.symm
      · exact hot.sessions_keyed sessionId found hfound }

def retrieveSession (sessionId : String) (hot : HotLayer) : Option AgentSession :=
  hot.sessions.lookup sessionId

def deleteSession (sessionId : String) (hot : HotLayer) : HotLayer :=
  { hot with
    sessions := hot.sessions.erase sessionId
    sessions_keyed := fun otherId found hfound => by
      rw [Table.lookup_erase] at hfound
      split_ifs at hfound
      exact hot.sessions_keyed otherId found hfound }

/-! ## Facts -/

def mapFacts (f : FactStore → FactStore) (hot : HotLayer) : HotLayer :=
  { hot with toFactStore := f hot.toFactStore }

variable (cipher : FactCipher)

def storeFact (who : Partition) (fact : Fact) : HotLayer → HotLayer :=
  mapFacts (FactStore.storeFact cipher.toLowercase cipher.security who fact)

def deleteFact (who : Partition) (factId : String) : HotLayer → HotLayer :=
  mapFacts (FactStore.deleteFact who factId)

def updateFactImportance (clock : Clock) (_who : Partition) (factId : String) (importance : ℚ) :
    HotLayer → HotLayer :=
  mapFacts (FactStore.updateFactImportanceById factId importance clock.now)

def setFactProtection (clock : Clock) (_who : Partition) (factId : String)
    (protection : FactProtection) : HotLayer → HotLayer :=
  mapFacts (FactStore.updateFactProtectionById factId protection clock.now)

/-! ## Reviews -/

def updateFactStatus (clock : Clock) (factId : String) (status : FactStatus) :
    HotLayer → HotLayer :=
  mapFacts (FactStore.updateFactStatus factId status clock.now)

def getFactReviewPayload (factId : String) (hot : HotLayer) : Option FactReviewPayload :=
  hot.reviews.lookup (factReviewMetaKey factId)

def storeFactReviewPayload (factId : String) (payload : FactReviewPayload) (hot : HotLayer) :
    HotLayer :=
  { hot with reviews := hot.reviews.insert (factReviewMetaKey factId) payload }

def markVerified (clock : Clock) (factId : String) : HotLayer → HotLayer :=
  updateFactStatus clock factId .verified

def markPendingReview (clock : Clock) (factId : String) (summary : Option String)
    (hot : HotLayer) : HotLayer :=
  let hot := hot.updateFactStatus clock factId .pendingReview
  let existing := hot.getFactReviewPayload factId
  hot.storeFactReviewPayload factId
    { reviewReason := some "auditor_needs_review"
      challengerSummary := summary.or (existing.bind (·.challengerSummary))
      challengerSource := some "memory_auditor"
      reviewRequestedAt := some clock.requestedAt
      resolution := none }

def requestFactReview (clock : Clock) (factId : String) (payload : FactReviewPayload)
    (hot : HotLayer) : HotLayer :=
  let hot := hot.updateFactStatus clock factId .pendingReview
  hot.storeFactReviewPayload factId
    { reviewReason := payload.reviewReason.or (some "auditor_needs_review")
      challengerSummary := payload.challengerSummary
      challengerSource := payload.challengerSource.or (some "memory_auditor")
      reviewRequestedAt := payload.reviewRequestedAt.or (some clock.requestedAt)
      resolution := payload.resolution }

def resolvePendingReview (clock : Clock) (factId : String) (resolution : FactReviewResolution)
    (hot : HotLayer) : HotLayer :=
  let payload := (hot.getFactReviewPayload factId).getD {}
  let hot := hot.storeFactReviewPayload factId { payload with resolution := some resolution }
  hot.updateFactStatus clock factId resolution.outcome.status

def markPruned (clock : Clock) (factId : String) : HotLayer → HotLayer :=
  updateFactStatus clock factId .archived

end HotLayer

end BenShu.Memory
