import BenShu.Memory.InMemory

/-!
# A manager over two memories in memory

What the memory manager makes of questions: messages come from the hot layer, knowledge from
the durable one, and a session from the layer that is the authority on it. A session that the
durable layer is the authority on is marked as recovered and stored in both.
-/

namespace BenShu.Memory

open Protocol
open Engram (HashOrder)

/-- The clock readings of one call, and the hash order it meets. -/
structure CallSetting where
  hot : Clock
  engram : Clock
  recoveredAt : DateTime
  updatedAt : DateTime
  order : HashOrder

def SessionStatus.isInflight : SessionStatus → Bool
  | .thinking | .pendingTools | .awaitingClarification _ _ | .awaitingApproval _ _
  | .executing => true
  | .completed | .failed _ => false

/-- With the layer that a session was recovered from. -/
def chooseSessionAuthority : Option StatedSession → Option StatedSession →
    Option (StatedSession × Option String)
  | some hot, some engram =>
      if hot.status.isInflight && !hot.isArchived then some (hot, none)
      else if engram.isArchived && engram.updatedAt ≥ hot.updatedAt then some (engram, some "engram")
      else if engram.updatedAt > hot.updatedAt then some (engram, some "engram")
      else some (hot, none)
  | some hot, none => some (hot, none)
  | none, some engram => some (engram, some "engram")
  | none, none => none

def annotateBackgroundSessionLifecycle (session : StatedSession) (lifecycleState : String)
    (reason recoveredFrom : Option String) : StatedSession :=
  match session.backgroundEnvelope with
  | none => session
  | some background =>
      let entry (metadata : Table String String) (name : String) (value : Option String) :=
        value.elim metadata (metadata.insert name)
      let millis (time : Option DateTime) := time.map fun time => toString (timestampMillis time)
      let spoken (value : Option String) := value.filter fun value => Text.trim value ≠ ""
      let metadata := background.metadata.insert "background_session_lifecycle_state" lifecycleState
      let metadata := metadata.insert "background_session_updated_at_ms"
        (toString (timestampMillis session.updatedAt))
      let metadata := entry metadata "background_session_archived_at_ms"
        (millis session.lifecycle.archivedAt)
      let metadata := entry metadata "background_session_retention_until_ms"
        (millis session.lifecycle.retentionUntil)
      let metadata := entry metadata "background_session_archive_reason" (spoken reason)
      let metadata := entry metadata "background_session_recovered_from" (spoken recoveredFrom)
      let metadata := entry metadata "background_session_last_recovered_at_ms"
        (millis session.lifecycle.lastRecoveredAt)
      { session with backgroundEnvelope := some { background with metadata := metadata } }

def StatedSession.recovered (setting : CallSetting) (source : String) (session : StatedSession) :
    StatedSession :=
  let session : StatedSession :=
    { session with toAgentSession :=
        session.toAgentSession.markRecovered setting.recoveredAt setting.updatedAt source }
  annotateBackgroundSessionLifecycle session "recovered" session.lifecycle.archiveReason
    session.lifecycle.recoveredFrom

/-- The durable fact replaces that of the hot layer when it is newer, or as new and of another
status or more important. -/
def replacesFact (fact existing : Fact) : Bool :=
  decide (fact.updatedAt > existing.updatedAt) ||
    (fact.updatedAt == existing.updatedAt && fact.status != existing.status) ||
    (fact.updatedAt == existing.updatedAt && decide (fact.importance > existing.importance))

def mergeFact (byId : Table String Fact) (fact : Fact) : Table String Fact :=
  match byId.lookup fact.id with
  | none => byId.insert fact.id fact
  | some existing => if replacesFact fact existing then byId.insert fact.id fact else byId

def mergeFacts (order : HashOrder) (hotFacts engramFacts : List Fact) : List Fact :=
  let byId := engramFacts.foldl mergeFact (Table.indexedBy (·.id) hotFacts)
  ((order.arrange byId.keys).filterMap byId.lookup).mergeSort fun a b =>
    decide (b.updatedAt ≤ a.updatedAt)

structure ManagedLayers where
  hot : InMemoryMemory
  engram : InMemoryMemory

namespace ManagedLayers

def capabilities (layers : ManagedLayers) : MemoryCapabilities :=
  let hot := layers.hot.capabilities
  let engram := layers.engram.capabilities
  { episodicMessages := hot.episodicMessages || engram.episodicMessages
    sessions := hot.sessions || engram.sessions
    facts := hot.facts || engram.facts
    search := hot.search || engram.search
    knowledgeStore := hot.knowledgeStore || engram.knowledgeStore
    experiences := hot.experiences || engram.experiences
    metadata := hot.metadata || engram.metadata }

def storeSession (session : StatedSession) (layers : ManagedLayers) : ManagedLayers :=
  { hot := layers.hot.storeSession session, engram := layers.engram.storeSession session }

def sessionAuthority (sessionId : String) (layers : ManagedLayers) :
    Option (StatedSession × Option String) :=
  chooseSessionAuthority (layers.hot.retrieveSession sessionId)
    (layers.engram.retrieveSession sessionId)

def retrieveSession (setting : CallSetting) (sessionId : String) (layers : ManagedLayers) :
    ManagedLayers × Option StatedSession :=
  match layers.sessionAuthority sessionId with
  | none => (layers, none)
  | some (session, none) => (layers, some session)
  | some (session, some source) =>
      let session := session.recovered setting source
      (layers.storeSession session, some session)

def retrieveFacts (order : HashOrder) (who : Partition) (layers : ManagedLayers) : List Fact :=
  mergeFacts order (layers.hot.retrieveFacts who) (layers.engram.retrieveFacts who)

/-- The durable layer is asked when the hot one knows of no related fact. -/
def findRelatedFacts (who : Partition) (factId : String) (depth : Nat) (layers : ManagedLayers) :
    ManagedLayers × List Fact :=
  let (hot, related) := layers.hot.findRelatedFacts who factId depth
  if related.isEmpty then
    let (engram, related) := layers.engram.findRelatedFacts who factId depth
    ({ hot, engram }, related)
  else ({ layers with hot }, related)

def requestFactReview (setting : CallSetting) (factId : String) (payload : FactReviewPayload)
    (layers : ManagedLayers) : ManagedLayers :=
  { hot := layers.hot.requestFactReview setting.hot factId payload
    engram := layers.engram.requestFactReview setting.engram factId payload }

def getFactReviewPayload (factId : String) (layers : ManagedLayers) : Option FactReviewPayload :=
  (layers.hot.getFactReviewPayload factId).or (layers.engram.getFactReviewPayload factId)

def getGlobalCognitiveStatus (layers : ManagedLayers) : String :=
  let hotStatus := layers.hot.getGlobalCognitiveStatus
  let engramStatus := layers.engram.getGlobalCognitiveStatus
  if hotStatus ≠ "Stable" ∨ engramStatus ≠ "Stable" then
    s!"Mixed Status [Hot: {hotStatus}, Engram: {engramStatus}]"
  else "Stable"

def setEmitter (emitter : Emitter) (layers : ManagedLayers) : ManagedLayers :=
  { hot := layers.hot.setEmitter emitter, engram := layers.engram.setEmitter emitter }

end ManagedLayers

end BenShu.Memory
