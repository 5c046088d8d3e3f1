import BenShu.Engram.Fts
import BenShu.Memory.HotLayer

/-!
# The memory in memory

Tables for the messages, facts, sessions and documents, without anything behind them. Facts and
messages are kept in lists under the key of the user and the agent.
-/

namespace BenShu.Memory

open Protocol
open Engram (HashOrder)

inductive SessionStatus where
  | thinking
  | pendingTools
  | awaitingClarification (clarification originalRequest : String)
  | awaitingApproval (toolName arguments : String)
  | executing
  | completed
  | failed (reason : String)
deriving DecidableEq

/-- A session with its status. -/
structure StatedSession extends AgentSession where
  status : SessionStatus := .thinking

/-- A document of the knowledge. -/
structure Document where
  id : String
  title : String
  content : String
  summary : Option String
  collection : Option String
  path : Option String
  metadata : Table String String
  score : ℚ

abbrev Emitter := Nat

structure MemoryCapabilities where
  episodicMessages : Bool
  sessions : Bool
  facts : Bool
  search : Bool
  knowledgeStore : Bool
  experiences : Bool
  metadata : Bool

structure InMemoryMemory where
  messages : Table String (List Message) := ∅
  facts : Table String (List Fact) := ∅
  sessions : Table String StatedSession := ∅
  documents : Table String Document := ∅
  experiences : Table String Json := ∅
  reviewPayloads : Table String FactReviewPayload := ∅
  metadata : Table String String := ∅
  emitter : Option Emitter := none
  sessions_keyed : ∀ sessionId session,
    sessions.lookup sessionId = some session → session.id = sessionId

def Fact.pendingReview (now : DateTime) (fact : Fact) : Fact :=
  { fact with verified := false, status := .pendingReview, updatedAt := now }

/-- The ids and times of what is stored with a new document. -/
structure Stamp where
  factId : String
  pathId : String
  createdAt : DateTime
  updatedAt : DateTime

namespace InMemoryMemory

def new : InMemoryMemory := { sessions_keyed := fun _ _ h => by cases h }

def capabilities (_memory : InMemoryMemory) : MemoryCapabilities :=
  { episodicMessages := true, sessions := true, facts := true, search := true,
    knowledgeStore := true, experiences := false, metadata := true }

/-! ## Messages and sessions -/

def retrieveFullHistory (who : Partition) (memory : InMemoryMemory) : List Message :=
  (memory.messages.lookup (key who)).getD []

def retrieve (who : Partition) (limit : Nat) (memory : InMemoryMemory) : List Message :=
  ((memory.retrieveFullHistory who).reverse.take limit).reverse

def storeSession (session : StatedSession) (memory : InMemoryMemory) : InMemoryMemory :=
  { memory with
    sessions := memory.sessions.insert session.id session
    sessions_keyed := fun sessionId found hfound => by
      rw [Table.lookup_insert] at hfound
      split_ifs at hfound with hid
      · cases hfound
        exact hid.symm
      · exact memory.sessions_keyed sessionId found hfound }

def retrieveSession (sessionId : String) (memory : InMemoryMemory) : Option StatedSession :=
  memory.sessions.lookup sessionId

/-! ## Facts -/

def retrieveFacts (who : Partition) (memory : InMemoryMemory) : List Fact :=
  (memory.facts.lookup (key who)).getD []

/-- The traversal leaves its report among the metadata. -/
def findRelatedFacts (who : Partition) (factId : String) (depth : Nat) (memory : InMemoryMemory) :
    InMemoryMemory × List Fact :=
  let factsById := Table.indexedBy (·.id) (memory.retrieveFacts who)
  let traversal := traverseRelatedFactsWithReport (·.relations) factsById factId depth
  let entries := traversal.2.metadataEntries factId
  ({ memory with
      metadata := entries.foldl (fun metadata entry => metadata.insert entry.1 entry.2)
        memory.metadata },
    traversal.1)

def requestFactReview (clock : Clock) (factId : String) (payload : FactReviewPayload)
    (memory : InMemoryMemory) : InMemoryMemory :=
  { memory with
    facts := memory.facts.collect fun facts => some (facts.map fun fact =>
      if fact.id = factId then fact.pendingReview clock.now else fact)
    reviewPayloads := memory.reviewPayloads.insert factId
      { payload with reviewRequestedAt := some clock.requestedAt } }

def getFactReviewPayload (factId : String) (memory : InMemoryMemory) : Option FactReviewPayload :=
  memory.reviewPayloads.lookup factId

/-! ## Documents -/

def search (toLowercase : String → String) (order : HashOrder) (query : String) (limit : Nat)
    (memory : InMemoryMemory) : List Document :=
  let query := toLowercase query
  ((order.arrange memory.documents.keys).filterMap memory.documents.lookup |>.filter fun doc =>
    Text.contains (toLowercase doc.title) query ||
      Text.contains (toLowercase doc.content) query).take limit

def storeKnowledge (stamp : Stamp) (who : Partition) (title content category : String)
    (verified : Bool) (memory : InMemoryMemory) : InMemoryMemory :=
  let fact : Fact :=
    { id := stamp.factId, content := content, category := category, importance := 1 / 2,
      createdAt := stamp.createdAt, updatedAt := stamp.updatedAt, verified := verified,
      source := none, confidence := 9 / 10, relations := [], semanticHash := none,
      status := if verified then .verified else .pending, protection := .normal }
  let path := s!"manual/{stamp.pathId}"
  { memory with
    facts := memory.facts.insert (key who) (memory.retrieveFacts who ++ [fact])
    documents := memory.documents.insert s!"{category}:{path}"
      { id := path, title := title, content := content, summary := none,
        collection := some category, path := some path, metadata := ∅, score := 1 } }

def fetchDocument (collection path : String) (memory : InMemoryMemory) : Option Document :=
  memory.documents.lookup s!"{collection}:{path}"

/-! ## The rest -/

def getExperience (id : String) (memory : InMemoryMemory) : Option Json :=
  memory.experiences.lookup id

def getAntiPattern (_id : String) (_memory : InMemoryMemory) : Option Json := none

def getGlobalCognitiveStatus (_memory : InMemoryMemory) : String := "Stable"

def setEmitter (emitter : Emitter) (memory : InMemoryMemory) : InMemoryMemory :=
  { memory with emitter := some emitter }

end InMemoryMemory

end BenShu.Memory
