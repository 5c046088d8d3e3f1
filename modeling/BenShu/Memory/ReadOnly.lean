import BenShu.Memory.ManagedLayers

/-!
# The read-only proxy

Every operation of the memory trait, and what the proxy does with it: some it asks of the memory
behind it, and the others it answers itself.
-/

namespace BenShu.Memory

open Protocol

/-- The operations that the proxy asks of the memory behind it. -/
inductive InnerCall where
  | asAny
  | capabilities
  | retrieve (who : Partition) (limit : Nat)
  | retrieveFullHistory (who : Partition)
  | retrieveSession (sessionId : String)
  | retrieveFacts (who : Partition)
  | findRelatedFacts (who : Partition) (factId : String) (depth : Nat)
  | search (who : Partition) (query : String) (limit : Nat)
  | getExperience (id : String)
  | getAntiPattern (id : String)
  | getGlobalCognitiveStatus
  | getFactReviewPayload (factId : String)
  | requestFactReview (factId : String) (payload : FactReviewPayload)
  | fetchDocument (collection path : String)
  | setEmitter (emitter : Emitter)
  | linkScheduler

inductive MemoryAnswer where
  | done
  | handle
  | capabilities (capabilities : MemoryCapabilities)
  | message (message : Option Message)
  | messages (messages : List Message)
  | session (session : Option StatedSession)
  | sessions (sessions : List StatedSession)
  | facts (facts : List Fact)
  | document (document : Option Document)
  | documents (documents : List Document)
  | reviewPayload (payload : Option FactReviewPayload)
  | record (record : Option Json)
  | records (records : List Json)
  | guidance (experiences antiPatterns : List Json)
  | metadata (value : Option String)
  | status (status : String)
  | counted (count : Nat)
  | elapsed (seconds : Nat)
  | security (handler : Option SecurityHandler)
  | permissionDenied (message : String)

/-- A call of the memory trait. -/
inductive MemoryCall where
  | asAny
  | capabilities
  | store (who : Partition) (message : Message)
  | storeBatch (who : Partition) (messages : List Message)
  | retrieve (who : Partition) (limit : Nat)
  | retrieveFullHistory (who : Partition)
  | clear (who : Partition)
  | undo (who : Partition)
  | storeSession (session : StatedSession)
  | retrieveSession (sessionId : String)
  | deleteSession (sessionId : String)
  | archiveSession (sessionId : String) (reason : Option String) (retentionUntil : Option DateTime)
  | recoverSession (sessionId source : String)
  | pruneExpiredSessions (now : DateTime)
  | storeFact (who : Partition) (fact : Fact)
  | retrieveFacts (who : Partition)
  | deleteFact (who : Partition) (factId : String)
  | findRelatedFacts (who : Partition) (factId : String) (depth : Nat)
  | search (who : Partition) (query : String) (limit : Nat)
  | storeKnowledge (who : Partition) (title content category : String) (isUnverified : Bool)
  | storeMultimodalMemory (who : Partition)
  | listUnverified (agentId : Option String) (limit : Nat)
  | markVerified (factId : String)
  | markPendingReview (factId : String) (summary : Option String)
  | requestFactReview (factId : String) (payload : FactReviewPayload)
  | getFactReviewPayload (factId : String)
  | resolvePendingReview (factId : String) (resolution : FactReviewResolution)
  | markPruned (factId : String)
  | updateUtility (collection factId : String) (increment : ℚ)
  | ageVectors (collection : String) (olderThanDays : Nat)
  | promoteVectors (collection : String)
  | updateFactImportance (who : Partition) (factId : String) (importance : ℚ)
  | setFactProtection (who : Partition) (factId : String) (protection : FactProtection)
  | maintenance
  | getMetadata (key : String)
  | setMetadata (key value : String)
  | setSecurity (handler : SecurityHandler)
  | security
  | searchExperiences (query : String) (limit : Nat)
  | searchAntiPatterns (query : String) (limit : Nat)
  | searchCognitiveGuidance (query : String) (limit : Nat)
  | storeExperience (experience : Json)
  | storeAntiPattern (antiPattern : Json)
  | deleteExperience (id : String)
  | deleteAntiPattern (id : String)
  | incrementExperienceUtility (id : String) (increment : ℚ)
  | incrementAntiPatternUtility (id : String) (increment : ℚ)
  | getExperience (id : String)
  | getAntiPattern (id : String)
  | recordInteraction
  | lastInteractionElapsed
  | setEmitter (emitter : Emitter)
  | emitEvent
  | pruneMessages (olderThan : Nat)
  | listSessions
  | markCancelled (who : Partition) (reason : String)
  | getGlobalCognitiveStatus
  | fetchDocument (collection path : String)
  | linkScheduler
  | updateSummary (collection path summary : String)

/-- What the proxy does with a call. -/
inductive Reaction where
  | ask (call : InnerCall)
  | reply (answer : MemoryAnswer)

/-- A memory as the trait shows it: what it becomes by a call, and what it answers. -/
abbrev InnerMemory (σ : Type) := CallSetting → InnerCall → σ → σ × MemoryAnswer

namespace ReadOnlyMemory

/-- What the proxy leaves to the defaults of the trait is answered without the memory. -/
def react : MemoryCall → Reaction
  | .asAny => .ask .asAny
  | .capabilities => .ask .capabilities
  | .store _ _ | .storeBatch _ _ => .reply .done
  | .retrieve who limit => .ask (.retrieve who limit)
  | .retrieveFullHistory who => .ask (.retrieveFullHistory who)
  | .clear _ => .reply .done
  | .undo _ => .reply (.message none)
  | .storeSession _ => .reply .done
  | .retrieveSession sessionId => .ask (.retrieveSession sessionId)
  | .deleteSession _ => .reply .done
  | .archiveSession sessionId _ _ | .recoverSession sessionId _ => .ask (.retrieveSession sessionId)
  | .pruneExpiredSessions _ => .reply (.counted 0)
  | .storeFact _ _ => .reply .done
  | .retrieveFacts who => .ask (.retrieveFacts who)
  | .deleteFact _ _ => .reply .done
  | .findRelatedFacts who factId depth => .ask (.findRelatedFacts who factId depth)
  | .search who query limit => .ask (.search who query limit)
  | .storeKnowledge _ _ _ _ _ => .reply .done
  | .storeMultimodalMemory _ =>
      .reply (.permissionDenied "read-only memory cannot store multimodal writeback")
  | .maintenance => .reply .done
  | .updateUtility _ _ _ | .ageVectors _ _ | .promoteVectors _ => .reply .done
  | .getExperience id => .ask (.getExperience id)
  | .getAntiPattern id => .ask (.getAntiPattern id)
  | .getGlobalCognitiveStatus => .ask .getGlobalCognitiveStatus
  | .getFactReviewPayload factId => .ask (.getFactReviewPayload factId)
  | .requestFactReview factId payload => .ask (.requestFactReview factId payload)
  | .resolvePendingReview _ _ => .reply .done
  | .fetchDocument collection path => .ask (.fetchDocument collection path)
  | .recordInteraction => .reply .done
  | .lastInteractionElapsed => .reply (.elapsed 0)
  | .setEmitter emitter => .ask (.setEmitter emitter)
  | .linkScheduler => .ask .linkScheduler
  | .updateSummary _ _ _ => .reply .done
  -- the defaults of the trait
  | .listUnverified _ _ => .reply (.facts [])
  | .markVerified _ | .markPendingReview _ _ | .markPruned _ => .reply .done
  | .updateFactImportance _ _ _ | .setFactProtection _ _ _ => .reply .done
  | .getMetadata _ => .reply (.metadata none)
  | .setMetadata _ _ | .setSecurity _ => .reply .done
  | .security => .reply (.security none)
  | .searchExperiences _ _ | .searchAntiPatterns _ _ => .reply (.records [])
  | .searchCognitiveGuidance _ _ => .reply (.guidance [] [])
  | .storeExperience _ | .storeAntiPattern _ => .reply .done
  | .deleteExperience _ | .deleteAntiPattern _ => .reply .done
  | .incrementExperienceUtility _ _ | .incrementAntiPatternUtility _ _ => .reply .done
  | .emitEvent => .reply .done
  | .pruneMessages _ => .reply (.counted 0)
  | .listSessions => .reply (.sessions [])
  | .markCancelled _ _ => .reply .done

/-- A call of the proxy over some memory. -/
def call {σ : Type} (inner : InnerMemory σ) (setting : CallSetting) (request : MemoryCall)
    (state : σ) : σ × MemoryAnswer :=
  match react request with
  | .ask asked => inner setting asked state
  | .reply answer => (state, answer)

end ReadOnlyMemory

/-! ## The memories behind it -/

section Inner

variable (toLowercase : String → String)

def InMemoryMemory.inner : InnerMemory InMemoryMemory := fun setting call memory =>
  match call with
  | .asAny => (memory, .handle)
  | .capabilities => (memory, .capabilities memory.capabilities)
  | .retrieve who limit => (memory, .messages (memory.retrieve who limit))
  | .retrieveFullHistory who => (memory, .messages (memory.retrieveFullHistory who))
  | .retrieveSession sessionId => (memory, .session (memory.retrieveSession sessionId))
  | .retrieveFacts who => (memory, .facts (memory.retrieveFacts who))
  | .findRelatedFacts who factId depth =>
      let (memory, related) := memory.findRelatedFacts who factId depth
      (memory, .facts related)
  | .search _ query limit =>
      (memory, .documents (memory.search toLowercase setting.order query limit))
  | .getExperience id => (memory, .record (memory.getExperience id))
  | .getAntiPattern id => (memory, .record (memory.getAntiPattern id))
  | .getGlobalCognitiveStatus => (memory, .status memory.getGlobalCognitiveStatus)
  | .getFactReviewPayload factId => (memory, .reviewPayload (memory.getFactReviewPayload factId))
  | .requestFactReview factId payload =>
      (memory.requestFactReview setting.hot factId payload, .done)
  | .fetchDocument collection path => (memory, .document (memory.fetchDocument collection path))
  | .setEmitter emitter => (memory.setEmitter emitter, .done)
  | .linkScheduler => (memory, .done)

/-- Neither anti-patterns nor schedulers are known to the manager. -/
def ManagedLayers.inner : InnerMemory ManagedLayers := fun setting call layers =>
  match call with
  | .asAny => (layers, .handle)
  | .capabilities => (layers, .capabilities layers.capabilities)
  | .retrieve who limit => (layers, .messages (layers.hot.retrieve who limit))
  | .retrieveFullHistory who => (layers, .messages (layers.hot.retrieveFullHistory who))
  | .retrieveSession sessionId =>
      let (layers, session) := layers.retrieveSession setting sessionId
      (layers, .session session)
  | .retrieveFacts who => (layers, .facts (layers.retrieveFacts setting.order who))
  | .findRelatedFacts who factId depth =>
      let (layers, related) := layers.findRelatedFacts who factId depth
      (layers, .facts related)
  | .search _ query limit =>
      (layers, .documents (layers.engram.search toLowercase setting.order query limit))
  | .getExperience id => (layers, .record (layers.engram.getExperience id))
  | .getAntiPattern _ => (layers, .record none)
  | .getGlobalCognitiveStatus => (layers, .status layers.getGlobalCognitiveStatus)
  | .getFactReviewPayload factId => (layers, .reviewPayload (layers.getFactReviewPayload factId))
  | .requestFactReview factId payload => (layers.requestFactReview setting factId payload, .done)
  | .fetchDocument collection path =>
      (layers, .document (layers.engram.fetchDocument collection path))
  | .setEmitter emitter => (layers.setEmitter emitter, .done)
  | .linkScheduler => (layers, .done)

end Inner

end BenShu.Memory
