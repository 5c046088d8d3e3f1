import BenShu.Memory.HotLayer
import Mathlib.Logic.Function.Basic

/-!
# The memory manager

Sessions and facts are written to the hot layer and to the durable memory behind it. Where
the durable write fails, what the hot layer held of the session or the fact is written back.
-/

namespace BenShu.Memory

open Protocol

/-- A write that both layers understand. -/
inductive MemoryWrite where
  | storeSession (session : AgentSession)
  | deleteSession (sessionId : String)
  | storeFact (who : Partition) (fact : Fact)
  | deleteFact (who : Partition) (factId : String)
  | updateFactImportance (who : Partition) (factId : String) (importance : ℚ)
  | setFactProtection (who : Partition) (factId : String) (protection : FactProtection)
  | markVerified (factId : String)
  | markPendingReview (factId : String) (summary : Option String)
  | requestFactReview (factId : String) (payload : FactReviewPayload)
  | resolvePendingReview (factId : String) (resolution : FactReviewResolution)
  | markPruned (factId : String)

/-- A fact without the time of its last update, which each layer sets by its own clock. -/
def Fact.undated (fact : Fact) : Fact := { fact with updatedAt := 0 }

def Fact.withImportance (importance : ℚ) (fact : Fact) : Fact :=
  { fact with importance := clampImportance importance }

def Fact.withProtection (protection : FactProtection) (fact : Fact) : Fact :=
  { fact with protection := protection }

def Fact.withStatus (status : FactStatus) (fact : Fact) : Fact :=
  { fact with status := status, verified := status == .verified }

def SameFact (fact fact' : Option Fact) : Prop := fact.map Fact.undated = fact'.map Fact.undated

def MemoryWrite.reviewed : MemoryWrite → Option (String × FactStatus)
  | markVerified factId => some (factId, .verified)
  | markPendingReview factId _ | requestFactReview factId _ => some (factId, .pendingReview)
  | resolvePendingReview factId resolution => some (factId, resolution.outcome.status)
  | markPruned factId => some (factId, .archived)
  | _ => none

/-- A memory that applies a write or fails without effect. -/
structure DurableMemory (σ : Type) where
  write : MemoryWrite → σ → Except String σ
  session : σ → String → Option AgentSession
  fact : σ → Partition → String → Option Fact
  fact_keyed : ∀ {s who factId found}, fact s who factId = some found → found.id = factId
  session_store : ∀ {s s' stored}, write (.storeSession stored) s = .ok s' →
    session s' stored.id = some stored
  session_delete : ∀ {s s' sessionId}, write (.deleteSession sessionId) s = .ok s' →
    session s' sessionId = none
  fact_store : ∀ {s s' who stored}, write (.storeFact who stored) s = .ok s' →
    fact s' who stored.id = some stored
  fact_delete : ∀ {s s' who factId}, write (.deleteFact who factId) s = .ok s' →
    fact s' who factId = none
  fact_importance : ∀ {s s' who factId importance},
    write (.updateFactImportance who factId importance) s = .ok s' →
      SameFact (fact s' who factId) ((fact s who factId).map (·.withImportance importance))
  fact_protection : ∀ {s s' who factId protection},
    write (.setFactProtection who factId protection) s = .ok s' →
      SameFact (fact s' who factId) ((fact s who factId).map (·.withProtection protection))
  fact_review : ∀ {s s' request factId status}, request.reviewed = some (factId, status) →
    write request s = .ok s' → ∀ who,
      SameFact (fact s' who factId) ((fact s who factId).map (·.withStatus status))

/-- The errors of the manager: its own, and those of the durable memory passed on. -/
inductive MemoryError where
  | memoryConsistency (message : String)
  | durable (message : String)

structure Layers (σ : Type) where
  hot : HotLayer
  engram : σ

namespace MemoryManager

variable {σ : Type} (memory : DurableMemory σ) (cipher : FactCipher) (clock : Clock)

def snapshotFact (who : Partition) (factId : String) (hot : HotLayer) : Option Fact :=
  (hot.retrieveFacts cipher.security who).find? (·.id == factId)

def restoreSessionLayer (sessionId : String) (previous : Option AgentSession) (hot : HotLayer) :
    HotLayer :=
  match previous with
  | some session => hot.storeSession session
  | none => hot.deleteSession sessionId

def restoreFactLayer (who : Partition) (factId : String) (previous : Option Fact)
    (hot : HotLayer) : HotLayer :=
  let hot := hot.deleteFact who factId
  match previous with
  | some fact => hot.storeFact cipher who fact
  | none => hot

/-- The hot layer is written first, and restored when the durable write fails. -/
def writeBoth (request : MemoryWrite) (doing operation subject : String)
    (write restore : HotLayer → HotLayer) (layers : Layers σ) :
    Layers σ × Except MemoryError Unit :=
  let hot := write layers.hot
  match memory.write request layers.engram with
  | .ok engram => ({ hot, engram }, .ok ())
  | .error err =>
      ({ layers with hot := restore hot }, .error (.memoryConsistency
        s!"{operation} failed while {doing} {subject}: {err}; hot layer was rolled back"))

def storeSessionConsistently (session : AgentSession) (operation : String) (layers : Layers σ) :
    Layers σ × Except MemoryError Unit :=
  let hotPrevious := layers.hot.retrieveSession session.id
  writeBoth memory (.storeSession session) "writing durable session" operation session.id
    (·.storeSession session) (restoreSessionLayer session.id hotPrevious) layers

def deleteSessionConsistently (sessionId operation : String) (layers : Layers σ) :
    Layers σ × Except MemoryError Unit :=
  let hotPrevious := layers.hot.retrieveSession sessionId
  writeBoth memory (.deleteSession sessionId) "deleting durable session" operation sessionId
    (·.deleteSession sessionId) (restoreSessionLayer sessionId hotPrevious) layers

def storeFactConsistently (who : Partition) (fact : Fact) (operation : String)
    (layers : Layers σ) : Layers σ × Except MemoryError Unit :=
  let hotPrevious := snapshotFact cipher who fact.id layers.hot
  writeBoth memory (.storeFact who fact) "writing durable fact" operation fact.id
    (·.storeFact cipher who fact) (restoreFactLayer cipher who fact.id hotPrevious) layers

def deleteFactConsistently (who : Partition) (factId operation : String) (layers : Layers σ) :
    Layers σ × Except MemoryError Unit :=
  let hotPrevious := snapshotFact cipher who factId layers.hot
  writeBoth memory (.deleteFact who factId) "deleting durable fact" operation factId
    (·.deleteFact who factId) (restoreFactLayer cipher who factId hotPrevious) layers

def updateFactImportanceConsistently (who : Partition) (factId : String) (importance : ℚ)
    (operation : String) (layers : Layers σ) : Layers σ × Except MemoryError Unit :=
  let hotPrevious := snapshotFact cipher who factId layers.hot
  writeBoth memory (.updateFactImportance who factId importance)
    "updating durable fact importance" operation factId
    (·.updateFactImportance clock who factId importance)
    (restoreFactLayer cipher who factId hotPrevious) layers

def updateFactProtectionConsistently (who : Partition) (factId : String)
    (protection : FactProtection) (operation : String) (layers : Layers σ) :
    Layers σ × Except MemoryError Unit :=
  let hotPrevious := snapshotFact cipher who factId layers.hot
  writeBoth memory (.setFactProtection who factId protection)
    "updating durable fact protection" operation factId
    (·.setFactProtection clock who factId protection)
    (restoreFactLayer cipher who factId hotPrevious) layers

def writeReview (request : MemoryWrite) (follow : HotLayer → HotLayer) (layers : Layers σ) :
    Layers σ × Except MemoryError Unit :=
  match memory.write request layers.engram with
  | .ok engram => ({ hot := follow layers.hot, engram }, .ok ())
  | .error err => (layers, .error (.durable err))

/-- The operations of the manager on sessions and facts. -/
def run : MemoryWrite → Layers σ → Layers σ × Except MemoryError Unit
  | .storeSession session => storeSessionConsistently memory session "store_session"
  | .deleteSession sessionId => deleteSessionConsistently memory sessionId "delete_session"
  | .storeFact who fact => storeFactConsistently memory cipher who fact "store_fact"
  | .deleteFact who factId => deleteFactConsistently memory cipher who factId "delete_fact"
  | .updateFactImportance who factId importance =>
      updateFactImportanceConsistently memory cipher clock who factId importance
        "update_fact_importance"
  | .setFactProtection who factId protection =>
      updateFactProtectionConsistently memory cipher clock who factId protection
        "set_fact_protection"
  | .markVerified factId => writeReview memory (.markVerified factId) (·.markVerified clock factId)
  | .markPendingReview factId summary =>
      writeReview memory (.markPendingReview factId summary)
        (·.markPendingReview clock factId summary)
  | .requestFactReview factId payload =>
      writeReview memory (.requestFactReview factId payload)
        (·.requestFactReview clock factId payload)
  | .resolvePendingReview factId resolution =>
      writeReview memory (.resolvePendingReview factId resolution)
        (·.resolvePendingReview clock factId resolution)
  | .markPruned factId => writeReview memory (.markPruned factId) (·.markPruned clock factId)

end MemoryManager

end BenShu.Memory
