import BenShu.Protocol.AgentSession
import Mathlib.Data.Rat.Init

/-!
# Facts

A distilled piece of knowledge with its relations to other facts. Scores are exact
rationals.
-/

namespace BenShu.Memory

open Protocol

inductive FactStatus where
  | pending
  | verified
  | pendingReview
  | archived
deriving DecidableEq

inductive FactProtection where
  | normal
  | pinned
  | «protected»
  | coreIdentity
deriving DecidableEq

/-- A directed edge of the knowledge graph. -/
structure Relation where
  predicate : String
  targetId : String
  strength : ℚ
deriving DecidableEq

structure Fact where
  id : String
  category : String
  content : String
  importance : ℚ
  createdAt : DateTime
  updatedAt : DateTime
  verified : Bool
  source : Option String
  confidence : ℚ
  relations : List Relation
  semanticHash : Option String
  status : FactStatus
  protection : FactProtection
deriving DecidableEq

end BenShu.Memory
