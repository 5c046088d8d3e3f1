import BenShu.Lib.Table
import BenShu.Lib.Text

/-!
# Agent sessions

The part of a session that retention reads: when it was updated, archived and recovered,
and the background it carries. Times are nanoseconds.
-/

namespace BenShu.Protocol

abbrev DateTime := Int

def timestampMillis (time : DateTime) : Int := time / 1000000

structure SessionLifecycle where
  archivedAt : Option DateTime := none
  archiveReason : Option String := none
  retentionUntil : Option DateTime := none
  lastRecoveredAt : Option DateTime := none
  recoveredFrom : Option String := none

structure BackgroundEnvelope where
  revision : Nat
  metadata : Table String String

structure AgentSession where
  id : String
  updatedAt : DateTime
  lifecycle : SessionLifecycle := {}
  backgroundEnvelope : Option BackgroundEnvelope := none

namespace AgentSession

/-- The clock is read twice. -/
def archive (archivedAt updatedAt : DateTime) (session : AgentSession) (reason : Option String)
    (retentionUntil : Option DateTime) : AgentSession :=
  { session with
    lifecycle := { session.lifecycle with
      archivedAt := some archivedAt
      archiveReason := reason.filter fun value => Text.trim value ≠ ""
      retentionUntil := retentionUntil }
    updatedAt := updatedAt }

def markRecovered (recoveredAt updatedAt : DateTime) (session : AgentSession) (source : String) :
    AgentSession :=
  { session with
    lifecycle := { session.lifecycle with
      lastRecoveredAt := some recoveredAt
      recoveredFrom := some source }
    updatedAt := updatedAt }

def isArchived (session : AgentSession) : Bool := session.lifecycle.archivedAt.isSome

def retentionExpiredAt (session : AgentSession) (now : DateTime) : Bool :=
  session.isArchived &&
    (session.lifecycle.retentionUntil.map fun deadline => decide (deadline ≤ now)).getD false

end AgentSession

end BenShu.Protocol
