import BenShu.Lib.RecentWindow
import BenShu.Protocol.Message

/-!
# Short-term memory

The conversations of the users in two layers: a window of the latest messages in memory,
and the history that is persisted.
-/

namespace BenShu.Memory

open Protocol

structure StoredMessage extends Message where
  createdAt : DateTime
  lastAccessed : DateTime
  utilityScore : ℚ

/-- A user, with one of the agents or with none. -/
structure Partition where
  userId : String
  agentId : Option String
deriving DecidableEq

def key (who : Partition) : String :=
  match who.agentId with
  | some agentId => s!"{who.userId}:{agentId}"
  | none => who.userId

/-- Access times count nanoseconds. -/
structure ShortTermMemory where
  maxMessages : Nat
  maxUsers : Nat
  store : Table String (List StoredMessage) := ∅
  lastAccess : Table String Nat := ∅
  /-- The persisted histories. -/
  messages : Table String (List StoredMessage) := ∅

/-- `0.4 * (-0.693 * (minutes / 60) / 720).exp() + 0.6 * utility`, in single precision. -/
abbrev RetentionScore := Int → ℚ → ℚ

def retentionThreshold : ℚ := 13421773 / 134217728

def retained (score : RetentionScore) (now : DateTime) (message : StoredMessage) : Bool :=
  let minutesSince := (now - message.lastAccessed).tdiv (60 * 1000000000)
  score minutesSince message.utilityScore > retentionThreshold

def historyLimit : Nat := 3000

def inactiveAfter : Nat := 7 * 24 * 3600 * 1000000000

def expiredAfter : Int := 90 * 24 * 3600 * 1000000000

namespace ShortTermMemory

def window (memory : ShortTermMemory) (key : String) : List StoredMessage :=
  (memory.store.lookup key).getD []

def persisted (memory : ShortTermMemory) (key : String) : List StoredMessage :=
  (memory.messages.lookup key).getD []

def updateL2History (key : String) (newMessages : List StoredMessage) (isUndo : Bool)
    (memory : ShortTermMemory) : ShortTermMemory :=
  let history := memory.persisted key
  let history :=
    if isUndo then history.dropLast
    else newMessages.foldl (RecentWindow.push historyLimit) history
  { memory with messages := memory.messages.insert key history }

/-- The session that was not accessed for the longest time, among those accessed before
`now`; the entries are gone through in the order of the map. -/
def oldestKey (now : Nat) (entries : List String) (memory : ShortTermMemory) : Option String :=
  (entries.foldl (fun oldest key =>
    match memory.lastAccess.lookup key with
    | some time => if time < oldest.2 then (some key, time) else oldest
    | none => oldest) (none, now)).1

def evictedKey (now : Nat) (entries : List String) (memory : ShortTermMemory) : Option String :=
  if memory.store.size < memory.maxUsers then none else memory.oldestKey now entries

def enforceUserCapacity (now : Nat) (entries : List String) (memory : ShortTermMemory) :
    ShortTermMemory :=
  match memory.evictedKey now entries with
  | none => memory
  | some key =>
      { memory with
        store := memory.store.erase key
        lastAccess := memory.lastAccess.erase key }

def storeBatch (who : Partition) (messages : List StoredMessage) (now : Nat)
    (entries : List String) (memory : ShortTermMemory) : ShortTermMemory :=
  let key := key who
  let memory := if key ∈ memory.store then memory else memory.enforceUserCapacity now entries
  let window := messages.foldl (RecentWindow.push memory.maxMessages) (memory.window key)
  { memory with
      store := memory.store.insert key window
      lastAccess := memory.lastAccess.insert key now }.updateL2History key messages false

def storeMessage (who : Partition) (message : StoredMessage) (now : Nat) (entries : List String)
    (memory : ShortTermMemory) : ShortTermMemory :=
  memory.storeBatch who [message] now entries

def retrieve (who : Partition) (limit : Nat) (memory : ShortTermMemory) : List StoredMessage :=
  RecentWindow.recent limit (memory.window (key who))

def accessed (who : Partition) (now : Nat) (memory : ShortTermMemory) : ShortTermMemory :=
  { memory with lastAccess := memory.lastAccess.insert (key who) now }

def undone (who : Partition) (memory : ShortTermMemory) : Option StoredMessage :=
  (memory.window (key who)).getLast?

/-- The persisted history follows only where the window had a message. -/
def undo (who : Partition) (memory : ShortTermMemory) : ShortTermMemory :=
  match memory.undone who with
  | none => memory
  | some _ =>
      { memory with
        store := memory.store.insert (key who) (memory.window (key who)).dropLast
        }.updateL2History (key who) [] true

def inactiveKeys (now : Nat) (memory : ShortTermMemory) : List String :=
  memory.lastAccess.keys.filter fun key =>
    (memory.lastAccess.lookup key).any fun time => ¬now - time < inactiveAfter

def pruneInactive (now : Nat) (memory : ShortTermMemory) : ShortTermMemory :=
  { memory with
    store := (memory.inactiveKeys now).foldl (fun store key => store.erase key) memory.store
    lastAccess :=
      (memory.inactiveKeys now).foldl (fun times key => times.erase key) memory.lastAccess }

def expired (threshold : DateTime) (history : List StoredMessage) : Bool :=
  history.getLast?.any fun last => last.createdAt < threshold

def pruneMessages (threshold : DateTime) (memory : ShortTermMemory) : ShortTermMemory :=
  let keysToDelete := memory.messages.keys.filter fun key =>
    expired threshold (memory.persisted key)
  { memory with
    messages := keysToDelete.foldl (fun messages key => messages.erase key) memory.messages }

def dirtySnapshot (keep : StoredMessage → Bool) (window : List StoredMessage) :
    Option (List StoredMessage) :=
  if (window.filter keep).length ≠ window.length then some (window.filter keep) else none

def retainMessages (keep : StoredMessage → Bool) (memory : ShortTermMemory) : ShortTermMemory :=
  { memory with
    store := Table.collect (fun window => some (window.filter keep)) memory.store
    messages := Table.collect (dirtySnapshot keep) memory.store ∪ memory.messages }

/-- Both clocks are read: one for accesses, one for the ages of messages. -/
def maintenance (score : RetentionScore) (now : Nat) (utcNow : DateTime) (entries : List String)
    (memory : ShortTermMemory) : ShortTermMemory :=
  (((memory.pruneInactive now).enforceUserCapacity now entries).pruneMessages
    (utcNow - expiredAfter)).retainMessages (retained score utcNow)

/-- A memory opened again on its database. The warm-up fills copies of the two maps, which
go away with its task. -/
def reopen (memory : ShortTermMemory) : ShortTermMemory :=
  { memory with store := ∅, lastAccess := ∅ }

end ShortTermMemory

/-- What is done with a memory, with the times and the order of the access map. -/
inductive MemoryOp where
  | store (who : Partition) (message : StoredMessage) (now : Nat) (entries : List String)
  | storeBatch (who : Partition) (messages : List StoredMessage) (now : Nat)
      (entries : List String)
  | retrieve (who : Partition) (now : Nat)
  | undo (who : Partition)
  | maintenance (now : Nat) (utcNow : DateTime) (entries : List String)
  | pruneMessages (threshold : DateTime)
  | enforceUserCapacity (now : Nat) (entries : List String)
  | reopen

namespace MemoryOp

def run (score : RetentionScore) (memory : ShortTermMemory) : MemoryOp → ShortTermMemory
  | store who message now entries => memory.storeMessage who message now entries
  | storeBatch who messages now entries => memory.storeBatch who messages now entries
  | retrieve who now => memory.accessed who now
  | undo who => memory.undo who
  | maintenance now utcNow entries => memory.maintenance score now utcNow entries
  | pruneMessages threshold => memory.pruneMessages threshold
  | enforceUserCapacity now entries => memory.enforceUserCapacity now entries
  | reopen => memory.reopen

def who? : MemoryOp → Option Partition
  | store who _ _ _ => some who
  | storeBatch who _ _ _ => some who
  | retrieve who _ => some who
  | undo who => some who
  | _ => none

end MemoryOp

end BenShu.Memory
