import BenShu.Knowledge.Triple
import BenShu.Lib.OrderedTable
import Mathlib.Data.Char

/-!
# Stores of triples

Two backends keep triples with a record of bytes. One keeps a list of them, the other
three tables whose keys are the components in different orders. A query of the second
is a scan of one table.
-/

namespace BenShu.Engram

open Knowledge

/-- A triple with its record. -/
@[ext]
structure StoredTriple (Bytes : Type) where
  subject : String
  predicate : String
  object : String
  data : Bytes

variable {Bytes : Type}

namespace StoredTriple

def Same (x y : StoredTriple Bytes) : Prop :=
  x.subject = y.subject ∧ x.predicate = y.predicate ∧ x.object = y.object

instance (x y : StoredTriple Bytes) : Decidable (x.Same y) :=
  inferInstanceAs (Decidable (_ ∧ _ ∧ _))

end StoredTriple

/-- What a query fixes. -/
structure TriplePattern where
  subject : Option String := none
  predicate : Option String := none
  object : Option String := none

def TriplePattern.Matches (pattern : TriplePattern) (x : StoredTriple Bytes) : Prop :=
  (∀ s ∈ pattern.subject, x.subject = s) ∧ (∀ p ∈ pattern.predicate, x.predicate = p) ∧
    ∀ o ∈ pattern.object, x.object = o

instance (pattern : TriplePattern) (x : StoredTriple Bytes) : Decidable (pattern.Matches x) :=
  inferInstanceAs (Decidable (_ ∧ _ ∧ _))

/-! ## The list -/

structure InMemoryStorage (Bytes : Type) where
  triples : List (StoredTriple Bytes) := []

namespace InMemoryStorage

def remove (store : InMemoryStorage Bytes) (x : StoredTriple Bytes) : InMemoryStorage Bytes :=
  { store with triples := store.triples.filter fun y => ¬y.Same x }

def putTriple (store : InMemoryStorage Bytes) (x : StoredTriple Bytes) : InMemoryStorage Bytes :=
  { store with triples := (store.remove x).triples ++ [x] }

def putTriplesBatch (store : InMemoryStorage Bytes) (batch : List (StoredTriple Bytes)) :
    InMemoryStorage Bytes :=
  batch.foldl putTriple store

def deleteTriple (store : InMemoryStorage Bytes) (x : StoredTriple Bytes) :
    InMemoryStorage Bytes × Bool :=
  (store.remove x, decide ((store.remove x).triples.length < store.triples.length))

def queryTriples (store : InMemoryStorage Bytes) (pattern : TriplePattern) :
    List (StoredTriple Bytes) :=
  store.triples.filter fun x => pattern.Matches x

end InMemoryStorage

/-! ## The tables -/

inductive TripleTable where
  | spo
  | ops
  | pos
  deriving DecidableEq

namespace TripleTable

def parts (table : TripleTable) (x : StoredTriple Bytes) : String × String × String :=
  match table with
  | spo => (x.subject, x.predicate, x.object)
  | ops => (x.object, x.predicate, x.subject)
  | pos => (x.predicate, x.object, x.subject)

def triple (table : TripleTable) (a b c : String) (data : Bytes) : StoredTriple Bytes :=
  match table with
  | spo => ⟨a, b, c, data⟩
  | ops => ⟨c, b, a, data⟩
  | pos => ⟨c, a, b, data⟩

end TripleTable

def joinKey (parts : String × String × String) : String :=
  s!"{parts.1}{separator}{parts.2.1}{separator}{parts.2.2}"

structure EngramKV (Bytes : Type) where
  spo : Table String Bytes := ∅
  ops : Table String Bytes := ∅
  pos : Table String Bytes := ∅

namespace EngramKV

def table (kv : EngramKV Bytes) : TripleTable → Table String Bytes
  | .spo => kv.spo
  | .ops => kv.ops
  | .pos => kv.pos

def putTriple (kv : EngramKV Bytes) (x : StoredTriple Bytes) : EngramKV Bytes where
  spo := kv.spo.insert (joinKey (TripleTable.spo.parts x)) x.data
  ops := kv.ops.insert (joinKey (TripleTable.ops.parts x)) x.data
  pos := kv.pos.insert (joinKey (TripleTable.pos.parts x)) x.data

def putTriplesBatch (kv : EngramKV Bytes) (batch : List (StoredTriple Bytes)) : EngramKV Bytes :=
  batch.foldl putTriple kv

def deleteTriple (kv : EngramKV Bytes) (x : StoredTriple Bytes) : EngramKV Bytes × Bool :=
  ({ spo := kv.spo.erase (joinKey (TripleTable.spo.parts x))
     ops := kv.ops.erase (joinKey (TripleTable.ops.parts x))
     pos := kv.pos.erase (joinKey (TripleTable.pos.parts x)) },
    (kv.spo.lookup (joinKey (TripleTable.spo.parts x))).isSome)

/-- The triple of a record, if the key has three parts and the triple is asked for. -/
def processTripleResult (table : TripleTable) (pattern : TriplePattern) (key : String)
    (value : Bytes) : Option (StoredTriple Bytes) :=
  match Text.split key (· == separator) with
  | [a, b, c] =>
      let x := table.triple a b c value
      if pattern.Matches x then some x else none
  | _ => none

/-- The table that a query scans and the prefix of its keys. -/
def scanOf (pattern : TriplePattern) : TripleTable × String :=
  match pattern.subject, pattern.predicate, pattern.object with
  | some subject, some predicate, _ => (.spo, s!"{subject}{separator}{predicate}{separator}")
  | some subject, none, _ => (.spo, s!"{subject}{separator}")
  | none, some predicate, some object => (.ops, s!"{object}{separator}{predicate}{separator}")
  | none, none, some object => (.ops, s!"{object}{separator}")
  | none, some predicate, none => (.pos, s!"{predicate}{separator}")
  | none, none, none => (.spo, "")

def sentinel : Char := Char.ofNat 0x10ffff

/-- The records from one key up to another, in the order of their keys. -/
def range (t : Table String Bytes) (start stop : String) : List (String × Bytes) :=
  ((t.entries.filter fun entry =>
    KeyRange.Between start.toList stop.toList entry.1.toList).map fun entry =>
      (entry.1, entry.2)).mergeSort fun x y => ¬y.1.toList < x.1.toList

def queryTriples (kv : EngramKV Bytes) (pattern : TriplePattern) : List (StoredTriple Bytes) :=
  let scan := scanOf pattern
  (range (kv.table scan.1) scan.2 s!"{scan.2}{sentinel}").filterMap fun record =>
    processTripleResult scan.1 pattern record.1 record.2

end EngramKV

/-! ## Calls -/

/-- A valid triple and a record for it. -/
structure ValidRecord (Bytes : Type) where
  triple : Triple
  data : Bytes
  valid : validateTriple triple = .ok ()

def ValidRecord.stored (record : ValidRecord Bytes) : StoredTriple Bytes :=
  ⟨record.triple.subject, record.triple.predicate, record.triple.object, record.data⟩

inductive TripleCall (Bytes : Type) where
  | putTriple (record : ValidRecord Bytes)
  | putTriplesBatch (batch : List (ValidRecord Bytes))
  | deleteTriple (record : ValidRecord Bytes)

def InMemoryStorage.perform (store : InMemoryStorage Bytes) : TripleCall Bytes → InMemoryStorage Bytes
  | .putTriple record => store.putTriple record.stored
  | .putTriplesBatch batch => store.putTriplesBatch (batch.map (·.stored))
  | .deleteTriple record => (store.deleteTriple record.stored).1

def EngramKV.perform (kv : EngramKV Bytes) : TripleCall Bytes → EngramKV Bytes
  | .putTriple record => kv.putTriple record.stored
  | .putTriplesBatch batch => kv.putTriplesBatch (batch.map (·.stored))
  | .deleteTriple record => (kv.deleteTriple record.stored).1

end BenShu.Engram
