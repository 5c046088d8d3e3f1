import BenShu.Engram.Fts
import BenShu.Knowledge.Triple
import BenShu.Lib.PositionIndex

/-!
# The knowledge graph

Triples and events over entities, with an index for each way to ask for them. The order
of hash maps is a parameter.
-/

namespace BenShu.Knowledge

structure Entity where
  id : String
  entityType : String
  properties : Table String String := ∅

/-- A relationship between any number of entities. -/
structure Hyperedge where
  id : String
  label : String
  participants : List String
  properties : Table String String := ∅
  createdAtMs : Int := 0
  sentiment : Option String := none
  urgency : Rat := 0

inductive GraphFault where
  | invalid (fault : TripleFault)
  | internal (text : String)

def maxTriples : Nat := 100000
def maxHyperedges : Nat := 50000

structure KnowledgeGraph where
  triples : List Triple := []
  entities : Table String Entity := ∅
  hyperedges : List Hyperedge := []
  subjectIndex : PositionIndex String := ∅
  objectIndex : PositionIndex String := ∅
  participantIndex : PositionIndex String := ∅

namespace KnowledgeGraph

def autoRegister (entities : Table String Entity) (id : String) : Table String Entity :=
  if id ∈ entities then entities else entities.insert id { id := id, entityType := "auto" }

/-- Enter a triple into the indices and register its ends. -/
def indexTriple (kg : KnowledgeGraph) (position : Nat) (triple : Triple) : KnowledgeGraph :=
  { kg with
    subjectIndex := kg.subjectIndex.push position triple.subject
    objectIndex := kg.objectIndex.push position triple.object
    entities := autoRegister (autoRegister kg.entities triple.subject) triple.object }

def addTriple (kg : KnowledgeGraph) (triple : Triple) : KnowledgeGraph × Except GraphFault Unit :=
  if kg.triples.length ≥ maxTriples then
    (kg, .error (.internal s!"KnowledgeGraph limit reached: {maxTriples} triples"))
  else
    let indexed := kg.indexTriple kg.triples.length triple
    ({ indexed with triples := kg.triples ++ [triple] }, .ok ())

def firstFault (triples : List Triple) : Option TripleFault :=
  triples.findSome? fun triple =>
    match validateTriple triple with
    | .error fault => some fault
    | .ok () => none

/-- Enter triples that stand one after the other from a position on. -/
def indexTriples (kg : KnowledgeGraph) (start : Nat) : List Triple → KnowledgeGraph
  | [] => kg
  | triple :: rest => (kg.indexTriple start triple).indexTriples (start + 1) rest

def addTriplesBatch (kg : KnowledgeGraph) (triples : List Triple) :
    KnowledgeGraph × Except GraphFault Nat :=
  if kg.triples.length + triples.length > maxTriples then
    (kg, .error (.internal (s!"KnowledgeGraph limit exceeded ({kg.triples.length} + " ++
      s!"{triples.length} > {maxTriples})")))
  else match firstFault triples with
    | some fault => (kg, .error (.invalid fault))
    | none =>
        let extended := { kg with triples := kg.triples ++ triples }
        (extended.indexTriples kg.triples.length triples, .ok triples.length)

def addEntity (kg : KnowledgeGraph) (entity : Entity) : KnowledgeGraph :=
  { kg with entities := kg.entities.insert entity.id entity }

def addHyperedge (kg : KnowledgeGraph) (hyperedge : Hyperedge) :
    KnowledgeGraph × Except GraphFault Unit :=
  if kg.hyperedges.length ≥ maxHyperedges then
    (kg, .error (.internal s!"KG Hyperedge limit reached ({maxHyperedges})"))
  else
    ({ kg with
        participantIndex := kg.participantIndex.add kg.hyperedges.length hyperedge.participants
        entities := hyperedge.participants.foldl autoRegister kg.entities
        hyperedges := kg.hyperedges ++ [hyperedge] }, .ok ())

/-! ## Queries -/

def queryParticipantEvents (kg : KnowledgeGraph) (participant : String) : Option (List Hyperedge) :=
  PositionIndex.fetch kg.hyperedges (kg.participantIndex.entry participant)

def querySubject (kg : KnowledgeGraph) (subject : String) : Option (List Triple) :=
  PositionIndex.fetch kg.triples (kg.subjectIndex.entry subject)

def queryObject (kg : KnowledgeGraph) (object : String) : Option (List Triple) :=
  PositionIndex.fetch kg.triples (kg.objectIndex.entry object)

def subjectFault (kg : KnowledgeGraph) (entity : String) (position : Nat) : Option String :=
  match kg.triples[position]? with
  | none => some s!"Out-of-bounds index {position} for subject {entity}"
  | some triple =>
      if triple.subject ≠ entity then
        some (s!"Subject mismatch at index {position}: expected {entity}, " ++
          s!"found {triple.subject}")
      else none

def checkIndexConsistency (kg : KnowledgeGraph) : List String :=
  kg.subjectIndex.entries.flatMap fun entry => entry.2.filterMap (kg.subjectFault entry.1)

/-! ## Changes of the whole graph -/

def rebuildIndices (kg : KnowledgeGraph) : KnowledgeGraph :=
  { kg with
    subjectIndex := ((∅ : PositionIndex String).addAll (fun triple : Triple => [triple.subject]) 0
      kg.triples).sorted
    objectIndex := ((∅ : PositionIndex String).addAll (fun triple : Triple => [triple.object]) 0
      kg.triples).sorted
    participantIndex := ((∅ : PositionIndex String).addAll Hyperedge.participants 0
      kg.hyperedges).sorted }

def removeEntity (kg : KnowledgeGraph) (entityId : String) : KnowledgeGraph :=
  { kg with
    triples := kg.triples.filter fun triple => triple.subject ≠ entityId ∧ triple.object ≠ entityId
    entities := kg.entities.erase entityId }.rebuildIndices

/-- How many ends of triples each entity is. -/
def degreeMap (triples : List Triple) : Table String Nat :=
  triples.foldl (fun degrees triple =>
    let bump (degrees : Table String Nat) (id : String) :=
      degrees.insert id ((degrees.lookup id).getD 0 + 1)
    bump (bump degrees triple.subject) triple.object) ∅

def conceptId (centroid : String) : String := s!"concept://summary_of_{centroid}"

def conceptEntity (centroid : String) : Entity where
  id := conceptId centroid
  entityType := "AbstractConcept"
  properties := Table.ofList [("derived_from", centroid)]

def conceptTriple (centroid : String) : Triple where
  subject := conceptId centroid
  predicate := "summarizes"
  object := centroid
  metadata := Table.ofList [("system_generated", "true")]
  urgency := 1 / 10

/-- Add a concept for each centroid that has none. A full graph ends the loop after the
entity is added. -/
def addConcepts (kg : KnowledgeGraph) (count : Nat) :
    List String → KnowledgeGraph × Except GraphFault Nat
  | [] => (kg, .ok count)
  | centroid :: rest =>
      if conceptId centroid ∈ kg.entities then kg.addConcepts count rest
      else
        match (kg.addEntity (conceptEntity centroid)).addTriple (conceptTriple centroid) with
        | (kg, .error fault) => (kg, .error fault)
        | (kg, .ok ()) => kg.addConcepts (count + 1) rest

def distillConcepts (order : Engram.HashOrder) (kg : KnowledgeGraph) :
    KnowledgeGraph × Except GraphFault Nat :=
  let degrees := degreeMap kg.triples
  let totalDegree := degrees.total id
  let avgDegree := if kg.entities.size = 0 then 0 else totalDegree / kg.entities.size
  let threshold := max (avgDegree * 2) 5
  let centroids := (order.arrange degrees.keys).filter fun id =>
    (degrees.lookup id).getD 0 ≥ threshold
  kg.addConcepts 0 centroids

end KnowledgeGraph

inductive GraphCall where
  | addTriple (triple : Triple)
  | addTriplesBatch (triples : List Triple)
  | addEntity (entity : Entity)
  | addHyperedge (hyperedge : Hyperedge)
  | removeEntity (entityId : String)
  | rebuildIndices
  | distillConcepts (order : Engram.HashOrder)

def KnowledgeGraph.perform (kg : KnowledgeGraph) : GraphCall → KnowledgeGraph
  | .addTriple triple => (kg.addTriple triple).1
  | .addTriplesBatch triples => (kg.addTriplesBatch triples).1
  | .addEntity entity => kg.addEntity entity
  | .addHyperedge hyperedge => (kg.addHyperedge hyperedge).1
  | .removeEntity entityId => kg.removeEntity entityId
  | .rebuildIndices => kg.rebuildIndices
  | .distillConcepts order => (kg.distillConcepts order).1

end BenShu.Knowledge
