import BenShu.Engram.TripleRefinement

/-!
# The persistent graph

The fields of a triple that have no column of their own are kept in its metadata, under
reserved keys, and taken out of it by a query. The JSON codec of the metadata and the
decimal form of an urgency are parameters.
-/

namespace BenShu.Engram

variable {Bytes : Type}

/-! ## Storage -/

inductive StorageKind where
  | inMemory
  | engram

/-- The storage behind a graph. -/
inductive TripleStorage (Bytes : Type) where
  | inMemory (store : InMemoryStorage Bytes)
  | engram (kv : EngramKV Bytes)

namespace TripleStorage

def new : StorageKind → TripleStorage Bytes
  | .inMemory => .inMemory {}
  | .engram => .engram {}

def putTriple (storage : TripleStorage Bytes) (x : StoredTriple Bytes) : TripleStorage Bytes :=
  match storage with
  | inMemory store => inMemory (store.putTriple x)
  | engram kv => engram (kv.putTriple x)

def putTriplesBatch (storage : TripleStorage Bytes) (batch : List (StoredTriple Bytes)) :
    TripleStorage Bytes :=
  match storage with
  | inMemory store => inMemory (store.putTriplesBatch batch)
  | engram kv => engram (kv.putTriplesBatch batch)

def queryTriples (storage : TripleStorage Bytes) (pattern : TriplePattern) :
    List (StoredTriple Bytes) :=
  match storage with
  | inMemory store => store.queryTriples pattern
  | engram kv => kv.queryTriples pattern

def perform (storage : TripleStorage Bytes) (call : TripleCall Bytes) : TripleStorage Bytes :=
  match storage with
  | inMemory store => inMemory (store.perform call)
  | engram kv => engram (kv.perform call)

def run (storage : TripleStorage Bytes) (calls : List (TripleCall Bytes)) : TripleStorage Bytes :=
  calls.foldl perform storage

end TripleStorage

/-! ## What the storage holds -/

/-- The call puts or deletes the components. -/
def TripleCall.Touches (x : StoredTriple Bytes) : TripleCall Bytes → Prop
  | .putTriple record => record.stored.Same x
  | .putTriplesBatch batch => ∃ record ∈ batch, record.stored.Same x
  | .deleteTriple record => record.stored.Same x

variable {storage : TripleStorage Bytes} {store : InMemoryStorage Bytes} {x y : StoredTriple Bytes}

theorem mem_putTriple_iff (store : InMemoryStorage Bytes) (x y : StoredTriple Bytes) :
    y ∈ (store.putTriple x).triples ↔ y ∈ store.triples ∧ ¬y.Same x ∨ y = x := by
  show y ∈ (store.remove x).triples ++ [x] ↔ _
  rw [List.mem_append, mem_remove_iff, List.mem_singleton]

def TripleStorage.Holds (storage : TripleStorage Bytes) (store : InMemoryStorage Bytes) : Prop :=
  match storage with
  | inMemory own => own = store
  | engram kv => Refines kv store

theorem TripleStorage.holds_new (kind : StorageKind) :
    (TripleStorage.new kind : TripleStorage Bytes).Holds {} := by
  cases kind with
  | inMemory => rfl
  | engram => exact refines_empty

theorem TripleStorage.Holds.perform (h : storage.Holds store) (call : TripleCall Bytes) :
    (storage.perform call).Holds (store.perform call) := by
  cases storage with
  | inMemory own => exact congrArg (fun s => s.perform call) h
  | engram kv => exact Refines.perform h call

theorem TripleStorage.Holds.run (h : storage.Holds store) (calls : List (TripleCall Bytes)) :
    (storage.run calls).Holds (calls.foldl InMemoryStorage.perform store) := by
  induction calls generalizing storage store with
  | nil => exact h
  | cons call calls ih => exact ih (h.perform call)

theorem TripleStorage.Holds.putTriple (h : storage.Holds store) (hx : Plain x) :
    (storage.putTriple x).Holds (store.putTriple x) := by
  cases storage with
  | inMemory own => exact congrArg (fun s => s.putTriple x) h
  | engram kv => exact Refines.putTriple h hx

/-- A triple whose predicate does not start with the greatest letter is found under its
subject exactly when it is held. -/
theorem TripleStorage.Holds.mem_querySubject (h : storage.Holds store)
    (hpredicate : x.predicate.toList.head? ≠ some EngramKV.sentinel) :
    x ∈ storage.queryTriples { subject := some x.subject } ↔ x ∈ store.triples := by
  have hmatches : ({ subject := some x.subject } : TriplePattern).Matches x :=
    ⟨fun s hs => Option.some.inj hs, fun _ hp => (nomatch hp), fun _ ho => (nomatch ho)⟩
  cases storage with
  | inMemory own =>
      have hown : own = store := h
      show x ∈ own.queryTriples _ ↔ _
      rw [mem_inMemory_iff, hown]
      exact and_iff_left hmatches
  | engram kv =>
      show x ∈ kv.queryTriples _ ↔ _
      rw [mem_queryTriples_iff h]
      exact and_iff_left ⟨hmatches, hpredicate⟩

theorem TripleStorage.Holds.subject_of_mem (h : storage.Holds store) {subject : String}
    (hx : x ∈ storage.queryTriples { subject := some subject }) : x.subject = subject := by
  cases storage with
  | inMemory own => exact (mem_inMemory_iff.mp hx).2.1 subject rfl
  | engram kv => exact ((mem_queryTriples_iff h).mp hx).2.1.1 subject rfl

theorem StoredTriple.Same.symm (h : x.Same y) : y.Same x :=
  ⟨h.1.symm, h.2.1.symm, h.2.2.symm⟩

theorem StoredTriple.Same.trans {z : StoredTriple Bytes} (h : x.Same y) (h' : y.Same z) : x.Same z :=
  ⟨h.1.trans h'.1, h.2.1.trans h'.2.1, h.2.2.trans h'.2.2⟩

theorem mem_perform_iff {call : TripleCall Bytes} (hcall : ¬call.Touches x) (hsame : y.Same x) :
    y ∈ (store.perform call).triples ↔ y ∈ store.triples := by
  have hput : ∀ (store : InMemoryStorage Bytes) (record : ValidRecord Bytes),
      ¬record.stored.Same x → (y ∈ (store.putTriple record.stored).triples ↔ y ∈ store.triples) := by
    intro store record hrecord
    rw [mem_putTriple_iff]
    constructor
    · rintro (⟨hmem, -⟩ | rfl)
      · exact hmem
      · exact absurd hsame hrecord
    · intro hmem
      exact .inl ⟨hmem, fun hy => hrecord (hy.symm.trans hsame)⟩
  cases call with
  | putTriple record => exact hput store record hcall
  | putTriplesBatch batch =>
      show y ∈ ((batch.map (·.stored)).foldl InMemoryStorage.putTriple store).triples ↔ _
      induction batch generalizing store with
      | nil => exact Iff.rfl
      | cons record batch ih =>
          have hfirst : ¬record.stored.Same x := fun h => hcall ⟨record, List.mem_cons_self, h⟩
          have hrest : ¬(TripleCall.putTriplesBatch batch).Touches x :=
            fun ⟨other, hother, h⟩ => hcall ⟨other, List.mem_cons_of_mem _ hother, h⟩
          exact (ih hrest).trans (hput store record hfirst)
  | deleteTriple record =>
      show y ∈ (store.remove record.stored).triples ↔ _
      rw [mem_remove_iff]
      exact and_iff_left fun hy => hcall (hy.symm.trans hsame)

theorem mem_run_iff {calls : List (TripleCall Bytes)} (hcalls : ∀ call ∈ calls, ¬call.Touches x)
    (hsame : y.Same x) :
    y ∈ (calls.foldl InMemoryStorage.perform store).triples ↔ y ∈ store.triples := by
  induction calls generalizing store with
  | nil => exact Iff.rfl
  | cons call calls ih =>
      exact (ih fun other hother => hcalls other (List.mem_cons_of_mem _ hother)).trans
        (mem_perform_iff (hcalls call List.mem_cons_self) hsame)

end BenShu.Engram

namespace BenShu.Knowledge

open Engram

structure MetadataLibrary (Bytes : Type) where
  toVec : Table String String → Except String Bytes
  fromSlice : Bytes → Option (Table String String)
  display : Rat → String
  parse : String → Option Rat

variable {Bytes : Type}

/-- Metadata are read back with the same values. -/
def MetadataLibrary.RoundTrips (library : MetadataLibrary Bytes) : Prop :=
  ∀ metadata bytes, library.toVec metadata = .ok bytes →
    ∃ metadata', library.fromSlice bytes = some metadata' ∧
      ∀ key, metadata'.lookup key = metadata.lookup key

/-! ## The graph -/

inductive AddFault where
  | triple (fault : TripleFault)
  | serialization (message : String)

def AddFault.text (display : Rat → String) : AddFault → String
  | triple fault => fault.text display
  | serialization message => message

def Triple.withDefault (triple : Triple) (key value : String) : Triple :=
  if key ∈ triple.metadata then triple
  else { triple with metadata := triple.metadata.insert key value }

def storedMetadata (library : MetadataLibrary Bytes) (sourceTag now : String) (triple : Triple) :
    Table String String :=
  let triple := (triple.withDefault "source" sourceTag).withDefault "timestamp" now
  let metadata := match triple.sentiment with
    | some sentiment => triple.metadata.insert "_sentiment" sentiment
    | none => triple.metadata
  metadata.insert "_urgency" (library.display triple.urgency)

structure PersistentKnowledgeGraph (Bytes : Type) where
  storage : TripleStorage Bytes
  sourceTag : String := "jarvis-core"

namespace PersistentKnowledgeGraph

variable (library : MetadataLibrary Bytes)

def record (graph : PersistentKnowledgeGraph Bytes) (now : String) (describe : String → String)
    (triple : Triple) : Except AddFault (StoredTriple Bytes) :=
  match validateTriple triple with
  | .error fault => .error (.triple fault)
  | .ok () =>
      match library.toVec (storedMetadata library graph.sourceTag now triple) with
      | .error error => .error (.serialization (describe error))
      | .ok data => .ok ⟨triple.subject, triple.predicate, triple.object, data⟩

def addTriple (graph : PersistentKnowledgeGraph Bytes) (now : String) (triple : Triple) :
    Except AddFault (PersistentKnowledgeGraph Bytes) :=
  match graph.record library now (fun error => s!"Metadata Serialization failed: {error}") triple with
  | .error fault => .error fault
  | .ok x => .ok { graph with storage := graph.storage.putTriple x }

def addTriplesBatch (graph : PersistentKnowledgeGraph Bytes) (now : String) (triples : List Triple) :
    Except AddFault (PersistentKnowledgeGraph Bytes × Nat) :=
  match triples.mapM (graph.record library now id) with
  | .error fault => .error fault
  | .ok batch => .ok ({ graph with storage := graph.storage.putTriplesBatch batch }, batch.length)

/-- The record that is read as a triple. -/
def readTriple (x : StoredTriple Bytes) : Triple :=
  let metadata := (library.fromSlice x.data).getD ∅
  { subject := x.subject
    predicate := x.predicate
    object := x.object
    metadata := metadata
    sentiment := metadata.lookup "_sentiment"
    urgency := ((metadata.lookup "_urgency").bind library.parse).getD 0 }

def querySubject (graph : PersistentKnowledgeGraph Bytes) (subject : String) : List Triple :=
  (graph.storage.queryTriples { subject := some subject }).map (readTriple library)

theorem record_toOption (graph : PersistentKnowledgeGraph Bytes) (now : String)
    (describe describe' : String → String) (triple : Triple) :
    (graph.record library now describe triple).toOption =
      (graph.record library now describe' triple).toOption := by
  unfold record
  split
  · rfl
  · split <;> rfl

theorem addTriple_toOption (graph : PersistentKnowledgeGraph Bytes) (now : String)
    (triple : Triple) :
    (graph.addTriple library now triple).toOption =
      (graph.record library now id triple).toOption.map fun x =>
        { graph with storage := graph.storage.putTriple x } := by
  rw [record_toOption library graph now id
    (fun error => s!"Metadata Serialization failed: {error}")]
  unfold addTriple
  split
  · rename_i h
    rw [h]
    rfl
  · rename_i h
    rw [h]
    rfl

theorem addTriplesBatch_toOption (graph : PersistentKnowledgeGraph Bytes) (now : String)
    (triples : List Triple) :
    (graph.addTriplesBatch library now triples).toOption.map Prod.fst =
      (triples.mapM (graph.record library now id)).toOption.map fun batch =>
        { graph with storage := graph.storage.putTriplesBatch batch } := by
  unfold addTriplesBatch
  split
  · rename_i h
    rw [h]
    rfl
  · rename_i h
    rw [h]
    rfl

end PersistentKnowledgeGraph

/-! ## The stored metadata -/

theorem lookup_withDefault (triple : Triple) (name value key : String) :
    (triple.withDefault name value).metadata.lookup key =
      if key = name then some ((triple.metadata.lookup name).getD value)
      else triple.metadata.lookup key := by
  unfold Triple.withDefault
  by_cases hname : name ∈ triple.metadata
  · obtain ⟨own, hown⟩ := Option.isSome_iff_exists.mp (AList.lookup_isSome.mpr hname)
    rw [if_pos hname, hown]
    split
    · next hkey => rw [hkey, hown, Option.getD_some]
    · rfl
  · rw [if_neg hname, Table.lookup_insert, AList.lookup_eq_none.mpr hname, Option.getD_none]

theorem withDefault_sentiment (triple : Triple) (name value : String) :
    (triple.withDefault name value).sentiment = triple.sentiment := by
  unfold Triple.withDefault
  split <;> rfl

theorem withDefault_urgency (triple : Triple) (name value : String) :
    (triple.withDefault name value).urgency = triple.urgency := by
  unfold Triple.withDefault
  split <;> rfl

theorem lookup_storedMetadata (library : MetadataLibrary Bytes) (sourceTag now : String)
    (triple : Triple) (key : String) :
    (storedMetadata library sourceTag now triple).lookup key =
      if key = "_urgency" then some (library.display triple.urgency)
      else if key = "_sentiment" then triple.sentiment.or (triple.metadata.lookup "_sentiment")
      else if key = "timestamp" then some ((triple.metadata.lookup "timestamp").getD now)
      else if key = "source" then some ((triple.metadata.lookup "source").getD sourceTag)
      else triple.metadata.lookup key := by
  have hdefaults : ((triple.withDefault "source" sourceTag).withDefault "timestamp" now).metadata.lookup
      key = if key = "timestamp" then some ((triple.metadata.lookup "timestamp").getD now)
        else if key = "source" then some ((triple.metadata.lookup "source").getD sourceTag)
        else triple.metadata.lookup key := by
    have hne : ("timestamp" : String) ≠ "source" := by decide
    rw [lookup_withDefault, lookup_withDefault, lookup_withDefault, if_neg hne]
  unfold storedMetadata
  dsimp only
  rw [Table.lookup_insert, withDefault_urgency, withDefault_urgency, withDefault_sentiment,
    withDefault_sentiment]
  by_cases hurgency : key = "_urgency"
  · rw [if_pos hurgency, if_pos hurgency]
  · rw [if_neg hurgency, if_neg hurgency]
    cases triple.sentiment with
    | none =>
        dsimp only
        rw [Option.none_or, hdefaults]
        by_cases hsentiment : key = "_sentiment"
        · subst hsentiment
          simp
        · rw [if_neg hsentiment]
    | some sentiment =>
        dsimp only
        rw [Option.some_or, Table.lookup_insert, hdefaults]

/-! ## Round trip -/

namespace PersistentKnowledgeGraph

variable {library : MetadataLibrary Bytes} {graph graph' : PersistentKnowledgeGraph Bytes}
  {now : String} {describe : String → String} {triple : Triple} {x : StoredTriple Bytes}

theorem record_eq_ok (h : graph.record library now describe triple = .ok x) :
    validateTriple triple = .ok () ∧
      ∃ data, library.toVec (storedMetadata library graph.sourceTag now triple) = .ok data ∧
        x = ⟨triple.subject, triple.predicate, triple.object, data⟩ := by
  unfold record at h
  cases hvalid : validateTriple triple with
  | error fault =>
      rw [hvalid] at h
      cases h
  | ok =>
      rw [hvalid] at h
      dsimp only at h
      cases hdata : library.toVec (storedMetadata library graph.sourceTag now triple) with
      | error error =>
          rw [hdata] at h
          cases h
      | ok data =>
          rw [hdata] at h
          exact ⟨rfl, data, rfl, (Except.ok.inj h).symm⟩

theorem addTriple_eq_ok (h : graph.addTriple library now triple = .ok graph') :
    ∃ x, graph.record library now (fun error => s!"Metadata Serialization failed: {error}") triple =
        .ok x ∧ graph' = { graph with storage := graph.storage.putTriple x } := by
  unfold addTriple at h
  split at h
  · cases h
  · next x hrecord => exact ⟨x, hrecord, (Except.ok.inj h).symm⟩

theorem readTriple_record (hcodec : library.RoundTrips)
    (hurgency : library.parse (library.display triple.urgency) = some triple.urgency)
    (h : graph.record library now describe triple = .ok x) :
    (∀ key, (readTriple library x).metadata.lookup key =
        (storedMetadata library graph.sourceTag now triple).lookup key) ∧
      (readTriple library x).urgency = triple.urgency ∧
      (readTriple library x).sentiment =
        triple.sentiment.or (triple.metadata.lookup "_sentiment") := by
  obtain ⟨-, data, hdata, rfl⟩ := record_eq_ok h
  obtain ⟨metadata, hread, hlookup⟩ := hcodec _ _ hdata
  have hurgencyKey : metadata.lookup "_urgency" = some (library.display triple.urgency) := by
    rw [hlookup, lookup_storedMetadata, if_pos rfl]
  have hsentimentKey : metadata.lookup "_sentiment" =
      triple.sentiment.or (triple.metadata.lookup "_sentiment") := by
    have hne : ("_sentiment" : String) ≠ "_urgency" := by decide
    rw [hlookup, lookup_storedMetadata, if_neg hne, if_pos rfl]
  unfold readTriple
  simp only [hread, Option.getD_some, hurgencyKey, hsentimentKey, Option.bind_some, hurgency]
  exact ⟨hlookup, trivial, trivial⟩

/-- After any calls an accepted triple is found under its subject until a call puts or
deletes its components. It is the only one with them. Its urgency is the given one, and
so is its sentiment unless it has none and the metadata hold one. The metadata are the
given ones, a missing source and a missing timestamp filled in, and the two reserved keys
hold the sentiment and the urgency. -/
theorem querySubject_spec (hcodec : library.RoundTrips)
    (hurgency : library.parse (library.display triple.urgency) = some triple.urgency)
    (hpredicate : triple.predicate.toList.head? ≠ some EngramKV.sentinel)
    (kind : StorageKind) (before after : List (TripleCall Bytes)) (sourceTag : String)
    (hadd : addTriple library ⟨(TripleStorage.new kind).run before, sourceTag⟩ now triple = .ok graph)
    (hafter : ∀ data, ∀ call ∈ after,
      ¬call.Touches ⟨triple.subject, triple.predicate, triple.object, data⟩) :
    ∃ found : Triple,
      (∀ other ∈ querySubject library { graph with storage := graph.storage.run after } triple.subject,
        other.predicate = triple.predicate → other.object = triple.object → other = found) ∧
      found ∈ querySubject library { graph with storage := graph.storage.run after } triple.subject ∧
      found.subject = triple.subject ∧ found.predicate = triple.predicate ∧
      found.object = triple.object ∧ found.urgency = triple.urgency ∧
      found.sentiment = triple.sentiment.or (triple.metadata.lookup "_sentiment") ∧
      found.metadata.lookup "_sentiment" = found.sentiment ∧
      found.metadata.lookup "_urgency" = some (library.display triple.urgency) ∧
      found.metadata.lookup "source" = some ((triple.metadata.lookup "source").getD sourceTag) ∧
      found.metadata.lookup "timestamp" = some ((triple.metadata.lookup "timestamp").getD now) ∧
      ∀ key, key ≠ "_sentiment" → key ≠ "_urgency" → key ≠ "source" → key ≠ "timestamp" →
        found.metadata.lookup key = triple.metadata.lookup key := by
  obtain ⟨x, hrecord, rfl⟩ := addTriple_eq_ok hadd
  obtain ⟨hvalid, data, hdata, hx⟩ := record_eq_ok hrecord
  obtain ⟨hmetadata, hread, hsentiment⟩ := readTriple_record hcodec hurgency hrecord
  -- the list that the storage stands for
  let store := before.foldl InMemoryStorage.perform ({} : InMemoryStorage Bytes)
  have hplain : Plain x := by
    rw [hx]
    exact ValidRecord.plain ⟨triple, data, hvalid⟩
  have hholds : (((TripleStorage.new kind).run before).putTriple x |>.run after).Holds
      (after.foldl InMemoryStorage.perform (store.putTriple x)) :=
    (((TripleStorage.holds_new kind).run before).putTriple hplain).run after
  have hcalls : ∀ call ∈ after, ¬call.Touches x := by
    rw [hx]
    exact hafter data
  have honly : ∀ y : StoredTriple Bytes, y.Same x →
      (y ∈ (after.foldl InMemoryStorage.perform (store.putTriple x)).triples ↔ y = x) := by
    intro y hsame
    rw [mem_run_iff hcalls hsame, mem_putTriple_iff]
    constructor
    · rintro (⟨-, hnot⟩ | rfl)
      · exact absurd hsame hnot
      · rfl
    · exact .inr
  have hfound : ∀ y : StoredTriple Bytes, y.Same x →
      (y ∈ (((TripleStorage.new kind).run before).putTriple x |>.run after).queryTriples
        { subject := some triple.subject } ↔ y = x) := by
    intro y hsame
    have hsubject : y.subject = triple.subject := hsame.1.trans (by rw [hx])
    have hhead : y.predicate.toList.head? ≠ some EngramKV.sentinel := by
      rw [hsame.2.1, hx]
      exact hpredicate
    rw [← honly y hsame, ← hsubject, hholds.mem_querySubject hhead]
  have hself : x.Same x := ⟨rfl, rfl, rfl⟩
  have hsubject : x.subject = triple.subject := by rw [hx]
  have hpredicateEq : x.predicate = triple.predicate := by rw [hx]
  have hobject : x.object = triple.object := by rw [hx]
  refine ⟨readTriple library x, ?_, ?_, hsubject, hpredicateEq, hobject, hread, hsentiment, rfl, ?_⟩
  · intro other hother hsamePredicate hsameObject
    obtain ⟨y, hy, rfl⟩ := List.mem_map.mp hother
    have hsame : y.Same x :=
      ⟨(hholds.subject_of_mem hy).trans hsubject.symm, hsamePredicate.trans hpredicateEq.symm,
        hsameObject.trans hobject.symm⟩
    rw [(hfound y hsame).mp hy]
  · exact List.mem_map_of_mem ((hfound x hself).mpr rfl)
  · rw [hmetadata, hmetadata, hmetadata, lookup_storedMetadata, lookup_storedMetadata,
      lookup_storedMetadata]
    refine ⟨if_pos rfl, rfl, rfl, ?_⟩
    intro key hsentimentKey hurgencyKey hsourceKey htimestampKey
    rw [hmetadata, lookup_storedMetadata, if_neg hurgencyKey, if_neg hsentimentKey,
      if_neg htimestampKey, if_neg hsourceKey]

/-- A codec that keeps the metadata as they are. -/
def tableLibrary : MetadataLibrary (Table String String) where
  toVec metadata := .ok metadata
  fromSlice bytes := some bytes
  display urgency := if urgency = 1 / 2 then "0.5" else "0"
  parse text := if text = "0.5" then some (1 / 2) else if text = "0" then some 0 else none

def mentorTriple : Triple where
  subject := "Ada"
  predicate := "mentors"
  object := "Bob"
  metadata := (∅ : Table String String).insert "_urgency" "high"
  sentiment := some "warm"
  urgency := 1 / 2

/-- The triple of a user who names the emotion in the metadata. -/
def moodTriple : Triple where
  subject := "Ada"
  predicate := "mentors"
  object := "Bob"
  metadata := (∅ : Table String String).insert "_sentiment" "joy"

theorem querySubject_spec_mentor : ∃ found : Triple,
    found ∈ querySubject tableLibrary ⟨(TripleStorage.new .engram).putTriple
        ⟨"Ada", "mentors", "Bob", storedMetadata tableLibrary "jarvis-core" "7" mentorTriple⟩,
      "jarvis-core"⟩ "Ada" ∧ found.urgency = 1 / 2 ∧ found.sentiment = some "warm" := by
  have hadd : addTriple tableLibrary ⟨(TripleStorage.new .engram).run [], "jarvis-core"⟩ "7"
      mentorTriple = .ok ⟨(TripleStorage.new .engram).putTriple
        ⟨"Ada", "mentors", "Bob", storedMetadata tableLibrary "jarvis-core" "7" mentorTriple⟩,
        "jarvis-core"⟩ := by
    have hvalid : validateTriple mentorTriple = .ok () := by decide +kernel
    simp only [addTriple, record, hvalid, tableLibrary]
    rfl
  obtain ⟨found, -, hmem, -, -, -, hurgency, hsentiment, -⟩ :=
    querySubject_spec (fun _ _ h => ⟨_, rfl, fun _ => by rw [Except.ok.inj h]⟩) (by decide +kernel)
      (by decide) .engram [] [] "jarvis-core" hadd (by simp)
  exact ⟨found, hmem, hurgency, hsentiment⟩

/-- The emotion in the metadata comes back as the sentiment, and the metadata have gained
a source. -/
theorem mood_not_kept : ∃ graph found,
    addTriple tableLibrary ⟨TripleStorage.new .inMemory, "jarvis-core"⟩ "7" moodTriple = .ok graph ∧
      querySubject tableLibrary graph "Ada" = [found] ∧ moodTriple.sentiment = none ∧
      found.sentiment = some "joy" ∧ moodTriple.metadata.lookup "source" = none ∧
      found.metadata.lookup "source" = some "jarvis-core" := by
  have hvalid : validateTriple moodTriple = .ok () := by decide +kernel
  refine ⟨⟨.inMemory ⟨[⟨"Ada", "mentors", "Bob",
    storedMetadata tableLibrary "jarvis-core" "7" moodTriple⟩]⟩, "jarvis-core"⟩, _, ?_, rfl, rfl,
    ?_, ?_, ?_⟩
  · simp only [addTriple, record, hvalid, tableLibrary]
    rfl
  all_goals decide +kernel

end PersistentKnowledgeGraph

end BenShu.Knowledge
