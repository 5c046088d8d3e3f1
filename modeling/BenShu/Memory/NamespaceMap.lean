import BenShu.Memory.InMemory

/-!
# Namespaced memory

Values are kept as documents whose titles join a namespace and a key, and read back by a text
search. A value is deleted by storing one that expires at once.
-/

namespace BenShu.Memory

open Protocol
open Engram (HashOrder)

structure MemoryEntry where
  value : String
  createdAt : DateTime
  expiresAt : Option DateTime
  «namespace» : String
  author : Option String

def MemoryEntry.isExpired (now : DateTime) (entry : MemoryEntry) : Bool :=
  match entry.expiresAt with
  | some expires => decide (now > expires)
  | none => false

/-- Serialization of entries, lowering of text, the last representable time, and ids that are
drawn once. -/
structure NamespacedLibrary where
  toLowercase : String → String
  encode : MemoryEntry → String
  decode : String → Except String MemoryEntry
  maxUtc : DateTime
  uuid : Nat → String
  uuid_injective : Function.Injective uuid

/-- The clock readings of a call that stores. -/
structure StoreClock where
  expiry : DateTime
  created : DateTime
  factCreated : DateTime
  factUpdated : DateTime

/-- The documents behind the namespaces, and how many ids were drawn. -/
structure NamespacedMemory where
  engram : InMemoryMemory := .new
  drawn : Nat := 0

def fullKey (ns key : String) : String := s!"{ns}::{key}"

def maxTimeDelta : Nat := (2 ^ 63 - 1) * 1000000

/-- Ten years for what is no duration of chrono. A sum that is no time panics. -/
def expiresAt (library : NamespacedLibrary) (now : DateTime) : Option Nat →
    Option (Option DateTime)
  | none => some none
  | some ttl =>
      let delta := if ttl ≤ maxTimeDelta then ttl else 365 * 10 * 86400 * 1000000000
      if delta = 0 ∨ now + delta ≤ library.maxUtc then some (some (now + delta)) else none

namespace NamespacedMemory

variable (library : NamespacedLibrary)

def stamp (clock : StoreClock) (memory : NamespacedMemory) : Stamp :=
  { factId := library.uuid memory.drawn
    pathId := library.uuid (memory.drawn + 1)
    createdAt := clock.factCreated
    updatedAt := clock.factUpdated }

def storeEntry (clock : StoreClock) (title : String) (entry : MemoryEntry)
    (memory : NamespacedMemory) : NamespacedMemory :=
  { engram := memory.engram.storeKnowledge (memory.stamp library clock) ⟨"system", none⟩ title
      (library.encode entry) "namespaced_memory" false
    drawn := memory.drawn + 2 }

/-- A call that panics leaves the memory as it is. -/
def store (clock : StoreClock) (ns key value : String) (ttl : Option Nat) (author : Option String)
    (memory : NamespacedMemory) : NamespacedMemory :=
  match expiresAt library clock.expiry ttl with
  | none => memory
  | some expires => memory.storeEntry library clock (fullKey ns key)
      { value := value, createdAt := clock.created, expiresAt := expires, «namespace» := ns,
        author := author }

def answer (now : DateTime) (content : String) : Except String (Option String) :=
  match library.decode content with
  | .error text => .error s!"Failed to deserialize entry: {text}"
  | .ok entry => .ok (if entry.isExpired now then none else some entry.value)

/-- The first document that the search finds is taken. -/
def read (order : HashOrder) (now : DateTime) (ns key : String) (memory : NamespacedMemory) :
    Except String (Option String) :=
  match memory.engram.search library.toLowercase order (fullKey ns key) 1 with
  | [] => .ok none
  | doc :: _ => answer library now doc.content

/-- The clock is read for every entry. -/
def listKeys (order : HashOrder) (now : Nat → DateTime) (ns : String)
    (memory : NamespacedMemory) : List String :=
  let start := s!"{ns}::"
  (memory.engram.search library.toLowercase order start 100).zipIdx.filterMap fun found =>
    match library.decode found.1.content with
    | .error _ => none
    | .ok entry =>
        if entry.isExpired (now found.2) then none
        else some ((Text.afterStart? found.1.title start).getD found.1.title)

def delete (clock : StoreClock) (ns key : String) : NamespacedMemory → NamespacedMemory :=
  store library clock ns key "" (some 0) none

def clearNamespace (order : HashOrder) (now : Nat → DateTime) (clock : Nat → StoreClock)
    (ns : String) (memory : NamespacedMemory) : NamespacedMemory :=
  (memory.listKeys library order now ns).zipIdx.foldl
    (fun memory key => memory.delete library (clock key.2) ns key.1) memory

end NamespacedMemory

/-- A call that writes, with the clock readings and the hash order it meets. -/
inductive NamespacedCall where
  | store (clock : StoreClock) (ns key value : String) (ttl : Option Nat) (author : Option String)
  | delete (clock : StoreClock) (ns key : String)
  | clearNamespace (order : HashOrder) (now : Nat → DateTime) (clock : Nat → StoreClock)
      (ns : String)

def NamespacedMemory.perform (library : NamespacedLibrary) (memory : NamespacedMemory) :
    NamespacedCall → NamespacedMemory
  | .store clock ns key value ttl author => memory.store library clock ns key value ttl author
  | .delete clock ns key => memory.delete library clock ns key
  | .clearNamespace order now clock ns => memory.clearNamespace library order now clock ns

end BenShu.Memory

/-!
# The map behind the namespaces

What the namespaced memory is meant to be: a map from namespaces and keys to values that may
expire. A read of the memory agrees with the map, in every hash order, exactly when all
documents that mention the key give the answer of the map.
-/

namespace BenShu.Memory

open Protocol
open Engram (HashOrder)

/-- A value and when it expires. -/
structure MapEntry where
  value : String
  expiresAt : Option DateTime

abbrev NamespaceMap := String → String → Option MapEntry

namespace NamespaceMap

def empty : NamespaceMap := fun _ _ => none

def put (ns key : String) (entry : MapEntry) (map : NamespaceMap) : NamespaceMap :=
  fun ns' key' => if ns' = ns ∧ key' = key then some entry else map ns' key'

def erase (ns key : String) (map : NamespaceMap) : NamespaceMap :=
  fun ns' key' => if ns' = ns ∧ key' = key then none else map ns' key'

def clear (ns : String) (map : NamespaceMap) : NamespaceMap :=
  fun ns' key' => if ns' = ns then none else map ns' key'

def get (now : DateTime) (ns key : String) (map : NamespaceMap) : Option String :=
  (map ns key).bind fun entry =>
    match entry.expiresAt with
    | some expires => if now > expires then none else some entry.value
    | none => some entry.value

/-- A store that panics stores nothing. -/
def perform (library : NamespacedLibrary) (map : NamespaceMap) : NamespacedCall → NamespaceMap
  | .store clock ns key value ttl _ =>
      match Memory.expiresAt library clock.expiry ttl with
      | none => map
      | some expires => map.put ns key { value := value, expiresAt := expires }
  | .delete _ ns key => map.erase ns key
  | .clearNamespace _ _ _ ns => map.clear ns

end NamespaceMap

/-! ## What the documents are -/

variable {library : NamespacedLibrary}

def documentId (library : NamespacedLibrary) (n : Nat) : String :=
  let category := "namespaced_memory"
  let path := s!"manual/{library.uuid n}"
  s!"{category}:{path}"

theorem documentId_injective {n m : Nat} (h : documentId library n = documentId library m) :
    n = m := by
  have hparts : ∀ k, documentId library k =
      "namespaced_memory" ++ ":" ++ ("manual/" ++ library.uuid k) := fun _ => rfl
  rw [hparts, hparts] at h
  have hlist := congrArg String.toList h
  rw [String.toList_append, String.toList_append (t := "manual/" ++ library.uuid m),
    String.toList_append (s := "manual/"), String.toList_append (s := "manual/")] at hlist
  exact library.uuid_injective
    (String.toList_injective (List.append_cancel_left (List.append_cancel_left hlist)))

/-- The documents have ids that were drawn, and what the map keeps has one with its title. -/
structure Agrees (library : NamespacedLibrary) (memory : NamespacedMemory) (map : NamespaceMap) :
    Prop where
  drawn : ∀ id doc, memory.engram.documents.lookup id = some doc →
    ∃ n, n < memory.drawn ∧ id = documentId library n
  titled : ∀ ns key entry, map ns key = some entry →
    ∃ id doc, memory.engram.documents.lookup id = some doc ∧ doc.title = fullKey ns key

namespace NamespacedMemory

theorem lookup_storeEntry (clock : StoreClock) (title : String) (entry : MemoryEntry)
    (memory : NamespacedMemory) : ∃ doc : Document, doc.title = title ∧
      doc.content = library.encode entry ∧
      ∀ id, (memory.storeEntry library clock title entry).engram.documents.lookup id =
        if id = documentId library (memory.drawn + 1) then some doc
        else memory.engram.documents.lookup id := by
  let path := s!"manual/{library.uuid (memory.drawn + 1)}"
  let doc : Document :=
    { id := path, title := title, content := library.encode entry, summary := none,
      collection := some "namespaced_memory", path := some path, metadata := ∅, score := 1 }
  exact ⟨doc, rfl, rfl, fun id => Table.lookup_insert _ _ _ _⟩

end NamespacedMemory

open NamespacedMemory

theorem Agrees.storeEntry {memory : NamespacedMemory} {map map' : NamespaceMap}
    (h : Agrees library memory map) (clock : StoreClock) (ns key : String) (entry : MemoryEntry)
    (hkept : ∀ ns' key' found, map' ns' key' = some found →
      map ns' key' = some found ∨ ns' = ns ∧ key' = key) :
    Agrees library (memory.storeEntry library clock (fullKey ns key) entry) map' := by
  obtain ⟨doc, htitle, -, hlookup⟩ :=
    @lookup_storeEntry library clock (fullKey ns key) entry memory
  refine ⟨fun id found hfound => ?_, fun ns' key' found hfound => ?_⟩
  · rw [hlookup] at hfound
    split_ifs at hfound with hid
    · exact ⟨memory.drawn + 1, Nat.lt_succ_self _, hid⟩
    · obtain ⟨n, hn, hid⟩ := h.drawn id found hfound
      exact ⟨n, Nat.lt_add_right 2 hn, hid⟩
  · rcases hkept ns' key' found hfound with hbefore | ⟨rfl, rfl⟩
    · obtain ⟨id, held, hheld, hheldTitle⟩ := h.titled ns' key' found hbefore
      refine ⟨id, held, ?_, hheldTitle⟩
      rw [hlookup, if_neg, hheld]
      -- the id is drawn anew
      rintro rfl
      obtain ⟨n, hn, hid⟩ := h.drawn _ held hheld
      have hsame := documentId_injective hid
      omega
    · exact ⟨documentId library (memory.drawn + 1), doc, by rw [hlookup, if_pos rfl], htitle⟩

theorem Agrees.weaken {memory : NamespacedMemory} {map map' : NamespaceMap}
    (h : Agrees library memory map)
    (hkept : ∀ ns key entry, map' ns key = some entry → map ns key = some entry) :
    Agrees library memory map' :=
  ⟨h.drawn, fun ns key entry hentry => h.titled ns key entry (hkept ns key entry hentry)⟩

theorem Agrees.delete {memory : NamespacedMemory} {map : NamespaceMap}
    (h : Agrees library memory map) (clock : StoreClock) (ns key : String) :
    Agrees library (memory.delete library clock ns key) map := by
  unfold NamespacedMemory.delete NamespacedMemory.store
  rcases Memory.expiresAt library clock.expiry (some 0) with _ | expires
  · exact h
  · exact h.storeEntry clock ns key _ fun ns' key' found hfound => .inl hfound

theorem Agrees.clearNamespace {memory : NamespacedMemory} {map : NamespaceMap}
    (h : Agrees library memory map) (order : HashOrder) (now : Nat → DateTime)
    (clock : Nat → StoreClock) (ns : String) :
    Agrees library (memory.clearNamespace library order now clock ns) map := by
  unfold NamespacedMemory.clearNamespace
  generalize (memory.listKeys library order now ns).zipIdx = keys
  induction keys generalizing memory with
  | nil => exact h
  | cons key keys ih => exact ih (h.delete (clock key.2) ns key.1)

theorem Agrees.perform {memory : NamespacedMemory} {map : NamespaceMap}
    (h : Agrees library memory map) (call : NamespacedCall) :
    Agrees library (memory.perform library call) (map.perform library call) := by
  cases call with
  | store clock ns key value ttl author =>
      unfold NamespacedMemory.perform NamespacedMemory.store NamespaceMap.perform
      dsimp only
      rcases Memory.expiresAt library clock.expiry ttl with _ | expires
      · exact h
      · refine h.storeEntry clock ns key _ fun ns' key' found hfound => ?_
        dsimp only at hfound
        unfold NamespaceMap.put at hfound
        split_ifs at hfound with hsame
        · exact .inr hsame
        · exact .inl hfound
  | delete clock ns key =>
      refine (h.delete clock ns key).weaken fun ns' key' found hfound => ?_
      unfold NamespaceMap.perform NamespaceMap.erase at hfound
      dsimp only at hfound
      split_ifs at hfound
      exact hfound
  | clearNamespace order now clock ns =>
      refine (h.clearNamespace order now clock ns).weaken fun ns' key' found hfound => ?_
      unfold NamespaceMap.perform NamespaceMap.clear at hfound
      dsimp only at hfound
      split_ifs at hfound
      exact hfound

def NamespacedMemory.run (library : NamespacedLibrary) (calls : List NamespacedCall) :
    NamespacedMemory :=
  calls.foldl (NamespacedMemory.perform library) {}

def NamespaceMap.run (library : NamespacedLibrary) (calls : List NamespacedCall) : NamespaceMap :=
  calls.foldl (NamespaceMap.perform library) .empty

theorem agrees_run (calls : List NamespacedCall) :
    Agrees library (NamespacedMemory.run library calls) (NamespaceMap.run library calls) := by
  unfold NamespacedMemory.run NamespaceMap.run
  have hempty : Agrees library {} .empty :=
    ⟨fun id doc hdoc => (by cases hdoc), fun ns key entry hentry => by cases hentry⟩
  generalize ({} : NamespacedMemory) = memory at hempty ⊢
  generalize NamespaceMap.empty = map at hempty ⊢
  induction calls generalizing memory map with
  | nil => exact hempty
  | cons call calls ih => exact ih _ _ (hempty.perform call)

/-! ## Reads -/

def Mentions (library : NamespacedLibrary) (query : String) (doc : Document) : Prop :=
  Text.contains (library.toLowercase doc.title) (library.toLowercase query) = true ∨
    Text.contains (library.toLowercase doc.content) (library.toLowercase query) = true

theorem mentions_title (library : NamespacedLibrary) (doc : Document) :
    Mentions library doc.title doc :=
  .inl (Text.contains_iff.mpr (List.infix_refl _))

def orderStartingAt (first : String) : HashOrder where
  arrange keys := if first ∈ keys then first :: keys.erase first else keys
  perm keys := by
    split_ifs with hmem
    · exact (List.perm_cons_erase hmem).symm
    · exact List.Perm.refl keys

section Search

variable {memory : InMemoryMemory} {query : String}

theorem mem_search {order : HashOrder} {limit : Nat} {doc : Document}
    (h : doc ∈ memory.search library.toLowercase order query limit) :
    Mentions library query doc ∧ ∃ id, memory.documents.lookup id = some doc := by
  have hmem := List.mem_filter.mp (List.mem_of_mem_take h)
  obtain ⟨id, -, hid⟩ := List.mem_filterMap.mp hmem.1
  exact ⟨by simpa [Mentions] using hmem.2, id, hid⟩

theorem search_starting {id : String} {doc : Document}
    (hdoc : memory.documents.lookup id = some doc) (hmentions : Mentions library query doc) :
    memory.search library.toLowercase (orderStartingAt id) query 1 = [doc] := by
  have hid : id ∈ memory.documents.keys := Table.mem_keys_iff.mpr ⟨doc, hdoc⟩
  unfold InMemoryMemory.search orderStartingAt
  dsimp only
  rw [if_pos hid, List.filterMap_cons, hdoc, List.filter_cons_of_pos]
  · rfl
  · simpa [Mentions] using hmentions

theorem not_mentions_of_search_nil {order : HashOrder}
    (h : memory.search library.toLowercase order query 1 = []) {id : String} {doc : Document}
    (hdoc : memory.documents.lookup id = some doc) : ¬Mentions library query doc := by
  intro hmentions
  have hid : id ∈ order.arrange memory.documents.keys :=
    (order.perm _).mem_iff.mpr (Table.mem_keys_iff.mpr ⟨doc, hdoc⟩)
  unfold InMemoryMemory.search at h
  dsimp only at h
  rw [List.take_eq_nil_iff] at h
  have hnone := h.resolve_left Nat.one_ne_zero
  rw [List.filter_eq_nil_iff] at hnone
  refine hnone doc (List.mem_filterMap.mpr ⟨id, hid, hdoc⟩) ?_
  simpa [Mentions] using hmentions

end Search

/-- An entry without an expiry, created at the epoch, as it is serialized. -/
def plainText (value ns : String) : String :=
  "\x7b\"value\":\"" ++ value ++ "\",\"created_at\":\"1970-01-01T00:00:00Z\"," ++
    "\"expires_at\":null,\"namespace\":\"" ++ ns ++ "\",\"author\":null\x7d"

def priceEntry : MemoryEntry :=
  { value := "43200", createdAt := 0, expiresAt := none, «namespace» := "market", author := none }

def priceLibrary : NamespacedLibrary where
  toLowercase := Text.toAsciiLowercase
  encode entry := plainText entry.value entry.namespace
  decode text := if text = plainText "43200" "market" then .ok priceEntry else .error "expected value"
  maxUtc := 8210266876799999999999
  uuid n := .ofList (List.replicate n '0')
  uuid_injective n m h := by
    have hlength := congrArg (fun text => text.toList.length) h
    simpa using hlength

def storePrice : NamespacedCall :=
  .store ⟨0, 0, 0, 0⟩ "market" "btc_price" "43200" none none

end BenShu.Memory
