import BenShu.Engram.VectorStore
import Mathlib.Algebra.Order.Ring.Unbundled.Rat

/-!
# The document store

A document is kept under its collection and path, its body under the hash of the body.
Bodies are never deleted. The clock, the hash and the order of hash tables are
parameters.
-/

namespace BenShu.Engram

structure Document where
  docid : String
  collection : String
  path : String
  title : String
  summary : Option String := none
  abstractContent : Option String := none
  overviewContent : Option String := none
  contentHash : String
  createdAtMs : Int
  updatedAtMs : Int
  unverified : Bool
  utilityScore : Rat := 0
  metadata : Table String String

structure EngramStoreConfig where
  maxContentSize : Nat := 20 * 1024 * 1024
  enableFts : Bool := true

inductive EngramError where
  | contentTooLarge (size max : Nat)
  | serialization (text : String)
  | notFound (text : String)
  | retrieval (failure : VectorFailure)

/-- What a call meets: the time and the order of hash tables. -/
structure CallSetting where
  nowMs : Int
  order : HashOrder

structure EngramStore where
  documents : Table String Document := ∅
  contents : Table String String := ∅
  docidMap : Table String String := ∅
  fts : FtsEngine := {}
  config : EngramStoreConfig := {}

/-- The hash of a body, in hexadecimal, and what the text index takes. -/
structure EngramHost where
  hashContent : String → String
  fts : FtsHost

def metaDocumentLifecycleState : String := "document_lifecycle_state"

def documentLifecycleActive : String := "active"

def documentKey (collection path : String) : String := s!"{collection}:{path}"

theorem vectorKey_eq (collection path : String) :
    vectorKey collection path = "v:" ++ documentKey collection path := by
  have hdocument : documentKey collection path = collection ++ ":" ++ path := rfl
  have hvector : vectorKey collection path = "v:" ++ collection ++ ":" ++ path := rfl
  rw [hdocument, hvector, String.append_assoc, String.append_assoc, String.append_assoc]

def getDocid (hash : String) : String := .ofList (hash.toList.take 12)

namespace EngramStore

def getByDocKey (store : EngramStore) (key : String) : Option Document :=
  store.documents.lookup key

def getByPath (store : EngramStore) (collection path : String) : Option Document :=
  store.getByDocKey (documentKey collection path)

def getContent (store : EngramStore) (doc : Document) : Option String :=
  store.contents.lookup doc.contentHash

/-- The lifecycle state is active unless the caller gives one. -/
def withLifecycleState (metadata : Table String String) : Table String String :=
  match metadata.lookup metaDocumentLifecycleState with
  | some _ => metadata
  | none => metadata.insert metaDocumentLifecycleState documentLifecycleActive

/-- A document that is stored again keeps what was derived from it. -/
def updating (existing doc : Document) : Document :=
  { doc with
    createdAtMs := existing.createdAtMs
    summary := existing.summary
    abstractContent := existing.abstractContent
    overviewContent := existing.overviewContent
    utilityScore := existing.utilityScore }

section

variable (host : EngramHost) (setting : CallSetting)

def buildDocument (collection path title body : String) (unverified : Bool)
    (metadata : Table String String) : Document where
  docid := getDocid (host.hashContent body)
  collection := collection
  path := path
  title := title
  contentHash := host.hashContent body
  createdAtMs := setting.nowMs
  updatedAtMs := setting.nowMs
  unverified := unverified
  metadata := withLifecycleState metadata

/-- A failure of the text index comes after the document is stored. -/
def storeDocument (store : EngramStore) (collection path title body : String) (unverified : Bool)
    (metadata : Table String String) : EngramStore × Except EngramError Document :=
  if body.utf8ByteSize > store.config.maxContentSize then
    (store, .error (.contentTooLarge body.utf8ByteSize store.config.maxContentSize))
  else
    let built := buildDocument host setting collection path title body unverified metadata
    let store := { store with contents := store.contents.insert built.contentHash body }
    let docKey := documentKey collection path
    let doc := ((store.getByDocKey docKey).map fun existing => updating existing built).getD built
    let store := { store with
      documents := store.documents.insert docKey doc
      docidMap := store.docidMap.insert doc.docid docKey }
    if store.config.enableFts then
      match store.fts.indexDocument host.fts setting.order docKey body with
      | .ok fts => ({ store with fts := fts }, .ok doc)
      | .error text => (store, .error (.serialization text))
    else (store, .ok doc)

/-- A failure of the text index is ignored. -/
def deleteDocument (store : EngramStore) (collection path : String) : EngramStore :=
  let docKey := documentKey collection path
  let docidMap := match store.getByPath collection path with
    | some doc => store.docidMap.erase doc.docid
    | none => store.docidMap
  let fts := match store.fts.deleteDocument host.fts setting.order docKey with
    | .ok fts => fts
    | .error _ => store.fts
  { store with documents := store.documents.erase docKey, docidMap := docidMap, fts := fts }

end

/-! ## What is stored -/

variable {host : EngramHost} {setting : CallSetting} {store : EngramStore}
  {collection path title body : String} {unverified : Bool} {metadata : Table String String}

def contentAt (store : EngramStore) (key : String) : Option String :=
  (store.getByDocKey key).bind store.getContent

def storedDocument (host : EngramHost) (setting : CallSetting) (store : EngramStore)
    (collection path title body : String) (unverified : Bool) (metadata : Table String String) :
    Document :=
  let built := buildDocument host setting collection path title body unverified metadata
  ((store.getByDocKey (documentKey collection path)).map fun existing =>
    updating existing built).getD built

theorem storedDocument_fields (host : EngramHost) (setting : CallSetting) (store : EngramStore)
    (collection path title body : String) (unverified : Bool) (metadata : Table String String) :
    let doc := storedDocument host setting store collection path title body unverified metadata
    doc.docid = getDocid (host.hashContent body) ∧ doc.contentHash = host.hashContent body ∧
      doc.collection = collection ∧ doc.path = path ∧
      doc.metadata = withLifecycleState metadata := by
  unfold storedDocument
  cases store.getByDocKey (documentKey collection path) with
  | none => exact ⟨rfl, rfl, rfl, rfl, rfl⟩
  | some existing => exact ⟨rfl, rfl, rfl, rfl, rfl⟩

theorem storeDocument_fields (host : EngramHost) (setting : CallSetting) (store : EngramStore)
    (collection path title : String) (unverified : Bool) (metadata : Table String String)
    (hsize : body.utf8ByteSize ≤ store.config.maxContentSize) :
    let doc := storedDocument host setting store collection path title body unverified metadata
    let stored := (store.storeDocument host setting collection path title body unverified metadata).1
    stored.documents = store.documents.insert (documentKey collection path) doc ∧
      stored.contents = store.contents.insert (host.hashContent body) body ∧
      stored.docidMap = store.docidMap.insert doc.docid (documentKey collection path) ∧
      stored.config = store.config := by
  unfold storeDocument
  rw [if_neg (by omega)]
  dsimp only
  split
  · split
    · exact ⟨rfl, rfl, rfl, rfl⟩
    · exact ⟨rfl, rfl, rfl, rfl⟩
  · exact ⟨rfl, rfl, rfl, rfl⟩

theorem storeDocument_spec (host : EngramHost) (setting : CallSetting) (store : EngramStore)
    (collection path title : String) (unverified : Bool) (metadata : Table String String)
    (hsize : body.utf8ByteSize ≤ store.config.maxContentSize) :
    ∃ doc, doc.contentHash = host.hashContent body ∧
      (store.storeDocument host setting collection path title body unverified metadata).1.documents =
        store.documents.insert (documentKey collection path) doc ∧
      (store.storeDocument host setting collection path title body unverified metadata).1.contents =
        store.contents.insert (host.hashContent body) body ∧
      (store.storeDocument host setting collection path title body unverified metadata).1.config =
        store.config := by
  obtain ⟨hdocuments, hcontents, -, hconfig⟩ :=
    store.storeDocument_fields host setting collection path title unverified metadata hsize
  obtain ⟨-, hhash, -⟩ :=
    storedDocument_fields host setting store collection path title body unverified metadata
  exact ⟨_, hhash, hdocuments, hcontents, hconfig⟩

theorem storeDocument_tooLarge (hsize : body.utf8ByteSize > store.config.maxContentSize) :
    (store.storeDocument host setting collection path title body unverified metadata).1 = store := by
  unfold storeDocument
  rw [if_pos hsize]

def Filed (host : EngramHost) (texts : List String) (store : EngramStore) : Prop :=
  ∀ key doc, store.documents.lookup key = some doc → ∃ text ∈ texts,
    doc.contentHash = host.hashContent text ∧
      store.contents.lookup (host.hashContent text) = some text

theorem storeDocument_contentAt {texts : List String} (hfiled : store.Filed host texts)
    (hbody : body ∈ texts)
    (hhash : ∀ text ∈ texts, host.hashContent text = host.hashContent body → text = body)
    (hsize : body.utf8ByteSize ≤ store.config.maxContentSize) :
    let stored := (store.storeDocument host setting collection path title body unverified metadata).1
    stored.Filed host texts ∧ ∀ key, stored.contentAt key =
      if key = documentKey collection path then some body else store.contentAt key := by
  obtain ⟨doc, hdoc, hdocuments, hcontents, -⟩ :=
    store.storeDocument_spec host setting collection path title unverified metadata hsize
  intro stored
  change stored.documents = _ at hdocuments
  change stored.contents = _ at hcontents
  -- a text that was filed before keeps its place, also if it is the body itself
  have hkept : ∀ text ∈ texts, store.contents.lookup (host.hashContent text) = some text →
      stored.contents.lookup (host.hashContent text) = some text := by
    intro text htext hlookup
    rw [hcontents, Table.lookup_insert]
    by_cases hsame : host.hashContent text = host.hashContent body
    · rw [if_pos hsame, hhash text htext hsame]
    · rw [if_neg hsame]
      exact hlookup
  have hnew : stored.contents.lookup (host.hashContent body) = some body := by
    rw [hcontents, Table.lookup_insert, if_pos rfl]
  constructor
  · intro key found hfound
    rw [hdocuments, Table.lookup_insert] at hfound
    by_cases hkey : key = documentKey collection path
    · rw [if_pos hkey] at hfound
      cases hfound
      exact ⟨body, hbody, hdoc, hnew⟩
    · rw [if_neg hkey] at hfound
      obtain ⟨text, htext, hhashed, hlookup⟩ := hfiled key found hfound
      exact ⟨text, htext, hhashed, hkept text htext hlookup⟩
  · intro key
    unfold contentAt getByDocKey
    rw [hdocuments, Table.lookup_insert]
    by_cases hkey : key = documentKey collection path
    · rw [if_pos hkey, if_pos hkey, Option.bind_some, getContent, hdoc, hnew]
    · rw [if_neg hkey, if_neg hkey]
      cases hfound : store.documents.lookup key with
      | none => rfl
      | some found =>
          obtain ⟨text, htext, hhashed, hlookup⟩ := hfiled key found hfound
          rw [Option.bind_some, Option.bind_some, getContent, getContent, hhashed,
            hkept text htext hlookup, hlookup]

theorem deleteDocument_contentAt (host : EngramHost) (setting : CallSetting)
    (store : EngramStore) (collection path key : String) :
    (store.deleteDocument host setting collection path).contentAt key =
      if key = documentKey collection path then none else store.contentAt key := by
  have hdocuments : (store.deleteDocument host setting collection path).documents =
      store.documents.erase (documentKey collection path) := rfl
  have hcontents : (store.deleteDocument host setting collection path).contents =
      store.contents := rfl
  unfold contentAt getByDocKey
  rw [hdocuments, Table.lookup_erase]
  by_cases hkey : key = documentKey collection path
  · rw [if_pos hkey, if_pos hkey]
    rfl
  · rw [if_neg hkey, if_neg hkey]
    cases store.documents.lookup key with
    | none => rfl
    | some found => rw [Option.bind_some, Option.bind_some, getContent, getContent, hcontents]

theorem deleteDocument_filed {texts : List String} (hfiled : store.Filed host texts) :
    (store.deleteDocument host setting collection path).Filed host texts := by
  intro key doc hdoc
  have hdocuments : (store.deleteDocument host setting collection path).documents =
      store.documents.erase (documentKey collection path) := rfl
  rw [hdocuments, Table.lookup_erase] at hdoc
  split at hdoc
  · cases hdoc
  · exact hfiled key doc hdoc

end EngramStore

def wordEngramHost : EngramHost where
  hashContent := id
  fts := wordHost

end BenShu.Engram
