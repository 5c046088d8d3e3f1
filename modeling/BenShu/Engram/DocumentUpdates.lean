import BenShu.Engram.EngramStore

/-!
# The metadata of documents

The keys and values of the lifecycle contract, and what each operation writes.
-/

namespace BenShu.Engram

def metaFactLifecycleState : String := "fact_lifecycle_state"
def metaFactStatus : String := "fact_status"
def metaFactContractVersion : String := "fact_contract_version"
def metaFactPruneReason : String := "fact_prune_reason"
def metaFactReviewSummary : String := "fact_review_summary"
def metaFactReviewRequestedAtMs : String := "fact_review_requested_at_ms"

def factLifecycleArchived : String := "archived"
def factLifecyclePruned : String := "pruned"

def metaDocumentSummaryState : String := "document_summary_state"
def metaDocumentArchiveReason : String := "document_archive_reason"
def metaDocumentArchivedAtMs : String := "document_archived_at_ms"
def metaDocumentPrunedAtMs : String := "document_pruned_at_ms"
def metaDocumentPruneReason : String := "document_prune_reason"
def metaDocumentRetentionPolicyVersion : String := "document_retention_policy_version"
def metaSummaryUpdatedAtMs : String := "summary_updated_at_ms"

def documentLifecyclePendingReview : String := "pending_review"
def documentLifecycleArchived : String := "archived"
def documentLifecycleSummarized : String := "summarized"
def documentLifecyclePruned : String := "pruned"
def documentSummaryStateReady : String := "ready"

def pendingReviewMetadata (updatedAtMs : Int) (summary : Option String) : Table String String :=
  let metadata := Table.ofList [
    (metaFactStatus, "\"pending_review\""),
    (metaFactLifecycleState, documentLifecyclePendingReview),
    (metaFactReviewRequestedAtMs, toString updatedAtMs),
    (metaDocumentLifecycleState, documentLifecyclePendingReview)]
  match summary with
  | some summary => metadata.insert metaFactReviewSummary summary
  | none => metadata

def documentSummaryMetadata (updatedAtMs : Int) : Table String String :=
  Table.ofList [
    (metaDocumentLifecycleState, documentLifecycleSummarized),
    (metaDocumentSummaryState, documentSummaryStateReady),
    (metaSummaryUpdatedAtMs, toString updatedAtMs)]

def retentionArchiveMetadata (contractVersion : Nat) (archiveReason : String) :
    Table String String :=
  Table.ofList [
    (metaDocumentArchiveReason, archiveReason),
    (metaDocumentRetentionPolicyVersion, toString contractVersion)]

def retentionPruneMetadata (contractVersion : Nat) (eventAtMs : Int)
    (includeFactContract : Bool) (pruneReason : String) : Table String String :=
  let metadata := Table.ofList [
    (metaDocumentLifecycleState, documentLifecyclePruned),
    (metaDocumentPrunedAtMs, toString eventAtMs),
    (metaDocumentPruneReason, pruneReason),
    (metaDocumentRetentionPolicyVersion, toString contractVersion)]
  if includeFactContract then
    (metadata.insert metaFactLifecycleState factLifecyclePruned).insert metaFactPruneReason
      pruneReason
  else metadata

/-- The document is hidden from the filtered searches. -/
def documentIsArchived (doc : Document) : Bool :=
  ((doc.metadata.lookup metaDocumentLifecycleState).map fun value =>
      value == documentLifecycleArchived || value == documentLifecyclePruned).getD false ||
    ((doc.metadata.lookup metaFactLifecycleState).map fun value =>
      value == factLifecycleArchived || value == factLifecyclePruned).getD false ||
    ((doc.metadata.lookup metaFactStatus).map fun value =>
      Text.contains value "archived").getD false

end BenShu.Engram

/-!
# Updates of stored documents

An update reads the document of a path, changes it and writes it back under the same
key. A call is one operation of the store with the clock and hash order it meets.
-/

namespace BenShu.Engram

namespace EngramStore

def updateDocument (store : EngramStore) (collection path : String)
    (change : Document → Document) : EngramStore × Except EngramError Unit :=
  match store.getByPath collection path with
  | none => (store, .error (.notFound (documentKey collection path)))
  | some doc =>
      ({ store with
          documents := store.documents.insert (documentKey collection path) (change doc) },
        .ok ())

section

variable (setting : CallSetting)

def markVerified (store : EngramStore) (collection path : String) :
    EngramStore × Except EngramError Unit :=
  store.updateDocument collection path fun doc =>
    { doc with unverified := false, updatedAtMs := setting.nowMs }

def markPendingReview (store : EngramStore) (collection path : String)
    (summary : Option String) : EngramStore × Except EngramError Unit :=
  store.updateDocument collection path fun doc =>
    { doc with
      unverified := true
      updatedAtMs := setting.nowMs
      metadata := pendingReviewMetadata setting.nowMs summary ∪ doc.metadata }

def updateSummary (store : EngramStore) (collection path summary : String) :
    EngramStore × Except EngramError Unit :=
  store.updateDocument collection path fun doc =>
    { doc with
      summary := some summary
      updatedAtMs := setting.nowMs
      metadata := documentSummaryMetadata setting.nowMs ∪ doc.metadata }

def mergeMetadata (store : EngramStore) (collection path : String)
    (metadata : Table String String) : EngramStore × Except EngramError Unit :=
  store.updateDocument collection path fun doc =>
    { doc with metadata := metadata ∪ doc.metadata, updatedAtMs := setting.nowMs }

/-- What archiving writes unless the caller says otherwise. -/
def withArchived (archivedAtMs : Int) (metadata : Table String String) : Table String String :=
  metadata ∪ Table.ofList [
    (metaDocumentLifecycleState, documentLifecycleArchived),
    (metaDocumentArchivedAtMs, toString archivedAtMs)]

/-- The clock is read for the archive time and again for the update. -/
def archiveDocument (archivedAtMs : Int) (store : EngramStore) (collection path : String)
    (metadata : Table String String) : EngramStore × Except EngramError Unit :=
  store.mergeMetadata setting collection path (withArchived archivedAtMs metadata)

def clampScore (score : Rat) : Rat := max 0 (min 1 score)

def rescored (increment : Rat) (doc : Document) : Document :=
  { doc with
    utilityScore := clampScore (doc.utilityScore + increment)
    updatedAtMs := setting.nowMs }

/-- The document is found through its id. -/
def updateUtility (store : EngramStore) (docid : String) (increment : Rat) :
    EngramStore × Except EngramError Unit :=
  match store.docidMap.lookup docid with
  | none => (store, .error (.notFound docid))
  | some key =>
      match store.getByDocKey key with
      | none => (store, .error (.notFound key))
      | some doc =>
          let document := rescored setting increment doc
          ({ store with documents := store.documents.insert key document }, .ok ())

end

def getByDocid (store : EngramStore) (docid : String) : Option Document :=
  (store.docidMap.lookup docid).bind store.getByDocKey

end EngramStore

/-! ## Calls -/

inductive EngramOp where
  | storeDocument (collection path title body : String) (unverified : Bool)
      (metadata : Table String String)
  | deleteDocument (collection path : String)
  | markVerified (collection path : String)
  | markPendingReview (collection path : String) (summary : Option String)
  | updateSummary (collection path summary : String)
  | mergeMetadata (collection path : String) (metadata : Table String String)
  | archiveDocument (collection path : String) (archivedAtMs : Int)
      (metadata : Table String String)
  | updateUtility (docid : String) (increment : Rat)

/-- The operation changes documents that are stored and adds or removes none. -/
def EngramOp.IsUpdate : EngramOp → Prop
  | .storeDocument .. => False
  | .deleteDocument .. => False
  | _ => True

abbrev EngramCall := CallSetting × EngramOp

namespace EngramStore

def perform (host : EngramHost) (store : EngramStore) (call : EngramCall) : EngramStore :=
  match call.2 with
  | .storeDocument collection path title body unverified metadata =>
      (store.storeDocument host call.1 collection path title body unverified metadata).1
  | .deleteDocument collection path => store.deleteDocument host call.1 collection path
  | .markVerified collection path => (store.markVerified call.1 collection path).1
  | .markPendingReview collection path summary =>
      (store.markPendingReview call.1 collection path summary).1
  | .updateSummary collection path summary =>
      (store.updateSummary call.1 collection path summary).1
  | .mergeMetadata collection path metadata =>
      (store.mergeMetadata call.1 collection path metadata).1
  | .archiveDocument collection path archivedAtMs metadata =>
      (store.archiveDocument call.1 archivedAtMs collection path metadata).1
  | .updateUtility docid increment => (store.updateUtility call.1 docid increment).1

def run (host : EngramHost) (store : EngramStore) (calls : List EngramCall) : EngramStore :=
  calls.foldl (perform host) store

/-! ## What an update leaves alone -/

/-- A document before and after an update. -/
structure SameIdentity (doc doc' : Document) : Prop where
  docid : doc'.docid = doc.docid
  collection : doc'.collection = doc.collection
  path : doc'.path = doc.path
  contentHash : doc'.contentHash = doc.contentHash

def Updated (store store' : EngramStore) : Prop :=
  store' = store ∨ ∃ key doc doc', store.documents.lookup key = some doc ∧
    SameIdentity doc doc' ∧ store' = { store with documents := store.documents.insert key doc' }

variable {host : EngramHost} {setting : CallSetting} {store : EngramStore}

theorem updateDocument_updated {change : Document → Document}
    (hchange : ∀ doc, SameIdentity doc (change doc)) (collection path : String) :
    Updated store (store.updateDocument collection path change).1 := by
  unfold updateDocument
  cases hdoc : store.getByPath collection path with
  | none => exact .inl rfl
  | some doc => exact .inr ⟨documentKey collection path, doc, change doc, hdoc, hchange doc, rfl⟩

theorem updateUtility_updated (docid : String) (increment : Rat) :
    Updated store (store.updateUtility setting docid increment).1 := by
  unfold updateUtility
  cases hkey : store.docidMap.lookup docid with
  | none => exact .inl rfl
  | some key =>
      cases hdoc : store.getByDocKey key with
      | none => exact .inl (by simp only [hdoc])
      | some doc =>
          simp only [hdoc]
          exact .inr ⟨key, doc, rescored setting increment doc, hdoc, ⟨rfl, rfl, rfl, rfl⟩, rfl⟩

theorem Updated.config {store' : EngramStore} (h : Updated store store') :
    store'.config = store.config := by
  rcases h with hsame | ⟨key, doc, doc', -, -, hstore⟩
  · rw [hsame]
  · rw [hstore]

theorem perform_updated (call : EngramCall) (hupdate : call.2.IsUpdate) :
    Updated store (store.perform host call) := by
  obtain ⟨setting, op⟩ := call
  have hchanged : ∀ (collection path : String) (change : Document → Document),
      (∀ doc, SameIdentity doc (change doc)) →
        Updated store (store.updateDocument collection path change).1 :=
    fun collection path _ hchange => updateDocument_updated hchange collection path
  cases op with
  | storeDocument collection path title body unverified metadata => cases hupdate
  | deleteDocument collection path => cases hupdate
  | markVerified collection path => exact hchanged _ _ _ fun _ => ⟨rfl, rfl, rfl, rfl⟩
  | markPendingReview collection path summary =>
      exact hchanged _ _ _ fun _ => ⟨rfl, rfl, rfl, rfl⟩
  | updateSummary collection path summary => exact hchanged _ _ _ fun _ => ⟨rfl, rfl, rfl, rfl⟩
  | mergeMetadata collection path metadata => exact hchanged _ _ _ fun _ => ⟨rfl, rfl, rfl, rfl⟩
  | archiveDocument collection path archivedAtMs metadata =>
      exact hchanged _ _ _ fun _ => ⟨rfl, rfl, rfl, rfl⟩
  | updateUtility docid increment => exact updateUtility_updated docid increment

theorem perform_config (call : EngramCall) : (store.perform host call).config = store.config := by
  obtain ⟨setting, op⟩ := call
  have hupdate : op.IsUpdate → (store.perform host (setting, op)).config = store.config :=
    fun hupdate => (perform_updated (setting, op) hupdate).config
  cases op with
  | storeDocument collection path title body unverified metadata =>
      by_cases hsize : body.utf8ByteSize ≤ store.config.maxContentSize
      · exact (store.storeDocument_fields host setting collection path title unverified metadata
          hsize).2.2.2
      · exact congrArg EngramStore.config (storeDocument_tooLarge (by omega))
  | deleteDocument collection path => rfl
  | _ => exact hupdate trivial

theorem run_config (calls : List EngramCall) : (run host store calls).config = store.config := by
  induction calls generalizing store with
  | nil => rfl
  | cons call calls ih => exact ih.trans (perform_config call)

end EngramStore

end BenShu.Engram
