import BenShu.Engram.DocumentFrame
import BenShu.Lib.I64

/-!
# Retention of documents

A pass archives unverified documents and prunes archived ones that are old enough. It
goes over the documents as they were when it started and leaves an audit document for
each one that it moves. The clock readings of a pass are parameters.
-/

namespace BenShu.Engram

def metaAuditKind : String := "audit_kind"
def metaDocumentId : String := "document_id"
def metaDocumentCollection : String := "document_collection"
def metaDocumentPath : String := "document_path"
def metaDocumentUpdatedAtMs : String := "document_updated_at_ms"
def metaDocumentAuditReason : String := "document_audit_reason"
def metaDocumentEventAtMs : String := "document_event_at_ms"

def collectionSessionAudit : String := "session_audit"
def collectionDocumentAudit : String := "document_audit"

def auditKindDocumentAutoArchived : String := "document_auto_archived"
def auditKindDocumentPruned : String := "document_pruned"

def retentionReasonUnverified : String := "unverified_retention_policy"
def retentionReasonArchived : String := "archived_retention_policy"

structure RetentionPruningPolicy where
  contractVersion : Nat := 1
  sessionPruneAfterDays : Int := 30
  requireArchivedForSessionPrune : Bool := true
  unverifiedDocumentArchiveAfterDays : Int := 14
  archivedDocumentPruneAfterDays : Int := 90

def daysBefore (nowMs days : Int) : Int := I64.wrap (nowMs - I64.wrap (days * (24 * 60 * 60 * 1000)))

/-- The time a pass is given, and what the calls for each key read later. -/
structure RetentionPass where
  nowMs : Int
  archivedAtMs : String → Int
  updating : String → CallSetting
  recording : String → CallSetting
  inRange : ∀ key, I64.InRange (archivedAtMs key)

def documentLifecycleState (document : Document) : String :=
  (document.metadata.lookup metaDocumentLifecycleState).getD documentLifecycleActive

def isPruned (document : Document) : Bool :=
  documentLifecycleState document == documentLifecyclePruned ||
    document.metadata.lookup metaFactLifecycleState == some factLifecyclePruned

def archivedAtMs (document : Document) : Int :=
  ((document.metadata.lookup metaDocumentArchivedAtMs).bind I64.parse).getD document.updatedAtMs

def isAudit (document : Document) : Bool :=
  document.collection == collectionSessionAudit || document.collection == collectionDocumentAudit

inductive RetentionMove where
  | archive
  | prune
  deriving DecidableEq

namespace RetentionMove

def auditKind : RetentionMove → String
  | archive => auditKindDocumentAutoArchived
  | prune => auditKindDocumentPruned

def auditReason : RetentionMove → String
  | archive => retentionReasonUnverified
  | prune => retentionReasonArchived

end RetentionMove

/-- What a pass does with a document. -/
def retentionMove (policy : RetentionPruningPolicy) (nowMs : Int) (document : Document) :
    Option RetentionMove :=
  if isAudit document then none
  else if isPruned document then none
  else if document.unverified && !documentIsArchived document &&
      decide (document.updatedAtMs ≤
        daysBefore nowMs policy.unverifiedDocumentArchiveAfterDays) then
    some .archive
  else if documentIsArchived document &&
      decide (archivedAtMs document ≤
        daysBefore nowMs policy.archivedDocumentPruneAfterDays) then
    some .prune
  else none

def documentEventAuditMetadata (auditKind auditReason : String) (eventAtMs : Int) :
    Table String String :=
  Table.ofList [
    (metaAuditKind, auditKind),
    (metaDocumentAuditReason, auditReason),
    (metaDocumentEventAtMs, toString eventAtMs)]

def insertDocumentAuditContext (metadata : Table String String) (document : Document) :
    Table String String :=
  ((((metadata.insert metaDocumentId document.docid).insert
    metaDocumentCollection document.collection).insert
    metaDocumentPath document.path).insert
    metaDocumentLifecycleState (documentLifecycleState document)).insert
    metaDocumentUpdatedAtMs (toString document.updatedAtMs)

def documentAuditPath (auditKind docid : String) (eventAtMs : Int) : String :=
  s!"{auditKind}/{docid}/{eventAtMs}"

def documentAuditBody (document : Document) (auditKind : String) : String :=
  s!"Document {document.docid} lifecycle event recorded by engram. kind={auditKind} " ++
    s!"collection={document.collection} path={document.path}"

namespace EngramStore

section

variable (host : EngramHost) (policy : RetentionPruningPolicy) (pass : RetentionPass)

def recordDocumentAudit (setting : CallSetting) (store : EngramStore) (document : Document)
    (auditKind auditReason : String) (eventAtMs : Int) (metadata : Table String String) :
    EngramStore × Except EngramError Document :=
  store.storeDocument host setting collectionDocumentAudit
    (documentAuditPath auditKind document.docid eventAtMs)
    s!"Document {auditKind} audit: {document.docid}"
    (documentAuditBody document auditKind) false
    (insertDocumentAuditContext
      (documentEventAuditMetadata auditKind auditReason eventAtMs ∪ metadata) document)

/-- The metadata that a move merges into the document. -/
def moveMetadata (document : Document) : RetentionMove → Table String String
  | .archive =>
      withArchived (pass.archivedAtMs (documentKey document.collection document.path))
        (retentionArchiveMetadata policy.contractVersion retentionReasonUnverified)
  | .prune =>
      retentionPruneMetadata policy.contractVersion pass.nowMs
        (document.metadata.lookup metaFactContractVersion).isSome retentionReasonArchived

/-- A pruned document leaves the text index. A failure there is ignored. -/
def leaveIndex (order : HashOrder) (store : EngramStore) (key : String) :
    RetentionMove → EngramStore
  | .archive => store
  | .prune =>
      match store.fts.deleteDocument host.fts order key with
      | .ok fts => { store with fts := fts }
      | .error _ => store

def moveDocument (store : EngramStore) (document : Document) (move : RetentionMove) :
    EngramStore × Except EngramError Unit :=
  let key := documentKey document.collection document.path
  match store.mergeMetadata (pass.updating key) document.collection document.path
      (moveMetadata policy pass document move) with
  | (store, .error failure) => (store, .error failure)
  | (store, .ok ()) =>
      let store := store.leaveIndex host (pass.updating key).order key move
      match store.getByDocKey key with
      | none => (store, .error (.notFound key))
      | some updated =>
          match store.recordDocumentAudit host (pass.recording key) updated move.auditKind
              move.auditReason pass.nowMs
              (Table.ofList [(metaDocumentRetentionPolicyVersion,
                toString policy.contractVersion)]) with
          | (store, .error failure) => (store, .error failure)
          | (store, .ok _) => (store, .ok ())

def counted : RetentionMove → Nat × Nat → Nat × Nat
  | .archive, (archived, pruned) => (archived + 1, pruned)
  | .prune, (archived, pruned) => (archived, pruned + 1)

/-- The loop over the documents. The first failure ends it. -/
def retentionLoop (store : EngramStore) (counts : Nat × Nat) :
    List Document → EngramStore × Except EngramError (Nat × Nat)
  | [] => (store, .ok counts)
  | document :: rest =>
      match retentionMove policy pass.nowMs document with
      | none => store.retentionLoop counts rest
      | some move =>
          match store.moveDocument host policy pass document move with
          | (store, .error failure) => (store, .error failure)
          | (store, .ok ()) => store.retentionLoop (counted move counts) rest

def applyDocumentRetentionPolicy (store : EngramStore) :
    EngramStore × Except EngramError (Nat × Nat) :=
  store.retentionLoop host policy pass (0, 0) (store.documents.entries.map fun entry => entry.2)

end

end EngramStore

end BenShu.Engram

/-!
# Moves of documents

A move of retention takes a document one state on and leaves an audit document under a
key made of the kind of the move and the id of the document.
-/

namespace BenShu.Engram

inductive Lifecycle where
  | active
  | archived
  | pruned
  deriving DecidableEq

def lifecycleOf (document : Document) : Lifecycle :=
  if isPruned document then .pruned
  else if documentIsArchived document then .archived
  else .active

namespace RetentionMove

def source : RetentionMove → Lifecycle
  | archive => .active
  | prune => .archived

def target : RetentionMove → Lifecycle
  | archive => .archived
  | prune => .pruned

def state : RetentionMove → String
  | archive => documentLifecycleArchived
  | prune => documentLifecyclePruned

end RetentionMove

def keyOf (document : Document) : String := documentKey document.collection document.path

def auditKey (nowMs : Int) (document : Document) (move : RetentionMove) : String :=
  documentKey collectionDocumentAudit (documentAuditPath move.auditKind document.docid nowMs)

/-- The audit document of a move: it names the document, the kind of the move, which
gives the state before, and the state after. -/
structure AuditOf (nowMs : Int) (document : Document) (move : RetentionMove) (record : Document) :
    Prop where
  collection : record.collection = collectionDocumentAudit
  kind : record.metadata.lookup metaAuditKind = some move.auditKind
  event : record.metadata.lookup metaDocumentEventAtMs = some (toString nowMs)
  docid : record.metadata.lookup metaDocumentId = some document.docid
  documentCollection : record.metadata.lookup metaDocumentCollection = some document.collection
  documentPath : record.metadata.lookup metaDocumentPath = some document.path
  state : record.metadata.lookup metaDocumentLifecycleState = some move.state

section

variable {policy : RetentionPruningPolicy} {pass : RetentionPass} {document : Document}
  {move : RetentionMove} {nowMs : Int}

/-! ## One document -/

theorem retentionMove_notAudit (h : retentionMove policy nowMs document = some move) :
    isAudit document = false := by
  unfold retentionMove at h
  cases haudit : isAudit document with
  | false => rfl
  | true =>
      rw [haudit] at h
      cases h

theorem retentionMove_notPruned (h : retentionMove policy nowMs document = some move) :
    isPruned document = false := by
  have haudit := retentionMove_notAudit h
  unfold retentionMove at h
  rw [haudit] at h
  cases hpruned : isPruned document with
  | false => rfl
  | true =>
      rw [hpruned] at h
      cases h

def movedDocument (policy : RetentionPruningPolicy) (pass : RetentionPass) (document : Document)
    (move : RetentionMove) : Document :=
  { document with
    metadata := EngramStore.moveMetadata policy pass document move ∪ document.metadata
    updatedAtMs := (pass.updating (keyOf document)).nowMs }

theorem movedDocument_lookup (key : String) :
    (movedDocument policy pass document move).metadata.lookup key =
      ((EngramStore.moveMetadata policy pass document move).lookup key).or
        (document.metadata.lookup key) :=
  Table.lookup_union _ _ key

theorem moved_lifecycleState (policy : RetentionPruningPolicy) (pass : RetentionPass)
    (document : Document) (move : RetentionMove) :
    (movedDocument policy pass document move).metadata.lookup metaDocumentLifecycleState =
      some move.state := by
  rw [movedDocument_lookup]
  cases move with
  | archive =>
      have hstate : (EngramStore.moveMetadata policy pass document .archive).lookup
          metaDocumentLifecycleState = some documentLifecycleArchived := by
        unfold EngramStore.moveMetadata EngramStore.withArchived
        rw [Table.lookup_union]
        rfl
      rw [hstate]
      rfl
  | prune =>
      have hstate : (EngramStore.moveMetadata policy pass document .prune).lookup
          metaDocumentLifecycleState = some documentLifecyclePruned := by
        unfold EngramStore.moveMetadata retentionPruneMetadata
        dsimp only
        split
        · rfl
        · rfl
      rw [hstate]
      rfl

theorem archived_isArchived (policy : RetentionPruningPolicy) (pass : RetentionPass)
    (document : Document) :
    documentIsArchived (movedDocument policy pass document .archive) = true := by
  unfold documentIsArchived
  rw [moved_lifecycleState]
  rfl

theorem archived_isPruned (h : isPruned document = false) :
    isPruned (movedDocument policy pass document .archive) = false := by
  have hfact : (movedDocument policy pass document .archive).metadata.lookup
      metaFactLifecycleState = document.metadata.lookup metaFactLifecycleState := by
    rw [movedDocument_lookup]
    unfold EngramStore.moveMetadata EngramStore.withArchived
    rw [Table.lookup_union]
    rfl
  unfold isPruned documentLifecycleState at h ⊢
  rw [moved_lifecycleState, hfact]
  rw [Bool.or_eq_false_iff] at h ⊢
  exact ⟨rfl, h.2⟩

theorem archived_archivedAtMs (policy : RetentionPruningPolicy) (pass : RetentionPass)
    (document : Document) : archivedAtMs (movedDocument policy pass document .archive) =
      pass.archivedAtMs (keyOf document) := by
  have htime : (movedDocument policy pass document .archive).metadata.lookup
      metaDocumentArchivedAtMs = some (toString (pass.archivedAtMs (keyOf document))) := by
    rw [movedDocument_lookup]
    unfold EngramStore.moveMetadata EngramStore.withArchived
    rw [Table.lookup_union]
    rfl
  unfold archivedAtMs
  rw [htime, Option.bind_some, I64.parse_toString (pass.inRange _), Option.getD_some]

theorem pruned_isPruned (policy : RetentionPruningPolicy) (pass : RetentionPass)
    (document : Document) : isPruned (movedDocument policy pass document .prune) = true := by
  unfold isPruned documentLifecycleState
  rw [moved_lifecycleState]
  rfl

theorem lifecycle_of_move (pass : RetentionPass) (h : retentionMove policy nowMs document = some move) :
    lifecycleOf document = move.source ∧
      lifecycleOf (movedDocument policy pass document move) = move.target := by
  have haudit := retentionMove_notAudit h
  have hpruned := retentionMove_notPruned h
  unfold retentionMove at h
  rw [haudit, hpruned] at h
  simp only [Bool.false_eq_true, if_false] at h
  split at h
  · rename_i hunverified
    cases h
    simp only [Bool.and_eq_true, Bool.not_eq_true', decide_eq_true_eq] at hunverified
    constructor
    · simp [lifecycleOf, hpruned, hunverified.1.2, RetentionMove.source]
    · simp [lifecycleOf, archived_isPruned hpruned, archived_isArchived, RetentionMove.target]
  · split at h
    · rename_i harchived
      cases h
      simp only [Bool.and_eq_true, decide_eq_true_eq] at harchived
      constructor
      · simp [lifecycleOf, hpruned, harchived.1, RetentionMove.source]
      · simp [lifecycleOf, pruned_isPruned, RetentionMove.target]
    · cases h

end

/-! ## Audit keys -/

section

variable {document other : Document} {move move' : RetentionMove} {nowMs : Int}

theorem documentKey_toList (collection path : String) :
    (documentKey collection path).toList = collection.toList ++ ':' :: path.toList := by
  show (collection ++ ":" ++ path).toList = _
  rw [String.toList_append, String.toList_append, List.append_assoc]
  rfl

theorem documentAuditPath_toList (kind docid : String) (eventAtMs : Int) :
    (documentAuditPath kind docid eventAtMs).toList =
      kind.toList ++ '/' :: (docid.toList ++ '/' :: (toString eventAtMs).toList) := by
  show (kind ++ "/" ++ docid ++ "/" ++ toString eventAtMs).toList = _
  simp only [String.toList_append, List.append_assoc]
  rfl

theorem auditKind_plain (move : RetentionMove) :
    ':' ∉ move.auditKind.toList ∧ '/' ∉ move.auditKind.toList := by
  cases move with
  | archive => decide
  | prune => decide

theorem auditKind_injective (h : move.auditKind = move'.auditKind) : move = move' := by
  revert h
  cases move <;> cases move' <;> decide

theorem keyOf_ne_auditKey (hother : isAudit other = false) (hdocid : ':' ∉ document.docid.toList) :
    keyOf other ≠ auditKey nowMs document move := by
  intro heq
  have hlist := congrArg String.toList heq
  unfold keyOf auditKey at hlist
  rw [documentKey_toList, documentKey_toList] at hlist
  have hpath : ':' ∉ (documentAuditPath move.auditKind document.docid nowMs).toList := by
    rw [documentAuditPath_toList]
    simp only [List.mem_append, List.mem_cons, not_or]
    exact ⟨(auditKind_plain move).1, by decide, hdocid, by decide,
      I64.colon_notMem_toString nowMs⟩
  have haudit : ':' ∉ collectionDocumentAudit.toList := by decide
  have hcount := congrArg (List.count ':') hlist
  rw [List.count_append, List.count_append, List.count_cons_self, List.count_cons_self,
    List.count_eq_zero_of_not_mem hpath, List.count_eq_zero_of_not_mem haudit] at hcount
  have hcollection : ':' ∉ other.collection.toList := List.count_eq_zero.mp (by omega)
  have hsame := (Text.append_cons_inj_of_notMem_left hlist hcollection haudit).1
  unfold isAudit at hother
  rw [String.toList_inj.mp hsame] at hother
  simp at hother

theorem auditKey_eq_iff :
    auditKey nowMs document move = auditKey nowMs other move' ↔
      move = move' ∧ document.docid = other.docid := by
  constructor
  · intro heq
    have hlist := congrArg String.toList heq
    unfold auditKey at hlist
    rw [documentKey_toList, documentKey_toList, documentAuditPath_toList,
      documentAuditPath_toList] at hlist
    have hpaths := (List.cons.inj (List.append_cancel_left hlist)).2
    rcases Text.append_cons_inj_of_notMem_left hpaths (auditKind_plain move).2
      (auditKind_plain move').2 with ⟨hkind, hrest⟩
    exact ⟨auditKind_injective (String.toList_inj.mp hkind),
      String.toList_inj.mp (List.append_cancel_right hrest)⟩
  · intro ⟨hmove, hdocid⟩
    unfold auditKey
    rw [hmove, hdocid]

end

namespace EngramStore

/-! ## One move -/

variable {host : EngramHost} {policy : RetentionPruningPolicy} {pass : RetentionPass}
  {store store' : EngramStore} {document : Document} {move : RetentionMove}

/-- Every document is under its own key, and no id has a colon. -/
structure Placed (store : EngramStore) : Prop where
  key : ∀ key document, store.documents.lookup key = some document → keyOf document = key
  docid : ∀ key document, store.documents.lookup key = some document → ':' ∉ document.docid.toList

theorem new_placed (config : EngramStoreConfig) : Placed { config := config } where
  key := by simp
  docid := by simp

theorem Placed.insert (h : store.Placed) {key : String} (hkey : keyOf document = key)
    (hdocid : ':' ∉ document.docid.toList)
    (hdocuments : store'.documents = store.documents.insert key document) : store'.Placed := by
  have hlookup : ∀ other found, store'.documents.lookup other = some found →
      found = document ∧ other = key ∨ store.documents.lookup other = some found := by
    intro other found hfound
    rw [hdocuments, Table.lookup_insert] at hfound
    split at hfound
    · rename_i hsame
      exact .inl ⟨(Option.some.inj hfound).symm, hsame⟩
    · exact .inr hfound
  constructor
  · intro other found hfound
    rcases hlookup other found hfound with ⟨hnew, hsame⟩ | hold
    · rw [hnew, hsame, hkey]
    · exact h.key other found hold
  · intro other found hfound
    rcases hlookup other found hfound with ⟨hnew, -⟩ | hold
    · rw [hnew]
      exact hdocid
    · exact h.docid other found hold

theorem storeDocument_placed (hhash : ∀ body, ':' ∉ (host.hashContent body).toList)
    (h : store.Placed) {setting : CallSetting} {collection path title body : String}
    {unverified : Bool} {metadata : Table String String} :
    (store.storeDocument host setting collection path title body unverified metadata).1.Placed := by
  by_cases hsize : body.utf8ByteSize ≤ store.config.maxContentSize
  · rcases storeDocument_fields host setting store collection path title unverified metadata hsize
      with ⟨hdocuments, -⟩
    rcases storedDocument_fields host setting store collection path title body unverified metadata
      with ⟨hdocid, -, hcollection, hpath, -⟩
    apply h.insert ?_ ?_ hdocuments
    · rw [keyOf, hcollection, hpath]
    · rw [hdocid, getDocid, String.toList_ofList]
      exact fun hcolon => hhash body (List.mem_of_mem_take hcolon)
  · rw [storeDocument_tooLarge (by omega)]
    exact h

theorem Updated.placed (hupdated : Updated store store') (h : store.Placed) : store'.Placed := by
  rcases hupdated with hsame | ⟨key, doc, doc', hdoc, hidentity, hstore⟩
  · rw [hsame]
    exact h
  · subst hstore
    apply h.insert ?_ ?_ rfl
    · rw [keyOf, hidentity.collection, hidentity.path]
      exact h.key key doc hdoc
    · rw [hidentity.docid]
      exact h.docid key doc hdoc

theorem perform_placed (hhash : ∀ body, ':' ∉ (host.hashContent body).toList) (h : store.Placed)
    (call : EngramCall) : (store.perform host call).Placed := by
  rcases call with ⟨setting, op⟩
  have hupdate : op.IsUpdate → (store.perform host (setting, op)).Placed :=
    fun hupdate => (perform_updated (setting, op) hupdate).placed h
  cases op with
  | storeDocument collection path title body unverified metadata =>
      exact storeDocument_placed hhash h
  | deleteDocument collection path =>
      have hkept : ∀ key document, (store.documents.erase (documentKey collection path)).lookup key =
          some document → store.documents.lookup key = some document := by
        intro key document hfound
        rw [Table.lookup_erase] at hfound
        split at hfound
        · cases hfound
        · exact hfound
      exact ⟨fun key document hfound => h.key key document (hkept key document hfound),
        fun key document hfound => h.docid key document (hkept key document hfound)⟩
  | _ => exact hupdate trivial

theorem run_placed (hhash : ∀ body, ':' ∉ (host.hashContent body).toList) (h : store.Placed)
    (calls : List EngramCall) : (run host store calls).Placed := by
  induction calls generalizing store with
  | nil => exact h
  | cons call calls ih => exact ih (perform_placed hhash h call)

theorem storeDocument_ok (h : store.fts.Indexed) {setting : CallSetting}
    {collection path title body : String} {unverified : Bool} {metadata : Table String String}
    (hsize : body.utf8ByteSize ≤ store.config.maxContentSize) :
    (store.storeDocument host setting collection path title body unverified metadata).2 =
      .ok (storedDocument host setting store collection path title body unverified metadata) := by
  unfold storeDocument
  rw [if_neg (by omega)]
  dsimp only
  split
  · rcases FtsEngine.indexDocument_indexed host.fts setting.order h (documentKey collection path)
      body with ⟨fts, hok, -⟩
    rw [hok]
    rfl
  · rfl

def AuditFits (store : EngramStore) (document : Document) (move : RetentionMove) : Prop :=
  (documentAuditBody document move.auditKind).utf8ByteSize ≤ store.config.maxContentSize

instance : Decidable (store.AuditFits document move) := inferInstanceAs (Decidable (_ ≤ _))

theorem auditMetadata_lookup (document : Document) (kind reason : String) (eventAtMs : Int)
    (metadata : Table String String) :
    let audit := insertDocumentAuditContext
      (documentEventAuditMetadata kind reason eventAtMs ∪ metadata) document
    audit.lookup metaAuditKind = some kind ∧
      audit.lookup metaDocumentEventAtMs = some (toString eventAtMs) ∧
      audit.lookup metaDocumentId = some document.docid ∧
      audit.lookup metaDocumentCollection = some document.collection ∧
      audit.lookup metaDocumentPath = some document.path ∧
      audit.lookup metaDocumentLifecycleState = some (documentLifecycleState document) := by
  unfold insertDocumentAuditContext
  simp only [Table.lookup_insert, Table.lookup_union]
  refine ⟨rfl, rfl, rfl, rfl, rfl, rfl⟩

theorem recordDocumentAudit_spec (h : Kept host store) (hplaced : store.Placed)
    (hhash : ∀ body, ':' ∉ (host.hashContent body).toList) (setting : CallSetting)
    (metadata : Table String String) {nowMs : Int} (hfits : store.AuditFits document move)
    (hstate : documentLifecycleState (movedDocument policy pass document move) = move.state) :
    let recorded := store.recordDocumentAudit host setting
      (movedDocument policy pass document move) move.auditKind move.auditReason nowMs metadata
    ∃ record, recorded.2 = .ok record ∧ AuditOf nowMs document move record ∧
      recorded.1.documents = store.documents.insert (auditKey nowMs document move) record ∧
      Kept host recorded.1 ∧ recorded.1.Placed ∧ recorded.1.config = store.config := by
  intro recorded
  have hok : recorded.2 = .ok _ := storeDocument_ok h.indexed hfits
  rcases storeDocument_fields host setting store collectionDocumentAudit
    (documentAuditPath move.auditKind document.docid nowMs)
    s!"Document {move.auditKind} audit: {document.docid}" false
    (insertDocumentAuditContext (documentEventAuditMetadata move.auditKind move.auditReason nowMs ∪
      metadata) (movedDocument policy pass document move)) hfits with
    ⟨hdocuments, -, -, hconfig⟩
  rcases storedDocument_fields host setting store collectionDocumentAudit
    (documentAuditPath move.auditKind document.docid nowMs)
    s!"Document {move.auditKind} audit: {document.docid}"
    (documentAuditBody document move.auditKind) false
    (insertDocumentAuditContext (documentEventAuditMetadata move.auditKind move.auditReason nowMs ∪
      metadata) (movedDocument policy pass document move)) with
    ⟨hdocid, -, hcollection, hpath, hmetadata⟩
  rcases auditMetadata_lookup (movedDocument policy pass document move) move.auditKind
    move.auditReason nowMs metadata with
    ⟨hkind, hevent, hid, hdocumentCollection, hdocumentPath, hlifecycle⟩
  have hkeep : ∀ metadata : Table String String,
      metadata.lookup metaDocumentLifecycleState ≠ none → withLifecycleState metadata = metadata := by
    intro metadata hsome
    unfold withLifecycleState
    cases hlookup : metadata.lookup metaDocumentLifecycleState with
    | none => exact absurd hlookup hsome
    | some state => rfl
  rw [hkeep _ (by rw [hlifecycle]; simp)] at hmetadata
  refine ⟨_, hok, ?_, hdocuments, storeDocument_kept h, ?_, hconfig⟩
  · constructor
    · exact hcollection
    · exact (congrArg (AList.lookup metaAuditKind) hmetadata).trans hkind
    · exact (congrArg (AList.lookup metaDocumentEventAtMs) hmetadata).trans hevent
    · exact (congrArg (AList.lookup metaDocumentId) hmetadata).trans hid
    · exact (congrArg (AList.lookup metaDocumentCollection) hmetadata).trans hdocumentCollection
    · exact (congrArg (AList.lookup metaDocumentPath) hmetadata).trans hdocumentPath
    · rw [← hstate]
      exact (congrArg (AList.lookup metaDocumentLifecycleState) hmetadata).trans hlifecycle
  · exact storeDocument_placed hhash hplaced

theorem recordDocumentAudit_tooLarge (host : EngramHost) (policy : RetentionPruningPolicy)
    (pass : RetentionPass) (setting : CallSetting) (nowMs : Int) (metadata : Table String String)
    (hfits : ¬store.AuditFits document move) :
    ∃ failure, store.recordDocumentAudit host setting (movedDocument policy pass document move)
      move.auditKind move.auditReason nowMs metadata = (store, .error failure) := by
  refine ⟨_, if_pos ?_⟩
  exact Nat.lt_of_not_le hfits

theorem leaveIndex_spec (h : Kept host store) (hplaced : store.Placed) (order : HashOrder)
    (key : String) :
    let left := store.leaveIndex host order key move
    left.documents = store.documents ∧ Kept host left ∧ left.Placed ∧ left.config = store.config := by
  cases move with
  | archive => exact ⟨rfl, h, hplaced, rfl⟩
  | prune =>
      rcases FtsEngine.deleteDocument_indexed host.fts order h.indexed key with
        ⟨fts, hok, hindexed, hexact, -⟩
      unfold leaveIndex
      dsimp only
      rw [hok]
      exact ⟨rfl, ⟨hindexed, hexact h.exact, h.hashed, h.filed⟩, ⟨hplaced.key, hplaced.docid⟩, rfl⟩

def beforeAudit (host : EngramHost) (policy : RetentionPruningPolicy) (pass : RetentionPass)
    (store : EngramStore) (document : Document) (move : RetentionMove) : EngramStore :=
  { store with
    documents := store.documents.insert (keyOf document)
      (movedDocument policy pass document move) }.leaveIndex host
    (pass.updating (keyOf document)).order (keyOf document) move

theorem beforeAudit_spec (policy : RetentionPruningPolicy) (pass : RetentionPass)
    (move : RetentionMove) (h : Kept host store) (hplaced : store.Placed)
    (hdocument : store.documents.lookup (keyOf document) = some document) :
    let before := store.beforeAudit host policy pass document move
    before.documents =
        store.documents.insert (keyOf document) (movedDocument policy pass document move) ∧
      Kept host before ∧ before.Placed ∧ before.config = store.config := by
  have hupdated : Updated store { store with
      documents := store.documents.insert (keyOf document)
        (movedDocument policy pass document move) } :=
    .inr ⟨keyOf document, document, movedDocument policy pass document move, hdocument,
      ⟨rfl, rfl, rfl, rfl⟩, rfl⟩
  exact leaveIndex_spec (hupdated.kept h) (hupdated.placed hplaced) _ _

theorem moveDocument_eq (h : Kept host store) (hplaced : store.Placed)
    (hdocument : store.documents.lookup (keyOf document) = some document) :
    store.moveDocument host policy pass document move =
      match (store.beforeAudit host policy pass document move).recordDocumentAudit host
          (pass.recording (keyOf document)) (movedDocument policy pass document move)
          move.auditKind move.auditReason pass.nowMs
          (Table.ofList [(metaDocumentRetentionPolicyVersion,
            toString policy.contractVersion)]) with
      | (store, .error failure) => (store, .error failure)
      | (store, .ok _) => (store, .ok ()) := by
  have hmerged : store.mergeMetadata (pass.updating (keyOf document)) document.collection
      document.path (moveMetadata policy pass document move) =
      ({ store with
          documents := store.documents.insert (keyOf document)
            (movedDocument policy pass document move) }, .ok ()) := by
    unfold mergeMetadata updateDocument
    have hfound : store.getByPath document.collection document.path = some document := hdocument
    rw [hfound]
    rfl
  have hfound : (store.beforeAudit host policy pass document move).getByDocKey (keyOf document) =
      some (movedDocument policy pass document move) := by
    unfold getByDocKey
    rw [(beforeAudit_spec policy pass move h hplaced hdocument).1, Table.lookup_insert, if_pos rfl]
  unfold moveDocument
  dsimp only
  rw [← keyOf, hmerged]
  dsimp only
  rw [← beforeAudit]
  generalize (store.beforeAudit host policy pass document move).getByDocKey (keyOf document) =
    found at hfound ⊢
  cases hfound
  rfl

/-- A move writes the document and, if the audit fits, the audit document. -/
theorem moveDocument_spec (policy : RetentionPruningPolicy) (pass : RetentionPass)
    (move : RetentionMove) (h : Kept host store) (hplaced : store.Placed)
    (hhash : ∀ body, ':' ∉ (host.hashContent body).toList)
    (hdocument : store.documents.lookup (keyOf document) = some document) :
    let moved := store.moveDocument host policy pass document move
    let documents := store.documents.insert (keyOf document) (movedDocument policy pass document move)
    Kept host moved.1 ∧ moved.1.Placed ∧ moved.1.config = store.config ∧
      if store.AuditFits document move then
        moved.2 = .ok () ∧ ∃ record, AuditOf pass.nowMs document move record ∧
          moved.1.documents = documents.insert (auditKey pass.nowMs document move) record
      else ∃ failure, moved.2 = .error failure := by
  intro moved documents
  have hmoved : moved = _ := moveDocument_eq h hplaced hdocument
  rcases beforeAudit_spec policy pass move h hplaced hdocument with
    ⟨hdocuments, hkept, hbefore, hconfig⟩
  have hstate : documentLifecycleState (movedDocument policy pass document move) = move.state := by
    rw [documentLifecycleState, moved_lifecycleState]
    rfl
  rw [hmoved]
  by_cases hfits : store.AuditFits document move
  · have hfits' : (store.beforeAudit host policy pass document move).AuditFits document move := by
      unfold AuditFits
      rw [hconfig]
      exact hfits
    rcases recordDocumentAudit_spec hkept hbefore hhash (pass.recording (keyOf document))
      (Table.ofList [(metaDocumentRetentionPolicyVersion, toString policy.contractVersion)])
      hfits' hstate with
      ⟨record, hok, haudit, hrecorded, hkept', hplaced', hconfig'⟩
    rw [if_pos hfits]
    generalize EngramStore.recordDocumentAudit _ _ _ _ _ _ _ _ = recorded at *
    rcases recorded with ⟨after, result⟩
    dsimp only at hok hrecorded hkept' hplaced' hconfig'
    subst hok
    refine ⟨hkept', hplaced', hconfig'.trans hconfig, rfl, record, haudit, ?_⟩
    rw [hdocuments] at hrecorded
    exact hrecorded
  · have hfits' : ¬(store.beforeAudit host policy pass document move).AuditFits document move := by
      unfold AuditFits
      rw [hconfig]
      exact hfits
    rcases recordDocumentAudit_tooLarge host policy pass (pass.recording (keyOf document)) pass.nowMs
      (Table.ofList [(metaDocumentRetentionPolicyVersion, toString policy.contractVersion)])
      hfits' with ⟨failure, hfailed⟩
    rw [if_neg hfits, hfailed]
    exact ⟨hkept, hbefore, hconfig, failure, rfl⟩

end EngramStore

end BenShu.Engram
