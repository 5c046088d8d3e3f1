import BenShu.Engram.RetentionMoves
import BenShu.Protocol.AgentSession

/-!
# Retention of sessions

A session is pruned if it is old or its retention has passed, unless its background is
protected. Before it is deleted an audit document is stored under the session's id. The
reading of stored sessions is a parameter.
-/

namespace BenShu.Engram

open Protocol

def metaSessionId : String := "session_id"
def metaSessionLifecycleState : String := "session_lifecycle_state"
def metaSessionPruneReason : String := "session_prune_reason"
def metaSessionPrunedAtMs : String := "session_pruned_at_ms"
def metaSessionUpdatedAtMs : String := "session_updated_at_ms"
def metaSessionArchivedAtMs : String := "session_archived_at_ms"
def metaSessionRetentionUntilMs : String := "session_retention_until_ms"
def metaSessionArchiveReason : String := "session_archive_reason"
def metaSessionRecoveredFrom : String := "session_recovered_from"
def metaSessionLastRecoveredAtMs : String := "session_last_recovered_at_ms"
def metaSessionBackgroundPresent : String := "session_background_present"
def metaSessionBackgroundLifecycleState : String := "session_background_lifecycle_state"
def metaSessionBackgroundRevision : String := "session_background_revision"

def sessionLifecycleActive : String := "active"
def sessionLifecycleArchived : String := "archived"
def auditKindSessionPruned : String := "session_pruned"

/-- The state of the background if it is not archived, or retained until later. -/
def sessionBackgroundPruneProtected (session : AgentSession) (now : DateTime) : Bool :=
  match session.backgroundEnvelope with
  | none => false
  | some background =>
      let lifecycleState := (background.metadata.lookup
        "background_session_lifecycle_state").getD sessionLifecycleActive
      if lifecycleState ≠ sessionLifecycleArchived then true
      else (((background.metadata.lookup "background_session_retention_until_ms").bind
        I64.parse).map fun deadline => decide (deadline > timestampMillis now)).getD false

inductive PruneReason where
  | retentionExpired
  | archivedOlderThanThreshold
  deriving DecidableEq

def PruneReason.text : PruneReason → String
  | retentionExpired => "retention_expired"
  | archivedOlderThanThreshold => "archived_older_than_threshold"

def staleByAge (policy : RetentionPruningPolicy) (now : DateTime) (session : AgentSession) : Bool :=
  decide (timestampMillis session.updatedAt ≤
    daysBefore (timestampMillis now) policy.sessionPruneAfterDays)

/-- Why a session is pruned, if it is. -/
def pruneReason (policy : RetentionPruningPolicy) (now : DateTime) (session : AgentSession) :
    Option PruneReason :=
  let staleByAge := staleByAge policy now session
  let staleByRetention := session.retentionExpiredAt now
  let archivedRequirementMet := !policy.requireArchivedForSessionPrune || session.isArchived
  if archivedRequirementMet && !sessionBackgroundPruneProtected session now &&
      (staleByRetention || staleByAge) then
    some (if staleByRetention then .retentionExpired else .archivedOlderThanThreshold)
  else none

def sessionPruneAuditMetadata (reason : String) (prunedAtMs : Int) : Table String String :=
  Table.ofList [
    (metaAuditKind, auditKindSessionPruned),
    (metaSessionPruneReason, reason),
    (metaSessionPrunedAtMs, toString prunedAtMs)]

def sessionLifecycleState (session : AgentSession) : String :=
  if session.isArchived then sessionLifecycleArchived else sessionLifecycleActive

/-- An entry is written if there is a value for it. -/
def insertSome (metadata : Table String String) (key : String) (value : Option String) :
    Table String String :=
  match value with
  | none => metadata
  | some value => metadata.insert key value

def insertSessionAuditContext (metadata : Table String String) (session : AgentSession) :
    Table String String :=
  let millis (time : Option DateTime) := time.map fun time => toString (timestampMillis time)
  let metadata := metadata.insert metaSessionId session.id
  let metadata := metadata.insert metaSessionLifecycleState (sessionLifecycleState session)
  let metadata := metadata.insert metaSessionUpdatedAtMs
    (toString (timestampMillis session.updatedAt))
  let metadata := insertSome metadata metaSessionArchivedAtMs (millis session.lifecycle.archivedAt)
  let metadata := insertSome metadata metaSessionRetentionUntilMs
    (millis session.lifecycle.retentionUntil)
  let metadata := insertSome metadata metaSessionArchiveReason session.lifecycle.archiveReason
  let metadata := insertSome metadata metaSessionRecoveredFrom session.lifecycle.recoveredFrom
  let metadata := insertSome metadata metaSessionLastRecoveredAtMs
    (millis session.lifecycle.lastRecoveredAt)
  let metadata := metadata.insert metaSessionBackgroundPresent
    (toString session.backgroundEnvelope.isSome)
  match session.backgroundEnvelope with
  | none => metadata
  | some background =>
      insertSome (metadata.insert metaSessionBackgroundRevision (toString background.revision))
        metaSessionBackgroundLifecycleState
        (background.metadata.lookup "background_session_lifecycle_state")

def sessionPruneAuditPath (sessionId : String) (prunedAtMs : Int) : String :=
  s!"prune/{sessionId}/{prunedAtMs}"

def sessionPruneAuditBody (session : AgentSession) (reason : String) : String :=
  s!"Session {session.id} pruned from engram durable storage. reason={reason} " ++
    s!"archived={session.isArchived} updated_at_ms={timestampMillis session.updatedAt}"

/-- The document store with the sessions in it, as they are written. -/
structure SessionStore where
  engram : EngramStore := {}
  sessions : Table String String := ∅

structure SessionHost where
  engram : EngramHost
  parseSession : String → Option AgentSession

namespace SessionStore

section

variable (host : SessionHost) (policy : RetentionPruningPolicy) (now : DateTime)
  (recording : String → CallSetting)

def recordSessionPruneAudit (setting : CallSetting) (engram : EngramStore)
    (session : AgentSession) (reason : String) (prunedAtMs : Int) :
    EngramStore × Except EngramError Document :=
  engram.storeDocument host.engram setting collectionSessionAudit
    (sessionPruneAuditPath session.id prunedAtMs) s!"Session prune audit: {session.id}"
    (sessionPruneAuditBody session reason) false
    (insertSessionAuditContext (sessionPruneAuditMetadata reason prunedAtMs) session)

/-- The loop over the sessions. Those that cannot be read are skipped, and a session
whose audit cannot be stored ends the loop. -/
def pruneLoop (store : SessionStore) (count : Nat) :
    List (String × String) → SessionStore × Except EngramError Nat
  | [] => (store, .ok count)
  | (id, data) :: rest =>
      match host.parseSession data with
      | none => store.pruneLoop count rest
      | some session =>
          match pruneReason policy now session with
          | none => store.pruneLoop count rest
          | some reason =>
              match recordSessionPruneAudit host (recording id) store.engram session reason.text
                  (timestampMillis now) with
              | (engram, .error failure) => ({ store with engram := engram }, .error failure)
              | (engram, .ok _) =>
                  let pruned : SessionStore :=
                    { engram := engram, sessions := store.sessions.erase id }
                  let count := if id ∈ store.sessions then count + 1 else count
                  pruned.pruneLoop count rest

def pruneSessionsWithPolicy (store : SessionStore) : SessionStore × Except EngramError Nat :=
  store.pruneLoop host policy now recording 0
    (store.sessions.entries.map fun entry => (entry.1, entry.2))

end

end SessionStore

end BenShu.Engram

/-!
# What pruning deletes

The sessions that are pruned are those with a reason, up to the first one whose audit
does not fit. Their audit documents are kept apart by the ids in the sessions.
-/

namespace BenShu.Engram

open Protocol

/-- A session that is pruned and why. -/
structure PruneTarget where
  id : String
  session : AgentSession
  reason : PruneReason

/-- The audit document of a pruned session. -/
structure SessionAuditOf (nowMs : Int) (session : AgentSession) (reason : PruneReason)
    (record : Document) : Prop where
  collection : record.collection = collectionSessionAudit
  kind : record.metadata.lookup metaAuditKind = some auditKindSessionPruned
  event : record.metadata.lookup metaSessionPrunedAtMs = some (toString nowMs)
  session : record.metadata.lookup metaSessionId = some session.id
  reason : record.metadata.lookup metaSessionPruneReason = some reason.text

def sessionAuditKey (nowMs : Int) (sessionId : String) : String :=
  documentKey collectionSessionAudit (sessionPruneAuditPath sessionId nowMs)

theorem sessionAuditKey_injective {nowMs : Int} {sessionId sessionId' : String}
    (h : sessionAuditKey nowMs sessionId = sessionAuditKey nowMs sessionId') :
    sessionId = sessionId' := by
  have hlist : ∀ sessionId, (sessionAuditKey nowMs sessionId).toList =
      "session_audit:prune/".toList ++ (sessionId.toList ++ ("/" ++ toString nowMs).toList) := by
    intro sessionId
    have hkey : sessionAuditKey nowMs sessionId =
        "session_audit" ++ ":" ++ ("prune/" ++ sessionId ++ "/" ++ toString nowMs) := rfl
    have hstart : "session_audit:prune/".toList =
        "session_audit".toList ++ (":".toList ++ "prune/".toList) := by simp
    rw [hkey, hstart]
    simp only [String.toList_append, List.append_assoc]
  have hlists := congrArg String.toList h
  rw [hlist, hlist] at hlists
  exact String.toList_inj.mp (List.append_cancel_right (List.append_cancel_left hlists))

theorem insertSome_lookup {metadata : Table String String} {key other : String}
    {value : Option String} (hne : other ≠ key) :
    (insertSome metadata key value).lookup other = metadata.lookup other := by
  cases value with
  | none => rfl
  | some value =>
      show (metadata.insert key value).lookup other = _
      rw [Table.lookup_insert, if_neg hne]

/-- The context of the session leaves the keys of the event alone. -/
theorem insertSessionAuditContext_lookup (metadata : Table String String) (session : AgentSession) :
    (insertSessionAuditContext metadata session).lookup metaSessionId = some session.id ∧
      ∀ key ∈ [metaAuditKind, metaSessionPruneReason, metaSessionPrunedAtMs,
        metaDocumentLifecycleState],
        (insertSessionAuditContext metadata session).lookup key = metadata.lookup key := by
  have hkept : ∀ key, key ≠ metaSessionArchivedAtMs → key ≠ metaSessionRetentionUntilMs →
      key ≠ metaSessionArchiveReason → key ≠ metaSessionRecoveredFrom →
      key ≠ metaSessionLastRecoveredAtMs → key ≠ metaSessionBackgroundPresent →
      key ≠ metaSessionBackgroundRevision → key ≠ metaSessionBackgroundLifecycleState →
      (insertSessionAuditContext metadata session).lookup key =
        (((metadata.insert metaSessionId session.id).insert metaSessionLifecycleState
          (sessionLifecycleState session)).insert metaSessionUpdatedAtMs
            (toString (timestampMillis session.updatedAt))).lookup key := by
    intro key h₁ h₂ h₃ h₄ h₅ h₆ h₇ h₈
    unfold insertSessionAuditContext
    cases session.backgroundEnvelope with
    | none =>
        dsimp only
        rw [Table.lookup_insert, if_neg h₆, insertSome_lookup h₅, insertSome_lookup h₄,
          insertSome_lookup h₃, insertSome_lookup h₂, insertSome_lookup h₁]
    | some background =>
        dsimp only
        rw [insertSome_lookup h₈, Table.lookup_insert, if_neg h₇, Table.lookup_insert, if_neg h₆,
          insertSome_lookup h₅, insertSome_lookup h₄, insertSome_lookup h₃, insertSome_lookup h₂,
          insertSome_lookup h₁]
  constructor
  · rw [hkept metaSessionId (by decide) (by decide) (by decide) (by decide) (by decide) (by decide)
      (by decide) (by decide)]
    simp only [Table.lookup_insert]
    rfl
  · intro key hkey
    simp only [List.mem_cons, List.not_mem_nil, or_false] at hkey
    rcases hkey with hkey | hkey | hkey | hkey
    all_goals
      rw [hkey, hkept _ (by decide) (by decide) (by decide) (by decide) (by decide) (by decide)
        (by decide) (by decide)]
      simp only [Table.lookup_insert]
      rfl

/-! ## What may be pruned -/

def ArchiveInForce (session : AgentSession) : Prop :=
  ∃ archivedAt, session.lifecycle.archivedAt = some archivedAt ∧
    ∀ recoveredAt, session.lifecycle.lastRecoveredAt = some recoveredAt → recoveredAt ≤ archivedAt

def RecoveredSince (session : AgentSession) : Prop :=
  ∃ archivedAt recoveredAt, session.lifecycle.archivedAt = some archivedAt ∧
    session.lifecycle.lastRecoveredAt = some recoveredAt ∧ archivedAt < recoveredAt

/-- The criterion that a reason names, with an archive that is in force. -/
def PruneReason.Holds (policy : RetentionPruningPolicy) (now : DateTime) (session : AgentSession) :
    PruneReason → Prop
  | retentionExpired =>
      ArchiveInForce session ∧ ∃ deadline, session.lifecycle.retentionUntil = some deadline ∧
        deadline ≤ now
  | archivedOlderThanThreshold =>
      staleByAge policy now session = true ∧
        (policy.requireArchivedForSessionPrune = true → ArchiveInForce session)

structure Prunable (policy : RetentionPruningPolicy) (now : DateTime) (session : AgentSession)
    (reason : PruneReason) : Prop where
  unprotected : sessionBackgroundPruneProtected session now = false
  retained : ∀ deadline, session.lifecycle.retentionUntil = some deadline → deadline ≤ now
  criterion : reason.Holds policy now session

section

variable {policy : RetentionPruningPolicy} {now : DateTime} {session : AgentSession}
  {reason : PruneReason}

theorem archiveInForce_iff :
    ArchiveInForce session ↔ session.isArchived = true ∧ ¬RecoveredSince session := by
  unfold AgentSession.isArchived
  rw [Option.isSome_iff_exists]
  constructor
  · intro ⟨archivedAt, harchived, hrecovered⟩
    refine ⟨⟨archivedAt, harchived⟩, ?_⟩
    intro ⟨archivedAt', recoveredAt, harchived', hlast, hlater⟩
    rw [harchived] at harchived'
    cases harchived'
    exact Int.not_lt.mpr (hrecovered recoveredAt hlast) hlater
  · intro ⟨⟨archivedAt, harchived⟩, hnot⟩
    refine ⟨archivedAt, harchived, fun recoveredAt hlast => ?_⟩
    by_contra hlater
    exact hnot ⟨archivedAt, recoveredAt, harchived, hlast, Int.not_le.mp hlater⟩

theorem retentionExpiredAt_iff :
    session.retentionExpiredAt now = true ↔ session.isArchived = true ∧
      ∃ deadline, session.lifecycle.retentionUntil = some deadline ∧ deadline ≤ now := by
  unfold AgentSession.retentionExpiredAt
  cases session.lifecycle.retentionUntil with
  | none => simp
  | some deadline => simp

theorem pruneReason_spec (h : pruneReason policy now session = some reason) :
    sessionBackgroundPruneProtected session now = false ∧
      (policy.requireArchivedForSessionPrune = true → session.isArchived = true) ∧
      match reason with
      | .retentionExpired => session.retentionExpiredAt now = true
      | .archivedOlderThanThreshold =>
          session.retentionExpiredAt now = false ∧ staleByAge policy now session = true := by
  unfold pruneReason at h
  dsimp only at h
  split at h
  · rename_i hselected
    simp only [Bool.and_eq_true, Bool.or_eq_true, Bool.not_eq_true'] at hselected
    rcases hselected with ⟨⟨hrequired, hprotected⟩, hstale⟩
    refine ⟨hprotected, ?_, ?_⟩
    · intro hrequire
      rcases hrequired with hfree | harchived
      · rw [hrequire] at hfree
        cases hfree
      · exact harchived
    · split at h
      · rename_i hexpired
        cases h
        exact hexpired
      · rename_i hexpired
        cases h
        rcases hstale with hretention | hage
        · exact absurd hretention hexpired
        · exact ⟨Bool.eq_false_iff.mpr hexpired, hage⟩
  · cases h

theorem reason_holds_iff (h : pruneReason policy now session = some reason) :
    reason.Holds policy now session ↔
      (policy.requireArchivedForSessionPrune = true ∨ session.retentionExpiredAt now = true →
        ¬RecoveredSince session) := by
  rcases pruneReason_spec h with ⟨-, hrequired, hreason⟩
  cases reason with
  | retentionExpired =>
      dsimp only at hreason
      rcases retentionExpiredAt_iff.mp hreason with ⟨harchived, hdeadline⟩
      constructor
      · intro hholds _
        exact (archiveInForce_iff.mp hholds.1).2
      · intro hnot
        exact ⟨archiveInForce_iff.mpr ⟨harchived, hnot (.inr hreason)⟩, hdeadline⟩
  | archivedOlderThanThreshold =>
      rcases hreason with ⟨hexpired, hage⟩
      constructor
      · intro hholds hcounts
        rcases hcounts with hrequire | hretention
        · exact (archiveInForce_iff.mp (hholds.2 hrequire)).2
        · rw [hexpired] at hretention
          cases hretention
      · intro hnot
        exact ⟨hage, fun hrequire =>
          archiveInForce_iff.mpr ⟨hrequired hrequire, hnot (.inl hrequire)⟩⟩

end

namespace SessionStore

variable {host : SessionHost} {policy : RetentionPruningPolicy} {now : DateTime}
  {recording : String → CallSetting} {store store' : SessionStore} {session : AgentSession}

def AuditFits (config : EngramStoreConfig) (target : PruneTarget) : Prop :=
  (sessionPruneAuditBody target.session target.reason.text).utf8ByteSize ≤ config.maxContentSize

instance (config : EngramStoreConfig) (target : PruneTarget) :
    Decidable (AuditFits config target) := inferInstanceAs (Decidable (_ ≤ _))

variable {target : PruneTarget}

theorem recordSessionPruneAudit_spec {engram : EngramStore}
    (h : EngramStore.Kept host.engram engram) (setting : CallSetting)
    (hfits : AuditFits engram.config target) (nowMs : Int) :
    let recorded := recordSessionPruneAudit host setting engram target.session target.reason.text
      nowMs
    ∃ record, recorded.2 = .ok record ∧ SessionAuditOf nowMs target.session target.reason record ∧
      recorded.1.documents =
        engram.documents.insert (sessionAuditKey nowMs target.session.id) record ∧
      EngramStore.Kept host.engram recorded.1 ∧ recorded.1.config = engram.config := by
  intro recorded
  have hok : recorded.2 = .ok _ := EngramStore.storeDocument_ok h.indexed hfits
  rcases EngramStore.storeDocument_fields host.engram setting engram collectionSessionAudit
    (sessionPruneAuditPath target.session.id nowMs)
    s!"Session prune audit: {target.session.id}" false
    (insertSessionAuditContext (sessionPruneAuditMetadata target.reason.text nowMs) target.session)
    hfits with ⟨hdocuments, -, -, hconfig⟩
  rcases EngramStore.storedDocument_fields host.engram setting engram collectionSessionAudit
    (sessionPruneAuditPath target.session.id nowMs)
    s!"Session prune audit: {target.session.id}"
    (sessionPruneAuditBody target.session target.reason.text) false
    (insertSessionAuditContext (sessionPruneAuditMetadata target.reason.text nowMs) target.session)
    with ⟨-, -, hcollection, -, hmetadata⟩
  rcases insertSessionAuditContext_lookup (sessionPruneAuditMetadata target.reason.text nowMs)
    target.session with ⟨hid, hkept⟩
  have hlookup : ∀ key ∈ [metaAuditKind, metaSessionPruneReason, metaSessionPrunedAtMs,
      metaSessionId], ∀ metadata : Table String String,
        (EngramStore.withLifecycleState metadata).lookup key = metadata.lookup key := by
    intro key hkey metadata
    have hne : key ≠ metaDocumentLifecycleState := by
      intro heq
      subst heq
      revert hkey
      decide
    unfold EngramStore.withLifecycleState
    split
    · rfl
    · rw [Table.lookup_insert, if_neg hne]
  have hrecord : ∀ key, key ∈ [metaAuditKind, metaSessionPruneReason, metaSessionPrunedAtMs,
      metaSessionId] → _ :=
    fun key hkey => (congrArg (AList.lookup key) hmetadata).trans (hlookup key hkey _)
  refine ⟨_, hok, ?_, hdocuments, EngramStore.storeDocument_kept h, hconfig⟩
  constructor
  · exact hcollection
  · exact (hrecord metaAuditKind (by decide)).trans (hkept metaAuditKind (by decide))
  · exact (hrecord metaSessionPrunedAtMs (by decide)).trans
      (hkept metaSessionPrunedAtMs (by decide))
  · exact (hrecord metaSessionId (by decide)).trans hid
  · exact (hrecord metaSessionPruneReason (by decide)).trans
      (hkept metaSessionPruneReason (by decide))

theorem recordSessionPruneAudit_tooLarge {engram : EngramStore} (host : SessionHost)
    (setting : CallSetting) (nowMs : Int) (hfits : ¬AuditFits engram.config target) :
    ∃ failure, recordSessionPruneAudit host setting engram target.session target.reason.text
      nowMs = (engram, .error failure) :=
  ⟨_, if_pos (Nat.lt_of_not_le hfits)⟩

/-! ## The loop -/

def pruneTarget (host : SessionHost) (policy : RetentionPruningPolicy) (now : DateTime)
    (entry : String × String) : Option PruneTarget :=
  (host.parseSession entry.2).bind fun session =>
    (pruneReason policy now session).map fun reason => ⟨entry.1, session, reason⟩

def prunedTargets (host : SessionHost) (policy : RetentionPruningPolicy) (now : DateTime)
    (config : EngramStoreConfig) (entries : List (String × String)) : List PruneTarget :=
  (entries.filterMap (pruneTarget host policy now)).takeWhile fun target => AuditFits config target

/-- What pruning the targets leaves. -/
structure Pruned (nowMs : Int) (targets : List PruneTarget) (store store' : SessionStore) : Prop where
  sessions : ∀ id, store'.sessions.lookup id =
    if id ∈ targets.map (·.id) then none else store.sessions.lookup id
  other : ∀ key, store'.engram.documents.lookup key = store.engram.documents.lookup key ∨
    ∃ target ∈ targets, ∃ record, key = sessionAuditKey nowMs target.session.id ∧
      store'.engram.documents.lookup key = some record ∧
        SessionAuditOf nowMs target.session target.reason record
  recorded : ∀ target ∈ targets, ∃ named ∈ targets, ∃ record,
    named.session.id = target.session.id ∧
      store'.engram.documents.lookup (sessionAuditKey nowMs target.session.id) = some record ∧
        SessionAuditOf nowMs named.session named.reason record

theorem Pruned.nil (nowMs : Int) (store : SessionStore) : Pruned nowMs [] store store where
  sessions id := by simp
  other key := .inl rfl
  recorded target h := absurd h (by simp)

theorem Pruned.cons {nowMs : Int} {targets : List PruneTarget} {record : Document}
    {engram : EngramStore} (haudit : SessionAuditOf nowMs target.session target.reason record)
    (hdocuments : engram.documents =
      store.engram.documents.insert (sessionAuditKey nowMs target.session.id) record)
    (h : Pruned nowMs targets { engram := engram, sessions := store.sessions.erase target.id }
      store') : Pruned nowMs (target :: targets) store store' := by
  constructor
  · intro id
    rw [h.sessions id]
    dsimp only
    rw [Table.lookup_erase]
    by_cases hid : id = target.id
    · simp [hid]
    · simp [hid]
  · intro key
    rcases h.other key with hsame | ⟨other, hother, hrest⟩
    · rw [hsame]
      dsimp only
      rw [hdocuments, Table.lookup_insert]
      split
      · rename_i hkey
        exact .inr ⟨target, List.mem_cons_self, record, hkey, rfl, haudit⟩
      · exact .inl rfl
    · exact .inr ⟨other, List.mem_cons_of_mem _ hother, hrest⟩
  · intro other hother
    rcases List.mem_cons.mp hother with hsame | hlater
    · subst hsame
      rcases h.other (sessionAuditKey nowMs other.session.id) with hkept |
        ⟨named, hnamed, record', hkey, hfound, haudit'⟩
      · refine ⟨other, List.mem_cons_self, record, rfl, ?_, haudit⟩
        rw [hkept]
        dsimp only
        rw [hdocuments, Table.lookup_insert, if_pos rfl]
      · exact ⟨named, List.mem_cons_of_mem _ hnamed, record',
          (sessionAuditKey_injective hkey).symm, hfound, haudit'⟩
    · rcases h.recorded other hlater with ⟨named, hnamed, hrest⟩
      exact ⟨named, List.mem_cons_of_mem _ hnamed, hrest⟩

theorem pruneLoop_spec (host : SessionHost) (policy : RetentionPruningPolicy) (now : DateTime)
    (recording : String → CallSetting) (entries : List (String × String)) (store : SessionStore)
    (count : Nat) (h : EngramStore.Kept host.engram store.engram) :
    Pruned (timestampMillis now)
      (prunedTargets host policy now store.engram.config entries) store
      (store.pruneLoop host policy now recording count entries).1 := by
  induction entries generalizing store count with
  | nil => exact Pruned.nil _ store
  | cons entry entries ih =>
      rcases entry with ⟨id, data⟩
      unfold pruneLoop prunedTargets
      rw [List.filterMap_cons]
      unfold pruneTarget
      cases hsession : host.parseSession data with
      | none => exact ih store count h
      | some session =>
          dsimp only
          rw [Option.bind_some]
          cases hreason : pruneReason policy now session with
          | none => exact ih store count h
          | some reason =>
              dsimp only
              rw [Option.map_some]
              dsimp only
              by_cases hfits : AuditFits store.engram.config ⟨id, session, reason⟩
              · rcases recordSessionPruneAudit_spec h (recording id) hfits (timestampMillis now) with
                  ⟨record, hok, haudit, hdocuments, hkept, hconfig⟩
                rw [List.takeWhile_cons_of_pos (by simpa using hfits)]
                dsimp only at hok haudit hdocuments hkept hconfig
                generalize recordSessionPruneAudit _ _ _ _ _ _ = recorded at *
                rcases recorded with ⟨engram, result⟩
                dsimp only at hok hdocuments hkept hconfig
                subst hok
                dsimp only
                have hrest := ih { engram := engram, sessions := store.sessions.erase id }
                  (if id ∈ store.sessions then count + 1 else count) hkept
                dsimp only at hrest
                rw [hconfig] at hrest
                exact Pruned.cons haudit hdocuments hrest
              · rcases recordSessionPruneAudit_tooLarge host (recording id) (timestampMillis now) hfits
                  with ⟨failure, hfailed⟩
                dsimp only at hfailed
                rw [List.takeWhile_cons_of_neg (by simpa using hfits), hfailed]
                exact Pruned.nil _ store

/-! ## A call -/

def afterPrune (host : SessionHost) (policy : RetentionPruningPolicy) (now : DateTime)
    (recording : String → CallSetting) (store : SessionStore) : SessionStore :=
  (store.pruneSessionsWithPolicy host policy now recording).1

/-- A session that is stored before and not after. -/
def Deleted (host : SessionHost) (store store' : SessionStore) (id : String)
    (session : AgentSession) : Prop :=
  ∃ data, store.sessions.lookup id = some data ∧ host.parseSession data = some session ∧
    store'.sessions.lookup id = none

/-- Every deleted session may be pruned for some reason, and one audit document, its own,
was written for it and has that reason. -/
def PruneSafe (host : SessionHost) (policy : RetentionPruningPolicy) (now : DateTime)
    (recording : String → CallSetting) (store : SessionStore) : Prop :=
  let after := store.afterPrune host policy now recording
  ∀ id session, Deleted host store after id session →
    ∃ reason, Prunable policy now session reason ∧ ∃ key record,
      key = sessionAuditKey (timestampMillis now) session.id ∧
      after.engram.documents.lookup key = some record ∧
      SessionAuditOf (timestampMillis now) session reason record ∧
      (∀ id' session', Deleted host store after id' session' →
        sessionAuditKey (timestampMillis now) session'.id = key → id' = id) ∧
      ∀ other found, after.engram.documents.lookup other = some found →
        SessionAuditOf (timestampMillis now) session reason found →
          other = key ∨ store.engram.documents.lookup other = some found

def targetsOf (host : SessionHost) (policy : RetentionPruningPolicy) (now : DateTime)
    (store : SessionStore) : List PruneTarget :=
  prunedTargets host policy now store.engram.config
    (store.sessions.entries.map fun entry => (entry.1, entry.2))

/-- No retention of a session that is pruned is still to come, none was recovered since
its archiving where the archive counts, and their ids differ. -/
structure PruneClean (host : SessionHost) (policy : RetentionPruningPolicy) (now : DateTime)
    (store : SessionStore) : Prop where
  retained : ∀ target ∈ store.targetsOf host policy now, ∀ deadline,
    target.session.lifecycle.retentionUntil = some deadline → deadline ≤ now
  inForce : ∀ target ∈ store.targetsOf host policy now,
    policy.requireArchivedForSessionPrune = true ∨ target.session.retentionExpiredAt now = true →
      ¬RecoveredSince target.session
  distinct : ∀ target ∈ store.targetsOf host policy now,
    ∀ other ∈ store.targetsOf host policy now,
      target.session.id = other.session.id → target.id = other.id

theorem pruned_targetsOf (policy : RetentionPruningPolicy) (now : DateTime)
    (recording : String → CallSetting)
    (h : EngramStore.Kept host.engram store.engram) :
    Pruned (timestampMillis now) (store.targetsOf host policy now) store
      (store.afterPrune host policy now recording) :=
  pruneLoop_spec host policy now recording _ store 0 h

theorem targetsOf_stored (h : target ∈ store.targetsOf host policy now) :
    (∃ data, store.sessions.lookup target.id = some data ∧
      host.parseSession data = some target.session) ∧
        pruneReason policy now target.session = some target.reason := by
  have hmem := (List.takeWhile_prefix _).subset h
  rcases List.mem_filterMap.mp hmem with ⟨entry, hentry, htarget⟩
  rcases List.mem_map.mp hentry with ⟨stored, hstored, rfl⟩
  rcases Option.bind_eq_some_iff.mp htarget with ⟨session, hsession, hreason⟩
  rcases Option.map_eq_some_iff.mp hreason with ⟨reason, hgiven, rfl⟩
  exact ⟨⟨stored.2, Table.mem_entries_iff.mp hstored, hsession⟩, hgiven⟩

theorem targetsOf_eq {other : PruneTarget} (h : target ∈ store.targetsOf host policy now)
    (hother : other ∈ store.targetsOf host policy now) (hid : target.id = other.id) :
    target = other := by
  rcases targetsOf_stored h with ⟨⟨data, hdata, hsession⟩, hreason⟩
  rcases targetsOf_stored hother with ⟨⟨data', hdata', hsession'⟩, hreason'⟩
  rcases target with ⟨id, session, reason⟩
  rcases other with ⟨id', session', reason'⟩
  dsimp only at *
  subst hid
  rw [hdata] at hdata'
  cases hdata'
  rw [hsession] at hsession'
  cases hsession'
  rw [hreason] at hreason'
  cases hreason'
  rfl

theorem deleted_iff (recording : String → CallSetting)
    (h : EngramStore.Kept host.engram store.engram) {id : String} {session : AgentSession} :
    Deleted host store (store.afterPrune host policy now recording) id session ↔
      ∃ target ∈ store.targetsOf host policy now, target.id = id ∧ target.session = session := by
  have hpruned := pruned_targetsOf policy now recording h
  constructor
  · intro ⟨data, hdata, hsession, hgone⟩
    rw [hpruned.sessions id] at hgone
    split at hgone
    · rename_i hmem
      rcases List.mem_map.mp hmem with ⟨target, htarget, rfl⟩
      rcases targetsOf_stored htarget with ⟨⟨data', hdata', hsession'⟩, -⟩
      rw [hdata] at hdata'
      cases hdata'
      rw [hsession] at hsession'
      cases hsession'
      exact ⟨target, htarget, rfl, rfl⟩
    · rw [hdata] at hgone
      cases hgone
  · intro ⟨target, htarget, hid, hsame⟩
    subst hid hsame
    rcases targetsOf_stored htarget with ⟨⟨data, hdata, hsession⟩, -⟩
    refine ⟨data, hdata, hsession, ?_⟩
    rw [hpruned.sessions, if_pos (List.mem_map_of_mem htarget)]

/-- Pruning is safe exactly when the sessions it takes are clean. -/
theorem pruneSafe_iff (host : SessionHost) (policy : RetentionPruningPolicy) (now : DateTime)
    (recording : String → CallSetting) (config : EngramStoreConfig) (calls : List EngramCall)
    (sessions : Table String String) :
    let store : SessionStore :=
      { engram := EngramStore.run host.engram { config := config } calls, sessions := sessions }
    PruneSafe host policy now recording store ↔ PruneClean host policy now store := by
  intro store
  have hkept : EngramStore.Kept host.engram store.engram :=
    EngramStore.run_kept (EngramStore.new_kept host.engram config) calls
  have hpruned := pruned_targetsOf policy now recording hkept
  constructor
  · intro hsafe
    have htarget : ∀ target ∈ store.targetsOf host policy now,
        Prunable policy now target.session target.reason ∧
          ∀ other ∈ store.targetsOf host policy now,
            target.session.id = other.session.id → target.id = other.id := by
      intro target hmem
      rcases hsafe target.id target.session
        ((deleted_iff recording hkept).mpr ⟨target, hmem, rfl, rfl⟩) with
        ⟨reason, hprunable, key, record, hkey, hrecord, haudit, hown, -⟩
      have hdistinct : ∀ other ∈ store.targetsOf host policy now,
          target.session.id = other.session.id → target.id = other.id := by
        intro other hother hsame
        apply (hown other.id other.session
          ((deleted_iff recording hkept).mpr ⟨other, hother, rfl, rfl⟩) ?_).symm
        rw [hkey, hsame]
      -- the audit document has the reason of the target
      rcases hpruned.recorded target hmem with ⟨named, hnamed, record', hid, hrecord', haudit'⟩
      have hsame := targetsOf_eq hmem hnamed (hdistinct named hnamed hid.symm)
      subst hsame
      rw [hkey, hrecord'] at hrecord
      cases hrecord
      have htext : target.reason = reason := by
        have htexts := Option.some.inj (haudit'.reason.symm.trans haudit.reason)
        revert htexts
        cases target.reason <;> cases reason <;> decide
      exact ⟨htext ▸ hprunable, hdistinct⟩
    constructor
    · intro target hmem
      exact (htarget target hmem).1.retained
    · intro target hmem
      exact (reason_holds_iff (targetsOf_stored hmem).2).mp (htarget target hmem).1.criterion
    · intro target hmem
      exact (htarget target hmem).2
  · intro hclean id session hdeleted
    rcases (deleted_iff recording hkept).mp hdeleted with ⟨target, hmem, hid, hsession⟩
    subst hid hsession
    have hreason := (targetsOf_stored hmem).2
    rcases hpruned.recorded target hmem with ⟨named, hnamed, record, hsame, hrecord, haudit⟩
    have hnamed := targetsOf_eq hmem hnamed (hclean.distinct target hmem named hnamed hsame.symm)
    subst hnamed
    refine ⟨target.reason, ?_, _, record, rfl, hrecord, haudit, ?_, ?_⟩
    · exact ⟨(pruneReason_spec hreason).1, hclean.retained target hmem,
        (reason_holds_iff hreason).mpr (hclean.inForce target hmem)⟩
    · intro id' session' hother hkey
      rcases (deleted_iff recording hkept).mp hother with ⟨other, hmem', hid', hsession'⟩
      subst hid' hsession'
      exact hclean.distinct other hmem' target hmem (sessionAuditKey_injective hkey)
    · intro other found hfound hothers
      rcases hpruned.other other with hold | ⟨target', hmem', record', hkey, hrecord', haudit'⟩
      · exact .inr (hold ▸ hfound)
      · rw [hrecord'] at hfound
        cases hfound
        left
        rw [hkey, Option.some.inj (haudit'.session.symm.trans hothers.session)]

def days (n : Int) : DateTime := n * (24 * 60 * 60 * 1000000000)

def retainedSession : AgentSession :=
  AgentSession.archive 0 0 { id := "s", updatedAt := 0 } none (some (days 100))

def retainedHost : SessionHost where
  engram := wordEngramHost
  parseSession _ := some retainedSession

/-- It is deleted on the forty-fifth day. -/
theorem retained_deleted :
    ¬PruneSafe retainedHost {} (days 45) (fun _ => ⟨0, .same⟩)
      { engram := EngramStore.run wordEngramHost {} [], sessions := Table.ofList [("s", "data")] } := by
  intro hsafe
  have hkept : EngramStore.Kept wordEngramHost (EngramStore.run wordEngramHost {} []) :=
    EngramStore.run_kept (EngramStore.new_kept wordEngramHost {}) []
  have hfits : AuditFits {} ⟨"s", retainedSession, .archivedOlderThanThreshold⟩ := by
    decide +kernel
  have htarget : (⟨"s", retainedSession, .archivedOlderThanThreshold⟩ : PruneTarget) ∈
      targetsOf retainedHost {} (days 45)
        { engram := EngramStore.run wordEngramHost {} [],
          sessions := Table.ofList [("s", "data")] } := by
    show _ ∈ List.takeWhile (fun target => AuditFits {} target)
      [⟨"s", retainedSession, .archivedOlderThanThreshold⟩]
    simp [hfits]
  rcases hsafe "s" retainedSession ((deleted_iff _ hkept).mpr ⟨_, htarget, rfl, rfl⟩) with
    ⟨reason, hprunable, -⟩
  exact absurd (hprunable.retained (days 100) rfl) (by decide)

end SessionStore

end BenShu.Engram
