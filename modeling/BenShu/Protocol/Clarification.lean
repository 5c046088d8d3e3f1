import BenShu.Protocol.Message

/-!
# Clarifications in a history

An open question to the user is kept in the metadata of the messages. It is recovered from the
history by a scan from the end.
-/

namespace BenShu.Protocol

inductive SessionStatus where
  | thinking
  | pendingTools
  | awaitingClarification (clarification originalRequest : String)
  | awaitingApproval (toolName arguments : String)
  | executing
  | completed
  | failed (reason : String)
deriving DecidableEq

/-- Statuses as JSON texts. -/
structure StatusJson where
  encodeJson : SessionStatus → Option String
  decodeJson : String → Option SessionStatus

def StatusJson.RoundTrips (json : StatusJson) : Prop :=
  ∀ status, ∃ encoded, json.encodeJson status = some encoded ∧ json.decodeJson encoded = some status

namespace SessionStatus

variable (json : StatusJson)

def statusLabel : SessionStatus → String
  | .awaitingClarification _ _ => "awaiting_clarification"
  | .awaitingApproval _ _ => "awaiting_approval"
  | .thinking => "thinking"
  | .pendingTools => "pending_tools"
  | .executing => "executing"
  | .completed => "completed"
  | .failed _ => "failed"

def applyMessageMetadata (status : SessionStatus) (message : Message) : Message :=
  let message := message.withMetadata "session_status" status.statusLabel
  match json.encodeJson status with
  | some encoded => message.withMetadata "session_status_json" encoded
  | none => message

def decodeFromMessage (message : Message) : Option SessionStatus :=
  (message.metadata.lookup "session_status_json").bind json.decodeJson

end SessionStatus

structure ClarificationSessionState where
  clarification : String
  originalRequest : String
deriving DecidableEq

inductive ClarificationSessionEvent where
  | awaiting
  | statusSurface
  | resolved
  | cancelled

def ClarificationSessionEvent.statusKind : ClarificationSessionEvent → String
  | .awaiting | .statusSurface => "awaiting_clarification"
  | .resolved => "thinking"
  | .cancelled => "failed"

namespace ClarificationSessionState

variable (json : StatusJson)

def asSessionStatus (state : ClarificationSessionState) : SessionStatus :=
  .awaitingClarification state.clarification state.originalRequest

def applyMessageMetadata (state : ClarificationSessionState) (message : Message)
    (event : ClarificationSessionEvent) (failureReason : Option String) : Message :=
  let status := match event with
    | .awaiting | .statusSurface => state.asSessionStatus
    | .resolved => .thinking
    | .cancelled => .failed (failureReason.getD "clarification_cancelled")
  let message := status.applyMessageMetadata json message
  let message := message.withMetadata "clarification_prompt" state.clarification
  let message := message.withMetadata "clarification_original_request" state.originalRequest
  let message := message.withMetadata "clarification_status_kind" event.statusKind
  match event with
  | .awaiting => message
  | .statusSurface => message.withMetadata "clarification_status_surface" "true"
  | .resolved => message.withMetadata "clarification_resolved" "true"
  | .cancelled =>
      let message := message.withMetadata "clarification_cancelled" "true"
      match failureReason.filter fun value => !(Text.trim value).isEmpty with
      | some reason => message.withMetadata "clarification_failure_reason" reason
      | none => message

/-- What the scan returns at a message whose status is read from JSON. -/
def fromStatus (message : Message) :
    Option SessionStatus → Option (Option ClarificationSessionState)
  | some .thinking =>
      if (message.metadata.lookup "clarification_resolved").isSome then some none else none
  | some (.failed _) =>
      if (message.metadata.lookup "clarification_cancelled").isSome then some none else none
  | some (.awaitingClarification clarification originalRequest) =>
      some (some { clarification, originalRequest })
  | _ => none

/-- What the scan returns at a message by its metadata. A question without its prompt or its
request ends the scan too. -/
def fromMetadata (message : Message) : Option (Option ClarificationSessionState) :=
  let sessionStatus := message.metadata.lookup "session_status"
  if sessionStatus = some "thinking" ∧
      (message.metadata.lookup "clarification_resolved").isSome then some none
  else if sessionStatus = some "failed" ∧
      (message.metadata.lookup "clarification_cancelled").isSome then some none
  else if sessionStatus = some "awaiting_clarification" then
    some do
      let clarification ← message.metadata.lookup "clarification_prompt"
      let originalRequest ← message.metadata.lookup "clarification_original_request"
      some { clarification, originalRequest }
  else none

/-- The scan over the messages from the last one on. -/
def recoverFromReversed : List Message → Option ClarificationSessionState
  | [] => none
  | message :: earlier =>
      match fromStatus message (SessionStatus.decodeFromMessage json message) with
      | some found => found
      | none =>
          match fromMetadata message with
          | some found => found
          | none => recoverFromReversed earlier

def recoverFromHistory (history : List Message) : Option ClarificationSessionState :=
  recoverFromReversed json history.reverse

/-! ## The message that decides -/

/-- What a message says of the clarification, if it says anything: a question, or none. -/
def borne (message : Message) : Option (Option ClarificationSessionState) :=
  (fromStatus message (SessionStatus.decodeFromMessage json message)).or (fromMetadata message)

theorem recoverFromReversed_cons (message : Message) (earlier : List Message) :
    recoverFromReversed json (message :: earlier) =
      (borne json message).getD (recoverFromReversed json earlier) := by
  rw [recoverFromReversed, borne]
  cases fromStatus message (SessionStatus.decodeFromMessage json message) with
  | some found => rfl
  | none =>
      cases fromMetadata message with
      | some found => rfl
      | none => rfl

theorem recoverFromHistory_eq_foldl (history : List Message) :
    recoverFromHistory json history =
      history.foldl (fun state message => (borne json message).getD state) none := by
  rw [recoverFromHistory, ← List.foldr_reverse]
  induction history.reverse with
  | nil => rfl
  | cons message earlier ih => rw [recoverFromReversed_cons, List.foldr_cons, ih]

theorem recoverFromHistory_eq_last (history : List Message) :
    recoverFromHistory json history = (history.filterMap (borne json)).getLast?.join := by
  rw [recoverFromHistory_eq_foldl]
  induction history using List.reverseRecOn with
  | nil => rfl
  | append_singleton history message ih =>
      rw [List.foldl_append, List.foldl_cons, List.foldl_nil, ih, List.filterMap_append]
      cases hborne : borne json message with
      | none => simp [hborne]
      | some found => simp [hborne]

/-! ## Messages that are marked -/

def after (state : ClarificationSessionState) :
    ClarificationSessionEvent → Option ClarificationSessionState
  | .awaiting | .statusSurface => some state
  | .resolved | .cancelled => none

variable {json}

theorem lookup_withMetadata (message : Message) (key key' value : String) :
    (message.withMetadata key value).metadata.lookup key' =
      if key' = key then some value else message.metadata.lookup key' :=
  Table.lookup_insert message.metadata key key' value

theorem borne_applyMessageMetadata (hjson : json.RoundTrips) (state : ClarificationSessionState)
    (message : Message) (event : ClarificationSessionEvent) (failureReason : Option String) :
    borne json (state.applyMessageMetadata json message event failureReason) =
      some (state.after event) := by
  have hcase : ∀ status : SessionStatus, ∃ encoded, json.decodeJson encoded = some status ∧
      status.applyMessageMetadata json message =
        (message.withMetadata "session_status" status.statusLabel).withMetadata
          "session_status_json" encoded := by
    intro status
    obtain ⟨encoded, hencode, hdecode⟩ := hjson status
    exact ⟨encoded, hdecode, by simp only [SessionStatus.applyMessageMetadata, hencode]⟩
  cases event with
  | awaiting =>
      obtain ⟨encoded, hdecode, hmarked⟩ :=
        hcase (.awaitingClarification state.clarification state.originalRequest)
      simp [borne, applyMessageMetadata, hmarked, SessionStatus.decodeFromMessage,
        lookup_withMetadata, hdecode, asSessionStatus, fromStatus, after]
  | statusSurface =>
      obtain ⟨encoded, hdecode, hmarked⟩ :=
        hcase (.awaitingClarification state.clarification state.originalRequest)
      simp [borne, applyMessageMetadata, hmarked, SessionStatus.decodeFromMessage,
        lookup_withMetadata, hdecode, asSessionStatus, fromStatus, after]
  | resolved =>
      obtain ⟨encoded, hdecode, hmarked⟩ := hcase .thinking
      simp [borne, applyMessageMetadata, hmarked, SessionStatus.decodeFromMessage,
        lookup_withMetadata, hdecode, fromStatus, after]
  | cancelled =>
      obtain ⟨encoded, hdecode, hmarked⟩ :=
        hcase (.failed (failureReason.getD "clarification_cancelled"))
      cases hreason : failureReason.filter fun value => !(Text.trim value).isEmpty with
      | none =>
          simp [borne, applyMessageMetadata, hmarked, SessionStatus.decodeFromMessage, hreason,
            lookup_withMetadata, hdecode, fromStatus, after]
      | some reason =>
          simp [borne, applyMessageMetadata, hmarked, SessionStatus.decodeFromMessage, hreason,
            lookup_withMetadata, hdecode, fromStatus, after]

/-- An event that is applied to a message as it is sent. -/
structure Mark where
  state : ClarificationSessionState
  event : ClarificationSessionEvent
  failureReason : Option String

variable (json) in
def sent (entry : Message × Option Mark) : Message :=
  match entry.2 with
  | some mark => mark.state.applyMessageMetadata json entry.1 mark.event mark.failureReason
  | none => entry.1

variable (json) in
/-- The state that is kept while the messages are sent. An event that is applied sets it, and a
message without one counts for what it bears. -/
def online (state : Option ClarificationSessionState) (entry : Message × Option Mark) :
    Option ClarificationSessionState :=
  match entry.2 with
  | some mark => mark.state.after mark.event
  | none => (borne json entry.1).getD state

theorem recoverFromHistory_sent (hjson : json.RoundTrips)
    (entries : List (Message × Option Mark)) :
    recoverFromHistory json (entries.map (sent json)) = entries.foldl (online json) none := by
  rw [recoverFromHistory_eq_foldl, List.foldl_map]
  congr 1
  funext state entry
  unfold sent online
  cases entry.2 with
  | none => rfl
  | some mark => rw [borne_applyMessageMetadata hjson, Option.getD_some]

end ClarificationSessionState

/-! ## A codec -/

def pairText (first second : List Char) : List Char :=
  first.flatMap (fun c => ['\\', c]) ++ '"' :: second

def readPair : List Char → Option (List Char × List Char)
  | '\\' :: c :: rest => (readPair rest).map fun pair => (c :: pair.1, pair.2)
  | '"' :: rest => some ([], rest)
  | _ => none

theorem readPair_pairText (first second : List Char) :
    readPair (pairText first second) = some (first, second) := by
  induction first with
  | nil => rfl
  | cons c first ih =>
      have hstep : readPair (pairText (c :: first) second) =
          (readPair (pairText first second)).map fun pair => (c :: pair.1, pair.2) := rfl
      rw [hstep, ih]
      rfl

/-- The statuses without fields are written as JSON writes them, the others in a form of their
own. -/
def sampleJson : StatusJson where
  encodeJson
    | .thinking => some "\"thinking\""
    | .pendingTools => some "\"pending_tools\""
    | .executing => some "\"executing\""
    | .completed => some "\"completed\""
    | .failed reason => some (.ofList ('f' :: reason.toList))
    | .awaitingClarification clarification originalRequest =>
        some (.ofList ('c' :: pairText clarification.toList originalRequest.toList))
    | .awaitingApproval toolName arguments =>
        some (.ofList ('a' :: pairText toolName.toList arguments.toList))
  decodeJson encoded :=
    match encoded.toList with
    | 'f' :: reason => some (.failed (.ofList reason))
    | 'c' :: rest => (readPair rest).map fun pair =>
        .awaitingClarification (.ofList pair.1) (.ofList pair.2)
    | 'a' :: rest => (readPair rest).map fun pair =>
        .awaitingApproval (.ofList pair.1) (.ofList pair.2)
    | _ =>
        if encoded = "\"thinking\"" then some .thinking
        else if encoded = "\"pending_tools\"" then some .pendingTools
        else if encoded = "\"executing\"" then some .executing
        else if encoded = "\"completed\"" then some .completed
        else none

theorem sampleJson_roundTrips : sampleJson.RoundTrips := by
  intro status
  cases status <;> exact ⟨_, rfl, by simp [sampleJson, readPair_pairText]⟩

end BenShu.Protocol
