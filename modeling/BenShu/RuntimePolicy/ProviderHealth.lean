import BenShu.Lib.Text

/-!
# Provider health

Classification of provider error messages: which of them pause a continuous
task at its latest checkpoint instead of failing the step.
-/

namespace BenShu.RuntimePolicy

open Text

inductive ProviderHealthIssue where
  | serviceDisconnected
  | turnTimedOut
  | streamStalled
  deriving DecidableEq, Repr

def disconnectMarkers : List String :=
  ["error sending request", "error decoding response body", "failed to read response body",
    "connection error", "connection refused", "connection reset",
    "connection closed before message completed", "connection aborted", "failed to connect",
    "tcp connect error", "broken pipe", "operation timed out", "request timed out",
    "deadline has elapsed", "stream interrupted", "unexpected eof", "incomplete message",
    "server disconnected", "service unavailable", "provider_service_unavailable",
    "provider service unavailable", "temporarily unavailable"]

def turnTimeoutMarkers : List String :=
  ["llm_turn_timeout", "llm step timeout", "model produced no usable output",
    "model call returned no executable tool call or deliverable content",
    "runtime stopped this turn to avoid a silent background wait",
    "本轮模型调用在", "系统已停止这一轮等待", "避免后台空转"]

def streamStallMarkers : List String :=
  ["stream timeout after", "stream timed out after", "stream idle timeout",
    "stream produced no chunk", "continuous text stream timeout"]

def classifyProviderHealthIssue (message : String) : Option ProviderHealthIssue :=
  let lowered := toAsciiLowercase (trim message)
  if lowered.isEmpty then none
  else if disconnectMarkers.any (contains lowered) then some .serviceDisconnected
  else if turnTimeoutMarkers.any (contains lowered) then some .turnTimedOut
  else if streamStallMarkers.any (contains lowered) then some .streamStalled
  else none

def providerServicePauseReason (message : String) : String :=
  let shown := preview (trim message) 320
  match classifyProviderHealthIssue message with
  | some .turnTimedOut =>
      s!"model turn timed out before producing usable output; task paused at the latest checkpoint and can be resumed with the same task context. provider_error_preview: {shown}"
  | some .streamStalled =>
      s!"model text stream stalled before producing a complete artifact; task paused at the latest checkpoint and can be resumed with the same task context. provider_error_preview: {shown}"
  | _ =>
      s!"model provider service disconnected; task paused at the latest checkpoint and can be resumed after the runtime host restarts. provider_error_preview: {shown}"

/-- Each of the three classified issues is recoverable. -/
def isRecoverableProviderDisconnect (message : String) : Bool :=
  match classifyProviderHealthIssue message with
  | some .serviceDisconnected | some .turnTimedOut | some .streamStalled => true
  | none => false

end BenShu.RuntimePolicy
