import BenShu.Lib.Threads
import BenShu.Protocol.Message

/-!
# Tools

The definition of a tool, the policies that decide how it may run, and the arguments a
tool set hands to it.
-/

namespace BenShu.Agent

inductive SafetyLevel where
  | green
  | yellow
  | red
deriving DecidableEq

structure ToolDefinition where
  name : String
  description : String
  parameters : Json
  parametersTs : Option String
  isBinary : Bool
  isVerified : Bool
  safetyLevel : SafetyLevel
  usageGuidelines : Option String

/-! ## Arguments -/

def schemaRequiresAction (schema : Json) : Bool :=
  (((schema.get "required").bind Json.asArray).map fun required =>
    required.any fun value => value.asStr == some "action").getD false

def actionEnumValues (schema : Json) : List String :=
  ((((schema.get "properties").bind (·.get "action")).bind (·.get "enum")).bind
    Json.asArray).elim [] fun values => values.filterMap Json.asStr

/-- The payload of a shorthand is spread over the object, behind the fields already there. -/
def spreadPayload (fields : List (String × Json)) : Option Json → List (String × Json)
  | some (.object payload) =>
      payload.foldl (fun fields entry =>
        if fields.any (·.1 == entry.1) then fields else fields ++ [entry]) fields
  | _ => fields

/-- `{"create": {…}}` stands for `{"action": "create", …}` where the schema asks for an action. -/
def normalizeActionShorthandFromDefinition (definition : ToolDefinition) (args : Json) : Json :=
  match args with
  | .object fields =>
      let hasAction := ((args.get "action").bind Json.asStr).any fun value =>
        Text.trim value ≠ ""
      if hasAction then args
      else if !schemaRequiresAction definition.parameters then args
      else
        let actionValues := actionEnumValues definition.parameters
        match (fields.map (·.1)).filter actionValues.contains with
        | [action] =>
            let payload := args.get action
            let rest := fields.filter fun field => field.1 != action
            .object (Json.setField "action" (.string action) (spreadPayload rest payload))
        | _ => args
  | _ => args

/-- JSON text, read and written. -/
structure JsonText where
  fromStr : String → Option Json
  toString : Json → String

def normalizeArgumentsStringFromDefinition (json : JsonText) (definition : ToolDefinition)
    (arguments : String) : Option String :=
  (json.fromStr arguments).map fun parsed =>
    json.toString (normalizeActionShorthandFromDefinition definition parsed)

/-! ## Policies -/

inductive ToolPolicy where
  | auto
  | requiresApproval
  | disabled
deriving DecidableEq

structure RiskyToolPolicy where
  defaultPolicy : ToolPolicy
  overrides : Table String ToolPolicy

structure ExecutorConfig where
  toolPolicy : RiskyToolPolicy
  inheritedRiskScore : ℚ
  maxParallelTools : Nat
  loopSimilarityThreshold : ℚ
  maxToolOutputChars : Nat
  enableReflexion : Bool
  /-- In milliseconds. -/
  toolExecutionTimeout : Nat

def highRiskThreshold : ℚ := 11744051 / 16777216

/-- The configured policy, tightened for unverified binaries, red tools and inherited risk. -/
def resolveExecutorToolPolicy (config : ExecutorConfig) (name : String)
    (definition : ToolDefinition) : ToolPolicy :=
  let configured := (config.toolPolicy.overrides.lookup name).getD config.toolPolicy.defaultPolicy
  let verified :=
    if definition.isBinary && !definition.isVerified && configured ≠ .disabled then .requiresApproval
    else configured
  let gated :=
    if definition.safetyLevel = .red && verified = .auto then .requiresApproval else verified
  if gated = .auto && config.inheritedRiskScore > highRiskThreshold then .requiresApproval
  else gated

def isCoordinationTool (toolName : String) : Bool :=
  ["delegate", "handover", "decomposition", "multi_agent_audit"].contains toolName

def isSimpleRealtimeLookupTool (toolName : String) : Bool :=
  ["weather_lookup", "fx_lookup", "price_lookup", "latest_info_lookup"].contains toolName

def simpleRealtimeToolTimeout : Nat := 30000

def toolTimeoutFor (toolName : String) (defaultTimeout : Nat) : Option Nat :=
  if isCoordinationTool toolName then none
  else if isSimpleRealtimeLookupTool toolName then some (min defaultTimeout simpleRealtimeToolTimeout)
  else some defaultTimeout

end BenShu.Agent

/-!
# The action executor

A batch of tool calls goes through three phases: the calls are planned one after the
other, the planned ones run side by side, and what became of them is turned into messages
and receipts. Everything the executor asks of hooks, policies, tools and memory is a
request; any answer may come.
-/

namespace BenShu.Agent

open Interaction Protocol

structure ToolCall where
  id : String
  name : String
  arguments : Json

inductive LoopGuardAction where
  | warn
  | reusePrevious
  | block
deriving DecidableEq

structure LoopAlert where
  message : String
  action : LoopGuardAction

inductive HookTiming where
  | beforeToolCall
  | afterToolCall
  | onError
deriving DecidableEq

structure HookEvent where
  timing : HookTiming
  userInput : Option String := none
  toolName : Option String := none
  toolArgs : Option String := none
  toolResult : Option String := none
  error : Option String := none
  metadata : Table String String := ∅

inductive HookResult where
  | «continue»
  | modify (value : String)
  | abort (reason : String)
  | skip

inductive ExecutorError where
  | agentConfig (message : String)
  | toolNotFound (name : String)
  | toolExecution (toolName message : String)
  | toolApprovalRequired (toolName : String)
  | toolArguments (toolName message : String)
  | other (text : String)

namespace ExecutorError

def display : ExecutorError → String
  | .agentConfig message => s!"Agent configuration error: {message}"
  | .toolNotFound name => s!"Tool not found: {name}"
  | .toolExecution toolName message => s!"Tool execution error: {toolName} - {message}"
  | .toolApprovalRequired toolName =>
      s!"Tool execution blocked: {toolName} requires approval but no handler was available"
  | .toolArguments toolName message => s!"Invalid tool arguments for {toolName}: {message}"
  | .other text => text

def toolName : ExecutorError → String
  | .toolNotFound name => name
  | .toolExecution toolName _ => toolName
  | .toolApprovalRequired toolName => toolName
  | .toolArguments toolName _ => toolName
  | _ => "unknown"

def args : ExecutorError → String
  | .toolArguments _ message => message
  | _ => ""

end ExecutorError

/-! ## Requests -/

/-- What an awaited call comes to when it may be given up. -/
inductive Awaited (α : Type) where
  | done (value : α)
  | timedOut

inductive ExecutorOp where
  | canonicalToolCallName (requested : String)
  | containsTool (name : String)
  | toolNames
  | cachedDefinition (name : String)
  | checkLoop (toolName input : String)
  | recordCall (toolName input : String)
  | fire (event : HookEvent)
  /-- Whether the tool is still in the set. -/
  | getTool (name : String)
  | definition (name : String)
  | preCheckTool (name arguments : String)
  | checkpoint (messages : List Message) (step : Nat) (toolName arguments : String)
  | approve (name arguments : String) (safety : SafetyLevel)
  /-- The tool set looks the tool up again and takes its cached definition or its own. -/
  | toolForCall (name : String)
  | preCall (name arguments : String)
  | callTool (name arguments : String)
  | postFilterResult (output : String)
  | checkOutput (output : String)
  | seenTool (name : String)
  | markSeen (name : String)
  | spillFullToolOutput (toolName output : String)
  | newUuid

abbrev ExecutorAns : ExecutorOp → Type
  | .canonicalToolCallName _ => String
  | .containsTool _ => Bool
  | .toolNames => List String
  | .cachedDefinition _ => Option ToolDefinition
  | .checkLoop _ _ => Option LoopAlert
  | .recordCall _ _ => Unit
  | .fire _ => HookResult
  | .getTool _ => Bool
  | .definition _ => ToolDefinition
  | .preCheckTool _ _ => Except String Unit
  | .checkpoint _ _ _ _ => Except ExecutorError Unit
  | .approve _ _ _ => Awaited (Except String Bool)
  | .toolForCall _ => Option (Awaited ToolDefinition)
  | .preCall _ _ => Awaited (Except String Unit)
  | .callTool _ _ => Awaited (Except String String)
  | .postFilterResult _ => String
  | .checkOutput _ => String × List String
  | .seenTool _ => Bool
  | .markSeen _ => Unit
  | .spillFullToolOutput _ _ => Option String
  | .newUuid => String

abbrev ExecutorProg := Prog ExecutorOp ExecutorAns
abbrev ExecutorEvent := Event ExecutorOp ExecutorAns
abbrev ExecutorTrace := Trace ExecutorOp ExecutorAns

structure ToolOutputCompression where
  content : String
  originalChars : Nat
  outputChars : Nat
  omittedChars : Nat
  truncated : Bool

/-- The text functions the executor calls. -/
structure ExecutorLibrary where
  json : JsonText
  normalizeToolCallArgs : String → Json → Option String → Json
  compactToolArgsForSecurityBoundary : String → Json → Json
  compressToolOutput : String → Nat → ToolOutputCompression
  runtimeFingerprint : String → String
  toolSchemaInjection : ToolDefinition → String
  appendsReflexion : Bool → List Message → String → Bool
  reflexionPrompt : String → String
  signToolCall : String → String → String
  debugDuration : Nat → String

structure ActionExecutor where
  config : ExecutorConfig
  sessionId : Option String
  runtimeHookRefs : Table String String

variable (library : ExecutorLibrary) (executor : ActionExecutor)

/-! ## Tool calls -/

/-- Hand a call to its tool. -/
def ToolSet.call (name arguments : String) :
    ExecutorProg (Awaited (Except String String)) :=
  .request (.toolForCall name) fun
    | none => pure (.done (.error (ExecutorError.toolNotFound name).display))
    | some .timedOut => pure .timedOut
    | some (.done definition) =>
        let normalizedArguments :=
          (normalizeArgumentsStringFromDefinition library.json definition arguments).getD arguments
        .request (.preCall name normalizedArguments) fun
          | .timedOut => pure .timedOut
          | .done (.error error) => pure (.done (.error error))
          | .done (.ok _) => .request (.callTool name normalizedArguments) pure

/-! ## Planning -/

def latestUserInput (messages : List Message) : Option String :=
  ((messages.reverse.find? fun message => message.role = .user).map fun message =>
    Text.trim (message.text library.json.toString)).filter fun text => text ≠ ""

/-- A result of the same tool for the same arguments that is not an error. -/
def latestMatchingToolResult (messages : List Message) (toolName argsStr : String) :
    Option String :=
  messages.reverse.findSome? fun message =>
    if message.role = .tool ∧ message.metadata.lookup "tool_name" = some toolName ∧
        message.metadata.lookup "tool_error" ≠ some "true" ∧
        message.metadata.lookup "tool_args" = some argsStr then
      match message.content with
      | .parts _ => (message.results.head?).map (·.2)
      | _ => some (message.text library.json.toString)
    else none

def loopGuardToolName (toolName : String) (args : Json) : String :=
  let field (key : String) := (((args.get key).bind Json.asStr).map fun value =>
    Text.toAsciiLowercase (Text.trim value)).filter fun value => value ≠ ""
  match if toolName = "delegate" then field "role" else none with
  | some role => s!"delegate::{role}"
  | none =>
      match field "action" with
      | some action => s!"{toolName}::{action}"
      | none => toolName

def normalizedDedupeText (text : String) : String :=
  Text.toAsciiLowercase
    (" ".intercalate ((Text.split text Text.isWhitespace).filter fun word => word ≠ ""))

def sameTurnToolCallDedupeKey (toolName : String) (args : Json) : String :=
  if toolName = "delegate" then
    let field (key : String) := ((args.get key).bind Json.asStr).map normalizedDedupeText
    let role := (field "role").getD ""
    let task := (field "task").getD (library.json.toString args)
    s!"delegate::{role}::{task}"
  else
    let text := library.json.toString args
    s!"{toolName}::{text}"

def buildHookEvent (timing : HookTiming) : HookEvent :=
  { timing := timing, metadata := executor.runtimeHookRefs }

def beforeToolCallEvent (messages : List Message) (name argsStr : String)
    (loopAlert : Option LoopAlert) : HookEvent :=
  let event := buildHookEvent executor .beforeToolCall
  let metadata := match loopAlert with
    | none => event.metadata
    | some alert =>
        let action := match alert.action with
          | .warn => "warn"
          | .reusePrevious => "block"
          | .block => "block"
        (event.metadata.insert "loop_warning" alert.message).insert "loop_guard_action" action
  { event with
    toolName := some name
    toolArgs := some argsStr
    userInput := latestUserInput library messages
    metadata := metadata }

/-- A call with the text it is shown and recorded as. -/
structure CallArgs where
  args : Json
  argsStr : String

def CallArgs.rewrite (current : CallArgs) (f : Json → Json) : CallArgs :=
  let rewritten := f current.args
  if rewritten.same current.args then current else ⟨rewritten, library.json.toString rewritten⟩

structure PlannedCall where
  id : String
  name : String
  args : Json

structure AnsweredCall where
  id : String
  name : String
  argsStr : String
  output : String

/-- What planning makes of a call. -/
inductive Disposition where
  | unavailable (call : AnsweredCall) (message : Message)
  | reused (message : Message)
  | guarded (message : Message)
  | duplicate (call : AnsweredCall) (message : Message)
  | planned (call : PlannedCall) (dedupeKey : String)

def unavailableCall (id name argsStr : String) (toolNames : List String) : Disposition :=
  let availableTools := toolNames.mergeSort
  let available := if availableTools.isEmpty then "none" else ", ".intercalate availableTools
  let error := s!"Runtime tool error in `{name}`: tool is not equipped for this agent. " ++
    s!"Available tools right now: {available}."
  .unavailable ⟨id, name, argsStr, error⟩
    ((((Message.runtimeToolErrorResult id name error).withMetadata
      "tool_args" argsStr).withMetadata
      "tool_error_kind" "tool_not_equipped").withMetadata
      "available_tools" available)

def reusedCall (id name argsStr previousResult : String) : Disposition :=
  .reused (((((Message.toolResult id previousResult).withToolName name).withMetadata
    "tool_args" argsStr).withMetadata
    "loop_guard_action" "reuse_previous").withMetadata
    "loop_guard_reused_previous" "true")

def guardedCall (id name argsStr kind text : String) : Disposition :=
  .guarded (((Message.runtimeToolErrorResult id name text).withMetadata
    "tool_args" argsStr).withMetadata
    "tool_error_kind" kind)

def duplicateCall (id name argsStr dedupeKey : String) : Disposition :=
  let notice :=
    s!"Runtime tool call skipped: duplicate `{name}` call in the same model planning turn. " ++
    "The first matching call is being executed; this duplicate was not run."
  .duplicate ⟨id, name, argsStr, notice⟩
    ((((((Message.toolResult id notice).withToolName name).withMetadata
      "tool_args" argsStr).withMetadata
      "tool_skipped" "true").withMetadata
      "tool_skip_reason" "same_turn_duplicate").withMetadata
      "tool_dedupe_key" dedupeKey)

/-- The arguments are rewritten, and a call seen before in this turn is not run again. -/
def planArgs (messages : List Message) (seen : List String) (id name : String)
    (current : CallArgs) : ExecutorProg Disposition :=
  let taskContext := latestUserInput library messages
  let normalized := current.rewrite library fun args =>
    library.normalizeToolCallArgs name args taskContext
  .request (.cachedDefinition name) fun cached =>
    let shorthand := normalized.rewrite library fun args =>
      cached.elim args fun definition => normalizeActionShorthandFromDefinition definition args
    let compacted := shorthand.rewrite library (library.compactToolArgsForSecurityBoundary name)
    let dedupeKey := sameTurnToolCallDedupeKey library name compacted.args
    if seen.contains dedupeKey then pure (duplicateCall id name compacted.argsStr dedupeKey)
    else .request (.recordCall (loopGuardToolName name compacted.args) compacted.argsStr) fun _ =>
      pure (.planned ⟨id, name, compacted.args⟩ dedupeKey)

/-- The hook before the call lets it pass, rewrites its arguments or stops it. -/
def planHooked (messages : List Message) (seen : List String) (id name : String)
    (current : CallArgs) (loopAlert : Option LoopAlert) : ExecutorProg Disposition :=
  .request (.fire (beforeToolCallEvent library executor messages name current.argsStr loopAlert)) fun
    | .continue => planArgs library messages seen id name current
    | .modify modifiedArgs =>
        match library.json.fromStr modifiedArgs with
        | some parsed => planArgs library messages seen id name ⟨parsed, modifiedArgs⟩
        | none => planArgs library messages seen id name current
    | .abort reason => pure (guardedCall id name current.argsStr "runtime_guard_abort"
        s!"Runtime tool error in `{name}`: {reason}")
    | .skip =>
        pure (guardedCall id name current.argsStr "runtime_guard_skip" <|
          s!"Runtime tool error in `{name}`: " ++
          "skipped by runtime hook guard before tool execution.")

/-- The earlier result the loop guard has a call reuse, if there is one. -/
def reusedResult (messages : List Message) (name argsStr : String) (loopAlert : Option LoopAlert) :
    Option String :=
  if loopAlert.any fun alert => alert.action = .reusePrevious then
    latestMatchingToolResult library messages name argsStr
  else none

def planCall (messages : List Message) (seen : List String) (call : ToolCall) :
    ExecutorProg Disposition :=
  .request (.canonicalToolCallName call.name) fun name =>
    let current : CallArgs := ⟨call.arguments, library.json.toString call.arguments⟩
    .request (.containsTool name) fun
      | false => .request .toolNames fun toolNames =>
          pure (unavailableCall call.id name current.argsStr toolNames)
      | true => .request (.checkLoop (loopGuardToolName name current.args) current.argsStr)
          fun loopAlert =>
            match reusedResult library messages name current.argsStr loopAlert with
            | some previousResult =>
                pure (reusedCall call.id name current.argsStr previousResult)
            | none => planHooked library executor messages seen call.id name current loopAlert

namespace Disposition

/-- The message pushed while planning. -/
def message : Disposition → Option Message
  | .unavailable _ message => some message
  | .reused message => some message
  | .guarded message => some message
  | .duplicate _ message => some message
  | .planned _ _ => none

def dedupeKey : Disposition → Option String
  | .planned _ dedupeKey => some dedupeKey
  | _ => none

def processedCall : Disposition → Option PlannedCall
  | .planned call _ => some call
  | _ => none

def skippedDuplicateCall : Disposition → Option AnsweredCall
  | .duplicate call _ => some call
  | _ => none

def unavailableToolCall : Disposition → Option AnsweredCall
  | .unavailable call _ => some call
  | _ => none

/-- The call was answered, and no receipt will be written for it. -/
def unrecorded : Disposition → Bool
  | .reused _ => true
  | .guarded _ => true
  | _ => false

end Disposition

/-- Each call sees the messages and the dedupe keys of the calls before it. -/
def planCalls (messages : List Message) (seen : List String) :
    List ToolCall → ExecutorProg (List Disposition)
  | [] => pure []
  | call :: calls =>
      planCall library executor messages seen call >>= fun disposition =>
        planCalls (messages ++ disposition.message.toList) (seen ++ disposition.dedupeKey.toList)
          calls >>= fun dispositions => pure (disposition :: dispositions)

/-! ## Running a call -/

def extractRetrievalDegradationReason (toolName output : String) : Option String :=
  if toolName ≠ "knowledge_search" then none
  else
    (((Text.lines output).findSome? fun line =>
      Text.afterStart? line "Retrieval Degradation: ").map Text.trim).filter (· ≠ "")
      |>.map fun summary =>
        let parts := ((Text.split summary (· = ',')).map Text.trim).filter (· ≠ "")
        let joined := "|".intercalate parts
        s!"retrieval:{joined}"

def prehookToolOutputForContext (toolName output : String) (maxChars : Nat) :
    ToolOutputCompression :=
  if isSimpleRealtimeLookupTool toolName then
    ⟨output, Text.charCount output, Text.charCount output, 0, false⟩
  else library.compressToolOutput output maxChars

def afterToolCallEvent (name argsStr : String) (compressed : ToolOutputCompression) : HookEvent :=
  let event := buildHookEvent executor .afterToolCall
  let succeeded := event.metadata.insert "tool_success" "true"
  let shortened :=
    if compressed.truncated then succeeded.insert "tool_output_truncated" "true" else succeeded
  let metadata := match extractRetrievalDegradationReason name compressed.content with
    | some reason => shortened.insert "degradation_reason" reason
    | none => shortened
  { event with
    toolName := some name
    toolArgs := some argsStr
    toolResult := some compressed.content
    metadata := metadata }

def applyToolErrorHook (toolName argsStr errorMessage : String) : ExecutorProg String :=
  let event := buildHookEvent executor .onError
  .request (.fire { event with
    toolName := some toolName
    toolArgs := some argsStr
    error := some errorMessage
    metadata := event.metadata.insert "degradation_reason" "tool_execution_failed" }) fun
    | .modify modifiedError => pure modifiedError
    | .abort reason => pure
        s!"Runtime tool error in `{toolName}`: middleware aborted error handling: {reason}"
    | .continue => pure errorMessage
    | .skip => pure errorMessage

def timeoutError (name : String) : String :=
  let timeout := (toolTimeoutFor name executor.config.toolExecutionTimeout).getD 0
  let duration := library.debugDuration timeout
  s!"Tool execution timed out after {duration}"

/-- The outer failure leaves the call's task at once; the inner one is its result. -/
abbrev CallResult := Except ExecutorError (Except ExecutorError String)

def failedCall (name argsStr error : String) : ExecutorProg CallResult :=
  applyToolErrorHook executor name argsStr error >>= fun normalizedError =>
    pure (.ok (.error (.toolExecution name normalizedError)))

def invokeTool (name argsStr : String) : ExecutorProg CallResult :=
  ToolSet.call library name argsStr >>= fun
    | .done (.ok output) =>
        let compressed :=
          prehookToolOutputForContext library name output executor.config.maxToolOutputChars
        .request (.fire (afterToolCallEvent executor name argsStr compressed)) fun
          | .continue => pure (.ok (.ok compressed.content))
          | .skip => pure (.ok (.ok compressed.content))
          | .modify modifiedOutput => pure (.ok (.ok modifiedOutput))
          | .abort reason => pure (.error (.toolExecution name
              s!"after-tool hook aborted execution: {reason}"))
    | .done (.error error) => failedCall executor name argsStr error
    | .timedOut => failedCall executor name argsStr (timeoutError library executor name)

def runUnderPolicy (messages : List Message) (step : Nat) (policy : ToolPolicy)
    (name argsStr : String) (safety : SafetyLevel) : ExecutorProg CallResult :=
  match policy with
  | .disabled =>
      pure (.ok (.error (.toolExecution name "Tool execution is disabled by policy")))
  | .requiresApproval =>
      .request (.checkpoint messages step name argsStr) fun
        | .error error => pure (.error error)
        | .ok _ => .request (.approve name argsStr safety) fun
            | .done (.ok true) => invokeTool library executor name argsStr
            | .done (.ok false) => pure (.ok (.error (.toolApprovalRequired name)))
            | .done (.error error) =>
                pure (.ok (.error (.toolExecution name s!"Approval check failed: {error}")))
            | .timedOut =>
                pure (.ok (.error (.toolExecution name
                  "Tool approval timed out (Fail-Safe triggered)")))
  | .auto => invokeTool library executor name argsStr

structure CallOutcome where
  id : String
  name : String
  output : String
  argsStr : String
  safety : SafetyLevel

def generateFirstUseInjection (name : String) (definition : ToolDefinition) : String :=
  s!"### NOTICE: First use of skill '{name}'.\n" ++ library.toolSchemaInjection definition ++
    definition.usageGuidelines.elim "" fun guidelines => s!"#### Usage Guidelines:\n{guidelines}\n"

def redactedOutput (output : String) (checked : String × List String) : String :=
  if checked.2.isEmpty then output else checked.1

/-- Only output goes through the filters; an error is put into words as it is. -/
def finishCall (messages : List Message) (id name argsStr : String) (definition : ToolDefinition) :
    Except ExecutorError String → ExecutorProg CallOutcome
  | .ok output =>
      .request (.postFilterResult output) fun filtered =>
        .request (.checkOutput filtered) fun checked =>
          let redacted := redactedOutput filtered checked
          .request (.seenTool name) fun
            | true => pure ⟨id, name, redacted, argsStr, definition.safetyLevel⟩
            | false => .request (.markSeen name) fun _ =>
                let injection := generateFirstUseInjection library name definition
                pure ⟨id, name, s!"{redacted}\n\n---\n{injection}", argsStr, definition.safetyLevel⟩
  | .error error =>
      let text := error.display
      let message := s!"Error executing tool '{name}': {text}"
      let reflected :=
        if library.appendsReflexion executor.config.enableReflexion messages text then
          message ++ "\n\n" ++ library.reflexionPrompt text
        else message
      pure ⟨id, name, reflected, argsStr, definition.safetyLevel⟩

def runCall (messages : List Message) (step : Nat) (call : PlannedCall) :
    ExecutorProg (Except ExecutorError CallOutcome) :=
  let argsStr := library.json.toString call.args
  .request (.getTool call.name) fun
    | false => pure (.error (.toolNotFound call.name))
    | true => .request (.definition call.name) fun definition =>
        let policy := resolveExecutorToolPolicy executor.config call.name definition
        .request (.preCheckTool call.name argsStr) fun
          | .error error =>
              pure (.error (.toolExecution call.name s!"Security violation: {error}"))
          | .ok _ =>
              (runUnderPolicy library executor messages step policy call.name argsStr
                definition.safetyLevel).andThen fun result =>
                  finishCall library executor messages call.id call.name argsStr definition
                    result >>= fun outcome => pure (.ok outcome)

/-! ## Results -/

structure ToolCallReplayReceipt where
  toolCallId : String
  replayMode : String
  sampledCallBlock : Option String
  sampledCallFingerprint : String
  sampledCallRef : String
  normalizedCallFingerprint : String

structure ToolOutcomeMeta where
  status : String
  previewChars : Nat
  fullArtifactRef : Option String

structure ToolCallData where
  receiptId : String
  toolCallId : Option String
  name : String
  args : String
  result : String
  callerId : Option String
  safetyLevel : SafetyLevel
  resultTruncated : Bool := false
  resultOriginalChars : Option Nat := none
  resultOmittedChars : Option Nat := none
  argsFingerprint : String
  resultFingerprint : String
  outcome : ToolOutcomeMeta
  replay : Option ToolCallReplayReceipt

variable (replayReceipts : Table String ToolCallReplayReceipt)

/-- The receipt of a call that was answered while planning. -/
def answeredReceipt (status : String) (safety : SafetyLevel) (call : AnsweredCall)
    (receiptId : String) : ToolCallData where
  receiptId := receiptId
  toolCallId := some call.id
  name := call.name
  args := call.argsStr
  result := call.output
  callerId := executor.sessionId
  safetyLevel := safety
  argsFingerprint := library.runtimeFingerprint call.argsStr
  resultFingerprint := library.runtimeFingerprint call.output
  outcome := ⟨status, Text.charCount call.output, none⟩
  replay := replayReceipts.lookup call.id

def answeredReceipts (status : String) (safety : SafetyLevel) :
    List AnsweredCall → ExecutorProg (List ToolCallData)
  | [] => pure []
  | call :: calls =>
      .request .newUuid fun receiptId =>
        answeredReceipts status safety calls >>= fun receipts =>
          pure (answeredReceipt library executor replayReceipts status safety call receiptId ::
            receipts)

/-- A text that was cut is written out in full beside. -/
def spillIfTruncated (toolName rawOutput : String) (truncated : Bool) :
    ExecutorProg (Option String) :=
  if truncated ∧ rawOutput ≠ "" then .request (.spillFullToolOutput toolName rawOutput) pure
  else pure none

def omittedChars (guarded : ToolOutputCompression) : Option Nat :=
  if guarded.truncated then some guarded.omittedChars else none

def completedReceipt (outcome : CallOutcome) (guarded : ToolOutputCompression)
    (fullArtifactRef : Option String) (receiptId : String) : ToolCallData where
  receiptId := receiptId
  toolCallId := some outcome.id
  name := outcome.name
  args := outcome.argsStr
  result := guarded.content
  callerId := executor.sessionId
  safetyLevel := outcome.safety
  resultTruncated := guarded.truncated
  resultOriginalChars := some guarded.originalChars
  resultOmittedChars := omittedChars guarded
  argsFingerprint := library.runtimeFingerprint outcome.argsStr
  resultFingerprint := library.runtimeFingerprint guarded.content
  outcome := ⟨"completed", Text.charCount guarded.content, fullArtifactRef⟩
  replay := replayReceipts.lookup outcome.id

def completedMessage (outcome : CallOutcome) (guarded : ToolOutputCompression) : Message :=
  let message := ((Message.toolResult outcome.id guarded.content).withToolName
    outcome.name).withMetadata "tool_args" outcome.argsStr
  if outcome.safety = .red then
    message.withMetadata "pqc_signature" (library.signToolCall outcome.name guarded.content)
  else message

/-- The call that failed is no longer known here. -/
def failedReceipt (error : ExecutorError) (guarded : ToolOutputCompression)
    (fullArtifactRef : Option String) (receiptId : String) : ToolCallData where
  receiptId := receiptId
  toolCallId := none
  name := error.toolName
  args := error.args
  result := guarded.content
  callerId := executor.sessionId
  safetyLevel := .red
  resultTruncated := guarded.truncated
  resultOriginalChars := some guarded.originalChars
  resultOmittedChars := omittedChars guarded
  argsFingerprint := library.runtimeFingerprint error.args
  resultFingerprint := library.runtimeFingerprint guarded.content
  outcome := ⟨"failed", Text.charCount guarded.content, fullArtifactRef⟩
  replay := none

def failedMessage (error : ExecutorError) (guarded : ToolOutputCompression) (id : String) :
    Message :=
  ((Message.runtimeToolErrorResult id error.toolName guarded.content).withMetadata
    "tool_args" error.args).withMetadata
    "tool_error_kind" "execution_failure"

def failureText (error : ExecutorError) : String :=
  let text := error.display
  s!"Error: {text}"

def processResult : Except ExecutorError CallOutcome → ExecutorProg (ToolCallData × Message)
  | .ok outcome =>
      let guarded := library.compressToolOutput outcome.output executor.config.maxToolOutputChars
      spillIfTruncated outcome.name outcome.output guarded.truncated >>= fun fullArtifactRef =>
        .request .newUuid fun receiptId =>
          pure (completedReceipt library executor replayReceipts outcome guarded fullArtifactRef
            receiptId, completedMessage library outcome guarded)
  | .error error =>
      let guarded :=
        library.compressToolOutput (failureText error) executor.config.maxToolOutputChars
      spillIfTruncated error.toolName (failureText error) guarded.truncated >>=
        fun fullArtifactRef =>
          .request .newUuid fun receiptId => .request .newUuid fun id =>
            pure (failedReceipt library executor error guarded fullArtifactRef receiptId,
              failedMessage error guarded id)

def processResults :
    List (Except ExecutorError CallOutcome) → ExecutorProg (List (ToolCallData × Message))
  | [] => pure []
  | result :: results =>
      processResult library executor replayReceipts result >>= fun processed =>
        processResults results >>= fun rest => pure (processed :: rest)

/-! ## Batches -/

/-- The configuration is checked before anything else. -/
def configError : Option ExecutorError :=
  if executor.config.maxParallelTools = 0 then
    some (.agentConfig "max_parallel_tools must be at least 1")
  else if executor.config.maxToolOutputChars = 0 then
    some (.agentConfig "max_tool_output_chars must be at least 100")
  else if executor.config.loopSimilarityThreshold < 0 ∨ executor.config.loopSimilarityThreshold > 1
    then some (.agentConfig "loop_similarity_threshold must be between 0.0 and 1.0")
  else none

def anyOrder : Resource ExecutorOp ExecutorAns Unit := ⟨fun _ _ => True, fun _ _ => ()⟩

/-- The calls of a batch, with what has been planned and done of them. The user may cancel
the batch at any point while its calls run. -/
structure Started where
  dispositions : List Disposition
  log : ThreadLog Nat ExecutorOp ExecutorAns

namespace Started

def processed (batch : Started) : List PlannedCall :=
  batch.dispositions.filterMap Disposition.processedCall

def plannedMessages (batch : Started) : List Message :=
  batch.dispositions.filterMap Disposition.message

end Started

/-- The task of a planned call; there is nothing to do behind the last one. -/
def callTask (messages : List Message) (step : Nat) (processed : List PlannedCall) (i : Nat) :
    ExecutorProg (Except ExecutorError CallOutcome) :=
  match processed[i]? with
  | some call => runCall library executor messages step call
  | none => pure (.error (.other ""))

/-- A batch as it may have got so far, with the programs that are left. -/
structure Started.Runs (calls : List ToolCall) (messages : List Message) (step : Nat)
    (batch : Started) (programs : Nat → ExecutorProg (Except ExecutorError CallOutcome)) : Prop where
  configured : configError executor = none
  plans : ∃ t, Interaction.Runs (planCalls library executor messages [] calls) t batch.dispositions
  interleaved : Interleaved anyOrder
    (callTask library executor (messages ++ batch.plannedMessages) step batch.processed) ()
    batch.log programs

/-- A batch that was executed to its end. The results stand in the order in which the calls
were done. -/
structure Executed extends Started where
  results : List (Nat × Except ExecutorError CallOutcome)
  receipts : List ToolCallData
  messages : List Message

structure Executed.Runs (calls : List ToolCall) (messages : List Message) (step : Nat)
    (batch : Executed) : Prop where
  started : ∃ programs, batch.toStarted.Runs library executor calls messages step programs ∧
    ∀ entry ∈ batch.results, programs entry.1 = .pure entry.2
  order : (batch.results.map (·.1)).Perm (List.range batch.processed.length)
  settled : ∃ skipped unavailable processed t₁ t₂ t₃,
    Interaction.Runs (answeredReceipts library executor replayReceipts "skipped" .green
      (batch.dispositions.filterMap Disposition.skippedDuplicateCall)) t₁ skipped ∧
    Interaction.Runs (answeredReceipts library executor replayReceipts "unavailable" .red
      (batch.dispositions.filterMap Disposition.unavailableToolCall)) t₂ unavailable ∧
    Interaction.Runs (processResults library executor replayReceipts (batch.results.map (·.2)))
      t₃ processed ∧
    batch.receipts = skipped ++ unavailable ++ processed.map (·.1) ∧
    batch.messages = batch.plannedMessages ++ processed.map (·.2)

/-! ## Single calls -/

def singleArguments (name arguments : String) (cached : Option ToolDefinition) : String :=
  match library.json.fromStr arguments with
  | none => arguments
  | some args =>
      let normalized := library.normalizeToolCallArgs name args none
      let shorthand := cached.elim normalized fun definition =>
        normalizeActionShorthandFromDefinition definition normalized
      library.json.toString (library.compactToolArgsForSecurityBoundary name shorthand)

/-- What the tool answers goes to the caller, cut to size or as an error. -/
def callSingle (name arguments : String) : ExecutorProg (Except ExecutorError String) :=
  ToolSet.call library name arguments >>= fun
    | .done (.ok output) =>
        pure (.ok (library.compressToolOutput output executor.config.maxToolOutputChars).content)
    | .done (.error error) => pure (.error (.toolExecution name error))
    | .timedOut => pure (.error (.toolExecution name (timeoutError library executor name)))

def executeSingle (requested arguments : String) : ExecutorProg (Except ExecutorError String) :=
  .request (.canonicalToolCallName requested) fun name =>
    .request (.cachedDefinition name) fun cached =>
      let normalizedArguments := singleArguments library name arguments cached
      .request (.getTool name) fun
        | false => pure (.error (.toolNotFound name))
        | true => .request (.definition name) fun definition =>
            match resolveExecutorToolPolicy executor.config name definition with
            | .disabled => pure (.error (.toolExecution "" s!"Policy disabled: {name}"))
            | .requiresApproval =>
                .request (.approve name normalizedArguments definition.safetyLevel) fun
                  | .done (.ok true) => callSingle library executor name normalizedArguments
                  | .done (.ok false) =>
                      pure (.error (.toolExecution "" s!"Approval required: {name}"))
                  | .done (.error error) =>
                      pure (.error (.toolExecution name s!"Approval check failed: {error}"))
                  -- Nothing limits this wait, so the answer does not come.
                  | .timedOut => pure (.error (.other ""))
            | .auto => callSingle library executor name normalizedArguments

end BenShu.Agent
