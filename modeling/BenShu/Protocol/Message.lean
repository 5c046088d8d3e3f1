import BenShu.Lib.Json
import BenShu.Memory.Fact

/-!
# Messages

What a conversation is made of: messages of the four roles, with text or parts.
-/

namespace BenShu.Protocol

inductive Role where
  | system
  | user
  | assistant
  | tool
deriving DecidableEq

def Role.asStr : Role → String
  | .system => "system"
  | .user => "user"
  | .assistant => "assistant"
  | .tool => "tool"

inductive MediaSource where
  | base64 (mediaType data : String)
  | url (url : String)

inductive ContentPart where
  | text (text : String)
  | image (source : MediaSource)
  | toolCall (id name : String) (arguments : Json)
  | toolResult (toolCallId : String) (name : Option String) (content : String)
  | audio (source : MediaSource)
  | video (source : MediaSource)

/-- JSON arguments are shown as `render` writes them. -/
def ContentPart.asText (render : Json → String) : ContentPart → String
  | .text value => value
  | .toolCall _ name arguments => s!"[Tool Call: {name} with args: {render arguments}]"
  | .toolResult _ name content =>
      let toolName := name.getD "unknown_tool"
      s!"[Tool Result: {toolName}] {content}"
  | .image _ => "[Image Content]"
  | .audio _ => "[Audio Content]"
  | .video _ => "[Video Content]"

inductive Content where
  | text (text : String)
  | parts (parts : List ContentPart)
  | fact (fact : Memory.Fact)
  | systemNotification (notice : String)
  | cancelled (reason : String)

def Content.asText (render : Json → String) : Content → String
  | .text value => value
  | .parts list => "\n".intercalate (list.map fun part => part.asText render)
  | .fact known => s!"[Fact: {known.category}] {known.content}"
  | .systemNotification notice => s!"[System] {notice}"
  | .cancelled reason => s!"[Cancelled] Reason: {reason}"

/-! ## Trimming -/

def contextSafetyNotice (omittedChars : Nat) : String :=
  s!"... {omittedChars} characters truncated for context safety ..."

/-- The first and the last characters, with a notice in place of what stood between. -/
def headTailWithNotice (input : String) (maxChars : Nat) (headTailMessage : Nat → String) :
    String :=
  let chars := input.toList
  if maxChars = 0 ∨ chars.length ≤ maxChars then input
  else
    let headLen := maxChars / 2
    let tailLen := maxChars - headLen
    let head := String.ofList (chars.take headLen)
    let tail := String.ofList (chars.drop (chars.length - tailLen))
    let notice := headTailMessage (chars.length - maxChars)
    s!"{head}\n\n[{notice}]\n\n{tail}"

def ContentPart.softTrim (limit : Nat) : ContentPart → ContentPart
  | .toolResult toolCallId name content =>
      .toolResult toolCallId name (headTailWithNotice content limit contextSafetyNotice)
  | part => part

def Content.softTrim (content : Content) (limit : Nat) : Content :=
  if limit < 100 then content
  else
    match content with
    | .text value => .text (headTailWithNotice value limit contextSafetyNotice)
    | .parts list => .parts (list.map (ContentPart.softTrim limit))
    | other => other

structure Message where
  role : Role
  content : Content
  name : Option String := none
  metadata : Table String String := ∅

namespace Message

def text (render : Json → String) (message : Message) : String := message.content.asText render

def system (text : String) : Message := { role := .system, content := .text text }

def user (text : String) : Message := { role := .user, content := .text text }

def assistant (text : String) : Message := { role := .assistant, content := .text text }

def softTrim (message : Message) (limit : Nat) : Message :=
  { message with content := message.content.softTrim limit }

def withMetadata (message : Message) (key value : String) : Message :=
  { message with metadata := message.metadata.insert key value }

def toolResult (toolCallId content : String) : Message :=
  { role := .tool, content := .parts [.toolResult toolCallId none content] }

def nameFirstResult (toolName : String) : List ContentPart → List ContentPart
  | [] => []
  | .toolResult toolCallId _ content :: parts =>
      .toolResult toolCallId (some toolName) content :: parts
  | part :: parts => part :: nameFirstResult toolName parts

def withToolName (message : Message) (toolName : String) : Message :=
  let content := match message.content with
    | .parts parts => .parts (nameFirstResult toolName parts)
    | content => content
  { message with
    content := content
    metadata := message.metadata.insert "tool_name" toolName }

def runtimeToolErrorResult (toolCallId toolName content : String) : Message :=
  (((((toolResult toolCallId content).withToolName toolName).withMetadata
    "tool_message_kind" "error").withMetadata
    "tool_error" "true").withMetadata
    "tool_error_origin" "runtime").withMetadata
    "tool_name" toolName

def results (message : Message) : List (String × String) :=
  match message.content with
  | .parts parts => parts.filterMap fun
      | .toolResult toolCallId _ content => some (toolCallId, content)
      | _ => none
  | _ => []

@[simp] theorem role_softTrim (message : Message) (limit : Nat) :
    (message.softTrim limit).role = message.role := rfl

@[simp] theorem role_system (text : String) : (system text).role = .system := rfl

@[simp] theorem role_withMetadata (message : Message) (key value : String) :
    (message.withMetadata key value).role = message.role := rfl

@[simp] theorem results_withMetadata (message : Message) (key value : String) :
    (message.withMetadata key value).results = message.results := rfl

@[simp] theorem role_toolResult (toolCallId content : String) :
    (toolResult toolCallId content).role = .tool := rfl

@[simp] theorem role_withToolName (message : Message) (toolName : String) :
    (message.withToolName toolName).role = message.role := rfl

@[simp] theorem results_toolResult (toolCallId content : String) :
    (toolResult toolCallId content).results = [(toolCallId, content)] := rfl

@[simp] theorem results_named_toolResult (toolCallId content toolName : String) :
    ((toolResult toolCallId content).withToolName toolName).results = [(toolCallId, content)] := rfl

@[simp] theorem role_runtimeToolErrorResult (toolCallId toolName content : String) :
    (runtimeToolErrorResult toolCallId toolName content).role = .tool := rfl

@[simp] theorem results_runtimeToolErrorResult (toolCallId toolName content : String) :
    (runtimeToolErrorResult toolCallId toolName content).results = [(toolCallId, content)] := rfl

end Message

end BenShu.Protocol
