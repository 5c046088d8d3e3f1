import BenShu.Providers.SseStream

/-!
# The stream of an Anthropic server

Typed events of one message: its start, the blocks of its content one after the other,
and its end. The parser keeps the tool call that is being read and the token counts.
-/

namespace BenShu.Providers.Anthropic

structure AnthropicUsage where
  inputTokens : Option UInt32
  outputTokens : Option UInt32
deriving DecidableEq

structure StreamMessage where
  usage : Option AnthropicUsage
deriving DecidableEq

structure StreamDelta where
  text : Option String
  partialJson : Option String
deriving DecidableEq

structure ContentBlockStart where
  blockType : String
  id : Option String
  name : Option String
deriving DecidableEq

structure StreamEvent where
  eventType : String
  delta : Option StreamDelta
  contentBlock : Option ContentBlockStart
  message : Option StreamMessage
  usage : Option AnthropicUsage
deriving DecidableEq

structure ToolState where
  id : String
  name : String
  inputJson : String

structure ParserState where
  currentTool : Option ToolState
  toolCallCounter : Nat
  usage : Usage

namespace ParserState

def initial : ParserState := ⟨none, 0, ⟨0, 0, 0⟩⟩

end ParserState

/-- Counts that are given replace the earlier ones; the sum is a machine word. -/
def AnthropicUsage.update (u : AnthropicUsage) (usage : Usage) : Usage :=
  let promptTokens := u.inputTokens.getD usage.promptTokens
  let completionTokens := u.outputTokens.getD usage.completionTokens
  ⟨promptTokens, completionTokens, promptTokens + completionTokens⟩

variable (serde : SerdeJson StreamEvent)

def reportUsage (s : ParserState) (u : AnthropicUsage) : ParserState × List StreamingChoice :=
  ({ s with usage := u.update s.usage }, [.usage (u.update s.usage)])

def startBlock (s : ParserState) (block : ContentBlockStart) : ParserState :=
  if block.blockType = "tool_use" then
    { s with
      currentTool := some ⟨block.id.getD s!"tool_{s.toolCallCounter}", block.name.getD "", ""⟩
      toolCallCounter := s.toolCallCounter + 1 }
  else s

def readDelta (s : ParserState) (delta : StreamDelta) : ParserState × List StreamingChoice :=
  if delta.text.getD "" ≠ "" then (s, [.message (delta.text.getD "")])
  else ({ s with
    currentTool := s.currentTool.map fun tool =>
      { tool with inputJson := tool.inputJson ++ delta.partialJson.getD "" } }, [])

def stopBlock (s : ParserState) : ParserState × List StreamingChoice :=
  match s.currentTool with
  | none => (s, [])
  | some tool =>
      ({ s with currentTool := none },
        [.toolCall ⟨tool.id, tool.name, (serde.valueFromStr tool.inputJson).getD .null⟩])

def handleEvent (s : ParserState) (event : StreamEvent) : ParserState × List StreamingChoice :=
  if event.eventType = "message_start" then
    ((event.message.bind (·.usage)).map (reportUsage s)).getD (s, [])
  else if event.eventType = "message_delta" then (event.usage.map (reportUsage s)).getD (s, [])
  else if event.eventType = "content_block_start" then
    ((event.contentBlock.map (startBlock s)).getD s, [])
  else if event.eventType = "content_block_delta" then
    (event.delta.map (readDelta s)).getD (s, [])
  else if event.eventType = "content_block_stop" then stopBlock serde s
  else if event.eventType = "message_stop" then (s, [.done])
  else (s, [])

def handleMessage (s : ParserState) (line : String) : ParserState × List StreamingChoice :=
  match Text.afterStart? line "data: " with
  | none => (s, [])
  | some data =>
      match serde.fromStr data with
      | none => (s, [])
      | some event => handleEvent serde s event

def streamTurns (stream : List (Except String (List UInt8))) : List Turn :=
  readStream (handleMessage serde) .new .initial stream

def parseAnthropicStream (stream : List (Except String (List UInt8))) :
    List (Except StreamError StreamingChoice) :=
  (streamTurns serde stream).flatMap Turn.items

end BenShu.Providers.Anthropic

/-!
# What an Anthropic stream delivers

A message of text and tool use blocks, the events it is streamed as, and what each of
them calls for. The parser answers that exactly when the events that matter are sent
without an event line, every tool use has some input, and no fragment overfills the
buffer.
-/

namespace BenShu.Providers.Anthropic

open ByteCodec Framing

/-- How an event is sent: its JSON, the line ends, and whether an event line comes first. -/
structure Carrier where
  json : String
  lineEnd : String
  named : Bool

inductive Block where
  | text (start : Carrier) (deltas : List (String × Carrier)) (stop : Carrier)
  | toolUse (id name : String) (start : Carrier) (fragments : List (String × Carrier))
      (stop : Carrier)

structure StreamedMessage where
  startUsage : Option AnthropicUsage
  start : Carrier
  blocks : List Block
  deltas : List (Option AnthropicUsage × Carrier)
  stop : Carrier

/-! ## The events of a message -/

def messageStart (usage : Option AnthropicUsage) : StreamEvent :=
  ⟨"message_start", none, none, some ⟨usage⟩, none⟩

def blockStart (block : ContentBlockStart) : StreamEvent :=
  ⟨"content_block_start", none, some block, none, none⟩

def textDelta (text : String) : StreamEvent :=
  ⟨"content_block_delta", some ⟨some text, none⟩, none, none, none⟩

def inputDelta (fragment : String) : StreamEvent :=
  ⟨"content_block_delta", some ⟨none, some fragment⟩, none, none, none⟩

def blockStop : StreamEvent := ⟨"content_block_stop", none, none, none, none⟩

def messageDelta (usage : Option AnthropicUsage) : StreamEvent :=
  ⟨"message_delta", none, none, none, usage⟩

def messageStop : StreamEvent := ⟨"message_stop", none, none, none, none⟩

abbrev SentEvent := StreamEvent × Carrier

def Block.events : Block → List SentEvent
  | .text start deltas stop =>
      (blockStart ⟨"text", none, none⟩, start) ::
        (deltas.map fun delta => (textDelta delta.1, delta.2)) ++ [(blockStop, stop)]
  | .toolUse id name start fragments stop =>
      (blockStart ⟨"tool_use", some id, some name⟩, start) ::
        (fragments.map fun fragment => (inputDelta fragment.1, fragment.2)) ++ [(blockStop, stop)]

def StreamedMessage.events (message : StreamedMessage) : List SentEvent :=
  (messageStart message.startUsage, message.start) ::
    (message.blocks.flatMap Block.events ++
      ((message.deltas.map fun delta => (messageDelta delta.1, delta.2)) ++
        [(messageStop, message.stop)]))

def SentEvent.text (event : SentEvent) : String :=
  sseText event.2.lineEnd
    ((if event.2.named then ["event: " ++ event.1.eventType] else []) ++
      ["data: " ++ event.2.json])

/-! ## What the events call for -/

def joined (pieces : List String) : String := pieces.foldr (· ++ ·) ""

variable (serde : SerdeJson StreamEvent)

def inputValue (input : String) : Json := (serde.valueFromStr input).getD .null

/-- The value of the fragments of a tool use, the empty object when there are none. -/
def toolInput (fragments : List String) : Json :=
  if joined fragments = "" then .object [] else inputValue serde (joined fragments)

def Block.expected : Block → List (List StreamingChoice)
  | .text _ deltas _ =>
      [] :: (deltas.map fun delta => if delta.1 = "" then [] else [.message delta.1]) ++ [[]]
  | .toolUse id name _ fragments _ =>
      [] :: (fragments.map fun _ => []) ++
        [[.toolCall ⟨id, name, toolInput serde (fragments.map Prod.fst)⟩]]

def usageReport (usage : Usage) : Option AnthropicUsage → Usage × List StreamingChoice
  | none => (usage, [])
  | some u => (u.update usage, [.usage (u.update usage)])

def expectedReports : Usage → List (Option AnthropicUsage) → List (List StreamingChoice)
  | _, [] => []
  | usage, report :: reports =>
      (usageReport usage report).2 :: expectedReports (usageReport usage report).1 reports

/-- What every event of the message calls for, in order. -/
def StreamedMessage.expected (message : StreamedMessage) : List (List StreamingChoice) :=
  let started := usageReport ParserState.initial.usage message.startUsage
  started.2 :: (message.blocks.flatMap (Block.expected serde) ++
    (expectedReports started.1 (message.deltas.map Prod.fst) ++ [[.done]]))

/-- The stream is answered event by event, each with what it calls for. -/
def Delivered (message : StreamedMessage) (stream : List (Except String (List UInt8))) : Prop :=
  streamTurns serde stream = (message.expected serde).map .message

/-! ## Messages that are answered -/

/-- The fragments of the input that are sent without an event line. -/
def plainFragments (fragments : List (String × Carrier)) : List String :=
  (fragments.filter fun fragment => !fragment.2.named).map Prod.fst

def Block.Plain : Block → Prop
  | .text _ deltas _ => ∀ delta ∈ deltas, delta.1 ≠ "" → delta.2.named = false
  | .toolUse _ _ start fragments stop =>
      start.named = false ∧ stop.named = false ∧ joined (fragments.map Prod.fst) ≠ "" ∧
        inputValue serde (joined (plainFragments fragments)) =
          inputValue serde (joined (fragments.map Prod.fst))

/-- Nothing that calls for an answer has an event line, and every tool use has input. -/
structure StreamedMessage.Plain (message : StreamedMessage) : Prop where
  start : message.startUsage ≠ none → message.start.named = false
  blocks : ∀ block ∈ message.blocks, block.Plain serde
  deltas : ∀ delta ∈ message.deltas, delta.1 ≠ none → delta.2.named = false
  stop : message.stop.named = false

/-! ## How the parser reads the events -/

def readSent (s : ParserState) (event : SentEvent) : ParserState × List StreamingChoice :=
  if event.2.named then (s, []) else handleEvent serde s event.1

/-- The JSON is that of the event, and the line ends are those of the protocol. -/
structure SentEvent.WellSent (event : SentEvent) : Prop where
  decodes : serde.fromStr event.2.json = some event.1
  json : IsLine event.2.json
  lineEnd : IsLineEnd event.2.lineEnd

instance (event : SentEvent) : Decidable (event.WellSent serde) :=
  decidable_of_iff (serde.fromStr event.2.json = some event.1 ∧ IsLine event.2.json ∧
    IsLineEnd event.2.lineEnd) ⟨fun h => ⟨h.1, h.2.1, h.2.2⟩, fun h => ⟨h.decodes, h.json, h.lineEnd⟩⟩

variable {serde}

theorem sentEvent_isSseMessage {event : SentEvent} (hsent : event.WellSent serde)
    (htype : IsLine event.1.eventType) : IsSseMessage event.text := by
  have hdata := @IsLine.after "data: " _ hsent.json (by simp)
  have hevent := @IsLine.after "event: " _ htype (by simp)
  unfold SentEvent.text
  apply isSseMessage_sseText hsent.lineEnd
  · intro line hmem
    rcases List.mem_append.mp hmem with hmem | hmem
    · split at hmem
      · rw [List.mem_singleton.mp hmem]
        exact hevent
      · cases hmem
    · rw [List.mem_singleton.mp hmem]
      exact hdata
  · simp

theorem handleMessage_text (hserde : serde.Reads) {event : SentEvent} (hsent : event.WellSent serde)
    (s : ParserState) : handleMessage serde s event.text = readSent serde s event := by
  unfold readSent SentEvent.text handleMessage
  by_cases hnamed : event.2.named = true
  · have hnone : ∀ later : String, Text.afterStart? ("event: " ++ later) "data: " = none := by
      intro later
      unfold Text.afterStart? Text.startsWith
      rw [String.toList_append]
      rfl
    rw [if_pos hnamed, if_pos hnamed]
    have htext : sseText event.2.lineEnd
        (["event: " ++ event.1.eventType] ++ ["data: " ++ event.2.json]) =
        "event: " ++ (event.1.eventType ++ event.2.lineEnd ++
          sseText event.2.lineEnd ["data: " ++ event.2.json]) := by
      simp only [sseText, List.cons_append, List.nil_append, List.foldr_cons, List.foldr_nil,
        String.append_assoc]
    rw [htext, hnone]
  · rw [if_neg hnamed, if_neg hnamed, List.nil_append, dataLine_payload]
    dsimp only
    rw [hserde.trailing _ _ hsent.lineEnd, hsent.decodes]

theorem Block.expected_text (start stop : Carrier) (deltas : List (String × Carrier)) :
    (Block.text start deltas stop).expected serde =
      [] :: ((deltas.map fun delta => if delta.1 = "" then [] else [.message delta.1]) ++ [[]]) :=
  rfl

theorem Block.expected_toolUse (id name : String) (start stop : Carrier)
    (fragments : List (String × Carrier)) :
    (Block.toolUse id name start fragments stop).expected serde =
      [] :: ((fragments.map fun _ => []) ++
        [[.toolCall ⟨id, name, toolInput serde (fragments.map Prod.fst)⟩]]) :=
  rfl

theorem Block.plain_text {start stop : Carrier} {deltas : List (String × Carrier)} :
    (Block.text start deltas stop).Plain serde ↔
      ∀ delta ∈ deltas, delta.1 ≠ "" → delta.2.named = false :=
  Iff.rfl

theorem Block.plain_toolUse {id name : String} {start stop : Carrier}
    {fragments : List (String × Carrier)} :
    (Block.toolUse id name start fragments stop).Plain serde ↔
      start.named = false ∧ stop.named = false ∧ joined (fragments.map Prod.fst) ≠ "" ∧
        inputValue serde (joined (plainFragments fragments)) =
          inputValue serde (joined (fragments.map Prod.fst)) :=
  Iff.rfl

theorem joined_eq_empty_iff {pieces : List String} :
    joined pieces = "" ↔ ∀ piece ∈ pieces, piece = "" := by
  induction pieces with
  | nil => simp [joined]
  | cons piece pieces ih =>
      have hcons : joined (piece :: pieces) = piece ++ joined pieces := rfl
      rw [hcons, List.forall_mem_cons, ← ih, ← String.toList_inj, String.toList_append,
        String.toList_empty, List.append_eq_nil_iff, ← String.toList_empty, String.toList_inj,
        String.toList_inj]

theorem joined_plain_of_empty {fragments : List (String × Carrier)}
    (h : joined (fragments.map Prod.fst) = "") : joined (plainFragments fragments) = "" := by
  rw [joined_eq_empty_iff] at h ⊢
  intro piece hpiece
  rcases List.mem_map.mp hpiece with ⟨fragment, hfragment, rfl⟩
  exact h fragment.1 (List.mem_map_of_mem (List.mem_of_mem_filter hfragment))

/-! ## One block -/

def ToolState.extend (tool : ToolState) (input : String) : ToolState :=
  { tool with inputJson := tool.inputJson ++ input }

def ParserState.withTool (s : ParserState) (tool : ToolState) : ParserState :=
  { s with currentTool := some tool }

section Blocks

variable {s : ParserState}

theorem readSent_named {event : StreamEvent} {carrier : Carrier} (h : carrier.named = true) :
    readSent serde s (event, carrier) = (s, []) := if_pos h

theorem readSent_plain {event : StreamEvent} {carrier : Carrier} (h : carrier.named = false) :
    readSent serde s (event, carrier) = handleEvent serde s event :=
  if_neg (by rw [h]; exact Bool.false_ne_true)

theorem readSent_textDelta (hidle : s.currentTool = none) (text : String) (carrier : Carrier) :
    readSent serde s (textDelta text, carrier) =
      (s, if carrier.named = true ∨ text = "" then [] else [.message text]) := by
  cases hnamed : carrier.named with
  | true =>
      rw [readSent_named hnamed, if_pos (.inl rfl)]
  | false =>
      rw [readSent_plain hnamed]
      show readDelta s ⟨some text, none⟩ = _
      unfold readDelta
      by_cases htext : text = ""
      · rw [if_neg (by simp [htext]), if_pos (.inr htext)]
        rcases s with ⟨_, counter, usage⟩
        cases hidle
        rfl
      · rw [if_pos (by simpa using htext), if_neg (by simpa using htext)]
        rfl

theorem handleAll_textDeltas (hidle : s.currentTool = none) (deltas : List (String × Carrier)) :
    handleAll (readSent serde) s (deltas.map fun delta => (textDelta delta.1, delta.2)) =
      (s, deltas.map fun delta =>
        if delta.2.named = true ∨ delta.1 = "" then [] else [.message delta.1]) := by
  induction deltas with
  | nil => rfl
  | cons delta deltas ih =>
      rw [List.map_cons, handleAll, readSent_textDelta hidle, ih]
      rfl

theorem handleAll_orphans (hidle : s.currentTool = none) (fragments : List (String × Carrier)) :
    handleAll (readSent serde) s (fragments.map fun f => (inputDelta f.1, f.2)) =
      (s, fragments.map fun _ => []) := by
  induction fragments with
  | nil => rfl
  | cons fragment fragments ih =>
      have hstep : readSent serde s (inputDelta fragment.1, fragment.2) = (s, []) := by
        cases hnamed : fragment.2.named with
        | true => exact readSent_named hnamed
        | false =>
            rw [readSent_plain hnamed]
            rcases s with ⟨_, counter, usage⟩
            cases hidle
            rfl
      rw [List.map_cons, handleAll, hstep, ih]
      rfl

theorem handleAll_fragments {tool : ToolState} (hcurrent : s.currentTool = some tool)
    (fragments : List (String × Carrier)) :
    handleAll (readSent serde) s (fragments.map fun f => (inputDelta f.1, f.2)) =
      (s.withTool (tool.extend (joined (plainFragments fragments))), fragments.map fun _ => []) := by
  induction fragments generalizing s tool with
  | nil =>
      have hsame : tool.extend (joined (plainFragments [])) = tool := by
        unfold ToolState.extend
        rw [show joined (plainFragments []) = "" from rfl, String.append_empty]
      rw [hsame]
      rcases s with ⟨_, counter, usage⟩
      cases hcurrent
      rfl
  | cons fragment fragments ih =>
      rw [List.map_cons, handleAll]
      cases hnamed : fragment.2.named with
      | true =>
          have hplain : plainFragments (fragment :: fragments) = plainFragments fragments := by
            simp [plainFragments, hnamed]
          rw [readSent_named hnamed, ih hcurrent, hplain]
          rfl
      | false =>
          have hplain : plainFragments (fragment :: fragments) =
              fragment.1 :: plainFragments fragments := by
            simp [plainFragments, hnamed]
          have hstep : readSent serde s (inputDelta fragment.1, fragment.2) =
              (s.withTool (tool.extend fragment.1), []) := by
            rw [readSent_plain hnamed]
            rcases s with ⟨_, counter, usage⟩
            cases hcurrent
            rfl
          have hjoined : (tool.extend fragment.1).extend (joined (plainFragments fragments)) =
              tool.extend (joined (fragment.1 :: plainFragments fragments)) := by
            unfold ToolState.extend
            simp only [joined, List.foldr_cons, String.append_assoc]
          have htaken := @ih (s.withTool (tool.extend fragment.1)) _ rfl
          rw [hstep, htaken, hplain, hjoined]
          rfl

theorem readSent_blockStart_text (carrier : Carrier) :
    readSent serde s (blockStart ⟨"text", none, none⟩, carrier) = (s, []) := by
  cases hnamed : carrier.named with
  | true => exact readSent_named hnamed
  | false =>
      rw [readSent_plain hnamed]
      rfl

theorem readSent_blockStop_idle (hidle : s.currentTool = none) (carrier : Carrier) :
    readSent serde s (blockStop, carrier) = (s, []) := by
  cases hnamed : carrier.named with
  | true => exact readSent_named hnamed
  | false =>
      rw [readSent_plain hnamed]
      show stopBlock serde s = _
      unfold stopBlock
      rw [hidle]

theorem handleAll_textBlock (hidle : s.currentTool = none) (start : Carrier)
    (deltas : List (String × Carrier)) (stop : Carrier) :
    handleAll (readSent serde) s (Block.text start deltas stop).events =
      (s, [] :: (deltas.map fun delta =>
        if delta.2.named = true ∨ delta.1 = "" then [] else [.message delta.1]) ++ [[]]) := by
  simp only [Block.events, List.cons_append]
  rw [handleAll, readSent_blockStart_text, handleAll_append, handleAll_textDeltas hidle,
    handleAll_singleton, readSent_blockStop_idle hidle]

theorem handleAll_toolBlock_hidden (hidle : s.currentTool = none) {id name : String}
    {start stop : Carrier} (hstart : start.named = true) (fragments : List (String × Carrier)) :
    handleAll (readSent serde) s (Block.toolUse id name start fragments stop).events =
      (s, [] :: ((fragments.map fun _ => []) ++ [[]])) := by
  simp only [Block.events, List.cons_append]
  rw [handleAll, readSent_named hstart, handleAll_append, handleAll_orphans hidle,
    handleAll_singleton, readSent_blockStop_idle hidle]

def openedTool (s : ParserState) (id name : String) : ParserState :=
  { s with currentTool := some ⟨id, name, ""⟩, toolCallCounter := s.toolCallCounter + 1 }

theorem handleAll_toolBlock (id name : String) {start : Carrier} (hstart : start.named = false)
    (fragments : List (String × Carrier)) (stop : Carrier) :
    (handleAll (readSent serde) s (Block.toolUse id name start fragments stop).events).2 =
        [] :: ((fragments.map fun _ => []) ++
          [if stop.named = true then []
            else [.toolCall ⟨id, name, inputValue serde (joined (plainFragments fragments))⟩]]) ∧
      (stop.named = false → ((handleAll (readSent serde) s
        (Block.toolUse id name start fragments stop).events).1.currentTool = none ∧
        (handleAll (readSent serde) s
          (Block.toolUse id name start fragments stop).events).1.usage = s.usage)) := by
  have hopened : readSent serde s (blockStart ⟨"tool_use", some id, some name⟩, start) =
      (openedTool s id name, []) := by
    rw [readSent_plain hstart]
    rfl
  have htaken := @handleAll_fragments serde (openedTool s id name) _ rfl fragments
  have hempty : (ToolState.mk id name "").extend (joined (plainFragments fragments)) =
      ⟨id, name, joined (plainFragments fragments)⟩ := by
    unfold ToolState.extend
    rw [String.empty_append]
  simp only [Block.events, List.cons_append]
  rw [handleAll, hopened, handleAll_append, htaken, handleAll_singleton, hempty]
  cases hnamed : stop.named with
  | true =>
      rw [readSent_named hnamed]
      exact ⟨rfl, fun h => by cases h⟩
  | false =>
      rw [readSent_plain hnamed]
      exact ⟨rfl, fun _ => ⟨rfl, rfl⟩⟩

theorem block_answered_iff (hserde : serde.Reads) (hidle : s.currentTool = none) (block : Block) :
    ((handleAll (readSent serde) s block.events).2 = block.expected serde ↔ block.Plain serde) ∧
      (block.Plain serde → (handleAll (readSent serde) s block.events).1.currentTool = none ∧
        (handleAll (readSent serde) s block.events).1.usage = s.usage) := by
  cases block with
  | text start deltas stop =>
      rw [handleAll_textBlock hidle]
      refine ⟨?_, fun _ => ⟨hidle, rfl⟩⟩
      rw [Block.expected_text, Block.plain_text, List.cons_append, List.cons_inj_right,
        List.append_left_inj, List.map_inj_left]
      constructor
      · intro hanswered delta hdelta htext
        by_contra hnamed
        have hown := hanswered delta hdelta
        rw [if_pos (.inl (by simpa using hnamed)), if_neg htext] at hown
        cases hown
      · intro hplain delta hdelta
        by_cases htext : delta.1 = ""
        · rw [if_pos (.inr htext), if_pos htext]
        · rw [if_neg (by simp [htext, hplain delta hdelta htext]), if_neg htext]
  | toolUse id name start fragments stop =>
      cases hstart : start.named with
      | true =>
          rw [handleAll_toolBlock_hidden hidle hstart, Block.expected_toolUse, Block.plain_toolUse,
            List.cons_inj_right, List.append_right_inj, hstart]
          simp
      | false =>
          have hblock := @handleAll_toolBlock serde s id name start hstart fragments stop
          rw [hblock.1]
          refine ⟨?_, fun hplain => hblock.2 hplain.2.1⟩
          rw [Block.expected_toolUse, Block.plain_toolUse, List.cons_inj_right,
            List.append_right_inj, hstart]
          unfold toolInput
          simp only [List.cons.injEq, and_true, true_and]
          cases hstop : stop.named with
          | true => simp
          | false =>
              rw [if_neg Bool.false_ne_true]
              by_cases hinput : joined (fragments.map Prod.fst) = ""
              · have hplain : joined (plainFragments fragments) = "" :=
                  joined_plain_of_empty hinput
                rw [if_pos hinput, hplain]
                unfold inputValue
                rw [hserde.empty]
                simp [hinput]
              · rw [if_neg hinput]
                simp [hinput]

theorem Block.length_expected (block : Block) :
    (block.expected serde).length = block.events.length := by
  cases block with
  | text start deltas stop => simp [Block.expected, Block.events]
  | toolUse id name start fragments stop => simp [Block.expected, Block.events]

theorem blocks_answered_iff (hserde : serde.Reads) (hidle : s.currentTool = none)
    (blocks : List Block) :
    ((handleAll (readSent serde) s (blocks.flatMap Block.events)).2 =
        blocks.flatMap (Block.expected serde) ↔ ∀ block ∈ blocks, block.Plain serde) ∧
      ((∀ block ∈ blocks, block.Plain serde) →
        (handleAll (readSent serde) s (blocks.flatMap Block.events)).1.currentTool = none ∧
          (handleAll (readSent serde) s (blocks.flatMap Block.events)).1.usage = s.usage) := by
  induction blocks generalizing s with
  | nil => exact ⟨by simp [handleAll], fun _ => ⟨hidle, rfl⟩⟩
  | cons block blocks ih =>
      have hfirst := block_answered_iff hserde hidle block
      have hlength : (handleAll (readSent serde) s block.events).2.length =
          (block.expected serde).length := by
        rw [length_handleAll, Block.length_expected]
      simp only [List.flatMap_cons, handleAll_append, List.forall_mem_cons]
      constructor
      · constructor
        · intro hanswered
          have hsplit := List.append_inj hanswered hlength
          have hplain := hfirst.1.mp hsplit.1
          exact ⟨hplain, (ih (hfirst.2 hplain).1).1.mp hsplit.2⟩
        · rintro ⟨hplain, hlater⟩
          rw [hfirst.1.mpr hplain, (ih (hfirst.2 hplain).1).1.mpr hlater]
      · rintro ⟨hplain, hlater⟩
        have hend := (ih (hfirst.2 hplain).1).2 hlater
        exact ⟨hend.1, hend.2.trans (hfirst.2 hplain).2⟩

theorem readSent_messageDelta (report : Option AnthropicUsage) (carrier : Carrier) :
    readSent serde s (messageDelta report, carrier) =
      if carrier.named = true then (s, [])
      else ({ s with usage := (usageReport s.usage report).1 }, (usageReport s.usage report).2) := by
  cases hnamed : carrier.named with
  | true => exact readSent_named hnamed
  | false =>
      rw [readSent_plain hnamed, if_neg Bool.false_ne_true]
      cases report <;> rfl

theorem reports_answered_iff (deltas : List (Option AnthropicUsage × Carrier)) :
    (handleAll (readSent serde) s (deltas.map fun delta => (messageDelta delta.1, delta.2))).2 =
        expectedReports s.usage (deltas.map Prod.fst) ↔
      ∀ delta ∈ deltas, delta.1 ≠ none → delta.2.named = false := by
  induction deltas generalizing s with
  | nil => simp [handleAll, expectedReports]
  | cons delta deltas ih =>
      rw [List.map_cons, List.map_cons, handleAll, readSent_messageDelta, expectedReports,
        List.cons.injEq, List.forall_mem_cons]
      cases hnamed : delta.2.named with
      | true =>
          cases hreport : delta.1 with
          | none =>
              rw [if_pos rfl]
              simp only [usageReport, true_and, ne_eq, not_true_eq_false, false_implies]
              exact ih
          | some report => simp [usageReport]
      | false =>
          rw [if_neg Bool.false_ne_true]
          simp only [true_and, implies_true]
          exact ih

end Blocks

/-! ## The whole message -/

theorem readSent_messageStart (startUsage : Option AnthropicUsage) (carrier : Carrier) :
    readSent serde .initial (messageStart startUsage, carrier) =
      if carrier.named = true then (.initial, [])
      else ({ ParserState.initial with
          usage := (usageReport ParserState.initial.usage startUsage).1 },
        (usageReport ParserState.initial.usage startUsage).2) := by
  cases hnamed : carrier.named with
  | true => exact readSent_named hnamed
  | false =>
      rw [readSent_plain hnamed, if_neg Bool.false_ne_true]
      cases startUsage <;> rfl

theorem readSent_messageStop (s : ParserState) (carrier : Carrier) :
    (readSent serde s (messageStop, carrier)).2 =
      if carrier.named = true then [] else [.done] := by
  cases hnamed : carrier.named with
  | true => rw [readSent_named hnamed, if_pos rfl]
  | false =>
      rw [readSent_plain hnamed, if_neg Bool.false_ne_true]
      rfl

theorem length_expectedReports (usage : Usage) (reports : List (Option AnthropicUsage)) :
    (expectedReports usage reports).length = reports.length := by
  induction reports generalizing usage with
  | nil => rfl
  | cons report reports ih => rw [expectedReports, List.length_cons, List.length_cons, ih]

/-- From a state in which the start was read rightly, the rest is answered just when it
is plain. -/
theorem body_answered_iff (hserde : serde.Reads) {s : ParserState} (hidle : s.currentTool = none)
    (message : StreamedMessage) :
    (handleAll (readSent serde) s (message.blocks.flatMap Block.events ++
        ((message.deltas.map fun delta => (messageDelta delta.1, delta.2)) ++
          [(messageStop, message.stop)]))).2 =
      message.blocks.flatMap (Block.expected serde) ++
        (expectedReports s.usage (message.deltas.map Prod.fst) ++ [[.done]]) ↔
      (∀ block ∈ message.blocks, block.Plain serde) ∧
        (∀ delta ∈ message.deltas, delta.1 ≠ none → delta.2.named = false) ∧
        message.stop.named = false := by
  have hblocks := blocks_answered_iff hserde hidle message.blocks
  have hlength : (handleAll (readSent serde) s (message.blocks.flatMap Block.events)).2.length =
      (message.blocks.flatMap (Block.expected serde)).length := by
    rw [length_handleAll, List.length_flatMap, List.length_flatMap]
    simp only [Block.length_expected]
  rw [handleAll_append, handleAll_append, handleAll_singleton, readSent_messageStop]
  dsimp only
  have hstop : ∀ yielded : List (List StreamingChoice),
      yielded ++ [if message.stop.named = true then [] else [.done]] = yielded ++ [[.done]] ↔
        message.stop.named = false := by
    intro yielded
    rw [List.append_right_inj]
    cases message.stop.named <;> simp
  constructor
  · intro hanswered
    have hsplit := List.append_inj hanswered hlength
    have hplain := hblocks.1.mp hsplit.1
    have husage := (hblocks.2 hplain).2
    have htail := List.append_inj hsplit.2 (by
      rw [length_handleAll, length_expectedReports, List.length_map, List.length_map])
    rw [← husage] at htail
    have hreports := reports_answered_iff message.deltas |>.mp htail.1
    exact ⟨hplain, hreports, (hstop []).mp htail.2⟩
  · rintro ⟨hplain, hreports, hclosed⟩
    have husage := (hblocks.2 hplain).2
    rw [hblocks.1.mpr hplain, ← husage, (reports_answered_iff message.deltas).mpr hreports,
      (hstop _).mpr hclosed]

theorem message_answered_iff (hserde : serde.Reads) (message : StreamedMessage) :
    (handleAll (readSent serde) .initial message.events).2 = message.expected serde ↔
      message.Plain serde := by
  unfold StreamedMessage.events StreamedMessage.expected
  dsimp only
  rw [handleAll, readSent_messageStart, List.cons.injEq]
  cases hnamed : message.start.named with
  | true =>
      rw [if_pos rfl]
      cases hstart : message.startUsage with
      | none =>
          have hbody := @body_answered_iff _ hserde .initial rfl message
          constructor
          · rintro ⟨-, hanswered⟩
            have hplain := hbody.mp hanswered
            exact ⟨fun h => absurd hstart h, hplain.1, hplain.2.1, hplain.2.2⟩
          · intro hplain
            exact ⟨rfl, hbody.mpr ⟨hplain.blocks, hplain.deltas, hplain.stop⟩⟩
      | some usage =>
          constructor
          · rintro ⟨hfirst, -⟩
            cases hfirst
          · intro hplain
            have hplainStart := hplain.start (by rw [hstart]; exact Option.some_ne_none _)
            rw [hnamed] at hplainStart
            cases hplainStart
  | false =>
      rw [if_neg Bool.false_ne_true]
      have hbody := @body_answered_iff _ hserde { ParserState.initial with
        usage := (usageReport ParserState.initial.usage message.startUsage).1 } rfl message
      constructor
      · rintro ⟨-, hanswered⟩
        have hplain := hbody.mp hanswered
        exact ⟨fun _ => hnamed, hplain.1, hplain.2.1, hplain.2.2⟩
      · intro hplain
        exact ⟨rfl, hbody.mpr ⟨hplain.blocks, hplain.deltas, hplain.stop⟩⟩

theorem isLine_eventType {message : StreamedMessage} {event : SentEvent}
    (h : event ∈ message.events) : IsLine event.1.eventType := by
  have htypes : ∀ name ∈ ["message_start", "content_block_start", "content_block_delta",
      "content_block_stop", "message_delta", "message_stop"], IsLine name := by decide
  apply htypes
  unfold StreamedMessage.events at h
  rcases List.mem_cons.mp h with rfl | h
  · simp [messageStart]
  · rcases List.mem_append.mp h with h | h
    · rcases List.mem_flatMap.mp h with ⟨block, -, h⟩
      cases block with
      | text start deltas stop =>
          simp only [Block.events, List.cons_append, List.mem_cons, List.mem_append,
            List.mem_map] at h
          rcases h with rfl | ⟨delta, -, rfl⟩ | rfl | h
          · simp [blockStart]
          · simp [textDelta]
          · simp [blockStop]
          · cases h
      | toolUse id name start fragments stop =>
          simp only [Block.events, List.cons_append, List.mem_cons, List.mem_append,
            List.mem_map] at h
          rcases h with rfl | ⟨delta, -, rfl⟩ | rfl | h
          · simp [blockStart]
          · simp [inputDelta]
          · simp [blockStop]
          · cases h
    · rcases List.mem_append.mp h with h | h
      · rcases List.mem_map.mp h with ⟨delta, -, rfl⟩
        simp [messageDelta]
      · rw [List.mem_singleton.mp h]
        simp [messageStop]

theorem isSseMessage_texts {message : StreamedMessage}
    (hsent : ∀ event ∈ message.events, event.WellSent serde) :
    ∀ text ∈ message.events.map SentEvent.text, IsSseMessage text := by
  intro text htext
  rcases List.mem_map.mp htext with ⟨event, hevent, rfl⟩
  exact sentEvent_isSseMessage (hsent event hevent) (isLine_eventType hevent)

theorem handleAll_texts (hserde : serde.Reads) {message : StreamedMessage}
    (hsent : ∀ event ∈ message.events, event.WellSent serde) :
    handleAll (handleMessage serde) .initial (message.events.map SentEvent.text) =
      handleAll (readSent serde) .initial message.events :=
  handleAll_map (fun event hevent s => handleMessage_text hserde (hsent event hevent) s) .initial

def samplePairs : List (String × StreamEvent) :=
  [("\x7b\"type\":\"message_start\",\"message\":\x7b\x7d\x7d", messageStart none),
    ("\x7b\"type\":\"content_block_start\",\"content_block\":\x7b\"type\":\"text\"\x7d\x7d",
      blockStart ⟨"text", none, none⟩),
    ("\x7b\"type\":\"content_block_delta\",\"delta\":\x7b\"type\":\"text_delta\",\"text\":\"Hi\"\x7d\x7d",
      textDelta "Hi"),
    ("\x7b\"type\":\"content_block_stop\"\x7d", blockStop),
    ("\x7b\"type\":\"message_stop\"\x7d", messageStop)]

def isLineBreak (c : Char) : Bool := c == '\n' || c == '\r'

def sampleSerde : SerdeJson StreamEvent where
  fromStr text := (samplePairs.find? fun pair =>
    pair.1 == Text.trimEndMatches text isLineBreak).map Prod.snd
  valueFromStr text := if text = "\x7b\x7d" then some (.object []) else none

theorem sampleSerde_reads : sampleSerde.Reads where
  trailing text lineEnd hend := by
    have hbreaks : ∀ c ∈ (lineEnd ++ lineEnd).toList, isLineBreak c = true := by
      rcases hend with rfl | rfl <;> exact List.all_eq_true.mp (by decide)
    unfold sampleSerde
    dsimp only
    rw [Text.trimEndMatches_append hbreaks]
  empty := rfl

/-- The message of one delta, sent with or without event lines. -/
def sampleMessage (named : Bool) : StreamedMessage where
  startUsage := none
  start := ⟨"\x7b\"type\":\"message_start\",\"message\":\x7b\x7d\x7d", "\n", named⟩
  blocks := [.text
    ⟨"\x7b\"type\":\"content_block_start\",\"content_block\":\x7b\"type\":\"text\"\x7d\x7d", "\n", named⟩
    [("Hi", ⟨"\x7b\"type\":\"content_block_delta\",\"delta\":\x7b\"type\":\"text_delta\",\"text\":\"Hi\"\x7d\x7d",
      "\n", named⟩)]
    ⟨"\x7b\"type\":\"content_block_stop\"\x7d", "\n", named⟩]
  deltas := []
  stop := ⟨"\x7b\"type\":\"message_stop\"\x7d", "\n", named⟩

def sampleFragments (named : Bool) : List (List UInt8) :=
  ((sampleMessage named).events.map SentEvent.text).map utf8

theorem sampleMessage_wellSent (named : Bool) :
    ∀ event ∈ (sampleMessage named).events, event.WellSent sampleSerde := by
  cases named <;> decide +kernel

end BenShu.Providers.Anthropic
