import BenShu.Providers.SseStream

/-!
# The stream of an OpenAI-compatible server

Chunks of content, tool call fragments and usage, each carried by one server-sent
event. Fragments of a tool call are collected under their index until a chunk finishes
with `tool_calls`.
-/

namespace BenShu.Providers.OpenAi

structure StreamFunction where
  name : Option String
  arguments : Option String
deriving DecidableEq

structure StreamToolCall where
  index : Option Nat
  id : Option String
  function : Option StreamFunction
deriving DecidableEq

structure StreamDelta where
  content : Option String
  toolCalls : Option (List StreamToolCall)
deriving DecidableEq

structure StreamChoice where
  delta : StreamDelta
  finishReason : Option String
deriving DecidableEq

structure OpenAIUsage where
  promptTokens : UInt32
  completionTokens : UInt32
  totalTokens : UInt32
deriving DecidableEq

structure StreamChunk where
  choices : List StreamChoice
  usage : Option OpenAIUsage
deriving DecidableEq

/-- The data lines of an event, joined. -/
def sseMessageData (message : String) : Option String :=
  let lines := (Text.lines message).filterMap fun line =>
    let line := Text.trimEndMatches line (· == '\r')
    (Text.afterStart? (Text.trimStart line) "data:").map Text.trimStart
  if lines.isEmpty then none else some ("\n".intercalate lines)

def emptyThinkMarkers : List String :=
  ["<think>\n\n</think>", "<think>\r\n\r\n</think>", "<think></think>", "<think>\n</think>",
    "<think>\r\n</think>"]

def withoutEmptyThinks (text : String) : String :=
  emptyThinkMarkers.foldl Text.removeAll text

def sanitizeVisibleMessageText (text : String) : String :=
  Text.trimStart (withoutEmptyThinks text)

def continuationTelemetryFromStreamUsage (usage : OpenAIUsage) : ContinuationTelemetry where
  mode := "openai_compatible_provider_reported"
  cacheSource := "provider_stream_usage"
  promptTokens := some usage.promptTokens
  toolExactReplayUsed := false

structure ToolCallState where
  id : Option String
  name : Option String
  arguments : String

namespace ToolCallState

def empty : ToolCallState := ⟨none, none, ""⟩

def absorb (state : ToolCallState) (tc : StreamToolCall) : ToolCallState where
  id := tc.id.or state.id
  name := (tc.function.bind (·.name)).or state.name
  arguments := state.arguments ++ (tc.function.bind (·.arguments)).getD ""

def call? (valueFromStr : String → Option Json) (state : ToolCallState) : Option ToolCall :=
  state.id.bind fun id => state.name.bind fun name =>
    (valueFromStr state.arguments).map fun arguments => ⟨id, name, arguments⟩

end ToolCallState

def StreamToolCall.slot (tc : StreamToolCall) : Nat := tc.index.getD 0

def absorbToolCall (tools : Table Nat ToolCallState) (tc : StreamToolCall) :
    Table Nat ToolCallState :=
  tools.insert tc.slot (((tools.lookup tc.slot).getD .empty).absorb tc)

variable (serde : SerdeJson StreamChunk) (toolExactReplayUsed : Bool)

def usageChoices (usage : OpenAIUsage) : List StreamingChoice :=
  let continuation := continuationTelemetryFromStreamUsage usage
  [.usage ⟨usage.promptTokens, usage.completionTokens, usage.totalTokens⟩,
    .telemetry ⟨some "openai", some { continuation with toolExactReplayUsed }⟩]

/-- The collected calls are handed over; those that are not whole are dropped. -/
def finishToolCalls (tools : Table Nat ToolCallState) : List StreamingChoice :=
  let toolsMap := Table.collect (ToolCallState.call? serde.valueFromStr) tools
  if toolsMap.entries.isEmpty then [] else [.parallelToolCalls toolsMap]

def handleChoice (tools : Table Nat ToolCallState) (choice : StreamChoice) :
    Table Nat ToolCallState × List StreamingChoice :=
  let content := choice.delta.content.map sanitizeVisibleMessageText
  if content.getD "" ≠ "" then (tools, [.message (content.getD "")])
  else
    let tools := (choice.delta.toolCalls.getD []).foldl absorbToolCall tools
    if choice.finishReason = some "tool_calls" then (∅, finishToolCalls serde tools)
    else (tools, [])

def handleChunk (tools : Table Nat ToolCallState) (chunk : StreamChunk) :
    Table Nat ToolCallState × List StreamingChoice :=
  match chunk.usage with
  | some usage => (tools, usageChoices toolExactReplayUsed usage)
  | none =>
      match chunk.choices.head? with
      | none => (tools, [])
      | some choice => handleChoice serde tools choice

def handleMessage (tools : Table Nat ToolCallState) (message : String) :
    Table Nat ToolCallState × List StreamingChoice :=
  match sseMessageData message with
  | none => (tools, [])
  | some data =>
      if Text.trim data = "[DONE]" then (tools, [.done])
      else match serde.fromStr (Text.trim data) with
        | none => (tools, [])
        | some chunk => handleChunk serde toolExactReplayUsed tools chunk

/-- What the parser yields on a stream, in the order it is pulled. -/
def parseSseStreamWithToolReplay (stream : List (Except String (List UInt8))) :
    List (Except StreamError StreamingChoice) :=
  (readStream (handleMessage serde toolExactReplayUsed) .new ∅ stream).flatMap Turn.items

end BenShu.Providers.OpenAi

/-!
# What an OpenAI stream delivers

The choices a stream of chunks should come to, and the streams on which the parser
yields them: no chunk carries usage beside text or tool calls, no text beside tool calls,
no later delta begins with white space, and one round of fragments that a `tool_calls`
reason closes holds the whole of each call.
-/

namespace BenShu.Providers.OpenAi

open ByteCodec Framing

namespace StreamChunk

def deltaText (chunk : StreamChunk) : List Char :=
  chunk.choices.flatMap fun choice =>
    (withoutEmptyThinks (choice.delta.content.getD "")).toList

def fragments (chunk : StreamChunk) : List StreamToolCall :=
  chunk.choices.flatMap fun choice => choice.delta.toolCalls.getD []

def showsText (chunk : StreamChunk) : Prop := ∃ c ∈ chunk.deltaText, Text.isWhitespace c = false

instance (chunk : StreamChunk) : Decidable chunk.showsText :=
  inferInstanceAs (Decidable (∃ c ∈ chunk.deltaText, Text.isWhitespace c = false))

def finishesToolCalls (chunk : StreamChunk) : Prop :=
  ∃ choice ∈ chunk.choices, choice.finishReason = some "tool_calls"

instance (chunk : StreamChunk) : Decidable chunk.finishesToolCalls :=
  inferInstanceAs (Decidable (∃ choice ∈ chunk.choices, choice.finishReason = some "tool_calls"))

def readsToolCalls (chunk : StreamChunk) : Prop := chunk.usage = none ∧ ¬ chunk.showsText

instance (chunk : StreamChunk) : Decidable chunk.readsToolCalls :=
  @instDecidableAnd _ _ (decidable_of_iff (chunk.usage.isNone = true) Option.isNone_iff_eq_none)
    inferInstance

end StreamChunk

variable (serde : SerdeJson StreamChunk)

def requestedCall (index : Nat) (fragments : List StreamToolCall) : Option ToolCall :=
  ((fragments.filter fun tc => tc.slot = index).foldl ToolCallState.absorb .empty).call?
    serde.valueFromStr

def messageText : StreamingChoice → List Char
  | .message text => text.toList
  | _ => []

def deliveredUnder (index : Nat) : StreamingChoice → Option ToolCall
  | .parallelToolCalls calls => calls.lookup index
  | _ => none

def usageOf : StreamingChoice → Option Usage
  | .usage usage => some usage
  | _ => none

def OpenAIUsage.toUsage (usage : OpenAIUsage) : Usage :=
  ⟨usage.promptTokens, usage.completionTokens, usage.totalTokens⟩

/-- The choices lose and alter nothing of the chunks. -/
structure Delivered (chunks : List StreamChunk) (choices : List StreamingChoice) : Prop where
  text : choices.flatMap messageText =
    (chunks.flatMap StreamChunk.deltaText).dropWhile Text.isWhitespace
  toolCalls : ∀ index call,
    requestedCall serde index (chunks.flatMap StreamChunk.fragments) = some call →
      choices.filterMap (deliveredUnder index) = [call]
  usage : choices.filterMap usageOf = chunks.filterMap fun chunk => chunk.usage.map OpenAIUsage.toUsage
  done : ∃ earlier, choices = earlier ++ [.done] ∧ .done ∉ earlier

/-! ## Streams that are delivered whole -/

/-- The fragments that are read between one `tool_calls` reason and the next. -/
def rounds : List StreamToolCall → List StreamChunk → List (List StreamToolCall)
  | _, [] => []
  | opened, chunk :: chunks =>
      if chunk.readsToolCalls then
        if chunk.finishesToolCalls then (opened ++ chunk.fragments) :: rounds [] chunks
        else rounds (opened ++ chunk.fragments) chunks
      else rounds opened chunks

structure TextKept (chunks : List StreamChunk) : Prop where
  alone : ∀ chunk ∈ chunks, chunk.showsText → chunk.usage = none
  later : chunks.Pairwise fun earlier chunk => earlier.showsText →
    chunk.deltaText = [] ∨
      (chunk.usage = none ∧ ∀ c ∈ chunk.deltaText.head?, Text.isWhitespace c = false)

/-- One round alone makes the call, and makes it as all fragments together do. -/
def ToolCallsKept (chunks : List StreamChunk) : Prop :=
  ∀ index call, requestedCall serde index (chunks.flatMap StreamChunk.fragments) = some call →
    ∃ before round after, rounds [] chunks = before ++ round :: after ∧
      requestedCall serde index round = some call ∧
      ∀ other ∈ before ++ after, requestedCall serde index other = none

/-! ## What the parser makes of one chunk -/

section Chunk

variable {serde} {toolExactReplayUsed : Bool} {tools : Table Nat ToolCallState}
  {chunk : StreamChunk}

theorem withoutEmptyThinks_empty : withoutEmptyThinks "" = "" := by decide

theorem visible_content (choice : StreamChoice) :
    (choice.delta.content.map sanitizeVisibleMessageText).getD "" =
      .ofList ((withoutEmptyThinks (choice.delta.content.getD "")).toList.dropWhile
        Text.isWhitespace) := by
  cases choice.delta.content with
  | none =>
      rw [Option.getD_none, withoutEmptyThinks_empty]
      rfl
  | some content => rfl

theorem showsText_iff : chunk.showsText ↔ chunk.deltaText.dropWhile Text.isWhitespace ≠ [] := by
  rw [Ne, List.dropWhile_eq_nil_iff]
  unfold StreamChunk.showsText
  push Not
  simp only [Bool.not_eq_true]

theorem handleChunk_of_usage {usage : OpenAIUsage} (h : chunk.usage = some usage) :
    handleChunk serde toolExactReplayUsed tools chunk =
      (tools, usageChoices toolExactReplayUsed usage) := by
  unfold handleChunk
  rw [h]

variable (hone : chunk.choices.length ≤ 1)
include hone

theorem handleChunk_of_text (husage : chunk.usage = none) (hshows : chunk.showsText) :
    handleChunk serde toolExactReplayUsed tools chunk =
      (tools, [.message (.ofList (chunk.deltaText.dropWhile Text.isWhitespace))]) := by
  rcases chunk with ⟨_ | ⟨choice, _ | ⟨second, choices⟩⟩, usage⟩
  · exact absurd rfl (showsText_iff.mp hshows)
  · have htext : StreamChunk.deltaText ⟨[choice], usage⟩ =
        (withoutEmptyThinks (choice.delta.content.getD "")).toList := List.append_nil _
    have hne := showsText_iff.mp hshows
    rw [htext] at hne ⊢
    cases husage
    unfold handleChunk handleChoice
    dsimp only [List.head?_cons]
    rw [visible_content, if_pos]
    rw [Ne, ← String.toList_inj, String.toList_ofList]
    exact hne
  · simp at hone

theorem handleChunk_of_reads (hreads : chunk.readsToolCalls) :
    handleChunk serde toolExactReplayUsed tools chunk =
      if chunk.finishesToolCalls then
        (∅, finishToolCalls serde (chunk.fragments.foldl absorbToolCall tools))
      else (chunk.fragments.foldl absorbToolCall tools, []) := by
  rcases hreads with ⟨husage, hquiet⟩
  rw [showsText_iff, not_not] at hquiet
  rcases chunk with ⟨_ | ⟨choice, _ | ⟨second, choices⟩⟩, usage⟩
  · cases husage
    rfl
  · have htext : StreamChunk.deltaText ⟨[choice], usage⟩ =
        (withoutEmptyThinks (choice.delta.content.getD "")).toList := List.append_nil _
    have hfragments : StreamChunk.fragments ⟨[choice], usage⟩ = choice.delta.toolCalls.getD [] :=
      List.append_nil _
    have hfinish : StreamChunk.finishesToolCalls ⟨[choice], usage⟩ ↔
        choice.finishReason = some "tool_calls" := by
      simp [StreamChunk.finishesToolCalls]
    rw [htext] at hquiet
    cases husage
    unfold handleChunk handleChoice
    dsimp only [List.head?_cons]
    rw [visible_content, hquiet, if_neg (by decide), hfragments]
    simp only [hfinish]
  · simp at hone

omit hone in
theorem lookup_collected (fragments : List StreamToolCall) (index : Nat) :
    ((fragments.foldl absorbToolCall tools).lookup index).getD .empty =
      (fragments.filter fun tc => tc.slot = index).foldl ToolCallState.absorb
        ((tools.lookup index).getD .empty) := by
  induction fragments generalizing tools with
  | nil => rfl
  | cons tc fragments ih =>
      rw [List.foldl_cons, ih]
      unfold absorbToolCall
      rw [Table.lookup_insert]
      by_cases hslot : tc.slot = index
      · rw [if_pos hslot.symm, List.filter_cons_of_pos (by simpa using hslot), List.foldl_cons,
          hslot]
        rfl
      · rw [if_neg fun h => hslot h.symm, List.filter_cons_of_neg (by simpa using hslot)]

omit hone in
theorem finishToolCalls_delivered (opened : List StreamToolCall) (index : Nat) :
    (finishToolCalls serde (opened.foldl absorbToolCall ∅)).filterMap (deliveredUnder index) =
      (requestedCall serde index opened).toList := by
  have hcall : requestedCall serde index opened =
      (Table.collect (ToolCallState.call? serde.valueFromStr)
        (opened.foldl absorbToolCall (∅ : Table Nat ToolCallState))).lookup index := by
    have hlookup := @lookup_collected (∅ : Table Nat ToolCallState) opened index
    rw [AList.lookup_empty, Option.getD_none] at hlookup
    rw [Table.lookup_collect, requestedCall, ← hlookup]
    cases (opened.foldl absorbToolCall ∅).lookup index with
    | none => rfl
    | some state => rfl
  unfold finishToolCalls
  dsimp only
  generalize Table.collect (ToolCallState.call? serde.valueFromStr)
    (opened.foldl absorbToolCall (∅ : Table Nat ToolCallState)) = toolsMap at hcall ⊢
  by_cases hempty : toolsMap.entries = []
  · have hnone : toolsMap.lookup index = none := by
      rw [AList.lookup, hempty]
      rfl
    rw [hempty, hcall, hnone]
    rfl
  · have hown : deliveredUnder index (.parallelToolCalls toolsMap) = toolsMap.lookup index := rfl
    rw [if_neg (by simpa using hempty), hcall, List.filterMap_cons, hown]
    cases toolsMap.lookup index <;> rfl

theorem handleChunk_text :
    (handleChunk serde toolExactReplayUsed tools chunk).2.flatMap messageText =
      Pieces.keptPiece Text.isWhitespace StreamChunk.deltaText
        (fun chunk => chunk.usage.isSome = true) chunk := by
  unfold Pieces.keptPiece
  dsimp only
  rcases Option.eq_none_or_eq_some chunk.usage with husage | ⟨usage, husage⟩
  · rw [if_neg (by rw [husage]; exact Bool.false_ne_true)]
    by_cases hshows : chunk.showsText
    · rw [handleChunk_of_text hone husage hshows]
      simp [messageText]
    · rw [handleChunk_of_reads hone ⟨husage, hshows⟩]
      rw [showsText_iff, not_not] at hshows
      rw [hshows]
      split
      · unfold finishToolCalls
        dsimp only
        split <;> rfl
      · rfl
  · rw [handleChunk_of_usage husage, if_pos (by rw [husage]; rfl)]
    rfl

theorem handleChunk_usage :
    (handleChunk serde toolExactReplayUsed tools chunk).2.flatMap (fun c => (usageOf c).toList) =
      (chunk.usage.map OpenAIUsage.toUsage).toList := by
  cases husage : chunk.usage with
  | some usage =>
      rw [handleChunk_of_usage husage]
      rfl
  | none =>
      by_cases hshows : chunk.showsText
      · rw [handleChunk_of_text hone husage hshows]
        rfl
      · rw [handleChunk_of_reads hone ⟨husage, hshows⟩]
        split
        · unfold finishToolCalls
          dsimp only
          split <;> rfl
        · rfl

theorem handleChunk_not_done :
    .done ∉ (handleChunk serde toolExactReplayUsed tools chunk).2 := by
  cases husage : chunk.usage with
  | some usage =>
      rw [handleChunk_of_usage husage]
      simp [usageChoices]
  | none =>
      by_cases hshows : chunk.showsText
      · rw [handleChunk_of_text hone husage hshows]
        simp
      · rw [handleChunk_of_reads hone ⟨husage, hshows⟩]
        split
        · unfold finishToolCalls
          dsimp only
          split <;> simp
        · simp

end Chunk

/-! ## What the parser makes of a stream -/

section Stream

variable {serde} {toolExactReplayUsed : Bool} {chunks : List StreamChunk}
  (hone : ∀ chunk ∈ chunks, chunk.choices.length ≤ 1)
include hone

theorem handleAll_toolCalls (opened : List StreamToolCall) (index : Nat) :
    (handleAll (handleChunk serde toolExactReplayUsed) (opened.foldl absorbToolCall ∅)
        chunks).2.flatten.filterMap (deliveredUnder index) =
      (rounds opened chunks).filterMap (requestedCall serde index) := by
  induction chunks generalizing opened with
  | nil => rfl
  | cons chunk chunks ih =>
      have hchunk := hone chunk List.mem_cons_self
      have hlater := ih fun c hc => hone c (List.mem_cons_of_mem _ hc)
      rw [handleAll, List.flatten_cons, List.filterMap_append, rounds]
      cases husage : chunk.usage with
      | some usage =>
          have hreads : ¬ chunk.readsToolCalls := fun h => by
            rw [h.1] at husage
            cases husage
          rw [handleChunk_of_usage husage, hlater, if_neg hreads]
          rfl
      | none =>
          by_cases hshows : chunk.showsText
          · have hreads : ¬ chunk.readsToolCalls := fun h => h.2 hshows
            rw [handleChunk_of_text hchunk husage hshows, hlater, if_neg hreads]
            rfl
          · have hreads : chunk.readsToolCalls := ⟨husage, hshows⟩
            rw [handleChunk_of_reads hchunk hreads, if_pos hreads, ← List.foldl_append]
            by_cases hfinish : chunk.finishesToolCalls
            · rw [if_pos hfinish, if_pos hfinish, finishToolCalls_delivered,
                show (∅ : Table Nat ToolCallState) = [].foldl absorbToolCall ∅ from rfl, hlater,
                List.filterMap_cons]
              cases requestedCall serde index (opened ++ chunk.fragments) <;> rfl
            · rw [if_neg hfinish, if_neg hfinish, hlater]
              rfl

theorem handleAll_not_done (tools : Table Nat ToolCallState) :
    .done ∉ (handleAll (handleChunk serde toolExactReplayUsed) tools chunks).2.flatten := by
  induction chunks generalizing tools with
  | nil => exact List.not_mem_nil
  | cons chunk chunks ih =>
      rw [handleAll, List.flatten_cons, List.mem_append, not_or]
      exact ⟨handleChunk_not_done (hone chunk List.mem_cons_self),
        ih (fun c hc => hone c (List.mem_cons_of_mem _ hc)) _⟩

theorem handleAll_text_iff (tools : Table Nat ToolCallState) :
    (handleAll (handleChunk serde toolExactReplayUsed) tools chunks).2.flatten.flatMap
        messageText = (chunks.flatMap StreamChunk.deltaText).dropWhile Text.isWhitespace ↔
      TextKept chunks := by
  have hkept := handleAll_flatMap (fun chunk hchunk s =>
    @handleChunk_text serde toolExactReplayUsed s chunk (hone chunk hchunk)) tools
  rw [hkept, Pieces.flatMap_keptPiece_iff]
  simp only [Bool.not_eq_true, Option.isSome_eq_false_iff, Option.isNone_iff_eq_none]
  exact ⟨fun h => ⟨h.1, h.2⟩, fun h => ⟨h.alone, h.later⟩⟩

theorem handleAll_usage (tools : Table Nat ToolCallState) :
    (handleAll (handleChunk serde toolExactReplayUsed) tools chunks).2.flatten.filterMap usageOf =
      chunks.filterMap fun chunk => chunk.usage.map OpenAIUsage.toUsage := by
  rw [List.filterMap_eq_flatMap_toList, List.filterMap_eq_flatMap_toList]
  exact handleAll_flatMap (fun chunk hchunk s =>
    @handleChunk_usage serde toolExactReplayUsed s chunk (hone chunk hchunk)) tools

end Stream

/-! ## Messages that carry chunks -/

def CarriesChunk (text : String) (chunk : StreamChunk) : Prop :=
  IsSseMessage text ∧ ∃ data, sseMessageData text = some data ∧ Text.trim data ≠ "[DONE]" ∧
    serde.fromStr (Text.trim data) = some chunk

def CarriesDone (text : String) : Prop :=
  IsSseMessage text ∧ ∃ data, sseMessageData text = some data ∧ Text.trim data = "[DONE]"

theorem handleMessage_chunk {toolExactReplayUsed : Bool} {text : String} {chunk : StreamChunk}
    (h : CarriesChunk serde text chunk) (tools : Table Nat ToolCallState) :
    handleMessage serde toolExactReplayUsed tools text =
      handleChunk serde toolExactReplayUsed tools chunk := by
  rcases h.2 with ⟨data, hdata, hopen, hchunk⟩
  unfold handleMessage
  rw [hdata]
  dsimp only
  rw [if_neg hopen, hchunk]

theorem handleMessage_done {toolExactReplayUsed : Bool} {text : String} (h : CarriesDone text)
    (tools : Table Nat ToolCallState) :
    handleMessage serde toolExactReplayUsed tools text = (tools, [.done]) := by
  rcases h.2 with ⟨data, hdata, hdone⟩
  unfold handleMessage
  rw [hdata]
  dsimp only
  rw [if_pos hdone]

theorem handleAll_sent {toolExactReplayUsed : Bool} {sent : List (String × StreamChunk)}
    {closing : String} (hsent : ∀ event ∈ sent, CarriesChunk serde event.1 event.2)
    (hclosing : CarriesDone closing) (tools : Table Nat ToolCallState) :
    (handleAll (handleMessage serde toolExactReplayUsed) tools
        (sent.map Prod.fst ++ [closing])).2.flatten =
      (handleAll (handleChunk serde toolExactReplayUsed) tools (sent.map Prod.snd)).2.flatten ++
        [.done] := by
  have hchunks := @handleAll_map _ _ _ (handleMessage serde toolExactReplayUsed)
    (fun tools event => handleChunk serde toolExactReplayUsed tools event.2) Prod.fst sent
    (fun event hevent tools => handleMessage_chunk serde (hsent event hevent) tools) tools
  have hsnd := @handleAll_map _ _ _ (handleChunk serde toolExactReplayUsed)
    (fun tools event => handleChunk serde toolExactReplayUsed tools event.2) Prod.snd sent
    (fun _ _ _ => rfl) tools
  rw [handleAll_append, hchunks, ← hsnd, List.flatten_append, handleAll,
    handleMessage_done serde hclosing]
  rfl

theorem isSseMessage_sent {sent : List (String × StreamChunk)} {closing : String}
    (hsent : ∀ event ∈ sent, CarriesChunk serde event.1 event.2) (hclosing : CarriesDone closing) :
    ∀ text ∈ sent.map Prod.fst ++ [closing], IsSseMessage text := by
  intro text htext
  rcases List.mem_append.mp htext with hmem | hmem
  · rcases List.mem_map.mp hmem with ⟨event, hevent, rfl⟩
    exact (hsent event hevent).1
  · rw [List.mem_singleton.mp hmem]
    exact hclosing.1

theorem filterMap_eq_singleton_iff {α β : Type} {f : α → Option β} {l : List α} {b : β} :
    l.filterMap f = [b] ↔ ∃ before a after, l = before ++ a :: after ∧ f a = some b ∧
      ∀ other ∈ before ++ after, f other = none := by
  constructor
  · intro h
    rcases List.filterMap_eq_cons_iff.mp h with ⟨before, a, after, rfl, hnone, ha, hafter⟩
    rw [List.filterMap_eq_nil_iff] at hafter
    refine ⟨before, a, after, rfl, ha, fun other hother => ?_⟩
    rcases List.mem_append.mp hother with hmem | hmem
    · exact hnone other hmem
    · exact hafter other hmem
  · rintro ⟨before, a, after, rfl, ha, hnone⟩
    rw [List.filterMap_append, List.filterMap_cons, ha,
      List.filterMap_eq_nil_iff.mpr fun x hx => hnone x (List.mem_append_left _ hx),
      List.filterMap_eq_nil_iff.mpr fun x hx => hnone x (List.mem_append_right _ hx)]
    rfl

def contentChunk (text : String) : StreamChunk := ⟨[⟨⟨some text, none⟩, none⟩], none⟩

def helloJson : String := "\x7b\"choices\":[\x7b\"delta\":\x7b\"content\":\"Hello\"\x7d\x7d]\x7d"

def worldJson : String := "\x7b\"choices\":[\x7b\"delta\":\x7b\"content\":\" world\"\x7d\x7d]\x7d"

def sampleSerde : SerdeJson StreamChunk where
  fromStr text :=
    if text = helloJson then some (contentChunk "Hello")
    else if text = worldJson then some (contentChunk " world")
    else none
  valueFromStr text := if text = "\x7b\x7d" then some (.object []) else none

def dataEvent (data : String) : String := sseText "\n" ["data: " ++ data]

theorem carries_hello : CarriesChunk sampleSerde (dataEvent helloJson) (contentChunk "Hello") :=
  ⟨isSseMessage_sseText (.inl rfl) (by decide +kernel) (by decide), helloJson, by decide +kernel,
    by decide +kernel, by decide +kernel⟩

theorem carries_world : CarriesChunk sampleSerde (dataEvent worldJson) (contentChunk " world") :=
  ⟨isSseMessage_sseText (.inl rfl) (by decide +kernel) (by decide), worldJson, by decide +kernel,
    by decide +kernel, by decide +kernel⟩

theorem carries_done : CarriesDone (dataEvent "[DONE]") :=
  ⟨isSseMessage_sseText (.inl rfl) (by decide +kernel) (by decide), "[DONE]", by decide +kernel,
    by decide +kernel⟩

end BenShu.Providers.OpenAi
