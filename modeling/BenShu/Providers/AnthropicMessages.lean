import BenShu.Lib.History
import BenShu.Protocol.Message

/-!
# The messages of a request to Anthropic

A history becomes a list of messages in two places: in the provider and in the agent's own
provider. Calls of tools and their results are to be carried over, each result behind its
call.
-/

namespace BenShu.Providers

open Protocol (Content ContentPart MediaSource Message Role)

inductive AnthropicContent (Block : Type) where
  | text (text : String)
  | blocks (blocks : List Block)

structure AnthropicMessage (Block : Type) where
  role : String
  content : AnthropicContent Block

def anthropicRole : Role → String
  | .user | .tool => "user"
  | .assistant => "assistant"
  | .system => "user"

/-! ## The provider -/

namespace Anthropic

inductive ContentBlock where
  | text (text : String)
  | toolUse (id name : String) (input : Json)
  | toolResult (toolUseId content : String)

def convertPart : ContentPart → ContentBlock
  | .text text => .text text
  | .image (.base64 mediaType _) => .text s!"[Image: {mediaType}]"
  | .image (.url url) => .text s!"[Image URL: {url}]"
  | .audio _ => .text "[Audio not supported by Claude yet]"
  | .video _ => .text "[Video not supported by Claude yet]"
  | .toolCall id name arguments => .toolUse id name arguments
  | .toolResult toolCallId _ content => .toolResult toolCallId content

def convertContent : Content → AnthropicContent ContentBlock
  | .text text => .text text
  | .fact fact => .text s!"[Fact: {fact.category}] {fact.content}"
  | .systemNotification notice => .text s!"[System] {notice}"
  | .cancelled reason => .text s!"[Cancelled] Reason: {reason}"
  | .parts parts => .blocks (parts.map convertPart)

def convertMessage (message : Message) : AnthropicMessage ContentBlock where
  role := anthropicRole message.role
  content := convertContent message.content

def convertMessages (messages : List Message) : List (AnthropicMessage ContentBlock) :=
  (messages.filter fun message => message.role ≠ .system).map convertMessage

end Anthropic

/-! ## The provider of the agent -/

namespace AnthropicProvider

inductive AnthropicBlock where
  | toolResult (toolUseId content : String)

def firstResult : List ContentPart → Option AnthropicBlock
  | [] => none
  | .toolResult toolCallId _ content :: _ => some (.toolResult toolCallId content)
  | _ :: parts => firstResult parts

variable (render : Json → String)

def convertMessage (message : Message) : AnthropicMessage AnthropicBlock :=
  let text : AnthropicMessage AnthropicBlock :=
    ⟨anthropicRole message.role, .text (message.text render)⟩
  if message.role = .tool then
    match message.content with
    | .parts parts =>
        match firstResult parts with
        | some block => ⟨"user", .blocks [block]⟩
        | none => text
    | _ => text
  else text

def convertMessages (messages : List Message) : List (AnthropicMessage AnthropicBlock) :=
  (messages.filter fun message => message.role ≠ .system).map (convertMessage render)

end AnthropicProvider

/-! ## The protocol of tools -/

/-- A call of a tool, or the result that answers it. -/
inductive ToolBlock where
  | use (id name : String) (input : Json)
  | result (toolUseId content : String)

def toolPart : ContentPart → Option ToolBlock
  | .toolCall id name arguments => some (.use id name arguments)
  | .toolResult toolCallId _ content => some (.result toolCallId content)
  | _ => none

def messageTools (message : Message) : List ToolBlock :=
  match message.content with
  | .parts parts => parts.filterMap toolPart
  | _ => []

def historyTools (history : List Message) : List ToolBlock := history.flatMap messageTools

def Anthropic.ContentBlock.tool : Anthropic.ContentBlock → Option ToolBlock
  | .text _ => none
  | .toolUse id name input => some (.use id name input)
  | .toolResult toolUseId content => some (.result toolUseId content)

def AnthropicProvider.AnthropicBlock.tool : AnthropicProvider.AnthropicBlock → Option ToolBlock
  | .toolResult toolUseId content => some (.result toolUseId content)

section Carried

variable {Block : Type} (tool : Block → Option ToolBlock)

def AnthropicMessage.tools (message : AnthropicMessage Block) : List ToolBlock :=
  match message.content with
  | .text _ => []
  | .blocks blocks => blocks.filterMap tool

/-- The calls and results that a list of messages carries, in its order. -/
def carriedTools (messages : List (AnthropicMessage Block)) : List ToolBlock :=
  messages.flatMap (AnthropicMessage.tools tool)

end Carried

def Answered (blocks : List ToolBlock) : Prop :=
  History.Preceded (fun before block => ∀ id content, block = .result id content →
    ∃ name input, .use id name input ∈ before) blocks

/-- The calls and results of the history are carried, each one once and in their order, and
every result stands behind its call. -/
structure KeepsProtocol (history : List Message) (carried : List ToolBlock) : Prop where
  same : carried = historyTools history
  answered : Answered carried

/-- The results in messages of tools answer calls of earlier messages of the assistant. -/
def ResultsAnswer (history : List Message) : Prop :=
  History.Preceded (fun before message => message.role = .tool → ∀ id content,
    .result id content ∈ messageTools message → ∃ earlier ∈ before, earlier.role = .assistant ∧
      ∃ name input, .use id name input ∈ messageTools earlier) history

/-! ## What is carried -/

theorem flatMap_filter_sublist {α β : Type} (p : α → Bool) (f : α → List β) (l : List α) :
    ((l.filter p).flatMap f).Sublist (l.flatMap f) := by
  induction l with
  | nil => exact List.Sublist.refl _
  | cons x l ih =>
      rw [List.flatMap_cons]
      cases hx : p x with
      | true =>
          rw [List.filter_cons_of_pos hx, List.flatMap_cons]
          exact ih.append_left (f x)
      | false =>
          rw [List.filter_cons_of_neg (by simp [hx])]
          exact ih.trans (List.sublist_append_right (f x) _)

theorem flatMap_filter_eq_iff {α β : Type} (p : α → Bool) (f : α → List β) (l : List α) :
    (l.filter p).flatMap f = l.flatMap f ↔ ∀ x ∈ l, p x = false → f x = [] := by
  induction l with
  | nil => simp
  | cons x l ih =>
      rw [List.flatMap_cons, List.forall_mem_cons]
      cases hx : p x with
      | true =>
          rw [List.filter_cons_of_pos hx, List.flatMap_cons, List.append_cancel_left_eq, ih]
          exact (and_iff_right nofun).symm
      | false =>
          rw [List.filter_cons_of_neg (by simp [hx])]
          have hle := (flatMap_filter_sublist p f l).length_le
          constructor
          · intro heq
            have hempty : f x = [] := by
              have hlength := congrArg List.length heq
              rw [List.length_append] at hlength
              exact List.eq_nil_of_length_eq_zero (by omega)
            rw [hempty, List.nil_append] at heq
            exact ⟨fun _ => hempty, ih.mp heq⟩
          · intro ⟨hempty, hrest⟩
            rw [hempty rfl, List.nil_append]
            exact ih.mpr hrest

namespace Anthropic

theorem tool_convertPart (part : ContentPart) : (convertPart part).tool = toolPart part := by
  cases part with
  | image source => cases source <;> rfl
  | _ => rfl

theorem tools_convertMessage (message : Message) :
    (convertMessage message).tools ContentBlock.tool = messageTools message := by
  unfold convertMessage AnthropicMessage.tools messageTools
  cases message.content with
  | parts parts =>
      dsimp only [convertContent]
      rw [List.filterMap_map]
      exact List.filterMap_congr fun part _ => tool_convertPart part
  | _ => rfl

theorem carriedTools_convertMessages (history : List Message) :
    carriedTools ContentBlock.tool (convertMessages history) =
      (history.filter fun message => message.role ≠ .system).flatMap messageTools := by
  unfold carriedTools convertMessages
  rw [List.flatMap_map]
  congr 1
  funext message
  exact tools_convertMessage message

theorem keepsProtocol_iff (history : List Message) :
    KeepsProtocol history (carriedTools ContentBlock.tool (convertMessages history)) ↔
      (∀ message ∈ history, message.role = .system → messageTools message = []) ∧
        Answered (historyTools history) := by
  have hsame : carriedTools ContentBlock.tool (convertMessages history) = historyTools history ↔
      ∀ message ∈ history, message.role = .system → messageTools message = [] := by
    rw [carriedTools_convertMessages]
    unfold historyTools
    rw [flatMap_filter_eq_iff]
    simp
  constructor
  · intro h
    refine ⟨hsame.mp h.same, ?_⟩
    rw [← h.same]
    exact h.answered
  · intro ⟨hsystem, hanswered⟩
    have heq := hsame.mpr hsystem
    refine ⟨heq, ?_⟩
    rwa [heq]

end Anthropic

namespace AnthropicProvider

variable (render : Json → String)

theorem firstResult_mem {parts : List ContentPart} {block : AnthropicBlock}
    (h : firstResult parts = some block) :
    ∃ id content, block = .toolResult id content ∧
      .result id content ∈ parts.filterMap toolPart := by
  induction parts with
  | nil => cases h
  | cons part parts ih =>
      cases part with
      | toolResult toolCallId name content =>
          cases h
          exact ⟨toolCallId, content, rfl, List.mem_cons_self⟩
      | toolCall id name arguments =>
          rcases ih h with ⟨id', content, hblock, hmem⟩
          exact ⟨id', content, hblock, List.mem_cons_of_mem _ hmem⟩
      | _ => exact ih h

theorem tools_convertMessage {message : Message} {block : ToolBlock}
    (h : block ∈ (convertMessage render message).tools AnthropicBlock.tool) :
    block ∈ messageTools message ∧ ∃ id content, block = .result id content := by
  unfold convertMessage at h
  dsimp only at h
  split at h
  · cases hcontent : message.content with
    | parts parts =>
        rw [hcontent] at h
        dsimp only at h
        cases hfirst : firstResult parts with
        | none =>
            rw [hfirst] at h
            cases h
        | some found =>
            rcases firstResult_mem hfirst with ⟨id, content, hfound, hmem⟩
            rw [hfirst, hfound] at h
            unfold messageTools
            rw [hcontent]
            rw [List.mem_singleton.mp h]
            exact ⟨hmem, id, content, rfl⟩
    | _ =>
        rw [hcontent] at h
        cases h
  · cases h

theorem mem_carriedTools {history : List Message} {block : ToolBlock}
    (h : block ∈ carriedTools AnthropicBlock.tool (convertMessages render history)) :
    block ∈ historyTools history ∧ ∃ id content, block = .result id content := by
  unfold carriedTools convertMessages at h
  rw [List.flatMap_map] at h
  rcases List.mem_flatMap.mp h with ⟨message, hmessage, hblock⟩
  rcases tools_convertMessage render hblock with ⟨hmem, hresult⟩
  exact ⟨List.mem_flatMap.mpr ⟨message, (List.mem_filter.mp hmessage).1, hmem⟩, hresult⟩

theorem carriedTools_eq_nil_of_answered {history : List Message}
    (h : Answered (carriedTools AnthropicBlock.tool (convertMessages render history))) :
    carriedTools AnthropicBlock.tool (convertMessages render history) = [] := by
  cases hcarried : carriedTools AnthropicBlock.tool (convertMessages render history) with
  | nil => rfl
  | cons block blocks =>
      have hfirst : block ∈ carriedTools AnthropicBlock.tool (convertMessages render history) := by
        rw [hcarried]
        exact List.mem_cons_self
      rcases (mem_carriedTools render hfirst).2 with ⟨id, content, heq⟩
      rw [hcarried] at h
      rcases h [] block blocks rfl id content heq with ⟨_, _, hmem⟩
      cases hmem

theorem keepsProtocol_iff (history : List Message) :
    KeepsProtocol history (carriedTools AnthropicBlock.tool (convertMessages render history)) ↔
      historyTools history = [] := by
  constructor
  · intro h
    rw [← h.same]
    exact carriedTools_eq_nil_of_answered render h.answered
  · intro hnone
    have hcarried : carriedTools AnthropicBlock.tool (convertMessages render history) = [] := by
      apply List.eq_nil_iff_forall_not_mem.mpr
      intro block hblock
      have hmem := (mem_carriedTools render hblock).1
      rw [hnone] at hmem
      cases hmem
    rw [hcarried]
    exact ⟨hnone.symm, .nil⟩

end AnthropicProvider

/-! ## Both providers -/

theorem answered_historyTools {history : List Message} (hresults : ResultsAnswer history)
    (honly : ∀ message ∈ history, ∀ id content,
      .result id content ∈ messageTools message → message.role = .tool) :
    Answered (historyTools history) := by
  induction history using List.reverseRecOn with
  | nil => exact .nil
  | append_singleton history message ih =>
      have hbefore : Answered (historyTools history) := by
        apply ih
        · intro before earlier after heq
          exact hresults before earlier (after ++ [message]) (by rw [heq]; simp)
        · exact fun earlier hearlier => honly earlier (List.mem_append_left _ hearlier)
      unfold historyTools at hbefore ⊢
      rw [List.flatMap_append, List.flatMap_singleton]
      refine hbefore.trans (.of_forall fun block hblock before id content heq => ?_)
      rw [heq] at hblock
      have htool := honly message (by simp) id content hblock
      rcases hresults history message [] rfl htool id content hblock with
        ⟨earlier, hearlier, _, name, input, hcall⟩
      refine ⟨name, input, List.mem_append_left _ ?_⟩
      exact List.mem_flatMap.mpr ⟨earlier, hearlier, hcall⟩

/-- Both providers keep the protocol of tools exactly for the histories without tools. The
first one keeps it if calls and results are not in system messages and results are in
messages of tools only. -/
theorem toolProtocol_iff (render : Json → String) (history : List Message)
    (hresults : ResultsAnswer history) :
    (KeepsProtocol history (carriedTools AnthropicProvider.AnthropicBlock.tool
          (AnthropicProvider.convertMessages render history)) ∧
        KeepsProtocol history (carriedTools Anthropic.ContentBlock.tool
          (Anthropic.convertMessages history)) ↔
      historyTools history = []) ∧
    ((∀ message ∈ history, message.role = .system → messageTools message = []) →
      (∀ message ∈ history, ∀ id content,
        .result id content ∈ messageTools message → message.role = .tool) →
      KeepsProtocol history (carriedTools Anthropic.ContentBlock.tool
        (Anthropic.convertMessages history))) := by
  constructor
  · rw [AnthropicProvider.keepsProtocol_iff, Anthropic.keepsProtocol_iff]
    refine and_iff_left_of_imp ?_
    intro hnone
    constructor
    · exact fun message hmessage _ => List.flatMap_eq_nil_iff.mp hnone message hmessage
    · rw [hnone]
      exact .nil
  · intro hsystem honly
    exact (Anthropic.keepsProtocol_iff history).mpr
      ⟨hsystem, answered_historyTools hresults honly⟩

def searchHistory : List Message :=
  [{ role := .assistant, content := .parts [.toolCall "1" "search" .null] },
    Message.toolResult "1" "found"]

theorem searchHistory_answers : ResultsAnswer searchHistory := by
  refine (History.Preceded.nil.snoc nofun).snoc ?_
  intro _ id content hmem
  cases List.mem_singleton.mp hmem
  exact ⟨_, List.mem_singleton_self _, rfl, "search", .null, List.mem_singleton_self _⟩

theorem searchHistory_keepsProtocol :
    KeepsProtocol searchHistory (carriedTools Anthropic.ContentBlock.tool
      (Anthropic.convertMessages searchHistory)) := by
  refine (toolProtocol_iff (fun _ => "") searchHistory searchHistory_answers).2 ?_ ?_
  · simp [searchHistory, Message.toolResult]
  · simp [searchHistory, Message.toolResult, messageTools, toolPart]

/-- The agent's provider carries the result and not the call. -/
theorem searchHistory_call_lost : ResultsAnswer searchHistory ∧
    ¬KeepsProtocol searchHistory (carriedTools AnthropicProvider.AnthropicBlock.tool
      (AnthropicProvider.convertMessages (fun _ => "") searchHistory)) := by
  refine ⟨searchHistory_answers, ?_⟩
  intro h
  cases (AnthropicProvider.keepsProtocol_iff (fun _ => "") searchHistory).mp h

end BenShu.Providers
