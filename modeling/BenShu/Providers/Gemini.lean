import BenShu.Providers.SseStream

/-!
# The stream of a Gemini server

Chunks of text, thoughts and function calls. The parser yields one choice for a chunk:
its usage, or the end, or its first part that shows. What a chunk carries beside that is
not yielded, and a stream is delivered whole just when no chunk carries more.
-/

namespace BenShu.Providers.Gemini

open ByteCodec Framing

structure GeminiUsage where
  promptTokenCount : UInt32
  candidatesTokenCount : UInt32
  totalTokenCount : UInt32

structure ResponseFunctionCall where
  name : String
  args : Json

inductive ResponsePart where
  | text (text : String)
  | functionCall (call : ResponseFunctionCall)
  | thought (thought : String)

structure CandidateContent where
  parts : Option (List ResponsePart)

structure Candidate where
  content : Option CandidateContent
  finishReason : Option String

structure StreamChunk where
  candidates : Option (List Candidate)
  usageMetadata : Option GeminiUsage

def callId (toolCounter : Nat) : String := "call_" ++ toString toolCounter

/-- The first part that shows is the only one yielded. -/
def firstPart (toolCounter : Nat) : List ResponsePart → Nat × List StreamingChoice
  | [] => (toolCounter, [])
  | .text text :: parts =>
      if text ≠ "" then (toolCounter, [.message text]) else firstPart toolCounter parts
  | .functionCall call :: _ =>
      (toolCounter + 1, [.toolCall ⟨callId (toolCounter + 1), call.name, call.args⟩])
  | .thought thought :: parts =>
      if thought ≠ "" then (toolCounter, [.thought thought]) else firstPart toolCounter parts

namespace StreamChunk

def candidate? (chunk : StreamChunk) : Option Candidate := (chunk.candidates.getD []).head?

def parts (chunk : StreamChunk) : List ResponsePart :=
  ((chunk.candidate?.bind (·.content)).bind (·.parts)).getD []

def finishReason (chunk : StreamChunk) : Option String := chunk.candidate?.bind (·.finishReason)

end StreamChunk

def GeminiUsage.toUsage (usage : GeminiUsage) : Usage :=
  ⟨usage.promptTokenCount, usage.candidatesTokenCount, usage.totalTokenCount⟩

def handleChunk (toolCounter : Nat) (chunk : StreamChunk) : Nat × List StreamingChoice :=
  match chunk.usageMetadata with
  | some usage => (toolCounter, [.usage usage.toUsage])
  | none =>
      if chunk.finishReason = some "STOP" then (toolCounter, [.done])
      else firstPart toolCounter chunk.parts

variable (serde : SerdeJson StreamChunk)

def handleMessage (toolCounter : Nat) (line : String) : Nat × List StreamingChoice :=
  match Text.afterStart? line "data: " with
  | none => (toolCounter, [])
  | some data =>
      match serde.fromStr data with
      | none => (toolCounter, [])
      | some chunk => handleChunk toolCounter chunk

def parseGeminiStream (stream : List (Except String (List UInt8))) :
    List (Except StreamError StreamingChoice) :=
  (readStream (handleMessage serde) .new 0 stream).flatMap Turn.items

/-! ## What a stream of chunks should come to -/

inductive Content where
  | text (text : String)
  | call (call : ResponseFunctionCall)
  | thought (thought : String)

def partContent? : ResponsePart → Option Content
  | .text text => if text ≠ "" then some (.text text) else none
  | .functionCall call => some (.call call)
  | .thought thought => if thought ≠ "" then some (.thought thought) else none

def StreamChunk.contents (chunk : StreamChunk) : List Content :=
  chunk.parts.filterMap partContent?

def contentOf : StreamingChoice → Option Content
  | .message text => some (.text text)
  | .toolCall call => some (.call ⟨call.name, call.arguments⟩)
  | .thought thought => some (.thought thought)
  | _ => none

def callIdOf : StreamingChoice → Option String
  | .toolCall call => some call.id
  | _ => none

def usageOf : StreamingChoice → Option Usage
  | .usage usage => some usage
  | _ => none

/-- The choices lose nothing of the chunks, and end no earlier than they do. -/
structure Delivered (chunks : List StreamChunk) (choices : List StreamingChoice) : Prop where
  contents : choices.filterMap contentOf = chunks.flatMap StreamChunk.contents
  callIds : (choices.filterMap callIdOf).Nodup
  usage : choices.filterMap usageOf =
    chunks.filterMap fun chunk => chunk.usageMetadata.map GeminiUsage.toUsage
  done : ∀ before chunk after, chunks = before ++ chunk :: after → chunk.finishReason.isSome →
    (∀ earlier ∈ before, earlier.finishReason = none) →
      ∃ yielded later, choices = yielded ++ .done :: later ∧ .done ∉ yielded ∧
        (before ++ [chunk]).flatMap StreamChunk.contents <+: yielded.filterMap contentOf

/-- One part that shows at most, and none beside usage or the reason `STOP`. -/
def StreamChunk.Single (chunk : StreamChunk) : Prop :=
  chunk.contents = [] ∨
    (chunk.contents.length = 1 ∧ chunk.usageMetadata = none ∧ chunk.finishReason ≠ some "STOP")

def StreamChunk.Ends (chunk : StreamChunk) : Prop :=
  chunk.usageMetadata = none ∧ chunk.finishReason = some "STOP"

/-! ## What the parser makes of one chunk -/

section Chunk

variable {chunk : StreamChunk}

theorem firstPart_contents (toolCounter : Nat) (parts : List ResponsePart) :
    (firstPart toolCounter parts).2.filterMap contentOf =
      (parts.filterMap partContent?).take 1 := by
  induction parts with
  | nil => rfl
  | cons part parts ih =>
      cases part with
      | text text =>
          by_cases htext : text = ""
          · simpa [firstPart, partContent?, htext] using ih
          · simp [firstPart, partContent?, htext, contentOf]
      | functionCall call => rfl
      | thought thought =>
          by_cases hthought : thought = ""
          · simpa [firstPart, partContent?, hthought] using ih
          · simp [firstPart, partContent?, hthought, contentOf]

/-- What the first part yields: neither usage nor the end, and one new number for a call. -/
theorem firstPart_yields (toolCounter : Nat) (parts : List ResponsePart) :
    (firstPart toolCounter parts).2.filterMap usageOf = [] ∧
      .done ∉ (firstPart toolCounter parts).2 ∧
      (((firstPart toolCounter parts).1 = toolCounter ∧
          (firstPart toolCounter parts).2.filterMap callIdOf = []) ∨
        ((firstPart toolCounter parts).1 = toolCounter + 1 ∧
          (firstPart toolCounter parts).2.filterMap callIdOf = [callId (toolCounter + 1)])) := by
  induction parts with
  | nil => exact ⟨rfl, List.not_mem_nil, .inl ⟨rfl, rfl⟩⟩
  | cons part parts ih =>
      cases part with
      | text text =>
          unfold firstPart
          split
          · exact ⟨rfl, by simp, .inl ⟨rfl, rfl⟩⟩
          · exact ih
      | functionCall call => exact ⟨rfl, by simp [firstPart], .inr ⟨rfl, rfl⟩⟩
      | thought thought =>
          unfold firstPart
          split
          · exact ⟨rfl, by simp, .inl ⟨rfl, rfl⟩⟩
          · exact ih

theorem handleChunk_of_usage {usage : GeminiUsage} (toolCounter : Nat)
    (h : chunk.usageMetadata = some usage) :
    handleChunk toolCounter chunk = (toolCounter, [.usage usage.toUsage]) := by
  unfold handleChunk
  rw [h]

theorem handleChunk_of_ends (toolCounter : Nat) (h : chunk.Ends) :
    handleChunk toolCounter chunk = (toolCounter, [.done]) := by
  unfold handleChunk
  rw [h.1, if_pos h.2]

theorem handleChunk_of_parts (toolCounter : Nat) (husage : chunk.usageMetadata = none)
    (hstop : chunk.finishReason ≠ some "STOP") :
    handleChunk toolCounter chunk = firstPart toolCounter chunk.parts := by
  unfold handleChunk
  rw [husage, if_neg hstop]

def StreamChunk.deliveredContents (chunk : StreamChunk) : List Content :=
  if chunk.usageMetadata.isSome ∨ chunk.finishReason = some "STOP" then []
  else chunk.contents.take 1

theorem handleChunk_contents (toolCounter : Nat) :
    (handleChunk toolCounter chunk).2.filterMap contentOf = chunk.deliveredContents := by
  unfold StreamChunk.deliveredContents
  rcases Option.eq_none_or_eq_some chunk.usageMetadata with husage | ⟨usage, husage⟩
  · by_cases hstop : chunk.finishReason = some "STOP"
    · rw [handleChunk_of_ends toolCounter ⟨husage, hstop⟩, if_pos (.inr hstop)]
      rfl
    · rw [handleChunk_of_parts toolCounter husage hstop, firstPart_contents,
        if_neg (by simp [husage, hstop])]
      rfl
  · rw [handleChunk_of_usage toolCounter husage, if_pos (.inl (by rw [husage]; rfl))]
    rfl

theorem handleChunk_usage (toolCounter : Nat) :
    (handleChunk toolCounter chunk).2.filterMap usageOf =
      (chunk.usageMetadata.map GeminiUsage.toUsage).toList := by
  rcases Option.eq_none_or_eq_some chunk.usageMetadata with husage | ⟨usage, husage⟩
  · rw [husage]
    by_cases hstop : chunk.finishReason = some "STOP"
    · rw [handleChunk_of_ends toolCounter ⟨husage, hstop⟩]
      rfl
    · rw [handleChunk_of_parts toolCounter husage hstop]
      exact (firstPart_yields toolCounter chunk.parts).1
  · rw [handleChunk_of_usage toolCounter husage, husage]
    rfl

theorem handleChunk_callIds (toolCounter : Nat) :
    ((handleChunk toolCounter chunk).1 = toolCounter ∧
        (handleChunk toolCounter chunk).2.filterMap callIdOf = []) ∨
      ((handleChunk toolCounter chunk).1 = toolCounter + 1 ∧
        (handleChunk toolCounter chunk).2.filterMap callIdOf = [callId (toolCounter + 1)]) := by
  rcases Option.eq_none_or_eq_some chunk.usageMetadata with husage | ⟨usage, husage⟩
  · by_cases hstop : chunk.finishReason = some "STOP"
    · rw [handleChunk_of_ends toolCounter ⟨husage, hstop⟩]
      exact .inl ⟨rfl, rfl⟩
    · rw [handleChunk_of_parts toolCounter husage hstop]
      exact (firstPart_yields toolCounter chunk.parts).2.2
  · rw [handleChunk_of_usage toolCounter husage]
    exact .inl ⟨rfl, rfl⟩

theorem done_mem_handleChunk_iff (toolCounter : Nat) :
    .done ∈ (handleChunk toolCounter chunk).2 ↔ chunk.Ends := by
  rcases Option.eq_none_or_eq_some chunk.usageMetadata with husage | ⟨usage, husage⟩
  · by_cases hstop : chunk.finishReason = some "STOP"
    · rw [handleChunk_of_ends toolCounter ⟨husage, hstop⟩]
      exact ⟨fun _ => ⟨husage, hstop⟩, fun _ => List.mem_singleton_self _⟩
    · rw [handleChunk_of_parts toolCounter husage hstop]
      exact ⟨fun h => absurd h (firstPart_yields toolCounter chunk.parts).2.1,
        fun h => absurd h.2 hstop⟩
  · rw [handleChunk_of_usage toolCounter husage]
    constructor
    · intro h
      cases List.mem_singleton.mp h
    · intro h
      rw [h.1] at husage
      cases husage

theorem deliveredContents_sublist : (chunk.deliveredContents).Sublist chunk.contents := by
  unfold StreamChunk.deliveredContents
  split
  · exact List.nil_sublist _
  · exact List.take_sublist 1 _

theorem deliveredContents_eq_iff : chunk.deliveredContents = chunk.contents ↔ chunk.Single := by
  unfold StreamChunk.deliveredContents StreamChunk.Single
  by_cases hhidden : chunk.usageMetadata.isSome ∨ chunk.finishReason = some "STOP"
  · rw [if_pos hhidden]
    constructor
    · exact fun h => .inl h.symm
    · rintro (h | ⟨-, husage, hstop⟩)
      · exact h.symm
      · rcases hhidden with h | h
        · rw [husage] at h
          cases h
        · exact absurd h hstop
  · rw [if_neg hhidden]
    rw [not_or, Bool.not_eq_true, Option.isSome_eq_false_iff, Option.isNone_iff_eq_none] at hhidden
    rcases chunk.contents with _ | ⟨content, _ | ⟨second, contents⟩⟩
    · simp
    · simp [hhidden]
    · simp

end Chunk

end BenShu.Providers.Gemini
