import BenShu.Lib.ByteCodec
import BenShu.Lib.Framing
import BenShu.Lib.Json
import BenShu.Lib.Table

/-!
# Streamed completions

What a provider's answer is made of, the buffer that cuts server-sent events out of the
bytes as they arrive, and the loop every stream parser runs over them.
-/

namespace BenShu.Providers

open ByteCodec Framing

structure ToolCall where
  id : String
  name : String
  arguments : Json

structure Usage where
  promptTokens : UInt32
  completionTokens : UInt32
  totalTokens : UInt32
deriving DecidableEq

inductive FinishReason where
  | stop
  | toolCalls
  | length
  | contentFilter
  | cancelled
  | error
  | other (reason : String)
deriving DecidableEq

structure ContinuationTelemetry where
  mode : String
  cacheSource : String
  promptTokens : Option UInt32
  toolExactReplayUsed : Bool
deriving DecidableEq

structure ProviderTelemetry where
  providerName : Option String
  continuation : Option ContinuationTelemetry
deriving DecidableEq

inductive StreamingChoice where
  | message (text : String)
  | toolCall (call : ToolCall)
  | parallelToolCalls (calls : Table Nat ToolCall)
  | thought (text : String)
  | usage (usage : Usage)
  | finish (reason : FinishReason)
  | telemetry (telemetry : ProviderTelemetry)
  | done

inductive StreamError where
  | streamInterrupted (text : String)
  | http (text : String)

/-- What the JSON library makes of a text: a record of the wire, or any value. -/
structure SerdeJson (χ : Type) where
  fromStr : String → Option χ
  valueFromStr : String → Option Json

/-! ## The buffer -/

structure SseBuffer where
  buffer : List UInt8
  maxCapacity : Nat

namespace SseBuffer

def new : SseBuffer := ⟨[], 10 * 1024 * 1024⟩

def extendFromSlice (b : SseBuffer) (bytes : List UInt8) : Except StreamError SseBuffer :=
  if b.buffer.length + bytes.length > b.maxCapacity then
    .error (.streamInterrupted
      s!"SSE buffer exceeded max capacity of {b.maxCapacity} bytes")
  else .ok { b with buffer := b.buffer ++ bytes }

end SseBuffer

/-- Position and length of the first blank line, with LF or CRLF line ends. -/
def findSseDelimiter : List UInt8 → Option (Nat × Nat)
  | [] => none
  | byte :: bytes =>
      if [10, 10].isPrefixOf (byte :: bytes) then some (0, 2)
      else if [13, 10, 13, 10].isPrefixOf (byte :: bytes) then some (0, 4)
      else (findSseDelimiter bytes).map fun found => (found.1 + 1, found.2)

def decodeUtf8 (bytes : List UInt8) : Option String := String.fromUTF8? ⟨bytes.toArray⟩

/-- Every turn of the loop takes a message off the buffer, so its length is enough fuel. -/
def SseBuffer.extractAux : Nat → SseBuffer → List String →
    SseBuffer × Except StreamError (List String)
  | 0, b, messages => (b, .ok messages)
  | fuel + 1, b, messages =>
      match findSseDelimiter b.buffer with
      | none => (b, .ok messages)
      | some (pos, delimiterLen) =>
          let chunk := b.buffer.take (pos + delimiterLen)
          let b := { b with buffer := b.buffer.drop (pos + delimiterLen) }
          match decodeUtf8 chunk with
          | some s => extractAux fuel b (messages ++ [s])
          | none => (b, .error (.streamInterrupted "Invalid UTF-8 in SSE stream"))

def SseBuffer.extractMessages (b : SseBuffer) : SseBuffer × Except StreamError (List String) :=
  b.extractAux b.buffer.length []

/-! ## The parsing loop -/

/-- One turn of the loop: a message read, with what it yields, or an error. -/
inductive Turn where
  | message (choices : List StreamingChoice)
  | failure (error : StreamError)

def Turn.items : Turn → List (Except StreamError StreamingChoice)
  | .message choices => choices.map .ok
  | .failure error => [.error error]

section Loop

variable {σ μ : Type}

def handleAll (handle : σ → μ → σ × List StreamingChoice) :
    σ → List μ → σ × List (List StreamingChoice)
  | s, [] => (s, [])
  | s, message :: messages =>
      ((handleAll handle (handle s message).1 messages).1,
        (handle s message).2 :: (handleAll handle (handle s message).1 messages).2)

/-- The pending messages are worked off before the next bytes are asked for. -/
def readStream (handle : σ → String → σ × List StreamingChoice) :
    SseBuffer → σ → List (Except String (List UInt8)) → List Turn
  | _, _, [] => []
  | b, s, .error e :: fragments => .failure (.http e) :: readStream handle b s fragments
  | b, s, .ok bytes :: fragments =>
      match b.extendFromSlice bytes with
      | .error e => .failure e :: readStream handle b s fragments
      | .ok b =>
          match b.extractMessages with
          | (b, .error e) => .failure e :: readStream handle b s fragments
          | (b, .ok messages) =>
              (handleAll handle s messages).2.map .message ++
                readStream handle b (handleAll handle s messages).1 fragments

end Loop

/-! ## Messages are frames -/

theorem findSseDelimiter_cons {byte : UInt8} {bytes : List UInt8}
    (hlf : ¬ [10, 10] <+: byte :: bytes) (hcrlf : ¬ [13, 10, 13, 10] <+: byte :: bytes) :
    findSseDelimiter (byte :: bytes) =
      (findSseDelimiter bytes).map fun found => (found.1 + 1, found.2) := by
  rw [findSseDelimiter, if_neg (by rwa [List.isPrefixOf_iff_prefix]),
    if_neg (by rwa [List.isPrefixOf_iff_prefix])]

theorem findSseDelimiter_bounds {bytes : List UInt8} {found : Nat × Nat}
    (h : findSseDelimiter bytes = some found) :
    0 < found.2 ∧ found.1 + found.2 ≤ bytes.length := by
  induction bytes generalizing found with
  | nil => cases h
  | cons byte bytes ih =>
      by_cases hlf : [10, 10] <+: byte :: bytes
      · rw [findSseDelimiter, if_pos (by rwa [List.isPrefixOf_iff_prefix])] at h
        cases h
        exact ⟨by decide, hlf.length_le⟩
      · by_cases hcrlf : [13, 10, 13, 10] <+: byte :: bytes
        · rw [findSseDelimiter, if_neg (by rwa [List.isPrefixOf_iff_prefix]),
            if_pos (by rwa [List.isPrefixOf_iff_prefix])] at h
          cases h
          exact ⟨by decide, hcrlf.length_le⟩
        · rw [findSseDelimiter_cons hlf hcrlf, Option.map_eq_some_iff] at h
          rcases h with ⟨found', hfound, rfl⟩
          have hbounds := ih hfound
          rw [List.length_cons]
          exact ⟨hbounds.1, by omega⟩

theorem findSseDelimiter_incomplete {delimiter bytes : List UInt8} (hshort : bytes <+: delimiter)
    (hdelimiter : delimiter = [10, 10] ∨ delimiter = [13, 10, 13, 10])
    (hproper : bytes ≠ delimiter) : findSseDelimiter bytes = none := by
  rcases hshort with ⟨missing, hmissing⟩
  rcases hdelimiter with rfl | rfl
  · rcases bytes with _ | ⟨a, _ | ⟨b, _ | ⟨c, bytes⟩⟩⟩
    · rfl
    · simp only [List.cons_append, List.cons.injEq] at hmissing
      rw [hmissing.1]
      decide
    · simp_all
    · simp_all
  · rcases bytes with _ | ⟨a, _ | ⟨b, _ | ⟨c, _ | ⟨d, _ | ⟨e, bytes⟩⟩⟩⟩⟩
    · rfl
    · simp only [List.cons_append, List.cons.injEq] at hmissing
      rw [hmissing.1]
      decide
    · simp only [List.cons_append, List.cons.injEq] at hmissing
      rw [hmissing.1, hmissing.2.1]
      decide
    · simp only [List.cons_append, List.cons.injEq] at hmissing
      rw [hmissing.1, hmissing.2.1, hmissing.2.2.1]
      decide
    · simp_all
    · simp_all

theorem prefix_of_append {delimiter bytes more : List UInt8} (h : delimiter <+: bytes ++ more) :
    delimiter <+: bytes ∨ (bytes <+: delimiter ∧ bytes ≠ delimiter) := by
  rcases List.prefix_or_prefix_of_prefix h (List.prefix_append bytes more) with hshort | hshort
  · exact .inl hshort
  · by_cases heq : bytes = delimiter
    · exact .inl ⟨[], by rw [List.append_nil, heq]⟩
    · exact .inr ⟨hshort, heq⟩

theorem findSseDelimiter_append {bytes : List UInt8} {found : Nat × Nat}
    (h : findSseDelimiter bytes = some found) (more : List UInt8) :
    findSseDelimiter (bytes ++ more) = some found := by
  induction bytes generalizing found with
  | nil => cases h
  | cons byte bytes ih =>
      by_cases hlf : [10, 10] <+: byte :: bytes
      · rw [findSseDelimiter, if_pos (by rwa [List.isPrefixOf_iff_prefix])] at h
        rw [List.cons_append, findSseDelimiter, ← List.cons_append,
          if_pos (by rw [List.isPrefixOf_iff_prefix]; exact hlf.trans (List.prefix_append _ _))]
        exact h
      · have hlf' : ¬ [10, 10] <+: byte :: (bytes ++ more) := fun hmore => by
          rcases @prefix_of_append _ (byte :: bytes) more hmore with hwhole | ⟨hshort, hproper⟩
          · exact hlf hwhole
          · rw [findSseDelimiter_incomplete hshort (.inl rfl) hproper] at h
            cases h
        by_cases hcrlf : [13, 10, 13, 10] <+: byte :: bytes
        · rw [findSseDelimiter, if_neg (by rwa [List.isPrefixOf_iff_prefix]),
            if_pos (by rwa [List.isPrefixOf_iff_prefix])] at h
          rw [List.cons_append, findSseDelimiter, if_neg (by rwa [List.isPrefixOf_iff_prefix]),
            ← List.cons_append,
            if_pos (by rw [List.isPrefixOf_iff_prefix]; exact hcrlf.trans (List.prefix_append _ _))]
          exact h
        · have hcrlf' : ¬ [13, 10, 13, 10] <+: byte :: (bytes ++ more) := fun hmore => by
            rcases @prefix_of_append _ (byte :: bytes) more hmore with hwhole | ⟨hshort, hproper⟩
            · exact hcrlf hwhole
            · rw [findSseDelimiter_incomplete hshort (.inr rfl) hproper] at h
              cases h
          rw [findSseDelimiter_cons hlf hcrlf, Option.map_eq_some_iff] at h
          rcases h with ⟨found', hfound, rfl⟩
          rw [List.cons_append, findSseDelimiter_cons hlf' hcrlf', ih hfound]
          rfl

/-- A server-sent event ends with its first blank line. -/
def sseCutter : Cutter UInt8 where
  cut bytes := (findSseDelimiter bytes).map fun found => found.1 + found.2
  pos h := by
    rcases Option.map_eq_some_iff.mp h with ⟨found, hfound, rfl⟩
    have hbounds := findSseDelimiter_bounds hfound
    omega
  le_length h := by
    rcases Option.map_eq_some_iff.mp h with ⟨found, hfound, rfl⟩
    exact (findSseDelimiter_bounds hfound).2
  append more h := by
    rcases Option.map_eq_some_iff.mp h with ⟨found, hfound, rfl⟩
    rw [findSseDelimiter_append hfound more]
    rfl

end BenShu.Providers
