import BenShu.Lib.Text
import BenShu.Providers.Streaming

/-!
# Streams of whole messages

However the bytes of a stream are divided into fragments, the parsing loop reads the
messages that were sent, in order, as long as no fragment overfills the buffer.
-/

namespace BenShu.Providers

open ByteCodec Framing

/-- The text is one server-sent event: its first blank line ends it. -/
def IsSseMessage (text : String) : Prop := IsFrame sseCutter (utf8 text)

/-- No fragment overfills a buffer that already holds the bytes `held`. -/
def Fits (maxCapacity : Nat) : List UInt8 → List (List UInt8) → Prop
  | _, [] => True
  | held, fragment :: fragments =>
      held.length + fragment.length ≤ maxCapacity ∧
        Fits maxCapacity (rest sseCutter (held ++ fragment)) fragments

instance decidableFits (maxCapacity : Nat) :
    ∀ (held : List UInt8) (fragments : List (List UInt8)), Decidable (Fits maxCapacity held fragments)
  | _, [] => instDecidableTrue
  | held, fragment :: fragments =>
      @instDecidableAnd _ _ inferInstance
        (decidableFits maxCapacity (rest sseCutter (held ++ fragment)) fragments)

theorem decodeUtf8_utf8 (s : String) : decodeUtf8 (utf8 s) = some s := by
  have hbytes : (⟨(utf8 s).toArray⟩ : ByteArray) = s.toByteArray := rfl
  unfold decodeUtf8 String.fromUTF8?
  rw [hbytes, dif_pos s.isValidUTF8]
  rfl

theorem cut_eq_none_iff {bytes : List UInt8} :
    sseCutter.cut bytes = none ↔ findSseDelimiter bytes = none :=
  Option.map_eq_none_iff

theorem extractAux_ok {fuel : Nat} {b : SseBuffer} {texts : List String} (messages : List String)
    (hfuel : b.buffer.length ≤ fuel) (hframes : (frames sseCutter b.buffer).1 = texts.map utf8) :
    b.extractAux fuel messages =
      ({ b with buffer := rest sseCutter b.buffer }, .ok (messages ++ texts)) := by
  induction texts generalizing fuel b messages with
  | nil =>
      have hnone : sseCutter.cut b.buffer = none := by
        cases hcut : sseCutter.cut b.buffer with
        | none => rfl
        | some n =>
            rw [frames_of_some hcut] at hframes
            cases hframes
      have hrest : rest sseCutter b.buffer = b.buffer := by
        unfold rest
        rw [frames_of_none hnone]
      rw [hrest, List.append_nil]
      cases fuel with
      | zero => rfl
      | succ fuel =>
          unfold SseBuffer.extractAux
          rw [cut_eq_none_iff.mp hnone]
  | cons text texts ih =>
      cases hcut : sseCutter.cut b.buffer with
      | none =>
          rw [frames_of_none hcut] at hframes
          cases hframes
      | some n =>
          rcases Option.map_eq_some_iff.mp hcut with ⟨found, hfound, rfl⟩
          have hpos := sseCutter.pos hcut
          have hle := sseCutter.le_length hcut
          rw [frames_of_some hcut, List.map_cons, List.cons.injEq] at hframes
          obtain ⟨fuel, rfl⟩ : ∃ k, fuel = k + 1 := ⟨fuel - 1, by omega⟩
          have hshort : (b.buffer.drop (found.1 + found.2)).length ≤ fuel := by
            rw [List.length_drop]
            omega
          have hlater := @ih fuel { b with buffer := b.buffer.drop (found.1 + found.2) }
            (messages ++ [text]) hshort hframes.2
          have hrest : rest sseCutter b.buffer =
              rest sseCutter (b.buffer.drop (found.1 + found.2)) := by
            unfold rest
            rw [frames_of_some hcut]
          unfold SseBuffer.extractAux
          rw [hfound]
          dsimp only
          rw [hframes.1, decodeUtf8_utf8]
          dsimp only
          rw [hlater, hrest, List.append_assoc]
          rfl

section Loop

variable {σ μ : Type} {handle : σ → String → σ × List StreamingChoice}

theorem handleAll_append {handle : σ → μ → σ × List StreamingChoice} (s : σ)
    (messages messages' : List μ) :
    handleAll handle s (messages ++ messages') =
      ((handleAll handle (handleAll handle s messages).1 messages').1,
        (handleAll handle s messages).2 ++
          (handleAll handle (handleAll handle s messages).1 messages').2) := by
  induction messages generalizing s with
  | nil => rfl
  | cons message messages ih =>
      rw [List.cons_append, handleAll, ih]
      rfl

theorem handleAll_singleton {handle : σ → μ → σ × List StreamingChoice} (s : σ) (message : μ) :
    handleAll handle s [message] = ((handle s message).1, [(handle s message).2]) := rfl

/-- What each message yields, whatever the state, adds up over all of them. -/
theorem handleAll_flatMap {α : Type} {handle : σ → μ → σ × List StreamingChoice}
    {f : StreamingChoice → List α} {g : μ → List α} {messages : List μ}
    (h : ∀ message ∈ messages, ∀ s, (handle s message).2.flatMap f = g message) (s : σ) :
    (handleAll handle s messages).2.flatten.flatMap f = messages.flatMap g := by
  induction messages generalizing s with
  | nil => rfl
  | cons message messages ih =>
      have hlater := ih fun m hm => h m (List.mem_cons_of_mem _ hm)
      rw [handleAll, List.flatten_cons, List.flatMap_append, h message List.mem_cons_self, hlater,
        List.flatMap_cons]

theorem length_handleAll {handle : σ → μ → σ × List StreamingChoice} (s : σ)
    (messages : List μ) : (handleAll handle s messages).2.length = messages.length := by
  induction messages generalizing s with
  | nil => rfl
  | cons message messages ih => rw [handleAll, List.length_cons, List.length_cons, ih]

theorem readStream_fragment {b : SseBuffer} {s : σ} {fragment : List UInt8} {texts : List String}
    {fragments : List (Except String (List UInt8))}
    (hfits : b.buffer.length + fragment.length ≤ b.maxCapacity)
    (hframes : (frames sseCutter (b.buffer ++ fragment)).1 = texts.map utf8) :
    readStream handle b s (.ok fragment :: fragments) =
      (handleAll handle s texts).2.map .message ++
        readStream handle { b with buffer := rest sseCutter (b.buffer ++ fragment) }
          (handleAll handle s texts).1 fragments := by
  have hextend : b.extendFromSlice fragment = .ok { b with buffer := b.buffer ++ fragment } :=
    if_neg (Nat.not_lt.mpr hfits)
  have hextract := @extractAux_ok _ { b with buffer := b.buffer ++ fragment } texts []
    (Nat.le_refl _) hframes
  rw [readStream, hextend]
  dsimp only
  unfold SseBuffer.extractMessages
  rw [hextract]
  rfl

theorem fragment_completes {held fragment : List UInt8} {fragments : List (List UInt8)}
    {texts : List String} (hmessages : ∀ text ∈ texts, IsSseMessage text)
    (hbytes : held ++ (fragment :: fragments).flatten = (texts.map utf8).flatten) :
    ∃ now later, texts = now ++ later ∧
      (frames sseCutter (held ++ fragment)).1 = now.map utf8 ∧
      rest sseCutter (held ++ fragment) ++ fragments.flatten = (later.map utf8).flatten := by
  have hwhole : frames sseCutter (texts.map utf8).flatten = (texts.map utf8, []) := by
    apply frames_flatten
    rintro bytes hbytes
    rcases List.mem_map.mp hbytes with ⟨text, htext, rfl⟩
    exact hmessages text htext
  have hsplit := @frames_append _ sseCutter (held ++ fragment) fragments.flatten
  rw [List.flatten_cons, ← List.append_assoc] at hbytes
  rw [hbytes, hwhole, Prod.mk.injEq] at hsplit
  rcases List.map_eq_append_iff.mp hsplit.1 with ⟨now, later, rfl, hnow, hlater⟩
  refine ⟨now, later, rfl, hnow.symm, ?_⟩
  rw [hlater]
  have hjoin := @frames_join _ sseCutter (rest sseCutter (held ++ fragment) ++ fragments.flatten)
  rw [← hsplit.2, List.append_nil] at hjoin
  exact hjoin.symm

/-- The loop reads just the messages that were sent, however their bytes are divided. -/
theorem readStream_of_fits {b : SseBuffer} {s : σ} {texts : List String}
    {fragments : List (List UInt8)} (hmessages : ∀ text ∈ texts, IsSseMessage text)
    (hheld : sseCutter.cut b.buffer = none)
    (hbytes : b.buffer ++ fragments.flatten = (texts.map utf8).flatten)
    (hfits : Fits b.maxCapacity b.buffer fragments) :
    readStream handle b s (fragments.map .ok) = (handleAll handle s texts).2.map .message := by
  induction fragments generalizing b s texts with
  | nil =>
      cases texts with
      | nil => rfl
      | cons text texts =>
          rw [List.flatten_nil, List.append_nil] at hbytes
          rw [hbytes, List.map_cons, List.flatten_cons,
            sseCutter.append _ (hmessages text List.mem_cons_self)] at hheld
          cases hheld
  | cons fragment fragments ih =>
      rcases fragment_completes hmessages hbytes with ⟨now, later, rfl, hnow, hlater⟩
      rw [List.map_cons, readStream_fragment hfits.1 hnow,
        ih (fun text htext => hmessages text (List.mem_append_right _ htext)) (cut_rest _) hlater
          hfits.2, handleAll_append, List.map_append]

theorem handleAll_map {ν : Type} {handle : σ → μ → σ × List StreamingChoice}
    {handle' : σ → ν → σ × List StreamingChoice} {f : ν → μ} {messages : List ν}
    (h : ∀ message ∈ messages, ∀ s, handle s (f message) = handle' s message) (s : σ) :
    handleAll handle s (messages.map f) = handleAll handle' s messages := by
  induction messages generalizing s with
  | nil => rfl
  | cons message messages ih =>
      rw [List.map_cons, handleAll, handleAll, h message List.mem_cons_self,
        ih fun m hm => h m (List.mem_cons_of_mem _ hm)]

theorem readStream_of_not_fits {b : SseBuffer} {s : σ} {texts : List String}
    {fragments : List (List UInt8)} (hmessages : ∀ text ∈ texts, IsSseMessage text)
    (hbytes : b.buffer ++ fragments.flatten = (texts.map utf8).flatten)
    (hfits : ¬ Fits b.maxCapacity b.buffer fragments) :
    ∃ error, Turn.failure error ∈ readStream handle b s (fragments.map .ok) := by
  induction fragments generalizing b s texts with
  | nil => exact absurd trivial hfits
  | cons fragment fragments ih =>
      by_cases hfirst : b.buffer.length + fragment.length ≤ b.maxCapacity
      · rcases fragment_completes hmessages hbytes with ⟨now, later, rfl, hnow, hlater⟩
        have hrest := @ih { b with buffer := rest sseCutter (b.buffer ++ fragment) }
          (handleAll handle s now).1 later
          (fun text htext => hmessages text (List.mem_append_right _ htext)) hlater
          fun h => hfits ⟨hfirst, h⟩
        rcases hrest with ⟨error, herror⟩
        refine ⟨error, ?_⟩
        rw [List.map_cons, readStream_fragment hfirst hnow]
        exact List.mem_append_right _ herror
      · refine ⟨.streamInterrupted s!"SSE buffer exceeded max capacity of {b.maxCapacity} bytes", ?_⟩
        rw [List.map_cons, readStream, SseBuffer.extendFromSlice, if_pos (Nat.not_le.mp hfirst)]
        exact List.mem_cons_self

end Loop

/-! ## Events as lines of text -/

def sseText (lineEnd : String) (lines : List String) : String :=
  lines.foldr (fun line later => line ++ lineEnd ++ later) lineEnd

/-- Some text, and no line break in it. -/
structure IsLine (line : String) : Prop where
  nonempty : line ≠ ""
  noBreak : ∀ c ∈ line.toList, c ≠ '\n' ∧ c ≠ '\r'

theorem IsLine.after {start line : String} (h : IsLine line)
    (hstart : ∀ c ∈ start.toList, c ≠ '\n' ∧ c ≠ '\r') : IsLine (start ++ line) := by
  constructor
  · intro hempty
    have hchars := congrArg String.toList hempty
    rw [String.toList_append, String.toList_empty, List.append_eq_nil_iff] at hchars
    exact h.nonempty (String.toList_inj.mp hchars.2)
  · intro c hc
    rw [String.toList_append, List.mem_append] at hc
    exact hc.elim (hstart c) (h.noBreak c)

theorem dataLine_payload (lineEnd json : String) :
    Text.afterStart? (sseText lineEnd ["data: " ++ json]) "data: " =
      some (json ++ (lineEnd ++ lineEnd)) := by
  have htext : sseText lineEnd ["data: " ++ json] = "data: " ++ (json ++ (lineEnd ++ lineEnd)) := by
    simp only [sseText, List.foldr_cons, List.foldr_nil, String.append_assoc]
  rw [htext, Text.afterStart?_append]

instance (line : String) : Decidable (IsLine line) :=
  decidable_of_iff (line ≠ "" ∧ (line.toList.all fun c => c ≠ '\n' ∧ c ≠ '\r') = true)
    ⟨fun h => ⟨h.1, by simpa using h.2⟩, fun h => ⟨h.nonempty, by simpa using h.noBreak⟩⟩

def IsLineEnd (lineEnd : String) : Prop := lineEnd = "\n" ∨ lineEnd = "\r\n"

instance (lineEnd : String) : Decidable (IsLineEnd lineEnd) :=
  inferInstanceAs (Decidable (lineEnd = "\n" ∨ lineEnd = "\r\n"))

/-- White space after a JSON text does not matter, and an empty text is not JSON. -/
structure SerdeJson.Reads {χ : Type} (serde : SerdeJson χ) : Prop where
  trailing : ∀ text lineEnd, IsLineEnd lineEnd →
    serde.fromStr (text ++ (lineEnd ++ lineEnd)) = serde.fromStr text
  empty : serde.valueFromStr "" = none

theorem byte_of_mem_utf8EncodeChar {c : Char} {byte : UInt8} (h : byte ∈ String.utf8EncodeChar c)
    (hascii : byte.toNat < 128) : c.toNat = byte.toNat := by
  unfold String.utf8EncodeChar at h
  simp only at h
  split at h
  · rw [List.mem_singleton] at h
    rw [h, UInt8.toNat_ofNat']
    show c.val.toNat = _
    omega
  · exfalso
    have hlow : ∀ n : Nat, 128 ≤ n % 256 → byte = UInt8.ofNat n → False := fun n hn hb => by
      rw [hb, UInt8.toNat_ofNat'] at hascii
      omega
    split at h
    · simp only [List.mem_cons, List.not_mem_nil, or_false] at h
      rcases h with h | h
      · exact hlow _ (by omega) h
      · exact hlow _ (by omega) h
    · split at h
      · simp only [List.mem_cons, List.not_mem_nil, or_false] at h
        rcases h with h | h | h
        · exact hlow _ (by omega) h
        · exact hlow _ (by omega) h
        · exact hlow _ (by omega) h
      · simp only [List.mem_cons, List.not_mem_nil, or_false] at h
        rcases h with h | h | h | h
        · exact hlow _ (by omega) h
        · exact hlow _ (by omega) h
        · exact hlow _ (by omega) h
        · exact hlow _ (by omega) h

theorem utf8_toList (s : String) : utf8 s = s.toList.flatMap String.utf8EncodeChar := by
  rw [← utf8_ofList, String.ofList_toList]

theorem IsLine.bytes {line : String} (h : IsLine line) :
    utf8 line ≠ [] ∧ ∀ byte ∈ utf8 line, byte ≠ 10 ∧ byte ≠ 13 := by
  refine ⟨fun hempty => h.nonempty (utf8_injective hempty), fun byte hbyte => ?_⟩
  rw [utf8_toList] at hbyte
  rcases List.mem_flatMap.mp hbyte with ⟨c, hc, hbyte⟩
  have hbreak := h.noBreak c hc
  constructor
  · rintro rfl
    exact hbreak.1 (Char.toNat_inj.mp (byte_of_mem_utf8EncodeChar hbyte (by decide)))
  · rintro rfl
    exact hbreak.2 (Char.toNat_inj.mp (byte_of_mem_utf8EncodeChar hbyte (by decide)))

/-! ## Where the delimiter of an event is -/

theorem findSseDelimiter_skip {body : List UInt8} (bytes : List UInt8)
    (h : ∀ byte ∈ body, byte ≠ 10 ∧ byte ≠ 13) :
    findSseDelimiter (body ++ bytes) =
      (findSseDelimiter bytes).map fun found => (found.1 + body.length, found.2) := by
  induction body with
  | nil =>
      cases hfound : findSseDelimiter bytes with
      | none => simpa using hfound
      | some found => simpa using hfound
  | cons byte body ih =>
      have hbyte := h byte List.mem_cons_self
      have hlater := ih fun x hx => h x (List.mem_cons_of_mem _ hx)
      have hlf : ¬ [10, 10] <+: byte :: (body ++ bytes) := fun hstarts =>
        hbyte.1 (List.cons_prefix_cons.mp hstarts).1.symm
      have hcrlf : ¬ [13, 10, 13, 10] <+: byte :: (body ++ bytes) := fun hstarts =>
        hbyte.2 (List.cons_prefix_cons.mp hstarts).1.symm
      rw [List.cons_append, findSseDelimiter_cons hlf hcrlf, hlater, Option.map_map]
      congr 1

/-- A line end with more text after it ends no event. -/
theorem findSseDelimiter_lineEnd {lineEnd : String} {byte : UInt8} (bytes : List UInt8)
    (hend : IsLineEnd lineEnd) (hbyte : byte ≠ 10 ∧ byte ≠ 13) :
    findSseDelimiter (utf8 lineEnd ++ byte :: bytes) =
      (findSseDelimiter (byte :: bytes)).map
        fun found => (found.1 + (utf8 lineEnd).length, found.2) := by
  have hlf : findSseDelimiter (10 :: byte :: bytes) =
      (findSseDelimiter (byte :: bytes)).map fun found => (found.1 + 1, found.2) := by
    apply findSseDelimiter_cons
    · intro hstarts
      have htail := (List.cons_prefix_cons.mp hstarts).2
      exact hbyte.1 (List.cons_prefix_cons.mp htail).1.symm
    · intro hstarts
      exact absurd (List.cons_prefix_cons.mp hstarts).1 (by decide)
  rcases hend with rfl | rfl
  · exact hlf
  · have hcr : findSseDelimiter (13 :: 10 :: byte :: bytes) =
        (findSseDelimiter (10 :: byte :: bytes)).map fun found => (found.1 + 1, found.2) := by
      apply findSseDelimiter_cons
      · intro hstarts
        exact absurd (List.cons_prefix_cons.mp hstarts).1 (by decide)
      · intro hstarts
        have htail := (List.cons_prefix_cons.mp (List.cons_prefix_cons.mp hstarts).2).2
        exact hbyte.2 (List.cons_prefix_cons.mp htail).1.symm
    show findSseDelimiter (13 :: 10 :: byte :: bytes) = _
    rw [hcr, hlf, Option.map_map]
    rfl

theorem findSseDelimiter_blank {lineEnd : String} (hend : IsLineEnd lineEnd) :
    findSseDelimiter (utf8 lineEnd ++ utf8 lineEnd) = some (0, 2 * (utf8 lineEnd).length) := by
  rcases hend with rfl | rfl <;> decide

theorem utf8_sseText_cons (lineEnd line : String) (lines : List String) :
    utf8 (sseText lineEnd (line :: lines)) =
      utf8 line ++ (utf8 lineEnd ++ utf8 (sseText lineEnd lines)) := by
  unfold sseText
  rw [List.foldr_cons, utf8_append, utf8_append, List.append_assoc]

theorem isSseMessage_sseText {lineEnd : String} {lines : List String} (hend : IsLineEnd lineEnd)
    (hlines : ∀ line ∈ lines, IsLine line) (hsome : lines ≠ []) :
    IsSseMessage (sseText lineEnd lines) := by
  have hfound : ∃ found, findSseDelimiter (utf8 (sseText lineEnd lines)) = some found ∧
      found.1 + found.2 = (utf8 (sseText lineEnd lines)).length := by
    induction lines with
    | nil => exact absurd rfl hsome
    | cons line lines ih =>
        have hline := (hlines line List.mem_cons_self).bytes
        rw [utf8_sseText_cons, findSseDelimiter_skip _ hline.2]
        cases lines with
        | nil =>
            refine ⟨(0 + (utf8 line).length, 2 * (utf8 lineEnd).length), ?_, ?_⟩
            · show (findSseDelimiter (utf8 lineEnd ++ utf8 lineEnd)).map _ = _
              rw [findSseDelimiter_blank hend]
              rfl
            · show _ = (utf8 line ++ (utf8 lineEnd ++ utf8 lineEnd)).length
              simp only [List.length_append]
              omega
        | cons line' lines =>
            rcases ih (fun l hl => hlines l (List.mem_cons_of_mem _ hl)) (by simp) with
              ⟨found, hfound, hlength⟩
            have hline' := (hlines line' (by simp)).bytes
            obtain ⟨byte, bytes, hbytes⟩ : ∃ byte bytes, utf8 line' = byte :: bytes :=
              List.exists_cons_of_ne_nil hline'.1
            have hbyte := hline'.2 byte (by rw [hbytes]; exact List.mem_cons_self)
            rw [utf8_sseText_cons, hbytes, List.cons_append] at hfound hlength
            refine ⟨(found.1 + (utf8 lineEnd).length + (utf8 line).length, found.2), ?_, ?_⟩
            · rw [utf8_sseText_cons, hbytes, List.cons_append,
                findSseDelimiter_lineEnd _ hend hbyte, hfound]
              rfl
            · rw [utf8_sseText_cons, hbytes, List.cons_append]
              simp only [List.length_append]
              omega
  rcases hfound with ⟨found, hfound, hlength⟩
  show (findSseDelimiter _).map _ = _
  rw [hfound, Option.map_some, hlength]

theorem turns_iff {σ : Type} {handle : σ → String → σ × List StreamingChoice} {b : SseBuffer}
    {s : σ} {texts : List String} {fragments : List (List UInt8)}
    (hmessages : ∀ text ∈ texts, IsSseMessage text) (hempty : b.buffer = [])
    (hbytes : fragments.flatten = (texts.map utf8).flatten) (yielded : List (List StreamingChoice)) :
    readStream handle b s (fragments.map .ok) = yielded.map .message ↔
      Fits b.maxCapacity [] fragments ∧ yielded = (handleAll handle s texts).2 := by
  have hheld : b.buffer ++ fragments.flatten = (texts.map utf8).flatten := by
    rw [hempty, List.nil_append, hbytes]
  rw [← hempty]
  constructor
  · intro hturns
    by_cases hfits : Fits b.maxCapacity b.buffer fragments
    · refine ⟨hfits, ?_⟩
      rw [readStream_of_fits hmessages (by rw [hempty]; rfl) hheld hfits] at hturns
      exact (List.map_injective_iff.mpr (fun _ _ => Turn.message.inj) hturns).symm
    · exfalso
      rcases @readStream_of_not_fits _ handle b s texts fragments hmessages hheld hfits with
        ⟨error, herror⟩
      rw [hturns] at herror
      rcases List.mem_map.mp herror with ⟨choices, -, hchoices⟩
      cases hchoices
  · rintro ⟨hfits, rfl⟩
    exact readStream_of_fits hmessages (by rw [hempty]; rfl) hheld hfits

/-- A parsed stream is free of errors just when its fragments fit, and then holds what the
messages sent yield. -/
theorem items_iff {σ : Type} {handle : σ → String → σ × List StreamingChoice} {b : SseBuffer}
    {s : σ} {texts : List String} {fragments : List (List UInt8)}
    (hmessages : ∀ text ∈ texts, IsSseMessage text) (hempty : b.buffer = [])
    (hbytes : fragments.flatten = (texts.map utf8).flatten) (choices : List StreamingChoice) :
    (readStream handle b s (fragments.map .ok)).flatMap Turn.items = choices.map .ok ↔
      Fits b.maxCapacity [] fragments ∧ choices = (handleAll handle s texts).2.flatten := by
  have hitems : ∀ yielded : List (List StreamingChoice),
      (yielded.map Turn.message).flatMap Turn.items = yielded.flatten.map .ok := by
    intro yielded
    rw [List.flatMap_map, List.map_flatten, List.flatMap_def]
    rfl
  constructor
  · intro hok
    by_cases hfits : Fits b.maxCapacity [] fragments
    · have hturns := (@turns_iff _ handle b s _ _ hmessages hempty hbytes _).mpr ⟨hfits, rfl⟩
      rw [hturns, hitems] at hok
      exact ⟨hfits, (List.map_injective_iff.mpr (fun _ _ => Except.ok.inj) hok).symm⟩
    · exfalso
      have hheld : b.buffer ++ fragments.flatten = (texts.map utf8).flatten := by
        rw [hempty, List.nil_append, hbytes]
      rw [← hempty] at hfits
      rcases @readStream_of_not_fits _ handle b s texts fragments hmessages hheld hfits with
        ⟨error, herror⟩
      have hmem : (Except.error error : Except StreamError StreamingChoice) ∈
          choices.map Except.ok := by
        rw [← hok]
        exact List.mem_flatMap.mpr ⟨_, herror, List.mem_singleton_self _⟩
      rcases List.mem_map.mp hmem with ⟨choice, -, hchoice⟩
      cases hchoice
  · rintro ⟨hfits, rfl⟩
    rw [(@turns_iff _ handle b s _ _ hmessages hempty hbytes _).mpr ⟨hfits, rfl⟩, hitems]

end BenShu.Providers
