import BenShu.Providers.SseStream

/-!
# Fragments of a stream

What the buffer delivers when a stream is fed to it chunk by chunk, up to the first error.
A message that is not UTF-8 takes the messages with it that the same chunk completes
before it.
-/

namespace BenShu.Providers

open ByteCodec Framing

namespace SseBuffer

/-- The text that is there so far; what may be half of a letter is kept. -/
def pushAndGetText (b : SseBuffer) (bytes : List UInt8) : Except StreamError (String × SseBuffer) :=
  match b.extendFromSlice bytes with
  | .error e => .error e
  | .ok b =>
      match decodeUtf8 b.buffer with
      | some s => .ok (s, { b with buffer := [] })
      | none => .ok (Utf8.validText b.buffer, { b with buffer := Utf8.incomplete b.buffer })

/-- The messages that the chunks deliver before an error, the error, and the buffer. -/
def feedMessages (b : SseBuffer) : List (List UInt8) → List String × Option StreamError × SseBuffer
  | [] => ([], none, b)
  | chunk :: chunks =>
      match b.extendFromSlice chunk with
      | .error e => ([], some e, b)
      | .ok b =>
          match b.extractMessages with
          | (b, .error e) => ([], some e, b)
          | (b, .ok messages) =>
              (messages ++ (feedMessages b chunks).1, (feedMessages b chunks).2)

def feedText (b : SseBuffer) : List (List UInt8) → String × Option StreamError × SseBuffer
  | [] => ("", none, b)
  | chunk :: chunks =>
      match b.pushAndGetText chunk with
      | .error e => ("", some e, b)
      | .ok (text, b) => (text ++ (feedText b chunks).1, (feedText b chunks).2)

end SseBuffer

/-! ## What a stream holds -/

def textsBefore : List (List UInt8) → List String
  | [] => []
  | message :: messages =>
      match decodeUtf8 message with
      | some s => s :: textsBefore messages
      | none => []

def WellFormed (messages : List (List UInt8)) : Prop :=
  ∀ message ∈ messages, (decodeUtf8 message).isSome = true

instance (messages : List (List UInt8)) : Decidable (WellFormed messages) :=
  inferInstanceAs (Decidable (∀ message ∈ messages, _))

/-- The buffer delivers the messages of the stream up to the first that is not UTF-8, and
when there is none, keeps what comes after the last delimiter. -/
structure DeliversMessages (b : SseBuffer) (chunks : List (List UInt8)) : Prop where
  messages : (b.feedMessages chunks).1 =
    textsBefore (frames sseCutter (b.buffer ++ chunks.flatten)).1
  remainder : WellFormed (frames sseCutter (b.buffer ++ chunks.flatten)).1 →
    (b.feedMessages chunks).2 =
      (none, { b with buffer := rest sseCutter (b.buffer ++ chunks.flatten) })

/-- The buffer delivers the well-formed start of the stream and keeps what follows it. -/
def DeliversText (b : SseBuffer) (chunks : List (List UInt8)) : Prop :=
  b.feedText chunks = (Utf8.validText (b.buffer ++ chunks.flatten), none,
    { b with buffer := Utf8.incomplete (b.buffer ++ chunks.flatten) })

/-- No chunk overfills the buffer when the well-formed text is taken off. -/
def FitsText (maxCapacity : Nat) : List UInt8 → List (List UInt8) → Prop
  | _, [] => True
  | held, chunk :: chunks =>
      held.length + chunk.length ≤ maxCapacity ∧
        FitsText maxCapacity (Utf8.incomplete (held ++ chunk)) chunks

/-- The chunk that completes the first message that is not UTF-8 completes no other message
before it. -/
def FirstAlone : List UInt8 → List (List UInt8) → Prop
  | _, [] => True
  | held, chunk :: chunks =>
      let completed := (frames sseCutter (held ++ chunk)).1
      if WellFormed completed then FirstAlone (rest sseCutter (held ++ chunk)) chunks
      else ∀ message ∈ completed.head?, decodeUtf8 message = none

/-! ## Text -/

theorem incomplete_utf8 (s : String) : Utf8.incomplete (utf8 s) = [] := by
  rw [Utf8.incomplete, Utf8.validUpTo_utf8, List.drop_length]

theorem validText_utf8 (s : String) : Utf8.validText (utf8 s) = s := by
  apply utf8_injective
  rw [Utf8.utf8_validText, Utf8.validUpTo_utf8, List.take_length]

/-- Both branches take the longest well-formed start. -/
theorem pushAndGetText_of_fits {b : SseBuffer} {chunk : List UInt8}
    (hfits : b.buffer.length + chunk.length ≤ b.maxCapacity) :
    b.pushAndGetText chunk = .ok (Utf8.validText (b.buffer ++ chunk),
      { b with buffer := Utf8.incomplete (b.buffer ++ chunk) }) := by
  have hextend : b.extendFromSlice chunk = .ok { b with buffer := b.buffer ++ chunk } :=
    if_neg (Nat.not_lt.mpr hfits)
  unfold SseBuffer.pushAndGetText
  rw [hextend]
  dsimp only
  split
  · rename_i s hs
    rw [Utf8.decode_eq_some_iff.mp hs, incomplete_utf8, validText_utf8]
  · rfl

theorem deliversText_of_fits {b : SseBuffer} {chunks : List (List UInt8)}
    (hcomplete : Utf8.validUpTo b.buffer = 0) (hfits : FitsText b.maxCapacity b.buffer chunks) :
    DeliversText b chunks := by
  induction chunks generalizing b with
  | nil =>
      unfold DeliversText
      have htext : Utf8.validText b.buffer = "" := by
        apply utf8_injective
        rw [Utf8.utf8_validText, hcomplete]
        rfl
      rw [List.flatten_nil, List.append_nil, htext, Utf8.incomplete, hcomplete, List.drop_zero]
      rfl
  | cons chunk chunks ih =>
      have hnone : Utf8.validUpTo (Utf8.incomplete (b.buffer ++ chunk)) = 0 := by
        have happend := Utf8.validUpTo_append (b.buffer ++ chunk) []
        rw [List.append_nil, List.append_nil] at happend
        omega
      have hlater := @ih { b with buffer := Utf8.incomplete (b.buffer ++ chunk) } hnone hfits.2
      unfold DeliversText at hlater ⊢
      rw [SseBuffer.feedText, pushAndGetText_of_fits hfits.1]
      dsimp only
      rw [hlater, List.flatten_cons, ← List.append_assoc,
        Utf8.validText_append (b.buffer ++ chunk) chunks.flatten,
        Utf8.incomplete_append (b.buffer ++ chunk) chunks.flatten]

/-! ## Messages -/

theorem textsBefore_append {messages : List (List UInt8)} {texts : List String}
    (h : messages = texts.map utf8) (later : List (List UInt8)) :
    textsBefore (messages ++ later) = texts ++ textsBefore later := by
  subst h
  induction texts with
  | nil => rfl
  | cons text texts ih =>
      rw [List.map_cons, List.cons_append, textsBefore, decodeUtf8_utf8, List.cons_append, ← ih]

theorem exists_texts {messages : List (List UInt8)} (h : WellFormed messages) :
    ∃ texts : List String, messages = texts.map utf8 := by
  induction messages with
  | nil => exact ⟨[], rfl⟩
  | cons message messages ih =>
      obtain ⟨texts, rfl⟩ := ih fun m hm => h m (List.mem_cons_of_mem _ hm)
      obtain ⟨s, rfl⟩ := Utf8.isSome_decode_iff.mp (h message List.mem_cons_self)
      exact ⟨s :: texts, rfl⟩

theorem textsBefore_append_of_not_wellFormed {messages : List (List UInt8)}
    (h : ¬WellFormed messages) (later : List (List UInt8)) :
    textsBefore (messages ++ later) = textsBefore messages := by
  induction messages with
  | nil => exact absurd (by simp [WellFormed]) h
  | cons message messages ih =>
      rw [List.cons_append, textsBefore, textsBefore]
      cases hdecode : decodeUtf8 message with
      | none => rfl
      | some s =>
          dsimp only
          rw [ih]
          intro hlater
          refine h fun m hm => ?_
          rcases List.mem_cons.mp hm with rfl | hm
          · rw [hdecode]
            rfl
          · exact hlater m hm

theorem textsBefore_eq_nil_iff {messages : List (List UInt8)} :
    textsBefore messages = [] ↔ ∀ message ∈ messages.head?, decodeUtf8 message = none := by
  cases messages with
  | nil => simp [textsBefore]
  | cons message messages =>
      rw [textsBefore]
      cases hdecode : decodeUtf8 message <;> simp [hdecode]

theorem extractAux_error {fuel : Nat} {b : SseBuffer} (messages : List String)
    (hfuel : b.buffer.length ≤ fuel) (hbad : ¬WellFormed (frames sseCutter b.buffer).1) :
    ∃ b' e, b.extractAux fuel messages = (b', .error e) := by
  induction fuel generalizing b messages with
  | zero =>
      have hnil : b.buffer = [] := List.length_eq_zero_iff.mp (Nat.le_zero.mp hfuel)
      rw [hnil, frames_nil] at hbad
      exact absurd (by simp [WellFormed]) hbad
  | succ fuel ih =>
      cases hcut : sseCutter.cut b.buffer with
      | none =>
          rw [frames_of_none hcut] at hbad
          exact absurd (by simp [WellFormed]) hbad
      | some n =>
          rcases Option.map_eq_some_iff.mp hcut with ⟨found, hfound, rfl⟩
          have hpos := sseCutter.pos hcut
          rw [frames_of_some hcut] at hbad
          unfold SseBuffer.extractAux
          rw [hfound]
          dsimp only
          cases hdecode : decodeUtf8 (b.buffer.take (found.1 + found.2)) with
          | none => exact ⟨_, _, rfl⟩
          | some s =>
              dsimp only
              refine ih (messages ++ [s]) ?_ ?_
              · show (b.buffer.drop (found.1 + found.2)).length ≤ fuel
                rw [List.length_drop]
                omega
              · intro hlater
                refine hbad fun m hm => ?_
                rcases List.mem_cons.mp hm with rfl | hm
                · rw [hdecode]
                  rfl
                · exact hlater m hm

theorem feedMessages_of_wellFormed {b : SseBuffer} {chunk : List UInt8} {texts : List String}
    (hfits : b.buffer.length + chunk.length ≤ b.maxCapacity)
    (htexts : (frames sseCutter (b.buffer ++ chunk)).1 = texts.map utf8)
    (chunks : List (List UInt8)) :
    b.feedMessages (chunk :: chunks) =
      (texts ++ (SseBuffer.feedMessages
          { b with buffer := rest sseCutter (b.buffer ++ chunk) } chunks).1,
        (SseBuffer.feedMessages
          { b with buffer := rest sseCutter (b.buffer ++ chunk) } chunks).2) := by
  have hextend : b.extendFromSlice chunk = .ok { b with buffer := b.buffer ++ chunk } :=
    if_neg (Nat.not_lt.mpr hfits)
  have hextract := @extractAux_ok _ { b with buffer := b.buffer ++ chunk } texts []
    (Nat.le_refl _) htexts
  rw [SseBuffer.feedMessages, hextend]
  dsimp only
  rw [SseBuffer.extractMessages, hextract]
  rfl

theorem feedMessages_of_not_wellFormed {b : SseBuffer} {chunk : List UInt8}
    (hfits : b.buffer.length + chunk.length ≤ b.maxCapacity)
    (hbad : ¬WellFormed (frames sseCutter (b.buffer ++ chunk)).1) (chunks : List (List UInt8)) :
    (b.feedMessages (chunk :: chunks)).1 = [] := by
  have hextend : b.extendFromSlice chunk = .ok { b with buffer := b.buffer ++ chunk } :=
    if_neg (Nat.not_lt.mpr hfits)
  obtain ⟨b', e, hextract⟩ := @extractAux_error _ { b with buffer := b.buffer ++ chunk } []
    (Nat.le_refl _) hbad
  rw [SseBuffer.feedMessages, hextend]
  dsimp only
  rw [SseBuffer.extractMessages, hextract]

theorem frames_flatten_cons (held chunk : List UInt8) (chunks : List (List UInt8)) :
    frames sseCutter (held ++ (chunk :: chunks).flatten) =
      ((frames sseCutter (held ++ chunk)).1 ++
          (frames sseCutter (rest sseCutter (held ++ chunk) ++ chunks.flatten)).1,
        rest sseCutter (rest sseCutter (held ++ chunk) ++ chunks.flatten)) := by
  rw [List.flatten_cons, ← List.append_assoc, frames_append]

theorem deliversMessages_iff {b : SseBuffer} {chunks : List (List UInt8)}
    (hheld : sseCutter.cut b.buffer = none) (hfits : Fits b.maxCapacity b.buffer chunks) :
    DeliversMessages b chunks ↔ FirstAlone b.buffer chunks := by
  induction chunks generalizing b with
  | nil =>
      refine iff_of_true ⟨?_, fun _ => ?_⟩ trivial
      · rw [List.flatten_nil, List.append_nil, frames_of_none hheld]
        rfl
      · rw [List.flatten_nil, List.append_nil, rest, frames_of_none hheld]
        rfl
  | cons chunk chunks ih =>
      have hsplit := frames_flatten_cons b.buffer chunk chunks
      have hrest : rest sseCutter (b.buffer ++ (chunk :: chunks).flatten) =
          rest sseCutter (rest sseCutter (b.buffer ++ chunk) ++ chunks.flatten) := by
        show (frames sseCutter (b.buffer ++ (chunk :: chunks).flatten)).2 = _
        rw [hsplit]
      by_cases hgood : WellFormed (frames sseCutter (b.buffer ++ chunk)).1
      · obtain ⟨texts, htexts⟩ := exists_texts hgood
        have hfeed := feedMessages_of_wellFormed hfits.1 htexts chunks
        have hlater := @ih { b with buffer := rest sseCutter (b.buffer ++ chunk) } (cut_rest _)
          hfits.2
        have hall : WellFormed ((frames sseCutter (b.buffer ++ chunk)).1 ++
            (frames sseCutter (rest sseCutter (b.buffer ++ chunk) ++ chunks.flatten)).1) ↔
              WellFormed
                (frames sseCutter (rest sseCutter (b.buffer ++ chunk) ++ chunks.flatten)).1 := by
          constructor
          · exact fun h m hm => h m (List.mem_append_right _ hm)
          · exact fun h m hm => (List.mem_append.mp hm).elim (hgood m) (h m)
        simp only [FirstAlone, if_pos hgood]
        rw [← hlater]
        constructor
        · rintro ⟨hmessages, hremainder⟩
          rw [hsplit, hfeed, textsBefore_append htexts] at hmessages
          refine ⟨List.append_cancel_left hmessages, fun hformed => ?_⟩
          rw [hfeed, hrest, hsplit] at hremainder
          exact hremainder (hall.mpr hformed)
        · rintro ⟨hmessages, hremainder⟩
          constructor
          · rw [hsplit, hfeed, textsBefore_append htexts, hmessages]
          · intro hformed
            rw [hsplit] at hformed
            rw [hfeed, hrest]
            exact hremainder (hall.mp hformed)
      · have hfeed := feedMessages_of_not_wellFormed hfits.1 hgood chunks
        have hnot : ¬WellFormed ((frames sseCutter (b.buffer ++ chunk)).1 ++
            (frames sseCutter (rest sseCutter (b.buffer ++ chunk) ++ chunks.flatten)).1) :=
          fun h => hgood fun m hm => h m (List.mem_append_left _ hm)
        simp only [FirstAlone, if_neg hgood]
        rw [← textsBefore_eq_nil_iff]
        constructor
        · rintro ⟨hmessages, -⟩
          rw [hsplit, hfeed, textsBefore_append_of_not_wellFormed hgood] at hmessages
          exact hmessages.symm
        · intro hnone
          constructor
          · rw [hsplit, hfeed, textsBefore_append_of_not_wellFormed hgood, hnone]
          · intro hformed
            rw [hsplit] at hformed
            exact absurd hformed hnot

/-! ## Every way of cutting a stream -/

/-- Chunk by chunk and in one piece, an empty buffer delivers what the stream holds, where
it is not overfilled. -/
structure FragmentationFree (maxCapacity : Nat) (chunks : List (List UInt8)) : Prop where
  messages : Fits maxCapacity [] chunks → DeliversMessages ⟨[], maxCapacity⟩ chunks
  messagesWhole : Fits maxCapacity [] [chunks.flatten] →
    DeliversMessages ⟨[], maxCapacity⟩ [chunks.flatten]
  text : FitsText maxCapacity [] chunks → DeliversText ⟨[], maxCapacity⟩ chunks
  textWhole : FitsText maxCapacity [] [chunks.flatten] →
    DeliversText ⟨[], maxCapacity⟩ [chunks.flatten]

theorem fragmentationFree_iff (maxCapacity : Nat) (chunks : List (List UInt8)) :
    FragmentationFree maxCapacity chunks ↔
      (Fits maxCapacity [] chunks → FirstAlone [] chunks) ∧
        (Fits maxCapacity [] [chunks.flatten] → FirstAlone [] [chunks.flatten]) := by
  have hmessages : ∀ chunks, Fits maxCapacity [] chunks →
      (DeliversMessages ⟨[], maxCapacity⟩ chunks ↔ FirstAlone [] chunks) := fun chunks hfits =>
    @deliversMessages_iff ⟨[], maxCapacity⟩ chunks rfl hfits
  constructor
  · intro h
    exact ⟨fun hfits => (hmessages _ hfits).mp (h.messages hfits),
      fun hfits => (hmessages _ hfits).mp (h.messagesWhole hfits)⟩
  · rintro ⟨hchunks, hwhole⟩
    constructor
    · exact fun hfits => (hmessages _ hfits).mpr (hchunks hfits)
    · exact fun hfits => (hmessages _ hfits).mpr (hwhole hfits)
    · exact @deliversText_of_fits ⟨[], maxCapacity⟩ chunks rfl
    · exact @deliversText_of_fits ⟨[], maxCapacity⟩ [chunks.flatten] rfl

/-- In one piece, a message that is not UTF-8 takes the message before it along. -/
theorem goodMessage_lost :
    ¬∀ (maxCapacity : Nat) (chunks : List (List UInt8)), FragmentationFree maxCapacity chunks := by
  intro h
  have hwhole := (h 100 [[97, 10, 10], [255, 10, 10]]).messagesWhole ⟨by decide, trivial⟩
  exact absurd hwhole.messages (by decide +kernel)

end BenShu.Providers
