import BenShu.Lib.FirstMatch
import BenShu.Providers.Gemini

/-!
# Gemini streams that are delivered whole

The parser loses nothing just when no chunk carries more than it yields for it, and a
stream that gives a reason to finish has a chunk that the parser takes for the end.
-/

namespace BenShu.Providers.Gemini

open ByteCodec Framing

section Stream

variable {chunks : List StreamChunk}

theorem handleAll_contents (toolCounter : Nat) :
    (handleAll handleChunk toolCounter chunks).2.flatten.filterMap contentOf =
      chunks.flatMap StreamChunk.deliveredContents := by
  rw [List.filterMap_eq_flatMap_toList]
  refine handleAll_flatMap (fun chunk _ counter => ?_) toolCounter
  rw [← List.filterMap_eq_flatMap_toList]
  exact handleChunk_contents counter

theorem handleAll_usage (toolCounter : Nat) :
    (handleAll handleChunk toolCounter chunks).2.flatten.filterMap usageOf =
      chunks.filterMap fun chunk => chunk.usageMetadata.map GeminiUsage.toUsage := by
  rw [List.filterMap_eq_flatMap_toList, List.filterMap_eq_flatMap_toList]
  refine handleAll_flatMap (fun chunk _ counter => ?_) toolCounter
  rw [← List.filterMap_eq_flatMap_toList]
  exact handleChunk_usage counter

theorem handleAll_callIds (toolCounter : Nat) : ∃ n,
    (handleAll handleChunk toolCounter chunks).2.flatten.filterMap callIdOf =
      (List.range' (toolCounter + 1) n).map callId := by
  induction chunks generalizing toolCounter with
  | nil => exact ⟨0, rfl⟩
  | cons chunk chunks ih =>
      rcases @handleChunk_callIds chunk toolCounter with ⟨hcounter, hids⟩ | ⟨hcounter, hids⟩
      · rcases ih toolCounter with ⟨n, hn⟩
        refine ⟨n, ?_⟩
        rw [handleAll, List.flatten_cons, List.filterMap_append, hids, hcounter, hn]
        rfl
      · rcases ih (toolCounter + 1) with ⟨n, hn⟩
        refine ⟨n + 1, ?_⟩
        rw [handleAll, List.flatten_cons, List.filterMap_append, hids, hcounter, hn,
          List.range'_succ]
        rfl

theorem callId_injective : Function.Injective callId := by
  intro m n h
  unfold callId at h
  have htail := congrArg String.toList h
  rw [String.toList_append, String.toList_append] at htail
  exact Text.toString_injective (String.toList_inj.mp (List.append_cancel_left htail))

theorem handleAll_callIds_nodup (toolCounter : Nat) :
    ((handleAll handleChunk toolCounter chunks).2.flatten.filterMap callIdOf).Nodup := by
  rcases @handleAll_callIds chunks toolCounter with ⟨n, hn⟩
  rw [hn]
  exact List.Nodup.map callId_injective List.nodup_range'

theorem done_mem_handleAll_iff (toolCounter : Nat) :
    .done ∈ (handleAll handleChunk toolCounter chunks).2.flatten ↔
      ∃ chunk ∈ chunks, chunk.Ends := by
  induction chunks generalizing toolCounter with
  | nil => simp [handleAll]
  | cons chunk chunks ih =>
      rw [handleAll, List.flatten_cons, List.mem_append, done_mem_handleChunk_iff, ih,
        List.exists_mem_cons_iff]

theorem contents_delivered_iff (toolCounter : Nat) :
    (handleAll handleChunk toolCounter chunks).2.flatten.filterMap contentOf =
        chunks.flatMap StreamChunk.contents ↔ ∀ chunk ∈ chunks, chunk.Single := by
  rw [handleAll_contents,
    Pieces.flatMap_eq_iff_of_sublist fun chunk _ => deliveredContents_sublist]
  simp only [deliveredContents_eq_iff]

theorem handleAll_before_end {before after : List StreamChunk} {ending : StreamChunk}
    (hends : ending.Ends) (hbefore : ∀ chunk ∈ before, ¬ chunk.Ends) (toolCounter : Nat) :
    ∃ later, (handleAll handleChunk toolCounter (before ++ ending :: after)).2.flatten =
        (handleAll handleChunk toolCounter before).2.flatten ++ .done :: later ∧
      .done ∉ (handleAll handleChunk toolCounter before).2.flatten := by
  refine ⟨(handleAll handleChunk (handleAll handleChunk toolCounter before).1 after).2.flatten,
    ?_, ?_⟩
  · rw [handleAll_append, List.flatten_append, handleAll, handleChunk_of_ends _ hends]
    rfl
  · rw [done_mem_handleAll_iff]
    rintro ⟨chunk, hchunk, hends'⟩
    exact hbefore chunk hchunk hends'

theorem done_delivered_iff (hsingle : ∀ chunk ∈ chunks, chunk.Single) (toolCounter : Nat) :
    (∀ before chunk after, chunks = before ++ chunk :: after → chunk.finishReason.isSome →
      (∀ earlier ∈ before, earlier.finishReason = none) →
        ∃ yielded later, (handleAll handleChunk toolCounter chunks).2.flatten =
            yielded ++ .done :: later ∧ .done ∉ yielded ∧
          (before ++ [chunk]).flatMap StreamChunk.contents <+: yielded.filterMap contentOf) ↔
      ((∃ chunk ∈ chunks, chunk.finishReason.isSome) → ∃ chunk ∈ chunks, chunk.Ends) := by
  constructor
  · intro hdone hfinish
    rcases FirstMatch.exists_first hfinish with ⟨before, chunk, after, hsplit, hreason, hbefore⟩
    have hnone : ∀ earlier ∈ before, earlier.finishReason = none := fun earlier hearlier => by
      simpa using hbefore earlier hearlier
    rcases hdone before chunk after hsplit hreason hnone with ⟨yielded, later, hyielded, -, -⟩
    rw [← done_mem_handleAll_iff toolCounter, hyielded]
    exact List.mem_append_right _ List.mem_cons_self
  · intro hend before chunk after hsplit hreason hnone
    have hfinish : ∃ chunk ∈ chunks, chunk.finishReason.isSome :=
      ⟨chunk, by rw [hsplit]; simp, hreason⟩
    rcases FirstMatch.exists_first (hend hfinish) with ⟨before', ending, after', hsplit', hends, hbefore'⟩
    rcases @handleAll_before_end _ after' _ hends hbefore' toolCounter with ⟨later, hyielded, hnotin⟩
    refine ⟨_, later, by rw [hsplit', hyielded], hnotin, ?_⟩
    have hcontents := (@contents_delivered_iff before' toolCounter).mpr fun c hc =>
      hsingle c (by rw [hsplit']; exact List.mem_append_left _ hc)
    rw [hcontents]
    rw [hsplit] at hsplit'
    rcases List.append_eq_append_iff.mp hsplit' with ⟨m, hm, htail⟩ | ⟨m, hm, htail⟩
    · -- the ending chunk is the finishing one, or comes later
      cases m with
      | nil =>
          rw [List.nil_append, List.cons.injEq] at htail
          rw [List.append_nil] at hm
          have hempty : ending.contents = [] := by
            rcases hsingle ending (by rw [hsplit, htail.1]; simp) with hempty | ⟨-, -, hstop⟩
            · exact hempty
            · exact absurd hends.2 hstop
          refine ⟨[], ?_⟩
          rw [hm, htail.1, List.flatMap_append, List.flatMap_singleton, hempty, List.append_nil,
            List.append_nil]
      | cons first m =>
          rw [List.cons_append, List.cons.injEq] at htail
          rw [hm, htail.1]
          refine ⟨m.flatMap StreamChunk.contents, ?_⟩
          simp [List.flatMap_append]
    · -- no chunk before the finishing one gives a reason
      cases m with
      | nil =>
          rw [List.nil_append, List.cons.injEq] at htail
          rw [List.append_nil] at hm
          have hempty : ending.contents = [] := by
            rcases hsingle ending (by rw [hsplit, ← htail.1]; simp) with hempty | ⟨-, -, hstop⟩
            · exact hempty
            · exact absurd hends.2 hstop
          refine ⟨[], ?_⟩
          rw [hm, ← htail.1, List.flatMap_append, List.flatMap_singleton, hempty, List.append_nil,
            List.append_nil]
      | cons first m =>
          rw [List.cons_append, List.cons.injEq] at htail
          have hreason' := hnone ending (by rw [hm, htail.1]; simp)
          rw [hends.2] at hreason'
          cases hreason'

end Stream

/-! ## Streams as they are sent -/

/-- A chunk, its JSON and the line ends it is sent with. -/
structure SentChunk where
  chunk : StreamChunk
  json : String
  lineEnd : String

def SentChunk.text (sent : SentChunk) : String := sseText sent.lineEnd ["data: " ++ sent.json]

variable {serde : SerdeJson StreamChunk}

structure SentChunk.WellSent (serde : SerdeJson StreamChunk) (sent : SentChunk) : Prop where
  decodes : serde.fromStr sent.json = some sent.chunk
  json : IsLine sent.json
  lineEnd : IsLineEnd sent.lineEnd

theorem isSseMessage_texts {sent : List SentChunk} (hsent : ∀ event ∈ sent, event.WellSent serde) :
    ∀ text ∈ sent.map SentChunk.text, IsSseMessage text := by
  intro text htext
  rcases List.mem_map.mp htext with ⟨event, hevent, rfl⟩
  have hdata := @IsLine.after "data: " _ (hsent event hevent).json (by simp)
  refine isSseMessage_sseText (hsent event hevent).lineEnd (fun line hline => ?_) (by simp)
  rw [List.mem_singleton.mp hline]
  exact hdata

theorem handleAll_texts (hserde : serde.Reads) {sent : List SentChunk}
    (hsent : ∀ event ∈ sent, event.WellSent serde) :
    handleAll (handleMessage serde) 0 (sent.map SentChunk.text) =
      handleAll handleChunk 0 (sent.map SentChunk.chunk) := by
  have hread : ∀ event ∈ sent, ∀ counter, handleMessage serde counter event.text =
      handleChunk counter event.chunk := by
    intro event hevent counter
    have hwell := hsent event hevent
    unfold handleMessage SentChunk.text
    rw [dataLine_payload]
    dsimp only
    rw [hserde.trailing _ _ hwell.lineEnd, hwell.decodes]
  rw [@handleAll_map _ _ _ (handleMessage serde) (fun counter event =>
      handleChunk counter event.chunk) SentChunk.text sent hread 0,
    @handleAll_map _ _ _ handleChunk (fun counter event =>
      handleChunk counter event.chunk) SentChunk.chunk sent (fun _ _ _ => rfl) 0]

def textChunk (texts : List String) : StreamChunk :=
  ⟨some [⟨some ⟨some (texts.map ResponsePart.text)⟩, none⟩], none⟩

def stopChunk : StreamChunk := ⟨some [⟨none, some "STOP"⟩], none⟩

def onePartJson : String :=
  "\x7b\"candidates\":[\x7b\"content\":\x7b\"parts\":[\x7b\"text\":\"Hi\"\x7d]\x7d\x7d]\x7d"

def twoPartsJson : String :=
  "\x7b\"candidates\":[\x7b\"content\":\x7b\"parts\":[\x7b\"text\":\"Hi\"\x7d,\x7b\"text\":\" there\"\x7d]\x7d\x7d]\x7d"

def stopJson : String := "\x7b\"candidates\":[\x7b\"finishReason\":\"STOP\"\x7d]\x7d"

def isLineBreak (c : Char) : Bool := c == '\n' || c == '\r'

def sampleSerde : SerdeJson StreamChunk where
  fromStr text := ([(onePartJson, textChunk ["Hi"]), (twoPartsJson, textChunk ["Hi", " there"]),
      (stopJson, stopChunk)].find? fun pair =>
    pair.1 == Text.trimEndMatches text isLineBreak).map Prod.snd
  valueFromStr _ := none

theorem sampleSerde_reads : sampleSerde.Reads where
  trailing text lineEnd hend := by
    have hbreaks : ∀ c ∈ (lineEnd ++ lineEnd).toList, isLineBreak c = true := by
      rcases hend with rfl | rfl <;> exact List.all_eq_true.mp (by decide)
    unfold sampleSerde
    dsimp only
    rw [Text.trimEndMatches_append hbreaks]
  empty := rfl

def onePart : SentChunk := ⟨textChunk ["Hi"], onePartJson, "\r\n"⟩

def twoParts : SentChunk := ⟨textChunk ["Hi", " there"], twoPartsJson, "\r\n"⟩

def stopped : SentChunk := ⟨stopChunk, stopJson, "\r\n"⟩

theorem sample_wellSent :
    ∀ event ∈ [onePart, twoParts, stopped], event.WellSent sampleSerde := by
  intro event hevent
  simp only [List.mem_cons, List.not_mem_nil, or_false] at hevent
  rcases hevent with rfl | rfl | rfl
  · exact ⟨rfl, by decide +kernel, .inr rfl⟩
  · exact ⟨rfl, by decide +kernel, .inr rfl⟩
  · exact ⟨rfl, by decide +kernel, .inr rfl⟩

end BenShu.Providers.Gemini
