import BenShu.Lib.FirstMatch
import BenShu.Lib.Loop
import BenShu.Lib.Segments
import Mathlib.Algebra.GroupWithZero.Nat
import Mathlib.Data.Rat.Defs

/-!
# Chunking

A text is cut into windows at natural boundaries, each window is trimmed, and windows that are
too short are left out. The next window begins before the end of the last one, but behind its
start. Offsets count characters.
-/

namespace BenShu.Engram

structure ChunkerConfig where
  chunkSize : Nat := 512
  chunkOverlap : Nat := 64
  minChunkSize : Nat := 50
  maxLookback : Nat := 100
  deriving DecidableEq

structure Chunk where
  text : String
  startOffset : Nat
  endOffset : Nat
  sequence : Nat
  isNatural : Bool
  deriving DecidableEq

namespace Chunk

/-- The offsets follow what is trimmed from the text. -/
def smartTrim (chunk : Chunk) : Chunk :=
  let trimmed := Text.trimStart chunk.text
  let leadSpaces := Text.charCount chunk.text - Text.charCount trimmed
  let finalTrimmed := Text.trimEndMatches trimmed Text.isWhitespace
  let tailSpaces := Text.charCount trimmed - Text.charCount finalTrimmed
  { chunk with
    text := finalTrimmed
    startOffset := chunk.startOffset + leadSpaces
    endOffset := chunk.endOffset - tailSpaces }

def len (chunk : Chunk) : Nat := Text.charCount chunk.text

end Chunk

structure ChunkStats where
  totalChunks : Nat
  avgSize : Rat
  naturalSplits : Nat

def boundaries : List Char := ['。', '！', '？', '；', '：', '…', '.', '!', '?', '\n']

namespace Chunker

/-- What the loop carries. -/
structure State where
  start : Nat
  sequence : Nat
  chunks : List Chunk
  naturalSplits : Nat

variable (config : ChunkerConfig) (allChars : List Char)

def isBoundary (i : Nat) : Bool := (allChars[i]?).any boundaries.contains

/-- The end of the window from `start`, and whether it is a natural one. The last boundary within
the lookback is taken. -/
def windowEnd (start : Nat) : Nat × Bool :=
  let limit := min (start + config.chunkSize) allChars.length
  if limit < allChars.length then
    let lookbackLimit := max (limit - config.maxLookback) start
    match FirstMatch.lastIn? (isBoundary allChars) lookbackLimit limit with
    | some i => (i + 1, true)
    | none => (limit, false)
  else (limit, true)

def windowChunk (start sequence : Nat) : Chunk :=
  let (stop, isNatural) := windowEnd config allChars start
  Chunk.smartTrim
    { text := .ofList ((allChars.drop start).take (stop - start))
      startOffset := start
      endOffset := stop
      sequence
      isNatural }

/-- Whether the trimmed window is kept. The last one need not be long. -/
def keeps (start : Nat) (chunk : Chunk) : Bool :=
  config.minChunkSize ≤ chunk.len ||
    ((windowEnd config allChars start).1 == allChars.length && !chunk.text.isEmpty)

def nextStart (start : Nat) : Nat :=
  let stop := (windowEnd config allChars start).1
  let next :=
    if allChars.length ≤ stop then allChars.length
    else max (stop - config.chunkOverlap) (start + 1)
  if next ≤ start && stop < allChars.length then stop else next

/-- One turn of the loop. -/
def step (s : State) : State :=
  let chunk := windowChunk config allChars s.start s.sequence
  let s' :=
    if keeps config allChars s.start chunk then
      { s with
        naturalSplits := s.naturalSplits + if chunk.isNatural then 1 else 0
        chunks := s.chunks ++ [chunk]
        sequence := s.sequence + 1 }
    else s
  { s' with start := nextStart config allChars s.start }

def guard (s : State) : Bool := s.start < allChars.length

def run (fuel : Nat) : State :=
  whileLoop (guard allChars) (step config allChars) fuel ⟨0, 0, [], 0⟩

def chunk (text : String) : List Chunk × ChunkStats :=
  let s := run config text.toList text.toList.length
  let totalChunks := s.chunks.length
  (s.chunks,
    { totalChunks
      avgSize := if totalChunks = 0 then 0 else (s.chunks.map Chunk.len).sum / totalChunks
      naturalSplits := s.naturalSplits })

/-! ## Trimming -/

theorem windowChunk_eq (start sequence : Nat) {lead middle tail : List Char}
    (h : Text.TrimParts Text.isWhitespace
      ((allChars.drop start).take ((windowEnd config allChars start).1 - start)) lead middle tail)
    (hlen : start + (lead.length + (middle.length + tail.length)) =
      (windowEnd config allChars start).1) :
    windowChunk config allChars start sequence =
      { text := .ofList middle
        startOffset := start + lead.length
        endOffset := start + lead.length + middle.length
        sequence
        isNatural := (windowEnd config allChars start).2 } := by
  have hcount : ((allChars.drop start).take
      ((windowEnd config allChars start).1 - start)).length =
        lead.length + (middle.length + tail.length) := by
    rw [h.append, List.length_append, List.length_append]
  have hstart : lead.length + (middle.length + tail.length) -
      (middle.length + tail.length) = lead.length := by omega
  have hstop : start + (lead.length + (middle.length + tail.length)) -
      (middle.length + tail.length - middle.length) =
        start + lead.length + middle.length := by omega
  simp only [windowChunk, Chunk.smartTrim, Text.trimStart, Text.trimEndMatches, Text.charCount,
    String.toList_ofList, h.start, h.stop, hcount, List.length_append, hstart]
  rw [← hlen, hstop]

/-! ## Windows -/

/-- Within the text, a window ends behind its start, unless it is to have no characters. -/
theorem windowEnd_spec {start : Nat} (h : start ≤ allChars.length) :
    start ≤ (windowEnd config allChars start).1 ∧
      (windowEnd config allChars start).1 ≤ start + config.chunkSize ∧
      (windowEnd config allChars start).1 ≤ allChars.length ∧
      (0 < config.chunkSize → start < allChars.length →
        start < (windowEnd config allChars start).1) := by
  unfold windowEnd
  dsimp only
  split
  · rename_i hinside
    have hlast := FirstMatch.lastIn?_spec (isBoundary allChars)
      (max (min (start + config.chunkSize) allChars.length - config.maxLookback) start)
      (min (start + config.chunkSize) allChars.length)
    split
    · rename_i i hfound
      rw [hfound] at hlast
      obtain ⟨hlow, hhigh, -⟩ := hlast
      dsimp only
      omega
    · dsimp only
      omega
  · dsimp only
    omega

theorem windowEnd_mono {start later : Nat} (h : start ≤ later) :
    (windowEnd config allChars start).1 ≤ (windowEnd config allChars later).1 := by
  have hlast := FirstMatch.lastIn?_spec (isBoundary allChars)
    (max (min (start + config.chunkSize) allChars.length - config.maxLookback) start)
    (min (start + config.chunkSize) allChars.length)
  have hlater := FirstMatch.lastIn?_spec (isBoundary allChars)
    (max (min (later + config.chunkSize) allChars.length - config.maxLookback) later)
    (min (later + config.chunkSize) allChars.length)
  simp only [windowEnd]
  by_cases hinside : min (later + config.chunkSize) allChars.length < allChars.length
  · have hearlier : min (start + config.chunkSize) allChars.length < allChars.length := by omega
    rw [if_pos hinside, if_pos hearlier]
    cases hfound : FirstMatch.lastIn? (isBoundary allChars)
        (max (min (start + config.chunkSize) allChars.length - config.maxLookback) start)
        (min (start + config.chunkSize) allChars.length) with
    | some i =>
        rw [hfound] at hlast
        obtain ⟨hlow, hhigh, hboundary, -⟩ := hlast
        cases hfound' : FirstMatch.lastIn? (isBoundary allChars)
            (max (min (later + config.chunkSize) allChars.length - config.maxLookback) later)
            (min (later + config.chunkSize) allChars.length) with
        | some i' =>
            rw [hfound'] at hlater
            obtain ⟨hlow', hhigh', -, hnone'⟩ := hlater
            show i + 1 ≤ i' + 1
            by_contra hless
            have hno := hnone' i (by omega) (by omega)
            rw [hboundary] at hno
            cases hno
        | none =>
            show i + 1 ≤ min (later + config.chunkSize) allChars.length
            omega
    | none =>
        rw [hfound] at hlast
        cases hfound' : FirstMatch.lastIn? (isBoundary allChars)
            (max (min (later + config.chunkSize) allChars.length - config.maxLookback) later)
            (min (later + config.chunkSize) allChars.length) with
        | some i' =>
            rw [hfound'] at hlater
            obtain ⟨hlow', hhigh', hboundary', -⟩ := hlater
            show min (start + config.chunkSize) allChars.length ≤ i' + 1
            by_contra hless
            have hno := hlast i' (by omega) (by omega)
            rw [hboundary'] at hno
            cases hno
        | none =>
            show min (start + config.chunkSize) allChars.length ≤
              min (later + config.chunkSize) allChars.length
            omega
  · rw [if_neg hinside]
    split
    · split
      · rename_i i hfound
        rw [hfound] at hlast
        obtain ⟨-, hhigh, -⟩ := hlast
        dsimp only
        omega
      · dsimp only
        omega
    · dsimp only
      omega

/-- Whether there is a character that is not white space at a position. -/
def solidAt (i : Nat) : Bool := (allChars[i]?).any fun c => !Text.isWhitespace c

/-- What a trimmed window says about the text. -/
structure Trimmed (start : Nat) (chunk : Chunk) : Prop where
  ordered : start ≤ chunk.startOffset ∧ chunk.startOffset ≤ chunk.endOffset ∧
    chunk.endOffset ≤ (windowEnd config allChars start).1
  text : chunk.text.toList =
    (allChars.drop chunk.startOffset).take (chunk.endOffset - chunk.startOffset)
  len : chunk.len = chunk.endOffset - chunk.startOffset
  blank_before : ∀ i, start ≤ i → i < chunk.startOffset → solidAt allChars i = false
  solid_start : chunk.startOffset < (windowEnd config allChars start).1 →
    solidAt allChars chunk.startOffset = true
  covers : ∀ i, start ≤ i → i < (windowEnd config allChars start).1 →
    solidAt allChars i = true → chunk.startOffset ≤ i ∧ i < chunk.endOffset

theorem windowChunk_trimmed {start : Nat} (h : start ≤ allChars.length) (sequence : Nat) :
    Trimmed config allChars start (windowChunk config allChars start sequence) := by
  obtain ⟨hle, -, hend, -⟩ := windowEnd_spec config allChars h
  obtain ⟨lead, middle, tail, hparts⟩ := Text.trim_parts Text.isWhitespace
    ((allChars.drop start).take ((windowEnd config allChars start).1 - start))
  have hcount : start + (lead.length + (middle.length + tail.length)) =
      (windowEnd config allChars start).1 := by
    have hlen := congrArg List.length hparts.append
    rw [List.length_take, List.length_drop, List.length_append, List.length_append] at hlen
    omega
  have hread : ∀ i, start ≤ i → i < (windowEnd config allChars start).1 →
      allChars[i]? = (lead ++ (middle ++ tail))[i - start]? := by
    intro i hi hlt
    rw [← hparts.append, List.getElem?_take_of_lt (by omega), List.getElem?_drop]
    congr 1
    omega
  have hblank : ∀ i, start ≤ i → i < (windowEnd config allChars start).1 →
      i < start + lead.length ∨ start + lead.length + middle.length ≤ i →
        solidAt allChars i = false := by
    intro i hi hlt hout
    have hmem : ∃ c, (lead ++ (middle ++ tail))[i - start]? = some c ∧
        Text.isWhitespace c = true := by
      rcases hout with hlead | htail
      · refine ⟨lead[i - start], ?_, hparts.lead_all _ (List.getElem_mem (by omega))⟩
        rw [List.getElem?_append_left (by omega), List.getElem?_eq_getElem]
      · have hin : i - start - lead.length - middle.length < tail.length := by omega
        refine ⟨tail[i - start - lead.length - middle.length], ?_,
          hparts.tail_all _ (List.getElem_mem hin)⟩
        rw [List.getElem?_append_right (by omega), List.getElem?_append_right (by omega),
          List.getElem?_eq_getElem]
    obtain ⟨c, hc, hspace⟩ := hmem
    rw [solidAt, hread i hi hlt, hc]
    simpa using hspace
  rw [windowChunk_eq config allChars start sequence hparts hcount]
  refine ⟨⟨by simp, by simp, by simp only; omega⟩, ?_, ?_, fun i hi hlt => ?_, fun hlt => ?_,
    fun i hi hlt hsolid => ?_⟩
  · have hmiddle : ((allChars.drop start).take ((windowEnd config allChars start).1 - start)).drop
        lead.length = middle ++ tail := by rw [hparts.append, List.drop_left]
    rw [List.drop_take, List.drop_drop] at hmiddle
    have htake := congrArg (List.take middle.length) hmiddle
    rw [List.take_take, List.take_left, Nat.min_eq_left (by omega)] at htake
    simp only [String.toList_ofList]
    rw [Nat.add_sub_cancel_left]
    exact htake.symm
  · simp [Chunk.len, Text.charCount]
  · exact hblank i hi (by simp only at hlt; omega) (.inl hlt)
  · simp only at hlt ⊢
    cases hcase : middle with
    | nil =>
        rw [hparts.tail_nil hcase, hcase] at hcount
        simp only [List.length_nil] at hcount
        omega
    | cons c rest =>
        have hhead := hparts.head_not c (by rw [hcase]; rfl)
        rw [solidAt, hread _ (by omega) hlt, Nat.add_sub_cancel_left, hcase,
          List.getElem?_append_right (Nat.le_refl _), Nat.sub_self]
        simpa using hhead
  · simp only
    by_contra hout
    rw [hblank i hi hlt (by omega)] at hsolid
    cases hsolid

theorem nextStart_spec {start : Nat} (h : start < allChars.length) :
    start < nextStart config allChars start ∧
      nextStart config allChars start ≤ allChars.length ∧
      (0 < config.chunkSize →
        nextStart config allChars start ≤ (windowEnd config allChars start).1) := by
  obtain ⟨hle, -, hend, hpos⟩ := windowEnd_spec config allChars h.le
  unfold nextStart
  dsimp only
  by_cases hlast : allChars.length ≤ (windowEnd config allChars start).1
  · rw [if_pos hlast, if_neg (by simp; omega)]
    omega
  · rw [if_neg hlast, if_neg (by simp)]
    refine ⟨by omega, by omega, fun hsize => ?_⟩
    have := hpos hsize h
    omega

/-! ## The windows of a run -/

def windowStarts : Nat → Nat → List Nat
  | 0, _ => []
  | fuel + 1, start =>
      if start < allChars.length then
        start :: windowStarts fuel (nextStart config allChars start)
      else []

def keptStarts (fuel start : Nat) : List Nat :=
  (windowStarts config allChars fuel start).filter fun start =>
    keeps config allChars start (windowChunk config allChars start 0)

theorem keeps_sequence (start sequence : Nat) :
    keeps config allChars start (windowChunk config allChars start sequence) =
      keeps config allChars start (windowChunk config allChars start 0) := rfl

theorem whileLoop_chunks (fuel : Nat) (s : State) :
    (whileLoop (guard allChars) (step config allChars) fuel s).chunks =
      s.chunks ++ ((keptStarts config allChars fuel s.start).zipIdx s.sequence).map fun window =>
        windowChunk config allChars window.1 window.2 := by
  induction fuel generalizing s with
  | zero => simp [whileLoop, keptStarts, windowStarts]
  | succ fuel ih =>
      unfold whileLoop
      by_cases hguard : s.start < allChars.length
      · rw [if_pos (by simpa [guard] using hguard), ih, keptStarts, keptStarts, windowStarts,
          if_pos hguard]
        by_cases hkept : keeps config allChars s.start
            (windowChunk config allChars s.start s.sequence) = true
        · rw [List.filter_cons_of_pos (by simpa [keeps_sequence] using hkept)]
          simp [step, hkept]
        · rw [List.filter_cons_of_neg (by simpa [keeps_sequence] using hkept)]
          simp [step, hkept]
      · rw [if_neg (by simpa [guard] using hguard), keptStarts, windowStarts, if_neg hguard]
        simp

theorem mem_windowStarts {fuel start window : Nat}
    (h : window ∈ windowStarts config allChars fuel start) :
    start ≤ window ∧ window < allChars.length := by
  induction fuel generalizing start with
  | zero => cases h
  | succ fuel ih =>
      unfold windowStarts at h
      split at h
      · rename_i hin
        rcases List.mem_cons.mp h with rfl | hrest
        · exact ⟨Nat.le_refl _, hin⟩
        · have hnext := (nextStart_spec config allChars hin).1
          have := ih hrest
          omega
      · cases h

theorem windowStarts_increase (fuel start : Nat) :
    (windowStarts config allChars fuel start).Pairwise (· < ·) := by
  induction fuel generalizing start with
  | zero => exact List.Pairwise.nil
  | succ fuel ih =>
      unfold windowStarts
      split
      · rename_i hin
        refine List.pairwise_cons.mpr ⟨fun window hwindow => ?_, ih _⟩
        have hnext := (nextStart_spec config allChars hin).1
        have hle := (mem_windowStarts config allChars hwindow).1
        omega
      · exact List.Pairwise.nil

theorem windowStarts_cover (hsize : 0 < config.chunkSize) {fuel start : Nat}
    (hfuel : allChars.length - start ≤ fuel) {i : Nat} (hi : start ≤ i)
    (hlt : i < allChars.length) :
    ∃ window ∈ windowStarts config allChars fuel start,
      window ≤ i ∧ i < (windowEnd config allChars window).1 := by
  induction fuel generalizing start with
  | zero => omega
  | succ fuel ih =>
      have hin : start < allChars.length := by omega
      obtain ⟨hnext, -, hwithin⟩ := nextStart_spec config allChars hin
      unfold windowStarts
      rw [if_pos hin]
      by_cases hhere : i < (windowEnd config allChars start).1
      · exact ⟨start, List.mem_cons_self, hi, hhere⟩
      · have hreach := hwithin hsize
        have hless : allChars.length - nextStart config allChars start ≤ fuel := by omega
        have hbehind : nextStart config allChars start ≤ i := by omega
        obtain ⟨window, hwindow, hcovers⟩ := ih hless hbehind
        exact ⟨window, List.mem_cons_of_mem _ hwindow, hcovers⟩

theorem Trimmed.start_le {start later : Nat} {chunk chunk' : Chunk}
    (h : Trimmed config allChars start chunk) (h' : Trimmed config allChars later chunk')
    (hle : start ≤ later) : chunk.startOffset ≤ chunk'.startOffset := by
  have hends := windowEnd_mono config allChars hle
  obtain ⟨hlow, horder, hhigh⟩ := h.ordered
  obtain ⟨hlow', horder', hhigh'⟩ := h'.ordered
  by_contra hless
  have hblank := h.blank_before chunk'.startOffset (by omega) (by omega)
  rw [h'.solid_start (by omega)] at hblank
  cases hblank

/-! ## The chunks of a text -/

section

variable (text : String)

theorem chunks_eq :
    (chunk config text).1 =
      ((keptStarts config text.toList text.toList.length 0).zipIdx).map fun window =>
        windowChunk config text.toList window.1 window.2 := by
  have hloop := whileLoop_chunks config text.toList text.toList.length ⟨0, 0, [], 0⟩
  rwa [List.nil_append] at hloop

theorem run_terminates {fuel : Nat} (h : text.toList.length ≤ fuel) :
    run config text.toList fuel = run config text.toList text.toList.length ∧
      guard text.toList (run config text.toList fuel) = false := by
  have hfalls : ∀ s : State, guard text.toList s = true →
      text.toList.length - (step config text.toList s).start < text.toList.length - s.start := by
    intro s hguard
    have hin : s.start < text.toList.length := by simpa [guard] using hguard
    have hnext := (nextStart_spec config text.toList hin).1
    show text.toList.length - nextStart config text.toList s.start < _
    omega
  have hzero : ∀ s : State, text.toList.length - s.start = 0 → guard text.toList s = false := by
    intro s hs
    simp only [guard, decide_eq_false_iff_not]
    omega
  have hstops := @whileLoop_stops State (guard text.toList) (step config text.toList)
    (fun s => text.toList.length - s.start) hfalls hzero
  have hfuel := @whileLoop_fuel State (guard text.toList) (step config text.toList)
    (fun s => text.toList.length - s.start) hfalls hzero
  exact ⟨hfuel h (Nat.le_refl _), hstops h⟩

theorem mem_chunk {found : Chunk} (h : found ∈ (chunk config text).1) :
    ∃ start ∈ windowStarts config text.toList text.toList.length 0,
      Trimmed config text.toList start found := by
  rw [chunks_eq] at h
  obtain ⟨⟨start, sequence⟩, hwindow, rfl⟩ := List.mem_map.mp h
  have hstart := List.mem_of_mem_filter (List.fst_mem_of_mem_zipIdx hwindow)
  exact ⟨start, hstart, windowChunk_trimmed config _ (mem_windowStarts config _ hstart).2.le _⟩

/-- A character that is not white space is in a chunk, or in a window that was left out because
what is left of it is too short. -/
theorem chunk_covers (hsize : 0 < config.chunkSize) {i : Nat} (hi : i < text.toList.length)
    (hsolid : solidAt text.toList i = true) :
    (∃ found ∈ (chunk config text).1, found.startOffset ≤ i ∧ i < found.endOffset) ∨
      ∃ start ∈ windowStarts config text.toList text.toList.length 0,
        start ≤ i ∧ i < (windowEnd config text.toList start).1 ∧
        (windowEnd config text.toList start).1 < text.toList.length ∧
        (windowChunk config text.toList start 0).len < config.minChunkSize := by
  obtain ⟨start, hstart, hle, hlt⟩ := windowStarts_cover config text.toList hsize
    (Nat.sub_le _ _) (Nat.zero_le i) hi
  have hin := (mem_windowStarts config _ hstart).2
  by_cases hkept : keeps config text.toList start (windowChunk config text.toList start 0) = true
  · left
    obtain ⟨sequence, hwindow⟩ : ∃ sequence, (start, sequence) ∈
        (keptStarts config text.toList text.toList.length 0).zipIdx := by
      have hmem : start ∈ keptStarts config text.toList text.toList.length 0 :=
        List.mem_filter.mpr ⟨hstart, hkept⟩
      obtain ⟨sequence, hget⟩ := List.mem_iff_getElem?.mp hmem
      exact ⟨sequence, List.mem_zipIdx_iff_getElem?.mpr hget⟩
    refine ⟨windowChunk config text.toList start sequence, ?_,
      (windowChunk_trimmed config _ hin.le sequence).covers i hle hlt hsolid⟩
    rw [chunks_eq]
    exact List.mem_map.mpr ⟨_, hwindow, rfl⟩
  · right
    have htrimmed := windowChunk_trimmed config text.toList hin.le 0
    obtain ⟨hfrom, hto⟩ := htrimmed.covers i hle hlt hsolid
    obtain ⟨-, -, hend, -⟩ := windowEnd_spec config text.toList hin.le
    simp only [keeps, Bool.or_eq_true, decide_eq_true_eq, Bool.and_eq_true, beq_iff_eq,
      Bool.not_eq_true', not_or, not_and, Bool.not_eq_false] at hkept
    refine ⟨start, hstart, hle, hlt, lt_of_le_of_ne hend fun heq => ?_, by omega⟩
    have hempty := hkept.2 heq
    have hlen := htrimmed.len
    rw [Chunk.len, String.isEmpty_iff.mp hempty] at hlen
    simp only [Text.charCount, String.toList_empty, List.length_nil] at hlen
    omega

/-- The loop ends, and its chunks are numbered pieces of the text with at most the size asked
for, in the order of the windows they were trimmed from. -/
theorem chunk_spec :
    (∀ fuel, text.toList.length ≤ fuel →
      run config text.toList fuel = run config text.toList text.toList.length ∧
        guard text.toList (run config text.toList fuel) = false) ∧
      (chunk config text).1.map Chunk.sequence = List.range (chunk config text).1.length ∧
      (∀ found ∈ (chunk config text).1,
        found.startOffset ≤ found.endOffset ∧ found.endOffset ≤ text.toList.length ∧
          found.text.toList = (text.toList.drop found.startOffset).take
            (found.endOffset - found.startOffset) ∧
          found.len ≤ config.chunkSize) ∧
      (windowStarts config text.toList text.toList.length 0).Pairwise (· < ·) ∧
      (chunk config text).1.Pairwise (fun found later => found.startOffset ≤ later.startOffset) ∧
      (0 < config.chunkSize → ∀ i < text.toList.length, solidAt text.toList i = true →
        (∃ found ∈ (chunk config text).1, found.startOffset ≤ i ∧ i < found.endOffset) ∨
          ∃ start ∈ windowStarts config text.toList text.toList.length 0,
            start ≤ i ∧ i < (windowEnd config text.toList start).1 ∧
            (windowEnd config text.toList start).1 < text.toList.length ∧
            (windowChunk config text.toList start 0).len < config.minChunkSize) := by
  have hincrease := windowStarts_increase config text.toList text.toList.length 0
  refine ⟨fun fuel => run_terminates config text, ?_, fun found hfound => ?_, hincrease, ?_,
    fun hsize i hi => chunk_covers config text hsize hi⟩
  · have hnumber : ∀ window : Nat × Nat,
        (windowChunk config text.toList window.1 window.2).sequence = window.2 := fun _ => rfl
    rw [chunks_eq, List.map_map, List.length_map, List.length_zipIdx]
    refine (List.map_congr_left fun window _ => hnumber window).trans ?_
    rw [List.zipIdx_map_snd, List.range_eq_range']
  · obtain ⟨start, hstart, htrimmed⟩ := mem_chunk config text hfound
    have hin := (mem_windowStarts config _ hstart).2
    obtain ⟨-, hsize, hend, -⟩ := windowEnd_spec config text.toList hin.le
    obtain ⟨hlow, horder, hhigh⟩ := htrimmed.ordered
    refine ⟨horder, by omega, htrimmed.text, ?_⟩
    rw [htrimmed.len]
    omega
  · rw [chunks_eq, List.pairwise_map]
    have hstarts : (keptStarts config text.toList text.toList.length 0).zipIdx.Pairwise
        fun window later => window.1 < later.1 := by
      rw [← List.pairwise_map (f := Prod.fst) (R := (· < ·)), List.zipIdx_map_fst]
      exact hincrease.filter _
    refine hstarts.imp_of_mem fun {window later} hwindow hlater hless => ?_
    have hin : ∀ w ∈ (keptStarts config text.toList text.toList.length 0).zipIdx,
        w.1 ≤ text.toList.length := fun w hw =>
      (mem_windowStarts config _ (List.mem_of_mem_filter (List.fst_mem_of_mem_zipIdx hw))).2.le
    exact Trimmed.start_le config _ (windowChunk_trimmed config _ (hin _ hwindow) _)
      (windowChunk_trimmed config _ (hin _ hlater) _) hless.le

end

/-- Chunks of four windows that begin within the same white space start alike, a window that
is too short takes its characters along, and windows of no size have none. -/
theorem chunk_repeats_and_omits :
    (chunk { chunkSize := 5, chunkOverlap := 4, minChunkSize := 1, maxLookback := 2 }
        (String.ofList [' ', ' ', ' ', 'a', 'b', 'c', 'd', 'e', 'f'])).1.map Chunk.startOffset =
        [3, 3, 3, 3, 4] ∧
      (chunk { chunkSize := 2, chunkOverlap := 0, minChunkSize := 3, maxLookback := 0 }
        (String.ofList ['a', 'b', 'c'])).1.map (fun found => (found.startOffset, found.endOffset)) =
        [(2, 3)] ∧
      (chunk { chunkSize := 0, chunkOverlap := 0, minChunkSize := 1, maxLookback := 0 }
        (String.ofList ['a'])).1 = [] := by
  decide +kernel

end Chunker

end BenShu.Engram
