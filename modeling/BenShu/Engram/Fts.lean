import BenShu.Lib.DeltaLog
import BenShu.Lib.LruCache
import BenShu.Lib.Text
import Mathlib.Data.List.Dedup
import Mathlib.Data.List.Sort
import Mathlib.Data.Rat.Defs
import Mathlib.Data.String.Basic

/-!
# Tokenization

Text is lowered, segmented and filtered. The segmenter and the Unicode tables
are parameters; a segmenter gives a colon only as a token of its own.
-/

namespace BenShu.Engram

open Text

structure Segmenter where
  toLowercase : String → String
  cut : String → List String
  isAlphanumeric : Char → Bool
  colonAlone : ∀ text token, token ∈ cut text → ':' ∈ token.toList → token = ":"

def stopwords : List String :=
  ["the", "a", "an", "and", "or", "but", "in", "on", "at", "to", "for", "with", "is", "are",
    "was", "were", "of",
    "的", "了", "是", "在", "我", "有", "和", "就", "不", "人", "都", "一", "一个", "上", "也",
    "很", "到", "说", "要", "去", "你", "会", "着", "没有", "看", "好", "自己", "这"]

def isCjk (c : Char) : Bool := 0x4e00 ≤ c.toNat && c.toNat ≤ 0x9fff

namespace Segmenter

/-- The term a token gives, if it is kept. -/
def termOf (segmenter : Segmenter) (token : String) : Option String :=
  let trimmed := trim token
  if trimmed.isEmpty || stopwords.contains trimmed then none
  else
    let firstChar := trimmed.toList.headD ' '
    if (isCjk firstChar && segmenter.isAlphanumeric firstChar) || trimmed.utf8ByteSize ≥ 2 then
      some trimmed
    else none

def tokenize (segmenter : Segmenter) (text : String) : List String :=
  (segmenter.cut (segmenter.toLowercase text)).filterMap segmenter.termOf

theorem colon_notMem_of_tokenize {segmenter : Segmenter} {text term : String}
    (h : term ∈ segmenter.tokenize text) : ':' ∉ term.toList := by
  intro hcolon
  rcases List.mem_filterMap.mp h with ⟨token, htoken, hterm⟩
  have htrim : term = trim token := by
    unfold termOf at hterm
    dsimp only at hterm
    split at hterm
    · cases hterm
    · split at hterm
      · exact (Option.some.inj hterm).symm
      · cases hterm
  have hmem : ':' ∈ token.toList := mem_of_mem_trim (htrim ▸ hcolon)
  have halone := segmenter.colonAlone _ token htoken hmem
  rw [halone] at hterm
  have hnone : segmenter.termOf ":" = none := rfl
  rw [hnone] at hterm
  cases hterm

end Segmenter

/-! ## Words between blanks -/

/-- Cut at blanks and colons, which are tokens of their own. The word being read
comes reversed. -/
def cutWords : List Char → List Char → List String
  | [], word => if word.isEmpty then [] else [String.ofList word.reverse]
  | c :: cs, word =>
      if c = ' ' || c = ':' then
        (if word.isEmpty then [] else [String.ofList word.reverse]) ++
          String.singleton c :: cutWords cs []
      else cutWords cs (c :: word)

theorem colon_of_mem_cutWords {cs word : List Char} {token : String} (hword : ':' ∉ word)
    (h : token ∈ cutWords cs word) (hcolon : ':' ∈ token.toList) : token = ":" := by
  have hread : ∀ word : List Char, ':' ∉ word →
      token ∉ if word.isEmpty then [] else [String.ofList word.reverse] := by
    intro word hword hmem
    split at hmem
    · cases hmem
    · rw [List.mem_singleton.mp hmem] at hcolon
      simp [hword] at hcolon
  induction cs generalizing word with
  | nil => exact absurd h (hread word hword)
  | cons c cs ih =>
      unfold cutWords at h
      split at h
      · rcases List.mem_append.mp h with hhead | hrest
        · exact absurd hhead (hread word hword)
        · rcases List.mem_cons.mp hrest with heq | hrest
          · subst heq
            have hc : c = ':' := by simpa [eq_comm] using hcolon
            rw [hc]
            rfl
          · exact ih (by simp) hrest
      · rename_i hsep
        apply ih _ h
        simp only [Bool.or_eq_true, decide_eq_true_eq, not_or] at hsep
        simp [hword, Ne.symm hsep.2]

def wordSegmenter : Segmenter where
  toLowercase := Text.toAsciiLowercase
  cut := fun text => cutWords text.toList []
  isAlphanumeric := Char.isAlphanum
  colonAlone := fun _ _ h hcolon => colon_of_mem_cutWords (by simp) h hcolon

example : wordSegmenter.tokenize "The alpha: beta" = ["alpha", "beta"] := by decide

end BenShu.Engram

/-!
# The full-text index

The forward index maps a document to its term counts. The inverted index maps a
term to a list of segments, each a delta on the term's posting list. Counts and
lengths are 32-bit; the average length is kept as an exact quotient.
-/

namespace BenShu.Engram

open DeltaLog

/-! ## Statistics -/

structure FtsStats where
  totalDocs : Nat := 0
  totalLen : Nat := 0
  avgDl : Rat := 0
  deriving DecidableEq

namespace FtsStats

def update (stats : FtsStats) (newDocLen : Nat) : FtsStats :=
  let totalDocs := stats.totalDocs + 1
  let totalLen := stats.totalLen + newDocLen
  { totalDocs := totalDocs, totalLen := totalLen,
    avgDl := if totalDocs > 0 then (totalLen : Rat) / totalDocs else stats.avgDl }

/-- Subtraction saturates at zero. -/
def remove (stats : FtsStats) (oldDocLen : Nat) : FtsStats :=
  if stats.totalDocs > 0 then
    let totalDocs := stats.totalDocs - 1
    let totalLen := stats.totalLen - oldDocLen
    { totalDocs := totalDocs, totalLen := totalLen,
      avgDl := if totalDocs > 0 then (totalLen : Rat) / totalDocs else 0 }
  else stats

end FtsStats

/-! ## Records -/

structure PostingEntry where
  docKey : String
  termFrequency : Nat
  docLength : Nat
  deriving DecidableEq

structure PostingList where
  term : String
  entries : List PostingEntry
  deriving DecidableEq

structure PostingListState where
  term : String
  segments : List String

structure PostingSegment where
  term : String
  delta : Delta String PostingEntry

/-- What the inverted table holds under a key. A posting list is the layout before
segments. -/
inductive InvertedRecord where
  | state (state : PostingListState)
  | segment (segment : PostingSegment)
  | legacy (list : PostingList)

abbrev TfMap := Table String Nat

structure FtsEngine where
  forward : Table String TfMap := ∅
  inverted : Table String InvertedRecord := ∅
  stats : Option FtsStats := none
  postingCache : LruCache String PostingList := { capacity := 1000 }
  segmentSeq : Nat := 1

/-- What the engine takes from its host: the segmenter and the clock, read when a
segment key is drawn. -/
structure FtsHost where
  segmenter : Segmenter
  nowMs : Nat → Nat

/-- A host whose clock stands still. -/
def wordHost : FtsHost where
  segmenter := wordSegmenter
  nowMs := fun _ => 0

/-- The order in which a hash map or set is iterated. -/
structure HashOrder where
  arrange : List String → List String
  perm : ∀ keys, (arrange keys).Perm keys

def HashOrder.same : HashOrder where
  arrange := id
  perm := fun keys => List.Perm.refl keys

/-! ## Term counts -/

/-- One more occurrence, in 32 bits. -/
def TfMap.bump (tf : TfMap) (term : String) : TfMap :=
  tf.insert term (((tf.lookup term).getD 0 + 1) % 2 ^ 32)

def tfMapOf (terms : List String) : TfMap := terms.foldl TfMap.bump ∅

def docLengthOf (terms : List String) : Nat := terms.length % 2 ^ 32

/-- `values().copied().sum()` in 32 bits. -/
def TfMap.docLength (tf : TfMap) : Nat := tf.total id % 2 ^ 32

namespace FtsEngine

/-! ## Posting lists -/

def getStats (engine : FtsEngine) : FtsStats := engine.stats.getD {}

def putStats (engine : FtsEngine) (stats : FtsStats) : FtsEngine :=
  { engine with stats := some stats }

def putFtsInverted (engine : FtsEngine) (key : String) (record : InvertedRecord) : FtsEngine :=
  { engine with inverted := engine.inverted.insert key record }

def deleteFtsInverted (engine : FtsEngine) (key : String) : FtsEngine :=
  { engine with inverted := engine.inverted.erase key }

def putFtsForward (engine : FtsEngine) (docKey : String) (tf : TfMap) : FtsEngine :=
  { engine with forward := engine.forward.insert docKey tf }

def deleteFtsForward (engine : FtsEngine) (docKey : String) : FtsEngine :=
  { engine with forward := engine.forward.erase docKey }

def segmentKey (term : String) (nowMs seq : Nat) : String :=
  s!"__fts_segment__:{term}:{nowMs}:{seq}"

section

variable (host : FtsHost)

def nextSegmentKey (engine : FtsEngine) (term : String) : FtsEngine × String :=
  ({ engine with segmentSeq := engine.segmentSeq + 1 },
    segmentKey term (host.nowMs engine.segmentSeq) engine.segmentSeq)

def writeSegment (engine : FtsEngine) (term : String) (delta : Delta String PostingEntry) :
    FtsEngine × String :=
  let (engine, key) := engine.nextSegmentKey host term
  (engine.putFtsInverted key (.segment { term := term, delta := delta }), key)

def persistPostingState (engine : FtsEngine) (state : PostingListState) : FtsEngine :=
  engine.putFtsInverted state.term (.state state)

def postingStateFromLegacy (engine : FtsEngine) (term : String) (legacy : PostingList) :
    FtsEngine × PostingListState :=
  let (engine, key) := engine.writeSegment host term ⟨legacy.entries, []⟩
  let state : PostingListState := { term := term, segments := [key] }
  (engine.persistPostingState state, state)

/-- The deltas of the segments that are still stored. -/
def segmentDeltas (inverted : Table String InvertedRecord) :
    List String → Except String (List (Delta String PostingEntry))
  | [] => .ok []
  | key :: keys =>
      match inverted.lookup key with
      | none => segmentDeltas inverted keys
      | some (.segment segment) => (segmentDeltas inverted keys).map (segment.delta :: ·)
      | some _ => .error s!"Failed to deserialize segment {key}"

def resolve (term : String) (deltas : List (Delta String PostingEntry)) : PostingList where
  term := term
  entries := (values (replay PostingEntry.docKey deltas)).insertionSort fun left right =>
    left.docKey ≤ right.docKey

def materializePostingState (engine : FtsEngine) (state : PostingListState) :
    Except String PostingList :=
  (segmentDeltas engine.inverted state.segments).map (resolve state.term)

def getOrMigratePostingState (engine : FtsEngine) (term : String) :
    Except String (FtsEngine × Option PostingListState) :=
  match engine.inverted.lookup term with
  | none => .ok (engine, none)
  | some (.state state) => .ok (engine, some state)
  | some (.legacy legacy) =>
      let (engine, state) := engine.postingStateFromLegacy host term legacy
      .ok (engine, some state)
  | some (.segment _) => .error s!"Failed to deserialize posting state for term {term}"

def getPostingListInternal (engine : FtsEngine) (term : String) :
    Except String (FtsEngine × PostingList) :=
  match engine.postingCache.get term with
  | (some list, cache) => .ok ({ engine with postingCache := cache }, list)
  | (none, _) =>
      match engine.inverted.lookup term with
      | none => .ok (engine, { term := term, entries := [] })
      | some record => do
          let list ← match record with
            | .state state => engine.materializePostingState state
            | .legacy list => .ok list
            | .segment _ => .error s!"Failed to deserialize posting list for term {term}"
          .ok ({ engine with postingCache := engine.postingCache.put term list }, list)

/-- Replace eight or more segments by one that adds what they resolve to. -/
def compact (engine : FtsEngine) (term : String) (state : PostingListState)
    (resolved : PostingList) : Except String (FtsEngine × PostingListState × PostingList) :=
  if state.segments.length ≥ 8 then do
    let (engine, key) := engine.writeSegment host term ⟨resolved.entries, []⟩
    let engine := state.segments.foldl deleteFtsInverted engine
    let state := { state with segments := [key] }
    let resolved ← engine.materializePostingState state
    .ok (engine, state, resolved)
  else .ok (engine, state, resolved)

def storePostingList (engine : FtsEngine) (term : String) (state : PostingListState)
    (resolved : PostingList) : FtsEngine :=
  let engine := { engine with postingCache := engine.postingCache.pop term }
  if resolved.entries.isEmpty then
    (state.segments.foldl deleteFtsInverted engine).deleteFtsInverted term
  else
    let engine := engine.persistPostingState state
    { engine with postingCache := engine.postingCache.put term resolved }

def applyTermDelta (engine : FtsEngine) (term : String) (addedEntries : List PostingEntry)
    (removedDocKeys : List String) : Except String FtsEngine := do
  let (engine, state) ← engine.getOrMigratePostingState host term
  let state := state.getD { term := term, segments := [] }
  let (engine, state) :=
    if !addedEntries.isEmpty || !removedDocKeys.isEmpty then
      let (engine, key) := engine.writeSegment host term ⟨addedEntries, removedDocKeys⟩
      (engine, { state with segments := state.segments ++ [key] })
    else (engine, state)
  let resolved ← engine.materializePostingState state
  let (engine, state, resolved) ← engine.compact host term state resolved
  .ok (engine.storePostingList term state resolved)

/-! ## Operations -/

def termDelta (docKey : String) (previous : Option TfMap) (tf : TfMap) (docLength : Nat)
    (term : String) : Delta String PostingEntry where
  added := ((tf.lookup term).map fun count =>
    { docKey := docKey, termFrequency := count, docLength := docLength }).toList
  removed := ((previous.bind (·.lookup term)).map fun _ => docKey).toList

def replaceStats (stats : FtsStats) (previous : Option TfMap) (docLength : Nat) : FtsStats :=
  (match previous with
    | some previous => stats.remove previous.docLength
    | none => stats).update docLength

def indexDocument (order : HashOrder) (engine : FtsEngine) (docKey text : String) :
    Except String FtsEngine :=
  let terms := host.segmenter.tokenize text
  let docLength := docLengthOf terms
  let previous := engine.forward.lookup docKey
  let tf := tfMapOf terms
  let engine := engine.putStats (replaceStats engine.getStats previous docLength)
  let engine := engine.putFtsForward docKey tf
  let affected := (tf.keys ++ (previous.map (·.keys)).getD []).dedup
  (order.arrange affected).foldlM (fun engine term =>
    let delta := termDelta docKey previous tf docLength term
    engine.applyTermDelta host term delta.added delta.removed) engine

/-- What a batch gathers before it touches the inverted index. -/
structure Batch where
  stats : FtsStats
  batchEntries : Table String (List PostingEntry) := ∅
  affectedDocsByTerm : Table String (List String) := ∅

namespace Batch

def affect (docKey : String) (batch : Batch) (term : String) : Batch :=
  let affected := (batch.affectedDocsByTerm.lookup term).getD []
  let affected := if affected.contains docKey then affected else affected ++ [docKey]
  { batch with affectedDocsByTerm := batch.affectedDocsByTerm.insert term affected }

def addEntry (docKey : String) (docLength : Nat) (batch : Batch) (entry : String × Nat) : Batch :=
  let entries := (batch.batchEntries.lookup entry.1).getD []
  let entries := entries ++
    [{ docKey := docKey, termFrequency := entry.2, docLength := docLength }]
  affect docKey { batch with batchEntries := batch.batchEntries.insert entry.1 entries } entry.1

end Batch

def tfEntries (tf : TfMap) : List (String × Nat) := tf.entries.map fun entry => (entry.1, entry.2)

/-- The loop over the documents of a batch. -/
def gatherBatch : FtsEngine → Batch → List (String × String) → FtsEngine × Batch
  | engine, batch, [] => (engine, batch)
  | engine, batch, (docKey, text) :: docs =>
      let terms := host.segmenter.tokenize text
      let docLength := docLengthOf terms
      let previous := engine.forward.lookup docKey
      let batch := ((previous.map (·.keys)).getD []).foldl (Batch.affect docKey)
        { batch with stats := replaceStats batch.stats previous docLength }
      let tf := tfMapOf terms
      let engine := engine.putFtsForward docKey tf
      gatherBatch engine ((tfEntries tf).foldl (Batch.addEntry docKey docLength) batch) docs

def indexBatch (order : HashOrder) (engine : FtsEngine) (docs : List (String × String)) :
    Except String FtsEngine := do
  let (engine, batch) := engine.gatherBatch host { stats := engine.getStats } docs
  let engine ← (order.arrange batch.affectedDocsByTerm.keys).foldlM (fun engine term =>
    engine.applyTermDelta host term ((batch.batchEntries.lookup term).getD [])
      ((batch.affectedDocsByTerm.lookup term).getD [])) engine
  .ok (engine.putStats batch.stats)

/-- The loop over the terms of a deleted document; it looks for the document's
length until a posting gives one that is not zero. -/
def deleteTerms (docKey : String) : FtsEngine → Nat → List String → Except String (FtsEngine × Nat)
  | engine, docLen, [] => .ok (engine, docLen)
  | engine, docLen, term :: terms => do
      let (engine, list) ← engine.getPostingListInternal term
      let docLen :=
        if docLen = 0 then
          ((list.entries.find? fun entry => entry.docKey == docKey).map (·.docLength)).getD 0
        else docLen
      let engine ← engine.applyTermDelta host term [] [docKey]
      engine.deleteTerms docKey docLen terms

def deleteDocument (order : HashOrder) (engine : FtsEngine) (docKey : String) :
    Except String FtsEngine := do
  let stats := engine.getStats
  let engine ← match engine.forward.lookup docKey with
    | none => .ok engine
    | some tf => do
        let (engine, docLen) ← engine.deleteTerms host docKey 0 (order.arrange tf.keys)
        if docLen > 0 then .ok (engine.putStats (stats.remove docLen)) else .ok engine
  .ok (engine.deleteFtsForward docKey)

end

end FtsEngine

/-! ## Runs -/

inductive FtsOp where
  | indexDocument (docKey text : String)
  | indexBatch (docs : List (String × String))
  | deleteDocument (docKey : String)

namespace FtsEngine

def perform (host : FtsHost) (order : HashOrder) (engine : FtsEngine) :
    FtsOp → Except String FtsEngine
  | .indexDocument docKey text => engine.indexDocument host order docKey text
  | .indexBatch docs => engine.indexBatch host order docs
  | .deleteDocument docKey => engine.deleteDocument host order docKey

def run (host : FtsHost) (engine : FtsEngine) (ops : List (HashOrder × FtsOp)) :
    Except String FtsEngine :=
  ops.foldlM (fun engine op => engine.perform host op.1 op.2) engine

end FtsEngine

end BenShu.Engram
