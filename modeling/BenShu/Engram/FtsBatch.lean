import BenShu.Engram.FtsOperations

/-!
# Batch indexing

A batch stores the forward index document by document and gathers, per term,
the postings to add and the documents to take out first. A key given twice adds
the postings of all its texts, the later over the earlier.
-/

namespace BenShu.Engram

open DeltaLog

/-! ## The documents of a batch -/

def lastText (docs : List (String × String)) (docKey : String) : Option String :=
  (docs.reverse.find? fun doc => doc.1 = docKey).map (·.2)

theorem lastText_cons (doc : String × String) (docs : List (String × String)) (docKey : String) :
    lastText (doc :: docs) docKey =
      (lastText docs docKey).or (if doc.1 = docKey then some doc.2 else none) := by
  rw [lastText, List.reverse_cons, List.find?_append, lastText]
  by_cases h : doc.1 = docKey <;>
    cases docs.reverse.find? fun doc => doc.1 = docKey <;> simp [h]

theorem lastText_snoc (docs : List (String × String)) (doc : String × String) (docKey : String) :
    lastText (docs ++ [doc]) docKey =
      if doc.1 = docKey then some doc.2 else lastText docs docKey := by
  rw [lastText, List.reverse_append]
  by_cases h : doc.1 = docKey <;> simp [h, lastText]

variable {docs : List (String × String)}

theorem lastText_eq_none {docKey : String} :
    lastText docs docKey = none ↔ ∀ text, (docKey, text) ∉ docs := by
  simp only [lastText, Option.map_eq_none_iff, List.find?_eq_none, List.mem_reverse,
    decide_eq_true_eq]
  constructor
  · intro h text hmem
    exact h _ hmem rfl
  · intro h hex₁ hmem heq₂
    rcases hex₁ with ⟨key, text⟩
    subst heq₂
    exact h text hmem

theorem mem_of_lastText {docKey text : String} (h : lastText docs docKey = some text) :
    (docKey, text) ∈ docs := by
  unfold lastText at h
  rcases Option.map_eq_some_iff.mp h with ⟨doc, hfind, hdoc⟩
  have hkey : doc.1 = docKey := by simpa using List.find?_some hfind
  have hmem : doc ∈ docs := List.mem_reverse.mp (List.mem_of_find?_eq_some hfind)
  rw [← hkey, ← hdoc]
  exact hmem

/-- The posting one document of a batch adds to a term. -/
def docEntry (segmenter : Segmenter) (term : String) (doc : String × String) :
    Option PostingEntry :=
  FtsEngine.entryOf doc.1 (docLengthOf (segmenter.tokenize doc.2))
    (tfMapOf (segmenter.tokenize doc.2)) term

def entriesFor (segmenter : Segmenter) (docs : List (String × String)) (term : String) :
    List PostingEntry :=
  docs.filterMap (docEntry segmenter term)

def lastEntry (segmenter : Segmenter) (docs : List (String × String)) (term docKey : String) :
    Option PostingEntry :=
  lastWith PostingEntry.docKey (entriesFor segmenter docs term) docKey

variable {term : String} {doc : String × String} {segmenter : Segmenter}

theorem docEntry_key {entry : PostingEntry} (h : docEntry segmenter term doc = some entry) :
    entry.docKey = doc.1 := by
  rcases Option.map_eq_some_iff.mp h with ⟨count, -, rfl⟩
  rfl

theorem docEntry_isSome :
    (docEntry segmenter term doc).isSome = true ↔ term ∈ segmenter.tokenize doc.2 := by
  rw [docEntry, FtsEngine.entryOf, Option.isSome_map, isSome_lookup_tfMapOf]

theorem docEntry_eq_none (h : term ∉ segmenter.tokenize doc.2) :
    docEntry segmenter term doc = none := by
  rw [← Option.not_isSome_iff_eq_none, docEntry_isSome]
  exact h

theorem lastEntry_cons (segmenter : Segmenter) (docs : List (String × String))
    (doc : String × String) (term docKey : String) :
    lastEntry segmenter (doc :: docs) term docKey =
      (lastEntry segmenter docs term docKey).or
        (if doc.1 = docKey then docEntry segmenter term doc else none) := by
  unfold lastEntry entriesFor lastWith
  cases hentry : docEntry segmenter term doc with
  | none => simp [hentry]
  | some entry =>
      rw [List.filterMap_cons_some hentry, List.reverse_cons, List.find?_append]
      have hkey := docEntry_key hentry
      by_cases h : doc.1 = docKey <;> simp [hkey, h]

theorem lastEntry_snoc (segmenter : Segmenter) (docs : List (String × String))
    (doc : String × String) (term docKey : String) :
    lastEntry segmenter (docs ++ [doc]) term docKey =
      (if doc.1 = docKey then docEntry segmenter term doc else none).or
        (lastEntry segmenter docs term docKey) := by
  unfold lastEntry entriesFor lastWith
  rw [List.filterMap_append, List.reverse_append, List.find?_append]
  cases hentry : docEntry segmenter term doc with
  | none => simp [hentry]
  | some entry =>
      have hkey := docEntry_key hentry
      by_cases h : doc.1 = docKey <;> simp [hentry, hkey, h]

theorem lastEntry_isSome {docKey : String} :
    (lastEntry segmenter docs term docKey).isSome = true ↔
      ∃ text, (docKey, text) ∈ docs ∧ term ∈ segmenter.tokenize text := by
  induction docs using List.reverseRecOn with
  | nil => simp [lastEntry, entriesFor, lastWith]
  | append_singleton docs doc ih =>
      rcases doc with ⟨key, text⟩
      rw [lastEntry_snoc, Option.isSome_or, Bool.or_eq_true, ih]
      have hhead : ((if key = docKey then docEntry segmenter term (key, text) else none).isSome =
          true) ↔ key = docKey ∧ term ∈ segmenter.tokenize text := by
        by_cases h : key = docKey
        · simp [h, docEntry_isSome]
        · simp [h]
      rw [hhead]
      constructor
      · intro hcase
        rcases hcase with ⟨rfl, hterm⟩ | ⟨text', hmem, hterm⟩
        · exact ⟨text, by simp, hterm⟩
        · exact ⟨text', List.mem_append_left _ hmem, hterm⟩
      · intro hex
        rcases hex with ⟨text', hmem, hterm⟩
        rcases List.mem_append.mp hmem with hmem | hmem
        · exact .inr ⟨text', hmem, hterm⟩
        · cases List.mem_singleton.mp hmem
          exact .inl ⟨rfl, hterm⟩

theorem lastEntry_eq_none {docKey : String}
    (h : ∀ text, (docKey, text) ∈ docs → term ∉ segmenter.tokenize text) :
    lastEntry segmenter docs term docKey = none := by
  rw [← Option.not_isSome_iff_eq_none, lastEntry_isSome]
  intro hoccurs
  rcases hoccurs with ⟨text, htext, hterm⟩
  exact h text htext hterm

theorem lastEntry_of_lastText {docKey text : String} (h : lastText docs docKey = some text)
    (hterm : term ∈ segmenter.tokenize text) :
    lastEntry segmenter docs term docKey = docEntry segmenter term (docKey, text) := by
  induction docs using List.reverseRecOn with
  | nil => cases h
  | append_singleton docs doc ih =>
      rcases doc with ⟨key, text'⟩
      rw [lastText_snoc] at h
      rw [lastEntry_snoc]
      by_cases hkey : key = docKey
      · rw [if_pos hkey] at h ⊢
        have htext : text' = text := Option.some.inj h
        have hsome : (docEntry segmenter term (docKey, text)).isSome = true :=
          docEntry_isSome.mpr hterm
        rw [hkey, htext]
        cases hentry : docEntry segmenter term (docKey, text) with
        | none => simp [hentry] at hsome
        | some entry => rw [Option.some_or]
      · rw [if_neg hkey] at h ⊢
        rw [Option.none_or, ih h]

namespace FtsEngine

/-! ## Gathering -/

def Batch.entries (batch : Batch) (term : String) : List PostingEntry :=
  (batch.batchEntries.lookup term).getD []

def Batch.affected (batch : Batch) (term : String) : List String :=
  (batch.affectedDocsByTerm.lookup term).getD []

def Batch.NonemptySets (batch : Batch) : Prop :=
  ∀ term docKeys, batch.affectedDocsByTerm.lookup term = some docKeys → docKeys ≠ []

theorem mem_affect {batch : Batch} {docKey term other key : String} :
    key ∈ (Batch.affect docKey batch term).affected other ↔
      key ∈ batch.affected other ∨ (key = docKey ∧ other = term) := by
  unfold Batch.affect Batch.affected
  dsimp only
  rw [Table.lookup_insert]
  by_cases hother : other = term
  · subst hother
    rw [if_pos rfl, Option.getD_some]
    split
    · rename_i hcontains
      have hmem := List.contains_iff_mem.mp hcontains
      constructor
      · exact .inl
      · intro hcase
        rcases hcase with hkey | ⟨rfl, -⟩
        · exact hkey
        · exact hmem
    · simp
  · simp [hother]

theorem affect_nonemptySets {batch : Batch} (h : batch.NonemptySets) (docKey term : String) :
    (Batch.affect docKey batch term).NonemptySets := by
  intro other docKeys hlookup
  unfold Batch.affect at hlookup
  dsimp only at hlookup
  rw [Table.lookup_insert] at hlookup
  split at hlookup
  · cases hlookup
    split
    · rename_i hcontains
      exact List.ne_nil_of_mem (List.contains_iff_mem.mp hcontains)
    · simp
  · exact h other docKeys hlookup

/-- Affecting a document under several terms touches nothing else. -/
theorem foldl_affect (docKey : String) (batch : Batch) (terms : List String) :
    (terms.foldl (Batch.affect docKey) batch).stats = batch.stats ∧
      (terms.foldl (Batch.affect docKey) batch).batchEntries = batch.batchEntries ∧
      (∀ key other, key ∈ (terms.foldl (Batch.affect docKey) batch).affected other ↔
        key ∈ batch.affected other ∨ (key = docKey ∧ other ∈ terms)) ∧
      (batch.NonemptySets → (terms.foldl (Batch.affect docKey) batch).NonemptySets) := by
  induction terms generalizing batch with
  | nil => exact ⟨rfl, rfl, by simp, id⟩
  | cons term terms ih =>
      obtain ⟨hstats, hentries, haffected, hnonempty⟩ := ih (Batch.affect docKey batch term)
      refine ⟨hstats, hentries, ?_, fun h => hnonempty (affect_nonemptySets h docKey term)⟩
      intro key other
      rw [List.foldl_cons, haffected, mem_affect, List.mem_cons]
      tauto

theorem foldl_addEntry (docKey : String) (docLength : Nat) (batch : Batch)
    (counts : List (String × Nat)) :
    (counts.foldl (Batch.addEntry docKey docLength) batch).stats = batch.stats ∧
      (∀ term, (counts.foldl (Batch.addEntry docKey docLength) batch).entries term =
        batch.entries term ++ counts.filterMap fun entry =>
          if entry.1 = term then
            some { docKey := docKey, termFrequency := entry.2, docLength := docLength }
          else none) ∧
      (∀ key other, key ∈ (counts.foldl (Batch.addEntry docKey docLength) batch).affected other ↔
        key ∈ batch.affected other ∨ (key = docKey ∧ other ∈ counts.map (·.1))) ∧
      (batch.NonemptySets →
        (counts.foldl (Batch.addEntry docKey docLength) batch).NonemptySets) := by
  induction counts generalizing batch with
  | nil => exact ⟨rfl, by simp, by simp, id⟩
  | cons entry counts ih =>
      obtain ⟨hstats, hentries, haffected, hnonempty⟩ :=
        ih (Batch.addEntry docKey docLength batch entry)
      have hadded : ∀ term, (Batch.addEntry docKey docLength batch entry).entries term =
          if term = entry.1 then batch.entries term ++
            [{ docKey := docKey, termFrequency := entry.2, docLength := docLength }]
          else batch.entries term := by
        intro term
        unfold Batch.addEntry Batch.affect Batch.entries
        dsimp only
        rw [Table.lookup_insert]
        by_cases hterm : term = entry.1
        · subst hterm
          simp
        · simp [hterm]
      have htouched : ∀ key other,
          key ∈ (Batch.addEntry docKey docLength batch entry).affected other ↔
            key ∈ batch.affected other ∨ (key = docKey ∧ other = entry.1) :=
        fun key other => mem_affect
      refine ⟨hstats, ?_, ?_, fun h => hnonempty (affect_nonemptySets h docKey entry.1)⟩
      · intro term
        rw [List.foldl_cons, hentries, hadded, List.filterMap_cons]
        by_cases hterm : term = entry.1
        · subst hterm
          simp
        · have hne : ¬entry.1 = term := fun heq => hterm heq.symm
          simp [hterm, hne]
      · intro key other
        rw [List.foldl_cons, haffected, htouched, List.map_cons, List.mem_cons]
        tauto

theorem tfEntries_filterMap (docKey : String) (docLength : Nat) (tf : TfMap) (term : String) :
    ((tfEntries tf).filterMap fun entry =>
      if entry.1 = term then
        some ({ docKey := docKey, termFrequency := entry.2, docLength := docLength } : PostingEntry)
      else none) = (entryOf docKey docLength tf term).toList := by
  rw [tfEntries, List.filterMap_map]
  exact Table.filterMap_entries
    (fun count => PostingEntry.mk docKey count docLength) tf term

theorem mem_tfEntries_fst {tf : TfMap} {term : String} :
    term ∈ (tfEntries tf).map (·.1) ↔ (tf.lookup term).isSome = true := by
  have hkeys : (tfEntries tf).map (·.1) = tf.keys := by
    rw [tfEntries, List.map_map]
    rfl
  rw [hkeys, ← AList.mem_keys, AList.lookup_isSome]

/-- The batch after one of its documents. -/
def gatherStep (host : FtsHost) (forward : Table String TfMap) (batch : Batch)
    (doc : String × String) : Batch :=
  let terms := host.segmenter.tokenize doc.2
  let previous := forward.lookup doc.1
  (tfEntries (tfMapOf terms)).foldl (Batch.addEntry doc.1 (docLengthOf terms))
    (((previous.map (·.keys)).getD []).foldl (Batch.affect doc.1)
      { batch with stats := replaceStats batch.stats previous (docLengthOf terms) })

theorem gatherBatch_cons (host : FtsHost) (engine : FtsEngine) (batch : Batch)
    (doc : String × String) (docs : List (String × String)) :
    engine.gatherBatch host batch (doc :: docs) =
      (engine.putFtsForward doc.1 (tfMapOf (host.segmenter.tokenize doc.2))).gatherBatch host
        (gatherStep host engine.forward batch doc) docs := rfl

/-- What one document adds to a batch. -/
theorem gatherStep_spec (host : FtsHost) (forward : Table String TfMap) (batch : Batch)
    (doc : String × String) :
    (gatherStep host forward batch doc).stats = replaceStats batch.stats (forward.lookup doc.1)
        (docLengthOf (host.segmenter.tokenize doc.2)) ∧
      (∀ term, (gatherStep host forward batch doc).entries term =
        batch.entries term ++ (docEntry host.segmenter term doc).toList) ∧
      (∀ key term, key ∈ (gatherStep host forward batch doc).affected term ↔
        key ∈ batch.affected term ∨ (key = doc.1 ∧
          (((forward.lookup doc.1).bind (·.lookup term)).isSome = true ∨
            term ∈ host.segmenter.tokenize doc.2))) ∧
      (batch.NonemptySets → (gatherStep host forward batch doc).NonemptySets) := by
  unfold gatherStep
  dsimp only
  generalize replaceStats batch.stats (forward.lookup doc.1)
    (docLengthOf (host.segmenter.tokenize doc.2)) = stats
  generalize hstart : ({ batch with stats := stats } : Batch) = start
  obtain ⟨hstats, hentries, haffected, hnonempty⟩ := foldl_affect doc.1 start
    (((forward.lookup doc.1).map (·.keys)).getD [])
  obtain ⟨hstats', hentries', haffected', hnonempty'⟩ := foldl_addEntry doc.1
    (docLengthOf (host.segmenter.tokenize doc.2))
    ((((forward.lookup doc.1).map (·.keys)).getD []).foldl (Batch.affect doc.1) start)
    (tfEntries (tfMapOf (host.segmenter.tokenize doc.2)))
  refine ⟨?_, ?_, ?_, ?_⟩
  · rw [hstats', hstats, ← hstart]
  · intro term
    rw [hentries', Batch.entries, hentries, tfEntries_filterMap, ← hstart]
    rfl
  · intro key term
    have hprevious : term ∈ ((forward.lookup doc.1).map (·.keys)).getD [] ↔
        ((forward.lookup doc.1).bind (·.lookup term)).isSome = true := by
      cases forward.lookup doc.1 with
      | none => simp
      | some tf => simp [← AList.mem_keys, ← AList.lookup_isSome]
    rw [haffected', haffected, mem_tfEntries_fst, isSome_lookup_tfMapOf, hprevious, ← hstart]
    show (key ∈ batch.affected term ∨ _) ∨ _ ↔ _
    rw [or_assoc, and_or_left]
  · intro h
    rw [← hstart] at hnonempty' hnonempty ⊢
    exact hnonempty' (hnonempty h)

def storeForward (segmenter : Segmenter) (forward : Table String TfMap)
    (docs : List (String × String)) : Table String TfMap :=
  docs.foldl (fun forward doc => forward.insert doc.1 (tfMapOf (segmenter.tokenize doc.2))) forward

theorem lookup_storeForward (segmenter : Segmenter) (forward : Table String TfMap)
    (docs : List (String × String)) (docKey : String) :
    (storeForward segmenter forward docs).lookup docKey =
      ((lastText docs docKey).map fun text => tfMapOf (segmenter.tokenize text)).or
        (forward.lookup docKey) := by
  induction docs generalizing forward with
  | nil => rfl
  | cons doc docs ih =>
      rw [storeForward, List.foldl_cons, ← storeForward, ih, lastText_cons, Table.lookup_insert]
      by_cases h : doc.1 = docKey
      · cases lastText docs docKey <;> simp [h]
      · have hne : ¬docKey = doc.1 := fun heq => h heq.symm
        cases lastText docs docKey <;> simp [h, hne]

/-- The loop over the documents, as a whole. -/
theorem gatherBatch_spec (host : FtsHost) (engine : FtsEngine) (batch : Batch)
    (docs : List (String × String)) :
    (engine.gatherBatch host batch docs).1 =
        { engine with forward := storeForward host.segmenter engine.forward docs } ∧
      (∀ term, (engine.gatherBatch host batch docs).2.entries term =
        batch.entries term ++ entriesFor host.segmenter docs term) ∧
      (∀ key term, key ∈ (engine.gatherBatch host batch docs).2.affected term ↔
        key ∈ batch.affected term ∨
          (∃ text, (key, text) ∈ docs ∧ term ∈ host.segmenter.tokenize text) ∨
          (key ∈ docs.map (·.1) ∧
            ((engine.forward.lookup key).bind (·.lookup term)).isSome = true)) ∧
      (batch.NonemptySets → (engine.gatherBatch host batch docs).2.NonemptySets) := by
  induction docs generalizing engine batch with
  | nil => exact ⟨rfl, by simp [gatherBatch, entriesFor], by simp [gatherBatch], id⟩
  | cons doc docs ih =>
      rcases doc with ⟨key₀, text₀⟩
      obtain ⟨-, hentries, haffected, hnonempty⟩ :=
        gatherStep_spec host engine.forward batch (key₀, text₀)
      obtain ⟨hengine', hentries', haffected', hnonempty'⟩ :=
        ih (engine.putFtsForward key₀ (tfMapOf (host.segmenter.tokenize text₀)))
          (gatherStep host engine.forward batch (key₀, text₀))
      rw [gatherBatch_cons]
      refine ⟨hengine', ?_, ?_, fun h => hnonempty' (hnonempty h)⟩
      · intro term
        rw [hentries', hentries, entriesFor, entriesFor, List.filterMap_cons]
        cases docEntry host.segmenter term (key₀, text₀) <;> simp
      · intro key term
        have hforward : ((engine.putFtsForward key₀
            (tfMapOf (host.segmenter.tokenize text₀))).forward.lookup key).bind (·.lookup term) =
            if key = key₀ then (tfMapOf (host.segmenter.tokenize text₀)).lookup term
            else (engine.forward.lookup key).bind (·.lookup term) := by
          rw [putFtsForward]
          dsimp only
          rw [Table.lookup_insert]
          by_cases h : key = key₀ <;> simp [h]
        rw [haffected', haffected, hforward]
        by_cases hkey : key = key₀
        · subst hkey
          rw [if_pos rfl, isSome_lookup_tfMapOf]
          simp only [List.mem_cons, List.map_cons, Prod.mk.injEq, true_and, true_or]
          constructor
          · intro hcase
            rcases hcase with (h | h | h) | ⟨text, hmem, h⟩ | ⟨-, h⟩
            · exact .inl h
            · exact .inr (.inr h)
            · exact .inr (.inl ⟨text₀, .inl rfl, h⟩)
            · exact .inr (.inl ⟨text, .inr hmem, h⟩)
            · exact .inr (.inl ⟨text₀, .inl rfl, h⟩)
          · intro hcase
            rcases hcase with h | ⟨text, rfl | hmem, h⟩ | h
            · exact .inl (.inl h)
            · exact .inl (.inr (.inr h))
            · exact .inr (.inl ⟨text, hmem, h⟩)
            · exact .inl (.inr (.inl h))
        · rw [if_neg hkey]
          simp [hkey]

/-! ## The whole operation -/

/-- A document of the batch has the term, or had it before. -/
def Touches (segmenter : Segmenter) (forward : Table String TfMap) (docs : List (String × String))
    (term : String) : Prop :=
  ∃ docKey text, (docKey, text) ∈ docs ∧ (term ∈ segmenter.tokenize text ∨
    ((forward.lookup docKey).bind (·.lookup term)).isSome = true)

/-- A batch acts on the postings of every term by one delta. -/
theorem PostingView.indexBatch {host : FtsHost} (v : PostingView host) (order : HashOrder)
    {engine : FtsEngine} (h : v.Inv engine) (hplain : engine.PlainTerms)
    (docs : List (String × String)) :
    ∃ engine', engine.indexBatch host order docs = .ok engine' ∧ v.Inv engine' ∧
      engine'.forward = storeForward host.segmenter engine.forward docs ∧
      engine'.stats =
        some (engine.gatherBatch host { stats := engine.getStats } docs).2.stats ∧
      (∀ term docKey, v.posting engine' term docKey =
        (lastEntry host.segmenter docs term docKey).or
          (if docKey ∈ docs.map (·.1) ∧
              ((engine.forward.lookup docKey).bind (·.lookup term)).isSome = true then none
          else v.posting engine term docKey)) ∧
      ∀ term, (Touches host.segmenter engine.forward docs term → v.old engine' term = none) ∧
        (¬Touches host.segmenter engine.forward docs term →
          v.old engine' term = v.old engine term) := by
  have hgather := gatherBatch_spec host engine { stats := engine.getStats } docs
  unfold FtsEngine.indexBatch
  generalize engine.gatherBatch host { stats := engine.getStats } docs = gathered at hgather ⊢
  rcases gathered with ⟨engine₁, batch⟩
  rcases hgather with ⟨hengine, hentries, haffected, hnonempty⟩
  have hnone : ({ stats := engine.getStats } : Batch).NonemptySets := by
    intro term docKeys hlookup
    cases hlookup
  have hempty : ∀ term, ({ stats := engine.getStats } : Batch).affected term = [] := fun _ => rfl
  have hstart : ∀ term, ({ stats := engine.getStats } : Batch).entries term = [] := fun _ => rfl
  simp only [hstart, List.nil_append] at hentries
  simp only [hempty, List.not_mem_nil, false_or] at haffected
  dsimp only at hengine hentries haffected hnonempty ⊢
  subst hengine
  generalize hstored : ({ engine with
    forward := storeForward host.segmenter engine.forward docs } : FtsEngine) = stored
  have hinv : v.Inv stored := by
    subst hstored
    exact v.inv_frame engine _ _ h
  have hmem : ∀ term, term ∈ order.arrange batch.affectedDocsByTerm.keys ↔
      ∃ docKey, docKey ∈ batch.affected term := by
    intro term
    rw [(order.perm _).mem_iff, Table.mem_keys_iff, Batch.affected]
    constructor
    · intro hex
      rcases hex with ⟨docKeys, hlookup⟩
      obtain ⟨docKey, hdocKey⟩ := List.exists_mem_of_ne_nil _ (hnonempty hnone term docKeys hlookup)
      exact ⟨docKey, by rw [hlookup]; exact hdocKey⟩
    · intro hex
      rcases hex with ⟨docKey, hdocKey⟩
      cases hlookup : batch.affectedDocsByTerm.lookup term with
      | none => simp [hlookup] at hdocKey
      | some docKeys => exact ⟨docKeys, rfl⟩
  have hcolon : ∀ term ∈ order.arrange batch.affectedDocsByTerm.keys, ':' ∉ term.toList := by
    intro term hterm
    obtain ⟨docKey, hdocKey⟩ := (hmem term).mp hterm
    rcases (haffected docKey term).mp hdocKey with ⟨text, -, htoken⟩ | ⟨-, hold⟩
    · exact Segmenter.colon_notMem_of_tokenize htoken
    · cases hlookup : engine.forward.lookup docKey with
      | none => simp [hlookup] at hold
      | some tf =>
          rw [hlookup] at hold
          exact hplain docKey tf hlookup term hold
  obtain ⟨engine', hok, hinv', hforward, -, hposting, hold⟩ :=
    v.foldlM_applyTermDelta hinv
      ((order.perm _).nodup_iff.mpr batch.affectedDocsByTerm.keys_nodup) hcolon
      fun term => ⟨batch.entries term, batch.affected term⟩
  refine ⟨engine'.putStats batch.stats, ?_, v.inv_frame engine' _ _ hinv',
    hforward.trans (by rw [← hstored]), rfl, ?_, ?_⟩
  · have hok' : List.foldlM (fun engine term => applyTermDelta host engine term
        (batch.entries term) (batch.affected term)) stored
        (order.arrange batch.affectedDocsByTerm.keys) = .ok engine' := hok
    show (List.foldlM (fun engine term => applyTermDelta host engine term
      (batch.entries term) (batch.affected term)) stored
      (order.arrange batch.affectedDocsByTerm.keys) >>= _) = _
    rw [hok']
    rfl
  · intro term docKey
    have hread := hposting term docKey
    have hbase : v.posting stored term docKey = v.posting engine term docKey := by
      subst hstored
      exact congrFun (congrFun (v.posting_frame engine _ _) term) docKey
    have hlast' : v.posting (engine'.putStats batch.stats) = v.posting engine' :=
      v.posting_frame engine' _ _
    rw [hlast']
    rw [hbase] at hread
    dsimp only at hread
    rw [hentries, ← lastEntry] at hread
    refine hread.trans ?_
    cases hlast : lastEntry host.segmenter docs term docKey with
    | some entry =>
        have hoccurs := lastEntry_isSome.mp (Option.isSome_of_eq_some hlast)
        have hterm : term ∈ order.arrange batch.affectedDocsByTerm.keys :=
          (hmem term).mpr ⟨docKey, (haffected docKey term).mpr (.inl hoccurs)⟩
        rw [if_pos hterm]
        rfl
    | none =>
        have hnever : ¬∃ text, (docKey, text) ∈ docs ∧ term ∈ host.segmenter.tokenize text := by
          rw [← lastEntry_isSome, hlast]
          simp
        have htouched : docKey ∈ batch.affected term ↔ docKey ∈ docs.map (·.1) ∧
            ((engine.forward.lookup docKey).bind (·.lookup term)).isSome = true := by
          rw [haffected]
          simp only [hnever, false_or]
        rw [Option.none_or, Option.none_or]
        simp only [← htouched]
        by_cases hdoc : docKey ∈ batch.affected term
        · rw [if_pos ((hmem term).mpr ⟨docKey, hdoc⟩), if_pos hdoc]
        · rw [if_neg hdoc]
          split <;> rfl
  · intro term
    have hlast : v.old (engine'.putStats batch.stats) = v.old engine' :=
      v.old_frame engine' _ _
    have hbase : v.old stored term = v.old engine term := by
      subst hstored
      exact congrFun (v.old_frame engine _ _) term
    have htouched : term ∈ order.arrange batch.affectedDocsByTerm.keys ↔
        Touches host.segmenter engine.forward docs term := by
      rw [hmem]
      simp only [haffected]
      constructor
      · rintro ⟨docKey, ⟨text, htext, hterm⟩ | ⟨hdoc, hprevious⟩⟩
        · exact ⟨docKey, text, htext, .inl hterm⟩
        · obtain ⟨doc, hmemDoc, rfl⟩ := List.mem_map.mp hdoc
          exact ⟨doc.1, doc.2, hmemDoc, .inr hprevious⟩
      · rintro ⟨docKey, text, htext, hterm | hprevious⟩
        · exact ⟨docKey, .inl ⟨text, htext, hterm⟩⟩
        · exact ⟨docKey, .inr ⟨List.mem_map.mpr ⟨_, htext, rfl⟩, hprevious⟩⟩
    rw [hlast, hold, hbase, ← htouched]
    exact ⟨fun hterm => if_pos hterm, fun hterm => if_neg hterm⟩

theorem indexBatch_spec (host : FtsHost) (order : HashOrder) {engine : FtsEngine}
    (h : engine.Coherent) (hplain : engine.PlainTerms) (docs : List (String × String)) :
    ∃ engine', engine.indexBatch host order docs = .ok engine' ∧ engine'.Coherent ∧
      engine'.forward = storeForward host.segmenter engine.forward docs ∧
      engine'.stats =
        some (engine.gatherBatch host { stats := engine.getStats } docs).2.stats ∧
      ∀ term docKey, engine'.posting term docKey =
        (lastEntry host.segmenter docs term docKey).or
          (if docKey ∈ docs.map (·.1) ∧
              ((engine.forward.lookup docKey).bind (·.lookup term)).isSome = true then none
          else engine.posting term docKey) := by
  obtain ⟨engine', hok, hcoherent, hforward, hstats, hposting, -⟩ :=
    (coherentView host).indexBatch order h hplain docs
  exact ⟨engine', hok, hcoherent, hforward, hstats, hposting⟩

end FtsEngine

end BenShu.Engram
