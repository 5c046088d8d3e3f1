import BenShu.Engram.FtsPostings

/-!
# What the index operations do to the postings

Each operation succeeds on a coherent engine. Its effect is stated on the
forward index, the statistics and the postings.
-/

namespace BenShu.Engram

open DeltaLog

/-! ## Term counts -/

theorem lookup_bump (tf : TfMap) (term other : String) :
    ((tf.bump term).lookup other).isSome = true ↔ other = term ∨ (tf.lookup other).isSome = true := by
  rw [TfMap.bump, Table.lookup_insert]
  by_cases h : other = term <;> simp [h]

theorem isSome_lookup_foldl_bump (tf : TfMap) (terms : List String) (term : String) :
    ((terms.foldl TfMap.bump tf).lookup term).isSome = true ↔
      term ∈ terms ∨ (tf.lookup term).isSome = true := by
  induction terms generalizing tf with
  | nil => simp
  | cons first terms ih =>
      rw [List.foldl_cons, ih, lookup_bump, List.mem_cons]
      tauto

theorem isSome_lookup_tfMapOf {terms : List String} {term : String} :
    ((tfMapOf terms).lookup term).isSome = true ↔ term ∈ terms := by
  rw [tfMapOf, isSome_lookup_foldl_bump]
  simp

theorem docLength_foldl_bump (tf : TfMap) (terms : List String) :
    (terms.foldl TfMap.bump tf).total id % 2 ^ 32 = (tf.total id + terms.length) % 2 ^ 32 := by
  induction terms generalizing tf with
  | nil => rfl
  | cons first terms ih =>
      have hstep : (tf.bump first).total id % 2 ^ 32 = (tf.total id + 1) % 2 ^ 32 := by
        have herase := Table.total_erase id tf first
        rw [Option.map_id, id] at herase
        rw [TfMap.bump, Table.total_insert, id]
        omega
      rw [List.foldl_cons, ih, List.length_cons]
      omega

theorem docLength_tfMapOf (terms : List String) : (tfMapOf terms).docLength = docLengthOf terms := by
  rw [TfMap.docLength, tfMapOf, docLength_foldl_bump, Table.total_empty, Nat.zero_add, docLengthOf]

namespace FtsEngine

/-- The term counts of every stored document are those of colon-free terms. -/
def PlainTerms (engine : FtsEngine) : Prop :=
  ∀ docKey tf, engine.forward.lookup docKey = some tf →
    ∀ term, (tf.lookup term).isSome = true → ':' ∉ term.toList

def entryOf (docKey : String) (docLength : Nat) (tf : TfMap) (term : String) :
    Option PostingEntry :=
  (tf.lookup term).map fun count =>
    { docKey := docKey, termFrequency := count, docLength := docLength }

variable {host : FtsHost} {engine : FtsEngine}

/-- Distinct terms are changed one after the other, each by its own delta. -/
theorem PostingView.foldlM_applyTermDelta (v : PostingView host) (h : v.Inv engine)
    {terms : List String} (hnodup : terms.Nodup) (hterms : ∀ term ∈ terms, ':' ∉ term.toList)
    (delta : String → Delta String PostingEntry) :
    ∃ engine', terms.foldlM (fun engine term =>
        applyTermDelta host engine term (delta term).added (delta term).removed) engine =
          .ok engine' ∧
      v.Inv engine' ∧ engine'.forward = engine.forward ∧ engine'.stats = engine.stats ∧
      (∀ term docKey, v.posting engine' term docKey =
        if term ∈ terms then
          (lastWith PostingEntry.docKey (delta term).added docKey).or
            (if docKey ∈ (delta term).removed then none else v.posting engine term docKey)
        else v.posting engine term docKey) ∧
      ∀ term, v.old engine' term = if term ∈ terms then none else v.old engine term := by
  induction terms generalizing engine with
  | nil => exact ⟨engine, rfl, h, rfl, rfl, by simp, by simp⟩
  | cons first terms ih =>
      rcases List.nodup_cons.mp hnodup with ⟨hfirst, hrest⟩
      obtain ⟨engine₁, hok₁, hinv₁, hforward₁, hstats₁, hposting₁, hold₁⟩ :=
        v.applies engine first (delta first).added (delta first).removed h
          (hterms first List.mem_cons_self)
      obtain ⟨engine₂, hok₂, hinv₂, hforward₂, hstats₂, hposting₂, hold₂⟩ :=
        ih hinv₁ hrest fun term hterm => hterms term (List.mem_cons_of_mem _ hterm)
      refine ⟨engine₂, ?_, hinv₂, hforward₂.trans hforward₁, hstats₂.trans hstats₁, ?_, ?_⟩
      · rw [List.foldlM_cons, hok₁]
        exact hok₂
      · intro term docKey
        rw [hposting₂, hposting₁]
        by_cases hterm : term = first
        · subst hterm
          simp [hfirst]
        · simp [hterm]
      · intro term
        rw [hold₂, hold₁]
        by_cases hterm : term = first
        · simp [hterm]
        · simp [hterm]

/-! ## Indexing one document -/

theorem lastWith_toList {docKey other : String} {docLength : Nat} (tf : TfMap) (term : String) :
    lastWith PostingEntry.docKey (entryOf docKey docLength tf term).toList other =
      if other = docKey then entryOf docKey docLength tf term else none := by
  unfold entryOf
  cases tf.lookup term with
  | none => simp [lastWith]
  | some count =>
      by_cases h : other = docKey
      · simp [lastWith, h]
      · have hne : ¬docKey = other := fun heq => h heq.symm
        simp [lastWith, h, hne]

theorem PostingView.indexDocument (v : PostingView host) (order : HashOrder) (h : v.Inv engine)
    (hplain : engine.PlainTerms) (docKey text : String) :
    ∃ engine', engine.indexDocument host order docKey text = .ok engine' ∧ v.Inv engine' ∧
      engine'.forward =
        engine.forward.insert docKey (tfMapOf (host.segmenter.tokenize text)) ∧
      engine'.stats = some (replaceStats engine.getStats (engine.forward.lookup docKey)
        (docLengthOf (host.segmenter.tokenize text))) ∧
      (∀ term other, v.posting engine' term other =
        if other = docKey then
          (entryOf docKey (docLengthOf (host.segmenter.tokenize text))
            (tfMapOf (host.segmenter.tokenize text)) term).or
            (if ((engine.forward.lookup docKey).bind (·.lookup term)).isSome then none
            else v.posting engine term docKey)
        else v.posting engine term other) ∧
      ∀ term, v.old engine' term =
        if term ∈ host.segmenter.tokenize text ∨
            ((engine.forward.lookup docKey).bind (·.lookup term)).isSome = true then none
        else v.old engine term := by
  unfold FtsEngine.indexDocument
  dsimp only
  generalize hterms : host.segmenter.tokenize text = terms
  generalize hprevious : engine.forward.lookup docKey = previous
  generalize hbase : (engine.putStats (replaceStats engine.getStats previous
    (docLengthOf terms))).putFtsForward docKey (tfMapOf terms) = base
  have hinv : v.Inv base := by
    subst hbase
    exact v.inv_frame engine _ _ h
  have hmem : ∀ term, term ∈ order.arrange
      ((tfMapOf terms).keys ++ (previous.map (·.keys)).getD []).dedup ↔
      ((tfMapOf terms).lookup term).isSome = true ∨
        (previous.bind (·.lookup term)).isSome = true := by
    intro term
    rw [(order.perm _).mem_iff, List.mem_dedup, List.mem_append, ← AList.mem_keys,
      ← AList.lookup_isSome]
    cases previous with
    | none => simp
    | some tf => simp [← AList.mem_keys, ← AList.lookup_isSome]
  have hcolon : ∀ term ∈ order.arrange
      ((tfMapOf terms).keys ++ (previous.map (·.keys)).getD []).dedup, ':' ∉ term.toList := by
    intro term hterm
    rcases (hmem term).mp hterm with hnew | hold
    · rw [isSome_lookup_tfMapOf, ← hterms] at hnew
      exact Segmenter.colon_notMem_of_tokenize hnew
    · cases previous with
      | none => simp at hold
      | some tf => exact hplain docKey tf hprevious term hold
  obtain ⟨engine', hok, hinv', hforward, hstats, hposting, hold⟩ :=
    v.foldlM_applyTermDelta hinv ((order.perm _).nodup_iff.mpr (List.nodup_dedup _)) hcolon
      (termDelta docKey previous (tfMapOf terms) (docLengthOf terms))
  refine ⟨engine', hok, hinv', ?_, ?_, ?_, ?_⟩
  · rw [hforward, ← hbase]
    rfl
  · rw [hstats, ← hbase]
    rfl
  · intro term other
    have hbasePosting : v.posting base term other = v.posting engine term other := by
      rw [← hbase]
      exact congrFun (congrFun (v.posting_frame engine _ _) term) other
    have hadded : lastWith PostingEntry.docKey
        (termDelta docKey previous (tfMapOf terms) (docLengthOf terms) term).added other = _ :=
      lastWith_toList (tfMapOf terms) term
    rw [hposting, hadded, hbasePosting]
    simp only [hmem]
    by_cases hother : other = docKey
    · subst hother
      cases hnew : (tfMapOf terms).lookup term <;>
        cases hold : previous.bind (·.lookup term) <;>
          simp [entryOf, termDelta, hnew, hold]
    · cases hold : previous.bind (·.lookup term) <;> simp [termDelta, hold, hother]
  · intro term
    have hbaseOld : v.old base term = v.old engine term := by
      rw [← hbase]
      exact congrFun (v.old_frame engine _ _) term
    rw [hold, hbaseOld]
    simp only [hmem, isSome_lookup_tfMapOf]

theorem indexDocument_spec (host : FtsHost) (order : HashOrder) (h : engine.Coherent)
    (hplain : engine.PlainTerms) (docKey text : String) :
    ∃ engine', engine.indexDocument host order docKey text = .ok engine' ∧ engine'.Coherent ∧
      engine'.forward =
        engine.forward.insert docKey (tfMapOf (host.segmenter.tokenize text)) ∧
      engine'.stats = some (replaceStats engine.getStats (engine.forward.lookup docKey)
        (docLengthOf (host.segmenter.tokenize text))) ∧
      ∀ term other, engine'.posting term other =
        if other = docKey then
          (entryOf docKey (docLengthOf (host.segmenter.tokenize text))
            (tfMapOf (host.segmenter.tokenize text)) term).or
            (if ((engine.forward.lookup docKey).bind (·.lookup term)).isSome then none
            else engine.posting term docKey)
        else engine.posting term other := by
  obtain ⟨engine', hok, hcoherent, hforward, hstats, hposting, -⟩ :=
    (coherentView host).indexDocument order h hplain docKey text
  exact ⟨engine', hok, hcoherent, hforward, hstats, hposting⟩

/-! ## Deleting a document -/

/-- The first length above zero in the document's postings, in the order of its terms. -/
def foundLength (engine : FtsEngine) (docKey : String) (terms : List String) : Nat :=
  ((terms.map fun term => ((engine.posting term docKey).map (·.docLength)).getD 0).find?
    (0 < ·)).getD 0

def statsAfterDelete (engine : FtsEngine) (order : HashOrder) (docKey : String) :
    Option FtsStats :=
  match engine.forward.lookup docKey with
  | none => engine.stats
  | some tf =>
      let docLen := engine.foundLength docKey (order.arrange tf.keys)
      if docLen > 0 then some (engine.getStats.remove docLen) else engine.stats

theorem deleteTerms_spec (host : FtsHost) (docKey : String) (h : engine.Coherent) (docLen : Nat)
    {terms : List String} (hnodup : terms.Nodup) (hterms : ∀ term ∈ terms, ':' ∉ term.toList) :
    ∃ engine', engine.deleteTerms host docKey docLen terms =
        .ok (engine', if docLen = 0 then engine.foundLength docKey terms else docLen) ∧
      engine'.Coherent ∧ engine'.forward = engine.forward ∧ engine'.stats = engine.stats ∧
      ∀ term other, engine'.posting term other =
        if term ∈ terms ∧ other = docKey then none else engine.posting term other := by
  induction terms generalizing engine docLen with
  | nil => exact ⟨engine, by simp [deleteTerms, foundLength], h, rfl, rfl, by simp⟩
  | cons first terms ih =>
      rcases List.nodup_cons.mp hnodup with ⟨hfirst, hrest⟩
      have hcolon := hterms first List.mem_cons_self
      obtain ⟨engine₁, hget, hcoherent₁, hinverted₁, hforward₁, hstats₁⟩ :=
        getPostingListInternal_spec h hcolon
      obtain ⟨engine₂, happly, hcoherent₂, hforward₂, hstats₂, hposting₂⟩ :=
        applyTermDelta_spec host hcoherent₁ hcolon [] [docKey]
      have hposting₁ : ∀ term other, engine₁.posting term other = engine.posting term other := by
        intro term other
        rw [posting, posting, deltasOf, deltasOf, hinverted₁]
      have hlast : ∀ other, lastWith PostingEntry.docKey [] other = none := fun other => rfl
      generalize hnext : (if docLen = 0 then
          (((engine.materialized first).entries.find? fun entry => entry.docKey == docKey).map
            (·.docLength)).getD 0 else docLen) = next
      obtain ⟨engine₃, hok₃, hcoherent₃, hforward₃, hstats₃, hposting₃⟩ :=
        ih hcoherent₂ next hrest fun term hterm => hterms term (List.mem_cons_of_mem _ hterm)
      -- the later terms still have their postings
      have hlater : (terms.map fun term =>
          ((engine₂.posting term docKey).map (·.docLength)).getD 0) =
          terms.map fun term => ((engine.posting term docKey).map (·.docLength)).getD 0 := by
        apply List.map_congr_left
        intro term hterm
        have hne : term ≠ first := fun heq => hfirst (heq ▸ hterm)
        rw [hposting₂, if_neg hne, hposting₁]
      have hfound : ((engine.materialized first).entries.find? fun entry =>
          entry.docKey == docKey) = engine.posting first docKey := by
        cases hfind : (engine.materialized first).entries.find? fun entry =>
            entry.docKey == docKey with
        | none =>
            cases hentry : engine.posting first docKey with
            | none => rfl
            | some entry =>
                have hkey : entry.docKey = docKey := key_of_replay hentry
                have hmem : entry ∈ (engine.materialized first).entries :=
                  mem_materialized.mpr (hkey ▸ hentry)
                exact absurd hkey (by simpa using List.find?_eq_none.mp hfind entry hmem)
        | some entry =>
            have hkey : entry.docKey = docKey := by simpa using List.find?_some hfind
            rw [← hkey]
            exact (mem_materialized.mp (List.mem_of_find?_eq_some hfind)).symm
      refine ⟨engine₃, ?_, hcoherent₃, ?_, ?_, ?_⟩
      · simp only [deleteTerms, hget, bind, Except.bind, happly, hnext, hok₃]
        unfold foundLength
        rw [hlater, ← hnext, hfound, List.map_cons, List.find?_cons]
        congr 2
        by_cases hzero : docLen = 0
        · by_cases hlen : ((engine.posting first docKey).map (·.docLength)).getD 0 = 0
          · simp only [hzero, hlen, if_true, Nat.lt_irrefl, decide_false]
          · have hpos : 0 < ((engine.posting first docKey).map (·.docLength)).getD 0 :=
              Nat.pos_of_ne_zero hlen
            simp only [hzero, hlen, if_true, if_false, hpos, decide_true, Option.getD_some]
        · simp only [hzero, if_false]
      · rw [hforward₃, hforward₂, hforward₁]
      · rw [hstats₃, hstats₂, hstats₁]
      · intro term other
        rw [hposting₃, hposting₂, hlast, hposting₁, hposting₁]
        by_cases hterm : term = first
        · subst hterm
          by_cases hother : other = docKey <;> simp [hfirst, hother]
        · simp [hterm]

/-- Deleting a document drops its postings for the terms of its forward index. Its
length is the first one found there that is not zero. -/
theorem deleteDocument_spec (host : FtsHost) (order : HashOrder) (h : engine.Coherent)
    (hplain : engine.PlainTerms) (docKey : String) :
    ∃ engine', engine.deleteDocument host order docKey = .ok engine' ∧ engine'.Coherent ∧
      engine'.forward = engine.forward.erase docKey ∧
      (∀ term other, engine'.posting term other =
        if ((engine.forward.lookup docKey).bind (·.lookup term)).isSome ∧ other = docKey then none
        else engine.posting term other) ∧
      engine'.stats = engine.statsAfterDelete order docKey := by
  unfold deleteDocument statsAfterDelete
  cases hlookup : engine.forward.lookup docKey with
  | none =>
      refine ⟨engine.deleteFtsForward docKey, rfl,
        ⟨h.stateTerm, h.segmentKeys, h.noLegacy, h.cache⟩, rfl, ?_, rfl⟩
      intro term other
      simp only [Option.bind_none, Option.isSome_none, Bool.false_eq_true, false_and, if_false]
      rfl
  | some tf =>
      have hmem : ∀ term, term ∈ order.arrange tf.keys ↔ (tf.lookup term).isSome = true := by
        intro term
        rw [(order.perm _).mem_iff, ← AList.mem_keys, ← AList.lookup_isSome]
      obtain ⟨engine', hok, hcoherent', hforward, hstats, hposting⟩ :=
        deleteTerms_spec host docKey h 0 ((order.perm _).nodup_iff.mpr tf.keys_nodup)
          fun term hterm => hplain docKey tf hlookup term ((hmem term).mp hterm)
      rw [if_pos rfl] at hok
      dsimp only
      generalize engine.foundLength docKey (order.arrange tf.keys) = docLen at hok ⊢
      simp only [hmem] at hposting
      simp only [hok, bind, Except.bind]
      -- what is stored after the terms, whatever the statistics become
      have hcoherent : ∀ stats,
          ({ engine' with stats } : FtsEngine).deleteFtsForward docKey |>.Coherent := fun _ =>
        ⟨hcoherent'.stateTerm, hcoherent'.segmentKeys, hcoherent'.noLegacy, hcoherent'.cache⟩
      have hforward' := congrArg (fun f : Table String TfMap => f.erase docKey) hforward
      by_cases hpos : docLen > 0
      · rw [if_pos hpos, if_pos hpos]
        exact ⟨_, rfl, hcoherent _, hforward', hposting, rfl⟩
      · rw [if_neg hpos, if_neg hpos]
        exact ⟨_, rfl, hcoherent engine'.stats, hforward', hposting, hstats⟩

end FtsEngine

end BenShu.Engram
