import BenShu.Engram.FtsBatch
import BenShu.Lib.FallibleRun

/-!
# Agreement of the inverted index with the forward index

The forward index says which posting every document calls for. Single indexing and
deletion keep the postings equal to it. A batch keeps them equal exactly when a key
given twice has no term that its last text lacks.
-/

namespace BenShu.Engram

open DeltaLog

namespace FtsEngine

/-! ## Listed postings -/

def listed (engine : FtsEngine) (term docKey : String) : Option PostingEntry :=
  (engine.forward.lookup docKey).bind fun tf => entryOf docKey tf.docLength tf term

theorem listed_isSome (engine : FtsEngine) (term docKey : String) :
    (engine.listed term docKey).isSome =
      ((engine.forward.lookup docKey).bind (·.lookup term)).isSome := by
  unfold listed entryOf
  cases engine.forward.lookup docKey <;> simp

theorem listed_eq_some {engine : FtsEngine} {term docKey : String} {entry : PostingEntry} :
    engine.listed term docKey = some entry ↔
      entry.docKey = docKey ∧ ∃ tf, engine.forward.lookup docKey = some tf ∧
        tf.lookup term = some entry.termFrequency ∧ entry.docLength = tf.docLength := by
  unfold listed entryOf
  rw [Option.bind_eq_some_iff]
  constructor
  · intro h
    rcases h with ⟨tf, htf, hentry⟩
    rcases Option.map_eq_some_iff.mp hentry with ⟨count, hcount, heq⟩
    subst heq
    exact ⟨rfl, tf, htf, hcount, rfl⟩
  · intro h
    rcases h with ⟨hkey, tf, htf, hcount, hlength⟩
    refine ⟨tf, htf, ?_⟩
    rw [hcount, Option.map_some, ← hkey, ← hlength]

def Covers (engine : FtsEngine) : Prop :=
  ∀ term docKey entry, engine.listed term docKey = some entry →
    engine.posting term docKey = some entry

/-- What holds of every engine that was filled by the operations. -/
structure Indexed (engine : FtsEngine) : Prop where
  coherent : engine.Coherent
  plain : engine.PlainTerms
  covers : engine.Covers

theorem new_indexed : ({} : FtsEngine).Indexed where
  coherent := new_coherent
  plain := by simp [PlainTerms]
  covers := by simp [Covers, listed]

def Exact (engine : FtsEngine) : Prop :=
  ∀ term docKey, engine.posting term docKey = engine.listed term docKey

variable {host : FtsHost} {engine engine' : FtsEngine}

theorem plainTerms_of_tokenize {docKey text term : String} {entry : PostingEntry}
    (h : docEntry host.segmenter term (docKey, text) = some entry) : ':' ∉ term.toList :=
  Segmenter.colon_notMem_of_tokenize (docEntry_isSome.mp (Option.isSome_of_eq_some h))

theorem plainTerms_iff : engine.PlainTerms ↔
    ∀ term docKey entry, engine.listed term docKey = some entry → ':' ∉ term.toList := by
  constructor
  · intro h term docKey entry hlisted
    rcases listed_eq_some.mp hlisted with ⟨-, tf, htf, hcount, -⟩
    exact h docKey tf htf term (Option.isSome_of_eq_some hcount)
  · intro h docKey tf htf term hterm
    have hlisted : (engine.listed term docKey).isSome = true := by
      rw [listed_isSome, htf]
      exact hterm
    rcases Option.isSome_iff_exists.mp hlisted with ⟨entry, hentry⟩
    exact h term docKey entry hentry

/-! ## Reading the agreement off a posting list -/

/-- The materialized posting list of a term has one entry for each document whose
forward index lists the term, with its count and its length, and no other. -/
structure Agrees (engine : FtsEngine) : Prop where
  readable : ∀ term, ':' ∉ term.toList → ∃ read, engine.getPostingListInternal term = .ok read
  plain : engine.PlainTerms
  once : ∀ term engine' list, engine.getPostingListInternal term = .ok (engine', list) →
    (list.entries.map (·.docKey)).Nodup
  listed : ∀ term engine' list, engine.getPostingListInternal term = .ok (engine', list) →
    ∀ entry, entry ∈ list.entries ↔ ∃ tf, engine.forward.lookup entry.docKey = some tf ∧
      tf.lookup term = some entry.termFrequency ∧ entry.docLength = tf.docLength

theorem Coherent.deltasOf_colon (h : engine.Coherent) {term : String}
    (hterm : ':' ∈ term.toList) : engine.deltasOf term = [] := by
  unfold deltasOf
  cases hlookup : engine.inverted.lookup term with
  | none => rfl
  | some record =>
      cases record with
      | state state => exact absurd hterm (h.stateTerm term state hlookup).2.1
      | segment segment => rfl
      | legacy list => rfl

theorem Coherent.entries_of_read (h : engine.Coherent) {term : String} {list : PostingList}
    (hread : engine.getPostingListInternal term = .ok (engine', list)) :
    list.entries = (engine.materialized term).entries := by
  by_cases hterm : ':' ∈ term.toList
  · have hnone : ∀ state, engine.inverted.lookup term ≠ some (.state state) := by
      intro state hstate
      exact (h.stateTerm term state hstate).2.1 hterm
    have hmaterialized : (engine.materialized term).entries = [] := by
      rw [materialized, h.deltasOf_colon hterm]
      rfl
    have hget := h.cache.get term
    unfold getPostingListInternal at hread
    cases hhit : engine.postingCache.get term with
    | mk hit cache =>
        rw [hhit] at hread hget
        cases hit with
        | some cached =>
            obtain ⟨⟨state, hstate⟩, -⟩ := hget.2 cached rfl
            exact absurd hstate (hnone state)
        | none =>
            cases hlookup : engine.inverted.lookup term with
            | none =>
                rw [hlookup] at hread
                cases hread
                rw [hmaterialized]
            | some record =>
                rw [hlookup] at hread
                cases record with
                | state state => exact absurd hlookup (hnone state)
                | segment segment => cases hread
                | legacy legacy => exact absurd hlookup (h.noLegacy term legacy)
  · obtain ⟨engine₁, hok, -⟩ := getPostingListInternal_spec h hterm
    rw [hread] at hok
    cases hok
    rfl

theorem agrees_iff_exact (h : engine.Indexed) : engine.Agrees ↔ engine.Exact := by
  have hmem : ∀ term entry, entry ∈ (engine.materialized term).entries ↔
      engine.posting term entry.docKey = some entry := fun term entry => mem_materialized
  constructor
  · intro hagrees term docKey
    by_cases hterm : ':' ∈ term.toList
    · have hnone : engine.posting term docKey = none := by
        rw [posting, h.coherent.deltasOf_colon hterm]
        rfl
      rw [hnone]
      cases hlisted : engine.listed term docKey with
      | none => rfl
      | some entry => exact absurd hterm (plainTerms_iff.mp h.plain term docKey entry hlisted)
    · obtain ⟨engine₁, hread, -⟩ := getPostingListInternal_spec h.coherent hterm
      have hlists := hagrees.listed term engine₁ _ hread
      cases hposting : engine.posting term docKey with
      | none =>
          cases hlisted : engine.listed term docKey with
          | none => rfl
          | some entry => exact absurd (h.covers term docKey entry hlisted) (by simp [hposting])
      | some entry =>
          have hkey : entry.docKey = docKey := key_of_replay hposting
          have hentry : entry ∈ (engine.materialized term).entries := by
            rw [hmem, hkey, hposting]
          have hin := (hlists entry).mp hentry
          rw [hkey] at hin
          exact (listed_eq_some.mpr ⟨hkey, hin⟩).symm
  · intro hexact
    refine ⟨?_, h.plain, ?_, ?_⟩
    · intro term hterm
      obtain ⟨engine₁, hread, -⟩ := getPostingListInternal_spec h.coherent hterm
      exact ⟨_, hread⟩
    · intro term engine₁ list hread
      rw [h.coherent.entries_of_read hread]
      exact materialized_nodup engine term
    · intro term engine₁ list hread entry
      rw [h.coherent.entries_of_read hread, hmem, hexact, listed_eq_some]
      simp

/-! ## The operations on listed postings -/

theorem listed_indexDocument {docKey text : String} (hforward : engine'.forward =
    engine.forward.insert docKey (tfMapOf (host.segmenter.tokenize text))) (term other : String) :
    engine'.listed term other =
      if other = docKey then docEntry host.segmenter term (docKey, text)
      else engine.listed term other := by
  unfold listed
  rw [hforward, Table.lookup_insert]
  by_cases h : other = docKey
  · rw [if_pos h, if_pos h, h, Option.bind_some, docLength_tfMapOf]
    rfl
  · rw [if_neg h, if_neg h]

theorem listed_indexBatch_given {docs : List (String × String)} {docKey text : String}
    (hforward : engine'.forward = storeForward host.segmenter engine.forward docs)
    (hlast : lastText docs docKey = some text) (term : String) :
    engine'.listed term docKey = docEntry host.segmenter term (docKey, text) := by
  unfold listed
  rw [hforward, lookup_storeForward, hlast, Option.map_some, Option.some_or, Option.bind_some,
    docLength_tfMapOf]
  rfl

theorem listed_indexBatch_other {docs : List (String × String)} {docKey : String}
    (hforward : engine'.forward = storeForward host.segmenter engine.forward docs)
    (hlast : lastText docs docKey = none) (term : String) :
    engine'.listed term docKey = engine.listed term docKey := by
  unfold listed
  rw [hforward, lookup_storeForward, hlast, Option.map_none, Option.none_or]

theorem listed_deleteDocument {docKey : String}
    (hforward : engine'.forward = engine.forward.erase docKey) (term other : String) :
    engine'.listed term other = if other = docKey then none else engine.listed term other := by
  unfold listed
  rw [hforward, Table.lookup_erase]
  by_cases h : other = docKey
  · rw [if_pos h, if_pos h]
    rfl
  · rw [if_neg h, if_neg h]

/-! ## The operations keep the listed postings in place -/

theorem indexDocument_indexed (host : FtsHost) (order : HashOrder) (h : engine.Indexed)
    (docKey text : String) :
    ∃ engine', engine.indexDocument host order docKey text = .ok engine' ∧ engine'.Indexed ∧
      (engine.Exact → engine'.Exact) ∧
      engine'.forward =
        engine.forward.insert docKey (tfMapOf (host.segmenter.tokenize text)) ∧
      engine'.stats = some (replaceStats engine.getStats (engine.forward.lookup docKey)
        (docLengthOf (host.segmenter.tokenize text))) := by
  obtain ⟨engine', hok, hcoherent, hforward, hstats, hposting⟩ :=
    indexDocument_spec host order h.coherent h.plain docKey text
  have hlisted := listed_indexDocument hforward
  have hposting' : ∀ term other, engine'.posting term other =
      if other = docKey then (docEntry host.segmenter term (docKey, text)).or
        (if (engine.listed term docKey).isSome then none else engine.posting term docKey)
      else engine.posting term other := by
    intro term other
    rw [hposting, listed_isSome]
    rfl
  refine ⟨engine', hok, ⟨hcoherent, ?_, ?_⟩, ?_, hforward, hstats⟩
  · rw [plainTerms_iff]
    intro term other entry hentry
    rw [hlisted] at hentry
    by_cases hother : other = docKey
    · rw [if_pos hother] at hentry
      exact plainTerms_of_tokenize hentry
    · rw [if_neg hother] at hentry
      exact plainTerms_iff.mp h.plain term other entry hentry
  · intro term other entry hentry
    rw [hlisted] at hentry
    rw [hposting']
    by_cases hother : other = docKey
    · rw [if_pos hother] at hentry ⊢
      rw [hentry, Option.some_or]
    · rw [if_neg hother] at hentry ⊢
      exact h.covers term other entry hentry
  · intro hexact term other
    rw [hposting', hlisted]
    by_cases hother : other = docKey
    · rw [if_pos hother, if_pos hother, hexact]
      cases engine.listed term docKey <;> simp
    · rw [if_neg hother, if_neg hother, hexact]

theorem deleteDocument_indexed (host : FtsHost) (order : HashOrder) (h : engine.Indexed)
    (docKey : String) :
    ∃ engine', engine.deleteDocument host order docKey = .ok engine' ∧ engine'.Indexed ∧
      (engine.Exact → engine'.Exact) ∧ engine'.forward = engine.forward.erase docKey ∧
      engine'.stats = engine.statsAfterDelete order docKey := by
  obtain ⟨engine', hok, hcoherent, hforward, hposting, hstats⟩ :=
    deleteDocument_spec host order h.coherent h.plain docKey
  have hlisted := listed_deleteDocument hforward
  have hposting' : ∀ term other, engine'.posting term other =
      if (engine.listed term docKey).isSome ∧ other = docKey then none
      else engine.posting term other := by
    intro term other
    rw [hposting, listed_isSome]
  refine ⟨engine', hok, ⟨hcoherent, ?_, ?_⟩, ?_, hforward, hstats⟩
  · rw [plainTerms_iff]
    intro term other entry hentry
    rw [hlisted] at hentry
    split at hentry
    · cases hentry
    · exact plainTerms_iff.mp h.plain term other entry hentry
  · intro term other entry hentry
    rw [hlisted] at hentry
    rw [hposting']
    by_cases hother : other = docKey
    · rw [if_pos hother] at hentry
      cases hentry
    · rw [if_neg hother] at hentry
      simp only [hother, and_false, if_false]
      exact h.covers term other entry hentry
  · intro hexact term other
    rw [hposting', hlisted]
    by_cases hother : other = docKey
    · subst hother
      cases hentry : engine.listed term other <;> simp [hexact term other, hentry]
    · simp only [hother, and_false, if_false]
      exact hexact term other

/-! ## Batches -/

/-- Every term of a text given for a key is in the last text given for it. -/
def BatchKeepsTerms (segmenter : Segmenter) (docs : List (String × String)) : Prop :=
  ∀ docKey text last, (docKey, text) ∈ docs → lastText docs docKey = some last →
    ∀ term ∈ segmenter.tokenize text, term ∈ segmenter.tokenize last

/-- A batch leaves the listed postings in place. It keeps the agreement if no text
has a term that the last text of its key lacks, and breaks it otherwise. -/
theorem indexBatch_indexed (host : FtsHost) (order : HashOrder) (h : engine.Indexed)
    (docs : List (String × String)) :
    ∃ engine', engine.indexBatch host order docs = .ok engine' ∧ engine'.Indexed ∧
      (BatchKeepsTerms host.segmenter docs → engine.Exact → engine'.Exact) ∧
      (engine'.Exact → BatchKeepsTerms host.segmenter docs) ∧
      engine'.forward = storeForward host.segmenter engine.forward docs ∧
      engine'.stats =
        some (engine.gatherBatch host { stats := engine.getStats } docs).2.stats := by
  obtain ⟨engine', hok, hcoherent, hforward, hstats, hposting⟩ :=
    indexBatch_spec host order h.coherent h.plain docs
  have hposting' : ∀ term docKey, engine'.posting term docKey =
      (lastEntry host.segmenter docs term docKey).or
        (if docKey ∈ docs.map (·.1) ∧ (engine.listed term docKey).isSome = true then none
        else engine.posting term docKey) := by
    intro term docKey
    rw [hposting, listed_isSome]
  -- a key without a text keeps its postings
  have hother : ∀ term docKey, lastText docs docKey = none →
      engine'.posting term docKey = engine.posting term docKey ∧
        engine'.listed term docKey = engine.listed term docKey := by
    intro term docKey hlast
    have habsent : docKey ∉ docs.map (·.1) := by
      intro hmem
      rcases List.mem_map.mp hmem with ⟨doc, hdoc, hkey⟩
      exact lastText_eq_none.mp hlast doc.2 (hkey ▸ hdoc)
    have hnever : lastEntry host.segmenter docs term docKey = none :=
      lastEntry_eq_none fun text htext => absurd htext (lastText_eq_none.mp hlast text)
    refine ⟨?_, listed_indexBatch_other hforward hlast term⟩
    rw [hposting', hnever, Option.none_or, if_neg fun hgiven => habsent hgiven.1]
  refine ⟨engine', hok, ⟨hcoherent, ?_, ?_⟩, ?_, ?_, hforward, hstats⟩
  · rw [plainTerms_iff]
    intro term docKey entry hentry
    cases hlast : lastText docs docKey with
    | none =>
        rw [(hother term docKey hlast).2] at hentry
        exact plainTerms_iff.mp h.plain term docKey entry hentry
    | some text =>
        rw [listed_indexBatch_given hforward hlast] at hentry
        exact plainTerms_of_tokenize hentry
  · intro term docKey entry hentry
    cases hlast : lastText docs docKey with
    | none =>
        rw [(hother term docKey hlast).2] at hentry
        rw [(hother term docKey hlast).1]
        exact h.covers term docKey entry hentry
    | some text =>
        rw [listed_indexBatch_given hforward hlast] at hentry
        have hterm := docEntry_isSome.mp (Option.isSome_of_eq_some hentry)
        rw [hposting', lastEntry_of_lastText hlast hterm, hentry, Option.some_or]
  · intro hkeeps hexact term docKey
    cases hlast : lastText docs docKey with
    | none =>
        rw [(hother term docKey hlast).1, (hother term docKey hlast).2]
        exact hexact term docKey
    | some text =>
        rw [hposting', listed_indexBatch_given hforward hlast]
        by_cases hterm : term ∈ host.segmenter.tokenize text
        · rw [lastEntry_of_lastText hlast hterm]
          have hsome : (docEntry host.segmenter term (docKey, text)).isSome = true :=
            docEntry_isSome.mpr hterm
          cases hentry : docEntry host.segmenter term (docKey, text) with
          | none => simp [hentry] at hsome
          | some entry => rw [Option.some_or]
        · have hnever : lastEntry host.segmenter docs term docKey = none := by
            apply lastEntry_eq_none
            intro text' htext' hterm'
            exact hterm (hkeeps docKey text' text htext' hlast term hterm')
          have hgiven : docKey ∈ docs.map (·.1) :=
            List.mem_map.mpr ⟨(docKey, text), mem_of_lastText hlast, rfl⟩
          rw [hnever, docEntry_eq_none hterm, Option.none_or]
          cases hentry : engine.listed term docKey <;> simp [hgiven, hexact term docKey, hentry]
  · intro hexact docKey text last htext hlast term hterm
    by_contra hmissing
    have hnone : engine'.listed term docKey = none := by
      rw [listed_indexBatch_given hforward hlast]
      exact docEntry_eq_none hmissing
    have hstale : (lastEntry host.segmenter docs term docKey).isSome = true :=
      lastEntry_isSome.mpr ⟨text, htext, hterm⟩
    cases hentry : lastEntry host.segmenter docs term docKey with
    | none => simp [hentry] at hstale
    | some entry =>
        have hposted : engine'.posting term docKey = some entry := by
          rw [hposting', hentry, Option.some_or]
        rw [hexact, hnone] at hposted
        cases hposted

end FtsEngine

/-! ## Runs -/

/-- A batch must keep the terms of its repeated keys; the other operations are free. -/
def FtsOp.KeepsTerms (segmenter : Segmenter) : FtsOp → Prop
  | .indexBatch docs => FtsEngine.BatchKeepsTerms segmenter docs
  | _ => True

namespace FtsEngine

theorem perform_indexed (host : FtsHost) (engine : FtsEngine) (op : HashOrder × FtsOp)
    (h : engine.Indexed) :
    ∃ engine', engine.perform host op.1 op.2 = .ok engine' ∧ engine'.Indexed ∧
      (engine.Exact → (engine'.Exact ↔ op.2.KeepsTerms host.segmenter)) := by
  rcases op with ⟨order, op⟩
  cases op with
  | indexDocument docKey text =>
      obtain ⟨engine', hok, hindexed, hkeeps, -⟩ := indexDocument_indexed host order h docKey text
      exact ⟨engine', hok, hindexed, fun hexact => iff_of_true (hkeeps hexact) trivial⟩
  | indexBatch docs =>
      obtain ⟨engine', hok, hindexed, hkeeps, hmust, -⟩ := indexBatch_indexed host order h docs
      exact ⟨engine', hok, hindexed, fun hexact => ⟨hmust, fun hgood => hkeeps hgood hexact⟩⟩
  | deleteDocument docKey =>
      obtain ⟨engine', hok, hindexed, hkeeps, -⟩ := deleteDocument_indexed host order h docKey
      exact ⟨engine', hok, hindexed, fun hexact => iff_of_true (hkeeps hexact) trivial⟩

theorem run_indexed (host : FtsHost) (ops : List (HashOrder × FtsOp)) :
    ∃ engine, run host {} ops = .ok engine ∧ engine.Indexed := by
  have hthroughout := FallibleRun.throughout_invariant new_indexed (fun engine op h => by
    obtain ⟨engine', hok, hindexed, -⟩ := perform_indexed host engine op h
    exact ⟨engine', hok, hindexed⟩) ops
  exact hthroughout.last

/-- The inverted index agrees with the forward index in every state of a run exactly
when every batch of the run keeps the terms of its repeated keys. -/
theorem run_agrees_iff (host : FtsHost) (ops : List (HashOrder × FtsOp)) :
    (∀ pre, pre <+: ops → ∃ engine, run host {} pre = .ok engine ∧ engine.Agrees) ↔
      ∀ order docs, (order, FtsOp.indexBatch docs) ∈ ops →
        BatchKeepsTerms host.segmenter docs := by
  have hexact := FallibleRun.throughout_iff new_indexed
    (show ({} : FtsEngine).Exact from fun _ _ => rfl) (perform_indexed host) ops
  have hruns : ∀ ops, ∃ engine, run host {} ops = .ok engine := by
    intro ops
    obtain ⟨engine, hrun, -⟩ := run_indexed host ops
    exact ⟨engine, hrun⟩
  have hconst := FallibleRun.stepsMeet_const
    (fun op : HashOrder × FtsOp => op.2.KeepsTerms host.segmenter) ops hruns
  have hagrees : (∀ pre, pre <+: ops → ∃ engine, run host {} pre = .ok engine ∧ engine.Agrees) ↔
      ∀ pre, pre <+: ops → ∃ engine, run host {} pre = .ok engine ∧ engine.Exact := by
    apply forall₂_congr
    intro pre hpre
    obtain ⟨engine, hrun, hindexed⟩ := run_indexed host pre
    simp only [hrun, Except.ok.injEq, exists_eq_left', agrees_iff_exact hindexed]
  rw [hagrees]
  refine (hexact.trans hconst).trans ⟨?_, ?_⟩
  · intro h order docs hmem
    exact h _ hmem
  · intro h op hop
    rcases op with ⟨order, op⟩
    cases op with
    | indexDocument docKey text => trivial
    | indexBatch docs => exact h order docs hop
    | deleteDocument docKey => trivial

/-- The second text of a key drops a term, and the first text's posting stays. -/
theorem run_stale_posting :
    ∃ engine, run wordHost {}
        [(HashOrder.same, .indexBatch [("d", "alpha beta"), ("d", "alpha")])] = .ok engine ∧
      ¬engine.Agrees := by
  obtain ⟨engine, hok, hindexed, -, hmust, -⟩ :=
    indexBatch_indexed wordHost HashOrder.same new_indexed [("d", "alpha beta"), ("d", "alpha")]
  refine ⟨engine, ?_, ?_⟩
  · rw [run, List.foldlM_cons, perform, hok]
    rfl
  intro hagrees
  have hkeeps := hmust ((agrees_iff_exact hindexed).mp hagrees)
  have hbeta := hkeeps "d" "alpha beta" "alpha" (by simp) (by decide) "beta" (by decide)
  exact absurd hbeta (by decide)

end FtsEngine

end BenShu.Engram
