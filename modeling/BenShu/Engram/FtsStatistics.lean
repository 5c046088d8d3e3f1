import BenShu.Engram.FtsAgreement
import Mathlib.Tactic.Positivity

/-!
# The statistics

The stored statistics count the documents of the forward index and add up their
lengths. Indexing takes the old length of a document from its forward index;
deletion looks for it in the postings and leaves the statistics alone if it finds
none.
-/

namespace BenShu.Engram

/-- The statistics are those of the forward index. -/
structure StatsExact (stats : FtsStats) (forward : Table String TfMap) : Prop where
  docs : stats.totalDocs = forward.size
  len : stats.totalLen = forward.total TfMap.docLength
  average : stats.avgDl =
    if forward.size > 0 then (forward.total TfMap.docLength : Rat) / forward.size else 0

def FtsStats.searchAvgDl (stats : FtsStats) : Rat := if stats.avgDl > 0 then stats.avgDl else 100

/-- A call of `remove` that finds a document to take out and its length. -/
def RemoveCounted (call : FtsStats × Nat) : Prop :=
  0 < call.1.totalDocs ∧ call.2 ≤ call.1.totalLen

theorem new_statsExact : StatsExact {} ∅ where
  docs := rfl
  len := rfl
  average := rfl

variable {stats : FtsStats} {forward : Table String TfMap} {docKey : String}

/-! ## Replacing and taking out -/

theorem removeCounted_of_exact {tf : TfMap} (h : StatsExact stats forward)
    (hlookup : forward.lookup docKey = some tf) : RemoveCounted (stats, tf.docLength) := by
  have hsize := Table.size_erase forward docKey
  have htotal := Table.total_erase TfMap.docLength forward docKey
  rw [hlookup] at hsize htotal
  rw [RemoveCounted, h.docs, h.len]
  simp only [Option.isSome_some, if_true, Option.map_some, Option.getD_some] at hsize htotal
  omega

theorem remove_exact {tf : TfMap} (h : StatsExact stats forward)
    (hlookup : forward.lookup docKey = some tf) :
    StatsExact (stats.remove tf.docLength) (forward.erase docKey) := by
  have hsize := Table.size_erase forward docKey
  have htotal := Table.total_erase TfMap.docLength forward docKey
  rw [hlookup] at hsize htotal
  simp only [Option.isSome_some, if_true, Option.map_some, Option.getD_some] at hsize htotal
  have hdocs : stats.totalDocs - 1 = Table.size (forward.erase docKey) := by
    rw [h.docs]
    omega
  have hlen : stats.totalLen - tf.docLength =
      Table.total TfMap.docLength (forward.erase docKey) := by
    rw [h.len]
    omega
  have hpos : stats.totalDocs > 0 := by
    rw [h.docs]
    omega
  unfold FtsStats.remove
  rw [if_pos hpos]
  dsimp only
  rw [hdocs, hlen]
  exact ⟨rfl, rfl, rfl⟩

theorem update_exact {tf : TfMap} (h : StatsExact stats (forward.erase docKey)) :
    StatsExact (stats.update tf.docLength) (forward.insert docKey tf) := by
  have hsize := Table.size_insert forward docKey tf
  have htotal := Table.total_insert TfMap.docLength forward docKey tf
  have hdocs : stats.totalDocs + 1 = Table.size (forward.insert docKey tf) := by
    rw [h.docs, hsize]
  have hlen : stats.totalLen + tf.docLength =
      Table.total TfMap.docLength (forward.insert docKey tf) := by
    rw [h.len, htotal]
    omega
  unfold FtsStats.update
  dsimp only
  rw [hdocs, hlen]
  refine ⟨rfl, rfl, ?_⟩
  have hpos : Table.size (forward.insert docKey tf) > 0 := by omega
  dsimp only
  rw [if_pos hpos, if_pos hpos]

theorem erase_exact (h : StatsExact stats forward) (hlookup : forward.lookup docKey = none) :
    StatsExact stats (forward.erase docKey) := by
  have hsize := Table.size_erase forward docKey
  have htotal := Table.total_erase TfMap.docLength forward docKey
  rw [hlookup] at hsize htotal
  simp only [Option.isSome_none, Bool.false_eq_true, if_false, Option.map_none, Option.getD_none,
    Nat.add_zero] at hsize htotal
  exact ⟨by rw [h.docs, hsize], by rw [h.len, htotal], by rw [h.average, hsize, htotal]⟩

namespace FtsEngine

theorem replaceStats_exact (h : StatsExact stats forward) (tf : TfMap) :
    StatsExact (replaceStats stats (forward.lookup docKey) tf.docLength)
      (forward.insert docKey tf) := by
  unfold replaceStats
  apply update_exact
  cases hlookup : forward.lookup docKey with
  | none => exact erase_exact h hlookup
  | some previous => exact remove_exact h hlookup

variable {host : FtsHost} {engine engine' : FtsEngine}

/-! ## Calls of `remove` -/

def batchRemoves (host : FtsHost) : FtsEngine → Batch → List (String × String) →
    List (FtsStats × Nat)
  | _, _, [] => []
  | engine, batch, doc :: docs =>
      ((engine.forward.lookup doc.1).map fun previous => (batch.stats, previous.docLength)).toList ++
        batchRemoves host
          (engine.putFtsForward doc.1 (tfMapOf (host.segmenter.tokenize doc.2)))
          (gatherStep host engine.forward batch doc) docs

/-- The statistics and lengths an operation calls `remove` with. -/
def removes (host : FtsHost) (order : HashOrder) (engine : FtsEngine) :
    FtsOp → List (FtsStats × Nat)
  | .indexDocument docKey _ =>
      ((engine.forward.lookup docKey).map fun previous =>
        (engine.getStats, previous.docLength)).toList
  | .indexBatch docs => batchRemoves host engine { stats := engine.getStats } docs
  | .deleteDocument docKey =>
      match engine.forward.lookup docKey with
      | none => []
      | some tf =>
          match engine.deleteTerms host docKey 0 (order.arrange tf.keys) with
          | .ok (_, docLen) => if docLen > 0 then [(engine.getStats, docLen)] else []
          | .error _ => []

theorem gatherBatch_exact (host : FtsHost) (engine : FtsEngine) (batch : Batch)
    (docs : List (String × String)) (h : StatsExact batch.stats engine.forward) :
    StatsExact (engine.gatherBatch host batch docs).2.stats
        (engine.gatherBatch host batch docs).1.forward ∧
      ∀ call ∈ batchRemoves host engine batch docs, RemoveCounted call := by
  induction docs generalizing engine batch with
  | nil => exact ⟨h, by simp [batchRemoves]⟩
  | cons doc docs ih =>
      have hstep : StatsExact (gatherStep host engine.forward batch doc).stats
          (engine.putFtsForward doc.1 (tfMapOf (host.segmenter.tokenize doc.2))).forward := by
        rw [(gatherStep_spec host engine.forward batch doc).1, ← docLength_tfMapOf]
        exact replaceStats_exact h (tfMapOf (host.segmenter.tokenize doc.2))
      obtain ⟨hexact, hremoves⟩ := ih _ _ hstep
      refine ⟨hexact, ?_⟩
      intro call hcall
      rcases List.mem_append.mp hcall with hfirst | hrest
      · cases hlookup : engine.forward.lookup doc.1 with
        | none => simp [hlookup] at hfirst
        | some previous =>
            rw [hlookup, Option.map_some, Option.toList_some] at hfirst
            rw [List.mem_singleton.mp hfirst]
            exact removeCounted_of_exact h hlookup
      · exact hremoves call hrest

/-! ## The length a deletion finds -/

theorem foundLength_docLength (order : HashOrder) (h : engine.Indexed) {tf : TfMap}
    (hlookup : engine.forward.lookup docKey = some tf) :
    engine.foundLength docKey (order.arrange tf.keys) = tf.docLength := by
  unfold foundLength
  have hlengths : ((order.arrange tf.keys).map fun term =>
      ((engine.posting term docKey).map (·.docLength)).getD 0) =
      (order.arrange tf.keys).map fun _ => tf.docLength := by
    apply List.map_congr_left
    intro term hterm
    have hkey : term ∈ tf.keys := (order.perm _).mem_iff.mp hterm
    rcases Table.mem_keys_iff.mp hkey with ⟨count, hcount⟩
    have hposting := h.covers term docKey ⟨docKey, count, tf.docLength⟩
      (listed_eq_some.mpr ⟨rfl, tf, hlookup, hcount, rfl⟩)
    rw [hposting]
    rfl
  have hlength := (order.perm tf.keys).length_eq
  rw [hlengths]
  cases hterms : order.arrange tf.keys with
  | nil =>
      rw [hterms] at hlength
      have hempty : tf.entries = [] := by
        have hkeys : tf.keys = [] := List.length_eq_zero_iff.mp hlength.symm
        exact List.map_eq_nil_iff.mp hkeys
      rw [TfMap.docLength, Table.total, hempty]
      rfl
  | cons term terms =>
      by_cases hpos : 0 < tf.docLength
      · simp [hpos]
      · have hzero : tf.docLength = 0 := by omega
        simp [hzero]

theorem statsAfterDelete_none (order : HashOrder)
    (hlookup : engine.forward.lookup docKey = none) :
    engine.statsAfterDelete order docKey = engine.stats := by
  rw [statsAfterDelete, hlookup]

theorem statsAfterDelete_some (order : HashOrder) (h : engine.Indexed) {tf : TfMap}
    (hlookup : engine.forward.lookup docKey = some tf) :
    engine.statsAfterDelete order docKey =
      if tf.docLength > 0 then some (engine.getStats.remove tf.docLength) else engine.stats := by
  rw [statsAfterDelete, hlookup]
  dsimp only
  rw [foundLength_docLength order h hlookup]

theorem deleteTerms_docLength (host : FtsHost) (order : HashOrder) (h : engine.Indexed)
    {tf : TfMap} (hlookup : engine.forward.lookup docKey = some tf) :
    ∃ engine', engine.deleteTerms host docKey 0 (order.arrange tf.keys) =
      .ok (engine', tf.docLength) := by
  have hcolon : ∀ term ∈ order.arrange tf.keys, ':' ∉ term.toList := by
    intro term hterm
    apply h.plain docKey tf hlookup term
    rw [AList.lookup_isSome, AList.mem_keys]
    exact (order.perm _).mem_iff.mp hterm
  obtain ⟨engine', hok, -⟩ := deleteTerms_spec host docKey h.coherent 0
    ((order.perm _).nodup_iff.mpr tf.keys_nodup) hcolon
  rw [if_pos rfl, foundLength_docLength order h hlookup] at hok
  exact ⟨engine', hok⟩

/-! ## Runs -/

/-- A deletion must meet a document with a length; the other operations are free. -/
def DeletesLength (engine : FtsEngine) : FtsOp → Prop
  | .deleteDocument docKey =>
      ∀ tf, engine.forward.lookup docKey = some tf → 0 < tf.docLength
  | _ => True

theorem perform_exact (host : FtsHost) (engine : FtsEngine) (op : HashOrder × FtsOp)
    (h : engine.Indexed) :
    ∃ engine', engine.perform host op.1 op.2 = .ok engine' ∧ engine'.Indexed ∧
      (StatsExact engine.getStats engine.forward →
        (StatsExact engine'.getStats engine'.forward ↔ engine.DeletesLength op.2)) := by
  rcases op with ⟨order, op⟩
  cases op with
  | indexDocument docKey text =>
      obtain ⟨engine', hok, hindexed, -, hforward, hstats⟩ :=
        indexDocument_indexed host order h docKey text
      refine ⟨engine', hok, hindexed, fun hexact => iff_of_true ?_ trivial⟩
      rw [getStats, hstats, hforward, ← docLength_tfMapOf]
      exact replaceStats_exact hexact _
  | indexBatch docs =>
      obtain ⟨engine', hok, hindexed, -, -, hforward, hstats⟩ :=
        indexBatch_indexed host order h docs
      refine ⟨engine', hok, hindexed, fun hexact => iff_of_true ?_ trivial⟩
      have hgathered := (gatherBatch_exact host engine { stats := engine.getStats } docs hexact).1
      rw [(gatherBatch_spec host engine { stats := engine.getStats } docs).1] at hgathered
      rw [getStats, hstats, hforward]
      exact hgathered
  | deleteDocument docKey =>
      obtain ⟨engine', hok, hindexed, -, hforward, hstats⟩ :=
        deleteDocument_indexed host order h docKey
      refine ⟨engine', hok, hindexed, fun hexact => ?_⟩
      cases hlookup : engine.forward.lookup docKey with
      | none =>
          rw [statsAfterDelete_none order hlookup] at hstats
          refine iff_of_true ?_ fun tf htf => ?_
          · rw [getStats, hstats, hforward]
            exact erase_exact hexact hlookup
          · rw [hlookup] at htf
            cases htf
      | some tf =>
          rw [statsAfterDelete_some order h hlookup] at hstats
          by_cases hpos : tf.docLength > 0
          · rw [if_pos hpos] at hstats
            refine iff_of_true ?_ fun tf' htf' => ?_
            · rw [getStats, hstats, hforward]
              exact remove_exact hexact hlookup
            · rw [hlookup] at htf'
              cases htf'
              exact hpos
          · -- the document is gone and still counted
            rw [if_neg hpos] at hstats
            refine iff_of_false ?_ fun hall => hpos (hall tf hlookup)
            intro hexact'
            have hdocs := hexact'.docs
            have hsize := Table.size_erase engine.forward docKey
            rw [hlookup] at hsize
            have hbefore := hexact.docs
            rw [getStats, hstats, ← getStats, hforward] at hdocs
            simp only [Option.isSome_some, if_true] at hsize
            omega

theorem removes_counted (host : FtsHost) (engine : FtsEngine) (op : HashOrder × FtsOp)
    (h : engine.Indexed) (hexact : StatsExact engine.getStats engine.forward) :
    ∀ call ∈ engine.removes host op.1 op.2, RemoveCounted call := by
  rcases op with ⟨order, op⟩
  intro call hcall
  cases op with
  | indexDocument docKey text =>
      unfold removes at hcall
      dsimp only at hcall
      cases hlookup : engine.forward.lookup docKey with
      | none => simp [hlookup] at hcall
      | some previous =>
          rw [hlookup, Option.map_some, Option.toList_some] at hcall
          rw [List.mem_singleton.mp hcall]
          exact removeCounted_of_exact hexact hlookup
  | indexBatch docs =>
      exact (gatherBatch_exact host engine { stats := engine.getStats } docs hexact).2 call hcall
  | deleteDocument docKey =>
      unfold removes at hcall
      dsimp only at hcall
      cases hlookup : engine.forward.lookup docKey with
      | none => simp [hlookup] at hcall
      | some tf =>
          obtain ⟨engine', hok⟩ := deleteTerms_docLength host order h hlookup
          rw [hlookup] at hcall
          dsimp only at hcall
          rw [hok] at hcall
          dsimp only at hcall
          split at hcall
          · rw [List.mem_singleton.mp hcall]
            exact removeCounted_of_exact hexact hlookup
          · cases hcall

/-- The statistics are exact in every state of a run, and no subtraction underflows,
exactly when no deletion of the run meets a document without a length. -/
theorem run_stats_iff (host : FtsHost) (ops : List (HashOrder × FtsOp)) :
    (∀ pre, pre <+: ops → ∃ engine, run host {} pre = .ok engine ∧
        StatsExact engine.getStats engine.forward ∧
        ∀ op, pre ++ [op] <+: ops → ∀ call ∈ engine.removes host op.1 op.2, RemoveCounted call) ↔
      ∀ pre order docKey, pre ++ [(order, FtsOp.deleteDocument docKey)] <+: ops →
        ∀ engine tf, run host {} pre = .ok engine → engine.forward.lookup docKey = some tf →
          0 < tf.docLength := by
  have hiff := FallibleRun.throughout_iff new_indexed new_statsExact (perform_exact host) ops
  constructor
  · intro h pre order docKey hbegins engine tf hrun hlookup
    rcases hbegins with ⟨post, hpost⟩
    refine hiff.mp (fun pre hpre => ?_) pre (order, .deleteDocument docKey) post ?_ engine hrun tf
      hlookup
    · obtain ⟨engine, hrun, hexact, -⟩ := h pre hpre
      exact ⟨engine, hrun, hexact⟩
    · rw [← hpost, List.append_assoc]
      rfl
  · intro h pre hpre
    have hmeets : FallibleRun.StepsMeet (fun engine op => perform host op.1 engine op.2)
        {} ops fun engine op => DeletesLength engine op.2 := by
      intro pre op post heq engine hrun
      rcases op with ⟨order, op⟩
      cases op with
      | indexDocument docKey text => trivial
      | indexBatch docs => trivial
      | deleteDocument docKey =>
          intro tf hlookup
          exact h pre order docKey ⟨post, by rw [heq]; simp⟩ engine tf hrun hlookup
    obtain ⟨engine, hrun, hexact⟩ := hiff.mpr hmeets pre hpre
    obtain ⟨engine₁, hrun₁, hindexed⟩ := run_indexed host pre
    have hsame : engine₁ = engine := Except.ok.inj (hrun₁.symm.trans hrun)
    subst hsame
    exact ⟨engine₁, hrun₁, hexact, fun op _ => removes_counted host engine₁ op hindexed hexact⟩

/-- A document without terms stays counted after it is deleted. -/
theorem run_counts_deleted :
    ∃ engine, run wordHost {}
        [(HashOrder.same, .indexDocument "d" "the"), (HashOrder.same, .deleteDocument "d")] = .ok engine ∧
      engine.getStats.totalDocs = 1 ∧ engine.forward.size = 0 := by
  obtain ⟨engine₁, hok₁, hindexed₁, -, hforward₁, hstats₁⟩ :=
    indexDocument_indexed wordHost HashOrder.same new_indexed "d" "the"
  obtain ⟨engine₂, hok₂, -, -, hforward₂, hstats₂⟩ :=
    deleteDocument_indexed wordHost HashOrder.same hindexed₁ "d"
  have htokens : wordHost.segmenter.tokenize "the" = [] := by decide
  have hlookup : engine₁.forward.lookup "d" = some (tfMapOf []) := by
    rw [hforward₁, htokens, AList.lookup_insert]
  rw [statsAfterDelete_some HashOrder.same hindexed₁ hlookup] at hstats₂
  refine ⟨engine₂, ?_, ?_, ?_⟩
  · rw [run, List.foldlM_cons, perform, hok₁]
    show (engine₁.perform wordHost HashOrder.same (.deleteDocument "d") >>= pure) = _
    rw [perform, hok₂]
    rfl
  · rw [getStats, hstats₂, if_neg (by decide), hstats₁, htokens]
    rfl
  · rw [hforward₂, hforward₁, htokens]
    rfl

end FtsEngine

end BenShu.Engram
