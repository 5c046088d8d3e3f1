import BenShu.Engram.RetentionMoves

/-!
# Passes of retention

A pass moves each document as its metadata says, whatever it does to the others. A pass
is correct if the audits fit, the moved documents have ids of their own and no archive
time is old already.
-/

namespace BenShu.Engram

namespace EngramStore

variable {host : EngramHost} {policy : RetentionPruningPolicy} {pass : RetentionPass}
  {store store' : EngramStore} {document : Document} {move : RetentionMove}

/-! ## The loop -/

def subjectAt (store : EngramStore) (key : String) : Option Document :=
  (store.documents.lookup key).filter fun document => !isAudit document

/-- The document after the pass. -/
def passed (policy : RetentionPruningPolicy) (pass : RetentionPass) (document : Document) :
    Document :=
  match retentionMove policy pass.nowMs document with
  | none => document
  | some move => movedDocument policy pass document move

def Moves (policy : RetentionPruningPolicy) (pass : RetentionPass) (documents : List Document)
    (document : Document) (move : RetentionMove) : Prop :=
  document ∈ documents ∧ retentionMove policy pass.nowMs document = some move

/-- The documents as they are stored, each under a key of its own. -/
structure Listed (store : EngramStore) (documents : List Document) : Prop where
  stored : ∀ document ∈ documents, ∃ found,
    store.documents.lookup (keyOf document) = some found ∧ isAudit found = isAudit document ∧
      (isAudit document = false → found = document)
  placed : ∀ document ∈ documents, ':' ∉ document.docid.toList
  nodup : (documents.map keyOf).Nodup

/-- What a pass over the documents leaves. -/
structure Passed (policy : RetentionPruningPolicy) (pass : RetentionPass)
    (documents : List Document) (store store' : EngramStore) : Prop where
  subject : ∀ key, store'.subjectAt key =
    if key ∈ documents.map keyOf then (store.subjectAt key).map (passed policy pass)
    else store.subjectAt key
  other : ∀ key, store'.documents.lookup key = store.documents.lookup key ∨
    (∃ document, store'.documents.lookup key = some document ∧ isAudit document = false) ∨
      ∃ document move record, Moves policy pass documents document move ∧
        key = auditKey pass.nowMs document move ∧ store'.documents.lookup key = some record ∧
          AuditOf pass.nowMs document move record
  recorded : ∀ document move, Moves policy pass documents document move →
    ∃ named record, Moves policy pass documents named move ∧ named.docid = document.docid ∧
      store'.documents.lookup (auditKey pass.nowMs document move) = some record ∧
        AuditOf pass.nowMs named move record

variable {documents : List Document} {key : String}

theorem subjectAt_eq_some_iff :
    store.subjectAt key = some document ↔
      store.documents.lookup key = some document ∧ isAudit document = false := by
  unfold subjectAt
  rw [Option.filter_eq_some_iff, Bool.not_eq_true']

theorem Listed.subjectAt (h : store.Listed documents) (hmem : document ∈ documents) :
    store.subjectAt (keyOf document) =
      if isAudit document = false then some document else none := by
  rcases h.stored document hmem with ⟨found, hfound, haudit, hsame⟩
  split
  · rename_i hsubject
    rw [hsame hsubject] at hfound
    exact subjectAt_eq_some_iff.mpr ⟨hfound, hsubject⟩
  · rename_i hsubject
    unfold EngramStore.subjectAt
    rw [hfound, Option.filter_some, haudit, Bool.not_eq_false] at *
    simp [hsubject]

/-- Among the documents it is for, a move changes the one it is for. -/
theorem subjectAt_moved {record : Document} (hplaced : store.Placed)
    (hdocid : ':' ∉ document.docid.toList) (hsubject : isAudit document = false)
    (haudit : AuditOf pass.nowMs document move record)
    (hdocuments : store'.documents =
      (store.documents.insert (keyOf document) (movedDocument policy pass document move)).insert
        (auditKey pass.nowMs document move) record) (key : String) :
    store'.subjectAt key = if key = keyOf document then
      some (movedDocument policy pass document move) else store.subjectAt key := by
  have hrecord : isAudit record = true := by simp [isAudit, haudit.collection]
  have hne : keyOf document ≠ auditKey pass.nowMs document move := keyOf_ne_auditKey hsubject hdocid
  unfold subjectAt
  rw [hdocuments, Table.lookup_insert, Table.lookup_insert]
  by_cases hkey : key = auditKey pass.nowMs document move
  · have hnone : (store.documents.lookup key).filter (fun found => !isAudit found) = none := by
      cases hfound : (store.documents.lookup key).filter (fun found => !isAudit found) with
      | none => rfl
      | some found =>
          rcases subjectAt_eq_some_iff.mp hfound with ⟨hstored, hother⟩
          have hat := hplaced.key key found hstored
          rw [hkey] at hat
          exact absurd hat (keyOf_ne_auditKey hother hdocid)
    rw [if_pos hkey, if_neg (by rw [hkey]; exact hne.symm), hnone]
    simp [hrecord]
  · rw [if_neg hkey]
    split
    · have hmoved : isAudit (movedDocument policy pass document move) = false := hsubject
      simp [hmoved]
    · rfl

theorem Listed.moved {record : Document} (h : store.Listed (document :: documents))
    (haudit : AuditOf pass.nowMs document move record)
    (hdocuments : store'.documents =
      (store.documents.insert (keyOf document) (movedDocument policy pass document move)).insert
        (auditKey pass.nowMs document move) record) : store'.Listed documents := by
  have hrecord : isAudit record = true := by simp [isAudit, haudit.collection]
  have hnodup := List.nodup_cons.mp h.nodup
  refine ⟨?_, fun other hother => h.placed other (List.mem_cons_of_mem _ hother), hnodup.2⟩
  intro other hother
  rcases h.stored other (List.mem_cons_of_mem _ hother) with ⟨found, hfound, hsame, hkept⟩
  have hne : keyOf other ≠ keyOf document := by
    intro heq
    exact hnodup.1 (heq ▸ List.mem_map_of_mem hother)
  rw [hdocuments, Table.lookup_insert, Table.lookup_insert, if_neg hne]
  by_cases hkey : keyOf other = auditKey pass.nowMs document move
  · rw [if_pos hkey]
    refine ⟨record, rfl, ?_, fun hother => ?_⟩
    · cases hotherAudit : isAudit other with
      | true => exact hrecord
      | false =>
          exact absurd hkey (keyOf_ne_auditKey hotherAudit (h.placed document List.mem_cons_self))
    · exact absurd hkey (keyOf_ne_auditKey hother (h.placed document List.mem_cons_self))
  · rw [if_neg hkey]
    exact ⟨found, hfound, hsame, hkept⟩

theorem moves_cons_iff {other : Document} {move' : RetentionMove} :
    Moves policy pass (document :: documents) other move' ↔
      (other = document ∧ retentionMove policy pass.nowMs document = some move') ∨
        Moves policy pass documents other move' := by
  unfold Moves
  rw [List.mem_cons]
  constructor
  · intro ⟨hmem, hmove⟩
    rcases hmem with hsame | hrest
    · exact .inl ⟨hsame, hsame ▸ hmove⟩
    · exact .inr ⟨hrest, hmove⟩
  · intro h
    rcases h with ⟨hsame, hmove⟩ | ⟨hrest, hmove⟩
    · exact ⟨.inl hsame, hsame ▸ hmove⟩
    · exact ⟨.inr hrest, hmove⟩

theorem Passed.nil (store : EngramStore) : Passed policy pass [] store store where
  subject key := by simp
  other key := .inl rfl
  recorded document move h := absurd h.1 (by simp)

theorem Passed.skip (h : Passed policy pass documents store store')
    (hlisted : store.Listed (document :: documents))
    (hmove : retentionMove policy pass.nowMs document = none) :
    Passed policy pass (document :: documents) store store' := by
  have hmoves : ∀ other move, Moves policy pass (document :: documents) other move ↔
      Moves policy pass documents other move := by
    intro other move
    rw [moves_cons_iff, hmove]
    simp
  constructor
  · intro key
    rw [h.subject key]
    by_cases hkey : key = keyOf document
    · have hnodup := (List.nodup_cons.mp hlisted.nodup).1
      rw [hkey, if_neg hnodup, if_pos (by simp), hlisted.subjectAt List.mem_cons_self]
      split
      · simp [passed, hmove]
      · rfl
    · simp [hkey]
  · intro key
    rcases h.other key with hsame | hsubject | ⟨other, move, record, hother, hrest⟩
    · exact .inl hsame
    · exact .inr (.inl hsubject)
    · exact .inr (.inr ⟨other, move, record, (hmoves other move).mpr hother, hrest⟩)
  · intro other move hother
    rcases h.recorded other move ((hmoves other move).mp hother) with
      ⟨named, record, hnamed, hrest⟩
    exact ⟨named, record, (hmoves named move).mpr hnamed, hrest⟩

/-- A document that is moved may be put first. -/
theorem Passed.cons {middle : EngramStore} {record : Document} (hplaced : store.Placed)
    (hplaced' : store'.Placed)
    (hlisted : store.Listed (document :: documents))
    (hmove : retentionMove policy pass.nowMs document = some move)
    (haudit : AuditOf pass.nowMs document move record)
    (hdocuments : middle.documents =
      (store.documents.insert (keyOf document) (movedDocument policy pass document move)).insert
        (auditKey pass.nowMs document move) record)
    (h : Passed policy pass documents middle store') :
    Passed policy pass (document :: documents) store store' := by
  have hsubject := retentionMove_notAudit hmove
  have hdocid := hlisted.placed document List.mem_cons_self
  have hnodup := (List.nodup_cons.mp hlisted.nodup).1
  have hmoved : isAudit (movedDocument policy pass document move) = false := hsubject
  have hfirst : Moves policy pass (document :: documents) document move :=
    ⟨List.mem_cons_self, hmove⟩
  have hrest : ∀ other move', Moves policy pass documents other move' →
      Moves policy pass (document :: documents) other move' :=
    fun other move' hother => moves_cons_iff.mpr (.inr hother)
  -- what the rest of the loop finds under a key
  have hmiddle : ∀ key, middle.documents.lookup key = store.documents.lookup key ∨
      (∃ found, middle.documents.lookup key = some found ∧ isAudit found = false) ∨
        key = auditKey pass.nowMs document move ∧ middle.documents.lookup key = some record := by
    intro key
    rw [hdocuments, Table.lookup_insert, Table.lookup_insert]
    split
    · rename_i hkey
      exact .inr (.inr ⟨hkey, rfl⟩)
    · split
      · exact .inr (.inl ⟨_, rfl, hmoved⟩)
      · exact .inl rfl
  constructor
  · intro key
    rw [h.subject key, subjectAt_moved hplaced hdocid hsubject haudit hdocuments]
    by_cases hkey : key = keyOf document
    · rw [hkey, if_pos rfl, if_neg hnodup, if_pos (by simp), hlisted.subjectAt List.mem_cons_self,
        if_pos hsubject]
      simp [passed, hmove]
    · simp [hkey]
  · intro key
    rcases h.other key with hsame | hother | ⟨other, move', record', hother, hkey, hfound⟩
    · rw [hsame]
      rcases hmiddle key with hstore | hsubject | ⟨hkey, hrecord⟩
      · exact .inl hstore
      · exact .inr (.inl hsubject)
      · exact .inr (.inr ⟨document, move, record, hfirst, hkey, hrecord, haudit⟩)
    · exact .inr (.inl hother)
    · exact .inr (.inr ⟨other, move', record', hrest other move' hother, hkey, hfound⟩)
  · intro other move' hother
    rcases moves_cons_iff.mp hother with ⟨hsame, hmove'⟩ | hlater
    · subst hsame
      rw [hmove] at hmove'
      cases hmove'
      rcases h.other (auditKey pass.nowMs other move) with hsame | ⟨found, hfound, hsubject⟩ |
        ⟨named, move', record', hnamed, hkey, hfound, haudit'⟩
      · refine ⟨other, record, hfirst, rfl, ?_, haudit⟩
        rw [hsame, hdocuments, Table.lookup_insert, if_pos rfl]
      · have hat := hplaced'.key _ found hfound
        exact absurd hat (keyOf_ne_auditKey hsubject hdocid)
      · rcases auditKey_eq_iff.mp hkey with ⟨hmoves, hdocid⟩
        subst hmoves
        exact ⟨named, record', hrest named move hnamed, hdocid.symm, hfound, haudit'⟩
    · rcases h.recorded other move' hlater with ⟨named, record', hnamed, hfound⟩
      exact ⟨named, record', hrest named move' hnamed, hfound⟩

def moveCount (policy : RetentionPruningPolicy) (pass : RetentionPass) (documents : List Document)
    (move : RetentionMove) : Nat :=
  documents.countP fun document => retentionMove policy pass.nowMs document == some move

/-- The loop keeps the store. It goes to the end if every audit fits, and then has
moved and counted every document as its metadata says. -/
theorem retentionLoop_spec (policy : RetentionPruningPolicy) (pass : RetentionPass) (hhash : ∀ body, ':' ∉ (host.hashContent body).toList)
    (h : Kept host store) (hplaced : store.Placed) (hlisted : store.Listed documents)
    (counts : Nat × Nat) :
    let looped := store.retentionLoop host policy pass counts documents
    Kept host looped.1 ∧ looped.1.Placed ∧ looped.1.config = store.config ∧
      ((∃ counts', looped.2 = .ok counts') ↔
        ∀ document move, Moves policy pass documents document move →
          store.AuditFits document move) ∧
      ∀ counts', looped.2 = .ok counts' → Passed policy pass documents store looped.1 ∧
        counts' = (counts.1 + moveCount policy pass documents .archive,
          counts.2 + moveCount policy pass documents .prune) := by
  induction documents generalizing store counts with
  | nil =>
      refine ⟨h, hplaced, rfl, iff_of_true ⟨counts, rfl⟩ ?_, ?_⟩
      · intro document move hmoves
        exact absurd hmoves.1 (by simp)
      · intro counts' hcounts
        cases hcounts
        exact ⟨Passed.nil store, rfl⟩
  | cons document documents ih =>
      have hrest : store.Listed documents :=
        ⟨fun other hother => hlisted.stored other (List.mem_cons_of_mem _ hother),
          fun other hother => hlisted.placed other (List.mem_cons_of_mem _ hother),
          (List.nodup_cons.mp hlisted.nodup).2⟩
      unfold retentionLoop
      cases hmove : retentionMove policy pass.nowMs document with
      | none =>
          rcases ih h hplaced hrest counts with ⟨hkept, hplaced', hconfig, hfits, hpassed⟩
          refine ⟨hkept, hplaced', hconfig, hfits.trans ?_, ?_⟩
          · constructor
            · intro hall other move hother
              rcases moves_cons_iff.mp hother with ⟨-, hsome⟩ | hlater
              · rw [hmove] at hsome
                cases hsome
              · exact hall other move hlater
            · intro hall other move hother
              exact hall other move (moves_cons_iff.mpr (.inr hother))
          · intro counts' hcounts
            rcases hpassed counts' hcounts with ⟨hrest, hcounted⟩
            refine ⟨hrest.skip hlisted hmove, ?_⟩
            rw [hcounted]
            simp [moveCount, hmove]
      | some move =>
          have hsubject := retentionMove_notAudit hmove
          have hdocument := (subjectAt_eq_some_iff.mp
            ((hlisted.subjectAt List.mem_cons_self).trans (if_pos hsubject))).1
          have hfirst : Moves policy pass (document :: documents) document move :=
            ⟨List.mem_cons_self, hmove⟩
          rcases moveDocument_spec policy pass move h hplaced hhash
            hdocument with ⟨hkept, hplaced', hconfig, hmoved⟩
          dsimp only
          generalize store.moveDocument host policy pass document move = moved at *
          rcases moved with ⟨middle, result⟩
          dsimp only at hkept hplaced' hconfig hmoved
          by_cases hfit : store.AuditFits document move
          · rw [if_pos hfit] at hmoved
            rcases hmoved with ⟨hok, record, haudit, hdocuments⟩
            subst hok
            dsimp only
            have hmiddle : ∀ other move', middle.AuditFits other move' ↔
                store.AuditFits other move' := by
              intro other move'
              unfold AuditFits
              rw [hconfig]
            rcases ih hkept hplaced' (hlisted.moved haudit hdocuments) (counted move counts) with
              ⟨hkept', hplaced'', hconfig', hfits, hpassed⟩
            refine ⟨hkept', hplaced'', hconfig'.trans hconfig, hfits.trans ?_, ?_⟩
            · constructor
              · intro hall other move' hother
                rcases moves_cons_iff.mp hother with ⟨hsame, hsome⟩ | hlater
                · rw [hmove] at hsome
                  cases hsome
                  exact hsame ▸ hfit
                · exact (hmiddle other move').mp (hall other move' hlater)
              · intro hall other move' hother
                exact (hmiddle other move').mpr
                  (hall other move' (moves_cons_iff.mpr (.inr hother)))
            · intro counts' hcounts
              rcases hpassed counts' hcounts with ⟨hafter, hcounted⟩
              refine ⟨Passed.cons hplaced hplaced'' hlisted hmove haudit hdocuments hafter, ?_⟩
              rw [hcounted]
              cases move with
              | archive =>
                  simp only [counted, moveCount, List.countP_cons, hmove]
                  simp
                  omega
              | prune =>
                  simp only [counted, moveCount, List.countP_cons, hmove]
                  simp
                  omega
          · rw [if_neg hfit] at hmoved
            rcases hmoved with ⟨failure, hfailed⟩
            subst hfailed
            dsimp only
            refine ⟨hkept, hplaced', hconfig, iff_of_false ?_ ?_, ?_⟩
            · intro ⟨counts', hcounts⟩
              cases hcounts
            · intro hall
              exact hfit (hall document move hfirst)
            · intro counts' hcounts
              cases hcounts

/-! ## A pass -/

def stateAt (store : EngramStore) (key : String) : Option Lifecycle :=
  (store.subjectAt key).map lifecycleOf

def storedDocuments (store : EngramStore) : List Document :=
  store.documents.entries.map fun entry => entry.2

def afterPass (host : EngramHost) (policy : RetentionPruningPolicy) (store : EngramStore)
    (pass : RetentionPass) : EngramStore :=
  (store.applyDocumentRetentionPolicy host policy pass).1

theorem retentionMove_eq_some_iff :
    retentionMove policy pass.nowMs document = some move ↔
      lifecycleOf document = move.source ∧
        lifecycleOf (passed policy pass document) = move.target := by
  unfold passed
  cases hmove : retentionMove policy pass.nowMs document with
  | none =>
      constructor
      · intro h
        cases h
      · intro ⟨hsource, htarget⟩
        rw [hsource] at htarget
        cases move <;> cases htarget
  | some taken =>
      rcases lifecycle_of_move pass hmove with ⟨hsource, htarget⟩
      dsimp only
      rw [hsource, htarget]
      cases taken <;> cases move <;> decide

theorem retentionMove_passed :
    retentionMove policy pass.nowMs (passed policy pass document) = some move ↔
      move = .prune ∧ retentionMove policy pass.nowMs document = some .archive ∧
        pass.archivedAtMs (keyOf document) ≤
          daysBefore pass.nowMs policy.archivedDocumentPruneAfterDays := by
  unfold passed
  cases hmove : retentionMove policy pass.nowMs document with
  | none =>
      dsimp only
      rw [hmove]
      simp
  | some taken =>
      have hsubject : isAudit document = false := retentionMove_notAudit hmove
      have hmoved : isAudit (movedDocument policy pass document taken) = false := hsubject
      dsimp only
      unfold retentionMove
      rw [hmoved]
      cases taken with
      | prune =>
          rw [pruned_isPruned]
          simp
      | archive =>
          rw [archived_isPruned (retentionMove_notPruned hmove), archived_isArchived,
            archived_archivedAtMs]
          simp only [Bool.false_eq_true, if_false, Bool.not_true, Bool.and_false, Bool.false_and,
            Bool.true_and, decide_eq_true_eq, true_and]
          split
          · rename_i hold
            simp [hold, eq_comm]
          · rename_i hlate
            simp [hlate]

theorem storedDocuments_listed (h : store.Placed) : store.Listed store.storedDocuments := by
  have hentry : ∀ entry ∈ store.documents.entries, keyOf entry.2 = entry.1 := by
    intro entry hmem
    exact h.key entry.1 entry.2 (Table.mem_entries_iff.mp hmem)
  refine ⟨?_, ?_, ?_⟩
  · intro document hdocument
    rcases List.mem_map.mp hdocument with ⟨entry, hmem, rfl⟩
    refine ⟨entry.2, ?_, rfl, fun _ => rfl⟩
    rw [hentry entry hmem]
    exact Table.mem_entries_iff.mp hmem
  · intro document hdocument
    rcases List.mem_map.mp hdocument with ⟨entry, hmem, rfl⟩
    exact h.docid entry.1 entry.2 (Table.mem_entries_iff.mp hmem)
  · have hkeys : store.storedDocuments.map keyOf = store.documents.keys := by
      unfold storedDocuments
      rw [List.map_map]
      exact List.map_congr_left hentry
    rw [hkeys]
    exact store.documents.keys_nodup

theorem mem_storedDocuments (h : store.Placed) :
    document ∈ store.storedDocuments ↔ store.documents.lookup (keyOf document) = some document := by
  constructor
  · intro hdocument
    rcases List.mem_map.mp hdocument with ⟨entry, hmem, rfl⟩
    have hstored := Table.mem_entries_iff.mp hmem
    rw [h.key entry.1 entry.2 hstored]
    exact hstored
  · intro hstored
    exact List.mem_map.mpr ⟨⟨keyOf document, document⟩, Table.mem_entries_iff.mpr hstored, rfl⟩

theorem Passed.subjectAt_map (hplaced : store.Placed)
    (h : Passed policy pass store.storedDocuments store store') (key : String) :
    store'.subjectAt key = (store.subjectAt key).map (passed policy pass) := by
  rw [h.subject key]
  split
  · rfl
  · rename_i hkey
    cases hfound : store.subjectAt key with
    | none => rfl
    | some document =>
        have hstored := (subjectAt_eq_some_iff.mp hfound).1
        have hat := hplaced.key key document hstored
        subst hat
        exact absurd (List.mem_map_of_mem ((mem_storedDocuments hplaced).mpr hstored)) hkey

/-- A pass moves each document at most one state on and writes one audit document for
each move, its report counts the moves, and another pass at the same time moves none. -/
structure PassCorrect (host : EngramHost) (policy : RetentionPruningPolicy) (store : EngramStore)
    (pass : RetentionPass) : Prop where
  moved : ∀ key, (store.afterPass host policy pass).stateAt key = store.stateAt key ∨
    ∃ move : RetentionMove, store.stateAt key = some move.source ∧
      (store.afterPass host policy pass).stateAt key = some move.target
  audited : ∀ document (move : RetentionMove),
    store.subjectAt (keyOf document) = some document →
      store.stateAt (keyOf document) = some move.source →
        (store.afterPass host policy pass).stateAt (keyOf document) = some move.target →
          ∃ key record,
            (store.afterPass host policy pass).documents.lookup key = some record ∧
              key = auditKey pass.nowMs document move ∧
              AuditOf pass.nowMs document move record ∧ ∀ other found,
                (store.afterPass host policy pass).documents.lookup other = some found →
                  AuditOf pass.nowMs document move found →
                    other = key ∨ store.documents.lookup other = some found
  counted : (store.applyDocumentRetentionPolicy host policy pass).2 = .ok
    (store.documents.keys.countP fun key => store.stateAt key = some .active ∧
        (store.afterPass host policy pass).stateAt key = some .archived,
      store.documents.keys.countP fun key => store.stateAt key = some .archived ∧
        (store.afterPass host policy pass).stateAt key = some .pruned)
  settled : ∀ again : RetentionPass, again.nowMs = pass.nowMs → ∀ key,
    ((store.afterPass host policy pass).afterPass host policy again).stateAt key =
      (store.afterPass host policy pass).stateAt key

/-- Every audit fits, no two documents of one id make the same move, and what is archived
is not old enough to be pruned at once. -/
structure PassClean (policy : RetentionPruningPolicy) (store : EngramStore) (pass : RetentionPass) :
    Prop where
  fits : ∀ document move, Moves policy pass store.storedDocuments document move →
    store.AuditFits document move
  distinct : ∀ document other move, Moves policy pass store.storedDocuments document move →
    Moves policy pass store.storedDocuments other move → document.docid = other.docid →
      document = other
  later : ∀ document, Moves policy pass store.storedDocuments document .archive →
    daysBefore pass.nowMs policy.archivedDocumentPruneAfterDays < pass.archivedAtMs (keyOf document)

variable {again : RetentionPass}

/-- What a pass does, by the loop. -/
theorem afterPass_spec (policy : RetentionPruningPolicy) (hhash : ∀ body, ':' ∉ (host.hashContent body).toList)
    (h : Kept host store) (hplaced : store.Placed) (pass : RetentionPass) :
    Kept host (store.afterPass host policy pass) ∧ (store.afterPass host policy pass).Placed ∧
      (store.afterPass host policy pass).config = store.config ∧
      ((∃ counts, (store.applyDocumentRetentionPolicy host policy pass).2 = .ok counts) ↔
        ∀ document move, Moves policy pass store.storedDocuments document move →
          store.AuditFits document move) ∧
      ∀ counts, (store.applyDocumentRetentionPolicy host policy pass).2 = .ok counts →
        Passed policy pass store.storedDocuments store (store.afterPass host policy pass) ∧
          counts = (moveCount policy pass store.storedDocuments .archive,
            moveCount policy pass store.storedDocuments .prune) := by
  rcases retentionLoop_spec policy pass hhash h hplaced
    (storedDocuments_listed hplaced) (0, 0) with ⟨hkept, hplaced', hconfig, hok, hpassed⟩
  refine ⟨hkept, hplaced', hconfig, hok, ?_⟩
  intro counts hcounts
  rcases hpassed counts hcounts with ⟨hdone, hcounted⟩
  refine ⟨hdone, ?_⟩
  rw [hcounted, Nat.zero_add, Nat.zero_add]

theorem moves_iff_states (hplaced : store.Placed)
    (h : Passed policy pass store.storedDocuments store store')
    (hdocument : store.subjectAt (keyOf document) = some document) :
    Moves policy pass store.storedDocuments document move ↔
      store.stateAt (keyOf document) = some move.source ∧
        store'.stateAt (keyOf document) = some move.target := by
  have hstored := (mem_storedDocuments hplaced).mpr (subjectAt_eq_some_iff.mp hdocument).1
  unfold stateAt
  rw [h.subjectAt_map hplaced, hdocument]
  simp only [Option.map_some, Option.some.injEq]
  rw [← retentionMove_eq_some_iff]
  exact and_iff_right hstored

/-- The number of moves is the number of changes of state. -/
theorem moveCount_eq (hplaced : store.Placed)
    (h : Passed policy pass store.storedDocuments store store') :
    moveCount policy pass store.storedDocuments move =
      store.documents.keys.countP fun key =>
        store.stateAt key = some move.source ∧ store'.stateAt key = some move.target := by
  unfold moveCount storedDocuments AList.keys List.keys
  rw [List.countP_map, List.countP_map]
  apply List.countP_congr
  intro entry hentry
  have hstored := Table.mem_entries_iff.mp hentry
  have hkey := hplaced.key entry.1 entry.2 hstored
  simp only [Function.comp, beq_iff_eq, decide_eq_true_eq]
  cases hsubject : isAudit entry.2 with
  | true =>
      have hnone : store.subjectAt entry.1 = none := by
        unfold subjectAt
        rw [hstored]
        simp [hsubject]
      constructor
      · intro hmove
        rw [retentionMove_notAudit hmove] at hsubject
        cases hsubject
      · intro ⟨hsource, _⟩
        rw [stateAt, hnone] at hsource
        cases hsource
  | false =>
      have hfound : store.subjectAt (keyOf entry.2) = some entry.2 :=
        subjectAt_eq_some_iff.mpr ⟨hkey ▸ hstored, hsubject⟩
      rw [← hkey, ← moves_iff_states hplaced h hfound]
      exact ⟨fun hmove => ⟨(mem_storedDocuments hplaced).mpr (hkey ▸ hstored), hmove⟩, And.right⟩

theorem auditFits_prune (h : store.AuditFits document .archive) :
    store.AuditFits document .prune := by
  have hlength : (documentAuditBody document RetentionMove.prune.auditKind).utf8ByteSize ≤
      (documentAuditBody document RetentionMove.archive.auditKind).utf8ByteSize := by
    have hkind : RetentionMove.prune.auditKind.utf8ByteSize ≤
        RetentionMove.archive.auditKind.utf8ByteSize := by decide
    unfold documentAuditBody
    simp only [toString, String.utf8ByteSize_append]
    omega
  exact hlength.trans h

/-- Documents moved in a pass that goes to its end stay, but for those archived too early. -/
theorem moves_again (hplaced : store.Placed) (hplaced' : store'.Placed)
    (h : Passed policy pass store.storedDocuments store store') (hnow : again.nowMs = pass.nowMs)
    (hmoves : Moves policy again store'.storedDocuments document move) :
    ∃ before, document = passed policy pass before ∧ move = .prune ∧
      Moves policy pass store.storedDocuments before .archive ∧
        pass.archivedAtMs (keyOf before) ≤
          daysBefore pass.nowMs policy.archivedDocumentPruneAfterDays := by
  have hsubject := retentionMove_notAudit hmoves.2
  have hstored := (mem_storedDocuments hplaced').mp hmoves.1
  have hfound : store'.subjectAt (keyOf document) = some document :=
    subjectAt_eq_some_iff.mpr ⟨hstored, hsubject⟩
  rw [h.subjectAt_map hplaced] at hfound
  rcases Option.map_eq_some_iff.mp hfound with ⟨before, hbefore, hpassed⟩
  have hmove := hmoves.2
  rw [hnow, ← hpassed] at hmove
  rcases retentionMove_passed.mp hmove with ⟨hprune, harchive, hold⟩
  have hat := subjectAt_eq_some_iff.mp hbefore
  refine ⟨before, hpassed.symm, hprune, ⟨?_, harchive⟩, hold⟩
  rw [mem_storedDocuments hplaced, hplaced.key _ before hat.1]
  exact hat.1

theorem passCorrect_of_clean (hhash : ∀ body, ':' ∉ (host.hashContent body).toList)
    (h : Kept host store) (hplaced : store.Placed) (hclean : PassClean policy store pass) :
    PassCorrect host policy store pass := by
  rcases afterPass_spec policy hhash h hplaced pass with
    ⟨hkept, hplaced', hconfig, hok, hpassed⟩
  rcases hok.mpr hclean.fits with ⟨counts, hcounts⟩
  rcases hpassed counts hcounts with ⟨hdone, hcounted⟩
  constructor
  · intro key
    unfold stateAt
    rw [hdone.subjectAt_map hplaced]
    cases hfound : store.subjectAt key with
    | none => exact .inl rfl
    | some document =>
        cases hmove : retentionMove policy pass.nowMs document with
        | none =>
            left
            simp [passed, hmove]
        | some move =>
            have hstates : lifecycleOf document = move.source ∧
                lifecycleOf (passed policy pass document) = move.target :=
              retentionMove_eq_some_iff.mp hmove
            exact .inr ⟨move, congrArg some hstates.1, congrArg some hstates.2⟩
  · intro document move hdocument hsource htarget
    have hmoves := (moves_iff_states hplaced hdone hdocument).mpr ⟨hsource, htarget⟩
    rcases hdone.recorded document move hmoves with
      ⟨named, record, hnamed, hdocid, hrecord, haudit⟩
    have hsame := hclean.distinct named document move hnamed hmoves hdocid
    subst hsame
    refine ⟨_, record, hrecord, rfl, haudit, ?_⟩
    intro other found hfound hother
    rcases hdone.other other with hold | ⟨subject, hsubject, hnot⟩ |
      ⟨document', move', record', hmoves', hkey, hrecord', haudit'⟩
    · exact .inr (hold ▸ hfound)
    · rw [hsubject] at hfound
      cases hfound
      rw [isAudit, hother.collection] at hnot
      simp at hnot
    · rw [hrecord'] at hfound
      cases hfound
      left
      have hkind := auditKind_injective (Option.some.inj (haudit'.kind.symm.trans hother.kind))
      have hid := Option.some.inj (haudit'.docid.symm.trans hother.docid)
      rw [hkey]
      exact auditKey_eq_iff.mpr ⟨hkind, hid⟩
  · rw [hcounts, hcounted, moveCount_eq hplaced hdone, moveCount_eq hplaced hdone]
    rfl
  · intro again hnow key
    have hnone : ∀ document move, ¬Moves policy again
        (store.afterPass host policy pass).storedDocuments document move := by
      intro document move hmoves
      rcases moves_again hplaced hplaced' hdone hnow hmoves with ⟨before, -, -, harchive, hold⟩
      have hlate := hclean.later before harchive
      omega
    rcases afterPass_spec policy hhash hkept hplaced' again with
      ⟨-, -, -, hok', hpassed'⟩
    rcases hok'.mpr fun document move hmoves => absurd hmoves (hnone document move) with
      ⟨counts', hcounts'⟩
    unfold stateAt
    rw [(hpassed' counts' hcounts').1.subjectAt_map hplaced']
    cases hfound : (store.afterPass host policy pass).subjectAt key with
    | none => rfl
    | some document =>
        have hstored := (subjectAt_eq_some_iff.mp hfound).1
        have hmem := (mem_storedDocuments hplaced').mpr
          ((hplaced'.key key document hstored) ▸ hstored)
        have hsame : passed policy again document = document := by
          unfold passed
          cases hmove : retentionMove policy again.nowMs document with
          | none => rfl
          | some move => exact absurd ⟨hmem, hmove⟩ (hnone document move)
        simp [hsame]

theorem passClean_of_correct (hhash : ∀ body, ':' ∉ (host.hashContent body).toList)
    (h : Kept host store) (hplaced : store.Placed) (hcorrect : PassCorrect host policy store pass) :
    PassClean policy store pass := by
  rcases afterPass_spec policy hhash h hplaced pass with
    ⟨hkept, hplaced', hconfig, hok, hpassed⟩
  have hfits := hok.mp ⟨_, hcorrect.counted⟩
  have hdone := (hpassed _ hcorrect.counted).1
  have hsubjectAt : ∀ document move, Moves policy pass store.storedDocuments document move →
      store.subjectAt (keyOf document) = some document := by
    intro document move hmoves
    exact subjectAt_eq_some_iff.mpr
      ⟨(mem_storedDocuments hplaced).mp hmoves.1, retentionMove_notAudit hmoves.2⟩
  refine ⟨hfits, ?_, ?_⟩
  · intro document other move hmoves hother hdocid
    have hrecorded : ∀ document, Moves policy pass store.storedDocuments document move →
        ∃ record, (store.afterPass host policy pass).documents.lookup
          (auditKey pass.nowMs document move) = some record ∧
            AuditOf pass.nowMs document move record := by
      intro document hmoves
      have hfound := hsubjectAt document move hmoves
      rcases (moves_iff_states hplaced hdone hfound).mp hmoves with ⟨hsource, htarget⟩
      rcases hcorrect.audited document move hfound hsource htarget with
        ⟨key, record, hrecord, hkey, haudit, -⟩
      exact ⟨record, hkey ▸ hrecord, haudit⟩
    rcases hrecorded document hmoves with ⟨record, hrecord, haudit⟩
    rcases hrecorded other hother with ⟨record', hrecord', haudit'⟩
    rw [auditKey_eq_iff.mpr ⟨rfl, hdocid⟩, hrecord'] at hrecord
    cases hrecord
    have hcollection := Option.some.inj
      (haudit.documentCollection.symm.trans haudit'.documentCollection)
    have hpath := Option.some.inj (haudit.documentPath.symm.trans haudit'.documentPath)
    have hkey : keyOf document = keyOf other := by rw [keyOf, hcollection, hpath, keyOf]
    have hfound := hsubjectAt document move hmoves
    rw [hkey, hsubjectAt other move hother] at hfound
    exact (Option.some.inj hfound).symm
  · intro document hmoves
    by_contra hold
    have hfound := hsubjectAt document .archive hmoves
    rcases (moves_iff_states hplaced hdone hfound).mp hmoves with ⟨-, htarget⟩
    -- the same pass again goes to its end and prunes the document
    rcases afterPass_spec policy hhash hkept hplaced' pass with
      ⟨-, -, -, hok', hpassed'⟩
    have hfits' : ∀ other move,
        Moves policy pass (store.afterPass host policy pass).storedDocuments other move →
          (store.afterPass host policy pass).AuditFits other move := by
      intro other move hother
      rcases moves_again hplaced hplaced' hdone rfl hother with
        ⟨before, hbefore, hprune, harchive, -⟩
      have hfit := auditFits_prune (hfits before .archive harchive)
      have hbody : documentAuditBody other RetentionMove.prune.auditKind =
          documentAuditBody before RetentionMove.prune.auditKind := by
        rw [hbefore, passed, harchive.2]
        rfl
      unfold AuditFits at hfit ⊢
      rw [hprune, hbody, hconfig]
      exact hfit
    rcases hok'.mpr hfits' with ⟨counts, hcounts⟩
    have hagain : retentionMove policy pass.nowMs (passed policy pass document) = some .prune :=
      retentionMove_passed.mpr ⟨rfl, hmoves.2, by omega⟩
    have hafter : (store.afterPass host policy pass).subjectAt (keyOf document) =
        some (passed policy pass document) := by
      rw [hdone.subjectAt_map hplaced, hfound, Option.map_some]
    have hpruned : ((store.afterPass host policy pass).afterPass host policy pass).stateAt
        (keyOf document) = some .pruned := by
      unfold stateAt
      rw [(hpassed' counts hcounts).1.subjectAt_map hplaced', hafter]
      exact congrArg some (retentionMove_eq_some_iff.mp hagain).2
    have hsettled := hcorrect.settled pass rfl (keyOf document)
    rw [hpruned, htarget] at hsettled
    cases hsettled

/-! ## Runs -/

/-- From every reachable store, all passes of a run are correct exactly when all are
clean. -/
theorem passes_correct_iff (host : EngramHost)
    (hhash : ∀ body, ':' ∉ (host.hashContent body).toList) (config : EngramStoreConfig)
    (calls : List EngramCall) (policy : RetentionPruningPolicy) (passes : List RetentionPass) :
    let store := run host { config := config } calls
    History.Preceded (fun pre pass =>
        PassCorrect host policy (pre.foldl (afterPass host policy) store) pass) passes ↔
      History.Preceded (fun pre pass =>
        PassClean policy (pre.foldl (afterPass host policy) store) pass) passes := by
  intro store
  have hreached : ∀ pre : List RetentionPass, Kept host (pre.foldl (afterPass host policy) store) ∧
      (pre.foldl (afterPass host policy) store).Placed := by
    intro pre
    induction pre using List.reverseRecOn with
    | nil => exact ⟨run_kept (new_kept host config) calls, run_placed hhash (new_placed config) calls⟩
    | append_singleton pre pass ih =>
        rw [List.foldl_append]
        rcases afterPass_spec policy hhash ih.1 ih.2 pass with ⟨hkept, hplaced, -⟩
        exact ⟨hkept, hplaced⟩
  constructor
  · intro h pre pass post heq
    exact passClean_of_correct hhash (hreached pre).1 (hreached pre).2 (h pre pass post heq)
  · intro h pre pass post heq
    exact passCorrect_of_clean hhash (hreached pre).1 (hreached pre).2 (h pre pass post heq)

def plainHost : EngramHost where
  hashContent body := .ofList (body.toList.filter (· ≠ ':'))
  fts := wordHost

theorem plainHost_hash (body : String) : ':' ∉ (plainHost.hashContent body).toList := by
  show ':' ∉ (String.ofList (body.toList.filter (· ≠ ':'))).toList
  rw [String.toList_ofList]
  simp

/-- A pass fifteen days after the start. -/
def laterPass : RetentionPass where
  nowMs := 15 * (24 * 60 * 60 * 1000)
  archivedAtMs _ := 15 * (24 * 60 * 60 * 1000)
  updating _ := ⟨15 * (24 * 60 * 60 * 1000), .same⟩
  recording _ := ⟨15 * (24 * 60 * 60 * 1000), .same⟩
  inRange _ := by decide

def storeUnverified (path : String) : EngramCall :=
  (⟨0, .same⟩, .storeDocument "docs" path "Title" "text" true ∅)

theorem laterPass_correct :
    PassCorrect plainHost {} (run plainHost {} [storeUnverified "a"]) laterPass := by
  have hcorrect := passes_correct_iff plainHost plainHost_hash {} [storeUnverified "a"] {} [laterPass]
  have hdocument : ∀ document,
      document ∈ (run plainHost {} [storeUnverified "a"]).storedDocuments →
        document = buildDocument plainHost ⟨0, .same⟩ "docs" "a" "Title" "text" true ∅ :=
    fun document hmem => List.mem_singleton.mp hmem
  refine hcorrect.mpr ?_ [] laterPass [] rfl
  intro pre pass post heq
  have hpre : pre = [] ∧ pass = laterPass := by
    cases pre with
    | nil => exact ⟨rfl, (List.cons.inj heq).1.symm⟩
    | cons first pre =>
        have hrest := (List.cons.inj heq).2
        simp at hrest
  rcases hpre with ⟨rfl, rfl⟩
  refine ⟨?_, ?_, ?_⟩
  · intro document move hmoves
    rw [hdocument document hmoves.1]
    cases move with
    | archive => decide
    | prune => decide
  · intro document other move hmoves hother _
    rw [hdocument document hmoves.1, hdocument other hother.1]
  · intro document _
    show daysBefore (15 * (24 * 60 * 60 * 1000)) 90 < 15 * (24 * 60 * 60 * 1000)
    decide

/-- Two documents of one body are archived in one pass, and one audit document is lost. -/
theorem sharedAudit_lost :
    ¬PassCorrect plainHost {} (run plainHost {} [storeUnverified "a", storeUnverified "b"])
      laterPass := by
  intro h
  have hclean := passClean_of_correct plainHost_hash (run_kept (new_kept plainHost {}) _)
    (run_placed plainHost_hash (new_placed {}) _) h
  have hsame := hclean.distinct
    (buildDocument plainHost ⟨0, .same⟩ "docs" "a" "Title" "text" true ∅)
    (buildDocument plainHost ⟨0, .same⟩ "docs" "b" "Title" "text" true ∅) .archive
    ⟨by exact .tail _ (.head _), by decide⟩ ⟨by exact .head _, by decide⟩ rfl
  exact absurd (congrArg Document.path hsame) (by decide)

end EngramStore

end BenShu.Engram
