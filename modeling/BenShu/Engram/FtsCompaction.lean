import BenShu.Engram.FtsStore
import BenShu.Lib.FaultPoints

/-!
# A term delta, operation by operation

Every read, write and delete of the inverted table may fail, and then the delta stops. Where no
operation fails the operations are the delta as a whole.
-/

namespace BenShu.Engram

open DeltaLog

namespace FtsEngine

abbrev KvProgram (α : Type) : Type := Faulty FtsEngine String α

/-! ## The operations -/

def getFtsInverted (key : String) : KvProgram (Option InvertedRecord) :=
  .call fun engine => (engine.inverted.lookup key, engine)

def putInverted (key : String) (record : InvertedRecord) : KvProgram Unit :=
  .call fun engine => ((), engine.putFtsInverted key record)

def deleteAllInverted (keys : List String) : KvProgram Unit :=
  .forEach (fun key => .call fun engine => ((), engine.deleteFtsInverted key)) keys

section

variable (host : FtsHost)

def putSegment (term : String) (delta : Delta String PostingEntry) : KvProgram String := do
  let key ← .update fun engine =>
    ((engine.nextSegmentKey host term).2, (engine.nextSegmentKey host term).1)
  putInverted key (.segment { term := term, delta := delta })
  return key

def readDeltas : List String → KvProgram (List (Delta String PostingEntry))
  | [] => return []
  | key :: keys => do
      match ← getFtsInverted key with
      | none => readDeltas keys
      | some (.segment segment) => do
          let deltas ← readDeltas keys
          return segment.delta :: deltas
      | some _ => .fail s!"Failed to deserialize segment {key}"

def materialize (state : PostingListState) : KvProgram PostingList := do
  let deltas ← readDeltas state.segments
  return resolve state.term deltas

def getOrMigrate (term : String) : KvProgram (Option PostingListState) := do
  match ← getFtsInverted term with
  | none => return none
  | some (.state state) => return some state
  | some (.legacy legacy) => do
      let key ← putSegment host term ⟨legacy.entries, []⟩
      let state : PostingListState := { term := term, segments := [key] }
      putInverted state.term (.state state)
      return some state
  | some (.segment _) => .fail s!"Failed to deserialize posting state for term {term}"

def compactSegments (term : String) (state : PostingListState) (resolved : PostingList) :
    KvProgram (PostingListState × PostingList) :=
  if state.segments.length ≥ 8 then do
    let key ← putSegment host term ⟨resolved.entries, []⟩
    deleteAllInverted state.segments
    let state := { state with segments := [key] }
    let resolved ← materialize state
    return (state, resolved)
  else return (state, resolved)

def storeResolved (term : String) (state : PostingListState) (resolved : PostingList) :
    KvProgram Unit := do
  .update fun engine => ((), { engine with postingCache := engine.postingCache.pop term })
  if resolved.entries.isEmpty then do
    deleteAllInverted state.segments
    deleteAllInverted [term]
  else do
    putInverted state.term (.state state)
    .update fun engine => ((), { engine with postingCache := engine.postingCache.put term resolved })

def appendDelta (term : String) (state : PostingListState) (delta : Delta String PostingEntry) :
    KvProgram PostingListState :=
  if !delta.added.isEmpty || !delta.removed.isEmpty then do
    let key ← putSegment host term delta
    return { state with segments := state.segments ++ [key] }
  else return state

def termDeltaProgram (term : String) (addedEntries : List PostingEntry)
    (removedDocKeys : List String) : KvProgram Unit := do
  let stored ← getOrMigrate host term
  let state ← appendDelta host term (stored.getD { term := term, segments := [] })
    ⟨addedEntries, removedDocKeys⟩
  let resolved ← materialize state
  let compacted ← compactSegments host term state resolved
  storeResolved term compacted.1 compacted.2

end

/-! ## Without a failure -/

variable {host : FtsHost} {engine : FtsEngine}

end FtsEngine

end BenShu.Engram

/-!
# Term deltas that stop half way

Old segments are deleted one by one while the stored state still lists them. A delta that stops
there leaves what the younger segments replay to.
-/

namespace BenShu.Engram

open DeltaLog

namespace FtsEngine

variable {host : FtsHost} {engine engine₁ point : FtsEngine} {term : String}
  {state : PostingListState} {deltas log : List (Delta String PostingEntry)} {new : List String}

/-- A delta of the term has left a posting list that can be read, with what the log replays
to, and every other term as it was. -/
structure Leaves (engine : FtsEngine) (term : String) (log : List (Delta String PostingEntry))
    (point : FtsEngine) : Prop where
  readable : ∃ list, storedList point.inverted term = .ok list
  posting : ∀ docKey, storedPosting point.inverted term docKey =
    (replay PostingEntry.docKey log).lookup docKey
  others : ∀ other, PlainKey other → other ≠ term → ∀ docKey,
    storedPosting point.inverted other docKey = storedPosting engine.inverted other docKey

theorem Reworks.leaves (hsound : Sound host engine) (hterm : PlainKey term)
    (h : Reworks host term engine engine₁) (hread : ∃ list, storedList engine₁.inverted term = .ok list)
    (hlog : storedDeltas engine₁.inverted term = log)
    (hpoint : point.inverted = engine₁.inverted) : Leaves engine term log point where
  readable := hpoint ▸ hread
  posting := fun docKey => by rw [hpoint, storedPosting, hlog]
  others := fun other hother hne docKey => by
    rw [hpoint, storedPosting, storedPosting,
      h.storedDeltas_eq hsound.store hsound.unused hterm hother hne]

theorem Leaves.refl (hsound : Sound host engine) (hterm : PlainKey term)
    (hpoint : point.inverted = engine.inverted) :
    Leaves engine term (storedDeltas engine.inverted term) point :=
  (Reworks.refl host term engine).leaves hsound hterm ⟨_, hsound.store.storedList_eq hterm⟩ rfl
    hpoint

/-- The term has no posting list, or one in the layout of segments. -/
def Migrated (inverted : Table String InvertedRecord) (term : String) : Prop :=
  inverted.lookup term = none ∨ ∃ state, inverted.lookup term = some (.state state)

variable {inverted : Table String InvertedRecord}

theorem Migrated.storedDeltas_eq (h : Migrated inverted term) :
    storedDeltas inverted term =
      (segmentDeltas inverted (listedKeys inverted term)).toOption.getD [] := by
  unfold storedDeltas listedKeys
  rcases h with hnone | ⟨state, hstate⟩
  · rw [hnone]
    rfl
  · rw [hstate]

theorem Migrated.readable (h : Migrated inverted term)
    (hlog : segmentDeltas inverted (listedKeys inverted term) = .ok log) :
    ∃ list, storedList inverted term = .ok list := by
  unfold storedList
  rcases h with hnone | ⟨state, hstate⟩
  · rw [hnone]
    exact ⟨_, rfl⟩
  · rw [listedKeys_of_state hstate] at hlog
    rw [hstate]
    dsimp only
    rw [hlog]
    exact ⟨_, rfl⟩

theorem Migrated.of_lookup {inverted' : Table String InvertedRecord} (h : Migrated inverted term)
    (hsame : inverted'.lookup term = inverted.lookup term) :
    Migrated inverted' term ∧ listedKeys inverted' term = listedKeys inverted term := by
  unfold Migrated listedKeys
  rw [hsame]
  exact ⟨h, rfl⟩

/-! ## Younger segments -/

variable {keys : List String}

theorem segmentDeltas_drop (h : segmentDeltas inverted keys = .ok deltas) (n : Nat) :
    ∃ log, log <:+ deltas ∧ segmentDeltas inverted (keys.drop n) = .ok log := by
  induction keys generalizing deltas n with
  | nil => exact ⟨deltas, List.suffix_refl _, by rw [List.drop_nil, h]⟩
  | cons key keys ih =>
      cases n with
      | zero => exact ⟨deltas, List.suffix_refl _, h⟩
      | succ n =>
          rw [segmentDeltas] at h
          cases hkey : inverted.lookup key with
          | none =>
              rw [hkey] at h
              exact ih h n
          | some record =>
              rw [hkey] at h
              cases record with
              | state state => cases h
              | legacy list => cases h
              | segment segment =>
                  cases hrest : segmentDeltas inverted keys with
                  | error text =>
                      rw [hrest] at h
                      cases h
                  | ok rest =>
                      rw [hrest] at h
                      cases h
                      obtain ⟨log, hsuffix, hlog⟩ := ih hrest n
                      exact ⟨log, hsuffix.trans (List.suffix_cons _ _), hlog⟩

theorem segmentDeltas_suffix (h : segmentDeltas inverted keys = .ok deltas)
    (hlog : log <:+ deltas) :
    ∃ n ≤ keys.length, segmentDeltas inverted (keys.drop n) = .ok log := by
  induction keys generalizing deltas with
  | nil =>
      cases h
      refine ⟨0, Nat.le_refl _, ?_⟩
      rw [List.suffix_nil.mp hlog]
      rfl
  | cons key keys ih =>
      have hall : log = deltas → ∃ n ≤ (key :: keys).length,
          segmentDeltas inverted ((key :: keys).drop n) = .ok log := by
        rintro rfl
        exact ⟨0, Nat.zero_le _, h⟩
      have hlater : (∃ n ≤ keys.length, segmentDeltas inverted (keys.drop n) = .ok log) →
          ∃ n ≤ (key :: keys).length, segmentDeltas inverted ((key :: keys).drop n) = .ok log := by
        rintro ⟨n, hn, hdrop⟩
        exact ⟨n + 1, Nat.succ_le_succ hn, hdrop⟩
      rw [segmentDeltas] at h
      cases hkey : inverted.lookup key with
      | none =>
          rw [hkey] at h
          exact hlater (ih h hlog)
      | some record =>
          rw [hkey] at h
          cases record with
          | state state => cases h
          | legacy list => cases h
          | segment segment =>
              cases hrest : segmentDeltas inverted keys with
              | error text =>
                  rw [hrest] at h
                  cases h
              | ok rest =>
                  rw [hrest] at h
                  cases h
                  rcases List.suffix_cons_iff.mp hlog with heq | hsuffix
                  · exact hall heq
                  · exact hlater (ih hrest hsuffix)

/-! ## The state in hand -/

/-- The segments of the prepared state are the listed ones, which are all still there, and new
ones after them. -/
structure InHand (host : FtsHost) (term : String) (engine engine₁ : FtsEngine)
    (state : PostingListState) (deltas : List (Delta String PostingEntry))
    (new : List String) : Prop where
  prepared : Prepared host term engine engine₁ state deltas
  migrated : Migrated engine₁.inverted term
  kept : storedDeltas engine₁.inverted term = storedDeltas engine.inverted term
  segments : state.segments = listedKeys engine₁.inverted term ++ new

theorem InHand.listed (h : InHand host term engine engine₁ state deltas new) :
    segmentDeltas engine₁.inverted (listedKeys engine₁.inverted term) =
      .ok (storedDeltas engine.inverted term) := by
  have hsegments : OnlySegments engine₁.inverted (listedKeys engine₁.inverted term) := by
    intro key hkey
    exact h.prepared.stored key (h.segments ▸ List.mem_append_left _ hkey)
  obtain ⟨listed, hlisted⟩ := segmentDeltas_of_onlySegments hsegments
  rw [← h.kept, h.migrated.storedDeltas_eq, hlisted]
  rfl

theorem InHand.extend (hunused : UnusedKeys host engine) (hterm : PlainKey term)
    (h : InHand host term engine engine₁ state deltas new) (delta : Delta String PostingEntry) :
    InHand host term engine (engine₁.writeSegment host term delta).1
      { state with segments := state.segments ++ [(engine₁.writeSegment host term delta).2] }
      (deltas ++ [delta]) (new ++ [(engine₁.writeSegment host term delta).2]) := by
  have hlookup : ∀ key, (engine₁.writeSegment host term delta).1.inverted.lookup key =
      if key = keyAt host term engine₁.segmentSeq then some (.segment ⟨term, delta⟩)
      else engine₁.inverted.lookup key := fun key => Table.lookup_insert _ _ _ _
  have hne : term ≠ keyAt host term engine₁.segmentSeq := fun heq =>
    hterm (heq ▸ keyAt_colon host term _)
  have hsame : (engine₁.writeSegment host term delta).1.inverted.lookup term =
      engine₁.inverted.lookup term := (hlookup term).trans (if_neg hne)
  obtain ⟨hmigrated, hlisted⟩ := h.migrated.of_lookup hsame
  refine ⟨h.prepared.extend hunused hterm delta, hmigrated, ?_, ?_⟩
  · rw [hmigrated.storedDeltas_eq, hlisted, segmentDeltas_congr, h.listed]
    · rfl
    · intro key hkey
      have hmem : key ∈ state.segments := h.segments ▸ List.mem_append_left _ hkey
      refine (hlookup key).trans (if_neg ?_)
      rintro rfl
      exact not_ownKey_keyAt hunused hterm hterm h.prepared.reworks.seq_le (Nat.le_refl _)
        (h.prepared.own _ hmem)
  · rw [hlisted, ← List.append_assoc, ← h.segments]

theorem filter_notMem_take {listed new : List String} (h : (listed ++ new).Nodup) (n : Nat) :
    listed.filter (fun key => decide (key ∉ (listed ++ new).take n)) = listed.drop n := by
  induction listed generalizing n with
  | nil => simp
  | cons key listed ih =>
      rcases List.nodup_cons.mp h with ⟨hkey, hrest⟩
      cases n with
      | zero => simp
      | succ n =>
          rw [List.cons_append, List.take_succ_cons, List.drop_succ_cons, ← ih hrest n,
            List.filter_cons_of_neg (by simp)]
          refine List.filter_congr fun other hother => ?_
          have hne : other ≠ key := fun heq => hkey (heq ▸ List.mem_append_left _ hother)
          simp [hne]

theorem segmentDeltas_foldl_erase {gone : List String} :
    segmentDeltas (gone.foldl (fun table key => table.erase key) inverted) keys =
      segmentDeltas inverted (keys.filter fun key => decide (key ∉ gone)) := by
  induction keys with
  | nil => rfl
  | cons key keys ih =>
      rw [segmentDeltas, Table.lookup_foldl_erase, ih]
      by_cases hkey : key ∈ gone
      · rw [if_pos hkey, List.filter_cons_of_neg (by simp [hkey])]
      · rw [if_neg hkey, List.filter_cons_of_pos (by simp [hkey]), segmentDeltas]

/-- After the first `n` segments are deleted the younger listed ones are left. -/
theorem InHand.deleted (hsound : Sound host engine) (hterm : PlainKey term)
    (h : InHand host term engine engine₁ state deltas new) (n : Nat)
    (hpoint : point.inverted =
      (state.segments.take n).foldl (fun table key => table.erase key) engine₁.inverted)
    (hlog : segmentDeltas engine₁.inverted ((listedKeys engine₁.inverted term).drop n) = .ok log) :
    Leaves engine term log point := by
  have hown : ∀ key ∈ state.segments.take n, OwnKey host term engine engine₁ key :=
    fun key hkey => h.prepared.own key (List.mem_of_mem_take hkey)
  have hgone : term ∉ state.segments.take n := fun hmem =>
    (hown term hmem).ne_plain hsound.store hterm hterm rfl
  have hreworks := h.prepared.reworks.withInverted fun key _ hkey => by
    rw [Table.lookup_foldl_erase, if_neg fun hmem => hkey (hown key hmem)]
  have hsame : ((state.segments.take n).foldl (fun table key => table.erase key)
      engine₁.inverted).lookup term = engine₁.inverted.lookup term := by
    rw [Table.lookup_foldl_erase, if_neg hgone]
  obtain ⟨hmigrated, hlisted⟩ := h.migrated.of_lookup hsame
  have hnodup := h.prepared.nodup
  rw [h.segments] at hnodup
  have hleft : segmentDeltas ((state.segments.take n).foldl (fun table key => table.erase key)
      engine₁.inverted) (listedKeys ((state.segments.take n).foldl
        (fun table key => table.erase key) engine₁.inverted) term) = .ok log := by
    rw [hlisted, segmentDeltas_foldl_erase, h.segments, filter_notMem_take hnodup, hlog]
  refine hreworks.leaves hsound hterm (hmigrated.readable hleft) ?_ hpoint
  refine hmigrated.storedDeltas_eq.trans ?_
  rw [hleft]
  rfl

def DeletedTo (engine : FtsEngine) (keys : List String) (n : Nat) (point : FtsEngine) : Prop :=
  point.inverted = (keys.take n).foldl (fun table key => table.erase key) engine.inverted

theorem InHand.leaves (hsound : Sound host engine) (hterm : PlainKey term)
    (h : InHand host term engine engine₁ state deltas new) {n : Nat}
    (hpoint : DeletedTo engine₁ state.segments n point) :
    ∃ log, log <:+ storedDeltas engine.inverted term ∧ Leaves engine term log point := by
  obtain ⟨log, hsuffix, hlog⟩ := segmentDeltas_drop h.listed n
  exact ⟨log, hsuffix, h.deleted hsound hterm n hpoint hlog⟩

/-- Nothing is deleted yet. -/
theorem InHand.leaves_whole (hsound : Sound host engine) (hterm : PlainKey term)
    (h : InHand host term engine engine₁ state deltas new)
    (hpoint : point.inverted = engine₁.inverted) :
    Leaves engine term (storedDeltas engine.inverted term) point :=
  h.deleted hsound hterm 0 hpoint h.listed

/-- Every rest of the log is left once enough segments are deleted. -/
theorem InHand.reaches (hsound : Sound host engine) (hterm : PlainKey term)
    (h : InHand host term engine engine₁ state deltas new)
    (hlog : log <:+ storedDeltas engine.inverted term) :
    ∃ n ≤ (listedKeys engine₁.inverted term).length, ∀ point,
      DeletedTo engine₁ state.segments n point → Leaves engine term log point := by
  obtain ⟨n, hn, hdrop⟩ := segmentDeltas_suffix h.listed hlog
  exact ⟨n, hn, fun point hpoint => h.deleted hsound hterm n hpoint hdrop⟩

theorem resolve_isEmpty_of_none
    (h : ∀ docKey, (replay PostingEntry.docKey deltas).lookup docKey = none) :
    (resolve term deltas).entries.isEmpty = true := by
  rw [List.isEmpty_iff, List.eq_nil_iff_forall_not_mem]
  intro entry hentry
  have hmem := (mem_values fun _ _ => key_of_replay).mp ((List.mem_insertionSort _).mp hentry)
  rw [h] at hmem
  cases hmem

/-! ## The points of the program -/

open Faulty

theorem deleteAllInverted_points (keys : List String) (engine : FtsEngine) :
    ∃ points, RunsTo (deleteAllInverted keys) engine points ()
        (keys.foldl deleteFtsInverted engine) ∧
      (∀ point ∈ points, ∃ n < keys.length, DeletedTo engine keys n point) ∧
      ∀ n < keys.length, ∃ point ∈ points, DeletedTo engine keys n point := by
  refine ⟨_, RunsTo.forEach deleteFtsInverted keys engine, fun point hpoint => ?_, fun n hn => ?_⟩
  · obtain ⟨n, hn, rfl⟩ := List.mem_map.mp hpoint
    refine ⟨n, List.mem_range.mp hn, ?_⟩
    rw [DeletedTo, foldl_deleteFtsInverted]
  · refine ⟨_, List.mem_map.mpr ⟨n, List.mem_range.mpr hn, rfl⟩, ?_⟩
    rw [DeletedTo, foldl_deleteFtsInverted]

theorem putSegment_runs (host : FtsHost) (term : String) (delta : Delta String PostingEntry)
    (engine : FtsEngine) :
    RunsTo (putSegment host term delta) engine [(engine.nextSegmentKey host term).1]
      (engine.writeSegment host term delta).2 (engine.writeSegment host term delta).1 := rfl

theorem readDeltas_runs (h : segmentDeltas engine.inverted keys = .ok deltas) :
    RunsTo (readDeltas keys) engine (keys.map fun _ => engine) deltas engine := by
  induction keys generalizing deltas with
  | nil =>
      cases h
      rfl
  | cons key keys ih =>
      have hget : RunsTo (getFtsInverted key) engine [engine] (engine.inverted.lookup key) engine :=
        RunsTo.call _ engine
      rw [segmentDeltas] at h
      rw [readDeltas]
      refine hget.bind ?_
      cases hkey : engine.inverted.lookup key with
      | none =>
          rw [hkey] at h
          exact ih h
      | some record =>
          rw [hkey] at h
          cases record with
          | state state => cases h
          | legacy list => cases h
          | segment segment =>
              cases hrest : segmentDeltas engine.inverted keys with
              | error text =>
                  rw [hrest] at h
                  cases h
              | ok rest =>
                  rw [hrest] at h
                  cases h
                  exact (ih hrest).bind_pure (segment.delta :: ·)

theorem materialize_runs (h : segmentDeltas engine.inverted state.segments = .ok deltas) :
    RunsTo (materialize state) engine (state.segments.map fun _ => engine)
      (resolve state.term deltas) engine :=
  (readDeltas_runs h).bind_pure (resolve state.term)

theorem deletedTo_all (engine : FtsEngine) (keys : List String) :
    DeletedTo engine keys keys.length (keys.foldl deleteFtsInverted engine) := by
  rw [DeletedTo, foldl_deleteFtsInverted, List.take_length]

/-- Deletes that all succeed, and one operation after them. -/
theorem points_upTo {points : List FtsEngine} {cleared : FtsEngine}
    (hpoints : ∀ point ∈ points, ∃ n < keys.length, DeletedTo engine keys n point)
    (hall : ∀ n < keys.length, ∃ point ∈ points, DeletedTo engine keys n point)
    (hwhole : DeletedTo engine keys keys.length cleared) :
    (∀ point ∈ points ++ [cleared], ∃ n ≤ keys.length, DeletedTo engine keys n point) ∧
      ∀ n ≤ keys.length, ∃ point ∈ points ++ [cleared], DeletedTo engine keys n point := by
  constructor
  · intro point hpoint
    rcases List.mem_append.mp hpoint with hpoint | hpoint
    · obtain ⟨n, hn, hdeleted⟩ := hpoints point hpoint
      exact ⟨n, Nat.le_of_lt hn, hdeleted⟩
    · rw [List.mem_singleton.mp hpoint]
      exact ⟨_, Nat.le_refl _, hwhole⟩
  · intro n hn
    rcases Nat.lt_or_eq_of_le hn with hlt | rfl
    · obtain ⟨point, hpoint, hdeleted⟩ := hall n hlt
      exact ⟨point, List.mem_append_left _ hpoint, hdeleted⟩
    · exact ⟨cleared, List.mem_append_right _ List.mem_cons_self, hwhole⟩

variable {resolved : PostingList}

theorem storeResolved_points_empty (hempty : resolved.entries.isEmpty = true) (engine : FtsEngine) :
    ∃ points engine', RunsTo (storeResolved term state resolved) engine points () engine' ∧
      (∀ point ∈ points, ∃ n ≤ state.segments.length, DeletedTo engine state.segments n point) ∧
      ∀ n ≤ state.segments.length, ∃ point ∈ points, DeletedTo engine state.segments n point := by
  obtain ⟨points, hruns, hpoints, hall⟩ := deleteAllInverted_points state.segments
    { engine with postingCache := engine.postingCache.pop term }
  have hwhole := deletedTo_all { engine with postingCache := engine.postingCache.pop term }
    state.segments
  generalize state.segments.foldl deleteFtsInverted
    { engine with postingCache := engine.postingCache.pop term } = cleared at hruns hwhole
  have hlast : RunsTo (deleteAllInverted [term]) cleared [cleared] ()
      (cleared.deleteFtsInverted term) := RunsTo.forEach deleteFtsInverted [term] cleared
  refine ⟨points ++ [cleared], cleared.deleteFtsInverted term, ?_, points_upTo hpoints hall hwhole⟩
  unfold storeResolved
  rw [if_pos hempty]
  exact RunsTo.update_bind (hruns.bind hlast)

theorem storeResolved_points (hsome : ¬resolved.entries.isEmpty = true) (engine : FtsEngine) :
    ∃ point engine', RunsTo (storeResolved term state resolved) engine [point] () engine' ∧
      point.inverted = engine.inverted := by
  refine ⟨{ engine with postingCache := engine.postingCache.pop term },
    (storeResolved term state resolved engine).final, ?_, rfl⟩
  unfold storeResolved
  rw [if_neg hsome]
  rfl

/-- Replacing eight or more segments by one deletes the old ones after the new one is written. -/
theorem compactSegments_points {engine₂ : FtsEngine} {key : String}
    (hlong : state.segments.length ≥ 8)
    (hwrite : engine₁.writeSegment host term ⟨resolved.entries, []⟩ = (engine₂, key))
    (hread : segmentDeltas (state.segments.foldl deleteFtsInverted engine₂).inverted [key] =
      .ok deltas) :
    ∃ points, RunsTo (compactSegments host term state resolved) engine₁
        ((engine₁.nextSegmentKey host term).1 :: points)
        ({ state with segments := [key] }, resolve state.term deltas)
        (state.segments.foldl deleteFtsInverted engine₂) ∧
      (∀ point ∈ points, ∃ n ≤ state.segments.length, DeletedTo engine₂ state.segments n point) ∧
      ∀ n ≤ state.segments.length, ∃ point ∈ points, DeletedTo engine₂ state.segments n point := by
  have hput := putSegment_runs host term ⟨resolved.entries, []⟩ engine₁
  rw [hwrite] at hput
  obtain ⟨points, hdelete, hpoints, hall⟩ := deleteAllInverted_points state.segments engine₂
  have hwhole := deletedTo_all engine₂ state.segments
  generalize state.segments.foldl deleteFtsInverted engine₂ = cleared at hdelete hread hwhole ⊢
  have hmaterialize : RunsTo (materialize { state with segments := [key] }) cleared [cleared]
      (resolve state.term deltas) cleared := materialize_runs hread
  refine ⟨points ++ [cleared], ?_, points_upTo hpoints hall hwhole⟩
  unfold compactSegments
  rw [if_pos hlong]
  exact hput.bind (hdelete.bind (hmaterialize.bind_pure
    fun resolved => ({ state with segments := [key] }, resolved)))

theorem compactSegments_short (hshort : state.segments.length < 8) (host : FtsHost)
    (engine : FtsEngine) :
    RunsTo (compactSegments host term state resolved) engine [] (state, resolved) engine := by
  unfold compactSegments
  rw [if_neg (Nat.not_le.mpr hshort)]
  rfl

theorem DeletedTo.append_right {n : Nat} (h : DeletedTo engine keys n point)
    (hn : n ≤ keys.length) (more : List String) : DeletedTo engine (keys ++ more) n point := by
  rw [DeletedTo, List.take_append_of_le_length hn]
  exact h

theorem DeletedTo.append_left {more : List String} {n : Nat}
    (h : DeletedTo (keys.foldl deleteFtsInverted engine) more n point) :
    DeletedTo engine (keys ++ more) (keys.length + n) point := by
  rw [DeletedTo, foldl_deleteFtsInverted] at h
  rw [DeletedTo, List.take_length_add_append, List.foldl_append]
  exact h

/-! ## The whole delta -/

def settle (host : FtsHost) (term : String) (state : PostingListState) : KvProgram Unit :=
  materialize state >>= fun resolved => compactSegments host term state resolved >>=
    fun compacted => storeResolved term compacted.1 compacted.2

/-- Which rests of the log the points of a program leave. -/
structure Strands (engine : FtsEngine) (term : String) (points : List FtsEngine)
    (deletes : Prop) : Prop where
  rest : ∀ point ∈ points, ∃ log, log <:+ storedDeltas engine.inverted term ∧
    Leaves engine term log point
  whole : ¬deletes → ∀ point ∈ points,
    Leaves engine term (storedDeltas engine.inverted term) point
  every : deletes → ∀ log, log <:+ storedDeltas engine.inverted term →
    ∃ point ∈ points, Leaves engine term log point

theorem Strands.append {points before : List FtsEngine} {deletes : Prop}
    (h : Strands engine term points deletes)
    (hbefore : ∀ point ∈ before, Leaves engine term (storedDeltas engine.inverted term) point) :
    Strands engine term (before ++ points) deletes where
  rest := by
    intro point hpoint
    rcases List.mem_append.mp hpoint with hpoint | hpoint
    · exact ⟨_, List.suffix_refl _, hbefore point hpoint⟩
    · exact h.rest point hpoint
  whole := by
    intro hnot point hpoint
    rcases List.mem_append.mp hpoint with hpoint | hpoint
    · exact hbefore point hpoint
    · exact h.whole hnot point hpoint
  every := by
    intro hdeletes log hlog
    obtain ⟨point, hpoint, hleaves⟩ := h.every hdeletes log hlog
    exact ⟨point, List.mem_append_right _ hpoint, hleaves⟩

theorem InHand.strands (hsound : Sound host engine) (hterm : PlainKey term)
    (h : InHand host term engine engine₁ state deltas new) {points : List FtsEngine}
    {deletes : Prop} (hdeletes : deletes)
    (hpoints : ∀ point ∈ points, ∃ n, DeletedTo engine₁ state.segments n point)
    (hall : ∀ n ≤ (listedKeys engine₁.inverted term).length, ∃ point ∈ points,
      DeletedTo engine₁ state.segments n point) :
    Strands engine term points deletes where
  rest := by
    intro point hpoint
    obtain ⟨n, hdeleted⟩ := hpoints point hpoint
    exact h.leaves hsound hterm hdeleted
  whole := fun hnot => absurd hdeletes hnot
  every := by
    intro _ log hlog
    obtain ⟨n, hn, hleaves⟩ := h.reaches hsound hterm hlog
    obtain ⟨point, hpoint, hdeleted⟩ := hall n hn
    exact ⟨point, hpoint, hleaves point hdeleted⟩

theorem InHand.settle_strands (hsound : Sound host engine) (hterm : PlainKey term)
    (h : InHand host term engine engine₁ state deltas new) :
    ∃ points engine', RunsTo (settle host term state) engine₁ points () engine' ∧
      Strands engine term points (8 ≤ state.segments.length ∨
        ∀ docKey, (replay PostingEntry.docKey deltas).lookup docKey = none) := by
  have hread := materialize_runs h.prepared.deltas_eq
  rw [h.prepared.stateTerm] at hread
  have hbefore : ∀ point ∈ state.segments.map fun _ => engine₁,
      Leaves engine term (storedDeltas engine.inverted term) point := by
    intro point hpoint
    obtain ⟨key, -, rfl⟩ := List.mem_map.mp hpoint
    exact h.leaves_whole hsound hterm rfl
  have hlisted : (listedKeys engine₁.inverted term).length ≤ state.segments.length := by
    rw [h.segments, List.length_append]
    exact Nat.le_add_right _ _
  unfold settle
  by_cases hlong : 8 ≤ state.segments.length
  · have hextended := h.extend hsound.unused hterm ⟨(resolve term deltas).entries, []⟩
    have hwritten := fun engine₂ key => @Prepared.written_left host engine engine₁ term state deltas
      hsound.unused hterm h.prepared ⟨(resolve term deltas).entries, []⟩ engine₂ key
    have hcompact := fun engine₂ key => @compactSegments_points host engine₁ term state
      [⟨(resolve term deltas).entries, []⟩] (resolve term deltas) engine₂ key hlong
    generalize engine₁.writeSegment host term ⟨(resolve term deltas).entries, []⟩ = written at *
    rcases written with ⟨engine₂, key⟩
    obtain ⟨points, hcompacts, hpoints, hall⟩ := hcompact engine₂ key rfl (hwritten engine₂ key rfl).2
    obtain ⟨points', engine', hstore, hpoints'⟩ : ∃ points' engine',
        RunsTo (storeResolved term { state with segments := [key] }
          (resolve state.term [⟨(resolve term deltas).entries, []⟩]))
          (state.segments.foldl deleteFtsInverted engine₂) points' () engine' ∧
        ∀ point ∈ points', ∃ n, DeletedTo engine₂ (state.segments ++ [key]) n point := by
      by_cases hempty : (resolve state.term
          [⟨(resolve term deltas).entries, []⟩]).entries.isEmpty = true
      · obtain ⟨points', engine', hstore, hpoints', -⟩ := @storeResolved_points_empty term
          { state with segments := [key] } _ hempty (state.segments.foldl deleteFtsInverted engine₂)
        refine ⟨points', engine', hstore, fun point hpoint => ?_⟩
        obtain ⟨n, -, hdeleted⟩ := hpoints' point hpoint
        exact ⟨_, hdeleted.append_left⟩
      · obtain ⟨point, engine', hstore, hpoint⟩ := @storeResolved_points term
          { state with segments := [key] } _ hempty (state.segments.foldl deleteFtsInverted engine₂)
        refine ⟨[point], engine', hstore, fun point' hpoint' => ⟨state.segments.length, ?_⟩⟩
        rw [List.mem_singleton.mp hpoint']
        refine DeletedTo.append_right (hpoint.trans ?_) (Nat.le_refl _) [key]
        exact deletedTo_all engine₂ state.segments
    refine ⟨_, engine', hread.bind (hcompacts.bind hstore), Strands.append ?_ hbefore⟩
    have hbumped : ∀ point ∈ [(engine₁.nextSegmentKey host term).1],
        Leaves engine term (storedDeltas engine.inverted term) point := by
      intro point hpoint
      rw [List.mem_singleton.mp hpoint]
      exact h.leaves_whole hsound hterm rfl
    have hstrands : Strands engine term (points ++ points') (8 ≤ state.segments.length ∨
        ∀ docKey, (replay PostingEntry.docKey deltas).lookup docKey = none) := by
      refine hextended.strands hsound hterm (.inl hlong) (fun point hpoint => ?_) fun n hn => ?_
      · rcases List.mem_append.mp hpoint with hpoint | hpoint
        · obtain ⟨n, hn, hdeleted⟩ := hpoints point hpoint
          exact ⟨n, hdeleted.append_right hn [key]⟩
        · exact hpoints' point hpoint
      · have hlength := congrArg List.length hextended.segments
        simp only [List.length_append, List.length_singleton] at hlength
        have hkeys : n ≤ (listedKeys engine₂.inverted term).length := hn
        have hle : n ≤ state.segments.length := by omega
        obtain ⟨point, hpoint, hdeleted⟩ := hall n hle
        exact ⟨point, List.mem_append_left _ hpoint, hdeleted.append_right hle [key]⟩
    exact hstrands.append hbumped
  · have hshort := @compactSegments_short term state (resolve term deltas) (Nat.not_le.mp hlong)
      host engine₁
    by_cases hempty : (resolve term deltas).entries.isEmpty = true
    · obtain ⟨points, engine', hstore, hpoints, hall⟩ :=
        @storeResolved_points_empty term state (resolve term deltas) hempty engine₁
      refine ⟨_, engine', hread.bind (hshort.bind hstore), Strands.append ?_ hbefore⟩
      refine h.strands hsound hterm (.inr (resolve_isEmpty hempty)) (fun point hpoint => ?_)
        fun n hn => hall n (hn.trans hlisted)
      obtain ⟨n, -, hdeleted⟩ := hpoints point hpoint
      exact ⟨n, hdeleted⟩
    · obtain ⟨point, engine', hstore, hpoint⟩ :=
        @storeResolved_points term state (resolve term deltas) hempty engine₁
      have hleaves : ∀ point' ∈ [point],
          Leaves engine term (storedDeltas engine.inverted term) point' := by
        intro point' hpoint'
        rw [List.mem_singleton.mp hpoint']
        exact h.leaves_whole hsound hterm hpoint
      refine ⟨_, engine', hread.bind (hshort.bind hstore), Strands.append ⟨?_, ?_, ?_⟩ hbefore⟩
      · exact fun point' hpoint' => ⟨_, List.suffix_refl _, hleaves point' hpoint'⟩
      · exact fun _ => hleaves
      · intro hdeletes
        exact absurd (resolve_isEmpty_of_none (hdeletes.resolve_left hlong)) hempty

/-- How many segments the term has, an old posting list counted as the one it becomes. -/
def segmentCount (inverted : Table String InvertedRecord) (term : String) : Nat :=
  match inverted.lookup term with
  | some (.state state) => state.segments.length
  | some (.legacy _) => 1
  | _ => 0

theorem getOrMigrate_runs {record : Option InvertedRecord}
    (hlookup : engine.inverted.lookup term = record) :
    RunsTo (getFtsInverted term) engine [engine] record engine := by
  rw [← hlookup]
  exact RunsTo.call _ engine

theorem getOrMigrate_legacy {list : PostingList} {engine₂ : FtsEngine} {key : String}
    (hlookup : engine.inverted.lookup term = some (.legacy list))
    (hwritten : engine.writeSegment host term ⟨list.entries, []⟩ = (engine₂, key)) :
    RunsTo (getOrMigrate host term) engine
      [engine, (engine.nextSegmentKey host term).1, engine₂]
      (some { term := term, segments := [key] })
      (engine₂.persistPostingState { term := term, segments := [key] }) := by
  have hput := putSegment_runs host term ⟨list.entries, []⟩ engine
  rw [hwritten] at hput
  have hpersist : RunsTo (putInverted term (.state { term := term, segments := [key] }))
      engine₂ [engine₂] () (engine₂.persistPostingState { term := term, segments := [key] }) :=
    RunsTo.call _ _
  have hanswer : RunsTo (Pure.pure (some { term := term, segments := [key] }) :
      KvProgram (Option PostingListState))
      (engine₂.persistPostingState { term := term, segments := [key] }) [] _ _ := RunsTo.pure _ _
  exact (getOrMigrate_runs hlookup).bind (hput.bind (hpersist.bind hanswer))

/-- A segment that nothing lists yet changes nothing that is read. -/
theorem writeSegment_leaves (hsound : Sound host engine) (hterm : PlainKey term)
    (delta : Delta String PostingEntry) {list : PostingList}
    (hlookup : engine.inverted.lookup term = some (.legacy list)) :
    Leaves engine term (storedDeltas engine.inverted term)
      (engine.writeSegment host term delta).1 := by
  have hne : term ≠ keyAt host term engine.segmentSeq := fun heq =>
    hterm (heq ▸ keyAt_colon host term _)
  have hsame : (engine.writeSegment host term delta).1.inverted.lookup term =
      some (.legacy list) := (Table.lookup_insert _ _ _ _).trans ((if_neg hne).trans hlookup)
  refine ((Reworks.refl host term engine).writeSegment delta).leaves hsound hterm ⟨list, ?_⟩ ?_ rfl
  · rw [storedList, hsame]
  · rw [storedDeltas, storedDeltas, hsame, hlookup]

theorem getOrMigrate_inHand (hsound : Sound host engine) (hterm : PlainKey term) :
    ∃ points stored engine₁, RunsTo (getOrMigrate host term) engine points stored engine₁ ∧
      InHand host term engine engine₁ (stored.getD { term := term, segments := [] })
        (storedDeltas engine.inverted term) [] ∧
      (stored.getD { term := term, segments := [] }).segments.length =
        segmentCount engine.inverted term ∧
      ∀ point ∈ points, Leaves engine term (storedDeltas engine.inverted term) point := by
  obtain ⟨engine₁, stored, hget, hprepared⟩ :=
    getOrMigrate_prepared hsound.store hsound.unused hterm
  have hstart : Leaves engine term (storedDeltas engine.inverted term) engine :=
    .refl hsound hterm rfl
  unfold getOrMigratePostingState at hget
  cases hlookup : engine.inverted.lookup term with
  | none =>
      have hread := getOrMigrate_runs hlookup
      rw [hlookup] at hget
      cases hget
      refine ⟨[engine], none, engine, hread.bind (RunsTo.pure none engine),
        ⟨hprepared, .inl hlookup, rfl, ?_⟩, ?_, by simpa using hstart⟩
      · rw [listedKeys, hlookup]
        rfl
      · rw [segmentCount, hlookup]
        rfl
  | some record =>
      have hread := getOrMigrate_runs hlookup
      rcases hsound.store.record term hterm record hlookup with ⟨list, rfl⟩ | ⟨state, rfl, hname⟩
      · rw [hlookup] at hget
        dsimp only at hget
        unfold postingStateFromLegacy at hget
        generalize hwritten : engine.writeSegment host term ⟨list.entries, []⟩ = written at hget
        rcases written with ⟨engine₂, key⟩
        cases hget
        have hstate : (engine₂.persistPostingState
            { term := term, segments := [key] }).inverted.lookup term =
            some (.state { term := term, segments := [key] }) :=
          (Table.lookup_insert _ _ _ _).trans (if_pos rfl)
        refine ⟨_, _, _, getOrMigrate_legacy hlookup hwritten,
          ⟨hprepared, .inr ⟨_, hstate⟩, ?_, ?_⟩, ?_, ?_⟩
        · exact storedDeltas_of_state hstate hprepared.deltas_eq
        · exact ((congrArg (· ++ []) (listedKeys_of_state hstate)).trans (List.append_nil _)).symm
        · rw [segmentCount, hlookup]
          rfl
        · have hleaves := writeSegment_leaves hsound hterm ⟨list.entries, []⟩ hlookup
          rw [hwritten] at hleaves
          have hnext : Leaves engine term (storedDeltas engine.inverted term)
              (engine.nextSegmentKey host term).1 := .refl hsound hterm rfl
          simpa using ⟨hstart, hnext, hleaves⟩
      · rw [hlookup] at hget
        cases hget
        refine ⟨[engine], some state, engine, hread.bind (RunsTo.pure (some state) engine),
          ⟨hprepared, .inr ⟨state, hlookup⟩, rfl, ?_⟩, ?_, by simpa using hstart⟩
        · rw [listedKeys, hlookup]
          exact (List.append_nil _).symm
        · rw [segmentCount, hlookup]
          rfl

/-- A new segment that no state lists yet changes nothing that is read. -/
theorem InHand.appendDelta (hsound : Sound host engine) (hterm : PlainKey term)
    (h : InHand host term engine engine₁ state deltas []) (delta : Delta String PostingEntry) :
    ∃ points engine₂ state₂ deltas₂ new,
      RunsTo (FtsEngine.appendDelta host term state delta) engine₁ points state₂ engine₂ ∧
      InHand host term engine engine₂ state₂ deltas₂ new ∧
      state₂.segments.length =
        state.segments.length + (if delta.added = [] ∧ delta.removed = [] then 0 else 1) ∧
      (∀ docKey, (replay PostingEntry.docKey deltas₂).lookup docKey =
        (lastWith PostingEntry.docKey delta.added docKey).or
          (if docKey ∈ delta.removed then none
          else (replay PostingEntry.docKey deltas).lookup docKey)) ∧
      ∀ point ∈ points, Leaves engine term (storedDeltas engine.inverted term) point := by
  unfold FtsEngine.appendDelta
  by_cases hsome : (!delta.added.isEmpty || !delta.removed.isEmpty) = true
  · have hnot : ¬(delta.added = [] ∧ delta.removed = []) := by
      rintro ⟨hadded, hremoved⟩
      simp [hadded, hremoved] at hsome
    rw [if_pos hsome, if_neg hnot]
    refine ⟨_, _, _, _, _, (putSegment_runs host term delta engine₁).bind_pure fun key =>
      { state with segments := state.segments ++ [key] }, h.extend hsound.unused hterm delta,
      by simp, fun docKey => ?_, fun point hpoint => ?_⟩
    · rw [replay_append, lookup_apply]
    · rw [List.mem_singleton.mp hpoint]
      exact h.leaves_whole hsound hterm rfl
  · have hnone : delta.added = [] ∧ delta.removed = [] := by simpa using hsome
    rw [if_neg hsome, if_pos hnone]
    refine ⟨[], engine₁, state, deltas, [], rfl, h, rfl, fun docKey => ?_, by simp⟩
    simp [lastWith, hnone.1, hnone.2]

/-- The posting that a document has after the delta. -/
def postingAfter (inverted : Table String InvertedRecord) (term : String)
    (added : List PostingEntry) (removed : List String) (docKey : String) : Option PostingEntry :=
  (lastWith PostingEntry.docKey added docKey).or
    (if docKey ∈ removed then none else storedPosting inverted term docKey)

def countAfter (inverted : Table String InvertedRecord) (term : String)
    (added : List PostingEntry) (removed : List String) : Nat :=
  segmentCount inverted term + if added = [] ∧ removed = [] then 0 else 1

theorem termDelta_strands (hsound : Sound host engine) (hterm : PlainKey term)
    (added : List PostingEntry) (removed : List String) :
    Strands engine term (termDeltaProgram host term added removed engine).points
      (8 ≤ countAfter engine.inverted term added removed ∨
        ∀ docKey, postingAfter engine.inverted term added removed docKey = none) := by
  obtain ⟨points, stored, engine₁, hmigrate, hstart, hcount, hpoints⟩ :=
    getOrMigrate_inHand hsound hterm
  obtain ⟨points', engine₂, state, deltas, new, happend, hhand, hlength, hafter, hpoints'⟩ :=
    hstart.appendDelta hsound hterm ⟨added, removed⟩
  obtain ⟨points'', engine', hsettle, hstrands⟩ := hhand.settle_strands hsound hterm
  have hruns : RunsTo (termDeltaProgram host term added removed) engine
      (points ++ (points' ++ points'')) () engine' := hmigrate.bind (happend.bind hsettle)
  have hdeletes : (8 ≤ state.segments.length ∨
      ∀ docKey, (replay PostingEntry.docKey deltas).lookup docKey = none) ↔
      (8 ≤ countAfter engine.inverted term added removed ∨
        ∀ docKey, postingAfter engine.inverted term added removed docKey = none) := by
    rw [hlength, hcount]
    simp only [hafter]
    rfl
  rw [hruns.points_eq, ← hdeletes]
  exact (hstrands.append hpoints').append hpoints

/-! ## Failure safety -/

/-- Wherever the delta stops, the posting list of the term is the one before or the one after,
no other document's posting is lost, and the other terms are as before. -/
def FailureSafe (host : FtsHost) (engine : FtsEngine) (term : String) (added : List PostingEntry)
    (removed : List String) : Prop :=
  ∃ engine', engine.applyTermDelta host term added removed = .ok engine' ∧
    ∀ point ∈ (termDeltaProgram host term added removed engine).points,
      (∃ list, storedList point.inverted term = .ok list) ∧
      ((∀ docKey, storedPosting point.inverted term docKey =
          storedPosting engine.inverted term docKey) ∨
        ∀ docKey, storedPosting point.inverted term docKey =
          storedPosting engine'.inverted term docKey) ∧
      (∀ docKey, docKey ∉ added.map (·.docKey) → docKey ∉ removed →
        storedPosting point.inverted term docKey = storedPosting engine.inverted term docKey) ∧
      ∀ other, PlainKey other → other ≠ term → ∀ docKey,
        storedPosting point.inverted other docKey = storedPosting engine.inverted other docKey

/-- Whatever number of the oldest segments is dropped, the term has what it has before or
after the delta. -/
def RestsAgree (inverted : Table String InvertedRecord) (term : String)
    (added : List PostingEntry) (removed : List String) : Prop :=
  ∀ log, log <:+ storedDeltas inverted term →
    (∀ docKey, (replay PostingEntry.docKey log).lookup docKey =
      storedPosting inverted term docKey) ∨
    ∀ docKey, (replay PostingEntry.docKey log).lookup docKey =
      postingAfter inverted term added removed docKey

theorem postingAfter_of_notMem {added : List PostingEntry} {removed : List String}
    {docKey : String} (hadded : docKey ∉ added.map (·.docKey)) (hremoved : docKey ∉ removed) :
    postingAfter inverted term added removed docKey = storedPosting inverted term docKey := by
  have hnone : lastWith PostingEntry.docKey added docKey = none :=
    lastWith_none.mpr fun entry hentry heq => hadded (List.mem_map.mpr ⟨entry, hentry, heq⟩)
  rw [postingAfter, hnone, if_neg hremoved, Option.none_or]

/-- A term delta is safe against the failure of any operation just when it deletes nothing that
is listed, or every rest that the deletes may leave is a posting list before or after. -/
theorem failureSafe_iff (host : FtsHost) (engine : FtsEngine) (term : String)
    (added : List PostingEntry) (removed : List String) (hsound : Sound host engine)
    (hterm : PlainKey term) :
    FailureSafe host engine term added removed ↔
      (countAfter engine.inverted term added removed < 8 ∧
        ∃ docKey, (postingAfter engine.inverted term added removed docKey).isSome = true) ∨
      RestsAgree engine.inverted term added removed := by
  obtain ⟨engine', hok, hchanged⟩ := applyTermDelta_changed hsound hterm added removed
  have hafter : ∀ docKey, storedPosting engine'.inverted term docKey =
      postingAfter engine.inverted term added removed docKey := hchanged.posting
  have hstrands := termDelta_strands hsound hterm added removed
  have hkept : ¬(8 ≤ countAfter engine.inverted term added removed ∨
      ∀ docKey, postingAfter engine.inverted term added removed docKey = none) ↔
      countAfter engine.inverted term added removed < 8 ∧
        ∃ docKey, (postingAfter engine.inverted term added removed docKey).isSome = true := by
    simp [Option.isSome_iff_ne_none]
  constructor
  · rintro ⟨engine'', hok', hsafe⟩
    cases hok.symm.trans hok'
    by_cases hdeletes : 8 ≤ countAfter engine.inverted term added removed ∨
        ∀ docKey, postingAfter engine.inverted term added removed docKey = none
    · refine .inr fun log hlog => ?_
      obtain ⟨point, hpoint, hleaves⟩ := hstrands.every hdeletes log hlog
      refine (hsafe point hpoint).2.1.imp (fun hsame docKey => ?_) fun hsame docKey => ?_
      · rw [← hleaves.posting, hsame]
      · rw [← hleaves.posting, hsame, hafter]
    · exact .inl (hkept.mp hdeletes)
  · intro hcase
    refine ⟨engine', hok, fun point hpoint => ?_⟩
    obtain ⟨log, hleaves, hagree⟩ : ∃ log, Leaves engine term log point ∧
        ((∀ docKey, (replay PostingEntry.docKey log).lookup docKey =
            storedPosting engine.inverted term docKey) ∨
          ∀ docKey, (replay PostingEntry.docKey log).lookup docKey =
            postingAfter engine.inverted term added removed docKey) := by
      rcases hcase with hkeeps | hrests
      · exact ⟨_, hstrands.whole (hkept.mpr hkeeps) point hpoint, .inl fun _ => rfl⟩
      · obtain ⟨log, hsuffix, hleaves⟩ := hstrands.rest point hpoint
        exact ⟨log, hleaves, hrests log hsuffix⟩
    refine ⟨hleaves.readable, ?_, fun docKey hadded hremoved => ?_, hleaves.others⟩
    · refine hagree.imp (fun hsame docKey => ?_) fun hsame docKey => ?_
      · rw [hleaves.posting, hsame]
      · rw [hleaves.posting, hsame, hafter]
    · rw [hleaves.posting]
      rcases hagree with hsame | hsame
      · exact hsame docKey
      · rw [hsame, postingAfter_of_notMem hadded hremoved]

/-- The first posting of a term is stored whole or not at all. -/
theorem failureSafe_first : FailureSafe wordHost {} "rust" [⟨"guide", 1, 1⟩] [] := by
  refine (failureSafe_iff wordHost {} "rust" [⟨"guide", 1, 1⟩] [] (new_sound wordHost)
    (by decide)).mpr (.inl ⟨by decide, "guide", by decide⟩)

def sevenSegments : FtsEngine :=
  (["a", "b", "c", "d", "e", "f", "g"].foldlM (fun engine docKey =>
    applyTermDelta wordHost engine "rust" [⟨docKey, 1, 1⟩] []) {}).toOption.getD {}

/-- The eighth delta compacts, and may stop with every posting of the term lost. -/
theorem compaction_strands : ¬FailureSafe wordHost sevenSegments "rust" [⟨"h", 1, 1⟩] [] := by
  rintro ⟨engine', -, hsafe⟩
  have hpoint : ((termDeltaProgram wordHost "rust" [⟨"h", 1, 1⟩] [] sevenSegments).points.any
      fun point => decide (storedPosting point.inverted "rust" "a" = none)) = true := by
    decide +kernel
  obtain ⟨point, hpoint, hlost⟩ := List.any_eq_true.mp hpoint
  have hstored : storedPosting sevenSegments.inverted "rust" "a" = some ⟨"a", 1, 1⟩ := by
    decide +kernel
  have hkept := (hsafe point hpoint).2.2.1 "a" (by decide) (by decide)
  rw [hstored, of_decide_eq_true hlost] at hkept
  cases hkept

end FtsEngine

end BenShu.Engram
