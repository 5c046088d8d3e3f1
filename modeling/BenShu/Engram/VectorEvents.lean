import BenShu.Engram.VectorRestart
import BenShu.Engram.VectorSearch

/-!
# Runs with searches and restarts

Calls, searches and restarts in any order. A restart may take a dumped graph that is out of
date, so the id map need not have a slot for every vector any more; but no name has two active
ones.
-/

namespace BenShu.Engram

namespace VectorStore

variable {quant : Quantization} {store store' : VectorStore quant} {key : String}

/-! ## Slots -/

/-- The tombstones are the slots renamed as deleted, and a name has one active slot at most. -/
abbrev Slotted (slots : List String) (tombstones : Finset Nat) : Prop :=
  SlotMap.Tracks (fun slot => isDeletedKey slot = true) slots tombstones fun name =>
    name ∈ slots ∧ ¬isDeletedKey name = true

def OneSlot (slots : List String) : Prop :=
  ∀ (i j : Nat) name, slots[i]? = some name → slots[j]? = some name →
    ¬isDeletedKey name = true → i = j

variable {slots : List String} {tombstones : Finset Nat}

theorem slotted_of_oneSlot (h : OneSlot slots) (htombstones : ∀ i : Nat, i ∈ tombstones ↔
      ∃ name, slots[i]? = some name ∧ isDeletedKey name = true) : Slotted slots tombstones :=
  ⟨htombstones, fun _ => Iff.rfl, h⟩

theorem Slotted.of_tracks {live : String → Prop}
    (h : SlotMap.Tracks (fun slot => isDeletedKey slot = true) slots tombstones live) :
    Slotted slots tombstones := slotted_of_oneSlot h.unique h.tombstone_iff

theorem Slotted.retire (h : Slotted slots tombstones) (key : String) :
    Slotted (SlotMap.retire deletedKeyMarker key slots)
      (tombstones ∪ SlotMap.positions key slots) :=
  .of_tracks (SlotMap.Tracks.retire h fun id => isDeletedKey_marker id key)

theorem Slotted.renew (h : Slotted slots tombstones) (collection path : String) :
    Slotted (SlotMap.retire deletedKeyMarker (vectorKey collection path) slots ++
        [vectorKey collection path])
      (tombstones ∪ SlotMap.positions (vectorKey collection path) slots) := by
  have hretired := SlotMap.Tracks.retire h
    fun id => isDeletedKey_marker id (vectorKey collection path)
  exact .of_tracks (hretired.push (not_isDeletedKey collection path) fun hlive => hlive.2 rfl)

/-! ## Stores that can be searched -/

/-- The vectors are keyed and can be recovered, and the slots in use and those that were saved
have one name each. -/
structure Searchable (store : VectorStore quant) : Prop extends Keyed store where
  slotted : store.annContractEnabled → Slotted store.idMap store.tombstones
  saved : ∀ idMap, store.kv.idMap = some idMap → OneSlot idMap

theorem new_searchable (dimension : Nat) (metric : VectorMetric) :
    (VectorStore.new ({} : VectorKv quant) dimension metric).Searchable where
  toKeyed := (new_booked dimension metric).toKeyed
  slotted := fun _ => ⟨by simp [VectorStore.new], fun _ => Iff.rfl, by simp [VectorStore.new]⟩
  saved := by simp [VectorStore.new]

theorem Searchable.withCache (h : store.Searchable) (cache : LruCache String quant.Vec) :
    ({ store with decodedCache := cache } : VectorStore quant).Searchable :=
  ⟨⟨h.entries, h.keyed, h.recoverable, h.stored, h.config⟩, h.slotted, h.saved⟩

theorem SameVectors.searchable (h : SameVectors store store')
    (hsaved : ∀ idMap, store'.kv.idMap = some idMap → OneSlot idMap)
    (hsearchable : store.Searchable) : store'.Searchable where
  toKeyed := h.keyed hsearchable.toKeyed
  slotted := by
    rw [h.ann, h.idMap, h.tombstones]
    exact hsearchable.slotted
  saved := hsaved

theorem Step.searchable {collection path : String} {docid : Option String}
    (h : Step store store' collection path docid) (hsearchable : store.Searchable) :
    store'.Searchable := by
  have hsaved : ∀ idMap, store'.kv.idMap = some idMap → OneSlot idMap := by
    rw [h.keeps.idMap]
    exact hsearchable.saved
  refine ⟨h.keyed hsearchable.toKeyed, fun hann => ?_, hsaved⟩
  have hbefore : store.annContractEnabled := by
    unfold annContractEnabled at hann ⊢
    rwa [h.metric] at hann
  cases h with
  | same h keeps =>
      rw [h.idMap, h.tombstones]
      exact hsearchable.slotted hbefore
  | put entry embedding h keeps origin =>
      rw [h.idMap, h.tombstones, if_pos hbefore, if_pos hbefore]
      exact (hsearchable.slotted hbefore).renew collection path
  | erased h keeps =>
      rw [h.idMap, h.tombstones, if_pos hbefore, if_pos hbefore]
      exact (hsearchable.slotted hbefore).retire _

/-! ## Restarts -/

variable {format : SnapshotFormat quant} {files : Table QuantLevel format.File}

theorem restoreTombstones_slotted (h : OneSlot store.idMap) :
    Slotted store.restoreTombstonesFromIdMap.idMap store.restoreTombstonesFromIdMap.tombstones := by
  refine slotted_of_oneSlot h fun i => ?_
  unfold restoreTombstonesFromIdMap
  dsimp only
  rw [Finset.mem_filter, Finset.mem_range]
  cases hslot : store.idMap[i]? with
  | none => simp
  | some name =>
      have hlt := (List.getElem?_eq_some_iff.mp hslot).1
      simp [hlt]

/-- A vector that is built anew gets the next slot, if it has none. -/
theorem rebuildStep_slots {entry : VectorEntry quant}
    (h : store.rebuildStep (key, entry) = .ok store') :
    store'.tombstones = store.tombstones ∧ (store'.idMap = store.idMap ∨
      key ∉ store.idMap ∧ store'.idMap = store.idMap ++ [key]) := by
  unfold rebuildStep at h
  dsimp only at h
  by_cases hcontains : store.idMap.contains key = true
  · rw [if_pos hcontains] at h
    cases h
    exact ⟨rfl, .inl rfl⟩
  · rw [if_neg hcontains] at h
    have hkey : key ∉ store.idMap := fun hmem => hcontains (List.contains_iff_mem.mpr hmem)
    cases hlevel : store.hnswIndexes.lookup entry.quantLevel with
    | none =>
        rw [hlevel] at h
        cases h
        exact ⟨rfl, .inr ⟨hkey, rfl⟩⟩
    | some hnsw =>
        rw [hlevel] at h
        rcases FallibleRun.bind_eq_ok.mp h with ⟨recovered, -, hstored⟩
        cases recovered with
        | none =>
            cases hstored
            exact ⟨rfl, .inr ⟨hkey, rfl⟩⟩
        | some embedding =>
            cases hstored
            exact ⟨rfl, .inr ⟨hkey, rfl⟩⟩

theorem rebuild_slotted {cached : List (String × VectorEntry quant)} {rebuilt : VectorStore quant}
    (hkeys : ∀ pair ∈ cached, ¬isDeletedKey pair.1 = true)
    (h : store.rebuild cached = .ok rebuilt) : Slotted rebuilt.idMap rebuilt.tombstones := by
  apply FallibleRun.foldlM_preserves
    (P := fun built : VectorStore quant => Slotted built.idMap built.tombstones) ?_ ?_ h
  · intro pair hpair before after hbefore hstep
    obtain ⟨htombstones, hsame | ⟨hfresh, hpushed⟩⟩ := rebuildStep_slots hstep
    · rw [htombstones, hsame]
      exact hbefore
    · rw [htombstones, hpushed]
      exact .of_tracks (SlotMap.Tracks.push hbefore (hkeys pair hpair) fun hlive =>
        hfresh hlive.1)
  · exact ⟨by simp, fun _ => Iff.rfl, by simp⟩

/-- The id map of a store that was opened is the one in use or the one that was saved. -/
theorem loadSnapshots_slots (format : SnapshotFormat quant)
    (files : Table QuantLevel format.File) (store : VectorStore quant)
    (h : OneSlot (store.kv.idMap.getD store.idMap))
    (hloaded : (store.loadSnapshots format files).2 = true) :
    Slotted (store.loadSnapshots format files).1.idMap
      (store.loadSnapshots format files).1.tombstones := by
  unfold loadSnapshots at hloaded ⊢
  generalize quantLevels.foldl (loadLevel format files) (store.hnswIndexes, false) = loaded
    at hloaded ⊢
  rcases loaded with ⟨indexes, loadedAny⟩
  dsimp only at hloaded ⊢
  by_cases hany : loadedAny = true
  · rw [if_pos hany]
    exact restoreTombstones_slotted h
  · rw [if_neg hany] at hloaded
    cases hloaded

theorem openStore_idMap {kv : VectorKv quant} {dimension : Nat} {metric : VectorMetric}
    (h : openStore kv dimension metric = .ok store) : store.idMap = [] := by
  unfold openStore at h
  cases hconfig : kv.config with
  | none =>
      rw [hconfig] at h
      cases h
      rfl
  | some persisted =>
      rw [hconfig] at h
      dsimp only at h
      by_cases hmismatch : persisted.dimension ≠ dimension ∨ persisted.metric ≠ metric
      · rw [if_pos hmismatch] at h
        cases h
      · rw [if_neg hmismatch] at h
        cases h
        rfl

theorem load_searchable {order : HashOrder} {dimension : Nat} {metric : VectorMetric}
    {loaded : VectorStore quant} (h : store.Searchable)
    (hload : load format order store.kv files dimension metric = .ok loaded) :
    loaded.Searchable := by
  have hkeyed := load_keyed h.toKeyed hload
  cases hopen : openStore store.kv dimension metric with
  | error failure =>
      unfold load at hload
      rw [hopen] at hload
      cases hload
  | ok opened =>
      have hopened := openStore_opened hopen
      have hsame := loadSnapshots_same files opened
      have hsaved : ∀ idMap, opened.kv.idMap = some idMap → OneSlot idMap := by
        rw [hopened.kvIdMap]
        exact h.saved
      rw [load_eq hopen] at hload
      by_cases hann : opened.annContractEnabled
      · rw [if_pos hann] at hload
        unfold restoreIndexes at hload
        dsimp only at hload
        split at hload
        · rename_i haccept
          cases hload
          rw [Bool.and_eq_true] at haccept
          have hone : OneSlot (opened.kv.idMap.getD opened.idMap) := by
            cases hidMap : opened.kv.idMap with
            | none =>
                rw [Option.getD_none, openStore_idMap hopen]
                intro i j name hi
                cases hi
            | some idMap => exact hsaved idMap hidMap
          refine ⟨hkeyed, fun _ => loadSnapshots_slots format files opened hone haccept.1, ?_⟩
          have hkv : (opened.loadSnapshots format files).1.kv = opened.kv := hsame.kv
          intro idMap hidMap
          exact hsaved idMap (hkv ▸ hidMap)
        · obtain ⟨hrebuilt, -⟩ := rebuild_same hload
          have hread := hsame.keyed (hopened.keyed h.toKeyed)
          refine ⟨hkeyed, fun _ => rebuild_slotted (fun pair hpair => ?_) hload, ?_⟩
          · rw [mem_iterVectors] at hpair
            rw [hread.keyed pair.1 pair.2 hpair]
            exact not_isDeletedKey _ _
          · rw [hrebuilt.kv, hsame.kv]
            exact hsaved
      · rw [if_neg hann] at hload
        cases hload
        exact ⟨hkeyed, fun hnot => absurd hnot hann, hsaved⟩

end VectorStore

/-! ## Events -/

inductive VectorEvent (quant : Quantization) where
  | call (op : VectorOp quant)
  | search (scoring : Scoring quant) (query : quant.Vec) (order : HashOrder)
      (graphSearch : GraphSearch scoring) (collection : String) (limit : Nat)
  | restart (order : HashOrder)

namespace VectorSession

open VectorStore

variable {quant : Quantization} {format : SnapshotFormat quant}

/-- A restart opens the stored vectors and the saved graphs; where it fails the store stays
closed as it is. -/
def occur (session : VectorSession format) : VectorEvent quant → VectorSession format
  | .call op => session.perform op
  | .search scoring query order graphSearch collection limit =>
      match session.store.search scoring query order graphSearch collection limit with
      | .ok (store, _) => { session with store := store }
      | .error _ => session
  | .restart order =>
      match VectorStore.load format order session.store.kv session.files session.store.dimension
        session.store.metric with
      | .ok store => { session with store := store }
      | .error _ => session

def runEvents (session : VectorSession format) (events : List (VectorEvent quant)) :
    VectorSession format :=
  events.foldl occur session

theorem runEvents_snoc (session : VectorSession format) (events : List (VectorEvent quant))
    (event : VectorEvent quant) :
    session.runEvents (events ++ [event]) = (session.runEvents events).occur event := by
  rw [runEvents, List.foldl_append]
  rfl

theorem save_searchable (session : VectorSession format) (h : session.store.Searchable) :
    (session.perform .save).store.Searchable := by
  have hsame := save_same format session.store session.files
  refine hsame.searchable ?_ h
  by_cases hann : session.store.annContractEnabled
  · obtain ⟨saved, hsave, hsaved, hidMap, -⟩ := save_spec format session.files hann
    rw [hsave]
    intro idMap hlookup
    rw [hidMap, hsaved.idMap] at hlookup
    cases hlookup
    exact (h.slotted hann).unique
  · have hkept : (session.store.save format session.files).1.kv.idMap =
        session.store.kv.idMap := by
      unfold save
      exact congrArg (fun saved : VectorStore quant × _ => saved.1.kv.idMap) (if_neg hann)
    rw [hkept]
    exact h.saved

theorem perform_searchable (session : VectorSession format) (op : VectorOp quant)
    (h : session.store.Searchable) : (session.perform op).store.Searchable := by
  cases op with
  | add collection path docid chunkSeq embedding =>
      exact Step.searchable (addAtLevel_step session.store collection path docid chunkSeq embedding _) h
  | addAtLevel collection path docid chunkSeq embedding level =>
      exact Step.searchable (addAtLevel_step session.store collection path docid chunkSeq embedding _) h
  | changeLevel collection path targetLevel =>
      exact (changeLevel_step session.store collection path targetLevel).searchable h
  | remove collection path => exact (remove_step session.store collection path).searchable h
  | save => exact save_searchable session h

theorem occur_searchable (session : VectorSession format) (event : VectorEvent quant)
    (h : session.store.Searchable) : (session.occur event).store.Searchable := by
  cases event with
  | call op => exact perform_searchable session op h
  | search scoring query order graphSearch collection limit =>
      unfold occur
      dsimp only
      cases hsearch : session.store.search scoring query order graphSearch collection limit with
      | error failure => exact h
      | ok searched =>
          obtain ⟨cache, hcache⟩ := searchCandidates_store hsearch
          dsimp only
          rw [hcache]
          exact h.withCache cache
  | restart order =>
      unfold occur
      dsimp only
      cases hload : VectorStore.load format order session.store.kv session.files
          session.store.dimension session.store.metric with
      | error failure => exact h
      | ok loaded => exact load_searchable h hload

theorem runEvents_searchable (format : SnapshotFormat quant) (dimension : Nat)
    (metric : VectorMetric) (events : List (VectorEvent quant)) :
    ((VectorSession.new format dimension metric).runEvents events).store.Searchable := by
  induction events using List.reverseRecOn with
  | nil => exact new_searchable dimension metric
  | append_singleton events event ih =>
      rw [runEvents_snoc]
      exact occur_searchable _ event ih

end VectorSession

end BenShu.Engram
