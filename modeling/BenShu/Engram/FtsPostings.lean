import BenShu.Engram.Fts

/-!
# The inverted index as a map of postings

A coherent engine stores every segment that a posting state names, under a key
no other term uses, and caches only what it would materialize. On a coherent
engine a term delta changes the postings of its term and nothing else.
-/

namespace BenShu.Engram

open DeltaLog

/-! ## Segment keys -/

theorem colon_mem_segmentKey (term : String) (nowMs seq : Nat) :
    ':' ∈ (FtsEngine.segmentKey term nowMs seq).toList := by
  have hkey : FtsEngine.segmentKey term nowMs seq =
      "__fts_segment__:" ++ term ++ ":" ++ toString nowMs ++ ":" ++ toString seq := rfl
  rw [hkey]
  simp [String.toList_append]

theorem segmentKey_seq {term term' : String} {nowMs nowMs' seq seq' : Nat}
    (h : FtsEngine.segmentKey term nowMs seq = FtsEngine.segmentKey term' nowMs' seq') :
    seq = seq' := by
  have hchars : ("__fts_segment__:" ++ term ++ ":" ++ toString nowMs).toList ++
        ':' :: (toString seq).toList =
      ("__fts_segment__:" ++ term' ++ ":" ++ toString nowMs').toList ++
        ':' :: (toString seq').toList := by
    have hlist := congrArg String.toList h
    change ("__fts_segment__:" ++ term ++ ":" ++ toString nowMs ++ ":" ++ toString seq).toList =
      ("__fts_segment__:" ++ term' ++ ":" ++ toString nowMs' ++ ":" ++ toString seq').toList
      at hlist
    rw [String.toList_append (t := toString seq), String.toList_append (t := ":"),
      String.toList_append (t := toString seq'), String.toList_append (t := ":")] at hlist
    simpa using hlist
  have hsplit := Text.append_cons_inj_of_notMem hchars (Text.colon_notMem_toString seq)
    (Text.colon_notMem_toString seq')
  exact Text.toString_injective (String.toList_injective hsplit.2)

namespace FtsEngine

/-! ## Coherent engines -/

def deltasOf (engine : FtsEngine) (term : String) : List (Delta String PostingEntry) :=
  match engine.inverted.lookup term with
  | some (.state state) => (segmentDeltas engine.inverted state.segments).toOption.getD []
  | _ => []

def posting (engine : FtsEngine) (term docKey : String) : Option PostingEntry :=
  (replay PostingEntry.docKey (engine.deltasOf term)).lookup docKey

def materialized (engine : FtsEngine) (term : String) : PostingList :=
  resolve term (engine.deltasOf term)

def StoredSegments (engine : FtsEngine) (term : String) (keys : List String) : Prop :=
  ∀ key ∈ keys, ∃ delta, engine.inverted.lookup key = some (.segment ⟨term, delta⟩)

structure Coherent (engine : FtsEngine) : Prop where
  stateTerm : ∀ key state, engine.inverted.lookup key = some (.state state) →
    state.term = key ∧ ':' ∉ key.toList ∧ engine.StoredSegments key state.segments
  segmentKeys : ∀ key segment, engine.inverted.lookup key = some (.segment segment) →
    ∃ nowMs seq, key = segmentKey segment.term nowMs seq ∧ seq < engine.segmentSeq
  noLegacy : ∀ key list, engine.inverted.lookup key ≠ some (.legacy list)
  cache : engine.postingCache.Holds fun term list =>
    (∃ state, engine.inverted.lookup term = some (.state state)) ∧ list = engine.materialized term

theorem new_coherent : ({} : FtsEngine).Coherent where
  stateTerm := by simp
  segmentKeys := by simp
  noLegacy := by simp
  cache := by simp [LruCache.Holds]

theorem segmentDeltas_ok {engine : FtsEngine} {term : String} {keys : List String}
    (h : engine.StoredSegments term keys) : ∃ deltas, segmentDeltas engine.inverted keys = .ok deltas := by
  induction keys with
  | nil => exact ⟨[], rfl⟩
  | cons key keys ih =>
      obtain ⟨delta, hkey⟩ := h key List.mem_cons_self
      obtain ⟨deltas, hdeltas⟩ := ih fun k hk => h k (List.mem_cons_of_mem _ hk)
      exact ⟨delta :: deltas, by simp [segmentDeltas, hkey, hdeltas, Except.map]⟩

theorem segmentDeltas_congr {inverted inverted' : Table String InvertedRecord}
    {keys : List String} (h : ∀ key ∈ keys, inverted'.lookup key = inverted.lookup key) :
    segmentDeltas inverted' keys = segmentDeltas inverted keys := by
  induction keys with
  | nil => rfl
  | cons key keys ih =>
      simp only [segmentDeltas, h key List.mem_cons_self,
        ih fun k hk => h k (List.mem_cons_of_mem _ hk)]

theorem segmentDeltas_snoc {engine : FtsEngine} {term key : String} {keys : List String}
    {deltas : List (Delta String PostingEntry)} {delta : Delta String PostingEntry}
    (h : segmentDeltas engine.inverted keys = .ok deltas)
    (hkey : engine.inverted.lookup key = some (.segment ⟨term, delta⟩)) :
    segmentDeltas engine.inverted (keys ++ [key]) = .ok (deltas ++ [delta]) := by
  induction keys generalizing deltas with
  | nil =>
      cases h
      simp [segmentDeltas, hkey, Except.map]
  | cons first keys ih =>
      simp only [List.cons_append, segmentDeltas] at h ⊢
      cases hfirst : engine.inverted.lookup first with
      | none =>
          rw [hfirst] at h
          exact ih h
      | some record =>
          rw [hfirst] at h
          cases record with
          | state state => cases h
          | legacy list => cases h
          | segment segment =>
              dsimp only at h ⊢
              cases hrest : segmentDeltas engine.inverted keys with
              | error e => simp [hrest, Except.map] at h
              | ok rest =>
                  rw [hrest] at h
                  cases h
                  rw [ih hrest]
                  rfl

theorem deltasOf_state {engine : FtsEngine} {term : String} {state : PostingListState}
    {deltas : List (Delta String PostingEntry)}
    (h : engine.inverted.lookup term = some (.state state))
    (hdeltas : segmentDeltas engine.inverted state.segments = .ok deltas) :
    engine.deltasOf term = deltas := by
  rw [deltasOf, h]
  simp [hdeltas, Except.toOption]

theorem deltasOf_none {engine : FtsEngine} {term : String}
    (h : engine.inverted.lookup term = none) : engine.deltasOf term = [] := by
  rw [deltasOf, h]

/-- A colon-free key holds a posting state or nothing. -/
theorem Coherent.lookup_term {engine : FtsEngine} (h : engine.Coherent) {term : String}
    (hterm : ':' ∉ term.toList) :
    engine.inverted.lookup term = none ∨
      ∃ state, engine.inverted.lookup term = some (.state state) := by
  cases hlookup : engine.inverted.lookup term with
  | none => exact .inl rfl
  | some record =>
      cases record with
      | state state => exact .inr ⟨state, rfl⟩
      | segment segment =>
          obtain ⟨nowMs, seq, rfl, -⟩ := h.segmentKeys term segment hlookup
          exact absurd (colon_mem_segmentKey _ _ _) hterm
      | legacy list => exact absurd hlookup (h.noLegacy term list)

/-! ## Reading a posting list -/

/-- Reading a posting list gives the materialized one and changes the cache only. -/
theorem getPostingListInternal_spec {engine : FtsEngine} (h : engine.Coherent) {term : String}
    (hterm : ':' ∉ term.toList) :
    ∃ engine', engine.getPostingListInternal term = .ok (engine', engine.materialized term) ∧
      engine'.Coherent ∧ engine'.inverted = engine.inverted ∧
      engine'.forward = engine.forward ∧ engine'.stats = engine.stats := by
  have hget := h.cache.get term
  unfold getPostingListInternal
  cases hhit : engine.postingCache.get term with
  | mk hit cache =>
      rw [hhit] at hget
      cases hit with
      | some list =>
          obtain ⟨-, hlist⟩ := hget.2 list rfl
          refine ⟨{ engine with postingCache := cache }, ?_, ?_, rfl, rfl, rfl⟩
          · rw [hlist]
          · exact ⟨h.stateTerm, h.segmentKeys, h.noLegacy, hget.1⟩
      | none =>
          dsimp only
          rcases h.lookup_term hterm with hnone | ⟨state, hstate⟩
          · rw [hnone]
            refine ⟨engine, ?_, h, rfl, rfl, rfl⟩
            rw [materialized, deltasOf_none hnone]
            rfl
          · rw [hstate]
            obtain ⟨hname, -, hstored⟩ := h.stateTerm term state hstate
            obtain ⟨deltas, hdeltas⟩ := segmentDeltas_ok hstored
            have hlist : engine.materialized term = resolve term deltas := by
              rw [materialized, deltasOf_state hstate hdeltas]
            refine ⟨{ engine with postingCache := engine.postingCache.put term (resolve term deltas) },
              ?_, ?_, rfl, rfl, rfl⟩
            · rw [hlist]
              simp [materializePostingState, hdeltas, hname, Except.map, bind, Except.bind]
            · exact ⟨h.stateTerm, h.segmentKeys, h.noLegacy,
                h.cache.put ⟨⟨state, hstate⟩, hlist.symm⟩⟩

theorem mem_materialized {engine : FtsEngine} {term : String} {entry : PostingEntry} :
    entry ∈ (engine.materialized term).entries ↔
      engine.posting term entry.docKey = some entry := by
  rw [materialized, resolve, List.mem_insertionSort, posting]
  exact mem_values fun _ _ => key_of_replay

theorem materialized_nodup (engine : FtsEngine) (term : String) :
    ((engine.materialized term).entries.map (·.docKey)).Nodup := by
  rw [materialized, resolve]
  exact ((List.perm_insertionSort _ _).map _).nodup_iff.mpr
    (keys_values_nodup fun _ _ => key_of_replay)

/-! ## Editing the postings of one term -/

/-- `engine'` differs from `engine` in the posting state of the term and in segments
of the term only. -/
structure Edits (term : String) (engine engine' : FtsEngine) : Prop where
  forward : engine'.forward = engine.forward
  stats : engine'.stats = engine.stats
  postingCache : engine'.postingCache = engine.postingCache
  keep : ∀ key record, engine.inverted.lookup key = some record → key ≠ term →
    (∀ delta, record ≠ .segment ⟨term, delta⟩) → engine'.inverted.lookup key = some record
  states : ∀ key state, engine'.inverted.lookup key = some (.state state) → key ≠ term →
    engine.inverted.lookup key = some (.state state)
  segmentKeys : ∀ key segment, engine'.inverted.lookup key = some (.segment segment) →
    ∃ nowMs seq, key = segmentKey segment.term nowMs seq ∧ seq < engine'.segmentSeq
  noLegacy : ∀ key list, engine'.inverted.lookup key ≠ some (.legacy list)

theorem Edits.refl {engine : FtsEngine} (h : engine.Coherent) (term : String) :
    Edits term engine engine where
  forward := rfl
  stats := rfl
  postingCache := rfl
  keep := fun _ _ hrecord _ _ => hrecord
  states := fun _ _ hstate _ => hstate
  segmentKeys := h.segmentKeys
  noLegacy := h.noLegacy

variable {engine engine₁ : FtsEngine} {term : String}

theorem Edits.fresh (h : engine.Coherent) (hterm : ':' ∉ term.toList)
    (edits : Edits term engine engine₁) (term' : String) (nowMs : Nat) :
    engine₁.inverted.lookup (segmentKey term' nowMs engine₁.segmentSeq) = none := by
  cases hlookup : engine₁.inverted.lookup (segmentKey term' nowMs engine₁.segmentSeq) with
  | none => rfl
  | some record =>
      exfalso
      cases record with
      | state state =>
          by_cases hkey : segmentKey term' nowMs engine₁.segmentSeq = term
          · exact hterm (hkey ▸ colon_mem_segmentKey _ _ _)
          · exact (h.stateTerm _ state (edits.states _ state hlookup hkey)).2.1
              (colon_mem_segmentKey _ _ _)
      | segment segment =>
          obtain ⟨nowMs', seq, hkey, hseq⟩ := edits.segmentKeys _ segment hlookup
          have hsame := segmentKey_seq hkey
          omega
      | legacy list => exact edits.noLegacy _ list hlookup

theorem Edits.writeSegment (host : FtsHost) (h : engine.Coherent) (hterm : ':' ∉ term.toList)
    (edits : Edits term engine engine₁) (delta : Delta String PostingEntry) :
    Edits term engine (engine₁.writeSegment host term delta).1 ∧
      engine₁.inverted.lookup (engine₁.writeSegment host term delta).2 = none ∧
      (engine₁.writeSegment host term delta).1.inverted =
        engine₁.inverted.insert (engine₁.writeSegment host term delta).2
          (.segment ⟨term, delta⟩) := by
  have hfresh := edits.fresh h hterm term (host.nowMs engine₁.segmentSeq)
  have hlookup : ∀ key, (engine₁.writeSegment host term delta).1.inverted.lookup key =
      if key = (engine₁.writeSegment host term delta).2 then some (.segment ⟨term, delta⟩)
      else engine₁.inverted.lookup key := fun key => Table.lookup_insert _ _ _ _
  refine ⟨⟨edits.forward, edits.stats, edits.postingCache, ?_, ?_, ?_, ?_⟩, hfresh, rfl⟩
  · intro key record hrecord hkey hother
    have hold := edits.keep key record hrecord hkey hother
    rw [hlookup, if_neg]
    · exact hold
    · intro hsame
      rw [hsame] at hold
      exact absurd (hfresh.symm.trans hold) (by simp)
  · intro key state hstate hkey
    rw [hlookup] at hstate
    split at hstate
    · cases hstate
    · exact edits.states key state hstate hkey
  · intro key segment hsegment
    rw [hlookup] at hsegment
    split at hsegment
    · rename_i hsame
      cases hsegment
      exact ⟨_, engine₁.segmentSeq, hsame, Nat.lt_succ_self _⟩
    · obtain ⟨nowMs, seq, hname, hseq⟩ := edits.segmentKeys key segment hsegment
      exact ⟨nowMs, seq, hname, Nat.lt_succ_of_lt hseq⟩
  · intro key list hlist
    rw [hlookup] at hlist
    split at hlist
    · cases hlist
    · exact edits.noLegacy key list hlist

theorem foldl_deleteFtsInverted (engine : FtsEngine) (keys : List String) :
    keys.foldl deleteFtsInverted engine =
      { engine with inverted := keys.foldl (fun table key => table.erase key) engine.inverted } := by
  induction keys generalizing engine with
  | nil => rfl
  | cons key keys ih => exact ih _

/-- Records of the term taken out, or replaced by a posting state under the term. -/
theorem Edits.replace (edits : Edits term engine engine₁) {engine₂ : FtsEngine}
    (touched : String → Prop) [DecidablePred touched] (record : Option InvertedRecord)
    (hforward : engine₂.forward = engine₁.forward) (hstats : engine₂.stats = engine₁.stats)
    (hcache : engine₂.postingCache = engine₁.postingCache)
    (hseq : engine₂.segmentSeq = engine₁.segmentSeq)
    (hlookup : ∀ key, engine₂.inverted.lookup key =
      if touched key then record else engine₁.inverted.lookup key)
    (htouched : ∀ key old, touched key → engine₁.inverted.lookup key = some old →
      key = term ∨ ∃ delta, old = .segment ⟨term, delta⟩)
    (hrecord : ∀ new, record = some new →
      (∃ state, new = .state state) ∧ ∀ key, touched key → key = term) :
    Edits term engine engine₂ := by
  refine ⟨hforward.trans edits.forward, hstats.trans edits.stats,
    hcache.trans edits.postingCache, ?_, ?_, ?_, ?_⟩
  · intro key old hold hkey hother
    have hkept := edits.keep key old hold hkey hother
    rw [hlookup, if_neg]
    · exact hkept
    · intro hmem
      rcases htouched key old hmem hkept with heq | ⟨delta, hdelta⟩
      · exact hkey heq
      · exact hother delta hdelta
  · intro key state hstate hkey
    rw [hlookup] at hstate
    split at hstate
    · rename_i hmem
      exact absurd ((hrecord _ hstate).2 key hmem) hkey
    · exact edits.states key state hstate hkey
  · intro key segment hsegment
    rw [hlookup] at hsegment
    rw [hseq]
    split at hsegment
    · obtain ⟨state, hstate⟩ := (hrecord _ hsegment).1
      cases hstate
    · exact edits.segmentKeys key segment hsegment
  · intro key list hlist
    rw [hlookup] at hlist
    split at hlist
    · obtain ⟨state, hstate⟩ := (hrecord _ hlist).1
      cases hstate
    · exact edits.noLegacy key list hlist

theorem Edits.deleteSegments (edits : Edits term engine engine₁) {keys : List String}
    (hkeys : engine₁.StoredSegments term keys) :
    Edits term engine (keys.foldl deleteFtsInverted engine₁) := by
  rw [foldl_deleteFtsInverted]
  refine edits.replace (fun key => key ∈ keys) none rfl rfl rfl rfl ?_ ?_ ?_
  · intro key
    exact Table.lookup_foldl_erase _ _ _
  · intro key old hmem hold
    obtain ⟨delta, hdelta⟩ := hkeys key hmem
    rw [hold] at hdelta
    exact .inr ⟨delta, Option.some.inj hdelta⟩
  · intro new hnew
    cases hnew

theorem Edits.putState (edits : Edits term engine engine₁) {state : PostingListState}
    (hstate : state.term = term) : Edits term engine (engine₁.persistPostingState state) := by
  refine edits.replace (fun key => key = term) (some (.state state)) rfl rfl rfl rfl ?_ ?_ ?_
  · intro key
    rw [← hstate]
    exact Table.lookup_insert _ _ _ _
  · intro key old hkey _
    exact .inl hkey
  · intro new hnew
    cases hnew
    exact ⟨⟨state, rfl⟩, fun key hkey => hkey⟩

theorem Edits.deleteState (edits : Edits term engine engine₁) :
    Edits term engine (engine₁.deleteFtsInverted term) := by
  refine edits.replace (fun key => key = term) none rfl rfl rfl rfl ?_ ?_ ?_
  · intro key
    exact Table.lookup_erase _ _ _
  · intro key old hkey _
    exact .inl hkey
  · intro new hnew
    cases hnew

theorem Edits.storedSegments (h : engine.Coherent) (hterm : ':' ∉ term.toList)
    (edits : Edits term engine engine₁) {other : String} (hother : other ≠ term)
    {keys : List String} (hkeys : engine.StoredSegments other keys) :
    ∀ key ∈ keys, engine₁.inverted.lookup key = engine.inverted.lookup key := by
  intro key hkey
  obtain ⟨delta, hdelta⟩ := hkeys key hkey
  obtain ⟨nowMs, seq, hname, -⟩ := h.segmentKeys key _ hdelta
  rw [hdelta]
  apply edits.keep key _ hdelta
  · intro heq
    rw [← heq, hname] at hterm
    exact hterm (colon_mem_segmentKey _ _ _)
  · intro delta' hrecord
    cases hrecord
    exact hother rfl

theorem Edits.deltasOf_ne (h : engine.Coherent) (hterm : ':' ∉ term.toList)
    (edits : Edits term engine engine₁) {other : String} (hother : other ≠ term) :
    engine₁.deltasOf other = engine.deltasOf other := by
  by_cases hstate : ∃ state, engine.inverted.lookup other = some (.state state)
  · rcases hstate with ⟨state, hstate⟩
    have hstored := (h.stateTerm other state hstate).2.2
    have hkept := edits.keep other _ hstate hother (by simp)
    have hsegments := segmentDeltas_congr (edits.storedSegments h hterm hother hstored)
    rw [deltasOf, deltasOf, hkept, hstate]
    dsimp only
    rw [hsegments]
  · have hstate₁ : ¬∃ state, engine₁.inverted.lookup other = some (.state state) :=
      fun hex => hstate (hex.imp fun state hs => edits.states other state hs hother)
    have hnil : ∀ e : FtsEngine, (¬∃ state, e.inverted.lookup other = some (.state state)) →
        e.deltasOf other = [] := by
      intro e he
      unfold deltasOf
      split
      · rename_i state hs
        exact absurd ⟨state, hs⟩ he
      · rfl
    rw [hnil engine hstate, hnil engine₁ hstate₁]

/-- An edited engine is coherent again once its own term is in order and the cache
agrees with it. -/
theorem Edits.coherent (h : engine.Coherent) (hterm : ':' ∉ term.toList)
    (edits : Edits term engine engine₁)
    (hstate : ∀ state, engine₁.inverted.lookup term = some (.state state) →
      state.term = term ∧ engine₁.StoredSegments term state.segments)
    {cache : LruCache String PostingList}
    (hcache : cache.Holds fun other list =>
      (∃ state, engine₁.inverted.lookup other = some (.state state)) ∧
        list = engine₁.materialized other) :
    ({ engine₁ with postingCache := cache } : FtsEngine).Coherent where
  stateTerm := by
    intro key state hlookup
    by_cases hkey : key = term
    · subst hkey
      obtain ⟨hname, hstored⟩ := hstate state hlookup
      exact ⟨hname, hterm, hstored⟩
    · obtain ⟨hname, hcolon, hstored⟩ := h.stateTerm key state (edits.states key state hlookup hkey)
      refine ⟨hname, hcolon, fun k hk => ?_⟩
      obtain ⟨delta, hdelta⟩ := hstored k hk
      exact ⟨delta, (edits.storedSegments h hterm hkey hstored k hk).trans hdelta⟩
  segmentKeys := edits.segmentKeys
  noLegacy := edits.noLegacy
  cache := hcache

theorem Edits.cache_pop (h : engine.Coherent) (hterm : ':' ∉ term.toList)
    (edits : Edits term engine engine₁) :
    (engine₁.postingCache.pop term).Holds fun other list =>
      (∃ state, engine₁.inverted.lookup other = some (.state state)) ∧
        list = engine₁.materialized other := by
  rw [edits.postingCache]
  refine (h.cache.pop term).mono fun entry hentry hholds => ?_
  have hother := (LruCache.mem_pop.mp hentry).2
  rcases hholds with ⟨⟨state, hstate⟩, hlist⟩
  refine ⟨⟨state, edits.keep _ _ hstate hother (by simp)⟩, ?_⟩
  rw [hlist, materialized, materialized, edits.deltasOf_ne h hterm hother]

/-! ## Applying a term delta -/

/-- An engine in the middle of a term delta: `state` is the posting state being
prepared and `deltas` what its segments hold. -/
structure Working (term : String) (engine engine₁ : FtsEngine) (state : PostingListState)
    (deltas : List (Delta String PostingEntry)) : Prop where
  edits : Edits term engine engine₁
  stateTerm : state.term = term
  stored : engine₁.StoredSegments term state.segments
  deltas_eq : segmentDeltas engine₁.inverted state.segments = .ok deltas

variable {state : PostingListState} {deltas : List (Delta String PostingEntry)}

theorem getOrMigrate_working (host : FtsHost) (h : engine.Coherent) (hterm : ':' ∉ term.toList) :
    ∃ stored, engine.getOrMigratePostingState host term = .ok (engine, stored) ∧
      Working term engine engine (stored.getD { term := term, segments := [] })
        (engine.deltasOf term) := by
  unfold getOrMigratePostingState
  rcases h.lookup_term hterm with hnone | ⟨state, hstate⟩
  · rw [hnone]
    refine ⟨none, rfl, Edits.refl h term, rfl, by simp [StoredSegments], ?_⟩
    rw [deltasOf_none hnone]
    rfl
  · rw [hstate]
    obtain ⟨hname, -, hstored⟩ := h.stateTerm term state hstate
    obtain ⟨deltas, hdeltas⟩ := segmentDeltas_ok hstored
    refine ⟨some state, rfl, Edits.refl h term, hname, hstored, ?_⟩
    rw [deltasOf_state hstate hdeltas]
    exact hdeltas

theorem Working.lookup_write (host : FtsHost) (h : engine.Coherent) (hterm : ':' ∉ term.toList)
    (working : Working term engine engine₁ state deltas) (delta : Delta String PostingEntry) :
    ∀ key ∈ state.segments, (engine₁.writeSegment host term delta).1.inverted.lookup key =
      engine₁.inverted.lookup key ∧ key ≠ (engine₁.writeSegment host term delta).2 := by
  intro key hkey
  obtain ⟨-, hfresh, hinverted⟩ := working.edits.writeSegment host h hterm delta
  obtain ⟨delta', hdelta'⟩ := working.stored key hkey
  have hne : key ≠ (engine₁.writeSegment host term delta).2 := by
    intro heq
    rw [heq, hfresh] at hdelta'
    cases hdelta'
  rw [hinverted, Table.lookup_insert, if_neg hne]
  exact ⟨rfl, hne⟩

theorem Working.extend (host : FtsHost) (h : engine.Coherent) (hterm : ':' ∉ term.toList)
    (working : Working term engine engine₁ state deltas) (delta : Delta String PostingEntry) :
    Working term engine (engine₁.writeSegment host term delta).1
      { state with segments := state.segments ++ [(engine₁.writeSegment host term delta).2] }
      (deltas ++ [delta]) := by
  obtain ⟨hedits, hfresh, hinverted⟩ := working.edits.writeSegment host h hterm delta
  have hkept := working.lookup_write host h hterm delta
  have hnew : (engine₁.writeSegment host term delta).1.inverted.lookup
      (engine₁.writeSegment host term delta).2 = some (.segment ⟨term, delta⟩) := by
    rw [hinverted, Table.lookup_insert, if_pos rfl]
  refine ⟨hedits, working.stateTerm, ?_, ?_⟩
  · intro key hkey
    rcases List.mem_append.mp hkey with hold | hlast
    · rw [(hkept key hold).1]
      exact working.stored key hold
    · rw [List.mem_singleton.mp hlast]
      exact ⟨delta, hnew⟩
  · apply segmentDeltas_snoc _ hnew
    rw [segmentDeltas_congr fun key hkey => (hkept key hkey).1]
    exact working.deltas_eq

theorem Working.compact (host : FtsHost) (h : engine.Coherent) (hterm : ':' ∉ term.toList)
    (working : Working term engine engine₁ state deltas) :
    ∃ engine₂ state₂ deltas₂,
      engine₁.compact host term state (resolve term deltas) =
        .ok (engine₂, state₂, resolve term deltas₂) ∧
      Working term engine engine₂ state₂ deltas₂ ∧
      ∀ docKey, (replay PostingEntry.docKey deltas₂).lookup docKey =
        (replay PostingEntry.docKey deltas).lookup docKey := by
  unfold FtsEngine.compact
  by_cases hlong : state.segments.length ≥ 8
  · rw [if_pos hlong]
    have hkept := working.lookup_write host h hterm ⟨(resolve term deltas).entries, []⟩
    have hextended :=
      working.extend host h hterm ⟨(resolve term deltas).entries, []⟩
    generalize hwrite :
      engine₁.writeSegment host term ⟨(resolve term deltas).entries, []⟩ = written at *
    rcases written with ⟨engine₂, key⟩
    have hold : engine₂.StoredSegments term state.segments :=
      fun k hk => hextended.stored k (List.mem_append_left _ hk)
    have hedits := hextended.edits.deleteSegments hold
    have hnew : (state.segments.foldl deleteFtsInverted engine₂).inverted.lookup key =
        some (.segment ⟨term, ⟨(resolve term deltas).entries, []⟩⟩) := by
      obtain ⟨-, -, hinverted⟩ := working.edits.writeSegment host h hterm
        ⟨(resolve term deltas).entries, []⟩
      rw [hwrite] at hinverted
      rw [foldl_deleteFtsInverted]
      dsimp only
      rw [Table.lookup_foldl_erase, if_neg fun hmem => (hkept key hmem).2 rfl, hinverted,
        Table.lookup_insert, if_pos rfl]
    have hdeltas : segmentDeltas (state.segments.foldl deleteFtsInverted engine₂).inverted [key] =
        .ok [⟨(resolve term deltas).entries, []⟩] := by
      simp [segmentDeltas, hnew, Except.map]
    refine ⟨_, { state with segments := [key] }, [⟨(resolve term deltas).entries, []⟩], ?_,
      ⟨hedits, working.stateTerm, ?_, hdeltas⟩, ?_⟩
    · dsimp only
      rw [materializePostingState, hdeltas, working.stateTerm]
      rfl
    · intro k hk
      rw [List.mem_singleton.mp hk]
      exact ⟨_, hnew⟩
    · intro docKey
      exact lookup_replay_compact (List.perm_insertionSort _ _) docKey
  · rw [if_neg hlong]
    exact ⟨engine₁, state, deltas, rfl, working, fun _ => rfl⟩

theorem resolve_isEmpty {deltas : List (Delta String PostingEntry)}
    (h : (resolve term deltas).entries.isEmpty = true) (docKey : String) :
    (replay PostingEntry.docKey deltas).lookup docKey = none := by
  cases hlookup : (replay PostingEntry.docKey deltas).lookup docKey with
  | none => rfl
  | some entry =>
      have hkey := key_of_replay hlookup
      have hmem : entry ∈ (resolve term deltas).entries := by
        rw [resolve, List.mem_insertionSort]
        refine (mem_values fun _ _ => key_of_replay).mpr ?_
        rw [hkey, hlookup]
      rw [List.isEmpty_iff.mp h] at hmem
      cases hmem

/-- Storing the prepared posting list completes the delta. -/
theorem Working.store (h : engine.Coherent) (hterm : ':' ∉ term.toList)
    (working : Working term engine engine₁ state deltas) :
    (engine₁.storePostingList term state (resolve term deltas)).Coherent ∧
      (engine₁.storePostingList term state (resolve term deltas)).forward = engine.forward ∧
      (engine₁.storePostingList term state (resolve term deltas)).stats = engine.stats ∧
      ∀ other docKey,
        (engine₁.storePostingList term state (resolve term deltas)).posting other docKey =
          if other = term then (replay PostingEntry.docKey deltas).lookup docKey
          else engine.posting other docKey := by
  unfold storePostingList
  by_cases hempty : (resolve term deltas).entries.isEmpty = true
  · rw [if_pos hempty]
    have hedits := (working.edits.deleteSegments working.stored).deleteState
    have hnone : ((state.segments.foldl deleteFtsInverted engine₁).deleteFtsInverted
        term).inverted.lookup term = none := by
      rw [deleteFtsInverted, Table.lookup_erase, if_pos rfl]
    have hcache := hedits.cache_pop h hterm
    have hcoherent := hedits.coherent h hterm
      (fun stored hstored => by rw [hnone] at hstored; cases hstored) hcache
    rw [foldl_deleteFtsInverted] at hedits hnone hcoherent ⊢
    refine ⟨hcoherent, hedits.forward, hedits.stats, fun other docKey => ?_⟩
    by_cases hother : other = term
    · rw [if_pos hother, hother, resolve_isEmpty hempty docKey, posting]
      exact congrArg (fun d => (replay PostingEntry.docKey d).lookup docKey) (deltasOf_none hnone)
    · rw [if_neg hother]
      exact congrArg (fun d => (replay PostingEntry.docKey d).lookup docKey)
        (hedits.deltasOf_ne h hterm hother)
  · rw [if_neg hempty]
    have hedits := working.edits.putState working.stateTerm
    have hkept : ∀ key ∈ state.segments, (engine₁.persistPostingState state).inverted.lookup key =
        engine₁.inverted.lookup key := by
      intro key hkey
      obtain ⟨delta, hdelta⟩ := working.stored key hkey
      obtain ⟨nowMs, seq, hname, -⟩ := working.edits.segmentKeys key _ hdelta
      have hne : key ≠ state.term := by
        intro heq
        rw [working.stateTerm] at heq
        rw [← heq, hname] at hterm
        exact hterm (colon_mem_segmentKey _ _ _)
      rw [persistPostingState, putFtsInverted, Table.lookup_insert, if_neg hne]
    have hstate : (engine₁.persistPostingState state).inverted.lookup term =
        some (.state state) := by
      rw [persistPostingState, putFtsInverted, Table.lookup_insert, if_pos working.stateTerm.symm]
    have hstored : (engine₁.persistPostingState state).StoredSegments term state.segments := by
      intro key hkey
      rw [hkept key hkey]
      exact working.stored key hkey
    have hdeltas : (engine₁.persistPostingState state).deltasOf term = deltas := by
      apply deltasOf_state hstate
      rw [segmentDeltas_congr hkept]
      exact working.deltas_eq
    have hvalue : (∃ stored, (engine₁.persistPostingState state).inverted.lookup term =
        some (.state stored)) ∧
        resolve term deltas = (engine₁.persistPostingState state).materialized term :=
      ⟨⟨state, hstate⟩, by rw [materialized, hdeltas]⟩
    have hcache := (hedits.cache_pop h hterm).put hvalue
    have hcoherent := hedits.coherent h hterm (fun stored hlookup => by
      rw [hstate] at hlookup
      cases hlookup
      exact ⟨working.stateTerm, hstored⟩) hcache
    refine ⟨hcoherent, hedits.forward, hedits.stats, fun other docKey => ?_⟩
    by_cases hother : other = term
    · rw [if_pos hother, hother]
      exact congrArg (fun d => (replay PostingEntry.docKey d).lookup docKey) hdeltas
    · rw [if_neg hother]
      exact congrArg (fun d => (replay PostingEntry.docKey d).lookup docKey)
        (hedits.deltasOf_ne h hterm hother)

theorem applyTermDelta_spec (host : FtsHost) (h : engine.Coherent) (hterm : ':' ∉ term.toList)
    (added : List PostingEntry) (removed : List String) :
    ∃ engine', engine.applyTermDelta host term added removed = .ok engine' ∧ engine'.Coherent ∧
      engine'.forward = engine.forward ∧ engine'.stats = engine.stats ∧
      ∀ other docKey, engine'.posting other docKey =
        if other = term then
          (lastWith PostingEntry.docKey added docKey).or
            (if docKey ∈ removed then none else engine.posting term docKey)
        else engine.posting other docKey := by
  obtain ⟨stored, hget, hworking⟩ := getOrMigrate_working host h hterm
  have hwritten : ∃ engine₁ state₁ deltas₁,
      (if !added.isEmpty || !removed.isEmpty then
        ((engine.writeSegment host term ⟨added, removed⟩).1,
          { stored.getD { term := term, segments := [] } with
            segments := (stored.getD { term := term, segments := [] }).segments ++
              [(engine.writeSegment host term ⟨added, removed⟩).2] })
      else (engine, stored.getD { term := term, segments := [] })) = (engine₁, state₁) ∧
      Working term engine engine₁ state₁ deltas₁ ∧
      ∀ docKey, (replay PostingEntry.docKey deltas₁).lookup docKey =
        (lastWith PostingEntry.docKey added docKey).or
          (if docKey ∈ removed then none else engine.posting term docKey) := by
    by_cases hsome : (!added.isEmpty || !removed.isEmpty) = true
    · refine ⟨_, _, _, if_pos hsome, hworking.extend host h hterm ⟨added, removed⟩, fun docKey => ?_⟩
      rw [replay_append, lookup_apply]
      rfl
    · refine ⟨_, _, _, if_neg hsome, hworking, fun docKey => ?_⟩
      have hnone : added = [] ∧ removed = [] := by simpa using hsome
      rw [hnone.1, hnone.2]
      simp [lastWith, posting]
  rcases hwritten with ⟨engine₁, state₁, deltas₁, hwrite, hworking₁, hlookup₁⟩
  obtain ⟨engine₂, state₂, deltas₂, hcompact, hworking₂, hlookup₂⟩ :=
    hworking₁.compact host h hterm
  obtain ⟨hcoherent, hforward, hstats, hposting⟩ := hworking₂.store h hterm
  refine ⟨engine₂.storePostingList term state₂ (resolve term deltas₂), ?_, hcoherent, hforward,
    hstats, fun other docKey => ?_⟩
  · have hresolved : engine₁.materializePostingState state₁ = .ok (resolve term deltas₁) := by
      rw [materializePostingState, hworking₁.deltas_eq, hworking₁.stateTerm]
      rfl
    simp only [applyTermDelta, hget, bind, Except.bind, hwrite, hresolved, hcompact]
  · rw [hposting]
    by_cases hother : other = term
    · rw [if_pos hother, if_pos hother, hlookup₂, hlookup₁]
    · rw [if_neg hother, if_neg hother]

/-! ## Views of the postings -/

/-- An invariant of engines under which a term delta acts on the postings of its term as a
delta, with what is left of posting lists in the layout before segments. -/
structure PostingView (host : FtsHost) where
  Inv : FtsEngine → Prop
  posting : FtsEngine → String → String → Option PostingEntry
  old : FtsEngine → String → Option PostingList
  inv_frame : ∀ engine forward stats, Inv engine → Inv { engine with forward, stats }
  posting_frame : ∀ engine forward stats, posting { engine with forward, stats } = posting engine
  old_frame : ∀ engine forward stats, old { engine with forward, stats } = old engine
  applies : ∀ engine term added removed, Inv engine → ':' ∉ term.toList →
    ∃ engine', applyTermDelta host engine term added removed = .ok engine' ∧ Inv engine' ∧
      engine'.forward = engine.forward ∧ engine'.stats = engine.stats ∧
      (∀ other docKey, posting engine' other docKey =
        if other = term then
          (lastWith PostingEntry.docKey added docKey).or
            (if docKey ∈ removed then none else posting engine term docKey)
        else posting engine other docKey) ∧
      ∀ other, old engine' other = if other = term then none else old engine other

/-- A coherent engine has no list in the old layout. -/
def coherentView (host : FtsHost) : PostingView host where
  Inv := Coherent
  posting := posting
  old := fun _ _ => none
  inv_frame := fun _ _ _ h => ⟨h.stateTerm, h.segmentKeys, h.noLegacy, h.cache⟩
  posting_frame := fun _ _ _ => rfl
  old_frame := fun _ _ _ => rfl
  applies := fun _ _ added removed h hterm => by
    obtain ⟨engine', hok, hcoherent, hforward, hstats, hposting⟩ :=
      applyTermDelta_spec host h hterm added removed
    exact ⟨engine', hok, hcoherent, hforward, hstats, hposting, fun _ => (ite_self none).symm⟩

end FtsEngine

end BenShu.Engram
