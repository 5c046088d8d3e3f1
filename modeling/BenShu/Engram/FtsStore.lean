import BenShu.Engram.FtsBatch

/-!
# Stores with posting lists of both layouts

A store may hold posting lists from before segments, and states that list segments which are
gone. A term delta brings its term to the new layout, reads the segments that are there, and
touches no other term, as long as the keys that it draws are not in use.
-/

namespace BenShu.Engram

open DeltaLog

def PlainKey (key : String) : Prop := ':' ∉ key.toList

instance : DecidablePred PlainKey := fun key => inferInstanceAs (Decidable (':' ∉ key.toList))

namespace FtsEngine

/-! ## What is stored under a term -/

/-- A posting list from before segments is one delta. -/
def storedDeltas (inverted : Table String InvertedRecord) (term : String) :
    List (Delta String PostingEntry) :=
  match inverted.lookup term with
  | some (.state state) => (segmentDeltas inverted state.segments).toOption.getD []
  | some (.legacy list) => [⟨list.entries, []⟩]
  | _ => []

def storedPosting (inverted : Table String InvertedRecord) (term docKey : String) :
    Option PostingEntry :=
  (replay PostingEntry.docKey (storedDeltas inverted term)).lookup docKey

/-- The posting list of a term that is not cached. -/
def storedList (inverted : Table String InvertedRecord) (term : String) :
    Except String PostingList :=
  match inverted.lookup term with
  | none => .ok { term := term, entries := [] }
  | some (.state state) => (segmentDeltas inverted state.segments).map (resolve state.term)
  | some (.legacy list) => .ok list
  | some (.segment _) => .error s!"Failed to deserialize posting list for term {term}"

/-- The posting list of a term, if it is still in the layout before segments. -/
def oldList (inverted : Table String InvertedRecord) (term : String) : Option PostingList :=
  match inverted.lookup term with
  | some (.legacy list) => some list
  | _ => none

def listedKeys (inverted : Table String InvertedRecord) (term : String) : List String :=
  match inverted.lookup term with
  | some (.state state) => state.segments
  | _ => []

def OnlySegments (inverted : Table String InvertedRecord) (keys : List String) : Prop :=
  ∀ key ∈ keys, ∀ record, inverted.lookup key = some record → ∃ segment, record = .segment segment

structure SoundStore (inverted : Table String InvertedRecord) : Prop where
  record : ∀ term, PlainKey term → ∀ record, inverted.lookup term = some record →
    (∃ list, record = .legacy list) ∨ ∃ state, record = .state state ∧ state.term = term
  nodup : ∀ term, PlainKey term → (listedKeys inverted term).Nodup
  colon : ∀ term, PlainKey term → ∀ key ∈ listedKeys inverted term, ':' ∈ key.toList
  segments : ∀ term, PlainKey term → OnlySegments inverted (listedKeys inverted term)
  disjoint : ∀ term term', PlainKey term → PlainKey term' → term ≠ term' →
    ∀ key ∈ listedKeys inverted term, key ∉ listedKeys inverted term'

/-- The key of the segment that is written when the counter is at `seq`. -/
def keyAt (host : FtsHost) (term : String) (seq : Nat) : String :=
  segmentKey term (host.nowMs seq) seq

/-- The keys that the engine will draw are neither stored nor listed. -/
def UnusedKeys (host : FtsHost) (engine : FtsEngine) : Prop :=
  ∀ term seq, PlainKey term → engine.segmentSeq ≤ seq →
    engine.inverted.lookup (keyAt host term seq) = none ∧
      ∀ owner, PlainKey owner → keyAt host term seq ∉ listedKeys engine.inverted owner

structure Sound (host : FtsHost) (engine : FtsEngine) : Prop where
  store : SoundStore engine.inverted
  unused : UnusedKeys host engine
  cache : engine.postingCache.Holds fun term list =>
    PlainKey term ∧ storedList engine.inverted term = .ok list

variable {host : FtsHost} {engine engine₁ : FtsEngine} {term : String}

theorem listedKeys_of_state {inverted : Table String InvertedRecord} {state : PostingListState}
    (h : inverted.lookup term = some (.state state)) :
    listedKeys inverted term = state.segments := by
  rw [listedKeys, h]

theorem keyAt_colon (host : FtsHost) (term : String) (seq : Nat) :
    ':' ∈ (keyAt host term seq).toList := colon_mem_segmentKey _ _ _

theorem segmentDeltas_of_onlySegments {inverted : Table String InvertedRecord}
    {keys : List String} (h : OnlySegments inverted keys) :
    ∃ deltas, segmentDeltas inverted keys = .ok deltas := by
  induction keys with
  | nil => exact ⟨[], rfl⟩
  | cons key keys ih =>
      obtain ⟨deltas, hdeltas⟩ := ih fun k hk => h k (List.mem_cons_of_mem _ hk)
      cases hkey : inverted.lookup key with
      | none => exact ⟨deltas, by simp [segmentDeltas, hkey, hdeltas]⟩
      | some record =>
          obtain ⟨segment, rfl⟩ := h key List.mem_cons_self record hkey
          exact ⟨segment.delta :: deltas, by simp [segmentDeltas, hkey, hdeltas, Except.map]⟩

theorem storedDeltas_of_state {inverted : Table String InvertedRecord}
    {state : PostingListState} {deltas : List (Delta String PostingEntry)}
    (h : inverted.lookup term = some (.state state))
    (hdeltas : segmentDeltas inverted state.segments = .ok deltas) :
    storedDeltas inverted term = deltas := by
  rw [storedDeltas, h]
  simp [hdeltas, Except.toOption]

theorem SoundStore.storedList_eq {inverted : Table String InvertedRecord}
    (h : SoundStore inverted) (hterm : PlainKey term) :
    storedList inverted term =
      .ok ((oldList inverted term).getD (resolve term (storedDeltas inverted term))) := by
  unfold storedList oldList storedDeltas
  cases hlookup : inverted.lookup term with
  | none => rfl
  | some record =>
      rcases h.record term hterm record hlookup with ⟨list, rfl⟩ | ⟨state, rfl, hname⟩
      · rfl
      · have hsegments := h.segments term hterm
        rw [listedKeys_of_state hlookup] at hsegments
        obtain ⟨deltas, hdeltas⟩ := segmentDeltas_of_onlySegments hsegments
        dsimp only
        rw [hdeltas, hname]
        rfl

/-! ## Reworking one term -/

/-- The keys of segments that belong to the term before or in the course of its rework. -/
def OwnKey (host : FtsHost) (term : String) (engine engine₁ : FtsEngine) (key : String) : Prop :=
  key ∈ listedKeys engine.inverted term ∨
    ∃ seq, engine.segmentSeq ≤ seq ∧ seq < engine₁.segmentSeq ∧ key = keyAt host term seq

/-- `engine₁` differs from `engine` under the term and its own keys only. -/
structure Reworks (host : FtsHost) (term : String) (engine engine₁ : FtsEngine) : Prop where
  forward : engine₁.forward = engine.forward
  stats : engine₁.stats = engine.stats
  postingCache : engine₁.postingCache = engine.postingCache
  seq_le : engine.segmentSeq ≤ engine₁.segmentSeq
  elsewhere : ∀ key, key ≠ term → ¬OwnKey host term engine engine₁ key →
    engine₁.inverted.lookup key = engine.inverted.lookup key

theorem Reworks.refl (host : FtsHost) (term : String) (engine : FtsEngine) :
    Reworks host term engine engine :=
  ⟨rfl, rfl, rfl, Nat.le_refl _, fun _ _ _ => rfl⟩

theorem OwnKey.mono {engine₂ : FtsEngine} {key : String}
    (hseq : engine₁.segmentSeq ≤ engine₂.segmentSeq) (h : OwnKey host term engine engine₁ key) :
    OwnKey host term engine engine₂ key := by
  rcases h with h | ⟨seq, hle, hlt, rfl⟩
  · exact .inl h
  · exact .inr ⟨seq, hle, Nat.lt_of_lt_of_le hlt hseq, rfl⟩

theorem OwnKey.colon {key : String} (h : SoundStore engine.inverted) (hterm : PlainKey term)
    (hown : OwnKey host term engine engine₁ key) : ':' ∈ key.toList := by
  rcases hown with hlisted | ⟨seq, -, -, rfl⟩
  · exact h.colon term hterm key hlisted
  · exact keyAt_colon host term seq

theorem OwnKey.ne_plain {key other : String} (h : SoundStore engine.inverted)
    (hterm : PlainKey term) (hown : OwnKey host term engine engine₁ key)
    (hother : PlainKey other) : key ≠ other := by
  rintro rfl
  exact hother (hown.colon h hterm)

theorem not_ownKey_keyAt (h : UnusedKeys host engine) (hterm : PlainKey term) {other : String}
    (hother : PlainKey other) {seq : Nat} (hle : engine.segmentSeq ≤ engine₁.segmentSeq)
    (hseq : engine₁.segmentSeq ≤ seq) : ¬OwnKey host term engine engine₁ (keyAt host other seq) := by
  rintro (hlisted | ⟨seq', -, hlt, heq⟩)
  · exact (h other seq hother (hle.trans hseq)).2 term hterm hlisted
  · have hsame := segmentKey_seq heq
    omega

theorem not_ownKey_listed (hstore : SoundStore engine.inverted) (hunused : UnusedKeys host engine)
    (hterm : PlainKey term) {other : String} (hother : PlainKey other) (hne : other ≠ term)
    {key : String} (hkey : key ∈ listedKeys engine.inverted other) :
    ¬OwnKey host term engine engine₁ key := by
  rintro (hlisted | ⟨seq, hle, -, rfl⟩)
  · exact hstore.disjoint other term hother hterm hne key hkey hlisted
  · exact (hunused term seq hterm hle).2 other hother hkey

theorem Reworks.lookup_plain (hstore : SoundStore engine.inverted) (hterm : PlainKey term)
    (h : Reworks host term engine engine₁) {other : String} (hother : PlainKey other)
    (hne : other ≠ term) : engine₁.inverted.lookup other = engine.inverted.lookup other :=
  h.elsewhere other hne fun hown => hown.ne_plain hstore hterm hother rfl

theorem Reworks.listedKeys_eq (hstore : SoundStore engine.inverted) (hterm : PlainKey term)
    (h : Reworks host term engine engine₁) {other : String} (hother : PlainKey other)
    (hne : other ≠ term) : listedKeys engine₁.inverted other = listedKeys engine.inverted other := by
  unfold listedKeys
  rw [h.lookup_plain hstore hterm hother hne]

theorem Reworks.lookup_listed (hstore : SoundStore engine.inverted)
    (hunused : UnusedKeys host engine) (hterm : PlainKey term)
    (h : Reworks host term engine engine₁) {other : String} (hother : PlainKey other)
    (hne : other ≠ term) {key : String} (hkey : key ∈ listedKeys engine.inverted other) :
    engine₁.inverted.lookup key = engine.inverted.lookup key := by
  refine h.elsewhere key ?_ (not_ownKey_listed hstore hunused hterm hother hne hkey)
  rintro rfl
  exact hterm (hstore.colon other hother key hkey)

/-- What is stored under another term is read as before. -/
theorem Reworks.segmentDeltas_eq (hstore : SoundStore engine.inverted)
    (hunused : UnusedKeys host engine) (hterm : PlainKey term)
    (h : Reworks host term engine engine₁) {other : String} (hother : PlainKey other)
    (hne : other ≠ term) {state : PostingListState}
    (hstate : engine.inverted.lookup other = some (.state state)) :
    segmentDeltas engine₁.inverted state.segments =
      segmentDeltas engine.inverted state.segments := by
  refine segmentDeltas_congr fun key hkey => h.lookup_listed hstore hunused hterm hother hne ?_
  rw [listedKeys, hstate]
  exact hkey

theorem Reworks.storedList_eq (hstore : SoundStore engine.inverted)
    (hunused : UnusedKeys host engine) (hterm : PlainKey term)
    (h : Reworks host term engine engine₁) {other : String} (hother : PlainKey other)
    (hne : other ≠ term) : storedList engine₁.inverted other = storedList engine.inverted other := by
  unfold storedList
  rw [h.lookup_plain hstore hterm hother hne]
  cases hlookup : engine.inverted.lookup other with
  | none => rfl
  | some record =>
      rcases hstore.record other hother record hlookup with ⟨list, rfl⟩ | ⟨state, rfl, -⟩
      · rfl
      · dsimp only
        rw [h.segmentDeltas_eq hstore hunused hterm hother hne hlookup]

theorem Reworks.oldList_eq (hstore : SoundStore engine.inverted) (hterm : PlainKey term)
    (h : Reworks host term engine engine₁) {other : String} (hother : PlainKey other)
    (hne : other ≠ term) : oldList engine₁.inverted other = oldList engine.inverted other := by
  unfold oldList
  rw [h.lookup_plain hstore hterm hother hne]

theorem Reworks.storedDeltas_eq (hstore : SoundStore engine.inverted)
    (hunused : UnusedKeys host engine) (hterm : PlainKey term)
    (h : Reworks host term engine engine₁) {other : String} (hother : PlainKey other)
    (hne : other ≠ term) :
    storedDeltas engine₁.inverted other = storedDeltas engine.inverted other := by
  unfold storedDeltas
  rw [h.lookup_plain hstore hterm hother hne]
  cases hlookup : engine.inverted.lookup other with
  | none => rfl
  | some record =>
      rcases hstore.record other hother record hlookup with ⟨list, rfl⟩ | ⟨state, rfl, -⟩
      · rfl
      · dsimp only
        rw [h.segmentDeltas_eq hstore hunused hterm hother hne hlookup]

/-- An engine in the middle of a rework: `state` is the posting state being prepared and
`deltas` what its segments hold. -/
structure Prepared (host : FtsHost) (term : String) (engine engine₁ : FtsEngine)
    (state : PostingListState) (deltas : List (Delta String PostingEntry)) : Prop where
  reworks : Reworks host term engine engine₁
  stateTerm : state.term = term
  own : ∀ key ∈ state.segments, OwnKey host term engine engine₁ key
  nodup : state.segments.Nodup
  stored : OnlySegments engine₁.inverted state.segments
  deltas_eq : segmentDeltas engine₁.inverted state.segments = .ok deltas

variable {state : PostingListState} {deltas : List (Delta String PostingEntry)}

theorem writeSegment_eq (host : FtsHost) (engine : FtsEngine) (term : String)
    (delta : Delta String PostingEntry) :
    engine.writeSegment host term delta =
      ({ engine with
          segmentSeq := engine.segmentSeq + 1
          inverted := engine.inverted.insert (keyAt host term engine.segmentSeq)
            (.segment ⟨term, delta⟩) }, keyAt host term engine.segmentSeq) := rfl

theorem Reworks.writeSegment (h : Reworks host term engine engine₁)
    (delta : Delta String PostingEntry) :
    Reworks host term engine (engine₁.writeSegment host term delta).1 where
  forward := h.forward
  stats := h.stats
  postingCache := h.postingCache
  seq_le := h.seq_le.trans (Nat.le_succ _)
  elsewhere key hkey hown := by
    have hnext : key ≠ keyAt host term engine₁.segmentSeq := by
      rintro rfl
      exact hown (.inr ⟨_, h.seq_le, Nat.lt_succ_self _, rfl⟩)
    have hkept : (engine₁.writeSegment host term delta).1.inverted.lookup key =
        engine₁.inverted.lookup key := by
      rw [writeSegment_eq]
      exact (Table.lookup_insert _ _ _ _).trans (if_neg hnext)
    rw [hkept]
    exact h.elsewhere key hkey fun hold => hown (hold.mono (Nat.le_succ _))

theorem Reworks.withInverted (h : Reworks host term engine engine₁)
    {inverted : Table String InvertedRecord}
    (hlookup : ∀ key, key ≠ term → ¬OwnKey host term engine engine₁ key →
      inverted.lookup key = engine₁.inverted.lookup key) :
    Reworks host term engine { engine₁ with inverted } where
  forward := h.forward
  stats := h.stats
  postingCache := h.postingCache
  seq_le := h.seq_le
  elsewhere key hkey hown := (hlookup key hkey hown).trans (h.elsewhere key hkey hown)

theorem segmentDeltas_concat {inverted : Table String InvertedRecord} {keys : List String}
    {key : String} {segment : PostingSegment}
    (h : segmentDeltas inverted keys = .ok deltas)
    (hkey : inverted.lookup key = some (.segment segment)) :
    segmentDeltas inverted (keys ++ [key]) = .ok (deltas ++ [segment.delta]) := by
  obtain ⟨name, delta⟩ := segment
  exact @segmentDeltas_snoc { inverted } name key keys deltas delta h hkey

theorem Prepared.extend (hunused : UnusedKeys host engine) (hterm : PlainKey term) (h : Prepared host term engine engine₁ state deltas)
    (delta : Delta String PostingEntry) :
    Prepared host term engine (engine₁.writeSegment host term delta).1
      { state with segments := state.segments ++ [(engine₁.writeSegment host term delta).2] }
      (deltas ++ [delta]) := by
  have hnew : ∀ key ∈ state.segments, key ≠ keyAt host term engine₁.segmentSeq := by
    rintro key hkey rfl
    exact not_ownKey_keyAt hunused hterm hterm h.reworks.seq_le (Nat.le_refl _) (h.own _ hkey)
  have hlookup : ∀ key, (engine₁.writeSegment host term delta).1.inverted.lookup key =
      if key = keyAt host term engine₁.segmentSeq then some (.segment ⟨term, delta⟩)
      else engine₁.inverted.lookup key := fun key => Table.lookup_insert _ _ _ _
  refine ⟨h.reworks.writeSegment delta, h.stateTerm, ?_, ?_, ?_, ?_⟩
  · intro key hkey
    rcases List.mem_append.mp hkey with hold | hlast
    · exact (h.own key hold).mono (Nat.le_succ _)
    · rw [List.mem_singleton.mp hlast]
      exact .inr ⟨engine₁.segmentSeq, h.reworks.seq_le, Nat.lt_succ_self _, rfl⟩
  · refine List.nodup_append.mpr ⟨h.nodup, List.nodup_singleton _, fun key hkey other hother => ?_⟩
    rw [List.mem_singleton.mp hother]
    exact hnew key hkey
  · intro key hkey record hrecord
    rw [hlookup] at hrecord
    split at hrecord
    · exact ⟨_, (Option.some.inj hrecord).symm⟩
    · rename_i hne
      rcases List.mem_append.mp hkey with hold | hlast
      · exact h.stored key hold record hrecord
      · exact absurd (List.mem_singleton.mp hlast) hne
  · have hold : segmentDeltas (engine₁.writeSegment host term delta).1.inverted state.segments =
        .ok deltas := by
      rw [segmentDeltas_congr fun key hkey => (hlookup key).trans (if_neg (hnew key hkey))]
      exact h.deltas_eq
    exact segmentDeltas_concat hold ((hlookup _).trans (if_pos rfl))

theorem Prepared.persist (hstore : SoundStore engine.inverted) (hterm : PlainKey term)
    (h : Prepared host term engine engine₁ state deltas) {stored : PostingListState}
    (hname : stored.term = term) :
    Prepared host term engine (engine₁.persistPostingState stored) state deltas := by
  have hlookup : ∀ key, key ≠ term →
      (engine₁.persistPostingState stored).inverted.lookup key = engine₁.inverted.lookup key := by
    intro key hkey
    rw [← hname] at hkey
    exact (Table.lookup_insert _ _ _ _).trans (if_neg hkey)
  have hown : ∀ key ∈ state.segments,
      (engine₁.persistPostingState stored).inverted.lookup key = engine₁.inverted.lookup key :=
    fun key hkey => hlookup key ((h.own key hkey).ne_plain hstore hterm hterm)
  refine ⟨h.reworks.withInverted fun key hkey _ => hlookup key hkey, h.stateTerm, h.own, h.nodup,
    ?_, ?_⟩
  · intro key hkey record hrecord
    rw [hown key hkey] at hrecord
    exact h.stored key hkey record hrecord
  · rw [segmentDeltas_congr hown]
    exact h.deltas_eq

theorem getOrMigrate_prepared (hstore : SoundStore engine.inverted)
    (hunused : UnusedKeys host engine) (hterm : PlainKey term) :
    ∃ engine₁ stored, engine.getOrMigratePostingState host term = .ok (engine₁, stored) ∧
      Prepared host term engine engine₁ (stored.getD { term := term, segments := [] })
        (storedDeltas engine.inverted term) := by
  unfold getOrMigratePostingState
  cases hlookup : engine.inverted.lookup term with
  | none =>
      refine ⟨engine, none, rfl, .refl host term engine, rfl, by simp, List.nodup_nil,
        by simp [OnlySegments], ?_⟩
      rw [storedDeltas, hlookup]
      rfl
  | some record =>
      rcases hstore.record term hterm record hlookup with ⟨list, rfl⟩ | ⟨state, rfl, hname⟩
      · have hempty : Prepared host term engine engine { term := term, segments := [] } [] :=
          ⟨.refl host term engine, rfl, by simp, List.nodup_nil, by simp [OnlySegments], rfl⟩
        have hwritten := hempty.extend hunused hterm ⟨list.entries, []⟩
        have hdeltas : storedDeltas engine.inverted term = [⟨list.entries, []⟩] := by
          rw [storedDeltas, hlookup]
        rw [hdeltas]
        exact ⟨_, _, rfl, hwritten.persist hstore hterm rfl⟩
      · have hlisted := listedKeys_of_state hlookup
        have hsegments := hstore.segments term hterm
        have hnodup := hstore.nodup term hterm
        rw [hlisted] at hsegments hnodup
        obtain ⟨deltas, hdeltas⟩ := segmentDeltas_of_onlySegments hsegments
        refine ⟨engine, some state, rfl, .refl host term engine, hname, ?_, hnodup, hsegments, ?_⟩
        · intro key hkey
          exact .inl (hlisted ▸ hkey)
        · rw [storedDeltas_of_state hlookup hdeltas]
          exact hdeltas

theorem Prepared.written_left (hunused : UnusedKeys host engine) (hterm : PlainKey term)
    (h : Prepared host term engine engine₁ state deltas) (delta : Delta String PostingEntry)
    {engine₂ : FtsEngine} {key : String}
    (hwrite : engine₁.writeSegment host term delta = (engine₂, key)) :
    (state.segments.foldl deleteFtsInverted engine₂).inverted.lookup key =
        some (.segment ⟨term, delta⟩) ∧
      segmentDeltas (state.segments.foldl deleteFtsInverted engine₂).inverted [key] =
        .ok [delta] := by
  have hnodup := (h.extend hunused hterm delta).nodup
  rw [hwrite] at hnodup
  have hnew : engine₂.inverted.lookup key = some (.segment ⟨term, delta⟩) := by
    rw [writeSegment_eq, Prod.mk.injEq] at hwrite
    rw [← hwrite.1, ← hwrite.2]
    exact (Table.lookup_insert _ _ _ _).trans (if_pos rfl)
  have hkey : key ∉ state.segments := fun hmem =>
    (List.nodup_append.mp hnodup).2.2 key hmem key (List.mem_singleton_self key) rfl
  have hleft : (state.segments.foldl deleteFtsInverted engine₂).inverted.lookup key =
      some (.segment ⟨term, delta⟩) := by
    rw [foldl_deleteFtsInverted]
    exact (Table.lookup_foldl_erase _ _ _).trans ((if_neg hkey).trans hnew)
  exact ⟨hleft, by simp [segmentDeltas, hleft, Except.map]⟩

/-- Eight or more segments become one. -/
theorem Prepared.compact (hunused : UnusedKeys host engine) (hterm : PlainKey term)
    (h : Prepared host term engine engine₁ state deltas) :
    ∃ engine₂ state₂ deltas₂,
      engine₁.compact host term state (resolve term deltas) =
        .ok (engine₂, state₂, resolve term deltas₂) ∧
      Prepared host term engine engine₂ state₂ deltas₂ ∧ state₂.segments.length < 8 ∧
      ∀ docKey, (replay PostingEntry.docKey deltas₂).lookup docKey =
        (replay PostingEntry.docKey deltas).lookup docKey := by
  unfold FtsEngine.compact
  by_cases hlong : state.segments.length ≥ 8
  · rw [if_pos hlong]
    have hextended := h.extend hunused hterm ⟨(resolve term deltas).entries, []⟩
    have hwritten := fun engine₂ key => @Prepared.written_left host engine engine₁ term state deltas
      hunused hterm h ⟨(resolve term deltas).entries, []⟩ engine₂ key
    generalize engine₁.writeSegment host term ⟨(resolve term deltas).entries, []⟩ = written at *
    rcases written with ⟨engine₂, key⟩
    obtain ⟨hleft, hdeltas⟩ := hwritten engine₂ key rfl
    refine ⟨state.segments.foldl deleteFtsInverted engine₂, { state with segments := [key] },
      [⟨(resolve term deltas).entries, []⟩], ?_, ?_, by simp, ?_⟩
    · dsimp only
      rw [materializePostingState, hdeltas, h.stateTerm]
      rfl
    · refine ⟨?_, h.stateTerm, ?_, List.nodup_singleton key, ?_, hdeltas⟩
      · rw [foldl_deleteFtsInverted]
        refine hextended.reworks.withInverted fun other _ hown => ?_
        rw [Table.lookup_foldl_erase, if_neg]
        exact fun hmem => hown (hextended.own other (List.mem_append_left _ hmem))
      · intro other hother
        rw [foldl_deleteFtsInverted]
        rw [List.mem_singleton.mp hother]
        exact hextended.own key (by simp)
      · intro other hother record hrecord
        rw [List.mem_singleton.mp hother, hleft] at hrecord
        exact ⟨_, (Option.some.inj hrecord).symm⟩
    · intro docKey
      exact lookup_replay_compact (List.perm_insertionSort _ _) docKey
  · rw [if_neg hlong]
    exact ⟨engine₁, state, deltas, rfl, h, by omega, fun _ => rfl⟩

/-- A rework ends with nothing under the term, or with the prepared state. -/
def Settled (host : FtsHost) (term : String) (engine engine₁ : FtsEngine) : Prop :=
  engine₁.inverted.lookup term = none ∨
    ∃ state deltas, engine₁.inverted.lookup term = some (.state state) ∧
      Prepared host term engine engine₁ state deltas

theorem Settled.own (hsettled : Settled host term engine engine₁) {key : String}
    (hkey : key ∈ listedKeys engine₁.inverted term) : OwnKey host term engine engine₁ key := by
  rcases hsettled with hnone | ⟨state, deltas, hstate, hprepared⟩
  · rw [listedKeys, hnone] at hkey
    cases hkey
  · rw [listedKeys_of_state hstate] at hkey
    exact hprepared.own key hkey

theorem Reworks.soundStore (hstore : SoundStore engine.inverted) (hunused : UnusedKeys host engine)
    (hterm : PlainKey term) (h : Reworks host term engine engine₁)
    (hsettled : Settled host term engine engine₁) : SoundStore engine₁.inverted where
  record := by
    intro other hother record hrecord
    by_cases hne : other = term
    · rw [hne] at hrecord ⊢
      rcases hsettled with hnone | ⟨state, deltas, hstate, hprepared⟩
      · rw [hnone] at hrecord
        cases hrecord
      · rw [hstate] at hrecord
        exact .inr ⟨state, (Option.some.inj hrecord).symm, hprepared.stateTerm⟩
    · rw [h.lookup_plain hstore hterm hother hne] at hrecord
      exact hstore.record other hother record hrecord
  nodup := by
    intro other hother
    by_cases hne : other = term
    · rw [hne]
      rcases hsettled with hnone | ⟨state, deltas, hstate, hprepared⟩
      · rw [listedKeys, hnone]
        exact List.nodup_nil
      · rw [listedKeys_of_state hstate]
        exact hprepared.nodup
    · rw [h.listedKeys_eq hstore hterm hother hne]
      exact hstore.nodup other hother
  colon := by
    intro other hother key hkey
    by_cases hne : other = term
    · rw [hne] at hkey
      exact (hsettled.own hkey).colon hstore hterm
    · rw [h.listedKeys_eq hstore hterm hother hne] at hkey
      exact hstore.colon other hother key hkey
  segments := by
    intro other hother key hkey record hrecord
    by_cases hne : other = term
    · rw [hne] at hkey
      rcases hsettled with hnone | ⟨state, deltas, hstate, hprepared⟩
      · rw [listedKeys, hnone] at hkey
        cases hkey
      · rw [listedKeys_of_state hstate] at hkey
        exact hprepared.stored key hkey record hrecord
    · rw [h.listedKeys_eq hstore hterm hother hne] at hkey
      rw [h.lookup_listed hstore hunused hterm hother hne hkey] at hrecord
      exact hstore.segments other hother key hkey record hrecord
  disjoint := by
    intro first second hfirst hsecond hne key hkey hkey'
    by_cases h₁ : first = term
    · have h₂ : second ≠ term := fun heq => hne (h₁.trans heq.symm)
      rw [h₁] at hkey
      rw [h.listedKeys_eq hstore hterm hsecond h₂] at hkey'
      exact not_ownKey_listed hstore hunused hterm hsecond h₂ hkey' (hsettled.own hkey)
    · rw [h.listedKeys_eq hstore hterm hfirst h₁] at hkey
      by_cases h₂ : second = term
      · rw [h₂] at hkey'
        exact not_ownKey_listed hstore hunused hterm hfirst h₁ hkey (hsettled.own hkey')
      · rw [h.listedKeys_eq hstore hterm hsecond h₂] at hkey'
        exact hstore.disjoint first second hfirst hsecond hne key hkey hkey'

theorem Reworks.unusedKeys (hstore : SoundStore engine.inverted) (hunused : UnusedKeys host engine)
    (hterm : PlainKey term) (h : Reworks host term engine engine₁)
    (hsettled : Settled host term engine engine₁) : UnusedKeys host engine₁ := by
  intro other seq hother hseq
  have hfree := hunused other seq hother (h.seq_le.trans hseq)
  have hnot : ¬OwnKey host term engine engine₁ (keyAt host other seq) :=
    not_ownKey_keyAt hunused hterm hother h.seq_le hseq
  constructor
  · rw [h.elsewhere _ _ hnot]
    · exact hfree.1
    · intro heq
      exact hterm (heq ▸ keyAt_colon host other seq)
  · intro owner howner hkey
    by_cases hne : owner = term
    · rw [hne] at hkey
      exact hnot (hsettled.own hkey)
    · rw [h.listedKeys_eq hstore hterm howner hne] at hkey
      exact hfree.2 owner howner hkey

theorem Reworks.cache_pop (hsound : Sound host engine) (hterm : PlainKey term)
    (h : Reworks host term engine engine₁) :
    (engine₁.postingCache.pop term).Holds fun other list =>
      PlainKey other ∧ storedList engine₁.inverted other = .ok list := by
  rw [h.postingCache]
  refine (hsound.cache.pop term).mono fun entry hentry hholds => ⟨hholds.1, ?_⟩
  rw [h.storedList_eq hsound.store hsound.unused hterm hholds.1 (LruCache.mem_pop.mp hentry).2]
  exact hholds.2

/-- What a change of one term leaves: `posting` is what its documents then have. -/
structure Changed (host : FtsHost) (term : String) (engine engine' : FtsEngine)
    (posting : String → Option PostingEntry) : Prop where
  sound : Sound host engine'
  forward : engine'.forward = engine.forward
  stats : engine'.stats = engine.stats
  posting : ∀ docKey, storedPosting engine'.inverted term docKey = posting docKey
  settled : oldList engine'.inverted term = none
  few : (listedKeys engine'.inverted term).length < 8
  otherPosting : ∀ other, PlainKey other → other ≠ term → ∀ docKey,
    storedPosting engine'.inverted other docKey = storedPosting engine.inverted other docKey
  otherOld : ∀ other, PlainKey other → other ≠ term →
    oldList engine'.inverted other = oldList engine.inverted other
  otherListed : ∀ other, PlainKey other → other ≠ term →
    listedKeys engine'.inverted other = listedKeys engine.inverted other

theorem Prepared.store (hsound : Sound host engine) (hterm : PlainKey term)
    (h : Prepared host term engine engine₁ state deltas) (hfew : state.segments.length < 8) :
    Changed host term engine (engine₁.storePostingList term state (resolve term deltas))
      fun docKey => (replay PostingEntry.docKey deltas).lookup docKey := by
  have hstore := hsound.store
  have hunused := hsound.unused
  unfold storePostingList
  by_cases hempty : (resolve term deltas).entries.isEmpty = true
  · rw [if_pos hempty]
    rw [foldl_deleteFtsInverted]
    generalize hinverted : (state.segments.foldl (fun table key => table.erase key)
      engine₁.inverted).erase term = inverted
    have hlookup : ∀ key, inverted.lookup key =
        if key = term then none
        else if key ∈ state.segments then none else engine₁.inverted.lookup key := by
      intro key
      rw [← hinverted, Table.lookup_erase, Table.lookup_foldl_erase]
    have hreworks : Reworks host term engine { engine₁ with inverted } :=
      h.reworks.withInverted fun key hkey hown => by
        rw [hlookup, if_neg hkey, if_neg fun hmem => hown (h.own key hmem)]
    have hnone : inverted.lookup term = none := (hlookup term).trans (if_pos rfl)
    have hsettled : Settled host term engine { engine₁ with inverted } := .inl hnone
    have hgone : ∀ docKey, (replay PostingEntry.docKey deltas).lookup docKey = none :=
      resolve_isEmpty hempty
    have hsoundStore := hreworks.soundStore hstore hunused hterm hsettled
    have hunusedKeys := hreworks.unusedKeys hstore hunused hterm hsettled
    unfold deleteFtsInverted
    dsimp only
    rw [hinverted]
    refine ⟨⟨hsoundStore, hunusedKeys, hreworks.cache_pop hsound hterm⟩,
      h.reworks.forward, h.reworks.stats, ?_, ?_, ?_, ?_, ?_, ?_⟩
    · intro docKey
      rw [storedPosting, storedDeltas, hnone, hgone]
      rfl
    · rw [oldList, hnone]
    · rw [listedKeys, hnone]
      exact Nat.zero_lt_succ _
    · intro other hother hne docKey
      rw [storedPosting, storedPosting]
      exact congrArg (fun log => (replay PostingEntry.docKey log).lookup docKey)
        (hreworks.storedDeltas_eq hstore hunused hterm hother hne)
    · exact fun other hother hne => hreworks.oldList_eq hstore hterm hother hne
    · exact fun other hother hne => hreworks.listedKeys_eq hstore hterm hother hne
  · rw [if_neg hempty]
    have hpersisted := h.persist hstore hterm h.stateTerm
    have hstate : (engine₁.persistPostingState state).inverted.lookup term =
        some (.state state) := by
      rw [persistPostingState, putFtsInverted, Table.lookup_insert, if_pos h.stateTerm.symm]
    have hreworks := hpersisted.reworks
    have hsettled : Settled host term engine (engine₁.persistPostingState state) :=
      .inr ⟨state, deltas, hstate, hpersisted⟩
    have hlist : storedList (engine₁.persistPostingState state).inverted term =
        .ok (resolve term deltas) := by
      rw [storedList, hstate]
      dsimp only
      rw [hpersisted.deltas_eq, h.stateTerm]
      rfl
    have hsoundStore := hreworks.soundStore hstore hunused hterm hsettled
    have hunusedKeys := hreworks.unusedKeys hstore hunused hterm hsettled
    refine ⟨⟨hsoundStore, hunusedKeys, (hreworks.cache_pop hsound hterm).put ⟨hterm, hlist⟩⟩,
      h.reworks.forward, h.reworks.stats, ?_, ?_, ?_, ?_, ?_, ?_⟩
    · intro docKey
      exact congrArg (fun log => (replay PostingEntry.docKey log).lookup docKey)
        (storedDeltas_of_state hstate hpersisted.deltas_eq)
    · exact (congrArg (fun record : Option InvertedRecord => match record with
        | some (.legacy list) => some list
        | _ => none) hstate)
    · exact (congrArg List.length (listedKeys_of_state hstate)).trans_lt hfew
    · intro other hother hne docKey
      exact congrArg (fun log => (replay PostingEntry.docKey log).lookup docKey)
        (hreworks.storedDeltas_eq hstore hunused hterm hother hne)
    · exact fun other hother hne => hreworks.oldList_eq hstore hterm hother hne
    · exact fun other hother hne => hreworks.listedKeys_eq hstore hterm hother hne

theorem applyTermDelta_changed (hsound : Sound host engine) (hterm : PlainKey term)
    (added : List PostingEntry) (removed : List String) :
    ∃ engine', engine.applyTermDelta host term added removed = .ok engine' ∧
      Changed host term engine engine' fun docKey =>
        (lastWith PostingEntry.docKey added docKey).or
          (if docKey ∈ removed then none else storedPosting engine.inverted term docKey) := by
  obtain ⟨engine₁, stored, hget, hprepared⟩ :=
    getOrMigrate_prepared hsound.store hsound.unused hterm
  have hwritten : ∃ engine₂ state₂ deltas₂,
      (if !added.isEmpty || !removed.isEmpty then
        ((engine₁.writeSegment host term ⟨added, removed⟩).1,
          { stored.getD { term := term, segments := [] } with
            segments := (stored.getD { term := term, segments := [] }).segments ++
              [(engine₁.writeSegment host term ⟨added, removed⟩).2] })
      else (engine₁, stored.getD { term := term, segments := [] })) = (engine₂, state₂) ∧
      Prepared host term engine engine₂ state₂ deltas₂ ∧
      ∀ docKey, (replay PostingEntry.docKey deltas₂).lookup docKey =
        (lastWith PostingEntry.docKey added docKey).or
          (if docKey ∈ removed then none else storedPosting engine.inverted term docKey) := by
    by_cases hsome : (!added.isEmpty || !removed.isEmpty) = true
    · refine ⟨_, _, _, if_pos hsome, hprepared.extend hsound.unused hterm ⟨added, removed⟩,
        fun docKey => ?_⟩
      rw [replay_append, lookup_apply]
      rfl
    · refine ⟨_, _, _, if_neg hsome, hprepared, fun docKey => ?_⟩
      have hnone : added = [] ∧ removed = [] := by simpa using hsome
      rw [hnone.1, hnone.2]
      simp [lastWith, storedPosting]
  obtain ⟨engine₂, state₂, deltas₂, hwrite, hprepared₂, hlookup₂⟩ := hwritten
  obtain ⟨engine₃, state₃, deltas₃, hcompact, hprepared₃, hfew, hlookup₃⟩ :=
    hprepared₂.compact hsound.unused hterm
  have hresolved : engine₂.materializePostingState state₂ = .ok (resolve term deltas₂) := by
    rw [materializePostingState, hprepared₂.deltas_eq, hprepared₂.stateTerm]
    rfl
  refine ⟨engine₃.storePostingList term state₃ (resolve term deltas₃), ?_, ?_⟩
  · simp only [applyTermDelta, hget, bind, Except.bind, hwrite, hresolved, hcompact]
  · have hchanged := hprepared₃.store hsound hterm hfew
    have hposting : (fun docKey => (replay PostingEntry.docKey deltas₃).lookup docKey) =
        fun docKey => (lastWith PostingEntry.docKey added docKey).or
          (if docKey ∈ removed then none else storedPosting engine.inverted term docKey) :=
      funext fun docKey => (hlookup₃ docKey).trans (hlookup₂ docKey)
    rwa [hposting] at hchanged

theorem getPostingListInternal_stored (hsound : Sound host engine) (hterm : PlainKey term) :
    ∃ engine' list, storedList engine.inverted term = .ok list ∧
      engine.getPostingListInternal term = .ok (engine', list) ∧ Sound host engine' ∧
      engine'.inverted = engine.inverted ∧ engine'.forward = engine.forward ∧
      engine'.stats = engine.stats := by
  obtain ⟨list, hlist⟩ : ∃ list, storedList engine.inverted term = .ok list :=
    ⟨_, hsound.store.storedList_eq hterm⟩
  have hget := hsound.cache.get term
  unfold getPostingListInternal
  cases hhit : engine.postingCache.get term with
  | mk hit cache =>
      rw [hhit] at hget
      cases hit with
      | some cached =>
          obtain ⟨-, hcached⟩ := hget.2 cached rfl
          exact ⟨{ engine with postingCache := cache }, cached, hcached, rfl,
            ⟨hsound.store, hsound.unused, hget.1⟩, rfl, rfl, rfl⟩
      | none =>
          dsimp only
          have hsound' : Sound host
              { engine with postingCache := engine.postingCache.put term list } :=
            ⟨hsound.store, hsound.unused, hsound.cache.put ⟨hterm, hlist⟩⟩
          cases hlookup : engine.inverted.lookup term with
          | none =>
              rw [storedList, hlookup] at hlist
              cases hlist
              exact ⟨engine, { term := term, entries := [] }, by rw [storedList, hlookup], rfl,
                hsound, rfl, rfl, rfl⟩
          | some record =>
              refine ⟨{ engine with postingCache := engine.postingCache.put term list }, list, hlist,
                ?_, hsound', rfl, rfl, rfl⟩
              rw [storedList, hlookup] at hlist
              cases record with
              | state state =>
                  dsimp only at hlist ⊢
                  rw [materializePostingState, hlist]
                  rfl
              | legacy legacy =>
                  cases hlist
                  rfl
              | segment segment => cases hlist

/-! ## Sound engines -/

theorem new_sound (host : FtsHost) : Sound host {} where
  store := ⟨by simp, fun _ _ => List.nodup_nil, by simp [listedKeys], by simp [listedKeys,
    OnlySegments], by simp [listedKeys]⟩
  unused := by simp [UnusedKeys, listedKeys]
  cache := by simp [LruCache.Holds]

/-- The postings and the old posting lists of plain terms. -/
def soundView (host : FtsHost) : PostingView host where
  Inv := Sound host
  posting := fun engine term docKey =>
    if PlainKey term then storedPosting engine.inverted term docKey else none
  old := fun engine term => if PlainKey term then oldList engine.inverted term else none
  inv_frame := fun _ _ _ h => ⟨h.store, h.unused, h.cache⟩
  posting_frame := fun _ _ _ => rfl
  old_frame := fun _ _ _ => rfl
  applies := fun _ term added removed h hterm => by
    have hkey : PlainKey term := hterm
    obtain ⟨engine', hok, hchanged⟩ := applyTermDelta_changed h hkey added removed
    refine ⟨engine', hok, hchanged.sound, hchanged.forward, hchanged.stats, ?_, ?_⟩
    · intro other docKey
      by_cases hother : other = term
      · rw [if_pos hother, hother, if_pos hkey, if_pos hkey, hchanged.posting]
      · rw [if_neg hother]
        by_cases hplain : PlainKey other
        · rw [if_pos hplain, if_pos hplain, hchanged.otherPosting other hplain hother]
        · rw [if_neg hplain, if_neg hplain]
    · intro other
      by_cases hother : other = term
      · rw [if_pos hother, hother, if_pos hkey, hchanged.settled]
      · rw [if_neg hother]
        by_cases hplain : PlainKey other
        · rw [if_pos hplain, if_pos hplain, hchanged.otherOld other hplain hother]
        · rw [if_neg hplain, if_neg hplain]

def listOf (term : String) (map : Table String PostingEntry) : PostingList where
  term := term
  entries := (values map).insertionSort fun left right => left.docKey ≤ right.docKey

theorem listOf_congr {map map' : Table String PostingEntry}
    (hkey : ∀ docKey entry, map.lookup docKey = some entry → entry.docKey = docKey)
    (h : ∀ docKey, map'.lookup docKey = map.lookup docKey) : listOf term map' = listOf term map := by
  have hperm := values_perm hkey h
  have htotal : Std.Total fun left right : PostingEntry => left.docKey ≤ right.docKey :=
    ⟨fun a b => le_total a.docKey b.docKey⟩
  have htrans : IsTrans PostingEntry fun left right => left.docKey ≤ right.docKey :=
    ⟨fun _ _ _ hab hbc => le_trans hab hbc⟩
  unfold listOf
  congr 1
  -- No two entries have one key, so the order has no ties.
  refine List.Perm.eq_of_pairwise ?_ (List.pairwise_insertionSort _ _)
    (List.pairwise_insertionSort _ _)
    ((List.perm_insertionSort _ _).trans (hperm.trans (List.perm_insertionSort _ _).symm))
  intro a b ha hb hab hba
  have ha' := hperm.subset ((List.mem_insertionSort _).mp ha)
  have hb' := (List.mem_insertionSort _).mp hb
  exact List.inj_on_of_nodup_map (keys_values_nodup hkey) ha' hb' (le_antisymm hab hba)

theorem storedList_congr {inverted inverted' : Table String InvertedRecord}
    (h : SoundStore inverted) (h' : SoundStore inverted') (hterm : PlainKey term)
    (hposting : ∀ docKey, storedPosting inverted' term docKey = storedPosting inverted term docKey)
    (hold : oldList inverted' term = oldList inverted term) :
    storedList inverted' term = storedList inverted term := by
  have hresolve : resolve term (storedDeltas inverted' term) =
      resolve term (storedDeltas inverted term) := listOf_congr (fun _ _ => key_of_replay) hposting
  rw [h.storedList_eq hterm, h'.storedList_eq hterm, hold, hresolve]

end FtsEngine

end BenShu.Engram
