import BenShu.Engram.RankFusion
import BenShu.Lib.FirstMatch
import Mathlib.Algebra.BigOperators.Group.Finset.Basic
import Mathlib.Algebra.Order.Ring.Rat

/-!
# What a fused ranking says

With exact scores, a fused ranking depends on the streams alone: each document is in it once and
has the shares of the streams that rank it. A stream is known by its name, so that of streams
with one name the first that ranks a document counts.
-/

namespace BenShu.Engram

/-- Scores are rational numbers. -/
abbrev exactArithmetic : ScoreArithmetic where
  Score := Rat
  zero := 0
  add := (· + ·)
  divide := (· / ·)
  ofNat n := n
  toNat x := x.floor.toNat
  isNegative x := decide (x < 0)
  partialCmp x y := some (compareOfLessAndEq x y)

/-! ## The order of the ranking -/

namespace FusedResult

/-- A higher score, then agreement, then the smaller id. -/
def Before (left right : FusedResult exactArithmetic) : Prop :=
  right.rrfScore < left.rrfScore ∨
    right.rrfScore = left.rrfScore ∧
      (right.isHybrid.toNat < left.isHybrid.toNat ∨
        right.isHybrid.toNat = left.isHybrid.toNat ∧ left.docid ≤ right.docid)

theorem compare_iff (left right : FusedResult exactArithmetic) :
    left.compare right ≠ .gt ↔ left.Before right := by
  have hscore : exactArithmetic.partialCmp right.rrfScore left.rrfScore =
      some (compareOfLessAndEq right.rrfScore left.rrfScore) := rfl
  unfold FusedResult.compare Before
  rw [hscore, Option.getD_some]
  rcases lt_trichotomy right.rrfScore left.rrfScore with h | h | h
  · simp [compareOfLessAndEq, h]
  · have hagree : (Ord.compare right.isHybrid.toNat left.isHybrid.toNat).then
        (Ord.compare left.docid right.docid) ≠ .gt ↔
        right.isHybrid.toNat < left.isHybrid.toNat ∨
          right.isHybrid.toNat = left.isHybrid.toNat ∧ left.docid ≤ right.docid := by
      rcases Nat.lt_trichotomy right.isHybrid.toNat left.isHybrid.toNat with h' | h' | h'
      · simp [Nat.compare_eq_lt.mpr h', h']
      · simp [h', compare_le_iff_le]
      · simp [Nat.compare_eq_gt.mpr h', h'.ne', h'.not_gt]
    simpa [compareOfLessAndEq, h] using hagree
  · simp [compareOfLessAndEq, h.ne', h.not_gt]

theorem before_total (left right : FusedResult exactArithmetic) :
    left.Before right ∨ right.Before left := by
  unfold Before
  rcases lt_trichotomy left.rrfScore right.rrfScore with h | h | h
  · exact .inr (.inl h)
  · rcases Nat.lt_trichotomy left.isHybrid.toNat right.isHybrid.toNat with h' | h' | h'
    · exact .inr (.inr ⟨h, .inl h'⟩)
    · rcases le_total left.docid right.docid with h'' | h''
      · exact .inl (.inr ⟨h.symm, .inr ⟨h'.symm, h''⟩⟩)
      · exact .inr (.inr ⟨h, .inr ⟨h', h''⟩⟩)
    · exact .inl (.inr ⟨h.symm, .inl h'⟩)
  · exact .inl (.inl h)

theorem Before.trans {a b c : FusedResult exactArithmetic} (hab : a.Before b) (hbc : b.Before c) :
    a.Before c := by
  unfold Before at *
  rcases hab with h | ⟨h, h' | ⟨h', h''⟩⟩ <;> rcases hbc with g | ⟨g, g' | ⟨g', g''⟩⟩
  · exact .inl (g.trans h)
  · exact .inl (g ▸ h)
  · exact .inl (g ▸ h)
  · exact .inl (h ▸ g)
  · exact .inr ⟨g.trans h, .inl (g'.trans h')⟩
  · exact .inr ⟨g.trans h, .inl (g' ▸ h')⟩
  · exact .inl (h ▸ g)
  · exact .inr ⟨g.trans h, .inl (h' ▸ g')⟩
  · exact .inr ⟨g.trans h, .inr ⟨g'.trans h', h''.trans g''⟩⟩

theorem Before.antisymm {a b : FusedResult exactArithmetic} (hab : a.Before b) (hba : b.Before a) :
    a.docid = b.docid := by
  unfold Before at *
  rcases hab with h | ⟨h, h' | ⟨h', h''⟩⟩ <;> rcases hba with g | ⟨g, g' | ⟨g', g''⟩⟩
  · exact absurd (h.trans g) (lt_irrefl _)
  · exact absurd (g ▸ h) (lt_irrefl _)
  · exact absurd (g ▸ h) (lt_irrefl _)
  · exact absurd (h ▸ g) (lt_irrefl _)
  · exact absurd (h'.trans g') (lt_irrefl _)
  · exact absurd (g' ▸ h') (lt_irrefl _)
  · exact absurd (h ▸ g) (lt_irrefl _)
  · exact absurd (h' ▸ g') (lt_irrefl _)
  · exact le_antisymm h'' g''

end FusedResult

/-! ## Shares -/

/-- Where a stream ranks a document first, and with which score. -/
def RankedStream.place (stream : RankedStream exactArithmetic) (docid : String) :
    Option (Nat × Rat) :=
  (stream.results.zipIdx.find? fun entry => entry.1.1 = docid).map fun entry =>
    (entry.2, entry.1.2)

/-- The streams of one name, as far as they rank a document. -/
def placeIn (streams : List (RankedStream exactArithmetic)) (docid name : String) :
    Option (RankedStream exactArithmetic × Nat × Rat) :=
  streams.findSome? fun stream =>
    if stream.name = name then (stream.place docid).map fun place => (stream, place) else none

theorem placeIn_append (streams : List (RankedStream exactArithmetic))
    (stream : RankedStream exactArithmetic) (docid name : String) :
    placeIn (streams ++ [stream]) docid name =
      (placeIn streams docid name).or
        (if stream.name = name then (stream.place docid).map fun place => (stream, place)
        else none) := by
  rw [placeIn, List.findSome?_append, ← placeIn]
  congr 1
  simp only [List.findSome?_cons, List.findSome?_nil]
  split <;> simp_all

namespace RrfConfig

variable (config : RrfConfig exactArithmetic)

def share (stream : RankedStream exactArithmetic) (rank : Nat) : Rat :=
  stream.weight / ((config.k + rank + 1 : Nat) : Rat)

def scoreIn (streams : List (RankedStream exactArithmetic)) (docid : String) : Rat :=
  ∑ name ∈ (streams.map RankedStream.name).toFinset,
    ((placeIn streams docid name).map fun found => config.share found.1 found.2.1).getD 0

/-- One place for a document, unless it has one of that name. -/
def addPlace (stream : RankedStream exactArithmetic) (place : Nat × Rat)
    (builder : FusedResult exactArithmetic) : FusedResult exactArithmetic :=
  if (builder.sourceMetadata.lookup stream.name).isSome then builder
  else { builder with
    rrfScore := builder.rrfScore + config.share stream place.1
    sourceMetadata := builder.sourceMetadata.insert stream.name place }

def builderOf (builders : Table String (FusedResult exactArithmetic)) (docid : String) :
    FusedResult exactArithmetic :=
  (builders.lookup docid).getD { docid := docid, rrfScore := (0 : Rat) }

variable (stream : RankedStream exactArithmetic)
  (builders : Table String (FusedResult exactArithmetic))

theorem fuseEntry_eq (entry : (String × Rat) × Nat) :
    config.fuseEntry stream builders entry = builders.insert entry.1.1
      (config.addPlace stream (entry.2, entry.1.2) (builderOf builders entry.1.1)) := by
  obtain ⟨⟨docid, score⟩, rank⟩ := entry
  unfold fuseEntry addPlace builderOf
  dsimp only
  split
  · rfl
  · rfl

theorem builderOf_fuseEntry (entry : (String × Rat) × Nat) (docid : String) :
    builderOf (config.fuseEntry stream builders entry) docid =
      if entry.1.1 = docid then
        config.addPlace stream (entry.2, entry.1.2) (builderOf builders docid)
      else builderOf builders docid := by
  rw [fuseEntry_eq, builderOf, Table.lookup_insert]
  by_cases h : entry.1.1 = docid
  · rw [if_pos h.symm, if_pos h, Option.getD_some, h]
  · rw [if_neg (Ne.symm h), if_neg h, builderOf]

theorem addPlace_addPlace (first second : Nat × Rat) (builder : FusedResult exactArithmetic) :
    config.addPlace stream second (config.addPlace stream first builder) =
      config.addPlace stream first builder := by
  have hhas : ((config.addPlace stream first builder).sourceMetadata.lookup
      stream.name).isSome := by
    unfold addPlace
    split
    · assumption
    · simp
  rw [addPlace, if_pos hhas]

theorem builderOf_foldl_fuseEntry (entries : List ((String × Rat) × Nat)) (docid : String) :
    builderOf (entries.foldl (config.fuseEntry stream) builders) docid =
      match entries.find? fun entry => entry.1.1 = docid with
      | none => builderOf builders docid
      | some entry => config.addPlace stream (entry.2, entry.1.2) (builderOf builders docid) := by
  induction entries generalizing builders with
  | nil => rfl
  | cons entry entries ih =>
      rw [List.foldl_cons, ih, builderOf_fuseEntry]
      by_cases h : entry.1.1 = docid
      · rw [if_pos h, List.find?_cons_of_pos (by simpa using h)]
        split
        · rfl
        · exact addPlace_addPlace config stream _ _ _
      · rw [if_neg h, List.find?_cons_of_neg (by simpa using h)]

theorem builderOf_fuseStream (docid : String) :
    builderOf (config.fuseStream builders stream) docid =
      match stream.place docid with
      | none => builderOf builders docid
      | some place => config.addPlace stream place (builderOf builders docid) := by
  rw [fuseStream, builderOf_foldl_fuseEntry, RankedStream.place]
  cases stream.results.zipIdx.find? fun entry => decide (entry.1.1 = docid) <;> rfl

/-- The fields that the streams determine. -/
structure Reflects (streams : List (RankedStream exactArithmetic)) (docid : String)
    (result : FusedResult exactArithmetic) : Prop where
  docid_eq : result.docid = docid
  score : result.rrfScore = config.scoreIn streams docid
  sources : ∀ name, result.sourceMetadata.lookup name = (placeIn streams docid name).map Prod.snd

def nameShare (streams : List (RankedStream exactArithmetic)) (docid name : String) : Rat :=
  ((placeIn streams docid name).map fun found => config.share found.1 found.2.1).getD 0

theorem scoreIn_eq_sum {streams : List (RankedStream exactArithmetic)} {names : Finset String}
    (h : ∀ stream ∈ streams, stream.name ∈ names) (docid : String) :
    config.scoreIn streams docid = ∑ name ∈ names, config.nameShare streams docid name := by
  apply Finset.sum_subset
  · intro name hname
    obtain ⟨stream, hstream, rfl⟩ := List.mem_map.mp (List.mem_toFinset.mp hname)
    exact h stream hstream
  · intro name _ hnot
    have hnone : placeIn streams docid name = none := by
      refine List.findSome?_eq_none_iff.mpr fun stream hstream => if_neg fun heq => hnot ?_
      exact List.mem_toFinset.mpr (List.mem_map.mpr ⟨stream, hstream, heq⟩)
    rw [hnone]
    rfl

section

variable {streams : List (RankedStream exactArithmetic)} {docid : String}

def namesWith (streams : List (RankedStream exactArithmetic))
    (stream : RankedStream exactArithmetic) : Finset String :=
  insert stream.name (streams.map RankedStream.name).toFinset

theorem scoreIn_append (docid : String) :
    config.scoreIn (streams ++ [stream]) docid =
      ∑ name ∈ namesWith streams stream, config.nameShare (streams ++ [stream]) docid name := by
  refine config.scoreIn_eq_sum (fun other hother => ?_) docid
  rcases List.mem_append.mp hother with h | h
  · exact Finset.mem_insert_of_mem (List.mem_toFinset.mpr (List.mem_map_of_mem h))
  · obtain rfl := List.mem_singleton.mp h
    exact Finset.mem_insert_self _ _

theorem scoreIn_before (docid : String) :
    config.scoreIn streams docid =
      ∑ name ∈ namesWith streams stream, config.nameShare streams docid name :=
  config.scoreIn_eq_sum (fun _ hother =>
    Finset.mem_insert_of_mem (List.mem_toFinset.mpr (List.mem_map_of_mem hother))) docid

theorem scoreIn_append_of_same
    (hsame : ∀ name, placeIn (streams ++ [stream]) docid name = placeIn streams docid name) :
    config.scoreIn (streams ++ [stream]) docid = config.scoreIn streams docid := by
  rw [scoreIn_append, config.scoreIn_before stream]
  exact Finset.sum_congr rfl fun name _ => by rw [nameShare, nameShare, hsame]

theorem scoreIn_append_of_new {place : Nat × Rat} (hplace : stream.place docid = some place)
    (hnone : placeIn streams docid stream.name = none) :
    config.scoreIn (streams ++ [stream]) docid =
      config.scoreIn streams docid + config.share stream place.1 := by
  have hmem : stream.name ∈ namesWith streams stream := Finset.mem_insert_self _ _
  have hold : config.nameShare streams docid stream.name = 0 := by
    rw [nameShare, hnone]
    rfl
  have hnew : config.nameShare (streams ++ [stream]) docid stream.name =
      config.share stream place.1 := by
    rw [nameShare, placeIn_append, hnone, if_pos rfl, hplace]
    rfl
  have hrest : ∀ name ∈ (namesWith streams stream).erase stream.name,
      config.nameShare (streams ++ [stream]) docid name =
        config.nameShare streams docid name := by
    intro name hname
    rw [nameShare, placeIn_append, if_neg (Finset.ne_of_mem_erase hname).symm, Option.or_none,
      nameShare]
  rw [scoreIn_append, config.scoreIn_before stream, ← Finset.add_sum_erase _ _ hmem,
    ← Finset.add_sum_erase _ _ hmem, hold, hnew, Finset.sum_congr rfl hrest,
    zero_add, add_comm]

end

theorem Reflects.fuseStream {streams : List (RankedStream exactArithmetic)} {docid : String}
    (h : config.Reflects streams docid (builderOf builders docid)) :
    config.Reflects (streams ++ [stream]) docid
      (builderOf (config.fuseStream builders stream) docid) := by
  have hkept : (∀ name, placeIn (streams ++ [stream]) docid name = placeIn streams docid name) →
      config.Reflects (streams ++ [stream]) docid (builderOf builders docid) := fun hsame =>
    ⟨h.docid_eq, h.score.trans (config.scoreIn_append_of_same stream hsame).symm,
      fun name => (h.sources name).trans (by rw [hsame])⟩
  rw [builderOf_fuseStream]
  cases hplace : stream.place docid with
  | none =>
      refine hkept fun name => ?_
      rw [placeIn_append, hplace, Option.map_none, ite_self, Option.or_none]
  | some place =>
      dsimp only
      cases hearlier : placeIn streams docid stream.name with
      | some found =>
          have hhas : ((builderOf builders docid).sourceMetadata.lookup stream.name).isSome := by
            rw [h.sources, hearlier]
            rfl
          rw [addPlace, if_pos hhas]
          refine hkept fun name => ?_
          rw [placeIn_append]
          by_cases hname : stream.name = name
          · rw [← hname, hearlier, Option.some_or]
          · rw [if_neg hname, Option.or_none]
      | none =>
          have hhas : ¬((builderOf builders docid).sourceMetadata.lookup stream.name).isSome := by
            rw [h.sources, hearlier]
            simp
          rw [addPlace, if_neg hhas]
          refine ⟨h.docid_eq, ?_, fun name => ?_⟩
          · rw [config.scoreIn_append_of_new stream hplace hearlier, ← h.score]
          · rw [placeIn_append, Table.lookup_insert]
            by_cases hname : name = stream.name
            · rw [if_pos hname, hname, hearlier, if_pos rfl, hplace]
              rfl
            · rw [if_neg hname, if_neg (Ne.symm hname), Option.or_none, h.sources]

theorem reflects_foldl (streams : List (RankedStream exactArithmetic)) (docid : String) :
    config.Reflects streams docid (builderOf (streams.foldl config.fuseStream ∅) docid) := by
  induction streams using List.reverseRecOn with
  | nil => exact ⟨rfl, rfl, fun name => rfl⟩
  | append_singleton streams stream ih =>
      rw [List.foldl_append]
      exact Reflects.fuseStream config stream _ ih

/-! ## The ranking -/

def built (streams : List (RankedStream exactArithmetic)) :
    Table String (FusedResult exactArithmetic) :=
  streams.foldl config.fuseStream ∅

theorem mem_built {streams : List (RankedStream exactArithmetic)} {docid : String} :
    docid ∈ config.built streams ↔
      ∃ stream ∈ streams, docid ∈ stream.results.map Prod.fst := by
  have hfused : Fused (fun docid => ∃ stream ∈ streams, docid ∈ stream.results.map Prod.fst)
      (config.built streams) := by
    induction streams using List.reverseRecOn with
    | nil => exact ⟨fun key builder h => (by cases h), fun key => by simp [built]⟩
    | append_singleton streams stream ih =>
        have hstream := Fused.fuseStream config stream ih
        rw [built, List.foldl_append]
        refine ⟨hstream.keyed, fun key => (hstream.covers key).trans ?_⟩
        simp only [List.mem_append, List.mem_singleton, or_and_right, exists_or,
          exists_eq_left]
        exact or_comm
  exact hfused.covers docid

section

variable (order : HashOrder) (streams : List (RankedStream exactArithmetic))

theorem fuse_perm :
    (config.fuse order streams).Perm
      ((config.built streams).keys.map (builderOf (config.built streams))) := by
  have hlookup : ∀ docid ∈ order.arrange (config.built streams).keys,
      (config.built streams).lookup docid = some (builderOf (config.built streams) docid) := by
    intro docid hdocid
    have hkey : docid ∈ config.built streams := (order.perm _).mem_iff.mp hdocid
    obtain ⟨builder, hbuilder⟩ := Option.isSome_iff_exists.mp (AList.lookup_isSome.mpr hkey)
    rw [builderOf, hbuilder, Option.getD_some]
  refine (List.perm_insertionSort _ _).trans ?_
  show ((order.arrange (config.built streams).keys).filterMap
    (config.built streams).lookup).Perm _
  rw [List.filterMap_congr hlookup, List.filterMap_eq_map']
  exact (order.perm _).map _

theorem docid_builderOf (docid : String) :
    (builderOf (config.built streams) docid).docid = docid :=
  (config.reflects_foldl streams docid).docid_eq

theorem fuse_docids : ((config.fuse order streams).map FusedResult.docid).Perm
    (config.built streams).keys := by
  have hids : ((config.built streams).keys.map (builderOf (config.built streams))).map
      FusedResult.docid = (config.built streams).keys := by
    rw [List.map_map]
    exact (List.map_congr_left fun docid _ => config.docid_builderOf streams docid).trans
      (List.map_id _)
  exact ((config.fuse_perm order streams).map FusedResult.docid).trans (.of_eq hids)

/-- The ranking is the list of its ids. -/
theorem fuse_eq_map :
    config.fuse order streams =
      ((config.fuse order streams).map FusedResult.docid).map
        (builderOf (config.built streams)) := by
  have hself : ∀ result ∈ config.fuse order streams,
      builderOf (config.built streams) result.docid = result := by
    intro result hresult
    obtain ⟨docid, -, rfl⟩ := List.mem_map.mp ((config.fuse_perm order streams).mem_iff.mp hresult)
    rw [config.docid_builderOf]
  rw [List.map_map]
  exact (List.map_id _).symm.trans (List.map_congr_left fun r hr => (hself r hr).symm)

theorem fuse_sorted : (config.fuse order streams).Pairwise FusedResult.Before := by
  let rel := fun left right : FusedResult exactArithmetic => left.compare right ≠ .gt
  have hrel : ∀ left right, rel left right ↔ left.Before right := FusedResult.compare_iff
  have htotal : Std.Total rel := ⟨fun left right => by
    rw [hrel, hrel]
    exact FusedResult.before_total left right⟩
  have htrans : IsTrans _ rel := ⟨fun a b c hab hbc =>
    (hrel a c).mpr (((hrel a b).mp hab).trans ((hrel b c).mp hbc))⟩
  have hsorted := List.pairwise_insertionSort rel
    ((order.arrange (config.built streams).keys).filterMap (config.built streams).lookup)
  exact hsorted.imp fun {left right} h => (hrel left right).mp h

end

/-! ## Other streams and orders -/

end RrfConfig

/-- The same result, however its metadata was put together. -/
structure FusedResult.Same (left right : FusedResult exactArithmetic) : Prop where
  docid : left.docid = right.docid
  score : left.rrfScore = right.rrfScore
  sources : ∀ name, left.sourceMetadata.lookup name = right.sourceMetadata.lookup name

theorem FusedResult.Same.before {a a' b b' : FusedResult exactArithmetic} (ha : a.Same a')
    (hb : b.Same b') (h : a.Before b) : a'.Before b' := by
  have hhybrid : ∀ {l r : FusedResult exactArithmetic}, l.Same r → l.isHybrid = r.isHybrid := by
    intro l r hsame
    rw [FusedResult.isHybrid, hsame.sources, hsame.sources, FusedResult.isHybrid]
  unfold FusedResult.Before at *
  rwa [← ha.score, ← hb.score, ← hhybrid ha, ← hhybrid hb, ← ha.docid, ← hb.docid]

namespace RrfConfig

variable (config : RrfConfig exactArithmetic)

theorem Reflects.same {streams streams' : List (RankedStream exactArithmetic)} {docid : String}
    {left right : FusedResult exactArithmetic} (h : config.Reflects streams docid left)
    (h' : config.Reflects streams' docid right)
    (hscore : config.scoreIn streams docid = config.scoreIn streams' docid)
    (hplaces : ∀ name, placeIn streams docid name = placeIn streams' docid name) :
    left.Same right where
  docid := h.docid_eq.trans h'.docid_eq.symm
  score := h.score.trans (hscore.trans h'.score.symm)
  sources name := by rw [h.sources, h'.sources, hplaces]

/-- What the streams say about the documents determines the ranking. -/
theorem fuse_docids_eq (order order' : HashOrder)
    {streams streams' : List (RankedStream exactArithmetic)}
    (hdocs : ∀ docid, docid ∈ config.built streams ↔ docid ∈ config.built streams')
    (hsame : ∀ docid, (builderOf (config.built streams) docid).Same
      (builderOf (config.built streams') docid)) :
    (config.fuse order streams).map FusedResult.docid =
      (config.fuse order' streams').map FusedResult.docid := by
  have hsorted : ∀ (order : HashOrder) (streams : List (RankedStream exactArithmetic)),
      ((config.fuse order streams).map FusedResult.docid).Pairwise fun d d' =>
        (builderOf (config.built streams) d).Before (builderOf (config.built streams) d') := by
    intro order streams
    have h := config.fuse_sorted order streams
    rw [config.fuse_eq_map order streams] at h
    exact List.pairwise_map.mp h
  have hkeys : (config.built streams).keys.Perm (config.built streams').keys :=
    (List.perm_ext_iff_of_nodup (AList.keys_nodup _) (AList.keys_nodup _)).mpr hdocs
  refine List.Perm.eq_of_pairwise (fun d d' _ _ hle hge => ?_) (hsorted order streams)
    ((hsorted order' streams').imp fun {d d'} h => ?_)
    ((config.fuse_docids order streams).trans
      (hkeys.trans (config.fuse_docids order' streams').symm))
  · have h := FusedResult.Before.antisymm hle hge
    rwa [config.docid_builderOf, config.docid_builderOf] at h
  · exact FusedResult.Same.before
      ⟨(hsame d).docid.symm, (hsame d).score.symm, fun name => ((hsame d).sources name).symm⟩
      ⟨(hsame d').docid.symm, (hsame d').score.symm, fun name => ((hsame d').sources name).symm⟩ h

theorem fuse_order (order order' : HashOrder) (streams : List (RankedStream exactArithmetic)) :
    config.fuse order streams = config.fuse order' streams := by
  rw [config.fuse_eq_map order streams, config.fuse_eq_map order' streams,
    config.fuse_docids_eq order order' (fun _ => Iff.rfl) fun _ => ⟨rfl, rfl, fun _ => rfl⟩]

def Separate (streams : List (RankedStream exactArithmetic)) : Prop :=
  streams.Pairwise fun stream other => stream.name = other.name →
    ∀ docid, stream.place docid = none ∨ other.place docid = none

theorem placeIn_of_perm {streams streams' : List (RankedStream exactArithmetic)}
    (h : streams.Perm streams') (hseparate : Separate streams) (docid name : String) :
    placeIn streams docid name = placeIn streams' docid name := by
  refine FirstMatch.findSome?_of_perm h (hseparate.imp fun {stream other} hone => ?_)
  by_cases hname : stream.name = name
  · by_cases hother : other.name = name
    · rw [if_pos hname, if_pos hother, Option.map_eq_none_iff, Option.map_eq_none_iff]
      exact hone (hname.trans hother.symm) docid
    · exact .inr (if_neg hother)
  · exact .inl (if_neg hname)

theorem scoreIn_of_perm {streams streams' : List (RankedStream exactArithmetic)}
    (h : streams.Perm streams') (hseparate : Separate streams) (docid : String) :
    config.scoreIn streams docid = config.scoreIn streams' docid := by
  have hnames : (streams.map RankedStream.name).toFinset =
      (streams'.map RankedStream.name).toFinset :=
    List.toFinset_eq_of_perm _ _ (h.map _)
  rw [scoreIn, scoreIn, hnames]
  exact Finset.sum_congr rfl fun name _ => by rw [placeIn_of_perm h hseparate]

def streamShare (docid : String) (stream : RankedStream exactArithmetic) : Rat :=
  ((stream.place docid).map fun place => config.share stream place.1).getD 0

theorem scoreIn_of_separate {streams : List (RankedStream exactArithmetic)}
    (hseparate : Separate streams) (docid : String) :
    config.scoreIn streams docid = (streams.map (config.streamShare docid)).sum := by
  induction streams using List.reverseRecOn with
  | nil => rfl
  | append_singleton streams stream ih =>
      obtain ⟨hbefore, -, hlast⟩ := List.pairwise_append.mp hseparate
      rw [List.map_append, List.sum_append, ← ih hbefore, List.map_cons, List.map_nil,
        List.sum_singleton, streamShare]
      cases hplace : stream.place docid with
      | none =>
          rw [Option.map_none, Option.getD_none, add_zero]
          refine config.scoreIn_append_of_same stream fun name => ?_
          rw [placeIn_append, hplace, Option.map_none, ite_self, Option.or_none]
      | some place =>
          refine config.scoreIn_append_of_new stream hplace ?_
          refine List.findSome?_eq_none_iff.mpr fun other hother => ?_
          by_cases hname : other.name = stream.name
          · rcases hlast other hother stream List.mem_cons_self hname docid with h | h
            · rw [h, Option.map_none, ite_self]
            · rw [hplace] at h
              cases h
          · exact if_neg hname

/-- Each document is in the ranking once, with the shares of the names that rank it, in an order
that only the streams determine. Streams that are separate add up in any order. -/
theorem fuse_spec (order : HashOrder) (streams : List (RankedStream exactArithmetic)) :
    ((config.fuse order streams).map FusedResult.docid).Nodup ∧
      (∀ docid, docid ∈ (config.fuse order streams).map FusedResult.docid ↔
        ∃ stream ∈ streams, docid ∈ stream.results.map Prod.fst) ∧
      (∀ result ∈ config.fuse order streams, config.Reflects streams result.docid result) ∧
      (config.fuse order streams).Pairwise FusedResult.Before ∧
      (∀ limit, ∀ kept ∈ (config.fuse order streams).take limit,
        ∀ dropped ∈ (config.fuse order streams).drop limit, kept.Before dropped) ∧
      (∀ order', config.fuse order' streams = config.fuse order streams) ∧
      (Separate streams →
        (∀ result ∈ config.fuse order streams,
          result.rrfScore = (streams.map (config.streamShare result.docid)).sum) ∧
        ∀ (order' : HashOrder) (streams' : List (RankedStream exactArithmetic)),
          streams.Perm streams' →
          List.Forall₂ FusedResult.Same (config.fuse order streams)
            (config.fuse order' streams')) := by
  have hdocids := config.fuse_docids order streams
  have hsorted := config.fuse_sorted order streams
  have hreflects : ∀ result ∈ config.fuse order streams,
      config.Reflects streams result.docid result := by
    intro result hresult
    obtain ⟨docid, -, rfl⟩ :=
      List.mem_map.mp ((config.fuse_perm order streams).mem_iff.mp hresult)
    rw [config.docid_builderOf]
    exact config.reflects_foldl streams docid
  refine ⟨hdocids.nodup_iff.mpr (AList.keys_nodup _), fun docid => ?_, hreflects, hsorted,
    fun limit kept hkept dropped hdropped => ?_, fun order' => config.fuse_order order' order _,
    fun hseparate => ⟨fun result hresult => ?_, fun order' streams' hperm => ?_⟩⟩
  · exact hdocids.mem_iff.trans config.mem_built
  · rw [← List.take_append_drop limit (config.fuse order streams)] at hsorted
    exact (List.pairwise_append.mp hsorted).2.2 kept hkept dropped hdropped
  · rw [(hreflects result hresult).score, config.scoreIn_of_separate hseparate]
  · have hdocs : ∀ docid, docid ∈ config.built streams ↔ docid ∈ config.built streams' := by
      intro docid
      rw [config.mem_built, config.mem_built]
      exact exists_congr fun stream => and_congr_left fun _ => hperm.mem_iff
    have hsame : ∀ docid, (builderOf (config.built streams) docid).Same
        (builderOf (config.built streams') docid) := fun docid =>
      Reflects.same config (config.reflects_foldl streams docid)
        (config.reflects_foldl streams' docid) (config.scoreIn_of_perm hperm hseparate docid)
        (placeIn_of_perm hperm hseparate docid)
    rw [config.fuse_eq_map order streams, config.fuse_eq_map order' streams',
      config.fuse_docids_eq order order' hdocs hsame, List.forall₂_map_left_iff,
      List.forall₂_map_right_iff]
    exact List.forall₂_same.mpr fun docid _ => hsame docid

def namesakes (first second : Rat) : List (RankedStream exactArithmetic) :=
  [{ name := "vector", weight := first, results := [("doc", 1)] },
    { name := "vector", weight := second, results := [("doc", 1)] }]

/-- Only the first of them counts. -/
theorem fuse_counts_first_namesake :
    let config : RrfConfig exactArithmetic := { k := 1, bm25Weight := 1, vectorWeight := 1 }
    (config.fuse HashOrder.same (namesakes 1 2)).map FusedResult.rrfScore = [1 / 2] ∧
      (config.fuse HashOrder.same (namesakes 2 1)).map FusedResult.rrfScore = [1] ∧
      ((namesakes 1 2).map (config.streamShare "doc")).sum = 3 / 2 := by
  decide +kernel

end RrfConfig

end BenShu.Engram
