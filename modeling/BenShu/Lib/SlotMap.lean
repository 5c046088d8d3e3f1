import Mathlib.Data.Finset.Basic
import Mathlib.Data.Finset.Range
import Mathlib.Data.List.Basic

/-!
# Slots that are renamed when they are retired

Names get slots in the order they arrive and no slot is used twice. A name that is
retired has its slots renamed to dead marks and recorded as tombstones.
-/

namespace SlotMap

variable {α : Type}

/-- The tombstones are the dead slots, and the live names have one slot each. -/
structure Tracks (dead : α → Prop) (slots : List α) (tombstones : Finset Nat)
    (live : α → Prop) : Prop where
  tombstone_iff : ∀ i : Nat, i ∈ tombstones ↔ ∃ name, slots[i]? = some name ∧ dead name
  live_iff : ∀ name, live name ↔ name ∈ slots ∧ ¬dead name
  unique : ∀ (i j : Nat) name, slots[i]? = some name → slots[j]? = some name → ¬dead name → i = j

variable {dead : α → Prop} {slots : List α} {tombstones : Finset Nat} {live live' : α → Prop}
  {mark : Nat → α → α} {name other : α}

theorem Tracks.nil : Tracks dead ([] : List α) ∅ fun _ => False where
  tombstone_iff := by simp
  live_iff := by simp
  unique := by simp

theorem Tracks.congr (h : Tracks dead slots tombstones live) (hlive : ∀ name, live' name ↔ live name) :
    Tracks dead slots tombstones live' where
  tombstone_iff := h.tombstone_iff
  live_iff := fun name => (hlive name).trans (h.live_iff name)
  unique := h.unique

theorem Tracks.slot (h : Tracks dead slots tombstones live) (hlive : live name) :
    ∃ i, slots[i]? = some name ∧ i ∉ tombstones := by
  obtain ⟨hmem, hdead⟩ := (h.live_iff name).mp hlive
  obtain ⟨i, hi, hslot⟩ := List.getElem_of_mem hmem
  have hget : slots[i]? = some name := by
    rw [List.getElem?_eq_getElem hi, hslot]
  refine ⟨i, hget, fun htomb => ?_⟩
  obtain ⟨other, hother, hotherDead⟩ := (h.tombstone_iff i).mp htomb
  rw [hget] at hother
  cases hother
  exact hdead hotherDead

theorem Tracks.live_of_slot (h : Tracks dead slots tombstones live) {i : Nat}
    (hslot : slots[i]? = some name) (hdead : ¬dead name) : live name :=
  (h.live_iff name).mpr ⟨List.mem_of_getElem? hslot, hdead⟩

theorem Tracks.push (h : Tracks dead slots tombstones live) (hname : ¬dead name)
    (hfresh : ¬live name) :
    Tracks dead (slots ++ [name]) tombstones fun other => live other ∨ other = name := by
  have hget : ∀ i, (slots ++ [name])[i]? =
      if i = slots.length then some name else slots[i]? := by
    intro i
    by_cases hi : i = slots.length
    · simp [hi]
    · rw [if_neg hi, List.getElem?_append]
      split
      · rfl
      · rw [List.getElem?_eq_none (by simp; omega), List.getElem?_eq_none (by omega)]
  have hnew : ∀ i other, (slots ++ [name])[i]? = some other → ¬dead other →
      (i = slots.length ∧ other = name) ∨ (slots[i]? = some other ∧ other ≠ name) := by
    intro i other hi hdead
    rw [hget] at hi
    by_cases hlast : i = slots.length
    · rw [if_pos hlast] at hi
      exact .inl ⟨hlast, (Option.some.inj hi).symm⟩
    · rw [if_neg hlast] at hi
      refine .inr ⟨hi, fun heq => ?_⟩
      exact hfresh (heq ▸ h.live_of_slot hi hdead)
  refine ⟨?_, ?_, ?_⟩
  · intro i
    rw [h.tombstone_iff, hget]
    by_cases hlast : i = slots.length
    · rw [if_pos hlast, List.getElem?_eq_none (by omega)]
      simp [hname]
    · rw [if_neg hlast]
  · intro other
    rw [h.live_iff, List.mem_append, List.mem_singleton]
    by_cases heq : other = name
    · simp [heq, hname]
    · simp [heq]
  · intro i j other hi hj hdead
    rcases hnew i other hi hdead with ⟨hi, heq⟩ | ⟨hi, hne⟩
    · rcases hnew j other hj hdead with ⟨hj, -⟩ | ⟨-, hne⟩
      · rw [hi, hj]
      · exact absurd heq hne
    · rcases hnew j other hj hdead with ⟨-, heq⟩ | ⟨hj, -⟩
      · exact absurd heq hne
      · exact h.unique i j other hi hj hdead

/-! ## Retirement -/

variable [DecidableEq α]

def positions (name : α) (slots : List α) : Finset Nat :=
  (Finset.range slots.length).filter fun i => slots[i]? = some name

def retire (mark : Nat → α → α) (name : α) (slots : List α) : List α :=
  slots.mapIdx fun i other => if other = name then mark i name else other

theorem mem_positions {i : Nat} : i ∈ positions name slots ↔ slots[i]? = some name := by
  unfold positions
  rw [Finset.mem_filter, Finset.mem_range]
  constructor
  · intro h
    exact h.2
  · intro h
    exact ⟨(List.getElem?_eq_some_iff.mp h).1, h⟩

theorem getElem?_retire (i : Nat) : (retire mark name slots)[i]? =
    slots[i]?.map fun other => if other = name then mark i name else other := by
  rw [retire, List.getElem?_mapIdx]

theorem length_retire : (retire mark name slots).length = slots.length := List.length_mapIdx

theorem getElem?_retire_alive (dead : α → Prop) (hmark : ∀ i, dead (mark i name))
    (hother : ¬dead other) {i : Nat} :
    (retire mark name slots)[i]? = some other ↔ slots[i]? = some other ∧ other ≠ name := by
  rw [getElem?_retire]
  cases hslot : slots[i]? with
  | none => simp
  | some slot =>
      rw [Option.map_some, Option.some.injEq, Option.some.injEq]
      by_cases h : slot = name
      · rw [if_pos h]
        constructor
        · intro heq
          exact absurd (hmark i) (heq ▸ hother)
        · intro hpair
          exact absurd (hpair.1.symm.trans h) hpair.2
      · rw [if_neg h]
        constructor
        · intro heq
          exact ⟨heq, heq ▸ h⟩
        · intro hpair
          exact hpair.1

theorem Tracks.retire (h : Tracks dead slots tombstones live) (hmark : ∀ i, dead (mark i name)) :
    Tracks dead (retire mark name slots) (tombstones ∪ positions name slots)
      fun other => live other ∧ other ≠ name where
  tombstone_iff := by
    intro i
    rw [Finset.mem_union, h.tombstone_iff, mem_positions, getElem?_retire]
    cases hslot : slots[i]? with
    | none => simp
    | some slot =>
        by_cases heq : slot = name
        · simp [heq, hmark i]
        · simp [heq]
  live_iff := by
    intro other
    rw [h.live_iff]
    constructor
    · intro hother
      rcases hother with ⟨⟨hmem, hdead⟩, hne⟩
      obtain ⟨i, hi, hslot⟩ := List.getElem_of_mem hmem
      have hget : (SlotMap.retire mark name slots)[i]? = some other := by
        rw [getElem?_retire_alive dead hmark hdead, List.getElem?_eq_getElem hi, hslot]
        exact ⟨rfl, hne⟩
      exact ⟨List.mem_of_getElem? hget, hdead⟩
    · intro hother
      rcases hother with ⟨hmem, hdead⟩
      obtain ⟨i, hi, hslot⟩ := List.getElem_of_mem hmem
      have hget : (SlotMap.retire mark name slots)[i]? = some other := by
        rw [List.getElem?_eq_getElem hi, hslot]
      obtain ⟨hbefore, hne⟩ := (getElem?_retire_alive dead hmark hdead).mp hget
      exact ⟨⟨List.mem_of_getElem? hbefore, hdead⟩, hne⟩
  unique := by
    intro i j other hi hj hdead
    rw [getElem?_retire_alive dead hmark hdead] at hi hj
    exact h.unique i j other hi.1 hj.1 hdead

end SlotMap
