import Mathlib.Algebra.GroupWithZero.Nat
import Mathlib.Data.List.Basic
import Mathlib.Data.List.Forall2
import Mathlib.Data.List.Sort

/-!
# Choosing from a list under a budget

A list is gone through from its end and an element is kept when it still fits. What is
kept stands in the order of the list, and what is derived from it element by element
keeps the order of whatever the elements are labelled with.
-/

namespace Selection

variable {α β : Type}

/-! ## The last element with a property -/

def lastIndex (p : α → Bool) : List α → Option Nat
  | [] => none
  | x :: xs =>
      match lastIndex p xs with
      | some i => some (i + 1)
      | none => if p x then some 0 else none

theorem lastIndex_eq_none {p : α → Bool} {l : List α} (h : ∀ x ∈ l, p x = false) :
    lastIndex p l = none := by
  induction l with
  | nil => rfl
  | cons x xs ih =>
      obtain ⟨hx, hxs⟩ := List.forall_mem_cons.mp h
      simp [lastIndex, ih hxs, hx]

theorem lastIndex_append_cons {p : α → Bool} {x : α} {post : List α} (hx : p x = true)
    (hpost : ∀ y ∈ post, p y = false) (pre : List α) :
    lastIndex p (pre ++ x :: post) = some pre.length := by
  induction pre with
  | nil => simp [lastIndex, lastIndex_eq_none hpost, hx]
  | cons y pre ih => simp [lastIndex, ih]

theorem reverse_find?_eq_some {p : α → Bool} {l : List α} {x : α} :
    l.reverse.find? p = some x ↔
      p x = true ∧ ∃ pre post, l = pre ++ x :: post ∧ ∀ y ∈ post, p y = false := by
  rw [List.find?_eq_some_iff_append]
  constructor
  · rintro ⟨hx, post, pre, hl, hpost⟩
    refine ⟨hx, pre.reverse, post.reverse, ?_, ?_⟩
    · simpa using congrArg List.reverse hl
    · simpa using hpost
  · rintro ⟨hx, pre, post, hl, hpost⟩
    refine ⟨hx, post.reverse, pre.reverse, ?_, ?_⟩
    · simp [hl]
    · simpa using hpost

/-! ## Keeping what fits -/

/-- From the end of the list; the number counts what is used up. -/
def fill (cost : α → Nat) (budget used : Nat) (l : List α) : Nat × List α :=
  l.foldr (fun x state =>
    if state.1 + cost x ≤ budget then (state.1 + cost x, x :: state.2) else state) (used, [])

section Fill

variable {cost : α → Nat} {budget used : Nat}

theorem fill_cons (x : α) (l : List α) :
    fill cost budget used (x :: l) =
      if (fill cost budget used l).1 + cost x ≤ budget then
        ((fill cost budget used l).1 + cost x, x :: (fill cost budget used l).2)
      else fill cost budget used l := rfl

theorem fill_sublist (l : List α) : List.Sublist (fill cost budget used l).2 l := by
  induction l with
  | nil => exact List.Sublist.refl []
  | cons x l ih =>
      rw [fill_cons]
      split_ifs
      · exact ih.cons_cons x
      · exact ih.cons x

theorem used_le_fill (l : List α) : used ≤ (fill cost budget used l).1 := by
  induction l with
  | nil => exact Nat.le_refl used
  | cons x l ih =>
      rw [fill_cons]
      split_ifs
      · exact Nat.le_add_right_of_le ih
      · exact ih

theorem fits_of_mem_fill {l : List α} {x : α} (h : x ∈ (fill cost budget used l).2) :
    used + cost x ≤ budget := by
  induction l with
  | nil => cases h
  | cons y l ih =>
      rw [fill_cons] at h
      split_ifs at h with hfits
      · rcases List.mem_cons.mp h with rfl | hl
        · exact Nat.le_trans (Nat.add_le_add_right (used_le_fill l) _) hfits
        · exact ih hl
      · exact ih h

theorem fill_of_nil {l : List α} (h : (fill cost budget used l).2 = []) :
    (fill cost budget used l).1 = used := by
  induction l with
  | nil => rfl
  | cons x l ih =>
      rw [fill_cons] at h ⊢
      split_ifs at h ⊢ with hfits
      exact ih h

theorem exists_mem_fill_of_fits (pre post : List α) {x : α} (h : used + cost x ≤ budget) :
    ∃ y ∈ x :: post, y ∈ (fill cost budget used (pre ++ x :: post)).2 := by
  induction pre with
  | nil =>
      rcases hpost : (fill cost budget used post).2 with _ | ⟨y, ys⟩
      · refine ⟨x, List.mem_cons_self, ?_⟩
        rw [List.nil_append, fill_cons, fill_of_nil hpost, if_pos h]
        exact List.mem_cons_self
      · have hy : y ∈ (fill cost budget used post).2 := hpost ▸ List.mem_cons_self
        refine ⟨y, List.mem_cons_of_mem x ((fill_sublist post).mem hy), ?_⟩
        rw [List.nil_append, fill_cons]
        split_ifs
        · exact List.mem_cons_of_mem x hy
        · exact hy
  | cons z pre ih =>
      obtain ⟨y, hy, hkept⟩ := ih
      refine ⟨y, hy, ?_⟩
      rw [List.cons_append, fill_cons]
      split_ifs
      · exact List.mem_cons_of_mem z hkept
      · exact hkept

theorem fill_le_budget {l : List α} (h : used ≤ budget) :
    (fill cost budget used l).1 ≤ budget := by
  induction l with
  | nil => exact h
  | cons x l ih =>
      rw [fill_cons]
      split_ifs with hfits
      · exact hfits
      · exact ih

variable (cost budget used) in
theorem fill_fst_eq (l : List α) :
    (fill cost budget used l).1 = used + ((fill cost budget used l).2.map cost).sum := by
  induction l with
  | nil => rfl
  | cons x l ih =>
      rw [fill_cons]
      split_ifs
      · simp only [List.map_cons, List.sum_cons]
        omega
      · exact ih

end Fill

/-! ## Labels -/

theorem labels_sublist {R : α → α → Prop} {label : α → Option β}
    (hlabel : ∀ x y, R x y → label x = label y) {l l' : List α} (h : List.SublistForall₂ R l l') :
    List.Sublist (l.filterMap label) (l'.filterMap label) := by
  induction h with
  | nil => exact List.nil_sublist _
  | @cons x y l l' hxy _ ih =>
      rw [List.filterMap_cons, List.filterMap_cons, hlabel x y hxy]
      cases label y with
      | none => exact ih
      | some a => exact ih.cons_cons a
  | @cons_right y l l' _ ih =>
      rw [List.filterMap_cons]
      cases label y with
      | none => exact ih
      | some a => exact ih.cons a

/-! ## The best of what is found -/

/-- What is found for the elements of a list can be sorted after it is found or before. -/
theorem forall_mem_best_iff {g : α → Option β} {r : α → α → Prop} {s : β → β → Prop}
    [DecidableRel r] [DecidableRel s]
    (hrs : ∀ a b a' b', g a = some b → g a' = some b' → (r a a' ↔ s b b')) (l : List α) (n : Nat)
    (P : β → Prop) :
    (∀ b ∈ ((l.filterMap g).insertionSort s).take n, P b) ↔
      ∀ a ∈ ((l.filter fun a => (g a).isSome).insertionSort r).take n,
        ∀ b, g a = some b → P b := by
  set pairs := l.filterMap fun a => (g a).map fun b => (a, b) with hdef
  have hfst : pairs.map Prod.fst = l.filter fun a => (g a).isSome := by
    rw [hdef, List.map_filterMap, ← List.filterMap_eq_filter]
    refine List.filterMap_congr fun a _ => ?_
    rcases hga : g a with _ | b <;> simp [Option.guard, hga]
  have hsnd : pairs.map Prod.snd = l.filterMap g := by
    rw [hdef, List.map_filterMap]
    refine List.filterMap_congr fun a _ => ?_
    rcases g a with _ | b <;> rfl
  have hpairs : ∀ pair ∈ pairs, g pair.1 = some pair.2 := by
    intro pair hpair
    obtain ⟨a, -, hga⟩ := List.mem_filterMap.mp hpair
    obtain ⟨b, hb, rfl⟩ := Option.map_eq_some_iff.mp hga
    exact hb
  have hkeys := List.map_insertionSort (fun pair pair' : α × β => s pair.2 pair'.2) r Prod.fst
    pairs fun pair hpair pair' hpair' =>
      (hrs _ _ _ _ (hpairs pair hpair) (hpairs pair' hpair')).symm
  have hfound := List.map_insertionSort (fun pair pair' : α × β => s pair.2 pair'.2) s Prod.snd
    pairs fun _ _ _ _ => Iff.rfl
  rw [hfst] at hkeys
  rw [hsnd] at hfound
  rw [← hkeys, ← hfound, ← List.map_take, ← List.map_take, List.forall_mem_map, List.forall_mem_map]
  refine forall₂_congr fun pair hpair => ?_
  have hmem := (List.mem_insertionSort _).mp (List.mem_of_mem_take hpair)
  rw [hpairs pair hmem]
  simp

end Selection
