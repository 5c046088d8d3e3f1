import Mathlib.Logic.Function.Basic

/-!
# Items that stand for others

A key has an item or none, and a mark or none. A key with both covers the items that
are its own and those its mark is near. In a covered store no mark is of another item
than its key's, and an item without a mark is covered by another key.
-/

namespace Coverage

variable {κ α μ : Type}

@[ext]
structure Store (κ α μ : Type) where
  item : κ → Option α
  mark : κ → Option μ

section

variable (of near : α → μ → Prop)

def Covers (s : Store κ α μ) (k : κ) (a : α) : Prop :=
  ∃ b m, s.item k = some b ∧ s.mark k = some m ∧ (b = a ∨ near a m)

structure Covered (s : Store κ α μ) : Prop where
  own : ∀ k a m, s.item k = some a → s.mark k = some m → of a m
  covered : ∀ k a, s.item k = some a →
    (∃ m, s.mark k = some m ∧ of a m) ∨ ∃ k', k' ≠ k ∧ Covers near s k' a

/-- What a covered store needs for a new item and mark under a key: the mark is of the
item, an item without a mark is covered by another key, and no other item loses the
last key that covers it. -/
structure Admits (s : Store κ α μ) (k : κ) (item : Option α) (mark : Option μ) : Prop where
  own : ∀ a m, item = some a → mark = some m → of a m
  backed : ∀ a, item = some a → mark = none → ∃ k', k' ≠ k ∧ Covers near s k' a
  spare : ∀ k' a, k' ≠ k → s.item k' = some a → s.mark k' = none →
    (∃ b m, item = some b ∧ mark = some m ∧ (b = a ∨ near a m)) ∨
      ∃ k'', k'' ≠ k ∧ k'' ≠ k' ∧ Covers near s k'' a

end

variable [DecidableEq κ] {of near : α → μ → Prop} {s : Store κ α μ} {k k' : κ} {a : α}
  {item : Option α} {mark : Option μ}

def Store.set (s : Store κ α μ) (k : κ) (item : Option α) (mark : Option μ) : Store κ α μ where
  item := Function.update s.item k item
  mark := Function.update s.mark k mark

@[simp] theorem Store.item_set_self : (s.set k item mark).item k = item := by
  simp [Store.set]

@[simp] theorem Store.mark_set_self : (s.set k item mark).mark k = mark := by
  simp [Store.set]

theorem Store.item_set (s : Store κ α μ) (k k' : κ) (item : Option α) (mark : Option μ) :
    (s.set k item mark).item k' = if k' = k then item else s.item k' :=
  Function.update_apply s.item k item k'

theorem Store.mark_set (s : Store κ α μ) (k k' : κ) (item : Option α) (mark : Option μ) :
    (s.set k item mark).mark k' = if k' = k then mark else s.mark k' :=
  Function.update_apply s.mark k mark k'

theorem Store.item_set_of_ne (h : k' ≠ k) : (s.set k item mark).item k' = s.item k' := by
  simp [Store.set, h]

theorem Store.mark_set_of_ne (h : k' ≠ k) : (s.set k item mark).mark k' = s.mark k' := by
  simp [Store.set, h]

theorem Store.set_set {item' : Option α} {mark' : Option μ} :
    (s.set k item mark).set k item' mark' = s.set k item' mark' := by
  unfold Store.set
  rw [Function.update_idem, Function.update_idem]

theorem Store.set_self : s.set k (s.item k) (s.mark k) = s := by
  unfold Store.set
  rw [Function.update_eq_self, Function.update_eq_self]

theorem covers_set_self : Covers near (s.set k item mark) k a ↔
    ∃ b m, item = some b ∧ mark = some m ∧ (b = a ∨ near a m) := by
  unfold Covers
  rw [Store.item_set_self, Store.mark_set_self]

theorem covers_set_of_ne (h : k' ≠ k) :
    Covers near (s.set k item mark) k' a ↔ Covers near s k' a := by
  unfold Covers
  rw [Store.item_set_of_ne h, Store.mark_set_of_ne h]

theorem covered_set_iff (h : Covered of near s) :
    Covered of near (s.set k item mark) ↔ Admits of near s k item mark := by
  constructor
  · intro hset
    refine ⟨?_, ?_, ?_⟩
    · intro a m hitem hmark
      exact hset.own k a m (by rw [Store.item_set_self, hitem]) (by rw [Store.mark_set_self, hmark])
    · intro a hitem hmark
      rcases hset.covered k a (by rw [Store.item_set_self, hitem]) with ⟨m, hm, -⟩ | hother
      · rw [Store.mark_set_self, hmark] at hm
        cases hm
      · rcases hother with ⟨k', hne, hcovers⟩
        exact ⟨k', hne, (covers_set_of_ne hne).mp hcovers⟩
    · intro k' a hne hitem hmark
      rw [← Store.item_set_of_ne hne] at hitem
      rcases hset.covered k' a hitem with ⟨m, hm, -⟩ | hother
      · rw [Store.mark_set_of_ne hne, hmark] at hm
        cases hm
      · rcases hother with ⟨k'', hne', hcovers⟩
        by_cases hkey : k'' = k
        · rw [hkey] at hcovers
          exact .inl (covers_set_self.mp hcovers)
        · exact .inr ⟨k'', hkey, hne', (covers_set_of_ne hkey).mp hcovers⟩
  · intro hadmits
    refine ⟨?_, ?_⟩
    · intro k' a m hitem hmark
      by_cases hkey : k' = k
      · rw [hkey, Store.item_set_self] at hitem
        rw [hkey, Store.mark_set_self] at hmark
        exact hadmits.own a m hitem hmark
      · rw [Store.item_set_of_ne hkey] at hitem
        rw [Store.mark_set_of_ne hkey] at hmark
        exact h.own k' a m hitem hmark
    · intro k' a hitem
      by_cases hkey : k' = k
      · rw [hkey, Store.item_set_self] at hitem
        rw [hkey, Store.mark_set_self]
        cases hmark : mark with
        | some m => exact .inl ⟨m, rfl, hadmits.own a m hitem hmark⟩
        | none =>
            obtain ⟨k'', hne, hcovers⟩ := hadmits.backed a hitem hmark
            rw [← hmark]
            exact .inr ⟨k'', hne, (covers_set_of_ne hne).mpr hcovers⟩
      · rw [Store.item_set_of_ne hkey] at hitem
        rw [Store.mark_set_of_ne hkey]
        cases hmark : s.mark k' with
        | some m => exact .inl ⟨m, rfl, h.own k' a m hitem hmark⟩
        | none =>
            rcases hadmits.spare k' a hkey hitem hmark with hnew | ⟨k'', hne, hne', hcovers⟩
            · exact .inr ⟨k, fun heq => hkey heq.symm, covers_set_self.mpr hnew⟩
            · exact .inr ⟨k'', hne', (covers_set_of_ne hne).mpr hcovers⟩

end Coverage
