import Mathlib.Data.List.Basic

/-!
# Loops that read lists

A read past the end of a list is `none`. A loop of reads that do not depend on what was
computed before fails exactly when one of its positions is past the end.
-/

namespace BenShu.CheckedReads

variable {α β σ : Type} {xs : List α}

def slice (xs : List α) (start width : Nat) : Option (List α) :=
  if start + width ≤ xs.length then some ((xs.drop start).take width) else none

theorem slice_eq_none_iff {start width : Nat} :
    slice xs start width = none ↔ xs.length < start + width := by
  unfold slice
  split
  · simp only [reduceCtorEq, false_iff]
    omega
  · simp only [true_iff]
    omega

theorem bind_eq_none_iff {o : Option α} {f : α → Option β} :
    o.bind f = none ↔ o = none ∨ ∃ a, o = some a ∧ f a = none := by
  cases o with
  | none => simp
  | some a => simp

theorem mapM_eq_none_iff {f : α → Option β} : xs.mapM f = none ↔ ∃ x ∈ xs, f x = none := by
  induction xs with
  | nil => simp
  | cons x xs ih =>
      rw [List.mapM_cons]
      cases hx : f x with
      | none => simp [hx]
      | some y =>
          cases hxs : xs.mapM f with
          | none => simpa [hx] using ih.mp hxs
          | some ys =>
              have hnone : ¬∃ x ∈ xs, f x = none := fun h => by simp [ih.mpr h] at hxs
              simpa [hx] using hnone

theorem length_of_mapM {f : α → Option β} {ys : List β} (h : xs.mapM f = some ys) :
    ys.length = xs.length := by
  induction xs generalizing ys with
  | nil =>
      cases h
      rfl
  | cons x xs ih =>
      rw [List.mapM_cons] at h
      obtain ⟨y, -, hrest⟩ := Option.bind_eq_some_iff.mp h
      obtain ⟨rest, hxs, heq⟩ := Option.bind_eq_some_iff.mp hrest
      cases heq
      rw [List.length_cons, List.length_cons, ih hxs]

theorem foldlM_eq_none_iff {step : σ → α → Option σ} {P : α → Prop}
    (hstep : ∀ s, ∀ x ∈ xs, step s x = none ↔ P x) (s : σ) :
    xs.foldlM step s = none ↔ ∃ x ∈ xs, P x := by
  induction xs generalizing s with
  | nil => simp
  | cons x xs ih =>
      have hrest := ih fun s y hy => hstep s y (List.mem_cons_of_mem _ hy)
      rw [List.foldlM_cons, List.exists_mem_cons_iff]
      cases hx : step s x with
      | none =>
          have hout : P x := (hstep s x List.mem_cons_self).mp hx
          exact ⟨fun _ => .inl hout, fun _ => rfl⟩
      | some s' =>
          have hin : ¬P x := fun h => by
            rw [(hstep s x List.mem_cons_self).mpr h] at hx
            cases hx
          rw [or_iff_right hin]
          exact hrest s'

theorem foldlM_succeeds {step : σ → α → Option σ} {P : σ → Prop} {s : σ}
    (hstep : ∀ s, ∀ x ∈ xs, P s → ∃ s', step s x = some s' ∧ P s') (h : P s) :
    ∃ s', xs.foldlM step s = some s' ∧ P s' := by
  induction xs generalizing s with
  | nil => exact ⟨s, rfl, h⟩
  | cons x xs ih =>
      obtain ⟨s', hx, hs'⟩ := hstep s x List.mem_cons_self h
      obtain ⟨last, hxs, hlast⟩ := ih (fun s y hy => hstep s y (List.mem_cons_of_mem _ hy)) hs'
      refine ⟨last, ?_, hlast⟩
      rw [List.foldlM_cons, hx]
      exact hxs

end BenShu.CheckedReads
