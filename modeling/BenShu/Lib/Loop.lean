import Mathlib.Data.Nat.Basic

/-!
# Loops

A `while` loop has a bound on its turns. Where a measure falls with every turn, the bound does
not matter and the guard fails at the end.
-/

namespace BenShu

variable {σ : Type} {guard : σ → Bool} {step : σ → σ}

def whileLoop (guard : σ → Bool) (step : σ → σ) : Nat → σ → σ
  | 0, s => s
  | fuel + 1, s => if guard s then whileLoop guard step fuel (step s) else s

/-- What holds after each turn holds in the first state that the guard rejects. -/
theorem whileLoop_rule {turns fuel : Nat} {s : σ}
    (after : Nat → σ → Prop) (hfirst : after 0 s)
    (hstep : ∀ j < turns, ∀ s, after j s → guard s = true ∧ after (j + 1) (step s))
    (hstop : ∀ s, after turns s → guard s = false) (hfuel : turns ≤ fuel) :
    after turns (whileLoop guard step fuel s) := by
  induction turns generalizing fuel s after with
  | zero =>
      cases fuel with
      | zero => exact hfirst
      | succ fuel => simpa [whileLoop, hstop s hfirst] using hfirst
  | succ turns ih =>
      obtain ⟨fuel, rfl⟩ : ∃ k, fuel = k + 1 := ⟨fuel - 1, by omega⟩
      obtain ⟨hguard, hnext⟩ := hstep 0 (by omega) s hfirst
      have hrest := ih (fun j => after (j + 1)) hnext (fun j hj => hstep (j + 1) (by omega)) hstop
        (Nat.le_of_succ_le_succ hfuel)
      simpa [whileLoop, hguard] using hrest

section

variable {measure : σ → Nat}

theorem whileLoop_stops (hfalls : ∀ s, guard s = true → measure (step s) < measure s)
    (hzero : ∀ s, measure s = 0 → guard s = false) {fuel : Nat} {s : σ} (h : measure s ≤ fuel) :
    guard (whileLoop guard step fuel s) = false := by
  induction fuel generalizing s with
  | zero => exact hzero s (by omega)
  | succ fuel ih =>
      unfold whileLoop
      split
      · rename_i hguard
        have hless := hfalls s hguard
        exact ih (by omega)
      · rename_i hguard
        simpa using hguard

theorem whileLoop_fuel (hfalls : ∀ s, guard s = true → measure (step s) < measure s)
    (hzero : ∀ s, measure s = 0 → guard s = false) {fuel fuel' : Nat} {s : σ}
    (h : measure s ≤ fuel) (h' : measure s ≤ fuel') :
    whileLoop guard step fuel s = whileLoop guard step fuel' s := by
  induction fuel generalizing fuel' s with
  | zero =>
      have hguard := hzero s (by omega)
      cases fuel' with
      | zero => rfl
      | succ fuel' => simp [whileLoop, hguard]
  | succ fuel ih =>
      by_cases hguard : guard s = true
      · have hless := hfalls s hguard
        obtain ⟨fuel', rfl⟩ : ∃ k, fuel' = k + 1 := ⟨fuel' - 1, by omega⟩
        rw [whileLoop, whileLoop, if_pos hguard, if_pos hguard]
        exact ih (by omega) (by omega)
      · cases fuel' with
        | zero => simp [whileLoop, hguard]
        | succ fuel' => simp [whileLoop, hguard]

end

end BenShu
