import Mathlib.Data.List.Infix
import Mathlib.Data.List.Induction

/-!
# What a run leaves as it was

A view of the state is unchanged along a run when it is the same after every part of it.
-/

namespace Frame

variable {σ ι κ : Type} {step : σ → ι → σ} {view : σ → κ} {quiet : σ → ι → Prop}

def Unchanged (step : σ → ι → σ) (view : σ → κ) (s : σ) (inputs : List ι) : Prop :=
  ∀ done, done <+: inputs → view (done.foldl step s) = view s

/-- A step is quiet exactly when it leaves the view as it was, and states with the same view
are quiet at the same inputs. -/
structure Quiets (step : σ → ι → σ) (view : σ → κ) (quiet : σ → ι → Prop) : Prop where
  step_iff : ∀ s i, view (step s i) = view s ↔ quiet s i
  congr : ∀ s s' i, view s = view s' → quiet s i → quiet s' i

theorem Quiets.foldl (h : Quiets step view quiet) {s : σ} {inputs : List ι}
    (hquiet : ∀ i ∈ inputs, quiet s i) : view (inputs.foldl step s) = view s := by
  induction inputs using List.reverseRecOn with
  | nil => rfl
  | append_singleton inputs i ih =>
      have hbefore := ih fun j hj => hquiet j (List.mem_append_left _ hj)
      have hlast := h.congr s _ i hbefore.symm (hquiet i (by simp))
      rw [List.foldl_append, List.foldl_cons, List.foldl_nil]
      exact ((h.step_iff _ i).mpr hlast).trans hbefore

theorem Quiets.unchanged_iff (h : Quiets step view quiet) (s : σ) (inputs : List ι) :
    Unchanged step view s inputs ↔ ∀ i ∈ inputs, quiet s i := by
  constructor
  · intro hunchanged i hi
    obtain ⟨before, after, rfl⟩ := List.append_of_mem hi
    have hbefore := hunchanged before (List.prefix_append _ _)
    have hafter := hunchanged (before ++ [i]) ⟨after, by simp⟩
    rw [List.foldl_append, List.foldl_cons, List.foldl_nil] at hafter
    exact h.congr _ s i hbefore ((h.step_iff _ i).mp (hafter.trans hbefore.symm))
  · rintro hquiet done ⟨rest, rfl⟩
    exact h.foldl fun i hi => hquiet i (List.mem_append_left _ hi)

theorem Quiets.prod {κ' : Type} {view' : σ → κ'} {quiet' : σ → ι → Prop}
    (h : Quiets step view quiet) (hstep : ∀ s i, view' (step s i) = view' s ↔ quiet' s i)
    (hcongr : ∀ s s' i, view s = view s' → view' s = view' s' → quiet' s i → quiet' s' i) :
    Quiets step (fun s => (view s, view' s)) fun s i => quiet s i ∧ quiet' s i where
  step_iff s i := by rw [Prod.mk.injEq, h.step_iff, hstep]
  congr s s' i hview hquiet := by
    rw [Prod.mk.injEq] at hview
    exact ⟨h.congr s s' i hview.1 hquiet.1, hcongr s s' i hview.1 hview.2 hquiet.2⟩

end Frame
