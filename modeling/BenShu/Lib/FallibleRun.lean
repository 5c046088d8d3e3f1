import BenShu.Lib.History
import Mathlib.Data.List.Forall2

/-!
# Runs of operations that can fail

A run applies operations one after the other and stops at the first failure. A
property holds throughout a run if every prefix succeeds and ends in a state
that has it.
-/

namespace FallibleRun

variable {σ ι ε : Type} {step : σ → ι → Except ε σ} {start : σ} {ops : List ι}
  {Inv Exact : σ → Prop} {good : σ → ι → Prop}

def Throughout (step : σ → ι → Except ε σ) (start : σ) (ops : List ι) (P : σ → Prop) : Prop :=
  ∀ pre, pre <+: ops → ∃ s, pre.foldlM step start = .ok s ∧ P s

/-- Every operation meets a condition on the state it is applied to. -/
def StepsMeet (step : σ → ι → Except ε σ) (start : σ) (ops : List ι)
    (good : σ → ι → Prop) : Prop :=
  History.Preceded (fun pre op => ∀ s, pre.foldlM step start = .ok s → good s op) ops

theorem bind_eq_ok {α β : Type} {first : Except ε α} {next : α → Except ε β} {b : β} :
    (first >>= next) = .ok b ↔ ∃ a, first = .ok a ∧ next a = .ok b := by
  cases first with
  | error failure =>
      constructor
      · intro h
        cases h
      · intro h
        rcases h with ⟨a, ha, -⟩
        cases ha
  | ok a =>
      constructor
      · intro h
        exact ⟨a, rfl, h⟩
      · intro h
        rcases h with ⟨a', ha, hnext⟩
        cases ha
        exact hnext

theorem foldlM_snoc {s s' : σ} {op : ι} (hrun : ops.foldlM step start = .ok s)
    (hstep : step s op = .ok s') : (ops ++ [op]).foldlM step start = .ok s' := by
  rw [List.foldlM_append, hrun]
  show ([op].foldlM step s) = .ok s'
  rw [List.foldlM_cons, hstep]
  rfl

theorem Throughout.last {P : σ → Prop} (h : Throughout step start ops P) :
    ∃ s, ops.foldlM step start = .ok s ∧ P s := h ops (List.prefix_refl ops)

theorem Throughout.nil {P : σ → Prop} (h : P start) : Throughout step start [] P := by
  intro pre hpre
  rw [List.prefix_nil.mp hpre]
  exact ⟨start, rfl, h⟩

theorem Throughout.snoc {P : σ → Prop} {s s' : σ} {op : ι} (h : Throughout step start ops P)
    (hrun : ops.foldlM step start = .ok s) (hstep : step s op = .ok s') (hP : P s') :
    Throughout step start (ops ++ [op]) P := by
  intro pre hpre
  rcases List.prefix_concat_iff.mp hpre with heq | hshort
  · rw [heq]
    exact ⟨s', foldlM_snoc hrun hstep, hP⟩
  · exact h pre hshort

theorem foldlM_preserves {P : σ → Prop} {s s' : σ}
    (hstep : ∀ op ∈ ops, ∀ s s', P s → step s op = .ok s' → P s') (hs : P s)
    (hrun : ops.foldlM step s = .ok s') : P s' := by
  induction ops generalizing s with
  | nil =>
      cases hrun
      exact hs
  | cons op ops ih =>
      rw [List.foldlM_cons] at hrun
      rcases bind_eq_ok.mp hrun with ⟨middle, hfirst, hrest⟩
      have hmiddle := hstep op List.mem_cons_self s middle hs hfirst
      exact ih (fun op hop => hstep op (List.mem_cons_of_mem _ hop)) hmiddle hrest

theorem foldlM_appends {α β : Type} {output : σ → List β} {R : α → β → Prop}
    {given : ι → List α} {s : σ} (Keeps : σ → Prop)
    (hstep : ∀ op ∈ ops, ∀ s, Keeps s → ∃ s' new, step s op = .ok s' ∧ Keeps s' ∧
      output s' = output s ++ new ∧ List.Forall₂ R (given op) new) (hs : Keeps s) :
    ∃ s' new, ops.foldlM step s = .ok s' ∧ Keeps s' ∧ output s' = output s ++ new ∧
      List.Forall₂ R (ops.flatMap given) new := by
  induction ops generalizing s with
  | nil => exact ⟨s, [], rfl, hs, by simp, .nil⟩
  | cons op ops ih =>
      obtain ⟨middle, first, hfirst, hmiddle, houtput, hgiven⟩ :=
        hstep op List.mem_cons_self s hs
      obtain ⟨s', rest, hrest, hs', houtput', hall⟩ :=
        ih (fun op hop => hstep op (List.mem_cons_of_mem _ hop)) hmiddle
      refine ⟨s', first ++ rest, ?_, hs', ?_, ?_⟩
      · rw [List.foldlM_cons, hfirst]
        exact hrest
      · rw [houtput', houtput, List.append_assoc]
      · rw [List.flatMap_cons]
        exact List.rel_append hgiven hall

theorem throughout_invariant (hstart : Inv start)
    (hstep : ∀ s op, Inv s → ∃ s', step s op = .ok s' ∧ Inv s') (ops : List ι) :
    Throughout step start ops Inv := by
  induction ops using List.reverseRecOn with
  | nil => exact Throughout.nil hstart
  | append_singleton ops op ih =>
      obtain ⟨s, hrun, hs⟩ := ih.last
      obtain ⟨s', hok, hs'⟩ := hstep s op hs
      exact ih.snoc hrun hok hs'

/-- If an operation keeps `Exact` exactly when it meets a condition, then `Exact`
holds throughout exactly when every operation meets it. -/
theorem throughout_iff (hstart : Inv start) (hexact : Exact start)
    (hstep : ∀ s op, Inv s →
      ∃ s', step s op = .ok s' ∧ Inv s' ∧ (Exact s → (Exact s' ↔ good s op)))
    (ops : List ι) :
    Throughout step start ops Exact ↔ StepsMeet step start ops good := by
  have hinv : ∀ ops, Throughout step start ops Inv :=
    throughout_invariant hstart fun s op hs =>
      let ⟨s', hok, hs', _⟩ := hstep s op hs
      ⟨s', hok, hs'⟩
  constructor
  · intro h pre op post heq s hrun
    obtain ⟨s₁, hrun₁, hs⟩ := (hinv pre).last
    rw [hrun] at hrun₁
    cases hrun₁
    obtain ⟨s', hok, -, hkeeps⟩ := hstep s op hs
    have hbefore : pre <+: ops := ⟨op :: post, heq.symm⟩
    have hafter : pre ++ [op] <+: ops := ⟨post, by rw [heq]; simp⟩
    obtain ⟨s₁, hrun₁, hexact₁⟩ := h pre hbefore
    obtain ⟨s₂, hrun₂, hexact₂⟩ := h (pre ++ [op]) hafter
    rw [hrun] at hrun₁
    rw [foldlM_snoc hrun hok] at hrun₂
    cases hrun₁
    cases hrun₂
    exact (hkeeps hexact₁).mp hexact₂
  · intro h
    induction ops using List.reverseRecOn with
    | nil => exact Throughout.nil hexact
    | append_singleton ops op ih =>
        have hmeets : StepsMeet step start ops good := by
          intro pre op' post heq
          exact h pre op' (post ++ [op]) (by rw [heq]; simp)
        obtain ⟨s, hrun, hs⟩ := (hinv ops).last
        obtain ⟨s', hok, -, hkeeps⟩ := hstep s op hs
        obtain ⟨s₁, hrun₁, hexact₁⟩ := (ih hmeets).last
        rw [hrun] at hrun₁
        cases hrun₁
        exact (ih hmeets).snoc hrun hok ((hkeeps hexact₁).mpr (h ops op [] rfl s hrun))

theorem stepsMeet_const (good : ι → Prop) (ops : List ι)
    (hrun : ∀ ops : List ι, ∃ s, ops.foldlM step start = .ok s) :
    StepsMeet step start ops (fun _ op => good op) ↔ ∀ op ∈ ops, good op := by
  constructor
  · intro h op hop
    obtain ⟨pre, post, heq⟩ := List.append_of_mem hop
    obtain ⟨s, hs⟩ := hrun pre
    exact h pre op post heq s hs
  · intro h pre op post heq s hs
    exact h op (by rw [heq]; simp)

end FallibleRun
