import Mathlib.Data.List.Induction

/-!
# Entries and what came before them

`Preceded R l` says that every entry of `l` stands in the relation `R` to the
entries before it.
-/

namespace History

variable {α : Type} {R : List α → α → Prop} {l l' : List α}

def Preceded (R : List α → α → Prop) (l : List α) : Prop :=
  ∀ l₁ x l₂, l = l₁ ++ x :: l₂ → R l₁ x

theorem Preceded.nil : Preceded R [] := by
  intro l₁ x l₂ h
  simp at h

theorem Preceded.snoc {x : α} (h : Preceded R l) (hx : R l x) : Preceded R (l ++ [x]) := by
  intro l₁ y l₂ heq
  rcases List.append_eq_append_iff.mp heq with ⟨m, rfl, hm⟩ | ⟨m, rfl, hm⟩
  · cases m with
    | nil =>
        obtain ⟨rfl, -⟩ := List.cons.inj hm
        rwa [List.append_nil]
    | cons z m =>
        obtain ⟨-, hm⟩ := List.cons.inj hm
        simp at hm
  · cases m with
    | nil =>
        obtain ⟨rfl, -⟩ := List.cons.inj hm
        rwa [List.append_nil] at hx
    | cons z m =>
        obtain ⟨rfl, -⟩ := List.cons.inj hm
        exact h l₁ _ m rfl

theorem Preceded.trans (h : Preceded R l) (h' : Preceded (fun l₁ x => R (l ++ l₁) x) l') :
    Preceded R (l ++ l') := by
  induction l' using List.reverseRecOn with
  | nil => rwa [List.append_nil]
  | append_singleton l' x ih =>
      rw [← List.append_assoc]
      refine (ih fun l₁ y l₂ heq => ?_).snoc (h' l' x [] rfl)
      exact h' l₁ y (l₂ ++ [x]) (by rw [heq]; simp)

theorem Preceded.append (hR : ∀ l₀ l₁ x, R l₁ x → R (l₀ ++ l₁) x) (h : Preceded R l)
    (h' : Preceded R l') : Preceded R (l ++ l') :=
  h.trans fun l₁ x l₂ heq => hR l l₁ x (h' l₁ x l₂ heq)

theorem Preceded.of_forall (h : ∀ x ∈ l, ∀ l₁, R l₁ x) : Preceded R l := by
  intro l₁ x l₂ heq
  subst heq
  exact h x (by simp) l₁

theorem last_unique {p : α → Prop} {c c' : α} {a a' : List α} (h : l ++ c :: a = l' ++ c' :: a')
    (hc : ¬p c) (hc' : ¬p c') (ha : ∀ x ∈ a, p x) (ha' : ∀ x ∈ a', p x) : c = c' := by
  rcases List.append_eq_append_iff.mp h with ⟨m, -, hm⟩ | ⟨m, -, hm⟩
  · cases m with
    | nil => exact (List.cons.inj hm).1
    | cons x m =>
        obtain ⟨-, rfl⟩ := List.cons.inj hm
        exact absurd (ha c' (by simp)) hc'
  · cases m with
    | nil => exact (List.cons.inj hm).1.symm
    | cons x m =>
        obtain ⟨-, rfl⟩ := List.cons.inj hm
        exact absurd (ha' c (by simp)) hc

/-! ## What came after an entry -/

def since (p : α → Bool) : List α → List α :=
  List.foldl (fun after x => if p x then [] else after ++ [x]) []

@[simp] theorem since_nil (p : α → Bool) : since p [] = [] := rfl

@[simp] theorem since_snoc (p : α → Bool) (l : List α) (x : α) :
    since p (l ++ [x]) = if p x then [] else since p l ++ [x] := by
  rw [since, List.foldl_append]
  rfl

/-! ## States after a history -/

/-- What holds at the start and is kept by every possible entry holds after every prefix. -/
theorem foldl_throughout {σ : Type} {step : σ → α → σ} {start : σ} {Inv : σ → Prop}
    {possible : σ → α → Prop}
    (hpossible : Preceded (fun pre x => possible (pre.foldl step start) x) l)
    (hstart : Inv start) (hstep : ∀ s x, Inv s → possible s x → Inv (step s x)) :
    ∀ pre, pre <+: l → Inv (pre.foldl step start) := by
  intro pre
  induction pre using List.reverseRecOn with
  | nil => exact fun _ => hstart
  | append_singleton pre x ih =>
      intro hpre
      have hbefore : pre <+: l := (List.prefix_append pre [x]).trans hpre
      rcases hpre with ⟨post, hpost⟩
      rw [List.foldl_append]
      exact hstep _ x (ih hbefore) (hpossible pre x post (by rw [← hpost]; simp))

/-- If a possible entry keeps `Exact` exactly when the state before it is `good` for it, then
`Exact` holds after every prefix exactly when all entries are met in good states. -/
theorem foldl_throughout_of_possible {σ : Type} {step : σ → α → σ} {start : σ}
    {Inv Exact : σ → Prop} {possible good : σ → α → Prop}
    (hpossible : Preceded (fun pre x => possible (pre.foldl step start) x) l)
    (hstart : Inv start) (hexact : Exact start)
    (hstep : ∀ s x, Inv s → possible s x →
      Inv (step s x) ∧ (Exact s → (Exact (step s x) ↔ good s x))) :
    (∀ pre, pre <+: l → Exact (pre.foldl step start)) ↔
      Preceded (fun pre x => good (pre.foldl step start) x) l := by
  have hinv : ∀ pre, pre <+: l → Inv (pre.foldl step start) :=
    foldl_throughout hpossible hstart fun s x hs hx => (hstep s x hs hx).1
  have hkeeps : ∀ pre x post, l = pre ++ x :: post → Exact (pre.foldl step start) →
      (Exact ((pre ++ [x]).foldl step start) ↔ good (pre.foldl step start) x) := by
    intro pre x post heq hbefore
    rw [List.foldl_append]
    exact (hstep _ x (hinv pre ⟨x :: post, heq.symm⟩) (hpossible pre x post heq)).2 hbefore
  constructor
  · intro h pre x post heq
    have hbefore : pre <+: l := ⟨x :: post, heq.symm⟩
    have hafter : pre ++ [x] <+: l := ⟨post, by rw [heq]; simp⟩
    exact (hkeeps pre x post heq (h pre hbefore)).mp (h _ hafter)
  · intro h pre
    induction pre using List.reverseRecOn with
    | nil => exact fun _ => hexact
    | append_singleton pre x ih =>
        intro hpre
        have hbefore : pre <+: l := (List.prefix_append pre [x]).trans hpre
        rcases hpre with ⟨post, hpost⟩
        have heq : l = pre ++ x :: post := by
          rw [← hpost]
          simp
        exact (hkeeps pre x post heq (ih hbefore)).mpr (h pre x post heq)

/-- If an entry keeps `Exact` exactly when the state before it is `good` for it, then
`Exact` holds after every prefix exactly when all entries are met in good states. -/
theorem foldl_throughout_iff {σ : Type} {step : σ → α → σ} {start : σ} {Inv Exact : σ → Prop}
    {good : σ → α → Prop} (hstart : Inv start) (hexact : Exact start)
    (hstep : ∀ x ∈ l, ∀ s, Inv s →
      Inv (step s x) ∧ (Exact s → (Exact (step s x) ↔ good s x))) :
    (∀ pre, pre <+: l → Exact (pre.foldl step start)) ↔
      Preceded (fun pre x => good (pre.foldl step start) x) l := by
  have hmem : Preceded (fun _ x => x ∈ l) l := Preceded.of_forall fun x hx _ => hx
  exact foldl_throughout_of_possible hmem hstart hexact fun s x hinv hx => hstep x hx s hinv

end History
