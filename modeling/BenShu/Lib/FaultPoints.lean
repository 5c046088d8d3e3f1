import Mathlib.Data.List.Basic

/-!
# Programs whose operations may fail

A program over a state calls operations of a store one after the other. Any one of them may
fail: then the program stops where it is. A run lists the states in which an operation may
fail, next to the answer and the state of the run in which none does.
-/

/-- `points` are the states that a failing operation leaves, in order. -/
structure FaultRun (σ ε α : Type) where
  points : List σ
  answer : Except ε α
  final : σ

def Faulty (σ ε α : Type) : Type := σ → FaultRun σ ε α

namespace Faulty

variable {σ ε α β ι : Type}

def pure (a : α) : Faulty σ ε α := fun s => ⟨[], .ok a, s⟩

def bind (p : Faulty σ ε α) (f : α → Faulty σ ε β) : Faulty σ ε β := fun s =>
  match (p s).answer with
  | .ok a =>
      let rest := f a (p s).final
      ⟨(p s).points ++ rest.points, rest.answer, rest.final⟩
  | .error e => ⟨(p s).points, .error e, (p s).final⟩

instance : Monad (Faulty σ ε) where
  pure := Faulty.pure
  bind := Faulty.bind

def update (f : σ → α × σ) : Faulty σ ε α := fun s => ⟨[], .ok (f s).1, (f s).2⟩

def call (f : σ → α × σ) : Faulty σ ε α := fun s => ⟨[s], .ok (f s).1, (f s).2⟩

def fail (e : ε) : Faulty σ ε α := fun s => ⟨[], .error e, s⟩

def attempt (f : σ → σ × Except ε α) : Faulty σ ε α := fun s => ⟨[], (f s).2, (f s).1⟩

def forEach (f : ι → Faulty σ ε Unit) : List ι → Faulty σ ε Unit
  | [] => Faulty.pure ()
  | i :: is => f i >>= fun _ => forEach f is

def outcome (p : Faulty σ ε α) (s : σ) : Except ε (α × σ) :=
  (p s).answer.map fun a => (a, (p s).final)

section

variable {p : Faulty σ ε α} {f : α → Faulty σ ε β} {s s' s'' : σ} {a : α} {b : β}
  {points points' : List σ}

@[simp] theorem outcome_pure (a : α) (s : σ) :
    outcome (Pure.pure a : Faulty σ ε α) s = .ok (a, s) := rfl

@[simp] theorem outcome_bind (p : Faulty σ ε α) (f : α → Faulty σ ε β) (s : σ) :
    outcome (p >>= f) s = (outcome p s).bind fun r => outcome (f r.1) r.2 := by
  show outcome (Faulty.bind p f) s = _
  unfold outcome Faulty.bind
  cases (p s).answer <;> rfl

@[simp] theorem outcome_update (f : σ → α × σ) (s : σ) :
    outcome (update f : Faulty σ ε α) s = .ok (f s) := rfl

@[simp] theorem outcome_call (f : σ → α × σ) (s : σ) :
    outcome (call f : Faulty σ ε α) s = .ok (f s) := rfl

@[simp] theorem outcome_fail (e : ε) (s : σ) :
    outcome (fail e : Faulty σ ε α) s = .error e := rfl

@[simp] theorem outcome_attempt (f : σ → σ × Except ε α) (s : σ) :
    outcome (attempt f) s = (f s).2.map fun a => (a, (f s).1) := rfl

theorem outcome_forEach {f : ι → Faulty σ ε Unit} {step : σ → ι → σ}
    (h : ∀ i s, outcome (f i) s = .ok ((), step s i)) (is : List ι) (s : σ) :
    outcome (forEach f is) s = .ok ((), is.foldl step s) := by
  induction is generalizing s with
  | nil => rfl
  | cons i is ih =>
      rw [forEach, outcome_bind, h]
      exact ih (step s i)

theorem mem_points_bind : s'' ∈ ((p >>= f) s).points ↔
    s'' ∈ (p s).points ∨ ∃ a s', outcome p s = .ok (a, s') ∧ s'' ∈ (f a s').points := by
  show s'' ∈ (Faulty.bind p f s).points ↔ _
  unfold Faulty.bind outcome
  cases hanswer : (p s).answer with
  | ok a => simp [Except.map]
  | error e => simp [Except.map]

/-! ## Runs with all their points -/

/-- The program answers `a` in `s'`, and these are the points of its run. -/
def RunsTo (p : Faulty σ ε α) (s : σ) (points : List σ) (a : α) (s' : σ) : Prop :=
  p s = ⟨points, .ok a, s'⟩

theorem RunsTo.pure (a : α) (s : σ) : RunsTo (Pure.pure a : Faulty σ ε α) s [] a s := rfl

theorem RunsTo.update (f : σ → α × σ) (s : σ) :
    RunsTo (Faulty.update f : Faulty σ ε α) s [] (f s).1 (f s).2 := rfl

theorem RunsTo.call (f : σ → α × σ) (s : σ) :
    RunsTo (Faulty.call f : Faulty σ ε α) s [s] (f s).1 (f s).2 := rfl

theorem RunsTo.bind (h : RunsTo p s points a s') (h' : RunsTo (f a) s' points' b s'') :
    RunsTo (p >>= f) s (points ++ points') b s'' := by
  show Faulty.bind p f s = _
  unfold RunsTo at h h'
  unfold Faulty.bind
  rw [h]
  dsimp only
  rw [h']

theorem RunsTo.bind_pure (g : α → β) (h : RunsTo p s points a s') :
    RunsTo (p >>= fun a => Pure.pure (g a)) s points (g a) s' := by
  have hbind : RunsTo (p >>= fun a => Pure.pure (g a)) s (points ++ []) (g a) s' :=
    h.bind (RunsTo.pure (g a) s')
  rwa [List.append_nil] at hbind

theorem RunsTo.update_bind {g : σ → α × σ} (h : RunsTo (f (g s).1) (g s).2 points b s') :
    RunsTo (Faulty.update g >>= f) s points b s' :=
  (RunsTo.update g s).bind h

theorem RunsTo.points_eq (h : RunsTo p s points a s') : (p s).points = points := by
  rw [h]

end

theorem RunsTo.forEach (step : σ → ι → σ) (is : List ι) (s : σ) :
    RunsTo (Faulty.forEach (fun i => (Faulty.call fun s => ((), step s i) : Faulty σ ε Unit)) is) s
      ((List.range is.length).map fun n => (is.take n).foldl step s) () (is.foldl step s) := by
  induction is generalizing s with
  | nil => rfl
  | cons i is ih =>
      have hfirst : RunsTo (Faulty.call fun s => ((), step s i) : Faulty σ ε Unit) s [s] ()
          (step s i) := RunsTo.call _ s
      have hpoints : (List.range (i :: is).length).map (fun n => ((i :: is).take n).foldl step s) =
          [s] ++ (List.range is.length).map fun n => (is.take n).foldl step (step s i) := by
        rw [List.length_cons, List.range_succ_eq_map, List.map_cons, List.map_map]
        rfl
      rw [hpoints]
      exact hfirst.bind (ih (step s i))

end Faulty
