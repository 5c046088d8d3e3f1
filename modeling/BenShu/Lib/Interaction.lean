import Mathlib.Data.List.Basic

/-!
# Finite interaction programs and their traces

A program is a tree of typed requests to its surroundings. `Runs p t a` says
that `p` may issue the requests of `t`, in order and with the answers recorded
in `t`, and return `a`. No answer is excluded, so a statement about every trace
is a statement about every behaviour of the surroundings.
-/

namespace Interaction

inductive Prog (Op : Type) (Ans : Op → Type) (α : Type) where
  | pure (value : α)
  | request (o : Op) (next : Ans o → Prog Op Ans α)

variable {Op Op' : Type} {Ans : Op → Type} {Ans' : Op' → Type} {α β σ : Type}

/-- One request together with the answer it was given. -/
structure Event (Op : Type) (Ans : Op → Type) where
  op : Op
  answer : Ans op

abbrev Trace (Op : Type) (Ans : Op → Type) := List (Event Op Ans)

namespace Prog

def bind : Prog Op Ans α → (α → Prog Op Ans β) → Prog Op Ans β
  | .pure value, f => f value
  | .request o next, f => .request o fun answer => (next answer).bind f

instance : Monad (Prog Op Ans) where
  pure := .pure
  bind := bind

def perform (o : Op) : Prog Op Ans (Ans o) := .request o .pure

/-- Go on with the value of a program that may have failed. -/
def andThen {ε : Type} (p : Prog Op Ans (Except ε α)) (f : α → Prog Op Ans (Except ε β)) :
    Prog Op Ans (Except ε β) :=
  p >>= fun
    | .error e => Pure.pure (.error e)
    | .ok value => f value

@[simp] theorem pure_bind (value : α) (f : α → Prog Op Ans β) :
    (Pure.pure value : Prog Op Ans α) >>= f = f value := rfl

@[simp] theorem perform_bind (o : Op) (f : Ans o → Prog Op Ans β) :
    (perform o >>= f : Prog Op Ans β) = .request o f := rfl

def translate (f : (o : Op) → Prog Op' Ans' (Ans o)) : Prog Op Ans α → Prog Op' Ans' α
  | .pure value => .pure value
  | .request o next => f o >>= fun answer => (next answer).translate f

end Prog

/-! ## Traces -/

def Runs : Prog Op Ans α → Trace Op Ans → α → Prop
  | .pure value, t, a => t = [] ∧ value = a
  | .request o next, t, a => ∃ answer rest, t = ⟨o, answer⟩ :: rest ∧ Runs (next answer) rest a

@[simp] theorem runs_pure {value a : α} {t : Trace Op Ans} :
    Runs (Pure.pure value) t a ↔ t = [] ∧ value = a := Iff.rfl

@[simp] theorem runs_request {o : Op} {next : Ans o → Prog Op Ans α} {t : Trace Op Ans} {a : α} :
    Runs (.request o next) t a ↔ ∃ answer rest, t = ⟨o, answer⟩ :: rest ∧ Runs (next answer) rest a :=
  Iff.rfl

theorem runs_bind {p : Prog Op Ans α} {f : α → Prog Op Ans β} {t : Trace Op Ans} {b : β} :
    Runs (p >>= f) t b ↔ ∃ t₁ t₂ a, t = t₁ ++ t₂ ∧ Runs p t₁ a ∧ Runs (f a) t₂ b := by
  induction p generalizing t with
  | pure value =>
      constructor
      · intro h
        exact ⟨[], t, value, rfl, ⟨rfl, rfl⟩, h⟩
      · intro hex
        rcases hex with ⟨t₁, t₂, a, rfl, ⟨rfl, rfl⟩, h⟩
        exact h
  | request o next ih =>
      constructor
      · intro hex
        rcases hex with ⟨answer, rest, rfl, h⟩
        obtain ⟨t₁, t₂, a, rfl, h₁, h₂⟩ := (ih answer).mp h
        exact ⟨⟨o, answer⟩ :: t₁, t₂, a, rfl, ⟨answer, t₁, rfl, h₁⟩, h₂⟩
      · intro hex
        rcases hex with ⟨t₁, t₂, a, rfl, ⟨answer, rest, rfl, h₁⟩, h₂⟩
        exact ⟨answer, rest ++ t₂, rfl, (ih answer).mpr ⟨rest, t₂, a, rfl, h₁, h₂⟩⟩

theorem runs_andThen_ok {ε : Type} {p : Prog Op Ans (Except ε α)}
    {f : α → Prog Op Ans (Except ε β)} {t : Trace Op Ans} {b : β} :
    Runs (p.andThen f) t (.ok b) ↔
      ∃ t₁ t₂ a, t = t₁ ++ t₂ ∧ Runs p t₁ (.ok a) ∧ Runs (f a) t₂ (.ok b) := by
  rw [Prog.andThen, runs_bind]
  constructor
  · intro hex
    rcases hex with ⟨t₁, t₂, a, rfl, hp, hf⟩
    cases a with
    | error e => cases hf.2
    | ok a => exact ⟨t₁, t₂, a, rfl, hp, hf⟩
  · intro hex
    rcases hex with ⟨t₁, t₂, a, rfl, hp, hf⟩
    exact ⟨t₁, t₂, .ok a, rfl, hp, hf⟩

theorem runs_perform {o : Op} {t : Trace Op Ans} {answer : Ans o} :
    Runs (Prog.perform o) t answer ↔ t = [⟨o, answer⟩] := by
  constructor
  · intro hex
    rcases hex with ⟨answer', rest, rfl, rfl, rfl⟩
    rfl
  · intro heq
    subst heq
    exact ⟨answer, [], rfl, rfl, rfl⟩

/-! ## Refinement of requests -/

/-- `Refines f t s`: the trace `s` replaces every event of `t` by a run of its
translation that ends in the recorded answer. -/
inductive Refines (f : (o : Op) → Prog Op' Ans' (Ans o)) : Trace Op Ans → Trace Op' Ans' → Prop
  | nil : Refines f [] []
  | cons {o : Op} {answer : Ans o} {t : Trace Op Ans} {s₁ s₂ : Trace Op' Ans'}
      (head : Runs (f o) s₁ answer) (tail : Refines f t s₂) :
      Refines f (⟨o, answer⟩ :: t) (s₁ ++ s₂)

theorem runs_translate {f : (o : Op) → Prog Op' Ans' (Ans o)} {p : Prog Op Ans α}
    {s : Trace Op' Ans'} {a : α} (h : Runs (p.translate f) s a) :
    ∃ t, Runs p t a ∧ Refines f t s := by
  induction p generalizing s with
  | pure value =>
      rcases h with ⟨rfl, rfl⟩
      exact ⟨[], ⟨rfl, rfl⟩, .nil⟩
  | request o next ih =>
      rcases runs_bind.mp h with ⟨s₁, s₂, answer, rfl, head, rest⟩
      obtain ⟨t, hrun, tail⟩ := ih answer rest
      exact ⟨⟨o, answer⟩ :: t, ⟨answer, t, rfl, hrun⟩, .cons head tail⟩

/-! ## Deterministic surroundings -/

/-- Surroundings that answer each request, or refuse to, from a state of their own. -/
abbrev Handler (Op : Type) (Ans : Op → Type) (σ : Type) := (o : Op) → σ → Option (Ans o × σ)

def exec (h : Handler Op Ans σ) : Prog Op Ans α → σ → Option (Trace Op Ans × α × σ)
  | .pure value, s => some ([], value, s)
  | .request o next, s =>
      (h o s).bind fun reply =>
        (exec h (next reply.1) reply.2).map fun rest => (⟨o, reply.1⟩ :: rest.1, rest.2)

theorem exec_runs (h : Handler Op Ans σ) {p : Prog Op Ans α} (s : σ) {s' : σ} {t : Trace Op Ans}
    {a : α} (hexec : exec h p s = some (t, a, s')) : Runs p t a := by
  induction p generalizing s t with
  | pure value =>
      cases hexec
      exact ⟨rfl, rfl⟩
  | request o next ih =>
      rcases Option.bind_eq_some_iff.mp hexec with ⟨reply, -, hmap⟩
      rcases Option.map_eq_some_iff.mp hmap with ⟨⟨t', a', s''⟩, hrest, heq⟩
      cases heq
      exact ⟨reply.1, t', rfl, ih reply.1 reply.2 hrest⟩

end Interaction

/-!
# Programs that fail at certain events

Which events of a trace make a program fail. A program whose failures are decided by its
events fails just in the runs that meet one of them.
-/

namespace Interaction

variable {Op : Type} {Ans : Op → Type} {α β ε : Type} {bad : Event Op Ans → Prop}

def Avoids (bad : Event Op Ans → Prop) (p : Prog Op Ans α) : Prop :=
  ∀ t a, Runs p t a → ∀ e ∈ t, ¬bad e

def FailsAt (bad : Event Op Ans → Prop) (p : Prog Op Ans (Except ε α)) : Prop :=
  ∀ t r, Runs p t r → ((∃ failure, r = .error failure) ↔ ∃ e ∈ t, bad e)

theorem Avoids.pure (value : α) : Avoids bad (Pure.pure value : Prog Op Ans α) := by
  intro t a h e he
  rcases h with ⟨rfl, -⟩
  cases he

theorem Avoids.request {o : Op} {next : Ans o → Prog Op Ans α}
    (head : ∀ answer, ¬bad ⟨o, answer⟩) (rest : ∀ answer, Avoids bad (next answer)) :
    Avoids bad (.request o next) := by
  intro t a h e he
  rcases h with ⟨answer, t, rfl, h⟩
  cases he with
  | head => exact head answer
  | tail _ he => exact rest answer t a h e he

namespace FailsAt

theorem ok (value : α) : FailsAt bad (Pure.pure (.ok value) : Prog Op Ans (Except ε α)) := by
  intro t r h
  rcases h with ⟨rfl, rfl⟩
  constructor
  · intro hfailure
    rcases hfailure with ⟨failure, hfailure⟩
    cases hfailure
  · intro hevent
    rcases hevent with ⟨e, he, -⟩
    cases he

theorem request {o : Op} {next : Ans o → Prog Op Ans (Except ε α)}
    (h : ∀ answer, (bad ⟨o, answer⟩ ∧ ∃ failure, next answer = Pure.pure (.error failure)) ∨
      (¬bad ⟨o, answer⟩ ∧ FailsAt bad (next answer))) : FailsAt bad (.request o next) := by
  intro t r hrun
  rcases hrun with ⟨answer, t, rfl, hrun⟩
  rcases h answer with ⟨hbad, failure, hnext⟩ | ⟨hgood, hnext⟩
  · rw [hnext] at hrun
    rcases hrun with ⟨rfl, rfl⟩
    exact iff_of_true ⟨failure, rfl⟩ ⟨_, List.mem_cons_self, hbad⟩
  · rw [hnext t r hrun]
    constructor
    · intro hevent
      rcases hevent with ⟨e, he, hbad⟩
      exact ⟨e, List.mem_cons_of_mem _ he, hbad⟩
    · intro hevent
      rcases hevent with ⟨e, he, hbad⟩
      cases he with
      | head => exact absurd hbad hgood
      | tail _ he => exact ⟨e, he, hbad⟩

theorem request_of_good {o : Op} {next : Ans o → Prog Op Ans (Except ε α)}
    (head : ∀ answer, ¬bad ⟨o, answer⟩) (rest : ∀ answer, FailsAt bad (next answer)) :
    FailsAt bad (.request o next) :=
  request fun answer => .inr ⟨head answer, rest answer⟩

theorem bind {p : Prog Op Ans α} {f : α → Prog Op Ans (Except ε β)} (first : Avoids bad p)
    (rest : ∀ a, FailsAt bad (f a)) : FailsAt bad (p >>= f) := by
  intro t r h
  obtain ⟨t₁, t₂, a, rfl, hp, hf⟩ := runs_bind.mp h
  rw [rest a t₂ r hf]
  constructor
  · intro hevent
    rcases hevent with ⟨e, he, hbad⟩
    exact ⟨e, List.mem_append_right t₁ he, hbad⟩
  · intro hevent
    rcases hevent with ⟨e, he, hbad⟩
    rcases List.mem_append.mp he with he | he
    · exact absurd hbad (first t₁ a hp e he)
    · exact ⟨e, he, hbad⟩

theorem andThen {p : Prog Op Ans (Except ε α)} {f : α → Prog Op Ans (Except ε β)}
    (first : FailsAt bad p) (rest : ∀ a, FailsAt bad (f a)) : FailsAt bad (p.andThen f) := by
  intro t r h
  obtain ⟨t₁, t₂, a, rfl, hp, hf⟩ := runs_bind.mp h
  cases a with
  | error failure =>
      rcases hf with ⟨rfl, rfl⟩
      obtain ⟨e, he, hbad⟩ := (first t₁ _ hp).mp ⟨failure, rfl⟩
      exact iff_of_true ⟨failure, rfl⟩ ⟨e, List.mem_append_left _ he, hbad⟩
  | ok value =>
      rw [rest value t₂ r hf]
      constructor
      · intro hevent
        rcases hevent with ⟨e, he, hbad⟩
        exact ⟨e, List.mem_append_right t₁ he, hbad⟩
      · intro hevent
        rcases hevent with ⟨e, he, hbad⟩
        rcases List.mem_append.mp he with he | he
        · obtain ⟨failure, hfailure⟩ := (first t₁ _ hp).mpr ⟨e, he, hbad⟩
          cases hfailure
        · exact ⟨e, he, hbad⟩

end FailsAt

end Interaction
