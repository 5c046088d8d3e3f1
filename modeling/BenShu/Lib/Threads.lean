import BenShu.Lib.Interleaving
import Mathlib.Logic.Function.Basic

/-!
# Programs that share a resource

Any number of programs act on a shared resource, one request at a time. A request that
is not allowed waits. A rule follows each program with a ghost state of its own; what
the programs may do under the rule is checked on each program alone.
-/

namespace Interaction

variable {ι Op : Type} {Ans : Op → Type} {α β σ τ : Type}

/-- Which requests and answers are allowed in a state, and what they make of it. -/
structure Resource (Op : Type) (Ans : Op → Type) (σ : Type) where
  allows : σ → Event Op Ans → Prop
  after : σ → Event Op Ans → σ

/-! ## One program at a time -/

/-- A program runs alone from a state to another and returns a value. -/
def Completes (R : Resource Op Ans σ) : Prog Op Ans α → σ → σ → α → Prop
  | .pure value, s, s', a => s' = s ∧ a = value
  | .request o next, s, s', a =>
      ∃ answer, R.allows s ⟨o, answer⟩ ∧ Completes R (next answer) (R.after s ⟨o, answer⟩) s' a

theorem completes_pure {R : Resource Op Ans σ} {value a : α} {s s' : σ} :
    Completes R (Pure.pure value) s s' a ↔ s' = s ∧ a = value := Iff.rfl

theorem completes_request {R : Resource Op Ans σ} {o : Op} {f : Ans o → Prog Op Ans β} {s s' : σ}
    {b : β} :
    Completes R ((.request o .pure : Prog Op Ans (Ans o)) >>= f) s s' b ↔
      ∃ answer, R.allows s ⟨o, answer⟩ ∧ Completes R (f answer) (R.after s ⟨o, answer⟩) s' b :=
  Iff.rfl

theorem completes_bind {R : Resource Op Ans σ} {p : Prog Op Ans α} {f : α → Prog Op Ans β}
    {s s' : σ} {b : β} :
    Completes R (p >>= f) s s' b ↔
      ∃ middle a, Completes R p s middle a ∧ Completes R (f a) middle s' b := by
  induction p generalizing s with
  | pure value =>
      constructor
      · intro h
        exact ⟨s, value, ⟨rfl, rfl⟩, h⟩
      · intro ⟨_, _, ⟨hmiddle, ha⟩, h⟩
        rw [hmiddle, ha] at h
        exact h
  | request o next ih =>
      constructor
      · intro ⟨answer, hallowed, hrest⟩
        rcases (ih answer).mp hrest with ⟨middle, a, hfirst, hthen⟩
        exact ⟨middle, a, ⟨answer, hallowed, hfirst⟩, hthen⟩
      · intro ⟨middle, a, ⟨answer, hallowed, hfirst⟩, hthen⟩
        exact ⟨answer, hallowed, (ih answer).mpr ⟨middle, a, hfirst, hthen⟩⟩

/-! ## Many programs -/

abbrev ThreadLog (ι Op : Type) (Ans : Op → Type) := List (ι × Event Op Ans)

def Resource.afterAll (R : Resource Op Ans σ) (s : σ) (log : ThreadLog ι Op Ans) : σ :=
  log.foldl (fun s entry => R.after s entry.2) s

theorem Resource.afterAll_append (R : Resource Op Ans σ) (s : σ) (log log' : ThreadLog ι Op Ans) :
    R.afterAll s (log ++ log') = R.afterAll (R.afterAll s log) log' := List.foldl_append

variable [DecidableEq ι]

/-- From a state, the programs may make the requests of a log in this order, which leaves
them as they are in the end. -/
inductive Interleaved (R : Resource Op Ans σ) :
    (ι → Prog Op Ans α) → σ → ThreadLog ι Op Ans → (ι → Prog Op Ans α) → Prop
  | done (programs : ι → Prog Op Ans α) (s : σ) : Interleaved R programs s [] programs
  | move {programs programs' : ι → Prog Op Ans α} {s : σ} {log : ThreadLog ι Op Ans} {i : ι} {o : Op}
      {next : Ans o → Prog Op Ans α} {answer : Ans o} (turn : programs i = .request o next)
      (allowed : R.allows s ⟨o, answer⟩)
      (rest : Interleaved R (Function.update programs i (next answer)) (R.after s ⟨o, answer⟩)
        log programs') :
      Interleaved R programs s ((i, ⟨o, answer⟩) :: log) programs'

variable {R : Resource Op Ans σ} {programs programs' : ι → Prog Op Ans α} {s : σ}
  {log log' : ThreadLog ι Op Ans}

theorem Interleaved.split (h : Interleaved R programs s (log ++ log') programs') :
    ∃ middle, Interleaved R programs s log middle ∧
      Interleaved R middle (R.afterAll s log) log' programs' := by
  induction log generalizing programs s with
  | nil => exact ⟨programs, .done programs s, h⟩
  | cons entry log ih =>
      cases h with
      | move turn allowed rest =>
          rcases ih rest with ⟨middle, hfirst, hrest⟩
          exact ⟨middle, .move turn allowed hfirst, hrest⟩

theorem Interleaved.follow {ends : (ι → Prog Op Ans α) → Prop} {i : ι} {o : Op}
    {next : Ans o → Prog Op Ans α} {answer : Ans o} (turn : programs i = .request o next)
    (allowed : R.allows s ⟨o, answer⟩)
    (rest : ∃ programs', Interleaved R (Function.update programs i (next answer))
      (R.after s ⟨o, answer⟩) log programs' ∧ ends programs') :
    ∃ programs', Interleaved R programs s ((i, ⟨o, answer⟩) :: log) programs' ∧ ends programs' := by
  rcases rest with ⟨programs', hrest, hends⟩
  exact ⟨programs', .move turn allowed hrest, hends⟩

/-! ## The part of one program -/

def threadLog (i : ι) (log : ThreadLog ι Op Ans) : Trace Op Ans :=
  log.filterMap fun entry => if entry.1 = i then some entry.2 else none

theorem threadLog_append (i : ι) (log log' : ThreadLog ι Op Ans) :
    threadLog i (log ++ log') = threadLog i log ++ threadLog i log' := List.filterMap_append

theorem threadLog_cons_self (i : ι) (e : Event Op Ans) (log : ThreadLog ι Op Ans) :
    threadLog i ((i, e) :: log) = e :: threadLog i log := by
  simp [threadLog]

theorem threadLog_cons_of_ne {i j : ι} (h : j ≠ i) (e : Event Op Ans) (log : ThreadLog ι Op Ans) :
    threadLog i ((j, e) :: log) = threadLog i log := by
  simp [threadLog, h]

theorem threadLog_split {i : ι} (t₁ : Trace Op Ans) {t₂ : Trace Op Ans} {e : Event Op Ans}
    (h : threadLog i log = t₁ ++ e :: t₂) :
    ∃ l₁ l₂, log = l₁ ++ (i, e) :: l₂ ∧ threadLog i l₁ = t₁ ∧ threadLog i l₂ = t₂ := by
  induction log generalizing t₁ with
  | nil => simp [threadLog] at h
  | cons entry log ih =>
      rcases entry with ⟨j, e'⟩
      by_cases hj : j = i
      · subst hj
        rw [threadLog_cons_self] at h
        cases t₁ with
        | nil =>
            rcases List.cons.inj h with ⟨rfl, hrest⟩
            exact ⟨[], log, rfl, rfl, hrest⟩
        | cons e'' t₁ =>
            rcases List.cons.inj h with ⟨rfl, hrest⟩
            rcases ih t₁ hrest with ⟨l₁, l₂, rfl, h₁, h₂⟩
            refine ⟨(j, e') :: l₁, l₂, rfl, ?_, h₂⟩
            rw [threadLog_cons_self, h₁]
      · rw [threadLog_cons_of_ne hj] at h
        rcases ih t₁ h with ⟨l₁, l₂, rfl, h₁, h₂⟩
        refine ⟨(j, e') :: l₁, l₂, rfl, ?_, h₂⟩
        rw [threadLog_cons_of_ne hj, h₁]

theorem Interleaved.runs (h : Interleaved R programs s log programs') {i : ι} {a : α}
    (hreturned : programs' i = .pure a) : Runs (programs i) (threadLog i log) a := by
  induction h with
  | done programs s =>
      rw [hreturned]
      exact ⟨rfl, rfl⟩
  | @move programs programs' s log j o next answer turn allowed rest ih =>
      have hrest := ih hreturned
      by_cases hj : j = i
      · subst hj
        rw [Function.update_self] at hrest
        rw [turn, threadLog_cons_self]
        exact ⟨answer, threadLog j log, rfl, hrest⟩
      · rw [Function.update_of_ne fun heq => hj heq.symm] at hrest
        rw [threadLog_cons_of_ne hj]
        exact hrest

theorem Interleaved.reaches (h : Interleaved R programs s log programs') (i : ι) :
    Reaches (programs i) (threadLog i log) (programs' i) := by
  induction h with
  | done programs s => exact .refl _
  | @move programs programs' s log j o next answer turn allowed rest ih =>
      by_cases hj : j = i
      · subst hj
        rw [Function.update_self] at ih
        rw [turn, threadLog_cons_self]
        exact .step ih
      · rw [Function.update_of_ne fun heq => hj heq.symm] at ih
        rw [threadLog_cons_of_ne hj]
        exact ih

theorem Interleaved.alone {i : ι} {t : Trace Op Ans} {a : α} (free : ∀ s e, R.allows s e)
    (h : Runs (programs i) t a) :
    ∃ programs', Interleaved R programs s (t.map fun e => (i, e)) programs' ∧
      programs' i = .pure a := by
  generalize hp : programs i = p at h
  induction p generalizing programs s t with
  | pure value =>
      rcases h with ⟨rfl, rfl⟩
      exact ⟨programs, .done programs s, hp⟩
  | request o next ih =>
      rcases h with ⟨answer, t, rfl, h⟩
      have hnext : Function.update programs i (next answer) i = next answer := Function.update_self ..
      obtain ⟨programs', hrest, hdone⟩ := ih answer (s := R.after s ⟨o, answer⟩) hnext h
      exact ⟨programs', .move hp (free _ _) hrest, hdone⟩

theorem Interleaved.idle (h : Interleaved R programs s log programs') {i : ι}
    (hidle : threadLog i log = []) : programs' i = programs i := by
  induction h with
  | done programs s => rfl
  | @move programs programs' s log j o next answer turn allowed rest ih =>
      by_cases hj : j = i
      · subst hj
        rw [threadLog_cons_self] at hidle
        cases hidle
      · rw [threadLog_cons_of_ne hj] at hidle
        rw [ih hidle, Function.update_of_ne fun heq => hj heq.symm]

/-! ## Rules -/

/-- What a program may request in a ghost state, and how the ghost state follows it. -/
structure Rule (Op : Type) (Ans : Op → Type) (τ : Type) where
  may : τ → Op → Prop
  next : τ → Event Op Ans → τ

/-- All that a program can do is within the rule, and it ends as stated. -/
def Follows (rule : Rule Op Ans τ) : Prog Op Ans α → τ → (α → τ → Prop) → Prop
  | .pure value, t, ends => ends value t
  | .request o next, t, ends =>
      rule.may t o ∧ ∀ answer, Follows rule (next answer) (rule.next t ⟨o, answer⟩) ends

variable {rule : Rule Op Ans τ}

theorem Follows.request {o : Op} {f : Ans o → Prog Op Ans β} {t : τ} {ends : β → τ → Prop}
    (hmay : rule.may t o) (h : ∀ answer, Follows rule (f answer) (rule.next t ⟨o, answer⟩) ends) :
    Follows rule ((.request o .pure : Prog Op Ans (Ans o)) >>= f) t ends := ⟨hmay, h⟩

theorem Follows.bind {p : Prog Op Ans α} {f : α → Prog Op Ans β} {t : τ} {ends : β → τ → Prop}
    (h : Follows rule p t fun a t' => Follows rule (f a) t' ends) :
    Follows rule (p >>= f) t ends := by
  induction p generalizing t with
  | pure value => exact h
  | request o next ih => exact ⟨h.1, fun answer => ih answer (h.2 answer)⟩

theorem Follows.mono {p : Prog Op Ans α} {t : τ} {ends ends' : α → τ → Prop}
    (h : Follows rule p t ends) (hends : ∀ a t', ends a t' → ends' a t') :
    Follows rule p t ends' := by
  induction p generalizing t with
  | pure value => exact hends _ _ h
  | request o next ih => exact ⟨h.1, fun answer => ih answer (h.2 answer)⟩

theorem Follows.may_of_reaches {p q : Prog Op Ans α} {t : τ} {ends : α → τ → Prop}
    {s₁ s₂ : Trace Op Ans} {e : Event Op Ans} (h : Follows rule p t ends)
    (hreach : Reaches p (s₁ ++ e :: s₂) q) : rule.may (s₁.foldl rule.next t) e.op := by
  induction s₁ generalizing p t with
  | nil =>
      cases hreach with
      | step rest => exact h.1
  | cons e' s₁ ih =>
      cases hreach with
      | step rest => exact ih (h.2 _) rest

def Rule.afterAll (rule : Rule Op Ans τ) (ghosts : ι → τ) (log : ThreadLog ι Op Ans) : ι → τ :=
  log.foldl (fun ghosts entry =>
    Function.update ghosts entry.1 (rule.next (ghosts entry.1) entry.2)) ghosts

theorem Rule.afterAll_apply (rule : Rule Op Ans τ) (ghosts : ι → τ) (i : ι) :
    rule.afterAll ghosts log i = (threadLog i log).foldl rule.next (ghosts i) := by
  induction log generalizing ghosts with
  | nil => rfl
  | cons entry log ih =>
      rcases entry with ⟨j, e⟩
      show rule.afterAll (Function.update ghosts j (rule.next (ghosts j) e)) log i = _
      rw [ih]
      by_cases hj : j = i
      · subst hj
        rw [threadLog_cons_self, List.foldl_cons, Function.update_self]
      · rw [threadLog_cons_of_ne hj, Function.update_of_ne fun heq => hj heq.symm]

/-- A relation between ghost states and the resource that every request within the rule
keeps holds after every interleaving. -/
theorem Interleaved.invariant {ends : ι → α → τ → Prop} {Inv : (ι → τ) → σ → Prop}
    {ghosts : ι → τ}
    (hstep : ∀ ghosts s i e, Inv ghosts s → rule.may (ghosts i) e.op → R.allows s e →
      Inv (Function.update ghosts i (rule.next (ghosts i) e)) (R.after s e))
    (h : Interleaved R programs s log programs')
    (hfollows : ∀ i, Follows rule (programs i) (ghosts i) (ends i)) (hinv : Inv ghosts s) :
    Inv (rule.afterAll ghosts log) (R.afterAll s log) ∧
      ∀ i, Follows rule (programs' i) (rule.afterAll ghosts log i) (ends i) := by
  induction h generalizing ghosts with
  | done programs s => exact ⟨hinv, hfollows⟩
  | @move programs programs' s log i o next answer turn allowed rest ih =>
      have hturn := hfollows i
      rw [turn] at hturn
      have hkept : ∀ j, Follows rule (Function.update programs i (next answer) j)
          (Function.update ghosts i (rule.next (ghosts i) ⟨o, answer⟩) j) (ends j) := by
        intro j
        by_cases hj : j = i
        · subst hj
          rw [Function.update_self, Function.update_self]
          exact hturn.2 answer
        · rw [Function.update_of_ne hj, Function.update_of_ne hj]
          exact hfollows j
      exact ih hkept (hstep ghosts s i ⟨o, answer⟩ hinv hturn.1 allowed)

/-- Each request of an interleaving is made within the rule, in a state that the relation
holds of. -/
theorem Interleaved.request_within {ends : ι → α → τ → Prop} {Inv : (ι → τ) → σ → Prop}
    {ghosts : ι → τ} {i : ι} {e : Event Op Ans}
    (hstep : ∀ ghosts s i e, Inv ghosts s → rule.may (ghosts i) e.op → R.allows s e →
      Inv (Function.update ghosts i (rule.next (ghosts i) e)) (R.after s e))
    (h : Interleaved R programs s (log ++ (i, e) :: log') programs')
    (hfollows : ∀ i, Follows rule (programs i) (ghosts i) (ends i)) (hinv : Inv ghosts s) :
    Inv (rule.afterAll ghosts log) (R.afterAll s log) ∧
      rule.may (rule.afterAll ghosts log i) e.op ∧ R.allows (R.afterAll s log) e := by
  rcases h.split with ⟨middle, hfirst, hrest⟩
  rcases hfirst.invariant hstep hfollows hinv with ⟨hmiddle, hwithin⟩
  cases hrest with
  | move turn allowed rest =>
      have hturn := hwithin i
      rw [turn] at hturn
      exact ⟨hmiddle, hturn.1, allowed⟩

end Interaction
