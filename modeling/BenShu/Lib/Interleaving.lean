import BenShu.Lib.Interaction

/-!
# Programs interleaved with another party

A program and another party act on a shared store, one transaction at a time. A
log lists the moves of both in order; it determines the store at every point.
-/

namespace Interaction

variable {Op Op' : Type} {Ans : Op → Type} {Ans' : Op' → Type} {α β σ Act : Type}

/-! ## Unfinished runs -/

/-- `Reaches p t q`: after the requests of `t` the program `p` has become `q`. -/
inductive Reaches : Prog Op Ans α → Trace Op Ans → Prog Op Ans α → Prop
  | refl (p : Prog Op Ans α) : Reaches p [] p
  | step {o : Op} {next : Ans o → Prog Op Ans α} {answer : Ans o} {t : Trace Op Ans}
      {q : Prog Op Ans α} (rest : Reaches (next answer) t q) :
      Reaches (.request o next) (⟨o, answer⟩ :: t) q

theorem Runs.reaches {p : Prog Op Ans α} {t : Trace Op Ans} {a : α} (h : Runs p t a) :
    Reaches p t (.pure a) := by
  induction p generalizing t with
  | pure value =>
      rcases h with ⟨rfl, rfl⟩
      exact .refl _
  | request o next ih =>
      rcases h with ⟨answer, rest, rfl, h⟩
      exact .step (ih answer h)

theorem Reaches.bind_cases {p : Prog Op Ans α} {f : α → Prog Op Ans β} {t : Trace Op Ans}
    {q : Prog Op Ans β} (h : Reaches (p >>= f) t q) :
    (∃ p', Reaches p t p') ∨ ∃ t₁ t₂ a, t = t₁ ++ t₂ ∧ Runs p t₁ a ∧ Reaches (f a) t₂ q := by
  induction p generalizing t with
  | pure value => exact .inr ⟨[], t, value, rfl, ⟨rfl, rfl⟩, h⟩
  | request o next ih =>
      cases h with
      | refl => exact .inl ⟨_, .refl _⟩
      | @step _ _ answer t _ rest =>
          rcases ih answer rest with ⟨p', hp⟩ | ⟨t₁, t₂, a, rfl, hp, hf⟩
          · exact .inl ⟨p', .step hp⟩
          · exact .inr ⟨⟨o, answer⟩ :: t₁, t₂, a, rfl, ⟨answer, t₁, rfl, hp⟩, hf⟩

def Always (P : Trace Op Ans → Prop) (p : Prog Op Ans α) : Prop := ∀ t q, Reaches p t q → P t

namespace Always

variable {P : Trace Op Ans → Prop}

theorem pure (nil : P []) (value : α) : Always P (.pure value : Prog Op Ans α) := by
  intro t q h
  cases h
  exact nil

theorem request {o : Op} {next : Ans o → Prog Op Ans α} (nil : P [])
    (h : ∀ answer t q, Reaches (next answer) t q → P (⟨o, answer⟩ :: t)) :
    Always P (.request o next) := by
  intro t q hreach
  cases hreach with
  | refl => exact nil
  | @step _ _ answer t _ rest => exact h answer t q rest

theorem perform (nil : P []) (o : Op) (h : ∀ answer, P [⟨o, answer⟩]) :
    Always P (Prog.perform o : Prog Op Ans (Ans o)) := by
  refine request nil fun answer t q hreach => ?_
  cases hreach
  exact h answer

theorem bind (append : ∀ t₁ t₂, P t₁ → P t₂ → P (t₁ ++ t₂)) {p : Prog Op Ans α}
    {f : α → Prog Op Ans β} (hp : Always P p) (hf : ∀ a, Always P (f a)) : Always P (p >>= f) := by
  intro t q h
  rcases h.bind_cases with ⟨p', hreach⟩ | ⟨t₁, t₂, a, rfl, hrun, hreach⟩
  · exact hp t p' hreach
  · exact append _ _ (hp t₁ _ hrun.reaches) (hf a t₂ q hreach)

theorem andThen {ε : Type} (nil : P []) (append : ∀ t₁ t₂, P t₁ → P t₂ → P (t₁ ++ t₂))
    {p : Prog Op Ans (Except ε α)} {f : α → Prog Op Ans (Except ε β)} (hp : Always P p)
    (hf : ∀ a, Always P (f a)) : Always P (p.andThen f) :=
  bind append hp fun
    | .error _ => pure nil _
    | .ok a => hf a

theorem translate {P : Trace Op' Ans' → Prop} (nil : P [])
    (append : ∀ t₁ t₂, P t₁ → P t₂ → P (t₁ ++ t₂)) {f : (o : Op) → Prog Op' Ans' (Ans o)}
    (hf : ∀ o, Always P (f o)) (p : Prog Op Ans α) : Always P (p.translate f) := by
  induction p with
  | pure value => exact pure nil value
  | request o next ih => exact bind append (hf o) ih

end Always

/-! ## Interleavings -/

inductive Move (Op : Type) (Ans : Op → Type) (Act : Type) where
  | program (e : Event Op Ans)
  | other (a : Act)

/-- A store that both parties use: which answers it allows, and what each move
makes of it. -/
structure SharedStore (Op : Type) (Ans : Op → Type) (Act σ : Type) where
  allows : σ → Event Op Ans → Prop
  after : σ → Move Op Ans Act → σ

namespace SharedStore

variable (S : SharedStore Op Ans Act σ)

def afterAll (s : σ) (log : List (Move Op Ans Act)) : σ := log.foldl S.after s

@[simp] theorem afterAll_nil (s : σ) : S.afterAll s [] = s := rfl

@[simp] theorem afterAll_cons (s : σ) (m : Move Op Ans Act) (log : List (Move Op Ans Act)) :
    S.afterAll s (m :: log) = S.afterAll (S.after s m) log := rfl

@[simp] theorem afterAll_append (s : σ) (log log' : List (Move Op Ans Act)) :
    S.afterAll s (log ++ log') = S.afterAll (S.afterAll s log) log' :=
  List.foldl_append

end SharedStore

/-- `Interleaves S p s log q`: from the store `s`, the moves of `log` may happen in
this order and leave the program at `q`. -/
inductive Interleaves (S : SharedStore Op Ans Act σ) :
    Prog Op Ans α → σ → List (Move Op Ans Act) → Prog Op Ans α → Prop
  | done (p : Prog Op Ans α) (s : σ) : Interleaves S p s [] p
  | program {o : Op} {next : Ans o → Prog Op Ans α} {answer : Ans o} {s : σ}
      {log : List (Move Op Ans Act)} {q : Prog Op Ans α} (allowed : S.allows s ⟨o, answer⟩)
      (rest : Interleaves S (next answer) (S.after s (.program ⟨o, answer⟩)) log q) :
      Interleaves S (.request o next) s (.program ⟨o, answer⟩ :: log) q
  | other {p q : Prog Op Ans α} {s : σ} {log : List (Move Op Ans Act)} (a : Act)
      (rest : Interleaves S p (S.after s (.other a)) log q) :
      Interleaves S p s (.other a :: log) q

def Move.event? : Move Op Ans Act → Option (Event Op Ans)
  | .program e => some e
  | .other _ => none

def programEvents (log : List (Move Op Ans Act)) : Trace Op Ans := log.filterMap Move.event?

@[simp] theorem programEvents_program (e : Event Op Ans) (log : List (Move Op Ans Act)) :
    programEvents (.program e :: log) = e :: programEvents log := rfl

@[simp] theorem programEvents_other (a : Act) (log : List (Move Op Ans Act)) :
    programEvents (.other a :: log) = programEvents log := rfl

@[simp] theorem programEvents_append (log log' : List (Move Op Ans Act)) :
    programEvents (log ++ log') = programEvents log ++ programEvents log' :=
  List.filterMap_append

theorem Interleaves.reaches {S : SharedStore Op Ans Act σ} {p q : Prog Op Ans α} {s : σ}
    {log : List (Move Op Ans Act)} (h : Interleaves S p s log q) :
    Reaches p (programEvents log) q := by
  induction h with
  | done p s => exact .refl p
  | program allowed rest ih => exact .step ih
  | other a rest ih => exact ih

theorem Interleaves.allowed {S : SharedStore Op Ans Act σ} {p q : Prog Op Ans α} {s : σ}
    {l₁ l₂ : List (Move Op Ans Act)} {e : Event Op Ans}
    (h : Interleaves S p s (l₁ ++ .program e :: l₂) q) : S.allows (S.afterAll s l₁) e := by
  induction l₁ generalizing p s with
  | nil =>
      cases h with
      | program allowed rest => exact allowed
  | cons m l₁ ih =>
      cases h with
      | program allowed rest => exact ih rest
      | other a rest => exact ih rest

theorem programEvents_split {log : List (Move Op Ans Act)} {t₁ t₂ : Trace Op Ans}
    {e : Event Op Ans} (h : programEvents log = t₁ ++ e :: t₂) :
    ∃ l₁ l₂, log = l₁ ++ .program e :: l₂ ∧ programEvents l₁ = t₁ ∧ programEvents l₂ = t₂ := by
  induction log generalizing t₁ with
  | nil => simp [programEvents] at h
  | cons m log ih =>
      cases m with
      | other a =>
          obtain ⟨l₁, l₂, rfl, h₁, h₂⟩ := ih h
          exact ⟨.other a :: l₁, l₂, rfl, h₁, h₂⟩
      | program e' =>
          cases t₁ with
          | nil =>
              obtain ⟨rfl, h₂⟩ := List.cons.inj h
              exact ⟨[], log, rfl, rfl, h₂⟩
          | cons e'' t₁ =>
              obtain ⟨rfl, hrest⟩ := List.cons.inj h
              obtain ⟨l₁, l₂, rfl, h₁, h₂⟩ := ih hrest
              exact ⟨.program e' :: l₁, l₂, rfl, congrArg _ h₁, h₂⟩

/-! ## Schedules -/

/-- Follow a schedule: at `none` the program moves, at `some a` the other party. -/
def followSchedule (S : SharedStore Op Ans Act σ) (serve : (o : Op) → σ → Option (Ans o)) :
    Prog Op Ans α → σ → List (Option Act) → Option (List (Move Op Ans Act) × Prog Op Ans α)
  | p, _, [] => some ([], p)
  | p, s, some a :: schedule =>
      (followSchedule S serve p (S.after s (.other a)) schedule).map fun rest =>
        (.other a :: rest.1, rest.2)
  | .pure _, _, none :: _ => none
  | .request o next, s, none :: schedule =>
      (serve o s).bind fun answer =>
        (followSchedule S serve (next answer) (S.after s (.program ⟨o, answer⟩)) schedule).map
          fun rest => (.program ⟨o, answer⟩ :: rest.1, rest.2)

theorem followSchedule_interleaves {S : SharedStore Op Ans Act σ}
    {serve : (o : Op) → σ → Option (Ans o)}
    (hserve : ∀ o s answer, serve o s = some answer → S.allows s ⟨o, answer⟩)
    {schedule : List (Option Act)} {p q : Prog Op Ans α} {s : σ} {log : List (Move Op Ans Act)}
    (h : followSchedule S serve p s schedule = some (log, q)) : Interleaves S p s log q := by
  induction schedule generalizing p s log with
  | nil =>
      cases p <;> cases h <;> exact .done _ _
  | cons turn schedule ih =>
      cases turn with
      | some a =>
          have hmap : (followSchedule S serve p (S.after s (.other a)) schedule).map (fun rest =>
              (Move.other a :: rest.1, rest.2)) = some (log, q) := by
            cases p <;> exact h
          rcases Option.map_eq_some_iff.mp hmap with ⟨⟨rest, q'⟩, hrest, heq⟩
          cases heq
          exact .other a (ih hrest)
      | none =>
          cases p with
          | pure value => cases h
          | request o next =>
              rcases Option.bind_eq_some_iff.mp h with ⟨answer, hanswer, hmap⟩
              rcases Option.map_eq_some_iff.mp hmap with ⟨⟨rest, q'⟩, hrest, heq⟩
              cases heq
              exact .program (hserve o s answer hanswer) (ih hrest)

end Interaction
