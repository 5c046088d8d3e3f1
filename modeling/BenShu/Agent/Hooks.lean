import BenShu.Lib.FirstMatch
import BenShu.Lib.Table

/-!
# Hooks

Hooks are registered for timings and called in the order of their priorities when an event
is fired. A hook reads and changes a world of its own. Beside the engine stands what its
documentation says: a modified value is passed to the hooks that follow.
-/

namespace BenShu.Agent.Hooks

inductive HookTiming where
  | beforeLlm
  | afterLlm
  | beforeToolCall
  | afterToolCall
  | onError
  | beforeResponse
  deriving DecidableEq

structure HookEvent where
  timing : HookTiming
  userInput : Option String := none
  llmResponse : Option String := none
  toolName : Option String := none
  toolArgs : Option String := none
  toolResult : Option String := none
  error : Option String := none
  metadata : Table String String := ∅

inductive HookResult where
  | next
  | modify (value : String)
  | abort (reason : String)
  | skip
  deriving DecidableEq

structure Hook (World : Type) where
  name : String
  timings : List HookTiming
  priority : Nat := 100
  shouldRun : World → HookEvent → Bool := fun _ _ => true
  execute : World → HookEvent → World × Except String HookResult

structure HookEngine (World : Type) where
  hooks : Table HookTiming (List (Hook World)) := ∅

variable {World : Type}

/-- The result of firing an event, the calls with the events that were seen, and the world
that the hooks left. -/
structure Fired (World : Type) where
  result : HookResult
  calls : List (Hook World × HookEvent)
  world : World

def Fired.after (call : Hook World × HookEvent) (fired : Fired World) : Fired World :=
  { fired with calls := call :: fired.calls }

namespace HookEngine

def registerAt (hook : Hook World) (engine : HookEngine World) (timing : HookTiming) :
    HookEngine World :=
  let entry := (engine.hooks.lookup timing).getD [] ++ [hook]
  { engine with hooks := engine.hooks.insert timing (StableOrder.sortByKey Hook.priority entry) }

def register (engine : HookEngine World) (hook : Hook World) : HookEngine World :=
  hook.timings.foldl (registerAt hook) engine

def fireLoop (event : HookEvent) : List (Hook World) → World → HookResult → Fired World
  | [], world, current => ⟨current, [], world⟩
  | hook :: hooks, world, current =>
      if !hook.shouldRun world event then fireLoop event hooks world current
      else
        let executed := hook.execute world event
        Fired.after (hook, event) <| match executed.2 with
          | .ok .next => fireLoop event hooks executed.1 current
          | .ok (.modify value) => fireLoop event hooks executed.1 (.modify value)
          | .ok (.abort reason) => ⟨.abort reason, [], executed.1⟩
          | .ok .skip => ⟨.skip, [], executed.1⟩
          | .error _ => fireLoop event hooks executed.1 current

def fire (engine : HookEngine World) (world : World) (event : HookEvent) : Fired World :=
  match engine.hooks.lookup event.timing with
  | none => ⟨.next, [], world⟩
  | some hooks => fireLoop event hooks world .next

end HookEngine

/-! ## The documented behaviour -/

/-- The hooks are called one after the other, each with the event as the hooks before it have
modified it. How a value is written into an event is a parameter. -/
def composed (modified : HookEvent → String → HookEvent) :
    List (Hook World) → World → HookEvent → HookResult → Fired World
  | [], world, _, current => ⟨current, [], world⟩
  | hook :: hooks, world, event, current =>
      if !hook.shouldRun world event then composed modified hooks world event current
      else
        let executed := hook.execute world event
        Fired.after (hook, event) <| match executed.2 with
          | .ok .next => composed modified hooks executed.1 event current
          | .ok (.modify value) =>
              composed modified hooks executed.1 (modified event value) (.modify value)
          | .ok (.abort reason) => ⟨.abort reason, [], executed.1⟩
          | .ok .skip => ⟨.skip, [], executed.1⟩
          | .error _ => composed modified hooks executed.1 event current

def registrations (timing : HookTiming) (registered : List (Hook World)) : List (Hook World) :=
  registered.flatMap fun hook => List.replicate (hook.timings.count timing) hook

/-! ## One hook -/

/-- What a hook does with an event. -/
inductive HookStep (World : Type) where
  | declined
  | goesOn (world : World) (value : Option String)
  | stops (world : World) (result : HookResult)

def Hook.step (hook : Hook World) (world : World) (event : HookEvent) : HookStep World :=
  if !hook.shouldRun world event then .declined
  else
    let executed := hook.execute world event
    match executed.2 with
    | .ok .next => .goesOn executed.1 none
    | .ok (.modify value) => .goesOn executed.1 (some value)
    | .ok (.abort reason) => .stops executed.1 (.abort reason)
    | .ok .skip => .stops executed.1 .skip
    | .error _ => .goesOn executed.1 none

theorem fireLoop_cons (event : HookEvent) (hook : Hook World) (hooks : List (Hook World))
    (world : World) (current : HookResult) :
    HookEngine.fireLoop event (hook :: hooks) world current =
      match hook.step world event with
      | .declined => HookEngine.fireLoop event hooks world current
      | .goesOn world' value => Fired.after (hook, event)
          (HookEngine.fireLoop event hooks world' (value.elim current .modify))
      | .stops world' result => Fired.after (hook, event) ⟨result, [], world'⟩ := by
  rw [HookEngine.fireLoop, Hook.step]
  split
  · rfl
  · dsimp only
    rcases (hook.execute world event).2 with error | result
    · rfl
    · cases result <;> rfl

theorem composed_cons (modified : HookEvent → String → HookEvent) (event : HookEvent)
    (hook : Hook World) (hooks : List (Hook World)) (world : World) (current : HookResult) :
    composed modified (hook :: hooks) world event current =
      match hook.step world event with
      | .declined => composed modified hooks world event current
      | .goesOn world' value => Fired.after (hook, event)
          (composed modified hooks world' (value.elim event (modified event))
            (value.elim current .modify))
      | .stops world' result => Fired.after (hook, event) ⟨result, [], world'⟩ := by
  rw [composed, Hook.step]
  split
  · rfl
  · dsimp only
    rcases (hook.execute world event).2 with error | result
    · rfl
    · cases result <;> rfl

theorem step_eq_declined_iff {hook : Hook World} {world : World} {event : HookEvent} :
    hook.step world event = .declined ↔ hook.shouldRun world event = false := by
  unfold Hook.step
  by_cases hruns : hook.shouldRun world event = true
  · rw [if_neg (by simp [hruns]), hruns]
    dsimp only
    rcases (hook.execute world event).2 with error | result
    · simp
    · cases result <;> simp
  · rw [if_pos (by simp [hruns])]
    simpa using hruns

/-- The world that the hooks leave unless one of them stops. -/
def passed (event : HookEvent) : List (Hook World) → World → Option World
  | [], world => some world
  | hook :: hooks, world =>
      match hook.step world event with
      | .declined => passed event hooks world
      | .goesOn world' _ => passed event hooks world'
      | .stops _ _ => none

/-- No hook runs behind one that makes another event of the event. -/
def Undisturbed (modified : HookEvent → String → HookEvent) (event : HookEvent)
    (hooks : List (Hook World)) (world : World) : Prop :=
  ∀ before hook after world' world'' value, hooks = before ++ hook :: after →
    passed event before world = some world' →
    hook.step world' event = .goesOn world'' (some value) → modified event value ≠ event →
    ∀ later ∈ after, later.shouldRun world'' event = false ∧
      later.shouldRun world'' (modified event value) = false

/-! ## The order -/

section Order

variable {engine : HookEngine World} {hook : Hook World} {timing : HookTiming}
  {l : List (Hook World)}

open StableOrder (Sorts)

def HookEngine.hooksOf (engine : HookEngine World) (timing : HookTiming) : List (Hook World) :=
  (engine.hooks.lookup timing).getD []

theorem hooksOf_registerAt (hook : Hook World) (engine : HookEngine World)
    (registered timing : HookTiming) :
    (engine.registerAt hook registered).hooksOf timing =
      if timing = registered then
        StableOrder.sortByKey Hook.priority (engine.hooksOf timing ++ [hook])
      else engine.hooksOf timing := by
  unfold HookEngine.hooksOf HookEngine.registerAt
  rw [Table.lookup_insert]
  split
  · next heq => rw [heq, Option.getD_some]
  · rfl

theorem sorts_registerAt_foldl (timings : List HookTiming)
    (h : Sorts Hook.priority l (engine.hooksOf timing)) :
    Sorts Hook.priority (l ++ List.replicate (timings.count timing) hook)
      ((timings.foldl (HookEngine.registerAt hook) engine).hooksOf timing) := by
  induction timings generalizing engine l with
  | nil => simpa using h
  | cons registered timings ih =>
      rw [List.foldl_cons]
      by_cases htiming : registered = timing
      · subst htiming
        have hentry : Sorts Hook.priority (l ++ [hook])
            ((engine.registerAt hook registered).hooksOf registered) := by
          rw [hooksOf_registerAt, if_pos rfl]
          exact h.push hook
        have hpush := ih hentry
        rwa [List.count_cons_self, List.replicate_succ, List.append_cons]
      · rw [List.count_cons_of_ne htiming]
        refine ih ?_
        rw [hooksOf_registerAt, if_neg (Ne.symm htiming)]
        exact h

theorem sorts_register (registered : List (Hook World)) (timing : HookTiming) :
    Sorts Hook.priority (registrations timing registered)
      ((registered.foldl HookEngine.register {}).hooksOf timing) := by
  have hrun : ∀ (registered l : List (Hook World)) (engine : HookEngine World),
      Sorts Hook.priority l (engine.hooksOf timing) →
      Sorts Hook.priority (l ++ registrations timing registered)
        ((registered.foldl HookEngine.register engine).hooksOf timing) := by
    intro registered
    induction registered with
    | nil =>
        intro l engine h
        simpa [registrations] using h
    | cons hook registered ih =>
        intro l engine h
        have hstep := ih _ _ (@sorts_registerAt_foldl World engine hook timing l hook.timings h)
        rwa [List.append_assoc] at hstep
  exact hrun registered [] {} (StableOrder.sorts_nil _)

end Order

/-! ## Composition -/

variable {modified : HookEvent → String → HookEvent} {event other : HookEvent}
  {hook : Hook World} {hooks : List (Hook World)} {world world' : World} {value : Option String}
  {current : HookResult}

theorem passed_of_declined (h : ∀ hook ∈ hooks, hook.shouldRun world event = false) :
    passed event hooks world = some world := by
  induction hooks with
  | nil => rfl
  | cons hook hooks ih =>
      rw [passed, step_eq_declined_iff.mpr (h hook List.mem_cons_self)]
      exact ih fun later hlater => h later (List.mem_cons_of_mem _ hlater)

theorem Undisturbed.nil (modified : HookEvent → String → HookEvent) (event : HookEvent)
    (world : World) : Undisturbed modified event [] world := by
  intro before hook after world' world'' value hsplit
  simp at hsplit

theorem Undisturbed.of_declined (h : ∀ hook ∈ hooks, hook.shouldRun world event = false) :
    Undisturbed modified event hooks world := by
  intro before first after world₁ world₂ value hsplit hpassed hstep
  subst hsplit
  have hbefore : passed event before world = some world :=
    passed_of_declined fun hook hhook => h hook (List.mem_append_left _ hhook)
  rw [hbefore] at hpassed
  cases hpassed
  rw [step_eq_declined_iff.mpr (h first (by simp))] at hstep
  cases hstep

theorem undisturbed_declined_iff (h : hook.step world event = .declined) :
    Undisturbed modified event (hook :: hooks) world ↔ Undisturbed modified event hooks world := by
  constructor
  · intro hall before first after world' world'' value hsplit hpassed
    refine hall (hook :: before) first after world' world'' value (by rw [hsplit]; rfl) ?_
    rw [passed, h]
    exact hpassed
  · intro hall before first after world' world'' value hsplit hpassed hstep
    cases before with
    | nil =>
        cases hsplit
        cases hpassed
        rw [h] at hstep
        cases hstep
    | cons _ before =>
        cases hsplit
        rw [passed, h] at hpassed
        exact hall before first after world' world'' value rfl hpassed hstep

theorem Undisturbed.of_stops {result : HookResult} (h : hook.step world event = .stops world' result) :
    Undisturbed modified event (hook :: hooks) world := by
  intro before first after world₁ world₂ value hsplit hpassed hstep
  cases before with
  | nil =>
      cases hsplit
      cases hpassed
      rw [h] at hstep
      cases hstep
  | cons _ before =>
      cases hsplit
      rw [passed, h] at hpassed
      cases hpassed

theorem undisturbed_goesOn_iff (h : hook.step world event = .goesOn world' value) :
    Undisturbed modified event (hook :: hooks) world ↔
      (∀ text ∈ value, modified event text ≠ event → ∀ later ∈ hooks,
        later.shouldRun world' event = false ∧
          later.shouldRun world' (modified event text) = false) ∧
      Undisturbed modified event hooks world' := by
  constructor
  · intro hall
    constructor
    · intro text htext
      exact hall [] hook hooks world world' text rfl rfl (by rw [h, Option.mem_def.mp htext])
    · intro before first after world₁ world₂ value' hsplit hpassed
      refine hall (hook :: before) first after world₁ world₂ value' (by rw [hsplit]; rfl) ?_
      rw [passed, h]
      exact hpassed
  · rintro ⟨hfirst, hall⟩ before first after world₁ world₂ value' hsplit hpassed hstep
    cases before with
    | nil =>
        cases hsplit
        cases hpassed
        rw [h] at hstep
        cases hstep
        exact hfirst value' rfl
    | cons _ before =>
        cases hsplit
        rw [passed, h] at hpassed
        exact hall before first after world₁ world₂ value' rfl hpassed hstep

theorem composed_of_declined (h : ∀ hook ∈ hooks, hook.shouldRun world event = false) :
    composed modified hooks world event current = ⟨current, [], world⟩ := by
  induction hooks with
  | nil => rfl
  | cons hook hooks ih =>
      rw [composed_cons, step_eq_declined_iff.mpr (h hook List.mem_cons_self)]
      exact ih fun later hlater => h later (List.mem_cons_of_mem _ hlater)

theorem composed_first_call (h : ¬∀ hook ∈ hooks, hook.shouldRun world event = false) :
    ∃ hook, (composed modified hooks world event current).calls.head? = some (hook, event) := by
  induction hooks with
  | nil => exact absurd (fun hook hhook => absurd hhook (by simp)) h
  | cons hook hooks ih =>
      rw [composed_cons]
      cases hstep : hook.step world event with
      | declined =>
          refine ih fun hall => h fun later hlater => ?_
          rcases List.mem_cons.mp hlater with rfl | hmem
          · exact step_eq_declined_iff.mp hstep
          · exact hall later hmem
      | goesOn world' value => exact ⟨hook, rfl⟩
      | stops world' result => exact ⟨hook, rfl⟩

theorem fireLoop_eq_composed (event : HookEvent) (hooks : List (Hook World)) (world : World)
    (current : HookResult) : HookEngine.fireLoop event hooks world current =
      composed (fun event _ => event) hooks world event current := by
  induction hooks generalizing world current with
  | nil => rfl
  | cons hook hooks ih =>
      rw [fireLoop_cons, composed_cons]
      cases hook.step world event with
      | declined => exact ih world current
      | goesOn world' value =>
          dsimp only
          rw [ih]
          cases value <;> rfl
      | stops world' result => rfl

/-- Hooks that see different events make the same calls only if none of them runs. -/
theorem fireLoop_eq_composed_other_iff (hother : other ≠ event) :
    HookEngine.fireLoop event hooks world current = composed modified hooks world other current ↔
      ∀ later ∈ hooks, later.shouldRun world event = false ∧
        later.shouldRun world other = false := by
  rw [fireLoop_eq_composed]
  constructor
  · intro heq
    have hevent : ∀ later ∈ hooks, later.shouldRun world event = false := by
      by_contra hruns
      obtain ⟨first, hfirst⟩ := @composed_first_call World (fun event _ => event) _ _ _ current hruns
      rw [heq] at hfirst
      by_cases hdecline : ∀ later ∈ hooks, later.shouldRun world other = false
      · rw [composed_of_declined hdecline] at hfirst
        cases hfirst
      · obtain ⟨first', hfirst'⟩ := @composed_first_call World modified _ _ _ current hdecline
        rw [hfirst'] at hfirst
        exact hother (Prod.ext_iff.mp (Option.some.inj hfirst)).2
    have hdecline : ∀ later ∈ hooks, later.shouldRun world other = false := by
      by_contra hruns
      obtain ⟨first, hfirst⟩ := @composed_first_call World modified _ _ _ current hruns
      rw [← heq, composed_of_declined hevent] at hfirst
      cases hfirst
    exact fun later hlater => ⟨hevent later hlater, hdecline later hlater⟩
  · intro hall
    rw [composed_of_declined fun later hlater => (hall later hlater).1,
      composed_of_declined fun later hlater => (hall later hlater).2]

theorem Fired.after_inj {call : Hook World × HookEvent} {x y : Fired World} :
    Fired.after call x = Fired.after call y ↔ x = y := by
  constructor
  · intro h
    rcases x with ⟨result, calls, world⟩
    rcases y with ⟨result', calls', world'⟩
    cases h
    rfl
  · rintro rfl
    rfl

theorem fireLoop_eq_composed_iff :
    HookEngine.fireLoop event hooks world current = composed modified hooks world event current ↔
      Undisturbed modified event hooks world := by
  induction hooks generalizing world current with
  | nil => exact iff_of_true rfl (.nil _ _ _)
  | cons hook hooks ih =>
      rw [fireLoop_cons, composed_cons]
      cases hstep : hook.step world event with
      | declined =>
          rw [undisturbed_declined_iff hstep]
          exact ih
      | stops world' result => exact iff_of_true rfl (.of_stops hstep)
      | goesOn world' value =>
          rw [undisturbed_goesOn_iff hstep]
          dsimp only
          rw [Fired.after_inj]
          cases value with
          | none =>
              rw [and_iff_right fun text htext => (nomatch htext)]
              exact ih
          | some text =>
              by_cases hsame : modified event text = event
              · have hfirst : ∀ text' ∈ some text, modified event text' ≠ event →
                    ∀ later ∈ hooks, later.shouldRun world' event = false ∧
                      later.shouldRun world' (modified event text') = false := by
                  intro text' htext' hne
                  rw [← Option.mem_some.mp htext'] at hne
                  exact absurd hsame hne
                rw [and_iff_right hfirst]
                show _ = composed modified hooks world' (modified event text) _ ↔ _
                rw [hsame]
                exact ih
              · show _ = composed modified hooks world' (modified event text) _ ↔ _
                rw [fireLoop_eq_composed_other_iff hsame]
                constructor
                · intro hdecline
                  refine ⟨?_, .of_declined fun later hlater => (hdecline later hlater).1⟩
                  intro text' htext' _
                  rw [← Option.mem_some.mp htext']
                  exact hdecline
                · intro ⟨hfirst, _⟩
                  exact hfirst text rfl hsame

/-- What was promised of firing: the hooks of the event are called in the order of their
priorities and registrations until one stops, each with the event as it was modified so far,
and the result is that of the composition. -/
structure Composes (modified : HookEvent → String → HookEvent) (registered : List (Hook World))
    (world : World) (event : HookEvent) : Prop where
  ordered : StableOrder.Sorts Hook.priority (registrations event.timing registered)
    ((registered.foldl HookEngine.register {}).hooksOf event.timing)
  composed : (registered.foldl HookEngine.register {}).fire world event =
    composed modified ((registered.foldl HookEngine.register {}).hooksOf event.timing) world event
      .next

theorem fire_eq_fireLoop (engine : HookEngine World) (world : World) (event : HookEvent) :
    engine.fire world event =
      HookEngine.fireLoop event (engine.hooksOf event.timing) world .next := by
  unfold HookEngine.fire HookEngine.hooksOf
  cases engine.hooks.lookup event.timing with
  | none => rfl
  | some hooks => rfl

/-- Firing composes the modifications exactly when no hook runs behind one that makes another
event of the event. -/
theorem composes_iff (modified : HookEvent → String → HookEvent) (registered : List (Hook World))
    (world : World) (event : HookEvent) :
    Composes modified registered world event ↔
      Undisturbed modified event
        ((registered.foldl HookEngine.register {}).hooksOf event.timing) world := by
  constructor
  · intro h
    have hcomposed := h.composed
    rw [fire_eq_fireLoop] at hcomposed
    exact fireLoop_eq_composed_iff.mp hcomposed
  · intro h
    refine ⟨sorts_register _ _, ?_⟩
    rw [fire_eq_fireLoop]
    exact fireLoop_eq_composed_iff.mpr h

/-! ## Two hooks of a response -/

def withResponse (event : HookEvent) (value : String) : HookEvent :=
  { event with llmResponse := some value }

def rewriter : Hook Unit where
  name := "rewriter"
  timings := [.afterLlm]
  priority := 10
  execute _ _ := ((), .ok (.modify "B"))

def exclaimer : Hook Unit where
  name := "exclaimer"
  timings := [.afterLlm]
  priority := 20
  execute _ event := ((), .ok (.modify (event.llmResponse.getD "" ++ "!")))

/-- The second hook sees the response that the first one has replaced. -/
theorem exclaimer_sees_old_response :
    let engine : HookEngine Unit := [rewriter, exclaimer].foldl HookEngine.register {}
    let event : HookEvent := { timing := .afterLlm, llmResponse := some "A" }
    (engine.fire () event).result = .modify "A!" ∧
      (composed withResponse [rewriter, exclaimer] () event .next).result = .modify "B!" ∧
      ¬Composes withResponse [rewriter, exclaimer] () event := by
  intro engine event
  have hhooks : engine.hooksOf .afterLlm = [rewriter, exclaimer] := by
    show ((({} : HookEngine Unit).registerAt rewriter .afterLlm).registerAt exclaimer
      .afterLlm).hooksOf .afterLlm = _
    have hfirst : StableOrder.sortByKey Hook.priority ([] ++ [rewriter]) = [rewriter] :=
      StableOrder.sortByKey_of_ascending (List.pairwise_singleton _ _)
    have hempty : ({} : HookEngine Unit).hooksOf .afterLlm = [] := rfl
    rw [hooksOf_registerAt, if_pos rfl, hooksOf_registerAt, if_pos rfl, hempty, hfirst]
    exact StableOrder.sortByKey_of_ascending (by simp [rewriter, exclaimer])
  have hfire : (engine.fire () event).result = .modify "A!" := by
    rw [fire_eq_fireLoop, show engine.hooksOf event.timing = _ from hhooks]
    rfl
  have hcomposed : (composed withResponse [rewriter, exclaimer] () event .next).result =
      .modify "B!" := rfl
  refine ⟨hfire, hcomposed, fun h => ?_⟩
  have hsame := h.composed
  rw [show ([rewriter, exclaimer].foldl HookEngine.register {}).hooksOf event.timing = _ from
    hhooks] at hsame
  have hresult := hfire.symm.trans ((congrArg Fired.result hsame).trans hcomposed)
  exact absurd hresult (by decide)

end BenShu.Agent.Hooks
