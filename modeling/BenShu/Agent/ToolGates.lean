import BenShu.Agent.ToolAnswers

/-!
# Gates before a tool, redaction behind it

A planned call reaches its tool only through the policy, the approval and the check of its
arguments, but the tool set rewrites the arguments once more behind these gates. Output of
a tool is checked before it is answered; errors of a tool are not. A single call asks for
the approval and makes neither check.
-/

namespace BenShu.Agent

open Interaction Protocol

variable {library : ExecutorLibrary} {executor : ActionExecutor}

/-! ## Gates -/

/-- All gates were passed for these arguments: the policy let the tool run or an approval was
granted for them, and the check before the tool accepted them. -/
structure Admitted (config : ExecutorConfig) (t : ExecutorTrace) (name arguments : String) :
    Prop where
  policy : ∃ definition, ⟨.definition name, definition⟩ ∈ t ∧
    (resolveExecutorToolPolicy config name definition = .auto ∨
      resolveExecutorToolPolicy config name definition = .requiresApproval ∧
        ∃ safety, ⟨.approve name arguments safety, .done (.ok true)⟩ ∈ t)
  checked : ⟨.preCheckTool name arguments, .ok ()⟩ ∈ t

theorem Admitted.mono {config : ExecutorConfig} {t t' : ExecutorTrace} {name arguments : String}
    (h : Admitted config t name arguments) (hsub : t ⊆ t') : Admitted config t' name arguments := by
  obtain ⟨definition, hdefinition, hpolicy⟩ := h.policy
  refine ⟨⟨definition, hsub hdefinition, ?_⟩, hsub h.checked⟩
  rcases hpolicy with hauto | ⟨happroval, safety, hgranted⟩
  · exact .inl hauto
  · exact .inr ⟨happroval, safety, hsub hgranted⟩

/-- A tool is invoked only with arguments that were admitted before. -/
def Gated (config : ExecutorConfig) (t : ExecutorTrace) : Prop :=
  ∀ t₁ t₂ name passed answer, t = t₁ ++ ⟨.callTool name passed, answer⟩ :: t₂ →
    Admitted config t₁ name passed

def takeDefinition (taken : Option ToolDefinition) : ExecutorEvent → Option ToolDefinition
  | ⟨.toolForCall _, some (.done definition)⟩ => some definition
  | _ => taken

def definitionTaken (t : ExecutorTrace) : Option ToolDefinition := t.foldl takeDefinition none

def handedArguments (json : JsonText) (definition : ToolDefinition) (arguments : String) : String :=
  (normalizeArgumentsStringFromDefinition json definition arguments).getD arguments

/-- Whenever the tool is reached, the definition taken for the call leaves its arguments as
they were checked. -/
def Unchanged (json : JsonText) (arguments : String) (t : ExecutorTrace) : Prop :=
  ∀ t₁ t₂ name passed answer, t = t₁ ++ ⟨.callTool name passed, answer⟩ :: t₂ →
    ∀ definition, definitionTaken t₁ = some definition →
      handedArguments json definition arguments = arguments

/-- What a task may request: checks of its own arguments, and its tool once the arguments
are admitted. The ghost state is the trace so far. -/
def gateRule (library : ExecutorLibrary) (config : ExecutorConfig) (arguments : String) :
    Rule ExecutorOp ExecutorAns ExecutorTrace where
  may t
    | .preCheckTool _ checked => checked = arguments
    | .callTool name passed => Admitted config t name arguments ∧
        ∃ definition, definitionTaken t = some definition ∧
          passed = handedArguments library.json definition arguments
    | _ => True
  next t e := t ++ [e]

theorem foldl_gateRule {config : ExecutorConfig} {arguments : String} (t t' : ExecutorTrace) :
    t'.foldl (gateRule library config arguments).next t = t ++ t' := by
  induction t' generalizing t with
  | nil => simp
  | cons e t' ih =>
      show t'.foldl _ (t ++ [e]) = _
      rw [ih, List.append_assoc]
      rfl

section Rule

variable {arguments : String} {t : ExecutorTrace}

abbrev KeepsGates (library : ExecutorLibrary) (executor : ActionExecutor) (arguments : String)
    {α : Type} (p : ExecutorProg α) (t : ExecutorTrace) : Prop :=
  Follows (gateRule library executor.config arguments) p t fun _ _ => True

theorem keepsGates_pure {α : Type} (value : α) :
    KeepsGates library executor arguments (pure value) t := trivial

theorem keepsGates_bind {α β : Type} {p : ExecutorProg α} {f : α → ExecutorProg β}
    (first : KeepsGates library executor arguments p t)
    (rest : ∀ a t', KeepsGates library executor arguments (f a) t') :
    KeepsGates library executor arguments (p >>= f) t :=
  Follows.bind (first.mono fun a t' _ => rest a t')

theorem toolSetCall_keepsGates {name : String} (hadmitted : Admitted executor.config t name arguments) :
    KeepsGates library executor arguments (ToolSet.call library name arguments) t := by
  refine ⟨trivial, fun found => ?_⟩
  rcases found with _ | (definition | _)
  · exact keepsGates_pure _
  · refine ⟨trivial, fun answer => ?_⟩
    rcases answer with (_ | _) | _
    · exact keepsGates_pure _
    · refine ⟨⟨hadmitted.mono fun e he => ?_, definition, ?_, rfl⟩, fun _ => keepsGates_pure _⟩
      · exact List.mem_append_left _ (List.mem_append_left _ he)
      · simp [definitionTaken, gateRule, takeDefinition]
    · exact keepsGates_pure _
  · exact keepsGates_pure _

theorem failedCall_keepsGates (name error : String) :
    KeepsGates library executor arguments (failedCall executor name arguments error) t := by
  refine keepsGates_bind ⟨trivial, fun hook => ?_⟩ fun _ _ => keepsGates_pure _
  cases hook <;> exact keepsGates_pure _

theorem invokeTool_keepsGates {name : String} (hadmitted : Admitted executor.config t name arguments) :
    KeepsGates library executor arguments (invokeTool library executor name arguments) t := by
  refine keepsGates_bind (toolSetCall_keepsGates hadmitted) fun answer t' => ?_
  rcases answer with (error | output) | _
  · exact failedCall_keepsGates name error
  · refine ⟨trivial, fun hook => ?_⟩
    cases hook <;> exact keepsGates_pure _
  · exact failedCall_keepsGates name _

theorem runUnderPolicy_keepsGates {messages : List Message} {step : Nat} {name : String}
    {safety : SafetyLevel} {definition : ToolDefinition}
    (hdefinition : ⟨.definition name, definition⟩ ∈ t)
    (hchecked : ⟨.preCheckTool name arguments, .ok ()⟩ ∈ t) :
    KeepsGates library executor arguments
      (runUnderPolicy library executor messages step
        (resolveExecutorToolPolicy executor.config name definition) name arguments safety) t := by
  cases hpolicy : resolveExecutorToolPolicy executor.config name definition with
  | auto => exact invokeTool_keepsGates ⟨⟨definition, hdefinition, .inl hpolicy⟩, hchecked⟩
  | disabled => exact keepsGates_pure _
  | requiresApproval =>
      refine ⟨trivial, fun saved => ?_⟩
      cases saved with
      | error error => exact keepsGates_pure _
      | ok _ =>
          refine ⟨trivial, fun answer => ?_⟩
          rcases answer with (error | _ | _) | _
          · exact keepsGates_pure _
          · exact keepsGates_pure _
          · have hmem : ∀ e ∈ t, e ∈ (t ++ [⟨.checkpoint messages step name arguments, .ok ()⟩] ++
                [⟨.approve name arguments safety, .done (.ok true)⟩] : ExecutorTrace) :=
              fun e he => List.mem_append_left _ (List.mem_append_left _ he)
            refine invokeTool_keepsGates ⟨⟨definition, hmem _ hdefinition, .inr ⟨hpolicy, safety, ?_⟩⟩,
              hmem _ hchecked⟩
            exact List.mem_append_right _ List.mem_cons_self
          · exact keepsGates_pure _

theorem finishCall_keepsGates (messages : List Message) (id name : String)
    (definition : ToolDefinition) (result : Except ExecutorError String) :
    KeepsGates library executor arguments
      (finishCall library executor messages id name arguments definition result) t := by
  cases result with
  | error error => exact keepsGates_pure _
  | ok output =>
      refine ⟨trivial, fun filtered => ⟨trivial, fun checked => ⟨trivial, fun seen => ?_⟩⟩⟩
      cases seen with
      | true => exact keepsGates_pure _
      | false => exact ⟨trivial, fun _ => keepsGates_pure _⟩

theorem runCall_keepsGates (messages : List Message) (step : Nat) (call : PlannedCall) :
    KeepsGates library executor (library.json.toString call.args)
      (runCall library executor messages step call) t := by
  refine ⟨trivial, fun found => ?_⟩
  cases found with
  | false => exact keepsGates_pure _
  | true =>
      refine ⟨trivial, fun definition => ⟨rfl, fun checked => ?_⟩⟩
      cases checked with
      | error error => exact keepsGates_pure _
      | ok _ =>
          refine keepsGates_bind (runUnderPolicy_keepsGates ?_ ?_) fun result t' => ?_
          · exact List.mem_append_left _ (List.mem_append_right _ List.mem_cons_self)
          · exact List.mem_append_right _ List.mem_cons_self
          · cases result with
            | error error => exact keepsGates_pure _
            | ok result =>
                exact keepsGates_bind (finishCall_keepsGates messages _ _ _ result) fun _ _ =>
                  keepsGates_pure _

end Rule

variable {call : PlannedCall}

/-- The gates of a call hold just when its tool is handed the arguments that were checked. -/
theorem runCall_gated_iff {messages : List Message} {step : Nat} {t : ExecutorTrace}
    {q : ExecutorProg (Except ExecutorError CallOutcome)}
    (h : Reaches (runCall library executor messages step call) t q) :
    Gated executor.config t ↔ Unchanged library.json (library.json.toString call.args) t := by
  have hmay : ∀ t₁ t₂ e, t = t₁ ++ e :: t₂ →
      (gateRule library executor.config (library.json.toString call.args)).may t₁ e.op := by
    intro t₁ t₂ e heq
    subst heq
    have hkeeps : KeepsGates library executor (library.json.toString call.args)
      (runCall library executor messages step call) [] := runCall_keepsGates messages step call
    simpa [foldl_gateRule] using hkeeps.may_of_reaches h
  constructor
  · intro hgated t₁ t₂ name passed answer heq definition htaken
    obtain ⟨-, definition', htaken', hpassed⟩ := hmay t₁ t₂ _ heq
    obtain ⟨u₁, u₂, hsplit⟩ := List.append_of_mem (hgated t₁ t₂ name passed answer heq).checked
    have hsplit' : t = u₁ ++ ⟨.preCheckTool name passed, .ok ()⟩ ::
        (u₂ ++ ⟨.callTool name passed, answer⟩ :: t₂) := by
      rw [heq, hsplit]
      simp
    have hchecked : passed = library.json.toString call.args := hmay _ _ _ hsplit'
    rw [htaken] at htaken'
    cases htaken'
    rw [← hpassed, hchecked]
  · intro hunchanged t₁ t₂ name passed answer heq
    obtain ⟨hadmitted, definition, htaken, hpassed⟩ := hmay t₁ t₂ _ heq
    rw [hunchanged t₁ t₂ name passed answer heq definition htaken] at hpassed
    rw [hpassed]
    exact hadmitted

/-! ## Redaction -/

namespace ExecutorEvent

/-- The tool has said something: an output or an error. -/
def toolSpoke : ExecutorEvent → Bool
  | ⟨.preCall _ _, .done (.error _)⟩ => true
  | ⟨.callTool _ _, .done _⟩ => true
  | _ => false

/-- The tool answered an error, or the hook behind it aborts the call. -/
def disturbed : ExecutorEvent → Bool
  | ⟨.preCall _ _, .done (.error _)⟩ => true
  | ⟨.callTool _ _, .done (.error _)⟩ => true
  | ⟨.fire event, .abort _⟩ => event.timing = .afterToolCall
  | _ => false

def checksOutput : ExecutorEvent → Bool
  | ⟨.checkOutput _, _⟩ => true
  | _ => false

end ExecutorEvent

open ExecutorEvent

/-- The text went through the check of the output and its redaction; what follows it is the
notice of a tool's first use. -/
def Redacted (library : ExecutorLibrary) (t : ExecutorTrace) (text : String) : Prop :=
  ∃ output checked, ⟨.checkOutput output, checked⟩ ∈ t ∧
    (text = redactedOutput output checked ∨ ∃ name definition,
      text = redactedOutput output checked ++ "\n\n---\n" ++
        generateFirstUseInjection library name definition)

/-- What is answered for a call whose tool has spoken is a redacted text, cut to size. -/
def Covered (library : ExecutorLibrary) (executor : ActionExecutor) (t : ExecutorTrace)
    (answered : String) : Prop :=
  (∃ e ∈ t, toolSpoke e = true) → ∃ text, Redacted library t text ∧
    answered = (library.compressToolOutput text executor.config.maxToolOutputChars).content

def Still (t : ExecutorTrace) : Prop := ∀ e ∈ t, toolSpoke e = false ∧ disturbed e = false

def Unchecked (t : ExecutorTrace) : Prop := ∀ e ∈ t, checksOutput e = false

theorem Still.append {t t' : ExecutorTrace} (h : Still t) (h' : Still t') : Still (t ++ t') := by
  intro e he
  rcases List.mem_append.mp he with he | he
  · exact h e he
  · exact h' e he

theorem Unchecked.append {t t' : ExecutorTrace} (h : Unchecked t) (h' : Unchecked t') :
    Unchecked (t ++ t') := by
  intro e he
  rcases List.mem_append.mp he with he | he
  · exact h e he
  · exact h' e he

theorem Still.nil : Still [] := by
  intro e he
  cases he

theorem Unchecked.nil : Unchecked [] := by
  intro e he
  cases he

variable {e : ExecutorEvent}

theorem Still.cons {t : ExecutorTrace} (hspoke : toolSpoke e = false)
    (hdisturbed : disturbed e = false) (h : Still t) : Still (e :: t) := by
  intro e' he'
  cases he' with
  | head => exact ⟨hspoke, hdisturbed⟩
  | tail _ he' => exact h e' he'

theorem Unchecked.cons {t : ExecutorTrace} (he : checksOutput e = false) (h : Unchecked t) :
    Unchecked (e :: t) := by
  intro e' he'
  cases he' with
  | head => exact he
  | tail _ he' => exact h e' he'

/-- Whether the tool has spoken, and how, by the end of a run with this trace. -/
inductive Heard (t : ExecutorTrace) : Prop
  | silent (still : Still t)
  | refused (spoke : ∃ e ∈ t, toolSpoke e = true) (bad : ∃ e ∈ t, disturbed e = true)

/-- The tool has answered an output. -/
structure Answered (t : ExecutorTrace) : Prop where
  spoke : ∃ e ∈ t, toolSpoke e = true
  good : ∀ e ∈ t, disturbed e = false

theorem exists_mem_append_left {p : ExecutorEvent → Prop} {t t' : ExecutorTrace}
    (h : ∃ e ∈ t, p e) : ∃ e ∈ t ++ t', p e := by
  rcases h with ⟨e, he, hp⟩
  exact ⟨e, List.mem_append_left _ he, hp⟩

theorem exists_mem_append_right {p : ExecutorEvent → Prop} {t t' : ExecutorTrace}
    (h : ∃ e ∈ t', p e) : ∃ e ∈ t ++ t', p e := by
  rcases h with ⟨e, he, hp⟩
  exact ⟨e, List.mem_append_right _ he, hp⟩

theorem Heard.append {t t' : ExecutorTrace} (h : Heard t) (h' : Still t') : Heard (t ++ t') := by
  cases h with
  | silent still => exact .silent (still.append h')
  | refused spoke bad => exact .refused (exists_mem_append_left spoke) (exists_mem_append_left bad)

theorem Heard.prepend {t t' : ExecutorTrace} (h : Heard t') (still : Still t) : Heard (t ++ t') := by
  cases h with
  | silent still' => exact .silent (still.append still')
  | refused spoke bad =>
      exact .refused (exists_mem_append_right spoke) (exists_mem_append_right bad)

theorem Answered.append {t t' : ExecutorTrace} (h : Answered t) (h' : Still t') :
    Answered (t ++ t') := by
  refine ⟨exists_mem_append_left h.spoke, fun e he => ?_⟩
  rcases List.mem_append.mp he with he | he
  · exact h.good e he
  · exact (h' e he).2

theorem Answered.prepend {t t' : ExecutorTrace} (h : Answered t') (still : Still t) :
    Answered (t ++ t') := by
  refine ⟨exists_mem_append_right h.spoke, fun e he => ?_⟩
  rcases List.mem_append.mp he with he | he
  · exact (still e he).2
  · exact h.good e he

/-- The trace of a call, by what the call came to: only an output was answered. -/
structure CallHeard (t : ExecutorTrace) (answered : Prop) : Prop where
  unchecked : Unchecked t
  output : answered → Answered t
  noOutput : ¬answered → Heard t

def IsOutput : Awaited (Except String String) → Prop
  | .done (.ok _) => True
  | _ => False

theorem toolSetCall_heard {name arguments : String} {t : ExecutorTrace}
    {answer : Awaited (Except String String)}
    (h : Runs (ToolSet.call library name arguments) t answer) : CallHeard t (IsOutput answer) := by
  rcases h with ⟨found, t, rfl, h⟩
  rcases found with _ | (definition | _)
  · rcases h with ⟨rfl, rfl⟩
    exact ⟨.cons rfl .nil, False.elim, fun _ => .silent (.cons rfl rfl .nil)⟩
  · rcases h with ⟨ready, t, rfl, h⟩
    rcases ready with (error | _) | _
    · rcases h with ⟨rfl, rfl⟩
      refine ⟨.cons rfl (.cons rfl .nil), False.elim, fun _ => .refused ?_ ?_⟩
      · exact ⟨_, List.mem_cons_of_mem _ List.mem_cons_self, rfl⟩
      · exact ⟨_, List.mem_cons_of_mem _ List.mem_cons_self, rfl⟩
    · rcases h with ⟨answer, t, rfl, rfl, rfl⟩
      refine ⟨.cons rfl (.cons rfl (.cons rfl .nil)), ?_, ?_⟩
      · intro houtput
        rcases answer with (error | output) | _
        · exact houtput.elim
        · refine ⟨⟨_, List.mem_cons_of_mem _ (List.mem_cons_of_mem _ List.mem_cons_self), rfl⟩, ?_⟩
          simp [disturbed]
        · exact houtput.elim
      · intro hnone
        rcases answer with (error | output) | _
        · refine .refused ?_ ?_
          · exact ⟨_, List.mem_cons_of_mem _ (List.mem_cons_of_mem _ List.mem_cons_self), rfl⟩
          · exact ⟨_, List.mem_cons_of_mem _ (List.mem_cons_of_mem _ List.mem_cons_self), rfl⟩
        · exact (hnone trivial).elim
        · exact .silent (.cons rfl rfl (.cons rfl rfl (.cons rfl rfl .nil)))
    · rcases h with ⟨rfl, rfl⟩
      exact ⟨.cons rfl (.cons rfl .nil), False.elim,
        fun _ => .silent (.cons rfl rfl (.cons rfl rfl .nil))⟩
  · rcases h with ⟨rfl, rfl⟩
    exact ⟨.cons rfl .nil, False.elim, fun _ => .silent (.cons rfl rfl .nil)⟩

def HasOutput : CallResult → Prop
  | .ok (.ok _) => True
  | _ => False

theorem failedCall_still {name argsStr error : String} {t : ExecutorTrace} {result : CallResult}
    (h : Runs (failedCall executor name argsStr error) t result) :
    Still t ∧ Unchecked t ∧ ¬HasOutput result := by
  obtain ⟨t₁, t₂, normalizedError, rfl, hhook, rfl, rfl⟩ := runs_bind.mp h
  rcases hhook with ⟨hook, t, rfl, hhook⟩
  have hnil : t = [] := by
    cases hook <;> exact hhook.1
  subst hnil
  refine ⟨.append (.cons rfl ?_ .nil) .nil, .append (.cons rfl .nil) .nil, id⟩
  cases hook <;> rfl

theorem invokeTool_heard {name argsStr : String} {t : ExecutorTrace} {result : CallResult}
    (h : Runs (invokeTool library executor name argsStr) t result) :
    CallHeard t (HasOutput result) := by
  obtain ⟨t₁, t₂, answer, rfl, hcall, hthen⟩ := runs_bind.mp h
  have hheard := toolSetCall_heard hcall
  have hfailed : ∀ error, Runs (failedCall executor name argsStr error) t₂ result →
      ¬IsOutput answer → CallHeard (t₁ ++ t₂) (HasOutput result) := by
    intro error hrun hnone
    obtain ⟨hstill, hunchecked, hno⟩ := failedCall_still hrun
    exact ⟨hheard.unchecked.append hunchecked, fun hout => absurd hout hno,
      fun _ => (hheard.noOutput hnone).append hstill⟩
  rcases answer with (error | output) | _
  · exact hfailed error hthen id
  · have hanswered := hheard.output trivial
    rcases hthen with ⟨hook, t, rfl, hdone⟩
    cases hook with
    | abort reason =>
        rcases hdone with ⟨rfl, rfl⟩
        refine ⟨hheard.unchecked.append (.cons rfl .nil), False.elim, fun _ => .refused ?_ ?_⟩
        · exact exists_mem_append_left hanswered.spoke
        · exact exists_mem_append_right ⟨_, List.mem_cons_self, rfl⟩
    | «continue» =>
        rcases hdone with ⟨rfl, rfl⟩
        exact ⟨hheard.unchecked.append (.cons rfl .nil),
          fun _ => hanswered.append (.cons rfl rfl .nil), fun hno => absurd trivial hno⟩
    | modify value =>
        rcases hdone with ⟨rfl, rfl⟩
        exact ⟨hheard.unchecked.append (.cons rfl .nil),
          fun _ => hanswered.append (.cons rfl rfl .nil), fun hno => absurd trivial hno⟩
    | skip =>
        rcases hdone with ⟨rfl, rfl⟩
        exact ⟨hheard.unchecked.append (.cons rfl .nil),
          fun _ => hanswered.append (.cons rfl rfl .nil), fun hno => absurd trivial hno⟩
  · exact hfailed _ hthen id

theorem CallHeard.prepend {t t' : ExecutorTrace} {answered : Prop} (h : CallHeard t' answered)
    (still : Still t) (unchecked : Unchecked t) : CallHeard (t ++ t') answered :=
  ⟨unchecked.append h.unchecked, fun ha => (h.output ha).prepend still,
    fun hna => (h.noOutput hna).prepend still⟩

theorem callHeard_silent {t : ExecutorTrace} {result : CallResult} (still : Still t)
    (unchecked : Unchecked t) (hno : ¬HasOutput result) : CallHeard t (HasOutput result) :=
  ⟨unchecked, fun hout => absurd hout hno, fun _ => .silent still⟩

theorem runUnderPolicy_heard {messages : List Message} {step : Nat} {policy : ToolPolicy}
    {name argsStr : String} {safety : SafetyLevel} {t : ExecutorTrace} {result : CallResult}
    (h : Runs (runUnderPolicy library executor messages step policy name argsStr safety) t result) :
    CallHeard t (HasOutput result) := by
  cases policy with
  | auto => exact invokeTool_heard h
  | disabled =>
      rcases h with ⟨rfl, rfl⟩
      exact callHeard_silent .nil .nil id
  | requiresApproval =>
      rcases h with ⟨saved, t, rfl, h⟩
      cases saved with
      | error error =>
          rcases h with ⟨rfl, rfl⟩
          exact callHeard_silent (.cons rfl rfl .nil) (.cons rfl .nil) id
      | ok _ =>
          rcases h with ⟨answer, t, rfl, h⟩
          rcases answer with (error | _ | _) | _
          · rcases h with ⟨rfl, rfl⟩
            exact callHeard_silent (.cons rfl rfl (.cons rfl rfl .nil))
              (.cons rfl (.cons rfl .nil)) id
          · rcases h with ⟨rfl, rfl⟩
            exact callHeard_silent (.cons rfl rfl (.cons rfl rfl .nil))
              (.cons rfl (.cons rfl .nil)) id
          · exact CallHeard.prepend (t := [_, _]) (invokeTool_heard h)
              (.cons rfl rfl (.cons rfl rfl .nil)) (.cons rfl (.cons rfl .nil))
          · rcases h with ⟨rfl, rfl⟩
            exact callHeard_silent (.cons rfl rfl (.cons rfl rfl .nil))
              (.cons rfl (.cons rfl .nil)) id

def resultText : Except ExecutorError CallOutcome → String
  | .ok outcome => outcome.output
  | .error error => failureText error

theorem finishCall_redacted {messages : List Message} {id name argsStr output : String}
    {definition : ToolDefinition} {t : ExecutorTrace} {outcome : CallOutcome}
    (h : Runs (finishCall library executor messages id name argsStr definition (.ok output)) t
      outcome) : Still t ∧ Redacted library t outcome.output := by
  rcases h with ⟨filtered, t, rfl, checked, t, rfl, seen, t, rfl, h⟩
  cases seen with
  | true =>
      rcases h with ⟨rfl, rfl⟩
      refine ⟨.cons rfl rfl (.cons rfl rfl (.cons rfl rfl .nil)), filtered, checked, ?_, .inl rfl⟩
      exact List.mem_cons_of_mem _ List.mem_cons_self
  | false =>
      rcases h with ⟨marked, t, rfl, rfl, rfl⟩
      refine ⟨.cons rfl rfl (.cons rfl rfl (.cons rfl rfl (.cons rfl rfl .nil))), filtered, checked,
        ?_, .inr ⟨name, definition, rfl⟩⟩
      exact List.mem_cons_of_mem _ List.mem_cons_self

theorem Redacted.append {t t' : ExecutorTrace} {text : String} (h : Redacted library t' text) :
    Redacted library (t ++ t') text := by
  obtain ⟨output, checked, hmem, htext⟩ := h
  exact ⟨output, checked, List.mem_append_right _ hmem, htext⟩

theorem Unchecked.not_redacted {t : ExecutorTrace} (h : Unchecked t) {text : String} :
    ¬Redacted library t text := by
  intro hredacted
  obtain ⟨output, checked, hmem, -⟩ := hredacted
  have hfalse := h _ hmem
  cases hfalse

/-- The end of a task: nothing was heard of the tool, what was heard is answered as it is, or
an output is answered redacted. -/
inductive TaskHeard (library : ExecutorLibrary) (t : ExecutorTrace) (text : String) : Prop
  | silent (still : Still t)
  | refused (spoke : ∃ e ∈ t, toolSpoke e = true) (bad : ∃ e ∈ t, disturbed e = true)
      (unchecked : Unchecked t)
  | answered (good : ∀ e ∈ t, disturbed e = false) (redacted : Redacted library t text)

theorem TaskHeard.prepend {t t' : ExecutorTrace} {text : String} (h : TaskHeard library t' text)
    (still : Still t) (unchecked : Unchecked t) : TaskHeard library (t ++ t') text := by
  cases h with
  | silent still' => exact .silent (still.append still')
  | refused spoke bad unchecked' =>
      exact .refused (exists_mem_append_right spoke) (exists_mem_append_right bad)
        (unchecked.append unchecked')
  | answered good redacted =>
      refine .answered (fun e he => ?_) redacted.append
      rcases List.mem_append.mp he with he | he
      · exact (still e he).2
      · exact good e he

variable {result : Except ExecutorError CallOutcome}

theorem runChecked_heard {messages : List Message} {step : Nat} {policy : ToolPolicy}
    {id name argsStr : String} {definition : ToolDefinition} {safety : SafetyLevel}
    {t : ExecutorTrace}
    (h : Runs ((runUnderPolicy library executor messages step policy name argsStr safety).andThen
      fun result => finishCall library executor messages id name argsStr definition result >>=
        fun outcome => pure (.ok outcome)) t result) : TaskHeard library t (resultText result) := by
  obtain ⟨t₁, t₂, outcome, rfl, hpolicy, hthen⟩ := runs_bind.mp h
  have hheard := runUnderPolicy_heard hpolicy
  have hno : ¬HasOutput outcome → t₂ = [] → TaskHeard library (t₁ ++ t₂) (resultText result) := by
    intro hnone hnil
    rw [hnil, List.append_nil]
    cases hheard.noOutput hnone with
    | silent still => exact .silent still
    | refused spoke bad => exact .refused spoke bad hheard.unchecked
  rcases outcome with error | error | output
  · exact hno False.elim hthen.1
  · obtain ⟨t₃, t₄, finished, rfl, hfinish, rfl, -⟩ := runs_bind.mp hthen
    rw [List.append_nil] at hno ⊢
    exact hno False.elim hfinish.1
  · obtain ⟨t₃, t₄, finished, rfl, hfinish, rfl, rfl⟩ := runs_bind.mp hthen
    rw [List.append_nil]
    obtain ⟨hstill, hredacted⟩ := finishCall_redacted hfinish
    exact .answered ((hheard.output trivial).append hstill).good hredacted.append

theorem runCall_heard {messages : List Message} {step : Nat} {t : ExecutorTrace}
    (h : Runs (runCall library executor messages step call) t result) :
    TaskHeard library t (resultText result) := by
  rcases h with ⟨found, t, rfl, h⟩
  cases found with
  | false =>
      rcases h with ⟨rfl, rfl⟩
      exact .silent (.cons rfl rfl .nil)
  | true =>
      rcases h with ⟨definition, t, rfl, checked, t, rfl, h⟩
      cases checked with
      | error error =>
          rcases h with ⟨rfl, rfl⟩
          exact .silent (.cons rfl rfl (.cons rfl rfl (.cons rfl rfl .nil)))
      | ok _ =>
          exact TaskHeard.prepend (t := [_, _, _]) (runChecked_heard h)
            (.cons rfl rfl (.cons rfl rfl (.cons rfl rfl .nil)))
            (.cons rfl (.cons rfl (.cons rfl .nil)))

theorem runCall_covered_iff {messages : List Message} {step : Nat} {t : ExecutorTrace}
    (h : Runs (runCall library executor messages step call) t result) :
    Covered library executor t
        (library.compressToolOutput (resultText result) executor.config.maxToolOutputChars).content ↔
      ∀ e ∈ t, disturbed e = false := by
  cases runCall_heard h with
  | silent still =>
      refine iff_of_true ?_ fun e he => (still e he).2
      intro hspoke
      obtain ⟨e, he, hspoke⟩ := hspoke
      rw [(still e he).1] at hspoke
      cases hspoke
  | refused spoke bad unchecked =>
      refine iff_of_false ?_ ?_
      · intro hcovered
        obtain ⟨text, hredacted, -⟩ := hcovered spoke
        exact unchecked.not_redacted hredacted
      · intro hgood
        obtain ⟨e, he, hbad⟩ := bad
        rw [hgood e he] at hbad
        cases hbad
  | answered good redacted => exact iff_of_true (fun _ => ⟨_, redacted, rfl⟩) good

/-! ## Single calls -/

namespace ExecutorEvent

/-- The tool is entered: what it does before the call has come to an end. -/
def entersTool : ExecutorEvent → Bool
  | ⟨.preCall _ _, .done _⟩ => true
  | _ => false

def invokesTool : ExecutorEvent → Bool
  | ⟨.callTool _ _, _⟩ => true
  | _ => false

def checksArguments : ExecutorEvent → Bool
  | ⟨.preCheckTool _ _, _⟩ => true
  | _ => false

end ExecutorEvent

/-- A trace without any check, in which the tool is entered just when it speaks or runs. -/
structure SingleTrace (t : ExecutorTrace) : Prop where
  unchecked : ∀ e ∈ t, checksArguments e = false ∧ checksOutput e = false
  entered : (∃ e ∈ t, entersTool e = true) ↔
    (∃ e ∈ t, toolSpoke e = true) ∨ ∃ e ∈ t, invokesTool e = true

theorem exists_mem_cons_iff {p : ExecutorEvent → Bool} {t : ExecutorTrace} (he : p e = false) :
    (∃ e' ∈ e :: t, p e' = true) ↔ ∃ e' ∈ t, p e' = true := by
  simp [he]

/-- An event that neither checks anything nor concerns the tool. -/
structure Aside (e : ExecutorEvent) : Prop where
  unchecked : checksArguments e = false ∧ checksOutput e = false
  notEntered : entersTool e = false
  notSpoken : toolSpoke e = false
  notInvoked : invokesTool e = false

theorem SingleTrace.cons {t : ExecutorTrace} (he : Aside e) (h : SingleTrace t) :
    SingleTrace (e :: t) := by
  refine ⟨fun e' he' => ?_, ?_⟩
  · cases he' with
    | head => exact he.unchecked
    | tail _ he' => exact h.unchecked e' he'
  · rw [exists_mem_cons_iff he.notEntered, exists_mem_cons_iff he.notSpoken,
      exists_mem_cons_iff he.notInvoked]
    exact h.entered

theorem SingleTrace.nil : SingleTrace [] := ⟨by simp, by simp⟩

theorem toolSetCall_singleTrace {name arguments : String} {t : ExecutorTrace}
    {answer : Awaited (Except String String)}
    (h : Runs (ToolSet.call library name arguments) t answer) : SingleTrace t := by
  rcases h with ⟨found, t, rfl, h⟩
  rcases found with _ | (definition | _)
  · rcases h with ⟨rfl, -⟩
    exact .cons ⟨⟨rfl, rfl⟩, rfl, rfl, rfl⟩ .nil
  · rcases h with ⟨ready, t, rfl, h⟩
    refine .cons ⟨⟨rfl, rfl⟩, rfl, rfl, rfl⟩ ?_
    rcases ready with (error | _) | _
    · rcases h with ⟨rfl, -⟩
      exact ⟨by simp [checksArguments, checksOutput], by simp [entersTool, toolSpoke]⟩
    · rcases h with ⟨answer, t, rfl, rfl, -⟩
      exact ⟨by simp [checksArguments, checksOutput], by simp [entersTool, invokesTool]⟩
    · rcases h with ⟨rfl, -⟩
      exact .cons ⟨⟨rfl, rfl⟩, rfl, rfl, rfl⟩ .nil
  · rcases h with ⟨rfl, -⟩
    exact .cons ⟨⟨rfl, rfl⟩, rfl, rfl, rfl⟩ .nil

theorem callSingle_singleTrace {name arguments : String} {t : ExecutorTrace}
    {result : Except ExecutorError String}
    (h : Runs (callSingle library executor name arguments) t result) : SingleTrace t := by
  obtain ⟨t₁, t₂, answer, rfl, hcall, hthen⟩ := runs_bind.mp h
  have hnil : t₂ = [] := by
    rcases answer with (error | output) | _ <;> exact hthen.1
  rw [hnil, List.append_nil]
  exact toolSetCall_singleTrace hcall

theorem executeSingle_singleTrace {requested arguments : String} {t : ExecutorTrace}
    {result : Except ExecutorError String}
    (h : Runs (executeSingle library executor requested arguments) t result) : SingleTrace t := by
  rcases h with ⟨name, t, rfl, cached, t, rfl, found, t, rfl, h⟩
  refine .cons ⟨⟨rfl, rfl⟩, rfl, rfl, rfl⟩ (.cons ⟨⟨rfl, rfl⟩, rfl, rfl, rfl⟩
    (.cons ⟨⟨rfl, rfl⟩, rfl, rfl, rfl⟩ ?_))
  cases found with
  | false =>
      rcases h with ⟨rfl, -⟩
      exact .nil
  | true =>
      rcases h with ⟨definition, t, rfl, h⟩
      refine .cons ⟨⟨rfl, rfl⟩, rfl, rfl, rfl⟩ ?_
      dsimp only at h
      split at h
      · rcases h with ⟨rfl, -⟩
        exact .nil
      · rcases h with ⟨answer, t, rfl, h⟩
        refine .cons ⟨⟨rfl, rfl⟩, rfl, rfl, rfl⟩ ?_
        rcases answer with (error | _ | _) | _
        · rcases h with ⟨rfl, -⟩
          exact .nil
        · rcases h with ⟨rfl, -⟩
          exact .nil
        · exact callSingle_singleTrace h
        · rcases h with ⟨rfl, -⟩
          exact .nil
      · exact callSingle_singleTrace h

def singleText : Except ExecutorError String → String
  | .ok output => output
  | .error error => error.display

theorem executeSingle_secured_iff {requested arguments : String} {t : ExecutorTrace}
    {result : Except ExecutorError String}
    (h : Runs (executeSingle library executor requested arguments) t result) :
    (Gated executor.config t ∧ Covered library executor t (singleText result)) ↔
      ∀ e ∈ t, entersTool e = false := by
  have htrace := executeSingle_singleTrace h
  constructor
  · intro hsecured e he
    rcases hsecured with ⟨hgated, hcovered⟩
    rw [← Bool.not_eq_true]
    intro henters
    rcases htrace.entered.mp ⟨e, he, henters⟩ with hspoke | ⟨e', he', hinvokes⟩
    · obtain ⟨text, ⟨output, checked, hmem, -⟩, -⟩ := hcovered hspoke
      have hfalse := (htrace.unchecked _ hmem).2
      cases hfalse
    · rcases e' with ⟨op, answer⟩
      cases op with
      | callTool name passed =>
          obtain ⟨t₁, t₂, heq⟩ := List.append_of_mem he'
          have hmem : ⟨.preCheckTool name passed, .ok ()⟩ ∈ t := by
            rw [heq]
            exact List.mem_append_left _ (hgated t₁ t₂ name passed answer heq).checked
          have hfalse := (htrace.unchecked _ hmem).1
          cases hfalse
      | _ => cases hinvokes
  · intro hnone
    have hnot : ¬((∃ e ∈ t, toolSpoke e = true) ∨ ∃ e ∈ t, invokesTool e = true) := by
      rw [← htrace.entered]
      intro henters
      obtain ⟨e, he, henters⟩ := henters
      rw [hnone e he] at henters
      cases henters
    refine ⟨fun t₁ t₂ name passed answer heq => ?_, fun hspoke => absurd (.inl hspoke) hnot⟩
    refine absurd (.inr ⟨⟨.callTool name passed, answer⟩, ?_, rfl⟩) hnot
    rw [heq]
    exact List.mem_append_right _ List.mem_cons_self

/-! ## Batches -/

variable {replayReceipts : Table String ToolCallReplayReceipt} {calls : List ToolCall}
  {messages : List Message} {step : Nat}

def answeredText (library : ExecutorLibrary) (executor : ActionExecutor)
    (result : Except ExecutorError CallOutcome) : String :=
  (library.compressToolOutput (resultText result) executor.config.maxToolOutputChars).content

/-- The message and the receipt of a result carry its text. -/
structure Carries (text : String) (processed : ToolCallData × Message) : Prop where
  receipt : processed.1.result = text
  message : ∃ id, processed.2.results = [(id, text)]

theorem processResult_carries {t : ExecutorTrace} {processed : ToolCallData × Message}
    (h : Runs (processResult library executor replayReceipts result) t processed) :
    Carries (answeredText library executor result) processed := by
  cases result with
  | ok outcome =>
      obtain ⟨fullArtifactRef, t, receiptId, t', -, -, rfl⟩ := spillIfTruncated_pure h
      refine ⟨rfl, outcome.id, ?_⟩
      show (completedMessage library outcome _).results = _
      unfold completedMessage
      split <;> rfl
  | error error =>
      obtain ⟨fullArtifactRef, t, receiptId, t', -, id, t'', -, -, rfl⟩ := spillIfTruncated_pure h
      exact ⟨rfl, id, rfl⟩

theorem processResults_carries {results : List (Except ExecutorError CallOutcome)}
    {t : ExecutorTrace} {processed : List (ToolCallData × Message)}
    (h : Runs (processResults library executor replayReceipts results) t processed) :
    List.Forall₂ (fun result first => Carries (answeredText library executor result) first) results
      processed := by
  induction results generalizing t processed with
  | nil =>
      rcases h with ⟨-, rfl⟩
      exact .nil
  | cons result results ih =>
      obtain ⟨t₁, t₂, first, rfl, hfirst, h⟩ := runs_bind.mp h
      obtain ⟨t₃, t₄, rest, rfl, hrest, -, rfl⟩ := runs_bind.mp h
      exact .cons (processResult_carries hfirst) (ih hrest)

/-- The messages of the calls that ran, behind those of the planning. -/
def Executed.resultMessages (batch : Executed) : List Message :=
  batch.messages.drop batch.plannedMessages.length

/-- The receipts of the calls that ran, behind those of the planning. -/
def Executed.resultReceipts (batch : Executed) : List ToolCallData :=
  batch.receipts.drop (batch.receipts.length - batch.results.length)

/-- Every text of a message or a receipt that comes of a tool is covered. -/
structure Executed.AllCovered (library : ExecutorLibrary) (executor : ActionExecutor)
    (batch : Executed) : Prop where
  messages : List.Forall₂ (fun entry message => ∀ result ∈ message.results,
    Covered library executor (threadLog entry.1 batch.log) result.2) batch.results
      batch.resultMessages
  receipts : List.Forall₂ (fun entry receipt =>
    Covered library executor (threadLog entry.1 batch.log) receipt.result) batch.results
      batch.resultReceipts

theorem Executed.Runs.carries {batch : Executed}
    (h : batch.Runs library executor replayReceipts calls messages step) :
    ∃ processed, List.Forall₂ (fun entry first =>
        Carries (answeredText library executor entry.2) first) batch.results processed ∧
      batch.resultMessages = processed.map (·.2) ∧ batch.resultReceipts = processed.map (·.1) := by
  obtain ⟨skipped, unavailable, processed, t₁, t₂, t₃, -, -, hprocessed, hreceipts,
    hmessages⟩ := h.settled
  have hcarries := processResults_carries hprocessed
  rw [List.forall₂_map_left_iff] at hcarries
  refine ⟨processed, hcarries, ?_, ?_⟩
  · rw [Executed.resultMessages, hmessages, List.drop_left]
  · have hlength : batch.receipts.length - batch.results.length =
        (skipped ++ unavailable).length := by
      rw [hreceipts, List.length_append, List.length_map, ← hcarries.length_eq]
      omega
    rw [Executed.resultReceipts, hlength, hreceipts, List.drop_left]

theorem Executed.Runs.allCovered_iff {batch : Executed}
    (h : batch.Runs library executor replayReceipts calls messages step) :
    batch.AllCovered library executor ↔ ∀ entry ∈ batch.results,
      Covered library executor (threadLog entry.1 batch.log)
        (answeredText library executor entry.2) := by
  obtain ⟨processed, hcarries, hmessages, hreceipts⟩ := h.carries
  have hboth : batch.AllCovered library executor ↔
      (List.Forall₂ (fun entry message => ∀ result ∈ message.results,
        Covered library executor (threadLog entry.1 batch.log) result.2) batch.results
          (processed.map (·.2)) ∧
      List.Forall₂ (fun entry receipt =>
        Covered library executor (threadLog entry.1 batch.log) receipt.result) batch.results
          (processed.map (·.1))) := by
    rw [← hmessages, ← hreceipts]
    exact ⟨fun hall => ⟨hall.messages, hall.receipts⟩, fun hall => ⟨hall.1, hall.2⟩⟩
  rw [hboth, List.forall₂_map_right_iff, List.forall₂_map_right_iff]
  clear hboth hmessages hreceipts
  generalize batch.results = results at hcarries ⊢
  induction hcarries with
  | nil => simp
  | @cons entry first results processed hfirst hrest ih =>
      obtain ⟨id, hid⟩ := hfirst.message
      simp only [List.forall₂_cons, hid, hfirst.receipt, List.mem_cons, List.not_mem_nil, or_false,
        forall_eq, forall_eq_or_imp]
      constructor
      · intro hall
        exact ⟨hall.2.1, ih.mp ⟨hall.1.2, hall.2.2⟩⟩
      · intro hall
        have hrest := ih.mpr hall.2
        exact ⟨⟨hall.1, hrest.1⟩, hall.1, hrest.2⟩

/-- No call of the batch is rewritten behind its gates, answered an error by its tool, or
aborted behind its tool. -/
def Executed.Undisturbed (library : ExecutorLibrary) (batch : Executed) : Prop :=
  ∀ (i : Nat) call, batch.processed[i]? = some call →
    Unchanged library.json (library.json.toString call.args) (threadLog i batch.log) ∧
      ∀ e ∈ threadLog i batch.log, disturbed e = false

variable {programs : Nat → ExecutorProg (Except ExecutorError CallOutcome)}

theorem Started.Runs.gated_iff {batch : Started}
    (h : batch.Runs library executor calls messages step programs) {i : Nat}
    (hcall : batch.processed[i]? = some call) :
    Gated executor.config (threadLog i batch.log) ↔
      Unchanged library.json (library.json.toString call.args) (threadLog i batch.log) := by
  have hreaches := h.interleaved.reaches i
  simp only [callTask, hcall] at hreaches
  exact runCall_gated_iff hreaches

theorem Started.Runs.gated_of_none {batch : Started}
    (h : batch.Runs library executor calls messages step programs) {i : Nat}
    (hnone : batch.processed[i]? = none) : Gated executor.config (threadLog i batch.log) := by
  intro t₁ t₂ name passed answer heq
  have hmem : ⟨.callTool name passed, answer⟩ ∈ threadLog i batch.log := by
    rw [heq]
    exact List.mem_append_right _ List.mem_cons_self
  have hlt := h.planned (mem_threadLog_iff.mp hmem)
  exact absurd hnone (by simp [hlt])

theorem Started.Runs.all_gated_iff {batch : Started}
    (h : batch.Runs library executor calls messages step programs) :
    (∀ i, Gated executor.config (threadLog i batch.log)) ↔
      ∀ (i : Nat) call, batch.processed[i]? = some call →
        Unchanged library.json (library.json.toString call.args) (threadLog i batch.log) := by
  constructor
  · intro hgated i call hcall
    exact (h.gated_iff hcall).mp (hgated i)
  · intro hunchanged i
    rcases Option.eq_none_or_eq_some (batch.processed[i]?) with hnone | ⟨call, hcall⟩
    · exact h.gated_of_none hnone
    · exact (h.gated_iff hcall).mpr (hunchanged i call hcall)

theorem Executed.Runs.covered_iff {batch : Executed}
    (h : batch.Runs library executor replayReceipts calls messages step) :
    batch.AllCovered library executor ↔ ∀ (i : Nat) call, batch.processed[i]? = some call →
      ∀ e ∈ threadLog i batch.log, disturbed e = false := by
  rw [h.allCovered_iff]
  constructor
  · intro hcovered i call hcall
    have hlt : i < batch.processed.length := (List.getElem?_eq_some_iff.mp hcall).1
    obtain ⟨⟨j, result⟩, hentry, rfl⟩ :=
      List.mem_map.mp (h.order.symm.subset (List.mem_range.mpr hlt))
    obtain ⟨call', -, hrun⟩ := h.task hentry
    exact (runCall_covered_iff hrun).mp (hcovered _ hentry)
  · intro hundisturbed entry hentry
    rcases entry with ⟨i, result⟩
    obtain ⟨call, hcall, hrun⟩ := h.task hentry
    exact (runCall_covered_iff hrun).mpr (hundisturbed i call hcall)

/-- When the gates and the redaction hold. A batch that is cancelled while its calls run
answers nothing, so only its gates count. -/
theorem tools_secured_iff :
    (∀ replayReceipts calls messages step (batch : Executed),
      batch.Runs library executor replayReceipts calls messages step →
        (((∀ i, Gated executor.config (threadLog i batch.log)) ∧
          batch.AllCovered library executor) ↔ batch.Undisturbed library)) ∧
    (∀ calls messages step (batch : Started) programs,
      batch.Runs library executor calls messages step programs →
        ((∀ i, Gated executor.config (threadLog i batch.log)) ↔
          ∀ (i : Nat) call, batch.processed[i]? = some call →
            Unchanged library.json (library.json.toString call.args) (threadLog i batch.log))) ∧
    (∀ requested arguments t result,
      Runs (executeSingle library executor requested arguments) t result →
        ((Gated executor.config t ∧ Covered library executor t (singleText result)) ↔
          ∀ e ∈ t, entersTool e = false)) := by
  refine ⟨?_, ?_, ?_⟩
  · intro replayReceipts calls messages step batch h
    obtain ⟨programs, hstarted, -⟩ := h.started
    rw [hstarted.all_gated_iff, h.covered_iff]
    constructor
    · intro hsecured i call hcall
      exact ⟨hsecured.1 i call hcall, hsecured.2 i call hcall⟩
    · intro hundisturbed
      exact ⟨fun i call hcall => (hundisturbed i call hcall).1,
        fun i call hcall => (hundisturbed i call hcall).2⟩
  · intro calls messages step batch programs h
    exact h.all_gated_iff
  · intro requested arguments t result h
    exact executeSingle_secured_iff h

theorem answeredBatch_secured :
    (∀ i, Gated sampleExecutor.config (threadLog i answeredBatch.log)) ∧
      answeredBatch.AllCovered sampleLibrary sampleExecutor := by
  refine (tools_secured_iff.1 ∅ sampleCalls [] 0 answeredBatch answeredBatch_runs).mpr ?_
  intro i call hcall
  refine ⟨fun t₁ t₂ name passed answer heq definition htaken => rfl, fun e he => ?_⟩
  have hgood : ∀ entry ∈ answeredBatch.log, disturbed entry.2 = false := by decide +kernel
  exact hgood (i, e) (mem_threadLog_iff.mp he)

def leakingResult : CallOutcome :=
  ⟨"call-1", "lookup", "Error executing tool 'lookup': Tool execution error: lookup - key sk-1",
    "null", .green⟩

def leakingProcessed : ToolCallData × Message :=
  let guarded := sampleLibrary.compressToolOutput leakingResult.output 8192
  (completedReceipt sampleLibrary sampleExecutor ∅ leakingResult guarded none "fresh",
    completedMessage sampleLibrary leakingResult guarded)

def leakingBatch : Executed :=
  sampleBatch (.ok ()) (.error "key sk-1") (.ok leakingResult) leakingProcessed

/-- The error of a tool is answered as it is, and a single call runs unchecked. -/
theorem leakingBatch_uncovered :
    (leakingBatch.Runs sampleLibrary sampleExecutor ∅ sampleCalls [] 0 ∧
      ¬leakingBatch.AllCovered sampleLibrary sampleExecutor) ∧
    ∃ t, Runs (executeSingle sampleLibrary sampleExecutor "lookup" "null") t (.ok "fine") ∧
      ¬Gated sampleExecutor.config t := by
  refine ⟨⟨@sample_runs (.ok ()) (.error "key sk-1") (.ok leakingResult) leakingProcessed
    _ _ rfl rfl, fun hall => ?_⟩, _, exec_runs (sampleSurroundings (.ok ()) (.ok "fine")) () rfl,
    fun hgated => ?_⟩
  · have hunchecked : ∀ entry ∈ leakingBatch.log, checksOutput entry.2 = false := by decide +kernel
    have hcovered := (List.forall₂_cons.mp hall.receipts).1
    obtain ⟨text, hredacted, -⟩ := hcovered ⟨⟨.callTool "lookup" "null", .done (.error "key sk-1")⟩,
      mem_threadLog_iff.mpr (List.mem_of_getElem? (i := 7) rfl), rfl⟩
    exact Unchecked.not_redacted (fun e he => hunchecked (0, e) (mem_threadLog_iff.mp he)) hredacted
  · have hadmitted := hgated [_, _, _, _, _, _, _] [] "lookup" "null" (.done (.ok "fine")) rfl
    have hchecked := hadmitted.checked
    simp at hchecked

end BenShu.Agent
