import BenShu.Lib.Selection
import BenShu.Protocol.Message
import Mathlib.Data.Rat.Defs

/-!
# Building the prompt context

What is sent to a provider: the system prompt, background and injected messages, and as
much of the history as the token budgets leave room for. Every message carries where in
the history it was taken from; no decision reads it.
-/

namespace BenShu.Agent

open Protocol

structure ContextConfig where
  maxTokens : Nat := 128000
  maxHistoryMessages : Nat := 50
  responseReserve : Nat := 4096
  smartPruning : Bool := false

structure StrategyConfig where
  maxHistoryRatio : ℚ
  enableSmartPruning : Bool
  addConciseDirective : Bool

inductive Strategy where
  | standard
  | compressed
  | fallback
deriving DecidableEq

def compressedHistoryRatio : ℚ := 1 / 2

def Strategy.config : Strategy → StrategyConfig
  | .standard =>
      { maxHistoryRatio := 1, enableSmartPruning := false, addConciseDirective := false }
  | .compressed =>
      { maxHistoryRatio := compressedHistoryRatio
        enableSmartPruning := true, addConciseDirective := true }
  | .fallback =>
      { maxHistoryRatio := 0, enableSmartPruning := true, addConciseDirective := true }

inductive BackgroundPressureBand where
  | normal
  | high
  | critical
deriving DecidableEq

/-- A message, and the index in the history it was taken from. -/
structure Placed where
  origin : Option Nat
  message : Message

namespace Placed

def made (message : Message) : Placed := ⟨none, message⟩

def isSystem (placed : Placed) : Bool := placed.message.role = .system

def isUser (placed : Placed) : Bool := placed.message.role = .user

def softTrim (placed : Placed) (limit : Nat) : Placed :=
  { placed with message := placed.message.softTrim limit }

end Placed

def placeHistory (history : List Message) : List Placed :=
  history.zipIdx.map fun entry => ⟨some entry.2, entry.1⟩

/-- What the context manager calls: the tokenizer, the single precision arithmetic behind
the window and the pressure band, the texts of the background layers, the injectors, and
the text of JSON. -/
structure ContextLibrary where
  /-- The number of tokens of a text; loading the tokenizer may fail. -/
  cl100kBase : Except String (String → Nat)
  /-- `(messages as f32 * ratio).ceil() as usize` -/
  historyWindow : Nat → ℚ → Nat
  /-- The band of `tokens as f32 / window as f32`. -/
  pressureBand : Nat → Nat → BackgroundPressureBand
  backgroundMessages : List Message → BackgroundPressureBand → List Message
  injectors : List (List Message → Except String (List Message))
  render : Json → String

structure ContextManager where
  config : ContextConfig
  systemPrompt : Option String
  hasBackgroundEnvelope : Bool
  library : ContextLibrary

def localRecentHistoryMessages : Nat := 12
def localProviderTokenInflationNumerator : Nat := 9
def localProviderTokenInflationDenominator : Nat := 4
def contextFitSafetyMarginTokens : Nat := 1000

/-! ## Token estimates -/

/-- Rounded up. -/
def adjustEstimatedTokens (tokens : Nat) (isLocal : Bool) : Nat :=
  if !isLocal || tokens = 0 then tokens
  else
    (tokens * localProviderTokenInflationNumerator + localProviderTokenInflationDenominator - 1) /
      localProviderTokenInflationDenominator

def trimMessageToTokenBudget (placed : Placed) (tokenBudget : Nat) (isLocal : Bool) : Placed :=
  let charsPerToken := if isLocal then 3 else 4
  placed.softTrim (max 128 (min (tokenBudget * charsPerToken) 16000))

section Estimates

variable (bpe : String → Nat) (render : Json → String) (isLocal : Bool)

def estimateTokens (messages : List Placed) : Nat :=
  (messages.map fun placed => bpe (placed.message.text render) + 4).sum

def estimateTokensForProvider (messages : List Placed) : Nat :=
  adjustEstimatedTokens (estimateTokens bpe render messages) isLocal

def messageTokenCostForProvider (placed : Placed) : Nat :=
  max (estimateTokensForProvider bpe render isLocal [placed]) 1

/-! ## Fitting the prompt -/

def firstSystem (messages : List Placed) : Option Placed := messages.head?.filter Placed.isSystem

/-- The budget of the system message at the head. -/
def staticBudget (promptBudget : Nat) : Nat :=
  let quarter := max (promptBudget / 4) 1
  if promptBudget < 128 then min quarter (max promptBudget 1)
  else max 128 (min quarter promptBudget)

def fittedHead (promptBudget : Nat) (messages : List Placed) : List Placed :=
  match firstSystem messages with
  | none => []
  | some system =>
      if messageTokenCostForProvider bpe render isLocal system > staticBudget promptBudget then
        [trimMessageToTokenBudget system (staticBudget promptBudget) isLocal]
      else [system]

def tailBudget (promptBudget : Nat) (messages : List Placed) : Nat :=
  max (promptBudget - ((fittedHead bpe render isLocal promptBudget messages).map
    (messageTokenCostForProvider bpe render isLocal)).sum) 1

structure Tail where
  used : Nat := 0
  messages : List Placed := []

/-- The latest user message and the first message seen are kept at any size, trimmed to what
is left. -/
def fitTailMessage (budget : Nat) (skipFirst : Bool) (latestUserIndex : Option Nat)
    (entry : Placed × Nat) (tail : Tail) : Tail :=
  if entry.2 = 0 && skipFirst then tail
  else
    let cost := messageTokenCostForProvider bpe render isLocal
    let mustKeep := some entry.2 = latestUserIndex || tail.messages.isEmpty
    if tail.used + cost entry.1 > budget then
      if !mustKeep then tail
      else
        let remaining := max (budget - tail.used) 1
        let candidate := trimMessageToTokenBudget entry.1 remaining isLocal
        { used := tail.used + cost candidate, messages := candidate :: tail.messages }
    else { used := tail.used + cost entry.1, messages := entry.1 :: tail.messages }

def fitTail (promptBudget : Nat) (messages : List Placed) : List Placed :=
  (messages.zipIdx.foldr
    (fitTailMessage bpe render isLocal (tailBudget bpe render isLocal promptBudget messages)
      (firstSystem messages).isSome (Selection.lastIndex Placed.isUser messages)) {}).messages

/-- Remove the first message of an assistant or a tool until the rest fits. -/
def dropWhileOver (promptBudget : Nat) (fitted : List Placed) : List Placed :=
  if estimateTokensForProvider bpe render isLocal fitted > promptBudget ∧ fitted.length > 1 then
    match _h : fitted.findIdx? fun placed => !(placed.isSystem || placed.isUser) with
    | none => fitted
    | some removeIndex => dropWhileOver promptBudget (fitted.eraseIdx removeIndex)
  else fitted
termination_by fitted.length
decreasing_by
  have hlt := (List.findIdx?_eq_some_iff_getElem.mp _h).choose
  rw [List.length_eraseIdx_of_lt hlt]
  omega

def fitMessagesToPromptBudget (promptBudget : Nat) (messages : List Placed) : List Placed :=
  if messages.isEmpty ∨ estimateTokensForProvider bpe render isLocal messages ≤ promptBudget then
    messages
  else
    let fitted := dropWhileOver bpe render isLocal promptBudget
      (fittedHead bpe render isLocal promptBudget messages ++
        fitTail bpe render isLocal promptBudget messages)
    if estimateTokensForProvider bpe render isLocal fitted > promptBudget then
      let perMessageBudget := max (promptBudget / max fitted.length 1) 1
      fitted.map fun placed => trimMessageToTokenBudget placed perMessageBudget isLocal
    else fitted

/-! ## Selecting history -/

structure HistorySelection where
  usage : Nat := 0
  selected : List Placed := []
  pruned : List Placed

def selectHistoryMessage (historyBudget : Nat) (placed : Placed) (selection : HistorySelection) :
    HistorySelection :=
  let tokens := fun (placed : Placed) => bpe (placed.message.text render)
  let trimmed := if tokens placed > 2000 then placed.softTrim 4000 else placed
  let cost := adjustEstimatedTokens (tokens trimmed + 4) isLocal
  if selection.usage + cost ≤ historyBudget then
    { selection with
      usage := selection.usage + cost
      selected := trimmed :: selection.selected }
  else { selection with pruned := selection.pruned ++ [trimmed] }

/-- The last messages, as many as the window holds, gone through from the last one. -/
def selectHistory (window historyBudget : Nat) (history : List Placed) : HistorySelection :=
  (history.drop (history.length - window)).foldr
    (selectHistoryMessage bpe render isLocal historyBudget)
    { pruned := history.take (history.length - window) }

end Estimates

def latestUser (history : List Placed) : Option Placed := history.reverse.find? Placed.isUser

def restoreLatestUser (history selected : List Placed) : List Placed :=
  if selected.any Placed.isUser then selected
  else selected ++ ((latestUser history).map (·.softTrim 2000)).toList

/-! ## The summary of what was pruned -/

def oneLine (text : String) : String :=
  .ofList (text.toList.map fun c => if c = '\n' then ' ' else c)

def summaryLine (render : Json → String) (message : Message) : String :=
  let text := message.text render
  match message.role with
  | .assistant =>
      let snippet :=
        if Text.charCount text > 64 then oneLine (.ofList (text.toList.take 60)) ++ "..."
        else oneLine text
      s!"- Assistant decision: {snippet}\n"
  | .tool =>
      let name := message.name.getD "unknown_tool"
      s!"- Result from: {name}\n"
  | .user => s!"- User requested: {Text.preview text 40}\n"
  | .system => ""

/-- Latest first where the budget refused a message, then what the window left out. -/
def prunedHistorySummary (render : Json → String) (pruned : List Placed) : Placed :=
  .made (.system ("### Historical Context Summary (Pruned)\n" ++
    "To save context space, early history was summarized below:\n" ++
    String.join (pruned.reverse.map fun placed => summaryLine render placed.message)))

namespace ContextManager

variable (manager : ContextManager) (bpe : String → Nat)

def finalContextPromptBudget : Nat :=
  let safetyMargin := min contextFitSafetyMarginTokens (manager.config.maxTokens / 8)
  max (manager.config.maxTokens - manager.config.responseReserve - safetyMargin) 1

def staticPrefix (strategy : Strategy) : List Placed :=
  (manager.systemPrompt.map fun prompt =>
    .made (.system (if strategy.config.addConciseDirective then
      prompt ++ "\n\nIMPERATIVE: Be extremely concise. Use minimal tokens to achieve the task."
    else prompt))).toList

def background (history : List Placed) (band : BackgroundPressureBand) : List Placed :=
  (manager.library.backgroundMessages (history.map (·.message)) band).map .made

/-- An injector that fails adds nothing. -/
def dynamicInjections (history : List Message) : List Placed :=
  manager.library.injectors.flatMap fun inject =>
    match inject history with
    | .ok messages => messages.map .made
    | .error _ => []

def estimate (isLocal : Bool) (messages : List Placed) : Nat :=
  estimateTokensForProvider bpe manager.library.render isLocal messages

/-- The latest user message and the last message, which may be the same. -/
def fallbackMessages (history : List Placed) : List Placed :=
  let messages := manager.staticPrefix .fallback ++ manager.background history .normal ++
    (latestUser history).toList
  match history.getLast? with
  | none => messages
  | some last =>
      let alreadyIncluded := messages.getLast?.any fun placed =>
        placed.message.role = last.message.role &&
          placed.message.text manager.library.render = last.message.text manager.library.render
      if alreadyIncluded then messages else messages ++ [last]

/-- Sums of machine words wrap around. -/
def historyBudget (history : List Message) (strategy : Strategy) (isLocal : Bool) : Nat :=
  let prefixTokens := manager.estimate bpe isLocal (manager.staticPrefix strategy) +
    manager.estimate bpe isLocal (manager.background [] .normal) +
    manager.estimate bpe isLocal (manager.dynamicInjections history)
  manager.config.maxTokens -
    (manager.config.responseReserve + contextFitSafetyMarginTokens + prefixTokens) % 2 ^ 64

def effectiveMaxHistory (strategy : Strategy) (isLocal : Bool) : Nat :=
  let window := max (manager.library.historyWindow manager.config.maxHistoryMessages
    strategy.config.maxHistoryRatio) 1
  if isLocal then min window localRecentHistoryMessages else window

def select (history : List Message) (strategy : Strategy) (isLocal : Bool) : HistorySelection :=
  selectHistory bpe manager.library.render isLocal (manager.effectiveMaxHistory strategy isLocal)
    (manager.historyBudget bpe history strategy isLocal) (placeHistory history)

/-- What stands before the history, under a pressure band. -/
def preamble (history : List Message) (strategy : Strategy) (isLocal : Bool)
    (band : BackgroundPressureBand) : List Placed :=
  let selection := manager.select bpe history strategy isLocal
  let enableSmartPruning := manager.config.smartPruning || strategy.config.enableSmartPruning
  let summary :=
    if enableSmartPruning && !selection.pruned.isEmpty &&
        !(isLocal && manager.hasBackgroundEnvelope) then
      [prunedHistorySummary manager.library.render selection.pruned]
    else []
  manager.staticPrefix strategy ++
    manager.background (restoreLatestUser (placeHistory history) selection.selected) band ++
    manager.dynamicInjections history ++ summary

/-- The messages before they are fitted: under pressure the background is built again. -/
def assemble (history : List Message) (strategy : Strategy) (isLocal : Bool) : List Placed :=
  let selected := restoreLatestUser (placeHistory history)
    (manager.select bpe history strategy isLocal).selected
  let messages := manager.preamble bpe history strategy isLocal .normal ++ selected
  let band :=
    if manager.config.maxTokens = 0 then .normal
    else manager.library.pressureBand (manager.estimate bpe isLocal messages)
      manager.config.maxTokens
  manager.preamble bpe history strategy isLocal band ++ selected

def contextMessages (history : List Message) (strategy : Strategy) (isLocal : Bool) :
    List Placed :=
  fitMessagesToPromptBudget bpe manager.library.render isLocal manager.finalContextPromptBudget
    (if strategy = .fallback then manager.fallbackMessages (placeHistory history)
    else manager.assemble bpe history strategy isLocal)

def buildContext (history : List Message) (strategy : Strategy) (isLocal : Bool) :
    Except String (List Placed) :=
  match manager.library.cl100kBase with
  | .error e => .error s!"Failed to load tokenizer: {e}"
  | .ok bpe => .ok (manager.contextMessages bpe history strategy isLocal)

end ContextManager

end BenShu.Agent
