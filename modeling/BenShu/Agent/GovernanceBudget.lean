import BenShu.Agent.Executor

/-!
# The budget of a governance context

Contexts that are derived from one another carry on what was registered of tokens and of tool
calls. Both are counted in words of 32 bits, which wrap around.
-/

namespace BenShu.Agent

structure GovernanceBudgetSnapshot where
  limit : Option UInt32
  used : UInt32
  remaining : Option UInt32
  exceeded : Bool
  toolCalls : UInt32
  deriving DecidableEq, Repr

structure TokenUsage where
  promptTokens : UInt32
  completionTokens : UInt32
  totalTokens : UInt32

/-- Handlers, workspaces and the risk score are only handed on. -/
structure GovernanceContext (Approval Path Security Score : Type) where
  toolPolicy : RiskyToolPolicy
  approvalHandler : Approval
  trustedWorkspaces : List Path
  securityHandler : Security
  riskScore : Score
  tokenBudget : Option UInt32
  consumedTokens : UInt32
  toolCalls : UInt32

/-- What makes the next context of a chain, or registers on the last one. -/
inductive GovernanceStep (Approval Path Security Score : Type) where
  | withToolPolicy (toolPolicy : RiskyToolPolicy)
  | withApprovalHandler (approvalHandler : Approval)
  | withTrustedWorkspaces (trustedWorkspaces : List Path)
  | withSecurityHandler (securityHandler : Security)
  | withRiskScore (riskScore : Score)
  | inheritFull
  | registerTokenUsage (usage : TokenUsage)
  | registerToolCall

section Governance

variable {Approval Path Security Score : Type}

namespace GovernanceContext

def new (toolPolicy : RiskyToolPolicy) (approvalHandler : Approval) (trustedWorkspaces : List Path)
    (securityHandler : Security) (riskScore : Score) (tokenBudget : Option UInt32) :
    GovernanceContext Approval Path Security Score :=
  { toolPolicy, approvalHandler, trustedWorkspaces, securityHandler, riskScore, tokenBudget,
    consumedTokens := 0, toolCalls := 0 }

variable (context other : GovernanceContext Approval Path Security Score)

def budgetSnapshot : GovernanceBudgetSnapshot :=
  let used := context.consumedTokens
  let limit := context.tokenBudget
  { limit := limit
    used := used
    remaining := limit.map fun value => if used ≤ value then value - used else 0
    exceeded := limit.any (used > ·)
    toolCalls := context.toolCalls }

/-- `fetch_add` wraps around. -/
def registerTokenUsage (usage : TokenUsage) : GovernanceContext Approval Path Security Score :=
  { context with consumedTokens := context.consumedTokens + usage.totalTokens }

def registerToolCall : GovernanceContext Approval Path Security Score :=
  { context with toolCalls := context.toolCalls + 1 }

def cloneCountersFrom : GovernanceContext Approval Path Security Score :=
  { context with consumedTokens := other.consumedTokens, toolCalls := other.toolCalls }

def withToolPolicy (toolPolicy : RiskyToolPolicy) :
    GovernanceContext Approval Path Security Score :=
  (new toolPolicy context.approvalHandler context.trustedWorkspaces context.securityHandler
    context.riskScore context.tokenBudget).cloneCountersFrom context

def withApprovalHandler (approvalHandler : Approval) :
    GovernanceContext Approval Path Security Score :=
  (new context.toolPolicy approvalHandler context.trustedWorkspaces context.securityHandler
    context.riskScore context.tokenBudget).cloneCountersFrom context

def withTrustedWorkspaces (trustedWorkspaces : List Path) :
    GovernanceContext Approval Path Security Score :=
  (new context.toolPolicy context.approvalHandler trustedWorkspaces context.securityHandler
    context.riskScore context.tokenBudget).cloneCountersFrom context

def withSecurityHandler (securityHandler : Security) :
    GovernanceContext Approval Path Security Score :=
  (new context.toolPolicy context.approvalHandler context.trustedWorkspaces securityHandler
    context.riskScore context.tokenBudget).cloneCountersFrom context

def withRiskScore (riskScore : Score) : GovernanceContext Approval Path Security Score :=
  (new context.toolPolicy context.approvalHandler context.trustedWorkspaces
    context.securityHandler riskScore context.tokenBudget).cloneCountersFrom context

def inheritFull : GovernanceContext Approval Path Security Score :=
  context.withRiskScore context.riskScore

end GovernanceContext

namespace GovernanceStep

def apply (context : GovernanceContext Approval Path Security Score) :
    GovernanceStep Approval Path Security Score → GovernanceContext Approval Path Security Score
  | withToolPolicy toolPolicy => context.withToolPolicy toolPolicy
  | withApprovalHandler approvalHandler => context.withApprovalHandler approvalHandler
  | withTrustedWorkspaces trustedWorkspaces => context.withTrustedWorkspaces trustedWorkspaces
  | withSecurityHandler securityHandler => context.withSecurityHandler securityHandler
  | withRiskScore riskScore => context.withRiskScore riskScore
  | inheritFull => context.inheritFull
  | registerTokenUsage usage => context.registerTokenUsage usage
  | registerToolCall => context.registerToolCall

def tokens : GovernanceStep Approval Path Security Score → Nat
  | registerTokenUsage usage => usage.totalTokens.toNat
  | _ => 0

def calls : GovernanceStep Approval Path Security Score → Nat
  | registerToolCall => 1
  | _ => 0

end GovernanceStep

namespace GovernanceContext

def chain (start : GovernanceContext Approval Path Security Score)
    (steps : List (GovernanceStep Approval Path Security Score)) :
    GovernanceContext Approval Path Security Score :=
  steps.foldl GovernanceStep.apply start

theorem apply_counts (context : GovernanceContext Approval Path Security Score)
    (step : GovernanceStep Approval Path Security Score) :
    (step.apply context).tokenBudget = context.tokenBudget ∧
      (step.apply context).consumedTokens.toNat =
        (context.consumedTokens.toNat + step.tokens) % 2 ^ 32 ∧
      (step.apply context).toolCalls.toNat = (context.toolCalls.toNat + step.calls) % 2 ^ 32 := by
  have hkept (count : UInt32) : count.toNat = count.toNat % 2 ^ 32 :=
    (Nat.mod_eq_of_lt count.toNat_lt).symm
  cases step with
  | registerTokenUsage usage => exact ⟨rfl, UInt32.toNat_add _ _, hkept _⟩
  | registerToolCall => exact ⟨rfl, hkept _, UInt32.toNat_add _ _⟩
  | _ => exact ⟨rfl, hkept _, hkept _⟩

theorem chain_counts (start : GovernanceContext Approval Path Security Score)
    (steps : List (GovernanceStep Approval Path Security Score)) :
    (start.chain steps).tokenBudget = start.tokenBudget ∧
      (start.chain steps).consumedTokens.toNat =
        (start.consumedTokens.toNat + (steps.map (·.tokens)).sum) % 2 ^ 32 ∧
      (start.chain steps).toolCalls.toNat =
        (start.toolCalls.toNat + (steps.map (·.calls)).sum) % 2 ^ 32 := by
  induction steps generalizing start with
  | nil =>
      refine ⟨rfl, ?_, ?_⟩
      · exact (Nat.mod_eq_of_lt start.consumedTokens.toNat_lt).symm
      · exact (Nat.mod_eq_of_lt start.toolCalls.toNat_lt).symm
  | cons step steps ih =>
      obtain ⟨hbudget, htokens, hcalls⟩ := apply_counts start step
      obtain ⟨hbudget', htokens', hcalls'⟩ := ih (step.apply start)
      simp only [List.map_cons, List.sum_cons]
      refine ⟨hbudget'.trans hbudget, ?_, ?_⟩
      · rw [show start.chain (step :: steps) = (step.apply start).chain steps from rfl, htokens',
          htokens, Nat.mod_add_mod, Nat.add_assoc]
      · rw [show start.chain (step :: steps) = (step.apply start).chain steps from rfl, hcalls',
          hcalls, Nat.mod_add_mod, Nat.add_assoc]

/-- The counts of the last context are sums over the chain, and a budget that a snapshot has
found exceeded stays so. -/
structure Accounted (start : GovernanceContext Approval Path Security Score)
    (steps : List (GovernanceStep Approval Path Security Score)) : Prop where
  used : (start.chain steps).budgetSnapshot.used.toNat =
    start.consumedTokens.toNat + (steps.map (·.tokens)).sum
  toolCalls : (start.chain steps).budgetSnapshot.toolCalls.toNat =
    start.toolCalls.toNat + (steps.map (·.calls)).sum
  exceeded : ∀ earlier between later, steps = earlier ++ between ++ later →
    (start.chain earlier).budgetSnapshot.exceeded = true →
      (start.chain (earlier ++ between)).budgetSnapshot.exceeded = true

/-- A chain is accounted for exactly where its sums fit into the counters. -/
theorem accounted_iff (start : GovernanceContext Approval Path Security Score)
    (steps : List (GovernanceStep Approval Path Security Score)) :
    start.Accounted steps ↔
      start.consumedTokens.toNat + (steps.map (·.tokens)).sum < 2 ^ 32 ∧
        start.toolCalls.toNat + (steps.map (·.calls)).sum < 2 ^ 32 := by
  constructor
  · intro h
    exact ⟨h.used ▸ UInt32.toNat_lt _, h.toolCalls ▸ UInt32.toNat_lt _⟩
  · rintro ⟨htokens, hcalls⟩
    obtain ⟨-, hused, htoolCalls⟩ := chain_counts start steps
    refine ⟨?_, ?_, ?_⟩
    · exact hused.trans (Nat.mod_eq_of_lt htokens)
    · exact htoolCalls.trans (Nat.mod_eq_of_lt hcalls)
    · rintro earlier between later rfl hexceeded
      obtain ⟨hbudget, hearlier, -⟩ := chain_counts start earlier
      obtain ⟨hbudget', hbetween, -⟩ := chain_counts start (earlier ++ between)
      simp only [List.map_append, List.sum_append] at htokens hbetween
      rw [Nat.mod_eq_of_lt (by omega)] at hearlier hbetween
      unfold budgetSnapshot at hexceeded ⊢
      dsimp only at hexceeded ⊢
      rw [hbudget] at hexceeded
      rw [hbudget']
      rcases hlimit : start.tokenBudget with _ | limit
      · rw [hlimit] at hexceeded
        cases hexceeded
      · rw [hlimit] at hexceeded
        have hover := UInt32.lt_iff_toNat_lt.mp (of_decide_eq_true hexceeded)
        exact decide_eq_true (UInt32.lt_iff_toNat_lt.mpr (by omega))

/-- One more token after `u32::MAX` of them, and a budget of a hundred is kept again. -/
theorem budget_wraps_around :
    ¬∀ (start : GovernanceContext Unit Unit Unit Unit)
      (steps : List (GovernanceStep Unit Unit Unit Unit)), start.Accounted steps := by
  intro h
  have hfull := (h (new ⟨.auto, ∅⟩ () [] () () (some 100))
    [.registerTokenUsage ⟨0, 4294967295, 4294967295⟩, .registerTokenUsage ⟨1, 0, 1⟩]).exceeded
      [.registerTokenUsage ⟨0, 4294967295, 4294967295⟩] [.registerTokenUsage ⟨1, 0, 1⟩] [] rfl
      (by decide)
  exact absurd hfull (by decide)

end GovernanceContext

end Governance

end BenShu.Agent
