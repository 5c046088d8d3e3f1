import BenShu.Lib.Glob
import BenShu.Memory.BackgroundText

/-!
# Approval policies

A call of a tool is approved, denied or put to the user. The first policy whose pattern
matches the name of the tool decides, and a default if none does.
-/

namespace BenShu.Approval

open Memory (previewText)

inductive ApprovalDecision where
  | autoApprove
  | deny (reason : String)
  | requireConfirmation (message : String)
  deriving DecidableEq

inductive PolicyAction where
  | allow
  | deny
  | ask

structure ToolPolicy where
  pattern : String
  action : PolicyAction
  reason : Option String := none

structure ApprovalPolicy where
  defaultAction : PolicyAction := .allow
  toolPolicies : List ToolPolicy := []
  autoApproveVerified : Bool := true
  maxArgsPreview : Nat := 500

def previewTextWithTotal (input : String) (maxChars : Nat) : String :=
  if maxChars = 0 ∨ Text.charCount input ≤ maxChars then input
  else s!"{previewText input maxChars} ({Text.charCount input} chars total)"

/-- Two parts around one star are compared with both ends of the name, and a pattern with
more stars with the whole of it. -/
def matchesPattern (pattern name : String) : Bool :=
  if pattern == "*" then true
  else if !pattern.toList.contains '*' then pattern == name
  else match Text.split pattern (· == '*') with
    | [before, after] => Text.startsWith name before && Text.endsWith name after
    | _ => pattern == name

def ToolPolicy.decision (policy : ToolPolicy) (toolName arguments : String) (maxArgsPreview : Nat) :
    ApprovalDecision :=
  match policy.action with
  | .allow => .autoApprove
  | .deny => .deny (policy.reason.getD s!"Tool '{toolName}' is denied by policy")
  | .ask => .requireConfirmation
      (s!"Tool '{toolName}' wants to execute with arguments:\n" ++
        s!"{previewTextWithTotal arguments maxArgsPreview}\n" ++
        policy.reason.getD "Approve this action?")

def ApprovalPolicy.defaultDecision (policy : ApprovalPolicy) (toolName arguments : String) :
    ApprovalDecision :=
  match policy.defaultAction with
  | .allow => .autoApprove
  | .deny => .deny "Denied by default policy"
  | .ask => .requireConfirmation
      (s!"Allow tool '{toolName}' to execute?\n" ++
        s!"Arguments: {previewText arguments policy.maxArgsPreview}")

structure PolicyEngine where
  policy : ApprovalPolicy := {}
  sessionOverrides : Table String ApprovalDecision := ∅

namespace PolicyEngine

def evaluate (engine : PolicyEngine) (toolName arguments : String) (isVerified : Bool) :
    ApprovalDecision :=
  match engine.sessionOverrides.lookup toolName with
  | some decision => decision
  | none =>
      if isVerified && engine.policy.autoApproveVerified then .autoApprove
      else match engine.policy.toolPolicies.find? fun policy => matchesPattern policy.pattern toolName with
        | some policy => policy.decision toolName arguments engine.policy.maxArgsPreview
        | none => engine.policy.defaultDecision toolName arguments

end PolicyEngine

/-! ## Patterns -/

/-- The name is one that the pattern stands for; a pattern with more than one star stands
for itself. -/
def PatternMatches (pattern name : String) : Prop :=
  if pattern.toList.count '*' ≤ 1 then Glob.Matches '*' pattern.toList name.toList
  else name = pattern

/-- The parts around the only star of the pattern share letters in the name. -/
def PatternOverlaps (pattern name : String) : Prop :=
  ∃ before after, pattern.toList = before ++ '*' :: after ∧ '*' ∉ before ∧ '*' ∉ after ∧
    Glob.Overlaps before after name.toList

variable {pattern name : String}

theorem split_plain {l : List Char} (h : '*' ∉ l) : ∀ c ∈ l, (c == '*') = false := by
  intro c hc
  rw [beq_eq_false_iff_ne]
  rintro rfl
  exact h hc

theorem matchesPattern_plain (h : '*' ∉ pattern.toList) :
    matchesPattern pattern name = true ↔ name = pattern := by
  have hne : pattern ≠ "*" := by
    rintro rfl
    exact h (by decide)
  unfold matchesPattern
  rw [if_neg (by simpa using hne), if_pos (by simpa using h), beq_iff_eq]
  exact eq_comm

theorem matchesPattern_one_star {before after : List Char}
    (h : pattern.toList = before ++ '*' :: after) (hbefore : '*' ∉ before) (hafter : '*' ∉ after) :
    matchesPattern pattern name = true ↔ before <+: name.toList ∧ after <:+ name.toList := by
  have hsplit : Text.split pattern (· == '*') = [.ofList before, .ofList after] := by
    unfold Text.split
    rw [h, Text.splitAux_piece (split_plain hbefore) (by simp), Text.splitAux_last (split_plain hafter)]
    rfl
  unfold matchesPattern
  by_cases hstar : pattern = "*"
  · have hparts : before ++ '*' :: after = ['*'] := by
      rw [← h, hstar]
      rfl
    have hnil : before = [] ∧ after = [] := by
      cases before with
      | nil => exact ⟨rfl, (List.cons.inj hparts).2⟩
      | cons c before => simp at hparts
    rw [if_pos (by simpa using hstar), hnil.1, hnil.2]
    simp
  · rw [if_neg (by simpa using hstar), if_neg (by simp [h]), hsplit]
    simp [Text.startsWith, Text.endsWith]

theorem matchesPattern_more_stars {before middle after : List Char}
    (h : pattern.toList = before ++ '*' :: (middle ++ '*' :: after)) (hbefore : '*' ∉ before)
    (hmiddle : '*' ∉ middle) : matchesPattern pattern name = true ↔ name = pattern := by
  have hne : pattern ≠ "*" := by
    rintro rfl
    have hlength := congrArg List.length h
    simp at hlength
    omega
  have hsplit : ∃ last lasts, Text.split pattern (· == '*') =
      .ofList before :: .ofList middle :: last :: lasts := by
    unfold Text.split
    rw [h, Text.splitAux_piece (split_plain hbefore) (by simp),
      Text.splitAux_piece (split_plain hmiddle) (by simp)]
    cases hrest : Text.splitAux (· == '*') after [] with
    | nil => exact absurd hrest (Text.splitAux_ne_nil _ _ _)
    | cons last lasts => exact ⟨_, _, rfl⟩
  obtain ⟨last, lasts, hsplit⟩ := hsplit
  unfold matchesPattern
  rw [if_neg (by simpa using hne), if_neg (by simp [h]), hsplit]
  dsimp only
  rw [beq_iff_eq]
  exact eq_comm

theorem patternMatches_plain (h : '*' ∉ pattern.toList) :
    PatternMatches pattern name ↔ name = pattern := by
  unfold PatternMatches
  rw [if_pos (by rw [List.count_eq_zero_of_not_mem h]; omega), Glob.matches_plain h]
  exact String.toList_inj

theorem patternMatches_one_star {before after : List Char}
    (h : pattern.toList = before ++ '*' :: after) (hbefore : '*' ∉ before) (hafter : '*' ∉ after) :
    PatternMatches pattern name ↔
      (before <+: name.toList ∧ after <:+ name.toList) ∧ ¬Glob.Overlaps before after name.toList := by
  have hcount : pattern.toList.count '*' = 1 := by
    rw [h, List.count_append, List.count_cons_self, List.count_eq_zero_of_not_mem hbefore,
      List.count_eq_zero_of_not_mem hafter]
  unfold PatternMatches
  rw [if_pos (by omega), h, Glob.matches_one_star_iff hbefore hafter]

theorem patternMatches_more_stars {before middle after : List Char}
    (h : pattern.toList = before ++ '*' :: (middle ++ '*' :: after)) :
    PatternMatches pattern name ↔ name = pattern := by
  have hcount : 2 ≤ pattern.toList.count '*' := by
    rw [h]
    simp only [List.count_append, List.count_cons_self]
    omega
  unfold PatternMatches
  rw [if_neg (by omega)]

theorem patternOverlaps_one_star {before after : List Char}
    (h : pattern.toList = before ++ '*' :: after) (hbefore : '*' ∉ before) (hafter : '*' ∉ after) :
    PatternOverlaps pattern name ↔ Glob.Overlaps before after name.toList := by
  constructor
  · rintro ⟨before', after', h', hbefore', hafter', hoverlaps⟩
    obtain ⟨rfl, rfl⟩ := Text.append_cons_inj_of_notMem_left (h.symm.trans h') hbefore hbefore'
    exact hoverlaps
  · intro hoverlaps
    exact ⟨before, after, h, hbefore, hafter, hoverlaps⟩

/-- A pattern accepts the names that it stands for, and those in which the parts around
its only star share letters. -/
theorem matchesPattern_iff :
    matchesPattern pattern name = true ↔
      PatternMatches pattern name ∨ PatternOverlaps pattern name := by
  rcases Glob.shape '*' pattern.toList with hplain | ⟨before, after, h, hbefore, hafter⟩ |
      ⟨before, middle, after, h, hbefore, hmiddle⟩
  · rw [matchesPattern_plain hplain, patternMatches_plain hplain]
    refine (or_iff_left ?_).symm
    rintro ⟨before, after, h, -⟩
    exact hplain (by simp [h])
  · rw [matchesPattern_one_star h hbefore hafter, patternMatches_one_star h hbefore hafter,
      patternOverlaps_one_star h hbefore hafter]
    by_cases hoverlaps : Glob.Overlaps before after name.toList
    · exact iff_of_true ⟨hoverlaps.1, hoverlaps.2.1⟩ (.inr hoverlaps)
    · rw [or_iff_left hoverlaps, and_iff_left hoverlaps]
  · rw [matchesPattern_more_stars h hbefore hmiddle, patternMatches_more_stars h]
    refine (or_iff_left ?_).symm
    rintro ⟨before', after', h', hbefore', hafter', -⟩
    obtain ⟨-, rfl⟩ := Text.append_cons_inj_of_notMem_left (h.symm.trans h') hbefore hbefore'
    exact hafter' (by simp)

/-! ## Decisions -/

theorem find?_of_split {policies before after : List ToolPolicy} {policy : ToolPolicy}
    (h : policies = before ++ policy :: after)
    (hbefore : ∀ other ∈ before, matchesPattern other.pattern name = false)
    (hpolicy : matchesPattern policy.pattern name = true) :
    (policies.find? fun policy => matchesPattern policy.pattern name) = some policy := by
  rw [h, List.find?_append, List.find?_eq_none.mpr fun other hother => by simp [hbefore other hother],
    Option.none_or, List.find?_cons_eq_some]
  exact .inl ⟨hpolicy, rfl⟩

/-- Without an override and without a verification the first policy decides whose pattern
stands for the name, and the default decides if no pattern does, as long as no earlier
pattern overlaps in the name. -/
theorem evaluate_spec (engine : PolicyEngine) (toolName arguments : String) (isVerified : Bool)
    (hoverride : engine.sessionOverrides.lookup toolName = none)
    (hverified : (isVerified && engine.policy.autoApproveVerified) = false) :
    (∀ before policy after, engine.policy.toolPolicies = before ++ policy :: after →
        (∀ other ∈ before, ¬PatternMatches other.pattern toolName ∧
          ¬PatternOverlaps other.pattern toolName) →
        PatternMatches policy.pattern toolName →
        engine.evaluate toolName arguments isVerified =
          policy.decision toolName arguments engine.policy.maxArgsPreview) ∧
      ((∀ other ∈ engine.policy.toolPolicies, ¬PatternMatches other.pattern toolName ∧
          ¬PatternOverlaps other.pattern toolName) →
        engine.evaluate toolName arguments isVerified =
          engine.policy.defaultDecision toolName arguments) := by
  have hnot : ∀ other : ToolPolicy, ¬PatternMatches other.pattern toolName ∧
      ¬PatternOverlaps other.pattern toolName → matchesPattern other.pattern toolName = false := by
    intro other hother
    rw [← Bool.not_eq_true, matchesPattern_iff, not_or]
    exact hother
  constructor
  · intro before policy after hpolicies hbefore hpolicy
    have hfind := find?_of_split hpolicies (fun other hother => hnot other (hbefore other hother))
      (matchesPattern_iff.mpr (.inl hpolicy))
    simp only [PolicyEngine.evaluate, hoverride, hverified, hfind]
    rfl
  · intro hall
    have hfind : (engine.policy.toolPolicies.find? fun policy =>
        matchesPattern policy.pattern toolName) = none :=
      List.find?_eq_none.mpr fun other hother => by simp [hnot other (hall other hother)]
    simp only [PolicyEngine.evaluate, hoverride, hverified, hfind]
    rfl

def execDenied : PolicyEngine where
  policy := { toolPolicies := [⟨"exec_*", .deny, some "Execution tools are blocked"⟩] }

theorem evaluate_spec_exec : execDenied.evaluate "exec_command" "{}" false =
    .deny "Execution tools are blocked" := by
  have hpattern : "exec_*".toList = "exec_".toList ++ '*' :: [] := rfl
  refine ((evaluate_spec execDenied "exec_command" "{}" false rfl rfl).1 [] _ [] rfl (by simp)
    ?_)
  exact (patternMatches_one_star hpattern (by decide) (by simp)).mpr (by decide)

/-- A star before and after a word does not deny the names that hold the word. -/
theorem two_stars_not_glob :
    let engine : PolicyEngine := { policy := { toolPolicies := [⟨"*exec*", .deny, none⟩] } }
    Glob.Matches '*' "*exec*".toList "run_exec_now".toList ∧
      engine.evaluate "run_exec_now" "{}" false = .autoApprove := by
  have hplain : '*' ∉ "exec".toList := by decide
  refine ⟨?_, by decide⟩
  show Glob.Matches '*' ('*' :: ("exec".toList ++ ['*'])) _
  rw [Glob.matches_star_cons]
  refine ⟨"run_".toList, "exec_now".toList, rfl, ?_⟩
  rw [Glob.matches_append hplain]
  exact ⟨"_now".toList, rfl, Glob.matches_star_cons.mpr ⟨"_now".toList, [], rfl, rfl⟩⟩

end BenShu.Approval
