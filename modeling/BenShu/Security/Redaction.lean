import BenShu.Lib.JsonTree
import BenShu.Lib.MaskedText
import BenShu.Lib.Text

/-!
# The leak detector

The patterns are applied one after another, each to the text that the ones before it left.
A pass replaces its matches from the last to the first. Positions count characters.
-/

namespace BenShu.Security

open TextPattern MaskedText

inductive LeakAction where
  | block
  | redact
  | warn
  deriving DecidableEq

structure LeakDetection where
  patternName : String
  redactedValue : String
  action : LeakAction
  deriving DecidableEq

structure SecretPattern where
  name : String
  regex : Pattern
  action : LeakAction

structure LeakDetector where
  patterns : List SecretPattern

def token (chars : String) (allowed : Char → Bool) (atLeast : Nat) (atMost : Option Nat) :
    Pattern :=
  [.text chars.toList, .run allowed atLeast atMost]

def alphanumericOr (others : String) (c : Char) : Bool :=
  c.isAlphanum || others.toList.contains c

def upperOrDigit (c : Char) : Bool := c.isUpper || c.isDigit

def patternDefs : List SecretPattern :=
  [⟨"anthropic_api_key", token "sk-ant-api" (alphanumericOr "-") 20 none, .redact⟩,
    ⟨"openai_api_key", token "sk-" (alphanumericOr "") 20 none, .redact⟩,
    ⟨"aws_access_key", token "AKIA" upperOrDigit 16 (some 16), .redact⟩,
    ⟨"github_pat", token "github_pat_" (alphanumericOr "_") 22 none, .redact⟩,
    ⟨"github_token", token "ghp_" (alphanumericOr "") 36 (some 36), .redact⟩,
    ⟨"stripe_live_key", token "sk_live_" (alphanumericOr "") 24 none, .redact⟩,
    ⟨"stripe_test_key", token "sk_test_" (alphanumericOr "") 24 none, .redact⟩,
    ⟨"google_api_key", token "AIza" (alphanumericOr "_-") 35 (some 35), .redact⟩,
    ⟨"slack_bot_token", token "xoxb-" (alphanumericOr "-") 1 none, .redact⟩,
    ⟨"slack_user_token", token "xoxp-" (alphanumericOr "-") 1 none, .redact⟩,
    ⟨"bearer_token", token "Bearer " (alphanumericOr "._-") 20 none, .redact⟩,
    ⟨"minimax_api_key", token "mm-" (alphanumericOr "") 20 none, .redact⟩,
    ⟨"pem_private_key",
      [.text "-----BEGIN ".toList,
        .oneOf ["RSA ".toList, "EC ".toList, "DSA ".toList, "OPENSSH ".toList, []],
        .text "PRIVATE KEY-----".toList], .block⟩,
    ⟨"authorization_header",
      [.text "Authorization:".toList, .run Text.isWhitespace 0 none,
        .run (alphanumericOr "._-") 20 none], .warn⟩,
    ⟨"generic_jwt",
      [.text "eyJ".toList, .run (alphanumericOr "_-") 10 none, .text ".".toList,
        .run (alphanumericOr "_-") 10 none, .text ".".toList,
        .run (alphanumericOr "_-") 10 none], .warn⟩]

def redactString (s : String) : String :=
  let charCount := s.toList.length
  if charCount ≤ 8 then "***"
  else
    let start := s.toList.take 4
    let suffix := (s.toList.reverse.take 4).reverse
    .ofList start ++ "***" ++ .ofList suffix

def findIter (regex : Pattern) (s : String) : List (Nat × Nat × String) :=
  (find regex s.toList).map fun m =>
    (m.start, m.stop, .ofList (slice s.toList m.start m.stop))

namespace LeakDetector

def new : LeakDetector := ⟨patternDefs⟩

def redactMatch (pattern : SecretPattern) (m : Nat × Nat × String)
    (state : String × List LeakDetection) : String × List LeakDetection :=
  let (start, stop, matched) := m
  let (result, detections) := state
  let detections := detections ++ [⟨pattern.name, matched, pattern.action⟩]
  if pattern.action = .redact then
    (.ofList (replaceRange result.toList start stop (redactString matched).toList), detections)
  else (result, detections)

def redactPattern (state : String × List LeakDetection) (pattern : SecretPattern) :
    String × List LeakDetection :=
  (findIter pattern.regex state.1).foldr (redactMatch pattern) state

def redact (self : LeakDetector) (input : String) : String × List LeakDetection :=
  self.patterns.foldl redactPattern (input, [])

/-! ## One pass as masking -/

/-- Nothing is kept of eight characters or fewer, else the first and the last four. -/
def marking : Marking where
  mark := '*'
  count := 3
  kept n := if n ≤ 8 then 0 else 4
  count_pos := by decide
  kept_le n := by
    split_ifs
    · exact Nat.zero_le n
    · omega

theorem kept_le_four (n : Nat) : marking.kept n ≤ 4 := by
  show (if n ≤ 8 then 0 else 4) ≤ 4
  split_ifs <;> omega

theorem toList_redactString (s : String) :
    (redactString s).toList = marking.mask s.toList := by
  unfold redactString Marking.mask Marking.keptStart Marking.keptEnd marking
  simp only
  split_ifs with hshort
  · simp [List.replicate]
  · rw [String.toList_append, String.toList_append, String.toList_ofList, String.toList_ofList,
      List.reverse_take, List.reverse_reverse, List.length_reverse]
    simp [List.replicate]

def pass (pattern : SecretPattern) (cs : List Char) : List Char :=
  if pattern.action = .redact then maskAll marking.mask pattern.regex cs else cs

theorem toList_redactPattern (state : String × List LeakDetection) (pattern : SecretPattern) :
    (redactPattern state pattern).1.toList = pass pattern state.1.toList := by
  unfold redactPattern findIter pass maskAll
  rw [List.foldr_map]
  generalize find pattern.regex state.1.toList = found
  generalize hbefore : state.1.toList = before
  split_ifs with haction
  · induction found with
    | nil => simpa using hbefore
    | cons m found ih =>
        rw [List.foldr_cons, List.foldr_cons, ← ih]
        simp only [redactMatch, if_pos haction, String.toList_ofList, maskFound,
          toList_redactString]
  · induction found with
    | nil => simpa using hbefore
    | cons m found ih =>
        rw [List.foldr_cons, redactMatch]
        simp only [if_neg haction]
        exact ih

theorem toList_redact (self : LeakDetector) (input : String) :
    (self.redact input).1.toList = self.patterns.foldl (fun cs p => pass p cs) input.toList := by
  have hrun : ∀ (patterns : List SecretPattern) (state : String × List LeakDetection),
      (patterns.foldl redactPattern state).1.toList =
        patterns.foldl (fun cs p => pass p cs) state.1.toList := by
    intro patterns
    induction patterns with
    | nil => exact fun _ => rfl
    | cons p patterns ih =>
        intro state
        rw [List.foldl_cons, List.foldl_cons, ih, toList_redactPattern]
  exact hrun self.patterns (input, [])

end LeakDetector

end BenShu.Security

/-!
# What redaction leaves

A pass leaves no text that was not there before, so the only matches in the answer are of
the pattern of a pass that left one: a match that begins in the last four characters, which
are kept, of the match before it.
-/

namespace BenShu.Security.LeakDetector

open TextPattern MaskedText

def Clean (patterns : List SecretPattern) (s : String) : Prop :=
  ∀ p ∈ patterns, p.action = .redact → ¬Occurs p.regex s.toList

def redactText (active : List SecretPattern) (s : String) : String :=
  (LeakDetector.redact ⟨active⟩ s).1

/-- A match ends only where its run ends, and its literal would prolong the run. -/
def selfDelimiting (p : SecretPattern) : Bool :=
  match p.regex with
  | [.text chars, .run allowed _ none] => decide (4 < chars.length) && (chars.take 5).all allowed
  | _ => false

/-! ## The passes -/

theorem patternDefs_avoid : ∀ p ∈ patternDefs, avoids '*' p.regex = true := by decide +kernel

theorem patternDefs_long : ∀ p ∈ patternDefs, 4 < minLength p.regex := by decide +kernel

theorem patternDefs_names : (patternDefs.map (·.name)).Nodup := by decide

section

variable {active : List SecretPattern} (hactive : active.Sublist patternDefs)

include hactive

variable {p : SecretPattern}

theorem avoids_of_active (hp : p ∈ active) : avoids marking.mark p.regex = true :=
  patternDefs_avoid p (hactive.subset hp)

theorem long_of_active (hp : p ∈ active) (n : Nat) : marking.kept n < minLength p.regex :=
  Nat.lt_of_le_of_lt (kept_le_four n) (patternDefs_long p (hactive.subset hp))

theorem scanned_of_active (hp : p ∈ active) (cs : List Char) : Scanned p.regex cs :=
  scanned (Nat.lt_of_le_of_lt (Nat.zero_le _) (long_of_active hactive hp 0)) cs

theorem occurs_of_occurs_pass {q : SecretPattern} (hp : p ∈ active) (hq : q ∈ active)
    {cs : List Char} (h : Occurs q.regex (pass p cs)) : Occurs q.regex cs := by
  unfold pass at h
  split_ifs at h with haction
  · obtain ⟨word, hinfix, hmatches⟩ := h
    have hmark := hmatches.notMem (avoids_of_active hactive hq)
    have hbefore := infix_of_infix_maskAll (scanned_of_active hactive hp cs) hmark [] hinfix
    exact ⟨word, hbefore, hmatches⟩
  · exact h

theorem occurs_pass_iff (hp : p ∈ active) (haction : p.action = .redact) (cs : List Char) :
    Occurs p.regex (pass p cs) ↔ Leftover marking p.regex cs := by
  rw [pass, if_pos haction]
  exact occurs_maskAll_iff (avoids_of_active hactive hp) (long_of_active hactive hp) cs

theorem pass_eq_self_iff (hp : p ∈ active) (cs : List Char) :
    pass p cs = cs ↔ (p.action = .redact → ¬Occurs p.regex cs) := by
  unfold pass
  split_ifs with haction
  · rw [maskAll_eq_self_iff (avoids_of_active hactive hp) (long_of_active hactive hp)]
    simp [haction]
  · simp [haction]

theorem count_le_pass (hp : p ∈ active) (cs : List Char) :
    cs.count '*' ≤ (pass p cs).count '*' ∧
      ((pass p cs).count '*' = cs.count '*' → pass p cs = cs) := by
  unfold pass
  split_ifs with haction
  · have hcount := count_maskAll (avoids_of_active hactive hp)
      (scanned_of_active hactive hp cs) 0
    change (maskAll marking.mask p.regex cs).count '*' =
      cs.count '*' + 3 * (find p.regex cs).length at hcount
    refine ⟨by omega, fun heq => ?_⟩
    have hnone : find p.regex cs = [] := List.length_eq_zero_iff.mp (by omega)
    rw [maskAll, hnone, List.foldr_nil]
  · exact ⟨Nat.le_refl _, fun _ => rfl⟩

end

theorem toList_redactText (active : List SecretPattern) (s : String) :
    (redactText active s).toList = active.foldl (fun cs p => pass p cs) s.toList :=
  toList_redact ⟨active⟩ s

theorem toList_redactText_concat (done : List SecretPattern) (p : SecretPattern) (s : String) :
    (redactText (done ++ [p]) s).toList = pass p (redactText done s).toList := by
  rw [toList_redactText, toList_redactText, List.foldl_append, List.foldl_cons, List.foldl_nil]

section

variable {active : List SecretPattern} (hactive : active.Sublist patternDefs)

include hactive

theorem clean_concat_iff {done : List SecretPattern} {p : SecretPattern} {s : String}
    (hdone : done ++ [p] <+: active) (hclean : Clean done (redactText done s)) :
    Clean (done ++ [p]) (redactText (done ++ [p]) s) ↔
      (p.action = .redact → ¬Leftover marking p.regex (redactText done s).toList) := by
  have hp : p ∈ active := hdone.subset (by simp)
  have hold : ∀ q ∈ done, q.action = .redact →
      ¬Occurs q.regex (pass p (redactText done s).toList) := fun q hq haction hoccurs =>
    hclean q hq haction
      (occurs_of_occurs_pass hactive hp (hdone.subset (List.mem_append_left _ hq)) hoccurs)
  unfold Clean
  rw [toList_redactText_concat, List.forall_mem_append, and_iff_right hold,
    List.forall_mem_singleton]
  exact forall_congr' fun haction => not_congr (occurs_pass_iff hactive hp haction _)

/-- After every pass the text is clean of the patterns so far exactly when no pass finds a
text of which it leaves a match. -/
theorem clean_run_iff (s : String) :
    (∀ done, done <+: active → Clean done (redactText done s)) ↔
      ∀ done p, done ++ [p] <+: active → p.action = .redact →
        ¬Leftover marking p.regex (redactText done s).toList := by
  constructor
  · intro hclean done p hdone
    have hbefore := hclean done ((List.prefix_append done [p]).trans hdone)
    exact (clean_concat_iff hactive hdone hbefore).mp (hclean _ hdone)
  · intro hleft done
    induction done using List.reverseRecOn with
    | nil => exact fun _ p hp => absurd hp List.not_mem_nil
    | append_singleton done p ih =>
        intro hdone
        have hbefore := ih ((List.prefix_append done [p]).trans hdone)
        exact (clean_concat_iff hactive hdone hbefore).mpr (hleft done p hdone)

/-- Marks are only added, and nothing is changed but by adding them. -/
theorem foldl_pass {rest : List SecretPattern} (hrest : rest ⊆ active) (cs : List Char) :
    cs.count '*' ≤ (rest.foldl (fun cs p => pass p cs) cs).count '*' ∧
      (rest.foldl (fun cs p => pass p cs) cs = cs ↔
        ∀ p ∈ rest, p.action = .redact → ¬Occurs p.regex cs) := by
  induction rest generalizing cs with
  | nil => simp
  | cons p rest ih =>
      have hp : p ∈ active := hrest List.mem_cons_self
      obtain ⟨hgrow, hsame⟩ := count_le_pass hactive hp cs
      obtain ⟨hgrowRest, hrestIff⟩ := ih (fun q hq => hrest (List.mem_cons_of_mem p hq))
        (pass p cs)
      rw [List.foldl_cons, List.forall_mem_cons, ← pass_eq_self_iff hactive hp]
      refine ⟨hgrow.trans hgrowRest, fun heq => ?_, fun ⟨hpass, hothers⟩ => ?_⟩
      · rw [heq] at hgrowRest
        have hpass := hsame (Nat.le_antisymm hgrowRest hgrow)
        rw [hpass] at hrestIff heq
        exact ⟨hpass, hrestIff.mp heq⟩
      · rw [hpass] at hrestIff ⊢
        exact hrestIff.mpr hothers

theorem redactText_eq_self_iff (s : String) : redactText active s = s ↔ Clean active s := by
  rw [← String.toList_inj, toList_redactText]
  exact (foldl_pass hactive (List.Subset.refl active) s.toList).2

end

theorem not_leftover_of_selfDelimiting {p : SecretPattern} (h : selfDelimiting p = true)
    (cs : List Char) : ¬Leftover marking p.regex cs := by
  unfold selfDelimiting at h
  split at h
  · rename_i chars allowed atLeast hregex
    rw [Bool.and_eq_true, decide_eq_true_eq, List.all_eq_true] at h
    obtain ⟨hlong, hall⟩ := h
    rw [hregex]
    refine not_leftover (fun n => Nat.lt_of_le_of_lt (kept_le_four n) hlong) fun n c hc => ?_
    have hfive : marking.kept n + 1 ≤ 5 := Nat.succ_le_succ (kept_le_four n)
    exact hall c (List.take_subset_take_left chars hfive hc)
  · cases h

/-! ## Texts that keep a match -/

/-- Two matches of a token, the second begun by the last two characters of the first. -/
def overlappingKeys (p : SecretPattern) : List Char :=
  match p.regex with
  | [.text chars, .run _ atLeast _] =>
      chars ++ (List.replicate (atLeast - 2) '0' ++ (chars ++ List.replicate atLeast '1'))
  | _ => []

theorem overlappingKeys_spec : ∀ p ∈ patternDefs, p.action = .redact → selfDelimiting p = false →
    find p.regex (pass p (overlappingKeys p)) ≠ [] ∧
      ∀ q ∈ patternDefs, q.action = .redact → q.name ≠ p.name →
        find q.regex (overlappingKeys p) = [] := by decide +kernel

/-- The other passes find nothing in the overlapping keys, so the match that is left stays. -/
theorem not_clean_overlappingKeys {active : List SecretPattern}
    (hactive : active.Sublist patternDefs) {p : SecretPattern} (hp : p ∈ active)
    (haction : p.action = .redact) (hoverlap : selfDelimiting p = false) :
    ¬Clean active (redactText active (.ofList (overlappingKeys p))) := by
  obtain ⟨hleft, hothers⟩ := overlappingKeys_spec p (hactive.subset hp) haction hoverlap
  have hmin : ∀ q ∈ active, 0 < minLength q.regex := fun q hq =>
    Nat.lt_of_le_of_lt (Nat.zero_le 4) (patternDefs_long q (hactive.subset hq))
  obtain ⟨before, after, rfl⟩ := List.append_of_mem hp
  have hmem : before ++ after ⊆ before ++ p :: after := fun q hq =>
    List.perm_middle.symm.subset (List.mem_cons_of_mem p hq)
  have hnames : ∀ q ∈ before ++ after, q.name ≠ p.name := by
    have hnodup := patternDefs_names.sublist (hactive.map (·.name))
    rw [(List.perm_middle.map _).nodup_iff, List.map_cons, List.nodup_cons] at hnodup
    exact fun q hq hname => hnodup.1 (hname ▸ List.mem_map_of_mem hq)
  have hquiet : ∀ q ∈ before ++ after, q.action = .redact →
      ¬Occurs q.regex (overlappingKeys p) := fun q hq hredact =>
    (find_eq_nil_iff (hmin q (hmem hq))).mp
      (hothers q (hactive.subset (hmem hq)) hredact (hnames q hq))
  have hbefore := (foldl_pass hactive (fun q hq => hmem (List.mem_append_left after hq))
    (overlappingKeys p)).2.mpr fun q hq => hquiet q (List.mem_append_left after hq)
  have hafter := (foldl_pass hactive (fun q hq => hmem (List.mem_append_right before hq))
    (pass p (overlappingKeys p))).2.mpr fun q hq hredact hoccurs =>
      hquiet q (List.mem_append_right before hq) hredact
        (occurs_of_occurs_pass hactive hp (hmem (List.mem_append_right before hq)) hoccurs)
  intro hclean
  have hnone := hclean p hp haction
  rw [toList_redactText, String.toList_ofList, List.foldl_append, List.foldl_cons, hbefore, hafter,
    ← find_eq_nil_iff (hmin p hp)] at hnone
  exact hleft hnone

theorem clean_all_iff {active : List SecretPattern} (hactive : active.Sublist patternDefs) :
    (∀ text, Clean active (redactText active text)) ↔
      ∀ p ∈ active, p.action = .redact → selfDelimiting p = true := by
  constructor
  · intro hclean p hp haction
    by_contra hoverlap
    rw [Bool.not_eq_true] at hoverlap
    exact not_clean_overlappingKeys hactive hp haction hoverlap (hclean _)
  · intro hself text
    refine (clean_run_iff hactive text).mpr (fun done p hdone haction => ?_) active
      List.prefix_rfl
    exact not_leftover_of_selfDelimiting (hself p (hdone.subset (by simp)) haction) _

/-! ## The short form of one match -/

theorem clean_redactString {active : List SecretPattern} (hactive : active.Sublist patternDefs)
    (s : String) : Clean active (redactString s) := by
  rintro p hp - ⟨word, hinfix, hmatches⟩
  have hlong := hmatches.minLength_le
  have hkept := long_of_active hactive hp s.toList.length
  rw [toList_redactString, Marking.mask,
    infix_append_replicate marking.count_pos (hmatches.notMem (avoids_of_active hactive hp))]
    at hinfix
  rcases hinfix with hstart | hend
  · have := hstart.length_le
    rw [marking.length_keptStart] at this
    omega
  · have := hend.length_le
    rw [marking.length_keptEnd] at this
    omega

theorem redactString_redactString (s : String) :
    redactString (redactString s) = redactString s := by
  rw [← String.toList_inj, toList_redactString, toList_redactString]
  refine marking.mask_mask ?_
  rw [marking.length_mask]
  by_cases hshort : s.toList.length ≤ 8 <;> simp [marking, hshort]

/-! ## Whole values -/

/-- Redaction is complete after every pass exactly when no pass finds a text of which it
leaves a match, and for every text exactly when all active patterns are self-delimiting. It
is complete exactly where redacting again changes nothing. Inside a JSON value the same
holds of every string. The short form of one match is always clean and stays the same. -/
theorem redaction_complete_iff {active : List SecretPattern}
    (hactive : active.Sublist patternDefs) (N : Type) :
    (∀ text, (∀ done, done <+: active → Clean done (redactText done text)) ↔
      ∀ done p, done ++ [p] <+: active → p.action = .redact →
        ¬Leftover marking p.regex (redactText done text).toList) ∧
    ((∀ text, Clean active (redactText active text)) ↔
      ∀ p ∈ active, p.action = .redact → selfDelimiting p = true) ∧
    (∀ text, Clean active (redactText active text) ↔
      redactText active (redactText active text) = redactText active text) ∧
    (∀ value : JsonTree N,
      let redacted := value.mapStrings (redactText active)
      ((∀ s ∈ redacted.strings, Clean active s) ↔
        ∀ text ∈ value.strings, Clean active (redactText active text)) ∧
      ((∀ s ∈ redacted.strings, Clean active s) ↔
        redacted.mapStrings (redactText active) = redacted)) ∧
    ∀ value : JsonTree N,
      let masked := value.mapStrings redactString
      (∀ s ∈ masked.strings, Clean active s) ∧ masked.mapStrings redactString = masked := by
  refine ⟨clean_run_iff hactive, clean_all_iff hactive,
    fun text => (redactText_eq_self_iff hactive _).symm, fun value => ⟨?_, ?_⟩,
    fun value => ⟨?_, ?_⟩⟩
  · rw [JsonTree.strings_mapStrings, List.forall_mem_map]
  · rw [JsonTree.mapStrings_eq_self_iff]
    exact forall₂_congr fun s _ => (redactText_eq_self_iff hactive s).symm
  · rw [JsonTree.strings_mapStrings, List.forall_mem_map]
    exact fun text _ => clean_redactString hactive text
  · rw [JsonTree.mapStrings_eq_self_iff, JsonTree.strings_mapStrings, List.forall_mem_map]
    exact fun text _ => redactString_redactString text

theorem redaction_complete_iff_patternDefs :
    (¬∀ text, Clean patternDefs (redactText patternDefs text)) ∧
      ∀ text, Clean patternDefs (redactText patternDefs text) ↔
        redactText patternDefs (redactText patternDefs text) = redactText patternDefs text :=
  have h := redaction_complete_iff (List.Sublist.refl patternDefs) Nat
  ⟨fun hclean => absurd (h.2.1.mp hclean) (by decide +kernel), h.2.2.1⟩

/-- The second of two overlapping keys is still there, and redacting again finds it. -/
theorem overlappingKey_left :
    let text := "sk-aaaaaaaaaaaaaaaaaask-bbbbbbbbbbbbbbbbbbbb"
    let answer := (LeakDetector.new.redact text).1
    answer = "sk-a***aask-bbbbbbbbbbbbbbbbbbbb" ∧
      Occurs (token "sk-" (alphanumericOr "") 20 none) answer.toList ∧
      (LeakDetector.new.redact answer).1 = "sk-a***aask-b***bbbb" ∧
      ¬∀ (active : List SecretPattern) (text : String), active.Sublist patternDefs →
        ∀ p ∈ active, p.action = .redact →
          ¬Occurs p.regex (LeakDetector.redact ⟨active⟩ text).1.toList := by
  have hanswer : (LeakDetector.new.redact "sk-aaaaaaaaaaaaaaaaaask-bbbbbbbbbbbbbbbbbbbb").1 =
      "sk-a***aask-bbbbbbbbbbbbbbbbbbbb" := by
    rw [← String.toList_inj, toList_redact]
    simp only [String.reduceToList]
    decide +kernel
  have hagain : (LeakDetector.new.redact "sk-a***aask-bbbbbbbbbbbbbbbbbbbb").1 =
      "sk-a***aask-b***bbbb" := by
    rw [← String.toList_inj, toList_redact]
    simp only [String.reduceToList]
    decide +kernel
  have hoccurs : Occurs (token "sk-" (alphanumericOr "") 20 none)
      "sk-a***aask-bbbbbbbbbbbbbbbbbbbb".toList := by
    by_contra hnone
    rw [← find_eq_nil_iff (by decide)] at hnone
    exact absurd hnone (by decide +kernel)
  simp only [hanswer]
  refine ⟨trivial, hoccurs, hagain, fun hclean => ?_⟩
  refine hclean patternDefs "sk-aaaaaaaaaaaaaaaaaask-bbbbbbbbbbbbbbbbbbbb" (List.Sublist.refl _)
    ⟨"openai_api_key", token "sk-" (alphanumericOr "") 20 none, .redact⟩ ?_ rfl ?_
  · simp [patternDefs]
  · rw [← LeakDetector.new, hanswer]
    exact hoccurs

end BenShu.Security.LeakDetector
