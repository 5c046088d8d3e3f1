import BenShu.Lib.Lines
import BenShu.Protocol.Trimming

/-!
# Compression of command output

Output over the budget is replaced by the lines that matter for the command, or by its two ends.
Lower case is a parameter.
-/

namespace BenShu.Compression

open Protocol (headTailWithNotice CutTo)

/-! ## Compressed texts -/

structure CompressionResult where
  content : String
  originalChars : Nat
  outputChars : Nat
  omittedChars : Nat
  truncated : Bool

def toolOutputNotice (omittedChars : Nat) : String :=
  s!"Note: Output truncated; {omittedChars} characters omitted to save tokens"

namespace CompressionResult

def unchanged (input : String) : CompressionResult where
  content := input
  originalChars := Text.charCount input
  outputChars := Text.charCount input
  omittedChars := 0
  truncated := false

def cut (content : String) (originalChars omittedChars : Nat) : CompressionResult where
  content
  originalChars
  outputChars := Text.charCount content
  omittedChars
  truncated := true

end CompressionResult

def headTailResult (input : String) (maxChars : Nat) (notice : Nat → String) :
    CompressionResult :=
  if maxChars = 0 ∨ Text.charCount input ≤ maxChars then .unchanged input
  else .cut (headTailWithNotice input maxChars notice) (Text.charCount input)
    (Text.charCount input - maxChars)

def lineWindow (input : String) (maxLines : Nat) : CompressionResult :=
  let originalLines := (Text.lines input).length
  if maxLines = 0 ∨ originalLines ≤ maxLines then .unchanged input
  else
    let content := "\n".intercalate ((Text.lines input).take maxLines)
    let omittedLines := originalLines - maxLines
    .cut s!"{content}\n\n[... {omittedLines} lines omitted ...]" (Text.charCount input) 0

/-! ## Commands -/

inductive CommandCompressionMode where
  | passthrough
  | generic
  | verbosePreserved
  | cargo
  | gitStatus
  | gitDiff
  | gitLog
  | pytest
  | nodeTest
  | search
deriving DecidableEq

structure CommandCompressionResult where
  content : String
  mode : CommandCompressionMode
  originalChars : Nat
  outputChars : Nat
  truncated : Bool
deriving DecidableEq

namespace CommandCompressionResult

def new (content : String) (mode : CommandCompressionMode) (originalChars : Nat) :
    CommandCompressionResult :=
  let outputChars := Text.charCount content
  { content, mode, originalChars, outputChars, truncated := decide (outputChars < originalChars) }

def fromCompression (result : CompressionResult) (mode : CommandCompressionMode) :
    CommandCompressionResult where
  content := result.content
  mode
  originalChars := result.originalChars
  outputChars := result.outputChars
  truncated := result.truncated

end CommandCompressionResult

def verboseFlags : List String :=
  ["--verbose", "--debug", "--trace", "--nocapture", "--show-output", "--full", "--raw", "-vv",
    "-vvv"]

def commandRequestsVerboseOutput (commandLowercase : String) : Bool :=
  (verboseFlags.any fun flag => Text.contains commandLowercase flag) ||
    (Text.splitWhitespace commandLowercase).any (· == "-v")

def looksLikeCargo (command : String) : Bool :=
  Text.startsWith command "cargo " || Text.contains command " cargo "

def looksLikeNodeTest (command : String) : Bool :=
  Text.contains command "npm test" || Text.contains command "pnpm test" ||
    Text.contains command "yarn test" || Text.contains command "vitest" ||
    Text.contains command "jest"

def looksLikeSearch (command : String) : Bool :=
  Text.startsWith command "rg " || Text.contains command " rg " ||
    Text.startsWith command "grep " || Text.contains command " grep " ||
    Text.startsWith command "find " || Text.contains command " find "

def isGit (command words : String) : Bool :=
  Text.startsWith command words || Text.contains command (" " ++ words)

variable (toLowercase : String → String)

def testRelevantLine (line : String) : Bool :=
  let lower := toLowercase line
  Text.contains lower "error" || Text.contains lower "failed" || Text.contains lower "failure" ||
    Text.contains lower "panic" || Text.contains lower "assert" ||
    Text.contains lower "expected" || Text.contains lower "actual" ||
    Text.contains lower "test result" || Text.startsWith lower "----" ||
    Text.contains lower "thread '" || Text.contains lower "stack backtrace" ||
    Text.contains lower "warning:"

def cargoRelevantLine (line : String) : Bool :=
  let lower := toLowercase line
  testRelevantLine toLowercase line || Text.contains lower "compiling " ||
    Text.contains lower "finished " || Text.contains lower "running " ||
    Text.contains lower "warning:" || Text.contains lower "error["

def gitDiffRelevantLine (line : String) : Bool :=
  Text.startsWith line "diff --git" || Text.startsWith line "index " ||
    Text.startsWith line "--- " || Text.startsWith line "+++ " || Text.startsWith line "@@" ||
    Text.startsWith line "+" || Text.startsWith line "-"

def selectLines (output : String) (keep : String → Bool) : String :=
  let kept := (Text.lines output).filter keep
  let omitted := ((Text.lines output).filter fun line => !keep line).length
  "\n".intercalate <|
    if omitted > 0 ∧ kept ≠ [] then kept ++ [s!"[{omitted} non-essential lines omitted]"] else kept

def limitLines (output : String) (maxLines : Nat) (label : String) : String :=
  let total := (Text.lines output).length
  if total ≤ maxLines then output
  else
    let body := (lineWindow output maxLines).content
    s!"{body}\n[{label} truncated: {total} total lines]"

/-- The lines that are selected for the command. -/
def filteredOutput (command output : String) : CommandCompressionMode × String :=
  if looksLikeCargo command then (.cargo, selectLines output (cargoRelevantLine toLowercase))
  else if Text.contains command "pytest" then
    (.pytest, selectLines output (testRelevantLine toLowercase))
  else if looksLikeNodeTest command then
    (.nodeTest, selectLines output (testRelevantLine toLowercase))
  else if isGit command "git status" then
    (.gitStatus, limitLines output 160 "git status output")
  else if isGit command "git diff" then (.gitDiff, selectLines output gitDiffRelevantLine)
  else if isGit command "git log" then (.gitLog, limitLines output 120 "git log output")
  else if looksLikeSearch command then (.search, limitLines output 200 "search output")
  else (.generic, "")

def compressCommandOutput (command output : String) (maxChars : Nat) :
    CommandCompressionResult :=
  let originalChars := Text.charCount output
  if maxChars = 0 ∨ originalChars ≤ maxChars then .new output .passthrough originalChars
  else
    let lower := toLowercase command
    if commandRequestsVerboseOutput lower then
      .fromCompression (headTailResult output maxChars toolOutputNotice) .verbosePreserved
    else
      let (mode, filtered) := filteredOutput toLowercase lower output
      let candidate :=
        if (Text.trim filtered).isEmpty then
          (headTailResult output maxChars toolOutputNotice).content
        else if Text.charCount filtered > maxChars then
          (headTailResult filtered maxChars toolOutputNotice).content
        else filtered
      .new candidate mode originalChars

/-! ## What is selected -/

/-- Lines of the output in their order, with the number of lines that are left out behind them. -/
inductive Selection (output : String) : String → Prop where
  | all : Selection output output
  | joined : Selection output ("\n".intercalate (Text.lines output))
  | chosen (kept : List String) (omitted : Nat) (hkept : kept.Sublist (Text.lines output))
      (homitted : kept.length + omitted = (Text.lines output).length) :
      Selection output
        ("\n".intercalate (kept ++ [s!"[{omitted} non-essential lines omitted]"]))
  | window (kept : List String) (omitted : Nat) (label : String)
      (hkept : Text.lines output = kept ++ (Text.lines output).drop kept.length)
      (homitted : kept.length + omitted = (Text.lines output).length) :
      Selection output
        ("\n".intercalate kept ++ s!"\n\n[... {omitted} lines omitted ...]" ++
          s!"\n[{label} truncated: {(Text.lines output).length} total lines]")

variable {output : String}

theorem selection_selectLines (keep : String → Bool)
    (hsolid : (Text.trim (selectLines output keep)).isEmpty = false) :
    Selection output (selectLines output keep) := by
  have hcount := List.length_eq_length_filter_add (l := Text.lines output) keep
  unfold selectLines at hsolid ⊢
  dsimp only at hsolid ⊢
  split at hsolid
  · rename_i hsome
    rw [if_pos hsome]
    exact .chosen _ _ List.filter_sublist hcount.symm
  · rename_i hsome
    rw [if_neg hsome]
    by_cases hkept : (Text.lines output).filter keep = []
    · rw [hkept] at hsolid
      cases hsolid
    · have hall : (Text.lines output).filter keep = Text.lines output := by
        refine List.filter_sublist.eq_of_length ?_
        have hnone : ¬0 < ((Text.lines output).filter fun line => !keep line).length :=
          fun hpos => hsome ⟨hpos, hkept⟩
        omega
      rw [hall]
      exact .joined

theorem selection_limitLines {maxLines : Nat} (hpos : 0 < maxLines) (label : String) :
    Selection output (limitLines output maxLines label) := by
  unfold limitLines
  dsimp only
  split
  · exact .all
  · rename_i hlong
    have hwindow : ¬(maxLines = 0 ∨ (Text.lines output).length ≤ maxLines) := by omega
    have hlength : ((Text.lines output).take maxLines).length = maxLines := by
      rw [List.length_take]
      omega
    have hsplit : Text.lines output = (Text.lines output).take maxLines ++
        (Text.lines output).drop ((Text.lines output).take maxLines).length := by
      rw [hlength, List.take_append_drop]
    have hselected := Selection.window _ ((Text.lines output).length - maxLines) label hsplit
      (by omega)
    unfold lineWindow
    dsimp only
    rw [if_neg hwindow]
    simp only [CompressionResult.cut, toString, String.append_assoc] at hselected ⊢
    exact hselected

/-- The lines that matter, the first lines, or none. -/
def Filtered (output : String) (filtered : CommandCompressionMode × String) : Prop :=
  (∃ keep, filtered.2 = selectLines output keep) ∨
    (∃ maxLines label, 0 < maxLines ∧ filtered.2 = limitLines output maxLines label) ∨
    filtered.2 = ""

theorem filtered_filteredOutput (command output : String) :
    Filtered output (filteredOutput toLowercase command output) := by
  have hselect : ∀ mode keep, Filtered output (mode, selectLines output keep) :=
    fun _ keep => .inl ⟨keep, rfl⟩
  have hlimit : ∀ mode maxLines label, 0 < maxLines →
      Filtered output (mode, limitLines output maxLines label) :=
    fun _ maxLines label hpos => .inr (.inl ⟨maxLines, label, hpos, rfl⟩)
  have hbranch : ∀ {p : Prop} [Decidable p] {a b : CommandCompressionMode × String},
      Filtered output a → Filtered output b → Filtered output (if p then a else b) :=
    fun ha hb => iteInduction (motive := Filtered output) (fun _ => ha) fun _ => hb
  exact hbranch (hselect _ _) <| hbranch (hselect _ _) <| hbranch (hselect _ _) <|
    hbranch (hlimit _ _ _ (by decide)) <| hbranch (hselect _ _) <|
      hbranch (hlimit _ _ _ (by decide)) <| hbranch (hlimit _ _ _ (by decide)) <|
        .inr (.inr rfl)

theorem selection_filteredOutput (command : String)
    (hsolid : (Text.trim (filteredOutput toLowercase command output).2).isEmpty = false) :
    Selection output (filteredOutput toLowercase command output).2 := by
  rcases filtered_filteredOutput toLowercase command output with
    ⟨keep, hkeep⟩ | ⟨maxLines, label, hpos, hlimit⟩ | hnone
  · rw [hkeep] at hsolid ⊢
    exact selection_selectLines keep hsolid
  · rw [hlimit]
    exact selection_limitLines hpos label
  · rw [hnone, Text.trim_eq_empty_iff.mpr (by simp)] at hsolid
    cases hsolid

theorem cutTo_headTailResult (input : String) {maxChars : Nat} (hpos : 0 < maxChars)
    (notice : Nat → String) :
    CutTo notice maxChars input (headTailResult input maxChars notice).content := by
  have hcut := Protocol.cutTo_headTailWithNotice notice input hpos
  unfold headTailResult
  split
  · rename_i hfits
    exact .fits (hfits.resolve_left (Nat.pos_iff_ne_zero.mp hpos))
  · exact hcut

/-- What the output over the budget is replaced by. -/
structure Compressed (output : String) (maxChars : Nat) (result : CommandCompressionResult) :
    Prop where
  cut : ∃ text, Selection output text ∧ CutTo toolOutputNotice maxChars text result.content
  shorter : Text.charCount result.content < Text.charCount output → result.truncated = true

theorem compressed_compressCommandOutput (command : String) {maxChars : Nat}
    (hpos : 0 < maxChars) (hlong : maxChars < Text.charCount output) :
    Compressed output maxChars (compressCommandOutput toLowercase command output maxChars) ∧
      (commandRequestsVerboseOutput (toLowercase command) = true →
        (compressCommandOutput toLowercase command output maxChars).truncated = true) := by
  have hbudget : ¬(maxChars = 0 ∨ Text.charCount output ≤ maxChars) := by omega
  unfold compressCommandOutput
  dsimp only
  rw [if_neg hbudget]
  by_cases hverbose : commandRequestsVerboseOutput (toLowercase command) = true
  · rw [if_pos hverbose]
    have htruncated : (headTailResult output maxChars toolOutputNotice).truncated = true := by
      rw [headTailResult, if_neg hbudget]
      rfl
    exact ⟨⟨⟨output, .all, cutTo_headTailResult output hpos _⟩, fun _ => htruncated⟩,
      fun _ => htruncated⟩
  · rw [if_neg hverbose]
    refine ⟨⟨?_, ?_⟩, fun h => absurd h hverbose⟩
    · generalize hfiltered : filteredOutput toLowercase (toLowercase command) output = filtered
      have hselected : _ → Selection output _ :=
        selection_filteredOutput toLowercase (toLowercase command)
      rw [hfiltered] at hselected
      simp only [CommandCompressionResult.new]
      split_ifs with hblank hover
      · exact ⟨output, .all, cutTo_headTailResult output hpos _⟩
      · exact ⟨_, hselected (by simpa using hblank), cutTo_headTailResult _ hpos _⟩
      · exact ⟨_, hselected (by simpa using hblank), .fits (Nat.le_of_not_lt hover)⟩
    · simp [CommandCompressionResult.new]

/-- Output within the budget stays. Output over it is replaced by lines that are selected from
it, when they fit, and otherwise by the two ends of the output or of the lines, with a marker
between them that is not counted towards the budget. -/
theorem compressCommandOutput_spec (command output : String) (maxChars : Nat) :
    let result := compressCommandOutput toLowercase command output maxChars
    (maxChars = 0 ∨ Text.charCount output ≤ maxChars →
        result.content = output ∧ result.truncated = false) ∧
      (0 < maxChars → maxChars < Text.charCount output →
        Compressed output maxChars result ∧
          (commandRequestsVerboseOutput (toLowercase command) = true →
            result.truncated = true)) := by
  refine ⟨fun hfits => ?_, compressed_compressCommandOutput toLowercase command⟩
  unfold compressCommandOutput
  dsimp only
  rw [if_pos hfits]
  simp [CommandCompressionResult.new]

/-- One character over a budget of ten: the result is longer than the output, and its flag says
that nothing is left out. -/
theorem compressCommandOutput_inflates :
    let result := compressCommandOutput Text.toAsciiLowercase "make" "aaaaaaaaaaa" 10
    Text.charCount "aaaaaaaaaaa" < result.outputChars ∧
      result.content =
        "aaaaa\n\n[Note: Output truncated; 1 characters omitted to save tokens]\n\naaaaa" ∧
      result.truncated = false := by
  decide +kernel

end BenShu.Compression
