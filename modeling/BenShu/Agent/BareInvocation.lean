import BenShu.Lib.I64
import BenShu.Lib.QuotedText
import BenShu.Lib.Table

/-!
# Bare tool invocations

A model may write a call of a tool as `name(key=value, …)`. The text is taken apart by
scanners that keep track of quotes, escapes and brackets.
-/

namespace BenShu.Agent

/-- What a value can be. Numbers that are no 64-bit integers are of the type `F`. -/
inductive InvocationValue (F : Type) where
  | null
  | bool (value : Bool)
  | int (value : Int)
  | float (value : F)
  | string (value : String)
deriving DecidableEq

def isToolNameChar (c : Char) : Bool := c.isAlphanum || c == '_' || c == '-' || c == '.'

def isArgumentKeyChar (c : Char) : Bool := c.isAlphanum || c == '_' || c == '-'

/-! ## The scanners -/

/-- The parts so far, the part that is being read, and the depth of brackets. -/
def splitInvocationLoop : List Char → QuoteState → Nat → List Char → List String →
    Option (List String)
  | [], state, depth, current, parts =>
      if state.quote.isSome || depth != 0 then none
      else
        let last := Text.trim (.ofList current)
        some (if last = "" then parts else parts ++ [last])
  | c :: cs, state, depth, current, parts =>
      let pushed := current ++ [c]
      if state.isPlain c then
        if Brackets.isOpener c then
          splitInvocationLoop cs (state.next c) (depth + 1) pushed parts
        else if Brackets.isCloser c then
          if depth = 0 then none
          else splitInvocationLoop cs (state.next c) (depth - 1) pushed parts
        else if c = ',' ∧ depth = 0 then
          splitInvocationLoop cs (state.next c) depth []
            (parts ++ [Text.trim (.ofList current)])
        else splitInvocationLoop cs (state.next c) depth pushed parts
      else splitInvocationLoop cs (state.next c) depth pushed parts

def splitInvocationArgs (text : String) : Option (List String) :=
  splitInvocationLoop text.toList {} 0 [] []

def findUnquotedChar (text : String) (needle : Char) : Option Nat :=
  QuoteState.findPlain needle {} text.toList

def unescapeInvocationString (text : String) : String :=
  .ofList (EscapedText.unescapeAux false text.toList)

section Parse

variable {F : Type} (parseFloat : String → Option F)

/-- Every text is some value. `parseFloat` reads a finite number. -/
def parseInvocationValue (text : String) : Option (InvocationValue F) :=
  let trimmed := Text.trim text
  let cs := trimmed.toList
  if trimmed = "" then some (.string "")
  else if (Text.startsWith trimmed "\x27" && Text.endsWith trimmed "\x27" ||
      Text.startsWith trimmed "\x22" && Text.endsWith trimmed "\x22") && 2 ≤ cs.length then
    some (.string (unescapeInvocationString (.ofList cs.tail.dropLast)))
  else if trimmed = "true" then some (.bool true)
  else if trimmed = "false" then some (.bool false)
  else if trimmed = "null" ∨ trimmed = "None" then some .null
  else
    match I64.parse trimmed with
    | some value => some (.int value)
    | none =>
        match parseFloat trimmed with
        | some value => some (.float value)
        | none => some (.string trimmed)

def addInvocationArg (args : Table String (InvocationValue F)) (part : String) :
    Option (Table String (InvocationValue F)) :=
  let part := Text.trim part
  if part = "" then some args
  else
    match findUnquotedChar part '=' with
    | none => none
    | some eq =>
        let key := Text.trim (.ofList (part.toList.take eq))
        if key = "" || !key.toList.all isArgumentKeyChar then none
        else
          match parseInvocationValue parseFloat
              (Text.trim (.ofList (part.toList.drop (eq + 1)))) with
          | none => none
          | some value => some (args.insert key value)

def parseBareToolInvocation (text : String) :
    Option (String × Table String (InvocationValue F)) :=
  let trimmed := Text.trim text
  match Text.splitOnce trimmed '(' with
  | none => none
  | some (front, rest) =>
      if !Text.endsWith trimmed ")" then none
      else
        let name := Text.trim front
        if name = "" || !name.toList.all isToolNameChar then none
        else
          match splitInvocationArgs (.ofList rest.toList.dropLast) with
          | none => none
          | some parts =>
              (parts.foldlM (addInvocationArg parseFloat) ∅).map fun args => (name, args)

end Parse

/-! ## Rendered invocations -/

section Render

variable {F : Type}

/-- Strings stand in double quotes with their special characters escaped. -/
def InvocationValue.render : InvocationValue F → String
  | .null => "null"
  | .bool true => "true"
  | .bool false => "false"
  | .int value => toString value
  | .float _ => ""
  | .string value => .ofList ('\x22' :: EscapedText.escape value.toList ++ ['\x22'])

/-- The values that are rendered: no other numbers than 64-bit integers. -/
def InvocationValue.Renders : InvocationValue F → Prop
  | .int value => I64.InRange value
  | .float _ => False
  | _ => True

def renderArg (entry : Sigma fun _ : String => InvocationValue F) : String :=
  entry.1 ++ "=" ++ entry.2.render

def renderInvocation (name : String) (args : Table String (InvocationValue F)) : String :=
  name ++ "(" ++ ", ".intercalate (args.entries.map renderArg) ++ ")"

end Render

/-- The text between the first parenthesis and the last one. -/
def argumentPart (text : String) : Option String :=
  let trimmed := Text.trim text
  match Text.splitOnce trimmed '(' with
  | none => none
  | some (_, rest) =>
      if Text.endsWith trimmed ")" then some (.ofList rest.toList.dropLast) else none

/-- Every quote is closed, and the brackets outside quotes and escapes are opened and closed
in turn. -/
structure WellNested (text : String) : Prop where
  quote : (QuoteState.after {} text.toList).quote = none
  brackets : Brackets.Nested 0 (QuoteState.plainChars {} text.toList)

/-! ## What is rejected -/

/-- The parts are found exactly if the rest closes what is open. -/
theorem splitInvocationLoop_isSome_iff (cs : List Char) (state : QuoteState) (depth : Nat)
    (current : List Char) (parts : List String) :
    (splitInvocationLoop cs state depth current parts).isSome = true ↔
      (state.after cs).quote = none ∧ Brackets.Nested depth (state.plainChars cs) := by
  induction cs generalizing state depth current parts with
  | nil =>
      rw [splitInvocationLoop, QuoteState.after_nil, QuoteState.plainChars,
        Brackets.nested_nil_iff]
      cases state.quote <;> simp
  | cons c cs ih =>
      rw [splitInvocationLoop, QuoteState.after_cons, QuoteState.plainChars]
      cases hplain : state.isPlain c with
      | false =>
          rw [if_neg Bool.false_ne_true, if_neg Bool.false_ne_true]
          exact ih _ _ _ _
      | true =>
          rw [if_pos rfl, if_pos rfl]
          cases hopener : Brackets.isOpener c with
          | true =>
              have hcloser : Brackets.isCloser c = false := by
                unfold Brackets.isOpener at hopener
                unfold Brackets.isCloser
                simp only [Bool.or_eq_true, beq_iff_eq] at hopener
                rcases hopener with (h | h) | h <;> rw [h] <;> rfl
              rw [if_pos rfl, ih, @Brackets.nested_cons_iff depth c _ (depth + 1)]
              simp [hopener, hcloser]
          | false =>
              rw [if_neg Bool.false_ne_true]
              cases hcloser : Brackets.isCloser c with
              | true =>
                  rw [if_pos rfl]
                  cases depth with
                  | zero =>
                      rw [if_pos rfl]
                      exact iff_of_false Bool.false_ne_true
                        fun h => Brackets.not_nested_closer hcloser hopener h.2
                  | succ depth =>
                      rw [if_neg (Nat.succ_ne_zero depth), ih, Nat.add_sub_cancel,
                        @Brackets.nested_cons_iff (depth + 1) c _ depth]
                      simp [hopener, hcloser]
              | false =>
                  rw [if_neg Bool.false_ne_true, @Brackets.nested_cons_iff depth c _ depth
                    (by simp [hopener, hcloser])]
                  split
                  · exact ih _ _ _ _
                  · exact ih _ _ _ _

theorem splitInvocationArgs_isSome_iff (text : String) :
    (splitInvocationArgs text).isSome = true ↔ WellNested text := by
  unfold splitInvocationArgs
  rw [splitInvocationLoop_isSome_iff]
  exact ⟨fun h => ⟨h.1, h.2⟩, fun h => ⟨h.quote, h.brackets⟩⟩

theorem parseBareToolInvocation_none {F : Type} (parseFloat : String → Option F)
    {text inner : String} (hinner : argumentPart text = some inner) (h : ¬WellNested inner) :
    parseBareToolInvocation parseFloat text = none := by
  unfold argumentPart at hinner
  unfold parseBareToolInvocation
  dsimp only at hinner ⊢
  cases hsplit : Text.splitOnce (Text.trim text) '(' with
  | none => rfl
  | some found =>
      rcases found with ⟨front, rest⟩
      rw [hsplit] at hinner
      dsimp only at hinner ⊢
      split at hinner
      · cases hinner
        have hnone : splitInvocationArgs (.ofList rest.toList.dropLast) = none := by
          rw [← Option.not_isSome_iff_eq_none, splitInvocationArgs_isSome_iff]
          exact h
        rw [hnone]
        split
        · rfl
        · split <;> rfl
      · cases hinner

/-! ## Characters of names and numbers -/

theorem isWhitespace_of_alphanum {c : Char} (h : c.isAlphanum = true) :
    Text.isWhitespace c = false := by
  have hrange : 48 ≤ c.toNat ∧ c.toNat ≤ 57 ∨ 65 ≤ c.toNat ∧ c.toNat ≤ 90 ∨
      97 ≤ c.toNat ∧ c.toNat ≤ 122 := by
    unfold Char.isAlphanum Char.isAlpha Char.isUpper Char.isLower Char.isDigit at h
    simp only [Bool.or_eq_true, Bool.and_eq_true, decide_eq_true_eq, UInt32.le_iff_toNat_le,
      ge_iff_le] at h
    show 48 ≤ c.val.toNat ∧ c.val.toNat ≤ 57 ∨ 65 ≤ c.val.toNat ∧ c.val.toNat ≤ 90 ∨
      97 ≤ c.val.toNat ∧ c.val.toNat ≤ 122
    rcases h with (h | h) | h
    · exact .inr (.inl h)
    · exact .inr (.inr h)
    · exact .inl h
  unfold Text.isWhitespace
  simp only [Bool.or_eq_false_iff, Bool.and_eq_false_iff, decide_eq_false_iff_not,
    beq_eq_false_iff_ne]
  omega

/-- A name, a key or a number has none of the characters that the scanners look for. -/
structure Simple (c : Char) : Prop where
  escape : c ≠ '\\'
  quote : QuoteState.isQuote c = false
  opener : Brackets.isOpener c = false
  closer : Brackets.isCloser c = false
  comma : c ≠ ','
  equals : c ≠ '='
  white : Text.isWhitespace c = false

theorem simple_toolNameChar {c : Char} (h : isToolNameChar c = true) : Simple c := by
  have hother : ∀ d, isToolNameChar d = false → c ≠ d := by
    intro d hd heq
    rw [heq, hd] at h
    cases h
  have hne : ∀ d, isToolNameChar d = false → (c == d) = false :=
    fun d hd => beq_eq_false_iff_ne.mpr (hother d hd)
  refine ⟨hother _ (by decide), ?_, ?_, ?_, hother _ (by decide), hother _ (by decide), ?_⟩
  · unfold QuoteState.isQuote
    rw [hne _ (by decide), hne _ (by decide)]
    rfl
  · unfold Brackets.isOpener
    rw [hne _ (by decide), hne _ (by decide), hne _ (by decide)]
    rfl
  · unfold Brackets.isCloser
    rw [hne _ (by decide), hne _ (by decide), hne _ (by decide)]
    rfl
  · unfold isToolNameChar at h
    simp only [Bool.or_eq_true, beq_iff_eq] at h
    rcases h with ((h | h) | h) | h
    · exact isWhitespace_of_alphanum h
    · rw [h]
      rfl
    · rw [h]
      rfl
    · rw [h]
      rfl

theorem isToolNameChar_of_key {c : Char} (h : isArgumentKeyChar c = true) :
    isToolNameChar c = true := by
  unfold isToolNameChar
  unfold isArgumentKeyChar at h
  rw [h]
  rfl

theorem toolNameChar_of_int {n : Int} {c : Char} (h : c ∈ (toString n).toList) :
    isToolNameChar c = true := by
  have hdigit : ∀ d : Char, d.isDigit = true → isToolNameChar d = true := by
    intro d hd
    unfold isToolNameChar Char.isAlphanum
    rw [hd]
    simp
  cases n with
  | ofNat n => exact hdigit c (Text.toString_isDigit h)
  | negSucc n =>
      have hlist : (toString (Int.negSucc n)).toList = '-' :: (toString (n + 1)).toList := by
        show ("-" ++ toString (n + 1)).toList = _
        rw [String.toList_append]
        rfl
      rw [hlist] at h
      rcases List.mem_cons.mp h with hsign | hmem
      · rw [hsign]
        rfl
      · exact hdigit c (Text.toString_isDigit hmem)

theorem toString_int_ne {n : Int} (h : I64.InRange n) {s : String} (hs : I64.parse s = none) :
    toString n ≠ s := by
  intro heq
  have hparse := I64.parse_toString h
  rw [heq, hs] at hparse
  cases hparse

theorem trimmed_of_simple {s : String} (h : ∀ c ∈ s.toList, Simple c) : Text.Trimmed s :=
  ⟨fun c hc => (h c (List.mem_of_head? hc)).white,
    fun c hc => (h c (List.mem_of_getLast? hc)).white⟩

/-! ## Values are read back -/

/-- Scanners pass over the text: it has no bracket and no comma outside of its quotes, and
closes these. -/
structure Inert (cs : List Char) : Prop where
  plain : ∀ c ∈ QuoteState.plainChars {} cs,
    Brackets.isOpener c = false ∧ Brackets.isCloser c = false ∧ c ≠ ','
  after : QuoteState.after {} cs = {}

theorem inert_of_simple {cs : List Char} (h : ∀ c ∈ cs, Simple c) : Inert cs := by
  rcases QuoteState.plainChars_start fun c hc => ⟨(h c hc).escape, (h c hc).quote⟩ with
    ⟨hplain, hafter⟩
  refine ⟨?_, hafter⟩
  rw [hplain]
  exact fun c hc => ⟨(h c hc).opener, (h c hc).closer, (h c hc).comma⟩

theorem Inert.append {cs cs' : List Char} (h : Inert cs) (h' : Inert cs') : Inert (cs ++ cs') := by
  constructor
  · rw [QuoteState.plainChars_append, h.after]
    intro c hc
    exact (List.mem_append.mp hc).elim (h.plain c) (h'.plain c)
  · rw [QuoteState.after_append, h.after, h'.after]

section Values

variable {F : Type} {value : InvocationValue F}

theorem render_cases (h : value.Renders) :
    (value.render ≠ "" ∧ ∀ c ∈ value.render.toList, Simple c) ∨
      ∃ cs, value = .string (.ofList cs) ∧
        value.render.toList = '\x22' :: EscapedText.escape cs ++ ['\x22'] := by
  have hword : ∀ s : String, s.toList.all isToolNameChar = true → ∀ c ∈ s.toList, Simple c :=
    fun s hs c hc => simple_toolNameChar (List.all_eq_true.mp hs c hc)
  cases value with
  | null => exact .inl ⟨show "null" ≠ "" by decide, hword "null" (by decide)⟩
  | bool value =>
      cases value with
      | true => exact .inl ⟨show "true" ≠ "" by decide, hword "true" (by decide)⟩
      | false => exact .inl ⟨show "false" ≠ "" by decide, hword "false" (by decide)⟩
  | int value =>
      exact .inl ⟨toString_int_ne h (by decide),
        fun c hc => simple_toolNameChar (toolNameChar_of_int hc)⟩
  | float value => exact h.elim
  | string value =>
      refine .inr ⟨value.toList, by rw [String.ofList_toList], ?_⟩
      unfold InvocationValue.render
      rw [String.toList_ofList]

theorem render_inert (h : value.Renders) : Inert value.render.toList := by
  rcases render_cases h with ⟨_, hsimple⟩ | ⟨cs, _, hlist⟩
  · exact inert_of_simple hsimple
  · rw [hlist]
    rcases EscapedText.plainChars_quoted cs with ⟨hplain, hafter⟩
    refine ⟨?_, hafter⟩
    rw [hplain]
    exact nofun

theorem render_trimmed (h : value.Renders) :
    value.render ≠ "" ∧ Text.Trimmed value.render := by
  rcases render_cases h with ⟨hne, hsimple⟩ | ⟨cs, _, hlist⟩
  · exact ⟨hne, trimmed_of_simple hsimple⟩
  · refine ⟨?_, ?_, ?_⟩
    · intro hempty
      rw [hempty] at hlist
      cases hlist
    · rw [hlist]
      intro c hc
      cases hc
      rfl
    · rw [hlist]
      intro c hc
      rw [List.getLast?_concat] at hc
      cases hc
      rfl

theorem parseInvocationValue_quoted (parseFloat : String → Option F) {s : String}
    {cs : List Char} (hs : s.toList = '\x22' :: EscapedText.escape cs ++ ['\x22'])
    (htrim : Text.trim s = s) :
    parseInvocationValue parseFloat s = some (.string (.ofList cs)) := by
  have hne : s ≠ "" := by
    intro hempty
    rw [hempty] at hs
    cases hs
  have hstarts : Text.startsWith s "\x22" = true := by
    rw [Text.startsWith_iff, hs]
    exact ⟨EscapedText.escape cs ++ ['\x22'], rfl⟩
  have hends : Text.endsWith s "\x22" = true := by
    unfold Text.endsWith
    rw [List.isSuffixOf_iff_suffix, hs]
    exact ⟨'\x22' :: EscapedText.escape cs, rfl⟩
  have hlength : 2 ≤ s.toList.length := by
    rw [hs, List.length_append, List.length_cons, List.length_singleton]
    omega
  have hinner : s.toList.tail.dropLast = EscapedText.escape cs := by
    rw [hs]
    exact List.dropLast_concat
  unfold parseInvocationValue
  dsimp only
  rw [htrim, if_neg hne, hstarts, hends, hinner, if_pos (by simp [hlength])]
  unfold unescapeInvocationString
  rw [String.toList_ofList, EscapedText.unescapeAux_escape]

theorem not_quoted {s : String} (h : ∀ c ∈ s.toList, Simple c) :
    Text.startsWith s "\x27" = false ∧ Text.startsWith s "\x22" = false := by
  have hnot : ∀ q : Char, QuoteState.isQuote q = true → q ∉ s.toList := by
    intro q hq hmem
    rw [(h q hmem).quote] at hq
    cases hq
  have hstart : ∀ (pat : String) (q : Char), pat.toList = [q] → QuoteState.isQuote q = true →
      Text.startsWith s pat = false := by
    intro pat q hpat hq
    rw [← Bool.not_eq_true, Text.startsWith_iff, hpat]
    exact fun hlead => hnot q hq (hlead.subset (List.mem_singleton_self q))
  exact ⟨hstart "\x27" '\x27' (by decide) (by decide), hstart "\x22" '\x22' (by decide) (by decide)⟩

theorem parseInvocationValue_render (parseFloat : String → Option F) (h : value.Renders) :
    parseInvocationValue parseFloat value.render = some value := by
  rcases render_cases h with ⟨hne, hsimple⟩ | ⟨cs, hvalue, hlist⟩
  · have htrim := (render_trimmed h).2.trim_eq
    rcases not_quoted hsimple with ⟨hsingle, hdouble⟩
    unfold parseInvocationValue
    dsimp only
    rw [htrim, if_neg hne, hsingle, hdouble, Bool.false_and, Bool.false_and, Bool.or_self,
      Bool.false_and, if_neg Bool.false_ne_true]
    cases value with
    | null => rfl
    | bool value => cases value <;> rfl
    | int value =>
        have hother : ∀ s : String, I64.parse s = none →
            (InvocationValue.int value : InvocationValue F).render ≠ s :=
          fun s hs => toString_int_ne h hs
        have hparse : I64.parse (InvocationValue.int value : InvocationValue F).render =
            some value := I64.parse_toString h
        rw [if_neg (hother "true" (by decide)), if_neg (hother "false" (by decide)),
          if_neg (not_or.mpr ⟨hother "null" (by decide), hother "None" (by decide)⟩), hparse]
    | float value => exact h.elim
    | string value =>
        have hquote : '\x22' ∈
            (InvocationValue.string value : InvocationValue F).render.toList := by
          unfold InvocationValue.render
          rw [String.toList_ofList]
          exact List.mem_cons_self
        cases (hsimple _ hquote).quote
  · rw [parseInvocationValue_quoted parseFloat hlist (render_trimmed h).2.trim_eq, hvalue]

end Values

/-! ## Arguments are read back -/

section Arguments

variable {F : Type}

/-- An argument with an accepted key, and a value that is rendered. -/
structure RenderedArg (entry : Sigma fun _ : String => InvocationValue F) : Prop where
  key_ne : entry.1 ≠ ""
  key : ∀ c ∈ entry.1.toList, isArgumentKeyChar c = true
  value : entry.2.Renders

variable {entry : Sigma fun _ : String => InvocationValue F}

theorem toList_renderArg (entry : Sigma fun _ : String => InvocationValue F) :
    (renderArg entry).toList = entry.1.toList ++ '=' :: entry.2.render.toList := by
  unfold renderArg
  rw [String.toList_append, String.toList_append, List.append_assoc]
  rfl

theorem RenderedArg.simple (h : RenderedArg entry) : ∀ c ∈ entry.1.toList, Simple c :=
  fun c hc => simple_toolNameChar (isToolNameChar_of_key (h.key c hc))

theorem RenderedArg.inert (h : RenderedArg entry) : Inert (renderArg entry).toList := by
  have hequals : Inert ['='] := by
    constructor
    · intro c hc
      cases List.mem_singleton.mp (show c ∈ ['='] from hc)
      decide
    · rfl
  rw [toList_renderArg, ← List.singleton_append]
  exact (inert_of_simple h.simple).append (hequals.append (render_inert h.value))

theorem RenderedArg.trimmed (h : RenderedArg entry) :
    renderArg entry ≠ "" ∧ Text.Trimmed (renderArg entry) := by
  rcases render_trimmed h.value with ⟨hvalue, htrimmed⟩
  have hkey : entry.1.toList ≠ [] := fun hnil => h.key_ne (String.toList_eq_nil_iff.mp hnil)
  have hlist : entry.2.render.toList ≠ [] := fun hnil => hvalue (String.toList_eq_nil_iff.mp hnil)
  refine ⟨?_, ?_, ?_⟩
  · intro hempty
    have hnil := toList_renderArg entry
    rw [hempty] at hnil
    exact List.append_ne_nil_of_left_ne_nil hkey _ hnil.symm
  · rw [toList_renderArg, List.head?_append_of_ne_nil _ hkey]
    exact fun c hc => (h.simple c (List.mem_of_head? hc)).white
  · rw [toList_renderArg, ← List.singleton_append, ← List.append_assoc,
      List.getLast?_append_of_ne_nil _ hlist]
    exact htrimmed.last

theorem addInvocationArg_renderArg (parseFloat : String → Option F)
    (args : Table String (InvocationValue F)) (h : RenderedArg entry) :
    addInvocationArg parseFloat args (renderArg entry) = some (args.insert entry.1 entry.2) := by
  rcases h.trimmed with ⟨hne, htrimmed⟩
  have hfind : findUnquotedChar (renderArg entry) '=' = some entry.1.toList.length := by
    unfold findUnquotedChar
    rw [toList_renderArg]
    refine QuoteState.findPlain_start (fun c hc => ?_) (by decide)
    have hsimple := h.simple c hc
    exact ⟨⟨hsimple.escape, hsimple.quote⟩, hsimple.equals⟩
  have hkey : Text.trim entry.1 = entry.1 := (trimmed_of_simple h.simple).trim_eq
  have hrest : (renderArg entry).toList.drop (entry.1.toList.length + 1) =
      entry.2.render.toList := by
    rw [toList_renderArg, ← List.drop_drop, List.drop_left, List.drop_one, List.tail_cons]
  have hfront : (renderArg entry).toList.take entry.1.toList.length = entry.1.toList := by
    rw [toList_renderArg, List.take_left]
  have haccepted : (decide (entry.1 = "") || !entry.1.toList.all isArgumentKeyChar) = false := by
    rw [List.all_eq_true.mpr h.key, decide_eq_false h.key_ne]
    rfl
  unfold addInvocationArg
  dsimp only
  rw [htrimmed.trim_eq, if_neg hne, hfind]
  dsimp only
  rw [hfront, hrest, String.ofList_toList, String.ofList_toList, hkey, haccepted,
    if_neg Bool.false_ne_true, (render_trimmed h.value).2.trim_eq,
    parseInvocationValue_render parseFloat h.value]

/-- Arguments with different keys are all kept. -/
theorem lookup_foldl_insert (entries : List (Sigma fun _ : String => InvocationValue F))
    (hnodup : entries.NodupKeys) (args : Table String (InvocationValue F)) (key : String) :
    (entries.foldl (fun args entry => args.insert entry.1 entry.2) args).lookup key =
      (entries.dlookup key).or (args.lookup key) := by
  induction entries generalizing args with
  | nil => rfl
  | cons entry entries ih =>
      rcases entry with ⟨other, value⟩
      rw [List.nodupKeys_cons] at hnodup
      rw [List.foldl_cons, ih hnodup.2]
      by_cases hkey : key = other
      · subst hkey
        rw [List.dlookup_cons_eq, List.dlookup_eq_none.mpr hnodup.1, AList.lookup_insert]
        rfl
      · rw [List.dlookup_cons_ne _ _ hkey, AList.lookup_insert_ne hkey]

theorem foldlM_addInvocationArg (parseFloat : String → Option F)
    (entries : List (Sigma fun _ : String => InvocationValue F))
    (h : ∀ entry ∈ entries, RenderedArg entry) (args : Table String (InvocationValue F)) :
    (entries.map renderArg).foldlM (addInvocationArg parseFloat) args =
      some (entries.foldl (fun args entry => args.insert entry.1 entry.2) args) := by
  induction entries generalizing args with
  | nil => rfl
  | cons entry entries ih =>
      rw [List.forall_mem_cons] at h
      rw [List.map_cons, List.foldlM_cons, addInvocationArg_renderArg parseFloat args h.1,
        List.foldl_cons]
      exact ih h.2 _

end Arguments

/-! ## Invocations are read back -/

theorem splitInvocationLoop_pass (cs rest : List Char) (state : QuoteState) (depth : Nat)
    (current : List Char) (parts : List String)
    (h : ∀ c ∈ state.plainChars cs,
      Brackets.isOpener c = false ∧ Brackets.isCloser c = false ∧ c ≠ ',') :
    splitInvocationLoop (cs ++ rest) state depth current parts =
      splitInvocationLoop rest (state.after cs) depth (current ++ cs) parts := by
  induction cs generalizing state current with
  | nil => rw [List.append_nil, List.nil_append, QuoteState.after_nil]
  | cons c cs ih =>
      rw [List.cons_append, splitInvocationLoop, QuoteState.after_cons,
        List.append_cons current c cs]
      rw [QuoteState.plainChars] at h
      cases hplain : state.isPlain c with
      | false =>
          rw [hplain, if_neg Bool.false_ne_true] at h
          rw [if_neg Bool.false_ne_true]
          exact ih _ _ h
      | true =>
          rw [hplain, if_pos rfl, List.forall_mem_cons] at h
          rcases h.1 with ⟨hopener, hcloser, hcomma⟩
          rw [if_pos rfl, hopener, hcloser, if_neg Bool.false_ne_true, if_neg Bool.false_ne_true,
            if_neg fun hand => hcomma hand.1]
          exact ih _ _ h.2

theorem trim_white_append {white : List Char} (hwhite : ∀ c ∈ white, Text.isWhitespace c = true)
    (s : String) : Text.trim (.ofList (white ++ s.toList)) = Text.trim s := by
  unfold Text.trim Text.trimChars
  rw [String.toList_ofList, List.dropWhile_append_of_pos hwhite]

/-- Trimmed parts that scanners pass over are found again between commas. -/
theorem splitInvocationLoop_join (items : List String)
    (h : ∀ item ∈ items, Inert item.toList ∧ item ≠ "" ∧ Text.Trimmed item) {white : List Char}
    (hwhite : ∀ c ∈ white, Text.isWhitespace c = true) (parts : List String) :
    splitInvocationLoop (", ".intercalate items).toList {} 0 white parts =
      some (parts ++ items) := by
  induction items generalizing white parts with
  | nil =>
      have hempty : Text.trim (.ofList white) = "" :=
        Text.trim_eq_empty_iff.mpr (by rwa [String.toList_ofList])
      rw [List.append_nil]
      show splitInvocationLoop [] {} 0 white parts = _
      rw [splitInvocationLoop, hempty]
      rfl
  | cons item items ih =>
      rw [List.forall_mem_cons] at h
      rcases h.1 with ⟨hinert, hne, htrimmed⟩
      have htrim : Text.trim (.ofList (white ++ item.toList)) = item := by
        rw [trim_white_append hwhite, htrimmed.trim_eq]
      cases items with
      | nil =>
          have hpass := splitInvocationLoop_pass item.toList [] {} 0 white parts hinert.plain
          rw [List.append_nil, hinert.after] at hpass
          show splitInvocationLoop item.toList {} 0 white parts = _
          rw [hpass, splitInvocationLoop, htrim]
          dsimp only
          rw [if_neg hne]
          rfl
      | cons next items =>
          rw [String.intercalate_cons_cons, String.toList_append, String.toList_append,
            List.append_assoc, splitInvocationLoop_pass _ _ _ _ _ _ hinert.plain, hinert.after]
          have hcomma : ∀ rest, splitInvocationLoop (',' :: ' ' :: rest) {} 0
              (white ++ item.toList) parts =
                splitInvocationLoop rest {} 0 [' '] (parts ++ [item]) := by
            intro rest
            rw [splitInvocationLoop, htrim]
            rfl
          have hspace : ∀ c ∈ [' '], Text.isWhitespace c = true := by simp [Text.isWhitespace]
          have hrest := ih h.2 hspace (parts ++ [item])
          rw [List.append_assoc] at hrest
          exact (hcomma _).trans hrest

/-- Parsing inverts rendering, and a text whose quotes and brackets do not match is rejected. -/
theorem parseBareToolInvocation_spec {F : Type} (parseFloat : String → Option F) :
    (∀ (name : String) (args : Table String (InvocationValue F)), name ≠ "" →
      (∀ c ∈ name.toList, isToolNameChar c = true) →
      (∀ entry ∈ args.entries, RenderedArg entry) →
      ∃ parsed, parseBareToolInvocation parseFloat (renderInvocation name args) =
        some (name, parsed) ∧ ∀ key, parsed.lookup key = args.lookup key) ∧
    ∀ text inner, argumentPart text = some inner → ¬WellNested inner →
      parseBareToolInvocation parseFloat text = none := by
  refine ⟨?_, fun text inner => parseBareToolInvocation_none parseFloat⟩
  intro name args hname haccepted hargs
  have hsimple : ∀ c ∈ name.toList, Simple c := fun c hc => simple_toolNameChar (haccepted c hc)
  have hlist : (renderInvocation name args).toList = name.toList ++
      '(' :: ((", ".intercalate (args.entries.map renderArg)).toList ++ [')']) := by
    unfold renderInvocation
    rw [String.toList_append, String.toList_append, String.toList_append, List.append_assoc,
      List.append_assoc]
    rfl
  have hnil : name.toList ≠ [] := fun hnil => hname (String.toList_eq_nil_iff.mp hnil)
  have htrimmed : Text.Trimmed (renderInvocation name args) := by
    constructor
    · rw [hlist, List.head?_append_of_ne_nil _ hnil]
      exact fun c hc => (hsimple c (List.mem_of_head? hc)).white
    · rw [hlist, ← List.cons_append, ← List.append_assoc, List.getLast?_concat]
      intro c hc
      cases hc
      rfl
  have hsplit : Text.splitOnce (renderInvocation name args) '(' = some (name,
      .ofList ((", ".intercalate (args.entries.map renderArg)).toList ++ [')'])) := by
    refine Text.splitOnce_append (fun hmem => ?_) (by rw [hlist, String.toList_ofList])
    cases (hsimple _ hmem).opener
  have hends : Text.endsWith (renderInvocation name args) ")" = true := by
    unfold Text.endsWith
    rw [List.isSuffixOf_iff_suffix, hlist, ← List.cons_append, ← List.append_assoc]
    exact List.suffix_append _ _
  have hinvalid : (decide (name = "") || !name.toList.all isToolNameChar) = false := by
    rw [List.all_eq_true.mpr haccepted, decide_eq_false hname]
    rfl
  have hparts : splitInvocationArgs (", ".intercalate (args.entries.map renderArg)) =
      some (args.entries.map renderArg) := by
    refine splitInvocationLoop_join _ ?_ (fun c hc => absurd hc List.not_mem_nil) []
    intro item hitem
    rcases List.mem_map.mp hitem with ⟨entry, hentry, heq⟩
    rw [← heq]
    exact ⟨(hargs entry hentry).inert, (hargs entry hentry).trimmed⟩
  refine ⟨args.entries.foldl (fun args entry => args.insert entry.1 entry.2) ∅, ?_, ?_⟩
  · unfold parseBareToolInvocation
    dsimp only
    rw [htrimmed.trim_eq, hsplit]
    dsimp only
    rw [hends, (trimmed_of_simple hsimple).trim_eq, hinvalid, String.toList_ofList,
      List.dropLast_concat, String.ofList_toList, hparts]
    dsimp only
    rw [foldlM_addInvocationArg parseFloat _ hargs]
    rfl
  · intro key
    rw [lookup_foldl_insert _ args.nodupKeys, AList.lookup_empty, Option.or_none]
    rfl

def sampleArgs : Table String (InvocationValue Unit) :=
  ((∅ : Table String (InvocationValue Unit)).insert "limit" (.int (-5))).insert "q"
    (.string "a, (b\n")

example : renderInvocation "search" sampleArgs = "search(q=\x22a, (b\\n\x22, limit=-5)" := by decide

theorem parseBareToolInvocation_sample :
    (∃ parsed, parseBareToolInvocation (fun _ => none) (renderInvocation "search" sampleArgs) =
      some ("search", parsed) ∧ ∀ key, parsed.lookup key = sampleArgs.lookup key) ∧
    parseBareToolInvocation (F := Unit) (fun _ => none) "search(q=[1)" = none := by
  constructor
  · refine (parseBareToolInvocation_spec fun _ => none).1 "search" sampleArgs (by decide)
      (List.all_eq_true.mp (by decide)) ?_
    have hentries : sampleArgs.entries = [⟨"q", .string "a, (b\n"⟩, ⟨"limit", .int (-5)⟩] := by
      decide
    rw [hentries, List.forall_mem_cons, List.forall_mem_singleton]
    exact ⟨⟨by decide, List.all_eq_true.mp (by decide), trivial⟩,
      by decide, List.all_eq_true.mp (by decide), show I64.InRange (-5) by decide⟩
  · refine (parseBareToolInvocation_spec fun _ => none).2 "search(q=[1)" "q=[1" (by decide) ?_
    exact fun h => absurd h.brackets.closed (by decide)

end BenShu.Agent
