import BenShu.Lib.Lines

/-!
# Text with quotes and brackets

Characters inside quotes and behind a backslash stand for themselves. The others are plain;
brackets among them are to be opened and closed in turn, whatever their kind.
-/

/-- Where a scanner stands: the quote that is open, and whether a backslash was just read. -/
structure QuoteState where
  quote : Option Char := none
  escaped : Bool := false
deriving DecidableEq

namespace QuoteState

def isQuote (c : Char) : Bool := c == '\x27' || c == '\x22'

def isPlain (s : QuoteState) (c : Char) : Bool :=
  !s.escaped && c != '\\' && s.quote.isNone && !isQuote c

def next (s : QuoteState) (c : Char) : QuoteState :=
  if s.escaped then { s with escaped := false }
  else if c = '\\' then { s with escaped := true }
  else
    match s.quote with
    | some active => if c = active then { s with quote := none } else s
    | none => if isQuote c then { s with quote := some c } else s

def after (s : QuoteState) (cs : List Char) : QuoteState := cs.foldl next s

def plainChars : QuoteState → List Char → List Char
  | _, [] => []
  | s, c :: cs => if s.isPlain c then c :: plainChars (s.next c) cs else plainChars (s.next c) cs

/-- The position of the first plain `needle`. -/
def findPlain (needle : Char) : QuoteState → List Char → Option Nat
  | _, [] => none
  | s, c :: cs =>
      if s.isPlain c && c == needle then some 0 else (findPlain needle (s.next c) cs).map (· + 1)

@[simp] theorem after_nil (s : QuoteState) : s.after [] = s := rfl

@[simp] theorem after_cons (s : QuoteState) (c : Char) (cs : List Char) :
    s.after (c :: cs) = (s.next c).after cs := rfl

@[simp] theorem after_append (s : QuoteState) (cs cs' : List Char) :
    s.after (cs ++ cs') = (s.after cs).after cs' := List.foldl_append

theorem plainChars_append (s : QuoteState) (cs cs' : List Char) :
    s.plainChars (cs ++ cs') = s.plainChars cs ++ (s.after cs).plainChars cs' := by
  induction cs generalizing s with
  | nil => rfl
  | cons c cs ih =>
      rw [List.cons_append, plainChars, plainChars, ih, after_cons]
      split <;> rfl

theorem isPlain_start {c : Char} (hescape : c ≠ '\\') (hquote : isQuote c = false) :
    isPlain {} c = true ∧ next {} c = {} := by
  unfold isPlain next
  simp [hescape, hquote]

theorem plainChars_start {cs : List Char} (h : ∀ c ∈ cs, c ≠ '\\' ∧ isQuote c = false) :
    plainChars {} cs = cs ∧ after {} cs = {} := by
  induction cs with
  | nil => exact ⟨rfl, rfl⟩
  | cons c cs ih =>
      rw [List.forall_mem_cons] at h
      rcases isPlain_start h.1.1 h.1.2 with ⟨hplain, hnext⟩
      rw [plainChars, after_cons, if_pos hplain, hnext, (ih h.2).1, (ih h.2).2]
      exact ⟨rfl, rfl⟩

theorem findPlain_start {needle : Char} {cs rest : List Char}
    (h : ∀ c ∈ cs, (c ≠ '\\' ∧ isQuote c = false) ∧ c ≠ needle)
    (hneedle : needle ≠ '\\' ∧ isQuote needle = false) :
    findPlain needle {} (cs ++ needle :: rest) = some cs.length := by
  induction cs with
  | nil =>
      rw [List.nil_append, findPlain, (isPlain_start hneedle.1 hneedle.2).1]
      simp
  | cons c cs ih =>
      rw [List.forall_mem_cons] at h
      rcases isPlain_start h.1.1.1 h.1.1.2 with ⟨_, hnext⟩
      rw [List.cons_append, findPlain, hnext, ih h.2]
      simp [h.1.2]

end QuoteState

/-! ## Escaped text -/

namespace EscapedText

def escapeChar (c : Char) : List Char :=
  if c = '\\' then ['\\', '\\'] else if c = '\x22' then ['\\', '\x22']
  else if c = '\n' then ['\\', 'n'] else if c = '\r' then ['\\', 'r']
  else if c = '\t' then ['\\', 't'] else [c]

def escape (cs : List Char) : List Char := cs.flatMap escapeChar

def unescapeChar : Char → Char
  | 'n' => '\n'
  | 'r' => '\r'
  | 't' => '\t'
  | other => other

/-- The text with its escapes replaced. A backslash at the end stays. -/
def unescapeAux : Bool → List Char → List Char
  | true, [] => ['\\']
  | false, [] => []
  | true, c :: cs => unescapeChar c :: unescapeAux false cs
  | false, c :: cs => if c = '\\' then unescapeAux true cs else c :: unescapeAux false cs

theorem escapeChar_cases (c : Char) :
    (escapeChar c = [c] ∧ c ≠ '\\' ∧ c ≠ '\x22') ∨
      ∃ written, escapeChar c = ['\\', written] ∧ unescapeChar written = c := by
  unfold escapeChar
  by_cases hescape : c = '\\'
  · exact .inr ⟨'\\', by simp [hescape], by rw [hescape]; rfl⟩
  by_cases hquote : c = '\x22'
  · exact .inr ⟨'\x22', by simp [hquote], by rw [hquote]; rfl⟩
  by_cases hnewline : c = '\n'
  · exact .inr ⟨'n', by simp [hnewline], by rw [hnewline]; rfl⟩
  by_cases hreturn : c = '\r'
  · exact .inr ⟨'r', by simp [hreturn], by rw [hreturn]; rfl⟩
  by_cases htab : c = '\t'
  · exact .inr ⟨'t', by simp [htab], by rw [htab]; rfl⟩
  exact .inl ⟨by simp [hescape, hquote, hnewline, hreturn, htab], hescape, hquote⟩

theorem unescapeAux_escape (cs : List Char) : unescapeAux false (escape cs) = cs := by
  induction cs with
  | nil => rfl
  | cons c cs ih =>
      unfold escape at ih ⊢
      rw [List.flatMap_cons]
      rcases escapeChar_cases c with ⟨hchar, hescape, _⟩ | ⟨written, hchar, hwritten⟩
      · rw [hchar, List.singleton_append, unescapeAux, if_neg hescape, ih]
      · rw [hchar]
        show unescapeAux false ('\\' :: written :: cs.flatMap escapeChar) = _
        rw [unescapeAux, if_pos rfl, unescapeAux, hwritten, ih]

theorem plainChars_escape (cs : List Char) :
    QuoteState.plainChars ⟨some '\x22', false⟩ (escape cs) = [] ∧
      QuoteState.after ⟨some '\x22', false⟩ (escape cs) = ⟨some '\x22', false⟩ := by
  induction cs with
  | nil => exact ⟨rfl, rfl⟩
  | cons c cs ih =>
      unfold escape at ih ⊢
      rw [List.flatMap_cons, QuoteState.plainChars_append, QuoteState.after_append]
      have hone : QuoteState.plainChars ⟨some '\x22', false⟩ (escapeChar c) = [] ∧
          QuoteState.after ⟨some '\x22', false⟩ (escapeChar c) = ⟨some '\x22', false⟩ := by
        rcases escapeChar_cases c with ⟨hchar, hescape, hquote⟩ | ⟨written, hchar, _⟩
        · rw [hchar]
          simp [QuoteState.plainChars, QuoteState.isPlain, QuoteState.next, hescape, hquote]
        · rw [hchar]
          simp [QuoteState.plainChars, QuoteState.isPlain, QuoteState.next]
      rw [hone.1, hone.2]
      exact ih

theorem plainChars_quoted (cs : List Char) :
    QuoteState.plainChars {} ('\x22' :: escape cs ++ ['\x22']) = [] ∧
      QuoteState.after {} ('\x22' :: escape cs ++ ['\x22']) = {} := by
  have hopen : QuoteState.isPlain {} '\x22' = false ∧
      QuoteState.next {} '\x22' = ⟨some '\x22', false⟩ := ⟨rfl, rfl⟩
  rw [List.cons_append, QuoteState.plainChars, QuoteState.after_cons, hopen.1, hopen.2,
    QuoteState.plainChars_append, QuoteState.after_append, (plainChars_escape cs).1,
    (plainChars_escape cs).2]
  exact ⟨rfl, rfl⟩

end EscapedText

/-! ## Brackets -/

namespace Brackets

def isOpener (c : Char) : Bool := c == '(' || c == '[' || c == '{'

def isCloser (c : Char) : Bool := c == ')' || c == ']' || c == '}'

/-- With `depth` brackets open already, no bracket is closed that is not open, and at the end
all are closed. -/
structure Nested (depth : Nat) (cs : List Char) : Prop where
  opened : ∀ front, front <+: cs → front.countP isCloser ≤ depth + front.countP isOpener
  closed : cs.countP isCloser = depth + cs.countP isOpener

variable {depth : Nat} {c : Char} {cs : List Char}

theorem nested_nil_iff : Nested depth [] ↔ depth = 0 := by
  constructor
  · intro h
    have hclosed := h.closed
    simp only [List.countP_nil] at hclosed
    omega
  · intro h
    subst h
    refine ⟨fun front hfront => ?_, rfl⟩
    rw [List.prefix_nil.mp hfront]
    exact Nat.le_refl _

theorem nested_cons_iff {before : Nat} (hstart : depth + (if isOpener c then 1 else 0) =
    before + if isCloser c then 1 else 0) : Nested depth (c :: cs) ↔ Nested before cs := by
  have hopens : ∀ l : List Char, (c :: l).countP isOpener =
      l.countP isOpener + if isOpener c then 1 else 0 := fun l => List.countP_cons
  have hcloses : ∀ l : List Char, (c :: l).countP isCloser =
      l.countP isCloser + if isCloser c then 1 else 0 := fun l => List.countP_cons
  constructor
  · intro h
    refine ⟨fun front hfront => ?_, ?_⟩
    · have hcons := h.opened (c :: front) (List.cons_prefix_cons.mpr ⟨rfl, hfront⟩)
      rw [hopens, hcloses] at hcons
      omega
    · have hclosed := h.closed
      rw [hopens, hcloses] at hclosed
      omega
  · intro h
    refine ⟨fun front hfront => ?_, ?_⟩
    · cases front with
      | nil => exact Nat.zero_le _
      | cons first front =>
          rcases List.cons_prefix_cons.mp hfront with ⟨rfl, hrest⟩
          have hopened := h.opened front hrest
          rw [hopens, hcloses]
          omega
    · have hclosed := h.closed
      rw [hopens, hcloses]
      omega

theorem not_nested_closer (hcloser : isCloser c = true) (hopener : isOpener c = false) :
    ¬Nested 0 (c :: cs) := by
  intro h
  have hopened := h.opened [c] (List.cons_prefix_cons.mpr ⟨rfl, List.nil_prefix⟩)
  simp [hcloser, hopener] at hopened

end Brackets
