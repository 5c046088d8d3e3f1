import Mathlib.Data.List.Infix

/-!
# String operations over Unicode scalar values

The slice methods a program calls on text, on the list of characters. White
space is the Unicode property; lowering is ASCII only.
-/

namespace Text

/-- The Unicode `White_Space` property. -/
def isWhitespace (c : Char) : Bool :=
  let n := c.toNat
  (9 ≤ n && n ≤ 13) || n == 32 || n == 0x85 || n == 0xA0 || n == 0x1680 ||
    (0x2000 ≤ n && n ≤ 0x200A) || n == 0x2028 || n == 0x2029 || n == 0x202F ||
    n == 0x205F || n == 0x3000

def trimChars (cs : List Char) : List Char :=
  ((cs.dropWhile isWhitespace).reverse.dropWhile isWhitespace).reverse

def trim (s : String) : String := .ofList (trimChars s.toList)

def trimStart (s : String) : String := .ofList (s.toList.dropWhile isWhitespace)

def trimEndMatches (s : String) (p : Char → Bool) : String :=
  .ofList (s.toList.reverse.dropWhile p).reverse

def trimMatches (s : String) (p : Char → Bool) : String :=
  .ofList ((s.toList.dropWhile p).reverse.dropWhile p).reverse

def charCount (s : String) : Nat := s.toList.length

def startsWith (s pat : String) : Bool := pat.toList.isPrefixOf s.toList

def endsWith (s pat : String) : Bool := pat.toList.isSuffixOf s.toList

def afterStart? (s pat : String) : Option String :=
  if startsWith s pat then some (.ofList (s.toList.drop pat.toList.length)) else none

/-- The first number counts the letters still to be passed over. -/
def removeAux (pat : List Char) : Nat → List Char → List Char
  | _, [] => []
  | skip + 1, _ :: cs => removeAux pat skip cs
  | 0, c :: cs =>
      if pat.isPrefixOf (c :: cs) then removeAux pat (pat.length - 1) cs
      else c :: removeAux pat 0 cs

/-- Without the occurrences of `pat`, found from the left and apart from each other. -/
def removeAll (s pat : String) : String := .ofList (removeAux pat.toList 0 s.toList)

def contains (s pat : String) : Bool := s.toList.tails.any pat.toList.isPrefixOf

def toAsciiLowercase (s : String) : String := .ofList (s.toList.map Char.toLower)

/-- The first `n` characters, followed by `"..."` when some were cut off. -/
def preview (s : String) (n : Nat) : String :=
  .ofList (s.toList.take n) ++ if charCount s > n then "..." else ""

def stripReturn : List Char → List Char
  | '\r' :: cs => cs
  | cs => cs

def linesAux : List Char → List Char → List (List Char)
  | [], [] => []
  | [], cur => [cur.reverse]
  | c :: cs, cur =>
      if c = '\n' then (stripReturn cur).reverse :: linesAux cs [] else linesAux cs (c :: cur)

/-- Lines without their terminators; a final line break opens no further line. -/
def lines (s : String) : List String := (linesAux s.toList []).map .ofList

def splitAux (sep : Char → Bool) : List Char → List Char → List (List Char)
  | [], cur => [cur.reverse]
  | c :: cs, cur =>
      if sep c then cur.reverse :: splitAux sep cs [] else splitAux sep cs (c :: cur)

def split (s : String) (sep : Char → Bool) : List String :=
  (splitAux sep s.toList []).map .ofList

def splitWhitespace (s : String) : List String :=
  (split s isWhitespace).filter fun word => !word.isEmpty

/-- How often each element occurs in the list up to and including itself. -/
def runningCounts {α : Type} [BEq α] : List α → List α → List (α × Nat)
  | _, [] => []
  | seen, x :: xs => (x, seen.count x + 1) :: runningCounts (x :: seen) xs

theorem startsWith_iff {s pat : String} : startsWith s pat = true ↔ pat.toList <+: s.toList := by
  simp [startsWith]

theorem contains_iff {s pat : String} : contains s pat = true ↔ pat.toList <:+: s.toList := by
  simp only [contains, List.any_eq_true, List.mem_tails, List.isPrefixOf_iff_prefix]
  constructor
  · rintro ⟨tail, hsuffix, hstarts⟩
    exact hstarts.isInfix.trans hsuffix.isInfix
  · rintro ⟨before, after, heq⟩
    exact ⟨pat.toList ++ after, ⟨before, by rw [← heq, List.append_assoc]⟩, after, rfl⟩

theorem startsWith_append (s t : String) : startsWith (s ++ t) s = true := by
  simp [startsWith_iff, String.toList_append]

theorem afterStart?_append (pat s : String) : afterStart? (pat ++ s) pat = some s := by
  unfold afterStart?
  rw [if_pos (startsWith_append pat s), String.toList_append, List.drop_left, String.ofList_toList]

theorem trimEndMatches_append {s t : String} {p : Char → Bool} (h : ∀ c ∈ t.toList, p c = true) :
    trimEndMatches (s ++ t) p = trimEndMatches s p := by
  unfold trimEndMatches
  rw [String.toList_append, List.reverse_append,
    List.dropWhile_append_of_pos fun c hc => h c (List.mem_reverse.mp hc)]

variable {c : Char}

theorem mem_of_mem_trim {s : String} (h : c ∈ (trim s).toList) : c ∈ s.toList := by
  rw [trim, String.toList_ofList, trimChars, List.mem_reverse] at h
  have hfront := (List.dropWhile_sublist _).subset h
  rw [List.mem_reverse] at hfront
  exact (List.dropWhile_sublist _).subset hfront

/-! ## Pieces between separators -/

variable {sep : Char → Bool}

theorem splitAux_append {l : List Char} (h : ∀ c ∈ l, sep c = false) (rest cur : List Char) :
    splitAux sep (l ++ rest) cur = splitAux sep rest (l.reverse ++ cur) := by
  induction l generalizing cur with
  | nil => rfl
  | cons c l ih =>
      rw [List.cons_append, splitAux, if_neg (by simp [h c List.mem_cons_self]),
        ih fun x hx => h x (List.mem_cons_of_mem _ hx)]
      simp

theorem splitAux_piece {l : List Char} (h : ∀ x ∈ l, sep x = false) (hc : sep c = true)
    (rest : List Char) : splitAux sep (l ++ c :: rest) [] = l :: splitAux sep rest [] := by
  rw [splitAux_append h, splitAux, if_pos hc]
  simp

theorem splitAux_last {l : List Char} (h : ∀ x ∈ l, sep x = false) : splitAux sep l [] = [l] := by
  have hall := splitAux_append h [] []
  rw [List.append_nil] at hall
  rw [hall]
  simp [splitAux]

theorem splitAux_ne_nil (sep : Char → Bool) (l cur : List Char) : splitAux sep l cur ≠ [] := by
  cases l with
  | nil => simp [splitAux]
  | cons c l =>
      rw [splitAux]
      split
      · simp
      · exact splitAux_ne_nil sep l (c :: cur)

theorem mem_of_mem_splitAux {l cur piece : List Char} (hpiece : piece ∈ splitAux sep l cur)
    (hc : c ∈ piece) : c ∈ l ∨ c ∈ cur := by
  induction l generalizing cur with
  | nil =>
      rw [splitAux, List.mem_singleton] at hpiece
      rw [hpiece] at hc
      exact .inr (List.mem_reverse.mp hc)
  | cons x l ih =>
      rw [splitAux] at hpiece
      split_ifs at hpiece with hx
      · rcases List.mem_cons.mp hpiece with rfl | hrest
        · exact .inr (List.mem_reverse.mp hc)
        · rcases ih hrest with hl | hnil
          · exact .inl (List.mem_cons_of_mem _ hl)
          · cases hnil
      · rcases ih hpiece with hl | hcur
        · exact .inl (List.mem_cons_of_mem _ hl)
        · rcases List.mem_cons.mp hcur with rfl | hcur
          · exact .inl List.mem_cons_self
          · exact .inr hcur

theorem mem_of_mem_split {s piece : String} (hpiece : piece ∈ split s sep) (hc : c ∈ piece.toList) :
    c ∈ s.toList := by
  obtain ⟨chars, hmem, rfl⟩ := List.mem_map.mp hpiece
  rw [String.toList_ofList] at hc
  rcases mem_of_mem_splitAux hmem hc with hs | hnil
  · exact hs
  · cases hnil

theorem infix_piece_iff {pat l rest : List Char} (hpat : ∀ x ∈ pat, sep x = false)
    (hl : ∀ x ∈ l, sep x = false) (hc : sep c = true) :
    (∃ d, sep d = true ∧ pat ++ [d] <:+: l ++ c :: rest) ↔
      pat <:+ l ∨ ∃ d, sep d = true ∧ pat ++ [d] <:+: rest := by
  constructor
  · rintro ⟨d, hd, before, after, heq⟩
    have hne : ∀ x : List Char, (∀ y ∈ x, sep y = false) → ∀ e, sep e = true → e ∉ x :=
      fun x hx e he hmem => by rw [hx e hmem] at he; cases he
    have heq : (before ++ pat) ++ d :: after = l ++ c :: rest := by
      rw [← heq]
      simp
    rcases List.append_eq_append_iff.mp heq with ⟨m, hlm, hm⟩ | ⟨m, hbefore, hm⟩
    · cases m with
      | nil => exact .inl ⟨before, by simpa using hlm.symm⟩
      | cons x m =>
          obtain ⟨rfl, -⟩ := List.cons.inj hm
          exact absurd (by rw [hlm]; simp) (hne l hl d hd)
    · cases m with
      | nil => exact .inl ⟨before, by simpa using hbefore⟩
      | cons x m =>
          obtain ⟨rfl, hrest⟩ := List.cons.inj hm
          rcases List.append_eq_append_iff.mp hbefore with ⟨n, hln, hn⟩ | ⟨n, hbn, hn⟩
          · exact absurd (by rw [hn]; simp) (hne pat hpat c hc)
          · cases n with
            | nil => exact absurd (by rw [← List.nil_append pat, ← hn]; simp) (hne pat hpat c hc)
            | cons y n =>
                obtain ⟨-, rfl⟩ := List.cons.inj hn
                exact .inr ⟨d, hd, n, after, by rw [hrest]; simp⟩
  · rintro (⟨before, rfl⟩ | ⟨d, hd, hinfix⟩)
    · exact ⟨c, hc, before, rest, by simp⟩
    · exact ⟨d, hd, hinfix.trans ⟨l ++ [c], [], by simp⟩⟩

/-- A text without separators stands before a separator exactly when it ends a piece that
is not the last one. -/
theorem infix_sep_iff {pat : List Char} (hpat : ∀ x ∈ pat, sep x = false) (l : List Char) :
    (∃ d, sep d = true ∧ pat ++ [d] <:+: l) ↔
      ∃ piece ∈ (splitAux sep l []).dropLast, pat <:+ piece := by
  induction hn : l.length using Nat.strongRecOn generalizing l with
  | ind n ih =>
      cases hfirst : l.find? sep with
      | none =>
          have hnone : ∀ x ∈ l, sep x = false := fun x hx => by
            simpa using List.find?_eq_none.mp hfirst x hx
          rw [splitAux_last hnone]
          constructor
          · rintro ⟨d, hd, hinfix⟩
            have hmem : d ∈ l := hinfix.subset (by simp)
            rw [hnone d hmem] at hd
            cases hd
          · simp
      | some c =>
          obtain ⟨hc, before, rest, rfl, hbefore⟩ := List.find?_eq_some_iff_append.mp hfirst
          have hbefore : ∀ x ∈ before, sep x = false := fun x hx => by simpa using hbefore x hx
          have hrest := ih rest.length (by rw [← hn]; simp; omega) rest rfl
          rw [infix_piece_iff hpat hbefore hc, hrest, splitAux_piece hbefore hc,
            List.dropLast_cons_of_ne_nil (splitAux_ne_nil _ _ _)]
          simp

theorem mem_intercalate {sep : String} {pieces : List String}
    (h : c ∈ (sep.intercalate pieces).toList) :
    c ∈ sep.toList ∨ ∃ piece ∈ pieces, c ∈ piece.toList := by
  induction pieces with
  | nil => simp at h
  | cons piece pieces ih =>
      cases pieces with
      | nil => exact .inr ⟨piece, List.mem_cons_self, by simpa using h⟩
      | cons next pieces =>
          rw [String.intercalate_cons_cons, String.toList_append, String.toList_append,
            List.mem_append, List.mem_append] at h
          rcases h with (hpiece | hsep) | hrest
          · exact .inr ⟨piece, List.mem_cons_self, hpiece⟩
          · exact .inl hsep
          · rcases ih hrest with hsep | ⟨other, hmem, hc⟩
            · exact .inl hsep
            · exact .inr ⟨other, List.mem_cons_of_mem _ hmem, hc⟩

/-! ## Decimal numbers -/

theorem toString_isDigit {n : Nat} (h : c ∈ (toString n).toList) : c.isDigit = true := by
  rw [Nat.toString_eq_repr, Nat.repr, String.toList_ofList] at h
  exact Nat.isDigit_of_mem_toDigits (by decide) (by decide) h

theorem toString_injective {m n : Nat} (h : toString m = toString n) : m = n := by
  have hl := congrArg String.toList h
  simp only [Nat.toString_eq_repr, Nat.repr, String.toList_ofList] at hl
  rw [← Nat.ofDigitChars_ten_toDigits (n := m), hl, Nat.ofDigitChars_ten_toDigits]

theorem colon_notMem_toString (n : Nat) : ':' ∉ (toString n).toList := fun h => by
  have hd := toString_isDigit h
  exact absurd hd (by decide)

theorem append_cons_inj_of_notMem {α : Type} {c : α} {l l' a a' : List α}
    (h : l ++ c :: a = l' ++ c :: a') (ha : c ∉ a) (ha' : c ∉ a') : l = l' ∧ a = a' := by
  rcases List.append_eq_append_iff.mp h with ⟨m, hl, hm⟩ | ⟨m, hl, hm⟩
  · cases m with
    | nil => simp_all
    | cons x m =>
        simp only [List.cons_append, List.cons.injEq] at hm
        exact absurd (by rw [hm.2]; simp) ha
  · cases m with
    | nil => simp_all
    | cons x m =>
        simp only [List.cons_append, List.cons.injEq] at hm
        exact absurd (by rw [hm.2]; simp) ha'

theorem append_cons_inj_of_notMem_left {α : Type} {c : α} {l l' a a' : List α}
    (h : l ++ c :: a = l' ++ c :: a') (hl : c ∉ l) (hl' : c ∉ l') : l = l' ∧ a = a' := by
  induction l generalizing l' with
  | nil =>
      cases l' with
      | nil => exact ⟨rfl, (List.cons.inj h).2⟩
      | cons x l' =>
          obtain ⟨rfl, -⟩ := List.cons.inj h
          exact absurd List.mem_cons_self hl'
  | cons x l ih =>
      cases l' with
      | nil =>
          obtain ⟨rfl, -⟩ := List.cons.inj h
          exact absurd List.mem_cons_self hl
      | cons y l' =>
          obtain ⟨rfl, htail⟩ := List.cons.inj h
          obtain ⟨rfl, rfl⟩ := ih htail (fun hx => hl (List.mem_cons_of_mem _ hx))
            fun hx => hl' (List.mem_cons_of_mem _ hx)
          exact ⟨rfl, rfl⟩

end Text
