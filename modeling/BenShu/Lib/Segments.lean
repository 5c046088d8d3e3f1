import BenShu.Lib.Text
import Mathlib.Data.List.DropRight
import Mathlib.Data.List.TakeWhile

/-!
# Texts with separators at their ends

What trimming takes from a text, the text before the first separator and the text behind it, and
the pieces of a text before and after its outer separators are taken away.
-/

namespace Text

/-! ## Trimming -/

variable (p : Char → Bool)

/-- Matching characters, what is left without them, and matching characters. -/
structure TrimParts (content lead middle tail : List Char) : Prop where
  append : content = lead ++ (middle ++ tail)
  start : content.dropWhile p = middle ++ tail
  stop : ((middle ++ tail).reverse.dropWhile p).reverse = middle
  lead_all : ∀ c ∈ lead, p c = true
  tail_all : ∀ c ∈ tail, p c = true
  tail_nil : middle = [] → tail = []
  head_not : ∀ c ∈ middle.head?, p c = false
  last_not : ∀ c ∈ middle.getLast?, p c = false

theorem trim_parts (content : List Char) :
    ∃ lead middle tail, TrimParts p content lead middle tail := by
  set rest := content.dropWhile p with hrest
  set middle := (rest.reverse.dropWhile p).reverse with hmiddle
  set tail := (rest.reverse.takeWhile p).reverse with htail
  have happend : middle ++ tail = rest := by
    rw [hmiddle, htail, ← List.reverse_append, List.takeWhile_append_dropWhile,
      List.reverse_reverse]
  have hhead : ∀ c ∈ rest.head?, p c = false := by
    intro c hc
    have hnot := List.head?_dropWhile_not p content
    rw [← hrest, Option.mem_def.mp hc] at hnot
    exact hnot
  have htail_all : ∀ c ∈ tail, p c = true := by
    intro c hc
    exact List.mem_takeWhile_imp (List.mem_reverse.mp hc)
  refine ⟨content.takeWhile p, middle, tail, ?_, happend.symm, ?_,
    fun c hc => List.mem_takeWhile_imp hc, htail_all, fun hnil => ?_, fun c hc => ?_,
    fun c hc => ?_⟩
  · rw [happend, List.takeWhile_append_dropWhile]
  · rw [happend]
  · cases hcons : tail with
    | nil => rfl
    | cons c tail' =>
        have hfirst := hhead c (by rw [← happend, hnil, hcons]; rfl)
        rw [htail_all c (by rw [hcons]; exact List.mem_cons_self)] at hfirst
        cases hfirst
  · apply hhead
    rw [← happend]
    exact List.mem_head?_append_of_mem_head? hc
  · have hnot := List.head?_dropWhile_not p rest.reverse
    rw [hmiddle, List.getLast?_reverse] at hc
    rw [Option.mem_def.mp hc] at hnot
    exact hnot

variable {p}

theorem TrimParts.trimMatches {s : String} {lead middle tail : List Char}
    (h : TrimParts p s.toList lead middle tail) : trimMatches s p = .ofList middle := by
  rw [Text.trimMatches, h.start, h.stop]

theorem rdropWhile_eq_self_iff_last {l : List Char} :
    l.rdropWhile p = l ↔ ∀ c ∈ l.getLast?, p c = false := by
  rcases List.eq_nil_or_concat l with rfl | ⟨init, c, rfl⟩
  · simp
  · simp [List.rdropWhile_eq_self_iff]

theorem trimMatches_eq_self {s : String} (hhead : ∀ c ∈ s.toList.head?, p c = false)
    (hlast : ∀ c ∈ s.toList.getLast?, p c = false) : trimMatches s p = s := by
  have hdrop : s.toList.dropWhile p = s.toList := by
    rw [List.dropWhile_eq_self_iff]
    intro hl hp
    have hnot := hhead s.toList[0] (List.head?_eq_getElem? .. ▸ List.getElem?_eq_getElem hl)
    rw [hnot] at hp
    cases hp
  have hkept := rdropWhile_eq_self_iff_last.mpr hlast
  rw [trimMatches, hdrop]
  exact (congrArg String.ofList hkept).trans String.ofList_toList

theorem TrimParts.trimEndMatches {s : String} {lead middle tail : List Char}
    (h : TrimParts p s.toList lead middle tail) (hmiddle : middle ≠ []) :
    trimEndMatches s p = .ofList (lead ++ middle) := by
  have hlast : ∀ c ∈ (lead ++ middle).getLast?, p c = false := by
    rw [List.getLast?_append_of_ne_nil _ hmiddle]
    exact h.last_not
  have htail : s.toList.rdropWhile p = (lead ++ middle).rdropWhile p := by
    unfold List.rdropWhile
    rw [h.append, ← List.append_assoc, List.reverse_append, List.dropWhile_append_of_pos]
    exact fun c hc => h.tail_all c (List.mem_reverse.mp hc)
  exact congrArg String.ofList (htail.trans (rdropWhile_eq_self_iff_last.mpr hlast))

/-- Behind a text that begins and ends with other characters, only the end is trimmed. -/
theorem trimChars_append {front l : List Char} {first last : Char} {middle : List Char}
    (hfront : front = first :: middle ++ [last]) (hfirst : isWhitespace first = false)
    (hlast : isWhitespace last = false) :
    trimChars (front ++ l) = front ++ l.rdropWhile isWhitespace := by
  subst hfront
  have hdrop : (first :: middle ++ [last] ++ l).dropWhile isWhitespace =
      first :: middle ++ [last] ++ l := by simp [hfirst]
  rw [trimChars, hdrop]
  show List.rdropWhile isWhitespace _ = _
  induction l using List.reverseRecOn with
  | nil => simp [hlast]
  | append_singleton l c ih =>
      rw [← List.append_assoc, List.rdropWhile_concat, List.rdropWhile_concat,
        ih (by simp [hfirst])]
      split
      · rfl
      · rw [List.append_assoc]

/-! ## The first separator -/

theorem afterStart?_some {s pat rest : String} (h : afterStart? s pat = some rest) :
    s.toList = pat.toList ++ rest.toList := by
  unfold afterStart? at h
  split at h
  · rename_i hstarts
    obtain ⟨tail, htail⟩ := startsWith_iff.mp hstarts
    cases h
    rw [← htail, List.drop_left, String.toList_ofList]
  · cases h

/-- The text before the first `c` and the text behind it. -/
def splitOnce (s : String) (c : Char) : Option (String × String) :=
  match s.toList.dropWhile (· ≠ c) with
  | [] => none
  | _ :: rest => some (.ofList (s.toList.takeWhile (· ≠ c)), .ofList rest)

theorem splitOnce_none {s : String} {c : Char} (h : splitOnce s c = none) : c ∉ s.toList := by
  unfold splitOnce at h
  split at h
  · rename_i hdrop
    intro hmem
    have hall := List.dropWhile_eq_nil_iff.mp hdrop c hmem
    simp at hall
  · cases h

theorem splitOnce_some {s first rest : String} {c : Char} (h : splitOnce s c = some (first, rest)) :
    s.toList = first.toList ++ c :: rest.toList ∧ c ∉ first.toList := by
  unfold splitOnce at h
  have hsplit := List.takeWhile_append_dropWhile (p := (· ≠ c)) (l := s.toList)
  split at h
  · cases h
  · rename_i d tail hdrop
    cases h
    have hd : d = c := by
      have hhead := List.head?_dropWhile_not (· ≠ c) s.toList
      rw [hdrop, List.head?_cons] at hhead
      simpa using hhead
    subst hd
    rw [hdrop] at hsplit
    refine ⟨by rw [String.toList_ofList, String.toList_ofList, hsplit], fun hmem => ?_⟩
    rw [String.toList_ofList] at hmem
    have hne := List.mem_takeWhile_imp hmem
    simp at hne

theorem splitOnce_of_notMem {s : String} {c : Char} (h : c ∉ s.toList) : splitOnce s c = none := by
  cases hs : splitOnce s c with
  | none => rfl
  | some parts =>
      obtain ⟨happend, -⟩ := splitOnce_some hs
      exact absurd (by rw [happend]; simp) h

theorem splitOnce_append {first rest : String} {c : Char} (h : c ∉ first.toList) {s : String}
    (hs : s.toList = first.toList ++ c :: rest.toList) : splitOnce s c = some (first, rest) := by
  cases hsplit : splitOnce s c with
  | none => exact absurd (by rw [hs]; simp) (splitOnce_none hsplit)
  | some parts =>
      obtain ⟨happend, hfirst⟩ := splitOnce_some hsplit
      obtain ⟨hleft, hright⟩ := append_cons_inj_of_notMem_left (happend.symm.trans hs) hfirst h
      rw [← String.toList_injective hleft, ← String.toList_injective hright]

/-! ## Pieces between the outer separators -/

variable {sep : Char → Bool}

theorem splitAux_lead {lead : List Char} (h : ∀ c ∈ lead, sep c = true) (l : List Char) :
    splitAux sep (lead ++ l) [] = List.replicate lead.length [] ++ splitAux sep l [] := by
  induction lead with
  | nil => rfl
  | cons c lead ih =>
      rw [List.cons_append, splitAux, if_pos (h c List.mem_cons_self),
        ih fun x hx => h x (List.mem_cons_of_mem _ hx)]
      rfl

theorem splitAux_tail {tail : List Char} (h : ∀ c ∈ tail, sep c = true) (l cur : List Char) :
    splitAux sep (l ++ tail) cur = splitAux sep l cur ++ List.replicate tail.length [] := by
  induction l generalizing cur with
  | nil =>
      cases tail with
      | nil => simp
      | cons c tail =>
          have hrest := splitAux_lead (fun x hx => h x (List.mem_cons_of_mem _ hx)) []
          rw [List.append_nil] at hrest
          have hfirst : splitAux sep (c :: tail) cur = cur.reverse :: splitAux sep tail [] := by
            rw [splitAux, if_pos (h c List.mem_cons_self)]
          rw [List.nil_append, hfirst, hrest]
          simp [splitAux, ← List.replicate_succ']
  | cons c l ih =>
      rw [List.cons_append, splitAux, splitAux]
      split
      · rw [ih, List.cons_append]
      · exact ih _

theorem splitAux_first (l cur : List Char) :
    ∃ more rest, splitAux sep l cur = (cur.reverse ++ more) :: rest := by
  induction l generalizing cur with
  | nil => exact ⟨[], [], by simp [splitAux]⟩
  | cons c l ih =>
      rw [splitAux]
      split
      · exact ⟨[], splitAux sep l [], by simp⟩
      · obtain ⟨more, rest, heq⟩ := ih (c :: cur)
        exact ⟨c :: more, rest, by rw [heq]; simp⟩

theorem splitAux_concat {c : Char} (h : sep c = false) (l cur : List Char) :
    ∃ init last, splitAux sep (l ++ [c]) cur = init ++ [last ++ [c]] := by
  induction l generalizing cur with
  | nil => exact ⟨[], cur.reverse, by simp [splitAux, h]⟩
  | cons d l ih =>
      rw [List.cons_append, splitAux]
      split
      · obtain ⟨init, last, heq⟩ := ih []
        exact ⟨cur.reverse :: init, last, by rw [heq]; rfl⟩
      · exact ih (d :: cur)

def Gapless (pieces : List (List Char)) : Prop :=
  ∀ before after, pieces = before ++ [] :: after →
    (∀ piece ∈ before, piece = []) ∨ ∀ piece ∈ after, piece = []

variable {content lead middle tail : List Char}

theorem TrimParts.first_piece (h : TrimParts sep content lead middle tail)
    (hmiddle : middle ≠ []) :
    ∃ first rest, splitAux sep middle [] = first :: rest ∧ first ≠ [] := by
  cases middle with
  | nil => exact absurd rfl hmiddle
  | cons c middle =>
      obtain ⟨more, rest, heq⟩ := splitAux_first middle [c]
      have hnot := h.head_not c rfl
      exact ⟨_, rest, by rw [splitAux, if_neg (by simp [hnot]), heq], by simp⟩

theorem TrimParts.last_piece (h : TrimParts sep content lead middle tail)
    (hmiddle : middle ≠ []) :
    ∃ init last, splitAux sep middle [] = init ++ [last] ∧ last ≠ [] := by
  obtain ⟨front, c, rfl⟩ := (List.eq_nil_or_concat middle).resolve_left hmiddle
  obtain ⟨init, last, heq⟩ := splitAux_concat (h.last_not c (by simp)) front []
  exact ⟨init, _, by rw [List.concat_eq_append]; exact heq, by simp⟩

theorem TrimParts.pieces (h : TrimParts sep content lead middle tail) :
    splitAux sep content [] =
      List.replicate lead.length [] ++
        (splitAux sep middle [] ++ List.replicate tail.length []) := by
  rw [h.append, splitAux_lead h.lead_all, splitAux_tail h.tail_all]

theorem TrimParts.gapless_of_nil (h : TrimParts sep content lead middle tail)
    (hmiddle : middle = []) : Gapless (splitAux sep content []) := by
  rw [h.pieces, hmiddle, h.tail_nil hmiddle]
  intro before after heq
  left
  intro piece hpiece
  have hmem : piece ∈ List.replicate lead.length ([] : List Char) ++ [[]] := by
    have hall : piece ∈ before ++ [] :: after := List.mem_append_left _ hpiece
    rw [← heq] at hall
    simpa [splitAux] using hall
  rcases List.mem_append.mp hmem with hlead | hlast
  · exact List.eq_of_mem_replicate hlead
  · exact List.mem_singleton.mp hlast

theorem TrimParts.gapless_iff (h : TrimParts sep content lead middle tail)
    (hmiddle : middle ≠ []) :
    Gapless (splitAux sep content []) ↔ ∀ piece ∈ splitAux sep middle [], piece ≠ [] := by
  have hempty : ∀ n, ∀ piece ∈ List.replicate n ([] : List Char), piece = [] :=
    fun n piece hpiece => List.eq_of_mem_replicate hpiece
  obtain ⟨first, rest, hfirst, hfirst_ne⟩ := h.first_piece hmiddle
  obtain ⟨init, last, hlast, hlast_ne⟩ := h.last_piece hmiddle
  rw [h.pieces]
  constructor
  · rintro hgap piece hpiece rfl
    obtain ⟨before, after, hat⟩ := List.append_of_mem hpiece
    rcases hgap (List.replicate lead.length [] ++ before)
      (after ++ List.replicate tail.length []) (by rw [hat]; simp) with hbefore | hafter
    · cases before with
      | nil =>
          rw [hfirst, List.nil_append] at hat
          exact hfirst_ne (List.cons.inj hat).1
      | cons x before =>
          rw [hfirst, List.cons_append] at hat
          obtain ⟨rfl, -⟩ := List.cons.inj hat
          exact hfirst_ne (hbefore first (by simp))
    · rcases List.eq_nil_or_concat after with rfl | ⟨after', x, rfl⟩
      · rw [hlast] at hat
        exact hlast_ne (List.append_inj_right' hat rfl |> List.cons.inj |>.1)
      · rw [hlast, List.concat_eq_append, ← List.cons_append, ← List.append_assoc] at hat
        have hx := (List.cons.inj (List.append_inj_right' hat rfl)).1
        exact hlast_ne (hafter last (by rw [hx]; simp))
  · intro hall before after heq
    rcases List.append_eq_append_iff.mp heq with ⟨m, hbefore, hm⟩ | ⟨m, hlead, hm⟩
    · right
      rcases List.append_eq_append_iff.mp hm with ⟨n, hm', hn⟩ | ⟨n, hmiddle', hn⟩
      · have hsuffix : [] :: after <:+ List.replicate tail.length [] := ⟨n, hn.symm⟩
        exact fun piece hpiece => hempty _ piece (hsuffix.subset (List.mem_cons_of_mem _ hpiece))
      · cases n with
        | nil =>
            have htail : [] :: after = List.replicate tail.length [] := by simpa using hn
            exact fun piece hpiece =>
              hempty _ piece (by rw [← htail]; exact List.mem_cons_of_mem _ hpiece)
        | cons x n =>
            obtain ⟨rfl, -⟩ := List.cons.inj hn
            exact absurd rfl (hall [] (by rw [hmiddle']; simp))
    · left
      exact fun piece hpiece => hempty _ piece (by rw [hlead]; exact List.mem_append_left _ hpiece)

end Text
