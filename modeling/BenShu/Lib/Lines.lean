import BenShu.Lib.Segments

/-!
# Trimmed texts and lines

A text without white space at its ends, and texts that are read back from their lines.
-/

namespace Text

/-! ## Trimmed texts -/

/-- No white space stands at the ends. -/
structure Trimmed (s : String) : Prop where
  head : ∀ c ∈ s.toList.head?, isWhitespace c = false
  last : ∀ c ∈ s.toList.getLast?, isWhitespace c = false

theorem trim_eq_trimMatches (s : String) : trim s = trimMatches s isWhitespace := rfl

theorem trimmed_trim (s : String) : Trimmed (trim s) := by
  obtain ⟨lead, middle, tail, hparts⟩ := trim_parts isWhitespace s.toList
  rw [trim_eq_trimMatches, hparts.trimMatches]
  constructor
  · rw [String.toList_ofList]
    exact hparts.head_not
  · rw [String.toList_ofList]
    exact hparts.last_not

theorem Trimmed.trim_eq {s : String} (h : Trimmed s) : trim s = s :=
  trimMatches_eq_self h.head h.last

@[simp] theorem trim_trim (s : String) : trim (trim s) = trim s := (trimmed_trim s).trim_eq

theorem trim_eq_empty_iff {s : String} : trim s = "" ↔ ∀ c ∈ s.toList, isWhitespace c = true := by
  obtain ⟨lead, middle, tail, hparts⟩ := trim_parts isWhitespace s.toList
  rw [trim_eq_trimMatches, hparts.trimMatches, String.ofList_eq_empty_iff]
  constructor
  · intro hnil
    rw [hparts.append, hnil, hparts.tail_nil hnil]
    simpa using hparts.lead_all
  · intro hall
    cases hmiddle : middle with
    | nil => rfl
    | cons c middle' =>
        have hnot := hparts.head_not c (by rw [hmiddle]; rfl)
        rw [hall c (by rw [hparts.append, hmiddle]; simp)] at hnot
        cases hnot

theorem Trimmed.trim_suffix_eq_iff {s front : String} {rest : String} (h : Trimmed s)
    (hs : s = front ++ rest) (hrest : rest ≠ "") :
    trim rest = rest ↔ ∀ c ∈ rest.toList.head?, isWhitespace c = false := by
  have hlast : ∀ c ∈ rest.toList.getLast?, isWhitespace c = false := by
    have hne : rest.toList ≠ [] := fun hnil => hrest (String.toList_eq_nil_iff.mp hnil)
    have hall := h.last
    rwa [hs, String.toList_append, List.getLast?_append_of_ne_nil _ hne] at hall
  constructor
  · intro htrim
    have hhead := (trimmed_trim rest).head
    rwa [htrim] at hhead
  · exact fun hhead => (Trimmed.mk hhead hlast).trim_eq

theorem map_eq_self_iff {f : String → String} {l : List String} :
    l.map f = l ↔ ∀ s ∈ l, f s = s := by
  have hmap := List.map_inj_left (l := l) (f := f) (g := id)
  rwa [List.map_id] at hmap

/-! ## Lines -/

theorem linesAux_append {l : List Char} (h : '\n' ∉ l) (rest cur : List Char) :
    linesAux (l ++ rest) cur = linesAux rest (l.reverse ++ cur) := by
  induction l generalizing cur with
  | nil => rfl
  | cons c l ih =>
      rw [List.mem_cons, not_or] at h
      have hstep : ∀ rest' : List Char, linesAux (c :: rest') cur = linesAux rest' (c :: cur) := by
        intro rest'
        rw [linesAux, if_neg (Ne.symm h.1)]
      rw [List.cons_append, hstep, ih h.2]
      simp

theorem notMem_of_mem_linesAux {l cur line : List Char} (hcur : '\n' ∉ cur)
    (h : line ∈ linesAux l cur) : '\n' ∉ line := by
  induction l generalizing cur with
  | nil =>
      cases cur with
      | nil => simp [linesAux] at h
      | cons c cur =>
          have hline : line = (c :: cur).reverse := by simpa [linesAux] using h
          rw [hline, List.mem_reverse]
          exact hcur
  | cons c l ih =>
      rw [linesAux] at h
      split_ifs at h with hbreak
      · rcases List.mem_cons.mp h with rfl | hrest
        · rw [List.mem_reverse]
          intro hmem
          have hsub : ∀ cs : List Char, ∀ x ∈ stripReturn cs, x ∈ cs := by
            intro cs x hx
            unfold stripReturn at hx
            split at hx
            · exact List.mem_cons_of_mem _ hx
            · exact hx
          exact hcur (hsub cur _ hmem)
        · exact ih (by simp) hrest
      · refine ih ?_ h
        rw [List.mem_cons, not_or]
        exact ⟨Ne.symm hbreak, hcur⟩

theorem notMem_of_mem_lines {s line : String} (h : line ∈ lines s) : '\n' ∉ line.toList := by
  obtain ⟨chars, hchars, rfl⟩ := List.mem_map.mp h
  rw [String.toList_ofList]
  exact notMem_of_mem_linesAux (by simp) hchars

/-- A trimmed text on one line, and not empty. -/
structure Line (s : String) : Prop where
  trimmed : Trimmed s
  nonempty : s ≠ ""
  single : '\n' ∉ s.toList

theorem Line.stripReturn {s : String} (h : Line s) :
    stripReturn s.toList.reverse = s.toList.reverse := by
  unfold Text.stripReturn
  split
  · rename_i cs hreverse
    have hlast : '\r' ∈ s.toList.getLast? := by
      rw [List.getLast?_eq_head?_reverse, hreverse]
      rfl
    have hblank := h.trimmed.last '\r' hlast
    cases hblank
  · rfl

theorem lines_intercalate {items : List String} (h : ∀ item ∈ items, Line item) :
    lines ("\n".intercalate items) = items := by
  induction items with
  | nil => rfl
  | cons item items ih =>
      have hitem := h item List.mem_cons_self
      by_cases hnil : items = []
      · subst hnil
        have hread := linesAux_append hitem.single [] []
        rw [List.append_nil, List.append_nil] at hread
        have hne : item.toList.reverse ≠ [] := by
          simpa using hitem.nonempty
        obtain ⟨c, cs, hcons⟩ := List.exists_cons_of_ne_nil hne
        have hback : (c :: cs).reverse = item.toList := by rw [← hcons, List.reverse_reverse]
        rw [String.intercalate_singleton, lines, hread, hcons]
        simp only [linesAux, List.map_cons, List.map_nil, hback, String.ofList_toList]
      · have hbreak : ∀ rest : List Char, linesAux ('\n' :: rest) item.toList.reverse =
            item.toList :: linesAux rest [] := by
          intro rest
          rw [linesAux, if_pos rfl, hitem.stripReturn, List.reverse_reverse]
        have hrest := ih fun x hx => h x (List.mem_cons_of_mem _ hx)
        have htext : ("\n".intercalate (item :: items)).toList =
            item.toList ++ '\n' :: ("\n".intercalate items).toList := by
          rw [String.intercalate_cons_of_ne_nil hnil]
          simp [String.toList_append]
        rw [lines, htext, linesAux_append hitem.single, List.append_nil, hbreak, List.map_cons,
          String.ofList_toList]
        exact congrArg (item :: ·) hrest

end Text
