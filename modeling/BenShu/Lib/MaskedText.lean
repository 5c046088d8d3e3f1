import BenShu.Lib.TextPattern

/-!
# Masking what a search finds

Every match is replaced by marks between the first and the last few of its characters.
What stands between marks afterwards stood in the text before, so a match that is left
begins in the end that was kept of another one.
-/

namespace MaskedText

open TextPattern

/-- How a match of a given length is masked. -/
structure Marking where
  mark : Char
  count : Nat
  kept : Nat → Nat
  count_pos : 0 < count
  kept_le (n : Nat) : kept n ≤ n

namespace Marking

variable (marking : Marking)

def keptStart (word : List Char) : List Char := word.take (marking.kept word.length)

def keptEnd (word : List Char) : List Char :=
  word.drop (word.length - marking.kept word.length)

def mask (word : List Char) : List Char :=
  marking.keptStart word ++ (List.replicate marking.count marking.mark ++ marking.keptEnd word)

theorem keptStart_prefix (word : List Char) : marking.keptStart word <+: word :=
  List.take_prefix _ word

theorem keptEnd_suffix (word : List Char) : marking.keptEnd word <:+ word :=
  List.drop_suffix _ word

@[simp] theorem length_keptStart (word : List Char) :
    (marking.keptStart word).length = marking.kept word.length := by
  rw [keptStart, List.length_take, Nat.min_eq_left (marking.kept_le _)]

@[simp] theorem length_keptEnd (word : List Char) :
    (marking.keptEnd word).length = marking.kept word.length := by
  have := marking.kept_le word.length
  rw [keptEnd, List.length_drop]
  omega

@[simp] theorem length_mask (word : List Char) : (marking.mask word).length =
    marking.kept word.length + (marking.count + marking.kept word.length) := by
  simp [mask]

theorem mask_mask {word : List Char}
    (h : marking.kept (marking.mask word).length = marking.kept word.length) :
    marking.mask (marking.mask word) = marking.mask word := by
  have hstart : marking.keptStart (marking.mask word) = marking.keptStart word := by
    rw [keptStart, h, mask]
    exact List.take_left' (marking.length_keptStart word)
  have hend : marking.keptEnd (marking.mask word) = marking.keptEnd word := by
    have hlen : (marking.mask word).length - marking.kept word.length =
        (marking.keptStart word ++ List.replicate marking.count marking.mark).length := by
      rw [length_mask, List.length_append, length_keptStart, List.length_replicate]
      omega
    rw [keptEnd, h, hlen, mask, ← List.append_assoc, List.drop_left]
  conv_lhs => rw [mask, hstart, hend]
  rw [mask]

end Marking

def slice (cs : List Char) (start stop : Nat) : List Char := (cs.take stop).drop start

def replaceRange (cs : List Char) (start stop : Nat) (new : List Char) : List Char :=
  cs.take start ++ (new ++ cs.drop stop)

def maskFound (mask : List Char → List Char) (before : List Char) (found : Found)
    (cs : List Char) : List Char :=
  replaceRange cs found.start found.stop (mask (slice before found.start found.stop))

/-- The last match is replaced first, so that the places of the others stay right. -/
def maskAll (mask : List Char → List Char) (pattern : Pattern) (cs : List Char) : List Char :=
  (find pattern cs).foldr (maskFound mask cs) cs

/-- A match begins between the two places and, of every later one that was found, reaches
into no more than the start that is kept. -/
def BeginsIn (marking : Marking) (pattern : Pattern) (cs : List Char) (lo hi : Nat)
    (later : List Found) : Prop :=
  ∃ start word, lo ≤ start ∧ start < hi ∧ Matches pattern word ∧ word <+: cs.drop start ∧
    ∀ next ∈ later, start < next.start →
      start + word.length ≤ next.start + marking.kept (next.stop - next.start)

/-- A match begins in the end that is kept of one that was found. -/
def Leftover (marking : Marking) (pattern : Pattern) (cs : List Char) : Prop :=
  ∃ found ∈ find pattern cs,
    BeginsIn marking pattern cs (found.stop - marking.kept (found.stop - found.start))
      found.stop (find pattern cs)

/-! ## Parts of a text -/

theorem infix_append_begins {w a b : List Char} :
    w <:+: a ++ b ↔ (∃ x y, a = x ++ y ∧ y ≠ [] ∧ w <+: y ++ b) ∨ w <:+: b := by
  constructor
  · rintro ⟨s, t, heq⟩
    rw [List.append_assoc] at heq
    rcases List.append_eq_append_iff.mp heq with ⟨y, ha, hb⟩ | ⟨y, hs, hb⟩
    · by_cases hy : y = []
      · exact .inr ⟨[], t, by simpa [hy] using hb⟩
      · exact .inl ⟨s, y, ha, hy, t, hb⟩
    · exact .inr ⟨y, t, by rw [hb, List.append_assoc]⟩
  · rintro (⟨x, y, rfl, -, t, heq⟩ | hb)
    · exact ⟨x, t, by rw [List.append_assoc, heq, List.append_assoc]⟩
    · exact hb.trans (List.suffix_append a b).isInfix

theorem infix_append_cons {c : Char} {w a b : List Char} (h : c ∉ w) :
    w <:+: a ++ c :: b ↔ w <:+: a ∨ w <:+: b := by
  rw [List.infix_append_iff_ne_nil]
  constructor
  · rintro (ha | hb | ⟨x, y, -, hy, rfl, -, hpre⟩)
    · exact .inl ha
    · rcases List.infix_cons_iff.mp hb with hpre | hb
      · cases w with
        | nil => exact .inl List.nil_infix
        | cons d w =>
            rw [List.cons_prefix_cons] at hpre
            exact absurd (hpre.1 ▸ List.mem_cons_self) h
      · exact .inr hb
    · obtain ⟨d, y, rfl⟩ := List.exists_cons_of_ne_nil hy
      rw [List.cons_prefix_cons] at hpre
      exact absurd (by simp [hpre.1]) h
  · rintro (ha | hb)
    · exact .inl ha
    · exact .inr (.inl (hb.trans (List.suffix_cons c b).isInfix))

theorem infix_append_replicate {c : Char} {n : Nat} (hn : 0 < n) {w a b : List Char}
    (h : c ∉ w) : w <:+: a ++ (List.replicate n c ++ b) ↔ w <:+: a ∨ w <:+: b := by
  induction n generalizing a with
  | zero => omega
  | succ n ih =>
      rw [List.replicate_succ, List.cons_append, infix_append_cons h]
      cases n with
      | zero => simp
      | succ n =>
          have hrest := ih (Nat.succ_pos n) (a := [])
          rw [List.nil_append] at hrest
          rw [hrest]
          constructor
          · rintro (ha | hnil | hb)
            · exact .inl ha
            · rw [List.infix_nil] at hnil
              exact .inl (hnil ▸ List.nil_infix)
            · exact .inr hb
          · rintro (ha | hb)
            · exact .inl ha
            · exact .inr (.inr hb)

/-! ## The masked text -/

theorem maskFound_next (mask : List Char → List Char) (front gap word tail out : List Char) :
    maskFound mask (front ++ (gap ++ (word ++ tail)))
        ⟨front.length + gap.length, front.length + gap.length + word.length⟩
        (front ++ (gap ++ (word ++ out))) =
      front ++ (gap ++ (mask word ++ out)) := by
  have hlen : front.length + gap.length = (front ++ gap).length := by simp
  have hstop : (front ++ gap).length + word.length = (front ++ gap ++ word).length :=
    List.length_append.symm
  have hassoc : ∀ rest, front ++ (gap ++ (word ++ rest)) = front ++ gap ++ word ++ rest := by simp
  rw [maskFound, replaceRange, slice, hassoc, hassoc, hlen, hstop]
  simp only [List.take_left, List.drop_left]
  rw [List.append_assoc (front ++ gap) word out, List.take_left]
  simp

theorem maskFrom (mask : List Char → List Char) {pattern : Pattern} {cs : List Char}
    (h : Scanned pattern cs) : ∃ out, ∀ front, (findAux pattern 0 front.length cs).foldr
      (maskFound mask (front ++ cs)) (front ++ cs) = front ++ out := by
  induction h with
  | @rest cs hquiet =>
      refine ⟨cs, fun front => ?_⟩
      rw [findAux_rest hquiet, List.foldr_nil]
  | @found gap word tail hquiet hmatch hword htail ih =>
      obtain ⟨out, hout⟩ := ih
      refine ⟨gap ++ (mask word ++ out), fun front => ?_⟩
      have hwhole : front ++ gap ++ word ++ tail = front ++ (gap ++ (word ++ tail)) := by simp
      have hnext := hout (front ++ gap ++ word)
      rw [hwhole, List.length_append, List.length_append] at hnext
      rw [findAux_next hquiet hword hmatch, List.foldr_cons, hnext]
      rw [← maskFound_next mask front gap word tail out]
      simp

theorem maskAll_from (mask : List Char → List Char) {pattern : Pattern} {cs : List Char}
    (h : Scanned pattern cs) (front : List Char) : (findAux pattern 0 front.length cs).foldr
      (maskFound mask (front ++ cs)) (front ++ cs) = front ++ maskAll mask pattern cs := by
  obtain ⟨out, hout⟩ := maskFrom mask h
  have hnil := hout []
  rw [List.nil_append, List.nil_append] at hnil
  rw [hout, maskAll, find, ← hnil]
  rfl

theorem maskAll_rest (mask : List Char → List Char) {pattern : Pattern} {cs : List Char}
    (hquiet : Quiet pattern cs []) : maskAll mask pattern cs = cs := by
  rw [maskAll, find, findAux_rest hquiet, List.foldr_nil]

/-- The gap stays, and the search goes on after the match. -/
theorem maskAll_found (mask : List Char → List Char) {pattern : Pattern}
    {gap word tail : List Char} (hquiet : Quiet pattern gap (word ++ tail)) (hword : word ≠ [])
    (hmatch : matchLength? pattern (word ++ tail) = some word.length)
    (htail : Scanned pattern tail) : maskAll mask pattern (gap ++ (word ++ tail)) =
      gap ++ (mask word ++ maskAll mask pattern tail) := by
  have hnext := maskAll_from mask htail (gap ++ word)
  have hfound := maskFound_next mask [] gap word tail (maskAll mask pattern tail)
  rw [List.length_append, List.append_assoc, List.append_assoc] at hnext
  rw [maskAll, find, findAux_next hquiet hword hmatch, List.foldr_cons, Nat.zero_add, hnext]
  simpa using hfound

section

variable {marking : Marking} {pattern : Pattern} {cs : List Char}

theorem infix_of_infix_maskAll (h : Scanned pattern cs) {w : List Char}
    (hmark : marking.mark ∉ w) (front : List Char)
    (hwithin : w <:+: front ++ maskAll marking.mask pattern cs) : w <:+: front ++ cs := by
  induction h generalizing front with
  | rest hquiet => rwa [maskAll_rest _ hquiet] at hwithin
  | @found gap word tail hquiet hmatch hword htail ih =>
      rw [maskAll_found _ hquiet hword hmatch htail, Marking.mask, List.append_assoc,
        List.append_assoc, ← List.append_assoc, ← List.append_assoc,
        infix_append_replicate marking.count_pos hmark] at hwithin
      rcases hwithin with hstart | hend
      · obtain ⟨rest, hrest⟩ := marking.keptStart_prefix word
        refine hstart.trans ⟨[], rest ++ tail, ?_⟩
        conv_rhs => rw [← hrest]
        simp
      · obtain ⟨rest, hrest⟩ := marking.keptEnd_suffix word
        refine (ih _ hend).trans ⟨front ++ gap ++ rest, [], ?_⟩
        conv_rhs => rw [← hrest]
        simp

theorem not_infix_quiet {gap tail kept w : List Char} (hquiet : Quiet pattern gap tail)
    (hkept : kept <+: tail) (hlong : kept.length < minLength pattern)
    (hmatches : Matches pattern w) : ¬w <:+: gap ++ kept := by
  rw [infix_append_begins]
  rintro (⟨x, y, rfl, hy, hpre⟩ | hwithin)
  · have hfull : w <+: y ++ tail := hpre.trans ((List.prefix_append_right_inj y).mpr hkept)
    exact hquiet.not_matches ⟨x, rfl⟩ hy hfull hmatches
  · have := hwithin.length_le
    have := hmatches.minLength_le
    omega

theorem beginsIn_front {before front : List Char} {later : List Found} :
    BeginsIn marking pattern (before ++ (front ++ cs)) before.length (before ++ front).length
        later ↔
      ∃ x y w, front = x ++ y ∧ y ≠ [] ∧ Matches pattern w ∧ w <+: y ++ cs ∧
        ∀ next ∈ later, (before ++ x).length < next.start →
          (before ++ x).length + w.length ≤
            next.start + marking.kept (next.stop - next.start) := by
  have hsplit : ∀ x y, front = x ++ y →
      (before ++ (front ++ cs)).drop (before ++ x).length = y ++ cs := by
    rintro x y rfl
    have hassoc : before ++ (x ++ y ++ cs) = before ++ x ++ (y ++ cs) := by simp
    rw [hassoc, List.drop_left]
  constructor
  · rintro ⟨start, w, hlo, hhi, hmatches, hpre, hlater⟩
    rw [List.length_append] at hhi
    have hstart : (before ++ front.take (start - before.length)).length = start := by
      rw [List.length_append, List.length_take]
      omega
    have hfront := (List.take_append_drop (start - before.length) front).symm
    refine ⟨_, front.drop (start - before.length), w, hfront, ?_, hmatches, ?_, ?_⟩
    · rw [ne_eq, List.drop_eq_nil_iff]
      omega
    · rwa [← hsplit _ _ hfront, hstart]
    · rwa [hstart]
  · rintro ⟨x, y, w, hfront, hy, hmatches, hpre, hlater⟩
    have hpos := List.length_pos_iff.mpr hy
    have hlen := congrArg List.length hfront
    rw [List.length_append] at hlen
    refine ⟨(before ++ x).length, w, ?_, ?_, hmatches, ?_, hlater⟩
    · rw [List.length_append]
      exact Nat.le_add_right _ _
    · rw [List.length_append, List.length_append]
      omega
    · rwa [hsplit x y hfront]

/-- A match that was found before the place says nothing about it. -/
theorem beginsIn_cons {lo hi : Nat} {found : Found} {later : List Found}
    (hfound : found.start ≤ lo) :
    BeginsIn marking pattern cs lo hi (found :: later) ↔
      BeginsIn marking pattern cs lo hi later := by
  constructor
  · rintro ⟨start, w, hlo, hhi, hmatches, hpre, hlater⟩
    exact ⟨start, w, hlo, hhi, hmatches, hpre,
      fun next hnext => hlater next (List.mem_cons_of_mem _ hnext)⟩
  · rintro ⟨start, w, hlo, hhi, hmatches, hpre, hlater⟩
    refine ⟨start, w, hlo, hhi, hmatches, hpre, fun next hnext hstart => ?_⟩
    rcases List.mem_cons.mp hnext with rfl | hnext
    · omega
    · exact hlater next hnext hstart

end

section

variable {marking : Marking} {pattern : Pattern} {cs : List Char}
  (havoids : avoids marking.mark pattern = true)
  (hlong : ∀ n, marking.kept n < minLength pattern)

include hlong

/-- Up to the next match, one is left exactly where it begins in what was kept before and
ends in what is kept of the next one. -/
theorem occurs_until_iff {before front gap word tail : List Char} {later : List Found}
    (hquiet : Quiet pattern gap (word ++ tail))
    (hlater : ∀ next ∈ later, (before ++ front).length + gap.length + word.length ≤ next.start) :
    (∃ w, w <:+: front ++ (gap ++ marking.keptStart word) ∧ Matches pattern w) ↔
      BeginsIn marking pattern (before ++ (front ++ (gap ++ (word ++ tail)))) before.length
        (before ++ front).length
        (⟨(before ++ front).length + gap.length,
          (before ++ front).length + gap.length + word.length⟩ :: later) := by
  have hkept : marking.keptStart word <+: word ++ tail :=
    (marking.keptStart_prefix word).trans (List.prefix_append _ _)
  have hshort : (marking.keptStart word).length < minLength pattern := by
    rw [marking.length_keptStart]
    exact hlong _
  have hfull : ∀ y : List Char, y ++ (gap ++ marking.keptStart word) <+:
      y ++ (gap ++ (word ++ tail)) := fun y =>
    (List.prefix_append_right_inj y).mpr ((List.prefix_append_right_inj gap).mpr hkept)
  have hstop : (before ++ front).length + gap.length + word.length -
      ((before ++ front).length + gap.length) = word.length := Nat.add_sub_cancel_left _ _
  rw [beginsIn_front]
  constructor
  · rintro ⟨w, hwithin, hmatches⟩
    rcases infix_append_begins.mp hwithin with ⟨x, y, rfl, hy, hpre⟩ | hwithin
    · have hlen := hpre.length_le
      rw [List.length_append, List.length_append, marking.length_keptStart] at hlen
      refine ⟨x, y, w, rfl, hy, hmatches, hpre.trans (hfull y), fun next hnext _ => ?_⟩
      simp only [List.length_append] at hlater hstop hnext ⊢
      rcases List.mem_cons.mp hnext with rfl | hnext
      · simp only [hstop]
        omega
      · have := hlater next hnext
        have := marking.kept_le word.length
        omega
    · exact absurd hwithin (not_infix_quiet hquiet hkept hshort hmatches)
  · rintro ⟨x, y, w, rfl, hy, hmatches, hpre, hnext⟩
    have hpos := List.length_pos_iff.mpr hy
    have hend := hnext _ List.mem_cons_self
      (by simp only [List.length_append]; omega)
    simp only [List.length_append] at hstop hend
    rw [hstop] at hend
    have hinside : w <+: y ++ (gap ++ marking.keptStart word) := by
      refine List.prefix_of_prefix_length_le hpre (hfull y) ?_
      rw [List.length_append, List.length_append, marking.length_keptStart]
      omega
    exact ⟨w, infix_append_begins.mpr (.inl ⟨x, y, rfl, hy, hinside⟩), hmatches⟩

include havoids

theorem occurs_from_iff (h : Scanned pattern cs) (before front : List Char) :
    (∃ w, w <:+: front ++ maskAll marking.mask pattern cs ∧ Matches pattern w) ↔
      BeginsIn marking pattern (before ++ (front ++ cs)) before.length (before ++ front).length
          (findAux pattern 0 (before ++ front).length cs) ∨
        ∃ found ∈ findAux pattern 0 (before ++ front).length cs,
          BeginsIn marking pattern (before ++ (front ++ cs))
            (found.stop - marking.kept (found.stop - found.start)) found.stop
            (findAux pattern 0 (before ++ front).length cs) := by
  induction h generalizing before front with
  | @rest cs hquiet =>
      have hnone : ∀ w, Matches pattern w → ¬w <:+: cs := fun w hw => by
        have := not_infix_quiet hquiet List.nil_prefix (Nat.lt_of_le_of_lt (Nat.zero_le _)
          (hlong 0)) hw
        rwa [List.append_nil] at this
      rw [maskAll_rest _ hquiet, findAux_rest hquiet, beginsIn_front]
      constructor
      · rintro ⟨w, hwithin, hmatches⟩
        rcases infix_append_begins.mp hwithin with ⟨x, y, hfront, hy, hpre⟩ | hwithin
        · exact .inl ⟨x, y, w, hfront, hy, hmatches, hpre, by simp⟩
        · exact absurd hwithin (hnone w hmatches)
      · rintro (⟨x, y, w, hfront, hy, hmatches, hpre, -⟩ | ⟨found, hfound, -⟩)
        · exact ⟨w, infix_append_begins.mpr (.inl ⟨x, y, hfront, hy, hpre⟩), hmatches⟩
        · cases hfound
  | @found gap word tail hquiet hmatch hword htail ih =>
      obtain ⟨rest, hrest⟩ := marking.keptEnd_suffix word
      have hlen : rest.length + marking.kept word.length = word.length := by
        rw [← marking.length_keptEnd word, ← List.length_append, hrest]
      have hwhole : before ++ front ++ gap ++ rest ++ (marking.keptEnd word ++ tail) =
          before ++ (front ++ (gap ++ (word ++ tail))) := by
        conv_rhs => rw [← hrest]
        simp
      have hstop : (before ++ front ++ gap ++ rest ++ marking.keptEnd word).length =
          (before ++ front).length + gap.length + word.length := by
        simp only [List.length_append, marking.length_keptEnd]
        omega
      have hlo : (before ++ front ++ gap ++ rest).length =
          (before ++ front).length + gap.length + word.length - marking.kept word.length := by
        simp only [List.length_append]
        omega
      have hlater : ∀ next ∈ findAux pattern 0
          ((before ++ front).length + gap.length + word.length) tail,
          (before ++ front).length + gap.length + word.length ≤ next.start :=
        fun next hnext => le_start_of_mem_findAux hnext
      have htail := ih (before ++ front ++ gap ++ rest) (marking.keptEnd word)
      rw [hwhole, hstop, hlo] at htail
      have hmasked : (∃ w, w <:+: front ++ maskAll marking.mask pattern (gap ++ (word ++ tail)) ∧
            Matches pattern w) ↔
          (∃ w, w <:+: front ++ (gap ++ marking.keptStart word) ∧ Matches pattern w) ∨
            ∃ w, w <:+: marking.keptEnd word ++ maskAll marking.mask pattern tail ∧
              Matches pattern w := by
        rw [← exists_or]
        refine exists_congr fun w => ?_
        rw [← or_and_right]
        refine and_congr_left fun hmatches => ?_
        rw [maskAll_found _ hquiet hword hmatch ‹_›, Marking.mask, List.append_assoc,
          List.append_assoc, ← List.append_assoc gap, ← List.append_assoc front,
          infix_append_replicate marking.count_pos (hmatches.notMem havoids)]
      have hback : (before ++ front).length + gap.length + word.length -
          ((before ++ front).length + gap.length) = word.length := Nat.add_sub_cancel_left _ _
      have hkept := marking.kept_le word.length
      rw [hmasked, htail, occurs_until_iff hlong hquiet hlater,
        findAux_next hquiet hword hmatch]
      simp only [List.mem_cons, exists_eq_or_imp, hback]
      refine or_congr_right (or_congr (beginsIn_cons (by simp only; omega)).symm ?_)
      refine exists_congr fun found => and_congr_right fun hfound => (beginsIn_cons ?_).symm
      have := hlater found hfound
      have := start_lt_stop_of_mem_findAux hfound
      have := marking.kept_le (found.stop - found.start)
      simp only
      omega

theorem occurs_maskAll_iff (cs : List Char) :
    Occurs pattern (maskAll marking.mask pattern cs) ↔ Leftover marking pattern cs := by
  have hmin : 0 < minLength pattern := Nat.lt_of_le_of_lt (Nat.zero_le _) (hlong 0)
  have h := occurs_from_iff havoids hlong (scanned hmin cs) [] []
  simp only [List.nil_append, List.length_nil] at h
  rw [Occurs, h, Leftover, find]
  constructor
  · rintro (⟨start, -, -, hstart, -⟩ | hfound)
    · omega
    · exact hfound
  · exact .inr

omit hlong in
theorem count_maskAll (h : Scanned pattern cs) (pos : Nat) :
    (maskAll marking.mask pattern cs).count marking.mark =
      cs.count marking.mark + marking.count * (findAux pattern 0 pos cs).length := by
  induction h generalizing pos with
  | rest hquiet => simp [maskAll_rest _ hquiet, findAux_rest hquiet]
  | @found gap word tail hquiet hmatch hword htail ih =>
      have hword0 : marking.mark ∉ word := by
        have hmatches := (matches_of_matchLength? hmatch).2
        rw [List.take_left] at hmatches
        exact hmatches.notMem havoids
      have hstart : (marking.keptStart word).count marking.mark = 0 :=
        List.count_eq_zero.mpr fun hmem => hword0 ((marking.keptStart_prefix word).subset hmem)
      have hend : (marking.keptEnd word).count marking.mark = 0 :=
        List.count_eq_zero.mpr fun hmem => hword0 ((marking.keptEnd_suffix word).subset hmem)
      rw [maskAll_found _ hquiet hword hmatch htail, findAux_next hquiet hword hmatch,
        Marking.mask]
      simp only [List.count_append, List.count_replicate_self, hstart, hend,
        List.count_eq_zero.mpr hword0, List.length_cons, Nat.mul_succ,
        ih (pos + gap.length + word.length)]
      omega

theorem maskAll_eq_self_iff (cs : List Char) :
    maskAll marking.mask pattern cs = cs ↔ ¬Occurs pattern cs := by
  have hmin : 0 < minLength pattern := Nat.lt_of_le_of_lt (Nat.zero_le _) (hlong 0)
  rw [← find_eq_nil_iff hmin]
  constructor
  · intro heq
    have hcount := count_maskAll havoids (scanned hmin cs) 0
    rw [heq, ← find] at hcount
    have hzero : marking.count * (find pattern cs).length = 0 := by omega
    rcases Nat.mul_eq_zero.mp hzero with hnone | hnone
    · exact absurd hnone (Nat.ne_of_gt marking.count_pos)
    · exact List.length_eq_zero_iff.mp hnone
  · intro hnone
    rw [maskAll, hnone, List.foldr_nil]

end

/-! ## Patterns that end where their run ends -/

section

variable {marking : Marking} {chars cs : List Char} {allowed : Char → Bool} {atLeast : Nat}

theorem not_allowed_stop (h : Scanned [.text chars, .run allowed atLeast none] cs)
    (front : List Char) : ∀ found ∈ findAux [.text chars, .run allowed atLeast none] 0
      front.length cs, ∀ c, (front ++ cs)[found.stop]? = some c → allowed c = false := by
  induction h generalizing front with
  | rest hquiet => simp [findAux_rest hquiet]
  | @found gap word tail hquiet hmatch hword htail ih =>
      have hwhole : front ++ gap ++ word ++ tail = front ++ (gap ++ (word ++ tail)) := by simp
      have hlen : (front ++ gap ++ word).length = front.length + gap.length + word.length := by
        rw [List.length_append, List.length_append]
      have hnext := ih (front ++ gap ++ word)
      rw [hwhole, hlen] at hnext
      rw [findAux_next hquiet hword hmatch]
      rintro found hfound c hc
      rcases List.mem_cons.mp hfound with rfl | hfound
      · obtain ⟨rest, hrest, hn⟩ := matchLength?_token hmatch
        have hsplit : word ++ tail =
            (chars ++ rest.takeWhile allowed) ++ rest.dropWhile allowed := by
          rw [hrest, List.append_assoc, List.takeWhile_append_dropWhile]
        obtain ⟨-, rfl⟩ := List.append_inj hsplit (by rw [hn, List.length_append])
        rw [← hwhole, ← hlen, List.getElem?_append_right (Nat.le_refl _), Nat.sub_self,
          ← List.head?_eq_getElem?] at hc
        have hhead := List.head?_dropWhile_not allowed rest
        rw [hc] at hhead
        simpa using hhead
      · exact hnext found hfound c hc

theorem not_leftover (hlit : ∀ n, marking.kept n < chars.length)
    (hall : ∀ n, ∀ c ∈ chars.take (marking.kept n + 1), allowed c = true) :
    ¬Leftover marking [.text chars, .run allowed atLeast none] cs := by
  rintro ⟨found, hfound, start, word, hlo, hhi, hmatches, hpre, -⟩
  have hpos : 0 < minLength [.text chars, .run allowed atLeast none] := by
    have := hlit 0
    simp only [minLength, List.map_cons, List.sum_cons, Piece.minLength]
    omega
  have hstop := not_allowed_stop (scanned hpos cs) [] found hfound
  obtain ⟨rest, rfl, -⟩ := hmatches
  have hkept := hlit (found.stop - found.start)
  have hinside : found.stop - start < chars.length := by omega
  obtain ⟨after, hafter⟩ := hpre
  have hchar : cs[found.stop]? = some (chars[found.stop - start]) := by
    have hdrop : (cs.drop start)[found.stop - start]? = cs[found.stop]? := by
      rw [List.getElem?_drop, Nat.add_sub_cancel' hhi.le]
    rw [← hdrop, ← hafter, List.append_assoc, List.getElem?_append_left hinside,
      List.getElem?_eq_getElem hinside]
  have hforbidden := hstop _ hchar
  have hmem : chars[found.stop - start] ∈
      chars.take (marking.kept (found.stop - found.start) + 1) := by
    rw [List.mem_take_iff_getElem]
    exact ⟨found.stop - start, by omega, rfl⟩
  rw [hall _ _ hmem] at hforbidden
  cases hforbidden

end

end MaskedText
