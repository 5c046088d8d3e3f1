import Mathlib.Algebra.GroupWithZero.Nat
import Mathlib.Data.List.Infix
import Mathlib.Data.List.TakeWhile

/-!
# Search patterns over text

A pattern is a sequence of pieces. Among the matches at one place the search prefers, as a
backtracking matcher does, the earlier choice and the longer run.
-/

namespace TextPattern

inductive Piece where
  | text (chars : List Char)
  | oneOf (choices : List (List Char))
  | run (allowed : Char → Bool) (atLeast : Nat) (atMost : Option Nat)

abbrev Pattern := List Piece

/-- A run takes no more than this. -/
def longest (allowed : Char → Bool) (atMost : Option Nat) (cs : List Char) : Nat :=
  let available := (cs.takeWhile allowed).length
  match atMost with
  | none => available
  | some bound => min bound available

/-- The lengths of the matches at the start of the text, the preferred one first. -/
def lengths : Pattern → List Char → List Nat
  | [], _ => [0]
  | .text chars :: pieces, cs =>
      if chars.isPrefixOf cs then
        (lengths pieces (cs.drop chars.length)).map (chars.length + ·)
      else []
  | .oneOf choices :: pieces, cs =>
      (choices.filter (·.isPrefixOf cs)).flatMap fun chars =>
        (lengths pieces (cs.drop chars.length)).map (chars.length + ·)
  | .run allowed atLeast atMost :: pieces, cs =>
      (List.range' atLeast (longest allowed atMost cs + 1 - atLeast)).reverse.flatMap fun n =>
        (lengths pieces (cs.drop n)).map (n + ·)

def matchLength? (pattern : Pattern) (cs : List Char) : Option Nat :=
  (lengths pattern cs).head?

/-- The texts of which the pattern matches the whole. -/
def Matches : Pattern → List Char → Prop
  | [], word => word = []
  | .text chars :: pieces, word => ∃ rest, word = chars ++ rest ∧ Matches pieces rest
  | .oneOf choices :: pieces, word =>
      ∃ chars ∈ choices, ∃ rest, word = chars ++ rest ∧ Matches pieces rest
  | .run allowed atLeast atMost :: pieces, word =>
      ∃ chars rest, word = chars ++ rest ∧ (∀ c ∈ chars, allowed c = true) ∧
        atLeast ≤ chars.length ∧ (∀ bound ∈ atMost, chars.length ≤ bound) ∧ Matches pieces rest

def Occurs (pattern : Pattern) (cs : List Char) : Prop :=
  ∃ word, word <:+: cs ∧ Matches pattern word

structure Found where
  start : Nat
  stop : Nat
  deriving DecidableEq

/-- The first number counts the characters still to be passed over, the second those
before the text. -/
def findAux (pattern : Pattern) : Nat → Nat → List Char → List Found
  | _, _, [] => []
  | skip + 1, pos, _ :: cs => findAux pattern skip (pos + 1) cs
  | 0, pos, c :: cs =>
      match matchLength? pattern (c :: cs) with
      | some (n + 1) => ⟨pos, pos + (n + 1)⟩ :: findAux pattern n (pos + 1) cs
      | _ => findAux pattern 0 (pos + 1) cs

/-- The matches from the left, apart from each other. An empty match is passed over. -/
def find (pattern : Pattern) (cs : List Char) : List Found := findAux pattern 0 0 cs

def Piece.avoids (c : Char) : Piece → Bool
  | .text chars => !chars.contains c
  | .oneOf choices => choices.all fun chars => !chars.contains c
  | .run allowed _ _ => !allowed c

def Piece.minLength : Piece → Nat
  | .text chars => chars.length
  | .oneOf choices => ((choices.map List.length).min?).getD 0
  | .run _ atLeast _ => atLeast

def avoids (c : Char) (pattern : Pattern) : Bool := pattern.all (Piece.avoids c)

def minLength (pattern : Pattern) : Nat := (pattern.map Piece.minLength).sum

/-! ## Matches -/

variable {cs : List Char}

theorem le_longest_iff {allowed : Char → Bool} {atMost : Option Nat} {n : Nat} :
    n ≤ longest allowed atMost cs ↔
      n ≤ cs.length ∧ (∀ c ∈ cs.take n, allowed c = true) ∧ ∀ bound ∈ atMost, n ≤ bound := by
  have hrun : n ≤ (cs.takeWhile allowed).length ↔
      n ≤ cs.length ∧ ∀ c ∈ cs.take n, allowed c = true := by
    constructor
    · intro hn
      have htake : cs.take n = (cs.takeWhile allowed).take n :=
        (List.prefix_iff_eq_take.mp ((List.take_prefix n _).trans (List.takeWhile_prefix allowed))
          ).trans (by rw [List.length_take, Nat.min_eq_left hn]) |>.symm
      refine ⟨hn.trans (List.takeWhile_prefix allowed).length_le, fun c hc => ?_⟩
      rw [htake] at hc
      exact List.mem_takeWhile_imp (List.mem_of_mem_take hc)
    · rintro ⟨hn, hall⟩
      have hsplit : cs.takeWhile allowed =
          cs.take n ++ (cs.drop n).takeWhile allowed := by
        conv_lhs => rw [← List.take_append_drop n cs]
        exact List.takeWhile_append_of_pos hall
      rw [hsplit, List.length_append, List.length_take, Nat.min_eq_left hn]
      exact Nat.le_add_right _ _
  unfold longest
  cases atMost with
  | none => simpa using hrun
  | some bound =>
      simp only [Nat.le_min, hrun, Option.mem_some_iff, forall_eq']
      tauto

theorem mem_lengths_shift {pieces : Pattern} {n m : Nat} :
    n ∈ (lengths pieces (cs.drop m)).map (m + ·) ↔
      m ≤ n ∧ n - m ∈ lengths pieces (cs.drop m) := by
  rw [List.mem_map]
  constructor
  · rintro ⟨k, hk, rfl⟩
    exact ⟨Nat.le_add_right m k, by rwa [Nat.add_sub_cancel_left]⟩
  · rintro ⟨hle, hmem⟩
    exact ⟨n - m, hmem, Nat.add_sub_cancel' hle⟩

theorem take_split {n m : Nat} (hmn : m ≤ n) :
    cs.take n = cs.take m ++ (cs.drop m).take (n - m) := by
  rw [← List.take_add, Nat.add_sub_cancel' hmn]

theorem mem_lengths_iff {pattern : Pattern} {n : Nat} :
    n ∈ lengths pattern cs ↔ n ≤ cs.length ∧ Matches pattern (cs.take n) := by
  induction pattern generalizing cs n with
  | nil =>
      rw [lengths, List.mem_singleton, Matches, List.take_eq_nil_iff]
      constructor
      · rintro rfl
        exact ⟨Nat.zero_le _, .inl rfl⟩
      · rintro ⟨hle, rfl | rfl⟩
        · rfl
        · simpa using hle
  | cons piece pieces ih =>
      have hlit : ∀ chars : List Char,
          (chars <+: cs ∧ n ∈ (lengths pieces (cs.drop chars.length)).map (chars.length + ·)) ↔
            n ≤ cs.length ∧ ∃ rest, cs.take n = chars ++ rest ∧ Matches pieces rest := by
        intro chars
        rw [mem_lengths_shift, ih, List.length_drop]
        constructor
        · rintro ⟨hpre, hle, hlen, hrest⟩
          have := hpre.length_le
          refine ⟨by omega, _, ?_, hrest⟩
          rw [take_split hle, ← List.prefix_iff_eq_take.mp hpre]
        · rintro ⟨hle, rest, heq, hrest⟩
          have hpre : chars <+: cs.take n := ⟨rest, heq.symm⟩
          have hpre := hpre.trans (List.take_prefix n cs)
          have hlen := congrArg List.length heq
          rw [List.length_take, Nat.min_eq_left hle, List.length_append] at hlen
          refine ⟨hpre, by omega, by omega, ?_⟩
          rw [take_split (show chars.length ≤ n by omega),
            ← List.prefix_iff_eq_take.mp hpre] at heq
          rwa [List.append_cancel_left heq]
      cases piece with
      | text chars =>
          rw [lengths, Matches, ← hlit chars]
          split_ifs with hpre
          · rw [List.isPrefixOf_iff_prefix] at hpre
            exact (and_iff_right hpre).symm
          · rw [List.isPrefixOf_iff_prefix] at hpre
            simp [hpre]
      | oneOf choices =>
          rw [lengths, Matches, List.mem_flatMap]
          simp only [List.mem_filter, List.isPrefixOf_iff_prefix]
          constructor
          · rintro ⟨chars, ⟨hmem, hpre⟩, hn⟩
            obtain ⟨hle, rest, heq, hrest⟩ := (hlit chars).mp ⟨hpre, hn⟩
            exact ⟨hle, chars, hmem, rest, heq, hrest⟩
          · rintro ⟨hle, chars, hmem, rest, heq, hrest⟩
            obtain ⟨hpre, hn⟩ := (hlit chars).mpr ⟨hle, rest, heq, hrest⟩
            exact ⟨chars, ⟨hmem, hpre⟩, hn⟩
      | run allowed atLeast atMost =>
          rw [lengths, Matches, List.mem_flatMap]
          simp only [List.mem_reverse, List.mem_range'_1]
          constructor
          · rintro ⟨m, ⟨hleast, hmost⟩, hn⟩
            rw [mem_lengths_shift, ih, List.length_drop] at hn
            have hlongest : m ≤ longest allowed atMost cs := by omega
            obtain ⟨hm, hall, hbound⟩ := le_longest_iff.mp hlongest
            refine ⟨by omega, cs.take m, _, take_split hn.1, hall, ?_, ?_, hn.2.2⟩
            · rwa [List.length_take, Nat.min_eq_left hm]
            · rwa [List.length_take, Nat.min_eq_left hm]
          · rintro ⟨hle, chars, rest, heq, hall, hleast, hbound, hrest⟩
            obtain ⟨hpre, hn⟩ := (hlit chars).mpr ⟨hle, rest, heq, hrest⟩
            have hlongest : chars.length ≤ longest allowed atMost cs := by
              refine le_longest_iff.mpr ⟨hpre.length_le, ?_, hbound⟩
              rwa [← List.prefix_iff_eq_take.mp hpre]
            exact ⟨chars.length, ⟨hleast, by omega⟩, hn⟩

theorem matchLength?_eq_none_iff {pattern : Pattern} :
    matchLength? pattern cs = none ↔ ∀ word, word <+: cs → ¬Matches pattern word := by
  rw [matchLength?, List.head?_eq_none_iff, List.eq_nil_iff_forall_not_mem]
  constructor
  · intro hnone word hpre hmatch
    refine hnone word.length (mem_lengths_iff.mpr ⟨hpre.length_le, ?_⟩)
    rwa [← List.prefix_iff_eq_take.mp hpre]
  · intro hnone n hn
    exact hnone _ (List.take_prefix n cs) (mem_lengths_iff.mp hn).2

theorem matches_of_matchLength? {pattern : Pattern} {n : Nat}
    (h : matchLength? pattern cs = some n) : n ≤ cs.length ∧ Matches pattern (cs.take n) :=
  mem_lengths_iff.mp (List.mem_of_head? h)

theorem matchLength?_token {chars : List Char} {allowed : Char → Bool} {atLeast n : Nat}
    (h : matchLength? [.text chars, .run allowed atLeast none] cs = some n) :
    ∃ rest, cs = chars ++ rest ∧ n = chars.length + (rest.takeWhile allowed).length := by
  have hrun : ∀ rest, lengths [.run allowed atLeast none] rest =
      (List.range' atLeast ((rest.takeWhile allowed).length + 1 - atLeast)).reverse := by
    intro rest
    simp [lengths, longest, List.flatMap_singleton']
  rw [matchLength?, lengths, hrun] at h
  split_ifs at h with hpre
  · obtain ⟨rest, rfl⟩ := List.isPrefixOf_iff_prefix.mp hpre
    refine ⟨rest, rfl, ?_⟩
    rw [List.drop_left, List.head?_map, List.head?_reverse, List.getLast?_range'] at h
    split_ifs at h with hnone
    · cases h
    · simp only [Option.map_some, Option.some.injEq] at h
      omega
  · cases h

theorem Matches.notMem {c : Char} {pattern : Pattern} {word : List Char}
    (havoids : avoids c pattern = true) (h : Matches pattern word) : c ∉ word := by
  induction pattern generalizing word with
  | nil =>
      rw [Matches] at h
      simp [h]
  | cons piece pieces ih =>
      rw [avoids, List.all_cons, Bool.and_eq_true] at havoids
      obtain ⟨hpiece, hpieces⟩ := havoids
      cases piece with
      | text chars =>
          obtain ⟨rest, rfl, hrest⟩ := h
          rw [List.mem_append, not_or]
          exact ⟨by simpa [Piece.avoids] using hpiece, ih hpieces hrest⟩
      | oneOf choices =>
          obtain ⟨chars, hmem, rest, rfl, hrest⟩ := h
          rw [List.mem_append, not_or]
          refine ⟨?_, ih hpieces hrest⟩
          simpa using List.all_eq_true.mp hpiece chars hmem
      | run allowed atLeast atMost =>
          obtain ⟨chars, rest, rfl, hall, -, -, hrest⟩ := h
          rw [List.mem_append, not_or]
          refine ⟨fun hc => ?_, ih hpieces hrest⟩
          simp [Piece.avoids, hall c hc] at hpiece

theorem Matches.minLength_le {pattern : Pattern} {word : List Char}
    (h : Matches pattern word) : minLength pattern ≤ word.length := by
  induction pattern generalizing word with
  | nil => exact Nat.zero_le _
  | cons piece pieces ih =>
      have hsum : minLength (piece :: pieces) = piece.minLength + minLength pieces := by
        simp [minLength]
      rw [hsum]
      cases piece with
      | text chars =>
          obtain ⟨rest, rfl, hrest⟩ := h
          rw [List.length_append]
          exact Nat.add_le_add (Nat.le_refl _) (ih hrest)
      | oneOf choices =>
          obtain ⟨chars, hmem, rest, rfl, hrest⟩ := h
          rw [List.length_append]
          refine Nat.add_le_add ?_ (ih hrest)
          have hlen := List.mem_map_of_mem (f := List.length) hmem
          cases hmin : (choices.map List.length).min? with
          | none =>
              rw [List.min?_eq_none_iff] at hmin
              rw [hmin] at hlen
              cases hlen
          | some m =>
              rw [Piece.minLength, hmin]
              exact (List.min?_eq_some_iff.mp hmin).2 _ hlen
      | run allowed atLeast atMost =>
          obtain ⟨chars, rest, rfl, -, hleast, -, hrest⟩ := h
          rw [List.length_append]
          exact Nat.add_le_add hleast (ih hrest)

/-! ## The search -/

def Quiet (pattern : Pattern) (gap tail : List Char) : Prop :=
  ∀ back, back <:+ gap → back ≠ [] → matchLength? pattern (back ++ tail) = none

/-- A text as the search takes it apart. -/
inductive Scanned (pattern : Pattern) : List Char → Prop
  | rest {cs : List Char} (hquiet : Quiet pattern cs []) : Scanned pattern cs
  | found {gap word tail : List Char} (hquiet : Quiet pattern gap (word ++ tail))
      (hmatch : matchLength? pattern (word ++ tail) = some word.length) (hword : word ≠ [])
      (htail : Scanned pattern tail) : Scanned pattern (gap ++ (word ++ tail))

theorem Quiet.tail {pattern : Pattern} {c : Char} {gap tail : List Char}
    (h : Quiet pattern (c :: gap) tail) : Quiet pattern gap tail :=
  fun back hback => h back (hback.trans (List.suffix_cons c gap))

theorem Quiet.head {pattern : Pattern} {c : Char} {gap tail : List Char}
    (h : Quiet pattern (c :: gap) tail) : matchLength? pattern (c :: (gap ++ tail)) = none :=
  h (c :: gap) List.suffix_rfl (by simp)

theorem quiet_nil (pattern : Pattern) (tail : List Char) : Quiet pattern [] tail :=
  fun _ hback hne => absurd (List.suffix_nil.mp hback) hne

theorem Quiet.cons {pattern : Pattern} {c : Char} {gap tail : List Char}
    (hhead : matchLength? pattern (c :: (gap ++ tail)) = none) (h : Quiet pattern gap tail) :
    Quiet pattern (c :: gap) tail := by
  intro back hback hne
  rcases List.suffix_cons_iff.mp hback with rfl | hback
  · exact hhead
  · exact h back hback hne

section

variable {pattern : Pattern} (hmin : 0 < minLength pattern)

include hmin

theorem matchLength?_pos {cs : List Char} {n : Nat} (h : matchLength? pattern cs = some n) :
    0 < n := by
  obtain ⟨hle, hmatch⟩ := matches_of_matchLength? h
  have := hmatch.minLength_le
  rw [List.length_take, Nat.min_eq_left hle] at this
  omega

theorem first_match (cs : List Char) : Quiet pattern cs [] ∨ ∃ gap word tail,
    cs = gap ++ (word ++ tail) ∧ Quiet pattern gap (word ++ tail) ∧
      matchLength? pattern (word ++ tail) = some word.length ∧ word ≠ [] := by
  induction cs with
  | nil => exact .inl (quiet_nil _ _)
  | cons c cs ih =>
      cases hmatch : matchLength? pattern (c :: cs) with
      | some n =>
          have hpos := matchLength?_pos hmin hmatch
          have hle := (matches_of_matchLength? hmatch).1
          have hlen : ((c :: cs).take n).length = n := by
            rw [List.length_take, Nat.min_eq_left hle]
          refine .inr ⟨[], (c :: cs).take n, (c :: cs).drop n, ?_, quiet_nil _ _, ?_, ?_⟩
          · rw [List.take_append_drop, List.nil_append]
          · rw [List.take_append_drop, hlen, hmatch]
          · exact List.length_pos_iff.mp (by omega)
      | none =>
          rcases ih with hquiet | ⟨gap, word, tail, rfl, hquiet, hword⟩
          · exact .inl (.cons (by rwa [List.append_nil]) hquiet)
          · exact .inr ⟨c :: gap, word, tail, rfl, .cons hmatch hquiet, hword⟩

theorem scanned (cs : List Char) : Scanned pattern cs := by
  induction hn : cs.length using Nat.strongRecOn generalizing cs with
  | ind n ih =>
      rcases first_match hmin cs with hquiet | ⟨gap, word, tail, rfl, hquiet, hmatch, hword⟩
      · exact .rest hquiet
      · have hpos := List.length_pos_iff.mpr hword
        rw [List.length_append, List.length_append] at hn
        exact .found hquiet hmatch hword (ih tail.length (by omega) tail rfl)

end

theorem findAux_skip (pattern : Pattern) (word tail : List Char) (pos : Nat) :
    findAux pattern word.length pos (word ++ tail) =
      findAux pattern 0 (pos + word.length) tail := by
  induction word generalizing pos with
  | nil => rfl
  | cons c word ih =>
      rw [List.length_cons, List.cons_append, findAux, ih]
      congr 1
      omega

theorem findAux_quiet {pattern : Pattern} {gap tail : List Char} (h : Quiet pattern gap tail)
    (pos : Nat) : findAux pattern 0 pos (gap ++ tail) =
      findAux pattern 0 (pos + gap.length) tail := by
  induction gap generalizing pos with
  | nil => rfl
  | cons c gap ih =>
      rw [List.cons_append, findAux, h.head, List.length_cons, Nat.add_comm gap.length,
        ← Nat.add_assoc]
      exact ih h.tail (pos + 1)

theorem findAux_found {pattern : Pattern} {word tail : List Char} (hword : word ≠ [])
    (h : matchLength? pattern (word ++ tail) = some word.length) (pos : Nat) :
    findAux pattern 0 pos (word ++ tail) =
      ⟨pos, pos + word.length⟩ :: findAux pattern 0 (pos + word.length) tail := by
  cases word with
  | nil => exact absurd rfl hword
  | cons c word =>
      rw [List.cons_append] at h
      rw [List.cons_append, findAux, h]
      simp only [List.length_cons]
      rw [findAux_skip, Nat.add_assoc pos 1, Nat.add_comm 1]

theorem findAux_next {pattern : Pattern} {gap word tail : List Char}
    (hquiet : Quiet pattern gap (word ++ tail)) (hword : word ≠ [])
    (hmatch : matchLength? pattern (word ++ tail) = some word.length) (pos : Nat) :
    findAux pattern 0 pos (gap ++ (word ++ tail)) =
      ⟨pos + gap.length, pos + gap.length + word.length⟩ ::
        findAux pattern 0 (pos + gap.length + word.length) tail := by
  rw [findAux_quiet hquiet, findAux_found hword hmatch]

theorem findAux_rest {pattern : Pattern} (hquiet : Quiet pattern cs []) (pos : Nat) :
    findAux pattern 0 pos cs = [] := by
  have h := findAux_quiet hquiet pos
  rwa [List.append_nil] at h

theorem le_start_of_mem_findAux {pattern : Pattern} {skip pos : Nat} {found : Found}
    (h : found ∈ findAux pattern skip pos cs) : pos ≤ found.start := by
  fun_induction findAux pattern skip pos cs with
  | case1 => cases h
  | case2 skip pos c cs ih => exact (Nat.le_succ pos).trans (ih h)
  | case3 pos c cs n hmatch ih =>
      rcases List.mem_cons.mp h with rfl | h
      · exact Nat.le_refl _
      · exact (Nat.le_succ pos).trans (ih h)
  | case4 pos c cs hmatch ih => exact (Nat.le_succ pos).trans (ih h)

theorem start_lt_stop_of_mem_findAux {pattern : Pattern} {skip pos : Nat} {found : Found}
    (h : found ∈ findAux pattern skip pos cs) : found.start < found.stop := by
  fun_induction findAux pattern skip pos cs with
  | case1 => cases h
  | case2 skip pos c cs ih => exact ih h
  | case3 pos c cs n hmatch ih =>
      rcases List.mem_cons.mp h with rfl | h
      · exact Nat.lt_add_of_pos_right (Nat.succ_pos n)
      · exact ih h
  | case4 pos c cs hmatch ih => exact ih h

theorem Quiet.not_matches {pattern : Pattern} {gap tail back word : List Char}
    (h : Quiet pattern gap tail) (hback : back <:+ gap) (hne : back ≠ [])
    (hword : word <+: back ++ tail) : ¬Matches pattern word :=
  matchLength?_eq_none_iff.mp (h back hback hne) word hword

theorem find_eq_nil_iff {pattern : Pattern} (hmin : 0 < minLength pattern) :
    find pattern cs = [] ↔ ¬Occurs pattern cs := by
  rcases first_match hmin cs with hquiet | ⟨gap, word, tail, rfl, hquiet, hmatch, hword⟩
  · refine ⟨fun _ => ?_, fun _ => findAux_rest hquiet 0⟩
    rintro ⟨word, ⟨before, after, rfl⟩, hmatches⟩
    have hpos := hmatches.minLength_le
    have hback : word ++ after <:+ before ++ word ++ after := ⟨before, by simp⟩
    refine hquiet.not_matches hback (fun hnil => ?_) ⟨after, by simp⟩ hmatches
    rw [(List.append_eq_nil_iff.mp hnil).1, List.length_nil] at hpos
    omega
  · rw [find, findAux_next hquiet hword hmatch]
    simp only [List.cons_ne_nil, false_iff, not_not]
    have htake := (matches_of_matchLength? hmatch).2
    rw [List.take_left] at htake
    exact ⟨word, ⟨gap, tail, by simp⟩, htake⟩

end TextPattern
