import BenShu.Lib.Text
import Mathlib.Algebra.GroupWithZero.Nat

/-!
# Slices of a text by byte offsets

A text is cut at byte offsets of its UTF-8 form. An offset within a character, or behind the end
of the text, has no slice.
-/

namespace Text

def byteLen (cs : List Char) : Nat := (cs.map Char.utf8Size).sum

@[simp] theorem byteLen_nil : byteLen [] = 0 := rfl

@[simp] theorem byteLen_cons (c : Char) (cs : List Char) :
    byteLen (c :: cs) = c.utf8Size + byteLen cs := rfl

@[simp] theorem byteLen_append (cs ds : List Char) :
    byteLen (cs ++ ds) = byteLen cs + byteLen ds := by
  simp [byteLen]

def takeBytes : Nat → List Char → Option (List Char)
  | 0, _ => some []
  | _ + 1, [] => none
  | n + 1, c :: cs =>
      if c.utf8Size ≤ n + 1 then (takeBytes (n + 1 - c.utf8Size) cs).map (c :: ·) else none

/-- The characters behind the first `n` bytes. -/
def dropBytes : Nat → List Char → Option (List Char)
  | 0, cs => some cs
  | _ + 1, [] => none
  | n + 1, c :: cs => if c.utf8Size ≤ n + 1 then dropBytes (n + 1 - c.utf8Size) cs else none

/-- `none` where the slice would panic. -/
def slice (cs : List Char) (start stop : Nat) : Option (List Char) :=
  (dropBytes start cs).bind (takeBytes (stop - start))

/-- A character ends, or none has begun, after `n` bytes. -/
def AlignedAt (n : Nat) (cs : List Char) : Prop := ∃ front, front <+: cs ∧ byteLen front = n

theorem takeBytes_eq_some_iff {n : Nat} {cs front : List Char} :
    takeBytes n cs = some front ↔ front <+: cs ∧ byteLen front = n := by
  induction cs generalizing n front with
  | nil =>
      cases n with
      | zero =>
          simp only [takeBytes, Option.some.injEq, List.prefix_nil]
          constructor
          · rintro rfl
            exact ⟨rfl, rfl⟩
          · exact fun h => h.1.symm
      | succ n =>
          simp only [takeBytes, List.prefix_nil, reduceCtorEq, false_iff, not_and]
          rintro rfl
          simp
  | cons c cs ih =>
      have hpos := c.utf8Size_pos
      cases n with
      | zero =>
          simp only [takeBytes, Option.some.injEq]
          constructor
          · rintro rfl
            exact ⟨List.nil_prefix, rfl⟩
          · rintro ⟨hstarts, hlen⟩
            cases front with
            | nil => rfl
            | cons d front =>
                obtain ⟨rfl, -⟩ := List.cons_prefix_cons.mp hstarts
                rw [byteLen_cons] at hlen
                omega
      | succ n =>
          rw [takeBytes]
          constructor
          · intro h
            split_ifs at h with hfits
            obtain ⟨rest, hrest, rfl⟩ := Option.map_eq_some_iff.mp h
            obtain ⟨hstarts, hlen⟩ := ih.mp hrest
            exact ⟨List.cons_prefix_cons.mpr ⟨rfl, hstarts⟩, by rw [byteLen_cons]; omega⟩
          · rintro ⟨hstarts, hlen⟩
            cases front with
            | nil => simp at hlen
            | cons d front =>
                obtain ⟨rfl, hfront⟩ := List.cons_prefix_cons.mp hstarts
                rw [byteLen_cons] at hlen
                have hrest : takeBytes (n + 1 - d.utf8Size) cs = some front :=
                  ih.mpr ⟨hfront, by omega⟩
                rw [if_pos (by omega), hrest]
                rfl

theorem dropBytes_append (front back : List Char) :
    dropBytes (byteLen front) (front ++ back) = some back := by
  induction front with
  | nil => simp [dropBytes]
  | cons c front ih =>
      have hpos := c.utf8Size_pos
      obtain ⟨n, hn⟩ : ∃ n, byteLen (c :: front) = n + 1 :=
        ⟨byteLen (c :: front) - 1, by rw [byteLen_cons]; omega⟩
      rw [byteLen_cons] at hn
      rw [byteLen_cons, List.cons_append, hn, dropBytes, if_pos (by omega)]
      have hrest : n + 1 - c.utf8Size = byteLen front := by omega
      rw [hrest, ih]

theorem takeBytes_eq_none_iff {n : Nat} {cs : List Char} :
    takeBytes n cs = none ↔ ¬AlignedAt n cs := by
  rw [Option.eq_none_iff_forall_ne_some]
  constructor
  · rintro h ⟨front, hfront⟩
    exact h front (takeBytes_eq_some_iff.mpr hfront)
  · exact fun h front hfront => h ⟨front, takeBytes_eq_some_iff.mp hfront⟩

theorem slice_zero (cs : List Char) (n : Nat) : slice cs 0 n = takeBytes n cs := by
  cases cs <;> rfl

theorem slice_append (front back : List Char) (n : Nat) :
    slice (front ++ back) (byteLen front) (byteLen front + n) = takeBytes n back := by
  rw [slice, dropBytes_append, Nat.add_sub_cancel_left]
  rfl

theorem byteLen_of_ascii {cs : List Char} (h : ∀ c ∈ cs, c.utf8Size = 1) :
    byteLen cs = cs.length := by
  induction cs with
  | nil => rfl
  | cons c cs ih =>
      rw [byteLen_cons, h c List.mem_cons_self, ih fun x hx => h x (List.mem_cons_of_mem _ hx),
        List.length_cons, Nat.add_comm]

end Text
