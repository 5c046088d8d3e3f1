import Mathlib.Data.List.Infix

/-!
# Patterns with a star

In a pattern the star stands for any sequence of letters and every other letter for
itself.
-/

namespace Glob

variable {α : Type} [DecidableEq α] {star : α} {pattern plain before after name rest : List α}

/-- The name is one of those that the pattern stands for. -/
def Matches (star : α) : List α → List α → Prop
  | [], name => name = []
  | c :: pattern, name =>
      if c = star then ∃ front rest, name = front ++ rest ∧ Matches star pattern rest
      else ∃ rest, name = c :: rest ∧ Matches star pattern rest

theorem matches_star_cons :
    Matches star (star :: pattern) name ↔ ∃ front rest, name = front ++ rest ∧
      Matches star pattern rest := by
  rw [Matches, if_pos rfl]

theorem matches_cons_of_ne {c : α} (h : c ≠ star) :
    Matches star (c :: pattern) name ↔ ∃ rest, name = c :: rest ∧ Matches star pattern rest := by
  rw [Matches, if_neg h]

theorem matches_append (h : star ∉ plain) :
    Matches star (plain ++ pattern) name ↔ ∃ rest, name = plain ++ rest ∧
      Matches star pattern rest := by
  induction plain generalizing name with
  | nil => simp
  | cons c plain ih =>
      rw [List.mem_cons, not_or] at h
      rw [List.cons_append, matches_cons_of_ne (Ne.symm h.1)]
      simp only [ih h.2]
      constructor
      · rintro ⟨rest, rfl, tail, rfl, hmatches⟩
        exact ⟨tail, rfl, hmatches⟩
      · rintro ⟨tail, rfl, hmatches⟩
        exact ⟨_, rfl, tail, rfl, hmatches⟩

theorem matches_plain (h : star ∉ pattern) : Matches star pattern name ↔ name = pattern := by
  have happend : Matches star (pattern ++ []) name ↔ _ := matches_append h
  rw [List.append_nil] at happend
  rw [happend]
  constructor
  · rintro ⟨rest, rfl, hrest⟩
    have hnil : rest = [] := hrest
    rw [hnil, List.append_nil]
  · intro hname
    exact ⟨[], by rw [hname, List.append_nil], rfl⟩

theorem matches_one_star (hbefore : star ∉ before) (hafter : star ∉ after) :
    Matches star (before ++ star :: after) name ↔
      ∃ middle, name = before ++ (middle ++ after) := by
  rw [matches_append hbefore]
  simp only [matches_star_cons, matches_plain hafter]
  constructor
  · rintro ⟨rest, rfl, middle, last, rfl, rfl⟩
    exact ⟨middle, rfl⟩
  · rintro ⟨middle, rfl⟩
    exact ⟨_, rfl, middle, after, rfl, rfl⟩

/-- The first part and the last part of the name are those of the pattern, but they share
letters. -/
def Overlaps (before after name : List α) : Prop :=
  before <+: name ∧ after <:+ name ∧ name.length < before.length + after.length

instance (before after name : List α) : Decidable (Overlaps before after name) :=
  inferInstanceAs (Decidable (_ ∧ _ ∧ _))

/-- A name with the first and the last part is one that the pattern stands for unless they
share letters. -/
theorem matches_one_star_iff (hbefore : star ∉ before) (hafter : star ∉ after) :
    Matches star (before ++ star :: after) name ↔
      (before <+: name ∧ after <:+ name) ∧ ¬Overlaps before after name := by
  rw [matches_one_star hbefore hafter]
  constructor
  · rintro ⟨middle, rfl⟩
    refine ⟨⟨List.prefix_append _ _, ?_⟩, ?_⟩
    · rw [← List.append_assoc]
      exact List.suffix_append _ _
    · rintro ⟨-, -, hlength⟩
      simp only [List.length_append] at hlength
      omega
  · rintro ⟨⟨⟨rest, rfl⟩, hsuffix⟩, hnot⟩
    have hlength : after.length ≤ rest.length := by
      by_contra hshort
      refine hnot ⟨List.prefix_append _ _, hsuffix, ?_⟩
      rw [List.length_append]
      omega
    obtain ⟨middle, rfl⟩ := List.suffix_of_suffix_length_le hsuffix (List.suffix_append _ _) hlength
    exact ⟨middle, rfl⟩

theorem shape (star : α) (pattern : List α) :
    star ∉ pattern ∨ (∃ before after, pattern = before ++ star :: after ∧ star ∉ before ∧
        star ∉ after) ∨
      ∃ before middle after, pattern = before ++ star :: (middle ++ star :: after) ∧
        star ∉ before ∧ star ∉ middle := by
  by_cases hone : star ∈ pattern
  · obtain ⟨before, rest, rfl, hbefore⟩ := List.eq_append_cons_of_mem hone
    by_cases htwo : star ∈ rest
    · obtain ⟨middle, after, rfl, hmiddle⟩ := List.eq_append_cons_of_mem htwo
      exact .inr (.inr ⟨before, middle, after, rfl, hbefore, hmiddle⟩)
    · exact .inr (.inl ⟨before, rest, rfl, hbefore, htwo⟩)
  · exact .inl hone

end Glob
