import Mathlib.Data.List.Basic
import Mathlib.Data.List.Flatten
import Mathlib.Data.List.TakeWhile

/-!
# Frames out of a stream that comes in pieces

A cutter says where the first frame of a stream ends, once the frame is there as a
whole. Cutting again after every piece gives the frames of the whole stream, wherever
the pieces were divided.
-/

namespace Framing

universe u

variable {α : Type u}

/-- Finds the end of the first frame, and keeps to it when more comes in. -/
structure Cutter (α : Type u) where
  cut : List α → Option Nat
  pos : ∀ {l n}, cut l = some n → 0 < n
  le_length : ∀ {l n}, cut l = some n → n ≤ l.length
  append : ∀ {l n} (l' : List α), cut l = some n → cut (l ++ l') = some n

variable (c : Cutter α)

def framesAux : Nat → List α → List (List α) × List α
  | 0, l => ([], l)
  | fuel + 1, l =>
      match c.cut l with
      | none => ([], l)
      | some n => ((l.take n) :: (framesAux fuel (l.drop n)).1, (framesAux fuel (l.drop n)).2)

def frames (l : List α) : List (List α) × List α := framesAux c l.length l

def rest (l : List α) : List α := (frames c l).2

def IsFrame (l : List α) : Prop := c.cut l = some l.length

variable {c}

theorem framesAux_of_le {fuel : Nat} {l : List α} (h : l.length ≤ fuel) :
    framesAux c fuel l = framesAux c l.length l := by
  induction fuel using Nat.strongRecOn generalizing l with
  | ind fuel ih =>
      cases fuel with
      | zero => rw [Nat.le_zero.mp h]
      | succ fuel =>
          cases l with
          | nil =>
              cases hcut : c.cut ([] : List α) with
              | none => simp only [framesAux, hcut, List.length_nil]
              | some n =>
                  have hle := c.le_length hcut
                  have hpos := c.pos hcut
                  rw [List.length_nil] at hle
                  omega
          | cons x l =>
              cases hcut : c.cut (x :: l) with
              | none => simp only [framesAux, hcut, List.length_cons]
              | some n =>
                  have hpos := c.pos hcut
                  have hdrop : ((x :: l).drop n).length ≤ l.length := by
                    rw [List.length_drop, List.length_cons]
                    omega
                  have hlength : l.length ≤ fuel := Nat.le_of_succ_le_succ h
                  have hfuel := ih fuel (Nat.lt_succ_self _) (Nat.le_trans hdrop hlength)
                  have hown := ih l.length (Nat.lt_succ_of_le hlength) hdrop
                  simp only [framesAux, hcut, List.length_cons]
                  rw [hfuel, hown]

theorem frames_of_none {l : List α} (h : c.cut l = none) : frames c l = ([], l) := by
  unfold frames
  cases hl : l.length with
  | zero => rfl
  | succ n => simp only [framesAux, h]

theorem frames_of_some {l : List α} {n : Nat} (h : c.cut l = some n) :
    frames c l = (l.take n :: (frames c (l.drop n)).1, (frames c (l.drop n)).2) := by
  have hpos := c.pos h
  have hle := c.le_length h
  unfold frames
  obtain ⟨fuel, hfuel⟩ : ∃ fuel, l.length = fuel + 1 := ⟨l.length - 1, by omega⟩
  have hdrop : (l.drop n).length ≤ fuel := by
    rw [List.length_drop]
    omega
  rw [hfuel]
  simp only [framesAux, h]
  rw [framesAux_of_le hdrop]

theorem frames_nil : frames c [] = ([], []) := rfl

theorem frames_append (l l' : List α) :
    frames c (l ++ l') =
      ((frames c l).1 ++ (frames c (rest c l ++ l')).1, rest c (rest c l ++ l')) := by
  induction hlength : l.length using Nat.strongRecOn generalizing l with
  | ind length ih =>
      cases hcut : c.cut l with
      | none =>
          unfold rest
          rw [frames_of_none hcut, List.nil_append]
      | some n =>
          have hpos := c.pos hcut
          have hle := c.le_length hcut
          have hshorter : (l.drop n).length < length := by
            rw [List.length_drop]
            omega
          have hlater := ih _ hshorter (l.drop n) rfl
          have hrest : rest c l = rest c (l.drop n) := by
            unfold rest
            rw [frames_of_some hcut]
          rw [frames_of_some (c.append l' hcut), List.take_append_of_le_length hle,
            List.drop_append_of_le_length hle, hlater, ← hrest, frames_of_some hcut]
          rfl

theorem cut_rest (l : List α) : c.cut (rest c l) = none := by
  induction hlength : l.length using Nat.strongRecOn generalizing l with
  | ind length ih =>
      cases hcut : c.cut l with
      | none =>
          unfold rest
          rw [frames_of_none hcut]
          exact hcut
      | some n =>
          have hpos := c.pos hcut
          have hle := c.le_length hcut
          have hshorter : (l.drop n).length < length := by
            rw [List.length_drop]
            omega
          have hrest : rest c l = rest c (l.drop n) := by
            unfold rest
            rw [frames_of_some hcut]
          rw [hrest]
          exact ih _ hshorter (l.drop n) rfl

theorem frames_join (l : List α) : (frames c l).1.flatten ++ rest c l = l := by
  unfold rest
  induction hlength : l.length using Nat.strongRecOn generalizing l with
  | ind length ih =>
      cases hcut : c.cut l with
      | none =>
          rw [frames_of_none hcut]
          rfl
      | some n =>
          have hpos := c.pos hcut
          have hle := c.le_length hcut
          have hshorter : (l.drop n).length < length := by
            rw [List.length_drop]
            omega
          have hlater := ih _ hshorter (l.drop n) rfl
          rw [frames_of_some hcut, List.flatten_cons, List.append_assoc, hlater,
            List.take_append_drop]

theorem frames_frame_append {l : List α} (h : IsFrame c l) (l' : List α) :
    frames c (l ++ l') = (l :: (frames c l').1, rest c l') := by
  rw [frames_of_some (c.append l' h)]
  simp only [List.take_left', List.drop_left']
  rfl

theorem frames_flatten {sent : List (List α)} (h : ∀ l ∈ sent, IsFrame c l) :
    frames c sent.flatten = (sent, []) := by
  induction sent with
  | nil => exact frames_nil
  | cons l sent ih =>
      have hlater := ih fun l' hl' => h l' (List.mem_cons_of_mem _ hl')
      rw [List.flatten_cons, frames_frame_append (h l List.mem_cons_self)]
      unfold rest
      rw [hlater]

end Framing

/-!
# Trimming piece by piece

When a text is trimmed piece by piece, and some pieces are lost, and still comes out as
the whole text trimmed at its start.
-/

namespace Pieces

universe u v

variable {α : Type u} {β : Type v}

theorem flatMap_eq_iff_of_sublist {f g : β → List α} {l : List β}
    (h : ∀ b ∈ l, (f b).Sublist (g b)) :
    l.flatMap f = l.flatMap g ↔ ∀ b ∈ l, f b = g b := by
  constructor
  · intro heq
    induction l with
    | nil => simp
    | cons b l ih =>
        have hfirst := (h b List.mem_cons_self).length_le
        have hsub : (l.flatMap f).Sublist (l.flatMap g) :=
          List.Sublist.flatMap_right l fun b' hb' => h b' (List.mem_cons_of_mem _ hb')
        have hlater := hsub.length_le
        rw [List.flatMap_cons, List.flatMap_cons] at heq
        have hlength := congrArg List.length heq
        rw [List.length_append, List.length_append] at hlength
        obtain ⟨hb, hl⟩ := List.append_inj heq (by omega)
        intro b' hb'
        rcases List.mem_cons.mp hb' with rfl | hmem
        · exact hb
        · exact ih (fun x hx => h x (List.mem_cons_of_mem _ hx)) hl b' hmem
  · intro heq
    exact List.flatMap_congr heq

variable {p : α → Bool} {g : β → List α} {lost : β → Prop} [DecidablePred lost]

def keptPiece (p : α → Bool) (g : β → List α) (lost : β → Prop) [DecidablePred lost] (b : β) :
    List α :=
  if lost b then [] else (g b).dropWhile p

theorem keptPiece_sublist (b : β) : (keptPiece p g lost b).Sublist (g b) := by
  unfold keptPiece
  split
  · exact List.nil_sublist _
  · exact List.dropWhile_sublist p

theorem dropWhile_eq_self_iff_head {l : List α} :
    l.dropWhile p = l ↔ ∀ c ∈ l.head?, p c = false := by
  cases l with
  | nil => simp
  | cons c l =>
      by_cases hc : p c = true
      · rw [List.dropWhile_cons_of_pos hc]
        simp only [List.head?_cons, Option.mem_some_iff, forall_eq', hc, Bool.true_eq_false, iff_false]
        intro heq
        have hle := (List.dropWhile_sublist p : (l.dropWhile p).Sublist l).length_le
        rw [heq, List.length_cons] at hle
        omega
      · rw [List.dropWhile_cons_of_neg hc]
        simpa using hc

theorem keptPiece_eq_iff (b : β) :
    keptPiece p g lost b = g b ↔ g b = [] ∨ (¬ lost b ∧ ∀ c ∈ (g b).head?, p c = false) := by
  unfold keptPiece
  by_cases hlost : lost b
  · rw [if_pos hlost]
    constructor
    · exact fun h => .inl h.symm
    · rintro (h | h)
      · exact h.symm
      · exact absurd hlost h.1
  · rw [if_neg hlost, dropWhile_eq_self_iff_head]
    constructor
    · exact fun h => .inr ⟨hlost, h⟩
    · rintro (h | h)
      · rw [h]
        simp
      · exact h.2

/-- Trimming piece by piece is trimming the whole just when no piece that shows is lost
and, after the first that shows, nothing is lost or trimmed. -/
theorem flatMap_keptPiece_iff (l : List β) :
    l.flatMap (keptPiece p g lost) = (l.flatMap g).dropWhile p ↔
      (∀ b ∈ l, (∃ c ∈ g b, p c = false) → ¬ lost b) ∧
        l.Pairwise fun a b => (∃ c ∈ g a, p c = false) →
          g b = [] ∨ (¬ lost b ∧ ∀ c ∈ (g b).head?, p c = false) := by
  induction l with
  | nil => simp
  | cons b l ih =>
      rw [List.flatMap_cons, List.flatMap_cons, List.dropWhile_append, List.pairwise_cons]
      by_cases hshows : ∃ c ∈ g b, p c = false
      · have hsome : (g b).dropWhile p ≠ [] := by
          rw [Ne, List.dropWhile_eq_nil_iff]
          rintro hall
          rcases hshows with ⟨c, hc, hp⟩
          rw [hall c hc] at hp
          cases hp
        rw [if_neg (by simpa using hsome)]
        by_cases hlost : lost b
        · have hnone : keptPiece p g lost b = [] := if_pos hlost
          rw [hnone, List.nil_append]
          constructor
          · intro heq
            have hsub : (l.flatMap (keptPiece p g lost)).Sublist (l.flatMap g) :=
              List.Sublist.flatMap_right l fun b' _ => keptPiece_sublist b'
            have hle := hsub.length_le
            have hpos := List.length_pos_of_ne_nil hsome
            rw [heq, List.length_append] at hle
            omega
          · rintro ⟨halone, -⟩
            exact absurd hlost (halone b List.mem_cons_self hshows)
        · have hkept : keptPiece p g lost b = (g b).dropWhile p := if_neg hlost
          rw [hkept, List.append_right_inj,
            flatMap_eq_iff_of_sublist fun b' _ => keptPiece_sublist b']
          constructor
          · intro hall
            refine ⟨?_, ⟨fun b' hb' _ => (keptPiece_eq_iff b').mp (hall b' hb'), ?_⟩⟩
            · rintro b' hb' ⟨c, hc, hp⟩
              rcases List.mem_cons.mp hb' with rfl | hmem
              · exact hlost
              · rcases (keptPiece_eq_iff b').mp (hall b' hmem) with hnil | hkeeps
                · rw [hnil] at hc
                  cases hc
                · exact hkeeps.1
            · exact List.pairwise_of_forall_mem_list fun a _ b' hb' _ =>
                (keptPiece_eq_iff b').mp (hall b' hb')
          · rintro ⟨-, hlater, -⟩ b' hb'
            exact (keptPiece_eq_iff b').mpr (hlater b' hb' hshows)
      · have hnone : (g b).dropWhile p = [] := by
          rw [List.dropWhile_eq_nil_iff]
          intro c hc
          by_contra hp
          exact hshows ⟨c, hc, by simpa using hp⟩
        have hkept : keptPiece p g lost b = [] := by
          unfold keptPiece
          rw [hnone, ite_self]
        rw [hkept, hnone, List.isEmpty_nil, if_pos rfl, List.nil_append, ih]
        constructor
        · rintro ⟨halone, hpairs⟩
          refine ⟨fun b' hb' hb'shows => ?_, fun b' _ h => absurd h hshows, hpairs⟩
          rcases List.mem_cons.mp hb' with rfl | hmem
          · exact absurd hb'shows hshows
          · exact halone b' hmem hb'shows
        · rintro ⟨halone, -, hpairs⟩
          exact ⟨fun b' hb' => halone b' (List.mem_cons_of_mem _ hb'), hpairs⟩

end Pieces
