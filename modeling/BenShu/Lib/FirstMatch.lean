import Mathlib.Data.List.Sort

/-!
# The first match of a list

A record in a list is found as the first one with a property, and changed in its place.
-/

namespace FirstMatch

variable {α : Type*} {p : α → Bool} {f : α → α} {l : List α}

def modifyFirst (p : α → Bool) (f : α → α) : List α → List α
  | [] => []
  | a :: l => if p a then f a :: l else a :: modifyFirst p f l

def uniqueIdx? (p : α → Bool) (l : List α) : Option Nat :=
  if l.countP p = 1 then l.findIdx? p else none

@[simp] theorem length_modifyFirst : (modifyFirst p f l).length = l.length := by
  induction l with
  | nil => rfl
  | cons a l ih =>
      unfold modifyFirst
      split <;> simp [ih]

theorem getElem?_modifyFirst (i : Nat) :
    (modifyFirst p f l)[i]? = if l.findIdx? p = some i then l[i]?.map f else l[i]? := by
  induction l generalizing i with
  | nil => simp [modifyFirst]
  | cons a l ih =>
      unfold modifyFirst
      rw [List.findIdx?_cons]
      by_cases ha : p a = true
      · rw [if_pos ha, if_pos ha]
        cases i <;> simp
      · rw [if_neg ha, if_neg ha]
        cases i with
        | zero => simp
        | succ i => simp [ih]

theorem findIdx?_modifyFirst {q : α → Bool} (h : ∀ a, q (f a) = q a) :
    (modifyFirst p f l).findIdx? q = l.findIdx? q := by
  induction l with
  | nil => rfl
  | cons a l ih =>
      unfold modifyFirst
      split <;> simp [List.findIdx?_cons, h, ih]

theorem findIdx?_append_of_some {q : α → Bool} {i : Nat} (l' : List α)
    (h : l.findIdx? q = some i) : (l ++ l').findIdx? q = some i := by
  rw [List.findIdx?_append, h]
  rfl

theorem exists_first {P : α → Prop} (h : ∃ a ∈ l, P a) :
    ∃ before a after, l = before ++ a :: after ∧ P a ∧ ∀ b ∈ before, ¬ P b := by
  induction l with
  | nil => rcases h with ⟨a, ha, -⟩; cases ha
  | cons a l ih =>
      by_cases ha : P a
      · exact ⟨[], a, l, rfl, ha, fun b hb => by cases hb⟩
      · have hlater : ∃ b ∈ l, P b := by
          rcases h with ⟨b, hb, hp⟩
          rcases List.mem_cons.mp hb with rfl | hmem
          · exact absurd hp ha
          · exact ⟨b, hmem, hp⟩
        rcases ih hlater with ⟨before, b, after, rfl, hb, hbefore⟩
        refine ⟨a :: before, b, after, rfl, hb, fun c hc => ?_⟩
        rcases List.mem_cons.mp hc with rfl | hmem
        · exact ha
        · exact hbefore c hmem

theorem findSome?_of_perm {β : Type*} {g : α → Option β} {l l' : List α} (h : l.Perm l')
    (hone : l.Pairwise fun a b => g a = none ∨ g b = none) : l.findSome? g = l'.findSome? g := by
  induction h with
  | nil => rfl
  | cons a _ ih => rw [List.findSome?_cons, List.findSome?_cons, ih hone.of_cons]
  | swap a b l =>
      obtain ha | hb := (List.pairwise_cons.mp hone).1 a List.mem_cons_self
      · simp [List.findSome?_cons, ha]
      · simp [List.findSome?_cons, hb]
  | trans h₁ _ ih₁ ih₂ => exact (ih₁ hone).trans (ih₂ (hone.perm h₁ Or.symm))

/-- The last position from `low` on and below `high` with a property. -/
def lastIn? (q : Nat → Bool) (low high : Nat) : Option Nat :=
  (List.range' low (high - low)).reverse.find? q

theorem lastIn?_spec (q : Nat → Bool) (low high : Nat) :
    match lastIn? q low high with
    | some i => low ≤ i ∧ i < high ∧ q i = true ∧ ∀ j, i < j → j < high → q j = false
    | none => ∀ j, low ≤ j → j < high → q j = false := by
  unfold lastIn?
  induction hcount : high - low generalizing high with
  | zero =>
      intro j hlow hhigh
      omega
  | succ n ih =>
      have hrange : List.range' low (n + 1) = List.range' low n ++ [low + n] := by
        rw [List.range'_concat, Nat.one_mul]
      rw [hrange, List.reverse_append, List.reverse_singleton, List.singleton_append]
      by_cases hlast : q (low + n) = true
      · rw [List.find?_cons_of_pos hlast]
        exact ⟨by omega, by omega, hlast, fun j hj hhigh => by omega⟩
      · rw [List.find?_cons_of_neg hlast]
        have hrest := ih (low + n) (by omega)
        have hbefore : ∀ j, j < high → j ≠ low + n → j < low + n := by omega
        cases hfound : (List.range' low n).reverse.find? q with
        | some i =>
            rw [hfound] at hrest
            refine ⟨hrest.1, by omega, hrest.2.2.1, fun j hj hhigh => ?_⟩
            by_cases heq : j = low + n
            · simpa [heq] using hlast
            · exact hrest.2.2.2 j hj (hbefore j hhigh heq)
        | none =>
            rw [hfound] at hrest
            intro j hlow hhigh
            by_cases heq : j = low + n
            · simpa [heq] using hlast
            · exact hrest j hlow (hbefore j hhigh heq)

/-! ## The first match in every order -/

theorem find?_eq_some_of_only {x : α} (hx : x ∈ l) (hp : p x = true)
    (honly : ∀ y ∈ l, p y = true → y = x) : l.find? p = some x := by
  cases hfind : l.find? p with
  | none => exact absurd hp (List.find?_eq_none.mp hfind x hx)
  | some y => rw [honly y (List.mem_of_find?_eq_some hfind) (List.find?_some hfind)]

theorem find?_perm_iff : (∀ l' : List α, l'.Perm l → l'.find? p = l.find? p) ↔
    ∀ x ∈ l, ∀ y ∈ l, p x = true → p y = true → x = y := by
  classical
  constructor
  · intro h x hx y hy hpx hpy
    have hfirst : ∀ z ∈ l, p z = true → l.find? p = some z := by
      intro z hz hpz
      rw [← h (z :: l.erase z) (List.perm_cons_erase hz).symm, List.find?_cons_of_pos hpz]
    exact Option.some.inj ((hfirst x hx hpx).symm.trans (hfirst y hy hpy))
  · intro hunique l' hperm
    cases hfind : l.find? p with
    | none =>
        rw [List.find?_eq_none] at hfind ⊢
        exact fun x hx => hfind x (hperm.mem_iff.mp hx)
    | some x =>
        have hx := List.mem_of_find?_eq_some hfind
        have hpx := List.find?_some hfind
        exact find?_eq_some_of_only (hperm.mem_iff.mpr hx) hpx fun y hy hpy =>
          hunique y (hperm.mem_iff.mp hy) x hx hpy hpx

end FirstMatch

/-!
# Order by a key and by position

A list is in order if its keys ascend and elements with the same key stand as they came.
-/

namespace StableOrder

variable {α : Type*} {key : α → Nat} {l sorted : List α}

/-- The list is the given one, in the order of the keys and then of the positions. -/
structure Sorts (key : α → Nat) (l sorted : List α) : Prop where
  ascending : sorted.Pairwise fun x y => key x ≤ key y
  kept : ∀ k, sorted.filter (key · = k) = l.filter (key · = k)

def sortByKey (key : α → Nat) (l : List α) : List α :=
  l.mergeSort fun x y => decide (key x ≤ key y)

theorem sorts_nil (key : α → Nat) : Sorts key [] [] :=
  ⟨List.Pairwise.nil, fun _ => rfl⟩

theorem sorts_sortByKey (key : α → Nat) (l : List α) : Sorts key l (sortByKey key l) := by
  have htrans : ∀ a b c : α, decide (key a ≤ key b) = true → decide (key b ≤ key c) = true →
      decide (key a ≤ key c) = true := by
    intro a b c hab hbc
    rw [decide_eq_true_eq] at hab hbc ⊢
    exact hab.trans hbc
  have htotal : ∀ a b : α, (decide (key a ≤ key b) || decide (key b ≤ key a)) = true := by
    intro a b
    rw [Bool.or_eq_true, decide_eq_true_eq, decide_eq_true_eq]
    exact Nat.le_total _ _
  constructor
  · exact (List.pairwise_mergeSort htrans htotal l).imp fun h => of_decide_eq_true h
  · intro k
    have hsame : (l.filter (key · = k)).Pairwise fun x y => decide (key x ≤ key y) = true := by
      refine List.pairwise_of_forall_mem_list fun x hx y hy => ?_
      have hxk : key x = k := by simpa using (List.mem_filter.mp hx).2
      have hyk : key y = k := by simpa using (List.mem_filter.mp hy).2
      rw [hxk, hyk]
      exact decide_eq_true (le_refl k)
    -- the elements with the key stay a sublist, and none is added
    have hsublist : (l.filter (key · = k)).Sublist (sortByKey key l) :=
      List.sublist_mergeSort htrans htotal hsame List.filter_sublist
    have hfilter := hsublist.filter (key · = k)
    rw [List.filter_filter] at hfilter
    simp only [Bool.and_self] at hfilter
    refine (hfilter.eq_of_length ?_).symm
    exact ((List.mergeSort_perm l _).filter _).length_eq.symm

theorem sortByKey_of_ascending (h : l.Pairwise fun x y => key x ≤ key y) : sortByKey key l = l :=
  List.mergeSort_of_pairwise (h.imp fun hle => decide_eq_true hle)

theorem Sorts.push (h : Sorts key l sorted) (a : α) :
    Sorts key (l ++ [a]) (sortByKey key (sorted ++ [a])) := by
  have hsort := sorts_sortByKey key (sorted ++ [a])
  refine ⟨hsort.ascending, fun k => ?_⟩
  rw [hsort.kept, List.filter_append, List.filter_append, h.kept]

end StableOrder
