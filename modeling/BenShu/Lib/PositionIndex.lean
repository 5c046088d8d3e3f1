import BenShu.Lib.Table
import Mathlib.Data.List.Induction

/-!
# Indices of positions

An index keeps for each key the positions of the items that name it. An item that names
a key twice is entered twice.
-/

abbrev PositionIndex (κ : Type) := Table κ (List Nat)

namespace PositionIndex

variable {κ α : Type} [DecidableEq κ] {keysOf : α → List κ} {key : κ}

def entry (index : PositionIndex κ) (key : κ) : List Nat := (index.lookup key).getD []

def push (index : PositionIndex κ) (position : Nat) (key : κ) : PositionIndex κ :=
  index.insert key (index.entry key ++ [position])

def add (index : PositionIndex κ) (position : Nat) (keys : List κ) : PositionIndex κ :=
  keys.foldl (fun index key => index.push position key) index

/-- Enter items that stand one after the other from a position on. -/
def addAll (keysOf : α → List κ) (index : PositionIndex κ) (start : Nat) :
    List α → PositionIndex κ
  | [] => index
  | x :: l => addAll keysOf (index.add start (keysOf x)) (start + 1) l

def sorted (index : PositionIndex κ) : PositionIndex κ :=
  index.keys.foldl (fun t key => t.insert key ((index.entry key).mergeSort (· ≤ ·))) index

/-- The items at some positions, if all are there. -/
def fetch (l : List α) : List Nat → Option (List α)
  | [] => some []
  | i :: rest => do
      let x ← l[i]?
      let xs ← fetch l rest
      some (x :: xs)

/-! ## What an index holds -/

/-- The positions of the items, each as often as the item names the key. -/
def occurrences (keysOf : α → List κ) (key : κ) (start : Nat) : List α → List Nat
  | [] => []
  | x :: l => List.replicate ((keysOf x).count key) start ++
      occurrences keysOf key (start + 1) l

/-- The positions of the items that name the key, in increasing order. -/
def positions (keysOf : α → List κ) (key : κ) (l : List α) : List Nat :=
  (List.range l.length).filter fun i => (l[i]?).any fun x => decide (key ∈ keysOf x)

theorem entry_push (index : PositionIndex κ) (position : Nat) (key' : κ) :
    (index.push position key').entry key =
      index.entry key ++ if key = key' then [position] else [] := by
  unfold push entry
  rw [Table.lookup_insert]
  split
  · rename_i heq
    subst heq
    rfl
  · rw [List.append_nil]

theorem entry_add (index : PositionIndex κ) (position : Nat) (keys : List κ) :
    (index.add position keys).entry key =
      index.entry key ++ List.replicate (keys.count key) position := by
  induction keys generalizing index with
  | nil => simp [add]
  | cons key' keys ih =>
      show ((index.push position key').add position keys).entry key = _
      rw [ih, entry_push, List.append_assoc]
      congr 1
      by_cases heq : key = key'
      · subst heq
        rw [if_pos rfl, List.count_cons_self, List.replicate_succ]
        rfl
      · rw [if_neg heq, List.count_cons_of_ne fun h => heq h.symm]
        rfl

theorem entry_addAll (index : PositionIndex κ) (start : Nat) (l : List α) :
    (index.addAll keysOf start l).entry key =
      index.entry key ++ occurrences keysOf key start l := by
  induction l generalizing index start with
  | nil => simp [addAll, occurrences]
  | cons x l ih => rw [addAll, ih, entry_add, occurrences, List.append_assoc]

theorem occurrences_append (start : Nat) (l m : List α) :
    occurrences keysOf key start (l ++ m) =
      occurrences keysOf key start l ++ occurrences keysOf key (start + l.length) m := by
  induction l generalizing start with
  | nil => simp [occurrences]
  | cons x l ih =>
      rw [List.cons_append, occurrences, occurrences, ih, List.append_assoc, List.length_cons,
        Nat.add_right_comm, Nat.add_assoc]

theorem occurrences_ge {start : Nat} {l : List α} :
    ∀ i ∈ occurrences keysOf key start l, start ≤ i := by
  induction l generalizing start with
  | nil => simp [occurrences]
  | cons x l ih =>
      intro i hi
      rcases List.mem_append.mp hi with hfirst | hrest
      · rw [(List.mem_replicate.mp hfirst).2]
      · exact Nat.le_of_succ_le (ih i hrest)

theorem occurrences_sorted (start : Nat) (l : List α) :
    (occurrences keysOf key start l).Pairwise (· ≤ ·) := by
  induction l generalizing start with
  | nil => simp [occurrences]
  | cons x l ih =>
      rw [occurrences, List.pairwise_append]
      refine ⟨List.pairwise_replicate.mpr (.inr (Nat.le_refl _)), ih (start + 1), ?_⟩
      intro i hi j hj
      rw [(List.mem_replicate.mp hi).2]
      exact Nat.le_of_succ_le (occurrences_ge j hj)

theorem entry_sorted (index : PositionIndex κ) (key : κ) :
    index.sorted.entry key = (index.entry key).mergeSort (· ≤ ·) := by
  have hlookup : ∀ (keys : List κ) (t : PositionIndex κ),
      (keys.foldl (fun t key => t.insert key ((index.entry key).mergeSort (· ≤ ·))) t).lookup key =
        if key ∈ keys then some ((index.entry key).mergeSort (· ≤ ·)) else t.lookup key := by
    intro keys
    induction keys with
    | nil => simp
    | cons key' keys ih =>
        intro t
        rw [List.foldl_cons, ih, Table.lookup_insert]
        by_cases heq : key = key'
        · simp [heq]
        · simp [heq]
  unfold sorted
  rw [entry, hlookup]
  split
  · rfl
  · rename_i hmem
    have hnone : index.lookup key = none :=
      AList.lookup_eq_none.mpr fun h => hmem (AList.mem_keys.mp h)
    rw [entry, hnone, Option.getD_none, List.mergeSort_nil]

theorem entry_sorted_of_pairwise {index : PositionIndex κ}
    (h : (index.entry key).Pairwise (· ≤ ·)) : index.sorted.entry key = index.entry key := by
  rw [entry_sorted]
  exact List.mergeSort_of_pairwise (h.imp fun hle => decide_eq_true hle)

/-! ## Exact positions -/

theorem positions_snoc (l : List α) (x : α) :
    positions keysOf key (l ++ [x]) =
      positions keysOf key l ++ if key ∈ keysOf x then [l.length] else [] := by
  unfold positions
  rw [List.length_append, List.length_singleton, List.range_succ, List.filter_append]
  congr 1
  · apply List.filter_congr
    intro i hi
    rw [List.getElem?_append_left (List.mem_range.mp hi)]
  · rw [List.filter_singleton]
    simp

theorem occurrences_snoc (l : List α) (x : α) :
    occurrences keysOf key 0 (l ++ [x]) =
      occurrences keysOf key 0 l ++ List.replicate ((keysOf x).count key) l.length := by
  rw [occurrences_append, Nat.zero_add, occurrences, occurrences, List.append_nil]

theorem positions_nodup (l : List α) : (positions keysOf key l).Nodup :=
  List.nodup_range.filter _

theorem count_le_one_of_nodup {start : Nat} {l : List α}
    (h : (occurrences keysOf key start l).Nodup) : ∀ x ∈ l, (keysOf x).count key ≤ 1 := by
  induction l generalizing start with
  | nil => simp
  | cons y l ih =>
      rw [occurrences, List.nodup_append] at h
      intro x hx
      rcases List.mem_cons.mp hx with hfirst | hrest
      · rw [hfirst]
        exact List.nodup_replicate.mp h.1
      · exact ih h.2.1 x hrest

theorem occurrences_eq_positions_iff (l : List α) :
    occurrences keysOf key 0 l = positions keysOf key l ↔
      ∀ x ∈ l, (keysOf x).count key ≤ 1 := by
  constructor
  · intro h
    have hnodup : (occurrences keysOf key 0 l).Nodup := by
      rw [h]
      exact positions_nodup l
    exact count_le_one_of_nodup hnodup
  · intro h
    induction l using List.reverseRecOn with
    | nil => rfl
    | append_singleton l x ih =>
        rw [occurrences_snoc, positions_snoc, ih fun y hy => h y (List.mem_append_left _ hy)]
        congr 1
        have hcount := h x (by simp)
        split
        · rename_i hmem
          have hpos := List.count_pos_iff.mpr hmem
          rw [show (keysOf x).count key = 1 by omega]
          rfl
        · rename_i hmem
          rw [List.count_eq_zero_of_not_mem hmem]
          rfl

/-! ## Items at positions -/

theorem fetch_append (l : List α) (a b : List Nat) :
    fetch l (a ++ b) = (fetch l a).bind fun xs => (fetch l b).map fun ys => xs ++ ys := by
  induction a with
  | nil => simp [fetch]
  | cons i a ih =>
      rw [List.cons_append, fetch, fetch, ih]
      cases l[i]? with
      | none => rfl
      | some x =>
          cases fetch l a with
          | none => rfl
          | some xs => cases fetch l b <;> rfl

theorem fetch_snoc {l : List α} {a : List Nat} (h : ∀ i ∈ a, i < l.length) (x : α) :
    fetch (l ++ [x]) a = fetch l a := by
  induction a with
  | nil => rfl
  | cons i a ih =>
      rw [fetch, fetch, ih fun j hj => h j (List.mem_cons_of_mem _ hj),
        List.getElem?_append_left (h i List.mem_cons_self)]

theorem lt_of_mem_positions {l : List α} {i : Nat} (h : i ∈ positions keysOf key l) :
    i < l.length := List.mem_range.mp (List.mem_filter.mp h).1

theorem fetch_positions (l : List α) :
    fetch l (positions keysOf key l) = some (l.filter fun x => key ∈ keysOf x) := by
  induction l using List.reverseRecOn with
  | nil => rfl
  | append_singleton l x ih =>
      rw [positions_snoc, fetch_append, fetch_snoc (fun i hi => lt_of_mem_positions hi), ih,
        List.filter_append]
      by_cases hmem : key ∈ keysOf x
      · simp [hmem, fetch]
      · simp [hmem, fetch]

end PositionIndex
