import Mathlib.Data.List.Basic

/-!
# The most recent entries of a log

Counts in the last `n` entries, for logs that are built from blocks.
-/

namespace RecentWindow

variable {α : Type}

def recent (n : Nat) (l : List α) : List α := l.drop (l.length - n)

variable {l : List α} {n : Nat}

theorem recent_append_of_le {pre : List α} (h : n ≤ l.length) :
    recent n (pre ++ l) = recent n l := by
  rw [recent, recent, List.length_append, Nat.add_sub_assoc h, List.drop_append]
  simp

theorem recent_append_of_ge {pre : List α} (h : l.length ≤ n) :
    recent n (pre ++ l) = recent (n - l.length) pre ++ l := by
  have hdrop : (pre ++ l).length - n = pre.length - (n - l.length) := by
    rw [List.length_append]
    omega
  rw [recent, recent, hdrop, List.drop_append_of_le_length (Nat.sub_le _ _)]

theorem recent_recent (limit n : Nat) (l : List α) :
    recent limit (recent n l) = recent (min limit n) l := by
  unfold recent
  rw [List.length_drop, List.drop_drop]
  congr 1
  omega

@[simp] theorem recent_nil (n : Nat) : recent n ([] : List α) = [] := List.drop_nil

@[simp] theorem recent_zero (l : List α) : recent 0 l = [] := List.drop_length

theorem length_recent (n : Nat) (l : List α) : (recent n l).length = min n l.length := by
  rw [recent, List.length_drop]
  omega

theorem length_recent_le (n : Nat) (l : List α) : (recent n l).length ≤ n := by
  rw [length_recent]
  exact Nat.min_le_left _ _

theorem recent_of_length_le (h : l.length ≤ n) : recent n l = l := by
  rw [recent, Nat.sub_eq_zero_of_le h, List.drop_zero]

theorem recent_eq_nil_iff : recent n l = [] ↔ n = 0 ∨ l = [] := by
  rw [← List.length_eq_zero_iff, length_recent, ← List.length_eq_zero_iff (l := l)]
  omega

theorem recent_recent_append (n : Nat) (l added : List α) :
    recent n (recent n l ++ added) = recent n (l ++ added) := by
  rcases Nat.le_total n added.length with hle | hge
  · rw [recent_append_of_le hle, recent_append_of_le hle]
  · rw [recent_append_of_ge hge, recent_append_of_ge hge, recent_recent,
      Nat.min_eq_left (Nat.sub_le n _)]

/-! ## A window that is kept up -/

def push (n : Nat) (window : List α) (x : α) : List α :=
  (if window.length ≥ n then window.tail else window) ++ [x]

theorem push_recent (hn : 0 < n) (l : List α) (x : α) :
    push n (recent n l) x = recent n (l ++ [x]) := by
  have hlength := length_recent n l
  have htail : (if (recent n l).length ≥ n then (recent n l).tail else recent n l) =
      recent (n - 1) l := by
    unfold recent at *
    split_ifs
    · rw [List.tail_drop]
      congr 1
      omega
    · congr 1
      omega
  rw [push, htail, recent_append_of_ge (l := [x]) (Nat.succ_le_of_lt hn)]
  rfl

theorem foldl_push_recent (hn : 0 < n) (l added : List α) :
    added.foldl (push n) (recent n l) = recent n (l ++ added) := by
  induction added generalizing l with
  | nil => rw [List.foldl_nil, List.append_nil]
  | cons x added ih =>
      rw [List.foldl_cons, push_recent hn, ih, List.append_assoc, List.singleton_append]

theorem getLast?_recent (hn : 0 < n) (l : List α) : (recent n l).getLast? = l.getLast? := by
  rcases List.eq_nil_or_concat l with rfl | ⟨front, x, rfl⟩
  · rw [recent_nil]
  · rw [List.concat_eq_append, recent_append_of_ge (l := [x]) (Nat.succ_le_of_lt hn)]
    simp

theorem dropLast_recent_iff (hn : 0 < n) (l : List α) :
    (recent n l).dropLast = recent n l.dropLast ↔ l.length ≤ n := by
  constructor
  · intro h
    have hlength := congrArg List.length h
    rw [List.length_dropLast, length_recent, length_recent, List.length_dropLast] at hlength
    omega
  · intro h
    rw [recent_of_length_le h, recent_of_length_le (by rw [List.length_dropLast]; omega)]

@[simp] theorem recent_map {β : Type} (n : Nat) (f : α → β) (l : List α) :
    recent n (l.map f) = (recent n l).map f := by
  rw [recent, recent, List.length_map, List.map_drop]

/-- A window over what is kept begins with what is kept from before the window. -/
theorem recent_filter (n : Nat) (l : List α) (p : α → Bool) :
    recent n (l.filter p) =
      recent (n - ((recent n l).filter p).length) ((l.take (l.length - n)).filter p) ++
        (recent n l).filter p := by
  have hsplit : l = l.take (l.length - n) ++ recent n l := (List.take_append_drop _ l).symm
  have hfilter : l.filter p = (l.take (l.length - n)).filter p ++ (recent n l).filter p := by
    rw [← List.filter_append, ← hsplit]
  have hshort : ((recent n l).filter p).length ≤ n :=
    Nat.le_trans (List.length_filter_le p _) (length_recent_le n l)
  rw [hfilter, recent_append_of_ge hshort]

/-- Filtering a window is filtering the whole when the window loses nothing or what it
leaves out is lost. -/
theorem filter_recent_iff (l : List α) (p : α → Bool) :
    (recent n l).filter p = recent n (l.filter p) ↔
      (∀ x ∈ recent n l, p x = true) ∨ ∀ x ∈ l.take (l.length - n), p x = false := by
  rw [recent_filter]
  constructor
  · intro h
    have hnone : recent (n - ((recent n l).filter p).length) ((l.take (l.length - n)).filter p) =
        [] := List.self_eq_append_left.mp h
    rcases recent_eq_nil_iff.mp hnone with hfull | hempty
    · left
      have hlength := length_recent n l
      exact List.length_filter_eq_length_iff.mp
        (Nat.le_antisymm (List.length_filter_le p _) (by omega))
    · right
      simpa using hempty
  · rintro (hall | hnone)
    · rw [List.filter_eq_self.mpr hall]
      rcases Nat.le_total n l.length with hle | hge
      · have hfull : (recent n l).length = n := by rw [length_recent]; omega
        rw [hfull, Nat.sub_self, recent_zero, List.nil_append]
      · rw [Nat.sub_eq_zero_of_le hge, List.take_zero, List.filter_nil, recent_nil, List.nil_append]
    · have hempty : (l.take (l.length - n)).filter p = [] := by simpa using hnone
      rw [hempty, recent_nil, List.nil_append]

theorem map_filter_recent_iff {β : Type} (n : Nat) (l : List α) (p : α → Bool) (f : α → β) :
    ((recent n l).filter p).map f = (recent n (l.filter p)).map f ↔
      (recent n l).filter p = recent n (l.filter p) := by
  refine ⟨fun h => ?_, congrArg _⟩
  rw [recent_filter] at h ⊢
  rw [List.map_append] at h
  have hnone := List.map_eq_nil_iff.mp (List.self_eq_append_left.mp h)
  rw [hnone, List.nil_append]

theorem count_recent_le [BEq α] (n : Nat) (l : List α) (x : α) :
    (recent n l).count x ≤ l.count x :=
  (List.drop_sublist _ _).count_le x

variable [BEq α] [LawfulBEq α]

theorem count_recent_of_notMem {x : α} (h : x ∉ l) : (recent n l).count x = 0 :=
  List.count_eq_zero.mpr fun hx => h (List.mem_of_mem_drop hx)

theorem count_recent_append_of_notMem {pre : List α} {x : α} (h : x ∉ pre) :
    (recent n (pre ++ l)).count x = (recent n l).count x := by
  rcases Nat.le_total n l.length with hle | hge
  · rw [recent_append_of_le hle]
  · have hall : recent n l = l := by
      rw [recent, Nat.sub_eq_zero_of_le hge, List.drop_zero]
    rw [recent_append_of_ge hge, List.count_append, count_recent_of_notMem h, hall,
      Nat.zero_add]

theorem count_recent_replicate {m : Nat} {x : α} (h : x ∉ l) :
    (recent n (List.replicate m x ++ l)).count x = min m (n - l.length) := by
  rcases Nat.le_total n l.length with hle | hge
  · rw [recent_append_of_le hle, count_recent_of_notMem h]
    omega
  · rw [recent_append_of_ge hge, List.count_append, List.count_eq_zero.mpr h, recent,
      List.drop_replicate, List.count_replicate_self, List.length_replicate]
    omega

end RecentWindow

/-!
# Counting in a sliding window

Times are kept in a list from which those that have left the window are dropped. As
long as the clock does not run backwards, what is dropped is in no later window.
-/

namespace SlidingWindow

variable {window latest now start : Nat} {times passed : List Nat}

def prune (window now : Nat) (times : List Nat) : List Nat :=
  times.filter fun time => decide (now - time ≤ window)

theorem prune_prune {later : Nat} (h : now ≤ later) (times : List Nat) :
    prune window later (prune window now times) = prune window later times := by
  unfold prune
  rw [List.filter_filter]
  apply List.filter_congr
  intro time _
  simp only [Bool.and_eq_decide, decide_eq_decide, decide_eq_true_eq]
  omega

theorem prune_snoc (times : List Nat) (time : Nat) :
    prune window now (times ++ [time]) =
      prune window now times ++ if now - time ≤ window then [time] else [] := by
  unfold prune
  rw [List.filter_append, List.filter_singleton]
  by_cases h : now - time ≤ window <;> simp only [h, decide_true, decide_false] <;> rfl

/-- In every window that ends later, at least as many times are kept as have passed. -/
def Covers (window latest : Nat) (times passed : List Nat) : Prop :=
  ∀ now, latest ≤ now → (prune window now passed).length ≤ (prune window now times).length

theorem Covers.nil : Covers window latest [] [] := fun _ _ => Nat.le_refl _

theorem Covers.later {latest' : Nat} (h : Covers window latest times passed)
    (hle : latest ≤ latest') : Covers window latest' times passed :=
  fun now hnow => h now (Nat.le_trans hle hnow)

theorem Covers.pruned (h : Covers window latest times passed) (hnow : latest ≤ now) :
    Covers window now (prune window now times) passed := by
  intro later hlater
  rw [prune_prune hlater]
  exact h later (Nat.le_trans hnow hlater)

theorem Covers.push (h : Covers window latest times passed) (time : Nat) :
    Covers window latest (times ++ [time]) (passed ++ [time]) := by
  intro now hnow
  have hle := h now hnow
  rw [prune_snoc, prune_snoc, List.length_append, List.length_append]
  omega

theorem Covers.keep (h : Covers window latest times passed) (time : Nat) :
    Covers window latest (times ++ [time]) passed := by
  intro now hnow
  have hle := h now hnow
  rw [prune_snoc, List.length_append]
  omega

theorem Covers.length_le (h : Covers window latest times passed) (hlatest : latest ≤ now)
    (hnow : now ≤ start + window) :
    (passed.filter fun time => decide (start ≤ time)).length ≤
      (prune window now times).length := by
  refine Nat.le_trans (List.Sublist.length_le ?_) (h now hlatest)
  unfold prune
  apply List.monotone_filter_right
  intro time hstart
  simp only [decide_eq_true_eq] at hstart ⊢
  omega

end SlidingWindow
