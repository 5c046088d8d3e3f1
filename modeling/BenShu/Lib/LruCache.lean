import Mathlib.Data.List.Basic

/-!
# Least recently used caches

The entries are kept most recent first; a full cache drops its last entry. What
every entry satisfies is kept by each operation.
-/

structure LruCache (α β : Type) where
  capacity : Nat
  entries : List (α × β) := []

namespace LruCache

variable {α β : Type}

def Holds (cache : LruCache α β) (P : α → β → Prop) : Prop :=
  ∀ entry ∈ cache.entries, P entry.1 entry.2

variable {cache : LruCache α β} {P : α → β → Prop}

theorem Holds.mono {Q : α → β → Prop} (h : cache.Holds P)
    (hPQ : ∀ entry ∈ cache.entries, P entry.1 entry.2 → Q entry.1 entry.2) : cache.Holds Q :=
  fun entry he => hPQ entry he (h entry he)

variable [BEq α]

def pop (cache : LruCache α β) (key : α) : LruCache α β :=
  { cache with entries := cache.entries.filter fun entry => !(entry.1 == key) }

def put (cache : LruCache α β) (key : α) (value : β) : LruCache α β :=
  { cache with entries := ((key, value) :: (cache.pop key).entries).take cache.capacity }

/-- A hit becomes the most recent entry. -/
def get (cache : LruCache α β) (key : α) : Option β × LruCache α β :=
  match cache.entries.find? fun entry => entry.1 == key with
  | some entry => (some entry.2, { cache with entries := entry :: (cache.pop key).entries })
  | none => (none, cache)

variable [LawfulBEq α]

theorem mem_pop {key : α} {entry : α × β} :
    entry ∈ (cache.pop key).entries ↔ entry ∈ cache.entries ∧ entry.1 ≠ key := by
  simp [pop]

theorem Holds.pop (h : cache.Holds P) (key : α) : (cache.pop key).Holds P :=
  fun entry he => h entry (mem_pop.mp he).1

theorem Holds.put (h : cache.Holds P) {key : α} {value : β} (hvalue : P key value) :
    (cache.put key value).Holds P := by
  intro entry he
  have hmem := List.mem_of_mem_take he
  rcases List.mem_cons.mp hmem with rfl | hmem
  · exact hvalue
  · exact h.pop key entry hmem

theorem Holds.get (h : cache.Holds P) (key : α) :
    (cache.get key).2.Holds P ∧ ∀ value, (cache.get key).1 = some value → P key value := by
  unfold LruCache.get
  cases hfound : cache.entries.find? fun entry => entry.1 == key with
  | none => exact ⟨h, by simp⟩
  | some entry =>
      have hmem := List.mem_of_find?_eq_some hfound
      have hkey : entry.1 = key := by simpa using List.find?_some hfound
      constructor
      · intro entry' he
        rcases List.mem_cons.mp he with rfl | he
        · exact h entry' hmem
        · exact h.pop key entry' he
      · intro value hvalue
        cases hvalue
        exact hkey ▸ h entry hmem

omit [LawfulBEq α] in
theorem get_fst (cache : LruCache α β) (key : α) :
    (cache.get key).1 = (cache.entries.find? fun entry => entry.1 == key).map (·.2) := by
  unfold LruCache.get
  cases cache.entries.find? fun entry => entry.1 == key with
  | none => rfl
  | some entry => rfl

theorem get_pop_self (cache : LruCache α β) (key : α) : ((cache.pop key).get key).1 = none := by
  have hnone : (cache.pop key).entries.find? (fun entry => entry.1 == key) = none := by
    rw [List.find?_eq_none]
    intro entry hentry
    simpa using (mem_pop.mp hentry).2
  rw [get_fst, hnone]
  rfl

theorem get_pop_ne (cache : LruCache α β) {key other : α} (h : other ≠ key) :
    ((cache.pop key).get other).1 = (cache.get other).1 := by
  rw [get_fst, get_fst, pop]
  dsimp only
  rw [List.find?_filter]
  congr 2
  funext entry
  by_cases hentry : entry.1 = other
  · simp [hentry, h]
  · simp [hentry]

omit [LawfulBEq α] in
theorem find?_put {key other : α} {value found : β}
    (h : ((cache.put key value).get other).1 = some found) :
    ∃ entry, ((key, value) :: (cache.pop key).entries).find? (fun entry => entry.1 == other) =
      some entry ∧ entry.2 = found := by
  rw [get_fst, put, Option.map_eq_some_iff] at h
  obtain ⟨entry, hentry, hfound⟩ := h
  exact ⟨entry, (List.take_prefix _ _).find?_eq_some hentry, hfound⟩

theorem get_put_self {key : α} {value found : β}
    (h : ((cache.put key value).get key).1 = some found) : found = value := by
  obtain ⟨entry, hentry, rfl⟩ := find?_put h
  rw [List.find?_cons_of_pos (by simp)] at hentry
  cases hentry
  rfl

theorem get_put_ne {key other : α} {value found : β} (hne : other ≠ key)
    (h : ((cache.put key value).get other).1 = some found) : (cache.get other).1 = some found := by
  obtain ⟨entry, hentry, rfl⟩ := find?_put h
  rw [List.find?_cons_of_neg (by simpa using fun heq => hne heq.symm)] at hentry
  rw [← cache.get_pop_ne hne, get_fst, hentry]
  rfl

theorem get_get (cache : LruCache α β) (key other : α) :
    ((cache.get key).2.get other).1 = (cache.get other).1 := by
  unfold get
  cases hfound : cache.entries.find? fun entry => entry.1 == key with
  | none => rfl
  | some entry =>
      have hentry : entry.1 = key := by simpa using List.find?_some hfound
      show (LruCache.get { cache with entries := entry :: (cache.pop key).entries } other).1 =
        (cache.get other).1
      rw [get_fst]
      dsimp only
      by_cases hkey : other = key
      · rw [List.find?_cons_of_pos (by simp [hentry, hkey]), get_fst, hkey, hfound]
      · rw [List.find?_cons_of_neg (by simpa [hentry] using fun heq => hkey heq.symm)]
        have hpop := cache.get_pop_ne hkey
        rwa [get_fst] at hpop

end LruCache
