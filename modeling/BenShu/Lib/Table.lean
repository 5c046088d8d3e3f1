import Mathlib.Algebra.GroupWithZero.Nat
import Mathlib.Data.List.AList

/-!
# Finite tables

A table is an association list without duplicate keys. What is counted over a
table follows its insertions and deletions.
-/

abbrev Table (α β : Type) := AList fun _ : α => β

namespace Table

variable {α β : Type}

def size (t : Table α β) : Nat := t.entries.length

def total (f : β → Nat) (t : Table α β) : Nat := (t.entries.map fun entry => f entry.2).sum

theorem total_empty (f : β → Nat) : total f (∅ : Table α β) = 0 := rfl

theorem size_eq_total (t : Table α β) : size t = total (fun _ => 1) t := by
  simp [size, total]

theorem mem_of_size_eq {γ : Type} {t : Table α β} {t' : Table α γ} (hsize : t'.size = t.size)
    (hsub : ∀ a, a ∈ t → a ∈ t') {a : α} (ha : a ∈ t') : a ∈ t := by
  have hsubperm : t.keys.Subperm t'.keys :=
    List.subperm_of_subset t.keys_nodup fun a ha => hsub a ha
  have hlength : t'.keys.length ≤ t.keys.length := by
    unfold size at hsize
    rw [AList.keys, AList.keys, List.keys, List.keys, List.length_map, List.length_map, hsize]
  exact (hsubperm.perm_of_length_le hlength).mem_iff.mpr ha

variable [DecidableEq α]

theorem total_insert (f : β → Nat) (t : Table α β) (a : α) (b : β) :
    total f (t.insert a b) = f b + total f (t.erase a) := by
  have herase : (t.erase a).entries = t.entries.kerase a := rfl
  simp [total, AList.entries_insert, herase]

theorem sum_kerase (f : β → Nat) (l : List (Sigma fun _ : α => β)) (a : α) :
    (l.map fun entry => f entry.2).sum =
      ((l.kerase a).map fun entry => f entry.2).sum + ((l.dlookup a).map f).getD 0 := by
  induction l with
  | nil => rfl
  | cons entry l ih =>
      by_cases h : a = entry.1
      · rw [List.kerase_cons_eq h]
        subst h
        rw [List.dlookup_cons_eq]
        simp [Nat.add_comm]
      · rw [List.kerase_cons_ne h, List.dlookup_cons_ne l entry h]
        simp only [List.map_cons, List.sum_cons]
        omega

theorem total_erase (f : β → Nat) (t : Table α β) (a : α) :
    total f t = total f (t.erase a) + ((t.lookup a).map f).getD 0 :=
  sum_kerase f t.entries a

theorem size_insert (t : Table α β) (a : α) (b : β) :
    size (t.insert a b) = size (t.erase a) + 1 := by
  rw [size_eq_total, total_insert, size_eq_total, Nat.add_comm]

theorem size_erase (t : Table α β) (a : α) :
    size t = size (t.erase a) + if (t.lookup a).isSome then 1 else 0 := by
  rw [size_eq_total, total_erase _ _ a, size_eq_total]
  cases t.lookup a <;> rfl

theorem mem_entries_iff {t : Table α β} {a : α} {b : β} :
    (⟨a, b⟩ : Sigma fun _ : α => β) ∈ t.entries ↔ t.lookup a = some b :=
  AList.mem_lookup_iff.symm

theorem mem_keys_iff {t : Table α β} {a : α} : a ∈ t.keys ↔ ∃ b, t.lookup a = some b := by
  rw [← AList.mem_keys, ← AList.lookup_isSome, Option.isSome_iff_exists]

def ofList (pairs : List (α × β)) : Table α β :=
  pairs.foldl (fun t pair => t.insert pair.1 pair.2) ∅

theorem lookup_insert (t : Table α β) (a a' : α) (b : β) :
    (t.insert a b).lookup a' = if a' = a then some b else t.lookup a' := by
  by_cases h : a' = a
  · rw [if_pos h, h, AList.lookup_insert]
  · rw [if_neg h, AList.lookup_insert_ne h]

theorem lookup_erase (t : Table α β) (a a' : α) :
    (t.erase a).lookup a' = if a' = a then none else t.lookup a' := by
  by_cases h : a' = a
  · rw [if_pos h, h, AList.lookup_erase]
  · rw [if_neg h, AList.lookup_erase_ne h]

theorem lookup_union (t t' : Table α β) (a : α) :
    (t ∪ t').lookup a = (t.lookup a).or (t'.lookup a) := by
  by_cases h : a ∈ t
  · obtain ⟨b, hb⟩ := Option.isSome_iff_exists.mp (AList.lookup_isSome.mpr h)
    rw [AList.lookup_union_left h, hb, Option.some_or]
  · rw [AList.lookup_union_right h, AList.lookup_eq_none.mpr h, Option.none_or]

theorem lookup_foldl_erase (t : Table α β) (keys : List α) (a : α) :
    (keys.foldl (fun t key => t.erase key) t).lookup a =
      if a ∈ keys then none else t.lookup a := by
  induction keys generalizing t with
  | nil => simp
  | cons key keys ih =>
      rw [List.foldl_cons, ih, lookup_erase]
      by_cases hkey : a = key
      · simp [hkey]
      · simp [hkey]

theorem lookup_foldl_insert_of_notMem (t : Table α β) (entries : List (α × β)) {a : α}
    (ha : a ∉ entries.map Prod.fst) :
    (entries.foldl (fun t entry => t.insert entry.1 entry.2) t).lookup a = t.lookup a := by
  induction entries generalizing t with
  | nil => rfl
  | cons entry entries ih =>
      rw [List.map_cons, List.mem_cons, not_or] at ha
      rw [List.foldl_cons, ih _ ha.2, lookup_insert, if_neg ha.1]

theorem lookup_foldl_insert_of_mem (t : Table α β) {entries : List (α × β)}
    (hnodup : (entries.map Prod.fst).Nodup) {entry : α × β} (hentry : entry ∈ entries) :
    (entries.foldl (fun t entry => t.insert entry.1 entry.2) t).lookup entry.1 = some entry.2 := by
  induction entries generalizing t with
  | nil => cases hentry
  | cons first entries ih =>
      rw [List.map_cons, List.nodup_cons] at hnodup
      rw [List.foldl_cons]
      rcases List.mem_cons.mp hentry with rfl | hrest
      · rw [lookup_foldl_insert_of_notMem _ _ hnodup.1, lookup_insert, if_pos rfl]
      · exact ih _ hnodup.2 hrest

/-- Entries change nothing exactly when they are all there. -/
theorem lookup_foldl_insert_same_iff (t : Table α β) {entries : List (α × β)}
    (hnodup : (entries.map Prod.fst).Nodup) :
    (∀ a, (entries.foldl (fun t entry => t.insert entry.1 entry.2) t).lookup a = t.lookup a) ↔
      ∀ entry ∈ entries, t.lookup entry.1 = some entry.2 := by
  constructor
  · intro hsame entry hentry
    rw [← hsame, lookup_foldl_insert_of_mem t hnodup hentry]
  · intro hall a
    by_cases ha : a ∈ entries.map Prod.fst
    · obtain ⟨entry, hentry, rfl⟩ := List.mem_map.mp ha
      rw [lookup_foldl_insert_of_mem t hnodup hentry, hall entry hentry]
    · exact lookup_foldl_insert_of_notMem t entries ha

theorem filterMap_entries {γ : Type} (f : β → γ) (t : Table α β) (a : α) :
    (t.entries.filterMap fun entry => if entry.1 = a then some (f entry.2) else none) =
      ((t.lookup a).map f).toList := by
  rcases t with ⟨l, hnodup⟩
  show (l.filterMap fun entry => if entry.1 = a then some (f entry.2) else none) =
    ((l.dlookup a).map f).toList
  induction l with
  | nil => rfl
  | cons entry l ih =>
      rcases List.nodupKeys_cons.mp hnodup with ⟨hfirst, hrest⟩
      by_cases h : a = entry.1
      · subst h
        have hnone : l.dlookup entry.1 = none := List.dlookup_eq_none.mpr hfirst
        rw [List.filterMap_cons, if_pos rfl, List.dlookup_cons_eq, ih hrest, hnone]
        rfl
      · rw [List.filterMap_cons, if_neg fun heq => h heq.symm, List.dlookup_cons_ne l entry h,
          ih hrest]

def collect {γ : Type} (f : β → Option γ) (t : Table α β) : Table α γ :=
  t.entries.foldl (fun collected entry => (f entry.2).elim collected (collected.insert entry.1)) ∅

theorem lookup_foldl_collect {γ : Type} (f : β → Option γ) (l : List (Sigma fun _ : α => β))
    (hnodup : l.NodupKeys) (collected : Table α γ) (hfresh : ∀ a ∈ l.keys, a ∉ collected) (a : α) :
    (l.foldl (fun collected entry => (f entry.2).elim collected (collected.insert entry.1))
      collected).lookup a = ((l.dlookup a).bind f).or (collected.lookup a) := by
  induction l generalizing collected with
  | nil => rfl
  | cons entry l ih =>
      rcases List.nodupKeys_cons.mp hnodup with ⟨hfirst, hrest⟩
      have hnone : collected.lookup entry.1 = none :=
        AList.lookup_eq_none.mpr (hfresh entry.1 (by simp [List.keys]))
      have hlater : ∀ a ∈ l.keys, a ∉ collected := fun a ha =>
        hfresh a (by rw [List.keys_cons]; exact List.mem_cons_of_mem _ ha)
      rw [List.foldl_cons]
      cases hvalue : f entry.2 with
      | none =>
          rw [Option.elim_none, ih hrest collected hlater]
          by_cases h : a = entry.1
          · rw [h, List.dlookup_cons_eq, List.dlookup_eq_none.mpr hfirst, hnone]
            simp [hvalue]
          · rw [List.dlookup_cons_ne l entry h]
      | some value =>
          have hlater' : ∀ a ∈ l.keys, a ∉ collected.insert entry.1 value := fun a ha hmem => by
            rcases AList.mem_insert collected |>.mp hmem with heq | hmem
            · exact hfirst (heq ▸ ha)
            · exact hlater a ha hmem
          rw [Option.elim_some, ih hrest _ hlater', lookup_insert]
          by_cases h : a = entry.1
          · rw [if_pos h, h, List.dlookup_cons_eq, List.dlookup_eq_none.mpr hfirst]
            simp [hvalue]
          · rw [if_neg h, List.dlookup_cons_ne l entry h]

theorem lookup_collect {γ : Type} (f : β → Option γ) (t : Table α β) (a : α) :
    (collect f t).lookup a = (t.lookup a).bind f := by
  have hlookup := lookup_foldl_collect f t.entries t.nodupKeys ∅ (fun _ _ => AList.notMem_empty _) a
  rw [AList.lookup_empty, Option.or_none] at hlookup
  exact hlookup

end Table
