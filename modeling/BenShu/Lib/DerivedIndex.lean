import BenShu.Lib.Table
import Mathlib.Data.List.Dedup
import Mathlib.Data.List.Nodup

/-!
# Indexes that are derived from a table

The values of a table carry their key and have entries in an index. Taking the entries of
the old value out before those of the new one are put in keeps the index exact, where no
entry belongs to two keys.
-/

namespace DerivedIndex

variable {κ β χ : Type} [DecidableEq χ]

def insertAll (index : Table χ κ) (entries : List χ) (k : κ) : Table χ κ :=
  entries.foldl (fun index entry => index.insert entry k) index

def eraseAll (index : Table χ κ) (entries : List χ) : Table χ κ :=
  entries.foldl (fun index entry => index.erase entry) index

theorem lookup_insertAll (index : Table χ κ) (entries : List χ) (k : κ) (x : χ) :
    (insertAll index entries k).lookup x = if x ∈ entries then some k else index.lookup x := by
  unfold insertAll
  induction entries generalizing index with
  | nil => simp
  | cons entry entries ih =>
      rw [List.foldl_cons, ih, Table.lookup_insert]
      by_cases hrest : x ∈ entries
      · simp [hrest]
      · by_cases hfirst : x = entry <;> simp [hrest, hfirst]

theorem lookup_eraseAll (index : Table χ κ) (entries : List χ) (x : χ) :
    (eraseAll index entries).lookup x = if x ∈ entries then none else index.lookup x :=
  Table.lookup_foldl_erase index entries x

variable [DecidableEq κ]

def Exact (entriesOf : β → List χ) (t : Table κ β) (index : Table χ κ) : Prop :=
  ∀ x k, index.lookup x = some k ↔ ∃ b, t.lookup k = some b ∧ x ∈ entriesOf b

def Keyed (keyOf : β → κ) (t : Table κ β) : Prop := ∀ k b, t.lookup k = some b → keyOf b = k

variable {keyOf : β → κ} {entriesOf : β → List χ} {t : Table κ β} {index : Table χ κ}

theorem exact_empty : Exact entriesOf (∅ : Table κ β) (∅ : Table χ κ) := by
  intro x k
  simp

theorem keyed_empty : Keyed keyOf (∅ : Table κ β) := by
  intro k b h
  simp at h

theorem Keyed.insert (h : Keyed keyOf t) (b : β) : Keyed keyOf (t.insert (keyOf b) b) := by
  intro k found hfound
  rw [Table.lookup_insert] at hfound
  split_ifs at hfound with hk
  · rw [← Option.some.inj hfound, hk]
  · exact h k found hfound

theorem Keyed.erase (h : Keyed keyOf t) (k : κ) : Keyed keyOf (t.erase k) := by
  intro k' found hfound
  rw [Table.lookup_erase] at hfound
  split_ifs at hfound
  exact h k' found hfound

def Separate (keyOf : β → κ) (entriesOf : β → List χ) : Prop :=
  ∀ b b' x, x ∈ entriesOf b → x ∈ entriesOf b' → keyOf b = keyOf b'

theorem Exact.erase (h : Exact entriesOf t index) (hkeyed : Keyed keyOf t)
    (hseparate : Separate keyOf entriesOf) {k : κ} {old : β} (hold : t.lookup k = some old) :
    Exact entriesOf (t.erase k) (eraseAll index (entriesOf old)) := by
  intro x k'
  rw [lookup_eraseAll, Table.lookup_erase]
  split_ifs with hx hk hk
  · simp
  · constructor
    · simp
    · rintro ⟨b, hb, hmem⟩
      have hsame := hseparate old b x hx hmem
      rw [hkeyed k old hold, hkeyed k' b hb] at hsame
      exact absurd hsame.symm hk
  · constructor
    · intro hlookup
      obtain ⟨b, hb, hmem⟩ := (h x k').mp hlookup
      rw [hk, hold] at hb
      rw [← Option.some.inj hb] at hmem
      exact absurd hmem hx
    · simp
  · exact h x k'

theorem Exact.insert (h : Exact entriesOf t index) (hkeyed : Keyed keyOf t)
    (hseparate : Separate keyOf entriesOf) {b : β} (hnew : t.lookup (keyOf b) = none) :
    Exact entriesOf (t.insert (keyOf b) b) (insertAll index (entriesOf b) (keyOf b)) := by
  intro x k
  rw [lookup_insertAll, Table.lookup_insert]
  constructor
  · intro hlookup
    split_ifs at hlookup with hx
    · rw [← Option.some.inj hlookup, if_pos rfl]
      exact ⟨b, rfl, hx⟩
    · obtain ⟨found, hfound, hmem⟩ := (h x k).mp hlookup
      have hk : k ≠ keyOf b := fun hk => by rw [hk, hnew] at hfound; cases hfound
      rw [if_neg hk]
      exact ⟨found, hfound, hmem⟩
  · rintro ⟨found, hfound, hmem⟩
    split_ifs at hfound with hk
    · rw [Option.some.inj hfound, if_pos hmem, ← Option.some.inj hfound, hk]
    · have hx : x ∉ entriesOf b := fun hx =>
        hk (by rw [← hkeyed k found hfound]; exact hseparate found b x hmem hx)
      rw [if_neg hx]
      exact (h x k).mpr ⟨found, hfound, hmem⟩

theorem insert_erase_self (t : Table κ β) (k : κ) (b : β) :
    (t.erase k).insert k b = t.insert k b := by
  apply AList.ext
  rw [AList.entries_insert, AList.entries_insert]
  have hkerase : (t.erase k).entries.kerase k = t.entries.kerase k :=
    List.kerase_of_notMem_keys (List.notMem_keys_kerase k t.nodupKeys)
  rw [hkerase]

/-- The entries of the value that is replaced give way to those of the new one. -/
theorem Exact.replace (h : Exact entriesOf t index) (hkeyed : Keyed keyOf t)
    (hseparate : Separate keyOf entriesOf) {b old : β} (hold : t.lookup (keyOf b) = some old) :
    Exact entriesOf (t.insert (keyOf b) b)
      (insertAll (eraseAll index (entriesOf old)) (entriesOf b) (keyOf b)) := by
  have herased := h.erase hkeyed hseparate hold
  have hinserted := herased.insert (hkeyed.erase _) hseparate (b := b)
    (by rw [Table.lookup_erase, if_pos rfl])
  rwa [insert_erase_self] at hinserted

theorem Exact.size_eq (h : Exact entriesOf t index) (hkeyed : Keyed keyOf t)
    (hseparate : Separate keyOf entriesOf) :
    Table.size index = Table.total (fun b => (entriesOf b).dedup.length) t := by
  have hentries : ∀ entry ∈ t.entries, keyOf entry.2 = entry.1 := fun entry hmem =>
    hkeyed entry.1 entry.2 (Table.mem_entries_iff.mp hmem)
  have hnodup : (t.entries.flatMap fun entry => (entriesOf entry.2).dedup).Nodup := by
    rw [List.nodup_flatMap]
    refine ⟨fun entry _ => List.nodup_dedup _, ?_⟩
    refine List.Pairwise.imp_of_mem ?_ (List.pairwise_map.mp t.nodupKeys)
    intro entry entry' hmem hmem' hne x hx hx'
    have hsame := hseparate _ _ x (List.mem_dedup.mp hx) (List.mem_dedup.mp hx')
    rw [hentries entry hmem, hentries entry' hmem'] at hsame
    exact hne hsame
  have hperm : index.keys.Perm (t.entries.flatMap fun entry => (entriesOf entry.2).dedup) := by
    rw [List.perm_ext_iff_of_nodup index.keys_nodup hnodup]
    intro x
    simp only [List.mem_flatMap, List.mem_dedup, Table.mem_keys_iff, h x]
    constructor
    · rintro ⟨k, b, hb, hx⟩
      exact ⟨⟨k, b⟩, Table.mem_entries_iff.mpr hb, hx⟩
    · rintro ⟨⟨k, b⟩, hmem, hx⟩
      exact ⟨k, b, Table.mem_entries_iff.mp hmem, hx⟩
  have hlength := hperm.length_eq
  rw [List.length_flatMap] at hlength
  rw [Table.total, ← hlength, Table.size, AList.keys, List.keys, List.length_map]

end DerivedIndex
