import BenShu.Lib.Table
import Mathlib.Data.List.Induction

/-!
# Logs of deltas

A keyed collection kept as a log of deltas, each of which removes some keys and
then adds some values. Replaying the log gives the collection; a log may be
replaced by the single delta that adds what it replays to.
-/

namespace DeltaLog

variable {κ ν : Type} [DecidableEq κ]

structure Delta (κ ν : Type) where
  added : List ν
  removed : List κ

section

variable (key : ν → κ)

def addAll (values : List ν) (t : Table κ ν) : Table κ ν :=
  values.foldl (fun t value => t.insert (key value) value) t

def Delta.apply (t : Table κ ν) (d : Delta κ ν) : Table κ ν :=
  addAll key d.added (d.removed.foldl (fun t k => t.erase k) t)

def replay (log : List (Delta κ ν)) : Table κ ν := log.foldl (Delta.apply key) ∅

def lastWith (values : List ν) (k : κ) : Option ν := values.reverse.find? fun value => key value = k

end

variable {key : ν → κ}

theorem lookup_addAll (values : List ν) (t : Table κ ν) (k : κ) :
    (addAll key values t).lookup k = (lastWith key values k).or (t.lookup k) := by
  induction values generalizing t with
  | nil => rfl
  | cons value values ih =>
      rw [addAll, List.foldl_cons, ← addAll, ih, Table.lookup_insert, lastWith, lastWith,
        List.reverse_cons, List.find?_append]
      by_cases h : key value = k
      · cases hfound : values.reverse.find? fun value => key value = k <;> simp [h]
      · have hne : ¬k = key value := fun heq => h heq.symm
        cases hfound : values.reverse.find? fun value => key value = k <;> simp [h, hne]

theorem lookup_apply (t : Table κ ν) (d : Delta κ ν) (k : κ) :
    (Delta.apply key t d).lookup k =
      (lastWith key d.added k).or (if k ∈ d.removed then none else t.lookup k) := by
  rw [Delta.apply, lookup_addAll, Table.lookup_foldl_erase]

theorem replay_append (log : List (Delta κ ν)) (d : Delta κ ν) :
    replay key (log ++ [d]) = Delta.apply key (replay key log) d := by
  simp [replay]

theorem lastWith_some {values : List ν} {k : κ} {value : ν}
    (h : lastWith key values k = some value) : value ∈ values ∧ key value = k := by
  have hmem := List.mem_of_find?_eq_some h
  have hkey := List.find?_some h
  exact ⟨List.mem_reverse.mp hmem, by simpa using hkey⟩

theorem lastWith_none {values : List ν} {k : κ} :
    lastWith key values k = none ↔ ∀ value ∈ values, key value ≠ k := by
  simp [lastWith]

theorem key_of_replay {log : List (Delta κ ν)} {k : κ} {value : ν}
    (h : (replay key log).lookup k = some value) : key value = k := by
  induction log using List.reverseRecOn generalizing k value with
  | nil => cases h
  | append_singleton log d ih =>
      rw [replay_append, lookup_apply] at h
      cases hlast : lastWith key d.added k with
      | some v =>
          rw [hlast] at h
          cases h
          exact (lastWith_some hlast).2
      | none =>
          rw [hlast] at h
          by_cases hk : k ∈ d.removed
          · simp [hk] at h
          · exact ih (by simpa [hk] using h)

def values (t : Table κ ν) : List ν := t.entries.map (·.2)

theorem mem_values {t : Table κ ν} (hkey : ∀ k value, t.lookup k = some value → key value = k)
    {value : ν} : value ∈ values t ↔ t.lookup (key value) = some value := by
  constructor
  · intro h
    rcases List.mem_map.mp h with ⟨⟨k, v⟩, hmem, rfl⟩
    have hlookup := Table.mem_entries_iff.mp hmem
    rwa [hkey k v hlookup]
  · intro h
    exact List.mem_map.mpr ⟨_, Table.mem_entries_iff.mpr h, rfl⟩

theorem keys_values_nodup {t : Table κ ν}
    (hkey : ∀ k value, t.lookup k = some value → key value = k) :
    ((values t).map key).Nodup := by
  have hkeys : (values t).map key = t.keys := by
    rw [values, List.map_map, AList.keys, List.keys]
    apply List.map_congr_left
    intro hex hmem
    rcases hex with ⟨k, v⟩
    exact hkey k v (Table.mem_entries_iff.mp hmem)
  rw [hkeys]
  exact t.keys_nodup

theorem values_perm {t t' : Table κ ν} (hkey : ∀ k value, t.lookup k = some value → key value = k)
    (hlookup : ∀ k, t'.lookup k = t.lookup k) : (values t').Perm (values t) := by
  have hkey' : ∀ k value, t'.lookup k = some value → key value = k := fun k value h =>
    hkey k value ((hlookup k).symm.trans h)
  have hnodup := (keys_values_nodup hkey).of_map key
  have hnodup' := (keys_values_nodup hkey').of_map key
  refine (List.perm_ext_iff_of_nodup hnodup' hnodup).mpr fun value => ?_
  rw [mem_values hkey', mem_values hkey, hlookup]

theorem lastWith_of_nodup {values : List ν} (hnodup : (values.map key).Nodup) {value : ν} {k : κ}
    (hmem : value ∈ values) (hk : key value = k) : lastWith key values k = some value := by
  cases hlast : lastWith key values k with
  | none => exact absurd hk (lastWith_none.mp hlast value hmem)
  | some value' =>
      obtain ⟨hmem', hk'⟩ := lastWith_some hlast
      rw [List.inj_on_of_nodup_map hnodup hmem' hmem (hk'.trans hk.symm)]

theorem lookup_replay_compact {log : List (Delta κ ν)} {added : List ν}
    (hperm : added.Perm (values (replay key log))) (k : κ) :
    (replay key [⟨added, []⟩]).lookup k = (replay key log).lookup k := by
  have hkey : ∀ k value, (replay key log).lookup k = some value → key value = k :=
    fun _ _ => key_of_replay
  have hnodup : (added.map key).Nodup :=
    (hperm.map key).nodup_iff.mpr (keys_values_nodup hkey)
  have hsingle : (replay key [⟨added, []⟩]).lookup k = (lastWith key added k).or none :=
    lookup_apply ∅ ⟨added, []⟩ k
  rw [hsingle, Option.or_none]
  cases hlookup : (replay key log).lookup k with
  | none =>
      refine lastWith_none.mpr fun value hmem hk => ?_
      have hvalue := (mem_values hkey).mp (hperm.mem_iff.mp hmem)
      rw [hk, hlookup] at hvalue
      cases hvalue
  | some value =>
      have hk := key_of_replay hlookup
      refine lastWith_of_nodup hnodup (hperm.mem_iff.mpr ((mem_values hkey).mpr ?_)) hk
      rw [hk, hlookup]

end DeltaLog
