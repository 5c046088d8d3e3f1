import Mathlib.Logic.Function.Basic

/-!
# An index from ids back to keys

Each key may hold something with an id, several keys the same id, and an index names
one key for an id. It is faithful if what it names has the id and every id in use is
named.
-/

structure BackIndex (κ ι : Type) where
  idAt : κ → Option ι
  keyOf : ι → Option κ

namespace BackIndex

variable {κ ι : Type} {index : BackIndex κ ι} {key : κ} {id : ι}

structure Faithful (index : BackIndex κ ι) : Prop where
  named : ∀ id key held, index.keyOf id = some key → index.idAt key = some held → held = id
  covered : ∀ key id, index.idAt key = some id →
    ∃ key', index.keyOf id = some key' ∧ index.idAt key' = some id

theorem faithful_empty : Faithful (κ := κ) (ι := ι) ⟨fun _ => none, fun _ => none⟩ where
  named := by simp
  covered := by simp

variable [DecidableEq κ] [DecidableEq ι]

def put (index : BackIndex κ ι) (key : κ) (id : ι) : BackIndex κ ι where
  idAt := Function.update index.idAt key (some id)
  keyOf := Function.update index.keyOf id (some key)

/-- The key holds nothing and what it held is named no more. -/
def erase (index : BackIndex κ ι) (key : κ) : BackIndex κ ι where
  idAt := Function.update index.idAt key none
  keyOf := match index.idAt key with
    | some id => Function.update index.keyOf id none
    | none => index.keyOf

theorem faithful_put_iff (h : index.Faithful) :
    (index.put key id).Faithful ↔ ∀ other, index.keyOf other = some key → other = id := by
  constructor
  · intro hput other hother
    by_contra hne
    have hkeyOf : (index.put key id).keyOf other = some key := by
      simpa [put, hne] using hother
    have hidAt : (index.put key id).idAt key = some id := by simp [put]
    exact hne (hput.named other key id hkeyOf hidAt).symm
  · intro honly
    constructor
    · intro other key' held hkeyOf hidAt
      by_cases hid : other = id
      · subst hid
        have hkey : key = key' := by simpa [put] using hkeyOf
        subst hkey
        simpa [put, eq_comm] using hidAt
      · have hold : index.keyOf other = some key' := by simpa [put, hid] using hkeyOf
        by_cases hkey : key' = key
        · subst hkey
          exact absurd (honly other hold) hid
        · exact h.named other key' held hold (by simpa [put, hkey] using hidAt)
    · intro key' other hidAt
      by_cases hid : other = id
      · subst hid
        exact ⟨key, by simp [put], by simp [put]⟩
      · have hne : key' ≠ key := by
          intro heq
          subst heq
          exact hid (by simpa [put, eq_comm] using hidAt)
        obtain ⟨named, hnamed, hholds⟩ := h.covered key' other (by simpa [put, hne] using hidAt)
        have hother : named ≠ key := by
          intro heq
          subst heq
          exact hid (honly other hnamed)
        exact ⟨named, by simpa [put, hid] using hnamed, by simpa [put, hother] using hholds⟩

theorem faithful_erase_iff (h : index.Faithful) :
    (index.erase key).Faithful ↔
      ∀ id, index.idAt key = some id → ∀ other, index.idAt other = some id → other = key := by
  cases hheld : index.idAt key with
  | none =>
      have hsame : index.erase key = index := by
        have hidAt : Function.update index.idAt key none = index.idAt :=
          Function.update_eq_self_iff.mpr hheld.symm
        unfold erase
        rw [hidAt, hheld]
      rw [hsame]
      simp [h]
  | some held =>
      have hkeyOf : (index.erase key).keyOf = Function.update index.keyOf held none := by
        unfold erase
        rw [hheld]
      have hidAt : (index.erase key).idAt = Function.update index.idAt key none := rfl
      constructor
      · intro herase id hid other hother
        cases hid
        by_contra hne
        obtain ⟨named, hnamed, -⟩ := herase.covered other held (by simpa [hidAt, hne] using hother)
        simp [hkeyOf] at hnamed
      · intro honly
        constructor
        · intro id key' held' hnamed hholds
          have hid : id ≠ held := by
            intro heq
            simp [hkeyOf, heq] at hnamed
          have hkey : key' ≠ key := by
            intro heq
            simp [hidAt, heq] at hholds
          exact h.named id key' held' (by simpa [hkeyOf, hid] using hnamed)
            (by simpa [hidAt, hkey] using hholds)
        · intro key' id hholds
          have hkey : key' ≠ key := by
            intro heq
            simp [hidAt, heq] at hholds
          have hold : index.idAt key' = some id := by simpa [hidAt, hkey] using hholds
          have hid : id ≠ held := by
            intro heq
            exact hkey (honly held rfl key' (heq ▸ hold))
          obtain ⟨named, hnamed, hnamedHolds⟩ := h.covered key' id hold
          have hother : named ≠ key := by
            intro heq
            rw [heq, hheld] at hnamedHolds
            exact hid (Option.some.inj hnamedHolds).symm
          exact ⟨named, by simpa [hkeyOf, hid] using hnamed,
            by simpa [hidAt, hother] using hnamedHolds⟩

end BackIndex
