import BenShu.Lib.Table
import Mathlib.Data.List.Induction
import Mathlib.Data.List.Lex
import Mathlib.Data.List.Sort
import Mathlib.Data.String.Basic
import Mathlib.Order.Lattice

/-!
# Ranges of keys

Keys in lexicographic order. The keys from a prefix up to the prefix with a greatest
letter behind it are those that go on with another letter. Keys that start with a prefix
stand together.
-/

namespace KeyRange

variable {α : Type} [LinearOrder α] {top : α}

def Between (start stop key : List α) : Prop := ¬key < start ∧ key < stop

instance (start stop key : List α) : Decidable (Between start stop key) :=
  inferInstanceAs (Decidable (_ ∧ _))

theorem between_cons_iff {a b : α} {start stop key : List α} :
    Between (b :: start) (b :: stop) (a :: key) ↔ a = b ∧ Between start stop key := by
  unfold Between
  rw [List.cons_lt_cons_iff, List.cons_lt_cons_iff]
  constructor
  · intro ⟨hstart, hstop⟩
    rcases hstop with hless | ⟨heq, hstop⟩
    · exact absurd (.inl hless) hstart
    · exact ⟨heq, fun hless => hstart (.inr ⟨heq, hless⟩), hstop⟩
  · intro ⟨heq, hstart, hstop⟩
    refine ⟨?_, .inr ⟨heq, hstop⟩⟩
    intro h
    rcases h with hless | ⟨-, hless⟩
    · exact absurd heq hless.ne
    · exact hstart hless

/-- Keys between a prefix and its end start with the prefix and go on with a letter that
is not the greatest one. -/
theorem between_append_iff (htop : ∀ a, a ≤ top) (start key : List α) :
    Between start (start ++ [top]) key ↔
      ∃ rest, key = start ++ rest ∧ rest.head? ≠ some top := by
  induction start generalizing key with
  | nil =>
      unfold Between
      cases key with
      | nil => simp
      | cons a key =>
          have hstop : a :: key < [top] ↔ a ≠ top := by
            rw [List.cons_lt_cons_iff]
            constructor
            · intro h
              rcases h with hless | ⟨-, hnil⟩
              · exact hless.ne
              · exact absurd hnil (List.not_lt_nil key)
            · intro hne
              exact .inl (lt_of_le_of_ne (htop a) hne)
          simp [hstop]
  | cons b start ih =>
      cases key with
      | nil =>
          refine iff_of_false (fun h => h.1 (List.nil_lt_cons b start)) ?_
          intro ⟨rest, hkey, _⟩
          simp at hkey
      | cons a key =>
          rw [List.cons_append, between_cons_iff, ih key]
          constructor
          · intro ⟨heq, rest, hkey, hrest⟩
            exact ⟨rest, by rw [heq, hkey, List.cons_append], hrest⟩
          · intro ⟨rest, hkey, hrest⟩
            rcases List.cons.inj hkey with ⟨heq, htail⟩
            exact ⟨heq, rest, htail, hrest⟩

/-! ## Scans -/

variable {β : Type} {key : β → List α}

/-- Entries in the order of their keys, from the prefix on and as long as it lasts. -/
def scan (start : List α) (key : β → List α) (entries : List β) : List β :=
  (entries.dropWhile fun entry => decide (key entry < start)).takeWhile fun entry =>
    start.isPrefixOf (key entry)

theorem not_lt_of_prefix {start k : List α} (h : start <+: k) : ¬k < start := by
  obtain ⟨rest, rfl⟩ := h
  induction start with
  | nil => exact List.not_lt_nil _
  | cons a start ih =>
      rw [List.cons_append, List.cons_lt_cons_iff]
      rintro (hless | ⟨-, hless⟩)
      · exact lt_irrefl a hless
      · exact ih hless

theorem not_prefix_of_lt {start k k' : List α} (hstart : ¬k < start) (hpast : ¬start <+: k)
    (hlt : k < k') : ¬start <+: k' := by
  induction start generalizing k k' with
  | nil => exact absurd List.nil_prefix hpast
  | cons a start ih =>
      rintro ⟨rest, rfl⟩
      cases k with
      | nil => exact hstart (List.nil_lt_cons a start)
      | cons b k =>
          rw [List.cons_append, List.cons_lt_cons_iff] at hlt
          rw [List.cons_lt_cons_iff] at hstart
          rcases hlt with hless | ⟨rfl, hless⟩
          · exact hstart (.inl hless)
          · refine ih (fun h => hstart (.inr ⟨rfl, h⟩)) (fun h => hpast ?_) hless
              (List.prefix_append start rest)
            exact List.cons_prefix_cons.mpr ⟨rfl, h⟩

theorem takeWhile_eq_filter {start : List α} {entries : List β}
    (hsorted : entries.Pairwise fun entry later => key entry < key later)
    (hstart : ∀ entry ∈ entries, ¬key entry < start) :
    (entries.takeWhile fun entry => start.isPrefixOf (key entry)) =
      entries.filter fun entry => start.isPrefixOf (key entry) := by
  induction entries with
  | nil => rfl
  | cons entry entries ih =>
      obtain ⟨hfirst, hrest⟩ := List.pairwise_cons.mp hsorted
      obtain ⟨hentry, hlater⟩ := List.forall_mem_cons.mp hstart
      rw [List.takeWhile_cons, List.filter_cons]
      split_ifs with hstarts
      · rw [ih hrest hlater]
      · refine (List.filter_eq_nil_iff.mpr fun other hother hstarts' => ?_).symm
        exact not_prefix_of_lt hentry (fun h => hstarts (List.isPrefixOf_iff_prefix.mpr h))
          (hfirst other hother) (List.isPrefixOf_iff_prefix.mp hstarts')

theorem scan_eq_filter {start : List α} {entries : List β}
    (hsorted : entries.Pairwise fun entry later => key entry < key later) :
    scan start key entries = entries.filter fun entry => start.isPrefixOf (key entry) := by
  unfold scan
  induction entries with
  | nil => rfl
  | cons entry entries ih =>
      obtain ⟨hfirst, hrest⟩ := List.pairwise_cons.mp hsorted
      rw [List.dropWhile_cons]
      split_ifs with hbelow
      · rw [ih hrest, List.filter_cons, if_neg]
        exact fun h => not_lt_of_prefix (List.isPrefixOf_iff_prefix.mp h) (of_decide_eq_true hbelow)
      · have hentry : ¬key entry < start := fun h => hbelow (decide_eq_true h)
        refine takeWhile_eq_filter hsorted (List.forall_mem_cons.mpr ⟨hentry, ?_⟩)
        exact fun other hother hless => hentry (lt_trans (hfirst other hother) hless)

end KeyRange

/-!
# Tables read in the order of their keys

The listing of a table is determined by what it holds, also below a prefix of its keys. What
is listed can be put under other keys again.
-/

namespace Table

variable {β : Type}

def inOrder (t : Table String β) : List ((_ : String) × β) :=
  t.entries.insertionSort fun entry later => entry.1 ≤ later.1

theorem mem_inOrder {t : Table String β} {entry : (_ : String) × β} :
    entry ∈ t.inOrder ↔ t.lookup entry.1 = some entry.2 := by
  rw [inOrder, List.mem_insertionSort]
  exact mem_entries_iff

theorem pairwise_inOrder (t : Table String β) :
    t.inOrder.Pairwise fun entry later => entry.1.toList < later.1.toList := by
  have hsorted := List.pairwise_insertionSort
    (fun entry later : (_ : String) × β => entry.1 ≤ later.1) t.entries
  have hkeys : t.inOrder.Pairwise fun entry later => entry.1 ≠ later.1 :=
    (List.perm_insertionSort _ _).symm.pairwise (List.pairwise_map.mp t.nodupKeys) Ne.symm
  refine (hsorted.and hkeys).imp ?_
  rintro entry later ⟨hle, hne⟩
  exact String.lt_iff_toList_lt.mp (lt_of_le_of_ne hle hne)

theorem nodup_inOrder (t : Table String β) : t.inOrder.Nodup := by
  refine t.pairwise_inOrder.imp ?_
  rintro entry later hlt rfl
  exact lt_irrefl _ hlt

theorem filter_inOrder_congr {t t' : Table String β} {p : String → Bool}
    (h : ∀ key, p key = true → t.lookup key = t'.lookup key) :
    (t.inOrder.filter fun entry => p entry.1) = t'.inOrder.filter fun entry => p entry.1 := by
  refine List.Perm.eq_of_pairwise ?_ (t.pairwise_inOrder.filter _) (t'.pairwise_inOrder.filter _) ?_
  · exact fun entry later _ _ hlt hgt => absurd hgt (lt_asymm hlt)
  · refine (List.perm_ext_iff_of_nodup (t.nodup_inOrder.filter _)
      (t'.nodup_inOrder.filter _)).mpr fun entry => ?_
    rw [List.mem_filter, List.mem_filter, mem_inOrder, mem_inOrder]
    exact and_congr_left fun hkey => by rw [h entry.1 hkey]

/-- The entries whose keys start with the prefix, in the order of their keys. -/
def scan (start : String) (t : Table String β) : List ((_ : String) × β) :=
  KeyRange.scan start.toList (fun entry => entry.1.toList) t.inOrder

theorem scan_eq_filter (start : String) (t : Table String β) :
    t.scan start = t.inOrder.filter fun entry => start.toList.isPrefixOf entry.1.toList :=
  KeyRange.scan_eq_filter t.pairwise_inOrder

theorem mem_scan {start : String} {t : Table String β} {entry : (_ : String) × β} :
    entry ∈ t.scan start ↔
      t.lookup entry.1 = some entry.2 ∧ start.toList <+: entry.1.toList := by
  rw [scan_eq_filter, List.mem_filter, mem_inOrder, List.isPrefixOf_iff_prefix]

theorem find?_scan {start : String} {t : Table String β} {p : (_ : String) × β → Bool}
    {entry : (_ : String) × β} :
    (t.scan start).find? p = some entry ↔
      (entry ∈ t.scan start ∧ p entry = true) ∧
        ∀ other ∈ t.scan start, p other = true → entry.1 ≤ other.1 := by
  have hsorted : (t.scan start).Pairwise fun entry later => entry.1.toList < later.1.toList := by
    rw [scan_eq_filter]
    exact t.pairwise_inOrder.filter _
  have hfirst : ∀ {found}, (t.scan start).find? p = some found →
      ∀ other ∈ t.scan start, p other = true → found.1 ≤ other.1 := by
    intro found hfound other hother hp
    obtain ⟨-, before, after, hsplit, hbefore⟩ := List.find?_eq_some_iff_append.mp hfound
    rw [hsplit] at hother hsorted
    rcases List.mem_append.mp hother with hmem | hmem
    · exact absurd hp (by simpa using hbefore other hmem)
    · rcases List.mem_cons.mp hmem with rfl | hlater
      · exact le_refl _
      · have hpast := (List.pairwise_cons.mp (List.pairwise_append.mp hsorted).2.1).1 other hlater
        exact le_of_lt (String.lt_iff_toList_lt.mpr hpast)
  constructor
  · intro h
    exact ⟨⟨List.mem_of_find?_eq_some h, List.find?_some h⟩, hfirst h⟩
  · rintro ⟨⟨hmem, hp⟩, hleast⟩
    rcases hfound : (t.scan start).find? p with _ | found
    · exact absurd hp (List.find?_eq_none.mp hfound entry hmem)
    · have hkeys : found.1 = entry.1 := le_antisymm (hfirst hfound entry hmem hp)
        (hleast found (List.mem_of_find?_eq_some hfound) (List.find?_some hfound))
      have hvalue := (mem_scan.mp (List.mem_of_find?_eq_some hfound)).1
      rw [hkeys, (mem_scan.mp hmem).1] at hvalue
      cases found
      cases entry
      cases hkeys
      cases hvalue
      rfl

/-! ## Indexes -/

variable {α γ : Type} [DecidableEq α]

/-- The values under the keys they carry; a later one replaces an earlier one. -/
def indexedBy (f : γ → α) (values : List γ) : Table α γ :=
  values.foldl (fun t value => t.insert (f value) value) ∅

theorem lookup_indexedBy (f : γ → α) (values : List γ) (a : α) :
    (indexedBy f values).lookup a = values.reverse.find? fun value => f value = a := by
  induction values using List.reverseRecOn with
  | nil => rfl
  | append_singleton values value ih =>
      unfold indexedBy at ih ⊢
      rw [List.foldl_append, List.foldl_cons, List.foldl_nil, lookup_insert, ih,
        List.reverse_append, List.reverse_singleton, List.singleton_append, List.find?_cons]
      by_cases h : f value = a
      · simp [h]
      · simp [h, Ne.symm h]

theorem mem_of_lookup_indexedBy {f : γ → α} {values : List γ} {a : α} {value : γ}
    (h : (indexedBy f values).lookup a = some value) : value ∈ values ∧ f value = a := by
  rw [lookup_indexedBy] at h
  exact ⟨List.mem_reverse.mp (List.mem_of_find?_eq_some h), by simpa using List.find?_some h⟩

theorem lookup_indexedBy_of_unique {f : γ → α} {values : List γ} {value : γ}
    (hmem : value ∈ values) (hunique : ∀ other ∈ values, f other = f value → other = value) :
    (indexedBy f values).lookup (f value) = some value := by
  rw [lookup_indexedBy]
  rcases hfind : values.reverse.find? fun other => f other = f value with _ | other
  · rw [List.find?_eq_none] at hfind
    exact absurd (decide_eq_true rfl) (hfind value (List.mem_reverse.mpr hmem))
  · have hother := hunique other (List.mem_reverse.mp (List.mem_of_find?_eq_some hfind))
      (by simpa using List.find?_some hfind)
    rw [hother]

end Table
