import BenShu.Lib.Loop
import Mathlib.Algebra.BigOperators.Intervals
import Mathlib.Algebra.BigOperators.Ring.Finset
import Mathlib.Algebra.Ring.Rat
import Mathlib.Data.List.GetD
import Mathlib.Tactic.Linarith

/-!
# Vector registers

A register is the function from the number of a lane to its value. No operation reads a lane
past the width it works at, so the width stands where lanes are counted: in a horizontal sum,
or in taking one half of a register.
-/

namespace BenShu.Simd

open Finset

abbrev Lanes (α : Type) := Nat → α

variable {α β γ : Type}

/-! ## Registers -/

def memory [Inhabited α] (xs : List α) (address : Nat) : α :=
  xs.getD address default

theorem memory_drop [Inhabited α] (xs : List α) (start address : Nat) :
    memory (xs.drop start) address = memory xs (start + address) := by
  simp [memory, List.getD_eq_getElem?_getD]

theorem memory_of_le [Inhabited α] {xs : List α} {address : Nat} (h : xs.length ≤ address) :
    memory xs address = default := by
  simp [memory, List.getElem?_eq_none h]

theorem memory_append [Inhabited α] (xs ys : List α) (address : Nat) :
    memory (xs ++ ys) address =
      if address < xs.length then memory xs address else memory ys (address - xs.length) := by
  simp only [memory, List.getD_eq_getElem?_getD, List.getElem?_append]
  split <;> rfl

theorem memory_map_range [Inhabited α] (f : Nat → α) {n address : Nat} (h : address < n) :
    memory ((List.range n).map f) address = f address := by
  simp [memory, h]

theorem memory_map_of_lt [Inhabited α] [Inhabited β] (f : α → β) {xs : List α} {address : Nat}
    (h : address < xs.length) : memory (xs.map f) address = f (memory xs address) := by
  simp [memory, h]

theorem memory_take [Inhabited α] (xs : List α) {count address : Nat} (h : address < count) :
    memory (xs.take count) address = memory xs address := by
  simp [memory, h]

theorem memory_ext [Inhabited α] {xs ys : List α} (hlen : xs.length = ys.length)
    (h : ∀ address < xs.length, memory xs address = memory ys address) : xs = ys := by
  refine List.ext_getElem hlen fun address hx hy => ?_
  have heq := h address hx
  rwa [memory, memory, List.getD_eq_getElem _ _ hx, List.getD_eq_getElem _ _ hy] at heq

theorem memory_cons_zero [Inhabited α] (x : α) (xs : List α) : memory (x :: xs) 0 = x := rfl

theorem memory_cons_succ [Inhabited α] (x : α) (xs : List α) (address : Nat) :
    memory (x :: xs) (address + 1) = memory xs address := rfl

namespace Lanes

def load (mem : Nat → α) (address : Nat) : Lanes α := fun k => mem (address + k)

def set1 (x : α) : Lanes α := fun _ => x

def map (f : α → β) (x : Lanes α) : Lanes β := fun k => f (x k)

def map₂ (f : α → β → γ) (x : Lanes α) (y : Lanes β) : Lanes γ := fun k => f (x k) (y k)

/-- The registers of `n` lanes that a wider register is made of, by number. -/
def extract (n part : Nat) (x : Lanes α) : Lanes α := fun k => x (n * part + k)

/-- The lower four of every eight lanes of two registers, in turns. -/
def unpackLo (x y : Lanes α) : Lanes α :=
  fun k => (if k % 2 = 0 then x else y) (8 * (k / 8) + k % 8 / 2)

/-- The upper four of every eight lanes of two registers, in turns. -/
def unpackHi (x y : Lanes α) : Lanes α :=
  fun k => (if k % 2 = 0 then x else y) (8 * (k / 8) + 4 + k % 8 / 2)

def reduceAdd [AddCommMonoid α] (n : Nat) (x : Lanes α) : α := ∑ k ∈ range n, x k

end Lanes

/-! ## Loops over blocks -/

theorem block_fits {size total j : Nat} (h : j < total / size) : size * j + size ≤ total :=
  (Nat.mul_le_mul_left size (Nat.succ_le_of_lt h)).trans (Nat.mul_div_le total size)

theorem no_further_block {size : Nat} (h : 0 < size) (total : Nat) :
    total < size * (total / size) + size :=
  Nat.lt_mul_div_succ total h

theorem whileLoop_blocks [AddCommMonoid α] {size : Nat} (total : Nat) (hsize : 0 < size)
    {guard : Nat × α → Bool} {step : Nat × α → Nat × α} (block : Nat → α)
    (hguard : ∀ s, guard s = decide (s.1 + size ≤ total))
    (hstep : ∀ s, step s = (s.1 + size, s.2 + block s.1)) :
    whileLoop guard step total (0, 0) =
      (size * (total / size), ∑ j ∈ range (total / size), block (size * j)) := by
  apply whileLoop_rule fun j s => s = (size * j, ∑ t ∈ range j, block (size * t))
  · simp
  · rintro j hj s rfl
    have hfits := block_fits hj
    refine ⟨by simpa [hguard] using hfits, ?_⟩
    rw [hstep, Nat.mul_succ, sum_range_succ]
  · rintro s rfl
    have hbeyond := no_further_block hsize total
    simpa [hguard] using hbeyond
  · exact Nat.div_le_self total size

/-! ## Sums over blocks -/

theorem sum_range_blocks [AddCommMonoid α] (n m : Nat) (f : Nat → α) :
    ∑ j ∈ range m, ∑ k ∈ range n, f (n * j + k) = ∑ d ∈ range (n * m), f d := by
  induction m with
  | zero => simp
  | succ m ih => rw [sum_range_succ, ih, Nat.mul_succ, sum_range_add]

theorem sum_range_split [AddCommMonoid α] {n m : Nat} (h : n ≤ m) (f g : Nat → α) :
    (∑ d ∈ range n, f d) + ∑ d ∈ range (m - n), g (n + d) =
      ∑ d ∈ range m, if d < n then f d else g d := by
  obtain ⟨k, rfl⟩ := Nat.exists_eq_add_of_le h
  rw [sum_range_add, Nat.add_sub_cancel_left]
  congr 1
  · exact sum_congr rfl fun d hd => by simp [mem_range.mp hd]
  · exact sum_congr rfl fun d _ => by simp

theorem sum_zipIdx_range [AddCommMonoid α] (n : Nat) (f : Nat → β) (g : β × Nat → α) :
    ((((List.range n).map f).zipIdx).map g).sum = ∑ b ∈ range n, g (f b, b) := by
  induction n with
  | zero => rfl
  | succ n ih => simp [List.range_succ, List.zipIdx_append, sum_range_succ, ih]

/-! ## Weighted sums -/

def unitVector (n d : Nat) : List Rat := (List.range n).map fun k => if k = d then 1 else 0

theorem unitVector_length (n d : Nat) : (unitVector n d).length = n := by simp [unitVector]

theorem memory_unitVector {n d k : Nat} (h : k < n) :
    memory (unitVector n d) k = if k = d then 1 else 0 :=
  memory_map_range _ h

theorem weighted_eq_iff {n : Nat} {a b : Nat → Rat} :
    (∀ v : List Rat, v.length = n →
      ∑ d ∈ range n, a d * memory v d = ∑ d ∈ range n, b d * memory v d) ↔
      ∀ d < n, a d = b d := by
  constructor
  · intro h d hd
    have hpick : ∀ c : Nat → Rat, ∑ k ∈ range n, c k * memory (unitVector n d) k = c d := by
      intro c
      rw [sum_eq_single_of_mem d (mem_range.mpr hd)]
      · simp [memory_unitVector hd]
      · intro k hk hne
        simp [memory_unitVector (mem_range.mp hk), hne]
    simpa [hpick] using h (unitVector n d) (unitVector_length n d)
  · intro h v _
    exact sum_congr rfl fun d hd => by rw [h d (mem_range.mp hd)]

end BenShu.Simd
