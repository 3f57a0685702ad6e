import Mathlib.Algebra.BigOperators.Ring.Finset
import Mathlib.Tactic.Ring

/-!
Sylvester's construction.
-/

namespace Sylvester
open Finset Nat

variable {α : Type*}

def double [Neg α] (n : Nat) (h : Nat → Nat → α) : Nat → Nat → α := fun i j =>
  if i < n then if j < n then h i j else h i (j - n)
  else if j < n then h (i - n) j else -h (i - n) (j - n)

section
variable [Neg α] {n : Nat} {h : Nat → Nat → α} {i j : Nat}

theorem double_upper_left (row : i < n) (column : j < n) : double n h i j = h i j := by
  rw [double, if_pos row, if_pos column]

theorem double_upper_right (row : i < n) : double n h i (n + j) = h i j := by
  rw [double, if_pos row, if_neg (by omega), Nat.add_sub_cancel_left]

theorem double_lower_left (column : j < n) : double n h (n + i) j = h i j := by
  rw [double, if_neg (by omega), if_pos column, Nat.add_sub_cancel_left]

theorem double_lower_right : double n h (n + i) (n + j) = -h i j := by
  rw [double, if_neg (by omega), if_neg (by omega), Nat.add_sub_cancel_left, Nat.add_sub_cancel_left]

end

theorem half_cases {n i : Nat} (bound : i < n + n) : i < n ∨ ∃ k < n, i = n + k := by
  rcases lt_or_ge i n with upper | lower
  · exact .inl upper
  · exact .inr ⟨i - n, by omega, by omega⟩

variable [CommRing α]

structure Hadamard (n : Nat) (h : Nat → Nat → α) : Prop where
  symmetric : ∀ i < n, ∀ j < n, h i j = h j i
  rows : ∀ i < n, ∀ j < n, ∑ t ∈ range n, h i t * h j t = if i = j then (n : α) else 0

theorem Hadamard.one : Hadamard 1 fun _ _ => (1 : α) where
  symmetric := fun _ _ _ _ => rfl
  rows := fun i first j second => by
    obtain rfl := lt_one_iff.mp first
    obtain rfl := lt_one_iff.mp second
    simp

section
variable {n : Nat} {h : Nat → Nat → α}

theorem sum_upper_upper {i j : Nat} (first : i < n) (second : j < n) :
    ∑ t ∈ range (n + n), double n h i t * double n h j t =
      ∑ t ∈ range n, h i t * h j t + ∑ t ∈ range n, h i t * h j t := by
  rw [sum_range_add]
  congr 1 <;> refine sum_congr rfl fun t lt => ?_
  · have column := mem_range.mp lt
    rw [double_upper_left first column, double_upper_left second column]
  · rw [double_upper_right first, double_upper_right second]

theorem sum_upper_lower {i : Nat} (first : i < n) (j : Nat) :
    ∑ t ∈ range (n + n), double n h i t * double n h (n + j) t = 0 := by
  have left : ∑ t ∈ range n, double n h i t * double n h (n + j) t = ∑ t ∈ range n, h i t * h j t :=
    sum_congr rfl fun t lt => by
      have column := mem_range.mp lt
      rw [double_upper_left first column, double_lower_left column]
  have right : ∑ t ∈ range n, double n h i (n + t) * double n h (n + j) (n + t) =
      -∑ t ∈ range n, h i t * h j t := by
    rw [← sum_neg_distrib]
    exact sum_congr rfl fun t _ => by rw [double_upper_right first, double_lower_right, mul_neg]
  rw [sum_range_add, left, right, add_neg_cancel]

theorem sum_lower_lower (i j : Nat) : ∑ t ∈ range (n + n), double n h (n + i) t * double n h (n + j) t =
      ∑ t ∈ range n, h i t * h j t + ∑ t ∈ range n, h i t * h j t := by
  rw [sum_range_add]
  congr 1 <;> refine sum_congr rfl fun t lt => ?_
  · have column := mem_range.mp lt
    rw [double_lower_left column, double_lower_left column]
  · rw [double_lower_right, double_lower_right, neg_mul_neg]

theorem Hadamard.double_rows (hadamard : Hadamard n h) {i j : Nat} (first : i < n + n) (second : j < n + n) :
    ∑ t ∈ range (n + n), double n h i t * double n h j t = if i = j then ((n + n : Nat) : α) else 0 := by
  have twice : ∀ i < n, ∀ j < n, ∑ t ∈ range n, h i t * h j t + ∑ t ∈ range n, h i t * h j t =
      if i = j then ((n + n : Nat) : α) else 0 := by
    intro i first j second
    rw [hadamard.rows i first j second]
    split <;> push_cast <;> ring
  rcases half_cases first with upper | ⟨i, row, rfl⟩ <;> rcases half_cases second with upper' | ⟨j, row', rfl⟩
  · rw [sum_upper_upper upper upper', twice i upper j upper']
  · rw [sum_upper_lower upper, if_neg (by omega)]
  · have swapped : ∑ t ∈ range (n + n), double n h (n + i) t * double n h j t = 0 := by
      rw [← sum_upper_lower (h := h) upper' i]
      exact sum_congr rfl fun t _ => mul_comm _ _
    rw [swapped, if_neg (by omega)]
  · rw [sum_lower_lower, twice i row j row']
    exact if_congr (by omega) rfl rfl

theorem Hadamard.double (hadamard : Hadamard n h) : Hadamard (n + n) (double n h) where
  symmetric := fun i first j second => by
    rcases half_cases first with upper | ⟨i, row, rfl⟩ <;> rcases half_cases
      second with upper' | ⟨j, row', rfl⟩
    · rw [double_upper_left upper upper', double_upper_left upper' upper, hadamard.symmetric i upper j upper']
    · rw [double_upper_right upper, double_lower_left upper, hadamard.symmetric i upper j row']
    · rw [double_lower_left upper', double_upper_right upper', hadamard.symmetric i row j upper']
    · rw [double_lower_right, double_lower_right, hadamard.symmetric i row j row']
  rows := fun _ first _ second => hadamard.double_rows first second

end

end Sylvester
