import Mathlib.Data.List.Range
import Mathlib.Tactic.Ring

/-!
Consecutive segments: slices of a concatenation, and intervals cut into tiles.
-/

namespace Segments
open List Nat

variable {α β : Type*}

def slice (l : List α) (start stop : Nat) : List α := (l.take stop).drop start

variable {start stop : Nat}

theorem slice_middle (before middle after : List α) (place : before.length = start)
    (size : start + middle.length = stop) : slice (before ++ middle ++ after) start stop = middle := by
  have upTo : (before ++ middle).length = stop := by rw [length_append, place, size]
  rw [slice, take_left' upTo, drop_left' place]

theorem slice_append_left (l more : List α) (within : stop ≤ l.length) :
    slice (l ++ more) start stop = slice l start stop := by
  rw [slice, slice, take_append_of_le_length within]

theorem slice_take (l : List α) {start stop n : Nat} (within : stop ≤ n) :
    slice (l.take n) start stop = slice l start stop := by
  rw [slice, slice, take_take, min_eq_left within]

theorem take_eq_iff_slices (b n : Nat) (l l' : List α) :
    l.take (n * b) = l'.take (n * b) ↔ ∀ k < n,
      slice l (k * b) (k * b + b) = slice l' (k * b) (k * b + b) := by
  constructor
  · intro same k lt
    have within : k * b + b ≤ n * b := by
      rw [← succ_mul]
      exact mul_le_mul_right b lt
    rw [← slice_take l within, same, slice_take l' within]
  · intro same
    induction n with
    | zero => simp
    | succ n ih =>
      have last := same n (lt_succ_self n)
      rw [slice, slice, drop_take, drop_take, Nat.add_sub_cancel_left] at last
      rw [succ_mul, take_add, take_add, ih fun k lt => same k (lt_succ_of_lt lt), last]

def offset (size : β → Nat) (items : List β) (i : Nat) : Nat := ((items.take i).map size).sum

variable {xs : List β} {item : β}

theorem offset_succ (size : β → Nat) {i : Nat} (at_ : xs[i]? = some item) :
    offset size xs (i + 1) = offset size xs i + size item := by
  rw [offset, offset, take_add_one, at_]
  simp

section
variable {size : β → Nat} {f : β → List α} (sizes : ∀ b, (f b).length = size b)
include sizes

theorem length_flatMap_take (xs : List β) (i : Nat) : ((xs.take i).flatMap f).length = offset size xs i := by
  rw [length_flatMap, offset]
  simp only [sizes]

theorem slice_flatMap {i : Nat} (at_ : xs[i]? = some item) :
    slice (xs.flatMap f) (offset size xs i) (offset size xs (i + 1)) = f item := by
  obtain ⟨lt, here⟩ := List.getElem_of_getElem? at_
  have parts : xs.flatMap f = (xs.take i).flatMap f ++ f item ++ (xs.drop (i + 1)).flatMap f := by
    conv_lhs => rw [← List.take_append_drop i xs, List.drop_eq_getElem_cons lt, here]
    simp
  rw [parts]
  exact slice_middle _ _ _ (length_flatMap_take sizes xs i) (by rw [offset_succ size at_, sizes])

theorem drop_flatMap (xs : List β) (i : Nat) :
    (xs.flatMap f).drop (offset size xs i) = (xs.drop i).flatMap f := by
  conv_lhs => rw [← take_append_drop i xs, flatMap_append, take_append_drop]
  exact drop_left' (length_flatMap_take sizes xs i)

end

section
variable {f : β → List α} {n : Nat} (sizes : ∀ b ∈ xs, (f b).length = n)
include sizes

theorem getElem?_flatMap_uniform {i k : Nat}
    (lt : k < n) : (xs.flatMap f)[i * n + k]? = xs[i]?.bind fun b => (f b)[k]? := by
  induction xs generalizing i with
  | nil => rfl
  | cons b xs ih =>
    have first : (f b).length = n := sizes b mem_cons_self
    rw [flatMap_cons]
    cases i with
    | zero =>
      rw [zero_mul, zero_add, getElem?_append_left (by rw [first]; exact lt)]
      rfl
    | succ i =>
      have place : (i + 1) * n + k = n + (i * n + k) := by ring
      rw [place, getElem?_append_right (by rw [first]; exact Nat.le_add_right _ _), first, Nat.add_sub_cancel_left,
        ih fun b mem => sizes b (mem_cons_of_mem _ mem)]
      rfl

end

theorem filter_tile (s b stop : Nat) :
    ((range b).map (s + ·)).filter (· < stop) = range' s (min b (stop - s)) := by
  induction b with
  | zero => simp
  | succ b ih =>
    rw [range_succ, map_append, filter_append, ih]
    by_cases lt : s + b < stop
    · have whole : min (b + 1) (stop - s) = b + 1 ∧ min b (stop - s) = b := by omega
      simp [lt, whole, range'_concat]
    · have cut : min (b + 1) (stop - s) = min b (stop - s) := by omega
      simp [lt, cut]

theorem flatMap_tiles (start b stop n : Nat) :
    ((range n).flatMap fun i => range' (start + b * i) (min b (stop - (start + b * i)))) =
      range' start (min (n * b) (stop - start)) := by
  induction n with
  | zero => simp
  | succ n ih =>
    have width : (n + 1) * b = n * b + b := succ_mul n b
    rw [range_succ, flatMap_append, ih, flatMap_singleton, mul_comm b n, width]
    by_cases reached : start + n * b ≤ stop
    · have whole : min (n * b) (stop - start) = n * b := by omega
      rw [whole, range'_append_1]
      congr 1
      omega
    · have none : min b (stop - (start + n * b)) = 0 := by omega
      have cut : min (n * b + b) (stop - start) = min (n * b) (stop - start) := by omega
      rw [none, cut]
      simp

theorem filterMap_range_getElem? (l : List α) {n : Nat} (short : n ≤ l.length) :
    (range n).filterMap (l[·]?) = l.take n := by
  induction n with
  | zero => simp
  | succ n ih =>
    rw [range_succ, filterMap_append, ih (by omega), take_succ_eq_append_getElem short]
    simp [getElem?_eq_getElem short]

theorem flat_index {A a B b : Nat} (outer : a < A) (inner : b < B) :
    a * B + b < A * B ∧ (a * B + b) / B = a ∧ (a * B + b) % B = b := by
  refine ⟨?_, ?_, ?_⟩
  · calc a * B + b < (a + 1) * B := by rw [succ_mul]; omega
      _ ≤ A * B := mul_le_mul_right _ outer
  · rw [mul_comm, mul_add_div (by omega), div_eq_of_lt inner, add_zero]
  · rw [mul_comm, mul_add_mod, mod_eq_of_lt inner]

end Segments
