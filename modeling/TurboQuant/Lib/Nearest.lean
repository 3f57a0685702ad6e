import Mathlib.Algebra.Order.Field.Basic
import Mathlib.Data.List.GetD
import Mathlib.Tactic.Linarith

/-!
The nearest entry of a sorted list. It is decided by the midpoints of neighbouring entries.
-/

namespace Nearest
open List

variable {α : Type*} [Field α] [LinearOrder α] [IsStrictOrderedRing α]

/-- Entry `k` is at most `slack` farther from `y` than any entry. -/
def IsNearest (l : List α) (y slack : α) (k : Nat) : Prop :=
  ∃ c, l[k]? = some c ∧ ∀ c' ∈ l, |y - c| ≤ |y - c'| + slack

def midpoints (l : List α) : List α := List.zipWith (fun a b => (a + b) / (2 : Nat)) l.dropLast l.tail

omit [LinearOrder α] [IsStrictOrderedRing α] in
theorem length_midpoints (l : List α) : (midpoints l).length = l.length - 1 := by
  simp [midpoints]

omit [LinearOrder α] [IsStrictOrderedRing α] in
theorem getElem_midpoints {l : List α} {i : Nat} (lt : i < (midpoints l).length)
    (left : i < l.length) (right : i + 1 < l.length) : (midpoints l)[i] = (l[i] + l[i + 1]) / 2 := by
  simp only [midpoints, getElem_zipWith, getElem_dropLast, getElem_tail, Nat.cast_ofNat]

omit [LinearOrder α] [IsStrictOrderedRing α] in
theorem getD_midpoints {l : List α} {i : Nat} (lt : i + 1 < l.length) :
    (midpoints l).getD i 0 = (l.getD i 0 + l.getD (i + 1) 0) / 2 := by
  have size := length_midpoints l
  have mid : i < (midpoints l).length := by omega
  have left : i < l.length := by omega
  rw [getD_eq_getElem _ _ mid, getElem_midpoints mid left lt, getD_eq_getElem _ _ left, getD_eq_getElem _ _ lt]

theorem abs_sub_le_of_midpoint_le {a b y : α} (ordered : a ≤ b)
    (above : (a + b) / 2 ≤ y) : |y - b| ≤ |y - a| := by
  have right : 0 ≤ y - a := by linarith
  rw [abs_of_nonneg right, abs_le]
  constructor <;> linarith

theorem abs_sub_le_of_le_midpoint {a b y : α} (ordered : a ≤ b)
    (below : y ≤ (a + b) / 2) : |y - a| ≤ |y - b| := by
  have left : y - b ≤ 0 := by linarith
  rw [abs_of_nonpos left, abs_le]
  constructor <;> linarith

theorem abs_sub_le_add (a y : α) {slack : α} (positive : 0 ≤ slack) :
    |y - a| ≤ |y + slack - a| + slack ∧ |y + slack - a| ≤ |y - a| + slack := by
  have shift : |y + slack - a - (y - a)| = slack := by
    rw [show y + slack - a - (y - a) = slack by linarith, abs_of_nonneg positive]
  have forth := abs_sub_abs_le_abs_sub (y + slack - a) (y - a)
  have back := abs_sub_abs_le_abs_sub (y - a) (y + slack - a)
  rw [abs_sub_comm (y - a), shift] at back
  rw [shift] at forth
  constructor <;> linarith

/-- The midpoints need to be right up to an error only. -/
theorem isNearest_of_midpoints {l : List α} (sorted : l.Pairwise (· ≤ ·)) {y slack : α}
    (positive : 0 ≤ slack) {k : Nat}
    (lt : k < l.length) (before : ∀ i (mid : i < (midpoints l).length), i < k → (midpoints l)[i] ≤ y + slack)
    (after : ∀ i (mid : i < (midpoints l).length), k ≤ i → y ≤ (midpoints l)[i] + slack) :
    IsNearest l y (2 * slack) k := by
  have size := length_midpoints l
  have ordered := pairwise_iff_getElem.mp sorted
  refine ⟨l[k], getElem?_eq_getElem lt, fun c' member => ?_⟩
  obtain ⟨j, within, rfl⟩ := getElem_of_mem member
  rcases Nat.lt_trichotomy j k with left | rfl | right
  · have mid := before (k - 1) (by omega) (by omega)
    rw [getElem_midpoints (by omega) (by omega) (by omega)] at mid
    simp only [Nat.sub_add_cancel (show 1 ≤ k by omega)] at mid
    have monotone : l[j] ≤ l[k - 1] := by
      rcases Nat.lt_or_eq_of_le (show j ≤ k - 1 by omega) with strict | same
      · exact ordered j (k - 1) within (by omega) strict
      · simp only [same, le_refl]
    have shifted : |y + slack - l[k]| ≤ |y + slack - l[j]| :=
      abs_sub_le_of_midpoint_le (ordered j k within lt left) (by linarith)
    have near := (abs_sub_le_add l[k] y positive).1
    have far := (abs_sub_le_add l[j] y positive).2
    linarith
  · linarith
  · have mid := after k (by omega) le_rfl
    rw [getElem_midpoints (by omega) (by omega) (by omega)] at mid
    have monotone : l[k + 1] ≤ l[j] := by
      rcases Nat.lt_or_eq_of_le (show k + 1 ≤ j by omega) with strict | same
      · exact ordered (k + 1) j (by omega) within strict
      · simp only [same, le_refl]
    have shifted : |y - slack - l[k]| ≤ |y - slack - l[j]| :=
      abs_sub_le_of_le_midpoint (ordered k j lt within right) (by linarith)
    have near := (abs_sub_le_add l[k] (y - slack) positive).2
    have far := (abs_sub_le_add l[j] (y - slack) positive).1
    rw [sub_add_cancel] at near far
    linarith

end Nearest
