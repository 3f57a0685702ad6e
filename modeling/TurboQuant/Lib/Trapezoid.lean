import Mathlib.Algebra.BigOperators.Intervals
import Mathlib.Algebra.BigOperators.Ring.Finset
import Mathlib.Algebra.Order.BigOperators.Group.Finset
import Mathlib.Algebra.Order.Field.Basic
import Mathlib.Tactic.FieldSimp
import Mathlib.Tactic.Linarith
import Mathlib.Tactic.Ring

/-!
Trapezoid sums. A weighted mean of the sample points lies strictly inside the interval, and sums
over mirrored intervals are equal.
-/

namespace Trapezoid
open Nat Finset

variable {α : Type*} [Field α]

def trapz (f : α → α) (a b : α) (n : Nat) : α :=
  let h := (b - a) / n
  ((f a + f b) / (2 : Nat) + ((List.range' 1 (n - 1)).map fun i : Nat => f (a + i * h)).sum) * h

theorem trapz_eq (f : α → α) (a b : α) (n : Nat) : trapz f a b n =
      ((f a + f b) / 2 + ∑ i ∈ Finset.Ico 1 n, f (a + i * ((b - a) / n))) * ((b - a) / n) :=
  rfl

theorem trapz_sub_mul (f g : α → α) (c a b : α) (n : Nat) :
    trapz (fun x => f x - c * g x) a b n = trapz f a b n - c * trapz g a b n := by
  rw [trapz_eq, trapz_eq, trapz_eq, sum_sub_distrib, ← mul_sum]
  ring

theorem trapz_neg (f : α → α) (a b : α) (n : Nat) : trapz (fun x => -f x) a b n = -trapz f a b n := by
  rw [trapz_eq, trapz_eq, sum_neg_distrib]
  ring

variable [LinearOrder α] [IsStrictOrderedRing α]

theorem trapz_mirror (f : α → α) (a b : α) {n : Nat} (pos : 0 < n) :
    trapz f (-b) (-a) n = trapz (fun x => f (-x)) a b n := by
  have width : -a - -b = b - a := by ring
  have point : ∀ i ∈ Finset.Ico 1 n,
      f (-(a + i * ((b - a) / n))) = f (-b + (n - i : Nat) * ((b - a) / n)) := by
    intro i lt
    rw [cast_sub (by have := mem_Ico.mp lt; omega)]
    congr 1
    field_simp
    ring
  have reflected := sum_Ico_reflect (fun i : Nat => f (-b + i * ((b - a) / n))) 1 (le_succ n)
  rw [Nat.add_sub_cancel_left, Nat.add_sub_cancel] at reflected
  rw [trapz_eq, trapz_eq, width, sum_congr rfl point, reflected]
  ring

variable {f : α → α} {a b : α} {n : Nat}

theorem sample_inside (ordered : a < b) {i : Nat} (first : 1 ≤ i) (last : i < n) :
    a < a + i * ((b - a) / n) ∧ a + i * ((b - a) / n) < b := by
  have count : (0 : α) < n := cast_pos.mpr (by omega)
  have step : 0 < (b - a) / n := div_pos (sub_pos.mpr ordered) count
  have whole : n * ((b - a) / n) = b - a := mul_div_cancel₀ _ count.ne'
  have lower : 0 < (i : α) * ((b - a) / n) := mul_pos (cast_pos.mpr first) step
  have upper : (i : α) * ((b - a) / n) < n * ((b - a) / n) := mul_lt_mul_of_pos_right (cast_lt.mpr last) step
  constructor <;> linarith

theorem trapz_pos (ordered : a < b) (pos : 0 < n) (ends : 0 < f a + f b)
    (inner : ∀ x, a < x → x < b → 0 ≤ f x) : 0 < trapz f a b n := by
  have sum : 0 ≤ ∑ i ∈ Finset.Ico 1 n, f (a + i * ((b - a) / n)) := sum_nonneg fun i lt => by
    have range := mem_Ico.mp lt
    have point := sample_inside ordered range.1 range.2
    exact inner _ point.1 point.2
  rw [trapz_eq]
  refine mul_pos ?_ (div_pos (sub_pos.mpr ordered) (cast_pos.mpr pos))
  linarith

theorem mean_inside (ordered : a < b) (steps : 0 < n) (pos : ∀ x, 0 < f x) :
    a < trapz (fun x => x * f x) a b n / trapz f a b n ∧
      trapz (fun x => x * f x) a b n / trapz f a b n < b := by
  have mass : 0 < trapz f a b n :=
    trapz_pos ordered steps (add_pos (pos a) (pos b)) fun x _ _ => (pos x).le
  have above : 0 < trapz (fun x => x * f x - a * f x) a b n := by
    refine trapz_pos ordered steps ?_ fun x left _ => ?_
    · have weight := mul_pos (sub_pos.mpr ordered) (pos b)
      linarith
    · have weight := mul_pos (sub_pos.mpr left) (pos x)
      linarith
  have below : 0 < trapz (fun x => -(x * f x - b * f x)) a b n := by
    refine trapz_pos ordered steps ?_ fun x _ right => ?_
    · have weight := mul_pos (sub_pos.mpr ordered) (pos a)
      linarith
    · have weight := mul_pos (sub_pos.mpr right) (pos x)
      linarith
  rw [trapz_sub_mul] at above
  rw [trapz_neg, trapz_sub_mul] at below
  exact ⟨(lt_div_iff₀ mass).mpr (by linarith), (div_lt_iff₀ mass).mpr (by linarith)⟩

end Trapezoid
