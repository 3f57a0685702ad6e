import Mathlib.Data.Nat.Bitwise
import Mathlib.Tactic.Ring

/-!
Little-endian bit streams.
-/

namespace Bits
open Nat

def bitAt (bytes : Nat → UInt8) (b : Nat) : Bool := (bytes (b / 8)).toNat.testBit (b % 8)

def packDigits (w : Nat) (digit : Nat → Nat) (n : Nat) : Nat :=
  ((List.range n).map fun t => digit t <<< (t * w)).sum

theorem packDigits_succ (w : Nat) (digit : Nat → Nat) (n : Nat) :
    packDigits w digit (n + 1) = 2 ^ (n * w) * digit n + packDigits w digit n := by
  simp only [packDigits, List.range_succ, List.map_append, List.map_cons, List.map_nil,
    List.sum_append, List.sum_cons, List.sum_nil, shiftLeft_eq]
  ring

theorem packDigits_lt {w n : Nat} {digit : Nat → Nat} (small : ∀ t < n, digit t < 2 ^ w) :
    packDigits w digit n < 2 ^ (n * w) := by
  induction n with
  | zero => simp [packDigits]
  | succ n ih =>
    have rest := ih (fun t below => small t (by omega))
    have top : 2 ^ (n * w) * (digit n + 1) ≤ 2 ^ (n * w) * 2 ^ w :=
      mul_le_mul_left _ (small n (lt_succ_self n))
    have split : 2 ^ ((n + 1) * w) = 2 ^ (n * w) * 2 ^ w := by rw [← pow_add]; ring_nf
    rw [packDigits_succ, split]
    calc 2 ^ (n * w) * digit n + packDigits w digit n
        < 2 ^ (n * w) * digit n + 2 ^ (n * w) := by omega
      _ = 2 ^ (n * w) * (digit n + 1) := by ring
      _ ≤ 2 ^ (n * w) * 2 ^ w := top

theorem testBit_packDigits {w n t k : Nat} {digit : Nat → Nat} (small : ∀ t < n, digit t < 2 ^ w)
    (lt : t < n) (within : k < w) :
    (packDigits w digit n).testBit (t * w + k) = (digit t).testBit k := by
  induction n with
  | zero => omega
  | succ n ih =>
    have rest : ∀ t < n, digit t < 2 ^ w := fun t below => small t (by omega)
    rw [packDigits_succ, testBit_two_pow_mul_add _ (packDigits_lt rest)]
    rcases lt_or_eq_of_le (le_of_lt_succ lt) with earlier | rfl
    · have below : t * w + k < n * w := by
        calc t * w + k < t * w + w := by omega
          _ = (t + 1) * w := by ring
          _ ≤ n * w := mul_le_mul_right w earlier
      rw [if_pos below, ih rest earlier]
    · rw [if_neg (by omega), Nat.add_sub_cancel_left]

theorem testBit_and_mask {w mask k : Nat} (ones : mask = 2 ^ w - 1) (within : k < w) (v : Nat) :
    (v &&& mask).testBit k = v.testBit k := by
  simp [ones, within]

theorem and_mask_lt {w mask : Nat} (ones : mask = 2 ^ w - 1) (v : Nat) : v &&& mask < 2 ^ w :=
  Nat.and_lt_two_pow v (by have := Nat.two_pow_pos w; omega)

theorem testBit_toUInt8 (n k : Nat) (within : k < 8) : (UInt8.ofNat n).toNat.testBit k = n.testBit k := by
  rw [UInt8.toNat_ofNat', testBit_mod_two_pow]
  simp [within]

theorem testBit_uint8_high (b : UInt8) {k : Nat} (beyond : 8 ≤ k) : b.toNat.testBit k = false := by
  apply testBit_lt_two_pow
  calc b.toNat < 2 ^ 8 := b.toNat_lt
    _ ≤ 2 ^ k := Nat.pow_le_pow_right (by decide) beyond

/-- The `w`-bit field at bit `s` of the 16-bit word formed by two bytes. -/
def window (w s : Nat) (low high : UInt8) : Nat :=
  ((low.toNat ||| (high.toNat <<< 8)) >>> s) &&& ((1 <<< w) - 1)

theorem testBit_window (bytes : Nat → UInt8) (w s i k : Nat) (fits : s + w ≤ 16) :
    (window w s (bytes i) (bytes (i + 1))).testBit k = (decide (k < w) && bitAt bytes (8 * i + s + k)) := by
  rw [window, testBit_and, testBit_shiftRight, testBit_or, testBit_shiftLeft,
    shiftLeft_eq, one_mul, testBit_two_pow_sub_one, Bool.and_comm]
  by_cases lt : k < w
  · simp only [lt, decide_true, Bool.true_and]
    by_cases first : s + k < 8
    · have place : (8 * i + s + k) / 8 = i ∧ (8 * i + s + k) % 8 = s + k := by omega
      have skipped : decide (s + k ≥ 8) = false := by simp; omega
      simp [bitAt, place, skipped]
    · have place : (8 * i + s + k) / 8 = i + 1 ∧ (8 * i + s + k) % 8 = s + k - 8 := by omega
      have reached : decide (s + k ≥ 8) = true := by simp; omega
      rw [testBit_uint8_high _ (by omega)]
      simp [bitAt, place, reached]
  · simp [lt]

theorem window_congr (bytes bytes' : Nat → UInt8) {w s i : Nat} (fits : s + w ≤ 16)
    (agree : ∀ k < w, bitAt bytes (8 * i + s + k) = bitAt bytes' (8 * i + s + k)) :
    window w s (bytes i) (bytes (i + 1)) = window w s (bytes' i) (bytes' (i + 1)) := by
  apply eq_of_testBit_eq
  intro k
  rw [testBit_window _ _ _ _ _ fits, testBit_window _ _ _ _ _ fits]
  by_cases lt : k < w
  · rw [agree k lt]
  · simp [lt]

theorem window_eq_of_bits (bytes : Nat → UInt8) {w s i v : Nat} (fits : s + w ≤ 16) (small : v < 2 ^ w)
    (stored : ∀ k < w, bitAt bytes (8 * i + s + k) = v.testBit k) :
    window w s (bytes i) (bytes (i + 1)) = v := by
  apply eq_of_testBit_eq
  intro k
  rw [testBit_window _ _ _ _ _ fits]
  by_cases lt : k < w
  · simp [lt, stored k lt]
  · have zero : v.testBit k = false :=
      Nat.testBit_lt_two_pow (small.trans_le (Nat.pow_le_pow_right (by decide) (by omega)))
    simp [lt, zero]

end Bits
