import Mathlib.Algebra.Order.Ring.Nat

/-!
The greatest aligned end of a run of cached positions. A hit at `k` needs the last `width` positions
before `k` and `extra` positions from `k` on. A search from right to left keeps one run, `high` is
its end, and no hit ends beyond it as far as the positions from `low` on can tell.
-/

namespace WindowSearch
open Nat

structure Hit (cached aligned : Nat → Prop) (width extra bound k : Nat) : Prop where
  aligned : aligned k
  inside : k + extra ≤ bound
  cached : ∀ j, k - width ≤ j → j < k + extra → cached j

def Misses (cached aligned : Nat → Prop) (width extra bound low high : Nat) : Prop :=
  ∀ k, aligned k → high < k + extra → k + extra ≤ bound →
    ∃ j, low ≤ j ∧ k - width ≤ j ∧ j < k + extra ∧ ¬ cached j

variable {cached aligned : Nat → Prop} {width extra bound i n low high k : Nat}

theorem Misses.hit_le (misses : Misses cached aligned width extra bound low high)
    (hit : Hit cached aligned width extra bound k) : k + extra ≤ high := by
  by_contra beyond
  obtain ⟨j, -, first, last, missing⟩ := misses k hit.aligned (by omega) hit.inside
  exact missing (hit.cached j first last)

section
variable (misses : Misses cached aligned width extra bound (i + 1) (i + 1 + n))
include misses

theorem Misses.reset (short : n < width + extra)
    (missing : ¬ cached i) : Misses cached aligned width extra bound i i := by
  intro k isAligned beyond lt
  by_cases reaches : k - width ≤ i
  · exact ⟨i, le_rfl, reaches, beyond, missing⟩
  · obtain ⟨j, low, first, last, gap⟩ := misses k isAligned (by omega) lt
    exact ⟨j, by omega, first, last, gap⟩

theorem Misses.extend : Misses cached aligned width extra bound i (i + (n + 1)) := by
  intro k isAligned beyond lt
  obtain ⟨j, low, first, last, gap⟩ := misses k isAligned (by omega) lt
  exact ⟨j, by omega, first, last, gap⟩

end

theorem Misses.skip (misses : Misses cached aligned width extra bound (i + 1) (i + 1)) (first : extra ≤ i + 1)
    (unaligned : ¬ aligned (i + 1 - extra)) : Misses cached aligned width extra bound i i := by
  intro k isAligned beyond lt
  rcases lt_or_eq_of_le (succ_le_of_lt beyond) with later | here
  · obtain ⟨j, low, first, last, gap⟩ := misses k isAligned later lt
    exact ⟨j, by omega, first, last, gap⟩
  · rw [show i + 1 - extra = k by omega] at unaligned
    exact absurd isAligned unaligned

structure Stretch (cached aligned : Nat → Prop) (width extra i n : Nat) : Prop where
  aligned : 0 < n → extra ≤ i + n ∧ aligned (i + n - extra)
  cached : ∀ j, i ≤ j → j < i + n → cached j
  short : n < width + extra

theorem Stretch.start (some : 0 < width + extra) (i : Nat) : Stretch cached aligned width extra i 0 :=
  ⟨fun none => absurd none (lt_irrefl 0), fun j first last => by omega, some⟩

section
variable (run : Stretch cached aligned width extra (i + 1) n) (here : cached i)
  (start : n = 0 → extra ≤ i + 1 ∧ aligned (i + 1 - extra))
include run here start

theorem Stretch.grow : (extra ≤ i + (n + 1) ∧ aligned (i + (n + 1) - extra)) ∧ ∀ j, i ≤ j →
    j < i + (n + 1) → cached j := by
  rw [show i + (n + 1) = i + 1 + n by omega]
  constructor
  · rcases Nat.eq_zero_or_pos n with rfl | some
    · exact start rfl
    · exact run.aligned some
  · intro j first last
    rcases lt_or_eq_of_le first with later | rfl
    · exact run.cached j later last
    · exact here

theorem Stretch.full (le : i + 1 + n ≤ bound) (full : width + extra ≤ n + 1) :
    Hit cached aligned width extra bound (i + width) := by
  obtain ⟨⟨-, ends⟩, cached⟩ := run.grow here start
  have length := run.short
  rw [show i + (n + 1) - extra = i + width by omega] at ends
  exact ⟨ends, by omega, fun j first last => cached j (by omega) (by omega)⟩

end

theorem Stretch.hit_of_zero (run : Stretch cached aligned width extra 0 n) (some : 0 < n) (le : n ≤ bound) :
    Hit cached aligned width extra bound (n - extra) := by
  have ends := run.aligned some
  rw [zero_add] at ends
  refine ⟨ends.2, by omega, fun j _ last => run.cached j (zero_le j) (by omega)⟩

end WindowSearch
