import Mathlib.Data.List.Sort
import Mathlib.Tactic.Ring

/-!
Insertion points in a sorted list, and the fixed-depth binary search that finds one.
-/

namespace Bisect
open List

variable {α : Type*} [LinearOrder α]

section
variable (l : List α) (y : α)

def lowerBound : Nat := l.findIdx (fun m => decide (y ≤ m))

def upperBound : Nat := l.findIdx (fun m => decide (y < m))

theorem lowerBound_le_length : lowerBound l y ≤ l.length :=
  findIdx_le_length

theorem upperBound_le_length : upperBound l y ≤ l.length :=
  findIdx_le_length

end

variable {l : List α}

theorem lt_upperBound_iff (sorted : l.Pairwise (· ≤ ·)) (y : α) {i : Nat}
    (lt : i < l.length) : i < upperBound l y ↔ l[i] ≤ y := by
  constructor
  · intro below
    have notAbove := not_of_lt_findIdx below
    simpa using notAbove
  · intro atMost
    by_contra past
    have reached : upperBound l y < l.length := by omega
    have above : y < l[upperBound l y] := of_decide_eq_true (findIdx_getElem (w := reached))
    have ordered : l[upperBound l y] ≤ l[i] := by
      rcases Nat.lt_or_eq_of_le (Nat.le_of_not_lt past) with strict | same
      · exact pairwise_iff_getElem.mp sorted _ _ reached lt strict
      · simp only [same, le_refl]
    exact absurd (lt_of_lt_of_le above (ordered.trans atMost)) (lt_irrefl y)

theorem le_getElem_lowerBound {y : α} (lt : lowerBound l y < l.length) : y ≤ l[lowerBound l y] :=
  of_decide_eq_true (findIdx_getElem (w := lt))

theorem lowerBound_le_of_le {y : α} {i : Nat} (lt : i < l.length) (reached : y ≤ l[i]) :
    lowerBound l y ≤ i := by
  by_contra below
  have notReached := not_of_lt_findIdx (Nat.lt_of_not_le below)
  exact absurd reached (by simpa using notReached)

theorem lowerBound_eq_upperBound_iff (sorted : l.Pairwise (· ≤ ·)) (y : α) :
    lowerBound l y = upperBound l y ↔ y ∉ l := by
  constructor
  · intro same mem
    obtain ⟨i, lt, rfl⟩ := getElem_of_mem mem
    have left := lowerBound_le_of_le lt (le_refl l[i])
    have right := (lt_upperBound_iff sorted l[i] lt).mpr (le_refl l[i])
    omega
  · intro absent
    by_contra different
    have ordered : lowerBound l y ≤ upperBound l y := by
      by_contra crossed
      have lt : upperBound l y < l.length := by have := lowerBound_le_length l y; omega
      have above : y < l[upperBound l y] := of_decide_eq_true (findIdx_getElem (w := lt))
      exact crossed (lowerBound_le_of_le lt above.le)
    have lt : lowerBound l y < l.length := by have := upperBound_le_length l y; omega
    have atMost := (lt_upperBound_iff sorted y lt).mp (by omega)
    have equal : y = l[lowerBound l y] := le_antisymm (le_getElem_lowerBound lt) atMost
    exact absent (equal ▸ getElem_mem lt)

/-- `depth` rounds of binary search on the interval `(lo, hi)`. `right mid` sends the search
above `mid`. -/
def search (right : Nat → Bool) : Nat → Nat × Nat → Nat × Nat
  | 0, bounds => bounds
  | depth + 1, (lo, hi) =>
    let mid := (lo + hi) / 2
    search right depth (if right mid then (mid + 1, hi) else (lo, mid))

theorem halves (depth lo : Nat) : (lo + (lo + (2 ^ (depth + 1) - 1))) / 2 = lo + (2 ^ depth - 1) ∧
    lo + (2 ^ (depth + 1) - 1) = lo + (2 ^ depth - 1) + 1 + (2 ^ depth - 1) := by
  have positive : 0 < 2 ^ depth := Nat.two_pow_pos depth
  omega

theorem search_threshold {right : Nat → Bool} {t : Nat} (depth lo : Nat) (low : lo ≤ t)
    (high : t ≤ lo + (2 ^ depth - 1))
    (threshold : ∀ i, lo ≤ i → i < lo + (2 ^ depth - 1) → (right i = true ↔ i < t)) :
    search right depth (lo, lo + (2 ^ depth - 1)) = (t, t) := by
  induction depth generalizing lo with
  | zero =>
    have same : lo = t := by simp at high; omega
    simp [search, same]
  | succ depth ih =>
    obtain ⟨middle, upper⟩ := halves depth lo
    rw [search, middle]
    by_cases goes : right (lo + (2 ^ depth - 1)) = true
    · have above := (threshold _ (by omega) (by omega)).mp goes
      rw [if_pos goes, upper]
      exact ih _ (by omega) (by omega) (fun i from_ upto => threshold i (by omega) (by omega))
    · have below : t ≤ lo + (2 ^ depth - 1) := by
        by_contra past
        exact goes ((threshold _ (by omega) (by omega)).mpr (by omega))
      rw [if_neg goes]
      exact ih _ low below (fun i from_ upto => threshold i from_ (by omega))

def probes (right : Nat → Bool) : Nat → Nat × Nat → List Nat
  | 0, _ => []
  | depth + 1, (lo, hi) =>
    let mid := (lo + hi) / 2
    mid :: probes right depth (if right mid then (mid + 1, hi) else (lo, mid))

theorem probes_lt (right : Nat → Bool) (depth lo : Nat) :
    ∀ mid ∈ probes right depth (lo, lo + (2 ^ depth - 1)), mid < lo + (2 ^ depth - 1) := by
  induction depth generalizing lo with
  | zero =>
    intro mid mem
    cases mem
  | succ depth ih =>
    obtain ⟨middle, upper⟩ := halves depth lo
    rw [probes, middle]
    intro mid mem
    rcases mem_cons.mp mem with rfl | later
    · omega
    · by_cases goes : right (lo + (2 ^ depth - 1)) = true
      · rw [if_pos goes, upper] at later
        have inside := ih _ mid later
        omega
      · rw [if_neg goes] at later
        have inside := ih _ mid later
        omega

end Bisect
