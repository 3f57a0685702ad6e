import Mathlib.Data.Int.Log
import Mathlib.Data.Rat.Floor
import TurboQuant.Ascend.Store
import TurboQuant.Lib.Nearest
import TurboQuant.Triton.Store

/-!
The two ways a rotated coordinate is assigned a centroid: `torch.bucketize` on the midpoints on
Ascend, and a fixed-depth binary search in the Triton store kernel.
-/

namespace TurboQuant
open Bisect Nat List

variable {α : Type*} [LinearOrder α]

theorem bucketIndex_eq_lowerBound {b : Nat} {midpoints : List α}
    (count : midpoints.length = 2 ^ b - 1) (y : α) :
    Ascend.bucketIndex (2 ^ b) midpoints y = lowerBound midpoints y := by
  have := lowerBound_le_length midpoints y
  unfold Ascend.bucketIndex
  omega

theorem searchIndex_eq_upperBound [Zero α] {b : Nat} {midpoints : List α} (sorted : midpoints.Pairwise (· ≤ ·))
    (count : midpoints.length = 2 ^ b - 1) (y : α) :
    Triton.searchIndex b (2 ^ b) midpoints true y = upperBound midpoints y := by
  have atMost := upperBound_le_length midpoints y
  have closes : search (fun mid => decide (y ≥ midpoints.getD (min mid (2 ^ b - 2)) 0)) b (0, 2 ^ b - 1) =
      (upperBound midpoints y, upperBound midpoints y) := by
    rw [← zero_add (2 ^ b - 1)]
    apply search_threshold b 0 (zero_le _) (by omega)
    intro i _ below
    have inside : i < midpoints.length := by omega
    have unclamped : min i (2 ^ b - 2) = i := by omega
    rw [unclamped, getD_eq_getElem _ _ inside, decide_eq_true_eq, lt_upperBound_iff sorted y inside]
  unfold Triton.searchIndex
  simp only [if_true, closes]
  omega

/-- The two paths agree exactly on the coordinates that equal no midpoint. -/
theorem bucketIndex_eq_searchIndex_iff [Zero α] (b : Nat) (midpoints : List α)
    (sorted : midpoints.Pairwise (· ≤ ·)) (count : midpoints.length = 2 ^ b - 1) (y : α) :
    Ascend.bucketIndex (2 ^ b) midpoints y = Triton.searchIndex b (2 ^ b) midpoints true y ↔
      y ∉ midpoints := by
  rw [bucketIndex_eq_lowerBound count, searchIndex_eq_upperBound sorted count]
  exact lowerBound_eq_upperBound_iff sorted y

theorem bucketIndex_eq_searchIndex_between :
    Ascend.bucketIndex (2 ^ 2) [-4, 0, (4 : Int)] 3 = Triton.searchIndex 2 (2 ^ 2) [-4, 0, (4 : Int)] true 3 :=
  (bucketIndex_eq_searchIndex_iff 2 [-4, 0, 4] (by decide) rfl 3).mpr (by decide)

/-- A zero coordinate sits on the middle midpoint of a symmetric table. -/
theorem bucketIndex_ne_searchIndex_tie :
    Ascend.bucketIndex (2 ^ 2) [-4, 0, (4 : Int)] 0 = 1 ∧ Triton.searchIndex 2 (2 ^ 2)
    [-4, 0, (4 : Int)] true 0 = 2 := by
  decide

/-! ### Nearest centroids -/

section
open Nearest

variable {α : Type*} [Field α] [LinearOrder α] (round : α →o α) {cs : List α} {b : Nat}

theorem computeMidpoints_sorted (round : α → α) (sorted : cs.Pairwise (· ≤ ·)) :
    Ascend.computeMidpoints round cs = zipWith (fun a b => round (round (a + b) / 2)) cs.dropLast cs.tail := by
  unfold Ascend.computeMidpoints
  rw [mergeSort_of_pairwise (sorted.imp fun le => decide_eq_true le)]

theorem length_computeMidpoints (cs : List α) : (Ascend.computeMidpoints round cs).length = cs.length - 1 := by
  simp [Ascend.computeMidpoints]

variable [IsStrictOrderedRing α]

/-- The rounding keeps the order of the midpoints, so that both searches find a threshold. -/
theorem pairwise_computeMidpoints (sorted : cs.Pairwise (· ≤ ·)) :
    (Ascend.computeMidpoints round cs).Pairwise (· ≤ ·) := by
  rw [computeMidpoints_sorted round sorted]
  refine pairwise_iff_getElem.mpr fun i j first second before => ?_
  have ordered := pairwise_iff_getElem.mp sorted
  simp only [length_zipWith, length_dropLast, length_tail] at first second
  simp only [getElem_zipWith, getElem_dropLast, getElem_tail]
  apply round.monotone
  have sums := round.monotone (add_le_add (ordered i j (by omega) (by omega) before)
    (ordered (i + 1) (j + 1) (by omega) (by omega) (by omega)))
  linarith

section
variable {y slack : α} (sorted : cs.Pairwise (· ≤ ·)) (positive : 0 ≤ slack)
  (error : ∀ m ∈ (Ascend.computeMidpoints round cs).zip (midpoints cs), |m.1 - m.2| ≤ slack)
include sorted positive error

theorem isNearest_of_threshold {k : Nat} (lt : k < cs.length)
    (below : ∀ i (mid : i < (Ascend.computeMidpoints round cs).length), i < k →
      (Ascend.computeMidpoints round cs)[i] ≤ y)
    (above : ∀ i (mid : i < (Ascend.computeMidpoints round cs).length), k ≤ i →
      y ≤ (Ascend.computeMidpoints round cs)[i]) : IsNearest cs y (2 * slack) k := by
  have size := length_computeMidpoints round cs
  have exact_ := length_midpoints cs
  have close : ∀ i (mid : i < (midpoints cs).length)
    (computed : i < (Ascend.computeMidpoints round cs).length),
      |(Ascend.computeMidpoints round cs)[i] - (midpoints cs)[i]| ≤ slack := by
    intro i mid computed
    have entry : i < ((Ascend.computeMidpoints round cs).zip (midpoints cs)).length := by
      rw [length_zip]
      omega
    have mem := getElem_mem entry
    rw [getElem_zip] at mem
    exact error _ mem
  refine isNearest_of_midpoints sorted positive lt (fun i mid before => ?_) fun i mid after => ?_
  · have near := abs_le.mp (close i mid (by omega))
    have reached := below i (by omega) before
    linarith [near.1]
  · have near := abs_le.mp (close i mid (by omega))
    have reached := above i (by omega) after
    linarith [near.2]

variable (count : cs.length = 2 ^ b)
include count

theorem bucketIndex_nearest : IsNearest cs y (2 * slack)
    (Ascend.bucketIndex (2 ^ b) (Ascend.computeMidpoints round cs) y) := by
  have some : 0 < 2 ^ b := Nat.two_pow_pos b
  have size := length_computeMidpoints round cs
  have bound := lowerBound_le_length (Ascend.computeMidpoints round cs) y
  have ordered := pairwise_iff_getElem.mp (pairwise_computeMidpoints round sorted)
  rw [bucketIndex_eq_lowerBound (by omega)]
  refine isNearest_of_threshold round sorted positive error (by omega)
    (fun i mid below => ?_) fun i mid above => ?_
  · have notReached := not_of_lt_findIdx below
    exact le_of_lt (by simpa using notReached)
  · have reached := le_getElem_lowerBound (l := Ascend.computeMidpoints round cs) (y := y) (by omega)
    rcases lt_or_eq_of_le above with strict | rfl
    · exact reached.trans (ordered _ _ (by omega) mid strict)
    · exact reached

theorem searchIndex_nearest :
    IsNearest cs y (2 * slack) (Triton.searchIndex b (2 ^ b) (Ascend.computeMidpoints round cs) true y) := by
  have some : 0 < 2 ^ b := Nat.two_pow_pos b
  have size := length_computeMidpoints round cs
  have bound := upperBound_le_length (Ascend.computeMidpoints round cs) y
  have ordered := pairwise_computeMidpoints round sorted
  have threshold := fun i (mid : i < (Ascend.computeMidpoints round cs).length) =>
    lt_upperBound_iff ordered y mid
  rw [searchIndex_eq_upperBound ordered (by omega)]
  refine isNearest_of_threshold round sorted positive error (by omega)
    (fun i mid below => (threshold i mid).mp below) fun i mid above => ?_
  exact le_of_lt (not_le.mp fun atMost => absurd ((threshold i mid).mpr atMost) (by omega))

end

/-- With midpoints of any monotone rounding, the centroid of either store path is farther than the
nearest one by at most twice the largest error of a midpoint, and the binary search loads existing
midpoints only. -/
theorem stores_choose_nearest (round : α →o α) (b : Nat) (centroids : List α)
    (sorted : centroids.Pairwise (· ≤ ·))
    (count : centroids.length = 2 ^ b) (slack : α) (positive : 0 ≤ slack)
    (error : ∀ m ∈ (Ascend.computeMidpoints round centroids).zip (midpoints centroids),
      |m.1 - m.2| ≤ slack) (y : α) :
    IsNearest centroids y (2 * slack)
      (Ascend.bucketIndex centroids.length (Ascend.computeMidpoints round centroids) y) ∧
    IsNearest centroids y (2 * slack)
      (Triton.searchIndex b (2 ^ b) (Ascend.computeMidpoints round centroids) true y) ∧
    ∀ i ∈ Triton.searchLoads b (2 ^ b) (Ascend.computeMidpoints round centroids) y,
      i < (Ascend.computeMidpoints round centroids).length := by
  rw [count]
  refine ⟨bucketIndex_nearest round sorted positive error count,
    searchIndex_nearest round sorted positive error count, fun i loaded => ?_⟩
  obtain ⟨mid, probed, rfl⟩ := mem_map.mp loaded
  rw [← zero_add (2 ^ b - 1)] at probed
  have inside := probes_lt _ b 0 mid probed
  rw [length_computeMidpoints, count]
  omega

def fourCentroids : List Rat :=
  [-3, -1, 0, 5]

/-- Rounding to multiples of one is off by a half at two of the midpoints. -/
def toWhole : Rat →o Rat :=
  ⟨fun x => (⌊x⌋ : Rat), fun _ _ le => Int.cast_le.mpr (Int.floor_mono le)⟩

theorem stores_choose_nearest_four :
    IsNearest fourCentroids 2 1
      (Ascend.bucketIndex fourCentroids.length (Ascend.computeMidpoints toWhole fourCentroids) 2) ∧
    IsNearest fourCentroids 2 1
      (Triton.searchIndex 2 (2 ^ 2) (Ascend.computeMidpoints toWhole fourCentroids) true 2) ∧
    ∀ i ∈ Triton.searchLoads 2 (2 ^ 2) (Ascend.computeMidpoints toWhole fourCentroids) 2,
      i < (Ascend.computeMidpoints toWhole fourCentroids).length := by
  have half : (1 : Rat) = 2 * (1 / 2) := by norm_num
  rw [half]
  exact stores_choose_nearest toWhole 2 fourCentroids (by decide +kernel) rfl (1 / 2) (by norm_num)
    (by rw [computeMidpoints_sorted toWhole (by decide +kernel)]; decide +kernel) 2

/-- Rounding to 24 bits, ties to even, for numbers in the normal range. -/
def float32 (x : Rat) : Rat :=
  let ulp := (2 : Rat) ^ (Int.log 2 |x| - 23)
  let below := ⌊x / ulp⌋
  let rest := x / ulp - below
  (if rest < 1 / 2 ∨ rest = 1 / 2 ∧ below % 2 = 0 then below else below + 1 : Int) * ulp

def neighbours : List Rat :=
  [1, 1 + 1 / 2 ^ 23]

/-- The midpoint of two neighbouring numbers is the first of them, and the search passes over it. -/
theorem stores_choose_next : Ascend.computeMidpoints float32 neighbours = [1] ∧
    Triton.searchIndex 1 (2 ^ 1) (Ascend.computeMidpoints float32 neighbours) true 1 = 1 ∧
    ¬ IsNearest neighbours 1 0 (Triton.searchIndex 1 (2 ^ 1)
      (Ascend.computeMidpoints float32 neighbours) true 1) := by
  have rounded : Ascend.computeMidpoints float32 neighbours = [1] := by
    rw [computeMidpoints_sorted float32 (by decide +kernel)]
    decide +kernel
  have next : Triton.searchIndex 1 (2 ^ 1) [(1 : Rat)] true 1 = 1 := by decide +kernel
  rw [rounded, next]
  refine ⟨rfl, rfl, ?_⟩
  rintro ⟨c, found, nearest⟩
  cases found
  have own := nearest 1 (mem_cons_self ..)
  norm_num at own

end

end TurboQuant
