import Mathlib.Analysis.Real.Pi.Bounds
import TurboQuant.Lib.Nearest
import TurboQuant.Lib.Trapezoid

/-!
The Lloyd-Max solver for the scalar quantizer. The density enters only through trapezoid sums; it is
a parameter here, and the Gaussian of the source is an instance.
-/

namespace TurboQuant.Quantization
open Nearest Trapezoid List Nat

structure Density (α : Type*) [Zero α] [Neg α] [LT α] where
  pdf : α → α
  positive : ∀ x, 0 < pdf x
  even : ∀ x, pdf (-x) = pdf x

variable {α : Type*} [Field α] [LinearOrder α]

/-- `3.5 * sigma` -/
def highest (sigma : α) : α := (7 : Nat) / (2 : Nat) * sigma

def initialCentroids (lo hi : α) (nLevels : Nat) : List α :=
  (range nLevels).map fun i : Nat => lo + (hi - lo) * (i + 1 / (2 : Nat)) / nLevels

def edges (lo hi : α) (centroids : List α) : List α := [lo * (3 : Nat)] ++ midpoints centroids ++
    [hi * (3 : Nat)]

def cellCentroid (pdf : α → α) (a b old : α) : α :=
  let num := trapz (fun x => x * pdf x) a b 200
  let den := trapz pdf a b 200
  if den > 1 / (10 : Nat) ^ 15 then num / den else old

def newCentroids (pdf : α → α) (lo hi : α) (centroids : List α) : List α :=
  let bounds := edges lo hi centroids
  (range centroids.length).map fun i =>
    cellCentroid pdf (bounds.getD i 0) (bounds.getD (i + 1) 0) (centroids.getD i 0)

def converged (tol : α) (new old : List α) : Bool :=
  (zipWith (fun a b => |a - b|) new old).max?.any fun change => decide (change < tol)

def lloydLoop (pdf : α → α) (lo hi tol : α) : Nat → List α → List α
  | 0, centroids => centroids
  | rounds + 1, centroids =>
    let new := newCentroids pdf lo hi centroids
    if converged tol new centroids then centroids else lloydLoop pdf lo hi tol rounds new

/-- Every list of centroids that the loop computes, the one it drops on convergence included. -/
def iterates (pdf : α → α) (lo hi tol : α) : Nat → List α → List (List α)
  | 0, centroids => [centroids]
  | rounds + 1, centroids =>
    let new := newCentroids pdf lo hi centroids
    centroids :: if converged tol new centroids then [new] else iterates pdf lo hi tol rounds new

def solveLloydMax (pdf : α → α) (sigma : α) (bits maxIter : Nat) (tol : α) : List α × List α :=
  let lo := -highest sigma
  let hi := highest sigma
  let centroids := lloydLoop pdf lo hi tol maxIter (initialCentroids lo hi (2 ^ bits))
  (centroids, midpoints centroids)

/-! ### Edges -/

/-- Each of the centroids `new` lies strictly inside the cell that the centroids `old` give it. -/
def Inside (lo hi : α) (old new : List α) : Prop :=
  ∀ i < old.length, (edges lo hi old).getD i 0 < new.getD i 0 ∧ new.getD i 0 < (edges lo hi old).getD (i + 1) 0

structure Placed (lo hi : α) (nLevels : Nat) (centroids : List α) : Prop where
  length : centroids.length = nLevels
  increasing : centroids.Pairwise (· < ·)
  symmetric : centroids.reverse = centroids.map (-·)
  inside : Inside lo hi centroids centroids

section
omit [LinearOrder α]
variable {lo hi : α} {centroids : List α}

theorem edges_first : (edges lo hi centroids).getD 0 0 = lo * 3 := rfl

theorem edges_inner {i : Nat} (inside : i + 1 < centroids.length) :
    (edges lo hi centroids).getD (i + 1) 0 = (centroids.getD i 0 + centroids.getD (i + 1) 0) / 2 := by
  have size := length_midpoints centroids
  rw [edges, append_assoc, singleton_append, getD_cons_succ,
    getD_append _ _ _ _ (by omega), getD_midpoints inside]

theorem edges_last (nonempty : 0 < centroids.length) :
    (edges lo hi centroids).getD centroids.length 0 = hi * 3 := by
  have size := length_midpoints centroids
  have past : ([lo * (3 : Nat)] ++ midpoints centroids).length = centroids.length := by
    rw [length_append, length_singleton]
    omega
  rw [edges, getD_append_right _ _ _ _ (by omega), past, Nat.sub_self]
  rfl

theorem edges_symmetric (balanced : lo = -hi) (nonempty : 0 < centroids.length)
    (symmetric : ∀ i < centroids.length,
      centroids.getD (centroids.length - 1 - i) 0 = -centroids.getD i 0) {i : Nat}
    (bound : i ≤ centroids.length) :
    (edges lo hi centroids).getD (centroids.length - i) 0 = -(edges lo hi centroids).getD i 0 := by
  rcases Nat.eq_zero_or_pos i with rfl | pos
  · rw [Nat.sub_zero, edges_last nonempty, edges_first, balanced]
    ring
  rcases lt_or_eq_of_le bound with below | rfl
  · obtain ⟨k, rfl⟩ := exists_eq_succ_of_ne_zero pos.ne'
    obtain ⟨l, eq⟩ : ∃ l, centroids.length - (k + 1) = l + 1 := ⟨centroids.length - (k + 1) - 1, by omega⟩
    have left := symmetric (k + 1) below
    have right := symmetric k (by omega)
    rw [show centroids.length - 1 - (k + 1) = l by omega] at left
    rw [show centroids.length - 1 - k = l + 1 by omega] at right
    rw [succ_eq_add_one, eq, edges_inner (by omega), edges_inner below, left, right]
    ring
  · rw [Nat.sub_self, edges_last nonempty, edges_first, balanced]
    ring

end

/-! ### One round -/

variable [IsStrictOrderedRing α]

theorem cellCentroid_inside (density : Density α) {a b old : α} (left : a < old) (right : old < b) :
    a < cellCentroid density.pdf a b old ∧ cellCentroid density.pdf a b old < b := by
  unfold cellCentroid
  simp only
  split
  · exact mean_inside (left.trans right) (by decide) density.positive
  · exact ⟨left, right⟩

theorem cellCentroid_mirror (density : Density α) (a b old : α) :
    cellCentroid density.pdf (-b) (-a) (-old) = -cellCentroid density.pdf a b old := by
  have mass : trapz density.pdf (-b) (-a) 200 = trapz density.pdf a b 200 := by
    rw [trapz_mirror _ _ _ (by decide)]
    simp only [density.even]
  have moment : trapz (fun x => x * density.pdf x) (-b) (-a) 200 = -trapz
      (fun x => x * density.pdf x) a b 200 := by
    rw [trapz_mirror _ _ _ (by decide), ← trapz_neg]
    simp only [density.even, neg_mul]
  unfold cellCentroid
  simp only [mass, moment]
  split
  · exact neg_div _ _
  · rfl

structure Levels (lo hi : α) (nLevels : Nat) (centroids : List α) : Prop where
  length : centroids.length = nLevels
  increasing : ∀ i, i + 1 < nLevels → centroids.getD i 0 < centroids.getD (i + 1) 0
  symmetric : ∀ i < nLevels, centroids.getD (nLevels - 1 - i) 0 = -centroids.getD i 0
  lowest : lo * 3 < centroids.getD 0 0
  highest : centroids.getD (nLevels - 1) 0 < hi * 3

section
variable {lo hi : α} {nLevels : Nat} {centroids : List α} (levels : Levels lo hi nLevels centroids)
include levels

theorem Levels.inside : Inside lo hi centroids centroids := by
  intro i bound
  have length := levels.length
  constructor
  · cases i with
    | zero =>
      rw [edges_first]
      exact levels.lowest
    | succ i =>
      have step := levels.increasing i (by omega)
      rw [edges_inner bound]
      linarith
  · rcases lt_or_eq_of_le (succ_le_of_lt bound) with below | last
    · have step := levels.increasing i (by omega)
      rw [edges_inner below]
      linarith
    · have top := levels.highest
      rw [← length, ← last, Nat.succ_eq_add_one, Nat.add_sub_cancel] at top
      rwa [← succ_eq_add_one, last, edges_last (by omega)]

theorem Levels.placed : Placed lo hi nLevels centroids where
  length := levels.length
  increasing := by
    have length := levels.length
    refine isChain_iff_pairwise.mp (isChain_iff_getElem.mpr fun i bound => ?_)
    have step := levels.increasing i (by omega)
    rwa [getD_eq_getElem _ _ (by omega), getD_eq_getElem _ _ bound] at step
  symmetric := by
    have length := levels.length
    refine ext_getElem (by simp) fun i first second => ?_
    rw [length_reverse] at first
    have mirrored := levels.symmetric i (by omega)
    rw [← length, getD_eq_getElem _ _ (by omega), getD_eq_getElem _ _ first] at mirrored
    rw [getElem_reverse, getElem_map, mirrored]
  inside := levels.inside

end

omit [IsStrictOrderedRing α] in
theorem getD_newCentroids (pdf : α → α) (lo hi : α) {centroids : List α} {i : Nat}
    (bound : i < centroids.length) : (newCentroids pdf lo hi centroids).getD i 0 =
      cellCentroid pdf ((edges lo hi centroids).getD i 0) ((edges lo hi centroids).getD (i + 1) 0)
        (centroids.getD i 0) := by
  rw [getD_eq_getElem _ _ (by simpa [newCentroids] using bound)]
  simp only [newCentroids, getElem_map, getElem_range]

section
variable (density : Density α) {lo hi : α} {nLevels : Nat} {centroids : List α}

theorem newCentroids_inside (levels : Levels lo hi nLevels centroids) :
    Inside lo hi centroids (newCentroids density.pdf lo hi centroids) := by
  intro i bound
  rw [getD_newCentroids _ _ _ bound]
  have inside := levels.inside i bound
  exact cellCentroid_inside density inside.1 inside.2

theorem newCentroids_levels (balanced : lo = -hi) (some : 0 < nLevels)
    (levels : Levels lo hi nLevels centroids) :
    Levels lo hi nLevels (newCentroids density.pdf lo hi centroids) := by
  obtain rfl := levels.length
  have inside := newCentroids_inside density levels
  refine ⟨by simp [newCentroids], fun i bound => ?_, fun i bound => ?_, ?_, ?_⟩
  · exact (inside i (by omega)).2.trans (inside (i + 1) bound).1
  · have lower := edges_symmetric balanced some levels.symmetric (show i + 1 ≤ centroids.length by omega)
    have upper := edges_symmetric balanced some levels.symmetric (show i ≤ centroids.length by omega)
    have same := levels.symmetric i bound
    rw [getD_newCentroids _ _ _ (by omega), getD_newCentroids _ _ _ bound, same,
      show centroids.length - 1 - i + 1 = centroids.length - i by omega, upper,
      show centroids.length - 1 - i = centroids.length - (i + 1) by omega, lower, cellCentroid_mirror]
  · have first := (inside 0 some).1
    rwa [edges_first] at first
  · have last := (inside (centroids.length - 1) (by omega)).2
    rwa [Nat.sub_add_cancel some, edges_last some] at last

theorem initialCentroids_levels (pos : 0 < hi) (balanced : lo = -hi) (some : 0 < nLevels) :
    Levels lo hi nLevels (initialCentroids lo hi nLevels) := by
  have count : (0 : α) < nLevels := cast_pos.mpr some
  have e : ∀ i < nLevels,
      (initialCentroids lo hi nLevels).getD i 0 = lo + (hi - lo) * (i + 1 / 2) / nLevels := by
    intro i bound
    rw [getD_eq_getElem _ _ (by simpa [initialCentroids] using bound)]
    simp only [initialCentroids, getElem_map, getElem_range, cast_ofNat]
  have lowest : ∀ i : Nat, lo < lo + (hi - lo) * (i + 1 / 2) / nLevels := by
    intro i
    have shift : 0 < (hi - lo) * ((i : α) + 1 / 2) / nLevels := by
      refine div_pos (mul_pos (by linarith) ?_) count
      linarith
    linarith
  have mirrored : ∀ i < nLevels, (initialCentroids lo hi nLevels).getD (nLevels - 1 - i) 0 =
      -(initialCentroids lo hi nLevels).getD i 0 := by
    intro i bound
    rw [e _ (by omega), e i bound, balanced, Nat.sub_sub, Nat.cast_sub (by omega)]
    push_cast
    field_simp
    ring
  refine ⟨by simp [initialCentroids], fun i bound => ?_, mirrored, ?_, ?_⟩
  · rw [e i (by omega), e (i + 1) bound, add_lt_add_iff_left]
    refine div_lt_div_of_pos_right (mul_lt_mul_of_pos_left ?_ (by linarith)) count
    push_cast
    linarith
  · rw [e 0 some]
    have above := lowest 0
    linarith
  · have below := mirrored 0 some
    rw [Nat.sub_zero, e 0 some] at below
    have above := lowest 0
    rw [below]
    linarith

end

/-! ### Every round -/

theorem iterates_levels (density : Density α) {lo hi : α} {nLevels : Nat} (balanced : lo = -hi)
    (some : 0 < nLevels)
    (tol : α) (rounds : Nat) {centroids : List α} (levels : Levels lo hi nLevels centroids) :
    (∀ c ∈ iterates density.pdf lo hi tol rounds centroids, Levels lo hi nLevels c) ∧
      (iterates density.pdf lo hi tol rounds centroids).IsChain (Inside lo hi) ∧
      lloydLoop density.pdf lo hi tol rounds centroids ∈ iterates density.pdf lo hi tol rounds centroids ∧
      (iterates density.pdf lo hi tol rounds centroids).head? = .some centroids := by
  induction rounds generalizing centroids with
  | zero =>
    refine ⟨fun c mem => ?_, isChain_singleton _, mem_singleton.mpr rfl, rfl⟩
    rwa [mem_singleton.mp mem]
  | succ rounds ih =>
    have next := newCentroids_levels density balanced some levels
    have inside := newCentroids_inside density levels
    obtain ⟨each, chained, final, head⟩ := ih next
    rw [iterates, lloydLoop]
    split
    · refine ⟨fun c mem => ?_, isChain_pair.mpr inside, mem_cons_self, rfl⟩
      rcases mem_pair.mp mem with rfl | rfl
      · exact levels
      · exact next
    · refine ⟨fun c mem => ?_, ?_, mem_cons_of_mem _ final, rfl⟩
      · rcases mem_cons.mp mem with rfl | later
        · exact levels
        · exact each c later
      · refine isChain_cons.mpr ⟨fun c first => ?_, chained⟩
        rw [head] at first
        rwa [← Option.some.inj first]

/-- Every list of centroids the solver computes is strictly increasing, symmetric about zero and
strictly inside its own cells and the cells of the round before; the solver returns one of them with
its midpoints. -/
theorem solveLloydMax_placed (density : Density α) (sigma : α) (positive : 0 < sigma)
    (bits maxIter : Nat) (tol : α) : let lo := -highest sigma
    let hi := highest sigma
    let rounds := iterates density.pdf lo hi tol maxIter (initialCentroids lo hi (2 ^ bits))
    let solved := solveLloydMax density.pdf sigma bits maxIter tol
    (∀ c ∈ rounds, Placed lo hi (2 ^ bits) c) ∧ rounds.IsChain (Inside lo hi) ∧ solved.1 ∈ rounds ∧
      solved.2.length = 2 ^ bits - 1 ∧
      ∀ i, i + 1 < 2 ^ bits → solved.2.getD i 0 = (solved.1.getD i 0 + solved.1.getD (i + 1) 0) / 2 := by
  intro lo hi rounds solved
  have balanced : lo = -hi := rfl
  have above : 0 < hi := mul_pos (div_pos (cast_pos.mpr (by decide)) (cast_pos.mpr (by decide))) positive
  have some : 0 < 2 ^ bits := Nat.two_pow_pos bits
  obtain ⟨each, chained, final, -⟩ :=
    iterates_levels density balanced some tol maxIter (initialCentroids_levels above balanced some)
  have length : solved.1.length = 2 ^ bits := (each _ final).length
  have size : solved.2.length = 2 ^ bits - 1 := by rw [← length]; exact length_midpoints _
  refine ⟨fun c member => (each c member).placed, chained, final, size, fun i bound => ?_⟩
  exact getD_midpoints (by rw [← length] at bound; exact bound)

/-! ### The Gaussian density -/

noncomputable def gaussianPdf (x sigma2 : ℝ) : ℝ :=
  1 / Real.sqrt ((2 : Nat) * Real.pi * sigma2) * Real.exp (-x * x / ((2 : Nat) * sigma2))

noncomputable def gaussian (d : Nat) (positive : 0 < d) : Density ℝ where
  pdf := fun x => gaussianPdf x (1 / d)
  positive := fun x => by
    have variance : (0 : ℝ) < 1 / d := one_div_pos.mpr (Nat.cast_pos.mpr positive)
    exact mul_pos (one_div_pos.mpr (Real.sqrt_pos.mpr (mul_pos Real.two_pi_pos variance))) (Real.exp_pos _)
  even := fun x => by rw [gaussianPdf, gaussianPdf, neg_neg, mul_neg, neg_mul]

theorem solveLloydMax_gaussian :
    let density := gaussian 128 (by decide)
    let sigma := Real.sqrt (1 / (128 : Nat))
    let lo := -highest sigma
    let hi := highest sigma
    let rounds := iterates density.pdf lo hi (1 / 10 ^ 10) 200 (initialCentroids lo hi (2 ^ 3))
    let solved := solveLloydMax density.pdf sigma 3 200 (1 / 10 ^ 10)
    0 < sigma ∧ (∀ c ∈ rounds, Placed lo hi (2 ^ 3) c) ∧ rounds.IsChain (Inside lo hi) ∧ solved.1 ∈ rounds ∧
      solved.2.length = 2 ^ 3 - 1 ∧
      ∀ i, i + 1 < 2 ^ 3 → solved.2.getD i 0 = (solved.1.getD i 0 + solved.1.getD (i + 1) 0) / 2 := by
  have positive : 0 < Real.sqrt (1 / (128 : Nat)) := Real.sqrt_pos.mpr (by norm_num)
  exact ⟨positive, solveLloydMax_placed (gaussian 128 (by decide)) _ positive 3 200 _⟩

end TurboQuant.Quantization
