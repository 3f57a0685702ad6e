import Mathlib.Algebra.BigOperators.Field
import Mathlib.Analysis.Real.Sqrt
import TurboQuant.Lib.Sylvester
import TurboQuant.Lib.Tensor

/-!
The rotation of the TurboQuant attention backend.
-/

namespace TurboQuant.Attention
open Sylvester Finset Tensor Real

variable {α : Type*}

def supportsHeadSize (headSize : Nat) : Bool := decide (headSize > 0)

def hadamardLoop [Neg α] (d n : Nat) (positive : 0 < n) (h : Nat → Nat → α) : Tensor α :=
  if n < d then hadamardLoop d (n + n) (Nat.add_pos_left positive n) (double n h) else matrix n n h
termination_by d - n

/-- `root` is `math.sqrt(d)`. The layer uses the result as `_tq_PiT` and as `_tq_Pi`. -/
def buildHadamard [One α] [Neg α] [Div α] (root : α) (d : Nat) : Tensor α :=
  (hadamardLoop d 1 Nat.one_pos fun _ _ => 1).map (· / root)

/-- An orthogonal matrix of the head size, with which a key rotated twice is the key again. -/
structure IsRotation [NonAssocSemiring α] (d : Nat) (h : Tensor α) : Prop where
  square : h.shape = [d, d]
  product : ∃ p, h.matmul h.transpose = .ok p ∧ p.shape = [d, d] ∧
    ∀ i < d, ∀ j < d, p.entry [i, j] = if i = j then 1 else 0
  roundTrip : ∀ key : Tensor α, key.shape = [d] →
    ∃ y back, key.matmul h = .ok y ∧ y.matmul h = .ok back ∧ back.shape = [d] ∧
      ∀ j < d, back.entry [j] = key.entry [j]

section
variable [CommRing α]

theorem hadamardLoop_eq (d n : Nat) (pos : 0 < n) {h : Nat → Nat → α} (hadamard : Hadamard n h) :
    ∃ k h', hadamardLoop d n pos h = matrix (n * 2 ^ k) (n * 2 ^ k) h' ∧ Hadamard (n * 2 ^ k) h' ∧
      d ≤ n * 2 ^ k ∧ ∀ l < k, n * 2 ^ l < d := by
  induction n, pos, h using hadamardLoop.induct (α := α) d with
  | case1 n pos h smaller ih =>
    obtain ⟨k, h', eq, hadamard', enough, least⟩ := ih hadamard.double
    have size : (n + n) * 2 ^ k = n * 2 ^ (k + 1) := by ring
    rw [size] at eq hadamard' enough
    refine ⟨k + 1, h', by rw [hadamardLoop, if_pos smaller, eq], hadamard', enough, fun l bound => ?_⟩
    cases l with
    | zero => simpa using smaller
    | succ l =>
      have below := least l (by omega)
      rwa [show (n + n) * 2 ^ l = n * 2 ^ (l + 1) by ring] at below
  | case2 n pos h notSmaller =>
    refine ⟨0, h, ?_, ?_, ?_, fun l none => absurd none (Nat.not_lt_zero l)⟩
    · rw [hadamardLoop, if_neg notSmaller, pow_zero, mul_one]
    · rwa [pow_zero, mul_one]
    · omega

end

section
variable [Field α] {root : α} {d : Nat}

theorem buildHadamard_eq (root : α) (d : Nat) :
    ∃ k h, buildHadamard root d = matrix (2 ^ k) (2 ^ k) (fun i j => h i j / root) ∧ Hadamard (2 ^ k) h ∧
      d ≤ 2 ^ k ∧ ∀ l < k, 2 ^ l < d := by
  obtain ⟨k, h, eq, hadamard, enough, least⟩ := hadamardLoop_eq d 1 one_pos (Hadamard.one (α := α))
  rw [one_mul] at eq hadamard enough
  refine ⟨k, h, by rw [buildHadamard, eq]; rfl, hadamard, enough, fun l bound => ?_⟩
  simpa using least l bound

section
variable (square : root * root = (d : α)) (nonzero : (d : α) ≠ 0) {h : Nat → Nat → α} (hadamard : Hadamard d h)
include square nonzero hadamard

theorem scaled_rows {i j : Nat} (first : i < d) (second : j < d) :
    ∑ t ∈ range d, h i t / root * (h j t / root) = if i = j then 1 else 0 := by
  have scaled : ∀ t, h i t / root * (h j t / root) = h i t * h j t / d :=
    fun t => by rw [div_mul_div_comm, square]
  rw [sum_congr rfl fun t _ => scaled t, ← sum_div, hadamard.rows i first j second]
  split
  · exact div_self nonzero
  · exact zero_div _

theorem roundTrip_entry (key : Nat → α) {j : Nat} (bound : j < d) :
    ∑ t ∈ range d, (∑ s ∈ range d, key s * (h s t / root)) * (h t j / root) = key j := by
  have column : ∀ s < d, ∑ t ∈ range d, h s t / root * (h t j / root) = if s = j then 1 else 0 := by
    intro s row
    rw [← scaled_rows square nonzero hadamard row bound]
    exact sum_congr rfl fun t lt => by rw [hadamard.symmetric t (mem_range.mp lt) j bound]
  calc ∑ t ∈ range d, (∑ s ∈ range d, key s * (h s t / root)) * (h t j / root)
      = ∑ s ∈ range d, key s * ∑ t ∈ range d, h s t / root * (h t j / root) := by
        simp only [sum_mul, mul_sum, mul_assoc]
        exact sum_comm
    _ = ∑ s ∈ range d, if s = j then key s else 0 :=
        sum_congr rfl fun s lt => by
          rw [column s (mem_range.mp lt), mul_ite, mul_one, mul_zero]
    _ = key j := by rw [sum_ite_eq', if_pos (mem_range.mpr bound)]

theorem isRotation_of_hadamard : IsRotation d (matrix d d fun i j => h i j / root) where
  square := rfl
  product := ⟨_, matmul_matrix rfl rfl, rfl, fun _ first _ second =>
    scaled_rows square nonzero hadamard first second⟩
  roundTrip := fun key shape =>
    ⟨_, _, matmul_vector shape rfl, matmul_vector rfl rfl, rfl, fun _ bound =>
      roundTrip_entry square nonzero hadamard (fun s => key.entry [s]) bound⟩

end

end

/-- With the exact square root, the matrix is a rotation for the powers of two among the accepted
head sizes and for no other. -/
theorem buildHadamard_isRotation_iff (headSize : Nat) (accepted : supportsHeadSize headSize = true) :
    IsRotation headSize (buildHadamard (sqrt headSize) headSize) ↔ ∃ k, headSize = 2 ^ k := by
  have positive : 0 < headSize := of_decide_eq_true accepted
  have nonzero : (headSize : ℝ) ≠ 0 := Nat.cast_ne_zero.mpr (by omega)
  obtain ⟨k, h, eq, hadamard, enough, least⟩ := buildHadamard_eq (sqrt headSize) headSize
  constructor
  · intro rotation
    have shape : [2 ^ k, 2 ^ k] = [headSize, headSize] := by
      rw [← rotation.square, eq]
      rfl
    exact ⟨k, (List.cons.inj shape).1.symm⟩
  · rintro ⟨l, rfl⟩
    -- the first power of two that is at least `2 ^ l` is `2 ^ l`
    have same : k = l := by
      rcases lt_trichotomy k l with less | same | more
      · exact absurd (Nat.pow_lt_pow_right Nat.one_lt_two less) (by omega)
      · exact same
      · exact absurd (least l more) (lt_irrefl _)
    subst same
    rw [eq]
    exact isRotation_of_hadamard (mul_self_sqrt (Nat.cast_nonneg _)) nonzero hadamard

theorem buildHadamard_isRotation_four :
    supportsHeadSize 4 = true ∧ (IsRotation 4 (buildHadamard (sqrt (4 : Nat)) 4) ↔ ∃ k, 4 = 2 ^ k) :=
  ⟨rfl, buildHadamard_isRotation_iff 4 rfl⟩

/-- For a head of 96 coordinates the matrix has 128 rows, so the product with a key raises. -/
theorem buildHadamard_ninetySix :
    supportsHeadSize 96 = true ∧ (buildHadamard (sqrt (96 : Nat)) 96).shape = [128, 128] ∧
      ¬ IsRotation 96 (buildHadamard (sqrt (96 : Nat)) 96) := by
  have shape : (buildHadamard (sqrt (96 : Nat)) 96).shape = [128, 128] := by
    obtain ⟨k, h, eq, -, enough, least⟩ := buildHadamard_eq (sqrt (96 : Nat)) 96
    have atLeast : ¬ k < 7 := fun small => by
      have bound : 2 ^ k ≤ 2 ^ 6 := Nat.pow_le_pow_right (by decide) (by omega)
      omega
    have atMost : ¬ 7 < k := fun large => absurd (least 7 large) (by decide)
    obtain rfl : k = 7 := by omega
    rw [eq]
    rfl
  refine ⟨rfl, shape, fun rotation => ?_⟩
  rw [rotation.square] at shape
  exact absurd shape (by decide)

theorem scaled_dot {d : Nat} {root : ℝ} (square : root * root = d) (nonzero : (d : ℝ) ≠ 0) {h : Nat → Nat → ℝ}
    (hadamard : Hadamard d h) (q key : Nat → ℝ) :
    ∑ t ∈ range d, (∑ s ∈ range d, q s * (h s t / root)) * ∑ s ∈ range d, key s * (h s t / root) =
      ∑ s ∈ range d, q s * key s := by
  calc _ = ∑ s ∈ range d, q s * ∑ s' ∈ range d, key s' * ∑ t ∈ range d, h s t / root * (h s' t / root) := by
        simp only [sum_mul_sum]
        rw [sum_comm]
        simp only [mul_sum]
        refine sum_congr rfl fun s _ => sum_comm.trans ?_
        exact sum_congr rfl fun s' _ => sum_congr rfl fun t _ => by ring
    _ = ∑ s ∈ range d, q s * key s := sum_congr rfl fun s lt => by
        rw [sum_congr rfl fun s' lt' => by rw [scaled_rows square nonzero hadamard (mem_range.mp lt)
          (mem_range.mp lt')]]
        simp [mem_range.mp lt]

/-- For a power of two, the scores of rotated queries and keys are those of the queries and keys. -/
theorem buildHadamard_scores (k : Nat) (q key : Nat → ℝ) : ∃ y z,
    (vector (2 ^ k) q).matmul (buildHadamard (sqrt (2 ^ k : Nat)) (2 ^ k)) = .ok y ∧
    (vector (2 ^ k) key).matmul (buildHadamard (sqrt (2 ^ k : Nat)) (2 ^ k)) = .ok z ∧
    ∑ t ∈ range (2 ^ k), y.entry [t] * z.entry [t] = ∑ t ∈ range (2 ^ k), q t * key t := by
  obtain ⟨l, h, eq, hadamard, enough, least⟩ := buildHadamard_eq (sqrt (2 ^ k : Nat)) (2 ^ k)
  obtain rfl : l = k :=
    le_antisymm (not_lt.mp fun more => (least k more).false)
      ((Nat.pow_le_pow_iff_right Nat.one_lt_two).mp enough)
  have nonzero : ((2 ^ l : Nat) : ℝ) ≠ 0 := Nat.cast_ne_zero.mpr (Nat.two_pow_pos l).ne'
  rw [eq]
  exact ⟨_, _, matmul_vector rfl rfl, matmul_vector rfl rfl,
    scaled_dot (mul_self_sqrt (Nat.cast_nonneg _)) nonzero hadamard q key⟩

end TurboQuant.Attention
