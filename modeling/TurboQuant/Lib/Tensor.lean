import Mathlib.Algebra.BigOperators.Group.Finset.Basic
import Mathlib.Algebra.Ring.Defs
import TurboQuant.Lib.Outcome

/-!
Dense tensors with a dynamic shape. An operation whose operands do not fit raises a `ShapeError`.
-/

inductive ShapeError where
  | matmul (left right : List Nat)
  | dimOutOfRange (shape : List Nat) (dim : Nat)
  | broadcast (left right : List Nat)
  | reshape (shape target : List Nat)
  | indexOutOfBounds (index size : Nat)
  | emptyReduction
  deriving DecidableEq, Repr

/-- `entry` is read at multi-indices below `shape`. -/
structure Tensor (α : Type*) where
  shape : List Nat
  entry : List Nat → α

namespace Tensor
open Nat List

variable {α β γ : Type*}

def numel (shape : List Nat) : Nat := shape.prod

def size (t : Tensor α) (dim : Nat) : Except ShapeError Nat :=
  match t.shape[dim]? with
  | some n => .ok n
  | none => .error (.dimOutOfRange t.shape dim)

def vector (n : Nat) (f : Nat → α) : Tensor α := ⟨[n], fun i => f (i.getD 0 0)⟩

def matrix (m n : Nat) (f : Nat → Nat → α) : Tensor α := ⟨[m, n], fun i => f (i.getD 0 0) (i.getD 1 0)⟩

/-- `a @ b` for operands of rank one and two: a leading vector is a row, a trailing vector is a
column, and the added dimension is dropped from the result. -/
def matmul [NonUnitalNonAssocSemiring α] (a b : Tensor α) : Except ShapeError (Tensor α) :=
  match a.shape, b.shape with
  | [k], [k'] =>
    if k = k' then .ok ⟨[], fun _ => ((range k).map fun t => a.entry [t] * b.entry [t]).sum⟩
    else .error (.matmul a.shape b.shape)
  | [k], [k', n] =>
    if k = k' then .ok (vector n fun j => ((range k).map fun t => a.entry [t] * b.entry [t, j]).sum)
    else .error (.matmul a.shape b.shape)
  | [m, k], [k'] =>
    if k = k' then .ok (vector m fun i => ((range k).map fun t => a.entry [i, t] * b.entry [t]).sum)
    else .error (.matmul a.shape b.shape)
  | [m, k], [k', n] =>
    if k = k' then
      .ok (matrix m n fun i j => ((range k).map fun t => a.entry [i, t] * b.entry [t, j]).sum)
    else .error (.matmul a.shape b.shape)
  | _, _ => .error (.matmul a.shape b.shape)

def indices : List Nat → List (List Nat)
  | [] => [[]]
  | n :: rest => (range n).flatMap fun i => (indices rest).map (i :: ·)

/-- `t[index]` with an integer tensor: the leading dimension is replaced by the shape of `index`. -/
def gather (t : Tensor α) (index : Tensor Nat) : Except ShapeError (Tensor α) :=
  match t.shape with
  | [] => .error (.dimOutOfRange [] 0)
  | n :: rest =>
    match (indices index.shape).find? (fun i => decide (n ≤ index.entry i)) with
    | some i => .error (.indexOutOfBounds (index.entry i) n)
    | none =>
      .ok ⟨index.shape ++ rest, fun i =>
        t.entry (index.entry (i.take index.shape.length) :: i.drop index.shape.length)⟩

def unsqueezeLast (t : Tensor α) : Tensor α := ⟨t.shape ++ [1], fun i => t.entry (i.take t.shape.length)⟩

/-- Shapes are aligned at their last dimension; a missing dimension or one of size one stretches. -/
def broadcastRev : List Nat → List Nat → Option (List Nat)
  | [], right => some right
  | left, [] => some left
  | m :: left, n :: right =>
    if m = n ∨ n = 1 then (m :: ·) <$> broadcastRev left right
    else if m = 1 then (n :: ·) <$> broadcastRev left right
    else none

def broadcastShape (left right : List Nat) : Option (List Nat) :=
  reverse <$> broadcastRev left.reverse right.reverse

def broadcastIndex (shape i : List Nat) : List Nat :=
  zipWith (fun n k => if n = 1 then 0 else k) shape (i.drop (i.length - shape.length))

def map₂ (f : α → β → γ) (a : Tensor α) (b : Tensor β) : Except ShapeError (Tensor γ) :=
  match broadcastShape a.shape b.shape with
  | some shape => .ok ⟨shape, fun i => f (a.entry (broadcastIndex a.shape i))
    (b.entry (broadcastIndex b.shape i))⟩
  | none => .error (.broadcast a.shape b.shape)

def ravel : List Nat → List Nat → Nat
  | _ :: rest, i :: is => i * numel rest + ravel rest is
  | _, _ => 0

def unravel : List Nat → Nat → List Nat
  | [], _ => []
  | _ :: rest, p => p / numel rest :: unravel rest (p % numel rest)

def reshape (t : Tensor α) (target : List Nat) : Except ShapeError (Tensor α) :=
  if numel t.shape = numel target then
    .ok ⟨target, fun i => t.entry (unravel t.shape (ravel target i))⟩
  else .error (.reshape t.shape target)

def swapMiddle (t : Tensor α) : Except ShapeError (Tensor α) :=
  match t.shape with
  | [a, b, c, d] => .ok ⟨[a, c, b, d], fun i => t.entry [i.getD 0 0, i.getD 2 0, i.getD 1 0, i.getD 3 0]⟩
  | shape => .error (.reshape shape [0, 2, 1, 3])

/-- `dst[:] = src`: the source is stretched to the shape of the destination. -/
def copyInto (dst src : Tensor α) : Except ShapeError (Tensor α) :=
  if broadcastShape dst.shape src.shape = some dst.shape then
    .ok ⟨dst.shape, fun i => src.entry (broadcastIndex src.shape i)⟩
  else .error (.broadcast dst.shape src.shape)

def map (f : α → β) (t : Tensor α) : Tensor β := ⟨t.shape, fun i => f (t.entry i)⟩

def transpose (t : Tensor α) : Tensor α := ⟨t.shape.reverse, fun i => t.entry i.reverse⟩

def slice (t : Tensor α) (start stop : Nat) : Tensor α :=
  match t.shape with
  | [] => t
  | n :: rest => ⟨(min stop n - min start n) :: rest, fun i => t.entry ((start + i.getD 0 0) :: i.tail)⟩

def swapFirst (t : Tensor α) : Tensor α :=
  match t.shape with
  | m :: n :: rest => ⟨n :: m :: rest, fun i => t.entry (i.getD 1 0 :: i.getD 0 0 :: i.drop 2)⟩
  | _ => t

theorem size_ok {t : Tensor α} {dim n : Nat} (read : t.size dim = .ok n) : t.shape[dim]? = some n := by
  unfold size at read
  split at read
  · rename_i m found
    rw [found, Except.ok.inj read]
  · cases read

theorem broadcastRev_self (shape : List Nat) : broadcastRev shape shape = some shape := by
  induction shape with
  | nil => rfl
  | cons n rest ih => simp [broadcastRev, ih]

@[simp] theorem broadcastShape_self (shape : List Nat) : broadcastShape shape shape = some shape := by
  simp [broadcastShape, broadcastRev_self]

variable {shape i : List Nat}

theorem broadcastIndex_self (inside : List.Forall₂ (· < ·) i shape) : broadcastIndex shape i = i := by
  rw [broadcastIndex, inside.length_eq, Nat.sub_self, drop_zero]
  induction inside with
  | nil => rfl
  | cons below _ ih =>
    rw [zipWith_cons_cons, ih]
    congr 1
    split
    · omega
    · rfl

theorem copyInto_self (dst src : Tensor α) (same : src.shape = dst.shape) :
    ∃ r, dst.copyInto src = .ok r ∧ r.shape = dst.shape ∧
      ∀ i, List.Forall₂ (· < ·) i dst.shape → r.entry i = src.entry i := by
  unfold copyInto
  rw [same, broadcastShape_self, if_pos rfl]
  refine ⟨_, rfl, rfl, fun i inside => ?_⟩
  show src.entry (broadcastIndex dst.shape i) = _
  rw [broadcastIndex_self inside]

theorem copyInto_shape {dst src r : Tensor α} (ran : dst.copyInto src = .ok r) : r.shape = dst.shape := by
  unfold copyInto at ran
  split at ran
  · rw [← Except.ok.inj ran]
  · cases ran

theorem reshape_of_numel (t : Tensor α) {target : List Nat} (same : numel t.shape = numel target) :
    t.reshape target = .ok ⟨target, fun i => t.entry (unravel t.shape (ravel target i))⟩ := if_pos same

theorem unravel_add {n p q : Nat} {rest : List Nat} (inside : q < numel rest) :
    unravel (n :: rest) (p * numel rest + q) = p :: unravel rest q := by
  have positive : 0 < numel rest := lt_of_le_of_lt (zero_le q) inside
  show (p * numel rest + q) / numel rest :: unravel rest ((p * numel rest + q) % numel rest) = _
  rw [mul_comm, mul_add_div positive, div_eq_of_lt inside, add_zero, mul_add_mod, mod_eq_of_lt inside]

theorem ravel_lt (inside : List.Forall₂ (· < ·) i shape) : ravel shape i < numel shape := by
  induction inside with
  | nil => exact Nat.one_pos
  | @cons k n is rest below _ ih =>
    show k * numel rest + ravel rest is < n * numel rest
    calc k * numel rest + ravel rest is < k * numel rest + numel rest := Nat.add_lt_add_left ih _
      _ = (k + 1) * numel rest := (Nat.succ_mul _ _).symm
      _ ≤ n * numel rest := Nat.mul_le_mul_right _ below

/-- A position in a shape is read back. -/
theorem unravel_ravel (inside : List.Forall₂ (· < ·) i shape) : unravel shape (ravel shape i) = i := by
  induction inside with
  | nil => rfl
  | @cons k n is rest below later ih =>
    show unravel (n :: rest) (k * numel rest + ravel rest is) = k :: is
    rw [unravel_add (ravel_lt later), ih]

/-- A view reads the entry at the same position in memory. -/
theorem entry_reshape {t r : Tensor α} {target i k : List Nat} (ran : t.reshape target = .ok r)
    (inside : List.Forall₂ (· < ·) k t.shape) (same : ravel target i = ravel t.shape k) :
    r.entry i = t.entry k := by
  unfold reshape at ran
  split at ran
  · rw [← Except.ok.inj ran]
    show t.entry (unravel t.shape (ravel target i)) = _
    rw [same, unravel_ravel inside]
  · cases ran

theorem matmul_vector_matrix [NonUnitalNonAssocSemiring α] {a b r : Tensor α} {k m n : Nat}
    (left : a.shape = [k])
    (right : b.shape = [m, n]) (ran : a.matmul b = .ok r) : k = m ∧ r.shape = [n] := by
  unfold matmul at ran
  rw [left, right] at ran
  simp only at ran
  split at ran
  · exact ⟨by assumption, by rw [← Except.ok.inj ran]; rfl⟩
  · cases ran

theorem sum_map_range [AddCommMonoid α] (n : Nat) (f : Nat → α) :
    ((range n).map f).sum = ∑ t ∈ Finset.range n, f t :=
  rfl

section
variable [NonUnitalNonAssocSemiring α] {a b : Tensor α}

theorem matmul_vector {k n : Nat} (left : a.shape = [k]) (right : b.shape = [k, n]) :
    a.matmul b = .ok (vector n fun j => ∑ t ∈ Finset.range k, a.entry [t] * b.entry [t, j]) := by
  unfold matmul
  rw [left, right]
  simp only [if_true, sum_map_range]

theorem matmul_matrix {m k n : Nat} (left : a.shape = [m, k]) (right : b.shape = [k, n]) :
    a.matmul b = .ok (matrix m n fun i j => ∑ t ∈ Finset.range k, a.entry [i, t] * b.entry [t, j]) := by
  unfold matmul
  rw [left, right]
  simp only [if_true, sum_map_range]

end

end Tensor
