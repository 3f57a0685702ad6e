import TurboQuant.Lib.Segments
import TurboQuant.Ascend.Store

/-!
The Ascend dequantization path.
-/

namespace TurboQuant.Ascend
open TurboQuant.Triton (ceilBytes)
open Outcome Segments Tensor

structure BlockTable where
  rows : Nat
  cols : Nat
  entry : Nat → Nat → Int

def wrapIndex (i : Int) (n : Nat) : Except ShapeError Nat :=
  if 0 ≤ i ∧ i < n then .ok i.toNat
  else if i < 0 ∧ -n ≤ i then .ok (i + n).toNat
  else .error (.indexOutOfBounds i.natAbs n)

/-- The slot of `(b, pos, h)`: `block_table.gather(1, page_idx.clamp(max=max_page))`, then the cache
row at that block. -/
def gatherSlot (cache : KvCache) (table : BlockTable) (b pos h : Nat) : Except ShapeError (List UInt8) :=
  if table.cols = 0 then .error (.indexOutOfBounds 1 0)
  else do
    let pageIdx := min (pos / cache.blockSize) (table.cols - 1)
    let block ← wrapIndex (table.entry b pageIdx) cache.numBlocks
    return cache.row (block, pos % cache.blockSize, h)

def slotFlat (cache : KvCache) (table : BlockTable) (allocLen : Nat) : Except ShapeError (List (List UInt8)) :=
  (List.range (table.rows * allocLen * cache.numKvHeads)).mapM fun m =>
    gatherSlot cache table (m / cache.numKvHeads / allocLen) (m / cache.numKvHeads % allocLen)
      (m % cache.numKvHeads)

def unpackHalf (D start : Nat) (row : List UInt8) : Except ShapeError (List Nat × BitVec 16) := do
  let mseBytes := ceilBytes (D * mseBits)
  let packedMse := slice row start (start + mseBytes)
  let indices ← unpack4bit packedMse D
  let normBytes := slice row (start + mseBytes) (start + mseBytes + 2)
  let vecNorm ← bytesToFp16 normBytes
  return (indices, vecNorm)

section
variable {α : Type} [Field α]

def computePiCentroids (centroids pi : Tensor α) : Except ShapeError (Tensor α) := centroids.matmul pi

def reconstruct (fp16 : BitVec 16 → α) (piCentroids : Tensor α) (D : Nat)
    (halves : List (List Nat × BitVec 16)) : Except ShapeError (Tensor α) := do
  let indices := matrix halves.length D fun m d => (halves.getD m ([], 0)).1.getD d 0
  let vecNorm := vector halves.length fun m => fp16 (halves.getD m ([], 0)).2
  let unit ← piCentroids.gather indices
  map₂ (· * ·) unit vecNorm.unsqueezeLast

/-- A buffer of a previous step is reused when its batch and length are large enough, then
sliced. -/
def reuseBuffer (buf : Option (Tensor α)) (B Hk allocLen D : Nat) : Except ShapeError (Tensor α) := do
  let fresh : Tensor α := ⟨[B, Hk, allocLen, D], fun _ => 0⟩
  let buf ← match buf with
    | none => pure fresh
    | some t => do
      let batch ← t.size 0
      if batch < B then pure fresh
      else do
        let len ← t.size 2
        pure (if len < allocLen then fresh else t)
  match buf.shape with
  | s0 :: s1 :: s2 :: s3 :: rest => .ok { buf with shape := min B s0 :: s1 :: min allocLen s2 :: s3 :: rest }
  | shape => .error (.dimOutOfRange shape 3)

def allocLength (seqLens : List Nat) (blockSize : Nat) : Except ShapeError Nat :=
  match seqLens.max? with
  | some maxSeqLen => .ok ((maxSeqLen + blockSize - 1) / blockSize * blockSize)
  | none => .error .emptyReduction

/-- How single vectors are dequantised: their width, and the rows of a list of halves. -/
structure VectorDequant (α : Type) where
  width : Except ShapeError Nat
  rows : Nat → List (List Nat × BitVec 16) → Except ShapeError (Tensor α)

def dequantPagedKvWith (vectors : VectorDequant α) (kvCache : KvCache) (blockTable : BlockTable)
    (seqLens : List Nat)
    (kBuf vBuf : Option (Tensor α)) : Except ShapeError (Tensor α × Tensor α × Nat) := do
  let B := blockTable.rows
  let Hk := kvCache.numKvHeads
  let D ← vectors.width
  let allocLen ← allocLength seqLens kvCache.blockSize
  let kBuf ← reuseBuffer kBuf B Hk allocLen D
  let vBuf ← reuseBuffer vBuf B Hk allocLen D
  let perVector := ceilBytes (D * mseBits) + 2
  let rows ← slotFlat kvCache blockTable allocLen
  let kHalves ← rows.mapM (unpackHalf D 0)
  let kRecon ← vectors.rows D kHalves
  let vHalves ← rows.mapM (unpackHalf D perVector)
  let vRecon ← vectors.rows D vHalves
  let kDense ← kRecon.reshape [B, allocLen, Hk, D]
  let kOut ← kBuf.copyInto (← kDense.swapMiddle)
  let vDense ← vRecon.reshape [B, allocLen, Hk, D]
  let vOut ← vBuf.copyInto (← vDense.swapMiddle)
  return (kOut, vOut, allocLen)

/-- The vectors are looked up in the table of rotated centroids. -/
def tableVectors (fp16 : BitVec 16 → α) (piCentroids : Tensor α) : VectorDequant α :=
  ⟨piCentroids.size 1, reconstruct fp16 piCentroids⟩

def dequantPagedKv (fp16 : BitVec 16 → α) (kvCache : KvCache) (blockTable : BlockTable) (seqLens : List Nat)
    (piCentroids : Tensor α) (kBuf vBuf : Option (Tensor α)) : Except ShapeError (Tensor α × Tensor α × Nat) :=
  dequantPagedKvWith (tableVectors fp16 piCentroids) kvCache blockTable seqLens kBuf vBuf

/-! ### The reference -/

/-- Algorithm 1: look the centroids of a vector up, apply the inverse rotation, scale by the
norm. -/
def dequantReference (fp16 : BitVec 16 → α) (centroids : Nat → α) (pi : Nat → Nat → α) (D : Nat)
    (half : List Nat × BitVec 16) (d : Nat) : α :=
  fp16 half.2 * ((List.range D).map fun j => centroids (half.1.getD j 0) * pi j d).sum

structure DequantInput (α : Type) where
  D : Nat
  centroids : Nat → α
  pi : Nat → Nat → α
  kvCache : KvCache
  blockTable : BlockTable
  seqLens : List Nat
  kBuf : Option (Tensor α)
  vBuf : Option (Tensor α)

section
variable (fp16 : BitVec 16 → α) (i : DequantInput α)

def dequantise : Except ShapeError (Tensor α × Tensor α × Nat) := do
  let piCentroids ← computePiCentroids (vector 16 i.centroids) (matrix i.D i.D i.pi)
  dequantPagedKv fp16 i.kvCache i.blockTable i.seqLens piCentroids i.kBuf i.vBuf

def EntriesMatch (start : Nat) (dense : Tensor α) : Prop :=
  ∀ b < i.blockTable.rows, ∀ h < i.kvCache.numKvHeads, ∀ pos < i.seqLens.getD b 0, ∀ d < i.D,
    ∃ row half, gatherSlot i.kvCache i.blockTable b pos h = .ok row ∧ unpackHalf i.D start row = .ok half ∧
      dense.entry [b, h, pos, d] = dequantReference fp16 i.centroids i.pi i.D half d

def RefinesReference : Prop :=
  ∃ k v allocLen, dequantise fp16 i = .ok (k, v, allocLen) ∧
    k.shape = [i.blockTable.rows, i.kvCache.numKvHeads, allocLen, i.D] ∧
    v.shape = [i.blockTable.rows, i.kvCache.numKvHeads, allocLen, i.D] ∧
    EntriesMatch fp16 i 0 k ∧ EntriesMatch fp16 i (ceilBytes (i.D * mseBits) + 2) v

end

theorem dequantPagedKv_size {fp16 : BitVec 16 → α} {kvCache : KvCache} {blockTable : BlockTable}
    {seqLens : List Nat}
    {piCentroids : Tensor α} {kBuf vBuf : Option (Tensor α)} {r : Tensor α × Tensor α × Nat}
    (ran : dequantPagedKv fp16 kvCache blockTable seqLens piCentroids kBuf vBuf = .ok r) :
    ∃ D, piCentroids.shape[1]? = some D := by
  obtain ⟨D, read, -⟩ := bind_ok ran
  exact ⟨D, size_ok read⟩

theorem dequantise_raises (fp16 : BitVec 16 → α) (i : DequantInput α) (r : Tensor α × Tensor α × Nat) :
    dequantise fp16 i ≠ .ok r := by
  intro ran
  obtain ⟨piCentroids, product, ran⟩ := bind_ok ran
  obtain ⟨-, shape⟩ := matmul_vector_matrix rfl rfl product
  obtain ⟨D, read⟩ := dequantPagedKv_size ran
  rw [shape] at read
  cases read

/-- The optimised dequantization refines the reference on no input: it always raises. -/
theorem dequantise_never_refines (fp16 : BitVec 16 → α) (i : DequantInput α) : ¬ RefinesReference fp16 i := by
  rintro ⟨k, v, allocLen, ran, -⟩
  exact dequantise_raises fp16 i _ ran

def oneToken (D : Nat) : DequantInput ℚ where
  D := D
  centroids := fun c => c
  pi := fun i j => if i = j then 1 else 0
  kvCache := ⟨1, 16, 1, computePaperSlotSize D, fun _ _ => 0⟩
  blockTable := ⟨1, 1, fun _ _ => 0⟩
  seqLens := [1]
  kBuf := none
  vBuf := none

theorem dequantise_oneToken_raises : dequantise (fun _ => 1) (oneToken 128) =
    .error (.matmul [16] [128, 128]) ∧
    dequantise (fun _ => 1) (oneToken 16) = .error (.dimOutOfRange [16] 1) ∧
    ¬ RefinesReference (fun _ => 1) (oneToken 128) ∧ ¬ RefinesReference (fun _ => 1) (oneToken 16) :=
  ⟨rfl, rfl, fun ⟨_, _, _, ran, _⟩ => dequantise_raises _ _ _ ran, fun ⟨_, _, _, ran, _⟩ =>
    dequantise_raises _ _ _ ran⟩

end

end TurboQuant.Ascend
