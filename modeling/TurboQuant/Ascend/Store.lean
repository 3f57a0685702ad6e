import Mathlib.Algebra.Order.Field.Basic
import TurboQuant.Lib.Bisect
import TurboQuant.Lib.Tensor
import TurboQuant.Triton.Config

/-!
The Ascend store path: every (token, head) row of keys and of values is normalised, rotated,
bucketed and packed, and the two packed halves are scattered into the paged cache. Arithmetic is
exact; the vector norm and the conversion to half-float bits are parameters.
-/

namespace TurboQuant.Ascend
open List
open TurboQuant.Triton (ceilBytes)

def mseBits : Nat := 4

def computePaperSlotSize (headDim : Nat) : Nat :=
  let mseBytes := ceilBytes (headDim * mseBits)
  let normBytes := 2
  let perVector := mseBytes + normBytes
  let slot := perVector * 2
  slot + slot % 2

/-! ### Bytes -/

def packPairs : List Nat → List UInt8
  | low :: high :: rest => UInt8.ofNat ((low &&& 0xF) ||| ((high &&& 0xF) <<< 4)) :: packPairs rest
  | _ => []

/-- `pack_4bit` on one row. The reshape into pairs fails for an odd row, and cannot infer its middle
dimension for an empty one. -/
def pack4bit (indices : List Nat) : Except ShapeError (List UInt8) :=
  if indices.length = 0 ∨ indices.length % 2 = 1 then .error
    (.reshape [indices.length] [indices.length / 2, 2])
  else .ok (packPairs indices)

def unpack4bit (packed : List UInt8) (D : Nat) : Except ShapeError (List Nat) :=
  if packed.length * 2 = D then
    .ok (packed.flatMap fun b => [b.toNat &&& 0xF, (b.toNat >>> 4) &&& 0xF])
  else .error (.reshape [packed.length, 2] [D])

def fp16ToBytes (i16 : BitVec 16) : List UInt8 :=
  [UInt8.ofBitVec ((i16 &&& 0xFF).setWidth 8), UInt8.ofBitVec ((i16.sshiftRight 8 &&& 0xFF).setWidth 8)]

def bytesToFp16 (b : List UInt8) : Except ShapeError (BitVec 16) :=
  match b with
  | b0 :: b1 :: _ => .ok (b0.toBitVec.setWidth 16 ||| (b1.toBitVec.setWidth 16 <<< 8))
  | _ => .error (.indexOutOfBounds 1 b.length)

/-! ### Quantization -/

section
variable {α : Type*}

/-- `torch.bucketize(y, midpoints)` with its default boundary rule, then `clamp(0, n - 1)`. -/
def bucketIndex [LinearOrder α] (nCentroids : Nat) (midpoints : List α) (y : α) : Nat :=
  min (Bisect.lowerBound midpoints y) (nCentroids - 1)

variable [Field α] [LinearOrder α]

/-- In floating point: `round` is applied to the sum and to its half. -/
def computeMidpoints (round : α → α) (centroids : List α) : List α :=
  let cSorted := centroids.mergeSort (fun a b => decide (a ≤ b))
  zipWith (fun a b => round (round (a + b) / 2)) cSorted.dropLast cSorted.tail

/-- What a layer holds for quantization. `norm` is the Euclidean norm and `toFp16` the bits of the
nearest half float. -/
structure Quantizer (α : Type*) where
  pi : Nat → Nat → α
  centroids : List α
  midpoints : List α
  norm : List α → α
  toFp16 : α → BitVec 16

namespace Quantizer
variable (q : Quantizer α)

def rotate (x : List α) : List α :=
  (range x.length).map fun j => ((range x.length).map fun i => x.getD i 0 * q.pi j i).sum

def indices (x : List α) : List Nat :=
  let norms := q.norm x
  let xHat := x.map fun v => v / (norms + 1 / 10 ^ 8)
  (q.rotate xHat).map (bucketIndex q.centroids.length q.midpoints)

def normBits (x : List α) : BitVec 16 := q.toFp16 (q.norm x)

def quantizeSingleVector (x : List α) : Except ShapeError (List UInt8) := do
  let packedMse ← pack4bit (q.indices x)
  return packedMse ++ fp16ToBytes (q.normBits x)

end Quantizer
end

/-! ### The paged cache -/

/-- `(num_blocks, block_size, num_kv_heads, slot_size)` bytes. A slot is addressed by block, offset
and head. -/
structure KvCache where
  numBlocks : Nat
  blockSize : Nat
  numKvHeads : Nat
  slotSize : Nat
  byte : Nat × Nat × Nat → Nat → UInt8

def KvCache.row (c : KvCache) (address : Nat × Nat × Nat) : List UInt8 :=
  (range c.slotSize).map (c.byte address)

structure KvBatch (α : Type*) where
  N : Nat
  Hk : Nat
  D : Nat
  key : Nat → Nat → Nat → α
  value : Nat → Nat → Nat → α
  slotMapping : Nat → Int

namespace KvBatch
variable {α : Type*} (b : KvBatch α)

def keyRow (n h : Nat) : List α := (range b.D).map (b.key n h)

def valueRow (n h : Nat) : List α := (range b.D).map (b.value n h)

def validRows : List Nat := (range (b.N * b.Hk)).filter fun r => decide (0 ≤ b.slotMapping (r / b.Hk))

def address (blockSize r : Nat) : Nat × Nat × Nat :=
  let slot := (b.slotMapping (r / b.Hk)).toNat
  (slot / blockSize, slot % blockSize, r % b.Hk)

end KvBatch

section
variable (c : KvCache) (address : Nat × Nat × Nat)

def KvCache.inBounds : Bool :=
  decide (address.1 < c.numBlocks) && decide (address.2.1 < c.blockSize) && decide (address.2.2 < c.numKvHeads)

def KvCache.write (data : List UInt8) : KvCache :=
  { c with byte := Function.update c.byte address fun j => data.getD j 0 }

end

section
variable {α : Type*} [Field α] [LinearOrder α]

def slotRow (q : Quantizer α) (b : KvBatch α) (r : Nat) : Except ShapeError (List UInt8) := do
  let kSlot ← q.quantizeSingleVector (b.keyRow (r / b.Hk) (r % b.Hk))
  let vSlot ← q.quantizeSingleVector (b.valueRow (r / b.Hk) (r % b.Hk))
  return kSlot ++ vSlot

def scatterRow (b : KvBatch α) (slotData : List (List UInt8)) (c : KvCache) (r : Nat) :
    Except ShapeError KvCache :=
  if c.inBounds (b.address c.blockSize r) then .ok (c.write (b.address c.blockSize r) (slotData.getD r []))
  else .error (.indexOutOfBounds (b.address c.blockSize r).1 c.numBlocks)

/-- `store_turboquant_kv`. Every row is quantized, the padding rows included. -/
def storeTurboquantKv (q : Quantizer α) (b : KvBatch α) (kvCache : KvCache) : Except ShapeError KvCache :=
  -- the reshape into pairs cannot infer its middle dimension for an empty batch
  if b.N * b.Hk = 0 then .error (.reshape [0, b.D] [0, b.D / 2, 2])
  else do
    let slotData ← (range (b.N * b.Hk)).mapM (slotRow q b)
    if (slotData.headD []).length = kvCache.slotSize then b.validRows.foldlM (scatterRow b slotData) kvCache
    else .error (.broadcast [kvCache.slotSize] [(slotData.headD []).length])

end

end TurboQuant.Ascend
