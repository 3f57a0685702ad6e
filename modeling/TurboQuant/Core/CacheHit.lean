import TurboQuant.Core.CacheInvariant

/-!
The prefix lookup of full-attention and sliding-window groups.
-/

namespace TurboQuant.Core
open List

def alignedLength (blockSize alignmentTokens : Nat) : Nat → Nat
  | 0 => 0
  | n + 1 =>
    if blockSize ≠ alignmentTokens ∧ (n + 1) * blockSize % alignmentTokens ≠ 0
    then alignedLength blockSize alignmentTokens n
    else n + 1

def popUnaligned (blockSize alignmentTokens : Nat) (rows : List (List Nat)) : List (List Nat) :=
  rows.take (alignedLength blockSize alignmentTokens rows.length)

def column (nullBlock g : Nat) (rows : List (List Nat)) : List Nat := rows.map (·.getD g nullBlock)

namespace BlockPool

def cachedRows (pool : BlockPool) (kvCacheGroupIds : List Nat) : List BlockHash → List (List Nat)
  | [] => []
  | blockHash :: rest =>
    match pool.getCachedBlock blockHash kvCacheGroupIds with
    | some cachedBlock => cachedBlock :: pool.cachedRows kvCacheGroupIds rest
    | none => []

def findFullAttentionHit (pool : BlockPool) (blockHashes : List BlockHash) (maxLength : Nat)
    (kvCacheGroupIds : List Nat)
    (blockSize : Nat) (useEagle : Bool) (alignmentTokens : Nat) : List (List Nat) :=
  let rows := pool.cachedRows kvCacheGroupIds (blockHashes.take (maxLength / blockSize))
  -- with eagle the last matched block is dropped
  let rows := if useEagle then rows.dropLast else rows
  popUnaligned blockSize alignmentTokens rows

def postPopBlocks (useEagle : Bool) (i : Nat) : Nat := if useEagle then i else i + 1

def windowLoop (pool : BlockPool) (blockHashes : List BlockHash) (kvCacheGroupIds : List Nat) (blockSize : Nat)
    (useEagle : Bool) (alignmentTokens : Nat) (contiguousBlocks : Int) :
    Nat → List (List Nat) → Nat → Except PoolError (List (List Nat) × Nat × Bool)
  | 0, rows, numContiguousBlocks => .ok (rows, numContiguousBlocks, false)
  | i + 1, rows, numContiguousBlocks =>
    match blockHashes[i]? with
    | none => .error .indexOutOfRange
    | some blockHash =>
      match pool.getCachedBlock blockHash kvCacheGroupIds with
      | none => pool.windowLoop blockHashes kvCacheGroupIds blockSize useEagle alignmentTokens contiguousBlocks i rows 0
      | some cachedBlock =>
        if numContiguousBlocks = 0 ∧ blockSize ≠ alignmentTokens ∧
            postPopBlocks useEagle i * blockSize % alignmentTokens ≠ 0 then
          pool.windowLoop blockHashes kvCacheGroupIds blockSize useEagle alignmentTokens
            contiguousBlocks i rows numContiguousBlocks
        else if (numContiguousBlocks + 1 : Int) ≥ contiguousBlocks then
          -- trim the trailing blocks
          .ok ((rows.set i cachedBlock).take (i + (numContiguousBlocks + 1)), numContiguousBlocks + 1, true)
        else
          pool.windowLoop blockHashes kvCacheGroupIds blockSize useEagle alignmentTokens contiguousBlocks i
            (rows.set i cachedBlock) (numContiguousBlocks + 1)

def findSlidingWindowHit (pool : BlockPool) (blockHashes : List BlockHash) (maxLength : Nat)
    (kvCacheGroupIds : List Nat)
    (slidingWindow blockSize : Nat) (useEagle : Bool) (alignmentTokens : Nat) :
    Except PoolError (List (List Nat)) := do
  let contiguousBlocks := ceilDiv (slidingWindow - 1) blockSize + if useEagle then 1 else 0
  let maxNumBlocks := maxLength / blockSize
  let nullRow := kvCacheGroupIds.map fun _ => pool.nullBlock
  let (rows, numContiguousBlocks, matchFound) ← pool.windowLoop blockHashes kvCacheGroupIds
    blockSize useEagle alignmentTokens
    contiguousBlocks maxNumBlocks (replicate maxNumBlocks nullRow) 0
  let rows := if matchFound then rows else popUnaligned blockSize alignmentTokens
    (rows.take numContiguousBlocks)
  return if useEagle ∧ rows ≠ [] then popUnaligned blockSize alignmentTokens rows.dropLast else rows

/-! ### What a lookup returns -/

variable {p : BlockPool} {blockHashes : List BlockHash} {ids : List Nat} {rows : List (List Nat)}

def RowsCached (pool : BlockPool) (blockHashes : List BlockHash) (kvCacheGroupIds : List Nat)
    (rows : List (List Nat)) : Prop :=
  ∀ (i : Nat) row, rows[i]? = some row → row = kvCacheGroupIds.map (fun _ => pool.nullBlock) ∨
    ∃ blockHash, blockHashes[i]? = some blockHash ∧ pool.getCachedBlock blockHash kvCacheGroupIds = some row

section
variable (cached : p.RowsCached blockHashes ids rows)
include cached

theorem RowsCached.take (n : Nat) : p.RowsCached blockHashes ids (rows.take n) := fun i row at_ => by
  rw [getElem?_take] at at_
  split at at_
  · exact cached i row at_
  · cases at_

theorem RowsCached.dropLast : p.RowsCached blockHashes ids rows.dropLast := by
  rw [dropLast_eq_take]
  exact cached.take _

end

theorem cachedRows_cached (p : BlockPool) (ids : List Nat) (hs : List BlockHash) :
    p.RowsCached hs ids (p.cachedRows ids hs) := by
  induction hs with
  | nil => exact nofun
  | cons blockHash rest ih =>
    unfold cachedRows
    split
    · rename_i cachedBlock found
      intro i row at_
      cases i with
      | zero =>
        cases at_
        exact .inr ⟨blockHash, rfl, found⟩
      | succ i => exact ih i row at_
    · exact nofun

theorem findFullAttentionHit_cached (p : BlockPool) (hs : List BlockHash) (l : Nat)
    (ids : List Nat) (size : Nat) (useEagle : Bool) (alignment : Nat) : p.RowsCached hs ids
      (p.findFullAttentionHit hs l ids size useEagle alignment) := by
  have start := cachedRows_cached p ids (hs.take (l / size))
  have whole : p.RowsCached hs ids
      (p.cachedRows ids (hs.take (l / size))) := fun i row at_ =>
    (start i row at_).imp_right fun ⟨blockHash, here, found⟩ => by
      rw [getElem?_take] at here
      split at here
      · exact ⟨blockHash, here, found⟩
      · cases here
  unfold findFullAttentionHit
  split
  · exact whole.dropLast.take _
  · exact whole.take _

theorem getCachedBlock_registered {blockHash : BlockHash} {row : List Nat}
    (found : p.getCachedBlock blockHash ids = some row) {g b : Nat} (here : row[g]? = some b) :
    ∃ gid, ids[g]? = some gid ∧
      p.cachedBlockHashToBlock.Registered (makeBlockHashWithGroupId blockHash gid) b := by
  unfold getCachedBlock at found
  induction ids generalizing row g with
  | nil =>
    cases found
    cases here
  | cons first rest ih =>
    rw [mapM_cons, Option.bind_eq_bind, Option.bind_eq_some_iff] at found
    obtain ⟨block, one, found⟩ := found
    obtain ⟨blocks, others, result⟩ := Option.bind_eq_some_iff.mp found
    cases result
    cases g with
    | zero =>
      cases here
      exact ⟨first, rfl, BlockHashToBlockMap.registered_of_getOneBlock one⟩
    | succ g => exact ih others here

section
variable (cached : p.RowsCached blockHashes ids rows) (hs : p.HashInv)
include cached hs

theorem RowsCached.blockHash_eq
    {i g : Nat} {row : List Nat} (at_ : rows[i]? = some row) (real : row.getD g p.nullBlock ≠ p.nullBlock) :
    ∃ blockHash, blockHashes[i]? = some blockHash ∧ (p.blocks (row.getD g p.nullBlock)).blockHash =
      some (makeBlockHashWithGroupId blockHash (ids.getD g 0)) := by
  rw [getD_eq_getElem?_getD] at real ⊢
  rcases cached i row at_ with rfl | ⟨blockHash, atHash, found⟩
  · refine absurd ?_ real
    rw [getElem?_map]
    cases ids[g]? <;> rfl
  · cases here : row[g]? with
    | none => exact absurd (by rw [here]; rfl) real
    | some b =>
      obtain ⟨gid, atGroup, registered⟩ := getCachedBlock_registered found here
      refine ⟨blockHash, atHash, ?_⟩
      rw [Option.getD_some, getD_eq_getElem?_getD, atGroup, Option.getD_some]
      exact (hs b _).mpr registered

end

end BlockPool

end TurboQuant.Core
