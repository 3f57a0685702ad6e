import TurboQuant.Core.BlockHashMap
import TurboQuant.Core.FreeQueue

/-!
The block pool: reference counts, the free queue and the cached hashes of all blocks.
-/

namespace TurboQuant.Core

structure KVCacheBlock where
  refCnt : Int
  blockHash : Option BlockHashWithGroupId

structure PoolConfig where
  numGpuBlocks : Nat
  enableCaching : Bool
  hashBlockSize : Nat
  nullBlock : Nat

structure BlockPool extends PoolConfig where
  blocks : Nat → KVCacheBlock
  freeBlockQueue : FreeKVCacheBlockQueue
  cachedBlockHashToBlock : BlockHashToBlockMap

namespace BlockPool

def new (numGpuBlocks : Nat) (enableCaching : Bool) (hashBlockSize : Nat) : Except PoolError BlockPool :=
  if numGpuBlocks = 0 then .error .noGpuBlocks
  else do
    let (nullBlock, queue) ← (FreeKVCacheBlockQueue.new numGpuBlocks).popleft
    return ⟨⟨numGpuBlocks, enableCaching, hashBlockSize, nullBlock⟩, fun _ => ⟨0, none⟩, queue, .empty⟩

section
variable (pool : BlockPool)

def isNull (b : Nat) : Bool := b == pool.nullBlock

def getNumFreeBlocks : Int := pool.freeBlockQueue.numFreeBlocks

def setRefCnt (b : Nat) (refCnt : Int) : BlockPool :=
  { pool with blocks := Function.update pool.blocks b { pool.blocks b with refCnt := refCnt } }

def setHash (b : Nat) (blockHash : Option BlockHashWithGroupId) : BlockPool :=
  { pool with blocks := Function.update pool.blocks b { pool.blocks b with blockHash := blockHash } }

def getCachedBlock (blockHash : BlockHash) (kvCacheGroupIds : List Nat) : Option (List Nat) :=
  kvCacheGroupIds.mapM fun groupId => pool.cachedBlockHashToBlock.getOneBlock
    (makeBlockHashWithGroupId blockHash groupId)

def maybeEvictCachedBlock (b : Nat) : BlockPool :=
  match (pool.blocks b).blockHash with
  | none => pool
  | some blockHash =>
    let (found, map) := pool.cachedBlockHashToBlock.pop blockHash b
    if found then { pool with cachedBlockHashToBlock := map }.setHash b none
    else { pool with cachedBlockHashToBlock := map }

def claimBlock (b : Nat) : Except PoolError BlockPool :=
  let pool := if pool.enableCaching then pool.maybeEvictCachedBlock b else pool
  if (pool.blocks b).refCnt = 0 then .ok (pool.setRefCnt b ((pool.blocks b).refCnt + 1))
  else .error (.refCntNotZero b)

def getNewBlocks (numBlocks : Int) : Except PoolError (List Nat × BlockPool) :=
  if numBlocks > pool.getNumFreeBlocks then .error (.cannotGetFreeBlocks numBlocks)
  else do
    let (ret, queue) ← pool.freeBlockQueue.popleftN numBlocks
    let pool ← ret.foldlM claimBlock { pool with freeBlockQueue := queue }
    return (ret, pool)

def unqueueBlock (b : Nat) : Except PoolError BlockPool :=
  if (pool.blocks b).refCnt = 0 ∧ !pool.isNull b then
    (pool.freeBlockQueue.remove b).map fun queue => { pool with freeBlockQueue := queue }
  else .ok pool

def touchBlock (b : Nat) : Except PoolError BlockPool :=
  (pool.unqueueBlock b).map fun pool => pool.setRefCnt b ((pool.blocks b).refCnt + 1)

def touch (blocks : List Nat) : Except PoolError BlockPool := blocks.foldlM touchBlock pool

def releaseBlock (b : Nat) : BlockPool := pool.setRefCnt b ((pool.blocks b).refCnt - 1)

def freeBlocks (orderedBlocks : List Nat) : Except PoolError BlockPool := do
  let pool := orderedBlocks.foldl releaseBlock pool
  let queue ← pool.freeBlockQueue.appendN
    (orderedBlocks.filter fun b => decide ((pool.blocks b).refCnt = 0) && !pool.isNull b)
  return { pool with freeBlockQueue := queue }

def evictBlocks (blockIds : List Nat) : Except PoolError BlockPool :=
  blockIds.foldlM (fun pool b =>
    if b < pool.numGpuBlocks then .ok (pool.maybeEvictCachedBlock b) else .error (.invalidBlockId b)) pool

def resetPrefixCache : Bool × BlockPool :=
  if (pool.numGpuBlocks : Int) - pool.getNumFreeBlocks ≠ 1 then (false, pool)
  else
    (true, { pool with
      cachedBlockHashToBlock := .empty
      blocks := fun b => { pool.blocks b with blockHash := none } })

end

/-- `BlockHashListWithBlockSize`: hashes of larger blocks are joined hashes. -/
def blockHashListWithBlockSize (blockHashes : List BlockHash) (scaleFactor : Nat) : List BlockHash :=
  (List.range (blockHashes.length / scaleFactor)).map fun i =>
    ((blockHashes.drop (i * scaleFactor)).take scaleFactor).flatten

def cacheBlock (kvCacheGroupId : Nat) (pool : BlockPool) (entry : Nat × Option BlockHash) :
    Except PoolError BlockPool :=
  let (b, blockHash) := entry
  if pool.isNull b then .ok pool
  else if (pool.blocks b).blockHash ≠ none then .error (.alreadyHashed b)
  else
    match blockHash with
    | none => .error .indexOutOfRange
    | some blockHash =>
      let key := makeBlockHashWithGroupId blockHash kvCacheGroupId
      .ok { pool.setHash b (some key) with
        cachedBlockHashToBlock := pool.cachedBlockHashToBlock.insert key b }

def cacheFullBlocks (pool : BlockPool) (requestBlockHashes : List BlockHash) (blocks : List Nat)
    (numCachedBlocks numFullBlocks blockSize kvCacheGroupId : Nat) : Except PoolError BlockPool :=
  if numCachedBlocks ≥ numFullBlocks then .ok pool
  else if requestBlockHashes.length < numFullBlocks then .error .tooFewBlockHashes
  else if blockSize ≠ pool.hashBlockSize ∧ blockSize % pool.hashBlockSize ≠ 0 then .error .notAMultiple
  else
    let blockHashes :=
      if blockSize = pool.hashBlockSize then requestBlockHashes
      else blockHashListWithBlockSize requestBlockHashes (blockSize / pool.hashBlockSize)
    let newFullBlocks := (blocks.take numFullBlocks).drop numCachedBlocks
    let newBlockHashes := blockHashes.drop numCachedBlocks
    (newFullBlocks.zipIdx.map fun (b, i) => (b, newBlockHashes[i]?)).foldlM (cacheBlock kvCacheGroupId) pool

/-! ### Field lemmas -/

section
variable (p : BlockPool) (b : Nat)

@[simp] theorem setRefCnt_refCnt (n : Int) (c : Nat) :
    ((p.setRefCnt b n).blocks c).refCnt = if c = b then n else (p.blocks c).refCnt := by
  by_cases same : c = b
  · simp [setRefCnt, same]
  · simp [setRefCnt, same]

@[simp] theorem setRefCnt_blockHash (n : Int) (c : Nat) :
    ((p.setRefCnt b n).blocks c).blockHash = (p.blocks c).blockHash := by
  by_cases same : c = b
  · simp [setRefCnt, same]
  · simp [setRefCnt, same]

section
variable (h : Option BlockHashWithGroupId) (c : Nat)

@[simp] theorem setHash_refCnt :
    ((p.setHash b h).blocks c).refCnt = (p.blocks c).refCnt := by
  by_cases same : c = b
  · simp [setHash, same]
  · simp [setHash, same]

@[simp] theorem setHash_blockHash :
    ((p.setHash b h).blocks c).blockHash = if c = b then h else (p.blocks c).blockHash := by
  by_cases same : c = b
  · simp [setHash, same]
  · simp [setHash, same]

end

end

end BlockPool

end TurboQuant.Core
