import TurboQuant.Core.Isolation

/-!
The manager of compressed groups.
-/

namespace TurboQuant.Ascend
open TurboQuant.Core

structure CompressAttentionManager where
  base : SingleTypeKVCacheManager
  compressRatio : Nat
  compresses : 0 < compressRatio

def cdiv (a b : Nat) : Nat := (a + b - 1) / b

/-- `find_longest_cache_hit` of the manager. The hashes are those of blocks of `blockSize`
tokens. -/
def findCompressedHit (pool : BlockPool) (blockHashes : List BlockHash) (maxLength : Nat)
    (kvCacheGroupIds : List Nat)
    (blockSize compressRatio : Nat) (useEagle : Bool) (alignmentTokens : Nat) : List (List Nat) :=
  pool.findFullAttentionHit blockHashes maxLength kvCacheGroupIds blockSize useEagle
    (cdiv alignmentTokens compressRatio)

def hashesAt (hashBlockSize blockSize : Nat) (blockHashes : List BlockHash) : List BlockHash :=
  if blockSize = hashBlockSize then blockHashes
  else BlockPool.blockHashListWithBlockSize blockHashes (blockSize / hashBlockSize)

namespace CompressAttentionManager

def new (blockSize : Nat) (positive : 0 < blockSize) (kvCacheGroupId compressRatio : Nat)
    (compresses : 0 < compressRatio) : CompressAttentionManager :=
  ⟨.new ⟨.mlaAttention, blockSize, positive, kvCacheGroupId, none⟩, compressRatio, compresses⟩

section
variable (m : CompressAttentionManager) (pool : BlockPool) (requestId : String)

def allocateNewComputedBlocks (newComputedBlocks : List Nat)
    (numLocalComputedTokens numExternalComputedTokens : Int) :
    Except PoolError (CompressAttentionManager × BlockPool) :=
  if requestId ∈ m.base.numCachedBlock then
    if newComputedBlocks ≠ [] then .error .computedBlocksNotEmpty else .ok (m, pool)
  else if m.base.getBlocks requestId ≠ [] then .error .requestHasBlocks
  else
    (m.base.allocateForNewRequest pool requestId newComputedBlocks
      ((numLocalComputedTokens + numExternalComputedTokens) / m.compressRatio) numExternalComputedTokens).map
      fun (base, pool) => ({ m with base := base }, pool)

def allocateNewBlocks (numTokens : Int) : Except PoolError (List Nat × CompressAttentionManager × BlockPool) :=
  (m.base.allocateNewBlocksBase pool requestId (numTokens / m.compressRatio)).map
    fun (newBlocks, base, pool) => (newBlocks, { m with base := base }, pool)

def cacheBlocks (blockHashes : List BlockHash)
    (numTokens : Nat) : Except PoolError (CompressAttentionManager × BlockPool) :=
  (m.base.cacheBlocksBase pool requestId blockHashes (numTokens / m.compressRatio)).map
    fun (base, pool) => ({ m with base := base }, pool)

end

def free (m : CompressAttentionManager) (pool : BlockPool) (requestId : String) :
    Except PoolError (CompressAttentionManager × BlockPool) :=
  (m.base.free pool requestId).map fun (base, pool) => ({ m with base := base }, pool)

def newFullBlocks (m : CompressAttentionManager) (requestId : String) (numTokens : Nat) : List (Nat × Nat) :=
  let numCachedBlocks := (m.base.numCachedBlock.lookup requestId).getD 0
  let numFullBlocks := numTokens / m.compressRatio / m.base.blockSize
  (((m.base.getBlocks requestId).take numFullBlocks).drop numCachedBlocks).zipIdx numCachedBlocks

end CompressAttentionManager

/-! ### Runs -/

/-- What the managers of other groups do to the pool they share. -/
inductive PoolOp where
  | getNewBlocks (numBlocks : Int)
  | touch (blocks : List Nat)
  | freeBlocks (orderedBlocks : List Nat)
  | evictBlocks (blockIds : List Nat)
  | resetPrefixCache
  | cacheFullBlocks (requestBlockHashes : List BlockHash) (blocks : List Nat)
      (numCachedBlocks numFullBlocks blockSize kvCacheGroupId : Nat)

/-- The pool, the manager of one compressed group, and for every block the request that has filled
it last and the place of the block in that request, once the block is registered. -/
structure CompressedCache where
  pool : BlockPool
  manager : CompressAttentionManager
  writer : Nat → Option (Served × Nat)

inductive CacheOp where
  | allocateNewComputedBlocks (requestId : String) (newComputedBlocks : List Nat)
      (numLocalComputedTokens numExternalComputedTokens : Int)
  | allocateNewBlocks (requestId : String) (numTokens : Int)
  | cacheBlocks (requestId : String) (request : Served) (numTokens : Nat)
  | free (requestId : String)
  | ofOthers (op : PoolOp)

def PoolOp.apply (pool : BlockPool) : PoolOp → Except PoolError (List Nat × BlockPool)
  | .getNewBlocks numBlocks => pool.getNewBlocks numBlocks
  | .touch blocks => (pool.touch blocks).map ([], ·)
  | .freeBlocks orderedBlocks => (pool.freeBlocks orderedBlocks).map ([], ·)
  | .evictBlocks blockIds => (pool.evictBlocks blockIds).map ([], ·)
  | .resetPrefixCache => .ok ([], pool.resetPrefixCache.2)
  | .cacheFullBlocks requestBlockHashes blocks numCachedBlocks numFullBlocks blockSize kvCacheGroupId =>
    (pool.cacheFullBlocks requestBlockHashes blocks numCachedBlocks numFullBlocks blockSize
      kvCacheGroupId).map ([], ·)

def forget (taken : List Nat) (writer : Nat → Option (Served × Nat)) : Nat → Option (Served × Nat) :=
  fun b => if b ∈ taken then none else writer b

def record (nullBlock : Nat) (request : Served) (entries : List (Nat × Nat))
    (writer : Nat → Option (Served × Nat)) : Nat → Option (Served × Nat) :=
  entries.foldl (fun writer (b, place) => if b = nullBlock then writer
    else Function.update writer b (some (request, place))) writer

namespace CompressedCache

def new (pool : BlockPool) (manager : CompressAttentionManager) : CompressedCache :=
  ⟨pool, manager, fun _ => none⟩

def taken (cache : CompressedCache) (requestId : String) (hits : List Nat)
    (manager : CompressAttentionManager) : List Nat :=
  ((manager.base.getBlocks requestId).drop (cache.manager.base.getBlocks requestId).length).filter
    fun b => decide (b ∉ hits) && decide (b ≠ cache.pool.nullBlock)

section
variable (hasher : Hasher) (cache : CompressedCache)

def step : CacheOp → Except PoolError CompressedCache
  | .allocateNewComputedBlocks requestId newComputedBlocks numLocalComputedTokens numExternalComputedTokens =>
    (cache.manager.allocateNewComputedBlocks cache.pool requestId newComputedBlocks numLocalComputedTokens
      numExternalComputedTokens).map fun (manager, pool) =>
        ⟨pool, manager, forget (cache.taken requestId newComputedBlocks manager) cache.writer⟩
  | .allocateNewBlocks requestId numTokens =>
    (cache.manager.allocateNewBlocks cache.pool requestId numTokens).map fun (newBlocks, manager, pool) =>
      ⟨pool, manager, forget newBlocks cache.writer⟩
  | .cacheBlocks requestId request numTokens =>
    (cache.manager.cacheBlocks cache.pool requestId (request.blockHashes hasher) numTokens).map
      fun (manager, pool) =>
      ⟨pool, manager, record cache.pool.nullBlock request
        (cache.manager.newFullBlocks requestId numTokens) cache.writer⟩
  | .free requestId =>
    (cache.manager.free cache.pool requestId).map fun (manager, pool) => ⟨pool, manager, cache.writer⟩
  | .ofOthers op =>
    (op.apply cache.pool).map fun (newBlocks, pool) => ⟨pool, cache.manager, forget newBlocks cache.writer⟩

def run (ops : List CacheOp) : Except PoolError CompressedCache :=
  ops.foldlM (step hasher) cache

end

end CompressedCache

/-- The request of an operation is one of `requests`, and only computed tokens are cached. Other
groups register blocks under their own ids. -/
def CacheOp.Valid (requests : Set Served) (kvCacheGroupId : Nat) : CacheOp → Prop
  | .cacheBlocks _ request numTokens => request ∈ requests ∧ numTokens ≤ request.final.numTokens
  | .ofOthers (.cacheFullBlocks _ _ _ _ _ other) => other ≠ kvCacheGroupId ∧ other < 2 ^ 32
  | _ => True

end TurboQuant.Ascend
