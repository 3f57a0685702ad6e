import TurboQuant.Core.BlockPool

/-!
The managers of one cache group: the blocks of every request, and how they are allocated, skipped,
cached and freed for each kind of attention.
-/

namespace TurboQuant.Core

/-- The specs that the managers tell apart, without `SinkFullAttentionSpec`. -/
inductive KVCacheSpec where
  | fullAttention
  | tqFullAttention
  | mlaAttention
  | slidingWindow (slidingWindow : Nat) (positive : 0 < slidingWindow)
  | chunkedLocalAttention (attentionChunkSize : Nat) (positive : 0 < attentionChunkSize)
  | mamba (align : Bool) (numSpeculativeBlocks : Nat)
  | crossAttention

structure ManagerConfig where
  kvCacheSpec : KVCacheSpec
  blockSize : Nat
  positive : 0 < blockSize
  kvCacheGroupId : Nat
  maxAdmissionBlocksPerRequest : Option Nat

structure SingleTypeKVCacheManager extends ManagerConfig where
  newBlockIds : List Nat
  reqToBlocks : AList fun _ : String => List Nat
  numCachedBlock : AList fun _ : String => Nat
  /-- Kept by `MambaManager`, the last two in align mode only. -/
  cachedBlocksThisStep : List BlockHashWithGroupId
  lastStateBlockIdx : AList fun _ : String => Int
  allocatedBlockReqs : List String

def ceilDiv (a b : Int) : Int := -(-a / b)

def listIndex (length : Nat) (index : Int) : Except PoolError Nat :=
  if 0 ≤ index ∧ index < length then .ok index.toNat
  else if index < 0 ∧ 0 ≤ length + index then .ok (length + index).toNat
  else .error .indexOutOfRange

def KVCacheSpec.getNumSkippedTokens (spec : KVCacheSpec) (numComputedTokens : Int) : Int :=
  match spec with
  | .slidingWindow window _ => max 0 (numComputedTokens - window + 1)
  | .chunkedLocalAttention chunkSize _ => numComputedTokens / chunkSize * chunkSize
  | .mamba _ _ => numComputedTokens - 1
  | _ => 0

def KVCacheSpec.isCrossAttention : KVCacheSpec → Bool
  | .crossAttention => true
  | _ => false

def KVCacheSpec.recordsNewBlocks : KVCacheSpec → Bool
  | .fullAttention | .tqFullAttention => true
  | _ => false

namespace SingleTypeKVCacheManager

def new (config : ManagerConfig) : SingleTypeKVCacheManager := ⟨config, [], ∅, ∅, [], ∅, []⟩

section
variable (m : SingleTypeKVCacheManager) (requestId : String)

def getBlocks : List Nat := (m.reqToBlocks.lookup requestId).getD []

def setBlocks (blocks : List Nat) : SingleTypeKVCacheManager :=
  { m with reqToBlocks := m.reqToBlocks.insert requestId blocks }

/-- `self.req_to_blocks[request_id]` leaves an entry for a new request. -/
def openBlocks : SingleTypeKVCacheManager :=
  m.setBlocks requestId (m.getBlocks requestId)

end

def recordNewBlocks (m : SingleTypeKVCacheManager) (blocks : List Nat) : SingleTypeKVCacheManager :=
  if m.kvCacheSpec.recordsNewBlocks then { m with newBlockIds := m.newBlockIds ++ blocks } else m

/-! ### How many blocks are needed -/

def getNumEvictableBlocks (pool : BlockPool) (blocks : List Nat) : Int :=
  (blocks.filter fun b => decide ((pool.blocks b).refCnt = 0) && !pool.isNull b).length

section
variable (m : SingleTypeKVCacheManager)

def getNumBlocksToAllocateBase (pool : BlockPool) (requestId : String) (numTokens : Int)
    (newComputedBlocks : List Nat) (totalComputedTokens : Int) (applyAdmissionCap : Bool) :
    Except PoolError Int :=
  let required := ceilDiv numTokens m.blockSize
  let numRequiredBlocks :=
    match applyAdmissionCap, m.maxAdmissionBlocksPerRequest with
    | true, some cap => min required cap
    | _, _ => required
  let numReqBlocks : Int := (m.getBlocks requestId).length
  if requestId ∈ m.numCachedBlock then
    if newComputedBlocks ≠ [] then .error .computedBlocksNotEmpty
    else .ok (max (numRequiredBlocks - numReqBlocks) 0)
  else
    let numSkippedBlocks := m.kvCacheSpec.getNumSkippedTokens totalComputedTokens / m.blockSize
    let numLocalComputedBlocks := newComputedBlocks.length + numReqBlocks
    let numNewBlocks := max (numRequiredBlocks - max numSkippedBlocks numLocalComputedBlocks) 0
    let numSkippedNewComputedBlocks := max 0 (numSkippedBlocks - numReqBlocks)
    .ok (numNewBlocks + getNumEvictableBlocks pool (newComputedBlocks.drop numSkippedNewComputedBlocks.toNat))

def getNumBlocksToAllocateMamba (align : Bool) (numSpeculativeBlocks : Nat)
    (pool : BlockPool) (requestId : String) (numTokens : Int) (newComputedBlocks : List Nat)
    (totalComputedTokens : Int)
    (numTokensMainModel : Int) (applyAdmissionCap : Bool) :
    Except PoolError (Int × SingleTypeKVCacheManager) :=
  -- a block that was cached in this step is not ready yet
  if newComputedBlocks.getLast?.any fun b =>
      (pool.blocks b).blockHash.any (m.cachedBlocksThisStep.contains ·) then
    .ok (pool.numGpuBlocks + 1, m)
  else if !align then
    (m.getNumBlocksToAllocateBase pool requestId (numTokens + m.blockSize * numSpeculativeBlocks)
      newComputedBlocks totalComputedTokens applyAdmissionCap).map (·, m)
  else
    let numRequiredBlocks := ceilDiv numTokensMainModel m.blockSize + numSpeculativeBlocks
    let needed := numRequiredBlocks - newComputedBlocks.length - (m.getBlocks requestId).length
    let numNewBlocks : Int :=
      if needed > 0 then if requestId ∈ m.allocatedBlockReqs then 1 else 1 + numSpeculativeBlocks else needed
    .ok (numNewBlocks + getNumEvictableBlocks pool newComputedBlocks, m.openBlocks requestId)

def getNumBlocksToAllocate (pool : BlockPool) (requestId : String) (numTokens : Int)
    (newComputedBlocks : List Nat) (totalComputedTokens : Int) (numTokensMainModel : Int)
    (applyAdmissionCap : Bool) :
    Except PoolError (Int × SingleTypeKVCacheManager) :=
  match m.kvCacheSpec with
  | .mamba align numSpeculativeBlocks =>
    m.getNumBlocksToAllocateMamba align numSpeculativeBlocks pool requestId numTokens newComputedBlocks
      totalComputedTokens numTokensMainModel applyAdmissionCap
  | _ =>
    (m.getNumBlocksToAllocateBase pool requestId numTokens newComputedBlocks totalComputedTokens
      applyAdmissionCap).map (·, m)

end

/-! ### Prefix hits and external tokens -/

def touchHits (pool : BlockPool) (hits : List Nat) : Except PoolError BlockPool :=
  if pool.enableCaching then pool.touch hits else if hits = [] then .ok pool
  else .error .computedBlocksNotEmpty

section
variable (m : SingleTypeKVCacheManager)

def numSkippedBlocks (numTotalComputedTokens : Int) : Int :=
  m.kvCacheSpec.getNumSkippedTokens numTotalComputedTokens / m.blockSize

def attachedHits (newComputedBlocks : List Nat) (numTotalComputedTokens : Int) : List Nat :=
  newComputedBlocks.drop (m.numSkippedBlocks numTotalComputedTokens).toNat

def attachedExternalTokens (numTotalComputedTokens numExternalComputedTokens : Int) : Int :=
  if m.numSkippedBlocks numTotalComputedTokens > 0 then
    min (numTotalComputedTokens - m.kvCacheSpec.getNumSkippedTokens numTotalComputedTokens)
      numExternalComputedTokens
  else numExternalComputedTokens

def numExternalBlocks (numReqBlocks : Nat) (numTotalComputedTokens : Int) : Int :=
  ceilDiv numTotalComputedTokens m.blockSize - numReqBlocks

section
variable (pool : BlockPool) (requestId : String)

def allocateExternal (reqBlocks : List Nat)
    (numTotalComputedTokens numExternalComputedTokens : Int) :
    Except PoolError (SingleTypeKVCacheManager × BlockPool) :=
  if numExternalComputedTokens > 0 then do
    let (allocatedBlocks, pool) ← pool.getNewBlocks
      (m.numExternalBlocks reqBlocks.length numTotalComputedTokens)
    return ((m.setBlocks requestId (reqBlocks ++ allocatedBlocks)).recordNewBlocks allocatedBlocks, pool)
  else .ok (m.setBlocks requestId reqBlocks, pool)

def allocateForNewRequest (newComputedBlocks : List Nat)
    (numTotalComputedTokens numExternalComputedTokens : Int) :
    Except PoolError (SingleTypeKVCacheManager × BlockPool) := do
  let hits := m.attachedHits newComputedBlocks numTotalComputedTokens
  let pool ← touchHits pool hits
  let reqBlocks := List.replicate (m.numSkippedBlocks numTotalComputedTokens).toNat pool.nullBlock ++ hits
  let m := { m with numCachedBlock := m.numCachedBlock.insert requestId reqBlocks.length }
  m.allocateExternal pool requestId reqBlocks numTotalComputedTokens
    (m.attachedExternalTokens numTotalComputedTokens numExternalComputedTokens)

def allocateNewComputedBlocks (newComputedBlocks : List Nat)
    (numLocalComputedTokens numExternalComputedTokens : Int) :
    Except PoolError (SingleTypeKVCacheManager × BlockPool) :=
  if m.kvCacheSpec.isCrossAttention ∨ requestId ∈ m.numCachedBlock then
    if newComputedBlocks ≠ [] then .error .computedBlocksNotEmpty else .ok (m, pool)
  else if m.getBlocks requestId ≠ [] then .error .requestHasBlocks
  else
    m.allocateForNewRequest pool requestId newComputedBlocks
      (numLocalComputedTokens + numExternalComputedTokens) numExternalComputedTokens

end

end

/-! ### New blocks -/

def allocateNewBlocksBase (m : SingleTypeKVCacheManager) (pool : BlockPool) (requestId : String)
    (numTokens : Int) : Except PoolError (List Nat × SingleTypeKVCacheManager × BlockPool) :=
  let reqBlocks := m.getBlocks requestId
  let numNewBlocks := ceilDiv numTokens m.blockSize - reqBlocks.length
  if numNewBlocks ≤ 0 then .ok ([], m.openBlocks requestId, pool)
  else do
    let (newBlocks, pool) ← pool.getNewBlocks numNewBlocks
    return (newBlocks, (m.setBlocks requestId (reqBlocks ++ newBlocks)).recordNewBlocks newBlocks, pool)

def reuseLoop (nullBlock : Nat) (numSkippedBlocks : Int) : Nat → Int → List Nat → Except PoolError (List Nat)
  | 0, _, blocks => .ok blocks
  | rounds + 1, blockIdx, blocks =>
    if blockIdx < numSkippedBlocks then do
      let read ← listIndex blocks.length blockIdx
      let extended := blocks ++ [blocks.getD read nullBlock]
      let write ← listIndex extended.length blockIdx
      reuseLoop nullBlock numSkippedBlocks rounds (blockIdx + 1) (extended.set write nullBlock)
    else .ok blocks

/-- The table of a Mamba request in align mode before new blocks are added: skipped states are null,
and speculative blocks are moved behind them. -/
def arrangeBlocks (nullBlock : Nat) (numSpeculativeBlocks : Nat) (numRequiredBlocks : Int)
    (blocksAllocated : Bool) (reqBlocks : List Nat) : Except PoolError (List Nat) :=
  let prevBlockLen := reqBlocks.length
  let numSkippedBlocks := numRequiredBlocks - numSpeculativeBlocks - 1
  let padded := reqBlocks ++ List.replicate (numSkippedBlocks - prevBlockLen).toNat nullBlock
  if blocksAllocated then
    reuseLoop nullBlock numSkippedBlocks numSpeculativeBlocks (prevBlockLen - numSpeculativeBlocks) padded
  else .ok padded

def maxNewBlocks (blocksAllocated : Bool) (numSpeculativeBlocks : Nat) : Int :=
  if blocksAllocated then 1 else numSpeculativeBlocks + 1

section
variable (m : SingleTypeKVCacheManager)

def recordLastState (numSpeculativeBlocks : Nat) (requestId : String) : AList fun _ : String => Int :=
  let prevBlockLen : Int := (m.getBlocks requestId).length
  if requestId ∈ m.allocatedBlockReqs then
    m.lastStateBlockIdx.insert requestId (prevBlockLen - 1 - numSpeculativeBlocks)
  else if prevBlockLen > 0 then m.lastStateBlockIdx.insert requestId (prevBlockLen - 1)
  else m.lastStateBlockIdx

def allocateNewBlocksAlign (numSpeculativeBlocks : Nat) (pool : BlockPool)
    (requestId : String) (numTokensMainModel : Int) :
    Except PoolError (List Nat × SingleTypeKVCacheManager × BlockPool) :=
  let reqBlocks := m.getBlocks requestId
  let prevBlockLen := reqBlocks.length
  let numRequiredBlocks := ceilDiv numTokensMainModel m.blockSize + numSpeculativeBlocks
  if numRequiredBlocks = prevBlockLen then .ok ([], m.openBlocks requestId, pool)
  else if numRequiredBlocks < prevBlockLen then .error .tooFewRequiredBlocks
  else do
    let blocksAllocated := decide (requestId ∈ m.allocatedBlockReqs)
    let arranged ← arrangeBlocks pool.nullBlock numSpeculativeBlocks numRequiredBlocks
      blocksAllocated reqBlocks
    let numNewBlocks := numRequiredBlocks - arranged.length
    if numNewBlocks > maxNewBlocks blocksAllocated numSpeculativeBlocks then .error .tooManyNewBlocks
    else
      let (newBlocks, pool) ← pool.getNewBlocks numNewBlocks
      let blocks := arranged ++ newBlocks
      return (blocks.drop prevBlockLen,
        { m.setBlocks requestId blocks with
          lastStateBlockIdx := m.recordLastState numSpeculativeBlocks requestId
          allocatedBlockReqs := m.allocatedBlockReqs.insert requestId }, pool)

def allocateNewBlocks (pool : BlockPool) (requestId : String)
    (numTokens numTokensMainModel : Int) :
    Except PoolError (List Nat × SingleTypeKVCacheManager × BlockPool) :=
  match m.kvCacheSpec with
  | .mamba true numSpeculativeBlocks => m.allocateNewBlocksAlign numSpeculativeBlocks pool requestId numTokensMainModel
  | .mamba false numSpeculativeBlocks =>
    m.allocateNewBlocksBase pool requestId (numTokens + m.blockSize * numSpeculativeBlocks)
  | _ => m.allocateNewBlocksBase pool requestId numTokens

end

/-! ### Caching, skipping and freeing -/

section
variable (m : SingleTypeKVCacheManager) (pool : BlockPool) (requestId : String) (blockHashes : List BlockHash)
  (numTokens : Nat)

def cacheBlocksBase : Except PoolError (SingleTypeKVCacheManager × BlockPool) :=
  let numCachedBlocks := (m.numCachedBlock.lookup requestId).getD 0
  let numFullBlocks := numTokens / m.blockSize
  if numCachedBlocks ≥ numFullBlocks then .ok (m, pool)
  else do
    let pool ← pool.cacheFullBlocks blockHashes (m.getBlocks requestId) numCachedBlocks
      numFullBlocks m.blockSize m.kvCacheGroupId
    return ({ m.openBlocks requestId with
      numCachedBlock := m.numCachedBlock.insert requestId numFullBlocks }, pool)

def cacheBlocks : Except PoolError (SingleTypeKVCacheManager × BlockPool) :=
  match m.kvCacheSpec with
  | .crossAttention => .error .cachingUnsupported
  | .mamba _ _ => do
    let before := (m.numCachedBlock.lookup requestId).getD 0
    let (m, pool) ← m.cacheBlocksBase pool requestId blockHashes numTokens
    let after := (m.numCachedBlock.lookup requestId).getD 0
    let added := ((m.getBlocks requestId).take after).drop before
    let hashes := (added.filter fun b => !pool.isNull b).filterMap fun b => (pool.blocks b).blockHash
    return ({ m with cachedBlocksThisStep := m.cachedBlocksThisStep ++ hashes }, pool)
  | _ => m.cacheBlocksBase pool requestId blockHashes numTokens

end

/-- The loop of `remove_skipped_blocks` downwards from block `i - 1`; it returns the removed blocks
and the new table. -/
def skipLoop (nullBlock : Nat) : Nat → List Nat → List Nat × List Nat
  | 0, blocks => ([], blocks)
  | i + 1, blocks =>
    match blocks[i]? with
    | none => ([], blocks)
    | some b =>
      -- the blocks before a null block are null blocks already
      if b = nullBlock then ([], blocks)
      else
        let (removed, rest) := skipLoop nullBlock i (blocks.set i nullBlock)
        (b :: removed, rest)

section
variable (m : SingleTypeKVCacheManager) (pool : BlockPool) (requestId : String)

def removeSkippedBlocksBase (totalComputedTokens : Int) :
    Except PoolError (SingleTypeKVCacheManager × BlockPool) :=
  let numSkippedTokens := m.kvCacheSpec.getNumSkippedTokens totalComputedTokens
  if numSkippedTokens ≤ 0 then .ok (m, pool)
  else
    let blocks := m.getBlocks requestId
    let numSkippedBlocks := min (numSkippedTokens / m.blockSize) blocks.length
    let (removedBlocks, blocks) := skipLoop pool.nullBlock numSkippedBlocks.toNat blocks
    (pool.freeBlocks removedBlocks).map fun pool => (m.setBlocks requestId blocks, pool)

def freeLastState (numComputedTokens : Int) : Except PoolError (SingleTypeKVCacheManager × BlockPool) :=
  match m.lastStateBlockIdx.lookup requestId with
  | none => .ok (m, pool)
  | some lastStateBlockIdx =>
    if lastStateBlockIdx < ceilDiv numComputedTokens m.blockSize - 1 then do
      let blocks := m.getBlocks requestId
      let index ← listIndex blocks.length lastStateBlockIdx
      let b := blocks.getD index pool.nullBlock
      if b = pool.nullBlock then .ok (m.openBlocks requestId, pool)
      else
        (pool.freeBlocks [b]).map fun pool => (m.setBlocks requestId (blocks.set index pool.nullBlock), pool)
    else .ok (m, pool)

def removeSkippedBlocks (totalComputedTokens : Int) :
    Except PoolError (SingleTypeKVCacheManager × BlockPool) :=
  match m.kvCacheSpec with
  | .mamba align numSpeculativeBlocks => do
    -- all draft tokens may still be rejected
    let numComputedTokens := max 0 (totalComputedTokens - numSpeculativeBlocks)
    let (m, pool) ← m.removeSkippedBlocksBase pool requestId numComputedTokens
    if align then m.freeLastState pool requestId numComputedTokens else .ok (m, pool)
  | _ => m.removeSkippedBlocksBase pool requestId totalComputedTokens

def free : Except PoolError (SingleTypeKVCacheManager × BlockPool) :=
  (pool.freeBlocks (m.getBlocks requestId).reverse).map fun pool =>
    ({ m with
      reqToBlocks := m.reqToBlocks.erase requestId
      numCachedBlock := m.numCachedBlock.erase requestId
      lastStateBlockIdx := m.lastStateBlockIdx.erase requestId
      allocatedBlockReqs := m.allocatedBlockReqs.filter (· ≠ requestId) }, pool)

end

def newStepStarts (m : SingleTypeKVCacheManager) : SingleTypeKVCacheManager :=
  { m with cachedBlocksThisStep := [] }

end SingleTypeKVCacheManager

end TurboQuant.Core
