import TurboQuant.Core.Manager
import TurboQuant.Lib.Holders

/-!
The cache manager: every operation goes through the managers of all cache groups in order, and they
share one block pool.
-/

namespace TurboQuant.Core

structure CacheRequest where
  requestId : String
  numTokens : Nat
  numComputedTokens : Nat
  blockHashes : List BlockHash

structure SlotArgs where
  request : CacheRequest
  numNewTokens : Nat
  numNewComputedTokens : Nat := 0
  /-- `none` is the shared value without blocks. -/
  newComputedBlocks : Option (List (List Nat)) := none
  numLookaheadTokens : Nat := 0
  numExternalComputedTokens : Nat := 0
  delayCacheBlocks : Bool := false
  numEncoderTokens : Nat := 0

def SlotArgs.numLocalComputedTokens (args : SlotArgs) : Nat :=
  args.request.numComputedTokens + args.numNewComputedTokens

structure KVCacheManager where
  maxModelLen : Nat
  blockPool : BlockPool
  singleTypeManagers : List SingleTypeKVCacheManager

def computedBlocksAt (newComputedBlocks : List (List Nat)) (i : Nat) : Except PoolError (List Nat) :=
  match newComputedBlocks[i]? with
  | none => .error .indexOutOfRange
  | some blocks => .ok blocks

namespace KVCacheManager

def new (maxModelLen numGpuBlocks : Nat) (enableCaching : Bool) (hashBlockSize : Nat)
    (groups : List ManagerConfig) : Except PoolError KVCacheManager :=
  (BlockPool.new numGpuBlocks enableCaching hashBlockSize).map fun pool => ⟨maxModelLen, pool, groups.map .new⟩

def forEach {α : Type} (kv : KVCacheManager) (op : Nat → SingleTypeKVCacheManager → BlockPool →
    Except PoolError (α × SingleTypeKVCacheManager × BlockPool)) :
      Except PoolError (List α × KVCacheManager) :=
  (Holders.forEach op 0 kv.singleTypeManagers kv.blockPool).map fun (results, managers, pool) =>
    (results, { kv with blockPool := pool, singleTypeManagers := managers })

/-! ### The coordinator -/

def getNumBlocksToAllocate (kv : KVCacheManager) (requestId : String) (numTokens : Int)
    (newComputedBlocks : List (List Nat))
    (numEncoderTokens totalComputedTokens numTokensMainModel : Int) (applyAdmissionCap : Bool) :
    Except PoolError (Int × KVCacheManager) :=
  (kv.forEach fun i m pool =>
    if m.kvCacheSpec.isCrossAttention then
      (m.getNumBlocksToAllocate pool requestId numEncoderTokens [] 0 numEncoderTokens applyAdmissionCap).map
        fun (n, m) => (n, m, pool)
    else do
      let hits ← computedBlocksAt newComputedBlocks i
      (m.getNumBlocksToAllocate pool requestId numTokens hits totalComputedTokens numTokensMainModel
        applyAdmissionCap).map fun (n, m) => (n, m, pool)).map fun (counts, kv) => (counts.sum, kv)

def allocateNewComputedBlocks (kv : KVCacheManager) (requestId : String) (newComputedBlocks : List (List Nat))
    (numLocalComputedTokens numExternalComputedTokens : Int) : Except PoolError KVCacheManager :=
  (kv.forEach fun i m pool => do
    let hits ← computedBlocksAt newComputedBlocks i
    (m.allocateNewComputedBlocks pool requestId hits numLocalComputedTokens
      numExternalComputedTokens).map (Prod.mk ())).map
    Prod.snd

def allocateNewBlocks (kv : KVCacheManager) (requestId : String)
    (numTokens numTokensMainModel numEncoderTokens : Int) :
    Except PoolError (List (List Nat) × KVCacheManager) :=
  kv.forEach fun _ m pool =>
    m.allocateNewBlocks pool requestId (if m.kvCacheSpec.isCrossAttention then numEncoderTokens else numTokens)
      numTokensMainModel

def coordinatorCacheBlocks (kv : KVCacheManager) (request : CacheRequest) (numComputedTokens : Nat) :
    Except PoolError KVCacheManager :=
  (kv.forEach fun _ m pool =>
    (m.cacheBlocks pool request.requestId request.blockHashes numComputedTokens).map (Prod.mk ())).map Prod.snd

def free (kv : KVCacheManager) (requestId : String) : Except PoolError KVCacheManager :=
  (kv.forEach fun _ m pool => (m.free pool requestId).map (Prod.mk ())).map Prod.snd

def removeSkippedBlocks (kv : KVCacheManager) (requestId : String) (totalComputedTokens : Nat) :
    Except PoolError KVCacheManager :=
  (kv.forEach fun _ m pool => (m.removeSkippedBlocks pool requestId totalComputedTokens).map
    (Prod.mk ())).map Prod.snd

def newStepStarts (kv : KVCacheManager) : KVCacheManager :=
  { kv with singleTypeManagers := kv.singleTypeManagers.map (·.newStepStarts) }

/-! ### `allocate_slots` -/

section
variable (kv : KVCacheManager) (args : SlotArgs)

def newComputedBlockList : List (List Nat) :=
  args.newComputedBlocks.getD (List.replicate kv.singleTypeManagers.length [])

def totalComputedTokens : Nat :=
  min (args.numLocalComputedTokens + args.numExternalComputedTokens) kv.maxModelLen

def numTokensMainModel : Nat := kv.totalComputedTokens args + args.numNewTokens

def numTokensNeedSlot : Nat :=
  min (kv.numTokensMainModel args + args.numLookaheadTokens) kv.maxModelLen

def attachComputedBlocks : Except PoolError KVCacheManager :=
  if args.newComputedBlocks.isSome ∨ args.numExternalComputedTokens > 0 then
    kv.allocateNewComputedBlocks args.request.requestId (kv.newComputedBlockList args)
      args.numLocalComputedTokens args.numExternalComputedTokens
  else .ok kv

def takeSlots : Except PoolError (List (List Nat) × KVCacheManager) := do
  let kv ← kv.attachComputedBlocks args
  let (newBlocks, kv) ← kv.allocateNewBlocks args.request.requestId (kv.numTokensNeedSlot args)
    (kv.numTokensMainModel args) args.numEncoderTokens
  if !kv.blockPool.enableCaching ∨ args.delayCacheBlocks then .ok (newBlocks, kv)
  else
    -- draft tokens that may be rejected are not cached
    (kv.coordinatorCacheBlocks args.request (min (kv.totalComputedTokens args + args.numNewTokens)
      args.request.numTokens)).map (newBlocks, ·)

def numBlocksForSlots : Except PoolError (Int × KVCacheManager) :=
  kv.getNumBlocksToAllocate args.request.requestId (kv.numTokensNeedSlot args) (kv.newComputedBlockList args)
    args.numEncoderTokens (args.numLocalComputedTokens + args.numExternalComputedTokens : Nat)
      (kv.numTokensMainModel args) false

/-- `allocate_slots`; the result is `none` when there are too few free blocks. -/
def allocateSlots : Except PoolError (Option (List (List Nat)) × KVCacheManager) :=
  if args.numNewTokens = 0 ∧ args.numExternalComputedTokens = 0 then .error .noTokens
  else do
    let kv ← kv.removeSkippedBlocks args.request.requestId (kv.totalComputedTokens args)
    let (numBlocksToAllocate, kv) ← kv.numBlocksForSlots args
    if numBlocksToAllocate > kv.blockPool.getNumFreeBlocks then .ok (none, kv)
    else (kv.takeSlots args).map fun (newBlocks, kv) => (some newBlocks, kv)

end

/-! ### The other operations -/

def canFitFullSequence (kv : KVCacheManager) (args : SlotArgs) : Except PoolError (Bool × KVCacheManager) := do
  let fullNumTokens := min args.request.numTokens kv.maxModelLen
  let (numBlocksToAllocate, kv) ← kv.getNumBlocksToAllocate args.request.requestId fullNumTokens
    (kv.newComputedBlockList args)
    args.numEncoderTokens (kv.totalComputedTokens args) fullNumTokens true
  return (decide (numBlocksToAllocate ≤ kv.blockPool.getNumFreeBlocks), kv)

def evictBlocks (kv : KVCacheManager) (blockIds : List Nat) : Except PoolError KVCacheManager :=
  (kv.blockPool.evictBlocks blockIds).map fun pool => { kv with blockPool := pool }

def resetPrefixCache (kv : KVCacheManager) : Bool × KVCacheManager :=
  let (done, pool) := kv.blockPool.resetPrefixCache
  (done, { kv with blockPool := pool })

def cacheBlocks (kv : KVCacheManager) (request : CacheRequest) (numComputedTokens : Nat) :
    Except PoolError KVCacheManager :=
  if kv.blockPool.enableCaching then kv.coordinatorCacheBlocks request numComputedTokens else .ok kv

def takeNewBlockIds (kv : KVCacheManager) : List Nat × KVCacheManager :=
  (kv.singleTypeManagers.flatMap (·.newBlockIds),
    { kv with singleTypeManagers := kv.singleTypeManagers.map fun m => { m with newBlockIds := [] } })

inductive Op where
  | allocateSlots (args : SlotArgs)
  | canFitFullSequence (args : SlotArgs)
  | free (requestId : String)
  | removeSkippedBlocks (requestId : String) (totalComputedTokens : Nat)
  | evictBlocks (blockIds : List Nat)
  | resetPrefixCache
  | cacheBlocks (request : CacheRequest) (numComputedTokens : Nat)
  | takeNewBlockIds
  | newStepStarts

def step (kv : KVCacheManager) : Op → Except PoolError KVCacheManager
  | .allocateSlots args => (kv.allocateSlots args).map Prod.snd
  | .canFitFullSequence args => (kv.canFitFullSequence args).map Prod.snd
  | .free requestId => kv.free requestId
  | .removeSkippedBlocks requestId totalComputedTokens => kv.removeSkippedBlocks requestId totalComputedTokens
  | .evictBlocks blockIds => kv.evictBlocks blockIds
  | .resetPrefixCache => .ok kv.resetPrefixCache.2
  | .cacheBlocks request numComputedTokens => kv.cacheBlocks request numComputedTokens
  | .takeNewBlockIds => .ok kv.takeNewBlockIds.2
  | .newStepStarts => .ok kv.newStepStarts

def run (kv : KVCacheManager) (ops : List Op) : Except PoolError KVCacheManager := ops.foldlM step kv

end KVCacheManager

end TurboQuant.Core
