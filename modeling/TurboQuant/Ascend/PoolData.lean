import Mathlib.Algebra.Order.Floor.Div
import TurboQuant.Core.BlockHash

/-!
Data of the KV pool: cache families, load specs, request trackers, and the entries of the metadata
that the scheduler side of the connector sends to the workers.
-/

namespace TurboQuant.Ascend
open TurboQuant.Core

inductive CacheFamily where
  | default
  | compressed (ratio : Nat)
  | mixed
  deriving DecidableEq

/-- `infer_cache_family_ratio` -/
def CacheFamily.ratio : CacheFamily → Nat
  | .compressed ratio => ratio
  | .default | .mixed => 1

def getCacheFamilyGranularity (blockSize : Nat) (cacheFamily : CacheFamily) : Nat :=
  blockSize * cacheFamily.ratio

structure LoadSpec where
  vllmCachedTokens : Nat
  kvpoolCachedTokens : Nat
  canLoad : Bool
  tokenLen : Nat := 0

structure RequestTracker where
  tokenLen : Nat
  allocatedBlockIdsByGroup : List (List Nat)
  numSavedTokens : Nat
  tokenIds : Option (List Nat)

def RequestTracker.update (tracker : RequestTracker) (newBlockIds : List (List Nat)) : RequestTracker :=
  let allocated := tracker.allocatedBlockIdsByGroup
  let padded := allocated ++ List.replicate (newBlockIds.length - allocated.length) []
  { tracker with allocatedBlockIdsByGroup := padded.mapIdx fun groupId ids => ids ++
    newBlockIds.getD groupId [] }

def RequestTracker.advance (tracker : RequestTracker) (allTokenIds : List Nat)
    (numNewTokens : Nat) : RequestTracker :=
  { tracker with tokenLen :=
    tracker.tokenLen + ((allTokenIds.drop tracker.tokenLen).take numNewTokens).length }

structure ReqMeta where
  reqId : String
  tokenLenChunk : Nat
  blockIdsByGroup : List (List Nat)
  blockHashes : List BlockHash
  canSave : Bool
  loadSpec : Option LoadSpec
  isLastChunk : Option Bool
  kvCacheGroupIds : List Nat
  kvCacheFamiliesByGroup : List CacheFamily
  tokenIds : Option (List Nat)
  originalBlockSize : Option (List Nat)

/-- The metadata entry of a tracked request. The tracker notes what is going to be saved. -/
def ReqMeta.fromRequestTracker (reqId : String) (tracker : RequestTracker) (blockSize : Nat)
    (loadSpec : Option LoadSpec)
    (skipSave : Bool) (blockHashes : List BlockHash) (isLastChunk : Option Bool) (discardPartialChunks : Bool)
    (originalBlockSize : Option (List Nat)) (kvCacheGroupFamilies : List CacheFamily) :
    Option ReqMeta × RequestTracker :=
  let inputTokenLen := tracker.tokenLen
  let chunkBoundary := if discardPartialChunks
    then (tracker.numSavedTokens + 1) ⌈/⌉ blockSize * blockSize else 0
  let numTokensToSave := if discardPartialChunks then inputTokenLen / blockSize * blockSize else inputTokenLen
  let skipSave := skipSave || decide (numTokensToSave < chunkBoundary)
  if skipSave && loadSpec.isNone then (none, tracker)
  else
    let tracker := if skipSave then tracker else { tracker with numSavedTokens := numTokensToSave }
    (some
      { reqId := reqId
        tokenLenChunk := numTokensToSave
        blockIdsByGroup := tracker.allocatedBlockIdsByGroup
        blockHashes := blockHashes
        canSave := !skipSave
        loadSpec := loadSpec.filter (·.canLoad)
        isLastChunk := isLastChunk
        kvCacheGroupIds := List.range tracker.allocatedBlockIdsByGroup.length
        kvCacheFamiliesByGroup := kvCacheGroupFamilies
        tokenIds := tracker.tokenIds.filter (· ≠ [])
        originalBlockSize := originalBlockSize }, tracker)

structure PoolRequest where
  promptTokenIds : List Nat
  allTokenIds : List Nat
  blockHashes : List BlockHash
  numComputedTokens : Nat
  deriving Inhabited

structure NewRequestData where
  reqId : String
  promptTokenIds : List Nat
  blockIds : List (List Nat)
  numComputedTokens : Nat

structure CachedRequestData where
  reqId : String
  newBlockIds : Option (List (List Nat))
  numComputedTokens : Nat

end TurboQuant.Ascend
