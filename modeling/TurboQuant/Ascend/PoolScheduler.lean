import Mathlib.Algebra.GCDMonoid.Nat
import Mathlib.Data.List.AList
import TurboQuant.Ascend.PoolData

/-!
The scheduler side of the KV pool connector: how many tokens can be loaded from the pool, which
loads are enabled after an allocation, and the metadata of a step.
-/

namespace TurboQuant.Ascend
open TurboQuant.Core

inductive KvRole where
  | kvProducer
  | kvConsumer
  | kvBoth
  deriving DecidableEq

/-- The KV cache groups as both sides of the connector see them. -/
structure PoolGroups where
  originalBlockSize : List Nat
  /-- The product of the context-parallel sizes. -/
  cpScale : Nat
  kvCacheGroupFamilies : List CacheFamily

def PoolGroups.groupedBlockSize (groups : PoolGroups) : List Nat :=
  groups.originalBlockSize.map (· * groups.cpScale)

structure KVPoolConfig extends PoolGroups where
  kvRole : KvRole
  consumerIsToLoad : Bool
  consumerIsToPut : Bool
  loadAsync : Bool
  useLayerwise : Bool
  discardPartialChunks : Bool
  kvCacheGroupIds : List Nat

namespace KVPoolConfig

section
variable (config : KVPoolConfig)

def getGroupBlockSize (groupId : Nat) : Nat :=
  config.groupedBlockSize.getD groupId (config.groupedBlockSize.headD 0)

def getGroupFamily (groupId : Nat) : CacheFamily :=
  config.kvCacheGroupFamilies.getD groupId .default

def lcmBlockSize : Nat := config.groupedBlockSize.foldl Nat.lcm 1

def cacheTransferGranularity : Nat :=
  (config.kvCacheGroupIds.map fun groupId =>
    getCacheFamilyGranularity (config.getGroupBlockSize groupId)
      (config.getGroupFamily groupId)).foldl Nat.lcm config.lcmBlockSize

def floorToCacheTransferGranularity (tokenLen : Nat) : Nat :=
  tokenLen / config.cacheTransferGranularity * config.cacheTransferGranularity

/-- Tokens up to here are looked up in the pool, and saved to it with the last chunk. -/
def lastChunkTokensNum (numPromptTokens : Nat) : Nat :=
  if config.discardPartialChunks then config.floorToCacheTransferGranularity numPromptTokens
  else numPromptTokens

def forceSkipSave : Bool := decide (config.kvRole = .kvConsumer) && !config.consumerIsToPut

def loadsAsync : Bool := config.loadAsync && !config.useLayerwise

def numExternalHitTokens (request : PoolRequest) (lookup : Nat → List BlockHash → List Nat → Nat) : Nat :=
  if config.kvRole = .kvConsumer ∧ !config.consumerIsToLoad then 0
  else
    let tokenLen := config.lastChunkTokensNum request.promptTokenIds.length
    if tokenLen < config.cacheTransferGranularity then 0
    else
      let hit := lookup tokenLen request.blockHashes config.kvCacheGroupIds
      if hit = request.allTokenIds.length then hit - 1 else hit

end

end KVPoolConfig

inductive PoolSchedulerError where
  | tokenCountsDiffer
  | requestNotAllocated
  | noRequestTracker
  | notScheduled
  | notUnfinished (reqId : String)
  deriving DecidableEq

structure SchedulerOutput where
  scheduledNewReqs : List NewRequestData
  scheduledCachedReqs : List CachedRequestData
  numScheduledTokens : AList fun _ : String => Nat
  preemptedReqIds : List String
  finishedReqIds : List String

structure AscendConnectorMetadata where
  requests : List ReqMeta
  unfinishedRequestIds : Finset String
  preemptedReqIds : List String

structure KVPoolScheduler where
  config : KVPoolConfig
  loadSpecs : AList fun _ : String => LoadSpec
  requestTrackers : AList fun _ : String => RequestTracker
  preemptedReqIds : Finset String
  /-- The blocks to load into; the request objects are those of the scheduler. -/
  unfinishedRequests : AList fun _ : String => List (List Nat)
  unfinishedRequestIds : Finset String

namespace KVPoolScheduler

def new (config : KVPoolConfig) : KVPoolScheduler := ⟨config, ∅, ∅, ∅, ∅, ∅⟩

section
variable (s : KVPoolScheduler) (requestId : String)

def getNumNewMatchedTokens (request : PoolRequest) (numComputedTokens : Nat)
    (lookup : Nat → List BlockHash → List Nat → Nat) : (Nat × Bool) × KVPoolScheduler :=
  let hit := s.config.numExternalHitTokens request lookup
  let needToAllocate := hit - numComputedTokens
  if needToAllocate = 0 then ((0, false), s)
  else
    let loadSpec : LoadSpec := { vllmCachedTokens := numComputedTokens, kvpoolCachedTokens := hit, canLoad := false }
    ((needToAllocate, s.config.loadsAsync), { s with loadSpecs := s.loadSpecs.insert requestId loadSpec })

def updateStateAfterAlloc (blocks : List (List Nat)) (numExternalTokens : Nat) :
    Except PoolSchedulerError KVPoolScheduler :=
  let localBlockIds := if numExternalTokens > 0 then blocks else s.config.kvCacheGroupIds.map fun _ => []
  let s := { s with
    unfinishedRequests := s.unfinishedRequests.insert requestId localBlockIds
    unfinishedRequestIds := insert requestId s.unfinishedRequestIds }
  match s.loadSpecs.lookup requestId with
  | none => .ok s
  | some spec =>
    if numExternalTokens = 0 then
      .ok { s with loadSpecs := s.loadSpecs.insert requestId { spec with canLoad := false } }
    else if (numExternalTokens : Int) ≠ (spec.kvpoolCachedTokens : Int) - spec.vllmCachedTokens then
      .error .tokenCountsDiffer
    else .ok { s with loadSpecs := s.loadSpecs.insert requestId { spec with canLoad := true } }

end

/-! ### The metadata of a step -/

def forgetFinished (s : KVPoolScheduler) (reqId : String) : KVPoolScheduler :=
  { s with
    requestTrackers := s.requestTrackers.erase reqId
    unfinishedRequests := s.unfinishedRequests.erase reqId
    unfinishedRequestIds := s.unfinishedRequestIds.erase reqId
    preemptedReqIds := s.preemptedReqIds.erase reqId }

def notePreempted (s : KVPoolScheduler) (reqId : String) : KVPoolScheduler :=
  { s with
    preemptedReqIds := insert reqId s.preemptedReqIds
    requestTrackers := s.requestTrackers.erase reqId
    unfinishedRequests := s.unfinishedRequests.erase reqId }

structure Building extends KVPoolScheduler where
  requests : List ReqMeta

namespace Building

def popLoadSpec (s : Building) (reqId : String) : Option LoadSpec × Building :=
  (s.loadSpecs.lookup reqId, { s with loadSpecs := s.loadSpecs.erase reqId })

/-- The tracker is stored, and its entry added unless there is nothing to save or load. -/
def addRequest (s : Building) (reqId : String) (tracker : RequestTracker)
    (loadSpec : Option LoadSpec) (skipSave : Bool)
    (blockHashes : List BlockHash) (isLastChunk : Option Bool)
    (originalBlockSize : Option (List Nat)) : Building :=
  let (reqMeta, tracker) := ReqMeta.fromRequestTracker reqId tracker
    s.config.cacheTransferGranularity loadSpec skipSave
    blockHashes isLastChunk s.config.discardPartialChunks originalBlockSize s.config.kvCacheGroupFamilies
  { s with
    requestTrackers := s.requestTrackers.insert reqId tracker
    requests := s.requests ++ reqMeta.toList }

def addStarted (s : Building) (request : PoolRequest) (reqId : String) (promptTokenIds : List Nat)
    (blockIds : List (List Nat)) (numTokensToCompute : Nat) : Building :=
  let (loadSpec, s) := s.popLoadSpec reqId
  let tracker : RequestTracker :=
    { tokenLen := numTokensToCompute
      allocatedBlockIdsByGroup := blockIds
      numSavedTokens := 0
      tokenIds := some (promptTokenIds.take numTokensToCompute) }
  s.addRequest reqId tracker loadSpec s.config.forceSkipSave request.blockHashes
    (some (decide (numTokensToCompute ≥ s.config.lastChunkTokensNum promptTokenIds.length)))
      (some s.config.originalBlockSize)

variable (objects : String → PoolRequest) (numScheduledTokens : AList fun _ : String => Nat)

def addNew (s : Building) (request : NewRequestData) : Except PoolSchedulerError Building :=
  match numScheduledTokens.lookup request.reqId with
  | none => .error .notScheduled
  | some scheduled =>
    if (s.unfinishedRequests.lookup request.reqId).isNone then .error .requestNotAllocated
    else
      .ok (s.addStarted (objects request.reqId) request.reqId request.promptTokenIds request.blockIds
        (request.numComputedTokens + scheduled))

section
variable (s : Building) (reqId : String) (newBlockIds : List (List Nat))

def addResumed (scheduled : Nat) : Except PoolSchedulerError Building :=
  let s := { s with preemptedReqIds := s.preemptedReqIds.erase reqId }
  if (s.unfinishedRequests.lookup reqId).isNone then .error .requestNotAllocated
  else
    let request := objects reqId
    .ok (s.addStarted request reqId request.promptTokenIds newBlockIds (request.numComputedTokens + scheduled))

def addRunning (numComputedTokens scheduled : Nat) : Except PoolSchedulerError Building :=
  match s.requestTrackers.lookup reqId with
  | none => .error .noRequestTracker
  | some tracker =>
    if (s.unfinishedRequests.lookup reqId).isNone then .error (.notUnfinished reqId)
    else
      let request := objects reqId
      let tracker := tracker.advance request.allTokenIds scheduled
      if numComputedTokens ≥ request.promptTokenIds.length then
        .ok { s with requestTrackers := s.requestTrackers.insert reqId tracker }
      else
        .ok (s.addRequest reqId (tracker.update newBlockIds) none s.config.forceSkipSave request.blockHashes
          (some (decide (tracker.tokenLen ≥ s.config.lastChunkTokensNum request.promptTokenIds.length)))
          (some s.config.originalBlockSize))

end

def addCached (s : Building) (request : CachedRequestData) : Except PoolSchedulerError Building :=
  match request.newBlockIds with
  | none | some [] => .ok s
  | some newBlockIds =>
    match numScheduledTokens.lookup request.reqId with
    | none => .error .notScheduled
    | some scheduled =>
      if request.reqId ∈ s.preemptedReqIds then s.addResumed objects request.reqId newBlockIds scheduled
      else s.addRunning objects request.reqId newBlockIds request.numComputedTokens scheduled

def addWaiting (scheduled : List String) (s : Building)
    (entry : Sigma fun _ : String => List (List Nat)) : Building :=
  if entry.1 ∈ scheduled then s
  else
    match s.popLoadSpec entry.1 with
    | (none, s) => s
    | (some loadSpec, s) =>
      let request := objects entry.1
      let hit := loadSpec.kvpoolCachedTokens
      let numTokensToCompute :=
        if hit % s.config.cacheTransferGranularity ≠ 0 ∧
            hit + 1 = request.promptTokenIds.length then hit + 1 else hit
      let tracker : RequestTracker :=
        { tokenLen := numTokensToCompute
          allocatedBlockIdsByGroup := entry.2
          numSavedTokens := 0
          tokenIds := none }
      s.addRequest entry.1 tracker (some loadSpec) false request.blockHashes none none

end Building

/-- The cached requests are passed over when nothing is to be saved. -/
def addCachedReqs (s : Building) (objects : String → PoolRequest) (output : SchedulerOutput) :
    Except PoolSchedulerError Building :=
  if s.config.forceSkipSave then .ok s
  else output.scheduledCachedReqs.foldlM (Building.addCached objects output.numScheduledTokens) s

def buildConnectorMeta (s : KVPoolScheduler) (objects : String → PoolRequest) (output : SchedulerOutput) :
    Except PoolSchedulerError (AscendConnectorMetadata × KVPoolScheduler) := do
  let s := output.finishedReqIds.foldl forgetFinished s
  let s := output.preemptedReqIds.foldl notePreempted s
  let building ← output.scheduledNewReqs.foldlM (Building.addNew objects output.numScheduledTokens) ⟨s, []⟩
  let building ← addCachedReqs building objects output
  let scheduled := output.scheduledNewReqs.map (·.reqId) ++ output.scheduledCachedReqs.map (·.reqId)
  -- entries are listed from the oldest to the newest
  let building := building.unfinishedRequests.entries.reverse.foldl
    (Building.addWaiting objects scheduled) building
  return (⟨building.requests, s.unfinishedRequestIds, output.preemptedReqIds⟩, building.toKVPoolScheduler)

end KVPoolScheduler

end TurboQuant.Ascend
