import TurboQuant.Lib.Ledger
import TurboQuant.Lib.Outcome
import TurboQuant.Offload.Eviction

/-!
The CPU offloading manager over its cache policy: free blocks, stores and loads. The assertions of
the source are errors, after which the manager is not used any more.
-/

namespace TurboQuant.Offload

variable {K : Type} [DecidableEq K]

structure OffloadingEvent (K : Type) where
  keys : List K
  medium : String
  /-- True if blocks are removed, false if stored. -/
  removed : Bool

structure PrepareStoreOutput (K : Type) where
  keysToStore : List K
  /-- The block ids of the store specification. -/
  storeSpec : List Nat
  evictedKeys : List K

inductive OffloadError (K : Type) where
  /-- Block not found in cache. -/
  | notFoundInCache (key : K)
  /-- Block is not ready for reading. -/
  | notReady (key : K)
  /-- Block not found. -/
  | notFound (key : K)
  /-- The reference count of the block is already 0. -/
  | refCntZero (key : K)
  /-- The free list is shorter than the blocks to reuse. -/
  | freeListTooShort
  /-- Block pool did not allocate the expected number of blocks. -/
  | wrongNumberOfBlocks
deriving DecidableEq

structure CPUOffloadingManager (K : Type) where
  numBlocks : Nat
  numAllocatedBlocks : Nat
  freeList : List Nat
  events : Option (List (OffloadingEvent K))
  policy : CachePolicy K

namespace CPUOffloadingManager

def new (numBlocks : Nat) (cachePolicy : CachePolicyName) (enableEvents : Bool) : CPUOffloadingManager K :=
  ⟨numBlocks, 0, [], if enableEvents then some [] else none, .new numBlocks cachePolicy⟩

section
variable (m : CPUOffloadingManager K)

def getNumFreeBlocks : Nat := m.freeList.length + m.numBlocks - m.numAllocatedBlocks

/-- Blocks that were never used come first, then the last ids of the free list. -/
def allocateBlocks (keys : List K) : Except (OffloadError K) (List BlockStatus × CPUOffloadingManager K) :=
  let numFresh := min keys.length (m.numBlocks - m.numAllocatedBlocks)
  let numReused := keys.length - numFresh
  if m.freeList.length < numReused then .error .freeListTooShort
  else
    .ok ((List.range' m.numAllocatedBlocks numFresh ++ m.freeList.reverse.take numReused).map .new,
      { m with
        numAllocatedBlocks := m.numAllocatedBlocks + numFresh
        freeList := m.freeList.take (m.freeList.length - numReused) })

def addEvent (keys : List K) (removed : Bool) : CPUOffloadingManager K :=
  if keys.isEmpty then m else { m with events := m.events.map (· ++ [⟨keys, "CPU", removed⟩]) }

def evictBlocks (numBlocksToEvict : Nat) (keys : List K) : Option (List K × CPUOffloadingManager K) :=
  if numBlocksToEvict = 0 then some ([], m)
  else
    match m.policy.evict numBlocksToEvict keys with
    | some (evicted, policy) =>
      let toEvict := evicted.map Prod.fst
      some (toEvict, addEvent { m with policy, freeList := m.freeList ++ evicted.map (·.2.blockId) }
        toEvict true)
    | none => none

def insertBlocks (keysToStore : List K) (blocks : List BlockStatus) : CPUOffloadingManager K :=
  { m with policy := (keysToStore.zip blocks).foldl (fun policy entry =>
    policy.insert entry.1 entry.2) m.policy }

def keysToStore (keys : List K) : List K := keys.filter fun key => (m.policy.get key).isNone

def prepareStore (keys : List K) : Except (OffloadError K)
    (Option (PrepareStoreOutput K) × CPUOffloadingManager K) :=
  if (m.keysToStore keys).isEmpty then .ok (some ⟨[], [], []⟩, m)
  else
    match m.evictBlocks ((m.keysToStore keys).length - m.getNumFreeBlocks) keys with
    | none => .ok (none, m)
    | some (toEvict, evicted) => do
      let allocated ← evicted.allocateBlocks (m.keysToStore keys)
      if allocated.1.length ≠ (m.keysToStore keys).length then throw .wrongNumberOfBlocks
      return (some ⟨m.keysToStore keys, allocated.1.map BlockStatus.blockId, toEvict⟩,
        allocated.2.insertBlocks (m.keysToStore keys) allocated.1)

end

/-- Marks a block as stored and notes its key, if it was being stored. -/
def storeKey (state : CPUOffloadingManager K × List K) (key : K) : CPUOffloadingManager K × List K :=
  match state.1.policy.get key with
  | some block =>
    if block.isReady then state
    else ({ state.1 with policy := state.1.policy.setRefCnt key 0 }, state.2 ++ [key])
  | none => state

def dropKey (m : CPUOffloadingManager K) (key : K) : CPUOffloadingManager K :=
  match m.policy.get key with
  | some block =>
    if block.isReady then m else { m with policy := m.policy.remove key, freeList := m.freeList ++
      [block.blockId] }
  | none => m

def completeStore (m : CPUOffloadingManager K) (keys : List K) (success : Bool) : CPUOffloadingManager K :=
  if success then
    let stored := keys.foldl storeKey (m, [])
    stored.1.addEvent stored.2 false
  else keys.foldl dropKey m

def loadKey (state : CPUOffloadingManager K × List Nat) (key : K) :
    Except (OffloadError K) (CPUOffloadingManager K × List Nat) :=
  match state.1.policy.get key with
  | none => .error (.notFoundInCache key)
  | some block =>
    if block.isReady then
      .ok ({ state.1 with policy := state.1.policy.setRefCnt key (block.refCnt + 1) }, state.2 ++
        [block.blockId])
    else .error (.notReady key)

section
variable (m : CPUOffloadingManager K)

def prepareLoad (keys : List K) :
    Except (OffloadError K) (CPUOffloadingManager K × List Nat) := keys.foldlM loadKey (m, [])

def unloadKey (key : K) : Except (OffloadError K) (CPUOffloadingManager K) :=
  match m.policy.get key with
  | none => .error (.notFound key)
  | some block =>
    if 0 < block.refCnt then .ok { m with policy := m.policy.setRefCnt key (block.refCnt - 1) }
    else .error (.refCntZero key)

def completeLoad (keys : List K) : Except (OffloadError K) (CPUOffloadingManager K) :=
  keys.foldlM unloadKey m

end

def touch (m : CPUOffloadingManager K) (keys : List K) : CPUOffloadingManager K :=
  { m with policy := m.policy.touch keys }

end CPUOffloadingManager

inductive Call (K : Type) where
  | prepareStore (keys : List K)
  | completeStore (keys : List K) (success : Bool)
  | prepareLoad (keys : List K)
  | completeLoad (keys : List K)
  | touch (keys : List K)

inductive Reply (K : Type) where
  | store (output : Option (PrepareStoreOutput K))
  | load (blockIds : List Nat)
  | done

namespace CPUOffloadingManager

def exec (m : CPUOffloadingManager K) : Call K → Except (OffloadError K) (Reply K × CPUOffloadingManager K)
  | .prepareStore keys => (m.prepareStore keys).map fun result => (.store result.1, result.2)
  | .completeStore keys success => .ok (.done, m.completeStore keys success)
  | .prepareLoad keys => (m.prepareLoad keys).map fun result => (.load result.2, result.1)
  | .completeLoad keys => (m.completeLoad keys).map fun result => (.done, result)
  | .touch keys => .ok (.done, m.touch keys)

/-- The states after any sequence of calls. -/
inductive Reachable (numBlocks : Nat) (cachePolicy : CachePolicyName) (enableEvents : Bool) :
    CPUOffloadingManager K → Prop
  | new : Reachable numBlocks cachePolicy enableEvents (.new numBlocks cachePolicy enableEvents)
  | call {m m' : CPUOffloadingManager K} {reply : Reply K}
      (before : Reachable numBlocks cachePolicy enableEvents m)
      (call : Call K) (returned : m.exec call = .ok (reply, m')) :
        Reachable numBlocks cachePolicy enableEvents m'

def ledger (m : CPUOffloadingManager K) : Ledger K :=
  ⟨m.numBlocks, m.numAllocatedBlocks, m.freeList, fun key => (m.policy.get key).map BlockStatus.blockId⟩

end CPUOffloadingManager

end TurboQuant.Offload
