import TurboQuant.Core.CacheSpecs

/-!
The planner of the KV cache: from the cache format of every attention layer to groups of layers, and
from the groups and the memory of each worker to the sizes of the tensors and the layers that share
them. The models have full attention, TurboQuant and sliding-window layers; layers are named by
their number.
-/

namespace TurboQuant.Core

/-- The class of a planned layer with the fields that only this class has. -/
inductive AttentionKind where
  | fullAttention (slidingWindow : Option Nat)
  | tqFullAttention (tqSlotSize : Nat)
  | slidingWindow (window : Nat)
  deriving DecidableEq, Repr

/-- The spec of a planned layer: neither padded nor quantized, and without chunks. -/
structure PlannedSpec where
  kind : AttentionKind
  blockSize : Nat
  numKvHeads : Nat
  headSize : Nat
  headSizeV : Nat
  dtype : TorchDtype
  deriving DecidableEq, Repr

namespace PlannedSpec
variable (s : PlannedSpec)

def toSpec : CacheSpecs.AttentionSpec :=
  ⟨⟨s.blockSize, s.numKvHeads, s.headSize, s.dtype, .none, none⟩, match s.kind with
    | .fullAttention window => .fullAttention ⟨s.headSizeV, window, none⟩
    | .tqFullAttention slot => .tqFullAttention ⟨s.headSizeV, none, none⟩ slot
    | .slidingWindow window => .slidingWindow window s.headSizeV⟩

/-- `isinstance(spec, FullPlannedSpec)`: the TurboQuant spec is a subclass. -/
def isFull : Bool := s.toSpec.full?.isSome

/-- The page of a planned layer always has a size. -/
def pageSizeBytes : Nat :=
  match s.toSpec.pageSizeBytes with
  | .ok page => page
  | .error _ => 0

end PlannedSpec

/-- The merged spec is the first one, up to the window of full attention. -/
def mergeSpecs : List PlannedSpec → Except PlanError PlannedSpec
  | [] => .error .index
  | first :: rest => (CacheSpecs.merge ((first :: rest).map (·.toSpec))).map fun merged =>
    match first.kind, merged.cls with
    | .fullAttention _, .fullAttention full => { first with kind := .fullAttention full.slidingWindow }
    | _, _ => first

/-! ### Groups -/

/-- The specs by layer name, in the order of insertion. -/
abbrev SpecDict := List (Nat × PlannedSpec)

def specOf (dict : SpecDict) (name : Nat) : Option PlannedSpec := dict.lookup name

/-- `is_kv_cache_spec_uniform`: only assertion errors of the merge are caught. -/
def isKvCacheSpecUniform (dict : SpecDict) : Except PlanError Bool :=
  if dict.isEmpty then .ok true
  else match mergeSpecs (dict.map (·.2)) with
    | .ok _ => .ok true
    | .error .assertion => .ok false
    | .error e => .error e

def isUniformType (dict : SpecDict) : Bool :=
  match dict with
  | [] => true
  | (_, one) :: _ =>
    dict.all (·.2.blockSize == one.blockSize) &&
      match one.kind with
      | .slidingWindow w => dict.all fun (_, s) => s.kind == .slidingWindow w
      | _ => dict.all (·.2.isFull)

def asFull (s : PlannedSpec) : PlannedSpec :=
  match s.kind with
  -- the head size of the values is not passed on
  | .slidingWindow w => { s with kind := .fullAttention (some w), headSizeV := s.headSize }
  | _ => s

def isUnified (dict : SpecDict) : Except PlanError Bool :=
  (isKvCacheSpecUniform dict).map (· || isUniformType dict)

def unifyHybridKvCacheSpecs (dict : SpecDict) : Except PlanError SpecDict :=
  (isUnified dict).bind fun unified =>
    if unified then .ok dict
    else
      let converted := if dict.any (·.2.isFull) && dict.any (!·.2.isFull) then
          dict.map fun entry => (entry.1, asFull entry.2) else dict
      (isUnified converted).bind fun now => if now then .ok converted else .error .value

def unifyLayer (maxPage : Nat) (entry : Nat × PlannedSpec) : Except PlanError (Nat × PlannedSpec) :=
  if entry.2.pageSizeBytes = maxPage then .ok entry
  else if entry.2.pageSizeBytes = 0 then .error .zeroDivision
  else if maxPage % entry.2.pageSizeBytes ≠ 0 then .error .notImplemented
  else
    let unified := { entry.2 with blockSize := entry.2.blockSize * (maxPage / entry.2.pageSizeBytes) }
    if unified.pageSizeBytes = maxPage then .ok (entry.1, unified) else .error .assertion

def unifyKvCacheSpecPageSize (dict : SpecDict) : Except PlanError SpecDict :=
  dict.mapM (unifyLayer ((dict.map (·.2.pageSizeBytes)).max?.getD 0))

/-- `same_type_layers`: the layers of every spec, in the order in which the specs first occur. -/
def sameTypeLayers (dict : SpecDict) : List (PlannedSpec × List Nat) :=
  ((dict.map (·.2)).reverse.dedup.reverse).map fun s => (s, (dict.filter (·.2 == s)).map (·.1))

def strided (layers : List Nat) (n i : Nat) : List Nat := (layers.zipIdx.filter (·.2 % n == i)).map (·.1)

def groupSize (sizes : List Nat) : Nat :=
  let minNumLayers := sizes.min?.getD 0
  let maxNumLayers := sizes.max?.getD 0
  -- `max_num_layers < min_num_layers * 1.5`
  if maxNumLayers * 2 < minNumLayers * 3 then maxNumLayers else minNumLayers

def splitLayers (size : Nat) (layers : List Nat) : List (List Nat) :=
  let numGroups := (layers.length + size - 1) / size
  (List.range numGroups).map (strided layers numGroups)

structure CacheGroup where
  layers : SpecDict
  pageSizeBytes : Nat

/-- The groups the planner forms: none for a model without attention, one group in which every layer
keeps its own spec, or groups of layers with one spec each. -/
inductive CacheGroups where
  | attentionFree
  | uniformType (group : CacheGroup)
  | perSpec (groups : List CacheGroup)

def createGroup (dict : SpecDict) (names : List Nat) : Except PlanError CacheGroup :=
  (mergeSpecs (names.filterMap (specOf dict))).map fun merged => ⟨names.map (·, merged), merged.pageSizeBytes⟩

def createKvCacheGroupSpecs (dict : SpecDict) (grouped : List (List Nat)) : Except PlanError CacheGroups :=
  (grouped.mapM (createGroup dict)).map .perSpec

def groupsUniformPageSize (dict : SpecDict) : Except PlanError CacheGroups :=
  let same := sameTypeLayers dict
  createKvCacheGroupSpecs dict (same.flatMap fun entry =>
    splitLayers (groupSize (same.map (·.2.length))) entry.2)

def sumPages (specs : SpecDict) : Nat := (specs.map (·.2.pageSizeBytes)).sum

def groupLayers (dict : SpecDict) : Except PlanError CacheGroups :=
  if dict.isEmpty then .ok .attentionFree
  else (isKvCacheSpecUniform dict).bind fun uniform =>
    if uniform then createKvCacheGroupSpecs dict [dict.map (·.1)]
    else if isUniformType dict then .ok (.uniformType ⟨dict, sumPages dict⟩)
    else (unifyKvCacheSpecPageSize dict).bind groupsUniformPageSize

def getKvCacheGroups (disableHybridKvCacheManager : Bool) (dict : SpecDict) : Except PlanError CacheGroups :=
  (if disableHybridKvCacheManager then unifyHybridKvCacheSpecs dict else .ok dict).bind groupLayers

/-! ### Configurations -/

structure KVCacheTensor where
  size : Nat
  sharedBy : List Nat
  deriving DecidableEq, Repr

structure KVCacheConfig where
  numBlocks : Nat
  kvCacheTensors : List KVCacheTensor
  kvCacheGroups : CacheGroups

/-- `_get_layer_kv_cache_specs`. -/
def CacheGroups.layerSpecs : CacheGroups → SpecDict
  | .attentionFree => []
  | .uniformType group => group.layers
  | .perSpec groups => groups.flatMap (·.layers)

def CacheGroups.layerNames (groups : CacheGroups) : List Nat := groups.layerSpecs.map (·.1)

def getUniformPageSize : List CacheGroup → Except PlanError Nat
  | [] => .error .assertion
  | group :: rest =>
    if rest.all (·.pageSizeBytes == group.pageSizeBytes) then .ok group.pageSizeBytes else .error .assertion

def maxLayers (groups : List CacheGroup) : Nat := (groups.map (·.layers.length)).max?.getD 0

def numBlocksOf (override : Option Nat) (memory perBlock : Nat) : Except PlanError Nat :=
  if perBlock = 0 then .error .zeroDivision else .ok (override.getD (memory / perBlock))

def layersAt (groups : List CacheGroup) (i : Nat) : List Nat :=
  groups.filterMap fun group => group.layers[i]?.map (·.1)

def configPerSpec (override : Option Nat) (groups : List CacheGroup) (memory : Nat) :
    Except PlanError KVCacheConfig :=
  (getUniformPageSize groups).bind fun page =>
    if maxLayers groups = 0 then .error .assertion
    -- `available_memory // page_size // num_layers`
    else (numBlocksOf override memory (page * maxLayers groups)).map fun numBlocks =>
      ⟨numBlocks, (List.range (maxLayers groups)).map fun i => ⟨page * numBlocks,
        layersAt groups i⟩, .perSpec groups⟩

def getKvCacheConfigFromGroups (override : Option Nat) (groups : CacheGroups) (memory : Nat) :
    Except PlanError KVCacheConfig :=
  match groups with
  | .attentionFree => .ok ⟨1, [], .attentionFree⟩
  | .uniformType group => (numBlocksOf override memory group.pageSizeBytes).map fun numBlocks =>
      ⟨numBlocks, group.layers.map fun (n, s) => ⟨s.pageSizeBytes * numBlocks, [n]⟩, .uniformType group⟩
  | .perSpec groups => configPerSpec override groups memory

/-! ### All workers -/

def addSpec (merged : SpecDict) (entry : Nat × PlannedSpec) : Except PlanError SpecDict :=
  match specOf merged entry.1 with
  | none => .ok (merged ++ [entry])
  | some s => if s = entry.2 then .ok merged else .error .assertion

def mergeWorkers (workers : List SpecDict) : Except PlanError SpecDict := workers.flatten.foldlM addSpec []

def ownLayers (worker layers : SpecDict) : SpecDict := layers.filter fun (n, _) => (specOf worker n).isSome

def projectToWorker (worker : SpecDict) : CacheGroups → CacheGroups
  | .attentionFree => .attentionFree
  | .uniformType group =>
    let own := ownLayers worker group.layers
    -- a worker without layers keeps the spec of the whole model
    .uniformType ⟨own, if own.isEmpty then group.pageSizeBytes else sumPages own⟩
  | .perSpec groups => .perSpec (groups.map fun group => { group with layers := ownLayers worker group.layers })

def poolBytesPerBlock : CacheGroups → Except PlanError Nat
  | .attentionFree => .ok 0
  | .uniformType group => .ok group.pageSizeBytes
  | .perSpec groups => (getUniformPageSize groups).map (· * maxLayers groups)

def effectiveMemory (override : Option Nat) (groups : CacheGroups) (memory : Nat) : Except PlanError Nat :=
  match override, groups with
  | none, _ => .ok memory
  | some _, .attentionFree => .ok memory
  | some blocks, groups => (poolBytesPerBlock groups).bind fun perBlock =>
      -- the block count that is overridden is computed for the log
      if perBlock = 0 then .error .zeroDivision else .ok (blocks * perBlock)

structure PlanSettings where
  disableHybridKvCacheManager : Bool
  numGpuBlocksOverride : Option Nat
  /-- Whether the memory is enough for one request of the maximal length. -/
  enough : CacheGroups → Nat → Bool

def checkMemory (settings : PlanSettings) (groups : CacheGroups) (memory : Nat) : Except PlanError Unit :=
  match groups with
  | .attentionFree => .ok ()
  | groups => if 0 < memory && settings.enough groups memory then .ok () else .error .value

def planWorker (settings : PlanSettings) (plan : SpecDict × CacheGroups × Nat) :
    Except PlanError KVCacheConfig :=
  if plan.2.1.layerSpecs.length = plan.1.length then
    getKvCacheConfigFromGroups settings.numGpuBlocksOverride plan.2.1 plan.2.2
  else .error .assertion

def shrinkTensor (old new : Nat) (tensor : KVCacheTensor) : Except PlanError KVCacheTensor :=
  if old = 0 then .error .zeroDivision
  else if tensor.size % old ≠ 0 then .error .assertion
  else .ok { tensor with size := tensor.size / old * new }

def shrink (new : Nat) (config : KVCacheConfig) : Except PlanError KVCacheConfig :=
  (config.kvCacheTensors.mapM (shrinkTensor config.numBlocks new)).map fun tensors =>
    { config with numBlocks := new, kvCacheTensors := tensors }

def shrinkAll (configs : List KVCacheConfig) : Except PlanError (List KVCacheConfig) :=
  match (configs.map (·.numBlocks)).min? with
  | none => .error .value
  | some new => configs.mapM (shrink new)

section
variable (settings : PlanSettings)

def planInputs (groups : CacheGroups) (workers : List SpecDict) (memory : List Nat) :
    Except PlanError (List (SpecDict × CacheGroups × Nat)) :=
  (workers.zip memory).mapM fun (worker, available) =>
    (effectiveMemory settings.numGpuBlocksOverride (projectToWorker worker groups) available).map
      fun effective => (worker, projectToWorker worker groups, effective)

def planAll (inputs : List (SpecDict × CacheGroups × Nat)) : Except PlanError (List KVCacheConfig) :=
  (inputs.mapM fun input => checkMemory settings input.2.1 input.2.2).bind fun _ =>
    (inputs.mapM (planWorker settings)).bind shrinkAll

def getKvCacheConfigs (workers : List SpecDict) (memory : List Nat) : Except PlanError (List KVCacheConfig) :=
  (mergeWorkers workers).bind fun merged =>
    (getKvCacheGroups settings.disableHybridKvCacheManager merged).bind fun groups =>
      (planInputs settings groups workers memory).bind (planAll settings)

end

end TurboQuant.Core
