import TurboQuant.Ascend.RoundTrip
import TurboQuant.Core.PlanFits

/-!
The memory of a TurboQuant layer on Ascend, from the layer's cache format over the planner to the
tensor the runner allocates and the view the attention reads. Every attention layer of the model has
`attn` in its name; models with Mamba, MLA or sparse layers are not part of the model.
-/

namespace TurboQuant.Ascend
open Outcome TurboQuant.Core List Nat Option

variable {s : PlannedSpec}

/-! ### Cache formats -/

structure AttentionLayer where
  numKvHeads : Nat
  headSize : Nat
  headSizeV : Nat
  slidingWindow : Option Nat
  /-- The weights come with a quantization config, so that `create_weights` replaces
  `get_kv_cache_spec`. -/
  patched : Bool
  heads_pos : 0 < numKvHeads
  size_pos : 0 < headSize
  sizeV_pos : 0 < headSizeV

def getBoundarySkipLayers (numLayers n : Nat) : List Nat :=
  if n = 0 ∨ numLayers = 0 then []
  else
    let n := min n (numLayers / 2)
    (range n ++ (range n).map (numLayers - n + ·)).dedup

def skipNumber : Option Nat → Except PlanError Nat
  | none => .error .value
  | some i => .ok i

/-- A model that is run with a TurboQuant cache dtype. A stage of the pipeline holds consecutive
layers, on `tensorParallelSize` workers each. -/
structure TqModel where
  layers : List AttentionLayer
  blockSize : Nat
  autoDtype : TorchDtype
  /-- The entries of `kv_cache_dtype_skip_layers` as numbers; `none` stands for a text that is not a
  number. -/
  userSkipLayers : List (Option Nat)
  stages : List (List Nat)
  tensorParallelSize : Nat
  block_pos : 0 < blockSize
  auto_ne : autoDtype ≠ .uint8
  consecutive : stages.flatten = range layers.length
  tp_pos : 0 < tensorParallelSize

/-- The property `slot_size_aligned` as `_patch_tq_slot_size` leaves it. -/
def patchedSlotSizeAligned (headDim : Nat) : Nat := computePaperSlotSize headDim

namespace TqModel
variable (m : TqModel)

def boundary : List Nat := getBoundarySkipLayers m.layers.length 2

/-- `sorted(existing | set(boundary), key=lambda x: int(x))`, of which only the members are read. -/
def skipLayers : Except PlanError (List Nat) := (m.userSkipLayers.mapM skipNumber).map (· ++ m.boundary)

def tqSpec (layer : AttentionLayer) (slot : Nat) : PlannedSpec where
  kind := .tqFullAttention slot
  blockSize := m.blockSize
  numKvHeads := layer.numKvHeads
  headSize := layer.headSize
  headSizeV := layer.headSize
  dtype := .uint8

/-- `get_kv_cache_spec`, with the replacement made by `create_weights`; `turboquant` says that the
layer is not skipped. -/
def getKvCacheSpec (layer : AttentionLayer) (turboquant : Bool) : PlannedSpec :=
  if turboquant && layer.patched then m.tqSpec layer (computePaperSlotSize layer.headSize)
  else
    let dtype := if turboquant then .uint8 else m.autoDtype
    match layer.slidingWindow with
    | some window => ⟨.slidingWindow window, m.blockSize, layer.numKvHeads, layer.headSize,
      layer.headSizeV, dtype⟩
    | none =>
      if turboquant then m.tqSpec layer (patchedSlotSizeAligned layer.headSize)
      else ⟨.fullAttention none, m.blockSize, layer.numKvHeads, layer.headSize, layer.headSizeV, dtype⟩

def entryOf (skip : List Nat) (n : Nat) : Option (Nat × PlannedSpec) :=
  m.layers[n]?.map fun layer => (n, m.getKvCacheSpec layer (!skip.contains n))

def workers (skip : List Nat) : List SpecDict :=
  m.stages.flatMap fun stage => replicate m.tensorParallelSize (stage.filterMap (m.entryOf skip))

def kvCacheConfigs (settings : PlanSettings) (memory : List Nat) : Except PlanError (List KVCacheConfig) :=
  m.skipLayers.bind fun skip => getKvCacheConfigs settings (m.workers skip) memory

end TqModel

/-! ### The runner -/

inductive RawTensor where
  | single (numel : Nat)
  | keyValue (keyNumel valueNumel : Nat)
  deriving DecidableEq, Repr

inductive CacheView where
  | single (shape : List Nat)
  | keyValue (keyShape valueShape : List Nat)
  deriving DecidableEq, Repr

inductive RunnerError where
  | assertion | attribute | value | runtime | key | zeroDivision
  deriving DecidableEq, Repr

structure CacheRunner where
  /-- Whether a KV transfer config is given. -/
  kvTransfer : Bool
  /-- The address of the zeros that are allocated for a tensor of this first layer, and for its
  values. -/
  dataPtr : Nat → Bool → Nat
  /-- The block size of the kernel, with hybrid blocks. -/
  kernelBlockSize : Option Nat

def alignment : Nat := 2 * 1024 * 1024

/-- `_align_memory`: what is left of a tensor of bytes from the next aligned address on. -/
def alignMemory (dataPtr numel alignment : Nat) : Nat :=
  let alignedAddr := (dataPtr + alignment - 1) / alignment * alignment
  numel - (alignedAddr - dataPtr)

namespace CacheRunner
variable (r : CacheRunner)

def zeros (dataPtr size : Nat) : Nat :=
  if r.kvTransfer then min size (alignMemory dataPtr (size + alignment) alignment) else size

def rawTensor (size first : Nat) (s : PlannedSpec) : Except RunnerError RawTensor :=
  match s.kind with
  | .tqFullAttention _ => .ok (.single (r.zeros (r.dataPtr first false) size))
  | _ =>
    if 0 < s.headSize ∧ 0 < s.headSizeV then
      -- `size // (total / dim)`, the quotient of exact numbers
      .ok (.keyValue (r.zeros (r.dataPtr first false) (size * s.headSize / (s.headSize + s.headSizeV)))
        (r.zeros (r.dataPtr first true) (size * s.headSizeV / (s.headSize + s.headSizeV))))
    else .error .assertion

/-- One layer of a tensor: the first one that has no memory yet decides the form for all that share
the tensor. -/
def allocateLayer (specs : SpecDict) (tensor : KVCacheTensor) (raw : Nat → Option RawTensor) (n : Nat) :
    Except RunnerError (Nat → Option RawTensor) :=
  if (raw n).isSome then .ok raw
  else match specOf specs n with
    | none => .error .key
    | some s =>
      (r.rawTensor tensor.size n s).map fun allocated m => if m ∈ tensor.sharedBy then some allocated else raw m

def allocateTensor (specs : SpecDict) (raw : Nat → Option RawTensor) (tensor : KVCacheTensor) :
    Except RunnerError (Nat → Option RawTensor) :=
  tensor.sharedBy.foldlM (r.allocateLayer specs tensor) raw

def allocateKvCacheTensors (config : KVCacheConfig) : Except RunnerError (Nat → Option RawTensor) :=
  (config.kvCacheTensors.foldlM (r.allocateTensor config.kvCacheGroups.layerSpecs) fun _ =>
    none).bind fun raw =>
    -- "Some layers are not correctly initialized"
    if config.kvCacheGroups.layerNames.all (fun n => (raw n).isSome) &&
        (config.kvCacheTensors.flatMap (·.sharedBy)).all
          (fun n => (raw n).isNone || config.kvCacheGroups.layerNames.contains n)
    then .ok raw else .error .assertion

def countPages (numel page numBlocks : Nat) : Except RunnerError Nat :=
  if page = 0 then .error .zeroDivision
  else if numel % page ≠ 0 then .error .assertion
  else if numel / page < numBlocks then .error .assertion
  else .ok (numel / page)

/-- `tensor.view(dtype).view(shape)` on bytes. -/
def viewAs (numel : Nat) (dtype : TorchDtype) (shape : List Nat) : Except RunnerError (List Nat) :=
  if shape.prod * getDtypeSize dtype = numel then .ok shape else .error .runtime

def keyValueView (s : PlannedSpec) (numBlocks keyNumel valueNumel : Nat) : Except RunnerError CacheView :=
  (countPages (keyNumel + valueNumel) s.pageSizeBytes numBlocks).bind fun pages =>
    let outer := match r.kernelBlockSize with
      | some kernel => [pages * (s.blockSize / kernel), kernel]
      | none => [pages, s.blockSize]
    (viewAs keyNumel s.dtype (outer ++ [s.numKvHeads, s.headSize])).bind fun key =>
      (viewAs valueNumel s.dtype (outer ++ [s.numKvHeads, s.headSizeV])).map fun value => .keyValue key value

def tqView (s : PlannedSpec) (slot numBlocks numel : Nat) : Except RunnerError CacheView :=
  (countPages numel (s.blockSize * s.numKvHeads * slot) numBlocks).bind fun pages =>
    (viewAs numel .uint8 [pages, s.blockSize, s.numKvHeads, slot]).map .single

def reshapeLayer (s : PlannedSpec) (numBlocks : Nat) (raw : RawTensor) : Except RunnerError CacheView :=
  match s.kind, raw with
  | .tqFullAttention slot, .single numel => tqView s slot numBlocks numel
  -- a tuple has no `numel`
  | .tqFullAttention _, .keyValue _ _ => .error .attribute
  -- the pages of a TurboQuant layer have more than two bytes, so the tensor does not unpack into two
  | _, .single _ => .error .value
  | _, .keyValue key value => r.keyValueView s numBlocks key value

section
variable (config : KVCacheConfig) (raw : Nat → Option RawTensor)

def reshapeEntry (entry : Nat × PlannedSpec) : Except RunnerError (Nat × CacheView) :=
  match raw entry.1 with
  | none => .error .key
  | some tensor => (r.reshapeLayer entry.2 config.numBlocks tensor).map (entry.1, ·)

def reshapeKvCacheTensors : Except RunnerError (List (Nat × CacheView)) :=
  config.kvCacheGroups.layerSpecs.mapM (r.reshapeEntry config raw)

end

end CacheRunner

/-- `_get_tq_cache`: the tensor the attention reads and writes. -/
def getTqCache : CacheView → List Nat
  | .single shape => shape
  | .keyValue key _ => key

/-! ### Allocation -/

namespace CacheRunner
variable (r : CacheRunner)

theorem zeros_eq (dataPtr size : Nat) : r.zeros dataPtr size = size := by
  unfold zeros
  split
  · have aligned : (dataPtr + alignment - 1) / alignment * alignment ≤ dataPtr + alignment - 1 :=
      div_mul_le_self _ _
    refine min_eq_left ?_
    unfold alignMemory
    dsimp only
    omega
  · rfl

variable {specs : SpecDict} {raw : Nat → Option RawTensor}

theorem allocateLayer_owned {tensor : KVCacheTensor} (names : List Nat)
    (owned : ∀ n ∈ names, (raw n).isSome = true) :
      names.foldlM (r.allocateLayer specs tensor) raw = .ok raw := by
  induction names with
  | nil => rfl
  | cons n rest ih =>
    have kept : r.allocateLayer specs tensor raw n = .ok raw := by
      rw [allocateLayer, if_pos (owned n mem_cons_self)]
    rw [foldlM_cons, kept]
    exact ih fun m later => owned m (mem_cons_of_mem _ later)

theorem allocateTensor_ok {size first : Nat} (rest : List Nat)
    {alloc : RawTensor} (fresh : raw first = none) (found : specOf specs first = some s)
    (made : r.rawTensor size first s = .ok alloc) :
    r.allocateTensor specs raw ⟨size, first :: rest⟩ =
      .ok fun m => if m ∈ first :: rest then some alloc else raw m := by
  have step : r.allocateLayer specs ⟨size, first :: rest⟩ raw first =
      .ok fun m => if m ∈ first :: rest then some alloc else raw m := by
    rw [allocateLayer, if_neg (by rw [fresh]; exact Bool.false_ne_true), found]
    show (r.rawTensor size first s).map _ = _
    rw [made]
    rfl
  rw [allocateTensor, foldlM_cons, step]
  exact r.allocateLayer_owned rest fun m later => by rw [if_pos (mem_cons_of_mem _ later)]; rfl

theorem rawTensor_ok (sized : s.Sized) (size first : Nat) : ∃ allocated,
    r.rawTensor size first s = .ok allocated := by
  unfold rawTensor
  split
  · exact ⟨_, rfl⟩
  · exact ⟨_, if_pos ⟨sized.head, sized.headV⟩⟩

/-- Every layer of a tensor has the memory that the tensor's first layer asks for. -/
def Allocates (specs : SpecDict) (raw : Nat → Option RawTensor) (tensor : KVCacheTensor) : Prop :=
  ∀ first ∈ tensor.sharedBy.head?, ∃ s allocated, specOf specs first = some s ∧
    r.rawTensor tensor.size first s = .ok allocated ∧ ∀ n ∈ tensor.sharedBy, raw n = some allocated

theorem allocateTensors_ok (tensors : List KVCacheTensor) (raw : Nat → Option RawTensor)
    (known : ∀ tensor ∈ tensors, ∀ n ∈ tensor.sharedBy, ∃ s, specOf specs n = some s ∧ s.Sized)
    (apart : (tensors.flatMap (·.sharedBy)).Nodup) (fresh : ∀ n ∈ tensors.flatMap (·.sharedBy), raw n = none) :
    ∃ after, tensors.foldlM (r.allocateTensor specs) raw = .ok after ∧
      (∀ n, n ∉ tensors.flatMap (·.sharedBy) → after n = raw n) ∧ ∀ tensor ∈ tensors,
        r.Allocates specs after tensor := by
  -- the layers of the remaining tensors have no memory yet, and what a tensor gave to its layers is not touched again
  induction tensors generalizing raw with
  | nil => exact ⟨raw, rfl, fun _ _ => rfl, fun _ mem => (by cases mem)⟩
  | cons tensor rest ih =>
    rw [flatMap_cons, nodup_append] at apart
    obtain ⟨-, restApart, between⟩ := apart
    have restKnown := fun t mem => known t (mem_cons_of_mem _ mem)
    have restFresh : ∀ n ∈ rest.flatMap (·.sharedBy), raw n = none := fun n mem =>
      fresh n (by rw [flatMap_cons]; exact mem_append_right _ mem)
    obtain ⟨size, sharedBy⟩ := tensor
    cases sharedBy with
    | nil =>
      obtain ⟨after, ran, others, each⟩ := ih raw restKnown restApart restFresh
      refine ⟨after, ran, others, fun t mem => ?_⟩
      rcases mem_cons.mp mem with rfl | later
      · intro first none
        cases none
      · exact each t later
    | cons first names =>
      obtain ⟨s, found, sized⟩ := known _ mem_cons_self first mem_cons_self
      obtain ⟨alloc, made⟩ := r.rawTensor_ok sized size first
      have isFresh := fresh first (by rw [flatMap_cons]; exact mem_append_left _ mem_cons_self)
      have step := r.allocateTensor_ok names isFresh found made
      have stillFresh : ∀ n ∈ rest.flatMap (·.sharedBy), (if n ∈ first :: names then some alloc
        else raw n) = none := by
        intro n mem
        rw [if_neg fun here => between n here n mem rfl]
        exact restFresh n mem
      obtain ⟨after, ran, others, each⟩ := ih _ restKnown restApart stillFresh
      refine ⟨after, by rw [foldlM_cons, step]; exact ran, ?_, ?_⟩
      · intro n outside
        rw [flatMap_cons, mem_append, not_or] at outside
        rw [others n outside.2, if_neg outside.1]
      · intro t mem
        rcases mem_cons.mp mem with rfl | later
        · intro first' head
          cases head
          refine ⟨s, alloc, found, made, fun n here => ?_⟩
          rw [others n fun there => between n here n there rfl, if_pos here]
        · exact each t later

end CacheRunner

variable {n : Nat}

theorem mem_layerNames {groups : CacheGroups} (found : specOf groups.layerSpecs n = some s) :
    n ∈ groups.layerNames :=
  specOf_isSome.mp (by rw [found]; rfl)

variable {cfg : KVCacheConfig}

theorem CacheRunner.allocateKvCacheTensors_ok (r : CacheRunner) {dict : SpecDict} (fits : cfg.Fits dict) :
    ∃ raw, r.allocateKvCacheTensors cfg = .ok raw ∧
      ∀ tensor ∈ cfg.kvCacheTensors, r.Allocates cfg.kvCacheGroups.layerSpecs raw tensor := by
  have known : ∀ tensor ∈ cfg.kvCacheTensors, ∀ n ∈ tensor.sharedBy, ∃ s,
      specOf cfg.kvCacheGroups.layerSpecs n = some s ∧ s.Sized := by
    intro tensor listed n mem
    obtain ⟨s, e, -⟩ := fits.size tensor listed n mem
    exact ⟨s, specOf_of_mem fits.plans.distinct e, fits.plans.sized _ e⟩
  obtain ⟨raw, ran, -, each⟩ := r.allocateTensors_ok cfg.kvCacheTensors
    (fun _ => none) known fits.apart fun _ _ => rfl
  refine ⟨raw, ?_, each⟩
  rw [allocateKvCacheTensors, ran]
  refine if_pos ?_
  rw [Bool.and_eq_true]
  constructor
  · refine all_eq_true.mpr fun n mem => ?_
    obtain ⟨tensor, listed, sharing⟩ := fits.covers n mem
    obtain ⟨first, head⟩ := isSome_iff_exists.mp (isSome_head?.mpr (ne_nil_of_mem sharing))
    obtain ⟨s, alloc, -, -, all⟩ := each tensor listed first head
    rw [all n sharing]
    rfl
  · refine all_eq_true.mpr fun n mem => ?_
    obtain ⟨tensor, listed, sharing⟩ := mem_flatMap.mp mem
    obtain ⟨s, found, -⟩ := known tensor listed n sharing
    rw [Bool.or_eq_true]
    exact .inr (contains_iff_mem.mpr (mem_layerNames found))

/-! ### The view of a layer -/

def RowsFit (α : Type) [Field α] [LinearOrder α] (headSize slot : Nat) : Prop :=
  ∀ (q : Quantizer α) (b : KvBatch α) (r : Nat) (row : List UInt8), b.D = headSize →
    slotRow q b r = .ok row → row.length ≤ slot

section
variable {α : Type} [Field α] [LinearOrder α]

theorem slotRow_ok (q : Quantizer α) {b : KvBatch α} (pos : 0 < b.D) (even : b.D % 2 = 0) (r : Nat) :
    ∃ row, slotRow q b r = .ok row ∧ row.length = computePaperSlotSize b.D := by
  have key := quantizeSingleVector_eq q (x := b.keyRow (r / b.Hk) (r % b.Hk))
    (by rw [keyRow_length]; exact pos) (by rw [keyRow_length]; exact even)
  have value := quantizeSingleVector_eq q (x := b.valueRow (r / b.Hk) (r % b.Hk))
    (by rw [valueRow_length]; exact pos) (by rw [valueRow_length]; exact even)
  refine ⟨_, by rw [slotRow, key, value]; rfl, ?_⟩
  rw [length_append, halfBytes_length, halfBytes_length, keyRow_length, valueRow_length,
    computePaperSlotSize_even even]

theorem rowsFit_iff {headSize slot : Nat} (pos : 0 < headSize) (even : headSize % 2 = 0) :
    RowsFit α headSize slot ↔ computePaperSlotSize headSize ≤ slot := by
  constructor
  · intro fits
    obtain ⟨row, pk, length⟩ := slotRow_ok (⟨fun _ _ => 0, [], [], fun _ => 0, fun _ => 0⟩ : Quantizer α)
      (b := ⟨1, 1, headSize, fun _ _ _ => 0, fun _ _ _ => 0, fun _ => 0⟩) pos even 0
    rw [← length]
    exact fits _ _ 0 row rfl pk
  · rintro room q b r row rfl pk
    obtain ⟨row', packed', length⟩ := slotRow_ok q pos even r
    rw [pk] at packed'
    cases packed'
    rwa [length]

end

def RawTensor.bytes : RawTensor → Nat
  | .single numel => numel
  | .keyValue key value => key + value

/-- What the planner, the allocation and the view have to agree on for a layer. -/
def TqViewAgrees (α : Type) [Field α] [LinearOrder α] (r : CacheRunner) (config : KVCacheConfig)
    (n : Nat) (layer : AttentionLayer) : Prop :=
  ∃ s raw tensor view slot, specOf config.kvCacheGroups.layerSpecs n = some s ∧
    r.allocateKvCacheTensors config = .ok raw ∧ raw n = some tensor ∧
      tensor.bytes = s.pageSizeBytes * config.numBlocks ∧
    r.reshapeLayer s config.numBlocks tensor = .ok view ∧
    (∀ views, r.reshapeKvCacheTensors config raw = .ok views → (n, view) ∈ views) ∧
    getTqCache view = [config.numBlocks, s.blockSize, layer.numKvHeads, slot] ∧
      (getTqCache view).prod = tensor.bytes ∧
    RowsFit α layer.headSize slot

namespace CacheRunner
variable {r : CacheRunner}

theorem rawTensor_single {size first numel : Nat} (made : r.rawTensor size first s = .ok (.single numel)) :
    ∃ slot, s.kind = .tqFullAttention slot := by
  unfold rawTensor at made
  split at made
  · rename_i slot kind
    exact ⟨slot, kind⟩
  · split at made
    · cases made
    · cases made

theorem rawTensor_tq {size first slot : Nat} (kind : s.kind = .tqFullAttention slot) :
    r.rawTensor size first s = .ok (.single size) := by
  unfold rawTensor
  rw [kind]
  simp only [zeros_eq]

theorem viewAs_ok {numel : Nat} {dtype : TorchDtype} {shape shape' : List Nat}
    (ran : viewAs numel dtype shape = .ok shape') : shape' = shape := by
  unfold viewAs at ran
  split at ran
  · exact (Except.ok.inj ran).symm
  · cases ran

variable {v : CacheView}

theorem keyValueView_last {count key value : Nat}
    (ran : r.keyValueView s count key value = .ok v) : ∃ outer, outer.length = 2 ∧
      getTqCache v = outer ++ [s.numKvHeads, s.headSize] := by
  obtain ⟨pages, -, ran⟩ := bind_ok ran
  obtain ⟨keyShape, keyView, ran⟩ := bind_ok ran
  obtain ⟨valueShape, -, rfl⟩ := map_ok ran
  refine ⟨_, ?_, viewAs_ok keyView⟩
  split <;> rfl

theorem reshapeLayer_cases {count : Nat} {tensor : RawTensor}
    (ran : r.reshapeLayer s count tensor = .ok v) :
    (∃ slot numel, s.kind = .tqFullAttention slot ∧ tensor = .single numel) ∨
      ∃ outer, outer.length = 2 ∧ getTqCache v = outer ++ [s.numKvHeads, s.headSize] := by
  unfold reshapeLayer at ran
  split at ran
  · rename_i slot numel kind
    exact .inl ⟨slot, numel, kind, rfl⟩
  · cases ran
  · cases ran
  · exact .inr (keyValueView_last ran)

theorem reshapeLayer_tq {slot numBlocks : Nat} (kind : s.kind = .tqFullAttention slot) (slotPos : 0 < slot)
    (blockPos : 0 < s.blockSize) (headsPos : 0 < s.numKvHeads) :
    r.reshapeLayer s numBlocks (.single (s.pageSizeBytes * numBlocks)) =
      .ok (.single [numBlocks, s.blockSize, s.numKvHeads, slot]) := by
  have page := PlannedSpec.pageSizeBytes_tq kind slotPos
  have pagePos : 0 < s.blockSize * s.numKvHeads * slot := mul_pos (mul_pos blockPos headsPos) slotPos
  have count : countPages (s.pageSizeBytes * numBlocks) (s.blockSize * s.numKvHeads * slot)
      numBlocks = .ok numBlocks := by
    rw [page, countPages, if_neg pagePos.ne', if_neg (fun odd => odd (Nat.mul_mod_right _ _)),
      Nat.mul_div_cancel_left _ pagePos, if_neg (lt_irrefl _)]
  have shape : viewAs (s.pageSizeBytes * numBlocks) .uint8 [numBlocks, s.blockSize, s.numKvHeads, slot] =
      .ok [numBlocks, s.blockSize, s.numKvHeads, slot] := by
    refine if_pos ?_
    rw [page]
    simp only [prod_cons, prod_nil, getDtypeSize]
    ring
  unfold reshapeLayer
  rw [kind]
  show tqView s slot numBlocks (s.pageSizeBytes * numBlocks) = _
  rw [tqView, count]
  show (viewAs _ _ _).map _ = _
  rw [shape]
  rfl

end CacheRunner

/-! ### The model's layers -/

namespace TqModel
variable {m : TqModel}

def HasTqSpec (m : TqModel) (skip : List Nat) (n : Nat) : Prop :=
  n ∉ skip ∧ ∃ layer, m.layers[n]? = some layer ∧ (layer.patched = true ∨ layer.slidingWindow = none)

variable {l : AttentionLayer} {turboquant : Bool}

theorem getKvCacheSpec_slot {slot : Nat} :
    (m.getKvCacheSpec l turboquant).kind = .tqFullAttention slot ↔
      turboquant = true ∧ (l.patched = true ∨ l.slidingWindow = none) ∧
        slot = computePaperSlotSize l.headSize := by
  cases turboquant <;> cases patched : l.patched <;> cases window : l.slidingWindow <;>
    simp [getKvCacheSpec, tqSpec, patchedSlotSizeAligned, patched, window, eq_comm]

theorem getKvCacheSpec_sizes (l : AttentionLayer) (turboquant : Bool) :
    (m.getKvCacheSpec l turboquant).numKvHeads = l.numKvHeads ∧
      (m.getKvCacheSpec l turboquant).headSize = l.headSize ∧ (m.getKvCacheSpec l turboquant).Sized := by
  unfold getKvCacheSpec
  split
  · exact ⟨rfl, rfl, m.block_pos, l.size_pos, l.size_pos⟩
  · dsimp only
    split
    · exact ⟨rfl, rfl, m.block_pos, l.size_pos, l.sizeV_pos⟩
    · split
      · exact ⟨rfl, rfl, m.block_pos, l.size_pos, l.size_pos⟩
      · exact ⟨rfl, rfl, m.block_pos, l.size_pos, l.sizeV_pos⟩

theorem getKvCacheSpec_uint8 :
    (m.getKvCacheSpec l turboquant).dtype = .uint8 ↔ turboquant = true := by
  cases turboquant <;> cases patched : l.patched <;> cases window : l.slidingWindow <;>
    simp [getKvCacheSpec, tqSpec, patched, window, m.auto_ne]

variable {skip : List Nat}

theorem mem_workers (listed : (n, s) ∈ (m.workers skip).flatten) :
    ∃ l, m.layers[n]? = some l ∧ s = m.getKvCacheSpec l (!skip.contains n) := by
  obtain ⟨worker, isWorker, mem⟩ := mem_flatten.mp listed
  obtain ⟨stage, -, copy⟩ := mem_flatMap.mp isWorker
  rw [eq_of_mem_replicate copy] at mem
  obtain ⟨k, -, made⟩ := mem_filterMap.mp mem
  obtain ⟨l, known, same⟩ := map_eq_some_iff.mp made
  cases same
  exact ⟨l, known, rfl⟩

theorem head_copies {β : Type} {copies : Nat} (pos : 0 < copies) (parts : List (List β)) :
    (parts.flatMap (replicate copies ·)).flatten.head? = parts.flatten.head? := by
  induction parts with
  | nil => rfl
  | cons part rest ih =>
    obtain ⟨k, rfl⟩ := exists_eq_succ_of_ne_zero pos.ne'
    rw [flatMap_cons, flatten_append, head?_append, ih, flatten_cons, head?_append]
    cases part with
    | nil => rw [flatten_replicate_nil]
    | cons x xs => rfl

theorem head_workers (m : TqModel) (skip : List Nat) : (m.workers skip).flatten.head? = m.entryOf skip 0 := by
  have copies : m.workers skip = (m.stages.map (·.filterMap (m.entryOf skip))).flatMap
      (replicate m.tensorParallelSize ·) := by
    rw [flatMap_map]
    rfl
  have flat : (m.stages.map (·.filterMap (m.entryOf skip))).flatten =
      (range m.layers.length).filterMap (m.entryOf skip) := by
    rw [← m.consecutive, filterMap_flatten]
  rw [copies, head_copies m.tp_pos, flat]
  cases count : m.layers.length with
  | zero =>
    rw [entryOf, getElem?_eq_none (by omega)]
    rfl
  | succ k =>
    rw [range_succ_eq_map, entryOf, getElem?_eq_getElem (by omega)]
    rw [filterMap_cons_some (b := (0, m.getKvCacheSpec (m.layers[0]) (!skip.contains 0)))
      (by rw [entryOf, getElem?_eq_getElem (by omega)]; rfl)]
    rfl

theorem zero_mem_boundary (several : 2 ≤ m.layers.length) : 0 ∈ m.boundary := by
  have half : 0 < min 2 (m.layers.length / 2) := by omega
  rw [boundary, getBoundarySkipLayers, if_neg (by omega)]
  exact mem_dedup.mpr (mem_append_left _ (mem_range.mpr half))

theorem workers_firstApart (skipped : m.skipLayers = .ok skip) : FirstApart (m.workers skip).flatten := by
  intro n s slot listed kind
  obtain ⟨l, known, rfl⟩ := mem_workers listed
  obtain ⟨uses, layerKind, -⟩ := getKvCacheSpec_slot.mp kind
  refine ⟨getKvCacheSpec_uint8.mpr uses, fun first head bytes => ?_⟩
  rw [head_workers] at head
  obtain ⟨layer', zero, rfl⟩ := map_eq_some_iff.mp head
  have usesFirst := getKvCacheSpec_uint8.mp bytes
  -- with two layers the first one is skipped, so this is the only layer
  have single : ¬ 2 ≤ m.layers.length := by
    intro several
    obtain ⟨numbers, -, rfl⟩ := map_ok skipped
    have skips := List.mem_append_right numbers (zero_mem_boundary several)
    rw [List.contains_iff_mem.mpr skips] at usesFirst
    cases usesFirst
  have only : n = 0 := by
    have bound := (List.getElem_of_getElem? known).1
    omega
  subst only
  rw [zero] at known
  cases known
  exact ⟨slot, kind⟩

theorem planned {worker : SpecDict} (isWorker : worker ∈ m.workers skip)
    (fits : cfg.Fits worker) (onWorker : n ∈ cfg.kvCacheGroups.layerNames) :
    ∃ l s, m.layers[n]? = some l ∧ specOf cfg.kvCacheGroups.layerSpecs n = some s ∧ s.Sized ∧
      s.numKvHeads = l.numKvHeads ∧ s.headSize = l.headSize ∧ ∀ slot, s.kind = .tqFullAttention slot ↔
        n ∉ skip ∧ (l.patched = true ∨ l.slidingWindow = none) ∧ slot = computePaperSlotSize l.headSize := by
  obtain ⟨planned, isPlanned, rfl⟩ := mem_map.mp onWorker
  obtain ⟨⟨k, own⟩, e, named⟩ := mem_map.mp (fits.plans.known planned isPlanned)
  rw [← named]
  obtain ⟨l, known, rfl⟩ := mem_workers (mem_flatten.mpr ⟨worker, isWorker, e⟩)
  obtain ⟨s, listed, keeps⟩ := fits.plans.specs _ _ e
  obtain ⟨heads, headSize, -⟩ := m.getKvCacheSpec_sizes l (!skip.contains k)
  refine ⟨l, s, known, specOf_of_mem fits.plans.distinct listed, fits.plans.sized _ listed,
    keeps.heads.trans heads, keeps.headSize.trans headSize, ?_⟩
  intro slot
  rw [keeps.slot, getKvCacheSpec_slot, Bool.not_eq_true', ← Bool.not_eq_true, contains_iff_mem]

/-- For every model that is run with TurboQuant, every worker and every layer of it that is not
skipped: the page of the planner, the raw tensor and the view agree exactly if the layer has the
TurboQuant format and the first layer that shares its tensor has it too. -/
theorem tqView_agrees_iff {α : Type} [Field α] [LinearOrder α] (m : TqModel) (r : CacheRunner)
    (settings : PlanSettings)
    (memory : List Nat) {skip : List Nat} (skipped : m.skipLayers = .ok skip) {configs : List KVCacheConfig}
    (ran : m.kvCacheConfigs settings memory = .ok configs) {i : Nat} {config : KVCacheConfig}
    (here : configs[i]? = some config)
    {n : Nat} {layer : AttentionLayer} (onWorker : n ∈ config.kvCacheGroups.layerNames)
    (known : m.layers[n]? = some layer)
    (turboquant : n ∉ skip) (even : layer.headSize % 2 = 0) :
    TqViewAgrees α r config n layer ↔ (layer.patched = true ∨ layer.slidingWindow = none) ∧
      ∃ tensor ∈ config.kvCacheTensors, n ∈ tensor.sharedBy ∧ ∃ first ∈ tensor.sharedBy.head?,
        m.HasTqSpec skip first := by
  obtain ⟨skip', skipped', ran⟩ := bind_ok ran
  rw [skipped] at skipped'
  cases skipped'
  have sized : ∀ entry ∈ (m.workers skip).flatten, entry.2.Sized := by
    rintro ⟨k, s⟩ listed
    obtain ⟨other, -, rfl⟩ := mem_workers listed
    exact (m.getKvCacheSpec_sizes other _).2.2
  obtain ⟨worker, at_i, fits⟩ := getKvCacheConfigs_fits ran (workers_firstApart skipped) sized here
  have isWorker := mem_of_getElem? at_i
  obtain ⟨raw, allocated, each⟩ := r.allocateKvCacheTensors_ok fits
  obtain ⟨layer', s, known', found, sizes, heads, headSize, kind⟩ := planned isWorker fits onWorker
  rw [known] at known'
  cases known'
  have paper := computePaperSlotSize_even even
  constructor
  · rintro ⟨s', raw', rawTensor, view, slot, found', allocated', memory', -, reshaped, -, shape, -, rows⟩
    rw [found] at found'
    cases found'
    rw [allocated] at allocated'
    cases allocated'
    rcases CacheRunner.reshapeLayer_cases reshaped with ⟨slot', numel, tq, rfl⟩ | ⟨outer, two, key⟩
    · refine ⟨((kind slot').mp tq).2.1, ?_⟩
      obtain ⟨tensor, listed, sharing⟩ := fits.covers n onWorker
      obtain ⟨first, head⟩ := isSome_iff_exists.mp (isSome_head?.mpr (ne_nil_of_mem sharing))
      obtain ⟨sFirst, made, foundFirst, ranFirst, all⟩ := each tensor listed first head
      rw [all n sharing] at memory'
      cases memory'
      obtain ⟨slotFirst, tqFirst⟩ := CacheRunner.rawTensor_single ranFirst
      obtain ⟨layerFirst, sFirst', knownFirst, foundFirst', -, -, -, kindFirst⟩ :=
        planned isWorker fits (mem_layerNames foundFirst)
      rw [foundFirst] at foundFirst'
      cases foundFirst'
      obtain ⟨uses, format, -⟩ := (kindFirst slotFirst).mp tqFirst
      exact ⟨tensor, listed, sharing, first, head, uses, layerFirst, knownFirst, format⟩
    · -- the attention would read the keys, whose last dimension is the head size
      obtain ⟨x, y, rfl⟩ := length_eq_two.mp two
      have last : slot = layer.headSize := by
        simp only [key, cons_append, nil_append, cons.injEq] at shape
        exact shape.2.2.2.1.symm.trans headSize
      have room := (rowsFit_iff layer.size_pos even).mp rows
      omega
  · rintro ⟨format, tensor, listed, sharing, first, head, usesFirst, layerFirst, knownFirst, formatFirst⟩
    obtain ⟨sFirst, made, foundFirst, ranFirst, all⟩ := each tensor listed first head
    obtain ⟨layerFirst', sFirst', knownFirst', foundFirst', -, -, -, kindFirst⟩ :=
      planned isWorker fits (mem_layerNames foundFirst)
    rw [foundFirst] at foundFirst'
    cases foundFirst'
    rw [knownFirst] at knownFirst'
    cases knownFirst'
    have tqFirst := (kindFirst _).mpr ⟨usesFirst, formatFirst, rfl⟩
    rw [CacheRunner.rawTensor_tq tqFirst] at ranFirst
    cases ranFirst
    have tq := (kind _).mpr ⟨turboquant, format, rfl⟩
    obtain ⟨s', entry, size⟩ := fits.size tensor listed n sharing
    have found' := specOf_of_mem fits.plans.distinct entry
    rw [found] at found'
    cases found'
    have slotPos : 0 < computePaperSlotSize layer.headSize := by omega
    have headsPos : 0 < s.numKvHeads := by rw [heads]; exact layer.heads_pos
    have reshaped : r.reshapeLayer s config.numBlocks (.single (s.pageSizeBytes * config.numBlocks)) =
        .ok (.single [config.numBlocks, s.blockSize, s.numKvHeads, computePaperSlotSize layer.headSize]) :=
      CacheRunner.reshapeLayer_tq tq slotPos sizes.block headsPos
    refine ⟨s, raw, .single tensor.size, .single [config.numBlocks, s.blockSize, s.numKvHeads,
      computePaperSlotSize layer.headSize],
      computePaperSlotSize layer.headSize, found, allocated, all n sharing, size, ?_, ?_, ?_, ?_, ?_⟩
    · rwa [size]
    · intro views ranViews
      obtain ⟨j, at_j⟩ := mem_iff_getElem?.mp (mem_of_specOf found)
      obtain ⟨entry, ranEntry, there⟩ := mapM_getElem ranViews at_j
      refine mem_of_getElem? (there.trans (congrArg some ?_))
      rw [CacheRunner.reshapeEntry, all n sharing] at ranEntry
      obtain ⟨view, ranView, rfl⟩ := map_ok ranEntry
      rw [size, reshaped] at ranView
      cases ranView
      rfl
    · rw [getTqCache, heads]
    · rw [getTqCache, RawTensor.bytes, size, PlannedSpec.pageSizeBytes_tq tq slotPos]
      simp only [prod_cons, prod_nil]
      ring
    · exact (rowsFit_iff layer.size_pos even).mpr (le_refl _)

def fiveLayers (slidingWindow : Option Nat) : TqModel where
  layers := replicate 5 ⟨8, 128, 128, slidingWindow, false, succ_pos _, succ_pos _, succ_pos _⟩
  blockSize := 128
  autoDtype := .bfloat16
  userSkipLayers := []
  stages := [[0, 1, 2, 3, 4]]
  tensorParallelSize := 1
  block_pos := succ_pos _
  auto_ne := TorchDtype.noConfusion
  consecutive := rfl
  tp_pos := succ_pos _

def plainRunner : CacheRunner := ⟨false, fun _ _ => 0, none⟩

def plainPlan : PlanSettings := ⟨false, none, fun _ _ => true⟩

def tenBlocks (middlePage : Nat) : Nat := 10 * (4 * 524288 + middlePage)

theorem tqView_agrees_fullAttention : ∃ config,
    (fiveLayers none).kvCacheConfigs plainPlan [tenBlocks 135168] = .ok [config] ∧
    config.numBlocks = 10 ∧ TqViewAgrees ℚ plainRunner config 2 ⟨8, 128, 128, none, false,
      succ_pos _, succ_pos _, succ_pos _⟩ := by
  have skipped : (fiveLayers none).skipLayers = .ok [0, 1, 3, 4] := rfl
  refine ⟨_, rfl, rfl, ?_⟩
  exact (tqView_agrees_iff (fiveLayers none) plainRunner plainPlan [tenBlocks 135168] skipped rfl
    (i := 0) rfl (by decide) rfl
    (by decide) rfl).mpr ⟨.inr rfl, ⟨1351680, [2]⟩, by decide, by decide, 2, rfl, by decide, _, rfl, .inr rfl⟩

/-- With a sliding window the layer is planned in the format of plain sliding-window attention: the
attention reads the half for the keys, with 128 bytes for rows of 132. -/
theorem tqView_slidingWindow : ∃ config, (fiveLayers (some 4096)).kvCacheConfigs plainPlan
    [tenBlocks 262144] = .ok [config] ∧
    config.numBlocks = 10 ∧ 2 ∈ config.kvCacheGroups.layerNames ∧
    ((plainRunner.allocateKvCacheTensors config).bind
      (plainRunner.reshapeKvCacheTensors config)).map (·.lookup 2) =
      .ok (some (.keyValue [10, 128, 8, 128] [10, 128, 8, 128])) ∧ ¬ TqViewAgrees ℚ plainRunner config 2
      ⟨8, 128, 128, some 4096, false, succ_pos _, succ_pos _, succ_pos _⟩ := by
  refine ⟨_, rfl, rfl, by decide, rfl, ?_⟩
  rintro ⟨s, raw, tensor, view, slot, found, allocated, memory, -, reshaped, -, shape, -, rows⟩
  have room := (rowsFit_iff (succ_pos _) rfl).mp rows
  cases found
  rcases CacheRunner.reshapeLayer_cases reshaped with ⟨slot', numel, tq, -⟩ | ⟨outer, two, key⟩
  · cases tq
  obtain ⟨x, y, rfl⟩ := length_eq_two.mp two
  rw [key] at shape
  cases shape
  exact absurd room (by decide)

end TqModel

end TurboQuant.Ascend
