import TurboQuant.Lib.Segments

/-!
Addresses of a transfer to or from the KV pool.
-/

namespace TurboQuant.Ascend
open Segments List Nat Option

structure CacheTensor where
  dataPtr : Nat
  blockLen : Nat
  blockStride : Nat

/-- The caches that are registered, layer by layer. All layers have as many tensors as the first
one. -/
structure RegisteredCaches where
  layers : List (List CacheTensor)
  uniform : ∀ layer ∈ layers, layer.length = (layers.headD []).length

abbrev Region := Nat × Nat

namespace RegisteredCaches

def kvCachesBaseAddr (c : RegisteredCaches) : List Nat := c.layers.flatMap fun layer => layer.map (·.dataPtr)

def blockLen (c : RegisteredCaches) : List Nat := (c.layers.headD []).map (·.blockLen)

def blockStride (c : RegisteredCaches) : List Nat := (c.layers.headD []).map (·.blockStride)

def length (c : RegisteredCaches) : Nat := c.blockLen.length

section
-- `scaled` is `int(block_len / group_block_size * tokens)`, in floating point
variable (scaled : Nat → Nat → Nat → Nat) (c : RegisteredCaches) (groupBlockSize start stop : Nat)
  (blockIds : List Nat)

def region (blockId base i : Nat) : Region :=
  (base + blockId * c.blockStride.getD i 0, scaled (c.blockLen.getD i 0) groupBlockSize (stop - start))

def prepareValue : Option (List Region) :=
  (blockIds[start / groupBlockSize]?).map fun blockId =>
    if c.length = 0 then []
    else c.kvCachesBaseAddr.mapIdx fun index base =>
      c.region scaled groupBlockSize start stop blockId base (index % c.length)

/-- All regions of the layer start from the base address of its first tensor. -/
def prepareValueLayer (layerId : Nat) : Option (List Region) :=
  (blockIds[start / groupBlockSize]?).bind fun blockId =>
    if c.length = 0 then some []
    else
      (c.kvCachesBaseAddr[layerId * c.length]?).map fun base =>
        (range c.length).map fun i => c.region scaled groupBlockSize start stop blockId base i

/-- One entry for each tensor of the layer, of the regions of whole blocks. -/
def layerSlice (layerId : Nat) (regions : List Region) : List Region :=
  slice regions (layerId * c.length) (layerId * c.length + c.length)

end

def SharedBase (layer : List CacheTensor) : Prop := ∀ tensor ∈ layer, ∀ tensor' ∈ layer,
    tensor.dataPtr = tensor'.dataPtr

section
variable (c : RegisteredCaches) (l : Fin c.layers.length)

theorem length_eq : (c.layers.get l).length = c.length := by
  rw [c.uniform _ (get_mem _ _), length, blockLen, length_map]

theorem kvCachesBaseAddr_getElem? {i : Nat} (lt : i < c.length) :
    c.kvCachesBaseAddr[l * c.length + i]? = ((c.layers.get l)[i]?).map (·.dataPtr) := by
  have sizes : ∀ layer ∈ c.layers, (layer.map (·.dataPtr)).length = c.length := by
    intro layer mem
    rw [length_map, c.uniform layer mem, length, blockLen, length_map]
  rw [kvCachesBaseAddr, getElem?_flatMap_uniform sizes lt, getElem?_eq_getElem l.isLt, bind_some, getElem?_map]
  rfl

end

section
variable (scaled : Nat → Nat → Nat → Nat) (c : RegisteredCaches)
  (groupBlockSize size start stop : Nat) (blockIds : List Nat)

section
variable (l : Fin c.layers.length)

theorem layerSlice_getElem? (blockId : Nat) {i : Nat} (lt : i < c.length) :
    (c.layerSlice l (c.kvCachesBaseAddr.mapIdx fun index base =>
      c.region scaled size start stop blockId base (index % c.length)))[i]? =
      ((c.layers.get l)[i]?).map fun tensor => c.region scaled size start stop blockId tensor.dataPtr i := by
  have same : (l * c.length + i) % c.length = i := by rw [mul_add_mod', mod_eq_of_lt lt]
  rw [layerSlice, slice, getElem?_drop, getElem?_take_of_lt (by omega), getElem?_mapIdx,
    kvCachesBaseAddr_getElem? c l lt, Option.map_map, same]
  rfl

theorem layerSlice_eq (blockId : Nat) : (c.layerSlice l (c.kvCachesBaseAddr.mapIdx fun index base =>
      c.region scaled size start stop blockId base (index % c.length))) =
      (c.layers.get l).mapIdx fun i tensor => c.region scaled size start stop blockId tensor.dataPtr i := by
  apply ext_getElem?
  intro i
  rw [getElem?_mapIdx]
  by_cases lt : i < c.length
  · rw [layerSlice_getElem? scaled c size start stop l blockId lt]
  · have short : (c.layerSlice l (c.kvCachesBaseAddr.mapIdx fun index base =>
        c.region scaled size start stop blockId base (index % c.length))).length ≤ c.length := by
      rw [layerSlice, slice, length_drop, length_take]
      omega
    rw [getElem?_eq_none (by omega), getElem?_eq_none (by rw [c.length_eq l]; omega)]
    rfl

theorem prepareValueLayer_eq_slice_iff : c.prepareValueLayer scaled groupBlockSize start stop blockIds l =
        (c.prepareValue scaled groupBlockSize start stop blockIds).map (c.layerSlice l) ↔
      ((blockIds[start / groupBlockSize]?).isSome → SharedBase (c.layers.get l)) := by
  unfold prepareValueLayer prepareValue
  cases blockIds[start / groupBlockSize]? with
  | none => simp
  | some blockId =>
    simp only [bind_some, map_some, isSome_some, forall_const]
    have size := c.length_eq l
    by_cases empty : c.length = 0
    · have none : c.layers.get l = [] := length_eq_zero_iff.mp (size.trans empty)
      rw [if_pos empty, if_pos empty, none]
      have nothing : c.layerSlice l [] = [] := by rw [layerSlice, slice, take_nil, drop_nil]
      rw [nothing]
      exact iff_of_true rfl fun _ mem => by cases mem
    · rw [if_neg empty, if_neg empty, layerSlice_eq]
      obtain ⟨first, rest, layer⟩ := exists_cons_of_length_pos
        (by rw [size]; omega : 0 < (c.layers.get l).length)
      have base : c.kvCachesBaseAddr[l * c.length]? = some first.dataPtr := by
        have found := kvCachesBaseAddr_getElem? c l (pos_of_ne_zero empty)
        rw [add_zero, layer] at found
        exact found
      rw [base, map_some, some.injEq]
      constructor
      · intro same
        have each : ∀ tensor ∈ c.layers.get l, first.dataPtr = tensor.dataPtr := by
          intro tensor mem
          obtain ⟨i, lt, here⟩ := getElem_of_mem mem
          have at_ := congrArg (·[i]?) same
          rw [getElem?_mapIdx, getElem?_eq_getElem lt, here, getElem?_map,
            getElem?_range (by omega), map_some, map_some, some.injEq] at at_
          exact add_right_cancel (congrArg Prod.fst at_)
        intro tensor mem tensor' member'
        rw [← each tensor mem, ← each tensor' member']
      · intro shared
        apply ext_getElem?
        intro i
        rw [getElem?_mapIdx, getElem?_map]
        by_cases lt : i < c.length
        · have valid : i < (c.layers.get l).length := by omega
          have address : (c.layers.get l)[i].dataPtr = first.dataPtr :=
            shared _ (getElem_mem valid) first (by rw [layer]; exact mem_cons_self)
          rw [getElem?_range lt, getElem?_eq_getElem valid, map_some, map_some, address]
        · rw [getElem?_eq_none (by rw [length_range]; omega), getElem?_eq_none (by omega)]
          rfl

end

end

/-! ### Putting and getting -/

abbrev Memory := Nat → UInt8

section
variable (memory : Memory)

def readRegion (region : Region) : List UInt8 := (range region.2).map fun i => memory (region.1 + i)

def writeRegion (region : Region) (bytes : List UInt8) : Memory := fun address =>
  if region.1 ≤ address ∧ address < region.1 + region.2 then bytes.getD (address - region.1) 0
  else memory address

/-- The store keeps the bytes of the regions of a key, and a `get` writes them to the regions that
it is given. -/
def getRegions (regions : List Region) (values : List (List UInt8)) : Memory :=
  (regions.zip values).foldl (fun memory entry => writeRegion memory entry.1 entry.2) memory

theorem readRegion_writeRegion {region : Region} {bytes : List UInt8} (size : bytes.length = region.2) :
    readRegion (writeRegion memory region bytes) region = bytes := by
  apply ext_getElem
  · rw [readRegion, length_map, length_range, size]
  · intro i lt valid
    rw [readRegion, length_map, length_range] at lt
    simp only [readRegion, getElem_map, getElem_range, writeRegion]
    rw [if_pos ⟨Nat.le_add_right _ _, Nat.add_lt_add_left lt _⟩, Nat.add_sub_cancel_left,
      getD_eq_getElem?_getD, getElem?_eq_getElem valid, getD_some]

end

section
variable (scaled : Nat → Nat → Nat → Nat) (c : RegisteredCaches)
  (groupBlockSize size start stop : Nat) (blockIds blockIds' : List Nat)

/-- A layer that is put from some blocks and got into others is afterwards there in all its
tensors. -/
def Restores (layerId : Nat) : Prop :=
  ∀ source target : Memory, ∀ puts gets origins places : List Region,
    c.prepareValueLayer scaled groupBlockSize start stop blockIds layerId = some puts →
    c.prepareValueLayer scaled groupBlockSize start stop blockIds' layerId = some gets →
    (c.prepareValue scaled groupBlockSize start stop blockIds).map (c.layerSlice layerId) = some origins →
    (c.prepareValue scaled groupBlockSize start stop blockIds').map (c.layerSlice layerId) = some places →
    places.map (readRegion (getRegions target gets (puts.map (readRegion source)))) = origins.map
      (readRegion source)

theorem restores_single (layerId : Fin c.layers.length) (single : (c.layers.get layerId).length ≤ 1) :
    c.Restores scaled size start stop blockIds blockIds' layerId := by
  intro source target puts gets origins places put got origin place
  have shared : SharedBase (c.layers.get layerId) := by
    intro tensor mem tensor' member'
    cases l : c.layers.get layerId with
    | nil =>
      rw [l] at mem
      cases mem
    | cons first rest =>
      rw [l, length_cons] at single
      rw [l, length_eq_zero_iff.mp (by omega : rest.length = 0), mem_singleton] at mem member'
      rw [mem, member']
  rw [(prepareValueLayer_eq_slice_iff scaled c size start stop blockIds layerId).mpr fun _ => shared] at put
  rw [(prepareValueLayer_eq_slice_iff scaled c size start stop blockIds' layerId).mpr fun _ => shared] at got
  cases some.inj (put.symm.trans origin)
  cases some.inj (got.symm.trans place)
  -- the one region, or none, of both block lists
  have regions : ∀ {blockIds : List Nat} {regions : List Region},
      (c.prepareValue scaled size start stop blockIds).map (c.layerSlice layerId) = some regions →
      ∃ blockId, regions = (c.layers.get layerId).mapIdx fun i tensor =>
        c.region scaled size start stop blockId tensor.dataPtr i := by
    intro blockIds regions prepared
    obtain ⟨whole, made, rfl⟩ := map_eq_some_iff.mp prepared
    obtain ⟨blockId, _, rfl⟩ := map_eq_some_iff.mp made
    refine ⟨blockId, ?_⟩
    split
    · rename_i empty
      rw [length_eq_zero_iff.mp ((c.length_eq layerId).trans empty), layerSlice, slice, take_nil, drop_nil]
      rfl
    · exact layerSlice_eq scaled c size start stop layerId blockId
  obtain ⟨blockId, rfl⟩ := regions origin
  obtain ⟨blockId', rfl⟩ := regions place
  cases l : c.layers.get layerId with
  | nil => rfl
  | cons first rest =>
    rw [l, length_cons] at single
    rw [length_eq_zero_iff.mp (by omega : rest.length = 0)]
    show [readRegion (writeRegion target _ (readRegion source _)) _] = [readRegion source _]
    rw [readRegion_writeRegion]
    rw [readRegion, length_map, length_range]
    rfl

/-- The regions of a layer are those of its tensors exactly if the tensors start at one address.
Layers of one tensor are restored. -/
theorem layerwise_transfer_iff (layerId : Fin c.layers.length) :
    (c.prepareValueLayer scaled groupBlockSize start stop blockIds layerId =
        (c.prepareValue scaled groupBlockSize start stop blockIds).map (c.layerSlice layerId) ↔
      ((blockIds[start / groupBlockSize]?).isSome → SharedBase (c.layers.get layerId))) ∧
    ((c.layers.get layerId).length ≤ 1 → c.Restores scaled groupBlockSize start stop blockIds
      blockIds' layerId) :=
  ⟨prepareValueLayer_eq_slice_iff scaled c groupBlockSize start stop blockIds layerId,
    restores_single scaled c groupBlockSize start stop blockIds blockIds' layerId⟩

end

def twoTensors : RegisteredCaches where
  layers := [[⟨1000, 8, 8⟩, ⟨2000, 8, 8⟩]]
  uniform := by
    intro layer member
    cases mem_singleton.mp member
    rfl

def wholeBlocks (blockLen groupBlockSize tokens : Nat) : Nat := blockLen * tokens / groupBlockSize

/-- The second tensor is put and got at the address of the first one, and is not restored. -/
theorem second_tensor_not_restored : twoTensors.prepareValueLayer wholeBlocks 4 0 4 [1] 0 =
    some [(1008, 8), (1008, 8)] ∧
      (twoTensors.prepareValue wholeBlocks 4 0 4 [1]).map (twoTensors.layerSlice 0) =
        some [(1008, 8), (2008, 8)] ∧
      ¬ twoTensors.Restores wholeBlocks 4 0 4 [1] [2] 0 := by
  refine ⟨by rfl, by rfl, fun restores => ?_⟩
  have result := restores (fun _ => 1) (fun _ => 0) [(1008, 8), (1008, 8)] [(1016, 8),
    (1016, 8)] [(1008, 8), (2008, 8)] [(1016, 8), (2016, 8)] (by rfl) (by rfl) (by rfl) (by rfl)
  exact absurd result (by decide)

end RegisteredCaches

end TurboQuant.Ascend
