import TurboQuant.Attention.Prefill
import TurboQuant.Lib.Scatter

/-!
The two continuation routes of the TurboQuant attention backend, with the dequantisation buffers
that a layer keeps between calls. A slot of the cache is of any type `σ`; dequantised and raw keys
and values are of types `κ` and `ν`. Memory that is allocated and not written holds arbitrary
values.
-/

namespace TurboQuant.Attention
open Triton Scatter List Nat

variable {σ κ ν : Type*}

structure SlotCache (σ : Type*) where
  blockSize : Nat
  positive : 0 < blockSize
  /-- By block, offset in the block and head. -/
  slot : Nat → Nat → Nat → σ

namespace SlotCache

variable (cache c : SlotCache σ) (blockTable : Nat → Nat)

def load (pos head : Nat) : σ := cache.slot (blockTable (pos / cache.blockSize)) (pos % cache.blockSize) head

def slotMapping (pos : Nat) : Nat :=
  blockTable (pos / cache.blockSize) * cache.blockSize + pos % cache.blockSize

def storedAt (slot head : Nat) : σ := cache.slot (slot / cache.blockSize) (slot % cache.blockSize) head

theorem load_eq_storedAt (pos head : Nat) :
    c.load blockTable pos head = c.storedAt (c.slotMapping blockTable pos) head := by
  have offset := mod_lt pos c.positive
  rw [load, storedAt, slotMapping, mul_comm, mul_add_div c.positive, div_eq_of_lt offset, add_zero,
    mul_add_mod, mod_eq_of_lt offset]

end SlotCache

/-- What `_tq_full_dequant_kv` computes from a slot, and the rotation back of a row of keys. -/
structure FullDequantKernel (σ κ ν : Type*) where
  key : σ → κ
  value : σ → ν
  zeroKey : κ
  zeroValue : ν
  unrotate : κ → κ

/-- The buffers of a layer, by head and position. Both are allocated at once. -/
structure DequantBuffers (κ ν : Type*) where
  kSize : Nat
  vSize : Nat
  same : kSize = vSize
  k : Nat × Nat → κ
  v : Nat × Nat → ν

abbrev Token (κ ν : Type*) := List (κ × ν)

structure Continuation (σ κ ν : Type*) where
  cache : SlotCache σ
  blockTable : Nat → Nat
  cachedLen : Nat
  chunk : List (Token κ ν)
  /-- What `torch.empty` returns. -/
  emptyK : Nat × Nat → κ
  emptyV : Nat × Nat → ν
  /-- The order in which the programs of the grid run. -/
  programs : List (Nat × Nat)

namespace Continuation

variable (c : Continuation σ κ ν)

def qLen : Nat := c.chunk.length

def allocLen : Nat := cdiv c.cachedLen c.cache.blockSize * c.cache.blockSize

def Launched (numHeads : Nat) : Prop := c.programs.Perm ((range c.allocLen).product (range numHeads))

def buffers : Option (DequantBuffers κ ν) → DequantBuffers κ ν
  | none => ⟨c.allocLen, c.allocLen, rfl, c.emptyK, c.emptyV⟩
  | some kept => if kept.kSize < c.allocLen then ⟨c.allocLen, c.allocLen, rfl, c.emptyK, c.emptyV⟩ else kept

variable (numHeads : Nat) (kernel : FullDequantKernel σ κ ν)

def rowOf (program : Nat × Nat) : Nat × Nat := (program.2 % numHeads, program.1)

/-- The buffers are zeroed up to `alloc_len`, then each program writes one row of either. -/
def dequantise (buffers : DequantBuffers κ ν) : DequantBuffers κ ν where
  kSize := buffers.kSize
  vSize := buffers.vSize
  same := buffers.same
  k := scatter (rowOf numHeads)
    (fun program => kernel.key (c.cache.load c.blockTable program.1 (program.2 % numHeads))) c.programs
    fun row => if row.2 < c.allocLen then kernel.zeroKey else buffers.k row
  v := scatter (rowOf numHeads)
    (fun program => kernel.value (c.cache.load c.blockTable program.1 (program.2 % numHeads))) c.programs
    fun row => if row.2 < c.allocLen then kernel.zeroValue else buffers.v row

/-- `_continuation_prefill`: the tokens each query attends, and the buffers the layer keeps. -/
def prefill (hasFlashAttn : Bool) (kept : Option (DequantBuffers κ ν)) :
    List (List (Token κ ν)) × DequantBuffers κ ν :=
  let written := c.dequantise numHeads kernel (c.buffers kept)
  let trimmed := (range c.cachedLen).map fun pos =>
    (range numHeads).map fun head => (kernel.unrotate (written.k (head, pos)), written.v (head, pos))
  let full := trimmed ++ c.chunk
  (if hasFlashAttn then causalRows c.qLen full
    else sdpaMasked c.qLen full fun qPos kPos => decide (kPos ≤ qPos + c.cachedLen), written)

/-- Each query as a decode request with its own sequence length over the same block table. -/
def decode : List (List (List σ)) :=
  (range' (c.cachedLen + 1) c.qLen).map fun synthSeqLen =>
    (decodePositions synthSeqLen 32 4).map fun pos => (range numHeads).map (c.cache.load c.blockTable pos)

end Continuation

inductive Attended (σ κ ν : Type*) where
  | slots (rows : List (List (List σ)))
  | tokens (rows : List (List (Token κ ν)))

/-- The continuation branch of `_prefill_attention`. -/
def continueChunk (hasFlashAttn : Bool) (numHeads : Nat) (kernel : FullDequantKernel σ κ ν)
    (kept : Option (DequantBuffers κ ν)) (c : Continuation σ κ ν) :
    Attended σ κ ν × Option (DequantBuffers κ ν) :=
  if c.qLen ≤ continuationDecodeThreshold then (.slots (c.decode numHeads), kept)
  else
    let (rows, written) := c.prefill numHeads kernel hasFlashAttn kept
    (.tokens rows, some written)

def continueChunks (hasFlashAttn : Bool) (numHeads : Nat) (kernel : FullDequantKernel σ κ ν) :
    Option (DequantBuffers κ ν) → List (Continuation σ κ ν) → List (Attended σ κ ν)
  | _, [] => []
  | kept, c :: rest =>
    let (attended, kept) := continueChunk hasFlashAttn numHeads kernel kept c
    attended :: continueChunks hasFlashAttn numHeads kernel kept rest

/-! ### What a chunk should attend -/

namespace Continuation

variable (c : Continuation σ κ ν) (numHeads : Nat) (kernel : FullDequantKernel σ κ ν)

def storedSlots (pos : Nat) : List σ :=
  (range numHeads).map (c.cache.storedAt (c.cache.slotMapping c.blockTable pos))

def ownToken (pos : Nat) : Token κ ν :=
  if pos < c.cachedLen then
    (c.storedSlots numHeads pos).map fun slot => (kernel.unrotate (kernel.key slot), kernel.value slot)
  else c.chunk.getD (pos - c.cachedLen) []

/-- Query `p` attends the positions up to its own, each from where it was stored or from the
chunk. -/
def ownPositions : Attended σ κ ν :=
  if c.qLen ≤ continuationDecodeThreshold then
    .slots ((range c.qLen).map fun p => (range (c.cachedLen + p + 1)).map (c.storedSlots numHeads))
  else .tokens ((range c.qLen).map fun p => (range (c.cachedLen + p + 1)).map (c.ownToken numHeads kernel))

/-! ### Both routes -/

theorem map_load (pos : Nat) :
    (range numHeads).map (c.cache.load c.blockTable pos) = c.storedSlots numHeads pos :=
  map_congr_left fun head _ => c.cache.load_eq_storedAt c.blockTable pos head

theorem decode_eq : c.decode numHeads =
      (range c.qLen).map fun p => (range (c.cachedLen + p + 1)).map (c.storedSlots numHeads) := by
  rw [decode, range'_eq_map_range, map_map]
  apply map_congr_left
  intro p _
  simp only [Function.comp_apply, map_load]
  rw [decodePositions_eq _ (by decide) (by decide)]
  congr 2
  omega

section
variable {c numHeads} (launched : c.Launched numHeads)
include launched

variable {pos head : Nat}

theorem programs_apart (bound : head < numHeads) :
    ∀ program ∈ c.programs, rowOf numHeads program = rowOf numHeads (pos, head) → program = (pos, head) := by
  rintro ⟨pos', head'⟩ mem same
  have inside := mem_range.mp (pair_mem_product.mp (launched.mem_iff.mp mem)).2
  obtain ⟨heads, positions⟩ := Prod.mk.inj same
  simp only [mod_eq_of_lt inside, mod_eq_of_lt bound] at heads positions
  rw [heads, positions]

theorem dequantise_rows (kernel : FullDequantKernel σ κ ν) (buffers : DequantBuffers κ ν)
    (position : pos < c.allocLen) (bound : head < numHeads) :
    (c.dequantise numHeads kernel buffers).k (head, pos) = kernel.key (c.cache.load c.blockTable pos head) ∧
      (c.dequantise numHeads kernel buffers).v (head, pos) =
        kernel.value (c.cache.load c.blockTable pos head) := by
  have member : (pos, head) ∈ c.programs :=
    launched.mem_iff.mpr (pair_mem_product.mpr ⟨mem_range.mpr position, mem_range.mpr bound⟩)
  have row : rowOf numHeads (pos, head) = (head, pos) := by rw [rowOf, mod_eq_of_lt bound]
  rw [← row]
  constructor
  · refine (scatter_hit _ member (programs_apart launched bound) _).trans ?_
    simp only [mod_eq_of_lt bound]
  · refine (scatter_hit _ member (programs_apart launched bound) _).trans ?_
    simp only [mod_eq_of_lt bound]

end

theorem full_eq : (range c.cachedLen).map (c.ownToken numHeads kernel) ++ c.chunk =
      (range (c.cachedLen + c.qLen)).map (c.ownToken numHeads kernel) := by
  rw [range_add, map_append, map_map]
  congr 1
  refine ext_getElem (by simp [qLen]) fun i first second => ?_
  rw [getElem_map, getElem_range, Function.comp_apply, ownToken, if_neg (by omega), Nat.add_sub_cancel_left,
    getD_eq_getElem _ _ first]

theorem prefill_eq {c : Continuation σ κ ν} {numHeads : Nat} (launched : c.Launched numHeads) (flash : Bool)
    (kept : Option (DequantBuffers κ ν)) : (c.prefill numHeads kernel flash kept).1 =
      (range c.qLen).map fun p => (range (c.cachedLen + p + 1)).map (c.ownToken numHeads kernel) := by
  have trimmed : ((range c.cachedLen).map fun pos => (range numHeads).map fun head =>
      (kernel.unrotate ((c.dequantise numHeads kernel (c.buffers kept)).k (head, pos)),
        (c.dequantise numHeads kernel (c.buffers kept)).v (head, pos))) =
      (range c.cachedLen).map (c.ownToken numHeads kernel) := by
    refine map_congr_left fun pos mem => ?_
    have position := mem_range.mp mem
    rw [ownToken, if_pos position, ← map_load, map_map]
    refine map_congr_left fun head among => ?_
    obtain ⟨kRow, vRow⟩ := dequantise_rows launched kernel (c.buffers kept)
      (lt_of_lt_of_le position (le_cdiv_mul c.cachedLen c.cache.positive)) (mem_range.mp among)
    rw [kRow, vRow]
    rfl
  have length : ((range (c.cachedLen + c.qLen)).map (c.ownToken numHeads kernel)).length =
      c.cachedLen + c.qLen := by
    rw [length_map, length_range]
  have prefixes : ∀ p ∈ range c.qLen,
      ((range (c.cachedLen + c.qLen)).map (c.ownToken numHeads kernel)).take (c.cachedLen + p + 1) =
        (range (c.cachedLen + p + 1)).map (c.ownToken numHeads kernel) := by
    intro p mem
    have inside := mem_range.mp mem
    rw [← map_take, take_range, min_eq_left (by omega)]
  simp only [prefill, trimmed, full_eq]
  split
  · rw [causalRows_eq length]
    exact map_congr_left prefixes
  · rw [sdpaMasked_eq length]
    exact map_congr_left prefixes

end Continuation

/-- Whatever the layer keeps from earlier chunks, every chunk of a history attends its own
positions. -/
theorem continueChunks_eq (hasFlashAttn : Bool) (numHeads : Nat) (kernel : FullDequantKernel σ κ ν)
    (kept : Option (DequantBuffers κ ν)) (chunks : List (Continuation σ κ ν))
    (launched : ∀ c ∈ chunks, c.Launched numHeads) :
    continueChunks hasFlashAttn numHeads kernel kept chunks = chunks.map (·.ownPositions numHeads kernel) := by
  induction chunks generalizing kept with
  | nil => rfl
  | cons c rest ih =>
    have own : (continueChunk hasFlashAttn numHeads kernel kept c).1 = c.ownPositions numHeads kernel := by
      unfold continueChunk Continuation.ownPositions
      split
      · rw [c.decode_eq numHeads]
      · rw [← Continuation.prefill_eq kernel (launched c mem_cons_self) hasFlashAttn kept]
    rw [continueChunks, map_cons, ← own]
    simp only
    rw [ih _ fun c later => launched c (mem_cons_of_mem _ later)]

def addressKernel : FullDequantKernel Nat Nat Nat := ⟨id, id, 0, 0, id⟩

def threeCached (qLen : Nat) : Continuation Nat Nat Nat where
  cache := ⟨2, Nat.two_pos, fun block offset _ => 10 * block + offset⟩
  blockTable := fun page => 7 - page
  cachedLen := 3
  chunk := replicate qLen [(1, 1)]
  emptyK := fun _ => 99
  emptyV := fun _ => 99
  programs := [(2, 0), (0, 0), (3, 0), (1, 0)]

theorem threeCached_launched (qLen : Nat) : (threeCached qLen).Launched 1 := by
  simp only [Continuation.Launched, Continuation.allocLen, threeCached]
  decide

theorem continueChunks_threeCached : continueChunks false 1 addressKernel none [threeCached 129,
      threeCached 2] = [threeCached 129, threeCached 2].map (·.ownPositions 1 addressKernel) :=
  continueChunks_eq false 1 addressKernel none [threeCached 129, threeCached 2]
    (by simp only [forall_mem_cons, threeCached_launched, not_mem_nil, false_implies, implies_true, and_self])

end TurboQuant.Attention
