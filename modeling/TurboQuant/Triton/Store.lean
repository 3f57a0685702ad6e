import TurboQuant.Lib.Bisect
import TurboQuant.Lib.Bits
import TurboQuant.Triton.Config

/-!
The fused store kernels. One program handles one (token, head) pair: it buckets the rotated key
coordinates, packs the indices, stores the key norm, and packs the levels of the value vector.
Lanes are functions of the lane number; a lane past the head dimension is masked.
-/

namespace TurboQuant.Triton
open Bits List Function

abbrev Memory := Nat → UInt8

def view (mem : Memory) (base : Nat) : Nat → UInt8 := fun a => mem (base + a)

inductive KernelError where
  | reshape (numel : Nat) (shape : List Nat)
  deriving DecidableEq, Repr

def nextPowerOf2 (n : Nat) : Nat := if n ≤ 1 then n else 2 ^ (Nat.log2 (n - 1) + 1)

/-- A masked vector store. The kernels store through distinct addresses. -/
def tlStore (mem : Memory) (lanes : Nat) (addr : Nat → Nat) (val : Nat → UInt8) (mask : Nat → Bool) : Memory :=
  fun a =>
    match (range lanes).find? (fun i => mask i && addr i == a) with
    | some i => val i
    | none => mem a

def storeU16 (mem : Memory) (addr : Nat) (word : BitVec 16) : Memory :=
  let mem := update mem addr (UInt8.ofNat (word.toNat &&& 0xFF))
  update mem (addr + 1) (UInt8.ofNat ((word.toNat >>> 8) &&& 0xFF))

/-- The compile-time constants the launcher passes to the kernels. -/
structure StoreLayout where
  D : Nat
  blockD : Nat
  mseBits : Nat
  mseBytes : Nat
  kps : Nat
  vqb : Nat
  valDataBytes : Nat
  blockGrp : Nat
  deriving DecidableEq, Repr

def storeLayout (D mseBits keyPackedSize valueQuantBits : Nat) : StoreLayout where
  D := D
  blockD := nextPowerOf2 D
  mseBits := mseBits
  mseBytes := ceilBytes (D * mseBits)
  kps := keyPackedSize
  vqb := valueQuantBits
  valDataBytes := ceilBytes (D * valueQuantBits)
  blockGrp := if D ≥ 8 then nextPowerOf2 (D / 8) else 1

section
variable (L : StoreLayout)

def storePairs4 (lane : Nat → Nat) (dest bytes : Nat) (mem : Memory) : Except KernelError Memory :=
  if L.blockD / 2 * 2 = L.blockD then
    .ok (tlStore mem (L.blockD / 2) (fun j => dest + j)
      (fun j => UInt8.ofNat (packDigits 4 (fun t => lane (2 * j + t) &&& 0xF) 2)) (fun j => j < bytes))
  else .error (.reshape L.blockD [L.blockD / 2, 2])

/-- `tl.reshape(x, [BLOCK_GRP, 8])`, then eight 3-bit fields per three bytes, whole groups only. -/
def storeGroups3 (lane : Nat → Nat) (dest : Nat) (mem : Memory) : Except KernelError Memory :=
  if L.blockGrp * 8 = L.blockD then
    let packed24 := fun g => packDigits 3 (fun t => lane (8 * g + t)) 8
    let grpMask := fun g => decide (g < L.D / 8)
    let mem := tlStore mem L.blockGrp (fun g => dest + g * 3)
      (fun g => UInt8.ofNat (packed24 g &&& 0xFF)) grpMask
    let mem := tlStore mem L.blockGrp (fun g => dest + g * 3 + 1)
      (fun g => UInt8.ofNat ((packed24 g >>> 8) &&& 0xFF)) grpMask
    .ok (tlStore mem L.blockGrp (fun g => dest + g * 3 + 2)
      (fun g => UInt8.ofNat ((packed24 g >>> 16) &&& 0xFF)) grpMask)
  else .error (.reshape L.blockD [L.blockGrp, 8])

/-- Stage 2 of `_tq_fused_store_mse`: pack the key indices at the start of the slot. -/
def storeMseIndices (idx : Nat → Nat) (slotBase : Nat) (mem : Memory) : Except KernelError Memory :=
  if L.mseBits = 4 then storePairs4 L idx slotBase L.mseBytes mem
  else if L.mseBits = 3 then storeGroups3 L (fun d => idx d &&& 0x7) slotBase mem
  else .ok mem

def storeValueData (q : Nat → Nat) (slotBase : Nat) (mem : Memory) : Except KernelError Memory :=
  if L.vqb = 3 then storeGroups3 L q (slotBase + L.kps) mem
  else storePairs4 L q (slotBase + L.kps) L.valDataBytes mem

/-- The packing half of `_store_quantized_value`: the data, then scale and minimum. -/
def storeValueIndices (q : Nat → Nat) (scale zero : BitVec 16) (slotBase : Nat) (mem : Memory) :
    Except KernelError Memory := do
  let mem ← storeValueData L q slotBase mem
  let scOffset := slotBase + L.kps + L.valDataBytes
  return storeU16 (storeU16 mem scOffset scale) (scOffset + 2) zero

/-- Everything `_tq_fused_store_mse` writes for one (token, head), from the key indices on. -/
def storeSlot (idx : Nat → Nat) (vecNorm : BitVec 16) (q : Nat → Nat) (scale zero : BitVec 16)
    (slotBase : Nat) (mem : Memory) : Except KernelError Memory := do
  let mem ← storeMseIndices L idx slotBase mem
  storeValueIndices L q scale zero slotBase (storeU16 mem (slotBase + L.mseBytes) vecNorm)

end

section
variable {α : Type*} [LinearOrder α] [Zero α] (mseBits nCentroids : Nat) (midpoints : List α)

/-- One lane of the binary search: `MSE_BITS` rounds over the midpoints, then the final clamp. A
masked lane loads `0.0` for every midpoint. -/
def searchIndex (active : Bool) (y : α) : Nat :=
  let midVal := fun mid => if active then midpoints.getD (min mid (nCentroids - 2)) 0 else 0
  let bounds := Bisect.search (fun mid => decide (y ≥ midVal mid)) mseBits (0, nCentroids - 1)
  min bounds.1 (nCentroids - 1)

def searchLoads (y : α) : List Nat :=
  let midVal := fun mid => midpoints.getD (min mid (nCentroids - 2)) 0
  (Bisect.probes (fun mid => decide (y ≥ midVal mid)) mseBits (0, nCentroids - 1)).map (min · (nCentroids - 2))

end

section

variable {mem : Memory} {val : Nat → UInt8} {mask : Nat → Bool} {addr : Nat → Nat}

theorem tlStore_hit {lanes i : Nat}
    (inside : i < lanes) (active : mask i = true) (distinct : ∀ j < lanes, addr j = addr i → j = i) :
    tlStore mem lanes addr val mask (addr i) = val i := by
  unfold tlStore
  cases found : (range lanes).find? (fun j => mask j && addr j == addr i) with
  | none =>
    have missing := find?_eq_none.mp found i (mem_range.mpr inside)
    simp [active] at missing
  | some j =>
    have matched := find?_some found
    have member := mem_of_find?_eq_some found
    simp only [Bool.and_eq_true, beq_iff_eq] at matched
    rw [distinct j (mem_range.mp member) matched.2]

theorem tlStore_miss {lanes a : Nat}
    (apart : ∀ i < lanes, mask i = true → addr i ≠ a) : tlStore mem lanes addr val mask a = mem a := by
  unfold tlStore
  have missing : (range lanes).find? (fun i => mask i && addr i == a) = none := by
    apply find?_eq_none.mpr
    intro i member matched
    simp only [Bool.and_eq_true, beq_iff_eq] at matched
    exact apart i (mem_range.mp member) matched.1 matched.2
  rw [missing]

theorem storeU16_other {addr a : Nat} {word : BitVec 16} (low : a ≠ addr) (high : a ≠ addr + 1) :
    storeU16 mem addr word a = mem a := by
  simp [storeU16, update_of_ne low, update_of_ne high]

end

end TurboQuant.Triton
