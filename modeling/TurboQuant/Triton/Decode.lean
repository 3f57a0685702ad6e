import TurboQuant.Lib.Segments
import TurboQuant.Triton.Store

/-!
The reading side: how the split-KV decode kernel and the full-dequant kernel extract the packed
fields of a slot, and which positions of a sequence the decode kernel visits.
-/

namespace TurboQuant.Triton
open Bits List Nat

/-! ### Field extraction -/

def fieldByte (bits d : Nat) : Nat := d * bits / 8

/-- `(raw0 | raw1 << 8) >> shift & mask` over the two bytes from `fieldByte` on. -/
def loadWindow (mem : Memory) (base bits d : Nat) : Nat :=
  window bits (d * bits % 8) (mem (base + fieldByte bits d)) (mem (base + fieldByte bits d + 1))

def loadNibble (mem : Memory) (base d : Nat) : Nat := ((mem (base + d / 2)).toNat >>> (d % 2 * 4)) &&& 0xF

namespace Stage1

section
variable (L : StoreLayout) (mem : Memory) (slotBase d : Nat)

def mseIdx : Nat := loadWindow mem slotBase L.mseBits d

def vIdx : Nat :=
  if L.vqb = 3 then loadWindow mem (slotBase + L.kps) 3 d
  else loadNibble mem (slotBase + L.kps) d

end

end Stage1

namespace FullDequant

section
variable (L : StoreLayout) (mem : Memory) (slotBase d : Nat)

def mseIdx : Nat := loadWindow mem slotBase L.mseBits d

def vIdx : Nat :=
  if L.vqb = 4 then loadNibble mem (slotBase + L.kps) d
  else if L.vqb = 3 then loadWindow mem (slotBase + L.kps) 3 d
  else 0

end

end FullDequant

def keyReads (L : StoreLayout) (d : Nat) : List Nat := [fieldByte L.mseBits d, fieldByte L.mseBits d + 1]

def valueReads (L : StoreLayout) (d : Nat) : List Nat :=
  if L.vqb = 3 then [L.kps + fieldByte 3 d, L.kps + fieldByte 3 d + 1] else [L.kps + d / 2]

theorem loadNibble_eq_window (mem : Memory) (base d : Nat) :
    loadNibble mem base d = loadWindow mem base 4 d := by
  have byte : fieldByte 4 d = d / 2 := by unfold fieldByte; omega
  have shift : d * 4 % 8 = d % 2 * 4 := by omega
  rw [loadNibble, loadWindow, byte, shift]
  apply eq_of_testBit_eq
  intro k
  have nibble : ((1 <<< 4) - 1 : Nat) = 2 ^ 4 - 1 := rfl
  rw [window, nibble, show (0xF : Nat) = 2 ^ 4 - 1 from rfl]
  simp only [testBit_and, testBit_shiftRight, testBit_or, testBit_shiftLeft, testBit_two_pow_sub_one]
  by_cases lt : k < 4
  · have low : ¬ d % 2 * 4 + k ≥ 8 := by omega
    simp [low]
  · simp [lt]

theorem loadWindow_congr {mem mem' : Memory} {base bits d : Nat} (narrow : bits ≤ 8)
    (agree : ∀ k < bits, bitAt (view mem base) (d * bits + k) = bitAt (view mem' base) (d * bits + k)) :
    loadWindow mem base bits d = loadWindow mem' base bits d := by
  have split : 8 * (d * bits / 8) + d * bits % 8 = d * bits := div_add_mod _ _
  apply window_congr (view mem base) (view mem' base)
  · omega
  · intro k lt
    rw [fieldByte, split]
    exact agree k lt

theorem loadWindow_eq_of_bits {mem : Memory} {base bits d v : Nat} (narrow : bits ≤ 8) (small : v < 2 ^ bits)
    (stored : ∀ k < bits, bitAt (view mem base) (d * bits + k) = v.testBit k) :
    loadWindow mem base bits d = v := by
  have split : 8 * (d * bits / 8) + d * bits % 8 = d * bits := div_add_mod _ _
  apply window_eq_of_bits (view mem base)
  · omega
  · exact small
  · intro k lt
    rw [fieldByte, split]
    exact stored k lt

theorem testBit_loadWindow (mem : Memory) (base bits d k : Nat) (narrow : bits ≤ 8) :
    (loadWindow mem base bits d).testBit k = (decide (k < bits) && bitAt (view mem base) (d * bits + k)) := by
  have split : 8 * (d * bits / 8) + d * bits % 8 = d * bits := div_add_mod _ _
  have bit := testBit_window (view mem base) bits (d * bits % 8) (fieldByte bits d) k (by omega)
  rw [fieldByte, split] at bit
  exact bit

/-! ### Positions visited by the decode kernel -/

def cdiv (a b : Nat) : Nat := (a + b - 1) / b

/-- The positions program `sid` of stage 1 accumulates: its split, in tiles of `blockKv`. -/
def stage1Positions (seqLen numKvSplits blockKv sid : Nat) : List Nat :=
  let splitLen := cdiv seqLen numKvSplits
  let splitStart := splitLen * sid
  let splitEnd := min (splitStart + splitLen) seqLen
  if splitStart ≥ splitEnd then []
  else
    (range' splitStart (cdiv (splitEnd - splitStart) blockKv) blockKv).flatMap fun startN =>
      ((range blockKv).map (startN + ·)).filter (· < splitEnd)

def decodePositions (seqLen numKvSplits blockKv : Nat) : List Nat :=
  (range numKvSplits).flatMap (stage1Positions seqLen numKvSplits blockKv)

theorem le_cdiv_mul (a : Nat) {b : Nat} (pos : 0 < b) : a ≤ cdiv a b * b := by
  have division := div_add_mod (a + b - 1) b
  have remainder := mod_lt (a + b - 1) pos
  rw [mul_comm] at division
  unfold cdiv
  omega

theorem stage1Positions_eq (sl k sid : Nat) {blockKv : Nat} (pos : 0 < blockKv) :
    stage1Positions sl k blockKv sid = range' (cdiv sl k * sid) (min (cdiv sl k) (sl - cdiv sl k * sid)) := by
  simp only [stage1Positions]
  generalize cdiv sl k = splitLen
  generalize splitLen * sid = start
  split
  · have empty : min splitLen (sl - start) = 0 := by omega
    rw [empty, range'_zero]
  · have covered := le_cdiv_mul (min (start + splitLen) sl - start) pos
    have starts : ∀ n, range' start n blockKv = (range n).map (start + blockKv * ·) := fun n =>
      ext_getElem (by simp) (by simp)
    simp only [starts, flatMap_map, Segments.filter_tile]
    refine (Segments.flatMap_tiles start blockKv _ _).trans ?_
    congr 1
    omega

theorem decodePositions_eq (seqLen : Nat) {n blockKv : Nat} (k : 0 < n)
    (pos : 0 < blockKv) : decodePositions seqLen n blockKv = range seqLen := by
  have covered := le_cdiv_mul seqLen k
  have tiles := Segments.flatMap_tiles 0 (cdiv seqLen n) seqLen n
  simp only [Nat.zero_add, Nat.sub_zero] at tiles
  have whole : min (n * cdiv seqLen n) seqLen = seqLen := by rw [Nat.mul_comm]; omega
  rw [whole, ← range_eq_range'] at tiles
  rw [← tiles, decodePositions]
  congr 1
  funext sid
  exact stage1Positions_eq seqLen n sid pos

end TurboQuant.Triton
