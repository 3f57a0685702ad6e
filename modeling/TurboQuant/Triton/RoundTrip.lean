import TurboQuant.Triton.Layout

/-!
The round trip through a slot.
-/

namespace TurboQuant.Triton
open Bits Nat TurboQuantConfig List

def configLayout (c : TurboQuantConfig) : StoreLayout :=
  storeLayout c.headDim c.mseBits c.keyPackedSize c.effectiveValueQuantBits

theorem vIdx_eq_window {L : StoreLayout} (width : L.vqb = 3 ∨ L.vqb = 4) (mem : Memory) (base d : Nat) :
    Stage1.vIdx L mem base d = loadWindow mem (base + L.kps) L.vqb d ∧
    FullDequant.vIdx L mem base d = loadWindow mem (base + L.kps) L.vqb d := by
  rcases width with three | four
  · simp [Stage1.vIdx, FullDequant.vIdx, three]
  · simp [Stage1.vIdx, FullDequant.vIdx, four, loadNibble_eq_window]

section
variable (c : TurboQuantConfig)

/-- Storing a slot succeeds, and both reading kernels get back every index and every value. -/
def Recovers : Prop :=
  ∀ (mem : Memory) (slotBase : Nat) (idx q : Nat → Nat) (vecNorm scale zero : BitVec 16),
    (∀ d < c.headDim, idx d < 2 ^ c.keyQuantBits) → (∀ d < c.headDim, q d < 2 ^ c.valueQuantBits) →
    ∃ mem', storeSlot (configLayout c) idx vecNorm q scale zero slotBase mem = .ok mem' ∧
      ∀ d < c.headDim,
        Stage1.mseIdx (configLayout c) mem' slotBase d = idx d ∧
        FullDequant.mseIdx (configLayout c) mem' slotBase d = idx d ∧
        Stage1.vIdx (configLayout c) mem' slotBase d = q d ∧
        FullDequant.vIdx (configLayout c) mem' slotBase d = q d

def ReadsInside : Prop :=
  ∀ d < c.headDim,
    (∀ a ∈ keyReads (configLayout c) d, a < c.keyPackedSize) ∧
    (∀ a ∈ valueReads (configLayout c) d, c.keyPackedSize ≤ a ∧ a < c.keyPackedSize + c.valuePackedSize)

/-- An extracted index or value depends on no bit outside the element's own field. -/
def OwnBitsOnly : Prop :=
  ∀ (mem mem' : Memory) (slotBase d : Nat), d < c.headDim →
    ((∀ k < c.keyQuantBits, bitAt (view mem slotBase) (d * c.keyQuantBits + k) =
        bitAt (view mem' slotBase) (d * c.keyQuantBits + k)) →
      Stage1.mseIdx (configLayout c) mem slotBase d = Stage1.mseIdx (configLayout c) mem' slotBase d ∧
      FullDequant.mseIdx (configLayout c) mem slotBase d = FullDequant.mseIdx
        (configLayout c) mem' slotBase d) ∧
    ((∀ k < c.valueQuantBits,
        bitAt (view mem (slotBase + c.keyPackedSize)) (d * c.valueQuantBits + k) =
        bitAt (view mem' (slotBase + c.keyPackedSize)) (d * c.valueQuantBits + k)) →
      Stage1.vIdx (configLayout c) mem slotBase d = Stage1.vIdx (configLayout c) mem' slotBase d ∧
      FullDequant.vIdx (configLayout c) mem slotBase d = FullDequant.vIdx (configLayout c) mem' slotBase d)

structure PackedBits : Prop where
  key : c.keyQuantBits = 3 ∨ c.keyQuantBits = 4
  value : c.valueQuantBits = 3 ∨ c.valueQuantBits = 4

end

section
variable {c : TurboQuantConfig}

section
variable (pk : PackedBits c)
include pk

theorem PackedBits.mseBits : (configLayout c).mseBits = c.keyQuantBits := by
  rcases pk.key with key | key <;>
    simp [configLayout, storeLayout, TurboQuantConfig.mseBits, TurboQuantConfig.keyFp8, key]

theorem PackedBits.kps : c.keyPackedSize = ceilBytes (c.headDim * c.keyQuantBits) + 2 := by
  rcases pk.key with key | key <;>
    simp [keyPackedSize, keyMseBits, keyFp8, key]

theorem PackedBits.layout : configLayout c =
    storeLayout c.headDim c.keyQuantBits (ceilBytes (c.headDim * c.keyQuantBits) + 2) c.valueQuantBits := by
  rw [← pk.kps, ← pk.mseBits]
  rfl

theorem PackedBits.fits : (configLayout c).Fits := by
  rw [pk.layout]
  exact storeLayout_fits _ _ _

theorem readsInside : ReadsInside c := by
  intro d lt
  have keyWidth : (configLayout c).mseBits = c.keyQuantBits := pk.mseBits
  have valueWidth : (configLayout c).vqb = c.valueQuantBits := rfl
  have start : (configLayout c).kps = c.keyPackedSize := rfl
  have keyByte := field_inside (k := 0) lt (w := c.keyQuantBits) (by have := pk.key; omega)
  have valueByte := field_inside (k := 0) lt (w := c.valueQuantBits) (by have := pk.value; omega)
  constructor
  · simp only [keyReads, fieldByte, keyWidth, pk.kps, mem_cons, not_mem_nil, or_false]
    omega
  have size : c.valuePackedSize = ceilBytes (c.headDim * c.valueQuantBits) + 4 := rfl
  simp only [valueReads, fieldByte, valueWidth, start, size]
  split
  · rename_i three
    rw [three] at valueByte ⊢
    simp only [mem_cons, not_mem_nil, or_false]
    omega
  · have four : c.valueQuantBits = 4 := by have := pk.value; omega
    rw [four] at valueByte ⊢
    simp only [mem_cons, not_mem_nil, or_false]
    omega

theorem ownBitsOnly : OwnBitsOnly c := by
  intro mem mem' base d lt
  constructor
  · intro agree
    rw [← pk.mseBits] at agree
    have same := loadWindow_congr (by rw [pk.mseBits]; have := pk.key; omega) agree
    exact ⟨same, same⟩
  · intro agree
    have same : loadWindow mem (base + (configLayout c).kps) (configLayout c).vqb d =
        loadWindow mem' (base + (configLayout c).kps) (configLayout c).vqb d :=
      loadWindow_congr (by have := pk.value; show c.valueQuantBits ≤ 8; omega) agree
    have left := vIdx_eq_window (L := configLayout c) pk.value mem base d
    have right := vIdx_eq_window (L := configLayout c) pk.value mem' base d
    rw [left.1, left.2, right.1, right.2]
    exact ⟨same, same⟩

end

def WholeFields (c : TurboQuantConfig) : Prop :=
  2 ≤ c.headDim ∧ (c.keyQuantBits = 3 ∨ c.valueQuantBits = 3 → 8 ∣ c.headDim)

theorem blockGrp_eight (several : 2 ≤ c.headDim) (whole : 8 ∣ c.headDim) :
    (configLayout c).blockGrp * 8 = (configLayout c).blockD := by
  obtain ⟨m, hm⟩ := whole
  have quotient : c.headDim / 8 = m := by omega
  have product : c.headDim = m * 8 := by omega
  show (if c.headDim ≥ 8 then nextPowerOf2 (c.headDim / 8) else 1) * 8 = nextPowerOf2 c.headDim
  rw [if_pos (by omega), quotient, product, nextPowerOf2_mul_eight (by omega)]

section
variable (pk : PackedBits c) (fields : WholeFields c)
include pk fields

theorem storeMseIndices_ok (idx : Nat → Nat) (base : Nat)
    (mem : Memory) : ∃ keyed, storeMseIndices (configLayout c) idx base mem = .ok keyed := by
  obtain ⟨several, whole⟩ := fields
  unfold storeMseIndices
  rw [pk.mseBits]
  rcases pk.key with three | four
  · simp only [three, reduceEqDiff, if_false, if_true]
    exact storeGroups3_ok (blockGrp_eight several (whole (.inl three)))
  · simp only [four, if_true]
    exact storePairs4_ok (nextPowerOf2_even several)

theorem storeValueData_ok (q : Nat → Nat) (base : Nat)
    (mem : Memory) : ∃ valued, storeValueData (configLayout c) q base mem = .ok valued := by
  obtain ⟨several, whole⟩ := fields
  have width : (configLayout c).vqb = c.valueQuantBits := rfl
  unfold storeValueData
  rw [width]
  rcases pk.value with three | four
  · simp only [three, if_true]
    exact storeGroups3_ok (blockGrp_eight several (whole (.inr three)))
  · simp only [four, reduceEqDiff, if_false]
    exact storePairs4_ok (nextPowerOf2_even several)

theorem recovers_of_wholeFields : Recovers c := by
  intro mem base idx q vecNorm scale zero smallIdx smallQ
  obtain ⟨keyed, keyStore⟩ := storeMseIndices_ok pk fields idx base mem
  obtain ⟨valued, valueStore⟩ := storeValueData_ok pk fields q base
    (storeU16 keyed (base + (configLayout c).mseBytes) vecNorm)
  obtain ⟨mem', ran⟩ := storeSlot_of_steps scale zero keyStore valueStore
  refine ⟨mem', ran, fun d lt => ?_⟩
  have fits := pk.fits
  have key : loadWindow mem' base (configLayout c).mseBits d = idx d := by
    obtain ⟨keyed, keyStore, same⟩ := storeSlot_key_bytes fits ran
    have stored := storeMseIndices_stored fits (pk.mseBits ▸ pk.key)
      (fun three => fields.2 (.inl (pk.mseBits ▸ three))) keyStore
    have final := stored.congr (fun a below => same a (fits.mseBytes ▸ below))
    have narrow : (configLayout c).mseBits ≤ 8 := by rw [pk.mseBits]; have := pk.key; omega
    exact loadWindow_eq_of_bits narrow (by rw [pk.mseBits]; exact smallIdx d lt) (final d lt)
  have value : loadWindow mem' (base + (configLayout c).kps) (configLayout c).vqb d = q d := by
    obtain ⟨before, valued, valueStore, -, same⟩ := storeSlot_value_bytes fits ran
    have stored := storeValueData_stored fits pk.value (fun three => fields.2 (.inr three)) smallQ valueStore
    have final := stored.congr (fun a below => same a (fits.valDataBytes ▸ below))
    have narrow : c.valueQuantBits ≤ 8 := by have := pk.value; omega
    exact loadWindow_eq_of_bits narrow (smallQ d lt) (final d lt)
  have windows := vIdx_eq_window (L := configLayout c) pk.value mem' base d
  exact ⟨key, key, windows.1.trans value, windows.2.trans value⟩

end

theorem storeMseIndices_single (pk : PackedBits c) (single : c.headDim = 1) (idx : Nat → Nat) (base : Nat)
    (mem keyed : Memory) : storeMseIndices (configLayout c) idx base mem ≠ .ok keyed := by
  rw [pk.layout, single]
  rcases pk.key with three | four
  · simp [three, storeMseIndices, storeGroups3, storeLayout, nextPowerOf2]
  · simp [four, storeMseIndices, storePairs4, storeLayout, nextPowerOf2]

theorem storeGroups3_last {L : StoreLayout} {lane : Nat → Nat} {dest : Nat} {mem mem' : Memory}
    (ran : storeGroups3 L lane dest mem = .ok mem') (partialGroup : ¬ 8 ∣ L.D) :
    mem' (dest + fieldByte 3 (L.D - 1)) = mem (dest + fieldByte 3 (L.D - 1)) :=
  storeGroups3_frame ran (by unfold fieldByte; omega)

theorem loadWindow_even {mem : Memory} {base w d : Nat} (narrow : w ≤ 8)
    (zero : mem (base + fieldByte w d) = 0) : (loadWindow mem base w d).testBit 0 = false := by
  rw [testBit_loadWindow _ _ _ _ _ narrow, bitAt, view, add_zero, ← fieldByte, zero]
  simp

theorem wholeFields_of_recovers (pk : PackedBits c) (accepted : supportsHeadSize c.headDim = true)
    (recovers : Recovers c) : WholeFields c := by
  have pos : 0 < c.headDim := by simpa [supportsHeadSize] using accepted
  have fits := pk.fits
  -- all-ones fields written over zeroed memory
  have small : ∀ b, b = 3 ∨ b = 4 → ∀ d < c.headDim, 7 < 2 ^ b := by
    rintro b (rfl | rfl) d - <;> decide
  obtain ⟨mem', ran, read⟩ := recovers (fun _ => 0) 0 (fun _ => 7) (fun _ => 7) 0 0 0
    (small _ pk.key) (small _ pk.value)
  obtain ⟨key, -, value, -⟩ := read (c.headDim - 1) (by omega)
  constructor
  · by_contra few
    obtain ⟨keyed, -, keyStore, -, -⟩ := storeSlot_steps ran
    exact storeMseIndices_single pk (by omega) _ _ _ _ keyStore
  · intro three
    by_contra partialGroup
    rcases three with three | three
    · obtain ⟨keyed, keyStore, same⟩ := storeSlot_key_bytes fits ran
      have width := pk.mseBits.trans three
      simp only [storeMseIndices, width, reduceEqDiff, if_false, if_true] at keyStore
      have last := storeGroups3_last keyStore partialGroup
      have lt : fieldByte 3 (c.headDim - 1) < (configLayout c).mseBytes := by
        rw [fits.mseBytes, width]
        exact field_inside (k := 0) (w := 3) (sub_lt pos one_pos) (by decide)
      have blank := loadWindow_even (w := 3) (d := c.headDim - 1) (by decide) ((same _ lt).trans last)
      rw [Stage1.mseIdx, width] at key
      rw [key] at blank
      exact absurd blank (by decide)
    · obtain ⟨before, valued, valueStore, untouched, same⟩ := storeSlot_value_bytes fits ran
      have width : (configLayout c).vqb = 3 := three
      simp only [storeValueData, width, if_true] at valueStore
      have last := storeGroups3_last valueStore partialGroup
      have lt : fieldByte 3 (c.headDim - 1) < (configLayout c).valDataBytes := by
        rw [fits.valDataBytes, width]
        exact field_inside (k := 0) (w := 3) (sub_lt pos one_pos) (by decide)
      have zero := (same _ lt).trans (last.trans (untouched _ (by omega)))
      have blank := loadWindow_even (w := 3) (d := c.headDim - 1) (by decide) zero
      rw [Stage1.vIdx, if_pos width] at value
      rw [value] at blank
      exact absurd blank (by decide)

/-- Both reading kernels recover everything the store kernel packed, from reserved bytes and from
the element's own bits, exactly for the head dimensions whose fields are all stored: 3-bit fields
are stored in whole groups of eight only. -/
theorem slot_roundTrip_iff (c : TurboQuantConfig) (packed : PackedBits c)
    (accepted : supportsHeadSize c.headDim = true) : (Recovers c ∧ ReadsInside c ∧ OwnBitsOnly c) ↔
      2 ≤ c.headDim ∧ (c.keyQuantBits = 3 ∨ c.valueQuantBits = 3 → 8 ∣ c.headDim) := by
  constructor
  · rintro ⟨recovers, -, -⟩
    exact wholeFields_of_recovers packed accepted recovers
  · intro fields
    exact ⟨recovers_of_wholeFields packed fields, readsInside packed, ownBitsOnly packed⟩

end

theorem slot_roundTrip_k3v4_128 : Recovers (fromCacheDtype .k3v4Nc 128) ∧
    ReadsInside (fromCacheDtype .k3v4Nc 128) ∧ OwnBitsOnly (fromCacheDtype .k3v4Nc 128) :=
  (slot_roundTrip_iff (fromCacheDtype .k3v4Nc 128) ⟨.inl rfl, .inr rfl⟩ rfl).mpr (by decide)

/-- A head of 4 with 3-bit keys is accepted and cannot be stored. A head of 100 is accepted and
stored without an error, and both kernels read index 0 for its last element where 7 was stored. -/
theorem slot_roundTrip_loses_tail : (supportsHeadSize 4 = true ∧
      storeSlot (configLayout (fromCacheDtype .k3v4Nc 4)) (fun _ => 7) 0 (fun _ => 15) 0 0 0 (fun _ => 0) =
        .error (.reshape 4 [1, 8])) ∧
    supportsHeadSize 100 = true ∧ ∃ mem', storeSlot (configLayout (fromCacheDtype .k3v4Nc 100))
      (fun _ => 7) 0 (fun _ => 15) 0 0 0 (fun _ => 0)
        = .ok mem' ∧ Stage1.mseIdx (configLayout (fromCacheDtype .k3v4Nc 100)) mem' 0 99 = 0 ∧
      FullDequant.mseIdx (configLayout (fromCacheDtype .k3v4Nc 100)) mem' 0 99 = 0 := by
  refine ⟨⟨rfl, rfl⟩, rfl, _, rfl, ?_, ?_⟩ <;> decide +kernel

end TurboQuant.Triton
