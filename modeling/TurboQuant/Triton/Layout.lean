import TurboQuant.Triton.Decode

/-!
What the store kernels leave in memory.
-/

namespace TurboQuant.Triton
open Bits Nat

/-! ### Block sizes -/

theorem nextPowerOf2_ge (n : Nat) : n ≤ nextPowerOf2 n := by
  unfold nextPowerOf2
  split
  · exact le_refl n
  · have above := lt_log2_self (n := n - 1)
    omega

variable {n : Nat}

theorem nextPowerOf2_lt (pos : 1 < n) : nextPowerOf2 n < 2 * n := by
  unfold nextPowerOf2
  rw [if_neg (by omega), pow_succ]
  have below := log2_self_le (n := n - 1) (by omega)
  omega

theorem nextPowerOf2_pow (pos : 0 < n) : ∃ e, nextPowerOf2 n = 2 ^ e := by
  unfold nextPowerOf2
  split
  · exact ⟨0, by simp; omega⟩
  · exact ⟨_, rfl⟩

theorem nextPowerOf2_even (several : 2 ≤ n) : nextPowerOf2 n / 2 * 2 = nextPowerOf2 n := by
  unfold nextPowerOf2
  rw [if_neg (by omega), pow_succ]
  omega

theorem nextPowerOf2_mul_eight {m : Nat} (pos : 0 < m) : nextPowerOf2 (m * 8) = nextPowerOf2 m * 8 := by
  obtain ⟨e, he⟩ := nextPowerOf2_pow (n := m * 8) (by omega)
  obtain ⟨f, hf⟩ := nextPowerOf2_pow pos
  have lowE := nextPowerOf2_ge (m * 8)
  have highE := nextPowerOf2_lt (n := m * 8) (by omega)
  have lowF := nextPowerOf2_ge m
  have highF : nextPowerOf2 m < 2 * m := by
    rcases Nat.lt_or_eq_of_le pos with several | one
    · exact nextPowerOf2_lt several
    · subst one; decide
  have scaled : 2 ^ (f + 3) = 2 ^ f * 8 := pow_add 2 f 3
  have above : e < f + 3 + 1 := by
    apply (Nat.pow_lt_pow_iff_right (a := 2) (by decide)).mp
    rw [pow_succ 2 (f + 3), scaled]
    omega
  have below : f + 3 < e + 1 := by
    apply (Nat.pow_lt_pow_iff_right (a := 2) (by decide)).mp
    rw [pow_succ 2 e, scaled]
    omega
  rw [he, hf, ← scaled, show e = f + 3 by omega]

/-! ### What a store leaves in memory -/

def StoredBits (bytes : Nat → UInt8) (w : Nat) (digit : Nat → Nat) (D : Nat) : Prop :=
  ∀ d < D, ∀ k < w, bitAt bytes (d * w + k) = (digit d).testBit k

theorem field_inside {w d D k : Nat} (lt : d < D) (within : k < w) : (d * w + k) / 8 < ceilBytes (D * w) := by
  have below : d * w + k < D * w := by
    calc d * w + k < (d + 1) * w := by rw [succ_mul]; omega
      _ ≤ D * w := mul_le_mul_right w lt
  unfold ceilBytes
  omega

theorem StoredBits.congr {bytes bytes' : Nat → UInt8} {w D : Nat} {digit : Nat → Nat}
    (stored : StoredBits bytes w digit D) (same : ∀ a < ceilBytes (D * w), bytes' a = bytes a) :
    StoredBits bytes' w digit D := by
  intro d lt k within
  rw [← stored d lt k within, bitAt, bitAt, same _ (field_inside lt within)]

variable {a : Nat}

section
variable {L : StoreLayout} {lane : Nat → Nat} {dest bytes : Nat} {mem mem' : Memory}

theorem storePairs4_ok (even : L.blockD / 2 * 2 = L.blockD) :
    ∃ mem', storePairs4 L lane dest bytes mem = .ok mem' := by
  simp [storePairs4, even]

section
variable (ran : storePairs4 L lane dest bytes mem = .ok mem')
include ran

theorem storePairs4_eq : L.blockD / 2 * 2 = L.blockD ∧ mem' = tlStore mem (L.blockD / 2) (fun j => dest + j)
      (fun j => UInt8.ofNat (packDigits 4 (fun t => lane (2 * j + t) &&& 0xF) 2)) (fun j => j < bytes) := by
  unfold storePairs4 at ran
  split at ran
  · rename_i even
    exact ⟨even, (Except.ok.inj ran).symm⟩
  · cases ran

theorem storePairs4_byte {j : Nat} (b : j < L.blockD / 2) (lt : j < bytes) :
    mem' (dest + j) = UInt8.ofNat (packDigits 4 (fun t => lane (2 * j + t) &&& 0xF) 2) := by
  rw [(storePairs4_eq ran).2]
  exact tlStore_hit b (by simpa using lt) (fun _ _ same => add_left_cancel same)

theorem storePairs4_frame (outside : a < dest ∨ dest + bytes ≤ a) : mem' a = mem a := by
  rw [(storePairs4_eq ran).2]
  apply tlStore_miss
  intro j _ active
  simp only [decide_eq_true_eq] at active
  omega

theorem storePairs4_stored (b : L.D ≤ L.blockD)
    (size : bytes = ceilBytes (L.D * 4)) : StoredBits (view mem' dest) 4 lane L.D := by
  intro d lt k within
  have even := (storePairs4_eq ran).1
  have byte : (d * 4 + k) / 8 = d / 2 := by omega
  have place : (d * 4 + k) % 8 = d % 2 * 4 + k := by omega
  have element : 2 * (d / 2) + d % 2 = d := by omega
  have ones : (0xF : Nat) = 2 ^ 4 - 1 := rfl
  rw [bitAt, view, byte, place, storePairs4_byte ran (j := d / 2) (by omega) (by rw [size, ceilBytes]; omega),
    testBit_toUInt8 _ _ (by omega),
    testBit_packDigits (fun t _ => and_mask_lt ones (lane (2 * (d / 2) + t))) (by omega) within,
    testBit_and_mask ones within, element]

end

end

section
variable {L : StoreLayout} {lane : Nat → Nat} {dest : Nat} {mem mem' : Memory}

def packed24 (lane : Nat → Nat) (g : Nat) : Nat := packDigits 3 (fun t => lane (8 * g + t)) 8

theorem storeGroups3_ok (b : L.blockGrp * 8 = L.blockD) : ∃ mem', storeGroups3 L lane dest mem = .ok mem' := by
  simp [storeGroups3, b]

section
variable (ran : storeGroups3 L lane dest mem = .ok mem')
include ran

theorem storeGroups3_byte {g r : Nat} (b : g < L.blockGrp) (lt : g < L.D / 8) (third : r < 3) :
    mem' (dest + (g * 3 + r)) = UInt8.ofNat ((packed24 lane g >>> (8 * r)) &&& 0xFF) := by
  unfold storeGroups3 at ran
  split at ran
  · -- the three vector stores interleave; the one with offset `r` wrote this byte
    rw [← Except.ok.inj ran, ← add_assoc]
    have active : decide (g < L.D / 8) = true := by simpa using lt
    rcases (by omega : r = 0 ∨ r = 1 ∨ r = 2) with rfl | rfl | rfl
    · rw [tlStore_miss (fun j _ _ => by omega), tlStore_miss (fun j _ _ => by omega)]
      exact (tlStore_hit b active (fun j _ same => by omega)).trans
        (by simp only [packed24, mul_zero, shiftRight_zero])
    · rw [tlStore_miss (fun j _ _ => by omega)]
      exact (tlStore_hit b active (fun j _ same => by omega)).trans (by simp only [packed24, mul_one])
    · exact (tlStore_hit b active (fun j _ same => by omega)).trans (by simp only [packed24, reduceMul])
  · cases ran

theorem storeGroups3_frame (outside : a < dest ∨ dest + L.D / 8 * 3 ≤ a) : mem' a = mem a := by
  unfold storeGroups3 at ran
  split at ran
  · rw [← Except.ok.inj ran]
    rw [tlStore_miss, tlStore_miss, tlStore_miss]
    all_goals
      intro g _ active
      simp only [decide_eq_true_eq] at active
      omega
  · cases ran

theorem storeGroups3_stored (b : L.D / 8 ≤ L.blockGrp) (whole : 8 ∣ L.D) (small : ∀ d < L.D, lane d < 2 ^ 3) :
    StoredBits (view mem' dest) 3 lane L.D := by
  intro d lt k within
  -- bit `3 * (d % 8) + k` of the group's word, in its byte `r`
  generalize hr : (d % 8 * 3 + k) / 8 = r
  have byte : (d * 3 + k) / 8 = d / 8 * 3 + r := by omega
  have place : (d * 3 + k) % 8 = (d % 8 * 3 + k) % 8 := by omega
  have word : 8 * r + (d % 8 * 3 + k) % 8 = d % 8 * 3 + k := by omega
  have element : 8 * (d / 8) + d % 8 = d := by omega
  have ones : (0xFF : Nat) = 2 ^ 8 - 1 := rfl
  rw [bitAt, view, byte, place, storeGroups3_byte ran (by omega) (by omega) (by omega),
    testBit_toUInt8 _ _ (by omega), testBit_and_mask ones (by omega), testBit_shiftRight, word,
    packed24, testBit_packDigits (fun t below => small (8 * (d / 8) + t) (by omega))
      (by omega) within, element]

end

end

/-! ### A whole slot -/

/-- What the proofs use of the launch constants: blocks cover the head, sizes cover the fields. -/
structure StoreLayout.Fits (L : StoreLayout) : Prop where
  block : L.D ≤ L.blockD
  groups : L.D / 8 ≤ L.blockGrp
  mseBytes : L.mseBytes = ceilBytes (L.D * L.mseBits)
  valDataBytes : L.valDataBytes = ceilBytes (L.D * L.vqb)
  kps : L.kps = L.mseBytes + 2

theorem storeLayout_fits (D mseBits vqb : Nat) :
    (storeLayout D mseBits (ceilBytes (D * mseBits) + 2) vqb).Fits where
  block := nextPowerOf2_ge D
  groups := by
    simp only [storeLayout]
    split
    · exact nextPowerOf2_ge (D / 8)
    · omega
  mseBytes := rfl
  valDataBytes := rfl
  kps := rfl

section
variable {L : StoreLayout} {idx q : Nat → Nat} {vecNorm scale zero : BitVec 16} {base : Nat}
  {mem mem' : Memory}

theorem whole_groups_le (D : Nat) : D / 8 * 3 ≤ ceilBytes (D * 3) := by
  unfold ceilBytes
  omega

theorem storeMseIndices_frame (fits : L.Fits) (ran : storeMseIndices L idx base mem = .ok mem')
    (outside : a < base ∨ base + L.mseBytes ≤ a) : mem' a = mem a := by
  unfold storeMseIndices at ran
  split at ran
  · exact storePairs4_frame ran outside
  · split at ran
    · rename_i three
      have size := fits.mseBytes
      rw [three] at size
      have := whole_groups_le L.D
      exact storeGroups3_frame ran (by omega)
    · rw [← Except.ok.inj ran]

theorem storeMseIndices_stored (fits : L.Fits) (width : L.mseBits = 3 ∨ L.mseBits = 4)
    (whole : L.mseBits = 3 → 8 ∣ L.D) (ran : storeMseIndices L idx base mem = .ok mem') :
    StoredBits (view mem' base) L.mseBits idx L.D := by
  have size := fits.mseBytes
  rcases width with three | four
  · rw [three]
    simp only [storeMseIndices, three, reduceEqDiff, if_false, if_true] at ran
    -- the kernel masks each index to three bits before packing it
    have masked : ∀ d, idx d &&& 0x7 < 2 ^ 3 := fun d => and_mask_lt (w := 3) rfl (idx d)
    have stored := storeGroups3_stored ran fits.groups (whole three) (fun d _ => masked d)
    intro d lt k within
    rw [stored d lt k within]
    exact testBit_and_mask (w := 3) rfl within (idx d)
  · rw [four] at size ⊢
    simp only [storeMseIndices, four, if_true] at ran
    exact storePairs4_stored ran fits.block size

theorem storeValueData_frame (fits : L.Fits) (ran : storeValueData L q base mem = .ok mem')
    (outside : a < base + L.kps ∨ base + L.kps + L.valDataBytes ≤ a) : mem' a = mem a := by
  unfold storeValueData at ran
  split at ran
  · rename_i three
    have size := fits.valDataBytes
    rw [three] at size
    have := whole_groups_le L.D
    exact storeGroups3_frame ran (by omega)
  · exact storePairs4_frame ran outside

theorem storeValueData_stored (fits : L.Fits) (width : L.vqb = 3 ∨ L.vqb = 4)
    (whole : L.vqb = 3 → 8 ∣ L.D) (small : ∀ d < L.D, q d < 2 ^ L.vqb)
    (ran : storeValueData L q base mem = .ok mem') :
    StoredBits (view mem' (base + L.kps)) L.vqb q L.D := by
  have size := fits.valDataBytes
  rcases width with three | four
  · rw [three] at small ⊢
    simp only [storeValueData, three, if_true] at ran
    exact storeGroups3_stored ran fits.groups (whole three) small
  · rw [four] at size ⊢
    simp only [storeValueData, four, reduceEqDiff, if_false] at ran
    exact storePairs4_stored ran fits.block size

theorem storeSlot_steps (ran : storeSlot L idx vecNorm q scale zero base mem = .ok mem') :
    ∃ keyed valued, storeMseIndices L idx base mem = .ok keyed ∧
      storeValueData L q base (storeU16 keyed (base + L.mseBytes) vecNorm) = .ok valued ∧
      mem' = storeU16 (storeU16 valued (base + L.kps + L.valDataBytes) scale)
        (base + L.kps + L.valDataBytes + 2) zero := by
  unfold storeSlot at ran
  cases keyStore : storeMseIndices L idx base mem with
  | error e => rw [keyStore] at ran; cases ran
  | ok keyed =>
    rw [keyStore] at ran
    simp only [storeValueIndices, bind, Except.bind] at ran
    cases valueStore : storeValueData L q base (storeU16 keyed (base + L.mseBytes) vecNorm) with
    | error e => rw [valueStore] at ran; cases ran
    | ok valued =>
      rw [valueStore] at ran
      exact ⟨keyed, valued, rfl, valueStore, (Except.ok.inj ran).symm⟩

theorem storeSlot_of_steps {keyed valued : Memory} (scale zero : BitVec 16)
    (keyStore : storeMseIndices L idx base mem = .ok keyed)
    (valueStore : storeValueData L q base (storeU16 keyed (base + L.mseBytes) vecNorm) = .ok valued) :
    ∃ mem', storeSlot L idx vecNorm q scale zero base mem = .ok mem' := by
  simp [storeSlot, storeValueIndices, keyStore, valueStore, bind, Except.bind, pure, Except.pure]

section
variable (fits : L.Fits) (ran : storeSlot L idx vecNorm q scale zero base mem = .ok mem')
include fits ran

theorem storeSlot_key_bytes : ∃ keyed, storeMseIndices L idx base mem = .ok keyed ∧
      ∀ a < L.mseBytes, view mem' base a = view keyed base a := by
  obtain ⟨keyed, valued, keyStore, valueStore, rfl⟩ := storeSlot_steps ran
  refine ⟨keyed, keyStore, fun a lt => ?_⟩
  have above := fits.kps
  simp only [view]
  rw [storeU16_other (by omega) (by omega), storeU16_other (by omega) (by omega),
    storeValueData_frame fits valueStore (by omega), storeU16_other (by omega) (by omega)]

theorem storeSlot_value_bytes : ∃ before valued, storeValueData L q base before = .ok valued ∧
      (∀ a, base + L.kps ≤ a → before a = mem a) ∧
      ∀ a < L.valDataBytes, view mem' (base + L.kps) a = view valued (base + L.kps) a := by
  obtain ⟨keyed, valued, keyStore, valueStore, rfl⟩ := storeSlot_steps ran
  have above := fits.kps
  refine ⟨_, valued, valueStore, fun a past => ?_, fun a lt => ?_⟩
  · rw [storeU16_other (by omega) (by omega), storeMseIndices_frame fits keyStore (by omega)]
  · simp only [view]
    rw [storeU16_other (by omega) (by omega), storeU16_other (by omega) (by omega)]

end

end

end TurboQuant.Triton
