import Mathlib.Data.List.GetD
import TurboQuant.Lib.Scatter
import TurboQuant.Ascend.Dequant

/-!
From the store path to the slices the dequantization path cuts out of a slot.
-/

namespace TurboQuant.Ascend
open TurboQuant.Triton (ceilBytes)
open Outcome Scatter Segments List Nat KvBatch

/-! ### Bytes -/

theorem packPairs_length (indices : List Nat) : (packPairs indices).length = indices.length / 2 := by
  fun_induction packPairs indices with
  | case1 low high rest ih => simp only [length_cons, ih]; omega
  | case2 indices short =>
    match indices, short with
    | [], _ => rfl
    | [_], _ => simp
    | low :: high :: rest, short => exact absurd rfl (short low high rest)

theorem nibbles_of_pair : ∀ low < 16, ∀ high < 16,
    [(UInt8.ofNat ((low &&& 0xF) ||| ((high &&& 0xF) <<< 4))).toNat &&& 0xF,
      ((UInt8.ofNat ((low &&& 0xF) ||| ((high &&& 0xF) <<< 4))).toNat >>> 4) &&& 0xF] = [low, high] := by
  decide +kernel

theorem unpack_packPairs {indices : List Nat} (even : indices.length % 2 = 0) (small : ∀ i ∈ indices, i < 16) :
    ((packPairs indices).flatMap fun b => [b.toNat &&& 0xF, (b.toNat >>> 4) &&& 0xF]) = indices := by
  fun_induction packPairs indices with
  | case1 low high rest ih =>
    rw [flatMap_cons, ih (by simp only [length_cons] at even; omega) (fun i mem => small i (by simp [mem])),
      nibbles_of_pair low (small low (by simp)) high (small high (by simp))]
    rfl
  | case2 indices short =>
    match indices, short, even with
    | [], _, _ => rfl
    | low :: high :: rest, short, _ => exact absurd rfl (short low high rest)

theorem low_byte_mask (x : BitVec 16) : (x &&& 0xFF).setWidth 8 = x.setWidth 8 := by
  have ones : (0xFF : BitVec 16).setWidth 8 = BitVec.allOnes 8 := rfl
  rw [BitVec.setWidth_and, ones, BitVec.and_allOnes]

theorem bytesToFp16_fp16ToBytes (i16 : BitVec 16) : bytesToFp16 (fp16ToBytes i16) = .ok i16 := by
  simp only [fp16ToBytes, bytesToFp16, low_byte_mask]
  congr 1
  ext k lt
  by_cases first : k < 8
  · simp [first, lt]
  · have second : k - 8 < 8 ∧ 8 + (k - 8) = k ∧ k - 8 < 16 := by omega
    simp [first, lt, second, BitVec.getElem_sshiftRight]

/-! ### One row -/

section
variable {α : Type} [Field α] [LinearOrder α] (q : Quantizer α)

def halfBytes (x : List α) : List UInt8 := packPairs (q.indices x) ++ fp16ToBytes (q.normBits x)

theorem indices_length (x : List α) : (q.indices x).length = x.length := by
  simp [Quantizer.indices, Quantizer.rotate]

theorem indices_small (t : q.centroids.length ≤ 16) (x : List α) : ∀ i ∈ q.indices x, i < 16 := by
  intro i mem
  obtain ⟨y, -, rfl⟩ := mem_map.mp mem
  unfold bucketIndex
  omega

theorem halfBytes_length (x : List α) : (halfBytes q x).length = x.length / 2 + 2 := by
  simp [halfBytes, packPairs_length, indices_length, fp16ToBytes]

variable {x : List α}

theorem quantizeSingleVector_eq (positive : 0 < x.length) (even : x.length % 2 = 0) :
    q.quantizeSingleVector x = .ok (halfBytes q x) := by
  have fits : ¬ ((q.indices x).length = 0 ∨ (q.indices x).length % 2 = 1) := by rw [indices_length]; omega
  simp only [Quantizer.quantizeSingleVector, pack4bit, if_neg fits]
  rfl

variable {D : Nat}

theorem mse_bytes (even : D % 2 = 0) : ceilBytes (D * mseBits) = D / 2 := by
  unfold ceilBytes mseBits
  omega

theorem computePaperSlotSize_even (even : D % 2 = 0) : computePaperSlotSize D = (D / 2 + 2) + (D / 2 + 2) := by
  simp only [computePaperSlotSize, mse_bytes even]
  omega

theorem unpackHalf_halfBytes (t : q.centroids.length ≤ 16) (dim : x.length = D)
    (even : D % 2 = 0) {start : Nat} (before after : List UInt8) (place : before.length = start) :
    unpackHalf D start (before ++ halfBytes q x ++ after) = .ok (q.indices x, q.normBits x) := by
  have packedLength : (packPairs (q.indices x)).length = D / 2 := by rw [packPairs_length, indices_length, dim]
  have packed : slice (before ++ halfBytes q x ++ after) start (start + D / 2) = packPairs (q.indices x) := by
    rw [halfBytes, ← append_assoc, append_assoc]
    exact slice_middle before _ _ place (by rw [packedLength])
  have normed : slice (before ++ halfBytes q x ++ after) (start + D / 2) (start + D / 2 + 2) =
      fp16ToBytes (q.normBits x) := by
    rw [halfBytes, ← append_assoc]
    exact slice_middle _ _ _ (by rw [length_append, place, packedLength]) rfl
  have count : (packPairs (q.indices x)).length * 2 = D := by omega
  simp only [unpackHalf, mse_bytes even, packed, normed, unpack4bit, if_pos count, bytesToFp16_fp16ToBytes]
  rw [unpack_packPairs (by rw [indices_length, dim]; exact even) (indices_small q t x)]
  rfl

end

/-! ### The whole batch -/

/-- A batch the cache was allocated for: even head dimension, a 4-bit table, and non-negative slots
that are distinct and in range. -/
structure StoreFits {α : Type} (q : Quantizer α) (b : KvBatch α) (c : KvCache) : Prop where
  tokens : 0 < b.N
  heads : 0 < b.Hk
  dim : 0 < b.D
  even : b.D % 2 = 0
  table : q.centroids.length ≤ 16
  cacheHeads : b.Hk ≤ c.numKvHeads
  slotSize : c.slotSize = computePaperSlotSize b.D
  inRange : ∀ n < b.N, 0 ≤ b.slotMapping n → b.slotMapping n < c.numBlocks * c.blockSize
  distinct : ∀ n < b.N, ∀ n' < b.N, 0 ≤ b.slotMapping n → b.slotMapping n = b.slotMapping n' → n = n'

def tokenAddress {α : Type} (b : KvBatch α) (blockSize n h : Nat) : Nat × Nat × Nat :=
  ((b.slotMapping n).toNat / blockSize, (b.slotMapping n).toNat % blockSize, h)

variable {n h : Nat}

section
variable {α : Type} {q : Quantizer α} {b : KvBatch α} {c : KvCache}

theorem keyRow_length (n h : Nat) : (b.keyRow n h).length = b.D := by simp [keyRow]

theorem valueRow_length (n h : Nat) : (b.valueRow n h).length = b.D := by simp [valueRow]

theorem mem_validRows {r : Nat} : r ∈ b.validRows ↔ r < b.N * b.Hk ∧ 0 ≤ b.slotMapping (r / b.Hk) := by
  simp [validRows]

theorem foldlM_scatterRow (data : List (List UInt8)) (rs : List Nat) (c : KvCache)
    (bounds : ∀ r ∈ rs, c.inBounds (b.address c.blockSize r) = true) : rs.foldlM (scatterRow b data) c = .ok
      { c with byte := scatter (b.address c.blockSize) (fun r j => (data.getD r []).getD j 0) rs c.byte } := by
  induction rs generalizing c with
  | nil => rfl
  | cons r rest ih =>
    have first : scatterRow b data c r = .ok (c.write (b.address c.blockSize r) (data.getD r [])) := by
      rw [scatterRow, if_pos (bounds r mem_cons_self)]
    rw [foldlM_cons, first]
    exact ih _ (fun r' mem => bounds r' (mem_cons_of_mem _ mem))

theorem address_inBounds (fits : StoreFits q b c) {r : Nat} (valid : r ∈ b.validRows) :
    c.inBounds (b.address c.blockSize r) = true := by
  obtain ⟨lt, nonneg⟩ := mem_validRows.mp valid
  have t : r / b.Hk < b.N := Nat.div_lt_of_lt_mul (by rw [Nat.mul_comm]; exact lt)
  have range := fits.inRange _ t nonneg
  have slot : (b.slotMapping (r / b.Hk)).toNat < c.numBlocks * c.blockSize := by omega
  have blocks : 0 < c.blockSize := pos_of_ne_zero fun none => by simp [none] at slot
  have head := mod_lt r fits.heads
  have block : (b.slotMapping (r / b.Hk)).toNat / c.blockSize < c.numBlocks :=
    Nat.div_lt_of_lt_mul (by rw [Nat.mul_comm]; exact slot)
  have offset := mod_lt (b.slotMapping (r / b.Hk)).toNat blocks
  simp [KvCache.inBounds, address, block, offset, head.trans_le fits.cacheHeads]

theorem address_injective (fits : StoreFits q b c) {r r' : Nat} (valid : r ∈ b.validRows)
    (valid' : r' ∈ b.validRows)
    (same : b.address c.blockSize r = b.address c.blockSize r') : r = r' := by
  obtain ⟨lt, nonneg⟩ := mem_validRows.mp valid
  obtain ⟨inside', nonneg'⟩ := mem_validRows.mp valid'
  simp only [address, Prod.mk.injEq] at same
  obtain ⟨block, offset, head⟩ := same
  have slots : (b.slotMapping (r / b.Hk)).toNat = (b.slotMapping (r' / b.Hk)).toNat := by
    rw [← div_add_mod (b.slotMapping (r / b.Hk)).toNat c.blockSize, block, offset, div_add_mod]
  have tokens := fits.distinct (r / b.Hk) (Nat.div_lt_of_lt_mul (by rw [Nat.mul_comm]; exact lt))
    (r' / b.Hk) (Nat.div_lt_of_lt_mul (by rw [Nat.mul_comm]; exact inside')) nonneg (by omega)
  rw [← div_add_mod r b.Hk, tokens, head, div_add_mod]

theorem validRow (fits : StoreFits q b c) (t : n < b.N) (nonneg : 0 ≤ b.slotMapping n)
    (head : h < b.Hk) : n * b.Hk + h ∈ b.validRows ∧ (n * b.Hk + h) / b.Hk = n ∧
      (n * b.Hk + h) % b.Hk = h := by
  have quotient : (n * b.Hk + h) / b.Hk = n := by
    rw [mul_comm, mul_add_div fits.heads, div_eq_of_lt head, add_zero]
  have remainder : (n * b.Hk + h) % b.Hk = h := by rw [mul_comm, mul_add_mod, mod_eq_of_lt head]
  refine ⟨mem_validRows.mpr ⟨?_, by rw [quotient]; exact nonneg⟩, quotient, remainder⟩
  calc n * b.Hk + h < (n + 1) * b.Hk := by rw [succ_mul]; omega
    _ ≤ b.N * b.Hk := mul_le_mul_right _ t

end

section
variable {α : Type} [Field α] [LinearOrder α] {q : Quantizer α} {b : KvBatch α} {c : KvCache}

def rowBytes (q : Quantizer α) (b : KvBatch α) (r : Nat) : List UInt8 :=
  halfBytes q (b.keyRow (r / b.Hk) (r % b.Hk)) ++ halfBytes q (b.valueRow (r / b.Hk) (r % b.Hk))

section
variable (fits : StoreFits q b c)
include fits

theorem rowBytes_length (r : Nat) : (rowBytes q b r).length = c.slotSize := by
  rw [fits.slotSize, computePaperSlotSize_even fits.even, rowBytes, length_append, halfBytes_length,
    halfBytes_length, keyRow_length, valueRow_length]

theorem slotRow_eq (r : Nat) : slotRow q b r = .ok (rowBytes q b r) := by
  have key := quantizeSingleVector_eq q (x := b.keyRow (r / b.Hk) (r % b.Hk))
    (by rw [keyRow_length]; exact fits.dim) (by rw [keyRow_length]; exact fits.even)
  have value := quantizeSingleVector_eq q (x := b.valueRow (r / b.Hk) (r % b.Hk))
    (by rw [valueRow_length]; exact fits.dim) (by rw [valueRow_length]; exact fits.even)
  simp only [slotRow, key, value]
  rfl

theorem storeTurboquantKv_eq : storeTurboquantKv q b c = .ok
    { c with byte := scatter (b.address c.blockSize) (fun r j => (rowBytes q b r).getD j 0) b.validRows c.byte } := by
  have some : b.N * b.Hk ≠ 0 := ne_of_gt (mul_pos fits.tokens fits.heads)
  have data := mapM_ok (range (b.N * b.Hk)) (fun r _ => slotRow_eq fits r)
  have width : (((range (b.N * b.Hk)).map (rowBytes q b)).headD []).length = c.slotSize := by
    obtain ⟨m, hm⟩ := exists_eq_succ_of_ne_zero some
    rw [hm, range_succ_eq_map]
    exact rowBytes_length fits 0
  simp only [storeTurboquantKv, if_neg some, data]
  refine (if_pos width).trans ?_
  rw [foldlM_scatterRow _ _ _ (fun r valid => address_inBounds fits valid)]
  congr 2
  apply scatter_congr
  intro r valid
  have inside := (mem_validRows.mp valid).1
  rw [getD_eq_getElem _ _ (by simpa using inside), getElem_map, getElem_range]

theorem storeTurboquantKv_dims : ∃ c', storeTurboquantKv q b c = .ok c' ∧
    c'.numBlocks = c.numBlocks ∧ c'.blockSize = c.blockSize ∧ c'.numKvHeads = c.numKvHeads :=
  ⟨_, storeTurboquantKv_eq fits, rfl, rfl, rfl⟩

section
variable {c' : KvCache} (ran : storeTurboquantKv q b c = .ok c')
include ran

theorem stored_row (t : n < b.N) (nonneg : 0 ≤ b.slotMapping n) (head : h < b.Hk) :
    c'.row (tokenAddress b c.blockSize n h) = halfBytes q (b.keyRow n h) ++ halfBytes q (b.valueRow n h) := by
  rw [storeTurboquantKv_eq fits] at ran
  rw [← Except.ok.inj ran]
  obtain ⟨valid, quotient, remainder⟩ := validRow fits t nonneg head
  have place : b.address c.blockSize (n * b.Hk + h) = tokenAddress b c.blockSize n h := by
    rw [address, tokenAddress, quotient, remainder]
  have bytes : rowBytes q b (n * b.Hk + h) = halfBytes q (b.keyRow n h) ++ halfBytes q (b.valueRow n h) := by
    rw [rowBytes, quotient, remainder]
  have hit := scatter_hit (fun r j => (rowBytes q b r).getD j 0) valid
    (fun r valid' same => address_injective fits valid' valid same) c.byte
  rw [place] at hit
  simp only [KvCache.row, hit]
  rw [← bytes, ← rowBytes_length fits (n * b.Hk + h)]
  apply ext_getElem
  · simp
  · intro j _ lt
    simp [lt]

theorem stored_frame {address : Nat × Nat × Nat}
    (other : ∀ n < b.N, 0 ≤ b.slotMapping n → ∀ h < b.Hk, tokenAddress b c.blockSize n h ≠ address) :
    c'.byte address = c.byte address := by
  rw [storeTurboquantKv_eq fits] at ran
  rw [← Except.ok.inj ran]
  apply scatter_miss
  intro r valid
  obtain ⟨lt, nonneg⟩ := mem_validRows.mp valid
  exact other (r / b.Hk) (Nat.div_lt_of_lt_mul (by rw [Nat.mul_comm]; exact lt)) nonneg (r % b.Hk)
    (mod_lt r fits.heads)

end

end

end

/-! ### Through the block table -/

variable {req pos : Nat} {t : BlockTable} {c : KvCache}

theorem slotFlat_row {allocLen : Nat} {rs : List (List UInt8)}
    (ran : slotFlat c t allocLen = .ok rs) (request : req < t.rows)
    (position : pos < allocLen) (head : h < c.numKvHeads) : ∃ row, gatherSlot c t req pos h = .ok row ∧
      rs[(req * allocLen + pos) * c.numKvHeads + h]? = some row := by
  obtain ⟨pairInside, request', position'⟩ := flat_index request position
  obtain ⟨lt, pair, head'⟩ := flat_index pairInside head
  obtain ⟨row, gathered, found⟩ := mapM_getElem ran (getElem?_range lt)
  rw [pair, request', position', head'] at gathered
  exact ⟨row, gathered, found⟩

def Maps (table : BlockTable) (blockSize req pos : Nat) (slot : Int) : Prop :=
  req < table.rows ∧ pos / blockSize < table.cols ∧
    table.entry req (pos / blockSize) = slot / blockSize ∧ pos % blockSize = slot.toNat % blockSize

instance (table : BlockTable) (blockSize req pos : Nat) (slot : Int) :
    Decidable (Maps table blockSize req pos slot) :=
  inferInstanceAs (Decidable (_ ∧ _ ∧ _ ∧ _))

theorem gatherSlot_mapped {slot : Int} (nonneg : 0 ≤ slot)
    (range : slot < c.numBlocks * c.blockSize) (maps : Maps t c.blockSize req pos slot) :
    gatherSlot c t req pos h =
      .ok (c.row (slot.toNat / c.blockSize, slot.toNat % c.blockSize, h)) := by
  obtain ⟨-, page, entry, offset⟩ := maps
  obtain ⟨s, rfl⟩ := Int.eq_ofNat_of_zero_le nonneg
  have small : s < c.numBlocks * c.blockSize := by exact_mod_cast range
  have block : s / c.blockSize < c.numBlocks := Nat.div_lt_of_lt_mul (by rw [Nat.mul_comm]; exact small)
  have unclamped : min (pos / c.blockSize) (t.cols - 1) = pos / c.blockSize :=
    min_eq_left (le_sub_one_of_lt page)
  have wrapped : wrapIndex (((s / c.blockSize : Nat)) : Int) c.numBlocks = .ok (s / c.blockSize) := by
    rw [wrapIndex, if_pos ⟨Int.natCast_nonneg _, by exact_mod_cast block⟩, Int.toNat_natCast]
  rw [gatherSlot, if_neg (ne_of_gt (zero_lt_of_lt page))]
  simp only [unclamped, entry, Int.toNat_natCast, offset]
  rw [← Int.natCast_ediv, wrapped]
  rfl

section
variable {α : Type} [Field α] [LinearOrder α]

/-- After a store, the key half and the value half that are cut out of a slot reached through any
block table unpack to the stored indices and norm bits. The halves fill the slot exactly, and every
slot that belongs to no token with a non-negative slot number is unchanged. -/
theorem storeTurboquantKv_roundTrip (q : Quantizer α) (b : KvBatch α) (c : KvCache) (fits : StoreFits q b c) :
    ∃ c', storeTurboquantKv q b c = .ok c' ∧
      (∀ n < b.N, 0 ≤ b.slotMapping n → ∀ h < b.Hk, ∀ (table : BlockTable) (req pos : Nat),
        Maps table c'.blockSize req pos (b.slotMapping n) →
        ∃ row, gatherSlot c' table req pos h = .ok row ∧ row.length = computePaperSlotSize b.D ∧
          (∀ allocLen rows, pos < allocLen → slotFlat c' table allocLen = .ok rows →
            rows[(req * allocLen + pos) * c'.numKvHeads + h]? = some row) ∧
          unpackHalf b.D 0 row = .ok (q.indices (b.keyRow n h), q.normBits (b.keyRow n h)) ∧
          unpackHalf b.D (ceilBytes (b.D * mseBits) + 2) row =
            .ok (q.indices (b.valueRow n h), q.normBits (b.valueRow n h))) ∧
      (ceilBytes (b.D * mseBits) + 2) + (ceilBytes (b.D * mseBits) + 2) = computePaperSlotSize b.D ∧
      (∀ address, (∀ n < b.N, 0 ≤ b.slotMapping n → ∀ h < b.Hk, tokenAddress b c.blockSize n h ≠ address) →
        c'.byte address = c.byte address) := by
  obtain ⟨c', ran, blocks, blockSize, heads⟩ := storeTurboquantKv_dims fits
  refine ⟨c', ran, ?_, ?_, fun address other => stored_frame fits ran other⟩
  · intro n token nonneg h head table req pos maps
    have range := fits.inRange n token nonneg
    rw [← blocks, ← blockSize] at range
    have gathered := gatherSlot_mapped (h := h) nonneg range maps
    have row := stored_row fits ran token nonneg head
    rw [tokenAddress, ← blockSize] at row
    rw [row] at gathered
    have keyLength := halfBytes_length q (b.keyRow n h)
    have valueLength := halfBytes_length q (b.valueRow n h)
    rw [keyRow_length] at keyLength
    rw [valueRow_length] at valueLength
    refine ⟨_, gathered, ?_, ?_, ?_, ?_⟩
    · rw [length_append, keyLength, valueLength, computePaperSlotSize_even fits.even]
    · intro allocLen rows position flat
      obtain ⟨row', gathered', found⟩ :=
        slotFlat_row flat maps.1 position (heads ▸ head.trans_le fits.cacheHeads)
      rw [gathered] at gathered'
      exact Except.ok.inj gathered' ▸ found
    · exact unpackHalf_halfBytes q fits.table (keyRow_length n h) fits.even [] _ rfl
    · have place : (halfBytes q (b.keyRow n h)).length = ceilBytes (b.D * mseBits) + 2 := by
        rw [keyLength, mse_bytes fits.even]
      have read := unpackHalf_halfBytes q fits.table (valueRow_length n h) fits.even _ [] place
      rwa [append_nil] at read
  · rw [mse_bytes fits.even, computePaperSlotSize_even fits.even]

end

def signQuantizer : Quantizer ℚ where
  pi := fun i j => if i = j then 1 else 0
  centroids := [-1, 1]
  midpoints := [0]
  norm := fun _ => 1
  toFp16 := fun _ => 0xBC00

def paddedBatch : KvBatch ℚ where
  N := 2
  Hk := 1
  D := 2
  key := fun n _ d => n + d
  value := fun _ _ d => -d
  slotMapping := fun n => if n = 0 then 6 else -1

/-- Slot 6 of a cache with blocks of four, reached as position 2 of a request that owns block 1. -/
theorem storeTurboquantKv_roundTrip_padded :
    ∃ c', storeTurboquantKv signQuantizer paddedBatch ⟨2, 4, 1, 6, fun _ _ => 0⟩ = .ok c' ∧
      ∃ row, gatherSlot c' ⟨1, 1, fun _ _ => 1⟩ 0 2 0 = .ok row ∧
        unpackHalf 2 0 row = .ok (signQuantizer.indices (paddedBatch.keyRow 0 0), 0xBC00) := by
  obtain ⟨c', ran, slots, -, -⟩ := storeTurboquantKv_roundTrip signQuantizer paddedBatch ⟨2, 4, 1,
    6, fun _ _ => 0⟩
    { tokens := by decide, heads := by decide, dim := by decide, even := by decide, table := by decide,
      cacheHeads := by decide, slotSize := by decide,
      inRange := by decide, distinct := by decide }
  have blockSize : c'.blockSize = 4 := by cases ran; rfl
  obtain ⟨row, gathered, -, -, key, -⟩ := slots 0 (by decide) (by decide) 0 (by decide) ⟨1, 1,
    fun _ _ => 1⟩ 0 2 (by rw [blockSize]; decide)
  exact ⟨c', ran, row, gathered, key⟩

end TurboQuant.Ascend
