import Mathlib.Algebra.BigOperators.Fin
import Mathlib.Tactic.Ring
import TurboQuant.Lib.Outcome
import TurboQuant.Lib.Striping

/-!
Context parallelism on Ascend: the slots a rank stores positions in, and the local lengths the
attention is given.
-/

namespace TurboQuant.Ascend.ContextParallel
open Outcome Striping List Nat

inductive BlockTableError where
  | indexOutOfRange
  | kernelSizeAssertion
  deriving DecidableEq, Repr

structure CpConfig where
  pcpWorldSize : Nat
  dcpWorldSize : Nat
  blockSize : Nat
  cpKvCacheInterleaveSize : Nat
  kernelSizes : Option (List Nat)
  maxNumBlocksPerReq : Nat
  blocksPerPhysBlock : Nat
  pcp_pos : 0 < pcpWorldSize
  dcp_pos : 0 < dcpWorldSize
  block_pos : 0 < blockSize
  interleave_pos : 0 < cpKvCacheInterleaveSize

structure BlockTable extends CpConfig where
  pcpRank : Nat
  dcpRank : Nat
  /-- The ravelled table. -/
  blockTable : List Nat

namespace BlockTable
variable (t : BlockTable)

def worldSize : Nat := t.dcpWorldSize * t.pcpWorldSize

def currentRank : Nat := t.dcpWorldSize * t.pcpRank + t.dcpRank

def requestBlock (req j : Nat) : Option Nat :=
  t.blockTable[req * t.maxNumBlocksPerReq * t.blocksPerPhysBlock + j]?

/-- One entry of `slot_mapping`; `none` is -1. -/
def slot (req position : Nat) : Except BlockTableError (Option Nat) :=
  if 1 < t.dcpWorldSize * t.pcpWorldSize then
    let virtualBlockSize := t.blockSize * t.dcpWorldSize * t.pcpWorldSize
    match t.requestBlock req (position / virtualBlockSize) with
    | none => .error .indexOutOfRange
    | some blockNumber =>
      let virtualBlockOffset := position % virtualBlockSize
      let blockOffset := virtualBlockOffset / (t.dcpWorldSize * t.pcpWorldSize * t.cpKvCacheInterleaveSize) *
        t.cpKvCacheInterleaveSize + virtualBlockOffset % t.cpKvCacheInterleaveSize
      .ok (if virtualBlockOffset / t.cpKvCacheInterleaveSize % (t.dcpWorldSize * t.pcpWorldSize) =
          t.currentRank
        then some (blockNumber * t.blockSize + blockOffset) else none)
  else if t.kernelSizes.bind (·.head?) ≠ some t.blockSize then .error .kernelSizeAssertion
  else
    match t.requestBlock req (position / t.blockSize) with
    | none => .error .indexOutOfRange
    | some blockNumber => .ok (some (blockNumber * t.blockSize + position % t.blockSize))

def computeSlotMappingDraft (reqIndices positions : List Nat) : Except BlockTableError (List (Option Nat)) :=
  (reqIndices.zip positions).mapM fun entry => t.slot entry.1 entry.2

end BlockTable

/-- The entry of `_get_cp_local_seq_lens` for a sequence and a rank. The clip at zero is the
truncated difference. -/
def getCpLocalSeqLen (seqLen pcpWorldSize dcpWorldSize cpKvCacheInterleaveSize pcpRank dcpRank : Nat) : Nat :=
  let totalWorldSize := pcpWorldSize * dcpWorldSize
  let base := seqLen / cpKvCacheInterleaveSize / totalWorldSize * cpKvCacheInterleaveSize
  let remainder := seqLen - base * totalWorldSize
  base + min (remainder - (pcpRank * dcpWorldSize + dcpRank) * cpKvCacheInterleaveSize) cpKvCacheInterleaveSize

def storedPositions (slots : List (Option Nat)) : List Nat := (range slots.length).filter fun p =>
    (slots.getD p none).isSome

/-! ### The two formulas -/

section
variable {n pcp dcp run i j : Nat} (lt : i * dcp + j < pcp * dcp) (several : 0 < run)
include lt several

theorem lt_getCpLocalSeqLen (k : Nat) :
    k < getCpLocalSeqLen n pcp dcp run i j ↔ place (pcp * dcp) (i * dcp + j) run k < n := by
  unfold getCpLocalSeqLen place
  generalize pcp * dcp = size at lt ⊢
  generalize i * dcp + j = r at lt ⊢
  dsimp only
  have low := mod_lt k several
  have lowN := mod_lt n several
  have rankN := mod_lt (n / run) (zero_lt_of_lt lt)
  have split : n = (n / run / size * size + n / run % size) * run + n % run := by
    rw [div_add_mod', div_add_mod']
  have rest : n - n / run / size * run * size - r * run = n / run % size * run + n % run - r * run := by
    have whole : (n / run / size * size + n / run % size) * run = n / run / size * run * size + n /
      run % size * run := by ring
    omega
  -- how many items of its last, incomplete round the rank has
  have last : k % run < min (n / run % size * run + n % run - r * run) run ↔
      r < n / run % size ∨ r = n / run % size ∧ k % run < n % run := by
    rw [lt_min_iff, and_iff_left low, Nat.lt_sub_iff_add_lt', lex_lt low lowN.le]
  have left := (Iff.of_eq (congrArg (· <
    n / run / size * run + min (n / run % size * run + n % run - r * run) run)
    (div_add_mod' k run).symm)).trans (lex_lt low (min_le_right _ _))
  have right := (Iff.of_eq (congrArg ((k / run * size + r) * run + k % run < ·) split)).trans
    (lex_lt low lowN.le)
  rw [rest, left, right, lex_lt lt rankN.le, last]
  have cancel : k / run * size + r = n / run / size * size + n / run % size ↔
      k / run = n / run / size ∧ r = n / run % size := by
    constructor
    · intro same
      have rounds := congrArg (· / size) same
      have ranks := congrArg (· % size) same
      simp only [mul_add_mod', mod_eq_of_lt lt, mod_mod] at ranks
      simp only [mul_comm _ size, mul_add_div (zero_lt_of_lt lt), div_eq_of_lt lt,
        div_eq_of_lt rankN, add_zero] at rounds
      exact ⟨rounds, ranks⟩
    · rintro ⟨rounds, ranks⟩
      rw [rounds, ← ranks]
  rw [cancel, or_assoc, and_assoc, ← and_or_left]

theorem local_positions : (range n).filter (· / run % (pcp * dcp) = i * dcp + j) =
      (range (getCpLocalSeqLen n pcp dcp run i j)).map (place (pcp * dcp) (i * dcp + j) run) := by
  refine filter_range_eq_map (strictMono_run lt several) fun p => ?_
  simp only [decide_eq_true_eq, lt_getCpLocalSeqLen lt several]
  constructor
  · rintro ⟨below, here⟩
    have same := exists_place several here
    exact ⟨_, same.symm ▸ below, same⟩
  · rintro ⟨k, below, rfl⟩
    exact ⟨below, place_rank lt several k⟩

end

namespace BlockTable
variable {t : BlockTable} {req k n p b : Nat} (divides : t.cpKvCacheInterleaveSize ∣ t.blockSize)
  (asserted : 1 < t.worldSize ∨ t.kernelSizes.bind (·.head?) = some t.blockSize)
    (lt : t.currentRank < t.worldSize)
include divides asserted lt

theorem slot_eq (found : t.requestBlock req (p / (t.blockSize * t.worldSize)) = some b) :
    t.slot req p = .ok (if p / t.cpKvCacheInterleaveSize % t.worldSize = t.currentRank then
      some (b * t.blockSize + (p / t.cpKvCacheInterleaveSize / t.worldSize %
        (t.blockSize / t.cpKvCacheInterleaveSize) *
        t.cpKvCacheInterleaveSize + p % t.cpKvCacheInterleaveSize)) else none) := by
  obtain ⟨count, size⟩ := divides
  have ratio : t.blockSize / t.cpKvCacheInterleaveSize = count := by
    rw [size, Nat.mul_div_cancel_left _ t.interleave_pos]
  have world : t.dcpWorldSize * t.pcpWorldSize = t.worldSize := rfl
  rw [slot, ratio, mul_assoc t.blockSize, world]
  split
  · simp only [found]
    simp only [size, virtual_rank, virtual_round, virtual_offset]
  · rename_i single
    have one : t.worldSize = 1 := le_antisymm (not_lt.mp single) (mul_pos t.dcp_pos t.pcp_pos)
    rw [one, mul_one] at found
    rw [if_neg (not_not.mpr (asserted.resolve_left single)), found, one, Nat.mod_one, Nat.div_one,
      if_pos (by omega), size, mod_mul]
    simp only [add_comm, mul_comm]

theorem slot_place (found : t.requestBlock req (k / t.blockSize) = some b) :
    t.slot req (place t.worldSize t.currentRank t.cpKvCacheInterleaveSize k) =
      .ok (some (b * t.blockSize + k % t.blockSize)) := by
  have several := t.interleave_pos
  obtain ⟨count, size⟩ := id divides
  rw [size, ← place_virtual lt several, ← size] at found
  rw [slot_eq divides asserted lt found, if_pos (place_rank lt several k), place_round lt several,
    place_offset, size,
    Nat.mul_div_cancel_left _ several, Nat.mod_mul, Nat.add_comm (_ * _) (k % _), Nat.mul_comm (_ % count)]

omit divides asserted in
theorem stored_eq (n : Nat) : (range n).filter (· / t.cpKvCacheInterleaveSize % t.worldSize = t.currentRank) =
    (range (getCpLocalSeqLen n t.pcpWorldSize t.dcpWorldSize t.cpKvCacheInterleaveSize t.pcpRank
      t.dcpRank)).map (place t.worldSize t.currentRank t.cpKvCacheInterleaveSize) := by
  unfold worldSize currentRank at lt ⊢
  rw [mul_comm t.dcpWorldSize t.pcpWorldSize, mul_comm t.dcpWorldSize t.pcpRank] at lt ⊢
  exact local_positions lt t.interleave_pos

theorem computeSlotMappingDraft_ok (enough : ∀ q, q * (t.blockSize * t.worldSize) < n →
    (t.requestBlock req q).isSome) :
    ∃ ss, t.computeSlotMappingDraft (replicate n req) (range n) = .ok ss ∧
      storedPositions ss = (range n).filter (· / t.cpKvCacheInterleaveSize % t.worldSize = t.currentRank) ∧
      ∀ k p, (storedPositions ss)[k]? = some p →
        ∃ b, t.requestBlock req (k / t.blockSize) = some b ∧
          ss[p]? = some (some (b * t.blockSize + k % t.blockSize)) := by
  have each : ∀ p < n, ∃ b, t.slot req p =
      .ok (if p / t.cpKvCacheInterleaveSize % t.worldSize = t.currentRank then some b else none) := by
    intro p below
    obtain ⟨b, found⟩ := Option.isSome_iff_exists.mp (enough _ ((div_mul_le_self p _).trans_lt below))
    exact ⟨_, slot_eq divides asserted lt found⟩
  choose! b mapped using each
  have zipped : (replicate n req).zip (range n) = (range n).map (req, ·) := ext_getElem (by simp) (by simp)
  have stored : storedPositions ((range n).map fun p =>
      if p / t.cpKvCacheInterleaveSize % t.worldSize = t.currentRank then some (b p) else none) =
      (range n).filter (· / t.cpKvCacheInterleaveSize % t.worldSize = t.currentRank) := by
    simp only [storedPositions, length_map, length_range]
    refine filter_congr fun p mem => ?_
    simp only [getD_eq_getElem?_getD, getElem?_map, getElem?_range (mem_range.mp mem),
      Option.map_some, Option.getD_some]
    split <;> simp_all
  refine ⟨_, ?_, stored, fun k p at_k => ?_⟩
  · rw [computeSlotMappingDraft, zipped, mapM_map]
    exact mapM_ok (range n) fun p mem => mapped p (mem_range.mp mem)
  rw [stored] at at_k
  have below := mem_range.mp (mem_of_mem_filter (mem_of_getElem? at_k))
  rw [stored_eq lt, getElem?_map, Option.map_eq_some_iff] at at_k
  obtain ⟨k', at_k, rfl⟩ := at_k
  obtain ⟨_, rfl⟩ := List.getElem_of_getElem? at_k
  rw [getElem_range] at below ⊢
  obtain ⟨count, size⟩ := id divides
  have reach := div_mul_le_self (place t.worldSize t.currentRank t.cpKvCacheInterleaveSize k)
    (t.blockSize * t.worldSize)
  rw [size, place_virtual lt t.interleave_pos, ← size] at reach
  obtain ⟨c, found⟩ := Option.isSome_iff_exists.mp (enough _ (reach.trans_lt below))
  refine ⟨c, found, ?_⟩
  rw [getElem?_map, getElem?_range below]
  exact congrArg some (Except.ok.inj ((mapped _ below).symm.trans (slot_place divides asserted lt found)))

end BlockTable

namespace CpConfig
variable (c : CpConfig) (tables : Nat → Nat → List Nat) {i j : Nat}

def rankTable (pcpRank dcpRank : Nat) : BlockTable := ⟨c, pcpRank, dcpRank, tables pcpRank dcpRank⟩

theorem rankTable_worldSize : (c.rankTable tables i j).worldSize =
    c.pcpWorldSize * c.dcpWorldSize := mul_comm _ _

theorem rankTable_currentRank : (c.rankTable tables i j).currentRank = i * c.dcpWorldSize + j := by
  rw [BlockTable.currentRank, rankTable, mul_comm]

theorem currentRank_lt (pcp : i < c.pcpWorldSize) (dcp : j < c.dcpWorldSize) :
    (c.rankTable tables i j).currentRank < (c.rankTable tables i j).worldSize := by
  have next : (i + 1) * c.dcpWorldSize ≤ c.pcpWorldSize * c.dcpWorldSize := mul_le_mul_right _ pcp
  rw [rankTable_worldSize, rankTable_currentRank]
  rw [add_mul] at next
  omega

end CpConfig

/-- For every interleave size that divides the block size: each position is stored on one rank, the
ranks store as many positions as their local lengths say, and the `k`-th local position is in block
`k / blockSize` at `k % blockSize`. -/
theorem storage_agrees (c : CpConfig) (divides : c.cpKvCacheInterleaveSize ∣ c.blockSize)
    (asserted : 1 < c.dcpWorldSize * c.pcpWorldSize ∨ c.kernelSizes.bind (·.head?) = some c.blockSize)
    (tables : Nat → Nat → List Nat) (req n : Nat)
    (enough : ∀ i j q, q * (c.blockSize * (c.dcpWorldSize * c.pcpWorldSize)) < n →
      ((c.rankTable tables i j).requestBlock req q).isSome) : ∃ slots : Nat → Nat → List (Option Nat),
      (∀ i < c.pcpWorldSize, ∀ j < c.dcpWorldSize,
        (c.rankTable tables i j).computeSlotMappingDraft (replicate n req) (range n) = .ok (slots i j)) ∧
      (∀ p < n, ∃! rank : Nat × Nat, rank.1 < c.pcpWorldSize ∧ rank.2 < c.dcpWorldSize ∧
        p ∈ storedPositions (slots rank.1 rank.2)) ∧ ∀ i < c.pcpWorldSize, ∀ j < c.dcpWorldSize,
        (storedPositions (slots i j)).length =
          getCpLocalSeqLen n c.pcpWorldSize c.dcpWorldSize c.cpKvCacheInterleaveSize i j ∧
        ∀ k p, (storedPositions (slots i j))[k]? = some p →
          ∃ b, (c.rankTable tables i j).requestBlock req (k / c.blockSize) = some b ∧
            (slots i j)[p]? = some (some (b * c.blockSize + k % c.blockSize)) := by
  have each := fun i j (pcp : i < c.pcpWorldSize) (dcp : j < c.dcpWorldSize) =>
    BlockTable.computeSlotMappingDraft_ok (t := c.rankTable tables i j) divides asserted
      (c.currentRank_lt tables pcp dcp) (enough i j)
  choose! slots ran stored local_ using each
  refine ⟨slots, fun i pcp j dcp => ran i j pcp dcp, fun p below => ?_, fun i pcp j dcp =>
    ⟨?_, local_ i j pcp dcp⟩⟩
  · have stored : ∀ i < c.pcpWorldSize, ∀ j < c.dcpWorldSize, (p ∈ storedPositions (slots i j) ↔
        p / c.cpKvCacheInterleaveSize % (c.pcpWorldSize * c.dcpWorldSize) = i * c.dcpWorldSize + j) := by
      intro i pcp j dcp
      rw [stored i j pcp dcp, mem_filter, mem_range, and_iff_right below, decide_eq_true_eq,
        c.rankTable_worldSize, c.rankTable_currentRank]
      rfl
    have bound := mod_lt (p / c.cpKvCacheInterleaveSize) (mul_pos c.pcp_pos c.dcp_pos)
    generalize p / c.cpKvCacheInterleaveSize % (c.pcpWorldSize * c.dcpWorldSize) = r at stored bound
    have pcp : r / c.dcpWorldSize < c.pcpWorldSize := (div_lt_iff_lt_mul c.dcp_pos).mpr bound
    refine ⟨(r / c.dcpWorldSize, r % c.dcpWorldSize), ⟨pcp, mod_lt _ c.dcp_pos, ?_⟩, ?_⟩
    · exact (stored _ pcp _ (mod_lt _ c.dcp_pos)).mpr (div_add_mod' _ _).symm
    · rintro ⟨i, j⟩ ⟨pcp, dcp, member⟩
      obtain rfl := (stored i pcp j dcp).mp member
      simp [mul_comm i, mul_add_div c.dcp_pos, div_eq_of_lt dcp, mod_eq_of_lt dcp]
  · rw [stored i j pcp dcp, BlockTable.stored_eq (c.currentRank_lt tables pcp dcp), length_map, length_range]
    rfl

def fourRanks : CpConfig where
  pcpWorldSize := 2
  dcpWorldSize := 2
  blockSize := 4
  cpKvCacheInterleaveSize := 2
  kernelSizes := none
  maxNumBlocksPerReq := 2
  blocksPerPhysBlock := 1
  pcp_pos := Nat.two_pos
  dcp_pos := Nat.two_pos
  block_pos := Nat.lt_add_left 2 Nat.two_pos
  interleave_pos := Nat.two_pos

theorem storage_agrees_fourRanks : ∃ slots : Nat → Nat → List (Option Nat),
    (fourRanks.rankTable (fun _ _ => [7, 9]) 1 0).computeSlotMappingDraft (replicate 21 0)
      (range 21) = .ok (slots 1 0) ∧
      (storedPositions (slots 1 0)).length = getCpLocalSeqLen 21 2 2 2 1 0 := by
  obtain ⟨slots, ran, -, agrees⟩ := storage_agrees fourRanks ⟨2, rfl⟩ (.inl (by decide))
    (fun _ _ => [7, 9]) 0 21 (by
    intro i j q below
    have few : q * 16 < 21 := below
    rcases q with _ | _ | q
    · rfl
    · rfl
    · omega)
  exact ⟨slots, ran 1 (by decide) 0 (by decide), (agrees 1 (by decide) 0 (by decide)).1⟩

namespace CpConfig
variable (c : CpConfig) (n : Nat)

def localSeqLen (i : Fin c.pcpWorldSize) (j : Fin c.dcpWorldSize) : Nat :=
  getCpLocalSeqLen n c.pcpWorldSize c.dcpWorldSize c.cpKvCacheInterleaveSize i j

theorem rank_lt (i : Fin c.pcpWorldSize) (j : Fin c.dcpWorldSize) :
    i * c.dcpWorldSize + j < c.pcpWorldSize * c.dcpWorldSize := by
  simpa only [rankTable_worldSize, rankTable_currentRank] using c.currentRank_lt (fun _ _ => []) i.isLt j.isLt

/-- The local lengths add up to the sequence, and no two of them differ by more than an interleave
size. -/
theorem localSeqLen_balanced : ∑ i, ∑ j, c.localSeqLen n i j = n ∧
    ∀ i j i' j', c.localSeqLen n i j ≤ c.localSeqLen n i' j' + c.cpKvCacheInterleaveSize := by
  have several := c.interleave_pos
  constructor
  · let rank (p : Nat) : Fin (c.pcpWorldSize * c.dcpWorldSize) :=
      ⟨p / c.cpKvCacheInterleaveSize % _, mod_lt _ (mul_pos c.pcp_pos c.dcp_pos)⟩
    have split := Finset.card_eq_sum_card_fiberwise (s := Finset.range n) (t := Finset.univ)
      (f := fun p => finProdFinEquiv.symm (rank p)) (by simp [Set.MapsTo])
    have fibre : ∀ i j, ((Finset.range n).filter fun p => finProdFinEquiv.symm (rank p) = (i, j)).card =
        c.localSeqLen n i j := by
      intro i j
      have here := congrArg length (local_positions (n := n) (c.rank_lt i j) several)
      rw [length_map, length_range] at here
      rw [localSeqLen, ← here]
      simp only [Equiv.symm_apply_eq, Fin.ext_iff, finProdFinEquiv_apply_val, rank, add_comm,
        mul_comm c.dcpWorldSize]
      rfl
    rw [Finset.card_range, Fintype.sum_prod_type] at split
    simp only [fibre] at split
    exact split.symm
  · intro i j i' j'
    by_contra more
    have below := (lt_getCpLocalSeqLen (c.rank_lt i j) several _).mp (not_le.mp more)
    have first := (place_le_next (c.rank_lt i' j') several _).trans_lt below
    exact lt_irrefl _ ((lt_getCpLocalSeqLen (c.rank_lt i' j') several _).mpr first)

end CpConfig

end TurboQuant.Ascend.ContextParallel
