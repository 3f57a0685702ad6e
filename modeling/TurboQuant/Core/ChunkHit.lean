import TurboQuant.Core.Release
import TurboQuant.Core.WindowHit

/-!
Chunked local attention: a token attends the positions of its own chunk up to itself.
-/

namespace TurboQuant.Core
open List Nat SingleTypeKVCacheManager

def chunkStart (chunkSize n : Nat) : Nat := n / chunkSize * chunkSize

def Attends (chunkSize p q : Nat) : Prop := chunkStart chunkSize p ≤ q ∧ q ≤ p

theorem chunkStart_le (c n : Nat) : chunkStart c n ≤ n := div_mul_le_self _ _

theorem chunkStart_mono (c : Nat) {n p : Nat} (later : n ≤ p) : chunkStart c n ≤ chunkStart c p :=
  Nat.mul_le_mul_right _ (Nat.div_le_div_right later)

theorem chunkStart_eq_self {c n : Nat} : chunkStart c n = n ↔ c ∣ n := by
  constructor
  · intro same
    exact ⟨n / c, by rw [mul_comm]; exact same.symm⟩
  · exact Nat.div_mul_cancel

theorem chunkStart_eq {chunkSize n k : Nat} (pos : 0 < chunkSize)
    (first : chunkStart chunkSize n ≤ k) (last : k ≤ n) :
    chunkStart chunkSize k = chunkStart chunkSize n := by
  refine le_antisymm (chunkStart_mono chunkSize last) ?_
  have same : n / chunkSize ≤ k / chunkSize := (le_div_iff_mul_le pos).mpr first
  exact mul_le_mul_right _ same

namespace BlockPool

variable {pool bp : BlockPool} {hs : List BlockHash} {ids : List Nat}
  {maxLength chunkSize chunk c blockSize : Nat}

def startBlock (maxLength chunkSize blockSize : Nat) : Nat := chunkStart chunkSize maxLength / blockSize

section
variable (pool bp : BlockPool)

theorem chunkLoop_rows (ids : List Nat) {rounds i : Nat} (covered : i + rounds ≤ hs.length) :
    ∃ rows, bp.chunkLoop hs ids rounds i = .ok rows ∧ rows.length ≤ rounds ∧
      (∀ j < rows.length, rows[j]? = bp.rowAt hs ids (i + j)) ∧
      (rows.length < rounds → bp.rowAt hs ids (i + rows.length) = none) := by
  induction rounds generalizing i with
  | zero => exact ⟨[], rfl, le_refl 0, fun j none => absurd none (not_lt_zero j),
    fun none => absurd none (lt_irrefl 0)⟩
  | succ rounds ih =>
    have blockHash := getElem?_eq_getElem (show i < hs.length by omega)
    unfold chunkLoop
    rw [blockHash]
    dsimp only
    split
    · rename_i missing
      refine ⟨[], rfl, zero_le _, fun j none => absurd none (not_lt_zero j), fun _ => ?_⟩
      rwa [length_nil, add_zero, rowAt, blockHash]
    · rename_i cachedBlock found
      obtain ⟨rows, ran, length, cached, stopped⟩ := ih (show i + 1 + rounds ≤ hs.length by omega)
      rw [ran]
      refine ⟨cachedBlock :: rows, rfl, succ_le_succ length, fun j lt => ?_, fun short => ?_⟩
      · cases j with
        | zero =>
          rw [add_zero, rowAt, blockHash]
          exact found.symm
        | succ j =>
          rw [getElem?_cons_succ, cached j (lt_of_succ_lt_succ lt)]
          congr 1
          omega
      · rw [length_cons, show i + (rows.length + 1) = i + 1 + rows.length by omega]
        exact stopped (lt_of_succ_lt_succ short)

structure ChunkRows (blockHashes : List BlockHash) (kvCacheGroupIds : List Nat)
    (maxLength chunkSize blockSize hits : Nat) (rows : List (List Nat)) : Prop where
  length : rows.length = startBlock maxLength chunkSize blockSize + hits
  inside : startBlock maxLength chunkSize blockSize + hits ≤ maxLength / blockSize
  filled : pool.Filled blockHashes kvCacheGroupIds (startBlock maxLength chunkSize blockSize)
    (startBlock maxLength chunkSize blockSize + hits) rows
  stopped : startBlock maxLength chunkSize blockSize + hits < maxLength / blockSize →
    pool.rowAt blockHashes kvCacheGroupIds (startBlock maxLength chunkSize blockSize + hits) = none

theorem findChunkedLocalHit_chunkRows (ids : List Nat) (c : Nat)
    (covered : maxLength / blockSize ≤ hs.length) :
    ∃ hits rows, bp.findChunkedLocalHit hs maxLength ids c blockSize false blockSize = .ok rows ∧
      bp.ChunkRows hs ids maxLength c blockSize hits rows := by
  have start : startBlock maxLength c blockSize ≤ maxLength / blockSize :=
    Nat.div_le_div_right (chunkStart_le c maxLength)
  obtain ⟨hits, ran, length, cached, stopped⟩ := chunkLoop_rows bp ids
    (show startBlock maxLength c blockSize + (maxLength / blockSize - startBlock maxLength c blockSize) ≤
      hs.length by omega)
  have reads : (if maxLength > 0 then maxLength / c * c else 0) / blockSize =
      startBlock maxLength c blockSize := by
    split
    · rfl
    · rename_i none
      simp [startBlock, chunkStart, Nat.eq_zero_of_not_pos none]
  refine ⟨hits.length, replicate (startBlock maxLength c blockSize) (bp.nullRow ids) ++ hits, ?_, ?_⟩
  · unfold findChunkedLocalHit
    rw [if_neg Bool.false_ne_true, if_neg (not_not.mpr rfl)]
    dsimp only
    rw [reads, ran]
    rfl
  · refine ⟨by rw [length_append, length_replicate], by omega, fun j below => ?_, fun short => stopped (by omega)⟩
    split
    · rename_i early
      rw [getElem?_append_left (by rw [length_replicate]; exact early), getElem?_replicate, if_pos early]
    · rename_i late
      rw [getElem?_append_right (by rw [length_replicate]; omega), length_replicate, cached _ (by omega)]
      congr 1
      omega

/-- Whatever a token from the end of the hit on attends before the end is in real blocks. -/
def SoundChunkHit (chunkSize blockSize : Nat) (rows : List (List Nat)) : Prop :=
  ∀ p q, rows.length * blockSize ≤ p → Attends chunkSize p q → q < rows.length * blockSize →
    ∃ row, rows[q / blockSize]? = some row ∧ ∀ b ∈ row, b ≠ pool.nullBlock

/-- The chunk boundary of the first block that is read is its start, or the block is cached. -/
def ChunkStartCached (blockHashes : List BlockHash) (kvCacheGroupIds : List Nat)
    (maxLength chunkSize blockSize : Nat) : Prop :=
  chunkSize ∣ startBlock maxLength chunkSize blockSize * blockSize ∨
    startBlock maxLength chunkSize blockSize < maxLength / blockSize ∧
      (pool.rowAt blockHashes kvCacheGroupIds (startBlock maxLength chunkSize blockSize)).isSome = true

end

theorem rowAt_real (clean : bp.NullUncached) {i : Nat} {row : List Nat}
    (found : bp.rowAt hs ids i = some row) : ∀ b ∈ row, b ≠ bp.nullBlock := by
  obtain ⟨blockHash, -, cached⟩ := Option.bind_eq_some_iff.mp found
  rintro b member rfl
  obtain ⟨g, here⟩ := getElem?_of_mem member
  obtain ⟨groupId, -, registered⟩ := getCachedBlock_registered cached here
  exact clean _ registered

section
variable {hits : Nat} {rows : List (List Nat)}
  (found : bp.ChunkRows hs ids maxLength c blockSize hits rows)
include found

theorem ChunkRows.cached_of_pos (some : 0 < hits) : startBlock maxLength c blockSize < maxLength / blockSize ∧
      (bp.rowAt hs ids (startBlock maxLength c blockSize)).isSome = true := by
  have inside := found.inside
  have length := found.length
  have first := found.filled (startBlock maxLength c blockSize) (by omega)
  rw [if_neg (lt_irrefl _), getElem?_eq_getElem (by omega)] at first
  refine ⟨by omega, ?_⟩
  rw [← first]
  rfl

section
variable (pos : 0 < blockSize) (chunks : 0 < c)
include pos chunks

theorem ChunkRows.chunkStart_eq (some : 0 < hits) :
    chunkStart c (rows.length * blockSize) = chunkStart c maxLength := by
  have highest : chunkStart c maxLength < (startBlock maxLength c blockSize + 1) * blockSize :=
    lt_mul_of_div_lt (lt_succ_self _) pos
  rw [found.length]
  refine TurboQuant.Core.chunkStart_eq chunks (highest.le.trans (mul_le_mul_right _ (by omega))) ?_
  exact (le_div_iff_mul_le pos).mp found.inside

theorem soundChunkHit_of_startCached (clean : bp.NullUncached)
    (cached : bp.ChunkStartCached hs ids maxLength c blockSize) :
    bp.SoundChunkHit c blockSize rows := by
  intro p q later attends before
  have length := found.length
  have own : chunkStart c (rows.length * blockSize) ≤ q := (chunkStart_mono c later).trans attends.1
  have past : startBlock maxLength c blockSize ≤ q / blockSize := by
    rcases Nat.eq_zero_or_pos hits with rfl | some
    · rcases cached with divides | ⟨lt, here⟩
      · rw [length, add_zero] at own before
        rw [chunkStart_eq_self.mpr divides] at own
        omega
      · have missing : bp.rowAt hs ids (startBlock maxLength c blockSize) = none :=
          found.stopped lt
        rw [missing] at here
        cases here
    · rw [found.chunkStart_eq pos chunks some] at own
      exact Nat.div_le_div_right own
  have lt : q / blockSize < startBlock maxLength c blockSize + hits := by
    rw [← length]
    exact (div_lt_iff_lt_mul pos).mpr before
  have row := found.filled (q / blockSize) lt
  rw [if_neg (not_lt.mpr past), getElem?_eq_getElem (by omega)] at row
  exact ⟨_, getElem?_eq_getElem (by omega), rowAt_real clean row.symm⟩

theorem soundChunkHit_iff (clean : bp.NullUncached) (groups : ids ≠ []) : bp.SoundChunkHit c blockSize rows ↔
      bp.ChunkStartCached hs ids maxLength c blockSize := by
  refine ⟨fun sound => ?_, soundChunkHit_of_startCached found pos chunks clean⟩
  rcases Nat.eq_zero_or_pos hits with rfl | some
  · -- the hit ends where the first block that is read starts
    by_contra missing
    have ends : rows.length = startBlock maxLength c blockSize := found.length
    have inner : chunkStart c (rows.length * blockSize) < rows.length * blockSize := by
      refine lt_of_le_of_ne (chunkStart_le _ _) fun same => missing (.inl ?_)
      rw [← ends]
      exact chunkStart_eq_self.mp same
    obtain ⟨row, here, real⟩ := sound _ _ le_rfl ⟨le_rfl, chunkStart_le _ _⟩ inner
    have before : chunkStart c (rows.length * blockSize) / blockSize < startBlock maxLength c blockSize := by
      rw [← ends]
      exact (div_lt_iff_lt_mul pos).mpr inner
    have null := found.filled _ (lt_of_lt_of_le before (le_add_right _ 0))
    rw [if_pos before, here] at null
    obtain ⟨first, rest, rfl⟩ := exists_cons_of_ne_nil groups
    exact real bp.nullBlock (by rw [Option.some.inj null]; exact mem_cons_self) rfl
  · exact .inr (found.cached_of_pos some)

end

end

end BlockPool

/-- Tokens that are computed later never attend a block that is released as skipped. -/
def ReleasesUnattended (chunkSize : Nat) : Prop :=
  ∀ (m m' : SingleTypeKVCacheManager) (pool pool' : BlockPool) (requestId : String)
    (totalComputedTokens : Nat),
    (∃ positive, m.kvCacheSpec = .chunkedLocalAttention chunkSize positive) →
    m.removeSkippedBlocks pool requestId totalComputedTokens = .ok (m', pool') →
    (∀ other, other ≠ requestId → m'.getBlocks other = m.getBlocks other) ∧
      ∀ (i : Nat) b, (m.getBlocks requestId)[i]? = some b → (m'.getBlocks requestId)[i]? ≠ some b →
        ∀ p q, totalComputedTokens ≤ p → Attends chunkSize p q → q / m.blockSize ≠ i

theorem releasesUnattended (chunkSize : Nat) : ReleasesUnattended chunkSize := by
  rintro m m' bp pool' id totalComputedTokens ⟨pos, spec⟩ ran
  unfold removeSkippedBlocks at ran
  rw [spec] at ran
  obtain ⟨releases, -⟩ := removeSkippedBlocksBase_releases ran
  refine ⟨releases.others, fun i b at_ changed p q later attends block => ?_⟩
  rcases releases.table i b at_ with kept | ⟨-, outdated⟩
  · exact changed kept
  · rw [spec] at outdated
    have skipped : (i + 1) * m.blockSize ≤ chunkStart chunkSize totalComputedTokens := by
      have cast : ((i : Int) + 1) * m.blockSize ≤ (totalComputedTokens : Int) / chunkSize *
        chunkSize := outdated
      exact_mod_cast cast
    have reached : (i + 1) * m.blockSize ≤ q :=
      skipped.trans ((chunkStart_mono chunkSize later).trans attends.1)
    have inside := (le_div_iff_mul_le m.positive).mpr reached
    omega

/-- A hit of chunked local attention is sound iff the first block that is read starts a chunk or is
cached. -/
theorem findChunkedLocalHit_sound_iff (pool : BlockPool) (blockHashes : List BlockHash) (maxLength : Nat)
    (kvCacheGroupIds : List Nat) (chunkSize blockSize : Nat) (positive : 0 < blockSize)
    (chunks : 0 < chunkSize)
    (covered : maxLength / blockSize ≤ blockHashes.length) (clean : pool.NullUncached)
    (groups : kvCacheGroupIds ≠ []) :
    ∃ rows, pool.findChunkedLocalHit blockHashes maxLength kvCacheGroupIds chunkSize blockSize false
      blockSize = .ok rows ∧
      (pool.SoundChunkHit chunkSize blockSize rows ∧ ReleasesUnattended chunkSize ↔
        pool.ChunkStartCached blockHashes kvCacheGroupIds maxLength chunkSize blockSize) := by
  obtain ⟨hits, rows, ran, found⟩ := pool.findChunkedLocalHit_chunkRows kvCacheGroupIds chunkSize covered
  refine ⟨rows, ran, ?_⟩
  rw [and_iff_left (releasesUnattended chunkSize)]
  exact BlockPool.soundChunkHit_iff found positive chunks clean groups

theorem findChunkedLocalHit_sound_three :
    ∃ rows, BlockPool.threeBlocks.findChunkedLocalHit [[1], [2], [3]] 48 [0] 32 16 false 16 = .ok rows ∧
      (BlockPool.threeBlocks.SoundChunkHit 32 16 rows ∧ ReleasesUnattended 32 ↔
        BlockPool.threeBlocks.ChunkStartCached [[1], [2], [3]] [0] 48 32 16) :=
  findChunkedLocalHit_sound_iff BlockPool.threeBlocks [[1], [2], [3]] 48 [0] 32 16 (by decide)
    (by decide) (by decide) BlockPool.threeBlocks_clean (by decide)

/-- With chunks of six tokens and blocks of four, block 1 holds the start of the second chunk. It is
not cached, so the hit ends at token 4, which attends the null block. -/
theorem findChunkedLocalHit_unsound : BlockPool.threeBlocks.findChunkedLocalHit [[4], [5]] 8 [0] 6 4
      false 4 = .ok [[0]] ∧ ¬ BlockPool.threeBlocks.SoundChunkHit 6 4 [[0]] := by
  refine ⟨rfl, fun sound => ?_⟩
  obtain ⟨row, here, real⟩ := sound 4 0 (by decide) ⟨by decide, by decide⟩ (by decide)
  cases here
  exact real 0 mem_cons_self rfl

end TurboQuant.Core
