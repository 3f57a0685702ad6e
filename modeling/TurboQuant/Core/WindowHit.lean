import TurboQuant.Core.HybridLookup
import TurboQuant.Lib.WindowSearch

/-!
What the prefix lookup of a sliding-window group should return, and when it does.
-/

namespace TurboQuant.Core
open Outcome WindowSearch List Nat BlockHashToBlockMap

def windowBlocks (slidingWindow blockSize : Nat) : Nat := (slidingWindow - 1 + blockSize - 1) / blockSize

/-- Block `i` holds one of the last `slidingWindow - 1` tokens before token `k * blockSize`. -/
def Needed (slidingWindow blockSize k i : Nat) : Prop :=
  ∃ t, k * blockSize ≤ t + (slidingWindow - 1) ∧ t < k * blockSize ∧ t / blockSize = i

def eagleBlocks (useEagle : Bool) : Nat := if useEagle then 1 else 0

namespace BlockPool

def rowAt (pool : BlockPool) (blockHashes : List BlockHash) (kvCacheGroupIds : List Nat) (i : Nat) :
    Option (List Nat) :=
  blockHashes[i]?.bind fun blockHash => pool.getCachedBlock blockHash kvCacheGroupIds

def nullRow (pool : BlockPool) (kvCacheGroupIds : List Nat) : List Nat :=
  kvCacheGroupIds.map fun _ => pool.nullBlock

def NullUncached (pool : BlockPool) : Prop :=
  ∀ key, ¬ pool.cachedBlockHashToBlock.Registered key pool.nullBlock

section
variable (pool : BlockPool) (blockHashes : List BlockHash) (maxLength : Nat) (kvCacheGroupIds : List Nat)
  (slidingWindow blockSize : Nat) (useEagle : Bool) (alignmentTokens : Nat)

structure WindowHit (k : Nat) : Prop where
  aligned : alignmentTokens ∣ k * blockSize
  inside : (k + eagleBlocks useEagle) * blockSize ≤ maxLength
  cached : ∀ i, Needed slidingWindow blockSize k i → (pool.rowAt blockHashes kvCacheGroupIds i).isSome = true
  next : useEagle = true → (pool.rowAt blockHashes kvCacheGroupIds k).isSome = true

/-- The rows end at the longest hit, and a row is null exactly where its block is not needed. -/
structure LongestWindowHit (rows : List (List Nat)) : Prop where
  hit : rows ≠ [] →
    pool.WindowHit blockHashes maxLength kvCacheGroupIds slidingWindow blockSize useEagle
      alignmentTokens rows.length
  longest : ∀ k, pool.WindowHit blockHashes maxLength kvCacheGroupIds slidingWindow blockSize
    useEagle alignmentTokens k → k ≤ rows.length
  needed : ∀ i row, rows[i]? = some row → Needed slidingWindow blockSize rows.length i →
    pool.rowAt blockHashes kvCacheGroupIds i = some row
  null : ∀ i row, rows[i]? = some row →
    (row = pool.nullRow kvCacheGroupIds ↔ ¬ Needed slidingWindow blockSize rows.length i)

/-- With the eagle flag: the longest hit is not empty and shorter than the window, and the alignment
is coarser than a block. Without: no block is needed, and there is a hit. -/
def LosesWindowHit : Prop :=
  (∃ k, 0 < k ∧
    pool.WindowHit blockHashes maxLength kvCacheGroupIds slidingWindow blockSize useEagle alignmentTokens k) ∧
  ((useEagle = true ∧ ¬ alignmentTokens ∣ blockSize ∧ ∀ k,
      pool.WindowHit blockHashes maxLength kvCacheGroupIds slidingWindow blockSize useEagle alignmentTokens k →
        k < windowBlocks slidingWindow blockSize) ∨
    (useEagle = false ∧ slidingWindow = 1))

end

end BlockPool

/-! ### Needed blocks -/

section
variable {blockSize width : Nat} (pos : 0 < blockSize)
include pos

theorem lt_windowBlocks (width d : Nat) :
    d < windowBlocks width blockSize ↔ d * blockSize < width - 1 := by
  unfold windowBlocks
  rw [← succ_le_iff, le_div_iff_mul_le pos, succ_mul]
  omega

theorem needed_iff {k i : Nat} :
    Needed width blockSize k i ↔ k - windowBlocks width blockSize ≤ i ∧ i < k := by
  have far := lt_windowBlocks pos width (k - i - 1)
  have whole : i < k → k * blockSize = (i * blockSize + blockSize) + (k - i - 1) * blockSize := fun lt => by
    rw [← succ_mul, ← add_mul]
    congr 1
    omega
  constructor
  · rintro ⟨t, recent, before, b⟩
    have lt : i < k := b ▸ (div_lt_iff_lt_mul pos).mpr before
    have ends : t < i * blockSize + blockSize := by
      rw [← b, ← succ_mul, mul_comm]
      exact lt_mul_div_succ t pos
    omega
  · rintro ⟨first, lt⟩
    refine ⟨i * blockSize + (blockSize - 1), by omega, by omega, ?_⟩
    rw [mul_comm, mul_add_div pos, div_eq_of_lt (by omega), add_zero]

theorem ceilDiv_window (window : 0 < width) :
    ceilDiv ((width : Int) - 1) blockSize = (windowBlocks width blockSize : Int) := by
  have size : ((width - 1 : Nat) : Int) = (width : Int) - 1 := by omega
  rw [← size]
  have upper := lt_windowBlocks pos width (windowBlocks width blockSize)
  have lower := lt_windowBlocks pos width (windowBlocks width blockSize - 1)
  generalize windowBlocks width blockSize = n at upper lower
  apply Int.le_antisymm
  · have quotient : -(n : Int) ≤ -((width - 1 : Nat) : Int) / blockSize := by
      rw [Int.le_ediv_iff_mul_le (by omega), Int.neg_mul, ← Int.natCast_mul]
      omega
    unfold ceilDiv
    omega
  · rcases Nat.eq_zero_or_pos n with rfl | some
    · exact SingleTypeKVCacheManager.ceilDiv_nonneg (by omega) (by omega)
    · have quotient : -((width - 1 : Nat) : Int) / blockSize < -((n - 1 : Nat) : Int) := by
        rw [Int.ediv_lt_iff_lt_mul (by omega), Int.neg_mul, ← Int.natCast_mul]
        omega
      unfold ceilDiv
      omega

end

/-! ### The search -/

namespace BlockPool

variable {pool p : BlockPool} {hs : List BlockHash} {kvCacheGroupIds ids : List Nat}
  {rows rs : List (List Nat)}
  {l slidingWindow span blockSize alignmentTokens alignment al : Nat} {useEagle eg eagle : Bool}

section
variable (pool : BlockPool) (blockHashes : List BlockHash) (kvCacheGroupIds : List Nat)

def CachedAt (i : Nat) : Prop :=
  (pool.rowAt blockHashes kvCacheGroupIds i).isSome = true

abbrev SearchHit (blockSize alignmentTokens : Nat) (useEagle : Bool) (width size k : Nat) : Prop :=
  Hit (pool.CachedAt blockHashes kvCacheGroupIds) (alignmentTokens ∣ · * blockSize) width
    (eagleBlocks useEagle) size k

def Filled (low high : Nat) (rows : List (List Nat)) : Prop :=
  ∀ j < high, rows[j]? = if j < low then some (pool.nullRow kvCacheGroupIds)
    else pool.rowAt blockHashes kvCacheGroupIds j

end

variable {n : Nat}

theorem Filled.take {low high : Nat} (filled : p.Filled hs ids low high rs) (short : n ≤ high) :
    p.Filled hs ids low n (rs.take n) := by
  intro j lt
  rw [getElem?_take_of_lt lt]
  exact filled j (by omega)

variable {i : Nat} {row : List Nat}

theorem Filled.step (filled : p.Filled hs ids (i + 1) (i + 1 + n) rs)
    (length : i < rs.length) (found : p.rowAt hs ids i = some row) :
    p.Filled hs ids i (i + (n + 1)) (rs.set i row) := by
  intro j lt
  rw [getElem?_set]
  by_cases same : i = j
  · subst same
    rw [if_pos rfl, if_pos length, if_neg (lt_irrefl i), found]
  · rw [if_neg same, filled j (by omega)]
    exact if_congr (by omega) rfl rfl

theorem postPopBlocks_eq (useEagle : Bool) (i : Nat) :
    postPopBlocks useEagle i = i + 1 - eagleBlocks useEagle := by
  cases useEagle <;> rfl

theorem eagleBlocks_le (eagle : Bool) : eagleBlocks eagle ≤ 1 := by
  cases eagle <;> decide

theorem windowLoop_search (p : BlockPool) (ids : List Nat) (blockSize al : Nat)
    {contiguousBlocks : Int} {width i size : Nat}
    (contiguous : ∀ n : Nat, (n : Int) + 1 ≥ contiguousBlocks ↔ width + eagleBlocks useEagle ≤ n + 1)
    (covered : size ≤ hs.length) (length : rows.length = size) (le : i + n ≤ size)
    (misses : Misses (p.CachedAt hs ids) (al ∣ · * blockSize) width (eagleBlocks useEagle) size i (i + n))
    (run : Stretch (p.CachedAt hs ids) (al ∣ · * blockSize) width (eagleBlocks useEagle) i n)
    (filled : p.Filled hs ids i (i + n) rows) :
    ∃ rows' n' found, p.windowLoop hs ids blockSize useEagle al contiguousBlocks i rows n =
      .ok (rows', n', found) ∧
      (found = true → ∃ k, p.SearchHit hs ids blockSize al useEagle width size k ∧ width ≤ k ∧
        (∀ k', p.SearchHit hs ids blockSize al useEagle width size k' → k' ≤ k) ∧
        rows'.length = k + eagleBlocks useEagle ∧
          p.Filled hs ids (k - width) (k + eagleBlocks useEagle) rows') ∧
      (found = false → Stretch (p.CachedAt hs ids) (al ∣ · * blockSize) width (eagleBlocks useEagle)
        0 n' ∧ n' ≤ size ∧
        (∀ k', p.SearchHit hs ids blockSize al useEagle width size k' → k' + eagleBlocks useEagle ≤ n') ∧
        rows'.length = size ∧ p.Filled hs ids 0 n' rows') := by
  have small := eagleBlocks_le useEagle
  induction i generalizing rows n with
  | zero =>
    rw [zero_add] at le misses filled
    exact ⟨rows, n, false, rfl, fun none => Bool.noConfusion none,
      fun _ => ⟨run, le, fun k' hit => misses.hit_le hit, length, filled⟩⟩
  | succ i ih =>
    have some : 0 < width + eagleBlocks useEagle := lt_of_le_of_lt (zero_le n) run.short
    have blockHash := getElem?_eq_getElem (show i < hs.length by omega)
    have nullsBelow : p.Filled hs ids i i rows := fun j below => by
      rw [filled j (by omega), if_pos below, if_pos (by omega)]
    unfold windowLoop
    rw [blockHash]
    dsimp only
    split
    · rename_i missing
      have gap : ¬ p.CachedAt hs ids i := by
        simp [CachedAt, rowAt, blockHash, missing]
      exact ih length (by omega) (misses.reset run.short gap) (Stretch.start some i) nullsBelow
    · rename_i cachedBlock found
      have row : p.rowAt hs ids i = Option.some cachedBlock := by
        rwa [rowAt, blockHash]
      have here : p.CachedAt hs ids i := by rw [CachedAt, row]; rfl
      rw [postPopBlocks_eq]
      split
      · rename_i skipped
        obtain ⟨rfl, unaligned⟩ := skipped
        exact ih length (by omega) (misses.skip (by omega) (not_aligned_iff.mp unaligned))
          (Stretch.start some i) nullsBelow
      · rename_i kept
        have start : n = 0 → eagleBlocks useEagle ≤ i + 1 ∧ al ∣ (i + 1 - eagleBlocks useEagle) * blockSize :=
          fun none => ⟨by omega, not_not.mp fun unaligned => kept ⟨none, not_aligned_iff.mpr unaligned⟩⟩
        have set := filled.step (by omega) row
        split
        · rename_i full
          have full := (contiguous n).mp full
          have hit := run.full here start le full
          have short := run.short
          have ends : i + width + eagleBlocks useEagle = i + (n + 1) := by omega
          refine ⟨_, _, true, rfl, fun _ => ⟨i + width, hit, by omega, fun k' other => ?_, ?_, ?_⟩,
            fun none => Bool.noConfusion none⟩
          · have := misses.hit_le other
            omega
          · rw [length_take, length_set]
            omega
          · rw [ends, Nat.add_sub_cancel]
            exact set.take le_rfl
        · rename_i short
          exact ih (by rw [length_set, length]) (by omega) misses.extend
            ⟨fun _ => (run.grow here start).1, (run.grow here start).2, Nat.lt_of_not_le fun full =>
              short ((contiguous n).mpr full)⟩ set

theorem alignedLength_of_dvd (aligned : al ∣ n * blockSize) :
    alignedLength blockSize al n = n := by
  cases n with
  | zero => rfl
  | succ n => exact if_neg fun unaligned => not_aligned_iff.mp unaligned aligned

theorem popUnaligned_of_dvd (aligned : al ∣ rows.length * blockSize) :
    popUnaligned blockSize al rows = rows := by
  rw [popUnaligned, alignedLength_of_dvd aligned, take_length]

section
variable (slidingWindow span blockSize : Nat) (useEagle : Bool)

def searchWidth : Nat :=
  if useEagle then windowBlocks slidingWindow blockSize else max (windowBlocks slidingWindow blockSize) 1

theorem searchWidth_pos : 0 < searchWidth span blockSize useEagle + eagleBlocks useEagle := by
  cases useEagle with
  | true => exact succ_pos _
  | false => exact lt_of_lt_of_le one_pos (le_max_right _ _)

end

def EndsAt (pool : BlockPool) (blockHashes : List BlockHash) (kvCacheGroupIds : List Nat) (width k : Nat)
    (rows : List (List Nat)) : Prop :=
  rows.length = k ∧ pool.Filled blockHashes kvCacheGroupIds (k - width) k rows

/-- The last step of the lookup: with the eagle flag the last block is dropped, then the end is
aligned again. -/
def dropEagle (blockSize alignmentTokens : Nat) (useEagle : Bool) (rows : List (List Nat)) : List (List Nat) :=
  if useEagle ∧ rows ≠ [] then popUnaligned blockSize alignmentTokens rows.dropLast else rows

theorem dropEagle_false : dropEagle blockSize al false rows = rows :=
  if_neg fun both => Bool.noConfusion both.1

theorem dropEagle_true (some : rs ≠ []) :
    dropEagle blockSize al true rs = popUnaligned blockSize al rs.dropLast :=
  if_pos ⟨rfl, some⟩

variable {width k : Nat}

theorem endsAt_found (aligned : al ∣ k * blockSize) (length : rs.length = k + eagleBlocks eagle)
    (filled : p.Filled hs ids (k - width) (k + eagleBlocks eagle) rs) :
    p.EndsAt hs ids width k (dropEagle blockSize al eagle rs) := by
  cases eagle with
  | true =>
    have length : rs.length = k + 1 := length
    have dropped : rs.dropLast.length = k := by rw [length_dropLast, length, Nat.add_sub_cancel]
    have some : rs ≠ [] := fun none => by rw [none] at length; cases length
    rw [dropEagle_true some, popUnaligned_of_dvd (by rw [dropped]; exact aligned)]
    refine ⟨dropped, ?_⟩
    rw [dropLast_eq_take, length, Nat.add_sub_cancel]
    exact filled.take (le_succ k)
  | false =>
    rw [dropEagle_false]
    exact ⟨length, filled⟩

theorem endsAt_plain {width : Nat} (short : n < width) (aligned : alignmentTokens ∣ n * blockSize)
    (length : rs.length = n) (filled : p.Filled hs ids 0 n rs) :
    p.EndsAt hs ids width n (popUnaligned blockSize alignmentTokens rs) := by
  rw [popUnaligned_of_dvd (by rw [length]; exact aligned)]
  refine ⟨length, ?_⟩
  rwa [Nat.sub_eq_zero_of_le (Nat.le_of_lt short)]

/-- With the eagle flag the run is popped once for its last block. If the alignment is coarser than
a block, that block was popped before, to end at a multiple of the alignment, and the hit is
lost. -/
theorem endsAt_eagle (short : k < width) (aligned : al ∣ k * blockSize)
    (length : rows.length = k + 1) (filled : p.Filled hs ids 0 (k + 1) rows) :
    let result := dropEagle blockSize al true (popUnaligned blockSize al rows)
    (al ∣ blockSize ∨ k = 0 → p.EndsAt hs ids width k result) ∧
      (¬ al ∣ blockSize → 0 < k → result.length < k ∧ al ∣ result.length * blockSize) := by
  intro result
  have start : k - width = 0 := Nat.sub_eq_zero_of_le (Nat.le_of_lt short)
  have b : (k + 1) * blockSize = k * blockSize + blockSize := succ_mul k blockSize
  by_cases divides : al ∣ blockSize
  · have whole : popUnaligned blockSize al rows = rows :=
      popUnaligned_of_dvd (by rw [length, b]; exact Nat.dvd_add aligned divides)
    have found : p.EndsAt hs ids width k (dropEagle blockSize al true rows) :=
      endsAt_found aligned length (by rw [start]; exact filled)
    rw [← whole] at found
    exact ⟨fun _ => found, fun coarse => absurd divides coarse⟩
  · have unaligned : ¬ al ∣ (k + 1) * blockSize := fun whole =>
      divides ((Nat.dvd_add_right aligned).mp (b ▸ whole))
    have popped : popUnaligned blockSize al rows = rows.take k := by
      rw [popUnaligned, length, alignedLength, if_pos (not_aligned_iff.mpr unaligned),
        alignedLength_of_dvd aligned]
    have kept : (rows.take k).length = k := by rw [length_take, length]; omega
    constructor
    · rintro (fine | rfl)
      · exact absurd fine divides
      · show p.EndsAt hs ids width 0 (dropEagle blockSize al true _)
        rw [popped]
        exact ⟨rfl, fun j none => absurd none (not_lt_zero j)⟩
    · intro _ some
      simp only [result]
      rw [popped, dropEagle_true (fun none => by rw [none] at kept; exact absurd kept (by simpa using some.ne)),
        length_popUnaligned]
      refine ⟨?_, dvd_alignedLength _ _ _⟩
      have pops := alignedLength_le blockSize al (rows.take k).dropLast.length
      rw [length_dropLast, kept] at pops ⊢
      omega

theorem findSlidingWindowHit_search (p : BlockPool) (ids : List Nat) (eg : Bool) (al : Nat)
    (pos : 0 < blockSize) (window : 0 < span) (covered : l / blockSize ≤ hs.length) :
    ∃ rs k, p.findSlidingWindowHit hs l ids span blockSize eg al = .ok rs ∧
      (k = 0 ∨ p.SearchHit hs ids blockSize al eg
        (searchWidth span blockSize eg) (l / blockSize) k) ∧ (∀ k', p.SearchHit hs ids blockSize al eg
        (searchWidth span blockSize eg) (l / blockSize) k' → k' ≤ k) ∧
      (¬ (eg = true ∧ ¬ al ∣ blockSize ∧ 0 < k ∧ k < searchWidth span blockSize eg) →
        p.EndsAt hs ids (searchWidth span blockSize eg) k rs) ∧
      (eg = true → ¬ al ∣ blockSize → 0 < k → k < searchWidth span blockSize eg →
        rs.length < k ∧ al ∣ rs.length * blockSize) := by
  have contiguous : ∀ n : Nat, (n : Int) + 1 ≥ ceilDiv ((span : Int) - 1) blockSize + (if eg then 1 else 0) ↔
      searchWidth span blockSize eg + eagleBlocks eg ≤ n + 1 := by
    rw [ceilDiv_window pos window]
    cases eg with
    | true =>
      simp only [searchWidth, eagleBlocks, if_true]
      omega
    | false =>
      simp only [searchWidth, eagleBlocks, Bool.false_eq_true, if_false]
      omega
  have nulls : p.Filled hs ids (l / blockSize) (l / blockSize + 0)
      (replicate (l / blockSize) (p.nullRow ids)) := by
    intro j lt
    rw [add_zero] at lt
    rw [getElem?_replicate, if_pos lt, if_pos lt]
  obtain ⟨found, n, matchFound, ran, full, run⟩ := windowLoop_search p ids blockSize al contiguous
    covered length_replicate (le_refl _) (fun _ _ beyond lt => by omega)
      (Stretch.start (searchWidth_pos _ _ eg) _) nulls
  have result : p.findSlidingWindowHit hs l ids span blockSize eg
      al = .ok (dropEagle blockSize al eg
        (if matchFound then found else popUnaligned blockSize al (found.take n))) :=
    bind_of_ok ran rfl
  cases matchFound with
  | true =>
    obtain ⟨k, hit, wide, greatest, length, filled⟩ := full rfl
    refine ⟨_, k, result, .inr hit, greatest, fun _ => endsAt_found hit.aligned length filled,
      fun _ _ _ narrow => absurd narrow (not_lt.mpr wide)⟩
  | false =>
    obtain ⟨run, lt, greatest, length, filled⟩ := run rfl
    have taken : (found.take n).length = n := by rw [length_take]; omega
    refine ⟨_, n - eagleBlocks eg, result, ?_, fun k' hit => ?_, ?_⟩
    · rcases Nat.eq_zero_or_pos n with rfl | pos
      · exact .inl (Nat.zero_sub _)
      · exact .inr (run.hit_of_zero pos lt)
    · have := greatest k' hit
      omega
    · have aligned : 0 < n → al ∣ (n - eagleBlocks eg) * blockSize := fun pos => by
        rw [← zero_add n]
        exact (run.aligned pos).2
      have short := run.short
      have start := filled.take (le_refl n)
      cases eg with
      | false =>
        have ends : al ∣ n * blockSize := by
          rcases Nat.eq_zero_or_pos n with rfl | pos
          · rw [zero_mul]
            exact dvd_zero _
          · exact aligned pos
        refine ⟨fun _ => ?_, fun eagle => Bool.noConfusion eagle⟩
        rw [dropEagle_false]
        exact endsAt_plain short ends taken start
      | true =>
        cases n with
        | zero => exact ⟨fun _ => ⟨rfl, fun j none => absurd none (not_lt_zero j)⟩, nofun⟩
        | succ k =>
          have narrow : k < searchWidth span blockSize true := lt_of_succ_lt_succ short
          obtain ⟨fine, lost⟩ := endsAt_eagle narrow (aligned (succ_pos k)) taken start
          refine ⟨fun kept => fine ?_, fun _ coarse pos _ => lost coarse pos⟩
          by_contra coarse
          rw [not_or] at coarse
          exact kept ⟨rfl, coarse.1, pos_of_ne_zero coarse.2, narrow⟩

theorem hitRows_of_hit {width size : Nat} (le : size ≤ l / blockSize) (found : rows.length = 0 ∨
    p.SearchHit hs ids blockSize al eg width size rows.length) :
    HitRows l blockSize al eg rows := by
  rcases found with none | hit
  · rw [eq_nil_of_length_eq_zero none]
    exact ⟨by simp, zero_le _, fun _ => .inl rfl⟩
  · have room := hit.inside.trans le
    refine ⟨hit.aligned, (le_add_right _ _).trans room, fun eagle => .inr ?_⟩
    subst eagle
    exact room

theorem findSlidingWindowHit_rows (p : BlockPool) (ids : List Nat) (eagle : Bool) (al : Nat)
    (pos : 0 < blockSize) (window : 0 < span) (covered : l / blockSize ≤ hs.length) :
    ∃ rows, p.findSlidingWindowHit hs l ids span blockSize eagle
      al = .ok rows ∧ HitRows l blockSize al eagle rows := by
  obtain ⟨rows, k, ran, hit, -, ends, lost⟩ :=
    findSlidingWindowHit_search p ids eagle al pos window covered
  by_cases loses : eagle = true ∧ ¬ al ∣ blockSize ∧ 0 < k ∧ k < searchWidth span blockSize eagle
  · obtain ⟨rfl, coarse, some, narrow⟩ := loses
    obtain ⟨less, aligned⟩ := lost rfl coarse some narrow
    have room : k + 1 ≤ l / blockSize := (hit.resolve_left some.ne').inside
    have le : rows.length + 1 ≤ l / blockSize := less.trans_le ((le_succ k).trans room)
    exact ⟨rows, ran, aligned, (le_succ _).trans le, fun _ => .inr le⟩
  · rw [← (ends loses).1] at hit
    exact ⟨rows, ran, hitRows_of_hit le_rfl hit⟩

/-! ### The other lookups -/

theorem cachedRows_longest (p : BlockPool) (ids : List Nat) (hs : List BlockHash) :
    (∀ j < (p.cachedRows ids hs).length, p.CachedAt hs ids j) ∧ ((p.cachedRows ids hs).length < hs.length →
        ¬ p.CachedAt hs ids (p.cachedRows ids hs).length) := by
  induction hs with
  | nil => exact ⟨fun j none => absurd none (not_lt_zero j), fun none => absurd none (lt_irrefl 0)⟩
  | cons blockHash rest ih =>
    unfold cachedRows
    cases found : p.getCachedBlock blockHash ids with
    | none =>
      refine ⟨fun j none => absurd none (not_lt_zero j), fun _ => ?_⟩
      simp [CachedAt, rowAt, found]
    | some cachedBlock =>
      refine ⟨fun j lt => ?_, fun short => ih.2 (lt_of_succ_lt_succ short)⟩
      cases j with
      | zero => simp [CachedAt, rowAt, found]
      | succ j => exact ih.1 j (lt_of_succ_lt_succ lt)

theorem findFullAttentionHit_search (p : BlockPool) (hs : List BlockHash) (l : Nat)
    (ids : List Nat) (blockSize : Nat) (eagle : Bool) (al : Nat) :
    let size := min (l / blockSize) hs.length
    let rows := p.findFullAttentionHit hs l ids blockSize eagle al
    (rows.length = 0 ∨ p.SearchHit hs ids blockSize al eagle size size rows.length) ∧
      ∀ k, p.SearchHit hs ids blockSize al eagle size size k → k ≤ rows.length := by
  intro size rows
  have same : ∀ j < size, (p.CachedAt (hs.take (l / blockSize)) ids j ↔
      p.CachedAt hs ids j) := by
    intro j inside
    unfold CachedAt rowAt
    rw [getElem?_take_of_lt (inside.trans_le (min_le_left _ _))]
  have short := p.length_cachedRows_le ids (hs.take (l / blockSize))
  obtain ⟨cached, stopped⟩ := p.cachedRows_longest ids (hs.take (l / blockSize))
  have kept : rows.length = alignedLength blockSize al
      ((p.cachedRows ids (hs.take (l / blockSize))).length - eagleBlocks eagle) := by
    simp only [rows, findFullAttentionHit]
    rw [length_popUnaligned]
    cases eagle <;> simp [eagleBlocks]
  rw [kept]
  rw [length_take] at short stopped
  generalize (p.cachedRows ids (hs.take (l / blockSize))).length = n at cached stopped short ⊢
  have pops := alignedLength_le blockSize al (n - eagleBlocks eagle)
  constructor
  · rcases Nat.eq_zero_or_pos (alignedLength blockSize al (n - eagleBlocks eagle)) with none | some
    · exact .inl none
    · exact .inr ⟨dvd_alignedLength _ _ _, by omega, fun j _ last => (same j (by omega)).mp (cached
        j (by omega))⟩
  · intro k hit
    have inside := hit.inside
    refine le_alignedLength ?_ hit.aligned
    by_contra beyond
    exact stopped (by omega) ((same _ (by omega)).mpr (hit.cached _ (by omega) (by omega)))

structure Finds (pool : BlockPool) (blockHashes : List BlockHash) (kvCacheGroupIds : List Nat)
    (blockSize alignmentTokens width size : Nat) (rows : List (List Nat)) : Prop where
  hit : rows.length = 0 ∨ pool.SearchHit blockHashes kvCacheGroupIds blockSize alignmentTokens false
    width size rows.length
  greatest : ∀ k, pool.SearchHit blockHashes kvCacheGroupIds blockSize alignmentTokens false width
    size k → k ≤ rows.length

theorem mambaLoop_finds (p : BlockPool) (ids : List Nat) (blockSize al : Nat)
    (covered : i ≤ hs.length) : ∃ rows, p.mambaLoop hs ids blockSize al i = .ok rows ∧
      p.Finds hs ids blockSize al 1 i rows := by
  induction i with
  | zero => exact ⟨[], rfl, .inl rfl, fun k hit => hit.inside⟩
  | succ i ih =>
    obtain ⟨rows, ran, found⟩ := ih (by omega)
    have blockHash := getElem?_eq_getElem (show i < hs.length by omega)
    -- the hit that ends here is missing, and the search goes on
    have later : ¬ p.SearchHit hs ids blockSize al false 1 (i + 1) (i + 1) →
        p.Finds hs ids blockSize al 1 (i + 1) rows := by
      intro missing
      refine ⟨found.hit.imp_right fun hit => ⟨hit.aligned, hit.inside.trans (le_succ i),
        hit.cached⟩, fun k hit => ?_⟩
      have le : k ≤ i + 1 := hit.inside
      have before : k ≠ i + 1 := fun same => missing (same ▸ hit)
      exact found.greatest k ⟨hit.aligned, show k ≤ i by omega, hit.cached⟩
    unfold mambaLoop
    rw [blockHash]
    dsimp only
    split
    · rename_i missing
      refine ⟨rows, ran, later fun hit => ?_⟩
      have cached := hit.cached i (le_refl i) (lt_succ_self i)
      simp [CachedAt, rowAt, blockHash, missing] at cached
    · rename_i cachedBlock cached
      split
      · rename_i unaligned
        exact ⟨rows, ran, later fun hit => not_aligned_iff.mp unaligned hit.aligned⟩
      rename_i aligned
      have length : (replicate i (ids.map fun _ => p.nullBlock) ++ [cachedBlock]).length = i + 1 := by
        rw [length_append, length_replicate, length_singleton]
      refine ⟨_, rfl, .inr ?_, fun k hit => ?_⟩
      · rw [length]
        refine ⟨not_not.mp (mt not_aligned_iff.mpr aligned), le_refl _, fun j first last => ?_⟩
        obtain rfl : j = i := Nat.le_antisymm (Nat.lt_succ_iff.mp last) first
        simp [CachedAt, rowAt, blockHash, cached]
      · rw [length]
        exact hit.inside

/-! ### The longest hit -/

theorem windowHit_iff (pos : 0 < blockSize) {k : Nat} : p.WindowHit hs l ids span blockSize eg al k ↔
      p.SearchHit hs ids blockSize al eg (windowBlocks span blockSize)
        (l / blockSize) k := by
  constructor
  · intro hit
    refine ⟨hit.aligned, (le_div_iff_mul_le pos).mpr hit.inside, fun j first last => ?_⟩
    rcases lt_or_ge j k with before | after
    · exact hit.cached j ((needed_iff pos).mpr ⟨first, before⟩)
    · cases eg with
      | true =>
        obtain rfl : j = k := Nat.le_antisymm (Nat.lt_succ_iff.mp last) after
        exact hit.next rfl
      | false => exact absurd last (not_lt.mpr after)
  · intro hit
    refine ⟨hit.aligned, (le_div_iff_mul_le pos).mp hit.inside, fun i needed => ?_, fun eagle => ?_⟩
    · obtain ⟨first, before⟩ := (needed_iff pos).mp needed
      exact hit.cached i first (by omega)
    · subst eagle
      exact hit.cached k (sub_le _ _) (lt_succ_self k)

theorem rowAt_ne_nullRow (clean : p.NullUncached) (gs : kvCacheGroupIds ≠ [])
    (found : p.rowAt hs kvCacheGroupIds i = some row) : row ≠ p.nullRow kvCacheGroupIds := by
  obtain ⟨blockHash, -, cached⟩ := Option.bind_eq_some_iff.mp found
  obtain ⟨first, rest, rfl⟩ := exists_cons_of_ne_nil gs
  rintro rfl
  obtain ⟨groupId, -, reg⟩ := getCachedBlock_registered cached (g := 0) rfl
  exact clean _ reg

theorem EndsAt.longest {k : Nat} (pos : 0 < blockSize) (clean : p.NullUncached) (gs : ids ≠ [])
    (ends : p.EndsAt hs ids (windowBlocks span blockSize) k rows)
    (hit : k = 0 ∨ p.WindowHit hs l ids span blockSize eagle al k)
    (greatest : ∀ k', p.WindowHit hs l ids span blockSize eagle al k' → k' ≤ k) :
    p.LongestWindowHit hs l ids span blockSize eagle al rows := by
  obtain ⟨rfl, filled⟩ := ends
  have lt : ∀ i row, rows[i]? = some row → i < rows.length := fun i row at_ => (List.getElem_of_getElem? at_).1
  have cached : ∀ i row, rows[i]? = some row → Needed span blockSize rows.length i →
      p.rowAt hs ids i = some row := by
    intro i row at_ needed
    have here := filled i (lt i row at_)
    rw [if_neg (not_lt.mpr ((needed_iff pos).mp needed).1), at_] at here
    exact here.symm
  refine ⟨fun some => hit.resolve_left fun none => some (List.length_eq_zero_iff.mp none), greatest, cached,
    fun i row at_ => ⟨fun null needed => rowAt_ne_nullRow clean gs (cached i row at_ needed) null,
      fun spare => ?_⟩⟩
  have here := filled i (lt i row at_)
  have early : i < rows.length - windowBlocks span blockSize := by
    by_contra late
    exact spare ((needed_iff pos).mpr ⟨not_lt.mp late, lt i row at_⟩)
  rw [if_pos early, at_] at here
  exact Option.some.inj here

section
variable (pos : 0 < blockSize) (clean : p.NullUncached) (gs : ids ≠ [])
include pos clean gs

theorem longest_iff_of_search (reaches : ¬ (eg = false ∧ span = 1))
    (hit : k = 0 ∨ p.WindowHit hs l ids span blockSize eg alignmentTokens k)
    (greatest : ∀ k', p.WindowHit hs l ids span blockSize eg alignmentTokens k' → k' ≤ k)
    (ends : ¬ (eg = true ∧ ¬ alignmentTokens ∣ blockSize ∧ 0 < k ∧ k < windowBlocks span blockSize) →
      p.EndsAt hs ids (windowBlocks span blockSize) k rs)
    (lost : eg = true → ¬ alignmentTokens ∣ blockSize → 0 < k → k < windowBlocks span blockSize →
      rs.length < k) : p.LongestWindowHit hs l ids span blockSize eg alignmentTokens rs ↔
      ¬ p.LosesWindowHit hs l ids span blockSize eg alignmentTokens := by
  constructor
  · rintro longest ⟨⟨k', positive', hit'⟩, ⟨eagle, coarse, narrow⟩ | trivialWindow⟩
    · have some : 0 < k := lt_of_lt_of_le positive' (greatest k' hit')
      have own := hit.resolve_left some.ne'
      exact absurd (longest.longest k own) (not_le.mpr (lost eagle coarse some (narrow k own)))
    · exact reaches trivialWindow
  · intro kept
    refine (ends fun ⟨eagle, coarse, nonzero, narrow⟩ => kept ?_).longest pos clean gs hit greatest
    have own := hit.resolve_left nonzero.ne'
    exact ⟨⟨k, nonzero, own⟩, .inl ⟨eagle, coarse, fun k' hit' => lt_of_le_of_lt (greatest k' hit') narrow⟩⟩

theorem longest_iff_of_one (hit : k = 0 ∨ p.SearchHit hs ids blockSize alignmentTokens false 1
    (l / blockSize) k)
    (ends : p.EndsAt hs ids 1 k rs) : p.LongestWindowHit hs l ids 1 blockSize false alignmentTokens rs ↔
      ¬ p.LosesWindowHit hs l ids 1 blockSize false alignmentTokens := by
  have none : windowBlocks 1 blockSize = 0 := div_eq_of_lt (by omega)
  have unneeded : ∀ i, ¬ Needed 1 blockSize k i := fun i needed => by
    have := (needed_iff pos).mp needed
    omega
  obtain ⟨rfl, filled⟩ := ends
  rcases Nat.eq_zero_or_pos rs.length with empty | some
  · obtain rfl := length_eq_zero_iff.mp empty
    constructor
    · rintro longest ⟨⟨k', positive', hit'⟩, -⟩
      exact absurd (longest.longest k' hit') (not_le.mpr positive')
    · intro kept
      refine ⟨fun some => absurd rfl some, fun k' hit' => ?_, fun i row at_ =>
        (by cases at_), fun i row at_ => (by cases at_)⟩
      by_contra beyond
      exact kept ⟨⟨k', not_le.mp beyond, hit'⟩, .inr ⟨rfl, rfl⟩⟩
  · have own := hit.resolve_left some.ne'
    have loses : p.LosesWindowHit hs l ids 1 blockSize false alignmentTokens := by
      refine ⟨⟨rs.length, some, (windowHit_iff pos).mpr ⟨own.aligned, own.inside,
        fun j first last => ?_⟩⟩, .inr ⟨rfl, rfl⟩⟩
      rw [none] at first
      exact absurd last (not_lt.mpr first)
    have last := filled (rs.length - 1) (by omega)
    rw [if_neg (lt_irrefl _), getElem?_eq_getElem (by omega)] at last
    refine ⟨fun longest => ?_, fun kept => absurd loses kept⟩
    have null := (longest.null _ _ (getElem?_eq_getElem (by omega))).mpr (unneeded (rs.length - 1))
    exact absurd null (rowAt_ne_nullRow clean gs last.symm)

end

/-- The lookup returns the longest hit in every case but two. -/
theorem findSlidingWindowHit_longest_iff (pool : BlockPool) (blockHashes : List BlockHash) (maxLength : Nat)
    (kvCacheGroupIds : List Nat) (slidingWindow blockSize : Nat) (useEagle : Bool) (alignmentTokens : Nat)
    (positive : 0 < blockSize) (window : 0 < slidingWindow)
    (covered : maxLength / blockSize ≤ blockHashes.length)
    (clean : pool.NullUncached) (groups : kvCacheGroupIds ≠ []) :
    ∃ rows, pool.findSlidingWindowHit blockHashes maxLength kvCacheGroupIds slidingWindow blockSize useEagle
        alignmentTokens = .ok rows ∧
      (pool.LongestWindowHit blockHashes maxLength kvCacheGroupIds slidingWindow blockSize useEagle
        alignmentTokens rows ↔
        ¬ pool.LosesWindowHit blockHashes maxLength kvCacheGroupIds slidingWindow blockSize useEagle
          alignmentTokens) := by
  obtain ⟨rows, k, ran, hit, greatest, ends, lost⟩ :=
    findSlidingWindowHit_search pool kvCacheGroupIds useEagle alignmentTokens positive window covered
  refine ⟨rows, ran, ?_⟩
  by_cases one : useEagle = false ∧ slidingWindow = 1
  · obtain ⟨rfl, rfl⟩ := one
    have width : searchWidth 1 blockSize false = 1 := by
      have none : windowBlocks 1 blockSize = 0 := div_eq_of_lt (by omega)
      rw [searchWidth, none]
      rfl
    rw [width] at hit ends
    exact longest_iff_of_one positive clean groups hit (ends fun eagle => Bool.noConfusion eagle.1)
  · have width : searchWidth slidingWindow blockSize useEagle = windowBlocks slidingWindow blockSize := by
      cases useEagle with
      | true => rfl
      | false =>
        have several : slidingWindow ≠ 1 := fun isOne => one ⟨rfl, isOne⟩
        exact max_eq_left ((lt_windowBlocks positive slidingWindow 0).mpr (by omega))
    rw [width] at hit greatest ends lost
    simp only [← windowHit_iff positive] at hit greatest
    exact longest_iff_of_search positive clean groups one hit greatest ends fun eagle coarse some narrow =>
      (lost eagle coarse some narrow).1

def threeBlocks : BlockPool where
  numGpuBlocks := 4
  enableCaching := true
  hashBlockSize := 16
  nullBlock := 0
  blocks := fun _ => ⟨0, none⟩
  freeBlockQueue := FreeKVCacheBlockQueue.new 4
  cachedBlockHashToBlock :=
    [([1], 1), ([2], 2), ([3], 3)].foldl (fun map (hash, b) =>
      map.insert (makeBlockHashWithGroupId hash 0) b) .empty

theorem threeBlocks_clean : threeBlocks.NullUncached := by
  intro key reg
  have inserted : ((empty.insert (makeBlockHashWithGroupId [1] 0) 1).insert
      (makeBlockHashWithGroupId [2] 0) 2).insert (makeBlockHashWithGroupId [3] 0) 3 =
        threeBlocks.cachedBlockHashToBlock := rfl
  have null : threeBlocks.nullBlock = 0 := rfl
  rw [← inserted, null] at reg
  simp [registered_insert, not_registered_empty] at reg

theorem threeBlocks_longest : ∃ rows, threeBlocks.findSlidingWindowHit [[1], [2], [3]] 48 [0] 20 16
    false 16 = .ok rows ∧
      (threeBlocks.LongestWindowHit [[1], [2], [3]] 48 [0] 20 16 false 16 rows ↔
        ¬ threeBlocks.LosesWindowHit [[1], [2], [3]] 48 [0] 20 16 false 16) :=
  findSlidingWindowHit_longest_iff threeBlocks [[1], [2], [3]] 48 [0] 20 16 false 16 (by decide)
    (by decide) (by decide) threeBlocks_clean (by decide)

/-- Two blocks are a hit for a window of 200 tokens, with the third one for the eagle flag and an
alignment of two blocks; the lookup returns nothing. -/
theorem threeBlocks_lost : threeBlocks.findSlidingWindowHit [[1], [2], [3]] 48 [0] 200 16 true 32 = .ok [] ∧
      threeBlocks.WindowHit [[1], [2], [3]] 48 [0] 200 16 true 32 2 ∧
      ¬ threeBlocks.LongestWindowHit [[1], [2], [3]] 48 [0] 200 16 true 32 [] := by
  have cached : ∀ i < 3, (threeBlocks.rowAt [[1], [2], [3]] [0] i).isSome = true := by decide
  have hit : threeBlocks.WindowHit [[1], [2], [3]] 48 [0] 200 16 true 32 2 :=
    ⟨by decide, by decide, fun i needed => cached i (by have := (needed_iff (by decide)).mp needed; omega),
      fun _ => cached 2 (by decide)⟩
  exact ⟨rfl, hit, fun longest => absurd (longest.longest 2 hit) (by decide)⟩

end BlockPool

end TurboQuant.Core
