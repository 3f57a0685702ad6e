import Mathlib.Order.Bounds.Basic
import TurboQuant.Core.HybridHit

/-!
The length that the hybrid lookup finds.
-/

namespace TurboQuant.Core
open Outcome Narrowing List Nat BlockPool

/-! ### Lookups by blocks -/

namespace BlockPool

variable {p : BlockPool} {hs : List BlockHash} {ids : List Nat} {rows : List (List Nat)}
  {most size al : Nat}

section
variable (p : BlockPool) (ids : List Nat) (al : Nat)

theorem findSlidingWindowHit_finds {slidingWindow : Nat}
    (pos : 0 < size) (window : 0 < slidingWindow) (covered : most / size ≤ hs.length) :
    ∃ rows, p.findSlidingWindowHit hs most ids slidingWindow size false al = .ok rows ∧
      p.Finds hs ids size al (searchWidth slidingWindow size false)
        (most / size) rows := by
  obtain ⟨rows, k, ran, hit, greatest, ends, -⟩ :=
    findSlidingWindowHit_search p ids false al pos window covered
  obtain ⟨rfl, -⟩ := ends fun eagle => Bool.noConfusion eagle.1
  exact ⟨rows, ran, hit, greatest⟩

theorem findFullAttentionHit_finds (covered : most / size ≤ hs.length) :
    p.Finds hs ids size al (most / size) (most / size) (p.findFullAttentionHit hs most ids size false al) := by
  obtain ⟨hit, greatest⟩ := p.findFullAttentionHit_search hs most ids size false al
  rw [min_eq_left covered] at hit greatest
  exact ⟨hit, greatest⟩

end

end BlockPool

/-! ### What a group keeps -/

namespace HybridKVCacheCoordinator

variable {c : HybridKVCacheCoordinator} {pool p : BlockPool} {blockHashes cs : List BlockHash}
  {group g : AttentionGroup} {maxCacheHitLength limit : Nat}

def CachedAt (c : HybridKVCacheCoordinator) (pool : BlockPool) (blockHashes : List BlockHash)
    (group : AttentionGroup) (j : Nat) : Prop :=
  pool.CachedAt (c.iteratedHashes blockHashes group.spec.blockSize) group.groupIds j

def firstRead (group : AttentionGroup) (n : Nat) : Nat :=
  match group.spec.kvCacheSpec with
  | .slidingWindow slidingWindow _ =>
    n / group.spec.blockSize - searchWidth slidingWindow group.spec.blockSize false
  | .chunkedLocalAttention chunkSize _ => startBlock n chunkSize group.spec.blockSize
  | .mamba _ _ => n / group.spec.blockSize - 1
  | _ => 0

theorem firstRead_full (full : g.spec.kvCacheSpec.isFullAttention = true) (n : Nat) : firstRead g n = 0 := by
  unfold firstRead
  cases spec : g.spec.kvCacheSpec with
  | fullAttention => rfl
  | tqFullAttention => rfl
  | mlaAttention => rfl
  | crossAttention => rfl
  | _ =>
    rw [spec] at full
    cases full

structure Reaches (c : HybridKVCacheCoordinator) (pool : BlockPool) (blockHashes : List BlockHash)
    (group : AttentionGroup) (n : Nat) : Prop where
  aligned : c.lcmBlockSize ∣ n
  cached : ∀ j, firstRead group n ≤ j → j < n / group.spec.blockSize → c.CachedAt pool blockHashes group j

section
variable (c : HybridKVCacheCoordinator) (pool : BlockPool) (blockHashes : List BlockHash)
  (group : AttentionGroup)

/-- The block where the chunk of `n` starts is not cached, nor are all blocks of the chunk before
it. -/
def ChunkStartsMissing (chunkSize n : Nat) : Prop :=
  let blockSize := group.spec.blockSize
  let start := startBlock n chunkSize blockSize
  ¬ c.CachedAt pool blockHashes group start ∧
    ∃ j, startBlock (start * blockSize) chunkSize blockSize ≤ j ∧ j < start ∧
      ¬ c.CachedAt pool blockHashes group j

def Accepts (n : Nat) : Prop :=
  ∃ rows, c.findHit pool blockHashes group n false = .ok rows ∧ rows.length * group.spec.blockSize = n

end

/-- The lookup of the group raises: cross attention, and chunked local attention with several block
sizes. -/
def Raises (c : HybridKVCacheCoordinator) (group : AttentionGroup) : Prop :=
  group.spec.kvCacheSpec = .crossAttention ∨ group.spec.kvCacheSpec.isChunkedLocal = true ∧
    group.spec.blockSize ≠ c.lcmBlockSize

instance (c : HybridKVCacheCoordinator) (group : AttentionGroup) : Decidable (c.Raises group) :=
  inferInstanceAs (Decidable (_ ∨ (_ ∧ _)))

section
variable (mem : g.spec ∈ c.kvCacheGroups) (covered : limit / c.hashBlockSize ≤ cs.length)
include mem covered

theorem le_length_iteratedHashes {n : Nat} (le : n ≤ limit) :
    n / g.spec.blockSize ≤ (c.iteratedHashes cs g.spec.blockSize).length := by
  refine (Nat.div_le_div_right le).trans ?_
  unfold iteratedHashes
  split
  · rename_i same
    rwa [same]
  · have factor : c.hashBlockSize * (g.spec.blockSize / c.hashBlockSize) = g.spec.blockSize :=
      Nat.mul_div_cancel' (c.divisible g.spec mem)
    unfold blockHashListWithBlockSize
    rw [length_map, length_range, ← factor, ← Nat.div_div_eq_div_mul, factor]
    exact Nat.div_le_div_right covered

theorem getElem?_indexedHashes {n j : Nat} (le : n ≤ limit) (before : j < n / g.spec.blockSize) :
    (c.indexedHashes cs g.spec.blockSize n)[j]? = (c.iteratedHashes cs g.spec.blockSize)[j]? := by
  have enough := before.trans_le (le_length_iteratedHashes mem covered le)
  unfold indexedHashes iteratedHashes at *
  split
  · rfl
  · rename_i ne
    rw [if_neg ne] at enough
    unfold blockHashListWithBlockSize at enough ⊢
    rw [length_map, length_range] at enough
    simp [before, enough]

end

structure Lookup (c : HybridKVCacheCoordinator) (pool : BlockPool) (blockHashes : List BlockHash)
    (group : AttentionGroup) (n length : Nat) : Prop where
  ran : ∃ rows, c.findHit pool blockHashes group n false = .ok rows ∧
    rows.length * group.spec.blockSize = length
  below : length ≤ n
  aligned : c.lcmBlockSize ∣ length
  greatest : ∀ m ≤ n, c.Reaches pool blockHashes group m → m ≤ length
  accepted : length = n → c.Reaches pool blockHashes group n
  /-- Chunked local attention may end before the chunk that it reads. -/
  reaches : group.spec.kvCacheSpec.isChunkedLocal = false → c.Reaches pool blockHashes group length

section
variable {n : Nat}

theorem Reaches.whole {m : Nat} (mem : g ∈ c.attentionGroups) (reaches : c.Reaches p cs g m) :
    m / g.spec.blockSize * g.spec.blockSize = m :=
  Nat.div_mul_cancel ((blockSize_dvd_lcm mem).trans reaches.aligned)

theorem lookup_of_finds {rs : List (List Nat)} {hs : List BlockHash} {width : Nat}
    (mem : g ∈ c.attentionGroups) (reads : ∀ m ≤ n, firstRead g m = m / g.spec.blockSize - width)
    (same : ∀ j < n / g.spec.blockSize, hs[j]? = (c.iteratedHashes cs g.spec.blockSize)[j]?)
    (ran : c.findHit p cs g n false = .ok rs)
    (finds : p.Finds hs g.groupIds g.spec.blockSize c.lcmBlockSize width (n / g.spec.blockSize) rs) :
    c.Lookup p cs g n (rs.length * g.spec.blockSize) := by
  have positive := g.spec.positive
  have cachedAt : ∀ j < n / g.spec.blockSize,
      (p.CachedAt hs g.groupIds j ↔ c.CachedAt p cs g j) := by
    intro j le
    unfold CachedAt BlockPool.CachedAt rowAt
    rw [same j le]
  have le : rs.length ≤ n / g.spec.blockSize := by
    rcases finds.hit with none | hit
    · rw [none]
      exact zero_le _
    · exact hit.inside
  have below : rs.length * g.spec.blockSize ≤ n := (le_div_iff_mul_le positive).mp le
  have reaches : c.Reaches p cs g (rs.length * g.spec.blockSize) := by
    rcases finds.hit with none | hit
    · rw [none, zero_mul]
      exact ⟨dvd_zero _, fun j _ last => absurd last (by simp)⟩
    · refine ⟨hit.aligned, fun j first last => ?_⟩
      rw [reads _ below, Nat.mul_div_cancel _ positive] at first
      rw [Nat.mul_div_cancel _ positive] at last
      exact (cachedAt j (last.trans_le le)).mp (hit.cached j first last)
  refine ⟨⟨rs, ran, rfl⟩, below, reaches.aligned, fun m short other => ?_,
    fun kept => kept ▸ reaches, fun _ => reaches⟩
  have whole := other.whole mem
  have bs : m / g.spec.blockSize ≤ n / g.spec.blockSize := Nat.div_le_div_right short
  rw [← whole]
  refine mul_le_mul_right _ (finds.greatest _ ⟨?_, bs, fun j first last => ?_⟩)
  · show c.lcmBlockSize ∣ m / g.spec.blockSize * g.spec.blockSize
    rw [whole]
    exact other.aligned
  · have last : j < m / g.spec.blockSize := last
    exact (cachedAt j (by omega)).mpr (other.cached j (by rw [reads m short]; exact first) last)

section
variable {rs : List (List Nat)} {hashes : List BlockHash} {size hits : Nat} {pos : 0 < size}
  (chunked : g.spec.kvCacheSpec = .chunkedLocalAttention size pos)
  (same : ∀ j < n / g.spec.blockSize, hashes[j]? = (c.iteratedHashes cs g.spec.blockSize)[j]?)
  (found : p.ChunkRows hashes g.groupIds n size g.spec.blockSize hits rs)

include same found in
theorem cachedAt_of_chunkRows {j : Nat} (first : startBlock n size g.spec.blockSize ≤ j)
    (last : j < rs.length) : c.CachedAt p cs g j := by
  have length := found.length
  have inside := found.inside
  have row := found.filled j (by omega)
  rw [if_neg (not_lt.mpr first), getElem?_eq_getElem last, rowAt, same j (by omega)] at row
  unfold CachedAt BlockPool.CachedAt rowAt
  rw [← row]
  rfl

include same found in
theorem not_cachedAt_of_chunkRows (short : rs.length < n / g.spec.blockSize) :
    ¬ c.CachedAt p cs g rs.length := by
  have length := found.length
  have missing := found.stopped (by omega)
  rw [← length, rowAt, same _ short] at missing
  unfold CachedAt BlockPool.CachedAt rowAt
  rw [missing]
  exact Bool.false_ne_true

include chunked in
theorem firstRead_chunked (m : Nat) : firstRead g m = startBlock m size g.spec.blockSize := by
  unfold firstRead
  rw [chunked]

include chunked same found in
theorem lookup_of_chunkRows (mem : g ∈ c.attentionGroups) (one : g.spec.blockSize = c.lcmBlockSize)
    (ran : c.findHit p cs g n false = .ok rs) : c.Lookup p cs g n (rs.length * g.spec.blockSize) := by
  have reads := firstRead_chunked chunked
  have length := found.length
  have inside := found.inside
  refine ⟨⟨rs, ran, rfl⟩, (le_div_iff_mul_le g.spec.positive).mp (length ▸ inside), ?_, ?_, ?_, ?_⟩
  · rw [← one]
    exact dvd_mul_left _ _
  · intro m short reaches
    rw [← reaches.whole mem]
    refine mul_le_mul_right _ ?_
    by_contra beyond
    have bs : m / g.spec.blockSize ≤ n / g.spec.blockSize := Nat.div_le_div_right short
    have start : startBlock m size g.spec.blockSize ≤ startBlock n size g.spec.blockSize :=
      Nat.div_le_div_right (chunkStart_mono size short)
    refine not_cachedAt_of_chunkRows same found (by omega) (reaches.cached _ ?_ (by omega))
    rw [reads]
    omega
  · intro kept
    refine ⟨?_, fun j first last => ?_⟩
    · rw [← kept, ← one]
      exact dvd_mul_left _ _
    · rw [reads] at first
      refine cachedAt_of_chunkRows same found first ?_
      rwa [← kept, Nat.mul_div_cancel _ g.spec.positive] at last
  · intro other
    rw [chunked] at other
    cases other

include chunked same found in
/-- Where the lookup ends before the chunk that it reads, the length is kept only if the blocks of
the chunk before it are cached. -/
theorem reaches_chunkRows_iff (one : g.spec.blockSize = c.lcmBlockSize) (whole : g.spec.blockSize ∣ n) :
    c.Reaches p cs g (rs.length * g.spec.blockSize) ↔
      ¬ c.ChunkStartsMissing p cs g size n := by
  unfold ChunkStartsMissing
  dsimp only
  have reads := firstRead_chunked chunked
  have length := found.length
  have aligned : c.lcmBlockSize ∣ rs.length * g.spec.blockSize := by
    rw [← one]
    exact dvd_mul_left _ _
  rcases Nat.eq_zero_or_pos hits with rfl | some
  · rw [add_zero] at length
    rw [← length]
    constructor
    · rintro reaches ⟨-, j, first, last, missing⟩
      refine missing (reaches.cached j ?_ ?_)
      · rwa [reads]
      · rwa [Nat.mul_div_cancel _ g.spec.positive]
    · intro kept
      refine ⟨aligned, fun j first last => ?_⟩
      rw [reads] at first
      rw [Nat.mul_div_cancel _ g.spec.positive] at last
      by_contra missing
      refine kept ⟨?_, j, first, last, missing⟩
      refine not_cachedAt_of_chunkRows same found (lt_of_le_of_ne (length ▸ found.inside) fun full => ?_)
      -- nothing was read, so the length is its own chunk start
      have ends : rs.length * g.spec.blockSize = n := by rw [full, Nat.div_mul_cancel whole]
      rw [ends, ← length] at first
      omega
  · refine ⟨fun _ missing => missing.1 (cachedAt_of_chunkRows same found le_rfl (by omega)),
      fun _ => ⟨aligned, fun j first last => ?_⟩⟩
    rw [reads, startBlock, found.chunkStart_eq g.spec.positive pos some] at first
    rw [Nat.mul_div_cancel _ g.spec.positive] at last
    exact cachedAt_of_chunkRows same found first last

end

theorem findHit_chunked {size : Nat} {pos : 0 < size} (p : BlockPool)
    (spec : g.spec.kvCacheSpec = .chunkedLocalAttention size pos) (quiet : ¬ c.Raises g)
    (hs : n / g.spec.blockSize ≤ (c.indexedHashes cs g.spec.blockSize n).length) :
    g.spec.blockSize = c.lcmBlockSize ∧ ∃ hits rows, c.findHit p cs g n false = .ok rows ∧
      p.ChunkRows (c.indexedHashes cs g.spec.blockSize n) g.groupIds n size g.spec.blockSize hits
        rows := by
  have one : g.spec.blockSize = c.lcmBlockSize := by
    by_contra ne
    exact quiet (.inr ⟨by rw [spec]; rfl, ne⟩)
  obtain ⟨hits, rows, ran, found⟩ := p.findChunkedLocalHit_chunkRows g.groupIds size hs
  refine ⟨one, hits, rows, ?_, found⟩
  rw [findHit, spec]
  rwa [← one]

theorem lookup_full (mem : g ∈ c.attentionGroups) (full : g.spec.kvCacheSpec.isFullAttention = true)
    (covered : limit / c.hashBlockSize ≤ cs.length) (le : n ≤ limit) :
    ∃ length, c.Lookup p cs g n length := by
  have finds := p.findFullAttentionHit_finds g.groupIds c.lcmBlockSize
    (le_length_iteratedHashes (spec_mem mem) covered le)
  refine ⟨_, lookup_of_finds mem (fun m short => ?_) (fun _ _ => rfl) ?_ finds⟩
  · have bs : m / g.spec.blockSize ≤ n / g.spec.blockSize := Nat.div_le_div_right short
    rw [Nat.sub_eq_zero_of_le bs]
    exact firstRead_full full m
  · unfold findHit
    cases spec : g.spec.kvCacheSpec with
    | fullAttention => rfl
    | tqFullAttention => rfl
    | mlaAttention => rfl
    | _ =>
      rw [spec] at full
      cases full

theorem findHit_lookup (p : BlockPool) (mem : g ∈ c.attentionGroups) (quiet : ¬ c.Raises g)
    (covered : limit / c.hashBlockSize ≤ cs.length) (le : n ≤ limit) :
    ∃ length, c.Lookup p cs g n length := by
  have hashes := c.length_indexedHashes covered le g.spec.blockSize
  have same := fun j (before : j < n / g.spec.blockSize) => getElem?_indexedHashes
    (spec_mem mem) covered le before
  cases spec : g.spec.kvCacheSpec with
  | slidingWindow window pos =>
    obtain ⟨rs, ran, finds⟩ :=
      p.findSlidingWindowHit_finds g.groupIds c.lcmBlockSize g.spec.positive pos hashes
    refine ⟨_, lookup_of_finds mem (fun m _ => by rw [firstRead, spec]) same ?_ finds⟩
    rwa [findHit, spec]
  | chunkedLocalAttention size pos =>
    obtain ⟨one, hits, rs, ran, found⟩ := findHit_chunked p spec quiet hashes
    exact ⟨_, lookup_of_chunkRows spec same found mem one ran⟩
  | mamba al extra =>
    obtain ⟨rs, ran, finds⟩ := p.mambaLoop_finds g.groupIds g.spec.blockSize c.lcmBlockSize hashes
    refine ⟨_, lookup_of_finds mem (fun m _ => by rw [firstRead, spec]) same ?_ finds⟩
    rwa [findHit, spec]
  | crossAttention => exact absurd (.inl spec) quiet
  | fullAttention => exact lookup_full mem (by rw [spec]; rfl) covered le
  | tqFullAttention => exact lookup_full mem (by rw [spec]; rfl) covered le
  | mlaAttention => exact lookup_full mem (by rw [spec]; rfl) covered le

end

/-! ### The rounds -/

section
variable (c : HybridKVCacheCoordinator)

def hitLength (pool : BlockPool) (blockHashes : List BlockHash) (group : AttentionGroup) (n : Nat) : Nat :=
  match c.findHit pool blockHashes group n false with
  | .ok rows => rows.length * group.spec.blockSize
  | .error _ => 0

def visitGroups (order : List AttentionGroup) (pool : BlockPool) (blockHashes : List BlockHash)
    (maxCacheHitLength : Nat) : Except PoolError (Nat × LookupState) :=
  narrow (fun hitLength state =>
      order.zipIdx.foldlM (c.lookupGroup pool blockHashes maxCacheHitLength) (hitLength, state))
    (order.length == 2 && order.head?.any (·.spec.kvCacheSpec.isFullAttention)) maxCacheHitLength
    ⟨replicate c.kvCacheGroups.length none, []⟩

def Trimmed (pool : BlockPool) (blockHashes : List BlockHash) (curr : Nat) (state : LookupState) : Prop :=
  ∀ group ∈ c.attentionGroups, group.spec.kvCacheSpec.isFullAttention = true →
    (group.groupIds.head?.bind fun groupId => (state.hitBlocksByGroup[groupId]?).join).isSome = true →
    c.Reaches pool blockHashes group curr

end

section
variable {n curr : Nat} {s : LookupState}

theorem Lookup.hitLength_eq {length : Nat} (lookup : c.Lookup p cs g n length) :
    c.hitLength p cs g n = length := by
  obtain ⟨rs, ran, same⟩ := lookup.ran
  unfold hitLength
  rwa [ran]

theorem lookup_hitLength (p : BlockPool) (mem : g ∈ c.attentionGroups) (quiet : ¬ c.Raises g)
    (covered : limit / c.hashBlockSize ≤ cs.length) (le : n ≤ limit) :
    c.Lookup p cs g n (c.hitLength p cs g n) := by
  obtain ⟨length, lookup⟩ := findHit_lookup p mem quiet covered le
  rwa [lookup.hitLength_eq]

section
variable (lookup : c.Lookup p cs g n (c.hitLength p cs g n))
include lookup

theorem Lookup.kept_iff : c.hitLength p cs g n = n ↔ c.Reaches p cs g n :=
  ⟨lookup.accepted, fun reaches => le_antisymm lookup.below (lookup.greatest n le_rfl reaches)⟩

theorem Lookup.accepts_iff : c.Accepts p cs g n ↔ c.hitLength p cs g n = n := by
  obtain ⟨rs, ran, length⟩ := lookup.ran
  constructor
  · rintro ⟨rows', ran', same⟩
    rw [ran] at ran'
    cases ran'
    rw [← length, same]
  · exact fun kept => ⟨rs, ran, length.trans kept⟩

end

theorem hitLength_lowers (mem : g ∈ c.attentionGroups) (quiet : ¬ c.Raises g)
    (covered : limit / c.hashBlockSize ≤ cs.length) :
    Lowers (c.hitLength p cs g) limit := by
  refine ⟨fun n lt => (lookup_hitLength p mem quiet covered lt).below, fun n lt k below kept => ?_⟩
  refine (lookup_hitLength p mem quiet covered lt).greatest k below ?_
  exact (lookup_hitLength p mem quiet covered (below.trans lt)).kept_iff.mp kept

theorem Reaches.shorten (full : g.spec.kvCacheSpec.isFullAttention = true) (reaches : c.Reaches p cs g n)
    {m : Nat} (aligned : c.lcmBlockSize ∣ m) (below : m ≤ n) : c.Reaches p cs g m := by
  refine ⟨aligned, fun j _ last => reaches.cached j ?_ (last.trans_le (Nat.div_le_div_right below))⟩
  rw [firstRead_full full]
  exact zero_le j

theorem lookupGroup_step (plain : c.eagleGroupIds = []) (mem : g ∈ c.attentionGroups) (quiet : ¬ c.Raises g)
    (covered : limit / c.hashBlockSize ≤ cs.length) (le : curr ≤ limit)
    (trimmed : c.Trimmed p cs curr s) (idx : Nat) :
    ∃ state', c.lookupGroup p cs limit (curr, s) (g, idx) = .ok (c.hitLength p cs g curr, state') ∧
      c.Trimmed p cs (c.hitLength p cs g curr) state' := by
  have lookup := lookup_hitLength p mem quiet covered le
  have noEagle : c.isEagle g = false := by simp [isEagle, plain]
  unfold lookupGroup
  dsimp only
  split
  · rename_i cached
    have reaches := trimmed g mem cached.1 cached.2
    rw [lookup.kept_iff.mpr reaches, reaches.whole mem]
    exact ⟨s, rfl, trimmed⟩
  · rw [noEagle]
    obtain ⟨rs, ran, length⟩ := lookup.ran
    rw [Bool.false_and, if_neg Bool.false_ne_true, ran]
    dsimp only [Except.map]
    rw [length]
    refine ⟨_, rfl, fun other isGroup full looked => ?_⟩
    by_cases same : other = g
    · rw [same] at full ⊢
      exact lookup.reaches (KVCacheSpec.not_chunkedLocal_of_full full)
    refine (trimmed other isGroup full ?_).shorten full lookup.aligned lookup.below
    cases ids : other.groupIds with
    | nil =>
      rw [ids] at looked
      cases looked
    | cons first rest =>
      have away : first ∉ g.groupIds := fun again =>
        same (eq_of_mem_groupIds isGroup mem (by rw [ids]; exact mem_cons_self) again)
      rw [ids, head?_cons, Option.bind_some] at looked
      rw [writeHit_of_not_mem _ _ _ away] at looked
      exact looked

variable {es : List (AttentionGroup × Nat)}

theorem visitRound (plain : c.eagleGroupIds = []) (covered : limit / c.hashBlockSize ≤ cs.length)
    (members : ∀ e ∈ es, e.1 ∈ c.attentionGroups ∧ ¬ c.Raises e.1)
    (le : curr ≤ limit) (trimmed : c.Trimmed p cs curr s) :
    ∃ state', es.foldlM (c.lookupGroup p cs limit) (curr, s) =
        .ok (visit (c.hitLength p cs) (es.map Prod.fst) curr, state') ∧
      c.Trimmed p cs (visit (c.hitLength p cs) (es.map Prod.fst) curr) state' := by
  induction es generalizing curr s with
  | nil => exact ⟨s, rfl, trimmed⟩
  | cons e rest ih =>
    obtain ⟨mem, quiet⟩ := members e mem_cons_self
    obtain ⟨next, ran, trimmed'⟩ := lookupGroup_step plain mem quiet covered le trimmed e.2
    have below := (lookup_hitLength p mem quiet covered le).below
    rw [foldlM_cons, ran, ok_bind, map_cons, visit_cons]
    exact ih (fun e later => members e (mem_cons_of_mem _ later)) (below.trans le) trimmed'

theorem findHit_raises (p : BlockPool) (hs : List BlockHash) (raises : c.Raises g) (n : Nat) :
    ∃ e, c.findHit p hs g n false = .error e := by
  rcases raises with cross | ⟨chunked, ne⟩
  · unfold findHit
    rw [cross]
    exact ⟨_, rfl⟩
  · obtain ⟨e, failed, -⟩ := findHit_refused p hs n chunked (.inr ne)
    exact ⟨e, failed⟩

theorem lookupGroup_raises (plain : c.eagleGroupIds = []) (raises : c.Raises g) (p : BlockPool)
    (hs : List BlockHash) (limit curr : Nat) (s : LookupState) (idx : Nat) :
    ∃ e, c.lookupGroup p hs limit (curr, s) (g, idx) = .error e := by
  have notFull : g.spec.kvCacheSpec.isFullAttention ≠ true := by
    rcases raises with cross | ⟨chunked, -⟩
    · rw [cross]
      exact Bool.false_ne_true
    · intro full
      rw [KVCacheSpec.not_chunkedLocal_of_full full] at chunked
      cases chunked
  have noEagle : c.isEagle g = false := by simp [isEagle, plain]
  obtain ⟨e, failed⟩ := findHit_raises p hs raises curr
  refine ⟨e, ?_⟩
  unfold lookupGroup
  dsimp only
  rw [if_neg fun both => notFull both.1, noEagle, Bool.false_and, if_neg Bool.false_ne_true, failed]
  rfl

theorem visitRound_raises (plain : c.eagleGroupIds = [])
    (covered : limit / c.hashBlockSize ≤ cs.length) (members : ∀ entry ∈ es, entry.1 ∈ c.attentionGroups)
    (raises : ∃ entry ∈ es, c.Raises entry.1) (le : curr ≤ limit) (trimmed : c.Trimmed p cs curr s) :
    ∃ e, es.foldlM (c.lookupGroup p cs limit) (curr, s) = .error e := by
  induction es generalizing curr s with
  | nil =>
    obtain ⟨entry, none, -⟩ := raises
    cases none
  | cons entry rest ih =>
    by_cases loud : c.Raises entry.1
    · obtain ⟨e, failed⟩ := lookupGroup_raises plain loud p cs limit curr s entry.2
      refine ⟨e, ?_⟩
      rw [foldlM_cons, failed]
      rfl
    · have member := members entry mem_cons_self
      obtain ⟨next, ran, trimmed'⟩ := lookupGroup_step plain member loud covered le trimmed entry.2
      have below := (lookup_hitLength p member loud covered le).below
      rw [foldlM_cons, ran, ok_bind]
      refine ih (fun entry later => members entry (mem_cons_of_mem _ later)) ?_ (below.trans le) trimmed'
      obtain ⟨other, isEntry, raises⟩ := raises
      rcases mem_cons.mp isEntry with rfl | later
      · exact absurd raises loud
      · exact ⟨other, later, raises⟩

end

/-! ### The greatest length -/

section
variable (c : HybridKVCacheCoordinator) (pool : BlockPool) (blockHashes : List BlockHash)
  (maxCacheHitLength : Nat)

def Common : Set Nat :=
  {n | n ≤ maxCacheHitLength ∧ ∀ group ∈ c.attentionGroups, c.Accepts pool blockHashes group n}

/-- The length that is found is the greatest common one, in whatever order the groups are
visited. -/
structure FindsGreatest : Prop where
  found : ∃ blocks n, c.findLongestCacheHit pool blockHashes maxCacheHitLength = .ok (blocks, n) ∧
    IsGreatest (c.Common pool blockHashes maxCacheHitLength) n
  anyOrder : ∀ order, order.Perm c.attentionGroups →
    ∃ n state, c.visitGroups order pool blockHashes maxCacheHitLength = .ok (n, state) ∧
      IsGreatest (c.Common pool blockHashes maxCacheHitLength) n

/-- There is full attention and chunked local attention, and the chunk in which the prefix of full
attention ends starts in a missing block. -/
def StopsEarly : Prop :=
  ∃ full chunked chunkSize positive n, c.attentionGroups = [full, chunked] ∧
    full.spec.kvCacheSpec.isFullAttention = true ∧
      chunked.spec.kvCacheSpec = .chunkedLocalAttention chunkSize positive ∧
    IsGreatest {m | m ≤ maxCacheHitLength ∧ c.Reaches pool blockHashes full m} n ∧
    c.ChunkStartsMissing pool blockHashes chunked chunkSize n

end

section
variable {order : List AttentionGroup} (plain : c.eagleGroupIds = [])
  (covered : limit / c.hashBlockSize ≤ cs.length)

section
variable (quiet : ∀ g ∈ c.attentionGroups, ¬ c.Raises g) (perm : order.Perm c.attentionGroups)
include covered quiet perm

theorem visited_lowers : ∀ g ∈ order, Lowers (c.hitLength p cs g) limit := by
  intro g isVisited
  have member := perm.mem_iff.mp isVisited
  exact hitLength_lowers member (quiet g member) covered

include plain in
theorem visited_round (le : curr ≤ limit) (trimmed : c.Trimmed p cs curr s) :
    ∃ state', order.zipIdx.foldlM (c.lookupGroup p cs limit) (curr, s) =
        .ok (visit (c.hitLength p cs) order curr, state') ∧
      c.Trimmed p cs (visit (c.hitLength p cs) order curr) state' := by
  have members : ∀ e ∈ order.zipIdx, e.1 ∈ c.attentionGroups ∧ ¬ c.Raises e.1 := fun e isEntry =>
    have member := perm.mem_iff.mp (fst_mem_of_mem_zipIdx isEntry)
    ⟨member, quiet _ member⟩
  have ran := visitRound plain covered members le trimmed
  rwa [zipIdx_map_fst] at ran

theorem kept_eq_common :
    Kept (c.hitLength p cs) order limit = c.Common p cs limit := by
  ext n
  refine and_congr_right fun lt => ?_
  constructor
  · intro kept g member
    exact (lookup_hitLength p member (quiet g member) covered lt).accepts_iff.mpr
      (kept g (perm.mem_iff.mpr member))
  · intro accepts g isVisited
    have member := perm.mem_iff.mp isVisited
    exact (lookup_hitLength p member (quiet g member) covered lt).accepts_iff.mp (accepts g member)

end

theorem trimmed_start : c.Trimmed p cs limit ⟨replicate c.kvCacheGroups.length none, []⟩ := by
  intro g _ _ looked
  obtain ⟨hit, at_⟩ := Option.isSome_iff_exists.mp looked
  obtain ⟨first, -, at_⟩ := Option.bind_eq_some_iff.mp at_
  have cached := Option.join_eq_some_iff.mp at_
  rw [getElem?_replicate] at cached
  split at cached <;> cases cached

include covered in
theorem simple_isGreatest_iff {full other : AttentionGroup} (quiet : ∀ g ∈ c.attentionGroups, ¬ c.Raises g)
    (perm : [full, other].Perm c.attentionGroups) (isFull : full.spec.kvCacheSpec.isFullAttention = true) :
    IsGreatest (c.Common p cs limit) (visit (c.hitLength p cs) [full, other] limit) ↔
      c.Reaches p cs other (c.hitLength p cs other (c.hitLength p cs full limit)) := by
  have fullMember := perm.mem_iff.mp (show full ∈ [full, other] from mem_cons_self)
  have otherMember := perm.mem_iff.mp (show other ∈ [full, other] from mem_cons_of_mem _ mem_cons_self)
  have first := lookup_hitLength p fullMember (quiet full fullMember) covered le_rfl
  have second := lookup_hitLength p otherMember (quiet other otherMember) covered first.below
  have inside := second.below.trans first.below
  have fullKeeps := (first.reaches (KVCacheSpec.not_chunkedLocal_of_full isFull)).shorten isFull
    second.aligned second.below
  rw [← kept_eq_common covered quiet perm, visit_isGreatest_iff (visited_lowers covered quiet perm)]
  rw [forall_mem_cons, forall_mem_singleton]
  constructor
  · rintro ⟨-, kept⟩
    exact (lookup_hitLength p otherMember (quiet other otherMember) covered inside).kept_iff.mp kept
  · intro reaches
    exact ⟨(lookup_hitLength p fullMember (quiet full fullMember) covered inside).kept_iff.mpr fullKeeps,
      (lookup_hitLength p otherMember (quiet other otherMember) covered inside).kept_iff.mpr reaches⟩

include covered in
theorem chunked_reaches_iff {size n : Nat} {pos : 0 < size} (mem : g ∈ c.attentionGroups)
    (quiet : ¬ c.Raises g) (spec : g.spec.kvCacheSpec = .chunkedLocalAttention size pos)
    (le : n ≤ limit) (whole : c.lcmBlockSize ∣ n) : c.Reaches p cs g (c.hitLength p cs g n) ↔
      ¬ c.ChunkStartsMissing p cs g size n := by
  have same := fun j (before : j < n / g.spec.blockSize) => getElem?_indexedHashes
    (spec_mem mem) covered le before
  obtain ⟨one, hits, rs, ran, found⟩ :=
    findHit_chunked p spec quiet (c.length_indexedHashes covered le g.spec.blockSize)
  rw [(lookup_of_chunkRows spec same found mem one ran).hitLength_eq]
  exact reaches_chunkRows_iff spec same found one (one ▸ whole)

include covered in
theorem isGreatest_full_iff {full : AttentionGroup} (mem : full ∈ c.attentionGroups) (quiet : ¬ c.Raises full)
    (isFull : full.spec.kvCacheSpec.isFullAttention = true) (n : Nat) :
    IsGreatest {m | m ≤ limit ∧ c.Reaches p cs full m} n ↔
      n = c.hitLength p cs full limit := by
  have lookup := lookup_hitLength p mem quiet covered le_rfl
  have greatest : IsGreatest {m | m ≤ limit ∧ c.Reaches p cs full m}
      (c.hitLength p cs full limit) :=
    ⟨⟨lookup.below, lookup.reaches (KVCacheSpec.not_chunkedLocal_of_full isFull)⟩,
      fun m other => lookup.greatest m other.1 other.2⟩
  exact ⟨fun other => other.unique greatest, fun same => same ▸ greatest⟩

theorem attentionGroups_eq {full other : AttentionGroup} (perm : [full, other].Perm c.attentionGroups)
    (isFull : full.spec.kvCacheSpec.isFullAttention = true)
    (notFull : other.spec.kvCacheSpec.isFullAttention = false) :
    c.attentionGroups = [full, other] := by
  have sorted : c.attentionGroups.filter (·.spec.kvCacheSpec.isFullAttention) ++
      c.attentionGroups.filter (!·.spec.kvCacheSpec.isFullAttention) = c.attentionGroups := by
    unfold attentionGroups
    simp [filter_append, filter_filter]
  have first := perm.filter (·.spec.kvCacheSpec.isFullAttention)
  have second := perm.filter (!·.spec.kvCacheSpec.isFullAttention)
  simp only [filter_cons, isFull, notFull, if_true, Bool.false_eq_true, if_false, filter_nil, Bool.not_true,
    Bool.not_false] at first second
  rw [← sorted, ← singleton_perm.mp first, ← singleton_perm.mp second]
  rfl

include plain covered in
theorem visitGroups_greatest (quiet : ∀ g ∈ c.attentionGroups, ¬ c.Raises g)
    (perm : order.Perm c.attentionGroups)
    (early : ¬ c.StopsEarly p cs limit) : ∃ n s, c.visitGroups order p cs limit = .ok (n, s) ∧
      IsGreatest (c.Common p cs limit) n := by
  have lowers : ∀ g ∈ order, Lowers (c.hitLength p cs g) limit :=
    visited_lowers covered quiet perm
  unfold visitGroups
  cases simple : order.length == 2 && order.head?.any (·.spec.kvCacheSpec.isFullAttention) with
  | false =>
    rw [← kept_eq_common covered quiet perm]
    exact narrow_greatest lowers (fun _ _ => visited_round plain covered quiet perm) trimmed_start
  | true =>
    obtain ⟨s', ran, -⟩ := visited_round plain covered quiet perm le_rfl trimmed_start
    refine ⟨_, s', narrow_once lowers ran, ?_⟩
    rw [Bool.and_eq_true, beq_iff_eq] at simple
    obtain ⟨full, other, rfl⟩ := length_eq_two.mp simple.1
    have isFull : full.spec.kvCacheSpec.isFullAttention = true := simple.2
    have fullMember := perm.mem_iff.mp (show full ∈ [full, other] from mem_cons_self)
    have otherMember := perm.mem_iff.mp (show other ∈ [full, other] from mem_cons_of_mem _ mem_cons_self)
    have first := lookup_hitLength p fullMember (quiet full fullMember) covered le_rfl
    rw [simple_isGreatest_iff covered quiet perm isFull]
    cases spec : other.spec.kvCacheSpec with
    | chunkedLocalAttention size pos =>
      refine (chunked_reaches_iff covered otherMember (quiet other otherMember) spec first.below
        first.aligned).mpr fun missing => ?_
      refine early ⟨full, other, size, pos, _, ?_, isFull, spec,
        (isGreatest_full_iff covered fullMember (quiet full fullMember) isFull _).mpr rfl, missing⟩
      exact attentionGroups_eq perm isFull (by rw [spec]; rfl)
    | _ =>
      refine (lookup_hitLength p otherMember (quiet other otherMember) covered first.below).reaches ?_
      rw [spec]
      rfl

include plain covered in
theorem visitGroups_early (quiet : ∀ g ∈ c.attentionGroups, ¬ c.Raises g) (early : c.StopsEarly p cs limit) :
    ∃ n s, c.visitGroups c.attentionGroups p cs limit = .ok (n, s) ∧
      ¬ IsGreatest (c.Common p cs limit) n := by
  obtain ⟨full, chunked, size, pos, n, gs, isFull, spec, greatest, missing⟩ := early
  have fullMember : full ∈ c.attentionGroups := by
    rw [gs]
    exact mem_cons_self
  have chunkedMember : chunked ∈ c.attentionGroups := by
    rw [gs]
    exact mem_cons_of_mem _ mem_cons_self
  have first := lookup_hitLength p fullMember (quiet full fullMember) covered le_rfl
  rw [(isGreatest_full_iff covered fullMember (quiet full fullMember) isFull n).mp greatest] at missing
  obtain ⟨s', ran, -⟩ := visited_round plain covered quiet (.refl _) le_rfl
    (trimmed_start : c.Trimmed p cs limit _)
  refine ⟨visit (c.hitLength p cs) c.attentionGroups limit, s', ?_, fun isGreatest => ?_⟩
  · have simple : (c.attentionGroups.length == 2 &&
        c.attentionGroups.head?.any (·.spec.kvCacheSpec.isFullAttention)) = true := by
      rw [gs]
      simpa using isFull
    unfold visitGroups
    rw [simple]
    exact narrow_once (visited_lowers covered quiet (.refl _)) ran
  · rw [gs, simple_isGreatest_iff covered quiet (gs ▸ List.Perm.refl _) isFull,
      chunked_reaches_iff covered chunkedMember (quiet chunked chunkedMember) spec first.below
        first.aligned] at isGreatest
    exact isGreatest missing

end

theorem findLongestCacheHit_eq (c : HybridKVCacheCoordinator) (p : BlockPool) (hs : List BlockHash)
    (limit : Nat) : c.findLongestCacheHit p hs limit =
      (c.visitGroups c.attentionGroups p hs limit).map fun (hitLength, s) =>
        ((c.truncateFirst hitLength s.hitBlocksByGroup).map (·.getD []), hitLength) := rfl

/-- The lookup raises if the lookup of a group does. Otherwise it finds the greatest length that all
groups accept unless it stops early. -/
theorem findLongestCacheHit_greatest_iff (c : HybridKVCacheCoordinator) (pool : BlockPool)
    (blockHashes : List BlockHash) (maxCacheHitLength : Nat) (plain : c.eagleGroupIds = [])
    (covered : maxCacheHitLength / c.hashBlockSize ≤ blockHashes.length) :
    ((∃ group ∈ c.attentionGroups, c.Raises group) →
      ∃ e, c.findLongestCacheHit pool blockHashes maxCacheHitLength = .error e) ∧
    ((∀ group ∈ c.attentionGroups, ¬ c.Raises group) →
      (c.FindsGreatest pool blockHashes maxCacheHitLength ↔
        ¬ c.StopsEarly pool blockHashes maxCacheHitLength)) := by
  constructor
  · rintro ⟨group, member, raises⟩
    obtain ⟨i, at_⟩ := getElem?_of_mem member
    obtain ⟨e, failed⟩ := visitRound_raises plain covered (fun entry isEntry => fst_mem_of_mem_zipIdx isEntry)
      ⟨(group, i), mem_zipIdx_iff_getElem?.mpr at_, raises⟩ le_rfl
      (trimmed_start : c.Trimmed pool blockHashes maxCacheHitLength _)
    refine ⟨e, ?_⟩
    rw [findLongestCacheHit_eq, visitGroups, narrow_eq, failed]
    rfl
  · intro quiet
    constructor
    · intro finds early
      obtain ⟨n, state, ran, notGreatest⟩ := visitGroups_early plain covered quiet early
      obtain ⟨blocks, n', found, greatest⟩ := finds.found
      rw [findLongestCacheHit_eq, ran] at found
      cases found
      exact notGreatest greatest
    · intro early
      obtain ⟨n, state, ran, greatest⟩ := visitGroups_greatest plain covered quiet (List.Perm.refl _) early
      refine ⟨⟨(c.truncateFirst n state.hitBlocksByGroup).map (·.getD []), n, ?_, greatest⟩,
        fun order perm => visitGroups_greatest plain covered quiet perm early⟩
      rw [findLongestCacheHit_eq, ran]
      rfl

theorem findLongestCacheHit_greatest_threeGroups :
    twoFullAndWindow.FindsGreatest BlockPool.threeBlocks [[1], [2], [3]] 6 := by
  refine ((findLongestCacheHit_greatest_iff twoFullAndWindow threeBlocks [[1], [2], [3]] 6 rfl (by decide)).2
    (by decide)).mpr ?_
  rintro ⟨full, chunked, chunkSize, positive, n, groups, -⟩
  have two : twoFullAndWindow.attentionGroups.length = 2 := by rw [groups]; rfl
  exact absurd two (by decide)

theorem blockOfFour_pos : 0 < 4 := by decide

def fullAndChunked : HybridKVCacheCoordinator where
  hashBlockSize := 4
  kvCacheGroups := [⟨.fullAttention, 4, blockOfFour_pos, 0⟩,
    ⟨.chunkedLocalAttention 6 (Nat.succ_pos _), 4, blockOfFour_pos, 0⟩]
  eagleGroupIds := []
  divisible := by decide
  several := by decide

def nineTokens : SlotArgs where
  request := ⟨"a", 9, 0, [[1], [2]]⟩
  numNewTokens := 9

/-- The blocks of chunked local attention are evicted. Its second chunk starts at token 6, so for 8
tokens it skips the first block and returns 4 tokens; asked for 4 tokens, it reads the first block
and returns none. -/
theorem findLongestCacheHit_stopsEarly : ∃ kv,
    (KVCacheManager.new 16 12 true 4 (groupConfigs fullAndChunked.kvCacheGroups) >>=
      (·.run [.allocateSlots nineTokens, .evictBlocks [4, 5]])) = .ok kv ∧
    fullAndChunked.findLongestCacheHit kv.blockPool [[1], [2]] 8 = .ok ([[1], [0]], 4) ∧
    ¬ fullAndChunked.FindsGreatest kv.blockPool [[1], [2]] 8 := by
  have ran : ((KVCacheManager.new 16 12 true 4 (groupConfigs fullAndChunked.kvCacheGroups) >>=
      (·.run [.allocateSlots nineTokens, .evictBlocks [4, 5]])).map fun kv =>
        (fullAndChunked.findLongestCacheHit kv.blockPool [[1], [2]] 8,
          fullAndChunked.attentionGroups.map fun group => fullAndChunked.findHit kv.blockPool [[1],
            [2]] group 4 false)) =
      .ok (.ok ([[1], [0]], 4), [.ok [[1]], .ok []]) := rfl
  obtain ⟨kv, ran, results⟩ := map_ok ran
  obtain ⟨found, lookups⟩ := Prod.mk.inj results
  refine ⟨kv, ran, found, fun finds => ?_⟩
  obtain ⟨blocks, n, again, ⟨-, accepted⟩, -⟩ := finds.found
  rw [found] at again
  cases again
  obtain ⟨group, member, failed⟩ := mem_map.mp (lookups ▸ mem_cons_of_mem _ mem_cons_self :
    .ok [] ∈ fullAndChunked.attentionGroups.map fun group => fullAndChunked.findHit kv.blockPool
      [[1], [2]] group 4 false)
  obtain ⟨rows, hit, length⟩ := accepted group member
  rw [failed] at hit
  cases hit
  rw [length_nil, zero_mul] at length
  cases length

end HybridKVCacheCoordinator

end TurboQuant.Core
