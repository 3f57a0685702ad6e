import TurboQuant.Lib.Keyed
import TurboQuant.Ascend.CompressManager
import TurboQuant.Core.HybridLookup

/-!
Which request has filled the blocks that a prefix lookup of a compressed group returns.
-/

namespace TurboQuant.Ascend
open TurboQuant.Core Outcome Chain Segments List SingleTypeKVCacheManager BlockPool Nat PoolConfig
  CompressAttentionManager BlockHashToBlockMap

variable {pool bp p pool' p' : BlockPool} {hashes hs : List BlockHash}
  {kvCacheGroupIds ids : List Nat} {i : Nat} {req : Served} {id : String}

/-- A hash function without collisions whose digests can be taken apart when they are joined, as
digests of one length can. No digest is the seed of the first block. -/
structure Decodable (hasher : Hasher) : Prop extends hasher.CollisionFree where
  prefixFree : ∀ input input', hasher.cachingHashFn input <+: hasher.cachingHashFn input' →
    hasher.cachingHashFn input = hasher.cachingHashFn input'
  fresh : ∀ input, hasher.cachingHashFn input ≠ hasher.noneHash

/-- The first `n` blocks of two requests are full and have the same tokens and extra keys. -/
def SameBlocks (hasher : Hasher) (n : Nat) (s s' : Served) : Prop :=
  n ≤ s.final.numTokens / hasher.blockSize ∧ n ≤ s'.final.numTokens / hasher.blockSize ∧
    (s.blocks hasher).take n = (s'.blocks hasher).take n

/-! ### Hashes of larger blocks -/

variable {n : Nat}

section
variable {h : Hasher} {s s' : Served} {hashBlockSize size : Nat}

theorem length_blockHashes (s : Served) (h : Hasher) :
    (s.blockHashes h).length = s.final.numTokens / h.blockSize := by
  rw [s.blockHashes_eq, chain_length, Served.blocks, Hasher.blocks, length_map, length_range]

theorem scale_pos (pos : 0 < size) (divisible : hashBlockSize ∣ size) : 0 < size / hashBlockSize :=
  div_pos (le_of_dvd pos divisible) (pos_of_dvd_of_pos divisible pos)

theorem hashesAt_eq (pos : 0 < size) (hashBlockSize : Nat) (hs : List BlockHash) :
      hashesAt hashBlockSize size hs = blockHashListWithBlockSize hs (size / hashBlockSize) := by
  unfold hashesAt
  split
  · rename_i same
    rw [← same, Nat.div_self pos]
    apply ext_getElem?
    intro i
    rw [blockHashListWithBlockSize, getElem?_map, Nat.div_one]
    by_cases lt : i < hs.length
    · rw [getElem?_range lt, Option.map_some, mul_one, getElem?_eq_getElem lt,
        drop_eq_getElem_cons lt, take_succ_cons, take_zero, flatten_singleton]
    · rw [getElem?_eq_none (by omega), getElem?_eq_none (by simpa using lt)]
      rfl
  · rfl

theorem hashesAt_getElem? (pos : 0 < size) (divisible : hashBlockSize ∣ size) {h : BlockHash} :
    (hashesAt hashBlockSize size hs)[i]? = some h ↔ (i + 1) * (size / hashBlockSize) ≤ hs.length ∧
        h = ((hs.drop (i * (size / hashBlockSize))).take (size / hashBlockSize)).flatten := by
  have lt : i < hs.length / (size / hashBlockSize) ↔
      (i + 1) * (size / hashBlockSize) ≤ hs.length := le_div_iff_mul_le (scale_pos pos divisible)
  rw [hashesAt_eq pos, blockHashListWithBlockSize, getElem?_map, ← lt]
  by_cases less : i < hs.length / (size / hashBlockSize)
  · rw [getElem?_range less, Option.map_some, Option.some.injEq]
    exact ⟨fun same => ⟨less, same.symm⟩, fun here => here.2.symm⟩
  · rw [getElem?_eq_none (by simpa using less)]
    exact ⟨fun here => (by cases here), fun here => absurd here.1 less⟩

variable {d : BlockHash}

theorem exists_digest (mem : d ∈ s.blockHashes h) : ∃ input, d = h.cachingHashFn input := by
  rw [s.blockHashes_eq] at mem
  obtain ⟨k, at_⟩ := mem_iff_getElem?.mp mem
  have lt : k < (s.blocks h).length := by
    rw [← chain_length h.hashBlockTokens none]
    exact (List.getElem_of_getElem? at_).1
  obtain ⟨parent, same⟩ := chain_getElem? h.hashBlockTokens none (getElem?_eq_getElem lt)
  rw [at_, Option.some.injEq] at same
  exact ⟨_, same⟩

theorem Decodable.hash_index_eq (free : Decodable h) {k k' : Nat}
    (found : (s.blockHashes h)[k]? = some d) (found' : (s'.blockHashes h)[k']? = some d) : k = k' := by
  rw [s.blockHashes_eq] at found
  rw [s'.blockHashes_eq] at found'
  refine index_eq_of_chain_eq (fun _ _ _ _ _ _ => free.toCollisionFree.parent_inj) ?_ found found'
  intro prev old block block' same
  have parents := congrArg Prod.fst (free.injective same)
  have digest : h.hashBlockTokens prev old ≠ [] := free.nonempty _
  simp only [if_neg digest] at parents
  exact free.fresh _ parents

theorem Decodable.sameBlocks (free : Decodable h) (pos : 0 < size) (divisible : h.blockSize ∣ size)
    {j : Nat} {hash : BlockHash} (found : (hashesAt h.blockSize size (s.blockHashes h))[i]? = some hash)
    (found' : (hashesAt h.blockSize size (s'.blockHashes h))[j]? = some hash) :
    i = j ∧ SameBlocks h ((i + 1) * (size / h.blockSize)) s s' := by
  obtain ⟨full, rfl⟩ := (hashesAt_getElem? pos divisible).mp found
  obtain ⟨full', joined⟩ := (hashesAt_getElem? pos divisible).mp found'
  have scale := scale_pos pos divisible
  generalize size / h.blockSize = k at full full' joined scale ⊢
  rw [succ_mul] at full full' ⊢
  have slices : ((s.blockHashes h).drop (i * k)).take k = ((s'.blockHashes h).drop (j * k)).take k := by
    refine flatten_inj (fun a mem b member' either => ?_) ?_ joined
    · obtain ⟨input, rfl⟩ := exists_digest (mem_of_mem_drop (mem_of_mem_take mem))
      obtain ⟨input', rfl⟩ := exists_digest (mem_of_mem_drop (mem_of_mem_take member'))
      exact either.elim (free.prefixFree input input') fun back => (free.prefixFree input' input back).symm
    · simp only [length_take, length_drop]
      omega
  -- the last hash of the slice
  have last : (s.blockHashes h)[i * k + (k - 1)]? = (s'.blockHashes h)[j * k + (k - 1)]? := by
    have at_ := congrArg (·[k - 1]?) slices
    simpa only [getElem?_take_of_lt (sub_lt scale one_pos), getElem?_drop] using at_
  have here : i * k + (k - 1) < (s.blockHashes h).length := by omega
  rw [getElem?_eq_getElem here] at last
  have index := free.hash_index_eq (getElem?_eq_getElem here) last.symm
  have same : i = j := by
    have : i * k = j * k := by omega
    exact eq_of_mul_eq_mul_right scale this
  subst same
  obtain ⟨⟨lt, lt'⟩, bs⟩ := (hashes_eq_iff_blocks free.toCollisionFree).mp
    ⟨_, getElem?_eq_getElem here, last.symm⟩
  rw [show i * k + (k - 1) + 1 = i * k + k by omega] at bs
  exact ⟨rfl, by omega, by omega, bs⟩

theorem SameBlocks.hashes_take (same : SameBlocks h n s s') :
    (s.blockHashes h).take n = (s'.blockHashes h).take n := by
  rw [s.blockHashes_eq, s'.blockHashes_eq, ← chain_take, ← chain_take, same.2.2]

theorem SameBlocks.hashesAt_eq (same : SameBlocks h ((i + 1) * (size / h.blockSize)) s s')
    (pos : 0 < size) (divisible : h.blockSize ∣ size) {k : Nat} (before : k ≤ i) :
    ∃ hash, (hashesAt h.blockSize size (s.blockHashes h))[k]? = some hash ∧
      (hashesAt h.blockSize size (s'.blockHashes h))[k]? = some hash := by
  have take := same.hashes_take
  obtain ⟨full, full', -⟩ := same
  rw [← length_blockHashes] at full full'
  have le : (k + 1) * (size / h.blockSize) ≤ (i + 1) * (size / h.blockSize) :=
    mul_le_mul_right _ (succ_le_succ before)
  refine ⟨_, (hashesAt_getElem? pos divisible).mpr ⟨le.trans full, rfl⟩,
    (hashesAt_getElem? pos divisible).mpr ⟨le.trans full', ?_⟩⟩
  have slice : ∀ l : List BlockHash, (l.drop (k * (size / h.blockSize))).take (size / h.blockSize) =
      ((l.take ((i + 1) * (size / h.blockSize))).drop (k * (size / h.blockSize))).take
        (size / h.blockSize) := by
    intro l
    rw [succ_mul] at le
    rw [drop_take, take_take]
    congr 1
    omega
  rw [slice, take, ← slice]

end

/-! ### What a lookup returns -/

variable {row : List Nat}

theorem cachedRows_getElem? (at_ : (p.cachedRows ids hs)[i]? = some row) :
    ∃ h, hs[i]? = some h ∧ p.getCachedBlock h ids = some row := by
  induction hs generalizing i with
  | nil => cases at_
  | cons h rest ih =>
    unfold cachedRows at at_
    split at at_
    · rename_i cachedBlock found
      cases i with
      | zero =>
        cases at_
        exact ⟨h, rfl, found⟩
      | succ i => exact ih at_
    · cases at_

theorem findCompressedHit_getElem? {limit size compressRatio align : Nat} {useEagle : Bool}
    (at_ : (findCompressedHit p hs limit ids size compressRatio useEagle align)[i]? = some row) :
    ∃ h, hs[i]? = some h ∧ p.getCachedBlock h ids = some row := by
  have ofTake : ∀ {l : List (List Nat)} {n : Nat}, (l.take n)[i]? = some row → l[i]? = some row := by
    intro l n here
    rw [getElem?_take] at here
    split at here
    · exact here
    · cases here
  have scanned : (p.cachedRows ids (hs.take (limit / size)))[i]? = some row := by
    have kept := ofTake at_
    split at kept
    · rw [dropLast_eq_take] at kept
      exact ofTake kept
    · exact kept
  obtain ⟨h, here, found⟩ := cachedRows_getElem? scanned
  rw [getElem?_take] at here
  split at here
  · exact ⟨h, here, found⟩
  · cases here

theorem length_cachedRows_of_cached (cached : ∀ h ∈ hs, ∃ row, p.getCachedBlock h ids = some row) :
    (p.cachedRows ids hs).length = hs.length := by
  induction hs with
  | nil => rfl
  | cons h rest ih =>
    obtain ⟨row, found⟩ := cached h mem_cons_self
    rw [cachedRows, found]
    exact congrArg succ (ih fun other mem => cached other (mem_cons_of_mem _ mem))

/-! ### Every registered block was filled by its writer -/

structure CompressedGroup where
  blockSize : Nat
  positive : 0 < blockSize
  compressRatio : Nat
  compresses : 0 < compressRatio
  kvCacheGroupId : Nat
  small : kvCacheGroupId < 2 ^ 32

namespace CompressedGroup

def manager (group : CompressedGroup) : CompressAttentionManager :=
  .new group.blockSize group.positive group.kvCacheGroupId group.compressRatio group.compresses

def covered (group : CompressedGroup) (i : Nat) : Nat := (i + 1) * group.blockSize * group.compressRatio

end CompressedGroup

variable {es : List (Nat × Nat)}

section
variable {hasher h : Hasher} {group g : CompressedGroup} {requests : Set Served}

section
variable (hasher : Hasher) (group : CompressedGroup) (requests : Set Served)

def Written (writer : Nat → Option (Served × Nat)) (b : Nat) (key : BlockHashWithGroupId) : Prop :=
  (∃ hash other, key = makeBlockHashWithGroupId hash other ∧ other ≠ group.kvCacheGroupId ∧ other < 2 ^ 32) ∨
    ∃ s ∈ requests, ∃ i hash, writer b = some (s, i) ∧ group.covered i ≤ s.final.numTokens ∧
      (hashesAt hasher.blockSize group.blockSize (s.blockHashes hasher))[i]? = some hash ∧
      key = makeBlockHashWithGroupId hash group.kvCacheGroupId

structure CompressedCache.Inv (cache : CompressedCache) :
    Prop where
  caching : cache.pool.enableCaching = true
  size : cache.pool.hashBlockSize = hasher.blockSize
  config : cache.manager.base.toManagerConfig = group.manager.base.toManagerConfig
  ratio : cache.manager.compressRatio = group.compressRatio
  hashes : cache.pool.HashInv
  written : ∀ b key, (cache.pool.blocks b).blockHash = some key →
    Written hasher group requests cache.writer b key

end

theorem CompressedCache.Inv.sheds {c : CompressedCache} (inv : c.Inv h g requests)
    (sheds : c.pool.Sheds p) (m : CompressAttentionManager)
    (cfg : m.base.toManagerConfig = c.manager.base.toManagerConfig)
    (ratio : m.compressRatio = c.manager.compressRatio) {taken : List Nat}
    (gone : ∀ b ∈ taken, (p.blocks b).blockHash = none) :
    CompressedCache.Inv h g requests ⟨p, m, forget taken c.writer⟩ := by
  refine ⟨(congrArg enableCaching sheds.config).trans inv.caching,
    (congrArg hashBlockSize sheds.config).trans inv.size, cfg.trans inv.config, ratio.trans inv.ratio,
    sheds.hashes inv.hashes, fun b key hash => ?_⟩
  have kept : b ∉ taken := by
    intro mem
    rw [gone b mem] at hash
    cases hash
  have before : (c.pool.blocks b).blockHash = some key := by
    rcases sheds.hash b with same | none
    · rwa [← same]
    · rw [none] at hash
      cases hash
  have same : forget taken c.writer b = c.writer b := if_neg kept
  unfold Written
  dsimp only
  rw [same]
  exact inv.written b key before

theorem forget_nil (writer : Nat → Option (Served × Nat)) : forget [] writer = writer := by
  funext b
  exact if_neg not_mem_nil

variable {writer : Nat → Option (Served × Nat)}

theorem register_written {nullBlock : Nat} (null : p.nullBlock = nullBlock)
    (mem : req ∈ requests) (computed : ∀ e ∈ es, g.covered e.2 ≤ req.final.numTokens)
    (ran : (es.map fun e => (e.1, (hashesAt h.blockSize g.blockSize
      (req.blockHashes h))[e.2]?)).foldlM (cacheBlock g.kvCacheGroupId) p = .ok p')
    (written : ∀ b key, (p.blocks b).blockHash = some key → Written h g requests writer b key) (b : Nat)
    (key : BlockHashWithGroupId) (hash : (p'.blocks b).blockHash = some key) :
    Written h g requests (record nullBlock req es writer) b key := by
  induction es generalizing p writer with
  | nil =>
    cases ran
    exact written b key hash
  | cons e rest ih =>
    obtain ⟨c, place⟩ := e
    obtain ⟨next, one, later⟩ := bind_ok ran
    have others := fun e isLater => computed e (mem_cons_of_mem _ isLater)
    rw [record, foldl_cons]
    rcases cacheBlock_cases one with ⟨isNull, rfl⟩ | ⟨digest, real, -, at_, rfl⟩
    · dsimp only
      rw [if_pos (isNull.trans null)]
      exact ih null others later written
    · dsimp only
      rw [if_neg (null ▸ real)]
      refine ih ?_ others later fun b' key' here => ?_
      · exact null
      rw [setHash_blockHash] at here
      split at here
      · rename_i same
        cases here
        subst same
        exact .inr ⟨req, mem, place, digest, Function.update_self _ _ _,
          computed _ mem_cons_self, at_, rfl⟩
      · rename_i other
        unfold Written
        rw [Function.update_of_ne other]
        exact written b' key' here

theorem register_foreign {other : Nat} (foreign : other ≠ g.kvCacheGroupId)
    (small : other < 2 ^ 32) {es : List (Nat × Option BlockHash)}
    (ran : es.foldlM (cacheBlock other) bp = .ok pool')
    (written : ∀ b key, (bp.blocks b).blockHash = some key → Written h g requests writer b key) :
    ∀ b key, (pool'.blocks b).blockHash = some key → Written h g requests writer b key := by
  refine foldlM_invariant (fun bp : BlockPool => ∀ b key, (bp.blocks b).blockHash = some key →
    Written h g requests writer b key) es ?_ written ran
  rintro ⟨c, blockHash⟩ - p p' before one b key hash
  rcases cacheBlock_cases one with ⟨-, rfl⟩ | ⟨digest, -, -, -, rfl⟩
  · exact before b key hash
  · change ((p.setHash c _).blocks b).blockHash = _ at hash
    rw [setHash_blockHash] at hash
    split at hash
    · cases hash
      exact .inl ⟨digest, other, rfl, foreign, small⟩
    · exact before b key hash

theorem cacheFullBlocks_eq (pool : BlockPool) (bs : List Nat)
    {cached full size : Nat} (gid : Nat) (new : cached < full) (enough : full ≤ hs.length)
    (divisible : ¬ (size ≠ pool.hashBlockSize ∧ size % pool.hashBlockSize ≠ 0)) :
    pool.cacheFullBlocks hs bs cached full size gid =
      ((((bs.take full).drop cached).zipIdx cached).map fun e =>
        (e.1, (hashesAt pool.hashBlockSize size hs)[e.2]?)).foldlM
          (cacheBlock gid) pool := by
  unfold cacheFullBlocks
  rw [if_neg (not_le.mpr new), if_neg (not_lt.mpr enough), if_neg divisible]
  dsimp only
  congr 1
  apply ext_getElem?
  intro i
  simp only [getElem?_map, getElem?_zipIdx, getElem?_drop, Option.map_map, Function.comp_def,
    zero_add, hashesAt]

theorem cacheFullBlocks_cases {bs : List Nat} {cached full size gid : Nat}
    (ran : p.cacheFullBlocks hs bs cached full size gid = .ok pool') : (full ≤ cached ∧ pool' = p) ∨
      ((((bs.take full).drop cached).zipIdx cached).map fun e =>
        (e.1, (hashesAt p.hashBlockSize size hs)[e.2]?)).foldlM (cacheBlock gid) p = .ok pool' := by
  by_cases new : cached < full
  · by_cases enough : full ≤ hs.length
    · by_cases divisible : size ≠ p.hashBlockSize ∧ size % p.hashBlockSize ≠ 0
      · rw [cacheFullBlocks, if_neg (not_le.mpr new), if_neg (not_lt.mpr enough), if_pos divisible] at ran
        cases ran
      · rw [cacheFullBlocks_eq p bs gid new enough divisible] at ran
        exact .inr ran
    · rw [cacheFullBlocks, if_neg (not_le.mpr new), if_pos (not_le.mp enough)] at ran
      cases ran
  · rw [cacheFullBlocks, if_pos (not_lt.mp new)] at ran
    exact .inl ⟨not_lt.mp new, (Except.ok.inj ran).symm⟩

variable {m m' : SingleTypeKVCacheManager}

theorem allocateForNewRequest_sheds {computed : List Nat}
    {numTotalComputedTokens external : Int}
    (ran : m.allocateForNewRequest p id computed numTotalComputedTokens external = .ok (m', p')) :
    m'.toManagerConfig = m.toManagerConfig ∧ p.Sheds p' ∧
      (p.HashInv → p.enableCaching = true → ∀ b ∈ m'.getBlocks id, b ∉ computed →
        b ≠ p.nullBlock → (p'.blocks b).blockHash = none) := by
  obtain ⟨touched, touch, ran⟩ := bind_ok ran
  have sheds : p.Sheds touched := by
    unfold touchHits at touch
    split at touch
    · exact touch_sheds touch
    · split at touch
      · cases touch
        exact .refl p
      · cases touch
  have null : touched.nullBlock = p.nullBlock := congrArg nullBlock sheds.config
  have known : ∀ k b, b ∈ replicate k touched.nullBlock ++ m.attachedHits computed numTotalComputedTokens →
      b ∉ computed → b = p.nullBlock := by
    intro k b mem other
    rcases mem_append.mp mem with padding | hit
    · rw [eq_of_mem_replicate padding, null]
    · exact absurd (mem_of_mem_drop hit) other
  unfold allocateExternal at ran
  dsimp only at ran
  split at ran
  · obtain ⟨⟨alloc, last⟩, new, ran⟩ := bind_ok ran
    cases ran
    obtain ⟨after, gone⟩ := getNewBlocks_sheds new
    refine ⟨recordNewBlocks_config _ _, sheds.trans after, fun inv caching b mem other real => ?_⟩
    rw [recordNewBlocks_getBlocks, getBlocks_setBlocks_self] at mem
    rcases mem_append.mp mem with old | isNew
    · exact absurd (known _ b old other) real
    · exact gone (sheds.hashes inv) ((congrArg enableCaching sheds.config).trans caching) b isNew
  · cases ran
    refine ⟨rfl, sheds, fun inv caching b mem other real => ?_⟩
    rw [getBlocks_setBlocks_self] at mem
    exact absurd (known _ b mem other) real

theorem allocateNewBlocksBase_sheds {ts : Int} {bs' : List Nat}
    (ran : m.allocateNewBlocksBase p id ts = .ok (bs', m', p')) :
    m'.toManagerConfig = m.toManagerConfig ∧ p.Sheds p' ∧
      (p.HashInv → p.enableCaching = true → ∀ b ∈ bs', (p'.blocks b).blockHash = none) := by
  unfold allocateNewBlocksBase at ran
  dsimp only at ran
  split at ran
  · cases ran
    exact ⟨rfl, .refl _, nofun⟩
  · obtain ⟨⟨taken, last⟩, new, ran⟩ := bind_ok ran
    cases ran
    exact ⟨recordNewBlocks_config _ _, getNewBlocks_sheds new⟩

variable {c cache' : CompressedCache}

section
variable (inv : c.Inv h g requests)
include inv

theorem CompressedCache.Inv.cacheBlocks {numTokens : Nat}
    (mem : req ∈ requests) (computed : numTokens ≤ req.final.numTokens)
    (ran : c.step h (.cacheBlocks id req numTokens) = .ok cache') :
    cache'.Inv h g requests := by
  obtain ⟨⟨m, p⟩, outer, rfl⟩ := map_ok ran
  obtain ⟨⟨base, _⟩, inner, res⟩ := map_ok outer
  cases res
  unfold cacheBlocksBase at inner
  dsimp only at inner
  have size : c.manager.base.blockSize = g.blockSize := congrArg ManagerConfig.blockSize inv.config
  have gid : c.manager.base.kvCacheGroupId = g.kvCacheGroupId :=
    congrArg ManagerConfig.kvCacheGroupId inv.config
  have idle : ∀ {n k : Nat}, n ≤ k → (((c.manager.base.getBlocks id).take n).drop k) = [] := by
    intro n k few
    refine drop_eq_nil_of_le (le_trans ?_ few)
    rw [length_take]
    exact min_le_left _ _
  split at inner
  · rename_i few
    cases inner
    refine ⟨inv.caching, inv.size, inv.config, inv.ratio, inv.hashes, ?_⟩
    rw [newFullBlocks, idle few]
    exact inv.written
  · rename_i some
    obtain ⟨last, cached, res⟩ := bind_ok inner
    cases res
    obtain ⟨kept, hs⟩ := cacheFullBlocks_keepsRefs inv.hashes cached
    refine ⟨(congrArg enableCaching kept.config).trans inv.caching,
      (congrArg hashBlockSize kept.config).trans inv.size, inv.config, inv.ratio, hs, ?_⟩
    rcases cacheFullBlocks_cases cached with ⟨few, -⟩ | reg
    · exact absurd few some
    rw [inv.size, size, gid] at reg
    refine register_written rfl mem (fun e isNew => ?_) ?_ inv.written
    · -- the last slot of the block stands for computed tokens
      obtain ⟨-, below, -⟩ := mem_zipIdx isNew
      rw [length_drop, length_take] at below
      have full : e.2 + 1 ≤ numTokens / g.compressRatio / g.blockSize := by
        rw [← inv.ratio, ← size]
        omega
      refine le_trans ?_ computed
      exact Nat.mul_le_of_le_div _ _ _ (Nat.mul_le_of_le_div _ _ _ full)
    · rwa [newFullBlocks, size]

theorem CompressedCache.Inv.ofOthers {op : PoolOp}
    (valid : (CacheOp.ofOthers op).Valid requests g.kvCacheGroupId)
    (ran : c.step h (.ofOthers op) = .ok cache') : cache'.Inv h g requests := by
  obtain ⟨⟨bs', p⟩, applied, rfl⟩ := map_ok ran
  cases op with
  | getNewBlocks numBlocks =>
    obtain ⟨sheds, gone⟩ := getNewBlocks_sheds applied
    exact inv.sheds sheds c.manager rfl rfl (gone inv.hashes inv.caching)
  | touch bs =>
    obtain ⟨_, touched, res⟩ := map_ok applied
    cases res
    exact inv.sheds (touch_sheds touched) c.manager rfl rfl nofun
  | freeBlocks orderedBlocks =>
    obtain ⟨_, freed, res⟩ := map_ok applied
    cases res
    exact inv.sheds (freeBlocks_sheds freed) c.manager rfl rfl nofun
  | evictBlocks blockIds =>
    obtain ⟨_, evicted, res⟩ := map_ok applied
    cases res
    exact inv.sheds (evictBlocks_sheds evicted) c.manager rfl rfl nofun
  | resetPrefixCache =>
    cases applied
    exact inv.sheds (resetPrefixCache_sheds c.pool) c.manager rfl rfl nofun
  | cacheFullBlocks requestBlockHashes bs numCachedBlocks full size other =>
    obtain ⟨_, cached, res⟩ := map_ok applied
    cases res
    obtain ⟨kept, hs⟩ := cacheFullBlocks_keepsRefs inv.hashes cached
    refine ⟨(congrArg enableCaching kept.config).trans inv.caching,
      (congrArg hashBlockSize kept.config).trans inv.size, inv.config, inv.ratio, hs, ?_⟩
    dsimp only
    rw [forget_nil]
    rcases cacheFullBlocks_cases cached with ⟨-, rfl⟩ | reg
    · exact inv.written
    · exact register_foreign valid.1 valid.2 reg inv.written

theorem CompressedCache.Inv.step {op : CacheOp}
    (valid : op.Valid requests g.kvCacheGroupId) (ran : c.step h op = .ok cache') :
    cache'.Inv h g requests := by
  cases op with
  | allocateNewComputedBlocks id computed numLocalComputedTokens external =>
    obtain ⟨⟨m, pool⟩, alloc, rfl⟩ := map_ok ran
    have mem : ∀ b ∈ c.taken id computed m, b ∈ m.base.getBlocks id ∧
        b ∉ computed ∧ b ≠ c.pool.nullBlock := by
      intro b isTaken
      obtain ⟨behind, other⟩ := mem_filter.mp isTaken
      rw [Bool.and_eq_true, decide_eq_true_eq, decide_eq_true_eq] at other
      exact ⟨mem_of_mem_drop behind, other⟩
    unfold CompressAttentionManager.allocateNewComputedBlocks at alloc
    split at alloc
    · split at alloc
      · cases alloc
      · cases alloc
        refine inv.sheds (.refl _) _ rfl rfl fun b isTaken => ?_
        -- the table of a running request stays
        rw [CompressedCache.taken, drop_length] at isTaken
        cases isTaken
    · split at alloc
      · cases alloc
      · obtain ⟨⟨base, _⟩, new, res⟩ := map_ok alloc
        cases res
        obtain ⟨cfg, sheds, gone⟩ := allocateForNewRequest_sheds new
        refine inv.sheds sheds { c.manager with base := base } cfg rfl fun b isTaken => ?_
        obtain ⟨here, other, real⟩ := mem b isTaken
        exact gone inv.hashes inv.caching b here other real
  | allocateNewBlocks id ts =>
    obtain ⟨⟨bs', m, pool⟩, alloc, rfl⟩ := map_ok ran
    obtain ⟨⟨_, base, _⟩, new, res⟩ := map_ok alloc
    cases res
    obtain ⟨cfg, sheds, gone⟩ := allocateNewBlocksBase_sheds new
    exact inv.sheds sheds { c.manager with base := base } cfg rfl (gone inv.hashes inv.caching)
  | cacheBlocks id req ts => exact inv.cacheBlocks valid.1 valid.2 ran
  | free id =>
    obtain ⟨⟨m, pool⟩, freed, rfl⟩ := map_ok ran
    obtain ⟨⟨base, _⟩, released, res⟩ := map_ok freed
    cases res
    obtain ⟨after, given, res⟩ := map_ok released
    have cfg : base.toManagerConfig = c.manager.base.toManagerConfig := by
      cases res
      rfl
    obtain rfl : after = pool := congrArg Prod.snd res
    have after := inv.sheds (freeBlocks_sheds given) { c.manager with base := base } cfg rfl
      fun b (mem : b ∈ []) => by cases mem
    exact after
  | ofOthers op => exact inv.ofOthers valid ran

theorem CompressedCache.Inv.run {ops : List CacheOp}
    (valid : ∀ op ∈ ops, op.Valid requests g.kvCacheGroupId) (ran : c.run h ops = .ok cache') :
    cache'.Inv h g requests :=
  foldlM_invariant (CompressedCache.Inv h g requests) ops
    (fun op mem _ _ before ranOp => before.step (valid op mem) ranOp) inv ran

end

theorem CompressedCache.new_inv {count : Nat} (made : BlockPool.new count true h.blockSize = .ok p) :
    (CompressedCache.new p g.manager).Inv h g requests := by
  obtain ⟨cfg, inv⟩ := BlockPool.new_inv made
  refine ⟨congrArg enableCaching cfg, congrArg hashBlockSize cfg, rfl, rfl, inv.hashes,
    fun b key hash => ?_⟩
  obtain ⟨bs, found, -⟩ := (inv.hashes b key).mp hash
  unfold BlockPool.new at made
  split at made
  · cases made
  obtain ⟨_, -, made⟩ := bind_ok made
  cases made
  cases found

end

/-! ### Soundness of hits -/

section
variable (hasher : Hasher) (group : CompressedGroup) (requests : Set Served)

/-- Whatever is looked up for a request: the block at place `i` was filled by a request that has the
same tokens up to the last one that the block summarises. -/
def CompressedCache.Sound (cache : CompressedCache) : Prop :=
  ∀ s ∈ requests, ∀ (maxLength alignmentTokens i g b : Nat) (kvCacheGroupIds row : List Nat) (useEagle : Bool),
    (findCompressedHit cache.pool (hashesAt hasher.blockSize group.blockSize (s.blockHashes hasher))
      maxLength kvCacheGroupIds
      group.blockSize group.compressRatio useEagle alignmentTokens)[i]? = some row →
    kvCacheGroupIds[g]? = some group.kvCacheGroupId → row[g]? = some b →
    ∃ s', cache.writer b = some (s', i) ∧ group.covered i ≤ s'.final.numTokens ∧
      s'.final.allTokenIds.take (group.covered i) = s.final.allTokenIds.take (group.covered i)

/-- All hits are sound in all states that can be reached with the given requests. -/
def SoundRuns : Prop :=
  ∀ numGpuBlocks pool ops cache, new numGpuBlocks true hasher.blockSize = .ok pool →
    (∀ op ∈ ops, CacheOp.Valid requests group.kvCacheGroupId op) →
    (CompressedCache.new pool group.manager).run hasher ops = .ok cache → cache.Sound hasher group requests

/-- Two of the requests that agree up to the end of block `i`, counted without compression, agree up
to the last token that block `i` summarises. -/
def Separated : Prop :=
  ∀ s ∈ requests, ∀ s' ∈ requests, ∀ i, group.covered i ≤ s'.final.numTokens →
    SameBlocks hasher ((i + 1) * (group.blockSize / hasher.blockSize)) s s' →
    s'.final.allTokenIds.take (group.covered i) = s.final.allTokenIds.take (group.covered i)

end

section
variable {h : Hasher} {gr g : CompressedGroup} {requests : Set Served} {c : CompressedCache}

theorem CompressedCache.Inv.sound (inv : c.Inv h gr requests) (free : Decodable h)
    (divisible : h.blockSize ∣ gr.blockSize) (separated : Separated h gr requests) :
    c.Sound h gr requests := by
  intro s isRequest limit align i g b ids row useEagle at_ isGroup here
  obtain ⟨hash, own, found⟩ := findCompressedHit_getElem? at_
  obtain ⟨gid, atGroup, reg⟩ := getCachedBlock_registered found here
  rw [isGroup, Option.some.injEq] at atGroup
  subst atGroup
  rcases inv.written b _ ((inv.hashes b _).mpr reg) with
    ⟨hash', other, keys, foreign, small⟩ | ⟨s', isRequest', j, hash', writer, covered, filled, keys⟩
  · exact absurd (makeBlockHashWithGroupId_inj gr.small small keys).2.symm foreign
  · obtain rfl : hash = hash' := append_cancel_right keys
    obtain ⟨rfl, same⟩ := free.sameBlocks gr.positive divisible own filled
    exact ⟨s', writer, covered, separated s isRequest s' isRequest' i covered same⟩

theorem exists_getOneBlock {map : BlockHashToBlockMap} {key : BlockHashWithGroupId} {b : Nat}
    (reg : map.Registered key b) : ∃ b', map.getOneBlock key = some b' := by
  obtain ⟨bs, found, mem⟩ := reg
  unfold getOneBlock
  rw [found]
  cases bs with
  | one blockId => exact ⟨blockId, rfl⟩
  | many blockIds =>
    cases blockIds with
    | nil => cases mem
    | cons first rest => exact ⟨first, rfl⟩

theorem register_total (bp : BlockPool) (gid : Nat) (hs : List BlockHash)
    (distinct : (es.map Prod.fst).Nodup) (real : ∀ e ∈ es, e.1 ≠ bp.nullBlock)
    (unhashed : ∀ e ∈ es, (bp.blocks e.1).blockHash = none) (lt : ∀ e ∈ es, e.2 < hs.length) :
    ∃ pool', (es.map fun e => (e.1, hs[e.2]?)).foldlM (cacheBlock gid) bp = .ok pool' ∧
      ∀ e ∈ es, ∀ h, hs[e.2]? = some h →
        (pool'.blocks e.1).blockHash = some (makeBlockHashWithGroupId h gid) := by
  have frame : ∀ (p : BlockPool) x p', p.cacheBlock gid x = .ok p' → ∀ b, b ≠ x.1 →
      ((p'.blocks b).blockHash, p'.nullBlock) = ((p.blocks b).blockHash, p.nullBlock) := by
    intro p x p' one b other
    rcases cacheBlock_cases one with ⟨-, rfl⟩ | ⟨digest, -, -, -, rfl⟩
    · rfl
    · exact Prod.ext ((setHash_blockHash p _ _ b).trans (if_neg other)) rfl
  obtain ⟨pool', ran, -, each⟩ := Keyed.foldlM_total (fun b (p : BlockPool) =>
    ((p.blocks b).blockHash, p.nullBlock)) Prod.fst _
    (es.map fun e => (e.1, hs[e.2]?)) bp frame (fun x mem before same => by
      obtain ⟨e, isEntry, rfl⟩ := mem_map.mp mem
      have null : before.nullBlock = bp.nullBlock := congrArg Prod.snd same
      have isReal : before.isNull e.1 = false := by simpa [isNull, null] using real e isEntry
      have free : (before.blocks e.1).blockHash = none := (congrArg Prod.fst same).trans (unhashed e isEntry)
      unfold cacheBlock
      dsimp only
      rw [if_neg (by simp [isReal]), if_neg (by simp [free]), getElem?_eq_getElem (lt e isEntry)]
      exact ⟨_, rfl⟩) (by rw [map_map]; exact distinct)
  refine ⟨pool', ran, fun e mem h at_ => ?_⟩
  obtain ⟨before, after, same, one, last⟩ := each _ (mem_map_of_mem mem)
  rcases cacheBlock_cases one with ⟨null, -⟩ | ⟨digest, -, -, here, rfl⟩
  · exact absurd (null.trans (congrArg Prod.snd same)) (real e mem)
  obtain rfl : h = digest := Option.some.inj (at_.symm.trans here)
  refine (congrArg Prod.fst last).trans ?_
  exact (setHash_blockHash before _ _ _).trans (if_pos rfl)

theorem exists_new (n hashBlockSize : Nat) : ∃ pool, BlockPool.new (n + 1) true hashBlockSize = .ok pool := by
  have rep := FreeKVCacheBlockQueue.new_represents (n + 1)
  rw [range_eq_range', range'_succ] at rep
  obtain ⟨queue, popped, -⟩ := rep.popleft
  refine ⟨⟨⟨n + 1, true, hashBlockSize, 0⟩, fun _ => ⟨0, none⟩, queue, .empty⟩, ?_⟩
  rw [BlockPool.new, if_neg (succ_ne_zero n), popped]
  rfl

def CompressedGroup.fill (group : CompressedGroup) (request : Served) (i : Nat) : List CacheOp :=
  [.allocateNewBlocks "w" (group.covered i), .cacheBlocks "w" request (group.covered i)]

theorem covered_div (g : CompressedGroup) (i : Nat) : g.covered i / g.compressRatio = (i + 1) * g.blockSize :=
  Nat.mul_div_cancel _ g.compresses

theorem ceilDiv_mul (i : Nat) (pos : 0 < n) : ceilDiv ((i * n : Nat) : Int) n = i := by
  have : (n : Int) ≠ 0 := by omega
  rw [ceilDiv, cast_mul, ← Int.neg_mul, Int.mul_ediv_cancel _ this, Int.neg_neg]

def CompressedGroup.holding (group : CompressedGroup) (i : Nat) : CompressAttentionManager :=
  { group.manager with base := group.manager.base.setBlocks "w" (range' 1 (i + 1)) }

theorem allocate_fresh (g : CompressedGroup) (made : new (i + 2) true h.blockSize = .ok p) :
    ∃ p', (CompressedCache.new p g.manager).step h (.allocateNewBlocks "w" (g.covered i)) =
        .ok ⟨p', g.holding i, forget (range' 1 (i + 1)) fun _ => none⟩ ∧
      p'.nullBlock = 0 ∧ p'.hashBlockSize = h.blockSize ∧
      ∀ b ∈ range' 1 (i + 1), (p'.blocks b).blockHash = none := by
  obtain ⟨cfg, inv⟩ := new_inv made
  rw [show i + 2 - 1 = i + 1 by omega] at inv
  obtain ⟨p', took, config', -⟩ := inv.getNewBlocks_ok (n := i + 1) (by rw [length_range'])
  rw [take_of_length_le (by rw [length_range'])] at took
  obtain ⟨-, gone⟩ := getNewBlocks_sheds took
  have same := config'.trans cfg
  have slots : ((g.covered i : Nat) : Int) / (g.compressRatio : Int) =
      (((i + 1) * g.blockSize : Nat) : Int) := by
    rw [← Int.natCast_div, covered_div]
  have need : ceilDiv (((g.covered i : Nat) : Int) / (g.compressRatio : Int)) g.blockSize -
      (([] : List Nat).length : Int) = ((i + 1 : Nat) : Int) := by
    rw [slots, ceilDiv_mul _ g.positive, length_nil, Int.natCast_zero, Int.sub_zero]
  have alloc : g.manager.base.allocateNewBlocksBase p "w"
      (((g.covered i : Nat) : Int) / (g.compressRatio : Int)) =
      .ok (range' 1 (i + 1), g.manager.base.setBlocks "w" (range' 1 (i + 1)), p') := by
    change (if ceilDiv _ (g.blockSize : Int) - (([] : List Nat).length : Int) ≤ 0 then _ else
      p.getNewBlocks (ceilDiv _ (g.blockSize : Int) - (([] : List Nat).length : Int)) >>= _) = _
    rw [need, if_neg (by omega), took]
    rfl
  refine ⟨p', ?_, congrArg nullBlock same, congrArg hashBlockSize same,
    gone inv.hashes (congrArg enableCaching cfg)⟩
  change ((g.manager.base.allocateNewBlocksBase p "w"
    (((g.covered i : Nat) : Int) / (g.compressRatio : Int))).map _).map _ = _
  rw [alloc]
  rfl

section
variable (g : CompressedGroup) (divisible : h.blockSize ∣ g.blockSize)
  (covered : g.covered i ≤ req.final.numTokens)
include divisible covered

theorem cache_fresh (null : p.nullBlock = 0) (size : p.hashBlockSize = h.blockSize)
    (unhashed : ∀ b ∈ range' 1 (i + 1), (p.blocks b).blockHash = none) :
    ∃ base pool', (g.holding i).base.cacheBlocksBase p "w" (req.blockHashes h)
        (g.covered i / g.compressRatio) = .ok (base, pool') ∧
      ∀ k ≤ i, ∀ hash, (hashesAt h.blockSize g.blockSize (req.blockHashes h))[k]? = some hash →
        (pool'.blocks (k + 1)).blockHash = some (makeBlockHashWithGroupId hash g.kvCacheGroupId) := by
  have length : (i + 1) * (g.blockSize / h.blockSize) ≤ (req.blockHashes h).length := by
    rw [length_blockHashes, Nat.le_div_iff_mul_le h.positive, Nat.mul_assoc, Nat.div_mul_cancel divisible]
    exact (Nat.le_mul_of_pos_right _ g.compresses).trans covered
  have enough : ∀ k ≤ i, k < (hashesAt h.blockSize g.blockSize (req.blockHashes h)).length := by
    intro k before
    refine (List.getElem_of_getElem? ((hashesAt_getElem? g.positive divisible).mpr ⟨?_, rfl⟩)).1
    exact (mul_le_mul_right _ (succ_le_succ before)).trans length
  have entry_facts : ∀ e ∈ (range' 1 (i + 1)).zipIdx, e.1 ∈ range' 1 (i + 1) ∧ e.2 ≤ i := by
    intro e mem
    obtain ⟨-, below, -⟩ := mem_zipIdx mem
    rw [length_range'] at below
    exact ⟨fst_mem_of_mem_zipIdx mem, by omega⟩
  obtain ⟨pool', reg, given⟩ := register_total p g.kvCacheGroupId
    (hashesAt h.blockSize g.blockSize (req.blockHashes h))
    (by rw [zipIdx_map_fst]; exact nodup_range' : ((range' 1 (i + 1)).zipIdx.map Prod.fst).Nodup)
    (fun e mem => by
      have here := (entry_facts e mem).1
      rw [mem_range'_1] at here
      rw [null]
      omega)
    (fun e mem => unhashed e.1 (entry_facts e mem).1)
    (fun e mem => enough e.2 (entry_facts e mem).2)
  have cached : p.cacheFullBlocks (req.blockHashes h) (range' 1 (i + 1)) 0 (i + 1) g.blockSize
      g.kvCacheGroupId = .ok pool' := by
    rw [cacheFullBlocks_eq p _ _ (succ_pos i), size, take_of_length_le (by rw [length_range']), drop_zero]
    · exact reg
    · exact (Nat.le_mul_of_pos_right _ (scale_pos g.positive divisible)).trans length
    · rw [size]
      exact fun uneven => uneven.2 (mod_eq_zero_of_dvd divisible)
  have table : (g.holding i).base.getBlocks "w" = range' 1 (i + 1) :=
    getBlocks_setBlocks_self _ _ _
  have none : ((g.holding i).base.numCachedBlock.lookup "w").getD 0 = 0 := by
    change ((∅ : AList fun _ : String => Nat).lookup "w").getD 0 = 0
    rw [AList.lookup_empty]
    rfl
  have full : g.covered i / g.compressRatio / g.blockSize = i + 1 := by
    rw [covered_div, Nat.mul_div_cancel _ g.positive]
  have ran : ∃ base, (g.holding i).base.cacheBlocksBase p "w" (req.blockHashes h)
      (g.covered i / g.compressRatio) = .ok (base, pool') := by
    unfold cacheBlocksBase
    rw [none, table]
    change ∃ base, (if 0 ≥ g.covered i / g.compressRatio / g.blockSize then _ else
      p.cacheFullBlocks _ _ 0 (g.covered i / g.compressRatio / g.blockSize) g.blockSize
        g.kvCacheGroupId >>= _) = _
    rw [full, if_neg (not_le.mpr (succ_pos i)), cached]
    exact ⟨_, rfl⟩
  obtain ⟨base, ran⟩ := ran
  refine ⟨base, pool', ran, fun k before hash at_ => given (k + 1, k) ?_ hash at_⟩
  rw [mk_mem_zipIdx_iff_getElem?, getElem?_range' (by omega), Option.some.injEq]
  omega

theorem fill_runs : ∃ p c, BlockPool.new (i + 2) true h.blockSize = .ok p ∧
      (CompressedCache.new p g.manager).run h (g.fill req i) = .ok c ∧
      ∀ k ≤ i, ∀ hash, (hashesAt h.blockSize g.blockSize (req.blockHashes h))[k]? = some hash →
        (c.pool.blocks (k + 1)).blockHash = some (makeBlockHashWithGroupId hash g.kvCacheGroupId) := by
  obtain ⟨p, made⟩ := exists_new (i + 1) h.blockSize
  obtain ⟨pool₁, first, null, size, unhashed⟩ := allocate_fresh g made
  obtain ⟨base, pool₂, second, given⟩ := cache_fresh g divisible covered null size unhashed
  refine ⟨p, ⟨pool₂, { g.holding i with base := base }, record pool₁.nullBlock req
    ((g.holding i).newFullBlocks "w" (g.covered i)) (forget (range' 1 (i + 1)) fun _ => none)⟩,
      made, ?_, given⟩
  rw [CompressedCache.run, CompressedGroup.fill, foldlM_cons, first]
  change ((((g.holding i).base.cacheBlocksBase pool₁ "w" (req.blockHashes h)
    (g.covered i / g.compressRatio)).map _).map _ >>= fun c => pure c) = _
  rw [second]
  rfl

end

theorem cdiv_mul (m : Nat) (pos : 0 < n) : cdiv (m * n) n = m := by
  rw [cdiv, show m * n + n - 1 = (n - 1) + m *
    n by omega, add_mul_div_right _ _ pos, div_eq_of_lt (by omega), zero_add]

theorem alignedLength_self (size n : Nat) : alignedLength size size n = n := by
  cases n with
  | zero => rfl
  | succ n => exact if_neg fun both => both.1 rfl

theorem length_findCompressedHit (g : CompressedGroup) (lt : i < hs.length)
    (cached : ∀ k ≤ i, ∀ h, hs[k]? = some h → ∃ row, p.getCachedBlock h ids = some row) :
    (findCompressedHit p hs ((i + 1) * g.blockSize) ids g.blockSize g.compressRatio false
      (g.blockSize * g.compressRatio)).length = i + 1 := by
  unfold findCompressedHit findFullAttentionHit
  rw [cdiv_mul _ g.compresses, Nat.mul_div_cancel _ g.positive, length_popUnaligned, alignedLength_self,
    if_neg Bool.false_ne_true, length_cachedRows_of_cached, length_take]
  · omega
  · intro h mem
    obtain ⟨k, at_⟩ := mem_iff_getElem?.mp mem
    rw [getElem?_take] at at_
    split at at_
    · rename_i before
      exact cached k (le_of_lt_succ before) h at_
    · cases at_

theorem fill_valid (g : CompressedGroup) (mem : req ∈ requests) (covered : g.covered i ≤ req.final.numTokens) :
    ∀ op ∈ g.fill req i, CacheOp.Valid requests g.kvCacheGroupId op := by
  intro op isOp
  rw [CompressedGroup.fill, mem_cons, mem_singleton] at isOp
  rcases isOp with rfl | rfl
  · exact trivial
  · exact ⟨mem, covered⟩

theorem exists_hit (divisible : h.blockSize ∣ g.blockSize) {s s' : Served}
    (covered : g.covered i ≤ s'.final.numTokens)
    (same : SameBlocks h ((i + 1) * (g.blockSize / h.blockSize)) s s') :
    ∃ p c b, BlockPool.new (i + 2) true h.blockSize = .ok p ∧
      (CompressedCache.new p g.manager).run h (g.fill s' i) = .ok c ∧
      (findCompressedHit c.pool (hashesAt h.blockSize g.blockSize (s.blockHashes h))
        ((i + 1) * g.blockSize) [g.kvCacheGroupId] g.blockSize g.compressRatio false
        (g.blockSize * g.compressRatio))[i]? = some [b] ∧ ∃ place, c.writer b = some (s', place) := by
  obtain ⟨p, c, made, ran, given⟩ := fill_runs g divisible covered
  have inv : c.Inv h g {s'} :=
    (CompressedCache.new_inv made).run (fill_valid g (Set.mem_singleton s') covered) ran
  have cached : ∀ k ≤ i, ∀ hash, (hashesAt h.blockSize g.blockSize (s.blockHashes h))[k]? = some hash →
      ∃ row, c.pool.getCachedBlock hash [g.kvCacheGroupId] = some row := by
    intro k before hash at_
    obtain ⟨hash', own, other⟩ := same.hashesAt_eq g.positive divisible before
    rw [at_, Option.some.injEq] at own
    subst own
    obtain ⟨b, found⟩ := exists_getOneBlock ((inv.hashes _ _).mp (given k before hash other))
    refine ⟨[b], ?_⟩
    rw [getCachedBlock, mapM_cons, found]
    rfl
  obtain ⟨_, last, -⟩ := same.hashesAt_eq g.positive divisible (le_refl i)
  have length := length_findCompressedHit g (List.getElem_of_getElem? last).1 cached
  have at_ := getElem?_eq_getElem (lt_of_lt_of_eq (lt_succ_self i) length.symm)
  obtain ⟨hash, -, found⟩ := findCompressedHit_getElem? at_
  rw [getCachedBlock, mapM_cons, Option.bind_eq_bind, Option.bind_eq_some_iff] at found
  obtain ⟨b, one, row⟩ := found
  have registered := registered_of_getOneBlock one
  refine ⟨p, c, b, made, ran, at_.trans (congrArg some (Option.some.inj row).symm), ?_⟩
  rcases inv.written b _ ((inv.hashes b _).mpr registered) with
    ⟨hash', other, keys, foreign, small⟩ | ⟨s'', isWriter, place, -, writer, -⟩
  · exact absurd (makeBlockHashWithGroupId_inj g.small small keys).2.symm foreign
  · rw [Set.mem_singleton_iff.mp isWriter] at writer
    exact ⟨place, writer⟩

theorem SoundRuns.separated (sound : SoundRuns h g requests) (divisible : h.blockSize ∣ g.blockSize) :
    Separated h g requests := by
  intro s isRequest s' isRequest' i covered same
  obtain ⟨p, c, b, made, ran, at_, place, filled⟩ := exists_hit divisible covered same
  obtain ⟨s'', writer, -, ts⟩ := sound _ p _ c made (fill_valid g isRequest' covered) ran s isRequest _ _ i 0 b
    [g.kvCacheGroupId] [b] false at_ rfl rfl
  rw [filled, Option.some.injEq, Prod.mk.injEq] at writer
  rwa [writer.1]

end

/-- All hits are sound in all reachable states exactly when requests with the same hash of a block
never differ in the tokens that the block summarises. -/
theorem soundRuns_iff (hasher : Hasher) (free : Decodable hasher) (group : CompressedGroup)
    (divisible : hasher.blockSize ∣ group.blockSize) (requests : Set Served) :
    SoundRuns hasher group requests ↔ Separated hasher group requests := by
  refine ⟨fun sound => sound.separated divisible,
    fun separated numGpuBlocks pool ops cache made valid ran => ?_⟩
  exact ((CompressedCache.new_inv made).run valid ran).sound free divisible separated

/-! ### Two requests -/

theorem exists_decodable (size : Nat) (pos : 0 < size) :
    ∃ hasher : Hasher, hasher.blockSize = size ∧ Decodable hasher := by
  obtain ⟨code, injective⟩ := exists_hashCode
  -- a digest ends with its first one
  have ended : ∀ a b : Nat, replicate a (0 : UInt8) ++ [1] <+: replicate b 0 ++ [1] → a = b := by
    intro a b starts
    have length := starts.length_le
    rw [length_append, length_append, length_replicate, length_replicate] at length
    by_contra differ
    have short : a < b := by
      omega
    have at_ := prefix_iff_getElem?.mp starts a (by simp)
    rw [getElem?_append_left (by simpa using short), getElem?_replicate, if_pos short] at at_
    simp at at_
  have free : ∀ input input', replicate (code input) (0 : UInt8) ++ [1] <+: replicate (code input') 0 ++ [1] →
      input = input' := fun input input' starts => injective (ended _ _ starts)
  refine ⟨⟨size, pos, [], fun input => replicate (code input) 0 ++ [1]⟩, rfl, ⟨?_, fun input => ?_⟩,
    ?_, fun input => ?_⟩
  · intro input input' same
    exact free input input' (by dsimp only at same; rw [same])
  · exact append_ne_nil_of_right_ne_nil _ (cons_ne_nil _ _)
  · intro input input' starts
    rw [free input input' starts]
  · exact append_ne_nil_of_right_ne_nil _ (cons_ne_nil _ _)

def textOf (tokens : List Nat) : Served := ⟨⟨tokens, [], none, none, none, []⟩, []⟩

theorem group_zero_small : 0 < 2 ^ 32 := Nat.two_pow_pos 32

def halved : CompressedGroup := ⟨2, Nat.two_pos, 2, Nat.two_pos, 0, group_zero_small⟩

/-- Two requests that share the four tokens of the first block of the group. -/
theorem soundRuns_shared_block : ∃ hasher : Hasher, hasher.blockSize = 2 ∧ Decodable hasher ∧
    SoundRuns hasher halved {textOf [1, 2, 3, 4, 5, 6], textOf [1, 2, 3, 4, 7, 8]} := by
  obtain ⟨hasher, size, free⟩ := exists_decodable 2 (succ_pos _)
  have divisible : hasher.blockSize ∣ halved.blockSize := size ▸ dvd_refl 2
  refine ⟨hasher, size, free, (soundRuns_iff hasher free halved divisible _).mpr ?_⟩
  intro s isRequest s' isRequest' i covered same
  have length : s'.final.numTokens = 6 := by rcases isRequest' with rfl | rfl <;> rfl
  have first : i = 0 := by
    rw [length, CompressedGroup.covered] at covered
    simp only [halved] at covered
    omega
  subst first
  rcases isRequest with rfl | rfl <;> rcases isRequest' with rfl | rfl <;> rfl

/-- The first block of the group summarises four tokens and carries the hash of two. -/
theorem compressed_hit_differs : ∃ (hasher : Hasher) (pool : BlockPool) (cache : CompressedCache) (b place : Nat),
    hasher.blockSize = 2 ∧ Decodable hasher ∧ BlockPool.new 2 true 2 = .ok pool ∧
    (CompressedCache.new pool halved.manager).run hasher (halved.fill (textOf [1, 2, 3, 4]) 0) = .ok cache ∧
    (findCompressedHit cache.pool (hashesAt 2 2 ((textOf [1, 2, 9, 9]).blockHashes hasher)) 2 [0] 2
      2 false 4)[0]? = some [b] ∧
    cache.writer b = some (textOf [1, 2, 3, 4], place) ∧
      (textOf [1, 2, 3, 4]).final.allTokenIds.take (halved.covered 0) ≠
      (textOf [1, 2, 9, 9]).final.allTokenIds.take (halved.covered 0) := by
  obtain ⟨hasher, size, free⟩ := exists_decodable 2 (succ_pos _)
  have divisible : hasher.blockSize ∣ halved.blockSize := size ▸ dvd_refl 2
  have same : SameBlocks hasher ((0 + 1) * (halved.blockSize / hasher.blockSize)) (textOf [1, 2, 9, 9])
      (textOf [1, 2, 3, 4]) := by
    unfold SameBlocks Served.blocks Hasher.blocks Hasher.block
    rw [size]
    refine ⟨by decide, by decide, rfl⟩
  obtain ⟨pool, cache, b, made, ran, at_, place, writer⟩ := exists_hit divisible (by decide) same
  rw [size] at made at_
  exact ⟨hasher, pool, cache, b, place, size, free, made, ran, at_, writer, by decide⟩

end TurboQuant.Ascend
