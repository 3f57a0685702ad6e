import TurboQuant.Core.BlockDemand

/-!
What the release of skipped blocks changes: table entries outside the attention window become the
null block, the reference counts go down by as much, and no hash changes.
-/

namespace TurboQuant.Core
open Outcome Holders SingleTypeKVCacheManager List

variable {bs : List Nat}

namespace BlockPool

structure SameHashes (pool pool' : BlockPool) : Prop where
  config : pool'.toPoolConfig = pool.toPoolConfig
  hashMap : pool'.cachedBlockHashToBlock = pool.cachedBlockHashToBlock
  blockHash : ∀ b, (pool'.blocks b).blockHash = (pool.blocks b).blockHash

theorem SameHashes.refl (pool : BlockPool) : SameHashes pool pool := ⟨rfl, rfl, fun _ => rfl⟩

theorem SameHashes.trans {p pool' pool'' : BlockPool} (first : SameHashes p pool')
    (second : SameHashes pool' pool'') : SameHashes p pool'' :=
  ⟨second.config.trans first.config, second.hashMap.trans first.hashMap,
    fun b => (second.blockHash b).trans (first.blockHash b)⟩

theorem freeBlocks_sameHashes {p pool' : BlockPool} (ran : p.freeBlocks bs = .ok pool') :
    SameHashes p pool' := by
  have released : SameHashes p (bs.foldl releaseBlock p) := by
    clear ran
    induction bs generalizing p with
    | nil => exact .refl p
    | cons b rest ih =>
      have first : SameHashes p (p.releaseBlock b) := ⟨rfl, rfl, fun c => setRefCnt_blockHash p b _ c⟩
      exact first.trans ih
  obtain ⟨queue, -, ran⟩ := bind_ok ran
  cases ran
  exact released.trans ⟨rfl, rfl, fun _ => rfl⟩

end BlockPool

namespace SingleTypeKVCacheManager

structure Releases (nullBlock : Nat) (requestId : String) (outdated : Nat → Prop)
    (m m' : SingleTypeKVCacheManager) : Prop where
  others : ∀ other, other ≠ requestId → m'.getBlocks other = m.getBlocks other
  length : (m'.getBlocks requestId).length = (m.getBlocks requestId).length
  table : ∀ (i : Nat) b, (m.getBlocks requestId)[i]? = some b →
    (m'.getBlocks requestId)[i]? = some b ∨ (m'.getBlocks requestId)[i]? = some nullBlock ∧ outdated i

variable {null : Nat} {requestId id : String} {outdated : Nat → Prop} {m m' m'' : SingleTypeKVCacheManager}
  {p pool' : BlockPool}

theorem Releases.of_table_eq (same : ∀ other, m'.getBlocks other = m.getBlocks other) :
    Releases null id outdated m m' :=
  ⟨fun other _ => same other, by rw [same], fun i b at_ => .inl (by rw [same]; exact at_)⟩

theorem Releases.trans (first : Releases null id outdated m m') (second : Releases null id outdated m' m'') :
    Releases null id outdated m m'' := by
  refine ⟨fun other ne => ?_, second.length.trans first.length, fun i b at_ => ?_⟩
  · rw [second.others other ne, first.others other ne]
  · rcases first.table i b at_ with kept | ⟨gone, old⟩
    · exact second.table i b kept
    · refine .inr ⟨?_, old⟩
      rcases second.table i null gone with kept | ⟨gone, -⟩
      · exact kept
      · exact gone

theorem Releases.of_setBlocks (length : bs.length = (m.getBlocks id).length)
    (table : ∀ (i : Nat) b, (m.getBlocks id)[i]? = some b → bs[i]? = some b ∨ bs[i]? = some null ∧
      outdated i) :
    Releases null id outdated m (m.setBlocks id bs) := by
  refine ⟨fun other ne => getBlocks_setBlocks_of_ne m bs ne, ?_, fun i b at_ => ?_⟩
  · rw [getBlocks_setBlocks_self, length]
  · rw [getBlocks_setBlocks_self]
    exact table i b at_

section
variable (m : SingleTypeKVCacheManager)

@[simp] theorem view_setBlocks (id : String) (bs : List Nat) :
    (m.setBlocks id bs).view id = { m.view id with length := bs.length } := by
  simp only [view, getBlocks_setBlocks_self]
  rfl

theorem openBlocks_getBlocks (id other : String) :
    (m.openBlocks id).getBlocks other = m.getBlocks other := by
  by_cases same : other = id
  · rw [same]
    exact getBlocks_setBlocks_self m id _
  · exact getBlocks_setBlocks_of_ne m _ same

theorem view_openBlocks (requestId : String) : (m.openBlocks requestId).view requestId = m.view requestId :=
  view_setBlocks m requestId _

end

theorem skipLoop_get (null n : Nat) (bs : List Nat) {i b : Nat} (at_ : bs[i]? = some b) :
    (skipLoop null n bs).2[i]? = some b ∨ (skipLoop null n bs).2[i]? = some null ∧ i < n := by
  induction n generalizing bs b with
  | zero => exact .inl at_
  | succ n ih =>
    unfold skipLoop
    split
    · exact .inl at_
    rename_i c here
    split
    · exact .inl at_
    dsimp only
    by_cases same : i = n
    · subst same
      have inside := (List.getElem_of_getElem? here).1
      rcases ih (bs.set i null) (b := null) (getElem?_set_self inside) with kept | ⟨gone, less⟩
      · exact .inr ⟨kept, Nat.lt_succ_self i⟩
      · omega
    · rcases ih (bs.set n null) (b := b) (by rwa [getElem?_set_ne (Ne.symm same)]) with kept | ⟨gone, less⟩
      · exact .inl kept
      · exact .inr ⟨gone, by omega⟩

/-- The computed tokens that decide which blocks are outside the window: draft tokens of a Mamba
request may still be rejected. -/
def windowTokens (m : SingleTypeKVCacheManager) (totalComputedTokens : Int) : Int :=
  match m.kvCacheSpec with
  | .mamba _ numSpeculativeBlocks => max 0 (totalComputedTokens - numSpeculativeBlocks)
  | _ => totalComputedTokens

/-- Attention no longer reads any token of the block, or the block has a Mamba state with a newer
one behind it. -/
def Outdated (m : SingleTypeKVCacheManager) (requestId : String) (totalComputedTokens : Int)
    (i : Nat) : Prop :=
  (i + 1) * (m.blockSize : Int) ≤ m.kvCacheSpec.getNumSkippedTokens (m.windowTokens totalComputedTokens) ∨
    ∃ lastStateBlockIdx, m.lastStateBlockIdx.lookup requestId = some lastStateBlockIdx ∧
      lastStateBlockIdx < ceilDiv (m.windowTokens totalComputedTokens) m.blockSize - 1 ∧
      listIndex (m.getBlocks requestId).length lastStateBlockIdx = .ok i

variable {computed : Int}

theorem removeSkippedBlocksBase_releases
    (ran : m.removeSkippedBlocksBase p id computed = .ok (m', pool')) : Releases p.nullBlock id
        (fun i => (i + 1) * (m.blockSize : Int) ≤ m.kvCacheSpec.getNumSkippedTokens computed) m m' ∧
      m'.view id = m.view id ∧ m'.lastStateBlockIdx = m.lastStateBlockIdx ∧ p.SameHashes pool' := by
  unfold removeSkippedBlocksBase at ran
  dsimp only at ran
  split at ran
  · cases ran
    exact ⟨.of_table_eq fun _ => rfl, rfl, rfl, .refl _⟩
  rename_i some
  obtain ⟨freed, ranFree, res⟩ := map_ok ran
  cases res
  have pos : (0 : Int) < m.blockSize := by exact_mod_cast m.positive
  have length := (skipLoop_spec p.nullBlock (min (m.kvCacheSpec.getNumSkippedTokens computed / m.blockSize)
    (m.getBlocks id).length).toNat (m.getBlocks id)).1
  refine ⟨.of_setBlocks length fun i b at_ => ?_, ?_, rfl, BlockPool.freeBlocks_sameHashes ranFree⟩
  · refine (skipLoop_get p.nullBlock _ _ at_).imp_right (And.imp_right fun less => ?_)
    have below : (i : Int) + 1 ≤ m.kvCacheSpec.getNumSkippedTokens computed / m.blockSize := by omega
    exact (Int.mul_le_mul_of_nonneg_right below pos.le).trans (Int.ediv_mul_le _ pos.ne')
  · rw [view_setBlocks, length]
    rfl

theorem freeLastState_releases (ran : m.freeLastState p id computed = .ok (m', pool')) :
    Releases p.nullBlock id (fun i => ∃ lastStateBlockIdx, m.lastStateBlockIdx.lookup id =
        some lastStateBlockIdx ∧ lastStateBlockIdx < ceilDiv computed m.blockSize - 1 ∧
        listIndex (m.getBlocks id).length lastStateBlockIdx = .ok i) m m' ∧
      m'.view id = m.view id ∧ p.SameHashes pool' := by
  unfold freeLastState at ran
  split at ran
  · cases ran
    exact ⟨.of_table_eq fun _ => rfl, rfl, .refl _⟩
  rename_i lastStateBlockIdx recorded
  split at ran
  · rename_i newer
    obtain ⟨index, found, ran⟩ := bind_ok ran
    dsimp only at ran
    split at ran
    · cases ran
      exact ⟨.of_table_eq fun other => openBlocks_getBlocks m id other, view_openBlocks m id, .refl _⟩
    obtain ⟨freed, ranFree, res⟩ := map_ok ran
    have hashes := BlockPool.freeBlocks_sameHashes ranFree
    rw [congrArg PoolConfig.nullBlock hashes.config] at res
    cases res
    refine ⟨.of_setBlocks (length_set) fun i b at_ => ?_, ?_, hashes⟩
    · by_cases same : i = index
      · subst same
        refine .inr ⟨List.getElem?_set_self (List.getElem_of_getElem? at_).1, lastStateBlockIdx,
          recorded, newer, found⟩
      · exact .inl (by rwa [getElem?_set_ne (Ne.symm same)])
    · rw [view_setBlocks, length_set]
      rfl
  · cases ran
    exact ⟨.of_table_eq fun _ => rfl, rfl, .refl _⟩

theorem Releases.imp (releases : Releases null id outdated m m') (outdated' : Nat → Prop)
    (weaker : ∀ i, outdated i → outdated' i) : Releases null id outdated' m m' :=
  ⟨releases.others, releases.length, fun i b at_ => (releases.table i b at_).imp_right
    (And.imp_right (weaker i))⟩

theorem removeSkippedBlocks_releases {totalComputedTokens : Int}
    (ran : m.removeSkippedBlocks p id totalComputedTokens = .ok (m', pool')) :
    Releases p.nullBlock id (m.Outdated id totalComputedTokens) m m' ∧ m'.view id = m.view id ∧
      p.SameHashes pool' := by
  unfold removeSkippedBlocks at ran
  split at ran
  · rename_i align extra spec
    have window : m.windowTokens totalComputedTokens = max 0 (totalComputedTokens - extra) := by
      simp only [windowTokens, spec]
    obtain ⟨⟨m₁, pool₁⟩, first, ran⟩ := bind_ok ran
    obtain ⟨releases, view, recorded, hs⟩ := removeSkippedBlocksBase_releases first
    have releases := releases.imp (m.Outdated id totalComputedTokens) fun i old => .inl (window ▸ old)
    dsimp only at ran
    split at ran
    · obtain ⟨releases', view', hashes'⟩ := freeLastState_releases ran
      have cfg : m₁.toManagerConfig = m.toManagerConfig := congrArg TableView.toManagerConfig view
      rw [recorded, releases.length, cfg, congrArg PoolConfig.nullBlock hs.config] at releases'
      refine ⟨releases.trans (releases'.imp _ fun i old => .inr ?_), view'.trans view, hs.trans hashes'⟩
      rwa [window]
    · cases ran
      exact ⟨releases, view, hs⟩
  · rename_i notMamba
    have window : m.windowTokens totalComputedTokens = totalComputedTokens := by
      unfold windowTokens
      split
      · exact absurd ‹_› (notMamba _ _)
      · rfl
    obtain ⟨releases, view, -, hs⟩ := removeSkippedBlocksBase_releases ran
    refine ⟨releases.imp _ fun i old => .inl ?_, view, hs⟩
    rwa [window]

end SingleTypeKVCacheManager

namespace KVCacheManager

variable {kv kv' kv'' : KVCacheManager} {queue : List Nat} {requestId id : String}
  {totalComputedTokens total : Nat}

section
variable (kv : KVCacheManager) (requestId : String)

def views : List TableView := kv.singleTypeManagers.map (·.view requestId)

def tableCount (b : Nat) : Nat :=
  (kv.singleTypeManagers.map fun m => (m.getBlocks requestId).count b).sum

end

/-- Block tables, reference counts and hash map differ only by the release of outdated blocks. -/
structure OnlyReleases (requestId : String) (totalComputedTokens : Nat) (kv kv' : KVCacheManager) : Prop where
  hashes : kv.blockPool.SameHashes kv'.blockPool
  tables : ∀ (j : Nat) m', kv'.singleTypeManagers[j]? = some m' → ∃ m, kv.singleTypeManagers[j]? = some m ∧
    Releases kv.blockPool.nullBlock requestId (m.Outdated requestId totalComputedTokens) m m'
  refCnt : ∀ b, b ≠ kv.blockPool.nullBlock →
    (kv'.blockPool.blocks b).refCnt + kv.tableCount requestId b =
      (kv.blockPool.blocks b).refCnt + kv'.tableCount requestId b

variable {q q' : List Nat}

theorem skip_counts {null b i : Nat} {ms ms' : List SingleTypeKVCacheManager} {results : List Unit}
    (walk : Walk (SkipRound null id) i q ms results ms' q') (real : b ≠ null) :
    heldAll held ms' b + (ms.map fun m => (m.getBlocks id).count b).sum =
      heldAll held ms b + (ms'.map fun m => (m.getBlocks id).count b).sum := by
  induction walk with
  | nil => rfl
  | cons first later ih =>
    obtain ⟨removed, moves⟩ := first
    have table := moves.table b real
    have held := moves.held b real
    simp only [heldAll, map_cons, sum_cons] at ih ⊢
    omega

theorem Inv.removeSkippedBlocks_total (inv : kv.Inv queue) (id : String) (total : Nat) :
    (∃ kv' queue', kv.removeSkippedBlocks id total = .ok kv' ∧ kv'.Inv queue' ∧ kv'.config = kv.config ∧
      kv'.views id = kv.views id ∧ OnlyReleases id total kv kv') ∨
    kv.removeSkippedBlocks id total = .error .indexOutOfRange := by
  rcases inv.forEach_total (fun i q m a m' q' => SkipRound kv.blockPool.nullBlock id i q m a m' q' ∧
      Releases kv.blockPool.nullBlock id (m.Outdated id total) m m' ∧
      m'.view id = m.view id) (fun _ _ _ e => e = .indexOutOfRange)
    (fun _ m pool => (m.removeSkippedBlocks pool id total).map (Prod.mk ()))
    (fun i m at_ frame p q same before wf => by
      rcases SingleTypeKVCacheManager.removeSkippedBlocks_total before (same ▸ wf) id total with
        ⟨m', p', removed, q', ran, effect⟩ | failed
      · obtain ⟨releases, view, -⟩ := removeSkippedBlocks_releases ran
        refine .inl ⟨(), m', p', q', [], removed, id, congrArg (Except.map (Prod.mk ())) ran, effect,
          ⟨removed, same ▸ effect.moves⟩, same ▸ releases, view⟩
      · exact .inr ⟨_, congrArg (Except.map (Prod.mk ())) failed, rfl⟩) with
    ⟨results, kv', queue', loop, inv', cfg, walk⟩ | ⟨e, failed, halts⟩
  · refine .inl ⟨kv', queue', by rw [KVCacheManager.removeSkippedBlocks, loop]; rfl, inv', cfg, ?_, ?_,
      fun j m' at_ => ?_,
      fun b real => ?_⟩
    · exact walk.map_eq fun _ _ _ _ _ _ round => round.2.2
    · obtain ⟨⟨_, managers, pool⟩, inner, res⟩ := map_ok loop
      cases res
      refine forEach_relates _ BlockPool.SameHashes.refl (fun _ _ _ => .trans) (fun i m p _ m' p' ran => ?_) inner
      obtain ⟨_, ran, res⟩ := map_ok ran
      cases res
      exact (removeSkippedBlocks_releases ran).2.2
    · obtain ⟨m, _, _, _, here, -, -, releases, -⟩ := walk.get at_
      exact ⟨m, here, releases⟩
    · have counts := skip_counts (walk.imp fun _ _ _ _ _ _ round => round.1) real
      have nullEq : kv'.blockPool.nullBlock = kv.blockPool.nullBlock := congrArg (·.pool.nullBlock) cfg
      rw [inv.pool.refCnt b real, inv'.pool.refCnt b (nullEq ▸ real)]
      exact_mod_cast counts
  · refine .inr ?_
    rw [KVCacheManager.removeSkippedBlocks, failed, halts.error fun _ _ _ _ stop => stop]
    rfl

theorem OnlyReleases.trans_count (released : OnlyReleases requestId total kv kv')
    (samePool : kv''.blockPool = kv'.blockPool) {i : Nat} {counts : List Int}
    (walk : Walk (CountRound requestId) i q kv'.singleTypeManagers counts kv''.singleTypeManagers q') :
    OnlyReleases requestId total kv kv'' ∧ kv''.views requestId = kv'.views requestId := by
  have tables : ∀ {m m' : SingleTypeKVCacheManager}, (m' = m ∨ m' = m.openBlocks requestId) →
      ∀ other, m'.getBlocks other = m.getBlocks other := fun {m m'} same other => by
    rcases same with rfl | rfl
    · rfl
    · exact openBlocks_getBlocks m requestId other
  refine ⟨⟨samePool ▸ released.hashes, fun j m'' at_ => ?_, fun b real => ?_⟩,
    walk.map_eq fun _ _ m _ m' _ round => ?_⟩
  · obtain ⟨m', _, _, _, here, -, -, same⟩ := walk.get at_
    obtain ⟨m, at_, releases⟩ := released.tables j m' here
    exact ⟨m, at_, releases.trans (.of_table_eq (tables same))⟩
  · have count : kv''.tableCount requestId b = kv'.tableCount requestId b :=
      congrArg sum (walk.map_eq fun _ _ m _ m' _ round => by rw [tables round.2])
    rw [samePool, count]
    exact released.refCnt b real
  · rcases round.2 with rfl | rfl
    · rfl
    · exact view_openBlocks m requestId

end KVCacheManager

end TurboQuant.Core
