import TurboQuant.Core.CacheInvariant
import TurboQuant.Lib.Shares

/-!
The block tables of different groups.
-/

namespace TurboQuant.Core
open Outcome Holders Shares SingleTypeKVCacheManager List SingleTypeKVCacheManager

namespace SingleTypeKVCacheManager

def tableBlocks (m : SingleTypeKVCacheManager) : List Nat := m.reqToBlocks.entries.flatMap (·.2)

def claim (m : SingleTypeKVCacheManager) (requestId : String)
    (numLocalComputedTokens numExternalComputedTokens : Nat)
    (computed : List Nat) : List Nat × Nat :=
  let total : Int := numLocalComputedTokens + numExternalComputedTokens
  (m.attachedHits computed total, m.newExternalBlocks requestId computed total numExternalComputedTokens)

variable {m m' : SingleTypeKVCacheManager} {id : String} {null b : Nat} {added removed : List Nat}

theorem held_eq_count (m : SingleTypeKVCacheManager) (b : Nat) : m.held b = m.tableBlocks.count b :=
  count_flatMap.symm

theorem mem_tableBlocks : b ∈ m.tableBlocks ↔ 0 < m.held b := by
  rw [held_eq_count, count_pos_iff]

theorem Moves.mem_tableBlocks (moves : Moves null id added [] m m') (real : b ≠ null) :
    b ∈ m'.tableBlocks ↔ b ∈ m.tableBlocks ∨ b ∈ added := by
  have step := moves.held b real
  rw [count_nil, Nat.add_zero] at step
  rw [SingleTypeKVCacheManager.mem_tableBlocks, SingleTypeKVCacheManager.mem_tableBlocks, ← count_pos_iff]
  omega

theorem mem_tableBlocks_of_getBlocks (mem : b ∈ m.getBlocks id) : b ∈ m.tableBlocks := by
  rw [mem_tableBlocks]
  exact (count_pos_iff.mpr mem).trans_le (count_le_held m id b)

theorem Moves.tableBlocks_subset (moves : Moves null id [] removed m m') (real : b ≠ null)
    (mem : b ∈ m'.tableBlocks) : b ∈ m.tableBlocks := by
  have step := moves.held b real
  rw [count_nil, Nat.add_zero] at step
  rw [SingleTypeKVCacheManager.mem_tableBlocks] at mem ⊢
  omega

end SingleTypeKVCacheManager

namespace KVCacheManager

section
variable (kv : KVCacheManager)

def GroupsApart : Prop :=
  (kv.singleTypeManagers.map (·.tableBlocks)).Pairwise (Apart (· ≠ kv.blockPool.nullBlock))

section
variable (args : SlotArgs)

def HitsOwn : Prop :=
  (kv.newComputedBlockList args).Pairwise (Apart (· ≠ kv.blockPool.nullBlock)) ∧
    ∀ hits ∈ (kv.newComputedBlockList args).zipIdx,
      ∀ table ∈ (kv.singleTypeManagers.map (·.tableBlocks)).zipIdx,
      hits.2 ≠ table.2 → Apart (· ≠ kv.blockPool.nullBlock) hits.1 table.1

def claims : List (List Nat × Nat) :=
  zipWith (fun m computed =>
    m.claim args.request.requestId args.numLocalComputedTokens args.numExternalComputedTokens computed)
    kv.singleTypeManagers (kv.newComputedBlockList args)

def attachedHits : List (List Nat) := (kv.claims args).map Prod.fst

/-- There are enough free blocks for the call once skipped blocks are released, and a group then
takes a block for external tokens that a later group has hit. -/
def collides : Bool :=
  match kv.removeSkippedBlocks args.request.requestId (kv.totalComputedTokens args) with
  | .error _ => false
  | .ok kv =>
    match kv.numBlocksForSlots args, kv.blockPool.freeBlockQueue.getAllFreeBlocks with
    | .ok (numBlocksToAllocate, _), .ok queue =>
      decide (numBlocksToAllocate ≤ queue.length ∧ Steals queue (kv.claims args))
    | _, _ => false

end

end

instance (kv : KVCacheManager) : Decidable kv.GroupsApart := inferInstanceAs (Decidable (List.Pairwise _ _))

instance (kv : KVCacheManager) (args : SlotArgs) : Decidable (kv.HitsOwn args) :=
  inferInstanceAs (Decidable (_ ∧ _))

variable {kv kv' : KVCacheManager} {queue q : List Nat} {args a : SlotArgs} {nullBlock null : Nat}
  {id : String}

/-! ### The two loops that take blocks -/

variable {ms ms' : List SingleTypeKVCacheManager} {q' : List Nat}

theorem attach_shares {lists : List (List Nat)} {numLocal numExternal i : Nat} {results : List Unit}
    (walk : Walk (AttachRound null id lists numLocal numExternal) i q ms results ms' q') :
    let claims := List.zipWith (fun m computed => m.claim id numLocal numExternal computed) ms (lists.drop i)
    claims.length = ms.length ∧ q' = leftover q claims ∧ ∀ (j : Nat) m', ms'[j]? = some m' →
      ∃ m claim share, ms[j]? = some m ∧ claims[j]? = some claim ∧ (shares q claims)[j]? = some share ∧
        Moves null id share [] m m' ∧ m'.allocatedBlockReqs = m.allocatedBlockReqs ∧
        (claim.1 ≠ [] → m.getBlocks id = []) := by
  induction walk with
  | nil i q =>
    refine ⟨rfl, rfl, fun j m' at_ => ?_⟩
    cases at_
  | @cons i q next last m m₁ rest rest' result results first later ih =>
    obtain ⟨computed, at_, moves, rfl, alloc, empty⟩ := first
    obtain ⟨inside, here⟩ := List.getElem_of_getElem? at_
    have split : lists.drop i = computed :: lists.drop (i + 1) := by
      rw [List.drop_eq_getElem_cons inside, here]
    obtain ⟨length, left, each⟩ := ih
    rw [split]
    refine ⟨congrArg (· + 1) length, left, fun j m' at_ => ?_⟩
    cases j with
    | zero =>
      cases at_
      exact ⟨m, _, _, rfl, rfl, rfl, moves, alloc, empty⟩
    | succ j => exact each j m' at_

variable {bs' : List (List Nat)}

theorem new_shares {i : Nat}
    (walk : Walk (NewRound null id) i q ms bs' ms' q') :
    ∃ ns : List Nat, ∀ (j : Nat) m', ms'[j]? = some m' → ∃ m fresh returned, ms[j]? = some m ∧
      (shares q (ns.map (([] : List Nat), ·)))[j]? = some fresh ∧ bs'[j]? = some returned ∧
      Moves null id fresh [] m m' ∧ ∀ b ∈ returned, b ≠ null → b ∈ fresh ∨
        (m.Reuses id ∧ b ∈ m.getBlocks id) := by
  induction walk with
  | nil i q =>
    refine ⟨[], fun j m' at_ => ?_⟩
    cases at_
  | @cons i q next last m m₁ rest rest' returned results first later ih =>
    obtain ⟨n, moves, rfl, fresh⟩ := first
    obtain ⟨ns, each⟩ := ih
    have whole : q.filter (· ∉ ([] : List Nat)) = q := by simp
    refine ⟨n :: ns, fun j m' at_ => ?_⟩
    rw [map_cons, shares, whole, nil_append]
    cases j with
    | zero =>
      cases at_
      exact ⟨m, _, returned, rfl, rfl, rfl, moves, fresh⟩
    | succ j => exact each j m' at_

/-! ### One call -/

theorem Inv.free_of_mem (inv : kv.Inv q) {b : Nat} (mem : b ∈ q) {m : SingleTypeKVCacheManager}
    (isManager : m ∈ kv.singleTypeManagers) : b ∉ m.tableBlocks := by
  have none := ((inv.pool.free b).mp mem).2.2
  rw [mem_tableBlocks]
  have part : m.held b ≤ kv.occurrences b := single_le_sum (fun _ _ => Nat.zero_le _) _
    (mem_map_of_mem isManager)
  omega

variable {claim : List Nat × Nat}

theorem claims_get {i : Nat} (at_ : (kv.claims a)[i]? = some claim) :
    ∃ computed, (kv.newComputedBlockList a)[i]? = some computed ∧ claim.1 ⊆ computed := by
  obtain ⟨m, computed, -, here, rfl⟩ := getElem?_zipWith_eq_some.mp at_
  exact ⟨computed, here, drop_subset _ _⟩

theorem HitsOwn.reserved (own : kv.HitsOwn a) :
    ((kv.claims a).map Prod.fst).Pairwise (Apart (· ≠ kv.blockPool.nullBlock)) := by
  rw [pairwise_map, pairwise_iff_getElem]
  intro i j insideI insideJ less b inI real inJ
  obtain ⟨given, atI, subsetI⟩ := claims_get (getElem?_eq_getElem insideI)
  obtain ⟨given', atJ, subsetJ⟩ := claims_get (getElem?_eq_getElem insideJ)
  exact pairwise_apart_get own.1 atI atJ (Nat.ne_of_lt less) b (subsetI inI) real (subsetJ inJ)

theorem HitsOwn.tables (own : kv.HitsOwn a) {i j : Nat} {table : List Nat}
    (atClaim : (kv.claims a)[i]? = some claim)
    (atTable : (kv.singleTypeManagers.map (·.tableBlocks))[j]? = some table)
    (ne : i ≠ j) : Apart (· ≠ kv.blockPool.nullBlock) claim.1 table := by
  obtain ⟨given, atGiven, subset⟩ := claims_get atClaim
  intro b mem real
  exact own.2 (given, i) (mk_mem_zipIdx_iff_getElem?.mpr atGiven) (table, j)
    (mk_mem_zipIdx_iff_getElem?.mpr atTable) ne b (subset mem) real

def FreshBlocks (nullBlock : Nat) (hits newBlocks : List (List Nat)) : Prop :=
  ∀ blocks ∈ newBlocks, ∀ b ∈ blocks, b ≠ nullBlock → ∀ hit ∈ hits, b ∉ hit

theorem Inv.cacheSlots_tables (inv : kv.Inv q) {request : CacheRequest} {n : Nat}
    {skip : Prop} [Decidable skip] {bs' newBlocks' : List (List Nat)}
    (ran : (if skip then Except.ok (bs', kv) else (kv.coordinatorCacheBlocks request n).map (bs', ·)) =
      .ok (newBlocks', kv')) :
    newBlocks' = bs' ∧ kv'.config = kv.config ∧ kv'.singleTypeManagers.length = kv.singleTypeManagers.length ∧
      ∀ (j : Nat) m', kv'.singleTypeManagers[j]? = some m' → ∃ m, kv.singleTypeManagers[j]? = some m ∧
        ∀ b, b ≠ kv.blockPool.nullBlock → (b ∈ m'.tableBlocks ↔ b ∈ m.tableBlocks) := by
  split at ran
  · cases ran
    exact ⟨rfl, rfl, rfl, fun j m' at_ => ⟨m', at_, fun _ _ => Iff.rfl⟩⟩
  · obtain ⟨_, cached, result⟩ := map_ok ran
    cases result
    obtain ⟨q', results, -, cfg, walk⟩ := inv.coordinatorCacheBlocks cached
    refine ⟨rfl, cfg, walk.length_eq.1, fun j m' at_ => ?_⟩
    obtain ⟨m, _, _, _, here, -, moves, -⟩ := walk.get at_
    exact ⟨m, here, fun b real => by simpa using moves.mem_tableBlocks real⟩

theorem claim_eq_nil_of_reuses {m m₁ : SingleTypeKVCacheManager} {hits added : List Nat} (wf : m.WF null)
    (moves : Moves null id added [] m m₁) (alloc : m₁.allocatedBlockReqs = m.allocatedBlockReqs)
    (empty : hits ≠ [] → m.getBlocks id = []) (reuses : m₁.Reuses id) : hits = [] := by
  by_contra some
  obtain ⟨n, spec, positive, mem⟩ := reuses
  have room := wf.speculative true n (by rw [← spec, moves.config]) id (alloc ▸ mem)
  rw [empty some, length_nil] at room
  omega

section
variable (inv : kv.Inv q) (valid : a.ValidHits kv.config.pool.nullBlock kv.config.groups)
include inv valid

theorem Inv.takeSlots_grown (ran : kv.takeSlots a = .ok (bs', kv')) :
    ∃ ns : List Nat, kv'.config = kv.config ∧ (kv.claims a).length = kv'.singleTypeManagers.length ∧
      bs'.length = kv'.singleTypeManagers.length ∧
      ∀ (j : Nat) m', kv'.singleTypeManagers[j]? = some m' → ∃ m claim share fresh returned,
        kv.singleTypeManagers[j]? = some m ∧ (kv.claims a)[j]? = some claim ∧
          (shares q (kv.claims a))[j]? = some share ∧
        (shares (leftover q (kv.claims a)) (ns.map (([] : List Nat), ·)))[j]? = some fresh ∧
          bs'[j]? = some returned ∧
        (∀ b, b ≠ kv.blockPool.nullBlock → (b ∈ m'.tableBlocks ↔ b ∈ m.tableBlocks ∨ b ∈ share ∨ b ∈ fresh)) ∧
        ∀ b ∈ returned, b ≠ kv.blockPool.nullBlock → b ∈ fresh ∨ (claim.1 = [] ∧ b ∈ m'.tableBlocks) := by
  obtain ⟨kv₁, attached, ran⟩ := bind_ok ran
  obtain ⟨queue₁, results, inv₁, config₁, walk₁⟩ := inv.attachComputedBlocks valid attached
  obtain ⟨⟨taken, kv₂⟩, ranNew, ran⟩ := bind_ok ran
  obtain ⟨queue₂, inv₂, config₂, walk₂⟩ := inv₁.allocateNewBlocks (Int.natCast_nonneg _) ranNew
  obtain ⟨rfl, config₃, length₃, tables₃⟩ := inv₂.cacheSlots_tables ran
  have null₁ : kv₁.blockPool.nullBlock = kv.blockPool.nullBlock := congrArg (·.pool.nullBlock) config₁
  have null₂ : kv₂.blockPool.nullBlock = kv.blockPool.nullBlock :=
    (congrArg (·.pool.nullBlock) config₂).trans null₁
  rw [null₁] at walk₂
  rw [null₂] at tables₃
  obtain ⟨claimsLength, rfl, shares₁⟩ := attach_shares walk₁
  obtain ⟨ns, shares₂⟩ := new_shares walk₂
  refine ⟨ns, config₃.trans (config₂.trans config₁), ?_, ?_, fun j m' at_ => ?_⟩
  · rwa [length₃, walk₂.length_eq.1, walk₁.length_eq.1]
  · rw [length₃, walk₂.length_eq.1, walk₂.length_eq.2]
  obtain ⟨m₂, at₂, same⟩ := tables₃ j m' at_
  obtain ⟨m₁, fresh, returned, at₁, atFresh, atReturned, moves₂, fromFresh⟩ := shares₂ j m₂ at₂
  obtain ⟨m, claim, share, at₀, atClaim, atShare, moves₁, alloc, empty⟩ := shares₁ j m₁ at₁
  have t : ∀ b, b ≠ kv.blockPool.nullBlock →
      (b ∈ m'.tableBlocks ↔ b ∈ m.tableBlocks ∨ b ∈ share ∨ b ∈ fresh) := fun b real => by
    rw [same b real, moves₂.mem_tableBlocks real, moves₁.mem_tableBlocks real, or_assoc]
  refine ⟨m, claim, share, fresh, returned, at₀, atClaim, atShare, atFresh, atReturned, t,
    fun b mem real => ?_⟩
  refine (fromFresh b mem real).imp_right fun ⟨reuses, old⟩ => ⟨?_, ?_⟩
  · exact claim_eq_nil_of_reuses (inv.managers m (mem_of_getElem? at₀)) moves₁ alloc empty reuses
  · rw [same b real, moves₂.mem_tableBlocks real]
    exact .inl (mem_tableBlocks_of_getBlocks old)

theorem Inv.takeSlots_apart_iff (apart : kv.GroupsApart) (own : kv.HitsOwn a)
    (ran : kv.takeSlots a = .ok (bs', kv')) :
    (kv'.GroupsApart ∧ FreshBlocks kv.blockPool.nullBlock (kv.attachedHits a) bs') ↔
      ¬ Steals q (kv.claims a) := by
  obtain ⟨ns, cfg, length, returnedLength, each⟩ := inv.takeSlots_grown valid ran
  have nullEq : kv'.blockPool.nullBlock = kv.blockPool.nullBlock := congrArg (·.pool.nullBlock) cfg
  have grown : Grown (· ≠ kv.blockPool.nullBlock) q (kv.claims a) ns
      (kv.singleTypeManagers.map (·.tableBlocks))
      (kv'.singleTypeManagers.map (·.tableBlocks)) := fun j table' at_ => by
    rw [getElem?_map, Option.map_eq_some_iff] at at_
    obtain ⟨m', at_, rfl⟩ := at_
    obtain ⟨m, claim, share, fresh, returned, at₀, -, atShare, atFresh, -, t, -⟩ := each j m' at_
    exact ⟨m.tableBlocks, share, fresh, by rw [getElem?_map, at₀, Option.map_some], atShare, atFresh, t⟩
  have gs : kv'.GroupsApart ↔ ¬ Steals q (kv.claims a) := by
    unfold GroupsApart
    rw [nullEq]
    refine grown.apart_iff (by rw [length_map, length]) (fun b mem => ((inv.pool.free b).mp mem).2.1)
      inv.pool.represents.nodup own.reserved (fun t isTable b mem _ => ?_)
      (fun i j claim t atClaim atTable ne => own.tables atClaim atTable ne) apart
    obtain ⟨m, isManager, rfl⟩ := mem_map.mp isTable
    exact inv.free_of_mem mem isManager
  refine ⟨fun after => gs.mp after.1, fun noSteal => ⟨gs.mpr noSteal, ?_⟩⟩
  intro blocks isNew b mem real hit isHit inHit
  obtain ⟨claim, isClaim, rfl⟩ := mem_map.mp isHit
  obtain ⟨i, insideI, rfl⟩ := getElem_of_mem isClaim
  obtain ⟨j, insideJ, rfl⟩ := getElem_of_mem isNew
  have atI := getElem?_eq_getElem (length ▸ insideI : i < kv'.singleTypeManagers.length)
  have atJ := getElem?_eq_getElem (returnedLength ▸ insideJ : j < kv'.singleTypeManagers.length)
  obtain ⟨_, claimI, shareI, freshI, _, -, atClaimI, atShareI, -, -, tableI, -⟩ := each i _ atI
  obtain ⟨_, claimJ, shareJ, freshJ, returned, -, atClaimJ, -, atFreshJ, atReturned, -,
    fromFresh⟩ := each j _ atJ
  rw [getElem?_eq_getElem insideI] at atClaimI
  rw [getElem?_eq_getElem insideJ] at atReturned
  cases atClaimI
  cases atReturned
  have inShare : b ∈ shareI := reserved_subset_share (getElem?_eq_getElem insideI) atShareI inHit
  rcases fromFresh b mem real with inFresh | ⟨noHits, inTable⟩
  · exact leftover_notMem_share inv.pool.represents.nodup
      (fresh_mem_leftover (mem_of_getElem? atFreshJ) inFresh) (mem_of_getElem? atShareI) inShare
  by_cases same : i = j
  · subst same
    rw [getElem?_eq_getElem insideI] at atClaimJ
    cases atClaimJ
    rw [noHits] at inHit
    cases inHit
  · refine pairwise_apart_get (gs.mpr noSteal) ?_ ?_ same b ((tableI b real).mpr (.inr (.inl inShare)))
      (nullEq ▸ real) inTable
    · rw [getElem?_map, atI, Option.map_some]
    · rw [getElem?_map, atJ, Option.map_some]

end

/-! ### The whole call -/

def Shrinks (kv kv' : KVCacheManager) : Prop :=
  ∀ (j : Nat) m', kv'.singleTypeManagers[j]? = some m' → ∃ m, kv.singleTypeManagers[j]? = some m ∧
    ∀ b, b ≠ kv.blockPool.nullBlock → b ∈ m'.tableBlocks → b ∈ m.tableBlocks

theorem Shrinks.trans {kv'' : KVCacheManager} (first : kv.Shrinks kv') (cfg : kv'.config = kv.config)
    (second : kv'.Shrinks kv'') : kv.Shrinks kv'' := by
  intro j m'' at''
  obtain ⟨m', at', later⟩ := second j m'' at''
  obtain ⟨m, at_, earlier⟩ := first j m' at'
  have nullEq : kv'.blockPool.nullBlock = kv.blockPool.nullBlock := congrArg (·.pool.nullBlock) cfg
  exact ⟨m, at_, fun b real mem => earlier b real (later b (nullEq ▸ real) mem)⟩

theorem Shrinks.table (shrinks : kv.Shrinks kv') {j : Nat} {table' : List Nat}
    (at_ : (kv'.singleTypeManagers.map (·.tableBlocks))[j]? = some table') :
    ∃ table, (kv.singleTypeManagers.map (·.tableBlocks))[j]? = some table ∧
      ∀ b, b ≠ kv.blockPool.nullBlock → b ∈ table' → b ∈ table := by
  rw [getElem?_map, Option.map_eq_some_iff] at at_
  obtain ⟨m', at_, rfl⟩ := at_
  obtain ⟨m, here, subset⟩ := shrinks j m' at_
  exact ⟨m.tableBlocks, by rw [getElem?_map, here, Option.map_some], subset⟩

theorem GroupsApart.shrinks (apart : kv.GroupsApart) (shrinks : kv.Shrinks kv')
    (cfg : kv'.config = kv.config) : kv'.GroupsApart := by
  have nullEq : kv'.blockPool.nullBlock = kv.blockPool.nullBlock := congrArg (·.pool.nullBlock) cfg
  unfold GroupsApart
  rw [nullEq, pairwise_iff_getElem]
  intro i j insideI insideJ less b inI real inJ
  obtain ⟨_, atI, subsetI⟩ := shrinks.table (getElem?_eq_getElem insideI)
  obtain ⟨_, atJ, subsetJ⟩ := shrinks.table (getElem?_eq_getElem insideJ)
  exact pairwise_apart_get apart atI atJ (Nat.ne_of_lt less) b (subsetI b real inI) real (subsetJ b real inJ)

theorem newComputedBlockList_config (cfg : kv'.config = kv.config) :
    kv'.newComputedBlockList args = kv.newComputedBlockList args := by
  have length : kv'.singleTypeManagers.length = kv.singleTypeManagers.length := by
    simpa [config] using congrArg (·.groups.length) cfg
  rw [newComputedBlockList, newComputedBlockList, length]

theorem HitsOwn.shrinks (own : kv.HitsOwn args) (shrinks : kv.Shrinks kv') (cfg : kv'.config = kv.config) :
    kv'.HitsOwn args := by
  have nullEq : kv'.blockPool.nullBlock = kv.blockPool.nullBlock := congrArg (·.pool.nullBlock) cfg
  unfold HitsOwn
  rw [nullEq, newComputedBlockList_config cfg]
  refine ⟨own.1, fun hits isHits t isTable ne b mem real inTable => ?_⟩
  obtain ⟨old, at_, subset⟩ := shrinks.table (mk_mem_zipIdx_iff_getElem?.mp isTable)
  exact own.2 hits isHits (old, t.2) (mk_mem_zipIdx_iff_getElem?.mpr at_) ne b mem real
    (subset b real inTable)

theorem attachedHits_config (cfg : kv'.config = kv.config) : kv'.attachedHits args = kv.attachedHits args := by
  have gs : ∀ kv : KVCacheManager, kv.attachedHits args = zipWith (fun (group : ManagerConfig) computed =>
      computed.drop (group.kvCacheSpec.getNumSkippedTokens
        (args.numLocalComputedTokens + args.numExternalComputedTokens : Int) / group.blockSize).toNat)
      kv.config.groups (kv.newComputedBlockList args) := fun kv => by
    rw [attachedHits, claims, map_zipWith, config, zipWith_map_left]
    rfl
  rw [gs, gs, cfg, newComputedBlockList_config cfg]

theorem Inv.shrinks_of_skip (inv : kv.Inv q) {total : Nat} (ran : kv.removeSkippedBlocks id total = .ok kv') :
    ∃ q', kv'.Inv q' ∧ kv'.config = kv.config ∧ kv.Shrinks kv' := by
  obtain ⟨q', results, inv', cfg, walk⟩ := inv.removeSkippedBlocks ran
  refine ⟨q', inv', cfg, fun j m' at_ => ?_⟩
  obtain ⟨m, _, _, _, here, -, removed, moves⟩ := walk.get at_
  exact ⟨m, here, fun b real mem => moves.tableBlocks_subset real mem⟩

theorem Inv.shrinks_of_count (args : SlotArgs) (inv : kv.Inv queue) {hits : List (List Nat)}
    {numTokens numEncoderTokens total mainTokens n : Int} {applyAdmissionCap : Bool}
    (ran : kv.getNumBlocksToAllocate args.request.requestId numTokens hits numEncoderTokens
      total mainTokens applyAdmissionCap = .ok (n, kv')) :
    kv'.Inv queue ∧ kv'.config = kv.config ∧ kv.Shrinks kv' ∧ kv'.claims args = kv.claims args := by
  obtain ⟨q', counts, inv', cfg, walk⟩ := inv.getNumBlocksToAllocate ran
  have same : q' = queue := walk.state_eq fun _ _ _ _ _ _ round => round.1
  refine ⟨same ▸ inv', cfg, fun j m' at_ => ?_, ?_⟩
  · obtain ⟨m, _, _, _, here, -, -, entry⟩ := walk.get at_
    refine ⟨m, here, fun b real mem => ?_⟩
    rcases entry with rfl | rfl
    · exact mem
    · exact (openBlocks_moves kv.blockPool.nullBlock m args.request.requestId).tableBlocks_subset real mem
  · have each := walk.map_eq (f := fun m => m.claim args.request.requestId args.numLocalComputedTokens
      args.numExternalComputedTokens) fun _ _ m _ m' _ round => by
        rcases round.2 with rfl | rfl
        · rfl
        · rfl
    rw [claims, claims, newComputedBlockList_config cfg]
    have apply : ∀ ms : List SingleTypeKVCacheManager, zipWith (fun m computed =>
        m.claim args.request.requestId args.numLocalComputedTokens args.numExternalComputedTokens computed) ms
        (kv.newComputedBlockList args) = zipWith (fun f computed => f computed)
        (ms.map fun m => m.claim args.request.requestId args.numLocalComputedTokens
          args.numExternalComputedTokens)
        (kv.newComputedBlockList args) := fun ms => by rw [zipWith_map_left]
    rw [apply, apply, each]

/-- After a call the tables of different groups are apart and no returned block is a hit, exactly if
no group takes a hit of a later one. -/
theorem allocateSlots_apart_iff (inv : kv.Inv queue) (apart : kv.GroupsApart)
    (valid : args.ValidHits kv.blockPool.nullBlock (kv.singleTypeManagers.map (·.toManagerConfig)))
    (own : kv.HitsOwn args)
    {result : Option (List (List Nat))} (ran : kv.allocateSlots args = .ok (result, kv')) :
    (kv'.GroupsApart ∧ ∀ newBlocks, result = some newBlocks →
        FreshBlocks kv.blockPool.nullBlock (kv.attachedHits args) newBlocks) ↔ kv.collides args = false := by
  unfold allocateSlots at ran
  split at ran
  · cases ran
  obtain ⟨kv₁, skipped, ran⟩ := bind_ok ran
  obtain ⟨queue₁, inv₁, config₁, shrinks₁⟩ := inv.shrinks_of_skip skipped
  obtain ⟨⟨n, kv₂⟩, counted, ran⟩ := bind_ok ran
  obtain ⟨inv₂, config₂, shrinks₂, claims₂⟩ := inv₁.shrinks_of_count args counted
  have config := config₂.trans config₁
  have shrinks := shrinks₁.trans config₁ shrinks₂
  have apart₂ := apart.shrinks shrinks config
  have collides : kv.collides args = decide (n ≤ kv₂.blockPool.getNumFreeBlocks ∧
      Steals queue₁ (kv₂.claims args)) := by
    unfold collides
    rw [skipped]
    simp only [counted, inv₁.pool.represents.getAllFreeBlocks, claims₂]
    rw [BlockPool.getNumFreeBlocks, inv₂.pool.represents.count]
  rw [collides, decide_eq_false_iff_not]
  dsimp only at ran
  split at ran
  · rename_i tooFew
    cases ran
    exact ⟨fun _ enough => absurd enough.1 (by omega), fun _ => ⟨apart₂, fun _ some => by cases some⟩⟩
  · rename_i enough
    obtain ⟨⟨newBlocks, _⟩, taken, result⟩ := map_ok ran
    cases result
    have nullEq : kv₂.blockPool.nullBlock = kv.blockPool.nullBlock := congrArg (·.pool.nullBlock) config
    have whole := inv₂.takeSlots_apart_iff (config ▸ valid) apart₂ (own.shrinks shrinks config) taken
    rw [nullEq, attachedHits_config config] at whole
    simp only [Option.some.injEq, forall_eq', whole, not_lt.mp enough, true_and]

def windowGroup (slidingWindow : Nat) (window : 0 < slidingWindow) (blockSize : Nat) (positive : 0 < blockSize)
    (kvCacheGroupId : Nat) : ManagerConfig :=
  ⟨.slidingWindow slidingWindow window, blockSize, positive, kvCacheGroupId, none⟩

def twoGroups : List ManagerConfig := [fullGroup 2 (by decide) 0, windowGroup 100 (by decide) 2 (by decide) 1]

def comeAndGo : List Op :=
  [.allocateSlots { request := ⟨"a", 2, 0, [[1]]⟩, numNewTokens := 2 },
    .allocateSlots { request := ⟨"c", 2, 0, [[2]]⟩, numNewTokens := 2 }, .free "a", .free "c"]

def hitAndLoad : SlotArgs where
  request := ⟨"b", 5, 0, [[1], [3]]⟩
  numNewTokens := 0
  numNewComputedTokens := 2
  newComputedBlocks := some [[1], [2]]
  numExternalComputedTokens := 2
  delayCacheBlocks := true

theorem allocateSlots_apart_spare_block :
    ∃ kv kv', (new 16 6 true 2 twoGroups >>= (·.run comeAndGo)) = .ok kv ∧
    kv.allocateSlots hitAndLoad = .ok (some [[], []], kv') ∧
    kv'.singleTypeManagers.map (·.getBlocks "b") = [[1, 5], [2, 3]] ∧ kv'.GroupsApart := by
  have ran : (new 16 6 true 2 twoGroups >>= fun kv => kv.run comeAndGo >>= fun kv =>
      (kv.allocateSlots hitAndLoad).map fun (result, kv') => (decide kv.GroupsApart,
        decide (kv.HitsOwn hitAndLoad),
        kv.collides hitAndLoad, result, kv'.singleTypeManagers.map (·.getBlocks "b"))) =
      .ok (true, true, false, some [[], []], [[1, 5], [2, 3]]) := rfl
  obtain ⟨kv₀, made, ran⟩ := bind_ok ran
  obtain ⟨kv, before, ran⟩ := bind_ok ran
  obtain ⟨⟨result, kv'⟩, slots, facts⟩ := map_ok ran
  simp only [Prod.mk.injEq, decide_eq_true_eq] at facts
  obtain ⟨apart, own, noCollision, rfl, tables⟩ := facts
  obtain ⟨config₀, inv₀⟩ := new_inv made
  obtain ⟨queue, inv, config⟩ := inv₀.run (by rw [config₀]; decide) before
  have valid : hitAndLoad.ValidHits kv.config.pool.nullBlock kv.config.groups := by
    rw [config, config₀]
    decide
  refine ⟨kv, kv', by rw [made]; exact before, slots, tables, ?_⟩
  exact ((allocateSlots_apart_iff inv apart valid own slots).mpr noCollision).1

/-- Without it the first group takes the block that the second one has hit. -/
theorem allocateSlots_shares_block : ∃ kv kv', (new 16 5 true 2 twoGroups >>= (·.run comeAndGo)) = .ok kv ∧
    kv.allocateSlots hitAndLoad = .ok (some [[], []], kv') ∧
    kv'.singleTypeManagers.map (·.getBlocks "b") = [[1, 2], [2, 3]] ∧ ¬ kv'.GroupsApart := by
  have ran : ((new 16 5 true 2 twoGroups >>= (·.run comeAndGo)) >>= fun kv =>
      (kv.allocateSlots hitAndLoad).map fun (result, kv') =>
        (result, kv'.singleTypeManagers.map (·.getBlocks "b"),
        decide kv'.GroupsApart)) = .ok (some [[], []], [[1, 2], [2, 3]], false) := rfl
  obtain ⟨kv, before, ran⟩ := bind_ok ran
  obtain ⟨⟨result, kv'⟩, slots, facts⟩ := map_ok ran
  simp only [Prod.mk.injEq, decide_eq_false_iff_not] at facts
  obtain ⟨rfl, tables, shared⟩ := facts
  exact ⟨kv, kv', before, slots, tables, shared⟩

end KVCacheManager

end TurboQuant.Core
