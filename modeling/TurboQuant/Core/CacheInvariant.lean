import TurboQuant.Core.KVCacheManager
import TurboQuant.Core.ManagerAllocation

/-!
The invariant of the whole cache over runs: reference counts are occurrences in block tables, the
free queue has exactly the blocks without references, and hashes agree with the hash map.
-/

namespace TurboQuant.Core
open Outcome Holders SingleTypeKVCacheManager List Nat KVCacheManager SingleTypeKVCacheManager Function

/-- The contract in the docstring of `allocate_slots`: the hits of a group are different blocks, and
not more than the computed tokens fill. -/
def SlotArgs.ValidHits (nullBlock : Nat) (groups : List ManagerConfig) (args : SlotArgs) : Prop :=
  ∀ group ∈ groups.zip (args.newComputedBlocks.getD []), (group.2.filter (· ≠ nullBlock)).Nodup ∧
    group.2.length * group.1.blockSize ≤ args.numLocalComputedTokens + args.numExternalComputedTokens

instance (nullBlock : Nat) (groups : List ManagerConfig) (args : SlotArgs) :
    Decidable (args.ValidHits nullBlock groups) :=
  inferInstanceAs (Decidable (∀ group ∈ _, _ ∧ _))

def KVCacheManager.Op.Valid (nullBlock : Nat) (groups : List ManagerConfig) : Op → Prop
  | .allocateSlots args => args.ValidHits nullBlock groups
  | _ => True

instance (nullBlock : Nat) (groups : List ManagerConfig) (op : Op) : Decidable (op.Valid nullBlock groups) :=
  match op with
  | .allocateSlots args => inferInstanceAs (Decidable (args.ValidHits nullBlock groups))
  | .canFitFullSequence _ | .free _ | .removeSkippedBlocks _ _ | .evictBlocks _
  | .resetPrefixCache | .cacheBlocks _ _
  | .takeNewBlockIds | .newStepStarts => isTrue trivial

namespace KVCacheManager

def occurrences (kv : KVCacheManager) (b : Nat) : Nat := heldAll held kv.singleTypeManagers b

structure Config where
  maxModelLen : Nat
  pool : PoolConfig
  groups : List ManagerConfig

def config (kv : KVCacheManager) : Config :=
  ⟨kv.maxModelLen, kv.blockPool.toPoolConfig, kv.singleTypeManagers.map (·.toManagerConfig)⟩

/-- The invariant; `queue` lists the free blocks in order. -/
structure Inv (kv : KVCacheManager) (queue : List Nat) : Prop where
  pool : kv.blockPool.Inv kv.occurrences queue
  managers : ∀ m ∈ kv.singleTypeManagers, m.WF kv.blockPool.nullBlock

variable {kv kv' : KVCacheManager} {queue qs : List Nat} {α : Type}

abbrev Round (α : Type) := Nat → List Nat → SingleTypeKVCacheManager → α →
    SingleTypeKVCacheManager → List Nat → Prop

def Walked (kv : KVCacheManager) (round : Round α) (queue : List Nat) (kv' : KVCacheManager) : Prop :=
  ∃ queue' results, kv'.Inv queue' ∧ kv'.config = kv.config ∧
    Walk round 0 queue kv.singleTypeManagers results kv'.singleTypeManagers queue'

section
variable (pool : PoolConfig) (m : SingleTypeKVCacheManager)
  (op : BlockPool → Except PoolError (α × SingleTypeKVCacheManager × BlockPool))
  (round : List Nat → α → SingleTypeKVCacheManager → List Nat → Prop)

def Keeps : Prop :=
  ∀ (frame : Nat → Nat) (p : BlockPool) queue result m' p', p.toPoolConfig = pool →
    p.Inv (fun b => frame b + m.held b) queue → m.WF pool.nullBlock → op p = .ok (result, m', p') →
    ∃ queue' added removed requestId, Effect frame requestId added removed m p m' p' queue' ∧
      round queue result m' queue'

def Settles (stuck : List Nat → PoolError → Prop) : Prop :=
  ∀ (frame : Nat → Nat) (p : BlockPool) queue, p.toPoolConfig = pool →
    p.Inv (fun b => frame b + m.held b) queue → m.WF pool.nullBlock →
    (∃ result m' p' queue' added removed requestId, op p = .ok (result, m', p') ∧
      Effect frame requestId added removed m p m' p' queue' ∧ round queue result m' queue') ∨
    ∃ e, op p = .error e ∧ stuck queue e

end

variable {m : SingleTypeKVCacheManager}

theorem Keeps.settles {pool : PoolConfig}
    {op : BlockPool → Except PoolError (α × SingleTypeKVCacheManager × BlockPool)}
    {round : List Nat → α → SingleTypeKVCacheManager → List Nat → Prop} (keeps : Keeps pool m op round) :
    Settles pool m op round fun _ _ => True := by
  intro frame p qs same inv wf
  match ran : op p with
  | .ok (res, m', p') =>
    obtain ⟨q', added, removed, id, effect, done⟩ := keeps frame p qs res m' p' same inv wf ran
    exact .inl ⟨res, m', p', q', added, removed, id, rfl, effect, done⟩
  | .error e => exact .inr ⟨e, rfl, trivial⟩

theorem Inv.forEach_total (inv : kv.Inv queue) (round : Round α)
    (stuck : Nat → List Nat → SingleTypeKVCacheManager → PoolError → Prop)
    (op : Nat → SingleTypeKVCacheManager → BlockPool →
      Except PoolError (α × SingleTypeKVCacheManager × BlockPool))
    (each : ∀ i m, kv.singleTypeManagers[i]? = some m →
      Settles kv.blockPool.toPoolConfig m (op i m) (fun q => round i q m) fun q => stuck i q m) :
    (∃ results kv' queue', kv.forEach op = .ok (results, kv') ∧ kv'.Inv queue' ∧ kv'.config = kv.config ∧
      Walk round 0 queue kv.singleTypeManagers results kv'.singleTypeManagers queue') ∨
    ∃ e, kv.forEach op = .error e ∧ Halts round stuck 0 queue kv.singleTypeManagers e := by
  have zero : kv.blockPool.Inv (fun b => 0 + heldAll held kv.singleTypeManagers b) queue := by
    simp only [zero_add]
    exact inv.pool
  rcases Holders.forEach_total held
    (fun (p : BlockPool) q h => p.toPoolConfig = kv.blockPool.toPoolConfig ∧ p.Inv h q)
      (WF kv.blockPool.nullBlock)
    (fun i q m a m' q' => round i q m a m' q' ∧ m'.toManagerConfig = m.toManagerConfig) stuck
    (fun i m at_ frame p q before good => by
      rw [zero_add]
      refine (each i m at_ frame p q before.1 before.2 good).imp_left ?_
      rintro ⟨a, m', p', q', added, removed, id, ranOp, effect, done⟩
      have nullEq := congrArg PoolConfig.nullBlock before.1
      exact ⟨a, m', p', q', ranOp, ⟨done, effect.moves.config⟩, ⟨effect.config.trans before.1,
        effect.inv⟩, nullEq ▸ effect.wf⟩)
    ⟨rfl, zero⟩ inv.managers with
    ⟨results, managers, pool, queue', loop, walk, ⟨poolConfig, after⟩, wf⟩ | ⟨e, loop, halts⟩
  · refine .inl ⟨results, { kv with blockPool := pool, singleTypeManagers := managers }, queue', ?_,
      ⟨?_, fun m mem => ?_⟩, ?_, walk.imp fun _ _ _ _ _ _ done => done.1⟩
    · rw [forEach, loop]
      rfl
    · simp only [zero_add] at after
      exact after
    · have nullEq := congrArg PoolConfig.nullBlock poolConfig
      exact nullEq ▸ wf m mem
    · have groups := walk.map_eq fun _ _ _ _ _ _ done => done.2
      rw [config, config, poolConfig, groups]
  · refine .inr ⟨e, ?_, halts.imp fun _ _ _ _ _ _ done => done.1⟩
    rw [forEach, loop]
    rfl

section
variable (inv : kv.Inv qs) (round : Round α)
  {op : Nat → SingleTypeKVCacheManager → BlockPool →
    Except PoolError (α × SingleTypeKVCacheManager × BlockPool)}
  (each : ∀ i m, kv.singleTypeManagers[i]? = some m →
    Keeps kv.blockPool.toPoolConfig m (op i m) fun q => round i q m)
include inv each

theorem Inv.forEach {results : List α} (ran : kv.forEach op = .ok (results, kv')) : ∃ queue', kv'.Inv queue' ∧
    kv'.config = kv.config ∧ Walk round 0 qs kv.singleTypeManagers results kv'.singleTypeManagers queue' := by
  rcases inv.forEach_total round (fun _ _ _ _ => True) _ fun i m at_ => (each i m at_).settles with
    ⟨_, _, queue', ran', after⟩ | ⟨e, failed, -⟩
  · rw [ran] at ran'
    cases ran'
    exact ⟨queue', after⟩
  · rw [ran] at failed
    cases failed

theorem Inv.forEach_map (ran : (kv.forEach op).map (·.2) = .ok kv') : kv.Walked round qs kv' := by
  obtain ⟨⟨results, _⟩, loop, rfl⟩ := map_ok ran
  obtain ⟨q', after⟩ := inv.forEach round each loop
  exact ⟨q', results, after⟩

end

/-! ### The loops -/

section
variable (nullBlock : Nat) (requestId : String)

def SkipRound : Round Unit := fun _ _ m _ m' _ => ∃ removed, Moves nullBlock requestId [] removed m m'

def CountRound : Round Int := fun _ q m _ m' q' => q' = q ∧ (m' = m ∨ m' = m.openBlocks requestId)

def AttachRound (newComputedBlocks : List (List Nat))
    (numLocalComputedTokens numExternalComputedTokens : Nat) : Round Unit :=
  fun i q m _ m' q' => ∃ computed, newComputedBlocks[i]? = some computed ∧
    let total : Int := numLocalComputedTokens + numExternalComputedTokens
    let hits := m.attachedHits computed total
    let n := m.newExternalBlocks requestId computed total numExternalComputedTokens
    Moves nullBlock requestId (hits ++ (q.filter (· ∉ hits)).take n) [] m m' ∧
      q' = (q.filter (· ∉ hits)).drop n ∧
      m'.allocatedBlockReqs = m.allocatedBlockReqs ∧ (hits ≠ [] → m.getBlocks requestId = [])

def NewRound : Round (List Nat) := fun _ q m newBlocks m' q' => ∃ n,
    Moves nullBlock requestId (q.take n) [] m m' ∧
  q' = q.drop n ∧ ∀ b ∈ newBlocks, b ≠ nullBlock → b ∈ q.take n ∨
    (m.Reuses requestId ∧ b ∈ m.getBlocks requestId)

def CacheRound : Round Unit := fun _ q m _ m' q' => Moves nullBlock requestId [] [] m m' ∧ q' = q

end

variable {requestId id : String} {bs' : List (List Nat)}

section
variable (inv : kv.Inv qs)
include inv

theorem Inv.removeSkippedBlocks {total : Nat} (ran : kv.removeSkippedBlocks id total = .ok kv') :
    kv.Walked (SkipRound kv.blockPool.nullBlock id) qs kv' :=
  inv.forEach_map _ (fun i m at_ frame p q _ m' p' same before wf ranOp => by
    obtain ⟨_, ranOp, res⟩ := map_ok ranOp
    cases res
    obtain ⟨removed, q', effect⟩ := removeSkippedBlocks_effect before (same ▸ wf) ranOp
    exact ⟨q', _, _, id, effect, removed, same ▸ effect.moves⟩) ran

theorem Inv.free (ran : kv.free id = .ok kv') : kv.Walked (SkipRound kv.blockPool.nullBlock id) qs kv' :=
  inv.forEach_map _ (fun i m at_ frame p q _ m' p' same before wf ranOp => by
    obtain ⟨_, ranOp, res⟩ := map_ok ranOp
    cases res
    obtain ⟨q', effect⟩ := free_effect before (same ▸ wf) ranOp
    exact ⟨q', _, _, id, effect, _, same ▸ effect.moves⟩) ran

theorem Inv.coordinatorCacheBlocks {req : CacheRequest} {computed : Nat}
    (ran : kv.coordinatorCacheBlocks req computed = .ok kv') :
    kv.Walked (CacheRound kv.blockPool.nullBlock req.requestId) qs kv' :=
  inv.forEach_map _ (fun i m at_ frame p q _ m' p' same before wf ranOp => by
    obtain ⟨_, ranOp, res⟩ := map_ok ranOp
    cases res
    have effect := cacheBlocks_effect before (same ▸ wf) ranOp
    exact ⟨q, _, _, _, effect, same ▸ effect.moves, rfl⟩) ran

theorem Inv.allocateNewBlocks {ts mainTokens numEncoderTokens : Int} (nonneg : 0 ≤ mainTokens)
    (ran : kv.allocateNewBlocks id ts mainTokens numEncoderTokens = .ok (bs', kv')) :
    ∃ queue', kv'.Inv queue' ∧ kv'.config = kv.config ∧
      Walk (NewRound kv.blockPool.nullBlock id) 0 qs kv.singleTypeManagers bs' kv'.singleTypeManagers queue' :=
  inv.forEach (NewRound kv.blockPool.nullBlock id)
    (fun i m at_ frame p q _ m' p' same before wf ranOp => by
      obtain ⟨effect, -, -, fresh⟩ := allocateNewBlocks_effect before (same ▸ wf) nonneg ranOp
      exact ⟨_, _, _, id, effect, _, same ▸ effect.moves, rfl, same ▸ fresh⟩) ran

end

variable {p : BlockPool}

theorem countManager_effect {frame : Nat → Nat} {m' : SingleTypeKVCacheManager}
    (inv : p.Inv (fun b => frame b + m.held b) queue) (wf : m.WF p.nullBlock)
    (same : m' = m ∨ m' = m.openBlocks id) : Effect frame id [] [] m p m' p queue := by
  rcases same with rfl | rfl
  · exact .refl inv wf
  · exact openBlocks_effect inv wf

variable {computed : List (List Nat)}

theorem Inv.getNumBlocksToAllocate (inv : kv.Inv qs)
    {ts numEncoderTokens total mainTokens n : Int} {applyAdmissionCap : Bool}
    (ran : kv.getNumBlocksToAllocate id ts computed numEncoderTokens total
      mainTokens applyAdmissionCap = .ok (n, kv')) : kv.Walked (CountRound id) qs kv' := by
  obtain ⟨⟨counts, _⟩, loop, res⟩ := map_ok ran
  cases res
  obtain ⟨q', after⟩ := inv.forEach (CountRound id)
    (fun i m at_ frame p q _ m' p' same before wf ranOp => by
      split at ranOp
      · obtain ⟨⟨_, _⟩, counted, res⟩ := map_ok ranOp
        cases res
        have entry := getNumBlocksToAllocate_manager counted
        exact ⟨q, _, _, id, countManager_effect before (same ▸ wf) entry, rfl, entry⟩
      · obtain ⟨hits, -, ranOp⟩ := bind_ok ranOp
        obtain ⟨⟨_, _⟩, counted, res⟩ := map_ok ranOp
        cases res
        have entry := getNumBlocksToAllocate_manager counted
        exact ⟨q, _, _, id, countManager_effect before (same ▸ wf) entry, rfl, entry⟩) loop
  exact ⟨q', counts, after⟩

variable {a : SlotArgs}

theorem validHits_at (valid : a.ValidHits kv.config.pool.nullBlock kv.config.groups) {i : Nat}
    {computed : List Nat} (at_ : kv.singleTypeManagers[i]? = some m)
    (here : (kv.newComputedBlockList a)[i]? = some computed) :
    (∀ b, b ≠ kv.blockPool.nullBlock → computed.count b ≤ 1) ∧
      computed.length * m.blockSize ≤ a.numLocalComputedTokens + a.numExternalComputedTokens := by
  unfold newComputedBlockList at here
  cases given : a.newComputedBlocks with
  | none =>
    rw [given, Option.getD_none, getElem?_replicate] at here
    split at here
    · cases here
      exact ⟨fun _ _ => by simp, by simp⟩
    · cases here
  | some lists =>
    rw [given, Option.getD_some] at here
    have mem : (m.toManagerConfig, computed) ∈ kv.config.groups.zip (a.newComputedBlocks.getD []) := by
      refine mem_of_getElem? (i := i) ?_
      rw [given, Option.getD_some, getElem?_zip_eq_some]
      exact ⟨by simp [config, at_], here⟩
    obtain ⟨nodup, covered⟩ := valid _ mem
    refine ⟨fun b real => ?_, covered⟩
    have once := nodup_iff_count_le_one.mp nodup b
    rwa [count_filter (p := fun x => decide (x ≠ kv.config.pool.nullBlock)) (decide_eq_true real)] at once

theorem attachRound_idle {nullBlock : Nat} {numLocalComputedTokens i : Nat}
    (at_ : computed[i]? = some []) :
    AttachRound nullBlock id computed numLocalComputedTokens 0 i queue m () m queue := by
  have noHits : ∀ total, m.attachedHits [] total = [] := fun total => by simp [attachedHits]
  have noExternal : ∀ total, m.newExternalBlocks id [] total 0 = 0 := fun total => by
    refine if_pos (.inr (.inr ?_))
    unfold attachedExternalTokens
    split
    · exact min_le_right _ _
    · exact le_rfl
  refine ⟨[], at_, ?_⟩
  simp only [cast_zero, noHits, noExternal]
  simp [Moves.refl]

theorem Inv.attachComputedBlocks (inv : kv.Inv qs)
    (valid : a.ValidHits kv.config.pool.nullBlock kv.config.groups)
    (ran : kv.attachComputedBlocks a = .ok kv') :
    kv.Walked (AttachRound kv.blockPool.nullBlock a.request.requestId (kv.newComputedBlockList a)
      a.numLocalComputedTokens a.numExternalComputedTokens) qs kv' := by
  unfold KVCacheManager.attachComputedBlocks at ran
  split at ran
  · refine inv.forEach_map _ (fun i m at_ frame p q _ m' p' same before wf ranOp => by
        obtain ⟨computed, found, ranOp⟩ := bind_ok ranOp
        obtain ⟨⟨_, _⟩, attached, res⟩ := map_ok ranOp
        cases res
        have here : (kv.newComputedBlockList a)[i]? = some computed := by
          unfold computedBlocksAt at found
          split at found
          · cases found
          rename_i at_
          cases found
          exact at_
        obtain ⟨nodup, covered⟩ := validHits_at valid at_ here
        obtain ⟨effect, -⟩ := allocateNewComputedBlocks_effect before (same ▸ wf)
          (same ▸ nodup) covered attached
        obtain ⟨alloc, empty⟩ := allocateNewComputedBlocks_empty attached
        exact ⟨_, _, _, a.request.requestId, effect, computed, here, same ▸ effect.moves, rfl,
          alloc, empty⟩) ran
  · rename_i none
    cases ran
    rw [not_or] at none
    have zero : a.numExternalComputedTokens = 0 := by omega
    have noLists : a.newComputedBlocks = Option.none := by simpa using none.1
    refine ⟨qs, _, inv, rfl, Walk.idle () fun i m at_ => ?_⟩
    rw [zero]
    refine attachRound_idle ?_
    have inside : i < kv.singleTypeManagers.length := (List.getElem_of_getElem? at_).1
    rw [newComputedBlockList, noLists, Option.getD_none, List.getElem?_replicate, if_pos (by omega)]

/-! ### Steps and runs -/

section
variable (inv : kv.Inv qs)
include inv

section
variable (valid : a.ValidHits kv.config.pool.nullBlock kv.config.groups)
include valid

theorem Inv.takeSlots (ran : kv.takeSlots a = .ok (bs', kv')) :
    ∃ q', kv'.Inv q' ∧ kv'.config = kv.config := by
  obtain ⟨kv₁, attached, ran⟩ := bind_ok ran
  obtain ⟨queue₁, -, inv₁, config₁, -⟩ := inv.attachComputedBlocks valid attached
  obtain ⟨⟨_, kv₂⟩, taken, ran⟩ := bind_ok ran
  obtain ⟨queue₂, inv₂, config₂, -⟩ := inv₁.allocateNewBlocks (Int.natCast_nonneg _) taken
  dsimp only at ran
  split at ran
  · cases ran
    exact ⟨queue₂, inv₂, config₂.trans config₁⟩
  · obtain ⟨_, cached, res⟩ := map_ok ran
    cases res
    obtain ⟨queue₃, -, inv₃, config₃, -⟩ := inv₂.coordinatorCacheBlocks cached
    exact ⟨queue₃, inv₃, config₃.trans (config₂.trans config₁)⟩

theorem Inv.allocateSlots {res : Option (List (List Nat))} (ran : kv.allocateSlots a = .ok (res, kv')) :
    ∃ q', kv'.Inv q' ∧ kv'.config = kv.config := by
  unfold KVCacheManager.allocateSlots at ran
  split at ran
  · cases ran
  obtain ⟨kv₁, skipped, ran⟩ := bind_ok ran
  obtain ⟨queue₁, -, inv₁, config₁, -⟩ := inv.removeSkippedBlocks skipped
  obtain ⟨⟨n, kv₂⟩, counted, ran⟩ := bind_ok ran
  obtain ⟨queue₂, -, inv₂, config₂, -⟩ := inv₁.getNumBlocksToAllocate counted
  have same := config₂.trans config₁
  dsimp only at ran
  split at ran
  · cases ran
    exact ⟨queue₂, inv₂, same⟩
  · obtain ⟨⟨bs', _⟩, taken, res⟩ := map_ok ran
    cases res
    obtain ⟨queue₃, inv₃, config₃⟩ := inv₂.takeSlots (same ▸ valid) taken
    exact ⟨queue₃, inv₃, config₃.trans same⟩

end

theorem Inv.setPool (config : p.toPoolConfig = kv.blockPool.toPoolConfig)
    (after : p.Inv kv.occurrences qs) :
    Inv { kv with blockPool := p } qs ∧ ({ kv with blockPool := p } : KVCacheManager).config = kv.config := by
  have nullEq := congrArg PoolConfig.nullBlock config
  refine ⟨⟨after, fun m mem => ?_⟩, by rw [KVCacheManager.config, KVCacheManager.config, config]⟩
  exact nullEq ▸ inv.managers m mem

theorem Inv.mapManagers {f : SingleTypeKVCacheManager → SingleTypeKVCacheManager}
    (tables : ∀ m, (f m).reqToBlocks = m.reqToBlocks) (config : ∀ m, (f m).toManagerConfig = m.toManagerConfig)
    (alloc : ∀ m, (f m).allocatedBlockReqs = m.allocatedBlockReqs) :
    Inv { kv with singleTypeManagers := kv.singleTypeManagers.map f } qs ∧
      ({ kv with singleTypeManagers := kv.singleTypeManagers.map f } : KVCacheManager).config = kv.config := by
  have same : ∀ b, heldAll held (kv.singleTypeManagers.map f) b = kv.occurrences b := fun b => by
    have each : ∀ m : SingleTypeKVCacheManager, (f m).held b = m.held b := fun m => by
      rw [held, tables]
      rfl
    simp only [occurrences, heldAll, map_map, comp_def, each]
  refine ⟨⟨inv.pool.congr fun b _ => (same b).symm, fun m mem => ?_⟩, ?_⟩
  · obtain ⟨m₀, old, rfl⟩ := mem_map.mp mem
    have wf := inv.managers m₀ old
    have blocks : ∀ requestId, (f m₀).getBlocks requestId = m₀.getBlocks requestId := fun requestId => by
      rw [getBlocks, tables]
      rfl
    refine ⟨fun requestId b real => ?_, fun align n spec requestId mem => ?_⟩
    · rw [blocks]
      exact wf.nodup requestId b real
    · rw [blocks]
      exact wf.speculative align n (by rw [← spec, config]) requestId (alloc m₀ ▸ mem)
  · simp only [KVCacheManager.config, map_map, comp_def, config]

theorem Inv.step {op : Op} (valid : op.Valid kv.config.pool.nullBlock kv.config.groups)
    (ran : kv.step op = .ok kv') : ∃ q', kv'.Inv q' ∧ kv'.config = kv.config := by
  cases op with
  | allocateSlots a =>
    obtain ⟨⟨res, _⟩, slots, rfl⟩ := map_ok ran
    exact inv.allocateSlots valid slots
  | canFitFullSequence a =>
    obtain ⟨⟨fits, _⟩, gate, rfl⟩ := map_ok ran
    obtain ⟨⟨n, kv₁⟩, counted, gate⟩ := bind_ok gate
    cases gate
    obtain ⟨q', -, inv', config, -⟩ := inv.getNumBlocksToAllocate counted
    exact ⟨q', inv', config⟩
  | free id =>
    obtain ⟨q', -, inv', config, -⟩ := inv.free ran
    exact ⟨q', inv', config⟩
  | removeSkippedBlocks id total =>
    obtain ⟨q', -, inv', config, -⟩ := inv.removeSkippedBlocks ran
    exact ⟨q', inv', config⟩
  | evictBlocks blockIds =>
    obtain ⟨p, evicted, rfl⟩ := map_ok ran
    obtain ⟨config, after⟩ := inv.pool.evictBlocks evicted
    exact ⟨qs, inv.setPool config after⟩
  | resetPrefixCache =>
    cases ran
    obtain ⟨config, after⟩ := inv.pool.resetPrefixCache
    exact ⟨qs, inv.setPool config after⟩
  | cacheBlocks req computed =>
    change kv.cacheBlocks req computed = .ok kv' at ran
    unfold cacheBlocks at ran
    split at ran
    · obtain ⟨q', -, inv', config, -⟩ := inv.coordinatorCacheBlocks ran
      exact ⟨q', inv', config⟩
    · cases ran
      exact ⟨qs, inv, rfl⟩
  | takeNewBlockIds =>
    cases ran
    exact ⟨qs, inv.mapManagers (fun _ => rfl) (fun _ => rfl) (fun _ => rfl)⟩
  | newStepStarts =>
    cases ran
    exact ⟨qs, inv.mapManagers (fun _ => rfl) (fun _ => rfl) (fun _ => rfl)⟩

theorem Inv.run {ops : List Op} (valid : ∀ op ∈ ops, op.Valid kv.config.pool.nullBlock kv.config.groups)
    (ran : kv.run ops = .ok kv') : ∃ q', kv'.Inv q' ∧ kv'.config = kv.config :=
  foldlM_invariant (fun after => ∃ q', Inv after q' ∧ after.config = kv.config) ops
    (fun op mem _ _ before ranOp => by
      obtain ⟨_, inv', same⟩ := before
      obtain ⟨q', inv'', config⟩ := inv'.step (same ▸ valid op mem) ranOp
      exact ⟨q', inv'', config.trans same⟩)
    ⟨qs, inv, rfl⟩ ran

end

theorem new_held (config : ManagerConfig) (b : Nat) : (SingleTypeKVCacheManager.new config).held b = 0 := rfl

variable {maxModelLen len numGpuBlocks count hashBlockSize unit : Nat} {enableCaching : Bool}
  {groups : List ManagerConfig}

theorem new_inv (made : new len count enableCaching unit groups = .ok kv) :
    kv.config = ⟨len, ⟨count, enableCaching, unit, 0⟩, groups⟩ ∧ kv.Inv (range' 1 (count - 1)) := by
  obtain ⟨p, madePool, rfl⟩ := map_ok made
  obtain ⟨poolConfig, inv⟩ := BlockPool.new_inv madePool
  have nothing : ∀ b, heldAll held (groups.map .new) b = 0 := fun b => by
    simp [heldAll, comp_def, new_held]
  refine ⟨?_, inv.congr fun b _ => (nothing b).symm, fun m mem => ?_⟩
  · simp only [config, poolConfig, map_map, comp_def, SingleTypeKVCacheManager.new, map_id']
  · obtain ⟨group, -, rfl⟩ := mem_map.mp mem
    exact ⟨fun _ _ _ => zero_le _, fun _ _ _ _ mem => absurd mem not_mem_nil⟩

/-! ### Consistency -/

structure Consistent (kv : KVCacheManager) : Prop where
  refCnt : ∀ b, b ≠ kv.blockPool.nullBlock → (kv.blockPool.blocks b).refCnt = kv.occurrences b
  freeBlocks : ∃ queue, kv.blockPool.freeBlockQueue.getAllFreeBlocks = .ok queue ∧ queue.Nodup ∧
    kv.blockPool.getNumFreeBlocks = queue.length ∧
    ∀ b, b ∈ queue ↔ b < kv.blockPool.numGpuBlocks ∧ b ≠ kv.blockPool.nullBlock ∧
      (kv.blockPool.blocks b).refCnt = 0
  hashes : ∀ b key, (kv.blockPool.blocks b).blockHash = some key ↔
    kv.blockPool.cachedBlockHashToBlock.Registered key b

theorem Inv.consistent (inv : kv.Inv qs) : kv.Consistent := by
  refine ⟨inv.pool.refCnt, ⟨qs, inv.pool.represents.getAllFreeBlocks, inv.pool.represents.nodup,
    inv.pool.represents.count, fun b => ?_⟩, inv.pool.hashes⟩
  rw [inv.pool.free b]
  refine and_congr_right fun _ => and_congr_right fun real => ?_
  rw [inv.pool.refCnt b real]
  exact Int.natCast_eq_zero.symm

/-- Every run from a new cache, for any groups, leaves a consistent cache. -/
theorem run_consistent (made : new maxModelLen numGpuBlocks enableCaching hashBlockSize groups = .ok kv)
    (ops : List Op) (valid : ∀ op ∈ ops, op.Valid kv.blockPool.nullBlock groups)
    (ran : kv.run ops = .ok kv') : kv'.Consistent := by
  obtain ⟨config, inv⟩ := new_inv made
  have groupsEq : kv.config.groups = groups := by rw [config]
  obtain ⟨queue, after, -⟩ := inv.run (fun op member => groupsEq.symm ▸ valid op member) ran
  exact after.consistent

def fullGroup (blockSize : Nat) (positive : 0 < blockSize) (kvCacheGroupId : Nat) : ManagerConfig :=
  ⟨.fullAttention, blockSize, positive, kvCacheGroupId, none⟩

def fourTokens (requestId : String) : CacheRequest := ⟨requestId, 4, 0, [[1], [2]]⟩

def reuseOps : List Op :=
  [.allocateSlots { request := fourTokens "a", numNewTokens := 4 }, .free "a",
    .allocateSlots { request := fourTokens "b", numNewTokens := 2, numNewComputedTokens := 2,
                     newComputedBlocks := some [[1]] },
    .removeSkippedBlocks "b" 3, .evictBlocks [2], .resetPrefixCache]

theorem run_consistent_reuse :
    ∃ kv kv', new 16 5 true 2 [fullGroup 2 (by decide) 0] = .ok kv ∧ kv.run reuseOps = .ok kv' ∧
      kv'.singleTypeManagers.map (·.getBlocks "b") = [[1, 3]] ∧ kv'.Consistent := by
  have ran : (new 16 5 true 2 [fullGroup 2 (by decide) 0] >>= fun kv =>
      (kv.run reuseOps).map fun kv' => kv'.singleTypeManagers.map (·.getBlocks "b")) = .ok [[1, 3]] := rfl
  obtain ⟨kv, made, ran⟩ := bind_ok ran
  obtain ⟨kv', ran, tables⟩ := map_ok ran
  have null : kv.blockPool.nullBlock = 0 := congrArg (·.pool.nullBlock) (new_inv made).1
  exact ⟨kv, kv', made, ran, tables, run_consistent made reuseOps (by rw [null]; decide) ran⟩

end KVCacheManager

end TurboQuant.Core
