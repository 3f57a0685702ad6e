import Mathlib.Data.List.GetD
import TurboQuant.Lib.Total
import TurboQuant.Core.Manager
import TurboQuant.Core.PoolInvariant

/-!
What the operations of a manager do to the pool and to the table of the request they work for, and
the operations that give blocks back.
-/

namespace TurboQuant.Core
open Outcome Total List Nat AList

namespace SingleTypeKVCacheManager

def held (m : SingleTypeKVCacheManager) (b : Nat) : Nat := total (count b) m.reqToBlocks

theorem elim_count (e : Option (List Nat)) (b : Nat) : e.elim 0 (count b) = (e.getD []).count b := by
  cases e <;> rfl

variable {m m' : SingleTypeKVCacheManager} {requestId id : String}

section
variable (m : SingleTypeKVCacheManager)

theorem held_setBlocks (id : String) (bs : List Nat) (b : Nat) :
    (m.setBlocks id bs).held b + (m.getBlocks id).count b = m.held b + bs.count b := by
  have step := total_insert (count b) id bs m.reqToBlocks
  rwa [elim_count] at step

@[simp] theorem getBlocks_setBlocks_self (id : String) (blocks : List Nat) :
    (m.setBlocks id blocks).getBlocks id = blocks := by
  rw [getBlocks, setBlocks, lookup_insert]
  rfl

theorem getBlocks_setBlocks_of_ne (bs : List Nat) {other : String}
    (ne : other ≠ id) : (m.setBlocks id bs).getBlocks other = m.getBlocks other := by
  rw [getBlocks, setBlocks, lookup_insert_ne ne]
  rfl

theorem count_le_held (id : String) (b : Nat) : (m.getBlocks id).count b ≤ m.held b := by
  have := held_setBlocks m id [] b
  rw [count_nil] at this
  omega

end

structure Moves (nullBlock : Nat) (requestId : String) (added removed : List Nat)
    (m m' : SingleTypeKVCacheManager) : Prop where
  config : m'.toManagerConfig = m.toManagerConfig
  others : ∀ other, other ≠ requestId → m'.getBlocks other = m.getBlocks other
  table : ∀ b, b ≠ nullBlock →
    (m'.getBlocks requestId).count b + removed.count b = (m.getBlocks requestId).count b + added.count b
  held : ∀ b, b ≠ nullBlock → m'.held b + removed.count b = m.held b + added.count b

theorem Moves.refl (null : Nat) (id : String) (m : SingleTypeKVCacheManager) : Moves null id [] [] m m :=
  ⟨rfl, fun _ _ => rfl, fun _ _ => rfl, fun _ _ => rfl⟩

variable {nullBlock null : Nat}

theorem Moves.of_setBlocks {added removed bs : List Nat}
    (same : m'.reqToBlocks = m.reqToBlocks.insert id bs) (cfg : m'.toManagerConfig = m.toManagerConfig)
    (counts : ∀ b, b ≠ null → bs.count b + removed.count b = (m.getBlocks id).count b + added.count b) :
    Moves null id added removed m m' := by
  have tables : ∀ other, m'.getBlocks other = (m.setBlocks id bs).getBlocks other := fun other => by
    rw [getBlocks, same]
    rfl
  refine ⟨cfg, fun other ne => ?_, fun b real => ?_, fun b real => ?_⟩
  · rw [tables, getBlocks_setBlocks_of_ne m bs ne]
  · rw [tables, getBlocks_setBlocks_self]
    exact counts b real
  · have step := held_setBlocks m id bs b
    have heldEq : m'.held b = (m.setBlocks id bs).held b := by
      rw [SingleTypeKVCacheManager.held, same]
      rfl
    have := counts b real
    omega

variable {m'' : SingleTypeKVCacheManager}

theorem Moves.trans {added removed added' removed' : List Nat}
    (first : Moves null id added removed m m') (second : Moves null id added' removed' m' m'') :
    Moves null id (added ++ added') (removed ++ removed') m m'' := by
  refine ⟨second.config.trans first.config, fun other ne => ?_, fun b real => ?_, fun b real => ?_⟩
  · exact (second.others other ne).trans (first.others other ne)
  · have := first.table b real
    have := second.table b real
    rw [count_append, count_append]
    omega
  · have := first.held b real
    have := second.held b real
    rw [count_append, count_append]
    omega

/-- No table lists a real block twice, and a Mamba request that has been given blocks has room for
its speculative blocks. -/
structure WF (nullBlock : Nat) (m : SingleTypeKVCacheManager) : Prop where
  nodup : ∀ requestId b, b ≠ nullBlock → (m.getBlocks requestId).count b ≤ 1
  speculative : ∀ align n, m.kvCacheSpec = .mamba align n → ∀ requestId ∈ m.allocatedBlockReqs,
    n ≤ (m.getBlocks requestId).length

variable {p p' : BlockPool} {frame : Nat → Nat} {queue : List Nat}

structure Effect (frame : Nat → Nat) (requestId : String) (added removed : List Nat)
    (m : SingleTypeKVCacheManager) (pool : BlockPool) (m' : SingleTypeKVCacheManager) (pool' : BlockPool)
    (queue' : List Nat) : Prop where
  moves : Moves pool.nullBlock requestId added removed m m'
  inv : pool'.Inv (fun b => frame b + m'.held b) queue'
  wf : m'.WF pool.nullBlock
  config : pool'.toPoolConfig = pool.toPoolConfig

theorem WF.of_moves {added removed : List Nat} (wf : m.WF nullBlock)
    (moves : Moves nullBlock id added removed m m')
    (nodup : ∀ b, b ≠ nullBlock → (m'.getBlocks id).count b ≤ 1)
    (alloc : m'.allocatedBlockReqs = m.allocatedBlockReqs)
    (length : (m.getBlocks id).length ≤ (m'.getBlocks id).length) : m'.WF nullBlock := by
  constructor
  · intro other b real
    by_cases same : other = id
    · exact same ▸ nodup b real
    · rw [moves.others other same]
      exact wf.nodup other b real
  · intro align n spec other mem
    have old := wf.speculative align n (by rw [← spec, moves.config]) other (alloc ▸ mem)
    by_cases same : other = id
    · subst same
      omega
    · rwa [moves.others other same]

/-! ### Freeing -/

theorem count_set_null (bs : List Nat) {i : Nat} (lt : i < bs.length) {b : Nat} (real : b ≠ null) :
    (bs.set i null).count b + [bs.getD i null].count b = bs.count b := by
  have other : (null == b) = false := by simpa using real.symm
  rw [count_set lt, getD_eq_getElem bs null lt, count_singleton, other]
  split
  · rename_i same
    have : 0 < bs.count b := count_pos_iff.mpr (by rw [← eq_of_beq same]; exact getElem_mem lt)
    simp only [Bool.false_eq_true, if_false]
    omega
  · simp

theorem skipLoop_spec (null n : Nat) (bs : List Nat) : (skipLoop null n bs).2.length = bs.length ∧
    ∀ b, b ≠ null →
      (skipLoop null n bs).2.count b + (skipLoop null n bs).1.count b = bs.count b := by
  induction n generalizing bs with
  | zero => exact ⟨rfl, fun b _ => rfl⟩
  | succ n ih =>
    unfold skipLoop
    split
    · exact ⟨rfl, fun b _ => rfl⟩
    rename_i c here
    split
    · exact ⟨rfl, fun b _ => rfl⟩
    obtain ⟨lt, isC⟩ := List.getElem_of_getElem? here
    obtain ⟨length, counts⟩ := ih (bs.set n null)
    refine ⟨by rw [length, List.length_set], fun b real => ?_⟩
    have step := count_set_null bs lt real
    have rest := counts b real
    rw [List.getD_eq_getElem bs null lt, isC, List.count_singleton] at step
    dsimp only
    rw [List.count_cons]
    omega

section
variable {removed : List Nat} (inv : p.Inv (fun b => frame b + m.held b) queue) (wf : m.WF p.nullBlock)
  (moves : Moves p.nullBlock id [] removed m m')
include inv wf moves

theorem freeBlocks_inv : ∃ p' queue', p.freeBlocks removed = .ok p' ∧ p'.toPoolConfig = p.toPoolConfig ∧
      p'.Inv (fun b => frame b + m'.held b) queue' := by
  have nodup : (removed.filter (· ≠ p.nullBlock)).Nodup := by
    refine nodup_iff_count_le_one.mpr fun b => ?_
    by_cases real : b = p.nullBlock
    · rw [count_eq_zero_of_not_mem (by simp [real])]
      omega
    · have := moves.table b real
      have := wf.nodup id b real
      have := (filter_sublist : (removed.filter (· ≠ p.nullBlock)).Sublist removed).count_le b
      rw [count_nil] at *
      omega
  have before : p.Inv (fun b => (frame b + m'.held b) + removed.count b) queue := inv.congr fun b real => by
    have := moves.held b real
    rw [count_nil] at this
    omega
  obtain ⟨p', ran, cfg, after⟩ := before.freeBlocks nodup
  exact ⟨p', _, ran, cfg, after⟩

theorem freeBlocks_effect (alloc : m'.allocatedBlockReqs = m.allocatedBlockReqs)
    (length : (m'.getBlocks id).length = (m.getBlocks id).length) :
    ∃ p' queue', p.freeBlocks removed = .ok p' ∧ Effect frame id [] removed m p m' p' queue' := by
  obtain ⟨p', queue', ran, cfg, after⟩ := freeBlocks_inv inv wf moves
  refine ⟨p', queue', ran, moves, after, wf.of_moves moves (fun b real => ?_) alloc length.ge, cfg⟩
  have := moves.table b real
  have := wf.nodup id b real
  rw [count_nil] at *
  omega

end

theorem Effect.refl (inv : p.Inv (fun b => frame b + m.held b) queue) (wf : m.WF p.nullBlock) :
    Effect frame id [] [] m p m p queue :=
  ⟨.refl _ _ m, inv, wf, rfl⟩

theorem Effect.trans {added removed added' removed' q' queue'' : List Nat}
    {pool'' : BlockPool} (first : Effect frame id added removed m p m' p' q')
    (second : Effect frame id added' removed' m' p' m'' pool'' queue'') :
    Effect frame id (added ++ added') (removed ++ removed') m p m'' pool'' queue'' := by
  have nullEq := congrArg PoolConfig.nullBlock first.config
  refine ⟨first.moves.trans ?_, second.inv, ?_, second.config.trans first.config⟩
  · rw [← nullEq]
    exact second.moves
  · rw [← nullEq]
    exact second.wf

theorem openBlocks_moves (null : Nat) (m : SingleTypeKVCacheManager) (id : String) :
    Moves null id [] [] m (m.openBlocks id) :=
  .of_setBlocks rfl rfl fun _ _ => rfl

section
variable (inv : p.Inv (fun b => frame b + m.held b) queue) (wf : m.WF p.nullBlock)
include inv wf

theorem openBlocks_effect : Effect frame id [] [] m p (m.openBlocks id) p queue := by
  have moves := openBlocks_moves p.nullBlock m id
  have same : (m.openBlocks id).getBlocks id = m.getBlocks id := getBlocks_setBlocks_self _ _ _
  refine ⟨moves, inv.congr fun b real => ?_, wf.of_moves moves (fun b real => ?_) rfl (by rw [same]), rfl⟩
  · have := moves.held b real
    omega
  · rw [same]
    exact wf.nodup id b real

theorem removeSkippedBlocksBase_effect (id : String) (total : Int) : ∃ m' p' removed queue',
      m.removeSkippedBlocksBase p id total = .ok (m', p') ∧ Effect frame id [] removed m p m' p' queue' := by
  unfold removeSkippedBlocksBase
  dsimp only
  split
  · exact ⟨m, p, [], queue, rfl, .refl inv wf⟩
  generalize (min (m.kvCacheSpec.getNumSkippedTokens total / (m.blockSize : Int))
    ((m.getBlocks id).length : Int)).toNat = n
  obtain ⟨length, counts⟩ := skipLoop_spec p.nullBlock n (m.getBlocks id)
  have moves : Moves p.nullBlock id [] (skipLoop p.nullBlock n (m.getBlocks id)).1 m
      (m.setBlocks id (skipLoop p.nullBlock n (m.getBlocks id)).2) :=
    .of_setBlocks rfl rfl fun b real => by rw [counts b real, count_nil, add_zero]
  obtain ⟨freed, queue', ranFree, effect⟩ :=
    freeBlocks_effect inv wf moves rfl (by rw [getBlocks_setBlocks_self, length])
  exact ⟨_, freed, _, queue', by rw [ranFree]; rfl, effect⟩

end

theorem listIndex_cases (length : Nat) (index : Int) :
    (∃ i, listIndex length index = .ok i ∧ i < length) ∨ listIndex length index = .error .indexOutOfRange := by
  unfold listIndex
  split
  · exact .inl ⟨_, rfl, by omega⟩
  · split
    · exact .inl ⟨_, rfl, by omega⟩
    · exact .inr rfl

section
variable (inv : p.Inv (fun b => frame b + m.held b) queue) (wf : m.WF p.nullBlock)
include inv wf

theorem freeLastState_effect (id : String) (computed : Int) :
    (∃ m' p' removed q', m.freeLastState p id computed = .ok (m', p') ∧
      Effect frame id [] removed m p m' p' q') ∨
    m.freeLastState p id computed = .error .indexOutOfRange := by
  unfold freeLastState
  split
  · exact .inl ⟨m, p, [], queue, rfl, .refl inv wf⟩
  rename_i lastStateBlockIdx recorded
  split
  · rcases listIndex_cases (m.getBlocks id).length lastStateBlockIdx with ⟨index, found, lt⟩ | outside
    · left
      simp only [found, bind, Except.bind]
      split
      · exact ⟨_, p, [], queue, rfl, openBlocks_effect inv wf⟩
      have moves : Moves p.nullBlock id [] [(m.getBlocks id).getD index p.nullBlock] m
          (m.setBlocks id ((m.getBlocks id).set index p.nullBlock)) :=
        .of_setBlocks rfl rfl fun b real => by rw [count_set_null _ lt real, count_nil, add_zero]
      obtain ⟨freed, q', ranFree, effect⟩ := freeBlocks_effect inv wf moves rfl (by
        rw [getBlocks_setBlocks_self, length_set])
      have nullEq := congrArg PoolConfig.nullBlock effect.config
      refine ⟨_, freed, _, q', ?_, effect⟩
      rw [ranFree, Except.map, nullEq]
    · right
      simp only [outside, bind, Except.bind]
  · exact .inl ⟨m, p, [], queue, rfl, .refl inv wf⟩

theorem removeSkippedBlocks_total (id : String) (total : Int) :
    (∃ m' p' removed q', m.removeSkippedBlocks p id total = .ok (m', p') ∧
      Effect frame id [] removed m p m' p' q') ∨
    m.removeSkippedBlocks p id total = .error .indexOutOfRange := by
  unfold removeSkippedBlocks
  split
  · rename_i align extra spec
    obtain ⟨m₁, pool₁, removed, queue₁, first, effect⟩ := removeSkippedBlocksBase_effect inv wf id
      (max 0 (total - extra))
    simp only [first, bind, Except.bind]
    split
    · have nullEq := congrArg PoolConfig.nullBlock effect.config
      refine (freeLastState_effect effect.inv (nullEq ▸ effect.wf) id _).imp_left ?_
      rintro ⟨m₂, pool₂, removed', queue₂, second, effect'⟩
      exact ⟨m₂, pool₂, _, queue₂, second, effect.trans effect'⟩
    · exact .inl ⟨m₁, pool₁, removed, queue₁, rfl, effect⟩
  · exact .inl (removeSkippedBlocksBase_effect inv wf id total)

theorem removeSkippedBlocks_effect {total : Int} (ran : m.removeSkippedBlocks p id total = .ok (m', p')) :
    ∃ removed queue', Effect frame id [] removed m p m' p' queue' := by
  rcases removeSkippedBlocks_total inv wf id total with ⟨_, _, removed, queue', ran', effect⟩ | failed
  · rw [ran] at ran'
    cases ran'
    exact ⟨removed, queue', effect⟩
  · rw [ran] at failed
    cases failed

end

theorem held_erase (m : SingleTypeKVCacheManager) (id : String) (b : Nat) :
    total (count b) (m.reqToBlocks.erase id) + (m.getBlocks id).count b = m.held b := by
  have step := sum_kerase (count b) id m.reqToBlocks.entries
  rwa [elim_count] at step

theorem free_effect (inv : p.Inv (fun b => frame b + m.held b) queue) (wf : m.WF p.nullBlock)
    (ran : m.free p id = .ok (m', p')) :
    ∃ queue', Effect frame id [] (m.getBlocks id).reverse m p m' p' queue' := by
  obtain ⟨freed, ranFree, result⟩ := map_ok ran
  obtain ⟨made, rfl⟩ := Prod.mk.inj result
  have none : m'.getBlocks id = [] := by rw [← made, getBlocks, lookup_erase]; rfl
  have others : ∀ other, other ≠ id → m'.getBlocks other = m.getBlocks other := fun other ne => by
    rw [← made, getBlocks, lookup_erase_ne ne]
    rfl
  have moves : Moves p.nullBlock id [] (m.getBlocks id).reverse m m' := by
    refine ⟨by rw [← made], others, fun b _ => ?_, fun b _ => ?_⟩
    · rw [none, count_reverse, count_nil, zero_add, add_zero]
    · have step := held_erase m id b
      rw [count_reverse, count_nil, add_zero, ← step, ← made]
      rfl
  obtain ⟨pool'', queue', ranFree', cfg, after⟩ := freeBlocks_inv inv wf moves
  rw [ranFree] at ranFree'
  cases ranFree'
  refine ⟨queue', moves, after, ⟨fun other b real => ?_, fun align n spec other mem => ?_⟩, cfg⟩
  · by_cases same : other = id
    · rw [same, none]
      exact zero_le _
    · rw [others other same]
      exact wf.nodup other b real
  · rw [← made] at spec mem
    obtain ⟨lt, ne⟩ := mem_filter.mp mem
    rw [others other (by simpa using ne)]
    exact wf.speculative align n spec other lt

end SingleTypeKVCacheManager

end TurboQuant.Core
