import Mathlib.Data.List.Count
import TurboQuant.Core.BlockPool

/-!
The invariant of the block pool against the blocks its users hold: reference counts are holdings,
the free queue has exactly the blocks nobody holds, and a block carries the hash it is registered
under.
-/

namespace TurboQuant.Core
open Outcome FreeKVCacheBlockQueue Nat BlockHashToBlockMap PoolConfig
open List hiding beq_eq_decide

variable {blocks bs ret : List Nat} {b gid : Nat} {e : Nat × Option BlockHash}

namespace BlockPool

def HashInv (pool : BlockPool) : Prop :=
  ∀ b key, (pool.blocks b).blockHash = some key ↔ pool.cachedBlockHashToBlock.Registered key b

structure KeepsRefs (pool pool' : BlockPool) : Prop where
  config : pool'.toPoolConfig = pool.toPoolConfig
  queue : pool'.freeBlockQueue = pool.freeBlockQueue
  refCnt : ∀ b, (pool'.blocks b).refCnt = (pool.blocks b).refCnt

theorem KeepsRefs.refl (pool : BlockPool) : KeepsRefs pool pool := ⟨rfl, rfl, fun _ => rfl⟩

variable {p p' pool'' : BlockPool}

theorem KeepsRefs.trans (first : KeepsRefs p p') (second : KeepsRefs p' pool'') :
    KeepsRefs p pool'' :=
  ⟨second.config.trans first.config, second.queue.trans first.queue,
    fun b => (second.refCnt b).trans (first.refCnt b)⟩

variable {pool pool' : BlockPool}

theorem maybeEvictCachedBlock_keepsRefs (p : BlockPool) (b : Nat) :
    KeepsRefs p (p.maybeEvictCachedBlock b) := by
  unfold maybeEvictCachedBlock
  split
  · exact .refl p
  · dsimp only
    split
    · exact ⟨rfl, rfl, fun c => setHash_refCnt _ b none c⟩
    · exact ⟨rfl, rfl, fun _ => rfl⟩

theorem HashInv.maybeEvict (inv : p.HashInv) (b : Nat) : (p.maybeEvictCachedBlock b).HashInv := by
  unfold maybeEvictCachedBlock
  split
  · exact inv
  rename_i key h
  have present : (p.cachedBlockHashToBlock.pop key b).1 = true :=
    pop_eq_true_iff.mpr ((inv b key).mp h)
  dsimp only
  rw [if_pos present]
  intro c key'
  rw [setHash_blockHash]
  change _ ↔ (p.cachedBlockHashToBlock.pop key b).2.Registered key' c
  rw [registered_pop, ← inv c key']
  by_cases same : c = b
  · subst same
    simp [h, eq_comm]
  · simp [same]

theorem cacheBlock_cases (ran : p.cacheBlock gid e = .ok p') :
    (e.1 = p.nullBlock ∧ p' = p) ∨ ∃ h, e.1 ≠ p.nullBlock ∧ (p.blocks e.1).blockHash = none ∧
      e.2 = some h ∧ p' = { p.setHash e.1 (some (makeBlockHashWithGroupId h gid)) with
        cachedBlockHashToBlock :=
          p.cachedBlockHashToBlock.insert (makeBlockHashWithGroupId h gid) e.1 } := by
  obtain ⟨b, blockHash⟩ := e
  unfold cacheBlock at ran
  dsimp only at ran
  split at ran
  · rename_i null
    exact .inl ⟨by simpa [isNull] using null, (Except.ok.inj ran).symm⟩
  · rename_i real
    split at ran
    · cases ran
    rename_i unhashed
    split at ran
    · cases ran
    · exact .inr ⟨_, by simpa [isNull] using real, by simpa using unhashed, rfl, (Except.ok.inj ran).symm⟩

theorem cacheBlock_keepsRefs (ran : p.cacheBlock gid e = .ok pool') : KeepsRefs p pool' := by
  rcases cacheBlock_cases ran with ⟨-, rfl⟩ | ⟨h, -, -, -, rfl⟩
  · exact .refl _
  · exact ⟨rfl, rfl, fun c => setHash_refCnt p e.1 _ c⟩

theorem HashInv.cacheBlock (inv : p.HashInv) (ran : p.cacheBlock gid e = .ok p') : p'.HashInv := by
  rcases cacheBlock_cases ran with ⟨-, rfl⟩ | ⟨h, -, none, -, rfl⟩
  · exact inv
  intro c key'
  change ((p.setHash e.1 _).blocks c).blockHash = _ ↔
    (p.cachedBlockHashToBlock.insert _ e.1).Registered key' c
  rw [setHash_blockHash, registered_insert, ← inv c key']
  by_cases same : c = e.1
  · subst same
    simp [none, eq_comm]
  · simp [same]

/-! ### The invariant -/

/-- `held b` is how often the users of the pool hold block `b`, `queue` the free blocks in order. -/
structure Inv (pool : BlockPool) (held : Nat → Nat) (queue : List Nat) : Prop where
  represents : Represents pool.freeBlockQueue queue
  refCnt : ∀ b, b ≠ pool.nullBlock → (pool.blocks b).refCnt = held b
  free : ∀ b, b ∈ queue ↔ b < pool.numGpuBlocks ∧ b ≠ pool.nullBlock ∧ held b = 0
  bound : ∀ b, b ≠ pool.nullBlock → held b ≠ 0 → b < pool.numGpuBlocks
  hashes : pool.HashInv

variable {held held' : Nat → Nat} {queue : List Nat}

theorem Inv.keepsRefs (inv : p.Inv held queue) (kept : KeepsRefs p p') (hs : p'.HashInv) :
    p'.Inv held queue := by
  have nullEq := congrArg nullBlock kept.config
  have sizeEq := congrArg numGpuBlocks kept.config
  refine ⟨kept.queue ▸ inv.represents, fun b real => ?_, fun b => ?_, fun b real => ?_, hs⟩
  · rw [kept.refCnt]
    exact inv.refCnt b (nullEq ▸ real)
  · rw [nullEq, sizeEq]
    exact inv.free b
  · rw [sizeEq]
    exact inv.bound b (nullEq ▸ real)

theorem Inv.congr (inv : p.Inv held queue) (same : ∀ b, b ≠ p.nullBlock → held b = held' b) :
    p.Inv held' queue := by
  refine ⟨inv.represents, fun b real => ?_, fun b => ?_, fun b real some => ?_, inv.hashes⟩
  · rw [← same b real]
    exact inv.refCnt b real
  · rw [inv.free b]
    exact and_congr_right fun _ => and_congr_right fun real => by rw [same b real]
  · exact inv.bound b real (by rw [same b real]; exact some)

/-! ### The operations -/

theorem HashInv.setRefCnt (inv : p.HashInv) (b : Nat) (n : Int) : (p.setRefCnt b n).HashInv := by
  intro c key
  rw [setRefCnt_blockHash]
  exact inv c key

theorem claimBlock_spec (zero : (p.blocks b).refCnt = 0) : ∃ p', p.claimBlock b = .ok p' ∧
    p'.toPoolConfig = p.toPoolConfig ∧ p'.freeBlockQueue = p.freeBlockQueue ∧
    (∀ c, (p'.blocks c).refCnt = (p.blocks c).refCnt + if c = b then 1 else 0) ∧ (p.HashInv → p'.HashInv) := by
  obtain ⟨middle, evicted, kept, hs⟩ : ∃ middle, (if p.enableCaching then p.maybeEvictCachedBlock b
      else p) = middle ∧ KeepsRefs p middle ∧ (p.HashInv → middle.HashInv) := by
    split
    · exact ⟨_, rfl, maybeEvictCachedBlock_keepsRefs p b, fun inv => inv.maybeEvict b⟩
    · exact ⟨_, rfl, .refl p, id⟩
  refine ⟨middle.setRefCnt b ((middle.blocks b).refCnt + 1), ?_, kept.config, kept.queue, fun c => ?_,
    fun inv => (hs inv).setRefCnt b _⟩
  · simp only [claimBlock, evicted]
    exact if_pos (by rw [kept.refCnt, zero])
  · rw [setRefCnt_refCnt, kept.refCnt, kept.refCnt]
    split
    · rename_i same
      rw [same]
    · omega

theorem claimBlocks_spec (p : BlockPool) (nodup : ret.Nodup) (zero : ∀ b ∈ ret, (p.blocks b).refCnt = 0) :
    ∃ p', ret.foldlM claimBlock p = .ok p' ∧ p'.toPoolConfig = p.toPoolConfig ∧
      p'.freeBlockQueue = p.freeBlockQueue ∧
      (∀ b, (p'.blocks b).refCnt = (p.blocks b).refCnt + ret.count b) ∧ (p.HashInv → p'.HashInv) := by
  induction ret generalizing p with
  | nil => exact ⟨p, rfl, rfl, rfl, fun b => by simp, id⟩
  | cons b rest ih =>
    rw [nodup_cons] at nodup
    obtain ⟨first, ran, cfg, queue, refs, hs⟩ := claimBlock_spec (zero b mem_cons_self)
    have others : ∀ c ∈ rest, (first.blocks c).refCnt = 0 := fun c mem => by
      have other : c ≠ b := by rintro rfl; exact nodup.1 mem
      rw [refs, if_neg other, zero c (mem_cons_of_mem b mem), Int.add_zero]
    obtain ⟨last, ranRest, config', queue', refs', hashes'⟩ := ih first nodup.2 others
    refine ⟨last, ?_, config'.trans cfg, queue'.trans queue, fun c => ?_, hashes' ∘ hs⟩
    · rwa [foldlM_cons, ran]
    · rw [refs', refs, count_cons]
      by_cases same : c = b
      · simp [same, Int.add_assoc, Int.add_comm]
      · simp [same, Ne.symm same]

theorem Inv.getNewBlocks_ok (inv : p.Inv held queue) {n : Nat} (within : n ≤ queue.length) :
    ∃ p', p.getNewBlocks n = .ok (queue.take n, p') ∧ p'.toPoolConfig = p.toPoolConfig ∧
      p'.Inv (fun b => held b + (queue.take n).count b) (queue.drop n) := by
  have size := inv.represents.count
  have nodup := inv.represents.nodup
  rw [← take_append_drop n queue] at nodup
  obtain ⟨-, restNodup, apart⟩ := nodup_append.mp nodup
  have rep := inv.represents
  rw [← take_append_drop n queue] at rep
  obtain ⟨q', popped, rep'⟩ := rep.popleftN
  rw [length_take, min_eq_left within] at popped
  have mem : ∀ b ∈ queue.take n, b < p.numGpuBlocks ∧ b ≠ p.nullBlock ∧ held b = 0 := fun b taken =>
    (inv.free b).mp (mem_of_mem_take taken)
  obtain ⟨last, claimed, cfg, queueEq, refs, hs⟩ := claimBlocks_spec { p with freeBlockQueue := q' }
    (inv.represents.nodup.sublist (take_sublist n queue)) (fun b taken => by
      obtain ⟨-, real, none⟩ := mem b taken
      rw [inv.refCnt b real, none]
      rfl)
  have nullEq := congrArg nullBlock cfg
  have sizeEq := congrArg numGpuBlocks cfg
  refine ⟨last, ?_, cfg, ?_, fun b real => ?_, fun b => ?_, fun b real some => ?_, hs inv.hashes⟩
  · rw [getNewBlocks, if_neg (by unfold getNumFreeBlocks; omega), popped]
    change ((queue.take n).foldlM claimBlock { p with freeBlockQueue := q' } >>=
      fun last => pure (queue.take n, last)) = _
    rw [claimed]
    rfl
  · rw [queueEq]
    exact rep'
  · rw [refs, inv.refCnt b (nullEq ▸ real)]
    exact (Int.natCast_add _ _).symm
  · rw [sizeEq, nullEq]
    constructor
    · intro later
      obtain ⟨lt, real, none⟩ := (inv.free b).mp (mem_of_mem_drop later)
      have notTaken : b ∉ queue.take n := fun taken => apart b taken b later rfl
      exact ⟨lt, real, by rw [none, count_eq_zero_of_not_mem notTaken]⟩
    · rintro ⟨lt, real, none⟩
      have inQueue := (inv.free b).mpr ⟨lt, real, by omega⟩
      rw [← take_append_drop n queue, mem_append] at inQueue
      refine inQueue.resolve_left fun taken => ?_
      have := count_pos_iff.mpr taken
      omega
  · rw [sizeEq]
    by_cases taken : b ∈ queue.take n
    · exact (mem b taken).1
    · rw [count_eq_zero_of_not_mem taken] at some
      exact inv.bound b (nullEq ▸ real) some

def Draws {α : Type} (n available : Nat) (op : Except PoolError α) : Prop :=
  if n ≤ available then ∃ r, op = .ok r else op = .error (.cannotGetFreeBlocks n)

variable {α : Type} {n available : Nat}

theorem Draws.cases {op : Except PoolError α} (draws : Draws n available op) :
    (n ≤ available ∧ ∃ r, op = .ok r) ∨ (available < n ∧ op = .error (.cannotGetFreeBlocks n)) := by
  unfold Draws at draws
  split at draws
  · rename_i enough
    exact .inl ⟨enough, draws⟩
  · rename_i short
    exact .inr ⟨not_le.mp short, draws⟩

theorem Draws.of_ok {available : Nat} {op : Except PoolError α} {r : α} (ran : op = .ok r) :
    Draws 0 available op := by
  rw [Draws, if_pos (zero_le _)]
  exact ⟨r, ran⟩

theorem Draws.bind {α β : Type} {op : Except PoolError α} (draws : Draws n available op)
    {f : α → Except PoolError β} (onward : ∀ r, op = .ok r → ∃ s, f r = .ok s) :
    Draws n available (op >>= f) := by
  by_cases within : n ≤ available
  · rw [Draws, if_pos within] at draws ⊢
    obtain ⟨r, ran⟩ := draws
    obtain ⟨s, ran'⟩ := onward r ran
    exact ⟨s, by rw [ran]; exact ran'⟩
  · rw [Draws, if_neg within] at draws ⊢
    rw [draws]
    rfl

section
variable (inv : p.Inv held queue)
include inv

theorem Inv.getNewBlocks_draws (n : Nat) : Draws n queue.length (p.getNewBlocks n) := by
  unfold Draws
  split
  · rename_i within
    obtain ⟨p', ran, -⟩ := inv.getNewBlocks_ok within
    exact ⟨_, ran⟩
  · rename_i short
    exact if_pos (by rw [getNumFreeBlocks, inv.represents.count]; omega)

theorem Inv.getNewBlocks {n : Nat} (ran : p.getNewBlocks n = .ok (ret, p')) :
    n ≤ queue.length ∧ ret = queue.take n ∧ p'.toPoolConfig = p.toPoolConfig ∧
      p'.Inv (fun b => held b + ret.count b) (queue.drop n) := by
  by_cases within : n ≤ queue.length
  · obtain ⟨last, ran', cfg, after⟩ := inv.getNewBlocks_ok within
    rw [ran] at ran'
    cases ran'
    exact ⟨within, rfl, cfg, after⟩
  · have short := inv.getNewBlocks_draws n
    rw [Draws, if_neg within, ran] at short
    cases short

theorem Inv.remove {q : FreeKVCacheBlockQueue} (ran : p.freeBlockQueue.remove b = .ok q) :
    b ∈ queue ∧ Represents q (queue.filter (· ≠ b)) := by
  by_cases mem : b ∈ queue
  · obtain ⟨before, after, -, split, erased⟩ := exists_erase_eq mem
    have rep := inv.represents
    rw [split] at rep
    obtain ⟨q', ran', rep'⟩ := rep.remove
    rw [ran] at ran'
    cases ran'
    have kept : queue.filter (· ≠ b) = queue.erase b := by
      rw [inv.represents.nodup.erase_eq_filter]
      exact filter_congr fun c _ => by rw [bne, beq_eq_decide, decide_not]
    exact ⟨mem, by rw [kept, erased]; exact rep'⟩
  · obtain ⟨prev, next⟩ := inv.represents.outside b mem
    simp only [FreeKVCacheBlockQueue.remove, prev] at ran
    cases ran

end

theorem filter_ne_of_notMem {l : List Nat} (out : b ∉ l) : l.filter (· ≠ b) = l :=
  filter_eq_self.mpr fun c mem => by simpa using fun same : c = b => out (same ▸ mem)

section
variable (inv : p.Inv held queue)
include inv

theorem Inv.unqueueBlock (ran : p.unqueueBlock b = .ok p') : p'.toPoolConfig = p.toPoolConfig ∧
      p'.blocks = p.blocks ∧ p'.cachedBlockHashToBlock = p.cachedBlockHashToBlock ∧
      Represents p'.freeBlockQueue (queue.filter (· ≠ b)) ∧ (b ≠ p.nullBlock → b < p.numGpuBlocks) := by
  unfold BlockPool.unqueueBlock at ran
  split at ran
  · obtain ⟨q, removed, rfl⟩ := map_ok ran
    obtain ⟨mem, rep⟩ := inv.remove removed
    exact ⟨rfl, rfl, rfl, rep, fun _ => ((inv.free b).mp mem).1⟩
  · rename_i kept
    cases ran
    have referenced : b ≠ p.nullBlock → held b ≠ 0 := fun real none =>
      kept ⟨by rw [inv.refCnt b real, none]; rfl, by simpa [isNull] using real⟩
    have out : b ∉ queue := fun mem => referenced ((inv.free b).mp mem).2.1 ((inv.free b).mp mem).2.2
    refine ⟨rfl, rfl, rfl, ?_, fun real => inv.bound b real (referenced real)⟩
    rw [filter_ne_of_notMem out]
    exact inv.represents

theorem Inv.touchBlock (ran : p.touchBlock b = .ok p') : p'.toPoolConfig = p.toPoolConfig ∧
      p'.Inv (fun c => held c + if c = b then 1 else 0) (queue.filter (· ≠ b)) := by
  obtain ⟨middle, unqueued, rfl⟩ := map_ok ran
  obtain ⟨cfg, bs, hashMap, rep, lt⟩ := inv.unqueueBlock unqueued
  have nullEq := congrArg nullBlock cfg
  have sizeEq := congrArg numGpuBlocks cfg
  refine ⟨cfg, rep, fun c real => ?_, fun c => ?_, fun c real some => ?_, ?_⟩
  · have old := inv.refCnt c (nullEq ▸ real)
    rw [setRefCnt_refCnt, bs]
    split
    · rename_i same
      rw [← same, old]
      rfl
    · rw [old]
      rfl
  · change _ ↔ c < middle.numGpuBlocks ∧ c ≠ middle.nullBlock ∧ _
    rw [mem_filter, inv.free c, sizeEq, nullEq]
    by_cases same : c = b
    · simp [same]
    · simp [same]
  · change c < middle.numGpuBlocks
    have real : c ≠ p.nullBlock := nullEq ▸ real
    rw [sizeEq]
    by_cases same : c = b
    · exact same ▸ lt (same ▸ real)
    · exact inv.bound c real (by simpa [same] using some)
  · refine HashInv.setRefCnt ?_ b _
    intro c key
    rw [bs, hashMap]
    exact inv.hashes c key

theorem Inv.touch (ran : p.touch bs = .ok p') : p'.toPoolConfig = p.toPoolConfig ∧
      p'.Inv (fun b => held b + bs.count b) (queue.filter (· ∉ bs)) := by
  induction bs generalizing p held queue with
  | nil => exact ⟨by rw [← pure_ok ran], by simpa using pure_ok ran ▸ inv⟩
  | cons b rest ih =>
    obtain ⟨middle, first, ran⟩ := bind_ok ran
    obtain ⟨cfg, middleInv⟩ := inv.touchBlock first
    obtain ⟨config', lastInv⟩ := ih middleInv ran
    refine ⟨config'.trans cfg, ?_⟩
    rw [filter_filter] at lastInv
    have queues : queue.filter (fun c => decide (c ∉ b :: rest)) =
        queue.filter fun c => decide (c ∉ rest) && decide (c ≠ b) := by
      congr 1
      funext c
      simp [Bool.and_comm]
    rw [queues]
    refine lastInv.congr fun c _ => ?_
    rw [count_cons]
    by_cases same : c = b
    · simp [same]
      omega
    · simp [same, Ne.symm same]

theorem Inv.touchBlock_ok (lt : b ≠ p.nullBlock → b < p.numGpuBlocks) :
    ∃ pool', p.touchBlock b = .ok pool' := by
  unfold BlockPool.touchBlock BlockPool.unqueueBlock
  split
  · rename_i unreferenced
    have real : b ≠ p.nullBlock := by simpa [isNull] using unreferenced.2
    have mem : b ∈ queue := by
      refine (inv.free b).mpr ⟨lt real, real, ?_⟩
      have zero := unreferenced.1
      rw [inv.refCnt b real] at zero
      omega
    obtain ⟨before, after, -, split, -⟩ := exists_erase_eq mem
    have rep := inv.represents
    rw [split] at rep
    obtain ⟨q, removed, -⟩ := rep.remove
    rw [removed]
    exact ⟨_, rfl⟩
  · exact ⟨_, rfl⟩

theorem Inv.touch_ok (lt : ∀ b ∈ bs, b ≠ p.nullBlock → b < p.numGpuBlocks) :
    ∃ pool', p.touch bs = .ok pool' := by
  induction bs generalizing p held queue with
  | nil => exact ⟨p, rfl⟩
  | cons b rest ih =>
    obtain ⟨middle, first⟩ := inv.touchBlock_ok (lt b mem_cons_self)
    obtain ⟨cfg, middleInv⟩ := inv.touchBlock first
    have nullEq := congrArg nullBlock cfg
    have sizeEq := congrArg numGpuBlocks cfg
    obtain ⟨last, later⟩ := ih middleInv fun c mem real => by
      rw [sizeEq]
      exact lt c (mem_cons_of_mem b mem) (nullEq ▸ real)
    refine ⟨last, ?_⟩
    rwa [BlockPool.touch, foldlM_cons, first]

end

theorem release_spec (p : BlockPool) (bs : List Nat) : (bs.foldl releaseBlock p).toPoolConfig =
    p.toPoolConfig ∧ (bs.foldl releaseBlock p).freeBlockQueue = p.freeBlockQueue ∧
    (∀ b, ((bs.foldl releaseBlock p).blocks b).refCnt = (p.blocks b).refCnt - bs.count b) ∧
    (p.HashInv → (bs.foldl releaseBlock p).HashInv) := by
  induction bs generalizing p with
  | nil => exact ⟨rfl, rfl, fun b => by simp, id⟩
  | cons b rest ih =>
    obtain ⟨cfg, queue, refs, hs⟩ := ih (p.releaseBlock b)
    refine ⟨cfg, queue, fun c => ?_, fun inv => hs (inv.setRefCnt b _)⟩
    rw [foldl_cons, refs, releaseBlock, setRefCnt_refCnt, count_cons]
    by_cases same : c = b
    · simp [same]
      omega
    · simp [same, Ne.symm same]

/-- Blocks that are held, each real one listed once, are given back; those that nobody holds any
more go to the end of the queue. -/
theorem Inv.freeBlocks (inv : p.Inv (fun b => held b + bs.count b) queue)
    (nodup : (bs.filter (· ≠ p.nullBlock)).Nodup) :
    ∃ p', p.freeBlocks bs = .ok p' ∧ p'.toPoolConfig = p.toPoolConfig ∧
      p'.Inv held (queue ++ bs.filter fun b => decide (held b = 0) && decide (b ≠ p.nullBlock)) := by
  obtain ⟨cfg, queueEq, refs, hs⟩ := release_spec p bs
  generalize released : bs.foldl releaseBlock p = middle at cfg queueEq refs hs
  have nullEq := congrArg nullBlock cfg
  have sizeEq := congrArg numGpuBlocks cfg
  have refsHeld : ∀ b, b ≠ p.nullBlock → (middle.blocks b).refCnt = held b := fun b real => by
    rw [refs, inv.refCnt b real]
    omega
  have freed : (bs.filter fun b => decide ((middle.blocks b).refCnt = 0) && !middle.isNull b) =
      bs.filter fun b => decide (held b = 0) && decide (b ≠ p.nullBlock) := by
    refine filter_congr fun b _ => ?_
    by_cases real : b = p.nullBlock
    · simp [isNull, nullEq, real]
    · simp [isNull, nullEq, real, refsHeld b real]
  generalize added : bs.filter (fun b => decide (held b = 0) && decide (b ≠ p.nullBlock)) = gone at freed ⊢
  have mem_gone : ∀ b, b ∈ gone ↔ b ∈ bs ∧ held b = 0 ∧ b ≠ p.nullBlock := fun b => by
    rw [← added]
    simp
  have goneNodup : gone.Nodup := by
    rw [← added, ← filter_filter]
    exact nodup.filter _
  have apart : ∀ b ∈ gone, b ∉ queue := fun b isGone mem => by
    have held0 := ((inv.free b).mp mem).2.2
    have := count_pos_iff.mpr ((mem_gone b).mp isGone).1
    omega
  have rep : Represents middle.freeBlockQueue queue := queueEq ▸ inv.represents
  obtain ⟨q, appended, rep'⟩ := rep.appendN (nodup_append.mpr ⟨inv.represents.nodup, goneNodup,
    fun b mem c isGone same =>
    apart c isGone (same ▸ mem)⟩)
  refine ⟨{ middle with freeBlockQueue := q }, ?_, cfg, rep', ?_, ?_, ?_, hs inv.hashes⟩
  · simp only [BlockPool.freeBlocks, released, freed, appended]
    rfl
  · exact fun b real => refsHeld b (nullEq ▸ real)
  · intro b
    rw [mem_append, inv.free b, mem_gone, sizeEq, nullEq]
    constructor
    · rintro (⟨lt, real, none⟩ | ⟨mem, none, real⟩)
      · exact ⟨lt, real, by omega⟩
      · refine ⟨inv.bound b real ?_, real, none⟩
        have := count_pos_iff.mpr mem
        omega
    · rintro ⟨lt, real, none⟩
      by_cases mem : b ∈ bs
      · exact .inr ⟨mem, none, real⟩
      · exact .inl ⟨lt, real, by rw [none, count_eq_zero_of_not_mem mem]⟩
  · intro b real some
    rw [sizeEq]
    exact inv.bound b (nullEq ▸ real) (by omega)

variable {blockIds : List Nat}

theorem Inv.evictBlocks (inv : p.Inv held queue) (ran : p.evictBlocks blockIds = .ok p') :
    p'.toPoolConfig = p.toPoolConfig ∧ p'.Inv held queue := by
  have kept : KeepsRefs p p' ∧ p'.HashInv := by
    refine foldlM_invariant (fun middle => KeepsRefs p middle ∧ middle.HashInv) blockIds ?_
      ⟨.refl p, inv.hashes⟩ ran
    rintro b - middle next ⟨kept, hs⟩ step
    split at step
    · cases step
      exact ⟨kept.trans (maybeEvictCachedBlock_keepsRefs middle b), hs.maybeEvict b⟩
    · cases step
  exact ⟨kept.1.config, inv.keepsRefs kept.1 kept.2⟩

theorem cacheFullBlocks_keepsRefs {requestBlockHashes : List BlockHash} {cached full n : Nat}
    (hs : p.HashInv) (ran : p.cacheFullBlocks requestBlockHashes bs cached full n gid = .ok p') :
    KeepsRefs p p' ∧ p'.HashInv := by
  unfold cacheFullBlocks at ran
  split at ran
  · cases ran
    exact ⟨.refl _, hs⟩
  · split at ran
    · cases ran
    · split at ran
      · cases ran
      · refine foldlM_invariant (fun middle => KeepsRefs p middle ∧ middle.HashInv) _ ?_ ⟨.refl p, hs⟩ ran
        rintro e - middle next ⟨kept, hs⟩ step
        exact ⟨kept.trans (cacheBlock_keepsRefs step), hs.cacheBlock step⟩

theorem Inv.resetPrefixCache (inv : p.Inv held queue) :
    p.resetPrefixCache.2.toPoolConfig = p.toPoolConfig ∧ p.resetPrefixCache.2.Inv held queue := by
  unfold BlockPool.resetPrefixCache
  split
  · exact ⟨rfl, inv⟩
  · refine ⟨rfl, inv.keepsRefs ⟨rfl, rfl, fun _ => rfl⟩ fun b key => ?_⟩
    simp [not_registered_empty]

theorem new_inv {numGpuBlocks unit : Nat} {enableCaching : Bool}
    (ran : new numGpuBlocks enableCaching unit = .ok p) :
    p.toPoolConfig = ⟨numGpuBlocks, enableCaching, unit, 0⟩ ∧
      p.Inv (fun _ => 0) (range' 1 (numGpuBlocks - 1)) := by
  unfold new at ran
  split at ran
  · cases ran
  rename_i some
  have rep := new_represents numGpuBlocks
  have range : range numGpuBlocks = 0 :: range' 1 (numGpuBlocks - 1) := by
    obtain ⟨n, rfl⟩ := exists_eq_succ_of_ne_zero some
    rw [range_eq_range', range'_succ]
    rfl
  rw [range] at rep
  obtain ⟨q, popped, rep'⟩ := rep.popleft
  rw [popped] at ran
  cases ran
  refine ⟨rfl, rep', fun b real => rfl, fun b => ?_, fun b real some => absurd rfl some, fun b key => ?_⟩
  · rw [mem_range'_1]
    change _ ↔ b < numGpuBlocks ∧ b ≠ 0 ∧ _
    omega
  · simp [not_registered_empty]

/-! ### Blocks lose their hashes or keep them -/

structure Sheds (pool pool' : BlockPool) : Prop where
  config : pool'.toPoolConfig = pool.toPoolConfig
  hash : ∀ b, (pool'.blocks b).blockHash = (pool.blocks b).blockHash ∨ (pool'.blocks b).blockHash = none
  hashes : pool.HashInv → pool'.HashInv

theorem Sheds.refl (pool : BlockPool) : Sheds pool pool := ⟨rfl, fun _ => .inl rfl, id⟩

theorem Sheds.trans (first : Sheds p p') (second : Sheds p' pool'') : Sheds p pool'' := by
  refine ⟨second.config.trans first.config, fun b => ?_, second.hashes ∘ first.hashes⟩
  rcases second.hash b with same | none
  · rw [same]
    exact first.hash b
  · exact .inr none

theorem Sheds.foldlM {f : BlockPool → α → Except PoolError BlockPool} {es : List α}
    (each : ∀ e ∈ es, ∀ p p', f p e = .ok p' → Sheds p p') (ran : es.foldlM f pool = .ok pool') :
    Sheds pool pool' :=
  foldlM_invariant (Sheds pool) es (fun e mem p p' before ranEntry =>
    before.trans (each e mem p p' ranEntry)) (.refl pool) ran

theorem setRefCnt_sheds (p : BlockPool) (b : Nat) (n : Int) : Sheds p (p.setRefCnt b n) :=
  ⟨rfl, fun c => .inl (setRefCnt_blockHash p b n c), fun inv => inv.setRefCnt b n⟩

theorem maybeEvictCachedBlock_sheds (p : BlockPool) (b : Nat) : Sheds p (p.maybeEvictCachedBlock b) := by
  refine ⟨(maybeEvictCachedBlock_keepsRefs p b).config, fun c => ?_, fun inv => inv.maybeEvict b⟩
  unfold maybeEvictCachedBlock
  split
  · exact .inl rfl
  · dsimp only
    split
    · rw [setHash_blockHash]
      split
      · exact .inr rfl
      · exact .inl rfl
    · exact .inl rfl

theorem HashInv.evicted (inv : p.HashInv) (b : Nat) :
    ((p.maybeEvictCachedBlock b).blocks b).blockHash = none := by
  unfold maybeEvictCachedBlock
  split
  · assumption
  · rename_i key h
    have present : (p.cachedBlockHashToBlock.pop key b).1 = true :=
      pop_eq_true_iff.mpr ((inv b key).mp h)
    dsimp only
    rw [if_pos present, setHash_blockHash, if_pos rfl]

theorem claimBlock_sheds (ran : p.claimBlock b = .ok p') :
    Sheds p p' ∧ (p.HashInv → p.enableCaching = true → (p'.blocks b).blockHash = none) := by
  obtain ⟨middle, evicted, sheds, gone⟩ : ∃ middle,
      (if p.enableCaching then p.maybeEvictCachedBlock b else p) = middle ∧
      Sheds p middle ∧ (p.HashInv → p.enableCaching = true → (middle.blocks b).blockHash = none) := by
    split
    · exact ⟨_, rfl, maybeEvictCachedBlock_sheds p b, fun inv _ => inv.evicted b⟩
    · rename_i off
      exact ⟨_, rfl, .refl p, fun _ caching => absurd caching off⟩
  simp only [claimBlock, evicted] at ran
  split at ran
  · cases ran
    refine ⟨sheds.trans (setRefCnt_sheds _ b _), fun inv caching => ?_⟩
    rw [setRefCnt_blockHash]
    exact gone inv caching
  · cases ran

theorem claimBlocks_sheds (ran : ret.foldlM claimBlock p = .ok p') : Sheds p p' ∧
      (p.HashInv → p.enableCaching = true → ∀ b ∈ ret, (p'.blocks b).blockHash = none) := by
  induction ret generalizing p with
  | nil =>
    cases ran
    exact ⟨.refl _, nofun⟩
  | cons c rest ih =>
    obtain ⟨next, one, later⟩ := bind_ok ran
    obtain ⟨sheds, gone⟩ := claimBlock_sheds one
    obtain ⟨after, others⟩ := ih later
    refine ⟨sheds.trans after, fun inv caching b mem => ?_⟩
    rcases mem_cons.mp mem with rfl | mem
    · rcases after.hash b with same | none
      · rw [same]
        exact gone inv caching
      · exact none
    · exact others (sheds.hashes inv) ((congrArg enableCaching sheds.config).trans caching) b mem

theorem getNewBlocks_sheds {numBlocks : Int} (ran : p.getNewBlocks numBlocks = .ok (ret, p')) :
    Sheds p p' ∧ (p.HashInv → p.enableCaching = true → ∀ b ∈ ret, (p'.blocks b).blockHash = none) := by
  unfold getNewBlocks at ran
  split at ran
  · cases ran
  obtain ⟨⟨taken, queue⟩, -, ran⟩ := bind_ok ran
  obtain ⟨last, claimed, ran⟩ := bind_ok ran
  cases ran
  obtain ⟨sheds, gone⟩ := claimBlocks_sheds claimed
  have queued : Sheds p { p with freeBlockQueue := queue } := ⟨rfl, fun _ => .inl rfl, id⟩
  exact ⟨queued.trans sheds, gone⟩

theorem touch_sheds (ran : pool.touch bs = .ok pool') : Sheds pool pool' := by
  refine .foldlM (fun b _ p p' one => ?_) ran
  obtain ⟨middle, unqueued, rfl⟩ := map_ok one
  refine .trans ?_ (setRefCnt_sheds _ b _)
  unfold unqueueBlock at unqueued
  split at unqueued
  · obtain ⟨queue, -, rfl⟩ := map_ok unqueued
    exact ⟨rfl, fun _ => .inl rfl, id⟩
  · cases unqueued
    exact .refl p

theorem freeBlocks_sheds (ran : p.freeBlocks bs = .ok pool') : Sheds p pool' := by
  have released : Sheds p (bs.foldl releaseBlock p) := by
    clear ran
    induction bs generalizing p with
    | nil => exact .refl p
    | cons b rest ih => exact (setRefCnt_sheds p b _).trans ih
  obtain ⟨queue, -, ran⟩ := bind_ok ran
  cases ran
  exact released.trans ⟨rfl, fun _ => .inl rfl, id⟩

theorem evictBlocks_sheds (ran : pool.evictBlocks blockIds = .ok pool') : Sheds pool pool' := by
  refine .foldlM (fun b _ p p' one => ?_) ran
  split at one
  · cases one
    exact maybeEvictCachedBlock_sheds p b
  · cases one

theorem resetPrefixCache_sheds (p : BlockPool) : Sheds p p.resetPrefixCache.2 := by
  unfold resetPrefixCache
  split
  · exact .refl p
  · exact ⟨rfl, fun _ => .inr rfl, fun _ b key => by simp [not_registered_empty]⟩

end BlockPool

end TurboQuant.Core
