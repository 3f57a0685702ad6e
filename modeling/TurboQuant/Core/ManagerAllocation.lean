import TurboQuant.Core.ManagerInvariant

/-!
The operations of a manager that take blocks from the pool: prefix hits, blocks for external tokens
and new blocks.
-/

namespace TurboQuant.Core
open Outcome List Nat ManagerConfig Int

namespace ManagerConfig
open SingleTypeKVCacheManager

def requiredBlocks (group : ManagerConfig) (numTokens numTokensMainModel : Int) : Int :=
  match group.kvCacheSpec with
  | .mamba true numSpeculativeBlocks => ceilDiv numTokensMainModel group.blockSize + numSpeculativeBlocks
  | .mamba false numSpeculativeBlocks =>
    ceilDiv (numTokens + group.blockSize * numSpeculativeBlocks) group.blockSize
  | _ => ceilDiv numTokens group.blockSize

def newBlockCount (group : ManagerConfig) (blocksAllocated : Bool) (length : Nat)
    (numTokens numTokensMainModel : Int) : Nat :=
  let missing := group.requiredBlocks numTokens numTokensMainModel - length
  match group.kvCacheSpec with
  | .mamba true numSpeculativeBlocks => (min missing (maxNewBlocks blocksAllocated numSpeculativeBlocks)).toNat
  | _ => missing.toNat

variable {g : ManagerConfig}

theorem newBlockCount_align {extra : Nat}
    (spec : g.kvCacheSpec = .mamba true extra) (blocksAllocated : Bool) (length : Nat) (ts main : Int) :
    g.requiredBlocks ts main = ceilDiv main g.blockSize + extra ∧
      g.newBlockCount blocksAllocated length ts main = (min (ceilDiv main g.blockSize + extra - length)
          (maxNewBlocks blocksAllocated extra)).toNat := by
  simp only [newBlockCount, requiredBlocks, spec, and_self]

theorem newBlockCount_base (spec : ∀ n, g.kvCacheSpec ≠ .mamba true n) (blocksAllocated : Bool)
    (length : Nat) (ts main : Int) : g.newBlockCount blocksAllocated length ts main =
      (g.requiredBlocks ts main - length).toNat := by
  unfold newBlockCount
  split
  · exact absurd ‹_› (spec _)
  · rfl

end ManagerConfig

namespace SingleTypeKVCacheManager

variable {m m' : SingleTypeKVCacheManager} {requestId id : String} {p pool' p' : BlockPool} {frame : Nat → Nat}
  {queue : List Nat}

variable {bs' : List Nat} {n : Int}

theorem getNewBlocks_inv (inv : p.Inv (fun b => frame b + m.held b) queue) (wf : m.WF p.nullBlock)
    (nonneg : 0 ≤ n) (ran : p.getNewBlocks n = .ok (bs', p'))
    (moves : Moves p.nullBlock id bs' [] m m') :
    bs' = queue.take n.toNat ∧ bs'.length = n.toNat ∧ p'.toPoolConfig = p.toPoolConfig ∧
      p'.Inv (fun b => frame b + m'.held b) (queue.drop n.toNat) ∧
      ∀ b, b ≠ p.nullBlock → (m'.getBlocks id).count b ≤ 1 := by
  obtain ⟨k, rfl⟩ := eq_ofNat_of_zero_le nonneg
  obtain ⟨within, taken, cfg, after⟩ := inv.getNewBlocks ran
  have nullEq := congrArg PoolConfig.nullBlock cfg
  refine ⟨taken, by rw [taken, length_take, toNat_natCast, min_eq_left within], cfg,
    after.congr fun b real => ?_, fun b real => ?_⟩
  · have := moves.held b (nullEq ▸ real)
    rw [count_nil] at this
    omega
  · have table := moves.table b real
    have old := wf.nodup id b real
    by_cases fresh : b ∈ bs'
    · have inQueue : b ∈ queue := mem_of_mem_take (taken ▸ fresh)
      have unheld := ((inv.free b).mp inQueue).2.2
      have := count_le_held m id b
      have once : bs'.count b ≤ 1 :=
        nodup_iff_count_le_one.mp (taken ▸ inv.represents.nodup.sublist (take_sublist _ _)) b
      omega
    · rw [count_eq_zero_of_not_mem fresh] at table
      omega

section
variable (m : SingleTypeKVCacheManager) (bs : List Nat)

@[simp] theorem recordNewBlocks_reqToBlocks : (m.recordNewBlocks bs).reqToBlocks = m.reqToBlocks := by
  unfold recordNewBlocks
  split <;> rfl

theorem recordNewBlocks_getBlocks (requestId : String) :
    (m.recordNewBlocks bs).getBlocks requestId = m.getBlocks requestId := by
  rw [getBlocks, recordNewBlocks_reqToBlocks]
  rfl

@[simp] theorem recordNewBlocks_config : (m.recordNewBlocks bs).toManagerConfig = m.toManagerConfig := by
  unfold recordNewBlocks
  split <;> rfl

@[simp] theorem recordNewBlocks_allocated : (m.recordNewBlocks bs).allocatedBlockReqs =
    m.allocatedBlockReqs := by
  unfold recordNewBlocks
  split <;> rfl

end

theorem extend_effect (id : String) (inv : p.Inv (fun b => frame b + m.held b) queue)
    (wf : m.WF p.nullBlock) (nonneg : 0 ≤ n) (ran : p.getNewBlocks n = .ok (bs', p')) :
    bs' = queue.take n.toNat ∧ bs'.length = n.toNat ∧ Effect frame id bs' [] m p
        ((m.setBlocks id (m.getBlocks id ++ bs')).recordNewBlocks bs') p' (queue.drop n.toNat) := by
  have moves : Moves p.nullBlock id bs' [] m
      ((m.setBlocks id (m.getBlocks id ++ bs')).recordNewBlocks bs') :=
    .of_setBlocks (recordNewBlocks_reqToBlocks _ _) (recordNewBlocks_config _ _) fun b _ => by
      rw [count_append, count_nil, add_zero]
  obtain ⟨taken, size, cfg, after, nodup⟩ := getNewBlocks_inv inv wf nonneg ran moves
  refine ⟨taken, size, moves, after, wf.of_moves moves nodup (recordNewBlocks_allocated _ _) ?_, cfg⟩
  rw [recordNewBlocks_getBlocks, getBlocks_setBlocks_self, length_append]
  omega

section
variable (inv : p.Inv (fun b => frame b + m.held b) queue)
include inv

theorem allocateNewBlocksBase_effect (wf : m.WF p.nullBlock) {ts : Int}
    (ran : m.allocateNewBlocksBase p id ts = .ok (bs', m', p')) :
    let n := (ceilDiv ts m.blockSize - (m.getBlocks id).length).toNat
    bs' = queue.take n ∧ Effect frame id bs' [] m p m' p' (queue.drop n) ∧
      (m'.getBlocks id).length = (m.getBlocks id).length + n := by
  intro n
  unfold allocateNewBlocksBase at ran
  dsimp only at ran
  split at ran
  · rename_i none
    have zero : n = 0 := toNat_of_nonpos none
    cases ran
    rw [zero]
    exact ⟨rfl, openBlocks_effect inv wf, congrArg length (getBlocks_setBlocks_self m id _)⟩
  · rename_i some
    obtain ⟨⟨fresh, pool₁⟩, ranNew, ran⟩ := bind_ok ran
    cases ran
    obtain ⟨taken, size, effect⟩ := extend_effect id inv wf (by omega) ranNew
    refine ⟨taken, effect, ?_⟩
    rw [recordNewBlocks_getBlocks, getBlocks_setBlocks_self, length_append, size]

theorem allocateNewBlocksBase_draws (ts : Int) :
    BlockPool.Draws (ceilDiv ts m.blockSize - (m.getBlocks id).length).toNat queue.length
      (m.allocateNewBlocksBase p id ts) := by
  unfold allocateNewBlocksBase
  dsimp only
  split
  · rename_i none
    rw [toNat_of_nonpos none]
    exact .of_ok rfl
  · rename_i some
    have draws := inv.getNewBlocks_draws (ceilDiv ts m.blockSize - (m.getBlocks id).length).toNat
    rw [toNat_of_nonneg (by omega)] at draws
    exact draws.bind fun r _ => ⟨_, rfl⟩

end

theorem reuseLoop_spec {null : Nat} {numSkippedBlocks : Int} (rounds : Nat) {blockIdx : Int} {bs : List Nat}
    (nonneg : 0 ≤ blockIdx) (le : blockIdx + rounds ≤ bs.length) :
    ∃ moved, reuseLoop null numSkippedBlocks rounds blockIdx bs = .ok moved ∧
      (moved.length : Int) = bs.length + min (rounds : Int) (max 0 (numSkippedBlocks - blockIdx)) ∧
      ∀ b, b ≠ null → moved.count b = bs.count b := by
  induction rounds generalizing blockIdx bs with
  | zero => exact ⟨bs, rfl, by omega, fun _ _ => rfl⟩
  | succ rounds ih =>
    unfold reuseLoop
    split
    · obtain ⟨i, rfl⟩ := eq_ofNat_of_zero_le nonneg
      have within : i < bs.length := by omega
      have read : listIndex bs.length i = .ok i := if_pos (by omega)
      have write : listIndex (bs ++ [bs.getD i null]).length i = .ok i := if_pos (by
        rw [length_append]
        omega)
      have size : ((bs ++ [bs.getD i null]).set i null).length = bs.length + 1 := by simp
      obtain ⟨moved, ran, length, counts⟩ := @ih (i + 1) ((bs ++ [bs.getD i null]).set i null) (by omega)
        (by rw [size]; omega)
      refine ⟨moved, ?_, by rw [size] at length; omega, fun b real => ?_⟩
      · simp only [read, bind, Except.bind, write]
        exact ran
      · have step := count_set_null (bs ++ [bs.getD i null]) (i := i) (by simp; omega) real
        rw [getD_append _ _ _ _ within, count_append] at step
        rw [counts b real]
        omega
    · exact ⟨bs, rfl, by omega, fun _ _ => rfl⟩

theorem arrangeBlocks_spec {null extra : Nat} {required : Int} {blocksAllocated : Bool}
    {rb : List Nat} (room : blocksAllocated = true → extra ≤ rb.length) (more : (rb.length : Int) < required) :
    ∃ arranged, arrangeBlocks null extra required blocksAllocated rb = .ok arranged ∧
      required - arranged.length = min (required - rb.length) (maxNewBlocks blocksAllocated extra) ∧
      (∀ b, b ≠ null → arranged.count b = rb.count b) ∧
      (blocksAllocated = false ∨ extra = 0 → ∃ n, arranged = rb ++ replicate n null) := by
  unfold arrangeBlocks maxNewBlocks
  dsimp only
  generalize pad : (required - extra - 1 - rb.length).toNat = n
  have size : (rb ++ replicate n null).length = rb.length + n := by
    rw [length_append, length_replicate]
  have counts : ∀ b, b ≠ null → (rb ++ replicate n null).count b = rb.count b := fun b real => by
    rw [count_append, count_replicate, if_neg (by simpa using real.symm), add_zero]
  cases blocksAllocated with
  | true =>
    have enough := room rfl
    obtain ⟨moved, ran, length, same⟩ := @reuseLoop_spec null (required - extra - 1)
      extra (rb.length - extra) (rb ++ replicate n null) (by omega)
      (by rw [size]; omega)
    refine ⟨moved, ran, ?_, fun b real => (same b real).trans (counts b real), fun trivialCase => ⟨n, ?_⟩⟩
    · rw [if_pos rfl]
      omega
    · have zero : extra = 0 := trivialCase.resolve_left Bool.noConfusion
      subst zero
      cases ran
      rfl
  | false =>
    refine ⟨_, rfl, ?_, counts, fun _ => ⟨n, rfl⟩⟩
    rw [size, if_neg Bool.noConfusion]
    omega

theorem ceilDiv_nonneg {a b : Int} (nonneg : 0 ≤ a) (pos : 0 < b) : 0 ≤ ceilDiv a b := by
  unfold ceilDiv
  have below := Int.ediv_le_ediv pos (show -a ≤ 0 by omega)
  rw [Int.zero_ediv] at below
  omega

def Reuses (m : SingleTypeKVCacheManager) (requestId : String) : Prop :=
  ∃ n, m.kvCacheSpec = .mamba true n ∧ 0 < n ∧ requestId ∈ m.allocatedBlockReqs

section
variable (inv : p.Inv (fun b => frame b + m.held b) queue) (wf : m.WF p.nullBlock) {extra : Nat}
  (spec : m.kvCacheSpec = .mamba true extra) {main : Int}
include inv wf spec

theorem allocateNewBlocksAlign_effect (nonneg : 0 ≤ main)
    (ran : m.allocateNewBlocksAlign extra p id main = .ok (bs', m', p')) :
    let numRequiredBlocks := ceilDiv main m.blockSize + extra
    let n := (min (numRequiredBlocks - (m.getBlocks id).length)
      (maxNewBlocks (decide (id ∈ m.allocatedBlockReqs)) extra)).toNat
    Effect frame id (queue.take n) [] m p m' p' (queue.drop n) ∧
      ((m'.getBlocks id).length : Int) = numRequiredBlocks ∧
      ∀ b ∈ bs', b ≠ p.nullBlock → b ∈ queue.take n ∨ (m.Reuses id ∧ b ∈ m.getBlocks id) := by
  intro numRequiredBlocks n
  unfold allocateNewBlocksAlign at ran
  dsimp only at ran
  split at ran
  · rename_i same
    have zero : n = 0 := by simp only [n, numRequiredBlocks, same]; omega
    cases ran
    rw [zero]
    refine ⟨openBlocks_effect inv wf, ?_, fun b mem => absurd mem not_mem_nil⟩
    exact (congrArg (fun bs => (length bs : Int)) (getBlocks_setBlocks_self m id _)).trans same.symm
  · split at ran
    · cases ran
    · have room := wf.speculative true extra spec id
      obtain ⟨arranged, ranArrange, missing, counts, plain⟩ := @arrangeBlocks_spec p.nullBlock extra
        numRequiredBlocks (decide (id ∈ m.allocatedBlockReqs)) _ (fun alloc => room (of_decide_eq_true alloc))
        (by omega)
      obtain ⟨_, ranArrange', ran⟩ := bind_ok ran
      rw [ranArrange] at ranArrange'
      cases ranArrange'
      split at ran
      · cases ran
      obtain ⟨⟨fresh, pool₁⟩, ranNew, ran⟩ := bind_ok ran
      cases ran
      generalize made : ({ m.setBlocks id (arranged ++ fresh) with
        lastStateBlockIdx := m.recordLastState extra id
        allocatedBlockReqs := m.allocatedBlockReqs.insert id } : SingleTypeKVCacheManager) = m₁
      have moves : Moves p.nullBlock id fresh [] m m₁ := by
        have tables : m₁.reqToBlocks = m.reqToBlocks.insert id (arranged ++ fresh) := by rw [← made]; rfl
        refine .of_setBlocks tables (by rw [← made]; rfl) fun b real => ?_
        rw [count_append, counts b real, count_nil, add_zero]
      have t : m₁.getBlocks id = arranged ++ fresh := by
        rw [← made]
        exact getBlocks_setBlocks_self m id (arranged ++ fresh)
      have some : 0 ≤ numRequiredBlocks - arranged.length := by
        rw [missing, maxNewBlocks]
        split <;> omega
      obtain ⟨taken, size, cfg, after, nodup⟩ := getNewBlocks_inv inv wf some ranNew moves
      have length : ((arranged ++ fresh).length : Int) = numRequiredBlocks := by
        rw [length_append, size]
        omega
      have count : (numRequiredBlocks - arranged.length).toNat = n := congrArg toNat missing
      rw [count] at taken after
      subst taken
      refine ⟨⟨moves, after, ⟨fun other b real => ?_, fun align k same other mem => ?_⟩, cfg⟩,
        by rw [t]; exact length, fun b mem real => ?_⟩
      · by_cases same : other = id
        · exact same ▸ nodup b real
        · rw [moves.others other same]
          exact wf.nodup other b real
      · rw [moves.config] at same
        by_cases here : other = id
        · rw [spec] at same
          cases same
          have required := ceilDiv_nonneg nonneg (b := (m.blockSize : Int)) (by exact_mod_cast m.positive)
          rw [here, t]
          omega
        · rw [moves.others other here]
          rw [← made] at mem
          exact wf.speculative align k same other ((mem_insert_iff.mp mem).resolve_left here)
      · rcases mem_append.mp (mem_of_mem_drop mem) with inArranged | inFresh
        · by_cases unmoved : id ∉ m.allocatedBlockReqs ∨ extra = 0
          · obtain ⟨k, rfl⟩ := plain (unmoved.imp_left fun out => by simpa using out)
            rw [append_assoc, drop_left] at mem
            rcases mem_append.mp mem with padding | inFresh
            · exact absurd (eq_of_mem_replicate padding) real
            · exact .inl inFresh
          · rw [not_or, not_not] at unmoved
            refine .inr ⟨⟨_, spec, pos_of_ne_zero unmoved.2, unmoved.1⟩, ?_⟩
            rw [← count_pos_iff, ← counts b real]
            exact count_pos_iff.mpr inArranged
        · exact .inl inFresh

theorem allocateNewBlocksAlign_draws (fits : ((m.getBlocks id).length : Int) ≤
    ceilDiv main m.blockSize + extra) :
    BlockPool.Draws (min (ceilDiv main m.blockSize + extra - (m.getBlocks id).length)
      (maxNewBlocks (decide (id ∈ m.allocatedBlockReqs)) extra)).toNat queue.length
      (m.allocateNewBlocksAlign extra p id main) := by
  unfold allocateNewBlocksAlign
  dsimp only
  split
  · rename_i same
    rw [same, sub_self, toNat_of_nonpos (min_le_left _ _)]
    exact .of_ok rfl
  · rw [if_neg (by omega)]
    have room := wf.speculative true extra spec id
    obtain ⟨arranged, ranArrange, missing, -⟩ := @arrangeBlocks_spec p.nullBlock extra
      (ceilDiv main m.blockSize + extra) (decide (id ∈ m.allocatedBlockReqs)) _
      (fun alloc => room (of_decide_eq_true alloc)) (by omega)
    rw [ranArrange, ← missing]
    have draws := inv.getNewBlocks_draws
      (ceilDiv main m.blockSize + extra - arranged.length).toNat
    rw [toNat_of_nonneg (by rw [missing, maxNewBlocks]; split <;> omega)] at draws
    simp only [bind, Except.bind]
    rw [if_neg (by omega)]
    exact draws.bind fun r _ => ⟨_, rfl⟩

end

theorem allocateNewBlocks_cases (m : SingleTypeKVCacheManager) (ts main : Int) :
    (∃ n, m.kvCacheSpec = .mamba true n) ∨ (∀ n, m.kvCacheSpec ≠ .mamba true n) ∧ ∃ ss,
      (∀ p id, m.allocateNewBlocks p id ts main = m.allocateNewBlocksBase p id ss) ∧
      m.requiredBlocks ts main = ceilDiv ss m.blockSize := by
  unfold allocateNewBlocks requiredBlocks
  cases spec : m.kvCacheSpec with
  | mamba align n =>
    cases align with
    | true => exact .inl ⟨n, rfl⟩
    | false => exact .inr ⟨fun n => by simp, _, fun _ _ => rfl, rfl⟩
  | _ => exact .inr ⟨fun n => by simp, ts, fun _ _ => rfl, rfl⟩

section
variable (inv : p.Inv (fun b => frame b + m.held b) queue) (wf : m.WF p.nullBlock)
  {ts main : Int}
include inv wf

theorem allocateNewBlocks_effect (nonneg : 0 ≤ main)
    (ran : m.allocateNewBlocks p id ts main = .ok (bs', m', p')) :
    let n := m.newBlockCount (decide (id ∈ m.allocatedBlockReqs)) (m.getBlocks id).length ts
      main
    Effect frame id (queue.take n) [] m p m' p' (queue.drop n) ∧
      m.requiredBlocks ts main ≤ (m'.getBlocks id).length ∧
      ((m'.getBlocks id).length : Int) ≤ ((m.getBlocks id).length : Int) ⊔ m.requiredBlocks ts main ∧
      ∀ b ∈ bs', b ≠ p.nullBlock → b ∈ queue.take n ∨ (m.Reuses id ∧ b ∈ m.getBlocks id) := by
  rcases m.allocateNewBlocks_cases ts main with ⟨k, spec⟩ | ⟨other, ss, same, required⟩
  · obtain ⟨required, count⟩ := newBlockCount_align spec (decide (id ∈ m.allocatedBlockReqs))
      (m.getBlocks id).length ts main
    simp only [allocateNewBlocks, spec] at ran
    obtain ⟨effect, length, fresh⟩ := allocateNewBlocksAlign_effect inv wf spec nonneg ran
    rw [count, required]
    exact ⟨effect, length.ge, length.le.trans (le_max_right _ _), fresh⟩
  · rw [same] at ran
    obtain ⟨taken, effect, length⟩ := allocateNewBlocksBase_effect inv wf ran
    rw [newBlockCount_base other, required]
    exact ⟨taken ▸ effect, by omega, by omega, fun b mem _ => .inl (taken ▸ mem)⟩

theorem allocateNewBlocks_draws (fits : ∀ n, m.kvCacheSpec = .mamba true n →
      ((m.getBlocks id).length : Int) ≤ m.requiredBlocks ts main) :
    BlockPool.Draws (m.newBlockCount (decide (id ∈ m.allocatedBlockReqs)) (m.getBlocks id).length ts
      main) queue.length (m.allocateNewBlocks p id ts main) := by
  rcases m.allocateNewBlocks_cases ts main with ⟨k, spec⟩ | ⟨other, ss, same, required⟩
  · obtain ⟨required, count⟩ := newBlockCount_align spec (decide (id ∈ m.allocatedBlockReqs))
      (m.getBlocks id).length ts main
    simp only [count, allocateNewBlocks, spec]
    exact allocateNewBlocksAlign_draws inv wf spec (required ▸ fits k spec)
  · rw [same, newBlockCount_base other, required]
    exact allocateNewBlocksBase_draws inv ss

end

/-! ### Prefix hits and external tokens -/

variable {held : Nat → Nat} {hits : List Nat}

theorem touchHits_inv (inv : p.Inv held queue) (ran : touchHits p hits = .ok p') :
    p'.toPoolConfig = p.toPoolConfig ∧ p'.Inv (fun b => held b + hits.count b) (queue.filter (· ∉ hits)) := by
  unfold touchHits at ran
  split at ran
  · exact inv.touch ran
  · split at ran
    · rename_i none
      cases ran
      subst none
      exact ⟨rfl, by simpa using inv⟩
    · cases ran

theorem getNumSkippedTokens_le (spec : KVCacheSpec) (nonneg : 0 ≤ n) : spec.getNumSkippedTokens n ≤ n := by
  unfold KVCacheSpec.getNumSkippedTokens
  split
  · omega
  · rename_i chunkSize pos
    exact Int.ediv_mul_le n (by omega)
  · omega
  · exact nonneg

theorem le_ceilDiv {a b k : Int} (pos : 0 < b) (fits : k * b ≤ a) : k ≤ ceilDiv a b := by
  unfold ceilDiv
  have below := Int.ediv_le_ediv pos (show -a ≤ -k * b by rw [Int.neg_mul]; omega)
  rw [Int.mul_ediv_cancel _ (by omega)] at below
  omega

section
variable (m : SingleTypeKVCacheManager)

theorem numExternalBlocks_nonneg (computed : List Nat) (total : Int)
    (nonneg : 0 ≤ total) (covered : (computed.length * m.blockSize : Int) ≤ total) :
    0 ≤ m.numExternalBlocks ((m.numSkippedBlocks total).toNat +
      (m.attachedHits computed total).length) total := by
  have pos : (0 : Int) < m.blockSize := by exact_mod_cast m.positive
  have hits := le_ceilDiv pos covered
  have skipped : m.numSkippedBlocks total ≤ ceilDiv total m.blockSize := by
    refine le_ceilDiv pos ?_
    exact (Int.ediv_mul_le _ (by omega)).trans (getNumSkippedTokens_le m.kvCacheSpec nonneg)
  rw [numExternalBlocks, attachedHits, length_drop]
  omega

section
variable (requestId : String) (newComputedBlocks : List Nat) (total numExternalComputedTokens : Int)

def newExternalBlocks : Nat :=
  if m.kvCacheSpec.isCrossAttention ∨ requestId ∈ m.numCachedBlock ∨
      m.attachedExternalTokens total numExternalComputedTokens ≤ 0 then 0
  else
    (m.numExternalBlocks ((m.numSkippedBlocks total).toNat + (m.attachedHits newComputedBlocks
      total).length) total).toNat

def attachedLength : Nat :=
  if m.kvCacheSpec.isCrossAttention ∨ requestId ∈ m.numCachedBlock then (m.getBlocks requestId).length
  else (m.numSkippedBlocks total).toNat + (m.attachedHits newComputedBlocks total).length +
    m.newExternalBlocks requestId newComputedBlocks total numExternalComputedTokens

end

end

theorem attach_effect (id : String) (nulls cached : Nat)
    (inv : p.Inv (fun b => frame b + m.held b) queue) (wf : m.WF p.nullBlock) (empty : m.getBlocks id = [])
    (nodup : ∀ b, b ≠ p.nullBlock → hits.count b ≤ 1) (ran : touchHits p hits = .ok p') :
    Effect frame id hits [] m p
      ({ m with numCachedBlock := m.numCachedBlock.insert id cached }.setBlocks id
        (replicate nulls p'.nullBlock ++ hits)) p' (queue.filter (· ∉ hits)) := by
  obtain ⟨cfg, after⟩ := touchHits_inv inv ran
  have nullEq := congrArg PoolConfig.nullBlock cfg
  generalize made : ({ m with numCachedBlock := m.numCachedBlock.insert id cached } :
    SingleTypeKVCacheManager).setBlocks id (replicate nulls p'.nullBlock ++ hits) = m₁
  have tables : m₁.reqToBlocks = m.reqToBlocks.insert id (replicate nulls p'.nullBlock ++ hits) := by
    rw [← made]
    rfl
  have t : m₁.getBlocks id = replicate nulls p'.nullBlock ++ hits := by
    rw [← made, getBlocks_setBlocks_self]
  have counts : ∀ b, b ≠ p.nullBlock → (m₁.getBlocks id).count b = hits.count b := fun b real => by
    rw [t, count_append, count_replicate, if_neg (by rw [nullEq]; simpa using real.symm), zero_add]
  have moves : Moves p.nullBlock id hits [] m m₁ := by
    refine .of_setBlocks tables (by rw [← made]; rfl) fun b real => ?_
    have step := counts b real
    rw [t] at step
    rw [step, empty, count_nil, add_zero, zero_add]
  refine ⟨moves, after.congr fun b real => ?_,
    wf.of_moves moves (fun b real => ?_) (by rw [← made]; rfl) ?_, cfg⟩
  · have := moves.held b (nullEq ▸ real)
    rw [count_nil] at this
    omega
  · rw [counts b real]
    exact nodup b real
  · rw [empty]
    exact zero_le _

variable {total external : Int}

theorem allocateExternal_effect {rb : List Nat}
    (inv : p.Inv (fun b => frame b + (m.setBlocks id rb).held b) queue)
    (wf : (m.setBlocks id rb).WF p.nullBlock) (nonneg : 0 ≤ m.numExternalBlocks rb.length total)
    (ran : m.allocateExternal p id rb total external = .ok (m', p')) :
    let n := if external ≤ 0 then 0 else (m.numExternalBlocks rb.length total).toNat
    Effect frame id (queue.take n) [] (m.setBlocks id rb) p m' p' (queue.drop n) ∧
      (m'.getBlocks id).length = rb.length + n := by
  unfold allocateExternal at ran
  split at ran
  · rename_i some
    obtain ⟨⟨fresh, pool₁⟩, ranNew, ran⟩ := bind_ok ran
    cases ran
    obtain ⟨taken, size, effect⟩ := extend_effect id inv wf nonneg ranNew
    rw [getBlocks_setBlocks_self, setBlocks, setBlocks, AList.insert_insert] at effect
    simp only [if_neg (show ¬ external ≤ 0 by omega)]
    refine ⟨taken ▸ effect, ?_⟩
    rw [recordNewBlocks_getBlocks, getBlocks_setBlocks_self, length_append, size]
  · rename_i none
    cases ran
    simp only [if_pos (show external ≤ 0 by omega)]
    exact ⟨.refl inv wf, congrArg length (getBlocks_setBlocks_self m id rb)⟩

variable {computed : List Nat} {newComputedBlocks : List Nat}

section
variable (inv : p.Inv (fun b => frame b + m.held b) queue) (wf : m.WF p.nullBlock)
include inv wf

theorem allocateForNewRequest_effect (empty : m.getBlocks id = [])
    (nodup : ∀ b, b ≠ p.nullBlock → newComputedBlocks.count b ≤ 1)
    (nonneg : 0 ≤ total) (covered : (newComputedBlocks.length * m.blockSize : Int) ≤ total)
    (ran : m.allocateForNewRequest p id newComputedBlocks total external = .ok (m', p')) :
    let hits := m.attachedHits newComputedBlocks total
    let n := if m.attachedExternalTokens total external ≤ 0 then 0
      else (m.numExternalBlocks ((m.numSkippedBlocks total).toNat + hits.length) total).toNat
    Effect frame id (hits ++ (queue.filter (· ∉ hits)).take n) [] m p m' p'
      ((queue.filter (· ∉ hits)).drop n) ∧
      (m'.getBlocks id).length = (m.numSkippedBlocks total).toNat + hits.length + n := by
  obtain ⟨pool₁, touched, ran⟩ := bind_ok ran
  have room := numExternalBlocks_nonneg m newComputedBlocks _ nonneg covered
  have sublist : (m.attachedHits newComputedBlocks total).Sublist newComputedBlocks := drop_sublist _ _
  generalize m.attachedHits newComputedBlocks total = hits at *
  have attached := attach_effect id (m.numSkippedBlocks total).toNat
    (replicate (m.numSkippedBlocks total).toNat pool₁.nullBlock ++ hits).length inv wf empty
    (fun b real => (sublist.count_le b).trans (nodup b real)) touched
  have nullEq := congrArg PoolConfig.nullBlock attached.config
  have size : (replicate (m.numSkippedBlocks total).toNat pool₁.nullBlock ++ hits).length =
      (m.numSkippedBlocks total).toNat + hits.length := by
    rw [length_append, length_replicate]
  obtain ⟨added, length⟩ := allocateExternal_effect attached.inv (nullEq ▸ attached.wf)
    (by rw [size]; exact room) ran
  dsimp only
  rw [← size]
  exact ⟨attached.trans added, length⟩

theorem allocateNewComputedBlocks_effect (nodup : ∀ b, b ≠ p.nullBlock → computed.count b ≤ 1)
    {local_ numExternalComputedTokens : Nat}
    (covered : computed.length * m.blockSize ≤ local_ + numExternalComputedTokens)
    (ran : m.allocateNewComputedBlocks p id computed local_ numExternalComputedTokens = .ok (m', p')) :
    let total : Int := local_ + numExternalComputedTokens
    let hits := m.attachedHits computed total
    let n := m.newExternalBlocks id computed total numExternalComputedTokens
    Effect frame id (hits ++ (queue.filter (· ∉ hits)).take n) [] m p m' p'
      ((queue.filter (· ∉ hits)).drop n) ∧
      (m'.getBlocks id).length = m.attachedLength id computed total numExternalComputedTokens := by
  intro total hits n
  unfold allocateNewComputedBlocks at ran
  split at ran
  · rename_i skip
    have zero : n = 0 := if_pos (by tauto)
    split at ran
    · cases ran
    rename_i noHits
    cases ran
    have none : hits = [] := by simp only [hits, attachedHits, not_not.mp noHits, drop_nil]
    rw [none, zero, attachedLength, if_pos skip]
    exact ⟨by simpa using Effect.refl inv wf, rfl⟩
  · rename_i fresh
    split at ran
    · cases ran
    rename_i noBlocks
    have nEq : n = if m.attachedExternalTokens total numExternalComputedTokens ≤ 0 then 0
        else (m.numExternalBlocks ((m.numSkippedBlocks total).toNat + hits.length) total).toNat := by
      simp only [n, newExternalBlocks, ← or_assoc, fresh, false_or, hits]
    have within : (computed.length * m.blockSize : Int) ≤ total := by
      simp only [total]
      exact_mod_cast covered
    have lengthEq : m.attachedLength id computed total numExternalComputedTokens =
        (m.numSkippedBlocks total).toNat + hits.length + n := if_neg fresh
    rw [lengthEq, nEq]
    exact allocateForNewRequest_effect inv wf (by simpa using noBlocks) nodup (by omega) within ran

end

theorem touchHits_ok (inv : p.Inv held queue)
    (lt : ∀ b ∈ hits, b ≠ p.nullBlock → b < p.numGpuBlocks) (uncached : p.enableCaching = false → hits = []) :
    ∃ pool', touchHits p hits = .ok pool' := by
  unfold touchHits
  split
  · exact inv.touch_ok lt
  · rename_i off
    rw [if_pos (uncached (by simpa using off))]
    exact ⟨p, rfl⟩

theorem allocateExternal_draws (inv : p.Inv held queue) {rb : List Nat}
    (nonneg : 0 ≤ m.numExternalBlocks rb.length total) :
    BlockPool.Draws (if external ≤ 0 then 0 else (m.numExternalBlocks rb.length total).toNat)
      queue.length (m.allocateExternal p id rb total external) := by
  unfold allocateExternal
  by_cases none : external ≤ 0
  · rw [if_pos none, if_neg (not_lt.mpr none)]
    exact .of_ok rfl
  · rw [if_neg none, if_pos (not_le.mp none)]
    have draws := inv.getNewBlocks_draws (m.numExternalBlocks rb.length total).toNat
    rw [toNat_of_nonneg nonneg] at draws
    exact draws.bind fun r _ => ⟨_, rfl⟩

theorem allocateNewComputedBlocks_draws (inv : p.Inv (fun b => frame b + m.held b) queue)
    {local_ external : Nat} (covered : newComputedBlocks.length * m.blockSize ≤ local_ + external)
    (lt : ∀ b ∈ newComputedBlocks, b ≠ p.nullBlock → b < p.numGpuBlocks)
    (uncached : p.enableCaching = false → newComputedBlocks = [])
    (noHits : m.kvCacheSpec.isCrossAttention = true ∨ id ∈ m.numCachedBlock → newComputedBlocks = [])
    (empty : m.kvCacheSpec.isCrossAttention = true ∨ id ∈ m.numCachedBlock ∨ m.getBlocks id = []) :
    let total : Int := local_ + external
    BlockPool.Draws (m.newExternalBlocks id newComputedBlocks total external)
      (queue.filter (· ∉ m.attachedHits newComputedBlocks total)).length
      (m.allocateNewComputedBlocks p id newComputedBlocks local_ external) := by
  intro total
  unfold allocateNewComputedBlocks newExternalBlocks
  by_cases skip : m.kvCacheSpec.isCrossAttention = true ∨ id ∈ m.numCachedBlock
  · rw [if_pos skip, if_neg (not_not.mpr (noHits skip)), if_pos (by tauto)]
    exact .of_ok rfl
  rw [if_neg skip, if_neg (not_not.mpr (by tauto))]
  have sublist : (m.attachedHits newComputedBlocks total).Sublist newComputedBlocks := drop_sublist _ _
  have room := numExternalBlocks_nonneg m newComputedBlocks total (by omega) (by
    simp only [total]
    exact_mod_cast covered)
  obtain ⟨pool₁, touched⟩ := touchHits_ok inv (fun b mem => lt b (sublist.subset mem)) fun off => by
    rw [attachedHits, uncached off, drop_nil]
  obtain ⟨-, after⟩ := touchHits_inv inv touched
  rw [if_congr (or_assoc.symm.trans (or_iff_right skip)) rfl rfl, allocateForNewRequest, touched]
  have size : (replicate (m.numSkippedBlocks total).toNat pool₁.nullBlock ++
      m.attachedHits newComputedBlocks total).length =
      (m.numSkippedBlocks total).toNat + (m.attachedHits newComputedBlocks total).length := by
    rw [length_append, length_replicate]
  rw [← size] at room ⊢
  exact allocateExternal_draws (m := { m with numCachedBlock := m.numCachedBlock.insert id _ }) after room

theorem allocateExternal_allocated {rb : List Nat}
    (ran : m.allocateExternal p id rb total external = .ok (m', p')) :
    m'.allocatedBlockReqs = m.allocatedBlockReqs := by
  unfold allocateExternal at ran
  split at ran
  · obtain ⟨⟨fresh, pool₁⟩, -, ran⟩ := bind_ok ran
    cases ran
    exact recordNewBlocks_allocated _ _
  · cases ran
    rfl

theorem allocateNewComputedBlocks_empty {local_ external : Int}
    (ran : m.allocateNewComputedBlocks p id computed local_ external = .ok (m', p')) :
    m'.allocatedBlockReqs = m.allocatedBlockReqs ∧ (m.attachedHits computed (local_ + external) ≠ [] →
        m.getBlocks id = []) := by
  unfold allocateNewComputedBlocks at ran
  split at ran
  · split at ran
    · cases ran
    · rename_i noHits
      cases ran
      exact ⟨rfl, fun some => absurd (by simp only [attachedHits, not_not.mp noHits, drop_nil]) some⟩
  · split at ran
    · cases ran
    · rename_i noBlocks
      obtain ⟨pool₁, -, ran⟩ := bind_ok ran
      have same := allocateExternal_allocated ran
      exact ⟨same, fun _ => by simpa using noBlocks⟩

/-! ### Caching -/

section
variable (inv : p.Inv (fun b => frame b + m.held b) queue) (wf : m.WF p.nullBlock)
include inv wf

theorem Effect.of_keepsRefs (kept : p.KeepsRefs p') (hs : p'.HashInv) (tables : m'.reqToBlocks = m.reqToBlocks)
    (cfg : m'.toManagerConfig = m.toManagerConfig) (alloc : m'.allocatedBlockReqs = m.allocatedBlockReqs) :
    Effect frame id [] [] m p m' p' queue := by
  have same : ∀ other, m'.getBlocks other = m.getBlocks other := fun other => by rw [getBlocks, tables]; rfl
  have heldEq : ∀ b, m'.held b = m.held b := fun b => by rw [held, tables]; rfl
  have moves : Moves p.nullBlock id [] [] m m' :=
    ⟨cfg, fun other _ => same other, fun b _ => by rw [same], fun b _ => by rw [heldEq]⟩
  refine ⟨moves, ?_, wf.of_moves moves (fun b real => ?_) alloc (by rw [same]), kept.config⟩
  · simp only [heldEq]
    exact inv.keepsRefs kept hs
  · rw [same]
    exact wf.nodup id b real

variable {ts : Nat}

theorem cacheBlocksBase_effect {blockHashes : List BlockHash}
    (ran : m.cacheBlocksBase p id blockHashes ts = .ok (m', p')) :
    Effect frame id [] [] m p m' p' queue := by
  unfold cacheBlocksBase at ran
  dsimp only at ran
  split at ran
  · cases ran
    exact .refl inv wf
  · obtain ⟨pool₁, ranCache, ran⟩ := bind_ok ran
    cases ran
    obtain ⟨kept, hs⟩ := BlockPool.cacheFullBlocks_keepsRefs inv.hashes ranCache
    exact (openBlocks_effect inv wf).trans (.of_keepsRefs (openBlocks_effect inv wf).inv
      (openBlocks_effect inv wf).wf kept hs rfl rfl rfl)

theorem cacheBlocks_effect {hs : List BlockHash} (ran : m.cacheBlocks p id hs ts = .ok (m', p')) :
    Effect frame id [] [] m p m' p' queue := by
  unfold cacheBlocks at ran
  split at ran
  · cases ran
  · obtain ⟨⟨m₁, pool₁⟩, ranBase, ran⟩ := bind_ok ran
    cases ran
    have effect := cacheBlocksBase_effect inv wf ranBase
    have nullEq := congrArg PoolConfig.nullBlock effect.config
    exact effect.trans (.of_keepsRefs effect.inv (nullEq ▸ effect.wf) (.refl p') effect.inv.hashes rfl rfl rfl)
  · exact cacheBlocksBase_effect inv wf ran

end

theorem getNumBlocksToAllocate_manager {ts total main n : Int} {applyAdmissionCap : Bool}
    (ran : m.getNumBlocksToAllocate p requestId ts computed total main
      applyAdmissionCap = .ok (n, m')) : m' = m ∨ m' = m.openBlocks requestId := by
  unfold getNumBlocksToAllocate at ran
  split at ran
  · unfold getNumBlocksToAllocateMamba at ran
    split at ran
    · cases ran
      exact .inl rfl
    · split at ran
      · obtain ⟨_, -, result⟩ := map_ok ran
        cases result
        exact .inl rfl
      · cases ran
        exact .inr rfl
  · obtain ⟨_, -, result⟩ := map_ok ran
    cases result
    exact .inl rfl

end SingleTypeKVCacheManager

end TurboQuant.Core
