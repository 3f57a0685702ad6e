import TurboQuant.Core.GroupTables

/-!
How many blocks a call of `allocate_slots` takes in each group, and how many
`get_num_blocks_to_allocate` predicts.
-/

namespace TurboQuant.Core
open Shares SingleTypeKVCacheManager ManagerConfig

def KVCacheSpec.isAlign : KVCacheSpec → Bool
  | .mamba align _ => align
  | _ => false

structure TableView extends ManagerConfig where
  length : Nat
  running : Bool
  blocksAllocated : Bool

def SingleTypeKVCacheManager.view (m : SingleTypeKVCacheManager) (requestId : String) : TableView where
  toManagerConfig := m.toManagerConfig
  length := (m.getBlocks requestId).length
  running := decide (requestId ∈ m.numCachedBlock)
  blocksAllocated := decide (requestId ∈ m.allocatedBlockReqs)

structure Tokens where
  total : Int
  numExternal : Int
  /-- Hits or external tokens are attached before new blocks are allocated. -/
  attached : Bool
  numTokens : Int
  numTokensMainModel : Int

namespace TableView

variable (view : TableView) (numHits nh : Nat) (tokens : Tokens)

def skippedBlocks : Int := view.kvCacheSpec.getNumSkippedTokens tokens.total / view.blockSize

def coveredBlocks : Nat := max (view.skippedBlocks tokens).toNat numHits

def attaches : Prop := tokens.attached = true ∧ view.kvCacheSpec.isCrossAttention = false ∧
    view.running = false

instance : Decidable (view.attaches tokens) := inferInstanceAs (Decidable (_ ∧ _ ∧ _))

def externalTokens : Int :=
  if view.skippedBlocks tokens > 0 then
    min (tokens.total - view.kvCacheSpec.getNumSkippedTokens tokens.total) tokens.numExternal
  else tokens.numExternal

def externalBlocks : Nat :=
  if view.kvCacheSpec.isCrossAttention ∨ view.running ∨ view.externalTokens tokens ≤ 0 then 0
  else (ceilDiv tokens.total view.blockSize - view.coveredBlocks numHits tokens).toNat

def tableLength : Nat :=
  if view.attaches tokens
  then view.coveredBlocks numHits tokens + view.externalBlocks numHits tokens else view.length

def required : Int := view.requiredBlocks tokens.numTokens tokens.numTokensMainModel

def newBlocks : Nat :=
  view.newBlockCount view.blocksAllocated (view.tableLength numHits tokens) tokens.numTokens
    tokens.numTokensMainModel

def plannedBlocks : Int :=
  let required := view.required tokens
  match view.kvCacheSpec with
  | .mamba true numSpeculativeBlocks =>
    if required - numHits - view.length > 0 then if view.blocksAllocated then 1 else 1 + numSpeculativeBlocks
    else required - numHits - view.length
  | _ =>
    if view.running then max (required - view.length) 0
    else max (required - max (view.skippedBlocks tokens) (numHits + view.length)) 0

def countedHits (hits : List Nat) : List Nat :=
  match view.kvCacheSpec with
  | .mamba true _ => hits
  | _ => if view.running then [] else hits.drop (max 0 (view.skippedBlocks tokens - view.length)).toNat

def excess : Int :=
  let required := view.required tokens
  let external : Int := view.externalBlocks numHits tokens
  match view.kvCacheSpec with
  | .mamba true numSpeculativeBlocks =>
    if required ≤ numHits + view.length then 0
    else if view.attaches tokens then
      external - max 0 (view.coveredBlocks numHits tokens + external - (required - numSpeculativeBlocks - 1))
    else if view.blocksAllocated then 0
    else -max 0 (view.length - (required - numSpeculativeBlocks - 1))
  | _ =>
    if view.kvCacheSpec.isCrossAttention ∨ view.running then 0
    else if view.attaches tokens then max 0 (external - max 0 (required - view.coveredBlocks numHits tokens))
    else min (max 0 (view.skippedBlocks tokens - view.length)) (max 0 (required - view.length))

/-- What the code asserts: only a new request without blocks gets hits, and in align mode no table
has more blocks than the tokens require. -/
def Asserted : Prop :=
  (view.kvCacheSpec.isCrossAttention = true ∨ view.running = true → numHits = 0) ∧
    (view.attaches tokens → view.length = 0) ∧
    (view.kvCacheSpec.isAlign = true → (view.tableLength numHits tokens : Int) ≤ view.required tokens)

instance : Decidable (view.Asserted numHits tokens) := inferInstanceAs (Decidable (_ ∧ _ ∧ _))

structure Accepts : Prop where
  asserted : view.Asserted numHits tokens
  unattached : tokens.attached = false → numHits = 0 ∧ tokens.numExternal = 0
  speculative : ∀ n, view.kvCacheSpec = .mamba true n → view.blocksAllocated = true → n ≤ view.length

variable {view nh tokens}

theorem Accepts.externalBlocks_eq_zero (accepts : view.Accepts nh tokens) (idle : ¬ view.attaches tokens) :
    view.externalBlocks nh tokens = 0 := by
  refine if_pos ?_
  by_cases attached : tokens.attached = true
  · by_cases cross : view.kvCacheSpec.isCrossAttention = true
    · exact .inl cross
    · refine .inr (.inl ?_)
      by_contra fresh
      exact idle ⟨attached, by simpa using cross, by simpa using fresh⟩
  · have none := (accepts.unattached (by simpa using attached)).2
    refine .inr (.inr ?_)
    unfold externalTokens
    split
    · exact (min_le_right _ _).trans none.le
    · exact none.le

theorem numHits_le_coveredBlocks : nh ≤ view.coveredBlocks nh tokens := le_max_right _ _

theorem Accepts.numHits_eq_zero (accepts : view.Accepts nh tokens) (idle : ¬ view.attaches tokens) :
    nh = 0 := by
  by_cases attached : tokens.attached = true
  · refine accepts.asserted.1 ?_
    by_contra fresh
    rw [not_or] at fresh
    exact idle ⟨attached, by simpa using fresh.1, by simpa using fresh.2⟩
  · exact (accepts.unattached (by simpa using attached)).1

theorem Accepts.taken_eq_align (accepts : view.Accepts nh tokens) {n : Nat}
    (spec : view.kvCacheSpec = .mamba true n) :
    (view.externalBlocks nh tokens : Int) + view.newBlocks nh tokens =
      view.plannedBlocks nh tokens + view.excess nh tokens := by
  have fits := accepts.asserted.2.2 (by rw [spec]; rfl)
  have room := accepts.speculative n spec
  have covers : nh ≤ view.coveredBlocks nh tokens := numHits_le_coveredBlocks
  obtain ⟨required, count⟩ := newBlockCount_align spec view.blocksAllocated (view.tableLength nh tokens)
    tokens.numTokens tokens.numTokensMainModel
  rw [newBlocks, count, ← required]
  change (_ : Int) + (min (view.required tokens - _) _).toNat = _
  simp only [plannedBlocks, excess, spec]
  by_cases attaches : view.attaches tokens
  · have none := accepts.asserted.2.1 attaches
    simp only [tableLength, if_pos attaches] at fits ⊢
    cases allocated : view.blocksAllocated with
    | true =>
      have zero := room allocated
      simp only [maxNewBlocks, if_true]
      split <;> split <;> omega
    | false =>
      simp only [maxNewBlocks, Bool.false_eq_true, if_false]
      split <;> split <;> omega
  · rw [accepts.externalBlocks_eq_zero attaches]
    simp only [tableLength, if_neg attaches, accepts.numHits_eq_zero attaches] at fits ⊢
    cases view.blocksAllocated with
    | true =>
      simp only [maxNewBlocks, if_true]
      split <;> split <;> omega
    | false =>
      simp only [maxNewBlocks, Bool.false_eq_true, if_false]
      split <;> split <;> omega

theorem plannedBlocks_base (view : TableView) (nh : Nat) (tokens : Tokens)
    (base : ∀ n, view.kvCacheSpec ≠ .mamba true n) :
    view.plannedBlocks nh tokens = if view.running then max (view.required tokens - view.length) 0
      else max (view.required tokens - max (view.skippedBlocks tokens) (nh + view.length)) 0 := by
  unfold plannedBlocks
  split
  · exact absurd ‹_› (base _)
  · rfl

theorem excess_base (base : ∀ n, view.kvCacheSpec ≠ .mamba true n) :
    view.excess nh tokens = if view.kvCacheSpec.isCrossAttention ∨ view.running then 0
      else if view.attaches tokens then
        max 0 (view.externalBlocks nh tokens - max 0 (view.required tokens - view.coveredBlocks nh tokens))
      else min (max 0 (view.skippedBlocks tokens - view.length))
        (max 0 (view.required tokens - view.length)) := by
  unfold excess
  split
  · exact absurd ‹_› (base _)
  · rfl

theorem Accepts.plannedBlocks_nonneg (accepts : view.Accepts nh tokens) :
    0 ≤ view.plannedBlocks nh tokens := by
  by_cases al : ∃ n, view.kvCacheSpec = .mamba true n
  · obtain ⟨n, spec⟩ := al
    have fits := accepts.asserted.2.2 (by rw [spec]; rfl)
    have covers : nh ≤ view.coveredBlocks nh tokens := numHits_le_coveredBlocks
    unfold tableLength at fits
    simp only [plannedBlocks, spec]
    split
    · split <;> omega
    · split at fits
      · rename_i attaches
        have none := accepts.asserted.2.1 attaches
        omega
      · rename_i idle
        have none := accepts.numHits_eq_zero idle
        omega
  · rw [not_exists] at al
    rw [plannedBlocks_base _ _ _ al]
    split <;> omega

theorem Accepts.taken_eq (accepts : view.Accepts numHits tokens) :
    (view.externalBlocks numHits tokens : Int) + view.newBlocks numHits tokens =
      view.plannedBlocks numHits tokens + view.excess numHits tokens := by
  by_cases al : ∃ n, view.kvCacheSpec = .mamba true n
  · obtain ⟨n, spec⟩ := al
    exact accepts.taken_eq_align spec
  rw [not_exists] at al
  have covered : view.coveredBlocks numHits tokens = max (view.skippedBlocks tokens).toNat numHits := rfl
  rw [newBlocks, newBlockCount_base al, plannedBlocks_base _ _ _ al, excess_base al]
  change (_ : Int) + (view.required tokens - _).toNat = _
  by_cases attaches : view.attaches tokens
  · have none := accepts.asserted.2.1 attaches
    have fresh : ¬ (view.kvCacheSpec.isCrossAttention = true ∨ view.running = true) := by
      rw [attaches.2.1, attaches.2.2]
      simp
    rw [tableLength, if_pos attaches, if_neg fresh, if_pos attaches, if_neg (not_or.mp fresh).2, none, covered]
    omega
  · rw [accepts.externalBlocks_eq_zero attaches, accepts.numHits_eq_zero attaches, tableLength,
      if_neg attaches, if_neg attaches]
    by_cases running : view.running = true
    · rw [if_pos running, if_pos (.inr running)]
      omega
    rw [if_neg running]
    split
    · rename_i cross
      have cross := cross.resolve_right running
      have noSkip : view.skippedBlocks tokens = 0 := by
        cases spec : view.kvCacheSpec with
        | crossAttention => simp [skippedBlocks, KVCacheSpec.getNumSkippedTokens, spec]
        | _ =>
          rw [spec] at cross
          cases cross
      rw [noSkip]
      omega
    · omega

end TableView

namespace SingleTypeKVCacheManager

variable {m : SingleTypeKVCacheManager} {id : String} {pool : BlockPool} {q hits : List Nat} {tokens : Tokens}

section
variable (m : SingleTypeKVCacheManager) (id : String) (hits : List Nat)

theorem length_attachedHits (tokens : Tokens) :
    (m.numSkippedBlocks tokens.total).toNat + (m.attachedHits hits tokens.total).length =
      (m.view id).coveredBlocks hits.length tokens := by
  rw [attachedHits, List.length_drop, TableView.coveredBlocks]
  change _ = max (m.numSkippedBlocks tokens.total).toNat hits.length
  omega

theorem newExternalBlocks_eq (tokens : Tokens) : m.newExternalBlocks id hits tokens.total tokens.numExternal =
      (m.view id).externalBlocks hits.length tokens := by
  unfold newExternalBlocks TableView.externalBlocks
  rw [length_attachedHits m id]
  refine if_congr (or_congr Iff.rfl (or_congr ?_ Iff.rfl)) rfl rfl
  exact decide_eq_true_iff.symm

theorem attachedLength_eq {tokens : Tokens} (attached : tokens.attached = true) :
    m.attachedLength id hits tokens.total tokens.numExternal = (m.view id).tableLength hits.length tokens := by
  unfold attachedLength TableView.tableLength
  rw [length_attachedHits m id, newExternalBlocks_eq]
  by_cases skip : m.kvCacheSpec.isCrossAttention = true ∨ id ∈ m.numCachedBlock
  · rw [if_pos skip, if_neg]
    · rfl
    · rintro ⟨-, notCross, fresh⟩
      rcases skip with cross | running
      · exact Bool.noConfusion (cross.symm.trans notCross)
      · exact of_decide_eq_false fresh running
  · rw [if_neg skip, if_pos]
    rw [not_or] at skip
    exact ⟨attached, Bool.eq_false_iff.mpr skip.1, decide_eq_false skip.2⟩

end

theorem getNumEvictableBlocks_eq {held : Nat → Nat} (inv : pool.Inv held q)
    (lt : ∀ b ∈ hits, b < pool.numGpuBlocks) :
    getNumEvictableBlocks pool hits = (hits.filter (· ∈ q)).length := by
  unfold getNumEvictableBlocks
  rw [List.filter_congr fun b mem => ?_]
  rw [Bool.eq_iff_iff, Bool.and_eq_true, decide_eq_true_iff, decide_eq_true_iff, inv.free b]
  have real : (!pool.isNull b) = true ↔ b ≠ pool.nullBlock := by simp [BlockPool.isNull]
  rw [real]
  constructor
  · rintro ⟨unreferenced, real⟩
    rw [inv.refCnt b real] at unreferenced
    exact ⟨lt b mem, real, by omega⟩
  · rintro ⟨-, real, none⟩
    rw [inv.refCnt b real, none]
    exact ⟨rfl, real⟩

theorem countedHits_base (view : TableView) (tokens : Tokens) (hits : List Nat)
    (base : ∀ n, view.kvCacheSpec ≠ .mamba true n) : view.countedHits tokens hits =
      if view.running then [] else hits.drop (max 0 (view.skippedBlocks tokens - view.length)).toNat := by
  unfold TableView.countedHits
  split
  · exact absurd ‹_› (base _)
  · rfl

section
variable {held : Nat → Nat} (inv : pool.Inv held q) (lt : ∀ b ∈ hits, b < pool.numGpuBlocks)
  (noHits : id ∈ m.numCachedBlock → hits = [])
include inv lt noHits

theorem getNumBlocksToAllocateBase_predicts (base : ∀ n, m.kvCacheSpec ≠ .mamba true n) {numTokens : Int}
    (required : m.requiredBlocks tokens.numTokens tokens.numTokensMainModel = ceilDiv numTokens m.blockSize) :
    m.getNumBlocksToAllocateBase pool id numTokens hits tokens.total false =
      .ok ((m.view id).plannedBlocks hits.length tokens +
        (((m.view id).countedHits tokens hits).filter (· ∈ q)).length) := by
  have requiredView : (m.view id).required tokens = ceilDiv numTokens m.blockSize := required
  have runningView : (m.view id).running = true ↔ id ∈ m.numCachedBlock := decide_eq_true_iff
  have planned := (m.view id).plannedBlocks_base hits.length tokens base
  have counted := countedHits_base (m.view id) tokens hits base
  rw [planned, counted, requiredView]
  unfold getNumBlocksToAllocateBase
  dsimp only
  by_cases running : id ∈ m.numCachedBlock
  · rw [if_pos running, if_neg (not_not.mpr (noHits running)), if_pos (runningView.mpr running),
      if_pos (runningView.mpr running)]
    simp [view]
  · rw [if_neg running, if_neg (mt runningView.mp running), if_neg (mt runningView.mp running),
      getNumEvictableBlocks_eq inv fun b mem => lt b (List.mem_of_mem_drop mem)]
    rfl

/-- The prediction of one group: planned blocks and free hits, or more blocks than there are while
the last hit is not ready. -/
theorem getNumBlocksToAllocate_predicts (tokens : Tokens) :
    ∃ n m', m.getNumBlocksToAllocate pool id tokens.numTokens hits tokens.total
      tokens.numTokensMainModel false =
        .ok (n, m') ∧ (m' = m ∨ m' = m.openBlocks id) ∧ (n = (m.view id).plannedBlocks hits.length tokens +
          (((m.view id).countedHits tokens hits).filter (· ∈ q)).length ∨ n = pool.numGpuBlocks + 1) := by
  unfold getNumBlocksToAllocate
  cases spec : m.kvCacheSpec with
  | mamba al numSpeculativeBlocks =>
    dsimp only
    unfold getNumBlocksToAllocateMamba
    split
    · exact ⟨_, m, rfl, .inl rfl, .inr rfl⟩
    cases al with
    | false =>
      have required : m.requiredBlocks tokens.numTokens tokens.numTokensMainModel =
          ceilDiv (tokens.numTokens + m.blockSize * numSpeculativeBlocks) m.blockSize := by
        simp only [requiredBlocks, spec]
      have ran := getNumBlocksToAllocateBase_predicts inv lt noHits (fun n => by rw [spec]; simp) required
      exact ⟨_, m, by rw [ran]; rfl, .inl rfl, .inl rfl⟩
    | true =>
      refine ⟨_, _, rfl, .inr rfl, .inl ?_⟩
      rw [getNumEvictableBlocks_eq inv lt]
      have specView : (m.view id).kvCacheSpec = .mamba true numSpeculativeBlocks := spec
      simp only [TableView.plannedBlocks, TableView.countedHits, specView, TableView.required, requiredBlocks]
      simp [view]
  | _ =>
    have required : m.requiredBlocks tokens.numTokens tokens.numTokensMainModel =
        ceilDiv tokens.numTokens m.blockSize := by
      simp only [requiredBlocks, spec]
    have ran := getNumBlocksToAllocateBase_predicts inv lt noHits (fun n => by rw [spec]; simp) required
    exact ⟨_, m, by rw [ran]; rfl, .inl rfl, .inl rfl⟩

end

end SingleTypeKVCacheManager

end TurboQuant.Core
