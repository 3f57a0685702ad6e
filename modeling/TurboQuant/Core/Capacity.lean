import Mathlib.Algebra.BigOperators.Ring.Finset
import TurboQuant.Core.Release

/-!
`allocate_slots` decides by a predicted number of blocks whether to go on.
-/

namespace TurboQuant.Core
open Outcome Holders Shares SingleTypeKVCacheManager List Nat BlockPool

namespace KVCacheManager

/-! ### The blocks of a call -/

def tokens (kv : KVCacheManager) (args : SlotArgs) (group : ManagerConfig) : Tokens where
  total := args.numLocalComputedTokens + args.numExternalComputedTokens
  numExternal := args.numExternalComputedTokens
  attached := args.newComputedBlocks.isSome || decide (args.numExternalComputedTokens > 0)
  numTokens := if group.kvCacheSpec.isCrossAttention then args.numEncoderTokens else kv.numTokensNeedSlot args
  numTokensMainModel := kv.numTokensMainModel args

def groups (kv : KVCacheManager) (args : SlotArgs) : List (TableView × List Nat) :=
  (kv.views args.request.requestId).zip (kv.newComputedBlockList args)

def excess (kv : KVCacheManager) (args : SlotArgs) : Int :=
  ((kv.groups args).map fun (view, hits) => view.excess hits.length (kv.tokens args view.toManagerConfig)).sum

def countedHits (kv : KVCacheManager) (args : SlotArgs) (queue : List Nat) : Nat :=
  ((kv.groups args).map fun (view, hits) =>
    ((view.countedHits (kv.tokens args view.toManagerConfig) hits).filter (· ∈ queue)).length).sum

/-- A call that meets the assertions of the code, with hits that are blocks of the pool. -/
structure Admissible (kv : KVCacheManager) (args : SlotArgs) : Prop where
  tokens : 0 < args.numNewTokens ∨ 0 < args.numExternalComputedTokens
  lists : (kv.newComputedBlockList args).length = kv.singleTypeManagers.length
  hits : args.ValidHits kv.blockPool.nullBlock (kv.singleTypeManagers.map (·.toManagerConfig))
  inside : ∀ hits ∈ kv.newComputedBlockList args, ∀ b ∈ hits, b < kv.blockPool.numGpuBlocks
  cached : kv.blockPool.enableCaching = false → ∀ hits ∈ kv.newComputedBlockList args, hits = []
  asserted : ∀ group ∈ kv.groups args, group.1.Asserted group.2.length (kv.tokens args group.1.toManagerConfig)

instance (kv : KVCacheManager) (args : SlotArgs) : Decidable (kv.Admissible args) :=
  decidable_of_iff (_ ∧ _ ∧ _ ∧ _ ∧ _ ∧ _) ⟨fun ⟨tokens, lists, hits, inside, cached, asserted⟩ =>
    ⟨tokens, lists, hits, inside, cached, asserted⟩, fun h => ⟨h.tokens, h.lists, h.hits, h.inside,
      h.cached, h.asserted⟩⟩

section
variable (kv : KVCacheManager) (args : SlotArgs)

def takeBlocks : Except PoolError (List (List Nat) × KVCacheManager) := do
  let kv ← kv.attachComputedBlocks args
  kv.allocateNewBlocks args.request.requestId (kv.numTokensNeedSlot args)
    (kv.numTokensMainModel args) args.numEncoderTokens

/-- The prediction covers the blocks that are then taken from the free queue, there is never a lack
of blocks, and a refused call only releases outdated blocks. -/
structure Foreseen : Prop where
  predicted : ∀ kv₁ kv₂ kv₃ n newBlocks,
    kv.removeSkippedBlocks args.request.requestId (kv.totalComputedTokens args) = .ok kv₁ →
    kv₁.numBlocksForSlots args = .ok (n, kv₂) → n ≤ kv₂.blockPool.getNumFreeBlocks →
    kv₂.takeBlocks args = .ok (newBlocks, kv₃) →
    kv₂.blockPool.getNumFreeBlocks - kv₃.blockPool.getNumFreeBlocks ≤ n
  enough : ∀ k, kv.allocateSlots args ≠ .error (.cannotGetFreeBlocks k)
  refused : ∀ kv', kv.allocateSlots args = .ok (none, kv') →
    OnlyReleases args.request.requestId (kv.totalComputedTokens args) kv kv'

/-- Once outdated blocks are released there are enough free blocks for the prediction, and the
excess is more than the free hits that are counted but not touched. -/
def overdraws : Bool :=
  match kv.removeSkippedBlocks args.request.requestId (kv.totalComputedTokens args) with
  | .error _ => false
  | .ok kv₁ =>
    match kv₁.numBlocksForSlots args, kv₁.blockPool.freeBlockQueue.getAllFreeBlocks with
    | .ok (numBlocksToAllocate, _), .ok queue =>
      decide (numBlocksToAllocate ≤ queue.length ∧
        (kv.countedHits args queue : Int) < kv.excess args + touched queue (kv.claims args))
    | _, _ => false

end

variable {kv kv' : KVCacheManager} {queue qs q : List Nat} {args : SlotArgs}

/-! ### States with the same views -/

theorem groups_congr (cfg : kv'.config = kv.config)
    (views : kv'.views args.request.requestId = kv.views args.request.requestId) :
    kv'.groups args = kv.groups args := by
  rw [groups, groups, views, newComputedBlockList_config cfg]

theorem tokens_congr (cfg : kv'.config = kv.config) (group : ManagerConfig) :
    kv'.tokens args group = kv.tokens args group := by
  have len : kv'.maxModelLen = kv.maxModelLen := congrArg Config.maxModelLen cfg
  simp only [tokens, numTokensNeedSlot, numTokensMainModel, totalComputedTokens, len]

theorem Admissible.congr (admissible : kv.Admissible args) (cfg : kv'.config = kv.config)
    (views : kv'.views args.request.requestId = kv.views args.request.requestId) : kv'.Admissible args := by
  have p : kv'.blockPool.toPoolConfig = kv.blockPool.toPoolConfig := congrArg Config.pool cfg
  have configs : kv'.singleTypeManagers.map (·.toManagerConfig) =
      kv.singleTypeManagers.map (·.toManagerConfig) :=
    congrArg Config.groups cfg
  have length : kv'.singleTypeManagers.length = kv.singleTypeManagers.length := by
    simpa using congrArg length configs
  refine ⟨admissible.tokens, ?_, ?_, ?_, ?_, ?_⟩
  · rw [newComputedBlockList_config cfg, length]
    exact admissible.lists
  · rw [p, configs]
    exact admissible.hits
  · rw [newComputedBlockList_config cfg, p]
    exact admissible.inside
  · rw [newComputedBlockList_config cfg, p]
    exact admissible.cached
  · rw [groups_congr cfg views]
    simp only [tokens_congr cfg]
    exact admissible.asserted

theorem map_groups {γ : Type} (kv : KVCacheManager) (args : SlotArgs) (f : TableView → List Nat → γ) :
    (kv.groups args).map (fun g => f g.1 g.2) =
      zipWith (fun m hits => f (m.view args.request.requestId) hits) kv.singleTypeManagers
        (kv.newComputedBlockList args) := by
  rw [groups, views, zip, map_zipWith, zipWith_map_left]

theorem claims_eq (kv : KVCacheManager) (args : SlotArgs) : kv.claims args = (kv.groups args).map fun g =>
      (g.2.drop (g.1.skippedBlocks (kv.tokens args g.1.toManagerConfig)).toNat,
        g.1.externalBlocks g.2.length (kv.tokens args g.1.toManagerConfig)) := by
  rw [map_groups kv args fun v hits => (hits.drop (v.skippedBlocks (kv.tokens args v.toManagerConfig)).toNat,
    v.externalBlocks hits.length (kv.tokens args v.toManagerConfig)), claims]
  congr 1
  funext m hits
  exact Prod.ext rfl (newExternalBlocks_eq m args.request.requestId hits (kv.tokens args m.toManagerConfig))

theorem claims_congr (args : SlotArgs) (cfg : kv'.config = kv.config)
    (views : kv'.views args.request.requestId = kv.views args.request.requestId) :
    kv'.claims args = kv.claims args := by
  rw [claims_eq, claims_eq, groups_congr cfg views]
  simp only [tokens_congr cfg]

/-! ### The prediction -/

variable {i : Nat} {m : SingleTypeKVCacheManager} {hits : List Nat}

theorem group_at (at_ : kv.singleTypeManagers[i]? = some m)
    (here : (kv.newComputedBlockList args)[i]? = some hits) :
    (m.view args.request.requestId, hits) ∈ kv.groups args := by
  refine mem_of_getElem? (i := i) ?_
  rw [groups, getElem?_zip_eq_some]
  exact ⟨by simp [views, at_], here⟩

theorem Admissible.hits_at (admissible : kv.Admissible args)
    (at_ : kv.singleTypeManagers[i]? = some m) : ∃ hits, (kv.newComputedBlockList args)[i]? = some hits := by
  have inside := (List.getElem_of_getElem? at_).1
  rw [← admissible.lists] at inside
  exact ⟨_, List.getElem?_eq_getElem inside⟩

theorem newComputedBlockList_unattached
    (idle : (kv.tokens args m.toManagerConfig).attached = false)
    (here : (kv.newComputedBlockList args)[i]? = some hits) :
    hits = [] ∧ args.numExternalComputedTokens = 0 := by
  simp only [tokens, Bool.or_eq_false_iff, decide_eq_false_iff_not, Option.isSome_eq_false_iff,
    Option.isNone_iff_eq_none] at idle
  rw [newComputedBlockList, idle.1, Option.getD_none, getElem?_replicate] at here
  split at here
  · cases here
    exact ⟨rfl, by omega⟩
  · cases here

theorem Inv.accepts (inv : kv.Inv q) (admissible : kv.Admissible args)
    (at_ : kv.singleTypeManagers[i]? = some m) (here : (kv.newComputedBlockList args)[i]? = some hits) :
    (m.view args.request.requestId).Accepts hits.length (kv.tokens args m.toManagerConfig) := by
  refine ⟨admissible.asserted _ (group_at at_ here), fun idle => ?_, fun n spec alloc => ?_⟩
  · obtain ⟨none, zero⟩ := newComputedBlockList_unattached idle here
    exact ⟨by rw [none]; rfl, by simp [tokens, zero]⟩
  · exact (inv.managers m (mem_of_getElem? at_)).speculative true n spec _ (of_decide_eq_true alloc)

def PredictRound (kv : KVCacheManager) (args : SlotArgs) : Round Int := fun i q m n m' q' =>
  CountRound args.request.requestId i q m n m' q' ∧ ∃ hits, (kv.newComputedBlockList args)[i]? = some hits ∧
    let view := m.view args.request.requestId
    let tokens := kv.tokens args m.toManagerConfig
    0 ≤ view.plannedBlocks hits.length tokens ∧
      (n = view.plannedBlocks hits.length tokens + ((view.countedHits tokens hits).filter (· ∈ q)).length ∨
        n = kv.blockPool.numGpuBlocks + 1)

theorem plannedBlocks_cross {v : TableView} (cross : v.kvCacheSpec.isCrossAttention = true)
    {numHits : Nat} (tokens : Tokens)
    (total numTokensMainModel : Int) : v.plannedBlocks numHits tokens =
      v.plannedBlocks numHits { tokens with total := total, numTokensMainModel := numTokensMainModel } := by
  cases spec : v.kvCacheSpec with
  | crossAttention =>
    simp only [TableView.plannedBlocks, TableView.required, TableView.skippedBlocks,
      ManagerConfig.requiredBlocks, KVCacheSpec.getNumSkippedTokens, spec]
  | _ =>
    rw [spec] at cross
    cases cross

def plannedBlocks (kv : KVCacheManager) (args : SlotArgs) : Int :=
  ((kv.groups args).map fun (view, hits) =>
    view.plannedBlocks hits.length (kv.tokens args view.toManagerConfig)).sum

variable {α : Type}

theorem drop_eq_cons {xs : List α} {x : α} (at_ : xs[i]? = some x) : xs.drop i = x :: xs.drop (i + 1) := by
  obtain ⟨lt, rfl⟩ := List.getElem_of_getElem? at_
  exact List.drop_eq_getElem_cons lt

variable {ms : List SingleTypeKVCacheManager}
  {ms' : List SingleTypeKVCacheManager} {q' : List Nat}

theorem predict_sum {counts : List Int}
    (walk : Walk (PredictRound kv args) i q ms counts ms' q') :
    0 ≤ counts.sum ∧ (counts.sum = (zipWith (fun m hits =>
        (m.view args.request.requestId).plannedBlocks hits.length (kv.tokens args m.toManagerConfig) +
          ((((m.view args.request.requestId).countedHits (kv.tokens args m.toManagerConfig)
            hits).filter (· ∈ q)).length : Int))
        ms ((kv.newComputedBlockList args).drop i)).sum ∨ kv.blockPool.numGpuBlocks < counts.sum) := by
  induction walk with
  | nil => exact ⟨le_rfl, .inl rfl⟩
  | cons first later ih =>
    obtain ⟨⟨rfl, -⟩, hits, here, nonneg, count⟩ := first
    obtain ⟨nonneg', sum⟩ := ih
    rw [drop_eq_cons here, zipWith_cons_cons, sum_cons, sum_cons]
    refine ⟨by omega, ?_⟩
    rcases count with count | count
    · rcases sum with sum | sum
      · exact .inl (by rw [count, sum])
      · exact .inr (by omega)
    · exact .inr (by omega)

theorem computedBlocksAt_ok {lists : List (List Nat)} (here : lists[i]? = some hits) :
    computedBlocksAt lists i = .ok hits := by
  rw [computedBlocksAt, here]

def predictGroup (kv : KVCacheManager) (args : SlotArgs) (i : Nat) (m : SingleTypeKVCacheManager)
    (pool : BlockPool) : Except PoolError (Int × SingleTypeKVCacheManager × BlockPool) :=
  if m.kvCacheSpec.isCrossAttention then
    (m.getNumBlocksToAllocate pool args.request.requestId args.numEncoderTokens [] 0
      args.numEncoderTokens false).map fun (n, m) => (n, m, pool)
  else do
    let hits ← computedBlocksAt (kv.newComputedBlockList args) i
    (m.getNumBlocksToAllocate pool args.request.requestId (kv.numTokensNeedSlot args) hits
      (args.numLocalComputedTokens + args.numExternalComputedTokens : Nat)
        (kv.numTokensMainModel args) false).map
      fun (n, m) => (n, m, pool)

theorem numBlocksForSlots_eq (kv : KVCacheManager) (args : SlotArgs) :
    kv.numBlocksForSlots args = (kv.forEach (kv.predictGroup args)).map fun (counts, kv) =>
      (counts.sum, kv) := rfl

theorem Inv.predictGroup (inv : kv.Inv qs) (admissible : kv.Admissible args)
    (at_ : kv.singleTypeManagers[i]? = some m) {held : Nat → Nat} {p : BlockPool} (before : p.Inv held q)
    (same : p.toPoolConfig = kv.blockPool.toPoolConfig) :
    ∃ n m', kv.predictGroup args i m p = .ok (n, m', p) ∧ PredictRound kv args i q m n m' q := by
  obtain ⟨hits, here⟩ := admissible.hits_at at_
  have accepts := inv.accepts admissible at_ here
  have noHits : m.kvCacheSpec.isCrossAttention = true ∨ args.request.requestId ∈ m.numCachedBlock →
    hits = [] := fun skip =>
    eq_nil_of_length_eq_zero (accepts.asserted.1 (skip.imp_right decide_eq_true))
  have lt : ∀ b ∈ hits, b < p.numGpuBlocks := fun b mem => by
    rw [same]
    exact admissible.inside hits (mem_of_getElem? here) b mem
  have size : (p.numGpuBlocks : Int) = kv.blockPool.numGpuBlocks := by rw [same]
  unfold KVCacheManager.predictGroup
  by_cases cross : m.kvCacheSpec.isCrossAttention = true
  · have none := noHits (.inl cross)
    subst none
    have numTokens : (kv.tokens args m.toManagerConfig).numTokens = args.numEncoderTokens := if_pos cross
    obtain ⟨n, m', ran, e, count⟩ := getNumBlocksToAllocate_predicts before lt
      (fun (_ : args.request.requestId ∈ m.numCachedBlock) =>
        rfl) { kv.tokens args m.toManagerConfig with total := 0, numTokensMainModel := args.numEncoderTokens }
    rw [← plannedBlocks_cross cross, size] at count
    simp only [numTokens] at ran
    rw [if_pos cross, ran]
    refine ⟨n, m', rfl, ⟨rfl, e⟩, [], here, accepts.plannedBlocks_nonneg, ?_⟩
    have noCount : ∀ tokens, (m.view args.request.requestId).countedHits tokens [] = [] := fun tokens => by
      unfold TableView.countedHits
      split
      · rfl
      · simp
    rw [noCount] at count ⊢
    exact count
  · have numTokens : (kv.tokens args m.toManagerConfig).numTokens = kv.numTokensNeedSlot args := if_neg cross
    obtain ⟨n, m', ran, e, count⟩ := getNumBlocksToAllocate_predicts before lt
      (fun running => noHits (.inr running)) (kv.tokens args m.toManagerConfig)
    rw [size] at count
    rw [numTokens] at ran
    rw [if_neg cross, computedBlocksAt_ok here, cast_add]
    exact ⟨n, m', congrArg (Except.map _) ran, ⟨rfl, e⟩, hits, here, accepts.plannedBlocks_nonneg, count⟩

theorem Inv.numBlocksForSlots_total (inv : kv.Inv queue) (admissible : kv.Admissible args) :
    ∃ n kv' counts, kv.numBlocksForSlots args = .ok (n, kv') ∧ kv'.Inv queue ∧ kv'.config = kv.config ∧
      kv'.blockPool = kv.blockPool ∧
      Walk (CountRound args.request.requestId) 0 queue kv.singleTypeManagers counts
        kv'.singleTypeManagers queue ∧
      (n = kv.plannedBlocks args + kv.countedHits args queue ∨ kv.blockPool.numGpuBlocks < n) := by
  rw [numBlocksForSlots_eq]
  rcases inv.forEach_total (PredictRound kv args) (fun _ _ _ _ => False) _
    (fun i m at_ frame p q same before wf => by
      obtain ⟨n, m', ran, round⟩ := inv.predictGroup admissible at_ before same
      exact .inl ⟨n, m', p, q, [], [], args.request.requestId, ran,
        countManager_effect before (same ▸ wf) round.1.2, round⟩) with
    ⟨counts, kv', q', ran, inv', cfg, walk⟩ | ⟨e, -, halts⟩
  · have sameQueue : q' = queue := walk.state_eq fun _ _ _ _ _ _ round => round.1.1
    subst sameQueue
    refine ⟨counts.sum, kv', counts, by rw [ran]; rfl, inv', cfg, ?_, walk.imp fun _ _ _ _ _ _ round => round.1, ?_⟩
    · obtain ⟨⟨_, managers, pool⟩, inner, res⟩ := map_ok ran
      cases res
      refine forEach_relates (fun pool pool' => pool' = pool) (fun _ => rfl)
        (fun _ _ _ first second => second.trans first)
        (fun i m p n m' p' ranOp => ?_) inner
      unfold KVCacheManager.predictGroup at ranOp
      split at ranOp
      · obtain ⟨_, -, res⟩ := map_ok ranOp
        cases res
        rfl
      · obtain ⟨_, -, ranOp⟩ := bind_ok ranOp
        obtain ⟨_, -, res⟩ := map_ok ranOp
        cases res
        rfl
    · refine (predict_sum walk).2.imp_left fun sum => ?_
      refine (sum.trans (congrArg List.sum (map_groups kv args fun v hits =>
        v.plannedBlocks hits.length (kv.tokens args v.toManagerConfig) +
          (((v.countedHits (kv.tokens args v.toManagerConfig) hits).filter (· ∈ q')).length :
            Int)).symm)).trans ?_
      rw [List.sum_map_add]
      simp only [plannedBlocks, countedHits, cast_list_sum, List.map_map, Function.comp_def]
  · exact (halts.error (p := fun _ => False) fun _ _ _ _ stop => stop).elim

/-! ### Taking blocks -/

def takenBlocks (kv : KVCacheManager) (args : SlotArgs) : Nat :=
  ((kv.groups args).map fun (view, hits) => view.externalBlocks hits.length
    (kv.tokens args view.toManagerConfig) +
    view.newBlocks hits.length (kv.tokens args view.toManagerConfig)).sum

theorem Inv.takenBlocks_eq (inv : kv.Inv q) (admissible : kv.Admissible args) :
    (kv.takenBlocks args : Int) = kv.plannedBlocks args + kv.excess args := by
  have each : ∀ g ∈ kv.groups args, (g.1.externalBlocks g.2.length
      (kv.tokens args g.1.toManagerConfig) : Int) +
      g.1.newBlocks g.2.length (kv.tokens args g.1.toManagerConfig) =
      g.1.plannedBlocks g.2.length (kv.tokens args g.1.toManagerConfig) +
        g.1.excess g.2.length (kv.tokens args g.1.toManagerConfig) := fun g mem => by
    obtain ⟨i, at_⟩ := mem_iff_getElem?.mp mem
    obtain ⟨atView, here⟩ := getElem?_zip_eq_some.mp at_
    rw [views, getElem?_map, Option.map_eq_some_iff] at atView
    obtain ⟨m, at_, same⟩ := atView
    have accepts := inv.accepts admissible at_ here
    rw [same] at accepts
    rw [← same] at accepts ⊢
    exact accepts.taken_eq
  rw [takenBlocks, plannedBlocks, excess, ← sum_map_add, cast_list_sum, map_map]
  refine congrArg sum (map_congr_left fun g mem => ?_)
  rw [Function.comp_apply, cast_add]
  exact each g mem

def newBlockCount (kv : KVCacheManager) (args : SlotArgs) (m : SingleTypeKVCacheManager) : Nat :=
  m.newBlockCount (decide (args.request.requestId ∈ m.allocatedBlockReqs))
    (m.getBlocks args.request.requestId).length
    (kv.tokens args m.toManagerConfig).numTokens (kv.tokens args m.toManagerConfig).numTokensMainModel

def AttachDraw (kv : KVCacheManager) (args : SlotArgs) : Round Unit := fun i q m _ m' q' =>
  ∃ hits, (kv.newComputedBlockList args)[i]? = some hits ∧
    let claim := m.claim args.request.requestId args.numLocalComputedTokens args.numExternalComputedTokens hits
    claim.2 ≤ (q.filter (· ∉ claim.1)).length ∧ q' = (q.filter (· ∉ claim.1)).drop claim.2 ∧
      kv.newBlockCount args m' = (m.view args.request.requestId).newBlocks hits.length
        (kv.tokens args m.toManagerConfig) ∧
      ∀ n, m'.kvCacheSpec = .mamba true n → ((m'.getBlocks args.request.requestId).length : Int) ≤
        m'.requiredBlocks (kv.tokens args m'.toManagerConfig).numTokens
          (kv.tokens args m'.toManagerConfig).numTokensMainModel

def AttachShort (kv : KVCacheManager) (args : SlotArgs) (i : Nat) (q : List Nat)
    (m : SingleTypeKVCacheManager) (e : PoolError) : Prop :=
  ∃ hits, (kv.newComputedBlockList args)[i]? = some hits ∧
    let claim := m.claim args.request.requestId args.numLocalComputedTokens args.numExternalComputedTokens hits
    (q.filter (· ∉ claim.1)).length < claim.2 ∧ ∃ k, e = .cannotGetFreeBlocks k

section
variable (kv args) (ms : List SingleTypeKVCacheManager) (i : Nat)

def claimsFrom : List (List Nat × Nat) :=
  zipWith (fun m hits => m.claim args.request.requestId args.numLocalComputedTokens
    args.numExternalComputedTokens hits) ms ((kv.newComputedBlockList args).drop i)

def newBlocksFrom : List Nat :=
  zipWith (fun m hits => (m.view args.request.requestId).newBlocks hits.length
    (kv.tokens args m.toManagerConfig)) ms ((kv.newComputedBlockList args).drop i)

end

theorem AttachDraw.served {results : List Unit}
    (walk : Walk (AttachDraw kv args) i q ms results ms' q') :
    Serves q (kv.claimsFrom args ms i) ∧ q' = leftover q (kv.claimsFrom args ms i) ∧
      ms'.map (kv.newBlockCount args) = kv.newBlocksFrom args ms i := by
  induction walk with
  | nil => exact ⟨trivial, rfl, rfl⟩
  | cons first later ih =>
    obtain ⟨hits, here, enough, rfl, count, -⟩ := first
    obtain ⟨serves, left, counts⟩ := ih
    unfold claimsFrom newBlocksFrom
    rw [drop_eq_cons here, zipWith_cons_cons, zipWith_cons_cons, map_cons, count, counts]
    exact ⟨⟨enough, serves⟩, left, rfl⟩

variable {e : PoolError}

theorem AttachShort.not_serves
    (halts : Halts (AttachDraw kv args) (kv.AttachShort args) i q ms e) :
    ¬ Serves q (kv.claimsFrom args ms i) := by
  induction halts with
  | here stop =>
    obtain ⟨hits, here, short, -⟩ := stop
    unfold claimsFrom
    rw [drop_eq_cons here, zipWith_cons_cons]
    exact fun serves => not_le.mpr short serves.1
  | later first later ih =>
    obtain ⟨hits, here, enough, rfl, -⟩ := first
    unfold claimsFrom
    rw [drop_eq_cons here, zipWith_cons_cons]
    exact fun serves => ih serves.2

theorem Inv.attachDraw (inv : kv.Inv qs) (admissible : kv.Admissible args) {m' : SingleTypeKVCacheManager}
    (at_ : kv.singleTypeManagers[i]? = some m) (here : (kv.newComputedBlockList args)[i]? = some hits)
    (cfg : m'.toManagerConfig = m.toManagerConfig) (alloc : m'.allocatedBlockReqs = m.allocatedBlockReqs)
    (length : (m'.getBlocks args.request.requestId).length =
      (m.view args.request.requestId).tableLength hits.length (kv.tokens args m.toManagerConfig))
    (enough : (m.claim args.request.requestId args.numLocalComputedTokens
      args.numExternalComputedTokens hits).2 ≤
      (q.filter (· ∉ (m.claim args.request.requestId args.numLocalComputedTokens
        args.numExternalComputedTokens hits).1)).length) :
    AttachDraw kv args i q m () m' ((q.filter (· ∉ (m.claim args.request.requestId args.numLocalComputedTokens
      args.numExternalComputedTokens hits).1)).drop
        (m.claim args.request.requestId args.numLocalComputedTokens args.numExternalComputedTokens
          hits).2) := by
  have accepts := inv.accepts admissible at_ here
  refine ⟨hits, here, enough, rfl, ?_, fun n spec => ?_⟩
  · rw [newBlockCount, TableView.newBlocks, cfg, alloc, length]
    rfl
  · rw [length, cfg]
    refine accepts.asserted.2.2 ?_
    change m.kvCacheSpec.isAlign = true
    rw [← cfg, spec]
    rfl

def attachGroup (kv : KVCacheManager) (args : SlotArgs) (i : Nat) (m : SingleTypeKVCacheManager)
    (pool : BlockPool) : Except PoolError (Unit × SingleTypeKVCacheManager × BlockPool) := do
  let hits ← computedBlocksAt (kv.newComputedBlockList args) i
  (m.allocateNewComputedBlocks pool args.request.requestId hits args.numLocalComputedTokens
    args.numExternalComputedTokens).map (Prod.mk ())

theorem Inv.attachGroup_settles (inv : kv.Inv qs) (admissible : kv.Admissible args)
    (attached : ∀ g, (kv.tokens args g).attached = true) (at_ : kv.singleTypeManagers[i]? = some m) :
    Settles kv.blockPool.toPoolConfig m (kv.attachGroup args i m) (fun q => AttachDraw kv args i q m)
      fun q => kv.AttachShort args i q m := by
  intro frame p q same before wf
  obtain ⟨hits, here⟩ := admissible.hits_at at_
  have accepts := inv.accepts admissible at_ here
  have member := mem_of_getElem? here
  obtain ⟨nodup, covered⟩ := validHits_at admissible.hits at_ here
  have draws := allocateNewComputedBlocks_draws before covered
    (fun b isHit _ => by rw [same]; exact admissible.inside hits member b isHit)
    (fun off => admissible.cached (same ▸ off) hits member)
    (fun (skip : _ ∨ args.request.requestId ∈ _) =>
      eq_nil_of_length_eq_zero (accepts.asserted.1 (skip.imp_right decide_eq_true)))
    (by
      by_contra fresh
      rw [not_or, not_or] at fresh
      refine fresh.2.2 (eq_nil_of_length_eq_zero (accepts.asserted.2.1 ⟨attached _, ?_,
        decide_eq_false fresh.2.1⟩))
      exact Bool.eq_false_iff.mpr fresh.1)
  unfold attachGroup
  rw [computedBlocksAt_ok here]
  rcases draws.cases with ⟨enough, ⟨m', pool'⟩, ran⟩ | ⟨short, failed⟩
  · obtain ⟨effect, length⟩ := allocateNewComputedBlocks_effect before (same ▸ wf) (same ▸ nodup) covered ran
    obtain ⟨alloc, -⟩ := allocateNewComputedBlocks_empty ran
    have lengthEq := m.attachedLength_eq args.request.requestId hits (attached m.toManagerConfig)
    exact .inl ⟨(), m', pool', _, _, _, _, congrArg (Except.map (Prod.mk ())) ran, effect,
      inv.attachDraw admissible at_ here effect.moves.config alloc (length.trans lengthEq) enough⟩
  · exact .inr ⟨_, congrArg (Except.map (Prod.mk ())) failed, hits, here, short, _, rfl⟩

theorem Inv.attachComputedBlocks_total (inv : kv.Inv qs) (admissible : kv.Admissible args) :
    (∃ kv' q' results, kv.attachComputedBlocks args = .ok kv' ∧ kv'.Inv q' ∧ kv'.config = kv.config ∧
      Walk (AttachDraw kv args) 0 qs kv.singleTypeManagers results kv'.singleTypeManagers q') ∨
    ∃ k, kv.attachComputedBlocks args = .error (.cannotGetFreeBlocks k) ∧ ¬ Serves qs (kv.claims args) := by
  unfold KVCacheManager.attachComputedBlocks
  by_cases attached : args.newComputedBlocks.isSome = true ∨ args.numExternalComputedTokens > 0
  · rw [if_pos attached]
    rcases inv.forEach_total (AttachDraw kv args) (kv.AttachShort args) _
        (fun i m at_ => inv.attachGroup_settles admissible
        (fun g => by simpa [tokens] using attached) at_) with
      ⟨results, kv', q', loop, inv', cfg, walk⟩ | ⟨e, failed, halts⟩
    · exact .inl ⟨kv', q', results, congrArg (Except.map Prod.snd) loop, inv', cfg, walk⟩
    · obtain ⟨k, rfl⟩ := halts.error (p := fun e => ∃ k, e = .cannotGetFreeBlocks k)
        fun _ _ _ _ ⟨_, _, _, stop⟩ => stop
      exact .inr ⟨k, congrArg (Except.map Prod.snd) failed, AttachShort.not_serves halts⟩
  · rw [if_neg attached]
    have idle : ∀ g, (kv.tokens args g).attached = false := fun g => by
      rw [← Bool.not_eq_true]
      simpa [tokens] using attached
    refine .inl ⟨kv, qs, _, rfl, inv, rfl, Walk.idle () fun i m at_ => ?_⟩
    rw [zero_add]
    obtain ⟨hits, here⟩ := admissible.hits_at at_
    obtain ⟨none, zero⟩ := newComputedBlockList_unattached (idle m.toManagerConfig) here
    subst none
    have claim : m.claim args.request.requestId args.numLocalComputedTokens
        args.numExternalComputedTokens [] = ([], 0) := by
      refine Prod.ext (drop_nil) ?_
      refine (newExternalBlocks_eq m args.request.requestId [] (kv.tokens args m.toManagerConfig)).trans ?_
      exact (inv.accepts admissible at_ here).externalBlocks_eq_zero fun attaches =>
        Bool.noConfusion (attaches.1.symm.trans (idle m.toManagerConfig))
    have draw := inv.attachDraw admissible at_ here (q := qs) rfl rfl (if_neg fun attaches =>
      Bool.noConfusion (attaches.1.symm.trans (idle m.toManagerConfig))).symm (by rw [claim]; exact zero_le _)
    simpa [claim] using draw

def NewDraw (kv : KVCacheManager) (args : SlotArgs) : Round (List Nat) := fun _ q m _ _ q' =>
  kv.newBlockCount args m ≤ q.length ∧ q' = q.drop (kv.newBlockCount args m)

def NewShort (kv : KVCacheManager) (args : SlotArgs) (_ : Nat) (q : List Nat)
    (m : SingleTypeKVCacheManager) (e : PoolError) : Prop :=
  q.length < kv.newBlockCount args m ∧ ∃ k, e = .cannotGetFreeBlocks k

theorem NewDraw.length {results : List (List Nat)}
    (walk : Walk (NewDraw kv args) i q ms results ms' q') :
    q'.length + (ms.map (kv.newBlockCount args)).sum = q.length := by
  induction walk with
  | nil => rfl
  | cons first later ih =>
    obtain ⟨enough, rfl⟩ := first
    rw [length_drop] at ih
    rw [map_cons, sum_cons]
    omega

theorem NewShort.length
    (halts : Halts (NewDraw kv args) (kv.NewShort args) i q ms e) :
    q.length < (ms.map (kv.newBlockCount args)).sum := by
  induction halts with
  | here stop =>
    rw [map_cons, sum_cons]
    exact Nat.lt_add_right _ stop.1
  | later first later ih =>
    obtain ⟨enough, rfl⟩ := first
    rw [length_drop] at ih
    rw [map_cons, sum_cons]
    omega

theorem Inv.allocateNewBlocks_total (inv : kv.Inv qs) (args : SlotArgs)
    (fits : ∀ m ∈ kv.singleTypeManagers, ∀ n, m.kvCacheSpec = .mamba true n →
      ((m.getBlocks args.request.requestId).length : Int) ≤
        m.requiredBlocks (kv.tokens args m.toManagerConfig).numTokens
        (kv.tokens args m.toManagerConfig).numTokensMainModel) :
    (∃ bs' kv' q', kv.allocateNewBlocks args.request.requestId (kv.numTokensNeedSlot args)
        (kv.numTokensMainModel args) args.numEncoderTokens = .ok (bs', kv') ∧ kv'.Inv q' ∧
          kv'.config = kv.config ∧
      q'.length + (kv.singleTypeManagers.map (kv.newBlockCount args)).sum = qs.length) ∨
    ∃ k, kv.allocateNewBlocks args.request.requestId (kv.numTokensNeedSlot args) (kv.numTokensMainModel args)
        args.numEncoderTokens = .error (.cannotGetFreeBlocks k) ∧
      qs.length < (kv.singleTypeManagers.map (kv.newBlockCount args)).sum := by
  rcases inv.forEach_total (NewDraw kv args) (kv.NewShort args)
        (fun _ m pool => m.allocateNewBlocks pool args.request.requestId
        (if m.kvCacheSpec.isCrossAttention then args.numEncoderTokens
          else kv.numTokensNeedSlot args) (kv.numTokensMainModel args))
      (fun i m at_ frame pool q same before wf => by
        have draws := allocateNewBlocks_draws before (same ▸ wf) (fits m (mem_of_getElem? at_))
        rcases draws.cases with ⟨enough, ⟨bs', m', pool'⟩, ran⟩ | ⟨short, failed⟩
        · obtain ⟨effect, -⟩ := allocateNewBlocks_effect before (same ▸ wf) (Int.natCast_nonneg _) ran
          exact .inl ⟨bs', m', pool', _, _, _, _, ran, effect, enough, rfl⟩
        · exact .inr ⟨_, failed, short, _, rfl⟩) with
    ⟨bs', kv', q', loop, inv', cfg, walk⟩ | ⟨e, failed, halts⟩
  · exact .inl ⟨bs', kv', q', loop, inv', cfg, NewDraw.length walk⟩
  · obtain ⟨k, rfl⟩ := halts.error (p := fun e => ∃ k, e = .cannotGetFreeBlocks k) fun _ _ _ _ stop => stop.2
    exact .inr ⟨k, failed, NewShort.length halts⟩

theorem takenBlocks_split (kv : KVCacheManager) (args : SlotArgs) :
    kv.takenBlocks args = ((kv.claims args).map Prod.snd).sum +
      (kv.newBlocksFrom args kv.singleTypeManagers 0).sum := by
  have fresh : kv.newBlocksFrom args kv.singleTypeManagers 0 = (kv.groups args).map fun g =>
      g.1.newBlocks g.2.length (kv.tokens args g.1.toManagerConfig) :=
    (map_groups kv args fun v hits => v.newBlocks hits.length (kv.tokens args v.toManagerConfig)).symm
  rw [fresh, claims_eq, map_map, ← sum_map_add]
  rfl

theorem newBlockCount_congr (cfg : kv'.config = kv.config) :
    kv'.newBlockCount args = kv.newBlockCount args := by
  funext m
  rw [newBlockCount, tokens_congr cfg]
  rfl

theorem Inv.takeBlocks_total (inv : kv.Inv q) (admissible : kv.Admissible args) :
    (∃ bs' kv' q', kv.takeBlocks args = .ok (bs', kv') ∧ kv'.Inv q' ∧
      q'.length + (touched q (kv.claims args) + kv.takenBlocks args) = q.length) ∨
    ∃ k, kv.takeBlocks args = .error (.cannotGetFreeBlocks k) ∧
      q.length < touched q (kv.claims args) + kv.takenBlocks args := by
  unfold takeBlocks
  rw [takenBlocks_split]
  rcases inv.attachComputedBlocks_total admissible with ⟨kv₁, queue₁, results, attached, inv₁,
    config₁, walk⟩ | ⟨k, failed, short⟩
  · obtain ⟨serves, rfl, counts⟩ := AttachDraw.served walk
    have left : _ = q.length := length_leftover serves
    change _ + touched q (kv.claims args) + ((kv.claims args).map Prod.snd).sum = _ at left
    rw [attached]
    rw [← counts, ← newBlockCount_congr config₁]
    refine (inv₁.allocateNewBlocks_total args fun m₁ isManager n spec => ?_).imp ?_ ?_
    · obtain ⟨j, at_⟩ := mem_iff_getElem?.mp isManager
      obtain ⟨m, _, _, _, -, -, hits, -, -, -, -, fits⟩ := walk.get at_
      rw [tokens_congr config₁]
      exact fits n spec
    · rintro ⟨bs', kv₂, queue₂, ran, inv₂, -, length⟩
      exact ⟨bs', kv₂, queue₂, ran, inv₂, by omega⟩
    · rintro ⟨k, ran, length⟩
      exact ⟨k, ran, by omega⟩
  · refine .inr ⟨k, by rw [failed]; rfl, ?_⟩
    have less := lt_of_not_serves short
    omega

/-! ### Caching takes no blocks -/

def NeverShort {α : Type} (op : Except PoolError α) : Prop := ∀ k, op ≠ .error (.cannotGetFreeBlocks k)

theorem NeverShort.ok (a : α) : NeverShort (.ok a) := nofun

variable {β : Type}

theorem NeverShort.bind {op : Except PoolError α} {f : α → Except PoolError β} (first : NeverShort op)
    (later : ∀ a, NeverShort (f a)) : NeverShort (op >>= f) := by
  cases op with
  | ok a => exact later a
  | error e => exact fun k failed => first k (congrArg Except.error (Except.error.inj failed))

theorem NeverShort.map {op : Except PoolError α} (never : NeverShort op) (f : α → β) :
    NeverShort (op.map f) := by
  cases op with
  | ok a => exact .ok _
  | error e => exact fun k failed => never k (congrArg Except.error (Except.error.inj failed))

theorem NeverShort.foldlM {ι σ : Type} {step : σ → ι → Except PoolError σ}
    (each : ∀ s x, NeverShort (step s x))
    (xs : List ι) (s : σ) : NeverShort (xs.foldlM step s) := by
  induction xs generalizing s with
  | nil => exact .ok s
  | cons x rest ih =>
    rw [foldlM_cons]
    exact (each s x).bind ih

theorem NeverShort.forEach {κ σ α : Type} {op : Nat → κ → σ → Except PoolError (α × κ × σ)}
    (each : ∀ i holder resource, NeverShort (op i holder resource)) (holders : List κ) (i : Nat)
    (resource : σ) :
    NeverShort (Holders.forEach op i holders resource) := by
  induction holders generalizing i resource with
  | nil => exact .ok _
  | cons holder rest ih => exact (each i holder resource).bind fun _ => (ih _ _).bind fun _ => .ok _

theorem cacheFullBlocks_neverShort (p : BlockPool) (hashes : List BlockHash) (blocks : List Nat)
    (cached full n groupId : Nat) : NeverShort (p.cacheFullBlocks hashes blocks cached full n groupId) := by
  have cacheBlock : ∀ p e, NeverShort (cacheBlock groupId p e) := fun p e => by
    unfold cacheBlock
    dsimp only
    split
    · exact .ok _
    · split
      · exact nofun
      · split
        · exact nofun
        · exact .ok _
  unfold cacheFullBlocks
  split
  · exact .ok _
  · split
    · exact nofun
    · split
      · exact nofun
      · exact .foldlM cacheBlock _ _

theorem coordinatorCacheBlocks_neverShort (kv : KVCacheManager) (req : CacheRequest) (computed : Nat) :
    NeverShort (kv.coordinatorCacheBlocks req computed) := by
  have base : ∀ (m : SingleTypeKVCacheManager) (p : BlockPool),
      NeverShort (m.cacheBlocksBase p req.requestId req.blockHashes computed) := fun m p => by
    unfold cacheBlocksBase
    dsimp only
    split
    · exact .ok _
    · exact NeverShort.bind (cacheFullBlocks_neverShort _ _ _ _ _ _ _) fun _ => .ok _
  refine (NeverShort.map (.forEach (fun _ m p => .map ?_ _) _ _ _) _).map _
  unfold SingleTypeKVCacheManager.cacheBlocks
  split
  · exact nofun
  · exact (base m p).bind fun _ => .ok _
  · exact base m p

theorem takeSlots_eq (kv : KVCacheManager) (args : SlotArgs) :
    kv.takeSlots args = kv.takeBlocks args >>= fun taken =>
      if !taken.2.blockPool.enableCaching ∨ args.delayCacheBlocks then .ok taken
      else (taken.2.coordinatorCacheBlocks args.request
        (min (taken.2.totalComputedTokens args + args.numNewTokens) args.request.numTokens)).map
          (taken.1, ·) := by
  unfold takeSlots takeBlocks
  rw [bind_assoc]

/-! ### The whole call -/

theorem Inv.length_le (inv : kv.Inv q) : q.length ≤ kv.blockPool.numGpuBlocks := by
  have subset : q ⊆ range kv.blockPool.numGpuBlocks := fun b mem =>
    mem_range.mpr ((inv.pool.free b).mp mem).1
  simpa using (inv.pool.represents.nodup.subperm subset).length_le

theorem Inv.takeSlots_neverShort_iff (inv : kv.Inv q) (admissible : kv.Admissible args) :
    NeverShort (kv.takeSlots args) ↔ touched q (kv.claims args) + kv.takenBlocks args ≤ q.length := by
  rw [takeSlots_eq]
  rcases inv.takeBlocks_total admissible with ⟨bs', kv', q', ran, -, length⟩ | ⟨k, failed, short⟩
  · refine ⟨fun _ => by omega, fun _ => ?_⟩
    rw [ran]
    change NeverShort (if _ then _ else _)
    split
    · exact .ok _
    · exact NeverShort.map (coordinatorCacheBlocks_neverShort _ _ _) _
  · rw [failed]
    exact ⟨fun never => absurd rfl (never k), fun enough => absurd enough (by omega)⟩

theorem counts_congr (queue : List Nat) (cfg : kv'.config = kv.config)
    (views : kv'.views args.request.requestId = kv.views args.request.requestId) :
    kv'.plannedBlocks args = kv.plannedBlocks args ∧ kv'.excess args = kv.excess args ∧
      kv'.countedHits args queue = kv.countedHits args queue := by
  simp only [plannedBlocks, excess, countedHits, groups_congr cfg views, tokens_congr cfg, and_self]

structure Prepared (kv : KVCacheManager) (args : SlotArgs) (kv₁ kv₂ : KVCacheManager)
    (queue : List Nat) (n : Int) : Prop where
  skipped : kv.removeSkippedBlocks args.request.requestId (kv.totalComputedTokens args) = .ok kv₁
  counted : kv₁.numBlocksForSlots args = .ok (n, kv₂)
  inv : kv₂.Inv queue
  free : kv₁.blockPool.freeBlockQueue.getAllFreeBlocks = .ok queue
  config : kv₂.config = kv.config
  views : kv₂.views args.request.requestId = kv.views args.request.requestId
  released : OnlyReleases args.request.requestId (kv.totalComputedTokens args) kv kv₂
  prediction : n = kv.plannedBlocks args + kv.countedHits args queue ∨ queue.length < n

theorem Inv.prepared (inv : kv.Inv q) (admissible : kv.Admissible args) :
    (∃ kv₁ kv₂ q' n, kv.Prepared args kv₁ kv₂ q' n) ∨
      kv.removeSkippedBlocks args.request.requestId (kv.totalComputedTokens args) =
        .error .indexOutOfRange := by
  refine (inv.removeSkippedBlocks_total args.request.requestId (kv.totalComputedTokens args)).imp_left ?_
  rintro ⟨kv₁, queue₁, skipped, inv₁, config₁, views₁, released⟩
  obtain ⟨n, kv₂, counts, counted, inv₂, config₂, samePool, walk, prediction⟩ :=
    inv₁.numBlocksForSlots_total (admissible.congr config₁ views₁)
  obtain ⟨released, views₂⟩ := released.trans_count samePool walk
  obtain ⟨planned, -, hits⟩ := counts_congr queue₁ config₁ views₁
  have size := inv₁.length_le
  rw [planned, hits] at prediction
  exact ⟨kv₁, kv₂, queue₁, n, skipped, counted, inv₂, inv₁.pool.represents.getAllFreeBlocks,
    config₂.trans config₁, views₂.trans views₁, released, prediction.imp_right fun more => by omega⟩

section
variable {kv₁ kv₂ : KVCacheManager} {n : Int}

section
variable (prepared : kv.Prepared args kv₁ kv₂ q n)
include prepared

theorem Prepared.allocateSlots_eq (admissible : kv.Admissible args) :
    kv.allocateSlots args = if n > q.length then .ok (none, kv₂)
      else (kv₂.takeSlots args).map fun (bs', kv) => (some bs', kv) := by
  have free : kv₂.blockPool.getNumFreeBlocks = q.length := prepared.inv.pool.represents.count
  rw [allocateSlots, if_neg (by have := admissible.tokens; omega), prepared.skipped]
  change (kv₁.numBlocksForSlots args >>= _) = _
  rw [prepared.counted, ← free]
  rfl

theorem Prepared.overdraws_eq : kv.overdraws args = decide (n ≤ q.length ∧
      (kv.countedHits args q : Int) < kv.excess args + touched q (kv.claims args)) := by
  unfold overdraws
  rw [prepared.skipped]
  simp only [prepared.counted, prepared.free]

section
variable (admissible : kv.Admissible args)
include admissible

theorem Prepared.foreseen_of_few (few : q.length < n) : kv.Foreseen args := by
  have ran := prepared.allocateSlots_eq admissible
  have free : kv₂.blockPool.getNumFreeBlocks = q.length := prepared.inv.pool.represents.count
  rw [if_pos few] at ran
  refine ⟨fun kv₁' kv₂' kv₃ n' bs' skipped counted enough => ?_, fun k failed => ?_, fun kv' refused => ?_⟩
  · rw [prepared.skipped] at skipped
    cases skipped
    rw [prepared.counted] at counted
    cases counted
    omega
  · rw [ran] at failed
    cases failed
  · rw [ran] at refused
    cases refused
    exact prepared.released

theorem Prepared.taken_cases :
    (NeverShort (kv₂.takeSlots args) ∧ ∃ bs' kv₃ q', kv₂.takeBlocks args = .ok (bs', kv₃) ∧ kv₃.Inv q' ∧
      (q'.length : Int) + (touched q (kv.claims args) + kv.plannedBlocks args + kv.excess args) = q.length) ∨
    (¬ NeverShort (kv₂.takeSlots args) ∧
      (q.length : Int) < touched q (kv.claims args) + kv.plannedBlocks args + kv.excess args) := by
  have admissible₂ := admissible.congr prepared.config prepared.views
  obtain ⟨planned, excess, -⟩ := counts_congr q prepared.config prepared.views
  have total := prepared.inv.takenBlocks_eq admissible₂
  have claims := claims_congr args prepared.config prepared.views
  have short := prepared.inv.takeSlots_neverShort_iff admissible₂
  rcases prepared.inv.takeBlocks_total admissible₂ with ⟨bs', kv₃, queue₃, took, inv₃, length⟩ | ⟨k, -, lack⟩
  · rw [claims] at length short
    exact .inl ⟨short.mpr (by omega), bs', kv₃, queue₃, took, inv₃, by omega⟩
  · rw [claims] at lack short
    exact .inr ⟨fun never => absurd (short.mp never) (by omega), by omega⟩

theorem Prepared.foreseen_iff (enough : n ≤ q.length) :
    kv.Foreseen args ↔ touched q (kv.claims args) + kv.plannedBlocks args + kv.excess args ≤ n := by
  have ran := prepared.allocateSlots_eq admissible
  have free : kv₂.blockPool.getNumFreeBlocks = q.length := prepared.inv.pool.represents.count
  rw [if_neg (by omega)] at ran
  constructor
  · intro foreseen
    rcases prepared.taken_cases admissible with ⟨-, bs', kv₃, queue₃, took, inv₃, length⟩ | ⟨short, -⟩
    · have bound := foreseen.predicted kv₁ kv₂ kv₃ n bs' prepared.skipped prepared.counted (by omega) took
      rw [free, getNumFreeBlocks, inv₃.pool.represents.count] at bound
      omega
    · exact absurd (fun k failed => foreseen.enough k (by rw [ran, failed]; rfl)) short
  · intro covered
    obtain ⟨never, taken, kv₃, queue₃, took, inv₃, length⟩ | ⟨-, lack⟩ := prepared.taken_cases admissible
    · refine ⟨fun kv₁' kv₂' kv₃' n' bs' skipped counted _ took' => ?_, fun k failed => ?_,
        fun kv' refused => ?_⟩
      · rw [prepared.skipped] at skipped
        cases skipped
        rw [prepared.counted] at counted
        cases counted
        rw [took] at took'
        cases took'
        rw [free, getNumFreeBlocks, inv₃.pool.represents.count]
        omega
      · rw [ran] at failed
        exact NeverShort.map never _ k failed
      · rw [ran] at refused
        obtain ⟨_, -, res⟩ := map_ok refused
        cases res
    · omega

end

end

end

/-- The prediction of a call is enough exactly if the groups do not overdraw it. -/
theorem allocateSlots_foreseen_iff (inv : kv.Inv queue) (admissible : kv.Admissible args) :
    kv.Foreseen args ↔ kv.overdraws args = false := by
  rcases inv.prepared admissible with ⟨kv₁, kv₂, queue', n, prepared⟩ | failed
  · rw [prepared.overdraws_eq, decide_eq_false_iff_not]
    by_cases few : queue'.length < n
    · exact ⟨fun _ both => absurd both.1 (by omega), fun _ => prepared.foreseen_of_few admissible few⟩
    · have count := prepared.prediction.resolve_right few
      rw [prepared.foreseen_iff admissible (by omega)]
      omega
  · have ran : kv.allocateSlots args = .error .indexOutOfRange := by
      rw [allocateSlots, if_neg (by have := admissible.tokens; omega), failed]
      rfl
    have condition : kv.overdraws args = false := by
      unfold overdraws
      rw [failed]
    refine ⟨fun _ => condition, fun _ => ⟨fun kv₁ _ _ _ _ skipped => ?_, fun k short => ?_,
      fun kv' refused => ?_⟩⟩
    · rw [failed] at skipped
      cases skipped
    · rw [ran] at short
      cases short
    · rw [ran] at refused
      cases refused

theorem allocateSlots_foreseen_spare_block :
    ∃ kv, (new 16 6 true 2 twoGroups >>= (·.run comeAndGo)) = .ok kv ∧ kv.Foreseen hitAndLoad := by
  have ran : (new 16 6 true 2 twoGroups >>= fun kv => (kv.run comeAndGo).map fun kv =>
      (decide (kv.Admissible hitAndLoad), kv.overdraws hitAndLoad)) = .ok (true, false) := rfl
  obtain ⟨kv₀, made, ran⟩ := bind_ok ran
  obtain ⟨kv, before, facts⟩ := map_ok ran
  rw [Prod.mk.injEq, decide_eq_true_eq] at facts
  obtain ⟨config₀, inv₀⟩ := new_inv made
  obtain ⟨queue, inv, -⟩ := inv₀.run (by rw [config₀]; decide) before
  exact ⟨kv, by rw [made]; exact before, (allocateSlots_foreseen_iff inv facts.1).mpr facts.2⟩

def alignGroup (numSpeculativeBlocks blockSize : Nat) (positive : 0 < blockSize)
    (kvCacheGroupId : Nat) : ManagerConfig :=
  ⟨.mamba true numSpeculativeBlocks, blockSize, positive, kvCacheGroupId, none⟩

def loadAndCompute : SlotArgs where
  request := ⟨"a", 8, 0, [[1], [2]]⟩
  numNewTokens := 4
  numExternalComputedTokens := 4

/-- One block is predicted for the state of a Mamba request, and one more is taken for its external
tokens. -/
theorem allocateSlots_lacks_block : ∃ kv, new 16 2 true 4 [alignGroup 0 4 (by decide) 0] = .ok kv ∧
    (∃ kv', kv.numBlocksForSlots loadAndCompute = .ok (1, kv')) ∧ kv.blockPool.getNumFreeBlocks = 1 ∧
    kv.Admissible loadAndCompute ∧ kv.allocateSlots loadAndCompute = .error (.cannotGetFreeBlocks 1) ∧
    ¬ kv.Foreseen loadAndCompute := by
  have made : (new 16 2 true 4 [alignGroup 0 4 (by decide) 0]).map (fun kv =>
      ((kv.numBlocksForSlots loadAndCompute).map Prod.fst, kv.blockPool.getNumFreeBlocks,
        decide (kv.Admissible loadAndCompute), (kv.allocateSlots loadAndCompute).map Prod.fst)) =
      .ok (.ok 1, 1, true, .error (.cannotGetFreeBlocks 1)) := rfl
  obtain ⟨kv, made, facts⟩ := map_ok made
  simp only [Prod.mk.injEq, decide_eq_true_eq] at facts
  obtain ⟨predicted, free, admissible, failed⟩ := facts
  obtain ⟨⟨_, kv'⟩, counted, rfl⟩ := map_ok predicted
  have lack := map_error failed
  exact ⟨kv, made, ⟨kv', counted⟩, free, admissible, lack, fun foreseen => foreseen.enough 1 lack⟩

end KVCacheManager

end TurboQuant.Core
