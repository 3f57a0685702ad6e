import TurboQuant.Core.AlignedSplit
import TurboQuant.Core.Release

/-!
How the recompute scheduler takes a request from the waiting queue on a decode node with drafts, and
what it counts as computed when a remote load is complete.
-/

namespace TurboQuant.Ascend.Recompute
open TurboQuant.Core Outcome List Nat
open KVCacheManager (fullGroup)

inductive AdmissionError where
  | assertion
  deriving DecidableEq, Repr

structure WaitingRequest extends TokenCounts where
  specTokenIds : List Int
  numOutputPlaceholders : Nat

/-- What the caches and the connector have of a request without computed tokens. -/
structure Found where
  numNewLocalComputedTokens : Nat
  numExternalComputedTokens : Nat
  loadKvAsync : Bool

structure Pass where
  tokenBudget : Nat
  longPrefillTokenThreshold : Nat
  enableChunkedPrefill : Bool
  /-- As many tokens as the encoder inputs of the request leave. -/
  encoderTokens : Option Nat
  alignedSplit : Option SplitConfig

inductive Admission where
  | postponed
  | loading
  | scheduled (numNewTokens numComputedTokens : Nat) (specTokenIds : List Int)

def cutToThreshold (threshold n : Nat) : Nat := if 0 < threshold ∧ threshold < n then threshold else n

namespace WaitingRequest
variable (r : WaitingRequest) (found : Found)

/-- A request that has computed tokens is not looked up again. -/
def lookedUp : Found := if r.numComputedTokens = 0 then found else ⟨0, 0, false⟩

/-- The local variable `num_computed_tokens`, which has the hits. -/
def startTokens : Nat :=
  if r.numComputedTokens = 0 then found.numNewLocalComputedTokens + found.numExternalComputedTokens
  else r.numComputedTokens

/-- The entry in `scheduled_spec_decode_tokens`, from the counter of the request. -/
def scheduledSpecTokens (numNewTokens : Nat) : List Int :=
  r.specTokenIds.take (numNewTokens + r.numComputedTokens - r.numTokens - r.numOutputPlaceholders)

end WaitingRequest

namespace Pass
variable (pass : Pass) (r : WaitingRequest) (found : Found)

def wantedTokens : Nat :=
  cutToThreshold pass.longPrefillTokenThreshold (r.numTokens + r.specTokenIds.length - r.startTokens found)

def leftTokens : Nat :=
  pass.encoderTokens.elim (min (pass.wantedTokens r found) pass.tokenBudget)
    (min (min (pass.wantedTokens r found) pass.tokenBudget))

def split (n : Nat) : Except AdmissionError Nat :=
  match pass.alignedSplit with
  | none => .ok n
  | some c =>
    (c.mambaBlockAlignedSplit r.toTokenCounts n (r.lookedUp found).numNewLocalComputedTokens
      (r.lookedUp found).numExternalComputedTokens).mapError fun _ => .assertion

/-- `schedule` for one request of the waiting queue, with `is_mtp_kv_consumer`. -/
def schedule : Except AdmissionError Admission :=
  if r.numComputedTokens = 0 ∧ r.numTokens < r.startTokens found then .error .assertion
  else if (r.lookedUp found).loadKvAsync then
    if (r.lookedUp found).numExternalComputedTokens = 0 ∨ pass.alignedSplit.isSome
    then .error .assertion else .ok .loading
  else if !pass.enableChunkedPrefill ∧ pass.tokenBudget < pass.wantedTokens r found then .ok .postponed
  else if min (pass.wantedTokens r found) pass.tokenBudget = 0 then .error .assertion
  else if pass.leftTokens r found = 0 then .ok .postponed
  else do
    let numNewTokens ← pass.split r found (pass.leftTokens r found)
    if numNewTokens = 0 then .ok .postponed
    else .ok (.scheduled numNewTokens (r.startTokens found) (r.scheduledSpecTokens numNewTokens))

/-- A limit keeps the request within its known tokens: budget, threshold, encoder inputs or the last
cacheable position of a Mamba state. -/
def Limited : Prop :=
  pass.tokenBudget ≤ r.numTokens - r.startTokens found ∨
  0 < pass.longPrefillTokenThreshold ∧ pass.longPrefillTokenThreshold ≤ r.numTokens - r.startTokens found ∨
  (∃ n ∈ pass.encoderTokens, n ≤ r.numTokens - r.startTokens found) ∨
  ∃ c ∈ pass.alignedSplit, r.inPrefill (r.startTokens found) ∧
    r.startTokens found < c.lastCachePosition r.toTokenCounts

variable {pass r found}

theorem split_spec {left n : Nat} (ran : pass.split r found left = .ok n) :
    n ≤ left ∧ (r.startTokens found + n ≤ r.numTokens ↔ r.startTokens found + left ≤ r.numTokens ∨
      ∃ c ∈ pass.alignedSplit,
      r.inPrefill (r.startTokens found) ∧ r.startTokens found < c.lastCachePosition r.toTokenCounts) := by
  have sum : r.numComputedTokens + (r.lookedUp found).numNewLocalComputedTokens +
      (r.lookedUp found).numExternalComputedTokens = r.startTokens found := by
    unfold WaitingRequest.lookedUp WaitingRequest.startTokens
    split <;> simp only [*, zero_add, add_zero]
  unfold split at ran
  cases chosen : pass.alignedSplit with
  | none =>
    rw [chosen] at ran
    cases ran
    simp
  | some c =>
    simp only [chosen] at ran
    have last := c.lastCachePosition_le r.toTokenCounts
    cases outcome : c.mambaBlockAlignedSplit r.toTokenCounts left (r.lookedUp found).numNewLocalComputedTokens
      (r.lookedUp found).numExternalComputedTokens with
    | error => rw [outcome] at ran; cases ran
    | ok m =>
      rw [outcome] at ran
      cases ran
      have none := (SplitConfig.split_cases rfl outcome).1
      rw [none, add_zero] at sum
      simp only [Option.mem_def, Option.some.injEq, exists_eq_left']
      rcases (SplitConfig.split_cases sum outcome).2 with ⟨short, rfl⟩ | ⟨prefilling, before, eq,
        less⟩ | ⟨rfl, reached⟩
      · have floor := div_mul_le_self left c.blockSize
        exact ⟨floor, by omega⟩
      · have le : r.startTokens found + n ≤ r.numTokens := eq.trans_le last
        exact ⟨less, iff_of_true le (.inr ⟨prefilling, before⟩)⟩
      · refine ⟨le_refl _, .inl, ?_⟩
        rintro (le | ⟨prefilling, before⟩)
        · exact le
        · exact (reached prefilling before).trans_le last

theorem leftTokens_spec (some : 0 < pass.leftTokens r found) :
    r.startTokens found + pass.leftTokens r found ≤ r.numTokens + r.specTokenIds.length ∧
      (r.startTokens found + pass.leftTokens r found ≤ r.numTokens ↔ r.specTokenIds = [] ∨
        pass.tokenBudget ≤ r.numTokens - r.startTokens found ∨
        0 < pass.longPrefillTokenThreshold ∧
          pass.longPrefillTokenThreshold ≤ r.numTokens - r.startTokens found ∨
        ∃ n ∈ pass.encoderTokens, n ≤ r.numTokens - r.startTokens found) := by
  have wanted : pass.wantedTokens r found = pass.longPrefillTokenThreshold ∧
      0 < pass.longPrefillTokenThreshold ∧
      pass.longPrefillTokenThreshold < r.numTokens + r.specTokenIds.length - r.startTokens found ∨
      pass.wantedTokens r found = r.numTokens + r.specTokenIds.length - r.startTokens found ∧
      (0 < pass.longPrefillTokenThreshold →
        r.numTokens + r.specTokenIds.length - r.startTokens found ≤ pass.longPrefillTokenThreshold) := by
    unfold wantedTokens cutToThreshold
    split
    · rename_i cut
      exact .inl ⟨rfl, cut⟩
    · exact .inr ⟨rfl, by omega⟩
  have none : r.specTokenIds = [] ↔ r.specTokenIds.length = 0 := length_eq_zero_iff.symm
  rw [none]
  unfold leftTokens at some ⊢
  cases encoder : pass.encoderTokens with
  | none =>
    simp only [encoder, Option.elim, Option.mem_def, reduceCtorEq, false_and, exists_false, or_false] at some ⊢
    omega
  | some n =>
    simp only [encoder, Option.elim, Option.mem_def, Option.some.injEq, exists_eq_left'] at some ⊢
    omega

section
variable {n start : Nat} {drafts : List Int} (ran : pass.schedule r found = .ok (.scheduled n start drafts))
include ran

theorem scheduled_eq : start = r.startTokens found ∧ drafts = r.scheduledSpecTokens n ∧ 0 < n ∧
      start + n ≤ r.numTokens + r.specTokenIds.length ∧
      (start + n ≤ r.numTokens ↔ r.specTokenIds = [] ∨ pass.Limited r found) := by
  unfold schedule at ran
  split at ran
  · cases ran
  split at ran
  · split at ran <;> cases ran
  split at ran
  · cases ran
  split at ran
  · cases ran
  split at ran
  · cases ran
  rename_i kept
  obtain ⟨m, ranSplit, ran⟩ := bind_ok ran
  split at ran
  · cases ran
  rename_i some
  cases ran
  obtain ⟨less, limited⟩ := split_spec ranSplit
  obtain ⟨within, left⟩ := leftTokens_spec (pos_of_ne_zero kept)
  refine ⟨rfl, rfl, pos_of_ne_zero some, by omega, ?_⟩
  rw [limited, left, Limited]
  simp only [or_assoc]

/-- As many drafts are recorded as positions are scheduled behind the known tokens, exactly if there
are no drafts, a limit keeps the request within its tokens, or its counter is what the step starts
from. -/
theorem scheduled_drafts_iff : start + n - r.numTokens = drafts.length ↔ r.specTokenIds = [] ∨
      pass.Limited r found ∨ r.numOutputPlaceholders = 0 ∧
        (r.numComputedTokens ≠ 0 ∨ found.numNewLocalComputedTokens + found.numExternalComputedTokens = 0) := by
  obtain ⟨rfl, rfl, some, within, limited⟩ := scheduled_eq ran
  have same : r.startTokens found = r.numComputedTokens ↔
      r.numComputedTokens ≠ 0 ∨ found.numNewLocalComputedTokens + found.numExternalComputedTokens = 0 := by
    unfold WaitingRequest.startTokens
    split <;> omega
  rw [← or_assoc, ← limited, ← same, WaitingRequest.scheduledSpecTokens, length_take]
  omega

end

def unlimited : Pass := ⟨100, 0, true, none, none⟩

def draftsOfDecodeNode (numComputedTokens : Nat) : WaitingRequest := ⟨⟨5, 5, numComputedTokens⟩, [-1, -1], 0⟩

theorem scheduled_drafts_resumed : unlimited.schedule (draftsOfDecodeNode 4) ⟨0, 0, false⟩ =
    .ok (.scheduled 3 4 [-1, -1]) ∧ 4 + 3 - 5 = [(-1 : Int), -1].length := by
  have ran : unlimited.schedule (draftsOfDecodeNode 4) ⟨0, 0, false⟩ = .ok (.scheduled 3 4 [-1, -1]) := rfl
  exact ⟨ran, (scheduled_drafts_iff ran).mpr (.inr (.inr ⟨rfl, .inl (by decide)⟩))⟩

/-- With four tokens found in the local cache, two positions behind the known tokens are scheduled
and no draft is recorded for them. -/
theorem scheduled_drafts_local_hit : unlimited.schedule (draftsOfDecodeNode 0) ⟨4, 0, false⟩ =
    .ok (.scheduled 3 4 []) ∧ 4 + 3 - 5 ≠ ([] : List Int).length :=
  ⟨rfl, by decide⟩

end Pass

/-! ### After a remote load -/

/-- The call of `allocate_slots` for a request whose tokens are loaded asynchronously. -/
def loadArgs (request : CacheRequest) (found : Found) (newComputedBlocks : List (List Nat)) : SlotArgs where
  request := request
  numNewTokens := 0
  numNewComputedTokens := found.numNewLocalComputedTokens
  newComputedBlocks := some newComputedBlocks
  numExternalComputedTokens := found.numExternalComputedTokens
  delayCacheBlocks := true

def Found.promised (found : Found) : Nat := found.numNewLocalComputedTokens + found.numExternalComputedTokens

/-- The tokens that count as computed after a load that did not fail. -/
def loadedTokens (kv : KVCacheManager) (blockSize : Nat) (request : CacheRequest) : Nat :=
  let blockIds := kv.singleTypeManagers.map (·.getBlocks request.requestId)
  let numComputedTokens := match blockIds with
    | [blocks] => min (blocks.length * blockSize) request.numTokens
    | _ => request.numTokens
  -- the last token of the prompt is computed again
  if numComputedTokens = request.numTokens then numComputedTokens - 1 else numComputedTokens

/-- `_update_waiting_for_remote_kv` -/
def updateWaitingForRemoteKv (kv : KVCacheManager) (blockSize : Nat) (request : CacheRequest) (failed : Bool) :
    Except PoolError (CacheRequest × KVCacheManager) :=
  if failed then
    if request.numComputedTokens ≠ 0 then (kv.cacheBlocks request request.numComputedTokens).map (request, ·)
    else (kv.free request.requestId).map (request, ·)
  else
    let numComputedTokens := loadedTokens kv blockSize request
    (kv.cacheBlocks request numComputedTokens).map ({ request with numComputedTokens := numComputedTokens }, ·)

section
open KVCacheManager SingleTypeKVCacheManager Holders

variable {kv kv' : KVCacheManager} {queue : List Nat} {m : SingleTypeKVCacheManager}
  {request : CacheRequest} {found : Found} {hits : List (List Nat)}

theorem attachedLength_le (m : SingleTypeKVCacheManager) {id : String} {computed : List Nat}
    {total external : Int}
    (nonneg : 0 ≤ total) (covered : (computed.length * m.blockSize : Int) ≤ total)
    (empty : m.getBlocks id = []) :
    (m.attachedLength id computed total external : Int) ≤ ceilDiv total m.blockSize := by
  have room := numExternalBlocks_nonneg m computed total nonneg covered
  unfold attachedLength newExternalBlocks
  rw [empty]
  unfold numExternalBlocks at room ⊢
  split
  · simp only [length_nil, cast_zero]
    exact ceilDiv_nonneg nonneg (by exact_mod_cast m.positive)
  · split <;> push_cast <;> omega

section
variable {args : SlotArgs} (inv : kv.Inv queue)
  (valid : args.ValidHits kv.config.pool.nullBlock kv.config.groups)
  (external : 0 < args.numExternalComputedTokens) (empty : ∀ m ∈ kv.singleTypeManagers,
    m.getBlocks args.request.requestId = [])
include inv valid external empty

theorem attach_length (ran : kv.attachComputedBlocks args = .ok kv') :
    kv.Walked (α := Unit) (fun _ _ m _ m' _ => m'.toManagerConfig = m.toManagerConfig ∧
      ((m'.getBlocks args.request.requestId).length : Int) ≤
        ceilDiv (args.numLocalComputedTokens + args.numExternalComputedTokens) m.blockSize) queue kv' := by
  rw [attachComputedBlocks, if_pos (.inr external)] at ran
  refine inv.forEach_map _ (fun i m at_ frame p q _ m' p' same before wf ranOp => ?_) ran
  obtain ⟨computed, looked, ranOp⟩ := bind_ok ranOp
  obtain ⟨⟨_, _⟩, ranOp, res⟩ := map_ok ranOp
  cases res
  have here : (kv.newComputedBlockList args)[i]? = some computed := by
    unfold computedBlocksAt at looked
    split at looked
    · cases looked
    rename_i here
    cases looked
    exact here
  obtain ⟨nodup, covered⟩ := validHits_at valid at_ here
  obtain ⟨effect, length⟩ := allocateNewComputedBlocks_effect before (same ▸ wf) (same ▸ nodup) covered ranOp
  refine ⟨_, _, _, _, effect, effect.moves.config, ?_⟩
  rw [length]
  exact attachedLength_le m (by omega) (by exact_mod_cast covered) (empty m (mem_of_getElem? at_))

theorem takeSlots_length (delayed : args.delayCacheBlocks = true)
    (decoder : ∀ g ∈ kv.config.groups, g.kvCacheSpec.isCrossAttention = false) {newBlocks : List (List Nat)}
    (ran : kv.takeSlots args = .ok (newBlocks, kv')) {m' : SingleTypeKVCacheManager}
    (mem : m' ∈ kv'.singleTypeManagers) :
    let required := m'.requiredBlocks (kv.numTokensNeedSlot args) (kv.numTokensMainModel args)
    required ≤ (m'.getBlocks args.request.requestId).length ∧
      ((m'.getBlocks args.request.requestId).length : Int) ≤
      max (ceilDiv (args.numLocalComputedTokens + args.numExternalComputedTokens) m'.blockSize) required := by
  obtain ⟨kv₁, attached, ran⟩ := bind_ok ran
  obtain ⟨queue₁, _, inv₁, config₁, walk₁⟩ := attach_length inv valid external empty attached
  obtain ⟨⟨_, kv₂⟩, grown, ran⟩ := bind_ok ran
  dsimp only at ran
  rw [if_pos (.inr delayed)] at ran
  cases ran
  obtain ⟨_, -, -, walk₂⟩ := inv₁.forEach (fun _ _ m _ m' _ => m'.toManagerConfig = m.toManagerConfig ∧
      let required := m.requiredBlocks (kv₁.numTokensNeedSlot args) (kv₁.numTokensMainModel args)
      required ≤ (m'.getBlocks args.request.requestId).length ∧
        ((m'.getBlocks args.request.requestId).length : Int) ≤
        max ((m.getBlocks args.request.requestId).length : Int) required)
    (fun i m at_ frame p q _ m' p' same before wf ranOp => by
      have own : m.kvCacheSpec.isCrossAttention = false :=
        decoder m.toManagerConfig (config₁ ▸ mem_map_of_mem (mem_of_getElem? at_))
      rw [own, if_neg Bool.false_ne_true] at ranOp
      obtain ⟨effect, enough, most, -⟩ := allocateNewBlocks_effect before (same ▸ wf)
        (Int.natCast_nonneg _) ranOp
      exact ⟨_, _, _, _, effect, effect.moves.config, enough, most⟩) grown
  obtain ⟨j, at_⟩ := getElem?_of_mem mem
  obtain ⟨m₁, _, _, _, at₁, -, same₁, enough, most⟩ := walk₂.get at_
  obtain ⟨m, _, _, _, -, -, same, length⟩ := walk₁.get at₁
  have len : kv₁.maxModelLen = kv.maxModelLen := congrArg Config.maxModelLen config₁
  simp only [numTokensNeedSlot, numTokensMainModel, totalComputedTokens, len] at enough most ⊢
  rw [← same, ← same₁] at length
  rw [← same₁] at enough most
  exact ⟨enough, by omega⟩

end

def speculativeBlocks : KVCacheSpec → Nat
  | .mamba _ numSpeculativeBlocks => numSpeculativeBlocks
  | _ => 0

theorem requiredBlocks_eq (g : ManagerConfig) (n : Int) :
    g.requiredBlocks n n = ceilDiv n g.blockSize + speculativeBlocks g.kvCacheSpec := by
  have pos : (g.blockSize : Int) ≠ 0 := by exact_mod_cast g.positive.ne'
  unfold ManagerConfig.requiredBlocks speculativeBlocks
  cases g.kvCacheSpec with
  | mamba align extra =>
    cases align with
    | true => rfl
    | false =>
      simp only [ceilDiv]
      rw [neg_add, ← mul_neg, Int.add_mul_ediv_left _ _ pos]
      omega
  | _ => simp

/-- A request that is admitted for an asynchronous load: nothing of it is computed or held yet. -/
structure Awaits (kv : KVCacheManager) (request : CacheRequest) (found : Found)
    (hits : List (List Nat)) : Prop where
  valid : (loadArgs request found hits).ValidHits kv.config.pool.nullBlock kv.config.groups
  decoder : ∀ g ∈ kv.config.groups, g.kvCacheSpec.isCrossAttention = false
  external : 0 < found.numExternalComputedTokens
  start : request.numComputedTokens = 0
  within : found.promised ≤ kv.maxModelLen
  empty : ∀ m ∈ kv.singleTypeManagers, m.getBlocks request.requestId = []

variable {newBlocks : List (List Nat)}

theorem Awaits.blocks (awaits : Awaits kv request found hits) (inv : kv.Inv queue)
    (ran : kv.allocateSlots (loadArgs request found hits) = .ok (some newBlocks, kv')) :
    kv'.config = kv.config ∧ ∀ m' ∈ kv'.singleTypeManagers, ((m'.getBlocks request.requestId).length : Int) =
      ceilDiv found.promised m'.blockSize + speculativeBlocks m'.kvCacheSpec := by
  obtain ⟨_, -, config'⟩ := inv.allocateSlots awaits.valid ran
  refine ⟨config', fun m' mem => ?_⟩
  rw [KVCacheManager.allocateSlots, if_neg fun none => absurd none.2 awaits.external.ne'] at ran
  obtain ⟨kv₁, skipped, ran⟩ := bind_ok ran
  obtain ⟨⟨n, kv₂⟩, counted, ran⟩ := bind_ok ran
  obtain ⟨_, queue₁, skipped', inv₁, config₁, views₁, -⟩ | failed :=
    inv.removeSkippedBlocks_total request.requestId (kv.totalComputedTokens (loadArgs request found hits))
  · cases skipped.symm.trans skipped'
    obtain ⟨queue₂, _, inv₂, config₂, walk⟩ := inv₁.getNumBlocksToAllocate counted
    have views₂ : kv₂.views request.requestId = kv₁.views request.requestId :=
      walk.map_eq fun _ _ m _ m' _ round => by
        rcases round.2 with rfl | rfl
        · rfl
        · exact view_openBlocks m _
    have config := config₂.trans config₁
    dsimp only at ran
    split at ran
    · cases ran
    obtain ⟨⟨_, _⟩, taken, res⟩ := map_ok ran
    cases res
    have unused : ∀ m₂ ∈ kv₂.singleTypeManagers, m₂.getBlocks request.requestId = [] := by
      intro m₂ mem
      have known : m₂.view request.requestId ∈ kv.views request.requestId :=
        (views₂.trans views₁) ▸ mem_map_of_mem mem
      obtain ⟨m, mem, view⟩ := mem_map.mp known
      have length := congrArg TableView.length view
      simp only [SingleTypeKVCacheManager.view, awaits.empty m mem] at length
      exact length_eq_zero_iff.mp length.symm
    obtain ⟨enough, most⟩ :=
      takeSlots_length inv₂ (config ▸ awaits.valid) awaits.external unused rfl
        (config ▸ awaits.decoder) taken mem
    have len : kv₂.maxModelLen = kv.maxModelLen := congrArg Config.maxModelLen config
    have all : (loadArgs request found hits).numLocalComputedTokens +
        (loadArgs request found hits).numExternalComputedTokens = found.promised := by
      simp only [SlotArgs.numLocalComputedTokens, loadArgs, awaits.start, zero_add, Found.promised]
    have slots : kv₂.numTokensNeedSlot (loadArgs request found hits) = found.promised ∧
        kv₂.numTokensMainModel (loadArgs request found hits) = found.promised := by
      have within := awaits.within
      simp only [numTokensNeedSlot, numTokensMainModel, totalComputedTokens, all, len]
      simp only [loadArgs]
      omega
    rw [slots.1, slots.2, requiredBlocks_eq] at enough most
    rw [← cast_add, all] at most
    exact le_antisymm (most.trans (by omega)) enough
  · cases skipped.symm.trans failed

/-- No more tokens count as computed than were promised, exactly if the promise has all tokens but
at most the last, or there is one cache group without speculative blocks and its block size divides
the promise. The table of the request is the one it was given for the load. -/
theorem updateWaitingForRemoteKv_promised_iff (inv : kv.Inv queue) (awaits : Awaits kv request found hits)
    (allocated : kv.allocateSlots (loadArgs request found hits) = .ok (some newBlocks, kv')) {blockSize : Nat}
    (size : ∀ g ∈ kv.config.groups, g.blockSize = blockSize) {kv₁ kv₂ : KVCacheManager}
    (kept : kv₁.singleTypeManagers.map (·.getBlocks request.requestId) =
      kv'.singleTypeManagers.map (·.getBlocks request.requestId)) {loaded : CacheRequest}
    (ran : updateWaitingForRemoteKv kv₁ blockSize { request with numComputedTokens := found.promised } false =
      .ok (loaded, kv₂)) :
    loaded.numComputedTokens ≤ found.promised ↔ request.numTokens ≤ found.promised + 1 ∨
      ∃ g, kv.config.groups = [g] ∧ speculativeBlocks g.kvCacheSpec = 0 ∧ blockSize ∣ found.promised := by
  obtain ⟨config, blocks⟩ := awaits.blocks inv allocated
  obtain ⟨_, -, same⟩ := map_ok ran
  cases same
  simp only [loadedTokens, kept, ← config]
  rw [← config] at size
  unfold KVCacheManager.config at size ⊢
  rcases managers : kv'.singleTypeManagers with _ | ⟨m, _ | ⟨m', rest⟩⟩
  · simp
  · rw [managers] at size blocks
    have length := blocks m mem_cons_self
    have own := size m.toManagerConfig mem_cons_self
    simp only [map_cons, map_nil, cons.injEq, and_true, exists_eq_left']
    rw [own] at length
    have fits : (m.getBlocks request.requestId).length * blockSize ≤ found.promised ↔
        speculativeBlocks m.kvCacheSpec = 0 ∧ blockSize ∣ found.promised := by
      have pos : 0 < blockSize := own ▸ m.positive
      have parts := Int.emod_add_mul_ediv (-found.promised : Int) blockSize
      have rest := Int.emod_nonneg (-found.promised : Int) (show (blockSize : Int) ≠ 0 by omega)
      have slots : ((m.getBlocks request.requestId).length * blockSize : Int) =
          found.promised + (-found.promised : Int) % blockSize + speculativeBlocks m.kvCacheSpec *
            blockSize := by
        rw [length, add_mul, ceilDiv, neg_mul, mul_comm (-(found.promised : Int) / blockSize)]
        omega
      have divides : blockSize ∣ found.promised ↔ (-found.promised : Int) % blockSize = 0 := by
        rw [← Int.natCast_dvd_natCast, ← Int.dvd_neg, Int.dvd_iff_emod_eq_zero]
      have none : speculativeBlocks m.kvCacheSpec = 0 ↔ speculativeBlocks m.kvCacheSpec * blockSize = 0 := by
        simp [pos.ne']
      omega
    split <;> omega
  · simp

end

def twelveTokens : CacheRequest := ⟨"a", 12, 0, [[1], [2], [3]]⟩

def newManager (group : ManagerConfig) : Except PoolError KVCacheManager :=
  KVCacheManager.new 16 10 true 4 [group]

theorem exists_loaded {n computed : Nat} (ran : (newManager (fullGroup 4 (by decide) 0) >>= fun kv =>
      kv.allocateSlots (loadArgs twelveTokens ⟨0, n, true⟩ [[]]) >>= fun allocated =>
        (updateWaitingForRemoteKv allocated.2 4 { twelveTokens with numComputedTokens := 0 + n }
          false).map fun loaded =>
          (allocated.1.isSome, loaded.1.numComputedTokens)) = .ok (true, computed)) :
    ∃ kv newBlocks kv' loaded kv₂, newManager (fullGroup 4 (by decide) 0) = .ok kv ∧
      kv.allocateSlots (loadArgs twelveTokens ⟨0, n, true⟩ [[]]) = .ok (some newBlocks, kv') ∧
      updateWaitingForRemoteKv kv' 4 { twelveTokens with numComputedTokens := 0 + n } false =
        .ok (loaded, kv₂) ∧
      loaded.numComputedTokens = computed := by
  obtain ⟨kv, made, ran⟩ := bind_ok ran
  obtain ⟨⟨result, kv'⟩, allocated, ran⟩ := bind_ok ran
  obtain ⟨⟨loaded, kv₂⟩, ran, same⟩ := map_ok ran
  obtain ⟨some, count⟩ := Prod.mk.inj same
  obtain ⟨newBlocks, rfl⟩ := Option.isSome_iff_exists.mp some
  exact ⟨kv, newBlocks, kv', loaded, kv₂, made, allocated, ran, count⟩

theorem updateWaitingForRemoteKv_two_blocks : ∃ kv newBlocks kv' loaded kv₂,
    newManager (fullGroup 4 (by decide) 0) = .ok kv ∧
    kv.allocateSlots (loadArgs twelveTokens ⟨0, 8, true⟩ [[]]) = .ok (some newBlocks, kv') ∧
    updateWaitingForRemoteKv kv' 4 { twelveTokens with numComputedTokens := 0 + 8 } false = .ok (loaded, kv₂) ∧
    loaded.numComputedTokens ≤ 8 := by
  obtain ⟨kv, newBlocks, kv', loaded, kv₂, made, allocated, ran, -⟩ := exists_loaded (n := 8) rfl
  obtain ⟨config, inv⟩ := KVCacheManager.new_inv made
  have awaits : Awaits kv twelveTokens ⟨0, 8, true⟩ [[]] :=
    { valid := by rw [config]; decide
      decoder := by rw [config]; decide
      external := by decide
      start := rfl
      within := by
        have len : kv.maxModelLen = 16 := congrArg KVCacheManager.Config.maxModelLen config
        rw [len]
        decide
      empty := by
        unfold newManager KVCacheManager.new at made
        obtain ⟨pool, -, rfl⟩ := map_ok made
        intro m mem
        cases mem_singleton.mp mem
        rfl }
  refine ⟨kv, newBlocks, kv', loaded, kv₂, made, allocated, ran, ?_⟩
  exact (updateWaitingForRemoteKv_promised_iff inv awaits allocated (by rw [config]; decide) rfl ran).mpr
    (.inr ⟨_, by rw [config], rfl, by decide⟩)

/-- After a load of five tokens eight count as computed. -/
theorem updateWaitingForRemoteKv_more_than_promised : ∃ kv newBlocks kv' loaded kv₂,
    newManager (fullGroup 4 (by decide) 0) = .ok kv ∧
    kv.allocateSlots (loadArgs twelveTokens ⟨0, 5, true⟩ [[]]) = .ok (some newBlocks, kv') ∧
    updateWaitingForRemoteKv kv' 4 { twelveTokens with numComputedTokens := 0 + 5 } false = .ok (loaded, kv₂) ∧
    loaded.numComputedTokens = 8 ∧ ¬ loaded.numComputedTokens ≤ (⟨0, 5, true⟩ : Found).promised := by
  obtain ⟨kv, newBlocks, kv', loaded, kv₂, made, allocated, ran, count⟩ := exists_loaded (n := 5) rfl
  exact ⟨kv, newBlocks, kv', loaded, kv₂, made, allocated, ran, count, by rw [count]; decide⟩

end TurboQuant.Ascend.Recompute
