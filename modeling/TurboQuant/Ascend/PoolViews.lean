import TurboQuant.Ascend.PoolScheduler
import TurboQuant.Lib.Keyed

/-!
The connector as one request sees it.
-/

namespace TurboQuant.Ascend
open TurboQuant.Core Option AList

variable {newIds : List (List Nat)} {scheduled : Nat} {e : Sigma fun _ : String => List (List Nat)}

structure ConnectorView where
  config : KVPoolConfig
  loadSpec : Option LoadSpec
  tracker : Option RequestTracker
  preempted : Bool
  blockIds : Option (List (List Nat))

structure IsEntry (loadSpec : Option LoadSpec) (blockIds : List (List Nat))
    (reqMeta : Option ReqMeta) : Prop where
  loads : ∀ m ∈ reqMeta, m.loadSpec = loadSpec.filter (·.canLoad)
  present : loadSpec.isSome → ∃ m, reqMeta = some m ∧ m.blockIdsByGroup = blockIds

theorem fromRequestTracker_cases {rid : String} {t tracker' : RequestTracker} {n : Nat}
    {spec : Option LoadSpec} {skipSave : Bool} {hs : List BlockHash} {isLastChunk : Option Bool}
    {discardPartialChunks : Bool}
    {size : Option (List Nat)} {families : List CacheFamily} {reqMeta : Option ReqMeta}
    (made : ReqMeta.fromRequestTracker rid t n spec skipSave hs isLastChunk discardPartialChunks
      size families = (reqMeta, tracker')) :
    (∀ m ∈ reqMeta, m.reqId = rid) ∧ IsEntry spec t.allocatedBlockIdsByGroup reqMeta := by
  unfold ReqMeta.fromRequestTracker at made
  extract_lets inputTokenLen chunkBoundary numTokensToSave skips at made
  by_cases nothing : (skips && spec.isNone) = true
  · rw [if_pos nothing] at made
    cases made
    rw [Bool.and_eq_true, isNone_iff_eq_none] at nothing
    refine ⟨by simp, by simp, fun given => ?_⟩
    rw [nothing.2] at given
    cases given
  · rw [if_neg nothing] at made
    obtain ⟨rfl, rfl⟩ := Prod.mk.inj made
    have kept : ∀ saved, saved = (if skips = true then t else { t with numSavedTokens := numTokensToSave }) →
        saved.allocatedBlockIdsByGroup = t.allocatedBlockIdsByGroup := by
      intro saved same
      subst same
      split <;> rfl
    refine ⟨fun m mem => ?_, fun m mem => ?_, fun _ => ⟨_, rfl, kept _ rfl⟩⟩
    · cases mem_some.mp mem
      rfl
    · cases mem_some.mp mem
      rfl

namespace KVPoolScheduler

def view (id : String) (s : KVPoolScheduler) : ConnectorView :=
  ⟨s.config, s.loadSpecs.lookup id, s.requestTrackers.lookup id, decide (id ∈ s.preemptedReqIds),
    s.unfinishedRequests.lookup id⟩

section
variable (s : KVPoolScheduler) (rid id : String) (other : id ≠ rid)
include other

theorem forgetFinished_other : view id (s.forgetFinished rid) = view id s := by
  simp [view, forgetFinished, other, lookup_erase_ne]

theorem notePreempted_other : view id (s.notePreempted rid) = view id s := by
  simp [view, notePreempted, other, lookup_erase_ne]

end

theorem notePreempted_at (s : KVPoolScheduler) (rid : String) :
    view rid (s.notePreempted rid) = { view rid s with tracker := none, preempted := true, blockIds := none } := by
  simp [view, notePreempted]

namespace Building

def view (id : String) (s : Building) : ConnectorView × List ReqMeta :=
  (s.toKVPoolScheduler.view id, s.requests.filter fun m => decide (m.reqId = id))

variable {reqId rid : String}

theorem filter_entry {rm : Option ReqMeta} (owned : ∀ m ∈ rm, m.reqId = reqId) (id : String) :
    (rm.toList.filter fun m => decide (m.reqId = id)) = if id = reqId then rm.toList else [] := by
  cases rm with
  | none => simp
  | some m =>
    have here : m.reqId = reqId := owned m rfl
    by_cases same : id = reqId
    · simp [here, same]
    · simp [here, same, Ne.symm same]

section
variable (s : Building) (rid : String) (tracker t : RequestTracker) (spec : Option LoadSpec) (skipSave : Bool)
  (hs : List BlockHash) (isLastChunk : Option Bool) (size : Option (List Nat))

theorem addRequest_views : ∃ tracker' rm, IsEntry spec tracker.allocatedBlockIdsByGroup rm ∧
    ∀ id, view id (s.addRequest rid tracker spec skipSave hs isLastChunk size) =
      if id = rid then ({ (view id s).1 with tracker := some tracker' }, (view id s).2 ++ rm.toList)
      else view id s := by
  rcases made : ReqMeta.fromRequestTracker rid tracker s.config.cacheTransferGranularity spec skipSave hs
    isLastChunk s.config.discardPartialChunks size s.config.kvCacheGroupFamilies with ⟨rm, tracker'⟩
  obtain ⟨owned, e⟩ := fromRequestTracker_cases made
  refine ⟨tracker', rm, e, fun id => ?_⟩
  have entries := filter_entry owned id
  simp only [view, KVPoolScheduler.view, addRequest, made, List.filter_append, entries]
  split
  · rename_i same
    rw [same, lookup_insert]
  · rename_i other
    rw [List.append_nil, lookup_insert_ne other]

theorem addRequest_other (id : String) (other : id ≠ rid) :
    view id (s.addRequest rid t spec skipSave hs isLastChunk size) = view id s := by
  obtain ⟨tracker', rm, -, views⟩ := addRequest_views s rid t spec skipSave hs isLastChunk
    size
  rw [views, if_neg other]

theorem addRequest_at : ∃ tracker' reqMeta,
    view rid (s.addRequest rid tracker spec skipSave hs isLastChunk size) =
      ({ (view rid s).1 with tracker := some tracker' }, (view rid s).2 ++ reqMeta.toList) ∧
    IsEntry spec tracker.allocatedBlockIdsByGroup reqMeta := by
  obtain ⟨tracker', reqMeta, e, views⟩ := addRequest_views s rid tracker spec skipSave hs isLastChunk
    size
  refine ⟨tracker', reqMeta, ?_, e⟩
  rw [views, if_pos rfl]

end

section
variable (s : Building) (req : PoolRequest) (rid : String) (promptTokenIds : List Nat)
  (blockIds : List (List Nat)) (numTokensToCompute : Nat)

theorem addStarted_other (id : String) (other : id ≠ rid) :
    view id (s.addStarted req rid promptTokenIds blockIds numTokensToCompute) = view id s := by
  refine (addRequest_other _ _ _ _ _ _ _ _ id other).trans ?_
  simp only [view, KVPoolScheduler.view, lookup_erase_ne other]

theorem addStarted_at : ∃ tracker reqMeta,
    view rid (s.addStarted req rid promptTokenIds blockIds numTokensToCompute) =
      ({ (view rid s).1 with loadSpec := none, tracker := some tracker }, (view rid s).2 ++ reqMeta.toList) ∧
    IsEntry (view rid s).1.loadSpec blockIds reqMeta := by
  obtain ⟨tracker, reqMeta, after, e⟩ := addRequest_at (s.popLoadSpec rid).2 rid
    ⟨numTokensToCompute, blockIds, 0, some (promptTokenIds.take numTokensToCompute)⟩ (s.popLoadSpec rid).1
    s.config.forceSkipSave req.blockHashes
    (some (decide (numTokensToCompute ≥ s.config.lastChunkTokensNum promptTokenIds.length)))
      (some s.config.originalBlockSize)
  refine ⟨tracker, reqMeta, after.trans ?_, e⟩
  simp only [view, KVPoolScheduler.view, popLoadSpec, lookup_erase]
  rfl

end

variable {os : String → PoolRequest} {numScheduledTokens : AList fun _ : String => Nat} {s s' : Building}

/-! ### New requests -/

variable {req : NewRequestData}

theorem addNew_ok (ran : s.addNew os numScheduledTokens req = .ok s') :
    ∃ scheduled, s' = s.addStarted (os req.reqId) req.reqId req.promptTokenIds req.blockIds
      (req.numComputedTokens + scheduled) := by
  unfold addNew at ran
  split at ran
  · cases ran
  split at ran
  · cases ran
  · cases ran
    exact ⟨_, rfl⟩

theorem addNew_runs (scheduled : (numScheduledTokens.lookup req.reqId).isSome)
    (alloc : (view req.reqId s).1.blockIds.isSome) : ∃ s', s.addNew os numScheduledTokens req = .ok s' := by
  obtain ⟨n, found⟩ := isSome_iff_exists.mp scheduled
  have present : ¬ (s.unfinishedRequests.lookup req.reqId).isNone = true := by
    rw [isNone_iff_eq_none, ← isSome_iff_ne_none.not_left]
    exact fun absent => absent alloc
  rw [addNew, found]
  exact ⟨_, if_neg present⟩

/-! ### Cached requests -/

theorem addResumed_ok (ran : s.addResumed os rid newIds scheduled = .ok s') :
    s' = addStarted { s with preemptedReqIds := s.preemptedReqIds.erase rid } (os rid) rid
      (os rid).promptTokenIds newIds ((os rid).numComputedTokens + scheduled) := by
  unfold addResumed at ran
  dsimp only at ran
  split at ran
  · cases ran
  · cases ran
    rfl

variable {id : String}

theorem addResumed_other (ran : s.addResumed os rid newIds scheduled = .ok s')
    (other : id ≠ rid) : view id s' = view id s := by
  rw [addResumed_ok ran, addStarted_other _ _ _ _ _ _ id other]
  simp [view, KVPoolScheduler.view, other]

theorem addResumed_at (ran : s.addResumed os rid newIds scheduled = .ok s') : ∃ tracker reqMeta,
    view rid s' = ({ (view rid s).1 with loadSpec := none, tracker := some tracker, preempted := false },
      (view rid s).2 ++ reqMeta.toList) ∧ IsEntry (view rid s).1.loadSpec newIds reqMeta := by
  obtain ⟨tracker, reqMeta, after, e⟩ := addStarted_at
    { s with preemptedReqIds := s.preemptedReqIds.erase rid }
    (os rid) rid (os rid).promptTokenIds newIds ((os rid).numComputedTokens + scheduled)
  refine ⟨tracker, reqMeta, ?_, e⟩
  rw [addResumed_ok ran, after]
  simp [view, KVPoolScheduler.view]

theorem addRunning_views {computed : Nat} (ran : s.addRunning os rid newIds computed scheduled = .ok s') :
    (∀ id, id ≠ rid → view id s' = view id s) ∧ ∃ tracker, ∃ rm : Option ReqMeta,
      view rid s' = ({ (view rid s).1 with tracker := some tracker }, (view rid s).2 ++ rm.toList) ∧
      ∀ m ∈ rm, m.loadSpec = none := by
  unfold addRunning at ran
  split at ran
  · cases ran
  rename_i tracker found
  split at ran
  · cases ran
  dsimp only at ran
  split at ran
  · cases ran
    refine ⟨fun id other => ?_, tracker.advance (os rid).allTokenIds scheduled, none, ?_, by simp⟩
    · simp only [view, KVPoolScheduler.view, lookup_insert_ne other]
    · simp only [view, KVPoolScheduler.view, lookup_insert, toList_none, List.append_nil]
  · cases ran
    obtain ⟨tracker, rm, e, views⟩ := addRequest_views s rid _ none s.config.forceSkipSave
      (os rid).blockHashes _ (some s.config.originalBlockSize)
    refine ⟨fun id other => addRequest_other _ _ _ _ _ _ _ _ id other, tracker, rm, ?_, e.loads⟩
    exact (views rid).trans (if_pos rfl)

/-- What becomes of a cached request that got blocks: a resumed one starts again, a running one goes
on. -/
def CachedAt (before after : ConnectorView × List ReqMeta) (newBlockIds : List (List Nat)) : Prop :=
  ∃ tracker, ∃ reqMeta : Option ReqMeta, after.2 = before.2 ++ reqMeta.toList ∧
    if before.1.preempted then
      after.1 = { before.1 with loadSpec := none, tracker := some tracker, preempted := false } ∧
        IsEntry before.1.loadSpec newBlockIds reqMeta
    else after.1 = { before.1 with tracker := some tracker } ∧ ∀ m ∈ reqMeta, m.loadSpec = none

variable {req : CachedRequestData}

theorem addCached_views (ran : s.addCached os numScheduledTokens req = .ok s') :
    (∀ id, id ≠ req.reqId → view id s' = view id s) ∧
      ((req.newBlockIds = none ∨ req.newBlockIds = some []) ∧ s' = s ∨
        ∃ newIds, req.newBlockIds = some newIds ∧ newIds ≠ [] ∧
          CachedAt (view req.reqId s) (view req.reqId s') newIds) := by
  unfold addCached at ran
  split at ran
  · rename_i none
    cases ran
    exact ⟨fun _ _ => rfl, .inl ⟨.inl none, rfl⟩⟩
  · rename_i empty
    cases ran
    exact ⟨fun _ _ => rfl, .inl ⟨.inr empty, rfl⟩⟩
  · rename_i newIds nonempty given
    split at ran
    · cases ran
    split at ran
    · rename_i mem
      obtain ⟨t, rm, after, e⟩ := addResumed_at ran
      refine ⟨fun id other => addResumed_other ran other, .inr ⟨newIds, given, nonempty, ?_⟩⟩
      refine ⟨t, rm, congrArg Prod.snd after, ?_⟩
      have resumed : (view req.reqId s).1.preempted = true := decide_eq_true mem
      rw [if_pos resumed]
      exact ⟨congrArg Prod.fst after, e⟩
    · rename_i other
      obtain ⟨frame, t, rm, after, quiet⟩ := addRunning_views ran
      refine ⟨frame, .inr ⟨newIds, given, nonempty, t, rm, congrArg Prod.snd after, ?_⟩⟩
      have running : ¬ (view req.reqId s).1.preempted = true := by
        intro resumed
        exact other (of_decide_eq_true resumed)
      rw [if_neg running]
      exact ⟨congrArg Prod.fst after, quiet⟩

theorem addCached_runs (scheduled : (numScheduledTokens.lookup req.reqId).isSome)
    (alloc : (view req.reqId s).1.blockIds.isSome)
    (known : (view req.reqId s).1.preempted = true ∨ (view req.reqId s).1.tracker.isSome) :
    ∃ s', s.addCached os numScheduledTokens req = .ok s' := by
  obtain ⟨n, found⟩ := isSome_iff_exists.mp scheduled
  obtain ⟨blocks, held⟩ := isSome_iff_exists.mp alloc
  have present : s.unfinishedRequests.lookup req.reqId = some blocks := held
  unfold addCached
  split
  · exact ⟨s, rfl⟩
  · exact ⟨s, rfl⟩
  rw [found]
  dsimp only
  split
  · unfold addResumed
    dsimp only
    rw [present]
    exact ⟨_, rfl⟩
  · rename_i other
    rcases known with resumed | tracked
    · exact absurd (of_decide_eq_true resumed) other
    obtain ⟨tracker, stored⟩ := isSome_iff_exists.mp tracked
    have here : s.requestTrackers.lookup req.reqId = some tracker := stored
    unfold addRunning
    rw [here, present]
    dsimp only [isNone]
    split
    · rename_i absurdity
      cases absurdity
    · split
      · exact ⟨_, rfl⟩
      · exact ⟨_, rfl⟩

/-! ### Requests that are not scheduled -/

variable {scheduled : List String}

theorem addWaiting_other (other : id ≠ e.1) :
    view id (addWaiting os scheduled s e) = view id s := by
  unfold addWaiting
  split
  · rfl
  split
  · rename_i popped
    cases (Prod.mk.inj popped).2
    simp only [view, KVPoolScheduler.view, lookup_erase_ne other]
  · rename_i popped
    cases (Prod.mk.inj popped).2
    refine (addRequest_other _ _ _ _ _ _ _ _ id other).trans ?_
    simp only [view, KVPoolScheduler.view, lookup_erase_ne other]

theorem addWaiting_at (os : String → PoolRequest) (s : Building)
    (other : e.1 ∉ scheduled) : ∃ tracker rm, view e.1 (addWaiting os scheduled s e) =
      ({ (view e.1 s).1 with loadSpec := none, tracker := tracker }, (view e.1 s).2 ++ Option.toList rm) ∧
    IsEntry (view e.1 s).1.loadSpec e.2 rm ∧
    ((view e.1 s).1.loadSpec.isSome ∨ (view e.1 s).1.tracker.isSome → tracker.isSome) := by
  unfold addWaiting
  rw [if_neg other]
  cases given : s.loadSpecs.lookup e.1 with
  | none =>
    have nothing : (view e.1 s).1.loadSpec = none := given
    refine ⟨(view e.1 s).1.tracker, none, ?_, ⟨by simp, by simp [nothing]⟩, by simp [nothing]⟩
    simp only [popLoadSpec, given]
    simp only [view, KVPoolScheduler.view, lookup_erase, toList_none, List.append_nil]
  | some loadSpec =>
    have here : (view e.1 s).1.loadSpec = some loadSpec := given
    simp only [popLoadSpec, given]
    obtain ⟨tracker, rm, isEntry, views⟩ := addRequest_views { s with loadSpecs := s.loadSpecs.erase e.1 } e.1
      _ (some loadSpec) false (os e.1).blockHashes none none
    refine ⟨some tracker, rm, (views e.1).trans ?_, here ▸ isEntry, fun _ => rfl⟩
    rw [if_pos rfl]
    simp only [view, KVPoolScheduler.view, lookup_erase]

end Building

end KVPoolScheduler

end TurboQuant.Ascend
