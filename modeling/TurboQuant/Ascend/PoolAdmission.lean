import TurboQuant.Ascend.PoolMetadata
import TurboQuant.Ascend.PoolSteps

/-!
A step of the engine up to its output, request by request: who is taken up, with which promise of
the pool, and how it is scheduled.
-/

namespace TurboQuant.Ascend
open TurboQuant.Core Outcome List AList KVPoolScheduler

variable {rid id : String}

namespace PoolEngine

/-! ### Engines request by request -/

section
variable (e : PoolEngine) (f : LiveRequest → LiveRequest)

theorem lookup_modify_other (other : id ≠ rid) :
    (e.modify rid f).requests.lookup id = e.requests.lookup id := by
  unfold modify
  split
  · rfl
  · exact lookup_insert_ne other

theorem lookup_modify (id : String) :
    (e.modify id f).requests.lookup id = (e.requests.lookup id).map f := by
  unfold modify
  split
  · rename_i none
    rw [none]
    rfl
  · rename_i live found
    rw [found]
    exact lookup_insert _

theorem modify_connector (id : String) :
    (e.modify id f).connector = e.connector ∧ (e.modify id f).useV2ModelRunner = e.useV2ModelRunner ∧
      (e.modify id f).finishedReqIds = e.finishedReqIds := by
  unfold modify
  split <;> exact ⟨rfl, rfl, rfl⟩

end

theorem foldl_modify {ι : Type} (step : PoolEngine → ι → PoolEngine) {key : ι → String}
    {f : ι → LiveRequest → LiveRequest}
    (modifies : ∀ e x, step e x = e.modify (key x) (f x)) (xs : List ι) (e : PoolEngine) :
    (xs.foldl step e).connector = e.connector ∧ (xs.foldl step e).useV2ModelRunner = e.useV2ModelRunner ∧
      (xs.foldl step e).finishedReqIds = e.finishedReqIds := by
  induction xs generalizing e with
  | nil => exact ⟨rfl, rfl, rfl⟩
  | cons x rest ih =>
    obtain ⟨connector, v2, finished⟩ := modify_connector e (f x) (key x)
    obtain ⟨connector', v2', finished'⟩ := ih (step e x)
    rw [modifies] at connector' v2' finished'
    rw [foldl_cons, modifies]
    exact ⟨connector'.trans connector, v2'.trans v2, finished'.trans finished⟩

section
variable (e : PoolEngine)

theorem status_modify_other (f : LiveRequest → LiveRequest) (other : id ≠ rid) :
    (e.modify rid f).status id = e.status id := by
  rw [status, lookup_modify_other e f other, status]

theorem status_modify (f : LiveRequest → LiveRequest) (id : String) :
    (e.modify id f).status id = (e.requests.lookup id).map fun live => (f live).status := by
  rw [status, lookup_modify, Option.map_map]
  rfl

theorem status_modify_same {f : LiveRequest → LiveRequest} (same : ∀ live, (f live).status = live.status)
    (rid id : String) : (e.modify rid f).status id = e.status id := by
  by_cases here : id = rid
  · rw [here, status_modify]
    simp only [same]
    rfl
  · exact status_modify_other e f here

theorem status_updateAfterSchedule (scheduled : List (Sigma fun _ : String => Nat)) (id : String) :
    (scheduled.foldl updateAfterSchedule e).status id = e.status id := by
  induction scheduled generalizing e with
  | nil => rfl
  | cons x rest ih =>
    rw [foldl_cons, ih]
    refine status_modify_same e ?_ x.1 id
    intro live
    rfl

theorem status_preempted (preempted : List String) (id : String) :
    (preempted.foldl preemptRequest e).status id =
      if id ∈ preempted then (e.status id).map fun _ => .preempted else e.status id := by
  induction preempted generalizing e with
  | nil => rfl
  | cons first rest ih =>
    rw [foldl_cons, ih]
    by_cases here : id = first
    · have now : (e.preemptRequest first).status id = (e.status id).map fun _ => .preempted := by
        rw [here]
        refine (status_modify e _ first).trans ?_
        rw [status, Option.map_map]
        rfl
      rw [now, Option.map_map, if_pos (mem_cons.mpr (.inl here))]
      split <;> rfl
    · have other : (e.preemptRequest first).status id = e.status id := status_modify_other e _ here
      rw [other]
      simp only [mem_cons, here, false_or]

end

/-! ### Taking up a request -/

def externalTokens (config : KVPoolConfig) (live : LiveRequest) (a : Admission) : Nat :=
  if live.request.numComputedTokens = 0 then
    config.numExternalHitTokens live.request a.lookup - a.numNewLocalComputedTokens
  else 0

def promisedSpec (a : Admission) (n : Nat) : LoadSpec :=
  { vllmCachedTokens := a.numNewLocalComputedTokens, kvpoolCachedTokens :=
    a.numNewLocalComputedTokens + n, canLoad := true }

theorem askPool_views (e : PoolEngine) (rid : String) (request : PoolRequest) (numNewLocalComputedTokens : Nat)
    (lookup : Nat → List BlockHash → List Nat → Nat) :
    let connector := (e.askPool rid request numNewLocalComputedTokens lookup).2
    (∀ id, id ≠ rid → connector.view id = e.connector.view id) ∧
      ∃ loadSpec, connector.view rid = { e.connector.view rid with loadSpec := loadSpec } := by
  unfold askPool
  split
  · unfold getNumNewMatchedTokens
    dsimp only
    split
    · exact ⟨fun _ _ => rfl, _, rfl⟩
    · refine ⟨fun id other => ?_, _, rfl⟩
      simp only [view, lookup_insert_ne other]
  · exact ⟨fun _ _ => rfl, _, rfl⟩

theorem askPool_at (e : PoolEngine) (a : Admission) (live : LiveRequest) :
    let n := externalTokens e.connector.config live a
    let asked := e.askPool a.requestId live.request a.numNewLocalComputedTokens a.lookup
    asked.1 = (n, decide (0 < n) && e.connector.config.loadsAsync) ∧
      (0 < n → asked.2.loadSpecs.lookup a.requestId = some { promisedSpec a n with canLoad := false }) := by
  intro n asked
  by_cases fresh : live.request.numComputedTokens = 0
  · have here : asked = e.connector.getNumNewMatchedTokens a.requestId live.request
        a.numNewLocalComputedTokens a.lookup :=
      if_pos fresh
    have count : n = e.connector.config.numExternalHitTokens live.request a.lookup -
      a.numNewLocalComputedTokens := if_pos fresh
    rw [here, getNumNewMatchedTokens]
    rw [← count]
    by_cases zero : n = 0
    · rw [if_pos zero, zero]
      exact ⟨rfl, fun pos => absurd pos (lt_irrefl 0)⟩
    · rw [if_neg zero]
      have pos : 0 < n := pos_of_ne_zero zero
      refine ⟨by simp [pos], fun _ => ?_⟩
      have hit : e.connector.config.numExternalHitTokens live.request a.lookup =
        a.numNewLocalComputedTokens + n := by omega
      rw [hit]
      exact lookup_insert _
  · have here : asked = ((0, false), e.connector) := if_neg fresh
    have count : n = 0 := if_neg fresh
    rw [here, count]
    exact ⟨rfl, fun pos => absurd pos (lt_irrefl 0)⟩

end PoolEngine

theorem KVPoolScheduler.updateStateAfterAlloc_other {s s' : KVPoolScheduler}
    {blocks : List (List Nat)} {n : Nat}
    (ran : s.updateStateAfterAlloc rid blocks n = .ok s') (other : id ≠ rid) : s'.view id = s.view id := by
  unfold updateStateAfterAlloc at ran
  dsimp only at ran
  split at ran
  · cases ran
    simp only [view, lookup_insert_ne other]
  · split at ran
    · cases ran
      simp only [view, lookup_insert_ne other]
    · split at ran
      · cases ran
      · cases ran
        simp only [view, lookup_insert_ne other]

theorem KVPoolScheduler.updateStateAfterAlloc_at (s : KVPoolScheduler) (a : Admission) {n : Nat}
    (promised : 0 < n → s.loadSpecs.lookup a.requestId =
      some { PoolEngine.promisedSpec a n with canLoad := false }) :
    ∃ s' loadSpec, s.updateStateAfterAlloc a.requestId a.blocks n = .ok s' ∧
      s'.view a.requestId = { s.view a.requestId with
        loadSpec := loadSpec
        blockIds := some (if n > 0 then a.blocks else s.config.kvCacheGroupIds.map fun _ => []) } ∧
      (0 < n → loadSpec = some (PoolEngine.promisedSpec a n)) ∧
        (n = 0 → loadSpec.any (·.canLoad) = false) := by
  unfold updateStateAfterAlloc
  dsimp only
  by_cases zero : n = 0
  · cases given : s.loadSpecs.lookup a.requestId with
    | none =>
      refine ⟨_, none, rfl, ?_, fun pos => absurd zero (by omega), fun _ => rfl⟩
      simp only [view, lookup_insert, given]
    | some spec =>
      refine ⟨_, some { spec with canLoad := false }, if_pos zero, ?_,
        fun pos => absurd zero (by omega), fun _ => rfl⟩
      simp only [view, lookup_insert]
  · have pos : 0 < n := pos_of_ne_zero zero
    rw [promised pos]
    dsimp only [PoolEngine.promisedSpec]
    rw [if_neg zero, if_neg (by omega)]
    refine ⟨_, some (PoolEngine.promisedSpec a n), rfl, ?_, fun _ => rfl, fun absurdity =>
      absurd absurdity zero⟩
    simp only [view, lookup_insert, PoolEngine.promisedSpec]

namespace PoolEngine

structure StepView where
  pool : ConnectorView
  useV2ModelRunner : Bool
  finishedReqIds : List String
  live : Option LiveRequest
  newReqs : List NewRequestData
  resumedReqs : List CachedRequestData
  numScheduled : Option Nat
  enabled : List (String × Nat)

namespace Scheduling

def view (id : String) (s : Scheduling) : StepView where
  pool := s.connector.view id
  useV2ModelRunner := s.useV2ModelRunner
  finishedReqIds := s.finishedReqIds
  live := s.requests.lookup id
  newReqs := s.scheduledNewReqs.filter fun request => decide (request.reqId = id)
  resumedReqs := s.scheduledResumedReqs.filter fun request => decide (request.reqId = id)
  numScheduled := s.numScheduledTokens.lookup id
  enabled := s.enabled.filter fun load => decide (load.1 = id)

end Scheduling

namespace StepView

section
variable (v : StepView) (a : Admission) (live : LiveRequest)

def started (loadSpec : Option LoadSpec) (numComputedTokens : Nat) : StepView :=
  let n := externalTokens v.pool.config live a
  let loadKvAsync := decide (0 < n) && v.pool.config.loadsAsync
  { v with
    pool := { v.pool with
      loadSpec := loadSpec
      blockIds := some (if n > 0 then a.blocks else v.pool.config.kvCacheGroupIds.map fun _ => []) }
    live := some { live with
      request := { live.request with numComputedTokens := numComputedTokens }
      status := if loadKvAsync then .waitingForRemoteKvs else .running }
    enabled := v.enabled ++ if n > 0 then [(a.requestId, n)] else [] }

def scheduled (numComputedTokens : Nat) : StepView :=
  if live.status = .waiting ∨ v.useV2ModelRunner then
    { v with
      newReqs := v.newReqs ++ [⟨a.requestId, live.request.promptTokenIds, a.blocks, numComputedTokens⟩]
      numScheduled := some a.numNewTokens }
  else
    { v with
      resumedReqs := v.resumedReqs ++ [⟨a.requestId, some a.blocks, numComputedTokens⟩]
      numScheduled := some a.numNewTokens }

def admitted (loadSpec : Option LoadSpec) (numComputedTokens : Nat) : StepView :=
  let v' := v.started a live loadSpec numComputedTokens
  if decide (0 < externalTokens v.pool.config live a) && v.pool.config.loadsAsync then v'
  else v'.scheduled a live numComputedTokens

end

end StepView

section
variable (s : Scheduling) (a : Admission)

section
variable (live : LiveRequest) (numComputedTokens nc : Nat)

theorem addScheduled_other (other : id ≠ a.requestId) :
    (addScheduled s a live nc).view id = s.view id := by
  have apart : ¬ a.requestId = id := fun same => other same.symm
  unfold addScheduled
  dsimp only
  split <;> simp [Scheduling.view, lookup_insert_ne other, filter_append, apart]

theorem addScheduled_at :
    (addScheduled s a live numComputedTokens).view a.requestId = (s.view a.requestId).scheduled a
      live numComputedTokens := by
  unfold addScheduled StepView.scheduled
  by_cases new : live.status = .waiting ∨ s.useV2ModelRunner = true
  · rw [if_pos new, if_pos (show _ ∨ (s.view a.requestId).useV2ModelRunner = true from new)]
    simp [Scheduling.view, filter_append]
  · rw [if_neg new, if_neg (show ¬ (_ ∨ (s.view a.requestId).useV2ModelRunner = true) from new)]
    simp [Scheduling.view, filter_append]

theorem startRequest_other (n : Nat) (loadKvAsync : Bool) {connector : KVPoolScheduler}
    (other : id ≠ a.requestId) (same : connector.view id = s.connector.view id) :
    (startRequest s a live nc n loadKvAsync connector).view id = s.view id := by
  have apart : ¬ a.requestId = id := fun same => other same.symm
  simp only [Scheduling.view, startRequest, same, lookup_insert_ne other, filter_append]
  split <;> simp [apart]

end

theorem takeRequest_other (s' : Scheduling) (ran : takeRequest s a = .ok s') (id : String)
    (other : id ≠ a.requestId) : s'.view id = s.view id := by
  unfold takeRequest at ran
  split at ran
  · cases ran
    rfl
  rename_i live found
  dsimp only at ran
  obtain ⟨connector, alloc, rfl⟩ := map_ok ran
  have asked := (askPool_views s.toPoolEngine a.requestId live.request a.numNewLocalComputedTokens
    a.lookup).1 id other
  have same : connector.view id = s.connector.view id :=
    (updateStateAfterAlloc_other alloc other).trans asked
  split
  · exact startRequest_other s a live _ _ _ other same
  · exact (addScheduled_other _ a live _ other).trans (startRequest_other s a live _ _ _ other same)

theorem takeRequest_at {live : LiveRequest} (found : s.requests.lookup a.requestId = some live) :
    ∃ s' loadSpec numComputedTokens, takeRequest s a = .ok s' ∧
      s'.view a.requestId = (s.view a.requestId).admitted a live loadSpec numComputedTokens ∧
      (0 < externalTokens s.connector.config live a →
        loadSpec = some (promisedSpec a (externalTokens s.connector.config live a))) := by
  obtain ⟨answer, promised⟩ := askPool_at s.toPoolEngine a live
  obtain ⟨loadSpec₀, viewed⟩ := (askPool_views s.toPoolEngine a.requestId live.request
    a.numNewLocalComputedTokens a.lookup).2
  set n := externalTokens s.connector.config live a with count
  set asked := s.askPool a.requestId live.request a.numNewLocalComputedTokens a.lookup with asks
  obtain ⟨connector, loadSpec, alloc, after, pos, zero⟩ := asked.2.updateStateAfterAlloc_at a promised
  have config : asked.2.config = s.connector.config := congrArg ConnectorView.config viewed
  rw [viewed, config] at after
  have enables : (connector.loadSpecs.lookup a.requestId).any (·.canLoad) = decide (0 < n) := by
    have looked : connector.loadSpecs.lookup a.requestId = loadSpec := congrArg ConnectorView.loadSpec after
    rw [looked]
    by_cases none : n = 0
    · rw [zero none, none]
      rfl
    · rw [pos (pos_of_ne_zero none), decide_eq_true (pos_of_ne_zero none)]
      rfl
  let loadKvAsync := decide (0 < n) && s.connector.config.loadsAsync
  let numComputedTokens := if live.request.numComputedTokens = 0
    then a.numNewLocalComputedTokens + n else live.request.numComputedTokens
  let s₁ := startRequest s a live numComputedTokens n loadKvAsync connector
  have started : s₁.view a.requestId = (s.view a.requestId).started a live loadSpec numComputedTokens := by
    show Scheduling.view a.requestId (startRequest s a live numComputedTokens n loadKvAsync connector) = _
    simp only [Scheduling.view, startRequest, StepView.started, after, enables, lookup_insert, filter_append,
      decide_eq_true_eq]
    have own : ((if 0 < n then [(a.requestId, n)] else []).filter fun load => decide (load.1 = a.requestId)) =
        if 0 < n then [(a.requestId, n)] else [] := by
      split <;> simp
    rw [own]
    rfl
  have ran : s.askPool a.requestId live.request a.numNewLocalComputedTokens a.lookup =
      ((n, loadKvAsync), asked.2) :=
    Prod.ext answer rfl
  refine ⟨if loadKvAsync then s₁ else addScheduled s₁ a live numComputedTokens, loadSpec,
    numComputedTokens, ?_, ?_, pos⟩
  · unfold takeRequest
    rw [found]
    dsimp only
    rw [ran]
    rw [alloc]
    rfl
  · show _ = if loadKvAsync then (s.view a.requestId).started a live loadSpec numComputedTokens
      else ((s.view a.requestId).started a live loadSpec numComputedTokens).scheduled a live numComputedTokens
    rw [← started]
    split
    · rfl
    · exact addScheduled_at s₁ a live numComputedTokens

end

/-! ### All requests of a step -/

theorem lookup_scheduled (running : List RunningStep) (scheduled : AList fun _ : String => Nat)
    (mem : id ∈ running.map (·.requestId) ∨ (scheduled.lookup id).isSome) :
    ((running.foldl (fun scheduled step => scheduled.insert step.requestId step.numNewTokens)
      scheduled).lookup id).isSome := by
  induction running generalizing scheduled with
  | nil => exact mem.resolve_left (by simp)
  | cons step rest ih =>
    refine ih (scheduled.insert step.requestId step.numNewTokens) ?_
    by_cases here : id = step.requestId
    · rw [here, lookup_insert]
      exact .inr rfl
    · rw [lookup_insert_ne here]
      exact mem.imp_left fun listed => (mem_cons.mp listed).resolve_left here

def TakenUp (e : PoolEngine) (a : Admission) (v : StepView) : Prop :=
  ∃ live loadSpec numComputedTokens numScheduled, e.requests.lookup a.requestId = some live ∧
    v = StepView.admitted ⟨e.connector.view a.requestId, e.useV2ModelRunner, e.finishedReqIds,
      some live, [], [], numScheduled, []⟩ a live loadSpec numComputedTokens ∧
    (0 < externalTokens e.connector.config live a →
      loadSpec = some (promisedSpec a (externalTokens e.connector.config live a)))

/-- Any other request: it may be preempted, or the pool may be asked for it. -/
def NotTakenUp (e : PoolEngine) (plan : Plan) (id : String) (v : StepView) : Prop :=
  ∃ loadSpec live numScheduled,
    v = ⟨{ e.connector.view id with loadSpec := loadSpec }, e.useV2ModelRunner, e.finishedReqIds,
      live, [], [], numScheduled, []⟩ ∧
    live.map (·.status) = (if id ∈ plan.preempted then (e.status id).map fun _ => .preempted
      else e.status id) ∧
    (id ∈ plan.running.map (·.requestId) → numScheduled.isSome)

theorem refuse_other (s : Scheduling) (r : Refusal) (other : id ≠ r.requestId) :
    Scheduling.view id { s with toPoolEngine := s.refuse r } = s.view id := by
  unfold refuse
  split
  · rfl
  · rename_i live found
    have asked := (askPool_views s.toPoolEngine r.requestId live.request r.numNewLocalComputedTokens
      r.lookup).1 id other
    simp only [Scheduling.view, asked]

theorem refuse_at (s : Scheduling) (r : Refusal) :
    ∃ loadSpec, Scheduling.view r.requestId { s with toPoolEngine := s.refuse r } =
    { s.view r.requestId with pool := { (s.view r.requestId).pool with loadSpec := loadSpec } } := by
  unfold refuse
  split
  · exact ⟨_, rfl⟩
  · rename_i live found
    obtain ⟨loadSpec, asked⟩ := (askPool_views s.toPoolEngine r.requestId live.request
      r.numNewLocalComputedTokens r.lookup).2
    refine ⟨loadSpec, ?_⟩
    simp only [Scheduling.view, asked]

variable {e : PoolEngine} {pl : Plan}

theorem startStep_view (e : PoolEngine) (pl : Plan) (id : String) :
    NotTakenUp e pl id ((e.startStep pl).view id) := by
  obtain ⟨connector, v2, finished⟩ := foldl_modify preemptRequest (fun _ _ => rfl) pl.preempted e
  refine ⟨(e.connector.view id).loadSpec, _, _, ?_, status_preempted e pl.preempted id,
    fun listed => lookup_scheduled pl.running ∅ (.inl listed)⟩
  simp only [Scheduling.view, startStep, connector, v2, finished, filter_nil]

section
variable (legal : e.Legal pl) {a : Admission} (mem : a ∈ pl.admissions)
include legal mem

theorem Legal.live :
    ∃ live, e.requests.lookup a.requestId = some live ∧
      (live.status = .waiting ∨ live.status = .preempted) := by
  rcases (legal.admitted a mem).1 with waiting | preempted
  · obtain ⟨live, found, status⟩ := Option.map_eq_some_iff.mp waiting
    exact ⟨live, found, .inl status⟩
  · obtain ⟨live, found, status⟩ := Option.map_eq_some_iff.mp preempted
    exact ⟨live, found, .inr status⟩

theorem Legal.nonePreempted : pl.preempted = [] := by
  by_contra some
  rw [(legal.undisturbed some).1] at mem
  cases mem

theorem startStep_admitted :
    ∃ live scheduled, e.requests.lookup a.requestId = some live ∧ (e.startStep pl).view a.requestId =
      ⟨e.connector.view a.requestId, e.useV2ModelRunner, e.finishedReqIds, some live, [], [],
        scheduled, []⟩ := by
  obtain ⟨live, found, _⟩ := legal.live mem
  refine ⟨live, (e.startStep pl).numScheduledTokens.lookup a.requestId, found, ?_⟩
  simp only [Scheduling.view, startStep, legal.nonePreempted mem, foldl_nil, found, filter_nil]

end

theorem admissions_total (legal : e.Legal pl) :
    ∃ s, pl.admissions.foldlM takeRequest (e.startStep pl) = .ok s ∧
    (∀ a ∈ pl.admissions, TakenUp e a (s.view a.requestId)) ∧
    ∀ id, id ∉ pl.admissions.map (·.requestId) → NotTakenUp e pl id (s.view id) := by
  obtain ⟨s, ran, others, each⟩ := Keyed.foldlM_total Scheduling.view (·.requestId) takeRequest
    pl.admissions (e.startStep pl) takeRequest_other
    (fun a mem before same => by
      obtain ⟨live, _, _, started⟩ := startStep_admitted legal mem
      have here : before.requests.lookup a.requestId = some live := congrArg StepView.live (same.trans started)
      obtain ⟨after, _, _, stepped, _⟩ := takeRequest_at before a here
      exact ⟨after, stepped⟩) legal.admittedNodup
  refine ⟨s, ran, fun a mem => ?_, fun id other => ?_⟩
  · obtain ⟨before, after, same, stepped, final⟩ := each a mem
    obtain ⟨live, scheduled, found, started⟩ := startStep_admitted legal mem
    have viewed := same.trans started
    have here : before.requests.lookup a.requestId = some live := congrArg StepView.live viewed
    have config : before.connector.config = e.connector.config := congrArg (fun v => v.pool.config) viewed
    obtain ⟨after', spec, computed, stepped', admitted, promised⟩ := takeRequest_at before a here
    cases Except.ok.inj (stepped.symm.trans stepped')
    rw [viewed] at admitted
    rw [config] at promised
    exact ⟨live, spec, computed, scheduled, found, final.trans admitted, promised⟩
  · rw [others id other]
    exact startStep_view e pl id

theorem takeUp_total (legal : e.Legal pl) : ∃ s, e.takeUp pl = .ok s ∧
    (∀ a ∈ pl.admissions, TakenUp e a (s.view a.requestId)) ∧
    ∀ id, id ∉ pl.admissions.map (·.requestId) → NotTakenUp e pl id (s.view id) := by
  obtain ⟨s, ran, taken, others⟩ := admissions_total legal
  refine ⟨{ s with toPoolEngine := pl.refused.elim s.toPoolEngine s.refuse }, ?_, ?_, ?_⟩
  · unfold takeUp
    rw [ran]
    rfl
  all_goals cases refused : pl.refused with
    | none => assumption
    | some r => ?_
  · intro a mem
    have apart : a.requestId ≠ r.requestId := by
      intro same
      exact legal.refused r refused (same ▸ mem_map_of_mem mem)
    exact (refuse_other s r apart).symm ▸ taken a mem
  · intro id other
    by_cases asked : id = r.requestId
    · subst asked
      obtain ⟨spec, viewed⟩ := refuse_at s r
      obtain ⟨_, live, scheduled, before, status, listed⟩ := others _ other
      rw [before] at viewed
      exact ⟨spec, live, scheduled, viewed, status, listed⟩
    · exact (refuse_other s r asked).symm ▸ others id other

end PoolEngine

end TurboQuant.Ascend
