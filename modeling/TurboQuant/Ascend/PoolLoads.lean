import TurboQuant.Ascend.PoolAdmission

/-!
Loads from the KV pool over whole runs.
-/

namespace TurboQuant.Ascend
open TurboQuant.Core Outcome List AList Keyed

namespace KVPoolScheduler.Handled

variable {output : SchedulerOutput} {id : String} {before after : ConnectorView} {es : List ReqMeta}

section
variable (handled : Handled output id before after es)
include handled

theorem config_eq : after.config = before.config := by
  cases handled with
  | preempted _ forgotten => rw [forgotten]
  | new _ _ started => rw [started]
  | passed _ _ _ unchanged => rw [unchanged]
  | cached _ _ _ _ _ handled =>
    obtain ⟨t, _, _, res⟩ := handled
    dsimp only at res
    split at res <;> rw [res.1]
  | waiting _ _ _ popped => rw [popped]
  | idle _ _ _ unchanged => rw [unchanged]

theorem keeps (kept : id ∉ output.preemptedReqIds) :
    after.blockIds = before.blockIds ∧ (before.tracker.isSome → after.tracker.isSome) ∧
      (before.preempted = true → after.preempted = true ∨ after.tracker.isSome) := by
  cases handled with
  | preempted mem => exact absurd mem kept
  | new _ _ started =>
    rw [started]
    exact ⟨rfl, fun _ => rfl, fun _ => .inr rfl⟩
  | passed _ _ _ unchanged =>
    rw [unchanged]
    exact ⟨rfl, fun tracked => tracked, .inl⟩
  | cached _ _ _ _ _ handled =>
    obtain ⟨t, _, _, res⟩ := handled
    dsimp only at res
    split at res
    · rw [res.1]
      exact ⟨rfl, fun _ => rfl, fun _ => .inr rfl⟩
    · rw [res.1]
      exact ⟨rfl, fun _ => rfl, fun _ => .inr rfl⟩
  | waiting _ _ _ popped _ _ tracked =>
    rw [popped]
    exact ⟨rfl, fun given => tracked (.inr given), .inl⟩
  | idle _ _ _ unchanged =>
    rw [unchanged]
    exact ⟨rfl, fun tracked => tracked, .inl⟩

theorem of_preempted (mem : id ∈ output.preemptedReqIds)
    (other : id ∉ output.newIds ++ output.cachedIds) : after.preempted = true := by
  cases handled with
  | preempted _ forgotten => rw [forgotten]
  | new listed same => exact absurd (mem_append_left _ (mem_map.mpr ⟨_, listed, same⟩)) other
  | passed listed same => exact absurd (mem_append_right _ (mem_map.mpr ⟨_, listed, same⟩)) other
  | cached listed same => exact absurd (mem_append_right _ (mem_map.mpr ⟨_, listed, same⟩)) other
  | waiting kept => exact absurd mem kept
  | idle kept => exact absurd mem kept

section
variable (kept : id ∉ output.preemptedReqIds)
include kept

theorem of_new (apart : id ∉ output.cachedIds) {req : NewRequestData}
    (only : (output.scheduledNewReqs.filter fun req => decide (req.reqId = id)) = [req]) :
    after.tracker.isSome ∧ ∃ reqMeta : Option ReqMeta, es = reqMeta.toList ∧
      IsEntry before.loadSpec req.blockIds reqMeta := by
  obtain ⟨here, mine⟩ := only_item only
  cases handled with
  | preempted mem => exact absurd mem kept
  | new mem same started one e =>
    rw [mine _ mem same] at e
    rw [started]
    exact ⟨rfl, _, one, e⟩
  | passed listed same => exact absurd (mem_map.mpr ⟨_, listed, same⟩) apart
  | cached listed same => exact absurd (mem_map.mpr ⟨_, listed, same⟩) apart
  | waiting _ other => exact absurd (mem_append_left _ here) other
  | idle _ other => exact absurd (mem_append_left _ here) other

theorem of_waiting
    (other : id ∉ output.newIds ++ output.cachedIds) {blockIds : List (List Nat)}
    (allocated : before.blockIds = some blockIds)
    (loads : before.loadSpec.isSome) :
    after.tracker.isSome ∧ ∃ reqMeta : Option ReqMeta, es = reqMeta.toList ∧
      IsEntry before.loadSpec blockIds reqMeta := by
  cases handled with
  | preempted mem => exact absurd mem kept
  | new listed same => exact absurd (mem_append_left _ (mem_map.mpr ⟨_, listed, same⟩)) other
  | passed listed same => exact absurd (mem_append_right _ (mem_map.mpr ⟨_, listed, same⟩)) other
  | cached listed same => exact absurd (mem_append_right _ (mem_map.mpr ⟨_, listed, same⟩)) other
  | waiting _ _ found popped one e tracked =>
    cases Option.some.inj (allocated.symm.trans found)
    rw [popped]
    exact ⟨tracked (.inl loads), _, one, e⟩
  | idle _ _ unallocated => rw [allocated] at unallocated; cases unallocated

theorem of_resumed
    (apart : id ∉ output.newIds) {req : CachedRequestData} {bs : List (List Nat)}
    (given : req.newBlockIds = some bs)
    (nonempty : bs ≠ []) (only : (output.scheduledCachedReqs.filter fun req =>
      decide (req.reqId = id)) = [req]) :
    before.config.forceSkipSave = true ∧ es = [] ∨
      before.config.forceSkipSave = false ∧ after.tracker.isSome ∧ ∃ rm : Option ReqMeta, es = rm.toList ∧
        if before.preempted then IsEntry before.loadSpec bs rm else ∀ m ∈ rm, m.loadSpec = none := by
  obtain ⟨here, mine⟩ := only_item only
  cases handled with
  | preempted mem => exact absurd mem kept
  | new listed same => exact absurd (mem_map.mpr ⟨_, listed, same⟩) apart
  | passed mem same reason _ none =>
    rw [mine _ mem same, given] at reason
    rcases reason with skip | missing | empty
    · exact .inl ⟨skip, none⟩
    · cases missing
    · exact absurd (Option.some.inj empty) nonempty
  | cached mem same saves found _ handled =>
    rw [mine _ mem same, given] at found
    cases Option.some.inj found
    obtain ⟨t, rm, one, res⟩ := handled
    dsimp only at res
    split at res
    · rename_i resumed
      refine .inr ⟨saves, by rw [res.1]; rfl, rm, one, ?_⟩
      rw [if_pos resumed]
      exact res.2
    · rename_i running
      refine .inr ⟨saves, by rw [res.1]; rfl, rm, one, ?_⟩
      rw [if_neg running]
      exact res.2
  | waiting _ other => exact absurd (mem_append_right _ here) other
  | idle _ other => exact absurd (mem_append_right _ here) other

end

end

end KVPoolScheduler.Handled

namespace PoolEngine

structure Inv (e : PoolEngine) : Prop where
  fresh : ∀ id ∈ e.finishedReqIds, e.status id = none
  held : ∀ id, e.status id = some .running → (e.connector.view id).blockIds.isSome
  tracked : e.connector.config.forceSkipSave = false → ∀ id,
    e.status id = some .running ∨ e.status id = some .waitingForRemoteKvs →
      (e.connector.view id).tracker.isSome
  resumable : e.connector.config.forceSkipSave = false → ∀ id, e.status id = some .preempted →
    (e.connector.view id).preempted = true ∨ (e.connector.view id).tracker.isSome

variable {e e' : PoolEngine} {plan pl : Plan} {s : Scheduling}

/-! ### The ways in which a request is taken up -/

namespace StepView

inductive Start (v : StepView) (a : Admission) (status : RequestStatus) (n : Nat) : Prop
  | loading (async : v.pool.config.loadsAsync = true) (positive : 0 < n)
      (waits : v.live.map (·.status) = some .waitingForRemoteKvs)
      (new : v.newReqs = []) (resumed : v.resumedReqs = [])
  | new {request : NewRequestData} (sync : 0 < n → v.pool.config.loadsAsync = false)
      (fresh : status = .waiting ∨ v.useV2ModelRunner = true) (runs : v.live.map (·.status) = some .running)
      (blocks : request.blockIds = a.blocks) (new : v.newReqs = [request]) (resumed : v.resumedReqs = [])
      (scheduled : v.numScheduled.isSome)
  | resumed {request : CachedRequestData} (sync : 0 < n → v.pool.config.loadsAsync = false)
      (again : status ≠ .waiting) (v1 : v.useV2ModelRunner = false)
      (runs : v.live.map (·.status) = some .running)
      (blocks : request.newBlockIds = some a.blocks) (new : v.newReqs = [])
        (resumed : v.resumedReqs = [request])
      (scheduled : v.numScheduled.isSome)

end StepView

structure Prepared (e : PoolEngine) (a : Admission) (live : LiveRequest) (v : StepView) : Prop where
  same : ∃ loadSpec, v.pool = { e.connector.view a.requestId with loadSpec := loadSpec, blockIds :=
    v.pool.blockIds }
  v2 : v.useV2ModelRunner = e.useV2ModelRunner
  finished : v.finishedReqIds = e.finishedReqIds
  allocated : v.pool.blockIds.isSome
  promised : 0 < externalTokens e.connector.config live a →
    v.pool.loadSpec = some (promisedSpec a (externalTokens e.connector.config live a)) ∧
      v.pool.blockIds = some a.blocks
  enabled : v.enabled = if externalTokens e.connector.config live a > 0
    then [(a.requestId, externalTokens e.connector.config live a)] else []
  start : v.Start a live.status (externalTokens e.connector.config live a)

theorem StepView.scheduled_keeps (v : StepView) (a : Admission) (live : LiveRequest) (computed : Nat) :
    let v' := v.scheduled a live computed
    v'.pool = v.pool ∧ v'.useV2ModelRunner = v.useV2ModelRunner ∧
      v'.finishedReqIds = v.finishedReqIds ∧ v'.live = v.live ∧ v'.enabled = v.enabled := by
  unfold scheduled
  split <;> exact ⟨rfl, rfl, rfl, rfl, rfl⟩

theorem StepView.scheduled_start {v : StepView} (a : Admission) (live : LiveRequest) (computed : Nat) {n : Nat}
    (sync : 0 < n → v.pool.config.loadsAsync = false) (runs : v.live.map (·.status) = some .running)
    (noNew : v.newReqs = []) (noResumed : v.resumedReqs = []) :
    (v.scheduled a live computed).Start a live.status n := by
  by_cases fresh : live.status = .waiting ∨ v.useV2ModelRunner = true
  · rw [scheduled, if_pos fresh, noNew]
    exact .new sync fresh runs rfl rfl noResumed rfl
  · rw [scheduled, if_neg fresh, noResumed]
    rw [not_or] at fresh
    exact .resumed sync fresh.1 (Bool.eq_false_iff.mpr fresh.2) runs rfl noNew rfl rfl

theorem TakenUp.prepared {a : Admission} {v : StepView} (taken : TakenUp e a v) :
    ∃ live, e.requests.lookup a.requestId = some live ∧ Prepared e a live v := by
  obtain ⟨live, spec, computed, scheduled, found, shape, promised⟩ := taken
  refine ⟨live, found, ?_⟩
  by_cases async : (decide (0 < externalTokens e.connector.config live a) &&
    e.connector.config.loadsAsync) = true
  · replace shape := shape.trans (if_pos async)
    obtain ⟨pos, loads⟩ := Bool.and_eq_true_iff.mp async
    have some := of_decide_eq_true pos
    subst shape
    refine ⟨⟨spec, rfl⟩, rfl, rfl, rfl, fun _ => ⟨promised some, ?_⟩, rfl, .loading loads some ?_ rfl rfl⟩
    · exact congrArg Option.some (if_pos some)
    · exact congrArg Option.some (if_pos async)
  · replace shape := shape.trans (if_neg async)
    obtain ⟨p, v2, finished, live', enabled⟩ := StepView.scheduled_keeps
      (StepView.started ⟨e.connector.view a.requestId, e.useV2ModelRunner, e.finishedReqIds,
        some live, [], [], scheduled, []⟩ a live spec computed) a live computed
    rw [← shape] at p v2 finished live' enabled
    refine ⟨⟨spec, ?_⟩, v2, finished, ?_, fun some => ?_, enabled, ?_⟩
    · rw [p]
      rfl
    · rw [p]
      rfl
    · rw [p]
      exact ⟨promised some, congrArg Option.some (if_pos some)⟩
    · rw [shape]
      refine StepView.scheduled_start a live computed (fun some => ?_)
        (congrArg Option.some (if_neg async)) rfl rfl
      rw [decide_eq_true some, Bool.true_and] at async
      exact Bool.eq_false_iff.mpr async

inductive Listing (e : PoolEngine) (plan : Plan) (s : Scheduling) (id : String) : Prop
  | loading {a : Admission} {live : LiveRequest} (member : a ∈ plan.admissions) (same : a.requestId = id)
      (found : e.requests.lookup id = some live) (prepared : Prepared e a live (s.view id))
      (async : e.connector.config.loadsAsync = true) (positive : 0 < externalTokens e.connector.config live a)
      (waits : s.status id = some .waitingForRemoteKvs) (unlisted : id ∉ (output s plan).newIds ++
        (output s plan).cachedIds)
  | new {a : Admission} {live : LiveRequest} {request : NewRequestData}
      (member : a ∈ plan.admissions) (same : a.requestId = id)
      (found : e.requests.lookup id = some live) (prepared : Prepared e a live (s.view id))
      (sync : 0 < externalTokens e.connector.config live a → e.connector.config.loadsAsync = false)
      (fresh : live.status = .waiting ∨ e.useV2ModelRunner = true) (runs : s.status id = some .running)
      (scheduled : (s.numScheduledTokens.lookup id).isSome) (blocks : request.blockIds = a.blocks)
      (only : ((output s plan).scheduledNewReqs.filter fun request => decide (request.reqId = id)) = [request])
      (uncached : id ∉ (output s plan).cachedIds)
  | resumed {a : Admission} {live : LiveRequest} {request : CachedRequestData}
      (member : a ∈ plan.admissions) (same : a.requestId = id)
      (found : e.requests.lookup id = some live) (prepared : Prepared e a live (s.view id))
      (sync : 0 < externalTokens e.connector.config live a → e.connector.config.loadsAsync = false)
      (again : live.status = .preempted) (v1 : e.useV2ModelRunner = false) (runs : s.status id = some .running)
      (scheduled : (s.numScheduledTokens.lookup id).isSome) (blocks : request.newBlockIds = some a.blocks)
      (only : ((output s plan).scheduledCachedReqs.filter fun request =>
        decide (request.reqId = id)) = [request])
      (unlisted : id ∉ (output s plan).newIds)
  | other (absent : id ∉ plan.admissions.map (·.requestId)) (untouched : NotTakenUp e plan id (s.view id))
      (unlisted : id ∉ (output s plan).newIds) (running : id ∈ (output s plan).cachedIds ↔
        id ∈ plan.running.map (·.requestId))
      (single : ((output s plan).scheduledCachedReqs.filter fun request =>
        decide (request.reqId = id)).length ≤ 1)

theorem filter_cached (s : Scheduling) (pl : Plan) (id : String) :
    ((output s pl).scheduledCachedReqs.filter fun req => decide (req.reqId = id)) =
      (pl.running.filter fun step => decide (step.requestId = id)).map
        (fun step => ⟨step.requestId, step.newBlockIds,
          (s.object step.requestId).numComputedTokens⟩) ++ (s.view id).resumedReqs := by
  show (filter _ (_ ++ s.scheduledResumedReqs)) = _
  rw [filter_append, filter_map]
  rfl

theorem Legal.notRunning (legal : e.Legal pl) {a : Admission} (mem : a ∈ pl.admissions) :
    (pl.running.filter fun step => decide (step.requestId = a.requestId)) = [] := by
  rw [filter_eq_nil_iff]
  intro step listed same
  have running := (legal.scheduledRunning step listed).1
  rw [of_decide_eq_true same] at running
  rcases (legal.admitted a mem).1 with waiting | preempted
  · rw [waiting] at running
    cases running
  · rw [preempted] at running
    cases running

theorem listing (legal : e.Legal pl) (taken : ∀ a ∈ pl.admissions, TakenUp e a (s.view a.requestId))
    (others : ∀ id, id ∉ pl.admissions.map (·.requestId) → NotTakenUp e pl id (s.view id))
    (id : String) : Listing e pl s id := by
  by_cases admitted : id ∈ pl.admissions.map (·.requestId)
  · obtain ⟨a, mem, rfl⟩ := mem_map.mp admitted
    obtain ⟨live, found, prepared⟩ := (taken a mem).prepared
    have status : live.status = .waiting ∨ live.status = .preempted := by
      obtain ⟨live', found', status⟩ := legal.live mem
      cases Option.some.inj (found.symm.trans found')
      exact status
    have cfg : (s.view a.requestId).pool.config = e.connector.config := by
      obtain ⟨spec, same⟩ := prepared.same
      rw [same]
      rfl
    have cached := filter_cached s pl a.requestId
    rw [legal.notRunning mem, map_nil, nil_append] at cached
    cases prepared.start with
    | loading async pos waits new resumed =>
      rw [cfg] at async
      rw [resumed] at cached
      refine .loading mem rfl found prepared async pos waits ?_
      rw [mem_append, not_or]
      exact ⟨not_mem_iff_filter.mpr new, not_mem_iff_filter.mpr cached⟩
    | new sync fresh runs bs new resumed scheduled =>
      rw [cfg] at sync
      rw [prepared.v2] at fresh
      rw [resumed] at cached
      exact .new mem rfl found prepared sync fresh runs scheduled bs new (not_mem_iff_filter.mpr cached)
    | resumed sync again v1 runs bs new resumed scheduled =>
      rw [cfg] at sync
      rw [prepared.v2] at v1
      rw [resumed] at cached
      exact .resumed mem rfl found prepared sync (status.resolve_left again) v1 runs scheduled bs cached
        (not_mem_iff_filter.mpr new)
  · have untouched := others id admitted
    obtain ⟨spec, live, n, shape, _, _⟩ := others id admitted
    have new : (s.view id).newReqs = [] := by rw [shape]
    have cached := filter_cached s pl id
    rw [show (s.view id).resumedReqs = [] by rw [shape], append_nil] at cached
    refine .other admitted untouched (not_mem_iff_filter.mpr new) ?_ ?_
    · have fromRunning : (output s pl).cachedIds = pl.running.map (·.requestId) ++
          s.scheduledResumedReqs.map (·.reqId) := by
        show map _ (_ ++ _) = _
        rw [map_append, map_map]
        rfl
      have noResumed : id ∉ s.scheduledResumedReqs.map (·.reqId) :=
        not_mem_iff_filter.mpr (show (s.view id).resumedReqs = [] by rw [shape])
      rw [fromRunning, mem_append, or_iff_left noResumed]
    · rw [cached, length_map]
      exact nodup_iff_filters.mp legal.runningNodup id

variable {id : String}

theorem Listing.single (listing : Listing e pl s id) :
    ((output s pl).scheduledNewReqs.filter fun req => decide (req.reqId = id)).length ≤ 1 ∧
      ((output s pl).scheduledCachedReqs.filter fun req => decide (req.reqId = id)).length ≤ 1 ∧
      ¬ (id ∈ (output s pl).newIds ∧ id ∈ (output s pl).cachedIds) := by
  have empty : ∀ {α : Type} {l : List α}, l = [] → l.length ≤ 1 := by
    intro α l nil
    rw [nil]
    exact Nat.zero_le 1
  cases listing with
  | loading _ _ _ _ _ _ _ unlisted =>
    rw [mem_append, not_or] at unlisted
    exact ⟨empty (not_mem_iff_filter.mp unlisted.1), empty (not_mem_iff_filter.mp unlisted.2),
      fun both => unlisted.1 both.1⟩
  | new _ _ _ _ _ _ _ _ _ only uncached =>
    rw [only]
    exact ⟨le_refl 1, empty (not_mem_iff_filter.mp uncached), fun both => uncached both.2⟩
  | resumed _ _ _ _ _ _ _ _ _ _ only unlisted =>
    rw [only]
    exact ⟨empty (not_mem_iff_filter.mp unlisted), le_refl 1, fun both => unlisted both.1⟩
  | other _ _ unlisted _ single => exact ⟨empty (not_mem_iff_filter.mp unlisted), single,
    fun both => unlisted both.1⟩

theorem Listing.source (listing : Listing e pl s id)
    (mem : id ∈ (output s pl).newIds ++ (output s pl).cachedIds) :
    (∃ a ∈ pl.admissions, ∃ live, e.requests.lookup id = some live ∧ a.requestId = id ∧
      Prepared e a live (s.view id) ∧
      (s.numScheduledTokens.lookup id).isSome ∧ (id ∈ (output s pl).cachedIds → live.status = .preempted)) ∨
    id ∈ pl.running.map (·.requestId) ∧ NotTakenUp e pl id (s.view id) := by
  cases listing with
  | loading _ _ _ _ _ _ _ unlisted => exact absurd mem unlisted
  | new admitted same found prepared _ _ _ scheduled _ _ uncached =>
    exact .inl ⟨_, admitted, _, found, same, prepared, scheduled, fun cached => absurd cached uncached⟩
  | resumed admitted same found prepared _ again _ _ scheduled =>
    exact .inl ⟨_, admitted, _, found, same, prepared, scheduled, fun _ => again⟩
  | other _ untouched unlisted running =>
    exact .inr ⟨running.mp ((mem_append.mp mem).resolve_left unlisted), untouched⟩

theorem Inv.alive (inv : Inv e) (live : (e.status id).isSome) : id ∉ e.finishedReqIds := by
  intro mem
  rw [inv.fresh id mem] at live
  cases live

theorem ready (inv : Inv e) (legal : e.Legal pl) (listed : ∀ id, Listing e pl s id)
    (finished : s.finishedReqIds = e.finishedReqIds)
    (cfg : s.connector.config = e.connector.config) : s.connector.Ready (output s pl) := by
  have running : ∀ id ∈ pl.running.map (·.requestId), e.status id = some .running ∧ id ∉ pl.preempted := by
    intro id mem
    obtain ⟨step, listed, rfl⟩ := mem_map.mp mem
    exact legal.scheduledRunning step listed
  refine ⟨legal.preemptedNodup, ?_, fun id mem => ?_, fun id mem => ?_, fun id mem => ?_,
    fun saves id mem => ?_⟩
  · refine nodup_append.mpr ⟨?_, ?_, fun id new id' cached same => ?_⟩
    · exact nodup_iff_filters.mpr fun id => (listed id).single.1
    · exact nodup_iff_filters.mpr fun id => (listed id).single.2.1
    · exact (listed id).single.2.2 ⟨new, same ▸ cached⟩
  · show id ∉ s.finishedReqIds ∧ id ∉ pl.preempted
    rw [finished]
    rcases (listed id).source mem with ⟨a, admitted, live, found, rfl, _⟩ | ⟨runs, _⟩
    · refine ⟨inv.alive (by rw [status, found]; rfl), ?_⟩
      rw [legal.nonePreempted admitted]
      exact not_mem_nil
    · exact ⟨inv.alive (by rw [(running id runs).1]; rfl), (running id runs).2⟩
  · rcases (listed id).source mem with ⟨_, _, _, _, _, _, scheduled, _⟩ | ⟨runs, _, _, n, shape, _, scheduled⟩
    · exact scheduled
    · show (s.view id).numScheduled.isSome
      rw [shape]
      exact scheduled runs
  · rcases (listed id).source mem with ⟨_, _, _, _, _, prepared, _⟩ | ⟨runs, _, _, _, shape, _, _⟩
    · exact prepared.allocated
    · show (s.view id).pool.blockIds.isSome
      rw [shape]
      exact inv.held id (running id runs).1
  · rw [cfg] at saves
    show (s.view id).pool.preempted = true ∨ (s.view id).pool.tracker.isSome
    rcases (listed id).source (mem_append_right _ mem) with ⟨a, _, live, found, rfl, prepared, _,
      again⟩ | ⟨runs, _, _, _, shape, _, _⟩
    · obtain ⟨spec, same⟩ := prepared.same
      rw [same]
      refine inv.resumable saves a.requestId ?_
      rw [status, found, Option.map_some, again mem]
    · rw [shape]
      exact .inr (inv.tracked saves id (.inl (running id runs).1))

/-! ### Whole steps -/

theorem Listing.constant (listing : Listing e pl s id) :
    s.finishedReqIds = e.finishedReqIds ∧ s.connector.config = e.connector.config := by
  have viewed : ∀ {a : Admission} {live : LiveRequest}, Prepared e a live (s.view id) →
      s.finishedReqIds = e.finishedReqIds ∧ s.connector.config = e.connector.config := by
    intro a live prepared
    obtain ⟨spec, same⟩ := prepared.same
    exact ⟨prepared.finished, congrArg ConnectorView.config same⟩
  cases listing with
  | loading _ _ _ prepared => exact viewed prepared
  | new _ _ _ prepared => exact viewed prepared
  | resumed _ _ _ prepared => exact viewed prepared
  | other _ untouched =>
    obtain ⟨spec, live, scheduled, shape, _, _⟩ := untouched
    exact ⟨congrArg StepView.finishedReqIds shape, congrArg (fun v => v.pool.config) shape⟩

structure Stepped (e : PoolEngine) (plan : Plan) (s : Scheduling)
    (metadata : AscendConnectorMetadata) (e' : PoolEngine) : Prop where
  listed : ∀ id, Listing e plan s id
  ready : s.connector.Ready (output s plan)
  status : ∀ id, e'.status id = s.status id
  finished : e'.finishedReqIds = []
  handled : ∀ id, id ∉ e.finishedReqIds → KVPoolScheduler.Handled (output s plan) id
    (s.view id).pool (e'.connector.view id)
    (metadata.requests.filter fun m => decide (m.reqId = id))

theorem schedule_total (inv : Inv e) (legal : e.Legal pl) :
    ∃ s md e', e.schedule pl = .ok (s.enabled, md, e') ∧ Stepped e pl s md e' := by
  obtain ⟨s, took, taken, others⟩ := takeUp_total legal
  have listed := listing legal taken others
  obtain ⟨finished, cfg⟩ := (listed "").constant
  have ready := ready inv legal listed finished cfg
  obtain ⟨md, connector, built, handled⟩ := KVPoolScheduler.buildConnectorMeta_total s.object ready
  let e₁ : PoolEngine := { s.toPoolEngine with connector := connector, finishedReqIds := [] }
  obtain ⟨connector', _, finished'⟩ := foldl_modify updateAfterSchedule
    (fun _ _ => rfl) s.numScheduledTokens.entries e₁
  refine ⟨s, md, s.numScheduledTokens.entries.foldl updateAfterSchedule e₁, ?_, listed, ready,
    fun id => ?_, finished', fun id alive => ?_⟩
  · unfold schedule
    rw [took]
    show (s.connector.buildConnectorMeta s.object (output s pl) >>= _) = _
    rw [built]
    rfl
  · rw [status_updateAfterSchedule]
    rfl
  · rw [connector']
    exact handled id (by rw [← finished] at alive; exact alive)

section
variable {md : AscendConnectorMetadata}

section
variable (stepped : Stepped e pl s md e') (legal : e.Legal pl)
include stepped legal

theorem Stepped.origin {id : String} {now : RequestStatus} (present : e'.status id = some now) :
    (e.status id).isSome ∧ (id ∈ pl.preempted → now = .preempted) ∧
      ((id ∉ pl.admissions.map (·.requestId)) → id ∉ pl.preempted → e.status id = some now) := by
  have here := (stepped.status id).symm.trans present
  have taken : ∀ {a : Admission} {live : LiveRequest}, a ∈ pl.admissions → a.requestId = id →
      e.requests.lookup id = some live →
      (e.status id).isSome ∧ (id ∈ pl.preempted → now = .preempted) ∧
        ((id ∉ pl.admissions.map (·.requestId)) → id ∉ pl.preempted → e.status id = some now) := by
    intro a live mem same found
    refine ⟨by rw [PoolEngine.status, found]; rfl, fun preempted => ?_, fun absent => ?_⟩
    · rw [legal.nonePreempted mem] at preempted
      cases preempted
    · exact absurd (mem_map.mpr ⟨a, mem, same⟩) absent
  cases stepped.listed id with
  | loading mem same found => exact taken mem same found
  | new mem same found => exact taken mem same found
  | resumed mem same found => exact taken mem same found
  | other absent untouched =>
    obtain ⟨spec, live, scheduled, shape, status', _⟩ := untouched
    have live' : live.map (·.status) = some now := by
      rw [← here]
      exact congrArg (fun v => v.live.map (·.status)) shape.symm
    rw [live'] at status'
    by_cases preempted : id ∈ pl.preempted
    · rw [if_pos preempted] at status'
      obtain ⟨before, had, rfl⟩ := Option.map_eq_some_iff.mp status'.symm
      exact ⟨by rw [had]; rfl, fun _ => rfl, fun _ kept => absurd preempted kept⟩
    · rw [if_neg preempted] at status'
      exact ⟨by rw [← status']; rfl, fun listed => absurd listed preempted, fun _ _ => status'.symm⟩

theorem Stepped.inv (inv : Inv e) : Inv e' := by
  -- the connector's part of the step, for a request that is live and not preempted in it
  have follow : ∀ {id : String} {now : RequestStatus}, e'.status id = some now → now ≠ .preempted →
      id ∉ (output s pl).preemptedReqIds ∧ KVPoolScheduler.Handled (output s pl) id (s.view id).pool
        (e'.connector.view id) (md.requests.filter fun m => decide (m.reqId = id)) := by
    intro id now present ne
    obtain ⟨alive, preempted, _⟩ := stepped.origin legal present
    exact ⟨fun mem => ne (preempted mem), stepped.handled id (inv.alive alive)⟩
  have cfg : ∀ id, id ∉ e.finishedReqIds → e'.connector.config = e.connector.config := fun id alive =>
    (stepped.handled id alive).config_eq.trans (stepped.listed id).constant.2
  refine ⟨fun id mem => ?_, fun id present => ?_, fun saves id present => ?_, fun saves id present => ?_⟩
  · rw [stepped.finished] at mem
    cases mem
  · obtain ⟨kept, handled⟩ := follow present (by decide)
    rw [(handled.keeps kept).1]
    cases stepped.listed id with
    | loading _ _ _ prepared => exact prepared.allocated
    | new _ _ _ prepared => exact prepared.allocated
    | resumed _ _ _ prepared => exact prepared.allocated
    | other absent untouched =>
      obtain ⟨spec, live, scheduled, shape, _, _⟩ := untouched
      rw [shape]
      exact inv.held id ((stepped.origin legal present).2.2 absent kept)
  · obtain ⟨now, present', ne, active⟩ : ∃ now, e'.status id = some now ∧ now ≠ .preempted ∧
        (now = .running ∨ now = .waitingForRemoteKvs) := by
      rcases present with running | loading
      · exact ⟨_, running, by decide, .inl rfl⟩
      · exact ⟨_, loading, by decide, .inr rfl⟩
    obtain ⟨kept, handled⟩ := follow present' ne
    rw [cfg id (inv.alive (stepped.origin legal present').1)] at saves
    cases stepped.listed id with
    | loading _ same _ prepared _ pos _ unlisted =>
      obtain ⟨promised, bs⟩ := prepared.promised pos
      exact (handled.of_waiting kept unlisted bs (by rw [promised]; rfl)).1
    | new _ _ _ _ _ _ _ _ _ only uncached => exact (handled.of_new kept uncached only).1
    | resumed mem _ _ prepared _ _ _ _ _ bs only unlisted =>
      rcases handled.of_resumed kept unlisted bs (legal.admitted _ mem).2 only with ⟨skips,
        _⟩ | ⟨_, tracked, _⟩
      · obtain ⟨spec, same⟩ := prepared.same
        rw [same] at skips
        exact absurd (saves.symm.trans skips) Bool.false_ne_true
      · exact tracked
    | other absent untouched =>
      obtain ⟨spec, live, scheduled, shape, _, _⟩ := untouched
      refine (handled.keeps kept).2.1 ?_
      rw [shape]
      have before := (stepped.origin legal present').2.2 absent kept
      refine inv.tracked saves id (active.imp ?_ ?_)
      · rintro rfl
        exact before
      · rintro rfl
        exact before
  · have alive := inv.alive (stepped.origin legal present).1
    rw [cfg id alive] at saves
    have handled := stepped.handled id alive
    have here := (stepped.status id).symm.trans present
    cases stepped.listed id with
    | loading _ _ _ _ _ _ waits => rw [waits] at here; cases here
    | new _ _ _ _ _ _ runs => rw [runs] at here; cases here
    | resumed _ _ _ _ _ _ _ runs => rw [runs] at here; cases here
    | other absent untouched =>
      by_cases preempted : id ∈ pl.preempted
      · exact .inl (handled.of_preempted preempted fun mem => (stepped.ready.live id mem).2 preempted)
      · obtain ⟨spec, live, scheduled, shape, _, _⟩ := untouched
        have before := inv.resumable saves id ((stepped.origin legal present).2.2 absent preempted)
        obtain ⟨_, t, flag⟩ := handled.keeps preempted
        rw [shape] at t flag
        exact before.elim flag fun tracked => .inr (t tracked)

end

end

/-! ### Runs -/

theorem Inv.of_status (inv : Inv e) (connector : e'.connector = e.connector)
    (fresh : ∀ id ∈ e'.finishedReqIds, e'.status id = none)
    (changes : ∀ id, e'.status id = e.status id ∨ e'.status id = none ∨
      e'.status id = some .waiting ∨ e'.status id = some .preempted ∧
      (e.status id = some .running ∨ e.status id = some .waitingForRemoteKvs)) : Inv e' := by
  have unchanged : ∀ {id now}, e'.status id = some now → now ≠ .waiting → now ≠ .preempted →
      e.status id = some now := by
    intro id now present active kept
    rcases changes id with same | gone | waits | ⟨preempted, _⟩
    · exact same ▸ present
    · rw [gone] at present
      cases present
    · exact absurd (Option.some.inj (present.symm.trans waits)) active
    · exact absurd (Option.some.inj (present.symm.trans preempted)) kept
  refine ⟨fresh, fun id present => ?_, fun saves id present => ?_, fun saves id present => ?_⟩
  · rw [connector]
    exact inv.held id (unchanged present (by decide) (by decide))
  · rw [connector] at saves ⊢
    exact inv.tracked saves id (present.imp (fun running => unchanged running (by decide) (by decide))
      fun loading => unchanged loading (by decide) (by decide))
  · rw [connector] at saves ⊢
    rcases changes id with same | gone | waits | ⟨_, active⟩
    · exact inv.resumable saves id (same ▸ present)
    · rw [gone] at present
      cases present
    · rw [waits] at present
      cases present
    · exact .inr (inv.tracked saves id active)

theorem Inv.of_modify (inv : Inv e) (rid : String) (f : LiveRequest → LiveRequest)
    (change : ∀ live, e.requests.lookup rid = some live → (f live).status = live.status ∨
      (f live).status = .waiting ∨
      (f live).status = .preempted ∧ (live.status = .running ∨
        live.status = .waitingForRemoteKvs)) : Inv (e.modify rid f) := by
  obtain ⟨connector, _, finished⟩ := modify_connector e f rid
  have changes : ∀ id, (e.modify rid f).status id = e.status id ∨ (e.modify rid f).status id = some .waiting ∨
      (e.modify rid f).status id = some .preempted ∧ (e.status id = some .running ∨
        e.status id = some .waitingForRemoteKvs) := by
    intro id
    by_cases here : id = rid
    · subst here
      rw [status_modify, status]
      cases found : e.requests.lookup id with
      | none => exact .inl rfl
      | some live =>
        simp only [Option.map_some, Option.some.injEq]
        exact change live found
    · exact .inl (status_modify_other e f here)
  refine inv.of_status connector (fun id mem => ?_) fun id => (changes id).imp_right .inr
  rw [finished] at mem
  have gone := inv.fresh id mem
  by_cases here : id = rid
  · subst here
    rw [status_modify, Option.map_eq_none_iff.mp gone]
    rfl
  · exact (status_modify_other e f here).trans gone

theorem Reachable.inv {cfg : KVPoolConfig} {useV2ModelRunner : Bool}
    (reachable : Reachable cfg useV2ModelRunner e) : Inv e := by
  induction reachable with
  | start =>
    have none : ∀ id, (new cfg useV2ModelRunner).status id = none := fun _ => rfl
    refine ⟨fun id _ => none id, fun id present => ?_, fun _ id present => ?_, fun _ id present => ?_⟩
    · rw [none] at present
      cases present
    · rw [none] at present
      rcases present with running | loading
      · cases running
      · cases loading
    · rw [none] at present
      cases present
  | schedule _ legal ran inv =>
    obtain ⟨s, md, e', ran', stepped⟩ := schedule_total inv legal
    cases Except.ok.inj (ran.symm.trans ran')
    exact stepped.inv legal inv
  | addRequest requestId req _ unused inv =>
    refine inv.of_status rfl (fun id mem => ?_) fun id => ?_
    · have other : id ≠ requestId := by
        rintro rfl
        exact unused.2 mem
      rw [status, lookup_insert_ne other]
      exact inv.fresh id mem
    · by_cases here : id = requestId
      · refine .inr (.inr (.inl ?_))
        rw [here, status, lookup_insert]
        rfl
      · refine .inl ?_
        rw [status, lookup_insert_ne here]
        rfl
  | finishRequest requestId _ inv =>
    have gone : ∀ e : PoolEngine, ∀ finishedReqIds,
        ({ e with requests := e.requests.erase requestId, finishedReqIds := finishedReqIds } :
          PoolEngine).status requestId = none := by
      intro e finishedReqIds
      rw [status, lookup_erase]
      rfl
    have others : ∀ e : PoolEngine, ∀ finishedReqIds id, id ≠ requestId →
        ({ e with requests := e.requests.erase requestId, finishedReqIds := finishedReqIds } :
          PoolEngine).status id = e.status id := by
      intro e finishedReqIds id other
      rw [status, lookup_erase_ne other]
      rfl
    refine inv.of_status rfl (fun id mem => ?_) fun id => ?_
    · by_cases here : id = requestId
      · rw [here]
        exact gone _ _
      · rw [others _ _ id here]
        refine inv.fresh id ((mem_append.mp mem).resolve_right ?_)
        rwa [mem_singleton]
    · by_cases here : id = requestId
      · rw [here]
        exact .inr (.inl (gone _ _))
      · exact .inl (others _ _ id here)
  | progress requestId f _ inv => exact inv.of_modify requestId _ fun live _ => .inl rfl
  | finishRecving requestId _ waits inv =>
    refine inv.of_modify requestId _ fun live found => ?_
    rw [status, found, Option.map_some, Option.some.injEq] at waits
    split
    · exact .inr (.inl rfl)
    · exact .inr (.inr ⟨rfl, .inr waits⟩)
  | continueSession requestId _ inv => exact inv.of_modify requestId _ fun live _ => .inr (.inl rfl)
  | @resetPrefixCache e running _ all inv =>
    obtain ⟨connector, _, finished⟩ := foldl_modify preemptRequest (fun _ _ => rfl) running e
    refine inv.of_status connector (fun id mem => ?_) fun id => ?_
    · rw [finished] at mem
      rw [status_preempted, inv.fresh id mem]
      exact ite_self none
    · rw [status_preempted]
      by_cases preempted : id ∈ running
      · rw [if_pos preempted, all id preempted]
        exact .inr (.inr (.inr ⟨rfl, .inl rfl⟩))
      · exact .inl (if_neg preempted)

/-! ### Enabled loads -/

/-- The metadata has one load entry for the request, for the promised tokens and into the allocated
blocks. -/
def Issues (metadata : AscendConnectorMetadata) (a : Admission) (n : Nat) : Prop :=
  ∃ entry, ((metadata.requests.filter fun m => decide (m.reqId = a.requestId)).filter fun m =>
    m.loadSpec.isSome) = [entry] ∧
    entry.loadSpec = some (promisedSpec a n) ∧ entry.blockIdsByGroup = a.blocks

section
variable {md : AscendConnectorMetadata} {a : Admission} {n : Nat} {rm : Option ReqMeta}

theorem issues_of_entry (es : (md.requests.filter fun m => decide (m.reqId = a.requestId)) = rm.toList)
    (e : IsEntry (some (promisedSpec a n)) a.blocks rm) : Issues md a n := by
  obtain ⟨m, rfl, bs⟩ := e.present rfl
  have loads : m.loadSpec = some (promisedSpec a n) := e.loads m rfl
  refine ⟨m, ?_, loads, bs⟩
  rw [es, Option.toList_some, filter_cons_of_pos (by rw [loads]; rfl), filter_nil]

theorem not_issues_of_quiet (rm : Option ReqMeta)
    (es : (md.requests.filter fun m => decide (m.reqId = a.requestId)) = rm.toList)
    (quiet : ∀ m ∈ rm, m.loadSpec = none) : ¬ Issues md a n := by
  rintro ⟨e, only, _, _⟩
  have listed : e ∈ rm.toList.filter fun m => m.loadSpec.isSome := by
    rw [← es, only]
    exact mem_singleton_self _
  obtain ⟨mem, loads⟩ := mem_filter.mp listed
  rw [quiet e (Option.mem_toList.mp mem)] at loads
  cases loads

end

def Delivered (e : PoolEngine) (requestId : String) : Prop :=
  e.status requestId = some .preempted → e.useV2ModelRunner = true ∨ e.connector.config.loadsAsync = true ∨
    e.connector.config.forceSkipSave = false ∧ requestId ∈ e.connector.preemptedReqIds

theorem Stepped.issues {md : AscendConnectorMetadata} (stepped : Stepped e pl s md e') (inv : Inv e)
    (legal : e.Legal pl) {load : String × Nat} (mem : load ∈ s.enabled) :
    0 < load.2 ∧ ∃ a ∈ pl.admissions, a.requestId = load.1 ∧ (Issues md a load.2 ↔ Delivered e load.1) := by
  have seen : load ∈ (s.view load.1).enabled := mem_filter.mpr ⟨mem, decide_eq_true rfl⟩
  -- an enabled load is the one of a request that is taken up
  have enabled : ∀ {a : Admission} {live : LiveRequest}, Prepared e a live (s.view load.1) →
      0 < load.2 ∧ externalTokens e.connector.config live a = load.2 := by
    intro a live prepared
    rw [prepared.enabled] at seen
    split at seen
    · rename_i pos
      cases mem_singleton.mp seen
      exact ⟨pos, rfl⟩
    · cases seen
  have alive : ∀ {a : Admission} {live : LiveRequest}, a ∈ pl.admissions →
      e.requests.lookup load.1 = some live →
      load.1 ∉ e.finishedReqIds ∧ load.1 ∉ (output s pl).preemptedReqIds := by
    intro a live admitted found
    refine ⟨inv.alive (by rw [PoolEngine.status, found]; rfl), ?_⟩
    show load.1 ∉ pl.preempted
    rw [legal.nonePreempted admitted]
    exact not_mem_nil
  cases stepped.listed load.1 with
  | loading admitted same found prepared async pos _ unlisted =>
    obtain ⟨positive', count⟩ := enabled prepared
    obtain ⟨unfinished, kept⟩ := alive admitted found
    obtain ⟨promised, bs⟩ := prepared.promised pos
    obtain ⟨_, rm, es, entry⟩ := (stepped.handled load.1 unfinished).of_waiting kept unlisted bs
      (by rw [promised]; rfl)
    rw [promised, count] at entry
    rw [← same] at es
    exact ⟨positive', _, admitted, same, iff_of_true (issues_of_entry es entry) fun _ => .inr (.inl async)⟩
  | @new a live req admitted same found prepared _ fresh _ _ bs only uncached =>
    obtain ⟨positive', count⟩ := enabled prepared
    obtain ⟨unfinished, kept⟩ := alive admitted found
    obtain ⟨promised, _⟩ := prepared.promised (count ▸ positive')
    obtain ⟨_, rm, es, entry⟩ := (stepped.handled load.1 unfinished).of_new kept uncached only
    rw [promised, count, bs] at entry
    rw [← same] at es
    refine ⟨positive', a, admitted, same, iff_of_true (issues_of_entry es entry) fun preempted => .inl ?_⟩
    refine fresh.resolve_left fun waiting => ?_
    rw [PoolEngine.status, found, Option.map_some, waiting] at preempted
    cases preempted
  | @resumed a live req admitted same found prepared sync again v1 _ _ bs only unlisted =>
    obtain ⟨positive', count⟩ := enabled prepared
    obtain ⟨unfinished, kept⟩ := alive admitted found
    obtain ⟨promised, _⟩ := prepared.promised (count ▸ positive')
    have preempted : e.status load.1 = some .preempted := by
      rw [PoolEngine.status, found, Option.map_some, again]
    have sync' := sync (count ▸ positive')
    obtain ⟨spec, view⟩ := prepared.same
    have cfg : (s.view load.1).pool.config = e.connector.config := congrArg ConnectorView.config view
    have flag : (s.view load.1).pool.preempted = decide (load.1 ∈ e.connector.preemptedReqIds) := by
      rw [← same]
      rw [← same] at view
      exact congrArg ConnectorView.preempted view
    have when : Delivered e load.1 ↔ e.connector.config.forceSkipSave = false ∧
        load.1 ∈ e.connector.preemptedReqIds := by
      unfold Delivered
      rw [v1, sync']
      simp only [preempted, forall_const, Bool.false_eq_true, false_or]
    refine ⟨positive', a, admitted, same, ?_⟩
    rw [when]
    rcases (stepped.handled load.1 unfinished).of_resumed kept unlisted bs
      (legal.admitted a admitted).2 only with
      ⟨skips, es⟩ | ⟨saves, _, rm, es, entry⟩
    · rw [cfg] at skips
      rw [← same] at es
      refine iff_of_false (not_issues_of_quiet none es ?_) fun both => ?_
      · intro m none
        cases none
      · exact absurd (both.1.symm.trans skips) Bool.false_ne_true
    · rw [cfg] at saves
      rw [flag, promised, count] at entry
      rw [← same] at es
      by_cases known : load.1 ∈ e.connector.preemptedReqIds
      · rw [if_pos (decide_eq_true known)] at entry
        exact iff_of_true (issues_of_entry es entry) ⟨saves, known⟩
      · rw [if_neg (by rw [decide_eq_true_eq]; exact known)] at entry
        exact iff_of_false (not_issues_of_quiet rm es entry) fun both => known both.2
  | other _ untouched =>
    obtain ⟨spec, live, scheduled, shape, _, _⟩ := untouched
    rw [shape] at seen
    cases seen

/-- Every step that `schedule` can decide on runs through, in every reachable state. A load that it
enabled is issued with its metadata, unless the request is resumed with a synchronous load that the
connector passes over. -/
theorem enabled_loads_issued {config : KVPoolConfig} {useV2ModelRunner : Bool}
    (reachable : Reachable config useV2ModelRunner e) (legal : e.Legal plan) :
    ∃ enabled metadata e', e.schedule plan = .ok (enabled, metadata, e') ∧ ∀ load ∈ enabled, 0 < load.2 ∧
      ∃ a ∈ plan.admissions, a.requestId = load.1 ∧ (Issues metadata a load.2 ↔ Delivered e load.1) := by
  obtain ⟨s, metadata, e', ran, stepped⟩ := schedule_total reachable.inv legal
  exact ⟨s.enabled, metadata, e', ran, fun load member => stepped.issues reachable.inv legal member⟩

/-! ### A request that is loaded, preempted and loaded again -/

def poolConfig (kvRole : KvRole) : KVPoolConfig where
  kvRole := kvRole
  consumerIsToLoad := true
  consumerIsToPut := false
  loadAsync := false
  useLayerwise := false
  discardPartialChunks := true
  kvCacheGroupIds := [0]
  kvCacheGroupFamilies := [.default]
  originalBlockSize := [4]
  cpScale := 1

def pooledRequest : PoolRequest := ⟨replicate 8 0, replicate 8 0, [], 0⟩

def added (config : KVPoolConfig) : PoolEngine :=
  { new config false with requests := (new config false).requests.insert "a" ⟨pooledRequest, .waiting, 0⟩ }

def hit : Admission := ⟨"a", 0, fun _ _ _ => 4, [[1, 2]], 4⟩

theorem added_reachable (cfg : KVPoolConfig) : Reachable cfg false (added cfg) :=
  .addRequest "a" pooledRequest .start ⟨rfl, not_mem_nil⟩

theorem legal_hit (waiting : e.status "a" = some .waiting ∨ e.status "a" = some .preempted) :
    e.Legal ⟨[], [], [hit], none⟩ where
  preemptedRunning := by simp
  preemptedNodup := nodup_nil
  scheduledRunning := by simp
  runningNodup := nodup_nil
  admitted := by
    intro a mem
    cases mem_singleton.mp mem
    exact ⟨waiting, cons_ne_nil _ _⟩
  admittedNodup := nodup_singleton _
  refused := by simp
  undisturbed := fun absurdity => absurd rfl absurdity

theorem legal_preempt (running : e.status "a" = some .running) : e.Legal ⟨["a"], [], [], none⟩ where
  preemptedRunning := by
    intro id mem
    cases mem_singleton.mp mem
    exact running
  preemptedNodup := nodup_singleton _
  scheduledRunning := by simp
  runningNodup := nodup_nil
  admitted := by simp
  admittedNodup := nodup_nil
  refused := by simp
  undisturbed := fun _ => ⟨rfl, rfl⟩

theorem enabled_loads_issued_both : Reachable (poolConfig .kvBoth) false (added (poolConfig .kvBoth)) ∧
    ∃ enabled metadata e',
      (added (poolConfig .kvBoth)).schedule ⟨[], [], [hit], none⟩ = .ok (enabled, metadata, e') ∧
      enabled = [("a", 4)] ∧ ∀ load ∈ enabled, 0 < load.2 ∧ ∃ a ∈ [hit], a.requestId = load.1 ∧
        (Issues metadata a load.2 ↔ Delivered (added (poolConfig .kvBoth)) load.1) := by
  have loads : ((added (poolConfig .kvBoth)).schedule ⟨[], [], [hit], none⟩).map (·.1) = .ok [("a", 4)] := rfl
  obtain ⟨enabled, metadata, e', ran, each⟩ :=
    enabled_loads_issued (added_reachable (poolConfig .kvBoth)) (legal_hit (.inl rfl))
  rw [ran] at loads
  exact ⟨added_reachable _, enabled, metadata, e', ran, Except.ok.inj loads, each⟩

def resumedRun (config : KVPoolConfig) :
    Except PoolSchedulerError (PoolEngine × PoolEngine × List (String × Nat) ×
      AscendConnectorMetadata × PoolEngine) := do
  let (_, _, first) ← (added config).schedule ⟨[], [], [hit], none⟩
  let (_, _, second) ← first.schedule ⟨["a"], [], [], none⟩
  let (enabled, metadata, last) ← second.schedule ⟨[], [], [hit], none⟩
  return (first, second, enabled, metadata, last)

/-- A consumer that saves nothing promises the load again, and issues nothing. -/
theorem consumer_resumed_load_lost : ∃ e enabled metadata e', Reachable (poolConfig .kvConsumer) false e ∧
    e.Legal ⟨[], [], [hit], none⟩ ∧ e.schedule ⟨[], [], [hit], none⟩ = .ok (enabled, metadata, e') ∧
    ("a", 4) ∈ enabled ∧ ¬ Issues metadata hit 4 := by
  have evaluated : ((resumedRun (poolConfig .kvConsumer)).map fun r =>
      (r.1.status "a", r.2.1.status "a", r.2.2.1, r.2.2.2.1.requests.length)) =
      .ok (some .running, some .preempted, [("a", 4)], 0) := rfl
  obtain ⟨⟨first, second, enabled, metadata, last⟩, ran, values⟩ := map_ok evaluated
  simp only [Prod.mk.injEq] at values
  obtain ⟨running, preempted, loads, entries⟩ := values
  obtain ⟨⟨_, _, first'⟩, ran₁, ran⟩ := bind_ok ran
  obtain ⟨⟨_, _, second'⟩, ran₂, ran⟩ := bind_ok ran
  obtain ⟨⟨enabled', metadata', last'⟩, ran₃, ran⟩ := bind_ok ran
  cases pure_ok ran
  have reached₁ := Reachable.schedule (added_reachable _) (legal_hit (.inl rfl)) ran₁
  have reached₂ := Reachable.schedule reached₁ (legal_preempt running) ran₂
  refine ⟨second, enabled, metadata, last, reached₂, legal_hit (.inr preempted), ran₃,
    loads ▸ mem_cons_self, ?_⟩
  rintro ⟨entry, only, -⟩
  rw [length_eq_zero_iff.mp entries] at only
  cases only

end PoolEngine

end TurboQuant.Ascend
