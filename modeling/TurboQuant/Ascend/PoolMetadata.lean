import TurboQuant.Ascend.PoolViews

/-!
The metadata of a step, request by request: which part of `build_connector_meta` handles a request,
what it leaves of the request's load spec, and which entries it adds.
-/

namespace TurboQuant.Ascend
open List Keyed

namespace SchedulerOutput

def newIds (output : SchedulerOutput) : List String := output.scheduledNewReqs.map (·.reqId)

def cachedIds (output : SchedulerOutput) : List String := output.scheduledCachedReqs.map (·.reqId)

end SchedulerOutput

namespace KVPoolScheduler

structure Ready (s : KVPoolScheduler) (output : SchedulerOutput) : Prop where
  preemptedNodup : output.preemptedReqIds.Nodup
  nodup : (output.newIds ++ output.cachedIds).Nodup
  live : ∀ id ∈ output.newIds ++ output.cachedIds, id ∉ output.finishedReqIds ∧ id ∉ output.preemptedReqIds
  scheduled : ∀ id ∈ output.newIds ++ output.cachedIds, (output.numScheduledTokens.lookup id).isSome
  allocated : ∀ id ∈ output.newIds ++ output.cachedIds, (view id s).blockIds.isSome
  known : s.config.forceSkipSave = false → ∀ id ∈ output.cachedIds, (view id s).preempted = true ∨
    (view id s).tracker.isSome

inductive Handled (output : SchedulerOutput) (id : String) (before after : ConnectorView)
    (entries : List ReqMeta) : Prop
  | preempted (member : id ∈ output.preemptedReqIds)
      (forgotten : after = { before with tracker := none, preempted := true, blockIds := none })
        (none : entries = [])
  | new {request : NewRequestData} {tracker : RequestTracker} {reqMeta : Option ReqMeta}
      (member : request ∈ output.scheduledNewReqs) (same : request.reqId = id)
      (started : after = { before with loadSpec := none, tracker := some tracker })
        (one : entries = reqMeta.toList)
      (entry : IsEntry before.loadSpec request.blockIds reqMeta)
  | passed {request : CachedRequestData} (member : request ∈ output.scheduledCachedReqs)
      (same : request.reqId = id)
      (reason : before.config.forceSkipSave = true ∨ request.newBlockIds = none ∨
        request.newBlockIds = some [])
      (unchanged : after = before) (none : entries = [])
  | cached {request : CachedRequestData} {newBlockIds : List (List Nat)}
      (member : request ∈ output.scheduledCachedReqs)
      (same : request.reqId = id) (saves : before.config.forceSkipSave = false)
        (given : request.newBlockIds = some newBlockIds)
      (nonempty : newBlockIds ≠ []) (handled : Building.CachedAt (before, []) (after, entries) newBlockIds)
  | waiting {blockIds : List (List Nat)} {tracker : Option RequestTracker} {reqMeta : Option ReqMeta}
      (kept : id ∉ output.preemptedReqIds) (other : id ∉ output.newIds ++ output.cachedIds)
      (allocated : before.blockIds = some blockIds)
      (popped : after = { before with loadSpec := none, tracker := tracker }) (one : entries = reqMeta.toList)
      (entry : IsEntry before.loadSpec blockIds reqMeta)
      (tracked : before.loadSpec.isSome ∨ before.tracker.isSome → tracker.isSome)
  | idle (kept : id ∉ output.preemptedReqIds) (other : id ∉ output.newIds ++ output.cachedIds)
      (unallocated : before.blockIds = none) (unchanged : after = before) (none : entries = [])

def noted (s : KVPoolScheduler) (output : SchedulerOutput) : KVPoolScheduler :=
  output.preemptedReqIds.foldl notePreempted (output.finishedReqIds.foldl forgetFinished s)

section
variable (s : KVPoolScheduler) {out : SchedulerOutput} {id : String} (unfinished : id ∉ out.finishedReqIds)
include unfinished

theorem noted_other (kept : id ∉ out.preemptedReqIds) : view id (s.noted out) = view id s := by
  unfold noted
  rw [foldl_other view (fun rid => rid) notePreempted_other (by rwa [map_id']),
    foldl_other view (fun rid => rid) forgetFinished_other (by rwa [map_id'])]

theorem noted_preempted (nodup : out.preemptedReqIds.Nodup) (mem : id ∈ out.preemptedReqIds) :
    view id (s.noted out) = { view id s with tracker := none, preempted := true, blockIds := none } := by
  obtain ⟨before, same, after⟩ := foldl_at view (fun rid => rid) notePreempted_other (by rwa [map_id'])
    (out.finishedReqIds.foldl forgetFinished s) mem
  rw [foldl_other view (fun rid => rid) forgetFinished_other (by rwa [map_id'])] at same
  unfold noted
  rw [after, notePreempted_at, same]

end

namespace Building
variable (os : String → PoolRequest) {out : SchedulerOutput}

/-! ### The three loops -/

theorem newReqs_total {s : Building} (nodup : out.newIds.Nodup)
    (scheduled : ∀ id ∈ out.newIds, (out.numScheduledTokens.lookup id).isSome)
    (alloc : ∀ id ∈ out.newIds, (view id s).1.blockIds.isSome) :
    ∃ s', out.scheduledNewReqs.foldlM (addNew os out.numScheduledTokens) s = .ok s' ∧
      (∀ id, id ∉ out.newIds → view id s' = view id s) ∧ ∀ req ∈ out.scheduledNewReqs, ∃ tracker reqMeta,
        view req.reqId s' = ({ (view req.reqId s).1 with loadSpec := none, tracker := some tracker },
          (view req.reqId s).2 ++ reqMeta.toList) ∧
            IsEntry (view req.reqId s).1.loadSpec req.blockIds reqMeta := by
  obtain ⟨s', ran, others, each⟩ := foldlM_total view NewRequestData.reqId (addNew os out.numScheduledTokens)
    out.scheduledNewReqs s
    (fun s req s' ran id other => by
      obtain ⟨n, rfl⟩ := addNew_ok ran
      exact addStarted_other _ _ _ _ _ _ id other)
    (fun req mem before same => by
      have listed : req.reqId ∈ out.newIds := mem_map_of_mem mem
      exact addNew_runs (scheduled _ listed) (same ▸ alloc _ listed)) nodup
  refine ⟨s', ran, others, fun req mem => ?_⟩
  obtain ⟨before, after, same, stepped, final⟩ := each req mem
  obtain ⟨n, rfl⟩ := addNew_ok stepped
  obtain ⟨tracker, reqMeta, started, e⟩ := addStarted_at before (os req.reqId) req.reqId req.promptTokenIds
    req.blockIds (req.numComputedTokens + n)
  rw [same] at started e
  exact ⟨tracker, reqMeta, final.trans started, e⟩

theorem cachedReqs_total {s : Building} (nodup : out.cachedIds.Nodup)
    (scheduled : ∀ id ∈ out.cachedIds, (out.numScheduledTokens.lookup id).isSome)
    (alloc : ∀ id ∈ out.cachedIds, (view id s).1.blockIds.isSome)
    (known : ∀ id ∈ out.cachedIds, (view id s).1.preempted = true ∨ (view id s).1.tracker.isSome) :
    ∃ s', out.scheduledCachedReqs.foldlM (addCached os out.numScheduledTokens) s = .ok s' ∧
      (∀ id, id ∉ out.cachedIds → view id s' = view id s) ∧ ∀ req ∈ out.scheduledCachedReqs,
        (req.newBlockIds = none ∨ req.newBlockIds = some []) ∧ view req.reqId s' = view req.reqId s ∨
        ∃ newBlockIds, req.newBlockIds = some newBlockIds ∧ newBlockIds ≠ [] ∧
          CachedAt (view req.reqId s) (view req.reqId s') newBlockIds := by
  obtain ⟨s', ran, others, each⟩ := foldlM_total view CachedRequestData.reqId
    (addCached os out.numScheduledTokens) out.scheduledCachedReqs s
    (fun s req s' ran id other => (addCached_views ran).1 id other)
    (fun req mem before same => by
      have listed : req.reqId ∈ out.cachedIds := mem_map_of_mem mem
      exact addCached_runs (scheduled _ listed) (same ▸ alloc _ listed) (same ▸ known _ listed)) nodup
  refine ⟨s', ran, others, fun req mem => ?_⟩
  obtain ⟨before, after, same, stepped, final⟩ := each req mem
  rw [final, ← same]
  refine (addCached_views stepped).2.imp (fun ⟨empty, unchanged⟩ => ⟨empty, ?_⟩) fun given => given
  rw [unchanged]

theorem waiting_views (s : Building) (scheduled : List String) (id : String) :
    let s' := s.unfinishedRequests.entries.reverse.foldl (addWaiting os scheduled) s
    (id ∈ scheduled ∨ (view id s).1.blockIds = none → view id s' = view id s) ∧
      ∀ blockIds, id ∉ scheduled → (view id s).1.blockIds = some blockIds → ∃ tracker rm,
        view id s' = ({ (view id s).1 with loadSpec := none, tracker := tracker }, (view id s).2 ++
          Option.toList rm) ∧
        IsEntry (view id s).1.loadSpec blockIds rm ∧
        ((view id s).1.loadSpec.isSome ∨ (view id s).1.tracker.isSome → tracker.isSome) := by
  intro s'
  have frame : ∀ (s : Building) (e : Sigma fun _ : String => List (List Nat)) id, id ≠ e.1 →
      view id (addWaiting os scheduled s e) = view id s := fun s e id other => addWaiting_other other
  have nodup : (s.unfinishedRequests.entries.reverse.map Sigma.fst).Nodup := by
    rw [map_reverse, nodup_reverse]
    exact s.unfinishedRequests.nodupKeys
  have at_ : ∀ blockIds, (view id s).1.blockIds = some blockIds → ∃ before, view id before = view id s ∧
      view id s' = view id (addWaiting os scheduled before ⟨id, blockIds⟩) := fun blockIds alloc =>
    foldl_at view Sigma.fst frame nodup s (mem_reverse.mpr (AList.mem_lookup_iff.mp alloc))
  constructor
  · intro reason
    cases alloc : (view id s).1.blockIds with
    | none =>
      refine foldl_other view Sigma.fst frame ?_ s
      intro mem
      rw [map_reverse, mem_reverse] at mem
      have present := AList.lookup_isSome.mpr (show id ∈ s.unfinishedRequests from mem)
      have absent : s.unfinishedRequests.lookup id = none := alloc
      rw [absent] at present
      cases present
    | some blockIds =>
      have listed : id ∈ scheduled := reason.resolve_right (by rw [alloc]; exact Option.some_ne_none _)
      obtain ⟨before, same, after⟩ := at_ blockIds alloc
      rw [after, addWaiting, if_pos listed, same]
  · intro blockIds other alloc
    obtain ⟨before, same, after⟩ := at_ blockIds alloc
    obtain ⟨tracker, rm, popped, e, tracked⟩ := addWaiting_at os before
      (show (⟨id, blockIds⟩ : Sigma fun _ : String => List (List Nat)).1 ∉ scheduled from other)
    rw [same] at popped e tracked
    exact ⟨tracker, rm, after.trans popped, e, tracked⟩

end Building

section
variable (os : String → PoolRequest) {out : SchedulerOutput} {s : KVPoolScheduler}

theorem Ready.noted_view (ready : s.Ready out) {id : String} (mem : id ∈ out.newIds ++ out.cachedIds) :
    view id (s.noted out) = view id s := noted_other s (ready.live id mem).1 (ready.live id mem).2

variable {building : Building}

theorem addCachedReqs_total (nodup : out.cachedIds.Nodup)
    (scheduled : ∀ id ∈ out.cachedIds, (out.numScheduledTokens.lookup id).isSome)
    (alloc : ∀ id ∈ out.cachedIds, (Building.view id building).1.blockIds.isSome)
    (known : building.config.forceSkipSave = false → ∀ id ∈ out.cachedIds,
      (Building.view id building).1.preempted = true ∨ (Building.view id building).1.tracker.isSome) :
    ∃ building', addCachedReqs building os out = .ok building' ∧
      (∀ id, id ∉ out.cachedIds → Building.view id building' = Building.view id building) ∧
      ∀ req ∈ out.scheduledCachedReqs,
        (building.config.forceSkipSave = true ∨ req.newBlockIds = none ∨ req.newBlockIds = some []) ∧
          Building.view req.reqId building' = Building.view req.reqId building ∨
        building.config.forceSkipSave = false ∧ ∃ newBlockIds, req.newBlockIds = some newBlockIds ∧
          newBlockIds ≠ [] ∧
          Building.CachedAt (Building.view req.reqId building) (Building.view req.reqId building')
            newBlockIds := by
  cases skip : building.config.forceSkipSave with
  | true => exact ⟨building, if_pos skip, fun _ _ => rfl, fun _ _ => .inl ⟨.inl rfl, rfl⟩⟩
  | false =>
    obtain ⟨building', ran, others, each⟩ := Building.cachedReqs_total os nodup scheduled alloc (known skip)
    refine ⟨building', (if_neg (by rw [skip]; exact Bool.false_ne_true)).trans ran, others, fun req mem => ?_⟩
    exact (each req mem).imp (fun ⟨empty, same⟩ => ⟨.inr empty, same⟩) fun given => ⟨rfl, given⟩

theorem buildConnectorMeta_total (ready : s.Ready out) :
    ∃ md s', s.buildConnectorMeta os out = .ok (md, s') ∧ ∀ id, id ∉ out.finishedReqIds →
      Handled out id (view id s) (view id s') (md.requests.filter fun m => decide (m.reqId = id)) := by
  obtain ⟨newDistinct, cachedDistinct, apart⟩ := nodup_append.mp ready.nodup
  have start : ∀ id, Building.view id ⟨s.noted out, []⟩ = (view id (s.noted out), []) := fun _ => rfl
  have left : ∀ id ∈ out.newIds, id ∈ out.newIds ++ out.cachedIds := fun _ => mem_append_left _
  have right : ∀ id ∈ out.cachedIds, id ∈ out.newIds ++ out.cachedIds := fun _ => mem_append_right _
  have separate : ∀ id ∈ out.cachedIds, id ∉ out.newIds := fun id cached new => apart id new id cached rfl
  obtain ⟨b₁, ran₁, others₁, each₁⟩ := Building.newReqs_total os newDistinct
    (fun id mem => ready.scheduled id (left id mem))
    (fun id mem => by
      rw [start, ready.noted_view (left id mem)]
      exact ready.allocated id (left id mem))
  have before₂ : ∀ id ∈ out.cachedIds, Building.view id b₁ = (view id s, []) := fun id mem => by
    rw [others₁ id (separate id mem), start, ready.noted_view (right id mem)]
  have config₁ : ∀ id ∈ out.cachedIds, b₁.config = s.config := fun id mem =>
    congrArg (fun view => view.1.config) (before₂ id mem)
  obtain ⟨b₂, ran₂, others₂, each₂⟩ := addCachedReqs_total os cachedDistinct
    (fun id mem => ready.scheduled id (right id mem))
    (fun id mem => by
      rw [before₂ id mem]
      exact ready.allocated id (right id mem))
    (fun saves id mem => by
      rw [before₂ id mem]
      exact ready.known (config₁ id mem ▸ saves) id mem)
  have last := Building.waiting_views os b₂ (out.newIds ++ out.cachedIds)
  set b₃ := b₂.unfinishedRequests.entries.reverse.foldl (Building.addWaiting os (out.newIds ++ out.cachedIds)) b₂
  refine ⟨⟨b₃.requests, (s.noted out).unfinishedRequestIds, out.preemptedReqIds⟩, b₃.toKVPoolScheduler, ?_,
    fun id unfinished => ?_⟩
  · show (out.scheduledNewReqs.foldlM _ (⟨s.noted out, []⟩ : Building) >>= _) = _
    rw [ran₁]
    show (addCachedReqs b₁ os out >>= _) = _
    rw [ran₂]
    rfl
  · show Handled out id (view id s) (Building.view id b₃).1 (Building.view id b₃).2
    by_cases preempted : id ∈ out.preemptedReqIds
    · have other : id ∉ out.newIds ++ out.cachedIds := fun mem => (ready.live id mem).2 preempted
      rw [mem_append, not_or] at other
      have here : Building.view id b₂ =
          ({ view id s with tracker := none, preempted := true, blockIds := none }, []) := by
        rw [others₂ id other.2, others₁ id other.1, start, noted_preempted s unfinished ready.preemptedNodup preempted]
      rw [(last id).1 (.inr (by rw [here])), here]
      exact .preempted preempted rfl rfl
    have kept : view id (s.noted out) = view id s := noted_other s unfinished preempted
    by_cases new : id ∈ out.newIds
    · obtain ⟨req, mem, rfl⟩ := mem_map.mp new
      obtain ⟨tracker, rm, started, e⟩ := each₁ req mem
      rw [(last req.reqId).1 (.inl (left _ new)), others₂ _ (fun cached => separate _ cached new), started]
      rw [start, kept] at e ⊢
      exact .new mem rfl rfl (nil_append _) e
    by_cases cached : id ∈ out.cachedIds
    · obtain ⟨req, mem, rfl⟩ := mem_map.mp cached
      rw [(last req.reqId).1 (.inl (right _ cached))]
      have config := config₁ _ cached
      rcases each₂ req mem with ⟨reason, same⟩ | ⟨saves, newBlockIds, given, nonempty, handled⟩
      · rw [config] at reason
        rw [same, before₂ _ cached]
        exact .passed mem rfl reason rfl rfl
      · rw [config] at saves
        rw [before₂ _ cached] at handled
        exact .cached mem rfl saves given nonempty handled
    have other : id ∉ out.newIds ++ out.cachedIds := by
      rw [mem_append, not_or]
      exact ⟨new, cached⟩
    have here : Building.view id b₂ = (view id s, []) := by
      rw [others₂ id cached, others₁ id new, start, kept]
    cases alloc : (view id s).blockIds with
    | none =>
      rw [(last id).1 (.inr (by rw [here]; exact alloc)), here]
      exact .idle preempted other alloc rfl rfl
    | some blockIds =>
      obtain ⟨tracker, rm, popped, e, tracked⟩ := (last id).2 blockIds other (by rw [here]; exact alloc)
      rw [popped]
      rw [here] at e tracked ⊢
      exact .waiting preempted other alloc rfl (nil_append _) e tracked

end

end KVPoolScheduler

end TurboQuant.Ascend
