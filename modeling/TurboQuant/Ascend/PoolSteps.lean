import TurboQuant.Ascend.PoolScheduler
import TurboQuant.Core.Scheduler

/-!
The steps of the engine as the KV pool connector sees them. What `schedule` decides by itself (whom
it preempts, which requests it takes up and with which blocks) is given by a plan; the calls to the
connector and the metadata of the step follow from it.
-/

namespace TurboQuant.Ascend
open TurboQuant.Core

structure LiveRequest where
  request : PoolRequest
  status : RequestStatus
  numPreemptions : Nat

structure PoolEngine where
  connector : KVPoolScheduler
  useV2ModelRunner : Bool
  requests : AList fun _ : String => LiveRequest
  finishedReqIds : List String

structure Admission where
  requestId : String
  numNewLocalComputedTokens : Nat
  lookup : Nat → List BlockHash → List Nat → Nat
  blocks : List (List Nat)
  numNewTokens : Nat

/-- A waiting request for which the pool is asked, but no blocks are left. It ends the loop. -/
structure Refusal where
  requestId : String
  numNewLocalComputedTokens : Nat
  lookup : Nat → List BlockHash → List Nat → Nat

structure RunningStep where
  requestId : String
  numNewTokens : Nat
  newBlockIds : Option (List (List Nat))

structure Plan where
  preempted : List String
  running : List RunningStep
  admissions : List Admission
  refused : Option Refusal

namespace PoolEngine

def new (config : KVPoolConfig) (useV2ModelRunner : Bool) : PoolEngine :=
  ⟨.new config, useV2ModelRunner, ∅, []⟩

def object (e : PoolEngine) (requestId : String) : PoolRequest :=
  ((e.requests.lookup requestId).map (·.request)).getD default

def status (e : PoolEngine) (requestId : String) : Option RequestStatus :=
  (e.requests.lookup requestId).map (·.status)

section
variable (e : PoolEngine)

def modify (requestId : String) (f : LiveRequest → LiveRequest) : PoolEngine :=
  match e.requests.lookup requestId with
  | none => e
  | some live => { e with requests := e.requests.insert requestId (f live) }

def preemptRequest (requestId : String) : PoolEngine :=
  e.modify requestId fun live =>
    { request := { live.request with numComputedTokens := 0 }
      status := .preempted
      numPreemptions := live.numPreemptions + 1 }

def updateAfterSchedule (scheduled : Sigma fun _ : String => Nat) : PoolEngine :=
  e.modify scheduled.1 fun live =>
    { live with request := { live.request with numComputedTokens :=
      live.request.numComputedTokens + scheduled.2 } }

/-- The pool is only asked for a request without computed tokens. -/
def askPool (requestId : String) (request : PoolRequest) (numNewLocalComputedTokens : Nat)
    (lookup : Nat → List BlockHash → List Nat → Nat) : (Nat × Bool) × KVPoolScheduler :=
  if request.numComputedTokens = 0 then
    e.connector.getNumNewMatchedTokens requestId request numNewLocalComputedTokens lookup
  else ((0, false), e.connector)

end

/-- The engine within a step. `enabled` lists the loads that `update_state_after_alloc` enabled. -/
structure Scheduling extends PoolEngine where
  scheduledNewReqs : List NewRequestData
  scheduledResumedReqs : List CachedRequestData
  numScheduledTokens : AList fun _ : String => Nat
  enabled : List (String × Nat)

section
variable (s : Scheduling) (a : Admission)

section
variable (live : LiveRequest) (numComputedTokens : Nat)

def addScheduled : Scheduling :=
  let s := { s with numScheduledTokens := s.numScheduledTokens.insert a.requestId a.numNewTokens }
  if live.status = .waiting ∨ s.useV2ModelRunner then
    { s with scheduledNewReqs :=
        s.scheduledNewReqs ++ [⟨a.requestId, live.request.promptTokenIds, a.blocks, numComputedTokens⟩] }
  else { s with scheduledResumedReqs := s.scheduledResumedReqs ++
    [⟨a.requestId, some a.blocks, numComputedTokens⟩] }

def startRequest (numExternalComputedTokens : Nat) (loadKvAsync : Bool)
    (connector : KVPoolScheduler) : Scheduling :=
  let enabled := (connector.loadSpecs.lookup a.requestId).any (·.canLoad)
  let started : LiveRequest := { live with
    request := { live.request with numComputedTokens := numComputedTokens }
    status := if loadKvAsync then .waitingForRemoteKvs else .running }
  { s with
    connector := connector
    requests := s.requests.insert a.requestId started
    enabled := s.enabled ++ if enabled then [(a.requestId, numExternalComputedTokens)] else [] }

end

def takeRequest : Except PoolSchedulerError Scheduling :=
  match s.requests.lookup a.requestId with
  | none => .ok s
  | some live =>
    let ((numExternalComputedTokens, loadKvAsync), connector) :=
      s.askPool a.requestId live.request a.numNewLocalComputedTokens a.lookup
    let numComputedTokens :=
      if live.request.numComputedTokens = 0 then a.numNewLocalComputedTokens + numExternalComputedTokens
      else live.request.numComputedTokens
    (connector.updateStateAfterAlloc a.requestId a.blocks numExternalComputedTokens).map fun connector =>
      let s := startRequest s a live numComputedTokens numExternalComputedTokens loadKvAsync connector
      if loadKvAsync then s else addScheduled s a live numComputedTokens

end

def refuse (e : PoolEngine) (r : Refusal) : PoolEngine :=
  match e.requests.lookup r.requestId with
  | none => e
  | some live => { e with connector :=
    (e.askPool r.requestId live.request r.numNewLocalComputedTokens r.lookup).2 }

def startStep (e : PoolEngine) (plan : Plan) : Scheduling where
  toPoolEngine := plan.preempted.foldl preemptRequest e
  scheduledNewReqs := []
  scheduledResumedReqs := []
  numScheduledTokens := plan.running.foldl (fun scheduled step =>
    scheduled.insert step.requestId step.numNewTokens) ∅
  enabled := []

def output (s : Scheduling) (plan : Plan) : SchedulerOutput where
  scheduledNewReqs := s.scheduledNewReqs
  scheduledCachedReqs :=
    plan.running.map (fun step => ⟨step.requestId, step.newBlockIds,
      (s.object step.requestId).numComputedTokens⟩) ++ s.scheduledResumedReqs
  numScheduledTokens := s.numScheduledTokens
  preemptedReqIds := plan.preempted
  finishedReqIds := s.finishedReqIds

def takeUp (e : PoolEngine) (plan : Plan) : Except PoolSchedulerError Scheduling := do
  let s ← plan.admissions.foldlM takeRequest (e.startStep plan)
  return { s with toPoolEngine := plan.refused.elim s.toPoolEngine s.refuse }

/-- One call of `schedule`: the loads it enabled, the metadata it built and the engine after it. -/
def schedule (e : PoolEngine) (plan : Plan) :
    Except PoolSchedulerError (List (String × Nat) × AscendConnectorMetadata × PoolEngine) := do
  let s ← e.takeUp plan
  let (metadata, connector) ← s.connector.buildConnectorMeta s.object (output s plan)
  let e := s.numScheduledTokens.entries.foldl updateAfterSchedule
    { s.toPoolEngine with connector := connector, finishedReqIds := [] }
  return (s.enabled, metadata, e)

/-- What `schedule` can decide in a state. Waiting requests are only taken up in steps without
preemption. -/
structure Legal (e : PoolEngine) (plan : Plan) : Prop where
  preemptedRunning : ∀ id ∈ plan.preempted, e.status id = some .running
  preemptedNodup : plan.preempted.Nodup
  scheduledRunning : ∀ step ∈ plan.running, e.status step.requestId = some .running ∧
    step.requestId ∉ plan.preempted
  runningNodup : (plan.running.map (·.requestId)).Nodup
  admitted : ∀ a ∈ plan.admissions,
    (e.status a.requestId = some .waiting ∨ e.status a.requestId = some .preempted) ∧ a.blocks ≠ []
  admittedNodup : (plan.admissions.map (·.requestId)).Nodup
  refused : ∀ r ∈ plan.refused, r.requestId ∉ plan.admissions.map (·.requestId)
  undisturbed : plan.preempted ≠ [] → plan.admissions = [] ∧ plan.refused = none

/-- The states of the engine over all sequences of steps and of the events between them. -/
inductive Reachable (config : KVPoolConfig) (useV2ModelRunner : Bool) : PoolEngine → Prop
  | start : Reachable config useV2ModelRunner (.new config useV2ModelRunner)
  | schedule {e e' : PoolEngine} {plan : Plan} {enabled : List (String × Nat)} {metadata : AscendConnectorMetadata}
      (before : Reachable config useV2ModelRunner e) (legal : e.Legal plan)
      (ran : e.schedule plan = .ok (enabled, metadata, e')) : Reachable config useV2ModelRunner e'
  /-- An id is not used again before the connector knows that it is finished. -/
  | addRequest {e : PoolEngine} (requestId : String) (request : PoolRequest)
    (before : Reachable config useV2ModelRunner e)
      (unused : e.requests.lookup requestId = none ∧ requestId ∉ e.finishedReqIds) :
      Reachable config useV2ModelRunner { e with requests := e.requests.insert requestId ⟨request, .waiting, 0⟩ }
  | finishRequest {e : PoolEngine} (requestId : String) (before : Reachable config useV2ModelRunner e) :
      Reachable config useV2ModelRunner
        { e with requests := e.requests.erase requestId, finishedReqIds := e.finishedReqIds ++ [requestId] }
  /-- Sampled tokens, rejected drafts, failed loads, and the input of a streaming session. -/
  | progress {e : PoolEngine} (requestId : String) (f : PoolRequest → PoolRequest)
    (before : Reachable config useV2ModelRunner e) :
      Reachable config useV2ModelRunner (e.modify requestId fun live => { live with request := f live.request })
  | finishRecving {e : PoolEngine} (requestId : String) (before : Reachable config useV2ModelRunner e)
      (waits : e.status requestId = some .waitingForRemoteKvs) :
      Reachable config useV2ModelRunner (e.modify requestId fun live =>
        { live with status := if live.numPreemptions = 0 then .waiting else .preempted })
  /-- A streaming session stops and goes on with its next input. -/
  | continueSession {e : PoolEngine} (requestId : String) (before : Reachable config useV2ModelRunner e) :
      Reachable config useV2ModelRunner (e.modify requestId fun live => { live with status := .waiting })
  /-- `reset_prefix_cache` preempts running requests outside of a step. -/
  | resetPrefixCache {e : PoolEngine} (running : List String) (before : Reachable config useV2ModelRunner e)
      (all : ∀ id ∈ running, e.status id = some .running) :
      Reachable config useV2ModelRunner (running.foldl preemptRequest e)

end PoolEngine

end TurboQuant.Ascend
