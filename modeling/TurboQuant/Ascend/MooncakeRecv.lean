import TurboQuant.Ascend.MooncakePlan
import TurboQuant.Lib.Runs

/-!
The thread of a decode worker that pulls the blocks, and the tracker that tells which requests are
complete.
-/

namespace TurboQuant.Ascend.Mooncake

/-- The tracker of the receiving thread. Requests with a delayed release exist on prefill nodes
only. -/
structure KVCacheTaskTracker where
  finishedRequests : Finset String
  reqsToProcess : Finset String

namespace KVCacheTaskTracker

section
variable (tracker : KVCacheTaskTracker)

def addReqToProcess (requestId : String) : KVCacheTaskTracker :=
  { tracker with reqsToProcess := insert requestId tracker.reqsToProcess }

def updateDoneTaskCount (requestId : String) : KVCacheTaskTracker :=
  if requestId ∈ tracker.reqsToProcess then
    ⟨insert requestId tracker.finishedRequests, tracker.reqsToProcess.erase requestId⟩
  else tracker

def getAndClearFinishedRequests : Finset String × KVCacheTaskTracker :=
  (tracker.finishedRequests, { tracker with finishedRequests := ∅ })

end

end KVCacheTaskTracker

structure KVCacheRecvingThread where
  requestQueue : List (String × PullTask)
  taskTracker : KVCacheTaskTracker
  failedRecvRequests : Finset String
  invalidBlockIds : Finset Nat

/-- If a pull returns. Without local blocks there is nothing to read, otherwise the read may
fail. -/
def PullTask.transferReturns (task : PullTask) (readOk : Bool) : Bool :=
  match task.transfer with
  | .ok pulls => pulls.isEmpty || readOk
  | .error _ => false

namespace KVCacheRecvingThread

section
variable (thread : KVCacheRecvingThread) (requestId : String)

def addRequest (task : PullTask) : KVCacheRecvingThread :=
  { thread with requestQueue := thread.requestQueue ++ [(requestId, task)] }

def markFailedRecvRequest (localBlockIds : List Nat) : KVCacheRecvingThread :=
  { thread with
    failedRecvRequests := insert requestId thread.failedRecvRequests
    invalidBlockIds := thread.invalidBlockIds ∪ localBlockIds.toFinset }

def clearFailedRecvRequest : KVCacheRecvingThread :=
  { thread with failedRecvRequests := thread.failedRecvRequests.erase requestId }

def tryTransfer (task : PullTask) (readOk : Bool) : KVCacheRecvingThread × Bool :=
  if requestId ∈ thread.failedRecvRequests then
    (thread.markFailedRecvRequest requestId task.localBlockIds, true)
  else if task.transferReturns readOk then (thread, false)
  else (thread.markFailedRecvRequest requestId task.localBlockIds, true)

/-- The second part: the last task of a request reports it, unless that task is empty and nothing
has failed. -/
def reportDone (task : PullTask) (transferFailed : Bool) : KVCacheRecvingThread :=
  if task.allTaskDone then
    let thread := if task.localBlockIds.length > 0 ∨ transferFailed then
        { thread with taskTracker := thread.taskTracker.updateDoneTaskCount requestId }
      else thread
    thread.clearFailedRecvRequest requestId
  else thread

end

def getAndClearInvalidBlockIds (thread : KVCacheRecvingThread) : Finset Nat × KVCacheRecvingThread :=
  (thread.invalidBlockIds, { thread with invalidBlockIds := ∅ })

end KVCacheRecvingThread

/-! ### Both threads -/

/-- What the scheduler sends in one step. Each request comes with the prefill ranks that are chosen
for it. -/
structure MooncakeConnectorMetadata where
  requests : List (String × List Nat × ReqMeta)
  reqsInBatch : List String
  requestsDistinct : (requests.map Prod.fst).Nodup
  batchDistinct : reqsInBatch.Nodup
  /-- `update_state_after_alloc` notes every request of the first list in the second. -/
  inBatch : ∀ entry ∈ requests, entry.1 ∈ reqsInBatch

inductive WorkerOp
  | addRequest (requestId : String) (task : PullTask)
  | addReqToProcess (requestId : String)

namespace MooncakeConnectorWorker

/-- The writes of `start_load_kv`: all tasks are queued before the first request is registered. -/
def loadOps (w : MooncakeConnectorWorker) (metadata : MooncakeConnectorMetadata) :
    Except MooncakeError (List WorkerOp) := do
  let tasks ← metadata.requests.mapM fun entry =>
    (w.startLoadKv entry.2.1 entry.2.2).map (·.map (WorkerOp.addRequest entry.1))
  return tasks.flatten ++ metadata.reqsInBatch.map .addReqToProcess

end MooncakeConnectorWorker

/-- What the receiving thread does at the moment: a task that was taken from the queue, and after
the pull if the request has failed. -/
structure RecvSystem where
  thread : KVCacheRecvingThread
  handling : Option ((String × PullTask) × Option Bool)
  /-- The rest of a running `start_load_kv`. -/
  remaining : List WorkerOp
  /-- The requests that the scheduler has sent so far. -/
  sent : Finset String
  /-- What `get_finished` has returned so far. -/
  returned : Multiset String

def WorkerOp.run (thread : KVCacheRecvingThread) : WorkerOp → KVCacheRecvingThread
  | .addRequest requestId task => thread.addRequest requestId task
  | .addReqToProcess requestId => { thread with taskTracker := thread.taskTracker.addReqToProcess requestId }

inductive RecvAction
  | startLoadKv (metadata : MooncakeConnectorMetadata)
  | write
  | getFinished
  | getBlockIdsWithLoadErrors
  | get
  | transfer (readOk : Bool)
  | report

/-- One step of either thread. Methods of the worker are called one after the other, and a request
is sent once. -/
inductive RecvStep (w : MooncakeConnectorWorker) : RecvSystem → RecvAction → RecvSystem → Prop
  | startLoadKv {s : RecvSystem} {metadata : MooncakeConnectorMetadata} {ops : List WorkerOp}
      (idle : s.remaining = [])
      (loaded : w.loadOps metadata = .ok ops) (fresh : ∀ requestId ∈ metadata.reqsInBatch,
        requestId ∉ s.sent) :
      RecvStep w s (.startLoadKv metadata) { s with remaining := ops, sent :=
        s.sent ∪ metadata.reqsInBatch.toFinset }
  | write {s : RecvSystem} {op : WorkerOp} {ops : List WorkerOp} (next : s.remaining = op :: ops) :
      RecvStep w s .write { s with thread := op.run s.thread, remaining := ops }
  | getFinished {s : RecvSystem} (idle : s.remaining = []) :
      RecvStep w s .getFinished
        { s with
          thread := { s.thread with taskTracker := s.thread.taskTracker.getAndClearFinishedRequests.2 }
          returned := s.returned + s.thread.taskTracker.getAndClearFinishedRequests.1.val }
  | getBlockIdsWithLoadErrors {s : RecvSystem} (idle : s.remaining = []) :
      RecvStep w s .getBlockIdsWithLoadErrors { s with thread := s.thread.getAndClearInvalidBlockIds.2 }
  | get {s : RecvSystem} {entry : String × PullTask} {queue : List (String × PullTask)} (free : s.handling = none)
      (next : s.thread.requestQueue = entry :: queue) :
      RecvStep w s .get { s with thread := { s.thread with requestQueue := queue }, handling := some (entry, none) }
  | transfer {s : RecvSystem} {entry : String × PullTask} (taken : s.handling = some (entry, none)) (readOk : Bool) :
      RecvStep w s (.transfer readOk)
        { s with
          thread := (s.thread.tryTransfer entry.1 entry.2 readOk).1
          handling := some (entry, some (s.thread.tryTransfer entry.1 entry.2 readOk).2) }
  | report {s : RecvSystem} {entry : String × PullTask} {transferFailed : Bool}
      (pulled : s.handling = some (entry, some transferFailed)) :
      RecvStep w s .report { s with thread := s.thread.reportDone entry.1 entry.2 transferFailed, handling := none }

def RecvSystem.init : RecvSystem := ⟨⟨[], ⟨∅, ∅⟩, ∅, ∅⟩, none, [], ∅, 0⟩

def RecvAction.IsReceiving : RecvAction → Prop
  | .get | .transfer _ | .report => True
  | _ => False

/-- A run in which the engine keeps asking for finished requests and the receiving thread does not
stand still. -/
structure RecvRun (w : MooncakeConnectorWorker) extends Run (RecvStep w) RecvSystem.init where
  polled : ∀ n, ∃ m ≥ n, action m = .getFinished
  served : ∀ n, (state n).handling ≠ none ∨ (state n).thread.requestQueue ≠ [] → ∃ m ≥ n,
    (action m).IsReceiving

end TurboQuant.Ascend.Mooncake
