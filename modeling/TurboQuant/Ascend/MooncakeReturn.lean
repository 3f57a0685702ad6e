import TurboQuant.Ascend.MooncakeRecv
import TurboQuant.Lib.OrderedDict

/-!
The life of one request in the two threads of a decode worker. A step of either thread is at most
one event for a request.
-/

namespace TurboQuant.Ascend.Mooncake
open Outcome List RecvSystem Nat WorkerOp RecvSystem MooncakeConnectorWorker

variable {transferFailed failed : Bool} {tasks : List PullTask} {ops : List WorkerOp} {m : Nat}
  {task t : PullTask} {entry e : String × PullTask}

def WorkerOp.queued : WorkerOp → Option (String × PullTask)
  | .addRequest requestId task => some (requestId, task)
  | .addReqToProcess _ => none

def WorkerOp.registered : WorkerOp → Option String
  | .addRequest _ _ => none
  | .addReqToProcess requestId => some requestId

def RecvSystem.line (s : RecvSystem) : List (String × PullTask) :=
  (s.handling.map Prod.fst).toList ++ (s.thread.requestQueue ++ s.remaining.filterMap queued)

@[ext]
structure RequestView where
  sent : Bool
  tasks : List PullTask
  /-- Registrations that are still to be made. -/
  registrations : Nat
  registered : Bool
  finished : Bool
  returned : Nat

def tasksOf (requestId : String) (line : List (String × PullTask)) : List PullTask :=
  (line.filter (·.1 = requestId)).map Prod.snd

def RecvSystem.view (s : RecvSystem) (requestId : String) : RequestView where
  sent := requestId ∈ s.sent
  tasks := tasksOf requestId s.line
  registrations := (s.remaining.filterMap registered).count requestId
  registered := requestId ∈ s.thread.taskTracker.reqsToProcess
  finished := requestId ∈ s.thread.taskTracker.finishedRequests
  returned := s.returned.count requestId

inductive RequestEvent
  | nothing
  | load (tasks : List PullTask)
  | register
  | report (task : PullTask) (transferFailed : Bool)
  | poll

def RequestView.apply (v : RequestView) : RequestEvent → RequestView
  | .nothing => v
  | .load tasks => { v with sent := true, tasks := v.tasks ++ tasks, registrations := v.registrations + 1 }
  | .register => { v with registrations := v.registrations - 1, registered := true }
  | .report task transferFailed =>
    if task.allTaskDone = true ∧ (task.localBlockIds.length > 0 ∨ transferFailed) ∧ v.registered then
      { v with tasks := v.tasks.tail, registered := false, finished := true }
    else { v with tasks := v.tasks.tail }
  | .poll => { v with finished := false, returned := v.returned + if v.finished then 1 else 0 }

def MooncakeConnectorWorker.loadedTasks (w : MooncakeConnectorWorker)
    (metadata : MooncakeConnectorMetadata) (requestId : String) : List PullTask :=
  (metadata.requests.filter (·.1 = requestId)).flatMap fun entry =>
    (w.startLoadKv entry.2.1 entry.2.2).toOption.getD []

def RecvSystem.event (w : MooncakeConnectorWorker) (s : RecvSystem) (requestId : String) :
    RecvAction → RequestEvent
  | .startLoadKv metadata =>
    if requestId ∈ metadata.reqsInBatch then .load (w.loadedTasks metadata requestId) else .nothing
  | .write => if s.remaining.head?.bind registered = some requestId then .register else .nothing
  | .getFinished => .poll
  | .report =>
    match s.handling with
    | some (entry, some transferFailed) =>
      if entry.1 = requestId then .report entry.2 transferFailed else .nothing
    | _ => .nothing
  | _ => .nothing

variable {a : RecvAction}

section
variable {w : MooncakeConnectorWorker} {s s' : RecvSystem} {id : String}

theorem tasksOf_append (line others : List (String × PullTask)) :
    tasksOf id (line ++ others) = tasksOf id line ++ tasksOf id others := by
  rw [tasksOf, filter_append, map_append]
  rfl

variable {md : MooncakeConnectorMetadata}

theorem loadOps_eq (loaded : w.loadOps md = .ok ops) : ops.filterMap queued = (md.requests.flatMap fun e =>
      ((w.startLoadKv e.2.1 e.2.2).toOption.getD []).map fun t => (e.1, t)) ∧
    ops.filterMap registered = md.reqsInBatch := by
  obtain ⟨tasks, ran, done⟩ := bind_ok loaded
  obtain rfl := pure_ok done
  have each : tasks = md.requests.map fun e =>
      ((w.startLoadKv e.2.1 e.2.2).toOption.getD []).map (addRequest e.1) := by
    refine mapM_eq_map (fun {e ops} planned => ?_) ran
    obtain ⟨found, isFound, rfl⟩ := map_ok planned
    rw [isFound]
    rfl
  have queued : ∀ (name : String) (found : List PullTask), (found.map (addRequest name)).filterMap queued =
      found.map fun t => (name, t) := by
    intro name found
    rw [filterMap_map]
    exact congrFun (filterMap_eq_map (f := fun t => (name, t))) found
  have registered : ∀ (name : String) (found : List PullTask),
      (found.map (addRequest name)).filterMap registered = [] := by
    intro name found
    rw [filterMap_map]
    exact filterMap_eq_nil_iff.mpr fun _ _ => rfl
  have notQueued : (md.reqsInBatch.map WorkerOp.addReqToProcess).filterMap WorkerOp.queued = [] := by
    rw [filterMap_map]
    exact filterMap_eq_nil_iff.mpr fun _ _ => rfl
  subst each
  constructor
  · rw [filterMap_append, notQueued, append_nil, ← flatMap_def, filterMap_flatMap]
    exact flatMap_congr fun e _ => queued _ _
  · rw [filterMap_append, ← flatMap_def, filterMap_flatMap,
      flatMap_eq_nil_iff.mpr fun e _ => registered _ _, nil_append, filterMap_map]
    exact filterMap_some

theorem tasksOf_loaded (md : MooncakeConnectorMetadata) (requestId : String) :
    tasksOf requestId (md.requests.flatMap fun e =>
      ((w.startLoadKv e.2.1 e.2.2).toOption.getD []).map fun t => (e.1, t)) =
      w.loadedTasks md requestId := by
  unfold loadedTasks tasksOf
  induction md.requests with
  | nil => rfl
  | cons e rest ih =>
    rw [flatMap_cons, filter_append, map_append, ih]
    by_cases same : e.1 = requestId
    · rw [filter_cons_of_pos (by simpa using same), flatMap_cons, filter_eq_self.mpr ?_, map_map]
      · congr 1
        exact map_id _
      · intro item mem
        obtain ⟨t, -, rfl⟩ := mem_map.mp mem
        simpa using same
    · rw [filter_cons_of_neg (by simpa using same), filter_eq_nil_iff.mpr ?_]
      · rfl
      · intro item mem
        obtain ⟨t, -, rfl⟩ := mem_map.mp mem
        simpa using same

theorem loadedTasks_eq_nil (absent : id ∉ md.reqsInBatch) : w.loadedTasks md id = [] := by
  have none : md.requests.filter (·.1 = id) = [] := by
    refine filter_eq_nil_iff.mpr fun e mem => ?_
    rw [decide_eq_true_eq]
    rintro rfl
    exact absent (md.inBatch e mem)
  rw [loadedTasks, none]
  rfl

section
variable (thread : KVCacheRecvingThread) (id : String) (t : PullTask)

theorem reportDone_tracker (failed : Bool) : (thread.reportDone id t failed).taskTracker =
      if t.allTaskDone = true ∧ (t.localBlockIds.length > 0 ∨ failed) then
        thread.taskTracker.updateDoneTaskCount id
      else thread.taskTracker := by
  unfold KVCacheRecvingThread.reportDone
  by_cases last : t.allTaskDone = true
  · by_cases wanted : t.localBlockIds.length > 0 ∨ failed = true
    · rw [if_pos last, if_pos wanted, if_pos ⟨last, wanted⟩]
      rfl
    · rw [if_pos last, if_neg wanted, if_neg fun both => wanted both.2]
      rfl
  · rw [if_neg last, if_neg fun both => last both.1]

theorem reportDone_queue (failed : Bool) :
    (thread.reportDone id t failed).requestQueue = thread.requestQueue := by
  unfold KVCacheRecvingThread.reportDone
  split
  · split <;> rfl
  · rfl

theorem tryTransfer_keeps (readOk : Bool) :
    (thread.tryTransfer id t readOk).1.taskTracker = thread.taskTracker ∧
      (thread.tryTransfer id t readOk).1.requestQueue = thread.requestQueue := by
  unfold KVCacheRecvingThread.tryTransfer
  split
  · exact ⟨rfl, rfl⟩
  · split <;> exact ⟨rfl, rfl⟩

end

theorem line_startLoadKv (idle : s.remaining = []) (loaded : w.loadOps md = .ok ops) (sent : Finset String) :
    ∃ more, line { s with remaining := ops, sent := sent } = s.line ++ more ∧
      ∀ requestId, tasksOf requestId more = w.loadedTasks md requestId := by
  refine ⟨_, ?_, fun requestId => tasksOf_loaded md requestId⟩
  show (s.handling.map Prod.fst).toList ++ (s.thread.requestQueue ++ ops.filterMap queued) = _
  rw [(loadOps_eq loaded).1, line, idle, filterMap_nil, append_nil, append_assoc]

variable {op : WorkerOp}

theorem line_write (next : s.remaining = op :: ops) :
    line { s with thread := op.run s.thread, remaining := ops } = s.line := by
  unfold line
  rw [next]
  cases op with
  | addRequest name t =>
    show _ ++ ((s.thread.requestQueue ++ [(name, t)]) ++ _) = _
    rw [append_assoc]
    rfl
  | addReqToProcess name => rfl

theorem line_get {q : List (String × PullTask)} (free : s.handling = none)
    (next : s.thread.requestQueue = e :: q) :
    line { s with thread := { s.thread with requestQueue := q }, handling := some (e, none) } = s.line := by
  unfold line
  rw [free, next]
  rfl

theorem line_of_handling {pulled : Option Bool} (handling : s.handling = some (e, pulled)) :
    s.line = e :: (s.thread.requestQueue ++ s.remaining.filterMap queued) := by
  rw [line, handling]
  rfl

theorem line_transfer (taken : s.handling = some (e, none)) (readOk failed : Bool) : line { s with
        thread := (s.thread.tryTransfer e.1 e.2 readOk).1
        handling := some (e, some failed) } = s.line := by
  unfold line
  rw [taken, (tryTransfer_keeps s.thread e.1 e.2 readOk).2]
  rfl

theorem line_report (pulled : s.handling = some (e, some failed)) : s.line = e ::
      line { s with thread := s.thread.reportDone e.1 e.2 failed, handling := none } := by
  rw [line_of_handling pulled]
  exact congrArg (fun q => e :: (q ++ s.remaining.filterMap queued)) (reportDone_queue _ _ _ _).symm

theorem view_startLoadKv (idle : s.remaining = []) (loaded : w.loadOps md = .ok ops) (requestId : String) :
    view { s with remaining := ops, sent := s.sent ∪ md.reqsInBatch.toFinset } requestId =
      (s.view requestId).apply
        (if requestId ∈ md.reqsInBatch then .load (w.loadedTasks md requestId) else .nothing) := by
  obtain ⟨-, registered⟩ := loadOps_eq loaded
  obtain ⟨more, longer, isMore⟩ := line_startLoadKv idle loaded (s.sent ∪ md.reqsInBatch.toFinset)
  have line : tasksOf requestId (line { s with remaining := ops, sent := s.sent ∪ md.reqsInBatch.toFinset }) =
      tasksOf requestId s.line ++ w.loadedTasks md requestId := by
    rw [longer, tasksOf_append, isMore]
  have none : (s.view requestId).registrations = 0 := by
    show (s.remaining.filterMap WorkerOp.registered).count requestId = 0
    rw [idle]
    rfl
  split
  · rename_i mem
    refine RequestView.ext ?_ line ?_ rfl rfl rfl
    · exact decide_eq_true (Finset.mem_union_right _ (mem_toFinset.mpr mem))
    · show (ops.filterMap WorkerOp.registered).count requestId = (s.view requestId).registrations + 1
      rw [registered, none, count_eq_one_of_mem md.batchDistinct mem]
  · rename_i absent
    refine RequestView.ext ?_ ?_ ?_ rfl rfl rfl
    · refine decide_eq_decide.mpr ?_
      rw [Finset.mem_union, mem_toFinset, or_iff_left absent]
    · rw [loadedTasks_eq_nil absent, append_nil] at line
      exact line
    · show (ops.filterMap WorkerOp.registered).count requestId = (s.view requestId).registrations
      rw [registered, none, count_eq_zero_of_not_mem absent]

theorem event_write (next : s.remaining = op :: ops) (id : String) :
    s.event w id .write = if op.registered = some id then .register else .nothing := by
  show (if s.remaining.head?.bind registered = some id then _ else _) = _
  rw [next]
  rfl

theorem event_report (pulled : s.handling = some (e, some failed)) (id : String) :
    s.event w id .report = if e.1 = id then .report e.2 failed else .nothing := by
  unfold event
  rw [pulled]

theorem view_write (next : s.remaining = op :: ops) (requestId : String) :
    view { s with thread := op.run s.thread, remaining := ops } requestId =
      (s.view requestId).apply (s.event w requestId .write) := by
  rw [event_write next]
  cases op with
  | addRequest name t =>
    have other : (addRequest name t).registered ≠ some requestId := nofun
    rw [if_neg other]
    refine RequestView.ext rfl (congrArg (tasksOf requestId) (line_write next)) ?_ rfl rfl rfl
    · show (ops.filterMap registered).count requestId = (s.remaining.filterMap registered).count requestId
      rw [next]
      rfl
  | addReqToProcess name =>
    have count : (s.remaining.filterMap registered).count requestId =
        (ops.filterMap registered).count requestId + if name == requestId then 1 else 0 := by
      rw [next]
      exact count_cons
    by_cases same : name = requestId
    · subst same
      have here : (addReqToProcess name).registered = some name := rfl
      rw [if_pos here]
      refine RequestView.ext rfl (congrArg (tasksOf name) (line_write next)) ?_ ?_ rfl rfl
      · show _ = (s.remaining.filterMap registered).count name - 1
        rw [count, if_pos BEq.rfl]
        rfl
      · exact decide_eq_true (Finset.mem_insert_self _ _)
    · have other : (addReqToProcess name).registered ≠ some requestId :=
        fun equal => same (Option.some.inj equal)
      rw [if_neg other]
      refine RequestView.ext rfl (congrArg (tasksOf requestId) (line_write next)) ?_ ?_ rfl rfl
      · show _ = (s.remaining.filterMap registered).count requestId
        rw [count, if_neg (by simpa using same)]
        rfl
      · refine decide_eq_decide.mpr ?_
        exact Finset.mem_insert.trans (or_iff_right fun equal => same equal.symm)

theorem view_getFinished (s : RecvSystem) (id : String) : view { s with
        thread := { s.thread with taskTracker := s.thread.taskTracker.getAndClearFinishedRequests.2 }
        returned := s.returned + s.thread.taskTracker.getAndClearFinishedRequests.1.val } id =
      (s.view id).apply .poll := by
  refine RequestView.ext rfl rfl rfl rfl (decide_eq_false (Finset.notMem_empty id)) ?_
  show (s.returned + s.thread.taskTracker.finishedRequests.val).count id =
    s.returned.count id + if decide (id ∈ s.thread.taskTracker.finishedRequests) = true then 1 else 0
  rw [Multiset.count_add]
  congr 1
  split
  · rename_i mem
    exact Multiset.count_eq_one_of_mem s.thread.taskTracker.finishedRequests.nodup (of_decide_eq_true mem)
  · rename_i absent
    exact Multiset.count_eq_zero_of_notMem fun mem => absent (decide_eq_true mem)

namespace KVCacheTaskTracker

variable {tracker t : KVCacheTaskTracker} {name : String}

theorem updateDoneTaskCount_other (t : KVCacheTaskTracker) (other : name ≠ id) :
    (id ∈ (t.updateDoneTaskCount name).finishedRequests ↔ id ∈ t.finishedRequests) ∧
      (id ∈ (t.updateDoneTaskCount name).reqsToProcess ↔ id ∈ t.reqsToProcess) := by
  unfold updateDoneTaskCount
  split
  · exact ⟨Finset.mem_insert.trans (or_iff_right other.symm),
      Finset.mem_erase.trans (and_iff_right other.symm)⟩
  · exact ⟨Iff.rfl, Iff.rfl⟩

end KVCacheTaskTracker

theorem view_report (pulled : s.handling = some (e, some failed)) (id : String) :
    view { s with thread := s.thread.reportDone e.1 e.2 failed, handling := none } id =
      (s.view id).apply (s.event w id .report) := by
  have line := line_report pulled
  rw [event_report pulled]
  by_cases same : e.1 = id
  · have tasks : tasksOf id (RecvSystem.line
        { s with thread := s.thread.reportDone e.1 e.2 failed, handling := none }) =
          (tasksOf id s.line).tail := by
      rw [line, tasksOf, tasksOf, filter_cons_of_pos (by simpa using same)]
      rfl
    rw [if_pos same]
    subst same
    by_cases last : e.2.allTaskDone = true ∧ (e.2.localBlockIds.length > 0 ∨ failed = true)
    · have tracker := (reportDone_tracker s.thread e.1 e.2 failed).trans (if_pos last)
      by_cases registered : e.1 ∈ s.thread.taskTracker.reqsToProcess
      · rw [KVCacheTaskTracker.updateDoneTaskCount, if_pos registered] at tracker
        unfold view
        rw [tracker, tasks, RequestView.apply, if_pos ⟨last.1, last.2, decide_eq_true registered⟩]
        refine RequestView.ext rfl rfl rfl ?_ ?_ rfl
        · exact decide_eq_false (Finset.notMem_erase _ _)
        · exact decide_eq_true (Finset.mem_insert_self _ _)
      · rw [KVCacheTaskTracker.updateDoneTaskCount, if_neg registered] at tracker
        unfold view
        rw [tracker, tasks, RequestView.apply, if_neg fun all => registered (of_decide_eq_true all.2.2)]
    · have tracker := (reportDone_tracker s.thread e.1 e.2 failed).trans (if_neg last)
      unfold view
      rw [tracker, tasks, RequestView.apply, if_neg fun all => last ⟨all.1, all.2.1⟩]
  · have tasks : tasksOf id (RecvSystem.line
        { s with thread := s.thread.reportDone e.1 e.2 failed, handling := none }) = tasksOf id s.line := by
      rw [line, tasksOf, tasksOf, filter_cons_of_neg (by simpa using same)]
    obtain ⟨finished, registered⟩ := s.thread.taskTracker.updateDoneTaskCount_other same
    rw [if_neg same]
    unfold view
    rw [reportDone_tracker, tasks]
    split
    · refine RequestView.ext rfl rfl rfl ?_ ?_ rfl
      · exact decide_eq_decide.mpr registered
      · exact decide_eq_decide.mpr finished
    · rfl

theorem view_transfer (taken : s.handling = some (e, none)) (readOk : Bool) (requestId : String) :
    view { s with
        thread := (s.thread.tryTransfer e.1 e.2 readOk).1
        handling := some (e, some (s.thread.tryTransfer e.1 e.2 readOk).2) } requestId = s.view requestId := by
  unfold view
  rw [line_transfer taken, (tryTransfer_keeps s.thread e.1 e.2 readOk).1]

theorem view_step (step : RecvStep w s a s') (id : String) :
    s'.view id = (s.view id).apply (s.event w id a) := by
  cases step with
  | startLoadKv idle loaded fresh => exact view_startLoadKv idle loaded id
  | write next => exact view_write next id
  | getFinished idle => exact view_getFinished s id
  | getBlockIdsWithLoadErrors idle => rfl
  | get free next => exact RequestView.ext rfl (congrArg (tasksOf id) (line_get free next)) rfl rfl rfl rfl
  | transfer taken readOk => exact view_transfer taken readOk id
  | report pulled => exact view_report pulled id

end

/-! ### The stages of a request -/

def LastMarked (last : PullTask) (tasks : List PullTask) : Prop :=
  last.allTaskDone = true ∧ ∃ before, tasks = before ++ [last] ∧ ∀ task ∈ before, task.allTaskDone = false

variable {last : PullTask}

theorem LastMarked.cons {rest : List PullTask} (marked : LastMarked last (t :: rest)) :
    (t.allTaskDone = false ∧ LastMarked last rest) ∨ (t.allTaskDone = true ∧ rest = [] ∧ t = last) := by
  obtain ⟨isLast, before, split, unmarked⟩ := marked
  cases before with
  | nil =>
    obtain ⟨rfl, rfl⟩ := cons.inj split
    exact .inr ⟨isLast, rfl, rfl⟩
  | cons first before =>
    obtain ⟨rfl, rfl⟩ := cons.inj split
    exact .inl ⟨unmarked _ mem_cons_self, isLast, before, rfl, fun t mem => unmarked t (mem_cons_of_mem _ mem)⟩

namespace RequestEvent

def Enabled (v : RequestView) : RequestEvent → Prop
  | .load _ => v.sent = false
  | .register => 0 < v.registrations
  | .report task _ => v.tasks.head? = some task
  | _ => True

def IsLastReport : RequestEvent → Prop
  | .report task _ => task.allTaskDone = true
  | _ => False

end RequestEvent

namespace RequestView

def Blank (v : RequestView) : Prop := v.sent = false → v = ⟨false, [], 0, false, false, 0⟩

structure Loading (last : PullTask) (v : RequestView) : Prop where
  sent : v.sent = true
  marked : LastMarked last v.tasks
  once : v.registrations + (if v.registered then 1 else 0) = 1
  unfinished : v.finished = false
  unreturned : v.returned = 0

structure Lost (v : RequestView) : Prop where
  sent : v.sent = true
  handled : v.tasks = []
  unfinished : v.finished = false
  unreturned : v.returned = 0

structure Reported (v : RequestView) : Prop where
  sent : v.sent = true
  handled : v.tasks = []
  none : v.registrations = 0
  unregistered : v.registered = false
  finished : v.finished = true
  unreturned : v.returned = 0

structure Returned (v : RequestView) : Prop where
  sent : v.sent = true
  handled : v.tasks = []
  none : v.registrations = 0
  unregistered : v.registered = false
  unfinished : v.finished = false
  returned : v.returned = 1

variable {v : RequestView} {e : RequestEvent}

theorem Blank.apply (blank : v.Blank) (enabled : e.Enabled v) : (v.apply e).Blank := by
  intro unsent
  cases e with
  | nothing => exact blank unsent
  | load tasks => cases unsent
  | register =>
    obtain rfl := blank unsent
    exact absurd enabled (lt_irrefl 0)
  | report t failed =>
    have before : v.sent = false := by
      rw [apply] at unsent
      split at unsent <;> exact unsent
    obtain rfl := blank before
    cases enabled
  | poll =>
    obtain rfl := blank unsent
    rfl

theorem Blank.load (blank : v.Blank) (unsent : v.sent = false) (marked : LastMarked last tasks) :
    (v.apply (.load tasks)).Loading last := by
  obtain rfl := blank unsent
  exact ⟨rfl, marked, rfl, rfl, rfl⟩

theorem Loading.keeps (loading : v.Loading last) (enabled : e.Enabled v)
    (notLast : ¬ e.IsLastReport) : (v.apply e).Loading last := by
  obtain ⟨sent, marked, once, unfinished, unreturned⟩ := loading
  cases e with
  | nothing => exact ⟨sent, marked, once, unfinished, unreturned⟩
  | load tasks => exact absurd (sent.symm.trans enabled) Bool.noConfusion
  | register =>
    refine ⟨sent, marked, ?_, unfinished, unreturned⟩
    show v.registrations - 1 + 1 = 1
    split at once <;> omega
  | report t failed =>
    have more : ¬ t.allTaskDone = true := notLast
    rw [apply, if_neg fun all => more all.1]
    obtain ⟨rest, split⟩ := head?_eq_some_iff.mp enabled
    rw [split] at marked
    refine ⟨sent, ?_, once, unfinished, unreturned⟩
    rw [split]
    exact (marked.cons.resolve_right fun done => more done.1).2
  | poll =>
    refine ⟨sent, marked, once, rfl, ?_⟩
    show v.returned + (if v.finished = true then 1 else 0) = 0
    rw [unfinished, unreturned]
    rfl

theorem Loading.report (loading : v.Loading last) (enabled : (RequestEvent.report t failed).Enabled v)
    (done : t.allTaskDone = true) : t = last ∧
    (v.registered = true ∧ (t.localBlockIds.length > 0 ∨ failed) → (v.apply (.report t failed)).Reported) ∧
      (¬ (v.registered = true ∧ (t.localBlockIds.length > 0 ∨ failed)) →
        (v.apply (.report t failed)).Lost) := by
  obtain ⟨sent, marked, once, unfinished, unreturned⟩ := loading
  obtain ⟨rest, split⟩ := head?_eq_some_iff.mp enabled
  rw [split] at marked
  obtain ⟨-, rfl, isLast⟩ := marked.cons.resolve_left fun unmarked => Bool.false_ne_true
    (unmarked.1.symm.trans done)
  have handled : v.tasks.tail = [] := by rw [split]; rfl
  rw [apply]
  refine ⟨isLast, ?_, ?_⟩
  · rintro ⟨registered, blocks⟩
    rw [if_pos ⟨done, blocks, registered⟩]
    rw [registered, if_pos rfl] at once
    exact ⟨sent, handled, succ.inj once, rfl, rfl, unreturned⟩
  · intro otherwise
    rw [if_neg fun all => otherwise ⟨all.2.2, all.2.1⟩]
    exact ⟨sent, handled, unfinished, unreturned⟩

theorem handled_event (sent : v.sent = true) (handled : v.tasks = []) (enabled : e.Enabled v) :
    e = .nothing ∨ (e = .register ∧ 0 < v.registrations) ∨ e = .poll := by
  cases e with
  | nothing => exact .inl rfl
  | load tasks => exact absurd (sent.symm.trans enabled) Bool.noConfusion
  | register => exact .inr (.inl ⟨rfl, enabled⟩)
  | report task failed =>
    have enabled : v.tasks.head? = some task := enabled
    rw [handled] at enabled
    cases enabled
  | poll => exact .inr (.inr rfl)

theorem Lost.keeps (lost : v.Lost) (enabled : e.Enabled v) : (v.apply e).Lost := by
  obtain ⟨sent, handled, unfinished, unreturned⟩ := lost
  rcases handled_event sent handled enabled with rfl | ⟨rfl, -⟩ | rfl
  · exact ⟨sent, handled, unfinished, unreturned⟩
  · exact ⟨sent, handled, unfinished, unreturned⟩
  · refine ⟨sent, handled, rfl, ?_⟩
    show v.returned + (if v.finished = true then 1 else 0) = 0
    rw [unfinished, unreturned]
    rfl

theorem Reported.poll (reported : v.Reported) : (v.apply .poll).Returned := by
  obtain ⟨sent, handled, none, unregistered, finished, unreturned⟩ := reported
  refine ⟨sent, handled, none, unregistered, rfl, ?_⟩
  show v.returned + (if v.finished = true then 1 else 0) = 1
  rw [finished, unreturned]
  rfl

theorem Reported.keeps (reported : v.Reported) (enabled : e.Enabled v) : (v.apply e).Reported ∨
    (v.apply e).Returned := by
  rcases handled_event reported.sent reported.handled enabled with rfl | ⟨rfl, some⟩ | rfl
  · exact .inl reported
  · rw [reported.none] at some
    exact absurd some (lt_irrefl 0)
  · exact .inr reported.poll

theorem Returned.keeps (returned : v.Returned) (enabled : e.Enabled v) : (v.apply e).Returned := by
  obtain ⟨sent, handled, none, unregistered, unfinished, count⟩ := returned
  rcases handled_event sent handled enabled with rfl | ⟨rfl, some⟩ | rfl
  · exact ⟨sent, handled, none, unregistered, unfinished, count⟩
  · rw [none] at some
    exact absurd some (lt_irrefl 0)
  · refine ⟨sent, handled, none, unregistered, rfl, ?_⟩
    show v.returned + (if v.finished = true then 1 else 0) = 1
    rw [unfinished, count]
    rfl

end RequestView

/-! ### Runs -/

variable {md : MooncakeConnectorMetadata}

section
variable {w : MooncakeConnectorWorker} {s s' : RecvSystem} {requestId id : String}

theorem event_enabled (step : RecvStep w s a s') (id : String) : (s.event w id a).Enabled (s.view id) := by
  cases step with
  | @startLoadKv md ops idle loaded fresh =>
    show RequestEvent.Enabled _ (if id ∈ md.reqsInBatch then _ else _)
    split
    · rename_i mem
      exact decide_eq_false (fresh _ mem)
    · trivial
  | @write op ops next =>
    rw [event_write next]
    split
    · rename_i first
      refine count_pos_iff.mpr ?_
      rw [next, filterMap_cons_some first]
      exact mem_cons_self
    · trivial
  | report pulled =>
    rw [event_report pulled]
    split
    · rename_i same
      show (tasksOf id s.line).head? = _
      rw [line_of_handling pulled, tasksOf, filter_cons_of_pos (by simpa using same)]
      rfl
    · trivial
  | _ => trivial

theorem view_stable (run : Run (RecvStep w) s) {P : RequestView → Prop}
    (keeps : ∀ {v e}, P v → e.Enabled v → P (v.apply e))
    {n : Nat} (holds : P ((run.state n).view id)) (later : n ≤ m) : P ((run.state m).view id) :=
  run.stable (P := fun s => P (s.view id))
    (fun holds step => view_step step id ▸ keeps holds (event_enabled step id)) holds later

theorem view_blank (run : Run (RecvStep w) init) (id : String) (n : Nat) : ((run.state n).view id).Blank :=
  run.invariant (P := fun s => (s.view id).Blank) (fun _ => rfl)
    (fun blank step => view_step step id ▸ blank.apply (event_enabled step id)) n

/-! ### Progress -/

def ahead (requestId : String) : List (String × PullTask) → Nat
  | [] => 0
  | entry :: rest => if entry.1 = requestId ∨ ahead requestId rest ≠ 0 then ahead requestId rest + 1 else 0

theorem ahead_eq_zero {line : List (String × PullTask)} : ahead id line = 0 ↔ tasksOf id line = [] := by
  induction line with
  | nil => exact ⟨fun _ => rfl, fun _ => rfl⟩
  | cons e rest ih =>
    rw [ahead, tasksOf, map_eq_nil_iff]
    rw [tasksOf, map_eq_nil_iff] at ih
    by_cases same : e.1 = id
    · rw [if_pos (.inl same), filter_cons_of_pos (by simpa using same)]
      exact ⟨nofun, nofun⟩
    · rw [filter_cons_of_neg (by simpa using same), ← ih]
      split
      · rename_i some
        exact ⟨nofun, fun zero => absurd zero (some.resolve_left same)⟩
      · rename_i none
        exact ⟨fun _ => not_not.mp fun more => none (.inr more), fun _ => rfl⟩

theorem ahead_cons {rest : List (String × PullTask)} (some : ahead id (e :: rest) ≠ 0) :
    ahead id (e :: rest) = ahead id rest + 1 := by
  rw [ahead] at some ⊢
  split
  · rfl
  · rename_i none
    rw [if_neg none] at some
    exact absurd rfl some

theorem ahead_append {line others : List (String × PullTask)} (none : tasksOf id others = []) :
    ahead id (line ++ others) = ahead id line := by
  induction line with
  | nil => exact ahead_eq_zero.mpr none
  | cons e rest ih =>
    rw [cons_append, ahead, ahead, ih]

def RecvSystem.phase (s : RecvSystem) : Nat :=
  match s.handling with
  | none => 0
  | some (_, none) => 1
  | some (_, some _) => 2

def RecvSystem.toGo (s : RecvSystem) (requestId : String) : Nat := 3 * ahead requestId s.line - s.phase

theorem ahead_worker (step : RecvStep w s a s') (sent : id ∈ s.sent) (worker : ¬ a.IsReceiving) :
    ahead id s'.line = ahead id s.line := by
  cases step with
  | @startLoadKv md ops idle loaded fresh =>
    obtain ⟨more, longer, isMore⟩ := line_startLoadKv idle loaded (s.sent ∪ md.reqsInBatch.toFinset)
    have none : tasksOf id more = [] :=
      (isMore id).trans (loadedTasks_eq_nil fun mem => fresh id mem sent)
    rw [longer, ahead_append none]
  | write next => rw [line_write next]
  | getFinished idle => rfl
  | getBlockIdsWithLoadErrors idle => rfl
  | get free next => exact absurd trivial worker
  | transfer taken readOk => exact absurd trivial worker
  | report pulled => exact absurd trivial worker

theorem phase_worker (step : RecvStep w s a s') (worker : ¬ a.IsReceiving) : s'.phase = s.phase := by
  cases step with
  | get free next => exact absurd trivial worker
  | transfer taken readOk => exact absurd trivial worker
  | report pulled => exact absurd trivial worker
  | _ => rfl

theorem toGo_step (step : RecvStep w s a s') (receiving : a.IsReceiving) (some : ahead requestId s.line ≠ 0) :
    s'.toGo requestId < s.toGo requestId := by
  cases step with
  | get free next =>
    have before : s.phase = 0 := by rw [phase, free]
    unfold toGo
    rw [line_get free next, before]
    show 3 * ahead requestId s.line - 1 < _
    omega
  | transfer taken readOk =>
    have before : s.phase = 1 := by rw [phase, taken]
    unfold toGo
    rw [line_transfer taken, before]
    show 3 * ahead requestId s.line - 2 < _
    omega
  | report pulled =>
    have before : s.phase = 2 := by rw [phase, pulled]
    rw [line_report pulled] at some
    unfold toGo
    rw [line_report pulled, ahead_cons some, before]
    omega
  | _ => exact receiving.elim

theorem idle_of_poll (step : RecvStep w s .getFinished s') : s.remaining = [] := by
  cases step with
  | getFinished idle => exact idle

theorem loaded_of_step (step : RecvStep w s (.startLoadKv md) s') :
    ∃ ops, w.loadOps md = .ok ops := by
  cases step with
  | startLoadKv idle loaded fresh => exact ⟨_, loaded⟩

theorem sent_step (step : RecvStep w s a s') (sent : id ∈ s.sent) : id ∈ s'.sent := by
  cases step with
  | startLoadKv idle loaded fresh => exact Finset.mem_union_left _ sent
  | _ => exact sent

theorem event_eq_report (event : s.event w id a = .report t failed) :
    a = .report ∧ s.handling = some ((id, t), some failed) := by
  unfold RecvSystem.event at event
  split at event
  · split at event <;> cases event
  · split at event <;> cases event
  · cases event
  · split at event
    · split at event
      · rename_i handling same
        cases event
        exact ⟨rfl, same ▸ handling⟩
      · cases event
    · cases event
  · cases event

end

section
variable {w : MooncakeConnectorWorker} {id : String} {chosen : List Nat} {req : ReqMeta}

theorem startLoadKv_marked (plain : req.remotePcpSize * req.remoteDcpSize ≤ 1)
    (several : 0 < w.getTpNumNeedPulls (w.prefillTpSizeOf req) * w.prefillPpSize)
    (ran : w.startLoadKv chosen req = .ok tasks) :
    ∃ last, LastMarked last tasks ∧ last.localBlockIds = req.localBlockIds := by
  unfold startLoadKv at ran
  rw [if_neg (not_lt.mpr plain)] at ran
  have length := mapM_length ran
  rw [length_range] at length
  have each : ∀ i t, tasks[i]? = some t → t.localBlockIds = req.localBlockIds ∧
      (t.allTaskDone = true ↔ i = w.getTpNumNeedPulls (w.prefillTpSizeOf req) * w.prefillPpSize - 1) := by
    intro i t at_
    obtain ⟨lt, -⟩ := List.getElem_of_getElem? at_
    obtain ⟨found, made, isFound⟩ := mapM_getElem ran (getElem?_range (length ▸ lt))
    obtain ⟨rank, -, rfl⟩ := map_ok made
    obtain rfl := Option.some.inj (at_.symm.trans isFound)
    exact ⟨rfl, decide_eq_true_iff⟩
  have some : tasks ≠ [] := ne_nil_of_length_pos (length ▸ several)
  have last := getLast?_eq_some_getLast some
  rw [getLast?_eq_getElem?, length] at last
  refine ⟨tasks.getLast some, ⟨(each _ _ last).2.mpr rfl, tasks.dropLast, (dropLast_append_getLast some).symm,
    fun t mem => ?_⟩, (each _ _ last).1⟩
  obtain ⟨i, at_⟩ := mem_iff_getElem?.mp mem
  obtain ⟨lt, -⟩ := List.getElem_of_getElem? at_
  rw [length_dropLast, length] at lt
  rw [getElem?_dropLast, length, if_pos lt] at at_
  refine Bool.eq_false_of_not_eq_true fun marked => ?_
  exact lt_irrefl _ ((each i t at_).2.mp marked ▸ lt)

theorem loadedTasks_eq (mem : (id, chosen, req) ∈ md.requests) (ran : w.startLoadKv chosen req = .ok tasks) :
    w.loadedTasks md id = tasks := by
  have own : md.requests.filter (·.1 = id) = [(id, chosen, req)] :=
    OrderedDict.filter_fst_eq md.requestsDistinct mem
  rw [loadedTasks, own, flatMap_singleton, ran]
  rfl

theorem loadOps_ran (loaded : w.loadOps md = .ok ops) (mem : (id, chosen, req) ∈ md.requests) :
    ∃ tasks, w.startLoadKv chosen req = .ok tasks := by
  obtain ⟨lists, ran, -⟩ := bind_ok loaded
  obtain ⟨i, at_⟩ := mem_iff_getElem?.mp mem
  obtain ⟨ops, planned, -⟩ := mapM_getElem ran at_
  obtain ⟨tasks, found, -⟩ := map_ok planned
  exact ⟨tasks, found⟩

end

namespace RecvRun

variable {w : MooncakeConnectorWorker} {requestId id : String}

section
variable (run : RecvRun w) {n : Nat} (sent : id ∈ (run.state n).sent)
include sent

theorem sent_later (later : n ≤ m) : id ∈ (run.state m).sent :=
  run.stable (P := fun s => id ∈ s.sent) (fun sent step => sent_step step sent) sent later

theorem receives (some : ahead id (run.state n).line ≠ 0) : ∃ m ≥ n, (run.action m).IsReceiving := by
  by_contra never
  have worker : ∀ m ≥ n, ¬ (run.action m).IsReceiving := fun m later receiving => never ⟨m, later, receiving⟩
  have still : ∀ m ≥ n, ahead id (run.state m).line ≠ 0 := by
    intro m later
    induction m, later using le_induction with
    | base => exact some
    | succ m later ih =>
      rwa [ahead_worker (run.steps m) (run.sent_later sent later) (worker m later)]
  obtain ⟨m, later, polls⟩ := run.polled n
  -- when the engine asks, no call of `start_load_kv` is running, so the tasks are with the receiving thread
  have idle : (run.state m).remaining = [] := idle_of_poll (polls ▸ run.steps m)
  have busy : (run.state m).handling ≠ none ∨ (run.state m).thread.requestQueue ≠ [] := by
    by_contra free
    push Not at free
    refine still m later (ahead_eq_zero.mpr ?_)
    rw [line, free.1, free.2, idle]
    rfl
  obtain ⟨k, after, receiving⟩ := run.served m busy
  exact worker k (later.trans after) receiving

theorem eventually_handled : ∃ m ≥ n, tasksOf id (run.state m).line = [] := by
  have working : ∀ m, ¬ (id ∈ (run.state m).sent → ahead id (run.state m).line = 0) →
      id ∈ (run.state m).sent ∧ ahead id (run.state m).line ≠ 0 := fun m => Classical.not_imp.mp
  have grows : ∀ m, ¬ (id ∈ (run.state m).sent → ahead id (run.state m).line = 0) →
      (run.state (m + 1)).toGo id ≤ (run.state m).toGo id := by
    intro m open_
    by_cases receiving : (run.action m).IsReceiving
    · exact le_of_lt (toGo_step (run.steps m) receiving (working m open_).2)
    · unfold toGo
      rw [ahead_worker (run.steps m) (working m open_).1 receiving, phase_worker (run.steps m) receiving]
  obtain ⟨m, later, done⟩ := run.eventually (fun s => id ∈ s.sent → ahead id s.line = 0) RecvAction.IsReceiving
    (·.toGo id) grows (fun m open_ receiving => toGo_step (run.steps m) receiving (working m open_).2)
    (fun m open_ => run.receives (working m open_).1 (working m open_).2) n
  exact ⟨m, later, ahead_eq_zero.mp (done (run.sent_later sent later))⟩

end

/-! ### When a request is returned -/

section
variable (run : RecvRun w) (requestId id : String)

/-- The request is returned exactly once, and not before all its tasks are handled. -/
def ReturnedOnce : Prop :=
  (∃ n, ∀ m ≥ n, (run.state m).returned.count requestId = 1) ∧
    ∀ n, requestId ∈ (run.state n).returned → tasksOf requestId (run.state n).line = []

/-- The receiving thread is about to report the request, with its last task. -/
def Reports (n : Nat) (task : PullTask) (transferFailed : Bool) : Prop :=
  run.action n = .report ∧ (run.state n).handling = some ((requestId, task), some transferFailed) ∧
    task.allTaskDone = true

/-- When the last task is done, the worker thread has already registered the request. -/
def RegisteredInTime : Prop :=
  ∀ n task transferFailed, run.Reports requestId n task transferFailed →
    requestId ∈ (run.state n).thread.taskTracker.reqsToProcess

def FailedByThen : Prop :=
  ∃ n task transferFailed, run.Reports requestId n task transferFailed ∧
    requestId ∈ (run.state n).thread.failedRecvRequests

theorem view_next (n : Nat) : (run.state (n + 1)).view id =
      ((run.state n).view id).apply ((run.state n).event w id (run.action n)) ∧
    ((run.state n).event w id (run.action n)).Enabled ((run.state n).view id) :=
  ⟨view_step (run.steps n) id, event_enabled (run.steps n) id⟩

end

theorem not_loading_of_handled {v : RequestView} (handled : v.tasks = []) : ¬ v.Loading last := by
  intro loading
  obtain ⟨-, before, split, -⟩ := loading.marked
  rw [handled] at split
  exact append_ne_nil_of_right_ne_nil before (cons_ne_nil last []) split.symm

section
variable (run : RecvRun w) {n : Nat} (loading : ((run.state n).view id).Loading last)
include loading

theorem loading_report (reports : run.Reports id n t failed) : t = last ∧
    (id ∈ (run.state n).thread.taskTracker.reqsToProcess ∧ (t.localBlockIds.length > 0 ∨ failed) →
      ((run.state (n + 1)).view id).Reported) ∧
    (¬ (id ∈ (run.state n).thread.taskTracker.reqsToProcess ∧ (t.localBlockIds.length > 0 ∨ failed)) →
      ((run.state (n + 1)).view id).Lost) := by
  obtain ⟨reporting, handling, done⟩ := reports
  obtain ⟨next, enabled⟩ := run.view_next id n
  rw [reporting, event_report handling, if_pos rfl] at next enabled
  obtain ⟨isLast, reported, lost⟩ := loading.report enabled done
  have registered : ((run.state n).view id).registered = true ↔
      id ∈ (run.state n).thread.taskTracker.reqsToProcess := decide_eq_true_iff
  rw [registered] at reported lost
  exact ⟨isLast, fun well => next ▸ reported well, fun badly => next ▸ lost badly⟩

theorem loading_next :
    ((run.state (n + 1)).view id).Loading last ∨ ∃ transferFailed, run.Reports id n last transferFailed := by
  obtain ⟨next, enabled⟩ := run.view_next id n
  by_cases isLast : ((run.state n).event w id (run.action n)).IsLastReport
  · cases event : (run.state n).event w id (run.action n) with
    | report t transferFailed =>
      rw [event] at isLast
      obtain ⟨reporting, handling⟩ := event_eq_report event
      have reports : run.Reports id n t transferFailed := ⟨reporting, handling, isLast⟩
      obtain ⟨rfl, -, -⟩ := run.loading_report loading reports
      exact .inr ⟨transferFailed, reports⟩
    | _ =>
      rw [event] at isLast
      exact isLast.elim
  · exact .inl (next ▸ loading.keeps enabled isLast)

end

section
variable (run : RecvRun w) {n : Nat} (loading : ((run.state n).view id).Loading last)
include loading

theorem stages (later : n ≤ m) :
    ((run.state m).view id).Loading last ∨ ((run.state m).view id).Lost ∨ ((run.state m).view id).Reported ∨
      ((run.state m).view id).Returned := by
  induction m, later using le_induction with
  | base => exact .inl loading
  | succ m later ih =>
    obtain ⟨next, enabled⟩ := run.view_next id m
    rcases ih with loading | lost | reported | returned
    · rcases run.loading_next loading with still | ⟨failed, reports⟩
      · exact .inl still
      · obtain ⟨-, reported, lost⟩ := run.loading_report loading reports
        rcases Classical.em (id ∈ (run.state m).thread.taskTracker.reqsToProcess ∧
          (last.localBlockIds.length > 0 ∨ failed)) with well | badly
        · exact .inr (.inr (.inl (reported well)))
        · exact .inr (.inl (lost badly))
    · exact .inr (.inl (next ▸ lost.keeps enabled))
    · exact .inr (.inr (next ▸ reported.keeps enabled))
    · exact .inr (.inr (.inr (next ▸ returned.keeps enabled)))

theorem exists_report : ∃ m ≥ n, ((run.state m).view id).Loading last ∧ ∃ transferFailed,
    run.Reports id m last transferFailed := by
  have sent : id ∈ (run.state n).sent := of_decide_eq_true loading.sent
  by_contra never
  have still : ∀ m ≥ n, ((run.state m).view id).Loading last := by
    intro m later
    induction m, later using le_induction with
    | base => exact loading
    | succ m later ih =>
      rcases run.loading_next ih with still | reports
      · exact still
      · exact absurd ⟨m, later, ih, reports⟩ never
  obtain ⟨m, later, handled⟩ := run.eventually_handled sent
  exact not_loading_of_handled handled (still m later)

end

section
variable (run : RecvRun w) (reported : ((run.state m).view id).Reported)
include reported

theorem reported_stable {k : Nat} (later : m ≤ k) :
    ((run.state k).view id).Reported ∨ ((run.state k).view id).Returned := by
  refine view_stable run.toRun (P := fun v => v.Reported ∨ v.Returned) (fun stage enabled => ?_)
    (.inl reported) later
  rcases stage with reported | returned
  · exact reported.keeps enabled
  · exact .inr (returned.keeps enabled)

theorem returned_of_reported : ∃ k, ∀ j ≥ k, (run.state j).returned.count id = 1 := by
  obtain ⟨k, after, polls⟩ := run.polled m
  have returned : ((run.state (k + 1)).view id).Returned := by
    obtain ⟨next, enabled⟩ := run.view_next id k
    rcases run.reported_stable reported after with reported | returned
    · rw [polls] at next
      exact next ▸ reported.poll
    · exact next ▸ returned.keeps enabled
  exact ⟨k + 1, fun j later => (view_stable run.toRun (P := RequestView.Returned)
    RequestView.Returned.keeps returned later).returned⟩

end

section
variable (run : RecvRun w) {n : Nat} (unsent : ((run.state n).view id).sent = false)
  (loading : ((run.state (n + 1)).view id).Loading last)
include unsent

theorem blank_before (earlier : m ≤ n) : (run.state m).view id = ⟨false, [], 0, false, false, 0⟩ := by
  refine view_blank run.toRun id m (decide_eq_false fun sent => ?_)
  exact absurd (run.sent_later sent earlier) (of_decide_eq_false unsent)

include loading

theorem loading_of_reports (reports : run.Reports id m t failed) :
    ((run.state m).view id).Loading last := by
  have some : ((run.state m).view id).tasks ≠ [] := by
    show tasksOf id (run.state m).line ≠ []
    rw [line_of_handling reports.2.1, tasksOf, filter_cons_of_pos (by simp)]
    exact nofun
  have later : n + 1 ≤ m := by
    by_contra earlier
    rw [run.blank_before unsent (by omega)] at some
    exact some rfl
  rcases run.stages loading later with loading | lost | reported | returned
  · exact loading
  · exact absurd lost.handled some
  · exact absurd reported.handled some
  · exact absurd returned.handled some

theorem reports_unique {k : Nat} {task' : PullTask} {transferFailed' : Bool}
    (reports : run.Reports id m t failed) (reports' : run.Reports id k task' transferFailed') :
    m = k := by
  have once : ∀ {m k : Nat} {t task' : PullTask} {failed transferFailed' : Bool},
      run.Reports id m t failed → run.Reports id k task' transferFailed' → ¬ m < k := by
    intro m k t task' failed transferFailed' reports reports' before
    have still := run.loading_of_reports unsent loading reports'
    obtain ⟨-, reported, lost⟩ := run.loading_report (run.loading_of_reports unsent loading reports) reports
    rcases Classical.em (id ∈ (run.state m).thread.taskTracker.reqsToProcess ∧
      (t.localBlockIds.length > 0 ∨ failed)) with well | badly
    · rcases run.reported_stable (reported well) before with reported | returned
      · exact not_loading_of_handled reported.handled still
      · exact not_loading_of_handled returned.handled still
    · have lost := view_stable run.toRun (P := RequestView.Lost) RequestView.Lost.keeps (lost badly) before
      exact not_loading_of_handled lost.handled still
  exact le_antisymm (not_lt.mp (once reports' reports)) (not_lt.mp (once reports reports'))

theorem handled_of_returned (returned : id ∈ (run.state m).returned) : tasksOf id (run.state m).line = [] := by
  have some : 0 < ((run.state m).view id).returned := Multiset.count_pos.mpr returned
  show ((run.state m).view id).tasks = []
  rcases lt_or_ge n m with later | earlier
  · rcases run.stages loading later with loading | lost | reported | returned
    · rw [loading.unreturned] at some
      exact absurd some (lt_irrefl 0)
    · exact lost.handled
    · exact reported.handled
    · exact returned.handled
  · rw [run.blank_before unsent earlier]

theorem returnedOnce_iff_report : run.ReturnedOnce id ↔ ∀ m failed, run.Reports id m last failed →
      id ∈ (run.state m).thread.taskTracker.reqsToProcess ∧ (last.localBlockIds.length > 0 ∨ failed) := by
  constructor
  · rintro ⟨⟨k, once⟩, -⟩ m failed reports
    by_contra badly
    have lost := (run.loading_report (run.loading_of_reports unsent loading reports) reports).2.2 badly
    have forever := view_stable run.toRun (P := RequestView.Lost) RequestView.Lost.keeps lost
      (le_max_left (m + 1) k)
    have none : (run.state (max (m + 1) k)).returned.count id = 0 := forever.unreturned
    rw [once _ (le_max_right _ _)] at none
    cases none
  · intro well
    obtain ⟨m, -, still, failed, reports⟩ := run.exists_report loading
    have reported := (run.loading_report still reports).2.1 (well m failed reports)
    exact ⟨run.returned_of_reported reported, fun m => run.handled_of_returned unsent loading⟩

end

theorem loading_of_sent (run : RecvRun w) {n : Nat} (sends : run.action n = .startLoadKv md)
    {chosen : List Nat} {req : ReqMeta} (mem : (id, chosen, req) ∈ md.requests) :
    ((run.state n).view id).sent = false ∧ ∃ tasks, w.startLoadKv chosen req = .ok tasks ∧
      ∀ last, LastMarked last tasks → ((run.state (n + 1)).view id).Loading last := by
  have inBatch : id ∈ md.reqsInBatch := md.inBatch _ mem
  obtain ⟨next, enabled⟩ := run.view_next id n
  rw [sends] at next enabled
  have event : (run.state n).event w id (.startLoadKv md) = .load (w.loadedTasks md id) := if_pos inBatch
  rw [event] at next enabled
  obtain ⟨ops, loaded⟩ := loaded_of_step (sends ▸ run.steps n)
  obtain ⟨tasks, ran⟩ := loadOps_ran loaded mem
  rw [loadedTasks_eq mem ran] at next
  exact ⟨enabled, tasks, ran, fun last marked => next ▸ (view_blank run.toRun id n).load enabled marked⟩

/-- Without context parallelism, a request with blocks is returned exactly once, and only after all
its tasks, if and only if it was registered before its last task was done. -/
theorem returnedOnce_iff (run : RecvRun w) {n : Nat} {metadata : MooncakeConnectorMetadata}
    (sends : run.action n = .startLoadKv metadata)
    {chosen : List Nat} {req : ReqMeta} (member : (requestId, chosen, req) ∈ metadata.requests)
    (plain : req.remotePcpSize * req.remoteDcpSize ≤ 1)
    (several : 0 < w.getTpNumNeedPulls (w.prefillTpSizeOf req) * w.prefillPpSize)
    (blocks : req.localBlockIds ≠ []) :
    run.ReturnedOnce requestId ↔ run.RegisteredInTime requestId := by
  obtain ⟨unsent, tasks, ran, loads⟩ := run.loading_of_sent sends member
  obtain ⟨last, marked, same⟩ := startLoadKv_marked plain several ran
  have loading := loads last marked
  have filled : last.localBlockIds.length > 0 := by
    rw [same]
    exact length_pos_of_ne_nil blocks
  rw [run.returnedOnce_iff_report unsent loading]
  constructor
  · intro well m task transferFailed reports
    obtain ⟨rfl, -, -⟩ := run.loading_report (run.loading_of_reports unsent loading reports) reports
    exact (well m transferFailed reports).1
  · intro inTime m transferFailed reports
    exact ⟨inTime m last transferFailed reports, .inl filled⟩

/-! ### Two runs with one request -/

structure Fair {s : RecvSystem} (run : Run (RecvStep w) s) : Prop where
  polled : ∀ n, ∃ m ≥ n, run.action m = .getFinished
  served : ∀ n, (run.state n).handling ≠ none ∨ (run.state n).thread.requestQueue ≠ [] → ∃ m ≥ n,
    (run.action m).IsReceiving

theorem Fair.cons {s s' : RecvSystem} {run : Run (RecvStep w) s'} (fair : Fair run) (step : RecvStep w s a s')
    (serves : s.handling ≠ none ∨ s.thread.requestQueue ≠ [] →
      a.IsReceiving ∨ s'.handling ≠ none ∨ s'.thread.requestQueue ≠ []) : Fair (run.cons step) where
  polled n := by
    have polls : run.Responds (fun _ => True) (· = .getFinished) := fun n _ => fair.polled n
    exact polls.cons step (fun _ => .inr trivial) n trivial
  served := by
    have receives : run.Responds (fun s => s.handling ≠ none ∨
      s.thread.requestQueue ≠ []) RecvAction.IsReceiving := fair.served
    exact receives.cons step serves

variable {s : RecvSystem}

theorem Fair.stay (step : RecvStep w s .getFinished s) (free : s.handling = none)
    (empty : s.thread.requestQueue = []) : Fair (Run.stay step) where
  polled n := ⟨n, le_refl n, rfl⟩
  served n busy := by
    rcases busy with handling | q
    · exact absurd free handling
    · exact absurd empty q

def oneRankWorker : MooncakeConnectorWorker := ⟨⟨1, 1, 1⟩, 0, 0, 200, 1, 1, true, 1, 1⟩

def oneBlock : ReqMeta := ⟨[20], 1, [10], 100, 1, 1, some 1, 1⟩

def oneRequest : MooncakeConnectorMetadata where
  requests := [("r", [0], oneBlock)]
  reqsInBatch := ["r"]
  requestsDistinct := nodup_singleton _
  batchDistinct := nodup_singleton _
  inBatch := by simp

def oneTask : PullTask := ⟨[20], [10], 100, 0, 1, true⟩

def register : WorkerOp := .addReqToProcess "r"

def stateOf (queue : List (String × PullTask))
    (handling : Option ((String × PullTask) × Option Bool)) (remaining : List WorkerOp)
    (finished registered : Finset String) (returned : Multiset String) : RecvSystem :=
  ⟨⟨queue, ⟨finished, registered⟩, ∅, ∅⟩, handling, remaining, ∅ ∪ ["r"].toFinset, returned⟩

theorem load_step : RecvStep oneRankWorker init (.startLoadKv oneRequest)
    (stateOf [] none [.addRequest "r" oneTask, register] ∅ ∅ 0) :=
  .startLoadKv rfl rfl fun _ _ => Finset.notMem_empty _

theorem queue_step : RecvStep oneRankWorker (stateOf [] none [.addRequest "r" oneTask, register] ∅ ∅ 0) .write
    (stateOf [("r", oneTask)] none [register] ∅ ∅ 0) :=
  @RecvStep.write _ (stateOf _ _ _ _ _ _) (.addRequest "r" oneTask) _ rfl

section
variable {q : List (String × PullTask)} {handling : Option ((String × PullTask) × Option Bool)}
  {remaining : List WorkerOp} {finished registered : Finset String} {returned : Multiset String}

theorem register_step : RecvStep w (stateOf q handling (register :: remaining) finished registered
    returned) .write (stateOf q handling remaining finished (insert "r" registered) returned) :=
  @RecvStep.write _ (stateOf _ _ _ _ _ _) register _ rfl

theorem get_step : RecvStep oneRankWorker (stateOf (("r", oneTask) :: q) none remaining finished
    registered returned) .get
    (stateOf q (some (("r", oneTask), none)) remaining finished registered returned) :=
  @RecvStep.get _ (stateOf _ _ _ _ _ _) ("r", oneTask) _ rfl rfl

theorem transfer_step :
    RecvStep oneRankWorker (stateOf q (some (("r", oneTask), none)) remaining finished registered
      returned) (.transfer true)
      (stateOf q (some (("r", oneTask), some false)) remaining finished registered returned) :=
  @RecvStep.transfer _ (stateOf _ _ _ _ _ _) ("r", oneTask) rfl true

theorem report_step :
    RecvStep oneRankWorker (stateOf q (some (("r", oneTask), some false)) remaining finished
      registered returned) .report
      (stateOf q none remaining (KVCacheTaskTracker.updateDoneTaskCount ⟨finished, registered⟩
        "r").finishedRequests
        (KVCacheTaskTracker.updateDoneTaskCount ⟨finished, registered⟩ "r").reqsToProcess returned) :=
  @RecvStep.report _ (stateOf _ _ _ _ _ _) ("r", oneTask) false rfl

theorem poll_step : RecvStep w (stateOf q handling [] finished registered returned) .getFinished
    (stateOf q handling [] ∅ registered (returned + finished.val)) :=
  @RecvStep.getFinished _ (stateOf _ _ _ _ _ _) rfl

end

theorem not_busy {P : Prop} (free : s.handling = none) (empty : s.thread.requestQueue = [])
    (busy : s.handling ≠ none ∨ s.thread.requestQueue ≠ []) : P :=
  busy.elim (fun handling => absurd free handling) fun q => absurd empty q

/-- The receiving thread is faster than the worker thread: the task is done before the request is
registered. -/
def lateRun : RecvRun oneRankWorker :=
  have fair := ((((((Fair.stay poll_step rfl rfl).cons register_step (not_busy rfl rfl)).cons
    report_step fun _ => .inl trivial).cons
    transfer_step fun _ => .inl trivial).cons get_step fun _ => .inl trivial).cons queue_step
      (not_busy rfl rfl)).cons load_step (not_busy rfl rfl)
  { toRun := .cons load_step (.cons queue_step
      (.cons get_step (.cons transfer_step (.cons report_step (.cons register_step
      (.stay poll_step))))))
    polled := fair.polled
    served := fair.served }

def timelyRun : RecvRun oneRankWorker :=
  have fair := (((((((Fair.stay poll_step rfl rfl).cons poll_step (not_busy rfl rfl)).cons
    report_step fun _ => .inl trivial).cons
    transfer_step fun _ => .inl trivial).cons get_step fun _ => .inl trivial).cons register_step
      fun _ => .inr (.inr nofun)).cons
      queue_step (not_busy rfl rfl)).cons load_step (not_busy rfl rfl)
  { toRun := .cons load_step (.cons queue_step
      (.cons register_step (.cons get_step (.cons transfer_step (.cons report_step
      (.cons poll_step (.stay poll_step)))))))
    polled := fair.polled
    served := fair.served }

theorem lateRun_not_returned : lateRun.action 0 = .startLoadKv oneRequest ∧
    ("r", [0], oneBlock) ∈ oneRequest.requests ∧
    oneBlock.remotePcpSize * oneBlock.remoteDcpSize ≤ 1 ∧ oneBlock.localBlockIds ≠ [] ∧
      ¬ lateRun.ReturnedOnce "r" := by
  refine ⟨rfl, mem_cons_self, le_refl 1, cons_ne_nil _ _, ?_⟩
  rintro ⟨⟨n, once⟩, -⟩
  have again := once (n + 6) (le_add_right _ _)
  cases again

theorem timelyRun_returned : timelyRun.RegisteredInTime "r" ∧ timelyRun.ReturnedOnce "r" := by
  have inTime : timelyRun.RegisteredInTime "r" := by
    rintro n task transferFailed ⟨reports, -, -⟩
    rcases n with _ | _ | _ | _ | _ | _ | _ | n
    · cases reports
    · cases reports
    · cases reports
    · cases reports
    · cases reports
    · exact Finset.mem_insert_self _ _
    · cases reports
    · cases reports
  have sends : timelyRun.action 0 = .startLoadKv oneRequest := rfl
  exact ⟨inTime, (timelyRun.returnedOnce_iff sends mem_cons_self (le_refl 1) one_pos
    (cons_ne_nil _ _)).mpr inTime⟩

end RecvRun

end TurboQuant.Ascend.Mooncake
