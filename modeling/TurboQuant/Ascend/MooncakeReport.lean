import TurboQuant.Ascend.MooncakePull
import TurboQuant.Ascend.MooncakeReturn

/-!
When a decode rank reports a request that it pulls from several prefill ranks.
-/

namespace TurboQuant.Ascend.Mooncake
open Striping List Nat

/-! ### Failed pulls -/

section
variable {w : MooncakeConnectorWorker} {s s' : RecvSystem} {a : RecvAction}

def RecvSystem.FailureNoted (s : RecvSystem) : Prop :=
  ∀ entry transferFailed, s.handling = some (entry, some transferFailed) →
    (transferFailed = true ↔ entry.1 ∈ s.thread.failedRecvRequests)

theorem tryTransfer_noted (thread : KVCacheRecvingThread) (id : String) (t : PullTask) (readOk : Bool) :
    (thread.tryTransfer id t readOk).2 = true ↔
      id ∈ (thread.tryTransfer id t readOk).1.failedRecvRequests := by
  unfold KVCacheRecvingThread.tryTransfer
  split
  · exact iff_of_true rfl (Finset.mem_insert_self _ _)
  · rename_i unfailed
    split
    · exact iff_of_false Bool.false_ne_true unfailed
    · exact iff_of_true rfl (Finset.mem_insert_self _ _)

theorem failureNoted_step (noted : s.FailureNoted) (step : RecvStep w s a s') : s'.FailureNoted := by
  cases step with
  | @write op ops next =>
    cases op with
    | addRequest name t => exact noted
    | addReqToProcess name => exact noted
  | get free next => exact nofun
  | @transfer e taken readOk =>
    intro entry' failed same
    cases same
    exact tryTransfer_noted s.thread e.1 e.2 readOk
  | report pulled => exact nofun
  | _ => exact noted

theorem RecvRun.failed_iff (run : RecvRun w) {id : String} {n : Nat} {t : PullTask} {failed : Bool}
    (reports : run.Reports id n t failed) : failed = true ↔ id ∈ (run.state n).thread.failedRecvRequests :=
  run.invariant (P := RecvSystem.FailureNoted) nofun failureNoted_step n (id, t) failed reports.2.1

end

/-! ### The last task of a plan -/

theorem splitBlocks_append (localIds rids : List Nat) (offset : Nat) (n others : List (List Nat × Nat)) :
    splitBlocks localIds rids offset (n ++ others) = splitBlocks localIds rids offset n ++
      splitBlocks localIds rids (offset + (n.map Prod.snd).sum) others := by
  induction n generalizing offset with
  | nil => rfl
  | cons split rest ih =>
    rw [cons_append, splitBlocks, splitBlocks, ih, cons_append, map_cons, sum_cons, add_assoc]

theorem tasks_marked {n : List KvSplit} {split : KvSplit} {need : Nat} (several : 0 < need) :
    LastMarked (taskOf need (n ++ [split]).length (split, n.length) (need - 1))
      ((n ++ [split]).zipIdx.map fun e => (range need).map (taskOf need (n ++ [split]).length e)).flatten := by
  obtain ⟨k, rfl⟩ := exists_eq_succ_of_ne_zero several.ne'
  have count : (n ++ [split]).length - 1 = n.length := by simp
  refine ⟨?_, (n.zipIdx.map fun e => (range (k + 1)).map (taskOf (k + 1) (n ++ [split]).length e)).flatten ++
    (range k).map (taskOf (k + 1) (n ++ [split]).length (split, n.length)), ?_, ?_⟩
  · exact decide_eq_true ⟨count.symm, rfl⟩
  · rw [zipIdx_append, map_append, flatten_append, append_assoc]
    congr 1
    rw [zero_add, zipIdx_singleton, map_singleton, flatten_singleton, range_succ, map_append]
    rfl
  · intro t member
    rcases mem_append.mp member with earlier | here
    · obtain ⟨tasks, isList, isTask⟩ := mem_flatten.mp earlier
      obtain ⟨e, isEntry, rfl⟩ := mem_map.mp isList
      obtain ⟨i, -, rfl⟩ := mem_map.mp isTask
      have before := snd_lt_of_mem_zipIdx isEntry
      refine decide_eq_false fun last => ?_
      omega
    · obtain ⟨i, isShare, rfl⟩ := mem_map.mp here
      have before := mem_range.mp isShare
      refine decide_eq_false fun last => ?_
      omega

namespace Deployment

variable {dep : Deployment} {h : Handover dep}

def Rank.lastPlace (rank : dep.Rank) (h : Handover dep) : Nat :=
  if (h.numPromptBlocks - 1) % dep.decode.cpSize = rank.cpRank then
    (h.numPromptBlocks - 1) % dep.prefill.cpSize
  else dep.prefill.cpSize - dep.decode.cpSize + rank.cpRank

theorem last_location (h : Handover dep) :
    (h.numPromptBlocks % dep.prefill.cpSize + dep.prefill.cpSize - 1) % dep.prefill.cpSize =
      (h.numPromptBlocks - 1) % dep.prefill.cpSize := by
  have positive := dep.prefill.cpSize_pos
  have some := h.numPromptBlocks_pos
  rw [Nat.add_sub_assoc positive, Nat.mod_add_mod,
    show h.numPromptBlocks + (dep.prefill.cpSize - 1) =
      h.numPromptBlocks - 1 + dep.prefill.cpSize by omega, add_mod_right]

theorem Rank.order_last (r : dep.Rank) (h : Handover dep) (striped : dep.decode.cpSize ∣ dep.prefill.cpSize) :
    ∃ before s, r.order h = before ++ [s] ∧ s * dep.decode.cpSize + r.cpRank = r.lastPlace h := by
  have stripes := numStripes_mul striped
  have same : (h.numPromptBlocks - 1) % dep.prefill.cpSize % dep.decode.cpSize =
      (h.numPromptBlocks - 1) % dep.decode.cpSize :=
    mod_mod_of_dvd _ striped
  unfold Rank.order Rank.lastPlace
  dsimp only
  rw [last_location, same]
  split
  · rename_i here
    have lt : (h.numPromptBlocks - 1) % dep.prefill.cpSize / dep.decode.cpSize < dep.numStripes := by
      rw [div_lt_iff_lt_mul dep.decode.cpSize_pos, stripes]
      exact mod_lt _ dep.prefill.cpSize_pos
    refine ⟨(range dep.numStripes).eraseIdx ((h.numPromptBlocks - 1) % dep.prefill.cpSize / dep.decode.cpSize),
      (h.numPromptBlocks - 1) % dep.prefill.cpSize / dep.decode.cpSize, ?_, ?_⟩
    · show _ ++ (range dep.numStripes)[(h.numPromptBlocks - 1) % dep.prefill.cpSize /
        dep.decode.cpSize]?.toList = _
      rw [getElem?_range lt]
      rfl
    · rw [← here, ← same]
      exact div_add_mod' _ _
  · obtain ⟨k, several⟩ := exists_eq_succ_of_ne_zero (numStripes_pos striped).ne'
    refine ⟨range k, k, ?_, ?_⟩
    · rw [several]
      exact range_succ
    · rw [several, succ_mul] at stripes
      omega

theorem Rank.last_task (r : dep.Rank) (h : Handover dep) (chosen : List Nat)
    (parallel : 1 < dep.prefill.cpSize) :
    ∃ tasks last, r.worker.startLoadKv chosen h.req = .ok tasks ∧ LastMarked last tasks ∧
      last.localBlockIds.length = h.pending (r.lastPlace h) := by
  have striped := dep.striped parallel
  obtain ⟨copy, n, -, isSplits, ran, -⟩ := r.pulls_eq h chosen parallel
  obtain ⟨before, s, order, place⟩ := r.order_last h striped
  have enough := r.sum_entries_le h striped
  have es : r.entries h = (before.map fun q => (q, h.pending (q * dep.decode.cpSize + r.cpRank))) ++
      [(s, h.pending (r.lastPlace h))] := by
    rw [Rank.entries, order, map_append, map_singleton, place]
  rw [es, map_append, splitBlocks_append] at isSplits
  rw [es, map_append, sum_append_nat, map_singleton, sum_singleton] at enough
  subst isSplits
  refine ⟨_, _, ran, tasks_marked dep.numShares_pos, ?_⟩
  have nums : ∀ es : List (Nat × Nat),
      ((es.map fun e => (r.stripePorts copy e.1, e.2)).map Prod.snd) = es.map Prod.snd := by
    intro es
    rw [map_map]
    rfl
  show ((h.req.localBlockIds.drop _).take (h.pending (r.lastPlace h))).length = _
  rw [length_take, length_drop, nums]
  omega

theorem pending_pos_iff (h : Handover dep) {place : Nat} (lt : place < dep.prefill.cpSize) :
    0 < h.pending place ↔ ∃ j, h.numCached ≤ j ∧ j < h.numPromptBlocks ∧ j % dep.prefill.cpSize = place := by
  unfold Handover.pending
  rw [Nat.sub_pos_iff_lt]
  constructor
  · intro more
    refine ⟨held h.numCached dep.prefill.cpSize place * dep.prefill.cpSize + place, ?_,
      (lt_held lt).mp more, ?_⟩
    · exact Nat.not_lt.mp fun cached => Nat.lt_irrefl _ ((lt_held lt).mpr cached)
    · rw [Nat.mul_add_mod', Nat.mod_eq_of_lt lt]
  · rintro ⟨j, uncached, isBlock, rfl⟩
    have whole := Nat.div_add_mod' j dep.prefill.cpSize
    have isHeld : j / dep.prefill.cpSize < held h.numPromptBlocks dep.prefill.cpSize
        (j % dep.prefill.cpSize) :=
      (lt_held lt).mpr (by omega)
    refine lt_of_le_of_lt (Nat.not_lt.mp fun cached => ?_) isHeld
    have := (lt_held lt).mp cached
    omega

/-- The last task has a block if the rank has the last block of the prompt, or if the last prefill
rank from which it pulls has a block that is not cached. -/
theorem Rank.lastPlace_pending (r : dep.Rank) (h : Handover dep)
    (striped : dep.decode.cpSize ∣ dep.prefill.cpSize)
    (external : h.numCached < h.numPromptBlocks) :
    0 < h.pending (r.lastPlace h) ↔ (h.numPromptBlocks - 1) % dep.decode.cpSize = r.cpRank ∨
      ∃ j, h.numCached ≤ j ∧ j < h.numPromptBlocks ∧
        j % dep.prefill.cpSize = dep.prefill.cpSize - dep.decode.cpSize + r.cpRank := by
  have few := le_of_dvd dep.prefill.cpSize_pos striped
  have inside := r.cpRank_lt
  unfold Rank.lastPlace
  split
  · rename_i here
    refine iff_of_true ((pending_pos_iff h (mod_lt _ dep.prefill.cpSize_pos)).mpr ?_) (.inl here)
    exact ⟨h.numPromptBlocks - 1, by omega, by omega, rfl⟩
  · rename_i elsewhere
    rw [or_iff_right elsewhere]
    exact pending_pos_iff h (by omega)

/-- A request with missing blocks is returned exactly once, after all its tasks, if and only if it
is registered before its last task is done, and this task has a block or a pull has failed. -/
theorem Rank.returnedOnce_iff_lastBlock (rank : dep.Rank) (h : Handover dep)
    (parallel : 1 < dep.prefill.cpSize)
    (external : 0 < h.numExternalTokens) (run : RecvRun rank.worker) {n : Nat}
    {metadata : MooncakeConnectorMetadata}
    (sends : run.action n = .startLoadKv metadata) {requestId : String} {chosen : List Nat}
    (member : (requestId, chosen, h.req) ∈ metadata.requests) :
    run.ReturnedOnce requestId ↔ run.RegisteredInTime requestId ∧
      ((h.numPromptBlocks - 1) % dep.decode.cpSize = rank.cpRank ∨
        (∃ j, h.numCached ≤ j ∧ j < h.numPromptBlocks ∧
          j % dep.prefill.cpSize = dep.prefill.cpSize - dep.decode.cpSize + rank.cpRank) ∨
        run.FailedByThen requestId) := by
  have missing : h.numCached < h.numPromptBlocks := by
    have some : 0 < h.numExternalTokens ⌈/⌉ dep.blockSize :=
      (Handover.lt_ceilDiv dep.blockPositive).mpr (by rwa [zero_mul])
    rw [h.numExternalBlocks_eq] at some
    omega
  obtain ⟨unsent, tasks, ran, loads⟩ := run.loading_of_sent sends member
  obtain ⟨tasks', last, ran', marked, blocks⟩ := rank.last_task h chosen parallel
  obtain rfl := Except.ok.inj (ran.symm.trans ran')
  have loading := loads last marked
  rw [run.returnedOnce_iff_report unsent loading, blocks, ← or_assoc,
    ← rank.lastPlace_pending h (dep.striped parallel) missing]
  constructor
  · intro well
    refine ⟨fun m task transferFailed reports => ?_, ?_⟩
    · obtain ⟨rfl, -, -⟩ := run.loading_report (run.loading_of_reports unsent loading reports) reports
      exact (well m transferFailed reports).1
    · obtain ⟨m, -, -, transferFailed, reports⟩ := run.exists_report loading
      refine (well m transferFailed reports).2.imp id fun failed => ?_
      exact ⟨m, last, transferFailed, reports, (run.failed_iff reports).mp failed⟩
  · rintro ⟨inTime, either⟩ m transferFailed reports
    refine ⟨inTime m last transferFailed reports, either.imp id ?_⟩
    rintro ⟨k, task, transferFailed', reports', failed⟩
    obtain rfl := run.reports_unique unsent loading reports reports'
    exact (run.failed_iff reports).mpr failed

def twoRanks (port : Nat) : Node 1 true where
  tpSize := 1
  pcpSize := 2
  dcpSize := 1
  port := port
  tpPositive := Nat.one_pos
  pcpPositive := Nat.two_pos
  dcpPositive := Nat.one_pos
  headsDivided := .inl rfl
  sameHeads := Nat.one_dvd _

def twoToTwo : Deployment where
  numKeyValueHeads := 1
  useMla := true
  headsPositive := Nat.one_pos
  prefill := twoRanks 100
  decode := twoRanks 200
  prefillPpSize := 1
  ppPositive := Nat.one_pos
  blockSize := 1
  blockPositive := Nat.one_pos
  wholeShares := dvd_refl _
  striped := fun _ => dvd_refl _

def firstBlock : Handover twoToTwo where
  promptLen := 1
  promptPositive := Nat.one_pos
  cached := 0
  withinPrompt := Nat.zero_le _
  blocks := [20]
  blocksNodup := nodup_singleton 20
  blocksLength := rfl
  remoteBlocks := [10]
  remoteNodup := pairwise_singleton _ 10
  remoteLength := Nat.le_refl 1

def firstRank : twoToTwo.Rank := ⟨0, 0, Nat.two_pos, Nat.one_pos⟩

def secondRank : twoToTwo.Rank := ⟨1, 0, Nat.one_lt_two, Nat.one_pos⟩

def firstBlockRequest : MooncakeConnectorMetadata where
  requests := [("r", [], firstBlock.req)]
  reqsInBatch := ["r"]
  requestsDistinct := nodup_singleton _
  batchDistinct := nodup_singleton _
  inBatch := by simp

open RecvRun

def firstTask : PullTask := ⟨[20], [10], 100, 0, 1, true⟩

def emptyTask : PullTask := ⟨[], [], 101, 0, 1, true⟩

section
variable {w : MooncakeConnectorWorker} {t : PullTask}

theorem queue_one : RecvStep w (stateOf [] none [.addRequest "r" t, register] ∅ ∅ 0) .write
    (stateOf [("r", t)] none [register] ∅ ∅ 0) :=
  @RecvStep.write _ (stateOf _ _ _ _ _ _) (.addRequest "r" t) _ rfl

theorem get_one : RecvStep w (stateOf [("r", t)] none [] ∅ (insert "r" ∅) 0) .get
    (stateOf [] (some (("r", t), none)) [] ∅ (insert "r" ∅) 0) :=
  @RecvStep.get _ (stateOf _ _ _ _ _ _) ("r", t) _ rfl rfl

theorem idle_step {reg : Finset String} {returned : Multiset String} :
    RecvStep w (stateOf [] none [] ∅ reg returned) .getFinished (stateOf [] none [] ∅ reg returned) := by
  have step : RecvStep w (stateOf [] none [] ∅ reg returned) .getFinished
      (stateOf [] none [] ∅ reg (returned + (∅ : Finset String).val)) := poll_step
  rwa [Finset.empty_val, add_zero] at step

variable (load : RecvStep w RecvSystem.init (.startLoadKv firstBlockRequest)
      (stateOf [] none [.addRequest "r" t, register] ∅ ∅ 0))
    (transfer : RecvStep w (stateOf [] (some (("r", t), none)) [] ∅ (insert "r" ∅) 0) (.transfer true)
      (stateOf [] (some (("r", t), some false)) [] ∅ (insert "r" ∅) 0))
    {finished registered : Finset String}
    (report : RecvStep w (stateOf [] (some (("r", t), some false)) [] ∅ (insert "r" ∅) 0) .report
      (stateOf [] none [] finished registered 0))

def pulledRun : RecvRun w :=
  have fair := (((((((Fair.stay idle_step rfl rfl).cons poll_step (not_busy rfl rfl)).cons report
    fun _ => .inl trivial).cons
    transfer fun _ => .inl trivial).cons get_one fun _ => .inl trivial).cons register_step fun _ =>
      .inr (.inr nofun)).cons queue_one (not_busy rfl rfl)).cons load (not_busy rfl rfl)
  { toRun := .cons load (.cons queue_one (.cons register_step (.cons get_one (.cons transfer (.cons report
      (.cons poll_step (.stay idle_step)))))))
    polled := fair.polled
    served := fair.served }

theorem pulledRun_inTime : (pulledRun load transfer report).RegisteredInTime "r" := by
  rintro n t failed ⟨reports, -, -⟩
  rcases n with _ | _ | _ | _ | _ | _ | _ | n
  · cases reports
  · cases reports
  · cases reports
  · cases reports
  · cases reports
  · exact Finset.mem_insert_self _ _
  · cases reports
  · cases reports

end

def firstRun : RecvRun firstRank.worker :=
  @pulledRun _ firstTask (.startLoadKv rfl rfl fun _ _ => Finset.notMem_empty _)
    (@RecvStep.transfer _ (stateOf _ _ _ _ _ _) ("r", firstTask) rfl true) {"r"} ∅
    (@RecvStep.report _ (stateOf _ _ _ _ _ _) ("r", firstTask) false rfl)

def secondRun : RecvRun secondRank.worker :=
  @pulledRun _ emptyTask (.startLoadKv rfl rfl fun _ _ => Finset.notMem_empty _)
    (@RecvStep.transfer _ (stateOf _ _ _ _ _ _) ("r", emptyTask) rfl true) ∅ (insert "r" ∅)
    (@RecvStep.report _ (stateOf _ _ _ _ _ _) ("r", emptyTask) false rfl)

/-- The second rank has no block of the prompt. Its only task is empty and reports nothing, so the
request waits for ever although no pull has failed. -/
theorem secondRun_not_returned : secondRun.action 0 = .startLoadKv firstBlockRequest ∧
    ("r", [], firstBlock.req) ∈ firstBlockRequest.requests ∧ 0 < firstBlock.numExternalTokens ∧
    secondRun.RegisteredInTime "r" ∧ ¬ secondRun.ReturnedOnce "r" := by
  refine ⟨rfl, mem_cons_self, by decide, pulledRun_inTime _ _ _, ?_⟩
  rintro ⟨⟨n, once⟩, -⟩
  have again := once (n + 7) (le_add_right _ _)
  cases again

theorem firstRun_returned : (firstBlock.numPromptBlocks - 1) % twoToTwo.decode.cpSize = firstRank.cpRank ∧
    firstRun.RegisteredInTime "r" ∧ firstRun.ReturnedOnce "r" := by
  have inTime : firstRun.RegisteredInTime "r" := pulledRun_inTime _ _ _
  have sends : firstRun.action 0 = .startLoadKv firstBlockRequest := rfl
  have parallel : 1 < twoToTwo.prefill.cpSize := one_lt_two
  have external : 0 < firstBlock.numExternalTokens := by decide
  have member : ("r", [], firstBlock.req) ∈ firstBlockRequest.requests := mem_cons_self
  exact ⟨rfl, inTime,
    (firstRank.returnedOnce_iff_lastBlock firstBlock parallel external firstRun sends member).mpr
      ⟨inTime, .inl rfl⟩⟩

end Deployment

end TurboQuant.Ascend.Mooncake
