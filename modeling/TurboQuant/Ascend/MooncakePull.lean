import TurboQuant.Ascend.MooncakePorts

/-!
Which blocks a decode node pulls, and into which of its own blocks.
-/

namespace TurboQuant.Ascend.Mooncake
open Outcome Striping List Nat MooncakeConnectorWorker

/-- A prompt that was computed on the prefill node and is wanted on the decode node, where a prefix
of its blocks is cached. -/
structure Handover (dep : Deployment) where
  promptLen : Nat
  promptPositive : 0 < promptLen
  /-- The cached blocks of the decode request. -/
  cached : Nat
  withinPrompt : cached * dep.decode.cpSize * dep.blockSize ≤ promptLen
  /-- The block list of the decode request. -/
  blocks : List Nat
  blocksNodup : blocks.Nodup
  blocksLength : blocks.length = promptLen ⌈/⌉ dep.blockSize ⌈/⌉ dep.decode.cpSize
  /-- The block list of the prefill request. -/
  remoteBlocks : List Nat
  remoteNodup : remoteBlocks.Nodup
  remoteLength : promptLen ⌈/⌉ dep.blockSize ⌈/⌉ dep.prefill.cpSize ≤ remoteBlocks.length

namespace Handover

variable {dep : Deployment}

section
variable (h : Handover dep)

def numPromptBlocks : Nat := h.promptLen ⌈/⌉ dep.blockSize

def numCached : Nat := h.cached * dep.decode.cpSize

def numExternalTokens : Nat := h.promptLen - h.numCached * dep.blockSize

def flaggedBlocks : List (Nat × Bool) := h.blocks.zipIdx.map fun (b, i) => (b, i < h.cached)

def req : ReqMeta :=
  updateStateAfterAlloc
    (requestFinished dep.prefill.toParallelSizes dep.prefill.port dep.blockSize h.promptLen
      h.remoteBlocks) h.flaggedBlocks
    h.numExternalTokens

def pending (place : Nat) : Nat :=
  held h.numPromptBlocks dep.prefill.cpSize place - held h.numCached dep.prefill.cpSize place

end

theorem ceilDiv_sub_mul {n c d : Nat} (pos : 0 < d) : (n - c * d) ⌈/⌉ d = n ⌈/⌉ d - c := by
  refine eq_of_forall_ge_iff fun k => ?_
  rw [ceilDiv_le_iff_le_mul pos, Nat.sub_le_iff_le_add, Nat.sub_le_iff_le_add, ceilDiv_le_iff_le_mul pos]
  rw [mul_add, mul_comm d c]

section
variable (h : Handover dep)

theorem numExternalBlocks_eq : h.numExternalTokens ⌈/⌉ dep.blockSize = h.numPromptBlocks - h.numCached :=
  ceilDiv_sub_mul dep.blockPositive

theorem numCached_le : h.numCached ≤ h.numPromptBlocks := by
  have within := h.withinPrompt
  have enough : h.promptLen ≤ dep.blockSize * h.numPromptBlocks :=
    (ceilDiv_le_iff_le_mul dep.blockPositive).mp (le_refl _)
  refine le_of_mul_le_mul_right (?_ : _ * dep.blockSize ≤ _) dep.blockPositive
  rw [mul_comm h.numPromptBlocks]
  exact within.trans enough

theorem unhashed_eq : (h.flaggedBlocks.filter (!·.2)).map Prod.fst = h.blocks.drop h.cached := by
  have general : ∀ (bs : List Nat) (start : Nat),
      (((bs.zipIdx start).map fun (b, i) => (b, decide (i < h.cached))).filter (!·.2)).map Prod.fst =
        bs.drop (h.cached - start) := by
    intro bs
    induction bs with
    | nil => simp
    | cons b rest ih =>
      intro start
      rw [zipIdx_cons, map_cons]
      by_cases less : start < h.cached
      · rw [filter_cons_of_neg (by simpa using less), ih, show h.cached - start = h.cached - (start + 1) + 1 by omega,
          drop_succ_cons]
      · rw [filter_cons_of_pos (by simpa using less), map_cons, ih, show h.cached - start = 0 by omega,
          show h.cached - (start + 1) = 0 by omega]
        rfl
  exact general h.blocks 0

theorem localBlockIds_eq : h.req.localBlockIds =
    if h.numExternalTokens > 0 then h.blocks.drop h.cached else [] := by
  show (if h.numExternalTokens > 0 then _ else _) = _
  rw [h.unhashed_eq]

theorem length_localBlockIds :
    h.req.localBlockIds.length = (h.numPromptBlocks - h.numCached) ⌈/⌉ dep.decode.cpSize := by
  rw [h.localBlockIds_eq, numCached, ceilDiv_sub_mul dep.decode.cpSize_pos]
  split
  · rw [length_drop, h.blocksLength]
    rfl
  · rename_i none
    have zero : h.numExternalTokens ⌈/⌉ dep.blockSize = 0 := by
      rw [Nat.eq_zero_of_not_pos none]
      exact zero_ceilDiv _
    rw [h.numExternalBlocks_eq, numCached] at zero
    rw [← ceilDiv_sub_mul dep.decode.cpSize_pos, zero, length_nil]
    exact (zero_ceilDiv _).symm

end

end Handover

/-! ### The plan of a decode rank -/

namespace Deployment

variable {dep : Deployment}

section
variable (r : dep.Rank) (h : Handover dep)

theorem Rank.prefillTpSizeOf_eq : r.worker.prefillTpSizeOf h.req = dep.prefill.tpSize := by
  show (if dep.prefill.tpSize = 0 then _ else _) = _
  rw [if_neg dep.prefill.tpPositive.ne']

theorem Rank.remoteSizes_eq : r.worker.remoteSizes h.req = dep.prefill.toParallelSizes := by
  unfold remoteSizes
  rw [r.prefillTpSizeOf_eq]
  rfl

theorem Rank.getTpNumNeedPulls_eq :
    r.worker.getTpNumNeedPulls (r.worker.prefillTpSizeOf h.req) = dep.numShares := by
  rw [r.prefillTpSizeOf_eq]
  unfold getTpNumNeedPulls numShares Node.perGroup headsPerGroup
  show (if dep.useMla = true then _ else _) = _
  split
  · rfl
  · rfl

end

theorem ceilDiv_heads {heads tpSize : Nat} {useMla : Bool} (plain : useMla = false)
    (pos : 0 < heads) (rs : 0 < tpSize)
    (divided : useMla = true ∨ tpSize ∣ heads ∨ heads ∣ tpSize) :
    heads ⌈/⌉ tpSize = headsPerGroup useMla heads tpSize := by
  subst plain
  have divided := divided.resolve_left Bool.false_ne_true
  show _ = max 1 (heads / tpSize)
  rcases lt_or_ge heads tpSize with fewer | more
  · rw [div_eq_of_lt fewer]
    refine le_antisymm ((ceilDiv_le_iff_le_mul rs).mpr ?_) ?_
    · show heads ≤ tpSize * 1
      omega
    · by_contra none
      have zero : heads ⌈/⌉ tpSize ≤ 0 := by
        omega
      rw [ceilDiv_le_iff_le_mul rs] at zero
      omega
  · obtain ⟨m, rfl⟩ : tpSize ∣ heads := by
      rcases divided with whole | copies
      · exact whole
      · rw [le_antisymm more (le_of_dvd rs copies)]
    rw [Nat.mul_div_cancel_left _ rs, Nat.max_eq_right (Nat.pos_of_mul_pos_left pos)]
    refine eq_of_forall_ge_iff fun k => ?_
    rw [ceilDiv_le_iff_le_mul rs]
    exact ⟨fun less => le_of_mul_le_mul_left less rs, fun less => mul_le_mul_left _ less⟩

section
variable (r : dep.Rank) (h : Handover dep) (striped : dep.decode.cpSize ∣ dep.prefill.cpSize)
include striped

theorem Rank.check_holds : r.worker.contextParallelParametersCheck h.req = true := by
  unfold contextParallelParametersCheck
  rw [r.remoteSizes_eq, r.prefillTpSizeOf_eq]
  refine decide_eq_true ⟨mod_eq_zero_of_dvd striped, fun plain => ?_⟩
  show (dep.numKeyValueHeads ⌈/⌉ dep.decode.tpSize) % (dep.numKeyValueHeads ⌈/⌉ dep.prefill.tpSize) = 0
  rw [ceilDiv_heads plain dep.headsPositive dep.decode.tpPositive dep.decode.headsDivided,
    ceilDiv_heads plain dep.headsPositive dep.prefill.tpPositive dep.prefill.headsDivided]
  exact mod_eq_zero_of_dvd dep.wholeShares

theorem Rank.mapping_eq : ∃ c : Nat → Nat, (∀ share < dep.numShares, c share < dep.prefill.numRepeats) ∧
      r.worker.localRemoteBlockPortMapping h.req = .ok (r.shareLists c (range dep.numStripes)) := by
  obtain ⟨select, stripes, ran, c, isCopy, mapping⟩ := r.stripes_eq striped
  refine ⟨c, isCopy, ?_⟩
  have pGroups : getKvHeadGroups r.worker.useMla r.worker.numKeyValueHeads (r.worker.prefillTpSizeOf h.req) =
      some dep.prefill.headGroups := by
    rw [r.prefillTpSizeOf_eq]
    exact getKvHeadGroups_eq dep.headsPositive dep.prefill.tpPositive dep.prefill.headsDivided
  have dGroups : getKvHeadGroups r.worker.useMla r.worker.numKeyValueHeads r.worker.sizes.tpSize =
      some dep.decode.headGroups := getKvHeadGroups_eq dep.headsPositive dep.decode.tpPositive
        dep.decode.headsDivided
  unfold localRemoteBlockPortMapping
  rw [r.check_holds h striped, pGroups, dGroups, r.remoteSizes_eq]
  show ((portVisits dep.pMeta dep.dMeta).foldlM (visitPorts dep.pMeta) (fun _ => 0, []) >>= _) = _
  rw [ran]
  dsimp only [bind, Except.bind]
  rw [mapping]
  have some : (r.shareLists c (range dep.numStripes)).isEmpty = false := by
    rw [isEmpty_eq_false_iff, Ne, shareLists, map_eq_nil_iff, range_eq_nil]
    exact dep.numShares_pos.ne'
  rw [some]
  rfl

end

variable {α β : Type}

theorem moveFinal_map (f : α → β) (idx : Option Nat) (xs : List α) :
    moveFinal idx (xs.map f) = (moveFinal idx xs).map f := by
  cases idx with
  | none => rfl
  | some i => exact moveToEnd_map f i xs

theorem moveFinal_perm (idx : Option Nat) (xs : List α) : (moveFinal idx xs).Perm xs := by
  cases idx with
  | none => exact .refl _
  | some i => exact moveToEnd_perm i xs

theorem range_map_getD (f : Nat → α) (xs : List Nat) :
    ((range xs.length).map fun i => f (xs.getD i 0)) = xs.map f := by
  refine ext_getElem (by simp) fun i lt inside' => ?_
  have here : i < xs.length := by simpa using inside'
  rw [getElem_map, getElem_map, getElem_range, getD_eq_getElem?_getD, getElem?_eq_getElem here,
    Option.getD_some]

theorem columns_ok (f : Nat → Nat → α) (order : List Nat) (n : Nat) :
    (range order.length).mapM (fun idx => ((range n).map fun share => order.map (f share)).mapM
      fun xs => index xs idx) = .ok (order.map fun s => (range n).map fun share => f share s) := by
  rw [← range_map_getD (fun s => (range n).map fun share => f share s) order]
  refine mapM_ok _ fun idx lt => ?_
  rw [mapM_map]
  refine mapM_ok _ fun share _ => index_ok ?_
  rw [getElem?_map, getD_eq_getElem?_getD, getElem?_eq_getElem (mem_range.mp lt)]
  rfl

theorem numbered_ok (f : Nat → α) (g : Nat → β) (order : List Nat) :
    (order.map f).zipIdx.mapM (fun e => (index (order.map g) e.2).map fun y => (e.1, y)) =
      .ok (order.map fun s => (f s, g s)) := by
  have firsts : order.map (fun s => (f s, g s)) =
      order.zipIdx.map fun e => (f e.1, g e.1) := by
    conv_lhs => rw [← zipIdx_map_fst 0 order, map_map]
    rfl
  rw [firsts, zipIdx_map, mapM_map]
  refine mapM_ok _ fun e mem => ?_
  have at_ : (order.map g)[e.2]? = some (g e.1) := by
    rw [getElem?_map, mem_zipIdx_iff_getElem?.mp mem]
    rfl
  show (index (order.map g) e.2).map (fun y => (f e.1, y)) = _
  rw [index_ok at_]
  rfl

def Rank.order (rank : dep.Rank) (h : Handover dep) : List Nat :=
  let lastBlockLocation :=
    (h.numPromptBlocks % dep.prefill.cpSize + dep.prefill.cpSize - 1) % dep.prefill.cpSize
  moveFinal (if lastBlockLocation % dep.decode.cpSize = rank.cpRank
    then some (lastBlockLocation / dep.decode.cpSize) else none) (range dep.numStripes)

theorem remoteBlockNumsAll_eq (h : Handover dep) :
    remoteBlockNumsAll h.numPromptBlocks h.numCached dep.prefill.cpSize =
      (range dep.prefill.cpSize).map h.pending :=
  map_congr_left fun _ _ => Nat.sub_sub _ _ _

theorem Rank.own_eq (r : dep.Rank) (h : Handover dep) (striped : dep.decode.cpSize ∣ dep.prefill.cpSize) :
    (remoteBlockNumsAll h.numPromptBlocks h.numCached dep.prefill.cpSize).zipIdx.filter
      (fun (_, cpRank) => cpRank % dep.decode.cpSize = r.cpRank) = (range dep.numStripes).map fun s =>
        (h.pending (s * dep.decode.cpSize + r.cpRank), s * dep.decode.cpSize + r.cpRank) := by
  rw [remoteBlockNumsAll_eq, zipIdx_ranks, filter_map]
  calc _ = ((range dep.prefill.cpSize).filter (· % dep.decode.cpSize = r.cpRank)).map
        fun place => (h.pending place, place) := rfl
    _ = _ := by rw [places_eq striped r.cpRank_lt, map_map]; rfl

theorem findIdx_stripe (f : Nat → α) {m size place last : Nat} (lt : place < size) (within : last < m * size) :
    ((range m).map fun s => (f s, s * size + place)).findIdx? (fun (_, r) => last = r) =
      if last % size = place then some (last / size) else none := by
  rw [findIdx?_map]
  split
  · rename_i here
    have whole : last / size * size + place = last := here ▸ div_add_mod' last size
    refine findIdx?_eq_some_iff_getElem.mpr ⟨?_, ?_, fun j before => ?_⟩
    · rw [length_range]
      exact Nat.div_lt_of_lt_mul (Nat.mul_comm m size ▸ within)
    · rw [getElem_range]
      exact decide_eq_true whole.symm
    · rw [getElem_range]
      intro same
      have same : last = j * size + place := of_decide_eq_true same
      have less := mul_lt_mul_of_pos_right before (zero_lt_of_lt lt)
      omega
  · rename_i elsewhere
    refine findIdx?_eq_none_iff.mpr fun s _ => decide_eq_false fun same => elsewhere ?_
    rw [same, mul_add_mod', mod_eq_of_lt lt]

theorem numStripes_pos (striped : dep.decode.cpSize ∣ dep.prefill.cpSize) : 0 < dep.numStripes :=
  div_pos (le_of_dvd dep.prefill.cpSize_pos striped) dep.decode.cpSize_pos

section
variable (rank r : dep.Rank)

theorem Rank.length_order (h : Handover dep) : (r.order h).length = dep.numStripes :=
  (moveFinal_perm _ _).length_eq.trans length_range

theorem Rank.ownBlockNums_eq (h : Handover dep) (striped : dep.decode.cpSize ∣ dep.prefill.cpSize) :
    ∃ idx, r.worker.ownBlockNums h.numPromptBlocks h.numCached dep.prefill.cpSize =
      ((range dep.numStripes).map fun s => h.pending (s * dep.decode.cpSize + r.cpRank), idx) ∧
        moveFinal idx (range dep.numStripes) = r.order h := by
  have size : r.worker.sizes.dcpSize * r.worker.sizes.pcpSize = dep.decode.cpSize := mul_comm _ _
  have place : r.worker.dcpRank + r.worker.pcpRank * r.worker.sizes.dcpSize = r.cpRank := add_comm _ _
  have last : (h.numPromptBlocks % dep.prefill.cpSize + dep.prefill.cpSize - 1) % dep.prefill.cpSize <
      dep.numStripes * dep.decode.cpSize := by
    rw [numStripes_mul striped]
    exact mod_lt _ dep.prefill.cpSize_pos
  refine ⟨_, ?_, rfl⟩
  unfold ownBlockNums
  dsimp only
  rw [size, place, r.own_eq h striped, findIdx_stripe _ r.cpRank_lt last, map_map]
  rfl

def Rank.stripePorts (copy : Nat → Nat) (stripe : Nat) : List Nat :=
  (range dep.numShares).map fun share =>
    dep.prefill.portOf (stripe * dep.decode.cpSize + rank.cpRank) (copy share)
      (rank.headGroup * dep.numShares + share)

theorem Rank.portsAndNums_eq (h : Handover dep) (c : Nat → Nat) {order : List Nat} (some : order ≠ [])
    (num : Nat → Nat) : r.worker.portsAndNums h.req (r.shareLists c order) (order.map num) =
      .ok (order.map fun s => (r.stripePorts c s, num s)) := by
  have head : (r.shareLists c order).head?.getD [] = order.map (r.sharePort c 0) := by
    obtain ⟨n, several⟩ := exists_eq_succ_of_ne_zero dep.numShares_pos.ne'
    rw [shareLists, several, range_succ_eq_map]
    rfl
  have columns : (range order.length).mapM (fun idx => (r.shareLists c order).mapM fun ports =>
      index ports idx) =
      .ok (order.map (r.stripePorts c)) := columns_ok (r.sharePort c) order dep.numShares
  obtain ⟨first, rest, rfl⟩ := exists_cons_of_ne_nil some
  unfold portsAndNums
  rw [head, length_map, columns, ok_bind, numbered_ok (r.stripePorts c) num (first :: rest), ok_bind, map_cons,
    index_ok (getElem?_cons_zero), ok_bind, if_neg]
  · rfl
  · rw [r.getTpNumNeedPulls_eq, stripePorts, length_map, length_range]
    exact fun differs => differs rfl

theorem Rank.plan_eq (h : Handover dep) (striped : dep.decode.cpSize ∣ dep.prefill.cpSize) :
    ∃ c : Nat → Nat, (∀ share < dep.numShares, c share < dep.prefill.numRepeats) ∧
      r.worker.getKvSplitMetadata h.req = .ok (splitBlocks h.req.localBlockIds h.req.remoteBlockIds 0
        ((r.order h).map fun s =>
          (r.stripePorts c s, h.pending (s * dep.decode.cpSize + r.cpRank)))) := by
  obtain ⟨c, isCopy, mapping⟩ := r.mapping_eq h striped
  obtain ⟨idx, own, order⟩ := r.ownBlockNums_eq h striped
  refine ⟨c, isCopy, ?_⟩
  have some : r.order h ≠ [] := ne_nil_of_length_pos (by rw [r.length_order]; exact numStripes_pos striped)
  have external : h.req.numExternalTokens ⌈/⌉ r.worker.blockSize =
    h.numPromptBlocks - h.numCached := h.numExternalBlocks_eq
  have accepted : ¬ ((h.numPromptBlocks - h.numCached) ⌈/⌉ r.worker.sizes.cpSize ≠ h.req.localBlockIds.length ∨
      h.req.numPromptBlocks < h.numPromptBlocks - h.numCached) := by
    rintro (differs | fewer)
    · exact differs h.length_localBlockIds.symm
    · exact absurd fewer (not_lt.mpr (sub_le _ _))
  have nums : r.worker.ownBlockNums h.req.numPromptBlocks
      (h.req.numPromptBlocks - (h.numPromptBlocks - h.numCached))
      (h.req.remotePcpSize * h.req.remoteDcpSize) =
      ((range dep.numStripes).map fun s => h.pending (s * dep.decode.cpSize + r.cpRank), idx) := by
    show r.worker.ownBlockNums h.numPromptBlocks (h.numPromptBlocks - _) dep.prefill.cpSize = _
    rw [Nat.sub_sub_self h.numCached_le, own]
  unfold getKvSplitMetadata
  rw [mapping]
  show (if _ then _ else _) = _
  rw [external, if_neg accepted]
  show (r.worker.portsAndNums h.req (map (moveFinal (r.worker.ownBlockNums _ _ _).2) _)
    (moveFinal (r.worker.ownBlockNums _ _ _).2 (r.worker.ownBlockNums _ _ _).1) >>= _) = _
  have lists : (r.shareLists c (range dep.numStripes)).map (moveFinal idx) = r.shareLists c (r.order h) := by
    rw [shareLists, map_map]
    refine map_congr_left fun share _ => ?_
    rw [Function.comp_apply, moveFinal_map, order]
  rw [nums, moveFinal_map, order, lists, r.portsAndNums_eq h c some, ok_bind]
  rfl

end

end Deployment

/-! ### The blocks that one share of the heads pulls -/

def pullsFrom (port : Nat → Nat) (remoteIds localIds : List Nat) : Nat → List (Nat × Nat) → List BlockPull
  | _, [] => []
  | offset, (stripe, num) :: rest =>
    zipWith (BlockPull.mk (port stripe)) (remoteIds.take num) ((localIds.drop offset).take num) ++
      pullsFrom port remoteIds localIds (offset + num) rest

variable {offset : Nat}

section
variable {port : Nat → Nat} {rids localIds : List Nat}

theorem pullsFrom_append (offset : Nat) (entries others : List (Nat × Nat)) :
    pullsFrom port rids localIds offset (entries ++ others) = pullsFrom port rids localIds offset entries ++
      pullsFrom port rids localIds (offset + (entries.map Prod.snd).sum) others := by
  induction entries generalizing offset with
  | nil => rfl
  | cons e rest ih =>
    rw [cons_append, pullsFrom, pullsFrom, ih, append_assoc, map_cons, sum_cons, add_assoc]

theorem pullsFrom_filter (offset : Nat) (entries : List (Nat × Nat)) :
    pullsFrom port rids localIds offset entries =
      pullsFrom port rids localIds offset (entries.filter (·.2 ≠ 0)) := by
  induction entries generalizing offset with
  | nil => rfl
  | cons e rest ih =>
    obtain ⟨s, num⟩ := e
    by_cases none : num = 0
    · subst none
      rw [filter_cons_of_neg (by simp), ← ih, pullsFrom, take_zero, zipWith_nil_left, nil_append, add_zero]
    · rw [filter_cons_of_pos (by simpa using none), pullsFrom, pullsFrom, ← ih]

theorem mem_pullsFrom {entries : List (Nat × Nat)} {pull : BlockPull}
    (mem : pull ∈ pullsFrom port rids localIds offset entries) :
    ∃ before s num after t, entries = before ++ (s, num) :: after ∧ t < num ∧ pull.port = port s ∧
      rids[t]? = some pull.remoteBlockId ∧
      localIds[offset + (before.map Prod.snd).sum + t]? = some pull.localBlockId := by
  induction entries generalizing offset with
  | nil => cases mem
  | cons e rest ih =>
    obtain ⟨s, num⟩ := e
    rcases mem_append.mp mem with here | later
    · obtain ⟨t, at_⟩ := mem_iff_getElem?.mp here
      rw [getElem?_zipWith_eq_some] at at_
      obtain ⟨remote, own, isRemote, isOwn, rfl⟩ := at_
      rw [getElem?_take] at isRemote isOwn
      split at isRemote
      · rename_i less
        rw [if_pos less, getElem?_drop] at isOwn
        exact ⟨[], s, num, rest, t, rfl, less, rfl, isRemote, isOwn⟩
      · cases isRemote
    · obtain ⟨before, stripe', num', after, t, rfl, less, isPort, isRemote, isOwn⟩ := ih later
      refine ⟨(s, num) :: before, stripe', num', after, t, rfl, less, isPort, isRemote, ?_⟩
      rwa [map_cons, sum_cons, ← add_assoc]

end

def sharePulls (tasks : List PullTask) (offset : Nat) : Except MooncakeError (List BlockPull) :=
  ((tasks.filter (·.offset = offset)).mapM PullTask.transfer).map flatten

theorem transfer_eq {t : PullTask} (full : t.localBlockIds.length = t.remoteBlockIds.length) :
    t.transfer = .ok (zipWith (BlockPull.mk t.remoteHandshakePort) t.remoteBlockIds t.localBlockIds) := by
  unfold PullTask.transfer
  dsimp only
  split
  · rename_i none
    rw [eq_nil_of_length_eq_zero none, zipWith_nil_right]
  · rw [if_pos full.le, full, Nat.sub_self, drop_zero]

def taskOf (tpNumNeedPulls numSplits : Nat) (entry : KvSplit × Nat) (i : Nat) : PullTask where
  localBlockIds := entry.1.localBlockIds
  remoteBlockIds := entry.1.remoteBlockIds
  remoteHandshakePort := entry.1.ports.getD i 0
  offset := i
  tpNumNeedPulls := tpNumNeedPulls
  allTaskDone := entry.2 = numSplits - 1 ∧ i = tpNumNeedPulls - 1

variable {n : List KvSplit}

theorem startLoadKv_of_plan {w : MooncakeConnectorWorker} {req : ReqMeta} {need : Nat}
    (chosen : List Nat) (parallel : req.remotePcpSize * req.remoteDcpSize > 1)
    (plan : w.getKvSplitMetadata req = .ok n)
    (isNeed : w.getTpNumNeedPulls (w.prefillTpSizeOf req) = need)
    (ports : ∀ split ∈ n, split.ports.length = need) :
    w.startLoadKv chosen req = .ok (n.zipIdx.map fun e =>
      (range need).map (taskOf need n.length e)).flatten := by
  unfold startLoadKv
  rw [isNeed]
  rw [if_pos parallel, plan, ok_bind, mapM_ok _ fun e isEntry => mapM_ok _ fun i isShare => ?_, ok_bind]
  · rfl
  · have here : i < e.1.ports.length := by
      rw [ports e.1 (fst_mem_of_mem_zipIdx isEntry)]
      exact mem_range.mp isShare
    rw [index_ok (getElem?_eq_getElem here)]
    rw [taskOf, getD_eq_getElem?_getD, getElem?_eq_getElem here]
    rfl

theorem sharePulls_eq {need share : Nat} (isShare : share < need)
    (full : ∀ split ∈ n, split.localBlockIds.length = split.remoteBlockIds.length) :
    sharePulls (n.zipIdx.map fun e => (range need).map (taskOf need n.length e)).flatten share =
      .ok (n.map fun split =>
        zipWith (BlockPull.mk (split.ports.getD share 0)) split.remoteBlockIds
          split.localBlockIds).flatten := by
  have own : ((n.zipIdx.map fun e => (range need).map (taskOf need n.length e)).flatten.filter
      (·.offset = share)) = n.zipIdx.map fun e => taskOf need n.length e share := by
    rw [← flatMap_def, filter_flatMap, ← flatMap_singleton' (n.zipIdx.map _), flatMap_map]
    refine flatMap_congr fun e _ => ?_
    exact filter_map_range_single isShare (decide_eq_true rfl) fun i _ ne => decide_eq_false ne
  unfold sharePulls
  rw [own, mapM_map, mapM_ok (g := fun e : KvSplit × Nat =>
    zipWith (BlockPull.mk (e.1.ports.getD share 0)) e.1.remoteBlockIds e.1.localBlockIds) _ fun e isEntry =>
      transfer_eq (full e.1 (fst_mem_of_mem_zipIdx isEntry))]
  show Except.ok _ = Except.ok _
  congr 2
  conv_rhs => rw [← zipIdx_map_fst 0 n, map_map]
  rfl

theorem splitBlocks_pulls (rids localIds : List Nat) (ports : Nat → List Nat) {entries : List (Nat × Nat)}
    (enough : offset + (entries.map Prod.snd).sum ≤ localIds.length)
    (remote : ∀ e ∈ entries, e.2 ≤ rids.length) :
    (∀ split ∈ splitBlocks localIds rids offset (entries.map fun e => (ports e.1, e.2)),
      split.localBlockIds.length = split.remoteBlockIds.length ∧ ∃ e ∈ entries, split.ports = ports e.1) ∧
    ∀ share, ((splitBlocks localIds rids offset (entries.map fun e => (ports e.1, e.2))).map fun split =>
      zipWith (BlockPull.mk (split.ports.getD share 0)) split.remoteBlockIds split.localBlockIds).flatten =
      pullsFrom (fun s => (ports s).getD share 0) rids localIds offset entries := by
  induction entries generalizing offset with
  | nil => exact ⟨fun split mem => (by cases mem), fun _ => rfl⟩
  | cons e rest ih =>
    obtain ⟨s, num⟩ := e
    rw [map_cons, sum_cons] at enough
    obtain ⟨full, pulls⟩ := @ih (offset + num) (by omega) fun e mem => remote e (mem_cons_of_mem _ mem)
    rw [map_cons, splitBlocks]
    refine ⟨fun split mem => ?_, fun share => ?_⟩
    · rcases mem_cons.mp mem with rfl | later
      · refine ⟨?_, (s, num), mem_cons_self, rfl⟩
        have inside := remote (s, num) mem_cons_self
        rw [length_take, length_take, length_drop]
        omega
      · obtain ⟨equal, other, isOther, same⟩ := full split later
        exact ⟨equal, other, mem_cons_of_mem _ isOther, same⟩
    · rw [map_cons, flatten_cons, pulls, pullsFrom]

/-! ### What a decode rank pulls -/

def BlockPull.view (pull : BlockPull) : Nat × Option Nat × Option Nat :=
  (pull.port, some pull.remoteBlockId, some pull.localBlockId)

variable {rids localIds : List Nat}

theorem view_zipWith {port num : Nat} (remote : num ≤ rids.length)
    (own : num ≤ localIds.length) : (zipWith (BlockPull.mk port) (rids.take num) (localIds.take num)).map
      BlockPull.view = (range num).map fun k => (port, rids[k]?, localIds[k]?) := by
  refine ext_getElem (by simp; omega) fun k lt inside' => ?_
  have less : k < num := by simpa using inside'
  rw [getElem_map, getElem_map, getElem_range, getElem_zipWith, getElem_take, getElem_take,
    getElem?_eq_getElem (less.trans_le remote), getElem?_eq_getElem (less.trans_le own)]
  rfl

theorem view_pullsFrom_ones {port s : Nat → Nat} {num : Nat} (remote : 0 < rids.length)
    (own : num ≤ localIds.length) :
    (pullsFrom port rids localIds 0 ((range num).map fun k => (s k, 1))).map BlockPull.view =
      (range num).map fun k => (port (s k), rids[0]?, localIds[k]?) := by
  induction num with
  | zero => rfl
  | succ num ih =>
    have count : (((range num).map fun k => (s k, 1)).map Prod.snd).sum = num := by
      rw [map_map]
      show ((range num).map fun _ => 1).sum = num
      rw [map_const', sum_replicate, length_range, smul_eq_mul, mul_one]
    rw [range_succ, map_append, pullsFrom_append, map_append, ih (by omega), count, map_append]
    congr 1
    show (zipWith _ (rids.take 1) ((localIds.drop (0 + num)).take 1) ++ []).map BlockPull.view = _
    rw [append_nil, view_zipWith remote (by rw [length_drop]; omega)]
    show [(port (s num), rids[0]?, (localIds.drop (0 + num))[0]?)] = [_]
    rw [getElem?_drop, zero_add, add_zero]

namespace Handover

variable {dep : Deployment}

theorem lt_ceilDiv {n d k : Nat} (pos : 0 < d) : k < n ⌈/⌉ d ↔ k * d < n := by
  rw [← not_le, ceilDiv_le_iff_le_mul pos, not_le, mul_comm]

theorem numPromptBlocks_pos (h : Handover dep) : 0 < h.numPromptBlocks := by
  refine (lt_ceilDiv dep.blockPositive).mpr ?_
  rw [zero_mul]
  exact h.promptPositive

theorem held_le_ceilDiv {n size r : Nat} (lt : r < size) : held n size r ≤ n ⌈/⌉ size := by
  by_contra more
  have item := (lt_held lt).mp (not_le.mp more)
  have less : n ⌈/⌉ size < n ⌈/⌉ size :=
    (lt_ceilDiv (zero_lt_of_lt lt)).mpr (lt_of_le_of_lt (le_add_right _ _) item)
  exact lt_irrefl _ less

theorem remoteBlockIds_eq (h : Handover dep) :
    h.req.remoteBlockIds = h.remoteBlocks.take h.numPromptBlocks := rfl

theorem ceilDiv_le_self (n : Nat) {d : Nat} (pos : 0 < d) : n ⌈/⌉ d ≤ n :=
  (ceilDiv_le_iff_le_mul pos).mpr (Nat.le_mul_of_pos_left _ pos)

theorem pending_le (h : Handover dep) {place : Nat} (lt : place < dep.prefill.cpSize) :
    h.pending place ≤ h.req.remoteBlockIds.length := by
  have few := held_le_ceilDiv (n := h.numPromptBlocks) lt
  have listed : h.numPromptBlocks ⌈/⌉ dep.prefill.cpSize ≤ h.remoteBlocks.length := h.remoteLength
  have small := ceilDiv_le_self h.numPromptBlocks dep.prefill.cpSize_pos
  rw [h.remoteBlockIds_eq, length_take, pending]
  omega

end Handover

namespace Deployment

variable {dep : Deployment}

theorem stripe_lt (striped : dep.decode.cpSize ∣ dep.prefill.cpSize) {s r : Nat}
    (isStripe : s < dep.numStripes)
    (lt : r < dep.decode.cpSize) : s * dep.decode.cpSize + r < dep.prefill.cpSize := by
  have next : (s + 1) * dep.decode.cpSize ≤ dep.numStripes * dep.decode.cpSize := mul_le_mul_right _ isStripe
  rw [numStripes_mul striped, add_mul] at next
  omega

theorem Rank.mem_order {r : dep.Rank} {h : Handover dep} {s : Nat} : s ∈ r.order h ↔ s < dep.numStripes :=
  (moveFinal_perm _ _).mem_iff.trans mem_range

def Rank.entries (rank : dep.Rank) (h : Handover dep) : List (Nat × Nat) :=
  (rank.order h).map fun stripe => (stripe, h.pending (stripe * dep.decode.cpSize + rank.cpRank))

section
variable (r : dep.Rank) (h : Handover dep) (striped : dep.decode.cpSize ∣ dep.prefill.cpSize)
include striped

theorem Rank.sum_entries :
    ((r.entries h).map Prod.snd).sum = held h.numPromptBlocks dep.decode.cpSize r.cpRank - h.cached := by
  have sums := sum_held (numStripes_pos striped) r.cpRank_lt
  rw [numStripes_mul striped] at sums
  have both : ((range dep.numStripes).map fun s => h.pending (s * dep.decode.cpSize + r.cpRank)).sum +
      held h.numCached dep.decode.cpSize r.cpRank = held h.numPromptBlocks dep.decode.cpSize r.cpRank := by
    rw [← sums, ← sums, ← sum_map_add]
    congr 1
    refine map_congr_left fun s mem => ?_
    exact Nat.sub_add_cancel (held_mono (stripe_lt striped (mem_range.mp mem) r.cpRank_lt) h.numCached_le)
  have cached : held h.numCached dep.decode.cpSize r.cpRank = h.cached := held_mul dep.decode.cpSize_pos _ _
  have moved : ((r.entries h).map Prod.snd).sum =
      ((range dep.numStripes).map fun s => h.pending (s * dep.decode.cpSize + r.cpRank)).sum := by
    rw [entries, map_map]
    exact ((moveFinal_perm _ _).map _).sum_eq
  omega

theorem Rank.sum_entries_le : ((r.entries h).map Prod.snd).sum ≤ h.req.localBlockIds.length := by
  have few := Handover.held_le_ceilDiv (n := h.numPromptBlocks) r.cpRank_lt
  rw [r.sum_entries h striped, h.length_localBlockIds, Handover.numCached,
    Handover.ceilDiv_sub_mul dep.decode.cpSize_pos]
  omega

end

section
variable (rank r : dep.Rank)

theorem Rank.stripePorts_getD (c : Nat → Nat) {share : Nat} (isShare : share < dep.numShares) (stripe : Nat) :
    (r.stripePorts c stripe).getD share 0 = r.sharePort c share stripe := by
  rw [stripePorts, getD_eq_getElem?_getD, getElem?_map, getElem?_range isShare]
  rfl

theorem Rank.pulls_eq (h : Handover dep) (chosen : List Nat) (parallel : 1 < dep.prefill.cpSize) :
    ∃ (c : Nat → Nat) (n : List KvSplit), (∀ share < dep.numShares, c share < dep.prefill.numRepeats) ∧
      n = splitBlocks h.req.localBlockIds h.req.remoteBlockIds 0
        ((r.entries h).map fun e => (r.stripePorts c e.1, e.2)) ∧ r.worker.startLoadKv chosen h.req =
        .ok (n.zipIdx.map fun e => (range dep.numShares).map (taskOf dep.numShares n.length e)).flatten ∧
      ∀ share < dep.numShares, sharePulls
        (n.zipIdx.map fun e => (range dep.numShares).map (taskOf dep.numShares n.length e)).flatten share =
          .ok (pullsFrom (r.sharePort c share) h.req.remoteBlockIds h.req.localBlockIds 0 (r.entries h)) := by
  have striped := dep.striped parallel
  obtain ⟨c, isCopy, plan⟩ := r.plan_eq h striped
  have same : (r.order h).map (fun s =>
      (r.stripePorts c s, h.pending (s * dep.decode.cpSize + r.cpRank))) =
      (r.entries h).map fun e => (r.stripePorts c e.1, e.2) := by
    rw [entries, map_map]
    rfl
  rw [same] at plan
  have enough : 0 + ((r.entries h).map Prod.snd).sum ≤ h.req.localBlockIds.length := by
    rw [zero_add]
    exact r.sum_entries_le h striped
  have remote : ∀ e ∈ r.entries h, e.2 ≤ h.req.remoteBlockIds.length := by
    intro e mem
    obtain ⟨s, isStripe, rfl⟩ := mem_map.mp mem
    exact h.pending_le (stripe_lt striped (mem_order.mp isStripe) r.cpRank_lt)
  obtain ⟨full, pulls⟩ := splitBlocks_pulls h.req.remoteBlockIds h.req.localBlockIds
    (r.stripePorts c) enough remote
  refine ⟨c, _, isCopy, rfl, startLoadKv_of_plan chosen parallel plan (r.getTpNumNeedPulls_eq h)
    fun split mem => ?_, fun share isShare => ?_⟩
  · obtain ⟨-, e, -, isPorts⟩ := full split mem
    rw [isPorts, stripePorts, length_map, length_range]
  · rw [sharePulls_eq isShare fun split mem => (full split mem).1, pulls]
    congr 2
    funext s
    exact r.stripePorts_getD c isShare s

def Rank.missing (h : Handover dep) : List Nat :=
  (range h.numPromptBlocks).filter fun j => h.numCached ≤ j ∧ j % dep.decode.cpSize = rank.cpRank

end

def numParts (dep : Deployment) : Nat :=
  if 1 < dep.prefill.cpSize then dep.numShares else dep.numShares * dep.prefillPpSize

/-- Every missing block is pulled once for each part, from a rank that holds it and into its own
place. -/
def Rank.PulledOnce (rank : dep.Rank) (chosen : List Nat) (h : Handover dep) : Prop :=
  ∃ tasks, rank.worker.startLoadKv chosen h.req = .ok tasks ∧ ∀ part < dep.numParts,
    ∃ (holder : Nat → Nat) (pulls : List BlockPull),
    (∀ place < dep.prefill.cpSize, dep.prefill.cpRankAt (holder place) = place) ∧
      sharePulls tasks part = .ok pulls ∧
    (pulls.map BlockPull.view).Perm ((rank.missing h).map fun j =>
      (holder (j % dep.prefill.cpSize), h.remoteBlocks[j / dep.prefill.cpSize]?,
        h.blocks[j / dep.decode.cpSize]?))

theorem Rank.missing_eq (r : dep.Rank) (h : Handover dep) : r.missing h =
    (range (held h.numPromptBlocks dep.decode.cpSize r.cpRank - h.cached)).map fun k =>
      (h.cached + k) * dep.decode.cpSize + r.cpRank := filter_range_from r.cpRank_lt _ _

end Deployment

end TurboQuant.Ascend.Mooncake
