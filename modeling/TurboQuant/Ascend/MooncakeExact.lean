import TurboQuant.Ascend.MooncakePull
import Mathlib.Algebra.Order.BigOperators.Group.List

/-!
For which prompts every block is pulled into its own place.
-/

namespace TurboQuant.Ascend.Mooncake
open Outcome Striping List Nat Handover

namespace Deployment

variable {dep : Deployment} {rank r : dep.Rank} {h : Handover dep}

/-! ### Prompts that are pulled in order -/

theorem mul_add_div_of_lt {k size place : Nat} (lt : place < size) : (k * size + place) / size = k := by
  rw [mul_comm, mul_add_div (zero_lt_of_lt lt), div_eq_of_lt lt, add_zero]

theorem mul_add_mod_of_lt {k size place : Nat} (lt : place < size) : (k * size + place) % size = place := by
  rw [mul_add_mod', mod_eq_of_lt lt]

theorem Rank.local_getElem (r : dep.Rank) (striped : dep.decode.cpSize ∣ dep.prefill.cpSize) {k : Nat}
    (lt : k < held h.numPromptBlocks dep.decode.cpSize r.cpRank - h.cached) :
    h.req.localBlockIds[k]? = h.blocks[h.cached + k]? := by
  have enough := r.sum_entries_le h striped
  rw [r.sum_entries h striped] at enough
  rw [h.localBlockIds_eq] at enough ⊢
  split at enough
  · rename_i external
    rw [if_pos external, getElem?_drop]
  · rw [length_nil] at enough
    omega

theorem remote_getElem {place k : Nat} (lt : place < dep.prefill.cpSize)
    (less : k < h.pending place) : h.req.remoteBlockIds[k]? = h.remoteBlocks[k]? := by
  have few := h.pending_le lt
  rw [h.remoteBlockIds_eq] at few ⊢
  rw [length_take] at few
  rw [getElem?_take, if_pos (by omega)]

theorem pending_pos {place : Nat} (lt : place < dep.prefill.cpSize)
    (short : h.numPromptBlocks ≤ dep.prefill.cpSize) :
    h.pending place = if h.numCached ≤ place ∧ place < h.numPromptBlocks then 1 else 0 := by
  have whole := h.numCached_le
  have few : ∀ n ≤ dep.prefill.cpSize, held n dep.prefill.cpSize place = if place < n then 1 else 0 := by
    intro n small
    have first := lt_held (n := n) (k := 0) lt
    have second := lt_held (n := n) (k := 1) lt
    split <;> omega
  rw [pending, few _ short, few _ (whole.trans short)]
  split <;> split <;> split <;> omega

theorem last_eq (short : h.numPromptBlocks ≤ dep.prefill.cpSize) :
    (h.numPromptBlocks % dep.prefill.cpSize + dep.prefill.cpSize - 1) % dep.prefill.cpSize =
      h.numPromptBlocks - 1 := by
  have some := h.numPromptBlocks_pos
  rcases lt_or_ge h.numPromptBlocks dep.prefill.cpSize with less | all
  · rw [mod_eq_of_lt less, show h.numPromptBlocks + dep.prefill.cpSize - 1 =
      h.numPromptBlocks - 1 + dep.prefill.cpSize by omega, add_mod_right, mod_eq_of_lt (by omega)]
  · rw [le_antisymm short all, mod_self, zero_add, mod_eq_of_lt (by omega)]

section
variable (r : dep.Rank)

theorem Rank.entries_short (striped : dep.decode.cpSize ∣ dep.prefill.cpSize)
    (short : h.numPromptBlocks ≤ dep.prefill.cpSize) : (r.entries h).filter (·.2 ≠ 0) =
      (range (held h.numPromptBlocks dep.decode.cpSize r.cpRank - h.cached)).map fun k =>
        (h.cached + k, 1) := by
  have positive := dep.decode.cpSize_pos
  have isPending : ∀ s < dep.numStripes, h.pending (s * dep.decode.cpSize + r.cpRank) =
      if h.cached ≤ s ∧ s < held h.numPromptBlocks dep.decode.cpSize r.cpRank then 1 else 0 := by
    intro s isStripe
    rw [pending_pos (stripe_lt striped isStripe r.cpRank_lt) short]
    refine if_congr (and_congr ?_ (lt_held r.cpRank_lt).symm) rfl rfl
    refine ⟨fun more => ?_, fun more => (mul_le_mul_right _ more).trans (le_add_right _ _)⟩
    by_contra fewer
    have next : (s + 1) * dep.decode.cpSize ≤ h.cached * dep.decode.cpSize :=
      mul_le_mul_right _ (not_le.mp fewer)
    have inside := r.cpRank_lt
    rw [add_mul] at next
    rw [numCached] at more
    omega
  have fits : held h.numPromptBlocks dep.decode.cpSize r.cpRank ≤ dep.numStripes := by
    by_contra more
    have item := (lt_held r.cpRank_lt).mp (not_le.mp more)
    rw [numStripes_mul striped] at item
    omega
  -- the rank with the last block has no other rank with blocks after it
  have ordered : (r.order h).filter (fun s => h.pending (s * dep.decode.cpSize + r.cpRank) ≠ 0) =
      (range dep.numStripes).filter fun s => h.pending (s * dep.decode.cpSize + r.cpRank) ≠ 0 := by
    unfold Rank.order
    dsimp only
    rw [last_eq short]
    split
    · rename_i here
      refine filter_moveToEnd fun s mem => ?_
      obtain ⟨i, at_⟩ := mem_iff_getElem?.mp mem
      rw [getElem?_drop] at at_
      obtain ⟨inside, rfl⟩ := List.getElem_of_getElem? at_
      rw [length_range] at inside
      rw [getElem_range, isPending _ inside, if_neg]
      · rfl
      rintro ⟨-, less⟩
      rw [lt_held r.cpRank_lt] at less
      have whole := div_add_mod' (h.numPromptBlocks - 1) dep.decode.cpSize
      have next : ((h.numPromptBlocks - 1) / dep.decode.cpSize + 1) * dep.decode.cpSize ≤
          ((h.numPromptBlocks - 1) / dep.decode.cpSize + 1 + i) * dep.decode.cpSize :=
        mul_le_mul_right _ (le_add_right _ _)
      rw [add_mul _ 1] at next
      omega
    · rfl
  have selected : (range dep.numStripes).filter (fun s =>
      decide (h.pending (s * dep.decode.cpSize + r.cpRank) ≠ 0)) =
      (range dep.numStripes).filter fun s =>
        decide (h.cached ≤ s ∧ s < held h.numPromptBlocks dep.decode.cpSize r.cpRank) := by
    refine filter_congr fun s mem => decide_eq_decide.mpr ?_
    rw [isPending s (mem_range.mp mem)]
    split <;> simp_all
  rw [Rank.entries, filter_map]
  show ((r.order h).filter fun s => decide (h.pending (s * dep.decode.cpSize + r.cpRank) ≠ 0)).map _ = _
  rw [ordered, selected, filter_between fits, map_map]
  refine map_congr_left fun k mem => ?_
  have less := mem_range.mp mem
  show (h.cached + k, h.pending ((h.cached + k) * dep.decode.cpSize + r.cpRank)) = (h.cached + k, 1)
  rw [isPending _ (by omega), if_pos ⟨le_add_right _ _, by omega⟩]

theorem Rank.holder_place {c : Nat → Nat} {share : Nat} (isCopy : c share < dep.prefill.numRepeats)
    (isShare : share < dep.numShares) : ∀ place < dep.prefill.cpSize,
      dep.prefill.cpRankAt (dep.prefill.portOf place (c share)
        (r.headGroup * dep.numShares + share)) = place := by
  intro place isPlace
  refine Node.cpRankAt_portOf dep.headsPositive isPlace isCopy ?_
  have fits := dep.shares_fit r.headGroup_lt
  rw [add_mul] at fits
  omega

theorem Rank.pulledOnce_of_view (parallel : 1 < dep.prefill.cpSize) (chosen : List Nat)
    (same : ∀ port : Nat → Nat, (pullsFrom (fun s => port (s * dep.decode.cpSize + r.cpRank))
      h.req.remoteBlockIds h.req.localBlockIds 0 (r.entries h)).map BlockPull.view =
        (r.missing h).map fun j => (port (j % dep.prefill.cpSize),
          h.remoteBlocks[j / dep.prefill.cpSize]?, h.blocks[j / dep.decode.cpSize]?)) :
    r.PulledOnce chosen h := by
  obtain ⟨c, splits, isCopy, -, ran, pulls⟩ := r.pulls_eq h chosen parallel
  refine ⟨_, ran, fun part isPart => ?_⟩
  rw [numParts, if_pos parallel] at isPart
  refine ⟨fun place => dep.prefill.portOf place (c part) (r.headGroup * dep.numShares + part), _,
    r.holder_place (isCopy part isPart) isPart, pulls part isPart, ?_⟩
  exact .of_eq (same fun place => dep.prefill.portOf place (c part) (r.headGroup * dep.numShares + part))

end

theorem held_le_cached (all : h.numPromptBlocks ≤ h.numCached) {r : Nat} (lt : r < dep.decode.cpSize) :
    held h.numPromptBlocks dep.decode.cpSize r ≤ h.cached := by
  have fewer := held_mono lt all
  rwa [numCached, held_mul dep.decode.cpSize_pos] at fewer

section
variable (r : dep.Rank) (parallel : 1 < dep.prefill.cpSize) (chosen : List Nat)
include parallel

theorem Rank.pulledOnce_cached (all : h.numPromptBlocks ≤ h.numCached) : r.PulledOnce chosen h := by
  have sum := r.sum_entries h (dep.striped parallel)
  have fewer := held_le_cached all r.cpRank_lt
  rw [Nat.sub_eq_zero_of_le fewer] at sum
  have none : (r.entries h).filter (·.2 ≠ 0) = [] := by
    refine filter_eq_nil_iff.mpr fun entry mem => ?_
    have zero := sum_eq_zero_iff.mp sum entry.2 (mem_map_of_mem mem)
    simp [zero]
  refine r.pulledOnce_of_view parallel chosen fun port => ?_
  rw [pullsFrom_filter, none, r.missing_eq, Nat.sub_eq_zero_of_le fewer]
  rfl

theorem Rank.pulledOnce_short (short : h.numPromptBlocks ≤ dep.prefill.cpSize) : r.PulledOnce chosen h := by
  have striped := dep.striped parallel
  have enough := r.sum_entries_le h striped
  rw [r.sum_entries h striped] at enough
  have first : 0 < h.req.remoteBlockIds.length := by
    have listed : h.numPromptBlocks ⌈/⌉ dep.prefill.cpSize ≤ h.remoteBlocks.length := h.remoteLength
    have some := h.numPromptBlocks_pos
    have one : 0 < h.numPromptBlocks ⌈/⌉ dep.prefill.cpSize :=
      (lt_ceilDiv dep.prefill.cpSize_pos).mpr (by rwa [zero_mul])
    rw [h.remoteBlockIds_eq, length_take]
    omega
  refine r.pulledOnce_of_view parallel chosen fun port => ?_
  rw [pullsFrom_filter, r.entries_short striped short, view_pullsFrom_ones first enough, r.missing_eq, map_map]
  refine map_congr_left fun k mem => ?_
  have less := mem_range.mp mem
  have lt : (h.cached + k) * dep.decode.cpSize + r.cpRank < h.numPromptBlocks :=
    (lt_held r.cpRank_lt).mp (by omega)
  have own : ((h.cached + k) * dep.decode.cpSize + r.cpRank) / dep.decode.cpSize = h.cached + k :=
    mul_add_div_of_lt r.cpRank_lt
  rw [r.local_getElem striped less, h.remoteBlockIds_eq, getElem?_take,
    if_pos h.numPromptBlocks_pos, Function.comp_apply,
    mod_eq_of_lt (lt.trans_le short), div_eq_of_lt (lt.trans_le short), own]

theorem Rank.pulledOnce_equal
    (equal : dep.prefill.cpSize = dep.decode.cpSize) (none : h.numCached = 0) : r.PulledOnce chosen h := by
  have striped := dep.striped parallel
  have single : dep.numStripes = 1 := by
    rw [numStripes, equal, Nat.div_self dep.decode.cpSize_pos]
  have uncached : h.cached = 0 := (Nat.mul_eq_zero.mp none).resolve_right dep.decode.cpSize_pos.ne'
  have order : r.order h = [0] := by
    refine perm_singleton.mp ((moveFinal_perm _ _).trans ?_)
    rw [single]
    exact .refl _
  have es : r.entries h = [(0, held h.numPromptBlocks dep.decode.cpSize r.cpRank)] := by
    rw [Rank.entries, order]
    show [(0, held _ _ _ - held _ _ _)] = _
    rw [none, zero_mul, zero_add, equal, ← zero_mul dep.decode.cpSize, held_mul dep.decode.cpSize_pos]
    rfl
  have enough := r.sum_entries_le h striped
  have remote : held h.numPromptBlocks dep.decode.cpSize r.cpRank ≤ h.req.remoteBlockIds.length := by
    have few := h.pending_le (equal ▸ r.cpRank_lt)
    rwa [pending, none, equal, ← zero_mul dep.decode.cpSize, held_mul dep.decode.cpSize_pos] at few
  refine r.pulledOnce_of_view parallel chosen fun port => ?_
  rw [es, map_singleton, sum_singleton] at enough
  rw [es, pullsFrom, pullsFrom, append_nil, drop_zero, view_zipWith remote enough, r.missing_eq, uncached,
    Nat.sub_zero, map_map]
  refine map_congr_left fun k mem => ?_
  have less := mem_range.mp mem
  have own : (k * dep.decode.cpSize + r.cpRank) / dep.decode.cpSize = k := mul_add_div_of_lt r.cpRank_lt
  have place : (k * dep.decode.cpSize + r.cpRank) % dep.decode.cpSize = r.cpRank :=
    mul_add_mod_of_lt r.cpRank_lt
  rw [r.local_getElem striped (by omega), uncached, h.remoteBlockIds_eq, getElem?_take, if_pos, Function.comp_apply,
    zero_add, equal, own, place, zero_mul, zero_add]
  rw [h.remoteBlockIds_eq, length_take] at remote
  omega

end

/-! ### Without context parallelism on the prefill side -/

def plainTask (dep : Deployment) (chosen : List Nat) (h : Handover dep) (part : Nat) : PullTask where
  localBlockIds := h.req.localBlockIds
  remoteBlockIds := h.req.remoteBlockIds
  remoteHandshakePort := chosen.getD part 0 + dep.prefill.port
  offset := part
  tpNumNeedPulls := dep.numShares
  allTaskDone := part = dep.numShares * dep.prefillPpSize - 1

theorem sharePulls_single {tasks : List PullTask} {task : PullTask} {part : Nat} {pulls : List BlockPull}
    (own : tasks.filter (·.offset = part) = [task]) (transfer : task.transfer = .ok pulls) :
    sharePulls tasks part = .ok pulls := by
  rw [sharePulls, own, mapM_cons, transfer, mapM_nil]
  show Except.ok [pulls].flatten = _
  rw [flatten_singleton]

section
variable (single : dep.prefill.cpSize = 1) (chosen : List Nat)
include single

theorem Rank.startLoadKv_plain (r : dep.Rank) (h : Handover dep)
    (enough : dep.numShares * dep.prefillPpSize ≤ chosen.length) :
    r.worker.startLoadKv chosen h.req =
      .ok ((range (dep.numShares * dep.prefillPpSize)).map (plainTask dep chosen h)) := by
  unfold MooncakeConnectorWorker.startLoadKv
  rw [r.getTpNumNeedPulls_eq]
  have plain : ¬ (h.req.remotePcpSize * h.req.remoteDcpSize > 1) := by
    show ¬ (1 < dep.prefill.cpSize)
    omega
  rw [if_neg plain]
  refine mapM_ok _ fun part isPart => ?_
  have lt : part < chosen.length := (mem_range.mp isPart).trans_le enough
  rw [index_ok (getElem?_eq_getElem lt)]
  rw [plainTask, getD_eq_getElem?_getD, getElem?_eq_getElem lt]
  rfl

theorem length_remoteBlockIds (h : Handover dep) : h.req.remoteBlockIds.length = h.numPromptBlocks := by
  have listed := h.remoteLength
  rw [single] at listed
  have same : h.promptLen ⌈/⌉ dep.blockSize ⌈/⌉ 1 = h.numPromptBlocks := ceilDiv_one _
  rw [h.remoteBlockIds_eq, length_take]
  omega

theorem length_localBlockIds_le (h : Handover dep) :
    h.req.localBlockIds.length ≤ h.req.remoteBlockIds.length := by
  have few := ceilDiv_le_self (h.numPromptBlocks - h.numCached) dep.decode.cpSize_pos
  rw [← h.length_localBlockIds] at few
  rw [length_remoteBlockIds single h]
  omega

theorem sharePulls_plain (h : Handover dep) {part : Nat} (isPart : part < dep.numShares * dep.prefillPpSize) :
    ∃ pulls, sharePulls ((range (dep.numShares * dep.prefillPpSize)).map (plainTask dep chosen h))
      part = .ok pulls ∧ pulls.map BlockPull.view = (range h.req.localBlockIds.length).map fun k =>
        (chosen.getD part 0 + dep.prefill.port,
          h.remoteBlocks[h.numPromptBlocks - h.req.localBlockIds.length + k]?,
          h.req.localBlockIds[k]?) := by
  have few := length_localBlockIds_le single h
  have listed := length_remoteBlockIds single h
  have transfer : (plainTask dep chosen h part).transfer = .ok (zipWith
      (BlockPull.mk (chosen.getD part 0 + dep.prefill.port))
      ((h.req.remoteBlockIds.drop (h.numPromptBlocks - h.req.localBlockIds.length)).take
        h.req.localBlockIds.length)
      (h.req.localBlockIds.take h.req.localBlockIds.length)) := by
    rw [take_of_length_le (le_of_eq (by rw [length_drop]; omega)), take_length, ← listed]
    unfold PullTask.transfer
    dsimp only
    split
    · rename_i none
      have none : h.req.localBlockIds.length = 0 := none
      rw [eq_nil_of_length_eq_zero none, zipWith_nil_right]
    · exact if_pos few
  have own : ((range (dep.numShares * dep.prefillPpSize)).map
      (plainTask dep chosen h)).filter (·.offset = part) = [plainTask dep chosen h part] :=
    filter_map_range_single isPart (decide_eq_true rfl) fun other _ ne => decide_eq_false ne
  refine ⟨_, sharePulls_single own transfer, ?_⟩
  rw [view_zipWith (by rw [length_drop]; omega) (le_refl _)]
  refine map_congr_left fun k mem => ?_
  have less := mem_range.mp mem
  rw [getElem?_drop, h.remoteBlockIds_eq, getElem?_take, if_pos (by omega)]

theorem cpRankAt_plain (port : Nat) : ∀ place < dep.prefill.cpSize, dep.prefill.cpRankAt port = place := by
  have pcp : dep.prefill.pcpSize = 1 := dvd_one.mp (Dvd.intro _ single)
  have dcp : dep.prefill.dcpSize = 1 := dvd_one.mp (Dvd.intro_left _ single)
  rw [Node.cpRankAt, if_neg (by omega), dcp, mod_one]
  omega

section
variable (r : dep.Rank) (enough : dep.numShares * dep.prefillPpSize ≤ chosen.length)
include enough

theorem Rank.pulledOnce_of_views (views : ∀ port : Nat, ((range h.req.localBlockIds.length).map fun k =>
        (port, h.remoteBlocks[h.numPromptBlocks - h.req.localBlockIds.length + k]?, h.req.localBlockIds[k]?)) =
      (r.missing h).map fun j => (port, h.remoteBlocks[j / dep.prefill.cpSize]?,
        h.blocks[j / dep.decode.cpSize]?)) :
    r.PulledOnce chosen h := by
  refine ⟨_, r.startLoadKv_plain single chosen h enough, fun part isPart => ?_⟩
  rw [numParts, if_neg (by omega)] at isPart
  obtain ⟨pulls, ran, same⟩ := sharePulls_plain single chosen h isPart
  exact ⟨fun _ => chosen.getD part 0 + dep.prefill.port, pulls, cpRankAt_plain single _, ran,
    .of_eq (same.trans (views _))⟩

theorem Rank.pulledOnce_plain (same : dep.decode.cpSize = 1) : r.PulledOnce chosen h := by
  have zero : r.cpRank = 0 := by
    have inside := r.cpRank_lt
    omega
  have all : held h.numPromptBlocks 1 0 = h.numPromptBlocks := by
    have whole := held_mul one_pos h.numPromptBlocks 0
    rwa [mul_one] at whole
  have cached : h.numCached = h.cached := by
    rw [numCached, same, mul_one]
  have count : h.req.localBlockIds.length = h.numPromptBlocks - h.cached := by
    rw [h.length_localBlockIds, same, cached]
    exact ceilDiv_one _
  have few := h.numCached_le
  refine r.pulledOnce_of_views single chosen enough fun port => ?_
  have same' : dep.decode.cpSize ∣ dep.prefill.cpSize := by rw [same, single]
  have own : ∀ k < h.numPromptBlocks - h.cached, h.req.localBlockIds[k]? = h.blocks[h.cached + k]? := by
    intro k less
    refine r.local_getElem same' ?_
    rwa [zero, same, all]
  rw [count, r.missing_eq, zero, same, single, all, map_map]
  refine map_congr_left fun k mem => ?_
  rw [own k (mem_range.mp mem), Function.comp_apply, Nat.div_one, Nat.mul_one, Nat.add_zero,
    show h.numPromptBlocks - (h.numPromptBlocks - h.cached) + k = h.cached + k by omega]

theorem Rank.pulledOnce_plain_cached (all : h.numPromptBlocks ≤ h.numCached) : r.PulledOnce chosen h := by
  have none : h.req.localBlockIds.length = 0 := by
    rw [h.length_localBlockIds, Nat.sub_eq_zero_of_le all]
    exact zero_ceilDiv _
  refine r.pulledOnce_of_views single chosen enough fun port => ?_
  rw [none, r.missing_eq, Nat.sub_eq_zero_of_le (held_le_cached all r.cpRank_lt)]
  rfl

theorem Rank.last_pulled (external : h.numCached < h.numPromptBlocks) (once : r.PulledOnce chosen h) :
    (h.numPromptBlocks - 1) % dep.decode.cpSize = r.cpRank := by
  obtain ⟨tasks, ran, parts⟩ := once
  rw [r.startLoadKv_plain single chosen h enough, Except.ok.injEq] at ran
  subst ran
  have first : 0 < dep.numShares * dep.prefillPpSize := mul_pos dep.numShares_pos dep.ppPositive
  obtain ⟨holder, pulls, -, isPulls, perm⟩ := parts 0 (by rwa [numParts, if_neg (by omega)])
  obtain ⟨pulls', isPulls', views⟩ := sharePulls_plain single chosen h first
  rw [isPulls, Except.ok.injEq] at isPulls'
  subst isPulls'
  have few := length_localBlockIds_le single h
  have listed := length_remoteBlockIds single h
  have some : 0 < h.req.localBlockIds.length := by
    rw [h.length_localBlockIds]
    exact (lt_ceilDiv dep.decode.cpSize_pos).mpr (by omega)
  have last := mem_map_of_mem (f := fun k => (chosen.getD 0 0 + dep.prefill.port,
    h.remoteBlocks[h.numPromptBlocks - h.req.localBlockIds.length + k]?, h.req.localBlockIds[k]?))
    (mem_range.mpr (sub_lt some one_pos))
  rw [← views, perm.mem_iff] at last
  obtain ⟨j, isMissing, same⟩ := mem_map.mp last
  have inside := (mem_filter.mp isMissing).1
  have mine := (of_decide_eq_true (mem_filter.mp isMissing).2).2
  have sameBlock := (Prod.ext_iff.mp (Prod.ext_iff.mp same).2).1
  have length : h.numPromptBlocks ≤ h.remoteBlocks.length := by
    rw [h.remoteBlockIds_eq, length_take] at listed
    omega
  rw [mem_range] at inside
  rw [show h.numPromptBlocks - h.req.localBlockIds.length + (h.req.localBlockIds.length - 1) =
    h.numPromptBlocks - 1 by omega] at sameBlock
  rw [← mine, ← (getElem?_inj ?_ h.remoteNodup).mp sameBlock, single, Nat.div_one]
  rw [single, Nat.div_one]
  omega

end

end

/-! ### Prompts that are not pulled in order -/

theorem Rank.exists_cpRank {cpRank : Nat} (lt : cpRank < dep.decode.cpSize) :
    ∃ r : dep.Rank, r.cpRank = cpRank := by
  have positive := dep.decode.dcpPositive
  have group : dep.decode.dcpSize ≤ dep.decode.tpSize := by
    have first : dep.decode.dcpSize ≤ dep.decode.ranksPerGroup :=
      le_of_dvd (dep.decode.ranksPerGroup_pos dep.headsPositive) dep.decode.sameHeads
    exact first.trans (div_le_self _ _)
  refine ⟨⟨cpRank / dep.decode.dcpSize, cpRank % dep.decode.dcpSize,
    (div_lt_iff_lt_mul positive).mpr lt, (mod_lt _ positive).trans_le group⟩, ?_⟩
  unfold Rank.cpRank
  rw [mod_mod, div_add_mod']

/-- If a missing block is pulled, its number on the prefill rank is among those of the missing
blocks, and as many blocks of the decode rank come before it in the plan as in the prompt. -/
theorem Rank.place_of_pulled (r : dep.Rank) (parallel : 1 < dep.prefill.cpSize) {chosen : List Nat}
    (once : r.PulledOnce chosen h) {j : Nat} (isMissing : j ∈ r.missing h) :
    ∃ before after, r.entries h = before ++ (j % dep.prefill.cpSize / dep.decode.cpSize,
      h.pending (j % dep.prefill.cpSize)) :: after ∧
      j / dep.prefill.cpSize < h.pending (j % dep.prefill.cpSize) ∧
      h.cached + ((before.map Prod.snd).sum + j / dep.prefill.cpSize) = j / dep.decode.cpSize := by
  have striped := dep.striped parallel
  obtain ⟨c, splits, isCopy, -, ran, shares⟩ := r.pulls_eq h chosen parallel
  obtain ⟨tasks, ran', parts⟩ := once
  rw [ran, Except.ok.injEq] at ran'
  subst ran'
  have first := dep.numShares_pos
  obtain ⟨holder, pulls, holds, isPulls, perm⟩ := parts 0 (by rwa [numParts, if_pos parallel])
  rw [shares 0 first, Except.ok.injEq] at isPulls
  subst isPulls
  have wanted := mem_map_of_mem (f := fun j =>
    (holder (j % dep.prefill.cpSize), h.remoteBlocks[j / dep.prefill.cpSize]?,
      h.blocks[j / dep.decode.cpSize]?)) isMissing
  rw [← perm.mem_iff] at wanted
  obtain ⟨pull, isPull, same⟩ := mem_map.mp wanted
  obtain ⟨samePort, sameBlocks⟩ := Prod.ext_iff.mp same
  obtain ⟨sameRemote, sameLocal⟩ := Prod.ext_iff.mp sameBlocks
  obtain ⟨before, _, _, after, t, split, less, isPort, isRemote, isLocal⟩ := mem_pullsFrom isPull
  obtain ⟨s, isOrder, isEntry⟩ := mem_map.mp (split ▸ mem_append_right before mem_cons_self)
  obtain ⟨rfl, rfl⟩ := Prod.ext_iff.mp isEntry
  have isStripe := mem_order.mp isOrder
  -- the port tells the prefill rank, and block lists have no block twice
  have place : j % dep.prefill.cpSize = s * dep.decode.cpSize + r.cpRank := by
    have samePort : pull.port = holder (j % dep.prefill.cpSize) := samePort
    rw [← holds _ (mod_lt j dep.prefill.cpSize_pos), ← samePort, isPort]
    exact r.holder_place (isCopy 0 first) first _ (stripe_lt striped isStripe r.cpRank_lt)
  have number : t = j / dep.prefill.cpSize := by
    rw [remote_getElem (stripe_lt striped isStripe r.cpRank_lt) less] at isRemote
    obtain ⟨lt, -⟩ := List.getElem_of_getElem? isRemote
    exact (getElem?_inj lt h.remoteNodup).mp (isRemote.trans sameRemote)
  have pos : h.cached + ((before.map Prod.snd).sum + t) = j / dep.decode.cpSize := by
    rw [h.localBlockIds_eq, zero_add] at isLocal
    split at isLocal
    · rw [getElem?_drop] at isLocal
      obtain ⟨lt, -⟩ := List.getElem_of_getElem? isLocal
      exact (getElem?_inj lt h.blocksNodup).mp (isLocal.trans sameLocal)
    · cases isLocal
  refine ⟨before, after, ?_, ?_, number ▸ pos⟩
  · rwa [place, mul_add_div_of_lt r.cpRank_lt]
  · rwa [place, ← number]

theorem Rank.mem_missing {j : Nat} : j ∈ r.missing h ↔
    j < h.numPromptBlocks ∧ h.numCached ≤ j ∧ j % dep.decode.cpSize = r.cpRank := by
  rw [missing, mem_filter, mem_range, decide_eq_true_eq]

section
variable (parallel : 1 < dep.prefill.cpSize) {chosen : dep.Rank → List Nat}
  (once : ∀ r : dep.Rank, r.PulledOnce (chosen r) h)
include parallel once

theorem not_cached_of_pulled {j : Nat} (lt : j < h.numPromptBlocks)
    (uncached : h.numCached ≤ j) : h.numCached ≤ j % dep.prefill.cpSize := by
  have place := mod_lt j dep.prefill.cpSize_pos
  have last : (held h.numPromptBlocks dep.prefill.cpSize (j % dep.prefill.cpSize) - 1) * dep.prefill.cpSize +
      j % dep.prefill.cpSize < h.numPromptBlocks ∧
        j ≤ (held h.numPromptBlocks dep.prefill.cpSize (j % dep.prefill.cpSize) - 1) *
        dep.prefill.cpSize + j % dep.prefill.cpSize := by
    have whole := div_add_mod' j dep.prefill.cpSize
    have several : j / dep.prefill.cpSize < held h.numPromptBlocks dep.prefill.cpSize
        (j % dep.prefill.cpSize) :=
      (lt_held place).mpr (by omega)
    have later := mul_le_mul_right dep.prefill.cpSize (le_sub_one_of_lt several)
    exact ⟨(lt_held place).mp (sub_lt (zero_lt_of_lt several) one_pos), by omega⟩
  obtain ⟨r, isRank⟩ := Rank.exists_cpRank
    (mod_lt ((held h.numPromptBlocks dep.prefill.cpSize (j % dep.prefill.cpSize) - 1) *
    dep.prefill.cpSize + j % dep.prefill.cpSize) dep.decode.cpSize_pos)
  obtain ⟨-, -, -, fewer, -⟩ := r.place_of_pulled parallel (once r)
    (Rank.mem_missing.mpr ⟨last.1, uncached.trans last.2, isRank.symm⟩)
  rw [mul_add_div_of_lt place, mul_add_mod_of_lt place, pending] at fewer
  by_contra cached
  have some : 0 < held h.numCached dep.prefill.cpSize (j % dep.prefill.cpSize) :=
    (lt_held place).mpr (by omega)
  omega

theorem equal_of_pulled (long : dep.prefill.cpSize < h.numPromptBlocks)
    (none : h.numCached = 0) : dep.prefill.cpSize = dep.decode.cpSize := by
  have striped := dep.striped parallel
  obtain ⟨r, isRank⟩ := Rank.exists_cpRank dep.decode.cpSize_pos
  have nodup : (r.entries h).Nodup :=
    (((moveFinal_perm _ _).nodup_iff.mpr nodup_range).map fun _ _ same => (Prod.ext_iff.mp same).1)
  obtain ⟨before, after, split, -, pos⟩ := r.place_of_pulled (j := 0) parallel (once r)
    (Rank.mem_missing.mpr ⟨by omega, by omega, by rw [Nat.zero_mod, isRank]⟩)
  obtain ⟨before', after', split', -, position'⟩ := r.place_of_pulled
    (j := dep.prefill.cpSize) parallel (once r)
    (Rank.mem_missing.mpr ⟨long, by omega, by rw [isRank, Nat.mod_eq_zero_of_dvd striped]⟩)
  rw [Nat.mod_self] at split'
  rw [split, nodup_append, nodup_cons] at nodup
  have absent : (0 / dep.decode.cpSize, h.pending 0) ∉ before := fun mem => nodup.2.2 _ mem _ mem_cons_self rfl
  have same := ((append_cons_inj_of_notMem absent nodup.2.1.1).mp (split.symm.trans split')).1
  rw [same, Nat.zero_div, Nat.zero_div] at pos
  rw [Nat.div_self dep.prefill.cpSize_pos] at position'
  have one : dep.numStripes = 1 := by
    show dep.prefill.cpSize / dep.decode.cpSize = 1
    omega
  rw [← numStripes_mul striped, one, Nat.one_mul]

end

/-- Every missing block is pulled into its own place exactly for these prompts: if nothing is
missing, without context parallelism, with at most one block on every prefill rank, or with equal
sizes and nothing cached. -/
theorem pulledOnce_iff (dep : Deployment) (h : Handover dep) (chosen : dep.Rank → List Nat)
    (enough : ∀ rank, dep.numShares * dep.prefillPpSize ≤ (chosen rank).length) :
    (∀ rank : dep.Rank, rank.PulledOnce (chosen rank) h) ↔
      h.numPromptBlocks ≤ h.numCached ∨ (dep.prefill.cpSize = 1 ∧ dep.decode.cpSize = 1) ∨
        (1 < dep.prefill.cpSize ∧
          (h.numPromptBlocks ≤ dep.prefill.cpSize ∨
            (h.numCached = 0 ∧ dep.prefill.cpSize = dep.decode.cpSize))) := by
  have positive := dep.prefill.cpSize_pos
  have positive' := dep.decode.cpSize_pos
  constructor
  · intro once
    rcases lt_or_ge h.numCached h.numPromptBlocks with external | all
    · rcases lt_or_ge 1 dep.prefill.cpSize with parallel | single
      · refine .inr (.inr ⟨parallel, ?_⟩)
        rcases lt_or_ge dep.prefill.cpSize h.numPromptBlocks with long | short
        · -- the block at the first full round that is not cached decides
          have none : h.numCached = 0 := by
            have round := not_cached_of_pulled parallel once (Nat.max_lt.mpr ⟨external, long⟩)
              (Nat.le_max_left _ _)
            rcases le_total h.numCached dep.prefill.cpSize with few | many
            · rw [max_eq_right few, mod_self] at round
              omega
            · rw [max_eq_left many] at round
              have less := mod_lt h.numCached positive
              omega
          exact .inr ⟨none, equal_of_pulled parallel once long none⟩
        · exact .inl short
      · refine .inr (.inl ⟨by omega, ?_⟩)
        by_contra several
        have two : 1 < dep.decode.cpSize := by omega
        obtain ⟨first, isFirst⟩ := Rank.exists_cpRank positive'
        obtain ⟨second, isSecond⟩ := Rank.exists_cpRank two
        have last := first.last_pulled (by omega) _ (enough first) external (once first)
        rw [second.last_pulled (by omega) _ (enough second) external (once second)] at last
        omega
    · exact .inl all
  · intro fits rank
    rcases lt_or_ge 1 dep.prefill.cpSize with parallel | single
    · rcases fits with all | ⟨one, -⟩ | ⟨-, short | ⟨none, equal⟩⟩
      · exact rank.pulledOnce_cached parallel _ all
      · omega
      · exact rank.pulledOnce_short parallel _ short
      · exact rank.pulledOnce_equal parallel _ equal none
    · rcases fits with all | ⟨one, same⟩ | ⟨several, -⟩
      · exact rank.pulledOnce_plain_cached (by omega) _ (enough rank) all
      · exact rank.pulledOnce_plain one _ (enough rank) same
      · omega

def twoToOne : Deployment where
  numKeyValueHeads := 1
  useMla := true
  headsPositive := Nat.one_pos
  prefill := ⟨⟨1, 2, 1⟩, 100, Nat.one_pos, Nat.two_pos, Nat.one_pos, .inl rfl, Nat.one_dvd _⟩
  decode := ⟨⟨1, 1, 1⟩, 200, Nat.one_pos, Nat.one_pos, Nat.one_pos, .inl rfl, Nat.one_dvd _⟩
  prefillPpSize := 1
  ppPositive := Nat.one_pos
  blockSize := 1
  blockPositive := Nat.one_pos
  wholeShares := Nat.dvd_refl _
  striped := fun _ => Nat.one_dvd _

def fourBlocks (cached : Nat) (few : cached ≤ 4) : Handover twoToOne where
  promptLen := 4
  promptPositive := Nat.le_add_left 1 3
  cached := cached
  withinPrompt := (Nat.mul_one (cached * 1)).trans_le ((Nat.mul_one cached).trans_le few)
  blocks := [20, 21, 22, 23]
  blocksNodup := by decide
  blocksLength := rfl
  remoteBlocks := [10, 11]
  remoteNodup := by decide
  remoteLength := by decide

/-- Without a cached prefix the third block goes where the second belongs. With one, the remote
blocks of the prefix are read again. -/
theorem blocks_misplaced :
    (∃ tasks, (⟨0, 0, Nat.one_pos, Nat.one_pos⟩ : twoToOne.Rank).worker.startLoadKv [0]
      (fourBlocks 0 (by decide)).req = .ok tasks ∧
      sharePulls tasks 0 = .ok [⟨100, 10, 20⟩, ⟨100, 11, 21⟩, ⟨101, 10, 22⟩, ⟨101, 11, 23⟩]) ∧
    (∃ tasks, (⟨0, 0, Nat.one_pos, Nat.one_pos⟩ : twoToOne.Rank).worker.startLoadKv [0]
      (fourBlocks 2 (by decide)).req = .ok tasks ∧
      sharePulls tasks 0 = .ok [⟨100, 10, 22⟩, ⟨101, 10, 23⟩]) ∧
    (¬ ∀ rank : twoToOne.Rank, rank.PulledOnce [0] (fourBlocks 0 (by decide))) ∧
      ¬ ∀ rank : twoToOne.Rank, rank.PulledOnce [0] (fourBlocks 2 (by decide)) := by
  have parallel : 1 < twoToOne.prefill.cpSize := one_lt_two
  refine ⟨⟨_, rfl, rfl⟩, ⟨_, rfl, rfl⟩, fun once => ?_, fun once => ?_⟩
  · have equal := @equal_of_pulled _ _ parallel (fun _ => [0]) once (by decide) rfl
    exact absurd equal (by decide)
  · have uncached := @not_cached_of_pulled _ _ parallel (fun _ => [0]) once 2 (by decide) (by decide)
    exact absurd uncached (by decide)

def twoBlocks : Handover twoToOne where
  promptLen := 2
  promptPositive := Nat.two_pos
  cached := 1
  withinPrompt := by decide
  blocks := [20, 21]
  blocksNodup := by decide
  blocksLength := rfl
  remoteBlocks := [10]
  remoteNodup := by decide
  remoteLength := by decide

theorem twoBlocks_pulled : twoToOne.numShares * twoToOne.prefillPpSize ≤ 1 ∧ ∀ rank : twoToOne.Rank,
    rank.PulledOnce [0] twoBlocks :=
  ⟨by decide, (pulledOnce_iff twoToOne twoBlocks (fun _ => [0]) fun _ => by decide).mpr (.inr
    (.inr (by decide)))⟩

end Deployment

end TurboQuant.Ascend.Mooncake
