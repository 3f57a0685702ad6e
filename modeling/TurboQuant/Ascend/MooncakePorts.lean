import TurboQuant.Ascend.MooncakePlan

/-!
The ports from which a decode rank pulls.
-/

namespace TurboQuant.Ascend.Mooncake
open Striping List Nat Bool Function

section
variable (useMla : Bool) (numKeyValueHeads tpSize : Nat)

def numHeadGroups : Nat :=
  if useMla then 1 else min numKeyValueHeads tpSize

def headsPerGroup : Nat :=
  if useMla then 1 else max 1 (numKeyValueHeads / tpSize)

end

structure Node (numKeyValueHeads : Nat) (useMla : Bool) extends ParallelSizes where
  port : Nat
  tpPositive : 0 < tpSize
  pcpPositive : 0 < pcpSize
  dcpPositive : 0 < dcpSize
  /-- A rank has whole heads, or some ranks have copies of one. -/
  headsDivided : useMla = true ∨ tpSize ∣ numKeyValueHeads ∨ numKeyValueHeads ∣ tpSize
  /-- The ranks of a decode context-parallel group have the same heads. -/
  sameHeads : dcpSize ∣ tpSize / numHeadGroups useMla numKeyValueHeads tpSize

section
variable {numKeyValueHeads kvHeads tpSize : Nat} {useMla : Bool}

theorem getKvHeadGroups_eq (heads : 0 < kvHeads) (rs : 0 < tpSize)
    (divided : useMla = true ∨ tpSize ∣ kvHeads ∨ kvHeads ∣ tpSize) : getKvHeadGroups useMla kvHeads tpSize =
      some ((range (numHeadGroups useMla kvHeads tpSize)).map fun g =>
        (range (headsPerGroup useMla kvHeads tpSize)).map (· + g * headsPerGroup useMla kvHeads tpSize)) := by
  unfold getKvHeadGroups numHeadGroups headsPerGroup
  cases useMla with
  | true => rfl
  | false =>
    rw [if_neg Bool.false_ne_true, if_neg Bool.false_ne_true, if_neg Bool.false_ne_true]
    rcases lt_or_ge kvHeads tpSize with fewer | more
    · have none : kvHeads / tpSize = 0 := div_eq_of_lt fewer
      have copies : kvHeads ∣ tpSize := by
        refine (divided.resolve_left false_ne_true).resolve_left fun whole => ?_
        exact absurd (le_of_dvd heads whole) (not_le.mpr fewer)
      have several : tpSize / kvHeads > 1 := by
        obtain ⟨m, rfl⟩ := copies
        rw [Nat.mul_div_cancel_left _ heads]
        by_contra few
        have := mul_le_mul_left kvHeads (not_lt.mp few)
        omega
      rw [none, if_neg (by omega), if_pos several, min_eq_left fewer.le]
      simp
    · have some : kvHeads / tpSize ≥ 1 := (one_le_div_iff rs).mpr more
      rw [if_pos some, min_eq_right more, max_eq_right some]

theorem headsPerGroup_pos (useMla : Bool) (heads tpSize : Nat) :
    0 < headsPerGroup useMla heads tpSize := by
  unfold headsPerGroup
  split
  · exact one_pos
  · exact lt_of_lt_of_le one_pos (le_max_left _ _)

theorem numHeadGroups_mul (rs : 0 < tpSize)
    (divided : useMla = true ∨ tpSize ∣ numKeyValueHeads ∨ numKeyValueHeads ∣ tpSize) :
    numHeadGroups useMla numKeyValueHeads tpSize * headsPerGroup useMla numKeyValueHeads tpSize =
      if useMla then 1 else numKeyValueHeads := by
  unfold numHeadGroups headsPerGroup
  cases useMla with
  | true => rfl
  | false =>
    rw [if_neg Bool.false_ne_true, if_neg Bool.false_ne_true, if_neg Bool.false_ne_true]
    rcases lt_or_ge numKeyValueHeads tpSize with fewer | more
    · rw [div_eq_of_lt fewer, min_eq_left fewer.le, max_eq_left (zero_le _), mul_one]
    · have whole : tpSize ∣ numKeyValueHeads := by
        rcases divided.resolve_left false_ne_true with whole | copies
        · exact whole
        · rw [le_antisymm more (le_of_dvd rs copies)]
      rw [Nat.min_eq_right more, Nat.max_eq_right ((Nat.one_le_div_iff rs).mpr more),
        Nat.mul_div_cancel' whole]

theorem numHeadGroups_dvd (heads : 0 < kvHeads) (divided : useMla = true ∨ tpSize ∣ kvHeads ∨
    kvHeads ∣ tpSize) : numHeadGroups useMla kvHeads tpSize ∣ tpSize := by
  unfold numHeadGroups
  cases useMla with
  | true => exact one_dvd _
  | false =>
    rw [if_neg Bool.false_ne_true]
    rcases lt_or_ge kvHeads tpSize with fewer | more
    · rw [min_eq_left fewer.le]
      refine (divided.resolve_left false_ne_true).resolve_left fun whole => ?_
      exact absurd (le_of_dvd heads whole) (not_le.mpr fewer)
    · rw [min_eq_right more]

end

namespace Node

variable {numKeyValueHeads kvHeads : Nat} {useMla : Bool} {node n : Node kvHeads useMla}

def numGroups (_node : Node numKeyValueHeads useMla) : Nat :=
  numHeadGroups useMla numKeyValueHeads _node.tpSize

def perGroup (_node : Node numKeyValueHeads useMla) : Nat := headsPerGroup useMla numKeyValueHeads _node.tpSize

section
variable (node : Node kvHeads useMla)

def ranksPerGroup : Nat := node.tpSize / node.numGroups

def numRepeats : Nat := node.ranksPerGroup / node.dcpSize

def portOf (cpRank repeatIdx group : Nat) : Nat :=
  cpRank % node.dcpSize + node.port + node.tpSize * (cpRank / node.dcpSize) + node.dcpSize * repeatIdx +
    node.ranksPerGroup * group

def cpRankAt (port : Nat) : Nat :=
  (if node.pcpSize > 1 then (port - node.port) / node.tpSize else 0) * node.dcpSize +
    (port - node.port) % node.tpSize % node.dcpSize

def headGroups : List (List Nat) :=
  (range node.numGroups).map fun g => (range node.perGroup).map (· + g * node.perGroup)

end

section
variable (n : Node kvHeads useMla)

theorem ranksPerGroup_mul (heads : 0 < kvHeads) : n.ranksPerGroup * n.numGroups = n.tpSize :=
  Nat.div_mul_cancel (numHeadGroups_dvd heads n.headsDivided)

theorem dcpSize_mul : n.dcpSize * n.numRepeats = n.ranksPerGroup :=
  Nat.mul_div_cancel' n.sameHeads

theorem ranksPerGroup_pos (heads : 0 < kvHeads) : 0 < n.ranksPerGroup := by
  have whole := n.ranksPerGroup_mul heads
  have ranks := n.tpPositive
  by_contra none
  rw [Nat.eq_zero_of_not_pos none, Nat.zero_mul] at whole
  omega

theorem numRepeats_pos (heads : 0 < kvHeads) : 0 < n.numRepeats := by
  have whole := n.dcpSize_mul
  have ranks := n.ranksPerGroup_pos heads
  by_contra none
  rw [Nat.eq_zero_of_not_pos none, Nat.mul_zero] at whole
  omega

end

section
variable {cpRank r repeatIdx c group : Nat}

theorem place_lt (r : Nat) (isRepeat : c < n.numRepeats) :
    r % n.dcpSize + n.dcpSize * c < n.ranksPerGroup := by
  have place := mod_lt r n.dcpPositive
  have next : n.dcpSize * (c + 1) ≤ n.dcpSize * n.numRepeats := mul_le_mul_left _ isRepeat
  rw [n.dcpSize_mul, mul_add] at next
  omega

theorem tpRank_lt (heads : 0 < kvHeads) (isRepeat : c < n.numRepeats) (isGroup : group < n.numGroups) :
    r % n.dcpSize + n.dcpSize * c + n.ranksPerGroup * group < n.tpSize := by
  have place := place_lt r isRepeat
  have next : n.ranksPerGroup * (group + 1) ≤ n.ranksPerGroup * n.numGroups := mul_le_mul_left _ isGroup
  rw [n.ranksPerGroup_mul heads, mul_add] at next
  omega

theorem portOf_sub (n : Node kvHeads useMla) (r c group : Nat) : n.portOf r c group - n.port =
      r % n.dcpSize + n.dcpSize * c + n.ranksPerGroup * group + n.tpSize * (r / n.dcpSize) := by
  unfold portOf
  omega

section
variable (heads : 0 < kvHeads) (isRepeat : c < n.numRepeats) (isGroup : group < n.numGroups)
include heads isRepeat isGroup

theorem portOf_div : (n.portOf r c group - n.port) / n.tpSize = r / n.dcpSize := by
  rw [portOf_sub, add_mul_div_left _ _ n.tpPositive, div_eq_of_lt (tpRank_lt heads isRepeat isGroup), zero_add]

theorem portOf_mod : (n.portOf r c group - n.port) % n.tpSize =
      r % n.dcpSize + n.dcpSize * c + n.ranksPerGroup * group := by
  rw [portOf_sub, add_mul_mod_self_left, mod_eq_of_lt (tpRank_lt heads isRepeat isGroup)]

end

theorem place_mod (n : Node kvHeads useMla) (r c group : Nat) :
    (r % n.dcpSize + n.dcpSize * c + n.ranksPerGroup * group) % n.dcpSize = r % n.dcpSize := by
  rw [← n.dcpSize_mul, mul_assoc, add_mul_mod_self_left, add_mul_mod_self_left, mod_mod]

theorem place_div (heads : 0 < kvHeads) (r group : Nat) (isRepeat : c < n.numRepeats) :
    (r % n.dcpSize + n.dcpSize * c + n.ranksPerGroup * group) / n.ranksPerGroup = group := by
  rw [add_mul_div_left _ _ (n.ranksPerGroup_pos heads), div_eq_of_lt (place_lt _ isRepeat), zero_add]

theorem place_repeat (r group : Nat) (isRepeat : repeatIdx < n.numRepeats) :
    (r % n.dcpSize + n.dcpSize * repeatIdx + n.ranksPerGroup * group) % n.ranksPerGroup / n.dcpSize =
      repeatIdx := by
  rw [add_mul_mod_self_left, mod_eq_of_lt (place_lt _ isRepeat), add_mul_div_left _ _ n.dcpPositive,
    div_eq_of_lt (mod_lt _ n.dcpPositive), zero_add]

theorem portOf_inj (heads : 0 < kvHeads) {cpRank' repeatIdx' group' : Nat} (isRepeat : c < n.numRepeats)
    (isGroup : group < n.numGroups) (isRepeat' : repeatIdx' < n.numRepeats) (isGroup' : group' < n.numGroups)
    (same : n.portOf r c group = n.portOf cpRank' repeatIdx' group') :
    r = cpRank' ∧ c = repeatIdx' ∧ group = group' := by
  have pcp : r / n.dcpSize = cpRank' / n.dcpSize := by
    rw [← portOf_div heads isRepeat isGroup, same, portOf_div heads isRepeat' isGroup']
  have tp : r % n.dcpSize + n.dcpSize * c + n.ranksPerGroup * group =
      cpRank' % n.dcpSize + n.dcpSize * repeatIdx' + n.ranksPerGroup * group' := by
    rw [← portOf_mod heads isRepeat isGroup, same, portOf_mod heads isRepeat' isGroup']
  have dcp : r % n.dcpSize = cpRank' % n.dcpSize := by
    rw [← place_mod n r c group, tp, place_mod]
  refine ⟨?_, ?_, ?_⟩
  · rw [← div_add_mod r n.dcpSize, pcp, dcp, div_add_mod]
  · rw [← place_repeat r group isRepeat, tp, place_repeat _ _ isRepeat']
  · rw [← place_div heads r group isRepeat, tp, place_div heads _ _ isRepeat']

theorem cpRankAt_portOf (heads : 0 < kvHeads) (isRank : cpRank < n.cpSize) (isRepeat : c < n.numRepeats)
    (isGroup : group < n.numGroups) : n.cpRankAt (n.portOf cpRank c group) = cpRank := by
  unfold cpRankAt
  rw [portOf_mod heads isRepeat isGroup, place_mod, portOf_div heads isRepeat isGroup]
  split
  · exact div_add_mod' _ _
  · rename_i single
    have one : n.pcpSize = 1 := le_antisymm (not_lt.mp single) n.pcpPositive
    rw [ParallelSizes.cpSize, one, one_mul] at isRank
    rw [zero_mul, zero_add, mod_eq_of_lt isRank]

end

theorem cpGroup_eq (n : Node kvHeads useMla) (c group : Nat) :
    cpGroup n.toParallelSizes n.port (n.dcpSize * c) (n.ranksPerGroup * group) =
      (range n.cpSize).map fun r => n.portOf r c group :=
  flatMap_range_range (fun pcpRank dcpRank => dcpRank + n.port + n.tpSize * pcpRank + n.dcpSize * c +
    n.ranksPerGroup * group) n.pcpSize n.dcpPositive

def cpGroups (node : Node numKeyValueHeads useMla) (group : Nat) : List (List Nat) :=
  (range node.numRepeats).map fun repeatIdx =>
    (range node.cpSize).map fun cpRank => node.portOf cpRank repeatIdx group

section
variable (n : Node kvHeads useMla)

theorem getCpGroupMeta_eq : getCpGroupMeta n.toParallelSizes n.port n.headGroups =
    (range n.numGroups).map fun g =>
        ((range n.perGroup).map (· + g * n.perGroup), n.cpGroups g) := by
  unfold getCpGroupMeta headGroups
  rw [zipIdx_ranks, map_map, length_map, length_range]
  refine map_congr_left fun g _ => ?_
  refine Prod.ext rfl ?_
  exact map_congr_left fun c _ => n.cpGroup_eq c g

theorem perGroup_pos : 0 < n.perGroup := headsPerGroup_pos _ _ _

theorem cpSize_pos : 0 < n.cpSize := mul_pos n.pcpPositive n.dcpPositive

end

end Node

/-! ### Head groups of both nodes -/

theorem mem_heads {h g x : Nat} (pos : 0 < h) : x ∈ (range h).map (· + g * h) ↔ x / h = g := by
  rw [mem_map]
  constructor
  · rintro ⟨y, mem, rfl⟩
    rw [add_mul_div_right _ _ pos, div_eq_of_lt (mem_range.mp mem), zero_add]
  · rintro rfl
    exact ⟨x % h, mem_range.mpr (mod_lt _ pos), mod_add_div' x h⟩

theorem heads_subset {h r g g' : Nat} (pos : 0 < h) :
    ((range h).map (· + g * h)).all (· ∈ (range (h * r)).map (· + g' * (h * r))) = true ↔ 0 < r ∧
      g / r = g' := by
  rcases Nat.eq_zero_or_pos r with rfl | several
  · have first : 0 + g * h ∈ (range h).map (· + g * h) := mem_map.mpr ⟨0, mem_range.mpr pos, rfl⟩
    constructor
    · intro all
      have inside := of_decide_eq_true (all_eq_true.mp all _ first)
      simp at inside
    · rintro ⟨none, -⟩
      omega
  · rw [all_eq_true]
    constructor
    · intro all
      have inside := of_decide_eq_true (all (g * h) (mem_map.mpr ⟨0, mem_range.mpr pos, zero_add _⟩))
      rw [mem_heads (Nat.mul_pos pos several), ← Nat.div_div_eq_div_mul, Nat.mul_div_cancel _ pos] at inside
      exact ⟨several, inside⟩
    · rintro ⟨-, same⟩ x mem
      rw [mem_heads pos] at mem
      refine decide_eq_true ?_
      rw [mem_heads (Nat.mul_pos pos several), ← Nat.div_div_eq_div_mul, mem, same]

theorem filter_div {n r a : Nat} (pos : 0 < r) (fits : (a + 1) * r ≤ n) :
    (range n).filter (· / r = a) = (range r).map (a * r + ·) := by
  refine filter_range_eq_map (fun _ _ less => Nat.add_lt_add_left less _) fun j => ?_
  rw [decide_eq_true_eq, Nat.div_eq_iff pos]
  constructor
  · rintro ⟨-, lower, upper⟩
    exact ⟨j - a * r, by omega, by omega⟩
  · rintro ⟨k, less, rfl⟩
    rw [Nat.add_mul] at fits
    omega

/-! ### The loops over the groups -/

def Serves (pMeta : List (List Nat × List (List Nat))) (visit : Nat × List Nat) (pCpGroup : List Nat) : Prop :=
  ∃ entry, pMeta[visit.1]? = some entry ∧ pCpGroup ∈ entry.2

section
variable {pMeta : List (List Nat × List (List Nat))}

theorem visitPorts_fold (copies : ∀ entry ∈ pMeta, entry.2 ≠ []) (visits : List (Nat × List Nat))
    (valid : ∀ visit ∈ visits, visit.1 < pMeta.length) (select : Nat → Nat) (stripes : List (Nat × List Nat))
    (selected : ∀ i entry, pMeta[i]? = some entry → select i < entry.2.length) :
    ∃ select' chosen, List.Forall₂ (Serves pMeta) visits chosen ∧
      visits.foldlM (visitPorts pMeta) (select, stripes) =
        .ok (select', stripes ++ (zipWith (fun visit pCpGroup => portStripes pCpGroup visit.2)
          visits chosen).flatten) := by
  induction visits generalizing select stripes with
  | nil => exact ⟨select, [], .nil, by rw [zipWith_nil_left, flatten_nil, append_nil]; rfl⟩
  | cons visit rest ih =>
    obtain ⟨entry, isEntry⟩ : ∃ entry, pMeta[visit.1]? = some entry :=
      ⟨_, getElem?_eq_getElem (valid visit mem_cons_self)⟩
    obtain ⟨pCpGroup, isGroup⟩ : ∃ group, entry.2[select visit.1]? = some group :=
      ⟨_, getElem?_eq_getElem (selected visit.1 entry isEntry)⟩
    have member := mem_of_getElem? isGroup
    have step : visitPorts pMeta (select, stripes) visit =
        .ok (update select visit.1 (if select visit.1 + 1 < entry.2.length then select visit.1 + 1 else 0),
          stripes ++ portStripes pCpGroup visit.2) := by
      unfold visitPorts
      simp only [isEntry, Option.map_some, Option.getD_some, isGroup]
    obtain ⟨select', chosen, serves, ran⟩ := ih (fun later isLater => valid later (mem_cons_of_mem _ isLater))
      (update select visit.1 (if select visit.1 + 1 < entry.2.length then select visit.1 + 1 else 0))
      (stripes ++ portStripes pCpGroup visit.2) (by
        intro i other isOther
        by_cases same : i = visit.1
        · subst same
          rw [isEntry, Option.some.injEq] at isOther
          rw [update_self, ← isOther]
          split
          · assumption
          · exact length_pos_of_ne_nil (copies entry (mem_of_getElem? isEntry))
        · rw [update_of_ne same]
          exact selected i other isOther)
    refine ⟨select', pCpGroup :: chosen, .cons ⟨entry, isEntry, member⟩ serves, ?_⟩
    rw [foldlM_cons, step]
    show rest.foldlM (visitPorts pMeta) _ = _
    rw [ran, zipWith_cons_cons, flatten_cons, append_assoc]

theorem stripes_of_port {port : Nat} {own : List Nat} {stripe : List Nat → List Nat}
    (here : ∀ pCpGroup, (portStripes pCpGroup own).filter (·.1 = port) = [(port, stripe pCpGroup)])
    {visits : List (Nat × List Nat)} {chosen : List (List Nat)}
    (serves : List.Forall₂ (Serves pMeta) visits chosen)
    (apart : ∀ visit ∈ visits, visit.2 = own ∨ port ∉ visit.2) :
    ∃ gs, List.Forall₂ (Serves pMeta) (visits.filter (·.2 = own)) gs ∧
      ((zipWith (fun visit pCpGroup => portStripes pCpGroup visit.2) visits
        chosen).flatten.filter (·.1 = port)).map Prod.snd = gs.map stripe := by
  induction serves with
  | nil => exact ⟨[], .nil, rfl⟩
  | @cons visit pCpGroup rest others isServed _ ih =>
    obtain ⟨gs, served, same⟩ := ih fun later isLater => apart later (mem_cons_of_mem _ isLater)
    rw [zipWith_cons_cons, flatten_cons, filter_append, map_append, same]
    by_cases isOwn : visit.2 = own
    · refine ⟨pCpGroup :: gs, ?_, ?_⟩
      · rw [filter_cons_of_pos (by simpa using isOwn)]
        exact .cons isServed served
      · rw [isOwn, here]
        rfl
    · refine ⟨gs, ?_, ?_⟩
      · rwa [filter_cons_of_neg (by simpa using isOwn)]
      · have absent := (apart visit mem_cons_self).resolve_left isOwn
        have none : (portStripes pCpGroup visit.2).filter (·.1 = port) = [] := by
          refine filter_eq_nil_iff.mpr fun e mem => ?_
          obtain ⟨⟨dPort, dIdx⟩, isPort, rfl⟩ := mem_map.mp mem
          have isMember := fst_mem_of_mem_zipIdx isPort
          simp only [decide_eq_true_eq]
          rintro rfl
          exact absent isMember
        rw [none]
        rfl

end

/-! ### The mapping of a decode rank -/

structure Deployment where
  numKeyValueHeads : Nat
  useMla : Bool
  headsPositive : 0 < numKeyValueHeads
  prefill : Node numKeyValueHeads useMla
  decode : Node numKeyValueHeads useMla
  prefillPpSize : Nat
  ppPositive : 0 < prefillPpSize
  blockSize : Nat
  blockPositive : 0 < blockSize
  /-- The heads of a decode rank are those of whole prefill ranks. -/
  wholeShares : prefill.perGroup ∣ decode.perGroup
  /-- This is checked only with context parallelism on the prefill side. -/
  striped : 1 < prefill.cpSize → decode.cpSize ∣ prefill.cpSize

namespace Deployment

variable {dep : Deployment}

structure Rank (dep : Deployment) where
  pcpRank : Nat
  tpRank : Nat
  insidePcp : pcpRank < dep.decode.pcpSize
  insideTp : tpRank < dep.decode.tpSize

def Rank.cpRank (rank : dep.Rank) : Nat := rank.pcpRank * dep.decode.dcpSize + rank.tpRank % dep.decode.dcpSize

def Rank.worker (rank : dep.Rank) : MooncakeConnectorWorker where
  sizes := dep.decode.toParallelSizes
  tpRank := rank.tpRank
  pcpRank := rank.pcpRank
  sideChannelPort := dep.decode.port
  blockSize := dep.blockSize
  numKeyValueHeads := dep.numKeyValueHeads
  useMla := dep.useMla
  prefillTpSize := dep.prefill.tpSize
  prefillPpSize := dep.prefillPpSize

def numShares (dep : Deployment) : Nat := dep.decode.perGroup / dep.prefill.perGroup

def numStripes (dep : Deployment) : Nat := dep.prefill.cpSize / dep.decode.cpSize

section
variable (rank r : dep.Rank)

theorem Rank.cpRank_lt : r.cpRank < dep.decode.cpSize := by
  have place := mod_lt r.tpRank dep.decode.dcpPositive
  have next : (r.pcpRank + 1) * dep.decode.dcpSize ≤ dep.decode.pcpSize * dep.decode.dcpSize :=
    mul_le_mul_right _ r.insidePcp
  rw [add_mul, one_mul] at next
  unfold Rank.cpRank ParallelSizes.cpSize
  omega

def Rank.headGroup : Nat := rank.tpRank / dep.decode.ranksPerGroup

def Rank.repeatIdx : Nat := rank.tpRank % dep.decode.ranksPerGroup / dep.decode.dcpSize

theorem Rank.headGroup_lt : r.headGroup < dep.decode.numGroups := by
  unfold Rank.headGroup
  rw [div_lt_iff_lt_mul (dep.decode.ranksPerGroup_pos dep.headsPositive), mul_comm,
    dep.decode.ranksPerGroup_mul dep.headsPositive]
  exact r.insideTp

theorem Rank.repeatIdx_lt : r.repeatIdx < dep.decode.numRepeats := by
  unfold Rank.repeatIdx
  rw [div_lt_iff_lt_mul dep.decode.dcpPositive, mul_comm, dep.decode.dcpSize_mul]
  exact mod_lt _ (dep.decode.ranksPerGroup_pos dep.headsPositive)

theorem Rank.handshakePort_eq :
    r.worker.handshakePort = dep.decode.portOf r.cpRank r.repeatIdx r.headGroup := by
  have place : r.tpRank % dep.decode.dcpSize + dep.decode.dcpSize * r.repeatIdx =
      r.tpRank % dep.decode.ranksPerGroup := by
    have same : r.tpRank % dep.decode.ranksPerGroup % dep.decode.dcpSize = r.tpRank % dep.decode.dcpSize :=
      mod_mod_of_dvd _ dep.decode.sameHeads
    rw [← same]
    exact mod_add_div _ _
  have whole := mod_add_div r.tpRank dep.decode.ranksPerGroup
  have positive := dep.decode.dcpPositive
  unfold MooncakeConnectorWorker.handshakePort Node.portOf Rank.cpRank
  rw [mul_add_mod', mod_mod, mul_comm r.pcpRank dep.decode.dcpSize, mul_add_div positive,
    div_eq_of_lt (mod_lt _ positive), add_zero, mul_comm dep.decode.tpSize]
  show dep.decode.port + (r.pcpRank * dep.decode.tpSize + r.tpRank) = _
  unfold Rank.headGroup
  omega

def Rank.ownGroup : List Nat :=
  (range dep.decode.cpSize).map fun cpRank => dep.decode.portOf cpRank rank.repeatIdx rank.headGroup

theorem Rank.mem_cpGroup {group c : Nat} (isGroup : group < dep.decode.numGroups)
    (isRepeat : c < dep.decode.numRepeats) (mem : r.worker.handshakePort ∈
      (range dep.decode.cpSize).map fun cpRank => dep.decode.portOf cpRank c group) :
    c = r.repeatIdx ∧ group = r.headGroup := by
  obtain ⟨cpRank, -, same⟩ := mem_map.mp mem
  rw [r.handshakePort_eq] at same
  exact (Node.portOf_inj dep.headsPositive isRepeat isGroup r.repeatIdx_lt r.headGroup_lt same).2

theorem Rank.handshakePort_mem : r.worker.handshakePort ∈ r.ownGroup := by
  rw [r.handshakePort_eq]
  exact mem_map.mpr ⟨r.cpRank, mem_range.mpr r.cpRank_lt, rfl⟩

end

section
variable (dep : Deployment)

theorem numShares_mul : dep.prefill.perGroup * dep.numShares = dep.decode.perGroup :=
  Nat.mul_div_cancel' dep.wholeShares

theorem numShares_pos : 0 < dep.numShares := by
  have whole := dep.numShares_mul
  have positive := dep.decode.perGroup_pos
  by_contra none
  rw [Nat.eq_zero_of_not_pos none, Nat.mul_zero] at whole
  omega

theorem shares_fit {group : Nat} (isGroup : group < dep.decode.numGroups) :
    (group + 1) * dep.numShares ≤ dep.prefill.numGroups := by
  refine le_of_mul_le_mul_right (?_ : _ * dep.prefill.perGroup ≤ _) dep.prefill.perGroup_pos
  calc (group + 1) * dep.numShares * dep.prefill.perGroup = (group + 1) * dep.decode.perGroup := by
        rw [mul_assoc, mul_comm dep.numShares, dep.numShares_mul]
    _ ≤ dep.decode.numGroups * dep.decode.perGroup := mul_le_mul_right _ isGroup
    _ = dep.prefill.numGroups * dep.prefill.perGroup := by
        rw [Node.numGroups, Node.perGroup,
          numHeadGroups_mul dep.decode.tpPositive dep.decode.headsDivided, Node.numGroups,
          Node.perGroup, numHeadGroups_mul dep.prefill.tpPositive dep.prefill.headsDivided]

def pMeta : List (List Nat × List (List Nat)) :=
  getCpGroupMeta dep.prefill.toParallelSizes dep.prefill.port dep.prefill.headGroups

def dMeta : List (List Nat × List (List Nat)) :=
  getCpGroupMeta dep.decode.toParallelSizes dep.decode.port dep.decode.headGroups

theorem portVisits_eq : portVisits dep.pMeta dep.dMeta = (range dep.decode.numGroups).flatMap fun group =>
      ((range dep.prefill.numGroups).filter (· / dep.numShares = group)).flatMap fun pIdx =>
        (dep.decode.cpGroups group).map fun dCpGroup => (pIdx, dCpGroup) := by
  unfold portVisits pMeta dMeta
  rw [Node.getCpGroupMeta_eq, Node.getCpGroupMeta_eq, flatMap_map, zipIdx_ranks]
  refine flatMap_congr fun group _ => ?_
  have same : ∀ pIdx, (((range dep.prefill.perGroup).map (· + pIdx * dep.prefill.perGroup)).all
      (· ∈ (range dep.decode.perGroup).map (· + group * dep.decode.perGroup))) =
        decide (pIdx / dep.numShares = group) := by
    intro pIdx
    rw [← dep.numShares_mul, Bool.eq_iff_iff, heads_subset dep.prefill.perGroup_pos, decide_eq_true_eq]
    exact and_iff_right dep.numShares_pos
  dsimp only
  rw [filter_map, flatMap_map]
  congr 1
  exact filter_congr fun pIdx _ => same pIdx

end

theorem Rank.visits_own (r : dep.Rank) : (portVisits dep.pMeta dep.dMeta).filter (·.2 = r.ownGroup) =
    (range dep.numShares).map fun share => (r.headGroup * dep.numShares + share, r.ownGroup) := by
  have elsewhere : ∀ group < dep.decode.numGroups, ∀ c < dep.decode.numRepeats,
      ((range dep.decode.cpSize).map fun cpRank => dep.decode.portOf cpRank c group) = r.ownGroup →
        c = r.repeatIdx ∧ group = r.headGroup := by
    intro group isGroup c isRepeat same
    exact r.mem_cpGroup isGroup isRepeat (same ▸ r.handshakePort_mem)
  rw [portVisits_eq, filter_flatMap, flatMap_range_single r.headGroup_lt]
  · rw [filter_flatMap, filter_div dep.numShares_pos (dep.shares_fit r.headGroup_lt), flatMap_map,
      ← flatMap_singleton' ((range dep.numShares).map _), flatMap_map]
    refine flatMap_congr fun share _ => ?_
    unfold Node.cpGroups
    rw [map_map]
    refine filter_map_range_single r.repeatIdx_lt (decide_eq_true rfl) fun c isRepeat ne => ?_
    exact decide_eq_false fun same => ne (elsewhere _ r.headGroup_lt c isRepeat same).1
  · intro group isGroup ne
    refine filter_eq_nil_iff.mpr fun visit mem => ?_
    obtain ⟨pIdx, -, isVisit⟩ := mem_flatMap.mp mem
    obtain ⟨dCpGroup, isCpGroup, rfl⟩ := mem_map.mp isVisit
    obtain ⟨c, isRepeat, rfl⟩ := mem_map.mp isCpGroup
    rw [decide_eq_true_eq]
    exact fun same => ne (elsewhere group isGroup c (mem_range.mp isRepeat) same).2

theorem Rank.visit_apart (r : dep.Rank) :
    ∀ visit ∈ portVisits dep.pMeta dep.dMeta, visit.2 = r.ownGroup ∨ r.worker.handshakePort ∉ visit.2 := by
  intro visit mem
  rw [portVisits_eq] at mem
  obtain ⟨group, isGroup, inGroup⟩ := mem_flatMap.mp mem
  obtain ⟨pIdx, -, isVisit⟩ := mem_flatMap.mp inGroup
  obtain ⟨dCpGroup, isCpGroup, rfl⟩ := mem_map.mp isVisit
  obtain ⟨c, isRepeat, rfl⟩ := mem_map.mp isCpGroup
  by_cases here : r.worker.handshakePort ∈ (range dep.decode.cpSize).map fun cpRank =>
      dep.decode.portOf cpRank c group
  · obtain ⟨rfl, rfl⟩ := r.mem_cpGroup (mem_range.mp isGroup) (mem_range.mp isRepeat) here
    exact .inl rfl
  · exact .inr here

theorem numStripes_mul (striped : dep.decode.cpSize ∣ dep.prefill.cpSize) :
    dep.numStripes * dep.decode.cpSize = dep.prefill.cpSize := Nat.div_mul_cancel striped

theorem places_eq (striped : dep.decode.cpSize ∣ dep.prefill.cpSize) {r : Nat} (lt : r < dep.decode.cpSize) :
    (range dep.prefill.cpSize).filter (· % dep.decode.cpSize = r) =
      (range dep.numStripes).map (· * dep.decode.cpSize + r) := by
  rw [filter_range lt, ← numStripes_mul striped, held_mul dep.decode.cpSize_pos]

theorem Rank.portStripes_own (r : dep.Rank) (pCpGroup : List Nat) :
    (portStripes pCpGroup r.ownGroup).filter (·.1 = r.worker.handshakePort) = [(r.worker.handshakePort,
        (pCpGroup.zipIdx.filter fun (_, pIdx) => pIdx % dep.decode.cpSize = r.cpRank).map Prod.fst)] := by
  unfold portStripes ownGroup
  rw [zipIdx_ranks, map_map, length_map, length_range, r.handshakePort_eq]
  refine filter_map_range_single r.cpRank_lt (decide_eq_true rfl) fun cpRank _ ne => ?_
  refine decide_eq_false fun same => ne ?_
  exact (Node.portOf_inj dep.headsPositive r.repeatIdx_lt r.headGroup_lt r.repeatIdx_lt r.headGroup_lt same).1

theorem stripe_eq (striped : dep.decode.cpSize ∣ dep.prefill.cpSize) {r : Nat} (lt : r < dep.decode.cpSize)
    (c group : Nat) : ((((range dep.prefill.cpSize).map fun place =>
      dep.prefill.portOf place c group).zipIdx.filter
      fun (_, pIdx) => pIdx % dep.decode.cpSize = r).map Prod.fst) = (range dep.numStripes).map fun stripe =>
        dep.prefill.portOf (stripe * dep.decode.cpSize + r) c group := by
  rw [zipIdx_ranks, filter_map, map_map]
  calc _ = ((range dep.prefill.cpSize).filter (· % dep.decode.cpSize = r)).map
        fun place => dep.prefill.portOf place c group := rfl
    _ = _ := by rw [places_eq striped lt, map_map]; rfl

section
variable (rank : dep.Rank) (copy : Nat → Nat)

def Rank.sharePort (share stripe : Nat) : Nat :=
  dep.prefill.portOf (stripe * dep.decode.cpSize + rank.cpRank) (copy share)
    (rank.headGroup * dep.numShares + share)

def Rank.shareLists (order : List Nat) : List (List Nat) :=
  (range dep.numShares).map fun share => order.map (rank.sharePort copy share)

end

theorem Rank.stripes_eq (r : dep.Rank) (striped : dep.decode.cpSize ∣ dep.prefill.cpSize) :
    ∃ select stripes, (portVisits dep.pMeta dep.dMeta).foldlM (visitPorts dep.pMeta) (fun _ => 0,
      []) = .ok (select, stripes) ∧
      ∃ c : Nat → Nat, (∀ share < dep.numShares, c share < dep.prefill.numRepeats) ∧
        (stripes.filter (·.1 = r.worker.handshakePort)).map Prod.snd =
          r.shareLists c (range dep.numStripes) := by
  have es : dep.pMeta = (range dep.prefill.numGroups).map fun g =>
      ((range dep.prefill.perGroup).map (· + g * dep.prefill.perGroup), dep.prefill.cpGroups g) :=
    dep.prefill.getCpGroupMeta_eq
  have copies : ∀ e ∈ dep.pMeta, 0 < e.2.length := by
    intro e mem
    rw [es] at mem
    obtain ⟨g, -, rfl⟩ := mem_map.mp mem
    rw [Node.cpGroups, length_map, length_range]
    exact dep.prefill.numRepeats_pos dep.headsPositive
  have valid : ∀ visit ∈ portVisits dep.pMeta dep.dMeta, visit.1 < dep.pMeta.length := by
    intro visit mem
    rw [portVisits_eq] at mem
    obtain ⟨group, -, inGroup⟩ := mem_flatMap.mp mem
    obtain ⟨pIdx, isIdx, isVisit⟩ := mem_flatMap.mp inGroup
    obtain ⟨dCpGroup, -, rfl⟩ := mem_map.mp isVisit
    rw [es, length_map, length_range]
    exact mem_range.mp (mem_of_mem_filter isIdx)
  obtain ⟨select, chosen, serves, ran⟩ := visitPorts_fold (fun e mem => ne_nil_of_length_pos (copies e mem))
    (portVisits dep.pMeta dep.dMeta) valid (fun _ => 0) [] fun i e at_ => copies e (mem_of_getElem? at_)
  obtain ⟨gs, served, same⟩ := stripes_of_port r.portStripes_own serves r.visit_apart
  refine ⟨select, _, ran, ?_⟩
  rw [nil_append, same]
  rw [r.visits_own, forall₂_map_left_iff] at served
  have length : dep.numShares = gs.length := by simpa using served.length_eq
  have each : ∀ share, ∃ c, ∀ lt : share < dep.numShares, c < dep.prefill.numRepeats ∧
      gs[share]? = some ((range dep.prefill.cpSize).map fun place =>
        dep.prefill.portOf place c (r.headGroup * dep.numShares + share)) := by
    intro share
    by_cases lt : share < dep.numShares
    · obtain ⟨e, isEntry, mem⟩ := served.get (by simpa using lt) (length ▸ lt)
      rw [es, getElem?_map, Option.map_eq_some_iff] at isEntry
      obtain ⟨g, at_, rfl⟩ := isEntry
      obtain ⟨_, isGroup⟩ := List.getElem_of_getElem? at_
      obtain ⟨c, isCopy, equal⟩ := mem_map.mp mem
      refine ⟨c, fun _ => ⟨mem_range.mp isCopy, ?_⟩⟩
      rw [getElem?_eq_getElem (length ▸ lt), Option.some.injEq]
      simpa [← isGroup] using equal.symm
    · exact ⟨0, fun less => absurd less lt⟩
  choose c isCopy using each
  refine ⟨c, fun share lt => (isCopy share lt).1, ?_⟩
  have whole : gs = (range dep.numShares).map fun share => (range dep.prefill.cpSize).map fun place =>
      dep.prefill.portOf place (c share) (r.headGroup * dep.numShares + share) := by
    refine ext_getElem? fun share => ?_
    rw [getElem?_map]
    by_cases lt : share < dep.numShares
    · rw [(isCopy share lt).2, getElem?_range lt]
      rfl
    · rw [getElem?_eq_none (by omega), getElem?_eq_none (by simpa using lt)]
      rfl
  rw [whole, map_map]
  exact map_congr_left fun share _ => stripe_eq striped r.cpRank_lt _ _

end Deployment

end TurboQuant.Ascend.Mooncake
