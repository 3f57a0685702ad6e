import TurboQuant.Ascend.EplbExchange

/-!
One cycle of expert parallel load balancing.
-/

namespace TurboQuant.Ascend.Eplb
open Channels Outcome List Function Nat Bool RankState

variable {layers ranks slots : Nat} {α : Type}

def Log2phyAgrees (log2phy : List Nat) (rows : Fin ranks → Fin slots → Nat) : Prop :=
  log2phy.length = (hosted rows).card ∧ ∀ e id, log2phy[e]? = some id → ∃ r s, rows r s = e ∧
    id = s.val + r.val * slots

variable {log2phy : List Nat}

section

variable {tb : ExpertTable layers ranks slots} {es : Nat} {l : Fin layers} {rank r : Fin ranks}

section
variable (lt : ∀ r s, tb l r s < es) (apart : ∀ r, Injective (tb l r))
include lt apart

theorem validCount_eq : validCount (tableMaps es tb) l r = slots := by
  have nodup : ((range es).filter fun e => (slotOf (tb l ⟨0, r.pos⟩) e).isSome).Nodup := nodup_range.filter _
  have same : ((range es).filter fun e => (slotOf (tb l ⟨0, r.pos⟩) e).isSome).toFinset =
      Finset.univ.image (tb l ⟨0, r.pos⟩) := by
    ext e
    rw [mem_toFinset, mem_filter, mem_range, slotOf_isSome, Finset.mem_image]
    constructor
    · rintro ⟨_, s, rfl⟩
      exact ⟨s, Finset.mem_univ s, rfl⟩
    · rintro ⟨s, _, rfl⟩
      exact ⟨lt _ s, s, rfl⟩
  rw [validCount, countP_eq_length_filter]
  show ((range es).filter fun e => (slotOf (tb l ⟨0, r.pos⟩) e).isSome).length = slots
  rw [← toFinset_card_of_nodup nodup, same, Finset.card_image_of_injective _ (apart _),
    Finset.card_univ, Fintype.card_fin]

theorem mem_physicalIds {e id : Nat} :
    id ∈ physicalIds (tableMaps es tb) l rank e ↔ ∃ r s, tb l r s = e ∧ id = s.val + r.val * slots := by
  simp only [physicalIds, mem_filterMap, validCount_eq lt apart, Option.map_eq_some_iff]
  constructor
  · rintro ⟨r, _, s, here, rfl⟩
    obtain ⟨t, rfl, same⟩ := (slotOf_eq_some (apart r)).mp here
    exact ⟨r, t, same, rfl⟩
  · rintro ⟨r, s, same, rfl⟩
    exact ⟨r, mem_finRange r, s, (slotOf_eq_some (apart r)).mpr ⟨s, rfl, same⟩, rfl⟩

end

section
variable (rank r : Fin ranks) (lt : ∀ r s, tb l r s < es) (apart : ∀ r, Injective (tb l r))
include lt apart

theorem log2phyKeys_toFinset : (log2phyKeys (tableMaps es tb) l rank).toFinset = hosted (tb l) := by
  ext e
  rw [mem_toFinset, log2phyKeys, mem_filter, mem_hosted]
  constructor
  · rintro ⟨_, nonempty⟩
    have nonempty : physicalIds (tableMaps es tb) l rank e ≠ [] := by simpa using nonempty
    obtain ⟨id, mem⟩ := exists_mem_of_ne_nil _ nonempty
    obtain ⟨r, s, same, -⟩ := (mem_physicalIds lt apart).mp mem
    exact ⟨r, s, same⟩
  · rintro ⟨r, s, rfl⟩
    refine ⟨mem_range.mpr (lt r s), ?_⟩
    have mem : s.val + r.val * slots ∈ physicalIds (tableMaps es tb) l rank (tb l r s) :=
      (mem_physicalIds lt apart).mpr ⟨r, s, rfl, rfl⟩
    simpa using ne_nil_of_mem mem

theorem length_log2phyKeys : (log2phyKeys (tableMaps es tb) l r).length = (hosted (tb l)).card := by
  have nodup : (log2phyKeys (tableMaps es tb) l r).Nodup := nodup_range.filter _
  rw [← log2phyKeys_toFinset r lt apart, toFinset_card_of_nodup nodup]

section
variable (noGap : ∀ e ∈ hosted (tb l), e < (hosted (tb l)).card)
include noGap

theorem generateLog2phyMap_ok : generateLog2phyMap (tableMaps es tb) l r =
    .ok ((range (hosted (tb l)).card).map fun e =>
      let ids := physicalIds (tableMaps es tb) l r e
      ids.getD (r % ids.length) 0) := by
  rw [← length_log2phyKeys r lt apart] at noGap ⊢
  refine if_pos ?_
  rw [all_eq_true]
  intro e mem
  rw [decide_eq_true_eq]
  exact noGap e (log2phyKeys_toFinset r lt apart ▸ mem_toFinset.mpr mem)

theorem generateLog2phyMap_eq :
    ∃ log2phy, generateLog2phyMap (tableMaps es tb) l rank = .ok log2phy ∧ Log2phyAgrees log2phy (tb l) := by
  have all : hosted (tb l) = Finset.range (hosted (tb l)).card :=
    Finset.eq_of_subset_of_card_le (fun e mem => Finset.mem_range.mpr (noGap e mem)) (by simp)
  refine ⟨_, generateLog2phyMap_ok rank lt apart noGap, by rw [length_map, length_range], fun e id found => ?_⟩
  rw [getElem?_map, Option.map_eq_some_iff] at found
  obtain ⟨key, at_, rfl⟩ := found
  obtain ⟨inside, rfl⟩ := List.getElem_of_getElem? at_
  rw [length_range] at inside
  rw [getElem_range]
  have mem : e ∈ hosted (tb l) := all ▸ Finset.mem_range.mpr inside
  obtain ⟨r, s, same⟩ := mem_hosted.mp mem
  have nonempty : 0 < (physicalIds (tableMaps es tb) l rank e).length :=
    length_pos_of_mem ((mem_physicalIds lt apart).mpr ⟨r, s, same, rfl⟩)
  have within := mod_lt rank.val nonempty
  rw [getD_eq_getElem?_getD, getElem?_eq_getElem within]
  exact (mem_physicalIds lt apart).mp (getElem_mem within)

end

end

theorem noGap_of_generateLog2phyMap (lt : ∀ r s, tb l r s < es) (apart : ∀ r, Injective (tb l r))
    (ran : generateLog2phyMap (tableMaps es tb) l rank = .ok log2phy) :
    ∀ e ∈ hosted (tb l), e < (hosted (tb l)).card := by
  intro e mem
  have bounded : (log2phyKeys (tableMaps es tb) l rank).all fun e =>
      decide (e < (log2phyKeys (tableMaps es tb) l rank).length) := by
    by_contra unbounded
    exact absurd ((if_neg unbounded).symm.trans ran) (by simp)
  rw [← log2phyKeys_toFinset rank lt apart, mem_toFinset] at mem
  have below := of_decide_eq_true (all_eq_true.mp bounded e mem)
  rwa [length_log2phyKeys rank lt apart] at below

end

variable {l : Fin layers} {p : PackedUpdate layers ranks}

section

variable {up cur : ExpertMaps layers ranks} {r : Fin ranks}

theorem packUpdate_ok {update : Mail (Fin ranks) Nat × Fin layers}
    (ran : packUpdate up r update = .ok p) :
    ∃ log2phy, generateLog2phyMap up update.2 r = .ok log2phy ∧ p.layerId = update.2 := by
  obtain ⟨log2phy, made, ran⟩ := bind_ok ran
  exact ⟨log2phy, made, (congrArg PackedUpdate.layerId (Except.ok.inj ran)).symm⟩

theorem changed_of_layerIds {updates : List (Mail (Fin ranks) Nat × Fin layers)}
    {pk : List (PackedUpdate layers ranks)}
    (composed : composeExpertUpdateInfoGreedy up cur = .ok updates)
    (ran : updates.mapM (packUpdate up r) = .ok pk) (ids : pk.map (·.layerId) = finRange layers)
    (l : Fin layers) : up.sameLayer cur l = false ∧ (∃ m, exchange up cur l = .ok m) ∧
      ∃ log2phy, generateLog2phyMap up l r = .ok log2phy := by
  obtain ⟨perLayer, each, flat⟩ := bind_ok composed
  obtain rfl := Except.ok.inj flat
  have position : (finRange layers)[l.val]? = some l := by simp
  obtain ⟨es, composedLayer, at_⟩ := mapM_getElem each position
  obtain ⟨m, planned, composedLayer⟩ := bind_ok composedLayer
  obtain rfl := (Except.ok.inj composedLayer).symm
  have within := sublist_flatten_of_mem (mem_of_getElem? at_)
  have layerIds : perLayer.flatten.map Prod.snd = finRange layers := by
    rw [← ids]
    exact (mapM_map_eq (fun ranItem => (packUpdate_ok ranItem).choose_spec.2) ran).symm
  have apart : (perLayer.flatten.map Prod.snd).Nodup := layerIds ▸ nodup_finRange layers
  refine ⟨?_, ⟨m, planned⟩, ?_⟩
  · by_contra same
    rw [not_eq_false] at same
    have twice := (within.map Prod.snd).nodup apart
    rw [if_pos same] at twice
    simp at twice
  · have mem : (m, l) ∈ perLayer.flatten := within.subset (mem_append_right _ (mem_singleton.mpr rfl))
    obtain ⟨i, found⟩ := mem_iff_getElem?.mp mem
    obtain ⟨p, packedItem, -⟩ := mapM_getElem ran found
    obtain ⟨log2phy, made, -⟩ := packUpdate_ok packedItem
    exact ⟨log2phy, made⟩

end

section

variable {cfg : EplbConfig}

theorem copyInto_length {β : Type} {dst src r : List β} (ran : copyInto dst src = .ok r) :
    r.length = dst.length := by
  unfold copyInto at ran
  split at ran
  · rename_i same
    rw [← Except.ok.inj ran, same]
  · split at ran
    · rename_i one
      rw [← Except.ok.inj ran, length_flatMap]
      simp [one]
    · cases ran

theorem generateExpertD2dTransferTask_adaptor {s s' : RankState layers ranks α}
    (ran : s.generateExpertD2dTransferTask p = .ok s') : s'.adaptor = s.adaptor := by
  unfold generateExpertD2dTransferTask at ran
  split at ran
  · obtain ⟨task, -, ran⟩ := bind_ok ran
    rw [← Except.ok.inj ran]
  · rw [← Except.ok.inj ran]

theorem asynExpertWeightTransfer_adaptor (s : RankState layers ranks α) :
    s.asynExpertWeightTransfer.adaptor = s.adaptor := by
  unfold asynExpertWeightTransfer
  split <;> rfl

section
variable {s s' : RankState layers ranks α}

theorem forwardBefore_adaptor (ran : s.forwardBefore cfg = .ok s') : s'.adaptor = s.adaptor := by
  obtain ⟨got, taken, ran⟩ := bind_ok ran
  have same : got.adaptor = s.adaptor := by
    unfold getUpdateInfo at taken
    split at taken
    · split at taken
      · rw [← Except.ok.inj taken]
      · cases taken
    · rw [← Except.ok.inj taken]
  rw [← same]
  split at ran
  · unfold startUpdate at ran
    split at ran
    · cases ran
    · obtain ⟨next, generated, ran⟩ := bind_ok ran
      rw [← Except.ok.inj ran, asynExpertWeightTransfer_adaptor,
        generateExpertD2dTransferTask_adaptor generated]
  · rw [← Except.ok.inj ran]

section
variable {sends : Fin ranks → List (Fin ranks × α)} {me : Fin ranks}

theorem updateExpertMapAndWeight_width (ran : s.updateExpertMapAndWeight sends me = .ok s') (l : Fin layers) :
    (s'.adaptor.expertMapPerLayerCpu l).length = (s.adaptor.expertMapPerLayerCpu l).length := by
  unfold updateExpertMapAndWeight at ran
  split at ran
  · rename_i task _
    obtain ⟨buffers, -, ran⟩ := bind_ok ran
    obtain ⟨expertMap, copied, ran⟩ := bind_ok ran
    obtain ⟨a, log2phy, ran⟩ := bind_ok ran
    obtain ⟨params, -, ran⟩ := bind_ok ran
    have same : a.expertMapPerLayerCpu = update s.adaptor.expertMapPerLayerCpu task.layerId expertMap := by
      unfold copyLog2phy at log2phy
      split at log2phy
      · rw [← Except.ok.inj log2phy]
      · obtain ⟨copied, -, log2phy⟩ := bind_ok log2phy
        rw [← Except.ok.inj log2phy]
    rw [← Except.ok.inj ran]
    rw [same, update_apply]
    split
    · rename_i here
      rw [here]
      exact copyInto_length copied
    · rfl
  · rw [← Except.ok.inj ran]

theorem forwardEnd_frame (ran : s.forwardEnd cfg sends me = .ok s') (l : Fin layers) :
    (s'.adaptor.expertMapPerLayerCpu l).length = (s.adaptor.expertMapPerLayerCpu l).length ∧
      (cfg.recording → s'.adaptor = s.adaptor) := by
  obtain ⟨written, wrote, ran⟩ := bind_ok ran
  rw [← Except.ok.inj ran]
  unfold finishUpdate at wrote
  split at wrote
  · rename_i flag
    rw [and_eq_true] at flag
    refine ⟨updateExpertMapAndWeight_width wrote l, fun recording => ?_⟩
    rw [recording] at flag
    exact absurd flag.2 (by decide)
  · rw [← Except.ok.inj wrote]
    exact ⟨rfl, fun _ => rfl⟩

end

end

theorem iterations_frame {n : Nat} {w world' : Fin ranks → RankState layers ranks α}
    (ran : iterations cfg n w = .ok world') (r : Fin ranks) (l : Fin layers) :
    ((world' r).adaptor.expertMapPerLayerCpu l).length = ((w r).adaptor.expertMapPerLayerCpu l).length ∧
      (cfg.recording → (world' r).adaptor = (w r).adaptor) := by
  induction n generalizing w with
  | zero =>
    rw [← Except.ok.inj ran]
    exact ⟨rfl, fun _ => rfl⟩
  | succ n ih =>
    obtain ⟨next, first, ran⟩ := bind_ok ran
    obtain ⟨started, before, after⟩ := bind_ok first
    have here := forwardBefore_adaptor (gather_ok.mp before r)
    have step := forwardEnd_frame (gather_ok.mp after r) l
    have rest := ih ran
    refine ⟨?_, fun recording => ?_⟩
    · rw [rest.1, step.1, here]
    · rw [rest.2 recording, step.2 recording, here]

end

structure Adaptor.Agrees (a : Adaptor layers α) (l : Fin layers) (r : Fin ranks) (experts : Nat)
    (rows : Fin ranks → Fin slots → Nat)
    (weight : Nat → α) : Prop extends a.Holds l experts (rows r) weight where
  log2phy : ∀ log2phy, a.log2phyMapPerLayer l = some log2phy → Log2phyAgrees log2phy rows

def Adaptor.SameLayer (a a' : Adaptor layers α) (l : Fin layers) : Prop :=
  a'.expertMapPerLayerCpu l = a.expertMapPerLayerCpu l ∧ a'.expertParamPerLayer l = a.expertParamPerLayer l ∧
    a'.log2phyMapPerLayer l = a.log2phyMapPerLayer l

variable {rows : Fin ranks → Fin slots → Nat} {es : Nat} {r : Fin ranks}

theorem Adaptor.Agrees.congr {a a' : Adaptor layers α} {w : Nat → α}
    (agrees : a.Agrees l r es rows w) (same : a.SameLayer a' l) : a'.Agrees l r es rows w where
  map := same.1.trans agrees.map
  params := same.2.1.trans agrees.params
  log2phy list found := agrees.log2phy list (same.2.2.symm.trans found)

theorem copyLog2phy_eq (a : Adaptor layers α) (l : Fin layers) (up : List Nat)
    (width : ∀ cur, a.log2phyMapPerLayer l = some cur → up.length = cur.length) :
    ∃ log2phy, copyLog2phy a l up = .ok { a with log2phyMapPerLayer := log2phy } ∧
      (∀ cur, log2phy l = some cur → cur = up) ∧ ∀ other, other ≠ l →
        log2phy other = a.log2phyMapPerLayer other := by
  unfold copyLog2phy
  cases found : a.log2phyMapPerLayer l with
  | none =>
    refine ⟨a.log2phyMapPerLayer, rfl, fun cur here => ?_, fun _ _ => rfl⟩
    rw [found] at here
    cases here
  | some cur =>
    refine ⟨update a.log2phyMapPerLayer l (some up), ?_, ?_, ?_⟩
    · show (copyInto cur up >>= _) = _
      rw [copyInto, if_pos (width cur found), ok_bind]
    · intro list here
      rw [update_self] at here
      exact (Option.some.inj here).symm
    · intro other ne
      rw [update_of_ne ne]

section

variable {cfg : EplbConfig} {old : Placement layers ranks slots} {new : ExpertTable layers ranks slots}
  {w : Fin layers → Nat → α} {m : Fin layers → Mail (Fin ranks) Nat} {log2phy : Fin ranks →
    Fin layers → List Nat}

def packedEntry (experts : Nat) (new : ExpertTable layers ranks slots)
    (mail : Fin layers → Mail (Fin ranks) Nat)
    (log2phy : Fin ranks → Fin layers → List Nat) (r : Fin ranks) (l : Fin layers) :
    PackedUpdate layers ranks where
  sendInfo := (mail l).sends r
  recvInfo := (mail l).receives r
  expertMap := (range experts).map (slotOf (new l r))
  log2phy := log2phy r l
  layerId := l

/-- What the cycle rests on: every layer passes the check, its exchange is planned, and its
logical-to-physical maps are made. -/
structure Plans (old : Placement layers ranks slots) (new : ExpertTable layers ranks slots)
    (mail : Fin layers → Mail (Fin ranks) Nat)
    (log2phy : Fin ranks → Fin layers → List Nat) : Prop where
  passed : ∀ l, passesCheck (old.expert l) (new l)
  lt : ∀ l r s, new l r s < old.experts
  sameCount : ∀ l, (hosted (new l)).card = (hosted (old.expert l)).card
  exchanged : ∀ l, exchange (tableMaps old.experts new) old.maps l = .ok (mail l)
  made : ∀ r l, generateLog2phyMap (tableMaps old.experts new) l r = .ok (log2phy r l)
  log2phy : ∀ r l, Log2phyAgrees (log2phy r l) (new l)

variable {s : RankState layers ranks α}

namespace Plans

variable (plans : Plans old new m log2phy)
include plans

theorem room (r : Fin ranks) : ((m l).receives r).length ≤ slots :=
  length_receives (plans.exchanged l) (plans.lt l) r

theorem updateExpertMapAndWeight_eq
    (loader : s.loader = .transferring (plannedTask old.experts new l (w l) (m l) r))
    (updatedLog2phy : s.updatedLog2phyMap = log2phy r l) (buffers : s.adaptor.bufferTensorList.length = slots)
    (agrees : s.adaptor.Agrees l r old.experts (old.expert l) (w l)) :
    ∃ a, s.updateExpertMapAndWeight (fun src => (plannedTask old.experts new l (w l) (m l) src).sends) r =
        .ok { s with adaptor := a, loader := .waiting } ∧
      a.bufferTensorList.length = slots ∧ a.Agrees l r old.experts (new l) (w l) ∧
      ∀ other, other ≠ l → s.adaptor.SameLayer a other := by
  obtain ⟨apart, noMovement⟩ := (passesCheck_iff.mp (plans.passed l)).2 r
  obtain ⟨inOrder, -, -⟩ := exchange_tables (plans.exchanged l)
  have arrived : landAll (fun src => (plannedTask old.experts new l (w l) (m l) src).sends) r
      s.adaptor.bufferTensorList (plannedTask old.experts new l (w l) (m l) r).receives = .ok _ :=
    landAll_eq inOrder r _ (by rw [buffers]; exact plans.room r)
  have copied : copyInto (s.adaptor.expertMapPerLayerCpu l) ((range old.experts).map (slotOf (new l r))) =
      .ok ((range old.experts).map (slotOf (new l r))) := by
    rw [copyInto, if_pos (by rw [agrees.map, length_map, length_map])]
  have params : updateExpertWeights (landed (w l) ((m l).receives r) s.adaptor.bufferTensorList)
      (s.adaptor.expertParamPerLayer l) (plannedTask old.experts new l (w l) (m l)
        r).recvExpertList = .ok (ofFn fun s => w l (new l r s)) := by
    rw [agrees.params]
    exact updateExpertWeights_eq (plans.exchanged l) (plans.lt l) r apart noMovement _
  obtain ⟨written, ranLog2phy, cur, others⟩ := copyLog2phy_eq
    { s.adaptor with
      bufferTensorList := landed (w l) ((m l).receives r) s.adaptor.bufferTensorList
      expertMapPerLayerCpu := update s.adaptor.expertMapPerLayerCpu l
        ((range old.experts).map (slotOf (new l r))) }
    l (log2phy r l) fun list found => by
      rw [(plans.log2phy r l).1, (agrees.log2phy list found).1, plans.sameCount l]
  rw [← updatedLog2phy] at ranLog2phy
  refine ⟨{
    expertMapPerLayerCpu := update s.adaptor.expertMapPerLayerCpu l
      ((range old.experts).map (slotOf (new l r)))
    expertParamPerLayer := update s.adaptor.expertParamPerLayer l (ofFn fun s => w l (new l r s))
    bufferTensorList := landed (w l) ((m l).receives r) s.adaptor.bufferTensorList
    log2phyMapPerLayer := written }, ?_, ?_, ?_, ?_⟩
  · unfold updateExpertMapAndWeight
    rw [loader]
    exact bind_of_ok arrived (bind_of_ok copied (bind_of_ok ranLog2phy (bind_of_ok params rfl)))
  · have room := plans.room (l := l) r
    simp only [landed, length_append, length_map, length_drop, buffers]
    omega
  · refine { map := ?_, params := ?_, log2phy := ?_ }
    · exact update_self ..
    · exact update_self ..
    · intro list found
      rw [cur list found]
      exact plans.log2phy r l
  · intro other ne
    exact ⟨update_of_ne ne .., update_of_ne ne .., others other ne⟩

end Plans

structure InCycle (config : EplbConfig) (old : Placement layers ranks slots)
    (new : ExpertTable layers ranks slots)
    (weight : Fin layers → Nat → α) (mail : Fin layers → Mail (Fin ranks) Nat)
    (log2phy : Fin ranks → Fin layers → List Nat)
    (k : Nat) (world : Fin ranks → RankState layers ranks α) : Prop where
  waiting : ∀ r, (world r).loader = .waiting
  iterations : k < layers → ∀ r,
    (world r).curIterations = config.expertHeatCollectionInterval + config.algorithmExecutionInterval + k
  list : ∀ r, (world r).updateInfoAll = ((finRange layers).drop k).map
    (packedEntry old.experts new mail log2phy r)
  buffers : ∀ r, (world r).adaptor.bufferTensorList.length = slots
  done : ∀ r (l : Fin layers), l.val < k → (world r).adaptor.Agrees l r old.experts (new l) (weight l)
  rest : ∀ r (l : Fin layers), k ≤ l.val → (world r).adaptor.Agrees l r old.experts (old.expert l) (weight l)

def startedState (old : Placement layers ranks slots) (new : ExpertTable layers ranks slots)
    (weight : Fin layers → Nat → α)
    (mail : Fin layers → Mail (Fin ranks) Nat) (log2phy : Fin ranks → Fin layers → List Nat)
    (l : Fin layers) (r : Fin ranks)
    (s : RankState layers ranks α) : RankState layers ranks α :=
  { s with
    loader := .transferring (plannedTask old.experts new l (weight l) (mail l) r)
    updatedLog2phyMap := log2phy r l
    updateInfoAll := ((finRange layers).drop (l.val + 1)).map (packedEntry old.experts new mail log2phy r) }

theorem updateExpertWeightFlag_of
    (cur : s.curIterations = cfg.expertHeatCollectionInterval + cfg.algorithmExecutionInterval + l.val) :
    s.updateExpertWeightFlag cfg = true := by
  rw [updateExpertWeightFlag, and_eq_true, decide_eq_true_eq, decide_eq_true_eq]
  omega

namespace Plans

variable (plans : Plans old new m log2phy) {world : Fin ranks → RankState layers ranks α}
include plans

theorem forwardBefore_eq (inCycle : InCycle cfg old new w m log2phy l.val world) (r : Fin ranks) :
    (world r).forwardBefore cfg = .ok (startedState old new w m log2phy l r (world r)) := by
  have cur := inCycle.iterations l.isLt r
  have notFetched : (world r).getUpdateInfo cfg = .ok (world r) := by
    rw [getUpdateInfo, if_neg]
    rw [getUpdateInfoFlag, decide_eq_true_eq]
    omega
  have next : (world r).updateInfoAll = packedEntry old.experts new m log2phy r l ::
      ((finRange layers).drop (l.val + 1)).map (packedEntry old.experts new m log2phy r) := by
    rw [inCycle.list, drop_eq_getElem_cons (by simp), map_cons]
    simp
  have task := transferTask_eq (plans.exchanged l) (old.distinct l) (old.expert_lt l) (plans.lt l)
    (fun r => (inCycle.rest r l (le_refl _)).toHolds) inCycle.buffers r
  refine bind_of_ok notFetched ?_
  rw [if_pos (updateExpertWeightFlag_of cur), startUpdate, next]
  refine bind_of_ok (a := { world r with
    loader := .ready (plannedTask old.experts new l (w l) (m l) r)
    updatedLog2phyMap := log2phy r l
    updateInfoAll := ((finRange layers).drop (l.val + 1)).map
      (packedEntry old.experts new m log2phy r) }) ?_ rfl
  rw [show (_ : RankState layers ranks α).loader = .waiting from inCycle.waiting r]
  exact bind_of_ok task rfl

theorem iteration_inCycle (applied : cfg.recording = false)
    (inCycle : InCycle cfg old new w m log2phy l.val world) :
    ∃ world', iteration cfg world = .ok world' ∧ InCycle cfg old new w m log2phy (l.val + 1) world' := by
  have started := gather_ok.mpr fun r => plans.forwardBefore_eq inCycle r
  have written := fun r => plans.updateExpertMapAndWeight_eq
    (s := startedState old new w m log2phy l r (world r)) rfl rfl
    (inCycle.buffers r) (inCycle.rest r l (le_refl _))
  choose adaptor ran buffers agrees others using written
  have finished : ∀ r, (startedState old new w m log2phy l r (world r)).forwardEnd cfg
      (fun src => (startedState old new w m log2phy l src (world src)).posted) r =
      .ok (updateIteration cfg
        { startedState old new w m log2phy l r (world r) with adaptor := adaptor r, loader := .waiting }) := by
    intro r
    refine bind_of_ok ?_ rfl
    rw [finishUpdate, if_pos]
    · exact ran r
    · have flag : (startedState old new w m log2phy l r (world r)).updateExpertWeightFlag cfg = true :=
        updateExpertWeightFlag_of (inCycle.iterations l.isLt r)
      rw [flag, applied]
      rfl
  refine ⟨_, bind_of_ok started (gather_ok.mpr finished), ?_⟩
  exact {
    waiting := fun r => rfl
    iterations := fun more r => by
      have cur := inCycle.iterations l.isLt r
      show (if (world r).curIterations + 1 = _ then 0 else (world r).curIterations + 1) = _
      rw [if_neg (by omega)]
      omega
    list := fun r => rfl
    buffers := buffers
    done := fun r other before => by
      by_cases same : other = l
      · subst same
        exact agrees r
      · exact (inCycle.done r other (by omega)).congr (others r other same)
    rest := fun r other after =>
      (inCycle.rest r other (by omega)).congr (others r other (fun same => by subst same; omega)) }

theorem iterations_inCycle (applied : cfg.recording = false) {n k : Nat} (left : k + n = layers)
    (inCycle : InCycle cfg old new w m log2phy k world) :
    ∃ world', iterations cfg n world = .ok world' ∧ InCycle cfg old new w m log2phy layers world' := by
  induction n generalizing k world with
  | zero => exact ⟨world, rfl, left ▸ inCycle⟩
  | succ n ih =>
    obtain ⟨next, step, nextInCycle⟩ := plans.iteration_inCycle (l := ⟨k, by omega⟩) applied inCycle
    obtain ⟨last, ran, ended⟩ := ih (by simpa [add_assoc, add_comm 1] using left) nextInCycle
    exact ⟨last, bind_of_ok step ran, ended⟩

end Plans

/-- All ranks wait for the list of the worker, with the model as the placement says. -/
structure Ready (config : EplbConfig) (old : Placement layers ranks slots) (weight : Fin layers → Nat → α)
    (world : Fin ranks → RankState layers ranks α) : Prop where
  waiting : ∀ r, (world r).loader = .waiting
  iterations : ∀ r, (world r).curIterations + 1 =
    config.expertHeatCollectionInterval + config.algorithmExecutionInterval
  buffers : ∀ r, (world r).adaptor.bufferTensorList.length = slots
  agrees : ∀ r l, (world r).adaptor.Agrees l r old.experts (old.expert l) (weight l)

def delivered (world : Fin ranks → RankState layers ranks α)
    (packed : Fin ranks → List (PackedUpdate layers ranks)) :
    Fin ranks → RankState layers ranks α :=
  fun r => { world r with blockUpdateQ := some (packed r) }

def fetchedState (packed : List (PackedUpdate layers ranks)) (s : RankState layers ranks α) :
    RankState layers ranks α :=
  { s with updateInfoAll := packed, blockUpdateQ := none }

theorem iteration_fetches {world : Fin ranks → RankState layers ranks α} (ready : Ready cfg old w world) :
    ∃ world', iteration cfg (delivered world fun r =>
        (finRange layers).map (packedEntry old.experts new m log2phy r)) = .ok world' ∧
      InCycle cfg old new w m log2phy 0 world' := by
  have cur := ready.iterations
  have noUpdate : ∀ s : RankState layers ranks α, s.curIterations + 1 = cfg.expertHeatCollectionInterval +
      cfg.algorithmExecutionInterval → ¬ s.updateExpertWeightFlag cfg = true := by
    intro s before
    rw [updateExpertWeightFlag, and_eq_true, decide_eq_true_eq]
    omega
  have before : ∀ r, (delivered world (fun r =>
      (finRange layers).map (packedEntry old.experts new m log2phy r)) r).forwardBefore
      cfg = .ok (fetchedState ((finRange layers).map (packedEntry old.experts new m log2phy r))
        (world r)) := by
    intro r
    refine bind_of_ok (if_pos (decide_eq_true (cur r))) (if_neg ?_)
    exact noUpdate _ (cur r)
  have after : ∀ sends r, (fetchedState ((finRange layers).map (packedEntry old.experts new m
      log2phy r)) (world r)).forwardEnd cfg sends r = .ok (updateIteration cfg
        (fetchedState ((finRange layers).map (packedEntry old.experts new m log2phy r)) (world r))) := by
    intro sends r
    refine bind_of_ok (if_neg ?_) rfl
    rw [and_eq_true]
    exact fun both => noUpdate _ (cur r) both.1
  refine ⟨_, bind_of_ok (gather_ok.mpr before) (gather_ok.mpr (after _)), ?_⟩
  exact {
    waiting := ready.waiting
    iterations := fun some r => by
      show (if (world r).curIterations + 1 = _ then 0 else (world r).curIterations + 1) = _
      rw [if_neg (by have := cur r; omega)]
      exact cur r
    list := fun r => rfl
    buffers := ready.buffers
    done := fun r l none => absurd none (not_lt_zero _)
    rest := fun r l _ => ready.agrees r l }

end

section

variable {config cfg : EplbConfig} {old : Placement layers ranks slots} {new : ExpertTable layers ranks slots}
  {weight w : Fin layers → Nat → α} {world : Fin ranks → RankState layers ranks α}

theorem sameLayer_iff {a b : ExpertTable layers ranks slots} :
    (tableMaps es a).sameLayer (tableMaps es b) l ↔ ∀ r, ∀ e < es, slotOf (a l r) e = slotOf (b l r) e := by
  simp only [ExpertMaps.sameLayer, and_eq_true, all_eq_true, decide_eq_true_eq, mem_range]
  exact ⟨fun same r => same.2 r (mem_finRange r), fun same => ⟨rfl, fun r _ => same r⟩⟩

theorem rows_eq_of_slots {a b : Fin slots → Nat} (apart : Injective a) (distinct' : Injective b)
    (lt : ∀ s, a s < es) (same : ∀ e < es, slotOf a e = slotOf b e) : a = b := by
  funext s
  have here := (slotOf_eq_some apart).mpr ⟨s, rfl, rfl⟩
  rw [same _ (lt s)] at here
  obtain ⟨t, at_, equal⟩ := (slotOf_eq_some distinct').mp here
  rw [← equal, Fin.ext at_]

theorem checkExpertPlacement_eq (passed : ∀ l, passesCheck (old.expert l) (new l)) :
    checkExpertPlacement old.expert new = new :=
  funext fun l => if_pos (passed l)

theorem Plans.doUpdate_eq {m : Fin layers → Mail (Fin ranks) Nat} {log2phy : Fin ranks → Fin layers → List Nat}
    (plans : Plans old new m log2phy) (last : ∃ l r s, new l r s + 1 = old.experts)
    (changed : ∀ l, new l ≠ old.expert l) (r : Fin ranks) :
    doUpdate old new r =
      .ok (tableMaps old.experts new, (finRange layers).map (packedEntry old.experts new m log2phy r)) := by
  have composedLayer : ∀ l, composeLayer (tableMaps old.experts new) old.maps l = .ok [(m l, l)] := by
    intro l
    have ne : ¬ (tableMaps old.experts new).sameLayer old.maps l = true := by
      intro same
      apply changed l
      funext r
      exact rows_eq_of_slots ((passesCheck_iff.mp (plans.passed l)).2 r).1 (old.distinct l r)
        (plans.lt l r) (sameLayer_iff.mp same r)
    refine bind_of_ok (plans.exchanged l) ?_
    rw [if_neg ne]
    rfl
  have composed : composeExpertUpdateInfoGreedy (tableMaps old.experts new) old.maps =
      .ok ((finRange layers).map fun l => (m l, l)) := by
    refine bind_of_ok (mapM_ok _ fun l _ => composedLayer l) ?_
    rw [← flatMap_def, map_eq_flatMap]
  have maps : local2global (checkExpertPlacement old.expert new) = .ok (tableMaps old.experts new) := by
    rw [checkExpertPlacement_eq plans.passed]
    exact local2global_eq plans.lt last
  have pk : ((finRange layers).map fun l => (m l, l)).mapM (packUpdate (tableMaps old.experts new) r) =
      .ok (((finRange layers).map fun l => (m l, l)).map fun update =>
        packedEntry old.experts new m log2phy r update.2) := by
    apply mapM_ok
    intro update mem
    obtain ⟨l, -, rfl⟩ := mem_map.mp mem
    exact bind_of_ok (plans.made r l) rfl
  refine bind_of_ok maps (bind_of_ok composed (bind_of_ok pk ?_))
  rw [map_map]
  rfl

/-- The worker packs one entry for each layer, in their order, and when the updator has used them
all ranks have the maps and the weights of the recorded placement. -/
def CycleUpdates (config : EplbConfig) (old : Placement layers ranks slots)
    (new : ExpertTable layers ranks slots)
    (weight : Fin layers → Nat → α) (world : Fin ranks → RankState layers ranks α) : Prop :=
  ∃ maps, local2global (checkExpertPlacement old.expert new) = .ok maps ∧
    ∃ packed : Fin ranks → List (PackedUpdate layers ranks),
      (∀ r, doUpdate old new r = .ok (maps, packed r) ∧ (packed r).map (·.layerId) = finRange layers) ∧
      ∃ world', iterations config (layers + 1) (delivered world packed) = .ok world' ∧
        ∀ r l, (world' r).adaptor.Agrees l r maps.experts (checkExpertPlacement old.expert new l) (weight l)

/-- The experts of a layer are all hosted now and numbered without gaps, and the layer changes. -/
structure LayerChanges (old new : Fin ranks → Fin slots → Nat) : Prop where
  passed : passesCheck old new
  changed : new ≠ old
  hosted : ∀ r s, new r s ∈ hosted old
  noGap : ∀ e ∈ Eplb.hosted new, e < (Eplb.hosted new).card

theorem LayerChanges.sameCount {old new : Fin ranks → Fin slots → Nat} (layer : LayerChanges old new) :
    (Eplb.hosted new).card = (Eplb.hosted old).card := by
  apply le_antisymm
  · apply Finset.card_le_card
    intro e mem
    obtain ⟨r, s, rfl⟩ := mem_hosted.mp mem
    exact layer.hosted r s
  · exact (passesCheck_iff.mp layer.passed).1

theorem cycleUpdates_of_changes (ready : Ready cfg old w world) (applied : cfg.recording = false)
    (layer : ∀ l, LayerChanges (old.expert l) (new l)) (last : ∃ l r s, new l r s + 1 = old.experts) :
    CycleUpdates cfg old new w world := by
  have host := fun l => (layer l).hosted
  have distinct := fun l r => ((passesCheck_iff.mp (layer l).passed).2 r).1
  choose m exchanged using exchange_of_hosted host
  choose log2phy made agrees using fun r l => generateLog2phyMap_eq r (lt_of_hosted host l)
    (distinct l) (layer l).noGap
  have plans : Plans old new m log2phy :=
    { passed := fun l => (layer l).passed, lt := lt_of_hosted host, sameCount := fun l => (layer l).sameCount,
      exchanged := exchanged, made := made, log2phy := agrees }
  have checked := checkExpertPlacement_eq plans.passed
  have fetch : ∃ world', iteration cfg (delivered world fun r =>
      (finRange layers).map (packedEntry old.experts new m log2phy r)) = .ok world' ∧
      InCycle cfg old new w m log2phy 0 world' := iteration_fetches ready
  obtain ⟨fetched, first, inCycle⟩ := fetch
  obtain ⟨world', ran, ended⟩ := plans.iterations_inCycle applied (zero_add layers) inCycle
  refine ⟨_, ?_, _, fun r => ⟨plans.doUpdate_eq last (fun l => (layer l).changed) r, ?_⟩, world',
    bind_of_ok first ran, ?_⟩
  · rw [checked]
    exact local2global_eq plans.lt last
  · rw [map_map]
    exact map_id _
  · intro r l
    rw [checked]
    exact ended.done r l l.isLt

theorem changes_of_cycleUpdates (ready : Ready cfg old w world) (updates : CycleUpdates cfg old new w world) :
    cfg.recording = false ∧ (∀ l, LayerChanges (old.expert l) (new l)) ∧ ∃ l r s,
      new l r s + 1 = old.experts := by
  obtain ⟨maps, made, pk, each, world', ran, agrees⟩ := updates
  obtain ⟨e, rfl, ⟨l₀, r₀, s₀, largest⟩, bound⟩ := local2global_ok.mp made
  have frame := fun r l => iterations_frame ran r l
  have start : ∀ r l, (delivered world pk r).adaptor.expertMapPerLayerCpu l =
      (range old.experts).map (slotOf (old.expert l r)) := fun r l => (ready.agrees r l).map
  -- no step changes the width of the maps
  have width : e + 1 = old.experts := by
    have same := (frame r₀ l₀).1
    rw [start, (agrees r₀ l₀).map, length_map, length_map, length_range, length_range] at same
    exact same
  rw [width] at made
  have changes : ∀ l, (tableMaps old.experts (checkExpertPlacement old.expert new)).sameLayer
      old.maps l = false ∧
      (∃ m, exchange (tableMaps old.experts (checkExpertPlacement old.expert new)) old.maps l = .ok m) ∧
      ∃ log2phy, generateLog2phyMap (tableMaps old.experts (checkExpertPlacement old.expert new)) l
        r₀ = .ok log2phy := by
    obtain ⟨up, ids⟩ := each r₀
    obtain ⟨maps, ranMaps, up⟩ := bind_ok up
    obtain rfl : tableMaps old.experts (checkExpertPlacement old.expert new) = maps :=
      Except.ok.inj (made.symm.trans ranMaps)
    obtain ⟨updates, composed, up⟩ := bind_ok up
    obtain ⟨list, ranList, up⟩ := bind_ok up
    obtain rfl : list = pk r₀ := congrArg Prod.snd (Except.ok.inj up)
    exact changed_of_layerIds composed ranList ids
  have ne : ∀ l, checkExpertPlacement old.expert new l ≠ old.expert l := by
    intro l same
    have unchanged : (tableMaps old.experts (checkExpertPlacement old.expert new)).sameLayer
        old.maps l = true :=
      sameLayer_iff.mpr fun r e _ => by rw [same]
    rw [(changes l).1] at unchanged
    cases unchanged
  have passed : ∀ l, passesCheck (old.expert l) (new l) := by
    intro l
    by_contra fails
    exact ne l (if_neg fails)
  have checked := checkExpertPlacement_eq passed
  rw [checked] at ne changes bound agrees
  have lt : ∀ l r s, new l r s < old.experts := fun l r s => by have := bound l r s; omega
  refine ⟨?_, fun l => ⟨passed l, ne l, ?_, ?_⟩, l₀, r₀, s₀, ?_⟩
  · by_contra recording
    rw [not_eq_false] at recording
    apply ne l₀
    funext r
    have same := (agrees r l₀).map
    rw [(frame r l₀).2 recording, start, width] at same
    have entries := map_inj_left.mp same
    exact rows_eq_of_slots ((passesCheck_iff.mp (passed l₀)).2 r).1 (old.distinct l₀ r) (lt l₀ r)
      fun e below => (entries e (mem_range.mpr below)).symm
  · obtain ⟨m, ranMail⟩ := (changes l).2.1
    exact (CompleteExchange.of_tables (lt l) ranMail).mem_hosted_old
  · obtain ⟨log2phy, ranLog2phy⟩ := (changes l).2.2
    exact noGap_of_generateLog2phyMap (lt l) (fun r => ((passesCheck_iff.mp (passed l)).2 r).1) ranLog2phy
  · rw [checked] at largest
    rw [largest, width]

/-- A cycle installs the recorded placement, with one entry for each layer, exactly if the maps are
not only recorded and every layer changes. -/
theorem cycleUpdates_iff (ready : Ready config old weight world) : CycleUpdates config old new weight world ↔
      config.recording = false ∧ (∀ l, LayerChanges (old.expert l) (new l)) ∧ ∃ l r s,
        new l r s + 1 = old.experts :=
  ⟨changes_of_cycleUpdates ready, fun ⟨applied, layer, last⟩ =>
    cycleUpdates_of_changes ready applied layer last⟩

end

def eplbConfig : EplbConfig := ⟨10, 5, false⟩

section
variable (p : Placement layers ranks slots) (log2phy : Fin ranks → Fin layers → Option (List Nat))

def loadedWorld (r : Fin ranks) : RankState layers ranks Nat where
  adaptor := loadedAdaptor p (log2phy r) r
  loader := .waiting
  updatedLog2phyMap := []
  curIterations := 14
  updateInfoAll := []
  blockUpdateQ := none

theorem loadedWorld_ready (agrees : ∀ r l list, log2phy r l = some list → Log2phyAgrees list (p.expert l)) :
    Ready eplbConfig p (fun _ => id) (loadedWorld p log2phy) where
  waiting _ := rfl
  iterations _ := rfl
  buffers r := loadedAdaptor_buffers p (log2phy r) r
  agrees r l := { toHolds := loadedAdaptor_holds p (log2phy r) l r, log2phy := agrees r l }

end

theorem Log2phyAgrees.of_get (length : log2phy.length = (hosted rows).card)
    (each : ∀ i : Fin log2phy.length, ∃ r s, rows r s = i.val ∧
      log2phy.get i = s.val + r.val * slots) : Log2phyAgrees log2phy rows := by
  refine ⟨length, fun e id found => ?_⟩
  obtain ⟨inside, rfl⟩ := List.getElem_of_getElem? found
  exact each ⟨e, inside⟩

def pairLog2phy : Fin 2 → List Nat := ![[0, 1, 3], [0, 2, 3]]

theorem pairWorld_ready : Ready eplbConfig pairPlacement (fun _ => id)
    (loadedWorld pairPlacement fun r _ => some (pairLog2phy r)) := by
  apply loadedWorld_ready
  intro r l list found
  have each : ∀ l r, Log2phyAgrees (pairLog2phy r) (pairPlacement.expert l) :=
    Fin.forall_fin_one.mpr (Fin.forall_fin_two.mpr
      ⟨.of_get (by decide) (by decide), .of_get (by decide) (by decide)⟩)
  exact Option.some.inj found ▸ each l r

/-- The exchange of experts 0 and 2 in a single layer is carried out. -/
theorem pairWorld_cycleUpdates : CycleUpdates eplbConfig pairPlacement
    (singleLayer ![![2, 1], ![1, 0]]) (fun _ => id)
      (loadedWorld pairPlacement fun r _ => some (pairLog2phy r)) :=
  (cycleUpdates_iff pairWorld_ready).mpr
    ⟨rfl, Fin.forall_fin_one.mpr ⟨by decide, by decide, by decide, by decide⟩, by decide⟩

def twoLayers : Placement 2 2 1 where
  experts := 2
  expert _ r _ := r.val
  expert_lt := by decide
  distinct := by decide

def secondLayerSwapped : ExpertTable 2 2 1 := ![fun r _ => r.val, fun r _ => 1 - r.val]

/-- The layer without an update gets two entries. The updator takes both of them, and the second
layer never gets the update that the worker has recorded. -/
theorem secondLayerSwapped_not_cycleUpdates :
    (∃ maps packed, doUpdate twoLayers secondLayerSwapped 0 = .ok (maps, packed) ∧
      packed.map (·.layerId) = [0, 0, 1]) ∧
      ¬ CycleUpdates eplbConfig twoLayers secondLayerSwapped (fun _ => id)
        (loadedWorld twoLayers fun _ _ => some [0, 1]) := by
  refine ⟨⟨_, _, rfl, rfl⟩, fun updates => ?_⟩
  have ready : Ready eplbConfig twoLayers (fun _ => id) (loadedWorld twoLayers fun _ _ => some [0, 1]) := by
    apply loadedWorld_ready
    intro r l list found
    have agrees : ∀ l, Log2phyAgrees [0, 1] (twoLayers.expert l) :=
      Fin.forall_fin_two.mpr ⟨.of_get (by decide) (by decide), .of_get (by decide) (by decide)⟩
    exact Option.some.inj found ▸ agrees l
  exact ((changes_of_cycleUpdates ready updates).2.1 0).changed rfl

end TurboQuant.Ascend.Eplb
