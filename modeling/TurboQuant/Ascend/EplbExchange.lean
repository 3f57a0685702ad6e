import TurboQuant.Ascend.EplbLoader
import Mathlib.Data.Fin.VecNotation

/-!
The exchange of a layer.
-/

namespace TurboQuant.Ascend.Eplb
open Channels Outcome List Nat Bool Function

variable {layers ls ranks rs slots : Nat} {α : Type} {e : Nat} {columns : Nat} {r : Fin rs}

theorem mem_whereEntries {holds : Fin rs → Nat → Bool} :
    (r, e) ∈ whereEntries columns holds ↔ e < columns ∧ holds r e := by
  simp [whereEntries]

theorem with_whereEntries (columns : Nat) (holds : Fin ranks → Nat → Bool) (r : Fin ranks) :
    with_ r (whereEntries columns holds) = (range columns).filter (holds r) := by
  have rs : ∀ rs : List (Fin ranks), rs.Nodup →
      with_ r (rs.flatMap fun r => ((range columns).filter (holds r)).map fun e => (r, e)) =
        if r ∈ rs then (range columns).filter (holds r) else [] := by
    intro rs nodup
    induction rs with
    | nil => rfl
    | cons row rest ih =>
      rw [nodup_cons] at nodup
      rw [flatMap_cons, with_append, ih nodup.2]
      by_cases same : row = r
      · subst same
        simp [with_, nodup.1, filter_map, comp_def]
      · simp [with_, same, Ne.symm same, filter_map, comp_def]
  rw [whereEntries, rs _ (nodup_finRange ranks), if_pos (mem_finRange r)]

theorem entry_eq {maps : ExpertMaps ls rs} (lt : e < maps.experts) (l : Fin ls) (r : Fin rs) :
    maps.entry l r e = maps.slot l r e := by
  unfold ExpertMaps.entry
  split
  · rw [show e = 0 by omega]
  · rfl

variable {src : Fin rs}

section

variable {up cur : ExpertMaps ls rs} {l : Fin ls}

variable {mail m : Mail (Fin rs) Nat} {recv : Fin rs × Nat}

def Planned (done : List (Fin ranks × Nat)) (from_ : Fin ranks → Nat → Prop)
    (mail : Mail (Fin ranks) Nat) : Prop :=
  mail.InOrder ∧ (∀ r, (mail.receives r).map Prod.snd = with_ r done) ∧ ∀ r,
    ∀ entry ∈ mail.receives r, from_ entry.1 entry.2

theorem Planned.post {done : List (Fin rs × Nat)} {from_ : Fin rs → Nat → Prop}
    (planned : Planned done from_ m) (hosts : from_ src recv.2) :
    Planned (done ++ [recv]) from_ (m.post ⟨src, recv.1, recv.2⟩) := by
  obtain ⟨inOrder, xs, sources⟩ := planned
  refine ⟨inOrder.post _, ?_, ?_⟩
  · intro r
    rw [Mail.post_receives, map_append, xs, with_append, show [recv] = [(recv.1, recv.2)] from rfl,
      with_single]
    congr 1
    split <;> rfl
  · intro r e mem
    rw [Mail.post_receives, mem_append] at mem
    rcases mem with earlier | new
    · exact sources r e earlier
    · split at new
      · obtain rfl := mem_singleton.mp new
        exact hosts
      · cases new

theorem srcRank_hosts
    (found : srcRank cur l (expertsToSend up cur l columns) e = .ok src) :
    (cur.entry l src e).isSome ∨ (cur.slot l src e).isSome := by
  obtain ⟨candidates, listed, found⟩ := bind_ok found
  have mem : src ∈ candidates := by
    cases first : candidates.head? with
    | none =>
      rw [first] at found
      cases found
    | some r =>
      rw [first] at found
      rw [← Except.ok.inj found]
      exact mem_of_mem_head? first
  unfold candidateSrcRanks at listed
  split at listed
  · rw [← Except.ok.inj listed, mem_map] at mem
    obtain ⟨entry, kept, rfl⟩ := mem
    obtain ⟨sent, same⟩ := mem_filter.mp kept
    rw [← beq_iff_eq.mp same]
    have holds := (mem_whereEntries.mp (show (entry.1, entry.2) ∈ _ from sent)).2
    exact .inl (and_eq_true _ _ ▸ holds).1
  · split at listed
    · cases listed
    · rw [← Except.ok.inj listed] at mem
      exact .inr (mem_filter.mp mem).2

theorem srcRank_total (toSend : List (Fin rs × Nat)) (lt : e < cur.experts)
    (hosts : (cur.slot l r e).isSome) : ∃ src, srcRank cur l toSend e = .ok src := by
  have nonempty : ∃ cs, candidateSrcRanks cur l toSend e = .ok cs ∧ cs ≠ [] := by
    unfold candidateSrcRanks
    split
    · rename_i sent
      obtain ⟨entry, mem, same⟩ := mem_map.mp sent
      refine ⟨_, rfl, ne_nil_of_mem (mem_map_of_mem (mem_filter.mpr ⟨mem, ?_⟩))⟩
      exact beq_iff_eq.mpr same
    · rw [if_neg (by omega)]
      exact ⟨_, rfl, ne_nil_of_mem (mem_filter.mpr ⟨mem_finRange r, hosts⟩)⟩
  obtain ⟨cs, listed, nonempty⟩ := nonempty
  obtain ⟨src, rest, rfl⟩ := exists_cons_of_ne_nil nonempty
  refine ⟨src, ?_⟩
  rw [srcRank, listed, ok_bind]
  rfl

def Hosts (current : ExpertMaps layers ranks) (l : Fin layers) (src : Fin ranks) (e : Nat) : Prop :=
  (current.entry l src e).isSome ∨ (current.slot l src e).isSome

theorem exchange_planned (ran : exchange up cur l = .ok mail) : ∃ columns, cur.broadcast up = .ok columns ∧
      Planned (expertsToRecv up cur l columns) (Hosts cur l) mail := by
  obtain ⟨columns, width, ran⟩ := bind_ok ran
  refine ⟨columns, width, ?_⟩
  have each : ∀ done recv rest mail, expertsToRecv up cur l columns = done ++ recv :: rest →
      Planned done (Hosts cur l) mail →
      (∃ e, exchangeStep cur l (expertsToSend up cur l columns) mail recv = .error e ∧ True) ∨
        ∃ mail', exchangeStep cur l (expertsToSend up cur l columns) mail recv = .ok mail' ∧
          Planned (done ++ [recv]) (Hosts cur l) mail' := by
    intro done recv rest mail _ planned
    cases step : exchangeStep cur l (expertsToSend up cur l columns) mail recv with
    | error e => exact .inl ⟨e, rfl, trivial⟩
    | ok mail' =>
      obtain ⟨src, found, step⟩ := bind_ok step
      obtain rfl := (Except.ok.inj step).symm
      exact .inr ⟨_, rfl, planned.post (srcRank_hosts found)⟩
  have start : Planned [] (Hosts cur l) Mail.empty :=
    ⟨fun _ _ => rfl, fun _ => rfl, fun _ _ mem => absurd mem not_mem_nil⟩
  rcases foldlM_total (fun done mail => Planned done (Hosts cur l) mail) (fun _ => True) each start with
    ⟨e, failed, -⟩ | ⟨mail', ended, planned⟩
  · rw [ran] at failed
    cases failed
  · rw [ran] at ended
    rwa [Except.ok.inj ended]

theorem exchange_total (width : up.experts = cur.experts)
    (sources : ∀ r e, e < cur.experts → (up.slot l r e).isSome → ∃ src, (cur.slot l src e).isSome) :
    ∃ mail, exchange up cur l = .ok mail := by
  have columns : cur.broadcast up = .ok cur.experts := if_pos width.symm
  have each : ∀ done recv rest mail, expertsToRecv up cur l cur.experts = done ++ recv :: rest → True →
      (∃ e, exchangeStep cur l (expertsToSend up cur l cur.experts) mail recv = .error e ∧ False) ∨
        ∃ mail', exchangeStep cur l (expertsToSend up cur l cur.experts) mail recv = .ok mail' ∧ True := by
    intro done recv rest mail whole _
    have mem : (recv.1, recv.2) ∈ expertsToRecv up cur l cur.experts := by
      rw [whole]
      exact mem_append_right _ mem_cons_self
    obtain ⟨lt, holds⟩ := mem_whereEntries.mp mem
    rw [and_eq_true, entry_eq (width ▸ lt : recv.2 < up.experts)] at holds
    obtain ⟨src, hosts⟩ := sources recv.1 recv.2 lt holds.2
    obtain ⟨first, found⟩ := srcRank_total (expertsToSend up cur l cur.experts) lt hosts
    refine .inr ⟨mail.post ⟨first, recv.1, recv.2⟩, ?_, trivial⟩
    rw [exchangeStep, found, ok_bind]
  rcases foldlM_total (fun _ _ => True) (fun _ => False) each trivial with ⟨_, _, stuck⟩ | ⟨mail, ended, -⟩
  · exact stuck.elim
  refine ⟨mail, ?_⟩
  rwa [exchange, columns, ok_bind]

end

def NewlyHosted (old new : Fin slots → Nat) (e : Nat) : Prop := (∃ s, new s = e) ∧ ∀ s, old s ≠ e

/-- Every newly hosted expert is received once, every receive is from a rank that hosts the expert
now, and for each ordered pair of ranks the sends are the receives in the same order. -/
structure CompleteExchange (old new : Fin ranks → Fin slots → Nat) (mail : Mail (Fin ranks) Nat) : Prop where
  once : ∀ r e, NewlyHosted (old r) (new r) e → ((mail.receives r).map Prod.snd).count e = 1
  hosted : ∀ r, ∀ entry ∈ mail.receives r, ∃ s, old entry.1 s = entry.2
  inOrder : mail.InOrder

variable {m : Mail (Fin rs) Nat}

theorem CompleteExchange.mem_hosted_old {old new : Fin rs → Fin slots → Nat}
    (complete : CompleteExchange old new m) (r : Fin rs) (s : Fin slots) : new r s ∈ Eplb.hosted old := by
  by_cases newly : NewlyHosted (old r) (new r) (new r s)
  · have one := complete.once r _ newly
    have mem : new r s ∈ (m.receives r).map Prod.snd := count_pos_iff.mp (by omega)
    obtain ⟨e, received, same⟩ := mem_map.mp mem
    obtain ⟨t, here⟩ := complete.hosted r e received
    exact mem_hosted.mpr ⟨e.1, t, here.trans same⟩
  · by_contra absent
    exact newly ⟨⟨s, rfl⟩, fun t same => absent (mem_hosted.mpr ⟨r, t, same⟩)⟩

section

variable {old new : ExpertTable ls rs slots} {experts es : Nat} {l : Fin ls}

def receivedExperts (experts : Nat) (old new : Fin slots → Nat) : List Nat :=
  (range experts).filter fun e => (slotOf old e).isNone && (slotOf new e).isSome

theorem mem_receivedExperts {old new : Fin slots → Nat} (lt : ∀ s, new s < es) :
    e ∈ receivedExperts es old new ↔ NewlyHosted old new e := by
  rw [receivedExperts, mem_filter, mem_range, and_eq_true, slotOf_isSome, Option.isNone_iff_eq_none,
    slotOf_eq_none]
  constructor
  · exact fun ⟨_, absent, present⟩ => ⟨present, absent⟩
  · intro newly
    obtain ⟨s, same⟩ := newly.1
    exact ⟨same ▸ lt s, newly.2, newly.1⟩

theorem nodup_receivedExperts (old new : Fin slots → Nat) : (receivedExperts es old new).Nodup :=
  nodup_range.filter _

theorem length_receivedExperts {old new : Fin slots → Nat} (lt : ∀ s, new s < es) :
    (receivedExperts es old new).length ≤ slots := by
  rw [← toFinset_card_of_nodup (nodup_receivedExperts old new)]
  calc (receivedExperts es old new).toFinset.card ≤ (Finset.univ.image new).card := by
        apply Finset.card_le_card
        intro e mem
        obtain ⟨s, same⟩ := ((mem_receivedExperts lt).mp (mem_toFinset.mp mem)).1
        exact Finset.mem_image.mpr ⟨s, Finset.mem_univ s, same⟩
    _ ≤ slots := Finset.card_image_le.trans (by simp)

theorem exchange_tables
    (ran : exchange (tableMaps experts new) (tableMaps experts old) l = .ok m) :
    m.InOrder ∧ (∀ r, (m.receives r).map Prod.snd = receivedExperts experts (old l r) (new l r)) ∧
      ∀ r, ∀ entry ∈ m.receives r, ∃ s, old l entry.1 s = entry.2 := by
  obtain ⟨columns, width, inOrder, xs, sources⟩ := exchange_planned ran
  obtain rfl : experts = columns := Except.ok.inj ((if_pos rfl).symm.trans width)
  have received : ∀ r, (m.receives r).map Prod.snd = receivedExperts experts (old l r) (new l r) := by
    intro r
    rw [xs, expertsToRecv, with_whereEntries, receivedExperts]
    apply filter_congr
    intro e mem
    have lt := mem_range.mp mem
    rw [entry_eq lt, entry_eq lt]
    rfl
  refine ⟨inOrder, received, fun r entry mem => ?_⟩
  have lt : entry.2 < experts := by
    have x : entry.2 ∈ (m.receives r).map Prod.snd := mem_map_of_mem mem
    rw [received] at x
    exact mem_range.mp (mem_filter.mp x).1
  rcases sources r entry mem with here | here
  · rw [entry_eq lt] at here
    exact slotOf_isSome.mp here
  · exact slotOf_isSome.mp here

theorem CompleteExchange.of_tables {mail : Mail (Fin rs) Nat} (lt : ∀ r s, new l r s < es)
    (ran : exchange (tableMaps es new) (tableMaps es old) l = .ok mail) :
    CompleteExchange (old l) (new l) mail := by
  obtain ⟨inOrder, xs, sources⟩ := exchange_tables ran
  refine ⟨fun r e newly => ?_, sources, inOrder⟩
  rw [xs]
  exact count_eq_one_of_mem (nodup_receivedExperts _ _) ((mem_receivedExperts (lt r)).mpr newly)

end

structure Adaptor.Holds (a : Adaptor layers α) (l : Fin layers) (experts : Nat)
    (row : Fin slots → Nat) (weight : Nat → α) : Prop where
  map : a.expertMapPerLayerCpu l = (range experts).map (slotOf row)
  params : a.expertParamPerLayer l = ofFn fun s => weight (row s)

theorem getItem_ok {xs : List α} {i : Nat} {x : α} (found : xs[i]? = some x) : getItem xs i = .ok x := by
  rw [getItem, found]

theorem getItem_mapRow {row : Fin slots → Nat} {es e : Nat} (lt : e < es) :
    getItem ((range es).map (slotOf row)) e = .ok (slotOf row e) :=
  getItem_ok (by rw [getElem?_map, getElem?_range lt]; rfl)

section

variable {row : Fin slots → Nat} {w : Nat → α} {es : Nat} {l : Fin ls} {a : Adaptor ls α}

theorem sendOp_eq (holds : a.Holds l es row w) (nodup : Injective row)
    (lt : ∀ s, row s < es) (dst : Fin rs) (hosts : ∃ s, row s = e) : sendOp a l (dst, e) = .ok (dst, w e) := by
  obtain ⟨s, rfl⟩ := hosts
  rw [sendOp, holds.map, getItem_mapRow (lt s), ok_bind, (slotOf_eq_some nodup).mpr ⟨s, rfl, rfl⟩,
    holds.params]
  rw [getItem_ok (x := w (row s)) (by simp [place]), ok_bind]

theorem recvOp_eq {recv : (Fin rs × Nat) × Nat} (buffer : recv.2 < a.bufferTensorList.length)
    (lt : recv.1.2 < es) :
      recvOp a ((range es).map (slotOf row)) recv = .ok (slotOf row recv.1.2, recv.2) := by
  rw [recvOp, getItem_ok (getElem?_eq_getElem buffer), ok_bind, getItem_mapRow lt, ok_bind]

theorem foldlM_land (filled xs rest : List α) (room : xs.length ≤ rest.length) :
    ((range' filled.length xs.length).zip (xs.map some)).foldlM land (filled ++ rest) =
      .ok (filled ++ xs ++ rest.drop xs.length) := by
  induction xs generalizing filled rest with
  | nil => simp [pure, Except.pure]
  | cons x xs ih =>
    obtain ⟨old, rest, rfl⟩ := exists_cons_of_ne_nil (ne_nil_of_length_pos (lt_of_lt_of_le (succ_pos _) room))
    rw [length_cons, range'_succ, map_cons, zip_cons_cons, foldlM_cons]
    have first : land (filled ++ old :: rest) (filled.length, some x) = .ok ((filled ++ [x]) ++ rest) := by
      simp [land, setItem]
    have next := ih (filled ++ [x]) rest (by simpa using room)
    rw [length_append, length_singleton] at next
    rw [first, ok_bind, next]
    simp

theorem foldlM_updateExpertWeight (w : Nat → α) (nodup : Injective row) {buffers : List α}
    (xs : List Nat) (k : Nat) (f : Fin slots → α) (inRow : ∀ e ∈ xs, ∃ s, row s = e)
    (buffered : ∀ i e, xs[i]? = some e → buffers[k + i]? = some (w e)) :
    ((xs.zipIdx k).map fun x => (slotOf row x.1, x.2)).foldlM (updateExpertWeight buffers) (ofFn f) =
      .ok (ofFn fun s => if row s ∈ xs then w (row s) else f s) := by
  induction xs generalizing k f with
  | nil => simp [pure, Except.pure]
  | cons e xs ih =>
    obtain ⟨s, rfl⟩ := inRow e mem_cons_self
    have first : updateExpertWeight buffers (ofFn f) (slotOf row (row s), k) =
        .ok (List.ofFn (update f s (w (row s)))) := by
      have here : getItem buffers k = .ok (w (row s)) := getItem_ok (buffered 0 (row s) rfl)
      show (getItem buffers k >>= fun tensor => setItem (ofFn f) (place _ (slotOf row (row s))) tensor) = _
      rw [here, ok_bind, (slotOf_eq_some nodup).mpr ⟨s, rfl, rfl⟩, place, setItem, if_pos (by simp)]
      congr 1
      apply ext_getElem (by simp)
      intro i inside _
      simp only [List.getElem_set, List.getElem_ofFn, update_apply, Fin.ext_iff, eq_comm]
    have next := ih (k + 1) (update f s (w (row s))) (fun e mem => inRow e (mem_cons_of_mem _ mem))
      (fun i e found => by rw [add_assoc, add_comm 1]; exact buffered (i + 1) e found)
    rw [zipIdx_cons, map_cons, foldlM_cons, first, ok_bind, next]
    congr 2
    funext t
    by_cases same : t = s
    · subst same
      simp
    · have other : row t ≠ row s := fun equal => same (nodup equal)
      simp [same, other]

end

def exchangeWeights (maps : ExpertMaps layers ranks) (mail : Mail (Fin ranks) Nat) (l : Fin layers)
    (adaptors : Fin ranks → Adaptor layers α) : Except EplbError (Fin ranks → List α) := do
  let tasks ← gather fun r =>
    transferTask (adaptors r) (mail.sends r) (mail.receives r) ((range maps.experts).map (maps.slot l r)) l
  gather fun r => do
    let buffers ← landAll (fun src => (tasks src).sends) r (adaptors r).bufferTensorList (tasks r).receives
    updateExpertWeights buffers ((adaptors r).expertParamPerLayer l) (tasks r).recvExpertList

section

variable {old new : ExpertTable ls rs slots} {experts es : Nat} {l : Fin ls} {w : Nat → α}
  {adaptors : Fin rs → Adaptor ls α}

def plannedTask (experts : Nat) (new : ExpertTable layers ranks slots) (l : Fin layers) (weight : Nat → α)
    (mail : Mail (Fin ranks) Nat) (r : Fin ranks) : TransferTask layers ranks α where
  layerId := l
  updatedExpertMap := (range experts).map (slotOf (new l r))
  sends := (mail.sends r).map fun entry => (entry.1, weight entry.2)
  receives := (mail.receives r).zipIdx.map fun recv => (recv.1.1, recv.2)
  recvExpertList := (mail.receives r).zipIdx.map fun recv => (slotOf (new l r) recv.1.2, recv.2)

theorem hosts_of_mem_sends (inOrder : m.InOrder)
    (sources : ∀ r, ∀ e ∈ m.receives r, ∃ s, old l e.1 s = e.2) {e : Fin rs × Nat}
    (mem : e ∈ m.sends src) : ∃ s, old l src s = e.2 := by
  have sent : e.2 ∈ with_ e.1 (m.sends src) :=
    mem_map_of_mem (mem_filter.mpr ⟨mem, decide_eq_true rfl⟩)
  rw [inOrder, with_, mem_map] at sent
  obtain ⟨received, kept, same⟩ := sent
  obtain ⟨mem, source⟩ := mem_filter.mp kept
  rw [← same, ← of_decide_eq_true source]
  exact sources e.1 received mem

def landed (weight : Nat → α) (receives : List (Fin ranks × Nat)) (buffers : List α) : List α :=
  (receives.map fun entry => weight entry.2) ++ buffers.drop receives.length

section
variable (ran : exchange (tableMaps es new) (tableMaps es old) l = .ok m)
include ran

theorem length_receives (lt : ∀ r s, new l r s < es) (r : Fin rs) : (m.receives r).length ≤ slots := by
  obtain ⟨-, xs, -⟩ := exchange_tables ran
  rw [← length_map (f := Prod.snd), xs]
  exact length_receivedExperts (lt r)

variable (nodup : ∀ r, Injective (old l r)) (ltOld : ∀ r s, old l r s < es) (lt : ∀ r s, new l r s < es)
  (holds : ∀ r, (adaptors r).Holds l es (old l r) w) (buffers : ∀ r,
    (adaptors r).bufferTensorList.length = slots)
include nodup ltOld lt holds buffers

theorem transferTask_eq (r : Fin rs) :
    transferTask (adaptors r) (m.sends r) (m.receives r) ((range es).map (slotOf (new l r))) l =
      .ok (plannedTask es new l w m r) := by
  obtain ⟨inOrder, xs, sources⟩ := exchange_tables ran
  have count := length_receives ran lt r
  have sends : (m.sends r).mapM (sendOp (adaptors r) l) = .ok ((m.sends r).map fun e => (e.1, w e.2)) :=
    mapM_ok _ fun e mem =>
      sendOp_eq (holds r) (nodup r) (ltOld r) e.1 (hosts_of_mem_sends inOrder sources mem)
  have replaced : (m.receives r).zipIdx.mapM (recvOp (adaptors r) ((range es).map (slotOf (new l r)))) =
      .ok ((m.receives r).zipIdx.map fun recv => (slotOf (new l r) recv.1.2, recv.2)) := by
    apply mapM_ok
    intro recv mem
    have at_ := mk_mem_zipIdx_iff_getElem?.mp (show (recv.1, recv.2) ∈ _ from mem)
    have inside := (List.getElem_of_getElem? at_).1
    have x : recv.1.2 ∈ (m.receives r).map Prod.snd := mem_map_of_mem (mem_of_getElem? at_)
    rw [xs] at x
    exact recvOp_eq (by rw [buffers]; omega) (mem_range.mp (mem_filter.mp x).1)
  rw [transferTask, sends, ok_bind, replaced, ok_bind]
  rfl

omit ran nodup ltOld lt holds buffers in
theorem landAll_eq (inOrder : m.InOrder) (r : Fin rs) (buffers : List α)
    (room : (m.receives r).length ≤ buffers.length) :
    landAll (fun src => (plannedTask es new l w m src).sends) r buffers
        (plannedTask es new l w m r).receives = .ok (landed w (m.receives r) buffers) := by
  have sources : (plannedTask es new l w m r).receives.map Prod.fst =
      ((m.receives r).map fun e => (e.1, w e.2)).map Prod.fst := by
    simp only [plannedTask, map_map]
    rw [← zipIdx_map_fst 0 (m.receives r), map_map]
    simp [zipIdx_map_fst, comp_def]
  have places : (plannedTask es new l w m r).receives.map Prod.snd = range' 0 (m.receives r).length := by
    rw [← zipIdx_map_snd, plannedTask, map_map]
    rfl
  have arrived : arrivals (fun src => (plannedTask es new l w m src).sends) r
      (((m.receives r).map fun e => (e.1, w e.2)).map Prod.fst) =
      ((m.receives r).map fun e => w e.2).map some := by
    rw [arrivals_of_inOrder]
    · simp only [map_map, comp_def]
    · intro src
      rw [with_map, ← inOrder src r]
      exact with_map w r (m.sends src)
  have filled := foldlM_land [] ((m.receives r).map fun e => w e.2) buffers (by simpa using room)
  rw [landAll, sources, places, arrived]
  simpa [landed] using filled

omit nodup ltOld holds buffers in
theorem updateExpertWeights_eq (r : Fin rs) (nodup : Injective (new l r))
    (noMovement : NoMovement (old l r) (new l r)) (buffers : List α) :
    updateExpertWeights (landed w (m.receives r) buffers) (ofFn fun s => w (old l r s))
        (plannedTask es new l w m r).recvExpertList = .ok (ofFn fun s => w (new l r s)) := by
  obtain ⟨-, xs, -⟩ := exchange_tables ran
  have received : ∀ e, e ∈ receivedExperts es (old l r) (new l r) ↔ NewlyHosted (old l r) (new l r) e :=
    fun _ => mem_receivedExperts (lt r)
  have replaced : (plannedTask es new l w m r).recvExpertList =
      (((m.receives r).map Prod.snd).zipIdx).map fun x => (slotOf (new l r) x.1, x.2) := by
    simp only [plannedTask, zipIdx_map, map_map]
    rfl
  rw [updateExpertWeights, replaced, foldlM_updateExpertWeight w nodup]
  · congr 2
    funext s
    rw [xs]
    by_cases newly : NewlyHosted (old l r) (new l r) (new l r s)
    · rw [if_pos ((received _).mpr newly)]
    · rw [if_neg fun mem => newly ((received _).mp mem)]
      have kept : ∃ t, old l r t = new l r s := by
        by_contra absent
        exact newly ⟨⟨s, rfl⟩, fun t same => absent ⟨t, same⟩⟩
      obtain ⟨t, same⟩ := kept
      rw [noMovement s (Finset.mem_image.mpr ⟨t, Finset.mem_univ t, same⟩)]
  · intro e mem
    rw [xs] at mem
    exact ((received e).mp mem).1
  · intro i e found
    rw [zero_add, landed, List.getElem?_append_left (by simpa using (List.getElem_of_getElem? found).1)]
    rw [getElem?_map] at found ⊢
    obtain ⟨entry, at_, rfl⟩ := Option.map_eq_some_iff.mp found
    rw [at_]
    rfl

theorem exchangeWeights_eq (passed : ∀ r, Injective (new l r) ∧ NoMovement (old l r) (new l r)) :
    exchangeWeights (tableMaps es new) m l adaptors = .ok fun r => ofFn fun s => w (new l r s) := by
  have tasks := gather_ok.mpr fun r => transferTask_eq ran nodup ltOld lt holds buffers r
  show (gather _ >>= _) = _
  rw [show (gather fun r => transferTask (adaptors r) (m.sends r) (m.receives r)
      ((range (tableMaps es new).experts).map ((tableMaps es new).slot l r)) l) = _ from tasks, ok_bind]
  apply gather_ok.mpr
  intro r
  have room : (m.receives r).length ≤ (adaptors r).bufferTensorList.length := by
    rw [buffers]
    exact length_receives ran lt r
  rw [landAll_eq (exchange_tables ran).1 r _ room, ok_bind, (holds r).params]
  exact updateExpertWeights_eq ran lt r (passed r).1 (passed r).2 _

end

end

/-- The exchange of every layer: the plan exists and is complete, and carrying it out gives every
slot of every rank the expert of the new placement. -/
def ExchangesComplete (old : Placement layers ranks slots) (new : ExpertTable layers ranks slots)
    (weight : Fin layers → Nat → α) (adaptors : Fin ranks → Adaptor layers α) : Prop :=
  ∃ maps, local2global new = .ok maps ∧ ∀ l, ∃ mail, exchange maps old.maps l = .ok mail ∧
    CompleteExchange (old.expert l) (new l) mail ∧
    exchangeWeights maps mail l adaptors = .ok fun r => ofFn fun s => weight l (new l r s)

section

variable {old : Placement ls rs slots} {new : ExpertTable ls rs slots} {weight w : Fin ls → Nat → α}
  {adaptors : Fin rs → Adaptor ls α}

theorem ExchangesComplete.hosted (complete : ExchangesComplete old new w adaptors) (l : Fin ls) (r : Fin rs)
    (s : Fin slots) : new l r s ∈ hosted (old.expert l) := by
  obtain ⟨maps, -, each⟩ := complete
  obtain ⟨m, -, complete, -⟩ := each l
  exact complete.mem_hosted_old r s

theorem ne_zero_of_complete {l : Fin ls}
    (ran : exchange (tableMaps 1 new) old.maps l = .ok m)
    (complete : CompleteExchange (old.expert l) (new l) m)
    (passed : passesCheck (old.expert l) (new l)) (wide : 1 < old.experts) (zero : ∀ r s, new l r s = 0)
    (hostedZero : 0 ∈ hosted (old.expert l)) (r : Fin rs) (s : Fin slots) : False := by
  have single : ∀ e ∈ hosted (old.expert l), e = 0 := by
    have small : (hosted (new l)).card ≤ 1 := by
      apply Finset.card_le_one.mpr
      intro a inA b inB
      obtain ⟨_, _, rfl⟩ := mem_hosted.mp inA
      obtain ⟨_, _, rfl⟩ := mem_hosted.mp inB
      rw [zero, zero]
    intro e mem
    exact Finset.card_le_one.mp ((passesCheck_iff.mp passed).1.trans small) e mem 0 hostedZero
  obtain ⟨columns, width, -, xs, -⟩ := exchange_planned ran
  obtain rfl : old.experts = columns := by
    have one : (tableMaps 1 new).experts = 1 := rfl
    rw [ExpertMaps.broadcast, if_neg, if_neg, if_pos one] at width
    · exact Except.ok.inj width
    · exact ne_of_gt wide
    · exact ne_of_gt wide
  have absent : slotOf (old.expert l r) 1 = none :=
    slotOf_eq_none.mpr fun t same => one_ne_zero (single 1 (mem_hosted.mpr ⟨r, t, same⟩))
  have present : (slotOf (new l r) 0).isSome := slotOf_isSome.mpr ⟨s, zero r s⟩
  have received : 1 ∈ (m.receives r).map Prod.snd := by
    rw [xs, expertsToRecv, with_whereEntries, mem_filter, mem_range,
      entry_eq (show 1 < old.maps.experts from wide)]
    exact ⟨wide, by rw [and_eq_true]; exact ⟨by rw [Option.isNone_iff_eq_none]; exact absent, present⟩⟩
  obtain ⟨entry, mem, same⟩ := mem_map.mp received
  obtain ⟨t, here⟩ := complete.hosted r entry mem
  exact one_ne_zero (single 1 (mem_hosted.mpr ⟨entry.1, t, here.trans same⟩))

theorem lt_of_hosted (host : ∀ l r s, new l r s ∈ hosted (old.expert l)) (l : Fin ls) (r : Fin rs)
    (s : Fin slots) : new l r s < old.experts := by
  obtain ⟨r', s', same⟩ := mem_hosted.mp (host l r s)
  exact same ▸ old.expert_lt l r' s'

theorem ExchangesComplete.width (complete : ExchangesComplete old new w adaptors)
    (passed : ∀ l, passesCheck (old.expert l) (new l)) : ∃ l r s, new l r s + 1 = old.experts := by
  have host := complete.hosted
  obtain ⟨maps, made, each⟩ := complete
  obtain ⟨e, rfl, ⟨l, r, s, largest⟩, bound⟩ := local2global_ok.mp made
  refine ⟨l, r, s, ?_⟩
  obtain ⟨m, ran, complete, -⟩ := each l
  have within := lt_of_hosted host l r s
  obtain ⟨columns, width, -⟩ := exchange_planned ran
  unfold ExpertMaps.broadcast at width
  split at width
  · rename_i same
    rw [largest]
    exact same.symm
  · rename_i ne
    change ¬ old.experts = e + 1 at ne
    split at width
    · rename_i one
      change old.experts = 1 at one
      omega
    · split at width
      · rename_i one
        obtain rfl : e = 0 := succ.inj one
        have zero : ∀ r s, new l r s = 0 := fun r s => le_zero.mp (bound l r s)
        exact (ne_zero_of_complete ran complete (passed l) (by omega) zero (zero r s ▸ host l r s) r s).elim
      · cases width

theorem local2global_eq (lt : ∀ l r s, new l r s < old.experts) (last : ∃ l r s, new l r s + 1 = old.experts) :
    local2global new = .ok (tableMaps old.experts new) := by
  obtain ⟨l₀, r₀, s₀, last⟩ := last
  rw [← last]
  exact local2global_ok.mpr ⟨_, rfl, ⟨l₀, r₀, s₀, rfl⟩, fun l r s => by have := lt l r s; omega⟩

theorem exchange_of_hosted (host : ∀ l r s, new l r s ∈ hosted (old.expert l)) (l : Fin ls) :
    ∃ mail, exchange (tableMaps old.experts new) old.maps l = .ok mail := by
  have sources : ∀ r e, e < old.experts → ((tableMaps old.experts new).slot l r e).isSome →
      ∃ src, (old.maps.slot l src e).isSome := by
    intro r e _ present
    obtain ⟨s, rfl⟩ := slotOf_isSome.mp present
    obtain ⟨src, t, same⟩ := mem_hosted.mp (host l r s)
    exact ⟨src, slotOf_isSome.mpr ⟨t, same⟩⟩
  exact exchange_total rfl sources

/-- The exchanges of all layers are complete exactly if the new placement has only experts that some
rank hosts in that layer now, and the last expert is placed in some layer. -/
theorem exchangesComplete_iff (passed : ∀ l, passesCheck (old.expert l) (new l))
    (holds : ∀ l r, (adaptors r).Holds l old.experts (old.expert l r) (weight l))
    (buffers : ∀ r, (adaptors r).bufferTensorList.length = slots) : ExchangesComplete old new weight adaptors ↔
      (∀ l r s, new l r s ∈ hosted (old.expert l)) ∧ ∃ l r s, new l r s + 1 = old.experts := by
  constructor
  · intro complete
    exact ⟨complete.hosted, complete.width passed⟩
  · rintro ⟨host, last⟩
    have lt := lt_of_hosted host
    refine ⟨_, local2global_eq lt last, fun l => ?_⟩
    obtain ⟨mail, ran⟩ := exchange_of_hosted host l
    have each := (passesCheck_iff.mp (passed l)).2
    exact ⟨mail, ran, .of_tables (lt l) ran,
      exchangeWeights_eq ran (old.distinct l) (old.expert_lt l) (lt l) (holds l) buffers each⟩

end

def loadedAdaptor (p : Placement layers ranks slots) (log2phy : Fin layers → Option (List Nat))
    (r : Fin ranks) : Adaptor layers Nat where
  expertMapPerLayerCpu l := (range p.experts).map (slotOf (p.expert l r))
  expertParamPerLayer l := ofFn (p.expert l r)
  bufferTensorList := replicate slots 0
  log2phyMapPerLayer := log2phy

section
variable (p : Placement ls rs slots) (log2phy : Fin ls → Option (List Nat))

theorem loadedAdaptor_holds (l : Fin ls) (r : Fin rs) :
    (loadedAdaptor p log2phy r).Holds l p.experts (p.expert l r) id := ⟨rfl, rfl⟩

theorem loadedAdaptor_buffers (r : Fin rs) :
    (loadedAdaptor p log2phy r).bufferTensorList.length = slots := length_replicate

end

def singleLayer (rows : Fin ranks → Fin slots → Nat) : ExpertTable 1 ranks slots := fun _ => rows

def pairPlacement : Placement 1 2 2 where
  experts := 3
  expert := singleLayer ![![0, 1], ![1, 2]]
  expert_lt := by decide
  distinct := by decide

/-- Expert 0 moves to the second rank in exchange for expert 2. -/
theorem pairPlacement_exchangesComplete : passesCheck (pairPlacement.expert 0) (![![2, 1], ![1, 0]]) ∧
      ExchangesComplete pairPlacement (singleLayer ![![2, 1], ![1, 0]]) (fun _ => id)
        (loadedAdaptor pairPlacement fun _ => none) :=
  ⟨by decide, (exchangesComplete_iff (by decide) (loadedAdaptor_holds _ _) (loadedAdaptor_buffers _
    _)).mpr (by decide)⟩

def gapPlacement : Placement 1 2 2 where
  experts := 4
  expert := singleLayer ![![0, 1], ![3, 1]]
  expert_lt := by decide
  distinct := by decide

/-- The check counts the experts of both placements. It accepts an expert that no rank hosts in the
place of one that the layer loses, and nobody can send it. -/
theorem gapPlacement_not_exchangesComplete : passesCheck (gapPlacement.expert 0) (![![0, 2], ![3, 2]]) ∧
      ¬ ExchangesComplete gapPlacement (singleLayer ![![0, 2], ![3, 2]]) (fun _ => id)
        (loadedAdaptor gapPlacement fun _ => none) :=
  ⟨by decide, fun complete => absurd (complete.hosted 0 0 1) (by decide)⟩

end TurboQuant.Ascend.Eplb
