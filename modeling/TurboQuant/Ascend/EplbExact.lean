import TurboQuant.Ascend.EplbPack
import Mathlib.Tactic.FieldSimp

/-!
The default policy in exact arithmetic.
-/

namespace TurboQuant.Ascend.Eplb
open Outcome Packing List Function Nat

theorem totalWeight_id (b : Box) : b.totalWeight id = b.weights.sum := by
  have general : ∀ (weights : List Rat) (total : Rat),
      weights.foldl (fun total weight => id (total + weight)) total = total + weights.sum := by
    intro weights
    induction weights with
    | nil => simp
    | cons weight weights ih =>
      intro total
      rw [foldl_cons, ih, sum_cons, id_eq, add_assoc]
  rw [Box.totalWeight, general, zero_add]

/-! ### Shares -/

variable {load : Rat}

variable {loads : List Load} {s : Split}

theorem curWeight_eq (nodup : (loads.map Prod.fst).Nodup) {load : Load} (mem : load ∈ loads) :
    curWeight loads load.1 = load.2 := by
  unfold curWeight
  induction loads using reverseRecOn with
  | nil => cases mem
  | append_singleton loads last ih =>
    rw [foldl_append, foldl_cons, foldl_nil]
    rw [map_append, nodup_append] at nodup
    rcases mem_append.mp mem with old | new
    · rw [if_neg fun same => nodup.2.2 _ (mem_map_of_mem old) _ (mem_singleton_self _) same.symm]
      exact ih nodup.1 old
    · rw [mem_singleton.mp new, if_pos rfl]

/-! ### A card with a replica and a card without -/

/-- What a split of loads that are not negative gives, with fewer replicas than cards. -/
structure Fair (s : Split) (es cards slots : Nat) : Prop where
  few : (redundantCopies s es).length < cards
  total : (redundantCopies s es).length + es = cards * slots
  names : (s.loads.map Prod.fst).Perm (range es)
  nonneg : ∀ a ∈ s.loads, 0 ≤ a.2
  shares : ∀ a ∈ s.loads, ∀ b ∈ s.loads, 0 < s.replicas b.1 → a.2 ≤ b.2 + b.2

/-- As long as the first card, which has a replica of weight `w`, has room, the other card has room
as well. -/
structure Racing (slots : Nat) (w : Rat) (done : List Load) (a b : Box) : Prop where
  items : b.weights.length = b.items.length
  placed : ∀ y ∈ b.weights, ∃ load ∈ done, load.2 = y
  race : ∃ as, a.weights = w :: as ∧ as.length + 1 = a.items.length ∧
    (a.items.length < slots → b.items.length < slots ∧ Race w as b.weights)

/-- The state of the loop before the next expert. -/
structure Spread (s : Split) (es cards slots : Nat) (done : List Load) (p : PackState) : Prop where
  exact_ : p.remainingItems = 0
  packed : Packed cards slots (redundantCopies s es).length (· < es) (done.map Prod.fst)
    (p.boxes.map Box.items)
  origin : ∀ (k : Nat) (c : Box), p.boxes[k]? = some c → ∀ x ∈ c.items, x ∈ done.map Prod.fst ∨
    (redundantCopies s es)[k]? = some x
  racing : ∀ (i e : Nat), (redundantCopies s es)[i]? = some e → e ∉ done.map Prod.fst → ∃ a b,
    p.boxes[i]? = some a ∧
    p.boxes[cards - 1]? = some b ∧ Racing slots (curWeight s.loads e) done a b

section
variable {es cards slots : Nat} {done rest : List Load} {load : Load} {p : PackState}

theorem Fair.last (fair : Fair s es cards slots) : (redundantCopies s es)[cards - 1]? = none := by
  have few := fair.few
  exact getElem?_eq_none (by omega)

theorem Fair.sorted (fair : Fair s es cards slots) : ((sortedByLoad s.loads).map Prod.fst).Perm (range es) :=
  ((sortedByLoad_perm s.loads).map Prod.fst).trans fair.names

theorem Fair.new (fair : Fair s es cards slots) (order : sortedByLoad s.loads = done ++ load :: rest) :
    load.1 ∉ done.map Prod.fst := by
  have nodup := fair.sorted.nodup_iff.mpr nodup_range
  rw [order, map_append, map_cons, nodup_append] at nodup
  exact fun earlier => nodup.2.2 _ earlier _ mem_cons_self rfl

theorem Spread.finds (spread : Spread s es cards slots done p) (fair : Fair s es cards slots)
    (order : sortedByLoad s.loads = done ++ load :: rest) :
    ∃ b ∈ p.boxes, Eligible slots p.remainingItems load.1 b := by
  have new := fair.new order
  have count : done.length < es := by
    have length := fair.sorted.length_eq
    rw [order, length_map, length_append, length_cons, length_range] at length
    omega
  have total := fair.total
  obtain ⟨_, mem, room⟩ := spread.packed.exists_room (by rw [length_map]; omega)
  obtain ⟨a, inBoxes, rfl⟩ := mem_map.mp mem
  rw [spread.exact_]
  by_cases absent : load.1 ∈ a.items
  · obtain ⟨k, here⟩ := getElem?_of_mem inBoxes
    have replica := (spread.origin k a here _ absent).resolve_left new
    obtain ⟨a', b, here', last, racing⟩ := spread.racing k load.1 replica new
    cases Option.some.inj (here.symm.trans here')
    obtain ⟨_, -, -, race⟩ := racing.race
    refine ⟨b, mem_of_getElem? last, eligible_zero.mpr ⟨fun has => ?_, (race room).1⟩⟩
    rcases spread.origin _ b last _ has with earlier | replica
    · exact new earlier
    · rw [fair.last] at replica
      cases replica
  · exact ⟨a, inBoxes, eligible_zero.mpr ⟨absent, room⟩⟩

variable {i e : Nat}

theorem Fair.replica (fair : Fair s es cards slots) (copy : (redundantCopies s es)[i]? = some e) :
    ∃ own ∈ s.loads, own.1 = e ∧ 0 < s.replicas e ∧ curWeight s.loads e = own.2 := by
  obtain ⟨other, below, mem⟩ := mem_flatMap.mp (mem_of_getElem? copy)
  obtain ⟨some, rfl⟩ := mem_replicate.mp mem
  obtain ⟨own, inLoads, rfl⟩ := mem_map.mp (fair.names.mem_iff.mpr below)
  exact ⟨own, inLoads, rfl, pos_of_ne_zero some, curWeight_eq (fair.names.nodup_iff.mpr nodup_range) inLoads⟩

theorem Fair.bounds (fair : Fair s es cards slots) (order : sortedByLoad s.loads = done ++ load :: rest)
    (copy : (redundantCopies s es)[i]? = some e) (later : e ∉ (done ++ [load]).map Prod.fst) :
    0 ≤ curWeight s.loads e ∧ curWeight s.loads e ≤ load.2 ∧
      load.2 ≤ curWeight s.loads e + curWeight s.loads e := by
  obtain ⟨own, inLoads, rfl, some, weight⟩ := fair.replica copy
  rw [weight]
  have inSorted := (sortedByLoad_perm s.loads).mem_iff.mpr inLoads
  have here : load ∈ s.loads := (sortedByLoad_perm s.loads).mem_iff.mp
    (order ▸ mem_append_right _ mem_cons_self)
  refine ⟨fair.nonneg own inLoads, ?_, fair.shares load here own inLoads some⟩
  rw [order, append_cons] at inSorted
  have sorted := sortedByLoad_pairwise s.loads
  rw [order, append_cons, pairwise_append] at sorted
  rcases mem_append.mp inSorted with earlier | after
  · exact absurd (mem_map_of_mem earlier) later
  · exact sorted.2.2 load (mem_append_right _ (mem_singleton_self _)) own after

variable {a b : Box} {w : Rat}

theorem Racing.mono (racing : Racing slots w done a b) (load : Load) :
    Racing slots w (done ++ [load]) a b :=
  ⟨racing.items, fun y mem => (racing.placed y mem).imp fun _ here => ⟨mem_append_left _ here.1,
    here.2⟩, racing.race⟩

/-- The card with the replica is the lightest one. -/
theorem Racing.first (racing : Racing slots w done a b) (most : load.2 ≤ w + w)
    (last : ∀ earlier ∈ done, load.2 ≤ earlier.2) (room : a.items.length < slots)
    (chosen : b.items.length < slots → a.totalWeight id ≤ b.totalWeight id) :
    Racing slots w (done ++ [load]) (a.add load) b := by
  obtain ⟨as, weights, length, race⟩ := racing.race
  refine ⟨racing.items, (racing.mono load).placed, as ++ [load.2], by rw [Box.add, weights,
    cons_append], ?_, fun _ => ?_⟩
  · rw [Box.add, length_append, length_append, ← length]
    rfl
  · obtain ⟨other, race⟩ := race room
    have less := chosen other
    rw [totalWeight_id, totalWeight_id, weights, sum_cons] at less
    refine ⟨other, race.first most (fun y mem => ?_) less⟩
    obtain ⟨earlier, inDone, rfl⟩ := racing.placed y mem
    exact last earlier inDone

/-- The card without the replica is lighter than the card with it, so it is not the last slot that
is taken. -/
theorem Racing.second (racing : Racing slots w done a b) (nonneg : 0 ≤ w) (least : w ≤ load.2)
    (chosen : a.items.length < slots → b.totalWeight id < a.totalWeight id) :
    Racing slots w (done ++ [load]) a (b.add load) := by
  obtain ⟨as, weights, length, race⟩ := racing.race
  refine ⟨?_, fun y mem => ?_, as, weights, length, fun room => ?_⟩
  · rw [Box.add, length_append, length_append, racing.items, length_singleton, length_singleton]
  · rcases mem_append.mp mem with old | new
    · exact (racing.mono load).placed y old
    · exact ⟨load, mem_append_right _ (mem_singleton_self _), (mem_singleton.mp new).symm⟩
  · obtain ⟨other, race⟩ := race room
    have less := chosen room
    rw [totalWeight_id, totalWeight_id, weights, sum_cons] at less
    have items := racing.items
    refine ⟨?_, race.second nonneg least⟩
    rw [Box.add, length_append, length_singleton]
    by_contra full
    exact absurd (race.not_lighter nonneg (by omega)) (not_le.mpr less)

theorem Spread.step (spread : Spread s es cards slots done p) (fair : Fair s es cards slots)
    (order : sortedByLoad s.loads = done ++ load :: rest) {i : Nat} {c : Box} (here : p.boxes[i]? = some c)
    (eligible : Eligible slots 0 load.1 c)
    (least : ∀ k d, p.boxes[k]? = some d → Eligible slots 0 load.1 d →
      c.totalWeight id ≤ d.totalWeight id ∧ (k < i → c.totalWeight id < d.totalWeight id)) :
    Spread s es cards slots (done ++ [load]) ⟨p.boxes.set i (c.add load), 0⟩ := by
  have known : load.1 < es :=
    mem_range.mp (fair.sorted.mem_iff.mp (mem_map_of_mem (order ▸ mem_append_right _ mem_cons_self)))
  have inside := (List.getElem_of_getElem? here).1
  refine ⟨rfl, by rw [map_append]; exact packed_place spread.packed here eligible known, fun k d at_ x inBox => ?_,
    fun i₀ e copy later => ?_⟩
  · rw [map_append, mem_append]
    rw [getElem?_set] at at_
    split at at_
    · rename_i same
      subst same
      cases at_
      rcases mem_append.mp inBox with old | new
      · exact (spread.origin _ c here x old).imp_left .inl
      · exact .inl (.inr new)
    · exact (spread.origin k d at_ x inBox).imp_left .inl
  · have apart : e ∉ done.map Prod.fst :=
      fun earlier => later (by rw [map_append]; exact mem_append_left _ earlier)
    obtain ⟨nonneg, low, high⟩ := fair.bounds order copy later
    obtain ⟨a, b, hereA, hereB, racing⟩ := spread.racing i₀ e copy apart
    have before : i₀ < cards - 1 := by
      have := (List.getElem_of_getElem? copy).1
      have := fair.few
      omega
    have absent : ∀ {k : Nat} {d : Box}, p.boxes[k]? = some d →
        (redundantCopies s es)[k]? ≠ some load.1 → load.1 ∉ d.items :=
      fun at_ other has => (spread.origin _ _ at_ _ has).elim (fair.new order) other
    by_cases first : i = i₀
    · subst first
      cases Option.some.inj (here.symm.trans hereA)
      refine ⟨c.add load, b, getElem?_set_self inside, (getElem?_set_ne (by omega)).trans hereB, ?_⟩
      refine racing.first high (fun earlier inDone => ?_) (eligible_zero.mp eligible).2 fun room => ?_
      · have sorted := sortedByLoad_pairwise s.loads
        rw [order, pairwise_append] at sorted
        exact sorted.2.2 earlier inDone load mem_cons_self
      · exact (least _ b hereB (eligible_zero.mpr ⟨absent hereB (by rw [fair.last]; nofun), room⟩)).1
    by_cases second : i = cards - 1
    · subst second
      cases Option.some.inj (here.symm.trans hereB)
      refine ⟨a, c.add load, (getElem?_set_ne (by omega)).trans hereA, getElem?_set_self inside, ?_⟩
      refine racing.second nonneg low fun room =>
        (least _ a hereA (eligible_zero.mpr ⟨absent hereA fun same => ?_, room⟩)).2 before
      cases Option.some.inj (copy.symm.trans same)
      exact later (by simp)
    · exact ⟨a, b, (getElem?_set_ne first).trans hereA, (getElem?_set_ne second).trans hereB, racing.mono load⟩

theorem Fair.start (fair : Fair s es cards slots) : Spread s es cards slots [] ⟨startBoxes s es cards, 0⟩ := by
  have few := fair.few
  have total := fair.total
  refine ⟨rfl, packed_start ?_ fair.few.le, fun k c at_ x inBox => ?_, fun i e copy _ => ?_⟩
  · rcases Nat.eq_zero_or_pos slots with rfl | pos
    · exact .inl (by omega)
    · exact .inr pos
  · refine .inr ?_
    rcases lt_or_ge k (redundantCopies s es).length with less | beyond
    · rw [startBoxes, getElem?_append_left (by rwa [length_map]), getElem?_map] at at_
      obtain ⟨e, copy, rfl⟩ := Option.map_eq_some_iff.mp at_
      rwa [mem_singleton.mp inBox]
    · rw [startBoxes, getElem?_append_right (by rwa [length_map]), getElem?_replicate] at at_
      split at at_
      · cases at_
        cases inBox
      · cases at_
  · obtain ⟨own, inLoads, -, -, weight⟩ := fair.replica copy
    have less := (List.getElem_of_getElem? copy).1
    refine ⟨⟨[e], [curWeight s.loads e]⟩, ⟨[], []⟩, ?_, ?_, rfl,
      fun _ mem => absurd mem not_mem_nil, [], rfl, rfl, fun room =>
      ⟨zero_lt_of_lt room, fun _ mem => absurd mem not_mem_nil, ?_, fun _ => le_rfl⟩⟩
    · rw [startBoxes, getElem?_append_left (by rwa [length_map]), getElem?_map, copy, Option.map_some]
    · rw [startBoxes, getElem?_append_right
        (by rw [length_map]; omega), length_map, getElem?_replicate, if_pos (by omega)]
    · simpa [weight] using fair.nonneg own inLoads

theorem Fair.finds (fair : Fair s es cards slots) :
    FindsCards id slots (startBoxes s es cards) (sortedByLoad s.loads) := by
  intro done load rest p order ran
  have each : ∀ before next after (p : PackState), done = before ++ next :: after →
      Spread s es cards slots before p → (∃ e, packItem id slots p next = .error e ∧ False) ∨
        ∃ p', packItem id slots p next = .ok p' ∧ Spread s es cards slots (before ++ [next]) p' := by
    rintro before next after p rfl spread
    rw [append_assoc, cons_append] at order
    obtain ⟨i, b, here, eligible, least, next⟩ := packItem_found id spread.exact_ (spread.finds fair order)
    exact .inr ⟨_, next, spread.step fair order here eligible least⟩
  rcases foldlM_total (Spread s es cards slots) (fun _ => False) each fair.start with ⟨_, _,
    stuck⟩ | ⟨_, ran', spread⟩
  · exact stuck.elim
  · cases ran.symm.trans ran'
    exact spread.finds fair order

end

/-! ### All replicas for one expert -/

section

variable {layers cards slots : Nat} {table : ExpertTable (layers + 1) cards slots}

variable {l : Fin (layers + 1)}

end

end TurboQuant.Ascend.Eplb
