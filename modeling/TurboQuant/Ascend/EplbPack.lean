import TurboQuant.Ascend.EplbAlign
import TurboQuant.Lib.Packing
import Mathlib.Algebra.BigOperators.Group.Finset.Piecewise

/-!
The placement of the default policy.
-/

namespace TurboQuant.Ascend.Eplb
open Outcome Packing List Function Nat

theorem sortedByLoad_perm (loads : List Load) : (sortedByLoad loads).Perm loads :=
  (reverse_perm _).trans (perm_insertionSort _ loads)

theorem sortedByLoad_pairwise (loads : List Load) : (sortedByLoad loads).Pairwise fun a b => b.2 ≤ a.2 := by
  rw [sortedByLoad, pairwise_reverse]
  exact pairwise_insertionSort _ loads

section

variable {round : Rat → Rat} {loads : List Load} {s s' : Split}

end

variable {p : PackState}

section

variable {round : Rat → Rat} {itemsPerBox slots remainingItems rest e : Nat}

def Eligible (itemsPerBox remainingItems e : Nat) (b : Box) : Prop :=
  e ∉ b.items ∧ b.hasRoom itemsPerBox remainingItems

/-- Of the cards in question the lightest one is found, and of several such cards the first one. -/
theorem foldl_lighter (boxes : List Box) : match boxes.zipIdx.foldl (lighter round slots rest e) none with
    | none => ∀ b ∈ boxes, ¬ Eligible slots rest e b
    | some (i, weight) => ∃ b, boxes[i]? = some b ∧ Eligible slots rest e b ∧ weight = b.totalWeight round ∧
      ∀ k c, boxes[k]? = some c → Eligible slots rest e c → weight ≤ c.totalWeight round ∧
        (k < i → weight < c.totalWeight round) := by
  induction boxes using reverseRecOn with
  | nil => exact fun b mem => absurd mem not_mem_nil
  | append_singleton boxes b ih =>
    rw [zipIdx_append, foldl_append]
    simp only [zipIdx_singleton, foldl_cons, foldl_nil, Nat.zero_add]
    generalize boxes.zipIdx.foldl (lighter round slots rest e) none = best at ih ⊢
    have last : (boxes ++ [b])[boxes.length]? = some b := by simp
    have cut : ∀ {k c}, (boxes ++ [b])[k]? = some c → boxes[k]? = some c ∨ k = boxes.length ∧ c = b := by
      intro k c at_
      rcases lt_or_ge k boxes.length with less | beyond
      · exact .inl (by rwa [getElem?_append_left less] at at_)
      · rw [getElem?_append_right beyond, getElem?_singleton] at at_
        split at at_
        · exact .inr ⟨by omega, (Option.some.inj at_).symm⟩
        · cases at_
    by_cases eligible : Eligible slots rest e b
    · unfold lighter
      rw [if_neg eligible.1, if_pos eligible.2]
      cases best with
      | none =>
        refine ⟨b, last, eligible, rfl, fun k c at_ other => ?_⟩
        rcases cut at_ with old | ⟨rfl, rfl⟩
        · exact absurd other (ih c (mem_of_getElem? old))
        · exact ⟨le_rfl, fun less => absurd less (lt_irrefl _)⟩
      | some best =>
        obtain ⟨i, weight⟩ := best
        obtain ⟨a, here, chosen, same, least⟩ := ih
        have inside := (List.getElem_of_getElem? here).1
        by_cases less : b.totalWeight round < weight
        · simp only [if_pos less]
          refine ⟨b, last, eligible, rfl, fun k c at_ other => ?_⟩
          rcases cut at_ with old | ⟨rfl, rfl⟩
          · have before := less.trans_le (least k c old other).1
            exact ⟨before.le, fun _ => before⟩
          · exact ⟨le_rfl, fun less => absurd less (lt_irrefl _)⟩
        · simp only [if_neg less]
          refine ⟨a, by rwa [getElem?_append_left inside], chosen, same, fun k c at_ other => ?_⟩
          rcases cut at_ with old | ⟨rfl, rfl⟩
          · exact least k c old other
          · exact ⟨not_lt.mp less, fun later => by omega⟩
    · have same : lighter round slots rest e best (b, boxes.length) = best := by
        unfold lighter Eligible at *
        split
        · rfl
        · rename_i absent
          exact if_neg fun room => eligible ⟨absent, room⟩
      rw [same]
      cases best with
      | none =>
        intro c mem
        rcases mem_append.mp mem with old | new
        · exact ih c old
        · exact mem_singleton.mp new ▸ eligible
      | some best =>
        obtain ⟨a, here, chosen, same, least⟩ := ih
        have inside := (List.getElem_of_getElem? here).1
        refine ⟨a, by rwa [getElem?_append_left inside], chosen, same, fun k c at_ other => ?_⟩
        rcases cut at_ with old | ⟨rfl, rfl⟩
        · exact least k c old other
        · exact absurd other eligible

theorem minBoxIndex_lightest (round : Rat → Rat) (some_ : ∃ b ∈ p.boxes, Eligible slots p.remainingItems e b) :
    ∃ i b, minBoxIndex round slots p e = some i ∧ p.boxes[i]? = some b ∧ Eligible slots p.remainingItems e b ∧
      ∀ k c, p.boxes[k]? = some c → Eligible slots p.remainingItems e c →
        b.totalWeight round ≤ c.totalWeight round ∧ (k < i → b.totalWeight round < c.totalWeight round) := by
  obtain ⟨b, mem, eligible⟩ := some_
  have found := @foldl_lighter round slots p.remainingItems e p.boxes
  unfold minBoxIndex
  split at found
  · exact absurd eligible (found b mem)
  rename_i i weight ended
  obtain ⟨b, here, chosen, rfl, least⟩ := found
  exact ⟨i, b, by rw [ended]; rfl, here, chosen, least⟩

end

variable {b : Box}

section

variable {s : Split} {es cards : Nat}

/-- The cards before the loop: one replica on each of the first ones. -/
def startBoxes (s : Split) (experts cardNum : Nat) : List Box :=
  (redundantCopies s experts).map (fun e => ⟨[e], [curWeight s.loads e]⟩) ++
    replicate (cardNum - (redundantCopies s experts).length) ⟨[], []⟩

theorem packed_start {perCard : Nat} (some_ : (redundantCopies s es).length = 0 ∨ 0 < perCard)
    (room : (redundantCopies s es).length ≤ cards) :
    Packed cards perCard (redundantCopies s es).length (· < es) []
      ((startBoxes s es cards).map Box.items) := by
  have items : (startBoxes s es cards).map Box.items =
      (redundantCopies s es).map (fun e => [e]) ++ replicate (cards - (redundantCopies s es).length) [] := by
    simp [startBoxes, comp_def]
  rw [items]
  have split : ∀ box ∈ (redundantCopies s es).map (fun e => [e]) ++
      replicate (cards - (redundantCopies s es).length) [],
      box = [] ∨ ∃ e ∈ redundantCopies s es, box = [e] := by
    intro box mem
    rcases mem_append.mp mem with c | empty
    · obtain ⟨e, lt, rfl⟩ := mem_map.mp c
      exact .inr ⟨e, lt, rfl⟩
    · exact .inl (eq_of_mem_replicate empty)
  constructor
  case length =>
    rw [length_append, length_map, length_replicate]
    omega
  case fits =>
    intro box mem
    rcases split box mem with rfl | ⟨e, lt, rfl⟩
    · exact zero_le _
    · have := length_pos_of_mem lt
      rw [length_singleton]
      omega
  case nodup =>
    intro box mem
    rcases split box mem with rfl | ⟨e, -, rfl⟩
    · exact nodup_nil
    · exact nodup_singleton e
  case known =>
    intro box mem item inBox
    rcases split box mem with rfl | ⟨e, lt, rfl⟩
    · cases inBox
    obtain rfl := mem_singleton.mp inBox
    obtain ⟨other, below, c⟩ := mem_flatMap.mp lt
    rw [(eq_of_mem_replicate c)]
    exact mem_range.mp below
  case total =>
    simp [comp_def]
  case placed =>
    intro item mem
    cases mem

end

variable {boxes : List Box}

section

variable {round : Rat → Rat} {cards perCard base experts es : Nat} {done : List Nat}
  {p' : PackState} {load : Load}

theorem eligible_zero {e : Nat} : Eligible perCard 0 e b ↔ e ∉ b.items ∧ b.items.length < perCard := by
  refine and_congr_right fun _ => ?_
  simp only [Box.hasRoom, Box.itemCount, lt_irrefl, decide_false, Bool.and_false, Bool.or_false]
  exact decide_eq_true_iff

theorem addTo_ok {boxes boxes' : List Box} {i : Nat} (ran : addTo boxes i load = .ok boxes') :
    ∃ b, boxes[i]? = some b ∧ boxes' = boxes.set i (b.add load) := by
  unfold addTo at ran
  split at ran
  · cases ran
  rename_i b here
  cases ran
  exact ⟨b, here, rfl⟩

theorem packItem_ok (exact_ : p.remainingItems = 0) (ran : packItem round perCard p load = .ok p') :
    p'.remainingItems = 0 ∧ ∃ b, p.boxes[(minBoxIndex round perCard p load.1).getD
      (p.boxes.length - 1)]? = some b ∧
      p'.boxes = p.boxes.set ((minBoxIndex round perCard p load.1).getD (p.boxes.length - 1))
        (b.add load) := by
  obtain ⟨boxes, added, ran⟩ := bind_ok ran
  obtain ⟨b, here, rfl⟩ := addTo_ok added
  cases ran
  exact ⟨by simp [exact_], b, here, rfl⟩

/-- An expert that finds a card is put on the lightest one. -/
theorem packItem_found (round : Rat → Rat) (exact_ : p.remainingItems = 0)
    (some_ : ∃ b ∈ p.boxes, Eligible perCard p.remainingItems load.1 b) :
    ∃ i b, p.boxes[i]? = some b ∧ Eligible perCard 0 load.1 b ∧
      (∀ k c, p.boxes[k]? = some c → Eligible perCard 0 load.1 c →
        b.totalWeight round ≤ c.totalWeight round ∧ (k < i → b.totalWeight round < c.totalWeight round)) ∧
      packItem round perCard p load = .ok ⟨p.boxes.set i (b.add load), 0⟩ := by
  obtain ⟨i, b, found, here, eligible, least⟩ := minBoxIndex_lightest round some_
  rw [exact_] at eligible least
  refine ⟨i, b, here, eligible, least, ?_⟩
  have added : addTo p.boxes i load = .ok (p.boxes.set i (b.add load)) := by rw [addTo, here]
  rw [packItem, found, Option.getD_some, added, ok_bind, exact_]
  simp

theorem packed_place {i : Nat} (pk : Packed cards perCard base (· < es) done (boxes.map Box.items))
    (here : boxes[i]? = some b) (eligible : Eligible perCard 0 load.1 b) (known : load.1 < es) :
    Packed cards perCard base (· < es) (done ++ [load.1]) ((boxes.set i (b.add load)).map Box.items) := by
  obtain ⟨absent, room⟩ := eligible_zero.mp eligible
  obtain ⟨lt, rfl⟩ := List.getElem_of_getElem? here
  have cut : boxes = boxes.take i ++ boxes[i] :: boxes.drop (i + 1) := by
    rw [← drop_eq_getElem_cons lt, take_append_drop]
  rw [set_eq_take_append_cons_drop, if_pos lt, map_append, map_cons]
  rw [cut, map_append, map_cons] at pk
  exact pk.push absent room known

/-- A card has an expert twice or too many experts. -/
def Broken (perCard : Nat) (boxes : List Box) : Prop := ∃ b ∈ boxes, ¬ b.items.Nodup ∨ perCard < b.items.length

theorem Broken.step (broken : Broken perCard p.boxes) (exact_ : p.remainingItems = 0)
    (ran : packItem round perCard p load = .ok p') : Broken perCard p'.boxes := by
  obtain ⟨-, b, here, boxes⟩ := packItem_ok exact_ ran
  obtain ⟨c, mem, bad⟩ := broken
  rw [boxes]
  obtain ⟨k, at_⟩ := getElem?_of_mem mem
  obtain ⟨lt, rfl⟩ := List.getElem_of_getElem? at_
  by_cases same : (minBoxIndex round perCard p load.1).getD (p.boxes.length - 1) = k
  · rw [same] at here ⊢
    cases Option.some.inj (at_.symm.trans here)
    refine ⟨_, mem_set lt _, bad.imp (fun twice nodup => twice (nodup_append.mp nodup).1) fun long => ?_⟩
    simp only [Box.add, length_append]
    omega
  · exact ⟨_, mem_of_getElem? ((getElem?_set_ne same).trans at_), bad⟩

/-- Whenever the loop comes to an expert, a card that has room does not have it. -/
def FindsCards (round : Rat → Rat) (perCard : Nat) (boxes : List Box) (loads : List Load) : Prop :=
  ∀ done load rest p, loads = done ++ load :: rest → done.foldlM (packItem round perCard) ⟨boxes, 0⟩ = .ok p →
    ∃ b ∈ p.boxes, Eligible perCard p.remainingItems load.1 b

section
variable {loads : List Load}

theorem FindsCards.packed (finds : FindsCards round perCard boxes loads)
    (known : ∀ load ∈ loads, load.1 < es)
    (start : Packed cards perCard base (· < es) [] (boxes.map Box.items)) :
    ∃ p, loads.foldlM (packItem round perCard) ⟨boxes, 0⟩ = .ok p ∧
      Packed cards perCard base (· < es) (loads.map Prod.fst) (p.boxes.map Box.items) := by
  have each : ∀ done rest, loads = done ++ rest → ∃ p : PackState,
      done.foldlM (packItem round perCard) ⟨boxes, 0⟩ = .ok p ∧ p.remainingItems = 0 ∧
        Packed cards perCard base (· < es) (done.map Prod.fst) (p.boxes.map Box.items) := by
    intro done
    induction done using reverseRecOn with
    | nil => exact fun _ _ => ⟨⟨boxes, 0⟩, rfl, rfl, start⟩
    | append_singleton done load ih =>
      intro rest order
      rw [append_assoc, singleton_append] at order
      obtain ⟨p, ran, exact_, pk⟩ := ih _ order
      obtain ⟨i, b, here, eligible, -, next⟩ := packItem_found round exact_ (finds done load rest p order ran)
      refine ⟨⟨p.boxes.set i (b.add load), 0⟩, ?_, rfl, ?_⟩
      · rw [foldlM_append, ran, ok_bind, foldlM_cons, next]
        rfl
      · rw [map_append]
        exact packed_place pk here eligible (known load (order ▸ mem_append_right _ mem_cons_self))
  obtain ⟨p, ran, -, pk⟩ := each loads [] (append_nil loads).symm
  exact ⟨p, ran, pk⟩

end

end

/-- The placement of a layer: all cards are full, no card has an expert twice, and every expert is
placed. -/
structure ValidPlacement (cards perCard experts : Nat) (boxes : List (List Nat)) : Prop where
  cards : boxes.length = cards
  slots : ∀ box ∈ boxes, box.length = perCard
  nodup : ∀ box ∈ boxes, box.Nodup
  known : ∀ box ∈ boxes, ∀ e ∈ box, e < experts
  placed : ∀ e < experts, ∃ box ∈ boxes, e ∈ box

variable {cards perCard es : Nat}

theorem ValidPlacement.sound
    (valid : ValidPlacement cards perCard es (boxes.map Box.items)) : ¬ Broken perCard boxes := by
  rintro ⟨b, mem, twice | long⟩
  · exact twice (valid.nodup _ (mem_map_of_mem mem))
  · exact absurd (valid.slots _ (mem_map_of_mem mem)) (by omega)

variable {round : Rat → Rat} {loads : List Load}

section

variable {layers slots : Nat} {table : ExpertTable (layers + 1) cards slots}
  {workload : Fin (layers + 1) → Fin cards → Fin slots → Rat}

section
variable (round : Rat → Rat) (table : ExpertTable (layers + 1) cards slots)
  (workload : Fin (layers + 1) → Fin cards → Fin slots → Rat)

end

end

end TurboQuant.Ascend.Eplb
