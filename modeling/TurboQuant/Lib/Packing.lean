import Mathlib.Algebra.Order.BigOperators.Group.List
import Mathlib.Data.List.Nodup
import Mathlib.Tactic.Linarith

/-!
Packing of items into boxes of one capacity, where no box takes an item twice.
-/

namespace Packing
open List Nat

variable {α : Type}

theorem length_eq_of_full {capacity : Nat} {boxes : List (List α)}
    (fits : ∀ box ∈ boxes, box.length ≤ capacity)
    (total : boxes.length * capacity ≤ (boxes.map length).sum) : ∀ box ∈ boxes, box.length = capacity := by
  have bound : ∀ part ⊆ boxes, (part.map length).sum ≤ part.length * capacity := fun part inside => by
    have each : ∀ n ∈ part.map length, n ≤ capacity := forall_mem_map.mpr fun box mem => fits box (inside mem)
    simpa using sum_le_card_nsmul _ capacity each
  intro box mem
  obtain ⟨before, after, rfl⟩ := append_of_mem mem
  have left := bound before (subset_append_left _ _)
  have right := bound after fun _ later => mem_append_right _ (mem_cons_of_mem _ later)
  have here := fits box mem
  simp only [map_append, map_cons, sum_append_nat, sum_cons, length_append, length_cons, add_mul,
    one_mul] at total
  omega

/-- The boxes hold `base` items from before and the items that are done. -/
structure Packed (count capacity base : Nat) (known : α → Prop) (done : List α)
    (boxes : List (List α)) : Prop where
  length : boxes.length = count
  fits : ∀ box ∈ boxes, box.length ≤ capacity
  nodup : ∀ box ∈ boxes, box.Nodup
  known : ∀ box ∈ boxes, ∀ item ∈ box, known item
  total : (boxes.map List.length).sum = base + done.length
  placed : ∀ item ∈ done, ∃ box ∈ boxes, item ∈ box

namespace Packed

variable {count capacity base : Nat} {known : α → Prop} {done : List α} {boxes : List (List α)}

theorem exists_room (pk : Packed count capacity base known done boxes)
    (less : base + done.length < count * capacity) : ∃ box ∈ boxes, box.length < capacity := by
  by_contra none
  have full : ∀ n ∈ boxes.map List.length, capacity ≤ n := by
    intro n mem
    obtain ⟨box, inBoxes, rfl⟩ := mem_map.mp mem
    by_contra room
    exact none ⟨box, inBoxes, by omega⟩
  have bound := card_nsmul_le_sum _ capacity full
  rw [pk.total, length_map, pk.length, nsmul_eq_mul, Nat.cast_id] at bound
  omega

theorem push {before after : List (List α)} {box : List α}
    (pk : Packed count capacity base known done (before ++ box :: after))
    {item : α} (absent : item ∉ box) (room : box.length < capacity) (isKnown : known item) :
    Packed count capacity base known (done ++ [item]) (before ++ (box ++ [item]) :: after) := by
  have old : box ∈ before ++ box :: after := mem_append_right _ mem_cons_self
  have split : ∀ other, other ∈ before ++ (box ++ [item]) :: after → other = box ++ [item] ∨
      other ∈ before ++ box :: after := by
    intro other mem
    simp only [mem_append, mem_cons] at mem ⊢
    tauto
  constructor
  case length =>
    simpa using pk.length
  case fits =>
    intro other mem
    rcases split other mem with rfl | mem
    · rwa [length_append, length_singleton]
    · exact pk.fits other mem
  case nodup =>
    intro other mem
    rcases split other mem with rfl | mem
    · exact nodup_append_comm.mp (nodup_cons.mpr ⟨absent, pk.nodup box old⟩)
    · exact pk.nodup other mem
  case known =>
    intro other mem x inBox
    rcases split other mem with rfl | mem
    · rcases mem_append.mp inBox with inBox | last
      · exact pk.known box old x inBox
      · exact mem_singleton.mp last ▸ isKnown
    · exact pk.known other mem x inBox
  case total =>
    have total := pk.total
    simp only [map_append, map_cons, sum_append_nat, sum_cons, length_append, length_singleton] at total ⊢
    omega
  case placed =>
    intro x mem
    rcases mem_append.mp mem with mem | last
    · obtain ⟨other, inBoxes, inBox⟩ := pk.placed x mem
      simp only [mem_append, mem_cons] at inBoxes ⊢
      rcases inBoxes with inBefore | rfl | inAfter
      · exact ⟨other, .inl inBefore, inBox⟩
      · exact ⟨other ++ [item], .inr (.inl rfl), mem_append_left _ inBox⟩
      · exact ⟨other, .inr (.inr inAfter), inBox⟩
    · exact ⟨box ++ [item], mem_append_right _ mem_cons_self, mem_append_right _ last⟩

theorem full (pk : Packed count capacity base known done boxes)
    (total : base + done.length = count * capacity) : ∀ box ∈ boxes, box.length = capacity :=
  length_eq_of_full pk.fits (by rw [pk.total, pk.length, total])

end Packed

section

variable [CommRing α] [LinearOrder α] [IsStrictOrderedRing α]

/-- Two boxes that are filled together: the first one has an item of weight `w` from before and the
items `as`, the second one has the items `bs`, none of them lighter than `w`. -/
structure Race (w : α) (as bs : List α) : Prop where
  above : ∀ b ∈ bs, w ≤ b
  ahead : as.sum ≤ bs.sum + w
  behind : as.length ≤ bs.length → as.sum ≤ (bs.take as.length).sum

namespace Race

variable {w x : α} {as bs : List α}

theorem first (race : Race w as bs) (most : x ≤ w + w) (last : ∀ b ∈ bs, x ≤ b)
    (chosen : w + as.sum ≤ bs.sum) : Race w (as ++ [x]) bs := by
  refine ⟨race.above, ?_, fun less => ?_⟩
  · rw [List.sum_append, sum_singleton]
    linarith
  · rw [length_append, length_singleton] at less ⊢
    have earlier := race.behind (by omega)
    have here := last _ (getElem_mem less)
    rw [List.sum_append, sum_singleton, sum_take_succ _ _ less]
    linarith

theorem second (race : Race w as bs) (nonneg : 0 ≤ w) (least : w ≤ x) : Race w as (bs ++ [x]) := by
  refine ⟨fun b mem => ?_, ?_, fun _ => ?_⟩
  · rcases mem_append.mp mem with old | new
    · exact race.above b old
    · exact mem_singleton.mp new ▸ least
  · rw [List.sum_append, sum_singleton]
    linarith [race.ahead]
  · by_cases less : as.length ≤ bs.length
    · rw [take_append_of_le_length less]
      exact race.behind less
    · have whole : (bs ++ [x]).take as.length = bs ++ [x] := take_of_length_le (by simp; omega)
      rw [whole, List.sum_append, sum_singleton]
      linarith [race.ahead]

/-- With fewer items the first box is not the heavier one. -/
theorem not_lighter (race : Race w as bs) (nonneg : 0 ≤ w) (fewer : as.length < bs.length) :
    w + as.sum ≤ bs.sum := by
  have split : bs.sum = (bs.take as.length).sum + (bs.drop as.length).sum := by
    rw [← List.sum_append, take_append_drop]
  have rest : w ≤ (bs.drop as.length).sum := by
    rw [drop_eq_getElem_cons fewer, List.sum_cons]
    have here := race.above _ (getElem_mem fewer)
    have later : 0 ≤ (bs.drop (as.length + 1)).sum :=
      sum_nonneg fun b mem => nonneg.trans (race.above b (mem_of_mem_drop mem))
    linarith
  linarith [race.behind fewer.le]

end Race

end

end Packing
