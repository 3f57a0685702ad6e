import TurboQuant.Ascend.EplbUpdate

/-!
Slot tables, expert maps and the physical ids of replicas.
-/

namespace TurboQuant.Ascend.Eplb
open List Function

variable {layers ls ranks rs slots ss : Nat}

def Placement.Complete (p : Placement layers ranks slots) : Prop :=
  0 < p.experts ∧ ∀ l, ∀ e < p.experts, e ∈ hosted (p.expert l)

/-- Expert maps of a placement with `slots` slots on each rank. -/
structure ExpertMaps.Valid (maps : ExpertMaps layers ranks) (slots : Nat) : Prop where
  positive : 0 < maps.experts
  inside : ∀ {l r e s}, maps.slot l r e = some s → e < maps.experts ∧ s < slots
  distinct : ∀ {l r d e s}, maps.slot l r d = some s → maps.slot l r e = some s → d = e
  filled : ∀ l r, ∀ s < slots, ∃ e, maps.slot l r e = some s
  covered : ∀ l, ∀ e < maps.experts, ∃ r s, maps.slot l r e = some s

theorem ExpertMaps.Valid.placement {maps : ExpertMaps ls rs} (valid : maps.Valid ss) :
    ∃ p : Placement ls rs ss, p.maps = maps ∧ p.Complete := by
  choose expert here using fun l r (s : Fin ss) => valid.filled l r s s.isLt
  have distinct : ∀ l r, Injective (expert l r) := by
    intro l r s t same
    have there := here l r t
    rw [← same, here l r s, Option.some.injEq] at there
    exact Fin.ext there
  have slot : ∀ l r e, slotOf (expert l r) e = maps.slot l r e := by
    intro l r e
    ext s
    rw [slotOf_eq_some (distinct l r)]
    constructor
    · rintro ⟨t, rfl, rfl⟩
      exact here l r t
    · intro at_
      have inside := (valid.inside at_).2
      exact ⟨⟨s, inside⟩, rfl, valid.distinct (here l r ⟨s, inside⟩) at_⟩
  refine ⟨⟨maps.experts, expert, fun l r s => (valid.inside (here l r s)).1, distinct⟩, ?_, valid.positive, ?_⟩
  · obtain ⟨experts, map⟩ := maps
    exact congrArg (ExpertMaps.mk experts) (funext fun l => funext fun r => funext fun e => slot l r e)
  · intro l e lt
    obtain ⟨r, s, at_⟩ := valid.covered l e lt
    rw [← slot, slotOf_eq_some (distinct l r)] at at_
    obtain ⟨t, _, same⟩ := at_
    exact mem_hosted.mpr ⟨r, t, same⟩

namespace Placement

theorem Complete.local2global {p : Placement (ls + 1) rs ss} (complete : p.Complete) :
    local2global p.expert = .ok p.maps := by
  obtain ⟨r, s, same⟩ := mem_hosted.mp (complete.2 0 (p.experts - 1) (Nat.sub_lt complete.1 Nat.one_pos))
  exact local2global_eq p.expert_lt ⟨0, r, s, by have := complete.1; omega⟩

theorem Complete.hosted_eq {p : Placement ls rs ss} (complete : p.Complete) (l : Fin ls) :
    hosted (p.expert l) = Finset.range p.experts := by
  ext e
  rw [Finset.mem_range]
  refine ⟨fun member => ?_, complete.2 l e⟩
  obtain ⟨r, s, rfl⟩ := mem_hosted.mp member
  exact p.expert_lt l r s

theorem nodup_physicalIds (p : Placement ls rs ss) (l : Fin ls) (rank : Fin rs) (e : Nat) :
    (physicalIds p.maps l rank e).Nodup := by
  refine (nodup_finRange rs).filterMap fun r r' id here there => ?_
  obtain ⟨s, at_, rfl⟩ := Option.map_eq_some_iff.mp here
  obtain ⟨s', at', same⟩ := Option.map_eq_some_iff.mp there
  obtain ⟨t, rfl, _⟩ := (slotOf_eq_some (p.distinct l r)).mp at_
  obtain ⟨t', rfl, _⟩ := (slotOf_eq_some (p.distinct l r')).mp at'
  rw [show validCount p.maps l rank = ss from validCount_eq (p.expert_lt l) (p.distinct l)] at same
  -- a rank's ids are below those of the next one
  have quotient := congrArg (· / ss) same
  simp only [Nat.add_mul_div_right _ _ t.pos, Nat.div_eq_of_lt t.isLt, Nat.div_eq_of_lt t'.isLt,
    Nat.zero_add] at quotient
  exact Fin.ext quotient.symm

/-- Slot tables and expert maps determine each other, and each rank is given the replica of an
expert whose turn it is in the order of their physical ids. -/
theorem conversions_inverse (p : Placement (layers + 1) ranks slots) (complete : p.Complete) :
    (∃ maps, Eplb.local2global p.expert = .ok maps ∧ ∀ l r s,
      global2local maps slots l r s = some (p.expert l r s)) ∧
    (∀ maps : ExpertMaps (layers + 1) ranks, maps.Valid slots → ∃ table : ExpertTable (layers + 1) ranks slots,
      (∀ l r s, global2local maps slots l r s = some (table l r s)) ∧ Eplb.local2global table = .ok maps) ∧
    ∀ l, ∃ replicas : Nat → List Nat,
      (∀ e, (replicas e).Nodup ∧ ∀ id, id ∈ replicas e ↔ ∃ r s, p.expert l r s = e ∧
        id = s.val + r.val * slots) ∧
      ∀ rank, ∃ log2phy, generateLog2phyMap p.maps l rank = .ok log2phy ∧ log2phy.length = p.experts ∧
        ∀ e < p.experts, 0 < (replicas e).length ∧
          log2phy[e]? = (replicas e)[rank % (replicas e).length]? := by
  refine ⟨⟨_, complete.local2global, global2local_maps p⟩, fun maps valid => ?_, fun l => ?_⟩
  · obtain ⟨q, rfl, complete⟩ := valid.placement
    exact ⟨q.expert, global2local_maps q, complete.local2global⟩
  obtain ⟨r₀, _, _⟩ := mem_hosted.mp (complete.2 l 0 complete.1)
  have lt := p.expert_lt l
  have distinct := p.distinct l
  have card : (hosted (p.expert l)).card = p.experts := by rw [complete.hosted_eq, Finset.card_range]
  -- the ids do not depend on the rank that asks
  refine ⟨physicalIds p.maps l r₀, fun e => ⟨p.nodup_physicalIds l r₀ e,
    fun id => mem_physicalIds lt distinct⟩, ?_⟩
  intro rank
  have noGap : ∀ e ∈ hosted (p.expert l), e < (hosted (p.expert l)).card := by
    intro e member
    rw [complete.hosted_eq, Finset.mem_range] at member
    rwa [card]
  refine ⟨_, generateLog2phyMap_ok rank lt distinct noGap, by rw [length_map, length_range,
    card], fun e below => ?_⟩
  obtain ⟨r, s, same⟩ := mem_hosted.mp (complete.2 l e below)
  have nonempty : 0 < (physicalIds p.maps l r₀ e).length :=
    length_pos_of_mem ((mem_physicalIds lt distinct).mpr ⟨r, s, same, rfl⟩)
  have within := Nat.mod_lt rank.val nonempty
  refine ⟨nonempty, ?_⟩
  rw [getElem?_map, getElem?_range (card ▸ below), getElem?_eq_getElem within]
  show some ((physicalIds p.maps l r₀ e).getD (rank % (physicalIds p.maps l r₀ e).length) 0) = _
  rw [getD_eq_getElem?_getD, getElem?_eq_getElem within]
  rfl

theorem conversions_inverse_replica :
    let table : ExpertTable 1 2 2 := fun _ => ![![0, 1], ![2, 0]]
    ∃ maps, Eplb.local2global table = .ok maps ∧ ∀ l r s, global2local maps 2 l r s = some (table l r s) := by
  intro table
  have complete : Complete ⟨3, table, by decide, by decide⟩ := ⟨by decide, by decide⟩
  exact (conversions_inverse _ complete).1

end Placement

end TurboQuant.Ascend.Eplb
