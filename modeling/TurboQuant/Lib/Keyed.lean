import Mathlib.Data.List.Nodup
import TurboQuant.Lib.Outcome

/-!
Loops over items with distinct keys, where the state is seen through a view for every key.
-/

namespace Keyed
open List

variable {ε : Type} {σ ι κ ν : Type} {k : κ}

section
variable [DecidableEq κ] {key : ι → κ}

variable {xs : List ι}

theorem only_item {item : ι} (only : (xs.filter fun item => decide (key item = k)) = [item]) :
    k ∈ xs.map key ∧ ∀ other ∈ xs, key other = k → other = item := by
  constructor
  · have listed : item ∈ xs.filter fun item => decide (key item = k) := by
      rw [only]
      exact mem_singleton_self _
    obtain ⟨mem, same⟩ := mem_filter.mp listed
    exact mem_map.mpr ⟨item, mem, of_decide_eq_true same⟩
  · intro other mem same
    have listed : other ∈ xs.filter fun item => decide (key item = k) :=
      mem_filter.mpr ⟨mem, decide_eq_true same⟩
    rw [only] at listed
    exact mem_singleton.mp listed

theorem nodup_iff_filters :
    (xs.map key).Nodup ↔ ∀ k, (xs.filter fun x => decide (key x = k)).length ≤ 1 := by
  rw [nodup_iff_count_le_one]
  refine forall_congr' fun k => ?_
  rw [count_eq_countP, countP_map, countP_eq_length_filter]
  refine Eq.to_iff (congrArg (· ≤ 1) (congrArg length (filter_congr fun x _ => ?_)))
  exact beq_eq_decide (key x) k

theorem not_mem_iff_filter : k ∉ xs.map key ↔ (xs.filter fun x => decide (key x = k)) = [] := by
  rw [filter_eq_nil_iff, mem_map, not_exists]
  refine forall_congr' fun x => ?_
  rw [not_and, decide_eq_true_eq]

end

section
variable (v : κ → σ → ν) (key : ι → κ) {step : σ → ι → σ}

section
variable (frame : ∀ s x k, k ≠ key x → v k (step s x) = v k s)
include frame

variable {xs : List ι}

theorem foldl_other
    (other : k ∉ xs.map key) (s : σ) : v k (xs.foldl step s) = v k s := by
  induction xs generalizing s with
  | nil => rfl
  | cons x rest ih =>
    rw [map_cons, mem_cons, not_or] at other
    rw [foldl_cons, ih other.2, frame s x k other.1]

theorem foldl_at (nodup : (xs.map key).Nodup) (s : σ) {x : ι} (mem : x ∈ xs) :
    ∃ before, v (key x) before = v (key x) s ∧ v (key x) (xs.foldl step s) = v (key x) (step before x) := by
  induction xs generalizing s with
  | nil => cases mem
  | cons head rest ih =>
    rw [map_cons, nodup_cons] at nodup
    rw [foldl_cons]
    rcases mem_cons.mp mem with rfl | later
    · exact ⟨s, rfl, foldl_other v key frame nodup.1 _⟩
    · obtain ⟨before, same, after⟩ := ih nodup.2 (step s head) later
      have ne : key x ≠ key head := by
        intro equal
        exact nodup.1 (equal ▸ mem_map_of_mem later)
      exact ⟨before, same.trans (frame s head _ ne), after⟩

end

end

theorem foldlM_total (v : κ → σ → ν) (key : ι → κ) (step : σ → ι → Except ε σ) (xs : List ι) (s : σ)
    (frame : ∀ s x s', step s x = .ok s' → ∀ k, k ≠ key x → v k s' = v k s)
    (runs : ∀ x ∈ xs, ∀ before, v (key x) before = v (key x) s → ∃ after, step before x = .ok after)
    (nodup : (xs.map key).Nodup) : ∃ s', xs.foldlM step s = .ok s' ∧ (∀ k, k ∉ xs.map key → v k s' = v k s) ∧
      ∀ x ∈ xs, ∃ before after, v (key x) before = v (key x) s ∧ step before x = .ok after ∧
        v (key x) s' = v (key x) after := by
  induction xs generalizing s with
  | nil => exact ⟨s, rfl, fun _ _ => rfl, nofun⟩
  | cons head rest ih =>
    rw [map_cons, nodup_cons] at nodup
    obtain ⟨next, first⟩ := runs head mem_cons_self s rfl
    have elsewhere : ∀ x ∈ rest, v (key x) next = v (key x) s := by
      intro x later
      refine frame s head next first _ ?_
      intro equal
      exact nodup.1 (equal ▸ mem_map_of_mem later)
    obtain ⟨last, ran, others, each⟩ := ih next
      (fun x later before same => runs x (mem_cons_of_mem _ later) before
        (same.trans (elsewhere x later))) nodup.2
    refine ⟨last, ?_, fun k other => ?_, fun x mem => ?_⟩
    · rwa [foldlM_cons, first]
    · rw [map_cons, mem_cons, not_or] at other
      rw [others k other.2, frame s head next first k other.1]
    · rcases mem_cons.mp mem with rfl | later
      · exact ⟨s, next, rfl, first, others _ nodup.1⟩
      · obtain ⟨before, after, same, stepped, final⟩ := each x later
        exact ⟨before, after, same.trans (elsewhere x later), stepped, final⟩

end Keyed
