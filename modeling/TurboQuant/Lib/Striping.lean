import Mathlib.Data.List.Range
import Mathlib.Data.List.Sort
import Mathlib.Algebra.BigOperators.Group.List.Basic
import Mathlib.Algebra.Order.Ring.Nat

/-!
Items that are dealt to ranks in turn: item `j` is on rank `j % size` and has number `j / size`
there.
-/

namespace Striping
open List Nat

variable {α β : Type} {n size rank k : Nat}

def held (n size rank : Nat) : Nat := n / size + if rank < n % size then 1 else 0

theorem lex_lt {m x y x' y' : Nat} (below : y < m) (below' : y' ≤ m) :
    x * m + y < x' * m + y' ↔ x < x' ∨ x = x' ∧ y < y' := by
  rcases lt_trichotomy x x' with less | rfl | greater
  · have next : (x + 1) * m ≤ x' * m := mul_le_mul_right _ less
    rw [add_mul] at next
    omega
  · omega
  · have next : (x' + 1) * m ≤ x * m := mul_le_mul_right _ greater
    rw [add_mul] at next
    omega

theorem lt_held (lt : rank < size) : k < held n size rank ↔ k * size + rank < n := by
  have rest := mod_lt n (zero_lt_of_lt lt)
  nth_rewrite 2 [← div_add_mod' n size]
  rw [lex_lt lt rest.le, held]
  split <;> omega

variable {m : Nat}

theorem held_mono (lt : rank < size) (fewer : m ≤ n) : held m size rank ≤ held n size rank := by
  by_contra more
  exact lt_irrefl _ ((lt_held lt).mpr (((lt_held lt).mp (not_le.mp more)).trans_le fewer))

theorem held_mul (pos : 0 < size) (m rank : Nat) : held (m * size) size rank = m := by
  unfold held
  rw [Nat.mul_div_cancel _ pos, Nat.mul_mod_left, if_neg (Nat.not_lt_zero _), Nat.add_zero]

theorem filter_range_eq_map {f : Nat → Nat} {p : Nat → Bool} (mono : StrictMono f)
    (mem : ∀ j, j < n ∧ p j = true ↔ ∃ k < m, f k = j) : (range n).filter p = (range m).map f := by
  refine Pairwise.eq_of_mem_iff (r := (· < ·)) (pairwise_lt_range.filter p) ?_ fun j => ?_
  · rw [pairwise_map]
    exact pairwise_lt_range.imp fun less => mono less
  · simpa [mem_filter, mem_map] using mem j

theorem strictMono_place (lt : rank < size) : StrictMono fun k => k * size + rank :=
  fun _ _ less => Nat.add_lt_add_right (Nat.mul_lt_mul_of_pos_right less (Nat.zero_lt_of_lt lt)) _

theorem filter_range (lt : rank < size) (n : Nat) :
    (range n).filter (· % size = rank) = (range (held n size rank)).map (· * size + rank) := by
  refine filter_range_eq_map (strictMono_place lt) fun j => ?_
  simp only [lt_held lt, decide_eq_true_eq]
  constructor
  · rintro ⟨below, rfl⟩
    exact ⟨j / size, by rwa [div_add_mod'], div_add_mod' _ _⟩
  · rintro ⟨k, below, rfl⟩
    exact ⟨below, by rw [mul_add_mod', mod_eq_of_lt lt]⟩

theorem held_succ (lt : rank < size) (n : Nat) :
    held (n + 1) size rank = held n size rank + if n % size = rank then 1 else 0 := by
  have count : ∀ n, held n size rank = ((range n).filter (· % size = rank)).length :=
    fun n => by simp [filter_range lt]
  rw [count, count, range_succ, filter_append, length_append]
  split <;> rename_i here <;> simp [here]

theorem filter_between {m n : Nat} (fits : n ≤ m) (c : Nat) :
    (range m).filter (fun q => c ≤ q ∧ q < n) = (range (n - c)).map (c + ·) := by
  refine filter_range_eq_map (fun _ _ less => Nat.add_lt_add_left less c) fun j => ?_
  rw [decide_eq_true_eq]
  exact ⟨fun lt => ⟨j - c, by omega, by omega⟩, fun ⟨k, below, same⟩ => by omega⟩

theorem filter_range_from (lt : rank < size) (n c : Nat) :
    (range n).filter (fun j => c * size ≤ j ∧ j % size = rank) =
      (range (held n size rank - c)).map fun k => (c + k) * size + rank := by
  refine filter_range_eq_map (fun _ _ less => strictMono_place lt (Nat.add_lt_add_left less c)) fun j => ?_
  simp only [decide_eq_true_eq, Nat.lt_sub_iff_add_lt', lt_held lt]
  constructor
  · rintro ⟨below, least, rfl⟩
    obtain ⟨k, split⟩ := Nat.exists_eq_add_of_le ((Nat.le_div_iff_mul_le (Nat.zero_lt_of_lt lt)).mpr least)
    exact ⟨k, by rwa [← split, Nat.div_add_mod'], by rw [← split, Nat.div_add_mod']⟩
  · rintro ⟨k, below, rfl⟩
    refine ⟨below, ?_, by rw [Nat.mul_add_mod', Nat.mod_eq_of_lt lt]⟩
    rw [Nat.add_mul]
    omega

/-! ### Runs of items

The ranks get `run` items at a time: item `j` is on rank `j / run % size`. -/

def place (size rank run k : Nat) : Nat := (k / run * size + rank) * run + k % run

section
variable {run : Nat} (lt : rank < size) (several : 0 < run)
include lt several

omit lt in
theorem place_div (k : Nat) : place size rank run k / run = k / run * size + rank := by
  rw [place, mul_comm, mul_add_div several, div_eq_of_lt (mod_lt k several), add_zero]

theorem place_rank (k : Nat) : place size rank run k / run % size = rank := by
  rw [place_div several, mul_add_mod', mod_eq_of_lt lt]

theorem place_round (k : Nat) : place size rank run k / run / size = k / run := by
  rw [place_div several, mul_comm, mul_add_div (zero_lt_of_lt lt), div_eq_of_lt lt, add_zero]

omit lt several in
theorem place_offset (k : Nat) : place size rank run k % run = k % run := by
  rw [place, mul_add_mod', mod_mod]

omit lt in
theorem exists_place {j : Nat} (here : j / run % size = rank) :
    place size rank run (j / run / size * run + j % run) = j := by
  have round : (j / run / size * run + j % run) / run = j / run / size := by
    rw [mul_comm, mul_add_div several, div_eq_of_lt (mod_lt j several), add_zero]
  rw [place, round, mul_add_mod', mod_mod, ← here, div_add_mod', div_add_mod']

theorem strictMono_run : StrictMono (place size rank run) := by
  intro k k' less
  have low := mod_lt k several
  have low' := mod_lt k' several
  rw [← div_add_mod' k run, ← div_add_mod' k' run, lex_lt low low'.le] at less
  rw [place, place, lex_lt low low'.le, lex_lt lt lt.le]
  rcases less with less | ⟨same, less⟩
  · exact .inl (.inl less)
  · exact .inr ⟨by rw [same], less⟩

theorem place_le_next {other : Nat} (k : Nat) : place size rank run k ≤ place size other run (k + run) := by
  rw [place, place, add_div_right _ several, add_mod_right]
  refine Nat.add_le_add_right (mul_le_mul_right run ?_) _
  rw [succ_mul]
  omega

theorem place_virtual (count k : Nat) : place size rank run k / (run * count * size) = k / (run * count) := by
  rw [Nat.mul_right_comm, ← Nat.div_div_eq_div_mul, ← Nat.div_div_eq_div_mul,
    place_round lt several, Nat.div_div_eq_div_mul]

end

section
variable (run count size p : Nat)

theorem virtual_rank : p % (run * count * size) / run % size = p / run % size := by
  rw [mul_assoc, mod_mul_right_div_self, mod_mul_left_mod]

theorem virtual_round : p % (run * count * size) / (size * run) = p / run / size % count := by
  rw [Nat.mul_right_comm, Nat.mul_comm size, Nat.mod_mul_right_div_self, Nat.div_div_eq_div_mul]

theorem virtual_offset : p % (run * count * size) % run = p % run :=
  mod_mod_of_dvd _ ⟨count * size, mul_assoc _ _ _⟩

end

theorem sum_held (several : 0 < m) (lt : rank < size) (n : Nat) :
    ((range m).map fun q => held n (m * size) (q * size + rank)).sum = held n size rank := by
  have places : ∀ q ∈ range m, q * size + rank < m * size := by
    intro q mem
    have next : (q + 1) * size ≤ m * size := mul_le_mul_right _ (mem_range.mp mem)
    rw [add_mul] at next
    omega
  have single : ∀ (a k : Nat), ((range k).map fun q => if a = q then 1 else 0).sum = if a < k then 1
    else 0 := by
    intro a k
    induction k with
    | zero => rfl
    | succ k ih =>
      rw [range_succ, map_append, sum_append_nat, ih, map_singleton, sum_singleton]
      split <;> split <;> split <;> omega
  induction n with
  | zero =>
    have none : ∀ p r, held 0 p r = 0 := fun p r => by
      rw [held, Nat.zero_div, Nat.zero_mod, if_neg (Nat.not_lt_zero _)]
    simp [none]
  | succ n ih =>
    have each : ((range m).map fun q => held (n + 1) (m * size) (q * size + rank)) =
        (range m).map fun q => held n (m * size) (q * size + rank) +
          if n % size = rank ∧ n % (m * size) / size = q then 1 else 0 := by
      refine map_congr_left fun q mem => ?_
      rw [held_succ (places q mem)]
      congr 1
      have same : n % (m * size) = q * size + rank ↔ n % size = rank ∧ n % (m * size) / size = q := by
        have reduced : n % (m * size) % size = n % size := mod_mod_of_dvd _ (dvd_mul_left _ _)
        constructor
        · intro equal
          rw [← reduced, equal, mul_add_mod', mod_eq_of_lt lt, mul_comm,
            mul_add_div (by omega), div_eq_of_lt lt]
          exact ⟨rfl, rfl⟩
        · rintro ⟨here, rfl⟩
          rw [← reduced] at here
          rw [← here]
          exact (div_add_mod' _ _).symm
      exact if_congr same rfl rfl
    rw [each, sum_map_add, ih, held_succ lt]
    congr 1
    by_cases here : n % size = rank
    · have less : n % (m * size) / size < m := by
        rw [div_lt_iff_lt_mul (by omega)]
        exact mod_lt _ (mul_pos several (by omega))
      simp only [here, true_and]
      rw [single, if_pos less, if_pos trivial]
    · simp [here]

/-! ### Lists of ranks -/

variable {i : Nat}

theorem flatMap_range_single {f : Nat → List α} (lt : i < n) (others : ∀ j < n, j ≠ i → f j = []) :
    (range n).flatMap f = f i := by
  induction n with
  | zero => cases lt
  | succ n ih =>
    rw [range_succ, flatMap_append, flatMap_singleton]
    by_cases last : i = n
    · subst last
      have none : (range i).flatMap f = [] := flatMap_eq_nil_iff.mpr fun j mem =>
        others j (Nat.lt_succ_of_lt (mem_range.mp mem)) (Nat.ne_of_lt (mem_range.mp mem))
      rw [none, nil_append]
    · rw [ih (by omega) fun j less => others j (by omega), others n (lt_succ_self n) (Ne.symm
        last), append_nil]

variable {p : α → Bool}

theorem filter_map_range_single {f : Nat → α} (lt : i < n) (here : p (f i) = true)
    (others : ∀ j < n, j ≠ i → p (f j) = false) : ((range n).map f).filter p = [f i] := by
  rw [← flatMap_singleton' ((range n).map f), filter_flatMap, flatMap_map]
  rw [flatMap_range_single lt fun j less ne => by rw [filter_singleton, others j less ne]; rfl, filter_singleton, here]
  rfl

theorem flatMap_range_range (f : Nat → Nat → α) (m : Nat) (pos : 0 < k) :
    ((range m).flatMap fun a => (range k).map (f a)) = (range (m * k)).map fun x => f (x / k) (x % k) := by
  induction m with
  | zero => simp
  | succ m ih =>
    rw [range_succ, flatMap_append, flatMap_singleton, ih, succ_mul, range_add, map_append, map_map]
    congr 1
    refine map_congr_left fun b mem => ?_
    have less := mem_range.mp mem
    show f m b = f ((m * k + b) / k) ((m * k + b) % k)
    rw [mul_add_mod', mod_eq_of_lt less, mul_comm, mul_add_div pos, div_eq_of_lt less, add_zero]

theorem zipIdx_ranks (f : Nat → α) (n : Nat) : ((range n).map f).zipIdx = (range n).map fun i => (f i, i) := by
  induction n with
  | zero => rfl
  | succ n ih =>
    rw [range_succ, map_append, zipIdx_append, ih, map_append, length_map, length_range]
    simp

/-! ### Moving one entry to the end -/

def moveToEnd (i : Nat) (xs : List α) : List α := xs.eraseIdx i ++ xs[i]?.toList

theorem moveToEnd_map (f : α → β) (i : Nat) (xs : List α) :
    moveToEnd i (xs.map f) = (moveToEnd i xs).map f := by
  unfold moveToEnd
  rw [map_append, eraseIdx_map, getElem?_map]
  cases xs[i]? <;> rfl

theorem moveToEnd_perm (i : Nat) (xs : List α) : (moveToEnd i xs).Perm xs := by
  unfold moveToEnd
  rcases lt_or_ge i xs.length with lt | outside
  · rw [getElem?_eq_getElem lt]
    exact perm_append_comm.trans (getElem_cons_eraseIdx_perm lt)
  · rw [getElem?_eq_none outside, eraseIdx_of_length_le outside]
    simp

theorem filter_moveToEnd {xs : List α} (last : ∀ x ∈ xs.drop (i + 1), p x = false) :
    (moveToEnd i xs).filter p = xs.filter p := by
  unfold moveToEnd
  rcases lt_or_ge i xs.length with lt | outside
  · have none : (xs.drop (i + 1)).filter p = [] := filter_eq_nil_iff.mpr fun x mem => by rw [last x mem]; simp
    have whole : xs.filter p = (xs.take i).filter p ++ ([xs[i]].filter p ++ (xs.drop (i + 1)).filter p) := by
      rw [← filter_append, ← filter_append, singleton_append, getElem_cons_drop, take_append_drop]
    rw [whole, none, append_nil, filter_append, eraseIdx_eq_take_drop_succ, filter_append, none,
      append_nil, getElem?_eq_getElem lt]
    rfl
  · rw [getElem?_eq_none outside, eraseIdx_of_length_le outside]
    simp

end Striping
