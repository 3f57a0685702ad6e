import TurboQuant.Lib.Outcome
import TurboQuant.Lib.Striping
import Mathlib.Data.List.Iterate
import Mathlib.Data.Int.ModEq

/-!
The placement that the balancer starts from.
-/

namespace TurboQuant.Ascend.Eplb
open List Striping

inductive InitError where
  | zeroDivision
  | notDivisible
  | ragged
  deriving DecidableEq

def divPoint (n sections i : Nat) : Nat := i * (n / sections) + min i (n % sections)

/-- `np.array_split` of the first `n` experts. -/
def arraySplit (n sections : Nat) : List (List Int) :=
  (range sections).map fun i => (range (held n sections i)).map fun t =>
    ((divPoint n sections i + t : Nat) : Int)

/-- The expert after `last`. The remainder by zero is zero in numpy. -/
def succMod (n last : Int) : Int := if n = 0 then 0 else (last + 1).fmod n

def extendGroup (n : Int) (j : Nat) (group : List Int) : List Int :=
  match group.getLast? with
  | none => group ++ [(j : Int)]
  | some last => group ++ [succMod n last]

def generateGlobalPlacement (nExpert epSize nRedundant numSharedExperts : Nat) :
    Except InitError (List (List Int)) :=
  let n : Int := nExpert - numSharedExperts
  if epSize = 0 then .error .zeroDivision
  else if (n + nRedundant) % epSize ≠ 0 then .error .notDivisible
  else
    let groups := (range nRedundant).foldl (fun groups i =>
      let j := i % epSize + 1
      groups.modify (epSize - j) (extendGroup n j)) (arraySplit n.toNat epSize)
    let groups := if numSharedExperts > 0 then
        groups.mapIdx fun i group => group ++ [n + (i % numSharedExperts : Nat)] else groups
    if groups.all (·.length = groups.head?.elim 0 length) then .ok groups else .error .ragged

/-- A table with one row for each rank, from which the expert maps of the ranks can be read. -/
structure ValidTable (nExpert : Nat) (table : List (List Int)) : Prop where
  rectangular : ∀ row ∈ table, ∀ row' ∈ table, row.length = row'.length
  inside : ∀ row ∈ table, ∀ e ∈ row, 0 ≤ e ∧ e < nExpert
  distinct : ∀ row ∈ table, row.Nodup
  covered : ∀ e : Nat, e < nExpert → ∃ row ∈ table, (e : Int) ∈ row

/-- No rank has more slots than there are routed experts, every shared expert has a rank, and the
number that an empty group takes from its place is an expert that the rank does not get as its
shared one. -/
def Spreads (nExpert epSize nRedundant numSharedExperts : Nat) : Prop :=
  let n := nExpert - numSharedExperts
  numSharedExperts ≤ nExpert ∧
    if n = 0 then nRedundant = 0 ∧ numSharedExperts ≤ epSize ∨
      nRedundant = epSize ∧ numSharedExperts = epSize + 1 ∧ epSize % 2 = 1
    else numSharedExperts ≤ epSize ∧ (n + nRedundant) / epSize ≤ n ∧
      ∀ j, 1 ≤ j → j ≤ epSize - n → j < nExpert ∧ j ≠ n + (epSize - j) % numSharedExperts

/-! ### Groups are runs of experts -/

section
variable {n : Int} {ep : Nat}

theorem extendGroup_iterate {a : Int} {j k : Nat} (first : k = 0 → a = j) :
    extendGroup n j (iterate (succMod n) a k) = iterate (succMod n) a (k + 1) := by
  cases k with
  | zero => simp [extendGroup, iterate, first rfl]
  | succ k =>
    rw [extendGroup, iterate_add _ _ (k + 1), iterate_add _ _ k]
    simp [iterate, Function.iterate_succ_apply']

theorem modify_map_range {α : Type} (g : Nat → α) (f : α → α) (i : Nat) :
    ((range ep).map g).modify i f = (range ep).map fun k => if k = i then f (g k) else g k := by
  apply ext_getElem?
  intro k
  by_cases lt : k < ep
  · by_cases here : i = k
    · simp [lt, here]
    · simp [lt, here, Ne.symm here]
  · simp [lt]

theorem succMod_natCast {n : Nat} (pos : 0 < n) (x : Nat) : succMod n x = ((x + 1) % n : Nat) := by
  rw [succMod, if_neg (by omega), Int.fmod_eq_emod_of_nonneg _ (Int.natCast_nonneg n)]
  rfl

theorem iterate_succMod {n a : Nat} (lt : a < n) (t : Nat) : (succMod n)^[t] a = ((a + t) % n : Nat) := by
  induction t with
  | zero => rw [Function.iterate_zero_apply, Nat.add_zero, Nat.mod_eq_of_lt lt]
  | succ t ih => rw [Function.iterate_succ_apply', ih, succMod_natCast (Nat.zero_lt_of_lt lt),
    Nat.mod_add_mod]; rfl

def groupHead (n epSize k : Nat) : Nat := if k < n then divPoint n epSize k else epSize - k

theorem divPoint_succ (n k : Nat) : divPoint n ep (k + 1) = divPoint n ep k + held n ep k := by
  rw [divPoint, divPoint, held, Nat.add_mul, Nat.one_mul]
  split <;> omega

theorem divPoint_le (n : Nat) {k : Nat} (le : k ≤ ep) : divPoint n ep k ≤ n := by
  have whole := Nat.div_add_mod n ep
  have less := Nat.mul_le_mul_right (n / ep) le
  rw [divPoint]
  omega

theorem iterate_section {n k : Nat} (lt : k < ep) : iterate (succMod n) (groupHead n ep k) (held n ep k) =
    (range (held n ep k)).map fun t => ((divPoint n ep k + t : Nat) : Int) := by
  rw [← range_map_iterate]
  refine map_congr_left fun t mem => ?_
  have first := (lt_held lt).mp (Nat.zero_lt_of_lt (mem_range.mp mem))
  have stop := divPoint_le n (show k + 1 ≤ ep from lt)
  rw [divPoint_succ] at stop
  rw [mem_range] at mem
  rw [groupHead, if_pos (by omega), iterate_succMod (by omega), Nat.mod_eq_of_lt (by omega)]

theorem arraySplit_eq (n : Int) : arraySplit n.toNat ep =
    (range ep).map fun k => iterate (succMod n) (groupHead n.toNat ep k) (held n.toNat ep k) := by
  refine map_congr_left fun k mem => ?_
  cases n with
  | ofNat n => exact (iterate_section (mem_range.mp mem)).symm
  | negSucc n => simp [held, iterate]

theorem foldl_extendGroup (n : Int) (rounds : Nat) :
    (range rounds).foldl (fun groups i => groups.modify (ep - (i % ep + 1)) (extendGroup n (i % ep + 1)))
      (arraySplit n.toNat ep) = (range ep).map fun k => iterate (succMod n) (groupHead n.toNat ep k)
        (held n.toNat ep k + held rounds ep (ep - 1 - k)) := by
  induction rounds with
  | zero => simp [arraySplit_eq, held]
  | succ rounds ih =>
    rw [range_succ, foldl_append, ih, foldl_cons, foldl_nil, modify_map_range]
    refine map_congr_left fun k mem => ?_
    have inside := mem_range.mp mem
    have rest := Nat.mod_lt rounds (Nat.zero_lt_of_lt inside)
    rw [held_succ (by omega)]
    split
    · rw [if_pos (by omega), extendGroup_iterate, Nat.add_assoc]
      intro empty
      have none := (lt_held (k := 0) (n := n.toNat) inside).not
      rw [groupHead, if_neg (by omega)]
      omega
    · rw [if_neg (by omega), Nat.add_zero]

theorem held_add {n m k : Nat} (lt : k < ep) (whole : ep ∣ n + m) :
    held n ep k + held m ep (ep - 1 - k) = (n + m) / ep := by
  have positive := Nat.zero_lt_of_lt lt
  have first := Nat.mod_lt n positive
  have second := Nat.mod_lt m positive
  rw [Nat.add_div positive, held, held]
  obtain ⟨c, rests⟩ : ep ∣ n % ep + m % ep := by
    rwa [Nat.dvd_iff_mod_eq_zero, ← Nat.add_mod, ← Nat.dvd_iff_mod_eq_zero]
  have few : c < 2 := by
    by_contra many
    have := Nat.mul_le_mul_left ep (not_lt.mp many)
    omega
  obtain rfl | rfl : c = 0 ∨ c = 1 := by omega
  all_goals split <;> split <;> split <;> omega

theorem mem_iterate_succMod {n a m : Nat} {e : Int} (pos : 0 < n) (mem : e ∈ iterate (succMod n) a m) :
    e = a ∨ ∃ x < n, e = (x : Nat) := by
  obtain ⟨t, -, rfl⟩ := mem_iterate.mp mem
  cases t with
  | zero => exact .inl rfl
  | succ t =>
    rw [Function.iterate_succ_apply, succMod_natCast pos, iterate_succMod (Nat.mod_lt _ pos)]
    exact .inr ⟨_, Nat.mod_lt _ pos, rfl⟩

theorem nodup_iterate_succMod {n a m : Nat} (few : m ≤ n) : (iterate (succMod n) a m).Nodup := by
  have inside : ∀ {a m : Nat}, a < n → m ≤ n → (iterate (succMod n) a m).Nodup := by
    intro a m lt few
    rw [← range_map_iterate]
    refine nodup_range.map_on fun t isT t' isT' same => ?_
    rw [mem_range] at isT isT'
    rw [iterate_succMod lt, iterate_succMod lt, Int.natCast_inj] at same
    exact (Nat.ModEq.add_left_cancel' a same).eq_of_lt_of_lt (isT.trans_le few) (isT'.trans_le few)
  by_cases lt : a < n
  · exact inside lt few
  cases m with
  | zero => exact nodup_nil
  | succ m =>
    have positive := Nat.zero_lt_of_lt few
    rw [iterate, succMod_natCast positive, nodup_cons]
    refine ⟨fun again => ?_, inside (Nat.mod_lt _ positive) (Nat.le_of_succ_le few)⟩
    have := Nat.mod_lt (a + 1) positive
    rcases mem_iterate_succMod positive again with same | ⟨x, below, same⟩
    · omega
    · omega

end

section
variable {nExpert ep nRedundant numSharedExperts : Nat} {table : List (List Int)}

theorem rows_eq (ran : generateGlobalPlacement nExpert ep nRedundant numSharedExperts = .ok table) :
    let n : Int := nExpert - numSharedExperts
    0 < ep ∧ (n + nRedundant) % ep = 0 ∧ table = (range ep).map fun k =>
      iterate (succMod n) (groupHead n.toNat ep k) (held n.toNat ep k + held nRedundant ep (ep - 1 - k)) ++
        if 0 < numSharedExperts then [n + (k % numSharedExperts : Nat)] else [] := by
  unfold generateGlobalPlacement at ran
  dsimp only at ran
  split at ran
  · cases ran
  split at ran
  · cases ran
  rename_i some divisible
  refine ⟨Nat.pos_of_ne_zero some, not_not.mp divisible, ?_⟩
  rw [foldl_extendGroup] at ran
  by_cases shared : 0 < numSharedExperts
  · rw [if_pos shared] at ran
    split at ran
    · cases ran
      apply ext_getElem?
      intro k
      by_cases lt : k < ep
      · simp [lt, shared]
      · simp [lt]
    · cases ran
  · rw [if_neg shared] at ran
    split at ran
    · cases ran
      simp [shared]
    · cases ran

def rankRow (n epSize slots shared k : Nat) : List Int :=
  iterate (succMod n) (groupHead n epSize k) slots ++
    if 0 < shared then [((n + k % shared : Nat) : Int)] else []

theorem mem_rankRow {n ss shared k : Nat} {e : Int} : e ∈ rankRow n ep ss shared k ↔
    e ∈ iterate (succMod n) (groupHead n ep k) ss ∨ 0 < shared ∧ e = (n + k % shared : Nat) := by
  rw [rankRow, mem_append]
  split <;> simp [*]

theorem placement_rows (shared : numSharedExperts ≤ nExpert)
    (ran : generateGlobalPlacement nExpert ep nRedundant numSharedExperts = .ok table) :
    let n := nExpert - numSharedExperts
    0 < ep ∧ ep ∣ n + nRedundant ∧
      table = (range ep).map (rankRow n ep ((n + nRedundant) / ep) numSharedExperts) := by
  obtain ⟨pos, divisible, rows⟩ := rows_eq ran
  rw [← Int.natCast_sub shared] at divisible rows
  have whole : ep ∣ nExpert - numSharedExperts + nRedundant :=
    Int.natCast_dvd_natCast.mp (Int.dvd_of_emod_eq_zero divisible)
  refine ⟨pos, whole, rows.trans (map_congr_left fun k mem => ?_)⟩
  rw [rankRow, Int.toNat_natCast, held_add (mem_range.mp mem) whole]
  rfl

end

/-! ### When the table is valid -/

section
variable {n ep slots ss shared : Nat}

theorem validTable_rows {row : Nat → List Int} : ValidTable n ((range ep).map row) ↔
    (∀ k < ep, ∀ k' < ep, (row k).length = (row k').length) ∧
      (∀ k < ep, (∀ e ∈ row k, 0 ≤ e ∧ e < n) ∧ (row k).Nodup) ∧ ∀ e < n, ∃ k < ep, (e : Int) ∈ row k := by
  constructor
  · rintro ⟨rectangular, inside, distinct, covered⟩
    simp only [mem_map, mem_range, forall_exists_index, and_imp, forall_apply_eq_imp_iff₂,
      exists_exists_and_eq_and] at *
    exact ⟨rectangular, fun k lt => ⟨inside k lt, distinct k lt⟩, covered⟩
  · rintro ⟨rectangular, each, covered⟩
    constructor
    all_goals simp only [mem_map, mem_range, forall_exists_index, and_imp, forall_apply_eq_imp_iff₂,
      exists_exists_and_eq_and]
    · exact rectangular
    · exact fun k lt => (each k lt).1
    · exact fun k lt => (each k lt).2
    · exact covered

theorem divPoint_lt {k : Nat} (lt : k < ep) (below : k < n) : divPoint n ep k < n := by
  have stop := divPoint_le n (show k + 1 ≤ ep from lt)
  have some := (lt_held (k := 0) (n := n) lt).mpr (by omega)
  rw [divPoint_succ] at stop
  omega

theorem exists_section {e k : Nat} (below : e < divPoint n ep k) :
    ∃ j < k, divPoint n ep j ≤ e ∧ e < divPoint n ep j + held n ep j := by
  induction k with
  | zero => simp [divPoint] at below
  | succ k ih =>
    rw [divPoint_succ] at below
    by_cases earlier : e < divPoint n ep k
    · obtain ⟨j, before, here⟩ := ih earlier
      exact ⟨j, by omega, here⟩
    · exact ⟨k, by omega, by omega, below⟩

theorem exists_row {e : Nat} (pos : 0 < ep) (enough : ∀ k < ep, held n ep k ≤ slots) (below : e < n) :
    ∃ k < ep, (e : Int) ∈ iterate (succMod n) (groupHead n ep k) slots := by
  have last : divPoint n ep ep = n := by
    rw [divPoint, Nat.min_eq_right (Nat.mod_lt n pos).le, Nat.div_add_mod]
  obtain ⟨k, lt, from_, until_⟩ := exists_section (last.symm ▸ below)
  have first := (lt_held (k := 0) (n := n) lt).mp (by omega)
  have fits := enough k lt
  refine ⟨k, lt, mem_iterate.mpr ⟨e - divPoint n ep k, by omega, ?_⟩⟩
  rw [groupHead, if_pos (by omega), iterate_succMod (divPoint_lt lt (by omega)), Nat.add_sub_cancel' from_,
    Nat.mod_eq_of_lt below]

section
variable (routed : 0 < n) (pos : 0 < ep)
include routed pos

theorem spreads_of_valid (some : 0 < slots)
    (valid : ValidTable (n + shared) ((range ep).map (rankRow n ep slots shared))) :
    shared ≤ ep ∧ slots ≤ n ∧ ∀ j, 1 ≤ j → j ≤ ep - n → j < n + shared ∧ j ≠ n + (ep - j) % shared := by
  obtain ⟨-, each, covered⟩ := validTable_rows.mp valid
  refine ⟨?_, ?_, fun j least most => ?_⟩
  · by_contra more
    obtain ⟨k, lt, mem⟩ := covered (n + ep) (by omega)
    rcases mem_rankRow.mp mem with own | ⟨-, same⟩
    · rcases mem_iterate_succMod routed own with same | ⟨x, below, same⟩
      · by_cases full : k < n
        · have := divPoint_lt lt full
          rw [groupHead, if_pos full] at same
          omega
        · rw [groupHead, if_neg full] at same
          omega
      · omega
    · have := Nat.mod_le k shared
      omega
  · by_contra more
    have distinct := (each 0 pos).2.of_append_left
    rw [← range_map_iterate] at distinct
    have start : groupHead n ep 0 = 0 := by simp [groupHead, routed, divPoint]
    have := inj_on_of_nodup_map distinct (mem_range.mpr some) (mem_range.mpr (not_le.mp more)) (by
      rw [start, Function.iterate_zero_apply, iterate_succMod routed, Nat.zero_add, Nat.mod_self])
    omega
  · have head : groupHead n ep (ep - j) = j := by
      rw [groupHead, if_neg (by omega)]
      omega
    have own : (j : Int) ∈ iterate (succMod n) (groupHead n ep (ep - j)) slots :=
      mem_iterate.mpr ⟨0, some, congrArg Nat.cast head.symm⟩
    obtain ⟨lt, distinct⟩ := each (ep - j) (by omega)
    have below := (lt j (mem_rankRow.mpr (.inl own))).2
    refine ⟨by omega, fun same => ?_⟩
    rw [rankRow, if_pos (by omega), ← same, nodup_append] at distinct
    exact distinct.2.2 j own j (mem_singleton.mpr rfl) rfl

theorem valid_of_spreads (enough : ∀ k < ep, held n ep k ≤ ss) (few : shared ≤ ep) (room : ss ≤ n)
    (empty : ∀ j, 1 ≤ j → j ≤ ep - n → j < n + shared ∧ j ≠ n + (ep - j) % shared) :
    ValidTable (n + shared) ((range ep).map (rankRow n ep ss shared)) := by
  refine validTable_rows.mpr ⟨fun k _ k' _ => ?_, fun k lt => ?_, fun e below => ?_⟩
  · unfold rankRow
    split <;> simp
  · have head : groupHead n ep k < n + shared ∧ groupHead n ep k ≠ n + k % shared := by
      by_cases full : k < n
      · have below := divPoint_lt lt full
        rw [groupHead, if_pos full]
        omega
      · have taken := empty (ep - k) (by omega) (by omega)
        rw [Nat.sub_sub_self lt.le] at taken
        rwa [groupHead, if_neg full]
    refine ⟨fun e mem => ?_, ?_⟩
    · rcases mem_rankRow.mp mem with own | ⟨some, rfl⟩
      · rcases mem_iterate_succMod routed own with rfl | ⟨x, below, rfl⟩ <;> omega
      · have := Nat.mod_lt k some
        omega
    · unfold rankRow
      split
      · refine nodup_append.mpr ⟨nodup_iterate_succMod room, nodup_singleton _,
          fun e own e' isShared same => ?_⟩
        rw [mem_singleton.mp isShared] at same
        rcases mem_iterate_succMod routed own with rfl | ⟨x, below, rfl⟩ <;> omega
      · rw [append_nil]
        exact nodup_iterate_succMod room
  · by_cases isRouted : e < n
    · obtain ⟨k, lt, mem⟩ := exists_row pos enough isRouted
      exact ⟨k, lt, mem_rankRow.mpr (.inl mem)⟩
    · refine ⟨e - n, by omega, mem_rankRow.mpr (.inr ⟨by omega, ?_⟩)⟩
      rw [Nat.mod_eq_of_lt (by omega), Nat.add_sub_cancel' (by omega)]

end

/-- Without routed experts every group is empty before it gets redundant experts. -/
theorem valid_iff_unrouted (pos : 0 < ep) : ValidTable shared ((range ep).map (rankRow 0 ep ss shared)) ↔
      ss = 0 ∧ shared ≤ ep ∨ ss = 1 ∧ shared = ep + 1 ∧ ep % 2 = 1 := by
  have row : ∀ k, rankRow 0 ep ss shared k =
      iterate (succMod 0) (ep - k : Nat) ss ++ if 0 < shared then [((k % shared : Nat) : Int)] else [] := by
    intro k
    rw [rankRow, groupHead, if_neg (Nat.not_lt_zero k), Nat.zero_add]
    rfl
  simp only [validTable_rows, row]
  constructor
  · rintro ⟨-, each, covered⟩
    rcases ss with _ | _ | ss
    · refine .inl ⟨rfl, ?_⟩
      by_contra more
      obtain ⟨k, lt, mem⟩ := covered ep (by omega)
      have := Nat.mod_le k shared
      rw [if_pos (by omega), iterate, nil_append, mem_singleton] at mem
      omega
    · have below := ((each 0 pos).1 ep (by simp [iterate])).2
      refine .inr ⟨rfl, ?_, ?_⟩
      · obtain ⟨k, lt, mem⟩ := covered (shared - 1) (by omega)
        have := Nat.mod_le k shared
        simp only [iterate, if_pos (show 0 <
          shared by omega), singleton_append, mem_cons, not_mem_nil, or_false] at mem
        omega
      · by_contra even
        have middle := (each (ep / 2) (by omega)).2
        rw [if_pos (by omega), Nat.mod_eq_of_lt (by omega)] at middle
        simp [iterate] at middle
        omega
    · have below := ((each 0 pos).1 ep (by simp [iterate])).2
      have twice := (each 0 pos).2
      simp [iterate, succMod, show 0 < shared by omega] at twice
  · rintro (⟨rfl, few⟩ | ⟨rfl, rfl, odd⟩)
    · refine ⟨fun k _ k' _ => ?_, fun k lt => ?_, fun e below => ⟨e, by omega, ?_⟩⟩
      · split <;> rfl
      · split
        · rename_i some
          have := Nat.mod_lt k some
          simp only [iterate, nil_append, mem_singleton, nodup_singleton, and_true]
          omega
        · simp [iterate]
      · rw [if_pos (by omega), Nat.mod_eq_of_lt below]
        simp [iterate]
    · refine ⟨fun k _ k' _ => rfl, fun k lt => ?_, fun e below => ?_⟩
      · rw [if_pos ep.succ_pos, Nat.mod_eq_of_lt (by omega)]
        simp only [iterate, singleton_append, mem_cons, not_mem_nil, or_false, nodup_cons]
        refine ⟨fun e mem => ?_, ?_, not_false, nodup_nil⟩ <;> omega
      · by_cases last : e = ep
        · exact ⟨0, pos, by simp [iterate, last]⟩
        · refine ⟨e, by omega, ?_⟩
          rw [if_pos ep.succ_pos, Nat.mod_eq_of_lt below]
          simp

end

/-- An accepted placement is valid exactly if the experts spread over the ranks. -/
theorem generateGlobalPlacement_valid_iff {nExpert epSize nRedundant numSharedExperts : Nat}
    {table : List (List Int)}
    (ran : generateGlobalPlacement nExpert epSize nRedundant numSharedExperts = .ok table) :
    ValidTable nExpert table ↔ Spreads nExpert epSize nRedundant numSharedExperts := by
  by_cases shared : numSharedExperts ≤ nExpert
  · obtain ⟨pos, whole, rfl⟩ := placement_rows shared ran
    unfold Spreads
    obtain ⟨n, rfl⟩ := Nat.exists_eq_add_of_le' shared
    simp only [Nat.add_sub_cancel, shared, true_and] at whole ⊢
    obtain ⟨slots, total⟩ := whole
    rw [total, Nat.mul_div_cancel_left slots pos]
    rcases Nat.eq_zero_or_pos n with rfl | routed
    · rw [if_pos rfl, Nat.zero_add, valid_iff_unrouted pos]
      rw [Nat.zero_add] at total
      rw [total, Nat.mul_eq_zero, or_iff_right pos.ne', Nat.mul_eq_left pos.ne']
    · rw [if_neg routed.ne']
      have enough : ∀ k < epSize, held n epSize k ≤ slots := by
        intro k inside
        have sizes := held_add inside (Dvd.intro slots total.symm)
        rw [total, Nat.mul_div_cancel_left slots pos] at sizes
        omega
      have some : 0 < slots := by
        by_contra none
        rw [Nat.eq_zero_of_not_pos none, Nat.mul_zero] at total
        omega
      exact ⟨spreads_of_valid routed pos some, fun ⟨few, room, empty⟩ =>
        valid_of_spreads routed pos enough few room empty⟩
  · obtain ⟨pos, -, rfl⟩ := rows_eq ran
    refine iff_of_false (fun valid => ?_) fun spreads => shared spreads.1
    have first := (valid.inside _ (mem_map_of_mem (mem_range.mpr pos)) (nExpert - numSharedExperts) (by
      rw [if_pos (by omega)]
      simp)).1
    omega

theorem generateGlobalPlacement_valid_shared :
    generateGlobalPlacement 5 2 2 1 = .ok [[0, 1, 2, 4], [2, 3, 0, 4]] ∧
      ValidTable 5 [[0, 1, 2, 4], [2, 3, 0, 4]] := by
  have ran : generateGlobalPlacement 5 2 2 1 = .ok [[0, 1, 2, 4], [2, 3, 0, 4]] := rfl
  refine ⟨ran, (generateGlobalPlacement_valid_iff ran).mpr ⟨by decide, ?_⟩⟩
  exact ⟨by decide, by decide, fun j least most => absurd (least.trans most) (by decide)⟩

/-- The third of four ranks gets expert 2 of experts 0 and 1. -/
theorem generateGlobalPlacement_outside :
    generateGlobalPlacement 2 4 2 0 = .ok [[0], [1], [2], [1]] ∧ ¬ ValidTable 2 [[0], [1], [2], [1]] := by
  refine ⟨rfl, fun valid => ?_⟩
  exact absurd (valid.inside [2] (by decide) 2 (by decide)).2 (by decide)

end TurboQuant.Ascend.Eplb
