import Mathlib.Algebra.BigOperators.Group.List.Basic
import Mathlib.Algebra.Order.Ring.Nat
import Mathlib.Data.List.Nodup

/-!
Claimants that serve themselves from one queue in turn.
-/

namespace Shares
open List

variable {α : Type}

def Apart (counts : α → Prop) (xs ys : List α) : Prop := ∀ x ∈ xs, counts x → x ∉ ys

variable {counts : α → Prop} {xs ys : List α}

theorem Apart.symm (apart : Apart counts xs ys) : Apart counts ys xs :=
  fun x inYs counted inXs => apart x inXs counted inYs

variable {i j : Nat}

theorem pairwise_apart_get {lists : List (List α)} (apart : lists.Pairwise (Apart counts))
    (atI : lists[i]? = some xs) (atJ : lists[j]? = some ys) (ne : i ≠ j) : Apart counts xs ys := by
  obtain ⟨insideI, rfl⟩ := List.getElem_of_getElem? atI
  obtain ⟨insideJ, rfl⟩ := List.getElem_of_getElem? atJ
  rw [List.pairwise_iff_getElem] at apart
  rcases lt_or_gt_of_ne ne with less | greater
  · exact apart i j insideI insideJ less
  · exact (apart j i insideJ insideI greater).symm

variable [DecidableEq α]

instance (counts : α → Prop) [DecidablePred counts] (xs ys : List α) : Decidable (Apart counts xs ys) :=
  inferInstanceAs (Decidable (∀ x ∈ xs, counts x → x ∉ ys))

/-- What each claimant gets: its reserved items and the next ones of the queue. -/
def shares : List α → List (List α × Nat) → List (List α)
  | _, [] => []
  | queue, (reserved, n) :: later =>
    (reserved ++ (queue.filter (· ∉ reserved)).take n) :: shares ((queue.filter (· ∉ reserved)).drop n) later

def leftover : List α → List (List α × Nat) → List α
  | queue, [] => queue
  | queue, (reserved, n) :: later => leftover ((queue.filter (· ∉ reserved)).drop n) later

def Steals : List α → List (List α × Nat) → Prop
  | _, [] => False
  | queue, (reserved, n) :: later =>
    (∃ x ∈ (queue.filter (· ∉ reserved)).take n, ∃ claim ∈ later, x ∈ claim.1) ∨
      Steals ((queue.filter (· ∉ reserved)).drop n) later

instance decidableSteals : (queue : List α) → (claims : List (List α × Nat)) → Decidable (Steals queue claims)
  | _, [] => isFalse id
  | queue, (reserved, n) :: later =>
    have := decidableSteals ((queue.filter (· ∉ reserved)).drop n) later
    inferInstanceAs (Decidable (_ ∨ _))

variable {queue q : List α} {claims cl : List (List α × Nat)} {x : α}

theorem mem_leftover (mem : x ∈ leftover queue cl) : x ∈ queue := by
  induction cl generalizing queue with
  | nil => exact mem
  | cons claim later ih => exact mem_of_mem_filter (mem_of_mem_drop (ih mem))

theorem leftover_nodup (nodup : q.Nodup) : (leftover q cl).Nodup := by
  induction cl generalizing q with
  | nil => exact nodup
  | cons claim later ih => exact ih ((nodup.filter _).sublist (drop_sublist _ _))

variable {share : List α}

theorem mem_share (inShares : share ∈ shares queue cl) (mem : x ∈ share) :
    (∃ claim ∈ cl, x ∈ claim.1) ∨ x ∈ queue := by
  induction cl generalizing queue with
  | nil => cases inShares
  | cons claim later ih =>
    rcases mem_cons.mp inShares with rfl | inShares
    · rcases mem_append.mp mem with reserved | taken
      · exact .inl ⟨claim, mem_cons_self, reserved⟩
      · exact .inr (mem_of_mem_filter (mem_of_mem_take taken))
    · rcases ih inShares with ⟨other, isLater, reserved⟩ | inQueue
      · exact .inl ⟨other, mem_cons_of_mem _ isLater, reserved⟩
      · exact .inr (mem_of_mem_filter (mem_of_mem_drop inQueue))

theorem mem_share_get {i : Nat} (at_ : (shares queue cl)[i]? = some share) (mem : x ∈ share) :
    (∃ claim, cl[i]? = some claim ∧ x ∈ claim.1) ∨ x ∈ queue := by
  induction cl generalizing queue i with
  | nil => cases at_
  | cons claim later ih =>
    cases i with
    | zero =>
      cases at_
      rcases mem_append.mp mem with reserved | taken
      · exact .inl ⟨claim, rfl, reserved⟩
      · exact .inr (mem_of_mem_filter (mem_of_mem_take taken))
    | succ i => exact (ih at_).imp_right fun inQueue => mem_of_mem_filter (mem_of_mem_drop inQueue)

theorem length_shares : (shares q cl).length = cl.length := by
  induction cl generalizing q with
  | nil => rfl
  | cons claim later ih => rw [shares, length_cons, length_cons, ih]

theorem reserved_subset_share {i : Nat} {claim : List α × Nat} (at_ : cl[i]? = some claim)
    (here : (shares q cl)[i]? = some share) : claim.1 ⊆ share := by
  induction cl generalizing q i with
  | nil => cases at_
  | cons first later ih =>
    cases i with
    | zero =>
      cases at_
      cases here
      exact subset_append_left _ _
    | succ i => exact ih at_ here

theorem leftover_notMem_share (nodup : q.Nodup) (mem : x ∈ leftover q cl)
    (inShares : share ∈ shares q cl) : x ∉ share := by
  induction cl generalizing q with
  | nil => cases inShares
  | cons claim later ih =>
    have filtered := nodup.filter (fun y => decide (y ∉ claim.1))
    rcases mem_cons.mp inShares with rfl | inShares
    · have onward : x ∈ leftover ((q.filter (· ∉ claim.1)).drop claim.2) later := mem
      have dropped := mem_leftover onward
      intro inShare
      rcases mem_append.mp inShare with reserved | taken
      · exact (by simpa using of_mem_filter (mem_of_mem_drop dropped) : x ∉ claim.1) reserved
      · exact disjoint_take_drop filtered (le_refl _) taken dropped
    · exact ih (filtered.sublist (drop_sublist _ _)) mem inShares

theorem shares_apart_iff (real : ∀ x ∈ q, counts x) (nodup : q.Nodup)
    (reserved : (claims.map Prod.fst).Pairwise (Apart counts)) :
    (shares q claims).Pairwise (Apart counts) ↔ ¬ Steals q claims := by
  induction claims generalizing q with
  | nil => exact ⟨fun _ => id, fun _ => .nil⟩
  | cons claim later ih =>
    rw [map_cons, pairwise_cons] at reserved
    have filtered := nodup.filter (fun y => decide (y ∉ claim.1))
    have rest := @ih ((q.filter (· ∉ claim.1)).drop claim.2)
      (fun x mem => real x (mem_of_mem_filter (mem_of_mem_drop mem)))
      (filtered.sublist (drop_sublist _ _)) reserved.2
    rw [shares, pairwise_cons, Steals, not_or, rest]
    refine and_congr_left fun _ => ⟨fun apart stolen => ?_,
      fun none share inShares x mem counted inShare => ?_⟩
    · obtain ⟨x, taken, other, isLater, reserved⟩ := stolen
      obtain ⟨i, lt, rfl⟩ := getElem_of_mem isLater
      have inside' : i < (shares ((q.filter (· ∉ claim.1)).drop claim.2) later).length := by
        rwa [length_shares]
      exact apart _ (getElem_mem inside') x (mem_append_right _ taken)
        (real x (mem_of_mem_filter (mem_of_mem_take taken)))
        (reserved_subset_share (getElem?_eq_getElem lt) (getElem?_eq_getElem inside') reserved)
    · rcases mem_share inShares inShare with ⟨other, isLater, theirs⟩ | dropped
      · rcases mem_append.mp mem with ours | taken
        · exact reserved.1 other.1 (mem_map_of_mem isLater) x ours counted theirs
        · exact none ⟨x, taken, other, isLater, theirs⟩
      · rcases mem_append.mp mem with ours | taken
        · exact (by simpa using of_mem_filter (mem_of_mem_drop dropped) : x ∉ claim.1) ours
        · exact disjoint_take_drop filtered (le_refl _) taken dropped

theorem not_steals_of_unreserved (ns : List Nat) (q : List α) : ¬ Steals q (ns.map (([] : List α), ·)) := by
  induction ns generalizing q with
  | nil => exact id
  | cons n rest ih =>
    rintro (⟨x, -, claim, isLater, reserved⟩ | later)
    · obtain ⟨k, -, rfl⟩ := mem_map.mp isLater
      cases reserved
    · exact ih _ later

/-! ### How much leaves the queue -/

def touched : List α → List (List α × Nat) → Nat
  | _, [] => 0
  | queue, (reserved, n) :: later =>
    (queue.filter (· ∈ reserved)).length + touched ((queue.filter (· ∉ reserved)).drop n) later

def Serves : List α → List (List α × Nat) → Prop
  | _, [] => True
  | queue, (reserved, n) :: later =>
    n ≤ (queue.filter (· ∉ reserved)).length ∧ Serves ((queue.filter (· ∉ reserved)).drop n) later

theorem length_filter_notMem (q reserved : List α) :
    (q.filter (· ∈ reserved)).length + (q.filter (· ∉ reserved)).length = q.length := by
  rw [length_eq_length_filter_add (l := q) fun x => decide (x ∈ reserved)]
  simp only [decide_not]

theorem length_leftover (serves : Serves q cl) :
    (leftover q cl).length + touched q cl + (cl.map Prod.snd).sum = q.length := by
  induction cl generalizing q with
  | nil => rfl
  | cons claim later ih =>
    obtain ⟨enough, onward⟩ := serves
    have rest := ih onward
    have whole := length_filter_notMem q claim.1
    rw [length_drop] at rest
    rw [leftover, touched, map_cons, sum_cons]
    omega

theorem lt_of_not_serves (short : ¬ Serves q cl) :
    q.length < touched q cl + (cl.map Prod.snd).sum := by
  induction cl generalizing q with
  | nil => exact absurd trivial short
  | cons claim later ih =>
    have whole := length_filter_notMem q claim.1
    rw [touched, map_cons, sum_cons]
    by_cases enough : claim.2 ≤ (q.filter (· ∉ claim.1)).length
    · have rest := ih fun onward => short ⟨enough, onward⟩
      rw [length_drop] at rest
      omega
    · omega

/-! ### Tables that grow by shares -/

/-- Each table has grown by the share of its claimant and by some unreserved items taken
afterwards. -/
def Grown (counts : α → Prop) (queue : List α) (claims : List (List α × Nat)) (ns : List Nat)
    (tables tables' : List (List α)) : Prop :=
  ∀ (j : Nat) table', tables'[j]? = some table' → ∃ table share fresh, tables[j]? = some table ∧
    (shares queue claims)[j]? = some share ∧
      (shares (leftover queue claims) (ns.map (([] : List α), ·)))[j]? = some fresh ∧
    ∀ x, counts x → (x ∈ table' ↔ x ∈ table ∨ x ∈ share ∨ x ∈ fresh)

variable {ns : List Nat} {tables tables' : List (List α)}

theorem fresh_mem_leftover {fresh : List α}
    (inShares : fresh ∈ shares queue (ns.map (([] : List α), ·))) (mem : x ∈ fresh) :
    x ∈ queue := by
  rcases mem_share inShares mem with ⟨claim, isClaim, reserved⟩ | inQueue
  · obtain ⟨n, -, rfl⟩ := mem_map.mp isClaim
    cases reserved
  · exact inQueue

theorem Grown.gained_notMem (free : ∀ table ∈ tables, ∀ x ∈ q, counts x → x ∉ table)
    (own : ∀ (i j : Nat) claim table, cl[i]? = some claim → tables[j]? = some table → i ≠ j →
      Apart counts claim.1 table) {table fresh : List α} (atTable : tables[i]? = some table)
        (atShare : (shares q cl)[j]? = some share)
    (atFresh : (shares (leftover q cl) (ns.map (([] : List α), ·)))[j]? = some fresh) (ne : i ≠ j)
    (counted : counts x) (gained : x ∈ share ∨ x ∈ fresh) : x ∉ table := by
  have inTables := mem_of_getElem? atTable
  rcases gained with inShare | inFresh
  · rcases mem_share_get atShare inShare with ⟨claim, atClaim, reserved⟩ | inQueue
    · exact own j i claim table atClaim atTable ne.symm x reserved counted
    · exact free table inTables x inQueue counted
  · exact free table inTables x (mem_leftover (fresh_mem_leftover (mem_of_getElem? atFresh) inFresh)) counted

theorem Grown.gained_apart (real : ∀ x ∈ q, counts x) (nodup : q.Nodup)
    (reserved : (cl.map Prod.fst).Pairwise (Apart counts)) (noSteal : ¬ Steals q cl)
    {share' fresh fresh' : List α} (atI : (shares q cl)[i]? = some share)
    (freshI : (shares (leftover q cl) (ns.map (([] : List α), ·)))[i]? = some fresh)
    (atJ : (shares q cl)[j]? = some share')
    (freshJ : (shares (leftover q cl) (ns.map (([] : List α), ·)))[j]? = some fresh') (ne : i ≠ j)
    (counted : counts x) (gained : x ∈ share ∨ x ∈ fresh) : ¬ (x ∈ share' ∨ x ∈ fresh') := by
  have sharesApart := (shares_apart_iff real nodup reserved).mpr noSteal
  have freshApart := (shares_apart_iff (fun y mem => real y (mem_leftover mem)) (leftover_nodup nodup)
    (by simp [Function.comp_def, Apart])).mpr (not_steals_of_unreserved ns (leftover q cl))
  rintro (inShare' | inFresh') <;> rcases gained with inShare | inFresh
  · exact pairwise_apart_get sharesApart atI atJ ne x inShare counted inShare'
  · exact leftover_notMem_share nodup (fresh_mem_leftover (mem_of_getElem? freshI) inFresh)
      (mem_of_getElem? atJ) inShare'
  · exact leftover_notMem_share nodup (fresh_mem_leftover (mem_of_getElem? freshJ) inFresh')
      (mem_of_getElem? atI) inShare
  · exact pairwise_apart_get freshApart freshI freshJ ne x inFresh counted inFresh'

theorem Grown.apart_iff (grown : Grown counts q claims ns tables tables')
    (length : tables'.length = claims.length)
    (real : ∀ x ∈ q, counts x) (nodup : q.Nodup) (reserved : (claims.map Prod.fst).Pairwise (Apart counts))
    (free : ∀ t ∈ tables, ∀ x ∈ q, counts x → x ∉ t)
    (own : ∀ (i j : Nat) claim t, claims[i]? = some claim → tables[j]? = some t → i ≠ j →
      Apart counts claim.1 t)
    (before : tables.Pairwise (Apart counts)) : tables'.Pairwise (Apart counts) ↔ ¬ Steals q claims := by
  constructor
  · intro after
    rw [← shares_apart_iff real nodup reserved, pairwise_iff_getElem]
    intro i j insideI insideJ less
    have lt : ∀ k, k < (shares q claims).length → k < tables'.length := fun k lt => by
      rwa [length, ← length_shares]
    obtain ⟨_, _, _, -, atI, -, tableI⟩ := grown i _ (getElem?_eq_getElem (lt i insideI))
    obtain ⟨_, _, _, -, atJ, -, tableJ⟩ := grown j _ (getElem?_eq_getElem (lt j insideJ))
    rw [getElem?_eq_getElem insideI] at atI
    rw [getElem?_eq_getElem insideJ] at atJ
    cases atI
    cases atJ
    intro x inI counted inJ
    exact pairwise_iff_getElem.mp after i j _ _ less x ((tableI x counted).mpr (.inr (.inl inI))) counted
      ((tableJ x counted).mpr (.inr (.inl inJ)))
  · intro noSteal
    rw [pairwise_iff_getElem]
    intro i j insideI insideJ less x inI counted inJ
    obtain ⟨t, share, fresh, atTable, atShare, atFresh, tableI⟩ := grown i _ (getElem?_eq_getElem insideI)
    obtain ⟨table', share', fresh', atTable', atShare', atFresh', tableJ⟩ :=
      grown j _ (getElem?_eq_getElem insideJ)
    have ne : i ≠ j := Nat.ne_of_lt less
    rcases (tableI x counted).mp inI with oldI | gainedI <;> rcases (tableJ x counted).mp
      inJ with oldJ | gainedJ
    · exact pairwise_apart_get before atTable atTable' ne x oldI counted oldJ
    · exact Grown.gained_notMem free own atTable atShare' atFresh' ne counted gainedJ oldI
    · exact Grown.gained_notMem free own atTable' atShare atFresh ne.symm counted gainedI oldJ
    · exact Grown.gained_apart real nodup reserved noSteal atShare atFresh atShare' atFresh' ne
        counted gainedI gainedJ

end Shares
