import Mathlib.Algebra.Order.Ring.Nat
import Mathlib.Order.Bounds.Defs
import TurboQuant.Lib.Outcome

/-!
A bound that is lowered in rounds until a round keeps it.
-/

namespace Narrowing
open Outcome List

variable {ε σ : Type} {round : Nat → σ → Except ε (Nat × σ)} {once : Bool}

def narrowLoop (round : Nat → σ → Except ε (Nat × σ)) (once : Bool) : Nat → Nat → σ → Except ε (Nat × σ)
  | 0, bound, state => .ok (bound, state)
  | fuel + 1, bound, state => do
    let (next, state) ← round bound state
    if next ≥ bound then .ok (bound, state)
    else if once then .ok (next, state)
    else narrowLoop round once fuel next state

/-- Rounds without end: a round that does not keep the bound lowers it. -/
def narrow (round : Nat → σ → Except ε (Nat × σ)) (once : Bool) (bound : Nat) (state : σ) :
    Except ε (Nat × σ) :=
  narrowLoop round once (bound + 1) bound state

theorem narrowLoop_fuel {fuel fuel' bound : Nat} (enough : bound < fuel) (enough' : bound < fuel')
    (state : σ) :
    narrowLoop round once fuel bound state = narrowLoop round once fuel' bound state := by
  induction fuel generalizing fuel' bound state with
  | zero => omega
  | succ fuel ih =>
    cases fuel' with
    | zero => omega
    | succ fuel' =>
      unfold narrowLoop
      congr 1
      funext ⟨next, state⟩
      show (if _ then _ else if _ then _ else _) = if _ then _ else if _ then _ else _
      split
      · rfl
      · split
        · rfl
        · exact ih (by omega) (by omega) state

theorem narrow_eq (bound : Nat) (state : σ) : narrow round once bound state = round bound state >>=
    fun (next, state) =>
      if next ≥ bound then .ok (bound, state) else if once then .ok (next, state)
      else narrow round once next state := by
  unfold narrow
  conv_lhs => unfold narrowLoop
  congr 1
  funext ⟨next, state⟩
  show (if _ then _ else if _ then _ else _) = if _ then _ else if _ then _ else _
  split
  · rfl
  · split
    · rfl
    · exact narrowLoop_fuel (by omega) (by omega) state

theorem narrow_of_ok {bound next : Nat} {s state' : σ} (ran : round bound s = .ok (next, state')) :
    narrow round once bound s =
      if next ≥ bound then .ok (bound, state') else if once then .ok (next, state')
      else narrow round once next state' := by
  rw [narrow_eq, ran]
  rfl

theorem narrow_rule (inv : Nat → σ → Prop) (done : Nat → σ → Prop) (stuck : ε → Prop)
    (each : ∀ bound s, inv bound s → (∃ e, round bound s = .error e ∧ stuck e) ∨
      ∃ next state', round bound s = .ok (next, state') ∧ (bound ≤ next → done bound state') ∧
        (next < bound → if once then done next state' else inv next state')) {bound : Nat} {s : σ}
    (start : inv bound s) : (∃ e, narrow round once bound s = .error e ∧ stuck e) ∨
      ∃ final state', narrow round once bound s = .ok (final, state') ∧ done final state' := by
  induction bound using Nat.strongRecOn generalizing s with
  | ind bound ih =>
    rcases each bound s start with ⟨e, failed, stop⟩ | ⟨next, state', ran, kept, lowered⟩
    · refine .inl ⟨e, ?_, stop⟩
      rw [narrow_eq, failed]
      rfl
    · rw [narrow_of_ok ran]
      by_cases same : bound ≤ next
      · rw [if_pos same]
        exact .inr ⟨bound, state', rfl, kept same⟩
      · have less := lowered (by omega)
        rw [if_neg same]
        cases once with
        | true => exact .inr ⟨next, state', rfl, less⟩
        | false => exact ih next (by omega) less

theorem narrow_invariant (inv : Nat → σ → Prop)
    (each : ∀ bound s next state', inv bound s → round bound s = .ok (next, state') →
      inv (min next bound) state')
    {bound final : Nat} {s state' : σ} (start : inv bound s)
    (ran : narrow round once bound s = .ok (final, state')) : inv final state' := by
  induction bound using Nat.strongRecOn generalizing s with
  | ind bound ih =>
    rw [narrow_eq] at ran
    obtain ⟨⟨next, middle⟩, one, rest⟩ := bind_ok ran
    have after := each bound s next middle start one
    dsimp only at rest
    split at rest
    · rename_i kept
      cases rest
      rwa [min_eq_right kept] at after
    · rename_i lowered
      have less : next < bound := not_le.mp lowered
      rw [min_eq_left (le_of_lt less)] at after
      split at rest
      · cases rest
        exact after
      · exact ih next less after rest

/-! ### Rounds that visit a list -/

section
variable {ι : Type} {lower : ι → Nat → Nat} {items xs : List ι} {top bound : Nat}

/-- The step never raises a bound, and never goes below one that it keeps. -/
structure Lowers (step : Nat → Nat) (top : Nat) : Prop where
  le : ∀ n ≤ top, step n ≤ n
  keeps : ∀ n ≤ top, ∀ k ≤ n, step k = k → k ≤ step n

section
variable (lower : ι → Nat → Nat) (items : List ι)

def visit (bound : Nat) : Nat := items.foldl (fun n item => lower item n) bound

def Kept (top : Nat) : Set Nat := {n | n ≤ top ∧ ∀ item ∈ items, lower item n = n}

end

theorem visit_cons (x : ι) (rest : List ι) (bound : Nat) :
    visit lower (x :: rest) bound = visit lower rest (lower x bound) := rfl

section
variable (lowers : ∀ x ∈ xs, Lowers (lower x) top) (le : bound ≤ top)
include lowers le

theorem visit_le : visit lower xs bound ≤ bound := by
  induction xs generalizing bound with
  | nil => exact le_rfl
  | cons x rest ih =>
    have first := (lowers x mem_cons_self).le bound le
    rw [visit_cons]
    exact (ih (fun x mem => lowers x (mem_cons_of_mem _ mem)) (first.trans le)).trans first

theorem le_visit {n : Nat} (below : n ≤ bound)
    (kept : ∀ x ∈ xs, lower x n = n) : n ≤ visit lower xs bound := by
  induction xs generalizing bound with
  | nil => exact below
  | cons x rest ih =>
    have first := lowers x mem_cons_self
    rw [visit_cons]
    refine ih (fun x mem => lowers x (mem_cons_of_mem _ mem)) ((first.le bound le).trans le) ?_
      fun x mem => kept x (mem_cons_of_mem _ mem)
    exact first.keeps bound le n below (kept x mem_cons_self)

theorem kept_of_visit (same : bound ≤ visit lower xs bound) : ∀ x ∈ xs, lower x bound = bound := by
  induction xs generalizing bound with
  | nil => exact fun x none => absurd none not_mem_nil
  | cons first rest ih =>
    have step := (lowers first mem_cons_self).le bound le
    have later : ∀ x ∈ rest, Lowers (lower x) top := fun x mem => lowers x (mem_cons_of_mem _ mem)
    rw [visit_cons] at same
    have here : lower first bound = bound :=
      le_antisymm step (same.trans (visit_le later (step.trans le)))
    rw [here] at same
    intro x mem
    rcases mem_cons.mp mem with rfl | mem
    · exact here
    · exact ih later le same x mem

end

variable {inv : Nat → σ → Prop} {s : σ}

section
variable (lowers : ∀ x ∈ xs, Lowers (lower x) top)
include lowers

theorem narrow_greatest
    (each : ∀ bound s, bound ≤ top → inv bound s → ∃ s', round bound s = .ok (visit lower xs bound, s') ∧
      inv (visit lower xs bound) s') (start : inv top s) :
    ∃ n s', narrow round false top s = .ok (n, s') ∧ IsGreatest (Kept lower xs top) n := by
  have general : ∀ bound s, bound ≤ top → inv bound s → (∀ n ∈ Kept lower xs top, n ≤ bound) →
      ∃ n s', narrow round false bound s = .ok (n, s') ∧ IsGreatest (Kept lower xs top) n := by
    intro bound
    induction bound using Nat.strongRecOn with
    | ind bound ih =>
      intro s le holds above
      obtain ⟨s', ran, holds'⟩ := each bound s le holds
      rw [narrow_of_ok ran]
      by_cases same : bound ≤ visit lower xs bound
      · rw [if_pos same]
        exact ⟨bound, s', rfl, ⟨le, kept_of_visit lowers le same⟩, above⟩
      · have less : visit lower xs bound < bound := Nat.lt_of_not_le same
        rw [if_neg same, if_neg Bool.false_ne_true]
        exact ih _ less s' (less.le.trans le) holds' fun n kept => le_visit lowers le (above n kept) kept.2
  exact general top s le_rfl start fun n kept => kept.1

theorem narrow_once {s' : σ} (ran : round top s = .ok (visit lower xs top, s')) :
    narrow round true top s = .ok (visit lower xs top, s') := by
  rw [narrow_of_ok ran]
  split
  · rename_i same
    rw [le_antisymm (visit_le lowers le_rfl) same]
  · rfl

theorem visit_isGreatest_iff : IsGreatest (Kept lower xs top) (visit lower xs top) ↔
      ∀ x ∈ xs, lower x (visit lower xs top) = visit lower xs top :=
  ⟨fun greatest => greatest.1.2,
    fun kept => ⟨⟨visit_le lowers le_rfl, kept⟩, fun _ other => le_visit lowers le_rfl other.1 other.2⟩⟩

end

end

end Narrowing
