import Mathlib.Algebra.Order.Ring.Nat

/-!
Infinite runs of a step relation: what holds along a run, and what is reached at last.
-/

namespace TurboQuant
open Nat

structure Run {σ α : Type} (Step : σ → α → σ → Prop) (start : σ) where
  state : Nat → σ
  action : Nat → α
  begins : state 0 = start
  steps : ∀ n, Step (state n) (action n) (state (n + 1))

namespace Run

variable {σ α : Type} {Step : σ → α → σ → Prop} {start : σ}

section
variable (run : Run Step start) {P : σ → Prop}

theorem stable (keeps : ∀ {s a s'}, P s → Step s a s' → P s') {n : Nat} (holds : P (run.state n)) {m : Nat}
    (later : n ≤ m) : P (run.state m) := by
  induction m, later using le_induction with
  | base => exact holds
  | succ m _ ih => exact keeps ih (run.steps m)

theorem invariant (first : P start) (keeps : ∀ {s a s'}, P s → Step s a s' → P s') (n : Nat) :
    P (run.state n) :=
  run.stable keeps (run.begins.symm ▸ first) (zero_le n)

theorem eventually (goal : σ → Prop) (helpful : α → Prop) (measure : σ → Nat)
    (grows : ∀ n, ¬ goal (run.state n) → measure (run.state (n + 1)) ≤ measure (run.state n))
    (shrinks : ∀ n, ¬ goal (run.state n) → helpful (run.action n) →
      measure (run.state (n + 1)) < measure (run.state n))
    (fair : ∀ n, ¬ goal (run.state n) → ∃ m ≥ n, helpful (run.action m)) (n : Nat) :
    ∃ m ≥ n, goal (run.state m) := by
  induction size : measure (run.state n) using Nat.strong_induction_on generalizing n with
  | h size' ih =>
    by_contra never
    have open_ : ∀ m ≥ n, ¬ goal (run.state m) := fun m later reached => never ⟨m, later, reached⟩
    have small : ∀ m ≥ n, measure (run.state m) ≤ measure (run.state n) := by
      intro m later
      induction m, later using le_induction with
      | base => exact le_refl _
      | succ k later ih => exact (grows k (open_ k later)).trans ih
    obtain ⟨m, later, helps⟩ := fair n (open_ n (le_refl n))
    obtain ⟨k, after, reached⟩ := ih _ (size ▸ (shrinks m (open_ m later) helps).trans_le
      (small m later)) (m + 1) rfl
    exact never ⟨k, by omega, reached⟩

end

def cons {s : σ} {a : α} (step : Step start a s) (run : Run Step s) : Run Step start where
  state
    | 0 => start
    | n + 1 => run.state n
  action
    | 0 => a
    | n + 1 => run.action n
  begins := rfl
  steps
    | 0 => by
      show Step start a (run.state 0)
      rwa [run.begins]
    | n + 1 => run.steps n

def stay {a : α} (step : Step start a start) : Run Step start where
  state := fun _ => start
  action := fun _ => a
  begins := rfl
  steps := fun _ => step

/-- Whenever there is a need, an action that helps comes at last. -/
def Responds (run : Run Step start) (needs : σ → Prop) (helps : α → Prop) : Prop :=
  ∀ n, needs (run.state n) → ∃ m ≥ n, helps (run.action m)

theorem Responds.cons {s : σ} {a : α} {run : Run Step s} {needs : σ → Prop} {helps : α → Prop}
    (rest : run.Responds needs helps)
    (step : Step start a s) (here : needs start → helps a ∨ needs s) :
    (run.cons step).Responds needs helps := by
  intro n need
  cases n with
  | zero =>
    rcases here need with helpful | still
    · exact ⟨0, le_refl 0, helpful⟩
    · obtain ⟨m, -, helpful⟩ := rest 0 (run.begins.symm ▸ still)
      exact ⟨m + 1, zero_le _, helpful⟩
  | succ n =>
    obtain ⟨m, later, helpful⟩ := rest n need
    exact ⟨m + 1, succ_le_succ later, helpful⟩

end Run

end TurboQuant
