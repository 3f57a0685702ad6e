import Mathlib.Algebra.Order.BigOperators.Group.List
import Mathlib.Algebra.Order.Ring.Nat
import TurboQuant.Lib.Outcome

/-!
Several holders of one shared resource: a loop lets every holder work on the resource in turn.
-/

namespace Holders
open Outcome List Nat

variable {ε : Type} {κ σ τ α : Type} {β : Type}

def forEach (op : Nat → κ → σ → Except ε (α × κ × σ)) : Nat → List κ → σ → Except ε (List α × List κ × σ)
  | _, [], resource => .ok ([], [], resource)
  | i, holder :: rest, resource => do
    let (result, holder, resource) ← op i holder resource
    let (results, rest, resource) ← forEach op (i + 1) rest resource
    return (result :: results, holder :: rest, resource)

def heldAll (held : κ → β → Nat) (holders : List κ) (b : β) : Nat := (holders.map (held · b)).sum

variable {holders : List κ}

inductive Walk (round : Nat → τ → κ → α → κ → τ → Prop) : Nat → τ → List κ → List α → List κ → τ → Prop
  | nil (i : Nat) (state : τ) : Walk round i state [] [] [] state
  | cons {i : Nat} {state next last : τ} {holder holder' : κ} {rest rest' : List κ} {result : α}
      {results : List α}
      (first : round i state holder result holder' next)
        (later : Walk round (i + 1) next rest results rest' last) :
      Walk round i state (holder :: rest) (result :: results) (holder' :: rest') last

variable {round : Nat → τ → κ → α → κ → τ → Prop} {i : Nat} {state : τ}
  {round' : Nat → τ → κ → α → κ → τ → Prop} {holders' : List κ} {results : List α}

theorem Walk.imp {last : τ} (walk : Walk round i state holders results holders' last)
    (weaker : ∀ i state holder res holder' next, round i state holder res holder' next →
      round' i state holder res holder' next) : Walk round' i state holders results holders' last := by
  induction walk with
  | nil i state => exact .nil i state
  | cons first later ih => exact .cons (weaker _ _ _ _ _ _ first) ih

section
variable {last : τ} (walk : Walk round i state holders results holders' last)
include walk

theorem Walk.map_eq {γ : Type} {f : κ → γ}
    (same : ∀ i state holder res holder' next, round i state holder res holder' next → f holder' = f holder) :
    holders'.map f = holders.map f := by
  induction walk with
  | nil => rfl
  | cons first later ih => rw [map_cons, map_cons, same _ _ _ _ _ _ first, ih]

theorem Walk.state_eq
    (same : ∀ i state holder res holder' next, round i state holder res holder' next →
      next = state) : last = state := by
  induction walk with
  | nil => rfl
  | cons first later ih => rw [ih, same _ _ _ _ _ _ first]

theorem Walk.length_eq : holders'.length = holders.length ∧ results.length = holders.length := by
  induction walk with
  | nil => exact ⟨rfl, rfl⟩
  | cons first later ih => simp only [length_cons, ih, and_self]

theorem Walk.get {j : Nat} {holder' : κ}
    (at_ : holders'[j]? = some holder') : ∃ holder res before after, holders[j]? = some holder ∧
      results[j]? = some res ∧ round (i + j) before holder res holder' after := by
  induction walk generalizing j with
  | nil => cases at_
  | cons first later ih =>
    cases j with
    | zero =>
      cases at_
      exact ⟨_, _, _, _, rfl, rfl, first⟩
    | succ j =>
      obtain ⟨holder, res, before, after, inHolders, inResults, done⟩ := ih at_
      rw [add_assoc, add_comm 1 j] at done
      exact ⟨holder, res, before, after, inHolders, inResults, done⟩

end

theorem Walk.idle (res : α) (each : ∀ j holder, holders[j]? = some holder →
    round (i + j) state holder res holder state) :
    Walk round i state holders (holders.map fun _ => res) holders state := by
  induction holders generalizing i with
  | nil => exact .nil i state
  | cons holder rest ih =>
    refine .cons (each 0 holder rfl) (ih fun j other at_ => ?_)
    have here := each (j + 1) other at_
    rwa [add_comm j 1, ← add_assoc] at here

inductive Halts (round : Nat → τ → κ → α → κ → τ → Prop) (stuck : Nat → τ → κ → ε → Prop) :
    Nat → τ → List κ → ε → Prop
  | here {i : Nat} {state : τ} {holder : κ} {rest : List κ} {e : ε} (stop : stuck i state holder e) :
      Halts round stuck i state (holder :: rest) e
  | later {i : Nat} {state next : τ} {holder holder' : κ} {rest : List κ} {result : α} {e : ε}
      (first : round i state holder result holder' next) (later : Halts round stuck (i + 1) next rest e) :
      Halts round stuck i state (holder :: rest) e

variable {stuck : Nat → τ → κ → ε → Prop}

theorem Halts.imp
    {e : ε} (halts : Halts round stuck i state holders e)
    (weaker : ∀ i state holder res holder' next, round i state holder res holder' next →
      round' i state holder res holder' next) : Halts round' stuck i state holders e := by
  induction halts with
  | here stop => exact .here stop
  | later first later ih => exact .later (weaker _ _ _ _ _ _ first) ih

theorem Halts.error {e : ε} (halts : Halts round stuck i state holders e) {p : ε → Prop}
    (stops : ∀ i state holder e, stuck i state holder e → p e) : p e := by
  induction halts with
  | here stop => exact stops _ _ _ _ stop
  | later first later ih => exact ih

variable {op : Nat → κ → σ → Except ε (α × κ × σ)}

theorem forEach_total (held : κ → β → Nat) (inv : σ → τ → (β → Nat) → Prop) (good : κ → Prop)
    (round : Nat → τ → κ → α → κ → τ → Prop) (stuck : Nat → τ → κ → ε → Prop) {frame : β → Nat} {resource : σ}
    (each : ∀ j holder, holders[j]? = some holder → ∀ (frame : β → Nat) resource state,
      inv resource state (fun b => frame b + held holder b) → good holder →
      (∃ res holder' resource' next, op (i + j) holder resource = .ok (res, holder', resource') ∧
        round (i + j) state holder res holder' next ∧
          inv resource' next (fun b => frame b + held holder' b) ∧ good holder') ∨
      ∃ e, op (i + j) holder resource = .error e ∧ stuck (i + j) state holder e)
    (start : inv resource state (fun b => frame b + heldAll held holders b))
    (allGood : ∀ holder ∈ holders, good holder) :
    (∃ results holders' resource' last, forEach op i holders resource = .ok (results, holders', resource') ∧
      Walk round i state holders results holders' last ∧
      inv resource' last (fun b => frame b + heldAll held holders' b) ∧ ∀ holder ∈ holders', good holder) ∨
    ∃ e, forEach op i holders resource = .error e ∧ Halts round stuck i state holders e := by
  induction holders generalizing i frame resource state with
  | nil => exact .inl ⟨[], [], resource, state, rfl, .nil i state, start, allGood⟩
  | cons holder rest ih =>
    -- the first round sees the rest as frame, the rest sees the first holder as frame
    have before : inv resource state (fun b => (frame b + heldAll held rest b) + held holder b) := by
      refine (congrArg (inv resource state) (funext fun b => ?_)).mp start
      simp only [heldAll, map_cons, sum_cons]
      omega
    rcases each 0 holder rfl _ _ _ before (allGood holder mem_cons_self) with
      ⟨res, holder', middle, next, first, done, between, goodFirst⟩ | ⟨e, failed, stop⟩
    · have onward : inv middle next (fun b => (frame b + held holder' b) + heldAll held rest b) := by
        refine (congrArg (inv middle next) (funext fun b => ?_)).mp between
        omega
      rw [add_zero] at first done
      rcases ih (fun j other at_ => by
          have here := each (j + 1) other at_
          rwa [add_comm j 1, ← add_assoc] at here) onward
        (fun other mem => allGood other (mem_cons_of_mem _ mem)) with
        ⟨results, rest', last, state', second, walk, end_, goodRest⟩ | ⟨e, failed, halts⟩
      · refine .inl ⟨_, _, last, state', ?_, .cons done walk, ?_, fun other mem => ?_⟩
        · rw [forEach, first]
          change (forEach op (i + 1) rest middle >>= _) = _
          rw [second]
          rfl
        · refine (congrArg (inv last state') (funext fun b => ?_)).mp end_
          simp only [heldAll, map_cons, sum_cons]
          omega
        · rcases mem_cons.mp mem with rfl | mem
          · exact goodFirst
          · exact goodRest other mem
      · refine .inr ⟨e, ?_, .later done halts⟩
        rw [forEach, first]
        change (forEach op (i + 1) rest middle >>= _) = _
        rw [failed]
        rfl
    · refine .inr ⟨e, ?_, .here stop⟩
      rw [add_zero] at failed
      rw [forEach, failed]
      rfl

theorem forEach_relates (relates : σ → σ → Prop) (refl : ∀ resource, relates resource resource)
    (trans : ∀ r₁ r₂ r₃, relates r₁ r₂ → relates r₂ r₃ → relates r₁ r₃)
    (each : ∀ i holder resource res holder' resource', op i holder resource = .ok (res, holder', resource') →
      relates resource resource') {resource resource' : σ}
    (ran : forEach op i holders resource = .ok (results, holders', resource')) :
    relates resource resource' := by
  induction holders generalizing i holders' results resource with
  | nil =>
    cases ran
    exact refl _
  | cons holder rest ih =>
    obtain ⟨⟨res, holder', middle⟩, first, ran⟩ := bind_ok ran
    obtain ⟨⟨later, rest', after⟩, second, ran⟩ := bind_ok ran
    cases ran
    exact trans _ _ _ (each i holder resource res holder' middle first) (ih second)

end Holders
