import Mathlib.Data.List.Forall2

/-!
Computations that return a value or raise an error: inversion of sequencing and the invariant
rule for loops.
-/

namespace Outcome
open List

universe u v w

variable {ε : Type u} {α β σ : Type v} {ι : Type w}

variable {x : Except ε α} {f : α → Except ε β} {r : β}

theorem bind_ok (ran : (x >>= f) = .ok r) : ∃ a, x = .ok a ∧ f a = .ok r := by
  cases x with
  | error e => cases ran
  | ok a => exact ⟨a, rfl, ran⟩

theorem ok_bind (a : α) (f : α → Except ε β) : (Except.ok a >>= f) = f a := rfl

theorem bind_of_ok {a : α} (ran : x = .ok a) (next : f a = .ok r) : (x >>= f) = .ok r := by
  rwa [ran]

theorem pure_ok {a r : α} (ran : (pure a : Except ε α) = .ok r) : a = r := Except.ok.inj ran

variable {f : α → β}

theorem map_ok (ran : x.map f = .ok r) : ∃ a, x = .ok a ∧ f a = r := by
  cases x with
  | error e => cases ran
  | ok a => exact ⟨a, rfl, Except.ok.inj ran⟩

theorem map_error {e : ε} (failed : x.map f = .error e) : x = .error e := by
  cases x with
  | error e' => cases failed; rfl
  | ok a => cases failed

variable {xs : List ι}

section
variable {f : ι → Except ε α} {g : ι → α}

theorem mapM_ok (xs : List ι) (each : ∀ x ∈ xs, f x = .ok (g x)) : xs.mapM f = .ok (xs.map g) := by
  induction xs with
  | nil => rfl
  | cons x rest ih =>
    rw [mapM_cons, each x mem_cons_self, ih (fun x mem => each x (mem_cons_of_mem _ mem))]
    rfl

section
variable {r : List α} (ran : xs.mapM f = .ok r)
include ran

theorem mapM_length : r.length = xs.length := by
  induction xs generalizing r with
  | nil => rw [← pure_ok ran]; rfl
  | cons x rest ih =>
    rw [mapM_cons] at ran
    obtain ⟨first, -, ran⟩ := bind_ok ran
    obtain ⟨others, tail, ran⟩ := bind_ok ran
    rw [← pure_ok ran, length_cons, length_cons, ih tail]

theorem mapM_getElem {i : Nat} {x : ι} (at_ : xs[i]? = some x) : ∃ a, f x = .ok a ∧ r[i]? = some a := by
  induction xs generalizing r i with
  | nil => cases at_
  | cons head rest ih =>
    rw [mapM_cons] at ran
    obtain ⟨first, ranFirst, ran⟩ := bind_ok ran
    obtain ⟨others, tail, ran⟩ := bind_ok ran
    rw [← pure_ok ran]
    cases i with
    | zero => exact ⟨first, by simpa using (Option.some.inj at_) ▸ ranFirst, rfl⟩
    | succ i => exact ih tail at_

theorem mem_of_mapM {a : α} (mem : a ∈ r) : ∃ x ∈ xs, f x = .ok a := by
  obtain ⟨i, inside, rfl⟩ := getElem_of_mem mem
  have source : i < xs.length := by rw [← mapM_length ran]; exact inside
  obtain ⟨a, ranItem, there⟩ := mapM_getElem ran (getElem?_eq_getElem source)
  rw [getElem?_eq_getElem inside] at there
  rw [← Option.some.inj there] at ranItem
  exact ⟨_, getElem_mem source, ranItem⟩

end

variable {r : List α}

theorem mapM_map_eq {p : α → β} {q : ι → β} (agree : ∀ {x a}, f x = .ok a → p a = q x)
    (ran : xs.mapM f = .ok r) : r.map p = xs.map q := by
  induction xs generalizing r with
  | nil => rw [← pure_ok ran]; rfl
  | cons x rest ih =>
    rw [mapM_cons] at ran
    obtain ⟨first, ranFirst, ran⟩ := bind_ok ran
    obtain ⟨others, ranOthers, ran⟩ := bind_ok ran
    rw [← pure_ok ran, map_cons, map_cons, agree ranFirst, ih ranOthers]

theorem mapM_eq_map (agree : ∀ {x a}, f x = .ok a → g x = a)
    (ran : xs.mapM f = .ok r) : r = xs.map g := by
  rw [← mapM_map_eq (p := id) (fun ranItem => (agree ranItem).symm) ran, map_id]

end

variable {step : σ → ι → Except ε σ}

theorem foldlM_congr {step' : σ → ι → Except ε σ}
    (same : ∀ x ∈ xs, ∀ state, step state x = step' state x) (state : σ) :
    xs.foldlM step state = xs.foldlM step' state := by
  induction xs generalizing state with
  | nil => rfl
  | cons x rest ih =>
    rw [foldlM_cons, foldlM_cons, same x mem_cons_self]
    congr 1
    funext state
    exact ih (fun x mem => same x (mem_cons_of_mem _ mem)) state

theorem foldlM_invariant (inv : σ → Prop) (xs : List ι)
    (keeps : ∀ x ∈ xs, ∀ s s', inv s → step s x = .ok s' → inv s') {s s' : σ} (start : inv s)
    (ran : xs.foldlM step s = .ok s') : inv s' := by
  induction xs generalizing s with
  | nil => exact pure_ok ran ▸ start
  | cons x rest ih =>
    obtain ⟨next, first, ran⟩ := bind_ok ran
    exact ih (fun x mem => keeps x (mem_cons_of_mem _ mem))
      (keeps x mem_cons_self s next start first) ran

theorem foldlM_total (inv : List ι → σ → Prop) (stuck : ε → Prop)
    (each : ∀ done x rest s, xs = done ++ x :: rest → inv done s →
      (∃ e, step s x = .error e ∧ stuck e) ∨ ∃ s', step s x = .ok s' ∧ inv (done ++ [x]) s') {s : σ}
        (start : inv [] s) :
    (∃ e, xs.foldlM step s = .error e ∧ stuck e) ∨ ∃ s', xs.foldlM step s = .ok s' ∧ inv xs s' := by
  suffices general : ∀ rest done s, xs = done ++ rest → inv done s →
      (∃ e, rest.foldlM step s = .error e ∧ stuck e) ∨ ∃ s', rest.foldlM step s = .ok s' ∧ inv xs s' from
    general xs [] s rfl start
  intro rest
  induction rest with
  | nil =>
    intro done s whole here
    refine .inr ⟨s, rfl, ?_⟩
    rwa [whole, append_nil]
  | cons x rest ih =>
    intro done s whole here
    rw [foldlM_cons]
    rcases each done x rest s whole here with ⟨e, failed, stop⟩ | ⟨s', ran, next⟩
    · refine .inl ⟨e, ?_, stop⟩
      rw [failed]
      rfl
    · rw [ran]
      exact ih (done ++ [x]) s' (by rw [whole, append_assoc]; rfl) next

theorem foldlM_zipIdx {step : σ → ι × Nat → Except ε σ} (inv : Nat → σ → Prop) {items : List ι}
    (each : ∀ i item s, items[i]? = some item → inv i s → ∃ s', step s (item, i) = .ok s' ∧
      inv (i + 1) s') {s : σ}
    (start : inv 0 s) : ∃ s', items.zipIdx.foldlM step s = .ok s' ∧ inv items.length s' := by
  have run : (∃ e, items.zipIdx.foldlM step s = .error e ∧ False) ∨
      ∃ s', items.zipIdx.foldlM step s = .ok s' ∧ inv items.zipIdx.length s' := by
    refine foldlM_total (fun done s => inv done.length s) (fun _ => False)
      (fun done entry rest s whole here => ?_) start
    have position : items.zipIdx[done.length]? = some entry := by
      rw [whole, getElem?_append_right (Nat.le_refl _), Nat.sub_self]
      rfl
    rw [getElem?_zipIdx, Nat.zero_add, Option.map_eq_some_iff] at position
    obtain ⟨item, at_, rfl⟩ := position
    obtain ⟨s', ran, next⟩ := each done.length item s at_ here
    exact .inr ⟨s', ran, by rwa [length_append]⟩
  obtain ⟨e, -, stuck⟩ | ⟨s', ran, here⟩ := run
  · exact stuck.elim
  · exact ⟨s', ran, by rwa [length_zipIdx] at here⟩

/-- The results of several parties, if none of them raises. -/
def gather : {n : Nat} → (Fin n → Except ε α) → Except ε (Fin n → α)
  | 0, _ => .ok fun i => i.elim0
  | _ + 1, f => do
    let first ← f 0
    let others ← gather fun i => f i.succ
    .ok (Fin.cases first others)

theorem gather_ok {n : Nat} {f : Fin n → Except ε α} {r : Fin n → α} : gather f = .ok r ↔ ∀ i,
    f i = .ok (r i) := by
  induction n with
  | zero => exact ⟨fun _ i => i.elim0, fun _ => congrArg Except.ok (funext fun i => i.elim0)⟩
  | succ n ih =>
    rw [gather]
    constructor
    · intro ran i
      obtain ⟨first, ranFirst, ran⟩ := bind_ok ran
      obtain ⟨others, ranOthers, ran⟩ := bind_ok ran
      rw [← Except.ok.inj ran]
      cases i using Fin.cases with
      | zero => exact ranFirst
      | succ i => exact ih.mp ranOthers i
    · intro each
      rw [each 0, ok_bind, ih.mpr fun i => each i.succ, ok_bind]
      congr 1
      funext i
      cases i using Fin.cases <;> rfl

end Outcome
