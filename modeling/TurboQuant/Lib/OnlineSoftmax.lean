import Mathlib.Analysis.SpecialFunctions.Log.Basic

/-!
Softmax averages by the running maximum. Scores are finite or minus infinity, written `⊥`; the
difference of two infinite scores and a division by zero are not numbers, and then there is no
result.
-/

/-- An exact exponential with its inverse. -/
structure ExpLog (α : Type*) [Field α] [LinearOrder α] where
  exp : α → α
  log : α → α
  exp_pos : ∀ x, 0 < exp x
  exp_add : ∀ x y, exp (x + y) = exp x * exp y
  exp_log : ∀ x, 0 < x → exp (log x) = x

noncomputable def ExpLog.real : ExpLog ℝ where
  exp := Real.exp
  log := Real.log
  exp_pos := Real.exp_pos
  exp_add := Real.exp_add
  exp_log := fun _ => Real.exp_log

namespace OnlineSoftmax
open List

variable {α δ : Type*} [Field α] [LinearOrder α]

structure Lane (α δ : Type*) where
  score : WithBot α
  value : δ → α

structure Running (α δ : Type*) where
  top : WithBot α
  sum : α
  acc : δ → α

def start : Running α δ := ⟨⊥, 0, fun _ => 0⟩

variable (E : ExpLog α)

def expSub : WithBot α → WithBot α → Option α
  | _, ⊥ => none
  | ⊥, (_ : α) => some 0
  | (a : α), (b : α) => some (E.exp (a - b))

/-- The old sums are rescaled to the new maximum, then the lanes are added. -/
def absorb (s : Running α δ) (lanes : List (Lane α δ)) : Option (Running α δ) :=
  let top := max (lanes.foldr (fun lane top => max lane.score top) ⊥) s.top
  (expSub E s.top top).bind fun scale =>
    (lanes.mapM fun lane => expSub E lane.score top).bind fun weights =>
      some ⟨top, s.sum * scale + weights.sum,
        fun d => s.acc d * scale + (zipWith (fun weight lane => weight * lane.value d) weights lanes).sum⟩

def quotient (num : δ → α) (den : α) : Option (δ → α) := if den = 0 then none else some fun d => num d / den

/-! ### Masses -/

def weight : WithBot α → α
  | ⊥ => 0
  | (a : α) => E.exp a

theorem weight_coe (a : α) : weight E (a : WithBot α) = E.exp a := rfl

section
variable (lanes : List (Lane α δ))

def mass : α := (lanes.map fun lane => weight E lane.score).sum

def moment (d : δ) : α := (lanes.map fun lane => weight E lane.score * lane.value d).sum

end

@[simp] theorem mass_nil : mass E ([] : List (Lane α δ)) = 0 := rfl

@[simp] theorem moment_nil (d : δ) : moment E ([] : List (Lane α δ)) d = 0 := rfl

theorem mass_append (left right : List (Lane α δ)) : mass E (left ++ right) = mass E left + mass E right := by
  rw [mass, map_append, sum_append]
  rfl

theorem moment_append (left right : List (Lane α δ)) (d : δ) :
    moment E (left ++ right) d = moment E left d + moment E right d := by
  rw [moment, map_append, sum_append]
  rfl

structure Sums (row : Lane α δ) (lanes : List (Lane α δ)) : Prop where
  finite : row.score ≠ ⊥
  mass : mass E [row] = mass E lanes
  moment : ∀ d, moment E [row] d = moment E lanes d

section
variable {ι : Type*} (lane : ι → Lane α δ) (active : ι → Prop) [DecidablePred active] (xs : List ι)

def maskLane (i : ι) : Lane α δ := if active i then lane i else ⟨⊥, fun _ => 0⟩

omit [LinearOrder α] in
theorem sum_maskLane {f : Lane α δ → α} (none : f ⟨⊥, fun _ => 0⟩ = 0) :
    ((xs.map (maskLane lane active)).map f).sum =
      (((xs.filter fun i => decide (active i)).map lane).map f).sum := by
  induction xs with
  | nil => rfl
  | cons i rest ih =>
    rw [map_cons, map_cons, sum_cons, ih]
    by_cases on : active i
    · rw [filter_cons_of_pos (by exact decide_eq_true on), maskLane, if_pos on]
      rfl
    · rw [filter_cons_of_neg (by simpa using on), maskLane, if_neg on, none, zero_add]

theorem mass_maskLane :
    mass E (xs.map (maskLane lane active)) = mass E ((xs.filter fun i => decide (active i)).map lane) :=
  sum_maskLane lane active xs rfl

theorem moment_maskLane (d : δ) :
    moment E (xs.map (maskLane lane active)) d =
      moment E ((xs.filter fun i => decide (active i)).map lane) d :=
  sum_maskLane lane active xs (mul_zero _)

end

/-- The running sums stand for a total mass and moment, in units of the running maximum. -/
structure Holds (s : Running α δ) (total : α) (first : δ → α) : Prop where
  total : s.sum * weight E s.top = total
  first : ∀ d, s.acc d * weight E s.top = first d

theorem Holds.start : Holds E (start : Running α δ) 0 fun _ => 0 := ⟨mul_zero _, fun _ => mul_zero _⟩

/-! ### Steps -/

theorem exp_neg_mul (a : α) : E.exp (-a) * E.exp a = 1 := by
  have square := E.exp_add 0 0
  rw [add_zero] at square
  have one : E.exp 0 = 1 := mul_right_cancel₀ (E.exp_pos 0).ne' (by rw [← square, one_mul])
  rw [← E.exp_add, neg_add_cancel, one]

theorem expSub_coe (a : WithBot α) (b : α) : expSub E a b = some (weight E a * E.exp (-b)) := by
  cases a with
  | bot => simp only [expSub, weight, zero_mul]
  | coe a => simp only [expSub, weight, ← E.exp_add, sub_eq_add_neg]

theorem rescale (x w m b : α) : (x * (w * E.exp (-b)) + m * E.exp (-b)) * E.exp b = x * w + m := by
  calc (x * (w * E.exp (-b)) + m * E.exp (-b)) * E.exp b
      = (x * w + m) * (E.exp (-b) * E.exp b) := by ring
    _ = x * w + m := by rw [exp_neg_mul, mul_one]

omit [Field α] in
theorem le_foldr_max {lanes : List (Lane α δ)} {lane : Lane α δ} (mem : lane ∈ lanes) :
    lane.score ≤ lanes.foldr (fun lane top => max lane.score top) ⊥ := by
  induction lanes with
  | nil => cases mem
  | cons head rest ih =>
    rcases mem_cons.mp mem with rfl | later
    · exact le_max_left _ _
    · exact (ih later).trans (le_max_right _ _)

variable {lanes : List (Lane α δ)}

theorem absorb_coe {s : Running α δ} {b : α}
    (top : max (lanes.foldr (fun lane top => max lane.score top) ⊥) s.top = b) :
    absorb E s lanes = some ⟨b, s.sum * (weight E s.top * E.exp (-b)) + mass E lanes * E.exp (-b),
      fun d => s.acc d * (weight E s.top * E.exp (-b)) + moment E lanes d * E.exp (-b)⟩ := by
  have weights : (lanes.mapM fun lane => expSub E lane.score b) =
      some (lanes.map fun lane => weight E lane.score * E.exp (-b)) := by
    rw [show (fun lane : Lane α δ => expSub E lane.score b) = fun lane =>
      pure (weight E lane.score * E.exp (-b)) from
      funext fun lane => expSub_coe E lane.score b]
    exact mapM_pure
  have products : ∀ d, (zipWith (fun weight lane => weight * lane.value d)
      (lanes.map fun lane => weight E lane.score * E.exp (-b)) lanes) =
        lanes.map fun lane => weight E lane.score * lane.value d * E.exp (-b) := by
    intro d
    rw [zipWith_map_left, zipWith_self]
    exact map_congr_left fun lane _ => by ring
  rw [absorb]
  simp only [top]
  rw [weights, expSub_coe]
  simp only [Option.bind_some, products, sum_map_mul_right, mass, moment]

section
variable {s : Running α δ} {total : α} {first : δ → α} (holds : Holds E s total first)
include holds

theorem Holds.absorb (finite : ∃ lane ∈ lanes, lane.score ≠ ⊥) :
    ∃ s', absorb E s lanes = some s' ∧ s'.top ≠ ⊥ ∧
      Holds E s' (total + mass E lanes) fun d => first d + moment E lanes d := by
  obtain ⟨lane, mem, score⟩ := finite
  have reached : max (lanes.foldr (fun lane top => max lane.score top) ⊥) s.top ≠ ⊥ := fun bottom =>
    score (le_bot_iff.mp (((le_foldr_max mem).trans (le_max_left _ _)).trans bottom.le))
  obtain ⟨b, top⟩ := WithBot.ne_bot_iff_exists.mp reached
  refine ⟨_, absorb_coe E top.symm, WithBot.coe_ne_bot, ?_, fun d => ?_⟩
  · rw [weight_coe, rescale, holds.total]
  · rw [weight_coe, rescale, holds.first d]

theorem Holds.absorbAll (tiles : List (List (Lane α δ)))
    (finite : ∀ tile ∈ tiles, ∃ lane ∈ tile, lane.score ≠ ⊥) :
    ∃ s', tiles.foldlM (OnlineSoftmax.absorb E) s = some s' ∧ (tiles ≠ [] ∨ s.top ≠ ⊥ → s'.top ≠ ⊥) ∧
      Holds E s' (total + mass E tiles.flatten) fun d => first d + moment E tiles.flatten d := by
  induction tiles generalizing s total first with
  | nil => exact ⟨s, rfl, fun reached => reached.resolve_left fun absent => absent rfl, by simpa using holds⟩
  | cons tile rest ih =>
    obtain ⟨s₁, ran, top, holds₁⟩ := holds.absorb E (finite tile mem_cons_self)
    obtain ⟨s', ranRest, top', holds'⟩ := ih holds₁ fun tile later => finite tile (mem_cons_of_mem _ later)
    refine ⟨s', ?_, fun _ => top' (.inr top), ?_⟩
    · rwa [foldlM_cons, ran]
    · simpa only [flatten_cons, mass_append, moment_append, add_assoc] using holds'

end

/-! ### Results -/

/-- A partial result of positive mass: its logarithm and its average. -/
def finish (s : Running α δ) : Lane α δ :=
  let safe := if s.sum > 0 then s.sum else 1
  ⟨s.top.map (· + E.log safe), fun d => s.acc d / safe⟩

variable [IsStrictOrderedRing α]

theorem mass_pos (finite : ∃ lane ∈ lanes, lane.score ≠ ⊥) : 0 < mass E lanes := by
  have nonneg : ∀ a, 0 ≤ weight E a := fun a => by
    cases a with
    | bot => exact le_rfl
    | coe a => exact (E.exp_pos a).le
  obtain ⟨lane, mem, score⟩ := finite
  obtain ⟨a, finiteScore⟩ := WithBot.ne_bot_iff_exists.mp score
  have pos : 0 < weight E lane.score := by
    rw [← finiteScore]
    exact E.exp_pos a
  refine lt_of_lt_of_le pos (single_le_sum (fun x among => ?_) _ (mem_map.mpr ⟨lane, mem, rfl⟩))
  obtain ⟨other, -, rfl⟩ := mem_map.mp among
  exact nonneg _

section
variable {s : Running α δ} {total : α} {first : δ → α} (holds : Holds E s total first) (reached : s.top ≠ ⊥)
  (pos : 0 < total)
include holds reached pos

theorem Holds.units : ∃ b : α, b = s.top ∧ s.sum * E.exp b = total ∧ 0 < s.sum := by
  obtain ⟨b, top⟩ := WithBot.ne_bot_iff_exists.mp reached
  have unit : s.sum * E.exp b = total := by rw [← holds.total, ← top, weight_coe]
  exact ⟨b, top, unit, (mul_pos_iff_of_pos_right (E.exp_pos b)).mp (unit ▸ pos)⟩

theorem Holds.finish : (finish E s).score ≠ ⊥ ∧ mass E [finish E s] = total ∧
      ∀ d, moment E [finish E s] d = first d := by
  obtain ⟨b, top, unit, sum⟩ := holds.units E reached pos
  have score : (OnlineSoftmax.finish E s).score = ((b + E.log s.sum : α) : WithBot α) := by
    simp only [OnlineSoftmax.finish, if_pos sum, ← top]
    rfl
  have value : ∀ d, (OnlineSoftmax.finish E s).value d = s.acc d / s.sum := fun d => by
    simp only [OnlineSoftmax.finish, if_pos sum]
  have weighs : weight E (OnlineSoftmax.finish E s).score = total := by
    rw [score, ← unit, mul_comm]
    rw [weight_coe, E.exp_add, E.exp_log _ sum]
  refine ⟨by rw [score]; exact WithBot.coe_ne_bot, by simpa [mass] using weighs, fun d => ?_⟩
  have moved := holds.first d
  rw [← top] at moved
  simp only [moment, map_cons, map_nil, sum_cons, sum_nil, add_zero]
  rw [weighs, value, ← moved, ← unit, weight_coe]
  field_simp

theorem Holds.quotient : quotient s.acc s.sum = quotient first total := by
  obtain ⟨b, top, unit, sum⟩ := holds.units E reached pos
  rw [OnlineSoftmax.quotient, OnlineSoftmax.quotient, if_neg sum.ne', if_neg pos.ne']
  congr 1
  funext d
  have moved := holds.first d
  rw [← top, weight_coe] at moved
  rw [← moved, ← unit, mul_div_mul_right _ _ (E.exp_pos b).ne']

end

end OnlineSoftmax
