import Mathlib.Algebra.BigOperators.Group.List.Basic
import Mathlib.Algebra.Order.Ring.Nat

/-!
The encoder cache manager of encoder-decoder models, and what the scheduler calls it for. An encoder
input is given by its number of embeddings.
-/

namespace TurboQuant.Core.EncoderDecoder
open List

structure EncoderRequest where
  requestId : String
  encoderInputs : List Nat

structure EncoderDecoderCacheManager where
  cacheSize : Nat
  numFreeSlots : Int

namespace EncoderDecoderCacheManager
variable (m : EncoderDecoderCacheManager)

def canAllocate (numEncoderEmbeds encoderComputeBudget numEmbedsToSchedule : Nat) : Bool :=
  numEncoderEmbeds ≤ encoderComputeBudget && numEncoderEmbeds + numEmbedsToSchedule ≤ m.numFreeSlots

def allocate (numEncoderEmbeds : Nat) : EncoderDecoderCacheManager :=
  { m with numFreeSlots := m.numFreeSlots - numEncoderEmbeds }

def freeEncoderInput (numEncoderEmbeds : Nat) : EncoderDecoderCacheManager :=
  { m with numFreeSlots := m.numFreeSlots + numEncoderEmbeds }

def free (r : EncoderRequest) : EncoderDecoderCacheManager := r.encoderInputs.foldl freeEncoderInput m

def reset : EncoderDecoderCacheManager := { m with numFreeSlots := m.cacheSize }

/-- The inputs that `_try_schedule_encoder_inputs` takes have passed `can_allocate` one after the
other. -/
def Admits : Nat → Nat → List Nat → Prop
  | _, _, [] => True
  | budget, scheduled, n :: rest =>
    m.canAllocate n budget scheduled = true ∧ Admits (budget - n) (scheduled + n) rest

variable {m}

theorem foldl_allocate (inputs : List Nat) :
    inputs.foldl allocate m = { m with numFreeSlots := m.numFreeSlots - inputs.sum } := by
  induction inputs generalizing m with
  | nil => simp
  | cons n rest ih =>
    rw [foldl_cons, ih, sum_cons, allocate, Int.natCast_add, Int.sub_sub]

theorem free_eq (r : EncoderRequest) :
    m.free r = { m with numFreeSlots := m.numFreeSlots + r.encoderInputs.sum } := by
  unfold free
  induction r.encoderInputs generalizing m with
  | nil => simp
  | cons n rest ih =>
    rw [foldl_cons, ih, sum_cons, freeEncoderInput, Int.natCast_add, Int.add_assoc]

theorem Admits.le {inputs : List Nat} {budget scheduled : Nat} (admits : m.Admits budget scheduled inputs)
    (room : scheduled ≤ m.numFreeSlots) : scheduled + inputs.sum ≤ m.numFreeSlots := by
  induction inputs generalizing budget scheduled with
  | nil => simpa using room
  | cons n rest ih =>
    obtain ⟨fits, rest⟩ := admits
    have room : n + scheduled ≤ m.numFreeSlots := by simpa using (Bool.and_eq_true_iff.mp fits).2
    have all := ih rest (by omega)
    rw [sum_cons]
    omega

end EncoderDecoderCacheManager

structure State where
  manager : EncoderDecoderCacheManager
  numComputedTokens : String → Nat
  /-- The inputs that are allocated and not yet released, with their requests. -/
  allocated : List (String × Nat)

inductive Call where
  | schedule (r : EncoderRequest) (inputs : List Nat) (numNewTokens : Nat)
  | updateFromOutput (r : EncoderRequest)
  | preemptRequest (r : EncoderRequest)
  /-- The request ends, or it was waiting and there are no KV blocks for it. -/
  | free (r : EncoderRequest)
  | resetEncoderCache

namespace State

def new (cacheSize : Nat) : State := ⟨⟨cacheSize, cacheSize⟩, fun _ => 0, []⟩

variable (s : State)

def release (r : EncoderRequest) : State :=
  { s with manager := s.manager.free r, allocated := s.allocated.filter (·.1 ≠ r.requestId) }

def step : Call → State
  | .schedule r inputs numNewTokens =>
    { manager := inputs.foldl .allocate s.manager
      numComputedTokens := Function.update s.numComputedTokens r.requestId
        (s.numComputedTokens r.requestId + numNewTokens)
      allocated := s.allocated ++ inputs.map (r.requestId, ·) }
  -- for `_free_encoder_inputs` the first computed token is enough
  | .updateFromOutput r => if 0 < s.numComputedTokens r.requestId then s.release r else s
  | .preemptRequest r => { s.release r with numComputedTokens := Function.update s.numComputedTokens r.requestId 0 }
  | .free r => s.release r
  | .resetEncoderCache => { s with manager := s.manager.reset, allocated := [] }

/-- Inputs are only scheduled for a request without computed tokens. -/
def Legal : Call → Prop
  | .schedule r inputs _ => inputs <+ r.encoderInputs ∧ (inputs = [] ∨ s.numComputedTokens r.requestId = 0) ∧
    ∃ budget, s.manager.Admits budget 0 inputs
  | _ => True

def Accounted : Prop := 0 ≤ s.manager.numFreeSlots ∧ s.manager.numFreeSlots ≤ s.manager.cacheSize ∧
  s.manager.numFreeSlots = s.manager.cacheSize - (s.allocated.map (·.2)).sum

/-- What the manager is to free for the request has been allocated and not been released since. -/
def Held (r : EncoderRequest) : Prop :=
  ((s.allocated.filter (·.1 = r.requestId)).map (·.2)).sum = r.encoderInputs.sum

def Covers : Call → Prop
  | .schedule .. | .resetEncoderCache => True
  | .updateFromOutput r => 0 < s.numComputedTokens r.requestId → s.Held r
  | .preemptRequest r | .free r => s.Held r

variable {s}

theorem Accounted.release_iff (accounted : s.Accounted) (r : EncoderRequest) :
    (s.release r).Accounted ↔ s.Held r := by
  have split := ((filter_append_perm (fun entry : String × Nat => decide (entry.1 = r.requestId))
    s.allocated).map (·.2)).sum_eq
  simp only [map_append, sum_append, ← decide_not] at split
  simp only [Accounted, release, Held, EncoderDecoderCacheManager.free_eq, ne_eq] at accounted ⊢
  omega

theorem Accounted.step_iff (accounted : s.Accounted) {call : Call} (legal : s.Legal call) :
    (s.step call).Accounted ↔ s.Covers call := by
  cases call with
  | schedule r inputs numNewTokens =>
    obtain ⟨-, -, budget, admits⟩ := legal
    have room := admits.le accounted.1
    have sizes : ((s.allocated ++ inputs.map (r.requestId, ·)).map (·.2)).sum =
        (s.allocated.map (·.2)).sum + inputs.sum := by
      simp [Function.comp_def]
    refine iff_of_true ?_ trivial
    simp only [Accounted, step, EncoderDecoderCacheManager.foldl_allocate, sizes] at accounted ⊢
    omega
  | updateFromOutput r =>
    rw [step, Covers]
    split
    · rename_i some
      exact (accounted.release_iff r).trans ⟨fun held _ => held, fun held => held some⟩
    · rename_i none
      exact iff_of_true accounted fun some => absurd some none
  | preemptRequest r => exact accounted.release_iff r
  | free r => exact accounted.release_iff r
  | resetEncoderCache => exact iff_of_true (by simp [Accounted, step, EncoderDecoderCacheManager.reset]) trivial

def before (cacheSize : Nat) (calls : List Call) (i : Nat) : State := (calls.take i).foldl step (new cacheSize)

/-- The free slots are accounted for along a run exactly if every release finds the inputs of its
request allocated. -/
theorem accounted_iff (cacheSize : Nat) (calls : List Call)
    (legal : ∀ i call, calls[i]? = some call → (before cacheSize calls i).Legal call) :
    (∀ i, (before cacheSize calls i).Accounted) ↔
      ∀ i call, calls[i]? = some call → (before cacheSize calls i).Covers call := by
  have next : ∀ i call, calls[i]? = some call →
      before cacheSize calls (i + 1) = (before cacheSize calls i).step call := by
    intro i call here
    rw [before, take_add_one, here, foldl_append]
    rfl
  constructor
  · intro accounted i call here
    exact ((accounted i).step_iff (legal i call here)).mp (next i call here ▸ accounted (i + 1))
  intro covers i
  induction i with
  | zero => simp [Accounted, before, new]
  | succ i ih =>
    cases here : calls[i]? with
    | some call => exact next i call here ▸ (ih.step_iff (legal i call here)).mpr (covers i call here)
    | none =>
      rwa [before, take_add_one, here, Option.toList_none, append_nil]

def oneStep : List Call := [.schedule ⟨"a", [4]⟩ [4] 3, .updateFromOutput ⟨"a", [4]⟩]

theorem accounted_one_step : (before 10 oneStep 2).Accounted := by
  refine (accounted_iff 10 oneStep ?_).mpr ?_ 2
  · rintro (_ | _ | i) call here <;> cases here
    · exact ⟨.refl _, .inr rfl, 4, rfl, trivial⟩
    · exact trivial
  · rintro (_ | _ | i) call here <;> cases here
    · exact trivial
    · exact fun _ => rfl

/-- The next update of the request frees its input once more. -/
theorem accounted_second_step :
    let s := before 10 (oneStep ++ [.schedule ⟨"a", [4]⟩ [] 1, .updateFromOutput ⟨"a", [4]⟩]) 4
    s.manager.numFreeSlots = 14 ∧ ¬ s.Accounted :=
  ⟨rfl, fun accounted => absurd accounted.2.1 (by decide)⟩

end State
end TurboQuant.Core.EncoderDecoder
