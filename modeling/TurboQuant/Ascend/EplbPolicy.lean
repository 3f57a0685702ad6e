import TurboQuant.Ascend.EplbWorker
import Mathlib.Algebra.Order.Ring.Rat

/-!
The default policy of expert parallel load balancing. The hottest experts get replicas, each card
takes at most one of them, and then every expert is put on the lightest card that has room and does
not have it yet. Inside a card the experts that stay keep their slots. Sums, products and quotients
of loads are rounded.
-/

namespace TurboQuant.Ascend.Eplb
open List

inductive PolicyError where
  | valueError
  | indexError
  | zeroDivisionError
deriving DecidableEq

abbrev Load := Nat × Rat

def sortedByLoad (loads : List Load) : List Load := (loads.insertionSort fun a b => a.2 ≤ b.2).reverse

structure Split where
  loads : List Load
  replicas : Nat → Nat

section
variable (round : Rat → Rat)

end

structure Box where
  items : List Nat
  weights : List Rat

namespace Box

def add (b : Box) (load : Load) : Box := ⟨b.items ++ [load.1], b.weights ++ [load.2]⟩

/-- The entry of `box_weights`, a running sum. -/
def totalWeight (round : Rat → Rat) (b : Box) : Rat :=
  b.weights.foldl (fun total weight => round (total + weight)) 0

def itemCount (b : Box) : Nat := b.items.length

def hasRoom (itemsPerBox remainingItems : Nat) (b : Box) : Bool :=
  decide (b.itemCount < itemsPerBox) || (b.itemCount == itemsPerBox && decide (0 < remainingItems))

end Box

def curWeight (loads : List Load) (e : Nat) : Rat :=
  loads.foldl (fun cur load => if load.1 = e then load.2 else cur) 0

def redundantCopies (s : Split) (experts : Nat) : List Nat :=
  (range experts).flatMap fun e => replicate (s.replicas e) e

def addTo (boxes : List Box) (i : Nat) (load : Load) : Except PolicyError (List Box) :=
  match boxes[i]? with
  | none => .error .indexError
  | some b => .ok (boxes.set i (b.add load))

structure PackState where
  boxes : List Box
  remainingItems : Nat

section
variable (round : Rat → Rat)

/-- One round of the search: a card that has the expert or no room is passed over, and of two cards
with the same weight the first one stays. -/
def lighter (itemsPerBox remainingItems : Nat) (e : Nat) (best : Option (Nat × Rat))
    (entry : Box × Nat) : Option (Nat × Rat) :=
  if e ∈ entry.1.items then best
  else if entry.1.hasRoom itemsPerBox remainingItems then
    match best with
    | none => some (entry.2, entry.1.totalWeight round)
    | some (i, weight) =>
      if entry.1.totalWeight round < weight then some (entry.2, entry.1.totalWeight round)
      else some (i, weight)
  else best

def minBoxIndex (itemsPerBox : Nat) (p : PackState) (e : Nat) : Option Nat :=
  (p.boxes.zipIdx.foldl (lighter round itemsPerBox p.remainingItems e) none).map Prod.fst

/-- The expert is put on the chosen card. If there is none the index is `-1`, which is the last
card. -/
def packItem (itemsPerBox : Nat) (p : PackState) (load : Load) : Except PolicyError PackState := do
  let i := (minBoxIndex round itemsPerBox p load.1).getD (p.boxes.length - 1)
  let boxes ← addTo p.boxes i load
  let count := (boxes[i]?.map Box.itemCount).getD 0
  .ok ⟨boxes, if count = itemsPerBox + 1 ∧ 0 < p.remainingItems then p.remainingItems - 1
    else p.remainingItems⟩

end

/-- Looks for a slot that has the expert now and is not taken. `none` is a slot that is free. -/
def keepSlot (e : Nat) : List Nat → List (Option Nat) → Except PolicyError (Option (List (Option Nat)))
  | _, [] => .ok none
  | [], _ :: _ => .error .indexError
  | current :: currents, slot :: slots =>
    if e = current ∧ slot = none then .ok (some (some current :: slots))
    else (keepSlot e currents slots).map fun found => found.map (slot :: ·)

def keepSlots (current : List Nat) (state : List (Option Nat) × List Nat) (e : Nat) :
    Except PolicyError (List (Option Nat) × List Nat) := do
  let found ← keepSlot e current state.1
  match found with
  | some result => .ok (result, state.2)
  | none => .ok (state.1, state.2 ++ [e])

def fillSlots : List (Option Nat) → List Nat → Except PolicyError (List Nat)
  | [], _ => .ok []
  | some e :: slots, remaining => (fillSlots slots remaining).map (e :: ·)
  | none :: _, [] => .error .indexError
  | none :: slots, e :: remaining => (fillSlots slots remaining).map (e :: ·)

/-- `constraint_expert_local_exchange` of this policy and of the Swift balancer, for one card -/
def localExchange (current new : List Nat) : Except PolicyError (List Nat) := do
  let kept ← new.foldlM (keepSlots current) (replicate new.length none, [])
  fillSlots kept.1 kept.2

section

variable {layers cards slots : Nat} (round : Rat → Rat)

section
variable (table : ExpertTable (layers + 1) cards slots)

end

end

end TurboQuant.Ascend.Eplb
