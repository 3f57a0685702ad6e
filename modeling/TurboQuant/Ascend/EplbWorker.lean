import TurboQuant.Lib.Channels
import TurboQuant.Lib.Outcome
import Mathlib.Data.Fintype.Prod

/-!
The worker of expert parallel load balancing.
-/

namespace TurboQuant.Ascend.Eplb
open Channels List Option

inductive EplbError where
  /-- Tensors whose shapes do not fit, or the maximum of an empty tensor. -/
  | runtimeError
  | indexError
  /-- Waiting for a receive that no send matches, or for an empty queue. -/
  | hang

variable {layers ranks slots ss : Nat}

/-- `[layer, rank, slot]`: the expert of each slot. -/
abbrev ExpertTable (layers ranks slots : Nat) := Fin layers → Fin ranks → Fin slots → Nat

/-- `[layer, rank, expert]`: the slot of each expert, or `none` for `-1`. -/
structure ExpertMaps (layers ranks : Nat) where
  experts : Nat
  slot : Fin layers → Fin ranks → Nat → Option Nat

def slotOf (row : Fin slots → Nat) (expert : Nat) : Option Nat :=
  ((finRange slots).reverse.find? fun s => row s == expert).map Fin.val

variable {row : Fin ss → Nat} {e : Nat}

theorem slotOf_eq_none : slotOf row e = none ↔ ∀ s, row s ≠ e := by
  simp [slotOf]

theorem slotOf_eq_some (distinct : Function.Injective row) {s : Nat} :
    slotOf row e = some s ↔ ∃ t : Fin ss, t.val = s ∧ row t = e := by
  constructor
  · intro found
    obtain ⟨t, at_, rfl⟩ := map_eq_some_iff.mp found
    exact ⟨t, rfl, by simpa using find?_some at_⟩
  · rintro ⟨t, rfl, rfl⟩
    cases found : slotOf row (row t) with
    | none => exact absurd rfl (slotOf_eq_none.mp found t)
    | some s =>
      obtain ⟨u, at_, rfl⟩ := map_eq_some_iff.mp found
      have same : row u = row t := by simpa using find?_some at_
      rw [distinct same]

theorem slotOf_isSome : (slotOf row e).isSome ↔ ∃ s, row s = e := by
  rw [isSome_iff_ne_none, ne_eq, slotOf_eq_none]
  simp

def tableMaps (experts : Nat) (table : ExpertTable layers ranks slots) : ExpertMaps layers ranks where
  experts := experts
  slot l r := slotOf (table l r)

/-- The experts of all slots of the current model. No rank has an expert in two slots. -/
structure Placement (layers ranks slots : Nat) where
  experts : Nat
  expert : ExpertTable layers ranks slots
  expert_lt : ∀ l r s, expert l r s < experts
  distinct : ∀ l r, Function.Injective (expert l r)

def Placement.maps (p : Placement layers ranks slots) : ExpertMaps layers ranks := tableMaps p.experts p.expert

def tableEntries (table : ExpertTable layers ranks slots) : List Nat :=
  (finRange layers).flatMap fun l => (finRange ranks).flatMap fun r => (finRange slots).map (table l r)

def local2global (table : ExpertTable layers ranks slots) : Except EplbError (ExpertMaps layers ranks) :=
  match (tableEntries table).max? with
  | none => .error .runtimeError
  | some maxId => .ok (tableMaps (maxId + 1) table)

/-- The placement behind expert maps; `-1` stays where no expert has the slot. -/
def global2local (maps : ExpertMaps layers ranks) (slots : Nat) : Fin layers → Fin ranks →
    Fin slots → Option Nat :=
  fun l r s => (range maps.experts).reverse.find? fun e => maps.slot l r e == some s.val

theorem global2local_maps (p : Placement layers ranks ss) (l : Fin layers) (r : Fin ranks) (s : Fin ss) :
    global2local p.maps ss l r s = some (p.expert l r s) := by
  have here : p.maps.slot l r (p.expert l r s) = some s.val :=
    (slotOf_eq_some (p.distinct l r)).mpr ⟨s, rfl, rfl⟩
  cases found : global2local p.maps ss l r s with
  | none =>
    have absent := find?_eq_none.mp found (p.expert l r s)
      (mem_reverse.mpr (mem_range.mpr (p.expert_lt l r s)))
    exact absurd (by simpa using here) absent
  | some e =>
    have at_ : p.maps.slot l r e = some s.val := by simpa using find?_some found
    obtain ⟨t, same, rfl⟩ := (slotOf_eq_some (p.distinct l r)).mp at_
    rw [Fin.ext same]

variable {t : ExpertTable layers ranks ss}

theorem mem_tableEntries :
    e ∈ tableEntries t ↔ ∃ l r s, t l r s = e := by
  simp [tableEntries]

theorem local2global_ok {maps : ExpertMaps layers ranks} : local2global t = .ok maps ↔
      ∃ e, maps = tableMaps (e + 1) t ∧ (∃ l r s, t l r s = e) ∧ ∀ l r s, t l r s ≤ e := by
  unfold local2global
  have largest : ∀ e, (tableEntries t).max? = some e ↔ (∃ l r s, t l r s = e) ∧ ∀ l r s, t l r s ≤ e := by
    intro e
    rw [max?_eq_some_iff, mem_tableEntries]
    refine and_congr_right fun _ => ⟨fun bound l r s => bound _ (mem_tableEntries.mpr ⟨l, r, s,
      rfl⟩), fun bound other member => ?_⟩
    obtain ⟨l, r, s, rfl⟩ := mem_tableEntries.mp member
    exact bound l r s
  cases found : (tableEntries t).max? with
  | none =>
    constructor
    · intro ran
      cases ran
    · rintro ⟨e, -, attained⟩
      rw [← largest, found] at attained
      cases attained
  | some e =>
    constructor
    · intro ran
      exact ⟨e, (Except.ok.inj ran).symm, (largest e).mp found⟩
    · rintro ⟨other, rfl, attained⟩
      rw [← largest, found] at attained
      rw [some.inj attained]

def hosted (row : Fin ranks → Fin slots → Nat) : Finset Nat :=
  Finset.univ.image fun place : Fin ranks × Fin slots => row place.1 place.2

def NoMovement (old new : Fin slots → Nat) : Prop := ∀ s, new s ∈ Finset.univ.image old → new s = old s

instance (old new : Fin slots → Nat) : Decidable (NoMovement old new) := Fintype.decidableForallFintype

def passesCheck (old new : Fin ranks → Fin slots → Nat) : Bool :=
  decide ((hosted old).card ≤ (hosted new).card) &&
    decide (∀ r, (Finset.univ.image (new r)).card = slots ∧ NoMovement (old r) (new r))

theorem mem_hosted {row : Fin ranks → Fin ss → Nat} : e ∈ hosted row ↔ ∃ r s, row r s = e := by
  simp [hosted]

theorem passesCheck_iff {old new : Fin ranks → Fin ss → Nat} : passesCheck old new ↔
      (hosted old).card ≤ (hosted new).card ∧ ∀ r, Function.Injective (new r) ∧
        NoMovement (old r) (new r) := by
  have distinct : ∀ row : Fin ss → Nat, (Finset.univ.image row).card = ss ↔ Function.Injective row := by
    intro row
    rw [← Set.injOn_univ, ← Finset.coe_univ, ← Finset.card_image_iff, Finset.card_univ, Fintype.card_fin]
  simp only [passesCheck, Bool.and_eq_true, decide_eq_true_eq, distinct]

def checkExpertPlacement (old new : ExpertTable layers ranks slots) : ExpertTable layers ranks slots :=
  fun l => if passesCheck (old l) (new l) then new l else old l

/-- `torch.where` of a matrix with a row for each rank. -/
def whereEntries (columns : Nat) (holds : Fin ranks → Nat → Bool) : List (Fin ranks × Nat) :=
  (finRange ranks).flatMap fun r => ((range columns).filter (holds r)).map fun e => (r, e)

namespace ExpertMaps

/-- An entry of a matrix in an elementwise operation: a single column is used for all columns. -/
def entry (maps : ExpertMaps layers ranks) (l : Fin layers) (r : Fin ranks) (e : Nat) : Option Nat :=
  maps.slot l r (if maps.experts = 1 then 0 else e)

def broadcast (a b : ExpertMaps layers ranks) : Except EplbError Nat :=
  if a.experts = b.experts then .ok a.experts
  else if a.experts = 1 then .ok b.experts
  else if b.experts = 1 then .ok a.experts
  else .error .runtimeError

def sameLayer (a b : ExpertMaps layers ranks) (l : Fin layers) : Bool :=
  decide (a.experts = b.experts) &&
    (finRange ranks).all fun r => (range a.experts).all fun e => decide (a.slot l r e = b.slot l r e)

end ExpertMaps

section

variable (updated current : ExpertMaps layers ranks) (l : Fin layers)

def expertsToRecv (columns : Nat) : List (Fin ranks × Nat) :=
  whereEntries columns fun r e => (current.entry l r e).isNone && (updated.entry l r e).isSome

def expertsToSend (columns : Nat) : List (Fin ranks × Nat) :=
  whereEntries columns fun r e => (current.entry l r e).isSome && (updated.entry l r e).isNone

section
variable (toSend : List (Fin ranks × Nat))

/-- An expert that leaves some rank is sent by such a rank, any other expert is copied. -/
def candidateSrcRanks (e : Nat) : Except EplbError (List (Fin ranks)) :=
  if e ∈ toSend.map Prod.snd then .ok ((toSend.filter fun entry => entry.2 == e).map Prod.fst)
  else if current.experts ≤ e then .error .indexError
  else .ok ((finRange ranks).filter fun r => (current.slot l r e).isSome)

def srcRank (e : Nat) : Except EplbError (Fin ranks) := do
  let candidates ← candidateSrcRanks current l toSend e
  match candidates.head? with
  | some r => .ok r
  | none => .error .indexError

def exchangeStep (mail : Mail (Fin ranks) Nat) (recv : Fin ranks × Nat) :
    Except EplbError (Mail (Fin ranks) Nat) := do
  let src ← srcRank current l toSend recv.2
  .ok (mail.post ⟨src, recv.1, recv.2⟩)

end

/-- The send and receive lists of a layer: who sends which expert to whom. -/
def exchange : Except EplbError (Mail (Fin ranks) Nat) := do
  let columns ← current.broadcast updated
  (expertsToRecv updated current l columns).foldlM
    (exchangeStep current l (expertsToSend updated current l columns)) Mail.empty

/-- What `compose_expert_update_info_greedy` yields for a layer. The generator goes on after the
entry of a layer without updates. -/
def composeLayer : Except EplbError (List (Mail (Fin ranks) Nat × Fin layers)) := do
  let unchanged := if updated.sameLayer current l then [(Mail.empty, l)] else []
  let mail ← exchange updated current l
  .ok (unchanged ++ [(mail, l)])

end

def composeExpertUpdateInfoGreedy (updated current : ExpertMaps layers ranks) :
    Except EplbError (List (Mail (Fin ranks) Nat × Fin layers)) := do
  let perLayer ← (finRange layers).mapM (composeLayer updated current)
  .ok perLayer.flatten

section

variable (maps : ExpertMaps layers ranks) (l : Fin layers) (rank : Fin ranks)

def validCount : Nat := (range maps.experts).countP fun e => (maps.slot l ⟨0, rank.pos⟩ e).isSome

def physicalIds (e : Nat) : List Nat :=
  (finRange ranks).filterMap fun r => (maps.slot l r e).map fun s => s + r * validCount maps l rank

def log2phyKeys : List Nat := (range maps.experts).filter fun e => !(physicalIds maps l rank e).isEmpty

/-- Each rank takes one of the replicas. The values are scattered into a tensor with one entry for
each key, so a key beyond their number is out of bounds. -/
def generateLog2phyMap : Except EplbError (List Nat) :=
  let keys := log2phyKeys maps l rank
  if keys.all fun e => decide (e < keys.length) then
    .ok ((range keys.length).map fun e =>
      let ids := physicalIds maps l rank e
      ids.getD (rank % ids.length) 0)
  else .error .runtimeError

end

structure PackedUpdate (layers ranks : Nat) where
  sendInfo : List (Fin ranks × Nat)
  recvInfo : List (Fin ranks × Nat)
  expertMap : List (Option Nat)
  log2phy : List Nat
  layerId : Fin layers

def packUpdate (maps : ExpertMaps layers ranks) (rank : Fin ranks)
    (update : Mail (Fin ranks) Nat × Fin layers) :
    Except EplbError (PackedUpdate layers ranks) := do
  let log2phy ← generateLog2phyMap maps update.2 rank
  .ok { sendInfo := update.1.sends rank
        recvInfo := update.1.receives rank
        expertMap := (range maps.experts).map (maps.slot update.2 rank)
        log2phy := log2phy
        layerId := update.2 }

/-- `do_update` on a rank: the maps that are recorded as current, and the packed list. -/
def doUpdate (old : Placement layers ranks slots) (new : ExpertTable layers ranks slots) (rank : Fin ranks) :
    Except EplbError (ExpertMaps layers ranks × List (PackedUpdate layers ranks)) := do
  let maps ← local2global (checkExpertPlacement old.expert new)
  let updates ← composeExpertUpdateInfoGreedy maps old.maps
  let packed ← updates.mapM (packUpdate maps rank)
  .ok (maps, packed)

end TurboQuant.Ascend.Eplb
