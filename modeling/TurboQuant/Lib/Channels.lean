import Mathlib.Data.List.Basic

/-!
Point-to-point exchange between parties.
-/

namespace Channels
open List

variable {ι α : Type} [DecidableEq ι]

structure Message (ι α : Type) where
  src : ι
  dst : ι
  item : α

/-- For each party, whom it sends what and from whom it receives what. -/
structure Mail (ι α : Type) where
  sends : ι → List (ι × α)
  receives : ι → List (ι × α)

def Mail.empty : Mail ι α := ⟨fun _ => [], fun _ => []⟩

def Mail.post (mail : Mail ι α) (m : Message ι α) : Mail ι α where
  sends := Function.update mail.sends m.src (mail.sends m.src ++ [(m.dst, m.item)])
  receives := Function.update mail.receives m.dst (mail.receives m.dst ++ [(m.src, m.item)])

def with_ (party : ι) (entries : List (ι × α)) : List α :=
  (entries.filter fun entry => decide (entry.1 = party)).map Prod.snd

@[simp] theorem with_nil (party : ι) : with_ party ([] : List (ι × α)) = [] := rfl

@[simp] theorem with_append (party : ι) (a b : List (ι × α)) :
    with_ party (a ++ b) = with_ party a ++ with_ party b := by
  simp only [with_, filter_append, map_append]

@[simp] theorem with_single (party other : ι) (item : α) :
    with_ party [(other, item)] = if other = party then [item] else [] := by
  by_cases same : other = party <;> simp [with_, same]

theorem with_map {β : Type} (f : α → β) (party : ι) (es : List (ι × α)) :
    with_ party (es.map fun e => (e.1, f e.2)) = (with_ party es).map f := by
  simp only [with_, filter_map, map_map]
  rfl

/-- For every ordered pair of parties the order of the sends is the order of the receives. -/
def Mail.InOrder (mail : Mail ι α) : Prop :=
  ∀ src dst, with_ dst (mail.sends src) = with_ src (mail.receives dst)

section
variable (mail : Mail ι α) (m : Message ι α) (party : ι)

theorem Mail.post_receives :
    (mail.post m).receives party = mail.receives party ++ if m.dst = party then [(m.src, m.item)] else [] := by
  by_cases same : m.dst = party
  · subst same
    simp [Mail.post]
  · simp [Mail.post, same, Ne.symm same]

theorem Mail.post_sends :
    (mail.post m).sends party = mail.sends party ++ if m.src = party then [(m.dst, m.item)] else [] := by
  by_cases same : m.src = party
  · subst same
    simp [Mail.post]
  · simp [Mail.post, same, Ne.symm same]

end

theorem Mail.InOrder.post {mail : Mail ι α} (inOrder : mail.InOrder) (m : Message ι α) :
    (mail.post m).InOrder := by
  intro src dst
  rw [Mail.post_sends, Mail.post_receives, with_append, with_append, inOrder src dst]
  congr 1
  by_cases sender : m.src = src <;> by_cases receiver : m.dst = dst <;> simp [sender, receiver]

def arrivals (sends : ι → List (ι × α)) (me : ι) (sources : List ι) : List (Option α) :=
  sources.mapIdx fun i src => (with_ me (sends src))[(sources.take i).count src]?

theorem with_getElem? {es : List (ι × α)} {i : Nat} {party : ι} {item : α}
    (found : es[i]? = some (party, item)) :
    (with_ party es)[((es.map Prod.fst).take i).count party]? = some item := by
  induction es generalizing i with
  | nil => cases found
  | cons e rest ih =>
    rw [← singleton_append, with_append]
    cases i with
    | zero =>
      obtain rfl : e = (party, item) := by simpa using found
      simp
    | succ i =>
      have later := ih (by simpa using found)
      by_cases same : e.1 = party
      · rw [show e = (e.1, e.2) from rfl, with_single, if_pos same]
        simpa [same] using later
      · rw [show e = (e.1, e.2) from rfl, with_single, if_neg same]
        simpa [same] using later

theorem arrivals_of_inOrder {sends : ι → List (ι × α)} {me : ι} {receives : List (ι × α)}
    (inOrder : ∀ src, with_ me (sends src) = with_ src receives) :
    arrivals sends me (receives.map Prod.fst) = receives.map fun e => some e.2 := by
  apply ext_getElem?
  intro i
  rw [arrivals, getElem?_mapIdx, getElem?_map, getElem?_map]
  cases found : receives[i]? with
  | none => rfl
  | some e =>
    show some ((with_ me (sends e.1))[_]?) = some (some e.2)
    rw [inOrder, with_getElem? found]

end Channels
