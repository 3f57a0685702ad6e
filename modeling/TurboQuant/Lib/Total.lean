import Mathlib.Algebra.Order.Ring.Nat
import Mathlib.Data.List.AList

/-!
Sums over the values of a finite map.
-/

namespace Total

variable {α β : Type*} [DecidableEq α]

section
variable (f : β → Nat)

def total (d : AList fun _ : α => β) : Nat := (d.entries.map fun entry => f entry.2).sum

theorem sum_kerase (key : α) (es : List (Sigma fun _ : α => β)) :
    ((es.kerase key).map fun e => f e.2).sum + (es.dlookup key).elim 0 f =
      (es.map fun e => f e.2).sum := by
  induction es with
  | nil => rfl
  | cons e rest ih =>
    obtain ⟨key', value⟩ := e
    by_cases same : key = key'
    · subst same
      simp [Nat.add_comm]
    · rw [List.kerase_cons_ne same, List.dlookup_cons_ne rest ⟨key', value⟩ same]
      simp only [List.map_cons, List.sum_cons]
      omega

theorem total_insert (key : α) (value : β) (d : AList fun _ : α => β) :
    total f (d.insert key value) + (d.lookup key).elim 0 f = total f d + f value := by
  have step := sum_kerase f key d.entries
  simp only [total, AList.entries_insert, List.map_cons, List.sum_cons, AList.lookup]
  omega

end

end Total
