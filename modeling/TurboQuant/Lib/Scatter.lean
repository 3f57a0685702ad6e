import Mathlib.Data.List.Nodup

/-!
Writing a batch of items into a map, one entry per item.
-/

namespace Scatter
open List

variable {ι κ υ : Type*} [DecidableEq κ]

def scatter (addr : ι → κ) (val : ι → υ) (items : List ι) (m : κ → υ) : κ → υ :=
  items.foldl (fun m i => Function.update m (addr i) (val i)) m

variable {addr : ι → κ} {xs : List ι}

theorem scatter_miss {val : ι → υ} {a : κ} (apart : ∀ i ∈ xs, addr i ≠ a)
    (m : κ → υ) : scatter addr val xs m a = m a := by
  induction xs generalizing m with
  | nil => rfl
  | cons i rest ih =>
    rw [scatter, foldl_cons]
    refine (ih (fun j mem => apart j (mem_cons_of_mem _ mem)) _).trans ?_
    exact Function.update_of_ne (Ne.symm (apart i mem_cons_self)) _ _

theorem scatter_congr {val val' : ι → υ} (same : ∀ i ∈ xs, val i = val' i)
    (m : κ → υ) : scatter addr val xs m = scatter addr val' xs m := by
  induction xs generalizing m with
  | nil => rfl
  | cons i rest ih =>
    rw [scatter, foldl_cons, same i mem_cons_self]
    exact ih (fun j mem => same j (mem_cons_of_mem _ mem)) _

theorem scatter_hit (val : ι → υ) {i : ι} (mem : i ∈ xs)
    (alone : ∀ j ∈ xs, addr j = addr i → j = i) (m : κ → υ) : scatter addr val xs m (addr i) = val i := by
  induction xs generalizing m with
  | nil => cases mem
  | cons j rest ih =>
    by_cases later : i ∈ rest
    · exact ih later (fun k mem => alone k (mem_cons_of_mem _ mem)) _
    · have here : i = j := (mem_cons.mp mem).resolve_right later
      subst here
      rw [scatter, foldl_cons]
      refine (scatter_miss (fun k mem same => ?_) _).trans (Function.update_self _ _ _)
      exact later (alone k (mem_cons_of_mem _ mem) same ▸ mem)

end Scatter
