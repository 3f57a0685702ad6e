import Mathlib.Data.List.Chain
import Mathlib.Data.List.Nodup

/-!
Doubly linked sequences: links between nodes that are changed one pair or one node at a time.
-/

namespace Linked
open List Function

variable {α : Type*}

structure Links (α : Type*) where
  prev : α → Option α
  next : α → Option α

section
variable [DecidableEq α] (links : Links α)

def Links.connect (a b : α) : Links α :=
  ⟨update links.prev b (some a), update links.next a (some b)⟩

def Links.clear (a : α) : Links α :=
  ⟨update links.prev a none, update links.next a none⟩

def Links.clearAll (nodes : List α) : Links α := nodes.foldl Links.clear links

end

section
variable [DecidableEq α] (ls : Links α)

@[simp] theorem Links.connect_prev_of_ne {a b x : α} (other : x ≠ b) :
    (ls.connect a b).prev x = ls.prev x := update_of_ne other _ _

@[simp] theorem Links.connect_next_of_ne {a b x : α} (other : x ≠ a) :
    (ls.connect a b).next x = ls.next x := update_of_ne other _ _

@[simp] theorem Links.clear_prev_of_ne {a x : α} (other : x ≠ a) :
    (ls.clear a).prev x = ls.prev x := update_of_ne other _ _

@[simp] theorem Links.clear_next_of_ne {a x : α} (other : x ≠ a) :
    (ls.clear a).next x = ls.next x := update_of_ne other _ _

@[simp] theorem Links.clear_prev_self (a : α) : (ls.clear a).prev a = none :=
  update_self _ _ _

@[simp] theorem Links.clear_next_self (a : α) : (ls.clear a).next a = none :=
  update_self _ _ _

end

def Connected (links : Links α) (nodes : List α) : Prop :=
  nodes.IsChain fun a b => links.next a = some b ∧ links.prev b = some a

variable {ls : Links α} {before after : List α} {a b : α}

theorem Connected.left (connected : Connected ls (before ++ after)) : Connected ls before :=
  List.IsChain.left_of_append connected

theorem Connected.right (connected : Connected ls (before ++ after)) : Connected ls after :=
  List.IsChain.right_of_append connected

theorem Connected.next (connected : Connected ls (before ++ a :: b :: after)) : ls.next a = some b :=
  (isChain_cons_cons.mp (Connected.right connected)).1.1

theorem Connected.prev (connected : Connected ls (before ++ a :: b :: after)) : ls.prev b = some a :=
  (isChain_cons_cons.mp (Connected.right connected)).1.2

variable {nodes : List α}

theorem Connected.congr {links' : Links α} (connected : Connected ls nodes)
    (next : ∀ a ∈ nodes.dropLast, links'.next a = ls.next a)
    (prev : ∀ a ∈ nodes.tail, links'.prev a = ls.prev a) : Connected links' nodes := by
  induction nodes with
  | nil => exact .nil
  | cons a rest ih =>
    cases rest with
    | nil => exact .singleton a
    | cons b rest =>
      obtain ⟨here, later⟩ := isChain_cons_cons.mp connected
      refine isChain_cons_cons.mpr ⟨⟨?_, ?_⟩, ih later (fun x mem => next x ?_) (fun x mem => prev x ?_)⟩
      · rw [next a (by simp), here.1]
      · rw [prev b (by simp), here.2]
      · exact mem_cons_of_mem a mem
      · exact mem_of_mem_tail mem

variable [DecidableEq α]

theorem Connected.clear (connected : Connected ls nodes) (outside : a ∉ nodes) :
    Connected (ls.clear a) nodes := by
  refine connected.congr (fun x mem => ?_) (fun x mem => ?_)
  · exact update_of_ne (by rintro rfl; exact outside (dropLast_subset _ mem)) _ _
  · exact update_of_ne (by rintro rfl; exact outside (mem_of_mem_tail mem)) _ _

theorem Connected.clearAll {cleared : List α} (connected : Connected ls nodes)
    (outside : ∀ a ∈ cleared, a ∉ nodes) : Connected (ls.clearAll cleared) nodes := by
  induction cleared generalizing ls with
  | nil => exact connected
  | cons a rest ih =>
    exact ih (connected.clear (outside a mem_cons_self)) fun x mem => outside x (mem_cons_of_mem a mem)

theorem clearAll_of_mem (ls : Links α) (mem : a ∈ nodes) :
    (ls.clearAll nodes).prev a = none ∧ (ls.clearAll nodes).next a = none := by
  induction nodes using reverseRecOn with
  | nil => cases mem
  | append_singleton rest b ih =>
    have last : ls.clearAll (rest ++ [b]) = (ls.clearAll rest).clear b := foldl_append
    rw [last]
    by_cases same : a = b
    · simp [same]
    · have earlier : a ∈ rest := by simpa [same] using mem
      simpa [same] using ih earlier

theorem clearAll_of_notMem (ls : Links α) (outside : a ∉ nodes) :
    (ls.clearAll nodes).prev a = ls.prev a ∧ (ls.clearAll nodes).next a = ls.next a := by
  induction nodes generalizing ls with
  | nil => exact ⟨rfl, rfl⟩
  | cons b rest ih =>
    rw [mem_cons, not_or] at outside
    have first : ls.clearAll (b :: rest) = (ls.clear b).clearAll rest := rfl
    have step := ih (ls.clear b) outside.2
    simpa [first, outside.1] using step

theorem Connected.join (first : Connected ls (before ++ [a])) (second : Connected ls (b :: after))
    (nodup : (before ++ a :: b :: after).Nodup) : Connected (ls.connect a b) (before ++ a :: b :: after) := by
  have split : before ++ a :: b :: after = (before ++ [a]) ++ b :: after := by simp
  rw [split] at nodup ⊢
  obtain ⟨-, -, apart⟩ := nodup_append.mp nodup
  have firstNodup := (nodup_append.mp nodup).1
  have secondNodup := (nodup_append.mp nodup).2.1
  refine isChain_append.mpr ⟨?_, ?_, ?_⟩
  · refine Connected.congr first (fun x mem => ?_) (fun x mem => ?_)
    · rw [dropLast_concat] at mem
      refine update_of_ne ?_ _ _
      rintro rfl
      exact (nodup_append.mp firstNodup).2.2 x mem x (by simp) rfl
    · refine update_of_ne ?_ _ _
      rintro rfl
      exact apart x (mem_of_mem_tail mem) x mem_cons_self rfl
  · refine Connected.congr second (fun x mem => ?_) (fun x mem => ?_)
    · refine update_of_ne ?_ _ _
      rintro rfl
      exact apart x (by simp) x (dropLast_subset _ mem) rfl
    · refine update_of_ne ?_ _ _
      rintro rfl
      exact (nodup_cons.mp secondNodup).1 mem
  · intro x last y head
    simp only [getLast?_append, getLast?_singleton, Option.some_or, Option.mem_def, Option.some.injEq] at last
    simp only [head?_cons, Option.mem_def, Option.some.injEq] at head
    subst last head
    simp [Links.connect]

end Linked
