import Mathlib.Data.List.AList
import Mathlib.Logic.Function.Iterate

/-!
Ordered dictionaries. The entries are kept newest first, so iteration in insertion order is over the
reversed entries.
-/

abbrev OrderedDict (κ ν : Type) := AList fun _ : κ => ν

namespace OrderedDict
open List

variable {κ ν : Type}

section
variable (d : OrderedDict κ ν)

def items : List (κ × ν) := d.entries.reverse.map fun entry => (entry.1, entry.2)

def size : Nat := d.entries.length

def popOldest : OrderedDict κ ν := ⟨d.entries.dropLast, d.nodupKeys.sublist (dropLast_sublist _)⟩

end

section
variable (d : OrderedDict κ ν)

theorem keys_items : d.items.map Prod.fst = d.keys.reverse := by
  simp only [items, map_map, ← map_reverse, AList.keys, keys]
  rfl

theorem items_nodup : (d.items.map Prod.fst).Nodup := by
  rw [keys_items, nodup_reverse]
  exact d.keys_nodup

theorem length_items : d.items.length = d.size := by
  simp [items, size]

end

variable {k : κ} {d : OrderedDict κ ν}

theorem mem_of_mem_iterate_popOldest {n : Nat} (mem : k ∈ popOldest^[n] d) : k ∈ d := by
  induction n generalizing d with
  | zero => exact mem
  | succ n ih => exact ((dropLast_sublist _).map Sigma.fst).subset (ih mem)

theorem size_iterate_popOldest (n : Nat) (d : OrderedDict κ ν) : (popOldest^[n] d).size = d.size - n := by
  induction n generalizing d with
  | zero => rfl
  | succ n ih =>
    rw [Function.iterate_succ_apply, ih, size, popOldest, length_dropLast, size]
    omega

variable [DecidableEq κ]

/-- A new key becomes the newest entry, the entry of a known key keeps its place. -/
def assign (k : κ) (v : ν) (d : OrderedDict κ ν) : OrderedDict κ ν := if k ∈ d then d.replace k v
  else d.insert k v

def moveToEnd (k : κ) (d : OrderedDict κ ν) : OrderedDict κ ν :=
  match d.lookup k with
  | some v => d.insert k v
  | none => d

def modify (k : κ) (f : ν → ν) (d : OrderedDict κ ν) : OrderedDict κ ν :=
  match d.lookup k with
  | some v => d.replace k (f v)
  | none => d

theorem mem_items {v : ν} : (k, v) ∈ d.items ↔ d.lookup k = some v := by
  rw [← Option.mem_def, AList.mem_lookup_iff, items, mem_map]
  constructor
  · rintro ⟨⟨k', v'⟩, mem, same⟩
    cases same
    exact mem_reverse.mp mem
  · exact fun mem => ⟨⟨k, v⟩, mem_reverse.mpr mem, rfl⟩

theorem mem_iff_lookup : k ∈ d ↔ ∃ v, d.lookup k = some v := by
  rw [← AList.lookup_isSome, Option.isSome_iff_exists]

section
variable (k k' : κ)

theorem dlookup_kreplace (v : ν) (es : List (Sigma fun _ : κ => ν)) : (es.kreplace k v).dlookup k' =
      if k' = k then (es.dlookup k').map fun _ => v else es.dlookup k' := by
  induction es with
  | nil => simp [kreplace]
  | cons e rest ih =>
    obtain ⟨k₀, v₀⟩ := e
    by_cases here : k = k₀
    · subst here
      have first : kreplace k v (⟨k, v₀⟩ :: rest) = ⟨k, v⟩ :: rest := by
        simp [kreplace, lookmap_cons_some]
      rw [first]
      split
      next same => rw [same, dlookup_cons_eq, dlookup_cons_eq, Option.map_some]
      next other => rw [dlookup_cons_ne _ _ other, dlookup_cons_ne _ _ other]
    · have later : kreplace k v (⟨k₀, v₀⟩ :: rest) = ⟨k₀, v₀⟩ :: kreplace k v rest := by
        simp [kreplace, lookmap_cons_none, here]
      rw [later]
      by_cases same : k' = k₀
      · subst same
        rw [dlookup_cons_eq, dlookup_cons_eq, if_neg (Ne.symm here)]
      · rw [dlookup_cons_ne _ _ same, dlookup_cons_ne _ _ same, ih]

section
variable (v : ν) (d : OrderedDict κ ν)

theorem lookup_replace : (d.replace k v).lookup k' = if k' = k then (d.lookup k').map fun _ => v
  else d.lookup k' :=
  dlookup_kreplace k k' v d.entries

theorem lookup_insert : (AList.insert k v d).lookup k' = if k' = k then some v else d.lookup k' := by
  split
  next same => rw [same, AList.lookup_insert]
  next other => exact AList.lookup_insert_ne other

@[simp] theorem lookup_assign : (d.assign k v).lookup k' = if k' = k then some v else d.lookup k' := by
  unfold assign
  split
  next known =>
    obtain ⟨old, found⟩ := mem_iff_lookup.mp known
    rw [lookup_replace]
    split
    next same => rw [same, found, Option.map_some]
    · rfl
  · exact lookup_insert k k' v d

end

@[simp] theorem lookup_moveToEnd (d : OrderedDict κ ν) : (d.moveToEnd k).lookup k' = d.lookup k' := by
  unfold moveToEnd
  split
  next v found =>
    rw [lookup_insert]
    split
    next same => rw [same, found]
    · rfl
  · rfl

@[simp] theorem lookup_modify (f : ν → ν) (d : OrderedDict κ ν) :
    (d.modify k f).lookup k' = if k' = k then (d.lookup k').map f else d.lookup k' := by
  unfold modify
  split
  next v found =>
    rw [lookup_replace]
    split
    next same => rw [same, found, Option.map_some, Option.map_some]
    · rfl
  next absent =>
    split
    next same => rw [same, absent, Option.map_none]
    · rfl

@[simp] theorem lookup_erase (d : OrderedDict κ ν) : (d.erase k).lookup k' = if k' = k then none
  else d.lookup k' := by
  split
  next same => rw [same, AList.lookup_erase]
  next other => exact AList.lookup_erase_ne other

end

theorem lookup_foldl_erase {α : Type} (key : α → κ) (removed : List α) (d : OrderedDict κ ν) (k : κ) :
    (removed.foldl (fun d x => d.erase (key x)) d).lookup k = if k ∈ removed.map key then none
      else d.lookup k := by
  induction removed generalizing d with
  | nil => simp
  | cons x rest ih =>
    rw [foldl_cons, ih, lookup_erase]
    by_cases here : k = key x <;> simp [here]

theorem mem_assign {k' : κ} {v : ν} : k' ∈ d.assign k v ↔ k' = k ∨ k' ∈ d := by
  rw [mem_iff_lookup, mem_iff_lookup, lookup_assign]
  split <;> simp_all

theorem mem_moveToEnd {k' : κ} : k' ∈ d.moveToEnd k ↔ k' ∈ d := by
  rw [mem_iff_lookup, mem_iff_lookup, lookup_moveToEnd]

theorem mem_modify {k' : κ} {f : ν → ν} : k' ∈ d.modify k f ↔ k' ∈ d := by
  rw [mem_iff_lookup, mem_iff_lookup, lookup_modify]
  split <;> simp

theorem size_moveToEnd (k : κ) (d : OrderedDict κ ν) : (d.moveToEnd k).size = d.size := by
  have same : (d.moveToEnd k).keys.Perm d.keys :=
    (perm_ext_iff_of_nodup (AList.keys_nodup _) (AList.keys_nodup _)).mpr fun _ => mem_moveToEnd
  have length := same.length_eq
  simp only [AList.keys, keys, length_map] at length
  exact length

theorem size_erase_le (k : κ) (d : OrderedDict κ ν) : size (d.erase k) ≤ d.size :=
  (kerase_sublist k d.entries).length_le

section
variable {e : κ × ν} {es : List (κ × ν)} (distinct : (es.map Prod.fst).Nodup) (mem : e ∈ es)
include distinct mem

theorem filter_fst_eq : es.filter (·.1 = e.1) = [e] := by
  have one : (es.filter (·.1 = e.1)).length = 1 := by
    rw [← countP_eq_length_filter, ← count_eq_one_of_mem distinct (mem_map_of_mem mem), count, countP_map]
    exact countP_congr fun _ _ => by simp
  obtain ⟨only, eq⟩ := length_eq_one_iff.mp one
  rw [eq, mem_singleton.mp (eq ▸ mem_filter.mpr ⟨mem, decide_eq_true rfl⟩ : e ∈ [only])]

theorem length_filter_other : (es.filter fun other => decide (other.1 ≠ e.1)).length + 1 = es.length := by
  have split := length_eq_length_filter_add (l := es) fun other => decide (other.1 = e.1)
  rw [filter_fst_eq distinct mem] at split
  simpa [Nat.add_comm] using split.symm

end

end OrderedDict
