import Mathlib.Data.List.Basic

/-!
Chained digests: every entry is computed from the entry before it and from the content of its block.
-/

namespace Chain
open List Option

variable {η β : Type*}

def chain (step : Option η → β → η) : Option η → List β → List η
  | _, [] => []
  | prev, block :: rest => step prev block :: chain step (some (step prev block)) rest

section
variable (step : Option η → β → η) (prev : Option η)

theorem chain_length (bs : List β) : (chain step prev bs).length = bs.length := by
  induction bs generalizing prev with
  | nil => rfl
  | cons b rest ih => rw [chain, length_cons, length_cons, ih]

theorem chain_append (first later : List β) : chain step prev (first ++ later) =
      chain step prev first ++ chain step ((chain step prev first).getLast?.or prev) later := by
  induction first generalizing prev with
  | nil => simp [chain]
  | cons b rest ih =>
    rw [cons_append, chain, ih, chain, cons_append]
    congr 3
    cases rest with
    | nil => rfl
    | cons next rest => simp [chain, getLast?_cons]

theorem chain_getElem? {bs : List β} {k : Nat} {b : β}
    (at_ : bs[k]? = some b) : ∃ parent, (chain step prev bs)[k]? = some (step parent b) := by
  induction bs generalizing prev k with
  | nil => cases at_
  | cons first rest ih =>
    cases k with
    | zero => exact ⟨prev, by simp only [getElem?_cons_zero, some.injEq] at at_; rw [chain, at_]; rfl⟩
    | succ k => exact ih _ at_

theorem chain_take (bs : List β) (n : Nat) : chain step prev (bs.take n) = (chain step prev bs).take n := by
  induction bs generalizing prev n with
  | nil => simp [chain]
  | cons b rest ih =>
    cases n with
    | zero => rfl
    | succ n => rw [take_succ_cons, chain, chain, take_succ_cons, ih]

theorem chain_getElem?_succ (bs : List β) (k : Nat) : (chain step prev bs)[k + 1]? =
      (bs[k + 1]?).bind fun block => ((chain step prev bs)[k]?).map fun parent =>
        step (some parent) block := by
  induction bs generalizing prev k with
  | nil => rfl
  | cons block rest ih =>
    cases k with
    | zero => cases rest <;> rfl
    | succ k =>
      rw [chain, getElem?_cons_succ, ih]
      rfl

end

section
variable {step : Option η → β → η} {bs blocks' : List β} {digest : η}

/-- If a digest determines its block and the digest before it, equal digests at one place mean equal
blocks up to that place. -/
theorem take_eq_of_chain_eq (content : ∀ prev prev' block block',
    step prev block = step prev' block' → block = block')
    (parent : ∀ prev prev' block block' old old', step (some (step prev old)) block =
      step (some (step prev' old')) block' → step prev old = step prev' old')
    {prev : Option η} {k : Nat} (found : (chain step prev bs)[k]? = some digest)
    (found' : (chain step prev blocks')[k]? = some digest) : bs.take (k + 1) = blocks'.take (k + 1) := by
  induction k generalizing digest with
  | zero =>
    cases bs with
    | nil => cases found
    | cons block rest =>
      cases blocks' with
      | nil => cases found'
      | cons block' rest' =>
        have same : step prev block = step prev block' := (some.inj found).trans (some.inj found').symm
        rw [content _ _ _ _ same]
        rfl
  | succ k ih =>
    rw [chain_getElem?_succ, bind_eq_some_iff] at found found'
    obtain ⟨block, at_, found⟩ := found
    obtain ⟨block', at', found'⟩ := found'
    obtain ⟨old, before, rfl⟩ := map_eq_some_iff.mp found
    obtain ⟨old', before', same⟩ := map_eq_some_iff.mp found'
    have isDigest : ∀ (list : List β) d, (chain step prev list)[k]? = some d → ∃ p b, d = step p b := by
      intro list d here
      have lt : k < list.length := by
        rw [← chain_length step prev list]
        exact (List.getElem_of_getElem? here).1
      obtain ⟨p, eq⟩ := chain_getElem? step prev (List.getElem?_eq_getElem lt)
      exact ⟨p, _, some.inj (here.symm.trans eq)⟩
    obtain ⟨p, b, rfl⟩ := isDigest _ _ before
    obtain ⟨p', b', rfl⟩ := isDigest _ _ before'
    have earlier := ih before (parent _ _ _ _ _ _ same ▸ before')
    rw [List.take_add_one (l := bs) (i := k + 1), List.take_add_one (l := blocks') (i := k + 1),
      at_, at', earlier, content _ _ _ _ same]

theorem index_eq_of_chain_eq
    (parent : ∀ prev prev' block block' old old', step (some (step prev old)) block =
      step (some (step prev' old')) block' → step prev old = step prev' old')
    (root : ∀ prev old block block', step (some (step prev old)) block ≠ step none block')
    {k k' : Nat} (found : (chain step none bs)[k]? = some digest)
    (found' : (chain step none blocks')[k']? = some digest) : k = k' := by
  have first : ∀ (list : List β) d, (chain step none list)[0]? = some d → ∃ block, d = step none block := by
    intro list d here
    cases list with
    | nil => cases here
    | cons block rest => exact ⟨block, (some.inj here).symm⟩
  have later : ∀ (list : List β) n d, (chain step none list)[n + 1]? = some d → ∃ prev old block,
      (chain step none list)[n]? = some (step prev old) ∧ d = step (some (step prev old)) block := by
    intro list n d here
    rw [chain_getElem?_succ, bind_eq_some_iff] at here
    obtain ⟨block, -, here⟩ := here
    obtain ⟨d', before, rfl⟩ := map_eq_some_iff.mp here
    have lt : n < list.length := by
      rw [← chain_length step none list]
      exact (List.getElem_of_getElem? before).1
    obtain ⟨prev, is⟩ := chain_getElem? step none (List.getElem?_eq_getElem lt)
    rw [before, some.injEq] at is
    exact ⟨prev, _, block, is ▸ before, by rw [is]⟩
  induction k generalizing k' digest with
  | zero =>
    cases k' with
    | zero => rfl
    | succ k' =>
      obtain ⟨block, rfl⟩ := first _ _ found
      obtain ⟨prev, old, block', -, same⟩ := later _ _ _ found'
      exact absurd same.symm (root prev old block' block)
  | succ k ih =>
    obtain ⟨prev, old, block, before, rfl⟩ := later _ _ _ found
    cases k' with
    | zero =>
      obtain ⟨block', same⟩ := first _ _ found'
      exact absurd same (root prev old block block')
    | succ k' =>
      obtain ⟨prev', old', block', before', same⟩ := later _ _ _ found'
      rw [parent _ _ _ _ _ _ same] at before
      rw [ih before before']

end

theorem flatten_inj {α : Type*} {digests digests' : List (List α)}
    (free : ∀ a ∈ digests, ∀ b ∈ digests', a <+: b ∨ b <+: a → a = b)
    (length : digests.length = digests'.length)
    (same : digests.flatten = digests'.flatten) : digests = digests' := by
  induction digests generalizing digests' with
  | nil => exact (length_eq_zero_iff.mp length.symm).symm
  | cons a rest ih =>
    cases digests' with
    | nil => cases length
    | cons b rest' =>
      rw [flatten_cons, flatten_cons] at same
      have equal : a = b := by
        apply free a mem_cons_self b mem_cons_self
        exact prefix_or_prefix_of_prefix (prefix_append a rest.flatten) (same ▸ prefix_append b rest'.flatten)
      subst equal
      rw [ih (fun c member d member' => free c (mem_cons_of_mem _ member) d (mem_cons_of_mem _ member'))
        (Nat.succ.inj length) (append_cancel_left same)]

end Chain
