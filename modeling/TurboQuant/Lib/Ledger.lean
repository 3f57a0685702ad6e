import Mathlib.Data.List.Nodup

/-!
Numbers below a limit that are handed out to keys.
-/

structure Ledger (κ : Type) where
  limit : Nat
  /-- The first number that was never used. -/
  next : Nat
  free : List Nat
  owner : κ → Option Nat

namespace Ledger
open List Function Nat

variable {κ : Type} {l : Ledger κ}

/-- Every used number is either free once or owned by one key. -/
structure Exact (l : Ledger κ) : Prop where
  next_le : l.next ≤ l.limit
  free_nodup : l.free.Nodup
  free_lt : ∀ n ∈ l.free, n < l.next
  owned_lt : ∀ {k n}, l.owner k = some n → n < l.next
  owned_not_free : ∀ {k n}, l.owner k = some n → n ∉ l.free
  owner_unique : ∀ {k k' n}, l.owner k = some n → l.owner k' = some n → k = k'
  covered : ∀ {n}, n < l.next → n ∈ l.free ∨ ∃ k, l.owner k = some n

theorem exact_empty (limit : Nat) : (⟨limit, 0, [], fun _ => none⟩ : Ledger κ).Exact where
  next_le := zero_le _
  free_nodup := nodup_nil
  free_lt := nofun
  owned_lt := nofun
  owned_not_free := nofun
  owner_unique := nofun
  covered := nofun

theorem Exact.exactly_one (sound : l.Exact) (n : Nat) : (l.next ≤ n ∧ n ∉ l.free ∧ ∀ k, l.owner k ≠ some n) ∨
    (n < l.next ∧ l.free.count n = 1 ∧ ∀ k, l.owner k ≠ some n) ∨
    (n < l.next ∧ n ∉ l.free ∧ ∃ k, l.owner k = some n ∧ ∀ k', l.owner k' = some n → k' = k) := by
  rcases Nat.lt_or_ge n l.next with used | unused
  · rcases sound.covered used with free | ⟨k, owned⟩
    · refine .inr (.inl ⟨used, count_eq_one_of_mem sound.free_nodup free, fun k owned => ?_⟩)
      exact sound.owned_not_free owned free
    · exact .inr (.inr ⟨used, sound.owned_not_free owned, k, owned, fun k' owned' =>
        sound.owner_unique owned' owned⟩)
  · refine .inl ⟨unused, fun free => ?_, fun k owned => ?_⟩
    · exact absurd (sound.free_lt n free) (Nat.not_lt.mpr unused)
    · exact absurd (sound.owned_lt owned) (Nat.not_lt.mpr unused)

variable [DecidableEq κ]

def release (l : Ledger κ) (k : κ) (n : Nat) : Ledger κ :=
  { l with free := l.free ++ [n], owner := update l.owner k none }

def grant (l : Ledger κ) (k : κ) : Ledger κ :=
  if l.next < l.limit then { l with next := l.next + 1, owner := update l.owner k (some l.next) }
  else match l.free.getLast? with
    | some n => { l with free := l.free.dropLast, owner := update l.owner k (some n) }
    | none => l

variable {n : Nat} {k k' : κ}

theorem update_some {owner : κ → Option Nat} {v : Option Nat}
    (found : update owner k v k' = some n) : (k' = k ∧ v = some n) ∨ (k' ≠ k ∧ owner k' = some n) := by
  by_cases same : k' = k
  · subst same
    rw [update_self] at found
    exact .inl ⟨rfl, found⟩
  · rw [update_of_ne same] at found
    exact .inr ⟨same, found⟩

section
variable (sound : l.Exact)
include sound

theorem Exact.release (owned : l.owner k = some n) : (l.release k n).Exact where
  next_le := sound.next_le
  free_nodup := nodup_append.mpr ⟨sound.free_nodup, nodup_singleton n, by
    rintro m free m' last rfl
    rw [mem_singleton.mp last] at free
    exact sound.owned_not_free owned free⟩
  free_lt := by
    intro m mem
    rcases mem_append.mp mem with free | last
    · exact sound.free_lt m free
    · rw [mem_singleton.mp last]
      exact sound.owned_lt owned
  owned_lt := by
    intro k' m found
    rcases update_some found with ⟨-, impossible⟩ | ⟨-, before⟩
    · cases impossible
    · exact sound.owned_lt before
  owned_not_free := by
    intro k' m found
    rcases update_some found with ⟨-, impossible⟩ | ⟨ne, before⟩
    · cases impossible
    intro mem
    rcases mem_append.mp mem with free | last
    · exact sound.owned_not_free before free
    · rw [mem_singleton.mp last] at before
      exact ne (sound.owner_unique before owned)
  owner_unique := by
    intro k₁ k₂ m first second
    rcases update_some first with ⟨-, impossible⟩ | ⟨-, first⟩
    · cases impossible
    rcases update_some second with ⟨-, impossible⟩ | ⟨-, second⟩
    · cases impossible
    exact sound.owner_unique first second
  covered := by
    intro m used
    rcases sound.covered used with free | ⟨k', found⟩
    · exact .inl (mem_append_left _ free)
    · by_cases same : k' = k
      · subst same
        rw [owned] at found
        cases found
        exact .inl (mem_append_right _ (mem_singleton_self _))
      · refine .inr ⟨k', ?_⟩
        exact (update_of_ne same _ _).trans found

omit [DecidableEq κ] in
theorem Exact.extend (room : l.next < l.limit) :
    Exact { l with next := l.next + 1, free := l.free ++ [l.next] } where
  next_le := room
  free_nodup := (perm_append_singleton _ _).nodup_iff.mpr
    (nodup_cons.mpr ⟨fun free => Nat.lt_irrefl _ (sound.free_lt _ free), sound.free_nodup⟩)
  free_lt := fun m mem => by
    rcases mem_append.mp mem with free | last
    · exact lt_succ_of_lt (sound.free_lt m free)
    · exact Nat.lt_succ_of_le (Nat.le_of_eq (mem_singleton.mp last))
  owned_lt := fun owned => lt_succ_of_lt (sound.owned_lt owned)
  owned_not_free := fun owned mem => by
    rcases mem_append.mp mem with free | last
    · exact sound.owned_not_free owned free
    · exact Nat.ne_of_lt (sound.owned_lt owned) (mem_singleton.mp last)
  owner_unique := sound.owner_unique
  covered := fun used => by
    rcases Nat.lt_succ_iff_lt_or_eq.mp used with before | rfl
    · exact (sound.covered before).imp_left (mem_append_left _)
    · exact .inl (mem_append_right _ (mem_singleton_self _))

theorem Exact.grantFree (unowned : l.owner k = none) (last : l.free.getLast? = some n) :
    Exact { l with free := l.free.dropLast, owner := update l.owner k (some n) } := by
  have whole : l.free.dropLast ++ [n] = l.free := dropLast_append_getLast? n last
  have wasFree : n ∈ l.free := mem_of_getLast? last
  have nodup := sound.free_nodup
  rw [← whole, nodup_append] at nodup
  have still : ∀ m ∈ l.free.dropLast, m ∈ l.free ∧ m ≠ n := fun m mem =>
    ⟨dropLast_subset _ mem, nodup.2.2 m mem n (mem_singleton_self n)⟩
  refine ⟨sound.next_le, nodup.1, fun m mem => sound.free_lt m (still m mem).1, ?_, ?_, ?_, ?_⟩
  · intro k' m found
    rcases update_some found with ⟨-, same⟩ | ⟨-, before⟩
    · cases same
      exact sound.free_lt n wasFree
    · exact sound.owned_lt before
  · intro k' m found mem
    rcases update_some found with ⟨-, same⟩ | ⟨-, before⟩
    · cases same
      exact (still _ mem).2 rfl
    · exact sound.owned_not_free before (still m mem).1
  · intro k₁ k₂ m first second
    rcases update_some first with ⟨rfl, same⟩ | ⟨-, before⟩ <;> rcases update_some second with ⟨rfl,
      same'⟩ | ⟨-, before'⟩
    · rfl
    · cases same
      exact absurd wasFree (sound.owned_not_free before')
    · cases same'
      exact absurd wasFree (sound.owned_not_free before)
    · exact sound.owner_unique before before'
  · intro m used
    rcases sound.covered used with free | ⟨k', found⟩
    · rw [← whole] at free
      rcases mem_append.mp free with other | here
      · exact .inl other
      · rw [mem_singleton.mp here]
        exact .inr ⟨k, update_self ..⟩
    · refine .inr ⟨k', (update_of_ne ?_ _ _).trans found⟩
      rintro rfl
      rw [unowned] at found
      cases found

theorem Exact.grant (unowned : l.owner k = none) : (l.grant k).Exact := by
  unfold Ledger.grant
  split
  next room =>
    have taken := (sound.extend room).grantFree unowned getLast?_concat
    simpa only [dropLast_concat] using taken
  · split
    next n last => exact sound.grantFree unowned last
    · exact sound

end

theorem owner_grant_ne (ne : k' ≠ k) : (l.grant k).owner k' = l.owner k' := by
  unfold grant
  split
  · exact update_of_ne ne _ _
  · split
    · exact update_of_ne ne _ _
    · rfl

theorem Exact.grantAll {ks : List κ} (sound : l.Exact) (unowned : ∀ k ∈ ks, l.owner k = none)
    (nodup : ks.Nodup) : (ks.foldl Ledger.grant l).Exact := by
  induction ks generalizing l with
  | nil => exact sound
  | cons k rest ih =>
    rw [nodup_cons] at nodup
    refine ih (sound.grant (unowned k mem_cons_self)) ?_ nodup.2
    intro k' later
    rw [owner_grant_ne (ne_of_mem_of_not_mem later nodup.1)]
    exact unowned k' (mem_cons_of_mem _ later)

theorem Exact.releaseAll {es : List (κ × Nat)} (sound : l.Exact) (owned : ∀ e ∈ es, l.owner e.1 = some e.2)
    (nodup : (es.map Prod.fst).Nodup) : (es.foldl (fun l e => l.release e.1 e.2) l).Exact := by
  induction es generalizing l with
  | nil => exact sound
  | cons e rest ih =>
    rw [map_cons, nodup_cons] at nodup
    refine ih (sound.release (owned e mem_cons_self)) ?_ nodup.2
    intro other later
    have ne : other.1 ≠ e.1 := fun same => nodup.1 (same ▸ mem_map_of_mem later)
    exact (update_of_ne ne _ _).trans (owned other (mem_cons_of_mem _ later))

theorem releaseAll_eq (l : Ledger κ) (es : List (κ × Nat)) :
    es.foldl (fun l e => l.release e.1 e.2) l = { l with
        free := l.free ++ es.map Prod.snd
        owner := fun k => if k ∈ es.map Prod.fst then none else l.owner k } := by
  induction es generalizing l with
  | nil => simp
  | cons e rest ih =>
    rw [foldl_cons, ih]
    have freed : (l.free ++ [e.2]) ++ rest.map Prod.snd = l.free ++ (e :: rest).map Prod.snd := by simp
    have owners : (fun k => if k ∈ rest.map Prod.fst then none else update l.owner e.1 none k) =
        fun k => if k ∈ (e :: rest).map Prod.fst then none else l.owner k := by
      funext k
      rw [map_cons, update_apply]
      simp only [mem_cons]
      grind
    simp only [release, freed, owners]

def handedOut (l : Ledger κ) (n : Nat) : List Nat :=
  range' l.next (min n (l.limit - l.next)) ++ l.free.reverse.take (n - min n (l.limit - l.next))

theorem grantAll_eq (l : Ledger κ) (ks : List κ)
    (enough : ks.length - min ks.length (l.limit - l.next) ≤ l.free.length) : ks.foldl grant l =
      { limit := l.limit
        next := l.next + min ks.length (l.limit - l.next)
        free := l.free.take (l.free.length - (ks.length - min ks.length (l.limit - l.next)))
        owner := (ks.zip (l.handedOut ks.length)).foldl (fun owner e => update owner e.1 (some e.2))
          l.owner } := by
  induction ks generalizing l with
  | nil => simp
  | cons k rest ih =>
    rw [foldl_cons]
    by_cases room : l.next < l.limit
    · have fresh : min (rest.length + 1) (l.limit - l.next) = min rest.length (l.limit - (l.next + 1)) + 1 := by omega
      have reused : rest.length + 1 - (min rest.length (l.limit - (l.next + 1)) + 1) =
          rest.length - min rest.length (l.limit - (l.next + 1)) := by omega
      have granted : l.grant k = { l with next := l.next + 1, owner := update l.owner k (some l.next) } := if_pos room
      rw [length_cons, fresh, reused] at enough
      rw [granted, ih _ enough]
      simp only [length_cons, fresh, reused, handedOut, range'_succ, cons_append, zip_cons_cons,
        foldl_cons, Nat.add_assoc, Nat.add_comm 1]
    · have full : l.limit - l.next = 0 := by omega
      rw [length_cons, full, Nat.min_zero, Nat.sub_zero] at enough
      obtain ⟨init, n, parts⟩ := eq_nil_or_concat' l.free |>.resolve_left fun empty => by
        rw [empty] at enough
        cases enough
      have granted : l.grant k = { l with free := init, owner := update l.owner k (some n) } := by
        unfold grant
        rw [if_neg room, parts, getLast?_concat, dropLast_concat]
      rw [parts, length_append, length_singleton] at enough
      rw [granted, ih _ (by simp only [full]; omega)]
      have shorter : (init ++ [n]).take (init.length - rest.length) = init.take (init.length - rest.length) :=
        take_append_of_le_length (Nat.sub_le _ _)
      simp [handedOut, full, parts, shorter]

end Ledger
