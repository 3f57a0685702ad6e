import Mathlib.Data.List.Chain
import TurboQuant.Lib.Outcome

/-!
The block-aligned split of Mamba prefills.
-/

namespace TurboQuant.Core
open Outcome List

structure SplitConfig where
  blockSize : Nat
  positive : 0 < blockSize
  useEagle : Bool

structure TokenCounts where
  numPromptTokens : Nat
  numTokens : Nat
  numComputedTokens : Nat

inductive SplitError where
  | externalTokens
  deriving DecidableEq, Repr

def TokenCounts.inPrefill (r : TokenCounts) (numComputedTokens : Nat) : Prop :=
  numComputedTokens < max r.numPromptTokens (r.numTokens - 1)

instance (r : TokenCounts) (n : Nat) : Decidable (r.inPrefill n) := inferInstanceAs (Decidable (_ < _))

namespace SplitConfig
variable (c : SplitConfig) (r : TokenCounts)

def lastCachePosition : Nat :=
  let last := r.numTokens - r.numTokens % c.blockSize
  if c.useEagle then last - c.blockSize else last

def mambaBlockAlignedSplit (numNewTokens numNewLocalComputedTokens
    numExternalComputedTokens : Nat) : Except SplitError Nat :=
  if numExternalComputedTokens ≠ 0 then .error .externalTokens
  else
    let numComputedTokens := r.numComputedTokens + numNewLocalComputedTokens + numExternalComputedTokens
    .ok (if r.inPrefill numComputedTokens then
      if numComputedTokens + numNewTokens < c.lastCachePosition r then numNewTokens / c.blockSize * c.blockSize
      else if numComputedTokens < c.lastCachePosition r ∧
          c.lastCachePosition r < numComputedTokens + numNewTokens then
        c.lastCachePosition r - numComputedTokens
      else numNewTokens
    else numNewTokens)

/-- Where the chunks of a prefill end. Each step of `schedule` comes with the tokens that budget,
threshold and encoder inputs leave; one that gets no token in this step is in the list with its old
position. -/
def chunkEnds : Nat → List Nat → Except SplitError (List Nat)
  | _, [] => .ok []
  | numComputedTokens, unsplit :: rest =>
    if r.inPrefill numComputedTokens then do
      let numNewTokens ← c.mambaBlockAlignedSplit { r with numComputedTokens } unsplit 0 0
      let later ← chunkEnds (numComputedTokens + numNewTokens) rest
      return (numComputedTokens + numNewTokens) :: later
    else .ok []

variable {c r} {start n : Nat}

theorem split_cases {hits external m : Nat} (same : r.numComputedTokens + hits = start)
    (ran : c.mambaBlockAlignedSplit r n hits external = .ok m) :
    external = 0 ∧ (start + n < c.lastCachePosition r ∧ m = n / c.blockSize * c.blockSize ∨
      r.inPrefill start ∧ start < c.lastCachePosition r ∧ start + m = c.lastCachePosition r ∧ m ≤ n ∨
      m = n ∧ (r.inPrefill start → start < c.lastCachePosition r → start + n = c.lastCachePosition r)) := by
  unfold mambaBlockAlignedSplit at ran
  split at ran
  · cases ran
  rename_i none
  refine ⟨not_not.mp none, ?_⟩
  rw [not_not.mp none, Nat.add_zero, same] at ran
  dsimp only at ran
  split at ran
  · rename_i prefilling
    split at ran
    · rename_i short
      exact .inl ⟨short, (Except.ok.inj ran).symm⟩
    rename_i long
    split at ran
    · rename_i across
      cases ran
      exact .inr (.inl ⟨prefilling, across.1, Nat.add_sub_of_le across.1.le, by omega⟩)
    · rename_i notAcross
      cases ran
      exact .inr (.inr ⟨rfl, fun _ before => le_antisymm (not_lt.mp (not_and.mp notAcross before))
        (not_lt.mp long)⟩)
  · rename_i decoding
    exact .inr (.inr ⟨(Except.ok.inj ran).symm, fun prefilling => absurd prefilling decoding⟩)

section
variable (r : TokenCounts)

theorem dvd_lastCachePosition : c.blockSize ∣ c.lastCachePosition r := by
  have whole : c.blockSize ∣ r.numTokens - r.numTokens % c.blockSize := Nat.dvd_sub_mod _
  unfold lastCachePosition
  split
  · exact Nat.dvd_sub whole (Nat.dvd_refl _)
  · exact whole

theorem lastCachePosition_le : c.lastCachePosition r ≤ r.numTokens := by
  unfold lastCachePosition
  dsimp only
  split <;> omega

/-- A chunk that starts before the last cacheable position ends on a block boundary, and not behind
it. -/
def EndsAligned (start next : Nat) : Prop :=
  start < c.lastCachePosition r → c.blockSize ∣ next ∧ next ≤ c.lastCachePosition r

end

theorem split_aligned (boundary : start < c.lastCachePosition r → c.blockSize ∣ start)
    (prefilling : r.inPrefill start) {m : Nat}
    (ran : c.mambaBlockAlignedSplit { r with numComputedTokens := start } n 0 0 = .ok m) :
    c.EndsAligned r start (start + m) := by
  intro before
  rcases (split_cases (Nat.add_zero start) ran).2 with ⟨short, eq⟩ | ⟨-, -, eq, -⟩ | ⟨eq, reached⟩
  · rw [eq]
    exact ⟨Nat.dvd_add (boundary before) (Nat.dvd_mul_left _ _),
      (Nat.add_le_add_left (Nat.div_mul_le_self n c.blockSize) start).trans short.le⟩
  · exact eq.symm ▸ ⟨c.dvd_lastCachePosition r, le_refl _⟩
  · rw [eq]
    exact (reached prefilling before).symm ▸ ⟨c.dvd_lastCachePosition r, le_refl _⟩

theorem split_pos (many : c.blockSize ≤ n) {m : Nat}
    (ran : c.mambaBlockAlignedSplit { r with numComputedTokens := start } n 0 0 = .ok m) : 0 < m := by
  have size := c.positive
  rcases (split_cases (Nat.add_zero start) ran).2 with ⟨-, eq⟩ | ⟨-, before, eq, -⟩ | ⟨eq, -⟩
  · rw [eq]
    exact Nat.mul_pos (Nat.div_pos many size) size
  · omega
  · omega

theorem chunkEnds_spec (unsplit : List Nat) (boundary : start < c.lastCachePosition r → c.blockSize ∣ start) :
    ∃ ends, c.chunkEnds r start unsplit = .ok ends ∧ IsChain (c.EndsAligned r) (start :: ends) ∧
      (start ≤ c.lastCachePosition r → c.lastCachePosition r ∈ start :: ends ∨
        ∀ pos ∈ start :: ends, pos < c.lastCachePosition r) := by
  have stop : ∀ start ≤ c.lastCachePosition r, c.lastCachePosition r ∈ [start] ∨
      ∀ pos ∈ [start], pos < c.lastCachePosition r := fun start inside => by
    simp only [mem_singleton, forall_eq]
    omega
  induction unsplit generalizing start with
  | nil => exact ⟨[], rfl, .singleton _, stop start⟩
  | cons n rest ih =>
    unfold chunkEnds
    split
    · rename_i prefilling
      obtain ⟨m, ran⟩ : ∃ m,
        c.mambaBlockAlignedSplit { r with numComputedTokens := start } n 0 0 = .ok m := ⟨_, rfl⟩
      have first := split_aligned boundary prefilling ran
      obtain ⟨ends, ranRest, chain, reached⟩ := @ih (start + m) fun before => (first (by omega)).1
      refine ⟨_, by rw [ran, ok_bind, ranRest]; rfl, chain.cons_cons first, fun inside => ?_⟩
      rcases inside.lt_or_eq with before | same
      · refine (reached (first before).2).imp (mem_cons_of_mem _) fun earlier pos mem => ?_
        rcases mem_cons.mp mem with rfl | mem
        · exact before
        · exact earlier pos mem
      · exact .inl (mem_cons.mpr (.inl same.symm))
    · exact ⟨[], rfl, .singleton _, stop start⟩

/-- Every prefill that starts after hits of whole blocks. -/
theorem prefill_chunks_aligned (c : SplitConfig) (r : TokenCounts) (numHitTokens : Nat)
    (whole : c.blockSize ∣ numHitTokens) (unsplit : List Nat) :
    (∃ ends, c.chunkEnds r numHitTokens unsplit = .ok ends ∧ IsChain (c.EndsAligned r) (numHitTokens :: ends) ∧
      (numHitTokens ≤ c.lastCachePosition r → c.lastCachePosition r ∈ numHitTokens :: ends ∨
        ∀ position ∈ numHitTokens :: ends, position < c.lastCachePosition r)) ∧ ∀ start n, c.blockSize ≤ n →
      ∃ m, c.mambaBlockAlignedSplit { r with numComputedTokens := start } n 0 0 = .ok m ∧ 0 < m := by
  exact ⟨chunkEnds_spec unsplit fun _ => whole, fun start n many => ⟨_, rfl, split_pos many rfl⟩⟩

theorem prefill_chunks_eagle : chunkEnds ⟨4, by decide, true⟩ ⟨14, 14, 0⟩ 0 [5, 3, 7, 6] = .ok [4, 4, 8, 14] ∧
    8 ∈ [0, 4, 4, 8, 14] := by
  have evaluated : chunkEnds ⟨4, by decide, true⟩ ⟨14, 14, 0⟩ 0 [5, 3, 7, 6] = .ok [4, 4, 8, 14] := rfl
  obtain ⟨⟨ends, ran, -, reached⟩, -⟩ := prefill_chunks_aligned ⟨4, by decide, true⟩ ⟨14, 14, 0⟩ 0
    (by decide) [5, 3, 7, 6]
  cases evaluated.symm.trans ran
  exact ⟨ran, (reached (by decide)).resolve_right fun earlier => absurd (earlier 14 (by decide)) (by decide)⟩

/-- Where the hits reach up to the last cacheable position, no chunk ends there. -/
theorem prefill_chunks_hit : lastCachePosition ⟨4, by decide, false⟩ ⟨9, 9, 0⟩ = 8 ∧
    chunkEnds ⟨4, by decide, false⟩ ⟨9, 9, 0⟩ 8 [1] = .ok [9] := ⟨rfl, rfl⟩

end SplitConfig

end TurboQuant.Core
