import TurboQuant.Ascend.CompressManager
import TurboQuant.Core.HybridHit

/-!
The prefix lookup of hybrid models on Ascend.
-/

namespace TurboQuant.Ascend
open TurboQuant.Core Outcome Narrowing HybridKVCacheCoordinator

structure AscendHybridKVCacheCoordinator extends HybridKVCacheCoordinator where
  /-- The field `compress_ratio` of the specs that have it. -/
  ratioOf : LookupSpec → Nat
  compresses : ∀ spec, 0 < ratioOf spec
  /-- Group ids are written with four bytes. -/
  fits : kvCacheGroups.length ≤ 2 ^ 32

namespace AscendHybridKVCacheCoordinator

section
variable (c : AscendHybridKVCacheCoordinator)

/-- `getattr(spec, "compress_ratio", 1)`: MLA specs have a ratio, with or without a sliding
window. -/
def compressRatio (spec : LookupSpec) : Nat :=
  match spec.kvCacheSpec with
  | .mlaAttention | .slidingWindow _ _ => c.ratioOf spec
  | _ => 1

def lcmBlockSize : Nat :=
  (splitGroups c.kvCacheGroups).foldl (fun l group =>
    l.lcm (group.spec.blockSize * c.compressRatio group.spec)) 1

section
variable (pool : BlockPool) (blockHashes : List BlockHash)

def findHit (group : AttentionGroup) (maxLength : Nat) (useEagle : Bool) :
    Except PoolError (List (List Nat)) :=
  let blockSize := group.spec.blockSize
  match group.spec.kvCacheSpec with
  | .slidingWindow slidingWindow _ =>
    pool.findSlidingWindowHit (c.indexedHashes blockHashes blockSize maxLength) maxLength
      group.groupIds slidingWindow blockSize useEagle c.lcmBlockSize
  | .chunkedLocalAttention attentionChunkSize _ =>
    pool.findChunkedLocalHit (c.indexedHashes blockHashes blockSize maxLength) maxLength
      group.groupIds attentionChunkSize blockSize useEagle c.lcmBlockSize
  | .mamba _ _ =>
    pool.findMambaHit (c.indexedHashes blockHashes blockSize maxLength) maxLength group.groupIds
      blockSize c.lcmBlockSize
  | .crossAttention => .error .cachingUnsupported
  | .mlaAttention =>
    if c.compressRatio group.spec > 1 then
      .ok (findCompressedHit pool (c.iteratedHashes blockHashes blockSize) maxLength group.groupIds blockSize
        (c.compressRatio group.spec) useEagle c.lcmBlockSize)
    else
      .ok (pool.findFullAttentionHit (c.iteratedHashes blockHashes blockSize) maxLength
        group.groupIds blockSize useEagle c.lcmBlockSize)
  | _ =>
    .ok (pool.findFullAttentionHit (c.iteratedHashes blockHashes blockSize) maxLength group.groupIds
      blockSize useEagle c.lcmBlockSize)

section
variable (maxCacheHitLength : Nat)

/-- One attention group looks up the current length. The ratio enters only the length of the new
hit. -/
def lookupGroup (current : Nat × LookupState) (entry : AttentionGroup × Nat) :
    Except PoolError (Nat × LookupState) :=
  let (currHitLength, state) := current
  let (group, idx) := entry
  let blockSize := group.spec.blockSize
  let cachedBlocks := group.groupIds.head?.bind fun groupId => (state.hitBlocksByGroup[groupId]?).join
  if group.spec.kvCacheSpec.isFullAttention ∧ cachedBlocks.isSome then .ok
    (currHitLength / blockSize * blockSize, state)
  else
    let useEagle := c.isEagle group && !state.eagleVerified.contains idx
    let maxLength := if useEagle then min (currHitLength + blockSize) maxCacheHitLength else currHitLength
    (c.findHit pool blockHashes group maxLength useEagle).map fun rows =>
      let newHitLength := rows.length * blockSize
      (rows.length * blockSize * max (c.compressRatio group.spec) 1, {
        hitBlocksByGroup := writeHit pool.nullBlock group rows state.hitBlocksByGroup
        eagleVerified :=
          if useEagle then state.eagleVerified.insert idx
          else if newHitLength < currHitLength then [] else state.eagleVerified })

def lookupRound (hitLength : Nat) (state : LookupState) : Except PoolError (Nat × LookupState) :=
  c.attentionGroups.zipIdx.foldlM (c.lookupGroup pool blockHashes maxCacheHitLength) (hitLength, state)

def findLongestCacheHit : Except PoolError (List (List Nat) × Nat) :=
  (narrow (c.lookupRound pool blockHashes maxCacheHitLength) c.isSimpleHybrid maxCacheHitLength
    ⟨List.replicate c.kvCacheGroups.length none, []⟩).map fun (hitLength, state) =>
      ((c.truncateFirst hitLength state.hitBlocksByGroup).map (·.getD []), hitLength)

/-- The hit is within the allowed length, and the blocks of every group stand for exactly so many
tokens. -/
def Exact : Prop :=
  ∃ blocks hitLength, c.findLongestCacheHit pool blockHashes maxCacheHitLength = .ok (blocks, hitLength) ∧
    hitLength ≤ maxCacheHitLength ∧ blocks.length = c.kvCacheGroups.length ∧
    ∀ (i : Nat) spec hit, c.kvCacheGroups[i]? = some spec → blocks[i]? = some hit →
      hit.length * (spec.blockSize * c.compressRatio spec) = hitLength

end

end

end

variable {c : AscendHybridKVCacheCoordinator} {pool : BlockPool} {hashes : List BlockHash} {g : AttentionGroup}
  {limit curr next idx : Nat} {s s' : LookupState}

theorem compressRatio_pos (c : AscendHybridKVCacheCoordinator) (spec : LookupSpec) :
    0 < c.compressRatio spec := by
  unfold compressRatio
  split
  · exact c.compresses spec
  · exact c.compresses spec
  · exact Nat.one_pos

section
variable (ran : c.lookupGroup pool hashes limit (curr, s) (g, idx) = .ok (next, s'))
include ran

theorem lookupGroup_cases : (g.spec.kvCacheSpec.isFullAttention = true ∧
      (∃ i ∈ g.groupIds, ∃ hit, s.hitBlocksByGroup[i]? = some (some hit)) ∧
      next = curr / g.spec.blockSize * g.spec.blockSize ∧ s' = s) ∨ ∃ useEagle rs, c.findHit pool hashes g
        (if useEagle then min (curr + g.spec.blockSize) limit else curr) useEagle = .ok rs ∧
      next = rs.length * g.spec.blockSize * c.compressRatio g.spec ∧
      s'.hitBlocksByGroup = writeHit pool.nullBlock g rs s.hitBlocksByGroup ∧
        (g.spec.kvCacheSpec.isFullAttention = true →
        (g.groupIds.head?.bind fun groupId => (s.hitBlocksByGroup[groupId]?).join) = none) := by
  unfold lookupGroup at ran
  dsimp only at ran
  split at ran
  · rename_i cached
    cases ran
    exact .inl ⟨cached.1, exists_recorded cached.2, rfl, rfl⟩
  · rename_i fresh
    obtain ⟨rs, found, result⟩ := map_ok ran
    cases result
    refine .inr ⟨_, rs, found, by rw [Nat.max_eq_left (c.compressRatio_pos _)], rfl, fun full => ?_⟩
    by_contra some
    exact fresh ⟨full, Option.isSome_iff_ne_none.mpr some⟩

theorem lookupGroup_other {i : Nat} (other : i ∉ g.groupIds) :
    s'.hitBlocksByGroup[i]? = s.hitBlocksByGroup[i]? := by
  rcases lookupGroup_cases ran with ⟨-, -, -, rfl⟩ | ⟨_, rs, -, -, written, -⟩
  · rfl
  · rw [written]
    exact writeHit_of_not_mem _ _ _ other

theorem lookupGroup_size : s'.hitBlocksByGroup.length = s.hitBlocksByGroup.length := by
  rcases lookupGroup_cases ran with ⟨-, -, -, rfl⟩ | ⟨_, rs, -, -, written, -⟩
  · rfl
  · rw [written, length_writeHit]

end

end AscendHybridKVCacheCoordinator

end TurboQuant.Ascend
