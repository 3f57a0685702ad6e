import Mathlib.Algebra.GCDMonoid.Nat
import TurboQuant.Core.CacheHit
import TurboQuant.Lib.Narrowing

/-!
The prefix lookup of hybrid models. Every attention type lowers the length of the hit or accepts it,
until all types accept.
-/

namespace TurboQuant.Core
open Narrowing List Nat

def KVCacheSpec.code : KVCacheSpec → Nat × Nat × Bool
  | .fullAttention => (0, 0, false)
  | .tqFullAttention => (1, 0, false)
  | .mlaAttention => (2, 0, false)
  | .slidingWindow window _ => (3, window, false)
  | .chunkedLocalAttention chunkSize _ => (4, chunkSize, false)
  | .mamba align numSpeculativeBlocks => (5, numSpeculativeBlocks, align)
  | .crossAttention => (6, 0, false)

theorem KVCacheSpec.code_inj (a b : KVCacheSpec) : a.code = b.code ↔ a = b := by
  constructor
  · intro same
    cases a <;> cases b <;> simp_all [code]
  · intro same
    rw [same]

instance : DecidableEq KVCacheSpec := fun a b => decidable_of_iff (a.code = b.code) (KVCacheSpec.code_inj a b)

def KVCacheSpec.isFullAttention : KVCacheSpec → Bool
  | .fullAttention | .tqFullAttention | .mlaAttention => true
  | _ => false

def KVCacheSpec.isChunkedLocal : KVCacheSpec → Bool
  | .chunkedLocalAttention _ _ => true
  | _ => false

def KVCacheSpec.isMamba : KVCacheSpec → Bool
  | .mamba _ _ => true
  | _ => false

namespace BlockPool

/-! ### Chunked local attention and Mamba -/

def chunkLoop (pool : BlockPool) (blockHashes : List BlockHash) (kvCacheGroupIds : List Nat) :
    Nat → Nat → Except PoolError (List (List Nat))
  | 0, _ => .ok []
  | rounds + 1, i =>
    match blockHashes[i]? with
    | none => .error .indexOutOfRange
    | some blockHash =>
      match pool.getCachedBlock blockHash kvCacheGroupIds with
      | none => .ok []
      | some cachedBlock => (pool.chunkLoop blockHashes kvCacheGroupIds rounds (i + 1)).map (cachedBlock :: ·)

def findChunkedLocalHit (pool : BlockPool) (blockHashes : List BlockHash) (maxLength : Nat)
    (kvCacheGroupIds : List Nat)
    (attentionChunkSize blockSize : Nat) (useEagle : Bool) (alignmentTokens : Nat) :
    Except PoolError (List (List Nat)) :=
  if useEagle then .error .eagleUnsupported
  else if blockSize ≠ alignmentTokens then .error .blockSizesDiffer
  else
    let maxNumBlocks := maxLength / blockSize
    let localAttentionStartIdx := if maxLength > 0
      then maxLength / attentionChunkSize * attentionChunkSize else 0
    let localAttentionStartBlockIdx := localAttentionStartIdx / blockSize
    -- blocks outside the window count as computed
    (pool.chunkLoop blockHashes kvCacheGroupIds (maxNumBlocks - localAttentionStartBlockIdx)
      localAttentionStartBlockIdx).map
      (replicate localAttentionStartBlockIdx (kvCacheGroupIds.map fun _ => pool.nullBlock) ++ ·)

def mambaLoop (pool : BlockPool) (blockHashes : List BlockHash) (kvCacheGroupIds : List Nat)
    (blockSize alignmentTokens : Nat) : Nat → Except PoolError (List (List Nat))
  | 0 => .ok []
  | i + 1 =>
    match blockHashes[i]? with
    | none => .error .indexOutOfRange
    | some blockHash =>
      match pool.getCachedBlock blockHash kvCacheGroupIds with
      | none => pool.mambaLoop blockHashes kvCacheGroupIds blockSize alignmentTokens i
      | some cachedBlock =>
        if blockSize ≠ alignmentTokens ∧ (i + 1) * blockSize % alignmentTokens ≠ 0 then
          pool.mambaLoop blockHashes kvCacheGroupIds blockSize alignmentTokens i
        else .ok (replicate i (kvCacheGroupIds.map fun _ => pool.nullBlock) ++ [cachedBlock])

/-- There is a state only for the last hit, and the eagle flag is not read. -/
def findMambaHit (pool : BlockPool) (blockHashes : List BlockHash) (maxLength : Nat)
    (kvCacheGroupIds : List Nat)
    (blockSize alignmentTokens : Nat) : Except PoolError (List (List Nat)) :=
  pool.mambaLoop blockHashes kvCacheGroupIds blockSize alignmentTokens (maxLength / blockSize)

end BlockPool

/-! ### Attention groups -/

structure LookupSpec where
  kvCacheSpec : KVCacheSpec
  blockSize : Nat
  positive : 0 < blockSize
  /-- The other fields of the spec: head sizes, data types, padding. They are only compared. -/
  layout : Nat

theorem LookupSpec.fields_inj (a b : LookupSpec) :
    (a.kvCacheSpec, a.blockSize, a.layout) = (b.kvCacheSpec, b.blockSize, b.layout) ↔ a = b := by
  cases a
  cases b
  simp only [Prod.mk.injEq, mk.injEq]

instance : DecidableEq LookupSpec := fun a b =>
  decidable_of_iff ((a.kvCacheSpec, a.blockSize, a.layout) = (b.kvCacheSpec, b.blockSize, b.layout))
    (LookupSpec.fields_inj a b)

structure AttentionGroup where
  spec : LookupSpec
  groupIds : List Nat

def addGroup (i : Nat) (spec : LookupSpec) : List AttentionGroup → List AttentionGroup
  | [] => [⟨spec, [i]⟩]
  | group :: rest =>
    if group.spec = spec then { group with groupIds := group.groupIds ++ [i] } :: rest
    else group :: addGroup i spec rest

def splitGroups (specs : List LookupSpec) : List AttentionGroup :=
  specs.zipIdx.foldl (fun groups (spec, i) => addGroup i spec groups) []

structure HybridKVCacheCoordinator where
  hashBlockSize : Nat
  kvCacheGroups : List LookupSpec
  eagleGroupIds : List Nat
  divisible : ∀ spec ∈ kvCacheGroups, hashBlockSize ∣ spec.blockSize
  several : 1 < (splitGroups kvCacheGroups).length

/-- The blocks of every group, once it was looked up, and the attention groups whose last block was
dropped for the current length. -/
structure LookupState where
  hitBlocksByGroup : List (Option (List Nat))
  eagleVerified : List Nat

namespace HybridKVCacheCoordinator

section
variable (c : HybridKVCacheCoordinator)

def attentionGroups : List AttentionGroup :=
  let groups := splitGroups c.kvCacheGroups
  groups.filter (·.spec.kvCacheSpec.isFullAttention) ++ groups.filter (!·.spec.kvCacheSpec.isFullAttention)

def lcmBlockSize : Nat :=
  (splitGroups c.kvCacheGroups).foldl (fun l group => l.lcm group.spec.blockSize) 1

def isEagle (group : AttentionGroup) : Bool := group.groupIds.any (· ∈ c.eagleGroupIds)

def isSimpleHybrid : Bool :=
  c.attentionGroups.length == 2 && c.attentionGroups.head?.any (·.spec.kvCacheSpec.isFullAttention)

def indexedHashes (blockHashes : List BlockHash) (blockSize maxLength : Nat) : List BlockHash :=
  if blockSize = c.hashBlockSize then blockHashes
  else
    let scaleFactor := blockSize / c.hashBlockSize
    (range (maxLength / blockSize)).map fun i =>
      ((blockHashes.drop (i * scaleFactor)).take scaleFactor).flatten

def iteratedHashes (blockHashes : List BlockHash) (blockSize : Nat) : List BlockHash :=
  if blockSize = c.hashBlockSize then blockHashes
  else BlockPool.blockHashListWithBlockSize blockHashes (blockSize / c.hashBlockSize)

def findHit (pool : BlockPool) (blockHashes : List BlockHash) (group : AttentionGroup)
    (maxLength : Nat) (useEagle : Bool) : Except PoolError (List (List Nat)) :=
  let blockSize := group.spec.blockSize
  match group.spec.kvCacheSpec with
  | .slidingWindow slidingWindow _ =>
    pool.findSlidingWindowHit (c.indexedHashes blockHashes blockSize maxLength) maxLength
      group.groupIds slidingWindow blockSize useEagle c.lcmBlockSize
  | .chunkedLocalAttention attentionChunkSize _ =>
    pool.findChunkedLocalHit (c.indexedHashes blockHashes blockSize maxLength) maxLength
      group.groupIds attentionChunkSize blockSize useEagle c.lcmBlockSize
  | .mamba _ _ =>
    pool.findMambaHit (c.indexedHashes blockHashes blockSize maxLength) maxLength group.groupIds
      blockSize c.lcmBlockSize
  | .crossAttention => .error .cachingUnsupported
  | _ =>
    .ok (pool.findFullAttentionHit (c.iteratedHashes blockHashes blockSize) maxLength group.groupIds
      blockSize useEagle c.lcmBlockSize)

end

def writeHit (nullBlock : Nat) (group : AttentionGroup) (rows : List (List Nat))
    (hitBlocksByGroup : List (Option (List Nat))) : List (Option (List Nat)) :=
  group.groupIds.zipIdx.foldl (fun blocks (groupId, g) =>
    blocks.set groupId (some (column nullBlock g rows))) hitBlocksByGroup

section
variable (c : HybridKVCacheCoordinator)

section
variable (pool : BlockPool) (blockHashes : List BlockHash)

def lookupGroup (maxCacheHitLength : Nat)
    (current : Nat × LookupState) (entry : AttentionGroup × Nat) : Except PoolError (Nat × LookupState) :=
  let (currHitLength, state) := current
  let (group, idx) := entry
  let blockSize := group.spec.blockSize
  let cachedBlocks := group.groupIds.head?.bind fun groupId => (state.hitBlocksByGroup[groupId]?).join
  if group.spec.kvCacheSpec.isFullAttention ∧ cachedBlocks.isSome then
    -- a prefix of a full-attention hit is a hit
    .ok (currHitLength / blockSize * blockSize, state)
  else
    let useEagle := c.isEagle group && !state.eagleVerified.contains idx
    -- eagle matches one more block and drops the last one
    let maxLength := if useEagle then min (currHitLength + blockSize) maxCacheHitLength else currHitLength
    (c.findHit pool blockHashes group maxLength useEagle).map fun rows =>
      let newHitLength := rows.length * blockSize
      (newHitLength, {
        hitBlocksByGroup := writeHit pool.nullBlock group rows state.hitBlocksByGroup
        eagleVerified :=
          if useEagle then state.eagleVerified.insert idx
          else if newHitLength < currHitLength then [] else state.eagleVerified })

def lookupRound (maxCacheHitLength hitLength : Nat) (state : LookupState) :
    Except PoolError (Nat × LookupState) :=
  c.attentionGroups.zipIdx.foldlM (c.lookupGroup pool blockHashes maxCacheHitLength) (hitLength, state)

end

def truncateFirst (hitLength : Nat) (hitBlocksByGroup : List (Option (List Nat))) : List (Option (List Nat)) :=
  match c.attentionGroups.head? with
  | none => hitBlocksByGroup
  | some group =>
    if group.spec.kvCacheSpec.isFullAttention then
      group.groupIds.foldl (fun blocks groupId =>
        blocks.modify groupId (·.map (·.take (hitLength / group.spec.blockSize)))) hitBlocksByGroup
    else hitBlocksByGroup

def findLongestCacheHit (pool : BlockPool) (blockHashes : List BlockHash)
    (maxCacheHitLength : Nat) : Except PoolError (List (List Nat) × Nat) :=
  (narrow (c.lookupRound pool blockHashes maxCacheHitLength) c.isSimpleHybrid maxCacheHitLength
    ⟨replicate c.kvCacheGroups.length none, []⟩).map fun (hitLength, state) =>
      ((c.truncateFirst hitLength state.hitBlocksByGroup).map (·.getD []), hitLength)

end

end HybridKVCacheCoordinator

/-! ### The length of a hit -/

theorem alignedLength_le (size al n : Nat) : alignedLength size al n ≤ n := by
  induction n with
  | zero => exact le_refl 0
  | succ n ih =>
    unfold alignedLength
    split
    · omega
    · exact le_refl _

theorem not_aligned_iff {blockSize al n : Nat} :
    (blockSize ≠ al ∧ n * blockSize % al ≠ 0) ↔ ¬ al ∣ n * blockSize := by
  constructor
  · rintro ⟨-, remainder⟩ aligned
    exact remainder (mod_eq_zero_of_dvd aligned)
  · intro unaligned
    exact ⟨fun same => unaligned (same ▸ dvd_mul_left _ _), fun none => unaligned (dvd_of_mod_eq_zero none)⟩

theorem dvd_alignedLength (blockSize al n : Nat) :
    al ∣ alignedLength blockSize al n * blockSize := by
  induction n with
  | zero => simp [alignedLength]
  | succ n ih =>
    unfold alignedLength
    split
    · exact ih
    · exact not_not.mp (mt not_aligned_iff.mpr ‹_›)

theorem le_alignedLength {size al k n : Nat} (below : k ≤ n) (aligned : al ∣ k * size) :
    k ≤ alignedLength size al n := by
  induction n with
  | zero => exact below
  | succ n ih =>
    unfold alignedLength
    split
    · rename_i uneven
      refine ih (Nat.lt_succ_iff.mp (lt_of_le_of_ne below ?_))
      rintro rfl
      exact uneven.2 (mod_eq_zero_of_dvd aligned)
    · exact below

theorem length_popUnaligned (size al : Nat) (rows : List (List Nat)) :
    (popUnaligned size al rows).length = alignedLength size al rows.length := by
  have := alignedLength_le size al rows.length
  rw [popUnaligned, length_take]
  omega

structure HitRows (maxLength blockSize alignmentTokens : Nat) (useEagle : Bool)
    (rows : List (List Nat)) : Prop where
  aligned : alignmentTokens ∣ rows.length * blockSize
  inside : rows.length ≤ maxLength / blockSize
  dropped : useEagle = true → rows = [] ∨ rows.length + 1 ≤ maxLength / blockSize

namespace BlockPool

theorem length_cachedRows_le (pool : BlockPool) (ids : List Nat) (hs : List BlockHash) :
    (pool.cachedRows ids hs).length ≤ hs.length := by
  induction hs with
  | nil => exact le_refl 0
  | cons blockHash rest ih =>
    unfold cachedRows
    split
    · exact succ_le_succ ih
    · exact zero_le _

end BlockPool

/-! ### The attention groups divide the cache groups -/

theorem map_spec_addGroup (i : Nat) (spec : LookupSpec) (gs : List AttentionGroup) :
    (addGroup i spec gs).map (·.spec) =
      if spec ∈ gs.map (·.spec) then gs.map (·.spec) else gs.map (·.spec) ++ [spec] := by
  induction gs with
  | nil => rfl
  | cons g rest ih =>
    unfold addGroup
    by_cases same : g.spec = spec
    · rw [if_pos same, if_pos (by rw [map_cons, same]; exact mem_cons_self)]
      rfl
    · have other : spec ≠ g.spec := Ne.symm same
      rw [if_neg same, map_cons, map_cons, ih]
      simp only [mem_cons, other, false_or]
      split
      · rfl
      · rfl

variable {gs : List AttentionGroup} {g : AttentionGroup} {i : Nat} {spec : LookupSpec}

theorem mem_addGroup (mem : g ∈ addGroup i spec gs) :
    g ∈ gs ∨ g = ⟨spec, [i]⟩ ∨ ∃ old ∈ gs, old.spec = spec ∧ g = ⟨spec, old.groupIds ++ [i]⟩ := by
  induction gs with
  | nil => exact .inr (.inl (mem_singleton.mp mem))
  | cons first rest ih =>
    unfold addGroup at mem
    split at mem
    · rename_i same
      rcases mem_cons.mp mem with rfl | later
      · exact .inr (.inr ⟨first, mem_cons_self, same, by rw [← same]⟩)
      · exact .inl (mem_cons_of_mem _ later)
    · rcases mem_cons.mp mem with rfl | later
      · exact .inl mem_cons_self
      · rcases ih later with old | new | ⟨old, isOld, same, grown⟩
        · exact .inl (mem_cons_of_mem _ old)
        · exact .inr (.inl new)
        · exact .inr (.inr ⟨old, mem_cons_of_mem _ isOld, same, grown⟩)

theorem addGroup_keeps (i : Nat) (spec : LookupSpec) {old : AttentionGroup}
    (mem : old ∈ gs) : ∃ g ∈ addGroup i spec gs, old.groupIds ⊆ g.groupIds := by
  induction gs with
  | nil => cases mem
  | cons first rest ih =>
    unfold addGroup
    split
    · rcases mem_cons.mp mem with rfl | later
      · exact ⟨_, mem_cons_self, subset_append_left _ _⟩
      · exact ⟨old, mem_cons_of_mem _ later, List.Subset.refl _⟩
    · rcases mem_cons.mp mem with rfl | later
      · exact ⟨old, mem_cons_self, List.Subset.refl _⟩
      · obtain ⟨g, isGroup, subset⟩ := ih later
        exact ⟨g, mem_cons_of_mem _ isGroup, subset⟩

theorem addGroup_adds (i : Nat) (spec : LookupSpec) (gs : List AttentionGroup) :
    ∃ g ∈ addGroup i spec gs, i ∈ g.groupIds := by
  induction gs with
  | nil => exact ⟨_, mem_singleton_self _, mem_singleton_self i⟩
  | cons first rest ih =>
    unfold addGroup
    split
    · exact ⟨_, mem_cons_self, mem_append_right _ (mem_singleton_self i)⟩
    · obtain ⟨g, isGroup, mem⟩ := ih
      exact ⟨g, mem_cons_of_mem _ isGroup, mem⟩

structure Divides (specs : List LookupSpec) (groups : List AttentionGroup) : Prop where
  sound : ∀ group ∈ groups, ∀ i ∈ group.groupIds, specs[i]? = some group.spec
  complete : ∀ i < specs.length, ∃ group ∈ groups, i ∈ group.groupIds
  distinct : (groups.map (·.spec)).Nodup
  nonempty : ∀ group ∈ groups, group.groupIds ≠ []
  nodup : ∀ group ∈ groups, group.groupIds.Nodup

theorem Divides.add {specs : List LookupSpec} (divides : Divides specs gs)
    (spec : LookupSpec) : Divides (specs ++ [spec]) (addGroup specs.length spec gs) := by
  have before : ∀ g ∈ gs, ∀ i ∈ g.groupIds, i < specs.length := fun g mem i isId =>
    (List.getElem_of_getElem? (divides.sound g mem i isId)).1
  have kept : ∀ g ∈ gs, ∀ i ∈ g.groupIds, (specs ++ [spec])[i]? = some g.spec := fun g mem i isId => by
    rw [getElem?_append_left (before g mem i isId)]
    exact divides.sound g mem i isId
  have here : (specs ++ [spec])[specs.length]? = some spec := getElem?_concat_length
  refine ⟨fun g mem i isId => ?_, fun i lt => ?_, ?_, fun g mem => ?_, fun g mem => ?_⟩
  · rcases mem_addGroup mem with old | rfl | ⟨old, isOld, rfl, rfl⟩
    · exact kept g old i isId
    · rwa [mem_singleton.mp isId]
    · rcases mem_append.mp isId with isId | isId
      · exact kept old isOld i isId
      · rwa [mem_singleton.mp isId]
  · by_cases last : i = specs.length
    · rw [last]
      exact addGroup_adds _ _ _
    · rw [length_append, length_singleton] at lt
      obtain ⟨old, isOld, isId⟩ := divides.complete i (by omega)
      obtain ⟨g, isGroup, subset⟩ := addGroup_keeps specs.length spec isOld
      exact ⟨g, isGroup, subset isId⟩
  · rw [map_spec_addGroup]
    split
    · exact divides.distinct
    · rename_i new
      exact nodup_append.mpr ⟨divides.distinct, nodup_singleton _, fun a mem b single same =>
        new (mem_singleton.mp single ▸ same ▸ mem)⟩
  · rcases mem_addGroup mem with old | rfl | ⟨old, isOld, rfl, rfl⟩
    · exact divides.nonempty g old
    · exact cons_ne_nil _ _
    · exact append_ne_nil_of_right_ne_nil _ (cons_ne_nil _ _)
  · rcases mem_addGroup mem with old | rfl | ⟨old, isOld, rfl, rfl⟩
    · exact divides.nodup g old
    · exact nodup_singleton _
    · exact nodup_append.mpr ⟨divides.nodup old isOld, nodup_singleton _, fun a isId b single same => by
        have := before old isOld a isId
        have := mem_singleton.mp single
        omega⟩

theorem splitGroups_divides (specs : List LookupSpec) : Divides specs (splitGroups specs) := by
  induction specs using reverseRecOn with
  | nil => constructor <;> simp [splitGroups]
  | append_singleton specs spec ih =>
    have snoc : splitGroups (specs ++ [spec]) = addGroup specs.length spec (splitGroups specs) := by
      rw [splitGroups, zipIdx_append, foldl_append, zero_add]
      rfl
    rw [snoc]
    exact ih.add spec

namespace HybridKVCacheCoordinator

variable {c : HybridKVCacheCoordinator}

section
variable (c : HybridKVCacheCoordinator)

theorem attentionGroups_perm : c.attentionGroups.Perm (splitGroups c.kvCacheGroups) :=
  filter_append_perm _ _

theorem attentionGroups_divides : Divides c.kvCacheGroups c.attentionGroups := by
  have divides := splitGroups_divides c.kvCacheGroups
  have perm := c.attentionGroups_perm
  refine ⟨fun g mem => divides.sound g (perm.mem_iff.mp mem), fun i lt => ?_, ?_,
    fun g mem => divides.nonempty g (perm.mem_iff.mp mem),
    fun g mem => divides.nodup g (perm.mem_iff.mp mem)⟩
  · obtain ⟨g, isGroup, isId⟩ := divides.complete i lt
    exact ⟨g, perm.mem_iff.mpr isGroup, isId⟩
  · exact (perm.map (·.spec)).nodup_iff.mpr divides.distinct

theorem attentionGroups_nodup : c.attentionGroups.Nodup :=
  .of_map _ c.attentionGroups_divides.distinct

end

theorem groupId_lt (mem : g ∈ c.attentionGroups) (isId : i ∈ g.groupIds) :
    i < c.kvCacheGroups.length :=
  (List.getElem_of_getElem? (c.attentionGroups_divides.sound g mem i isId)).1

theorem exists_group (isSpec : c.kvCacheGroups[i]? = some spec) :
    ∃ g ∈ c.attentionGroups, i ∈ g.groupIds ∧ spec = g.spec := by
  have divides := c.attentionGroups_divides
  obtain ⟨g, mem, isId⟩ := divides.complete i (List.getElem_of_getElem? isSpec).1
  have isGroup := divides.sound g mem i isId
  rw [isSpec] at isGroup
  exact ⟨g, mem, isId, Option.some.inj isGroup⟩

theorem eq_of_mem_groupIds {g group' : AttentionGroup} (mem : g ∈ c.attentionGroups)
    (member' : group' ∈ c.attentionGroups) (isId : i ∈ g.groupIds) (isId' : i ∈ group'.groupIds) :
    g = group' := by
  have divides := c.attentionGroups_divides
  have specs := divides.sound g mem i isId
  rw [divides.sound group' member' i isId'] at specs
  exact inj_on_of_nodup_map divides.distinct mem member' (Option.some.inj specs).symm

theorem dvd_foldl_lcm {ι : Type} (size : ι → Nat) (xs : List ι) (l : Nat) :
    l ∣ xs.foldl (fun l x => l.lcm (size x)) l ∧
      ∀ x ∈ xs, size x ∣ xs.foldl (fun l x => l.lcm (size x)) l := by
  induction xs generalizing l with
  | nil => exact ⟨dvd_refl l, nofun⟩
  | cons first rest ih =>
    obtain ⟨start, each⟩ := ih (l.lcm (size first))
    refine ⟨(dvd_lcm_left _ _).trans start, fun x mem => ?_⟩
    rcases mem_cons.mp mem with rfl | later
    · exact (dvd_lcm_right _ _).trans start
    · exact each x later

theorem blockSize_dvd_lcm (mem : g ∈ c.attentionGroups) : g.spec.blockSize ∣ c.lcmBlockSize :=
  (dvd_foldl_lcm (fun g : AttentionGroup => g.spec.blockSize) _ 1).2 g (c.attentionGroups_perm.mem_iff.mp mem)

end HybridKVCacheCoordinator

end TurboQuant.Core
