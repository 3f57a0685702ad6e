import Mathlib.Data.Countable.Basic
import Mathlib.Logic.Equiv.List
import TurboQuant.Core.CacheHit
import TurboQuant.Core.HashAgreement

/-!
Prefix-cache isolation: what two requests have in common when a block of both has the same hash.
-/

namespace TurboQuant.Core
open Chain Segments List Nat Hasher

/-- A hash function without collisions. The hasher takes an empty digest for no digest at all. -/
structure Hasher.CollisionFree (hasher : Hasher) : Prop where
  injective : Function.Injective hasher.cachingHashFn
  nonempty : ∀ input, hasher.cachingHashFn input ≠ []

/-- A request and the batches of output tokens that have been appended to it. -/
structure Served where
  request : Request
  outputs : List (List Nat)

namespace Served

def final (s : Served) : Request := finalRequest s.request s.outputs

def blockHashes (s : Served) (hasher : Hasher) : List BlockHash :=
  (hasher.incremental s.request s.outputs).blockHashes

/-- The features that can contribute to block `k`: in the first call those up to the first one that
is open at the end of the block, unless the last one has ended; in later calls the last one. -/
def seenFeatures (s : Served) (blockSize k : Nat) : List MmFeature :=
  if k < firstHashed blockSize s.request.numTokens s.outputs then
    if lastEndsBy s.request.mmFeatures (k * blockSize) then []
    else s.request.mmFeatures.take (firstOpen s.request.mmFeatures (k * blockSize + blockSize) + 1)
  else s.request.mmFeatures.getLast?.toList

def seenKeys (s : Served) (blockSize k : Nat) : List ExtraKey :=
  overlapKeys (s.seenFeatures blockSize k) (k * blockSize) (k * blockSize + blockSize)

def salt (s : Served) : Option String := s.request.cacheSalt.filter (· ≠ "")

end Served

/-! ### What equal hashes should mean -/

def SameInputs (blockSize k : Nat) (r r' : Request) : Prop :=
  ∀ key, key ∈ overlapKeys r.mmFeatures (k * blockSize) (k * blockSize + blockSize) ↔
    key ∈ overlapKeys r'.mmFeatures (k * blockSize) (k * blockSize + blockSize)

structure SamePrefix (blockSize i : Nat) (r r' : Request) : Prop where
  tokens : r.allTokenIds.take ((i + 1) * blockSize) = r'.allTokenIds.take ((i + 1) * blockSize)
  loraName : r.loraName = r'.loraName
  cacheSalt : r.cacheSalt = r'.cacheSalt
  inputs : ∀ k ≤ i, SameInputs blockSize k r r'

section
variable (hasher : Hasher) (s s' : Served) (i : Nat)

/-- A lookup for `s` returns at place `i` a block that carries the hash of block `i` of `s'`. -/
def PrefixHit : Prop :=
  ∃ (pool : BlockPool) (maxLength blockSize alignmentTokens g : Nat) (kvCacheGroupIds : List Nat)
    (useEagle : Bool) (row : List Nat) (hash : BlockHash),
    pool.HashInv ∧
    (pool.findFullAttentionHit (s.blockHashes hasher) maxLength kvCacheGroupIds blockSize useEagle
      alignmentTokens)[i]? = some row ∧
    row.getD g pool.nullBlock ≠ pool.nullBlock ∧ (s'.blockHashes hasher)[i]? = some hash ∧
    (pool.blocks (row.getD g pool.nullBlock)).blockHash = some
      (makeBlockHashWithGroupId hash (kvCacheGroupIds.getD g 0))

def Isolated : Prop :=
  (∀ hash, (s.blockHashes hasher)[i]? = some hash → (s'.blockHashes hasher)[i]? = some hash →
    SamePrefix hasher.blockSize i s.final s'.final) ∧
  (PrefixHit hasher s s' i → SamePrefix hasher.blockSize i s.final s'.final)

end

/-! ### What the hashes see -/

section
variable (blockSize i : Nat) (s s' : Served)

/-- Block `i` is full in both requests, and everything but the names is the same for the hasher. -/
structure LookAlike : Prop where
  full : (i + 1) * blockSize ≤ s.final.numTokens
  full' : (i + 1) * blockSize ≤ s'.final.numTokens
  tokens : s.final.allTokenIds.take ((i + 1) * blockSize) = s'.final.allTokenIds.take ((i + 1) * blockSize)
  inputs : ∀ k ≤ i, s.seenKeys blockSize k = s'.seenKeys blockSize k
  embeds : ∀ k ≤ i, promptEmbedsKeys s.final (k * blockSize) (k * blockSize + blockSize) =
    promptEmbedsKeys s'.final (k * blockSize) (k * blockSize + blockSize)

/-- The only string in the first block is a LoRA name on one side and a salt on the other. -/
def Swapped : Prop :=
  i = 0 ∧ s.seenKeys blockSize 0 = [] ∧
    ((∃ name, s.request.loraName = some name ∧ s.salt = none ∧ s'.request.loraName = none ∧
      s'.salt = some name) ∨
      ∃ name, s'.request.loraName = some name ∧ s'.salt = none ∧ s.request.loraName = none ∧
        s.salt = some name)

/-- The hasher sees the same although a LoRA name is taken for a salt, an empty salt for none, or a
feature that overlaps a block is not seen. -/
def Confusable : Prop :=
  LookAlike blockSize i s s' ∧
    (Swapped blockSize i s s' ∨
      (s.request.loraName = s'.request.loraName ∧ s.salt = s'.salt ∧
        (s.request.cacheSalt ≠ s'.request.cacheSalt ∨ ∃ k ≤ i, ¬ SameInputs blockSize k s.final s'.final)))

end

/-! ### Reading the tuple of extra keys -/

section
variable {names names' salts salts' : List String} {inputs inputs' : List (String × Int)}
  {digests digests' : List (List UInt8)}

def keyTuple (names : List String) (inputs : List (String × Int)) (salts : List String)
    (digests : List (List UInt8)) : List ExtraKey :=
  names.map .str ++ inputs.map (fun input => .mm input.1 input.2) ++ salts.map .str ++ digests.map .bytes

section
variable (names salts : List String) (inputs : List (String × Int)) (digests : List (List UInt8))

theorem keyTuple_inputs : (keyTuple names inputs salts digests).filterMap (fun key => match key with
      | .mm identifier relativeOffset => some (identifier, relativeOffset)
      | _ => none) = inputs := by
  simp [keyTuple, filterMap_append, filterMap_map]

theorem keyTuple_digests : (keyTuple names inputs salts digests).filterMap (fun key => match key with
      | .bytes digest => some digest
      | _ => none) = digests := by
  simp [keyTuple, filterMap_append, filterMap_map]

theorem keyTuple_names : (keyTuple names inputs salts digests).filterMap (fun key => match key with
      | .str name => some name
      | _ => none) = names ++ salts := by
  simp [keyTuple, filterMap_append, filterMap_map]

end

theorem keyTuple_eq_iff : keyTuple names inputs salts digests = keyTuple names' inputs' salts' digests' ↔
      inputs = inputs' ∧ digests = digests' ∧
        ((inputs = [] ∧ names ++ salts = names' ++ salts') ∨ (names = names' ∧ salts = salts')) := by
  constructor
  · intro same
    have sameInputs : inputs = inputs' := by
      rw [← keyTuple_inputs names salts inputs digests, same, keyTuple_inputs]
    have sameDigests : digests = digests' := by
      rw [← keyTuple_digests names salts inputs digests, same, keyTuple_digests]
    have strings : names ++ salts = names' ++ salts' := by
      rw [← keyTuple_names names salts inputs digests, same, keyTuple_names]
    refine ⟨sameInputs, sameDigests, ?_⟩
    subst sameInputs sameDigests
    cases inputs with
    | nil => exact .inl ⟨rfl, strings⟩
    | cons input rest =>
      -- the names are the strings before the first input
      have leading : ∀ (a b : List String), (keyTuple a (input :: rest) b digests).takeWhile
        (fun key => match key with
          | .str _ => true
          | _ => false) = a.map .str := by
        intro a b
        rw [keyTuple, append_assoc, append_assoc, takeWhile_append_of_pos (by simp)]
        simp
      have sameNames : names = names' := by
        have := leading names salts
        rw [same, leading] at this
        exact (map_injective_iff.mpr (fun _ _ => ExtraKey.str.inj) this).symm
      subst sameNames
      exact .inr ⟨rfl, append_cancel_left strings⟩
  · rintro ⟨rfl, rfl, ⟨rfl, strings⟩ | ⟨rfl, rfl⟩⟩
    · simp only [keyTuple, map_nil, append_nil, ← map_append, strings]
    · rfl

end

def MmFeature.place (f : MmFeature) (startTokenIdx : Nat) : String × Int :=
  (f.identifier, f.offset - startTokenIdx)

theorem overlapKeys_eq_map (features : List MmFeature) (start stop : Nat) : overlapKeys features start stop =
      ((features.filter (·.overlaps start stop)).map (·.place start)).map fun place =>
        .mm place.1 place.2 := by
  rw [overlapKeys, map_map]
  rfl

theorem wrapExtraKeys_inj {r r' : Request} {s e s' e' : Nat} {keys keys' : List ExtraKey} :
    wrapExtraKeys r s e keys = wrapExtraKeys r' s' e' keys' ↔
      r.loraName.toList.map .str ++ keys ++ saltKeys r s ++ promptEmbedsKeys r s e =
        r'.loraName.toList.map .str ++ keys' ++ saltKeys r' s' ++ promptEmbedsKeys r' s' e' := by
  unfold wrapExtraKeys
  dsimp only
  split <;> split <;> simp_all

theorem saltKeys_eq (s : Served) (start : Nat) :
    saltKeys s.final start = (if start = 0 then s.salt.toList else []).map .str := by
  unfold saltKeys Served.salt Served.final finalRequest
  split
  · cases s.request.cacheSalt with
    | none => rfl
    | some salt => by_cases empty : salt = "" <;> simp [empty, Option.filter]
  · rfl

theorem toList_injective : Function.Injective (Option.toList : Option String → List String) := by
  intro name name' same
  cases name <;> cases name' <;> simp_all

theorem toList_append_eq_iff {lora lora' salt salt' : Option String} :
    lora.toList ++ salt.toList = lora'.toList ++ salt'.toList ↔
      (lora = lora' ∧ salt = salt') ∨ (∃ name, lora = some name ∧ salt = none ∧ lora' = none ∧
        salt' = some name) ∨
        ∃ name, lora' = some name ∧ salt' = none ∧ lora = none ∧ salt = some name := by
  cases lora <;> cases salt <;> cases lora' <;> cases salt' <;> (simp; try exact eq_comm)

section
variable {size : Nat} {s s' : Served}

def SameNames (k : Nat) (s s' : Served) : Prop :=
  s.request.loraName = s'.request.loraName ∧ (k = 0 → s.salt = s'.salt)

theorem seenKeys_eq_iff (k : Nat) {places places' : List (String × Int)}
    (here : s.seenKeys size k = places.map fun place => .mm place.1 place.2)
    (here' : s'.seenKeys size k = places'.map fun place => .mm place.1 place.2) :
    s.seenKeys size k = s'.seenKeys size k ↔ places = places' := by
  have injective : Function.Injective fun place : String × Int => ExtraKey.mm place.1 place.2 := by
    intro place place' same
    simp only [ExtraKey.mm.injEq] at same
    exact Prod.ext same.1 same.2
  rw [here, here']
  exact (map_injective_iff.mpr injective).eq_iff

theorem promptEmbedsKeys_eq (r : Request) (start stop : Nat) : promptEmbedsKeys r start stop =
      (r.promptEmbeds.toList.map fun digest => digest start stop).map .bytes := by
  rw [promptEmbedsKeys, map_map]
  rfl

theorem extraKeys_eq_iff (pos : 0 < size) (k : Nat) :
    wrapExtraKeys s.final (k * size) (k * size + size) (s.seenKeys size k) =
        wrapExtraKeys s'.final (k * size) (k * size + size) (s'.seenKeys size k) ↔
      s.seenKeys size k = s'.seenKeys size k ∧ promptEmbedsKeys s.final (k * size) (k * size + size) =
        promptEmbedsKeys s'.final (k * size) (k * size + size) ∧ (SameNames k s s' ∨ Swapped size k s s') := by
  obtain ⟨places, here⟩ : ∃ places : List (String × Int), s.seenKeys size k =
      places.map fun place => .mm place.1 place.2 := ⟨_, overlapKeys_eq_map _ _ _⟩
  obtain ⟨places', here'⟩ : ∃ places : List (String × Int), s'.seenKeys size k =
      places.map fun place => .mm place.1 place.2 := ⟨_, overlapKeys_eq_map _ _ _⟩
  have bytes : Function.Injective ExtraKey.bytes := by
    intro digest digest' same
    cases same
    rfl
  have first : k * size = 0 ↔ k = 0 := by simp; omega
  have noKeys : s.seenKeys size k = [] ↔ places = [] := by rw [here, map_eq_nil_iff]
  rw [wrapExtraKeys_inj, seenKeys_eq_iff k here here', promptEmbedsKeys_eq, promptEmbedsKeys_eq,
    (map_injective_iff.mpr bytes).eq_iff, saltKeys_eq, saltKeys_eq, here, here']
  refine keyTuple_eq_iff.trans (and_congr_right fun _ => and_congr_right fun _ => ?_)
  simp only [first, SameNames, Swapped]
  by_cases zero : k = 0
  · subst zero
    rw [noKeys]
    simp only [if_true, toList_append_eq_iff, true_and, true_implies, toList_injective.eq_iff]
    constructor
    · rintro (⟨none, same | swapped⟩ | same)
      · exact .inl same
      · exact .inr ⟨none, swapped⟩
      · exact .inl same
    · rintro (same | ⟨none, swapped⟩)
      · exact .inr same
      · exact .inl ⟨none, .inr swapped⟩
  · simp only [zero, if_false, append_nil, and_true, false_and, or_false, false_implies,
      toList_injective.eq_iff]
    exact or_iff_right_of_imp And.right

end

/-! ### Equal hashes -/

section
variable {h : Hasher} {s s' : Served} {i : Nat}

def Served.blocks (s : Served) (hasher : Hasher) : List (List Nat × Option (List ExtraKey)) :=
  hasher.blocks s.final (fun start => s.seenKeys hasher.blockSize (start / hasher.blockSize)) 0
    (s.final.numTokens / hasher.blockSize)

theorem Served.mixedKeys_eq (s : Served) (h : Hasher) (k : Nat) :
    h.mixedKeys s.request.mmFeatures (firstHashed h.blockSize s.request.numTokens s.outputs)
      (k * h.blockSize) = s.seenKeys h.blockSize k := by
  unfold mixedKeys seenKeys seenFeatures
  simp only [h.mul_lt_mul_block]
  split
  · unfold walkKeys
    split
    · rfl
    · rfl
  · rfl

theorem Served.blockHashes_eq (s : Served) (h : Hasher) :
    s.blockHashes h = chain h.hashBlockTokens none (s.blocks h) := by
  rw [blockHashes, h.incremental_eq]
  congr 1
  refine h.blocks_congr fun k _ => ?_
  simp only [Nat.zero_add, block, s.mixedKeys_eq, Nat.mul_div_cancel k h.positive]
  rfl

section
variable (free : h.CollisionFree) {prev prev' : Option BlockHash}
include free

theorem Hasher.CollisionFree.hashBlockTokens_inj {block block' : List Nat × Option (List ExtraKey)}
    (same : h.hashBlockTokens prev block = h.hashBlockTokens prev' block') : block = block' := by
  have inputs := free.injective same
  simp only [Prod.mk.injEq] at inputs
  exact Prod.ext inputs.2.1 inputs.2.2

theorem Hasher.CollisionFree.parent_inj {block block' old old' : List Nat × Option (List ExtraKey)}
    (same : h.hashBlockTokens (some (h.hashBlockTokens prev old)) block =
      h.hashBlockTokens (some (h.hashBlockTokens prev' old')) block') :
    h.hashBlockTokens prev old = h.hashBlockTokens prev' old' := by
  have inputs := congrArg Prod.fst (free.injective same)
  have digest : ∀ prev block, h.hashBlockTokens prev block ≠ [] := fun _ _ => free.nonempty _
  simp only at inputs
  rwa [if_neg (digest _ _), if_neg (digest _ _)] at inputs

end

theorem blocks_take_eq_iff (full : i < s.final.numTokens / h.blockSize)
    (full' : i < s'.final.numTokens / h.blockSize) : (s.blocks h).take (i + 1) = (s'.blocks h).take (i + 1) ↔
      ∀ k ≤ i, h.block s.final (fun start => s.seenKeys h.blockSize (start / h.blockSize)) (k * h.blockSize) =
        h.block s'.final (fun start => s'.seenKeys h.blockSize (start / h.blockSize)) (k * h.blockSize) := by
  rw [Served.blocks, Served.blocks, blocks, blocks, ← map_take, ← map_take, take_range,
    take_range, Nat.min_eq_left full, Nat.min_eq_left full', map_inj_left]
  simp only [mem_range, Nat.zero_add, Nat.lt_succ_iff]

theorem hashes_eq_iff_blocks (free : h.CollisionFree) :
    (∃ hash, (s.blockHashes h)[i]? = some hash ∧ (s'.blockHashes h)[i]? = some hash) ↔
      (i < s.final.numTokens / h.blockSize ∧ i < s'.final.numTokens / h.blockSize) ∧
        (s.blocks h).take (i + 1) = (s'.blocks h).take (i + 1) := by
  have length : ∀ s : Served, (s.blockHashes h).length = s.final.numTokens / h.blockSize := by
    intro s
    rw [s.blockHashes_eq, chain_length, Served.blocks, blocks, length_map, length_range]
  constructor
  · rintro ⟨hash, found, found'⟩
    refine ⟨⟨?_, ?_⟩, ?_⟩
    · rw [← length]
      exact (List.getElem_of_getElem? found).1
    · rw [← length]
      exact (List.getElem_of_getElem? found').1
    · rw [s.blockHashes_eq] at found
      rw [s'.blockHashes_eq] at found'
      exact take_eq_of_chain_eq (fun _ _ _ _ => free.hashBlockTokens_inj)
        (fun _ _ _ _ _ _ => free.parent_inj) found found'
  · rintro ⟨⟨full, -⟩, same⟩
    have lt : i < (s.blockHashes h).length := by rwa [length]
    refine ⟨_, getElem?_eq_getElem lt, ?_⟩
    rw [← getElem?_eq_getElem lt, ← getElem?_take_of_lt (lt_succ_self i),
      ← getElem?_take_of_lt (l := s.blockHashes h) (lt_succ_self i), s.blockHashes_eq, s'.blockHashes_eq,
      ← chain_take, ← chain_take, same]

/-- Without collisions a block has the same hash exactly when everything the hasher sees is the
same, up to a name that is taken for a salt in the first block. -/
theorem blockHash_eq_iff (free : h.CollisionFree) :
    (∃ hash, (s.blockHashes h)[i]? = some hash ∧ (s'.blockHashes h)[i]? = some hash) ↔
      LookAlike h.blockSize i s s' ∧
        (Swapped h.blockSize i s s' ∨ (s.request.loraName = s'.request.loraName ∧ s.salt = s'.salt)) := by
  have content : (∃ hash, (s.blockHashes h)[i]? = some hash ∧ (s'.blockHashes h)[i]? = some hash) ↔
      (i < s.final.numTokens / h.blockSize ∧ i < s'.final.numTokens / h.blockSize) ∧
        ∀ k ≤ i, slice s.final.allTokenIds (k * h.blockSize) (k * h.blockSize + h.blockSize) =
            slice s'.final.allTokenIds (k * h.blockSize) (k * h.blockSize + h.blockSize) ∧
          s.seenKeys h.blockSize k = s'.seenKeys h.blockSize k ∧
          promptEmbedsKeys s.final (k * h.blockSize) (k * h.blockSize + h.blockSize) =
            promptEmbedsKeys s'.final (k * h.blockSize) (k * h.blockSize + h.blockSize) ∧
          (SameNames k s s' ∨ Swapped h.blockSize k s s') := by
    rw [hashes_eq_iff_blocks free]
    refine and_congr_right fun full => (blocks_take_eq_iff full.1 full.2).trans (forall₂_congr fun k _ => ?_)
    rw [block, block, Prod.mk.injEq, Nat.mul_div_cancel k h.positive, extraKeys_eq_iff h.positive]
  have fullIff : ∀ s : Served, i < s.final.numTokens / h.blockSize ↔
      (i + 1) * h.blockSize ≤ s.final.numTokens := fun s => le_div_iff_mul_le h.positive
  rw [content, fullIff, fullIff]
  constructor
  · rintro ⟨⟨full, full'⟩, same⟩
    refine ⟨⟨full, full', (take_eq_iff_slices _ _ _ _).mpr fun k lt => (same k (le_of_lt_succ lt)).1,
      fun k lt => (same k lt).2.1, fun k lt => (same k lt).2.2.1⟩, ?_⟩
    rcases (same 0 (zero_le i)).2.2.2 with names | swapped
    · exact .inr ⟨names.1, names.2 rfl⟩
    -- a later block has the LoRA name and no salt
    rcases (same i (le_refl i)).2.2.2 with names | swapped'
    · obtain ⟨-, -, ⟨name, named, -, unnamed, -⟩ | ⟨name, named, -, unnamed, -⟩⟩ := swapped
      · rw [names.1, unnamed] at named
        cases named
      · rw [← names.1, unnamed] at named
        cases named
    · exact .inl swapped'
  · rintro ⟨alike, names⟩
    refine ⟨⟨alike.full, alike.full'⟩, fun k lt => ⟨?_, alike.inputs k lt, alike.embeds k lt, ?_⟩⟩
    · exact (take_eq_iff_slices _ _ _ _).mp alike.tokens k (lt_succ_of_le lt)
    · rcases names with swapped | same
      · obtain rfl : k = i := by
          rw [swapped.1] at lt ⊢
          exact le_zero.mp lt
        exact .inr swapped
      · exact .inl ⟨same.1, fun _ => same.2⟩

theorem hash_eq_of_prefixHit (hit : PrefixHit h s s' i) :
    ∃ hash, (s.blockHashes h)[i]? = some hash ∧ (s'.blockHashes h)[i]? = some hash := by
  obtain ⟨pool, maxLength, size, alignment, g, ids, useEagle, row, hash, hashes, at_, real, here,
    carries⟩ := hit
  have cached := pool.findFullAttentionHit_cached (s.blockHashes h) maxLength ids size useEagle
    alignment
  obtain ⟨hash', own, carries'⟩ := cached.blockHash_eq hashes at_ real
  rw [carries, Option.some.injEq] at carries'
  obtain rfl : hash = hash' := append_cancel_right carries'
  exact ⟨hash, own, here⟩

end

/-- Equal hashes and prefix hits mean equal prefixes, exactly when the two requests are not
confusable. -/
theorem isolated_iff (hasher : Hasher) (free : hasher.CollisionFree) (s s' : Served) (i : Nat) :
    Isolated hasher s s' i ↔ ¬ Confusable hasher.blockSize i s s' := by
  constructor
  · rintro isolated ⟨alike, names⟩
    rcases names with swapped | ⟨lora, salt, different⟩
    · obtain ⟨hash, found, found'⟩ := (blockHash_eq_iff free).mpr ⟨alike, .inl swapped⟩
      have lora : s.request.loraName = s'.request.loraName := (isolated.1 hash found found').loraName
      obtain ⟨-, -, ⟨name, named, -, unnamed, -⟩ | ⟨name, named, -, unnamed, -⟩⟩ := swapped
      · rw [lora, unnamed] at named
        cases named
      · rw [← lora, unnamed] at named
        cases named
    · obtain ⟨hash, found, found'⟩ := (blockHash_eq_iff free).mpr ⟨alike, .inr ⟨lora, salt⟩⟩
      have same := isolated.1 hash found found'
      rcases different with salts | ⟨k, inside, inputs⟩
      · exact salts same.cacheSalt
      · exact inputs (same.inputs k inside)
  · intro clear
    have same : (∃ hash, (s.blockHashes hasher)[i]? = some hash ∧ (s'.blockHashes hasher)[i]? = some hash) →
        SamePrefix hasher.blockSize i s.final s'.final := by
      intro equal
      obtain ⟨alike, swapped | ⟨lora, salt⟩⟩ := (blockHash_eq_iff free).mp equal
      · exact absurd ⟨alike, .inl swapped⟩ clear
      refine ⟨alike.tokens, lora, ?_, fun k inside => ?_⟩
      · by_contra salts
        exact clear ⟨alike, .inr ⟨lora, salt, .inl salts⟩⟩
      · by_contra inputs
        exact clear ⟨alike, .inr ⟨lora, salt, .inr ⟨k, inside, inputs⟩⟩⟩
    exact ⟨fun hash found found' => same ⟨hash, found, found'⟩, fun hit => same (hash_eq_of_prefixHit hit)⟩

theorem exists_hashCode : ∃ code : BlockHash × List Nat × Option (List ExtraKey) → Nat,
    Function.Injective code := by
  have chars : Countable Char := Function.Injective.countable (f := Char.toNat) fun _ _ => Char.toNat_inj.mp
  have strings : Countable String := Function.Injective.countable (f := String.toList) fun _ _ =>
    String.toList_inj.mp
  have bytes : Countable UInt8 := Function.Injective.countable (f := UInt8.toNat) fun _ _ => UInt8.toNat_inj.mp
  have keys : Countable ExtraKey := by
    refine Function.Injective.countable (β := String ⊕ (String × Int) ⊕ List UInt8)
      (f := fun key => key.casesOn .inl
      (fun identifier relativeOffset => .inr (.inl (identifier, relativeOffset))) fun digest => .inr
        (.inr digest)) ?_
    intro key key' same
    cases key <;> cases key' <;> simp_all
  exact exists_injective_nat (BlockHash × List Nat × Option (List ExtraKey))

theorem exists_collisionFree (size : Nat) (pos : 0 < size) :
    ∃ h : Hasher, h.blockSize = size ∧ h.CollisionFree := by
  obtain ⟨code, injective⟩ := exists_hashCode
  refine ⟨⟨size, pos, [], fun input => replicate (code input + 1) 0⟩, rfl, ?_, fun input => by simp⟩
  intro input input' same
  have length := congrArg length same
  simp only [length_replicate, add_right_cancel_iff] at length
  exact injective length

def photo (loraName cacheSalt : Option String) (features : List MmFeature)
    (outputs : List (List Nat)) : Served where
  request := ⟨[1, 2, 3, 4], features, loraName, cacheSalt, none, []⟩
  outputs := outputs

theorem isolated_same_photo : ∃ hasher : Hasher, hasher.blockSize = 2 ∧ hasher.CollisionFree ∧
    Isolated hasher (photo (some "l") (some "s") [⟨"a", 1, 2, by decide⟩] [])
      (photo (some "l") (some "s") [⟨"a", 1, 2, by decide⟩] [[5], [6, 7]]) 1 := by
  obtain ⟨hasher, size, free⟩ := exists_collisionFree 2 (by decide)
  refine ⟨hasher, size, free, (isolated_iff hasher free _ _ 1).mpr ?_⟩
  rintro ⟨-, ⟨first, -⟩ | ⟨-, -, salts | ⟨k, -, inputs⟩⟩⟩
  · cases first
  · exact salts rfl
  · exact inputs fun _ => Iff.rfl

/-- The adapter `x` without salt and the salt `x` without adapter give the first block the same
hash. -/
theorem adapter_hits_salt : ∃ hasher : Hasher, hasher.blockSize = 2 ∧ hasher.CollisionFree ∧
    (∃ hash, ((photo (some "x") none [] []).blockHashes hasher)[0]? = some hash ∧
      ((photo none (some "x") [] []).blockHashes hasher)[0]? = some hash) ∧
    (photo (some "x") none [] []).request.loraName ≠ (photo none (some "x") [] []).request.loraName ∧
    (photo (some "x") none [] []).request.cacheSalt ≠ (photo none (some "x") [] []).request.cacheSalt := by
  obtain ⟨hasher, size, free⟩ := exists_collisionFree 2 (by decide)
  refine ⟨hasher, size, free, (blockHash_eq_iff free).mpr ?_, by decide, by decide⟩
  rw [size]
  exact ⟨⟨by decide, by decide, rfl, fun _ _ => rfl, fun _ _ => rfl⟩,
    .inl ⟨rfl, by decide, .inl ⟨"x", rfl, rfl, rfl, by decide⟩⟩⟩

end TurboQuant.Core
