import TurboQuant.Core.IncrementalHash

/-!
When hashing a request batch by batch gives the hashes of the finished sequence.
-/

namespace TurboQuant.Core
open Chain List Nat Option

variable {features fs : List MmFeature} {f : MmFeature} {s : Nat} {r : Request}

def finalRequest (r : Request) (batches : List (List Nat)) : Request :=
  { r with allTokenIds := r.allTokenIds ++ batches.flatten, blockHashes := [] }

section
variable (hasher : Hasher) (r : Request) (batches : List (List Nat))

def Hasher.incremental : Request :=
  batches.foldl hasher.appendOutputTokenIds (hasher.updateBlockHashes { r with blockHashes := [] })

def Hasher.fromScratch : Request :=
  hasher.updateBlockHashes (finalRequest r batches)

end

def firstHashed (blockSize : Nat) : Nat → List (List Nat) → Nat
  | numTokens, [] => numTokens / blockSize
  | numTokens, batch :: rest =>
    if blockSize ≤ numTokens then numTokens / blockSize else firstHashed blockSize
      (numTokens + batch.length) rest

def Contributes (hasher : Hasher) (hashes : List BlockHash) (k : Nat) (key : ExtraKey) : Prop :=
  ∃ parent tokens extra, hashes[k]? = some (hasher.cachingHashFn (parent, tokens, some extra)) ∧ key ∈ extra

/-- Whatever the hash function: the incremental hashes are those of the finished sequence, and every
feature that overlaps a block contributes to its hash. -/
def HashesAgree (blockSize : Nat) (positive : 0 < blockSize) (r : Request)
    (batches : List (List Nat)) : Prop :=
  ∀ noneHash cachingHashFn,
    let hasher : Hasher := ⟨blockSize, positive, noneHash, cachingHashFn⟩
    (hasher.incremental r batches).blockHashes = (hasher.fromScratch r batches).blockHashes ∧
    ∀ k < (finalRequest r batches).numTokens / blockSize, ∀ f ∈ r.mmFeatures,
      f.overlaps (k * blockSize) (k * blockSize + blockSize) = true →
      Contributes hasher (hasher.incremental r batches).blockHashes k (f.key (k * blockSize))

def FeaturesSeen (blockSize : Nat) (r : Request) (batches : List (List Nat)) : Prop :=
  ∀ k < (finalRequest r batches).numTokens / blockSize, ∀ m f, r.mmFeatures[m]? = some f →
    f.overlaps (k * blockSize) (k * blockSize + blockSize) = true →
    ¬ lastEndsBy r.mmFeatures (k * blockSize) ∧
    (∀ j < m, ∀ g, r.mmFeatures[j]? = some g → g.endsBy (k * blockSize + blockSize) = true) ∧
    (firstHashed blockSize r.numTokens batches ≤ k → m + 1 = r.mmFeatures.length)

/-! ### The keys used block by block -/

namespace Hasher
variable (hasher h : Hasher)

def mixedKeys (features : List MmFeature) (first s : Nat) : List ExtraKey :=
  if s < first * hasher.blockSize then walkKeys features s (s + hasher.blockSize)
  else resumeKeys features s (s + hasher.blockSize)

theorem mul_lt_mul_block {a b : Nat} : a * h.blockSize < b * h.blockSize ↔ a < b :=
  Nat.mul_lt_mul_right h.positive

def UpToDate (first : Nat) (r : Request) : Prop :=
  r.blockHashes = chain hasher.hashBlockTokens none
    (hasher.blocks r (hasher.mixedKeys r.mmFeatures first) 0 (r.numTokens / hasher.blockSize))

section
variable {h : Hasher} {first : Nat} (fresh : h.UpToDate first r)
  (started : 0 < r.numTokens / h.blockSize) (later : first ≤ r.numTokens / h.blockSize)
include fresh started later

theorem UpToDate.append (batch : List Nat) : h.UpToDate first (h.appendOutputTokenIds r batch) := by
  have full : r.numTokens / h.blockSize * h.blockSize ≤ r.numTokens := div_mul_le_self _ _
  refine h.updateBlockHashes_chain { r with allTokenIds := r.allTokenIds ++ batch }
    (h.mixedKeys r.mmFeatures first) (r.numTokens / h.blockSize)
    (by rw [h.blocks_append r batch _ full]; exact fresh) ?_ ?_
  · exact full.trans (by simp [Request.numTokens])
  · intro k after _
    have past : ¬ k * h.blockSize < first * h.blockSize := by rw [mul_lt_mul_block]; omega
    rw [callKeys, if_neg (by omega), mixedKeys, if_neg past]

theorem UpToDate.foldl (bs : List (List Nat)) : (bs.foldl h.appendOutputTokenIds r).blockHashes =
      chain h.hashBlockTokens none (h.blocks (finalRequest r bs) (h.mixedKeys r.mmFeatures first) 0
        ((finalRequest r bs).numTokens / h.blockSize)) := by
  induction bs generalizing r with
  | nil =>
    rw [foldl_nil, fresh]
    simp only [finalRequest, flatten_nil, append_nil]
    rfl
  | cons batch rest ih =>
    have grown : r.numTokens / h.blockSize ≤ (h.appendOutputTokenIds r batch).numTokens / h.blockSize :=
      Nat.div_le_div_right (by simp [appendOutputTokenIds, updateBlockHashes, Request.numTokens])
    have same : finalRequest (h.appendOutputTokenIds r batch) rest = finalRequest r (batch :: rest) := by
      simp [finalRequest, appendOutputTokenIds, updateBlockHashes]
    rw [foldl_cons, ih (fresh.append started later batch) (by omega) (by omega), same]
    rfl

end

theorem upToDate_first (r : Request) (none : r.blockHashes = []) :
    h.UpToDate (r.numTokens / h.blockSize) (h.updateBlockHashes r) := by
  refine h.updateBlockHashes_chain r _ 0 (by rw [none]; rfl) (by simp) ?_
  intro k _ lt
  have below : k * h.blockSize < r.numTokens / h.blockSize * h.blockSize := by
    rwa [mul_lt_mul_block]
  rw [callKeys, if_pos rfl, mixedKeys, if_pos below]
  rfl

theorem updateBlockHashes_short (none : r.blockHashes = []) (short : r.numTokens < h.blockSize) :
    h.updateBlockHashes r = r := by
  have nothing : h.requestBlockHasher r = [] := by
    rw [requestBlockHasher, none]
    exact if_pos (by simpa using short)
  rw [updateBlockHashes, nothing, append_nil]

theorem incremental_eq (r : Request) (bs : List (List Nat)) : (h.incremental r bs).blockHashes =
      chain h.hashBlockTokens none (h.blocks (finalRequest r bs)
        (h.mixedKeys r.mmFeatures (firstHashed h.blockSize r.numTokens bs)) 0
        ((finalRequest r bs).numTokens / h.blockSize)) := by
  rw [incremental]
  suffices general : ∀ r : Request, r.blockHashes = [] →
      (bs.foldl h.appendOutputTokenIds (h.updateBlockHashes r)).blockHashes =
        chain h.hashBlockTokens none (h.blocks (finalRequest r bs)
          (h.mixedKeys r.mmFeatures (firstHashed h.blockSize r.numTokens bs)) 0
          ((finalRequest r bs).numTokens / h.blockSize)) from
    general { r with blockHashes := [] } rfl
  induction bs with
  | nil =>
    intro r none
    have fresh := h.upToDate_first r none
    simp only [foldl_nil, finalRequest, flatten_nil, append_nil, firstHashed]
    exact fresh
  | cons batch rest ih =>
    intro r none
    by_cases long : h.blockSize ≤ r.numTokens
    · have started : 0 < r.numTokens / h.blockSize := div_pos long h.positive
      rw [firstHashed, if_pos long]
      exact (h.upToDate_first r none).foldl started (le_refl _) (batch :: rest)
    · rw [firstHashed, if_neg long, h.updateBlockHashes_short none (by omega), foldl_cons]
      have next := ih { r with allTokenIds := r.allTokenIds ++ batch } none
      have same : finalRequest { r with allTokenIds := r.allTokenIds ++ batch } rest =
          finalRequest r (batch :: rest) := by
        simp [finalRequest]
      have count : Request.numTokens { r with allTokenIds := r.allTokenIds ++ batch } =
          r.numTokens + batch.length := by
        simp [Request.numTokens]
      rw [same, count] at next
      exact next

theorem fromScratch_eq (r : Request) (bs : List (List Nat)) : (h.fromScratch r bs).blockHashes =
      chain h.hashBlockTokens none (h.blocks (finalRequest r bs)
        (fun s => walkKeys r.mmFeatures s (s + h.blockSize)) 0
        ((finalRequest r bs).numTokens / h.blockSize)) := by
  refine h.updateBlockHashes_chain (finalRequest r bs) _ 0 rfl (by simp) ?_
  intro k _ _
  rw [callKeys, if_pos rfl]
  rfl

end Hasher

/-! ### When the keys are all overlapping features -/

variable {e : Nat}

theorem walkKeys_eq_overlapKeys
    (seen : ∀ (m : Nat) (f : MmFeature), fs[m]? = some f → f.overlaps s e = true →
      ¬ lastEndsBy fs s ∧ ∀ j < m, ∀ g, fs[j]? = some g → g.endsBy e = true) :
    walkKeys fs s e = overlapKeys fs s e := by
  have beyond : overlapKeys (fs.drop (firstOpen fs e + 1)) s e = [] := by
    refine overlapKeys_eq_nil fun f mem => ?_
    by_contra covers
    obtain ⟨i, at_⟩ := mem_iff_getElem?.mp mem
    rw [getElem?_drop] at at_
    -- the open feature before it would have to end by the end of the block
    have lt : firstOpen fs e < fs.length := by
      have := (List.getElem_of_getElem? at_).1
      omega
    have ended := (seen (firstOpen fs e + 1 + i) f at_ (by simpa using covers)).2 (firstOpen fs e) (by omega) _
      (getElem?_eq_getElem lt)
    have stillOpen : (!(fs[firstOpen fs e]).endsBy e) = true := findIdx_getElem (w := lt)
    rw [ended] at stillOpen
    cases stillOpen
  have split := overlapKeys_append (fs.take (firstOpen fs e + 1)) (fs.drop (firstOpen fs e + 1)) s e
  rw [take_append_drop, beyond, append_nil] at split
  rw [walkKeys, ← split]
  split
  · rename_i ends
    refine (overlapKeys_eq_nil fun f mem => ?_).symm
    by_contra covers
    obtain ⟨m, at_⟩ := mem_iff_getElem?.mp mem
    exact (seen m f at_ (by simpa using covers)).1 ends
  · rfl

theorem resumeKeys_eq_overlapKeys
    (seen : ∀ (m : Nat) (f : MmFeature), fs[m]? = some f → f.overlaps s e = true → m + 1 = fs.length) :
    resumeKeys fs s e = overlapKeys fs s e := by
  rcases eq_nil_or_concat fs with rfl | ⟨init, last, rfl⟩
  · rfl
  rw [concat_eq_append] at seen ⊢
  have earlier : overlapKeys init s e = [] := by
    refine overlapKeys_eq_nil fun f mem => ?_
    by_contra covers
    obtain ⟨m, at_⟩ := mem_iff_getElem?.mp mem
    have inside := (List.getElem_of_getElem? at_).1
    have place := seen m f (by rw [getElem?_append_left inside]; exact at_) (by simpa using covers)
    simp only [length_append, length_cons, length_nil] at place
    omega
  rw [overlapKeys_append, earlier, nil_append, resumeKeys, getLast?_append]
  rfl

/-! ### Reading the keys off the hashes -/

theorem mm_mem_of_wrapExtraKeys {keys extra : List ExtraKey} {t : Nat}
    (wrapped : wrapExtraKeys r s e keys = some extra) (mem : f.key t ∈ extra) : f.key t ∈ keys := by
  rw [wrapExtraKeys] at wrapped
  split at wrapped
  · cases wrapped
  rw [← some.inj wrapped] at mem
  simp only [mem_append] at mem
  rcases mem with ((lora | inKeys) | salt) | embeds
  · obtain ⟨_, -, other⟩ := mem_map.mp lora
    cases other
  · exact inKeys
  · unfold saltKeys at salt
    split at salt
    · obtain ⟨_, -, other⟩ := mem_map.mp salt
      cases other
    · cases salt
  · obtain ⟨_, -, other⟩ := mem_map.mp embeds
    cases other

variable {key : ExtraKey}

theorem wrapExtraKeys_of_mem (r : Request) (s e : Nat) {keys : List ExtraKey} (mem : key ∈ keys) :
    ∃ extra, wrapExtraKeys r s e keys = some extra ∧ key ∈ extra := by
  rw [wrapExtraKeys]
  split
  · rename_i none
    simp only [append_eq_nil_iff] at none
    rw [none.1.1.2] at mem
    cases mem
  · exact ⟨_, rfl, by simp [mem]⟩

def detectKey (key : ExtraKey) : BlockHash × List Nat × Option (List ExtraKey) → BlockHash
  | (_, _, some extra) => if key ∈ extra then [1] else [0]
  | (_, _, none) => [0]

theorem mem_of_detectKey {input : BlockHash × List Nat × Option (List ExtraKey)}
    (present : detectKey key input = [1]) : ∃ extra, input.2.2 = some extra ∧ key ∈ extra := by
  obtain ⟨parent, n, extra⟩ := input
  cases extra with
  | none => simp [detectKey] at present
  | some extra =>
    by_cases mem : key ∈ extra
    · exact ⟨extra, rfl, mem⟩
    · simp [detectKey, mem] at present

theorem mem_keys_of_detected {size : Nat} {pos : 0 < size} {t : Nat} {keys : Nat → List ExtraKey}
    {k rounds : Nat} (lt : k < rounds) :
    let h : Hasher := ⟨size, pos, [], detectKey (f.key t)⟩
    (chain h.hashBlockTokens none (h.blocks r keys 0 rounds))[k]? = some [1] →
      f.key t ∈ keys (k * size) := by
  intro h found
  obtain ⟨parent, here⟩ := chain_getElem? h.hashBlockTokens none
    (h.blocks_getElem? r keys 0 lt)
  rw [found] at here
  obtain ⟨extra, wrapped, mem⟩ := mem_of_detectKey (some.inj here).symm
  rw [zero_add] at wrapped
  exact mm_mem_of_wrapExtraKeys wrapped mem

/-! ### The result -/

def DistinctFeatures (features : List MmFeature) : Prop :=
  (features.map fun f => (f.identifier, f.offset)).Nodup

instance (features : List MmFeature) : Decidable (DistinctFeatures features) :=
  inferInstanceAs (Decidable (List.Nodup _))

section
variable (nodup : DistinctFeatures fs)
include nodup

theorem index_of_key {i j : Nat} {g : MmFeature} (atI : fs[i]? = some f)
    (atJ : fs[j]? = some g) (same : f.key s = g.key s) : i = j := by
  simp only [MmFeature.key, ExtraKey.mm.injEq] at same
  have pair : (f.identifier, f.offset) = (g.identifier, g.offset) := Prod.ext same.1 (by simp only; omega)
  have lt : i < (fs.map fun f => (f.identifier, f.offset)).length := by
    rw [length_map]
    exact (List.getElem_of_getElem? atI).1
  refine (getElem?_inj lt nodup).mp ?_
  rw [getElem?_map, getElem?_map, atI, atJ, map_some, map_some, pair]

variable {m : Nat}

theorem seen_of_mem_walkKeys (at_ : fs[m]? = some f) (mem : f.key s ∈ walkKeys fs s e) :
    ¬ lastEndsBy fs s ∧ ∀ j < m, ∀ g, fs[j]? = some g → g.endsBy e = true := by
  unfold walkKeys at mem
  split at mem
  · cases mem
  rename_i stillOpen
  refine ⟨stillOpen, fun j earlier g atJ => endsBy_of_lt_firstOpen ?_ atJ⟩
  obtain ⟨f', kept, same⟩ := mem_map.mp mem
  obtain ⟨i, lt, rfl⟩ := getElem_of_mem (mem_of_mem_filter kept)
  rw [getElem_take] at same
  have bound := lt
  rw [length_take] at bound
  have place := index_of_key nodup (getElem?_eq_getElem (by omega)) at_ same
  omega

theorem last_of_mem_resumeKeys (at_ : fs[m]? = some f)
    (mem : f.key s ∈ resumeKeys fs s e) : m + 1 = fs.length := by
  obtain ⟨last, kept, same⟩ := mem_map.mp mem
  have found : fs.getLast? = some last := by simpa using mem_of_mem_filter kept
  rw [getLast?_eq_getElem?] at found
  have place := index_of_key nodup found at_ same
  have := (List.getElem_of_getElem? at_).1
  omega

end

section
variable {blockSize : Nat} {pos : 0 < blockSize} {batches : List (List Nat)}

theorem featuresSeen_of_hashesAgree
    (nodup : DistinctFeatures r.mmFeatures) (agree : HashesAgree blockSize pos r batches) :
    FeaturesSeen blockSize r batches := by
  intro k lt m f at_ covers
  obtain ⟨same, contributes⟩ := agree [] (detectKey (f.key (k * blockSize)))
  obtain ⟨parent, n, extra, found, mem⟩ := contributes k lt f (mem_of_getElem? at_) covers
  have detected : detectKey (f.key (k * blockSize)) (parent, n, some extra) = [1] := if_pos mem
  simp only [detected] at found
  have scratch := found
  rw [same, Hasher.fromScratch_eq] at scratch
  rw [Hasher.incremental_eq] at found
  have walked : f.key (k * blockSize) ∈ (fun s => walkKeys r.mmFeatures s (s + blockSize)) (k * blockSize) :=
    mem_keys_of_detected lt scratch
  obtain ⟨stillOpen, earlier⟩ := seen_of_mem_walkKeys nodup at_ walked
  refine ⟨stillOpen, earlier, fun resumed => ?_⟩
  have mixed := mem_keys_of_detected lt found
  have past : ¬ k * blockSize < firstHashed blockSize r.numTokens batches * blockSize := by
    rw [Nat.mul_lt_mul_right pos]
    omega
  rw [Hasher.mixedKeys, if_neg past] at mixed
  exact last_of_mem_resumeKeys nodup at_ mixed

theorem hashesAgree_of_featuresSeen
    (seen : FeaturesSeen blockSize r batches) : HashesAgree blockSize pos r batches := by
  intro noneHash cachingHashFn
  generalize made : (⟨blockSize, pos, noneHash, cachingHashFn⟩ : Hasher) = h
  have size : h.blockSize = blockSize := by rw [← made]
  subst size
  have walked : ∀ k < (finalRequest r batches).numTokens / h.blockSize,
      walkKeys r.mmFeatures (k * h.blockSize) (k * h.blockSize + h.blockSize) =
        overlapKeys r.mmFeatures (k * h.blockSize) (k * h.blockSize + h.blockSize) := fun k lt =>
    walkKeys_eq_overlapKeys fun m f at_ covers =>
      ⟨(seen k lt m f at_ covers).1, (seen k lt m f at_ covers).2.1⟩
  have mixed : ∀ k < (finalRequest r batches).numTokens / h.blockSize,
      h.mixedKeys r.mmFeatures (firstHashed h.blockSize r.numTokens batches) (k * h.blockSize) =
        overlapKeys r.mmFeatures (k * h.blockSize) (k * h.blockSize + h.blockSize) := by
    intro k lt
    unfold Hasher.mixedKeys
    split
    · exact walked k lt
    · rename_i resumed
      rw [h.mul_lt_mul_block] at resumed
      exact resumeKeys_eq_overlapKeys fun m f at_ covers => (seen k lt m f at_ covers).2.2 (by omega)
  constructor
  · rw [h.incremental_eq, h.fromScratch_eq]
    congr 1
    refine h.blocks_congr fun k lt => ?_
    simp only [zero_add, Hasher.block, mixed k lt, walked k lt]
  · intro k lt f mem covers
    rw [h.incremental_eq]
    obtain ⟨parent, found⟩ := chain_getElem? h.hashBlockTokens none
      (h.blocks_getElem? (finalRequest r batches)
        (h.mixedKeys r.mmFeatures (firstHashed h.blockSize r.numTokens batches)) 0 lt)
    have inKeys : f.key (k * h.blockSize) ∈
        overlapKeys r.mmFeatures (k * h.blockSize) (k * h.blockSize + h.blockSize) :=
      mem_map.mpr ⟨f, mem_filter.mpr ⟨mem, covers⟩, rfl⟩
    obtain ⟨extra, wrapped, inExtra⟩ := wrapExtraKeys_of_mem (finalRequest r batches) (k * h.blockSize)
      (k * h.blockSize + h.blockSize) inKeys
    rw [zero_add, Hasher.block, mixed k lt, wrapped] at found
    exact ⟨_, _, extra, found, inExtra⟩

end

/-- Hashing batch by batch agrees with hashing the finished sequence, with every overlapping feature
in the hash of its block, exactly when every feature is seen. -/
theorem hashesAgree_iff (blockSize : Nat) (positive : 0 < blockSize) (r : Request) (batches : List (List Nat))
    (distinct : DistinctFeatures r.mmFeatures) :
    HashesAgree blockSize positive r batches ↔ FeaturesSeen blockSize r batches :=
  ⟨featuresSeen_of_hashesAgree distinct, hashesAgree_of_featuresSeen⟩

theorem featuresSeen_single (size : Nat) {feature : MmFeature} (single : r.mmFeatures = [feature])
    (batches : List (List Nat)) : FeaturesSeen size r batches := by
  intro k _ m f at_ covers
  rw [single] at at_ ⊢
  obtain ⟨rfl, rfl⟩ : m = 0 ∧ feature = f := by
    cases m with
    | zero => exact ⟨rfl, some.inj at_⟩
    | succ m => cases at_
  refine ⟨fun ends => ?_, fun j earlier => absurd earlier (not_lt_zero j), fun _ => rfl⟩
  rw [MmFeature.overlaps_eq_false_of_endsBy (ends feature rfl)] at covers
  cases covers

def sixTokens (features : List MmFeature) : Request where
  allTokenIds := [1, 2, 3, 4, 5, 6]
  mmFeatures := features
  loraName := none
  cacheSalt := none
  promptEmbeds := none
  blockHashes := []

theorem hashesAgree_single_feature : HashesAgree 4 (by decide) (sixTokens [⟨"a", 4, 2, by decide⟩])
    [[7], [8]] :=
  (hashesAgree_iff 4 (by decide) (sixTokens [⟨"a", 4, 2, by decide⟩]) [[7], [8]] (by decide)).mpr
    (featuresSeen_single 4 rfl [[7], [8]])

/-- Two inputs in the block that two output tokens complete: hashed in one call the block has the
first input in its hash, hashed in a resumed call it has not. -/
theorem hashes_disagree_two_features :
    let hasher : Hasher := ⟨4, by decide, [], detectKey (.mm "a" 0)⟩
    let r := sixTokens [⟨"a", 4, 1, by decide⟩, ⟨"b", 5, 1, by decide⟩]
    (hasher.incremental r [[7], [8]]).blockHashes = [[0], [0]] ∧
    (hasher.fromScratch r [[7], [8]]).blockHashes = [[0], [1]] := by
  decide

end TurboQuant.Core
