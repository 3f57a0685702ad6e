import TurboQuant.Lib.Chain
import TurboQuant.Lib.Segments

/-!
Block hashes of a request: the extra keys a block contributes besides its tokens, and the hasher
that extends the list of hashes by the blocks completed since its last call.
-/

namespace TurboQuant.Core
open Chain Segments List Nat

abbrev BlockHash := List UInt8

structure MmFeature where
  identifier : String
  offset : Nat
  length : Nat
  positive : 0 < length
  deriving DecidableEq

/-- An entry of the tuple of extra keys. LoRA names and salts are both plain strings in it. -/
inductive ExtraKey where
  | str (name : String)
  | mm (identifier : String) (relativeOffset : Int)
  | bytes (digest : List UInt8)
  deriving DecidableEq, Repr

/-- What the hasher reads of a request. `promptEmbeds` is the digest of a slice of the
embeddings. -/
structure Request where
  allTokenIds : List Nat
  mmFeatures : List MmFeature
  loraName : Option String
  cacheSalt : Option String
  promptEmbeds : Option (Nat → Nat → List UInt8)
  blockHashes : List BlockHash

def Request.numTokens (r : Request) : Nat := r.allTokenIds.length

structure Hasher where
  blockSize : Nat
  positive : 0 < blockSize
  noneHash : BlockHash
  cachingHashFn : BlockHash × List Nat × Option (List ExtraKey) → BlockHash

/-! ### Extra keys -/

def mmLoop (startTokenIdx endTokenIdx : Nat) : List MmFeature → Nat → List ExtraKey × Nat
  | [], currMmIdx => ([], currMmIdx)
  | feature :: rest, currMmIdx =>
    if endTokenIdx > feature.offset then
      -- the block has passed this input
      if startTokenIdx ≥ feature.offset + feature.length then mmLoop startTokenIdx endTokenIdx rest
        (currMmIdx + 1)
      else
        let key := ExtraKey.mm feature.identifier (feature.offset - startTokenIdx)
        if endTokenIdx ≥ feature.offset + feature.length then
          let (keys, next) := mmLoop startTokenIdx endTokenIdx rest (currMmIdx + 1)
          (key :: keys, next)
        else ([key], currMmIdx)
    else ([], currMmIdx)

/-- `_gen_mm_extra_hash_keys`. A negative start index counts from the end. -/
def genMmExtraHashKeys (features : List MmFeature) (startTokenIdx endTokenIdx : Nat) (startMmIdx : Int) :
    List ExtraKey × Int :=
  match features.getLast? with
  | none => ([], startMmIdx)
  | some last =>
    if last.offset + last.length ≤ startTokenIdx then ([], startMmIdx)
    else
      let currMmIdx := (if startMmIdx < 0 then features.length + startMmIdx else startMmIdx).toNat
      let (keys, next) := mmLoop startTokenIdx endTokenIdx (features.drop currMmIdx) currMmIdx
      (keys, next)

def saltKeys (r : Request) (startTokenIdx : Nat) : List ExtraKey :=
  if startTokenIdx = 0 then (r.cacheSalt.toList.filter (· ≠ "")).map .str else []

section
variable (r : Request) (startTokenIdx endTokenIdx : Nat)

def promptEmbedsKeys : List ExtraKey :=
  r.promptEmbeds.toList.map fun digest => .bytes (digest startTokenIdx endTokenIdx)

def wrapExtraKeys (mmKeys : List ExtraKey) : Option (List ExtraKey) :=
  let keys := r.loraName.toList.map .str ++ mmKeys ++ saltKeys r startTokenIdx ++
    promptEmbedsKeys r startTokenIdx endTokenIdx
  if keys = [] then none else some keys

def generateBlockHashExtraKeys (startMmIdx : Int) : Option (List ExtraKey) × Int :=
  let (mmKeys, next) := genMmExtraHashKeys r.mmFeatures startTokenIdx endTokenIdx startMmIdx
  (wrapExtraKeys r startTokenIdx endTokenIdx mmKeys, next)

end

/-! ### The hasher -/

def Hasher.hashBlockTokens (hasher : Hasher) (parent : Option BlockHash)
    (block : List Nat × Option (List ExtraKey)) : BlockHash :=
  let parentBlockHash := match parent with
    | some hash => if hash = [] then hasher.noneHash else hash
    | none => hasher.noneHash
  hasher.cachingHashFn (parentBlockHash, block.1, block.2)

def Hasher.hashLoop (hasher : Hasher) (r : Request) : Nat → Nat → Int → Option BlockHash → List BlockHash
  | 0, _, _, _ => []
  | rounds + 1, startTokenIdx, currMmIdx, prev =>
    let endTokenIdx := startTokenIdx + hasher.blockSize
    let (extraKeys, next) := generateBlockHashExtraKeys r startTokenIdx endTokenIdx currMmIdx
    let blockHash := hasher.hashBlockTokens prev (slice r.allTokenIds startTokenIdx endTokenIdx, extraKeys)
    blockHash :: hasher.hashLoop r rounds endTokenIdx next (some blockHash)

section
variable (hasher : Hasher) (r : Request)

def Hasher.requestBlockHasher : List BlockHash :=
  let startTokenIdx := r.blockHashes.length * hasher.blockSize
  if startTokenIdx + hasher.blockSize > r.numTokens then []
  else
    -- a resumed hasher starts at the last multimodal input
    let currMmIdx : Int := if startTokenIdx > 0 then -1 else 0
    hasher.hashLoop r ((r.numTokens - startTokenIdx) / hasher.blockSize) startTokenIdx currMmIdx
      r.blockHashes.getLast?

def Hasher.updateBlockHashes : Request :=
  { r with blockHashes := r.blockHashes ++ hasher.requestBlockHasher r }

def Hasher.appendOutputTokenIds (tokenIds : List Nat) : Request :=
  hasher.updateBlockHashes { r with allTokenIds := r.allTokenIds ++ tokenIds }

end

/-! ### What the loop of the extra keys computes -/

def MmFeature.overlaps (f : MmFeature) (startTokenIdx endTokenIdx : Nat) : Bool :=
  decide (f.offset < endTokenIdx) && decide (startTokenIdx < f.offset + f.length)

def MmFeature.endsBy (f : MmFeature) (tokenIdx : Nat) : Bool := decide (f.offset + f.length ≤ tokenIdx)

def MmFeature.key (f : MmFeature) (startTokenIdx : Nat) : ExtraKey :=
  .mm f.identifier (f.offset - startTokenIdx)

def overlapKeys (features : List MmFeature) (startTokenIdx endTokenIdx : Nat) : List ExtraKey :=
  (features.filter (·.overlaps startTokenIdx endTokenIdx)).map (·.key startTokenIdx)

variable {startTokenIdx endTokenIdx start stop : Nat} {feature : MmFeature}

theorem overlapKeys_cons_pos
    (covers : feature.overlaps start endTokenIdx = true) (rest : List MmFeature) :
    overlapKeys (feature :: rest) start endTokenIdx =
      feature.key start :: overlapKeys rest start endTokenIdx := by
  simp only [overlapKeys, filter_cons, covers, if_true, map_cons]

theorem overlapKeys_cons_neg
    (apart : feature.overlaps start endTokenIdx = false) (rest : List MmFeature) :
    overlapKeys (feature :: rest) start endTokenIdx = overlapKeys rest start endTokenIdx := by
  simp only [overlapKeys, filter_cons, apart, Bool.false_eq_true, if_false]

theorem overlapKeys_append (fs more : List MmFeature) (start endTokenIdx : Nat) :
    overlapKeys (fs ++ more) start endTokenIdx =
      overlapKeys fs start endTokenIdx ++ overlapKeys more start endTokenIdx := by
  rw [overlapKeys, filter_append, map_append, overlapKeys, overlapKeys]

theorem overlapKeys_eq_nil {fs : List MmFeature} (apart : ∀ f ∈ fs, f.overlaps start stop = false) :
    overlapKeys fs start stop = [] := by
  rw [overlapKeys, filter_eq_nil_iff.mpr fun f mem => by simp [apart f mem], map_nil]

def firstOpen (features : List MmFeature) (tokenIdx : Nat) : Nat :=
  features.findIdx fun f => !f.endsBy tokenIdx

/-- The loop stops at the first feature that is still open at the end of the block, and contributes
the overlapping features up to there. -/
theorem mmLoop_eq (ordered : start ≤ stop) (fs : List MmFeature) (currMmIdx : Nat) :
    mmLoop start stop fs currMmIdx = (overlapKeys (fs.take (firstOpen fs stop + 1)) start stop,
        currMmIdx + firstOpen fs stop) := by
  induction fs generalizing currMmIdx with
  | nil => rfl
  | cons feature rest ih =>
    have positive := feature.positive
    unfold mmLoop
    by_cases closed : feature.offset + feature.length ≤ stop
    · have next : firstOpen (feature :: rest) stop = firstOpen rest stop + 1 := by
        simp [firstOpen, findIdx_cons, MmFeature.endsBy, closed]
      rw [if_pos (by omega), next, ih, take_succ_cons]
      by_cases passed : start ≥ feature.offset + feature.length
      · have apart : feature.overlaps start stop = false := by simp [MmFeature.overlaps]; omega
        rw [if_pos passed, overlapKeys_cons_neg apart]
        congr 1
        omega
      · have covers : feature.overlaps start stop = true := by simp [MmFeature.overlaps]; omega
        rw [if_neg passed, if_pos closed, overlapKeys_cons_pos covers]
        refine Prod.ext rfl ?_
        simp only
        omega
    · have here : firstOpen (feature :: rest) stop = 0 := by
        simp [firstOpen, findIdx_cons, MmFeature.endsBy, closed]
      rw [here, take_succ_cons, take_zero]
      by_cases reached : stop > feature.offset
      · have covers : feature.overlaps start stop = true := by simp [MmFeature.overlaps]; omega
        rw [if_pos reached, if_neg (by omega), if_neg closed]
        rw [overlapKeys_cons_pos covers]
        rfl
      · have apart : feature.overlaps start stop = false := by simp [MmFeature.overlaps]; omega
        rw [if_neg reached, overlapKeys_cons_neg apart]
        rfl

/-! ### Blocks as chained input -/

section
variable (hasher : Hasher) (r : Request) (keys : Nat → List ExtraKey)

def Hasher.block (startTokenIdx : Nat) : List Nat × Option (List ExtraKey) :=
  (slice r.allTokenIds startTokenIdx (startTokenIdx + hasher.blockSize),
    wrapExtraKeys r startTokenIdx (startTokenIdx + hasher.blockSize) (keys startTokenIdx))

def Hasher.blocks (startTokenIdx rounds : Nat) : List (List Nat × Option (List ExtraKey)) :=
  (range rounds).map fun k => hasher.block r keys (startTokenIdx + k * hasher.blockSize)

end

section
variable (h : Hasher) (r : Request) (ks : Nat → List ExtraKey)

theorem Hasher.blocks_succ (start rounds : Nat) : h.blocks r ks start (rounds + 1) =
      h.block r ks start :: h.blocks r ks (start + h.blockSize) rounds := by
  rw [blocks, range_succ_eq_map, map_cons, zero_mul, add_zero, map_map, blocks]
  congr 1
  apply map_congr_left
  intro k _
  simp only [Function.comp_apply, succ_mul]
  congr 1
  omega

theorem Hasher.blocks_add (start m n : Nat) : h.blocks r ks start (m + n) =
      h.blocks r ks start m ++ h.blocks r ks (start + m * h.blockSize) n := by
  rw [blocks, range_add, map_append, map_map, blocks, blocks]
  congr 1
  apply map_congr_left
  intro k _
  simp only [Function.comp_apply, add_mul, add_assoc]

theorem Hasher.blocks_getElem? (start : Nat) {rounds k : Nat} (inside : k < rounds) :
    (h.blocks r ks start rounds)[k]? = some (h.block r ks (start + k * h.blockSize)) := by
  rw [blocks, getElem?_map, getElem?_range inside]
  rfl

end

theorem Hasher.blocks_congr (h : Hasher) {r r' : Request} {ks keys' : Nat → List ExtraKey} {rounds : Nat}
    (same : ∀ k < rounds,
      h.block r ks (start + k * h.blockSize) = h.block r' keys' (start + k * h.blockSize)) :
    h.blocks r ks start rounds = h.blocks r' keys' start rounds :=
  map_congr_left fun k mem => same k (mem_range.mp mem)

/-- The loop of the hasher is a chain. `Pointer` relates a token index to the feature index the loop
carries there, and `keys` are the multimodal keys it then contributes. -/
theorem Hasher.hashLoop_eq (h : Hasher) (r : Request) {ks : Nat → List ExtraKey} (Pointer : Nat → Int → Prop)
    (step : ∀ s idx, Pointer s idx → (genMmExtraHashKeys r.mmFeatures s (s + h.blockSize) idx).1 = ks s ∧
      Pointer (s + h.blockSize) (genMmExtraHashKeys r.mmFeatures s (s + h.blockSize) idx).2)
    (rounds start : Nat) (currMmIdx : Int) (prev : Option BlockHash) (pointer : Pointer start currMmIdx) :
    h.hashLoop r rounds start currMmIdx prev = chain h.hashBlockTokens prev (h.blocks r ks start rounds) := by
  induction rounds generalizing start currMmIdx prev with
  | zero => rfl
  | succ rounds ih =>
    obtain ⟨here, next⟩ := step start currMmIdx pointer
    rw [blocks_succ, chain, ← ih _ _ _ next]
    simp only [hashLoop, generateBlockHashExtraKeys, block, here]

end TurboQuant.Core
