import Mathlib.Data.List.TakeDrop
import TurboQuant.Core.BlockHash

/-!
The hasher called once over a finished sequence against the hasher called after every batch of
output tokens.
-/

namespace TurboQuant.Core
open Chain Segments List Nat MmFeature

/-! ### The keys of the two ways to start -/

def lastEndsBy (features : List MmFeature) (tokenIdx : Nat) : Prop :=
  ∀ last, features.getLast? = some last → last.endsBy tokenIdx = true

instance (features : List MmFeature) (tokenIdx : Nat) : Decidable (lastEndsBy features tokenIdx) :=
  match found : features.getLast? with
  | none => isTrue fun _ some => by rw [found] at some; cases some
  | some last =>
    if ends : last.endsBy tokenIdx = true then
      isTrue fun _ some => by rw [found] at some; cases some; exact ends
    else isFalse fun all => ends (all last found)

section
variable (features : List MmFeature) (startTokenIdx endTokenIdx : Nat)

def walkKeys : List ExtraKey :=
  if lastEndsBy features startTokenIdx then []
  else overlapKeys (features.take (firstOpen features endTokenIdx + 1)) startTokenIdx endTokenIdx

def resumeKeys : List ExtraKey :=
  overlapKeys features.getLast?.toList startTokenIdx endTokenIdx

end

variable {features fs : List MmFeature} {f : MmFeature}

theorem endsBy_of_lt_firstOpen {tokenIdx i : Nat}
    (before : i < firstOpen fs tokenIdx) (at_ : fs[i]? = some f) : f.endsBy tokenIdx = true := by
  obtain ⟨lt, rfl⟩ := List.getElem_of_getElem? at_
  simpa using List.not_of_lt_findIdx before

variable {startTokenIdx start : Nat} {stop : Nat}

theorem MmFeature.overlaps_eq_false_of_endsBy
    (ends : f.endsBy start = true) : f.overlaps start stop = false := by
  simp only [endsBy, decide_eq_true_eq] at ends
  simp [overlaps]
  omega

variable {a b : Nat}

theorem MmFeature.endsBy_mono (ordered : a ≤ b) (ends : f.endsBy a = true) : f.endsBy b = true := by
  simp only [endsBy, decide_eq_true_eq] at ends ⊢
  omega

theorem firstOpen_drop (ordered : a ≤ b) :
    firstOpen fs a + firstOpen (fs.drop (firstOpen fs a)) b = firstOpen fs b := by
  generalize count : firstOpen fs a = n
  have ended : ∀ f ∈ fs.take n, f.endsBy b = true := by
    intro f mem
    obtain ⟨i, lt, rfl⟩ := getElem_of_mem mem
    rw [getElem_take]
    have below : i < firstOpen fs a := by rw [count]; exact lt_of_lt_of_le lt (length_take_le n fs)
    exact endsBy_mono ordered
      (endsBy_of_lt_firstOpen below (getElem?_eq_getElem _))
  have length : (fs.take n).length = n := by
    rw [length_take]
    have : fs.findIdx (fun f => !f.endsBy a) ≤ fs.length := findIdx_le_length
    unfold firstOpen at count
    omega
  conv_rhs => rw [← take_append_drop n fs, firstOpen, findIdx_append]
  have none : ¬ (fs.take n).findIdx (fun f => !f.endsBy b) < (fs.take n).length := by
    intro found
    have here : (!((fs.take n)[(fs.take n).findIdx fun f => !f.endsBy b]).endsBy b) = true :=
      findIdx_getElem (w := found)
    rw [ended _ (getElem_mem found)] at here
    cases here
  rw [if_neg none, length, firstOpen]
  omega

theorem overlapKeys_take_firstOpen (fs : List MmFeature) (start stop : Nat) :
    overlapKeys (fs.take (firstOpen fs start)) start stop = [] := by
  apply overlapKeys_eq_nil
  intro f mem
  obtain ⟨i, lt, rfl⟩ := getElem_of_mem mem
  rw [getElem_take]
  exact overlaps_eq_false_of_endsBy
    (endsBy_of_lt_firstOpen (lt_of_lt_of_le lt (length_take_le _ _)) (getElem?_eq_getElem _))

def WalkPointer (features : List MmFeature) (tokenIdx : Nat) (idx : Int) : Prop :=
  idx = firstOpen features tokenIdx ∨ lastEndsBy features tokenIdx

theorem lastEndsBy_mono (ordered : a ≤ b) (ends : lastEndsBy fs a) :
    lastEndsBy fs b := fun last found => endsBy_mono ordered (ends last found)

theorem genMmExtraHashKeys_ended (ends : lastEndsBy fs start)
    (stop : Nat) (idx : Int) : genMmExtraHashKeys fs start stop idx = ([], idx) := by
  unfold genMmExtraHashKeys
  split
  · rfl
  · rename_i last found
    have here := ends last found
    simp only [endsBy, decide_eq_true_eq] at here
    rw [if_pos here]

theorem genMmExtraHashKeys_open
    (ordered : startTokenIdx ≤ stop) (open_ : ¬ lastEndsBy fs startTokenIdx) (idx : Int) :
    genMmExtraHashKeys fs startTokenIdx stop idx =
      let curr := (if idx < 0 then fs.length + idx else idx).toNat
      (overlapKeys ((fs.drop curr).take (firstOpen (fs.drop curr) stop + 1)) startTokenIdx stop,
        ((curr + firstOpen (fs.drop curr) stop : Nat) : Int)) := by
  unfold genMmExtraHashKeys
  split
  · rename_i none
    exact absurd (fun last found => by rw [none] at found; cases found) open_
  rename_i last found
  have here : ¬ last.offset + last.length ≤ startTokenIdx := by
    intro ends
    refine open_ fun last' found' => ?_
    rw [found] at found'
    cases found'
    simpa [endsBy] using ends
  rw [if_neg here]
  simp only [mmLoop_eq ordered]

section
variable (features fs : List MmFeature) {blockSize : Nat}

theorem walk_step (s : Nat) (idx : Int) (pointer : WalkPointer fs s idx) :
    (genMmExtraHashKeys fs s (s + blockSize) idx).1 = walkKeys fs s (s + blockSize) ∧
    WalkPointer fs (s + blockSize) (genMmExtraHashKeys fs s (s + blockSize) idx).2 := by
  have ordered : s ≤ s + blockSize := le_add_right _ _
  by_cases ends : lastEndsBy fs s
  · rw [genMmExtraHashKeys_ended ends, walkKeys, if_pos ends]
    exact ⟨rfl, .inr (lastEndsBy_mono ordered ends)⟩
  have place := pointer.resolve_right ends
  have start : (if idx < 0 then (fs.length : Int) + idx else idx).toNat = firstOpen fs s := by
    rw [if_neg (by omega), place]
    rfl
  rw [genMmExtraHashKeys_open ordered ends, walkKeys, if_neg ends]
  simp only [start]
  constructor
  · conv_rhs => rw [← firstOpen_drop ordered, add_assoc, take_add, overlapKeys_append]
    rw [overlapKeys_take_firstOpen, nil_append]
  · rw [firstOpen_drop ordered]
    exact .inl rfl

def ResumePointer (tokenIdx : Nat) (idx : Int) : Prop :=
  idx = -1 ∨ idx = features.length - 1 ∨ lastEndsBy features tokenIdx

theorem resume_step (s : Nat) (idx : Int) (pointer : ResumePointer fs s idx) :
    (genMmExtraHashKeys fs s (s + blockSize) idx).1 = resumeKeys fs s (s + blockSize) ∧
    ResumePointer fs (s + blockSize) (genMmExtraHashKeys fs s (s + blockSize) idx).2 := by
  have ordered : s ≤ s + blockSize := le_add_right _ _
  by_cases ends : lastEndsBy fs s
  · rw [genMmExtraHashKeys_ended ends]
    refine ⟨(overlapKeys_eq_nil fun f mem => ?_).symm, .inr (.inr (lastEndsBy_mono ordered ends))⟩
    exact overlaps_eq_false_of_endsBy (ends f (by simpa using mem))
  · obtain ⟨last, found⟩ : ∃ last, fs.getLast? = some last := by
      by_contra none
      exact ends fun last found => absurd ⟨last, found⟩ none
    have nonempty : fs ≠ [] := by rintro rfl; cases found
    have positive := length_pos_of_ne_nil nonempty
    have start : (if idx < 0 then (fs.length : Int) + idx else idx).toNat = fs.length - 1 := by
      rcases pointer with first | later | ended
      · rw [if_pos (by omega), first]
        omega
      · rw [if_neg (by omega), later]
        omega
      · exact absurd ended ends
    have tail : fs.drop (fs.length - 1) = [last] := by
      rw [getLast?_eq_some_getLast nonempty] at found
      rw [drop_length_sub_one nonempty, Option.some.inj found]
    rw [genMmExtraHashKeys_open ordered ends, resumeKeys, found]
    simp only [start, tail]
    refine ⟨by rw [take_succ_cons, take_nil]; rfl, ?_⟩
    by_cases closed : last.endsBy (s + blockSize) = true
    · exact .inr (.inr fun last' found' => by rw [found] at found'; cases found'; exact closed)
    · have none : firstOpen [last] (s + blockSize) = 0 := by simp [firstOpen, findIdx_cons, closed]
      refine .inr (.inl ?_)
      rw [none]
      omega

end

/-! ### One call of the hasher -/

namespace Hasher
variable (hasher h : Hasher)

def callKeys (features : List MmFeature) (hashed : Nat) (s : Nat) : List ExtraKey :=
  if hashed = 0 then walkKeys features s (s + hasher.blockSize) else resumeKeys features s
    (s + hasher.blockSize)

theorem requestBlockHasher_eq (r : Request) (full : r.blockHashes.length * h.blockSize ≤ r.numTokens) :
    h.requestBlockHasher r = chain h.hashBlockTokens r.blockHashes.getLast?
        (h.blocks r (h.callKeys r.mmFeatures r.blockHashes.length) (r.blockHashes.length * h.blockSize)
          (r.numTokens / h.blockSize - r.blockHashes.length)) := by
  have positive := h.positive
  have rounds : (r.numTokens - r.blockHashes.length * h.blockSize) / h.blockSize =
      r.numTokens / h.blockSize - r.blockHashes.length := by
    rw [mul_comm, sub_mul_div]
  rw [requestBlockHasher]
  split
  · rename_i short
    have none : r.numTokens / h.blockSize - r.blockHashes.length = 0 := by
      rw [← rounds]
      exact div_eq_of_lt (by omega)
    rw [none]
    rfl
  · rw [rounds]
    by_cases first : r.blockHashes.length = 0
    · have start : ¬ r.blockHashes.length * h.blockSize > 0 := by rw [first]; omega
      simp only [if_neg start]
      rw [first, zero_mul]
      refine h.hashLoop_eq r (WalkPointer r.mmFeatures) (fun s idx pointer => ?_) _ _ _ _ (.inl ?_)
      · exact (walk_step r.mmFeatures s idx pointer).imp_left fun ks => by rw [ks, callKeys, if_pos rfl]
      · -- nothing ends by token 0
        cases fs : r.mmFeatures with
        | nil => rfl
        | cons f rest =>
          have open_ : f.endsBy 0 = false := by have := f.positive; simp [endsBy]; omega
          simp [firstOpen, findIdx_cons, open_]
    · have start : r.blockHashes.length * h.blockSize > 0 := mul_pos (by omega) positive
      simp only [if_pos start]
      refine h.hashLoop_eq r (ResumePointer r.mmFeatures) (fun s idx pointer => ?_) _ _ _ _ (.inl rfl)
      exact (resume_step r.mmFeatures s idx pointer).imp_left fun ks => by rw [ks, callKeys, if_neg first]

theorem updateBlockHashes_chain (r : Request) (ks : Nat → List ExtraKey) (hashed : Nat)
    (chained : r.blockHashes = chain h.hashBlockTokens none (h.blocks r ks 0 hashed))
    (full : hashed * h.blockSize ≤ r.numTokens) (agree : ∀ k, hashed ≤ k → k < r.numTokens / h.blockSize →
      h.callKeys r.mmFeatures hashed (k * h.blockSize) = ks (k * h.blockSize)) :
        (h.updateBlockHashes r).blockHashes =
      chain h.hashBlockTokens none (h.blocks r ks 0 (r.numTokens / h.blockSize)) := by
  have length : r.blockHashes.length = hashed := by
    rw [chained, chain_length, blocks, length_map, length_range]
  have atMost : hashed ≤ r.numTokens / h.blockSize := (le_div_iff_mul_le h.positive).mpr full
  have added : h.blocks r (h.callKeys r.mmFeatures hashed) (hashed * h.blockSize)
      (r.numTokens / h.blockSize - hashed) =
      h.blocks r ks (0 + hashed * h.blockSize) (r.numTokens / h.blockSize - hashed) := by
    rw [zero_add]
    refine h.blocks_congr fun k lt => ?_
    have here := agree (hashed + k) (by omega) (by omega)
    rw [add_mul] at here
    simp only [block, here]
  have total : r.numTokens / h.blockSize = hashed + (r.numTokens / h.blockSize - hashed) := by omega
  simp only [updateBlockHashes]
  rw [requestBlockHasher_eq h r (by rw [length]; exact full), length, added]
  conv_rhs => rw [total, blocks_add, chain_append, ← chained, Option.or_none]

theorem blocks_append (r : Request) (more : List Nat) (ks : Nat → List ExtraKey) {n : Nat}
    (full : n * h.blockSize ≤ r.numTokens) :
    h.blocks { r with allTokenIds := r.allTokenIds ++ more } ks 0 n = h.blocks r ks 0 n := by
  refine h.blocks_congr fun k lt => ?_
  have within : 0 + k * h.blockSize + h.blockSize ≤ r.allTokenIds.length := by
    have := mul_le_mul_right h.blockSize lt
    rw [succ_mul] at this
    exact le_trans (by omega) full
  simp only [block, slice_append_left _ _ within]
  rfl

end Hasher

end TurboQuant.Core
