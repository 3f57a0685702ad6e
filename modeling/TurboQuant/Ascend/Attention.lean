import Mathlib.Data.List.Range
import Mathlib.Data.List.Nodup

/-!
Which key positions a query token attends on the Ascend path.
-/

namespace TurboQuant.Ascend
open List

inductive AttentionState where
  | prefillNoCache | prefillCacheHit | decodeOnly | chunkedPrefill | specDecoding
  deriving DecidableEq, Repr

inductive SpecMethod where
  | mtp | other
  deriving DecidableEq, Repr

structure RunnerConfig where
  speculative : Option SpecMethod
  enableChunkedPrefill : Bool

/-- One scheduled request: tokens computed before this step, tokens of this step, and how many of
those are not draft tokens. -/
structure Scheduled where
  numComputedTokens : Nat
  numScheduledTokens : Nat
  numValidTokens : Nat
  deriving DecidableEq

def Scheduled.seqLen (r : Scheduled) : Nat := r.numComputedTokens + r.numScheduledTokens

def buildAttnState (cfg : RunnerConfig) (batch : List Scheduled) : AttentionState :=
  let attnState :=
    if batch.all (·.numComputedTokens == 0) then .prefillNoCache
    else if batch.all (·.numScheduledTokens == 1) then
      if cfg.speculative = some .mtp then .specDecoding else .decodeOnly
    else if batch.all (·.numValidTokens == 1) then
      if cfg.speculative.isSome then .specDecoding else .chunkedPrefill
    else if cfg.enableChunkedPrefill then .chunkedPrefill
    else .prefillCacheHit
  if attnState = .specDecoding ∧ cfg.speculative ≠ some .mtp then .chunkedPrefill else attnState

def swaIntMax : Nat := 2147483647

/-- Sparse modes of the fused attention: no mask, causal, and a band of `preTokens` keys before the
diagonal. Masks are aligned at the last key. -/
inductive SparseMode where
  | all | causal | band
  deriving DecidableEq, Repr

/-- The key positions query `t` of `qLen` attends among `kvLen` valid keys. -/
def fusedAttention (mode : SparseMode) (preTokens nextTokens qLen kvLen t : Nat) : List Nat :=
  let diagonal := kvLen - qLen + t
  match mode with
  | .all => range kvLen
  | .causal => (range kvLen).filter fun j => decide (j ≤ diagonal)
  | .band => (range kvLen).filter fun j => decide (diagonal ≤ j + preTokens ∧ j ≤ diagonal + nextTokens)

section
variable (slidingWindow : Option Nat)

/-- `_forward_tq_prefill`: raw keys of the step, so the key length is the query length. -/
def forwardTqPrefill (r : Scheduled) (t : Nat) : List Nat :=
  match slidingWindow with
  | some window => fusedAttention .band window 0 r.numScheduledTokens r.numScheduledTokens t
  | none => fusedAttention .causal swaIntMax 0 r.numScheduledTokens r.numScheduledTokens t

def forwardTqDequantAttn (state : AttentionState) (r : Scheduled) (t : Nat) : List Nat :=
  if state = .decodeOnly then fusedAttention .all swaIntMax 0 1 r.seqLen t
  else
    match slidingWindow with
    | some window => fusedAttention .band window 0 r.numScheduledTokens r.seqLen t
    | none => fusedAttention .causal swaIntMax 0 r.numScheduledTokens r.seqLen t

def attendedPositions (cfg : RunnerConfig) (batch : List Scheduled) (r : Scheduled) (t : Nat) : List Nat :=
  let state := buildAttnState cfg batch
  if state = .prefillNoCache then forwardTqPrefill slidingWindow r t
  else forwardTqDequantAttn slidingWindow state r t

end

structure TokenAt (batch : List Scheduled) (r : Scheduled) (t p : Nat) : Prop where
  scheduled : r ∈ batch
  query : t < r.numScheduledTokens
  position : r.numComputedTokens + t = p

/-! ### State selection -/

variable {cfg : RunnerConfig} {batch : List Scheduled}

theorem buildAttnState_prefillNoCache
    (s : buildAttnState cfg batch = .prefillNoCache) : ∀ r ∈ batch, r.numComputedTokens = 0 := by
  by_contra cached
  have notFresh : batch.all (·.numComputedTokens == 0) = false := by
    rw [Bool.eq_false_iff]
    intro fresh
    exact cached fun r mem => by simpa using all_eq_true.mp fresh r mem
  rw [buildAttnState, notFresh] at s
  revert s
  cases cfg.speculative with
  | none => simp only [Bool.false_eq_true, if_false]; grind
  | some method => cases method <;> grind

theorem buildAttnState_decodeOnly
    (s : buildAttnState cfg batch = .decodeOnly) : ∀ r ∈ batch, r.numScheduledTokens = 1 := by
  by_contra longer
  have notSingle : batch.all (·.numScheduledTokens == 1) = false := by
    rw [Bool.eq_false_iff]
    intro single
    exact longer fun r mem => by simpa using all_eq_true.mp single r mem
  rw [buildAttnState, notSingle] at s
  grind

/-! ### Windows -/

theorem mem_band {window qLen kvLen t j : Nat} (query : t < qLen) (within : qLen ≤ kvLen) :
    j ∈ fusedAttention .band window 0 qLen kvLen t ↔ kvLen - qLen + t ≤ j + window ∧ j ≤ kvLen - qLen + t := by
  simp only [fusedAttention, mem_filter, mem_range, decide_eq_true_eq]
  omega

theorem mem_attendedPositions {window : Nat} {r : Scheduled} {t p : Nat}
    (token : TokenAt batch r t p) (j : Nat) : j ∈ attendedPositions (some window) cfg batch r t ↔
      j ≤ p ∧ (buildAttnState cfg batch = .decodeOnly ∨ p ≤ j + window) := by
  obtain ⟨scheduled, query, rfl⟩ := token
  unfold attendedPositions
  by_cases fresh : buildAttnState cfg batch = .prefillNoCache
  · have start := buildAttnState_prefillNoCache fresh r scheduled
    simp only [fresh, if_true, forwardTqPrefill, reduceCtorEq, false_or]
    rw [mem_band query (Nat.le_refl _)]
    omega
  · simp only [fresh, if_false, forwardTqDequantAttn]
    by_cases decode : buildAttnState cfg batch = .decodeOnly
    · have single := buildAttnState_decodeOnly decode r scheduled
      simp only [decode, if_true, fusedAttention, mem_range, Scheduled.seqLen, true_or, and_true]
      omega
    · simp only [decode, if_false, false_or]
      rw [Scheduled.seqLen, mem_band query (Nat.le_add_left _ _)]
      omega

/-- A token of a sliding-window layer attends the same keys in two batches exactly when both or none
of them is decode-only, or when its window reaches the start of the sequence. -/
theorem attendedPositions_same_iff (window : Nat) (cfg cfg' : RunnerConfig) (batch batch' : List Scheduled)
    (r r' : Scheduled) (t t' p : Nat) (token : TokenAt batch r t p) (token' : TokenAt batch' r' t' p) :
    (∀ j, j ∈ attendedPositions (some window) cfg batch r t ↔
      j ∈ attendedPositions (some window) cfg' batch' r' t') ↔
      (buildAttnState cfg batch = .decodeOnly ↔ buildAttnState cfg' batch' = .decodeOnly) ∨ p ≤ window := by
  simp only [mem_attendedPositions token, mem_attendedPositions token']
  constructor
  · intro same
    by_contra differs
    obtain ⟨states, long⟩ := not_or.mp differs
    -- position 0 is outside the window
    have first := same 0
    simp only [Nat.zero_le, true_and, Nat.zero_add, long, or_false] at first
    exact states first
  · rintro (states | short) j
    · rw [states]
    · have inside : p ≤ j + window := by omega
      simp only [inside, or_true]

theorem attendedPositions_same_short :
    buildAttnState ⟨none, true⟩ [⟨2, 1, 1⟩] = .decodeOnly ∧
      buildAttnState ⟨none, true⟩ [⟨1, 2, 2⟩] = .chunkedPrefill ∧
    ∀ j, j ∈ attendedPositions (some 3) ⟨none, true⟩ [⟨2, 1, 1⟩] ⟨2, 1, 1⟩ 0 ↔
      j ∈ attendedPositions (some 3) ⟨none, true⟩ [⟨1, 2, 2⟩] ⟨1, 2, 2⟩ 1 :=
  ⟨by decide, by decide,
    (attendedPositions_same_iff 3 ⟨none, true⟩ ⟨none, true⟩ [⟨2, 1, 1⟩] [⟨1, 2, 2⟩] ⟨2, 1, 1⟩ ⟨1, 2, 2⟩ 0 1 2
      ⟨by decide, by decide, rfl⟩ ⟨by decide, by decide, rfl⟩).mpr (.inr (by decide))⟩

/-- Position 5 with a window of 3: all six keys when decoded alone, four of them in a chunk. -/
theorem attendedPositions_differ_long : buildAttnState ⟨none, true⟩ [⟨5, 1, 1⟩] = .decodeOnly ∧
    attendedPositions (some 3) ⟨none, true⟩ [⟨5, 1, 1⟩] ⟨5, 1, 1⟩ 0 = [0, 1, 2, 3, 4, 5] ∧
    buildAttnState ⟨none, true⟩ [⟨4, 2, 2⟩] = .chunkedPrefill ∧
    attendedPositions (some 3) ⟨none, true⟩ [⟨4, 2, 2⟩] ⟨4, 2, 2⟩ 1 = [2, 3, 4, 5] := by
  decide

end TurboQuant.Ascend
