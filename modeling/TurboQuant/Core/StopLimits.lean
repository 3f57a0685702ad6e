import TurboQuant.Core.Scheduler

/-!
When a request stops: its length limits along all its updates, with the number of tokens that
`schedule` then has for it, and repeated patterns at the end of its output.
-/

namespace TurboQuant.Core
open List Nat

structure StepLimits where
  tokenBudget : Nat
  longPrefillTokenThreshold : Nat

/-- `num_new_tokens` of a running request in `schedule`, with no output in flight. -/
def StepLimits.numNewTokens (limits : StepLimits) (maxModelLen : Nat) (r : EngineRequest)
    (numSpecTokens : Nat) : Int :=
  let wanted : Int := r.numTokens + numSpecTokens - r.numComputedTokens
  let cut := if 0 < limits.longPrefillTokenThreshold ∧ limits.longPrefillTokenThreshold < wanted then
    (limits.longPrefillTokenThreshold : Int) else wanted
  min (min cut limits.tokenBudget) (maxModelLen - 1 - r.numComputedTokens)

namespace EngineRequest

def update (hasher : Hasher) (maxModelLen : Nat) (r : EngineRequest) (batch : List Nat) : EngineRequest :=
  if r.status.isFinished then r else (updateRequestWithOutput hasher maxModelLen r batch).1

structure WithinLimits (maxModelLen : Nat) (r : EngineRequest) : Prop where
  kept : r.numTokens ≤ maxModelLen ∧ r.outputTokenIds.length ≤ r.maxTokens
  unfinished : r.status.isFinished = false → r.numTokens < maxModelLen ∧ r.outputTokenIds.length < r.maxTokens
  scheduled : r.status.isFinished = false →
    ∀ (limits : StepLimits) (numComputedTokens : Int) (numSpecTokens : Nat),
    numComputedTokens < r.numTokens → 0 < limits.tokenBudget →
      0 < limits.numNewTokens maxModelLen { r with numComputedTokens := numComputedTokens } numSpecTokens

def room (maxModelLen : Nat) (r : EngineRequest) : Nat := min r.maxTokens (maxModelLen - r.numTokens)

/-- A later state of a request that had no outputs. -/
structure Continues (start r : EngineRequest) : Prop where
  maxTokens : r.maxTokens = start.maxTokens
  samplingParams : r.samplingParams = start.samplingParams
  numTokens : r.numTokens = start.numTokens + r.outputTokenIds.length

/-- The room is only used up when the request stops. -/
structure Bounded (maxModelLen : Nat) (start r : EngineRequest) : Prop extends Continues start r where
  most : r.outputTokenIds.length ≤ start.room maxModelLen
  below : r.status.isFinished = false → r.outputTokenIds.length < start.room maxModelLen

section
variable {h : Hasher} {maxModelLen len : Nat} {start r : EngineRequest}

theorem checkStop_isFinished {status : RequestStatus} (stops : checkStop r len = some status) :
    status.isFinished = true := by
  unfold checkStop at stops
  split at stops
  · cases stops
  dsimp only at stops
  repeat' split at stops
  all_goals cases stops
  all_goals rfl

theorem checkStop_none (goesOn : checkStop r len = none) :
    r.outputTokenIds.length < r.samplingParams.minTokens ∨
    r.numTokens < len ∧ r.outputTokenIds.length < r.maxTokens := by
  unfold checkStop at goesOn
  split at goesOn
  · rename_i few
    exact .inl few
  · dsimp only at goesOn
    repeat' split at goesOn
    all_goals cases goesOn
    exact .inr (by omega)

theorem length_append_token (h : Hasher) (t : Nat) :
    (r.appendOutputTokenIds h [t]).outputTokenIds.length = r.outputTokenIds.length + 1 := length_append

theorem Continues.append (continues : Continues start r) (t : Nat) :
    Continues start (r.appendOutputTokenIds h [t]) where
  maxTokens := continues.maxTokens
  samplingParams := continues.samplingParams
  numTokens := by
    have grown : (r.appendOutputTokenIds h [t]).numTokens = r.numTokens + 1 := length_append
    rw [grown, length_append_token, continues.numTokens, add_assoc]

/-- Before the request has `min_tokens` outputs nothing stops it. -/
theorem updateRequestWithOutput_few {batch : List Nat} (continues : Continues start r)
    (few : r.outputTokenIds.length + batch.length < start.samplingParams.minTokens)
    {r' : EngineRequest} {stopped : Bool}
    (ran : updateRequestWithOutput h len r batch = (r', stopped)) :
    Continues start r' ∧ r'.status = r.status ∧
      r'.outputTokenIds.length = r.outputTokenIds.length + batch.length := by
  induction batch generalizing r with
  | nil =>
    cases ran
    exact ⟨continues, rfl, rfl⟩
  | cons t rest ih =>
    have next : Continues start (r.appendOutputTokenIds h [t]) := continues.append t
    rw [length_cons, add_comm rest.length, ← add_assoc, ← length_append_token h t] at few ⊢
    have goesOn : checkStop (r.appendOutputTokenIds h [t]) len = none := by
      rw [checkStop, if_pos]
      rw [next.samplingParams]
      exact (le_add_right _ _).trans_lt few
    unfold updateRequestWithOutput at ran
    simp only [goesOn] at ran
    exact ih next few ran

theorem updateRequestWithOutput_bounded {batch : List Nat}
    (early : start.samplingParams.minTokens ≤ start.room len)
    (continues : Continues start r) (below : r.outputTokenIds.length < start.room len)
    {r' : EngineRequest} {stopped : Bool}
    (ran : updateRequestWithOutput h len r batch = (r', stopped)) : Bounded len start r' := by
  induction batch generalizing r with
  | nil =>
    cases ran
    exact ⟨continues, below.le, fun _ => below⟩
  | cons t rest ih =>
    have next : Continues start (r.appendOutputTokenIds h [t]) := continues.append t
    unfold updateRequestWithOutput at ran
    dsimp only at ran
    split at ran
    · rename_i status stops
      cases ran
      refine ⟨⟨next.maxTokens, next.samplingParams, next.numTokens⟩,
        (length_append_token h t).trans_le below, fun goesOn => ?_⟩
      exact absurd (checkStop_isFinished stops) (by rw [goesOn]; decide)
    · rename_i goesOn
      refine ih next ?_ ran
      have tokens := next.numTokens
      have limits := checkStop_none goesOn
      rw [next.samplingParams, next.maxTokens] at limits
      unfold room at *
      omega

theorem Bounded.withinLimits (bounded : Bounded maxModelLen start r)
    (some : 0 < start.room maxModelLen) : r.WithinLimits maxModelLen := by
  obtain ⟨⟨maxTokens, -, tokens⟩, most, below⟩ := bounded
  unfold room at *
  refine ⟨by omega, fun unfinished => ?_, fun unfinished limits computed numSpecTokens position budget => ?_⟩
  · have := below unfinished
    omega
  · have := below unfinished
    unfold StepLimits.numNewTokens
    dsimp only
    split <;> omega

end

/-- A fresh request stays within its limits, however the accepted tokens come, exactly if the limits
leave room for an output and for `min_tokens` of them. -/
theorem updates_within_iff (hasher : Hasher) (maxModelLen : Nat) (start : EngineRequest)
    (fresh : start.outputTokenIds = []) (unfinished : start.status.isFinished = false) :
    (∀ batches : List (List Nat), (batches.foldl (update hasher maxModelLen) start).WithinLimits maxModelLen) ↔
      0 < start.room maxModelLen ∧ start.samplingParams.minTokens ≤ start.room maxModelLen := by
  have first : Continues start start := ⟨rfl, rfl, by rw [fresh]; rfl⟩
  constructor
  · intro within
    constructor
    · have begins := (within []).unfinished unfinished
      exact Nat.lt_min.mpr ⟨Nat.zero_lt_of_lt begins.2, Nat.sub_pos_of_lt begins.1⟩
    by_contra late
    -- as many tokens as there is room for, in one step
    obtain ⟨⟨maxTokens, -, tokens⟩, status, length⟩ := @updateRequestWithOutput_few hasher maxModelLen _ _
      (replicate (start.room maxModelLen) 0) first (by simpa [fresh] using late) _ _ rfl
    have full := within [replicate (start.room maxModelLen) 0]
    rw [foldl_cons, foldl_nil, update, unfinished, if_neg Bool.false_ne_true] at full
    have more := full.unfinished (status ▸ unfinished)
    rw [tokens, length, maxTokens, fresh, length_replicate, length_nil, room] at more
    omega
  · rintro ⟨some, early⟩ batches
    refine Bounded.withinLimits ?_ some
    refine foldlRecOn batches _ ⟨first, by simp [fresh], fun _ => by simpa [fresh] using some⟩
      fun r bounded batch _ => ?_
    unfold update
    split
    · exact bounded
    · rename_i goesOn
      exact updateRequestWithOutput_bounded early bounded.toContinues
        (bounded.below (by simpa using goesOn)) rfl

def twoTokenPrompt (minTokens : Nat) : EngineRequest :=
  RequestArgs.unhashed ⟨"a", some [1, 2], none, [], none, none, 9, ⟨minTokens, none, [], none⟩, false, false⟩ 2

theorem updates_within_two : (twoTokenPrompt 2).room 4 = 2 ∧
    ([[5], [6, 7]].foldl (update ⟨4, by decide, [], fun _ => []⟩ 4) (twoTokenPrompt 2)).WithinLimits 4 := by
  exact ⟨rfl, (updates_within_iff _ 4 (twoTokenPrompt 2) rfl rfl).mpr (by decide) _⟩

/-- With three tokens asked for, the request is at its maximum length, unfinished, and gets no
further token. -/
theorem updates_beyond_model_len :
    let r := [[5], [6]].foldl (update ⟨4, by decide, [], fun _ => []⟩ 4) (twoTokenPrompt 3)
    r.numTokens = 4 ∧ r.status.isFinished = false ∧
      (StepLimits.mk 100 0).numNewTokens 4 { r with numComputedTokens := 3 } 0 = 0 ∧ ¬ r.WithinLimits 4 :=
  ⟨rfl, rfl, rfl, fun within => absurd (within.unfinished rfl).1 (by decide)⟩

end EngineRequest

/-! ### Repeated patterns -/

section
variable (tokenIds : List Nat)

/-- `_has_repeating_pattern`, with reads that fail outside the list. -/
def readRepeatingPattern (patternLen repetitionMinCount : Nat) : Option Bool :=
  (range' 1 patternLen).allM fun n => do
    let targetToken ← tokenIds.reverse[n - 1]?
    (range' 1 (repetitionMinCount - 1)).allM fun m => do
      let token ← tokenIds.reverse[patternLen * m + n - 1]?
      return token == targetToken

def readRepetition (minCount : Nat) : List Nat → Option Bool
  | [] => some false
  | patternLen :: rest =>
    if patternLen * minCount > tokenIds.length then some false
    else do
      if ← readRepeatingPattern tokenIds patternLen minCount then return true
      readRepetition minCount rest

def EndsWithCopies (patternLen minCount : Nat) : Prop :=
  ∃ count pattern, minCount ≤ count ∧ pattern.length = patternLen ∧
    (replicate count pattern).flatten <:+ tokenIds

variable {ids : List Nat} {len count : Nat}

theorem allM_eq_some {α : Type} {p : α → Option Bool} {q : α → Bool} {xs : List α}
    (each : ∀ x ∈ xs, p x = some (q x)) : xs.allM p = some (xs.all q) := by
  induction xs with
  | nil => rfl
  | cons x xs ih =>
    rw [List.allM, each x mem_cons_self, ih fun x mem => each x (mem_cons_of_mem _ mem)]
    cases here : q x <;> simp [here]

theorem readRepeatingPattern_eq (fits : len * count ≤ ids.length) (pos : 0 < count) :
    readRepeatingPattern ids len count = some (hasRepeatingPattern ids.reverse len count) := by
  refine allM_eq_some fun n mem => ?_
  rw [mem_range'_1] at mem
  have within : ∀ m < count, len * m + n - 1 < ids.reverse.length := by
    intro m lt
    have := Nat.mul_le_mul_left len lt
    rw [mul_succ] at this
    rw [length_reverse]
    omega
  have first := within 0 pos
  rw [mul_zero, zero_add] at first
  rw [getElem?_eq_getElem first, Option.bind_eq_bind, Option.bind_some]
  refine allM_eq_some fun m mem => ?_
  rw [mem_range'_1] at mem
  rw [getElem?_eq_getElem (within m (by omega))]
  rfl

theorem readRepetition_eq (pos : 0 < count) (lens : List Nat) :
    readRepetition ids count lens = some (repetitionLoop ids count lens) := by
  induction lens with
  | nil => rfl
  | cons len rest ih =>
    rw [readRepetition, repetitionLoop]
    split
    · rfl
    · rename_i fits
      rw [readRepeatingPattern_eq (by omega) pos, ih]
      cases hasRepeatingPattern ids.reverse len count <;> rfl

theorem hasRepeatingPattern_iff {reversed : List Nat} : hasRepeatingPattern reversed len count = true ↔
    ∀ m, 0 < m → m < count → (reversed.drop (len * m)).take len = reversed.take len := by
  simp only [hasRepeatingPattern, all_eq_true, mem_range'_1, beq_iff_eq]
  constructor
  · intro same m pos lt
    refine ext_getElem? fun i => ?_
    rw [getElem?_take, getElem?_take, getElem?_drop]
    split
    · exact same (i + 1) (by omega) m (by omega)
    · rfl
  · intro same n inside m mem
    have here := congrArg (·[n - 1]?) (same m (by omega) (by omega))
    rw [getElem?_take, getElem?_take, getElem?_drop, if_pos (by omega), if_pos (by omega)] at here
    rw [← here, Nat.add_sub_assoc inside.1]

theorem copies_prefix_iff {pattern xs : List Nat} : (replicate count pattern).flatten <+: xs ↔
    ∀ m < count, pattern <+: xs.drop (pattern.length * m) := by
  induction count generalizing xs with
  | zero => simp
  | succ count ih =>
    have first : pattern ++ (replicate count pattern).flatten <+: xs ↔
        pattern <+: xs ∧ (replicate count pattern).flatten <+: xs.drop pattern.length := by
      constructor
      · rintro ⟨rest, rfl⟩
        rw [append_assoc, drop_left]
        exact ⟨prefix_append _ _, prefix_append _ _⟩
      · rintro ⟨⟨rest, rfl⟩, later⟩
        rw [drop_left] at later
        exact (prefix_append_right_inj _).mpr later
    rw [replicate_succ, flatten_cons, first, ih, Nat.forall_lt_succ_left]
    simp only [drop_drop, mul_succ, mul_zero, drop_zero, Nat.add_comm]

theorem endsWithCopies_iff (pos : 0 < count) : EndsWithCopies ids len count ↔
    len * count ≤ ids.length ∧ hasRepeatingPattern ids.reverse len count = true := by
  have turned : ∀ {n : Nat} {pattern : List Nat}, (replicate n pattern).flatten <:+ ids ↔
      ∀ m < n, pattern.reverse <+: ids.reverse.drop (pattern.length * m) := by
    intro n pattern
    rw [← reverse_prefix, reverse_flatten, map_replicate, reverse_replicate, copies_prefix_iff, length_reverse]
  rw [hasRepeatingPattern_iff]
  constructor
  · rintro ⟨n, pattern, many, rfl, copies⟩
    have long := copies.length_le
    rw [length_flatten, map_replicate, sum_replicate_nat, Nat.mul_comm] at long
    refine ⟨(Nat.mul_le_mul_left _ many).trans long, fun m _ lt => ?_⟩
    have each : ∀ m < n, (ids.reverse.drop (pattern.length * m)).take pattern.length = pattern.reverse := by
      intro m lt
      have here := prefix_iff_eq_take.mp (turned.mp copies m lt)
      rw [length_reverse] at here
      exact here.symm
    have begins := each 0 (by omega)
    rw [each m (by omega), ← begins, mul_zero, drop_zero]
  · rintro ⟨fits, same⟩
    have long : (ids.reverse.take len).length = len := by
      have := Nat.le_mul_of_pos_right len pos
      rw [length_take, length_reverse]
      omega
    refine ⟨count, (ids.reverse.take len).reverse, le_rfl, by rw [length_reverse,
      long], turned.mpr fun m lt => ?_⟩
    rw [reverse_reverse, length_reverse, long]
    rcases Nat.eq_zero_or_pos m with rfl | more
    · rw [mul_zero, drop_zero]
      exact take_prefix _ _
    · rw [← same m more lt]
      exact take_prefix _ _

theorem repetitionLoop_iff (pos : 0 < count) (first n : Nat) :
    repetitionLoop ids count (range' first n) = true ↔
    ∃ len, first ≤ len ∧ len < first + n ∧ EndsWithCopies ids len count := by
  induction n generalizing first with
  | zero =>
    simp only [range'_zero, repetitionLoop, Bool.false_eq_true, false_iff]
    omega
  | succ n ih =>
    rw [range'_succ, repetitionLoop]
    split
    · rename_i long
      simp only [Bool.false_eq_true, false_iff, not_exists, not_and]
      intro len least _ copies
      have := Nat.mul_le_mul_right count least
      have := ((endsWithCopies_iff pos).mp copies).1
      omega
    · rename_i fits
      have here : hasRepeatingPattern ids.reverse first count = true ↔ EndsWithCopies ids first count := by
        rw [endsWithCopies_iff pos]
        exact (and_iff_right (by omega)).symm
      split
      · rename_i found
        exact iff_of_true rfl ⟨first, le_rfl, by omega, here.mp found⟩
      rename_i missed
      rw [ih]
      refine exists_congr fun len => ?_
      have other : EndsWithCopies ids len count → len ≠ first := by
        rintro copies rfl
        exact missed (here.mpr copies)
      constructor
      · rintro ⟨low, high, copies⟩
        exact ⟨by omega, by omega, copies⟩
      · rintro ⟨low, high, copies⟩
        have := other copies
        exact ⟨by omega, by omega, copies⟩

/-- A repetition is found exactly if the tokens end with enough copies of a pattern of an admitted
length, and no read is outside the tokens. -/
theorem checkSequenceRepetition_iff (params : RepetitionDetectionParams) (twice : 2 ≤ params.minCount) :
    (checkSequenceRepetition tokenIds params = true ↔ ∃ len : Nat, max 1 params.minPatternSize ≤ len ∧
      len ≤ params.maxPatternSize ∧ EndsWithCopies tokenIds len params.minCount.toNat) ∧
    ∀ lens, readRepetition tokenIds params.minCount.toNat lens =
      some (repetitionLoop tokenIds params.minCount.toNat lens) := by
  refine ⟨?_, readRepetition_eq (by omega)⟩
  have least : (if params.minPatternSize ≤ 0 then 1 else params.minPatternSize) =
      max 1 params.minPatternSize := by
    split <;> omega
  unfold checkSequenceRepetition
  rw [least]
  dsimp only
  split
  · rename_i refused
    refine iff_of_false Bool.false_ne_true ?_
    rintro ⟨len, low, high, -⟩
    omega
  · rw [repetitionLoop_iff (by omega)]
    refine exists_congr fun len => ?_
    rw [← and_assoc, ← and_assoc]
    exact and_congr_left' (by omega)

theorem checkSequenceRepetition_two : checkSequenceRepetition [7, 1, 2, 1, 2] ⟨3, 0, 2⟩ = true ∧
    ∃ len : Nat, max 1 0 ≤ (len : Int) ∧ (len : Int) ≤ 3 ∧ EndsWithCopies [7, 1, 2, 1, 2] len 2 :=
  ⟨rfl, (checkSequenceRepetition_iff _ ⟨3, 0, 2⟩ (by decide)).1.mp rfl⟩

end

end TurboQuant.Core
