import TurboQuant.Lib.OnlineSoftmax
import TurboQuant.Triton.Decode

/-!
The two stages of the split-KV decode attention for one request and one head, in exact arithmetic.
Scores and values are given by position; `δ` indexes the coordinates of the head that are stored. A
row of the intermediate buffer that holds no number is `none`.
-/

namespace TurboQuant.Triton
open OnlineSoftmax List Nat Function

variable {α δ : Type*} [Field α] [LinearOrder α] (E : ExpLog α) (score : Nat → α) (value : Nat → δ → α)

abbrev MidO (α δ : Type*) := Nat → Option (Lane α δ)

def lane (pos : Nat) : Lane α δ := ⟨score pos, value pos⟩

/-- Lanes past the end of the split have the score minus infinity and the value zero. -/
def tileLanes (blockKv splitEnd startN : Nat) : List (Lane α δ) :=
  ((range blockKv).map (startN + ·)).map (maskLane (lane score value) (· < splitEnd))

/-- The online softmax over one split, in tiles of `blockKv` positions. -/
def splitRow (blockKv splitStart splitEnd : Nat) : Option (Lane α δ) :=
  let starts := range' splitStart (cdiv (splitEnd - splitStart) blockKv) blockKv
  ((starts.map (tileLanes score value blockKv splitEnd)).foldlM (absorb E) start).map (finish E)

section
variable (seqLen numKvSplits : Nat)

/-- Program `sid` of `_tq_decode_stage1`: an empty split leaves its row alone. -/
def tqDecodeStage1 (blockKv : Nat) (midO : MidO α δ) (sid : Nat) : MidO α δ :=
  let splitLen := cdiv seqLen numKvSplits
  let splitStart := splitLen * sid
  let splitEnd := min (splitStart + splitLen) seqLen
  if splitStart ≥ splitEnd then midO
  else update midO sid (splitRow E score value blockKv splitStart splitEnd)

/-- One round of the loop of `_fwd_kernel_stage2`. -/
def stage2Round (midO : MidO α δ) (s : Running α δ) (splitKvId : Nat) :
    Option (Running α δ) :=
  let kvLenPerSplit := cdiv seqLen numKvSplits
  let splitKvStart := kvLenPerSplit * splitKvId
  let splitKvEnd := min (splitKvStart + kvLenPerSplit) seqLen
  if splitKvEnd > splitKvStart then (midO splitKvId).bind fun row => absorb E s [row] else some s

def fwdKernelStage2 (midO : MidO α δ) : Option (δ → α) :=
  ((range numKvSplits).foldlM (stage2Round E seqLen numKvSplits midO) start).bind fun s => quotient s.acc s.sum

/-- The programs of the first stage run in some order, on a buffer that earlier calls have used. -/
def turboquantDecodeAttention (blockKv : Nat) (order : List Nat) (stale : MidO α δ) :
    Option (δ → α) :=
  fwdKernelStage2 E seqLen numKvSplits
    (order.foldl (tqDecodeStage1 E score value seqLen numKvSplits blockKv) stale)

end

/-- The softmax-weighted average over the positions below `seqLen`. -/
def softmaxAverage (seqLen : Nat) : Option (δ → α) :=
  quotient (fun d => ((range seqLen).map fun pos => E.exp (score pos) * value pos d).sum)
    ((range seqLen).map fun pos => E.exp (score pos)).sum

/-! ### Stage 1 -/

section
variable {seqLen sl numKvSplits blockKv sid : Nat}

def stage1Row (seqLen numKvSplits blockKv sid : Nat) : Option (Lane α δ) :=
  splitRow E score value blockKv (cdiv seqLen numKvSplits * sid)
    (min (cdiv seqLen numKvSplits * sid + cdiv seqLen numKvSplits) seqLen)

def HasPositions (seqLen numKvSplits sid : Nat) : Prop := cdiv seqLen numKvSplits * sid < seqLen

theorem tqDecodeStage1_of_empty (empty : ¬ HasPositions sl numKvSplits sid) (midO : MidO α δ) :
    tqDecodeStage1 E score value sl numKvSplits blockKv midO sid = midO := by
  unfold HasPositions at empty
  exact if_pos (by omega)

section
variable (used : HasPositions sl numKvSplits sid) (n : 0 < numKvSplits)
include used n

theorem splitLen_pos : 0 < cdiv sl numKvSplits := by
  rcases Nat.eq_zero_or_pos (cdiv sl numKvSplits) with none | pos
  · have covered := le_cdiv_mul sl n
    unfold HasPositions at used
    rw [none] at covered used
    omega
  · exact pos

theorem tqDecodeStage1_of_used (midO : MidO α δ) :
    tqDecodeStage1 E score value sl numKvSplits blockKv midO sid =
      update midO sid (stage1Row E score value sl numKvSplits blockKv sid) := by
  have positive := splitLen_pos used n
  unfold HasPositions at used
  exact if_neg (by omega)

end

theorem foldl_stage1 (n : 0 < numKvSplits) (order : List Nat) (stale : MidO α δ)
    (used : HasPositions sl numKvSplits sid) :
    order.foldl (tqDecodeStage1 E score value sl numKvSplits blockKv) stale sid =
      if sid ∈ order then stage1Row E score value sl numKvSplits blockKv sid else stale sid := by
  induction order generalizing stale with
  | nil => rfl
  | cons first rest ih =>
    rw [foldl_cons, ih]
    by_cases later : sid ∈ rest
    · rw [if_pos later, if_pos (mem_cons_of_mem _ later)]
    rw [if_neg later]
    by_cases same : sid = first
    · subst same
      rw [tqDecodeStage1_of_used E score value used n, update_self, if_pos mem_cons_self]
    · rw [if_neg (by simp [same, later])]
      by_cases others : HasPositions sl numKvSplits first
      · rw [tqDecodeStage1_of_used E score value others n, update_of_ne same]
      · rw [tqDecodeStage1_of_empty E score value others]

section
variable (blockKv splitEnd : Nat) (starts : List Nat)

theorem mass_tiles : mass E (starts.map (tileLanes score value blockKv splitEnd)).flatten =
      mass E ((starts.flatMap fun startN => ((range blockKv).map (startN + ·)).filter (· < splitEnd)).map
        (lane score value)) := by
  induction starts with
  | nil => rfl
  | cons startN rest ih =>
    rw [map_cons, flatten_cons, mass_append, ih, flatMap_cons, map_append, mass_append, tileLanes,
      mass_maskLane]

theorem moment_tiles (d : δ) : moment E (starts.map (tileLanes score value blockKv splitEnd)).flatten d =
      moment E ((starts.flatMap fun startN => ((range blockKv).map (startN + ·)).filter (· < splitEnd)).map
        (lane score value)) d := by
  induction starts with
  | nil => rfl
  | cons startN rest ih =>
    rw [map_cons, flatten_cons, moment_append, ih, flatMap_cons, map_append, moment_append,
      tileLanes, moment_maskLane]

end

omit [LinearOrder α] in
theorem tile_finite (pos : 0 < blockKv) {splitStart splitEnd : Nat} (within : splitStart < splitEnd) :
    ∀ tile ∈ (range' splitStart (cdiv (splitEnd - splitStart) blockKv) blockKv).map
      (tileLanes score value blockKv splitEnd), ∃ lane ∈ tile, lane.score ≠ ⊥ := by
  intro tile mem
  obtain ⟨startN, among, rfl⟩ := mem_map.mp mem
  obtain ⟨k, bound, rfl⟩ := mem_range'.mp among
  have inside : splitStart + blockKv * k < splitEnd := by
    have last : blockKv * k ≤ splitEnd - splitStart - 1 := by
      have below : k ≤ (splitEnd - splitStart - 1) / blockKv := by
        unfold cdiv at bound
        rw [show splitEnd - splitStart + blockKv - 1 = splitEnd - splitStart - 1 + blockKv by omega,
          add_div_right _ pos] at bound
        omega
      exact (mul_le_mul_left _ below).trans (mul_div_le _ _)
    omega
  refine ⟨_, mem_map.mpr ⟨_, mem_map.mpr ⟨0, mem_range.mpr pos, rfl⟩, rfl⟩, ?_⟩
  rw [maskLane, if_pos (by simpa using inside)]
  exact WithBot.coe_ne_bot

variable [IsStrictOrderedRing α]

theorem splitRow_spec (pos : 0 < blockKv) {splitStart splitEnd : Nat} (within : splitStart < splitEnd) :
    let positions := (range' splitStart (cdiv (splitEnd - splitStart) blockKv) blockKv).flatMap fun startN =>
      ((range blockKv).map (startN + ·)).filter (· < splitEnd)
    ∃ row, splitRow E score value blockKv splitStart splitEnd = some row ∧
      Sums E row (positions.map (lane score value)) := by
  have finite := tile_finite score value pos within
  obtain ⟨s, ran, top, holds⟩ := (Holds.start E).absorbAll E _ finite
  have tiled : range' splitStart (cdiv (splitEnd - splitStart) blockKv) blockKv ≠ [] := by
    rw [Ne, range'_eq_nil_iff]
    exact (Nat.div_pos (by omega) pos).ne'
  obtain ⟨startN, among⟩ := exists_mem_of_ne_nil _ tiled
  obtain ⟨lane, mem, score⟩ := finite _ (mem_map.mpr ⟨startN, among, rfl⟩)
  have weighs := mass_pos E ⟨lane, mem_flatten.mpr ⟨_, mem_map.mpr ⟨startN, among, rfl⟩, mem⟩, score⟩
  obtain ⟨finiteRow, rowMass, rowMoment⟩ :=
    holds.finish E (top (.inl (mt map_eq_nil_iff.mp tiled))) (by rwa [zero_add])
  refine ⟨finish E s, by rw [splitRow, ran]; rfl, finiteRow, ?_, fun d => ?_⟩
  · rw [rowMass, zero_add, mass_tiles]
  · rw [rowMoment, zero_add, moment_tiles]

theorem stage1Row_spec (n : 0 < numKvSplits) (pos : 0 < blockKv) (used : HasPositions seqLen numKvSplits sid) :
    ∃ row, stage1Row E score value seqLen numKvSplits blockKv sid = some row ∧
      Sums E row ((stage1Positions seqLen numKvSplits blockKv sid).map (lane score value)) := by
  have width := splitLen_pos used n
  have within : cdiv seqLen numKvSplits * sid <
      min (cdiv seqLen numKvSplits * sid + cdiv seqLen numKvSplits) seqLen := by
    unfold HasPositions at used
    omega
  have visited := splitRow_spec E score value pos within
  rwa [stage1Positions, if_neg (by omega)]

end

/-! ### Stage 2 -/

section
variable {sl numKvSplits : Nat} {midO : MidO α δ}

theorem stage2Round_of_empty {sid : Nat} (empty : ¬ HasPositions sl numKvSplits sid) (s : Running α δ) :
    stage2Round E sl numKvSplits midO s sid = some s := by
  unfold HasPositions at empty
  exact if_neg (by omega)

theorem stage2Round_of_used {sid : Nat} (n : 0 < numKvSplits) (used : HasPositions sl numKvSplits sid)
    {row : Lane α δ} (loaded : midO sid = some row) (s : Running α δ) :
    stage2Round E sl numKvSplits midO s sid = absorb E s [row] := by
  have width := splitLen_pos used n
  unfold HasPositions at used
  rw [stage2Round, if_pos (by omega), loaded]
  rfl

theorem stage2_idle (ids : List Nat) (empty : ∀ sid ∈ ids, ¬ HasPositions sl numKvSplits sid)
    (s : Running α δ) : ids.foldlM (stage2Round E sl numKvSplits midO) s = some s := by
  induction ids with
  | nil => rfl
  | cons sid rest ih =>
    rw [foldlM_cons, stage2Round_of_empty E (empty sid mem_cons_self)]
    exact ih fun sid later => empty sid (mem_cons_of_mem _ later)

theorem stage2_holds (n : 0 < numKvSplits) (positions : Nat → List (Lane α δ)) (ids : List Nat)
    (empty : ∀ sid ∈ ids, ¬ HasPositions sl numKvSplits sid → positions sid = [])
    (rows : ∀ sid ∈ ids, HasPositions sl numKvSplits sid → ∃ row, midO sid = some row ∧
      Sums E row (positions sid))
    {s : Running α δ} {total : α} {first : δ → α} (holds : Holds E s total first) :
    ∃ s', ids.foldlM (stage2Round E sl numKvSplits midO) s = some s' ∧
      ((∃ sid ∈ ids, HasPositions sl numKvSplits sid) ∨ s.top ≠ ⊥ → s'.top ≠ ⊥) ∧
      Holds E s' (total + mass E (ids.flatMap positions)) fun d =>
        first d + moment E (ids.flatMap positions) d := by
  induction ids generalizing s total first with
  | nil => exact ⟨s, rfl, fun reached => reached.resolve_left (by simp), by simpa using holds⟩
  | cons sid rest ih =>
    have emptyRest := fun sid (later : sid ∈ rest) => empty sid (mem_cons_of_mem _ later)
    have rowsRest := fun sid (later : sid ∈ rest) => rows sid (mem_cons_of_mem _ later)
    rw [foldlM_cons, flatMap_cons]
    by_cases used : HasPositions sl numKvSplits sid
    · obtain ⟨row, loaded, sums⟩ := rows sid mem_cons_self used
      obtain ⟨s₁, ran, top, holds₁⟩ := holds.absorb E ⟨row, mem_singleton.mpr rfl, sums.finite⟩
      obtain ⟨s', ranRest, top', holds'⟩ := ih emptyRest rowsRest holds₁
      refine ⟨s', ?_, fun _ => top' (.inr top), ?_⟩
      · rwa [stage2Round_of_used E n used loaded, ran]
      · simpa only [mass_append, moment_append, sums.mass, sums.moment, add_assoc] using holds'
    · obtain ⟨s', ranRest, top', holds'⟩ := ih emptyRest rowsRest holds
      refine ⟨s', ?_, fun reached => top' ?_, ?_⟩
      · rwa [stage2Round_of_empty E used]
      · rcases reached with ⟨other, mem, has⟩ | top
        · rcases mem_cons.mp mem with rfl | later
          · exact absurd has used
          · exact .inl ⟨other, later, has⟩
        · exact .inr top
      · rwa [empty sid mem_cons_self used, nil_append]

end

theorem softmaxAverage_eq (sl : Nat) : softmaxAverage E score value sl =
      quotient (moment E ((range sl).map (lane score value)))
        (mass E ((range sl).map (lane score value))) := by
  simp only [softmaxAverage, mass, map_map]
  congr 1
  funext d
  simp only [moment, map_map]
  rfl

/-- For every sequence length, split count, tile size, order of the programs and old buffer content,
the two stages compute the softmax average over the positions below the sequence length. -/
theorem turboquantDecodeAttention_eq [IsStrictOrderedRing α] (seqLen : Nat) {numKvSplits blockKv : Nat}
    (splits : 0 < numKvSplits) (tile : 0 < blockKv) {order : List Nat}
    (programs : order.Perm (range numKvSplits))
    (stale : MidO α δ) : turboquantDecodeAttention E score value seqLen numKvSplits blockKv order stale =
      softmaxAverage E score value seqLen := by
  rw [turboquantDecodeAttention, fwdKernelStage2, softmaxAverage_eq]
  rcases Nat.eq_zero_or_pos seqLen with rfl | some
  · -- no position at all: neither side is a number
    rw [stage2_idle E _ fun sid _ => not_lt_zero _]
    rfl
  · have visited : (range numKvSplits).flatMap (fun sid =>
        (stage1Positions seqLen numKvSplits blockKv sid).map (lane score value)) =
          (range seqLen).map (lane score value) := by
      rw [← decodePositions_eq seqLen splits tile, decodePositions, map_flatMap]
    have empty : ∀ sid ∈ range numKvSplits, ¬ HasPositions seqLen numKvSplits sid →
        (stage1Positions seqLen numKvSplits blockKv sid).map (lane score value) = [] := by
      intro sid _ unused
      unfold HasPositions at unused
      rw [stage1Positions, if_pos (by omega), map_nil]
    have rows : ∀ sid ∈ range numKvSplits, HasPositions seqLen numKvSplits sid →
        ∃ row, order.foldl (tqDecodeStage1 E score value seqLen numKvSplits blockKv) stale sid = .some row ∧
          Sums E row ((stage1Positions seqLen numKvSplits blockKv sid).map (lane score value)) := by
      intro sid member used
      rw [foldl_stage1 E score value splits order stale used, if_pos (programs.mem_iff.mpr member)]
      exact stage1Row_spec E score value splits tile used
    obtain ⟨s, ran, top, holds⟩ := stage2_holds E splits _ (range numKvSplits) empty rows (Holds.start E)
    rw [visited] at holds
    simp only [zero_add] at holds
    have weighs : 0 < mass E ((range seqLen).map (lane score value)) :=
      mass_pos E ⟨lane score value 0, mem_map.mpr ⟨0, mem_range.mpr some, rfl⟩, WithBot.coe_ne_bot⟩
    have reached := top (.inl ⟨0, mem_range.mpr splits, some⟩)
    rw [ran, Option.bind_some]
    exact holds.quotient E reached weighs

theorem turboquantDecodeAttention_five :
    turboquantDecodeAttention ExpLog.real (fun pos => (pos : ℝ))
    (fun pos (_ : Unit) => (pos : ℝ)) 5 4 2 [3, 1, 0, 2]
      (fun _ => none) = softmaxAverage ExpLog.real (fun pos => (pos : ℝ))
      (fun pos (_ : Unit) => (pos : ℝ)) 5 :=
  turboquantDecodeAttention_eq ExpLog.real (fun pos => (pos : ℝ)) (fun pos (_ : Unit) => (pos : ℝ)) 5
    (by decide) (by decide) (by decide) (fun _ => none)

end TurboQuant.Triton
