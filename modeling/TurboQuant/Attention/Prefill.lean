import TurboQuant.Triton.Decode

/-!
Which keys the TurboQuant attention backend attends. A key is identified by its request and its
position; the key tensor of a step and the paged cache are read as collections of such keys, and an
attention call as the list of keys each output row attends. The fused attention operators are taken
at their documented causal semantics.
-/

namespace TurboQuant.Attention
open Segments Triton List Nat

variable {hasFlashAttn flash : Bool} {requests reqs : List Request} {c : PagedCache} {r : Request}

structure Key where
  request : Nat
  position : Nat
  deriving DecidableEq, Repr

structure PagedCache where
  blockSize : Nat
  positive : 0 < blockSize
  slot : Nat → Nat → Key

def PagedCache.load (c : PagedCache) (blockTable : Nat → Nat) (pos : Nat) : Key :=
  c.slot (blockTable (pos / c.blockSize)) (pos % c.blockSize)

structure Request where
  id : Nat
  queryLen : Nat
  seqLen : Nat
  queryLe : queryLen ≤ seqLen
  blockTable : Nat → Nat

structure Metadata where
  requests : List Request
  maxQueryLen : Nat
  maxSeqLen : Nat

def queryStartLoc (requests : List Request) (i : Nat) : Nat := offset Request.queryLen requests i

def rawKeys (r : Request) : List Key := (range r.queryLen).map fun t => ⟨r.id, r.seqLen - r.queryLen + t⟩

def keyTensor (requests : List Request) : List Key := requests.flatMap rawKeys

/-! ### Attention operators -/

/-- `flash_attn_varlen_func(causal=True)` for one sequence: the mask is aligned at the last key. -/
def causalRows {κ : Type*} (lenQ : Nat) (keys : List κ) : List (List κ) :=
  (range lenQ).map fun r => keys.take (r + 1 + keys.length - lenQ)

def flashAttnVarlen (keys : List Key) (numSeqs : Nat) (cuSeqlensQ cuSeqlensK : Nat → Nat) :
    List (List (List Key)) :=
  (range numSeqs).map fun s =>
    causalRows (cuSeqlensQ (s + 1) - cuSeqlensQ s) (slice keys (cuSeqlensK s) (cuSeqlensK (s + 1)))

/-- `scaled_dot_product_attention(is_causal=True)`: the mask is aligned at the first key. -/
def sdpaCausal (lenQ : Nat) (keys : List Key) : List (List Key) :=
  (range lenQ).map fun r => keys.take (r + 1)

def sdpaMasked {κ : Type*} (lenQ : Nat) (keys : List κ) (mask : Nat → Nat → Bool) : List (List κ) :=
  (range lenQ).map fun r => ((range keys.length).filter (mask r)).filterMap (keys[·]?)

/-- `triton_turboquant_decode_attention`: one query per row, each with its own sequence length. -/
def decodeAttention (cache : PagedCache) (maxNumKvSplits : Nat) (rows : List ((Nat → Nat) × Nat)) :
    List (List Key) :=
  rows.map fun row => (decodePositions row.2 maxNumKvSplits 4).map (cache.load row.1)

/-! ### The backend -/

def continuationDecodeThreshold : Nat := 128

section
variable (hasFlashAttn : Bool)

/-- `_continuation_prefill`: dequantized cached keys, then the raw keys of the chunk. -/
def continuationPrefill (cache : PagedCache) (blockTable : Nat → Nat) (keyChunk : List Key)
    (qLen cachedLen : Nat) : List (List Key) :=
  let allocLen := cdiv cachedLen cache.blockSize * cache.blockSize
  let kCached := (range allocLen).map (cache.load blockTable)
  let kFull := kCached.take cachedLen ++ keyChunk
  if hasFlashAttn then causalRows qLen kFull
  else sdpaMasked qLen kFull fun qPos kPos => decide (kPos ≤ qPos + cachedLen)

def requestAttention (cache : PagedCache) (kSeq : List Key) (r : Request) (qLen : Nat) : List (List Key) :=
  if qLen = 0 then []
  else if qLen = r.seqLen then
    if hasFlashAttn then causalRows qLen kSeq else sdpaCausal qLen kSeq
  else
    let cachedLen := r.seqLen - qLen
    if qLen ≤ continuationDecodeThreshold then
      decodeAttention cache 32 ((range' (cachedLen + 1) qLen).map fun synthSeqLen => (r.blockTable,
        synthSeqLen))
    else continuationPrefill hasFlashAttn cache r.blockTable kSeq qLen cachedLen

def fastPath (m : Metadata) : Bool := hasFlashAttn && m.maxQueryLen == m.maxSeqLen

def prefillAttention (cache : PagedCache) (key : List Key) (m : Metadata) : List (List (List Key)) :=
  let qsl := queryStartLoc m.requests
  if fastPath hasFlashAttn m then flashAttnVarlen key m.requests.length qsl qsl
  else m.requests.mapIdx fun i r =>
    requestAttention hasFlashAttn cache (slice key (qsl i) (qsl (i + 1))) r (qsl (i + 1) - qsl i)

end

section
variable (requests : List Request)

def maxQueryLen : Nat := (requests.map Request.queryLen).foldr max 0

def maxSeqLen : Nat := (requests.map Request.seqLen).foldr max 0

def build : Metadata := ⟨requests, maxQueryLen requests, maxSeqLen requests⟩

def numDecodes : Nat :=
  if maxQueryLen requests ≤ 1 then requests.length else requests.findIdx (fun r => decide (1 < r.queryLen))

def prefillMetadata : Option Metadata :=
  let m := build requests
  if m.maxQueryLen ≤ 1 then none
  else if numDecodes requests = 0 then some m
  else
    let suffix := requests.drop (numDecodes requests)
    some ⟨suffix, m.maxQueryLen, maxSeqLen suffix⟩

end

/-- `num_decode_tokens`, and the prefill call of `forward` on the remaining keys. -/
def forwardPrefill (hasFlashAttn : Bool) (cache : PagedCache) (requests : List Request) :
    Option (List (List (List Key))) :=
  (prefillMetadata requests).map fun m =>
    prefillAttention hasFlashAttn cache ((keyTensor requests).drop
      (queryStartLoc requests (numDecodes requests))) m

/-! ### What a request should attend -/

def ownPrefix (r : Request) (t : Nat) : List Key := (range (r.seqLen - r.queryLen + t + 1)).map (Key.mk r.id)

def Holds (cache : PagedCache) (requests : List Request) : Prop :=
  ∀ r ∈ requests, ∀ p < r.seqLen, cache.load r.blockTable p = ⟨r.id, p⟩

def AttendsOwnPrefix (hasFlashAttn : Bool) (cache : PagedCache) (requests : List Request) : Prop :=
  ∀ (i : Nat) (r : Request), requests[i]? = some r →
    ∃ rows, (prefillAttention hasFlashAttn cache (keyTensor requests) (build requests))[i]? = some rows ∧
      rows.length = r.queryLen ∧ ∀ t < r.queryLen, ∃ row, rows[t]? = some row ∧ row.Perm (ownPrefix r t)

def FirstChunks (requests : List Request) : Prop := ∀ r ∈ requests, r.seqLen = r.queryLen

instance (cache : PagedCache) (requests : List Request) : Decidable (Holds cache requests) :=
  inferInstanceAs (Decidable (∀ r ∈ requests, ∀ p < r.seqLen, _ = _))

theorem rawKeys_length (r : Request) : (rawKeys r).length = r.queryLen := by simp [rawKeys]

variable {i : Nat}

theorem slice_keyTensor (at_ : reqs[i]? = some r) :
    slice (keyTensor reqs) (queryStartLoc reqs i) (queryStartLoc reqs (i + 1)) = rawKeys r :=
  slice_flatMap rawKeys_length at_

theorem queryStartLoc_sub (at_ : reqs[i]? = some r) :
    queryStartLoc reqs (i + 1) - queryStartLoc reqs i = r.queryLen := by
  rw [queryStartLoc, queryStartLoc, offset_succ _ at_, Nat.add_sub_cancel_left]

theorem take_positions (id n k : Nat) (short : k ≤ n) :
    ((range n).map (Key.mk id)).take k = (range k).map (Key.mk id) := by
  rw [← map_take, take_range, min_eq_left short]

theorem cached_append_raw (r : Request) :
    (range (r.seqLen - r.queryLen)).map (Key.mk r.id) ++ rawKeys r = (range r.seqLen).map (Key.mk r.id) := by
  have total : r.seqLen = (r.seqLen - r.queryLen) + r.queryLen := (Nat.sub_add_cancel r.queryLe).symm
  conv_rhs => rw [total, range_add, map_append, map_map]
  rfl

section
variable {κ : Type*} {lenQ cachedLen : Nat} {ks : List κ}

theorem causalRows_eq (length : ks.length = cachedLen + lenQ) :
    causalRows lenQ ks = (range lenQ).map fun t => ks.take (cachedLen + t + 1) := by
  apply map_congr_left
  intro t mem
  congr 1
  omega

theorem sdpaMasked_eq (length : ks.length = cachedLen + lenQ) :
    sdpaMasked lenQ ks (fun qPos kPos => decide (kPos ≤ qPos + cachedLen)) =
      (range lenQ).map fun t => ks.take (cachedLen + t + 1) := by
  apply map_congr_left
  intro t mem
  have inside := mem_range.mp mem
  have kept : (range ks.length).filter (fun kPos => decide (kPos ≤ t + cachedLen)) =
      range (cachedLen + t + 1) := by
    have tile := filter_tile 0 ks.length (t + cachedLen + 1)
    simp only [Nat.zero_add, map_id', Nat.lt_succ_iff, Nat.sub_zero] at tile
    rw [tile, range_eq_range']
    congr 1
    omega
  rw [kept]
  exact filterMap_range_getElem? ks (by omega)

end

section
variable (r : Request)

theorem take_sequence :
    (range r.queryLen).map (fun t => ((range r.seqLen).map (Key.mk r.id)).take
      (r.seqLen - r.queryLen + t + 1)) = (range r.queryLen).map (ownPrefix r) := by
  apply map_congr_left
  intro t mem
  have inside := mem_range.mp mem
  have := r.queryLe
  exact take_positions _ _ _ (by omega)

theorem sequence_length : ((range r.seqLen).map (Key.mk r.id)).length =
    r.seqLen - r.queryLen + r.queryLen := by
  rw [length_map, length_range, Nat.sub_add_cancel r.queryLe]

theorem causalRows_sequence :
    causalRows r.queryLen ((range r.seqLen).map (Key.mk r.id)) = (range r.queryLen).map (ownPrefix r) :=
  (causalRows_eq (sequence_length r)).trans (take_sequence r)

theorem sdpaCausal_square : sdpaCausal r.queryLen (rawKeys r) = causalRows r.queryLen (rawKeys r) := by
  apply map_congr_left
  intro t _
  rw [rawKeys_length, Nat.add_sub_cancel]

end

theorem rawKeys_firstChunk (first : r.queryLen = r.seqLen) :
    rawKeys r = (range r.seqLen).map (Key.mk r.id) := by
  have whole := cached_append_raw r
  rwa [first, Nat.sub_self] at whole

section
variable (holds : ∀ p < r.seqLen, c.load r.blockTable p = ⟨r.id, p⟩)
include holds

theorem load_below {n : Nat} (short : n ≤ r.seqLen) :
    (range n).map (c.load r.blockTable) = (range n).map (Key.mk r.id) :=
  map_congr_left fun p below => holds p (lt_of_lt_of_le (mem_range.mp below) short)

theorem decodeAttention_continuation :
    decodeAttention c 32 ((range' (r.seqLen - r.queryLen + 1) r.queryLen).map fun n => (r.blockTable, n)) =
      (range r.queryLen).map (ownPrefix r) := by
  have := r.queryLe
  rw [decodeAttention, map_map, range'_eq_map_range, map_map]
  apply map_congr_left
  intro t mem
  have inside := mem_range.mp mem
  simp only [Function.comp_apply]
  rw [decodePositions_eq _ (by decide) (by decide), load_below holds (by omega), ownPrefix]
  congr 2
  omega

end

section
variable (flash : Bool) (holds : ∀ p < r.seqLen, c.load r.blockTable p = ⟨r.id, p⟩)
include holds

theorem continuationPrefill_eq : continuationPrefill flash c r.blockTable (rawKeys r) r.queryLen
      (r.seqLen - r.queryLen) = (range r.queryLen).map (ownPrefix r) := by
  have covered := le_cdiv_mul (r.seqLen - r.queryLen) c.positive
  have full : ((range (cdiv (r.seqLen - r.queryLen) c.blockSize * c.blockSize)).map
      (c.load r.blockTable)).take (r.seqLen - r.queryLen) ++ rawKeys r =
      (range r.seqLen).map (Key.mk r.id) := by
    rw [← map_take, take_range, min_eq_left covered, load_below holds (sub_le _ _), cached_append_raw]
  simp only [continuationPrefill, full]
  split
  · exact causalRows_sequence r
  · exact (sdpaMasked_eq (sequence_length r)).trans (take_sequence r)

theorem requestAttention_eq :
    requestAttention flash c (rawKeys r) r r.queryLen = (range r.queryLen).map (ownPrefix r) := by
  unfold requestAttention
  split
  · rename_i empty
    rw [empty]
    rfl
  · split
    · rename_i first
      rw [sdpaCausal_square, ite_self, rawKeys_firstChunk first]
      exact causalRows_sequence r
    · simp only
      split
      · exact decodeAttention_continuation holds
      · exact continuationPrefill_eq flash holds

end

/-! ### The whole batch -/

@[simp] theorem build_requests (requests : List Request) : (build requests).requests = requests := rfl

theorem prefillAttention_slow (holds : Holds c reqs) (slow : fastPath flash (build reqs) = false)
    (at_ : reqs[i]? = some r) : (prefillAttention flash c (keyTensor reqs) (build reqs))[i]? =
      some ((range r.queryLen).map (ownPrefix r)) := by
  have own := holds r (mem_of_getElem? at_)
  simp only [prefillAttention, slow, Bool.false_eq_true, if_false, build_requests]
  rw [getElem?_mapIdx, at_, Option.map_some, slice_keyTensor at_, queryStartLoc_sub at_,
    requestAttention_eq flash own]

theorem prefillAttention_fast (fast : fastPath flash (build reqs) = true) (at_ : reqs[i]? = some r) :
    (prefillAttention flash c (keyTensor reqs) (build reqs))[i]? =
      some (causalRows r.queryLen (rawKeys r)) := by
  have inside := (List.getElem_of_getElem? at_).1
  simp only [prefillAttention, fast, if_true, build_requests, flashAttnVarlen]
  rw [List.getElem?_map, List.getElem?_range inside, Option.map_some, slice_keyTensor at_,
    queryStartLoc_sub at_]

theorem rows_match {rows : List (List (List Key))}
    (eq : ∀ (i : Nat) (r : Request), reqs[i]? = some r →
      rows[i]? = some ((range r.queryLen).map (ownPrefix r)))
    (i : Nat) (r : Request) (at_ : reqs[i]? = some r) : ∃ own, rows[i]? = some own ∧ own.length = r.queryLen ∧
      ∀ t < r.queryLen, ∃ row, own[t]? = some row ∧ row.Perm (ownPrefix r t) := by
  refine ⟨_, eq i r at_, by simp, fun t lt => ⟨_, ?_, List.Perm.refl _⟩⟩
  rw [getElem?_map, getElem?_range lt]
  rfl

theorem attendsOwnPrefix_firstChunks (fast : fastPath flash (build requests) = true)
    (chunks : FirstChunks requests) : AttendsOwnPrefix flash c requests := by
  refine rows_match fun i r at_ => ?_
  have first := (chunks r (mem_of_getElem? at_)).symm
  rw [prefillAttention_fast fast at_, rawKeys_firstChunk first, causalRows_sequence]

theorem fastPath_misses (fast : fastPath hasFlashAttn (build requests) = true) (at_ : requests[i]? = some r)
    (queries : 0 < r.queryLen) (cached : r.queryLen < r.seqLen) :
    ¬ AttendsOwnPrefix hasFlashAttn c requests := by
  intro attends
  obtain ⟨rows, found, -, each⟩ := attends i r at_
  rw [prefillAttention_fast fast at_] at found
  obtain ⟨row, first, perm⟩ := each 0 queries
  rw [← Option.some.inj found, causalRows, getElem?_map, getElem?_range queries] at first
  have short := perm.length_eq
  rw [← Option.some.inj first, ownPrefix, length_take, rawKeys_length, length_map, length_range] at short
  omega

/-- Every output row of a prefill attends its own prefix, and the fast path is kept for batches
without cached keys, exactly when the comparison of the two maxima is not fooled: without flash
attention, with different maxima, or when no request has cached keys. -/
theorem prefill_attends_iff (hasFlashAttn : Bool) (cache : PagedCache) (requests : List Request)
    (holds : Holds cache requests) : (AttendsOwnPrefix hasFlashAttn cache requests ∧
        (fastPath hasFlashAttn (build requests) = true → FirstChunks requests)) ↔
      hasFlashAttn = false ∨ maxQueryLen requests ≠ maxSeqLen requests ∨ FirstChunks requests := by
  have guard : fastPath hasFlashAttn (build requests) = true ↔
      hasFlashAttn = true ∧ maxQueryLen requests = maxSeqLen requests := by
    simp [fastPath, build]
  constructor
  · rintro ⟨-, only⟩
    by_cases fast : fastPath hasFlashAttn (build requests) = true
    · exact .inr (.inr (only fast))
    · rw [guard, not_and_or, Bool.not_eq_true] at fast
      rcases fast with none | different
      · exact .inl none
      · exact .inr (.inl different)
  · intro condition
    by_cases fast : fastPath hasFlashAttn (build requests) = true
    · obtain ⟨available, same⟩ := guard.mp fast
      rcases condition with none | different | chunks
      · rw [none] at available
        cases available
      · exact absurd same different
      · exact ⟨attendsOwnPrefix_firstChunks fast chunks, fun _ => chunks⟩
    · exact ⟨rows_match fun _ _ => prefillAttention_slow holds
        (by simpa using fast), fun taken => absurd taken fast⟩

/-! ### What `forward` hands over -/

theorem maxQueryLen_le_iff (reqs : List Request) (n : Nat) :
    maxQueryLen reqs ≤ n ↔ ∀ r ∈ reqs, r.queryLen ≤ n := by
  induction reqs with
  | nil => simp [maxQueryLen]
  | cons r rest ih =>
    rw [forall_mem_cons, ← ih]
    exact max_le_iff

theorem maxQueryLen_append (first last : List Request) :
    maxQueryLen (first ++ last) = max (maxQueryLen first) (maxQueryLen last) := by
  refine eq_of_forall_ge_iff fun n => ?_
  simp only [max_le_iff, maxQueryLen_le_iff, forall_mem_append]

/-- In a mixed batch the requests before the first long query are decodes, so the batch maximum of
the query lengths is that of the prefill suffix. -/
theorem maxQueryLen_suffix (requests : List Request) (prefill : 1 < maxQueryLen requests) :
    maxQueryLen (requests.drop (numDecodes requests)) = maxQueryLen requests := by
  have boundary : numDecodes requests = requests.findIdx (fun r => decide (1 < r.queryLen)) :=
    if_neg (by omega)
  have short : maxQueryLen (requests.take (numDecodes requests)) ≤ 1 := by
    refine (maxQueryLen_le_iff _ 1).mpr fun r mem => ?_
    obtain ⟨i, lt, rfl⟩ := getElem_of_mem mem
    have before := lt_of_lt_of_le lt (length_take_le _ requests)
    rw [boundary] at before
    simpa [getElem_take] using not_of_lt_findIdx before
  have whole := maxQueryLen_append (requests.take (numDecodes requests)) (requests.drop (numDecodes requests))
  rw [take_append_drop] at whole
  omega

/-- The decodes at the front of a batch make no difference to the attention of its prefills. -/
theorem forwardPrefill_eq (flash : Bool) (c : PagedCache) (reqs : List Request) :
    forwardPrefill flash c reqs = if maxQueryLen reqs ≤ 1 then none else
      some (prefillAttention flash c (keyTensor (reqs.drop (numDecodes reqs)))
        (build (reqs.drop (numDecodes reqs)))) := by
  by_cases decode : maxQueryLen reqs ≤ 1
  · simp [forwardPrefill, prefillMetadata, build, decode]
  have handed : prefillMetadata reqs = some (build (reqs.drop (numDecodes reqs))) := by
    have notDecode : ¬ (build reqs).maxQueryLen ≤ 1 := decode
    rw [prefillMetadata, if_neg notDecode]
    split
    · rename_i none
      rw [none, drop_zero]
    · simp only [build, maxQueryLen_suffix reqs (by omega)]
  rw [if_neg decode, forwardPrefill, handed, Option.map_some, keyTensor, queryStartLoc,
    drop_flatMap rawKeys_length]
  rfl

def stridedCache : PagedCache where
  blockSize := 1
  positive := Nat.one_pos
  slot := fun block _ => ⟨block / 100, block % 100⟩

def stridedRequest (id queryLen seqLen : Nat) (queryLe : queryLen ≤ seqLen) : Request :=
  ⟨id, queryLen, seqLen, queryLe, fun page => 100 * id + page⟩

theorem fastPath_misses_five :
    ¬ AttendsOwnPrefix true stridedCache
      [stridedRequest 0 5 5 (by decide), stridedRequest 1 2 5 (by decide)] :=
  fastPath_misses (i := 1) rfl rfl (by decide) (by decide)

theorem prefill_attends_continuation :
    AttendsOwnPrefix true stridedCache [stridedRequest 0 5 5 (by decide), stridedRequest 1 2 7 (by decide)] :=
  ((prefill_attends_iff true stridedCache [stridedRequest 0 5 5 (by decide), stridedRequest 1 2 7 (by decide)]
    (by decide)).mpr (.inr (.inl (by decide)))).1

/-- Both maxima are five, and the first new row of the continuation attends one key instead of
four. -/
theorem prefill_misses_cached :
    fastPath true (build [stridedRequest 0 5 5 (by decide), stridedRequest 1 2 5 (by decide)]) = true ∧
    (prefillAttention true stridedCache (keyTensor
      [stridedRequest 0 5 5 (by decide), stridedRequest 1 2 5 (by decide)])
        (build [stridedRequest 0 5 5 (by decide), stridedRequest 1 2 5 (by decide)]))[1]? =
      some [[⟨1, 3⟩], [⟨1, 3⟩, ⟨1, 4⟩]] ∧
    ¬ AttendsOwnPrefix true stridedCache
      [stridedRequest 0 5 5 (by decide), stridedRequest 1 2 5 (by decide)] := by
  have attended : (prefillAttention true stridedCache
      (keyTensor [stridedRequest 0 5 5 (by decide), stridedRequest 1 2 5 (by decide)])
      (build [stridedRequest 0 5 5 (by decide), stridedRequest 1 2 5 (by decide)]))[1]? =
        some [[⟨1, 3⟩], [⟨1, 3⟩, ⟨1, 4⟩]] := by decide
  refine ⟨by decide, attended, fun attends => ?_⟩
  obtain ⟨rows, found, -, each⟩ := attends 1 (stridedRequest 1 2 5 (by decide)) rfl
  cases attended.symm.trans found
  obtain ⟨row, first, perm⟩ := each 0 Nat.two_pos
  cases first
  exact absurd perm.length_eq (by decide)

end TurboQuant.Attention
