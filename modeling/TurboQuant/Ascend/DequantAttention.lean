import TurboQuant.Ascend.Attention
import TurboQuant.Ascend.Dequant

/-!
The chunked and decode path of the Ascend attention. The token rows of a batch are laid out per
request, padded to the longest query, the fused attention runs on the dequantised cache, and its
rows are laid out by token again. The fused attention and the dequantisation of single vectors are
parameters.
-/

namespace TurboQuant.Ascend
open TurboQuant.Triton (ceilBytes)
open Outcome Segments Nat List Tensor

/-! ### Layout -/

section
variable {α : Type}

/-- `bnsd[i, :, :ql, :] = src`. -/
def assignRequest (bnsd : Tensor α) (i ql : Nat) (src : Tensor α) : Except ShapeError (Tensor α) :=
  match bnsd.shape with
  | [B, Hq, S, D] =>
    let target := [Hq, min ql S, D]
    if B ≤ i then .error (.indexOutOfBounds i B)
    else if broadcastShape target src.shape = some target then
      .ok ⟨bnsd.shape, fun k =>
        if k.getD 0 0 = i ∧ k.getD 2 0 < ql then src.entry (broadcastIndex src.shape [k.getD 1 0,
          k.getD 2 0, k.getD 3 0])
        else bnsd.entry k⟩
    else .error (.broadcast target src.shape)
  | shape => .error (.dimOutOfRange shape 3)

/-- `flat[idx : idx + ql] = rows`. -/
def assignRows (flat : Tensor α) (idx ql : Nat) (rows : Tensor α) : Except ShapeError (Tensor α) :=
  match flat.shape with
  | [N, M] =>
    let target := [min (idx + ql) N - min idx N, M]
    if broadcastShape target rows.shape = some target then
      .ok ⟨flat.shape, fun k =>
        if idx ≤ k.getD 0 0 ∧ k.getD 0 0 < idx + ql then
          rows.entry (broadcastIndex rows.shape [k.getD 0 0 - idx, k.getD 1 0])
        else flat.entry k⟩
    else .error (.broadcast target rows.shape)
  | shape => .error (.dimOutOfRange shape 1)

/-- `attn_output[i, :, :ql, :].permute(1, 0, 2).reshape(ql, Hq * D)`. -/
def requestRows (attnOutput : Tensor α) (i ql : Nat) : Except ShapeError (Tensor α) :=
  match attnOutput.shape with
  | [B, Hq, S, D] =>
    if B ≤ i then .error (.indexOutOfBounds i B)
    else
      let permuted : Tensor α := ⟨[min ql S, Hq, D], fun k => attnOutput.entry [i, k.getD 1 0,
        k.getD 0 0, k.getD 2 0]⟩
      permuted.reshape [ql, Hq * D]
  | shape => .error (.dimOutOfRange shape 3)

section
variable (queryLens : List Nat)

def queryStart (i : Nat) : Nat := offset id queryLens i

def scatterQuery (query bnsd : Tensor α) : Except ShapeError (Tensor α) :=
  queryLens.zipIdx.foldlM (fun bnsd (ql, i) =>
    assignRequest bnsd i ql
      (query.slice (queryStart queryLens i) (queryStart queryLens i + ql)).swapFirst) bnsd

def gatherOutput (attnOutput flat : Tensor α) : Except ShapeError (Tensor α) :=
  (queryLens.zipIdx.foldlM (fun (flat, idx) (ql, i) =>
    (requestRows attnOutput i ql >>= assignRows flat idx ql).map fun flat => (flat, idx + ql))
      (flat, 0)).map Prod.fst

end

variable {i ql : Nat}

theorem queryStart_succ {queryLens : List Nat} (at_ : queryLens[i]? = some ql) :
    queryStart queryLens (i + 1) = queryStart queryLens i + ql := offset_succ id at_

theorem queryStart_le (queryLens : List Nat) (i : Nat) : queryStart queryLens i ≤ queryLens.sum := by
  conv_rhs => rw [← List.take_append_drop i queryLens, List.sum_append]
  rw [queryStart, offset, List.map_id]
  exact le_add_right _ _

theorem queryStart_mono (queryLens : List Nat) {i k : Nat} (before : i ≤ k) :
    queryStart queryLens i ≤ queryStart queryLens k := by
  have taken := queryStart_le (queryLens.take k) i
  rw [queryStart, offset, take_take, min_eq_left before] at taken
  rwa [queryStart, queryStart, offset, offset, map_id (queryLens.take k)]

section
variable {queryLens : List Nat}

theorem exists_queryStart {n : Nat} (inside : n < queryLens.sum) :
    ∃ i ql j, queryLens[i]? = some ql ∧ j < ql ∧ queryStart queryLens i + j = n := by
  have general : ∀ k, k ≤ queryLens.length → n < queryStart queryLens k →
      ∃ i ql j, queryLens[i]? = some ql ∧ j < ql ∧ queryStart queryLens i + j = n := by
    intro k
    induction k with
    | zero => exact fun _ none => absurd none (not_lt_zero n)
    | succ k ih =>
      intro small below
      have at_ := getElem?_eq_getElem (show k < queryLens.length from small)
      by_cases earlier : n < queryStart queryLens k
      · exact ih (by omega) earlier
      · rw [queryStart_succ at_] at below
        exact ⟨k, _, n - queryStart queryLens k, at_, by omega, by omega⟩
  refine general queryLens.length le_rfl ?_
  rwa [queryStart, offset, take_length, map_id]

theorem queryStart_inj {i k ql ql' j j' : Nat} (at_ : queryLens[i]? = some ql)
    (at' : queryLens[k]? = some ql') (inside : j < ql) (inside' : j' < ql')
    (same : queryStart queryLens i + j = queryStart queryLens k + j') : i = k ∧ j = j' := by
  have next := queryStart_succ at_
  have next' := queryStart_succ at'
  rcases lt_trichotomy i k with less | rfl | more
  · have := queryStart_mono queryLens (show i + 1 ≤ k from less)
    omega
  · exact ⟨rfl, by omega⟩
  · have := queryStart_mono queryLens (show k + 1 ≤ i from more)
    omega

/-- Every token row is one position of one request. -/
theorem existsUnique_queryStart {n : Nat} (inside : n < queryLens.sum) :
    ∃! place : Nat × Nat, (∃ ql, queryLens[place.1]? = some ql ∧ place.2 < ql) ∧
      queryStart queryLens place.1 + place.2 = n := by
  obtain ⟨i, ql, j, at_, query, same⟩ := exists_queryStart inside
  refine ⟨(i, j), ⟨⟨ql, at_, query⟩, same⟩, ?_⟩
  rintro ⟨k, j'⟩ ⟨⟨ql', at', query'⟩, same'⟩
  obtain ⟨rfl, rfl⟩ := queryStart_inj at' at_ query' query (same'.trans same.symm)
  rfl

end

section
variable {queryLens : List Nat} {N B Hq S D : Nat}

theorem assignRequest_ok {bnsd src : Tensor α} (shape : bnsd.shape = [B, Hq, S, D]) (request : i < B)
    (fits : ql ≤ S) (source : src.shape = [Hq, ql, D]) :
    ∃ next, assignRequest bnsd i ql src = .ok next ∧ next.shape = [B, Hq, S, D] ∧
      (∀ h < Hq, ∀ j < ql, ∀ d < D, next.entry [i, h, j, d] = src.entry [h, j, d]) ∧
      ∀ k h j d, k ≠ i → next.entry [k, h, j, d] = bnsd.entry [k, h, j, d] := by
  unfold assignRequest
  rw [shape]
  dsimp only
  rw [if_neg (not_le.mpr request), min_eq_left fits, source, broadcastShape_self, if_pos rfl]
  refine ⟨_, rfl, rfl, fun h isHead j query d isDim => ?_, fun k h j d other => if_neg fun same =>
    other same.1⟩
  refine (if_pos ⟨rfl, query⟩).trans ?_
  rw [broadcastIndex_self]
  · rfl
  · exact .cons isHead (.cons query (.cons isDim .nil))

/-- The token rows of every request are laid out under its index. -/
theorem scatterQuery_ok {query bnsd : Tensor α} (rows : query.shape = [queryLens.sum, Hq, D])
    (shape : bnsd.shape = [queryLens.length, Hq, S, D]) (fits : ∀ ql ∈ queryLens, ql ≤ S) :
    ∃ q, scatterQuery queryLens query bnsd = .ok q ∧ q.shape = [queryLens.length, Hq, S, D] ∧
      ∀ (i ql : Nat), queryLens[i]? = some ql → ∀ h < Hq, ∀ j < ql, ∀ d < D,
        q.entry [i, h, j, d] = query.entry [queryStart queryLens i + j, h, d] := by
  have run : ∃ q, scatterQuery queryLens query bnsd = .ok q ∧ q.shape = [queryLens.length, Hq, S, D] ∧
      ∀ (i ql : Nat), i < queryLens.length → queryLens[i]? = some ql → ∀ h < Hq, ∀ j < ql, ∀ d < D,
        q.entry [i, h, j, d] = query.entry [queryStart queryLens i + j, h, d] := by
    refine foldlM_zipIdx (fun m (q : Tensor α) => q.shape = [queryLens.length, Hq, S, D] ∧
      ∀ (i ql : Nat), i < m → queryLens[i]? = some ql → ∀ h < Hq, ∀ j < ql, ∀ d < D,
        q.entry [i, h, j, d] = query.entry [queryStart queryLens i + j, h, d])
      (fun i ql q at_ inv => ?_) ⟨shape, fun i ql none => absurd none (Nat.not_lt_zero i)⟩
    obtain ⟨same, filled⟩ := inv
    have request := (List.getElem?_eq_some_iff.mp at_).1
    have last := queryStart_le queryLens (i + 1)
    rw [queryStart_succ at_] at last
    have source : ((query.slice (queryStart queryLens i) (queryStart queryLens i +
        ql)).swapFirst).shape = [Hq, ql, D] := by
      simp only [Tensor.swapFirst, Tensor.slice, rows]
      congr 2
      omega
    obtain ⟨next, ran, same', set, kept⟩ :=
      assignRequest_ok same request (fits ql (List.mem_of_getElem? at_)) source
    refine ⟨next, ran, same', fun k ql' before at' h isHead j inside d isDim => ?_⟩
    rcases Nat.lt_succ_iff_lt_or_eq.mp before with earlier | rfl
    · rw [kept k h j d (Nat.ne_of_lt earlier)]
      exact filled k ql' earlier at' h isHead j inside d isDim
    · rw [at_] at at'
      cases at'
      rw [set h isHead j inside d isDim]
      simp only [Tensor.swapFirst, Tensor.slice, rows]
      rfl
  obtain ⟨q, ran, same, filled⟩ := run
  exact ⟨q, ran, same, fun i ql at_ => filled i ql (List.getElem?_eq_some_iff.mp at_).1 at_⟩

theorem requestRows_ok {attnOutput : Tensor α} (shape : attnOutput.shape = [B, Hq, S, D]) (request : i < B)
    (fits : ql ≤ S) :
    ∃ rows, requestRows attnOutput i ql = .ok rows ∧ rows.shape = [ql, Hq * D] ∧
      ∀ h < Hq, ∀ j < ql, ∀ d < D, rows.entry [j, h * D + d] = attnOutput.entry [i, h, j, d] := by
  unfold requestRows
  rw [shape]
  dsimp only
  rw [if_neg (not_le.mpr request), min_eq_left fits]
  have same : numel [ql, Hq, D] = numel [ql, Hq * D] := by simp [numel]
  have ran := reshape_of_numel
    (⟨[ql, Hq, D], fun k => attnOutput.entry [i, k.getD 1 0, k.getD 0 0, k.getD 2 0]⟩ : Tensor α) same
  refine ⟨_, ran, rfl, fun h isHead j inside d isDim => ?_⟩
  refine (entry_reshape (k := [j, h, d]) ran (.cons inside (.cons isHead (.cons isDim .nil))) ?_).trans rfl
  simp [ravel, numel]

theorem assignRows_ok {M : Nat} {flat rows : Tensor α} {idx ql : Nat} (shape : flat.shape = [N, M])
    (fits : idx + ql ≤ N) (source : rows.shape = [ql, M]) :
    ∃ next, assignRows flat idx ql rows = .ok next ∧ next.shape = [N, M] ∧
      (∀ j < ql, ∀ m < M, next.entry [idx + j, m] = rows.entry [j, m]) ∧
      ∀ n m, n < idx → next.entry [n, m] = flat.entry [n, m] := by
  unfold assignRows
  rw [shape]
  dsimp only
  rw [Nat.min_eq_left fits, Nat.min_eq_left
    (by omega), Nat.add_sub_cancel_left, source, broadcastShape_self, if_pos rfl]
  refine ⟨_, rfl, rfl, fun j inside m isDim => ?_, fun n m before => if_neg fun same => ?_⟩
  · refine (if_pos ⟨Nat.le_add_right _ _, Nat.add_lt_add_left inside _⟩).trans ?_
    rw [broadcastIndex_self]
    · simp
    · refine .cons ?_ (.cons isDim .nil)
      simpa using inside
  · exact absurd same.1 (Nat.not_le.mpr before)

/-- The rows of every request go back to its tokens. What `flat` held before does not matter. -/
theorem gatherOutput_ok {attnOutput flat : Tensor α} (shape : attnOutput.shape = [queryLens.length, Hq, S, D])
    (tokens : flat.shape = [queryLens.sum, Hq * D]) (fits : ∀ ql ∈ queryLens, ql ≤ S) :
    ∃ r, gatherOutput queryLens attnOutput flat = .ok r ∧ r.shape = [queryLens.sum, Hq * D] ∧
      ∀ (i ql : Nat), queryLens[i]? = some ql → ∀ h < Hq, ∀ j < ql, ∀ d < D,
        r.entry [queryStart queryLens i + j, h * D + d] = attnOutput.entry [i, h, j, d] := by
  have run : ∃ r : Tensor α × Nat, queryLens.zipIdx.foldlM (fun (flat, idx) (ql, i) =>
      (requestRows attnOutput i ql >>= assignRows flat idx ql).map fun flat => (flat, idx + ql))
        (flat, 0) = .ok r ∧
      r.1.shape = [queryLens.sum, Hq * D] ∧ r.2 = queryStart queryLens queryLens.length ∧
      ∀ (i ql : Nat), i < queryLens.length → queryLens[i]? = some ql → ∀ h < Hq, ∀ j < ql, ∀ d < D,
        r.1.entry [queryStart queryLens i + j, h * D + d] = attnOutput.entry [i, h, j, d] := by
    refine foldlM_zipIdx (fun m (r : Tensor α × Nat) => r.1.shape = [queryLens.sum, Hq * D] ∧
      r.2 = queryStart queryLens m ∧
      ∀ (i ql : Nat), i < m → queryLens[i]? = some ql → ∀ h < Hq, ∀ j < ql, ∀ d < D,
        r.1.entry [queryStart queryLens i + j, h * D + d] = attnOutput.entry [i, h, j, d])
      (fun i ql r at_ inv => ?_) ⟨tokens, rfl, fun i ql none => absurd none (Nat.not_lt_zero i)⟩
    obtain ⟨flat, idx⟩ := r
    obtain ⟨same, rfl, filled⟩ := inv
    have request := (List.getElem?_eq_some_iff.mp at_).1
    have last := queryStart_le queryLens (i + 1)
    rw [queryStart_succ at_] at last
    obtain ⟨rows, taken, source, copied⟩ := requestRows_ok shape request (fits ql (List.mem_of_getElem? at_))
    obtain ⟨next, ran, same', set, kept⟩ := assignRows_ok same last source
    refine ⟨(next, queryStart queryLens i + ql), ?_, same', (queryStart_succ at_).symm,
      fun k ql' before at' h isHead j inside d isDim => ?_⟩
    · dsimp only
      rw [taken, ok_bind, ran]
      rfl
    · have column := (flat_index isHead isDim).1
      rcases Nat.lt_succ_iff_lt_or_eq.mp before with earlier | rfl
      · have ends := queryStart_mono queryLens (show k + 1 ≤ i from earlier)
        rw [queryStart_succ at'] at ends
        rw [kept _ _ (by omega)]
        exact filled k ql' earlier at' h isHead j inside d isDim
      · rw [at_] at at'
        cases at'
        rw [set j inside _ column]
        exact copied h isHead j inside d isDim
  obtain ⟨⟨r, idx⟩, ran, same, -, filled⟩ := run
  refine ⟨r, ?_, same, fun i ql at_ => filled i ql (List.getElem?_eq_some_iff.mp at_).1 at_⟩
  unfold gatherOutput
  rw [ran]
  rfl

end

end

/-! ### The attention on dense keys and values -/

structure TqImpl where
  numHeads : Nat
  numKvHeads : Nat
  headSize : Nat
  slidingWindow : Option Nat

/-- A batch that is not a first prefill: the queries by token, lengths and block tables by
request. -/
structure TqCall (α : Type) where
  attnState : AttentionState
  queryLens : List Nat
  seqLens : List Nat
  blockTables : BlockTable
  query : Nat → Nat → Nat → α
  kv : KvBatch α
  outputNdim : Nat
  requests : seqLens.length = queryLens.length
  tables : blockTables.rows = seqLens.length
  cached : attnState ≠ .prefillNoCache
  decode : attnState = .decodeOnly → ∀ ql ∈ queryLens, ql = 1

/-- `npu_fused_infer_attention_score` in the layout of requests, heads, positions and dimensions:
mask, query, keys, values, query lengths and key lengths. -/
abbrev Fused (α : Type) : Type :=
  SparseMode → Nat → Tensor α → Tensor α → Tensor α → List Nat → List Nat → Except ShapeError (Tensor α)

section
variable {α : Type}

def maskOf (impl : TqImpl) (state : AttentionState) : SparseMode × Nat :=
  if state = .decodeOnly then (.all, swaIntMax)
  else
    match impl.slidingWindow with
    | some window => (.band, window)
    | none => (.causal, swaIntMax)

def vectorAt (t : Tensor α) (D i h p : Nat) : List α := (range D).map fun d => t.entry [i, h, p, d]

/-- Query `j` of request `i` is attended over the keys and values of that request which the mask
leaves. -/
structure FusedRows (impl : TqImpl) (fused : Fused α)
    (attend : List α → List (List α × List α) → Nat → α) : Prop where
  rows : ∀ {B S L : Nat} (mode : SparseMode) (preTokens : Nat) {q k v : Tensor α}
    {queryLens kvLens : List Nat},
    q.shape = [B, impl.numHeads, S, impl.headSize] → k.shape = [B, impl.numKvHeads, L, impl.headSize] →
    v.shape = [B, impl.numKvHeads, L, impl.headSize] → queryLens.length = B → kvLens.length = B →
    (∀ n ∈ queryLens, n ≤ S) → (∀ n ∈ kvLens, n ≤ L) →
    ∃ out, fused mode preTokens q k v queryLens kvLens = .ok out ∧ out.shape = [B, impl.numHeads, S,
      impl.headSize] ∧
      ∀ (i ql : Nat), queryLens[i]? = some ql → ∀ h < impl.numHeads, ∀ j < ql, ∀ d < impl.headSize,
        out.entry [i, h, j, d] = attend (vectorAt q impl.headSize i h j)
          ((fusedAttention mode preTokens 0 ql (kvLens.getD i 0) j).map fun p =>
            (vectorAt k impl.headSize i (h / (impl.numHeads / impl.numKvHeads)) p,
              vectorAt v impl.headSize i (h / (impl.numHeads / impl.numKvHeads)) p)) d

/-- Each row is attended by itself. -/
def rowByRow (impl : TqImpl) (attend : List α → List (List α × List α) → Nat → α) : Fused α :=
  fun mode preTokens q k v queryLens kvLens => .ok ⟨q.shape, fun idx =>
    let (i, h, j) := (idx.getD 0 0, idx.getD 1 0, idx.getD 2 0)
    attend (vectorAt q impl.headSize i h j)
      ((fusedAttention mode preTokens 0 (queryLens.getD i 0) (kvLens.getD i 0) j).map fun p =>
        (vectorAt k impl.headSize i (h / (impl.numHeads / impl.numKvHeads)) p,
          vectorAt v impl.headSize i (h / (impl.numHeads / impl.numKvHeads)) p)) (idx.getD 3 0)⟩

theorem rowByRow_rows (impl : TqImpl) (attend : List α → List (List α × List α) → Nat → α) :
    FusedRows impl (rowByRow impl attend) attend where
  rows := by
    intro B S L mode preTokens q k v queryLens kvLens queries _ _ _ _ _ _
    refine ⟨_, rfl, queries, fun i ql at_ h _ j _ d _ => ?_⟩
    have len : queryLens.getD i 0 = ql := by rw [getD_eq_getElem?_getD, at_]; rfl
    simp only [getD_cons_zero, getD_cons_succ, len]

namespace TqCall
variable (call : TqCall α) (impl : TqImpl)

def numActualTokens : Nat := call.queryLens.sum

def queryTensor : Tensor α :=
  ⟨[call.numActualTokens, impl.numHeads, impl.headSize],
    fun k => call.query (k.getD 0 0) (k.getD 1 0) (k.getD 2 0)⟩

def queryRow (n h : Nat) : List α := (range impl.headSize).map (call.query n h)

def viewOutput (flat : Tensor α) : Except ShapeError (Tensor α) :=
  if call.outputNdim = 3 then flat.reshape [call.numActualTokens, impl.numHeads, impl.headSize] else .ok flat

def outputIndex (n h d : Nat) : List Nat := if call.outputNdim = 3 then [n, h, d]
  else [n, h * impl.headSize + d]

def decodeAttention (fused : Fused α) (k v : Tensor α) : Except ShapeError (Tensor α) := do
  let B := call.seqLens.length
  let q ← ((call.queryTensor impl).slice 0 B).reshape [B, impl.numHeads, 1, impl.headSize]
  let out ← fused (maskOf impl call.attnState).1 (maskOf impl call.attnState).2 q k v
    (replicate B 1) call.seqLens
  let flat ← out.reshape [B, impl.numHeads * impl.headSize]
  call.viewOutput impl flat

section
variable [Zero α] (fused : Fused α) (fresh : List Nat → α) (k v : Tensor α)

/-- The queries are padded to the longest one. `fresh` is the memory of the result before it is
written. -/
def chunkedAttention : Except ShapeError (Tensor α) := do
  let B := call.seqLens.length
  let maxQLen := call.queryLens.max?.getD 1
  let q ← scatterQuery call.queryLens (call.queryTensor impl)
    ⟨[B, impl.numHeads, maxQLen, impl.headSize], fun _ => 0⟩
  let out ← fused (maskOf impl call.attnState).1 (maskOf impl call.attnState).2 q k v
    call.queryLens call.seqLens
  let flat ← gatherOutput call.queryLens out ⟨[call.numActualTokens, impl.numHeads * impl.headSize], fresh⟩
  call.viewOutput impl flat

def denseAttention : Except ShapeError (Tensor α) :=
  if call.attnState = .decodeOnly then call.decodeAttention impl fused k v
  else call.chunkedAttention impl fused fresh k v

end

/-- Row `queryStart + j` of the result is query `j` of request `i`, attended over keys and values of
that request. -/
def RowsAttend (attend : List α → List (List α × List α) → Nat → α) (key value : Nat → Nat → Nat → List α)
    (out : Tensor α) : Prop :=
  ∀ (i ql : Nat), call.queryLens[i]? = some ql → ∀ h < impl.numHeads, ∀ j < ql, ∀ d < impl.headSize,
    out.entry (call.outputIndex impl (queryStart call.queryLens i + j) h d) =
      attend (call.queryRow impl (queryStart call.queryLens i + j) h)
        ((fusedAttention (maskOf impl call.attnState).1 (maskOf impl call.attnState).2 0 ql
          (call.seqLens.getD i 0) j).map fun p =>
          (key i (h / (impl.numHeads / impl.numKvHeads)) p,
            value i (h / (impl.numHeads / impl.numKvHeads)) p)) d

end TqCall

section
variable {call : TqCall α} {impl : TqImpl}

theorem viewOutput_ok (call : TqCall α) (impl : TqImpl) {flat : Tensor α}
    (shape : flat.shape = [call.numActualTokens, impl.numHeads * impl.headSize]) :
    ∃ out, call.viewOutput impl flat = .ok out ∧ ∀ n < call.numActualTokens, ∀ h < impl.numHeads,
      ∀ d < impl.headSize,
      out.entry (call.outputIndex impl n h d) = flat.entry [n, h * impl.headSize + d] := by
  unfold TqCall.viewOutput TqCall.outputIndex
  by_cases split : call.outputNdim = 3
  · simp only [split, if_true]
    have same : numel flat.shape = numel [call.numActualTokens, impl.numHeads, impl.headSize] := by
      simp [shape, numel]
    have ran := reshape_of_numel flat same
    refine ⟨_, ran, fun n token h isHead d isDim => entry_reshape ran ?_ ?_⟩
    · rw [shape]
      exact .cons token (.cons (flat_index isHead isDim).1 .nil)
    · rw [shape]
      simp [ravel, numel]
  · simp only [split, if_false]
    exact ⟨flat, rfl, fun n _ h _ d _ => rfl⟩

theorem vectorAt_eq_queryRow {q : Tensor α} {i h j n : Nat}
    (same : ∀ d < impl.headSize, q.entry [i, h, j, d] = call.query n h d) :
    vectorAt q impl.headSize i h j = call.queryRow impl n h :=
  map_congr_left fun d isDim => same d (mem_range.mp isDim)

theorem decodeQuery_ok (impl : TqImpl) (tokens : call.numActualTokens = call.seqLens.length) :
    ∃ q, ((call.queryTensor impl).slice 0 call.seqLens.length).reshape
        [call.seqLens.length, impl.numHeads, 1, impl.headSize] = .ok q ∧
      q.shape = [call.seqLens.length, impl.numHeads, 1, impl.headSize] ∧
      ∀ i < call.seqLens.length, ∀ h < impl.numHeads,
        vectorAt q impl.headSize i h 0 = call.queryRow impl i h := by
  have sliced : ((call.queryTensor impl).slice 0 call.seqLens.length).shape =
      [call.seqLens.length, impl.numHeads, impl.headSize] := by
    simp [Tensor.slice, TqCall.queryTensor, tokens]
  have same : Tensor.numel ((call.queryTensor impl).slice 0 call.seqLens.length).shape =
      Tensor.numel [call.seqLens.length, impl.numHeads, 1, impl.headSize] := by
    rw [sliced]
    simp [Tensor.numel]
  have ran := Tensor.reshape_of_numel _ same
  refine ⟨_, ran, rfl, fun i request h isHead => vectorAt_eq_queryRow fun d isDim => ?_⟩
  refine (Tensor.entry_reshape (k := [i, h, d]) ran ?_ ?_).trans ?_
  · rw [sliced]
    exact .cons request (.cons isHead (.cons isDim .nil))
  · rw [sliced]
    simp [Tensor.ravel, Tensor.numel]
  · simp [Tensor.slice, TqCall.queryTensor]

omit call in
theorem decodeFlat_ok {B : Nat} {attnOutput : Tensor α}
    (shape : attnOutput.shape = [B, impl.numHeads, 1, impl.headSize]) :
    ∃ flat, attnOutput.reshape [B, impl.numHeads * impl.headSize] = .ok flat ∧
      flat.shape = [B, impl.numHeads * impl.headSize] ∧
      ∀ i < B, ∀ h < impl.numHeads, ∀ d < impl.headSize,
        flat.entry [i, h * impl.headSize + d] = attnOutput.entry [i, h, 0, d] := by
  have same : numel attnOutput.shape = numel [B, impl.numHeads * impl.headSize] := by simp [shape, numel]
  have ran := reshape_of_numel attnOutput same
  refine ⟨_, ran, rfl, fun i request h isHead d isDim => entry_reshape ran ?_ ?_⟩
  · rw [shape]
    exact .cons request (.cons isHead (.cons one_pos (.cons isDim .nil)))
  · rw [shape]
    simp [ravel, numel]

variable {fused : Fused α} {attend : List α → List (List α × List α) → Nat → α}
  (ideal : FusedRows impl fused attend)
  {k v : Tensor α} {L : Nat} (keys : k.shape = [call.seqLens.length, impl.numKvHeads, L, impl.headSize])
  (values : v.shape = [call.seqLens.length, impl.numKvHeads, L, impl.headSize])
    (long : ∀ n ∈ call.seqLens, n ≤ L)
include ideal keys values long

theorem decodeAttention_rows (decode : call.attnState = .decodeOnly) :
    ∃ out, call.decodeAttention impl fused k v = .ok out ∧
      call.RowsAttend impl attend (vectorAt k impl.headSize) (vectorAt v impl.headSize) out := by
  have ones : call.queryLens = List.replicate call.seqLens.length 1 :=
    List.eq_replicate_iff.mpr ⟨call.requests.symm, call.decode decode⟩
  have tokens : call.numActualTokens = call.seqLens.length := by rw [TqCall.numActualTokens, ones]; simp
  obtain ⟨q, scattered, queries, layout⟩ := decodeQuery_ok impl tokens
  obtain ⟨attended, ran, shape, rows⟩ := ideal.rows (maskOf impl call.attnState).1
    (maskOf impl call.attnState).2 queries keys
    values (show (List.replicate call.seqLens.length 1).length = _ from List.length_replicate) rfl
    (fun n member => (List.eq_of_mem_replicate member).le) long
  obtain ⟨flat, flattened, flatShape, columns⟩ := decodeFlat_ok shape
  obtain ⟨out, viewed, view⟩ := viewOutput_ok call impl (flatShape.trans (by rw [tokens]))
  refine ⟨out, bind_of_ok scattered (bind_of_ok ran (bind_of_ok flattened viewed)),
    fun i ql at_ h isHead j inside d isDim => ?_⟩
  have request : i < call.seqLens.length := call.requests ▸ (List.getElem?_eq_some_iff.mp at_).1
  have start : queryStart call.queryLens i = i := by
    rw [ones, queryStart, offset, List.take_replicate, List.map_id, List.sum_replicate, smul_eq_mul, mul_one]
    omega
  obtain rfl := call.decode decode ql (List.mem_of_getElem? at_)
  obtain rfl : j = 0 := lt_one_iff.mp inside
  rw [start, add_zero, view i (tokens ▸ request) h isHead d isDim, columns i request h isHead d isDim,
    rows i 1 (ones ▸ at_) h isHead 0 inside d isDim, layout i request h isHead]

/-- Neither the padding of the queries nor what the result held before reaches a row. -/
theorem chunkedAttention_rows [Zero α] (fresh : List Nat → α) :
    ∃ out, call.chunkedAttention impl fused fresh k v = .ok out ∧
      call.RowsAttend impl attend (vectorAt k impl.headSize) (vectorAt v impl.headSize) out := by
  have fits : ∀ ql ∈ call.queryLens, ql ≤ call.queryLens.max?.getD 1 := by
    intro ql member
    cases longest : call.queryLens.max? with
    | none =>
      rw [max?_eq_none_iff.mp longest] at member
      cases member
    | some m => exact (max?_eq_some_iff.mp longest).2 ql member
  obtain ⟨q, scattered, queries, layout⟩ := scatterQuery_ok
    (show (call.queryTensor impl).shape = [call.queryLens.sum, impl.numHeads, impl.headSize] from rfl)
    (show (⟨[call.seqLens.length, impl.numHeads, call.queryLens.max?.getD 1, impl.headSize],
      fun _ => 0⟩ : Tensor α).shape =
      [call.queryLens.length, impl.numHeads, call.queryLens.max?.getD 1,
        impl.headSize] by rw [call.requests]) fits
  rw [call.requests] at keys values
  obtain ⟨attended, ran, shape, rows⟩ := ideal.rows (maskOf impl call.attnState).1
    (maskOf impl call.attnState).2 queries keys values rfl call.requests fits long
  obtain ⟨flat, gathered, flatShape, columns⟩ := gatherOutput_ok shape
    (show (⟨[call.numActualTokens, impl.numHeads * impl.headSize], fresh⟩ : Tensor α).shape =
      [call.queryLens.sum, impl.numHeads * impl.headSize] from rfl) fits
  obtain ⟨out, viewed, view⟩ := viewOutput_ok call impl flatShape
  refine ⟨out, bind_of_ok scattered (bind_of_ok ran (bind_of_ok gathered viewed)),
    fun i ql at_ h isHead j inside d isDim => ?_⟩
  have token : queryStart call.queryLens i + j < call.numActualTokens := by
    have last := queryStart_le call.queryLens (i + 1)
    rw [queryStart_succ at_] at last
    exact Nat.lt_of_lt_of_le (Nat.add_lt_add_left inside _) last
  have own : vectorAt q impl.headSize i h j = call.queryRow impl (queryStart call.queryLens i + j) h :=
    vectorAt_eq_queryRow fun d isDim => layout i ql at_ h isHead j inside d isDim
  rw [view _ token h isHead d isDim, columns i ql at_ h isHead j inside d isDim,
    rows i ql at_ h isHead j inside d isDim, own]

/-- On dense keys and values every row of the result is its own query, attended over its own
request. -/
theorem denseAttention_rows [Zero α] (fresh : List Nat → α) :
    ∃ out, call.denseAttention impl fused fresh k v = .ok out ∧
      call.RowsAttend impl attend (vectorAt k impl.headSize) (vectorAt v impl.headSize) out := by
  unfold TqCall.denseAttention
  split
  · rename_i decode
    exact decodeAttention_rows ideal keys values long decode
  · exact chunkedAttention_rows ideal keys values long fresh

end

end

/-! ### Dequantised keys and values -/

section
variable {α : Type} [Field α] {fp16 : BitVec 16 → α} {centroids : Nat → α} {pi : Nat → Nat → α} {Hk D : Nat}

/-- A buffer that an earlier call left, of any batch size and length and with any content. -/
def LeftBuffer (Hk D : Nat) (buf : Option (Tensor α)) : Prop := ∀ t, buf = some t → ∃ B L,
    t.shape = [B, Hk, L, D]

def LeftBuffers (Hk D : Nat) (bufs : Option (Tensor α) × Option (Tensor α)) : Prop :=
  LeftBuffer Hk D bufs.1 ∧ LeftBuffer Hk D bufs.2

theorem reuseBuffer_ok {buf : Option (Tensor α)} (left : LeftBuffer Hk D buf) (B L : Nat) :
    ∃ t, reuseBuffer buf B Hk L D = .ok t ∧ t.shape = [B, Hk, L, D] := by
  have fresh : ∃ t : Tensor α, reuseBuffer none B Hk L D = .ok t ∧ t.shape = [B, Hk, L, D] := by
    refine ⟨_, rfl, ?_⟩
    rw [min_self, min_self]
  cases buf with
  | none => exact fresh
  | some t =>
    obtain ⟨b, l, shape⟩ := left t rfl
    have batch : t.size 0 = .ok b := by rw [Tensor.size, shape]; rfl
    have length : t.size 2 = .ok l := by rw [Tensor.size, shape]; rfl
    by_cases small : b < B ∨ l < L
    · have again : reuseBuffer (some t) B Hk L D = reuseBuffer none B Hk L D := by
        unfold reuseBuffer
        dsimp only
        rw [batch, ok_bind]
        by_cases few : b < B
        · rw [if_pos few]
        · rw [if_neg few, length, ok_bind, if_pos (small.resolve_left few)]
      rwa [again]
    · rw [not_or] at small
      refine ⟨⟨[min B b, Hk, min L l, D], t.entry⟩, ?_, ?_⟩
      · unfold reuseBuffer
        dsimp only
        rw [batch, ok_bind, if_neg small.1, length, ok_bind, if_neg small.2, pure_bind, shape]
      · rw [min_eq_left (not_lt.mp small.1), min_eq_left (not_lt.mp small.2)]

/-- Every vector gets the row that Algorithm 1 gives it. -/
structure VectorDequant.Refers (vectors : VectorDequant α) (fp16 : BitVec 16 → α) (centroids : Nat → α)
    (pi : Nat → Nat → α) (D : Nat) : Prop where
  width : vectors.width = .ok D
  rows : ∀ halves, ∃ r, vectors.rows D halves = .ok r ∧ r.shape = [halves.length, D] ∧
    ∀ m half, halves[m]? = some half → ∀ d < D, r.entry [m, d] = dequantReference fp16 centroids pi D half d

section
variable (cache : KvCache) (table : BlockTable) (seqLens : List Nat)

/-- The blocks of the table are blocks of the cache, and their slots hold two vectors. -/
structure Readable (D L : Nat) : Prop where
  alloc : allocLength seqLens cache.blockSize = .ok L
  positive : 0 < cache.blockSize
  slots : ∀ b < table.rows, ∀ p < L, ∀ h < cache.numKvHeads, ∃ row key value,
    gatherSlot cache table b p h = .ok row ∧
    unpackHalf D 0 row = .ok key ∧ unpackHalf D (ceilBytes (D * mseBits) + 2) row = .ok value

end

variable {bufs : Option (Tensor α) × Option (Tensor α)} {vectors : VectorDequant α}
  {cache : KvCache} {table : BlockTable} {seqLens : List Nat} {L : Nat}

theorem Readable.long (readable : Readable cache table seqLens D L) : ∀ n ∈ seqLens, n ≤ L := by
  intro n member
  have alloc := readable.alloc
  have positive := readable.positive
  unfold allocLength at alloc
  split at alloc
  · rename_i longest found
    cases alloc
    have most := (max?_eq_some_iff.mp found).2 n member
    have whole := div_add_mod (longest + cache.blockSize - 1) cache.blockSize
    have rest := mod_lt (longest + cache.blockSize - 1) positive
    rw [mul_comm] at whole
    omega
  · cases alloc

/-- Entries of requests, positions and heads in the order of the flat rows. -/
def flatRows {β : Type} (B L Hk : Nat) (f : Nat → Nat → Nat → β) : List β :=
  (range (B * L * Hk)).map fun m => f (m / Hk / L) (m / Hk % L) (m % Hk)

/-- The rows of one half are dequantised, laid out by request, head and position and copied into the
buffer. -/
theorem dense_ok (refers : vectors.Refers fp16 centroids pi D) {B : Nat}
    (half : Nat → Nat → Nat → List Nat × BitVec 16)
    {buf : Tensor α} (shape : buf.shape = [B, Hk, L, D]) :
    ∃ recon dense swapped out, vectors.rows D (flatRows B L Hk half) = .ok recon ∧
      recon.reshape [B, L, Hk, D] = .ok dense ∧
      dense.swapMiddle = .ok swapped ∧ buf.copyInto swapped = .ok out ∧ out.shape = [B, Hk, L, D] ∧
      ∀ b < B, ∀ h < Hk, ∀ p < L, ∀ d < D, out.entry [b, h, p, d] = dequantReference fp16 centroids
        pi D (half b p h) d := by
  obtain ⟨recon, reconstructed, rows, entries⟩ := refers.rows (flatRows B L Hk half)
  have count : (flatRows B L Hk half).length = B * L * Hk := by simp [flatRows]
  have same : numel recon.shape = numel [B, L, Hk, D] := by
    rw [rows, count]
    simp [numel, mul_assoc]
  have viewed := reshape_of_numel recon same
  obtain ⟨out, copied, outShape, copy⟩ := copyInto_self buf
    ⟨[B, Hk, L, D], fun i => recon.entry (unravel recon.shape (ravel [B, L, Hk, D]
      [i.getD 0 0, i.getD 2 0, i.getD 1 0, i.getD 3 0]))⟩ shape.symm
  refine ⟨recon, _, _, out, reconstructed, viewed, rfl, copied, outShape.trans shape, ?_⟩
  intro b request h isHead p position d isDim
  obtain ⟨pairInside, request', position'⟩ := flat_index request position
  obtain ⟨inside, pair, head'⟩ := flat_index pairInside isHead
  have found : (flatRows B L Hk half)[(b * L + p) * Hk + h]? = some (half b p h) := by
    rw [flatRows, getElem?_map, getElem?_range inside, Option.map_some, pair, request', position', head']
  rw [copy [b, h, p, d] (by rw [shape]; exact .cons request (.cons isHead
    (.cons position (.cons isDim .nil)))), ← entries _ _ found d isDim]
  refine entry_reshape (i := [b, p, h, d]) viewed ?_ ?_
  · rw [rows, count]
    exact .cons inside (.cons isDim .nil)
  · rw [rows]
    simp only [ravel, numel, prod_cons, prod_nil]
    ring

/-- The dequantisation does not depend on the buffers, and gives every position the rows of its own
slot. -/
theorem dequantPagedKvWith_ok (refers : vectors.Refers fp16 centroids pi D)
    (readable : Readable cache table seqLens D L) (left : LeftBuffers cache.numKvHeads D bufs) :
    ∃ k v, dequantPagedKvWith vectors cache table seqLens bufs.1 bufs.2 = .ok (k, v, L) ∧
      k.shape = [table.rows, cache.numKvHeads, L, D] ∧ v.shape = [table.rows, cache.numKvHeads, L, D] ∧
      ∀ b < table.rows, ∀ h < cache.numKvHeads, ∀ p < L, ∃ row key value,
        gatherSlot cache table b p h = .ok row ∧
        unpackHalf D 0 row = .ok key ∧ unpackHalf D (ceilBytes (D * mseBits) + 2) row = .ok value ∧
        ∀ d < D, k.entry [b, h, p, d] = dequantReference fp16 centroids pi D key d ∧
          v.entry [b, h, p, d] = dequantReference fp16 centroids pi D value d := by
  choose! row key value slot keyHalf valueHalf using readable.slots
  obtain ⟨k, ranK, shapeK⟩ := reuseBuffer_ok left.1 table.rows L
  obtain ⟨v, ranV, shapeV⟩ := reuseBuffer_ok left.2 table.rows L
  have flat : ∀ {β : Type} (f : Nat → Nat → Nat → Except ShapeError β) (g : Nat → Nat → Nat → β),
      (∀ b < table.rows, ∀ p < L, ∀ h < cache.numKvHeads, f b p h = .ok (g b p h)) →
      (range (table.rows * L * cache.numKvHeads)).mapM (fun m =>
        f (m / cache.numKvHeads / L) (m / cache.numKvHeads % L) (m % cache.numKvHeads)) =
      .ok (flatRows table.rows L cache.numKvHeads g) := by
    intro β f g each
    refine mapM_ok _ fun m member => ?_
    have inside := mem_range.mp member
    have heads : 0 < cache.numKvHeads := pos_of_ne_zero fun none => by simp [none] at inside
    have positions : 0 < L := pos_of_ne_zero fun none => by simp [none] at inside
    refine each _ ?_ _ (mod_lt _ positions) _ (mod_lt _ heads)
    rwa [div_lt_iff_lt_mul positions, div_lt_iff_lt_mul heads]
  have rows := flat _ row slot
  have keys := flat (fun b p h => unpackHalf D 0 (row b p h)) key keyHalf
  have values := flat (fun b p h => unpackHalf D (ceilBytes (D * mseBits) + 2) (row b p h)) value valueHalf
  obtain ⟨_, _, _, outK, reconK, viewK, swapK, copyK, doneK, entriesK⟩ := dense_ok refers key shapeK
  obtain ⟨_, _, _, outV, reconV, viewV, swapV, copyV, doneV, entriesV⟩ := dense_ok refers value shapeV
  refine ⟨outK, outV, ?_, doneK, doneV, fun b request h isHead p position => ⟨row b p h, key b p h,
    value b p h,
    slot b request p position h isHead, keyHalf b request p position h isHead,
      valueHalf b request p position h isHead,
    fun d isDim => ⟨entriesK b request h isHead p position d isDim,
      entriesV b request h isHead p position d isDim⟩⟩⟩
  unfold dequantPagedKvWith slotFlat
  rw [flatRows] at rows
  simp only [refers.width, readable.alloc, ranK, ranV, rows, mapM_map, Function.comp_def, keys,
    values, reconK, viewK, swapK, copyK, reconV, viewV, swapV, copyV, ok_bind]
  rfl

theorem dequantPagedKvWith_left {k v : Tensor α} (width : vectors.width = .ok D)
    (left : LeftBuffers cache.numKvHeads D bufs)
    (ran : dequantPagedKvWith vectors cache table seqLens bufs.1 bufs.2 = .ok (k, v, L)) :
    LeftBuffers cache.numKvHeads D (some k, some v) := by
  unfold dequantPagedKvWith at ran
  rw [width, ok_bind] at ran
  obtain ⟨allocLen, -, ran⟩ := bind_ok ran
  obtain ⟨bufK, ranK, shapeK⟩ := reuseBuffer_ok left.1 table.rows allocLen
  obtain ⟨bufV, ranV, shapeV⟩ := reuseBuffer_ok left.2 table.rows allocLen
  rw [ranK, ok_bind, ranV, ok_bind] at ran
  obtain ⟨rows, -, ran⟩ := bind_ok ran
  obtain ⟨kHalves, -, ran⟩ := bind_ok ran
  obtain ⟨kRecon, -, ran⟩ := bind_ok ran
  obtain ⟨vHalves, -, ran⟩ := bind_ok ran
  obtain ⟨vRecon, -, ran⟩ := bind_ok ran
  obtain ⟨kDense, -, ran⟩ := bind_ok ran
  obtain ⟨kSwapped, -, ran⟩ := bind_ok ran
  obtain ⟨kOut, copyK, ran⟩ := bind_ok ran
  obtain ⟨vDense, -, ran⟩ := bind_ok ran
  obtain ⟨vSwapped, -, ran⟩ := bind_ok ran
  obtain ⟨vOut, copyV, ran⟩ := bind_ok ran
  cases pure_ok ran
  refine ⟨fun t found => ?_, fun t found => ?_⟩
  · cases found
    exact ⟨_, _, (copyInto_shape copyK).trans shapeK⟩
  · cases found
    exact ⟨_, _, (copyInto_shape copyV).trans shapeV⟩

end

/-! ### Call after call -/

/-- A call with its cache and the memory of its result. -/
structure CachedCall (α : Type) where
  kvCache : KvCache
  call : TqCall α
  fresh : List Nat → α

section
variable {α : Type} [Field α] (impl : TqImpl) (vectors : VectorDequant α) (fused : Fused α)

/-- The dense keys and values stay with the layer, and the next call may write into them. -/
def TqImpl.forwardTqDequantAttn (bufs : Option (Tensor α) × Option (Tensor α)) (cached : CachedCall α) :
    Except ShapeError (Tensor α) × Option (Tensor α) × Option (Tensor α) :=
  match dequantPagedKvWith vectors cached.kvCache cached.call.blockTables cached.call.seqLens
    bufs.1 bufs.2 with
  | .error e => (.error e, bufs)
  | .ok (k, v, _) => (cached.call.denseAttention impl fused cached.fresh k v, some k, some v)

def TqImpl.buffersAfter (history : List (CachedCall α)) : Option (Tensor α) × Option (Tensor α) :=
  history.foldl (fun bufs cached => (impl.forwardTqDequantAttn vectors fused bufs cached).2) (none, none)

variable {impl vectors}

theorem forwardTqDequantAttn_left {D : Nat} (width : vectors.width = .ok D)
    {bufs : Option (Tensor α) × Option (Tensor α)} {cached : CachedCall α}
    (heads : cached.kvCache.numKvHeads = impl.numKvHeads)
    (left : LeftBuffers impl.numKvHeads D bufs) :
    LeftBuffers impl.numKvHeads D (impl.forwardTqDequantAttn vectors fused bufs cached).2 := by
  unfold TqImpl.forwardTqDequantAttn
  split
  · exact left
  · rename_i k v L ran
    rw [← heads] at left ⊢
    exact dequantPagedKvWith_left width left ran

/-- Whatever batches came before, the buffers have the shape of some batch. -/
theorem buffersAfter_left {D : Nat} (width : vectors.width = .ok D) {history : List (CachedCall α)}
    (heads : ∀ past ∈ history, past.kvCache.numKvHeads = impl.numKvHeads) :
    LeftBuffers impl.numKvHeads D (impl.buffersAfter vectors fused history) := by
  induction history using reverseRecOn with
  | nil => exact ⟨nofun, nofun⟩
  | append_singleton history past ih =>
    have earlier := ih fun other member => heads other (mem_append_left _ member)
    rw [TqImpl.buffersAfter, foldl_append]
    exact forwardTqDequantAttn_left fused width (heads past (mem_append_right _ mem_cons_self)) earlier

end

/-! ### The layer -/

section
variable {α : Type} [Field α]

def centroidTable (q : Quantizer α) : Tensor α := vector q.centroids.length fun c => q.centroids.getD c 0

/-- What the calls of a layer share: the table of rotated centroids once it was derived, and the
buffers of the last call. -/
structure TqLayer (α : Type) [Field α] where
  impl : TqImpl
  quantizer : Quantizer α
  piCentroids : Option (Tensor α)
  dequantBufs : Option (Tensor α) × Option (Tensor α)
  derived : ∀ t, piCentroids = some t →
    computePiCentroids (centroidTable quantizer) (matrix impl.headSize impl.headSize quantizer.pi) = .ok t

namespace TqLayer

def ensureOnDevice (layer : TqLayer α) : Except ShapeError (Tensor α) :=
  match layer.piCentroids with
  | some t => .ok t
  | none =>
    computePiCentroids (centroidTable layer.quantizer)
      (matrix layer.impl.headSize layer.impl.headSize layer.quantizer.pi)

def dequantisedRow (layer : TqLayer α) (fp16 : BitVec 16 → α) (stored : KvCache)
    (table : BlockTable) (start i h p : Nat) : Except ShapeError (List α) := do
  let row ← gatherSlot stored table i p h
  let half ← unpackHalf layer.impl.headSize start row
  return (range layer.impl.headSize).map
    (dequantReference fp16 (fun c => layer.quantizer.centroids.getD c 0) layer.quantizer.pi
      layer.impl.headSize half)

theorem ensureOnDevice_shape {l : TqLayer α} {piCentroids : Tensor α}
    (ran : l.ensureOnDevice = .ok piCentroids) : piCentroids.shape = [l.impl.headSize] := by
  have product : computePiCentroids (centroidTable l.quantizer)
      (matrix l.impl.headSize l.impl.headSize l.quantizer.pi) = .ok piCentroids := by
    unfold ensureOnDevice at ran
    cases cached : l.piCentroids with
    | none => rwa [cached] at ran
    | some t =>
      rw [cached] at ran
      cases ran
      exact l.derived _ cached
  exact (matmul_vector_matrix rfl rfl product).2

variable (layer : TqLayer α) (fp16 : BitVec 16 → α)

/-- Every row is its own query, attended over the dequantised keys and values of its request. -/
def AttendsCache (attend : List α → List (List α × List α) → Nat → α) (stored : KvCache) (call : TqCall α)
    (out : Tensor α) : Prop :=
  ∃ key value, call.RowsAttend layer.impl attend key value out ∧
    ∀ i < call.seqLens.length, ∀ h < layer.impl.numKvHeads, ∀ p < call.seqLens.getD i 0,
      layer.dequantisedRow fp16 stored call.blockTables 0 i h p = .ok (key i h p) ∧
      layer.dequantisedRow fp16 stored call.blockTables (ceilBytes (layer.impl.headSize * mseBits) + 2) i h p =
        .ok (value i h p)

variable [LinearOrder α] (fused : Fused α)

def forward (cached : CachedCall α) : Except ShapeError (Tensor α) :=
  if cached.call.numActualTokens = 0 then .ok ⟨[0, layer.impl.numHeads, layer.impl.headSize], fun _ => 0⟩
  else do
    let piCentroids ← layer.ensureOnDevice
    let stored ← storeTurboquantKv layer.quantizer cached.call.kv cached.kvCache
    (layer.impl.forwardTqDequantAttn (tableVectors fp16 piCentroids) fused layer.dequantBufs
      { cached with kvCache := stored }).1

def AttendsDequantised (attend : List α → List (List α × List α) → Nat → α) (cached : CachedCall α) : Prop :=
  ∃ out, layer.forward fp16 fused cached = .ok out ∧ (0 < cached.call.numActualTokens →
    ∃ stored, storeTurboquantKv layer.quantizer cached.call.kv cached.kvCache = .ok stored ∧
      layer.AttendsCache fp16 attend stored cached.call out)

variable {layer fp16 fused}

/-- In whatever state earlier calls left the layer: the table of rotated centroids has one
dimension, and the dequantisation asks for two. -/
theorem forward_raises {cached : CachedCall α} (some : 0 < cached.call.numActualTokens) (out : Tensor α) :
    layer.forward fp16 fused cached ≠ .ok out := by
  intro ran
  unfold forward at ran
  rw [if_neg some.ne'] at ran
  obtain ⟨piCentroids, derived, ran⟩ := bind_ok ran
  obtain ⟨stored, -, ran⟩ := bind_ok ran
  unfold TqImpl.forwardTqDequantAttn at ran
  split at ran
  · cases ran
  rename_i dequantised
  obtain ⟨D, read⟩ := dequantPagedKv_size dequantised
  rw [ensureOnDevice_shape derived] at read
  cases read

omit [LinearOrder α] in
/-- With vectors that are dequantised as in the reference, neither padding nor the buffers of
earlier calls reach a row. -/
theorem forwardTqDequantAttn_attends {attend : List α → List (List α × List α) → Nat → α}
    (ideal : FusedRows layer.impl fused attend) {vectors : VectorDequant α}
    (refers : vectors.Refers fp16 (fun c => layer.quantizer.centroids.getD c 0) layer.quantizer.pi
      layer.impl.headSize)
    {history : List (CachedCall α)} (before : ∀ past ∈ history,
      past.kvCache.numKvHeads = layer.impl.numKvHeads)
    {cached : CachedCall α} (heads : cached.kvCache.numKvHeads = layer.impl.numKvHeads) {L : Nat}
    (readable : Readable cached.kvCache cached.call.blockTables cached.call.seqLens layer.impl.headSize L) :
    ∃ out, (layer.impl.forwardTqDequantAttn vectors fused
      (layer.impl.buffersAfter vectors fused history) cached).1 = .ok out ∧
      layer.AttendsCache fp16 attend cached.kvCache cached.call out := by
  have left := buffersAfter_left fused refers.width before
  rw [← heads] at left
  obtain ⟨k, v, ran, keys, values, entries⟩ := dequantPagedKvWith_ok refers readable left
  rw [cached.call.tables, heads] at keys values
  obtain ⟨out, attended, rows⟩ := denseAttention_rows ideal keys values readable.long cached.fresh
  refine ⟨out, ?_, vectorAt k layer.impl.headSize, vectorAt v layer.impl.headSize, rows,
    fun i request h isHead p position => ?_⟩
  · unfold TqImpl.forwardTqDequantAttn
    rwa [ran]
  have long : cached.call.seqLens.getD i 0 ≤ L := by
    rw [getD_eq_getElem?_getD, getElem?_eq_getElem request, Option.getD_some]
    exact readable.long _ (getElem_mem request)
  obtain ⟨row, key, value, slot, keyHalf, valueHalf, same⟩ :=
    entries i (by rw [cached.call.tables]; exact request) h (by rw [heads]; exact isHead) p
      (lt_of_lt_of_le position long)
  constructor
  · simp only [dequantisedRow, slot, keyHalf, ok_bind]
    exact congrArg Except.ok (map_congr_left fun d isDim => (same d (mem_range.mp isDim)).1.symm)
  · simp only [dequantisedRow, slot, valueHalf, ok_bind]
    exact congrArg Except.ok (map_congr_left fun d isDim => (same d (mem_range.mp isDim)).2.symm)

/-- The path attends the dequantised keys for no batch that has tokens. What is to blame is the
lookup of the vectors alone: the token rows and the positions of the requests correspond one to one,
and after any calls every row is its own query over its own request, as soon as single vectors are
dequantised as in the reference. -/
theorem forward_attends_iff (layer : TqLayer α) (fp16 : BitVec 16 → α) (fused : Fused α)
    (attend : List α → List (List α × List α) → Nat → α) (ideal : FusedRows layer.impl fused attend)
    (cached : CachedCall α) :
    (layer.AttendsDequantised fp16 fused attend cached ↔ cached.call.numActualTokens = 0) ∧
    (∀ n < cached.call.numActualTokens, ∃! place : Nat × Nat,
      (∃ ql, cached.call.queryLens[place.1]? = some ql ∧ place.2 < ql) ∧
        queryStart cached.call.queryLens place.1 + place.2 = n) ∧
    ∀ (vectors : VectorDequant α) (history : List (CachedCall α)) (L : Nat),
      vectors.Refers fp16 (fun c => layer.quantizer.centroids.getD c 0) layer.quantizer.pi
        layer.impl.headSize →
      (∀ past ∈ cached :: history, past.kvCache.numKvHeads = layer.impl.numKvHeads) →
      Readable cached.kvCache cached.call.blockTables cached.call.seqLens layer.impl.headSize L →
      ∃ out, (layer.impl.forwardTqDequantAttn vectors fused
        (layer.impl.buffersAfter vectors fused history) cached).1 = .ok out ∧
        layer.AttendsCache fp16 attend cached.kvCache cached.call out := by
  refine ⟨⟨?_, fun none => ?_⟩, fun n inside => existsUnique_queryStart inside,
    fun vectors history L refers heads readable => ?_⟩
  · rintro ⟨out, ran, -⟩
    by_contra some
    exact forward_raises (pos_of_ne_zero some) out ran
  · refine ⟨_, if_pos none, fun some => ?_⟩
    rw [none] at some
    cases some
  · exact forwardTqDequantAttn_attends ideal refers (fun past member => heads past (mem_cons_of_mem _ member))
      (heads cached mem_cons_self) readable

end TqLayer

def sixteenCentroids (D : Nat) : TqLayer ℚ where
  impl := ⟨1, 1, D, none⟩
  quantizer := ⟨fun i j => if i = j then 1 else 0, (range 16).map fun c => (c : ℚ), [], fun _ => 1, fun _ => 0⟩
  piCentroids := none
  dequantBufs := (none, none)
  derived := nofun

/-- A batch of chunks on a cache of one zero block. -/
def zeroCall (D : Nat) (queryLens seqLens : List Nat)
    (requests : seqLens.length = queryLens.length) : CachedCall ℚ where
  kvCache := ⟨1, 16, 1, computePaperSlotSize D, fun _ _ => 0⟩
  call :=
    { attnState := .chunkedPrefill
      queryLens := queryLens
      seqLens := seqLens
      blockTables := ⟨seqLens.length, 1, fun _ _ => 0⟩
      query := fun _ _ _ => 0
      kv := ⟨queryLens.sum, 1, D, fun _ _ _ => 0, fun _ _ _ => 0, fun _ => 0⟩
      outputNdim := 3
      requests := requests
      tables := rfl
      cached := nofun
      decode := nofun }
  fresh := fun _ => 0

def referenceVectors (layer : TqLayer ℚ) (fp16 : BitVec 16 → ℚ) : VectorDequant ℚ where
  width := .ok layer.impl.headSize
  rows := fun D halves => .ok (matrix halves.length D fun m d =>
    dequantReference fp16 (fun c => layer.quantizer.centroids.getD c 0) layer.quantizer.pi D
      (halves.getD m ([], 0)) d)

def firstQuery : List ℚ → List (List ℚ × List ℚ) → Nat → ℚ := fun query _ d => query.getD d 0

def ownQuery (D : Nat) : Fused ℚ := rowByRow ⟨1, 1, D, none⟩ firstQuery

/-- Requests with two, no and one queries. -/
def raggedCall : CachedCall ℚ := zeroCall 2 [2, 0, 1] [3, 1, 2] rfl

/-- The buffers are of a batch of four requests with longer sequences. -/
theorem forward_attends_ragged :
    ¬ (sixteenCentroids 2).AttendsDequantised (fun _ => 1) (ownQuery 2) firstQuery raggedCall ∧
    ∃ out, ((sixteenCentroids 2).impl.forwardTqDequantAttn
      (referenceVectors (sixteenCentroids 2) fun _ => 1) (ownQuery 2)
        ((sixteenCentroids 2).impl.buffersAfter (referenceVectors (sixteenCentroids 2) fun _ => 1) (ownQuery 2)
          [zeroCall 2 [1, 1, 1, 1] [9, 9, 9, 9] rfl]) raggedCall).1 = .ok out ∧
      (sixteenCentroids 2).AttendsCache (fun _ => 1) firstQuery raggedCall.kvCache raggedCall.call out := by
  have parts := (sixteenCentroids 2).forward_attends_iff (fun _ => 1) (ownQuery 2) firstQuery
    (rowByRow_rows _ _) raggedCall
  refine ⟨fun attends => absurd (parts.1.mp attends) (by decide), parts.2.2 _ _ 16 ⟨rfl,
    fun halves => ?_⟩ ?_ ⟨rfl, ?_, ?_⟩⟩
  · refine ⟨_, rfl, rfl, fun m half found d _ => ?_⟩
    have entry : halves.getD m ([], 0) = half := by rw [getD_eq_getElem?_getD, found]; rfl
    rw [← entry]
    rfl
  · intro past member
    rcases mem_cons.mp member with rfl | earlier
    · rfl
    · rw [mem_singleton.mp earlier]
      rfl
  · exact succ_pos 15
  · exact fun b _ p _ h _ => ⟨_, _, _, rfl, rfl, rfl⟩

theorem forward_oneToken_raises :
    (sixteenCentroids 128).forward (fun _ => 1) (ownQuery 128) (zeroCall 128 [1] [1] rfl) =
      .error (.matmul [16] [128, 128]) ∧
    ¬ (sixteenCentroids 128).AttendsDequantised (fun _ => 1) (ownQuery 128) firstQuery
      (zeroCall 128 [1] [1] rfl) := by
  refine ⟨rfl, ?_⟩
  rintro ⟨out, ran, -⟩
  exact TqLayer.forward_raises (by decide) out ran


end

end TurboQuant.Ascend
