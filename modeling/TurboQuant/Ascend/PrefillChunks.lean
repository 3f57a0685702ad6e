import Mathlib.Data.Multiset.Bind
import TurboQuant.Lib.Segments

/-!
Prefill context parallelism: the rows a rank holds of every prompt, and the lists its attention
takes keys by.
-/

namespace TurboQuant.Ascend.PrefillChunks
open Segments List Function

structure PcpBatch where
  pcpWorldSize : Nat
  numScheduledTokens : List Nat
  numDecodeReqs : Nat
  decodes : numDecodeReqs ≤ numScheduledTokens.length
  scheduled : ∀ n ∈ numScheduledTokens, 0 < n

/-- Two masked writes, `xs[mask] = hs` and `xs[~mask] = ts`; `none` when a count does not match. -/
def maskedFill : List Bool → List Nat → List Nat → Option (List Nat)
  | [], [], [] => some []
  | true :: mask, h :: hs, ts => (maskedFill mask hs ts).map (h :: ·)
  | false :: mask, hs, t :: ts => (maskedFill mask hs ts).map (t :: ·)
  | _, _, _ => none

namespace PcpBatch
variable (b : PcpBatch)

def numPaddedScheduledTokens : List Nat :=
  (b.numScheduledTokens.take b.numDecodeReqs).map (· * b.pcpWorldSize) ++
    (b.numScheduledTokens.drop b.numDecodeReqs).map fun n =>
      (n + 2 * b.pcpWorldSize - 1) / (2 * b.pcpWorldSize) * (2 * b.pcpWorldSize)

def pcpTokens : List Nat := b.numPaddedScheduledTokens.map (· / b.pcpWorldSize)

def pcpChunkSizes : List Nat :=
  b.pcpTokens.take b.numDecodeReqs ++ (b.pcpTokens.drop b.numDecodeReqs).map fun t => max (t / 2) 1

def numDecodeTokens : Nat := (b.numScheduledTokens.take b.numDecodeReqs).sum

/-- The positions within each request, that is with `positions_start_loc` 0. -/
def getCurrentRankPositions (rank : Nat) : Option (List Nat) :=
  let pcpHeadChunkMask := (b.pcpTokens.zip b.pcpChunkSizes).flatMap fun p =>
    (range p.1).map fun i => decide (i < p.2)
  let heads := b.pcpChunkSizes.flatMap fun c => range' (rank * c) c
  let tails := b.pcpChunkSizes.flatMap fun c => range' ((2 * b.pcpWorldSize - rank - 1) * c) c
  maskedFill pcpHeadChunkMask heads (tails.drop b.numDecodeTokens)

def updateTokensForPcp (rank : Nat) : Option (List Nat × List Nat) :=
  (b.getCurrentRankPositions rank).map fun positions =>
    (b.pcpTokens, (b.numScheduledTokens.take b.numDecodeReqs).flatMap range ++
      positions.drop b.numDecodeTokens)

end PcpBatch

structure PcpMetadata where
  (qHeadIdx qTailIdx : List Nat := [])
  (kvWithQHeadNomaskIdx kvWithQHeadMaskIdx kvWithQTailNomaskIdx kvWithQTailMaskIdx : List Nat := [])
  (kvTailProjIdx kvWithQHeadAttnIdxInTail kvWithQTailAttnIdxInTail : List Nat := [])
  (chunkSeqlens kvWithQHeadNomaskSeqlens kvWithQTailNomaskSeqlens : List Nat := [])
  (headActualSeqLengthsKv tailActualSeqLengthsKv : List Nat := [])
  (qReqOffset kvReqOffset : Nat := 0)

def pyRange (start stop : Nat) : List Nat := range' start (stop - start)

/-- The loop body of `generate_pcp_metadata` for a prefill request. -/
def addRequest (pcpWorldSize rank : Nat) (m : PcpMetadata) (seqLen : Nat) : PcpMetadata :=
  let chunkLen := seqLen / 2
  let qTailChunkId := pcpWorldSize * 2 - 1 - rank
  let q := m.qReqOffset
  let kv := m.kvReqOffset
  let tailProjOffset := m.kvTailProjIdx.length
  let tailProjLen := chunkLen * (qTailChunkId + 1)
  let headInTail := m.kvWithQHeadAttnIdxInTail ++ pyRange tailProjOffset
    (tailProjOffset + chunkLen * (rank + 1))
  let tailInTail := m.kvWithQTailAttnIdxInTail ++ pyRange tailProjOffset (tailProjOffset + tailProjLen)
  { qHeadIdx := m.qHeadIdx ++ pyRange q (q + chunkLen)
    qTailIdx := m.qTailIdx ++ pyRange (q + chunkLen) (q + chunkLen * 2)
    kvWithQHeadNomaskIdx := m.kvWithQHeadNomaskIdx ++ pyRange kv (kv + chunkLen * rank)
    kvWithQHeadMaskIdx := m.kvWithQHeadMaskIdx ++ pyRange (kv + chunkLen * rank) (kv + chunkLen * (rank + 1))
    kvWithQTailNomaskIdx := m.kvWithQTailNomaskIdx ++ pyRange kv (kv + chunkLen * qTailChunkId)
    kvWithQTailMaskIdx := m.kvWithQTailMaskIdx ++
      pyRange (kv + chunkLen * qTailChunkId) (kv + chunkLen * (qTailChunkId + 1))
    kvTailProjIdx := m.kvTailProjIdx ++ pyRange kv (kv + tailProjLen)
    kvWithQHeadAttnIdxInTail := headInTail
    kvWithQTailAttnIdxInTail := tailInTail
    chunkSeqlens := m.chunkSeqlens ++ [chunkLen]
    kvWithQHeadNomaskSeqlens := m.kvWithQHeadNomaskSeqlens ++ [chunkLen * rank]
    kvWithQTailNomaskSeqlens := m.kvWithQTailNomaskSeqlens ++ [chunkLen * qTailChunkId]
    headActualSeqLengthsKv := m.headActualSeqLengthsKv ++ [headInTail.length]
    tailActualSeqLengthsKv := m.tailActualSeqLengthsKv ++ [tailInTail.length]
    qReqOffset := q + seqLen
    kvReqOffset := kv + seqLen * pcpWorldSize }

def generatePcpMetadata (pcpWorldSize rank numDecodeReqs : Nat) (queryLens : List Nat) : PcpMetadata :=
  (queryLens.drop numDecodeReqs).foldl (addRequest pcpWorldSize rank) {}

/-- `torch.cumsum`, from a first total. -/
def cumsum : Nat → List Nat → List Nat
  | _, [] => []
  | total, n :: ns => (total + n) :: cumsum (total + n) ns

namespace PcpMetadata
variable (m : PcpMetadata)

def attnMaskSeqlens : List Nat := cumsum 0 m.chunkSeqlens

def headAttnNomaskSeqlens : List Nat := cumsum 0 m.kvWithQHeadNomaskSeqlens

def tailAttnNomaskSeqlens : List Nat := cumsum 0 m.kvWithQTailNomaskSeqlens

end PcpMetadata

/-- Chunks `a` up to `b` of every request, when a request takes `w` chunks of the list indexed. -/
def placed (w a b : Nat) : Nat → List Nat → List Nat
  | _, [] => []
  | offset, c :: cs => range' (offset + a * c) ((b - a) * c) ++ placed w a b (offset + w * c) cs

theorem pyRange_chunks (offset c a b : Nat) :
    pyRange (offset + c * a) (offset + c * b) = range' (offset + a * c) ((b - a) * c) := by
  rw [pyRange, Nat.add_sub_add_left, ← Nat.mul_sub, mul_comm c a, mul_comm c (b - a)]

theorem pyRange_first (offset c b : Nat) :
    pyRange offset (offset + c * b) = range' (offset + 0 * c) ((b - 0) * c) :=
  pyRange_chunks offset c 0 b

theorem foldl_addRequest (w r : Nat) (cs : List Nat) (m : PcpMetadata) :
    let t := w * 2 - 1 - r
    let proj := m.kvTailProjIdx.length
    (cs.map (2 * ·)).foldl (addRequest w r) m =
      { qHeadIdx := m.qHeadIdx ++ placed 2 0 1 m.qReqOffset cs
        qTailIdx := m.qTailIdx ++ placed 2 1 2 m.qReqOffset cs
        kvWithQHeadNomaskIdx := m.kvWithQHeadNomaskIdx ++ placed (2 * w) 0 r m.kvReqOffset cs
        kvWithQHeadMaskIdx := m.kvWithQHeadMaskIdx ++ placed (2 * w) r (r + 1) m.kvReqOffset cs
        kvWithQTailNomaskIdx := m.kvWithQTailNomaskIdx ++ placed (2 * w) 0 t m.kvReqOffset cs
        kvWithQTailMaskIdx := m.kvWithQTailMaskIdx ++ placed (2 * w) t (t + 1) m.kvReqOffset cs
        kvTailProjIdx := m.kvTailProjIdx ++ placed (2 * w) 0 (t + 1) m.kvReqOffset cs
        kvWithQHeadAttnIdxInTail := m.kvWithQHeadAttnIdxInTail ++ placed (t + 1) 0 (r + 1) proj cs
        kvWithQTailAttnIdxInTail := m.kvWithQTailAttnIdxInTail ++ placed (t + 1) 0 (t + 1) proj cs
        chunkSeqlens := m.chunkSeqlens ++ cs
        kvWithQHeadNomaskSeqlens := m.kvWithQHeadNomaskSeqlens ++ cs.map (· * r)
        kvWithQTailNomaskSeqlens := m.kvWithQTailNomaskSeqlens ++ cs.map (· * t)
        headActualSeqLengthsKv :=
          m.headActualSeqLengthsKv ++ cumsum m.kvWithQHeadAttnIdxInTail.length (cs.map (· * (r + 1)))
        tailActualSeqLengthsKv :=
          m.tailActualSeqLengthsKv ++ cumsum m.kvWithQTailAttnIdxInTail.length (cs.map (· * (t + 1)))
        qReqOffset := m.qReqOffset + (cs.map (2 * ·)).sum
        kvReqOffset := m.kvReqOffset + (cs.map (2 * w * ·)).sum } := by
  intro t proj
  induction cs generalizing m with
  | nil => simp [placed, cumsum]
  | cons c cs ih =>
    have half : 2 * c / 2 = c := by omega
    have head : ∀ q, pyRange q (q + c) = range' (q + 0 * c) ((1 - 0) * c) := fun q => by
      simpa using pyRange_first q c 1
    have tail : ∀ q, pyRange (q + c) (q + c * 2) = range' (q + 1 * c) ((2 - 1) * c) := fun q => by
      simpa using pyRange_chunks q c 1 2
    have width : 2 * c * w = 2 * w * c := by ring
    rw [map_cons, foldl_cons, ih]
    simp only [addRequest, half, head, tail, width, pyRange_chunks, pyRange_first]
    simp [placed, cumsum, Nat.add_assoc, mul_comm c, t, proj]

variable {α : Type*}

theorem map_getElem?_middle (before part after : List α) {i n : Nat} (within : i + n ≤ part.length) :
    (range' (before.length + i) n).map ((before ++ (part ++ after))[·]?) =
      (slice part i (i + n)).map some := by
  apply ext_getElem?
  intro k
  by_cases lt : k < n
  · have inside : i + k < part.length := by omega
    simp [slice, lt, getElem?_append_right, Nat.add_assoc, getElem?_append_left inside,
      getElem?_eq_getElem inside]
  · simp [slice, lt]

variable {w a d : Nat}

theorem placed_select (le : a ≤ d) (within : d ≤ w) {rs : Nat × Nat → List α}
    (size : ∀ p, (rs p).length = w * p.1) (cs : List Nat) (k : Nat) (before : List α) :
    (placed w a d before.length cs).map ((before ++ (cs.zipIdx k).flatMap rs)[·]?) =
      ((cs.zipIdx k).flatMap fun p => slice (rs p) (a * p.1) (d * p.1)).map some := by
  induction cs generalizing k before with
  | nil => rfl
  | cons c cs ih =>
    have upTo : a * c + (d - a) * c = d * c := by rw [← Nat.add_mul, Nat.add_sub_cancel' le]
    have fits : a * c + (d - a) * c ≤ (rs (c, k)).length := by
      rw [upTo, size]
      exact Nat.mul_le_mul_right c within
    have rest := ih (k + 1) (before ++ rs (c, k))
    rw [length_append, size, append_assoc] at rest
    rw [placed, zipIdx_cons, flatMap_cons, flatMap_cons, map_append, map_append, rest,
      map_getElem?_middle before (rs (c, k)) _ fits, upTo]

theorem maskedFill_chunk (mask : List Bool) (hs ts hs' ts' : List Nat) :
    maskedFill (replicate hs.length true ++ (replicate ts.length false ++ mask)) (hs ++ hs') (ts ++ ts') =
      (maskedFill mask hs' ts').map fun l => hs ++ (ts ++ l) := by
  induction hs with
  | nil =>
    induction ts with
    | nil => simp
    | cons t ts ih => simpa [maskedFill, replicate_succ, comp_def] using congrArg (Option.map (t :: ·)) ih
  | cons h hs ih => simpa [maskedFill, replicate_succ, comp_def] using congrArg (Option.map (h :: ·)) ih

theorem maskedFill_chunks (l : List (List Nat × List Nat)) :
    maskedFill (l.flatMap fun p => replicate p.1.length true ++ replicate p.2.length false) (l.flatMap (·.1))
      (l.flatMap (·.2)) = some (l.flatMap fun p => p.1 ++ p.2) := by
  induction l with
  | nil => rfl
  | cons p l ih => simp [flatMap_cons, maskedFill_chunk, ih]

theorem map_lt_range (c d : Nat) :
    ((range (c + d)).map fun i => decide (i < c)) = replicate c true ++ replicate d false := by
  rw [range_add, map_append, map_map]
  congr 1 <;> simp +contextual [eq_replicate_iff]

theorem zip_map_self (f : Nat → α) (l : List Nat) : (l.map f).zip l = l.map fun a => (f a, a) := by
  simpa using zip_map' (l := l) (f := f) (g := id)

variable {f : Nat → List Nat}

theorem zip_requests (size : ∀ c, (f c).length = 2 * c) (cs : List Nat) (k : Nat) :
    (((cs.map (2 * ·)).zipIdx k).flatMap fun p => replicate p.1 p.2).zip (cs.flatMap f) =
      (cs.zipIdx k).flatMap fun p => (f p.1).map (p.2, ·) := by
  induction cs generalizing k with
  | nil => rfl
  | cons c cs ih =>
    have first : (replicate (2 * c) k).zip (f c) = (f c).map (k, ·) := by
      simpa [size] using zip_map_self (fun _ => k) (f c)
    simp only [map_cons, zipIdx_cons, flatMap_cons]
    rw [zip_append (by simp [size]), first, ih]

namespace PcpBatch
variable (b : PcpBatch)

/-- The rows of the prefill requests once restored: request and position, padding included. -/
def restoredRows : List (Nat × Nat) :=
  (b.numPaddedScheduledTokens.drop b.numDecodeReqs).zipIdx.flatMap fun p => (range p.1).map (p.2, ·)

/-- The prefill rows a rank holds. -/
def rankRows (rank : Nat) : Option (List (Nat × Nat)) :=
  (b.updateTokensForPcp rank).map fun out =>
    ((out.1.drop b.numDecodeReqs).zipIdx.flatMap fun p => replicate p.1 p.2).zip (out.2.drop b.numDecodeTokens)

/-- Chunks `first` up to `last` of each prefill request, of the `2 * pcpWorldSize` its padded tokens
are cut into. -/
def chunks (first last : Nat) : List (List (Nat × Nat)) :=
  (b.numPaddedScheduledTokens.drop b.numDecodeReqs).zipIdx.map fun p =>
    let chunkLen := p.1 / (2 * b.pcpWorldSize)
    (range' (first * chunkLen) ((last - first) * chunkLen)).map (p.2, ·)

def chunkLens : List Nat :=
  (b.numScheduledTokens.drop b.numDecodeReqs).map fun n => (n + 2 * b.pcpWorldSize - 1) / (2 * b.pcpWorldSize)

theorem padded_drop : b.numPaddedScheduledTokens.drop b.numDecodeReqs =
    b.chunkLens.map (· * (2 * b.pcpWorldSize)) := by
  rw [numPaddedScheduledTokens, drop_left' (by simp [b.decodes]), chunkLens, map_map]
  rfl

section
variable (pos : 0 < b.pcpWorldSize)
include pos

theorem pcpTokens_eq : b.pcpTokens = b.numScheduledTokens.take b.numDecodeReqs ++ b.chunkLens.map (2 * ·) := by
  have double : ∀ c, c * (2 * b.pcpWorldSize) / b.pcpWorldSize = 2 * c := fun c => by
    rw [← mul_assoc, Nat.mul_div_cancel _ pos, mul_comm]
  simp [pcpTokens, numPaddedScheduledTokens, chunkLens, comp_def, Nat.mul_div_cancel _ pos, double]

theorem pcpTokens_drop : b.pcpTokens.drop b.numDecodeReqs = b.chunkLens.map (2 * ·) := by
  rw [b.pcpTokens_eq pos, drop_left' (by simp [b.decodes])]

theorem pcpChunkSizes_eq :
    b.pcpChunkSizes = b.numScheduledTokens.take b.numDecodeReqs ++ b.chunkLens := by
  -- A scheduled request has a token, so no chunk is empty and the clip of the source leaves it.
  have clip : b.chunkLens.map ((fun t => max (t / 2) 1) ∘ (2 * ·)) = b.chunkLens := by
    refine (map_congr_left fun c mem => ?_).trans (map_id _)
    obtain ⟨n, member, rfl⟩ := mem_map.mp mem
    have some := b.scheduled n (mem_of_mem_drop member)
    have one : 1 ≤ (n + 2 * b.pcpWorldSize - 1) / (2 * b.pcpWorldSize) := Nat.div_pos (by omega) (by omega)
    simp [one]
  rw [pcpChunkSizes, pcpTokens_drop b pos, pcpTokens_eq b pos, take_left' (by simp [b.decodes]), map_map, clip]

theorem getCurrentRankPositions_eq (r : Nat) : b.getCurrentRankPositions r =
      some (((b.numScheduledTokens.take b.numDecodeReqs).flatMap fun n => range' (r * n) n) ++
        b.chunkLens.flatMap fun c => range' (r * c) c ++ range' ((2 * b.pcpWorldSize - r - 1) * c) c) := by
  let ds := b.numScheduledTokens.take b.numDecodeReqs
  let t := 2 * b.pcpWorldSize - r - 1
  have whole : ∀ n, ((range n).map fun i => decide (i < n)) = replicate n true :=
    fun n => by simpa using map_lt_range n 0
  have halves : ∀ c, ((range (2 * c)).map fun i => decide (i < c)) = replicate c true ++
    replicate c false := fun c => by
    rw [two_mul, map_lt_range]
  have masks : b.pcpTokens.zip b.pcpChunkSizes = ds.map (fun n => (n, n)) ++
      b.chunkLens.map fun c => (2 * c, c) := by
    rw [pcpTokens_eq b pos, pcpChunkSizes_eq b pos, zip_append rfl, zip_map_self]
    simpa using zip_map_self id ds
  have tails : (b.pcpChunkSizes.flatMap fun c => range' (t * c) c).drop b.numDecodeTokens =
      b.chunkLens.flatMap fun c => range' (t * c) c := by
    rw [pcpChunkSizes_eq b pos, flatMap_append, drop_left' (by simp [length_flatMap, numDecodeTokens])]
  have fill := maskedFill_chunks (ds.map (fun n => (range' (r * n) n, [])) ++
    b.chunkLens.map fun c => (range' (r * c) c, range' (t * c) c))
  have none : (ds.flatMap fun _ => ([] : List Nat)) = [] := by simp
  simp only [flatMap_append, flatMap_map, length_range', length_nil, replicate_zero, append_nil,
    none, nil_append] at fill
  rw [getCurrentRankPositions, masks, tails, pcpChunkSizes_eq b pos]
  simp only [flatMap_append, flatMap_map, whole, halves]
  exact fill

theorem rankRows_eq (r : Nat) : b.rankRows r = some (b.chunkLens.zipIdx.flatMap fun p =>
      (range' (r * p.1) p.1 ++ range' ((2 * b.pcpWorldSize - r - 1) * p.1) p.1).map (p.2, ·)) := by
  have rows := zip_requests
    (f := fun c => range' (r * c) c ++ range' ((2 * b.pcpWorldSize - r - 1) * c) c)
      (by simp [two_mul]) b.chunkLens 0
  have first : ((b.numScheduledTokens.take b.numDecodeReqs).flatMap fun n =>
      range' (r * n) n).length = b.numDecodeTokens := by
    simp [length_flatMap, numDecodeTokens]
  have decode : ((b.numScheduledTokens.take b.numDecodeReqs).flatMap range).length = b.numDecodeTokens := by
    simp [length_flatMap, numDecodeTokens]
  rw [rankRows, updateTokensForPcp, getCurrentRankPositions_eq b pos, Option.map_some,
    Option.map_some, drop_left' first, drop_left' decode, pcpTokens_drop b pos, rows]

theorem chunks_eq (a d : Nat) :
    b.chunks a d = b.chunkLens.zipIdx.map fun p => (range' (a * p.1) ((d - a) * p.1)).map (p.2, ·) := by
  have chunk : ∀ c, c * (2 * b.pcpWorldSize) / (2 * b.pcpWorldSize) = c :=
    fun c => Nat.mul_div_cancel c (by omega)
  rw [chunks, padded_drop, zipIdx_map, map_map]
  simp [comp_def, chunk]

theorem chunks_length (a d : Nat) : (b.chunks a d).map length = b.chunkLens.map (· * (d - a)) := by
  rw [chunks_eq b pos, map_map]
  conv_rhs => rw [← zipIdx_map_fst 0 b.chunkLens, map_map]
  simp [comp_def, mul_comm]

end

end PcpBatch

/-- The rows that a list of indices takes, request after request. -/
def Selects {α : Type*} (idx : List Nat) (rows : List α) (parts : List (List α)) : Prop :=
  idx.map (rows[·]?) = parts.flatten.map some

namespace PcpBatch
variable (b : PcpBatch) (pos : 0 < b.pcpWorldSize)
include pos

theorem selects_slices {w a d x y : Nat} (le : a ≤ d) (within : d ≤ w)
    (size : ∀ c, (f c).length = w * c) (cut : ∀ c,
      slice (f c) (a * c) (d * c) = range' (x * c) ((y - x) * c)) :
    Selects (placed w a d 0 b.chunkLens) (b.chunkLens.zipIdx.flatMap fun p => (f p.1).map (p.2, ·))
      (b.chunks x y) := by
  have sizes : ∀ p : Nat × Nat, ((f p.1).map (p.2, ·)).length = w * p.1 := by simp [size]
  have chosen := placed_select le within sizes b.chunkLens 0 []
  have parts : ∀ p : Nat × Nat, slice ((f p.1).map (p.2, ·)) (a * p.1) (d * p.1) =
      (range' (x * p.1) ((y - x) * p.1)).map (p.2, ·) := fun p => by
    rw [← cut, slice, slice, map_drop, map_take]
  simp only [parts] at chosen
  rwa [Selects, chunks_eq b pos, ← flatMap_def]

theorem flatten_chunks (w : Nat) :
    (b.chunks 0 w).flatten = b.chunkLens.zipIdx.flatMap fun p => (range (w * p.1)).map (p.2, ·) := by
  rw [chunks_eq b pos, ← flatMap_def]
  simp [range_eq_range']

theorem restoredRows_eq : b.restoredRows = (b.chunks 0 (2 * b.pcpWorldSize)).flatten := by
  rw [flatten_chunks b pos, restoredRows, padded_drop, zipIdx_map, flatMap_map]
  simp [mul_comm]

theorem selects_chunks (le : a ≤ d) (within : d ≤ w) :
    Selects (placed w a d 0 b.chunkLens) (b.chunks 0 w).flatten (b.chunks a d) := by
  rw [flatten_chunks b pos]
  refine b.selects_slices pos le within (fun _ => length_range) fun c => ?_
  rw [slice, take_range, Nat.min_eq_left (Nat.mul_le_mul_right c within), range_eq_range',
    drop_range', Nat.sub_mul]
  simp

end PcpBatch

/-- What the attention of a rank takes, of its own rows and of the restored keys: each query chunk,
the chunks before it without a mask and itself with one, with the lengths up to every request. -/
theorem generatePcpMetadata_selects (b : PcpBatch) (rank : Fin b.pcpWorldSize) :
    let m := generatePcpMetadata b.pcpWorldSize rank b.numDecodeReqs b.pcpTokens
    let head := rank.val
    let tail := 2 * b.pcpWorldSize - 1 - rank
    let proj := (b.chunks 0 (tail + 1)).flatten
    (∃ rs, b.rankRows rank = some rs ∧
      Selects m.qHeadIdx rs (b.chunks head (head + 1)) ∧ Selects m.qTailIdx rs (b.chunks tail (tail + 1))) ∧
    Selects m.kvWithQHeadNomaskIdx b.restoredRows (b.chunks 0 head) ∧
    Selects m.kvWithQHeadMaskIdx b.restoredRows (b.chunks head (head + 1)) ∧
    Selects m.kvWithQTailNomaskIdx b.restoredRows (b.chunks 0 tail) ∧
    Selects m.kvWithQTailMaskIdx b.restoredRows (b.chunks tail (tail + 1)) ∧
    Selects m.kvTailProjIdx b.restoredRows (b.chunks 0 (tail + 1)) ∧
    Selects m.kvWithQHeadAttnIdxInTail proj (b.chunks 0 (head + 1)) ∧
    Selects m.kvWithQTailAttnIdxInTail proj (b.chunks 0 (tail + 1)) ∧
    m.attnMaskSeqlens = cumsum 0 ((b.chunks head (head + 1)).map length) ∧
    m.attnMaskSeqlens = cumsum 0 ((b.chunks tail (tail + 1)).map length) ∧
    m.headAttnNomaskSeqlens = cumsum 0 ((b.chunks 0 head).map length) ∧
    m.tailAttnNomaskSeqlens = cumsum 0 ((b.chunks 0 tail).map length) ∧
    m.headActualSeqLengthsKv = cumsum 0 ((b.chunks 0 (head + 1)).map length) ∧
    m.tailActualSeqLengthsKv = cumsum 0 ((b.chunks 0 (tail + 1)).map length) := by
  intro m head tail proj
  have lt := rank.isLt
  have pos : 0 < b.pcpWorldSize := by omega
  have swap : b.pcpWorldSize * 2 - 1 - rank.val = tail := by omega
  have swap' : 2 * b.pcpWorldSize - rank.val - 1 = tail := by omega
  have built := foldl_addRequest b.pcpWorldSize rank b.chunkLens {}
  rw [← PcpBatch.pcpTokens_drop b pos] at built
  change m = _ at built
  simp only [swap, length_nil, nil_append] at built
  rw [built, b.restoredRows_eq pos, b.rankRows_eq pos, swap']
  simp only [PcpMetadata.attnMaskSeqlens, PcpMetadata.headAttnNomaskSeqlens, PcpMetadata.tailAttnNomaskSeqlens,
    b.chunks_length pos, proj]
  refine ⟨⟨_, rfl, ?_, ?_⟩, ?_, ?_, ?_, ?_, ?_, ?_, ?_, ?_⟩
  · refine b.selects_slices pos (Nat.zero_le 1) (by omega) (f := fun c => range' (rank * c) c ++
      range' (tail * c) c) (by simp [two_mul]) fun c => ?_
    simpa [head] using slice_middle [] (range' (rank * c) c) (range' (tail * c) c) rfl rfl
  · refine b.selects_slices pos (Nat.le_succ 1) (by omega) (f := fun c => range' (rank * c) c ++
      range' (tail * c) c) (by simp [two_mul]) fun c => ?_
    simpa [two_mul] using slice_middle (range' (rank * c) c) (range' (tail * c) c) [] rfl rfl
  iterate 7 exact b.selects_chunks pos (by omega) (by omega)
  simp [head]

theorem flatMap_chunks (c first n : Nat) :
    ((range n).flatMap fun k => range' ((first + k) * c) c) = range' (first * c) (n * c) := by
  induction n with
  | zero => simp
  | succ n ih =>
    rw [range_succ, flatMap_append, ih, flatMap_singleton, add_mul first, range'_append_1, Nat.succ_mul]

theorem headTail_perm (w c : Nat) :
    ((range w).flatMap fun r => range' (r * c) c ++ range' ((2 * w - r - 1) * c) c).Perm
      (range (2 * w * c)) := by
  have heads : ((range w).flatMap fun r => range' (r * c) c) = range' 0 (w * c) := by
    simpa using flatMap_chunks c 0 w
  have tails : ((range w).flatMap fun r => range' ((2 * w - r - 1) * c) c).Perm (range' (w * c) (w * c)) := by
    rw [← flatMap_chunks c w w]
    have flip : (range w).map (fun r => 2 * w - r - 1) = ((range w).map (w + ·)).reverse := by
      apply ext_getElem (by simp)
      intro i lt _
      rw [length_map, length_range] at lt
      simp
      omega
    have mapped := (reverse_perm ((range w).map (w + ·))).flatMap_right fun k => range' (k * c) c
    rw [← flip] at mapped
    simpa [flatMap_map] using mapped
  have whole : range (2 * w * c) = range' 0 (w * c) ++ range' (w * c) (w * c) := by
    rw [range_eq_range', mul_assoc, two_mul, ← range'_append_1, zero_add]
  refine (flatMap_append_perm _ _ _).symm.trans ?_
  rw [heads, whole]
  exact tails.append_left _

/-- Together the ranks hold every padded position of every prefill request once. -/
theorem rankRows_perm (b : PcpBatch) : ∃ rows : Nat → List (Nat × Nat),
    (∀ rank < b.pcpWorldSize, b.rankRows rank = some (rows rank)) ∧
      ((range b.pcpWorldSize).flatMap rows).Perm b.restoredRows := by
  rcases b.pcpWorldSize.eq_zero_or_pos with zero | pos
  · refine ⟨fun _ => [], by simp [zero], ?_⟩
    rw [PcpBatch.restoredRows, b.padded_drop, zipIdx_map, flatMap_map]
    simp [zero]
  refine ⟨_, fun rank _ => b.rankRows_eq pos rank, ?_⟩
  rw [b.restoredRows_eq pos, b.flatten_chunks pos, ← Multiset.coe_eq_coe]
  simp only [← Multiset.coe_bind]
  rw [Multiset.bind_bind]
  refine Multiset.bind_congr fun p _ => ?_
  rw [Multiset.coe_bind, Multiset.coe_eq_coe, ← map_flatMap]
  exact (headTail_perm b.pcpWorldSize p.1).map _

/-- The batch of the docstring of `update_tokens_for_pcp`, with one decode request. -/
def docstringBatch : PcpBatch := ⟨2, [1, 5, 8], 1, by decide, by decide⟩

example : docstringBatch.updateTokensForPcp 0 = some ([1, 4, 4], [0, 0, 1, 6, 7, 0, 1, 6, 7]) ∧
    docstringBatch.updateTokensForPcp 1 = some ([1, 4, 4], [0, 2, 3, 4, 5, 2, 3, 4, 5]) := by decide

/-- Whatever the rank, its two query chunks of a request have as many unmasked keys together. -/
theorem generatePcpMetadata_balanced (b : PcpBatch) (rank : Fin b.pcpWorldSize) :
    let m := generatePcpMetadata b.pcpWorldSize rank b.numDecodeReqs b.pcpTokens
    m.chunkSeqlens = b.chunkLens ∧ zipWith (· + ·) m.kvWithQHeadNomaskSeqlens m.kvWithQTailNomaskSeqlens =
      b.chunkLens.map (· * (2 * b.pcpWorldSize - 1)) := by
  intro m
  have lt := rank.isLt
  have built := foldl_addRequest b.pcpWorldSize rank b.chunkLens {}
  rw [← PcpBatch.pcpTokens_drop b (by omega)] at built
  change m = _ at built
  have both : ∀ c, c * rank.val + c * (b.pcpWorldSize * 2 - 1 - rank.val) =
    c * (2 * b.pcpWorldSize - 1) := fun c => by
    rw [← Nat.mul_add, mul_comm b.pcpWorldSize 2, Nat.add_sub_cancel' (by omega)]
  rw [built]
  simp [zipWith_map, both]

end TurboQuant.Ascend.PrefillChunks
