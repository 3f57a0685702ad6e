import Mathlib.Algebra.Order.Ring.Nat
import Mathlib.Data.List.Dedup
import TurboQuant.Lib.Outcome

/-!
The classes of cache formats with their page sizes, and the merge of the formats of several layers
into one.
-/

namespace TurboQuant.Core

inductive TorchDtype where
  | uint8 | float16 | bfloat16 | float32
  deriving DecidableEq, Repr

def getDtypeSize : TorchDtype → Nat
  | .uint8 => 1
  | .float16 => 2
  | .bfloat16 => 2
  | .float32 => 4

inductive PlanError where
  | assertion | value | attribute | notImplemented | zeroDivision | index
  deriving DecidableEq, Repr

namespace CacheSpecs
open Outcome List

inductive KVQuantMode where
  | none | fp8PerTensor | int8PerTokenHead | fp8PerTokenHead | nvfp4
  deriving DecidableEq, Repr

def KVQuantMode.isPerTokenHead : KVQuantMode → Bool
  | .int8PerTokenHead | .fp8PerTokenHead => true
  | _ => false

structure FullFields where
  headSizeV : Nat
  slidingWindow : Option Nat
  attentionChunkSize : Option Nat
  deriving DecidableEq, Repr

structure MlaFormat where
  cacheDtypeStr : Option String
  compressRatio : Nat
  modelVersion : Option String
  deriving DecidableEq, Repr

inductive SpecClass where
  | fullAttention (full : FullFields)
  | tqFullAttention (full : FullFields) (tqSlotSize : Nat)
  | sinkFullAttention (full : FullFields) (sinkLen : Option Nat)
  | mlaAttention (format : MlaFormat)
  | chunkedLocalAttention (attentionChunkSize : Nat)
  | slidingWindow (window headSizeV : Nat)
  | slidingWindowMla (window : Nat) (format : MlaFormat)
  | encoderOnlyAttention
  | crossAttention
  deriving DecidableEq, Repr

/-- `fields(AttentionSpec)` -/
structure SpecFields where
  blockSize : Nat
  numKvHeads : Nat
  headSize : Nat
  dtype : TorchDtype
  kvQuantMode : KVQuantMode
  pageSizePadded : Option Nat
  deriving DecidableEq, Repr

structure AttentionSpec extends SpecFields where
  cls : SpecClass
  deriving DecidableEq, Repr

namespace AttentionSpec
variable (s : AttentionSpec)

def storageBlockSize (format : MlaFormat) : Except PlanError Nat :=
  if format.compressRatio = 0 then .error .zeroDivision else .ok (s.blockSize / format.compressRatio)

def fullPageSize (headSizeV : Nat) : Nat :=
  let dim headSize := if s.kvQuantMode = .nvfp4 then headSize / 2 + headSize / 16 else headSize
  s.blockSize * s.numKvHeads * (dim s.headSize + dim headSizeV) * getDtypeSize s.dtype

def latentPageSize (format : MlaFormat) : Except PlanError Nat :=
  (s.storageBlockSize format).map (· * s.numKvHeads * s.headSize * getDtypeSize s.dtype)

def realPageSizeBytes : Except PlanError Nat :=
  match s.cls with
  | .fullAttention full => .ok (s.fullPageSize full.headSizeV)
  | .sinkFullAttention full _ => .ok (s.fullPageSize full.headSizeV)
  | .tqFullAttention full slot => .ok (if 0 < slot then s.blockSize * s.numKvHeads * slot
    else s.fullPageSize full.headSizeV)
  | .mlaAttention format =>
    if format.cacheDtypeStr = some "fp8_ds_mla" then
      if format.modelVersion = some "deepseek_v4" then (s.storageBlockSize format).map (· * 584)
      else .ok (s.blockSize * 656)
    else s.latentPageSize format
  | .slidingWindowMla _ format =>
    if format.modelVersion = some "deepseek_v4" then (s.storageBlockSize format).map (· * 584)
    else if format.modelVersion.isSome then .error .assertion
    else s.latentPageSize format
  | .slidingWindow _ headSizeV =>
    .ok (s.blockSize * s.numKvHeads * (s.headSize + headSizeV) * getDtypeSize s.dtype)
  | _ => .ok (2 * s.blockSize * s.numKvHeads * s.headSize * getDtypeSize s.dtype)

def scaleBytes : Nat :=
  if s.kvQuantMode.isPerTokenHead then 2 * s.blockSize * s.numKvHeads * getDtypeSize .float32 else 0

def pageSizeBytes : Except PlanError Nat :=
  s.realPageSizeBytes.bind fun real =>
    match s.pageSizePadded with
    | none => .ok (real + s.scaleBytes)
    | some padded => if real + s.scaleBytes ≤ padded then .ok padded else .error .assertion

/-- The fields of a full-attention spec that is not an MLA spec. -/
def full? : Option FullFields :=
  match s.cls with
  | .fullAttention full => some full
  | .tqFullAttention full _ => some full
  | .sinkFullAttention full _ => some full
  | _ => none

end AttentionSpec

def mergeWindowSizes : List Nat → Except PlanError (Option Nat)
  | [] => .ok none
  | [w] => .ok (some w)
  | _ => .error .value

/-- `FullAttentionSpec.merge` up to the class of its result: the window and the chunk size. -/
def mergeFull (first : AttentionSpec) (specs : List AttentionSpec) :
    Except PlanError (Option Nat × Option Nat) :=
  if specs.all (·.full?.isSome) then
    (mergeWindowSizes (specs.filterMap (·.full?.bind (·.slidingWindow))).dedup).bind fun window =>
      (mergeWindowSizes (specs.filterMap (·.full?.bind (·.attentionChunkSize))).dedup).bind fun chunk =>
        if specs.all (·.toSpecFields == first.toSpecFields) && !(window.isSome && chunk.isSome) then
          .ok (window, chunk)
        else .error .assertion
  else .error .assertion

/-- `all(s.tq_slot_size == specs[0].tq_slot_size for s in specs)`, which stops at the first other
size and raises at a spec that has no slot size. -/
def slotsAgree (slot : Nat) : List AttentionSpec → Except PlanError Bool
  | [] => .ok true
  | s :: rest =>
    match s.cls with
    | .tqFullAttention _ slot' => if slot' = slot then slotsAgree slot rest else .ok false
    | _ => .error .attribute

/-- `specs[0].merge(specs)` -/
def merge : List AttentionSpec → Except PlanError AttentionSpec
  | [] => .error .index
  | first :: rest =>
    let specs := first :: rest
    match first.cls with
    | .fullAttention full => (mergeFull first specs).map fun sizes =>
        { first with cls := .fullAttention ⟨full.headSizeV, sizes.1, sizes.2⟩ }
    | .sinkFullAttention full sinkLen => (mergeFull first specs).map fun sizes =>
        { first with cls := .sinkFullAttention ⟨full.headSizeV, sizes.1, sizes.2⟩ sinkLen }
    | .tqFullAttention full slot => (mergeFull first specs).bind fun sizes => (slotsAgree slot specs).bind fun same =>
        if same then .ok { first with cls := .tqFullAttention ⟨full.headSizeV, sizes.1, sizes.2⟩ slot }
        else .error .assertion
    | .mlaAttention format => if specs.all (·.cls == .mlaAttention format) then .ok first else .error .assertion
    -- the quantization mode is not passed on
    | .slidingWindowMla window format =>
      if specs.all (·.cls == .slidingWindowMla window format)
      then .ok { first with kvQuantMode := .none } else .error .assertion
    | _ => if rest.all (· == first) then .ok first else .error .assertion

def AttentionSpec.mergedPage (s : AttentionSpec) : Except PlanError Nat :=
  match s.cls with
  | .slidingWindowMla _ _ => AttentionSpec.pageSizeBytes { s with kvQuantMode := .none }
  | _ => s.pageSizeBytes

variable {first merged : AttentionSpec} {rest : List AttentionSpec}

theorem merge_layout (ran : merge (first :: rest) = .ok merged) :
    merged.blockSize = first.blockSize ∧ merged.pageSizeBytes = first.mergedPage := by
  obtain ⟨fields, cls⟩ := first
  unfold merge at ran
  cases cls with
  | fullAttention full =>
    obtain ⟨sizes, -, rfl⟩ := map_ok ran
    exact ⟨rfl, rfl⟩
  | sinkFullAttention full sinkLen =>
    obtain ⟨sizes, -, rfl⟩ := map_ok ran
    exact ⟨rfl, rfl⟩
  | tqFullAttention full slot =>
    obtain ⟨sizes, -, agree⟩ := bind_ok ran
    obtain ⟨same, -, agree⟩ := bind_ok agree
    split at agree <;> cases agree
    exact ⟨rfl, rfl⟩
  | _ =>
    dsimp only at ran
    split at ran <;> cases ran
    exact ⟨rfl, rfl⟩

/-! ### What the merges compare -/

/-- What the merge of a list has compared, by the class of its first spec. -/
def Checked (first s : AttentionSpec) : Prop :=
  match first.cls with
  | .fullAttention _ => s.full?.isSome ∧ s.toSpecFields = first.toSpecFields
  | .sinkFullAttention _ _ => s.full?.isSome ∧ s.toSpecFields = first.toSpecFields
  | .tqFullAttention _ slot =>
    (∃ full, s.cls = .tqFullAttention full slot) ∧ s.toSpecFields = first.toSpecFields
  | .mlaAttention format => s.cls = .mlaAttention format
  | .slidingWindowMla window format => s.cls = .slidingWindowMla window format
  | _ => s = first

variable {specs : List AttentionSpec}

theorem mergeFull_ok {first : AttentionSpec} {sizes : Option Nat × Option Nat}
    (ran : mergeFull first specs = .ok sizes) : ∀ s ∈ specs, s.full?.isSome ∧
      s.toSpecFields = first.toSpecFields := by
  unfold mergeFull at ran
  split at ran
  · rename_i full
    obtain ⟨window, -, ran⟩ := bind_ok ran
    obtain ⟨chunk, -, ran⟩ := bind_ok ran
    split at ran
    · rename_i same
      intro s mem
      exact ⟨all_eq_true.mp full s mem, eq_of_beq (all_eq_true.mp (Bool.and_eq_true_iff.mp same).1 s mem)⟩
    · cases ran
  · cases ran

theorem slotsAgree_true {slot : Nat} (ran : slotsAgree slot specs = .ok true) :
    ∀ s ∈ specs, ∃ full, s.cls = .tqFullAttention full slot := by
  induction specs with
  | nil => intro s mem; cases mem
  | cons head rest ih =>
    rw [slotsAgree] at ran
    split at ran
    · rename_i full slot' cls
      split at ran
      · rename_i same
        intro s mem
        rcases mem_cons.mp mem with rfl | later
        · exact ⟨full, same ▸ cls⟩
        · exact ih ran s later
      · cases ran
    · cases ran

theorem merge_checked (ran : merge (first :: rest) = .ok merged) :
    ∀ s ∈ first :: rest, Checked first s := by
  intro s mem
  unfold merge at ran
  unfold Checked
  cases cls : first.cls with
  | fullAttention full =>
    simp only [cls] at ran
    obtain ⟨sizes, checked, -⟩ := map_ok ran
    exact mergeFull_ok checked s mem
  | sinkFullAttention full sinkLen =>
    simp only [cls] at ran
    obtain ⟨sizes, checked, -⟩ := map_ok ran
    exact mergeFull_ok checked s mem
  | tqFullAttention full slot =>
    simp only [cls] at ran
    obtain ⟨sizes, checked, agree⟩ := bind_ok ran
    obtain ⟨same, slots, agree⟩ := bind_ok agree
    split at agree
    · rename_i holds
      subst holds
      exact ⟨slotsAgree_true slots s mem, (mergeFull_ok checked s mem).2⟩
    · cases agree
  | mlaAttention format =>
    simp only [cls] at ran
    split at ran
    · rename_i same
      exact eq_of_beq (all_eq_true.mp same s mem)
    · cases ran
  | slidingWindowMla window format =>
    simp only [cls] at ran
    split at ran
    · rename_i same
      exact eq_of_beq (all_eq_true.mp same s mem)
    · cases ran
  | _ =>
    simp only [cls] at ran
    split at ran
    · rename_i same
      rcases mem_cons.mp mem with rfl | later
      · rfl
      · exact eq_of_beq (all_eq_true.mp same s later)
    · cases ran

/-! ### What they leave unchecked -/

namespace AttentionSpec
variable (s : AttentionSpec)

/-- Bytes of a token and head in a page of full attention. -/
def tokenBytes : Nat :=
  let dim headSize := if s.kvQuantMode = .nvfp4 then headSize / 2 + headSize / 16 else headSize
  match s.cls with
  | .fullAttention full => (dim s.headSize + dim full.headSizeV) * getDtypeSize s.dtype
  | .sinkFullAttention full _ => (dim s.headSize + dim full.headSizeV) * getDtypeSize s.dtype
  | .tqFullAttention full slot =>
    if 0 < slot then slot else (dim s.headSize + dim full.headSizeV) * getDtypeSize s.dtype
  | _ => 0

/-- Tokens of a latent page, and the bytes of each. -/
def latentTokens : Nat × Nat :=
  match s.cls with
  | .mlaAttention format =>
    if format.cacheDtypeStr = some "fp8_ds_mla" then
      if format.modelVersion = some "deepseek_v4" then (s.blockSize / format.compressRatio, 584)
      else (s.blockSize, 656)
    else (s.blockSize / format.compressRatio, s.numKvHeads * s.headSize * getDtypeSize s.dtype)
  | .slidingWindowMla _ format =>
    if format.modelVersion = some "deepseek_v4" then (s.blockSize / format.compressRatio, 584)
    else (s.blockSize / format.compressRatio, s.numKvHeads * s.headSize * getDtypeSize s.dtype)
  | _ => (0, 0)

def latentPage (scales : Nat) : Nat := s.pageSizePadded.getD (s.latentTokens.1 * s.latentTokens.2 + scales)

variable {s}

theorem full_realPageSizeBytes (full : s.full?.isSome) :
    s.realPageSizeBytes = .ok (s.blockSize * s.numKvHeads * s.tokenBytes) := by
  unfold full? at full
  unfold realPageSizeBytes tokenBytes
  cases cls : s.cls with
  | fullAttention f => simp only [fullPageSize, Nat.mul_assoc]
  | sinkFullAttention f n => simp only [fullPageSize, Nat.mul_assoc]
  | tqFullAttention f slot =>
    simp only
    split
    · rfl
    · simp only [fullPageSize, Nat.mul_assoc]
  | _ => simp [cls] at full

variable {format : MlaFormat} {real : Nat}

theorem storage_ok {f : Nat → Nat} (ran : (s.storageBlockSize format).map f = .ok real) :
    real = f (s.blockSize / format.compressRatio) := by
  obtain ⟨n, found, rfl⟩ := map_ok ran
  unfold storageBlockSize at found
  split at found <;> cases found
  rfl

theorem latent_realPageSizeBytes (ran : s.realPageSizeBytes = .ok real)
    (latent : (∃ format, s.cls = .mlaAttention format) ∨ ∃ window format,
      s.cls = .slidingWindowMla window format) :
    real = s.latentTokens.1 * s.latentTokens.2 := by
  unfold realPageSizeBytes at ran
  unfold latentTokens
  rcases latent with ⟨format, cls⟩ | ⟨window, format, cls⟩
  · simp only [cls] at ran ⊢
    split at ran
    · rw [if_pos ‹_›]
      split at ran
      · rw [if_pos ‹_›]
        rw [storage_ok ran]
      · rw [if_neg ‹_›]
        exact (Except.ok.inj ran).symm
    · rw [if_neg ‹_›, storage_ok ran]
      simp only [Nat.mul_assoc]
  · simp only [cls] at ran ⊢
    split at ran
    · rw [if_pos ‹_›, storage_ok ran]
    · rw [if_neg ‹_›]
      split at ran
      · cases ran
      · rw [storage_ok ran]
        simp only [Nat.mul_assoc]

variable {page : Nat}

theorem pageSizeBytes_ok (ran : s.pageSizeBytes = .ok page) :
    ∃ real, s.realPageSizeBytes = .ok real ∧ page = s.pageSizePadded.getD (real + s.scaleBytes) ∧
      ∀ padded ∈ s.pageSizePadded, real + s.scaleBytes ≤ padded := by
  obtain ⟨real, found, ran⟩ := bind_ok ran
  refine ⟨real, found, ?_⟩
  split at ran
  · rename_i unpadded
    rw [unpadded]
    exact ⟨(Except.ok.inj ran).symm, nofun⟩
  · rename_i padded found
    split at ran
    · rename_i fits
      rw [found]
      exact ⟨(Except.ok.inj ran).symm, fun _ mem => by cases mem; exact fits⟩
    · cases ran

theorem latent_page (ran : s.pageSizeBytes = .ok page)
    (latent : (∃ format, s.cls = .mlaAttention format) ∨ ∃ window format,
      s.cls = .slidingWindowMla window format) :
    s.pageSizeBytes = .ok (s.latentPage s.scaleBytes) := by
  obtain ⟨real, found, rfl, -⟩ := pageSizeBytes_ok ran
  rw [ran, latentPage, latent_realPageSizeBytes found latent]

/-- Without its scales a page still has a size. -/
theorem unscaled_page {page window : Nat} (ran : s.pageSizeBytes = .ok page)
    (cls : s.cls = .slidingWindowMla window format) :
    s.mergedPage = .ok (s.latentPage 0) := by
  obtain ⟨real, found, -, fits⟩ := pageSizeBytes_ok ran
  have same : realPageSizeBytes { s with kvQuantMode := .none } = .ok real := by
    rw [← found]
    unfold realPageSizeBytes
    simp only [cls]
    rfl
  have noScales : scaleBytes { s with kvQuantMode := .none } = 0 := rfl
  rw [latentPage, ← latent_realPageSizeBytes found (.inr ⟨window, format, cls⟩)]
  have page : s.mergedPage = pageSizeBytes { s with kvQuantMode := .none } := by rw [mergedPage, cls]
  rw [page, pageSizeBytes, same, noScales]
  cases padded : s.pageSizePadded with
  | none => rfl
  | some p => exact if_pos (le_trans (Nat.le_add_right _ _) (fits p padded))

end AttentionSpec

/-- The rows of full attention have one size, or their size does not count. -/
def SameRows (first s : AttentionSpec) : Prop :=
  first.pageSizePadded.isSome ∨ first.blockSize * first.numKvHeads = 0 ∨ s.tokenBytes = first.tokenBytes

/-- A spec has the layout of the first one, in the fields that the merge of the first one's class
does not compare. -/
def SameLayout (first s : AttentionSpec) : Prop :=
  match first.cls with
  | .fullAttention _ => SameRows first s
  | .sinkFullAttention _ _ => SameRows first s
  | .tqFullAttention _ slot => 0 < slot ∨ SameRows first s
  | .mlaAttention _ => s.blockSize = first.blockSize ∧ s.latentPage s.scaleBytes = first.latentPage first.scaleBytes
  | .slidingWindowMla _ _ => s.blockSize = first.blockSize ∧ s.latentPage s.scaleBytes = first.latentPage 0
  | _ => True

section
variable {s : AttentionSpec} {page : Nat}

theorem same_rows_iff (sized : first.pageSizeBytes = .ok page) (sized' : ∃ page, s.pageSizeBytes = .ok page)
    (full : first.full?.isSome) (full' : s.full?.isSome) (fields : s.toSpecFields = first.toSpecFields) :
    first.pageSizeBytes = s.pageSizeBytes ↔ SameRows first s := by
  obtain ⟨page', sized'⟩ := sized'
  obtain ⟨real, found, rfl, -⟩ := AttentionSpec.pageSizeBytes_ok sized
  obtain ⟨real', found', rfl, -⟩ := AttentionSpec.pageSizeBytes_ok sized'
  rw [AttentionSpec.full_realPageSizeBytes full] at found
  rw [AttentionSpec.full_realPageSizeBytes full'] at found'
  cases found
  cases found'
  have scales : s.scaleBytes = first.scaleBytes := by simp only [AttentionSpec.scaleBytes, fields]
  rw [sized, sized', Except.ok.injEq, scales, fields, SameRows]
  cases first.pageSizePadded with
  | some padded => simp
  | none =>
    simp only [Option.getD_none, Nat.add_right_cancel_iff, Option.isSome_none, Bool.false_eq_true, false_or,
      mul_eq_mul_left_iff, eq_comm (a := first.tokenBytes)]
    exact or_comm

theorem same_layout_iff {merged : AttentionSpec} (checked : Checked first s) (sized : first.pageSizeBytes = .ok page)
    (sized' : ∃ page, s.pageSizeBytes = .ok page) (block : merged.blockSize = first.blockSize)
    (kept : merged.pageSizeBytes = first.mergedPage) :
    (merged.blockSize = s.blockSize ∧ merged.pageSizeBytes = s.pageSizeBytes) ↔ SameLayout first s := by
  unfold Checked at checked
  rw [block, kept, SameLayout]
  cases cls : first.cls with
  | fullAttention full =>
    simp only [cls, AttentionSpec.mergedPage] at checked ⊢
    rw [same_rows_iff sized sized' (by rw [AttentionSpec.full?, cls]; rfl) checked.1 checked.2, checked.2]
    exact and_iff_right rfl
  | sinkFullAttention full sinkLen =>
    simp only [cls, AttentionSpec.mergedPage] at checked ⊢
    rw [same_rows_iff sized sized' (by rw [AttentionSpec.full?, cls]; rfl) checked.1 checked.2, checked.2]
    exact and_iff_right rfl
  | tqFullAttention full slot =>
    simp only [cls, AttentionSpec.mergedPage] at checked ⊢
    obtain ⟨⟨full', cls'⟩, fields⟩ := checked
    rw [same_rows_iff sized sized' (by rw [AttentionSpec.full?, cls]; rfl)
      (by rw [AttentionSpec.full?, cls']; rfl) fields,
      fields]
    refine ⟨fun same => .inr same.2, fun same => ⟨rfl, ?_⟩⟩
    rcases same with positive | rows
    · right
      right
      simp only [AttentionSpec.tokenBytes, cls, cls', if_pos positive]
    · exact rows
  | mlaAttention format =>
    simp only [cls, AttentionSpec.mergedPage] at checked ⊢
    obtain ⟨page', sized'⟩ := sized'
    rw [AttentionSpec.latent_page sized (.inl ⟨format, cls⟩), AttentionSpec.latent_page sized' (.inl ⟨format, checked⟩),
      Except.ok.injEq, eq_comm, eq_comm (a := first.latentPage _)]
  | slidingWindowMla window format =>
    simp only [cls] at checked ⊢
    obtain ⟨page', sized'⟩ := sized'
    rw [AttentionSpec.unscaled_page sized cls, AttentionSpec.latent_page sized' (.inr ⟨window, format, checked⟩),
      Except.ok.injEq, eq_comm, eq_comm (a := first.latentPage _)]
  | _ =>
    simp only [cls, AttentionSpec.mergedPage] at checked ⊢
    rw [checked]
    exact iff_of_true ⟨rfl, rfl⟩ trivial

end

/-- A merged spec has the block size and the page size of all its members exactly if they agree in
the fields that the merge of the first one's class leaves unchecked: the head sizes of the values
for full attention, all sizes for MLA. -/
theorem merge_keeps_layout_iff {specs : List AttentionSpec} {merged : AttentionSpec}
    (ran : merge specs = .ok merged) (sized : ∀ s ∈ specs, ∃ page, s.pageSizeBytes = .ok page) :
    (∀ s ∈ specs, merged.blockSize = s.blockSize ∧ merged.pageSizeBytes = s.pageSizeBytes) ↔
      ∀ first ∈ specs.head?, ∀ s ∈ specs, SameLayout first s := by
  cases specs with
  | nil => cases ran
  | cons first rest =>
    obtain ⟨block, kept⟩ := merge_layout ran
    obtain ⟨page, own⟩ := sized first mem_cons_self
    have each : ∀ s ∈ first :: rest,
        (merged.blockSize = s.blockSize ∧ merged.pageSizeBytes = s.pageSizeBytes) ↔ SameLayout first s :=
      fun s mem => same_layout_iff (merge_checked ran s mem) own (sized s mem) block kept
    constructor
    · rintro same _ ⟨⟩ s mem
      exact (each s mem).mp (same s mem)
    · intro same s mem
      exact (each s mem).mpr (same first rfl s mem)

def layer (headSizeV : Nat) : AttentionSpec :=
  ⟨⟨16, 8, 128, .bfloat16, .none, none⟩, .fullAttention ⟨headSizeV, none, none⟩⟩

theorem merge_keeps_layout_two : merge [layer 64, layer 64] = .ok (layer 64) ∧ ∀ s ∈ [layer 64, layer 64],
    (layer 64).blockSize = s.blockSize ∧ (layer 64).pageSizeBytes = s.pageSizeBytes := by
  have ran : merge [layer 64, layer 64] = .ok (layer 64) := by decide
  refine ⟨ran, (merge_keeps_layout_iff ran fun s mem => ?_).mpr ?_⟩
  · exact ⟨49152, by simp_all [layer]; rfl⟩
  · rintro first ⟨⟩ s mem
    exact .inr (.inr (by simp_all))

/-- The values of the second layer are half as wide, which the merge does not see. -/
theorem merge_values_apart : merge [layer 128, layer 64] = .ok (layer 128) ∧
    (layer 128).pageSizeBytes = .ok 65536 ∧ (layer 64).pageSizeBytes = .ok 49152 ∧
    ¬ ∀ s ∈ [layer 128, layer 64], (layer 128).blockSize = s.blockSize ∧
      (layer 128).pageSizeBytes = s.pageSizeBytes := by
  decide

end CacheSpecs

end TurboQuant.Core
