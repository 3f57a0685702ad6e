import Mathlib.Order.Bounds.Basic
import TurboQuant.Core.CacheSpecs

/-!
The longest model length that the memory has room for.
-/

namespace TurboQuant.Core.CacheSpecs
open List Nat

inductive MambaCacheMode where
  | all | align | none
  deriving DecidableEq, Repr

structure VllmConfig where
  maxModelLen : Nat
  decodeContextParallelSize : Nat
  prefillContextParallelSize : Nat
  maxNumBatchedTokens : Nat
  maxNumEncoderInputTokens : Nat
  mambaCacheMode : MambaCacheMode
  deriving DecidableEq, Repr

inductive LayerSpec where
  | attention (spec : AttentionSpec)
  /-- The state of all shapes has `stateSize` bytes. -/
  | mamba (blockSize stateSize : Nat) (pageSizePadded : Option Nat) (numSpeculativeBlocks : Nat)
  deriving DecidableEq, Repr

def cdiv (a b : Nat) : Except PlanError Nat := if b = 0 then .error .zeroDivision else .ok ((a + b - 1) / b)

namespace LayerSpec

def pageSizeBytes : LayerSpec → Except PlanError Nat
  | attention spec => spec.pageSizeBytes
  | mamba _ stateSize none _ => .ok stateSize
  | mamba _ stateSize (some padded) _ => if stateSize ≤ padded then .ok padded else .error .assertion

/-- The pages that `max_memory_usage_bytes` counts. -/
def maxPages (config : VllmConfig) : LayerSpec → Except PlanError Nat
  | attention spec =>
    match spec.cls with
    | .chunkedLocalAttention chunk =>
      cdiv (min (chunk + config.maxNumBatchedTokens) config.maxModelLen) spec.blockSize
    | .slidingWindow window _ => sliding spec window
    | .slidingWindowMla window _ => sliding spec window
    | .encoderOnlyAttention => .ok 0
    | .crossAttention => cdiv config.maxNumEncoderInputTokens spec.blockSize
    | _ =>
      let ranks := config.decodeContextParallelSize * config.prefillContextParallelSize
      if 1 < ranks then (cdiv config.maxModelLen ranks).bind (cdiv · spec.blockSize)
      else cdiv config.maxModelLen spec.blockSize
  | mamba blockSize _ _ numSpeculativeBlocks =>
    match config.mambaCacheMode with
    | .all => cdiv config.maxModelLen blockSize
    | .align => .ok (2 + numSpeculativeBlocks)
    | .none => .ok (1 + numSpeculativeBlocks)
where
  sliding (spec : AttentionSpec) (window : Nat) : Except PlanError Nat :=
    if config.decodeContextParallelSize = 1 then
      (cdiv (min (window - 1 + config.maxNumBatchedTokens) config.maxModelLen) spec.blockSize).map (· + 1)
    else .error .assertion

def isEncoderOnly : LayerSpec → Bool
  | attention spec => spec.cls == .encoderOnlyAttention
  | mamba _ _ _ _ => false

def maxMemoryUsageBytes (config : VllmConfig) (s : LayerSpec) : Except PlanError Nat :=
  if s.isEncoderOnly then .ok 0 else (s.maxPages config).bind fun pages => s.pageSizeBytes.map (pages * ·)

end LayerSpec

def maxMemoryUsageBytes (specs : List LayerSpec) (config : VllmConfig) : Except PlanError Nat :=
  (specs.mapM (LayerSpec.maxMemoryUsageBytes config)).map (foldr (· + ·) 0)

inductive GroupSpec where
  | layer (spec : LayerSpec)
  | uniformType (specs : List LayerSpec)

namespace GroupSpec

def pageSizeBytes : GroupSpec → Except PlanError Nat
  | layer spec => spec.pageSizeBytes
  | uniformType specs => (specs.mapM LayerSpec.pageSizeBytes).map sum

/-- `max_memory_usage_pages` of a group whose layers have their own specs. -/
def maxMemoryUsagePages (config : VllmConfig) (specs : List LayerSpec) : Except PlanError Nat :=
  if specs.isEmpty then .error .value
  else (specs.mapM fun s : LayerSpec => (s.maxMemoryUsageBytes config).bind fun bytes =>
    s.pageSizeBytes.bind (cdiv bytes ·)).map (foldr max 0)

def maxMemoryUsageBytes (config : VllmConfig) : GroupSpec → Except PlanError Nat
  | layer spec => spec.maxMemoryUsageBytes config
  | uniformType specs => (maxMemoryUsagePages config specs).bind fun pages =>
    (uniformType specs).pageSizeBytes.map (pages * ·)

def specs? : GroupSpec → Option (List LayerSpec)
  | layer _ => none
  | uniformType specs => some specs

end GroupSpec

structure KVCacheGroupSpec where
  numLayers : Nat
  spec : GroupSpec

/-- `Counter(..).most_common(1)[0][1]` of the page sizes -/
def getNumLayerTuples (specs : List LayerSpec) : Except PlanError Nat :=
  if specs.isEmpty then .error .index else (specs.mapM LayerSpec.pageSizeBytes).map fun pages =>
    (pages.map pages.count).foldr max 0

def getUniformPageSize (groups : List KVCacheGroupSpec) : Except PlanError Nat :=
  (groups.mapM fun group : KVCacheGroupSpec => group.spec.pageSizeBytes).bind fun
    | [] => .error .assertion
    | size :: rest => if rest.all (· == size) then .ok size else .error .assertion

def maxMemoryUsageBytesFromGroups (groups : List KVCacheGroupSpec) (config : VllmConfig) :
    Except PlanError Nat :=
  match groups with
  | [] => .ok 0
  | [⟨_, .uniformType specs⟩] => maxMemoryUsageBytes specs config
  | groups =>
    match groups.mapM fun group : KVCacheGroupSpec => group.spec.specs? with
    | some specs =>
      -- every group reserves as many layer tuples as the largest one
      (((specs.headD []).mapM LayerSpec.pageSizeBytes).map (·.dedup.sum)).bind fun layerTupleBytes =>
        ((specs.mapM getNumLayerTuples).map (foldr max 0)).bind fun numLayerTuples =>
          (specs.mapM (GroupSpec.maxMemoryUsagePages config)).map fun pages =>
            pages.foldr (fun groupPages total => numLayerTuples * groupPages * layerTupleBytes + total) 0
    | none =>
      (getUniformPageSize groups).bind fun pageSize =>
        ((groups.mapM fun group : KVCacheGroupSpec => (group.spec.maxMemoryUsageBytes config).bind
          (cdiv · pageSize)).map
          (foldr (· + ·) 0)).map fun blocksNeeded =>
            (groups.map (·.numLayers)).foldr max 0 * pageSize * blocksNeeded

/-! ### The search -/

def VllmConfig.setLen (config : VllmConfig) (n : Nat) : VllmConfig := { config with maxModelLen := n }

@[simp]
theorem VllmConfig.setLen_setLen (cfg : VllmConfig) (m n : Nat) : (cfg.setLen m).setLen n = cfg.setLen n := rfl

section
variable (need : VllmConfig → Except PlanError Nat) (memory : Nat)

def fits (modelLen : Nat) (config : VllmConfig) : Except PlanError Bool × VllmConfig :=
  ((need (config.setLen modelLen)).map (decide <| · ≤ memory), config.setLen modelLen)

/-- The `while` loop; `stop` is `right + 1`. -/
def searchLoop (left stop result : Nat) (config : VllmConfig) : Except PlanError Nat × VllmConfig :=
  if left < stop then
    let mid := (left + (stop - 1)) / 2
    match fits need memory mid config with
    | (.error e, config) => (.error e, config)
    | (.ok true, config) => searchLoop (mid + 1) stop mid config
    | (.ok false, config) => searchLoop left mid result config
  else (.ok result, config)
termination_by stop - left

/-- The body of both estimates. The configured length is restored in the `finally` clause. -/
def searchMaxModelLen (config : VllmConfig) : Except PlanError Nat × VllmConfig :=
  let (result, changed) : Except PlanError Nat × VllmConfig :=
    match fits need memory 1 config with
    | (.error e, config) => (.error e, config)
    | (.ok false, config) => (.ok 0, config)
    | (.ok true, changed) => searchLoop need memory 1 (config.maxModelLen + 1) 1 changed
  (result, changed.setLen config.maxModelLen)

end

def estimateMaxModelLen (config : VllmConfig) (specs : List LayerSpec) (memory : Nat) :
    Except PlanError Nat × VllmConfig :=
  searchMaxModelLen (maxMemoryUsageBytes specs) memory config

def estimateMaxModelLenFromGroups (config : VllmConfig) (groups : List KVCacheGroupSpec) (memory : Nat) :
    Except PlanError Nat × VllmConfig :=
  searchMaxModelLen (maxMemoryUsageBytesFromGroups groups) memory config

/-! ### Growing estimates -/

/-- The estimate raises for every length, or it never shrinks. -/
def Grows (estimate : Nat → Except PlanError Nat) : Prop :=
  (∃ e, estimate = fun _ => .error e) ∨ ∃ bytes : Nat → Nat, Monotone bytes ∧ estimate = fun n => .ok (bytes n)

namespace Grows
variable {f g : Nat → Except PlanError Nat} {ι : Type}

theorem of_monotone {bytes : Nat → Nat} (mono : Monotone bytes) : Grows fun n => .ok (bytes n) :=
  .inr ⟨bytes, mono, rfl⟩

theorem const (x : Except PlanError Nat) : Grows fun _ => x := by
  cases x with
  | error e => exact .inl ⟨e, rfl⟩
  | ok b => exact of_monotone monotone_const

theorem bind (first : Grows f) (next : Grows g) : Grows fun n => (f n).bind g := by
  rcases first with ⟨e, rfl⟩ | ⟨bytes, mono, rfl⟩
  · exact .inl ⟨e, rfl⟩
  · rcases next with ⟨e, rfl⟩ | ⟨bytes', mono', rfl⟩
    · exact .inl ⟨e, rfl⟩
    · exact of_monotone (mono'.comp mono)

theorem map (first : Grows f) {h : Nat → Nat} (mono : Monotone h) : Grows fun n => (f n).map h := by
  rcases first with ⟨e, rfl⟩ | ⟨bytes, mono', rfl⟩
  · exact .inl ⟨e, rfl⟩
  · exact of_monotone (mono.comp mono')

theorem times (x : Except PlanError Nat) : Grows fun n => x.map (n * ·) := by
  cases x with
  | error e => exact .inl ⟨e, rfl⟩
  | ok b => exact of_monotone fun _ _ le => mul_le_mul_right b le

theorem cdiv (b : Nat) : Grows (cdiv · b) := by
  unfold CacheSpecs.cdiv
  split
  · exact const _
  · exact of_monotone fun _ _ le => Nat.div_le_div_right (by omega)

theorem branch {p : Prop} {inst : Nat → Decidable p} (yes : Grows f) (no : Grows g) :
    Grows fun n => @ite _ p (inst n) (f n) (g n) := by
  by_cases h : p
  · simpa [h] using yes
  · simpa [h] using no

section
variable {op : Nat → Nat → Nat} (mono : ∀ {a a' b b'}, a ≤ a' → b ≤ b' → op a b ≤ op a' b')
include mono

theorem join (first : Grows f) (next : Grows g) : Grows fun n => (f n).bind fun a => (g n).map (op a) := by
  rcases first with ⟨e, rfl⟩ | ⟨bytes, mono₁, rfl⟩
  · exact .inl ⟨e, rfl⟩
  · rcases next with ⟨e, rfl⟩ | ⟨bytes', mono₂, rfl⟩
    · exact .inl ⟨e, rfl⟩
    · exact of_monotone fun _ _ le => mono (mono₁ le) (mono₂ le)

theorem fold {items : List ι} {F : ι → Nat → Except PlanError Nat} (each : ∀ x ∈ items, Grows (F x)) :
    Grows fun n => (items.mapM (F · n)).map (foldr op 0) := by
  induction items with
  | nil => exact const _
  | cons x rest ih =>
    have split : (fun n => ((x :: rest).mapM (F · n)).map (foldr op 0)) =
        fun n => (F x n).bind fun a => ((rest.mapM (F · n)).map (foldr op 0)).map (op a) := by
      funext n
      rw [mapM_cons]
      cases F x n with
      | error e => rfl
      | ok a => cases rest.mapM (F · n) <;> rfl
    rw [split]
    exact join mono (each x mem_cons_self) (ih fun y member => each y (mem_cons_of_mem x member))

end

end Grows

section
open Grows
variable (cfg : VllmConfig)

theorem LayerSpec.maxPages_grows (s : LayerSpec) : Grows fun n => s.maxPages (cfg.setLen n) := by
  have capped : ∀ a b, Grows fun n => cdiv (min a n) b := fun a b =>
    .bind (of_monotone fun _ _ le => min_le_min_left a le) (Grows.cdiv b)
  have sliding : ∀ spec window, Grows fun n => maxPages.sliding (cfg.setLen n) spec window := by
    intro spec window
    simp only [maxPages.sliding, VllmConfig.setLen]
    exact branch ((capped _ _).map fun _ _ le => Nat.add_le_add_right le 1) (const _)
  cases s with
  | mamba blockSize stateSize padded k =>
    simp only [maxPages, VllmConfig.setLen]
    cases cfg.mambaCacheMode with
    | all => exact Grows.cdiv _
    | align => exact const _
    | none => exact const _
  | attention spec =>
    simp only [maxPages, VllmConfig.setLen]
    split
    · exact capped _ _
    · exact sliding _ _
    · exact sliding _ _
    · exact const _
    · exact const _
    · exact branch ((Grows.cdiv _).bind (Grows.cdiv _)) (Grows.cdiv _)

theorem LayerSpec.maxMemoryUsageBytes_grows (s : LayerSpec) :
    Grows fun n => s.maxMemoryUsageBytes (cfg.setLen n) := by
  unfold maxMemoryUsageBytes
  split
  · exact const _
  · exact (s.maxPages_grows cfg).bind (times _)

theorem maxMemoryUsageBytes_grows (specs : List LayerSpec) :
    Grows fun n => maxMemoryUsageBytes specs (cfg.setLen n) :=
  fold Nat.add_le_add fun s _ => s.maxMemoryUsageBytes_grows cfg

theorem maxMemoryUsagePages_grows (specs : List LayerSpec) :
    Grows fun n => GroupSpec.maxMemoryUsagePages (cfg.setLen n) specs := by
  unfold GroupSpec.maxMemoryUsagePages
  split
  · exact const _
  · refine fold max_le_max fun s _ => (s.maxMemoryUsageBytes_grows cfg).bind ?_
    cases s.pageSizeBytes with
    | error e => exact const _
    | ok page => exact Grows.cdiv page

theorem maxMemoryUsageBytesFromGroups_grows (groups : List KVCacheGroupSpec) :
    Grows fun n => maxMemoryUsageBytesFromGroups groups (cfg.setLen n) := by
  unfold maxMemoryUsageBytesFromGroups
  split
  · exact const _
  · exact maxMemoryUsageBytes_grows cfg _
  split
  · rename_i specs _
    cases ((specs.headD []).mapM LayerSpec.pageSizeBytes).map (·.dedup.sum) with
    | error e => exact const _
    | ok layerTupleBytes =>
      cases (specs.mapM getNumLayerTuples).map (foldr max 0) with
      | error e => exact const _
      | ok numLayerTuples =>
        refine fold (fun pages total => Nat.add_le_add
          (Nat.mul_le_mul_right _ (Nat.mul_le_mul_left _ pages)) total) ?_
        exact fun specs _ => maxMemoryUsagePages_grows cfg specs
  · cases getUniformPageSize groups with
    | error e => exact const _
    | ok pageSize =>
      refine (fold Nat.add_le_add fun group _ => bind ?_ (Grows.cdiv pageSize)).map fun _ _ =>
        Nat.mul_le_mul_left _
      cases group.spec with
      | layer spec => exact spec.maxMemoryUsageBytes_grows cfg
      | uniformType specs => exact (maxMemoryUsagePages_grows cfg specs).bind (times _)

end

/-! ### What the search finds -/

section
variable (need : VllmConfig → Except PlanError Nat) (memory : Nat) (config : VllmConfig)

def Fits (n : Nat) : Prop :=
  ∃ bytes ≤ memory, need (config.setLen n) = .ok bytes

/-- The result of an estimate that raises for every length, for which the first length does not fit,
or that is the greatest length that fits. -/
def Fitted : Except PlanError Nat → Prop
  | .error e => ∀ n, need (config.setLen n) = .error e
  | .ok 0 => ¬ Fits need memory config 1
  | .ok m => IsGreatest {n | 1 ≤ n ∧ n ≤ config.maxModelLen ∧ Fits need memory config n} m

end

section
variable {need : VllmConfig → Except PlanError Nat} {cfg : VllmConfig}

theorem searchLoop_greatest {memory : Nat} {bytes : Nat → Nat} (mono : Monotone bytes)
    (same : ∀ n, need (cfg.setLen n) = .ok (bytes n)) (len : Nat) {left stop res top : Nat} (start : 1 ≤ left)
    (below : stop ≤ top + 1) (low : left ≤ res + 1) (room : 1 ≤ res ∧ res ≤ top ∧ bytes res ≤ memory)
    (above : ∀ n, stop ≤ n → n ≤ top → memory < bytes n) :
    ∃ m len', searchLoop need memory left stop res (cfg.setLen len) =
      (.ok m, cfg.setLen len') ∧ IsGreatest {n | 1 ≤ n ∧ n ≤ top ∧ bytes n ≤ memory} m := by
  unfold searchLoop
  split
  · dsimp only
    rw [fits, cfg.setLen_setLen, same]
    dsimp only [Except.map]
    by_cases half : bytes ((left + (stop - 1)) / 2) ≤ memory
    · rw [decide_eq_true half]
      exact searchLoop_greatest mono same _ (by omega) below (by omega) ⟨by omega, by omega, half⟩ above
    · rw [decide_eq_false half]
      exact searchLoop_greatest mono same _ start (by omega) low room fun n later _ =>
        (not_le.mp half).trans_le (mono later)
  · refine ⟨res, len, rfl, room, fun n ⟨_, le, fit⟩ => ?_⟩
    by_contra long
    exact not_lt.mpr fit (above n (by omega) le)
termination_by stop - left

theorem searchMaxModelLen_fitted (memory : Nat) (positive : 1 ≤ cfg.maxModelLen)
    (grows : Grows fun n => need (cfg.setLen n)) : (searchMaxModelLen need memory cfg).2 = cfg ∧
      Fitted need memory cfg (searchMaxModelLen need memory cfg).1 := by
  unfold searchMaxModelLen
  rcases grows with ⟨e, raises⟩ | ⟨bytes, mono, same⟩
  · rw [fits, congrFun raises]
    exact ⟨rfl, congrFun raises⟩
  have same := congrFun same
  have fit : ∀ n, Fits need memory cfg n ↔ bytes n ≤ memory := fun n => by simp [Fits, same]
  rw [fits, same]
  dsimp only [Except.map]
  by_cases room : bytes 1 ≤ memory
  · rw [decide_eq_true room]
    obtain ⟨m, len, ran, greatest⟩ := searchLoop_greatest mono same 1 le_rfl le_rfl (le_succ 1)
      ⟨le_rfl, positive, room⟩ fun n above le => absurd le (not_le.mpr above)
    dsimp only
    rw [ran]
    refine ⟨rfl, ?_⟩
    cases m with
    | zero => exact absurd greatest.1.1 (not_succ_le_zero 0)
    | succ m => simpa only [Fitted, fit] using greatest
  · rw [decide_eq_false room]
    exact ⟨rfl, fun one => room ((fit 1).mp one)⟩

end

/-- For any specs, groups and memory, both estimates restore the configured length and return the
greatest length up to it that fits, since no estimate of the memory shrinks as the length grows. -/
theorem estimated_length_greatest (config : VllmConfig) (positive : 1 ≤ config.maxModelLen)
    (specs : List LayerSpec)
    (groups : List KVCacheGroupSpec) (memory : Nat) :
    Grows (fun n => maxMemoryUsageBytes specs (config.setLen n)) ∧
      Grows (fun n => maxMemoryUsageBytesFromGroups groups (config.setLen n)) ∧
      (estimateMaxModelLen config specs memory).2 = config ∧
      Fitted (maxMemoryUsageBytes specs) memory config (estimateMaxModelLen config specs memory).1 ∧
      (estimateMaxModelLenFromGroups config groups memory).2 = config ∧
      Fitted (maxMemoryUsageBytesFromGroups groups) memory config
        (estimateMaxModelLenFromGroups config groups memory).1 := by
  have ofSpecs := maxMemoryUsageBytes_grows config specs
  have ofGroups := maxMemoryUsageBytesFromGroups_grows config groups
  obtain ⟨restored, fitted⟩ := searchMaxModelLen_fitted memory positive ofSpecs
  obtain ⟨restored', fitted'⟩ := searchMaxModelLen_fitted memory positive ofGroups
  exact ⟨ofSpecs, ofGroups, restored, fitted, restored', fitted'⟩

theorem estimated_length_greatest_layer :
    let config : VllmConfig := ⟨4096, 1, 1, 512, 0, .none⟩
    (estimateMaxModelLen config [.attention (layer 64)] 1000000).1 = .ok 320 ∧
      Fitted (maxMemoryUsageBytes [.attention (layer 64)]) 1000000 config (.ok 320) := by
  intro config
  have estimated : (estimateMaxModelLen config [.attention (layer 64)] 1000000).1 = .ok 320 := by
    decide +kernel
  exact ⟨estimated, estimated ▸ (estimated_length_greatest config
    (by decide) [.attention (layer 64)] [] 1000000).2.2.2.1⟩

end TurboQuant.Core.CacheSpecs
