import Mathlib.Data.List.Pairwise
import TurboQuant.Core.CachePlan

/-!
What a returned configuration is worth to a worker: every tensor has a page for each of the blocks,
in the format of every layer that shares it, no layer has two tensors and no layer of the worker is
left out.
-/

namespace TurboQuant.Core
open Outcome List Nat PlannedSpec

variable {s : PlannedSpec} {groups gs : CacheGroups} {cfg : KVCacheConfig} {specs : List PlannedSpec}
  {layers ls : List Nat} {dict d : SpecDict}

variable {name : Nat}

theorem mem_of_specOf (found : specOf dict name = some s) : (name, s) ∈ dict := by
  induction dict with
  | nil => cases found
  | cons e rest ih =>
    rw [specOf, lookup_cons] at found
    split at found
    · rename_i same
      rw [eq_of_beq same, ← Option.some.inj found]
      exact mem_cons_self
    · exact mem_cons_of_mem _ (ih found)

theorem specOf_of_mem (nodup : (d.map (·.1)).Nodup) (mem : (name, s) ∈ d) :
    specOf d name = some s := by
  induction d with
  | nil => cases mem
  | cons e rest ih =>
    obtain ⟨n, t⟩ := e
    rw [map_cons, nodup_cons] at nodup
    rw [specOf, lookup_cons]
    rcases mem_cons.mp mem with same | later
    · cases same
      rw [beq_self_eq_true]
    · have other : (name == n) = false := beq_eq_false_iff_ne.mpr fun same =>
        nodup.1 (same ▸ mem_map_of_mem (f := (·.1)) later)
      rw [other]
      exact ih nodup.2 later

theorem specOf_isSome : (specOf d name).isSome ↔ name ∈ d.map (·.1) := by
  constructor
  · intro found
    obtain ⟨s, found⟩ := Option.isSome_iff_exists.mp found
    exact mem_map_of_mem (f := (·.1)) (mem_of_specOf found)
  · intro mem
    induction d with
    | nil => cases mem
    | cons e rest ih =>
      rw [specOf, lookup_cons]
      split
      · rfl
      · rename_i other
        rcases mem_cons.mp mem with same | later
        · exact absurd same (beq_eq_false_iff_ne.mp other)
        · exact ih later

/-! ### Merging -/

structure PlannedSpec.Keeps (s t : PlannedSpec) : Prop where
  heads : t.numKvHeads = s.numKvHeads
  headSize : t.headSize = s.headSize
  slot : ∀ slot, t.kind = .tqFullAttention slot ↔ s.kind = .tqFullAttention slot

theorem PlannedSpec.Keeps.refl (s : PlannedSpec) : s.Keeps s := ⟨rfl, rfl, fun _ => Iff.rfl⟩

theorem PlannedSpec.Keeps.trans {t u : PlannedSpec} (first : s.Keeps t) (second : t.Keeps u) : s.Keeps u where
  heads := second.heads.trans first.heads
  headSize := second.headSize.trans first.headSize
  slot := fun slot => (second.slot slot).trans (first.slot slot)

structure PlannedSpec.Sized (s : PlannedSpec) : Prop where
  block : 0 < s.blockSize
  head : 0 < s.headSize
  headV : 0 < s.headSizeV

theorem PlannedSpec.pageSizeBytes_ok (s : PlannedSpec) : s.toSpec.pageSizeBytes = .ok s.pageSizeBytes := by
  obtain ⟨kind, fields⟩ := s
  cases kind <;> rfl

variable {slot : Nat}

theorem PlannedSpec.pageSizeBytes_tq (kind : s.kind = .tqFullAttention slot) (positive : 0 < slot) :
    s.pageSizeBytes = s.blockSize * s.numKvHeads * slot := by
  have page := s.pageSizeBytes_ok
  simp only [CacheSpecs.AttentionSpec.pageSizeBytes, CacheSpecs.AttentionSpec.realPageSizeBytes, toSpec, kind,
    if_pos positive] at page
  exact (Except.ok.inj page).symm

variable {t : PlannedSpec}

theorem PlannedSpec.toSpec_inj (same : s.toSpec = t.toSpec) : s = t := by
  obtain ⟨kind, _, _, _, _, _⟩ := s
  obtain ⟨kind', _, _, _, _, _⟩ := t
  cases kind <;> cases kind' <;> cases same <;> rfl

theorem PlannedSpec.toSpec_fields (same : s.toSpec.toSpecFields = t.toSpec.toSpecFields) :
    t.numKvHeads = s.numKvHeads ∧ t.headSize = s.headSize ∧ s.dtype = t.dtype := by
  obtain ⟨-, heads, headSize, dtype, -⟩ := CacheSpecs.SpecFields.mk.inj same
  exact ⟨heads.symm, headSize.symm, dtype⟩

variable {rest : List PlannedSpec}

theorem mergeSpecs_ok {first merged : PlannedSpec} (ran : mergeSpecs (first :: rest) = .ok merged) :
    (∀ s ∈ first :: rest, CacheSpecs.Checked first.toSpec s.toSpec) ∧ (merged = first ∨
      ∃ window window', first.kind = .fullAttention window' ∧
        merged = { first with kind := .fullAttention window }) := by
  obtain ⟨whole, merge, rfl⟩ := map_ok ran
  refine ⟨fun s mem => CacheSpecs.merge_checked merge _ (mem_map_of_mem mem), ?_⟩
  split
  · rename_i kind _
    exact .inr ⟨_, _, kind, rfl⟩
  · exact .inl rfl

variable {merged : PlannedSpec}

theorem mergeSpecs_sized (ran : mergeSpecs specs = .ok merged) (sized : ∀ s ∈ specs, s.Sized) :
    merged.Sized := by
  cases specs with
  | nil => cases ran
  | cons first rest =>
    have head := sized first mem_cons_self
    rcases (mergeSpecs_ok ran).2 with rfl | ⟨window, window', -, rfl⟩
    · exact head
    · exact ⟨head.block, head.head, head.headV⟩

theorem mergeSpecs_keeps {first : PlannedSpec}
    (ran : mergeSpecs (first :: rest) = .ok merged)
    (apart : ∀ window, first.kind = .fullAttention window → ∀ s ∈ first :: rest, ∀ slot,
      s.kind = .tqFullAttention slot → s.dtype ≠ first.dtype) : ∀ s ∈ first :: rest, s.Keeps merged := by
  intro s mem
  obtain ⟨checked, result⟩ := mergeSpecs_ok ran
  have checked := checked s mem
  cases kind : first.kind with
  | fullAttention window =>
    have same : s.toSpec.toSpecFields = first.toSpec.toSpecFields := by
      simp only [CacheSpecs.Checked, PlannedSpec.toSpec, kind] at checked ⊢
      exact checked.2
    obtain ⟨heads, headSize, dtype⟩ := PlannedSpec.toSpec_fields same
    have merges : ∃ w, merged = { first with kind := .fullAttention w } := by
      rcases result with rfl | ⟨w, _, -, rfl⟩
      · exact ⟨window, by rw [← kind]⟩
      · exact ⟨w, rfl⟩
    obtain ⟨w, rfl⟩ := merges
    refine ⟨heads, headSize, fun slot => ⟨fun tq => (by cases tq), fun tq => ?_⟩⟩
    exact absurd dtype (apart window kind s mem slot tq)
  | tqFullAttention slot =>
    obtain rfl : merged = first := result.resolve_right fun ⟨_, _, other, _⟩ => by cases kind.symm.trans other
    have slots : s.kind = .tqFullAttention slot ∧ s.toSpec.toSpecFields = merged.toSpec.toSpecFields := by
      simp only [CacheSpecs.Checked, PlannedSpec.toSpec, kind] at checked ⊢
      obtain ⟨⟨full, cls⟩, same⟩ := checked
      refine ⟨?_, same⟩
      cases own : s.kind <;> rw [own] at cls <;> cases cls
      rfl
    obtain ⟨heads, headSize, -⟩ := PlannedSpec.toSpec_fields slots.2
    exact ⟨heads, headSize, fun slot' => by rw [slots.1, kind]⟩
  | slidingWindow window =>
    obtain rfl : merged = first := result.resolve_right fun ⟨_, _, other, _⟩ => by cases kind.symm.trans other
    have same : s.toSpec = merged.toSpec := by
      simp only [CacheSpecs.Checked, PlannedSpec.toSpec, kind] at checked ⊢
      exact checked
    rw [PlannedSpec.toSpec_inj same]
    exact .refl _

section
variable {x : CacheSpecs.AttentionSpec} (n : Nat)

theorem mergeFull_replicate {headSizeV : Nat} {window : Option Nat}
    (isFull : x.full? = some ⟨headSizeV, window, none⟩) :
    CacheSpecs.mergeFull x (replicate (n + 1) x) = .ok (window, none) := by
  have all : (replicate (n + 1) x).all (·.full?.isSome) = true := by
    rw [all_replicate, if_neg (succ_ne_zero n), isFull]
    rfl
  have fields : (replicate (n + 1) x).all (·.toSpecFields == x.toSpecFields) = true := by
    rw [all_replicate, if_neg (succ_ne_zero n)]
    exact beq_self_eq_true _
  have sizes : ∀ (size : CacheSpecs.FullFields → Option Nat),
      CacheSpecs.mergeWindowSizes ((replicate (n + 1) x).filterMap (·.full?.bind size)).dedup =
        .ok (size ⟨headSizeV, window, none⟩) := by
    intro size
    cases found : size ⟨headSizeV, window, none⟩ with
    | none =>
      rw [filterMap_replicate_of_none (by rw [isFull, Option.bind_some, found])]
      rfl
    | some w =>
      rw [filterMap_replicate_of_some (by rw [isFull, Option.bind_some,
        found]), replicate_dedup (succ_ne_zero n)]
      rfl
  rw [CacheSpecs.mergeFull, if_pos all, sizes, sizes, fields]
  simp [Except.bind]

theorem slotsAgree_replicate {full : CacheSpecs.FullFields} (cls : x.cls = .tqFullAttention full slot) :
    CacheSpecs.slotsAgree slot (replicate n x) = .ok true := by
  induction n with
  | zero => rfl
  | succ n ih =>
    rw [replicate_succ, CacheSpecs.slotsAgree, cls]
    simp only [if_true]
    exact ih

end

theorem mergeSpecs_replicate (s : PlannedSpec) (n : Nat) : mergeSpecs (replicate (n + 1) s) = .ok s := by
  obtain ⟨kind, block, heads, headSize, headSizeV, dtype⟩ := s
  rw [replicate_succ, mergeSpecs, ← replicate_succ, map_replicate]
  cases kind with
  | fullAttention window =>
    have full := mergeFull_replicate (x := PlannedSpec.toSpec ⟨.fullAttention window, block, heads,
      headSize, headSizeV, dtype⟩) n rfl
    rw [replicate_succ] at full ⊢
    simp only [CacheSpecs.merge, PlannedSpec.toSpec] at full ⊢
    rw [full]
    rfl
  | tqFullAttention slot =>
    have full := mergeFull_replicate (x := PlannedSpec.toSpec ⟨.tqFullAttention slot, block, heads,
      headSize, headSizeV, dtype⟩) n rfl
    have slots := slotsAgree_replicate (x := PlannedSpec.toSpec ⟨.tqFullAttention slot, block,
      heads, headSize, headSizeV, dtype⟩) (n + 1) rfl
    rw [replicate_succ] at full slots ⊢
    simp only [CacheSpecs.merge, PlannedSpec.toSpec] at full slots ⊢
    rw [full, slots]
    rfl
  | slidingWindow window =>
    rw [replicate_succ]
    simp only [CacheSpecs.merge, PlannedSpec.toSpec, all_replicate, beq_self_eq_true, ite_self, if_true]
    rfl

/-! ### Groups -/

/-- The planned layers are the layers of the model, once each, and every layer keeps its heads and
its slot. -/
structure Plans (dict planned : SpecDict) : Prop where
  distinct : (planned.map (·.1)).Nodup
  known : ∀ entry ∈ planned, entry.1 ∈ dict.map (·.1)
  specs : ∀ n s, (n, s) ∈ dict → ∃ t, (n, t) ∈ planned ∧ s.Keeps t
  sized : ∀ entry ∈ planned, entry.2.Sized

theorem Plans.of_keeps {unified planned : SpecDict} (plans : Plans unified planned)
    (names : unified.map (·.1) = d.map (·.1)) (keeps : ∀ n s, (n, s) ∈ d → ∃ t, (n, t) ∈ unified ∧ s.Keeps t) :
    Plans d planned where
  distinct := plans.distinct
  known := fun e listed => names ▸ plans.known e listed
  specs := by
    intro n s e
    obtain ⟨t, listed, first⟩ := keeps n s e
    obtain ⟨u, found, second⟩ := plans.specs n t listed
    exact ⟨u, found, first.trans second⟩
  sized := plans.sized

def CacheGroup.Paged (group : CacheGroup) : Prop :=
  ∀ entry ∈ group.layers, entry.2.pageSizeBytes = group.pageSizeBytes

def CacheGroups.Paged : CacheGroups → Prop
  | .perSpec groups => ∀ group ∈ groups, group.Paged
  | _ => True

theorem createGroup_ok {names : List Nat} {g : CacheGroup} (ran : createGroup d names = .ok g) :
    ∃ merged, mergeSpecs (names.filterMap (specOf d)) = .ok merged ∧
      g.layers = names.map (·, merged) ∧ g.Paged := by
  obtain ⟨merged, merge, rfl⟩ := map_ok ran
  refine ⟨merged, merge, rfl, fun e listed => ?_⟩
  obtain ⟨n, -, rfl⟩ := mem_map.mp listed
  rfl

theorem createKvCacheGroupSpecs_plans {grouped : List (List Nat)}
    (ran : createKvCacheGroupSpecs d grouped = .ok gs)
    (ks : (d.map (·.1)).Nodup) (sized : ∀ e ∈ d, e.2.Sized) (nodup : grouped.flatten.Nodup)
    (names : ∀ n, n ∈ grouped.flatten ↔ n ∈ d.map (·.1))
    (keeps : ∀ ls ∈ grouped, ∀ merged, mergeSpecs (ls.filterMap (specOf d)) = .ok merged → ∀ n ∈ ls,
      ∀ s, specOf d n = some s → s.Keeps merged) :
    Plans d gs.layerSpecs ∧ gs.Paged := by
  obtain ⟨created, each, rfl⟩ := map_ok ran
  have firsts : (created.flatMap (·.layers)).map (·.1) = grouped.flatten := by
    have same : created.map (fun g => g.layers.map (·.1)) = grouped.map id := by
      refine mapM_map_eq (fun {ls g} made => ?_) each
      obtain ⟨merged, -, same, -⟩ := createGroup_ok made
      rw [same, map_map]
      exact map_id _
    rw [map_flatMap, flatMap_def, same, map_id]
  refine ⟨⟨?_, fun e listed => ?_, fun n s e => ?_, fun e listed => ?_⟩, fun g listed => ?_⟩
  · exact firsts ▸ nodup
  · exact (names _).mp (firsts ▸ mem_map_of_mem (f := (·.1)) listed)
  · obtain ⟨ls, listed, mem⟩ := mem_flatten.mp ((names n).mpr (mem_map_of_mem (f := (·.1)) e))
    obtain ⟨i, here⟩ := mem_iff_getElem?.mp listed
    obtain ⟨g, made, there⟩ := mapM_getElem each here
    obtain ⟨merged, merge, same, -⟩ := createGroup_ok made
    refine ⟨merged, mem_flatMap.mpr ⟨g, mem_of_getElem? there, ?_⟩, ?_⟩
    · rw [same]
      exact mem_map.mpr ⟨n, mem, rfl⟩
    · exact keeps ls listed merged merge n mem s (specOf_of_mem ks e)
  · obtain ⟨g, isGroup, mem⟩ := mem_flatMap.mp listed
    obtain ⟨ls, -, made⟩ := mem_of_mapM each isGroup
    obtain ⟨merged, merge, same, -⟩ := createGroup_ok made
    rw [same] at mem
    obtain ⟨n, -, rfl⟩ := mem_map.mp mem
    refine mergeSpecs_sized merge fun s known => ?_
    obtain ⟨m, -, found⟩ := mem_filterMap.mp known
    exact sized _ (mem_of_specOf found)
  · obtain ⟨ls, -, made⟩ := mem_of_mapM each listed
    obtain ⟨-, -, -, paged⟩ := createGroup_ok made
    exact paged

theorem mem_strided {n i x : Nat} : x ∈ strided ls n i ↔ ∃ k, ls[k]? = some x ∧ k % n = i := by
  simp only [strided, mem_map, mem_filter, beq_iff_eq, Prod.exists, mem_zipIdx_iff_getElem?]
  constructor
  · rintro ⟨y, k, ⟨here, rest⟩, rfl⟩
    exact ⟨k, here, rest⟩
  · rintro ⟨k, here, rest⟩
    exact ⟨x, k, ⟨here, rest⟩, rfl⟩

theorem strided_sublist (layers : List Nat) (n i : Nat) : (strided layers n i).Sublist layers := by
  have all : (layers.zipIdx.map (·.1)) = layers := zipIdx_map_fst 0 layers
  exact (filter_sublist.map _).trans (by rw [all])

theorem splitLayers_mem {size x : Nat} (pos : 0 < size) : x ∈ (splitLayers size layers).flatten ↔
    x ∈ layers := by
  simp only [splitLayers, mem_flatten, mem_map, mem_range]
  constructor
  · rintro ⟨part, ⟨i, -, rfl⟩, mem⟩
    exact (strided_sublist _ _ _).subset mem
  · intro mem
    obtain ⟨k, here⟩ := mem_iff_getElem?.mp mem
    have filled : 0 < layers.length := length_pos_of_mem mem
    have gs : 0 < (layers.length + size - 1) / size := div_pos (by omega) pos
    exact ⟨_, ⟨_, mod_lt k gs, rfl⟩, mem_strided.mpr ⟨k, here, rfl⟩⟩

theorem splitLayers_nodup (nodup : ls.Nodup) (size : Nat) : (splitLayers size ls).flatten.Nodup := by
  rw [splitLayers, ← flatMap_def, nodup_flatMap]
  refine ⟨fun i _ => nodup.sublist (strided_sublist _ _ _), ?_⟩
  refine nodup_range.imp fun {i j} other x left right => ?_
  obtain ⟨k, here, rest⟩ := mem_strided.mp left
  obtain ⟨k', here', rest'⟩ := mem_strided.mp right
  have same : k = k' := (List.getElem?_inj (List.getElem_of_getElem? here).1 nodup).mp (here.trans here'.symm)
  exact other (by rw [← rest, ← rest', same])

theorem mem_sameTypeLayers : (s, ls) ∈ sameTypeLayers d ↔ s ∈ d.map (·.2) ∧
    ls = (d.filter (·.2 == s)).map (·.1) := by
  simp only [sameTypeLayers, mem_map, mem_reverse, mem_dedup, Prod.mk.injEq]
  constructor
  · rintro ⟨t, known, rfl, same⟩
    exact ⟨known, same.symm⟩
  · rintro ⟨known, rfl⟩
    exact ⟨s, known, rfl, rfl⟩

theorem mem_typeLayers {n : Nat} : n ∈ (dict.filter (·.2 == s)).map (·.1) ↔ (n, s) ∈ dict := by
  simp only [mem_map, mem_filter, beq_iff_eq, Prod.exists]
  constructor
  · rintro ⟨m, t, ⟨e, rfl⟩, rfl⟩
    exact e
  · intro e
    exact ⟨n, s, ⟨e, rfl⟩, rfl⟩

theorem groupSize_pos {sizes : List Nat} (some_ : sizes ≠ []) (pos : ∀ n ∈ sizes, 0 < n) :
    0 < groupSize sizes := by
  obtain ⟨least, least_eq⟩ := Option.isSome_iff_exists.mp (isSome_min?_of_ne_nil some_)
  obtain ⟨greatest, greatest_eq⟩ := Option.isSome_iff_exists.mp (isSome_max?_of_ne_nil some_)
  have low := pos _ (min?_mem least_eq)
  have high := pos _ (max?_mem greatest_eq)
  rw [groupSize, least_eq, greatest_eq]
  split
  · exact high
  · exact low

theorem groupsUniformPageSize_plans (ran : groupsUniformPageSize d = .ok gs) (ks : (d.map (·.1)).Nodup)
    (sized : ∀ e ∈ d, e.2.Sized) (filled : d ≠ []) : Plans d gs.layerSpecs ∧ gs.Paged := by
  have sizes : 0 < groupSize ((sameTypeLayers d).map (·.2.length)) := by
    refine groupSize_pos ?_ ?_
    · intro none
      obtain ⟨e, rest, rfl⟩ := exists_cons_of_ne_nil filled
      have listed := mem_sameTypeLayers.mpr
        ⟨mem_map_of_mem (f := (·.2)) (mem_cons_self (a := e) (l := rest)), rfl⟩
      rw [map_eq_nil_iff.mp none] at listed
      cases listed
    · intro n mem
      obtain ⟨⟨s, ls⟩, listed, rfl⟩ := mem_map.mp mem
      obtain ⟨known, rfl⟩ := mem_sameTypeLayers.mp listed
      obtain ⟨⟨m, t⟩, e, rfl⟩ := mem_map.mp known
      exact length_pos_of_mem (mem_typeLayers.mpr e)
  have flat : ∀ n, n ∈ ((sameTypeLayers d).flatMap fun e =>
      splitLayers (groupSize ((sameTypeLayers d).map (·.2.length))) e.2).flatten ↔ n ∈ d.map (·.1) := by
    intro n
    simp only [mem_flatten, mem_flatMap]
    constructor
    · rintro ⟨part, ⟨⟨s, ls⟩, listed, split⟩, mem⟩
      have inside := (splitLayers_mem sizes).mp (mem_flatten.mpr ⟨part, split, mem⟩)
      rw [(mem_sameTypeLayers.mp listed).2] at inside
      exact mem_map_of_mem (f := (·.1)) (mem_typeLayers.mp inside)
    · intro mem
      obtain ⟨⟨m, s⟩, e, rfl⟩ := mem_map.mp mem
      obtain ⟨part, split, inside⟩ := mem_flatten.mp ((splitLayers_mem sizes).mpr (mem_typeLayers.mpr e))
      exact ⟨part, ⟨(s, _), mem_sameTypeLayers.mpr ⟨mem_map_of_mem (f := (·.2)) e, rfl⟩, split⟩, inside⟩
  refine createKvCacheGroupSpecs_plans ran ks sized ?_ flat ?_
  · rw [← flatMap_id, flatMap_assoc, nodup_flatMap]
    constructor
    · rintro ⟨s, ls⟩ listed
      rw [(mem_sameTypeLayers.mp listed).2]
      have parts := splitLayers_nodup (ks.sublist (filter_sublist.map _) :
        ((d.filter (·.2 == s)).map (·.1)).Nodup) (groupSize ((sameTypeLayers d).map (·.2.length)))
      rw [← flatMap_id] at parts
      exact parts
    · rw [sameTypeLayers, pairwise_map]
      refine (nodup_reverse.mpr (nodup_dedup _)).imp fun {s t} other x left right => ?_
      have first := mem_typeLayers.mp ((splitLayers_mem sizes).mp (mem_flatten.mpr (mem_flatMap.mp left)))
      have second := mem_typeLayers.mp ((splitLayers_mem sizes).mp (mem_flatten.mpr (mem_flatMap.mp right)))
      exact other (Option.some.inj ((specOf_of_mem ks first).symm.trans (specOf_of_mem ks second)))
  · intro ls listed merged merge n mem s found
    obtain ⟨⟨t, same⟩, type, split⟩ := mem_flatMap.mp listed
    have each : ∀ m ∈ ls, specOf d m = some t := by
      intro m inside
      have known := (splitLayers_mem sizes).mp (mem_flatten.mpr ⟨ls, split, inside⟩)
      rw [(mem_sameTypeLayers.mp type).2] at known
      exact specOf_of_mem ks (mem_typeLayers.mp known)
    obtain ⟨k, count⟩ := exists_eq_succ_of_ne_zero (length_pos_of_mem mem).ne'
    have specs : ls.filterMap (specOf d) = replicate (k + 1) t := by
      rw [← succ_eq_add_one, ← count, filterMap_congr each]
      rw [filterMap_eq_map' , map_const']
    rw [specs, mergeSpecs_replicate] at merge
    cases merge
    rw [each n mem] at found
    cases found
    exact .refl _

/-- What keeps the merge of all layers from taking a TurboQuant layer for a plain one: the first
layer is a TurboQuant layer itself or does not store bytes. -/
def FirstApart (dict : SpecDict) : Prop :=
  ∀ n s slot, (n, s) ∈ dict → s.kind = .tqFullAttention slot → s.dtype = .uint8 ∧
    ∀ first ∈ dict.head?, first.2.dtype = .uint8 → ∃ slot', first.2.kind = .tqFullAttention slot'

theorem uniformGroup_plans (ks : (d.map (·.1)).Nodup) (sized : ∀ e ∈ d, e.2.Sized) (apart : FirstApart d)
    (ran : createKvCacheGroupSpecs d [d.map (·.1)] = .ok gs) : Plans d gs.layerSpecs ∧ gs.Paged := by
  refine createKvCacheGroupSpecs_plans ran ks sized ?_ (fun n => ?_) ?_
  · rwa [flatten_singleton]
  · rw [flatten_singleton]
  intro ls listed merged merge n mem s found
  rw [mem_singleton.mp listed] at merge
  have specs : (d.map (·.1)).filterMap (specOf d) = d.map (·.2) := by
    rw [filterMap_map, ← filterMap_eq_map]
    refine filterMap_congr fun e mem => ?_
    exact specOf_of_mem ks mem
  rw [specs] at merge
  cases d with
  | nil => cases mem_of_specOf found
  | cons first rest =>
    refine mergeSpecs_keeps merge (fun window plain t listed slot kind same => ?_) s
      (mem_map_of_mem (f := (·.2)) (mem_of_specOf found))
    obtain ⟨⟨m, u⟩, e, rfl⟩ := mem_map.mp (map_cons ▸ listed : t ∈ (first :: rest).map (·.2))
    obtain ⟨bytes, first_⟩ := apart m u slot e kind
    obtain ⟨slot', tq⟩ := first_ first rfl (same ▸ bytes)
    rw [plain] at tq
    cases tq

theorem unifyLayer_keeps {maxPage : Nat} {e unified : Nat × PlannedSpec}
    (ran : unifyLayer maxPage e = .ok unified) :
    unified.1 = e.1 ∧ e.2.Keeps unified.2 ∧ (e.2.pageSizeBytes ≤ maxPage → e.2.Sized → unified.2.Sized) := by
  unfold unifyLayer at ran
  split at ran
  · cases ran
    exact ⟨rfl, .refl _, fun _ sized => sized⟩
  split at ran
  · cases ran
  · rename_i page
    split at ran
    · cases ran
    dsimp only at ran
    split at ran
    · cases ran
      refine ⟨rfl, ⟨rfl, rfl, fun _ => Iff.rfl⟩, fun below sized => ⟨?_, sized.head, sized.headV⟩⟩
      exact mul_pos sized.block (div_pos below (pos_of_ne_zero page))
    · cases ran

theorem groupLayers_plans (ran : groupLayers dict = .ok gs) (ks : (dict.map (·.1)).Nodup)
    (sized : ∀ e ∈ dict, e.2.Sized) (apart : FirstApart dict) :
    Plans dict gs.layerSpecs ∧ gs.Paged := by
  have same : Plans dict dict := ⟨ks, fun e listed => mem_map_of_mem (f := (·.1)) listed,
    fun n s e => ⟨s, e, .refl s⟩, sized⟩
  unfold groupLayers at ran
  split at ran
  · rename_i none
    cases ran
    rw [isEmpty_iff.mp none] at same ⊢
    exact ⟨same, trivial⟩
  · rename_i filled
    obtain ⟨uniform, -, ran⟩ := bind_ok ran
    split at ran
    · exact uniformGroup_plans ks sized apart ran
    split at ran
    · cases ran
      exact ⟨same, trivial⟩
    · obtain ⟨unified, unify, ran⟩ := bind_ok ran
      have names : unified.map (·.1) = dict.map (·.1) :=
        mapM_map_eq (fun step => (unifyLayer_keeps step).1) unify
      have some_ : unified ≠ [] := by
        rintro rfl
        exact filled (isEmpty_iff.mpr (map_eq_nil_iff.mp names.symm))
      have sized' : ∀ e ∈ unified, e.2.Sized := by
        intro e listed
        obtain ⟨origin, known, step⟩ := mem_of_mapM unify listed
        refine (unifyLayer_keeps step).2.2 ?_ (sized origin known)
        exact le_max?_getD_of_mem (mem_map_of_mem (f := (·.2.pageSizeBytes)) known)
      obtain ⟨plans, paged⟩ := groupsUniformPageSize_plans ran (by rw [names]; exact ks) sized' some_
      refine ⟨plans.of_keeps names fun n s e => ?_, paged⟩
      obtain ⟨i, here⟩ := mem_iff_getElem?.mp e
      obtain ⟨⟨m, t⟩, step, there⟩ := mapM_getElem unify here
      obtain ⟨named, keeps, -⟩ := unifyLayer_keeps step
      cases named
      exact ⟨t, mem_of_getElem? there, keeps⟩

theorem asFull_keeps (s : PlannedSpec) : s.Keeps (asFull s) := by
  unfold asFull
  split
  · rename_i window kind
    exact ⟨rfl, rfl, fun slot => by rw [kind]; exact ⟨fun tq => (by cases tq), fun tq => (by cases tq)⟩⟩
  · exact .refl _

theorem asFull_dtype (s : PlannedSpec) : (asFull s).dtype = s.dtype := by
  unfold asFull
  split <;> rfl

theorem asFull_sized (sized : s.Sized) : (asFull s).Sized := by
  unfold asFull
  split
  · exact ⟨sized.block, sized.head, sized.head⟩
  · exact sized

theorem getKvCacheGroups_plans {disabled : Bool} (ran : getKvCacheGroups disabled d = .ok gs)
    (ks : (d.map (·.1)).Nodup) (sized : ∀ e ∈ d, e.2.Sized) (apart : FirstApart d) :
    Plans d gs.layerSpecs ∧ gs.Paged := by
  obtain ⟨planned, converted, grouped⟩ := bind_ok ran
  have cases_ : planned = d ∨ planned = d.map fun e => (e.1, asFull e.2) := by
    split at converted
    · obtain ⟨unified, -, converted⟩ := bind_ok converted
      split at converted
      · cases converted
        exact .inl rfl
      · obtain ⟨now, -, converted⟩ := bind_ok converted
        split at converted
        · cases converted
          split
          · exact .inr rfl
          · exact .inl rfl
        · cases converted
    · cases converted
      exact .inl rfl
  rcases cases_ with rfl | rfl
  · exact groupLayers_plans grouped ks sized apart
  have names : (d.map fun e => (e.1, asFull e.2)).map (·.1) = d.map (·.1) := by rw [map_map]; rfl
  refine (groupLayers_plans grouped (by rw [names]; exact ks) ?_ ?_).imp_left (·.of_keeps names ?_)
  · intro e listed
    obtain ⟨origin, known, rfl⟩ := mem_map.mp listed
    exact asFull_sized (sized origin known)
  · intro n t slot e kind
    obtain ⟨⟨m, s⟩, listed, same⟩ := mem_map.mp e
    cases same
    obtain ⟨bytes, first_⟩ := apart _ s slot listed (((asFull_keeps s).slot slot).mp kind)
    refine ⟨(asFull_dtype s).trans bytes, fun first head plain => ?_⟩
    rw [head?_map] at head
    obtain ⟨origin, head_, rfl⟩ := Option.mem_map.mp head
    obtain ⟨slot', tq⟩ := first_ origin head_ ((asFull_dtype origin.2).symm.trans plain)
    exact ⟨slot', ((asFull_keeps origin.2).slot slot').mpr tq⟩
  · intro n s e
    exact ⟨asFull s, mem_map.mpr ⟨(n, s), e, rfl⟩, asFull_keeps s⟩

/-! ### Configurations -/

/-- The configuration of a worker with these layers. -/
structure KVCacheConfig.Fits (dict : SpecDict) (config : KVCacheConfig) : Prop where
  plans : Plans dict config.kvCacheGroups.layerSpecs
  size : ∀ tensor ∈ config.kvCacheTensors, ∀ n ∈ tensor.sharedBy, ∃ s,
    (n, s) ∈ config.kvCacheGroups.layerSpecs ∧ tensor.size = s.pageSizeBytes * config.numBlocks
  apart : (config.kvCacheTensors.flatMap (·.sharedBy)).Nodup
  covers : ∀ n ∈ config.kvCacheGroups.layerNames, ∃ tensor ∈ config.kvCacheTensors, n ∈ tensor.sharedBy

theorem projectToWorker_layerSpecs (worker : SpecDict) (gs : CacheGroups) :
    (projectToWorker worker gs).layerSpecs = ownLayers worker gs.layerSpecs := by
  cases gs with
  | attentionFree => rfl
  | uniformType g => rfl
  | perSpec gs =>
    show (gs.map _).flatMap _ = (gs.flatMap _).filter _
    rw [flatMap_map, filter_flatMap]
    rfl

variable {worker : SpecDict}

theorem projectToWorker_plans (plans : Plans d gs.layerSpecs)
    (part : ∀ e ∈ worker, e ∈ d) : Plans worker (projectToWorker worker gs).layerSpecs := by
  rw [projectToWorker_layerSpecs]
  refine ⟨plans.distinct.sublist (filter_sublist.map _), fun e listed => ?_, fun n s e => ?_,
    fun e listed => ?_⟩
  · exact specOf_isSome.mp (mem_filter.mp listed).2
  · obtain ⟨t, listed, keeps⟩ := plans.specs n s (part _ e)
    exact ⟨t, mem_filter.mpr ⟨listed, specOf_isSome.mpr (mem_map_of_mem (f := (·.1)) e)⟩, keeps⟩
  · exact plans.sized e (mem_of_mem_filter listed)

theorem projectToWorker_paged (paged : gs.Paged) : (projectToWorker worker gs).Paged := by
  cases gs with
  | attentionFree => trivial
  | uniformType g => trivial
  | perSpec gs =>
    intro g listed e mem
    obtain ⟨origin, known, rfl⟩ := mem_map.mp listed
    exact paged origin known e (mem_of_mem_filter mem)

section
variable {gs : List CacheGroup}

theorem mem_layersAt {i n : Nat} : n ∈ layersAt gs i ↔ ∃ g ∈ gs, (g.layers.map (·.1))[i]? = some n := by
  simp only [layersAt, mem_filterMap, getElem?_map]

section
variable (nodup : (gs.flatMap fun g => g.layers.map (·.1)).Nodup)
include nodup

theorem layersAt_nodup (i : Nat) : (layersAt gs i).Nodup := by
  rw [layersAt, List.Nodup, pairwise_filterMap]
  refine (nodup_flatMap.mp nodup).2.imp fun {g h} disjoint x here y there => ?_
  rintro rfl
  rw [← getElem?_map] at here there
  exact disjoint (mem_of_getElem? here) (mem_of_getElem? there)

theorem layersAt_disjoint {i j : Nat} (other : i ≠ j) : List.Disjoint (layersAt gs i) (layersAt gs j) := by
  intro n left right
  obtain ⟨g, inG, here⟩ := mem_layersAt.mp left
  obtain ⟨h, inH, there⟩ := mem_layersAt.mp right
  obtain ⟨each, pairs⟩ := nodup_flatMap.mp nodup
  by_cases same : g = h
  · subst same
    exact other ((List.getElem?_inj (List.getElem_of_getElem? here).1 (each g inG)).mp (here.trans there.symm))
  · have symmetric : Std.Symm (Function.onFun List.Disjoint fun group : CacheGroup =>
        group.layers.map (·.1)) :=
      ⟨fun _ _ disjoint => disjoint.symm⟩
    exact pairs.forall inG inH same (mem_of_getElem? here) (mem_of_getElem? there)

end

theorem getUniformPageSize_ok {page : Nat} (ran : getUniformPageSize gs = .ok page) :
    ∀ g ∈ gs, g.pageSizeBytes = page := by
  unfold getUniformPageSize at ran
  split at ran
  · cases ran
  split at ran
  · rename_i same
    cases ran
    intro g mem
    rcases mem_cons.mp mem with rfl | later
    · rfl
    · exact eq_of_beq (all_eq_true.mp same g later)
  · cases ran

end

variable {override : Option Nat} {memory : Nat}

theorem configPerSpec_fits {groups : List CacheGroup}
    (ran : configPerSpec override groups memory = .ok cfg)
    (plans : Plans dict (CacheGroups.perSpec groups).layerSpecs)
    (paged : ∀ g ∈ groups, g.Paged) : cfg.Fits dict := by
  have nodup : (groups.flatMap fun g => g.layers.map (·.1)).Nodup := by
    have keys := plans.distinct
    rw [CacheGroups.layerSpecs, map_flatMap] at keys
    exact keys
  obtain ⟨page, uniform, ran⟩ := bind_ok ran
  split at ran
  · cases ran
  obtain ⟨numBlocks, -, rfl⟩ := map_ok ran
  refine ⟨plans, ?_, ?_, ?_⟩
  · intro tensor listed n mem
    obtain ⟨i, -, rfl⟩ := mem_map.mp listed
    obtain ⟨g, isGroup, here⟩ := mem_layersAt.mp mem
    obtain ⟨⟨m, s⟩, e, rfl⟩ := mem_map.mp (mem_of_getElem? here)
    refine ⟨s, mem_flatMap.mpr ⟨g, isGroup, e⟩, ?_⟩
    rw [paged g isGroup _ e, getUniformPageSize_ok uniform g isGroup]
  · show ((map _ _).flatMap _).Nodup
    rw [flatMap_map, nodup_flatMap]
    exact ⟨fun i _ => layersAt_nodup nodup i, nodup_range.imp fun other => layersAt_disjoint nodup other⟩
  · intro n mem
    rw [CacheGroups.layerNames, CacheGroups.layerSpecs, map_flatMap] at mem
    obtain ⟨g, isGroup, named⟩ := mem_flatMap.mp mem
    obtain ⟨i, here⟩ := mem_iff_getElem?.mp named
    have bound : i < maxLayers groups := by
      have inside := (List.getElem_of_getElem? here).1
      rw [length_map] at inside
      exact inside.trans_le (le_max?_getD_of_mem (mem_map_of_mem (f := (·.layers.length)) isGroup))
    exact ⟨_, mem_map.mpr ⟨i, mem_range.mpr bound, rfl⟩, mem_layersAt.mpr ⟨g, isGroup, here⟩⟩

theorem getKvCacheConfigFromGroups_fits
    (ran : getKvCacheConfigFromGroups override gs memory = .ok cfg) (plans : Plans dict gs.layerSpecs)
    (paged : gs.Paged) : cfg.Fits dict := by
  cases gs with
  | attentionFree =>
    cases ran
    exact ⟨plans, fun _ listed => (by cases listed), nodup_nil, fun _ mem => (by cases mem)⟩
  | perSpec gs => exact configPerSpec_fits ran plans paged
  | uniformType g =>
    obtain ⟨numBlocks, -, rfl⟩ := map_ok ran
    refine ⟨plans, ?_, ?_, ?_⟩
    · intro tensor listed n mem
      obtain ⟨⟨m, s⟩, e, rfl⟩ := mem_map.mp listed
      cases mem_singleton.mp mem
      exact ⟨s, e, rfl⟩
    · show ((map _ g.layers).flatMap _).Nodup
      rw [flatMap_map]
      exact map_eq_flatMap ▸ plans.distinct
    · intro n mem
      obtain ⟨e, listed, rfl⟩ := mem_map.mp mem
      exact ⟨_, mem_map_of_mem listed, mem_singleton_self e.1⟩

theorem shrink_fits {new : Nat} {shrunk : KVCacheConfig} (ran : shrink new cfg = .ok shrunk)
    (fits : cfg.Fits dict) : shrunk.Fits dict := by
  obtain ⟨tensors, each, rfl⟩ := map_ok ran
  have step : ∀ {tensor tensor' : KVCacheTensor}, shrinkTensor cfg.numBlocks new tensor = .ok tensor' →
      cfg.numBlocks ≠ 0 ∧ tensor'.sharedBy = tensor.sharedBy ∧
        tensor'.size = tensor.size / cfg.numBlocks * new := by
    intro tensor tensor' shrunk
    unfold shrinkTensor at shrunk
    split at shrunk
    · cases shrunk
    rename_i bs
    split at shrunk
    · cases shrunk
    · cases shrunk
      exact ⟨bs, rfl, rfl⟩
  have shared : tensors.map (·.sharedBy) = cfg.kvCacheTensors.map (·.sharedBy) :=
    mapM_map_eq (fun ran => (step ran).2.1) each
  have flat : tensors.flatMap (·.sharedBy) = cfg.kvCacheTensors.flatMap (·.sharedBy) := by
    rw [flatMap_def, shared, ← flatMap_def]
  refine ⟨fits.plans, ?_, ?_, ?_⟩
  · intro tensor' listed n mem
    obtain ⟨i, inside, here⟩ := getElem_of_mem listed
    have source : i < cfg.kvCacheTensors.length := by rw [← mapM_length each]; exact inside
    obtain ⟨made, shrunk, there⟩ := mapM_getElem each (getElem?_eq_getElem source)
    rw [getElem?_eq_getElem inside, here] at there
    cases there
    obtain ⟨bs, same, size⟩ := step shrunk
    obtain ⟨s, found, old⟩ := fits.size _ (getElem_mem source) n (by rw [← same]; exact mem)
    refine ⟨s, found, ?_⟩
    rw [size, old, Nat.mul_div_cancel _ (Nat.pos_of_ne_zero bs)]
  · rw [flat]
    exact fits.apart
  · intro n mem
    obtain ⟨tensor, listed, sharing⟩ := fits.covers n mem
    have both : n ∈ tensors.flatMap (·.sharedBy) := by rw [flat]; exact mem_flatMap.mpr ⟨tensor,
      listed, sharing⟩
    exact mem_flatMap.mp both

/-! ### All workers -/

structure Merges (entries merged : SpecDict) : Prop where
  keys : (merged.map (·.1)).Nodup
  mem : ∀ entry, entry ∈ merged ↔ entry ∈ entries
  first : merged.head? = entries.head?

theorem addSpec_merges {es merged merged' : SpecDict} {e : Nat × PlannedSpec}
    (ran : addSpec merged e = .ok merged')
    (merges : Merges es merged) : Merges (es ++ [e]) merged' := by
  unfold addSpec at ran
  split at ran
  · rename_i fresh
    cases ran
    have new : e.1 ∉ merged.map (·.1) := by
      rw [← specOf_isSome, fresh]
      exact Bool.false_ne_true
    refine ⟨?_, fun other => ?_, ?_⟩
    · rw [map_append, nodup_append]
      refine ⟨merges.keys, nodup_singleton _, fun n old m here => ?_⟩
      rw [mem_singleton.mp here]
      intro same
      rw [same] at old
      exact new old
    · rw [mem_append, mem_append, merges.mem]
    · rw [head?_append, head?_append, merges.first]
  · rename_i s found
    split at ran
    · rename_i same
      cases ran
      have listed : e ∈ merged := by
        have here := mem_of_specOf found
        rw [same] at here
        exact here
      refine ⟨merges.keys, fun other => ?_, ?_⟩
      · rw [mem_append, ← merges.mem]
        exact ⟨.inl, fun either => either.elim id fun last => (mem_singleton.mp last) ▸ listed⟩
      · rw [head?_append, ← merges.first]
        cases merged with
        | nil => cases listed
        | cons head rest => rfl
    · cases ran

variable {workers : List SpecDict}

theorem mergeWorkers_merges {merged : SpecDict} (ran : mergeWorkers workers = .ok merged) :
    Merges workers.flatten merged := by
  have run : ∀ (rest es before after : SpecDict), rest.foldlM addSpec before = .ok after → Merges es before →
      Merges (es ++ rest) after := by
    intro rest
    induction rest with
    | nil =>
      intro es before after ran merges
      rwa [← pure_ok ran, append_nil]
    | cons e rest ih =>
      intro es before after ran merges
      obtain ⟨middle, added, ran⟩ := bind_ok ran
      rw [← singleton_append, ← append_assoc]
      exact ih _ _ _ ran (addSpec_merges added merges)
  have whole := run workers.flatten [] [] merged ran ⟨nodup_nil, fun _ => Iff.rfl, rfl⟩
  exact whole

theorem getKvCacheConfigs_fits {settings : PlanSettings} {memory : List Nat}
    {configs : List KVCacheConfig} (ran : getKvCacheConfigs settings workers memory = .ok configs)
    (apart : FirstApart workers.flatten) (sized : ∀ e ∈ workers.flatten, e.2.Sized) {i : Nat}
    (here : configs[i]? = some cfg) : ∃ worker, workers[i]? = some worker ∧ cfg.Fits worker := by
  obtain ⟨merged, ranMerge, ran⟩ := bind_ok ran
  obtain ⟨gs, ranGroups, ran⟩ := bind_ok ran
  obtain ⟨inputs, ranInputs, ran⟩ := bind_ok ran
  obtain ⟨checked, -, ran⟩ := bind_ok ran
  obtain ⟨planned, ranPlans, ran⟩ := bind_ok ran
  have merges := mergeWorkers_merges ranMerge
  have plans : Plans merged gs.layerSpecs ∧ gs.Paged := by
    refine getKvCacheGroups_plans ranGroups merges.keys (fun e listed => sized e ((merges.mem e).mp listed))
      fun n s slot e kind => ?_
    rw [merges.first]
    exact apart n s slot ((merges.mem _).mp e) kind
  unfold shrinkAll at ran
  split at ran
  · cases ran
  rename_i new least
  have count : i < planned.length := by
    rw [← mapM_length ran]
    exact (List.getElem_of_getElem? here).1
  obtain ⟨shrunk, ranShrink, there⟩ := mapM_getElem ran (getElem?_eq_getElem count)
  rw [here] at there
  cases there
  have inputCount : i < inputs.length := by rw [← mapM_length ranPlans]; exact count
  obtain ⟨plan, ranPlan, there⟩ := mapM_getElem ranPlans (getElem?_eq_getElem inputCount)
  rw [getElem?_eq_getElem count] at there
  have zipCount : i < (workers.zip memory).length := by rw [← mapM_length ranInputs]; exact inputCount
  obtain ⟨input, ranInput, there'⟩ := mapM_getElem ranInputs (getElem?_eq_getElem zipCount)
  rw [getElem?_eq_getElem inputCount] at there'
  obtain ⟨effective, -, made⟩ := map_ok ranInput
  have workerCount : i < workers.length := by rw [length_zip] at zipCount; omega
  refine ⟨workers[i], getElem?_eq_getElem workerCount, ?_⟩
  have part : ∀ e ∈ workers[i], e ∈ merged := fun e listed =>
    (merges.mem e).mpr (mem_flatten.mpr ⟨_, getElem_mem workerCount, listed⟩)
  unfold planWorker at ranPlan
  split at ranPlan
  · rw [Option.some.inj there'] at ranPlan
    have worker : ((workers.zip memory).get ⟨i, zipCount⟩).1 = workers[i] := by
      rw [get_eq_getElem, getElem_zip]
    rw [← made, worker] at ranPlan
    rw [Option.some.inj there] at ranShrink
    exact shrink_fits ranShrink (getKvCacheConfigFromGroups_fits ranPlan (projectToWorker_plans plans.1 part)
      (projectToWorker_paged plans.2))
  · cases ranPlan

end TurboQuant.Core
