import TurboQuant.Ascend.CompressHit
import TurboQuant.Ascend.HybridCoordinator

/-!
For which groups the prefix lookup on Ascend returns exactly as many blocks as the hit has.
-/

namespace TurboQuant.Ascend
open TurboQuant.Core Outcome Narrowing HybridKVCacheCoordinator List Nat Option BlockPool
  BlockHashToBlockMap

variable {rs : List (List Nat)} {ids : List Nat} {hitLength len i : Nat}

/-! ### Lookups where everything is cached -/

section
variable {pool p : BlockPool} {hs : List BlockHash} {eagle : Bool}
  {l blockSize al length : Nat}

section
variable (pool : BlockPool) (blockHashes : List BlockHash) (kvCacheGroupIds : List Nat)

def AllCached : Prop :=
  ∀ hash ∈ blockHashes, ∃ row, pool.getCachedBlock hash kvCacheGroupIds = some row

def NoneCached : Prop :=
  ∀ hash ∈ blockHashes, pool.getCachedBlock hash kvCacheGroupIds = none

end

theorem cachedAt_iff {j : Nat} : p.CachedAt hs ids j ↔
    ∃ h row, hs[j]? = some h ∧ p.getCachedBlock h ids = some row := by
  simp only [CachedAt, rowAt, isSome_iff_exists, bind_eq_some_iff]
  exact exists_comm

theorem AllCached.hit (cached : AllCached p hs ids) {k width size : Nat}
    (aligned : al ∣ k * blockSize) (within : size ≤ hs.length) (le : k + eagleBlocks eagle ≤ size) :
    p.SearchHit hs ids blockSize al eagle width size k := by
  refine ⟨aligned, le, fun j _ before => cachedAt_iff.mpr ?_⟩
  have within : j < hs.length := (before.trans_le le).trans_le within
  obtain ⟨row, hit⟩ := cached _ (getElem_mem within)
  exact ⟨_, row, getElem?_eq_getElem within, hit⟩

theorem NoneCached.not_cachedAt (missing : NoneCached p hs ids) (j : Nat) :
    ¬ p.CachedAt hs ids j := by
  intro hit
  obtain ⟨h, row, at_, cached⟩ := cachedAt_iff.mp hit
  rw [missing h (mem_of_getElem? at_)] at cached
  cases cached

theorem add_eagleBlocks_mul (k blockSize : Nat) (eagle : Bool) :
    (k + eagleBlocks eagle) * blockSize = k * blockSize + if eagle then blockSize else 0 := by
  rw [add_mul, eagleBlocks]
  split <;> simp

theorem findFullAttentionHit_ge (cached : AllCached p hs ids) (pos : 0 < blockSize)
    (aligned : al ∣ length) (whole : blockSize ∣ length) (room : length + (if eagle then blockSize else 0) ≤ l)
    (enough : length + (if eagle then blockSize else 0) ≤ hs.length * blockSize) :
    length ≤ (p.findFullAttentionHit hs l ids blockSize eagle al).length *
      blockSize := by
  obtain ⟨k, rfl⟩ := whole
  rw [mul_comm] at aligned room enough ⊢
  rw [← add_eagleBlocks_mul] at room enough
  refine mul_le_mul_right _ ((p.findFullAttentionHit_search _ _ _ _ _ _).2 k ?_)
  refine cached.hit aligned (Nat.min_le_right _ _) (Nat.le_min.mpr ⟨?_, Nat.le_of_mul_le_mul_right enough pos⟩)
  exact (le_div_iff_mul_le pos).mpr room

theorem findFullAttentionHit_none (missing : NoneCached p hs ids) :
    p.findFullAttentionHit hs l ids blockSize eagle al = [] := by
  refine eq_nil_of_length_eq_zero ?_
  rcases (p.findFullAttentionHit_search hs l ids blockSize eagle al).1 with
    none | hit
  · exact none
  · by_contra some
    have inside := hit.inside
    exact missing.not_cachedAt 0 (hit.cached 0 (by omega) (by omega))

section
variable {span : Nat} (pos : 0 < blockSize) (window : 0 < span)
  (ran : p.findSlidingWindowHit hs l ids span blockSize eagle al = .ok rs)
include ran

theorem covered_of_ok : l / blockSize ≤ hs.length := by
  obtain ⟨_, loop, -⟩ := bind_ok ran
  cases size : l / blockSize with
  | zero => exact zero_le _
  | succ n =>
    rw [size] at loop
    unfold windowLoop at loop
    split at loop
    · cases loop
    · rename_i at_
      exact (List.getElem_of_getElem? at_).1

include pos window

theorem findSlidingWindowHit_ge (cached : AllCached p hs ids) (aligned : al ∣ length)
    (whole : blockSize ∣ length) (room : length + (if eagle then blockSize else 0) ≤ l)
    (wide : span ≤ length) : length ≤ rs.length * blockSize := by
  obtain ⟨k, rfl⟩ := whole
  rw [mul_comm] at aligned room wide ⊢
  refine mul_le_mul_right _ ?_
  have covered := covered_of_ok ran
  obtain ⟨_, last, ran', -, greatest, ends, -⟩ :=
    p.findSlidingWindowHit_search ids eagle al pos window covered
  obtain rfl := Except.ok.inj (ran.symm.trans ran')
  rw [← add_eagleBlocks_mul] at room
  have far : k ≤ last := greatest k (cached.hit aligned covered ((le_div_iff_mul_le pos).mpr room))
  have narrow : searchWidth span blockSize eagle ≤ k := by
    have blocks := (lt_windowBlocks pos span k).not
    have some : 0 < k := Nat.pos_of_mul_pos_right (window.trans_le wide)
    unfold searchWidth
    split <;> omega
  obtain ⟨length, -⟩ := ends fun lost => absurd (far.trans_lt lost.2.2.2) (not_lt.mpr narrow)
  exact far.trans length.ge

theorem findSlidingWindowHit_none (missing : NoneCached p hs ids) : rs = [] := by
  obtain ⟨_, k, ran', hit, -, ends, -⟩ :=
    p.findSlidingWindowHit_search ids eagle al pos window (covered_of_ok ran)
  obtain rfl := Except.ok.inj (ran.symm.trans ran')
  have none : k = 0 := by
    by_contra some
    have width := searchWidth_pos span blockSize eagle
    exact missing.not_cachedAt _ ((hit.resolve_left some).cached (k - searchWidth span blockSize eagle)
      (le_refl _) (by omega))
  subst none
  exact eq_nil_of_length_eq_zero (ends fun lost => lt_irrefl 0 lost.2.2.1).1

end

end

/-! ### A cache that has every block of some groups -/

def stocked (ids : List Nat) : BlockPool where
  numGpuBlocks := 2
  enableCaching := true
  hashBlockSize := 1
  nullBlock := 0
  blocks := fun _ => ⟨0, none⟩
  freeBlockQueue := FreeKVCacheBlockQueue.new 2
  cachedBlockHashToBlock := ids.foldl (fun map groupId =>
    map.insert (makeBlockHashWithGroupId [] groupId) 1) .empty

theorem stocked_registered {key : BlockHashWithGroupId} {b : Nat} :
    (stocked ids).cachedBlockHashToBlock.Registered key b ↔
      b = 1 ∧ ∃ groupId ∈ ids, key = makeBlockHashWithGroupId [] groupId := by
  have general : ∀ (ids : List Nat) (map : BlockHashToBlockMap),
      (ids.foldl (fun map groupId => map.insert (makeBlockHashWithGroupId [] groupId) 1)
        map).Registered key b ↔
        map.Registered key b ∨ (b = 1 ∧ ∃ groupId ∈ ids, key = makeBlockHashWithGroupId [] groupId) := by
    intro ids
    induction ids with
    | nil => simp
    | cons first rest ih =>
      intro map
      rw [foldl_cons, ih, registered_insert]
      simp only [mem_cons, exists_eq_or_imp]
      tauto
  refine (general ids .empty).trans ?_
  simp only [not_registered_empty, false_or]

variable {gids : List Nat}

theorem stocked_hit (subset : ∀ gid ∈ gids, gid ∈ ids) :
    ∃ row, (stocked ids).getCachedBlock [] gids = some row := by
  unfold getCachedBlock
  induction gids with
  | nil => exact ⟨[], rfl⟩
  | cons first rest ih =>
    obtain ⟨b, found⟩ := exists_getOneBlock (stocked_registered.mpr ⟨rfl, first,
      subset first mem_cons_self, rfl⟩)
    obtain ⟨row, others⟩ := ih fun gid mem => subset gid (mem_cons_of_mem _ mem)
    refine ⟨b :: row, ?_⟩
    rw [mapM_cons, found, others]
    rfl

theorem stocked_miss {gid : Nat} (mem : gid ∈ gids)
    (absent : gid ∉ ids) (small : gid < 2 ^ 32) (allSmall : ∀ id ∈ ids, id < 2 ^ 32) :
    (stocked ids).getCachedBlock [] gids = none := by
  have missing : (stocked ids).cachedBlockHashToBlock.getOneBlock
      (makeBlockHashWithGroupId [] gid) = none := by
    by_contra some
    obtain ⟨b, found⟩ := ne_none_iff_exists'.mp some
    obtain ⟨-, id, isStocked, keys⟩ := stocked_registered.mp (registered_of_getOneBlock found)
    obtain ⟨-, rfl⟩ := makeBlockHashWithGroupId_inj small (allSmall id isStocked) keys
    exact absent isStocked
  unfold getCachedBlock
  induction gids with
  | nil => cases mem
  | cons first rest ih =>
    rw [mapM_cons]
    rcases mem_cons.mp mem with rfl | later
    · rw [missing]
      rfl
    · rw [ih later]
      cases (stocked ids).cachedBlockHashToBlock.getOneBlock (makeBlockHashWithGroupId [] first) <;> rfl

section
variable {c : HybridKVCacheCoordinator} {n blockSize l : Nat}

theorem flatten_empty (k m : Nat) : (((replicate n ([] : BlockHash)).drop k).take m).flatten = [] := by
  rw [drop_replicate, take_replicate, flatten_replicate_nil]

variable {h : BlockHash}

theorem mem_iteratedHashes (mem : h ∈ c.iteratedHashes (replicate n []) blockSize) : h = [] := by
  unfold iteratedHashes at mem
  split at mem
  · exact eq_of_mem_replicate mem
  · obtain ⟨i, -, rfl⟩ := mem_map.mp mem
    exact flatten_empty _ _

theorem mem_indexedHashes (mem : h ∈ c.indexedHashes (replicate n []) blockSize l) : h = [] := by
  unfold indexedHashes at mem
  split at mem
  · exact eq_of_mem_replicate mem
  · obtain ⟨i, -, rfl⟩ := mem_map.mp mem
    exact flatten_empty _ _

theorem length_iteratedHashes (pos : 0 < blockSize) (hs : List BlockHash) :
    (c.iteratedHashes hs blockSize).length = hs.length / (blockSize / c.hashBlockSize) := by
  unfold iteratedHashes
  split
  · rename_i same
    rw [← same, Nat.div_self pos, Nat.div_one]
  · rw [blockHashListWithBlockSize, length_map, length_range]

end

namespace AscendHybridKVCacheCoordinator

variable {c : AscendHybridKVCacheCoordinator} {pool p : BlockPool} {hs : List BlockHash}
  {group g : AttentionGroup} {limit l curr next idx : Nat} {state s state' s' : LookupState}

/-- Full attention with or without compression, and sliding windows. -/
def Supported (c : AscendHybridKVCacheCoordinator) : Prop :=
  ∀ spec ∈ c.kvCacheGroups, spec.kvCacheSpec.isFullAttention = true ∨ ∃ window positive,
    spec.kvCacheSpec = .slidingWindow window positive

theorem tokens_dvd_lcm {g : AttentionGroup} (mem : g ∈ c.attentionGroups) :
    g.spec.blockSize * c.compressRatio g.spec ∣ c.lcmBlockSize :=
  (dvd_foldl_lcm (fun g : AttentionGroup => g.spec.blockSize * c.compressRatio g.spec) _ 1).2 g
    (c.attentionGroups_perm.mem_iff.mp mem)

theorem lcmBlockSize_pos (c : AscendHybridKVCacheCoordinator) : 0 < c.lcmBlockSize := by
  have general : ∀ (gs : List AttentionGroup) (l : Nat), 0 < l →
      0 < gs.foldl (fun l g => l.lcm (g.spec.blockSize * c.compressRatio g.spec)) l := by
    intro gs
    induction gs with
    | nil => exact fun _ pos => pos
    | cons first rest ih =>
      intro l pos
      exact ih _ (lcm_pos pos (mul_pos first.spec.positive (c.compressRatio_pos _)))
  exact general _ 1 one_pos

def windowOf (spec : LookupSpec) : Nat :=
  match spec.kvCacheSpec with
  | .slidingWindow window _ => window
  | _ => 0

section
variable (c : AscendHybridKVCacheCoordinator)

def farLength : Nat := (2 + (c.kvCacheGroups.map windowOf).sum) * c.lcmBlockSize

def farMaximum : Nat := c.farLength + c.lcmBlockSize

def emptyHashes : List BlockHash :=
  replicate (c.farMaximum / c.hashBlockSize) []

end

theorem blockSize_dvd (mem : g ∈ c.attentionGroups) : g.spec.blockSize ∣ c.lcmBlockSize :=
  (dvd_mul_right _ _).trans (tokens_dvd_lcm mem)

theorem farLength_pos (c : AscendHybridKVCacheCoordinator) : 0 < c.farLength :=
  mul_pos (by omega) c.lcmBlockSize_pos

variable {spec : LookupSpec}

theorem windowOf_le (mem : spec ∈ c.kvCacheGroups) : windowOf spec ≤ c.farLength := by
  have le : windowOf spec ≤ (c.kvCacheGroups.map windowOf).sum :=
    single_le_sum (fun _ _ => zero_le _) _ (mem_map_of_mem mem)
  calc windowOf spec ≤ 2 + (c.kvCacheGroups.map windowOf).sum := by omega
    _ ≤ c.farLength := Nat.le_mul_of_pos_right _ c.lcmBlockSize_pos

theorem length_emptyHashes (mem : g ∈ c.attentionGroups) :
    (c.iteratedHashes c.emptyHashes g.spec.blockSize).length * g.spec.blockSize = c.farMaximum := by
  have divisible := c.divisible g.spec (spec_mem mem)
  have whole : g.spec.blockSize ∣ c.farMaximum :=
    (blockSize_dvd mem).trans (Nat.dvd_add (Nat.dvd_mul_left _ _) (Nat.dvd_refl _))
  rw [length_iteratedHashes g.spec.positive, emptyHashes, length_replicate, Nat.div_div_eq_div_mul,
    Nat.mul_div_cancel' divisible, Nat.div_mul_cancel whole]

theorem cdiv_dvd_lcm (mem : g ∈ c.attentionGroups) :
    cdiv c.lcmBlockSize (c.compressRatio g.spec) ∣ c.lcmBlockSize := by
  obtain ⟨m, multiple⟩ := tokens_dvd_lcm mem
  rw [multiple, show g.spec.blockSize * c.compressRatio g.spec * m =
    g.spec.blockSize * m * c.compressRatio g.spec by ring, cdiv_mul _ (c.compressRatio_pos _)]
  exact dvd_mul_right _ _

variable {eagle : Bool}

theorem findHit_ge (supported : c.Supported) (mem : g ∈ c.attentionGroups)
    (subset : ∀ gid ∈ g.groupIds, gid ∈ ids) {l : Nat}
    (room : c.farLength + (if eagle then g.spec.blockSize else 0) ≤ l)
    (ran : c.findHit (stocked ids) c.emptyHashes g l eagle = .ok rs) :
    c.farLength ≤ rs.length * g.spec.blockSize := by
  have hit := stocked_hit subset
  have aligned : c.lcmBlockSize ∣ c.farLength := dvd_mul_left _ _
  have whole : g.spec.blockSize ∣ c.farLength := (blockSize_dvd mem).trans aligned
  have positive := g.spec.positive
  have iterated : AllCached (stocked ids) (c.iteratedHashes c.emptyHashes g.spec.blockSize) g.groupIds :=
    fun h isHash => mem_iteratedHashes isHash ▸ hit
  have enough : c.farLength + (if eagle then g.spec.blockSize else 0) ≤
      (c.iteratedHashes c.emptyHashes g.spec.blockSize).length * g.spec.blockSize := by
    rw [length_emptyHashes mem, farMaximum]
    have := le_of_dvd c.lcmBlockSize_pos (blockSize_dvd mem)
    split <;> omega
  rcases supported g.spec (spec_mem mem) with full | ⟨window, windowPositive, sliding⟩
  · unfold findHit at ran
    cases spec : g.spec.kvCacheSpec with
    | mlaAttention =>
      rw [spec] at ran
      dsimp only at ran
      split at ran
      · cases ran
        exact findFullAttentionHit_ge iterated positive ((cdiv_dvd_lcm mem).trans aligned) whole room enough
      · cases ran
        exact findFullAttentionHit_ge iterated positive aligned whole room enough
    | fullAttention | tqFullAttention =>
      rw [spec] at ran
      cases ran
      exact findFullAttentionHit_ge iterated positive aligned whole room enough
    | _ =>
      rw [spec] at full
      cases full
  · have indexed : AllCached (stocked ids) (c.indexedHashes c.emptyHashes g.spec.blockSize l) g.groupIds :=
      fun h isHash => mem_indexedHashes isHash ▸ hit
    have wide := windowOf_le (c := c) (spec_mem mem)
    unfold findHit at ran
    rw [sliding] at ran
    rw [windowOf, sliding] at wide
    exact findSlidingWindowHit_ge positive windowPositive ran indexed aligned whole room wide

theorem not_recorded_start (c : AscendHybridKVCacheCoordinator) (i : Nat) (hit : List Nat) :
    (replicate c.kvCacheGroups.length (none : Option (List Nat)))[i]? ≠ some (some hit) := by
  intro at_
  rw [getElem?_replicate] at at_
  split at at_ <;> cases at_

variable {first second : AttentionGroup}

theorem not_recorded (isFirst : first ∈ c.attentionGroups) (isSecond : second ∈ c.attentionGroups)
    (ne : first ≠ second) (ran : c.lookupGroup p hs l
      (curr, ⟨replicate c.kvCacheGroups.length none, []⟩) (first, idx) = .ok (next, s)) :
    ∀ i ∈ second.groupIds, ∀ hit, s.hitBlocksByGroup[i]? ≠ some (some hit) := by
  intro i isId hit
  rw [lookupGroup_other ran fun again => ne (eq_of_mem_groupIds isFirst isSecond again isId)]
  exact not_recorded_start c i hit

/-! ### Compressed groups -/

def Long (c : AscendHybridKVCacheCoordinator) (state : LookupState) : Prop :=
  ∀ group ∈ c.attentionGroups, ∀ i ∈ group.groupIds, ∀ hit, state.hitBlocksByGroup[i]? = some (some hit) →
    c.farLength ≤ hit.length * group.spec.blockSize

theorem farLength_le_floor (mem : g ∈ c.attentionGroups) (far : c.farLength ≤ curr) :
    c.farLength ≤ curr / g.spec.blockSize * g.spec.blockSize := by
  obtain ⟨m, multiple⟩ : g.spec.blockSize ∣ c.farLength := (blockSize_dvd mem).trans (dvd_mul_left _ _)
  rw [multiple, mul_comm] at far ⊢
  exact mul_le_mul_right _ ((le_div_iff_mul_le g.spec.positive).mpr far)

theorem lookupGroup_ge (supported : c.Supported) (mem : g ∈ c.attentionGroups)
    (subset : ∀ gid ∈ g.groupIds, gid ∈ ids) (far : c.farLength ≤ curr)
    (ran : c.lookupGroup (stocked ids) c.emptyHashes c.farMaximum (curr, s) (g, idx) = .ok (next, s')) :
    c.farLength ≤ next ∧ (((∃ i ∈ g.groupIds, ∃ hit, s.hitBlocksByGroup[i]? = some (some hit)) ∧ s' = s) ∨
        ∃ rs, c.farLength ≤ rs.length * g.spec.blockSize ∧
          s'.hitBlocksByGroup = writeHit (stocked ids).nullBlock g rs s.hitBlocksByGroup) := by
  rcases lookupGroup_cases ran with ⟨-, recorded, rfl, rfl⟩ | ⟨eagle, rs, found, rfl, written, -⟩
  · exact ⟨farLength_le_floor mem far, .inl ⟨recorded, rfl⟩⟩
  have room : c.farLength + (if eagle then g.spec.blockSize else 0) ≤
      if eagle then min (curr + g.spec.blockSize) c.farMaximum else curr := by
    have small := le_of_dvd c.lcmBlockSize_pos (blockSize_dvd mem)
    split
    · rw [farMaximum]
      omega
    · exact far
  have long := findHit_ge supported mem subset room found
  exact ⟨long.trans (Nat.le_mul_of_pos_right _ (c.compressRatio_pos _)), .inr ⟨rs, long, written⟩⟩

theorem lookupRound_long (supported : c.Supported) (far : c.farLength ≤ len) (long : c.Long s)
    (ran : c.lookupRound (stocked (range c.kvCacheGroups.length)) c.emptyHashes c.farMaximum len s =
      .ok (next, state')) :
    c.farLength ≤ next ∧ c.Long state' := by
  refine foldlM_invariant (fun cur : Nat × LookupState => c.farLength ≤ cur.1 ∧ c.Long cur.2) _ ?_
    (⟨far, long⟩ : c.farLength ≤ len ∧ c.Long s) ran
  rintro ⟨g, idx⟩ isEntry ⟨curr, before⟩ ⟨next, after⟩ ⟨farBefore, longBefore⟩ one
  have mem : g ∈ c.attentionGroups := fst_mem_of_mem_zipIdx isEntry
  have subset : ∀ gid ∈ g.groupIds, gid ∈ range c.kvCacheGroups.length := fun gid isId =>
    mem_range.mpr (groupId_lt mem isId)
  obtain ⟨farAfter, ⟨-, same⟩ | ⟨rs, reaches, written⟩⟩ := lookupGroup_ge supported mem subset farBefore one
  · exact ⟨farAfter, same ▸ longBefore⟩
  · refine ⟨farAfter, fun other isGroup i isId hit at_ => ?_⟩
    by_cases here : i ∈ g.groupIds
    · obtain rfl := eq_of_mem_groupIds isGroup mem isId here
      rwa [length_written written isId at_]
    · rw [lookupGroup_other one here] at at_
      exact longBefore other isGroup i isId hit at_

theorem truncateFirst_cases (mem : g ∈ c.attentionGroups) (isId : i ∈ g.groupIds) (len : Nat)
    (bs : List (Option (List Nat))) : (c.truncateFirst len bs)[i]? = bs[i]? ∨
      (c.attentionGroups.head? = some g ∧ (c.truncateFirst len bs)[i]? =
        bs[i]?.map (Option.map (take (len / g.spec.blockSize)))) := by
  unfold truncateFirst
  split
  · exact .inl rfl
  · rename_i first isFirst
    split
    · by_cases here : i ∈ first.groupIds
      · obtain rfl := eq_of_mem_groupIds (mem_of_mem_head? isFirst) mem here isId
        exact .inr ⟨isFirst, modify_of_mem _ isId (c.attentionGroups_divides.nodup _ mem) bs⟩
      · exact .inl (modify_of_not_mem _ here bs)
    · exact .inl rfl

theorem farMaximum_lt (c : AscendHybridKVCacheCoordinator) : c.farMaximum < c.farLength * 2 := by
  have positive := c.lcmBlockSize_pos
  have enough : 2 * c.lcmBlockSize ≤ c.farLength := mul_le_mul_right _ (le_add_right 2 _)
  rw [farMaximum]
  omega

variable {hit : List Nat}

section
variable (mem : g ∈ c.attentionGroups) (isId : i ∈ g.groupIds)
include mem isId

theorem returned_cases {bs : List (Option (List Nat))}
    (at_ : ((c.truncateFirst len bs).map (·.getD []))[i]? = some hit) :
    hit = [] ∨ ∃ whole, bs[i]? = some (some whole) ∧
      (hit = whole ∨ (c.attentionGroups.head? = some g ∧ hit = whole.take (len / g.spec.blockSize))) := by
  rw [getElem?_map, map_eq_some_iff] at at_
  obtain ⟨e, isEntry, rfl⟩ := at_
  rcases truncateFirst_cases mem isId len bs with kept | ⟨isHead, cut⟩
  · rw [kept] at isEntry
    cases e with
    | none => exact .inl rfl
    | some hit => exact .inr ⟨hit, isEntry, .inl rfl⟩
  · rw [cut, map_eq_some_iff] at isEntry
    obtain ⟨whole, isWhole, rfl⟩ := isEntry
    cases whole with
    | none => exact .inl rfl
    | some hit => exact .inr ⟨hit, isWhole, .inr ⟨isHead, rfl⟩⟩

theorem long_returned (far : c.farLength ≤ len)
    (long : ∀ hit, s.hitBlocksByGroup[i]? = some (some hit) → c.farLength ≤ hit.length * g.spec.blockSize)
    (at_ : ((c.truncateFirst len s.hitBlocksByGroup).map (·.getD []))[i]? = some hit) :
    hit = [] ∨ c.farLength ≤ hit.length * g.spec.blockSize := by
  refine (returned_cases mem isId at_).imp_right ?_
  rintro ⟨whole, isWhole, rfl | ⟨-, rfl⟩⟩
  · exact long hit isWhole
  · rw [length_take, Nat.mul_comm, ← Nat.mul_min_mul_left, Nat.mul_comm, Nat.mul_comm _ whole.length]
    exact Nat.le_min.mpr ⟨farLength_le_floor mem far, long whole isWhole⟩

end

theorem not_exact_of_compressed (supported : c.Supported) (isSpec : spec ∈ c.kvCacheGroups)
    (ratio : 1 < c.compressRatio spec) :
    ¬ c.Exact (stocked (List.range c.kvCacheGroups.length)) c.emptyHashes c.farMaximum := by
  rintro ⟨bs, len, found, lt, size, exact⟩
  obtain ⟨⟨_, state⟩, ran, res⟩ := map_ok found
  cases res
  obtain ⟨far, long⟩ : c.farLength ≤ len ∧ c.Long state := by
    refine narrow_invariant (fun bound state => c.farLength ≤ bound ∧ c.Long state) ?_
      ⟨le_add_right _ _, ?_⟩ ran
    · rintro bound before next after ⟨farBefore, longBefore⟩ round
      obtain ⟨farNext, longAfter⟩ := lookupRound_long supported farBefore longBefore round
      exact ⟨Nat.le_min.mpr ⟨farNext, farBefore⟩, longAfter⟩
    · exact fun g _ i _ hit at_ => absurd at_ (not_recorded_start c i hit)
  obtain ⟨i, at_⟩ := mem_iff_getElem?.mp isSpec
  obtain ⟨g, mem, isId, rfl⟩ := exists_group at_
  have within : i < ((c.truncateFirst len state.hitBlocksByGroup).map (·.getD [])).length :=
    size ▸ groupId_lt mem isId
  have here := exact i _ _ at_ (getElem?_eq_getElem within)
  have positive := c.farLength_pos
  rcases long_returned mem isId far (long g mem i isId) (getElem?_eq_getElem within) with none | reaches
  · rw [none, length_nil, zero_mul] at here
    omega
  · rw [← mul_assoc] at here
    have twice := mul_le_mul reaches (show 2 ≤ c.compressRatio g.spec from ratio)
    have limit := c.farMaximum_lt
    omega

/-! ### A second full-attention type -/

def allBut (c : AscendHybridKVCacheCoordinator) (missing : AttentionGroup) : List Nat :=
  (range c.kvCacheGroups.length).filter (· ∉ missing.groupIds)

variable {missing : AttentionGroup}

theorem mem_allBut (mem : g ∈ c.attentionGroups) (isMissing : missing ∈ c.attentionGroups)
    (ne : g ≠ missing) : ∀ gid ∈ g.groupIds, gid ∈ c.allBut missing := by
  intro gid isId
  refine mem_filter.mpr ⟨mem_range.mpr (groupId_lt mem isId), decide_eq_true fun again => ne ?_⟩
  exact eq_of_mem_groupIds mem isMissing isId again

theorem findHit_none (supported : c.Supported) (mem : g ∈ c.attentionGroups) {l : Nat}
    (ran : c.findHit (stocked (c.allBut g)) c.emptyHashes g l eagle = .ok rs) : rs = [] := by
  have miss : (stocked (c.allBut g)).getCachedBlock [] g.groupIds = none := by
    obtain ⟨i, isId⟩ := exists_mem_of_ne_nil _ (c.attentionGroups_divides.nonempty g mem)
    refine stocked_miss isId (fun isStocked => ?_) ((groupId_lt mem isId).trans_le c.fits)
      fun id isStocked => ?_
    · exact of_decide_eq_true (mem_filter.mp isStocked).2 isId
    · exact (mem_range.mp (mem_filter.mp isStocked).1).trans_le c.fits
  have iterated : NoneCached (stocked (c.allBut g))
      (c.iteratedHashes c.emptyHashes g.spec.blockSize) g.groupIds :=
    fun h isHash => mem_iteratedHashes isHash ▸ miss
  unfold findHit at ran
  rcases supported g.spec (spec_mem mem) with full | ⟨window, windowPositive, sliding⟩
  · cases spec : g.spec.kvCacheSpec with
    | mlaAttention =>
      rw [spec] at ran
      dsimp only at ran
      split at ran <;> cases ran <;> exact findFullAttentionHit_none iterated
    | fullAttention | tqFullAttention =>
      rw [spec] at ran
      cases ran
      exact findFullAttentionHit_none iterated
    | _ =>
      rw [spec] at full
      cases full
  · rw [sliding] at ran
    exact findSlidingWindowHit_none g.spec.positive windowPositive ran fun h isHash =>
      mem_indexedHashes isHash ▸ miss

/-- The missing type has no blocks, and a full-attention type has more than the hit. -/
structure Uneven (c : AscendHybridKVCacheCoordinator) (full missing : AttentionGroup)
    (state : LookupState) : Prop where
  none : ∀ i ∈ missing.groupIds, ∀ hit, state.hitBlocksByGroup[i]? = some (some hit) → hit = []
  many : Found state full (c.farLength ≤ ·)

theorem none_lookupGroup (supported : c.Supported) (isMissing : missing ∈ c.attentionGroups)
    (mem : g ∈ c.attentionGroups)
    (none : ∀ i ∈ missing.groupIds, ∀ hit, s.hitBlocksByGroup[i]? = some (some hit) → hit = [])
    (ran : c.lookupGroup (stocked (c.allBut missing)) c.emptyHashes c.farMaximum (curr, s) (g,
      idx) = .ok (next, s')) :
    ∀ i ∈ missing.groupIds, ∀ hit, s'.hitBlocksByGroup[i]? = some (some hit) → hit = [] := by
  intro i isId hit at_
  by_cases here : i ∈ g.groupIds
  · obtain rfl := eq_of_mem_groupIds mem isMissing here isId
    rcases lookupGroup_cases ran with ⟨-, -, -, rfl⟩ | ⟨_, rs, found, -, written, -⟩
    · exact none i isId hit at_
    · have length := length_written written isId at_
      rw [findHit_none supported mem found] at length
      exact eq_nil_of_length_eq_zero length
  · rw [lookupGroup_other ran here] at at_
    exact none i isId hit at_

theorem Found.lookupGroup {full : AttentionGroup} {p : Nat → Prop}
    (isFull : full.spec.kvCacheSpec.isFullAttention = true)
    (isGroup : full ∈ c.attentionGroups) (mem : g ∈ c.attentionGroups) (found : Found s full p)
    (ran : c.lookupGroup pool hs l (curr, s) (g, idx) = .ok (next, s')) :
    Found s' full p := by
  by_cases same : g = full
  · subst same
    rcases lookupGroup_cases ran with ⟨-, -, -, rfl⟩ | ⟨_, rs, -, -, -, fresh⟩
    · exact found
    · cases ids : g.groupIds with
      | nil => exact absurd ids (c.attentionGroups_divides.nonempty g mem)
      | cons first later =>
        obtain ⟨hit, at_, -⟩ := found first (ids ▸ mem_cons_self)
        have absent := fresh isFull
        rw [ids, head?_cons, bind_some, at_] at absent
        cases absent
  · refine found.congr fun i isId => lookupGroup_other ran fun again => same ?_
    exact eq_of_mem_groupIds mem isGroup again isId

section
variable {third : AttentionGroup} {rest : List AttentionGroup}

theorem Uneven.fold (supported : c.Supported) (isFull : second.spec.kvCacheSpec.isFullAttention = true)
    (isSecond : second ∈ c.attentionGroups) (isThird : third ∈ c.attentionGroups)
    {es : List (AttentionGroup × Nat)}
    (subset : ∀ e ∈ es, e.1 ∈ c.attentionGroups) (uneven : c.Uneven second third s)
    (ran : es.foldlM (c.lookupGroup (stocked (c.allBut third)) c.emptyHashes c.farMaximum) (curr, s) =
      .ok (next, state')) : c.Uneven second third state' := by
  refine foldlM_invariant (fun cur : Nat × LookupState => c.Uneven second third cur.2) _ ?_
    (show c.Uneven second third (curr, s).2 from uneven) ran
  rintro ⟨g, idx⟩ isEntry ⟨curr, before⟩ ⟨next, after⟩ holds one
  have member := subset _ isEntry
  exact ⟨none_lookupGroup supported isThird member holds.none one,
    Found.lookupGroup isFull isSecond member holds.many one⟩

section
variable (supported : c.Supported) (gs : c.attentionGroups = first :: second :: third :: rest)
  (isFull : second.spec.kvCacheSpec.isFullAttention = true)
include supported gs isFull

theorem uneven_start (ran : c.lookupRound (stocked (c.allBut third)) c.emptyHashes c.farMaximum c.farMaximum
      ⟨replicate c.kvCacheGroups.length none, []⟩ = .ok (next, state)) : c.Uneven second third state := by
  have members : ∀ g ∈ first :: second :: third :: rest, g ∈ c.attentionGroups := fun g mem => gs ▸ mem
  have isFirst := members first (by simp)
  have isSecond := members second (by simp)
  have isThird := members third (by simp)
  have distinct := c.attentionGroups_nodup
  rw [gs] at distinct
  simp only [nodup_cons, mem_cons, not_or] at distinct
  obtain ⟨⟨notSecond, notThird, -⟩, ⟨apart, -⟩, -⟩ := distinct
  have es : c.attentionGroups.zipIdx = (first, 0) :: (second, 1) :: (third :: rest).zipIdx 2 := by rw [gs]; rfl
  unfold lookupRound at ran
  rw [es, foldlM_cons] at ran
  obtain ⟨⟨length₁, state₁⟩, one, ran⟩ := bind_ok ran
  obtain ⟨⟨length₂, state₂⟩, two, ran⟩ := bind_ok ran
  obtain ⟨far, -⟩ := lookupGroup_ge supported isFirst (mem_allBut isFirst isThird notThird)
    (le_add_right _ _) one
  have untouched := not_recorded isFirst isSecond notSecond one
  have many : Found state₂ second (c.farLength ≤ ·) := by
    obtain ⟨-, ⟨⟨j, isJ, hit, at_⟩, -⟩ | ⟨rs, reaches, written⟩⟩ :=
      lookupGroup_ge supported isSecond (mem_allBut isSecond isThird apart) far two
    · exact absurd at_ (untouched j isJ hit)
    · have size := (lookupGroup_size one).trans (length_replicate ..)
      exact (found_written written isSecond size).imp fun _ same => same ▸ reaches
  have none : ∀ i ∈ third.groupIds, ∀ hit, state₂.hitBlocksByGroup[i]? = some (some hit) → hit = [] :=
    none_lookupGroup supported isThird isSecond
      (none_lookupGroup supported isThird isFirst (fun i _ hit at_ =>
        absurd at_ (not_recorded_start c i hit)) one) two
  refine Uneven.fold supported isFull isSecond isThird (fun e isEntry => members _ ?_) ⟨none, many⟩ ran
  have := fst_mem_of_mem_zipIdx isEntry
  tauto

theorem not_exact_of_second_full : ¬ c.Exact (stocked (c.allBut third)) c.emptyHashes c.farMaximum := by
  rintro ⟨bs, hitLength, found, lt, size, exact⟩
  obtain ⟨⟨_, state⟩, ran, res⟩ := map_ok found
  cases res
  have isSecond : second ∈ c.attentionGroups := gs ▸ (by simp)
  have isThird : third ∈ c.attentionGroups := gs ▸ (by simp)
  have uneven : c.Uneven second third state := by
    rw [narrow_eq] at ran
    obtain ⟨⟨next, after⟩, one, more⟩ := bind_ok ran
    have start := uneven_start supported gs isFull one
    dsimp only at more
    split at more
    · cases more
      exact start
    · split at more
      · cases more
        exact start
      · refine narrow_invariant (fun _ state => c.Uneven second third state)
          (fun _ _ _ _ before round => ?_) start more
        exact Uneven.fold supported isFull isSecond isThird
          (fun e isEntry => fst_mem_of_mem_zipIdx isEntry) before round
  have returned : ∀ g ∈ c.attentionGroups, ∃ i ∈ g.groupIds, ∃ hit,
      ((c.truncateFirst hitLength state.hitBlocksByGroup).map (·.getD []))[i]? = some hit ∧
        hit.length * (g.spec.blockSize * c.compressRatio g.spec) = hitLength := by
    intro g mem
    obtain ⟨i, isId⟩ := exists_mem_of_ne_nil _ (c.attentionGroups_divides.nonempty g mem)
    have within : i < ((c.truncateFirst hitLength state.hitBlocksByGroup).map (·.getD [])).length := by
      rw [size]
      exact groupId_lt mem isId
    have at_ := getElem?_eq_getElem within
    exact ⟨i, isId, _, at_, exact i _ _ (c.attentionGroups_divides.sound g mem i isId) at_⟩
  -- the missing type makes the hit empty
  obtain rfl : hitLength = 0 := by
    obtain ⟨i, isId, hit, at_, equal⟩ := returned third isThird
    have empty : hit = [] := by
      rcases returned_cases isThird isId at_ with empty | ⟨whole, isWhole, rfl | ⟨-, rfl⟩⟩
      · exact empty
      · exact uneven.none i isId hit isWhole
      · rw [uneven.none i isId whole isWhole, take_nil]
    rw [← equal, empty, length_nil, zero_mul]
  obtain ⟨i, isId, hit, at_, equal⟩ := returned second isSecond
  obtain ⟨recorded, isRecorded, many⟩ := uneven.many i isId
  have positive := c.farLength_pos
  rcases truncateFirst_cases isSecond isId 0 state.hitBlocksByGroup with kept | ⟨isHead, -⟩
  · rw [getElem?_map, kept, isRecorded] at at_
    cases at_
    have bs : 0 < recorded.length * (second.spec.blockSize * c.compressRatio second.spec) := by
      rw [← mul_assoc]
      exact mul_pos (positive.trans_le many) (c.compressRatio_pos _)
    exact bs.ne' equal
  · have distinct := c.attentionGroups_nodup
    rw [gs, head?_cons, some.injEq] at isHead
    rw [gs, isHead] at distinct
    exact (nodup_cons.mp distinct).1 mem_cons_self

end

end

/-! ### Without compression -/

def Plain (c : AscendHybridKVCacheCoordinator) : Prop := ∀ spec ∈ c.kvCacheGroups, c.compressRatio spec = 1

theorem Plain.lcmBlockSize_eq (plain : c.Plain) :
    c.lcmBlockSize = c.toHybridKVCacheCoordinator.lcmBlockSize := by
  refine foldl_ext _ _ _ fun l g mem => ?_
  rw [plain g.spec (spec_mem (c.attentionGroups_perm.mem_iff.mpr mem)), mul_one]

theorem Plain.findHit_eq (plain : c.Plain) (mem : g ∈ c.attentionGroups) (p : BlockPool)
    (hs : List BlockHash) (l : Nat) (useEagle : Bool) : c.findHit p hs g l useEagle =
      c.toHybridKVCacheCoordinator.findHit p hs g l useEagle := by
  unfold findHit HybridKVCacheCoordinator.findHit
  rw [plain.lcmBlockSize_eq]
  cases spec : g.spec.kvCacheSpec with
  | mlaAttention =>
    dsimp only
    rw [if_neg (by rw [plain g.spec (spec_mem mem)]; exact lt_irrefl 1)]
  | _ => rfl

section
variable (plain : c.Plain) (p : BlockPool) (hs : List BlockHash) (limit : Nat)
include plain

theorem Plain.lookupRound_eq : c.lookupRound p hs limit =
      c.toHybridKVCacheCoordinator.lookupRound p hs limit := by
  funext len s
  refine foldlM_congr (fun e isEntry cur => ?_) _
  obtain ⟨g, idx⟩ := e
  have mem : g ∈ c.attentionGroups := fst_mem_of_mem_zipIdx isEntry
  unfold lookupGroup HybridKVCacheCoordinator.lookupGroup
  dsimp only
  rw [plain.findHit_eq mem, plain g.spec (spec_mem mem), max_self]
  simp only [mul_one]

theorem Plain.findLongestCacheHit_eq : c.findLongestCacheHit p hs limit =
      c.toHybridKVCacheCoordinator.findLongestCacheHit p hs limit := by
  unfold findLongestCacheHit HybridKVCacheCoordinator.findLongestCacheHit
  rw [plain.lookupRound_eq]

end

section
variable (supported : c.Supported)
include supported

theorem Supported.avoids (isSpec : spec ∈ c.kvCacheGroups) {p : KVCacheSpec → Prop}
    (full : ∀ kind, kind.isFullAttention = true → ¬ p kind)
    (sliding : ∀ window pos, ¬ p (.slidingWindow window pos)) :
    ¬ p spec.kvCacheSpec := by
  rcases supported spec isSpec with isFull | ⟨window, pos, isSliding⟩
  · exact full _ isFull
  · rw [isSliding]
    exact sliding window pos

theorem Supported.not_cross : ∀ spec ∈ c.kvCacheGroups, spec.kvCacheSpec ≠ .crossAttention := by
  intro spec mem
  refine supported.avoids (p := (· = .crossAttention)) mem (fun kind full cross => ?_) (fun _ _ => nofun)
  rw [cross] at full
  cases full

theorem Supported.unflagged : c.Unflagged := by
  intro g mem mamba
  refine absurd mamba (supported.avoids (p := (·.isMamba = true)) (spec_mem mem) (fun kind full =>
    ?_) (fun _ _ => nofun))
  cases kind with
  | mamba => cases full
  | _ => nofun

theorem Supported.not_refuses : ∀ group ∈ c.attentionGroups, ¬ c.Refuses group := by
  rintro group mem ⟨chunked, -⟩
  refine supported.avoids (p := (·.isChunkedLocal = true)) (spec_mem mem) (fun kind full => ?_)
    (fun _ _ => nofun) chunked
  rw [KVCacheSpec.not_chunkedLocal_of_full full]
  exact Bool.false_ne_true

end

theorem Plain.second_exact (plain : c.Plain) (supported : c.Supported)
    (gs : c.attentionGroups = [first, second]) (firstFull : first.spec.kvCacheSpec.isFullAttention = true)
    (covered : limit / c.hashBlockSize ≤ hs.length)
    (ran : narrow (c.lookupRound p hs limit) c.isSimpleHybrid limit
      ⟨replicate c.kvCacheGroups.length none, []⟩ = .ok (len, state)) :
    Found state second (· = len) := by
  have isFirst : first ∈ c.attentionGroups := gs ▸ (by simp)
  have isSecond : second ∈ c.attentionGroups := gs ▸ (by simp)
  have ne : first ≠ second := by
    have distinct := c.attentionGroups_nodup
    rw [gs] at distinct
    exact fun same => (nodup_cons.mp distinct).1 (same ▸ mem_cons_self)
  have simple : c.isSimpleHybrid = true := by
    rw [isSimpleHybrid, gs, head?_cons, any_some, firstFull]
    rfl
  obtain ⟨⟨next, after⟩, round, ran⟩ := bind_ok ran
  obtain ⟨rfl, rfl⟩ : next = len ∧ after = state := by
    have below : next ≤ limit := by
      rw [plain.lookupRound_eq] at round
      rcases lookupRound_progress p covered supported.not_cross supported.unflagged (le_refl _)
        (Progress.start c.toHybridKVCacheCoordinator limit) with ⟨e, failed, -⟩ | ⟨cur, same, progress⟩
      · rw [failed] at round
        cases round
      · rw [same] at round
        cases round
        exact progress.below
    dsimp only at ran
    split at ran
    · rename_i kept
      cases ran
      exact ⟨le_antisymm below kept, rfl⟩
    · cases ran
      exact ⟨rfl, rfl⟩
  have es : c.attentionGroups.zipIdx = [(first, 0), (second, 1)] := by rw [gs]; rfl
  unfold lookupRound at round
  rw [es, foldlM_cons] at round
  obtain ⟨⟨length₁, state₁⟩, one, round⟩ := bind_ok round
  obtain ⟨⟨length₂, state₂⟩, two, round⟩ := bind_ok round
  cases round
  rcases lookupGroup_cases two with ⟨-, ⟨j, isJ, hit, at_⟩, -, -⟩ | ⟨_, rs, -, length, written, -⟩
  · exact absurd at_ (not_recorded isFirst isSecond ne one j isJ hit)
  rw [plain second.spec (spec_mem isSecond), mul_one] at length
  rw [length]
  exact found_written written isSecond ((lookupGroup_size one).trans (length_replicate ..))

theorem head_full (mem : g ∈ c.attentionGroups) (isFull : g.spec.kvCacheSpec.isFullAttention = true) :
    ∃ first, c.attentionGroups.head? = some first ∧ first.spec.kvCacheSpec.isFullAttention = true := by
  unfold attentionGroups at mem ⊢
  cases fulls : (splitGroups c.kvCacheGroups).filter (·.spec.kvCacheSpec.isFullAttention) with
  | nil =>
    rw [filter_eq_nil_iff] at fulls
    refine absurd isFull (fulls g ?_)
    exact c.attentionGroups_perm.mem_iff.mp mem
  | cons first rest =>
    refine ⟨first, by dsimp only; rw [fulls]; rfl, ?_⟩
    have isFirst : first ∈ (splitGroups c.kvCacheGroups).filter (·.spec.kvCacheSpec.isFullAttention) :=
      fulls ▸ mem_cons_self
    exact (mem_filter.mp isFirst).2

theorem second_full {rest : List AttentionGroup}
    (gs : c.attentionGroups = first :: second :: rest) (mem : g ∈ c.attentionGroups)
    (isFull : g.spec.kvCacheSpec.isFullAttention = true) (later : c.attentionGroups.head? ≠ some g) :
    second.spec.kvCacheSpec.isFullAttention = true := by
  have isMember : g ∈ (splitGroups c.kvCacheGroups).filter (·.spec.kvCacheSpec.isFullAttention) :=
    mem_filter.mpr ⟨c.attentionGroups_perm.mem_iff.mp mem, isFull⟩
  unfold attentionGroups at gs later
  rcases fulls : (splitGroups c.kvCacheGroups).filter (·.spec.kvCacheSpec.isFullAttention) with
    _ | ⟨head, _ | ⟨next, tail⟩⟩
  · rw [fulls] at isMember
    cases isMember
  · rw [fulls, mem_singleton] at isMember
    dsimp only at later
    rw [fulls, isMember] at later
    exact absurd rfl later
  · dsimp only at gs
    rw [fulls, cons_append, cons_append, cons.injEq, cons.injEq] at gs
    have isNext : next ∈ (splitGroups c.kvCacheGroups).filter (·.spec.kvCacheSpec.isFullAttention) :=
      fulls ▸ mem_cons_of_mem _ mem_cons_self
    rw [← gs.2.1]
    exact (mem_filter.mp isNext).2

theorem Plain.later_exact (plain : c.Plain) (supported : c.Supported)
    (covered : l / c.hashBlockSize ≤ hs.length) (two : c.attentionGroups.length = 2)
    (mem : g ∈ c.attentionGroups) (isFull : g.spec.kvCacheSpec.isFullAttention = true)
    (later : c.attentionGroups.head? ≠ some g) (isId : i ∈ g.groupIds) {bs : List (List Nat)}
    (found : c.findLongestCacheHit p hs l = .ok (bs, hitLength))
    (at_ : bs[i]? = some hit) : hit.length * g.spec.blockSize = hitLength := by
  obtain ⟨first, second, gs⟩ := length_eq_two.mp two
  obtain ⟨head, isHead, headFull⟩ := head_full mem isFull
  obtain rfl : first = head := by
    rw [gs] at isHead
    exact some.inj isHead
  obtain rfl : g = second := by
    rw [gs, mem_cons, mem_singleton] at mem
    exact mem.resolve_left fun same => later (same ▸ isHead)
  obtain ⟨⟨_, s⟩, ran, res⟩ := map_ok found
  cases res
  obtain ⟨recorded, isRecorded, equal⟩ := plain.second_exact supported gs headFull covered ran i isId
  rcases truncateFirst_cases mem isId hitLength s.hitBlocksByGroup with kept | ⟨again, -⟩
  · rw [getElem?_map, kept, isRecorded] at at_
    cases at_
    exact equal
  · exact absurd again later

/-- The lookup returns exactly the blocks of the hit, whatever is cached, if no group is compressed
and there are only two attention types or no full-attention type but the first. For all other groups
there is a cache for which it does not. -/
theorem findLongestCacheHit_exact_iff (c : AscendHybridKVCacheCoordinator) (supported : c.Supported) :
    (∀ (pool : BlockPool) (blockHashes : List BlockHash) (maxCacheHitLength : Nat),
      maxCacheHitLength / c.hashBlockSize ≤ blockHashes.length → c.Exact pool blockHashes maxCacheHitLength) ↔
      (∀ spec ∈ c.kvCacheGroups, c.compressRatio spec = 1) ∧
        (c.attentionGroups.length = 2 ∨ ∀ group ∈ c.attentionGroups,
          group.spec.kvCacheSpec.isFullAttention = true →
          c.attentionGroups.head? = some group) := by
  constructor
  · intro exact
    have covered : c.farMaximum / c.hashBlockSize ≤ c.emptyHashes.length := (length_replicate ..).ge
    refine ⟨fun spec isSpec => ?_, ?_⟩
    · by_contra compressed
      have positive := c.compressRatio_pos spec
      exact not_exact_of_compressed supported isSpec (by omega) (exact _ _ _ covered)
    · by_contra bad
      rw [not_or] at bad
      obtain ⟨notTwo, some⟩ := bad
      push Not at some
      obtain ⟨group, member, isFull, later⟩ := some
      have several := c.several
      rw [← c.attentionGroups_perm.length_eq] at several
      rcases groups : c.attentionGroups with _ | ⟨first, _ | ⟨second, _ | ⟨third, rest⟩⟩⟩
      · simp [groups] at several
      · simp [groups] at several
      · simp [groups] at notTwo
      · exact not_exact_of_second_full supported groups (second_full groups member isFull later)
          (exact _ _ _ covered)
  · rintro ⟨plain, types⟩ pool blockHashes maxCacheHitLength covered
    obtain ⟨blocks, hitLength, found, inside, -, size, covers⟩ :=
      (findLongestCacheHit_covers c.toHybridKVCacheCoordinator pool blockHashes maxCacheHitLength
        supported.not_cross covered supported.unflagged).2 supported.not_refuses
    rw [← Plain.findLongestCacheHit_eq plain] at found
    refine ⟨blocks, hitLength, found, inside, size, fun i spec hit isSpec at_ => ?_⟩
    rw [plain spec (mem_of_getElem? isSpec), mul_one]
    by_cases isCut : c.IsCut spec
    · exact covers i spec hit isSpec isCut at_
    · -- a full-attention type that is not the first, so the second of two
      obtain ⟨group, member, isId, rfl⟩ := exists_group isSpec
      obtain ⟨isFull, later⟩ := Classical.not_imp.mp isCut
      have notHead : c.attentionGroups.head? ≠ some group := fun isHead => later (by rw [isHead]; rfl)
      have two := types.resolve_right fun all => notHead (all group member isFull)
      exact Plain.later_exact plain supported covered two member isFull notHead isId found at_

def uncompressedWindow : AscendHybridKVCacheCoordinator where
  toHybridKVCacheCoordinator := fullAndWindow
  ratioOf := fun _ => 1
  compresses := fun _ => Nat.one_pos
  fits := by decide

theorem uncompressedWindow_exact : uncompressedWindow.Exact (stocked [0, 1]) [[], []] 4 := by
  refine (findLongestCacheHit_exact_iff uncompressedWindow ?_).mpr ⟨by decide, .inl rfl⟩
    (stocked [0, 1]) [[], []] 4 (by decide)
  intro spec member
  rcases mem_cons.mp member with rfl | later
  · exact .inl rfl
  · rw [mem_singleton.mp later]
    exact .inr ⟨_, _, rfl⟩

def firstHalved (spec : LookupSpec) : Nat := if spec.layout = 0 then 2 else 1

theorem firstHalved_pos (spec : LookupSpec) : 0 < firstHalved spec := by
  unfold firstHalved
  split
  · exact succ_pos 1
  · exact one_pos

theorem three_tokens_pos : 0 < 3 := succ_pos 2

def compressedWindow : AscendHybridKVCacheCoordinator where
  hashBlockSize := 2
  kvCacheGroups := [⟨.mlaAttention, 2, Nat.two_pos, 0⟩, ⟨.slidingWindow 3 three_tokens_pos, 2, Nat.two_pos, 1⟩]
  eagleGroupIds := []
  divisible := by decide
  several := by decide
  ratioOf := firstHalved
  compresses := firstHalved_pos
  fits := by decide

def eightTokens : BlockPool where
  numGpuBlocks := 8
  enableCaching := true
  hashBlockSize := 2
  nullBlock := 0
  blocks := fun _ => ⟨0, none⟩
  freeBlockQueue := FreeKVCacheBlockQueue.new 8
  cachedBlockHashToBlock :=
    [([1], 0, 1), ([2], 0, 2), ([1], 1, 3), ([2], 1, 4), ([3], 1, 5), ([4], 1, 6)].foldl
      (fun map (hash, groupId, b) => map.insert (makeBlockHashWithGroupId hash groupId) b) .empty

/-- With at most seven tokens allowed, the blocks of the compressed group stand for eight. -/
theorem compressedWindow_not_exact :
    compressedWindow.findLongestCacheHit eightTokens [[1], [2], [3], [4]] 7 = .ok ([[1, 2], [0, 0, 0, 6]], 7) ∧
      ¬ compressedWindow.Exact eightTokens [[1], [2], [3], [4]] 7 := by
  have found : compressedWindow.findLongestCacheHit eightTokens [[1], [2], [3], [4]] 7 =
    .ok ([[1, 2], [0, 0, 0, 6]], 7) := rfl
  refine ⟨found, ?_⟩
  rintro ⟨blocks, hitLength, again, -, -, exact⟩
  cases again
  exact absurd (exact 0 _ _ rfl rfl) (by decide)

end AscendHybridKVCacheCoordinator

end TurboQuant.Ascend
