import TurboQuant.Core.ChunkHit

/-!
What the prefix lookup of a hybrid model returns: the blocks of every group cover the length of the
hit.
-/

namespace TurboQuant.Core
open Outcome Narrowing List Option KVCacheSpec KVCacheManager Nat

theorem KVCacheSpec.not_chunkedLocal_of_full {spec : KVCacheSpec} (full : spec.isFullAttention = true) :
    spec.isChunkedLocal = false := by
  cases spec with
  | chunkedLocalAttention => cases full
  | _ => rfl

namespace HybridKVCacheCoordinator

variable {c : HybridKVCacheCoordinator} {p : BlockPool} {blockHashes hs : List BlockHash}
  {group : AttentionGroup} {l most : Nat} {eg : Bool}

def Refuses (c : HybridKVCacheCoordinator) (group : AttentionGroup) : Prop :=
  group.spec.kvCacheSpec.isChunkedLocal = true ∧
    (c.isEagle group = true ∨ group.spec.blockSize ≠ c.lcmBlockSize)

instance (c : HybridKVCacheCoordinator) (group : AttentionGroup) : Decidable (c.Refuses group) :=
  inferInstanceAs (Decidable (_ ∧ (_ ∨ _)))

def RefusedWith (c : HybridKVCacheCoordinator) (e : PoolError) : Prop :=
  (∃ group ∈ c.attentionGroups, c.Refuses group) ∧ (e = .eagleUnsupported ∨ e = .blockSizesDiffer)

theorem length_indexedHashes (c : HybridKVCacheCoordinator) (covered : l / c.hashBlockSize ≤ hs.length)
    (le : most ≤ l) (size : Nat) :
    most / size ≤ (c.indexedHashes hs size most).length := by
  unfold indexedHashes
  split
  · rename_i same
    rw [same]
    exact (Nat.div_le_div_right le).trans covered
  · rw [length_map, length_range]

theorem findHit_rows (p : BlockPool) (most : Nat) (covered : l / c.hashBlockSize ≤ blockHashes.length)
    (le : most ≤ l) (supported : group.spec.kvCacheSpec ≠ .crossAttention)
    (accepts : group.spec.kvCacheSpec.isChunkedLocal = true → eg = false ∧
      group.spec.blockSize = c.lcmBlockSize) :
    ∃ rows, c.findHit p blockHashes group most eg = .ok rows ∧
      HitRows most group.spec.blockSize c.lcmBlockSize (eg && !group.spec.kvCacheSpec.isMamba) rows := by
  have hashes := c.length_indexedHashes covered le group.spec.blockSize
  unfold findHit
  cases spec : group.spec.kvCacheSpec with
  | slidingWindow window pos =>
    simp only [isMamba, Bool.not_false, Bool.and_true]
    exact p.findSlidingWindowHit_rows group.groupIds eg c.lcmBlockSize group.spec.positive pos hashes
  | chunkedLocalAttention chunk pos =>
    obtain ⟨plain, same⟩ := accepts (by rw [spec]; rfl)
    simp only [isMamba, Bool.not_false, Bool.and_true, plain, ← same]
    obtain ⟨hits, rows, ran, found⟩ := p.findChunkedLocalHit_chunkRows group.groupIds chunk hashes
    exact ⟨rows, ran, dvd_mul_left _ _, found.length ▸ found.inside, nofun⟩
  | mamba align extra =>
    simp only [isMamba, Bool.not_true, Bool.and_false]
    obtain ⟨rows, ran, found⟩ := p.mambaLoop_finds group.groupIds group.spec.blockSize c.lcmBlockSize hashes
    exact ⟨rows, ran, BlockPool.hitRows_of_hit le_rfl found.hit⟩
  | crossAttention => exact absurd spec supported
  | _ =>
    simp only [isMamba, Bool.not_false, Bool.and_true]
    exact ⟨_, rfl, BlockPool.hitRows_of_hit (min_le_left _ _) (p.findFullAttentionHit_search _ _ _ _ _ _).1⟩

theorem findHit_refused (p : BlockPool) (hs : List BlockHash) (most : Nat)
    (chunked : group.spec.kvCacheSpec.isChunkedLocal = true)
    (refused : eg = true ∨ group.spec.blockSize ≠ c.lcmBlockSize) :
    ∃ e, c.findHit p hs group most eg = .error e ∧ (e = .eagleUnsupported ∨ e = .blockSizesDiffer) := by
  unfold findHit
  cases spec : group.spec.kvCacheSpec with
  | chunkedLocalAttention chunk pos =>
    dsimp only
    unfold BlockPool.findChunkedLocalHit
    by_cases eagle : eg = true
    · rw [if_pos eagle]
      exact ⟨_, rfl, .inl rfl⟩
    · rw [if_neg eagle, if_pos (refused.resolve_left eagle)]
      exact ⟨_, rfl, .inr rfl⟩
  | _ =>
    rw [spec] at chunked
    cases chunked

/-! ### Writing the blocks of a group -/

theorem length_writeHit (null : Nat) (group : AttentionGroup) (rs : List (List Nat))
    (bs : List (Option (List Nat))) : (writeHit null group rs bs).length = bs.length := by
  unfold writeHit
  generalize group.groupIds.zipIdx = es
  induction es generalizing bs with
  | nil => rfl
  | cons e rest ih => rw [foldl_cons, ih, length_set]

variable {i : Nat}

theorem writeHit_of_not_mem (null : Nat) (rs : List (List Nat)) (bs : List (Option (List Nat)))
    (other : i ∉ group.groupIds) : (writeHit null group rs bs)[i]? = bs[i]? := by
  unfold writeHit
  have away : ∀ e ∈ group.groupIds.zipIdx, e.1 ≠ i := fun e mem same =>
    other (same ▸ fst_mem_of_mem_zipIdx mem)
  generalize group.groupIds.zipIdx = es at away
  induction es generalizing bs with
  | nil => rfl
  | cons e rest ih =>
    rw [foldl_cons, ih _ fun e mem => away e (mem_cons_of_mem _ mem), getElem?_set_ne (away e mem_cons_self)]

theorem writeHit_of_mem (null : Nat) (rs : List (List Nat)) {bs : List (Option (List Nat))}
    (isId : i ∈ group.groupIds) (lt : i < bs.length) :
    ∃ hit, (writeHit null group rs bs)[i]? = some (some hit) ∧ hit.length = rs.length := by
  -- the last write decides, and every write has as many blocks as there are rows
  have general : ∀ (es : List (Nat × Nat)) (bs : List (Option (List Nat))), i < bs.length →
      ((∃ hit, bs[i]? = some (some hit) ∧ hit.length = rs.length) ∨ i ∈ es.map Prod.fst) →
      ∃ hit, (es.foldl (fun bs e => bs.set e.1 (some (column null e.2 rs))) bs)[i]? =
        some (some hit) ∧ hit.length = rs.length := by
    intro es
    induction es with
    | nil => exact fun bs _ found => found.resolve_right (by simp)
    | cons e rest ih =>
      intro bs lt found
      rw [foldl_cons]
      refine ih _ (by rwa [length_set]) ?_
      by_cases same : e.1 = i
      · rw [same]
        exact .inl ⟨_, getElem?_set_self lt, length_map _⟩
      · rw [getElem?_set_ne same]
        refine found.imp_right fun mem => ?_
        rw [map_cons, mem_cons] at mem
        exact mem.resolve_left (Ne.symm same)
  refine general _ bs lt (.inr ?_)
  rwa [zipIdx_map_fst]

/-! ### One round of lookups -/

def Found (state : LookupState) (group : AttentionGroup) (p : Nat → Prop) : Prop :=
  ∀ i ∈ group.groupIds, ∃ hit, state.hitBlocksByGroup[i]? = some (some hit) ∧
    p (hit.length * group.spec.blockSize)

variable {state : LookupState}

theorem Found.imp {p q : Nat → Prop} (found : Found state group p) (weaker : ∀ n, p n → q n) :
    Found state group q := fun i isId => by
  obtain ⟨hit, at_, holds⟩ := found i isId
  exact ⟨hit, at_, weaker _ holds⟩

theorem Found.congr {s' : LookupState} {p : Nat → Prop} (found : Found state group p)
    (same : ∀ i ∈ group.groupIds, s'.hitBlocksByGroup[i]? = state.hitBlocksByGroup[i]?) : Found s' group p :=
  fun i isId => by
    rw [same i isId]
    exact found i isId

variable {hit : List Nat}

section
variable {null : Nat} {rs : List (List Nat)} {before after : LookupState}
  (written : after.hitBlocksByGroup = writeHit null group rs before.hitBlocksByGroup)
include written

theorem length_written (isId : i ∈ group.groupIds)
    (at_ : after.hitBlocksByGroup[i]? = some (some hit)) : hit.length = rs.length := by
  rw [written] at at_
  obtain ⟨lt, -⟩ := List.getElem_of_getElem? at_
  rw [length_writeHit] at lt
  obtain ⟨same, here, length⟩ := writeHit_of_mem null rs isId lt
  rw [at_] at here
  cases here
  exact length

theorem found_written (mem : group ∈ c.attentionGroups)
    (size : before.hitBlocksByGroup.length = c.kvCacheGroups.length) :
    Found after group (· = rs.length * group.spec.blockSize) := by
  intro i isId
  obtain ⟨hit, at_, length⟩ := writeHit_of_mem null rs isId (size ▸ groupId_lt mem isId)
  exact ⟨hit, written ▸ at_, by rw [length]⟩

end

structure Progress (c : HybridKVCacheCoordinator) (maxCacheHitLength bound : Nat)
    (done : List (AttentionGroup × Nat)) (current : Nat × LookupState) : Prop where
  size : current.2.hitBlocksByGroup.length = c.kvCacheGroups.length
  below : current.1 ≤ bound
  aligned : c.lcmBlockSize ∣ current.1 ∨
    current.1 = maxCacheHitLength ∧ ∀ (i : Nat) hit, current.2.hitBlocksByGroup[i]? ≠ some (some hit)
  verified : ∀ i ∈ current.2.eagleVerified, ∀ group, c.attentionGroups[i]? = some group →
    group.spec.kvCacheSpec.isChunkedLocal = false
  full : ∀ group ∈ c.attentionGroups, group.spec.kvCacheSpec.isFullAttention = true →
    (group ∉ done.map Prod.fst ∧ ∀ i ∈ group.groupIds, current.2.hitBlocksByGroup[i]? = some none) ∨
      Found current.2 group (current.1 ≤ ·)
  others : ∀ group ∈ done.map Prod.fst, group.spec.kvCacheSpec.isFullAttention = false →
    Found current.2 group fun n => current.1 ≤ n ∧ n ≤ bound
  last : ∀ entry, done.getLast? = some entry → entry.1.spec.kvCacheSpec.isFullAttention = false →
    Found current.2 entry.1 (· = current.1)
  accepted : ∀ group ∈ done.map Prod.fst, ¬ c.Refuses group

/-- Mamba carries an eagle flag only where its blocks are shorter than the common multiple. -/
def Unflagged (c : HybridKVCacheCoordinator) : Prop :=
  ∀ group ∈ c.attentionGroups, group.spec.kvCacheSpec.isMamba = true → c.isEagle group = true →
    group.spec.blockSize < c.lcmBlockSize

variable {rs : List (List Nat)}

theorem newLength_le {curr : Nat} (aligned : c.lcmBlockSize ∣ curr ∨ curr = l)
    (short : group.spec.kvCacheSpec.isMamba = true → eg = true → group.spec.blockSize < c.lcmBlockSize)
    (hit : HitRows (if eg then min (curr + group.spec.blockSize) l else curr) group.spec.blockSize
      c.lcmBlockSize (eg && !group.spec.kvCacheSpec.isMamba) rs) :
        rs.length * group.spec.blockSize ≤ curr := by
  have bound := Nat.mul_le_of_le_div _ _ _ hit.inside
  cases eagle : eg with
  | false =>
    rw [eagle, if_neg Bool.false_ne_true] at bound
    exact bound
  | true =>
    rw [eagle, if_pos rfl] at bound
    have dropped := hit.dropped
    rw [eagle, if_pos rfl] at dropped
    cases mamba : group.spec.kvCacheSpec.isMamba with
    | false =>
      rcases dropped (by rw [mamba]; rfl) with none | room
      · rw [none]
        simp
      · have more := Nat.mul_le_of_le_div _ _ _ room
        rw [Nat.add_mul, Nat.one_mul] at more
        omega
    | true =>
      have less := short mamba eagle
      rcases aligned with whole | top
      · exact Nat.le_of_lt_add_of_dvd (by omega) hit.aligned whole
      · omega

section

variable {bound idx : Nat} {done rest : List (AttentionGroup × Nat)} {curr : Nat}

theorem entry_facts (whole : c.attentionGroups.zipIdx = done ++ (group, idx) :: rest) :
    group ∈ c.attentionGroups ∧ c.attentionGroups[idx]? = some group ∧ group ∉ done.map Prod.fst ∧
      ∀ other ∈ done.map Prod.fst, other ∈ c.attentionGroups := by
  have mem : (group, idx) ∈ c.attentionGroups.zipIdx := by
    rw [whole]
    exact mem_append_right _ mem_cons_self
  have gs : c.attentionGroups = done.map Prod.fst ++ group :: rest.map Prod.fst := by
    have firsts := congrArg (map Prod.fst) whole
    rwa [zipIdx_map_fst, map_append, map_cons] at firsts
  have distinct := c.attentionGroups_nodup
  rw [gs] at distinct
  refine ⟨fst_mem_of_mem_zipIdx mem, mem_zipIdx_iff_getElem?.mp mem, fun again => ?_, fun other isDone => ?_⟩
  · exact disjoint_of_nodup_append distinct again mem_cons_self
  · rw [gs]
    exact mem_append_left _ isDone

theorem mem_visited {other : AttentionGroup} :
    other ∈ (done ++ [(group, idx)]).map Prod.fst ↔ other ∈ done.map Prod.fst ∨ other = group := by
  simp

theorem exists_recorded {ids : List Nat}
    (cached : (ids.head?.bind fun gid => (state.hitBlocksByGroup[gid]?).join).isSome = true) :
    ∃ i ∈ ids, ∃ hit, state.hitBlocksByGroup[i]? = some (some hit) := by
  obtain ⟨hit, found⟩ := isSome_iff_exists.mp cached
  obtain ⟨i, isHead, join⟩ := bind_eq_some_iff.mp found
  exact ⟨i, mem_of_mem_head? isHead, hit, join_eq_some_iff.mp join⟩

section
variable (progress : c.Progress l bound done (curr, state))
  (whole : c.attentionGroups.zipIdx = done ++ (group, idx) :: rest)
include progress whole

theorem Progress.keep (full : group.spec.kvCacheSpec.isFullAttention = true)
    (cached : (group.groupIds.head?.bind fun gid => (state.hitBlocksByGroup[gid]?).join).isSome = true) :
    c.Progress l bound (done ++ [(group, idx)]) (curr / group.spec.blockSize * group.spec.blockSize,
      state) := by
  obtain ⟨mem, -, -, -⟩ := entry_facts whole
  obtain ⟨first, isHead, hit, at_⟩ := exists_recorded cached
  have whole' : c.lcmBlockSize ∣ curr := progress.aligned.resolve_right fun fresh => fresh.2 first hit at_
  rw [Nat.div_mul_cancel ((blockSize_dvd_lcm mem).trans whole')]
  have here : Found state group (curr ≤ ·) := by
    refine (progress.full group mem full).resolve_left fun fresh => ?_
    have none := fresh.2 first isHead
    rw [at_] at none
    cases none
  refine ⟨progress.size, progress.below, progress.aligned, progress.verified,
    fun other isGroup isFull => ?_, ?_, ?_, ?_⟩
  · by_cases same : other = group
    · rw [same]
      exact .inr here
    · refine (progress.full other isGroup isFull).imp_left (And.imp_left fun new => ?_)
      rw [mem_visited]
      tauto
  · intro other isDone notFull
    rw [mem_visited] at isDone
    rcases isDone with isDone | rfl
    · exact progress.others other isDone notFull
    · rw [full] at notFull
      cases notFull
  · intro e isLast notFull
    rw [getLast?_concat, some.injEq] at isLast
    rw [← isLast, full] at notFull
    cases notFull
  · intro other isDone
    rw [mem_visited] at isDone
    rcases isDone with isDone | rfl
    · exact progress.accepted other isDone
    · rintro ⟨chunked, -⟩
      rw [not_chunkedLocal_of_full full] at chunked
      cases chunked

theorem Progress.write (accepted : ¬ c.Refuses group)
    (eager : eg = true → group.spec.kvCacheSpec.isChunkedLocal = false) (null : Nat)
    (aligned : c.lcmBlockSize ∣ rs.length * group.spec.blockSize)
    (shorter : rs.length * group.spec.blockSize ≤ curr) :
    c.Progress l bound (done ++ [(group, idx)]) (rs.length * group.spec.blockSize, {
      hitBlocksByGroup := writeHit null group rs state.hitBlocksByGroup
      eagleVerified :=
        if eg then state.eagleVerified.insert idx
        else if rs.length * group.spec.blockSize < curr then [] else state.eagleVerified }) := by
  obtain ⟨mem, pos, new, earlier⟩ := entry_facts whole
  -- groups of other attention types keep their blocks
  have apart : ∀ other ∈ c.attentionGroups, other ≠ group → ∀ i ∈ other.groupIds,
      (writeHit null group rs state.hitBlocksByGroup)[i]? = state.hitBlocksByGroup[i]? := by
    intro other isGroup ne i isId
    exact writeHit_of_not_mem _ _ _ fun again => ne (eq_of_mem_groupIds isGroup mem isId again)
  have here : ∀ verified, Found ⟨writeHit null group rs state.hitBlocksByGroup, verified⟩ group
      (· = rs.length * group.spec.blockSize) := fun _ => found_written rfl mem progress.size
  refine ⟨?_, shorter.trans progress.below, .inl aligned, ?_, fun other isGroup isFull => ?_, ?_, ?_, ?_⟩
  · exact (length_writeHit _ _ _ _).trans progress.size
  · intro i isVerified other at_
    cases eagle : eg with
    | true =>
      simp only [eagle, if_true] at isVerified
      rcases mem_insert_iff.mp isVerified with rfl | old
      · rw [pos] at at_
        cases at_
        exact eager eagle
      · exact progress.verified i old other at_
    | false =>
      simp only [eagle, Bool.false_eq_true, if_false] at isVerified
      split at isVerified
      · cases isVerified
      · exact progress.verified i isVerified other at_
  · by_cases same : other = group
    · rw [same]
      exact .inr ((here _).imp fun n equal => equal.ge)
    · refine (progress.full other isGroup isFull).imp ?_ fun found => ?_
      · rintro ⟨fresh, none⟩
        refine ⟨?_, fun i isId => (apart other isGroup same i isId).trans (none i isId)⟩
        rw [mem_visited]
        tauto
      · exact (found.congr (apart other isGroup same)).imp fun n enough => shorter.trans enough
  · intro other isDone notFull
    rw [mem_visited] at isDone
    rcases isDone with isDone | rfl
    · have ne : other ≠ group := fun same => new (same ▸ isDone)
      refine ((progress.others other isDone notFull).congr (apart other (earlier other isDone) ne)).imp ?_
      exact fun n within => ⟨shorter.trans within.1, within.2⟩
    · exact (here _).imp fun n equal => ⟨equal.ge, equal.trans_le (shorter.trans progress.below)⟩
  · intro e isLast _
    rw [getLast?_concat, some.injEq] at isLast
    rw [← isLast]
    exact here _
  · intro other isDone
    rw [mem_visited] at isDone
    rcases isDone with isDone | rfl
    · exact progress.accepted other isDone
    · exact accepted

theorem Progress.lookupGroup (p : BlockPool) (covered : l / c.hashBlockSize ≤ hs.length) (le : bound ≤ l)
    (supported : group.spec.kvCacheSpec ≠ .crossAttention) (unflagged : c.Unflagged) :
    (∃ e, c.lookupGroup p hs l (curr, state) (group, idx) = .error e ∧
      c.Refuses group ∧ (e = .eagleUnsupported ∨ e = .blockSizesDiffer)) ∨
    ∃ next, c.lookupGroup p hs l (curr, state) (group, idx) = .ok next ∧
      c.Progress l bound (done ++ [(group, idx)]) next := by
  obtain ⟨mem, pos, -, -⟩ := entry_facts whole
  unfold HybridKVCacheCoordinator.lookupGroup
  dsimp only
  split
  · rename_i cached
    exact .inr ⟨_, rfl, progress.keep whole cached.1 cached.2⟩
  generalize eg : (c.isEagle group && !state.eagleVerified.contains idx) = flag
  have flagged : flag = true → c.isEagle group = true := fun eagle => by
    rw [eagle, Bool.and_eq_true] at eg
    exact eg.1
  by_cases refuses : c.Refuses group
  · left
    have refused : flag = true ∨ group.spec.blockSize ≠ c.lcmBlockSize := by
      refine refuses.2.imp_left fun eagle => ?_
      have unverified : state.eagleVerified.contains idx = false := by
        by_contra verified
        have isVerified : idx ∈ state.eagleVerified := by simpa using verified
        have plain := progress.verified idx isVerified group pos
        rw [refuses.1] at plain
        cases plain
      rw [← eg, eagle, unverified]
      rfl
    obtain ⟨e, failed, kind⟩ := findHit_refused p hs
      (if flag then min (curr + group.spec.blockSize) l else curr) refuses.1 refused
    refine ⟨e, ?_, refuses, kind⟩
    rw [failed]
    rfl
  · right
    have accepts : group.spec.kvCacheSpec.isChunkedLocal = true → flag = false ∧
        group.spec.blockSize = c.lcmBlockSize := by
      intro chunked
      have allowed : ¬ (c.isEagle group = true ∨ group.spec.blockSize ≠ c.lcmBlockSize) :=
        fun bad => refuses ⟨chunked, bad⟩
      rw [not_or, not_not] at allowed
      exact ⟨Bool.eq_false_iff.mpr fun eagle => allowed.1 (flagged eagle), allowed.2⟩
    have below : curr ≤ bound := progress.below
    obtain ⟨rs, ran, hit⟩ := findHit_rows p
      (if flag then min (curr + group.spec.blockSize) l else curr) covered (by split <;> omega) supported
      accepts
    have shorter := newLength_le (progress.aligned.imp_right And.left)
      (fun mamba eagle => unflagged group mem mamba (flagged eagle)) hit
    rw [ran]
    refine ⟨_, rfl, progress.write whole refuses (fun eagle => ?_) p.nullBlock hit.aligned shorter⟩
    by_contra chunked
    rw [(accepts (by simpa using chunked)).1] at eagle
    cases eagle

end

end

/-! ### All rounds -/

/-- The blocks of full attention reach at least to the length of the hit, all others end there. -/
structure Settled (c : HybridKVCacheCoordinator) (maxCacheHitLength hitLength : Nat)
    (state : LookupState) : Prop where
  size : state.hitBlocksByGroup.length = c.kvCacheGroups.length
  inside : hitLength ≤ maxCacheHitLength
  aligned : c.lcmBlockSize ∣ hitLength
  full : ∀ group ∈ c.attentionGroups, group.spec.kvCacheSpec.isFullAttention = true →
    Found state group (hitLength ≤ ·)
  others : ∀ group ∈ c.attentionGroups, group.spec.kvCacheSpec.isFullAttention = false →
    Found state group (· = hitLength)

theorem spec_mem (mem : group ∈ c.attentionGroups) : group.spec ∈ c.kvCacheGroups := by
  have divides := c.attentionGroups_divides
  obtain ⟨i, isId⟩ := exists_mem_of_ne_nil _ (divides.nonempty group mem)
  exact mem_of_getElem? (divides.sound group mem i isId)

section

variable {bound next : Nat}

section
variable (progress : c.Progress l bound c.attentionGroups.zipIdx (next, state))
include progress

theorem Progress.found (mem : group ∈ c.attentionGroups)
    (full : group.spec.kvCacheSpec.isFullAttention = true) : Found state group (next ≤ ·) := by
  refine (progress.full group mem full).resolve_left fun fresh => fresh.1 ?_
  rwa [zipIdx_map_fst]

theorem Progress.whole : c.lcmBlockSize ∣ next := by
  refine progress.aligned.resolve_right fun fresh => ?_
  have some : c.attentionGroups ≠ [] := by
    have length := c.attentionGroups_perm.length_eq
    have several := c.several
    intro none
    rw [none, length_nil] at length
    omega
  obtain ⟨group, mem⟩ := exists_mem_of_ne_nil _ some
  obtain ⟨i, isId⟩ := exists_mem_of_ne_nil _ (c.attentionGroups_divides.nonempty group mem)
  cases full : group.spec.kvCacheSpec.isFullAttention with
  | true =>
    obtain ⟨hit, at_, -⟩ := progress.found mem full i isId
    exact fresh.2 i hit at_
  | false =>
    obtain ⟨hit, at_, -⟩ := progress.others group (by rwa [zipIdx_map_fst]) full i isId
    exact fresh.2 i hit at_

theorem Progress.settled
    (le : bound ≤ l) (kept : bound ≤ next) : c.Settled l bound state := by
  have same : next = bound := le_antisymm progress.below kept
  refine ⟨progress.size, le, same ▸ progress.whole, fun group mem full => ?_, fun group mem notFull => ?_⟩
  · exact same ▸ progress.found mem full
  · refine (progress.others group (by rwa [zipIdx_map_fst]) notFull).imp fun n within => ?_
    exact le_antisymm within.2 (kept.trans within.1)

theorem Progress.settled_simple (le : bound ≤ l) (simple : c.isSimpleHybrid = true) :
    c.Settled l next state := by
  have below : next ≤ bound := progress.below
  refine ⟨progress.size, below.trans le, progress.whole, fun group mem full => progress.found mem full,
    fun group mem notFull => ?_⟩
  unfold isSimpleHybrid at simple
  rw [Bool.and_eq_true, beq_iff_eq] at simple
  obtain ⟨two, headFull⟩ := simple
  obtain ⟨first, second, gs⟩ := length_eq_two.mp two
  rw [gs, head?_cons, any_some] at headFull
  have isSecond : group = second := by
    rw [gs, mem_cons, mem_singleton] at mem
    refine mem.resolve_left fun isFirst => ?_
    rw [isFirst, headFull] at notFull
    cases notFull
  rw [isSecond] at notFull ⊢
  exact progress.last (second, 1) (by rw [gs]; rfl) notFull

theorem Progress.restart : c.Progress l next [] (next, state) := by
  refine ⟨progress.size, le_refl _, .inl progress.whole, progress.verified, fun group mem full =>
    ?_, ?_, ?_, ?_⟩
  · exact .inr (progress.found mem full)
  · exact nofun
  · exact nofun
  · exact nofun

end

theorem Progress.start (c : HybridKVCacheCoordinator) (l : Nat) : c.Progress l l []
      (l, ⟨replicate c.kvCacheGroups.length none, []⟩) := by
  have blank : ∀ i < c.kvCacheGroups.length,
      (replicate c.kvCacheGroups.length (none : Option (List Nat)))[i]? =
      some none := fun i less => by rw [getElem?_replicate, if_pos less]
  refine ⟨length_replicate, le_refl _, .inr ⟨rfl, fun i hit at_ => ?_⟩, ?_, fun group mem full =>
    ?_, ?_, ?_, ?_⟩
  · rw [getElem?_replicate] at at_
    split at at_ <;> cases at_
  · exact nofun
  · refine .inl ⟨by simp, fun i isId => blank i ?_⟩
    exact groupId_lt mem isId
  · exact nofun
  · exact nofun
  · exact nofun

theorem lookupRound_progress (p : BlockPool) (covered : l / c.hashBlockSize ≤ hs.length)
    (supported : ∀ spec ∈ c.kvCacheGroups, spec.kvCacheSpec ≠ .crossAttention) (unflagged : c.Unflagged)
    (le : bound ≤ l) (start : c.Progress l bound [] (bound, state)) :
    (∃ e, c.lookupRound p hs l bound state = .error e ∧ c.RefusedWith e) ∨
    ∃ current, c.lookupRound p hs l bound state = .ok current ∧
      c.Progress l bound c.attentionGroups.zipIdx current := by
  refine foldlM_total (c.Progress l bound) c.RefusedWith
    (fun done entry rest current whole progress => ?_) start
  obtain ⟨group, idx⟩ := entry
  obtain ⟨mem, -, -, -⟩ := entry_facts whole
  refine (progress.lookupGroup whole p covered le (supported _ (spec_mem mem)) unflagged).imp_left ?_
  rintro ⟨e, failed, refuses, kind⟩
  exact ⟨e, failed, ⟨group, mem, refuses⟩, kind⟩

end

theorem rounds_settle (p : BlockPool) (covered : l / c.hashBlockSize ≤ hs.length)
    (supported : ∀ spec ∈ c.kvCacheGroups, spec.kvCacheSpec ≠ .crossAttention) (unflagged : c.Unflagged) :
    (∃ e, narrow (c.lookupRound p hs l) c.isSimpleHybrid l
        ⟨replicate c.kvCacheGroups.length none, []⟩ = .error e ∧ c.RefusedWith e) ∨
    ∃ len state, narrow (c.lookupRound p hs l) c.isSimpleHybrid l
        ⟨replicate c.kvCacheGroups.length none, []⟩ = .ok (len, state) ∧
      c.Settled l len state ∧ ∀ group ∈ c.attentionGroups, ¬ c.Refuses group := by
  refine narrow_rule (fun bound state => bound ≤ l ∧ c.Progress l bound [] (bound, state))
    (fun len state => c.Settled l len state ∧ ∀ group ∈ c.attentionGroups, ¬ c.Refuses group)
    c.RefusedWith (fun bound state before => ?_) ⟨le_refl _, Progress.start c l⟩
  refine (lookupRound_progress p covered supported unflagged before.1 before.2).imp_right ?_
  rintro ⟨⟨next, s'⟩, ran, progress⟩
  have accepted : ∀ group ∈ c.attentionGroups, ¬ c.Refuses group := fun group mem =>
    progress.accepted group (by rwa [zipIdx_map_fst])
  refine ⟨next, s', ran, fun kept => ⟨progress.settled before.1 kept, accepted⟩, fun less => ?_⟩
  split
  · rename_i simple
    exact ⟨progress.settled_simple before.1 simple, accepted⟩
  · exact ⟨less.le.trans before.1, progress.restart⟩

/-! ### The result -/

section
variable (f : Option (List Nat) → Option (List Nat)) {ids : List Nat}

theorem modify_of_not_mem (other : i ∉ ids)
    (bs : List (Option (List Nat))) : (ids.foldl (fun bs id => bs.modify id f) bs)[i]? = bs[i]? := by
  induction ids generalizing bs with
  | nil => rfl
  | cons id rest ih =>
    rw [mem_cons, not_or] at other
    rw [foldl_cons, ih other.2, getElem?_modify_ne _ _ (Ne.symm other.1)]

theorem modify_of_mem (mem : i ∈ ids) (nodup : ids.Nodup) (bs : List (Option (List Nat))) :
    (ids.foldl (fun bs id => bs.modify id f) bs)[i]? = bs[i]?.map f := by
  induction ids generalizing bs with
  | nil => cases mem
  | cons id rest ih =>
    rw [nodup_cons] at nodup
    rw [foldl_cons]
    rcases mem_cons.mp mem with rfl | later
    · rw [modify_of_not_mem f nodup.1, getElem?_modify_eq]
      rfl
    · rw [ih later nodup.2, getElem?_modify_ne]
      rintro rfl
      exact nodup.1 later

end

/-- Groups whose blocks are cut to the length of the hit, if that is needed: full attention of the
first type, and all other kinds. -/
def IsCut (c : HybridKVCacheCoordinator) (spec : LookupSpec) : Prop :=
  spec.kvCacheSpec.isFullAttention = true → c.attentionGroups.head?.map (·.spec) = some spec

theorem Settled.truncated {hitLength : Nat} (settled : c.Settled l hitLength state)
    (mem : group ∈ c.attentionGroups) (isCut : c.IsCut group.spec) (isId : i ∈ group.groupIds) :
    ∃ hit, (c.truncateFirst hitLength state.hitBlocksByGroup)[i]? = some (some hit) ∧
      hit.length * group.spec.blockSize = hitLength := by
  unfold truncateFirst
  cases full : group.spec.kvCacheSpec.isFullAttention with
  | true =>
    obtain ⟨first, isFirst, same⟩ := map_eq_some_iff.mp (isCut full)
    have same : first = group :=
      inj_on_of_nodup_map c.attentionGroups_divides.distinct (mem_of_mem_head? isFirst) mem same
    rw [isFirst, same]
    obtain ⟨hit, at_, enough⟩ := settled.full group mem full i isId
    have whole : group.spec.blockSize ∣ hitLength := (blockSize_dvd_lcm mem).trans settled.aligned
    have fits := Nat.div_le_of_le_mul (Nat.mul_comm _ _ ▸ enough)
    refine ⟨hit.take (hitLength / group.spec.blockSize), ?_, ?_⟩
    · dsimp only
      rw [if_pos full, modify_of_mem _ isId (c.attentionGroups_divides.nodup group mem), at_]
      rfl
    · rw [length_take, Nat.min_eq_left fits, Nat.div_mul_cancel whole]
  | false =>
    obtain ⟨hit, at_, equal⟩ := settled.others group mem full i isId
    refine ⟨hit, ?_, equal⟩
    split
    · exact at_
    rename_i first isFirst
    split
    · rename_i firstFull
      have isGroup := mem_of_mem_head? isFirst
      rw [modify_of_not_mem, at_]
      intro again
      rw [eq_of_mem_groupIds isGroup mem again isId, full] at firstFull
      cases firstFull
    · exact at_

theorem length_truncateFirst (c : HybridKVCacheCoordinator) (len : Nat) (bs : List (Option (List Nat))) :
    (c.truncateFirst len bs).length = bs.length := by
  unfold truncateFirst
  split
  · rfl
  · rename_i group isFirst
    split
    · generalize group.groupIds = ids
      induction ids generalizing bs with
      | nil => rfl
      | cons id rest ih => rw [foldl_cons, ih, length_modify]
    · rfl

/-- The hit is within the allowed length, a multiple of all block sizes, and the blocks of the given
groups cover exactly the hit. -/
def Covers (c : HybridKVCacheCoordinator) (given : LookupSpec → Prop) (pool : BlockPool)
    (blockHashes : List BlockHash) (maxCacheHitLength : Nat) : Prop :=
  ∃ blocks hitLength, c.findLongestCacheHit pool blockHashes maxCacheHitLength = .ok (blocks, hitLength) ∧
    hitLength ≤ maxCacheHitLength ∧ c.lcmBlockSize ∣ hitLength ∧ blocks.length = c.kvCacheGroups.length ∧
    ∀ (i : Nat) spec hit, c.kvCacheGroups[i]? = some spec → given spec → blocks[i]? = some hit →
      hit.length * spec.blockSize = hitLength

/-- The lookup refuses chunked local attention with an eagle flag or with several block sizes.
Otherwise it returns blocks that cover the hit. -/
theorem findLongestCacheHit_covers (c : HybridKVCacheCoordinator) (pool : BlockPool)
    (blockHashes : List BlockHash)
    (maxCacheHitLength : Nat) (supported : ∀ spec ∈ c.kvCacheGroups, spec.kvCacheSpec ≠ .crossAttention)
    (covered : maxCacheHitLength / c.hashBlockSize ≤ blockHashes.length) (unflagged : c.Unflagged) :
    ((∃ group ∈ c.attentionGroups, c.Refuses group) → ∃ e,
      c.findLongestCacheHit pool blockHashes maxCacheHitLength = .error e ∧
      (e = .eagleUnsupported ∨ e = .blockSizesDiffer)) ∧
    ((∀ group ∈ c.attentionGroups, ¬ c.Refuses group) →
      c.Covers c.IsCut pool blockHashes maxCacheHitLength) := by
  unfold Covers findLongestCacheHit
  rcases rounds_settle pool covered supported unflagged with ⟨e, failed, refused,
    kind⟩ | ⟨hitLength, state, ran, settled, accepted⟩
  · rw [failed]
    refine ⟨fun _ => ⟨e, rfl, kind⟩, fun accepted => ?_⟩
    obtain ⟨group, member, refuses⟩ := refused
    exact absurd refuses (accepted group member)
  · rw [ran]
    refine ⟨fun refused => ?_, fun _ => ⟨_, hitLength, rfl, settled.inside, settled.aligned, ?_,
      fun i spec hit isGroup isCut at_ => ?_⟩⟩
    · obtain ⟨group, member, refuses⟩ := refused
      exact absurd refuses (accepted group member)
    · rw [length_map, length_truncateFirst, settled.size]
    · obtain ⟨group, member, isId, rfl⟩ := exists_group isGroup
      obtain ⟨kept, here, covers⟩ := settled.truncated member isCut isId
      rw [getElem?_map, here] at at_
      cases at_
      exact covers

def groupConfigs (specs : List LookupSpec) : List ManagerConfig :=
  specs.zipIdx.map fun (spec, i) => ⟨spec.kvCacheSpec, spec.blockSize, spec.positive, i, none⟩

def fiveTokens : SlotArgs where
  request := ⟨"a", 5, 0, [[1], [2]]⟩
  numNewTokens := 5

def fullAndWindow : HybridKVCacheCoordinator where
  hashBlockSize := 2
  kvCacheGroups := [⟨.fullAttention, 2, Nat.succ_pos _, 0⟩, ⟨.slidingWindow 3 (Nat.succ_pos _), 4,
    Nat.succ_pos _, 0⟩]
  eagleGroupIds := [1]
  divisible := by decide
  several := by decide

theorem findLongestCacheHit_covers_window : ∃ kv,
    (new 16 10 true 2 (groupConfigs fullAndWindow.kvCacheGroups) >>= (·.run
      [.allocateSlots fiveTokens])) = .ok kv ∧
      fullAndWindow.Covers fullAndWindow.IsCut kv.blockPool [[1], [2]] 4 := by
  have ran : ((new 16 10 true 2 (groupConfigs fullAndWindow.kvCacheGroups) >>=
      (·.run [.allocateSlots fiveTokens])).map fun _ => ()) = .ok () := rfl
  obtain ⟨kv, ran, -⟩ := map_ok ran
  refine ⟨kv, ran, (findLongestCacheHit_covers fullAndWindow kv.blockPool [[1], [2]] 4 ?_ ?_ ?_).2 ?_⟩
  · decide
  · decide
  · unfold Unflagged
    decide
  · decide

def fullAndMamba : HybridKVCacheCoordinator where
  hashBlockSize := 2
  kvCacheGroups := [⟨.fullAttention, 2, succ_pos _, 0⟩, ⟨.mamba false 0, 2, succ_pos _, 0⟩]
  eagleGroupIds := [0, 1]
  divisible := by decide
  several := by decide

def twoFullAndWindow : HybridKVCacheCoordinator where
  hashBlockSize := 2
  kvCacheGroups := [⟨.fullAttention, 2, succ_pos _, 0⟩, ⟨.tqFullAttention, 2, succ_pos _, 0⟩,
    ⟨.slidingWindow 3 (succ_pos _), 2, succ_pos _, 0⟩]
  eagleGroupIds := []
  divisible := by decide
  several := by decide

def chunkedAndLarger : HybridKVCacheCoordinator where
  hashBlockSize := 2
  kvCacheGroups := [⟨.fullAttention, 4, Nat.succ_pos _, 0⟩,
    ⟨.chunkedLocalAttention 4 (Nat.succ_pos _), 2, Nat.succ_pos _, 0⟩]
  eagleGroupIds := []
  divisible := by decide
  several := by decide

theorem exists_not_covers {made : Except PoolError KVCacheManager} {bs : List (List Nat)} {i n len : Nat}
    {spec : LookupSpec}
    (ran : (made.map fun kv => c.findLongestCacheHit kv.blockPool hs n) = .ok (.ok (bs, len)))
    (isSpec : c.kvCacheGroups[i]? = some spec) (isHit : bs[i]? = some hit)
    (differs : hit.length * spec.blockSize ≠ len) :
    ∃ kv, made = .ok kv ∧ c.findLongestCacheHit kv.blockPool hs n = .ok (bs, len) ∧
      ¬ c.Covers (fun _ => True) kv.blockPool hs n := by
  obtain ⟨kv, isMade, found⟩ := map_ok ran
  refine ⟨kv, isMade, found, ?_⟩
  rintro ⟨bs, len, again, -, -, -, covers⟩
  rw [found] at again
  cases again
  exact differs (covers i spec hit isSpec trivial isHit)

/-- Chunked local attention is refused. The lookup of Mamba finds one block more than full attention
keeps, and the blocks of the second full-attention type are not cut. -/
theorem lookup_differs : (∃ kv, (new 16 10 true 2 (groupConfigs chunkedAndLarger.kvCacheGroups) >>=
        (·.run [.allocateSlots fiveTokens])) = .ok kv ∧
      chunkedAndLarger.findLongestCacheHit kv.blockPool [[1], [2]] 4 = .error .blockSizesDiffer) ∧
    (∃ kv, (new 16 10 true 2 (groupConfigs fullAndMamba.kvCacheGroups) >>=
        (·.run [.allocateSlots fiveTokens])) = .ok kv ∧
      fullAndMamba.findLongestCacheHit kv.blockPool [[1], [2]] 4 = .ok ([[1], [0, 5]], 4) ∧
      ¬ fullAndMamba.Covers (fun _ => True) kv.blockPool [[1], [2]] 4) ∧
    ∃ kv, (new 16 12 true 2 (groupConfigs twoFullAndWindow.kvCacheGroups) >>=
        (·.run [.allocateSlots fiveTokens, .evictBlocks [8]])) = .ok kv ∧
      twoFullAndWindow.findLongestCacheHit kv.blockPool [[1], [2]] 4 = .ok ([[1], [4, 5], [7]], 2) ∧
      ¬ twoFullAndWindow.Covers (fun _ => True) kv.blockPool [[1], [2]] 4 := by
  refine ⟨map_ok rfl, ?_, ?_⟩
  · apply exists_not_covers rfl (i := 0) rfl rfl
    decide
  · apply exists_not_covers rfl (i := 1) rfl rfl
    decide

end HybridKVCacheCoordinator

end TurboQuant.Core
