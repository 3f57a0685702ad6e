import Mathlib.Data.Finset.Basic
import TurboQuant.Offload.Manager

/-!
The blocks of the CPU offloading manager over sequences of calls.
-/

namespace TurboQuant.Offload
open Outcome List CPUOffloadingManager BlockStatus Ledger Function

variable {K : Type} [DecidableEq K]

namespace CachePolicy

def insertAll (p : CachePolicy K) (entries : List (K × BlockStatus)) : CachePolicy K :=
  entries.foldl (fun policy entry => policy.insert entry.1 entry.2) p

section
variable {p : CachePolicy K} {es : List (K × BlockStatus)} {k : K}

theorem get_insertAll_other (other : k ∉ es.map Prod.fst) : (p.insertAll es).get k = p.get k := by
  unfold insertAll
  induction es generalizing p with
  | nil => rfl
  | cons e rest ih =>
    rw [map_cons, mem_cons, not_or] at other
    rw [foldl_cons, ih other.2, get_insert, if_neg other.1]

theorem get_insertAll_mem (mem : k ∈ es.map Prod.fst) :
    ∃ e ∈ es, e.1 = k ∧ (p.insertAll es).get k = some e.2 := by
  induction es generalizing p with
  | nil => cases mem
  | cons e rest ih =>
    by_cases later : k ∈ rest.map Prod.fst
    · obtain ⟨found, inRest, same, stored⟩ := ih (p := p.insert e.1 e.2) later
      exact ⟨found, mem_cons_of_mem _ inRest, same, stored⟩
    · have same : k = e.1 := (mem_cons.mp mem).resolve_right later
      refine ⟨e, mem_cons_self, same.symm, ?_⟩
      have rest_same := get_insertAll_other (p := p.insert e.1 e.2) later
      rw [get_insert, if_pos same] at rest_same
      exact rest_same

end

theorem Sound.insertAll {p : CachePolicy K} (sound : p.Sound) {es : List (K × BlockStatus)}
    (absent : ∀ e ∈ es, ¬ p.InT2 e.1) : (p.insertAll es).Sound := by
  induction es generalizing p with
  | nil => exact sound
  | cons e rest ih =>
    refine ih (sound.insert (absent e mem_cons_self) e.2) fun other mem => ?_
    rw [inT2_insert]
    exact absent other (mem_cons_of_mem _ mem)

theorem owner_insertAll (p : CachePolicy K) (ks : List K) (ids : List Nat) :
    (fun k => ((p.insertAll (ks.zip (ids.map BlockStatus.new))).get k).map BlockStatus.blockId) =
      (ks.zip ids).foldl (fun (owner : K → Option Nat) e => update owner e.1 (some e.2))
        fun k => (p.get k).map blockId := by
  induction ks generalizing p ids with
  | nil => rfl
  | cons key rest ih =>
    cases ids with
    | nil => rfl
    | cons id ids =>
      have first : (fun k => ((p.insert key (.new id)).get k).map blockId) =
          update (fun k => (p.get k).map blockId) key (some id) := by
        funext k
        rw [get_insert, update_apply]
        split <;> rfl
      rw [map_cons, zip_cons_cons, zip_cons_cons, foldl_cons, ← first, ← ih]
      rfl

end CachePolicy

variable {out : PrepareStoreOutput K}

namespace CPUOffloadingManager

variable {m m' : CPUOffloadingManager K} {keys ks : List K}

def get (m : CPUOffloadingManager K) (key : K) : Option BlockStatus := m.policy.get key

theorem owner_eq {key : K} : m.ledger.owner key = (m.get key).map blockId := rfl

omit [DecidableEq K] in
theorem addEvent_eq (m : CPUOffloadingManager K) (ks : List K) (removed : Bool) :
    ∃ events, m.addEvent ks removed = { m with events } := by
  unfold addEvent
  split
  · exact ⟨m.events, rfl⟩
  · exact ⟨_, rfl⟩

theorem evictBlocks_some {n : Nat} {toEvict : List K} (sound : m.policy.Sound)
    (done : m.evictBlocks n ks = some (toEvict, m')) :
    ∃ evicted : List (K × BlockStatus), toEvict = evicted.map Prod.fst ∧ Evicts m.get m'.get n ks evicted ∧
      m'.policy.Sound ∧ m'.ledger = (evicted.map fun e => (e.1, e.2.blockId)).foldl
        (fun l e => l.release e.1 e.2) m.ledger := by
  unfold evictBlocks at done
  split at done
  next zero =>
    cases done
    exact ⟨[], rfl, zero ▸ .nothing _ _, sound, rfl⟩
  · split at done
    next evicted policy found =>
      obtain ⟨evicts, sound'⟩ := CachePolicy.evict_some sound found
      obtain ⟨events, same⟩ := addEvent_eq { m with policy, freeList := m.freeList ++ evicted.map (·.2.blockId) }
        (evicted.map Prod.fst) true
      simp only [same] at done
      cases done
      refine ⟨evicted, rfl, evicts, sound', ?_⟩
      rw [releaseAll_eq, map_map, map_map]
      have owners : (fun key => (policy.get key).map blockId) =
          fun key => if key ∈ evicted.map Prod.fst then none else (m.policy.get key).map blockId := by
        funext key
        rw [evicts.stored key]
        split <;> rfl
      simp only [ledger, owners]
      rfl
    · cases done

theorem allocateBlocks_ok {bs : List BlockStatus} (done : m.allocateBlocks ks = .ok (bs, m')) :
    bs = (m.ledger.handedOut ks.length).map .new ∧ m'.policy = m.policy ∧
      (m'.insertBlocks ks bs).ledger = ks.foldl grant m.ledger := by
  unfold allocateBlocks at done
  simp only at done
  split at done
  · cases done
  next enough =>
    cases done
    refine ⟨rfl, rfl, ?_⟩
    rw [grantAll_eq m.ledger ks (Nat.not_lt.mp enough)]
    have owners := CachePolicy.owner_insertAll m.policy ks (m.ledger.handedOut ks.length)
    simp only [ledger, insertBlocks] at owners ⊢
    rw [← owners]
    rfl

structure Prepared (m m' : CPUOffloadingManager K) (keys : List K) (out : PrepareStoreOutput K) : Prop where
  toStore : out.keysToStore = m.keysToStore keys
  idle : ∀ key ∈ out.evictedKeys, ∃ block, m.get key = some block ∧ block.refCnt = 0
  new : ∀ key ∈ out.keysToStore, ∃ id, m'.get key = some (.new id)
  kept : ∀ key, key ∉ out.keysToStore → m'.get key = if key ∈ out.evictedKeys then none else m.get key
  sound : m'.policy.Sound
  exact_ : out.keysToStore.Nodup → m.ledger.Exact → m'.ledger.Exact

theorem mem_keysToStore {key : K} : key ∈ m.keysToStore ks ↔ key ∈ ks ∧ m.get key = none := by
  rw [keysToStore, mem_filter, Option.isNone_iff_eq_none]
  rfl

theorem prepareStore_some (sound : m.policy.Sound)
    (done : m.prepareStore keys = .ok (some out, m')) : Prepared m m' keys out := by
  unfold prepareStore at done
  split at done
  next empty =>
    cases done
    have nothing : m.keysToStore keys = [] := isEmpty_iff.mp empty
    exact ⟨nothing.symm, nofun, nofun, fun _ _ => (if_neg not_mem_nil).symm, sound, fun _ exact_ => exact_⟩
  · split at done
    · cases done
    next toEvict evictedState found =>
      obtain ⟨evicted, rfl, evicts, sound', released⟩ := evictBlocks_some sound found
      obtain ⟨⟨bs, allocated⟩, ran, done⟩ := bind_ok done
      obtain ⟨rfl, samePolicy, granted⟩ := allocateBlocks_ok ran
      simp only [length_map] at done
      split at done
      · cases done
      next length =>
        cases done
        have missing : ∀ key ∈ m.keysToStore keys, evictedState.get key = none := by
          intro key mem
          rw [evicts.stored, (mem_keysToStore.mp mem).2, ite_self]
        have zipped : ((m.keysToStore keys).zip
            ((evictedState.ledger.handedOut (m.keysToStore keys).length).map
            BlockStatus.new)).map Prod.fst = m.keysToStore keys := by
          rw [map_fst_zip]
          rw [length_map]
          exact (Decidable.not_not.mp length).ge
        have policy : (allocated.insertBlocks (m.keysToStore keys) ((evictedState.ledger.handedOut
            (m.keysToStore keys).length).map .new)).policy =
              evictedState.policy.insertAll ((m.keysToStore keys).zip
              ((evictedState.ledger.handedOut (m.keysToStore keys).length).map .new)) := by
          rw [insertBlocks, samePolicy]
          rfl
        refine ⟨rfl, ?_, ?_, ?_, ?_, ?_⟩
        · intro key mem
          obtain ⟨e, inEvicted, rfl⟩ := mem_map.mp mem
          obtain ⟨stored, idle, -⟩ := evicts.idle e inEvicted
          exact ⟨e.2, stored, idle⟩
        · intro key mem
          rw [← zipped] at mem
          obtain ⟨e, inZip, -, stored⟩ := CachePolicy.get_insertAll_mem (p := evictedState.policy) mem
          obtain ⟨id, -, same⟩ := mem_map.mp (of_mem_zip inZip).2
          refine ⟨id, ?_⟩
          rw [same, ← stored, get, policy]
        · intro key other
          rw [get, policy, CachePolicy.get_insertAll_other (by rwa [zipped])]
          exact evicts.stored key
        · rw [policy]
          refine sound'.insertAll fun e inZip => ?_
          exact CachePolicy.not_inT2 (missing e.1 (of_mem_zip inZip).1)
        · intro nodup exact_
          have owned : ∀ e ∈ evicted.map fun e => (e.1, e.2.blockId), m.ledger.owner e.1 = some e.2 := by
            intro e mem
            obtain ⟨old, inEvicted, rfl⟩ := mem_map.mp mem
            rw [owner_eq, (evicts.idle old inEvicted).1, Option.map_some]
          have exact' : evictedState.ledger.Exact := by
            rw [released]
            exact exact_.releaseAll owned (by rw [map_map]; exact evicts.distinct)
          rw [granted]
          refine exact'.grantAll (fun key mem => ?_) nodup
          rw [owner_eq, missing key mem, Option.map_none]

theorem prepareStore_none (done : m.prepareStore ks = .ok (none, m')) : m' = m := by
  unfold prepareStore at done
  split at done
  · cases done
  · split at done
    · cases done
      rfl
    · obtain ⟨allocated, -, done⟩ := bind_ok done
      split at done
      · cases done
      · cases done

def setRefCnt (m : CPUOffloadingManager K) (key : K) (refCnt : Int) : CPUOffloadingManager K :=
  { m with policy := m.policy.setRefCnt key refCnt }

section
variable (m : CPUOffloadingManager K)

theorem get_setRefCnt (key k : K) (refCnt : Int) : (m.setRefCnt key refCnt).get k =
    if k = key then (m.get k).map fun b => { b with refCnt := cInt32 refCnt } else m.get k :=
  CachePolicy.get_setRefCnt m.policy key k refCnt

theorem ledger_setRefCnt (key : K) (refCnt : Int) : (m.setRefCnt key refCnt).ledger = m.ledger := by
  have owners : (fun k => ((m.setRefCnt key refCnt).get k).map blockId) =
      fun k => (m.get k).map blockId := by
    funext k
    rw [get_setRefCnt]
    split
    · rw [Option.map_map]
      rfl
    · rfl
  exact congrArg (Ledger.mk m.numBlocks m.numAllocatedBlocks m.freeList) owners

theorem ledger_touch (ks : List K) : (m.touch ks).ledger = m.ledger := by
  have owners : (fun k => ((m.touch ks).get k).map blockId) = fun k => (m.get k).map blockId :=
    funext fun k => congrArg _ (CachePolicy.get_touch m.policy ks k)
  exact congrArg (Ledger.mk m.numBlocks m.numAllocatedBlocks m.freeList) owners

end

end CPUOffloadingManager

structure Session (K : Type) where
  manager : CPUOffloadingManager K
  storing : Finset K
  loading : Multiset K

namespace Session

/-- One call, where only what was prepared is completed. -/
inductive Step : Session K → Call K → Session K → Prop
  | prepareStore {s : Session K} {keys : List K} {out : PrepareStoreOutput K} {m : CPUOffloadingManager K}
      (returned : s.manager.prepareStore keys = .ok (some out, m)) :
      Step s (.prepareStore keys) ⟨m, s.storing ∪ out.keysToStore.toFinset, s.loading⟩
  | refuseStore {s : Session K} {keys : List K} {m : CPUOffloadingManager K}
      (returned : s.manager.prepareStore keys = .ok (none, m)) : Step s (.prepareStore keys)
        ⟨m, s.storing, s.loading⟩
  | completeStore {s : Session K} {keys : List K} (success : Bool) (prepared : ∀ key ∈ keys, key ∈ s.storing) :
      Step s (.completeStore keys success)
        ⟨s.manager.completeStore keys success, s.storing \ keys.toFinset, s.loading⟩
  | prepareLoad {s : Session K} {keys : List K} {m : CPUOffloadingManager K} {blockIds : List Nat}
      (returned : s.manager.prepareLoad keys = .ok (m, blockIds)) :
      Step s (.prepareLoad keys) ⟨m, s.storing, s.loading + keys⟩
  | completeLoad {s : Session K} {keys : List K} {m : CPUOffloadingManager K}
      (prepared : (keys : Multiset K) ≤ s.loading)
      (returned : s.manager.completeLoad keys = .ok m) : Step s (.completeLoad keys) ⟨m, s.storing,
        s.loading - keys⟩
  | touch {s : Session K} (keys : List K) : Step s (.touch keys) ⟨s.manager.touch keys, s.storing, s.loading⟩

/-- The sessions after any sequence of allowed calls. -/
inductive Reachable (allowed : Call K → Prop) (numBlocks : Nat) (cachePolicy : CachePolicyName)
    (enableEvents : Bool) : Session K → Prop
  | new : Reachable allowed numBlocks cachePolicy enableEvents ⟨.new numBlocks cachePolicy enableEvents, ∅, 0⟩
  | step {s s' : Session K} {call : Call K} (before : Reachable allowed numBlocks cachePolicy enableEvents s)
      (permitted : allowed call) (next : Step s call s') :
        Reachable allowed numBlocks cachePolicy enableEvents s'

/-- Where a block that is in use stands: its reference count covers the loads, or has wrapped
around. -/
structure Inv (s : Session K) : Prop where
  sound : s.manager.policy.Sound
  exact_ : s.manager.ledger.Exact
  refCnt_lt : ∀ {key block}, s.manager.get key = some block → block.refCnt < 2 ^ 31
  stored : ∀ key ∈ s.storing, ∃ block, s.manager.get key = some block ∧ block.refCnt = -1
  loaded : ∀ key ∈ s.loading, ∃ block, s.manager.get key = some block ∧
    (s.loading.count key ≤ block.refCnt ∨ block.refCnt = -2 ^ 31)

variable {s s' : Session K} {keys ks : List K}

variable {key : K} {block b : BlockStatus}

theorem Inv.ne_of_stored (inv : s.Inv) {k : K} (found : s.manager.get key = some b)
    (ready : 0 ≤ b.refCnt) (mem : k ∈ s.storing) : k ≠ key := by
  rintro rfl
  obtain ⟨stored, same, notReady⟩ := inv.stored k mem
  cases found.symm.trans same
  omega

theorem Inv.busy (inv : s.Inv) (busy : key ∈ s.storing ∨ key ∈ s.loading) :
    ∃ b, s.manager.get key = some b ∧ b.refCnt ≠ 0 := by
  rcases busy with storing | loading
  · obtain ⟨b, found, notReady⟩ := inv.stored key storing
    exact ⟨b, found, by omega⟩
  · obtain ⟨b, found, counted⟩ := inv.loaded key loading
    have positive := Multiset.count_pos.mpr loading
    exact ⟨b, found, by omega⟩

variable {m : CPUOffloadingManager K}

theorem kept_of_prepared
    (prepared : s.manager.Prepared m ks out) (found : s.manager.get key = some block)
    (used : block.refCnt ≠ 0) : m.get key = some block := by
  have known : key ∉ out.keysToStore := by
    rw [prepared.toStore, mem_keysToStore, found]
    simp
  have notEvicted : key ∉ out.evictedKeys := by
    intro evicted
    obtain ⟨other, same, idle⟩ := prepared.idle key evicted
    rw [found] at same
    cases same
    exact used idle
  rw [prepared.kept key known, if_neg notEvicted, found]

theorem Inv.prepareStore (inv : s.Inv) (nodup : ks.Nodup)
    (returned : s.manager.prepareStore ks = .ok (some out, m)) :
    Inv ⟨m, s.storing ∪ out.keysToStore.toFinset, s.loading⟩ := by
  have prepared := prepareStore_some inv.sound returned
  have distinct' : out.keysToStore.Nodup := by
    rw [prepared.toStore]
    exact nodup.filter _
  refine ⟨prepared.sound, prepared.exact_ distinct' inv.exact_, ?_, ?_, ?_⟩
  · intro key b found
    by_cases new : key ∈ out.keysToStore
    · obtain ⟨id, same⟩ := prepared.new key new
      rw [show m.get key = some b from found] at same
      cases same
      exact (by decide : (-1 : Int) < 2 ^ 31)
    · rw [prepared.kept key new] at found
      split at found
      · cases found
      · exact inv.refCnt_lt found
  · intro key mem
    rcases Finset.mem_union.mp mem with before | new
    · obtain ⟨b, found, notReady⟩ := inv.stored key before
      exact ⟨b, kept_of_prepared prepared found (by omega), notReady⟩
    · obtain ⟨id, stored⟩ := prepared.new key (mem_toFinset.mp new)
      exact ⟨_, stored, rfl⟩
  · intro key mem
    obtain ⟨b, found, counted⟩ := inv.loaded key mem
    have positive : 0 < s.loading.count key := Multiset.count_pos.mpr mem
    exact ⟨b, kept_of_prepared prepared found (by omega), counted⟩

theorem Inv.touch (inv : s.Inv) (ks : List K) : Inv ⟨s.manager.touch ks, s.storing, s.loading⟩ := by
  have same : ∀ key, (s.manager.touch ks).get key = s.manager.get key :=
    CachePolicy.get_touch s.manager.policy ks
  refine ⟨inv.sound.touch ks, ?_, ?_, ?_, ?_⟩
  · rw [ledger_touch]
    exact inv.exact_
  · intro key b found
    exact inv.refCnt_lt ((same key).symm.trans found)
  · intro key mem
    rw [same key]
    exact inv.stored key mem
  · intro key mem
    rw [same key]
    exact inv.loaded key mem

theorem cInt32_of_lt {r : Int} (low : -2 ^ 31 ≤ r) (high : r < 2 ^ 31) : cInt32 r = r := by
  unfold cInt32
  rw [Int.bmod_eq_of_le] <;> omega

theorem Inv.setRefCnt (inv : s.Inv) (found : s.manager.get key = some block) {refCnt : Int}
    (small : cInt32 refCnt < 2 ^ 31) {storing : Finset K} {loading : Multiset K}
    (stores : ∀ k ∈ storing, k ∈ s.storing ∧ k ≠ key) (loads : ∀ k ≠ key, loading.count k = s.loading.count k)
    (here : key ∈ loading → loading.count key ≤ cInt32 refCnt ∨ cInt32 refCnt = -2 ^ 31) :
    Inv ⟨s.manager.setRefCnt key refCnt, storing, loading⟩ := by
  have other : ∀ {k}, k ≠ key → (s.manager.setRefCnt key refCnt).get k = s.manager.get k := by
    intro k ne
    rw [get_setRefCnt, if_neg ne]
  have now : (s.manager.setRefCnt key refCnt).get key = some { block with refCnt := cInt32 refCnt } := by
    rw [get_setRefCnt, if_pos rfl, found, Option.map_some]
  refine ⟨inv.sound.setRefCnt key refCnt, ?_, ?_, ?_, ?_⟩
  · rw [ledger_setRefCnt]
    exact inv.exact_
  · intro k b stored
    by_cases same : k = key
    · subst same
      rw [now] at stored
      cases stored
      exact small
    · exact inv.refCnt_lt ((other same).symm.trans stored)
  · intro k mem
    rw [other (stores k mem).2]
    exact inv.stored k (stores k mem).1
  · intro k mem
    by_cases same : k = key
    · subst same
      exact ⟨_, now, here mem⟩
    · rw [other same, loads k same]
      refine inv.loaded k ?_
      rw [← Multiset.count_pos, ← loads k same]
      exact Multiset.count_pos.mpr mem

variable {ids ids' : List Nat}

theorem Inv.loadKey (inv : s.Inv) (returned : loadKey (s.manager, ids) key = .ok (m, ids')) :
    Inv ⟨m, s.storing, key ::ₘ s.loading⟩ ∧ m.ledger = s.manager.ledger := by
  unfold CPUOffloadingManager.loadKey at returned
  split at returned
  · cases returned
  next b found =>
    split at returned
    next ready =>
      cases returned
      refine ⟨?_, ledger_setRefCnt _ _ _⟩
      have low : 0 ≤ b.refCnt := of_decide_eq_true ready
      have high := inv.refCnt_lt found
      have next : (b.refCnt + 1 < 2 ^ 31 ∧ cInt32 (b.refCnt + 1) = b.refCnt + 1) ∨
          cInt32 (b.refCnt + 1) = -2 ^ 31 := by
        rcases Int.lt_or_le (b.refCnt + 1) (2 ^ 31) with fits | wraps
        · exact .inl ⟨fits, cInt32_of_lt (by omega) fits⟩
        · rw [show b.refCnt + 1 = 2 ^ 31 by omega]
          exact .inr (by decide)
      refine inv.setRefCnt found (by omega) ?_ ?_ ?_
      · exact fun k mem => ⟨mem, inv.ne_of_stored found (by omega) mem⟩
      · intro k ne
        exact Multiset.count_cons_of_ne ne _
      intro _
      rw [Multiset.count_cons_self]
      by_cases before : key ∈ s.loading
      · obtain ⟨stored, same, counted⟩ := inv.loaded key before
        rw [show s.manager.get key = some b from found] at same
        cases same
        omega
      · rw [Multiset.count_eq_zero_of_notMem before]
        omega
    · cases returned

theorem Inv.prepareLoad (inv : s.Inv)
    (returned : ks.foldlM CPUOffloadingManager.loadKey (s.manager, ids) = .ok (m, ids')) :
    Inv ⟨m, s.storing, s.loading + ks⟩ ∧ m.ledger = s.manager.ledger := by
  induction ks generalizing s ids with
  | nil =>
    cases returned
    rw [Multiset.coe_nil, Multiset.add_zero]
    exact ⟨inv, rfl⟩
  | cons key rest ih =>
    obtain ⟨⟨next, ids⟩, first, rest_returned⟩ := bind_ok returned
    obtain ⟨inv', same⟩ := inv.loadKey first
    obtain ⟨inv'', same'⟩ := ih (s := ⟨next, s.storing, key ::ₘ s.loading⟩) inv' rest_returned
    rw [← Multiset.cons_coe, Multiset.add_cons, ← Multiset.cons_add]
    exact ⟨inv'', same'.trans same⟩

theorem Inv.unloadKey (inv : s.Inv) (loading : key ∈ s.loading)
    (returned : s.manager.unloadKey key = .ok m) : Inv ⟨m, s.storing, s.loading.erase key⟩ ∧
      m.ledger = s.manager.ledger := by
  unfold CPUOffloadingManager.unloadKey at returned
  split at returned
  · cases returned
  next b found =>
    split at returned
    next positive =>
      cases returned
      refine ⟨?_, ledger_setRefCnt _ _ _⟩
      have high := inv.refCnt_lt found
      have next : cInt32 (b.refCnt - 1) = b.refCnt - 1 := cInt32_of_lt (by omega) (by omega)
      refine inv.setRefCnt found (by omega) ?_ ?_ ?_
      · exact fun k mem => ⟨mem, inv.ne_of_stored found (by omega) mem⟩
      · intro k ne
        exact Multiset.count_erase_of_ne ne _
      · intro _
        obtain ⟨stored, same, counted⟩ := inv.loaded key loading
        rw [show s.manager.get key = some b from found] at same
        cases same
        rw [Multiset.count_erase_self]
        omega
    · cases returned

theorem Inv.completeLoad (inv : s.Inv) (prepared : (ks : Multiset K) ≤ s.loading)
    (returned : s.manager.completeLoad ks = .ok m) : Inv ⟨m, s.storing, s.loading - ks⟩ ∧
      m.ledger = s.manager.ledger := by
  induction ks generalizing s with
  | nil =>
    cases returned
    rw [Multiset.coe_nil, Multiset.sub_zero]
    exact ⟨inv, rfl⟩
  | cons key rest ih =>
    obtain ⟨next, first, rest_returned⟩ := bind_ok returned
    rw [← Multiset.cons_coe] at prepared
    have loading : key ∈ s.loading := Multiset.mem_of_le prepared (Multiset.mem_cons_self _ _)
    obtain ⟨inv', same⟩ := inv.unloadKey loading first
    have later : (rest : Multiset K) ≤ s.loading.erase key := by
      rw [← Multiset.erase_cons_head key (rest : Multiset K)]
      exact Multiset.erase_le_erase key prepared
    obtain ⟨inv'', same'⟩ := ih (s := ⟨next, s.storing, s.loading.erase key⟩) inv' later rest_returned
    rw [← Multiset.cons_coe, Multiset.sub_cons]
    exact ⟨inv'', same'.trans same⟩

def Settled (m : CPUOffloadingManager K) (key : K) : Prop := ∀ block, m.get key = some block →
    block.isReady = true

def finish (success : Bool) (m : CPUOffloadingManager K) (key : K) : CPUOffloadingManager K :=
  if success then (storeKey (m, []) key).1 else m.dropKey key

theorem finish_settled (success : Bool) (settled : Settled m key) : finish success m key = m := by
  unfold finish storeKey dropKey
  cases found : m.policy.get key with
  | none => simp
  | some b => simp [settled b found]

theorem foldl_storeKey (ks : List K) (s : CPUOffloadingManager K × List K) :
    (ks.foldl storeKey s).1 = ks.foldl (finish true) s.1 := by
  induction ks generalizing s with
  | nil => rfl
  | cons key rest ih =>
    have first : (storeKey s key).1 = finish true s.1 key := by
      unfold finish storeKey
      cases s.1.policy.get key with
      | none => rfl
      | some b => cases ready : b.isReady <;> simp [ready]
    rw [foldl_cons, foldl_cons, ih, first]

theorem completeStore_eq (m : CPUOffloadingManager K) (ks : List K) (success : Bool) :
    ∃ events, m.completeStore ks success = { ks.foldl (finish success) m with events } := by
  unfold completeStore
  cases success with
  | true =>
    obtain ⟨events, same⟩ := addEvent_eq (ks.foldl storeKey (m, [])).1
      (ks.foldl storeKey (m, [])).2 false
    refine ⟨events, ?_⟩
    simpa only [↓reduceIte, foldl_storeKey] using same
  | false => exact ⟨_, rfl⟩

theorem finish_true (found : m.get key = some b)
    (notReady : b.refCnt = -1) : finish true m key = m.setRefCnt key 0 := by
  have ready : b.isReady = false := by simp [isReady, notReady]
  unfold finish storeKey
  simp only [↓reduceIte, show m.policy.get key = some b from found, ready, Bool.false_eq_true]
  rfl

section
variable (m : CPUOffloadingManager K)

theorem ledger_finish (key : K) : (finish true m key).ledger = m.ledger := by
  unfold finish storeKey
  cases m.policy.get key with
  | none => rfl
  | some b =>
    cases ready : b.isReady with
    | true => simp [ready]
    | false =>
      simp only [↓reduceIte, ready, Bool.false_eq_true]
      exact m.ledger_setRefCnt key 0

theorem ledger_finishAll (ks : List K) : (ks.foldl (finish true) m).ledger = m.ledger := by
  induction ks generalizing m with
  | nil => rfl
  | cons key rest ih => rw [foldl_cons, ih, ledger_finish]

theorem ledger_completeStore (ks : List K) : (m.completeStore ks true).ledger = m.ledger := by
  obtain ⟨events, same⟩ := completeStore_eq m ks true
  rw [same]
  exact ledger_finishAll m ks

end

theorem finish_false (found : m.get key = some b) (notReady : b.refCnt = -1) : finish false m key =
      { m with policy := m.policy.remove key, freeList := m.freeList ++ [b.blockId] } := by
  have ready : b.isReady = false := by simp [isReady, notReady]
  unfold finish dropKey
  simp only [show m.policy.get key = some b from found, ready, Bool.false_eq_true, ↓reduceIte]

theorem Inv.finish (inv : s.Inv) (storing : key ∈ s.storing) (success : Bool) :
    Inv ⟨finish success s.manager key, s.storing.erase key, s.loading⟩ ∧
      Settled (finish success s.manager key) key ∧
      ∀ k, k ≠ key → (finish success s.manager key).get k = s.manager.get k := by
  obtain ⟨block, found, notReady⟩ := inv.stored key storing
  have notLoading : key ∉ s.loading := by
    intro loading
    obtain ⟨other, same, counted⟩ := inv.loaded key loading
    rw [found] at same
    cases same
    omega
  have remaining : ∀ k ∈ s.storing.erase key, k ∈ s.storing ∧ k ≠ key := fun k mem =>
    ⟨Finset.mem_of_mem_erase mem, Finset.ne_of_mem_erase mem⟩
  cases success with
  | true =>
    rw [finish_true found notReady]
    refine ⟨inv.setRefCnt found (by decide) remaining (fun _ _ => rfl) (absurd · notLoading), ?_, ?_⟩
    · intro other stored
      rw [get_setRefCnt, if_pos rfl, found, Option.map_some] at stored
      cases stored
      rfl
    · intro k ne
      rw [get_setRefCnt, if_neg ne]
  | false =>
    rw [finish_false found notReady]
    have gets : ∀ k, (s.manager.policy.remove key).get k = if k = key then none else s.manager.get k :=
      CachePolicy.get_remove inv.sound key
    refine ⟨⟨inv.sound.remove key, ?_, ?_, ?_, ?_⟩, ?_, ?_⟩
    · have owned : s.manager.ledger.owner key = some block.blockId := by
        rw [owner_eq, found, Option.map_some]
      have released : ledger { s.manager with
          policy := s.manager.policy.remove key, freeList := s.manager.freeList ++ [block.blockId] } =
            s.manager.ledger.release key block.blockId := by
        have owners : (fun k => ((s.manager.policy.remove key).get k).map blockId) =
            update s.manager.ledger.owner key none := by
          funext k
          rw [gets, update_apply]
          split <;> rfl
        exact congrArg (Ledger.mk _ _ _) owners
      rw [released]
      exact inv.exact_.release owned
    · intro k b stored
      rw [CPUOffloadingManager.get, gets] at stored
      split at stored
      · cases stored
      · exact inv.refCnt_lt stored
    · intro k mem
      rw [CPUOffloadingManager.get, gets, if_neg (remaining k mem).2]
      exact inv.stored k (remaining k mem).1
    · intro k mem
      rw [CPUOffloadingManager.get, gets, if_neg (ne_of_mem_of_not_mem mem notLoading)]
      exact inv.loaded k mem
    · intro other stored
      rw [CPUOffloadingManager.get, gets, if_pos rfl] at stored
      cases stored
    · intro k ne
      rw [CPUOffloadingManager.get, gets, if_neg ne]

theorem Inv.finishAll (inv : s.Inv) (success : Bool)
    (prepared : ∀ key ∈ ks, key ∈ s.storing ∨ Settled s.manager key) :
    Inv ⟨ks.foldl (Session.finish success) s.manager, s.storing \ ks.toFinset, s.loading⟩ ∧
      ∀ k ∉ ks, (ks.foldl (Session.finish success) s.manager).get k = s.manager.get k := by
  induction ks generalizing s with
  | nil =>
    rw [toFinset_nil, Finset.sdiff_empty]
    exact ⟨inv, fun _ _ => rfl⟩
  | cons key rest ih =>
    have others : ∀ k ∉ key :: rest, k ≠ key ∧ k ∉ rest := fun k absent => not_or.mp (absent ∘ mem_cons.mpr)
    rw [foldl_cons, toFinset_cons, Finset.sdiff_insert]
    by_cases storing : key ∈ s.storing
    · obtain ⟨inv', settled, same⟩ := inv.finish storing success
      have prepared' : ∀ k ∈ rest, k ∈ s.storing.erase key ∨
          Settled (Session.finish success s.manager key) k := by
        intro k mem
        by_cases here : k = key
        · exact .inr (here ▸ settled)
        · rcases prepared k (mem_cons_of_mem _ mem) with before | before
          · exact .inl (Finset.mem_erase.mpr ⟨here, before⟩)
          · exact .inr fun b stored => before b ((same k here).symm.trans stored)
      obtain ⟨inv'', same'⟩ := ih (s := ⟨_, _, _⟩) inv' prepared'
      rw [← Finset.erase_sdiff_comm]
      exact ⟨inv'', fun k absent => (same' k (others k absent).2).trans (same k (others k absent).1)⟩
    · have settled := (prepared key mem_cons_self).resolve_left storing
      rw [finish_settled success settled, Finset.erase_eq_of_notMem fun mem =>
        storing (Finset.mem_sdiff.mp mem).1]
      obtain ⟨inv', same⟩ := ih inv fun k mem => prepared k (mem_cons_of_mem _ mem)
      exact ⟨inv', fun k absent => same k (others k absent).2⟩

theorem Inv.completeStore (inv : s.Inv) (success : Bool) (prepared : ∀ key ∈ ks, key ∈ s.storing) :
    Inv ⟨s.manager.completeStore ks success, s.storing \ ks.toFinset, s.loading⟩ ∧
      ∀ k ∉ ks, (s.manager.completeStore ks success).get k = s.manager.get k := by
  obtain ⟨events, same⟩ := completeStore_eq s.manager ks success
  obtain ⟨inv', others⟩ := inv.finishAll success fun key mem => .inl (prepared key mem)
  rw [same]
  exact ⟨⟨inv'.sound, inv'.exact_, inv'.refCnt_lt, inv'.stored, inv'.loaded⟩, others⟩

def Distinct : Call K → Prop
  | .prepareStore keys => keys.Nodup
  | _ => True

def Abandons (key : K) : Call K → Prop
  | .completeStore keys false => key ∈ keys
  | _ => False

variable {call : Call K}

theorem Inv.step (inv : s.Inv) (nodup : Distinct call) (next : Step s call s') : s'.Inv := by
  cases next with
  | prepareStore returned => exact inv.prepareStore nodup returned
  | refuseStore returned =>
    rwa [prepareStore_none returned]
  | completeStore success prepared => exact (inv.completeStore success prepared).1
  | prepareLoad returned => exact (inv.prepareLoad returned).1
  | completeLoad prepared returned => exact (inv.completeLoad prepared returned).1
  | touch ks => exact inv.touch ks

theorem Inv.owner_step (inv : s.Inv) (next : Step s call s')
    (busy : key ∈ s.storing ∨ key ∈ s.loading) (kept : ¬ Abandons key call) :
    s'.manager.ledger.owner key = s.manager.ledger.owner key := by
  cases next with
  | prepareStore returned =>
    obtain ⟨b, found, used⟩ := inv.busy busy
    have prepared := prepareStore_some inv.sound returned
    rw [owner_eq, owner_eq, found, kept_of_prepared prepared found used]
  | refuseStore returned => rw [prepareStore_none returned]
  | completeStore success prepared =>
    cases success with
    | true => rw [ledger_completeStore]
    | false => rw [owner_eq, owner_eq, (inv.completeStore false prepared).2 key kept]
  | prepareLoad returned => rw [(inv.prepareLoad returned).2]
  | completeLoad prepared returned => rw [(inv.completeLoad prepared returned).2]
  | touch ks => rw [ledger_touch]

theorem Reachable.inv {count : Nat} {cachePolicy : CachePolicyName} {enableEvents : Bool}
    (reachable : Reachable Distinct count cachePolicy enableEvents s) : s.Inv := by
  induction reachable with
  | new =>
    have nothing : ∀ key : K, (CPUOffloadingManager.new count cachePolicy enableEvents).get key = none :=
      CachePolicy.get_new count cachePolicy
    refine ⟨CachePolicy.sound_new count cachePolicy, ?_, ?_, nofun, nofun⟩
    · have empty : (CPUOffloadingManager.new count cachePolicy enableEvents : CPUOffloadingManager K).ledger =
          ⟨count, 0, [], fun _ => none⟩ :=
        congrArg (Ledger.mk count 0 []) (funext fun key => congrArg (Option.map blockId) (nothing key))
      rw [empty]
      exact exact_empty count
    · intro key b found
      rw [nothing] at found
      cases found
  | step before permitted next ih => exact ih.step permitted next

/-- The block is in one of three places: never allocated, in the free list, owned by one key. -/
def InOnePlace (m : CPUOffloadingManager K) (id : Nat) : Prop :=
  (m.numAllocatedBlocks ≤ id ∧ id ∉ m.freeList ∧ ∀ key block, m.get key = some block → block.blockId ≠ id) ∨
  (id < m.numAllocatedBlocks ∧ m.freeList.count id = 1 ∧ ∀ key block, m.get key = some block →
    block.blockId ≠ id) ∨
  (id < m.numAllocatedBlocks ∧ id ∉ m.freeList ∧ ∃ key block, m.get key = some block ∧ block.blockId = id ∧
    ∀ key' block', m.get key' = some block' → block'.blockId = id → key' = key)

/-- The blocks are accounted for, blocks in use are kept, and the lists of ARC are disjoint and
bounded. -/
structure Accounted (s : Session K) : Prop where
  placed : ∀ id < s.manager.numBlocks, InOnePlace s.manager id
  kept : ∀ {call s'}, Step s call s' → Distinct call → ∀ {key}, key ∈ s.storing ∨ key ∈ s.loading →
    ¬ Abandons key call →
    ∃ block block', s.manager.get key = some block ∧ s'.manager.get key = some block' ∧
      block'.blockId = block.blockId ∧
      ∀ key' other, s'.manager.get key' = some other → other.blockId = block.blockId → key' = key
  lists : ∀ {p}, s.manager.policy = .arc p → [p.t1.keys, p.t2.keys, p.b1.keys,
    p.b2.keys].Pairwise List.Disjoint ∧ p.b1.size ≤ p.cacheCapacity ∧ p.b2.size ≤ p.cacheCapacity

theorem Inv.placed (inv : s.Inv) (id : Nat) : InOnePlace s.manager id := by
  have owns : ∀ {key}, s.manager.ledger.owner key = some id ↔
      ∃ b, s.manager.get key = some b ∧ b.blockId = id := Option.map_eq_some_iff
  rcases inv.exact_.exactly_one id with ⟨unused, notFree, unowned⟩ | ⟨used, free, unowned⟩ | ⟨used,
    notFree, key, owned, only⟩
  · exact .inl ⟨unused, notFree, fun key b found same => unowned key (owns.mpr ⟨b, found, same⟩)⟩
  · exact .inr (.inl ⟨used, free, fun key b found same => unowned key (owns.mpr ⟨b, found, same⟩)⟩)
  · obtain ⟨b, found, same⟩ := owns.mp owned
    exact .inr (.inr ⟨used, notFree, key, b, found, same,
      fun key' block' found' same' => only key' (owns.mpr ⟨block', found', same'⟩)⟩)

theorem Inv.lists {p : ARCCachePolicy K} (inv : s.Inv) (policy : s.manager.policy = .arc p) :
    [p.t1.keys, p.t2.keys, p.b1.keys, p.b2.keys].Pairwise List.Disjoint ∧
      p.b1.size ≤ p.cacheCapacity ∧ p.b2.size ≤ p.cacheCapacity := by
  have sound := inv.sound
  rw [policy] at sound
  obtain ⟨apart, bounded⟩ := sound
  refine ⟨?_, bounded⟩
  simp only [pairwise_cons, mem_cons, not_mem_nil, or_false, forall_eq_or_imp, forall_eq,
    List.Pairwise.nil, and_true, false_implies, implies_true, List.Disjoint, ← AList.mem_keys]
  exact ⟨⟨fun k first => ((apart k).1 first).1, fun k first => ((apart k).1 first).2.1,
    fun k first => ((apart k).1 first).2.2⟩,
    ⟨fun k second => ((apart k).2.1 second).1, fun k second => ((apart k).2.1 second).2⟩,
      fun k ghost => (apart k).2.2 ghost⟩

/-- After any calls with distinct keys in every store, the blocks are accounted for. -/
theorem accounted_of_distinct {numBlocks : Nat} {cachePolicy : CachePolicyName} {enableEvents : Bool}
    (reachable : Reachable Distinct numBlocks cachePolicy enableEvents s) : s.Accounted := by
  have inv := reachable.inv
  refine ⟨fun id _ => inv.placed id, ?_, inv.lists⟩
  intro call s' next distinct key busy kept
  have inv' := inv.step distinct next
  obtain ⟨block, found, -⟩ := inv.busy busy
  have same : (s'.manager.get key).map blockId = some block.blockId := by
    rw [← owner_eq, inv.owner_step next busy kept, owner_eq, found, Option.map_some]
  obtain ⟨block', found', sameId⟩ := Option.map_eq_some_iff.mp same
  refine ⟨block, block', found, found', sameId, fun key' other found'' sameId' => ?_⟩
  refine inv'.exact_.owner_unique (n := block.blockId) ?_ same
  exact Option.map_eq_some_iff.mpr ⟨other, found'', sameId'⟩

/-- Two blocks, of which the first was evicted for a third one that is being stored. -/
def oneEvicted : CPUOffloadingManager Nat :=
  ⟨2, 2, [], none, .arc ⟨id, 2, 0, .insert 9 (.new 0) (.singleton 8 ⟨0, 1⟩), ∅, .singleton 7 (), ∅⟩⟩

theorem oneEvicted_reachable : Reachable Distinct 2 (.arc id) false ⟨oneEvicted, {9}, 0⟩ := by
  have stores : ∀ {keys : List Nat}, keys.Nodup → Distinct (.prepareStore keys) := id
  have first : Reachable Distinct 2 (.arc id) false _ :=
    .step .new (stores (by decide)) (@Step.prepareStore Nat _ _ [7, 8] ⟨[7, 8], [0, 1], []⟩ _ rfl)
  have completes : Distinct (.completeStore [7, 8] true) := trivial
  have second := first.step completes (@Step.completeStore Nat _ _ [7, 8] true (by decide))
  exact second.step (stores (nodup_singleton 9)) (@Step.prepareStore Nat _ _ [9] ⟨[9], [0],
    [7]⟩ oneEvicted rfl)

theorem oneEvicted_accounted : Accounted ⟨oneEvicted, {9}, 0⟩ ∧
    Reachable Distinct 2 (.arc id) false ⟨oneEvicted, {9}, 0⟩ :=
  ⟨accounted_of_distinct oneEvicted_reachable, oneEvicted_reachable⟩

def leaked : CPUOffloadingManager Nat := ⟨2, 2, [], none, .lru ⟨.singleton 7 (.new 1)⟩⟩

theorem leaked_of_repeated_key : Reachable (fun _ => True) 2 .lru false ⟨leaked, {7}, 0⟩ ∧
    ¬ Accounted ⟨leaked, {7}, 0⟩ := by
  refine ⟨.step .new trivial (@Step.prepareStore _ _ ⟨.new 2 .lru false, ∅, 0⟩ [7, 7] ⟨[7, 7],
    [0, 1], []⟩ leaked rfl), fun accounted => ?_⟩
  rcases accounted.placed 0 (by decide) with ⟨unused, -⟩ | ⟨-, free, -⟩ | ⟨-, -, key, block, found, same, -⟩
  · cases unused
  · cases free
  have only : (key, block) ∈ [(7, BlockStatus.new 1)] := OrderedDict.mem_items.mpr found
  cases mem_singleton.mp only
  cases same

end Session

end TurboQuant.Offload
