import Mathlib.Tactic.NormNum
import TurboQuant.Offload.Ownership

/-!
When the CPU offloading manager refuses a store.
-/

namespace TurboQuant.Offload
open Outcome

variable {K : Type} [DecidableEq K] {n : Nat}

namespace CachePolicy

def idleBlocks : CachePolicy K → List K → Nat
  | .lru p, keys => evictableCount p.blocks keys
  | .arc p, keys => evictableCount p.t1 keys + evictableCount p.t2 keys

def evictionLimit : CachePolicy K → List K → Nat
  | .lru p, keys => evictableCount p.blocks keys
  | .arc p, keys => p.evictionLimit keys

variable {p : CachePolicy K} {ks : List K}

theorem evict_none (sound : p.Sound) :
    p.evict n ks = none ↔ p.evictionLimit ks < n := by
  cases p with
  | lru p => exact Option.map_eq_none_iff.trans LRUCachePolicy.evict_none
  | arc p => exact Option.map_eq_none_iff.trans (ARCCachePolicy.evict_none sound.1)

/-- The evictions do not need a block of `t1` that is below the target. -/
def SparesT1 : CachePolicy K → List K → Nat → Prop
  | .lru _, _, _ => True
  | .arc p, keys, n =>
    evictableCount p.t1 keys ≤ p.t1.size + 1 - p.intTarget ∨
      n ≤ p.t1.size + 1 - p.intTarget + evictableCount p.t2 keys ∨
        evictableCount p.t1 keys + evictableCount p.t2 keys < n

theorem limit_iff_idle :
    (p.evictionLimit ks < n → p.idleBlocks ks < n) ↔ p.SparesT1 ks n := by
  cases p with
  | lru p => exact iff_true_intro id
  | arc p =>
    unfold SparesT1 evictionLimit idleBlocks ARCCachePolicy.evictionLimit
    simp only
    omega

end CachePolicy

namespace CPUOffloadingManager

variable {m m' : CPUOffloadingManager K} {keys ks : List K}

theorem evictBlocks_none : m.evictBlocks n ks = none ↔ 0 < n ∧ m.policy.evict n ks = none := by
  unfold evictBlocks
  split
  next zero => simp [zero]
  next positive =>
    have positive' := Nat.pos_of_ne_zero positive
    split
    next found => simp [found]
    next refused => simp [refused, positive']

section
variable (m : CPUOffloadingManager K) (keys ks : List K)

theorem prepareStore_refuses : (∃ m', m.prepareStore ks = .ok (none, m')) ↔
    m.evictBlocks ((m.keysToStore ks).length - m.getNumFreeBlocks) ks = none := by
  constructor
  · rintro ⟨m', done⟩
    unfold prepareStore at done
    split at done
    · cases done
    · split at done
      next refused => exact refused
      · obtain ⟨allocated, -, done⟩ := bind_ok done
        split at done
        · cases done
        · cases done
  · intro refused
    have positive := (evictBlocks_none.mp refused).1
    have some_ : (m.keysToStore ks).isEmpty = false := by
      rw [List.isEmpty_eq_false_iff, ← List.length_pos_iff]
      omega
    refine ⟨m, ?_⟩
    unfold prepareStore
    simp only [some_, refused, Bool.false_eq_true, ↓reduceIte]

/-- A store is refused only if it must be, and then nothing changes. -/
def RefusesOnlyIfFull : Prop :=
  ∀ m', m.prepareStore keys = .ok (none, m') →
    m.getNumFreeBlocks + m.policy.idleBlocks keys < (m.keysToStore keys).length ∧ m' = m

end

variable {key : K}

theorem loadKey_sound {s state' : CPUOffloadingManager K × List Nat} (sound : s.1.policy.Sound)
    (returned : loadKey s key = .ok state') : state'.1.policy.Sound := by
  unfold loadKey at returned
  split at returned
  · cases returned
  · split at returned
    · cases returned
      exact sound.setRefCnt _ _
    · cases returned

theorem unloadKey_sound (sound : m.policy.Sound) (returned : m.unloadKey key = .ok m') : m'.policy.Sound := by
  unfold unloadKey at returned
  split at returned
  · cases returned
  · split at returned
    · cases returned
      exact sound.setRefCnt _ _
    · cases returned

theorem finish_sound (success : Bool) (sound : m.policy.Sound) :
    (Session.finish success m key).policy.Sound := by
  unfold Session.finish storeKey dropKey
  cases m.policy.get key with
  | none => simpa using sound
  | some block =>
    cases ready : block.isReady <;> cases success
    · simpa [ready] using sound.remove key
    · simpa [ready] using sound.setRefCnt key 0
    · simpa [ready] using sound
    · simpa [ready] using sound

theorem finishAll_sound (success : Bool) (ks : List K) (sound : m.policy.Sound) :
    (ks.foldl (Session.finish success) m).policy.Sound := by
  induction ks generalizing m with
  | nil => exact sound
  | cons key rest ih => exact ih (finish_sound success sound)

theorem completeStore_sound (ks : List K) (success : Bool) (sound : m.policy.Sound) :
    (m.completeStore ks success).policy.Sound := by
  obtain ⟨events, same⟩ := Session.completeStore_eq m ks success
  rw [same]
  exact finishAll_sound success ks sound

theorem Reachable.sound {count : Nat} {cachePolicy : CachePolicyName} {enableEvents : Bool}
    (reachable : Reachable count cachePolicy enableEvents m) : m.policy.Sound := by
  induction reachable with
  | new => exact CachePolicy.sound_new count cachePolicy
  | call before call returned sound =>
    cases call with
    | prepareStore ks =>
      obtain ⟨⟨out, next⟩, ran, same⟩ := map_ok returned
      cases same
      cases out with
      | some out => exact (prepareStore_some sound ran).sound
      | none => exact prepareStore_none ran ▸ sound
    | completeStore ks success =>
      cases returned
      exact completeStore_sound ks success sound
    | prepareLoad ks =>
      obtain ⟨⟨next, ids⟩, ran, same⟩ := map_ok returned
      cases same
      exact foldlM_invariant (fun s : CPUOffloadingManager K × List Nat => s.1.policy.Sound) ks
        (fun _ _ _ _ => loadKey_sound) sound ran
    | completeLoad ks =>
      obtain ⟨next, ran, same⟩ := map_ok returned
      cases same
      exact foldlM_invariant (fun m : CPUOffloadingManager K => m.policy.Sound) ks
        (fun _ _ _ _ => unloadKey_sound) sound ran
    | touch ks =>
      cases returned
      exact sound.touch ks

/-- In every reachable state a store is refused only if it must be, if and only if no block of `t1`
below the target is needed. -/
theorem refusesOnlyIfFull_iff {numBlocks : Nat} {cachePolicy : CachePolicyName} {enableEvents : Bool}
    (reachable : Reachable numBlocks cachePolicy enableEvents m) (keys : List K) :
    m.RefusesOnlyIfFull keys ↔ m.policy.SparesT1 keys ((m.keysToStore keys).length - m.getNumFreeBlocks) := by
  rw [← CachePolicy.limit_iff_idle, RefusesOnlyIfFull]
  have refuses := (m.prepareStore_refuses keys).trans evictBlocks_none
  rw [CachePolicy.evict_none reachable.sound] at refuses
  constructor
  · intro only limited
    obtain ⟨m', refused⟩ := refuses.mpr ⟨by omega, limited⟩
    have full := (only m' refused).1
    omega
  · intro enough m' refused
    have short := enough (refuses.mp ⟨m', refused⟩).2
    exact ⟨by omega, prepareStore_none refused⟩

def filled (target : Rat) : CPUOffloadingManager Nat :=
  ⟨2, 2, [], none, .arc ⟨id, 2, target, .insert 3 ⟨0, 0⟩ (.singleton 2 ⟨0, 1⟩), ∅, .singleton 1 (), ∅⟩⟩

theorem filled_reachable : Reachable 2 (.arc id) false (filled 0) :=
  have first := Reachable.new.call (.prepareStore [1, 2]) rfl
  have second := first.call (.completeStore [1, 2] true) rfl
  have third := second.call (.prepareStore [3]) rfl
  third.call (.completeStore [3] true) rfl

theorem touch_filled (target : Rat) : (filled target).touch [1] = filled (min (target + 1) 2) := by
  have touched : (filled target).touch [1] = filled
    (min (target + max 1 (((0 : Nat) : Rat) / ((1 : Nat) : Rat))) (2 : Nat)) := rfl
  rw [touched]
  norm_num

theorem filled_refusesOnlyIfFull : Reachable 2 (.arc id) false (filled 0) ∧
    (filled 0).RefusesOnlyIfFull [4, 5] :=
  ⟨filled_reachable, (refusesOnlyIfFull_iff filled_reachable [4, 5]).mpr (.inl (by decide))⟩

theorem grown_target_refuses : Reachable 2 (.arc id) false (filled 2) ∧ [4, 5].Nodup ∧
    ¬ (filled 2).RefusesOnlyIfFull [4, 5] := by
  have touched : Reachable 2 (.arc id) false (filled 1) := by
    have next := filled_reachable.call (.touch [1]) rfl
    rw [touch_filled] at next
    norm_num at next
    exact next
  refine ⟨?_, by decide, fun only => ?_⟩
  · have next := touched.call (.touch [1]) rfl
    rw [touch_filled] at next
    norm_num at next
    exact next
  · obtain ⟨full, -⟩ := only (filled 2) rfl
    exact absurd full (by decide)

end CPUOffloadingManager

end TurboQuant.Offload
