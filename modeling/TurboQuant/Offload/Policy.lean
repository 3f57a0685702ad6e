import Mathlib.Algebra.Order.Ring.Rat
import TurboQuant.Lib.OrderedDict

/-!
The cache policies of the CPU offloading manager, LRU and ARC.
-/

namespace TurboQuant.Offload
open OrderedDict List AList

/-- A value as it is read back from a `ctypes.c_int32` field. -/
def cInt32 (x : Int) : Int := x.bmod (2 ^ 32)

structure BlockStatus where
  /-- The loads that use the block, or -1 if the block is not ready. -/
  refCnt : Int
  blockId : Nat
deriving Repr, DecidableEq

namespace BlockStatus

def new (blockId : Nat) : BlockStatus := ⟨-1, blockId⟩

def isReady (block : BlockStatus) : Bool := 0 ≤ block.refCnt

end BlockStatus

variable {K : Type} [DecidableEq K]

def evictable (protectedKeys : List K) (entry : K × BlockStatus) : Bool := entry.2.refCnt = 0 ∧
    entry.1 ∉ protectedKeys

structure LRUCachePolicy (K : Type) where
  blocks : OrderedDict K BlockStatus

namespace LRUCachePolicy

section
variable (p : LRUCachePolicy K)

def get (key : K) : Option BlockStatus := p.blocks.lookup key

def insert (key : K) (block : BlockStatus) : LRUCachePolicy K := ⟨p.blocks.assign key block⟩

def remove (key : K) : LRUCachePolicy K := ⟨p.blocks.erase key⟩

def touchKey (key : K) : LRUCachePolicy K :=
  if key ∈ p.blocks then ⟨p.blocks.moveToEnd key⟩ else p

def touch (keys : List K) : LRUCachePolicy K := keys.reverse.foldl touchKey p

def setRefCnt (key : K) (refCnt : Int) : LRUCachePolicy K :=
  ⟨p.blocks.modify key fun block => { block with refCnt := cInt32 refCnt }⟩

def evict (n : Nat) (protectedKeys : List K) : Option (List (K × BlockStatus) × LRUCachePolicy K) :=
  if n = 0 then some ([], p)
  else
    let candidates := (p.blocks.items.filter (evictable protectedKeys)).take n
    if candidates.length < n then none
    else some (candidates, ⟨candidates.foldl (fun blocks candidate => blocks.erase candidate.1) p.blocks⟩)

end

end LRUCachePolicy

structure ARCCachePolicy (K : Type) where
  /-- The rounding of floating point operations. -/
  round : Rat → Rat
  cacheCapacity : Nat
  targetT1Size : Rat
  t1 : OrderedDict K BlockStatus
  t2 : OrderedDict K BlockStatus
  b1 : OrderedDict K Unit
  b2 : OrderedDict K Unit

namespace ARCCachePolicy

section
variable (p : ARCCachePolicy K)

def get (key : K) : Option BlockStatus := p.t1.lookup key <|> p.t2.lookup key

def insert (key : K) (block : BlockStatus) : ARCCachePolicy K :=
  { p with t1 := p.t1.assign key block, b1 := p.b1.erase key, b2 := p.b2.erase key }

def remove (key : K) : ARCCachePolicy K :=
  if key ∈ p.t1 then { p with t1 := p.t1.erase key } else { p with t2 := p.t2.erase key }

def touchKey (key : K) : ARCCachePolicy K :=
  match p.t1.lookup key with
  | some block =>
    -- A block that is being stored has not been used twice and stays in `t1`.
    if block.isReady then { p with t1 := p.t1.erase key, t2 := p.t2.assign key block }
    else { p with t1 := assign key block (p.t1.erase key) }
  | none =>
    if key ∈ p.t2 then { p with t2 := p.t2.moveToEnd key }
    else if key ∈ p.b1 then
      let delta := max 1 (p.round (p.b2.size / p.b1.size))
      { p with targetT1Size := min (p.round (p.targetT1Size + delta)) p.cacheCapacity, b1 :=
        p.b1.moveToEnd key }
    else if key ∈ p.b2 then
      let delta := max 1 (p.round (p.b1.size / p.b2.size))
      { p with targetT1Size := max (p.round (p.targetT1Size - delta)) 0, b2 := p.b2.moveToEnd key }
    else p

def touch (keys : List K) : ARCCachePolicy K := keys.reverse.foldl touchKey p

def setRefCnt (key : K) (refCnt : Int) : ARCCachePolicy K :=
  let set : BlockStatus → BlockStatus := fun block => { block with refCnt := cInt32 refCnt }
  if key ∈ p.t1 then { p with t1 := p.t1.modify key set } else { p with t2 := p.t2.modify key set }

/-- `int(self.target_t1_size)`, where a negative value passes the same comparisons as zero. -/
def intTarget : Nat := p.targetT1Size.floor.toNat

end

def selectable (protectedKeys alreadySelected : List K) (entry : K × BlockStatus) : Bool :=
  evictable protectedKeys entry ∧ entry.1 ∉ alreadySelected

/-- An entry to evict and whether it comes from `t1`. -/
def nextCandidate (p : ARCCachePolicy K) (protectedKeys alreadySelected : List K) (virtualT1Size : Nat) :
    Option ((K × BlockStatus) × Bool) :=
  match if p.intTarget ≤ virtualT1Size
    then p.t1.items.find? (selectable protectedKeys alreadySelected) else none with
  | some entry => some (entry, true)
  | none => (p.t2.items.find? (selectable protectedKeys alreadySelected)).map (·, false)

def collect (p : ARCCachePolicy K) (protectedKeys : List K) :
    Nat → List ((K × BlockStatus) × Bool) → Nat → Option (List ((K × BlockStatus) × Bool))
  | 0, candidates, _ => some candidates
  | n + 1, candidates, virtualT1Size =>
    match p.nextCandidate protectedKeys (candidates.map (·.1.1)) virtualT1Size with
    | some candidate =>
      collect p protectedKeys n (candidates ++ [candidate]) (if candidate.2 then virtualT1Size - 1
        else virtualT1Size)
    | none => none

section
variable (p : ARCCachePolicy K)

def applyEviction (candidate : (K × BlockStatus) × Bool) : ARCCachePolicy K :=
  if candidate.2 then { p with t1 := p.t1.erase candidate.1.1, b1 := p.b1.assign candidate.1.1 () }
  else { p with t2 := p.t2.erase candidate.1.1, b2 := p.b2.assign candidate.1.1 () }

def trim : ARCCachePolicy K :=
  { p with
    b1 := popOldest^[p.b1.size - p.cacheCapacity] p.b1
    b2 := popOldest^[p.b2.size - p.cacheCapacity] p.b2 }

def evict (n : Nat) (protectedKeys : List K) : Option (List (K × BlockStatus) × ARCCachePolicy K) :=
  if n = 0 then some ([], p)
  else
    match p.collect protectedKeys n [] p.t1.size with
    | some candidates => some (candidates.map (·.1), (candidates.foldl applyEviction p).trim)
    | none => none

end

end ARCCachePolicy

inductive CachePolicy (K : Type) where
  | lru (policy : LRUCachePolicy K)
  | arc (policy : ARCCachePolicy K)

inductive CachePolicyName where
  | lru
  | arc (round : Rat → Rat)

namespace CachePolicy

def new (cacheCapacity : Nat) : CachePolicyName → CachePolicy K
  | .lru => .lru ⟨∅⟩
  | .arc round => .arc ⟨round, cacheCapacity, 0, ∅, ∅, ∅, ∅⟩

def get (p : CachePolicy K) (key : K) : Option BlockStatus :=
  match p with
  | .lru p => p.get key
  | .arc p => p.get key

def insert (p : CachePolicy K) (key : K) (block : BlockStatus) : CachePolicy K :=
  match p with
  | .lru p => .lru (p.insert key block)
  | .arc p => .arc (p.insert key block)

def remove (p : CachePolicy K) (key : K) : CachePolicy K :=
  match p with
  | .lru p => .lru (p.remove key)
  | .arc p => .arc (p.remove key)

def touch (p : CachePolicy K) (keys : List K) : CachePolicy K :=
  match p with
  | .lru p => .lru (p.touch keys)
  | .arc p => .arc (p.touch keys)

def setRefCnt (p : CachePolicy K) (key : K) (refCnt : Int) : CachePolicy K :=
  match p with
  | .lru p => .lru (p.setRefCnt key refCnt)
  | .arc p => .arc (p.setRefCnt key refCnt)

def evict (p : CachePolicy K) (n : Nat) (protectedKeys : List K) :
    Option (List (K × BlockStatus) × CachePolicy K) :=
  match p with
  | .lru p => (p.evict n protectedKeys).map fun result => (result.1, .lru result.2)
  | .arc p => (p.evict n protectedKeys).map fun result => (result.1, .arc result.2)

end CachePolicy

/-- What an eviction of `n` blocks does to the stored blocks. -/
structure Evicts (before after : K → Option BlockStatus) (n : Nat) (protectedKeys : List K)
    (evicted : List (K × BlockStatus)) : Prop where
  length : evicted.length = n
  distinct : (evicted.map Prod.fst).Nodup
  idle : ∀ entry ∈ evicted, before entry.1 = some entry.2 ∧ entry.2.refCnt = 0 ∧ entry.1 ∉ protectedKeys
  stored : ∀ key, after key = if key ∈ evicted.map Prod.fst then none else before key

theorem Evicts.nothing (stored : K → Option BlockStatus) (kept : List K) : Evicts stored stored 0 kept [] :=
  ⟨rfl, nodup_nil, nofun, fun _ => (if_neg not_mem_nil).symm⟩

theorem evictable_iff {protectedKeys : List K} {e : K × BlockStatus} :
    evictable protectedKeys e = true ↔ e.2.refCnt = 0 ∧ e.1 ∉ protectedKeys := decide_eq_true_iff

def evictableCount (d : OrderedDict K BlockStatus) (protectedKeys : List K) : Nat :=
  (d.items.filter (evictable protectedKeys)).length

namespace LRUCachePolicy

theorem get_touchKey (p : LRUCachePolicy K) (key k : K) : (p.touchKey key).get k = p.get k := by
  unfold touchKey
  split
  · exact lookup_moveToEnd key k p.blocks
  · rfl

theorem get_touch (p : LRUCachePolicy K) (ks : List K) (k : K) : (p.touch ks).get k = p.get k := by
  unfold touch
  induction ks.reverse generalizing p with
  | nil => rfl
  | cons key rest ih => rw [foldl_cons, ih, get_touchKey]

variable {kept : List K}

theorem evict_some {p p' : LRUCachePolicy K} {n : Nat} {evicted : List (K × BlockStatus)}
    (done : p.evict n kept = some (evicted, p')) : Evicts p.get p'.get n kept evicted := by
  unfold evict at done
  split at done
  next zero =>
    cases done
    exact zero ▸ .nothing _ _
  · simp only at done
    split at done
    · cases done
    next enough =>
      cases done
      have part : ((p.blocks.items.filter (evictable kept)).take n).Sublist p.blocks.items :=
        (take_sublist _ _).trans filter_sublist
      refine ⟨?_, (part.map Prod.fst).nodup p.blocks.items_nodup, ?_, ?_⟩
      · have atMost := length_take_le n (p.blocks.items.filter (evictable kept))
        omega
      · intro e member
        obtain ⟨stored, free⟩ := mem_filter.mp (mem_of_mem_take member)
        exact ⟨mem_items.mp stored, evictable_iff.mp free⟩
      · exact lookup_foldl_erase Prod.fst _ _

theorem evict_none {p : LRUCachePolicy K} {n : Nat} :
    p.evict n kept = none ↔ evictableCount p.blocks kept < n := by
  unfold evict evictableCount
  split
  next zero => simp [zero]
  · simp only [length_take]
    split
    next short =>
      simp only [true_iff]
      omega
    next enough =>
      simp only [reduceCtorEq, false_iff]
      omega

end LRUCachePolicy

namespace ARCCachePolicy

variable {p : ARCCachePolicy K} {key : K}

theorem get_eq_some {block : BlockStatus} :
    p.get key = some block ↔ p.t1.lookup key = some block ∨ key ∉ p.t1 ∧ p.t2.lookup key = some block := by
  rw [← lookup_eq_none]
  unfold get
  cases p.t1.lookup key <;> simp

section
variable (p : ARCCachePolicy K)

def Apart : Prop :=
  ∀ key, (key ∈ p.t1 → key ∉ p.t2 ∧ key ∉ p.b1 ∧ key ∉ p.b2) ∧ (key ∈ p.t2 → key ∉ p.b1 ∧ key ∉ p.b2) ∧
    (key ∈ p.b1 → key ∉ p.b2)

def Bounded : Prop := p.b1.size ≤ p.cacheCapacity ∧ p.b2.size ≤ p.cacheCapacity

theorem get_insert (key k : K) (b : BlockStatus) :
    (p.insert key b).get k = if k = key then some b else p.get k := by
  unfold insert get
  simp only [lookup_assign]
  split <;> simp

end

section

theorem notMem_t2 (missing : p.get key = none) : key ∉ p.t2 := by
  rw [← lookup_eq_none]
  unfold get at missing
  cases found : p.t1.lookup key <;> simp_all

theorem Apart.insert (apart : p.Apart) (absent : key ∉ p.t2) (b : BlockStatus) :
    (p.insert key b).Apart := by
  intro k
  have before := apart k
  simp only [ARCCachePolicy.insert, mem_assign, mem_erase]
  by_cases here : k = key
  · subst here
    simp [absent]
  · simpa [here] using before

theorem Bounded.insert (bounded : p.Bounded) (key : K) (b : BlockStatus) : (p.insert key b).Bounded :=
  ⟨(size_erase_le _ _).trans bounded.1, (size_erase_le _ _).trans bounded.2⟩

theorem get_remove (apart : p.Apart) (key k : K) : (p.remove key).get k = if k = key then none
  else p.get k := by
  unfold remove
  by_cases here : k = key
  · subst here
    by_cases first : k ∈ p.t1
    · have notSecond := lookup_eq_none.mpr ((apart k).1 first).1
      simp [first, get, notSecond]
    · simp [first, get, lookup_eq_none.mpr first]
  · split <;> simp [get, here]

theorem Apart.remove (apart : p.Apart) (key : K) : (p.remove key).Apart := by
  intro k
  have before := apart k
  unfold ARCCachePolicy.remove
  split <;> (simp only [mem_erase]; grind)

theorem Bounded.remove (bounded : p.Bounded) (key : K) : (p.remove key).Bounded := by
  unfold ARCCachePolicy.remove
  split
  · exact bounded
  · exact bounded

end

theorem get_touchKey (p : ARCCachePolicy K) (key k : K) : (p.touchKey key).get k = p.get k := by
  unfold touchKey
  split
  next b found =>
    by_cases here : k = key
    · subst here
      split <;> simp [get, found]
    · split <;> simp [get, here]
  · split
    · simp [get]
    · split
      · rfl
      · split
        · rfl
        · rfl

theorem Apart.touchKey (apart : p.Apart) (key : K) : (p.touchKey key).Apart := by
  unfold ARCCachePolicy.touchKey
  split
  next b found =>
    have first : key ∈ p.t1 := mem_iff_lookup.mpr ⟨b, found⟩
    split
    all_goals
      intro k
      have before := apart k
      simp only [mem_assign, mem_erase]
      by_cases same : k = key
      · subst same
        grind
      · grind
  · split
    · intro k
      simp only [mem_moveToEnd]
      exact apart k
    · split
      · intro k
        simp only [mem_moveToEnd]
        exact apart k
      · split
        · intro k
          simp only [mem_moveToEnd]
          exact apart k
        · exact apart

theorem Bounded.touchKey (bounded : p.Bounded) (key : K) : (p.touchKey key).Bounded := by
  unfold ARCCachePolicy.touchKey Bounded
  split
  · split
    · exact bounded
    · exact bounded
  · split
    · exact bounded
    · split
      · simp only [size_moveToEnd]
        exact bounded
      · split
        · simp only [size_moveToEnd]
          exact bounded
        · exact bounded

theorem touch_keeps (ks : List K) (kept : ARCCachePolicy K → Prop)
    (step : ∀ p key, kept p → kept (touchKey p key)) (before : kept p) : kept (p.touch ks) := by
  unfold touch
  induction ks.reverse generalizing p with
  | nil => exact before
  | cons key rest ih => exact ih (step p key before)

theorem get_touch (p : ARCCachePolicy K) (ks : List K) (k : K) : (p.touch ks).get k = p.get k :=
  touch_keeps ks (fun q => q.get k = p.get k) (fun q key same => (get_touchKey q key k).trans same) rfl

theorem get_setRefCnt (p : ARCCachePolicy K) (key k : K) (refCnt : Int) : (p.setRefCnt key refCnt).get k =
      if k = key then (p.get k).map fun b => { b with refCnt := cInt32 refCnt } else p.get k := by
  unfold setRefCnt
  by_cases here : k = key
  · subst here
    by_cases first : k ∈ p.t1
    · obtain ⟨b, found⟩ := mem_iff_lookup.mp first
      simp [first, get, found]
    · simp [first, get, lookup_eq_none.mpr first]
  · split <;> simp [get, here]

theorem Apart.setRefCnt (apart : p.Apart) (key : K) (refCnt : Int) : (p.setRefCnt key refCnt).Apart := by
  intro k
  unfold ARCCachePolicy.setRefCnt
  split <;> (simp only [mem_modify]; exact apart k)

theorem Bounded.setRefCnt (bounded : p.Bounded) (key : K) (refCnt : Int) :
    (p.setRefCnt key refCnt).Bounded := by
  unfold ARCCachePolicy.setRefCnt
  split
  · exact bounded
  · exact bounded

end ARCCachePolicy

end TurboQuant.Offload
