import Mathlib.Data.List.AList
import TurboQuant.Core.BlockHash

/-!
The map from block hashes to cached blocks. Most hashes belong to one block, which is then stored
without an inner dict.
-/

namespace TurboQuant.Core
open AList List

abbrev BlockHashWithGroupId := List UInt8

def groupIdBytes (groupId : Nat) : List UInt8 :=
  [.ofNat (groupId / 2 ^ 24), .ofNat (groupId / 2 ^ 16), .ofNat (groupId / 2 ^ 8), .ofNat groupId]

def makeBlockHashWithGroupId (blockHash : BlockHash) (groupId : Nat) : BlockHashWithGroupId :=
  blockHash ++ groupIdBytes groupId

theorem makeBlockHashWithGroupId_inj {hash hash' : BlockHash} {g g' : Nat} (small : g < 2 ^ 32)
    (small' : g' < 2 ^ 32)
    (same : makeBlockHashWithGroupId hash g = makeBlockHashWithGroupId hash' g') : hash = hash' ∧ g = g' := by
  obtain ⟨hashes, bytes⟩ := append_inj' same rfl
  refine ⟨hashes, ?_⟩
  simp only [groupIdBytes, cons.injEq, and_true] at bytes
  obtain ⟨b3, b2, b1, b0⟩ := bytes
  have toNat : ∀ {a b : Nat}, UInt8.ofNat a = UInt8.ofNat b → a % 256 = b % 256 := fun h => by
    simpa using congrArg UInt8.toNat h
  have := toNat b3
  have := toNat b2
  have := toNat b1
  have := toNat b0
  omega

inductive CachedBlocks where
  | one (blockId : Nat)
  | many (blockIds : List Nat)
  deriving DecidableEq, Repr

def CachedBlocks.blockIds : CachedBlocks → List Nat
  | .one blockId => [blockId]
  | .many blockIds => blockIds

structure BlockHashToBlockMap where
  cache : AList fun _ : BlockHashWithGroupId => CachedBlocks

namespace BlockHashToBlockMap

def empty : BlockHashToBlockMap := ⟨∅⟩

def getOneBlock (m : BlockHashToBlockMap) (key : BlockHashWithGroupId) : Option Nat :=
  match m.cache.lookup key with
  | none => none
  | some (.one blockId) => some blockId
  | some (.many blockIds) => blockIds.head?

def insert (m : BlockHashToBlockMap) (key : BlockHashWithGroupId) (blockId : Nat) : BlockHashToBlockMap :=
  match m.cache.lookup key with
  | none => ⟨m.cache.insert key (.one blockId)⟩
  | some (.one old) => ⟨m.cache.insert key (.many (if old = blockId then [old] else [old, blockId]))⟩
  | some (.many blockIds) =>
    ⟨m.cache.insert key (.many (if blockId ∈ blockIds then blockIds else blockIds ++ [blockId]))⟩

section
variable (m : BlockHashToBlockMap) (key : BlockHashWithGroupId) (blockId : Nat)

def pop : Bool × BlockHashToBlockMap :=
  match m.cache.lookup key with
  | none => (false, m)
  | some (.one old) => if old = blockId then (true, ⟨m.cache.erase key⟩) else (false, m)
  | some (.many blockIds) =>
    let rest := blockIds.filter (· ≠ blockId)
    (decide (blockId ∈ blockIds), ⟨if rest ≠ [] then m.cache.insert key (.many rest) else m.cache.erase key⟩)

def Registered : Prop :=
  ∃ blocks, m.cache.lookup key = some blocks ∧ blockId ∈ blocks.blockIds

end

/-- The blocks of a hash, whichever way they are stored. -/
def blocks (m : BlockHashToBlockMap) (key : BlockHashWithGroupId) : List Nat :=
  ((m.cache.lookup key).map CachedBlocks.blockIds).getD []

variable {m : BlockHashToBlockMap} {key key' : BlockHashWithGroupId} {b b' : Nat}

theorem mem_blocks : b ∈ m.blocks key ↔ m.Registered key b := by
  unfold blocks Registered
  cases m.cache.lookup key <;> simp

theorem blocks_empty : empty.blocks key = [] := by
  rw [blocks, empty, lookup_empty]
  rfl

theorem getOneBlock_eq : m.getOneBlock key = (m.blocks key).head? := by
  unfold getOneBlock blocks
  split <;> rename_i found <;> rw [found] <;> rfl

theorem pop_fst : (m.pop key b).1 = decide (b ∈ m.blocks key) := by
  unfold pop blocks
  split <;> rename_i found <;> rw [found]
  · rfl
  · split
    · rename_i here
      simp [CachedBlocks.blockIds, here]
    · rename_i other
      simp [CachedBlocks.blockIds, Ne.symm other]
  · rfl

theorem blocks_insert : (m.insert key b).blocks key' = if key' = key then
    if b ∈ m.blocks key then m.blocks key else m.blocks key ++ [b] else m.blocks key' := by
  unfold insert blocks
  by_cases same : key' = key
  · subst same
    split <;> rename_i found <;> rw [found, lookup_insert, if_pos rfl]
    · rfl
    · simp only [CachedBlocks.blockIds, Option.map_some, Option.getD_some, mem_singleton, eq_comm]
      split <;> rfl
    · rfl
  · rw [if_neg same]
    split <;> rw [lookup_insert_ne same]

theorem blocks_pop : (m.pop key b).2.blocks key' =
    if key' = key then (m.blocks key).filter (· ≠ b) else m.blocks key' := by
  unfold pop blocks
  by_cases same : key' = key
  · subst same
    rw [if_pos rfl]
    split <;> rename_i found
    · simp [found]
    · split <;> rename_i here <;> simp [found, CachedBlocks.blockIds, here, lookup_erase]
    · dsimp only
      split
      · simp [found, CachedBlocks.blockIds, lookup_insert]
      · rename_i none
        rw [found, lookup_erase]
        exact (not_not.mp none).symm
  · rw [if_neg same]
    split
    · rfl
    · split
      · simp [lookup_erase_ne same]
      · rfl
    · dsimp only
      split
      · rw [lookup_insert_ne same]
      · rw [lookup_erase_ne same]

theorem not_registered_empty : ¬ empty.Registered key b := by
  rw [← mem_blocks, blocks_empty]
  exact not_mem_nil

theorem registered_of_getOneBlock (found : m.getOneBlock key = some b) : m.Registered key b := by
  rw [getOneBlock_eq] at found
  exact mem_blocks.mp (mem_of_mem_head? found)

theorem registered_insert : (m.insert key b).Registered key' b' ↔ (key' = key ∧ b' = b) ∨
    m.Registered key' b' := by
  rw [← mem_blocks, ← mem_blocks, blocks_insert]
  by_cases same : key' = key
  · rw [if_pos same, same]
    split
    · rename_i mem
      exact ⟨.inr, fun here => here.elim (fun same => same.2 ▸ mem) id⟩
    · simp [or_comm]
  · simp [same]

theorem registered_pop : (m.pop key b).2.Registered key' b' ↔ m.Registered key' b' ∧
    ¬ (key' = key ∧ b' = b) := by
  rw [← mem_blocks, ← mem_blocks, blocks_pop]
  by_cases same : key' = key
  · simp [same]
  · simp [same]

theorem pop_eq_true_iff : (m.pop key b).1 = true ↔ m.Registered key b := by
  rw [pop_fst, decide_eq_true_iff, mem_blocks]

/-! ### Runs of calls -/

inductive Call where
  | getOneBlock (key : BlockHashWithGroupId)
  | insert (key : BlockHashWithGroupId) (blockId : Nat)
  | pop (key : BlockHashWithGroupId) (blockId : Nat)

/-- The map as a set of pairs. -/
def Call.effect (pairs : Set (BlockHashWithGroupId × Nat)) : Call → Set (BlockHashWithGroupId × Nat)
  | .getOneBlock _ => pairs
  | .insert key blockId => pairs ∪ {(key, blockId)}
  | .pop key blockId => pairs \ {(key, blockId)}

/-- The block that a call returns, and the map after it. -/
def call (m : BlockHashToBlockMap) : Call → Option Nat × BlockHashToBlockMap
  | .getOneBlock key => (m.getOneBlock key, m)
  | .insert key blockId => (none, m.insert key blockId)
  | .pop key blockId => (if (m.pop key blockId).1 then some blockId else none, (m.pop key blockId).2)

def answers : BlockHashToBlockMap → List Call → List (Option Nat)
  | _, [] => []
  | m, c :: calls => (m.call c).1 :: (m.call c).2.answers calls

structure Behaves (pairs : Set (BlockHashWithGroupId × Nat)) (m : BlockHashToBlockMap) : Prop where
  /-- The first block of an inner dict exists. -/
  nonempty : ∀ key, m.cache.lookup key ≠ some (.many [])
  found : ∀ key b, m.getOneBlock key = some b → (key, b) ∈ pairs
  missed : ∀ key, m.getOneBlock key = none → ∀ b, (key, b) ∉ pairs
  pops : ∀ key b, (m.call (.pop key b)).1 = some b ↔ (key, b) ∈ pairs
  /-- Only the blocks of the hashes are observable. -/
  alike : ∀ m' : BlockHashToBlockMap, m'.blocks = m.blocks → m'.answers = m.answers

section
variable {m' : BlockHashToBlockMap} (same : m'.blocks = m.blocks)
include same

theorem call_alike (c : Call) :
    (m'.call c).1 = (m.call c).1 ∧ (m'.call c).2.blocks = (m.call c).2.blocks := by
  cases c with
  | getOneBlock key => exact ⟨by rw [call, getOneBlock_eq, same, ← getOneBlock_eq]; rfl, same⟩
  | insert key b => exact ⟨rfl, funext fun key' => by rw [call, call, blocks_insert, blocks_insert, same]⟩
  | pop key b =>
    refine ⟨?_, funext fun key' => by rw [call, call, blocks_pop, blocks_pop, same]⟩
    rw [call, call, pop_fst, pop_fst, same]

theorem answers_alike (calls : List Call) :
    m'.answers calls = m.answers calls := by
  induction calls generalizing m m' with
  | nil => rfl
  | cons c calls ih =>
    obtain ⟨answer, after⟩ := call_alike same c
    rw [answers, answers, answer, ih after]

end

theorem call_nonempty (nonempty : ∀ key, m.cache.lookup key ≠ some (.many [])) (c : Call)
    (key : BlockHashWithGroupId) : (m.call c).2.cache.lookup key ≠ some (.many []) := by
  have stored : ∀ {key' blocks}, blocks ≠ .many [] → (m.cache.insert key' blocks).lookup key ≠ some
      (.many []) := by
    intro key' blocks some
    by_cases same : key = key'
    · rw [same, lookup_insert]
      exact fun none => some (Option.some.inj none)
    · rw [lookup_insert_ne same]
      exact nonempty key
  have erased : ∀ {key'}, (m.cache.erase key').lookup key ≠ some (.many []) := by
    intro key'
    by_cases same : key = key'
    · rw [same, lookup_erase]
      exact nofun
    · rw [lookup_erase_ne same]
      exact nonempty key
  cases c with
  | getOneBlock _ => exact nonempty key
  | insert key' b =>
    unfold call insert
    dsimp only
    split
    · exact stored nofun
    · exact stored (by split <;> simp)
    · refine stored ?_
      split
      · rename_i mem
        rintro ⟨⟩
        cases mem
      · simp
  | pop key' b =>
    unfold call pop
    dsimp only
    split
    · exact nonempty key
    · split
      · exact erased
      · exact nonempty key
    · dsimp only
      split
      · rename_i some
        exact stored fun none => some (CachedBlocks.many.inj none)
      · exact erased

theorem call_registered (c : Call) {pairs : Set (BlockHashWithGroupId × Nat)}
    (same : ∀ key b, m.Registered key b ↔ (key, b) ∈ pairs) :
    (m.call c).2.Registered key b ↔ (key, b) ∈ c.effect pairs := by
  cases c with
  | getOneBlock _ => exact same key b
  | insert _ _ => simp [call, Call.effect, registered_insert, same]
  | pop _ _ => simp [call, Call.effect, registered_pop, same]

theorem run_registered (calls : List Call) : let m := calls.foldl (fun m c => (m.call c).2) empty
    (∀ key, m.cache.lookup key ≠ some (.many [])) ∧ ∀ key b, m.Registered key b ↔
      (key, b) ∈ calls.foldl Call.effect ∅ := by
  induction calls using reverseRecOn with
  | nil =>
    refine ⟨fun key => ?_, fun key b => iff_of_false not_registered_empty (Set.notMem_empty _)⟩
    rw [foldl_nil, empty, lookup_empty]
    exact nofun
  | append_singleton calls c ih =>
    rw [foldl_append, foldl_append]
    exact ⟨call_nonempty ih.1 c, fun key b => call_registered c ih.2⟩

/-- After any calls the map answers as the set of its pairs. -/
theorem run_behaves (calls : List Call) :
    Behaves (calls.foldl Call.effect ∅) (calls.foldl (fun m c => (m.call c).2) empty) := by
  obtain ⟨nonempty, reg⟩ := run_registered calls
  refine ⟨nonempty, fun key b found => ?_, fun key none b mem => ?_, fun key b => ?_, fun m' same => ?_⟩
  · exact (reg key b).mp (registered_of_getOneBlock found)
  · rw [getOneBlock_eq, head?_eq_none_iff] at none
    have here := mem_blocks.mpr ((reg key b).mpr mem)
    rw [none] at here
    cases here
  · rw [← reg, ← pop_eq_true_iff, call]
    split <;> simp_all
  · exact funext (answers_alike same)

end BlockHashToBlockMap

end TurboQuant.Core
