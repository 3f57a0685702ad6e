import TurboQuant.Lib.Linked
import TurboQuant.Lib.Outcome

/-!
The free queue: a doubly linked list of blocks between two fake blocks, and the list it stands for.
-/

namespace TurboQuant.Core
open Linked List Option

inductive Node where
  | head
  | tail
  | block (blockId : Nat)
  deriving DecidableEq, Repr

inductive PoolError where
  | noFreeBlocks
  | outOfSync
  | invalidBlock (blockId : Nat)
  | brokenList
  | cannotGetFreeBlocks (numBlocks : Int)
  | refCntNotZero (blockId : Nat)
  | alreadyHashed (blockId : Nat)
  | tooFewBlockHashes
  | notAMultiple
  | invalidBlockId (blockId : Nat)
  | noGpuBlocks
  | computedBlocksNotEmpty
  | requestHasBlocks
  | noTokens
  | cachingUnsupported
  | tooFewRequiredBlocks
  | tooManyNewBlocks
  | indexOutOfRange
  | eagleUnsupported
  | blockSizesDiffer
  deriving DecidableEq, Repr

structure FreeKVCacheBlockQueue where
  numFreeBlocks : Int
  links : Links Node

namespace FreeKVCacheBlockQueue

def new (numBlocks : Nat) : FreeKVCacheBlockQueue where
  numFreeBlocks := numBlocks
  links :=
    { prev := fun
        | .head => none
        | .tail => some (if numBlocks = 0 then .head else .block (numBlocks - 1))
        | .block i => if i < numBlocks then some (if i = 0 then .head else .block (i - 1)) else none
      next := fun
        | .head => some (if numBlocks = 0 then .tail else .block 0)
        | .tail => none
        | .block i => if i < numBlocks then some (if i + 1 < numBlocks then .block (i + 1)
          else .tail) else none }

def popleft (q : FreeKVCacheBlockQueue) : Except PoolError (Nat × FreeKVCacheBlockQueue) :=
  match q.links.next .head with
  | none | some .tail => if q.numFreeBlocks = 0 then .error .noFreeBlocks else .error .outOfSync
  | some .head => .error .brokenList
  | some (.block first) =>
    match q.links.next (.block first) with
    | none => .error .brokenList
    | some second => .ok (first, ⟨q.numFreeBlocks - 1, (q.links.connect .head second).clear (.block first)⟩)

def popLoop : Nat → Option Node → Links Node → Except PoolError (List Nat × Option Node × Links Node)
  | 0, curr, links => .ok ([], curr, links)
  | n + 1, some (.block b), links => do
    let (ret, curr, links) ← popLoop n (links.next (.block b)) (links.clear (.block b))
    return (b :: ret, curr, links)
  | _ + 1, _, _ => .error .brokenList

section
variable (q : FreeKVCacheBlockQueue)

def popleftN (n : Int) : Except PoolError (List Nat × FreeKVCacheBlockQueue) :=
  if n = 0 then .ok ([], q)
  else if q.numFreeBlocks < n then .error .outOfSync
  else do
    let (ret, curr, links) ← popLoop n.toNat (q.links.next .head) q.links
    return (ret, ⟨q.numFreeBlocks - n, curr.elim links (links.connect .head)⟩)

def remove (b : Nat) : Except PoolError FreeKVCacheBlockQueue :=
  match q.links.prev (.block b), q.links.next (.block b) with
  | some prev, some next => .ok ⟨q.numFreeBlocks - 1, (q.links.connect prev next).clear (.block b)⟩
  | _, _ => .error (.invalidBlock b)

def append (b : Nat) : Except PoolError FreeKVCacheBlockQueue :=
  match q.links.prev .tail with
  | some last => .ok ⟨q.numFreeBlocks + 1, (q.links.connect last (.block b)).connect (.block b) .tail⟩
  | none => .error .brokenList

end

def appendLoop (last : Node) (links : Links Node) : List Nat → Node × Links Node
  | [] => (last, links)
  | b :: rest => appendLoop (.block b) (links.connect last (.block b)) rest

def appendN (q : FreeKVCacheBlockQueue) (blocks : List Nat) : Except PoolError FreeKVCacheBlockQueue :=
  if blocks = [] then .ok q
  else
    match q.links.prev .tail with
    | none => .error .brokenList
    | some last =>
      let (last, links) := appendLoop last q.links blocks
      .ok ⟨q.numFreeBlocks + blocks.length, links.connect last .tail⟩

/-- The loop of `get_all_free_blocks` from a node on; the tail is the node without a next one. -/
def collectLoop (links : Links Node) : Nat → Node → Except PoolError (List Nat)
  | rounds, curr =>
    match links.next curr, rounds, curr with
    | none, _, _ => .ok []
    | some next, rounds + 1, .block b => (collectLoop links rounds next).map (b :: ·)
    | some _, _, _ => .error .brokenList

def getAllFreeBlocks (q : FreeKVCacheBlockQueue) : Except PoolError (List Nat) :=
  match q.links.next .head with
  | none => .error .brokenList
  | some first => collectLoop q.links q.numFreeBlocks.toNat first

/-! ### The list of free blocks -/

def nodes (blocks : List Nat) : List Node := .head :: blocks.map .block ++ [.tail]

/-- The queue holds these blocks in this order, and no other block has links. -/
structure Represents (q : FreeKVCacheBlockQueue) (blocks : List Nat) : Prop where
  nodup : blocks.Nodup
  connected : Connected q.links (nodes blocks)
  count : q.numFreeBlocks = blocks.length
  outside : ∀ b, b ∉ blocks → q.links.prev (.block b) = none ∧ q.links.next (.block b) = none
  ends : q.links.prev .head = none ∧ q.links.next .tail = none

theorem nodes_nodup {bs : List Nat} (nodup : bs.Nodup) : (nodes bs).Nodup := by
  have inner : (bs.map Node.block).Nodup := nodup.map fun _ _ same => Node.block.inj same
  simp [nodes, nodup_append, inner]

theorem mem_nodes {blocks : List Nat} {b : Nat} : .block b ∈ nodes blocks ↔ b ∈ blocks := by
  simp [nodes]

theorem nodes_split (before after : List Nat) : ∃ front p n back,
    (.head :: before.map .block : List Node) = front ++ [p] ∧
    (after.map .block ++ [.tail] : List Node) = n :: back ∧
    (p ≠ .tail ∧ ∀ c ∉ before, p ≠ .block c) ∧ (n ≠ .head ∧ ∀ c ∉ after, n ≠ .block c) := by
  obtain ⟨front, p, left⟩ : ∃ front p, (.head :: before.map .block : List Node) = front ++ [p] :=
    ⟨_, _, (dropLast_append_getLast (by simp)).symm⟩
  obtain ⟨n, back, right⟩ : ∃ n back, (after.map .block ++ [.tail] : List Node) = n :: back :=
    exists_cons_of_ne_nil (by simp)
  have pPlace : p ∈ (.head :: before.map .block : List Node) := by rw [left]; simp
  have nPlace : n ∈ (after.map .block ++ [.tail] : List Node) := by rw [right]; simp
  refine ⟨front, p, n, back, left, right, ⟨?_, ?_⟩, ?_, ?_⟩
  · rintro rfl
    simp at pPlace
  · rintro c out rfl
    exact out (by simpa using pPlace)
  · rintro rfl
    simp at nPlace
  · rintro c out rfl
    exact out (by simpa using nPlace)

variable {q : FreeKVCacheBlockQueue} {blocks bs before after : List Nat} {b : Nat}

variable {links ls : Links Node}

theorem collectLoop_eq (blocks : List Nat) {first : Node} {later : List Node}
    (split : (blocks.map .block ++ [.tail] : List Node) = first :: later)
    (connected : Connected ls (first :: later))
    (ends : ls.next .tail = none) : collectLoop ls blocks.length first = .ok blocks := by
  induction blocks generalizing first later with
  | nil =>
    cases split
    rw [collectLoop.eq_def]
    simp only [ends]
  | cons b rest ih =>
    rw [map_cons, cons_append] at split
    obtain ⟨rfl, rfl⟩ := cons.inj split
    obtain ⟨next, back, right⟩ : ∃ next back, (rest.map .block ++ [.tail] : List Node) = next :: back :=
      exists_cons_of_ne_nil (by simp)
    rw [right] at connected
    have here : ls.next (.block b) = some next :=
      Connected.next (show Connected ls ([] ++ .block b :: next :: back) from connected)
    have onward : Connected ls (next :: back) :=
      Connected.right (show Connected ls ([.block b] ++ next :: back) from connected)
    rw [length_cons, collectLoop.eq_def]
    simp only [here, ih right onward]
    rfl

theorem Represents.getAllFreeBlocks (rep : Represents q blocks) : q.getAllFreeBlocks = .ok blocks := by
  obtain ⟨first, later, right⟩ : ∃ first later, (blocks.map .block ++ [.tail] : List Node) = first :: later :=
    exists_cons_of_ne_nil (by simp)
  have connected : Connected q.links ([] ++ .head :: first :: later) := by
    have here := rep.connected
    rwa [nodes, cons_append, right] at here
  rw [FreeKVCacheBlockQueue.getAllFreeBlocks, connected.next]
  simp only [rep.count, Int.toNat_natCast]
  exact collectLoop_eq blocks right (Connected.right (show Connected q.links ([.head] ++
    first :: later) from connected)) rep.ends.2

theorem Represents.remove (rep : Represents q (before ++ b :: after)) :
    ∃ q', q.remove b = .ok q' ∧ Represents q' (before ++ after) := by
  obtain ⟨front, p, n, back, left, right, pPlace, nPlace⟩ := nodes_split before after
  have whole : nodes (before ++ b :: after) = (front ++ [p]) ++ .block b :: n :: back := by
    rw [nodes, map_append, map_cons, ← cons_append, left, ← right]
    simp
  have joined : nodes (before ++ after) = front ++ p :: n :: back := by
    rw [nodes, map_append, ← cons_append, left, append_assoc, right]
    simp
  have nodup : (before ++ after).Nodup := rep.nodup.sublist ((sublist_cons_self b after).append_left before)
  have gone : b ∉ before ∧ b ∉ after := by
    have apart := rep.nodup
    rw [nodup_append, nodup_cons] at apart
    exact ⟨fun earlier => apart.2.2 b earlier b mem_cons_self rfl, apart.2.1.1⟩
  have connected : Connected q.links ((front ++ [p]) ++ .block b :: n :: back) := whole ▸ rep.connected
  have next : q.links.next (.block b) = some n := connected.next
  have prev : q.links.prev (.block b) = some p := Connected.prev (by simpa using connected :
    Connected q.links (front ++ p :: .block b :: n :: back))
  refine ⟨⟨q.numFreeBlocks - 1, (q.links.connect p n).clear (.block b)⟩, ?_, nodup, ?_, ?_, ?_, ?_⟩
  · simp only [FreeKVCacheBlockQueue.remove, prev, next]
  · have second : Connected q.links (n :: back) := Connected.right (by simpa using connected :
      Connected q.links ((front ++ [p, .block b]) ++ n :: back))
    rw [joined]
    refine (connected.left.join second (joined ▸ nodes_nodup nodup)).clear ?_
    rwa [← joined, mem_nodes, mem_append, not_or]
  · have size := rep.count
    simp only [length_append, length_cons] at size ⊢
    omega
  · intro c out
    rw [mem_append, not_or] at out
    by_cases same : c = b
    · simp [same]
    · have other := rep.outside c (by simp [out, same])
      simpa [same, (pPlace.2 c out.1).symm, (nPlace.2 c out.2).symm] using other
  · simpa [pPlace.1.symm, nPlace.1.symm] using rep.ends

theorem Represents.popleft (rep : Represents q (b :: after)) :
    ∃ q', q.popleft = .ok (b, q') ∧ Represents q' after := by
  obtain ⟨q', removed, rep'⟩ := Represents.remove (show Represents q ([] ++ b :: after) from rep)
  refine ⟨q', ?_, rep'⟩
  have connected : Connected q.links ([] ++ .head :: .block b :: (after.map .block ++ [.tail])) :=
    rep.connected
  have first : q.links.next .head = some (.block b) := connected.next
  have prev : q.links.prev (.block b) = some .head := connected.prev
  simp only [FreeKVCacheBlockQueue.remove, prev] at removed
  simp only [FreeKVCacheBlockQueue.popleft, first]
  split at removed
  · rename_i next here second
    cases here
    rw [second]
    exact congrArg Except.ok (Prod.ext rfl (Except.ok.inj removed))
  · cases removed

theorem popLoop_eq {n : Node} {back : List Node} (taken : List Nat)
    (connected : Connected ls (taken.map .block ++ n :: back))
    (nodup : (taken.map Node.block ++ n :: back).Nodup) :
    popLoop taken.length (taken.map Node.block ++ n :: back).head? ls =
      .ok (taken, some n, ls.clearAll (taken.map .block)) := by
  induction taken generalizing ls with
  | nil => rfl
  | cons b rest ih =>
    rw [map_cons, cons_append, nodup_cons] at nodup
    have next : ls.next (.block b) = (rest.map Node.block ++ n :: back).head? := by
      cases rest with
      | nil => exact Connected.next (show Connected ls ([] ++ .block b :: n :: back) from connected)
      | cons c rest =>
        exact Connected.next (show Connected ls ([] ++ .block b :: .block c :: (rest.map .block ++
          n :: back)) from connected)
    have later : Connected ls (rest.map .block ++ n :: back) :=
      Connected.right (show Connected ls ([.block b] ++ (rest.map .block ++ n :: back)) from connected)
    simp only [map_cons, cons_append, head?_cons, length_cons, popLoop, next, ih (later.clear nodup.1) nodup.2]
    rfl

theorem Represents.popleftN (rep : Represents q (before ++ after)) :
    ∃ q', q.popleftN before.length = .ok (before, q') ∧ Represents q' after := by
  by_cases none : before = []
  · subst none
    exact ⟨q, by simp [FreeKVCacheBlockQueue.popleftN], rep⟩
  have some := length_pos_of_ne_nil none
  obtain ⟨-, -, n, back, -, right, -, nPlace⟩ := nodes_split before after
  have whole : nodes (before ++ after) = .head :: (before.map .block ++ n :: back) := by
    rw [nodes, map_append, cons_append, append_assoc, right]
  have rest : nodes after = .head :: n :: back := by rw [nodes, cons_append, right]
  have connected : Connected q.links ([.head] ++ (before.map .block ++ n :: back)) := by
    have here := rep.connected
    rwa [whole] at here
  have nodup := (nodup_cons.mp (whole ▸ nodes_nodup rep.nodup)).2
  have loop := popLoop_eq before connected.right nodup
  have first : q.links.next .head = (before.map Node.block ++ n :: back).head? := by
    obtain ⟨c, later, same⟩ : ∃ c later, before.map Node.block ++ n :: back = c :: later :=
      exists_cons_of_ne_nil (by simp)
    rw [same] at connected ⊢
    exact Connected.next (show Connected q.links ([] ++ .head :: c :: later) from connected)
  rw [← first] at loop
  refine ⟨⟨q.numFreeBlocks - before.length, (q.links.clearAll (before.map .block)).connect .head n⟩, ?_,
    (nodup_append.mp rep.nodup).2.1, ?_, ?_, ?_, ?_⟩
  · have size := rep.count
    rw [length_append] at size
    rw [FreeKVCacheBlockQueue.popleftN, if_neg (by omega), if_neg (by omega), Int.toNat_natCast, loop]
    rfl
  · have second : Connected (q.links.clearAll (before.map .block)) (n :: back) :=
      connected.right.right.clearAll fun x taken later => (nodup_append.mp nodup).2.2 x taken x later rfl
    have only : Connected (q.links.clearAll (before.map .block)) ([] ++ [Node.head]) := .singleton _
    rw [rest]
    exact only.join second (by rw [nil_append, ← rest]; exact nodes_nodup (nodup_append.mp rep.nodup).2.1)
  · have size := rep.count
    rw [length_append] at size
    simp only
    omega
  · intro c out
    have notN := (nPlace.2 c out).symm
    by_cases popped : c ∈ before
    · simpa [notN] using clearAll_of_mem q.links (mem_map_of_mem popped)
    · have kept := clearAll_of_notMem q.links (show Node.block c ∉ before.map .block by simpa using popped)
      simpa [notN, kept.1, kept.2] using rep.outside c (by simp [popped, out])
  · have keptHead := clearAll_of_notMem q.links (show Node.head ∉ before.map .block by simp)
    have keptTail := clearAll_of_notMem q.links (show Node.tail ∉ before.map .block by simp)
    simpa [nPlace.1.symm, keptHead.1, keptTail.2] using rep.ends

theorem appendLoop_spec {front : List Node} {last : Node} (added : List Nat)
    (connected : Connected ls (front ++ [last])) (nodup : (front ++ last :: added.map .block).Nodup) :
    ∃ front' last', front ++ last :: added.map .block = front' ++ [last'] ∧
      (appendLoop last ls added).1 = last' ∧
      Connected (appendLoop last ls added).2 (front' ++ [last']) ∧
      (∀ x ∉ added.map Node.block, (appendLoop last ls added).2.prev x = ls.prev x) ∧
      (∀ x ∉ last :: added.map Node.block, (appendLoop last ls added).2.next x = ls.next x) := by
  induction added generalizing ls front last with
  | nil => exact ⟨front, last, rfl, rfl, connected, fun _ _ => rfl, fun _ _ => rfl⟩
  | cons b rest ih =>
    have shifted : front ++ last :: (b :: rest).map .block = (front ++ [last]) ++
      .block b :: rest.map .block := by simp
    have pair : Connected (ls.connect last (.block b)) ((front ++ [last]) ++ [.block b]) := by
      have joined := connected.join (show Connected ls [.block b] from .singleton _) (by
        refine nodup.sublist ?_
        simp)
      simpa using joined
    obtain ⟨front', last', split, end_, linked, prevs, nexts⟩ := ih pair (by rw [← shifted]; exact nodup)
    refine ⟨front', last', by rw [shifted]; exact split, end_, linked, fun x out => ?_, fun x out => ?_⟩
    · rw [map_cons, mem_cons, not_or] at out
      exact (prevs x out.2).trans (ls.connect_prev_of_ne out.1)
    · rw [map_cons, mem_cons, not_or] at out
      exact (nexts x out.2).trans (ls.connect_next_of_ne out.1)

theorem Represents.appendN {added : List Nat} (rep : Represents q bs) (nodup : (bs ++ added).Nodup) :
    ∃ q', q.appendN added = .ok q' ∧ Represents q' (bs ++ added) := by
  by_cases none : added = []
  · subst none
    exact ⟨q, by simp [FreeKVCacheBlockQueue.appendN], by simpa using rep⟩
  obtain ⟨front, p, -, -, left, -, pPlace, -⟩ := nodes_split bs []
  have old : nodes bs = front ++ p :: [.tail] := by
    rw [nodes, left]
    simp
  have connected : Connected q.links (front ++ p :: [.tail]) := old ▸ rep.connected
  have last : q.links.prev .tail = some p := connected.prev
  have whole : nodes (bs ++ added) = (front ++ p :: added.map .block) ++ [.tail] := by
    rw [nodes, map_append, ← cons_append, left]
    simp
  have wholeNodup := whole ▸ nodes_nodup nodup
  obtain ⟨front', last', split, end_, linked, prevs, nexts⟩ := appendLoop_spec added
    (Connected.left (show Connected q.links ((front ++ [p]) ++ [.tail]) by simpa using connected))
    (nodup_append.mp wholeNodup).1
  have atEnd : last' ∈ added.map Node.block := by
    have here := congrArg getLast? split
    rw [getLast?_concat, getLast?_append, getLast?_cons] at here
    obtain ⟨b, back, rfl⟩ := exists_cons_of_ne_nil none
    simp only [map_cons, some_or, some.injEq, getLast?_cons, getD_some] at here
    rw [← here]
    cases back using reverseRecOn with
    | nil => simp
    | append_singleton back c => simp
  refine ⟨⟨q.numFreeBlocks + added.length, (appendLoop p q.links added).2.connect last' .tail⟩, ?_,
    nodup, ?_, ?_, ?_, ?_⟩
  · simp only [FreeKVCacheBlockQueue.appendN, if_neg none, last, end_]
  · rw [whole, split]
    have final := linked.join (show Connected (appendLoop p q.links added).2 [.tail] from .singleton _) (by
      rw [split] at wholeNodup
      simpa using wholeNodup)
    simpa using final
  · have size := rep.count
    simp only [length_append]
    omega
  · intro c out
    rw [mem_append, not_or] at out
    have notAdded : Node.block c ∉ added.map .block := by simpa using out.2
    have notP := (pPlace.2 c out.1).symm
    have notLast : Node.block c ≠ last' := by rintro rfl; exact notAdded atEnd
    simpa [notLast, prevs _ notAdded, nexts (.block c) (by simp [notP, out.2])] using rep.outside c out.1
  · have notLast : Node.tail ≠ last' := by rintro rfl; simp at atEnd
    simpa [notLast, prevs .head (by simp), nexts .tail (by simp [pPlace.1.symm])] using rep.ends

def nodeBefore (k : Nat) : Node := if k = 0 then .head else .block (k - 1)

theorem getLast?_range (k : Nat) :
    (.head :: (range k).map .block : List Node).getLast? = some (nodeBefore k) := by
  cases k with
  | zero => rfl
  | succ k => simp [range_succ, getLast?_cons, nodeBefore]

theorem new_connected (count : Nat) {k : Nat} (within : k ≤ count) :
    Connected (new count).links (.head :: (range k).map .block) := by
  induction k with
  | zero => exact .singleton _
  | succ k ih =>
    rw [range_succ, map_append, ← cons_append]
    refine isChain_append.mpr ⟨ih (by omega), .singleton _, fun x last y first => ?_⟩
    rw [getLast?_range] at last
    cases last
    cases first
    have prev : (new count).links.prev (.block k) = some (nodeBefore k) := if_pos within
    refine ⟨?_, prev⟩
    cases k with
    | zero => simp [nodeBefore, new]; omega
    | succ k => simp [nodeBefore, new]; omega

theorem new_represents (numBlocks : Nat) : Represents (new numBlocks) (range numBlocks) where
  nodup := nodup_range
  connected := by
    refine isChain_append.mpr ⟨new_connected numBlocks (Nat.le_refl _), .singleton _, fun x last y first => ?_⟩
    rw [getLast?_range] at last
    cases last
    cases first
    cases numBlocks with
    | zero => exact ⟨rfl, rfl⟩
    | succ n => simp [nodeBefore, new]
  count := by simp [new]
  outside := by
    intro b out
    have beyond : ¬ b < numBlocks := by simpa using out
    simp [new, beyond]
  ends := ⟨rfl, rfl⟩

/-! ### Sequences of calls -/

theorem Represents.next_iff_prev (rep : Represents q blocks) (x y : Node) :
    q.links.next x = some y ↔ q.links.prev y = some x := by
  have isNode : ∀ z, z ∉ nodes blocks → q.links.prev z = none ∧ q.links.next z = none := by
    rintro (_ | _ | b) out
    · simp [nodes] at out
    · simp [nodes] at out
    · exact rep.outside b (by simpa [mem_nodes] using out)
  constructor
  · intro next
    have mem : x ∈ nodes blocks := by_contra fun out => by simp [isNode x out] at next
    obtain ⟨before, after, split⟩ := append_of_mem mem
    have connected := split ▸ rep.connected
    cases after with
    | nil =>
      have last := congrArg getLast? split
      simp only [nodes, getLast?_concat, some.injEq] at last
      rw [← last, rep.ends.2] at next
      cases next
    | cons z after =>
      rw [connected.next] at next
      cases next
      exact connected.prev
  · intro prev
    have mem : y ∈ nodes blocks := by_contra fun out => by simp [isNode y out] at prev
    obtain ⟨before, after, split⟩ := append_of_mem mem
    cases before using reverseRecOn with
    | nil =>
      have first := congrArg head? split
      simp only [nodes, cons_append, head?_cons, nil_append, some.injEq] at first
      rw [← first, rep.ends.1] at prev
      cases prev
    | append_singleton before z =>
      have connected : Connected q.links (before ++ z :: y :: after) := by
        rw [append_assoc] at split
        exact split ▸ rep.connected
      rw [connected.prev] at prev
      cases prev
      exact connected.next

inductive Call where
  | popleft
  | popleftN (n : Nat)
  | remove (b : Nat)
  | append (b : Nat)
  | appendN (blocks : List Nat)

namespace Call

/-- What a call does to an ordinary list: the blocks it returns and the list it leaves. `none` is a
call that takes blocks the list does not have, or adds a block that it has. -/
def onList : Call → List Nat → Option (List Nat × List Nat)
  | popleft, blocks => blocks.head?.map fun b => ([b], blocks.tail)
  | popleftN n, blocks => if n ≤ blocks.length then some (blocks.take n, blocks.drop n) else none
  | remove b, blocks => if b ∈ blocks then some ([], blocks.erase b) else none
  | append b, blocks => if b ∈ blocks then none else some ([], blocks ++ [b])
  | appendN added, blocks => if (blocks ++ added).Nodup then some ([], blocks ++ added) else none

def onQueue : Call → FreeKVCacheBlockQueue → Except PoolError (List Nat × FreeKVCacheBlockQueue)
  | popleft, q => q.popleft.map fun result => ([result.1], result.2)
  | popleftN n, q => q.popleftN n
  | remove b, q => (q.remove b).map ([], ·)
  | append b, q => (q.append b).map ([], ·)
  | appendN added, q => (q.appendN added).map ([], ·)

def listRun : List Call → List Nat → Option (List (List Nat) × List Nat)
  | [], blocks => some ([], blocks)
  | call :: rest, blocks => do
    let (returned, blocks) ← call.onList blocks
    let (later, blocks) ← listRun rest blocks
    return (returned :: later, blocks)

def queueRun : List Call → FreeKVCacheBlockQueue → Except PoolError (List (List Nat) × FreeKVCacheBlockQueue)
  | [], q => .ok ([], q)
  | call :: rest, q => do
    let (returned, q) ← call.onQueue q
    let (later, q) ← queueRun rest q
    return (returned :: later, q)

end Call

theorem append_eq_appendN (q : FreeKVCacheBlockQueue) (b : Nat) : q.append b = q.appendN [b] := by
  simp only [append, appendN, appendLoop, cons_ne_nil, if_false]
  cases q.links.prev .tail <;> rfl

theorem Represents.onQueue (rep : Represents q bs) {call : Call} {returned blocks' : List Nat}
    (legal : call.onList bs = some (returned, blocks')) :
    ∃ q', call.onQueue q = .ok (returned, q') ∧ Represents q' blocks' := by
  cases call with
  | popleft =>
    obtain ⟨b, head, same⟩ := map_eq_some_iff.mp legal
    obtain ⟨after, rfl⟩ := head?_eq_some_iff.mp head
    cases same
    obtain ⟨q', ran, rep'⟩ := rep.popleft
    exact ⟨q', by simp [Call.onQueue, ran, Except.map], rep'⟩
  | popleftN n =>
    simp only [Call.onList, ite_none_right_eq_some, some.injEq, Prod.mk.injEq] at legal
    obtain ⟨enough, rfl, rfl⟩ := legal
    rw [← take_append_drop n bs] at rep
    simpa [Call.onQueue, Nat.min_eq_left enough] using rep.popleftN
  | remove b =>
    simp only [Call.onList, ite_none_right_eq_some, some.injEq, Prod.mk.injEq] at legal
    obtain ⟨mem, rfl, rfl⟩ := legal
    obtain ⟨before, after, -, rfl, erased⟩ := exists_erase_eq mem
    obtain ⟨q', ran, rep'⟩ := rep.remove
    exact ⟨q', by simp [Call.onQueue, ran, Except.map], erased ▸ rep'⟩
  | append b =>
    simp only [Call.onList, ite_none_left_eq_some, some.injEq, Prod.mk.injEq] at legal
    obtain ⟨fresh, rfl, rfl⟩ := legal
    have distinct : (bs ++ [b]).Nodup := by
      refine nodup_append.mpr ⟨rep.nodup, nodup_singleton b, ?_⟩
      simpa using fun a mem => ne_of_mem_of_not_mem mem fresh
    obtain ⟨q', ran, rep'⟩ := rep.appendN distinct
    exact ⟨q', by simp [Call.onQueue, append_eq_appendN, ran, Except.map], rep'⟩
  | appendN added =>
    simp only [Call.onList, ite_none_right_eq_some, some.injEq, Prod.mk.injEq] at legal
    obtain ⟨distinct, rfl, rfl⟩ := legal
    obtain ⟨q', ran, rep'⟩ := rep.appendN distinct
    exact ⟨q', by simp [Call.onQueue, ran, Except.map], rep'⟩

theorem Represents.queueRun (rep : Represents q bs) {calls : List Call} {returned : List (List Nat)}
    {blocks' : List Nat} (legal : Call.listRun calls bs = some (returned, blocks')) :
    ∃ q', Call.queueRun calls q = .ok (returned, q') ∧ Represents q' blocks' := by
  induction calls generalizing q bs returned with
  | nil =>
    cases legal
    exact ⟨q, rfl, rep⟩
  | cons call rest ih =>
    obtain ⟨⟨first, middle⟩, step, legal⟩ := bind_eq_some_iff.mp legal
    obtain ⟨⟨later, final⟩, onward, same⟩ := bind_eq_some_iff.mp legal
    cases same
    obtain ⟨q₁, ran, rep₁⟩ := rep.onQueue step
    obtain ⟨q₂, ranRest, rep₂⟩ := ih rep₁ onward
    exact ⟨q₂, by simp [Call.queueRun, ran, ranRest, bind, Except.bind, pure, Except.pure], rep₂⟩

/-- After any sequence of calls that respects membership the queue has returned what an ordinary
list returns, and it is that list: in order between the fake blocks, linked both ways, and without
links elsewhere. -/
theorem queueRun_refines_list (numBlocks : Nat) (calls : List Call) {returned : List (List Nat)}
    {blocks : List Nat} (legal : Call.listRun calls (range numBlocks) = some (returned, blocks)) :
    ∃ q, Call.queueRun calls (new numBlocks) = .ok (returned, q) ∧ blocks.Nodup ∧
      q.getAllFreeBlocks = .ok blocks ∧
      Connected q.links (nodes blocks) ∧ (∀ x y, q.links.next x = some y ↔ q.links.prev y = some x) ∧
      (∀ b ∉ blocks, q.links.prev (.block b) = none ∧ q.links.next (.block b) = none) ∧
        q.numFreeBlocks = blocks.length := by
  obtain ⟨q, ran, rep⟩ := (new_represents numBlocks).queueRun legal
  exact ⟨q, ran, rep.nodup, rep.getAllFreeBlocks, rep.connected, rep.next_iff_prev, rep.outside, rep.count⟩

theorem queueRun_refines_list_mixed : ∃ q,
    Call.queueRun [.popleftN 2, .remove 3, .append 0, .popleft, .appendN [3, 1]] (new 5) =
      .ok ([[0, 1], [], [], [2], []], q) ∧
      q.getAllFreeBlocks = .ok [4, 0, 3, 1] ∧ q.numFreeBlocks = 4 := by
  have legal : Call.listRun [.popleftN 2, .remove 3, .append 0, .popleft, .appendN [3, 1]] (range 5) =
      some ([[0, 1], [], [], [2], []], [4, 0, 3, 1]) := by decide
  obtain ⟨q, ran, -, all, -, -, -, count⟩ := queueRun_refines_list 5 _ legal
  exact ⟨q, ran, all, count⟩

end FreeKVCacheBlockQueue

end TurboQuant.Core
