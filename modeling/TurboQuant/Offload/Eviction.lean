import TurboQuant.Offload.Policy

/-!
What ARC evicts and when it refuses.
-/

namespace TurboQuant.Offload
open List OrderedDict Nat AList Bool ARCCachePolicy

variable {K : Type} [DecidableEq K] {n : Nat} {evicted : List (K × BlockStatus)}

namespace ARCCachePolicy

variable {p : ARCCachePolicy K} {protectedKeys kept selected : List K}

structure Candidate (p : ARCCachePolicy K) (protectedKeys : List K)
    (candidate : (K × BlockStatus) × Bool) : Prop where
  idle : candidate.1.2.refCnt = 0 ∧ candidate.1.1 ∉ protectedKeys
  fromT1 : candidate.2 = true → p.t1.lookup candidate.1.1 = some candidate.1.2
  fromT2 : candidate.2 = false → p.t2.lookup candidate.1.1 = some candidate.1.2

variable {e : K × BlockStatus}

theorem selectable_iff : selectable kept selected e = true ↔
    (e.2.refCnt = 0 ∧ e.1 ∉ kept) ∧ e.1 ∉ selected := by
  rw [selectable, decide_eq_true_iff, evictable_iff]

def remaining (d : OrderedDict K BlockStatus) (protectedKeys selected : List K) : Nat :=
  (d.items.filter (selectable protectedKeys selected)).length

theorem remaining_nil (d : OrderedDict K BlockStatus) :
    remaining d protectedKeys [] = evictableCount d protectedKeys := by
  unfold remaining evictableCount selectable
  simp

theorem selectable_append (e : K × BlockStatus) (key : K) : selectable kept (selected ++ [key]) e =
    (decide (e.1 ≠ key) && selectable kept selected e) := by
  rw [Bool.eq_iff_iff, Bool.and_eq_true, selectable_iff, selectable_iff, decide_eq_true_iff,
    mem_append, mem_singleton]
  grind

section
variable {d : OrderedDict K BlockStatus}

theorem remaining_here (found : d.items.find? (selectable kept selected) = some e) :
    remaining d kept (selected ++ [e.1]) + 1 = remaining d kept selected := by
  unfold remaining
  have split : d.items.filter (selectable kept (selected ++ [e.1])) =
      (d.items.filter (selectable kept selected)).filter fun other => decide (other.1 ≠ e.1) := by
    rw [filter_filter]
    exact filter_congr fun other _ => selectable_append other e.1
  rw [split]
  refine length_filter_other ?_ ?_
  · exact (filter_sublist.map Prod.fst).nodup d.items_nodup
  · exact mem_filter.mpr ⟨mem_of_find?_eq_some found, find?_some found⟩

theorem remaining_elsewhere {key : K} (absent : key ∉ d) :
    remaining d kept (selected ++ [key]) = remaining d kept selected := by
  refine congrArg length (filter_congr ?_)
  intro e mem
  rw [selectable_append]
  have ne : e.1 ≠ key := by
    rintro rfl
    exact absent (mem_iff_lookup.mpr ⟨e.2, mem_items.mp mem⟩)
  rw [decide_eq_true ne, Bool.true_and]

theorem remaining_eq_zero :
    remaining d kept selected = 0 ↔ d.items.find? (selectable kept selected) = none := by
  rw [remaining, length_eq_zero_iff, filter_eq_nil_iff, find?_eq_none]

end

theorem remaining_le (d : OrderedDict K BlockStatus) : remaining d kept selected ≤ d.size := by
  rw [← d.length_items]
  exact length_filter_le _ _

theorem nextCandidate_cases (p : ARCCachePolicy K) (kept selected : List K) (size : Nat) :
    (∃ e, p.nextCandidate kept selected size = some (e, true) ∧
      p.intTarget ≤ size ∧ p.t1.items.find? (selectable kept selected) = some e) ∨
    (∃ e, p.nextCandidate kept selected size = some (e, false) ∧
      (p.intTarget ≤ size → remaining p.t1 kept selected = 0) ∧
      p.t2.items.find? (selectable kept selected) = some e) ∨ (p.nextCandidate kept selected size = none ∧
      (p.intTarget ≤ size → remaining p.t1 kept selected = 0) ∧ remaining p.t2 kept selected = 0) := by
  unfold nextCandidate
  split
  next e chosen =>
    split at chosen
    next reached => exact .inl ⟨e, rfl, reached, chosen⟩
    · cases chosen
  next noFirst =>
    have first : p.intTarget ≤ size → remaining p.t1 kept selected = 0 := by
      intro reached
      rw [if_pos reached] at noFirst
      exact remaining_eq_zero.mpr noFirst
    cases second : p.t2.items.find? (selectable kept selected) with
    | some e => exact .inr (.inl ⟨e, rfl, first, rfl⟩)
    | none => exact .inr (.inr ⟨rfl, first, remaining_eq_zero.mpr second⟩)

variable {size : Nat}

theorem nextCandidate_some {candidate : (K × BlockStatus) × Bool}
    (next : p.nextCandidate kept selected size = some candidate) :
    p.Candidate kept candidate ∧ candidate.1.1 ∉ selected := by
  rcases nextCandidate_cases p kept selected size with
    ⟨e, same, -, found⟩ | ⟨e, same, -, found⟩ | ⟨same, -, -⟩
  · rw [same] at next
    cases next
    obtain ⟨idle, fresh⟩ := selectable_iff.mp (find?_some found)
    exact ⟨⟨idle, fun _ => mem_items.mp (mem_of_find?_eq_some found), nofun⟩, fresh⟩
  · rw [same] at next
    cases next
    obtain ⟨idle, fresh⟩ := selectable_iff.mp (find?_some found)
    exact ⟨⟨idle, nofun, fun _ => mem_items.mp (mem_of_find?_eq_some found)⟩, fresh⟩
  · rw [same] at next
    cases next

theorem collect_some {cs res : List ((K × BlockStatus) × Bool)} (done : p.collect kept n cs size = some res)
    (valid : ∀ candidate ∈ cs, p.Candidate kept candidate) (nodup : (cs.map (·.1.1)).Nodup) :
    res.length = cs.length + n ∧ (∀ candidate ∈ res, p.Candidate kept candidate) ∧
      (res.map (·.1.1)).Nodup := by
  induction n generalizing cs size with
  | zero =>
    cases done
    exact ⟨rfl, valid, nodup⟩
  | succ n ih =>
    rw [collect] at done
    split at done
    next candidate next =>
      obtain ⟨new, fresh⟩ := nextCandidate_some next
      obtain ⟨length, rest⟩ := ih done
        (fun other mem => by
          rcases mem_append.mp mem with old | last
          · exact valid other old
          · rwa [mem_singleton.mp last])
        (by
          rw [map_append, map_singleton]
          exact nodup_append.mpr ⟨nodup, nodup_singleton _, fun key old other last same =>
            fresh (by rwa [← mem_singleton.mp last, ← same])⟩)
      refine ⟨?_, rest⟩
      rw [length, length_append, length_singleton, add_assoc, add_comm 1 n]
    · cases done

variable {cs : List ((K × BlockStatus) × Bool)}

theorem collect_isSome_iff (apart : p.Apart)
    (within : remaining p.t1 kept (cs.map (·.1.1)) ≤ size) : (p.collect kept n cs size).isSome ↔
      n ≤ min (remaining p.t1 kept (cs.map (·.1.1))) (size + 1 - p.intTarget) + remaining p.t2 kept
        (cs.map (·.1.1)) := by
  induction n generalizing cs size with
  | zero => simp [collect]
  | succ n ih =>
    rw [collect]
    rcases nextCandidate_cases p kept (cs.map (·.1.1)) size with
      ⟨e, same, reached, found⟩ | ⟨e, same, first, found⟩ | ⟨same, first, second⟩
    · have stored := mem_items.mp (mem_of_find?_eq_some found)
      have absent := ((apart e.1).1 (mem_iff_lookup.mpr ⟨_, stored⟩)).1
      have here := remaining_here found
      have there := @remaining_elsewhere K _ kept (cs.map (·.1.1)) _ _ absent
      have grown : (cs ++ [(e, true)]).map (·.1.1) = cs.map (·.1.1) ++ [e.1] := map_append
      simp only [same, ↓reduceIte]
      rw [ih (by rw [grown]; omega), grown, there]
      omega
    · have stored := mem_items.mp (mem_of_find?_eq_some found)
      have absent : e.1 ∉ p.t1 := fun inT1 =>
        ((apart e.1).1 inT1).1 (mem_iff_lookup.mpr ⟨_, stored⟩)
      have here := remaining_here found
      have there := @remaining_elsewhere K _ kept (cs.map (·.1.1)) _ _ absent
      have grown : (cs ++ [(e, false)]).map (·.1.1) = cs.map (·.1.1) ++ [e.1] := map_append
      simp only [same, false_eq_true, ↓reduceIte]
      rw [ih (by rw [grown]; omega), grown, there]
      omega
    · simp only [same, Option.isSome_none, false_eq_true, false_iff]
      omega

def evictionLimit (p : ARCCachePolicy K) (protectedKeys : List K) : Nat :=
  min (evictableCount p.t1 protectedKeys) (p.t1.size + 1 - p.intTarget) + evictableCount p.t2 protectedKeys

theorem evict_none (apart : p.Apart) : p.evict n protectedKeys = none ↔ p.evictionLimit protectedKeys < n := by
  unfold evict
  split
  next zero => simp [zero]
  · have found : (p.collect protectedKeys n [] p.t1.size).isSome ↔ n ≤ p.evictionLimit protectedKeys := by
      rw [collect_isSome_iff apart (remaining_le _), evictionLimit, map_nil, remaining_nil, remaining_nil]
    rw [← not_le, ← found]
    split
    next some_ => simp [some_]
    next none_ => simp [none_]

section
variable {candidate : (K × BlockStatus) × Bool}

theorem Apart.applyEviction (apart : p.Apart) (valid : p.Candidate kept candidate) :
    (p.applyEviction candidate).Apart := by
  unfold ARCCachePolicy.applyEviction
  split
  next first =>
    have inT1 := mem_iff_lookup.mpr ⟨_, valid.fromT1 first⟩
    intro k
    have before := apart k
    simp only [mem_assign, mem_erase]
    grind
  next second =>
    have inT2 := mem_iff_lookup.mpr ⟨_, valid.fromT2 (eq_false_iff.mpr second)⟩
    intro k
    have before := apart k
    simp only [mem_assign, mem_erase]
    grind

theorem Candidate.applyEviction {other : (K × BlockStatus) × Bool} (valid : p.Candidate kept other)
    (ne : other.1.1 ≠ candidate.1.1) : (p.applyEviction candidate).Candidate kept other := by
  refine ⟨valid.idle, fun first => ?_, fun second => ?_⟩
  · rw [← valid.fromT1 first]
    unfold ARCCachePolicy.applyEviction
    split <;> simp [ne]
  · rw [← valid.fromT2 second]
    unfold ARCCachePolicy.applyEviction
    split <;> simp [ne]

theorem get_applyEviction (apart : p.Apart) (valid : p.Candidate kept candidate) (k : K) :
    (p.applyEviction candidate).get k = if k = candidate.1.1 then none else p.get k := by
  have here := apart candidate.1.1
  unfold applyEviction
  by_cases same : k = candidate.1.1
  · subst same
    split
    next first =>
      have inT1 := mem_iff_lookup.mpr ⟨_, valid.fromT1 first⟩
      simp [get, lookup_eq_none.mpr (here.1 inT1).1]
    next second =>
      have inT2 := mem_iff_lookup.mpr ⟨_, valid.fromT2 (eq_false_iff.mpr second)⟩
      have notT1 : candidate.1.1 ∉ p.t1 := fun inT1 => (here.1 inT1).1 inT2
      simp [get, lookup_eq_none.mpr notT1]
  · split <;> simp [get, same]

theorem get_candidate (apart : p.Apart) (valid : p.Candidate kept candidate) :
    p.get candidate.1.1 = some candidate.1.2 := by
  rw [get_eq_some]
  cases side : candidate.2 with
  | true => exact .inl (valid.fromT1 side)
  | false =>
    have inT2 := mem_iff_lookup.mpr ⟨_, valid.fromT2 side⟩
    exact .inr ⟨fun inT1 => ((apart _).1 inT1).1 inT2, valid.fromT2 side⟩

theorem applyEvictions (apart : p.Apart)
    (valid : ∀ candidate ∈ cs, p.Candidate kept candidate) (nodup : (cs.map (·.1.1)).Nodup) :
    (cs.foldl applyEviction p).Apart ∧ ∀ k, (cs.foldl applyEviction p).get k =
      if k ∈ cs.map (·.1.1) then none else p.get k := by
  induction cs generalizing p with
  | nil => exact ⟨apart, fun _ => (if_neg not_mem_nil).symm⟩
  | cons candidate rest ih =>
    rw [map_cons, nodup_cons] at nodup
    have here := valid candidate mem_cons_self
    have later : ∀ other ∈ rest, (p.applyEviction candidate).Candidate kept other := by
      intro other mem
      refine (valid other (mem_cons_of_mem _ mem)).applyEviction fun same => nodup.1 ?_
      exact same ▸ mem_map.mpr ⟨other, mem, rfl⟩
    obtain ⟨apart', stored⟩ := ih (apart.applyEviction here) later nodup.2
    refine ⟨apart', fun k => ?_⟩
    rw [foldl_cons, stored, get_applyEviction apart here, map_cons]
    simp only [mem_cons]
    grind

omit [DecidableEq K] in
theorem Apart.trim (apart : p.Apart) : p.trim.Apart := by
  intro k
  have before := apart k
  have first : k ∈ p.trim.b1 → k ∈ p.b1 := mem_of_mem_iterate_popOldest
  have second : k ∈ p.trim.b2 → k ∈ p.b2 := mem_of_mem_iterate_popOldest
  simp only [show p.trim.t1 = p.t1 from rfl, show p.trim.t2 = p.t2 from rfl]
  grind

omit [DecidableEq K] in
theorem trim_bounded (p : ARCCachePolicy K) : p.trim.Bounded := by
  constructor
  · simp only [trim, size_iterate_popOldest]
    omega
  · simp only [trim, size_iterate_popOldest]
    omega

end

theorem evict_some {p' : ARCCachePolicy K} (apart : p.Apart) (bounded : p.Bounded)
    (done : p.evict n kept = some (evicted, p')) :
    Evicts p.get p'.get n kept evicted ∧ p'.Apart ∧ p'.Bounded := by
  unfold evict at done
  split at done
  next zero =>
    cases done
    exact ⟨zero ▸ .nothing _ _, apart, bounded⟩
  · split at done
    next cs collected =>
      cases done
      obtain ⟨length, valid, nodup⟩ := collect_some collected (fun _ mem => absurd mem not_mem_nil) nodup_nil
      obtain ⟨apart', stored⟩ := applyEvictions apart valid nodup
      have ks : (cs.map (·.1)).map Prod.fst = cs.map (·.1.1) := map_map
      refine ⟨⟨?_, ks ▸ nodup, ?_, fun k => ?_⟩, apart'.trim, trim_bounded _⟩
      · rw [length_map, length, length_nil, zero_add]
      · intro e mem
        obtain ⟨candidate, inCandidates, rfl⟩ := mem_map.mp mem
        exact ⟨get_candidate apart (valid candidate inCandidates), (valid candidate inCandidates).idle⟩
      · rw [ks]
        exact stored k
    · cases done

end ARCCachePolicy

namespace CachePolicy

def Sound : CachePolicy K → Prop
  | .lru _ => True
  | .arc p => p.Apart ∧ p.Bounded

omit [DecidableEq K] in
theorem sound_new (cacheCapacity : Nat) (name : CachePolicyName) :
    (new cacheCapacity name : CachePolicy K).Sound := by
  cases name with
  | lru => trivial
  | arc => exact ⟨fun _ => by simp, zero_le _, zero_le _⟩

theorem get_new (cacheCapacity : Nat) (name : CachePolicyName) (k : K) :
    (new cacheCapacity name : CachePolicy K).get k = none := by
  cases name with
  | lru => rfl
  | arc => rfl

variable {p : CachePolicy K}

theorem get_insert (p : CachePolicy K) (key k : K) (b : BlockStatus) :
    (p.insert key b).get k = if k = key then some b else p.get k := by
  cases p with
  | lru p => exact lookup_assign key k b p.blocks
  | arc p => exact p.get_insert key k b

def InT2 : CachePolicy K → K → Prop
  | .lru _, _ => False
  | .arc p, key => key ∈ p.t2

theorem not_inT2 {key : K} (missing : p.get key = none) : ¬ p.InT2 key := by
  cases p with
  | lru p => exact id
  | arc p => exact notMem_t2 missing

theorem inT2_insert (p : CachePolicy K) (key k : K) (b : BlockStatus) : (p.insert key b).InT2 k ↔
    p.InT2 k := by
  cases p with
  | lru p => exact Iff.rfl
  | arc p => exact Iff.rfl

theorem Sound.insert (sound : p.Sound) {key : K} (absent : ¬ p.InT2 key) (b : BlockStatus) :
    (p.insert key b).Sound := by
  cases p with
  | lru p => trivial
  | arc p => exact ⟨sound.1.insert absent b, sound.2.insert key b⟩

theorem get_remove (sound : p.Sound) (key k : K) : (p.remove key).get k = if k = key then none
  else p.get k := by
  cases p with
  | lru p => exact lookup_erase key k p.blocks
  | arc p => exact get_remove sound.1 key k

theorem Sound.remove (sound : p.Sound) (key : K) : (p.remove key).Sound := by
  cases p with
  | lru p => trivial
  | arc p => exact ⟨sound.1.remove key, sound.2.remove key⟩

theorem get_touch (p : CachePolicy K) (ks : List K) (k : K) : (p.touch ks).get k = p.get k := by
  cases p with
  | lru p => exact p.get_touch ks k
  | arc p => exact p.get_touch ks k

theorem Sound.touch (sound : p.Sound) (ks : List K) : (p.touch ks).Sound := by
  cases p with
  | lru p => trivial
  | arc p =>
    exact ⟨touch_keeps ks _ (fun _ key apart => apart.touchKey key) sound.1,
      touch_keeps ks _ (fun _ key bounded => bounded.touchKey key) sound.2⟩

theorem get_setRefCnt (p : CachePolicy K) (key k : K) (refCnt : Int) : (p.setRefCnt key refCnt).get k =
    if k = key then (p.get k).map fun b => { b with refCnt := cInt32 refCnt } else p.get k := by
  cases p with
  | lru p => exact lookup_modify key k _ p.blocks
  | arc p => exact p.get_setRefCnt key k refCnt

theorem Sound.setRefCnt (sound : p.Sound) (key : K) (refCnt : Int) : (p.setRefCnt key refCnt).Sound := by
  cases p with
  | lru p => trivial
  | arc p => exact ⟨sound.1.setRefCnt key refCnt, sound.2.setRefCnt key refCnt⟩

theorem evict_some {p' : CachePolicy K} {kept : List K} (sound : p.Sound)
    (done : p.evict n kept = some (evicted, p')) : Evicts p.get p'.get n kept evicted ∧ p'.Sound := by
  cases p with
  | lru p =>
    obtain ⟨⟨evicted, p'⟩, found, same⟩ := Option.map_eq_some_iff.mp done
    cases same
    exact ⟨LRUCachePolicy.evict_some found, trivial⟩
  | arc p =>
    obtain ⟨⟨evicted, p'⟩, found, same⟩ := Option.map_eq_some_iff.mp done
    cases same
    exact evict_some sound.1 sound.2 found

end CachePolicy

end TurboQuant.Offload
