import TurboQuant.Ascend.EplbPolicy
import Mathlib.Data.Fin.VecNotation
import Mathlib.Data.List.ReduceOption

/-!
The alignment of a new placement with the slots of the old one.
-/

namespace TurboQuant.Ascend.Eplb
open Outcome List Function

variable {current cur new : List Nat} {slots ss : List (Option Nat)} {remaining : List Nat}

def Keeps (slot : Option Nat) (now : Nat) : Prop := slot = none ∨ slot = some now

def Stays (current : List Nat) (e now : Nat) : Prop := e ∈ current → e = now

theorem keepSlot_spec (e : Nat) (kept : Forall₂ Keeps ss cur) :
    ∃ found, keepSlot e cur ss = .ok found ∧ (found = none → e ∈ cur → e ∈ ss.reduceOption) ∧
      ∀ res, found = some res → Forall₂ Keeps res cur ∧ res.reduceOption.Perm (e :: ss.reduceOption) := by
  induction kept with
  | nil => exact ⟨none, by rw [keepSlot], fun _ => nofun, nofun⟩
  | @cons slot now ss cur first later ih =>
    rw [keepSlot]
    by_cases here : e = now ∧ slot = none
    · obtain ⟨rfl, rfl⟩ := here
      refine ⟨some (some e :: ss), if_pos ⟨rfl, rfl⟩, nofun, fun res same => ?_⟩
      rw [← Option.some.inj same]
      exact ⟨.cons (.inr rfl) later, by rw [reduceOption_cons_of_some, reduceOption_cons_of_none]⟩
    · obtain ⟨found, ran, missing, spec⟩ := ih
      refine ⟨found.map (slot :: ·), by rw [if_neg here, ran]; rfl, fun none mem => ?_, fun res same => ?_⟩
      · replace missing := missing (Option.map_eq_none_iff.mp none)
        rcases first with rfl | rfl
        · exact missing ((mem_cons.mp mem).resolve_left fun same => here ⟨same, rfl⟩)
        · rw [reduceOption_cons_of_some]
          exact mem_cons.mpr ((mem_cons.mp mem).imp_right missing)
      · obtain ⟨rest, inRest, rfl⟩ := Option.map_eq_some_iff.mp same
        obtain ⟨kept, perm⟩ := spec rest inRest
        refine ⟨.cons first kept, ?_⟩
        rcases first with rfl | rfl
        · simpa only [reduceOption_cons_of_none] using perm
        · simp only [reduceOption_cons_of_some]
          exact (perm.cons now).trans (.swap e now _)

theorem fillSlots_spec (ss : List (Option Nat)) (remaining : List Nat)
    (count : ss.length = ss.reduceOption.length + remaining.length) :
    ∃ res, fillSlots ss remaining = .ok res ∧ res.Perm (ss.reduceOption ++ remaining) := by
  induction ss generalizing remaining with
  | nil =>
    have empty : remaining = [] := length_eq_zero_iff.mp (by simpa using count.symm)
    exact ⟨[], by rw [fillSlots], by rw [empty]; exact .refl _⟩
  | cons slot ss ih =>
    cases slot with
    | some e =>
      rw [reduceOption_cons_of_some] at count ⊢
      obtain ⟨res, ran, perm⟩ := ih remaining (by simp only [length_cons] at count; omega)
      exact ⟨e :: res, by rw [fillSlots, ran]; rfl, perm.cons e⟩
    | none =>
      rw [reduceOption_cons_of_none] at count ⊢
      have short := reduceOption_length_le ss
      obtain ⟨e, remaining, rfl⟩ : ∃ e rest, remaining = e :: rest := exists_cons_of_ne_nil fun empty => by
        rw [empty, length_cons, length_nil] at count
        omega
      obtain ⟨res, ran, perm⟩ := ih remaining (by simp only [length_cons] at count; omega)
      exact ⟨e :: res, by rw [fillSlots, ran]; rfl, (perm.cons e).trans perm_middle.symm⟩

theorem fillSlots_stays {all res : List Nat} (kept : Forall₂ Keeps ss current)
    (away : ∀ e ∈ remaining, e ∉ all)
    (ran : fillSlots ss remaining = .ok res) : Forall₂ (Stays all) res current := by
  induction kept generalizing remaining res with
  | nil =>
    cases ran
    exact .nil
  | @cons slot now ss current first _ ih =>
    rcases first with rfl | rfl
    · cases remaining with
      | nil => cases ran
      | cons e remaining =>
        obtain ⟨rest, filled, rfl⟩ := map_ok ran
        refine .cons (fun mem => absurd mem (away e mem_cons_self)) (ih (fun e later => ?_) filled)
        exact away e (mem_cons_of_mem _ later)
    · obtain ⟨rest, filled, rfl⟩ := map_ok ran
      exact .cons (fun _ => rfl) (ih away filled)

theorem fillSlots_aligned (kept : Forall₂ Keeps ss cur) (length : cur.length = new.length)
    (perm : (ss.reduceOption ++ remaining).Perm new) : ∃ res, fillSlots ss remaining = .ok res ∧ res.Perm new ∧
      ((∀ e ∈ remaining, e ∉ cur) → Forall₂ (Stays cur) res cur) := by
  obtain ⟨res, ran, order⟩ := fillSlots_spec ss remaining (by rw [kept.length_eq, length,
    ← perm.length_eq, length_append])
  exact ⟨res, ran, order.trans perm, fun away => fillSlots_stays kept away ran⟩

theorem localExchange_spec (length : current.length = new.length) :
    ∃ res, localExchange current new = .ok res ∧ res.Perm new ∧
      (new.Nodup → Forall₂ (Stays current) res current) := by
  have each : ∀ done e rest (σ : List (Option Nat) × List Nat), new = done ++ e :: rest →
      Forall₂ Keeps σ.1 current ∧ (σ.1.reduceOption ++ σ.2).Perm done ∧ (new.Nodup → ∀ e ∈ σ.2, e ∉ current) →
      (∃ err, keepSlots current σ e = .error err ∧ False) ∨ ∃ s', keepSlots current σ e = .ok s' ∧
        Forall₂ Keeps s'.1 current ∧ (s'.1.reduceOption ++ s'.2).Perm (done ++ [e]) ∧
        (new.Nodup → ∀ e ∈ s'.2, e ∉ current) := by
    intro done e rest σ split ⟨kept, perm, away⟩
    obtain ⟨found, ran, missing, spec⟩ := keepSlot_spec e kept
    cases found with
    | none =>
      refine .inr ⟨(σ.1, σ.2 ++ [e]), bind_of_ok ran rfl, kept, ?_, fun nodup d mem lt => ?_⟩
      · rw [← append_assoc]
        exact perm.append_right [e]
      · rcases mem_append.mp mem with before | last
        · exact away nodup d before lt
        · -- an expert without a free slot would be in the new row twice
          rw [mem_singleton.mp last] at lt
          rw [split] at nodup
          have again := perm.mem_iff.mp (mem_append_left _ (missing rfl lt))
          exact (nodup_middle.mp nodup).notMem (mem_append_left _ again)
    | some res =>
      obtain ⟨kept', added⟩ := spec res rfl
      refine .inr ⟨(res, σ.2), bind_of_ok ran rfl, kept', ?_, away⟩
      exact (added.append_right σ.2).trans ((perm.cons e).trans (perm_append_singleton e done).symm)
  have start : Forall₂ Keeps (replicate new.length none) current := by
    rw [← length, forall₂_iff_get]
    exact ⟨length_replicate, fun i _ _ => .inl (by simp)⟩
  rcases foldlM_total (fun done (σ : List (Option Nat) × List Nat) =>
      Forall₂ Keeps σ.1 current ∧ (σ.1.reduceOption ++ σ.2).Perm done ∧ (new.Nodup → ∀ e ∈ σ.2, e ∉ current))
      (fun _ => False) each (s := (replicate new.length none, [])) ⟨start, by simp, fun _ => nofun⟩ with
    ⟨_, _, stuck⟩ | ⟨σ, ran, kept, perm, away⟩
  · exact stuck.elim
  · obtain ⟨res, filled, order, stays⟩ := fillSlots_aligned kept length perm
    exact ⟨res, bind_of_ok ran filled, order, fun nodup => stays (away nodup)⟩

/-! ### The rows of FlashLB -/

/-- The second list has the values at the positions of the new row that are not used yet. The last
position of a value is used first. -/
def alignSlot (state : List (Option Nat) × List Nat) (v : Nat) : List (Option Nat) × List Nat :=
  if v ∈ state.2 then (state.1 ++ [some v], (state.2.reverse.erase v).reverse)
  else (state.1 ++ [none], state.2)

/-- A row of `minimize_redeploy_with_inner_permutation` -/
def alignRow (sRow dRow : List Nat) : Except PolicyError (List Nat) :=
  let state := sRow.foldl alignSlot ([], dRow)
  fillSlots state.1 state.2

theorem foldl_alignSlot (apart : new.Nodup) (sRow : List Nat) : let state := sRow.foldl alignSlot ([], new)
    Forall₂ Keeps state.1 sRow ∧ (state.1.reduceOption ++ state.2).Perm new ∧ ∀ v ∈ state.2, v ∉ sRow := by
  induction sRow using reverseRecOn with
  | nil => exact ⟨.nil, .refl _, fun _ _ => not_mem_nil⟩
  | append_singleton done v ih =>
    obtain ⟨kept, perm, taken⟩ := ih
    rw [foldl_append]
    simp only [foldl_cons, foldl_nil, mem_append, mem_singleton, not_or]
    generalize done.foldl alignSlot ([], new) = state at kept perm taken
    unfold alignSlot
    split
    · rename_i unused
      have fewer : state.2.Perm (v :: (state.2.reverse.erase v).reverse) :=
        ((reverse_perm _).symm.trans (perm_cons_erase (mem_reverse.mpr unused))).trans
          ((reverse_perm _).symm.cons v)
      have nodup := fewer.nodup_iff.mp (nodup_append.mp (perm.nodup_iff.mpr apart)).2.1
      refine ⟨rel_append kept (.cons (.inr rfl) .nil), ?_, fun w later => ⟨?_, ?_⟩⟩
      · rw [reduceOption_append, append_assoc]
        exact (fewer.symm.append_left _).trans perm
      · exact taken w (fewer.mem_iff.mpr (mem_cons_of_mem _ later))
      · rintro rfl
        exact (nodup_cons.mp nodup).1 later
    · rename_i missing
      refine ⟨rel_append kept (.cons (.inl rfl) .nil), ?_, fun w later => ⟨taken w later, ?_⟩⟩
      · simpa [reduceOption_append] using perm
      · rintro rfl
        exact missing later

theorem alignRow_spec (apart : new.Nodup) (length : current.length = new.length) :
    ∃ res, alignRow current new = .ok res ∧ res.Perm new ∧ Forall₂ (Stays current) res current := by
  obtain ⟨kept, perm, taken⟩ := foldl_alignSlot apart current
  obtain ⟨res, ran, order, stays⟩ := fillSlots_aligned kept length perm
  exact ⟨res, ran, order, stays taken⟩

/-! ### Placements -/

section
variable {ranks slots : Nat}

/-- Every rank gets its new experts, those that stay keep their slots, and the check finds no
movement inside a rank. -/
def AlignsSlots (align : List Nat → List Nat → Except PolicyError (List Nat))
    (old new : Fin ranks → Fin slots → Nat) : Prop :=
  ∃ aligned : Fin ranks → Fin slots → Nat,
    (∀ r, align (ofFn (old r)) (ofFn (new r)) = .ok (ofFn (aligned r)) ∧
      (ofFn (aligned r)).Perm (ofFn (new r)) ∧
      NoMovement (old r) (aligned r)) ∧ (passesCheck old aligned ↔ (hosted old).card ≤ (hosted aligned).card)

theorem alignsSlots {align : List Nat → List Nat → Except PolicyError (List Nat)}
    {old new : Fin ranks → Fin slots → Nat} (apart : ∀ r, Injective (new r))
    (spec : ∀ r, ∃ result, align (ofFn (old r)) (ofFn (new r)) = .ok result ∧ result.Perm (ofFn (new r)) ∧
      Forall₂ (Stays (ofFn (old r))) result (ofFn (old r))) : AlignsSlots align old new := by
  have rows : ∀ r, ∃ row : Fin slots → Nat, align (ofFn (old r)) (ofFn (new r)) = .ok (ofFn row) ∧
      (ofFn row).Perm (ofFn (new r)) ∧ NoMovement (old r) row := by
    intro r
    obtain ⟨result, ran, perm, stays⟩ := spec r
    have length : result.length = slots := perm.length_eq.trans length_ofFn
    obtain ⟨row, rfl⟩ : ∃ row : Fin slots → Nat, ofFn row = result :=
      ⟨fun s => result.get (s.cast length.symm), by subst length; exact ofFn_get result⟩
    refine ⟨row, ran, perm, fun s mem => ?_⟩
    obtain ⟨t, _, same⟩ := Finset.mem_image.mp mem
    have slot := stays.get (i := s.val) (by simp) (by simp)
    simp only [get_eq_getElem, List.getElem_ofFn] at slot
    exact slot (mem_ofFn.mpr ⟨t, same⟩)
  choose aligned each using rows
  refine ⟨aligned, each, passesCheck_iff.trans (and_iff_left fun r => ⟨?_, (each r).2.2⟩)⟩
  exact nodup_ofFn.mp ((each r).2.1.nodup_iff.mpr (nodup_ofFn.mpr (apart r)))

/-- `mapping` is the assignment of new rows to ranks that FlashLB gets from the solver. -/
theorem alignments_keep_slots (old new : Fin ranks → Fin slots → Nat) (distinct : ∀ r, Injective (new r)) :
    AlignsSlots localExchange old new ∧
      ∀ mapping : Equiv.Perm (Fin ranks), AlignsSlots alignRow old fun r => new (mapping r) := by
  refine ⟨alignsSlots distinct fun r => ?_, fun mapping =>
    alignsSlots (fun r => distinct (mapping r)) fun r => ?_⟩
  · obtain ⟨result, ran, perm, stays⟩ :=
      localExchange_spec (show (ofFn (old r)).length = (ofFn (new r)).length by simp)
    exact ⟨result, ran, perm, stays (nodup_ofFn.mpr (distinct r))⟩
  · exact alignRow_spec (nodup_ofFn.mpr (distinct (mapping r))) (by simp)

theorem alignments_keep_slots_cycle : AlignsSlots localExchange ![![0, 1, 2]] ![![1, 3, 0]] ∧
    AlignsSlots alignRow ![![0, 1, 2]] ![![1, 3, 0]] := by
  have distinct : ∀ r, Injective ((![![1, 3, 0]] : Fin 1 → Fin 3 → Nat) r) := by decide
  obtain ⟨exchanged, aligned⟩ := alignments_keep_slots ![![0, 1, 2]] ![![1, 3, 0]] distinct
  exact ⟨exchanged, aligned (Equiv.refl _)⟩

end

end TurboQuant.Ascend.Eplb
