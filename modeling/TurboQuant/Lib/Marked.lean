import Mathlib.Data.List.Infix

/-!
Texts whose fields each start with a mark.
-/

namespace Marked
open List

variable {α : Type*}

variable {mark : α}

theorem split_last {before before' field field' : List α} (plain : mark ∉ field) (plain' : mark ∉ field')
    (same : before ++ mark :: field = before' ++ mark :: field') : before = before' ∧ field = field' := by
  -- if one text before the last mark is longer, its rest puts the mark into the other field
  have longer : ∀ {a b s t : List α}, mark ∉ s → a ++ mark :: s = b ++ mark :: t →
      (∃ c, b = a ++ c ∧ mark :: s = c ++ mark :: t) → a = b ∧ s = t := by
    rintro a b s t absent _ ⟨c, rfl, rest⟩
    cases c with
    | nil =>
      exact ⟨(append_nil a).symm, (cons.inj rest).2⟩
    | cons head tail =>
      refine absurd ?_ absent
      rw [(cons.inj rest).2]
      exact mem_append_right _ mem_cons_self
  rcases append_eq_append_iff.mp same with ⟨c, right, rest⟩ | ⟨c, left, rest⟩
  · exact longer plain same ⟨c, right, rest⟩
  · obtain ⟨sameBefore, sameField⟩ := longer plain' same.symm ⟨c, left, rest⟩
    exact ⟨sameBefore.symm, sameField.symm⟩

variable [DecidableEq α]

def replaceFirst (old new : List α) : List α → List α
  | [] => if old.isPrefixOf [] then new else []
  | c :: text => if old.isPrefixOf (c :: text)
    then new ++ (c :: text).drop old.length else c :: replaceFirst old new text

theorem replaceFirst_here (old new text : List α) : replaceFirst old new (old ++ text) = new ++ text := by
  have found : old.isPrefixOf (old ++ text) = true := isPrefixOf_iff_prefix.mpr (prefix_append old text)
  cases whole : old ++ text with
  | nil =>
    obtain ⟨rfl, rfl⟩ := append_eq_nil_iff.mp whole
    rw [append_nil]
    rfl
  | cons c rest =>
    rw [whole] at found
    rw [replaceFirst, if_pos found, ← whole, drop_left]

theorem replaceFirst_absent {old text : List α} (absent : ¬ old <:+: text) (new : List α) :
    replaceFirst old new text = text := by
  induction text with
  | nil =>
    rw [replaceFirst, if_neg]
    intro found
    exact absent ( isPrefixOf_iff_prefix.mp found).isInfix
  | cons c text ih =>
    rw [infix_cons_iff, not_or] at absent
    rw [replaceFirst, if_neg (by rw [ isPrefixOf_iff_prefix]; exact absent.1), ih absent.2]

theorem replaceFirst_cons {old new text : List α} {c : α} (apart : old.isPrefixOf (c :: text) = false) :
    replaceFirst old new (c :: text) = c :: replaceFirst old new text := by
  rw [replaceFirst, apart]
  rfl

theorem replaceFirst_plain {old new plain : List α} (absent : mark ∉ plain) (text : List α) :
    replaceFirst (mark :: old) new (plain ++ text) = plain ++ replaceFirst (mark :: old) new text := by
  induction plain with
  | nil => rfl
  | cons c plain ih =>
    rw [mem_cons, not_or] at absent
    have apart : (mark :: old).isPrefixOf (c :: (plain ++ text)) = false := by
      rw [isPrefixOf_cons_cons, beq_false_of_ne absent.1, Bool.false_and]
    rw [cons_append, replaceFirst_cons apart, ih absent.2]
    rfl

theorem replaceFirst_inside {old part : List α} (occurs : old <:+: part) (new text : List α) :
    replaceFirst old new (part ++ text) = replaceFirst old new part ++ text := by
  induction part with
  | nil =>
    cases infix_nil.mp occurs
    exact replaceFirst_here [] new text
  | cons c part ih =>
    by_cases here : old <+: c :: part
    · obtain ⟨rest, whole⟩ := here
      rw [← whole, append_assoc, replaceFirst_here, replaceFirst_here, append_assoc]
    have later : old <:+: part := (infix_cons_iff.mp occurs).resolve_left here
    have apart : ¬ old <+: c :: (part ++ text) := by
      intro found
      obtain ⟨before, after, whole⟩ := later
      have short : old.length ≤ (c :: part).length := by
        rw [← whole]
        simp only [length_cons, length_append]
        omega
      exact here (prefix_of_prefix_length_le found (prefix_append (c :: part) text) short)
    rw [cons_append, replaceFirst_cons (by rwa [← Bool.not_eq_true, isPrefixOf_iff_prefix]), ih later,
      replaceFirst_cons (by rwa [← Bool.not_eq_true, isPrefixOf_iff_prefix])]
    rfl

theorem replaceFirst_outside {old part : List α} (single : mark ∉ old) (absent : ¬ mark :: old <:+: part)
    (new text : List α) :
    replaceFirst (mark :: old) new (part ++ mark :: text) = part ++
      replaceFirst (mark :: old) new (mark :: text) := by
  induction part with
  | nil => rfl
  | cons c part ih =>
    rw [infix_cons_iff, not_or] at absent
    have apart : ¬ mark :: old <+: c :: (part ++ mark :: text) := by
      intro found
      rcases Nat.lt_or_ge (c :: part).length (mark :: old).length with long | short
      · -- a longer occurrence would have the next mark inside
        have reaches : c :: (part ++ [mark]) <+: mark :: old := by
          refine prefix_of_prefix_length_le ⟨text, ?_⟩ found ?_
          · rw [cons_append, append_assoc]
            rfl
          · simp only [length_cons, length_append, length_nil] at long ⊢
            omega
        obtain ⟨rest, whole⟩ := reaches
        apply single
        rw [← (cons.inj whole).2]
        simp
      · exact absent.1 (prefix_of_prefix_length_le found (prefix_append (c :: part) (mark :: text)) short)
    rw [cons_append, replaceFirst_cons (by rwa [← Bool.not_eq_true, isPrefixOf_iff_prefix]), ih absent.2]
    rfl

theorem replaceFirst_field {old new field : List α} (absent : mark ∉ field) (text : List α)
    (apart : (mark :: old).isPrefixOf (mark :: field ++ text) = false) :
    replaceFirst (mark :: old) new (mark :: field ++ text) = mark :: field ++
      replaceFirst (mark :: old) new text := by
  have step : replaceFirst (mark :: old) new (mark :: (field ++ text)) = mark :: replaceFirst
      (mark :: old) new (field ++ text) :=
    replaceFirst_cons apart
  rw [cons_append, step, replaceFirst_plain absent]
  rfl

end Marked
