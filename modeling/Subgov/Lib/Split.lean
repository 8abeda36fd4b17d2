import Mathlib.Data.List.Infix
import Mathlib.Data.List.TakeDrop
/-!
# Split — a list around the first occurrence of a separator

`splitOnce` cuts at the first occurrence of a separator and drops it.  A prefix without the separator's first entry is
passed over, and what follows the cut is kept as it is, so the two lemmas `splitOnce_append` and `splitOnce_more` say
where a concatenation is cut.
-/
namespace Split

variable {α : Type} [DecidableEq α]

/-- The parts before and after the first occurrence of a separator. -/
def splitOnce (sep : List α) : List α → Option (List α × List α)
  | [] => none
  | c :: cs =>
    if sep.isPrefixOf (c :: cs) then some ([], (c :: cs).drop sep.length)
    else (splitOnce sep cs).map (fun p => (c :: p.1, p.2))

variable {s : α} {sep pre l before after : List α}

theorem splitOnce_here (sep : List α) (l : List α) (hsep : sep ≠ []) : splitOnce sep (sep ++ l) = some ([], l) := by
  cases sep with
  | nil => exact absurd rfl hsep
  | cons s sep =>
    have hprefix : (s :: sep).isPrefixOf (s :: sep ++ l) = true :=
      List.isPrefixOf_iff_prefix.2 (List.prefix_append _ _)
    rw [List.cons_append] at hprefix ⊢
    rw [splitOnce, if_pos hprefix, ← List.cons_append, List.drop_left]

/-- **A prefix without the separator's first entry is passed over.** -/
theorem splitOnce_append (h : s ∉ pre) :
    splitOnce (s :: sep) (pre ++ l) = (splitOnce (s :: sep) l).map (fun p => (pre ++ p.1, p.2)) := by
  induction pre with
  | nil => cases hl : splitOnce (s :: sep) l <;> simp [hl]
  | cons c pre ih =>
    rw [List.mem_cons, not_or] at h
    have hno : (s :: sep).isPrefixOf (c :: (pre ++ l)) = false := by
      rw [List.isPrefixOf_cons_cons, beq_eq_false_iff_ne.2 h.1, Bool.false_and]
    rw [List.cons_append, splitOnce, if_neg (by rw [hno]; exact Bool.false_ne_true), ih h.2, Option.map_map]
    rfl

/-! ## One entry as the separator -/

theorem splitOnce_singleton_cons (c x : α) (xs : List α) : splitOnce [c] (x :: xs) =
    if c = x then some ([], xs) else (splitOnce [c] xs).map (fun p => (x :: p.1, p.2)) := by
  rw [splitOnce, List.isPrefixOf_cons_cons, List.isPrefixOf_nil_left, Bool.and_true]
  simp only [beq_iff_eq, List.length_singleton, List.drop_one, List.tail_cons]

/-- **A list is its two parts around the entry**, which the first does not hold. -/
theorem splitOnce_singleton {c : α} (h : splitOnce [c] l = some (before, after)) :
    l = before ++ c :: after ∧ c ∉ before := by
  induction l generalizing before with
  | nil => cases h
  | cons x xs ih =>
    rw [splitOnce_singleton_cons] at h
    split at h
    · rename_i hhere
      cases h
      exact ⟨by rw [hhere, List.nil_append], List.not_mem_nil⟩
    · rename_i hother
      obtain ⟨⟨b, a⟩, hrest, heq⟩ := Option.map_eq_some_iff.1 h
      cases heq
      obtain ⟨hlist, hmem⟩ := ih hrest
      refine ⟨by rw [hlist, List.cons_append], ?_⟩
      rw [List.mem_cons, not_or]
      exact ⟨hother, hmem⟩

theorem splitOnce_at {c : α} (h : c ∉ pre) (l : List α) : splitOnce [c] (pre ++ c :: l) = some (pre, l) := by
  have hhere : splitOnce [c] (c :: l) = some ([], l) := splitOnce_here [c] l (List.cons_ne_nil _ _)
  rw [splitOnce_append h, hhere, Option.map_some, List.append_nil]

theorem splitOnce_eq_none {c : α} : splitOnce [c] l = none ↔ c ∉ l := by
  constructor
  · intro h hmem
    obtain ⟨before, after, hlist, hnot⟩ := List.eq_append_cons_of_mem hmem
    rw [hlist, splitOnce_at hnot] at h
    cases h
  · intro h
    have happend : splitOnce [c] (l ++ []) = _ := splitOnce_append h
    rw [List.append_nil] at happend
    exact happend

/-- **What follows the cut stays.** -/
theorem splitOnce_more {c : α} (h : splitOnce [c] l = some (before, after)) (more : List α) :
    splitOnce [c] (l ++ more) = some (before, after ++ more) := by
  obtain ⟨rfl, hmem⟩ := splitOnce_singleton h
  rw [List.append_assoc, List.cons_append, splitOnce_at hmem]

end Split
