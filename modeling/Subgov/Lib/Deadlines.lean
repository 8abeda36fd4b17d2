import Mathlib.Algebra.Order.Field.Basic
import Mathlib.Data.List.Sort
import Mathlib.Order.Bounds.Basic
/-!
# Deadlines — the least rate that serves jobs in time

Jobs are served one after another, the `k`-th when the work `need k` is done; each has to be served within a time of
its own.  An order `Meets` the deadlines at a rate when the rate does the work of every position in the time of the job
there.  Where later positions need no less work, serving the jobs by their times is as good as any other order
(`Meets.of_perm`), so that the `pace` of the sorted jobs is the least rate of all orders (`pace_isLeast`).
-/
namespace Deadlines

variable {K J : Type*} [Field K] [LinearOrder K] [IsStrictOrderedRing K]

/-- At this rate every job of the order is served within its time. -/
def Meets (need : Nat → K) (time : J → K) (rate : K) (order : List J) : Prop :=
  ∀ k j, order[k]? = some j → need k ≤ rate * time j

/-- The rate that the jobs take in this order, on top of a base rate. -/
def pace (need : Nat → K) (time : J → K) (base : K) (order : List J) : K :=
  order.zipIdx.foldl (fun rate j => max rate (need j.2 / time j.1)) base

section Counting

variable {α : Type*} {p : α → Bool} {xs : List α} {k : Nat}

/-- More than `k` elements with a property do not fit before position `k`. -/
theorem exists_of_lt_countP (h : k < xs.countP p) : ∃ i x, k ≤ i ∧ xs[i]? = some x ∧ p x = true := by
  have hsplit : xs.countP p = (xs.take k).countP p + (xs.drop k).countP p := by
    rw [← List.countP_append, List.take_append_drop]
  have hbefore : (xs.take k).countP p ≤ k := List.countP_le_length.trans (List.length_take_le k xs)
  have hafter : 0 < (xs.drop k).countP p := by omega
  obtain ⟨x, hx, hp⟩ := List.countP_pos_iff.1 hafter
  obtain ⟨i, hi⟩ := List.mem_iff_getElem?.1 hx
  rw [List.getElem?_drop] at hi
  exact ⟨k + i, x, Nat.le_add_right k i, hi, hp⟩

omit [Field K] [IsStrictOrderedRing K] in
/-- In an ordered list more than `k` elements are at most the one at position `k`. -/
theorem lt_countP_of_pairwise {time : α → K} {x : α} (hsorted : xs.Pairwise (fun a b => time a ≤ time b))
    (h : xs[k]? = some x) : k < xs.countP (fun a => decide (time a ≤ time x)) := by
  obtain ⟨hk, hx⟩ := List.getElem?_eq_some_iff.1 h
  have hfirst : (xs.take (k + 1)).countP (fun a => decide (time a ≤ time x)) = (xs.take (k + 1)).length := by
    rw [List.countP_eq_length]
    intro a ha
    obtain ⟨i, hi, ha⟩ := List.mem_take_iff_getElem.1 ha
    rw [decide_eq_true_eq, ← ha, ← hx]
    rcases Nat.lt_or_ge i k with hbefore | hsame
    · exact List.pairwise_iff_getElem.1 hsorted i k _ hk hbefore
    · have heq : i = k := by omega
      subst heq
      exact le_refl _
  have hlength : (xs.take (k + 1)).length = k + 1 := List.length_take_of_le hk
  have hmore : (xs.take (k + 1)).countP (fun a => decide (time a ≤ time x)) ≤
      xs.countP (fun a => decide (time a ≤ time x)) := (List.take_sublist (k + 1) xs).countP_le
  omega

end Counting

variable {need : Nat → K} {time : J → K} {base rate : K} {jobs order : List J}

/-- **Serving by the times meets what any order meets**: of the jobs due by a position's time one is served there or
later. -/
theorem Meets.of_perm (hmono : Monotone need) (hrate : 0 ≤ rate)
    (hsorted : jobs.Pairwise (fun a b => time a ≤ time b)) (hperm : order.Perm jobs)
    (h : Meets need time rate order) : Meets need time rate jobs := by
  intro k j hj
  have hcount := lt_countP_of_pairwise hsorted hj
  rw [← hperm.countP_eq] at hcount
  obtain ⟨i, late, hki, hlate, htime⟩ := exists_of_lt_countP hcount
  calc need k ≤ need i := hmono hki
    _ ≤ rate * time late := h i late hlate
    _ ≤ rate * time j := mul_le_mul_of_nonneg_left (of_decide_eq_true htime) hrate

omit [IsStrictOrderedRing K] in
/-- The pace reads no more of the jobs than their times. -/
theorem pace_map {I : Type*} (need : Nat → K) (time : J → K) (base : K) (f : I → J) (order : List I) :
    pace need time base (order.map f) = pace need (fun i => time (f i)) base order := by
  unfold pace
  rw [List.zipIdx_map, List.foldl_map]
  rfl

theorem foldl_pace_le_iff (htime : ∀ j ∈ jobs, 0 < time j) (n : Nat) (start : K) :
    (jobs.zipIdx n).foldl (fun rate j => max rate (need j.2 / time j.1)) start ≤ rate ↔
      start ≤ rate ∧ ∀ k j, jobs[k]? = some j → need (n + k) ≤ rate * time j := by
  induction jobs generalizing n start with
  | nil => simp
  | cons j jobs ih =>
    have hj := htime j List.mem_cons_self
    rw [List.zipIdx_cons, List.foldl_cons, ih fun i hi => htime i (List.mem_cons_of_mem _ hi), max_le_iff,
      div_le_iff₀ hj, and_assoc]
    refine and_congr_right fun _ => ?_
    constructor
    · rintro ⟨hhead, htail⟩ k i hi
      cases k with
      | zero =>
        rw [List.getElem?_cons_zero, Option.some.injEq] at hi
        rw [← hi]
        exact hhead
      | succ k =>
        rw [List.getElem?_cons_succ] at hi
        have hrest := htail k i hi
        rw [Nat.add_right_comm, Nat.add_assoc] at hrest
        exact hrest
    · intro h
      refine ⟨h 0 j rfl, fun k i hi => ?_⟩
      rw [Nat.add_right_comm, Nat.add_assoc]
      exact h (k + 1) i hi

/-- The pace is within a rate that is no less than the base and meets the deadlines in this order. -/
theorem pace_le_iff (htime : ∀ j ∈ jobs, 0 < time j) :
    pace need time base jobs ≤ rate ↔ base ≤ rate ∧ Meets need time rate jobs := by
  have h : (jobs.zipIdx 0).foldl (fun rate j => max rate (need j.2 / time j.1)) base ≤ rate ↔
      base ≤ rate ∧ ∀ k j, jobs[k]? = some j → need (0 + k) ≤ rate * time j := foldl_pace_le_iff htime 0 base
  simp only [Nat.zero_add] at h
  exact h

/-- **The pace of the jobs by their times is the least rate of all orders.** -/
theorem pace_isLeast (hmono : Monotone need) (hbase : 0 ≤ base) (htime : ∀ j ∈ jobs, 0 < time j)
    (hsorted : jobs.Pairwise (fun a b => time a ≤ time b)) :
    IsLeast {rate | base ≤ rate ∧ ∃ order : List J, order.Perm jobs ∧ Meets need time rate order}
      (pace need time base jobs) := by
  constructor
  · obtain ⟨hle, hmeets⟩ := (pace_le_iff htime).1 (le_refl (pace need time base jobs))
    exact ⟨hle, jobs, List.Perm.refl jobs, hmeets⟩
  · rintro rate ⟨hle, order, hperm, hmeets⟩
    exact (pace_le_iff htime).2 ⟨hle, hmeets.of_perm hmono (hbase.trans hle) hsorted hperm⟩

end Deadlines
