import Mathlib.Data.Nat.Basic
import Mathlib.Order.MinMax
import Std.Data.ExtTreeMap
/-!
# Select — choosing an element of a list by a key or a comparison

The two choices an iterator makes: the first element of the smallest key, and the last element no later one exceeds.
Under a total preorder the second is a greatest element, so without ties the order of the list does not matter
(`maxBy_eq_of_mem_iff`).
-/
namespace Select

variable {α : Type}

/-- The first of the elements with the smallest key. -/
def minByKey (key : α → Nat) : List α → Option α
  | [] => none
  | x :: xs => some (xs.foldl (fun best y => if key y < key best then y else best) x)

/-- The last of the elements no other is greater than under `cmp`, compared from the left. -/
def maxBy (cmp : α → α → Ordering) : List α → Option α
  | [] => none
  | x :: xs => some (xs.foldl (fun best y => if cmp best y = .gt then best else y) x)

theorem foldl_minKey (key : α → Nat) : ∀ (xs : List α) (x : α),
    let m := xs.foldl (fun best y => if key y < key best then y else best) x
    (m = x ∨ m ∈ xs) ∧ key m ≤ key x ∧ ∀ y ∈ xs, key m ≤ key y
  | [], x => by simp
  | y :: ys, x => by
    simp only [List.foldl_cons]
    obtain ⟨hmem, hle, hall⟩ := foldl_minKey key ys (if key y < key x then y else x)
    refine ⟨?_, ?_, ?_⟩
    · rcases hmem with h | h
      · rw [h]
        split
        · exact Or.inr List.mem_cons_self
        · exact Or.inl rfl
      · exact Or.inr (List.mem_cons_of_mem _ h)
    · apply le_trans hle
      split <;> omega
    · intro z hz
      rcases List.mem_cons.1 hz with rfl | hz
      · apply le_trans hle
        split <;> omega
      · exact hall z hz

theorem minByKey_le {key : α → Nat} {xs : List α} {m : α} (h : minByKey key xs = some m) :
    ∀ x ∈ xs, key m ≤ key x := by
  cases xs with
  | nil => cases h
  | cons y ys =>
    simp only [minByKey, Option.some.injEq] at h
    obtain ⟨-, hle, hall⟩ := foldl_minKey key ys y
    rw [h] at hle hall
    intro x hx
    rcases List.mem_cons.1 hx with rfl | hx
    · exact hle
    · exact hall x hx

theorem minByKey_mem {key : α → Nat} {xs : List α} {m : α} (h : minByKey key xs = some m) : m ∈ xs := by
  cases xs with
  | nil => cases h
  | cons y ys =>
    simp only [minByKey, Option.some.injEq] at h
    obtain ⟨hmem, -⟩ := foldl_minKey key ys y
    rw [h] at hmem
    exact List.mem_cons.2 hmem

theorem minByKey_isSome (key : α → Nat) {xs : List α} (h : xs ≠ []) : ∃ m, minByKey key xs = some m := by
  cases xs with
  | nil => exact absurd rfl h
  | cons x xs => exact ⟨_, rfl⟩

theorem foldl_maxBy (cmp : α → α → Ordering) : ∀ (xs : List α) (x : α),
    let m := xs.foldl (fun best y => if cmp best y = .gt then best else y) x
    m = x ∨ m ∈ xs
  | [], x => Or.inl rfl
  | y :: ys, x => by
    simp only [List.foldl_cons]
    rcases foldl_maxBy cmp ys (if cmp x y = .gt then x else y) with h | h
    · rw [h]
      split
      · exact Or.inl rfl
      · exact Or.inr List.mem_cons_self
    · exact Or.inr (List.mem_cons_of_mem _ h)

theorem maxBy_mem {cmp : α → α → Ordering} {xs : List α} {m : α} (h : maxBy cmp xs = some m) : m ∈ xs := by
  cases xs with
  | nil => cases h
  | cons x xs =>
    simp only [maxBy, Option.some.injEq] at h
    rcases foldl_maxBy cmp xs x with hm | hm <;> rw [h] at hm
    · exact hm ▸ List.mem_cons_self
    · exact List.mem_cons_of_mem _ hm

/-- An element that no earlier one is greater than is chosen when it comes last. -/
theorem maxBy_concat {cmp : α → α → Ordering} {xs : List α} {y : α} (h : ∀ x ∈ xs, cmp x y ≠ .gt) :
    maxBy cmp (xs ++ [y]) = some y := by
  cases xs with
  | nil => rfl
  | cons x xs =>
    have hmem : maxBy cmp (x :: xs) = some (xs.foldl (fun best z => if cmp best z = .gt then best else z) x) := rfl
    rw [List.cons_append, maxBy, List.foldl_append, List.foldl_cons, List.foldl_nil, if_neg (h _ (maxBy_mem hmem))]

theorem foldl_maxBy_congr {cmp cmp' : α → α → Ordering} : ∀ (xs : List α) (x : α),
    (∀ a ∈ x :: xs, ∀ b ∈ x :: xs, cmp a b = cmp' a b) →
    xs.foldl (fun best y => if cmp best y = .gt then best else y) x =
      xs.foldl (fun best y => if cmp' best y = .gt then best else y) x
  | [], x, _ => rfl
  | y :: ys, x, h => by
    have hxy : cmp x y = cmp' x y := h x List.mem_cons_self y (List.mem_cons_of_mem _ List.mem_cons_self)
    rw [List.foldl_cons, List.foldl_cons, hxy]
    refine foldl_maxBy_congr ys _ fun a ha b hb => h a ?_ b ?_
    · rcases List.mem_cons.1 ha with rfl | ha
      · split
        · exact List.mem_cons_self
        · exact List.mem_cons_of_mem _ List.mem_cons_self
      · exact List.mem_cons_of_mem _ (List.mem_cons_of_mem _ ha)
    · rcases List.mem_cons.1 hb with rfl | hb
      · split
        · exact List.mem_cons_self
        · exact List.mem_cons_of_mem _ List.mem_cons_self
      · exact List.mem_cons_of_mem _ (List.mem_cons_of_mem _ hb)

theorem maxBy_congr {cmp cmp' : α → α → Ordering} {xs : List α} (h : ∀ a ∈ xs, ∀ b ∈ xs, cmp a b = cmp' a b) :
    maxBy cmp xs = maxBy cmp' xs := by
  cases xs with
  | nil => rfl
  | cons x xs => exact congrArg some (foldl_maxBy_congr xs x h)

theorem foldl_maxBy_isLE (cmp : α → α → Ordering) [Std.TransCmp cmp] : ∀ (xs : List α) (x : α),
    let m := xs.foldl (fun best y => if cmp best y = .gt then best else y) x
    (cmp x m).isLE ∧ ∀ y ∈ xs, (cmp y m).isLE
  | [], x => by
    have hself : cmp x x = .eq := Std.ReflCmp.compare_self
    refine ⟨?_, nofun⟩
    rw [List.foldl_nil, hself]
    rfl
  | y :: ys, x => by
    simp only [List.foldl_cons]
    obtain ⟨hle, hall⟩ := foldl_maxBy_isLE cmp ys (if cmp x y = .gt then x else y)
    generalize List.foldl (fun best y => if cmp best y = .gt then best else y) (if cmp x y = .gt then x else y) ys = m
      at hle hall
    by_cases hgt : cmp x y = .gt
    · rw [if_pos hgt] at hle
      have hyx : (cmp y x).isLE := by rw [Std.OrientedCmp.lt_of_gt hgt]; rfl
      refine ⟨hle, fun z hz => ?_⟩
      rcases List.mem_cons.1 hz with rfl | hz
      · exact Std.TransCmp.isLE_trans hyx hle
      · exact hall z hz
    · rw [if_neg hgt] at hle
      have hxy : (cmp x y).isLE := Ordering.isLE_iff_ne_gt.2 hgt
      refine ⟨Std.TransCmp.isLE_trans hxy hle, fun z hz => ?_⟩
      rcases List.mem_cons.1 hz with rfl | hz
      · exact hle
      · exact hall z hz

theorem maxBy_isLE {cmp : α → α → Ordering} [Std.TransCmp cmp] {xs : List α} {m : α} (h : maxBy cmp xs = some m) :
    ∀ x ∈ xs, (cmp x m).isLE := by
  cases xs with
  | nil => cases h
  | cons x xs =>
    simp only [maxBy, Option.some.injEq] at h
    obtain ⟨hle, hall⟩ := foldl_maxBy_isLE cmp xs x
    rw [h] at hle hall
    intro y hy
    rcases List.mem_cons.1 hy with rfl | hy
    · exact hle
    · exact hall y hy

/-- **Without ties the choice depends on the elements alone**, not on their order or repetition. -/
theorem maxBy_eq_of_mem_iff {cmp : α → α → Ordering} [Std.TransCmp cmp] {xs ys : List α}
    (hset : ∀ x, x ∈ xs ↔ x ∈ ys) (htie : ∀ x ∈ xs, ∀ y ∈ xs, cmp x y = .eq → x = y) :
    maxBy cmp xs = maxBy cmp ys := by
  cases hx : maxBy cmp xs with
  | none =>
    cases hy : maxBy cmp ys with
    | none => rfl
    | some n =>
      cases xs with
      | nil => exact absurd ((hset n).2 (maxBy_mem hy)) List.not_mem_nil
      | cons x xs => cases hx
  | some m =>
    have hm := maxBy_mem hx
    cases hy : maxBy cmp ys with
    | none =>
      cases ys with
      | nil => exact absurd ((hset m).1 hm) List.not_mem_nil
      | cons y ys => cases hy
    | some n =>
      have hn := (hset n).2 (maxBy_mem hy)
      have hnm := maxBy_isLE hx n hn
      have hmn := maxBy_isLE hy m ((hset m).1 hm)
      rw [htie m hm n hn (Std.OrientedCmp.isLE_antisymm hmn hnm)]

/-- The least element depends on the list as a set. -/
theorem min?_eq_of_mem_iff [LinearOrder α] {xs ys : List α} (h : ∀ a, a ∈ xs ↔ a ∈ ys) : xs.min? = ys.min? := by
  cases hx : xs.min? with
  | none =>
    have hnil : xs = [] := List.min?_eq_none_iff.1 hx
    have hys : ys = [] := by
      apply List.eq_nil_iff_forall_not_mem.2
      intro a ha
      have hmem := (h a).2 ha
      rw [hnil] at hmem
      cases hmem
    rw [hys]
    rfl
  | some a =>
    obtain ⟨hmem, hle⟩ := List.min?_eq_some_iff.1 hx
    exact (List.min?_eq_some_iff.2 ⟨(h a).1 hmem, fun b hb => hle b ((h b).2 hb)⟩).symm

end Select
