import Mathlib.Data.Finset.Max
import Mathlib.Data.List.Count
import Mathlib.Data.Prod.Lex
/-!
# Takes — taking the cheapest entry that is left

Every key has some entries, and taking one of them has a cost that may depend on how many of that key were taken
before.  `Greedy` says of a list of takes that it empties the keys and that no take could have been had for less.  Such
a list exists (`exists_greedy`), and it is the only one when no two keys have a cost in common (`Greedy.unique`).
-/
namespace Takes

variable {K α : Type} [DecidableEq K]

/-- `cost n k` is the cost of a take of `k` after `n` others of it. -/
structure Greedy [LE α] (cost : ℕ → K → α) (left : K → ℕ) (takes : List K) : Prop where
  count : ∀ k, takes.count k = left k
  least : ∀ before k after, takes = before ++ k :: after →
    ∀ j, before.count j < left j → cost (before.count k) k ≤ cost (before.count j) j

/-- The costs once `k` has been taken. -/
def costAfter (cost : ℕ → K → α) (k : K) (n : ℕ) (j : K) : α := cost (if j = k then n + 1 else n) j

/-- What is left once `k` has been taken. -/
def leftAfter (left : K → ℕ) (k j : K) : ℕ := if j = k then left j - 1 else left j

theorem leftAfter_count (ready : List K) (k : K) : leftAfter (ready.count ·) k = ((ready.erase k).count ·) := by
  funext j
  unfold leftAfter
  by_cases hj : j = k
  · rw [if_pos hj, hj, List.count_erase_self]
  · rw [if_neg hj, List.count_erase_of_ne hj]

theorem costAfter_count (cost : ℕ → K → α) (k j : K) (l : List K) :
    costAfter cost k (l.count j) j = cost ((k :: l).count j) j := by
  unfold costAfter
  by_cases hj : j = k
  · rw [if_pos hj, hj, List.count_cons_self]
  · rw [if_neg hj, List.count_cons_of_ne (Ne.symm hj)]

theorem count_lt_leftAfter_iff {left : K → ℕ} {k j : K} {l : List K} :
    l.count j < leftAfter left k j ↔ (k :: l).count j < left j := by
  unfold leftAfter
  by_cases hj : j = k
  · rw [if_pos hj, hj, List.count_cons_self]
    omega
  · rw [if_neg hj, List.count_cons_of_ne (Ne.symm hj)]

section Build

variable [LE α] {cost : ℕ → K → α} {left : K → ℕ} {k : K} {takes : List K}

theorem nil (h : ∀ k, left k = 0) : Greedy cost left [] where
  count k := by rw [h, List.count_nil]
  least before k after hsplit := by simp at hsplit

theorem cons (hleft : 0 < left k) (hleast : ∀ j, 0 < left j → cost 0 k ≤ cost 0 j)
    (h : Greedy (costAfter cost k) (leftAfter left k) takes) : Greedy cost left (k :: takes) where
  count j := by
    have hcount := h.count j
    unfold leftAfter at hcount
    by_cases hj : j = k
    · rw [if_pos hj] at hcount
      rw [hj] at hcount ⊢
      rw [List.count_cons_self]
      omega
    · rwa [if_neg hj, ← List.count_cons_of_ne (Ne.symm hj)] at hcount
  least before i after hsplit j hj := by
    cases before with
    | nil =>
      cases hsplit
      exact hleast j hj
    | cons b before =>
      cases hsplit
      rw [← costAfter_count cost, ← costAfter_count cost]
      exact h.least before i after rfl j (count_lt_leftAfter_iff.2 hj)

variable (h : Greedy cost left (k :: takes))

include h

theorem Greedy.head_left : 0 < left k := by
  rw [← h.count k, List.count_cons_self]
  exact Nat.succ_pos _

theorem Greedy.head_least {j : K} (hj : 0 < left j) : cost 0 k ≤ cost 0 j := h.least [] k takes rfl j hj

theorem Greedy.tail : Greedy (costAfter cost k) (leftAfter left k) takes where
  count j := by
    have hcount := h.count j
    unfold leftAfter
    by_cases hj : j = k
    · rw [hj, List.count_cons_self] at hcount
      rw [if_pos hj, hj]
      omega
    · rwa [if_neg hj, ← List.count_cons_of_ne (Ne.symm hj)]
  least before i after hsplit j hj := by
    rw [costAfter_count, costAfter_count]
    exact h.least (k :: before) i after (by rw [hsplit, List.cons_append]) j (count_lt_leftAfter_iff.1 hj)

end Build

namespace Greedy

variable {cost : ℕ → K → α} {left : K → ℕ} {takes : List K}

/-- A take is of a key with entries left. -/
theorem lt_left [LE α] (h : Greedy cost left takes) {before after : List K} {k : K}
    (hsplit : takes = before ++ k :: after) : before.count k < left k := by
  rw [← h.count k, hsplit, List.count_append, List.count_cons_self]
  omega

theorem perm [LE α] {ready : List K} (h : Greedy cost (ready.count ·) takes) : takes.Perm ready :=
  List.perm_iff_count.2 h.count

/-- Costs that order what is taken and left in the same way have the same greedy lists. -/
theorem mono {β : Type} [LE α] [LE β] {cost' : ℕ → K → β} (h : Greedy cost left takes)
    (hcost : ∀ n k m j, n < left k → m < left j → cost n k ≤ cost m j → cost' n k ≤ cost' m j) :
    Greedy cost' left takes where
  count := h.count
  least before k after hsplit j hj := hcost _ _ _ _ (h.lt_left hsplit) hj (h.least before k after hsplit j hj)

/-- **No other list is greedy** when no two keys have a cost in common. -/
theorem unique [PartialOrder α] {takes' : List K} (hcost : ∀ n k m j, cost n k = cost m j → k = j)
    (h : Greedy cost left takes) (h' : Greedy cost left takes') : takes = takes' := by
  induction takes generalizing cost left takes' with
  | nil =>
    cases takes' with
    | nil => rfl
    | cons k' rest' =>
      have hnone := h.count k'
      have hsome := h'.head_left
      rw [List.count_nil] at hnone
      omega
  | cons k rest ih =>
    cases takes' with
    | nil =>
      have hnone := h'.count k
      have hsome := h.head_left
      rw [List.count_nil] at hnone
      omega
    | cons k' rest' =>
      have hsame : k = k' := hcost 0 k 0 k'
        (le_antisymm (h.head_least h'.head_left) (h'.head_least h.head_left))
      cases hsame
      have hafter : ∀ n i m j, costAfter cost k n i = costAfter cost k m j → i = j := fun n i m j => hcost _ i _ j
      rw [ih hafter h.tail h'.tail]

end Greedy

/-- **Keys may be named anew**: the costs of the new names are those of the keys. -/
theorem Greedy.map_iff [LE α] {J : Type} [DecidableEq J] {f : K → J} (hf : f.Injective) {cost : ℕ → J → α}
    {ready takes : List K} : Greedy cost ((ready.map f).count ·) (takes.map f) ↔
      Greedy (fun n k => cost n (f k)) (ready.count ·) takes := by
  constructor
  · intro h
    refine ⟨fun k => ?_, fun before k after hsplit j hj => ?_⟩
    · have hcount := h.count (f k)
      rwa [List.count_map_of_injective _ _ hf, List.count_map_of_injective _ _ hf] at hcount
    · have hleast := h.least (before.map f) (f k) (after.map f) (by rw [hsplit, List.map_append, List.map_cons]) (f j)
      simp only [List.count_map_of_injective _ _ hf] at hleast
      exact hleast hj
  · intro h
    refine ⟨fun i => ?_, fun before i after hsplit j hj => ?_⟩
    · exact (h.perm.map f).count_eq i
    · obtain ⟨before', rest, rfl, rfl, hrest⟩ := List.map_eq_append_iff.1 hsplit
      obtain ⟨k, after', rfl, rfl, rfl⟩ := List.map_eq_cons_iff.1 hrest
      have hmem : j ∈ ready.map f := List.count_pos_iff.1 (Nat.zero_lt_of_lt hj)
      obtain ⟨j', -, rfl⟩ := List.mem_map.1 hmem
      simp only [List.count_map_of_injective _ _ hf] at hj ⊢
      exact h.least before' k after' rfl j' hj

/-- **The entries of a list can be taken greedily.** -/
theorem exists_greedy [LinearOrder α] (cost : ℕ → K → α) (ready : List K) :
    ∃ takes, Greedy cost (ready.count ·) takes := by
  induction hn : ready.length generalizing cost ready with
  | zero =>
    rw [List.length_eq_zero_iff.1 hn]
    exact ⟨[], nil fun k => List.count_nil⟩
  | succ n ih =>
    have hne : ready ≠ [] := List.ne_nil_of_length_eq_add_one hn
    obtain ⟨k, hk, hleast⟩ := Finset.exists_min_image ready.toFinset (cost 0) (List.toFinset_nonempty_iff _ |>.2 hne)
    simp only [List.mem_toFinset] at hk hleast
    obtain ⟨takes, htakes⟩ := ih (costAfter cost k) (ready.erase k) (by rw [List.length_erase_of_mem hk, hn]; rfl)
    rw [← leftAfter_count] at htakes
    exact ⟨k :: takes, cons (List.count_pos_iff.2 hk) (fun j hj => hleast j (List.count_pos_iff.1 hj)) htakes⟩

/-! ## Places in a list -/

theorem exists_split_of_lt_count {l : List K} {k : K} {n : ℕ} (h : n < l.count k) :
    ∃ before after, l = before ++ k :: after ∧ before.count k = n := by
  induction l generalizing n with
  | nil => simp at h
  | cons x l ih =>
    by_cases hx : k = x
    · subst hx
      cases n with
      | zero => exact ⟨[], l, rfl, rfl⟩
      | succ n =>
        rw [List.count_cons_self] at h
        obtain ⟨before, after, rfl, hcount⟩ := ih (Nat.lt_of_succ_lt_succ h)
        exact ⟨k :: before, after, rfl, by rw [List.count_cons_self, hcount]⟩
    · rw [List.count_cons_of_ne (Ne.symm hx)] at h
      obtain ⟨before, after, rfl, hcount⟩ := ih h
      exact ⟨x :: before, after, rfl, by rw [List.count_cons_of_ne (Ne.symm hx), hcount]⟩

omit [DecidableEq K] in
/-- Of two places with different entries one comes first. -/
theorem split_before_or {before before' after after' : List K} {k k' : K}
    (h : before ++ k :: after = before' ++ k' :: after') (hne : k ≠ k') :
    (∃ mid, before' = before ++ k :: mid) ∨ ∃ mid, before = before' ++ k' :: mid := by
  rcases List.append_eq_append_iff.1 h with ⟨mid, hbefore, hrest⟩ | ⟨mid, hbefore, hrest⟩
  · cases mid with
    | nil => exact absurd (List.cons.inj hrest).1 hne
    | cons m mid => exact Or.inl ⟨mid, by rw [hbefore, (List.cons.inj hrest).1]⟩
  · cases mid with
    | nil => exact absurd (List.cons.inj hrest).1.symm hne
    | cons m mid => exact Or.inr ⟨mid, by rw [hbefore, (List.cons.inj hrest).1]⟩

theorem count_le_of_split {before mid : List K} (k : K) : before.count k ≤ (before ++ mid).count k := by
  rw [List.count_append]
  exact Nat.le_add_right _ _

/-! ## Loads

A key has a load, and a take adds one to it.
-/

section Loads

variable {load left : K → ℕ} {takes : List K}

/-- The load a key has reached. -/
def level (load : K → ℕ) (n : ℕ) (k : K) : ℕ := load k + n

/-- **Loads level out**: of two keys with entries left before the last of some takes, one that was taken is at most one
above the other. -/
theorem Greedy.balanced (h : Greedy (level load) left takes) {before after : List K} (hsplit : takes = before ++ after)
    {r s : K} (hr : r ∈ before) (hs : before.dropLast.count s < left s) :
    load r + before.count r ≤ load s + before.count s + 1 := by
  have hpos : 0 < before.count r := List.count_pos_iff.2 hr
  obtain ⟨b, a, hbefore, hcount⟩ := exists_split_of_lt_count (Nat.sub_lt hpos Nat.one_pos)
  have hdrop : before.dropLast = b ++ (r :: a).dropLast := by
    rw [hbefore, List.dropLast_append_of_ne_nil (List.cons_ne_nil _ _)]
  have hless : b.count s ≤ before.dropLast.count s := by
    rw [hdrop]
    exact count_le_of_split s
  have hle : b.count s ≤ before.count s := by
    rw [hbefore]
    exact count_le_of_split s
  have hleast := h.least b r (a ++ after) (by rw [hsplit, hbefore, List.append_assoc, List.cons_append]) s
    (Nat.lt_of_le_of_lt hless hs)
  unfold level at hleast
  omega

/-- One of two keys is taken at a load where the other stands too, with entries left. -/
def Meet (load left : K → ℕ) (takes : List K) (k j : K) : Prop := ∃ before after, takes = before ++ k :: after ∧
  before.count j < left j ∧ load k + before.count k = load j + before.count j

theorem Greedy.meet_of_first (h : Greedy (level load) left takes) {k j : K} {n m : ℕ} {before mid after : List K}
    (hsplit : takes = before ++ k :: (mid ++ j :: after)) (hk : before.count k = n)
    (hj : (before ++ k :: mid).count j = m) (hlevel : load k + n = load j + m) : Meet load left takes k j := by
  have hmj : m < left j := by
    rw [← hj]
    exact h.lt_left (show takes = (before ++ k :: mid) ++ j :: after by simp [hsplit])
  have hle : before.count j ≤ m := by
    rw [← hj]
    exact count_le_of_split j
  have hleast := h.least before k _ hsplit j (by omega)
  unfold level at hleast
  exact ⟨before, _, hsplit, by omega, by omega⟩

/-- **Keys whose loads pass through a common value meet.** -/
theorem Greedy.meet (h : Greedy (level load) left takes) {r s : K} (hne : r ≠ s) (hr : 0 < left r)
    (hs : 0 < left s) (hrs : load r < load s + left s) (hsr : load s < load r + left r) :
    Meet load left takes r s ∨ Meet load left takes s r := by
  obtain ⟨m, hmr, hms, hm⟩ : ∃ m, load r ≤ m ∧ load s ≤ m ∧ (m = load r ∨ m = load s) :=
    ⟨max (load r) (load s), le_max_left _ _, le_max_right _ _, max_choice _ _⟩
  have hcr : m - load r < takes.count r := by
    rw [h.count r]
    omega
  have hcs : m - load s < takes.count s := by
    rw [h.count s]
    omega
  obtain ⟨br, ar, hbr, hnr⟩ := exists_split_of_lt_count hcr
  obtain ⟨bs, as, hbs, hns⟩ := exists_split_of_lt_count hcs
  have hlevel : load r + (m - load r) = load s + (m - load s) := by omega
  rcases split_before_or (hbr.symm.trans hbs) hne with ⟨mid, hmid⟩ | ⟨mid, hmid⟩
  · have hsplit : takes = br ++ r :: (mid ++ s :: as) := by rw [hbs, hmid, List.append_assoc, List.cons_append]
    exact Or.inl (h.meet_of_first hsplit hnr (hmid ▸ hns) hlevel)
  · have hsplit : takes = bs ++ s :: (mid ++ r :: ar) := by rw [hbr, hmid, List.append_assoc, List.cons_append]
    exact Or.inr (h.meet_of_first hsplit hns (hmid ▸ hnr) hlevel.symm)

end Loads

/-! ## Counters that wrap

The least loaded key is taken, the smaller one of two that are loaded alike; the loads are kept modulo `M`.
-/

section Wrapping

variable [LinearOrder K] {M : ℕ} {load left : K → ℕ} {takes : List K}

def exactCost (load : K → ℕ) (n : ℕ) (k : K) : ℕ ×ₗ K := toLex (load k + n, k)

def wrappedCost (M : ℕ) (load : K → ℕ) (n : ℕ) (k : K) : ℕ ×ₗ K := toLex ((load k + n) % M, k)

omit [DecidableEq K] [LinearOrder K] in
theorem exactCost_ne {n m : ℕ} {k j : K} (h : exactCost load n k = exactCost load m j) : k = j :=
  (Prod.mk.inj (toLex.injective h)).2

omit [DecidableEq K] [LinearOrder K] in
theorem wrappedCost_ne {n m : ℕ} {k j : K} (h : wrappedCost M load n k = wrappedCost M load m j) : k = j :=
  (Prod.mk.inj (toLex.injective h)).2

omit [DecidableEq K] in
theorem level_le_of_exactCost {n m : ℕ} {k j : K} (h : exactCost load n k ≤ exactCost load m j) :
    level load n k ≤ level load m j := by
  rcases Prod.Lex.toLex_le_toLex.1 h with hlt | ⟨heq, -⟩
  · exact Nat.le_of_lt hlt
  · exact Nat.le_of_eq heq

theorem Greedy.level_of_exact (h : Greedy (exactCost load) left takes) : Greedy (level load) left takes :=
  h.mono fun _ _ _ _ _ _ hle => level_le_of_exactCost hle

/-- Of the keys whose counters reach the modulus only the largest one passes it. -/
def NoneWraps (M : ℕ) (load left : K → ℕ) : Prop :=
  ∀ r s, r < s → M ≤ load s + left s → load r + left r ≤ M

variable (hload : ∀ k, load k < M)

include hload

/-- While no counter passes the modulus before its key is the only one left, wrapping changes no choice. -/
theorem Greedy.wrapped_of_exact (hnone : NoneWraps M load left) (h : Greedy (exactCost load) left takes) :
    Greedy (wrappedCost M load) left takes where
  count := h.count
  least before k after hsplit j hj := by
    have hleast := h.least before k after hsplit j hj
    have hk := h.lt_left hsplit
    by_cases hkj : k = j
    · rw [hkj]
    · by_cases hlow : load j + before.count j < M
      · have hle := level_le_of_exactCost hleast
        unfold level at hle
        unfold wrappedCost
        rw [Nat.mod_eq_of_lt hlow, Nat.mod_eq_of_lt (Nat.lt_of_le_of_lt hle hlow)]
        exact hleast
      · exfalso
        have hjM := hload j
        -- the take that brought `j` to the modulus passed over `k`
        obtain ⟨b, a, hbefore, hcount⟩ :=
          exists_split_of_lt_count (show M - 1 - load j < before.count j by omega)
        have hkb : b.count k ≤ before.count k := by
          rw [hbefore]
          exact count_le_of_split k
        have hpass := h.least b j (a ++ k :: after) (by rw [hsplit, hbefore, List.append_assoc, List.cons_append]) k
          (Nat.lt_of_le_of_lt hkb hk)
        rw [hcount] at hpass
        rcases Prod.Lex.toLex_le_toLex.1 hpass with hlt | ⟨heq, hjk⟩
        · dsimp only at hlt
          rcases lt_or_gt_of_ne hkj with hlt' | hgt
          · have hcap := hnone k j hlt' (by omega)
            omega
          · have hcap := hnone j k hgt (by omega)
            omega
        · dsimp only at heq hjk
          have hcap := hnone j k (lt_of_le_of_ne hjk (Ne.symm hkj)) (by omega)
          omega

/-- A wrapped counter takes a key too early where another one still has entries left. -/
theorem Greedy.noneWraps (hexact : Greedy (level load) left takes) (h : Greedy (wrappedCost M load) left takes) :
    NoneWraps M load left := by
  intro r s hrs hs
  by_contra hr
  have hrM := hload r
  have hsM := hload s
  have hcr := h.count r
  obtain ⟨q, aq, hq, hqr⟩ := exists_split_of_lt_count (show M - load r < takes.count r by omega)
  have hqs : M - load s ≤ q.count s := by
    by_contra hless
    have hleast := hexact.least q r aq hq s (by omega)
    unfold level at hleast
    omega
  obtain ⟨p, ap, hp, hpr⟩ := exists_split_of_lt_count (show M - 1 - load r < q.count r by omega)
  obtain ⟨b, ab, hb, hbs⟩ := exists_split_of_lt_count (show M - 1 - load s < q.count s by omega)
  have hsplit : takes = b ++ s :: (ab ++ r :: aq) := by rw [hq, hb, List.append_assoc, List.cons_append]
  have hbr : b.count r ≤ q.count r := by
    rw [hb]
    exact count_le_of_split r
  have hleast := h.least b s _ hsplit r (by omega)
  rw [hbs] at hleast
  have hlevel : M - 1 ≤ load r + b.count r := by
    have hle := hexact.least b s _ hsplit r (by omega)
    unfold level at hle
    omega
  rcases split_before_or (hp.symm.trans hb) (ne_of_lt hrs) with ⟨mid, hmid⟩ | ⟨mid, hmid⟩
  · -- `r` has reached the modulus and is counted as zero
    have hbr' : b.count r = M - load r := by
      have hone : p.count r + 1 ≤ b.count r := by
        rw [hmid, List.count_append, List.count_cons_self]
        omega
      omega
    unfold wrappedCost at hleast
    rw [hbr', show load s + (M - 1 - load s) = M - 1 by omega, show load r + (M - load r) = M by omega, Nat.mod_self,
      Nat.mod_eq_of_lt (by omega)] at hleast
    rcases Prod.Lex.toLex_le_toLex.1 hleast with hlt | ⟨-, hle⟩
    · exact absurd hlt (Nat.not_lt_zero _)
    · exact absurd hrs (not_lt.2 hle)
  · -- both stand below the modulus, and the smaller is `r`
    have hbp : b.count r ≤ p.count r := by
      rw [hmid]
      exact count_le_of_split r
    unfold wrappedCost at hleast
    rw [show load s + (M - 1 - load s) = M - 1 by omega, show load r + b.count r = M - 1 by omega] at hleast
    rcases Prod.Lex.toLex_le_toLex.1 hleast with hlt | ⟨-, hle⟩
    · exact absurd hlt (lt_irrefl _)
    · exact absurd hrs (not_lt.2 hle)

/-- **Wrapped counters make an exact choice** throughout exactly when none passes the modulus too early. -/
theorem Greedy.exact_iff (h : Greedy (wrappedCost M load) left takes) :
    Greedy (exactCost load) left takes ↔ NoneWraps M load left := by
  constructor
  · exact fun hexact => hexact.level_of_exact.noneWraps hload h
  · intro hnone
    obtain ⟨takes', hexact⟩ := exists_greedy (exactCost load) takes
    have hleft : (fun k => takes.count k) = left := by
      funext k
      exact h.count k
    rw [hleft] at hexact
    have hsame := h.unique (fun _ _ _ _ => wrappedCost_ne) (hexact.wrapped_of_exact hload hnone)
    rwa [hsame]

end Wrapping

end Takes
