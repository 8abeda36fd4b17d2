import Mathlib.Algebra.BigOperators.Group.Finset.Basic
import Mathlib.Algebra.Order.BigOperators.Group.Finset
import Mathlib.Data.Fintype.Basic
import Mathlib.Data.Finset.Max
/-!
# Announce — sharing a budget by announcing a claim before reading the others'

Parties of a finite set hold amounts against one total.  To hold more, a party announces what it wants, reads what every
other party announces, one at a time and in any order, and then takes as much as the total still has room for beside
what it read.  Reads are of different moments and rounds overlap, and yet the held sum stays within the total, or
within what was held at the start (`sum_held_le`).

The invariant orders the rounds in progress by when they were announced.  `last` is the latest announcement whose taker
was granted something: everything announced before it is within the total, and a round announced after it has read, of
every party read so far, at least what that party can hold from the rounds announced before its own.
-/
namespace Announce

open Finset

variable {ι : Type} [Fintype ι] [DecidableEq ι]

/-- A round in progress: the amount wanted, and what was read of each party so far. -/
structure Round (ι : Type) where
  want : ℕ
  seen : ι → Option ℕ

structure Party (ι : Type) where
  held : ℕ
  round : Option (Round ι)

abbrev System (ι : Type) := ι → Party ι

def Party.wanted (p : Party ι) : ℕ := p.round.elim 0 (·.want)

def Party.announced (p : Party ι) : ℕ := p.held + p.wanted

def Round.others (r : Round ι) (i : ι) : ℕ := ∑ j ∈ univ.erase i, (r.seen j).getD 0

inductive Step (total : ℕ) (s : System ι) : System ι → Prop where
  | announce (i : ι) (want : ℕ) (hidle : (s i).round = none) :
      Step total s (Function.update s i { s i with round := some ⟨want, fun _ => none⟩ })
  | read (i j : ι) (r : Round ι) (hr : (s i).round = some r) (hne : j ≠ i) :
      Step total s (Function.update s i
        { s i with round := some { r with seen := Function.update r.seen j (some (s j).announced) } })
  | settle (i : ι) (r : Round ι) (grant : ℕ) (hr : (s i).round = some r) (hwant : grant ≤ r.want)
      (hroom : grant = 0 ∨ ((∀ j, j ≠ i → (r.seen j).isSome) ∧ (s i).held + grant + r.others i ≤ total)) :
      Step total s (Function.update s i { held := (s i).held + grant, round := none })
  | release (i : ι) (held : ℕ) (hle : held ≤ (s i).held) : Step total s (Function.update s i { s i with held := held })

inductive Reachable (total : ℕ) (s₀ : System ι) : System ι → Prop where
  | init : Reachable total s₀ s₀
  | step {s s' : System ι} : Reachable total s₀ s → Step total s s' → Reachable total s₀ s'

/-- What a party can hold from the rounds announced before `t`. -/
def before (s : System ι) (stamp : ι → ℕ) (t : ℕ) (k : ι) : ℕ :=
  (s k).held + if stamp k < t then (s k).wanted else 0

/-- The order of the announcements, and what it says of the readings. -/
structure Ordered (bound : ℕ) (s : System ι) (stamp : ι → ℕ) (last : ℕ) : Prop where
  distinct : ∀ i j, (s i).round.isSome → (s j).round.isSome → stamp i = stamp j → i = j
  settled : ∀ i, (s i).round.isSome → stamp i ≠ last
  within : ∑ k, before s stamp last k ≤ bound
  read : ∀ i r, (s i).round = some r → last < stamp i →
    ∀ k, k ≠ i → ∀ v, r.seen k = some v → before s stamp (stamp i) k ≤ v

def Invariant (bound : ℕ) (s : System ι) : Prop := ∃ stamp last, Ordered bound s stamp last

omit [Fintype ι] [DecidableEq ι] in
theorem held_le_before (s : System ι) (stamp : ι → ℕ) (t : ℕ) (k : ι) : (s k).held ≤ before s stamp t k :=
  Nat.le_add_right _ _

omit [DecidableEq ι] in
theorem Invariant.sum_le {bound : ℕ} {s : System ι} (h : Invariant bound s) : ∑ k, (s k).held ≤ bound := by
  obtain ⟨stamp, last, ho⟩ := h
  exact le_trans (sum_le_sum fun k _ => held_le_before s stamp last k) ho.within

omit [Fintype ι] in
theorem before_update_ne (s : System ι) (stamp : ι → ℕ) (t : ℕ) {i k : ι} (p : Party ι) (hk : k ≠ i) :
    before (Function.update s i p) stamp t k = before s stamp t k := by
  unfold before
  rw [Function.update_of_ne hk]

omit [Fintype ι] in
theorem before_update_self (s : System ι) (stamp : ι → ℕ) (t : ℕ) (i : ι) (p : Party ι) :
    before (Function.update s i p) stamp t i = p.held + if stamp i < t then p.wanted else 0 := by
  unfold before
  rw [Function.update_self]

theorem sum_before_update_le (s : System ι) (stamp : ι → ℕ) (t : ℕ) (i : ι) (p : Party ι)
    (hp : (p.held + if stamp i < t then p.wanted else 0) ≤ before s stamp t i) :
    ∑ k, before (Function.update s i p) stamp t k ≤ ∑ k, before s stamp t k := by
  refine sum_le_sum fun k _ => ?_
  by_cases hk : k = i
  · rw [hk, before_update_self]
    exact hp
  · rw [before_update_ne _ _ _ _ hk]

/-! ## The steps -/

namespace Ordered

variable {bound : ℕ} {s : System ι} {stamp : ι → ℕ} {last : ℕ}

/-- **A lowering keeps the order**: a party that can hold no more than before from `last` on, in no new round and with no
new reading. -/
theorem lower (h : Ordered bound s stamp last) (i : ι) (p : Party ι)
    (hround : ∀ r, p.round = some r → (s i).round = some r)
    (hp : ∀ t, last ≤ t → (p.held + if stamp i < t then p.wanted else 0) ≤ before s stamp t i) :
    Ordered bound (Function.update s i p) stamp last := by
  have hsome : ∀ k, ((Function.update s i p) k).round.isSome → (s k).round.isSome := by
    intro k hk
    by_cases hki : k = i
    · subst hki
      rw [Function.update_self] at hk
      obtain ⟨r, hr⟩ := Option.isSome_iff_exists.1 hk
      rw [hround r hr]
      rfl
    · rwa [Function.update_of_ne hki] at hk
  refine ⟨fun a b ha hb => h.distinct a b (hsome a ha) (hsome b hb), fun a ha => h.settled a (hsome a ha), ?_, ?_⟩
  · exact le_trans (sum_before_update_le s stamp last i p (hp last le_rfl)) h.within
  · intro a r hr hlast k hk v hv
    have hra : (s a).round = some r := by
      by_cases hai : a = i
      · subst hai
        rw [Function.update_self] at hr
        exact hround r hr
      · rwa [Function.update_of_ne hai] at hr
    have hv' := h.read a r hra hlast k hk v hv
    by_cases hki : k = i
    · rw [hki, before_update_self]
      rw [hki] at hv'
      exact le_trans (hp _ hlast.le) hv'
    · rwa [before_update_ne _ _ _ _ hki]

theorem readStep (h : Ordered bound s stamp last) (i j : ι) (r : Round ι) (hr : (s i).round = some r) :
    Ordered bound (Function.update s i
      { s i with round := some { r with seen := Function.update r.seen j (some (s j).announced) } }) stamp last := by
  generalize hp : ({ s i with round := some { r with seen := Function.update r.seen j (some (s j).announced) } } :
    Party ι) = p
  have hheld : p.held = (s i).held := by rw [← hp]
  have hround : p.round = some { r with seen := Function.update r.seen j (some (s j).announced) } := by rw [← hp]
  have hbefore : ∀ t k, before (Function.update s i p) stamp t k = before s stamp t k := by
    intro t k
    by_cases hk : k = i
    · subst hk
      rw [before_update_self, before, hheld, Party.wanted, Party.wanted, hround, hr]
      rfl
    · exact before_update_ne _ _ _ _ hk
  have hsome : ∀ k, ((Function.update s i p) k).round.isSome → (s k).round.isSome := by
    intro k hk
    by_cases hki : k = i
    · rw [hki, hr]
      rfl
    · rwa [Function.update_of_ne hki] at hk
  refine ⟨fun a b ha hb => h.distinct a b (hsome a ha) (hsome b hb), fun a ha => h.settled a (hsome a ha), ?_, ?_⟩
  · rw [sum_congr rfl fun k _ => hbefore last k]
    exact h.within
  · intro a q hq hlast k hk v hv
    rw [hbefore]
    by_cases hai : a = i
    · subst hai
      rw [Function.update_self, hround] at hq
      obtain rfl := Option.some.inj hq
      by_cases hkj : k = j
      · subst hkj
        simp only [Function.update_self, Option.some.injEq] at hv
        rw [← hv, before, Party.announced]
        split <;> omega
      · simp only [Function.update_of_ne hkj] at hv
        exact h.read a r hr hlast k hk v hv
    · rw [Function.update_of_ne hai] at hq
      exact h.read a q hq hlast k hk v hv

/-- An announcement comes after all the others. -/
theorem announceStep (h : Ordered bound s stamp last) (i : ι) (want : ℕ) (hidle : (s i).round = none) :
    Ordered bound (Function.update s i { s i with round := some ⟨want, fun _ => none⟩ })
      (Function.update stamp i (last + 1 + ∑ k, stamp k)) last := by
  generalize hp : ({ s i with round := some ⟨want, fun _ => none⟩ } : Party ι) = p
  generalize ht : last + 1 + ∑ k, stamp k = t
  have hheld : p.held = (s i).held := by rw [← hp]
  have hround : p.round = some ⟨want, fun _ => none⟩ := by rw [← hp]
  have hfresh : ∀ k, stamp k < t := by
    intro k
    have hk : stamp k ≤ ∑ k, stamp k := single_le_sum (fun _ _ => Nat.zero_le _) (mem_univ k)
    omega
  have hlt : last < t := by omega
  -- beside the new round itself nothing is announced before an earlier stamp
  have hbefore : ∀ u, u ≤ t → ∀ k,
      before (Function.update s i p) (Function.update stamp i t) u k ≤ before s stamp u k := by
    intro u hu k
    by_cases hk : k = i
    · subst hk
      rw [before_update_self, Function.update_self, if_neg (not_lt.2 hu), hheld]
      exact held_le_before s stamp u k
    · rw [before_update_ne _ _ _ _ hk, before, before, Function.update_of_ne hk]
  refine ⟨?_, ?_, ?_, ?_⟩
  · intro a b ha hb hab
    by_cases hai : a = i
    · by_cases hbi : b = i
      · rw [hai, hbi]
      · rw [hai, Function.update_self, Function.update_of_ne hbi] at hab
        exact absurd hab.symm (Nat.ne_of_lt (hfresh b))
    · rw [Function.update_of_ne hai] at hab ha
      by_cases hbi : b = i
      · rw [hbi, Function.update_self] at hab
        exact absurd hab (Nat.ne_of_lt (hfresh a))
      · rw [Function.update_of_ne hbi] at hab hb
        exact h.distinct a b ha hb hab
  · intro a ha
    by_cases hai : a = i
    · rw [hai, Function.update_self]
      exact Nat.ne_of_gt hlt
    · rw [Function.update_of_ne hai] at ha ⊢
      exact h.settled a ha
  · exact le_trans (sum_le_sum fun k _ => hbefore last hlt.le k) h.within
  · intro a q hq hlast k hk v hv
    by_cases hai : a = i
    · subst hai
      rw [Function.update_self, hround] at hq
      obtain rfl := Option.some.inj hq
      cases hv
    · rw [Function.update_of_ne hai] at hq hlast ⊢
      exact le_trans (hbefore _ (hfresh a).le k) (h.read a q hq hlast k hk v hv)

/-- A grant to a round announced after `last` is the next `last`: what it read bounds all that was announced before. -/
theorem grantStep (h : Ordered bound s stamp last) (i : ι) (r : Round ι) (grant : ℕ) (hr : (s i).round = some r)
    (hwant : grant ≤ r.want) (hseen : ∀ j, j ≠ i → (r.seen j).isSome)
    (hroom : (s i).held + grant + r.others i ≤ bound) (hlast : last < stamp i) :
    Ordered bound (Function.update s i { held := (s i).held + grant, round := none }) stamp (stamp i) := by
  generalize hp : ({ held := (s i).held + grant, round := none } : Party ι) = p
  have hheld : p.held = (s i).held + grant := by rw [← hp]
  have hround : p.round = none := by rw [← hp]
  have hwanted : (s i).wanted = r.want := by rw [Party.wanted, hr]; rfl
  have hself : ∀ t, before (Function.update s i p) stamp t i = (s i).held + grant := by
    intro t
    rw [before_update_self, hheld, Party.wanted, hround]
    simp
  have hne : ∀ k, ((Function.update s i p) k).round.isSome → k ≠ i ∧ (s k).round.isSome := by
    intro k hk
    by_cases hki : k = i
    · rw [hki, Function.update_self, hround] at hk
      cases hk
    · exact ⟨hki, by rwa [Function.update_of_ne hki] at hk⟩
  refine ⟨fun a b ha hb => h.distinct a b (hne a ha).2 (hne b hb).2, ?_, ?_, ?_⟩
  · intro a ha hai
    exact (hne a ha).1 (h.distinct a i (hne a ha).2 (by rw [hr]; rfl) hai)
  · have hothers : ∑ k ∈ univ.erase i, before (Function.update s i p) stamp (stamp i) k ≤ r.others i := by
      refine sum_le_sum fun k hk => ?_
      have hki := ne_of_mem_erase hk
      obtain ⟨v, hv⟩ := Option.isSome_iff_exists.1 (hseen k hki)
      rw [before_update_ne _ _ _ _ hki, hv, Option.getD_some]
      exact h.read i r hr hlast k hki v hv
    rw [← add_sum_erase univ _ (mem_univ i), hself]
    omega
  · intro a q hq hai k hk v hv
    have hane : a ≠ i := fun he => by rw [he] at hai; exact absurd hai (lt_irrefl _)
    rw [Function.update_of_ne hane] at hq
    have hv' := h.read a q hq (lt_trans hlast hai) k hk v hv
    by_cases hki : k = i
    · rw [hki, hself]
      rw [hki, before, if_pos hai, hwanted] at hv'
      omega
    · rwa [before_update_ne _ _ _ _ hki]

end Ordered

/-! ## Any run -/

/-- **Every step keeps the invariant.** -/
theorem Invariant.step {bound total : ℕ} (htotal : total ≤ bound) {s s' : System ι} (h : Invariant bound s)
    (hstep : Step total s s') : Invariant bound s' := by
  obtain ⟨stamp, last, ho⟩ := h
  cases hstep with
  | announce i want hidle => exact ⟨_, last, ho.announceStep i want hidle⟩
  | read i j r hr hne => exact ⟨stamp, last, ho.readStep i j r hr⟩
  | release i held hle =>
    refine ⟨stamp, last, ho.lower i _ (fun _ hr => hr) fun t _ => ?_⟩
    exact Nat.add_le_add_right hle _
  | settle i r grant hr hwant hroom =>
    have hwanted : (s i).wanted = r.want := by rw [Party.wanted, hr]; rfl
    have hmid : (s i).round.isSome := by rw [hr]; rfl
    by_cases hlast : last < stamp i
    · rcases hroom with rfl | ⟨hseen, hroom⟩
      · refine ⟨stamp, last, ho.lower i _ nofun fun t _ => ?_⟩
        simp only [Party.wanted, Option.elim_none, ite_self, Nat.add_zero]
        exact held_le_before s stamp t i
      · exact ⟨stamp, stamp i, ho.grantStep i r grant hr hwant hseen (le_trans hroom htotal) hlast⟩
    · -- the round was announced before the last grant, which already counts what it wants
      have hlt : stamp i < last := lt_of_le_of_ne (not_lt.1 hlast) (ho.settled i hmid)
      refine ⟨stamp, last, ho.lower i _ nofun fun t ht => ?_⟩
      simp only [Party.wanted, Option.elim_none, ite_self, Nat.add_zero]
      rw [before, if_pos (lt_of_lt_of_le hlt ht), hwanted]
      omega

omit [DecidableEq ι] in
theorem Invariant.init {bound : ℕ} {s : System ι} (hidle : ∀ i, (s i).round = none)
    (hsum : ∑ i, (s i).held ≤ bound) : Invariant bound s := by
  have hwanted : ∀ i, (s i).wanted = 0 := fun i => by rw [Party.wanted, hidle i]; rfl
  refine ⟨fun _ => 0, 0, ?_, ?_, ?_, ?_⟩
  · intro i j hi
    rw [hidle i] at hi
    cases hi
  · intro i hi
    rw [hidle i] at hi
    cases hi
  · simpa only [before, hwanted, ite_self, Nat.add_zero] using hsum
  · intro i r hr
    rw [hidle i] at hr
    cases hr

/-- **The held sum stays within the total, or within what was held at the start.** -/
theorem sum_held_le {total : ℕ} {s₀ s : System ι} (hidle : ∀ i, (s₀ i).round = none)
    (h : Reachable total s₀ s) : ∑ i, (s i).held ≤ max total (∑ i, (s₀ i).held) := by
  have hinv : Invariant (max total (∑ i, (s₀ i).held)) s := by
    induction h with
    | init => exact Invariant.init hidle (le_max_right _ _)
    | step _ hstep ih => exact ih.step (le_max_left _ _) hstep
  exact hinv.sum_le

end Announce
