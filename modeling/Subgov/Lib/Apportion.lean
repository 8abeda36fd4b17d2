import Mathlib.Algebra.Order.BigOperators.Group.List
import Mathlib.Algebra.BigOperators.Ring.Finset
import Mathlib.Algebra.BigOperators.Ring.List
import Mathlib.Algebra.Order.Ring.Nat
import Mathlib.Data.Rat.Floor
import Mathlib.Logic.Function.Basic
import Mathlib.Logic.Relation
/-!
# Apportion — whole shares of a budget

Entries ask for shares of a budget in the ratio of their weights.  What each asks for stays within the budget when no
entry asks for more than its ratio (`sum_le_of_ratio`); the floors of the exact shares are one such request, and what
they leave is handed out one by one: the first entries get one each (`topUp`), or some entry below its cap gets the next
one until nothing is left or every entry is full (`Fills`).
-/
namespace Apportion

variable {α : Type}

/-- Entries that contribute nothing are left out of a sum. -/
theorem sum_filter_eq {p : α → Bool} {f : α → ℕ} {entries : List α} (h : ∀ e ∈ entries, p e = false → f e = 0) :
    ((entries.filter p).map f).sum = (entries.map f).sum := by
  induction entries with
  | nil => rfl
  | cons e entries ih =>
    have hrest := ih fun x hx => h x (List.mem_cons_of_mem _ hx)
    cases hp : p e with
    | true => rw [List.filter_cons_of_pos hp, List.map_cons, List.map_cons, List.sum_cons, List.sum_cons, hrest]
    | false =>
      rw [List.filter_cons_of_neg (by rw [hp]; exact Bool.false_ne_true), List.map_cons, List.sum_cons,
        h e List.mem_cons_self hp, Nat.zero_add, hrest]

/-- Entries of two kinds, each with its own share, are all the entries. -/
theorem map_filter_append_perm {β : Type} (p : α → Bool) (f g : α → β) (entries : List α) :
    ((entries.filter p).map f ++ (entries.filter (!p ·)).map g).Perm (entries.map fun e => if p e then f e else g e) := by
  have hfirst : (entries.filter p).map f = (entries.filter p).map fun e => if p e then f e else g e :=
    List.map_congr_left fun e he => (if_pos (List.mem_filter.1 he).2).symm
  have hothers : (entries.filter (!p ·)).map g = (entries.filter (!p ·)).map fun e => if p e then f e else g e := by
    refine List.map_congr_left fun e he => (if_neg ?_).symm
    simpa using (List.mem_filter.1 he).2
  rw [hfirst, hothers, ← List.map_append]
  exact (List.filter_append_perm p entries).map _

theorem sum_le_of_ratio {entries : List α} {target weight : α → Nat} {budget total : Nat} (htotal : 0 < total)
    (hratio : ∀ e ∈ entries, target e * total ≤ budget * weight e) (hweights : (entries.map weight).sum ≤ total) :
    (entries.map target).sum ≤ budget := by
  refine Nat.le_of_mul_le_mul_right ?_ htotal
  calc (entries.map target).sum * total
      = (entries.map fun e => target e * total).sum := (List.sum_map_mul_right _ _ _).symm
    _ ≤ (entries.map fun e => budget * weight e).sum := List.sum_le_sum hratio
    _ = budget * (entries.map weight).sum := List.sum_map_mul_left _ _ _
    _ ≤ budget * total := Nat.mul_le_mul_left budget hweights

/-- **The floors of the exact shares are within the budget.** -/
theorem sum_floors_le {entries : List α} {weight : α → Nat} {budget total : Nat} (htotal : 0 < total)
    (hweights : (entries.map weight).sum ≤ total) :
    (entries.map fun e => budget * weight e / total).sum ≤ budget :=
  sum_le_of_ratio htotal (fun _ _ => Nat.div_mul_le_self _ _) hweights

/-- One more for each of the first entries. -/
def topUp (spare : Nat) (shares : List (α × Nat)) : List (α × Nat) :=
  (shares.take spare).map (fun share => (share.1, share.2 + 1)) ++ shares.drop spare

theorem sum_topUp_le (spare : Nat) (shares : List (α × Nat)) :
    ((topUp spare shares).map Prod.snd).sum ≤ (shares.map Prod.snd).sum + spare := by
  have hfirst : ((shares.take spare).map fun share => share.2 + 1).sum ≤
      ((shares.take spare).map Prod.snd).sum + spare := by
    rw [List.sum_map_add, List.map_const', List.sum_replicate, nsmul_eq_mul, Nat.cast_id, mul_one]
    have hlength := List.length_take_le spare shares
    omega
  have hsplit : ((shares.take spare).map Prod.snd).sum + ((shares.drop spare).map Prod.snd).sum =
      (shares.map Prod.snd).sum := by
    rw [← List.sum_append, ← List.map_append, List.take_append_drop]
  unfold topUp
  rw [List.map_append, List.map_map, List.sum_append]
  change ((shares.take spare).map fun share => share.2 + 1).sum + _ ≤ _
  omega

theorem keys_topUp (spare : Nat) (shares : List (α × Nat)) :
    (topUp spare shares).map Prod.fst = shares.map Prod.fst := by
  unfold topUp
  rw [List.map_append, List.map_map]
  change (shares.take spare).map Prod.fst ++ _ = _
  rw [← List.map_append, List.take_append_drop]

/-! ## Rational weights -/

/-- **Shares under their part of a budget sum to no more than the budget**: the part is the entry's weight over the sum
of the weights. -/
theorem sum_le_of_parts {entries : List α} {share : α → ℕ} {weight : α → ℚ} {budget : ℕ}
    (hshare : ∀ e ∈ entries, (share e : ℚ) ≤ budget * (weight e / (entries.map weight).sum)) :
    (entries.map share).sum ≤ budget := by
  have hsum : ((entries.map share).sum : ℚ) ≤ budget * ((entries.map weight).sum / (entries.map weight).sum) := by
    calc ((entries.map share).sum : ℚ)
        = (entries.map fun e => (share e : ℚ)).sum := by rw [Nat.cast_list_sum, List.map_map]; rfl
      _ ≤ (entries.map fun e => budget * (weight e / (entries.map weight).sum)).sum := List.sum_le_sum hshare
      _ = budget * ((entries.map weight).sum / (entries.map weight).sum) := by
          rw [List.sum_map_mul_left]
          simp only [div_eq_mul_inv]
          rw [List.sum_map_mul_right]
  have hone : (entries.map weight).sum / (entries.map weight).sum ≤ 1 := div_self_le_one _
  have hbudget : (budget : ℚ) * ((entries.map weight).sum / (entries.map weight).sum) ≤ budget :=
    mul_le_of_le_one_right (Nat.cast_nonneg _) hone
  exact_mod_cast le_trans hsum hbudget

/-! ## One at a time -/

section Fill

variable [DecidableEq α] (entries : List α) (cap : α → ℕ)

/-- One of what is left goes to an entry below its cap. -/
inductive Grant : ℕ × (α → ℕ) → ℕ × (α → ℕ) → Prop
  | one {left : ℕ} {share : α → ℕ} {e : α} (hmem : e ∈ entries) (hroom : share e < cap e) :
      Grant (left + 1, share) (left, Function.update share e (share e + 1))

/-- Grants one after the other. -/
abbrev Fills : ℕ × (α → ℕ) → ℕ × (α → ℕ) → Prop := Relation.ReflTransGen (Grant entries cap)

variable {entries cap} {x y : ℕ × (α → ℕ)}

theorem Grant.other (h : Grant entries cap x y) {e : α} (he : e ∉ entries) : y.2 e = x.2 e := by
  cases h with
  | one hmem _ => exact Function.update_of_ne (ne_of_mem_of_not_mem hmem he).symm _ _

theorem Grant.le (h : Grant entries cap x y) (e : α) : x.2 e ≤ y.2 e := by
  cases h with
  | @one left share f hmem hroom =>
    dsimp only
    by_cases hsame : e = f
    · rw [hsame, Function.update_self]
      exact Nat.le_succ _
    · rw [Function.update_of_ne hsame]

theorem Grant.within (h : Grant entries cap x y) (hcap : ∀ e, x.2 e ≤ cap e) : ∀ e, y.2 e ≤ cap e := by
  intro e
  cases h with
  | @one left share f hmem hroom =>
    by_cases hsame : e = f
    · rw [hsame]
      exact le_of_eq_of_le (Function.update_self _ _ _) hroom
    · exact le_of_eq_of_le (Function.update_of_ne hsame _ _) (hcap e)

theorem Grant.balance (h : Grant entries cap x y) (hnd : entries.Nodup) :
    (entries.map y.2).sum + y.1 = (entries.map x.2).sum + x.1 := by
  cases h with
  | @one left share f hmem hroom =>
    have hsum : ∀ (l : List α), l.Nodup → f ∈ l →
        (l.map (Function.update share f (share f + 1))).sum = (l.map share).sum + 1 := by
      intro l hl hf
      induction l with
      | nil => cases hf
      | cons e l ih =>
        rw [List.nodup_cons] at hl
        rw [List.map_cons, List.map_cons, List.sum_cons, List.sum_cons]
        rcases List.mem_cons.1 hf with rfl | hf
        · have hrest : l.map (Function.update share f (share f + 1)) = l.map share :=
            List.map_congr_left fun e he => Function.update_of_ne (ne_of_mem_of_not_mem he hl.1) _ _
          rw [hrest, Function.update_self]
          omega
        · have hne : e ≠ f := (ne_of_mem_of_not_mem hf hl.1).symm
          rw [Function.update_of_ne hne, ih hl.2 hf]
          omega
    dsimp only
    rw [hsum entries hnd hmem]
    omega

theorem Fills.other (h : Fills entries cap x y) {e : α} (he : e ∉ entries) : y.2 e = x.2 e := by
  induction h with
  | refl => rfl
  | tail _ hgrant ih => exact (hgrant.other he).trans ih

/-- **Grants take nothing back.** -/
theorem Fills.le (h : Fills entries cap x y) (e : α) : x.2 e ≤ y.2 e := by
  induction h with
  | refl => exact Nat.le_refl _
  | tail _ hgrant ih => exact Nat.le_trans ih (hgrant.le e)

theorem Fills.within (h : Fills entries cap x y) (hcap : ∀ e, x.2 e ≤ cap e) : ∀ e, y.2 e ≤ cap e := by
  induction h with
  | refl => exact hcap
  | tail _ hgrant ih => exact hgrant.within ih

theorem Fills.balance (h : Fills entries cap x y) (hnd : entries.Nodup) :
    (entries.map y.2).sum + y.1 = (entries.map x.2).sum + x.1 := by
  induction h with
  | refl => rfl
  | tail _ hgrant ih => exact (hgrant.balance hnd).trans ih

/-- **Grants until nothing is left or every entry is full** give out all there is room for. -/
theorem Fills.sum_eq (h : Fills entries cap x y) (hnd : entries.Nodup) (hcap : ∀ e, x.2 e ≤ cap e)
    (hdone : y.1 = 0 ∨ ∀ e ∈ entries, cap e ≤ y.2 e) :
    (entries.map y.2).sum = min ((entries.map x.2).sum + x.1) (entries.map cap).sum := by
  have hbalance := h.balance hnd
  have hle : (entries.map y.2).sum ≤ (entries.map cap).sum := List.sum_le_sum fun e _ => h.within hcap e
  rcases hdone with hspent | hfull
  · omega
  · have hge : (entries.map cap).sum ≤ (entries.map y.2).sum := List.sum_le_sum hfull
    omega

end Fill

/-! ## Largest remainders -/

section Remainders

variable [DecidableEq α] {entries ordered : List α} {weight : α → ℕ} {budget total spare : ℕ}

/-- The exact share rounded down, and one more for the first entries of an order. -/
def remainderShare (weight : α → ℕ) (budget total spare : ℕ) (ordered : List α) (e : α) : ℕ :=
  budget * weight e / total + if e ∈ ordered.take spare then 1 else 0

omit [DecidableEq α] in
/-- Euclidean division, summed. -/
theorem sum_floors_add_sum_remainders (weight : α → ℕ) (budget total : ℕ) (entries : List α) :
    (entries.map fun e => budget * weight e / total).sum * total +
      (entries.map fun e => budget * weight e % total).sum = budget * (entries.map weight).sum := by
  rw [← List.sum_map_mul_right, ← List.sum_map_add, ← List.sum_map_mul_left]
  refine congrArg List.sum (List.map_congr_left fun e _ => ?_)
  rw [Nat.mul_comm]
  exact Nat.div_add_mod _ _

/-- The first entries of a list without repetitions are treated one way and the others another. -/
theorem map_ite_take {β : Type} (hnd : ordered.Nodup) (f g : α → β) :
    (ordered.map fun e => if e ∈ ordered.take spare then f e else g e) =
      (ordered.take spare).map f ++ (ordered.drop spare).map g := by
  have hsplit := List.take_append_drop spare ordered
  have hdisjoint : ∀ e ∈ ordered.drop spare, e ∉ ordered.take spare := by
    rw [← hsplit, List.nodup_append] at hnd
    exact fun e he htake => hnd.2.2 e htake e he rfl
  conv => lhs; rhs; rw [← hsplit]
  rw [List.map_append]
  congr 1
  · exact List.map_congr_left fun e he => if_pos he
  · exact List.map_congr_left fun e he => if_neg (hdisjoint e he)

theorem topUp_map {κ : Type} {key : α → κ} (hnd : ordered.Nodup) :
    topUp spare (ordered.map fun e => (key e, budget * weight e / total)) =
      ordered.map fun e => (key e, remainderShare weight budget total spare ordered e) := by
  unfold topUp
  rw [← List.map_take, ← List.map_drop, List.map_map]
  refine (map_ite_take hnd (fun e => (key e, budget * weight e / total + 1)) _).symm.trans ?_
  refine List.map_congr_left fun e _ => ?_
  unfold remainderShare
  split <;> rfl

theorem sum_remainderShare (hnd : ordered.Nodup) (hspare : spare ≤ ordered.length) :
    (ordered.map (remainderShare weight budget total spare ordered)).sum =
      (ordered.map fun e => budget * weight e / total).sum + spare := by
  have hextra : (ordered.map fun e => if e ∈ ordered.take spare then 1 else 0).sum = spare := by
    rw [map_ite_take hnd, List.map_const', List.map_const', List.sum_append, List.sum_replicate, List.sum_replicate,
      List.length_take, Nat.min_eq_left hspare]
    simp
  unfold remainderShare
  rw [List.sum_map_add, hextra]

omit [DecidableEq α] in
theorem sum_remainders_le (weight : α → ℕ) (budget : ℕ) (htotal : 0 < total) (entries : List α) :
    (entries.map fun e => budget * weight e % total).sum ≤ entries.length * total := by
  have hbound := List.sum_le_card_nsmul (entries.map fun e => budget * weight e % total) total
    (List.forall_mem_map.2 fun e _ => Nat.le_of_lt (Nat.mod_lt _ htotal))
  rwa [List.length_map, nsmul_eq_mul, Nat.cast_id] at hbound

omit [DecidableEq α] in
/-- What the floors leave is what the remainders come to. -/
theorem spare_mul_total (htotal : 0 < total) (hweights : (entries.map weight).sum = total)
    (hspare : spare = budget - (entries.map fun e => budget * weight e / total).sum) :
    spare * total = (entries.map fun e => budget * weight e % total).sum := by
  have hsum := sum_floors_add_sum_remainders weight budget total entries
  have hle : (entries.map fun e => budget * weight e / total).sum * total ≤ budget * total :=
    Nat.mul_le_mul_right total (sum_floors_le htotal (Nat.le_of_eq hweights))
  rw [hweights] at hsum
  rw [hspare, Nat.sub_mul]
  omega

omit [DecidableEq α] in
theorem spare_le_length (htotal : 0 < total) (hweights : (entries.map weight).sum = total)
    (hspare : spare = budget - (entries.map fun e => budget * weight e / total).sum) : spare ≤ entries.length := by
  have hbound := sum_remainders_le weight budget htotal entries
  rw [← spare_mul_total htotal hweights hspare] at hbound
  exact Nat.le_of_mul_le_mul_right hbound htotal

omit [DecidableEq α] in
/-- **An entry without remainder is not topped up**, where the larger remainders come first. -/
theorem not_mem_take_of_remainder_zero (htotal : 0 < total)
    (hspare : spare * total = (ordered.map fun e => budget * weight e % total).sum)
    (hsorted : ordered.Pairwise fun e f => budget * weight f % total ≤ budget * weight e % total) {e : α}
    (hzero : budget * weight e % total = 0) : e ∉ ordered.take spare := by
  intro hmem
  obtain ⟨before, after, htake⟩ := List.append_of_mem hmem
  have hordered : ordered = before ++ e :: (after ++ ordered.drop spare) := by
    rw [← List.cons_append, ← List.append_assoc, ← htake, List.take_append_drop]
  have hlater : ∀ f ∈ e :: (after ++ ordered.drop spare), budget * weight f % total = 0 := by
    intro f hf
    rcases List.mem_cons.1 hf with rfl | hf
    · exact hzero
    · rw [hordered, List.pairwise_append] at hsorted
      have hle := List.rel_of_pairwise_cons hsorted.2.1 hf
      omega
  have hbefore : before.length < spare := by
    have hlength := congrArg List.length htake
    rw [List.length_append, List.length_cons] at hlength
    have htaken := List.length_take_le spare ordered
    omega
  -- only the entries before it have remainders, and there are fewer of them than units to hand out
  have hsum : spare * total = (before.map fun f => budget * weight f % total).sum := by
    rw [hspare, hordered, List.map_append, List.sum_append, List.sum_eq_zero (List.forall_mem_map.2 hlater), Nat.add_zero]
  have hbound := sum_remainders_le weight budget htotal before
  rw [← hsum] at hbound
  exact absurd (Nat.le_of_mul_le_mul_right hbound htotal) (Nat.not_le.2 hbefore)

end Remainders

/-! ## Capped shares -/

/-- **Fair shares of a budget**: none past its target, all of the budget while there are targets for it, entries without
demand after those with, and entries of one demand that are below their targets at most one apart. -/
structure Fair (target demand : α → ℕ) (entries : List α) (budget : ℕ) (share : α → ℕ) : Prop where
  within : ∀ e ∈ entries, share e ≤ target e
  sum_eq : (entries.map share).sum = min budget (entries.map target).sum
  demand_first : ∀ e ∈ entries, demand e = 0 → 0 < share e → ∀ f ∈ entries, 0 < demand f → share f = target f
  level : ∀ e ∈ entries, ∀ f ∈ entries, 0 < demand e → demand e = demand f → share e < target e →
    share f < target f → share e ≤ share f + 1

/-- The weights are the demands, unless there is no demand. -/
def Basis (weight demand : α → ℕ) (entries : List α) : Prop :=
  (∀ e ∈ entries, weight e = demand e) ∨ ∀ e ∈ entries, demand e = 0

section Capped

variable {target demand weight rest : α → ℕ} {entries : List α} {budget total : ℕ}

theorem Fair.of_spent (hspent : entries = [] ∨ budget = 0) : Fair target demand entries budget fun _ => 0 where
  within _ _ := Nat.zero_le _
  sum_eq := by
    have hzero : (entries.map fun _ => 0).sum = 0 := List.sum_eq_zero (List.forall_mem_map.2 fun _ _ => rfl)
    rw [hzero]
    rcases hspent with rfl | rfl
    · exact (Nat.min_zero _).symm
    · exact (Nat.zero_min _).symm
  demand_first _ _ _ hpos := absurd hpos (Nat.lt_irrefl 0)
  level _ _ _ _ _ _ _ _ := Nat.zero_le _

/-- A proportional share would carry the entry to its target. -/
def reaches (target weight : α → ℕ) (total budget : ℕ) (e : α) : Bool := decide (target e * total ≤ budget * weight e)

/-- **Entries that a proportional share fills take their targets**, and the others share what is left fairly. -/
theorem Fair.of_capped (htarget : ∀ e ∈ entries, 0 < target e) (htotal : 0 < total)
    (hweights : (entries.map weight).sum = total) (hbasis : Basis weight demand entries)
    (h : Fair target demand (entries.filter (!reaches target weight total budget ·))
      (budget - ((entries.filter (reaches target weight total budget)).map target).sum) rest) :
    Fair target demand entries budget fun e => if reaches target weight total budget e then target e else rest e := by
  have hrest : ∀ {e}, e ∈ entries → ¬ reaches target weight total budget e = true →
      e ∈ entries.filter (!reaches target weight total budget ·) := fun he hno =>
    List.mem_filter.2 ⟨he, by rw [Bool.eq_false_iff.2 hno]; rfl⟩
  refine ⟨fun e he => ?_, ?_, fun e he hidle hgot f hf hready => ?_, fun e he f hf hready hsame hebelow hfbelow => ?_⟩
  · split
    · exact Nat.le_refl _
    · rename_i hno
      exact h.within e (hrest he hno)
  · have hfilled : ((entries.filter (reaches target weight total budget)).map target).sum ≤ budget := by
      refine sum_le_of_ratio htotal (fun e he => of_decide_eq_true (List.mem_filter.1 he).2) ?_
      rw [← hweights]
      exact List.Sublist.sum_le_sum (List.filter_sublist.map _) fun _ _ => Nat.zero_le _
    have hshares := (map_filter_append_perm (reaches target weight total budget) target rest entries).sum_eq
    have htargets : ((entries.filter (reaches target weight total budget)).map target).sum +
        ((entries.filter (!reaches target weight total budget ·)).map target).sum = (entries.map target).sum := by
      simpa using List.sum_map_filter_add_sum_map_filter_not (fun e => reaches target weight total budget e = true)
        target entries
    rw [List.sum_append, h.sum_eq] at hshares
    rw [← hshares, ← htargets]
    omega
  · by_cases hf' : reaches target weight total budget f = true
    · rw [if_pos hf']
    · have he' : ¬ reaches target weight total budget e = true := by
        rcases hbasis with hdemand | hnone
        · unfold reaches
          rw [hdemand e he, hidle, Nat.mul_zero, decide_eq_true_eq, Nat.le_zero]
          exact Nat.ne_of_gt (Nat.mul_pos (htarget e he) htotal)
        · rw [hnone f hf] at hready
          exact absurd hready (Nat.lt_irrefl 0)
      rw [if_neg he'] at hgot
      rw [if_neg hf']
      exact h.demand_first e (hrest he he') hidle hgot f (hrest hf hf') hready
  · have hbelow : ∀ {e}, (if reaches target weight total budget e then target e else rest e) < target e →
        ¬ reaches target weight total budget e = true := by
      intro e hlt hfull
      rw [if_pos hfull] at hlt
      exact Nat.lt_irrefl _ hlt
    have he' := hbelow hebelow
    have hf' := hbelow hfbelow
    rw [if_neg he'] at hebelow ⊢
    rw [if_neg hf'] at hfbelow ⊢
    exact h.level e (hrest he he') f (hrest hf hf') hready hsame hebelow hfbelow

/-- **Shares rounded by largest remainders are fair** where no proportional share fills an entry. -/
theorem Fair.of_remainders [DecidableEq α] {ordered : List α} {spare : ℕ}
    (hnone : ∀ e ∈ entries, budget * weight e < target e * total) (htotal : 0 < total)
    (hweights : (entries.map weight).sum = total) (hbasis : Basis weight demand entries) (hperm : ordered.Perm entries)
    (hnd : ordered.Nodup)
    (hsorted : ordered.Pairwise fun e f => budget * weight f % total ≤ budget * weight e % total)
    (hspare : spare = budget - (ordered.map fun e => budget * weight e / total).sum) :
    Fair target demand entries budget (remainderShare weight budget total spare ordered) := by
  have hordered : (ordered.map weight).sum = total := by rw [(hperm.map weight).sum_eq, hweights]
  have hfloor : ∀ e ∈ entries, budget * weight e / total < target e := fun e he =>
    (Nat.div_lt_iff_lt_mul htotal).2 (hnone e he)
  have hshare : ∀ e, budget * weight e / total ≤ remainderShare weight budget total spare ordered e ∧
      remainderShare weight budget total spare ordered e ≤ budget * weight e / total + 1 := by
    intro e
    unfold remainderShare
    split <;> omega
  refine ⟨fun e he => ?_, ?_, fun e he hidle hgot f hf hready => ?_, fun e he f hf hready hsame _ _ => ?_⟩
  · exact Nat.le_trans (hshare e).2 (hfloor e he)
  · have hbudget : budget ≤ (entries.map target).sum := by
      refine Nat.le_of_mul_le_mul_right ?_ htotal
      calc budget * total
          = (entries.map fun e => budget * weight e).sum := by rw [List.sum_map_mul_left, hweights]
        _ ≤ (entries.map fun e => target e * total).sum := List.sum_le_sum fun e he => Nat.le_of_lt (hnone e he)
        _ = (entries.map target).sum * total := List.sum_map_mul_right _ _ _
    have hfloors : (ordered.map fun e => budget * weight e / total).sum ≤ budget :=
      sum_floors_le htotal (Nat.le_of_eq hordered)
    rw [← (hperm.map _).sum_eq, sum_remainderShare hnd (spare_le_length htotal hordered hspare)]
    omega
  · rcases hbasis with hdemand | hnodemand
    · have hweight : budget * weight e = 0 := by rw [hdemand e he, hidle, Nat.mul_zero]
      have hout : e ∉ ordered.take spare :=
        not_mem_take_of_remainder_zero htotal (spare_mul_total htotal hordered hspare) hsorted
          (by rw [hweight, Nat.zero_mod])
      unfold remainderShare at hgot
      rw [hweight, Nat.zero_div, if_neg hout] at hgot
      exact absurd hgot (Nat.lt_irrefl 0)
    · rw [hnodemand f hf] at hready
      exact absurd hready (Nat.lt_irrefl 0)
  · rcases hbasis with hdemand | hnodemand
    · have hweight : weight e = weight f := by rw [hdemand e he, hdemand f hf, hsame]
      have hle := (hshare e).2
      rw [hweight] at hle
      exact Nat.le_trans hle (Nat.succ_le_succ (hshare f).1)
    · rw [hnodemand e he] at hready
      exact absurd hready (Nat.lt_irrefl 0)

end Capped

end Apportion
