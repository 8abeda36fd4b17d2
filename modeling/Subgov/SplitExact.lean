import Mathlib.Data.String.Basic
import Subgov.HostCapacity
/-!
# SplitExact — a host's slots divided without rest

`split_targets` takes out the pools that a proportional share would fill, one round after the other, and rounds the
shares of the others by their largest remainders.  Both steps keep the shares fair (`Fair`), so the whole loop divides
the ceiling exactly, ready pools first (`splitTargets_exact`).
-/
namespace Subgov

namespace HostCapacity

open Apportion

section Loop

variable {demand : String → Nat} {active : List (String × Nat)} {remaining : Nat}

theorem roundWeight_basis (demand : String → Nat) (active : List (String × Nat)) :
    Basis (roundWeight demand active) (fun pool => demand pool.1) active := by
  unfold roundWeight
  by_cases hnone : (active.map fun pool => demand pool.1).sum = 0
  · refine Or.inr fun pool hpool => ?_
    exact List.sum_eq_zero_iff.1 hnone _ (List.mem_map_of_mem hpool)
  · refine Or.inl fun pool _ => ?_
    rw [if_neg hnone]

theorem remainderFirst_sorted (remainder : String × Nat → Nat) (active : List (String × Nat)) :
    (active.insertionSort (RemainderFirst remainder)).Pairwise fun left right => remainder right ≤ remainder left := by
  have htotal : Std.Total (RemainderFirst remainder) := ⟨fun left right => by
    unfold RemainderFirst
    rcases lt_trichotomy (remainder left) (remainder right) with hlt | heq | hgt
    · exact Or.inr (Or.inl hlt)
    · exact (le_total left.1 right.1).imp (fun h => Or.inr ⟨heq, h⟩) fun h => Or.inr ⟨heq.symm, h⟩
    · exact Or.inl (Or.inl hgt)⟩
  have htrans : IsTrans _ (RemainderFirst remainder) := ⟨fun first second third => by
    unfold RemainderFirst
    rintro (hlt | ⟨heq, hle⟩) (hlt' | ⟨heq', hle'⟩)
    · exact Or.inl (hlt'.trans hlt)
    · exact Or.inl (heq' ▸ hlt)
    · exact Or.inl (heq ▸ hlt')
    · exact Or.inr ⟨heq.trans heq', hle.trans hle'⟩⟩
  refine (List.pairwise_insertionSort (RemainderFirst remainder) active).imp fun h => ?_
  rcases h with hlt | ⟨heq, -⟩
  · exact Nat.le_of_lt hlt
  · exact Nat.le_of_eq heq.symm

/-- A round that fills a pool leaves fewer. -/
theorem length_rest_le {full : String × Nat → Bool} {rounds : Nat} (hrounds : active.length ≤ rounds + 1)
    (hfull : ¬ (active.filter full).isEmpty = true) : (active.filter (!full ·)).length ≤ rounds := by
  have hsplit := (List.filter_append_perm full active).length_eq
  have hsome : 0 < (active.filter full).length := List.length_pos_iff.2 fun hnil => hfull (List.isEmpty_iff.2 hnil)
  rw [List.length_append] at hsplit
  omega

/-- **The last round shares fairly** what no pool is filled by. -/
theorem largestRemainders_fair {weight : String × Nat → Nat} (htotal : 0 < (active.map weight).sum)
    (hbasis : Basis weight (fun pool => demand pool.1) active) (hnd : active.Nodup)
    (hcapped : active.filter (caps weight (active.map weight).sum remaining) = []) :
    ∃ share, (largestRemainders weight (active.map weight).sum active remaining).Perm
        (active.map fun pool => (pool.1, share pool)) ∧
      Fair Prod.snd (fun pool => demand pool.1) active remaining share := by
  have hnone : ∀ pool ∈ active, remaining * weight pool < pool.2 * (active.map weight).sum := by
    intro pool hpool
    have hout := List.filter_eq_nil_iff.1 hcapped pool hpool
    unfold caps at hout
    rw [decide_eq_true_eq] at hout
    exact Nat.lt_of_not_le hout
  have hperm := List.perm_insertionSort
    (RemainderFirst fun pool => remaining * weight pool % (active.map weight).sum) active
  have hsorted := remainderFirst_sorted (fun pool => remaining * weight pool % (active.map weight).sum) active
  unfold largestRemainders
  dsimp only
  generalize active.insertionSort (RemainderFirst fun pool => remaining * weight pool % (active.map weight).sum) =
    ordered at hperm hsorted ⊢
  have hordered : ordered.Nodup := hperm.nodup_iff.2 hnd
  rw [topUp_map hordered]
  refine ⟨_, hperm.map _, Fair.of_remainders hnone htotal rfl hbasis hperm hordered hsorted ?_⟩
  rw [List.map_map]
  rfl

/-- The pools that are filled, beside those a later round shared between. -/
theorem filled_append_perm (full : String × Nat → Bool) (share : String × Nat → Nat) (active : List (String × Nat)) :
    (active.filter full ++ (active.filter (!full ·)).map fun pool => (pool.1, share pool)).Perm
      (active.map fun pool => (pool.1, if full pool then pool.2 else share pool)) := by
  have hperm := map_filter_append_perm full id (fun pool => (pool.1, share pool)) active
  rw [List.map_id] at hperm
  refine hperm.trans (List.Perm.of_eq (List.map_congr_left fun pool _ => ?_))
  split <;> rfl

/-- **The loop shares fairly**, once it may run a round for every pool. -/
theorem splitActive_fair (demand : String → Nat) : ∀ (rounds : Nat) (active : List (String × Nat)) (remaining : Nat),
    active.length ≤ rounds → (∀ pool ∈ active, 0 < pool.2) → active.Nodup →
      ∃ share, (splitActive demand rounds active remaining).Perm (active.map fun pool => (pool.1, share pool)) ∧
        Fair Prod.snd (fun pool => demand pool.1) active remaining share
  | 0, active, remaining, hrounds, _, _ => by
    have hnil : active = [] := List.length_eq_zero_iff.1 (Nat.le_zero.1 hrounds)
    exact ⟨fun _ => 0, List.Perm.refl _, Fair.of_spent (Or.inl hnil)⟩
  | rounds + 1, active, remaining, hrounds, hpos, hnd => by
    unfold splitActive
    by_cases hspent : (active.isEmpty || remaining == 0) = true
    · rw [if_pos hspent]
      refine ⟨fun _ => 0, List.Perm.refl _, Fair.of_spent ?_⟩
      simpa using hspent
    · rw [if_neg hspent]
      have hactive : active ≠ [] := by
        rintro rfl
        exact hspent rfl
      have htotal : 0 < (active.map (roundWeight demand active)).sum := roundWeight_pos hactive hpos
      have hbasis := roundWeight_basis demand active
      generalize roundWeight demand active = weight at htotal hbasis
      dsimp only
      by_cases hcapped : (active.filter (caps weight (active.map weight).sum remaining)).isEmpty = true
      · rw [if_pos hcapped]
        exact largestRemainders_fair htotal hbasis hnd (List.isEmpty_iff.1 hcapped)
      · rw [if_neg hcapped]
        obtain ⟨share, hshare, hfair⟩ := splitActive_fair demand rounds
          (active.filter (!caps weight (active.map weight).sum remaining ·))
          (remaining - ((active.filter (caps weight (active.map weight).sum remaining)).map Prod.snd).sum)
          (length_rest_le hrounds hcapped) (fun pool hpool => hpos pool (List.mem_filter.1 hpool).1) (hnd.filter _)
        exact ⟨_, (hshare.append_left _).trans (filled_append_perm _ share active),
          Fair.of_capped hpos htotal rfl hbasis hfair⟩

/-- The loop as it stands in the script, `none` where it would go on after so many rounds. -/
def splitWithin (demand : String → Nat) : Nat → List (String × Nat) → Nat → Option (List (String × Nat))
  | rounds, active, remaining =>
    if active.isEmpty || remaining == 0 then some (active.map fun pool => (pool.1, 0))
    else
      let weight := roundWeight demand active
      let total := (active.map weight).sum
      let capped := active.filter (caps weight total remaining)
      if capped.isEmpty then some (largestRemainders weight total active remaining)
      else
        match rounds with
        | 0 => none
        | rounds + 1 => (splitWithin demand rounds (active.filter (!caps weight total remaining ·))
            (remaining - (capped.map Prod.snd).sum)).map (capped ++ ·)

/-- **The loop ends within a round for every pool**, with what `splitActive` computes. -/
theorem splitWithin_eq (demand : String → Nat) : ∀ (rounds fuel : Nat) (active : List (String × Nat))
    (remaining : Nat), active.length ≤ rounds → active.length ≤ fuel →
      splitWithin demand rounds active remaining = some (splitActive demand fuel active remaining) := by
  intro rounds
  induction rounds with
  | zero =>
    intro fuel active remaining hrounds _
    have hnil : active = [] := List.length_eq_zero_iff.1 (Nat.le_zero.1 hrounds)
    subst hnil
    cases fuel <;> rfl
  | succ rounds ih =>
    intro fuel active remaining hrounds hfuel
    cases fuel with
    | zero =>
      have hnil : active = [] := List.length_eq_zero_iff.1 (Nat.le_zero.1 hfuel)
      subst hnil
      rfl
    | succ fuel =>
      unfold splitWithin splitActive
      by_cases hspent : (active.isEmpty || remaining == 0) = true
      · rw [if_pos hspent, if_pos hspent]
      · rw [if_neg hspent, if_neg hspent]
        dsimp only
        generalize roundWeight demand active = weight
        by_cases hcapped : (active.filter (caps weight (active.map weight).sum remaining)).isEmpty = true
        · rw [if_pos hcapped, if_pos hcapped]
        · rw [if_neg hcapped, if_neg hcapped,
            ih fuel _ _ (length_rest_le hrounds hcapped) (length_rest_le hfuel hcapped)]
          rfl

end Loop

/-! ## The whole split -/

/-- What a pool was given. -/
def shareAt (result : List (String × Nat)) (key : String) : Nat := (result.lookup key).getD 0

/-- A split that is exact and gives ready pools their slots first. -/
structure SplitExact (targets : List (String × Int)) (demand : String → Nat) (ceiling : Int)
    (result : List (String × Nat)) : Prop where
  keys : (result.map Prod.fst).Perm (targets.map Prod.fst)
  within : ∀ pool ∈ targets, (shareAt result pool.1 : Int) ≤ max 0 pool.2
  total : ((result.map Prod.snd).sum : Int) = min (max 0 ceiling) ((targets.filter (0 < ·.2)).map Prod.snd).sum
  demandFirst : ∀ pool ∈ targets, demand pool.1 = 0 → 0 < shareAt result pool.1 →
    ∀ ready ∈ targets, 0 < demand ready.1 → 0 < ready.2 → (shareAt result ready.1 : Int) = ready.2
  level : ∀ pool ∈ targets, ∀ other ∈ targets, 0 < demand pool.1 → demand pool.1 = demand other.1 →
    (shareAt result pool.1 : Int) < pool.2 → (shareAt result other.1 : Int) < other.2 →
      shareAt result pool.1 ≤ shareAt result other.1 + 1

def positiveTargets (targets : List (String × Int)) : List (String × Nat) :=
  (targets.filter (0 < ·.2)).map fun pool => (pool.1, pool.2.toNat)

theorem shareAt_of_mem {result : List (String × Nat)} (hnd : (result.map Prod.fst).Nodup) {key : String} {share : Nat}
    (h : (key, share) ∈ result) : shareAt result key = share := by
  obtain ⟨before, after, rfl⟩ := List.append_of_mem h
  rw [List.map_append, List.nodup_append] at hnd
  have hlookup : (before ++ (key, share) :: after).lookup key = some share := by
    refine List.lookup_eq_some_iff.2 ⟨before, after, rfl, fun entry hentry => ?_⟩
    exact bne_iff_ne.2 fun hsame => hnd.2.2 entry.1 (List.mem_map_of_mem hentry) key List.mem_cons_self hsame.symm
  unfold shareAt
  rw [hlookup]
  rfl

section Whole

variable {targets : List (String × Int)} {demand : String → Nat} {ceiling : Int}

theorem mem_positiveTargets {pool : String × Int} (hpool : pool ∈ targets) (hpos : 0 < pool.2) :
    (pool.1, pool.2.toNat) ∈ positiveTargets targets :=
  List.mem_map_of_mem (List.mem_filter.2 ⟨hpool, decide_eq_true hpos⟩)

theorem length_positiveTargets_le (targets : List (String × Int)) :
    (positiveTargets targets).length ≤ targets.length := by
  unfold positiveTargets
  rw [List.length_map]
  exact List.length_filter_le _ _

theorem sum_positiveTargets (targets : List (String × Int)) :
    (((positiveTargets targets).map Prod.snd).sum : Int) = ((targets.filter (0 < ·.2)).map Prod.snd).sum := by
  unfold positiveTargets
  rw [Nat.cast_list_sum, List.map_map, List.map_map]
  refine congrArg List.sum (List.map_congr_left fun pool hpool => ?_)
  exact Int.toNat_of_nonneg (Int.le_of_lt (of_decide_eq_true (List.mem_filter.1 hpool).2))

/-- **The shares of a split**: none without a positive target, fair ones else. -/
theorem splitTargets_fair (demand : String → Nat) (ceiling : Nat) (hdistinct : (targets.map Prod.fst).Nodup) :
    ∃ share, Fair Prod.snd (fun pool => demand pool.1) (positiveTargets targets) ceiling share ∧
      ((splitTargets targets demand ceiling).map Prod.snd).sum = ((positiveTargets targets).map share).sum ∧
      ∀ pool ∈ targets, shareAt (splitTargets targets demand ceiling) pool.1 =
        if 0 < pool.2 then share (pool.1, pool.2.toNat) else 0 := by
  have hkeys := (keys_splitTargets targets demand ceiling).nodup_iff.2 hdistinct
  have hpos : ∀ pool ∈ positiveTargets targets, 0 < pool.2 := by
    intro pool hpool
    obtain ⟨target, htarget, rfl⟩ := List.mem_map.1 hpool
    exact Int.pos_iff_toNat_pos.1 (of_decide_eq_true (List.mem_filter.1 htarget).2)
  have hnd : (positiveTargets targets).Nodup := by
    refine List.Nodup.of_map Prod.fst ?_
    unfold positiveTargets
    rw [List.map_map]
    exact hdistinct.sublist (List.filter_sublist.map _)
  obtain ⟨share, hperm, hfair⟩ := splitActive_fair demand targets.length (positiveTargets targets) ceiling
    (length_positiveTargets_le targets) hpos hnd
  refine ⟨share, hfair, ?_, fun pool hpool => shareAt_of_mem hkeys ?_⟩
  · unfold splitTargets
    rw [List.map_append, List.sum_append, sum_zeros, Nat.zero_add]
    have hsum := (hperm.map Prod.snd).sum_eq
    rw [List.map_map] at hsum
    exact hsum
  · unfold splitTargets
    rw [List.mem_append]
    by_cases htarget : 0 < pool.2
    · rw [if_pos htarget]
      exact Or.inr (hperm.mem_iff.2 (List.mem_map_of_mem (mem_positiveTargets hpool htarget)))
    · rw [if_neg htarget]
      exact Or.inl (List.mem_map_of_mem (List.mem_filter.2 ⟨hpool, decide_eq_true (Int.not_lt.1 htarget)⟩))

theorem splitExact_splitTargets (demand : String → Nat) (ceiling : Int) (hdistinct : (targets.map Prod.fst).Nodup) :
    SplitExact targets demand ceiling (splitTargets targets demand ceiling.toNat) := by
  obtain ⟨share, hfair, hsum, hshare⟩ := splitTargets_fair demand ceiling.toNat hdistinct
  refine { keys := keys_splitTargets _ _ _, within := ?_, total := ?_, demandFirst := ?_, level := ?_ }
  · intro pool hpool
    rw [hshare pool hpool]
    split
    · rename_i hpos
      have hwithin := hfair.within _ (mem_positiveTargets hpool hpos)
      dsimp only at hwithin
      omega
    · exact Int.le_max_left _ _
  · rw [hsum, hfair.sum_eq, Nat.cast_min, sum_positiveTargets, Int.toNat_eq_max, Int.max_comm]
  · intro pool hpool hidle hgot ready hready hdemand htarget
    rw [hshare pool hpool] at hgot
    split at hgot
    · rename_i hpos
      have hfull := hfair.demand_first _ (mem_positiveTargets hpool hpos) hidle hgot _
        (mem_positiveTargets hready htarget) hdemand
      rw [hshare ready hready, if_pos htarget, hfull]
      exact Int.toNat_of_nonneg (Int.le_of_lt htarget)
    · exact absurd hgot (Nat.lt_irrefl 0)
  · intro pool hpool other hother hdemand hsame hbelow hbelow'
    rw [hshare pool hpool] at hbelow ⊢
    rw [hshare other hother] at hbelow' ⊢
    by_cases hpos : 0 < pool.2
    · by_cases hpos' : 0 < other.2
      · rw [if_pos hpos] at hbelow ⊢
        rw [if_pos hpos'] at hbelow' ⊢
        refine hfair.level _ (mem_positiveTargets hpool hpos) _ (mem_positiveTargets hother hpos') hdemand hsame ?_ ?_
        · dsimp only
          omega
        · dsimp only
          omega
      · rw [if_neg hpos'] at hbelow'
        omega
    · rw [if_neg hpos]
      exact Nat.zero_le _

/-- **The split is exact**, and the loop behind it ends. -/
theorem splitTargets_exact (demand : String → Nat) (ceiling : Int) (hdistinct : (targets.map Prod.fst).Nodup) :
    SplitExact targets demand ceiling (splitTargets targets demand ceiling.toNat) ∧
      ∀ rounds, targets.length ≤ rounds → splitWithin demand rounds (positiveTargets targets) ceiling.toNat =
        some (splitActive demand targets.length (positiveTargets targets) ceiling.toNat) := by
  refine ⟨splitExact_splitTargets demand ceiling hdistinct, fun rounds hrounds => ?_⟩
  have hlength := length_positiveTargets_le targets
  exact splitWithin_eq demand rounds targets.length _ _ (Nat.le_trans hlength hrounds) hlength

/-- Two ready pools and an idle one share four slots. -/
theorem splitTargets_exact_pools : SplitExact [("a", 3), ("b", 2), ("idle", 5), ("off", -1)]
    (fun key => if key = "a" then 2 else if key = "b" then 1 else 0) 4
    (splitTargets [("a", 3), ("b", 2), ("idle", 5), ("off", -1)]
      (fun key => if key = "a" then 2 else if key = "b" then 1 else 0) (4 : Int).toNat) :=
  (splitTargets_exact _ 4 (by decide)).1

end Whole

end HostCapacity

end Subgov
