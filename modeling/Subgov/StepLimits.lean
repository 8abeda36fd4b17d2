import Subgov.HostSplit
/-!
# StepLimits — what the hosts' step limits leave of a placement

A step moves a host toward its share by at most what its limits allow (`HostView.step_add_mayStop`).  The split itself
stays within the account's target, but the steps need not: a host that its step down holds above its share is not made
up for by the others.  `place_total` says from the limits, the counts and the weights when the total is kept all the
same.
-/
namespace Subgov

open FloatArith Apportion

variable {F : Type} [Flt F]

/-! ## One host's step -/

namespace HostView

/-- The workers a step may start toward a share, none above the ceiling. -/
def mayStart (v : HostView F) (share : Nat) : Nat := min (min share v.ceiling - v.current) v.maxUp

/-- The workers a step may stop toward a share, always down to the ceiling. -/
def mayStop (v : HostView F) (share : Nat) : Nat := max (min (v.current - share) v.maxDown) (v.current - v.ceiling)

omit [Flt F] in
/-- **A step adds to a host's count what it may start and takes what it may stop.** -/
theorem step_add_mayStop {v : HostView F} (hceiling : v.ceiling ≤ u32Max) (share : Nat) :
    v.step share + v.mayStop share = v.current + v.mayStart share := by
  unfold step applyStepLimit mayStop mayStart
  dsimp only
  by_cases hgrow : v.current < min share v.ceiling
  · -- below both the share and the ceiling there is nothing to stop
    have hstop : max (min (v.current - share) v.maxDown) (v.current - v.ceiling) = 0 := by omega
    have hup : min (min share v.ceiling) (satAdd v.current v.maxUp) =
        v.current + min (min share v.ceiling - v.current) v.maxUp := by
      unfold satAdd
      omega
    rw [if_pos hgrow, hstop, hup]
    omega
  · have hstart : min share v.ceiling - v.current = 0 := by omega
    rw [if_neg hgrow, hstart, Nat.zero_min]
    by_cases hceil : v.ceiling ≤ v.current - v.maxDown
    · have hdown : min (max (min share v.ceiling) (v.current - v.maxDown)) v.ceiling = v.ceiling := by omega
      rw [hdown]
      omega
    · have hdown : min (max (min share v.ceiling) (v.current - v.maxDown)) v.ceiling =
          max (min share v.ceiling) (v.current - v.maxDown) := by omega
      rw [hdown]
      omega

omit [Flt F] in
theorem step_bounds {v : HostView F} (hceiling : v.ceiling ≤ u32Max) (share : Nat) :
    min (v.current - v.maxDown) v.ceiling ≤ v.step share ∧ v.step share ≤ v.ceiling := by
  have hstep := step_add_mayStop hceiling share
  unfold mayStop mayStart at hstep
  omega

/-- The least a host may run next. -/
def atLeast (v : HostView F) : Nat := min (v.current - v.maxDown) v.ceiling

/-- The most a host may run next. -/
def atMost (v : HostView F) : Nat := v.current + v.maxUp

omit [Flt F] in
/-- **A step toward a share** stops at what the host may run at least and at most. -/
theorem step_add_below {v : HostView F} (hceiling : v.ceiling ≤ u32Max) {share : Nat} (hshare : share ≤ v.ceiling) :
    v.step share + (share - v.atMost) = share + (v.atLeast - share) := by
  have hstep := step_add_mayStop hceiling share
  unfold mayStop mayStart at hstep
  unfold atLeast atMost
  omega

omit [Flt F] in
/-- Of a share only a lower bound need be known. -/
theorem step_add_below_le {v : HostView F} (hceiling : v.ceiling ≤ u32Max) {share floor : Nat}
    (hshare : share ≤ v.ceiling) (hfloor : floor ≤ share) :
    v.step share + (floor - v.atMost) ≤ share + (v.atLeast - floor) := by
  have hexact := step_add_below hceiling hshare
  omega

omit [Flt F] in
theorem step_le_of_share_le {v : HostView F} {share : Nat} (h : share ≤ v.current) : v.step share ≤ v.current := by
  unfold step applyStepLimit
  dsimp only
  rw [if_neg (by omega)]
  omega

omit [Flt F] in
theorem step_self (v : HostView F) : v.step v.current = min v.current v.ceiling := by
  unfold step applyStepLimit
  dsimp only
  rw [if_neg (by omega)]
  omega

omit [Flt F] in
/-- A host stepped toward its own count or toward zero is where a second step leaves it. -/
theorem step_step {v : HostView F} {share : Nat} (h : share ≤ v.current) : v.step (v.step share) = v.step share := by
  unfold step applyStepLimit
  dsimp only
  rw [if_neg (show ¬ v.current < min share v.ceiling by omega), if_neg (by omega)]
  omega

end HostView

/-! ## The split -/

def hostViews (config : AccountConfig F) (current : BTreeMap Nat) (resources : BTreeMap (ResourceSnapshot F))
    (now : DateTime) : List (HostView F) :=
  (config.fleet.hosts.elim [] (·.toList)).map (fun h => hostView config current resources now h.1 h.2)

section Split

variable (accountTarget : Nat) (views : List (HostView F))

/-- The share of a host that cannot be placed on: its count, or none when the account shrinks. -/
def heldShare (v : HostView F) : Nat := if satSum (views.map (·.current)) ≤ accountTarget then v.current else 0

/-- What the hosts that cannot be placed on leave of the target. -/
def eligibleBudget : Nat :=
  accountTarget - satSum ((views.filter (!·.eligible)).map (fun v => v.step (heldShare accountTarget views v)))

/-- The share of the target that a host steps toward: the weighted split for those that can be placed on. -/
def splitShare (v : HostView F) : Nat :=
  if v.eligible then
    (distribute (eligibleBudget accountTarget views) ((views.filter (·.eligible)).map (·.id))
      (views.foldl (fun m v => m.insert v.id v.headroom) ∅) (views.foldl (fun m v => m.insert v.id v.ceiling) ∅)
      (views.map (·.id))).getD v.id 0
  else heldShare accountTarget views v

/-- The part of its weighted share that an eligible host gets before the shortfall is handed out. -/
def weightedFloor (v : HostView F) : Nat :=
  min (floorShare (eligibleBudget accountTarget views)
    (v.headroom / Flt.sum ((views.filter (·.eligible)).map (·.headroom)))) v.ceiling

/-- The floors of the weighted shares are within the budget, and what the steps down hold above them is no more than what
the steps up leave below them and what the running workers are above the target. -/
structure FloorsReached : Prop where
  floors : ((views.filter (·.eligible)).map (weightedFloor accountTarget views)).sum ≤
    eligibleBudget accountTarget views
  held : accountTarget + ((views.filter (·.eligible)).map fun v => v.atLeast - weightedFloor accountTarget views v).sum ≤
    max accountTarget (views.map (·.current)).sum +
      ((views.filter (·.eligible)).map fun v => weightedFloor accountTarget views v - v.atMost).sum

/-- The floors use up what is distributed. -/
def FloorsSpend : Prop :=
  ((views.filter (·.eligible)).map (weightedFloor accountTarget views)).sum = eligibleBudget accountTarget views

variable {accountTarget views}

omit [Flt F] in
theorem heldShare_le (v : HostView F) : heldShare accountTarget views v ≤ v.current := by
  unfold heldShare
  split
  · exact Nat.le_refl _
  · exact Nat.zero_le _

/-- The split, then every host that cannot be placed on over it. -/
theorem rawTargets_eq (hsome : ¬ (views.filter (·.eligible)).isEmpty = true) :
    rawTargets accountTarget views =
      (views.filter (!·.eligible)).foldl (fun m v => m.insert v.id (v.step (heldShare accountTarget views v)))
        (distribute (eligibleBudget accountTarget views) ((views.filter (·.eligible)).map (·.id))
          (views.foldl (fun m v => m.insert v.id v.headroom) ∅) (views.foldl (fun m v => m.insert v.id v.ceiling) ∅)
          (views.map (·.id))) := by
  unfold rawTargets
  dsimp only
  rw [if_neg hsome, List.map_map, List.foldl_map]
  rfl

/-- **What `place` steps toward**: every host's count when none can be placed on, else its share of the split. -/
theorem rawTargets_getD (hnd : (views.map (·.id)).Nodup) {v : HostView F} (hv : v ∈ views) :
    (rawTargets accountTarget views).getD v.id 0 =
      if (views.filter (·.eligible)).isEmpty then v.current
      else if v.eligible then splitShare accountTarget views v
      else v.step (splitShare accountTarget views v) := by
  by_cases hempty : (views.filter (·.eligible)).isEmpty = true
  · unfold rawTargets
    dsimp only
    rw [if_pos hempty, if_pos hempty, Std.ExtTreeMap.getD_eq_getD_getElem?,
      getElem?_foldl_insert_of_mem (·.current) ∅ hnd hv]
    rfl
  · rw [if_neg hempty, rawTargets_eq hempty, Std.ExtTreeMap.getD_eq_getD_getElem?]
    have hndHeld : ((views.filter (!·.eligible)).map (·.id)).Nodup := hnd.sublist (List.filter_sublist.map _)
    unfold splitShare
    by_cases hel : v.eligible = true
    · have hnotMem : v.id ∉ (views.filter (!·.eligible)).map (·.id) := by
        intro hmem
        obtain ⟨u, hu, hid⟩ := List.mem_map.1 hmem
        have huv : u = v := List.inj_on_of_nodup_map hnd (List.mem_of_mem_filter hu) hv hid
        have hun := (List.mem_filter.1 hu).2
        rw [huv, hel] at hun
        cases hun
      rw [getElem?_foldl_insert_of_notMem _ _ hndHeld hnotMem, if_pos hel, if_pos hel,
        Std.ExtTreeMap.getD_eq_getD_getElem?]
    · have hmem : v ∈ views.filter (!·.eligible) := List.mem_filter.2 ⟨hv, by simpa using hel⟩
      rw [getElem?_foldl_insert_of_mem _ _ hndHeld hmem, if_neg hel, if_neg hel]
      rfl

/-- **Every host steps toward its share**, when some host can be placed on. -/
theorem step_rawTargets (hnd : (views.map (·.id)).Nodup) (hsome : ¬ (views.filter (·.eligible)).isEmpty = true)
    {v : HostView F} (hv : v ∈ views) :
    v.step ((rawTargets accountTarget views).getD v.id 0) = v.step (splitShare accountTarget views v) := by
  rw [rawTargets_getD hnd hv, if_neg hsome]
  by_cases hel : v.eligible = true
  · rw [if_pos hel]
  · rw [if_neg hel]
    unfold splitShare
    rw [if_neg hel]
    exact HostView.step_step (heldShare_le v)

/-! ### The shares of the eligible hosts -/

/-- What is distributed, to whom and by which weights. -/
def dealtShares (accountTarget : Nat) (views : List (HostView F)) : BTreeMap Nat :=
  distribute (eligibleBudget accountTarget views) ((views.filter (·.eligible)).map (·.id))
    (views.foldl (fun m v => m.insert v.id v.headroom) ∅) (views.foldl (fun m v => m.insert v.id v.ceiling) ∅)
    (views.map (·.id))

theorem splitShare_of_eligible {v : HostView F} (hel : v.eligible = true) :
    splitShare accountTarget views v = (dealtShares accountTarget views).getD v.id 0 := if_pos hel

omit [Flt F] in
theorem foldl_insert_getD {V : Type} (value : HostView F → V) (default : V) (hnd : (views.map (·.id)).Nodup)
    {v : HostView F} (hv : v ∈ views) :
    (views.foldl (fun m v => m.insert v.id (value v)) (∅ : BTreeMap V)).getD v.id default = value v := by
  rw [Std.ExtTreeMap.getD_eq_getD_getElem?, getElem?_foldl_insert_of_mem value ∅ hnd hv]
  rfl

theorem flooredShare_eq (hnd : (views.map (·.id)).Nodup) {v : HostView F} (hv : v ∈ views) (hel : v.eligible = true) :
    flooredShare (eligibleBudget accountTarget views) ((views.filter (·.eligible)).map (·.id))
        (views.foldl (fun m v => m.insert v.id v.headroom) ∅) (views.foldl (fun m v => m.insert v.id v.ceiling) ∅) v.id =
      weightedFloor accountTarget views v := by
  have hmem : ((views.filter (·.eligible)).map (·.id)).contains v.id = true :=
    List.contains_iff_mem.2 (List.mem_map_of_mem (List.mem_filter.2 ⟨hv, hel⟩))
  have hheadrooms : ((views.filter (·.eligible)).map (·.id)).map
      (fun e => (views.foldl (fun m v => m.insert v.id v.headroom) (∅ : BTreeMap F)).getD e Flt.zero) =
        (views.filter (·.eligible)).map (·.headroom) := by
    rw [List.map_map]
    exact List.map_congr_left fun u hu => foldl_insert_getD (·.headroom) _ hnd (List.mem_of_mem_filter hu)
  unfold flooredShare headroomWeight weightedFloor
  rw [if_pos hmem, hheadrooms, foldl_insert_getD (·.headroom) _ hnd hv, foldl_insert_getD (·.ceiling) _ hnd hv]

/-- **An eligible host's share** is within its ceiling and at least its weighted floor, and the shares of all of them are
within the budget where the floors are. -/
theorem dealtShares_law (hnd : (views.map (·.id)).Nodup) (htarget : accountTarget ≤ u32Max)
    (hfloors : ((views.filter (·.eligible)).map (weightedFloor accountTarget views)).sum ≤
      eligibleBudget accountTarget views) :
    (∀ v ∈ views.filter (·.eligible), weightedFloor accountTarget views v ≤ splitShare accountTarget views v ∧
      splitShare accountTarget views v ≤ v.ceiling) ∧
    ((views.filter (·.eligible)).map (splitShare accountTarget views)).sum ≤ eligibleBudget accountTarget views := by
  have hdistinct : ((views.filter (·.eligible)).map (·.id)).Nodup := hnd.sublist (List.filter_sublist.map _)
  have hsub : ∀ id ∈ (views.filter (·.eligible)).map (·.id), id ∈ views.map (·.id) :=
    fun id hid => (List.filter_sublist.map _).subset hid
  have hbudget : eligibleBudget accountTarget views ≤ u32Max := Nat.le_trans (Nat.sub_le _ _) htarget
  refine ⟨fun v hv => ?_, ?_⟩
  · obtain ⟨hmem, hel⟩ := List.mem_filter.1 hv
    rw [splitShare_of_eligible hel, ← flooredShare_eq hnd hmem hel]
    refine ⟨flooredShare_le_distribute hnd hsub (List.mem_map_of_mem hv), ?_⟩
    exact (distribute_within _ _ _ _ hnd v.id).1.trans_eq (foldl_insert_getD (·.ceiling) 0 hnd hmem)
  · have hfloored : (((views.filter (·.eligible)).map (·.id)).map
        (flooredShare (eligibleBudget accountTarget views) ((views.filter (·.eligible)).map (·.id))
          (views.foldl (fun m v => m.insert v.id v.headroom) ∅)
          (views.foldl (fun m v => m.insert v.id v.ceiling) ∅))).sum ≤ eligibleBudget accountTarget views := by
      rw [List.map_map]
      refine (congrArg List.sum (List.map_congr_left fun v hv => ?_)).trans_le hfloors
      exact flooredShare_eq hnd (List.mem_of_mem_filter hv) (List.mem_filter.1 hv).2
    have hsum : (((views.filter (·.eligible)).map (·.id)).map
        fun id => (dealtShares accountTarget views).getD id 0).sum ≤ eligibleBudget accountTarget views :=
      distribute_sum_le hnd hdistinct hsub hfloored hbudget
    rw [List.map_map] at hsum
    refine (congrArg List.sum (List.map_congr_left fun v hv => ?_)).trans_le hsum
    exact splitShare_of_eligible (List.mem_filter.1 hv).2

/-! ### The total -/

omit [Flt F] in
theorem sum_le_current {value : HostView F → Nat} {vs : List (HostView F)} (h : ∀ v ∈ vs, value v ≤ v.current) :
    (vs.map value).sum ≤ (vs.map (·.current)).sum := List.sum_le_sum h

/-- A sum over the hosts that can be placed on and over those that cannot. -/
theorem sum_by_eligible (value : HostView F → Nat) (views : List (HostView F)) :
    ((views.filter (·.eligible)).map value).sum + ((views.filter (!·.eligible)).map value).sum =
      (views.map value).sum := by
  simpa using List.sum_map_filter_add_sum_map_filter_not (fun v : HostView F => v.eligible = true) value views

/-- What the hosts that cannot be placed on run next. -/
def heldSteps (accountTarget : Nat) (views : List (HostView F)) : List Nat :=
  (views.filter (!·.eligible)).map fun v => v.step (heldShare accountTarget views v)

/-- **The targets by kind of host**: the steps toward the shares, and the steps of the hosts that are held. -/
theorem sum_steps (hnd : (views.map (·.id)).Nodup) (hsome : ¬ (views.filter (·.eligible)).isEmpty = true) :
    (views.map fun v => v.step ((rawTargets accountTarget views).getD v.id 0)).sum =
      ((views.filter (·.eligible)).map fun v => v.step (splitShare accountTarget views v)).sum +
        (heldSteps accountTarget views).sum := by
  have hsteps : (views.map fun v => v.step ((rawTargets accountTarget views).getD v.id 0)).sum =
      (views.map fun v => v.step (splitShare accountTarget views v)).sum :=
    congrArg List.sum (List.map_congr_left fun v hv => step_rawTargets hnd hsome hv)
  have hheld : heldSteps accountTarget views =
      (views.filter (!·.eligible)).map fun v => v.step (splitShare accountTarget views v) := by
    refine List.map_congr_left fun v hv => ?_
    have hel : v.eligible = false := by simpa using (List.mem_filter.1 hv).2
    unfold splitShare
    rw [hel, if_neg Bool.false_ne_true]
  rw [hsteps, hheld, sum_by_eligible]

variable (accountTarget views) in
theorem sum_heldSteps_le : (heldSteps accountTarget views).sum ≤ ((views.filter (!·.eligible)).map (·.current)).sum :=
  sum_le_current fun v _ => HostView.step_le_of_share_le (heldShare_le v)

theorem eligibleBudget_eq (htarget : accountTarget ≤ u32Max) :
    eligibleBudget accountTarget views = accountTarget - (heldSteps accountTarget views).sum := by
  unfold eligibleBudget heldSteps
  rw [satSum_eq]
  omega

/-- **The held hosts alone run more than the target**: nothing is left to distribute, and nobody starts a worker. -/
theorem steps_le_current (hnd : (views.map (·.id)).Nodup) (hsome : ¬ (views.filter (·.eligible)).isEmpty = true)
    (htarget : accountTarget ≤ u32Max)
    (hfloors : ((views.filter (·.eligible)).map (weightedFloor accountTarget views)).sum ≤
      eligibleBudget accountTarget views) (hover : accountTarget < (heldSteps accountTarget views).sum) :
    (views.map fun v => v.step ((rawTargets accountTarget views).getD v.id 0)).sum ≤ (views.map (·.current)).sum := by
  have hnone : eligibleBudget accountTarget views = 0 := by
    rw [eligibleBudget_eq htarget]
    omega
  have hshares := (dealtShares_law hnd htarget hfloors).2
  rw [hnone, Nat.le_zero, List.sum_eq_zero_iff] at hshares
  have hsteps : ((views.filter (·.eligible)).map fun v => v.step (splitShare accountTarget views v)).sum ≤
      ((views.filter (·.eligible)).map (·.current)).sum := by
    refine sum_le_current fun v hv => HostView.step_le_of_share_le ?_
    rw [hshares _ (List.mem_map_of_mem hv)]
    exact Nat.zero_le _
  have hcurrent := sum_by_eligible (·.current) views
  rw [sum_steps hnd hsome]
  exact (Nat.add_le_add hsteps (sum_heldSteps_le accountTarget views)).trans_eq hcurrent

/-- **The total is kept** where the floors of the weighted shares are reached. -/
theorem steps_total (hnd : (views.map (·.id)).Nodup) (hceiling : ∀ v ∈ views, v.ceiling ≤ u32Max)
    (htarget : accountTarget ≤ u32Max) (h : FloorsReached accountTarget views) :
    (views.map fun v => v.step ((rawTargets accountTarget views).getD v.id 0)).sum ≤
      max accountTarget (views.map (·.current)).sum := by
  by_cases hempty : (views.filter (·.eligible)).isEmpty = true
  · refine Nat.le_trans (sum_le_current fun v hv => ?_) (Nat.le_max_right _ _)
    rw [rawTargets_getD hnd hv, if_pos hempty]
    exact HostView.step_le_of_share_le (Nat.le_refl _)
  · by_cases hover : accountTarget < (heldSteps accountTarget views).sum
    · exact Nat.le_trans (steps_le_current hnd hempty htarget h.floors hover) (Nat.le_max_right _ _)
    · obtain ⟨hlaw, hshares⟩ := dealtShares_law hnd htarget h.floors
      have heach : ((views.filter (·.eligible)).map fun v => v.step (splitShare accountTarget views v) +
            (weightedFloor accountTarget views v - v.atMost)).sum ≤
          ((views.filter (·.eligible)).map fun v => splitShare accountTarget views v +
            (v.atLeast - weightedFloor accountTarget views v)).sum :=
        List.sum_le_sum fun v hv => HostView.step_add_below_le (hceiling v (List.mem_of_mem_filter hv))
          (hlaw v hv).2 (hlaw v hv).1
      rw [List.sum_map_add, List.sum_map_add] at heach
      have hheld := h.held
      rw [eligibleBudget_eq htarget] at hshares
      rw [sum_steps hnd hempty]
      omega

/-- **Where the floors use up the budget** the total is kept only if they are reached. -/
theorem floorsReached_of_steps_total (hnd : (views.map (·.id)).Nodup) (hceiling : ∀ v ∈ views, v.ceiling ≤ u32Max)
    (htarget : accountTarget ≤ u32Max)
    (hfloors : FloorsSpend accountTarget views)
    (htotal : (views.map fun v => v.step ((rawTargets accountTarget views).getD v.id 0)).sum ≤
      max accountTarget (views.map (·.current)).sum) : FloorsReached accountTarget views := by
  refine ⟨Nat.le_of_eq hfloors, ?_⟩
  by_cases hempty : (views.filter (·.eligible)).isEmpty = true
  · rw [List.isEmpty_iff.1 hempty]
    exact Nat.le_max_left _ _
  obtain ⟨hlaw, hshares⟩ := dealtShares_law hnd htarget (Nat.le_of_eq hfloors)
  -- each share is its floor, since the two have the same sum
  have hshare : ∀ v ∈ views.filter (·.eligible), weightedFloor accountTarget views v = splitShare accountTarget views v := by
    intro v hv
    refine Nat.le_antisymm (hlaw v hv).1 (Nat.not_lt.1 fun hlt => ?_)
    have hless := List.sum_lt_sum _ _ (fun u hu => (hlaw u hu).1) ⟨v, hv, hlt⟩
    rw [show _ = _ from hfloors] at hless
    exact absurd hshares (Nat.not_le.2 hless)
  by_cases hover : accountTarget < (heldSteps accountTarget views).sum
  · have hleast : ((views.filter (·.eligible)).map fun v => v.atLeast - weightedFloor accountTarget views v).sum ≤
        ((views.filter (·.eligible)).map (·.current)).sum := by
      refine sum_le_current fun v _ => ?_
      unfold HostView.atLeast
      omega
    have hheld := sum_heldSteps_le accountTarget views
    have hcurrent := sum_by_eligible (·.current) views
    omega
  · have heach : ((views.filter (·.eligible)).map fun v => v.step (splitShare accountTarget views v) +
          (weightedFloor accountTarget views v - v.atMost)).sum =
        ((views.filter (·.eligible)).map fun v => splitShare accountTarget views v +
          (v.atLeast - weightedFloor accountTarget views v)).sum := by
      refine congrArg List.sum (List.map_congr_left fun v hv => ?_)
      rw [hshare v hv]
      exact HostView.step_add_below (hceiling v (List.mem_of_mem_filter hv)) (hlaw v hv).2
    have hsame : ((views.filter (·.eligible)).map (splitShare accountTarget views)).sum =
        eligibleBudget accountTarget views := by
      rw [← hfloors]
      exact congrArg List.sum (List.map_congr_left fun v hv => (hshare v hv).symm)
    rw [List.sum_map_add, List.sum_map_add, hsame, eligibleBudget_eq htarget] at heach
    rw [sum_steps hnd hempty] at htotal
    omega

end Split

/-! ## The account's placement -/

variable {name : String} {accountTarget : Nat} {config : AccountConfig F} {current : BTreeMap Nat}
  {resources : BTreeMap (ResourceSnapshot F)} {now : DateTime} {placements : List (HostPlacement F)}

theorem place_ok (h : place name accountTarget config current resources now = .ok placements) :
    placements = (hostViews config current resources now).map (fun v =>
      { hostId := v.id
        current := v.current
        target := v.step ((rawTargets accountTarget (hostViews config current resources now)).getD v.id 0)
        ceiling := v.ceiling
        headroom := v.headroom
        fresh := v.fresh
        eligible := v.eligible }) := by
  unfold place at h
  cases hhosts : config.fleet.hosts with
  | none =>
    rw [hhosts] at h
    cases h
  | some hosts =>
    unfold hostViews
    rw [hhosts] at h ⊢
    cases hempty : hosts.isEmpty with
    | true =>
      simp only [Option.filter_some, hempty] at h
      cases h
    | false =>
      simp only [Option.filter_some, hempty] at h
      cases h
      rfl

theorem hostViews_nodup : ((hostViews config current resources now).map (·.id)).Nodup := by
  unfold hostViews
  cases config.fleet.hosts with
  | none => exact List.nodup_nil
  | some hosts =>
    rw [List.map_map]
    show (hosts.toList.map Prod.fst).Nodup
    rw [Std.ExtTreeMap.map_fst_toList_eq_keys]
    exact Std.ExtTreeMap.nodup_keys

theorem hostView_ceiling (hvalid : config.validate name = .ok ()) {id : String} {host : HostConfig F}
    (hhost : config.fleet.hosts.bind (·[id]?) = some host) :
    (hostView config current resources now id host).ceiling ≤ config.fleet.maxWorkers := by
  obtain ⟨hosts, hhosts, hlookup⟩ := Option.bind_eq_some_iff.1 hhost
  have hentry : (id, host) ∈ hosts.toList := Std.ExtTreeMap.mem_toList_iff_getElem?_eq_some.2 hlookup
  exact AccountConfig.validate_host hvalid hhosts hentry

theorem hostViews_ceiling (hvalid : config.validate name = .ok ()) :
    ∀ v ∈ hostViews config current resources now, v.ceiling ≤ u32Max := by
  intro v hv
  obtain ⟨entry, hentry, hview⟩ := List.mem_map.1 hv
  cases hhosts : config.fleet.hosts with
  | none =>
    rw [hhosts] at hentry
    cases hentry
  | some hosts =>
    rw [hhosts] at hentry
    have hlookup : hosts[entry.1]? = some entry.2 := Std.ExtTreeMap.mem_toList_iff_getElem?_eq_some.1 hentry
    have hhost : config.fleet.hosts.bind (·[entry.1]?) = some entry.2 := by
      rw [hhosts]
      exact hlookup
    rw [← hview]
    exact Nat.le_trans (hostView_ceiling hvalid hhost) config.fleet.maxWorkersU32

/-- **A placement stays within the account's target or the running workers** where its limits let the hosts reach the
floors of their weighted shares, and, where these use up what is distributed, only there. -/
theorem place_total (hvalid : config.validate name = .ok ()) (htarget : accountTarget ≤ u32Max)
    (h : place name accountTarget config current resources now = .ok placements) :
    (FloorsReached accountTarget (hostViews config current resources now) →
      (placements.map (·.target)).sum ≤ max accountTarget (placements.map (·.current)).sum) ∧
    (FloorsSpend accountTarget (hostViews config current resources now) →
      (placements.map (·.target)).sum ≤ max accountTarget (placements.map (·.current)).sum →
        FloorsReached accountTarget (hostViews config current resources now)) := by
  rw [place_ok h, List.map_map, List.map_map]
  exact ⟨steps_total hostViews_nodup (hostViews_ceiling hvalid) htarget,
    floorsReached_of_steps_total hostViews_nodup (hostViews_ceiling hvalid) htarget⟩

/-! ### Two hosts without a resource source -/

def openHost (maxDown : Nat) : HostConfig F64 where
  maxWorkers := none
  maxScaleUpPerCycle := some 10
  maxScaleDownPerCycle := some maxDown
  resourceReserve := none
  resourceSource := false
  observer := .static 0
  actuator := .none

def twoHosts : AccountConfig F64 :=
  { pacedAccount with
    fleet := { pacedFleet with
      observer := none
      hosts := some (((∅ : BTreeMap (HostConfig F64)).insert "a" (openHost 1)).insert "b" (openHost 1)) } }

def running (a b : Nat) : BTreeMap Nat := ((∅ : BTreeMap Nat).insert "a" a).insert "b" b

/-- All ten workers on one host that stops one a cycle, while the other may start five. -/
theorem place_exceeds_total :
    ¬ ∀ (name : String) (accountTarget : Nat) (config : AccountConfig F64) (current : BTreeMap Nat)
      (resources : BTreeMap (ResourceSnapshot F64)) (now : DateTime) (placements : List (HostPlacement F64)),
      config.validate name = .ok () → place name accountTarget config current resources now = .ok placements →
      (placements.map (·.target)).sum ≤ max accountTarget (placements.map (·.current)).sum := by
  intro hall
  have htotals : (place "codex" 10 twoHosts (running 10 0) ∅ (hours 1)).map (fun placements =>
      ((placements.map (·.target)).sum, (placements.map (·.current)).sum)) = .ok (14, 10) := by decide +kernel
  cases hplaced : place "codex" 10 twoHosts (running 10 0) ∅ (hours 1) with
  | error e =>
    rw [hplaced] at htotals
    cases htotals
  | ok placements =>
    have h := hall "codex" 10 twoHosts (running 10 0) ∅ (hours 1) placements (by decide +kernel) hplaced
    rw [hplaced] at htotals
    obtain ⟨htarget, hcurrent⟩ := Prod.mk.inj (Except.ok.inj htotals)
    rw [htarget, hcurrent] at h
    exact absurd h (by decide)

/-- One of five workers moves to the host that runs three. -/
theorem place_total_pair :
    ∃ placements, place "codex" 8 twoHosts (running 5 3) ∅ (hours 1) = .ok placements ∧
      (placements.map (·.target)).sum ≤ max 8 (placements.map (·.current)).sum := by
  have hreached : FloorsReached 8 (hostViews twoHosts (running 5 3) ∅ (hours 1)) :=
    ⟨by decide +kernel, by decide +kernel⟩
  have hok : (place "codex" 8 twoHosts (running 5 3) ∅ (hours 1)).isOk = true := by decide +kernel
  cases hplaced : place "codex" 8 twoHosts (running 5 3) ∅ (hours 1) with
  | error e =>
    rw [hplaced] at hok
    cases hok
  | ok placements => exact ⟨placements, rfl, (place_total (by decide +kernel) (by decide) hplaced).1 hreached⟩

end Subgov
