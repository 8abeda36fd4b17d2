import Subgov.RedemptionCap
/-!
# FleetBounds — the range of a decision and the books of a pool

The step limits end in the fleet's range, and the caps after them only lower a count: to the work there is, but not
below the running workers unless a plan paces.  That plan alone can take a pool below its unowned workers, and there the
pool's total is no longer the owned target and the unowned count (`evaluatePool_balances_iff`).
-/
namespace Subgov

open FloatArith

variable {F : Type} [Flt F] {name : String} {config : AccountConfig F} {snapshot : QuotaSnapshot F}
  {prior : AccountState F} {current raw : Nat} {now : DateTime}

/-! ## The caps -/

omit [Flt F] in
theorem applyStepLimits_bounds (desired current : Nat) (hrange : config.fleet.minWorkers ≤ config.fleet.maxWorkers) :
    config.fleet.minWorkers ≤ applyStepLimits desired current config ∧
      applyStepLimits desired current config ≤ config.fleet.maxWorkers := by
  rw [applyStepLimits_eq hrange]
  dsimp only
  omega

omit [Flt F] in
/-- Without a plan only a backlog below the running workers takes a count under the minimum. -/
theorem min_le_capDesired_none (raw current : Nat) (hrange : config.fleet.minWorkers ≤ config.fleet.maxWorkers) :
    snapshot.eligibleBacklogCapacity.elim config.fleet.minWorkers
        (fun w => min config.fleet.minWorkers (max current w)) ≤ capDesired config snapshot current raw none := by
  have hu := config.fleet.maxWorkersU32
  have hstep := (applyStepLimits_bounds (min raw (snapshot.eligibleBacklogCapacity.getD u32Max)) current hrange).1
  unfold capDesired
  dsimp only
  cases hbacklog : snapshot.eligibleBacklogCapacity with
  | none =>
    rw [hbacklog, Option.getD_none] at hstep
    rw [Option.elim_none, Option.getD_none]
    omega
  | some w =>
    rw [hbacklog, Option.getD_some] at hstep
    rw [Option.elim_some, Option.getD_some]
    omega

omit [Flt F] in
/-- At full speed only a capacity below the running workers does. -/
theorem min_le_capDesired_full (raw : Nat) (hrange : config.fleet.minWorkers ≤ config.fleet.maxWorkers)
    (hfull : config.bankedResets.fullSpeed = true) {plan : BankedResetDecision F}
    (hcap : plan.eligibleBacklogCapacity = eligibleCapacity config snapshot current) :
    min config.fleet.minWorkers (max current plan.eligibleBacklogCapacity) ≤
      capDesired config snapshot current raw (some plan) := by
  have hu := config.fleet.maxWorkersU32
  have hstep := (applyStepLimits_bounds (min raw (snapshot.eligibleBacklogCapacity.getD u32Max)) current hrange).1
  unfold capDesired
  dsimp only
  rw [if_pos hfull, hcap]
  unfold eligibleCapacity
  cases hbacklog : snapshot.eligibleBacklogCapacity with
  | none =>
    rw [hbacklog, Option.getD_none] at hstep
    rw [Option.getD_none, Option.getD_none]
    omega
  | some w =>
    rw [hbacklog, Option.getD_some] at hstep
    rw [Option.getD_some, Option.getD_some]
    omega

omit [Flt F] in
/-- **A pacing plan caps the stepped count by its capacity alone.** -/
theorem capDesired_paced (hslow : config.bankedResets.fullSpeed = false) {plan : BankedResetDecision F}
    (hcap : plan.eligibleBacklogCapacity = eligibleCapacity config snapshot current) :
    capDesired config snapshot current raw (some plan) =
      min (applyStepLimits (min raw (snapshot.eligibleBacklogCapacity.getD u32Max)) current config)
        plan.eligibleBacklogCapacity := by
  have hle : plan.eligibleBacklogCapacity ≤ max current (snapshot.eligibleBacklogCapacity.getD u32Max) := by
    rw [hcap]
    unfold eligibleCapacity
    cases snapshot.eligibleBacklogCapacity with
    | none =>
      rw [Option.getD_none]
      omega
    | some w =>
      rw [Option.getD_some, Option.getD_some]
      omega
  unfold capDesired
  dsimp only
  rw [if_neg (by rw [hslow]; exact Bool.false_ne_true)]
  omega

/-! ## The range of a decision -/

/-- The work that a decision knows of: the banked plan's eligible capacity, else the backlog's, if observed. -/
def knownWork (snapshot : QuotaSnapshot F) (d : Decision F) : Option Nat :=
  d.bankedResets.elim snapshot.eligibleBacklogCapacity (some ·.eligibleBacklogCapacity)

theorem evaluate_le_max (hrange : config.fleet.minWorkers ≤ config.fleet.maxWorkers) {d : Decision F}
    (h : evaluate name config snapshot prior current now = .ok d) : d.desiredWorkers ≤ config.fleet.maxWorkers := by
  rcases evaluate_ok h with ⟨-, rfl⟩ | ⟨-, -, rfl⟩
  · exact le_trans (min_le_left _ _) (applyStepLimits_bounds _ _ hrange).2
  · exact le_trans (capDesired_le_step _) (applyStepLimits_bounds _ _ hrange).2

/-- **A decision stays within its fleet, whatever the count it starts from**: never above the maximum, and when fresh
under the minimum only for want of work, unless a plan paces. -/
theorem evaluate_in_fleet (hv : config.validate name = .ok ()) {d : Decision F}
    (h : evaluate name config snapshot prior current now = .ok d) :
    d.desiredWorkers ≤ config.fleet.maxWorkers ∧
      (d.stale = false → d.bankedResets = none ∨ config.bankedResets.fullSpeed = true →
        (knownWork snapshot d).elim config.fleet.minWorkers
          (fun w => min config.fleet.minWorkers (max current w)) ≤ d.desiredWorkers) := by
  have hrange := AccountConfig.validate_bounds hv
  refine ⟨evaluate_le_max hrange h, fun hfresh hpath => ?_⟩
  rcases evaluate_ok h with ⟨-, rfl⟩ | ⟨-, -, rfl⟩
  · cases hfresh
  · unfold freshDecision at hpath ⊢
    dsimp only at hpath ⊢
    unfold knownWork
    cases hplan : bankedResetDecision config snapshot (windowDecisions config snapshot prior current now) prior current
      now with
    | none => exact min_le_capDesired_none _ _ hrange
    | some plan =>
      rw [hplan] at hpath
      have hfull : config.bankedResets.fullSpeed = true := hpath.resolve_left nofun
      exact min_le_capDesired_full _ hrange hfull (bankedResetDecision_capacity hplan)

/-- **A bound that the minimum and the running workers are over is kept** exactly when no pacing plan meets a backlog
below it. -/
theorem evaluate_ge_iff (hrange : config.fleet.minWorkers ≤ config.fleet.maxWorkers) {bound : Nat}
    (hmin : bound ≤ config.fleet.minWorkers) (hcurrent : bound ≤ current) {d : Decision F}
    (h : evaluate name config snapshot prior current now = .ok d) :
    bound ≤ d.desiredWorkers ↔
      (pacesBanked config snapshot now = true → ∀ b ∈ snapshot.eligibleBacklogCapacity, bound ≤ b) := by
  rcases evaluate_ok h with ⟨hstale, rfl⟩ | ⟨hfresh, -, rfl⟩
  · have hkept : bound ≤ (staleDecision name config snapshot current).desiredWorkers :=
      le_min (le_trans hmin (applyStepLimits_bounds _ _ hrange).1) hcurrent
    have hno : pacesBanked config snapshot now = false := by simp [pacesBanked, hstale]
    rw [hno]
    exact iff_of_true hkept fun htrue => absurd htrue Bool.false_ne_true
  · unfold freshDecision
    dsimp only
    have hsome := bankedResetDecision_isSome config snapshot prior current now
    cases hplan : bankedResetDecision config snapshot (windowDecisions config snapshot prior current now) prior current
      now with
    | none =>
      rw [hplan] at hsome
      have hno : pacesBanked config snapshot now = false := by simp [pacesBanked, ← hsome]
      rw [hno]
      refine iff_of_true (le_trans ?_ (min_le_capDesired_none _ _ hrange)) fun htrue => absurd htrue Bool.false_ne_true
      cases snapshot.eligibleBacklogCapacity with
      | none => exact hmin
      | some w => exact le_min hmin (le_trans hcurrent (Nat.le_max_left _ _))
    | some plan =>
      rw [hplan] at hsome
      have hcap := bankedResetDecision_capacity hplan
      cases hfull : config.bankedResets.fullSpeed with
      | true =>
        have hno : pacesBanked config snapshot now = false := by simp [pacesBanked, hfull]
        rw [hno]
        refine iff_of_true (le_trans ?_ (min_le_capDesired_full _ hrange hfull hcap))
          fun htrue => absurd htrue Bool.false_ne_true
        exact le_min hmin (le_trans hcurrent (Nat.le_max_left _ _))
      | false =>
        have hyes : pacesBanked config snapshot now = true := by
          simp only [pacesBanked, hfresh, hfull, ← hsome]
          rfl
        have hstepped : ∀ raw, bound ≤ applyStepLimits raw current config := fun raw =>
          le_trans hmin (applyStepLimits_bounds raw current hrange).1
        rw [hyes, capDesired_paced hfull hcap, le_min_iff, and_iff_right (hstepped _), hcap, eligibleCapacity,
          le_min_iff, and_iff_left (le_trans hmin hrange)]
        cases snapshot.eligibleBacklogCapacity with
        | none => exact iff_of_true hcurrent fun _ b hb => absurd hb (Option.not_mem_none b)
        | some b => simp

/-! ### A fleet of at least two -/

def flooredAccount : AccountConfig F64 := { pacedAccount with fleet := { pacedFleet with minWorkers := 2 } }

def flooredDecision : Decision F64 :=
  freshDecision "codex" flooredAccount (pacedSnapshot [fiveHours] 1) {} 0 (hours 1)
    (windowDecisions flooredAccount (pacedSnapshot [fiveHours] 1) {} 0 (hours 1))

/-- A stopped fleet below its minimum of two, and work for one. -/
theorem evaluate_in_fleet_shortage :
    flooredDecision.desiredWorkers ≤ 10 ∧ min 2 (max 0 1) ≤ flooredDecision.desiredWorkers := by
  have hevaluated : evaluate "codex" flooredAccount (pacedSnapshot [fiveHours] 1) {} 0 (hours 1) =
      .ok flooredDecision := evaluate_fresh (by decide +kernel) (by decide +kernel)
  obtain ⟨hmax, hmin⟩ := evaluate_in_fleet (by decide +kernel) hevaluated
  exact ⟨hmax, hmin rfl (Or.inl rfl)⟩

/-! ## The books of a pool -/

omit [Flt F] in
theorem pooledConfig_range (hrange : config.fleet.minWorkers ≤ config.fleet.maxWorkers) (unowned : Nat) :
    (pooledConfig config unowned).fleet.minWorkers ≤ (pooledConfig config unowned).fleet.maxWorkers :=
  min_le_min_right _ (Nat.add_le_add_right hrange _)

/-- The total is the owned target and the unowned workers, and the owned figures are the fleet's own. -/
structure Balances (config : AccountConfig F) (owned unowned : Nat) (d : Decision F) : Prop where
  total : d.desiredTotal = some (d.desiredWorkers + unowned)
  current : d.currentWorkers = owned
  within : d.desiredWorkers ≤ config.fleet.maxWorkers

/-- **A pool's books balance** exactly when no pacing plan meets a backlog below its unowned workers. -/
theorem evaluatePool_balances_iff (hv : config.validate name = .ok ()) {owned unowned : Nat} (hunowned : 0 < unowned)
    (hcount : owned + unowned ≤ u32Max) (hmax : config.fleet.maxWorkers + unowned ≤ u32Max) {d : Decision F}
    (h : evaluatePool name config snapshot prior owned unowned now = .ok d) :
    Balances config owned unowned d ↔
      (pacesBanked config snapshot now = true → ∀ b ∈ snapshot.eligibleBacklogCapacity, unowned ≤ b) := by
  rcases evaluatePool_ok h with ⟨rfl, -⟩ | ⟨hsome, pooled, rfl, hpooled⟩
  · exact absurd hunowned (Nat.lt_irrefl 0)
  · have hrange := pooledConfig_range (AccountConfig.validate_bounds hv) unowned
    have hmin : unowned ≤ (pooledConfig config unowned).fleet.minWorkers := le_min (Nat.le_add_left _ _) (by omega)
    have hcurrent : unowned ≤ satAdd owned unowned := le_min (Nat.le_add_left _ _) (by omega)
    have hkept := evaluate_ge_iff hrange hmin hcurrent hpooled
    have htop : pooled.desiredWorkers ≤ satAdd config.fleet.maxWorkers unowned := evaluate_le_max hrange hpooled
    rw [satAdd_of_le hmax] at htop
    have hpaces : pacesBanked (pooledConfig config unowned) snapshot now = pacesBanked config snapshot now := rfl
    rw [hpaces] at hkept
    rw [← hkept, Decision.intoElastic, if_neg hsome]
    constructor
    · intro hbalances
      have htotal : pooled.desiredWorkers = pooled.desiredWorkers - unowned + unowned :=
        Option.some.inj hbalances.total
      omega
    · intro hover
      refine ⟨congrArg some (Nat.sub_add_cancel hover).symm, ?_, ?_⟩
      · dsimp only
        rw [(evaluate_bare hpooled).1, satAdd_of_le hcount, Nat.add_sub_cancel]
      · dsimp only
        omega

/-! ### Five owned and three unowned workers -/

def pooledDecision (backlog : Nat) : Decision F64 :=
  (freshDecision "codex" (pooledConfig pacedAccount 3) (pacedSnapshot [week] backlog) {} 8 (hours 1)
    (windowDecisions (pooledConfig pacedAccount 3) (pacedSnapshot [week] backlog) {} 8 (hours 1))).intoElastic 3

theorem pooledDecision_evaluated {backlog : Nat} (hbacklog : backlog = 1 ∨ backlog = 20) :
    evaluatePool "codex" pacedAccount (pacedSnapshot [week] backlog) {} 5 3 (hours 1) =
      .ok (pooledDecision backlog) := by
  unfold evaluatePool
  rw [if_neg (by decide), show satAdd 5 3 = 8 from rfl]
  rcases hbacklog with rfl | rfl
  · rw [evaluate_fresh (by decide +kernel) (by decide +kernel)]
    rfl
  · rw [evaluate_fresh (by decide +kernel) (by decide +kernel)]
    rfl

/-- Work for one while three unowned workers run: the pool's total is one. -/
theorem evaluatePool_unbalanced :
    ¬ ∀ (name : String) (config : AccountConfig F64) (snapshot : QuotaSnapshot F64) (prior : AccountState F64)
      (owned unowned : Nat) (now : DateTime) (d : Decision F64), config.validate name = .ok () → 0 < unowned →
      owned + unowned ≤ u32Max → config.fleet.maxWorkers + unowned ≤ u32Max →
      evaluatePool name config snapshot prior owned unowned now = .ok d →
      d.desiredTotal = some (d.desiredWorkers + unowned) ∧ d.currentWorkers = owned ∧
        d.desiredWorkers ≤ config.fleet.maxWorkers := by
  intro hall
  have h := hall "codex" pacedAccount (pacedSnapshot [week] 1) {} 5 3 (hours 1) (pooledDecision 1) pacedAccount_valid
    (by decide) (by decide) (by decide) (pooledDecision_evaluated (Or.inl rfl))
  have htotal : (pooledDecision 1).desiredTotal = some 1 := by decide +kernel
  rw [htotal] at h
  have hsum : 1 = (pooledDecision 1).desiredWorkers + 3 := Option.some.inj h.1
  omega

/-- With work for twenty the total is what both make together. -/
theorem evaluatePool_balances_twenty : Balances pacedAccount 5 3 (pooledDecision 20) :=
  (evaluatePool_balances_iff pacedAccount_valid (by decide) (by decide) (by decide)
    (pooledDecision_evaluated (Or.inr rfl))).2 fun _ b hb => by cases hb; decide

/-! ## The experiments over a quota bound -/

/-- Without banked resets a decision from within the fleet steps down by no more than the limit. -/
theorem evaluate_ge_step (hrange : config.fleet.minWorkers ≤ config.fleet.maxWorkers)
    (hdisabled : config.bankedResets.enabled = false) (hmax : current ≤ config.fleet.maxWorkers) {d : Decision F}
    (h : evaluate name config snapshot prior current now = .ok d) :
    current - config.fleet.maxScaleDownPerCycle ≤ d.desiredWorkers := by
  rcases evaluate_ok h with ⟨-, rfl⟩ | ⟨-, -, rfl⟩
  · exact le_min (le_applyStepLimits _ hrange hmax) (Nat.sub_le _ _)
  · exact le_capDesired hrange hmax
      (Or.inl (bankedResetDecision_none prior current now (bankedAvailable_disabled snapshot hdisabled) _))

theorem evaluatePool_ge_step (hrange : config.fleet.minWorkers ≤ config.fleet.maxWorkers)
    (hdisabled : config.bankedResets.enabled = false) {owned unowned : Nat} {d : Decision F}
    (h : evaluatePool name config snapshot prior owned unowned now = .ok d)
    (hmax : d.currentWorkers ≤ config.fleet.maxWorkers) :
    d.currentWorkers - config.fleet.maxScaleDownPerCycle ≤ d.desiredWorkers := by
  rcases evaluatePool_ok h with ⟨rfl, heval⟩ | ⟨hsome, pooled, rfl, hpooled⟩
  · rw [(evaluate_bare heval).1] at hmax ⊢
    exact evaluate_ge_step hrange hdisabled hmax heval
  · rw [Decision.intoElastic, if_neg hsome, (evaluate_bare hpooled).1] at hmax ⊢
    dsimp only at hmax ⊢
    have hpool : satAdd owned unowned ≤ (pooledConfig config unowned).fleet.maxWorkers :=
      le_min (by omega) (satAdd_le_max _ _)
    have hstep : satAdd owned unowned - config.fleet.maxScaleDownPerCycle ≤ pooled.desiredWorkers :=
      evaluate_ge_step (pooledConfig_range hrange unowned) hdisabled hpool hpooled
    omega

/-- The reason is one of the measured quota bounds. -/
def isQuotaBound (reason : WindowReason) : Bool :=
  reason == .pacedToReset || reason == .targetReached || reason == .resetDue

/-- **The experiments lift no quota bound, and leave no less than a step down**, whatever they had stored. -/
theorem applyZaiSaturation_within {owned unowned : Nat} {policy : ZaiSaturationConfig F}
    (hv : config.validate name = .ok ()) {d : Decision F}
    (h : evaluatePool name config snapshot prior owned unowned now = .ok d) (reading : QuotaSnapshot F)
    (account : AccountState F) (at_ : DateTime) :
    (d.stale = true ∨ (∃ w ∈ d.windows, isQuotaBound w.reason = true) →
      (applyZaiSaturation d config policy reading account at_).1.desiredWorkers ≤ d.desiredWorkers) ∧
    (config.bankedResets.enabled = false → d.currentWorkers ≤ config.fleet.maxWorkers →
      d.currentWorkers - config.fleet.maxScaleDownPerCycle ≤
        (applyZaiSaturation d config policy reading account at_).1.desiredWorkers) := by
  rw [applyZaiSaturation_desired]
  constructor
  · intro hbound
    have hcap : quotaCap d config = d.desiredWorkers := by
      unfold quotaCap
      rcases hbound with hstale | ⟨w, hw, hbinds⟩
      · rw [hstale]
        rfl
      · have hheld : isLearningHold w.reason = false := by
          revert hbinds
          cases w.reason <;> decide
        have hall : d.windows.all (fun w => isLearningHold w.reason) = false :=
          List.all_eq_false.2 ⟨w, hw, by rw [hheld]; exact Bool.false_ne_true⟩
        rw [hall, Bool.and_false]
        rfl
    rw [hcap]
    exact Nat.min_le_right _ _
  · intro hdisabled hmax
    have hrange := AccountConfig.validate_bounds hv
    refine le_min (le_max_right _ _) ?_
    unfold quotaCap
    split
    · exact le_trans (Nat.sub_le _ _) hmax
    · exact evaluatePool_ge_step hrange hdisabled h hmax

/-! ### Two workers paced by five hours -/

def searchingAccount : AccountConfig F64 :=
  { heldAccount with bankedResets := { pacedAccount.bankedResets with enabled := false } }

def searchingDecision : Decision F64 :=
  freshDecision "codex" searchingAccount (pacedSnapshot [fiveHours] 20) hourAgo 2 (hours 1)
    (windowDecisions searchingAccount (pacedSnapshot [fiveHours] 20) hourAgo 2 (hours 1))

/-- A search that has stored nothing yet reads the snapshot an hour later. -/
theorem applyZaiSaturation_within_paced :
    (applyZaiSaturation searchingDecision searchingAccount experimentPolicy (pacedSnapshot [fiveHours] 20) {}
        (hours 2)).1.desiredWorkers ≤ searchingDecision.desiredWorkers ∧
      2 - 1 ≤ (applyZaiSaturation searchingDecision searchingAccount experimentPolicy (pacedSnapshot [fiveHours] 20) {}
        (hours 2)).1.desiredWorkers := by
  have hevaluated : evaluatePool "codex" searchingAccount (pacedSnapshot [fiveHours] 20) hourAgo 2 0 (hours 1) =
      .ok searchingDecision := by
    unfold evaluatePool
    rw [if_pos rfl]
    exact evaluate_fresh (by decide +kernel) (by decide +kernel)
  have hpaced : searchingDecision.windows.any (fun w => isQuotaBound w.reason) = true := by decide +kernel
  obtain ⟨hlifts, hsteps⟩ := applyZaiSaturation_within (by decide +kernel) hevaluated (pacedSnapshot [fiveHours] 20) {}
    (hours 2)
  exact ⟨hlifts (Or.inr (List.any_eq_true.1 hpaced)), hsteps rfl (by decide)⟩

end Subgov
