import Subgov.Saturation
/-!
# Arbitration — what bounds a decision, whichever path produced it

`applyStepLimits` keeps a fleet within its range and its steps.  The caps that follow it in `capDesired` can only lower
its result; `capDesired_ge_iff` and `lt_capDesired_iff` say when they lower it past a bound.  From these follow exactly
when a decision keeps the step limits, and that it stays under the short windows of the snapshot wherever the pacing plan
stands back or has no room above them.
-/
namespace Subgov

open FloatArith

variable {F : Type} [Flt F]

/-! ## Step limits -/

section StepLimits

variable {config : AccountConfig F} {desired current : Nat}

omit [Flt F] in
theorem applyStepLimits_eq (hrange : config.fleet.minWorkers ≤ config.fleet.maxWorkers) :
    applyStepLimits desired current config =
      let bounded := max config.fleet.minWorkers (min desired config.fleet.maxWorkers)
      max config.fleet.minWorkers (min config.fleet.maxWorkers
        (if current < bounded then min bounded (satAdd current config.fleet.maxScaleUpPerCycle)
          else max bounded (current - config.fleet.maxScaleDownPerCycle))) := by
  unfold applyStepLimits
  rw [clampNat_eq hrange, clampNat_eq hrange]
  simp only [min_comm]

omit [Flt F] in
theorem le_applyStepLimits (desired : Nat) (hrange : config.fleet.minWorkers ≤ config.fleet.maxWorkers)
    (hmax : current ≤ config.fleet.maxWorkers) :
    current - config.fleet.maxScaleDownPerCycle ≤ applyStepLimits desired current config := by
  have hu := config.fleet.maxWorkersU32
  rw [applyStepLimits_eq hrange]
  simp only [satAdd]
  split <;> omega

omit [Flt F] in
theorem applyStepLimits_le_up (hrange : config.fleet.minWorkers ≤ config.fleet.maxWorkers)
    (hmin : config.fleet.minWorkers ≤ current) :
    applyStepLimits desired current config ≤ current + config.fleet.maxScaleUpPerCycle := by
  rw [applyStepLimits_eq hrange]
  simp only [satAdd]
  split <;> omega

omit [Flt F] in
/-- **A stepped count exceeds a bound that no downward step and no fleet minimum holds up** exactly when the request, the
fleet and the upward limit all do. -/
theorem lt_applyStepLimits_iff (hrange : config.fleet.minWorkers ≤ config.fleet.maxWorkers) {bound : Nat}
    (hmin : config.fleet.minWorkers ≤ bound) (hdown : current - config.fleet.maxScaleDownPerCycle ≤ bound) :
    bound < applyStepLimits desired current config ↔
      bound < desired ∧ bound < config.fleet.maxWorkers ∧ bound < current + config.fleet.maxScaleUpPerCycle := by
  have hu := config.fleet.maxWorkersU32
  rw [applyStepLimits_eq hrange]
  simp only [satAdd]
  split <;> omega

end StepLimits

/-! ## The paths of `evaluate` -/

section Paths

variable {name : String} {config : AccountConfig F} {snapshot : QuotaSnapshot F} {prior : AccountState F}
  {current : Nat} {now : DateTime}

/-- **Every decision is the stale one, or the fresh one over some observed windows.** -/
theorem evaluate_ok {d : Decision F} (h : evaluate name config snapshot prior current now = .ok d) :
    (isStale config snapshot now = true ∧ d = staleDecision name config snapshot current) ∨
    (isStale config snapshot now = false ∧ windowDecisions config snapshot prior current now ≠ [] ∧
      d = freshDecision name config snapshot prior current now
        (windowDecisions config snapshot prior current now)) := by
  unfold evaluate at h
  split at h
  · rename_i hs
    cases h
    exact Or.inl ⟨hs, rfl⟩
  · rename_i hs
    simp only [] at h
    split at h
    · cases h
    · rename_i hne
      cases h
      refine Or.inr ⟨by simpa using hs, ?_, rfl⟩
      intro he
      exact hne (by rw [he]; rfl)

theorem evaluate_fresh (hs : isStale config snapshot now = false)
    (hne : (windowDecisions config snapshot prior current now).isEmpty = false) :
    evaluate name config snapshot prior current now =
      .ok (freshDecision name config snapshot prior current now
        (windowDecisions config snapshot prior current now)) := by
  unfold evaluate
  simp only [hs, hne, Bool.false_eq_true, if_false]

/-- What an evaluation counts, before any policy has marked it. -/
theorem evaluate_bare {d : Decision F} (h : evaluate name config snapshot prior current now = .ok d) :
    d.currentWorkers = current ∧ d.unownedWorkers = 0 ∧ d.backpressure = none ∧ d.saturation = none := by
  rcases evaluate_ok h with ⟨-, rfl⟩ | ⟨-, -, rfl⟩
  · exact ⟨rfl, rfl, rfl, rfl⟩
  · exact ⟨rfl, rfl, rfl, rfl⟩

/-- **A pool is evaluated as a whole**, and the result put in elastic terms where some of it is unowned. -/
theorem evaluatePool_ok {owned unowned : Nat} {d : Decision F}
    (h : evaluatePool name config snapshot prior owned unowned now = .ok d) :
    (unowned = 0 ∧ evaluate name config snapshot prior owned now = .ok d) ∨
    (unowned ≠ 0 ∧ ∃ pooled, d = pooled.intoElastic unowned ∧
      evaluate name (pooledConfig config unowned) snapshot prior (satAdd owned unowned) now = .ok pooled) := by
  unfold evaluatePool at h
  split at h
  · rename_i hnone
    exact Or.inl ⟨hnone, h⟩
  · rename_i hsome
    cases hpool : evaluate name (pooledConfig config unowned) snapshot prior (satAdd owned unowned) now with
    | error e =>
      rw [hpool] at h
      cases h
    | ok pooled =>
      rw [hpool] at h
      exact Or.inr ⟨hsome, pooled, (Except.ok.inj h).symm, rfl⟩

theorem evaluatePool_unbraked {owned unowned : Nat} {d : Decision F}
    (h : evaluatePool name config snapshot prior owned unowned now = .ok d) :
    d.backpressure = none ∧ d.saturation = none := by
  rcases evaluatePool_ok h with ⟨-, heval⟩ | ⟨hsome, pooled, rfl, heval⟩
  · exact (evaluate_bare heval).2.2
  · rw [Decision.intoElastic, if_neg hsome]
    exact (evaluate_bare heval).2.2

/-- The unowned workers are counted as given, and the owned up to a sum that saturates. -/
theorem evaluatePool_counts {owned unowned : Nat} {d : Decision F}
    (h : evaluatePool name config snapshot prior owned unowned now = .ok d) (howned : owned ≤ u32Max) :
    d.currentWorkers = satAdd owned unowned - unowned ∧ d.unownedWorkers = unowned := by
  rcases evaluatePool_ok h with ⟨rfl, heval⟩ | ⟨hsome, pooled, rfl, heval⟩
  · obtain ⟨hcurrent, hunowned, -⟩ := evaluate_bare heval
    rw [satAdd_of_le howned]
    exact ⟨hcurrent, hunowned⟩
  · rw [Decision.intoElastic, if_neg hsome, ← (evaluate_bare heval).1]
    exact ⟨rfl, rfl⟩

theorem windowDecision_id {w : QuotaWindow F} {b : Bool} {d : WindowDecision F}
    (h : windowDecision config snapshot prior current now b w = some d) : d.id = w.id := by
  unfold windowDecision at h
  obtain ⟨p, -, rfl⟩ := Option.map_eq_some_iff.1 h
  rfl

variable (config snapshot prior current now) in
theorem windowDecision_isSome (b : Bool) (w : QuotaWindow F) :
    (windowDecision config snapshot prior current now b w).isSome = (config.utilization.policyFor w.id).isSome := by
  unfold windowDecision
  rw [Option.isSome_map]

variable (config prior current now) in
theorem windowDecisions_find?_isSome {w : QuotaWindow F} (hw : w ∈ snapshot.windows) :
    ((windowDecisions config snapshot prior current now).find? (fun d => d.id == w.id)).isSome =
      (config.utilization.policyFor w.id).isSome := by
  by_cases hp : (config.utilization.policyFor w.id).isSome = true
  · rw [hp, List.find?_isSome]
    obtain ⟨d, hd⟩ := Option.isSome_iff_exists.1
      ((windowDecision_isSome config snapshot prior current now (bankedAvailable config snapshot) w).trans hp)
    exact ⟨d, List.mem_filterMap.2 ⟨w, hw, hd⟩, by rw [windowDecision_id hd]; simp⟩
  · rw [Bool.not_eq_true] at hp
    rw [hp, ← Bool.not_eq_true, List.find?_isSome]
    rintro ⟨d, hd, hid⟩
    obtain ⟨v, -, hv⟩ := List.mem_filterMap.1 hd
    have hvw : v.id = w.id := by rw [← windowDecision_id hv]; simpa using hid
    have hs : (windowDecision config snapshot prior current now (bankedAvailable config snapshot) v).isSome = true := by
      rw [hv]; rfl
    rw [windowDecision_isSome, hvw, hp] at hs
    cases hs

/-- A weekly window that governs the banked credits, with an enabled policy. -/
def governsBanked (config : AccountConfig F) (snapshot : QuotaSnapshot F) : Bool :=
  bankedAvailable config snapshot &&
    (governingWindow snapshot).any (fun w => (config.utilization.policyFor w.id).isSome)

theorem governingWindow_mem {w : QuotaWindow F} (h : governingWindow snapshot = some w) :
    w ∈ snapshot.windows ∧ isWeeklyWindow w.durationMinutes = true :=
  List.mem_filter.1 (Select.maxBy_mem h)

theorem bankedResetDecision_some {decisions : List (WindowDecision F)} {plan : BankedResetDecision F}
    (h : bankedResetDecision config snapshot decisions prior current now = some plan) :
    ∃ credits window decision minutes, governingWindow snapshot = some window ∧
      plan = bankedPlan config snapshot credits window decision minutes prior current now := by
  unfold bankedResetDecision at h
  split at h
  · cases h
  · split at h
    · cases h
    · rename_i credits _
      split at h
      · cases h
      · split at h
        · cases h
        · rename_i window hw
          split at h
          · rename_i decision minutes _ _
            cases h
            exact ⟨credits, window, decision, minutes, hw, rfl⟩
          · cases h

omit [Flt F] in
variable (snapshot) in
theorem bankedAvailable_disabled (h : config.bankedResets.enabled = false) :
    bankedAvailable config snapshot = false := by
  unfold bankedAvailable
  rw [h, Bool.false_and]

variable (prior current now) in
/-- Without available credits there is no plan, whatever the windows ask for. -/
theorem bankedResetDecision_none (h : bankedAvailable config snapshot = false) (decisions : List (WindowDecision F)) :
    bankedResetDecision config snapshot decisions prior current now = none := by
  unfold bankedAvailable at h
  unfold bankedResetDecision
  cases henabled : config.bankedResets.enabled with
  | false => rfl
  | true =>
    rw [henabled, Bool.true_and] at h
    cases hcredits : snapshot.resetCredits with
    | none => rfl
    | some credits =>
      rw [hcredits, Option.any_some, decide_eq_false_iff_not, Nat.not_lt, Nat.le_zero] at h
      exact if_pos h

variable (config snapshot prior current now) in
/-- **A plan exists exactly when an enabled weekly window governs available credits.** -/
theorem bankedResetDecision_isSome :
    (bankedResetDecision config snapshot (windowDecisions config snapshot prior current now) prior current now).isSome =
      governsBanked config snapshot := by
  unfold bankedResetDecision governsBanked bankedAvailable
  by_cases he : config.bankedResets.enabled = true
  · rw [he]
    cases hc : snapshot.resetCredits with
    | none => rfl
    | some credits =>
      by_cases h0 : credits.availableCount = 0
      · simp [h0]
      · have hpos : 0 < credits.availableCount := Nat.pos_of_ne_zero h0
        cases hg : governingWindow snapshot with
        | none => simp [h0]
        | some w =>
          obtain ⟨hmem, hweek⟩ := governingWindow_mem hg
          have hfind := windowDecisions_find?_isSome config prior current now hmem
          obtain ⟨minutes, hm⟩ : ∃ m, w.durationMinutes = some m := by
            cases hd : w.durationMinutes with
            | none => rw [hd] at hweek; cases hweek
            | some m => exact ⟨m, rfl⟩
          simp only [Bool.not_true, Bool.false_eq_true, if_false, h0, Option.any_some, hpos, decide_true,
            Bool.true_and]
          rw [← hfind, hm]
          cases (windowDecisions config snapshot prior current now).find? (fun d => d.id == w.id) <;> rfl
  · rw [Bool.not_eq_true] at he
    simp [he]

theorem bankedResetDecision_capacity {decisions : List (WindowDecision F)} {plan : BankedResetDecision F}
    (h : bankedResetDecision config snapshot decisions prior current now = some plan) :
    plan.eligibleBacklogCapacity = eligibleCapacity config snapshot current := by
  obtain ⟨credits, window, decision, minutes, -, rfl⟩ := bankedResetDecision_some h
  rfl

theorem bankedResetDecision_manual {decisions : List (WindowDecision F)} {plan : BankedResetDecision F}
    (h : bankedResetDecision config snapshot decisions prior current now = some plan)
    (hm : plan.manualRedemptionRecommended = true) : plan.desiredWorkers = config.fleet.minWorkers := by
  obtain ⟨credits, window, decision, minutes, -, rfl⟩ := bankedResetDecision_some h
  have hr : redemptionDue config prior window = true := hm
  simp only [bankedPlan, bankedTarget, hr, if_true]

theorem bankedResetDecision_due {decisions : List (WindowDecision F)} {plan : BankedResetDecision F}
    (h : bankedResetDecision config snapshot decisions prior current now = some plan) :
    plan.manualRedemptionRecommended = (governingWindow snapshot).any (redemptionDue config prior) := by
  obtain ⟨credits, window, decision, minutes, hw, rfl⟩ := bankedResetDecision_some h
  rw [hw]
  rfl

end Paths

/-! ## The caps after the step limits -/

section Caps

variable {config : AccountConfig F} {snapshot : QuotaSnapshot F} {current raw : Nat}

omit [Flt F] in
theorem le_capDesired (hrange : config.fleet.minWorkers ≤ config.fleet.maxWorkers)
    (hmax : current ≤ config.fleet.maxWorkers) {banked : Option (BankedResetDecision F)}
    (hb : banked = none ∨ config.bankedResets.fullSpeed = true) :
    current - config.fleet.maxScaleDownPerCycle ≤ capDesired config snapshot current raw banked := by
  have hstep := le_applyStepLimits (min raw (snapshot.eligibleBacklogCapacity.getD u32Max)) hrange hmax
  rcases hb with rfl | hfull
  · simp only [capDesired]
    omega
  · cases banked with
    | none =>
      simp only [capDesired]
      omega
    | some plan =>
      simp only [capDesired, hfull, if_true]
      omega

omit [Flt F] in
theorem capDesired_le_step (banked : Option (BankedResetDecision F)) :
    capDesired config snapshot current raw banked ≤
      applyStepLimits (min raw (snapshot.eligibleBacklogCapacity.getD u32Max)) current config := by
  unfold capDesired
  cases banked with
  | none => exact min_le_left _ _
  | some plan =>
    refine le_trans (min_le_left _ _) ?_
    simp only []
    split <;> exact min_le_left _ _

omit [Flt F] in
/-- **Under a pacing plan the capacity of the backlog is applied after the step limits**, so a downward step is kept
exactly when the backlog is not below it. -/
theorem capDesired_ge_iff (hrange : config.fleet.minWorkers ≤ config.fleet.maxWorkers)
    (hmax : current ≤ config.fleet.maxWorkers) (hslow : config.bankedResets.fullSpeed = false)
    {plan : BankedResetDecision F} (hcap : plan.eligibleBacklogCapacity = eligibleCapacity config snapshot current) :
    current - config.fleet.maxScaleDownPerCycle ≤ capDesired config snapshot current raw (some plan) ↔
      ∀ b ∈ snapshot.eligibleBacklogCapacity, current - config.fleet.maxScaleDownPerCycle ≤ b := by
  have hstep := le_applyStepLimits (min raw (snapshot.eligibleBacklogCapacity.getD u32Max)) hrange hmax
  simp only [capDesired, hslow, hcap, eligibleCapacity]
  cases hb : snapshot.eligibleBacklogCapacity with
  | none =>
    rw [hb] at hstep
    simp only [Option.getD_none] at hstep ⊢
    refine ⟨fun _ b h => (nomatch h), fun _ => ?_⟩
    simp only [Bool.false_eq_true, if_false]
    omega
  | some b =>
    rw [hb] at hstep
    simp only [Option.getD_some, Option.mem_some_iff, forall_eq', Bool.false_eq_true, if_false] at hstep ⊢
    omega

omit [Flt F] in
/-- **A bound that the step down and the minimum respect is exceeded** exactly when the request, the eligible capacity
and the upward limit all exceed it. -/
theorem lt_capDesired_iff (hrange : config.fleet.minWorkers ≤ config.fleet.maxWorkers)
    (hslow : config.bankedResets.fullSpeed = false) {plan : BankedResetDecision F}
    (hcap : plan.eligibleBacklogCapacity = eligibleCapacity config snapshot current) {bound : Nat}
    (hmin : config.fleet.minWorkers ≤ bound) (hdown : current - config.fleet.maxScaleDownPerCycle ≤ bound) :
    bound < capDesired config snapshot current raw (some plan) ↔
      bound < raw ∧ bound < eligibleCapacity config snapshot current ∧
        bound < current + config.fleet.maxScaleUpPerCycle := by
  have hu := config.fleet.maxWorkersU32
  simp only [capDesired, hslow, Bool.false_eq_true, if_false, hcap, lt_min_iff, lt_applyStepLimits_iff hrange hmin hdown]
  unfold eligibleCapacity
  cases snapshot.eligibleBacklogCapacity with
  | none =>
    simp only [Option.getD_none]
    omega
  | some b =>
    simp only [Option.getD_some]
    omega

omit [Flt F] in
theorem capDesired_le (snapshot : QuotaSnapshot F) (banked : Option (BankedResetDecision F))
    (hrange : config.fleet.minWorkers ≤ config.fleet.maxWorkers) {bound : Nat} (hraw : raw ≤ bound)
    (hmin : config.fleet.minWorkers ≤ bound) (hdown : current - config.fleet.maxScaleDownPerCycle ≤ bound) :
    capDesired config snapshot current raw banked ≤ bound := by
  refine le_trans (capDesired_le_step banked) (not_lt.1 fun hlt => ?_)
  have h := ((lt_applyStepLimits_iff hrange hmin hdown).1 hlt).1
  exact absurd hraw (not_le.2 (lt_of_lt_of_le h (min_le_left _ _)))

end Caps

/-! ## The step limits of a decision -/

section Steps

variable {name : String} {config : AccountConfig F} {snapshot : QuotaSnapshot F} {prior : AccountState F}
  {current : Nat} {now : DateTime}

/-- Whether a fresh snapshot is paced by the banked credits, below full speed. -/
def pacesBanked (config : AccountConfig F) (snapshot : QuotaSnapshot F) (now : DateTime) : Bool :=
  !isStale config snapshot now && !config.bankedResets.fullSpeed && governsBanked config snapshot

theorem evaluate_le_up (hrange : config.fleet.minWorkers ≤ config.fleet.maxWorkers)
    (hmin : config.fleet.minWorkers ≤ current) {d : Decision F}
    (h : evaluate name config snapshot prior current now = .ok d) :
    d.desiredWorkers ≤ current + config.fleet.maxScaleUpPerCycle := by
  rcases evaluate_ok h with ⟨-, rfl⟩ | ⟨-, -, rfl⟩
  · exact le_trans (min_le_left _ _) (applyStepLimits_le_up hrange hmin)
  · exact le_trans (capDesired_le_step _) (applyStepLimits_le_up hrange hmin)

/-- **A decision keeps both step limits** exactly when no pacing plan meets a backlog below the downward one. -/
theorem evaluate_steps_iff (hv : config.validate name = .ok ()) (hmin : config.fleet.minWorkers ≤ current)
    (hmax : current ≤ config.fleet.maxWorkers) {d : Decision F}
    (h : evaluate name config snapshot prior current now = .ok d) :
    (current - config.fleet.maxScaleDownPerCycle ≤ d.desiredWorkers ∧
      d.desiredWorkers ≤ current + config.fleet.maxScaleUpPerCycle) ↔
    (pacesBanked config snapshot now = true →
      ∀ b ∈ snapshot.eligibleBacklogCapacity, current - config.fleet.maxScaleDownPerCycle ≤ b) := by
  have hrange := AccountConfig.validate_bounds hv
  have hup := evaluate_le_up hrange hmin h
  rw [and_iff_left hup]
  rcases evaluate_ok h with ⟨hstale, rfl⟩ | ⟨hfresh, -, rfl⟩
  · -- the stale path only lowers the count within a step
    have hle : current - config.fleet.maxScaleDownPerCycle ≤
        (staleDecision name config snapshot current).desiredWorkers :=
      le_min (le_applyStepLimits _ hrange hmax) (Nat.sub_le _ _)
    have hno : pacesBanked config snapshot now = false := by simp [pacesBanked, hstale]
    rw [hno]
    exact ⟨fun _ => nofun, fun _ => hle⟩
  · simp only [freshDecision]
    have hsome := bankedResetDecision_isSome config snapshot prior current now
    cases hb : bankedResetDecision config snapshot (windowDecisions config snapshot prior current now) prior current
      now with
    | none =>
      rw [hb] at hsome
      have hno : pacesBanked config snapshot now = false := by simp [pacesBanked, ← hsome]
      rw [hno]
      exact ⟨fun _ => nofun, fun _ => le_capDesired hrange hmax (Or.inl rfl)⟩
    | some plan =>
      rw [hb] at hsome
      by_cases hfull : config.bankedResets.fullSpeed = true
      · have hno : pacesBanked config snapshot now = false := by simp [pacesBanked, hfull]
        rw [hno]
        exact ⟨fun _ => nofun, fun _ => le_capDesired hrange hmax (Or.inr hfull)⟩
      · rw [Bool.not_eq_true] at hfull
        have hyes : pacesBanked config snapshot now = true := by
          simp only [pacesBanked, hfresh, hfull, ← hsome]
          rfl
        rw [capDesired_ge_iff hrange hmax hfull (bankedResetDecision_capacity hb), hyes]
        exact ⟨fun h _ => h, fun h => h rfl⟩

end Steps

/-! ### A fleet of ten workers with one banked credit -/

def pacedFleet : FleetConfig F64 where
  minWorkers := 0
  maxWorkers := 10
  bootstrapWorkers := 1
  maxScaleUpPerCycle := 2
  maxScaleDownPerCycle := 1
  observer := some (.static 0)
  actuator := .none
  observerReconciliation := .strict
  hosts := none
  takeover := []
  maxWorkersU32 := by decide

def pacedUtilization : UtilizationConfig F64 where
  targetUtilization := some (Flt.ofRat (9 / 10))
  reserveFraction := none
  strategy := .linearToReset
  staleAfterSeconds := 600
  staleBehavior := .hold
  minimumSampleSeconds := 60
  backpressure := none
  zaiSaturation := none
  windows := ∅
  targetGiven := Or.inl rfl

def pacedAccount : AccountConfig F64 where
  fleet := pacedFleet
  utilization := pacedUtilization
  bankedResets :=
    { enabled := true
      fullSpeed := false
      minimumPaceMultiplier := Flt.ofNat 1
      redeemAtUtilization := Flt.ofNat 1
      deadlineSafetySeconds := 7200 }

theorem pacedAccount_valid : pacedAccount.validate "codex" = .ok () := by decide +kernel

def week : QuotaWindow F64 :=
  { id := "week", usedFraction := Flt.ofRat (1 / 2), resetsAt := hours 80, durationMinutes := some 10080,
    reached := false }

def fiveHours : QuotaWindow F64 :=
  { id := "5h", usedFraction := Flt.ofRat (1 / 2), resetsAt := hours 5, durationMinutes := some 300,
    reached := false }

/-- A snapshot at hour one, with a credit that expires within the safety margin. -/
def pacedSnapshot (windows : List (QuotaWindow F64)) (backlog : Nat) : QuotaSnapshot F64 where
  observedAt := hours 1
  fresh := true
  windows
  eligibleBacklogCapacity := some backlog
  resetCredits := some
    { availableCount := 1, credits := some [{ id := "c", status := "available", expiresAt := some (hours 2) }] }
  backpressure := none
  saturation := none

def pacedDecision (windows : List (QuotaWindow F64)) (backlog : Nat) (prior : AccountState F64) (current : Nat) :
    Decision F64 :=
  freshDecision "codex" pacedAccount (pacedSnapshot windows backlog) prior current (hours 1)
    (windowDecisions pacedAccount (pacedSnapshot windows backlog) prior current (hours 1))

/-- An empty backlog under a pacing plan drops the whole fleet of ten in one cycle. -/
theorem evaluate_exceeds_step_down :
    ¬ ∀ (name : String) (config : AccountConfig F64) (snapshot : QuotaSnapshot F64) (prior : AccountState F64)
      (current : Nat) (now : DateTime) (d : Decision F64), config.validate name = .ok () →
      config.fleet.minWorkers ≤ current → current ≤ config.fleet.maxWorkers →
      evaluate name config snapshot prior current now = .ok d →
      current - config.fleet.maxScaleDownPerCycle ≤ d.desiredWorkers ∧
        d.desiredWorkers ≤ current + config.fleet.maxScaleUpPerCycle := by
  intro hall
  have h := hall "codex" pacedAccount (pacedSnapshot [week] 0) {} 10 (hours 1) (pacedDecision [week] 0 {} 10)
    pacedAccount_valid (by decide) (by decide) (evaluate_fresh (by decide +kernel) (by decide +kernel))
  have h0 : (pacedDecision [week] 0 {} 10).desiredWorkers = 0 := by decide +kernel
  rw [h0] at h
  exact absurd h.1 (by decide)

/-- With work for the whole fleet the same decision steps within its limits. -/
theorem evaluate_steps_paced :
    10 - 1 ≤ (pacedDecision [week] 20 {} 10).desiredWorkers ∧
      (pacedDecision [week] 20 {} 10).desiredWorkers ≤ 10 + 2 := by
  have h : evaluate "codex" pacedAccount (pacedSnapshot [week] 20) {} 10 (hours 1) =
      .ok (pacedDecision [week] 20 {} 10) := evaluate_fresh (by decide +kernel) (by decide +kernel)
  exact (evaluate_steps_iff pacedAccount_valid (by decide) (by decide) h).2 fun _ b hb => by cases hb; decide

/-! ## The short windows -/

section Short

variable {name : String} {config : AccountConfig F} {snapshot : QuotaSnapshot F} {prior : AccountState F}
  {current : Nat} {now : DateTime}

def isShortGuard (snapshot : QuotaSnapshot F) (d : WindowDecision F) : Bool :=
  isShortWindow snapshot d.id && (d.reason == .targetReached || d.reason == .pacedToReset || d.reason == .resetDue)

/-- What a window leaves the fleet: its own count, a step down, or the minimum. -/
def windowBound (config : AccountConfig F) (current : Nat) (d : WindowDecision F) : Nat :=
  max d.desiredWorkers (max (current - config.fleet.maxScaleDownPerCycle) config.fleet.minWorkers)

def WithinShortWindows (config : AccountConfig F) (snapshot : QuotaSnapshot F) (current : Nat) (d : Decision F) : Prop :=
  ∀ w ∈ d.windows, isShortGuard snapshot w = true → d.desiredWorkers ≤ windowBound config current w

/-- What the pacing plan takes over the ordinary windows: its target within the eligible backlog, or nothing when no plan
paces, when the plan waits for a redemption, or when a short window is at its target. -/
def pacedDemand (config : AccountConfig F) (snapshot : QuotaSnapshot F) (prior : AccountState F) (current : Nat)
    (now : DateTime) : Nat :=
  let decisions := windowDecisions config snapshot prior current now
  match bankedResetDecision config snapshot decisions prior current now with
  | none => 0
  | some plan =>
    if config.bankedResets.fullSpeed || (governingWindow snapshot).any (redemptionDue config prior) ||
      shortWindowReached snapshot decisions then 0
    else min plan.desiredWorkers (eligibleCapacity config snapshot current)

omit [Flt F] in
theorem foldl_guards_le (ds : List (WindowDecision F)) (x : Nat) :
    ds.foldl (fun desired guard => min desired guard.desiredWorkers) x ≤ x ∧
      ∀ d ∈ ds, ds.foldl (fun desired guard => min desired guard.desiredWorkers) x ≤ d.desiredWorkers := by
  induction ds generalizing x with
  | nil => exact ⟨le_refl _, nofun⟩
  | cons d ds ih =>
    rw [List.foldl_cons]
    obtain ⟨hle, hall⟩ := ih (min x d.desiredWorkers)
    refine ⟨le_trans hle (min_le_left _ _), ?_⟩
    intro e he
    rcases List.mem_cons.1 he with rfl | he
    · exact le_trans hle (min_le_right _ _)
    · exact hall e he

omit [Flt F] in
theorem isFullSpeedGuard_of_isShortGuard {d : WindowDecision F} (h : isShortGuard snapshot d = true) :
    isFullSpeedGuard snapshot d = true := by
  simp only [isShortGuard, isFullSpeedGuard, Bool.and_eq_true, Bool.or_eq_true] at h ⊢
  tauto

variable (current) in
omit [Flt F] in
theorem ordinary_le {decisions : List (WindowDecision F)} {w : WindowDecision F} (hw : w ∈ decisions) :
    ((Select.minByKey (fun d : WindowDecision F => d.desiredWorkers) decisions).map (·.desiredWorkers)).getD current ≤
      w.desiredWorkers := by
  obtain ⟨m, hm⟩ := Select.minByKey_isSome (fun d : WindowDecision F => d.desiredWorkers) (List.ne_nil_of_mem hw)
  rw [hm]
  exact Select.minByKey_le hm w hw

/-- **One short window bounds a fresh decision** exactly when the pacing plan, within the backlog and a step up, asks for
no more than it leaves. -/
theorem freshDecision_le_windowBound_iff (hrange : config.fleet.minWorkers ≤ config.fleet.maxWorkers)
    {w : WindowDecision F} (hw : w ∈ windowDecisions config snapshot prior current now)
    (hguard : isShortGuard snapshot w = true) :
    (freshDecision name config snapshot prior current now
        (windowDecisions config snapshot prior current now)).desiredWorkers ≤ windowBound config current w ↔
      min (pacedDemand config snapshot prior current now) (current + config.fleet.maxScaleUpPerCycle) ≤
        windowBound config current w := by
  have hmin : config.fleet.minWorkers ≤ windowBound config current w :=
    le_trans (le_max_right _ _) (le_max_right _ _)
  have hdown : current - config.fleet.maxScaleDownPerCycle ≤ windowBound config current w :=
    le_trans (le_max_left _ _) (le_max_right _ _)
  have hown : w.desiredWorkers ≤ windowBound config current w := le_max_left _ _
  have hord := le_trans (ordinary_le current hw) hown
  simp only [freshDecision, pacedDemand]
  generalize hD : windowDecisions config snapshot prior current now = decisions at hw hord ⊢
  generalize (Option.map (fun d : WindowDecision F => d.desiredWorkers)
    (Select.minByKey (fun d : WindowDecision F => d.desiredWorkers) decisions)).getD current = ordinary at hord ⊢
  cases hb : bankedResetDecision config snapshot decisions prior current now with
  | none =>
    have hle := capDesired_le snapshot none hrange hord hmin hdown
    exact ⟨fun _ => le_trans (min_le_left _ _) (Nat.zero_le _), fun _ => hle⟩
  | some plan =>
    have hmanual := bankedResetDecision_due hb
    simp only [rawDesired]
    by_cases hm : plan.manualRedemptionRecommended = true
    · rw [hm] at hmanual
      have hdes := bankedResetDecision_manual hb hm
      rw [if_pos hm, ← hmanual, hdes]
      have hle := capDesired_le snapshot (some plan) hrange hmin hmin hdown
      simp only [Bool.or_true, Bool.true_or, if_true]
      exact ⟨fun _ => le_trans (min_le_left _ _) (Nat.zero_le _), fun _ => hle⟩
    · rw [if_neg hm]
      rw [Bool.not_eq_true] at hm
      rw [hm] at hmanual
      rw [← hmanual]
      by_cases hfull : config.bankedResets.fullSpeed = true
      · -- the guards of a full-speed fleet include every short one
        rw [if_pos hfull, hfull]
        obtain ⟨-, hall⟩ := foldl_guards_le (decisions.filter (isFullSpeedGuard snapshot)) plan.desiredWorkers
        have hraw := le_trans (hall w (List.mem_filter.2 ⟨hw, isFullSpeedGuard_of_isShortGuard hguard⟩)) hown
        have hle := capDesired_le snapshot (some plan) hrange hraw hmin hdown
        simp only [Bool.true_or, if_true]
        exact ⟨fun _ => le_trans (min_le_left _ _) (Nat.zero_le _), fun _ => hle⟩
      · rw [if_neg hfull]
        rw [Bool.not_eq_true] at hfull
        rw [hfull]
        by_cases hs : shortWindowReached snapshot decisions = true
        · have hle := capDesired_le snapshot (some plan) hrange hord hmin hdown
          simp only [hs, Bool.not_true, Bool.false_eq_true, if_false, Bool.or_true, if_true]
          exact ⟨fun _ => le_trans (min_le_left _ _) (Nat.zero_le _), fun _ => hle⟩
        · rw [Bool.not_eq_true] at hs
          simp only [hs, Bool.not_false, if_true, Bool.or_false, Bool.false_eq_true, if_false]
          rw [← not_lt, lt_capDesired_iff hrange hfull (bankedResetDecision_capacity hb) hmin hdown]
          omega

/-- **The short windows of a fresh snapshot bound the decision** exactly when each leaves room for what the pacing plan
takes within a step up. -/
theorem evaluate_short_windows_iff (hv : config.validate name = .ok ()) (hfresh : isStale config snapshot now = false)
    {d : Decision F} (h : evaluate name config snapshot prior current now = .ok d) :
    WithinShortWindows config snapshot current d ↔
    ∀ w ∈ windowDecisions config snapshot prior current now, isShortGuard snapshot w = true →
      min (pacedDemand config snapshot prior current now) (current + config.fleet.maxScaleUpPerCycle) ≤
        windowBound config current w := by
  rcases evaluate_ok h with ⟨hstale, -⟩ | ⟨-, -, rfl⟩
  · rw [hfresh] at hstale
    cases hstale
  · have hrange := AccountConfig.validate_bounds hv
    constructor
    · intro hall w hw hg
      exact (freshDecision_le_windowBound_iff hrange hw hg).1 (hall w hw hg)
    · intro hall w hw hg
      exact (freshDecision_le_windowBound_iff hrange hw hg).2 (hall w hw hg)

/-! ### What a plan can come to -/

/-- The window is at its target, by its usage or by what the provider says of it. -/
def atTarget (config : AccountConfig F) (snapshot : QuotaSnapshot F) (window : QuotaWindow F) : Bool :=
  (config.utilization.policyFor window.id).any (fun policy => window.reached ||
    decide (windowTarget config (bankedAvailable config snapshot) window policy ≤ window.usedFraction))

/-- A window with a linear policy that its reset is ahead of, and a stored sample to pace it from. -/
def pacesFrom (config : AccountConfig F) (snapshot : QuotaSnapshot F) (prior : AccountState F) (now : DateTime)
    (window : QuotaWindow F) : Bool :=
  decide (now < window.resetsAt) && (config.utilization.policyFor window.id).any (fun policy =>
    decide (policy.strategy = .linearToReset) && prior.windows[window.id]?.any (usableSample config snapshot window policy))

def shortAtTarget (config : AccountConfig F) (snapshot : QuotaSnapshot F) : Bool :=
  snapshot.windows.any (fun window => atTarget config snapshot window &&
    (snapshot.windows.find? (fun w => w.id == window.id)).any (fun w => !isWeeklyWindow w.durationMinutes))

/-- No pacing plan is taken over the ordinary windows: at full speed the short ones bound it too, and below it there is
none, it waits for a redemption, or a short window at its target sets it aside. -/
def planStandsBack (config : AccountConfig F) (snapshot : QuotaSnapshot F) (prior : AccountState F) : Bool :=
  config.bankedResets.fullSpeed || !governsBanked config snapshot ||
    (governingWindow snapshot).any (redemptionDue config prior) || shortAtTarget config snapshot

/-- The most workers that a pacing plan can come to in one cycle. -/
def planReach (config : AccountConfig F) (snapshot : QuotaSnapshot F) (current : Nat) : Nat :=
  min (eligibleCapacity config snapshot current) (current + config.fleet.maxScaleUpPerCycle)

/-- A pacing plan has no room above the short windows: where one is at its target or paced, a step down or the minimum
leaves as many workers as the plan can come to; where one is due for its reset, the current ones are as many. -/
def NoRoomAbove (config : AccountConfig F) (snapshot : QuotaSnapshot F) (prior : AccountState F) (current : Nat)
    (now : DateTime) : Prop :=
  ∀ window ∈ snapshot.windows, isShortWindow snapshot window.id = true →
    ((atTarget config snapshot window || pacesFrom config snapshot prior now window) = true →
      planReach config snapshot current ≤ max (current - config.fleet.maxScaleDownPerCycle) config.fleet.minWorkers) ∧
    ((config.utilization.policyFor window.id).isSome = true → window.resetsAt ≤ now →
      planReach config snapshot current ≤ max current config.fleet.minWorkers)

/-- **What the decision about a window says**: it is at its target, or due for its reset, or has it ahead, where only a
linear policy with a usable sample paces it. -/
theorem windowDecision_cases {window : QuotaWindow F} {d : WindowDecision F}
    (h : windowDecision config snapshot prior current now (bankedAvailable config snapshot) window = some d) :
    (atTarget config snapshot window = true ∧ d.reason = .targetReached) ∨
    (atTarget config snapshot window = false ∧ window.resetsAt ≤ now ∧ d.reason = .resetDue ∧
      d.desiredWorkers = clampNat current config.fleet.minWorkers config.fleet.maxWorkers) ∨
    (atTarget config snapshot window = false ∧ now < window.resetsAt ∧ d.reason ≠ .targetReached ∧
      d.reason ≠ .resetDue ∧ (d.reason = .pacedToReset → pacesFrom config snapshot prior now window = true)) := by
  unfold windowDecision at h
  obtain ⟨policy, hpolicy, rfl⟩ := Option.map_eq_some_iff.1 h
  simp only [atTarget, pacesFrom, hpolicy, Option.any_some, windowRaw]
  split
  · rename_i htarget
    exact .inl ⟨htarget, rfl⟩
  · rename_i htarget
    rw [Bool.not_eq_true] at htarget
    split
    · rename_i hdue
      exact .inr (.inl ⟨htarget, hdue, rfl, rfl⟩)
    · rename_i hahead
      refine .inr (.inr ⟨htarget, not_le.1 hahead, ?_⟩)
      split
      · exact ⟨nofun, nofun, nofun⟩
      · rename_i hlinear
        split
        · rename_i sample hsample
          obtain ⟨hstored, husable⟩ := Option.filter_eq_some_iff.1 hsample
          split
          · exact ⟨nofun, nofun, fun _ => by simp [not_le.1 hahead, hlinear, hstored, husable]⟩
          · exact ⟨nofun, nofun, nofun⟩
        · split
          · exact ⟨nofun, nofun, nofun⟩
          · exact ⟨nofun, nofun, nofun⟩

theorem windowDecision_targetReached {window : QuotaWindow F} {d : WindowDecision F}
    (h : windowDecision config snapshot prior current now (bankedAvailable config snapshot) window = some d) :
    (d.reason == .targetReached) = atTarget config snapshot window := by
  rcases windowDecision_cases h with ⟨htarget, hreason⟩ | ⟨htarget, -, hreason, -⟩ | ⟨htarget, -, hreason, -⟩
  · rw [htarget, hreason]; rfl
  · rw [htarget, hreason]; rfl
  · rw [htarget, beq_eq_false_iff_ne]
    exact hreason

variable (config snapshot prior current now) in
theorem shortWindowReached_windowDecisions :
    shortWindowReached snapshot (windowDecisions config snapshot prior current now) = shortAtTarget config snapshot := by
  unfold shortWindowReached shortAtTarget windowDecisions
  rw [List.any_filterMap]
  refine congrArg (snapshot.windows.any ·) (funext fun window => ?_)
  cases h : windowDecision config snapshot prior current now (bankedAvailable config snapshot) window with
  | none =>
    have hnone : config.utilization.policyFor window.id = none := Option.map_eq_none_iff.1 h
    simp only [atTarget, hnone, Option.any_none, Bool.false_and]
  | some d =>
    simp only []
    rw [windowDecision_targetReached h, windowDecision_id h]

theorem pacedDemand_le_capacity :
    pacedDemand config snapshot prior current now ≤ eligibleCapacity config snapshot current := by
  unfold pacedDemand
  simp only []
  split
  · exact Nat.zero_le _
  · split
    · exact Nat.zero_le _
    · exact min_le_right _ _

theorem pacedDemand_eq_zero (h : planStandsBack config snapshot prior = true) :
    pacedDemand config snapshot prior current now = 0 := by
  have hplan := bankedResetDecision_isSome config snapshot prior current now
  unfold pacedDemand
  simp only [shortWindowReached_windowDecisions]
  cases hb : bankedResetDecision config snapshot (windowDecisions config snapshot prior current now) prior current
    now with
  | none => rfl
  | some plan =>
    rw [hb, Option.isSome_some] at hplan
    rw [planStandsBack, ← hplan, Bool.not_true, Bool.or_false] at h
    exact if_pos h

/-- Where a plan has no room above the short windows, what each leaves is as much as the plan can come to. -/
theorem planReach_le_windowBound (hrange : config.fleet.minWorkers ≤ config.fleet.maxWorkers)
    (hroom : NoRoomAbove config snapshot prior current now) {d : WindowDecision F}
    (hd : d ∈ windowDecisions config snapshot prior current now) (hguard : isShortGuard snapshot d = true) :
    planReach config snapshot current ≤ windowBound config current d := by
  obtain ⟨window, hwindow, hdecision⟩ := List.mem_filterMap.1 hd
  simp only [isShortGuard, Bool.and_eq_true, Bool.or_eq_true, beq_iff_eq] at hguard
  obtain ⟨hshort, hreason⟩ := hguard
  obtain ⟨hpaced, hdue⟩ := hroom window hwindow (windowDecision_id hdecision ▸ hshort)
  have hpolicy := windowDecision_isSome config snapshot prior current now (bankedAvailable config snapshot) window
  rw [hdecision] at hpolicy
  rcases windowDecision_cases hdecision with ⟨htarget, -⟩ | ⟨-, hnow, -, hcount⟩ | ⟨-, -, hreached, hdueless, hpaces⟩
  · exact le_trans (hpaced (by rw [htarget, Bool.true_or])) (le_max_right _ _)
  · have hreach := hdue hpolicy.symm hnow
    have hcapacity : planReach config snapshot current ≤ config.fleet.maxWorkers :=
      le_trans (min_le_left _ _) (min_le_right _ _)
    rw [windowBound, hcount, clampNat_eq hrange]
    omega
  · rcases hreason with (hreason | hreason) | hreason
    · exact absurd hreason hreached
    · exact le_trans (hpaced (by rw [hpaces hreason, Bool.or_true])) (le_max_right _ _)
    · exact absurd hreason hdueless

/-- **The short windows of a fresh snapshot bound the decision** where the plan stands back, or has no room above
them. -/
theorem evaluate_short_windows_within (hv : config.validate name = .ok ()) (hfresh : isStale config snapshot now = false)
    (hplan : planStandsBack config snapshot prior = true ∨ NoRoomAbove config snapshot prior current now)
    {d : Decision F} (h : evaluate name config snapshot prior current now = .ok d) :
    WithinShortWindows config snapshot current d := by
  refine (evaluate_short_windows_iff hv hfresh h).2 fun w hw hguard => ?_
  rcases hplan with hback | hroom
  · rw [pacedDemand_eq_zero hback, Nat.zero_min]
    exact Nat.zero_le _
  · exact le_trans (min_le_min_right _ pacedDemand_le_capacity)
      (planReach_le_windowBound (AccountConfig.validate_bounds hv) hroom hw hguard)

end Short

/-- Two workers an hour ago, and a five-hour window that has gone from a tenth to a half since. -/
def hourAgo : AccountState F64 :=
  { windows := (∅ : BTreeMap (WindowSample F64)).insert "5h"
      { observedAt := 0, usedFraction := Flt.ofRat (1 / 10), resetsAt := hours 5, workers := 2 } }

/-- The five-hour window is paced to one worker, and the credit's deadline takes the fleet from two to four. -/
theorem evaluate_exceeds_short_window :
    ¬ ∀ (name : String) (config : AccountConfig F64) (snapshot : QuotaSnapshot F64) (prior : AccountState F64)
      (current : Nat) (now : DateTime) (d : Decision F64), config.validate name = .ok () →
      config.bankedResets.enabled = true → isStale config snapshot now = false →
      bankedAvailable config snapshot = true → config.fleet.minWorkers ≤ current →
      current ≤ config.fleet.maxWorkers → evaluate name config snapshot prior current now = .ok d →
      WithinShortWindows config snapshot current d := by
  intro hall
  have h := hall "codex" pacedAccount (pacedSnapshot [week, fiveHours] 8) hourAgo 2 (hours 1)
    (pacedDecision [week, fiveHours] 8 hourAgo 2) pacedAccount_valid rfl (by decide +kernel) (by decide +kernel)
    (by decide) (by decide) (evaluate_fresh (by decide +kernel) (by decide +kernel))
  have hbreaks : (pacedDecision [week, fiveHours] 8 hourAgo 2).windows.any (fun w =>
      isShortGuard (pacedSnapshot [week, fiveHours] 8) w &&
        decide (windowBound pacedAccount 2 w < (pacedDecision [week, fiveHours] 8 hourAgo 2).desiredWorkers)) =
      true := by
    decide +kernel
  obtain ⟨w, hw, hb⟩ := List.any_eq_true.1 hbreaks
  rw [Bool.and_eq_true, decide_eq_true_eq] at hb
  exact absurd (h w hw hb.1) (not_le.2 hb.2)

/-- With a backlog of one the plan has no room above the five-hour window. -/
theorem evaluate_short_windows_paced :
    WithinShortWindows pacedAccount (pacedSnapshot [week, fiveHours] 1) 2
      (pacedDecision [week, fiveHours] 1 hourAgo 2) := by
  have h : evaluate "codex" pacedAccount (pacedSnapshot [week, fiveHours] 1) hourAgo 2 (hours 1) =
      .ok (pacedDecision [week, fiveHours] 1 hourAgo 2) := evaluate_fresh (by decide +kernel) (by decide +kernel)
  have hreach : planReach pacedAccount (pacedSnapshot [week, fiveHours] 1) 2 = 1 := by decide
  refine evaluate_short_windows_within pacedAccount_valid (by decide +kernel) (.inr ?_) h
  intro window _ _
  rw [hreach]
  exact ⟨fun _ => by decide, fun _ _ => by decide⟩

end Subgov
