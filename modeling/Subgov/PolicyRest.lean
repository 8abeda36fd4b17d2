import Subgov.Backpressure
import Subgov.SaturationRun
/-!
# PolicyRest — when the policies leave their states as they are

The brake and the experiments return a next state on every cycle they are applied in.  `applyBackpressure_eq_iff` and
`applyZaiSaturation_eq_iff` say for which snapshots and stored states that is the stored one.
-/
namespace Subgov

open FloatArith

variable {F : Type} [Flt F]

/-! ## The brake -/

/-- The fraction of a snapshot that is not stale. -/
def usableFraction (config : AccountConfig F) (snapshot : QuotaSnapshot F) (now : DateTime) : Option F :=
  if isStale config snapshot now then none else snapshot.backpressure.bind (·.upstream429Fraction)

/-- A fraction that neither moves a mode nor counts as quiet in it. -/
def BackpressureMode.Keeps (policy : BackpressureConfig F) (fraction : F) : BackpressureMode → Prop
  | .normal => ¬ policy.holdAbove < fraction
  | .hold => ¬ policy.stepDownAbove < fraction ∧ ¬ fraction < policy.recoverBelow
  | .stepDown => ¬ fraction < policy.recoverBelow

instance (policy : BackpressureConfig F) (fraction : F) (mode : BackpressureMode) :
    Decidable (mode.Keeps policy fraction) :=
  match mode with
  | .normal => inferInstanceAs (Decidable (¬ policy.holdAbove < fraction))
  | .hold => inferInstanceAs (Decidable (¬ policy.stepDownAbove < fraction ∧ ¬ fraction < policy.recoverBelow))
  | .stepDown => inferInstanceAs (Decidable (¬ fraction < policy.recoverBelow))

/-- The brake is left as it is: without a usable fraction while it is off or its signal is not lost, and by one that was
seen before and keeps its mode. -/
def BrakeRests (policy : BackpressureConfig F) (prior : BackpressureState) (observedAt now : DateTime) :
    Option F → Prop
  | none => prior.mode = .normal ∨ signalLost policy prior now = false
  | some fraction => prior.lastUsableSampleAt = some observedAt ∧ prior.quietCycles = 0 ∧
      prior.mode.Keeps policy fraction

theorem backpressureNext_eq_of_keeps {policy : BackpressureConfig F} {state : BackpressureState} {fraction : F}
    (hquiet : state.quietCycles = 0) (hkeeps : state.mode.Keeps policy fraction) :
    backpressureNext policy state fraction = state := by
  obtain ⟨mode, quietCycles, last⟩ := state
  cases hquiet
  unfold backpressureNext
  cases mode with
  | normal => simp only [if_neg (show ¬ policy.holdAbove < fraction from hkeeps)]
  | hold => simp only [if_neg hkeeps.1, if_neg hkeeps.2]
  | stepDown => simp only [if_neg (show ¬ fraction < policy.recoverBelow from hkeeps)]

theorem keeps_of_backpressureNext_eq {policy : BackpressureConfig F} {state : BackpressureState} {fraction : F}
    (hcounted : policy.quietCycles ≤ u32Max) (h : backpressureNext policy state fraction = state) :
    state.quietCycles = 0 ∧ state.mode.Keeps policy fraction := by
  obtain ⟨-, hcases⟩ := backpressureNext_cases policy state fraction
  rw [h] at hcases
  rcases hcases with ⟨hzero, -, -⟩ | ⟨-, -, -, hgrown, hbelow⟩ | ⟨-, -, -, hmilder⟩
  · refine ⟨hzero, ?_⟩
    obtain ⟨mode, quietCycles, last⟩ := state
    cases hzero
    unfold backpressureNext at h
    cases mode with
    | normal =>
      intro hhold
      simp [if_pos hhold] at h
    | hold =>
      have hstep : ¬ policy.stepDownAbove < fraction := by
        intro hstep
        simp [if_pos hstep] at h
      refine ⟨hstep, fun hlow => ?_⟩
      simp only [if_neg hstep, if_pos hlow] at h
      split at h <;> simp [satAdd, u32Max] at h
    | stepDown =>
      intro hlow
      simp only [if_pos hlow] at h
      split at h <;> simp [satAdd, u32Max] at h
  · rw [satAdd] at hgrown hbelow
    omega
  · omega

/-- What a usable fraction, or none, makes of the stored state. -/
def brakeNext (policy : BackpressureConfig F) (prior : BackpressureState) (observedAt now : DateTime) :
    Option F → BackpressureState
  | none => if prior.mode != .normal && signalLost policy prior now then {} else prior
  | some fraction => backpressureNext policy { prior with lastUsableSampleAt := some observedAt } fraction

theorem applyBackpressure_state {d : Decision F} {config : AccountConfig F} {snapshot : QuotaSnapshot F}
    {now : DateTime} (hstale : d.stale = isStale config snapshot now) (policy : BackpressureConfig F)
    (prior : BackpressureState) (minWorkers : Nat) :
    (applyBackpressure d policy prior snapshot minWorkers now).2 =
      brakeNext policy prior snapshot.observedAt now (usableFraction config snapshot now) := by
  unfold applyBackpressure usableFraction
  dsimp only
  rw [hstale]
  cases (if isStale config snapshot now then none else snapshot.backpressure.bind (·.upstream429Fraction)) with
  | none =>
    dsimp only [brakeNext]
    split <;> rfl
  | some fraction => rfl

section Brake

variable {policy : BackpressureConfig F} {prior : BackpressureState} {observedAt now : DateTime} {usable : Option F}

/-- **The brake's next state is the stored one where it rests.** -/
theorem brakeNext_of_rests (h : BrakeRests policy prior observedAt now usable) :
    brakeNext policy prior observedAt now usable = prior := by
  cases usable with
  | none =>
    have hkept : ¬ (prior.mode != .normal && signalLost policy prior now) = true := by
      rcases h with hmode | hheard
      · simp [hmode]
      · simp [hheard]
    exact if_neg hkept
  | some fraction =>
    obtain ⟨hlast, hquiet, hkeeps⟩ := h
    unfold brakeNext
    rw [← hlast]
    exact backpressureNext_eq_of_keeps hquiet hkeeps

/-- Nothing else leaves it as it was. -/
theorem rests_of_brakeNext (hcounted : policy.quietCycles ≤ u32Max)
    (h : brakeNext policy prior observedAt now usable = prior) : BrakeRests policy prior observedAt now usable := by
  cases usable with
  | none =>
    by_cases hlost : prior.mode != .normal && signalLost policy prior now
    · have hreset : ({} : BackpressureState) = prior := (if_pos hlost).symm.trans h
      rw [← hreset] at hlost
      cases hlost
    · rw [Bool.not_eq_true, Bool.and_eq_false_iff] at hlost
      exact hlost.imp (by simp) id
  | some fraction =>
    have hlast : prior.lastUsableSampleAt = some observedAt := by
      rw [← h]
      exact (backpressureNext_cases policy _ fraction).1
    have hfixed : backpressureNext policy prior fraction = prior := by
      unfold brakeNext at h
      rwa [← hlast] at h
    exact ⟨hlast, keeps_of_backpressureNext_eq hcounted hfixed⟩

end Brake

/-! ## The experiments -/

/-- Nothing is kept that a cap would clear. -/
structure SaturationState.Resting (s : SaturationState F) : Prop where
  pending : s.pending = none
  baselineRate : s.baselineRate = none
  settledAt : s.settledAt = none

/-- The snapshot has a sample that can be measured outside a probe. -/
def measurable (policy : ZaiSaturationConfig F) (snapshot : QuotaSnapshot F) : Bool :=
  (validSaturation policy snapshot {} 0).isSome

/-- The snapshot discards the experiments: it is stale, of the future or of another generation, or an enabled window of it
is at its target or due for a reset. -/
def discardsExperiments (config : AccountConfig F) (snapshot : QuotaSnapshot F) (prior : AccountState F)
    (now : DateTime) : Bool :=
  isStale config snapshot now || decide (now < snapshot.observedAt) || quotaReset snapshot prior ||
    snapshot.windows.any (fun window => atTarget config snapshot window ||
      ((config.utilization.policyFor window.id).isSome && decide (window.resetsAt ≤ now)))

/-- No worker is there, and there is work for one. -/
def mayStart (config : AccountConfig F) (snapshot : QuotaSnapshot F) (workers unowned : Nat) : Bool :=
  decide (workers = 0) && decide (unowned = 0) &&
    snapshot.eligibleBacklogCapacity.any (fun cap => decide (0 < cap)) && decide (0 < config.fleet.maxWorkers)

def signalGap (config : AccountConfig F) (snapshot : QuotaSnapshot F) (s : SaturationState F) : Bool :=
  s.lastSampleAt.any (fun at_ =>
    decide (asI64 config.utilization.staleAfterSeconds < numSeconds (snapshot.observedAt - at_)))

/-- The snapshot is no newer than the last sample. -/
def isRepeated (snapshot : QuotaSnapshot F) (s : SaturationState F) : Bool :=
  s.lastSampleAt.any (fun at_ => decide (snapshot.observedAt ≤ at_))

/-- Experiments that are resting are left as they are: in their default state by what discards them, and else by a
snapshot that starts no fleet, leaves no gap, and holds no new sample that can be measured. -/
def ExperimentsRest (config : AccountConfig F) (policy : ZaiSaturationConfig F) (snapshot : QuotaSnapshot F)
    (prior : AccountState F) (now : DateTime) (workers unowned : Nat) (s : SaturationState F) : Prop :=
  if discardsExperiments config snapshot prior now then s = {}
  else s.Resting ∧ (mayStart config snapshot workers unowned = true → s = {}) ∧ signalGap config snapshot s = false ∧
    (isRepeated snapshot s = true ∨ measurable policy snapshot = false)

section Evaluated

variable {name : String} {config : AccountConfig F} {snapshot : QuotaSnapshot F} {prior : AccountState F}
  {owned unowned : Nat} {now : DateTime} {d : Decision F}

theorem windowDecision_ended {current : Nat} {window : QuotaWindow F} {d : WindowDecision F}
    (h : windowDecision config snapshot prior current now (bankedAvailable config snapshot) window = some d) :
    (d.reason == .resetDue || d.reason == .targetReached) =
      (atTarget config snapshot window || decide (window.resetsAt ≤ now)) := by
  rcases windowDecision_cases h with ⟨htarget, hreason⟩ | ⟨htarget, hnow, hreason, -⟩ |
    ⟨htarget, hahead, hreached, hdueless, -⟩
  · rw [htarget, hreason]; rfl
  · simp [htarget, hreason, hnow]
  · simp [htarget, hreached, hdueless, not_le.2 hahead]

variable (config snapshot prior now) in
theorem windowDecisions_ended (current : Nat) :
    (windowDecisions config snapshot prior current now).any (fun w => w.reason == .resetDue || w.reason == .targetReached)
      = snapshot.windows.any (fun window => atTarget config snapshot window ||
        ((config.utilization.policyFor window.id).isSome && decide (window.resetsAt ≤ now))) := by
  unfold windowDecisions
  rw [List.any_filterMap]
  refine congrArg (snapshot.windows.any ·) (funext fun window => ?_)
  have hpolicy := windowDecision_isSome config snapshot prior current now (bankedAvailable config snapshot) window
  cases h : windowDecision config snapshot prior current now (bankedAvailable config snapshot) window with
  | none =>
    rw [h, Option.isSome_none, eq_comm, Option.isSome_eq_false_iff, Option.isNone_iff_eq_none] at hpolicy
    simp [atTarget, hpolicy]
  | some d =>
    rw [h, Option.isSome_some] at hpolicy
    rw [← hpolicy, Bool.true_and]
    exact windowDecision_ended h

/-- **A fresh pool is judged by its snapshot**: the decision is not stale, and a window of it has ended where one of the
snapshot has. -/
theorem evaluatePool_ended (h : evaluatePool name config snapshot prior owned unowned now = .ok d)
    (hfresh : isStale config snapshot now = false) :
    d.stale = false ∧ d.windows.any (fun w => w.reason == .resetDue || w.reason == .targetReached) =
      snapshot.windows.any (fun window => atTarget config snapshot window ||
        ((config.utilization.policyFor window.id).isSome && decide (window.resetsAt ≤ now))) := by
  rcases evaluatePool_ok h with ⟨-, heval⟩ | ⟨hsome, pooled, rfl, heval⟩
  · rcases evaluate_ok heval with ⟨hstale, -⟩ | ⟨-, -, rfl⟩
    · cases hfresh.symm.trans hstale
    · exact ⟨rfl, windowDecisions_ended config snapshot prior now owned⟩
  · rw [Decision.intoElastic, if_neg hsome]
    rcases evaluate_ok heval with ⟨hstale, -⟩ | ⟨-, -, rfl⟩
    · cases hfresh.symm.trans hstale
    · exact ⟨rfl, windowDecisions_ended (pooledConfig config unowned) snapshot prior now (satAdd owned unowned)⟩

theorem evaluatePool_stale_eq (h : evaluatePool name config snapshot prior owned unowned now = .ok d) :
    d.stale = isStale config snapshot now := by
  cases hstale : isStale config snapshot now with
  | false => exact (evaluatePool_ended h hstale).1
  | true =>
    rw [evaluatePool_stale hstale] at h
    cases h
    split
    · rfl
    · rename_i hsome
      rw [Decision.intoElastic, if_neg hsome]
      rfl

/-- What discards the experiments of an evaluated pool is in its snapshot. -/
theorem evaluatePool_discards (h : evaluatePool name config snapshot prior owned unowned now = .ok d) :
    SaturationCycle.discards ⟨d, snapshot, prior, now⟩ = discardsExperiments config snapshot prior now := by
  unfold SaturationCycle.discards discardsExperiments
  dsimp only
  rw [evaluatePool_stale_eq h]
  cases hstale : isStale config snapshot now with
  | false => rw [(evaluatePool_ended h hstale).2]
  | true => rfl

/-- A pool that the experiments start is empty, and has work. -/
theorem mayStart_of_starts (h : evaluatePool name config snapshot prior owned unowned now = .ok d)
    (hstarts : SaturationCycle.Starts ⟨d, snapshot, prior, now⟩ config) :
    mayStart config snapshot owned unowned = true := by
  obtain ⟨⟨hcurrent, hunowned, hbacklog⟩, hroom, -⟩ := hstarts
  rcases evaluatePool_ok h with ⟨rfl, heval⟩ | ⟨hsome, pooled, rfl, -⟩
  · have howned : owned = 0 := (evaluate_bare heval).1.symm.trans hcurrent
    unfold mayStart
    rw [decide_eq_true howned, decide_eq_true hroom, hbacklog]
    rfl
  · rw [Decision.intoElastic, if_neg hsome] at hunowned
    exact absurd hunowned hsome

end Evaluated

namespace SaturationCycle

variable {c : SaturationCycle F} {config : AccountConfig F} {policy : ZaiSaturationConfig F} {s : SaturationState F}

theorem validSaturation_resting (hpending : s.pending = none) (snapshot : QuotaSnapshot F) (current : Nat) :
    validSaturation policy snapshot s current = validSaturation policy snapshot {} 0 := by
  unfold validSaturation
  rw [hpending]
  rfl

/-- A cap clears nothing of a resting state. -/
theorem apply_resting (h : (c.step config policy s).state.Resting) :
    (c.apply config policy s).2 = (c.step config policy s).state := by
  rcases c.apply_state config policy s with happly | happly
  · exact happly
  · rw [happly]
    generalize (c.step config policy s).state = state at h
    obtain ⟨hpending, hbaseline, hsettled⟩ := h
    cases state
    cases hpending
    cases hbaseline
    cases hsettled
    rfl

omit [Flt F] in
/-- Over its own stored state a cycle's account is itself. -/
theorem prior_eq (h : c.account.zaiSaturation = some s) : c.prior s = c.account := by
  unfold prior
  rw [← h]

theorem apply_of_discards (h : c.discards = true) : (c.apply config policy s).2 = {} :=
  c.apply_discarded config policy s (congrArg SaturationStep.state (if_pos h))

theorem apply_of_starts (hdiscards : ¬ c.discards = true) (hstarts : c.Starts config) :
    (c.apply config policy s).2 = {} := by
  obtain ⟨⟨hcurrent, hunowned, hbacklog⟩, hroom⟩ := hstarts
  exact c.apply_discarded config policy s
    (congrArg SaturationStep.state ((if_neg hdiscards).trans (if_pos ⟨hcurrent, hunowned, hbacklog, hroom⟩)))

/-- A cycle that neither discards nor starts anything keeps the state where it reads no sample. -/
theorem step_of_unread (hdiscards : ¬ c.discards = true) (hstarts : ¬ c.Starts config) (hgap : c.gap config s = false)
    (hunread : c.repeated s = true ∨ validSaturation policy c.snapshot s c.decision.currentWorkers = none) :
    (c.step config policy s).state = s := by
  rw [step_of_moving hdiscards hstarts, hgap, if_neg Bool.false_ne_true]
  by_cases hrepeated : c.repeated s = true
  · rw [if_pos hrepeated]
  · rw [if_neg hrepeated, hunread.resolve_left hrepeated]

/-- A sample that resting experiments read leaves its instant behind. -/
theorem apply_ne_of_sample (hresting : s.Resting) {sample : SaturationSnapshot F}
    (hsample : c.sample config policy s = some sample) : (c.apply config policy s).2 ≠ s := by
  intro happly
  have hlast : s.lastSampleAt = some c.snapshot.observedAt := by
    rcases c.step_cases config policy s with ⟨hnone, -⟩ | ⟨sample, step, -, hstep, houtcome⟩
    · cases hsample.symm.trans hnone
    · rw [← happly, c.apply_lastSampleAt, hstep]
      rcases houtcome.lastSampleAt with hdefault | hstamped
      · have hplateau := (houtcome.of_lost hresting.pending (.inr (by simp [hresting.baselineRate]))).2.2.1
        rw [hdefault] at hplateau
        cases hplateau
      · exact hstamped
  exact absurd (sample_fresh hsample _ hlast) (lt_irrefl _)

variable {workers unowned : Nat}

/-- **Resting experiments are left as they are.** -/
theorem apply_of_rest (hdiscards : c.discards = discardsExperiments config c.snapshot c.account c.now)
    (hstarts : c.Starts config → mayStart config c.snapshot workers unowned = true)
    (hrest : ExperimentsRest config policy c.snapshot c.account c.now workers unowned s) :
    (c.apply config policy s).2 = s := by
  unfold ExperimentsRest at hrest
  rw [← hdiscards] at hrest
  split at hrest
  · rename_i hdiscarded
    exact (apply_of_discards hdiscarded).trans hrest.symm
  · rename_i hkept
    obtain ⟨hresting, hidle, hgap, hunread⟩ := hrest
    by_cases hstart : c.Starts config
    · exact (apply_of_starts hkept hstart).trans (hidle (hstarts hstart)).symm
    · rw [measurable, Option.isSome_eq_false_iff, Option.isNone_iff_eq_none,
        ← validSaturation_resting hresting.pending _ c.decision.currentWorkers] at hunread
      have hstep := step_of_unread hkept hstart hgap hunread
      rw [← hstep] at hresting
      exact (apply_resting hresting).trans hstep

/-- Nothing else leaves them so, where no fleet may start. -/
theorem rest_of_apply (hdiscards : c.discards = discardsExperiments config c.snapshot c.account c.now)
    (hstarts : c.Starts config → mayStart config c.snapshot workers unowned = true) (hresting : s.Resting)
    (hidle : mayStart config c.snapshot workers unowned = false) (happly : (c.apply config policy s).2 = s) :
    ExperimentsRest config policy c.snapshot c.account c.now workers unowned s := by
  unfold ExperimentsRest
  rw [← hdiscards]
  split
  · rename_i hdiscarded
    exact happly.symm.trans (apply_of_discards hdiscarded)
  · rename_i hkept
    have hstart : ¬ c.Starts config := fun hstart => by
      rw [hstarts hstart] at hidle
      cases hidle
    have hgap : c.gap config s = false := by
      by_contra hgap
      rw [Bool.not_eq_false] at hgap
      have hstep : (c.step config policy s).state = {} := by rw [step_of_moving hkept hstart, if_pos hgap]
      rw [happly.symm.trans (c.apply_discarded config policy s hstep)] at hgap
      cases hgap
    refine ⟨hresting, fun hmay => ?_, hgap, ?_⟩
    · cases hidle.symm.trans hmay
    · by_contra hread
      rw [not_or, Bool.not_eq_true, Bool.not_eq_false] at hread
      obtain ⟨hnew, hmeasured⟩ := hread
      rw [measurable, ← validSaturation_resting hresting.pending _ c.decision.currentWorkers] at hmeasured
      obtain ⟨sample, hvalid⟩ := Option.isSome_iff_exists.1 hmeasured
      have hsample : c.sample config policy s = some sample := by
        have hopen : ¬ (c.discards = true ∨ c.Starts config ∨ c.gap config s = true ∨ c.repeated s = true) := by
          rw [hgap, show c.repeated s = false from hnew]
          simp [hkept, hstart]
        exact (if_neg hopen).trans hvalid
      exact apply_ne_of_sample hresting hsample happly

end SaturationCycle

/-! ## The policies of one cycle -/

section Policies

variable {name : String} {config : AccountConfig F} {snapshot : QuotaSnapshot F} {prior : AccountState F}
  {owned unowned : Nat} {now : DateTime} {d : Decision F}

theorem applyPolicies_zaiSaturation (d : Decision F) (config : AccountConfig F) (snapshot : QuotaSnapshot F)
    (prior : AccountState F) (now : DateTime) :
    (applyPolicies d config snapshot prior now).zaiSaturation =
      config.utilization.zaiSaturation.map (fun policy => (applyZaiSaturation d config policy snapshot prior now).2) := by
  unfold applyPolicies
  cases config.utilization.zaiSaturation with
  | none => cases config.utilization.backpressure <;> rfl
  | some policy => cases config.utilization.backpressure <;> rfl

theorem applyZaiSaturation_stale (policy : ZaiSaturationConfig F) :
    (applyZaiSaturation d config policy snapshot prior now).1.stale = d.stale := by
  unfold applyZaiSaturation withTotal
  dsimp only
  split <;> rfl

/-- The brake of a cycle sees the snapshot, whatever the experiments made of the decision. -/
theorem applyPolicies_backpressure (h : evaluatePool name config snapshot prior owned unowned now = .ok d) :
    (applyPolicies d config snapshot prior now).backpressure = config.utilization.backpressure.map (fun policy =>
      brakeNext policy prior.backpressure snapshot.observedAt now (usableFraction config snapshot now)) := by
  have hstale := evaluatePool_stale_eq h
  unfold applyPolicies
  cases config.utilization.zaiSaturation with
  | none =>
    cases config.utilization.backpressure with
    | none => rfl
    | some brake => exact congrArg some (applyBackpressure_state hstale brake _ _)
  | some policy =>
    cases config.utilization.backpressure with
    | none => rfl
    | some brake =>
      exact congrArg some (applyBackpressure_state ((applyZaiSaturation_stale policy).trans hstale) brake _ _)

end Policies

end Subgov
