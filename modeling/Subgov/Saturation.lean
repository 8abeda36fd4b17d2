import Subgov.Controller
/-!
# Saturation — the bounded throughput experiments

`applyZaiSaturation` runs after the quota evaluation and before the brake.  It grows or shrinks the fleet one step at a
time, keeps what the completed rate justifies, and applies the quota result last.
-/
namespace Subgov

open FloatArith

variable {F : Type} [Flt F]

/-- Whether a sample's own window starts after the count settled and the dwell has passed. -/
def intervalReady (state : SaturationState F) (windowStart : Option DateTime) (at_ : DateTime) (dwell : Nat) : Bool :=
  state.settledAt.any (fun settled => windowStart.any (fun start =>
    decide (settled ≤ start) && decide (asI64 dwell ≤ numSeconds (at_ - settled))))

def reprobeAt (at_ : DateTime) (seconds : Nat) : DateTime :=
  ((trySeconds (asI64 seconds)).bind (fun d => checkedDate (at_ + d))).getD maxUtc

/-- What one pass over the sample settles before the caps. -/
structure SaturationStep (F : Type) where
  target : Nat
  state : SaturationState F
  reason : SaturationReason
  rate : Option F := none

/-- The inputs of the experiments that stay fixed within a cycle. -/
structure SaturationContext (F : Type) where
  policy : ZaiSaturationConfig F
  fleet : FleetConfig F
  current : Nat
  unowned : Nat
  quotaCap : Nat
  observedAt : DateTime
  fraction : Option F
  backlog : Option Nat

namespace SaturationContext

def pressured (ctx : SaturationContext F) : Bool :=
  ctx.fraction.any (fun f => decide (ctx.policy.concurrencyFraction ≤ f))

/-- A settled probe: kept, or rolled back by a recovery that must settle in turn. -/
def settleProbe (ctx : SaturationContext F) (state : SaturationState F) (probe : SaturationProbe F)
    (target : Nat) (measured : F) : SaturationStep F :=
  let one : F := Flt.ofNat 1
  let retained := decide (state.plateauRate.getD probe.baselineRate * (one - ctx.policy.plateauFraction) ≤ measured)
  let usefulGain := decide (probe.baselineRate * (one + ctx.policy.plateauFraction) < measured)
  let state := { state with
    pending := none
    baselineRate := some measured
    settledAt := some ctx.observedAt }
  if probe.recovery then
    { target
      state := if state.shrinking then state else { state with plateauRate := some measured }
      reason := .recoverySettled }
  else if probe.toWorkers < probe.fromWorkers && retained then
    { target, state := { state with shrinking := true }, reason := .shrinkRetainedThroughput }
  else if decide (probe.fromWorkers < probe.toWorkers) && usefulGain then
    { target
      state := { state with plateauRate := some measured, shrinking := ctx.pressured }
      reason := .growthImprovedThroughput }
  else
    { target := probe.fromWorkers
      state := { state with
        pending := some { fromWorkers := ctx.current, toWorkers := probe.fromWorkers, baselineRate := measured,
                          recovery := true }
        shrinking := decide (probe.fromWorkers < probe.toWorkers)
        nextProbeAt := some (reprobeAt ctx.observedAt ctx.policy.reprobeSeconds) }
      reason := .restorePreviousCount }

def pendingStep (ctx : SaturationContext F) (state : SaturationState F) (probe : SaturationProbe F) (target : Nat)
    (windowStart : Option DateTime) (measured : F) : SaturationStep F :=
  let current := ctx.current
  if current ≠ probe.toWorkers then
    if current = probe.fromWorkers ∨ (min probe.fromWorkers probe.toWorkers < current ∧
        current < max probe.fromWorkers probe.toWorkers) then
      { target := probe.toWorkers, state := { state with settledAt := none }, reason := .waitingForWorkers }
    else { target, state := {}, reason := .workerCountChanged }
  else if state.settledAt.isNone || state.observedWorkers != some current then
    { target
      state := { state with settledAt := some ctx.observedAt, observedWorkers := some current }
      reason := .probeSettling }
  else if intervalReady state windowStart ctx.observedAt ctx.policy.dwellSeconds then
    ctx.settleProbe state probe target measured
  else { target, state, reason := .probeDwell }

def candidate (ctx : SaturationContext F) (shrinking : Bool) : Nat :=
  if shrinking then
    max (ctx.current - ctx.policy.stepWorkers)
      (if ctx.unowned = 0 then max ctx.fleet.minWorkers 1 else ctx.fleet.minWorkers)
  else min (satAdd ctx.current ctx.policy.stepWorkers) ctx.fleet.maxWorkers

/-- A new probe from a settled baseline, when the quota and the backlog have room for it. -/
def probeStep (ctx : SaturationContext F) (state : SaturationState F) (target : Nat) (measured : F) :
    SaturationStep F :=
  let state := { state with baselineRate := some measured }
  let shrinking := state.shrinking || ctx.pressured
  let candidate := ctx.candidate shrinking
  let backlogOk := ctx.backlog.any (fun cap => decide (max candidate ctx.current ≤ cap))
  if candidate ≠ ctx.current ∧ backlogOk = true ∧ candidate ≤ ctx.quotaCap ∧
      (shrinking = true ∨ Flt.zero < measured) then
    { target := candidate
      state := { state with
        plateauRate := if state.shrinking then state.plateauRate else some measured
        pending := some { fromWorkers := ctx.current, toWorkers := candidate, baselineRate := measured,
                          recovery := false }
        settledAt := none }
      reason := if shrinking then .probeShrink else .probeGrowth }
  else
    -- at a lower bound the next upward search waits for the reprobe interval
    { target
      state := if shrinking && candidate == ctx.current then { state with
          shrinking := false
          nextProbeAt := some (reprobeAt ctx.observedAt ctx.policy.reprobeSeconds) }
        else state
      reason := if backlogOk then .workerOrQuotaBound else .insufficientBacklog }

def searchStep (ctx : SaturationContext F) (state : SaturationState F) (target : Nat)
    (windowStart : Option DateTime) (measured : F) : SaturationStep F :=
  if state.observedWorkers ≠ some ctx.current ∨ state.baselineRate.isNone = true then
    { target
      state := { state with
        observedWorkers := some ctx.current
        settledAt := some ctx.observedAt
        baselineRate := some measured
        plateauRate := some measured }
      reason := .baseline }
  else if intervalReady state windowStart ctx.observedAt ctx.policy.dwellSeconds &&
      state.nextProbeAt.all (fun at_ => decide (at_ ≤ ctx.observedAt)) then
    ctx.probeStep state target measured
  else { target, state, reason := .baselineDwell }

def sampleStep (ctx : SaturationContext F) (state : SaturationState F) (target : Nat)
    (sample : SaturationSnapshot F) : SaturationStep F :=
  let windowStart := (trySeconds (asI64 sample.windowSeconds)).bind (fun d => checkedDate (ctx.observedAt - d))
  let measured : F := Flt.ofNat sample.completedRequests / Flt.ofNat sample.windowSeconds
  let state := { state with lastSampleAt := some ctx.observedAt }
  let step := match state.pending with
    | some probe => ctx.pendingStep state probe target windowStart measured
    | none => ctx.searchStep state target windowStart measured
  { step with rate := some measured }

end SaturationContext

def isLearningHold (reason : WindowReason) : Bool :=
  reason == .learningBurnRate || reason == .noObservedBurn || reason == .bootstrapBurnRate || reason == .belowCeiling

def quotaCap (d : Decision F) (config : AccountConfig F) : Nat :=
  if !d.stale && d.windows.all (fun w => isLearningHold w.reason) then config.fleet.maxWorkers else d.desiredWorkers

/-- Whether some window's generation changed, or its usage fell, since the prior sample. -/
def quotaReset (snapshot : QuotaSnapshot F) (prior : AccountState F) : Bool :=
  snapshot.windows.any (fun w => prior.windows[w.id]?.any (fun last =>
    !sameResetGeneration last.resetsAt w.resetsAt || decide (w.usedFraction < last.usedFraction)))

/-- The sample when it can be measured; an open probe at its target accepts one with few attempts. -/
def validSaturation (policy : ZaiSaturationConfig F) (snapshot : QuotaSnapshot F) (state : SaturationState F)
    (current : Nat) : Option (SaturationSnapshot F) :=
  let lowAttemptProbe := state.pending.any (fun probe => decide (current = probe.toWorkers) &&
    snapshot.eligibleBacklogCapacity.any (fun cap => decide (max current probe.fromWorkers ≤ cap)))
  snapshot.saturation.filter (fun sample =>
    (match sample.validate with | .ok () => true | .error _ => false) &&
    decide (policy.minimumWindowSeconds ≤ sample.windowSeconds) && decide (sample.windowSeconds ≤ i64Max) &&
    (decide (policy.minimumAttempts ≤ sample.attempts) || lowAttemptProbe))

/-- The experiment's own result, before the caps. -/
def saturationStep (d : Decision F) (config : AccountConfig F) (policy : ZaiSaturationConfig F)
    (snapshot : QuotaSnapshot F) (prior : AccountState F) (now : DateTime) : SaturationStep F :=
  let current := d.currentWorkers
  let state := prior.zaiSaturation.getD {}
  -- a requested drain goes on through signal loss, an upward probe does not
  let target := state.pending.elim current (fun p => min p.toWorkers current)
  if d.stale || decide (now < snapshot.observedAt) || quotaReset snapshot prior ||
      d.windows.any (fun w => w.reason == .resetDue || w.reason == .targetReached) then
    { target, state := {}, reason := .quotaOrFreshnessBound }
  else if current = 0 ∧ d.unownedWorkers = 0 ∧
      snapshot.eligibleBacklogCapacity.any (fun cap => decide (0 < cap)) = true ∧
      0 < config.fleet.maxWorkers ∧ 0 < quotaCap d config then
    { target := max config.fleet.bootstrapWorkers 1, state := {}, reason := .bootstrapForEvidence }
  else if state.lastSampleAt.any (fun at_ =>
      decide (asI64 config.utilization.staleAfterSeconds < numSeconds (snapshot.observedAt - at_))) then
    { target, state := {}, reason := .signalGap }
  else if state.lastSampleAt.any (fun at_ => decide (snapshot.observedAt ≤ at_)) then
    { target, state, reason := .repeatedSample }
  else match validSaturation policy snapshot state current with
    | some sample =>
      SaturationContext.sampleStep
        { policy
          fleet := config.fleet
          current
          unowned := d.unownedWorkers
          quotaCap := quotaCap d config
          observedAt := snapshot.observedAt
          fraction := snapshot.saturation.bind (·.upstreamConcurrencyFraction)
          backlog := snapshot.eligibleBacklogCapacity }
        state target sample
    | none => { target, state, reason := .insufficientSignal }

/-- The experiment's target within the backlog, the fleet maximum and the step limits. -/
def boundTarget (target current backlogCap : Nat) (fleet : FleetConfig F) : Nat :=
  max (min (min (min target backlogCap) fleet.maxWorkers) (satAdd current fleet.maxScaleUpPerCycle))
    (current - fleet.maxScaleDownPerCycle)

def applyZaiSaturation (d : Decision F) (config : AccountConfig F) (policy : ZaiSaturationConfig F)
    (snapshot : QuotaSnapshot F) (prior : AccountState F) (now : DateTime) : Decision F × SaturationState F :=
  let cap := quotaCap d config
  let backlogCap := snapshot.eligibleBacklogCapacity.getD d.currentWorkers
  let step := saturationStep d config policy snapshot prior now
  let target := boundTarget step.target d.currentWorkers backlogCap config.fleet
  let desired := min target cap
  let bound := decide (desired ≠ target) ||
    step.state.pending.any (fun p => decide (cap < p.toWorkers) || decide (backlogCap < p.toWorkers))
  let state := if bound then { step.state with pending := none, baselineRate := none, settledAt := none }
    else step.state
  let capped := withTotal { d with desiredWorkers := desired }
  ({ capped with saturation := some {
      reason := if bound then .quotaOrBacklogBound else step.reason
      completedRequestsPerSecond := step.rate
      upstreamConcurrencyFraction := snapshot.saturation.bind (·.upstreamConcurrencyFraction)
      targetWorkers := desired
      probePending := state.pending.isSome } }, state)

/-! ## The policies of one cycle -/

/-- A decision after the policies, with the policy states to persist. -/
structure PolicyResult (F : Type) where
  decision : Decision F
  zaiSaturation : Option (SaturationState F)
  backpressure : Option BackpressureState

/-- The experiments when configured, then the brake when configured. -/
def applyPolicies (d : Decision F) (config : AccountConfig F) (snapshot : QuotaSnapshot F) (prior : AccountState F)
    (now : DateTime) : PolicyResult F :=
  let (d, saturation) := match config.utilization.zaiSaturation with
    | none => (d, none)
    | some policy =>
      let (d, next) := applyZaiSaturation d config policy snapshot prior now
      (d, some next)
  match config.utilization.backpressure with
  | none => { decision := d, zaiSaturation := saturation, backpressure := none }
  | some policy =>
    let (d, next) := applyBackpressure d policy prior.backpressure snapshot config.fleet.minWorkers now
    { decision := d, zaiSaturation := saturation, backpressure := some next }

end Subgov
