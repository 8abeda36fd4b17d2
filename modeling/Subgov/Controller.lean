import Subgov.Estimator
/-!
# Controller — one account's decision for one cycle

`evaluate` sizes a fleet from one snapshot: a desired count for every enabled window, their minimum, the banked-reset
plan over it, the backlog cap and the step limits.  `evaluatePool` does so for owned and unowned workers together, and
`applyBackpressure` brakes the result.  The phases of `evaluate` are definitions of their own, in the source's order.
-/
namespace Subgov

open FloatArith

variable {F : Type} [Flt F]

inductive WindowReason
  | targetReached
  | resetDue
  | belowCeiling
  | pacedToReset
  | noObservedBurn
  | bootstrapBurnRate
  | learningBurnRate
  deriving DecidableEq

structure WindowDecision (F : Type) where
  id : String
  usedFraction : F
  targetUtilization : F
  resetsAt : DateTime
  desiredWorkers : Nat
  reason : WindowReason
  observedBurnPerWorkerHour : Option F

inductive AdvisorySeverity
  | warn
  | page
  | infeasible
  deriving DecidableEq

def AdvisorySeverity.rank : AdvisorySeverity → Nat
  | .warn => 1
  | .page => 2
  | .infeasible => 3

structure CreditDeadlineAssessment (F : Type) where
  creditId : String
  expiresAt : DateTime
  need : F
  requiredBurnPerHour : Option F
  slackHours : Option F
  severity : Option AdvisorySeverity

structure CreditDeadlineAdvisory (F : Type) where
  creditId : String
  expiresAt : DateTime
  severity : AdvisorySeverity
  slackHours : F
  requiredBurnPerHour : Option F
  maxFeasibleBurnPerHour : Option F
  feasible : Bool

inductive BankedReason
  | weeklyWindowAwaitingManualRedemption
  | bankedResetWindowAwaitingRefresh
  | fullSpeedBankedResetWork
  | fullSpeedBankedResetCapacityUnknown
  | bankedResetExpiryDeadlineMissed
  | minimumBankedResetPace
  | bankedResetExpiryPace
  | learningBankedResetWorkerSplit
  | bootstrapBankedResetBurnRate
  | learningBankedReset24hBurnRate
  deriving DecidableEq

structure BankedResetDecision (F : Type) where
  availableCount : Nat
  governingWindow : String
  minimumPaceMultiplier : F
  requiredBurnPerHour : F
  aggregateBurnPerHour : Option F
  governedWorkerBurnPerHour : Option F
  exogenousBurnPerHour : Option F
  maxFeasibleBurnPerHour : Option F
  feasible : Bool
  eligibleBacklogCapacity : Nat
  desiredWorkers : Nat
  manualRedemptionRecommended : Bool
  deadlineMissed : Bool
  reason : BankedReason
  knownExpirations : List DateTime
  creditDeadlines : List (CreditDeadlineAssessment F)
  advisories : List (CreditDeadlineAdvisory F)

structure BackpressureDecision (F : Type) where
  state : BackpressureMode
  fraction : Option F
  brakeChanged : Bool
  releasedOnSignalLoss : Bool

inductive SaturationReason
  | insufficientSignal
  | quotaOrFreshnessBound
  | bootstrapForEvidence
  | signalGap
  | repeatedSample
  | waitingForWorkers
  | workerCountChanged
  | probeSettling
  | probeDwell
  | recoverySettled
  | shrinkRetainedThroughput
  | growthImprovedThroughput
  | restorePreviousCount
  | baseline
  | baselineDwell
  | probeShrink
  | probeGrowth
  | insufficientBacklog
  | workerOrQuotaBound
  | quotaOrBacklogBound
  deriving DecidableEq

structure SaturationDecision (F : Type) where
  reason : SaturationReason
  completedRequestsPerSecond : Option F
  upstreamConcurrencyFraction : Option F
  targetWorkers : Nat
  probePending : Bool

structure Decision (F : Type) where
  account : String
  observedAt : DateTime
  currentWorkers : Nat
  desiredWorkers : Nat
  stale : Bool
  windows : List (WindowDecision F) := []
  bindingWindow : Option String := none
  bankedResets : Option (BankedResetDecision F) := none
  backpressure : Option (BackpressureDecision F) := none
  saturation : Option (SaturationDecision F) := none
  unownedWorkers : Nat := 0
  desiredTotal : Option Nat := none

/-- Re-expresses a pool-wide decision in terms of the owned workers. -/
def Decision.intoElastic (d : Decision F) (unowned : Nat) : Decision F :=
  if unowned = 0 then d
  else { d with
    desiredTotal := some d.desiredWorkers
    unownedWorkers := unowned
    currentWorkers := d.currentWorkers - unowned
    desiredWorkers := d.desiredWorkers - unowned }

/-! ## Step limits -/

def applyStepLimits (desired current : Nat) (config : AccountConfig F) : Nat :=
  let fleet := config.fleet
  let bounded := clampNat desired fleet.minWorkers fleet.maxWorkers
  let stepped := if current < bounded then min bounded (satAdd current fleet.maxScaleUpPerCycle)
    else max bounded (current - fleet.maxScaleDownPerCycle)
  clampNat stepped fleet.minWorkers fleet.maxWorkers

/-! ## One window -/

def isWeeklyWindow (durationMinutes : Option Nat) : Bool := durationMinutes.any (fun m => decide (6 * 24 * 60 ≤ m))

/-- The window's target: raised to the redemption threshold for a weekly window while credits are banked. -/
def windowTarget (config : AccountConfig F) (bankedAvailable : Bool) (window : QuotaWindow F)
    (policy : ResolvedPolicy F) : F :=
  if bankedAvailable && isWeeklyWindow window.durationMinutes
  then Flt.max policy.target config.bankedResets.redeemAtUtilization else policy.target

def usableSample (config : AccountConfig F) (snapshot : QuotaSnapshot F) (window : QuotaWindow F)
    (policy : ResolvedPolicy F) (sample : WindowSample F) : Bool :=
  sameResetGeneration sample.resetsAt window.resetsAt &&
  (policy.burnRateWindowSeconds.isSome ||
    decide (asI64 config.utilization.minimumSampleSeconds ≤ numSeconds (snapshot.observedAt - sample.observedAt))) &&
  decide (sample.usedFraction ≤ window.usedFraction) && decide (0 < sample.workers)

def windowBurnRate (config : AccountConfig F) (snapshot : QuotaSnapshot F) (window : QuotaWindow F)
    (policy : ResolvedPolicy F) (prior : AccountState F) (current : Nat) (sample : WindowSample F) : Option F :=
  match policy.burnRateWindowSeconds with
  | none => estimateBurnPerWorker sample window snapshot.observedAt
  | some seconds => estimateWindowBurn prior.aggregateBurnHistory[window.id]? window snapshot.observedAt current
      seconds config.utilization.staleAfterSeconds

def windowRaw (config : AccountConfig F) (snapshot : QuotaSnapshot F) (prior : AccountState F) (current : Nat)
    (now : DateTime) (policy : ResolvedPolicy F) (target : F) (window : QuotaWindow F) :
    Nat × WindowReason × Option F :=
  let fleet := config.fleet
  if window.reached || decide (target ≤ window.usedFraction) then (fleet.minWorkers, .targetReached, none)
  else if window.resetsAt ≤ now then (current, .resetDue, none)
  else match policy.strategy with
    | .ceilingOnly => (fleet.maxWorkers, .belowCeiling, none)
    | .linearToReset =>
      match prior.windows[window.id]?.filter (usableSample config snapshot window policy) with
      | some sample =>
        match windowBurnRate config snapshot window policy prior current sample with
        | some perWorker =>
          let remainingHours : F := hoursOf (window.resetsAt - now)
          let requiredRate := (target - window.usedFraction) / remainingHours
          (workersForRate requiredRate perWorker, .pacedToReset, some perWorker)
        | none => (current, .noObservedBurn, none)
      | none =>
        if current = 0 then (fleet.bootstrapWorkers, .bootstrapBurnRate, none)
        else (current, .learningBurnRate, none)

def windowDecision (config : AccountConfig F) (snapshot : QuotaSnapshot F) (prior : AccountState F) (current : Nat)
    (now : DateTime) (bankedAvailable : Bool) (window : QuotaWindow F) : Option (WindowDecision F) :=
  (config.utilization.policyFor window.id).map (fun policy =>
    let target := windowTarget config bankedAvailable window policy
    let (desired, reason, burnPerWorker) := windowRaw config snapshot prior current now policy target window
    { id := window.id
      usedFraction := window.usedFraction
      targetUtilization := target
      resetsAt := window.resetsAt
      desiredWorkers := clampNat desired config.fleet.minWorkers config.fleet.maxWorkers
      reason
      observedBurnPerWorkerHour := burnPerWorker })

def bankedAvailable (config : AccountConfig F) (snapshot : QuotaSnapshot F) : Bool :=
  config.bankedResets.enabled && snapshot.resetCredits.any (fun c => decide (0 < c.availableCount))

def windowDecisions (config : AccountConfig F) (snapshot : QuotaSnapshot F) (prior : AccountState F) (current : Nat)
    (now : DateTime) : List (WindowDecision F) :=
  snapshot.windows.filterMap (windowDecision config snapshot prior current now (bankedAvailable config snapshot))

/-! ## The banked-reset plan -/

/-- The weekly window with the highest usage, the last of equals. -/
def governingWindow (snapshot : QuotaSnapshot F) : Option (QuotaWindow F) :=
  Select.maxBy (fun left right => Flt.totalCmp left.usedFraction right.usedFraction)
    (snapshot.windows.filter (fun w => isWeeklyWindow w.durationMinutes))

def advisorySeverity (slackHours : F) : Option AdvisorySeverity :=
  if slackHours < Flt.zero then some .infeasible
  else if slackHours < Flt.ofNat 12 then some .page
  else if slackHours < Flt.ofNat 48 then some .warn
  else none

/-- The available credits with an expiry, by expiry and then by id. -/
def knownCredits (credits : ResetCreditsSnapshot) : List (DateTime × ResetCredit) :=
  let known := (credits.credits.getD []).filterMap (fun c =>
    if c.status = "available" then c.expiresAt.map (fun e => (e, c)) else none)
  known.insertionSort (fun a b => decide (a.1 < b.1) || (decide (a.1 = b.1) && compare a.2.id b.2.id != .gt))

structure CreditPass (F : Type) where
  requiredBurnPerHour : F
  deadlineMissed : Bool := false
  creditDeadlines : List (CreditDeadlineAssessment F) := []
  advisories : List (CreditDeadlineAdvisory F) := []

structure CreditContext (F : Type) where
  window : QuotaWindow F
  target : F
  safetyHours : F
  burn : Option (AggregateBurnEstimate F)
  maxFeasibleBurnPerHour : Option F
  alerts : BTreeMap CreditAlertState
  now : DateTime

def assessCredit (ctx : CreditContext F) (pass : CreditPass F) (index : Nat) (known : DateTime × ResetCredit) :
    CreditPass F :=
  let (expiration, credit) := known
  let hoursToExpiry : F := hoursOf (expiration - ctx.now)
  let availableHours := hoursToExpiry - ctx.safetyHours
  let need := Flt.max (ctx.target - ctx.window.usedFraction) Flt.zero + Flt.ofNat index * ctx.target
  let deadlineRate := if Flt.zero < availableHours then some (need / availableHours) else none
  let slackHours := (ctx.burn.filter (fun b => decide (Flt.zero < b.aggregateBurnPerHour))).map (fun b =>
    hoursToExpiry - ctx.safetyHours - need / b.aggregateBurnPerHour)
  let severity := slackHours.bind advisorySeverity
  let rankBefore := ((ctx.alerts[credit.id]?.filter (fun s =>
    sameResetGeneration s.resetsAt ctx.window.resetsAt)).map (·.severity)).getD 0
  let advisory : List (CreditDeadlineAdvisory F) := match severity, slackHours with
    | some severity, some slack =>
      if rankBefore < severity.rank then
        [{ creditId := credit.id
           expiresAt := expiration
           severity
           slackHours := slack
           requiredBurnPerHour := deadlineRate
           maxFeasibleBurnPerHour := ctx.maxFeasibleBurnPerHour
           feasible := deadlineRate.any (fun r => ctx.maxFeasibleBurnPerHour.any (fun m => decide (r ≤ m))) }]
      else []
    | _, _ => []
  let assessment : CreditDeadlineAssessment F :=
    { creditId := credit.id
      expiresAt := expiration
      need
      requiredBurnPerHour := deadlineRate
      slackHours
      severity }
  { requiredBurnPerHour := deadlineRate.elim pass.requiredBurnPerHour (Flt.max pass.requiredBurnPerHour)
    deadlineMissed := pass.deadlineMissed || (deadlineRate.isNone && decide (Flt.zero < need))
    creditDeadlines := pass.creditDeadlines ++ [assessment]
    advisories := pass.advisories ++ advisory }

def assessCredits (ctx : CreditContext F) (pass : CreditPass F) (known : List (DateTime × ResetCredit)) :
    CreditPass F :=
  known.zipIdx.foldl (fun pass k => assessCredit ctx pass k.2 k.1) pass

/-- Whether the governing window asks for a redemption: reached now, or at the threshold now or at the high-water mark
of its generation. -/
def redemptionDue (config : AccountConfig F) (prior : AccountState F) (window : QuotaWindow F) : Bool :=
  let threshold := config.bankedResets.redeemAtUtilization
  window.reached || decide (threshold ≤ window.usedFraction) ||
    (prior.history[window.id]?.filter (fun h => sameResetGeneration h.resetsAt window.resetsAt)).any
      (fun h => decide (threshold ≤ h.maxUsedFraction))

def bankedTarget (config : AccountConfig F) (snapshot : QuotaSnapshot F) (window : QuotaWindow F) (current : Nat)
    (now : DateTime) (capacity : Nat) (manual deadlineMissed : Bool) (required : F) (noExpirations : Bool)
    (burn : Option (AggregateBurnEstimate F)) : Nat × BankedReason :=
  let fleet := config.fleet
  if manual then (fleet.minWorkers, .weeklyWindowAwaitingManualRedemption)
  else if config.bankedResets.fullSpeed then
    if window.resetsAt ≤ now then (current, .bankedResetWindowAwaitingRefresh)
    else (capacity, if snapshot.eligibleBacklogCapacity.isSome then .fullSpeedBankedResetWork
      else .fullSpeedBankedResetCapacityUnknown)
  else if deadlineMissed then (capacity, .bankedResetExpiryDeadlineMissed)
  else match burn with
    | some burn =>
      match burn.perWorkerBurnPerHour.filter (fun r => decide (Flt.zero < r)), burn.exogenousBurnPerHour with
      | some perWorker, some exogenous =>
        let workerRate := Flt.max (required - exogenous) Flt.zero
        (clampNat (workersForRate workerRate perWorker) (min fleet.minWorkers capacity) capacity,
          if noExpirations then .minimumBankedResetPace else .bankedResetExpiryPace)
      | _, _ => (current, .learningBankedResetWorkerSplit)
    | none =>
      if current = 0 then (min fleet.bootstrapWorkers capacity, .bootstrapBankedResetBurnRate)
      else (min current capacity, .learningBankedReset24hBurnRate)

/-- The eligible backlog capacity, or the current count when none is observed, within the fleet. -/
def eligibleCapacity (config : AccountConfig F) (snapshot : QuotaSnapshot F) (current : Nat) : Nat :=
  min (snapshot.eligibleBacklogCapacity.getD current) config.fleet.maxWorkers

def bankedPlan (config : AccountConfig F) (snapshot : QuotaSnapshot F) (credits : ResetCreditsSnapshot)
    (window : QuotaWindow F) (decision : WindowDecision F) (minutes : Nat) (prior : AccountState F) (current : Nat)
    (now : DateTime) : BankedResetDecision F :=
  let policy := config.bankedResets
  let durationHours : F := Flt.ofNat minutes / Flt.ofNat 60
  let target := Flt.max decision.targetUtilization policy.redeemAtUtilization
  let known := knownCredits credits
  let burn := estimateAggregateBurn prior.aggregateBurnHistory[window.id]? window snapshot.observedAt current
  let capacity := eligibleCapacity config snapshot current
  let maxFeasible := burn.bind (fun b => match b.exogenousBurnPerHour, b.perWorkerBurnPerHour with
    | some exogenous, some perWorker => some (exogenous + perWorker * Flt.ofNat capacity)
    | _, _ => none)
  let pass := assessCredits
    { window, target, safetyHours := Flt.ofNat policy.deadlineSafetySeconds / Flt.ofNat 3600, burn,
      maxFeasibleBurnPerHour := maxFeasible, alerts := prior.creditAlerts, now }
    { requiredBurnPerHour := policy.minimumPaceMultiplier * target / durationHours } known
  let manual := redemptionDue config prior window
  let (desired, reason) := bankedTarget config snapshot window current now capacity manual pass.deadlineMissed
    pass.requiredBurnPerHour known.isEmpty burn
  { availableCount := credits.availableCount
    governingWindow := window.id
    minimumPaceMultiplier := policy.minimumPaceMultiplier
    requiredBurnPerHour := pass.requiredBurnPerHour
    aggregateBurnPerHour := burn.map (·.aggregateBurnPerHour)
    governedWorkerBurnPerHour := burn.bind (·.governedWorkerBurnPerHour)
    exogenousBurnPerHour := burn.bind (·.exogenousBurnPerHour)
    maxFeasibleBurnPerHour := maxFeasible
    feasible := maxFeasible.any (fun maximum => decide (pass.requiredBurnPerHour ≤ maximum))
    eligibleBacklogCapacity := capacity
    desiredWorkers := desired
    manualRedemptionRecommended := manual
    deadlineMissed := pass.deadlineMissed
    reason
    knownExpirations := known.map (·.1)
    creditDeadlines := pass.creditDeadlines
    advisories := pass.advisories }

def bankedResetDecision (config : AccountConfig F) (snapshot : QuotaSnapshot F) (decisions : List (WindowDecision F))
    (prior : AccountState F) (current : Nat) (now : DateTime) : Option (BankedResetDecision F) :=
  if !config.bankedResets.enabled then none
  else match snapshot.resetCredits with
    | none => none
    | some credits =>
      if credits.availableCount = 0 then none
      else match governingWindow snapshot with
        | none => none
        | some window =>
          match decisions.find? (fun d => d.id == window.id), window.durationMinutes with
          | some decision, some minutes =>
            some (bankedPlan config snapshot credits window decision minutes prior current now)
          | _, _ => none

/-! ## Arbitration -/

def isShortWindow (snapshot : QuotaSnapshot F) (id : String) : Bool :=
  snapshot.windows.any (fun w => w.id == id && !isWeeklyWindow w.durationMinutes)

def shortWindowReached (snapshot : QuotaSnapshot F) (decisions : List (WindowDecision F)) : Bool :=
  decisions.any (fun d => d.reason == .targetReached &&
    (snapshot.windows.find? (fun w => w.id == d.id)).any (fun w => !isWeeklyWindow w.durationMinutes))

def isFullSpeedGuard (snapshot : QuotaSnapshot F) (d : WindowDecision F) : Bool :=
  d.reason == .resetDue ||
    ((d.reason == .targetReached || d.reason == .pacedToReset) && isShortWindow snapshot d.id)

def rawDesired (config : AccountConfig F) (snapshot : QuotaSnapshot F) (decisions : List (WindowDecision F))
    (ordinary : Nat) (banked : Option (BankedResetDecision F)) : Nat :=
  match banked with
  | none => ordinary
  | some plan =>
    if plan.manualRedemptionRecommended then plan.desiredWorkers
    else if config.bankedResets.fullSpeed then
      (decisions.filter (isFullSpeedGuard snapshot)).foldl (fun desired guard => min desired guard.desiredWorkers)
        plan.desiredWorkers
    else if !shortWindowReached snapshot decisions then max ordinary plan.desiredWorkers
    else ordinary

def capDesired (config : AccountConfig F) (snapshot : QuotaSnapshot F) (current raw : Nat)
    (banked : Option (BankedResetDecision F)) : Nat :=
  let backlogCap := snapshot.eligibleBacklogCapacity.getD u32Max
  let stepped := applyStepLimits (min raw backlogCap) current config
  let desired := match banked with
    | none => stepped
    | some plan =>
      if config.bankedResets.fullSpeed then min stepped (max current plan.eligibleBacklogCapacity)
      else min stepped plan.eligibleBacklogCapacity
  min desired (max current backlogCap)

def isStale (config : AccountConfig F) (snapshot : QuotaSnapshot F) (now : DateTime) : Bool :=
  !snapshot.fresh || decide (config.utilization.staleAfterSeconds < ageSeconds (now - snapshot.observedAt))

def staleDecision (name : String) (config : AccountConfig F) (snapshot : QuotaSnapshot F) (current : Nat) :
    Decision F :=
  let raw := match config.utilization.staleBehavior with
    | .hold => current
    | .minWorkers => config.fleet.minWorkers
  { account := name
    observedAt := snapshot.observedAt
    currentWorkers := current
    desiredWorkers := min (applyStepLimits raw current config) current
    stale := true }

def freshDecision (name : String) (config : AccountConfig F) (snapshot : QuotaSnapshot F) (prior : AccountState F)
    (current : Nat) (now : DateTime) (decisions : List (WindowDecision F)) : Decision F :=
  let binding := Select.minByKey (fun d : WindowDecision F => d.desiredWorkers) decisions
  let ordinary := (binding.map (·.desiredWorkers)).getD current
  let banked := bankedResetDecision config snapshot decisions prior current now
  let raw := rawDesired config snapshot decisions ordinary banked
  { account := name
    observedAt := snapshot.observedAt
    currentWorkers := current
    desiredWorkers := capDesired config snapshot current raw banked
    stale := false
    windows := decisions
    bindingWindow := binding.map (·.id)
    bankedResets := banked }

def evaluate (name : String) (config : AccountConfig F) (snapshot : QuotaSnapshot F) (prior : AccountState F)
    (current : Nat) (now : DateTime) : Except String (Decision F) :=
  if isStale config snapshot now then .ok (staleDecision name config snapshot current)
  else
    let decisions := windowDecisions config snapshot prior current now
    if decisions.isEmpty then .error s!"account {name}: no enabled quota windows were observed"
    else .ok (freshDecision name config snapshot prior current now decisions)

def pooledConfig (config : AccountConfig F) (unowned : Nat) : AccountConfig F :=
  { config with fleet := { config.fleet with
      minWorkers := satAdd config.fleet.minWorkers unowned
      maxWorkers := satAdd config.fleet.maxWorkers unowned
      maxWorkersU32 := satAdd_le_max _ _ } }

def evaluatePool (name : String) (config : AccountConfig F) (snapshot : QuotaSnapshot F) (prior : AccountState F)
    (owned unowned : Nat) (now : DateTime) : Except String (Decision F) :=
  if unowned = 0 then evaluate name config snapshot prior owned now
  else (evaluate name (pooledConfig config unowned) snapshot prior (satAdd owned unowned) now).map
    (·.intoElastic unowned)

/-! ## Backpressure -/

def backpressureNext (policy : BackpressureConfig F) (state : BackpressureState) (fraction : F) : BackpressureState :=
  let quiet (recovered : BackpressureMode) : BackpressureState :=
    let cycles := satAdd state.quietCycles 1
    if policy.quietCycles ≤ cycles then { state with mode := recovered, quietCycles := 0 }
    else { state with quietCycles := cycles }
  match state.mode with
  | .normal => { state with
      mode := if policy.holdAbove < fraction then .hold else .normal
      quietCycles := 0 }
  | .hold =>
    if policy.stepDownAbove < fraction then { state with mode := .stepDown, quietCycles := 0 }
    else if fraction < policy.recoverBelow then quiet .normal
    else { state with quietCycles := 0 }
  | .stepDown => if fraction < policy.recoverBelow then quiet .hold else { state with quietCycles := 0 }

def signalLost (policy : BackpressureConfig F) (state : BackpressureState) (now : DateTime) : Bool :=
  state.lastUsableSampleAt.all (fun last => decide (policy.signalLossReleaseSeconds ≤ ageSeconds (now - last)))

def backpressureCap (mode : BackpressureMode) (desired current minWorkers : Nat) : Nat :=
  match mode with
  | .normal => desired
  | .hold => max current minWorkers
  | .stepDown => max (current - 1) minWorkers

/-- The total that goes with an elastic target, kept in step by every stage that lowers it. -/
def withTotal (d : Decision F) : Decision F :=
  if 0 < d.unownedWorkers then { d with desiredTotal := some (satAdd d.desiredWorkers d.unownedWorkers) } else d

omit [Flt F] in
theorem withTotal_desiredWorkers (d : Decision F) : (withTotal d).desiredWorkers = d.desiredWorkers := by
  unfold withTotal
  split <;> rfl

omit [Flt F] in
theorem withTotal_currentWorkers (d : Decision F) : (withTotal d).currentWorkers = d.currentWorkers := by
  unfold withTotal
  split <;> rfl

omit [Flt F] in
theorem withTotal_desiredTotal {d : Decision F} (h : 0 < d.unownedWorkers) :
    (withTotal d).desiredTotal = some (satAdd d.desiredWorkers d.unownedWorkers) := by
  unfold withTotal
  rw [if_pos h]

def applyBackpressure (decision : Decision F) (policy : BackpressureConfig F) (prior : BackpressureState)
    (snapshot : QuotaSnapshot F) (minWorkers : Nat) (now : DateTime) : Decision F × BackpressureState :=
  let fraction := snapshot.backpressure.bind (·.upstream429Fraction)
  let usable := if decision.stale then none else fraction
  let (state, released) : BackpressureState × Bool := match usable with
    | some f => (backpressureNext policy { prior with lastUsableSampleAt := some snapshot.observedAt } f, false)
    | none =>
      if prior.mode != .normal && signalLost policy prior now then ({}, true) else (prior, false)
  let cap := backpressureCap state.mode decision.desiredWorkers decision.currentWorkers minWorkers
  let desired := min decision.desiredWorkers cap
  let braked := withTotal { decision with desiredWorkers := desired }
  ({ braked with backpressure := some {
      state := state.mode, fraction, brakeChanged := decide (desired < decision.desiredWorkers),
      releasedOnSignalLoss := released } }, state)

end Subgov
