import Subgov.Saturation
import Subgov.Fleet
import Subgov.Runtime
/-!
# Cycle — one account's part of `run_cycle`

The stages in the source's order: observe the account, store what the policies decided, share and gate the target, place
it, actuate it, record the sample.  `World` is what a cycle changes and `CycleInputs` everything it reads from outside.
A failure ends the account's part where it happens; only `recordCycle` runs after the last stage that can fail.
-/
namespace Subgov

open FloatArith

variable {F : Type} [Flt F]

structure World (F : Type) where
  state : State F
  pending : PendingMap
  log : FleetLog := {}

/-- Why an account's cycle failed, with the category that decides the exit code. -/
inductive AccountFailure
  | observation (error : String)
  | actuation (error : String)
  deriving DecidableEq

abbrev CycleM (F : Type) := Effect (World F) AccountFailure

structure CycleInputs (F : Type) where
  observeOnly : Bool
  source : Except String (QuotaSnapshot F)
  fleet : FleetInputs
  now : DateTime
  localRecord : Except String (PeerRecord F)
  runtime : FederationRuntime F
  gate : GateInputs F
  advisoryWrites : Except String Unit
  resources : BTreeMap (ResourceSnapshot F)
  eventWrite : Except String Unit
  statusAt : DateTime
  accountFingerprint : String → String

def Config.federated (config : Config F) : Option FederationConfig := config.federation.filter (!·.peers.isEmpty)

def Config.localHost (config : Config F) : Option String := config.federation.map (·.hostId)

structure AccountCycle (F : Type) where
  config : Config F
  name : String
  account : AccountConfig F
  inputs : CycleInputs F

/-- What the federation adds to an account's view. -/
structure SharedView where
  total : Nat
  share : Nat
  stalePeer : Bool
  expiredHosts : List String
  capacityUnknown : Bool

/-- Everything a cycle has learned before it writes anything. -/
structure Observation (F : Type) where
  snapshot : QuotaSnapshot F
  hostCurrent : Option (BTreeMap Nat)
  workers : Nat
  pending : Nat
  observedPool : Option String
  prior : AccountState F
  unowned : Nat
  decision : Decision F
  shared : Option SharedView

def Observation.stalePeer (o : Observation F) : Bool := o.shared.any (·.stalePeer)

def onFleet {α : Type} (wrap : String → AccountFailure) (m : FleetM α) : CycleM F α :=
  Effect.focus (·.log) (fun w log => { w with log }) wrap m

def onPending {α : Type} (wrap : String → AccountFailure) (step : PendingMap → PendingMap × Except String α) :
    CycleM F α :=
  Effect.ofStep (fun w => ((step w.pending).2.mapError wrap, { w with pending := (step w.pending).1 }))

namespace AccountCycle

variable (c : AccountCycle F)

/-! ## Observing -/

def observeWorkers : FleetM (Option (BTreeMap Nat) × Nat) :=
  if c.account.fleet.hasHosts then do
    let current ← currentHostWorkers c.account.fleet c.config.localHost c.inputs.fleet.hostReading
    let total ← Effect.lift id (totalHostWorkers c.account.fleet current)
    return (some current, total)
  else do
    let workers ← currentWorkers c.account.fleet c.inputs.fleet.reading
    return (none, workers)

def localWorkers (federation : FederationConfig) (hostCurrent : Option (BTreeMap Nat)) (workers : Nat) : Nat :=
  (hostCurrent.bind (·[federation.hostId]?)).getD workers

def readPending (pending : PendingMap) (hostCurrent : Option (BTreeMap Nat)) (workers : Nat) : Nat × Option String :=
  match c.config.federated with
  | none => (0, none)
  | some federation =>
    let pool := poolKey c.account c.name federation.hostId
    (readPendingLaunches pending pool,
      if pendingObserved pending pool (localWorkers federation hostCurrent workers) then some pool else none)

/-- Whether some peer that counts has neither a measured nor a configured ceiling. -/
def capacityUnknown (federation : FederationConfig) (expired : List String) : Bool :=
  federation.peers.any (fun peer => !expired.contains peer &&
    c.inputs.runtime.records[peer]?.any (fun r => r.hostCeiling.isNone && (hostMaxWorkers c.account peer).isNone))

def sharedView (snapshot : QuotaSnapshot F) (prior : AccountState F) (hostCurrent : Option (BTreeMap Nat))
    (workers : Nat) : Except String (Option SharedView) :=
  match c.config.federated with
  | none => .ok none
  | some federation => do
    let localRecord ← c.inputs.localRecord
    let (shared, stalePeer) ← sharedDecision c.inputs.runtime federation localRecord c.name c.account snapshot prior
      (localWorkers federation hostCurrent workers) c.inputs.now
    let expired := expiredHosts c.inputs.runtime federation
    return some {
      total := shared.total
      share := shared.shares.getD federation.hostId 0
      stalePeer
      expiredHosts := expired
      capacityUnknown := c.capacityUnknown federation expired }

def observe : CycleM F (Observation F) := do
  let snapshot ← Effect.lift .observation c.inputs.source
  let (hostCurrent, workers) ← onFleet .observation c.observeWorkers
  let w ← get
  let (pending, observedPool) := c.readPending w.pending hostCurrent workers
  let prior := w.state.account c.name
  let unowned ← Effect.lift .observation
    (if hostCurrent.isSome then .ok 0 else unownedWorkers c.account.fleet c.inputs.fleet.unowned)
  let decision ← Effect.lift .observation
    (evaluatePool c.name c.account snapshot prior workers unowned c.inputs.now)
  let shared ← Effect.lift .observation (c.sharedView snapshot prior hostCurrent workers)
  return { snapshot, hostCurrent, workers, pending, observedPool, prior, unowned, decision, shared }

/-! ## Policies -/

def policies (o : Observation F) : PolicyResult F := applyPolicies o.decision c.account o.snapshot o.prior c.inputs.now

def storePolicies (r : PolicyResult F) (state : State F) : State F :=
  let state := r.zaiSaturation.elim state (fun next =>
    state.setAccount c.name { state.account c.name with zaiSaturation := some next })
  r.backpressure.elim state (fun next =>
    state.setAccount c.name { state.account c.name with backpressure := next })

/-! ## The target -/

/-- Whether the shared split cannot stand for this account, so that its workers are left alone. -/
def safetyHold (o : Observation F) : Bool :=
  c.config.federated.isSome && (c.account.bankedResets.enabled || c.account.utilization.zaiSaturation.isSome ||
    c.account.utilization.backpressure.isSome || o.snapshot.windows.length != 1 || decide (0 < o.unowned) ||
    o.shared.any (·.capacityUnknown))

/-- The share as the target, which a local brake may lower, a stale peer freezes and a safety hold replaces. -/
def shareTarget (o : Observation F) (d : Decision F) : Nat :=
  match o.shared with
  | none => d.desiredWorkers
  | some shared =>
    let localBrake := d.backpressure.any (·.brakeChanged) || d.saturation.isSome
    let desired := if localBrake then min shared.share d.desiredWorkers else shared.share
    let desired := if shared.stalePeer then min desired o.workers else desired
    if c.safetyHold o then o.workers else desired

def launchCall (federation : FederationConfig) (o : Observation F) (actuator : ActuatorConfig)
    (current desired total : Nat) : LaunchCall F :=
  { federation
    name := c.name
    account := c.account
    actuator
    current
    desired
    controllerTotal := (o.shared.map (·.total)).getD total
    stepLimit := localStepLimit c.config c.account
    bound := stepUpBound c.config c.account
    expired := (o.shared.map (·.expiredHosts)).getD []
    accountFingerprint := c.inputs.accountFingerprint ((federation.accountIdentities[c.name]?).getD c.name)
    now := c.inputs.now }

/-- What a target above the current count may become: the gate's answer, or the current count while a peer is stale or
a reservation is held. -/
def gateTarget (o : Observation F) (call : LaunchCall F) : CycleM F Nat :=
  if o.stalePeer = false ∧ o.pending = 0 then onPending .actuation (gateFederatedLaunch call c.inputs.gate)
  else return call.current

def fleetLaunch (o : Observation F) (desired : Nat) : Option (LaunchCall F) :=
  match c.config.federated with
  | none => none
  | some federation =>
    if !c.inputs.observeOnly && o.hostCurrent.isNone && decide (o.workers < desired)
    then some (c.launchCall federation o c.account.fleet.actuator o.workers desired desired) else none

def fleetTarget (o : Observation F) (desired : Nat) : CycleM F Nat :=
  match c.fleetLaunch o desired with
  | none => return desired
  | some call => c.gateTarget o call

/-! ## Hosts -/

/-- The placement of this instance's host within the share, and every other host's left as it is. -/
def capPlacement (o : Observation F) (desired : Nat) (federation : FederationConfig) (share : Nat)
    (p : HostPlacement F) : HostPlacement F :=
  let capped := min (min share desired) p.target
  { p with
    target := if p.hostId ≠ federation.hostId then p.current
      else if c.safetyHold o then p.current
      else if o.stalePeer then min capped p.current
      else capped }

def hostPlacements (o : Observation F) (desired : Nat) (current : BTreeMap Nat) :
    Except String (List (HostPlacement F)) := do
  let placements ← place c.name desired c.account current c.inputs.resources c.inputs.now
  return match c.config.federated, o.shared with
    | some federation, some shared => placements.map (c.capPlacement o desired federation shared.share)
    | _, _ => placements

def hostLaunch (o : Observation F) (desired : Nat) (placements : List (HostPlacement F)) : Option (LaunchCall F) :=
  match c.config.federated with
  | none => none
  | some federation =>
    if c.inputs.observeOnly then none
    else match placements.find? (·.hostId == federation.hostId) with
      | none => none
      | some p =>
        if p.current < p.target then
          let actuator := ((c.account.fleet.hosts.bind (·[federation.hostId]?)).map (·.actuator)).getD .none
          some (c.launchCall federation o actuator p.current p.target desired)
        else none

def setTarget (hostId : String) (target : Nat) (p : HostPlacement F) : HostPlacement F :=
  if p.hostId = hostId then { p with target } else p

def placeHosts (o : Observation F) (desired : Nat) : CycleM F (Option (List (HostPlacement F))) :=
  match o.hostCurrent with
  | none => return none
  | some current => do
    let placements ← Effect.lift .observation (c.hostPlacements o desired current)
    match c.hostLaunch o desired placements with
    | none => return some placements
    | some call =>
      let target ← c.gateTarget o call
      return some (placements.map (setTarget call.federation.hostId target))

/-! ## Actuating -/

structure Actuated where
  actuated : Bool
  observedAfter : Option Nat := none
  outcomes : Option (BTreeMap ActuationOutcome) := none

/-- A host's count after its actuation: observed, else its target when it was actuated, else what it was. -/
def countAfter (outcome : Option ActuationOutcome) (current target : Nat) : Nat :=
  (outcome.bind (·.observedWorkers)).getD (if outcome.any (·.actuated) then target else current)

def postActuationTotal (placements : List (HostPlacement F)) (outcomes : BTreeMap ActuationOutcome) :
    Except String (Option Nat) :=
  if outcomes.values.any (·.observedWorkers.isSome) then
    (checkedSum "post-actuation worker total exceeds u32"
      (placements.map (fun p => countAfter outcomes[p.hostId]? p.current p.target))).map some
  else .ok none

def actuate (o : Observation F) (desired : Nat) (placements : Option (List (HostPlacement F))) : CycleM F Actuated :=
  if c.inputs.observeOnly || c.safetyHold o then return { actuated := false }
  else match placements with
    | some placements => do
      let outcomes ← onFleet .actuation (actuateHostTargets c.account.fleet placements c.inputs.fleet c.config.localHost
        (c.config.federated.map (·.hostId)))
      let observedAfter ← Effect.lift .observation (postActuationTotal placements outcomes)
      return {
        actuated := outcomes.values.any (·.actuated)
        observedAfter
        outcomes := some outcomes }
    | none => do
      let outcome ← onFleet .actuation (actuateWithExclusions c.account.fleet o.workers desired c.inputs.fleet)
      return { actuated := outcome.actuated, observedAfter := outcome.observedWorkers }

/-! ## Recording -/

def alertGeneration (o : Observation F) (d : Decision F) (banked : BankedResetDecision F) : DateTime :=
  ((d.windows.find? (fun w => w.id == banked.governingWindow)).map (·.resetsAt)).getD o.snapshot.observedAt

def recordAccount (o : Observation F) (d : Decision F) (a : Actuated) (s : AccountState F) : AccountState F :=
  if d.stale then { s with lastTarget := some (wrapAdd d.desiredWorkers o.unowned) }
  else
    let sampled := a.observedAfter.getD (if a.actuated then d.desiredWorkers else o.workers)
    let s := s.record o.snapshot (wrapAdd sampled o.unowned) (wrapAdd d.desiredWorkers o.unowned)
    match d.bankedResets with
    | some banked => s.recordCreditAlerts (alertGeneration o d banked)
        (banked.creditDeadlines.map (fun k => (k.creditId, k.severity.elim 0 (·.rank))))
    | none => { s with creditAlerts := ∅ }

def recordHosts (o : Observation F) (d : Decision F) (placements : List (HostPlacement F)) (a : Actuated)
    (state : State F) : State F :=
  let sampled := if d.stale then state else
    placements.foldl (fun state p => state.recordHost c.name p.hostId o.snapshot
      (countAfter (a.outcomes.bind (·[p.hostId]?)) ((o.hostCurrent.bind (·[p.hostId]?)).getD 0) p.target)) state
  placements.foldl (fun state p => state.recordHostPlacement c.name p.hostId c.inputs.now p.target) sampled

def recordCycle (o : Observation F) (d : Decision F) (placements : Option (List (HostPlacement F))) (a : Actuated)
    (state : State F) : State F :=
  c.recordHosts o d (placements.getD []) a
    (state.setAccount c.name (recordAccount o d a (state.account c.name)))

end AccountCycle

/-! ## Readiness -/

inductive ReadinessState
  | healthyLearning
  | intentionalHold
  | providerFailure
  | staleDrain
  | actuationFailure
  deriving DecidableEq

structure AccountReadiness where
  state : ReadinessState
  reason : String
  updatedAt : DateTime
  observedAt : Option DateTime
  currentWorkers : Option Nat
  desiredWorkers : Option Nat
  deriving DecidableEq

def WindowReason.text : WindowReason → String
  | .targetReached => "target_reached"
  | .resetDue => "reset_due"
  | .belowCeiling => "below_ceiling"
  | .pacedToReset => "paced_to_reset"
  | .noObservedBurn => "no_observed_burn"
  | .bootstrapBurnRate => "bootstrap_burn_rate"
  | .learningBurnRate => "learning_burn_rate"

def readinessReason (d : Decision F) : ReadinessState × String :=
  if d.stale then (.staleDrain, "stale_data_holding")
  else if d.windows.any (fun w => w.reason == .targetReached) ||
      d.bankedResets.any (·.manualRedemptionRecommended) then
    (.intentionalHold, "target_reached")
  else
    let binding := (d.bindingWindow.bind (fun id => d.windows.find? (fun w => w.id == id))).or
      (d.windows.find? (fun w => w.desiredWorkers == d.desiredWorkers))
    (.healthyLearning, (binding.map (·.reason.text)).getD "healthy")

def readinessForDecision (d : Decision F) (updatedAt : DateTime) : AccountReadiness :=
  { state := (readinessReason d).1
    reason := (readinessReason d).2
    updatedAt
    observedAt := some d.observedAt
    currentWorkers := some d.currentWorkers
    desiredWorkers := some d.desiredWorkers }

def readinessForFailure (failure : AccountFailure) (updatedAt : DateTime) : AccountReadiness :=
  let (state, reason) := match failure with
    | .observation _ => (ReadinessState.providerFailure, "source_or_observer_error")
    | .actuation _ => (ReadinessState.actuationFailure, "actuator_error")
  { state, reason, updatedAt, observedAt := none, currentWorkers := none, desiredWorkers := none }

/-! ## The account's part of a cycle -/

/-- What a completed cycle reports: its readiness, and the pool whose reservation it has observed. -/
structure CycleReport where
  readiness : AccountReadiness
  observedPool : Option String
  deriving DecidableEq

namespace AccountCycle

variable (c : AccountCycle F)

def writeAdvisories (d : Decision F) : Except String Unit :=
  if d.bankedResets.any (!·.advisories.isEmpty) then c.inputs.advisoryWrites else .ok ()

def finish (o : Observation F) (d : Decision F) (placements : Option (List (HostPlacement F))) :
    CycleM F CycleReport := do
  let actuated ← c.actuate o d.desiredWorkers placements
  Effect.lift .observation c.inputs.eventWrite
  modify fun w => { w with state := c.recordCycle o d placements actuated w.state }
  return { readiness := readinessForDecision d c.inputs.statusAt, observedPool := o.observedPool }

def act (o : Observation F) (d : Decision F) : CycleM F CycleReport := do
  let desired ← c.fleetTarget o (c.shareTarget o d)
  Effect.lift .observation (c.writeAdvisories d)
  let placements ← c.placeHosts o desired
  c.finish o { d with desiredWorkers := desired } placements

def cycle : CycleM F CycleReport := do
  let o ← c.observe
  let r := c.policies o
  modify fun w => { w with state := c.storePolicies r w.state }
  c.act o r.decision

def status (result : Except AccountFailure CycleReport) : AccountReadiness :=
  match result with
  | .ok report => report.readiness
  | .error failure => readinessForFailure failure c.inputs.statusAt

end AccountCycle

end Subgov
