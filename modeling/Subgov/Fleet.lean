import Subgov.Placement
import Subgov.Lib.Effect
/-!
# Fleet — observers and actuators

What an account's cycle asks of its fleet: the observed counts, within the configured range, and one actuation per
fleet or host.  Observers and actuators are external; their answers are `FleetInputs`.  A `FleetLog` keeps what the cycle
did to the outside: the last count read off this host's observer, and the workers its actuators started.
-/
namespace Subgov

variable {F : Type}

structure FleetLog where
  observed : Option Nat := none
  started : Nat := 0
  deriving DecidableEq

abbrev FleetM := Effect FleetLog String

/-- One actuator call: its outcome, and how many workers it started either way. -/
structure ActuatorCall where
  result : Except String Unit
  started : Nat

/-- What the observers and actuators of one cycle answer: `reading` before the decision and `postReading` after it. -/
structure FleetInputs where
  reading : Except String Nat
  postReading : Except String Nat
  hostReading : String → Except String Nat
  postHostReading : String → Except String Nat
  unowned : Except String Nat
  actuator : Nat → ActuatorCall
  hostActuator : String → Nat → ActuatorCall
  retire : Except String Unit

structure ActuationOutcome where
  actuated : Bool
  observedWorkers : Option Nat := none
  deriving DecidableEq

/-- `with_context`: the cause after what was being done. -/
def withContext (context cause : String) : String := s!"{context}: {cause}"

/-! ## Observing -/

def observeWith (config : WorkerObserverConfig) (reading : Except String Nat) : Except String Nat :=
  match config with
  | .static workers => .ok workers
  | _ => reading

def reconcileObservedRange (observed : Nat) (fleet : FleetConfig F) : Except String Nat :=
  if fleet.minWorkers ≤ observed ∧ observed ≤ fleet.maxWorkers then .ok observed
  else match fleet.observerReconciliation with
    | .strict => .error (s!"observed worker count {observed} is outside the configured fleet range " ++
        s!"[{fleet.minWorkers}, {fleet.maxWorkers}]")
    | .clamp => .ok (clampNat observed fleet.minWorkers fleet.maxWorkers)

def note (workers : Nat) : FleetM PUnit := modify fun log => { log with observed := some workers }

def currentWorkers (fleet : FleetConfig F) (reading : Except String Nat) : FleetM Nat :=
  match fleet.observer with
  | none => throw "fleet.observer is required when fleet.hosts is not configured"
  | some observer => do
    let observed ← Effect.lift id (observeWith observer reading)
    note observed
    Effect.lift id (reconcileObservedRange observed fleet)

/-- Only the heartbeat observer knows of workers the governor does not own. -/
def unownedWorkers (fleet : FleetConfig F) (reading : Except String Nat) : Except String Nat :=
  match fleet.observer with
  | some (.needleStatus _) => reading
  | _ => .ok 0

def FleetConfig.hasHosts (fleet : FleetConfig F) : Bool := fleet.hosts.any (!·.isEmpty)

def configuredHosts (fleet : FleetConfig F) : Except String (BTreeMap (HostConfig F)) :=
  match fleet.hosts.filter (!·.isEmpty) with
  | none => .error "fleet.hosts must contain at least one host"
  | some hosts => .ok hosts

def observeHost (localHost : Option String) (context : String) (host : HostConfig F) (id : String)
    (reading : Except String Nat) : FleetM Nat := do
  let observed ← Effect.lift (withContext context) (observeWith host.observer reading)
  if localHost = some id then
    note observed
    return observed
  else return observed

def byHost {V : Type} (entries : List (String × V)) : BTreeMap V :=
  entries.foldl (fun m e => m.insert e.1 e.2) ∅

def currentHostWorkers (fleet : FleetConfig F) (localHost : Option String) (reading : String → Except String Nat) :
    FleetM (BTreeMap Nat) := do
  let hosts ← Effect.lift id (configuredHosts fleet)
  let observed ← hosts.toList.mapM fun (id, host) => do
    return (id, ← observeHost localHost s!"host {id} observer failed" host id (reading id))
  return byHost observed

def checkedSum (message : String) : List Nat → Except String Nat :=
  List.foldlM (fun total workers => if total + workers ≤ u32Max then .ok (total + workers) else .error message) 0

def totalHostWorkers (fleet : FleetConfig F) (current : BTreeMap Nat) : Except String Nat := do
  let total ← checkedSum "sum of per-host worker counts exceeds u32" current.values
  reconcileObservedRange total fleet

/-! ## Actuating -/

def reconcileUnchanged (actuator : ActuatorConfig) : Bool := actuator == .command true

def actuateConfig (actuator : ActuatorConfig) (observed desired : Nat) (call : Nat → ActuatorCall) :
    FleetM ActuationOutcome :=
  if desired = observed ∧ reconcileUnchanged actuator = false then return { actuated := false }
  else if actuator = .none then return { actuated := false }
  else do
    modify fun log => { log with started := log.started + (call desired).started }
    Effect.lift id (call desired).result
    return { actuated := true }

def retireTakeover (fleet : FleetConfig F) (retire : Except String Unit) : Except String Unit :=
  if fleet.takeover.isEmpty then .ok ()
  else if fleet.takeoverHelper then retire
  else .error "fleet.takeover is configured without fleet.takeover_helper"

def actuateWithExclusions (fleet : FleetConfig F) (observed desired : Nat) (inputs : FleetInputs) :
    FleetM ActuationOutcome := do
  let outcome ← actuateConfig fleet.actuator observed desired inputs.actuator
  Effect.lift id (retireTakeover fleet inputs.retire)
  if reconcileUnchanged fleet.actuator then
    return { outcome with observedWorkers := some (← currentWorkers fleet inputs.postReading) }
  else return outcome

def placementsByHost (hosts : BTreeMap (HostConfig F)) (placements : List (HostPlacement F)) :
    Except String (BTreeMap (HostPlacement F)) := do
  let byHost ← placements.foldlM (fun (m : BTreeMap (HostPlacement F)) p =>
    if !hosts.contains p.hostId then .error s!"placement references unknown host {p.hostId}"
    else if m.contains p.hostId then .error s!"placement contains duplicate host {p.hostId}"
    else .ok (m.insert p.hostId p)) ∅
  checkAll (fun id => ensure (byHost.contains id) s!"placement is missing configured host {id}") hosts.keys
  return byHost

/-- One host's actuation; with a selected host every other one is left alone. -/
def actuateHost (inputs : FleetInputs) (localHost selectedHost : Option String) (id : String) (host : HostConfig F)
    (current target : Nat) : FleetM ActuationOutcome := do
  if selectedHost.any (· != id) then return { actuated := false }
  else
    let outcome ← Effect.mapError (withContext s!"host {id} actuator failed")
      (actuateConfig host.actuator current target (inputs.hostActuator id))
    if reconcileUnchanged host.actuator then
      return { outcome with observedWorkers := some (← observeHost localHost
        s!"host {id} post-actuation observer failed" host id (inputs.postHostReading id)) }
    else return outcome

def actuateHostTargets (fleet : FleetConfig F) (placements : List (HostPlacement F)) (inputs : FleetInputs)
    (localHost selectedHost : Option String) : FleetM (BTreeMap ActuationOutcome) := do
  let hosts ← Effect.lift id (configuredHosts fleet)
  let byHostId ← Effect.lift id (placementsByHost hosts placements)
  let outcomes ← hosts.toList.mapM fun (id, host) => do
    let placement := byHostId[id]?
    return (id, ← actuateHost inputs localHost selectedHost id host ((placement.map (·.current)).getD 0)
      ((placement.map (·.target)).getD 0))
  return byHost outcomes

end Subgov
