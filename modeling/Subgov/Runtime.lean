import Subgov.Ownership
/-!
# Runtime — what the peers' accepted records give one account

`sharedDecision` collects the hosts and samples of an account from this instance's record and the peers' accepted ones,
and derives the shared total; `buildLocalRecord` makes that record of the files the instance keeps;
`gateFederatedLaunch` sizes a launch under the total and runs the gate.  How fresh a peer is, and what a second pull
answers, are inputs.
-/
namespace Subgov

open FloatArith

variable {F : Type} [Flt F]

inductive PeerFreshness
  | fresh
  | stale
  | expired
  deriving DecidableEq

/-- The last accepted record of each peer; `freshness` when the total is derived, `laterFreshness` right after. -/
structure FederationRuntime (F : Type) where
  records : BTreeMap (PeerRecord F)
  freshness : String → PeerFreshness
  laterFreshness : String → PeerFreshness

inductive AccountIdentityVerdict
  | same
  | fingerprintMismatch
  | distinct
  deriving DecidableEq

def classifyAccount (own peer : PeerAccount F) : AccountIdentityVerdict :=
  if own.accountId ≠ peer.accountId then .distinct
  else if own.accountFingerprint ≠ peer.accountFingerprint then .fingerprintMismatch
  else .same

structure PeerAccountSnapshot (F : Type) where
  workers : Nat := 0
  readyDemand : Nat := 0
  quotaSample : Option (PeerQuotaSample F) := none

def wrapSum (xs : List Nat) : Nat := xs.foldl wrapAdd 0

def peerAccountSnapshot (runtime : FederationRuntime F) (hostId accountId : String) : PeerAccountSnapshot F :=
  match runtime.freshness hostId, runtime.records[hostId]?.bind (·.accounts[accountId]?) with
  | .expired, _ => {}
  | _, none => {}
  | _, some account =>
    let pools := account.pools.values
    { workers := wrapSum (pools.map (·.governedWorkers))
      readyDemand := wrapSum (pools.map (·.readyDemand.workerBound))
      quotaSample := freshestSample (pools.filterMap (·.quotaSample)) }

def anyPeerStale (runtime : FederationRuntime F) (federation : FederationConfig) : Bool :=
  federation.peers.any (fun peer => runtime.freshness peer == .stale)

def expiredHosts (runtime : FederationRuntime F) (federation : FederationConfig) : List String :=
  federation.peers.filter (fun peer => runtime.laterFreshness peer == .expired)

/-! ## The shared total -/

def hostMaxWorkers (account : AccountConfig F) (hostId : String) : Option Nat :=
  (account.fleet.hosts.bind (·[hostId]?)).bind (·.maxWorkers)

/-- A host's ceiling: its measured one, never past the configured one. -/
def hostCeilingOf (account : AccountConfig F) (record : PeerRecord F) (hostId : String) (unmeasured : Nat) : Nat :=
  min (record.hostCeiling.getD unmeasured) ((hostMaxWorkers account hostId).getD account.fleet.maxWorkers)

def withinStaleness (account : AccountConfig F) (observedAt now : DateTime) : Bool :=
  decide (numSeconds (now - observedAt) ≤ asI64 account.utilization.staleAfterSeconds)

def localSample (account : AccountConfig F) (snapshot : QuotaSnapshot F) (now : DateTime) :
    Option (PeerQuotaSample F) :=
  if snapshot.fresh && withinStaleness account snapshot.observedAt now then
    snapshot.windows.head?.map (fun w =>
      { window := w.id
        usedFraction := w.usedFraction
        resetsAt := w.resetsAt
        observedAt := snapshot.observedAt })
  else none

def peerContribution (runtime : FederationRuntime F) (account : AccountConfig F) (name : String)
    (own : PeerAccount F) (now : DateTime) (peer : String) :
    Option (FederationHost × Option (PeerQuotaSample F)) :=
  runtime.records[peer]?.bind (fun record => record.accounts[name]?.bind (fun peerAccount =>
    if classifyAccount own peerAccount ≠ .same then none
    else
      let view := peerAccountSnapshot runtime peer name
      some (
        { hostId := peer
          workers := view.workers
          ceiling := hostCeilingOf account record peer account.fleet.maxWorkers
          readyDemand := view.readyDemand },
        view.quotaSample.filter (fun s => withinStaleness account s.observedAt now))))

def sharedDecision (runtime : FederationRuntime F) (federation : FederationConfig) (localRecord : PeerRecord F)
    (name : String) (account : AccountConfig F) (snapshot : QuotaSnapshot F) (prior : AccountState F)
    (localWorkers : Nat) (now : DateTime) : Except String (SharedAccountDecision F × Bool) :=
  match localRecord.accounts[name]? with
  | none => .error s!"local peer record has no account {name}"
  | some own => do
    let peers := federation.peers.filterMap (peerContribution runtime account name own now)
    let host : FederationHost := {
      hostId := federation.hostId
      workers := localWorkers
      ceiling := hostCeilingOf account localRecord federation.hostId
        ((hostMaxWorkers account federation.hostId).getD account.fleet.maxWorkers)
      readyDemand := satSum (own.pools.values.map (·.readyDemand.workerBound)) }
    let samples := (localSample account snapshot now).toList ++ peers.filterMap (·.2)
    let decision ← sharedAccountTotal name account prior (host :: peers.map (·.1)) samples now
    return (decision, anyPeerStale runtime federation)

/-! ## The local record -/

/-- The one pool of an account, as the peers are shown it. -/
def poolStates (account : AccountConfig F) (name localHost : String) (status : BTreeMap StatusDigest) (state : State F)
    (pending : PendingMap) (readyDemand : PeerReadyDemand) : BTreeMap (PeerPool F) :=
  let readiness := status[name]?
  let key := poolKey account name localHost
  (∅ : BTreeMap (PeerPool F)).insert key
    { governedWorkers := (readiness.bind (·.currentWorkers)).getD 0
      pendingLaunches := readPendingLaunches pending key
      desired := (readiness.bind (·.desiredWorkers)).getD 0
      quotaSample := freshestWindow state name
      readyDemand }

def needleRunDemandState : ActuatorConfig → Option String
  | .needleRun _ _ seedDemandState => seedDemandState
  | _ => none

/-- The demand-state file of the actuator on this instance's host. -/
def seedDemandState (account : AccountConfig F) (localHost : String) : Option String :=
  match account.fleet.hosts with
  | some hosts => hosts[localHost]?.bind (fun h => needleRunDemandState h.actuator)
  | none => needleRunDemandState account.fleet.actuator

/-- The files a record is built from, and what it says of the host. -/
structure RecordFiles (F : Type) where
  status : BTreeMap StatusDigest
  state : State F
  pending : PendingMap
  /-- The ready work that a demand-state file tells of. -/
  readyDemand : String → PeerReadyDemand
  hostCeiling : Option Nat
  observedAt : DateTime

/-- A fingerprint is taken of the provider's identifier, else of the account's name. -/
def localAccount (fingerprint : String → String) (federation : FederationConfig) (files : RecordFiles F) (name : String)
    (account : AccountConfig F) : PeerAccount F where
  accountId := name
  accountFingerprint := fingerprint (federation.accountIdentities.getD name name)
  pools := poolStates account name federation.hostId files.status files.state files.pending
    (((seedDemandState account federation.hostId).map files.readyDemand).getD {})

/-- The record of an instance. -/
def buildLocalRecord (fingerprint : String → String) (config : Config F) (federation : FederationConfig)
    (files : RecordFiles F) : PeerRecord F where
  hostId := federation.hostId
  observedAt := files.observedAt
  accounts := config.accounts.map (localAccount fingerprint federation files)
  hostCeiling := files.hostCeiling

/-! ## The gate of one account -/

/-- The launches an actuator has workspaces to seed: only a seeded NEEDLE actuator is limited. -/
def launchCapacity (actuator : ActuatorConfig) (excluded : List String) (seedable : Except String Nat) :
    Except String Nat :=
  match actuator with
  | .needleRun _ _ (some _) => seedable
  | .needleRun repo _ none => if excluded.contains repo then .ok 0 else .ok u32Max
  | _ => .ok u32Max

structure Repull (F : Type) where
  records : List (PeerRecord F)
  receivedAt : DateTime
  excluded : List String
  seedable : Except String Nat

structure GateInputs (F : Type) where
  excluded : List String
  seedable : Except String Nat
  repull : Except String (Repull F)
  writes : GateWrites

/-- The records of a second pull, when every peer that counts has answered and the launch is still seedable. -/
def repullRecords (federation : FederationConfig) (actuator : ActuatorConfig) (expired : List String)
    (proposed : Nat) (repull : Except String (Repull F)) : Except String (List (PeerRecord F)) := do
  let cycle ← repull
  if cycle.records.any (fun r => decide (peerClockSkewToleranceSeconds < numSeconds (r.observedAt - cycle.receivedAt)))
  then .error "a peer re-pull record exceeded clock skew tolerance"
  else if federation.peers.any (fun peer => !expired.contains peer && !cycle.records.any (·.hostId == peer))
  then .error "a non-expired peer did not answer the launch re-pull"
  else
    let capacity ← launchCapacity actuator cycle.excluded cycle.seedable
    if capacity < proposed then .error "workspace ownership changed before launch" else .ok cycle.records

/-- One call of the gate: who launches, from how many to how many, and under which total. -/
structure LaunchCall (F : Type) where
  federation : FederationConfig
  name : String
  account : AccountConfig F
  actuator : ActuatorConfig
  current : Nat
  desired : Nat
  controllerTotal : Nat
  stepLimit : Nat
  bound : Nat
  expired : List String
  accountFingerprint : String
  now : DateTime

namespace LaunchCall

variable (c : LaunchCall F)

def pool : String := poolKey c.account c.name c.federation.hostId

def seeded (capacity : Nat) : Nat := min c.desired (satAdd c.current capacity)

def gate (want : Nat) (inputs : GateInputs F) (pending : PendingMap) : PendingMap × Except String LaunchDecision :=
  gateLaunch pending c.federation.pendingLaunchesPath want c.stepLimit c.current (readPendingLaunches pending c.pool)
    c.accountFingerprint c.pool c.controllerTotal c.bound c.now
    (repullRecords c.federation c.actuator c.expired (min want c.stepLimit) inputs.repull) inputs.writes

end LaunchCall

/-- The count a launch may go to, and the pending-launches file it leaves. -/
def gateFederatedLaunch (c : LaunchCall F) (inputs : GateInputs F) (pending : PendingMap) :
    PendingMap × Except String Nat :=
  if c.desired ≤ c.current then (pending, .ok c.desired)
  else match launchCapacity c.actuator inputs.excluded inputs.seedable with
    | .error e => (pending, .error e)
    | .ok capacity =>
      if c.seeded capacity ≤ c.current then (pending, .ok c.current)
      else
        let (pending, gated) := c.gate (c.seeded capacity - c.current) inputs pending
        (pending, gated.map (fun g => satAdd c.current g.permitted))

end Subgov
