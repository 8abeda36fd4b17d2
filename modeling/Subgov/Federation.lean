import Subgov.Placement
import Mathlib.Data.String.Basic
/-!
# Federation — peer records and the total every instance derives

A peer record carries, per account and pool, the observed workers, the launches in flight and one quota sample.
`sharedAccountTotal` turns the hosts and samples of an account into one controller total and its split.  A record keeps
here the fields that some modelled function reads.
-/
namespace Subgov

open FloatArith

variable {F : Type} [Flt F]

/-! ## The record -/

structure PeerQuotaSample (F : Type) where
  window : String
  usedFraction : F
  resetsAt : DateTime
  observedAt : DateTime

structure PeerReadyDemand where
  readyBeads : Nat := 0
  eligibleBacklogCapacity : Option Nat := none

def PeerReadyDemand.workerBound (d : PeerReadyDemand) : Nat := d.eligibleBacklogCapacity.getD d.readyBeads

structure PeerPool (F : Type) where
  governedWorkers : Nat
  pendingLaunches : Nat
  desired : Nat
  quotaSample : Option (PeerQuotaSample F)
  readyDemand : PeerReadyDemand

def PeerPool.committed (p : PeerPool F) : Nat := satAdd p.governedWorkers p.pendingLaunches

structure PeerAccount (F : Type) where
  accountId : String
  accountFingerprint : String
  pools : BTreeMap (PeerPool F)

structure PeerRecord (F : Type) where
  hostId : String
  observedAt : DateTime
  accounts : BTreeMap (PeerAccount F)
  hostCeiling : Option Nat

/-- A record as it is published, with the fields the total does not read. -/
structure PublishedRecord (F : Type) extends PeerRecord F where
  recordSeq : Nat
  /-- The origins of the workspaces the host will seed, by path. -/
  workspaceOrigins : BTreeMap String

def peerClockSkewToleranceSeconds : Int := 300

/-! ## Samples -/

/-- Later first, then the larger fraction, then the smaller window id. -/
def samplePrecedence (left right : PeerQuotaSample F) : Ordering :=
  (compare left.observedAt right.observedAt).then
    (((Flt.partialCmp left.usedFraction right.usedFraction).getD .eq).then (compare right.window left.window))

def freshestSample (samples : List (PeerQuotaSample F)) : Option (PeerQuotaSample F) :=
  Select.maxBy samplePrecedence samples

def sampleDisagreementFraction : F := Flt.ofRat (1 / 20)

/-- The freshest sample's fraction, or the largest one when it disagrees too far. -/
def freshestUsedFraction (samples : List (PeerQuotaSample F)) : Option F :=
  (freshestSample samples).map (fun freshest =>
    let base := freshest.usedFraction
    let largest := (samples.filter (fun s => Flt.isFinite s.usedFraction)).foldl
      (fun largest s => Flt.max largest s.usedFraction) base
    if (sampleDisagreementFraction : F) < largest - base then largest else base)

/-! ## The split -/

structure FederationHost where
  hostId : String
  workers : Nat
  ceiling : Nat
  readyDemand : Nat
  deriving DecidableEq

def hostMap {V : Type} (value : FederationHost → V) (hosts : List FederationHost) : BTreeMap V :=
  hosts.foldl (fun m h => m.insert h.hostId (value h)) ∅

def sortedHostIds (hosts : List FederationHost) : List String := (hosts.map (·.hostId)).insertionSort (· ≤ ·)

/-- The work a host can carry: its reserve ceiling, never past its workers and ready demand. -/
def shareCap (h : FederationHost) : Nat := min h.ceiling (satAdd h.workers h.readyDemand)

/-- The base each host keeps, the budget to distribute, the cap of each share and the hosts to share it: a total that
holds or grows distributes the surplus, a shrinking one everything. -/
def splitPlan (total : Nat) (hosts : List FederationHost) :
    BTreeMap Nat × Nat × BTreeMap Nat × List String :=
  let ids := sortedHostIds hosts
  let workersOf := hostMap (·.workers) hosts
  let readyOf := hostMap (·.readyDemand) hosts
  let capOf := hostMap shareCap hosts
  let currentTotal := satSum workersOf.values
  if currentTotal ≤ total then
    let shareCapOf := hostMap (fun h => capOf.getD h.hostId 0 - workersOf.getD h.hostId 0) hosts
    (workersOf, total - currentTotal, shareCapOf, ids.filter (fun id => decide (0 < shareCapOf.getD id 0)))
  else
    (hostMap (fun _ => 0) hosts, total, capOf, ids.filter (fun id => decide (0 < readyOf.getD id 0)))

def splitAccountTotal (F : Type) [Flt F] (total : Nat) (hosts : List FederationHost) : BTreeMap Nat :=
  let (baseOf, budget, shareCapOf, eligible) := splitPlan total hosts
  let headroomOf : BTreeMap F := hostMap (fun h => Flt.ofNat (h.ceiling - h.workers)) hosts
  let distributed := distribute budget eligible headroomOf shareCapOf (sortedHostIds hosts)
  (sortedHostIds hosts).foldl (fun m id => m.insert id (satAdd (baseOf.getD id 0) (distributed.getD id 0))) ∅

/-! ## One total -/

structure SharedAccountDecision (F : Type) where
  total : Nat
  usedFraction : Option F
  denominator : Nat
  stale : Bool
  shares : BTreeMap Nat

/-- A snapshot of one window without credits or pressure, the only inputs the shared total has. -/
def sharedSnapshot (samples : List (PeerQuotaSample F)) (now : DateTime) : QuotaSnapshot F :=
  match freshestSample samples with
  | some freshest =>
    { observedAt := freshest.observedAt
      fresh := true
      windows := [{
        id := freshest.window
        usedFraction := (freshestUsedFraction samples).getD freshest.usedFraction
        resetsAt := freshest.resetsAt
        durationMinutes := none
        reached := false }]
      eligibleBacklogCapacity := none
      resetCredits := none
      backpressure := none
      saturation := none }
  | none =>
    { observedAt := now
      fresh := false
      windows := []
      eligibleBacklogCapacity := none
      resetCredits := none
      backpressure := none
      saturation := none }

def sharedDenominator (hosts : List FederationHost) : Nat := satSum (hosts.map (·.workers))

def sharedAccountTotal (accountName : String) (config : AccountConfig F) (prior : AccountState F)
    (hosts : List FederationHost) (samples : List (PeerQuotaSample F)) (now : DateTime) :
    Except String (SharedAccountDecision F) :=
  (evaluate accountName config (sharedSnapshot samples now) prior (sharedDenominator hosts) now).map (fun decision =>
    { total := decision.desiredWorkers
      usedFraction := freshestUsedFraction samples
      denominator := sharedDenominator hosts
      stale := decision.stale
      shares := splitAccountTotal F decision.desiredWorkers hosts })

/-! ## The local record -/

structure StatusDigest where
  currentWorkers : Option Nat
  desiredWorkers : Option Nat

def needleRunPrefix : ActuatorConfig → Option String
  | .needleRun _ identifierPrefix _ => identifierPrefix
  | _ => none

def needleStatusPrefix : WorkerObserverConfig → Option String
  | .needleStatus identifierPrefix => identifierPrefix
  | _ => none

/-- The worker prefix of an account on a host: the actuator's, else the observer's. -/
def identifierPrefix (account : AccountConfig F) (localHost : String) : Option String :=
  let actuator := match account.fleet.hosts with
    | some hosts => hosts[localHost]?.bind (fun h => needleRunPrefix h.actuator)
    | none => needleRunPrefix account.fleet.actuator
  actuator.or (match account.fleet.hosts with
    | some hosts => hosts[localHost]?.bind (fun h => needleStatusPrefix h.observer)
    | none => account.fleet.observer.bind needleStatusPrefix)

def poolKey (account : AccountConfig F) (name localHost : String) : String :=
  (identifierPrefix account localHost).getD name

def freshestWindow (state : State F) (account : String) : Option (PeerQuotaSample F) :=
  (state.accounts[account]?.bind (fun s => Select.maxBy (fun left right : String × WindowSample F =>
    (compare left.2.observedAt right.2.observedAt).then (compare right.1 left.1)) s.windows.toList)).map (fun w =>
      { window := w.1, usedFraction := w.2.usedFraction, resetsAt := w.2.resetsAt, observedAt := w.2.observedAt })

end Subgov
