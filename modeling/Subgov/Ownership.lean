import Subgov.Federation
/-!
# Ownership — the pending-launches file and the launch gate

A reservation is published before the peers are pulled again, and what the gate permits is published after.  `LaunchGate`
is what the gate carries from its publication to its decision, so that the steps between can be interleaved with those of
other instances; `gateLaunch` runs them in one go.  A missing or unreadable file is the empty map.
-/
namespace Subgov

open FloatArith

variable {F : Type}

/-! ## The pending map -/

inductive PendingEntry
  | legacy (count : Nat)
  | reserved (count baseline : Nat)
  deriving DecidableEq

def PendingEntry.count : PendingEntry → Nat
  | .legacy count => count
  | .reserved count _ => count

abbrev PendingMap := BTreeMap PendingEntry

def readPendingLaunches (pending : PendingMap) (pool : String) : Nat := pending[pool]?.elim 0 (·.count)

def publishPendingEntry (pending : PendingMap) (pool : String) : Option PendingEntry → PendingMap
  | some entry => pending.insert pool entry
  | none => pending.erase pool

def pendingObserved (pending : PendingMap) (pool : String) (observedWorkers : Nat) : Bool :=
  match pending[pool]? with
  | some (.reserved count baseline) => decide (satAdd baseline count ≤ observedWorkers)
  | _ => false

def clearPendingLaunchesPool (pending : PendingMap) (pool : String) : PendingMap :=
  publishPendingEntry pending pool none

@[simp] theorem publishPendingEntry_getElem? (pending : PendingMap) (pool : String) (entry : Option PendingEntry)
    (p : String) : (publishPendingEntry pending pool entry)[p]? = if pool = p then entry else pending[p]? := by
  cases entry with
  | none =>
    simp only [publishPendingEntry, Std.ExtTreeMap.getElem?_erase]
    by_cases h : pool = p
    · simp [h]
    · simp [h]
  | some e =>
    simp only [publishPendingEntry, Std.ExtTreeMap.getElem?_insert]
    by_cases h : pool = p
    · simp [h]
    · simp [h]

theorem publishPendingEntry_self (pending : PendingMap) (pool : String) :
    publishPendingEntry pending pool pending[pool]? = pending := by
  refine Std.ExtTreeMap.ext_getElem? fun p => ?_
  rw [publishPendingEntry_getElem?]
  split
  · rename_i h
    rw [h]
  · rfl

@[simp] theorem publishPendingEntry_twice (pending : PendingMap) (pool : String) (e e' : Option PendingEntry) :
    publishPendingEntry (publishPendingEntry pending pool e) pool e' = publishPendingEntry pending pool e' := by
  refine Std.ExtTreeMap.ext_getElem? fun p => ?_
  simp only [publishPendingEntry_getElem?]
  split <;> rfl

/-! ## The gate -/

/-- The launches that fit under the total, after this instance's own and every peer's; the overshoot bound is not read. -/
def permittedLaunch (want ownWorkers ownPending peersCommitted controllerTotal _overshootBound : Nat) : Nat :=
  min want (controllerTotal - ownWorkers - ownPending - peersCommitted)

def recordCommitted (accountFingerprint : String) (record : PeerRecord F) : Nat :=
  satSum ((record.accounts.values.filter (fun a => a.accountFingerprint == accountFingerprint)).flatMap
    (fun a => a.pools.values.map (·.committed)))

def peersCommitted (accountFingerprint : String) (records : List (PeerRecord F)) : Nat :=
  satSum (records.map (recordCommitted accountFingerprint))

/-- A gate that has published its claim and not yet decided. -/
structure LaunchGate where
  want : Nat
  ownWorkers : Nat
  ownPending : Nat
  previous : Option PendingEntry
  deriving DecidableEq

namespace LaunchGate

def start (pending : PendingMap) (pool : String) (want localStepLimit ownWorkers ownCurrentPending : Nat) :
    LaunchGate :=
  { want := min want localStepLimit
    ownWorkers
    ownPending := ownCurrentPending
    previous := pending[pool]? }

/-- The count before the launches of the reservation that the gate extends. -/
def baseline (g : LaunchGate) : Nat :=
  match g.previous with
  | some (.reserved _ baseline) => baseline
  | _ => g.ownWorkers

def reservation (g : LaunchGate) (launches : Nat) : PendingEntry := .reserved (satAdd g.ownPending launches) g.baseline

def publish (g : LaunchGate) (pending : PendingMap) (pool : String) : PendingMap :=
  publishPendingEntry pending pool (some (g.reservation g.want))

def permitted (g : LaunchGate) (peersCommitted controllerTotal bound : Nat) : Nat :=
  permittedLaunch g.want g.ownWorkers g.ownPending peersCommitted controllerTotal bound

def settledEntry (g : LaunchGate) (permitted : Nat) : Option PendingEntry :=
  if permitted = 0 then g.previous else some (g.reservation permitted)

def settle (g : LaunchGate) (pending : PendingMap) (pool : String) (permitted : Nat) : PendingMap :=
  publishPendingEntry pending pool (g.settledEntry permitted)

end LaunchGate

structure LaunchAbandoned where
  time : DateTime
  pool : String
  requested : Nat
  peersCommitted : Nat
  controllerTotal : Nat
  overshootBound : Nat
  deriving DecidableEq

structure LaunchDecision where
  permitted : Nat
  abandoned : Bool
  events : List LaunchAbandoned
  deriving DecidableEq

structure GateWrites where
  publishes : Except String Unit
  settles : Except String Unit

/-- The whole gate: the file it leaves, and its decision. -/
def gateLaunch (pending : PendingMap) (pendingPath : String) (want localStepLimit ownWorkers ownCurrentPending : Nat)
    (accountFingerprint pool : String) (controllerTotal bound : Nat) (now : DateTime)
    (repull : Except String (List (PeerRecord F))) (writes : GateWrites) :
    PendingMap × Except String LaunchDecision :=
  let gate := LaunchGate.start pending pool want localStepLimit ownWorkers ownCurrentPending
  match writes.publishes with
  | .error e => (pending, .error s!"failed to publish pending launches {pendingPath}: {e}")
  | .ok () =>
    let published := gate.publish pending pool
    match repull with
    | .error error =>
      match writes.settles with
      | .error e => (published, .error e)
      | .ok () => (gate.settle published pool 0, .error s!"peer re-pull failed; launch abandoned: {error}")
    | .ok records =>
      let committed := peersCommitted accountFingerprint records
      let permitted := gate.permitted committed controllerTotal bound
      if permitted = 0 then
        match writes.settles with
        | .error e => (published, .error s!"failed to withdraw pending launches {pendingPath}: {e}")
        | .ok () => (gate.settle published pool 0, .ok
          { permitted := 0
            abandoned := true
            events := [{
              time := now
              pool
              requested := gate.want
              peersCommitted := committed
              controllerTotal
              overshootBound := bound }] })
      else
        match writes.settles with
        | .error e => (published, .error s!"failed to publish pending launches {pendingPath}: {e}")
        | .ok () => (gate.settle published pool permitted, .ok { permitted, abandoned := false, events := [] })

/-! ## Step limits -/

def localStepLimit (config : Config F) (account : AccountConfig F) : Nat :=
  match account.fleet.hosts, config.federation with
  | some hosts, some federation =>
    (hosts[federation.hostId]?.bind (·.maxScaleUpPerCycle)).getD account.fleet.maxScaleUpPerCycle
  | _, _ => account.fleet.maxScaleUpPerCycle

def overshootBound (perHostStepUp : List Nat) : Nat := satSum perHostStepUp

def stepUpBound (config : Config F) (account : AccountConfig F) : Nat :=
  match account.fleet.hosts with
  | some hosts =>
    let hostIds := hosts.keys ++ (config.federation.elim [] (fun f => f.hostId :: f.peers))
    overshootBound (hostIds.dedup.map (fun id =>
      (hosts[id]?.bind (·.maxScaleUpPerCycle)).getD account.fleet.maxScaleUpPerCycle))
  | none => overshootBound (List.replicate (config.federation.elim 1 (fun f => f.peers.length + 1))
      account.fleet.maxScaleUpPerCycle)

end Subgov
