import Subgov.Model
/-!
# Config — the account policy the controller reads

The numeric policy of one account with the checks `Config::validate` makes on it.  A utilization policy carries the fact
that an account target was given, so that resolving a window's target cannot fail, and a fleet that its maximum is a
`u32`.
-/
namespace Subgov

open FloatArith

variable {F : Type} [Flt F]

inductive Strategy
  | linearToReset
  | ceilingOnly
  deriving DecidableEq

inductive StaleBehavior
  | hold
  | minWorkers
  deriving DecidableEq

inductive ObserverReconciliation
  | strict
  | clamp
  deriving DecidableEq

inductive WorkerObserverConfig
  | static (workers : Nat)
  | file
  | command
  | needleStatus (identifierPrefix : Option String)
  deriving DecidableEq

inductive ActuatorConfig
  | none
  | targetFile
  | command (reconcileUnchanged : Bool)
  | needleRun (repo : String) (identifierPrefix : Option String) (seedDemandState : Option String)
  deriving DecidableEq

structure WindowPolicy (F : Type) where
  burnRateWindowSeconds : Option Nat
  enabled : Option Bool
  targetUtilization : Option F
  reserveFraction : Option F
  strategy : Option Strategy

structure BackpressureConfig (F : Type) where
  holdAbove : F
  stepDownAbove : F
  recoverBelow : F
  quietCycles : Nat
  signalLossReleaseSeconds : Nat

structure ZaiSaturationConfig (F : Type) where
  stepWorkers : Nat
  dwellSeconds : Nat
  minimumWindowSeconds : Nat
  minimumAttempts : Nat
  plateauFraction : F
  concurrencyFraction : F
  reprobeSeconds : Nat

structure BankedResetConfig (F : Type) where
  enabled : Bool
  fullSpeed : Bool
  minimumPaceMultiplier : F
  redeemAtUtilization : F
  deadlineSafetySeconds : Nat

structure UtilizationConfig (F : Type) where
  targetUtilization : Option F
  reserveFraction : Option F
  strategy : Strategy
  staleAfterSeconds : Nat
  staleBehavior : StaleBehavior
  minimumSampleSeconds : Nat
  backpressure : Option (BackpressureConfig F)
  zaiSaturation : Option (ZaiSaturationConfig F)
  windows : BTreeMap (WindowPolicy F)
  targetGiven : targetUtilization.isSome = true ∨ reserveFraction.isSome = true

structure ResourceReserveConfig (F : Type) where
  cpuReserveFraction : F
  memReserveMb : Nat

structure HostConfig (F : Type) where
  maxWorkers : Option Nat
  maxScaleUpPerCycle : Option Nat
  maxScaleDownPerCycle : Option Nat
  resourceReserve : Option (ResourceReserveConfig F)
  resourceSource : Bool
  observer : WorkerObserverConfig
  actuator : ActuatorConfig

structure FleetConfig (F : Type) where
  minWorkers : Nat
  maxWorkers : Nat
  bootstrapWorkers : Nat
  maxScaleUpPerCycle : Nat
  maxScaleDownPerCycle : Nat
  observer : Option WorkerObserverConfig
  actuator : ActuatorConfig
  observerReconciliation : ObserverReconciliation
  hosts : Option (BTreeMap (HostConfig F))
  takeover : List String
  takeoverHelper : Bool := false
  maxWorkersU32 : maxWorkers ≤ u32Max

structure AccountConfig (F : Type) where
  fleet : FleetConfig F
  utilization : UtilizationConfig F
  bankedResets : BankedResetConfig F

structure FederationConfig where
  hostId : String
  /-- The peers' host ids, in configuration order. -/
  peers : List String
  accountIdentities : BTreeMap String := ∅
  /-- The primary instance keeps the configured worker prefixes. -/
  primary : Bool := true
  peerStaleAfterSeconds : Nat := 120
  peerExpirySeconds : Nat := 1800
  /-- The owner of a repository origin that two hosts list. -/
  repoOwners : BTreeMap String := ∅
  /-- The resolved path of the pending-launches file, as its errors name it. -/
  pendingLaunchesPath : String := "federation-pending-launches.json"

structure Config (F : Type) where
  accounts : BTreeMap (AccountConfig F)
  federation : Option FederationConfig

/-! ## The policy of one window -/

structure ResolvedPolicy (F : Type) where
  burnRateWindowSeconds : Option Nat
  target : F
  strategy : Strategy

/-- A target given as a target or as a reserve below one. -/
def givenTarget (target reserve : Option F) : Option F := target.or (reserve.map (fun r => Flt.ofNat 1 - r))

theorem givenTarget_isSome {target reserve : Option F} (h : target.isSome = true ∨ reserve.isSome = true) :
    (givenTarget target reserve).isSome = true := by
  cases target <;> cases reserve <;> simp_all [givenTarget]

namespace UtilizationConfig

def accountTarget (u : UtilizationConfig F) : F :=
  (givenTarget u.targetUtilization u.reserveFraction).get (givenTarget_isSome u.targetGiven)

/-- The policy of a window, `none` when an override disables it. -/
def policyFor (u : UtilizationConfig F) (id : String) : Option (ResolvedPolicy F) :=
  let overridePolicy := u.windows[id]?
  if overridePolicy.bind (·.enabled) = some false then none
  else some {
    burnRateWindowSeconds := overridePolicy.bind (·.burnRateWindowSeconds)
    target := (overridePolicy.bind (fun p => givenTarget p.targetUtilization p.reserveFraction)).getD u.accountTarget
    strategy := (overridePolicy.bind (·.strategy)).getD u.strategy }

end UtilizationConfig

/-! ## Validation -/

def validateDuration (value : Nat) (context : String) : Except String Unit := do
  ensure (value != 0) s!"{context} must be positive"
  ensure (value ≤ i64Max) s!"{context} is too large"

def validateTarget (target reserve : Option F) (context : String) (required : Bool) : Except String Unit := do
  ensure (!(target.isSome && reserve.isSome)) s!"{context}: set target_utilization or reserve_fraction, not both"
  ensure (!(required && target.isNone && reserve.isNone))
    s!"{context}: target_utilization or reserve_fraction is required"
  ensure (target.all (fun t => isFraction t && !Flt.beq t Flt.zero))
    s!"{context}: target_utilization must be in (0, 1]"
  ensure (reserve.all (fun r => Flt.isFinite r && decide (Flt.zero ≤ r) && decide (r < Flt.ofNat 1)))
    s!"{context}: reserve_fraction must be in [0, 1)"

def validateBackpressure (policy : BackpressureConfig F) (account : String) : Except String Unit := do
  ensure (isFraction policy.recoverBelow)
    s!"account {account}: utilization.backpressure.recover_below must be in [0, 1]"
  ensure (isFraction policy.holdAbove) s!"account {account}: utilization.backpressure.hold_above must be in [0, 1]"
  ensure (isFraction policy.stepDownAbove)
    s!"account {account}: utilization.backpressure.step_down_above must be in [0, 1]"
  ensure (decide (policy.recoverBelow < policy.holdAbove) && decide (policy.holdAbove < policy.stepDownAbove))
    s!"account {account}: utilization.backpressure thresholds must satisfy recover_below < hold_above < step_down_above"
  ensure (policy.quietCycles != 0) s!"account {account}: utilization.backpressure.quiet_cycles must be >= 1"
  validateDuration policy.signalLossReleaseSeconds
    s!"account {account}: utilization.backpressure.signal_loss_release_seconds"

def validateZaiSaturation (policy : ZaiSaturationConfig F) (name : String) : Except String Unit := do
  let fraction (field : String) (value : F) :=
    ensure (Flt.isFinite value && decide (Flt.zero ≤ value) && decide (value < Flt.ofNat 1))
      s!"account {name}: utilization.zai_saturation.{field} must be in [0, 1)"
  ensure (policy.stepWorkers != 0 && policy.minimumAttempts != 0)
    s!"account {name}: utilization.zai_saturation step_workers and minimum_attempts must be positive"
  validateDuration policy.dwellSeconds s!"account {name}: utilization.zai_saturation.dwell_seconds"
  validateDuration policy.minimumWindowSeconds s!"account {name}: utilization.zai_saturation.minimum_window_seconds"
  validateDuration policy.reprobeSeconds s!"account {name}: utilization.zai_saturation.reprobe_seconds"
  fraction "plateau_fraction" policy.plateauFraction
  fraction "concurrency_fraction" policy.concurrencyFraction

def validateBankedResets (policy : BankedResetConfig F) (name : String) : Except String Unit := do
  ensure (Flt.isFinite policy.minimumPaceMultiplier && !decide (policy.minimumPaceMultiplier < Flt.ofNat 1))
    s!"account {name}: banked_resets.minimum_pace_multiplier must be finite and >= 1"
  ensure (isFraction policy.redeemAtUtilization && !Flt.beq policy.redeemAtUtilization Flt.zero)
    s!"account {name}: banked_resets.redeem_at_utilization must be in (0, 1]"
  ensure (policy.deadlineSafetySeconds ≤ i64Max)
    s!"account {name}: banked_resets.deadline_safety_seconds is too large"

def checkAll {α : Type} (f : α → Except String Unit) : List α → Except String Unit
  | [] => .ok ()
  | x :: xs => do f x; checkAll f xs

@[simp] theorem checkAll_ok {α : Type} {f : α → Except String Unit} :
    ∀ {xs : List α}, checkAll f xs = .ok () ↔ ∀ x ∈ xs, f x = .ok ()
  | [] => by simp [checkAll]
  | x :: xs => by rw [checkAll, andThen_ok, @checkAll_ok _ f xs, List.forall_mem_cons]

def validateHost (host : HostConfig F) (account hostName : String) (accountMaxWorkers : Nat) : Except String Unit := do
  ensure (!hostName.isEmpty) s!"account {account}: host keys must be non-empty"
  host.maxWorkers.elim (.ok ()) (fun hostMaxWorkers => ensure (hostMaxWorkers ≤ accountMaxWorkers)
    (s!"account {account} host {hostName}: max_workers ({hostMaxWorkers}) must not exceed the account's " ++
      s!"max_workers ({accountMaxWorkers})"))
  ensure (!(host.resourceSource && host.resourceReserve.isNone))
    s!"account {account} host {hostName}: resource_reserve is required when resource_source is set"

def validateFleet (fleet : FleetConfig F) (account : String) : Except String Unit := do
  ensure (fleet.observer.isSome || fleet.hosts.isSome)
    s!"account {account}: fleet.observer is required when fleet.hosts is not configured"
  ensure (!(fleet.observer.isSome && fleet.hosts.isSome))
    s!"account {account}: fleet.observer and fleet.hosts are mutually exclusive"
  ensure (!(fleet.hosts.isSome && fleet.actuator != ActuatorConfig.none))
    s!"account {account}: fleet.actuator and fleet.hosts are mutually exclusive"
  ensure (fleet.hosts.all (fun hosts => !hosts.isEmpty))
    s!"account {account}: fleet.hosts requires at least one host when present"
  checkAll (fun host => validateHost host.2 account host.1 fleet.maxWorkers) (fleet.hosts.elim [] (·.toList))

def validateWindowPolicy (u : UtilizationConfig F) (name window : String) (policy : WindowPolicy F) :
    Except String Unit := do
  ensure (policy.burnRateWindowSeconds.all (fun s => u.minimumSampleSeconds ≤ s && s ≤ i64Max))
    s!"account {name} window {window}: burn_rate_window_seconds must be >= minimum_sample_seconds and fit i64"
  validateTarget policy.targetUtilization policy.reserveFraction s!"account {name} window {window}" false

/-- The account's part of `Config::validate`, the transport and argument-vector checks aside. -/
def AccountConfig.validate (account : AccountConfig F) (name : String) : Except String Unit := do
  ensure (account.fleet.minWorkers ≤ account.fleet.maxWorkers) s!"account {name}: max_workers must be >= min_workers"
  ensure (account.fleet.bootstrapWorkers ≤ account.fleet.maxWorkers)
    s!"account {name}: bootstrap_workers must be <= max_workers"
  validateDuration account.utilization.staleAfterSeconds s!"account {name}: utilization.stale_after_seconds"
  validateDuration account.utilization.minimumSampleSeconds s!"account {name}: utilization.minimum_sample_seconds"
  validateTarget account.utilization.targetUtilization account.utilization.reserveFraction s!"account {name}" true
  account.utilization.zaiSaturation.elim (.ok ()) (validateZaiSaturation · name)
  account.utilization.backpressure.elim (.ok ()) (validateBackpressure · name)
  checkAll (fun w => validateWindowPolicy account.utilization name w.1 w.2) account.utilization.windows.toList
  validateFleet account.fleet name
  validateBankedResets account.bankedResets name

namespace AccountConfig

variable {account : AccountConfig F} {name : String}

theorem validate_bounds (h : account.validate name = .ok ()) :
    account.fleet.minWorkers ≤ account.fleet.maxWorkers := by
  simp only [validate, andThen_ok, ensure_ok, decide_eq_true_eq] at h
  exact h.1

theorem validate_zaiSaturation (h : account.validate name = .ok ()) {policy : ZaiSaturationConfig F}
    (hpolicy : account.utilization.zaiSaturation = some policy) : validateZaiSaturation policy name = .ok () := by
  simp only [validate, andThen_ok, hpolicy, Option.elim_some] at h
  exact h.2.2.2.2.2.1

theorem validate_banked (h : account.validate name = .ok ()) :
    validateBankedResets account.bankedResets name = .ok () := by
  simp only [validate, andThen_ok] at h
  exact h.2.2.2.2.2.2.2.2.2

/-- **A host's own maximum is within its account's.** -/
theorem validate_host (h : account.validate name = .ok ()) {hosts : BTreeMap (HostConfig F)}
    (hhosts : account.fleet.hosts = some hosts) {entry : String × HostConfig F} (hentry : entry ∈ hosts.toList) :
    entry.2.maxWorkers.getD account.fleet.maxWorkers ≤ account.fleet.maxWorkers := by
  simp only [validate, andThen_ok] at h
  have hfleet : validateFleet account.fleet name = .ok () := h.2.2.2.2.2.2.2.2.1
  simp only [validateFleet, andThen_ok, checkAll_ok, hhosts, Option.elim_some] at hfleet
  have hhost := hfleet.2.2.2.2 entry hentry
  simp only [validateHost, andThen_ok] at hhost
  cases hmax : entry.2.maxWorkers with
  | none => exact Nat.le_refl _
  | some hostMax =>
    have hcap := hhost.2.1
    rw [hmax, Option.elim_some, ensure_ok, decide_eq_true_eq] at hcap
    exact hcap

theorem redeem_pos [LawfulFlt F] (h : account.validate name = .ok ()) :
    ¬ account.bankedResets.redeemAtUtilization ≤ Flt.zero := by
  have hb := validate_banked h
  simp only [validateBankedResets, andThen_ok, ensure_ok, Bool.and_eq_true, Bool.not_eq_true', isFraction,
    Flt.within, decide_eq_true_eq] at hb
  obtain ⟨-, ⟨⟨-, h0, -⟩, hne⟩, -⟩ := hb
  intro hle
  rw [LawfulFlt.beq_of_le_of_le _ _ hle h0] at hne
  cases hne

end AccountConfig

end Subgov
