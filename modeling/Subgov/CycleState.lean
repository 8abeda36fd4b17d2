import Subgov.Arbitration
import Subgov.Cycle
import Subgov.PolicyRest
/-!
# CycleState — what a failed cycle leaves

A cycle writes the policy states right after its decision and everything else at the very end, so that a failure between
the two leaves the prior state with the policies' part replaced (`cycle_error_state`), which is as it was where the
policies rest (`failed_cycle_untouched`).
-/
namespace Subgov

open FloatArith Effect

variable {F υ : Type} [Flt F] {view : World F → υ}

omit [Flt F] in
theorem keeps_onFleet {α : Type} (hv : ∀ (w : World F) (log : FleetLog), view { w with log } = view w)
    (wrap : String → AccountFailure) (m : FleetM α) : Keeps view (onFleet wrap m : CycleM F α) :=
  Keeps.focus hv wrap m

omit [Flt F] in
theorem keeps_onPending {α : Type} (hv : ∀ (w : World F) (pending : PendingMap), view { w with pending } = view w)
    (wrap : String → AccountFailure) (step : PendingMap → PendingMap × Except String α) :
    Keeps view (onPending wrap step : CycleM F α) :=
  Keeps.ofStep fun w => hv w _

namespace AccountCycle

variable {c : AccountCycle F} {o : Observation F} {w : World F}

/-- Where everything an observation holds comes from. -/
structure ObservedFrom (c : AccountCycle F) (w : World F) (o : Observation F) (log : FleetLog) : Prop where
  source : c.inputs.source = .ok o.snapshot
  workers : run c.observeWorkers w.log = (.ok (o.hostCurrent, o.workers), log)
  pending : c.readPending w.pending o.hostCurrent o.workers = (o.pending, o.observedPool)
  prior : o.prior = w.state.account c.name
  unowned : (if o.hostCurrent.isSome then .ok 0 else unownedWorkers c.account.fleet c.inputs.fleet.unowned) =
    .ok o.unowned
  decision : evaluatePool c.name c.account o.snapshot o.prior o.workers o.unowned c.inputs.now = .ok o.decision
  shared : c.sharedView o.snapshot o.prior o.hostCurrent o.workers = .ok o.shared

omit [Flt F] in
theorem ok_of_run_onFleet {α : Type} {wrap : String → AccountFailure} {m : FleetM α} {w w' : World F} {a : α}
    (h : run (onFleet wrap m : CycleM F α) w = (.ok a, w')) :
    ∃ log, run m w.log = (.ok a, log) ∧ w' = { w with log } := by
  unfold onFleet focus at h
  rw [run_ofStep] at h
  generalize run m w.log = r at h ⊢
  rcases r with ⟨_ | b, log⟩
  · cases h
  · cases h
    exact ⟨log, rfl, rfl⟩

/-- **What a completed observation read**: only the log has changed. -/
theorem observe_ok {w' : World F} (h : run c.observe w = (.ok o, w')) :
    ∃ log, w' = { w with log } ∧ ObservedFrom c w o log := by
  unfold observe at h
  obtain ⟨snapshot, _, rsource, h⟩ := ok_of_run_bind h
  obtain ⟨hsource, rfl⟩ := ok_of_run_lift rsource
  obtain ⟨⟨hostCurrent, workers⟩, _, rfleet, h⟩ := ok_of_run_bind h
  obtain ⟨log, hfleet, rfl⟩ := ok_of_run_onFleet rfleet
  obtain ⟨_, _, hget, h⟩ := ok_of_run_bind h
  cases hget
  obtain ⟨unowned, _, runowned, h⟩ := ok_of_run_bind h
  obtain ⟨hunowned, rfl⟩ := ok_of_run_lift runowned
  obtain ⟨decision, _, rdecision, h⟩ := ok_of_run_bind h
  obtain ⟨hdecision, rfl⟩ := ok_of_run_lift rdecision
  obtain ⟨shared, _, rshared, h⟩ := ok_of_run_bind h
  obtain ⟨hshared, rfl⟩ := ok_of_run_lift rshared
  cases h
  exact ⟨log, rfl, hsource, hfleet, rfl, rfl, hunowned, hdecision, hshared⟩

theorem keeps_observe (hv : ∀ (w : World F) (log : FleetLog), view { w with log } = view w) :
    Keeps view c.observe := by
  unfold observe
  refine (Keeps.lift _ _).bind fun _ => (keeps_onFleet hv _ _).bind fun ⟨_, _⟩ => Keeps.get.bind fun _ => ?_
  refine (Keeps.lift _ _).bind fun _ => (Keeps.lift _ _).bind fun _ => (Keeps.lift _ _).bind fun _ => ?_
  exact Keeps.pure _

omit [Flt F] in
theorem keeps_gateTarget (hv : ∀ (w : World F) (pending : PendingMap), view { w with pending } = view w)
    (call : LaunchCall F) : Keeps view (c.gateTarget o call) := by
  unfold gateTarget
  split
  · exact keeps_onPending hv _ _
  · exact Keeps.pure _

omit [Flt F] in
theorem keeps_fleetTarget (hv : ∀ (w : World F) (pending : PendingMap), view { w with pending } = view w)
    (desired : Nat) : Keeps view (c.fleetTarget o desired) := by
  unfold fleetTarget
  split
  · exact Keeps.pure _
  · exact keeps_gateTarget hv _

theorem keeps_placeHosts (hv : ∀ (w : World F) (pending : PendingMap), view { w with pending } = view w)
    (desired : Nat) : Keeps view (c.placeHosts o desired) := by
  unfold placeHosts
  split
  · exact Keeps.pure _
  · refine (Keeps.lift _ _).bind fun placements => ?_
    split
    · exact Keeps.pure _
    · exact (keeps_gateTarget hv _).bind fun _ => Keeps.pure _

omit [Flt F] in
theorem keeps_actuate (hv : ∀ (w : World F) (log : FleetLog), view { w with log } = view w) (desired : Nat)
    (placements : Option (List (HostPlacement F))) : Keeps view (c.actuate o desired placements) := by
  unfold actuate
  split
  · exact Keeps.pure _
  · split
    · exact (keeps_onFleet hv _ _).bind fun _ => (Keeps.lift _ _).bind fun _ => Keeps.pure _
    · exact (keeps_onFleet hv _ _).bind fun _ => Keeps.pure _

/-- **Only the record writes the state**, and nothing can fail after it. -/
theorem failsClean_finish (o : Observation F) (d : Decision F) (placements : Option (List (HostPlacement F))) :
    FailsClean (fun w : World F => w.state) (c.finish o d placements) := by
  unfold finish
  refine FailsClean.bind (keeps_actuate (fun _ _ => rfl) _ _) fun actuated => ?_
  refine FailsClean.bind (Keeps.lift _ _) fun _ => ?_
  exact (FailsClean.modify _).bind_pure

theorem failsClean_act (o : Observation F) (d : Decision F) : FailsClean (fun w : World F => w.state) (c.act o d) := by
  unfold act
  refine FailsClean.bind (keeps_fleetTarget (fun _ _ => rfl) _) fun desired => ?_
  refine FailsClean.bind (Keeps.lift _ _) fun _ => ?_
  refine FailsClean.bind (keeps_placeHosts (fun _ _ => rfl) _) fun placements => ?_
  exact failsClean_finish _ _ _

def stored (c : AccountCycle F) (o : Observation F) (w : World F) : World F :=
  { w with state := c.storePolicies (c.policies o) w.state }

theorem run_cycle_ok {w' : World F} (h : run c.observe w = (.ok o, w')) :
    run c.cycle w = run (c.act o (c.policies o).decision) (c.stored o w') :=
  run_bind_ok h

theorem run_cycle_error {w' : World F} {e : AccountFailure} (h : run c.observe w = (.error e, w')) :
    run c.cycle w = (.error e, w') :=
  run_bind_error h

/-- **What a failed cycle leaves**: the prior state, with the policy states stored when the account was observed. -/
theorem cycle_error_state {e : AccountFailure} (h : (run c.cycle w).1 = .error e) :
    (run c.cycle w).2.state = match (run c.observe w).1 with
      | .ok o => c.storePolicies (c.policies o) w.state
      | .error _ => w.state := by
  have hkeeps : (run c.observe w).2.state = w.state := keeps_observe (fun _ _ => rfl) w
  rcases hobserve : run c.observe w with ⟨_ | o, w'⟩
  · rw [run_cycle_error hobserve]
    rw [hobserve] at hkeeps
    exact hkeeps
  · rw [run_cycle_ok hobserve] at h ⊢
    rw [hobserve] at hkeeps
    rw [← hkeeps]
    exact failsClean_act o _ _ e h

/-- The policies return the states already stored, or are never reached. -/
def PoliciesIdle (c : AccountCycle F) (w : World F) : Prop :=
  ∀ o, (run c.observe w).1 = .ok o →
    (∀ next ∈ (c.policies o).zaiSaturation, (w.state.account c.name).zaiSaturation = some next) ∧
    ∀ next ∈ (c.policies o).backpressure, (w.state.account c.name).backpressure = next

omit [Flt F] in
theorem hosts_storePolicies (r : PolicyResult F) (s : State F) (n : String) :
    (c.storePolicies r s).hosts n = s.hosts n := by
  unfold storePolicies
  cases r.zaiSaturation <;> cases r.backpressure <;> simp

omit [Flt F] in
theorem account_storePolicies (r : PolicyResult F) (s : State F) :
    (c.storePolicies r s).account c.name = { s.account c.name with
      zaiSaturation := r.zaiSaturation.or (s.account c.name).zaiSaturation
      backpressure := r.backpressure.getD (s.account c.name).backpressure } := by
  unfold storePolicies
  cases r.zaiSaturation <;> cases r.backpressure <;> simp

/-- The account's state and its hosts' are after the cycle what they were before it. -/
def Untouched (c : AccountCycle F) (w : World F) : Prop :=
  (run c.cycle w).2.state.account c.name = w.state.account c.name ∧
    (run c.cycle w).2.state.hosts c.name = w.state.hosts c.name

/-- A failed cycle leaves the account's state as it was exactly when its policies were idle. -/
theorem untouched_iff_idle {e : AccountFailure} (h : (run c.cycle w).1 = .error e) :
    Untouched c w ↔ PoliciesIdle c w := by
  unfold Untouched PoliciesIdle
  rw [cycle_error_state h]
  generalize (run c.observe w).1 = observed
  cases observed with
  | error e => simp
  | ok o =>
    simp only [hosts_storePolicies, account_storePolicies, Except.ok.injEq, forall_eq', and_true]
    generalize c.policies o = r
    generalize w.state.account c.name = s
    constructor
    · intro hs
      have hz := congrArg AccountState.zaiSaturation hs
      have hb := congrArg AccountState.backpressure hs
      simp only at hz hb
      refine ⟨fun next hn => ?_, fun next hn => ?_⟩
      · rw [Option.mem_def] at hn
        rw [hn, Option.some_or] at hz
        exact hz.symm
      · rw [Option.mem_def] at hn
        rw [hn, Option.getD_some] at hb
        exact hb.symm
    · rintro ⟨hz, hb⟩
      have hz' : r.zaiSaturation.or s.zaiSaturation = s.zaiSaturation := by
        cases hr : r.zaiSaturation with
        | none => rfl
        | some next => exact (hz next hr).symm
      have hb' : r.backpressure.getD s.backpressure = s.backpressure := by
        cases hr : r.backpressure with
        | none => rfl
        | some next => exact (hb next hr).symm
      rw [hz', hb']

/-- The snapshot of an observed account leaves every configured policy's stored state alone. -/
def PoliciesRest (c : AccountCycle F) (w : World F) : Prop :=
  ∀ o, (run c.observe w).1 = .ok o →
    (∀ policy ∈ c.account.utilization.zaiSaturation, ∃ s ∈ (w.state.account c.name).zaiSaturation,
      ExperimentsRest c.account policy o.snapshot (w.state.account c.name) c.inputs.now o.workers o.unowned s) ∧
    ∀ policy ∈ c.account.utilization.backpressure,
      BrakeRests policy (w.state.account c.name).backpressure o.snapshot.observedAt c.inputs.now
        (usableFraction c.account o.snapshot c.inputs.now)

/-- No experiment is under way, and none could start the fleet. -/
def NoExperiment (c : AccountCycle F) (w : World F) : Prop :=
  ∀ o, (run c.observe w).1 = .ok o → ∀ policy ∈ c.account.utilization.zaiSaturation,
    (∀ s ∈ (w.state.account c.name).zaiSaturation, s.Resting) ∧
      mayStart c.account o.snapshot o.workers o.unowned = false

/-- The experiments that an observed account's snapshot is applied to. -/
def experiments (c : AccountCycle F) (w : World F) (o : Observation F) : SaturationCycle F where
  decision := o.decision
  snapshot := o.snapshot
  account := w.state.account c.name
  now := c.inputs.now

/-- **What an observed account's policies store**: the next states of its own experiments and of its brake. -/
theorem policies_states {w' : World F} (h : run c.observe w = (.ok o, w')) :
    (∀ policy ∈ c.account.utilization.zaiSaturation, ∀ s ∈ (w.state.account c.name).zaiSaturation,
      (c.policies o).zaiSaturation = some ((c.experiments w o).apply c.account policy s).2) ∧
    (c.policies o).backpressure = c.account.utilization.backpressure.map (fun policy =>
      brakeNext policy (w.state.account c.name).backpressure o.snapshot.observedAt c.inputs.now
        (usableFraction c.account o.snapshot c.inputs.now)) := by
  obtain ⟨log, -, hobserved⟩ := observe_ok h
  unfold policies
  rw [hobserved.prior]
  refine ⟨fun policy hpolicy s hs => ?_, applyPolicies_backpressure (hobserved.prior ▸ hobserved.decision)⟩
  rw [applyPolicies_zaiSaturation, Option.mem_def.1 hpolicy, Option.map_some]
  have hprior : (c.experiments w o).prior s = w.state.account c.name := SaturationCycle.prior_eq hs
  unfold SaturationCycle.apply
  rw [hprior]
  rfl

/-- What moves the experiments of an observed account is in its snapshot. -/
theorem experiments_read {w' : World F} (h : run c.observe w = (.ok o, w')) :
    (c.experiments w o).discards =
      discardsExperiments c.account o.snapshot (w.state.account c.name) c.inputs.now ∧
    ((c.experiments w o).Starts c.account → mayStart c.account o.snapshot o.workers o.unowned = true) := by
  obtain ⟨log, -, hobserved⟩ := observe_ok h
  have hdecision := hobserved.prior ▸ hobserved.decision
  exact ⟨evaluatePool_discards hdecision, mayStart_of_starts hdecision⟩

theorem idle_of_rest (hrest : PoliciesRest c w) : PoliciesIdle c w := by
  intro o ho
  obtain ⟨hsaturation, hbrake⟩ := hrest o ho
  have hrun : run c.observe w = (.ok o, (run c.observe w).2) := by rw [← ho]
  obtain ⟨hstates, hbraked⟩ := policies_states hrun
  obtain ⟨hdiscards, hstarts⟩ := experiments_read hrun
  constructor
  · intro next hnext
    cases hpolicy : c.account.utilization.zaiSaturation with
    | none =>
      unfold policies at hnext
      rw [applyPolicies_zaiSaturation, hpolicy] at hnext
      cases hnext
    | some policy =>
      obtain ⟨s, hs, hrests⟩ := hsaturation policy hpolicy
      rw [hstates policy hpolicy s hs, Option.mem_some_iff] at hnext
      rw [← hnext, SaturationCycle.apply_of_rest hdiscards hstarts hrests]
      exact hs
  · intro next hnext
    rw [hbraked] at hnext
    obtain ⟨policy, hpolicy, rfl⟩ := Option.map_eq_some_iff.1 hnext
    exact (brakeNext_of_rests (hbrake policy hpolicy)).symm

theorem rest_of_idle (hnone : NoExperiment c w)
    (hcounted : ∀ policy ∈ c.account.utilization.backpressure, policy.quietCycles ≤ u32Max)
    (hidle : PoliciesIdle c w) : PoliciesRest c w := by
  intro o ho
  obtain ⟨hsaturation, hbrake⟩ := hidle o ho
  have hrun : run c.observe w = (.ok o, (run c.observe w).2) := by rw [← ho]
  obtain ⟨hstates, hbraked⟩ := policies_states hrun
  obtain ⟨hdiscards, hstarts⟩ := experiments_read hrun
  constructor
  · intro policy hpolicy
    obtain ⟨hresting, hstop⟩ := hnone o ho policy hpolicy
    obtain ⟨next, hnext⟩ : ∃ next, (c.policies o).zaiSaturation = some next := by
      unfold policies
      rw [applyPolicies_zaiSaturation, Option.mem_def.1 hpolicy]
      exact ⟨_, rfl⟩
    have hs := hsaturation next hnext
    have happly := hnext.symm.trans (hstates policy hpolicy next hs)
    exact ⟨next, hs, SaturationCycle.rest_of_apply hdiscards hstarts (hresting next hs) hstop
      (Option.some.inj happly).symm⟩
  · intro policy hpolicy
    rw [Option.mem_def.1 hpolicy, Option.map_some] at hbraked
    exact rests_of_brakeNext (hcounted policy hpolicy) (hbrake _ hbraked).symm

/-- **A failed cycle leaves the account's state as it was where its policies rest**, and, unless an experiment is under
way or may start the fleet, only there. -/
theorem failed_cycle_untouched {e : AccountFailure} (h : (run c.cycle w).1 = .error e) :
    (PoliciesRest c w → Untouched c w) ∧
    (NoExperiment c w → (∀ policy ∈ c.account.utilization.backpressure, policy.quietCycles ≤ u32Max) →
      Untouched c w → PoliciesRest c w) :=
  ⟨fun hrest => (untouched_iff_idle h).2 (idle_of_rest hrest),
    fun hnone hcounted huntouched => rest_of_idle hnone hcounted ((untouched_iff_idle h).1 huntouched)⟩

end AccountCycle

/-! ## A failing actuator -/

def drainAccount (brake : Option (BackpressureConfig F64)) : AccountConfig F64 :=
  { pacedAccount with
    fleet := { pacedFleet with observer := some (.static 2), actuator := .targetFile }
    utilization := { pacedUtilization with backpressure := brake } }

def drainBrake : BackpressureConfig F64 where
  holdAbove := Flt.ofRat (1 / 10)
  stepDownAbove := Flt.ofRat (3 / 10)
  recoverBelow := Flt.ofRat (1 / 20)
  quietCycles := 2
  signalLossReleaseSeconds := 3600

/-- The week is over its target and the provider answers half the requests with 429. -/
def drainSnapshot : QuotaSnapshot F64 where
  observedAt := hours 1
  fresh := true
  windows := [{ week with usedFraction := Flt.ofRat (19 / 20) }]
  eligibleBacklogCapacity := none
  resetCredits := none
  backpressure := some { upstream429Fraction := some (Flt.ofRat (1 / 2)), attempts := 20, windowSeconds := 60 }
  saturation := none

def readOnly : FleetInputs where
  reading := .error "no observer"
  postReading := .error "no observer"
  hostReading _ := .error "no observer"
  postHostReading _ := .error "no observer"
  unowned := .ok 0
  actuator _ := { result := .error "read-only file system", started := 0 }
  hostActuator _ _ := { result := .error "read-only file system", started := 0 }
  retire := .ok ()

def noPeers : FederationRuntime F64 where
  records := ∅
  freshness _ := .expired
  laterFreshness _ := .expired

def noRepull : GateInputs F64 where
  excluded := []
  seedable := .ok 0
  repull := .error "unreachable"
  writes := { publishes := .ok (), settles := .ok () }

def drainInputs : CycleInputs F64 where
  observeOnly := false
  source := .ok drainSnapshot
  fleet := readOnly
  now := hours 1
  localRecord := .error "no federation"
  runtime := noPeers
  gate := noRepull
  advisoryWrites := .ok ()
  resources := ∅
  eventWrite := .ok ()
  statusAt := hours 1
  accountFingerprint _ := "acct:0"

def drainCycle (brake : Option (BackpressureConfig F64)) : AccountCycle F64 where
  config := { accounts := (∅ : BTreeMap (AccountConfig F64)).insert "codex" (drainAccount brake), federation := none }
  name := "codex"
  account := drainAccount brake
  inputs := drainInputs

def freshWorld : World F64 := { state := {}, pending := ∅ }

theorem drainCycle_fails (brake : Option (BackpressureConfig F64)) (h : brake = none ∨ brake = some drainBrake) :
    (run (drainCycle brake).cycle freshWorld).1 = .error (.actuation "read-only file system") := by
  rcases h with rfl | rfl
  · decide +kernel
  · decide +kernel

/-- The actuator fails after the brake was engaged: the failed cycle has moved the stored phase. -/
theorem failed_cycle_keeps_brake :
    ¬ ∀ (c : AccountCycle F64) (w : World F64) (e : AccountFailure), c.account.validate c.name = .ok () →
      (run c.cycle w).1 = .error e →
      (run c.cycle w).2.state.account c.name = w.state.account c.name ∧
        (run c.cycle w).2.state.hosts c.name = w.state.hosts c.name := by
  intro hall
  have h := (hall (drainCycle (some drainBrake)) freshWorld _ (by decide +kernel) (drainCycle_fails _ (Or.inr rfl))).1
  have hold : ((run (drainCycle (some drainBrake)).cycle freshWorld).2.state.account
      (drainCycle (some drainBrake)).name).backpressure.mode = .hold := by
    decide +kernel
  rw [h] at hold
  exact absurd hold (by decide +kernel)

/-- The same sample has already put the brake at its hardest. -/
def brakedAccount : AccountState F64 := { backpressure := { mode := .stepDown, lastUsableSampleAt := some (hours 1) } }

def brakedWorld : World F64 := { freshWorld with state := freshWorld.state.setAccount "codex" brakedAccount }

theorem drain_observed {w : World F64} {o : Observation F64}
    (ho : (run (drainCycle (some drainBrake)).observe w).1 = .ok o) : o.snapshot = drainSnapshot := by
  have hrun : run (drainCycle (some drainBrake)).observe w = (.ok o, (run (drainCycle (some drainBrake)).observe w).2) := by
    rw [← ho]
  obtain ⟨_, -, hobserved⟩ := AccountCycle.observe_ok hrun
  exact (Except.ok.inj hobserved.source).symm

theorem drain_usable :
    usableFraction (drainAccount (some drainBrake)) drainSnapshot (hours 1) = some (Flt.ofRat (1 / 2)) := by
  have hfresh : isStale (drainAccount (some drainBrake)) drainSnapshot (hours 1) = false := by decide +kernel
  exact if_neg (by rw [hfresh]; exact Bool.false_ne_true)

/-- The policies of the draining account rest exactly where its brake does. -/
theorem drain_rests_iff {w : World F64} (hobserves : (run (drainCycle (some drainBrake)).observe w).1.isOk = true) :
    AccountCycle.PoliciesRest (drainCycle (some drainBrake)) w ↔
      BrakeRests drainBrake (w.state.account "codex").backpressure (hours 1) (hours 1) (some (Flt.ofRat (1 / 2))) := by
  constructor
  · intro h
    cases ho : (run (drainCycle (some drainBrake)).observe w).1 with
    | error e =>
      rw [ho] at hobserves
      cases hobserves
    | ok o =>
      have hbrake := (h o ho).2 drainBrake rfl
      rw [drain_observed ho] at hbrake
      exact drain_usable ▸ hbrake
  · intro h o ho
    refine ⟨fun policy hpolicy => ?_, ?_⟩
    · cases hpolicy
    · rintro _ ⟨⟩
      rw [drain_observed ho]
      exact drain_usable.symm ▸ h

/-- A brake that is at its hardest rests, and the failed cycle leaves it there; from the default state it moves. -/
theorem failed_cycle_untouched_drain :
    AccountCycle.Untouched (drainCycle (some drainBrake)) brakedWorld ∧
      ¬ AccountCycle.Untouched (drainCycle (some drainBrake)) freshWorld := by
  have hbraked : (run (drainCycle (some drainBrake)).cycle brakedWorld).1 =
      .error (.actuation "read-only file system") := by decide +kernel
  constructor
  · refine (AccountCycle.failed_cycle_untouched hbraked).1 ((drain_rests_iff (by decide +kernel)).2 ?_)
    exact ⟨by decide +kernel, by decide +kernel, by decide +kernel⟩
  · intro huntouched
    have hrests := (AccountCycle.failed_cycle_untouched (drainCycle_fails (some drainBrake) (.inr rfl))).2
      (fun _ _ _ hnone => by cases hnone) (by rintro _ ⟨⟩; decide) huntouched
    obtain ⟨hseen, -, -⟩ := (drain_rests_iff (by decide +kernel)).1 hrests
    cases hseen

end Subgov
