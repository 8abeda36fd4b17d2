import Subgov.CycleGate
import Subgov.StepLimits
/-!
# LocalTarget — what a federated cycle hands to its own actuator

A federated cycle replaces the step-limited decision by this host's share of the account's total, and a host's placement
is only capped by it.  Nothing after that reapplies the scale-down limit, so that the target handed over respects the
limit exactly when the share does (`handed_step_iff`).
-/
namespace Subgov

open FloatArith Effect

variable {F : Type} [Flt F]

/-! ## Observed counts -/

section Counts

variable {fleet : FleetConfig F} {n observed : Nat}

omit [Flt F] in
theorem reconcileObservedRange_ok (hrange : fleet.minWorkers ≤ fleet.maxWorkers)
    (h : reconcileObservedRange observed fleet = .ok n) : n = max fleet.minWorkers (min observed fleet.maxWorkers) := by
  unfold reconcileObservedRange at h
  by_cases hin : fleet.minWorkers ≤ observed ∧ observed ≤ fleet.maxWorkers
  · rw [if_pos hin] at h
    cases h
    omega
  · rw [if_neg hin] at h
    cases hreconcile : fleet.observerReconciliation with
    | strict =>
      rw [hreconcile] at h
      cases h
    | clamp =>
      rw [hreconcile] at h
      cases h
      exact clampNat_eq hrange

theorem checkedSum_ok {message : String} {xs : List Nat} (h : checkedSum message xs = .ok n) : n = xs.sum := by
  have hfold : ∀ (xs : List Nat) (a n : Nat), List.foldlM (fun total workers =>
      if total + workers ≤ u32Max then Except.ok (total + workers) else .error message) a xs = .ok n →
      n = a + xs.sum := by
    intro xs
    induction xs with
    | nil =>
      intro a n h
      cases h
      rfl
    | cons x xs ih =>
      intro a n h
      rw [List.foldlM_cons] at h
      by_cases hfit : a + x ≤ u32Max
      · rw [if_pos hfit] at h
        rw [ih _ _ h, List.sum_cons, Nat.add_assoc]
      · rw [if_neg hfit] at h
        cases h
  rw [hfold xs 0 n h, Nat.zero_add]

theorem getD_le_sum_values (m : BTreeMap Nat) (id : String) : m.getD id 0 ≤ m.values.sum := by
  rw [Std.ExtTreeMap.getD_eq_getD_getElem?]
  cases hm : m[id]? with
  | none => exact Nat.zero_le _
  | some workers => exact List.le_sum_of_mem (mem_values.2 ⟨id, hm⟩)

end Counts

namespace AccountCycle

variable {c : AccountCycle F} {o : Observation F} {w : World F}

omit [Flt F] in
/-- **The count a decision sizes is in the fleet's range**, and covers each host's up to the fleet's maximum. -/
theorem observeWorkers_ok {log log' : FleetLog} {hostCurrent : Option (BTreeMap Nat)} {workers : Nat}
    (hrange : c.account.fleet.minWorkers ≤ c.account.fleet.maxWorkers)
    (h : run c.observeWorkers log = (.ok (hostCurrent, workers), log')) :
    workers ≤ c.account.fleet.maxWorkers ∧
      ∀ current, hostCurrent = some current → ∀ id, min (current.getD id 0) c.account.fleet.maxWorkers ≤ workers := by
  unfold observeWorkers at h
  by_cases hhosts : c.account.fleet.hasHosts = true
  · rw [if_pos hhosts] at h
    obtain ⟨current, _, -, h⟩ := ok_of_run_bind h
    obtain ⟨total, _, hlift, h⟩ := ok_of_run_bind h
    obtain ⟨htotal, -⟩ := ok_of_run_lift hlift
    cases h
    unfold totalHostWorkers at htotal
    cases hsum : checkedSum "sum of per-host worker counts exceeds u32" current.values with
    | error e =>
      rw [hsum] at htotal
      cases htotal
    | ok sum =>
      rw [hsum] at htotal
      have hworkers := reconcileObservedRange_ok hrange htotal
      have hsum := checkedSum_ok hsum
      refine ⟨by omega, fun current' hcurrent id => ?_⟩
      cases hcurrent
      have := getD_le_sum_values current id
      omega
  · rw [if_neg hhosts] at h
    obtain ⟨n, _, hcurrent, h⟩ := ok_of_run_bind h
    cases h
    refine ⟨?_, nofun⟩
    unfold currentWorkers at hcurrent
    cases hobserver : c.account.fleet.observer with
    | none =>
      rw [hobserver] at hcurrent
      cases hcurrent
    | some observer =>
      rw [hobserver] at hcurrent
      obtain ⟨observed, _, -, hcurrent⟩ := ok_of_run_bind hcurrent
      obtain ⟨_, _, -, hcurrent⟩ := ok_of_run_bind hcurrent
      obtain ⟨hreconciled, -⟩ := ok_of_run_lift hcurrent
      have := reconcileObservedRange_ok hrange hreconciled
      omega

end AccountCycle

/-! ## The handed target -/

structure LocalTarget where
  current : Nat
  target : Nat
  ceiling : Nat
  maxDown : Nat
  deriving DecidableEq

namespace AccountCycle

section Definitions

variable (c : AccountCycle F)

/-- The stages of `act` that settle the targets. -/
def targets (o : Observation F) (d : Decision F) : CycleM F (Nat × Option (List (HostPlacement F))) := do
  let desired ← c.fleetTarget o (c.shareTarget o d)
  Effect.lift .observation (c.writeAdvisories d)
  let placements ← c.placeHosts o desired
  return (desired, placements)

theorem act_eq (o : Observation F) (d : Decision F) :
    c.act o d = c.targets o d >>= fun t => c.finish o { d with desiredWorkers := t.1 } t.2 := by
  simp only [act, targets, bind_assoc, pure_bind]

/-- What the cycle hands to this instance's actuator: its own host's placement, or the fleet's target. -/
def handed (o : Observation F) (desired : Nat) (placements : Option (List (HostPlacement F))) : Option LocalTarget :=
  if c.inputs.observeOnly || c.safetyHold o then none
  else match placements with
    | some placements => c.config.federated.bind (fun federation =>
        (c.account.fleet.hosts.bind (·[federation.hostId]?)).bind (fun host =>
          (placements.find? (·.hostId == federation.hostId)).map (fun p =>
            { current := p.current
              target := p.target
              ceiling := p.ceiling
              maxDown := host.maxScaleDownPerCycle.getD c.account.fleet.maxScaleDownPerCycle })))
    | none => some
        { current := o.workers
          target := desired
          ceiling := c.account.fleet.maxWorkers
          maxDown := c.account.fleet.maxScaleDownPerCycle }

/-- The observation and the handed target of a cycle that gets as far as its actuation. -/
def handedTarget (w : World F) : Option (Observation F × LocalTarget) :=
  match run c.observe w with
  | (.error _, _) => none
  | (.ok o, w₁) =>
    match run (c.targets o (c.policies o).decision) (c.stored o w₁) with
    | (.error _, _) => none
    | (.ok (desired, placements), _) => (c.handed o desired placements).map (fun t => (o, t))

end Definitions

variable {c : AccountCycle F} {o : Observation F} {w : World F}

omit [Flt F] in
/-- A fleet's actuation is the one of the handed target. -/
theorem actuate_handed {desired : Nat} {t : LocalTarget} (h : c.handed o desired none = some t) :
    c.actuate o desired none = (do
      let outcome ← onFleet .actuation (actuateWithExclusions c.account.fleet t.current t.target c.inputs.fleet)
      return { actuated := outcome.actuated, observedAfter := outcome.observedWorkers }) := by
  unfold handed at h
  unfold actuate
  split at h
  · cases h
  · rename_i hopen
    cases h
    rw [if_neg hopen]

omit [Flt F] in
theorem handed_open {desired : Nat} {placements : Option (List (HostPlacement F))} {t : LocalTarget}
    (h : c.handed o desired placements = some t) : c.safetyHold o = false := by
  unfold handed at h
  split at h
  · cases h
  · rename_i hopen
    simp only [Bool.or_eq_true, not_or, Bool.not_eq_true] at hopen
    exact hopen.2

omit [Flt F] in
theorem handed_fleet {desired : Nat} {t : LocalTarget} (h : c.handed o desired none = some t) :
    t = { current := o.workers, target := desired, ceiling := c.account.fleet.maxWorkers,
          maxDown := c.account.fleet.maxScaleDownPerCycle } := by
  unfold handed at h
  split at h
  · cases h
  · cases h
    rfl

omit [Flt F] in
theorem handed_host {desired : Nat} {placements : List (HostPlacement F)} {t : LocalTarget}
    {federation : FederationConfig} (hfed : c.config.federated = some federation)
    (h : c.handed o desired (some placements) = some t) :
    ∃ host p, c.account.fleet.hosts.bind (·[federation.hostId]?) = some host ∧
      placements.find? (·.hostId == federation.hostId) = some p ∧
      t = { current := p.current, target := p.target, ceiling := p.ceiling,
            maxDown := host.maxScaleDownPerCycle.getD c.account.fleet.maxScaleDownPerCycle } := by
  unfold handed at h
  split at h
  · cases h
  · obtain ⟨federation', hfed', h⟩ := Option.bind_eq_some_iff.1 h
    obtain rfl := Option.some.inj (hfed'.symm.trans hfed)
    obtain ⟨host, hhost, h⟩ := Option.bind_eq_some_iff.1 h
    obtain ⟨p, hp, h⟩ := Option.map_eq_some_iff.1 h
    exact ⟨host, p, hhost, hp, h.symm⟩

/-! ### What the gate leaves of a target -/

/-- A target that starts nothing is final, and one that does ends no lower than the count. -/
def Settles (current target final : Nat) : Prop :=
  (target ≤ current → final = target) ∧ (current < target → current ≤ final)

theorem Settles.self (current target : Nat) : Settles current target target :=
  ⟨fun _ => rfl, fun h => Nat.le_of_lt h⟩

theorem Settles.le_iff {current target final : Nat} (h : Settles current target final) (n : Nat) :
    current - n ≤ final ↔ current - n ≤ target := by
  obtain ⟨hdown, hup⟩ := h
  by_cases hgrow : current < target
  · have := hup hgrow
    omega
  · rw [hdown (by omega)]

omit [Flt F] in
theorem gateFederatedLaunch_le {call : LaunchCall F} {inputs : GateInputs F} {pending : PendingMap} {n : Nat}
    (hcurrent : call.current ≤ u32Max) (hgrow : call.current < call.desired)
    (h : (gateFederatedLaunch call inputs pending).2 = .ok n) : call.current ≤ n := by
  unfold gateFederatedLaunch at h
  rw [if_neg (by omega)] at h
  cases hcapacity : launchCapacity call.actuator inputs.excluded inputs.seedable with
  | error e =>
    rw [hcapacity] at h
    cases h
  | ok capacity =>
    rw [hcapacity] at h
    dsimp only at h
    split at h
    · cases h
      exact Nat.le_refl _
    · cases hgated : (call.gate (call.seeded capacity - call.current) inputs pending).2 with
      | error e =>
        simp only [hgated] at h
        cases h
      | ok g =>
        simp only [hgated] at h
        cases h
        exact Nat.le_min.2 ⟨Nat.le_add_right _ _, hcurrent⟩

omit [Flt F] in
theorem gateTarget_settles {call : LaunchCall F} {w' : World F} {n : Nat} (hcurrent : call.current ≤ u32Max)
    (hgrow : call.current < call.desired) (h : run (c.gateTarget o call) w = (.ok n, w')) :
    Settles call.current call.desired n := by
  refine ⟨fun hle => absurd hle (by omega), fun _ => ?_⟩
  unfold gateTarget at h
  split at h
  · unfold onPending at h
    rw [run_ofStep] at h
    have hvalue := congrArg Prod.fst h
    dsimp only at hvalue
    cases hgated : (gateFederatedLaunch call c.inputs.gate w.pending).2 with
    | error e =>
      rw [hgated] at hvalue
      cases hvalue
    | ok m =>
      rw [hgated] at hvalue
      cases hvalue
      exact gateFederatedLaunch_le hcurrent hgrow hgated
  · cases h
    exact Nat.le_refl _

omit [Flt F] in
/-- **The fleet's target is settled**, or left to the hosts. -/
theorem fleetTarget_settles {desired n : Nat} {w' : World F} (hworkers : o.workers ≤ u32Max)
    (h : run (c.fleetTarget o desired) w = (.ok n, w')) :
    Settles o.workers desired n ∧ (o.hostCurrent.isSome = true → n = desired) := by
  unfold fleetTarget at h
  cases hlaunch : c.fleetLaunch o desired with
  | none =>
    rw [hlaunch] at h
    cases h
    exact ⟨Settles.self _ _, fun _ => rfl⟩
  | some call =>
    rw [hlaunch] at h
    have hsingle := fleetLaunch_single hlaunch
    unfold fleetLaunch at hlaunch
    cases hfed : c.config.federated with
    | none =>
      rw [hfed] at hlaunch
      cases hlaunch
    | some federation =>
      rw [hfed] at hlaunch
      dsimp only at hlaunch
      split at hlaunch
      · rename_i hopen
        simp only [Bool.and_eq_true, decide_eq_true_eq] at hopen
        cases hlaunch
        refine ⟨gateTarget_settles hworkers hopen.2 h, fun hsome => ?_⟩
        rw [hsingle] at hsome
        cases hsome
      · cases hlaunch

/-! ### The local placement -/

/-- The share's cap on this host's placement. -/
def cappedTarget (o : Observation F) (desired share target current : Nat) : Nat :=
  let capped := min (min share desired) target
  if o.stalePeer then min capped current else capped

omit [Flt F] in
theorem cappedTarget_le (o : Observation F) (desired share target current : Nat) :
    cappedTarget o desired share target current ≤ target := by
  unfold cappedTarget
  dsimp only
  split <;> omega

/-- This host's placement before the gate: the step-limited one within the share. -/
theorem hostPlacements_local {desired : Nat} {current : BTreeMap Nat} {placements : List (HostPlacement F)}
    {federation : FederationConfig} {shared : SharedView} {p : HostPlacement F} {host : HostConfig F}
    (hfed : c.config.federated = some federation) (hshared : o.shared = some shared) (hopen : c.safetyHold o = false)
    (hhost : c.account.fleet.hosts.bind (·[federation.hostId]?) = some host)
    (h : c.hostPlacements o desired current = .ok placements)
    (hp : placements.find? (·.hostId == federation.hostId) = some p) :
    ∃ share, let v := hostView c.account current c.inputs.resources c.inputs.now federation.hostId host
      p.current = v.current ∧ p.ceiling = v.ceiling ∧
        p.target = cappedTarget o desired shared.share (v.step share) v.current := by
  unfold hostPlacements at h
  cases hplaced : place c.name desired c.account current c.inputs.resources c.inputs.now with
  | error e =>
    rw [hplaced] at h
    cases h
  | ok steps =>
    rw [hplaced, hfed, hshared] at h
    cases h
    rw [List.find?_map] at hp
    obtain ⟨q, hq, hcap⟩ := Option.map_eq_some_iff.1 hp
    have hfound := List.find?_some hq
    have hid : q.hostId = federation.hostId := beq_iff_eq.1 hfound
    have hmem := List.mem_of_find?_eq_some hq
    rw [place_ok hplaced] at hmem
    obtain ⟨v, hv, rfl⟩ := List.mem_map.1 hmem
    obtain ⟨entry, hentry, rfl⟩ := List.mem_map.1 hv
    have hself : entry.2 = host := by
      cases hhosts : c.account.fleet.hosts with
      | none =>
        rw [hhosts] at hhost
        cases hhost
      | some hosts =>
        rw [hhosts] at hentry hhost
        have hlookup : hosts[entry.1]? = some entry.2 := Std.ExtTreeMap.mem_toList_iff_getElem?_eq_some.1 hentry
        rw [show entry.1 = federation.hostId from hid] at hlookup
        exact Option.some.inj (hlookup.symm.trans hhost)
    have hkey : entry.1 = federation.hostId := hid
    rw [← hcap, ← hself, ← hkey]
    refine ⟨(rawTargets desired (hostViews c.account current c.inputs.resources c.inputs.now)).getD entry.1 0,
      rfl, rfl, ?_⟩
    unfold capPlacement
    dsimp only
    rw [if_neg (not_not_intro hid), if_neg (by rw [hopen]; exact Bool.false_ne_true)]
    rfl

omit [Flt F] in
theorem hostLaunch_local {desired : Nat} {placements : List (HostPlacement F)} {federation : FederationConfig}
    {call : LaunchCall F} (hfed : c.config.federated = some federation)
    (h : c.hostLaunch o desired placements = some call) :
    ∃ p, placements.find? (·.hostId == federation.hostId) = some p ∧ call.federation.hostId = federation.hostId ∧
      call.current = p.current ∧ call.desired = p.target ∧ p.current < p.target := by
  unfold hostLaunch at h
  rw [hfed] at h
  dsimp only at h
  split at h
  · cases h
  · split at h
    · cases h
    · rename_i p hp
      split at h
      · rename_i hgrow
        cases h
        exact ⟨p, hp, rfl, rfl, rfl, hgrow⟩
      · cases h

/-- **This host's placement is settled** from the step-limited one within the share. -/
theorem placeHosts_settles {desired : Nat} {current : BTreeMap Nat} {w' : World F}
    {placements : Option (List (HostPlacement F))} {federation : FederationConfig}
    (hfed : c.config.federated = some federation) (hcurrent : o.hostCurrent = some current)
    (h : run (c.placeHosts o desired) w = (.ok placements, w')) :
    ∃ steps final, c.hostPlacements o desired current = .ok steps ∧ placements = some final ∧
      ∀ p, final.find? (·.hostId == federation.hostId) = some p →
        ∃ q, steps.find? (·.hostId == federation.hostId) = some q ∧ p.current = q.current ∧ p.ceiling = q.ceiling ∧
          (q.target ≤ u32Max → Settles q.current q.target p.target) := by
  unfold placeHosts at h
  rw [hcurrent] at h
  obtain ⟨steps, _, hlift, h⟩ := ok_of_run_bind h
  obtain ⟨hsteps, -⟩ := ok_of_run_lift hlift
  cases hlaunch : c.hostLaunch o desired steps with
  | none =>
    rw [hlaunch] at h
    cases h
    exact ⟨steps, steps, hsteps, rfl, fun p hp => ⟨p, hp, rfl, rfl, fun _ => Settles.self _ _⟩⟩
  | some call =>
    rw [hlaunch] at h
    obtain ⟨n, _, hgate, h⟩ := ok_of_run_bind h
    cases h
    refine ⟨steps, _, hsteps, rfl, fun p hp => ?_⟩
    obtain ⟨q, hq, hid, hcallCurrent, hcallDesired, hgrow⟩ := hostLaunch_local hfed hlaunch
    have hfound := List.find?_some hq
    have hqid : q.hostId = federation.hostId := beq_iff_eq.1 hfound
    have hkeepsId : ((·.hostId == federation.hostId) : HostPlacement F → Bool) ∘ setTarget federation.hostId n =
        (·.hostId == federation.hostId) := by
      funext p
      unfold setTarget
      simp only [Function.comp_apply]
      split <;> rfl
    rw [hid, List.find?_map, hkeepsId, hq] at hp
    have hset : setTarget federation.hostId n q = p := Option.some.inj hp
    refine ⟨q, hq, ?_⟩
    rw [← hset, setTarget, if_pos hqid]
    refine ⟨rfl, rfl, fun hbound => ?_⟩
    have hsettles := gateTarget_settles (by omega) (by omega) hgate
    rw [hcallCurrent, hcallDesired] at hsettles
    exact hsettles

/-! ### The share as the target -/

omit [Flt F] in
theorem safetyHold_false {federation : FederationConfig} (hfed : c.config.federated = some federation)
    (h : c.safetyHold o = false) :
    c.account.utilization.zaiSaturation = none ∧ c.account.utilization.backpressure = none := by
  unfold safetyHold at h
  rw [hfed] at h
  simp only [Option.isSome_some, Bool.true_and, Bool.or_eq_false_iff, Option.isSome_eq_false_iff,
    Option.isNone_iff_eq_none] at h
  exact ⟨h.1.1.1.1.2, h.1.1.1.2⟩

/-- **Outside a hold the target is the share**, which only a stale peer lowers. -/
theorem shareTarget_eq {federation : FederationConfig} {shared : SharedView} {log : FleetLog}
    (hfed : c.config.federated = some federation) (hread : ObservedFrom c w o log) (hshared : o.shared = some shared)
    (hopen : c.safetyHold o = false) :
    c.shareTarget o (c.policies o).decision = if shared.stalePeer then min shared.share o.workers else shared.share := by
  obtain ⟨hzai, hbackpressure⟩ := safetyHold_false hfed hopen
  have hpolicies : (c.policies o).decision = o.decision := by
    unfold policies applyPolicies
    rw [hzai, hbackpressure]
  obtain ⟨hunbraked, hunsaturated⟩ := evaluatePool_unbraked hread.decision
  unfold shareTarget
  rw [hshared, hpolicies]
  dsimp only
  rw [hunbraked, hunsaturated, hopen]
  rfl

/-- A federated observation derives a share. -/
theorem shared_isSome {federation : FederationConfig} {log : FleetLog} (hfed : c.config.federated = some federation)
    (hread : ObservedFrom c w o log) : ∃ shared, o.shared = some shared := by
  have hview := hread.shared
  unfold sharedView at hview
  rw [hfed] at hview
  dsimp only at hview
  cases hlocal : c.inputs.localRecord with
  | error e =>
    rw [hlocal] at hview
    cases hview
  | ok record =>
    rw [hlocal] at hview
    cases hdecision : sharedDecision c.inputs.runtime federation record c.name c.account o.snapshot o.prior
        (localWorkers federation o.hostCurrent o.workers) c.inputs.now with
    | error e =>
      simp only [bind, Except.bind] at hview
      rw [hdecision] at hview
      cases hview
    | ok decision =>
      simp only [bind, Except.bind] at hview
      rw [hdecision] at hview
      exact ⟨_, (Except.ok.inj hview).symm⟩

/-! ### One cycle -/

theorem handedTarget_ok {t : LocalTarget} (h : c.handedTarget w = some (o, t)) :
    ∃ w₁ desired placements w₂, run c.observe w = (.ok o, w₁) ∧
      run (c.targets o (c.policies o).decision) (c.stored o w₁) = (.ok (desired, placements), w₂) ∧
      c.handed o desired placements = some t := by
  unfold handedTarget at h
  rcases hobserve : run c.observe w with ⟨e | o', w₁⟩
  · rw [hobserve] at h
    cases h
  · rw [hobserve] at h
    dsimp only at h
    rcases htargets : run (c.targets o' (c.policies o').decision) (c.stored o' w₁) with ⟨e | ⟨desired, placements⟩, w₂⟩
    · rw [htargets] at h
      cases h
    · rw [htargets] at h
      obtain ⟨t', hhanded, hpair⟩ := Option.map_eq_some_iff.1 h
      cases hpair
      exact ⟨w₁, desired, placements, w₂, rfl, htargets, hhanded⟩

omit [Flt F] in
theorem stalePeer_eq {shared : SharedView} (hshared : o.shared = some shared) : o.stalePeer = shared.stalePeer := by
  unfold Observation.stalePeer
  rw [hshared]
  rfl

/-- **A host's handed target respects its scale-down limit exactly when the share within its ceiling does.** -/
theorem handed_host_step_iff (hvalid : c.account.validate c.name = .ok ()) {federation : FederationConfig}
    (hfed : c.config.federated = some federation) {log : FleetLog} (hread : ObservedFrom c w o log)
    {shared : SharedView} (hshared : o.shared = some shared) {current : BTreeMap Nat}
    (hcurrent : o.hostCurrent = some current) {w₁ w₂ : World F} {desired : Nat}
    {placements : Option (List (HostPlacement F))} {t : LocalTarget}
    (hplace : run (c.placeHosts o (c.shareTarget o (c.policies o).decision)) w₁ = (.ok placements, w₂))
    (hhanded : c.handed o desired placements = some t) :
    t.current - t.maxDown ≤ t.target ↔ t.current - t.maxDown ≤ min shared.share t.ceiling := by
  have hmax := c.account.fleet.maxWorkersU32
  have hopen := handed_open hhanded
  have hshare := shareTarget_eq hfed hread hshared hopen
  obtain ⟨hworkers, hhosts⟩ := observeWorkers_ok (AccountConfig.validate_bounds hvalid) hread.workers
  obtain ⟨steps, placed, hsteps, rfl, hlocal⟩ := placeHosts_settles hfed hcurrent hplace
  obtain ⟨host, p, hhost, hp, rfl⟩ := handed_host hfed hhanded
  obtain ⟨q, hq, hpcurrent, hpceiling, hsettles⟩ := hlocal p hp
  obtain ⟨share, hqcurrent, hqceiling, hqtarget⟩ := hostPlacements_local hfed hshared hopen hhost hsteps hq
  have hceiling : (hostView c.account current c.inputs.resources c.inputs.now federation.hostId host).ceiling ≤
      c.account.fleet.maxWorkers := hostView_ceiling hvalid hhost
  have hcount := hhosts current hcurrent federation.hostId
  generalize hv : hostView c.account current c.inputs.resources c.inputs.now federation.hostId host = v at *
  have hvcurrent : v.current = current.getD federation.hostId 0 := by rw [← hv]; rfl
  have hvmaxDown : v.maxDown = host.maxScaleDownPerCycle.getD c.account.fleet.maxScaleDownPerCycle := by
    rw [← hv]
    rfl
  obtain ⟨hlow, hhigh⟩ := HostView.step_bounds (Nat.le_trans hceiling hmax) share
  have hcapped :=
    cappedTarget_le o (c.shareTarget o (c.policies o).decision) shared.share (v.step share) v.current
  have hsettled := hsettles (by omega)
  dsimp only
  rw [hpcurrent, hpceiling, hsettled.le_iff, hqtarget, hqcurrent, hqceiling, ← hvmaxDown, hshare]
  unfold cappedTarget
  rw [stalePeer_eq hshared]
  cases shared.stalePeer with
  | true =>
    simp only [if_true]
    omega
  | false =>
    simp only [Bool.false_eq_true, if_false]
    omega

/-- **A cycle's handed target respects the scale-down limit exactly when this host's share does.** -/
theorem handed_step_iff (hvalid : c.account.validate c.name = .ok ()) {federation : FederationConfig}
    (hfed : c.config.federated = some federation) {t : LocalTarget} (h : c.handedTarget w = some (o, t)) :
    t.current - t.maxDown ≤ t.target ↔
      ∀ shared ∈ o.shared, t.current - t.maxDown ≤ min shared.share t.ceiling := by
  have hmax := c.account.fleet.maxWorkersU32
  obtain ⟨w₁, desired, placements, w₂, hobserve, htargets, hhanded⟩ := handedTarget_ok h
  obtain ⟨log, -, hread⟩ := observe_ok hobserve
  obtain ⟨hworkers, -⟩ := observeWorkers_ok (AccountConfig.validate_bounds hvalid) hread.workers
  obtain ⟨shared, hshared⟩ := shared_isSome hfed hread
  unfold targets at htargets
  obtain ⟨n, _, hfleet, htargets⟩ := ok_of_run_bind htargets
  obtain ⟨_, _, -, htargets⟩ := ok_of_run_bind htargets
  obtain ⟨final, _, hplace, htargets⟩ := ok_of_run_bind htargets
  cases htargets
  obtain ⟨hsettles, hleft⟩ := fleetTarget_settles (by omega) hfleet
  simp only [hshared, Option.mem_some_iff, forall_eq']
  cases hcurrent : o.hostCurrent with
  | none =>
    unfold placeHosts at hplace
    rw [hcurrent] at hplace
    cases hplace
    rw [handed_fleet hhanded]
    dsimp only
    rw [hsettles.le_iff, shareTarget_eq hfed hread hshared (handed_open hhanded)]
    split <;> omega
  | some current =>
    obtain rfl := hleft (by rw [hcurrent]; rfl)
    exact handed_host_step_iff hvalid hfed hread hshared hcurrent hplace hhanded

end AccountCycle

/-! ### Four workers over the target, with and without ready work -/

/-- The last cycle has left four workers. -/
def shrinkingFiles (readyBeads : Nat) : RecordFiles F64 :=
  { pairFiles readyBeads with
    status := (∅ : BTreeMap StatusDigest).insert "codex" { currentWorkers := some 4, desiredWorkers := some 4 } }

def shrinkingCycle (readyBeads : Nat) : AccountCycle F64 :=
  let pair := pairCycle (.error "timed out")
  { pair with
    inputs := { pair.inputs with
      source := .ok { pairSnapshot with windows := [{ week with usedFraction := Flt.ofRat (19 / 20) }] }
      fleet := unlaunchable 4
      localRecord := .ok (pairRecord pairAccount (shrinkingFiles readyBeads)) } }

def handedBy (readyBeads : Nat) : Option (LocalTarget × Option Nat) :=
  ((shrinkingCycle readyBeads).handedTarget freshWorld).map (fun r => (r.2, r.1.shared.map (·.share)))

theorem handedBy_some {readyBeads : Nat} {t : LocalTarget} {share : Option Nat}
    (h : handedBy readyBeads = some (t, share)) :
    ∃ o, (shrinkingCycle readyBeads).handedTarget freshWorld = some (o, t) ∧ o.shared.map (·.share) = share := by
  obtain ⟨⟨o, t'⟩, hhanded, hpair⟩ := Option.map_eq_some_iff.1 h
  cases hpair
  exact ⟨o, hhanded, rfl⟩

/-- Without ready work the share of a shrinking total is none: all four workers are stopped at once. -/
theorem handed_exceeds_step_down :
    ¬ ∀ (c : AccountCycle F64) (w : World F64) (federation : FederationConfig) (o : Observation F64) (t : LocalTarget),
      c.account.validate c.name = .ok () → c.config.federated = some federation → c.handedTarget w = some (o, t) →
      t.current - t.maxDown ≤ t.target := by
  intro hall
  have hhanded : handedBy 0 = some ({ current := 4, target := 0, ceiling := 10, maxDown := 1 }, some 0) := by
    decide +kernel
  obtain ⟨o, hrun, -⟩ := handedBy_some hhanded
  have h := hall (shrinkingCycle 0) freshWorld pairFederation o _ (by decide +kernel) rfl hrun
  exact absurd h (by decide)

/-- With ready work for four the share is three. -/
theorem handed_steps_down :
    ∃ o t, (shrinkingCycle 4).handedTarget freshWorld = some (o, t) ∧ t.current - t.maxDown ≤ t.target := by
  have hhanded : handedBy 4 = some ({ current := 4, target := 3, ceiling := 10, maxDown := 1 }, some 3) := by
    decide +kernel
  obtain ⟨o, hrun, hshare⟩ := handedBy_some hhanded
  have hfed : (shrinkingCycle 4).config.federated = some pairFederation := rfl
  refine ⟨o, _, hrun, (AccountCycle.handed_step_iff (by decide +kernel) hfed hrun).2 fun shared hshared => ?_⟩
  rw [Option.mem_def] at hshared
  rw [hshared] at hshare
  have hthree : shared.share = 3 := Option.some.inj hshare
  dsimp only
  omega

end Subgov
