import Subgov.CycleState
import Subgov.Validation
/-!
# CycleGate — the reservation a cycle leaves

The gate is the only stage of a cycle that writes the pending-launches file (`run_cycle_pending`), and it withdraws its
own claim when nothing is granted.  Nothing withdraws a grant: a cycle that is granted a launch leaves the reservation,
whatever its actuator does (`cycle_pending_iff`).
-/
namespace Subgov

open FloatArith Effect

variable {F : Type} [Flt F]

/-! ## The gate's writes -/

theorem publishPendingEntry_eq_self_iff {pending : PendingMap} {pool : String} {e : Option PendingEntry} :
    publishPendingEntry pending pool e = pending ↔ pending[pool]? = e := by
  constructor
  · intro h
    rw [← h, publishPendingEntry_getElem?, if_pos rfl]
  · rintro rfl
    exact publishPendingEntry_self pending pool

theorem publish_reservation_ne {pending : PendingMap} {pool : String} {e : PendingEntry}
    (h0 : readPendingLaunches pending pool = 0) (he : 0 < e.count) :
    publishPendingEntry pending pool (some e) ≠ pending := by
  intro h
  rw [publishPendingEntry_eq_self_iff] at h
  unfold readPendingLaunches at h0
  rw [h] at h0
  exact absurd h0 (Nat.pos_iff_ne_zero.1 he)

namespace LaunchGate

variable {g : LaunchGate} {committed total bound : Nat}

theorem permitted_eq_zero_iff (bound : Nat) :
    g.permitted committed total bound = 0 ↔ g.want = 0 ∨ total ≤ g.ownWorkers + g.ownPending + committed := by
  unfold permitted permittedLaunch
  omega

theorem permitted_le_want : g.permitted committed total bound ≤ g.want := Nat.min_le_left _ _

theorem settle_publish_zero (pending : PendingMap) (pool : String) (want localStepLimit own ownPending : Nat) :
    (start pending pool want localStepLimit own ownPending).settle
      ((start pending pool want localStepLimit own ownPending).publish pending pool) pool 0 = pending := by
  unfold settle publish
  rw [publishPendingEntry_twice]
  exact publishPendingEntry_self pending pool

theorem settle_publish_pos (pending : PendingMap) (pool : String) {permitted : Nat} (h : 0 < permitted) :
    g.settle (g.publish pending pool) pool permitted =
      publishPendingEntry pending pool (some (g.reservation permitted)) := by
  unfold settle settledEntry publish
  rw [if_neg (Nat.pos_iff_ne_zero.1 h), publishPendingEntry_twice]

theorem reservation_count_pos (g : LaunchGate) {launches : Nat} (h : 0 < launches) :
    0 < (g.reservation launches).count := by
  show 0 < satAdd g.ownPending launches
  unfold satAdd u32Max
  omega

end LaunchGate

namespace LaunchCall

variable {c : LaunchCall F} {inputs : GateInputs F} {pending : PendingMap} {want : Nat}

/-- The launch is refused: the step limit leaves nothing to ask for, the second pull fails, or the total has no room
beside this host's workers, its reservation and what the peers hold. -/
def Refused (c : LaunchCall F) (want : Nat) (inputs : GateInputs F) (pending : PendingMap) : Prop :=
  ∀ records, repullRecords c.federation c.actuator c.expired (min want c.stepLimit) inputs.repull = .ok records →
    min want c.stepLimit = 0 ∨
      c.controllerTotal ≤ c.current + readPendingLaunches pending c.pool + peersCommitted c.accountFingerprint records

/-- A refused claim leaves no trace: its withdrawal is written, or it was a claim for nothing over a reservation of
nothing. -/
def Withdrawn (c : LaunchCall F) (inputs : GateInputs F) (pending : PendingMap) : Prop :=
  inputs.writes.settles = .ok () ∨ (c.stepLimit = 0 ∧ ∃ baseline, pending[c.pool]? = some (.reserved 0 baseline))

/-- The gate publishes no claim, or a claim that is refused and withdrawn. -/
def LeavesNothing (c : LaunchCall F) (inputs : GateInputs F) (pending : PendingMap) : Prop :=
  ∀ capacity, launchCapacity c.actuator inputs.excluded inputs.seedable = .ok capacity →
    c.current < c.seeded capacity → inputs.writes.publishes = .ok () →
      c.Refused (c.seeded capacity - c.current) inputs pending ∧ c.Withdrawn inputs pending

def start (c : LaunchCall F) (want : Nat) (pending : PendingMap) : LaunchGate :=
  LaunchGate.start pending c.pool want c.stepLimit c.current (readPendingLaunches pending c.pool)

omit [Flt F] in
theorem publish_eq_self_iff (h0 : readPendingLaunches pending c.pool = 0) (hwant : 0 < want) :
    (c.start want pending).publish pending c.pool = pending ↔
      c.stepLimit = 0 ∧ ∃ baseline, pending[c.pool]? = some (.reserved 0 baseline) := by
  have hstart : (c.start want pending).want = min want c.stepLimit := rfl
  constructor
  · intro h
    have hz : (c.start want pending).want = 0 := by
      by_contra hne
      exact publish_reservation_ne h0 (LaunchGate.reservation_count_pos _ (Nat.pos_of_ne_zero hne)) h
    unfold LaunchGate.publish at h
    rw [publishPendingEntry_eq_self_iff, hz] at h
    have hown : (c.start want pending).ownPending = 0 := h0
    refine ⟨by omega, (c.start want pending).baseline, ?_⟩
    rw [h, LaunchGate.reservation, hown]
    rfl
  · rintro ⟨hlimit, baseline, hentry⟩
    have hz : (c.start want pending).want = 0 := by
      rw [hstart, hlimit, Nat.min_zero]
    have hown : (c.start want pending).ownPending = 0 := h0
    have hbase : (c.start want pending).baseline = baseline := by
      unfold LaunchGate.baseline
      rw [show (c.start want pending).previous = some (.reserved 0 baseline) from hentry]
    unfold LaunchGate.publish
    rw [publishPendingEntry_eq_self_iff, hentry, LaunchGate.reservation, hz, hown, hbase]
    rfl

omit [Flt F] in
/-- **What the gate leaves in the file**, when it publishes at all over a file that reserves nothing. -/
theorem gate_pending_eq_iff (h0 : readPendingLaunches pending c.pool = 0) (hwant : 0 < want)
    (hpub : inputs.writes.publishes = .ok ()) :
    (c.gate want inputs pending).1 = pending ↔ c.Refused want inputs pending ∧ c.Withdrawn inputs pending := by
  have hpublish := publish_eq_self_iff h0 hwant
  unfold Withdrawn
  rw [← hpublish]
  unfold gate gateLaunch Refused
  rw [hpub]
  generalize hg : LaunchGate.start pending c.pool want c.stepLimit c.current (readPendingLaunches pending c.pool) = g
  have hzero : g.settle (g.publish pending c.pool) c.pool 0 = pending := by
    rw [← hg]
    exact LaunchGate.settle_publish_zero _ _ _ _ _ _
  have hwantEq : min want c.stepLimit = g.want := by rw [← hg]; rfl
  have hown : c.current + readPendingLaunches pending c.pool = g.ownWorkers + g.ownPending := by rw [← hg]; rfl
  rw [show c.start want pending = g from hg, hwantEq, hown]
  generalize repullRecords c.federation c.actuator c.expired g.want inputs.repull = records
  cases records with
  | error e =>
    cases inputs.writes.settles with
    | error e' => simp
    | ok u => simpa using hzero
  | ok records =>
    simp only [Except.ok.injEq, forall_eq']
    rw [← LaunchGate.permitted_eq_zero_iff c.bound]
    generalize hp : g.permitted (peersCommitted c.accountFingerprint records) c.controllerTotal c.bound = permitted
    by_cases h : permitted = 0
    · rw [if_pos h]
      cases inputs.writes.settles with
      | error e' => simp [h]
      | ok u => simpa [h] using hzero
    · rw [if_neg h]
      have hpos : 0 < permitted := Nat.pos_of_ne_zero h
      have hle : permitted ≤ g.want := hp ▸ LaunchGate.permitted_le_want
      have hpublished : g.publish pending c.pool ≠ pending :=
        publish_reservation_ne h0 (g.reservation_count_pos (by omega))
      have hsettled : g.settle (g.publish pending c.pool) c.pool permitted ≠ pending := by
        rw [LaunchGate.settle_publish_pos _ _ hpos]
        exact publish_reservation_ne h0 (g.reservation_count_pos hpos)
      cases inputs.writes.settles with
      | error e' => simpa [h] using hpublished
      | ok u => simpa [h] using hsettled

omit [Flt F] in
/-- **What a launch call leaves**: the file it found exactly when it publishes no claim, or a refused one it withdraws. -/
theorem launch_pending_eq_iff (h0 : readPendingLaunches pending c.pool = 0) :
    (gateFederatedLaunch c inputs pending).1 = pending ↔ c.LeavesNothing inputs pending := by
  unfold gateFederatedLaunch LeavesNothing
  have hseeded : ∀ capacity, c.seeded capacity ≤ c.desired := fun _ => Nat.min_le_left _ _
  split
  · rename_i hle
    exact iff_of_true rfl fun capacity _ hlt => absurd (lt_of_lt_of_le hlt ((hseeded capacity).trans hle)) (lt_irrefl _)
  · cases launchCapacity c.actuator inputs.excluded inputs.seedable with
    | error e => exact iff_of_true rfl nofun
    | ok capacity =>
      simp only [Except.ok.injEq, forall_eq']
      split
      · rename_i hle
        exact iff_of_true rfl fun hlt => absurd (lt_of_lt_of_le hlt hle) (lt_irrefl _)
      · rename_i hlt
        rw [Nat.not_le] at hlt
        have hwant : 0 < c.seeded capacity - c.current := Nat.sub_pos_of_lt hlt
        cases hpub : inputs.writes.publishes with
        | error e =>
          refine iff_of_true ?_ nofun
          show (c.gate _ inputs pending).1 = pending
          unfold gate gateLaunch
          rw [hpub]
        | ok u =>
          rw [← gate_pending_eq_iff h0 hwant hpub]
          exact ⟨fun h _ _ => h, fun h => h hlt rfl⟩

omit [Flt F] in
theorem gate_file (c : LaunchCall F) (want : Nat) (inputs : GateInputs F) (pending : PendingMap) :
    (c.gate want inputs pending).1 = pending ∨ ∃ e : Option PendingEntry,
      (c.gate want inputs pending).1 = publishPendingEntry pending c.pool e := by
  have hsettle : ∀ permitted, (c.start want pending).settle ((c.start want pending).publish pending c.pool) c.pool
      permitted = publishPendingEntry pending c.pool ((c.start want pending).settledEntry permitted) :=
    fun _ => publishPendingEntry_twice _ _ _ _
  unfold gate gateLaunch
  cases inputs.writes.publishes with
  | error e => exact Or.inl rfl
  | ok u =>
    right
    cases repullRecords c.federation c.actuator c.expired (min want c.stepLimit) inputs.repull with
    | error e =>
      cases inputs.writes.settles with
      | error e => exact ⟨some ((c.start want pending).reservation (c.start want pending).want), rfl⟩
      | ok u => exact ⟨_, hsettle 0⟩
    | ok records =>
      dsimp only
      split
      · cases inputs.writes.settles with
        | error e => exact ⟨some ((c.start want pending).reservation (c.start want pending).want), rfl⟩
        | ok u => exact ⟨_, hsettle 0⟩
      · cases inputs.writes.settles with
        | error e => exact ⟨some ((c.start want pending).reservation (c.start want pending).want), rfl⟩
        | ok u => exact ⟨_, hsettle _⟩

omit [Flt F] in
theorem launch_other {p : String} (hp : p ≠ c.pool) :
    (gateFederatedLaunch c inputs pending).1[p]? = pending[p]? := by
  unfold gateFederatedLaunch
  split
  · rfl
  · cases launchCapacity c.actuator inputs.excluded inputs.seedable with
    | error e => rfl
    | ok capacity =>
      dsimp only
      split
      · rfl
      · show (c.gate _ inputs pending).1[p]? = pending[p]?
        obtain h | ⟨e, h⟩ := gate_file c (c.seeded capacity - c.current) inputs pending
        · rw [h]
        · rw [h, publishPendingEntry_getElem?, if_neg (Ne.symm hp)]

end LaunchCall

/-! ## The cycle's one call -/

namespace AccountCycle

variable {c : AccountCycle F} {o : Observation F} {w : World F}

def hostCall (c : AccountCycle F) (o : Observation F) (desired : Nat) : Option (LaunchCall F) :=
  o.hostCurrent.bind (fun current => match c.hostPlacements o desired current with
    | .error _ => none
    | .ok placements => c.hostLaunch o desired placements)

/-- The call a cycle makes to the gate: its fleet's, or its host's once the advisories are written, while no peer is
stale and nothing is reserved. -/
def gateCall (c : AccountCycle F) (o : Observation F) (d : Decision F) : Option (LaunchCall F) :=
  if o.stalePeer = false ∧ o.pending = 0 then
    match c.fleetLaunch o (c.shareTarget o d), c.writeAdvisories d with
    | some call, _ => some call
    | none, .ok () => c.hostCall o (c.shareTarget o d)
    | none, .error _ => none
  else none

def launched (c : AccountCycle F) (pending : PendingMap) (call : Option (LaunchCall F)) : PendingMap :=
  call.elim pending (fun call => (gateFederatedLaunch call c.inputs.gate pending).1)

omit [Flt F] in
theorem gateTarget_pending (call : LaunchCall F) :
    (run (c.gateTarget o call) w).2.pending =
      if o.stalePeer = false ∧ o.pending = 0 then c.launched w.pending (some call) else w.pending := by
  unfold gateTarget
  split <;> rfl

theorem keeps_finish (o : Observation F) (d : Decision F) (placements : Option (List (HostPlacement F))) :
    Keeps (fun w : World F => w.pending) (c.finish o d placements) := by
  unfold finish
  refine (keeps_actuate (fun _ _ => rfl) _ _).bind fun actuated => ?_
  refine (Keeps.lift _ _).bind fun _ => Keeps.bind ?_ fun _ => Keeps.pure _
  exact Keeps.modify fun _ => rfl

theorem placeHosts_pending (desired : Nat) :
    (run (c.placeHosts o desired) w).2.pending =
      match c.hostCall o desired with
      | none => w.pending
      | some call => (run (c.gateTarget o call) w).2.pending := by
  unfold placeHosts hostCall
  cases o.hostCurrent with
  | none => rfl
  | some current =>
    dsimp only [Option.bind_some]
    cases c.hostPlacements o desired current with
    | error e => rfl
    | ok placements =>
      show (run (match c.hostLaunch o desired placements with
        | none => pure (some placements)
        | some call => c.gateTarget o call >>= fun target =>
          pure (some (placements.map (setTarget call.federation.hostId target)))) w).2.pending =
        match c.hostLaunch o desired placements with
        | none => w.pending
        | some call => (run (c.gateTarget o call) w).2.pending
      cases c.hostLaunch o desired placements with
      | none => rfl
      | some call =>
        have hrest : ∀ target : Nat, Keeps (fun w : World F => w.pending)
            (pure (some (placements.map (setTarget call.federation.hostId target))) : CycleM F _) :=
          fun _ => Keeps.pure _
        exact Keeps.view_run_bind hrest w

omit [Flt F] in
theorem fleetLaunch_single {desired : Nat} {call : LaunchCall F} (h : c.fleetLaunch o desired = some call) :
    o.hostCurrent = none := by
  unfold fleetLaunch at h
  split at h
  · cases h
  · split at h
    · rename_i hcond
      simp only [Bool.and_eq_true, Option.isNone_iff_eq_none] at hcond
      exact hcond.1.2
    · cases h

/-- **Only the cycle's gate call writes the pending-launches file.** -/
theorem act_pending (o : Observation F) (d : Decision F) (w : World F) :
    (run (c.act o d) w).2.pending = c.launched w.pending (c.gateCall o d) := by
  unfold act
  cases hfleet : c.fleetLaunch o (c.shareTarget o d) with
  | some call =>
    have hrest : ∀ desired : Nat, Keeps (fun w : World F => w.pending) (do
        Effect.lift .observation (c.writeAdvisories d)
        let placements ← c.placeHosts o desired
        c.finish o { d with desiredWorkers := desired } placements) := by
      intro desired
      refine (Keeps.lift _ _).bind fun _ => ?_
      unfold placeHosts
      rw [fleetLaunch_single hfleet]
      exact (Keeps.pure _).bind fun _ => keeps_finish _ _ _
    refine (Keeps.view_run_bind hrest w).trans ?_
    unfold fleetTarget gateCall
    rw [hfleet, apply_ite (c.launched w.pending)]
    exact gateTarget_pending call
  | none =>
    have hdesired : c.fleetTarget o (c.shareTarget o d) = pure (c.shareTarget o d) := by
      unfold fleetTarget
      rw [hfleet]
    unfold gateCall
    rw [hdesired, run_pure_bind, hfleet, apply_ite (c.launched w.pending)]
    cases c.writeAdvisories d with
    | error e => exact (ite_self _).symm
    | ok u =>
      refine (Keeps.view_run_bind (fun placements => keeps_finish o _ placements) w).trans ?_
      refine (placeHosts_pending _).trans ?_
      show _ = if o.stalePeer = false ∧ o.pending = 0 then c.launched w.pending (c.hostCall o (c.shareTarget o d))
        else w.pending
      cases c.hostCall o (c.shareTarget o d) with
      | none => exact (ite_self _).symm
      | some call => exact gateTarget_pending call

/-- **What a cycle leaves of the file**: what its gate call does, once the account is observed. -/
theorem cycle_pending (c : AccountCycle F) (w : World F) :
    (run c.cycle w).2.pending = match (run c.observe w).1 with
      | .ok o => c.launched w.pending (c.gateCall o (c.policies o).decision)
      | .error _ => w.pending := by
  have hkeeps : (run c.observe w).2.pending = w.pending := keeps_observe (fun _ _ => rfl) w
  rcases hobserve : run c.observe w with ⟨_ | o, w'⟩
  · rw [run_cycle_error hobserve]
    rw [hobserve] at hkeeps
    exact hkeeps
  · rw [run_cycle_ok hobserve, act_pending]
    rw [hobserve] at hkeeps
    exact congrArg (fun pending => c.launched pending _) hkeeps

/-! ## What a cycle leaves -/

omit [Flt F] in
theorem fleetLaunch_pool {federation : FederationConfig} {desired : Nat} {call : LaunchCall F}
    (hfed : c.config.federated = some federation) (h : c.fleetLaunch o desired = some call) :
    call.pool = poolKey c.account c.name federation.hostId := by
  unfold fleetLaunch at h
  rw [hfed] at h
  dsimp only at h
  split at h
  · cases h
    rfl
  · cases h

theorem hostCall_pool {federation : FederationConfig} {desired : Nat} {call : LaunchCall F}
    (hfed : c.config.federated = some federation) (h : c.hostCall o desired = some call) :
    call.pool = poolKey c.account c.name federation.hostId := by
  unfold hostCall at h
  obtain ⟨current, -, h⟩ := Option.bind_eq_some_iff.1 h
  cases hplaced : c.hostPlacements o desired current with
  | error e =>
    rw [hplaced] at h
    cases h
  | ok placements =>
    rw [hplaced] at h
    dsimp only at h
    unfold hostLaunch at h
    rw [hfed] at h
    dsimp only at h
    split at h
    · cases h
    · split at h
      · cases h
      · split at h
        · cases h
          rfl
        · cases h

theorem gateCall_pool {federation : FederationConfig} {d : Decision F} {call : LaunchCall F}
    (hfed : c.config.federated = some federation) (h : c.gateCall o d = some call) :
    call.pool = poolKey c.account c.name federation.hostId ∧ o.pending = 0 := by
  unfold gateCall at h
  split at h
  · rename_i hopen
    refine ⟨?_, hopen.2⟩
    cases hfleet : c.fleetLaunch o (c.shareTarget o d) with
    | some fleetCall =>
      rw [hfleet] at h
      cases h
      exact fleetLaunch_pool hfed hfleet
    | none =>
      rw [hfleet] at h
      cases hadv : c.writeAdvisories d with
      | error e =>
        rw [hadv] at h
        cases h
      | ok u =>
        rw [hadv] at h
        exact hostCall_pool hfed h
  · cases h

/-- **No cycle touches another pool's entry**, whatever its gate and its actuator do. -/
theorem cycle_other_pools {federation : FederationConfig} (hfed : c.config.federated = some federation) {p : String}
    (hp : p ≠ poolKey c.account c.name federation.hostId) : (run c.cycle w).2.pending[p]? = w.pending[p]? := by
  rw [cycle_pending]
  cases (run c.observe w).1 with
  | error e => rfl
  | ok o =>
    dsimp only
    cases hcall : c.gateCall o (c.policies o).decision with
    | none => rfl
    | some call =>
      obtain ⟨hpool, -⟩ := gateCall_pool hfed hcall
      exact LaunchCall.launch_other (hpool ▸ hp)

def GrantsNothing (c : AccountCycle F) (w : World F) : Prop :=
  ∀ o call, (run c.observe w).1 = .ok o → c.gateCall o (c.policies o).decision = some call →
    call.LeavesNothing c.inputs.gate w.pending

/-- What no cycle of the account may change unless it launches: its own pool's entry, and every other pool's. -/
def SameReservations (pool : String) (before after : PendingMap) : Prop :=
  after[pool]? = before[pool]? ∧ ∀ p, p ≠ pool → after[p]? = before[p]?

theorem sameReservations_iff {pool : String} {before after : PendingMap} :
    SameReservations pool before after ↔ after = before := by
  constructor
  · rintro ⟨hown, hother⟩
    refine Std.ExtTreeMap.ext_getElem? fun p => ?_
    by_cases h : p = pool
    · rw [h, hown]
    · exact hother p h
  · rintro rfl
    exact ⟨rfl, fun _ _ => rfl⟩

/-- **A cycle that starts no worker leaves the reservations as they were exactly when its gate grants nothing.** -/
theorem cycle_reservations_iff {federation : FederationConfig} (hfed : c.config.federated = some federation)
    (_hnone : (run c.cycle w).2.log.started = w.log.started) :
    SameReservations (poolKey c.account c.name federation.hostId) w.pending (run c.cycle w).2.pending ↔
      GrantsNothing c w := by
  rw [sameReservations_iff, cycle_pending]
  unfold GrantsNothing
  rcases hobserve : run c.observe w with ⟨e | o, w'⟩
  · refine iff_of_true rfl fun o _ ho => ?_
    cases ho
  · simp only [Except.ok.injEq]
    obtain ⟨log, -, hread⟩ := observe_ok hobserve
    cases hcall : c.gateCall o (c.policies o).decision with
    | none =>
      apply iff_of_true rfl
      rintro o' call rfl hcall'
      rw [hcall] at hcall'
      cases hcall'
    | some call =>
      obtain ⟨hpool, hpending⟩ := gateCall_pool hfed hcall
      have h0 : readPendingLaunches w.pending call.pool = 0 := by
        have h := congrArg Prod.fst hread.pending
        unfold readPending at h
        rw [hfed] at h
        rw [hpool]
        exact h.trans hpending
      refine (LaunchCall.launch_pending_eq_iff h0).trans ⟨?_, fun h => h o call rfl hcall⟩
      rintro h o' call' rfl hcall'
      rw [hcall] at hcall'
      cases hcall'
      exact h

theorem grantsNothing_of_repull_error {e : String} (hrepull : c.inputs.gate.repull = .error e)
    (hsettles : c.inputs.gate.writes.settles = .ok ()) : GrantsNothing c w := by
  intro o call _ _ capacity _ _ _
  refine ⟨fun records hrecords => ?_, Or.inl hsettles⟩
  rw [hrepull] at hrecords
  cases hrecords

end AccountCycle

/-! ## A granted launch whose actuator fails -/

def pairAccount : AccountConfig F64 where
  fleet := { pacedFleet with
    observer := some (.needleStatus (some "sg-codex-"))
    actuator := .needleRun "repo" (some "sg-codex-") (some "demand.json") }
  utilization := { pacedUtilization with strategy := .ceilingOnly }
  bankedResets :=
    { enabled := false
      fullSpeed := false
      minimumPaceMultiplier := Flt.ofNat 1
      redeemAtUtilization := Flt.ofNat 1
      deadlineSafetySeconds := 7200 }

def pairFederation : FederationConfig := { hostId := "spark", peers := ["tower"] }

/-- An instance with one account. -/
def pairConfig (account : AccountConfig F64) : Config F64 where
  accounts := (∅ : BTreeMap (AccountConfig F64)).insert "codex" account
  federation := some pairFederation

/-- The files of an instance that has run no cycle yet. -/
def pairFiles (readyBeads : Nat) : RecordFiles F64 where
  status := ∅
  state := {}
  pending := ∅
  readyDemand _ := { readyBeads }
  hostCeiling := none
  observedAt := hours 1

def pairRecord (account : AccountConfig F64) (files : RecordFiles F64) : PeerRecord F64 :=
  buildLocalRecord (fun _ => "acct:0") (pairConfig account) pairFederation files

/-- The workers whose heartbeats are read, and a launcher that starts none. -/
def unlaunchable (workers : Nat) : FleetInputs :=
  { readOnly with
    reading := .ok workers
    actuator := fun _ => { result := .error "failed to start NEEDLE", started := 0 } }

def pairSnapshot : QuotaSnapshot F64 :=
  { drainSnapshot with windows := [week], backpressure := none }

/-- No worker runs, and there is ready work for four. -/
def pairCycle (repull : Except String (Repull F64)) : AccountCycle F64 where
  config := pairConfig pairAccount
  name := "codex"
  account := pairAccount
  inputs := { drainInputs with
    source := .ok pairSnapshot
    fleet := unlaunchable 0
    localRecord := .ok (pairRecord pairAccount (pairFiles 4))
    gate := { noRepull with seedable := .ok 4, repull } }

def answered : Repull F64 := { records := [], receivedAt := hours 1, excluded := [], seedable := .ok 4 }

/-- The gate grants two launches, the actuator fails before any, and the reservation of two stays. -/
theorem cycle_leaves_reservation :
    ¬ ∀ (c : AccountCycle F64) (w : World F64) (federation : FederationConfig), c.config.validate = .ok () →
      c.config.accounts[c.name]? = some c.account → c.config.federated = some federation →
      (run c.cycle w).2.log.started = w.log.started →
      AccountCycle.SameReservations (poolKey c.account c.name federation.hostId) w.pending
        (run c.cycle w).2.pending := by
  intro hall
  have hvalid : (pairCycle (.ok answered)).config.validate = .ok () := by decide +kernel
  have h := (hall (pairCycle (.ok answered)) freshWorld pairFederation hvalid Std.ExtTreeMap.getElem?_insert_self rfl
    (by decide +kernel)).1
  have hleft : (run (pairCycle (.ok answered)).cycle freshWorld).2.pending[poolKey (pairCycle (.ok answered)).account
      (pairCycle (.ok answered)).name pairFederation.hostId]? = some (.reserved 2 0) := by
    decide +kernel
  rw [h] at hleft
  exact absurd hleft (by decide +kernel)

/-- Without an answer from the peers the same cycle leaves the file empty. -/
theorem cycle_reservations_unanswered :
    AccountCycle.SameReservations "sg-codex-" freshWorld.pending
      (run (pairCycle (.error "timed out")).cycle freshWorld).2.pending := by
  have hfed : (pairCycle (.error "timed out")).config.federated = some pairFederation := rfl
  exact (AccountCycle.cycle_reservations_iff hfed (by decide +kernel)).2
    (AccountCycle.grantsNothing_of_repull_error rfl rfl)

end Subgov
