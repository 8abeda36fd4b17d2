import Subgov.CycleState
/-!
# HostReading — the count a cycle reads off its own host

A cycle reads the observer of its own host before the decision, and once more after the actuation when its actuator
reconciles unchanged targets.  `P` stands for a property of the last count read: a computation maintains it when every
count it can read has it, and establishes it when it must read one.
-/
namespace Subgov

open FloatArith Effect

variable {F : Type}

/-- The host of this instance, in a fleet of several. -/
def ownHost (fleet : FleetConfig F) (localHost : Option String) : Option (HostConfig F) :=
  localHost.bind fun id => fleet.hosts.bind (·[id]?)

/-- What the observer on this instance's own host answers. -/
def ownReading (fleet : FleetConfig F) (localHost : Option String) (reading : Except String Nat)
    (hostReading : String → Except String Nat) : Option Nat :=
  if fleet.hasHosts then
    localHost.bind fun id => (ownHost fleet localHost).bind fun host =>
      (observeWith host.observer (hostReading id)).toOption
  else fleet.observer.bind fun observer => (observeWith observer reading).toOption

def ownActuator (fleet : FleetConfig F) (localHost : Option String) : ActuatorConfig :=
  if fleet.hasHosts then ((ownHost fleet localHost).map (·.actuator)).getD .none else fleet.actuator

section Fleet

variable {fleet : FleetConfig F} {localHost : Option String} {reading : Except String Nat}
  {hostReading : String → Except String Nat} {P : Option Nat → Prop}

theorem maintains_note {n : Nat} (h : P (some n)) : Maintains (fun log : FleetLog => P log.observed) (note n) :=
  Maintains.modify fun _ _ => h

theorem establishes_note {n : Nat} (h : P (some n)) : Establishes (fun log : FleetLog => P log.observed) (note n) :=
  Establishes.modify fun _ => h

theorem maintains_currentWorkers (hhosts : fleet.hasHosts = false)
    (h : ∀ n, ownReading fleet localHost reading hostReading = some n → P (some n)) :
    Maintains (fun log : FleetLog => P log.observed) (currentWorkers fleet reading) := by
  unfold currentWorkers
  split
  · exact Maintains.throw _
  · rename_i observer hobserver
    refine Maintains.lift_bind fun n hn => (maintains_note (h n ?_)).bind fun _ => Maintains.lift _ _
    unfold ownReading
    rw [hhosts, if_neg Bool.false_ne_true, hobserver, Option.bind_some, hn]
    rfl

theorem establishes_currentWorkers (hhosts : fleet.hasHosts = false)
    (h : ∀ n, ownReading fleet localHost reading hostReading = some n → P (some n)) :
    Establishes (fun log : FleetLog => P log.observed) (currentWorkers fleet reading) := by
  unfold currentWorkers
  split
  · exact nofun
  · rename_i observer hobserver
    refine Establishes.lift_bind fun n hn => (establishes_note (h n ?_)).bind_left fun _ => Maintains.lift _ _
    unfold ownReading
    rw [hhosts, if_neg Bool.false_ne_true, hobserver, Option.bind_some, hn]
    rfl

variable {id context : String} {host : HostConfig F}

theorem ownReading_host (hhosts : fleet.hasHosts = true) (hid : localHost = some id)
    (hhost : fleet.hosts.bind (·[id]?) = some host) {n : Nat} (hn : observeWith host.observer (hostReading id) = .ok n) :
    ownReading fleet localHost reading hostReading = some n := by
  unfold ownReading ownHost
  rw [hhosts, if_pos rfl, hid, Option.bind_some, Option.bind_some, hhost, Option.bind_some, hn]
  rfl

theorem maintains_observeHost (hhosts : fleet.hasHosts = true) (hhost : fleet.hosts.bind (·[id]?) = some host)
    (h : ∀ n, ownReading fleet localHost reading hostReading = some n → P (some n)) :
    Maintains (fun log : FleetLog => P log.observed) (observeHost localHost context host id (hostReading id)) := by
  unfold observeHost
  refine Maintains.lift_bind fun n hn => ?_
  split
  · rename_i hid
    exact (maintains_note (h n (ownReading_host hhosts hid hhost hn))).bind fun _ => Maintains.pure _
  · exact Maintains.pure _

theorem establishes_observeHost (hhosts : fleet.hasHosts = true) (hid : localHost = some id)
    (hhost : fleet.hosts.bind (·[id]?) = some host)
    (h : ∀ n, ownReading fleet localHost reading hostReading = some n → P (some n)) :
    Establishes (fun log : FleetLog => P log.observed) (observeHost localHost context host id (hostReading id)) := by
  unfold observeHost
  refine Establishes.lift_bind fun n hn => ?_
  rw [if_pos hid]
  exact (establishes_note (h n (ownReading_host hhosts hid hhost hn))).bind_left fun _ => Maintains.pure _

theorem configuredHosts_ok {hosts : BTreeMap (HostConfig F)} (h : configuredHosts fleet = .ok hosts) :
    fleet.hosts = some hosts ∧ fleet.hasHosts = true := by
  unfold configuredHosts at h
  split at h
  · cases h
  · rename_i hhosts
    cases h
    obtain ⟨hsome, hne⟩ := Option.filter_eq_some_iff.1 hhosts
    exact ⟨hsome, by simpa [FleetConfig.hasHosts, hsome] using hne⟩

theorem mem_hosts_iff {hosts : BTreeMap (HostConfig F)} (hsome : fleet.hosts = some hosts) :
    (id, host) ∈ hosts.toList ↔ fleet.hosts.bind (·[id]?) = some host := by
  rw [hsome, Option.bind_some]
  exact Std.ExtTreeMap.mem_toList_iff_getElem?_eq_some

theorem maintains_currentHostWorkers
    (h : ∀ n, ownReading fleet localHost reading hostReading = some n → P (some n)) :
    Maintains (fun log : FleetLog => P log.observed) (currentHostWorkers fleet localHost hostReading) := by
  unfold currentHostWorkers
  refine Maintains.lift_bind fun hosts hhosts => Maintains.bind (Maintains.mapM ?_) fun _ => Maintains.pure _
  obtain ⟨hsome, hhas⟩ := configuredHosts_ok hhosts
  rintro ⟨id, host⟩ hmem
  exact (maintains_observeHost hhas ((mem_hosts_iff hsome).1 hmem) h).bind fun _ => Maintains.pure _

theorem establishes_currentHostWorkers (hid : localHost = some id) (hhost : fleet.hosts.bind (·[id]?) = some host)
    (h : ∀ n, ownReading fleet localHost reading hostReading = some n → P (some n)) :
    Establishes (fun log : FleetLog => P log.observed) (currentHostWorkers fleet localHost hostReading) := by
  unfold currentHostWorkers
  refine Establishes.lift_bind fun hosts hhosts => Establishes.bind_left ?_ fun _ => Maintains.pure _
  obtain ⟨hsome, hhas⟩ := configuredHosts_ok hhosts
  refine Establishes.mapM ?_ ((mem_hosts_iff hsome).2 hhost) ?_
  · exact (establishes_observeHost hhas hid hhost h).bind_left fun _ => Maintains.pure _
  · rintro ⟨id, host⟩ hmem
    exact (maintains_observeHost hhas ((mem_hosts_iff hsome).1 hmem) h).bind fun _ => Maintains.pure _

theorem maintains_actuateConfig (actuator : ActuatorConfig) (observed desired : Nat) (call : Nat → ActuatorCall) :
    Maintains (fun log : FleetLog => P log.observed) (actuateConfig actuator observed desired call) := by
  unfold actuateConfig
  split
  · exact Maintains.pure _
  · split
    · exact Maintains.pure _
    · refine Maintains.bind (Maintains.modify fun _ h => h) fun _ => ?_
      exact (Maintains.lift _ _).bind fun _ => Maintains.pure _

variable {inputs : FleetInputs} {observed desired : Nat}

theorem maintains_actuateWithExclusions (hhosts : fleet.hasHosts = false)
    (h : reconcileUnchanged (ownActuator fleet localHost) = true →
      ∀ n, ownReading fleet localHost inputs.postReading inputs.postHostReading = some n → P (some n)) :
    Maintains (fun log : FleetLog => P log.observed) (actuateWithExclusions fleet observed desired inputs) := by
  unfold actuateWithExclusions
  refine (maintains_actuateConfig _ _ _ _).bind fun outcome => (Maintains.lift _ _).bind fun _ => ?_
  split
  · rename_i hagain
    have hown : ownActuator fleet localHost = fleet.actuator := by
      unfold ownActuator
      rw [hhosts, if_neg Bool.false_ne_true]
    exact (maintains_currentWorkers hhosts (h (hown ▸ hagain))).bind fun _ => Maintains.pure _
  · exact Maintains.pure _

theorem establishes_actuateWithExclusions (hhosts : fleet.hasHosts = false)
    (hagain : reconcileUnchanged (ownActuator fleet localHost) = true)
    (h : ∀ n, ownReading fleet localHost inputs.postReading inputs.postHostReading = some n → P (some n)) :
    Establishes (fun log : FleetLog => P log.observed) (actuateWithExclusions fleet observed desired inputs) := by
  have hown : ownActuator fleet localHost = fleet.actuator := by
    unfold ownActuator
    rw [hhosts, if_neg Bool.false_ne_true]
  rw [hown] at hagain
  unfold actuateWithExclusions
  refine Establishes.bind_right fun outcome => Establishes.bind_right fun _ => ?_
  rw [if_pos hagain]
  exact (establishes_currentWorkers hhosts h).bind_left fun _ => Maintains.pure _

theorem ownActuator_host (hhosts : fleet.hasHosts = true) (hid : localHost = some id)
    (hhost : fleet.hosts.bind (·[id]?) = some host) : ownActuator fleet localHost = host.actuator := by
  unfold ownActuator ownHost
  rw [hhosts, if_pos rfl, hid, Option.bind_some, hhost]
  rfl

variable {selectedHost : Option String} {current target : Nat}

theorem maintains_actuateHost (hhosts : fleet.hasHosts = true) (hhost : fleet.hosts.bind (·[id]?) = some host)
    (h : reconcileUnchanged (ownActuator fleet localHost) = true →
      ∀ n, ownReading fleet localHost inputs.postReading inputs.postHostReading = some n → P (some n)) :
    Maintains (fun log : FleetLog => P log.observed)
      (actuateHost inputs localHost selectedHost id host current target) := by
  unfold actuateHost
  split
  · exact Maintains.pure _
  · refine (Maintains.mapError _ (maintains_actuateConfig _ _ _ _)).bind fun outcome => ?_
    split
    · rename_i hagain
      refine Maintains.bind ?_ fun _ => Maintains.pure _
      by_cases hid : localHost = some id
      · rw [ownActuator_host hhosts hid hhost] at h
        exact maintains_observeHost hhosts hhost (h hagain)
      · unfold observeHost
        refine Maintains.lift_bind fun n _ => ?_
        rw [if_neg hid]
        exact Maintains.pure _
    · exact Maintains.pure _

theorem establishes_actuateHost (hhosts : fleet.hasHosts = true) (hid : localHost = some id)
    (hselected : selectedHost.any (· != id) = false) (hhost : fleet.hosts.bind (·[id]?) = some host)
    (hagain : reconcileUnchanged (ownActuator fleet localHost) = true)
    (h : ∀ n, ownReading fleet localHost inputs.postReading inputs.postHostReading = some n → P (some n)) :
    Establishes (fun log : FleetLog => P log.observed)
      (actuateHost inputs localHost selectedHost id host current target) := by
  rw [ownActuator_host hhosts hid hhost] at hagain
  unfold actuateHost
  rw [hselected, if_neg Bool.false_ne_true]
  refine Establishes.bind_right fun outcome => ?_
  rw [if_pos hagain]
  exact (establishes_observeHost hhosts hid hhost h).bind_left fun _ => Maintains.pure _

variable {placements : List (HostPlacement F)}

theorem maintains_actuateHostTargets
    (h : reconcileUnchanged (ownActuator fleet localHost) = true →
      ∀ n, ownReading fleet localHost inputs.postReading inputs.postHostReading = some n → P (some n)) :
    Maintains (fun log : FleetLog => P log.observed)
      (actuateHostTargets fleet placements inputs localHost selectedHost) := by
  unfold actuateHostTargets
  refine Maintains.lift_bind fun hosts hhosts => (Maintains.lift _ _).bind fun _ => ?_
  refine Maintains.bind (Maintains.mapM ?_) fun _ => Maintains.pure _
  obtain ⟨hsome, hhas⟩ := configuredHosts_ok hhosts
  rintro ⟨id, host⟩ hmem
  exact (maintains_actuateHost hhas ((mem_hosts_iff hsome).1 hmem) h).bind fun _ => Maintains.pure _

theorem establishes_actuateHostTargets (hid : localHost = some id) (hselected : selectedHost.any (· != id) = false)
    (hhost : fleet.hosts.bind (·[id]?) = some host)
    (hagain : reconcileUnchanged (ownActuator fleet localHost) = true)
    (h : ∀ n, ownReading fleet localHost inputs.postReading inputs.postHostReading = some n → P (some n)) :
    Establishes (fun log : FleetLog => P log.observed)
      (actuateHostTargets fleet placements inputs localHost selectedHost) := by
  unfold actuateHostTargets
  refine Establishes.lift_bind fun hosts hhosts => Establishes.bind_right fun _ => ?_
  refine Establishes.bind_left ?_ fun _ => Maintains.pure _
  obtain ⟨hsome, hhas⟩ := configuredHosts_ok hhosts
  refine Establishes.mapM ?_ ((mem_hosts_iff hsome).2 hhost) ?_
  · exact (establishes_actuateHost hhas hid hselected hhost hagain h).bind_left fun _ => Maintains.pure _
  · rintro ⟨id, host⟩ hmem
    exact (maintains_actuateHost hhas ((mem_hosts_iff hsome).1 hmem) fun _ => h).bind fun _ => Maintains.pure _

end Fleet

/-! ## One cycle -/

section OnFleet

variable {α : Type} {P : Option Nat → Prop} {wrap : String → AccountFailure} {m : FleetM α}

theorem maintains_onFleet (hm : Maintains (fun log : FleetLog => P log.observed) m) :
    Maintains (fun w : World F => P w.log.observed) (onFleet wrap m) := by
  unfold onFleet
  refine Maintains.focus ?_ ?_ wrap hm
  · exact fun _ h => h
  · exact fun _ _ _ h => h

theorem establishes_onFleet (hm : Establishes (fun log : FleetLog => P log.observed) m) :
    Establishes (fun w : World F => P w.log.observed) (onFleet wrap m) := by
  unfold onFleet
  refine Establishes.focus ?_ wrap hm
  exact fun _ _ h => h

end OnFleet

namespace AccountCycle

variable [Flt F] {c : AccountCycle F} {o : Observation F} {w : World F} {P : Option Nat → Prop}

def readBefore (c : AccountCycle F) : Option Nat :=
  ownReading c.account.fleet c.config.localHost c.inputs.fleet.reading c.inputs.fleet.hostReading

def readAfter (c : AccountCycle F) : Option Nat :=
  ownReading c.account.fleet c.config.localHost c.inputs.fleet.postReading c.inputs.fleet.postHostReading

def observesAgain (c : AccountCycle F) (o : Observation F) : Bool :=
  !c.inputs.observeOnly && !c.safetyHold o && reconcileUnchanged (ownActuator c.account.fleet c.config.localHost)

def lastReading (c : AccountCycle F) (o : Observation F) : Option Nat :=
  if c.observesAgain o then c.readAfter else c.readBefore

omit [Flt F] in
theorem maintains_observeWorkers (h : ∀ n, c.readBefore = some n → P (some n)) :
    Maintains (fun log : FleetLog => P log.observed) c.observeWorkers := by
  unfold observeWorkers
  split
  · exact (maintains_currentHostWorkers h).bind fun _ => (Maintains.lift _ _).bind fun _ => Maintains.pure _
  · rename_i hhosts
    exact (maintains_currentWorkers (Bool.eq_false_iff.2 hhosts) h).bind fun _ => Maintains.pure _

omit [Flt F] in
theorem ownReading_host_of_some {fleet : FleetConfig F} {localHost : Option String} {reading : Except String Nat}
    {hostReading : String → Except String Nat} {n : Nat} (hhosts : fleet.hasHosts = true)
    (h : ownReading fleet localHost reading hostReading = some n) :
    ∃ id host, localHost = some id ∧ fleet.hosts.bind (·[id]?) = some host := by
  unfold ownReading ownHost at h
  rw [hhosts, if_pos rfl] at h
  obtain ⟨id, hid, h⟩ := Option.bind_eq_some_iff.1 h
  rw [hid, Option.bind_some] at h
  obtain ⟨host, hhost, -⟩ := Option.bind_eq_some_iff.1 h
  exact ⟨id, host, hid, hhost⟩

omit [Flt F] in
theorem establishes_observeWorkers {n : Nat} (hread : c.readBefore = some n) (h : P (some n)) :
    Establishes (fun log : FleetLog => P log.observed) c.observeWorkers := by
  have hall : ∀ m, c.readBefore = some m → P (some m) := by
    rintro m hm
    rw [hread] at hm
    cases hm
    exact h
  unfold observeWorkers
  split
  · rename_i hhosts
    obtain ⟨id, host, hid, hhost⟩ := ownReading_host_of_some hhosts hread
    exact (establishes_currentHostWorkers hid hhost hall).bind_left fun _ =>
      (Maintains.lift _ _).bind fun _ => Maintains.pure _
  · rename_i hhosts
    exact (establishes_currentWorkers (Bool.eq_false_iff.2 hhosts) hall).bind_left fun _ => Maintains.pure _

theorem maintains_observe (h : ∀ n, c.readBefore = some n → P (some n)) :
    Maintains (fun w : World F => P w.log.observed) c.observe := by
  unfold observe
  refine (Maintains.lift _ _).bind fun _ => (maintains_onFleet (maintains_observeWorkers h)).bind fun ⟨_, _⟩ => ?_
  refine Maintains.get.bind fun _ => (Maintains.lift _ _).bind fun _ => (Maintains.lift _ _).bind fun _ => ?_
  exact (Maintains.lift _ _).bind fun _ => Maintains.pure _

omit [Flt F] in
theorem maintains_actuate (h : c.observesAgain o = true → ∀ n, c.readAfter = some n → P (some n)) (desired : Nat)
    {placements : Option (List (HostPlacement F))} (hplaced : placements.isSome = c.account.fleet.hasHosts) :
    Maintains (fun w : World F => P w.log.observed) (c.actuate o desired placements) := by
  unfold actuate
  split
  · exact Maintains.pure _
  · rename_i hacts
    rw [Bool.not_eq_true, Bool.or_eq_false_iff] at hacts
    have hagain : reconcileUnchanged (ownActuator c.account.fleet c.config.localHost) = true →
        ∀ n, c.readAfter = some n → P (some n) := by
      intro hr
      apply h
      unfold observesAgain
      rw [hacts.1, hacts.2, hr]
      rfl
    cases placements with
    | some placements =>
      refine (maintains_onFleet (maintains_actuateHostTargets hagain)).bind fun _ => ?_
      exact (Maintains.lift _ _).bind fun _ => Maintains.pure _
    | none =>
      exact (maintains_onFleet (maintains_actuateWithExclusions hplaced.symm hagain)).bind fun _ => Maintains.pure _

omit [Flt F] in
theorem selected_own {id : String} (hid : c.config.localHost = some id) :
    (c.config.federated.map (·.hostId)).any (· != id) = false := by
  unfold Config.localHost at hid
  unfold Config.federated
  cases hfed : c.config.federation with
  | none => rfl
  | some federation =>
    rw [hfed, Option.map_some, Option.some.injEq] at hid
    subst hid
    by_cases hpeers : federation.peers = []
    · simp [Option.filter, hpeers]
    · simp [Option.filter, hpeers]

omit [Flt F] in
theorem establishes_actuate (hagain : c.observesAgain o = true) {n : Nat} (hread : c.readAfter = some n)
    (h : P (some n)) (desired : Nat) {placements : Option (List (HostPlacement F))}
    (hplaced : placements.isSome = c.account.fleet.hasHosts) :
    Establishes (fun w : World F => P w.log.observed) (c.actuate o desired placements) := by
  have hall : ∀ m, c.readAfter = some m → P (some m) := by
    rintro m hm
    rw [hread] at hm
    cases hm
    exact h
  unfold observesAgain at hagain
  simp only [Bool.and_eq_true, Bool.not_eq_true'] at hagain
  obtain ⟨⟨hmode, hhold⟩, hagain⟩ := hagain
  unfold actuate
  rw [hmode, hhold, Bool.or_false, if_neg Bool.false_ne_true]
  cases placements with
  | some placements =>
    obtain ⟨id, host, hid, hhost⟩ := ownReading_host_of_some hplaced.symm hread
    refine (establishes_onFleet (establishes_actuateHostTargets hid (selected_own hid) hhost hagain hall)).bind_left
      fun _ => ?_
    exact (Maintains.lift _ _).bind fun _ => Maintains.pure _
  | none =>
    exact (establishes_onFleet (establishes_actuateWithExclusions hplaced.symm hagain hall)).bind_left fun _ =>
      Maintains.pure _

omit [Flt F] in
theorem yields_observeWorkers :
    Yields (fun r : Option (BTreeMap Nat) × Nat => r.1.isSome = c.account.fleet.hasHosts) c.observeWorkers := by
  unfold observeWorkers
  split
  · rename_i hhosts
    exact Yields.bind fun _ => Yields.bind fun _ => Yields.pure hhosts.symm
  · rename_i hhosts
    exact Yields.bind fun _ => Yields.pure (Bool.eq_false_iff.2 hhosts).symm

theorem yields_placeHosts (desired : Nat) :
    Yields (fun placements => placements.isSome = o.hostCurrent.isSome) (c.placeHosts o desired) := by
  unfold placeHosts
  cases o.hostCurrent with
  | none => exact Yields.pure rfl
  | some current =>
    refine Yields.bind fun placements => ?_
    cases c.hostLaunch o desired placements with
    | none => exact Yields.pure rfl
    | some call => exact Yields.bind fun _ => Yields.pure rfl

theorem maintains_finish (h : c.observesAgain o = true → ∀ n, c.readAfter = some n → P (some n)) (d : Decision F)
    {placements : Option (List (HostPlacement F))} (hplaced : placements.isSome = c.account.fleet.hasHosts) :
    Maintains (fun w : World F => P w.log.observed) (c.finish o d placements) := by
  unfold finish
  refine (maintains_actuate h _ hplaced).bind fun actuated => (Maintains.lift _ _).bind fun _ => ?_
  refine Maintains.bind (Maintains.modify ?_) fun _ => Maintains.pure _
  exact fun _ h => h

theorem maintains_act (hhosts : o.hostCurrent.isSome = c.account.fleet.hasHosts)
    (h : c.observesAgain o = true → ∀ n, c.readAfter = some n → P (some n)) (d : Decision F) :
    Maintains (fun w : World F => P w.log.observed) (c.act o d) := by
  have hfleet : ∀ desired, Keeps (fun w : World F => w.log.observed) (c.fleetTarget o desired) :=
    keeps_fleetTarget fun _ _ => rfl
  have hplace : ∀ desired, Keeps (fun w : World F => w.log.observed) (c.placeHosts o desired) :=
    keeps_placeHosts fun _ _ => rfl
  unfold act
  refine (Maintains.of_keeps P (hfleet _)).bind fun desired => (Maintains.lift _ _).bind fun _ => ?_
  refine (Maintains.of_keeps P (hplace _)).bind_yields (yields_placeHosts _) fun placements hplaced => ?_
  exact maintains_finish h _ (hplaced.trans hhosts)

theorem establishes_act (hhosts : o.hostCurrent.isSome = c.account.fleet.hasHosts) (hagain : c.observesAgain o = true)
    {n : Nat} (hread : c.readAfter = some n) (h : P (some n)) (d : Decision F) :
    Establishes (fun w : World F => P w.log.observed) (c.act o d) := by
  unfold act
  refine Establishes.bind_right fun desired => Establishes.bind_right fun _ => ?_
  refine Establishes.bind_yields (yields_placeHosts _) fun placements hplaced => ?_
  unfold finish
  refine (establishes_actuate hagain hread h _ (hplaced.trans hhosts)).bind_left fun _ => ?_
  refine (Maintains.lift _ _).bind fun _ => Maintains.bind (Maintains.modify ?_) fun _ => Maintains.pure _
  exact fun _ h => h

theorem yields_act (o : Observation F) (d : Decision F) :
    Yields (fun report => report.readiness.currentWorkers = some d.currentWorkers) (c.act o d) := by
  unfold act finish
  refine Yields.bind fun _ => Yields.bind fun _ => Yields.bind fun _ => Yields.bind fun _ => ?_
  exact Yields.bind fun _ => Yields.bind fun _ => Yields.pure rfl

/-- **A completed cycle reports the count its decision sizes, and has last read what its own host answered last.** -/
theorem cycle_ok {w' : World F} {report : CycleReport} (h : run c.cycle w = (.ok report, w')) :
    ∃ o log, ObservedFrom c w o log ∧ report.readiness.currentWorkers = some (c.policies o).decision.currentWorkers ∧
      ∀ n, c.lastReading o = some n → w'.log.observed = some n := by
  rcases hobserve : run c.observe w with ⟨e | o, w₁⟩
  · rw [run_cycle_error hobserve] at h
    cases h
  · obtain ⟨log, rfl, hread⟩ := observe_ok hobserve
    rw [run_cycle_ok hobserve] at h
    refine ⟨o, log, hread, yields_act o _ _ _ _ h, fun n hlast => ?_⟩
    have hhosts : o.hostCurrent.isSome = c.account.fleet.hasHosts := yields_observeWorkers _ _ _ hread.workers
    unfold lastReading at hlast
    by_cases hagain : c.observesAgain o = true
    · rw [if_pos hagain] at hlast
      have hafter : Establishes (fun w : World F => w.log.observed = some n) (c.act o (c.policies o).decision) :=
        establishes_act (P := (· = some n)) hhosts hagain hlast rfl _
      exact hafter _ _ _ h
    · rw [if_neg hagain] at hlast
      have hbefore : Establishes (fun log : FleetLog => log.observed = some n) c.observeWorkers :=
        establishes_observeWorkers (P := (· = some n)) hlast rfl
      have hkept : Maintains (fun w : World F => w.log.observed = some n) (c.act o (c.policies o).decision) :=
        maintains_act (P := (· = some n)) hhosts (fun hr => absurd hr hagain) _
      have := hkept (c.stored o { w with log }) (hbefore _ _ _ hread.workers)
      rwa [h] at this

/-- Whatever becomes of a cycle, a property of the last count read holds if every count it can read has it. -/
theorem cycle_observed (hbefore : ∀ n, c.readBefore = some n → P (some n))
    (hafter : ∀ n, c.readAfter = some n → P (some n)) (hw : P w.log.observed) : P (run c.cycle w).2.log.observed := by
  have hobserved := maintains_observe hbefore w hw
  rcases hobserve : run c.observe w with ⟨e | o, w₁⟩
  · rw [run_cycle_error hobserve]
    rwa [hobserve] at hobserved
  · rw [run_cycle_ok hobserve]
    rw [hobserve] at hobserved
    obtain ⟨log, rfl, hread⟩ := observe_ok hobserve
    have hhosts : o.hostCurrent.isSome = c.account.fleet.hasHosts := yields_observeWorkers _ _ _ hread.workers
    exact maintains_act hhosts (fun _ => hafter) _ (c.stored o { w with log }) hobserved

end AccountCycle

end Subgov
