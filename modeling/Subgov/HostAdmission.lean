import Subgov.HostCapacity
/-!
# HostAdmission — the launches of the pools that share a host

A launch is asynchronous: a worker is started by a call and appears in the pool's count later, or is gone for good.  The
world keeps the start times of the workers still in flight beside the shared state.  `Covered` is the invariant: a pool
with workers in flight has a reservation that counts them, and that no call drops before they have settled.
-/
namespace Subgov

namespace HostCapacity

/-! ## What one decision does -/

theorem measuredCeiling_reservations (pools : List String) (sample : ResourceSample) (state : HostState) (now : ℚ) :
    (measuredCeiling pools sample state now).2.reservations = state.reservations := by
  unfold measuredCeiling
  dsimp only

theorem measuredCeiling_pressure (pools : List String) (sample : ResourceSample) (state : HostState) (now : ℚ) :
    (measuredCeiling pools sample state now).1.pressure = pressures sample := by
  unfold measuredCeiling
  dsimp only

namespace HostCall

variable {c : HostCall} {pools : List String} {state state' : HostState} {d : HostDecision}

theorem decision_error {e : String} (h : c.decision pools state = (.error e, state')) :
    state'.reservations = state.reservations := by
  unfold decision at h
  split at h
  · cases h
    rfl
  · dsimp only at h
    split at h
    · rw [← (Prod.mk.inj h).2]
      dsimp only
      rw [measuredCeiling_reservations]
    · cases h

/-- The parts of an answer, and the reservations it leaves. -/
theorem decision_ok (h : c.decision pools state = (.ok d, state')) :
    c.pool ∈ pools ∧
    d.evidence = (measuredCeiling pools c.sample state c.now).1 ∧
    d.allocations = c.allocate d.requested (d.evidence.ceiling - c.sample.unmanaged) ∧
    d.granted = c.grant pools (!d.evidence.pressure.isEmpty) (c.pending pools state.reservations) d.allocations
      (d.evidence.ceiling - c.sample.unmanaged) ∧
    state'.reservations = c.reserve d.granted (c.pending pools state.reservations) := by
  unfold decision at h
  split at h
  · cases h
  · rename_i hpool
    dsimp only at h
    split at h
    · cases h
    · rw [measuredCeiling_reservations] at h
      cases h
      exact ⟨Decidable.not_not.1 hpool, rfl, rfl, rfl, rfl⟩

/-- The pools of an answer are those of the host. -/
theorem decision_keys (h : c.decision pools state = (.ok d, state')) : d.requested.map Prod.fst = pools := by
  have hkeys : ∀ {ps : List String} {pressed : Bool} {requests : BTreeMap HostRequest} {requested : List (String × Int)},
      (ps.mapM fun key => (c.target pressed requests key).map fun target => (key, target)) = .ok requested →
        requested.map Prod.fst = ps := by
    intro ps
    induction ps with
    | nil =>
      intro pressed requests requested hrequested
      cases hrequested
      rfl
    | cons key ps ih =>
      intro pressed requests requested hrequested
      rw [List.mapM_cons] at hrequested
      cases htarget : c.target pressed requests key with
      | error e =>
        rw [htarget] at hrequested
        cases hrequested
      | ok target =>
        rw [htarget] at hrequested
        cases hrest : ps.mapM fun key => (c.target pressed requests key).map fun target => (key, target) with
        | error e =>
          rw [hrest] at hrequested
          cases hrequested
        | ok rest =>
          rw [hrest] at hrequested
          cases hrequested
          rw [List.map_cons, ih hrest]
  unfold decision at h
  split at h
  · cases h
  · dsimp only at h
    split at h
    · cases h
    · rename_i hrequested
      cases h
      exact hkeys hrequested

/-- **The allocations are within the budget.** -/
theorem sum_allocate_le (targets : List (String × Int)) (budget : Nat) :
    ((c.allocate targets budget).map Prod.snd).sum ≤ budget := by
  unfold allocate
  dsimp only
  have hheld := sum_splitTargets_le (targets.filter fun target => (c.demand target.1).isNone) (fun _ => 0) budget
  have hrest := sum_splitTargets_le (targets.filter fun target => !(c.demand target.1).isNone)
    (fun key => (c.demand key).getD 0) (budget - ((splitTargets (targets.filter fun target =>
      (c.demand target.1).isNone) (fun _ => 0) budget).map Prod.snd).sum)
  rw [List.map_append, List.sum_append]
  omega

/-- Every target has one allocation. -/
theorem keys_allocate (targets : List (String × Int)) (budget : Nat) :
    ((c.allocate targets budget).map Prod.fst).Perm (targets.map Prod.fst) := by
  unfold allocate
  dsimp only
  rw [List.map_append]
  refine ((keys_splitTargets _ _ _).append (keys_splitTargets _ _ _)).trans ?_
  rw [← List.map_append]
  exact (List.filter_append_perm _ targets).map Prod.fst

/-- **An answer allocates to every pool of the host**, each once. -/
theorem keys_allocations (h : c.decision pools state = (.ok d, state')) :
    (d.allocations.map Prod.fst).Perm pools := by
  obtain ⟨-, -, hallocations, -, -⟩ := decision_ok h
  rw [hallocations, ← decision_keys h]
  exact keys_allocate d.requested _

variable {pressed : Bool} {reservations : BTreeMap Reservation} {allocations : List (String × Nat)} {budget : Nat}

theorem grant_le_room : c.grant pools pressed reservations allocations budget ≤ c.room pools reservations budget := by
  unfold grant
  dsimp only
  split
  · exact le_trans (Nat.min_le_left _ _) (Nat.min_le_right _ _)
  · exact Nat.min_le_right _ _

/-- A pool under pressure, of unknown demand or with a reservation is granted no launch. -/
theorem grant_le_counts (h : pressed = true ∨ c.demand c.pool = none ∨ reservations.contains c.pool = true) :
    c.grant pools pressed reservations allocations budget ≤ c.sample.counts c.pool := by
  have hheld : (pressed || (c.demand c.pool).isNone || reservations.contains c.pool) = true := by
    rcases h with h | h | h
    · rw [h, Bool.true_or, Bool.true_or]
    · rw [h, Option.isNone_none, Bool.or_true, Bool.true_or]
    · rw [h, Bool.or_true]
  unfold grant
  dsimp only
  rw [if_pos hheld]
  exact Nat.min_le_right _ _

theorem counts_le_effective (key : String) : c.sample.counts key ≤ c.effective reservations key := Nat.le_max_left _ _

variable (c pools pressed reservations allocations budget) in
/-- A grant leaves room for what the other pools have and may get. -/
theorem grant_fits (h : 0 < c.grant pools pressed reservations allocations budget) :
    c.grant pools pressed reservations allocations budget +
      ((pools.filter (· ≠ c.pool)).map (c.effective reservations)).sum ≤ budget := by
  have hroom : c.grant pools pressed reservations allocations budget ≤
      budget - ((pools.filter (· ≠ c.pool)).map (c.effective reservations)).sum := grant_le_room
  omega

theorem pending_getElem? (key : String) (hkey : key ∈ pools) (state : HostState) :
    (c.pending pools state.reservations)[key]? = state.reservations[key]?.filter fun reservation =>
      !decide (reservation.count ≤ c.sample.counts key) && isFresh (c.now - reservation.time) := by
  unfold pending
  rw [Std.ExtTreeMap.getElem?_filter']
  congr 1
  funext reservation
  rw [decide_eq_true hkey, Bool.true_and]

/-- The call starts workers, and reserves them. -/
def launches (c : HostCall) (granted : Nat) : Prop := c.desired.isSome = true ∧ c.sample.counts c.pool < granted

theorem reserve_of_launches {granted : Nat} (h : c.launches granted) :
    c.reserve granted reservations = reservations.insert c.pool { count := granted, time := c.now } := by
  unfold reserve
  rw [h.1, decide_eq_true h.2, Bool.and_self, if_pos rfl]

theorem reserve_of_not_launches {granted : Nat} (h : ¬ c.launches granted) :
    c.reserve granted reservations = reservations := by
  unfold reserve
  refine if_neg fun hlaunches => h ?_
  rw [Bool.and_eq_true, decide_eq_true_eq] at hlaunches
  exact hlaunches

theorem reserve_getElem?_ne {granted : Nat} {key : String} (h : key ≠ c.pool) :
    (c.reserve granted reservations)[key]? = reservations[key]? := by
  unfold reserve
  split
  · rw [Std.ExtTreeMap.getElem?_insert, if_neg]
    intro hsame
    exact h (Std.LawfulEqOrd.eq_of_compare hsame).symm
  · rfl

end HostCall

theorem pressures_nonempty {sample : ResourceSample}
    (h : psiLimit ≤ sample.memoryPsi ∨ psiLimit ≤ sample.ioPsi ∨ sample.cpus * loadRatio ≤ sample.load) :
    (pressures sample).isEmpty = false := by
  rw [List.isEmpty_eq_false_iff]
  unfold pressures
  rcases h with h | h | h
  · rw [if_pos h]
    exact List.cons_ne_nil _ _
  · rw [if_pos h]
    exact List.append_ne_nil_of_left_ne_nil (List.append_ne_nil_of_right_ne_nil _ (List.cons_ne_nil _ _)) _
  · rw [if_pos h]
    exact List.append_ne_nil_of_right_ne_nil _ (List.cons_ne_nil _ _)

/-! ## The world between the calls -/

/-- The shared state, the workers there are, and the start times of those not yet visible. -/
structure HostWorld where
  state : HostState
  counts : String → Nat
  inFlight : String → List ℚ
  clock : ℚ

/-- From one call to the next: a started worker becomes visible or is gone in time, and no other worker appears. -/
structure Elapses (pools : List String) (w w' : HostWorld) : Prop where
  state : w'.state = w.state
  clock : w.clock ≤ w'.clock
  inFlight : ∀ key ∈ pools, (w'.inFlight key).Sublist (w.inFlight key)
  inTime : ∀ key ∈ pools, ∀ start ∈ w'.inFlight key, w'.clock - start ≤ freshSeconds
  counts : ∀ key ∈ pools, w'.counts key + (w'.inFlight key).length ≤ w.counts key + (w.inFlight key).length

/-- The call samples this world. -/
structure Observes (pools : List String) (c : HostCall) (w : HostWorld) : Prop where
  counts : ∀ key ∈ pools, c.sample.counts key = w.counts key
  now : c.now = w.clock

/-- A grant above the pool's workers starts the missing ones. -/
def HostCall.started (c : HostCall) (granted : Nat) : List ℚ :=
  if c.desired.isSome then List.replicate (granted - c.sample.counts c.pool) c.now else []

theorem HostCall.started_of_not_launches {c : HostCall} {granted : Nat} (h : ¬ c.launches granted) :
    c.started granted = [] := by
  unfold HostCall.started
  split
  · rename_i hdesired
    have hle : granted - c.sample.counts c.pool = 0 := Nat.sub_eq_zero_of_le (not_lt.1 fun hlt => h ⟨hdesired, hlt⟩)
    rw [hle, List.replicate_zero]
  · rfl

def HostWorld.step (pools : List String) (w : HostWorld) (c : HostCall) : HostWorld :=
  match c.decision pools w.state with
  | (.error _, state) => { w with state }
  | (.ok d, state) => { w with
      state
      inFlight := Function.update w.inFlight c.pool (c.started d.granted ++ w.inFlight c.pool) }

/-- The worlds after any calls, from any shared state with no worker in flight. -/
inductive Reachable (pools : List String) : HostWorld → Prop
  | start (state : HostState) (counts : String → Nat) (clock : ℚ) :
    Reachable pools { state, counts, inFlight := fun _ => [], clock }
  | call {w w' : HostWorld} {c : HostCall} (h : Reachable pools w) (helapses : Elapses pools w w')
    (hobserves : Observes pools c w') : Reachable pools (w'.step pools c)

/-- The reservation of a pool counts its workers in flight, and is no older than they are. -/
structure Holds (w : HostWorld) (key : String) (reservation : Reservation) : Prop where
  count : w.counts key + (w.inFlight key).length ≤ reservation.count
  started : ∀ start ∈ w.inFlight key, start ≤ reservation.time
  past : reservation.time ≤ w.clock

/-- Every pool with workers in flight has such a reservation. -/
def Covered (pools : List String) (w : HostWorld) : Prop :=
  ∀ key ∈ pools, w.inFlight key ≠ [] → ∃ reservation, w.state.reservations[key]? = some reservation ∧
    Holds w key reservation

section World

variable {pools : List String} {w w' : HostWorld} {c : HostCall} {key : String}

theorem Covered.elapses (h : Covered pools w) (helapses : Elapses pools w w') : Covered pools w' := by
  intro key hkey hflight
  have hsub := helapses.inFlight key hkey
  have hbefore : w.inFlight key ≠ [] := by
    intro hnil
    rw [hnil] at hsub
    exact hflight (List.sublist_nil.1 hsub)
  obtain ⟨reservation, hreservation, hholds⟩ := h key hkey hbefore
  refine ⟨reservation, ?_, ?_, fun start hstart => ?_, ?_⟩
  · rw [helapses.state, hreservation]
  · exact le_trans (helapses.counts key hkey) hholds.count
  · exact hholds.started start (hsub.subset hstart)
  · exact le_trans hholds.past helapses.clock

/-- **No call drops the reservation of workers in flight.** -/
theorem Covered.pending (h : Covered pools w) (hobserves : Observes pools c w)
    (hfresh : ∀ start ∈ w.inFlight key, w.clock - start ≤ freshSeconds) (hkey : key ∈ pools)
    (hflight : w.inFlight key ≠ []) :
    ∃ reservation, (c.pending pools w.state.reservations)[key]? = some reservation ∧ Holds w key reservation := by
  obtain ⟨reservation, hreservation, hholds⟩ := h key hkey hflight
  refine ⟨reservation, ?_, hholds⟩
  obtain ⟨start, hstart⟩ := List.exists_mem_of_ne_nil _ hflight
  have hmissing : ¬ reservation.count ≤ c.sample.counts key := by
    have hlength := List.length_pos_iff.2 hflight
    have hcount := hholds.count
    rw [hobserves.counts key hkey]
    omega
  have hage : isFresh (c.now - reservation.time) = true := by
    have hold := hfresh start hstart
    have hstarted := hholds.started start hstart
    have hpast := hholds.past
    unfold isFresh
    rw [hobserves.now, Bool.and_eq_true, decide_eq_true_eq, decide_eq_true_eq]
    exact ⟨sub_nonneg.2 hpast, le_trans (sub_le_sub_left hstarted _) hold⟩
  rw [HostCall.pending_getElem? key hkey, hreservation]
  refine Option.filter_eq_some_iff.2 ⟨rfl, ?_⟩
  rw [hage, decide_eq_false hmissing]
  rfl

/-- **The workers of a pool, those in flight included, are within what the decision counts for it.** -/
theorem Covered.effective (h : Covered pools w) (hobserves : Observes pools c w)
    (hfresh : ∀ start ∈ w.inFlight key, w.clock - start ≤ freshSeconds) (hkey : key ∈ pools) :
    w.counts key + (w.inFlight key).length ≤ c.effective (c.pending pools w.state.reservations) key := by
  by_cases hflight : w.inFlight key = []
  · rw [hflight, List.length_nil, Nat.add_zero, ← hobserves.counts key hkey]
    exact HostCall.counts_le_effective key
  · obtain ⟨reservation, hreservation, hholds⟩ := h.pending hobserves hfresh hkey hflight
    unfold HostCall.effective
    rw [hreservation]
    exact le_trans hholds.count (Nat.le_max_right _ _)

/-- A pool with workers in flight is granted no launch. -/
theorem Covered.granted_le (h : Covered pools w) (hobserves : Observes pools c w)
    (hfresh : ∀ start ∈ w.inFlight c.pool, w.clock - start ≤ freshSeconds) {state : HostState} {d : HostDecision}
    (hd : c.decision pools w.state = (.ok d, state)) (hflight : w.inFlight c.pool ≠ []) :
    d.granted ≤ c.sample.counts c.pool := by
  obtain ⟨hpool, -, -, hgranted, -⟩ := HostCall.decision_ok hd
  obtain ⟨reservation, hreservation, -⟩ := h.pending hobserves hfresh hpool hflight
  rw [hgranted]
  refine HostCall.grant_le_counts (Or.inr (Or.inr ?_))
  rw [Std.ExtTreeMap.contains_eq_isSome_getElem?, hreservation]
  rfl

/-- A step that leaves a pool's workers in flight leaves what its reservation holds. -/
theorem Holds.after {reservation : Reservation} (h : Holds w key reservation) (state : HostState) {pool : String}
    {flight : List ℚ} (hkept : Function.update w.inFlight pool flight key = w.inFlight key) :
    Holds { w with state, inFlight := Function.update w.inFlight pool flight } key reservation where
  count := by
    dsimp only
    rw [hkept]
    exact h.count
  started := by
    dsimp only
    rw [hkept]
    exact h.started
  past := h.past

/-- A pool that is granted a launch had no worker in flight, and those it starts are reserved. -/
theorem Covered.launched (h : Covered pools w) (hobserves : Observes pools c w) (hpool : c.pool ∈ pools)
    (hfresh : ∀ start ∈ w.inFlight c.pool, w.clock - start ≤ freshSeconds) {d : HostDecision} {state : HostState}
    (hd : c.decision pools w.state = (.ok d, state)) (hlaunches : c.launches d.granted) :
    Holds { w with
      state
      inFlight := Function.update w.inFlight c.pool (c.started d.granted ++ w.inFlight c.pool) } c.pool
        { count := d.granted, time := c.now } := by
  have hlt := hlaunches.2
  have hnone : w.inFlight c.pool = [] := by
    by_contra hbefore
    have hle := h.granted_le hobserves hfresh hd hbefore
    omega
  have hflight : Function.update w.inFlight c.pool (c.started d.granted ++ w.inFlight c.pool) c.pool =
      List.replicate (d.granted - c.sample.counts c.pool) c.now := by
    rw [Function.update_self, hnone, List.append_nil, HostCall.started, if_pos hlaunches.1]
  refine ⟨?_, fun start hstart => ?_, le_of_eq hobserves.now⟩
  · have hcounts := hobserves.counts c.pool hpool
    dsimp only
    rw [hflight, List.length_replicate]
    omega
  · dsimp only at hstart
    rw [hflight] at hstart
    rw [(List.mem_replicate.1 hstart).2]

/-- **A call keeps the workers in flight covered.** -/
theorem Covered.step (h : Covered pools w) (hobserves : Observes pools c w)
    (hfresh : ∀ key ∈ pools, ∀ start ∈ w.inFlight key, w.clock - start ≤ freshSeconds) :
    Covered pools (w.step pools c) := by
  unfold HostWorld.step
  split
  · rename_i e state hd
    intro key hkey hflight
    obtain ⟨reservation, hreservation, hholds⟩ := h key hkey hflight
    refine ⟨reservation, ?_, hholds.count, hholds.started, hholds.past⟩
    rw [← hreservation]
    exact congrArg (·[key]?) (HostCall.decision_error hd)
  · rename_i d state hd
    obtain ⟨hpool, -, -, -, hreservations⟩ := HostCall.decision_ok hd
    intro key hkey hflight
    dsimp only at hflight ⊢
    by_cases hsame : key = c.pool
    · subst hsame
      by_cases hlaunches : c.launches d.granted
      · refine ⟨{ count := d.granted, time := c.now }, ?_, h.launched hobserves hpool (hfresh _ hpool) hd hlaunches⟩
        rw [hreservations, HostCall.reserve_of_launches hlaunches, Std.ExtTreeMap.getElem?_insert_self]
      · have hkept : Function.update w.inFlight c.pool (c.started d.granted ++ w.inFlight c.pool) c.pool =
            w.inFlight c.pool := by
          rw [Function.update_self, HostCall.started_of_not_launches hlaunches, List.nil_append]
        rw [hkept] at hflight
        obtain ⟨reservation, hreservation, hholds⟩ := h.pending hobserves (hfresh c.pool hpool) hpool hflight
        refine ⟨reservation, ?_, hholds.after state hkept⟩
        rw [hreservations, HostCall.reserve_of_not_launches hlaunches, hreservation]
    · have hkept : Function.update w.inFlight c.pool (c.started d.granted ++ w.inFlight c.pool) key = w.inFlight key :=
        Function.update_of_ne hsame ..
      rw [hkept] at hflight
      obtain ⟨reservation, hreservation, hholds⟩ := h.pending hobserves (hfresh key hkey) hkey hflight
      refine ⟨reservation, ?_, hholds.after state hkept⟩
      rw [hreservations, HostCall.reserve_getElem?_ne hsame, hreservation]

/-- **Every reachable world has its workers in flight covered.** -/
theorem Reachable.covered (h : Reachable pools w) : Covered pools w := by
  induction h with
  | start state counts clock =>
    intro key _ hflight
    exact absurd rfl hflight
  | call _ helapses hobserves ih => exact (ih.elapses helapses).step hobserves helapses.inTime

end World

/-- **Admission never over-commits the measured host.**  At every call the allocations are within the budget, a grant
that starts workers fits the ceiling beside every other worker, visible or in flight, and a pool with workers in flight,
under pressure or of unknown demand is granted none. -/
theorem host_admission_safe (pools : List String) {w w' : HostWorld} (h : Reachable pools w)
    (helapses : Elapses pools w w') (c : HostCall) (hobserves : Observes pools c w') (d : HostDecision)
    (state : HostState) (hd : c.decision pools w'.state = (.ok d, state)) :
    (d.allocations.map Prod.snd).sum ≤ d.evidence.ceiling - c.sample.unmanaged ∧
    (w'.counts c.pool < d.granted →
      d.granted + ((pools.filter (· ≠ c.pool)).map fun key => w'.counts key + (w'.inFlight key).length).sum +
        c.sample.unmanaged ≤ d.evidence.ceiling) ∧
    (w'.inFlight c.pool ≠ [] → d.granted ≤ w'.counts c.pool) ∧
    (psiLimit ≤ c.sample.memoryPsi ∨ psiLimit ≤ c.sample.ioPsi ∨ c.sample.cpus * loadRatio ≤ c.sample.load ∨
        c.demand c.pool = none → d.granted ≤ w'.counts c.pool) := by
  have hcovered := h.covered.elapses helapses
  obtain ⟨hpool, hevidence, hallocations, hgranted, -⟩ := HostCall.decision_ok hd
  have hcounts := hobserves.counts c.pool hpool
  refine ⟨?_, fun hlt => ?_, fun hflight => ?_, fun hheld => ?_⟩
  · rw [hallocations]
    exact HostCall.sum_allocate_le _ _
  · have hpositive : 0 < c.grant pools (!d.evidence.pressure.isEmpty) (c.pending pools w'.state.reservations)
        d.allocations (d.evidence.ceiling - c.sample.unmanaged) := by
      rw [← hgranted]
      omega
    have hfits := HostCall.grant_fits c pools _ _ _ _ hpositive
    have hothers : ((pools.filter (· ≠ c.pool)).map fun key => w'.counts key + (w'.inFlight key).length).sum ≤
        ((pools.filter (· ≠ c.pool)).map (c.effective (c.pending pools w'.state.reservations))).sum :=
      List.sum_le_sum fun key hkey =>
        hcovered.effective hobserves (helapses.inTime key (List.mem_filter.1 hkey).1) (List.mem_filter.1 hkey).1
    rw [← hgranted] at hfits
    omega
  · rw [← hcounts]
    exact hcovered.granted_le hobserves (helapses.inTime c.pool hpool) hd hflight
  · have hpressed : (!d.evidence.pressure.isEmpty) = true ∨ c.demand c.pool = none ∨
        (c.pending pools w'.state.reservations).contains c.pool = true := by
      rw [hevidence, measuredCeiling_pressure]
      rcases hheld with hpsi | hpsi | hload | hunknown
      · rw [pressures_nonempty (Or.inl hpsi)]
        exact Or.inl rfl
      · rw [pressures_nonempty (Or.inr (Or.inl hpsi))]
        exact Or.inl rfl
      · rw [pressures_nonempty (Or.inr (Or.inr hload))]
        exact Or.inl rfl
      · exact Or.inr (Or.inl hunknown)
    rw [← hcounts, hgranted]
    exact HostCall.grant_le_counts hpressed

/-! ## Two pools on one host -/

def quietSample : ResourceSample where
  counts _ := 1
  unmanaged := 1
  rss := []
  memAvailable := 32 * gib
  sliceCurrent := 0
  sliceHigh := none
  memoryPsi := 0
  ioPsi := 0
  load := 1
  cpus := 8

def quietCall (pool : String) (desired : Int) : HostCall where
  pool
  desired := some desired
  sample := quietSample
  demandFiles _ := .sample 1000 (some 5)
  now := 1000

def quietPools : List String := ["codex", "zai"]

def quietWorld : HostWorld := { state := {}, counts := fun _ => 1, inFlight := fun _ => [], clock := 1000 }

theorem Elapses.none {pools : List String} {w : HostWorld}
    (h : ∀ key ∈ pools, ∀ start ∈ w.inFlight key, w.clock - start ≤ freshSeconds) : Elapses pools w w where
  state := rfl
  clock := le_refl _
  inFlight _ _ := List.Sublist.refl _
  inTime := h
  counts _ _ := Nat.le_refl _

/-- The launch of `zai` is granted, and its two workers are in flight. -/
def launchedWorld : HostWorld := quietWorld.step quietPools (quietCall "zai" 3)

/-- `codex` asks for four then; it is granted the three that fit beside the workers of `zai`. -/
theorem host_admission_safe_quiet :
    ∃ d state, (quietCall "codex" 4).decision quietPools launchedWorld.state = (.ok d, state) ∧ d.granted = 3 ∧
      d.granted + ((quietPools.filter (· ≠ "codex")).map fun key =>
        launchedWorld.counts key + (launchedWorld.inFlight key).length).sum + 1 ≤ d.evidence.ceiling := by
  have hobserves : ∀ pool desired, Observes quietPools (quietCall pool desired) quietWorld := fun _ _ =>
    { counts := fun _ _ => rfl, now := rfl }
  have hreachable : Reachable quietPools launchedWorld :=
    .call (.start {} (fun _ => 1) 1000) (Elapses.none fun _ _ _ hstart => absurd hstart List.not_mem_nil)
      (hobserves "zai" 3)
  have helapses : Elapses quietPools launchedWorld launchedWorld := Elapses.none (by decide +kernel)
  have hsamples : Observes quietPools (quietCall "codex" 4) launchedWorld :=
    { counts := by decide +kernel, now := by decide +kernel }
  have hgranted : ((quietCall "codex" 4).decision quietPools launchedWorld.state).1.toOption.map (·.granted) = some 3 := by
    decide +kernel
  rcases hd : (quietCall "codex" 4).decision quietPools launchedWorld.state with ⟨e | d, state⟩
  · rw [hd] at hgranted
    cases hgranted
  · rw [hd] at hgranted
    have hthree : d.granted = 3 := Option.some.inj hgranted
    have hmore : launchedWorld.counts "codex" < d.granted := by
      rw [hthree]
      decide +kernel
    exact ⟨d, state, rfl, hthree,
      (host_admission_safe quietPools hreachable helapses (quietCall "codex" 4) hsamples d state hd).2.1 hmore⟩

end HostCapacity

end Subgov
