import Subgov.StatusReport
import Subgov.Lib.Trace
/-!
# PeerPull — a peer's pull beside the governor's cycles

`build_local_record` reads the status file and then the pending launches, with no lock across the two, while the
governor moves a launch from the second file to the first.  `Host` interleaves the two at the granularity of their reads
and writes, for one account.  The governor writes the status file first, but the pull reads it first too: a pull that
has read the status from before the launch was counted finds the reservation cleared (`pull_covered_iff`).
-/
namespace Subgov

open FloatArith Trace

/-! ## The interleaving -/

/-- Where the governor's cycle is; `clears` is whether it has observed the reservation it is to clear. -/
inductive Stage
  | idle
  | observed (workers : Nat) (clears : Bool)
  | claimed (gate : LaunchGate) (clears : Bool)
  | launching (workers left : Nat) (clears : Bool)
  | reported (clears : Bool)
  deriving DecidableEq

/-- A pull between its two reads: the status file it read, the workers running or launched when it did, and whether the
file has been written since. -/
structure Pull where
  status : BTreeMap StatusDigest
  active : Nat
  outdated : Bool

/-- The two files and the parties; `unseen` counts the workers launched under the present reservation. -/
structure Host where
  active : Nat
  unseen : Nat := 0
  status : BTreeMap StatusDigest
  pending : PendingMap
  stage : Stage := .idle
  pull : Option Pull := none

inductive HostEvent
  | observe (workers : Nat)
  | claim (want stepLimit : Nat)
  | settle (permitted : Nat)
  | launch
  | exit
  | report (desired : Nat)
  | finish
  | readStatus
  | readPending
  | otherPool (pool : String) (entry : Option PendingEntry)
  deriving DecidableEq

def reportedWorkers (status : BTreeMap StatusDigest) (name : String) : Nat :=
  (status[name]?.bind (·.currentWorkers)).getD 0

namespace Host

def report (name : String) (h : Host) (workers desired : Nat) (clears : Bool) : Host :=
  { h with
    status := h.status.insert name { currentWorkers := some workers, desiredWorkers := some desired }
    stage := .reported clears
    pull := h.pull.map fun p => { p with outdated := true } }

/-- One read, write, launch or exit.  An observer can miss only the workers launched under the present reservation, and
a launch is asked for only where nothing is reserved. -/
def next (name pool : String) (h : Host) : HostEvent → Option Host
  | .observe workers =>
    match h.stage with
    | .idle =>
      if h.active ≤ workers + h.unseen ∧ workers ≤ h.active then
        some { h with stage := .observed workers (pendingObserved h.pending pool workers) }
      else none
    | _ => none
  | .claim want stepLimit =>
    match h.stage with
    | .observed workers clears =>
      if readPendingLaunches h.pending pool = 0 ∧ workers + want ≤ u32Max then
        let gate := LaunchGate.start h.pending pool want stepLimit workers 0
        some { h with pending := gate.publish h.pending pool, stage := .claimed gate clears }
      else none
    | _ => none
  | .settle permitted =>
    match h.stage with
    | .claimed gate clears =>
      if permitted ≤ gate.want then
        some { h with
          pending := gate.settle h.pending pool permitted
          stage := .launching gate.ownWorkers permitted clears }
      else none
    | _ => none
  | .launch =>
    match h.stage with
    | .launching workers (left + 1) clears =>
      some { h with active := h.active + 1, unseen := h.unseen + 1, stage := .launching workers left clears }
    | _ => none
  | .exit => if 0 < h.active then some { h with active := h.active - 1 } else none
  | .report desired =>
    match h.stage with
    | .observed workers clears => some (h.report name workers desired clears)
    | .launching workers _ clears => some (h.report name workers desired clears)
    | _ => none
  | .finish =>
    match h.stage with
    | .reported true =>
      some { h with pending := clearPendingLaunchesPool h.pending pool, unseen := 0, stage := .idle }
    | .reported false => some { h with stage := .idle }
    | _ => none
  | .readStatus =>
    match h.pull with
    | none => some { h with pull := some { status := h.status, active := h.active, outdated := false } }
    | some _ => none
  | .readPending =>
    match h.pull with
    | some _ => some { h with pull := none }
    | none => none
  | .otherPool p entry =>
    if p ≠ pool then some { h with pending := publishPendingEntry h.pending p entry } else none

/-- A host at rest, whose status file counts every worker. -/
def Initial (name pool : String) (h : Host) : Prop :=
  h.stage = .idle ∧ h.pull = none ∧ h.unseen = 0 ∧ h.pending[pool]? = none ∧ h.active ≤ reportedWorkers h.status name

/-- The reservation is cleared only when no pull has read, before this cycle's status was written, fewer workers than
were active then. -/
def Timely (name : String) (h : Host) (e : HostEvent) : Prop :=
  e = .finish → h.stage = .reported true →
    ∀ p ∈ h.pull, p.outdated = true → p.active ≤ reportedWorkers p.status name

instance (name : String) (h : Host) (e : HostEvent) : Decidable (Timely name h e) :=
  inferInstanceAs (Decidable (e = .finish → h.stage = .reported true →
    ∀ p ∈ h.pull, p.outdated = true → p.active ≤ reportedWorkers p.status name))

/-- What the pull in progress publishes, if its second read is now, covers the workers of its first. -/
def Covered {F : Type} (account : AccountConfig F) (name localHost : String) (h : Host) : Prop :=
  ∀ p ∈ h.pull, ∀ (state : State F) (demand : PeerReadyDemand),
    ∀ pool ∈ (poolStates account name localHost p.status state h.pending demand)[poolKey account name localHost]?,
      p.active ≤ pool.governedWorkers + pool.pendingLaunches

/-! ## The invariant -/

/-- Between gates nothing is reserved, or a reservation that covers what was launched under it. -/
def AtRest (pool : String) (h : Host) : Prop :=
  (h.pending[pool]? = none ∧ h.unseen = 0) ∨
  ∃ count baseline, h.pending[pool]? = some (.reserved count baseline) ∧ 0 < count ∧ h.unseen ≤ count ∧
    h.active ≤ baseline + h.unseen ∧ baseline + count ≤ u32Max

/-- What the governor knows at each stage. -/
def StageInv (name pool : String) (h : Host) : Stage → Prop
  | .idle => AtRest pool h
  | .observed workers clears => AtRest pool h ∧ h.active ≤ workers + h.unseen ∧
      (clears = true → h.active ≤ workers ∧ readPendingLaunches h.pending pool ≠ 0)
  | .claimed gate clears => clears = false ∧ gate.previous = none ∧ gate.ownPending = 0 ∧ h.unseen = 0 ∧
      h.active ≤ gate.ownWorkers ∧ gate.ownWorkers + gate.want ≤ u32Max
  | .launching workers left clears => clears = false ∧ AtRest pool h ∧ h.active ≤ workers + h.unseen ∧
      h.unseen + left ≤ readPendingLaunches h.pending pool
  | .reported clears => AtRest pool h ∧ (clears = true → h.active ≤ reportedWorkers h.status name ∧
      ∀ p ∈ h.pull, p.outdated = false → p.active ≤ reportedWorkers p.status name)

structure Invariant (name pool : String) (h : Host) : Prop where
  counted : h.active ≤ reportedWorkers h.status name + h.unseen
  reserved : h.unseen ≤ readPendingLaunches h.pending pool
  pulled : ∀ p ∈ h.pull, p.active ≤ reportedWorkers p.status name + h.unseen
  stage : StageInv name pool h h.stage

variable {name pool : String} {h h' : Host}

theorem Initial.invariant (h0 : Initial name pool h) : Invariant name pool h := by
  obtain ⟨hstage, hpull, hunseen, hpending, hactive⟩ := h0
  refine ⟨le_trans hactive (Nat.le_add_right _ _), ?_, ?_, ?_⟩
  · rw [hunseen]
    exact Nat.zero_le _
  · rw [hpull]
    exact nofun
  · rw [hstage]
    exact Or.inl ⟨hpending, hunseen⟩

theorem AtRest.reserved (hrest : AtRest pool h) : h.unseen ≤ readPendingLaunches h.pending pool := by
  unfold readPendingLaunches
  rcases hrest with ⟨hnone, hunseen⟩ | ⟨count, baseline, hentry, -, hle, -⟩
  · rw [hunseen]
    exact Nat.zero_le _
  · rw [hentry]
    exact hle

theorem AtRest.none_of_zero (hrest : AtRest pool h) (hzero : readPendingLaunches h.pending pool = 0) :
    h.pending[pool]? = none ∧ h.unseen = 0 := by
  rcases hrest with hnone | ⟨count, baseline, hentry, hpos, -⟩
  · exact hnone
  · unfold readPendingLaunches at hzero
    rw [hentry] at hzero
    exact absurd hzero (Nat.pos_iff_ne_zero.1 hpos)

/-- An observation of the reservation has counted every worker. -/
theorem AtRest.observed (hrest : AtRest pool h) {workers : Nat}
    (hclears : pendingObserved h.pending pool workers = true) :
    h.active ≤ workers ∧ readPendingLaunches h.pending pool ≠ 0 := by
  unfold pendingObserved at hclears
  unfold readPendingLaunches
  rcases hrest with ⟨hnone, -⟩ | ⟨count, baseline, hentry, hpos, hunseen, hactive, hfit⟩
  · rw [hnone] at hclears
    cases hclears
  · rw [hentry] at hclears ⊢
    have hcounted : satAdd baseline count ≤ workers := of_decide_eq_true hclears
    rw [satAdd_of_le hfit] at hcounted
    exact ⟨by omega, Nat.pos_iff_ne_zero.1 hpos⟩

/-! ## The steps -/

namespace Invariant

theorem observe (hinv : Invariant name pool h) (hidle : h.stage = .idle) {workers : Nat}
    (hseen : h.active ≤ workers + h.unseen) :
    Invariant name pool { h with stage := .observed workers (pendingObserved h.pending pool workers) } := by
  have hrest : AtRest pool h := by
    have hstage := hinv.stage
    rwa [hidle] at hstage
  exact { hinv with stage := ⟨hrest, hseen, hrest.observed⟩ }

theorem claim (hinv : Invariant name pool h) {workers want : Nat} {clears : Bool}
    (hobserved : h.stage = .observed workers clears) (hzero : readPendingLaunches h.pending pool = 0)
    (hfit : workers + want ≤ u32Max) (stepLimit : Nat) :
    Invariant name pool { h with
      pending := (LaunchGate.start h.pending pool want stepLimit workers 0).publish h.pending pool
      stage := .claimed (LaunchGate.start h.pending pool want stepLimit workers 0) clears } := by
  have hstage := hinv.stage
  rw [hobserved] at hstage
  obtain ⟨hrest, hactive, hclears⟩ := hstage
  obtain ⟨hnone, hunseen⟩ := hrest.none_of_zero hzero
  have hfalse : clears = false := Bool.eq_false_iff.2 fun htrue => (hclears htrue).2 hzero
  rw [hunseen, Nat.add_zero] at hactive
  refine ⟨hinv.counted, ?_, hinv.pulled, hfalse, hnone, rfl, hunseen, hactive, ?_⟩
  · rw [hunseen]
    exact Nat.zero_le _
  · exact le_trans (Nat.add_le_add_left (min_le_left _ _) _) hfit

theorem settle (hinv : Invariant name pool h) {gate : LaunchGate} {clears : Bool} {permitted : Nat}
    (hclaimed : h.stage = .claimed gate clears) (hwant : permitted ≤ gate.want) :
    Invariant name pool { h with
      pending := gate.settle h.pending pool permitted
      stage := .launching gate.ownWorkers permitted clears } := by
  have hstage := hinv.stage
  rw [hclaimed] at hstage
  obtain ⟨hfalse, hprevious, hown, hunseen, hactive, hfit⟩ := hstage
  have hentry : (gate.settle h.pending pool permitted)[pool]? =
      if permitted = 0 then none else some (.reserved permitted gate.ownWorkers) := by
    have hbaseline : gate.baseline = gate.ownWorkers := by
      unfold LaunchGate.baseline
      rw [hprevious]
    have hcount : satAdd gate.ownPending permitted = permitted := by
      rw [hown, satAdd_of_le (by omega), Nat.zero_add]
    unfold LaunchGate.settle LaunchGate.settledEntry LaunchGate.reservation
    rw [publishPendingEntry_getElem?, if_pos rfl, hprevious, hbaseline, hcount]
  refine ⟨hinv.counted, ?_, hinv.pulled, hfalse, ?_, ?_, ?_⟩
  · rw [hunseen]
    exact Nat.zero_le _
  · by_cases hzero : permitted = 0
    · rw [if_pos hzero] at hentry
      exact Or.inl ⟨hentry, hunseen⟩
    · rw [if_neg hzero] at hentry
      refine Or.inr ⟨permitted, gate.ownWorkers, hentry, Nat.pos_of_ne_zero hzero, ?_, ?_, ?_⟩
      · rw [hunseen]
        exact Nat.zero_le _
      · exact le_trans hactive (Nat.le_add_right _ _)
      · exact le_trans (Nat.add_le_add_left hwant _) hfit
  · exact le_trans hactive (Nat.le_add_right _ _)
  · unfold readPendingLaunches
    rw [hentry, hunseen, Nat.zero_add]
    by_cases hzero : permitted = 0
    · rw [hzero]
      exact Nat.zero_le _
    · rw [if_neg hzero]
      exact le_refl _

theorem launch (hinv : Invariant name pool h) {workers left : Nat} {clears : Bool}
    (hlaunching : h.stage = .launching workers (left + 1) clears) :
    Invariant name pool { h with
      active := h.active + 1
      unseen := h.unseen + 1
      stage := .launching workers left clears } := by
  have hstage := hinv.stage
  rw [hlaunching] at hstage
  obtain ⟨hfalse, hrest, hactive, hleft⟩ := hstage
  have hcounted := hinv.counted
  have hrest' : AtRest pool { h with active := h.active + 1, unseen := h.unseen + 1 } := by
    unfold readPendingLaunches at hleft
    rcases hrest with ⟨hnone, hunseen⟩ | ⟨count, baseline, hentry, hpos, hle, hbase, hfit⟩
    · rw [hnone, hunseen] at hleft
      exact absurd hleft (by simp)
    · rw [hentry] at hleft
      change h.unseen + (left + 1) ≤ count at hleft
      refine Or.inr ⟨count, baseline, hentry, hpos, ?_, ?_, hfit⟩
      · show h.unseen + 1 ≤ count
        omega
      · show h.active + 1 ≤ baseline + (h.unseen + 1)
        omega
  refine ⟨?_, hrest'.reserved, fun p hp => ?_, hfalse, hrest', ?_, ?_⟩
  · show h.active + 1 ≤ reportedWorkers h.status name + (h.unseen + 1)
    omega
  · exact le_trans (hinv.pulled p hp) (Nat.add_le_add_left (Nat.le_succ _) _)
  · show h.active + 1 ≤ workers + (h.unseen + 1)
    omega
  · show h.unseen + 1 + left ≤ readPendingLaunches h.pending pool
    omega

theorem lower (hinv : Invariant name pool h) {active : Nat} {pending : PendingMap} (hle : active ≤ h.active)
    (hsame : pending[pool]? = h.pending[pool]?) : Invariant name pool { h with active, pending } := by
  have hread : readPendingLaunches pending pool = readPendingLaunches h.pending pool := by
    unfold readPendingLaunches
    rw [hsame]
  have hrest : AtRest pool h → AtRest pool { h with active, pending } := by
    rintro (⟨hnone, hunseen⟩ | ⟨count, baseline, hentry, hpos, hunseen, hbase, hfit⟩)
    · exact Or.inl ⟨hsame.trans hnone, hunseen⟩
    · exact Or.inr ⟨count, baseline, hsame.trans hentry, hpos, hunseen, le_trans hle hbase, hfit⟩
  refine ⟨le_trans hle hinv.counted, hread ▸ hinv.reserved, hinv.pulled, ?_⟩
  have hstage := hinv.stage
  show StageInv name pool { h with active, pending } h.stage
  cases hs : h.stage with
  | idle =>
    rw [hs] at hstage
    exact hrest hstage
  | observed workers clears =>
    rw [hs] at hstage
    obtain ⟨hr, hactive, hclears⟩ := hstage
    exact ⟨hrest hr, le_trans hle hactive, fun htrue => ⟨le_trans hle (hclears htrue).1, hread ▸ (hclears htrue).2⟩⟩
  | claimed gate clears =>
    rw [hs] at hstage
    obtain ⟨hfalse, hprevious, hown, hunseen, hactive, hfit⟩ := hstage
    exact ⟨hfalse, hprevious, hown, hunseen, le_trans hle hactive, hfit⟩
  | launching workers left clears =>
    rw [hs] at hstage
    obtain ⟨hfalse, hr, hactive, hleft⟩ := hstage
    exact ⟨hfalse, hrest hr, le_trans hle hactive, hread ▸ hleft⟩
  | reported clears =>
    rw [hs] at hstage
    obtain ⟨hr, hclears⟩ := hstage
    exact ⟨hrest hr, fun htrue => ⟨le_trans hle (hclears htrue).1, (hclears htrue).2⟩⟩

theorem report (hinv : Invariant name pool h) (hrest : AtRest pool h) {workers : Nat} {clears : Bool}
    (hactive : h.active ≤ workers + h.unseen) (hclears : clears = true → h.active ≤ workers) (desired : Nat) :
    Invariant name pool (h.report name workers desired clears) := by
  have hreported : reportedWorkers (h.report name workers desired clears).status name = workers := by
    unfold reportedWorkers Host.report
    rw [Std.ExtTreeMap.getElem?_insert_self]
    rfl
  refine ⟨?_, hinv.reserved, fun p hp => ?_, hrest, fun htrue => ⟨?_, fun p hp hcurrent => ?_⟩⟩
  · rw [hreported]
    exact hactive
  · obtain ⟨q, hq, rfl⟩ := Option.map_eq_some_iff.1 hp
    exact hinv.pulled q hq
  · rw [hreported]
    exact hclears htrue
  · -- every pull in progress read the file before it was written
    obtain ⟨q, -, rfl⟩ := Option.map_eq_some_iff.1 hp
    cases hcurrent

/-- **A timely clearing loses no worker.** -/
theorem clear (hinv : Invariant name pool h) (hreported : h.stage = .reported true)
    (htimely : Timely name h .finish) :
    Invariant name pool { h with pending := clearPendingLaunchesPool h.pending pool, unseen := 0, stage := .idle } := by
  have hstage := hinv.stage
  rw [hreported] at hstage
  obtain ⟨-, hclears⟩ := hstage
  obtain ⟨hactive, hpulled⟩ := hclears rfl
  refine ⟨hactive, Nat.zero_le _, fun p hp => ?_, Or.inl ⟨?_, rfl⟩⟩
  · cases hout : p.outdated with
    | true => exact htimely rfl hreported p hp hout
    | false => exact hpulled p hp hout
  · unfold clearPendingLaunchesPool
    rw [publishPendingEntry_getElem?, if_pos rfl]

theorem setPull (hinv : Invariant name pool h) {pull : Option Pull}
    (hpulled : ∀ p ∈ pull, p.active ≤ reportedWorkers p.status name + h.unseen)
    (hcurrent : h.active ≤ reportedWorkers h.status name →
      ∀ p ∈ pull, p.outdated = false → p.active ≤ reportedWorkers p.status name) :
    Invariant name pool { h with pull } := by
  refine ⟨hinv.counted, hinv.reserved, hpulled, ?_⟩
  have hstage := hinv.stage
  show StageInv name pool { h with pull } h.stage
  cases hs : h.stage with
  | reported clears =>
    rw [hs] at hstage
    obtain ⟨hrest, hclears⟩ := hstage
    exact ⟨hrest, fun htrue => ⟨(hclears htrue).1, hcurrent (hclears htrue).1⟩⟩
  | _ =>
    rw [hs] at hstage
    exact hstage

/-- **Every timely step keeps the invariant.** -/
theorem next (hinv : Invariant name pool h) {e : HostEvent} (htimely : Timely name h e)
    (hstep : Host.next name pool h e = some h') : Invariant name pool h' := by
  have hstage := hinv.stage
  cases e with
  | observe workers =>
    simp only [Host.next] at hstep
    split at hstep
    · rename_i hidle
      split at hstep
      · rename_i hseen
        cases hstep
        exact hinv.observe hidle hseen.1
      · cases hstep
    · cases hstep
  | claim want stepLimit =>
    simp only [Host.next] at hstep
    split at hstep
    · rename_i workers clears hobserved
      split at hstep
      · rename_i hfree
        cases hstep
        exact hinv.claim hobserved hfree.1 hfree.2 stepLimit
      · cases hstep
    · cases hstep
  | settle permitted =>
    simp only [Host.next] at hstep
    split at hstep
    · rename_i gate clears hclaimed
      split at hstep
      · rename_i hwant
        cases hstep
        exact hinv.settle hclaimed hwant
      · cases hstep
    · cases hstep
  | launch =>
    simp only [Host.next] at hstep
    split at hstep
    · rename_i workers left clears hlaunching
      cases hstep
      exact hinv.launch hlaunching
    · cases hstep
  | exit =>
    simp only [Host.next] at hstep
    split at hstep
    · cases hstep
      exact hinv.lower (Nat.sub_le _ _) rfl
    · cases hstep
  | report desired =>
    simp only [Host.next] at hstep
    split at hstep
    · rename_i workers clears hobserved
      cases hstep
      rw [hobserved] at hstage
      obtain ⟨hrest, hactive, hclears⟩ := hstage
      exact hinv.report hrest hactive (fun htrue => (hclears htrue).1) desired
    · rename_i workers left clears hlaunching
      cases hstep
      rw [hlaunching] at hstage
      obtain ⟨rfl, hrest, hactive, -⟩ := hstage
      exact hinv.report hrest hactive (fun htrue => absurd htrue Bool.false_ne_true) desired
    · cases hstep
  | finish =>
    simp only [Host.next] at hstep
    split at hstep
    · rename_i hreported
      cases hstep
      exact hinv.clear hreported htimely
    · rename_i hreported
      cases hstep
      rw [hreported] at hstage
      exact { hinv with stage := hstage.1 }
    · cases hstep
  | readStatus =>
    simp only [Host.next] at hstep
    split at hstep
    · cases hstep
      refine hinv.setPull (fun p hp => ?_) fun hcounted p hp _ => ?_
      · cases hp
        exact hinv.counted
      · cases hp
        exact hcounted
    · cases hstep
  | readPending =>
    simp only [Host.next] at hstep
    split at hstep
    · cases hstep
      exact hinv.setPull nofun nofun
    · cases hstep
  | otherPool p entry =>
    simp only [Host.next] at hstep
    split at hstep
    · rename_i hne
      cases hstep
      exact hinv.lower le_rfl (by rw [publishPendingEntry_getElem?, if_neg hne])
    · cases hstep

end Invariant

/-! ## What a pull publishes -/

section Covered

variable {F : Type} {account : AccountConfig F} {localHost : String}

theorem covered_iff : Covered account name localHost h ↔ ∀ p ∈ h.pull,
    p.active ≤ reportedWorkers p.status name + readPendingLaunches h.pending (poolKey account name localHost) := by
  unfold Covered poolStates
  simp only [Std.ExtTreeMap.getElem?_insert_self, Option.mem_def, Option.some.injEq, forall_eq']
  exact ⟨fun hall p hp => hall p hp {} { readyBeads := 0 }, fun hall p hp _ _ => hall p hp⟩

theorem Invariant.covered (hinv : Invariant name (poolKey account name localHost) h) :
    Covered account name localHost h := by
  refine covered_iff.2 fun p hp => ?_
  exact le_trans (hinv.pulled p hp) (Nat.add_le_add_left hinv.reserved _)

/-- A clearing that is not timely leaves a pull that has missed a worker. -/
theorem not_covered_of_not_timely {e : HostEvent} (hnot : ¬ Timely name h e)
    (hstep : next name (poolKey account name localHost) h e = some h') : ¬ Covered account name localHost h' := by
  simp only [Timely, Classical.not_imp, not_forall, not_le] at hnot
  obtain ⟨rfl, hreported, p, hp, -, hmissed⟩ := hnot
  simp only [next, hreported, Option.some.injEq] at hstep
  subst hstep
  intro hcovered
  have hle := covered_iff.1 hcovered p hp
  unfold readPendingLaunches clearPendingLaunchesPool at hle
  rw [publishPendingEntry_getElem?, if_pos rfl] at hle
  exact absurd hle (not_le.2 hmissed)

/-- **A pull covers the workers of its first read, whenever its second is, exactly in the runs that clear in time.** -/
theorem pull_covered_iff (h0 : Initial name (poolKey account name localHost) h) (events : List HostEvent) :
    Always (next name (poolKey account name localHost)) (Covered account name localHost) h events ↔
      Each (next name (poolKey account name localHost)) (Timely name) h events := by
  refine always_iff_each (I := Invariant name (poolKey account name localHost)) ?_ ?_ ?_ h0.invariant events
  · exact fun _ => Invariant.covered
  · exact fun _ _ _ hinv htimely hstep => hinv.next htimely hstep
  · exact fun _ _ _ _ hnot hstep => not_covered_of_not_timely hnot hstep

end Covered

end Host

/-! ## A pull across a clearing -/

/-- One worker is launched and counted by the next cycle; `pulls` is what happens around that cycle's observation. -/
def launchThenCount (before after : List HostEvent) : List HostEvent :=
  [.observe 0, .claim 1 1, .settle 1, .launch, .report 1, .finish] ++ before ++ [.observe 1, .report 1] ++ after ++
    [.finish]

def emptyHost : Host where
  active := 0
  status := ∅
  pending := ∅

theorem emptyHost_initial : emptyHost.Initial "codex" (poolKey pairAccount "codex" "spark") :=
  ⟨rfl, rfl, rfl, rfl, Nat.zero_le _⟩

/-- The pull reads the status before the worker is counted, and the reservation after it is cleared. -/
theorem pull_misses_launch :
    ¬ ∀ (account : AccountConfig F64) (name localHost : String) (h : Host) (events : List HostEvent),
      h.Initial name (poolKey account name localHost) →
      Always (Host.next name (poolKey account name localHost)) (Host.Covered account name localHost) h events := by
  intro hall
  have halways := hall pairAccount "codex" "spark" emptyHost (launchThenCount [.readStatus] [])
    emptyHost_initial
  have hmissed : (Trace.run (Host.next "codex" (poolKey pairAccount "codex" "spark")) emptyHost
      (launchThenCount [.readStatus] [])).any (fun h => h.pull.any fun p =>
        decide (reportedWorkers p.status "codex" + readPendingLaunches h.pending (poolKey pairAccount "codex" "spark") <
          p.active)) = true := by
    decide +kernel
  obtain ⟨h, hrun, hany⟩ := (Option.any_eq_true _ _).1 hmissed
  obtain ⟨p, hp, hlt⟩ := (Option.any_eq_true _ _).1 hany
  have hcovered := Host.covered_iff.1 (halways.run hrun) p hp
  exact absurd hcovered (not_le.2 (of_decide_eq_true hlt))

/-- A pull that reads the status once the worker is counted covers it. -/
theorem pull_covered_counted :
    Always (Host.next "codex" (poolKey pairAccount "codex" "spark")) (Host.Covered pairAccount "codex" "spark") emptyHost
      (launchThenCount [] [.readStatus]) :=
  (Host.pull_covered_iff emptyHost_initial _).2 (by decide +kernel)

end Subgov
