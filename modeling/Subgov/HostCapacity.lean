import Subgov.Model
import Subgov.Lib.Apportion
import Mathlib.Data.Rat.Floor
import Mathlib.Data.List.Sort
/-!
# HostCapacity — one admission decision on a measured host

The pools of a host share one state.  A decision measures the host's ceiling, divides it among the pools' requests by
their ready demand, and grants the calling pool what the others' workers and reservations leave.  Resource samples and
times are exact rationals.
-/
namespace Subgov

namespace HostCapacity

open Apportion

def gib : ℚ := 1024 ^ 3

def memReserve : ℚ := 8 * gib

def sliceRatio : ℚ := 17 / 20

def loadRatio : ℚ := 17 / 20

def psiLimit : ℚ := 10

def pressureSeconds : ℚ := 60

def freshSeconds : ℚ := 900

def historySeconds : ℚ := 86400

def coldRss : ℚ := 6 * gib

def percentile95 (values : List ℚ) : ℚ :=
  let ordered := (values.filter (0 < ·)).insertionSort (· ≤ ·)
  ordered.getD (⌈(19 / 20 : ℚ) * ordered.length⌉.toNat - 1) coldRss

/-! ## Targets -/

/-- The weights of a round: ready demand, or the targets where no pool has any. -/
def roundWeight (demand : String → Nat) (active : List (String × Nat)) : String × Nat → Nat :=
  if (active.map fun pool => demand pool.1).sum = 0 then fun pool => pool.2 else fun pool => demand pool.1

/-- The largest remainders first, then the smaller keys. -/
def RemainderFirst (remainder : String × Nat → Nat) (left right : String × Nat) : Prop :=
  remainder right < remainder left ∨ remainder left = remainder right ∧ left.1 ≤ right.1

instance (remainder : String × Nat → Nat) : DecidableRel (RemainderFirst remainder) := fun _ _ =>
  inferInstanceAs (Decidable (_ ∨ _ ∧ _))

/-- Exact shares rounded down, and what they leave by the largest remainders. -/
def largestRemainders (weight : String × Nat → Nat) (total : Nat) (active : List (String × Nat)) (remaining : Nat) :
    List (String × Nat) :=
  let ordered := active.insertionSort (RemainderFirst fun pool => remaining * weight pool % total)
  let shares := ordered.map fun pool => (pool.1, remaining * weight pool / total)
  topUp (remaining - (shares.map Prod.snd).sum) shares

/-- A proportional share would carry the pool to its target. -/
def caps (weight : String × Nat → Nat) (total remaining : Nat) (pool : String × Nat) : Bool :=
  decide (pool.2 * total ≤ remaining * weight pool)

/-- The loop over the active pools: those a proportional share would carry past their target get the target, until no
such pool is left and the shares are handed out.  Every round before the last one takes a pool out. -/
def splitActive (demand : String → Nat) : Nat → List (String × Nat) → Nat → List (String × Nat)
  | 0, active, _ => active.map fun pool => (pool.1, 0)
  | rounds + 1, active, remaining =>
    if active.isEmpty || remaining == 0 then active.map fun pool => (pool.1, 0)
    else
      let weight := roundWeight demand active
      let total := (active.map weight).sum
      let capped := active.filter (caps weight total remaining)
      if capped.isEmpty then largestRemainders weight total active remaining
      else capped ++ splitActive demand rounds (active.filter (!caps weight total remaining ·))
        (remaining - (capped.map Prod.snd).sum)

def splitTargets (targets : List (String × Int)) (demand : String → Nat) (ceiling : Nat) : List (String × Nat) :=
  (targets.filter (·.2 ≤ 0)).map (fun pool => (pool.1, 0)) ++
    splitActive demand targets.length ((targets.filter (0 < ·.2)).map fun pool => (pool.1, pool.2.toNat)) ceiling

section Split

variable {demand : String → Nat} {active : List (String × Nat)} {remaining : Nat}

theorem sum_zeros {α : Type} (active : List (String × α)) :
    ((active.map fun pool => (pool.1, 0)).map (Prod.snd : String × Nat → Nat)).sum = 0 := by
  rw [List.map_map]
  refine List.sum_eq_zero fun n hn => ?_
  obtain ⟨_, -, rfl⟩ := List.mem_map.1 hn
  rfl

theorem roundWeight_pos (hactive : active ≠ []) (hpos : ∀ pool ∈ active, 0 < pool.2) :
    0 < (active.map (roundWeight demand active)).sum := by
  unfold roundWeight
  split
  · cases active with
    | nil => exact absurd rfl hactive
    | cons pool rest =>
      rw [List.map_cons, List.sum_cons]
      exact Nat.add_pos_left (hpos pool List.mem_cons_self) _
  · rename_i hready
    exact Nat.pos_of_ne_zero hready

theorem sum_largestRemainders_le {weight : String × Nat → Nat} {total : Nat} (htotal : 0 < total)
    (hweights : (active.map weight).sum ≤ total) :
    ((largestRemainders weight total active remaining).map Prod.snd).sum ≤ remaining := by
  unfold largestRemainders
  dsimp only
  have hperm := List.perm_insertionSort (RemainderFirst fun pool => remaining * weight pool % total) active
  generalize active.insertionSort (RemainderFirst fun pool => remaining * weight pool % total) = ordered at hperm ⊢
  have hfloors : ((ordered.map fun pool => (pool.1, remaining * weight pool / total)).map Prod.snd).sum ≤ remaining := by
    rw [List.map_map]
    refine sum_floors_le htotal ?_
    rwa [(hperm.map weight).sum_eq]
  have htop := sum_topUp_le (remaining - ((ordered.map fun pool =>
    (pool.1, remaining * weight pool / total)).map Prod.snd).sum)
    (ordered.map fun pool => (pool.1, remaining * weight pool / total))
  omega

/-- **The loop hands out no more than there is.** -/
theorem sum_splitActive_le (demand : String → Nat) :
    ∀ (rounds : Nat) (active : List (String × Nat)) (remaining : Nat), (∀ pool ∈ active, 0 < pool.2) →
      ((splitActive demand rounds active remaining).map Prod.snd).sum ≤ remaining
  | 0, active, remaining, _ => by
    unfold splitActive
    rw [sum_zeros]
    exact Nat.zero_le _
  | rounds + 1, active, remaining, hpos => by
    unfold splitActive
    split
    · rw [sum_zeros]
      exact Nat.zero_le _
    · rename_i hgoes
      have hactive : active ≠ [] := by
        rintro rfl
        exact hgoes rfl
      have htotal : 0 < (active.map (roundWeight demand active)).sum := roundWeight_pos hactive hpos
      dsimp only
      split
      · exact sum_largestRemainders_le htotal (Nat.le_refl _)
      · -- what the capped pools take is within their ratio
        have hcapped : ((active.filter (caps (roundWeight demand active) (active.map (roundWeight demand active)).sum
            remaining)).map Prod.snd).sum ≤ remaining := by
          refine sum_le_of_ratio htotal (fun pool hpool => of_decide_eq_true (List.mem_filter.1 hpool).2) ?_
          exact (List.filter_sublist.map _).sum_le_sum fun _ _ => Nat.zero_le _
        have hrest := sum_splitActive_le demand rounds
          (active.filter (!caps (roundWeight demand active) (active.map (roundWeight demand active)).sum remaining ·))
          (remaining - ((active.filter (caps (roundWeight demand active) (active.map (roundWeight demand active)).sum
            remaining)).map Prod.snd).sum) fun pool hpool => hpos pool (List.mem_filter.1 hpool).1
        rw [List.map_append, List.sum_append]
        omega

theorem keys_splitActive (demand : String → Nat) :
    ∀ (rounds : Nat) (active : List (String × Nat)) (remaining : Nat),
      ((splitActive demand rounds active remaining).map Prod.fst).Perm (active.map Prod.fst)
  | 0, active, _ => by
    unfold splitActive
    rw [List.map_map]
    exact List.Perm.refl _
  | rounds + 1, active, remaining => by
    unfold splitActive
    split
    · rw [List.map_map]
      exact List.Perm.refl _
    · dsimp only
      split
      · unfold largestRemainders
        dsimp only
        rw [keys_topUp, List.map_map]
        exact (List.perm_insertionSort _ active).map Prod.fst
      · rw [List.map_append]
        refine ((keys_splitActive demand rounds _ _).append_left _).trans ?_
        rw [← List.map_append]
        exact (List.filter_append_perm _ active).map Prod.fst

/-- **Every pool has one allocation.** -/
theorem keys_splitTargets (targets : List (String × Int)) (demand : String → Nat) (ceiling : Nat) :
    ((splitTargets targets demand ceiling).map Prod.fst).Perm (targets.map Prod.fst) := by
  have hcut : targets.filter (fun pool => decide (pool.2 ≤ 0)) = targets.filter (fun pool => !decide (0 < pool.2)) := by
    refine List.filter_congr fun pool _ => ?_
    rw [← decide_not, decide_eq_decide]
    exact not_lt.symm
  unfold splitTargets
  rw [List.map_append, List.map_map]
  refine ((keys_splitActive demand _ _ _).append_left _).trans ?_
  rw [List.map_map, hcut]
  refine List.perm_append_comm.trans ?_
  change ((targets.filter fun pool => decide (0 < pool.2)).map Prod.fst ++
    (targets.filter fun pool => !decide (0 < pool.2)).map Prod.fst).Perm _
  rw [← List.map_append]
  exact (List.filter_append_perm _ targets).map Prod.fst

theorem sum_splitTargets_le (targets : List (String × Int)) (demand : String → Nat) (ceiling : Nat) :
    ((splitTargets targets demand ceiling).map Prod.snd).sum ≤ ceiling := by
  unfold splitTargets
  rw [List.map_append, List.sum_append, sum_zeros, zero_add]
  refine sum_splitActive_le demand _ _ _ fun pool hpool => ?_
  obtain ⟨target, htarget, rfl⟩ := List.mem_map.1 hpool
  have hpos := of_decide_eq_true (List.mem_filter.1 htarget).2
  exact Int.pos_iff_toNat_pos.1 hpos

end Split

/-! ## The measured ceiling -/

structure HostRequest where
  target : Int
  time : ℚ

structure Reservation where
  count : Nat
  time : ℚ

/-- What the pools of a host share between the calls. -/
structure HostState where
  requests : BTreeMap HostRequest := ∅
  reservations : BTreeMap Reservation := ∅
  rssHistory : List (ℚ × ℚ) := []
  pressureSince : Option ℚ := none
  lastProbeAt : Option ℚ := none

/-- One measurement: the workers of each pool and of none, and the resources. -/
structure ResourceSample where
  counts : String → Nat
  unmanaged : Nat
  rss : List ℚ
  memAvailable : ℚ
  sliceCurrent : ℚ
  sliceHigh : Option ℚ
  memoryPsi : ℚ
  ioPsi : ℚ
  load : ℚ
  cpus : ℚ

inductive Pressure
  | memoryPsi
  | ioPsi
  | load
  deriving DecidableEq

inductive Limit
  | memAvailable
  | sliceMemory
  | pressure
  deriving DecidableEq

structure Evidence where
  ceiling : Nat
  limits : List (Limit × Nat)
  p95WorkerRss : ℚ
  observedBasis : Bool
  pressure : List Pressure
  pressureSince : Option ℚ

def isFresh (age : ℚ) : Bool := decide (0 ≤ age) && decide (age ≤ freshSeconds)

def pressures (sample : ResourceSample) : List Pressure :=
  (if psiLimit ≤ sample.memoryPsi then [.memoryPsi] else []) ++ (if psiLimit ≤ sample.ioPsi then [.ioPsi] else []) ++
    (if sample.cpus * loadRatio ≤ sample.load then [.load] else [])

/-- Since when the host has been under pressure, as far as samples close enough together tell. -/
def pressureStart (state : HostState) (now : ℚ) : ℚ :=
  match state.lastProbeAt, state.pressureSince with
  | some previous, some since => if isFresh (now - previous) && decide (since ≤ now) then since else now
  | _, _ => now

/-- The workers there are, and those the room left carries or overruns. -/
def memoryLimit (current : Nat) (room cost : ℚ) : Nat := (current + ⌊room / cost⌋).toNat

def measuredCeiling (pools : List String) (sample : ResourceSample) (state : HostState) (now : ℚ) :
    Evidence × HostState :=
  let current := (pools.map sample.counts).sum + sample.unmanaged
  let kept := state.rssHistory.filter fun item => decide (0 ≤ now - item.1) && decide (now - item.1 ≤ historySeconds)
  let history := kept ++ (sample.rss.filter (0 < ·)).map fun value => (now, value)
  let rssHistory := history.drop (history.length - 256)
  let cost := percentile95 (rssHistory.map (·.2))
  let pressure := pressures sample
  let since := if pressure.isEmpty then none else some (pressureStart state now)
  let memAvailable := memoryLimit current (sample.memAvailable - memReserve) cost
  let others := (sample.sliceHigh.map fun high =>
      (Limit.sliceMemory, memoryLimit current (high * sliceRatio - sample.sliceCurrent) cost)).toList ++
    (since.map fun since => (Limit.pressure, current - if pressureSeconds ≤ now - since then 1 else 0)).toList
  ({ ceiling := (others.map (·.2)).foldl min memAvailable
     limits := (.memAvailable, memAvailable) :: others
     p95WorkerRss := cost
     observedBasis := !history.isEmpty
     pressure
     pressureSince := since },
   { state with
     rssHistory
     pressureSince := since
     lastProbeAt := some now })

/-- A demand file: unreadable, or its time and its count where that is an integer. -/
inductive DemandFile
  | unreadable
  | sample (observedAt : ℚ) (readyBeadCount : Option Int)

def readyCount (file : DemandFile) (now : ℚ) : Option Nat :=
  match file with
  | .unreadable => none
  | .sample observedAt count =>
    if isFresh (now - observedAt) then count.bind fun count => if count < 0 then none else some count.toNat else none

/-! ## The decision -/

structure HostDecision where
  evidence : Evidence
  readyDemand : String → Option Nat
  requested : List (String × Int)
  allocations : List (String × Nat)
  granted : Nat

/-- One call of a pool's adapter; an observer's call desires nothing. -/
structure HostCall where
  pool : String
  desired : Option Int
  sample : ResourceSample
  demandFiles : String → DemandFile
  now : ℚ

namespace HostCall

def demand (c : HostCall) (key : String) : Option Nat := readyCount (c.demandFiles key) c.now

/-- The target of a pool: its fresh request, else its workers; no more than these under pressure or unknown demand. -/
def target (c : HostCall) (pressed : Bool) (requests : BTreeMap HostRequest) (key : String) : Except String Int := do
  let current : Int := c.sample.counts key
  let target ← match requests[key]? with
    | some request => .ok (if isFresh (c.now - request.time) then request.target else current)
    | none => if isFresh c.now then .error "KeyError: 'target'" else .ok current
  return if (c.demand key).isNone || pressed then min target current else target

/-- The allocations: unknown demand holds its workers first, known demand divides what is left. -/
def allocate (c : HostCall) (targets : List (String × Int)) (budget : Nat) : List (String × Nat) :=
  let held := splitTargets (targets.filter fun target => (c.demand target.1).isNone) (fun _ => 0) budget
  held ++ splitTargets (targets.filter fun target => !(c.demand target.1).isNone) (fun key => (c.demand key).getD 0)
    (budget - (held.map Prod.snd).sum)

/-- Reservations stay until their count has appeared or their time is over. -/
def pending (c : HostCall) (pools : List String) (reservations : BTreeMap Reservation) : BTreeMap Reservation :=
  reservations.filter fun key reservation => decide (key ∈ pools) &&
    !decide (reservation.count ≤ c.sample.counts key) && isFresh (c.now - reservation.time)

/-- The workers a pool has or may still get. -/
def effective (c : HostCall) (reservations : BTreeMap Reservation) (key : String) : Nat :=
  max (c.sample.counts key) (reservations[key]?.elim 0 (·.count))

def room (c : HostCall) (pools : List String) (reservations : BTreeMap Reservation) (budget : Nat) : Nat :=
  budget - ((pools.filter (· ≠ c.pool)).map (c.effective reservations)).sum

/-- What the calling pool is granted. -/
def grant (c : HostCall) (pools : List String) (pressed : Bool) (reservations : BTreeMap Reservation)
    (allocations : List (String × Nat)) (budget : Nat) : Nat :=
  let granted := min ((allocations.lookup c.pool).getD 0) (c.room pools reservations budget)
  if pressed || (c.demand c.pool).isNone || reservations.contains c.pool then min granted (c.sample.counts c.pool)
  else granted

def request (c : HostCall) (requests : BTreeMap HostRequest) : BTreeMap HostRequest :=
  c.desired.elim requests fun target => requests.insert c.pool { target, time := c.now }

def reserve (c : HostCall) (granted : Nat) (reservations : BTreeMap Reservation) : BTreeMap Reservation :=
  if c.desired.isSome && decide (c.sample.counts c.pool < granted) then
    reservations.insert c.pool { count := granted, time := c.now }
  else reservations

/-- `decide` of the source: its answer, and the state it leaves. -/
def decision (c : HostCall) (pools : List String) (state : HostState) : Except String HostDecision × HostState :=
  if c.pool ∉ pools then (.error "unknown host pool", state)
  else
    let (evidence, state) := measuredCeiling pools c.sample state c.now
    let pressed := !evidence.pressure.isEmpty
    let state := { state with requests := c.request state.requests }
    match pools.mapM fun key => (c.target pressed state.requests key).map fun target => (key, target) with
    | .error e => (.error e, state)
    | .ok requested =>
      let budget := evidence.ceiling - c.sample.unmanaged
      let allocations := c.allocate requested budget
      let reservations := c.pending pools state.reservations
      let granted := c.grant pools pressed reservations allocations budget
      (.ok { evidence, readyDemand := c.demand, requested, allocations, granted },
        { state with reservations := c.reserve granted reservations })

end HostCall

end HostCapacity

end Subgov
