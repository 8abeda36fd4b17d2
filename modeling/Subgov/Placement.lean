import Subgov.Controller
/-!
# Placement — spreading an account's target over its hosts

`place` combines each host's count, ceiling and resource headroom; `distribute` floors each eligible host's weighted
share and hands out the shortfall one worker at a time.  A host id that a map lacks, which the source would panic on,
reads as zero here; no caller has one.
-/
namespace Subgov

open FloatArith

variable {F : Type} [Flt F]

structure ResourceSnapshot (F : Type) where
  observedAt : DateTime
  fresh : Bool
  cpuAvailableFraction : F
  memTotalMb : Nat
  memAvailableMb : Nat

structure HostPlacement (F : Type) where
  hostId : String
  current : Nat
  target : Nat
  ceiling : Nat
  headroom : F
  fresh : Bool
  eligible : Bool

def satSum (xs : List Nat) : Nat := xs.foldl satAdd 0

theorem foldl_satAdd (xs : List Nat) (a : Nat) : xs.foldl satAdd (min a u32Max) = min (a + xs.sum) u32Max := by
  induction xs generalizing a with
  | nil => rfl
  | cons x xs ih =>
    have hstep : satAdd (min a u32Max) x = min (a + x) u32Max := by
      unfold satAdd
      omega
    rw [List.foldl_cons, hstep, ih, List.sum_cons, Nat.add_assoc]

theorem satSum_eq (xs : List Nat) : satSum xs = min xs.sum u32Max := by
  have h := foldl_satAdd xs 0
  rwa [Nat.zero_min, Nat.zero_add] at h

/-! ## The weighted split -/

def headroomWeight (eligible : List String) (headroomOf : BTreeMap F) (id : String) : F :=
  headroomOf.getD id Flt.zero / Flt.sum (eligible.map (fun e => headroomOf.getD e Flt.zero))

def floorShare (accountTarget : Nat) (weight : F) : Nat :=
  let share := Flt.ofNat accountTarget * weight
  if !Flt.isFinite share || decide (share ≤ Flt.zero) then 0
  else Flt.toUInt u32Max (Flt.min (Flt.floor share) (Flt.ofNat u32Max))

/-- The eligible host below its ceiling with the most unused headroom, the first of equals. -/
def bestHost (eligible : List String) (headroomOf : BTreeMap F) (ceilingOf clamped : BTreeMap Nat) : Option String :=
  (eligible.foldl (fun (best : Option (String × F)) id =>
    let placed := clamped.getD id 0
    let ceiling := ceilingOf.getD id 0
    if ceiling ≤ placed then best
    else
      let score := headroomOf.getD id Flt.zero - Flt.ofNat placed / Flt.ofNat ceiling
      -- the first score is compared with negative infinity
      let better := best.elim (Flt.isFinite score || decide (Flt.zero < score)) (fun b => decide (b.2 < score))
      if better then some (id, score) else best) none).map (·.1)

/-- One worker at a time for `shortfall` rounds, or until every eligible host is at its ceiling. -/
def fillShortfall (eligible : List String) (headroomOf : BTreeMap F) (ceilingOf : BTreeMap Nat) :
    Nat → BTreeMap Nat → BTreeMap Nat
  | 0, clamped => clamped
  | shortfall + 1, clamped =>
    match bestHost eligible headroomOf ceilingOf clamped with
    | none => clamped
    | some winner =>
      fillShortfall eligible headroomOf ceilingOf shortfall (clamped.insert winner (clamped.getD winner 0 + 1))

def distribute (accountTarget : Nat) (eligible : List String) (headroomOf : BTreeMap F) (ceilingOf : BTreeMap Nat)
    (allHosts : List String) : BTreeMap Nat :=
  let clamped := allHosts.foldl (fun (m : BTreeMap Nat) id =>
    m.insert id (if eligible.contains id
      then min (floorShare accountTarget (headroomWeight eligible headroomOf id)) (ceilingOf.getD id 0)
      else 0)) ∅
  fillShortfall eligible headroomOf ceilingOf (accountTarget - clamped.values.foldl wrapAdd 0) clamped

/-! ## One cycle's placement -/

def resourceHeadroom (snapshot : Option (ResourceSnapshot F)) (memReserveMb staleAfterSeconds : Nat) (now : DateTime) :
    Bool × F :=
  match snapshot with
  | none => (false, Flt.zero)
  | some s =>
    if s.fresh && decide (ageSeconds (now - s.observedAt) ≤ staleAfterSeconds) then
      let memFraction : F := if s.memTotalMb = 0 then Flt.zero
        else (Flt.ofNat s.memAvailableMb - Flt.ofNat memReserveMb) / Flt.ofNat s.memTotalMb
      (true, Flt.clamp (Flt.min s.cpuAvailableFraction memFraction) Flt.zero (Flt.ofNat 1))
    else (false, Flt.zero)

def applyStepLimit (desired current ceiling maxUp maxDown : Nat) : Nat :=
  let bounded := min desired ceiling
  let stepped := if current < bounded then min bounded (satAdd current maxUp) else max bounded (current - maxDown)
  min stepped ceiling

structure HostView (F : Type) where
  id : String
  current : Nat
  ceiling : Nat
  maxUp : Nat
  maxDown : Nat
  fresh : Bool
  headroom : F

def HostView.eligible (v : HostView F) : Bool := v.fresh && decide (Flt.zero < v.headroom)

def HostView.step (v : HostView F) (target : Nat) : Nat := applyStepLimit target v.current v.ceiling v.maxUp v.maxDown

def hostView (config : AccountConfig F) (current : BTreeMap Nat) (resources : BTreeMap (ResourceSnapshot F))
    (now : DateTime) (id : String) (host : HostConfig F) : HostView F :=
  let read : Bool × F := if host.resourceSource then
      resourceHeadroom resources[id]? ((host.resourceReserve.map (·.memReserveMb)).getD 0)
        config.utilization.staleAfterSeconds now
    else (true, Flt.ofNat 1)
  { id
    current := current.getD id 0
    ceiling := host.maxWorkers.getD config.fleet.maxWorkers
    maxUp := host.maxScaleUpPerCycle.getD config.fleet.maxScaleUpPerCycle
    maxDown := host.maxScaleDownPerCycle.getD config.fleet.maxScaleDownPerCycle
    fresh := read.1
    headroom := read.2 }

/-- The targets before the final step limits: a host that cannot be placed on keeps its count, or steps toward zero when
the account shrinks, and the rest of the target is distributed. -/
def rawTargets (accountTarget : Nat) (views : List (HostView F)) : BTreeMap Nat :=
  let eligible := views.filter (·.eligible)
  if eligible.isEmpty then views.foldl (fun m v => m.insert v.id v.current) ∅
  else
    let currentTotal := satSum (views.map (·.current))
    let ineligible := (views.filter (!·.eligible)).map (fun v =>
      (v.id, v.step (if currentTotal ≤ accountTarget then v.current else 0)))
    let headroomOf : BTreeMap F := views.foldl (fun m v => m.insert v.id v.headroom) ∅
    let ceilingOf : BTreeMap Nat := views.foldl (fun m v => m.insert v.id v.ceiling) ∅
    let distributed := distribute (accountTarget - satSum (ineligible.map (·.2))) (eligible.map (·.id)) headroomOf
      ceilingOf (views.map (·.id))
    ineligible.foldl (fun m t => m.insert t.1 t.2) distributed

def place (accountName : String) (accountTarget : Nat) (config : AccountConfig F) (current : BTreeMap Nat)
    (resources : BTreeMap (ResourceSnapshot F)) (now : DateTime) : Except String (List (HostPlacement F)) :=
  match config.fleet.hosts.filter (!·.isEmpty) with
  | none => .error s!"account {accountName}: place requires a non-empty fleet.hosts configuration"
  | some hosts =>
    let views := hosts.toList.map (fun h => hostView config current resources now h.1 h.2)
    let raw := rawTargets accountTarget views
    .ok (views.map (fun v =>
      { hostId := v.id
        current := v.current
        target := v.step (raw.getD v.id 0)
        ceiling := v.ceiling
        headroom := v.headroom
        fresh := v.fresh
        eligible := v.eligible }))

end Subgov
