import Subgov.State
import Mathlib.Data.List.Sort
/-!
# Estimator — burn rates from recorded samples

The three estimators of the controller: two points, a rolling window, and the long account baseline with its split into
an exogenous part and a per-worker part.  Each returns `none` rather than a rate it could not measure.
-/
namespace Subgov

open FloatArith

variable {F : Type} [Flt F]

/-- `num_milliseconds() as f64 / 3_600_000.0`. -/
def hoursOf (d : Duration) : F := Flt.ofInt (numMilliseconds d) / Flt.ofNat 3600000

def positiveFinite (rate : F) : Option F := if Flt.isFinite rate && decide (Flt.zero < rate) then some rate else none

def estimateBurnPerWorker (sample : WindowSample F) (window : QuotaWindow F) (observedAt : DateTime) : Option F :=
  let elapsedHours : F := hoursOf (observedAt - sample.observedAt)
  positiveFinite ((window.usedFraction - sample.usedFraction) / elapsedHours / Flt.ofNat sample.workers)

/-- The index of the last element with the property. -/
def rposition {α : Type} (p : α → Bool) (xs : List α) : Option Nat :=
  (xs.reverse.findIdx? p).map (fun i => xs.length - 1 - i)

def currentSample (window : QuotaWindow F) (observedAt : DateTime) (workers : Nat) : AggregateBurnSample F :=
  { observedAt, usedFraction := window.usedFraction, resetsAt := window.resetsAt, governedWorkers := workers }

/-- The rolling fold: burn and worker-hours over consecutive samples, given up on a gap, a decrease, a reset or a
zero-worker interval. -/
def windowBurn (resetsAt : DateTime) (stale : Duration) :
    Option (AggregateBurnSample F) → F → F → List (AggregateBurnSample F) → Option (F × F)
  | _, burned, workerHours, [] => some (burned, workerHours)
  | previous, burned, workerHours, next :: rest =>
    if !sameResetGeneration next.resetsAt resetsAt then none
    else match previous with
      | none => windowBurn resetsAt stale (some next) burned workerHours rest
      | some prior =>
        let elapsed := next.observedAt - prior.observedAt
        if elapsed < 0 || stale < elapsed || decide (next.usedFraction < prior.usedFraction) ||
            prior.governedWorkers == 0 then none
        else windowBurn resetsAt stale (some next) (burned + (next.usedFraction - prior.usedFraction))
          (workerHours + hoursOf elapsed * Flt.ofNat prior.governedWorkers) rest

def estimateWindowBurn (history : Option (List (AggregateBurnSample F))) (window : QuotaWindow F)
    (observedAt : DateTime) (workers seconds staleAfterSeconds : Nat) : Option F := do
  let span ← if seconds ≤ i64Max then trySeconds seconds else none
  let cutoff ← checkedDate (observedAt - span)
  let history ← history
  let first ← rposition (fun s => decide (s.observedAt ≤ cutoff)) history
  -- the staleness bound is converted at every interval; one that does not convert fits no interval at all
  let stale := if staleAfterSeconds ≤ i64Max then (trySeconds staleAfterSeconds).getD (-1) else -1
  let (burned, workerHours) ← windowBurn window.resetsAt stale none Flt.zero Flt.zero
    (history.drop first ++ [currentSample window observedAt workers])
  positiveFinite (burned / workerHours)

/-! ## The account baseline -/

structure BurnInterval (F : Type) where
  elapsedHours : F
  burnedFraction : F
  governedWorkersX2 : Nat
  splitInterval : Bool

structure AggregateBurnEstimate (F : Type) where
  aggregateBurnPerHour : F
  exogenousBurnPerHour : Option F
  governedWorkerBurnPerHour : Option F
  perWorkerBurnPerHour : Option F

def dedupByKey {α : Type} (key : α → Int) : List α → List α
  | [] => []
  | x :: xs => x :: (xs.foldl (fun (acc : α × List α) y =>
      if key y = key acc.1 then acc else (y, acc.2 ++ [y])) (x, [])).2

def orderedSamples (history : Option (List (AggregateBurnSample F))) (current : QuotaWindow F)
    (observedAt : DateTime) (governedWorkers : Nat) : List (AggregateBurnSample F) :=
  let samples := history.getD []
  let samples := if samples.getLast?.all (fun s => decide (s.observedAt < observedAt))
    then samples ++ [currentSample current observedAt governedWorkers] else samples
  dedupByKey (·.observedAt) (samples.insertionSort (fun a b => a.observedAt ≤ b.observedAt))

/-- The intervals between consecutive samples; a decrease within a generation is no negative burn. -/
def burnIntervals : List (AggregateBurnSample F) → List (BurnInterval F)
  | previous :: next :: rest =>
    let elapsed : F := hoursOf (next.observedAt - previous.observedAt)
    let sameGeneration := sameResetGeneration previous.resetsAt next.resetsAt
    let burned := if sameGeneration then Flt.max (next.usedFraction - previous.usedFraction) Flt.zero
      else Flt.max next.usedFraction Flt.zero
    let intervals := burnIntervals (next :: rest)
    if elapsed ≤ Flt.zero then intervals
    else { elapsedHours := elapsed, burnedFraction := burned,
           governedWorkersX2 := wrapAdd previous.governedWorkers next.governedWorkers,
           splitInterval := sameGeneration } :: intervals
  | _ => []

def workerBands (intervals : List (BurnInterval F)) : List (Nat × F × F) :=
  (intervals.filter (·.splitInterval)).foldl (fun bands i => addBand i bands) []
where
  addBand (i : BurnInterval F) : List (Nat × F × F) → List (Nat × F × F)
    | [] => [(i.governedWorkersX2, Flt.zero + i.elapsedHours, Flt.zero + i.burnedFraction)]
    | (w, h, u) :: bands =>
      if i.governedWorkersX2 < w then
        (i.governedWorkersX2, Flt.zero + i.elapsedHours, Flt.zero + i.burnedFraction) :: (w, h, u) :: bands
      else if i.governedWorkersX2 = w then (w, h + i.elapsedHours, u + i.burnedFraction) :: bands
      else (w, h, u) :: addBand i bands

def totalSort (xs : List F) : List F := xs.insertionSort (fun a b => Flt.totalCmp a b ≠ .gt)

def bandSlopes : List (F × F) → List F
  | [] => []
  | left :: rest =>
    rest.filterMap (fun right =>
      let dx := right.1 - left.1
      if Flt.beq dx Flt.zero then none
      else positiveFinite ((right.2 - left.2) / dx)) ++ bandSlopes rest

/-- The exogenous rate from zero-worker intervals, else from a robust line across worker counts. -/
def estimateExogenousBurn (intervals : List (BurnInterval F)) (aggregate : F) : Option F :=
  let bands := workerBands intervals
  match bands.find? (fun b => b.1 == 0) with
  | some (_, hours, usage) => some (Flt.clamp (usage / hours) Flt.zero aggregate)
  | none =>
    let means := bands.filterMap (fun (w, hours, usage) =>
      if Flt.zero < hours then some ((Flt.ofNat w / Flt.ofNat 2 : F), usage / hours) else none)
    let slopes := totalSort (bandSlopes means)
    match slopes[slopes.length / 2]? with
    | none => none
    | some slope =>
      let intercepts := totalSort ((means.map (fun (workers, rate) => rate - slope * workers)).filter Flt.isFinite)
      -- the source indexes the middle intercept
      intercepts[intercepts.length / 2]?.map (fun i => Flt.clamp i Flt.zero aggregate)

def estimateAggregateBurn (history : Option (List (AggregateBurnSample F))) (current : QuotaWindow F)
    (observedAt : DateTime) (governedWorkers : Nat) : Option (AggregateBurnEstimate F) := do
  let samples := orderedSamples history current observedAt governedWorkers
  let cutoff := observedAt - hours 24
  let first ← rposition (fun s => decide (s.observedAt ≤ cutoff)) samples
  let samples := samples.drop first
  if samples.length < 3 then none
  let start ← samples.head?
  let last ← samples.getLast?
  let elapsedHours : F := hoursOf (last.observedAt - start.observedAt)
  if elapsedHours < Flt.ofNat 24 then none
  let intervals := burnIntervals samples
  let measured := Flt.sum (intervals.map (·.burnedFraction))
  if !Flt.isFinite measured || decide (measured ≤ Flt.zero) then none
  let aggregate := measured / elapsedHours
  let exogenous := estimateExogenousBurn intervals aggregate
  let governed := exogenous.map (fun e => Flt.max (aggregate - e) Flt.zero)
  let workerHours := Flt.sum (intervals.map (fun i => i.elapsedHours * Flt.ofNat i.governedWorkersX2 / Flt.ofNat 2))
  let perWorker := if Flt.zero < workerHours then governed.map (fun g => g * elapsedHours / workerHours) else none
  some { aggregateBurnPerHour := aggregate, exogenousBurnPerHour := exogenous,
         governedWorkerBurnPerHour := governed, perWorkerBurnPerHour := perWorker }

/-- The workers that burn at the required rate, rounded up unless a whole number to within `1e-9`. -/
def workersForRate (requiredRate perWorkerRate : F) : Nat :=
  let ratio := requiredRate / perWorkerRate
  if !Flt.isFinite ratio then u32Max
  else
    let rounded := Flt.round ratio
    let workers := if Flt.abs (ratio - rounded) < Flt.ofRat (1 / 1000000000) then rounded else Flt.ceil ratio
    Flt.toUInt u32Max (Flt.min (Flt.max workers Flt.zero) (Flt.ofNat u32Max))

end Subgov
