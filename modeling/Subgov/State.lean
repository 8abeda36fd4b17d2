import Subgov.Config
/-!
# State — what a cycle leaves for the next one

`AccountState.record` replaces the latest sample of every window, extends or restarts its generation history, and
appends to the long aggregate queue.  `recordWindows_getElem?` and `recordHistory_getElem?` say what a lookup finds
after a record; the windows of a snapshot are taken in order, so of two with one id the later wins.
-/
namespace Subgov

open FloatArith

variable {F : Type} [Flt F]

def maxHistorySamplesPerGeneration : Nat := 16
def maxAggregateBurnSamples : Nat := 3072
def minAggregateSampleIntervalSeconds : Int := 60
def maxPlacementHistorySamples : Nat := 16

structure WindowSample (F : Type) where
  observedAt : DateTime
  usedFraction : F
  resetsAt : DateTime
  workers : Nat
  deriving DecidableEq

structure HistorySample (F : Type) where
  observedAt : DateTime
  usedFraction : F
  workers : Nat
  deriving DecidableEq

/-- A bounded run of samples sharing one reset generation; `maxUsedFraction` outlives the evicted ones. -/
structure WindowHistory (F : Type) where
  resetsAt : DateTime
  samples : List (HistorySample F)
  maxUsedFraction : F
  deriving DecidableEq

structure AggregateBurnSample (F : Type) where
  observedAt : DateTime
  usedFraction : F
  resetsAt : DateTime
  governedWorkers : Nat
  deriving DecidableEq

structure CreditAlertState where
  resetsAt : DateTime
  severity : Nat
  deriving DecidableEq

inductive BackpressureMode
  | normal
  | hold
  | stepDown
  deriving DecidableEq

structure BackpressureState where
  mode : BackpressureMode := .normal
  quietCycles : Nat := 0
  lastUsableSampleAt : Option DateTime := none
  deriving DecidableEq

structure SaturationProbe (F : Type) where
  fromWorkers : Nat
  toWorkers : Nat
  baselineRate : F
  recovery : Bool
  deriving DecidableEq

structure SaturationState (F : Type) where
  lastSampleAt : Option DateTime := none
  observedWorkers : Option Nat := none
  settledAt : Option DateTime := none
  baselineRate : Option F := none
  plateauRate : Option F := none
  pending : Option (SaturationProbe F) := none
  shrinking : Bool := false
  nextProbeAt : Option DateTime := none
  deriving DecidableEq

structure AccountState (F : Type) where
  windows : BTreeMap (WindowSample F) := ∅
  lastTarget : Option Nat := none
  history : BTreeMap (WindowHistory F) := ∅
  aggregateBurnHistory : BTreeMap (List (AggregateBurnSample F)) := ∅
  creditAlerts : BTreeMap CreditAlertState := ∅
  backpressure : BackpressureState := {}
  zaiSaturation : Option (SaturationState F) := none

structure PlacementSample where
  observedAt : DateTime
  targetWorkers : Nat
  deriving DecidableEq

structure HostState (F : Type) where
  windows : BTreeMap (WindowSample F) := ∅
  history : BTreeMap (WindowHistory F) := ∅
  placementHistory : List PlacementSample := []

structure State (F : Type) where
  accounts : BTreeMap (AccountState F) := ∅
  hostStates : BTreeMap (BTreeMap (HostState F)) := ∅

/-- Evicts from the front until at most `n` are left. -/
def keepLast {α : Type} (n : Nat) (xs : List α) : List α := xs.drop (xs.length - n)

/-! ## Recording a snapshot -/

def windowSample (snapshot : QuotaSnapshot F) (workers : Nat) (w : QuotaWindow F) : WindowSample F :=
  { observedAt := snapshot.observedAt, usedFraction := w.usedFraction, resetsAt := w.resetsAt, workers }

def recordWindows (snapshot : QuotaSnapshot F) (workers : Nat) : BTreeMap (WindowSample F) :=
  snapshot.windows.foldl (fun m w => m.insert w.id (windowSample snapshot workers w)) ∅

/-- The generation history after one more reading: the existing one when it is of the window's generation. -/
def extendHistory (snapshot : QuotaSnapshot F) (workers : Nat) (existing : Option (WindowHistory F))
    (w : QuotaWindow F) : WindowHistory F :=
  let entry := (existing.filter (fun h => sameResetGeneration h.resetsAt w.resetsAt)).getD
    { resetsAt := w.resetsAt, samples := [], maxUsedFraction := Flt.zero }
  { entry with
    maxUsedFraction := Flt.max entry.maxUsedFraction w.usedFraction
    samples := keepLast maxHistorySamplesPerGeneration
      (entry.samples ++ [{ observedAt := snapshot.observedAt, usedFraction := w.usedFraction, workers }]) }

/-- Each window takes its entry out of the old map, so a repeated id finds it gone. -/
def rebuild {V W : Type} (next : Option V → W → V) (id : W → String) (old : BTreeMap V) (ws : List W) : BTreeMap V :=
  (ws.foldl (fun (acc : BTreeMap V × BTreeMap V) w =>
    (acc.1.erase (id w), acc.2.insert (id w) (next acc.1[id w]? w))) (old, ∅)).2

def recordHistory (history : BTreeMap (WindowHistory F)) (snapshot : QuotaSnapshot F) (workers : Nat) :
    BTreeMap (WindowHistory F) :=
  rebuild (extendHistory snapshot workers) (·.id) history snapshot.windows

/-- The aggregate queue after one more reading: a sample too soon after one of the same `resets_at` is dropped. -/
def extendAggregate (snapshot : QuotaSnapshot F) (workers : Nat) (existing : Option (List (AggregateBurnSample F)))
    (w : QuotaWindow F) : List (AggregateBurnSample F) :=
  let samples := existing.getD []
  let sample : AggregateBurnSample F :=
    { observedAt := snapshot.observedAt, usedFraction := w.usedFraction, resetsAt := w.resetsAt,
      governedWorkers := workers }
  let shouldRecord := samples.getLast?.all (fun previous => previous.resetsAt != sample.resetsAt ||
    decide (minAggregateSampleIntervalSeconds ≤ numSeconds (sample.observedAt - previous.observedAt)))
  keepLast maxAggregateBurnSamples (if shouldRecord then samples ++ [sample] else samples)

def recordAggregate (histories : BTreeMap (List (AggregateBurnSample F))) (snapshot : QuotaSnapshot F)
    (workers : Nat) : BTreeMap (List (AggregateBurnSample F)) :=
  rebuild (extendAggregate snapshot workers) (·.id) histories snapshot.windows

def AccountState.record (s : AccountState F) (snapshot : QuotaSnapshot F) (workers target : Nat) : AccountState F :=
  { s with
    windows := recordWindows snapshot workers
    history := recordHistory s.history snapshot workers
    aggregateBurnHistory := recordAggregate s.aggregateBurnHistory snapshot workers
    lastTarget := some target }

/-- Replaces the alert levels; a changed reset timestamp starts a fresh advisory generation. -/
def AccountState.recordCreditAlerts (s : AccountState F) (resetsAt : DateTime) (levels : List (String × Nat)) :
    AccountState F :=
  { s with creditAlerts := levels.foldl (fun m l => m.insert l.1 { resetsAt, severity := l.2 }) ∅ }

def HostState.record (s : HostState F) (snapshot : QuotaSnapshot F) (workers : Nat) : HostState F :=
  { s with windows := recordWindows snapshot workers, history := recordHistory s.history snapshot workers }

def HostState.recordPlacement (s : HostState F) (observedAt : DateTime) (targetWorkers : Nat) : HostState F :=
  { s with
    placementHistory := keepLast maxPlacementHistorySamples
      (s.placementHistory ++ [{ observedAt, targetWorkers }]) }

namespace State

/-- The state an account's cycle evaluates from: the default one before its first record. -/
def account (s : State F) (name : String) : AccountState F := s.accounts[name]?.getD {}

def hosts (s : State F) (name : String) : BTreeMap (HostState F) := s.hostStates[name]?.getD ∅

def setAccount (s : State F) (name : String) (a : AccountState F) : State F :=
  { s with accounts := s.accounts.insert name a }

def updateHost (s : State F) (account host : String) (f : HostState F → HostState F) : State F :=
  let hosts := s.hosts account
  { s with hostStates := s.hostStates.insert account (hosts.insert host (f (hosts[host]?.getD {}))) }

def recordHost (s : State F) (account host : String) (snapshot : QuotaSnapshot F) (workers : Nat) : State F :=
  s.updateHost account host (·.record snapshot workers)

def recordHostPlacement (s : State F) (account host : String) (observedAt : DateTime) (targetWorkers : Nat) : State F :=
  s.updateHost account host (·.recordPlacement observedAt targetWorkers)

omit [Flt F] in
@[simp] theorem account_setAccount (s : State F) (name : String) (a : AccountState F) (n : String) :
    (s.setAccount name a).account n = if name = n then a else s.account n := by
  unfold account setAccount
  rw [Std.ExtTreeMap.getElem?_insert]
  by_cases h : name = n
  · simp [h]
  · simp [h]

omit [Flt F] in
@[simp] theorem hosts_setAccount (s : State F) (name : String) (a : AccountState F) (n : String) :
    (s.setAccount name a).hosts n = s.hosts n := rfl

end State

/-! ## What a lookup finds after a record -/

/-- **A rebuilt map looks up the entry built from the old one**, when no id repeats. -/
theorem rebuild_getElem? {V W : Type} (next : Option V → W → V) (id : W → String) (old : BTreeMap V) (ws : List W)
    (hnd : (ws.map id).Nodup) (k : String) :
    (rebuild next id old ws)[k]? = (ws.find? (fun w => id w == k)).map (fun w => next old[k]? w) := by
  suffices h : ∀ (ws : List W) (o acc : BTreeMap V), (ws.map id).Nodup →
      ((ws.foldl (fun (acc : BTreeMap V × BTreeMap V) w =>
        (acc.1.erase (id w), acc.2.insert (id w) (next acc.1[id w]? w))) (o, acc)).2)[k]? =
        ((ws.find? (fun w => id w == k)).map (fun w => next o[k]? w)).or acc[k]? by
    have := h ws old ∅ hnd
    rw [rebuild, this]
    cases (ws.find? (fun w => id w == k)).map (fun w => next old[k]? w) <;> simp
  intro ws
  induction ws with
  | nil => intro o acc _; simp
  | cons w ws ih =>
    intro o acc hnd
    rw [List.map_cons, List.nodup_cons] at hnd
    rw [List.foldl_cons, ih _ _ hnd.2, List.find?_cons, Std.ExtTreeMap.getElem?_insert, Std.ExtTreeMap.getElem?_erase]
    by_cases hk : id w = k
    · subst hk
      have hnone : ws.find? (fun v => id v == id w) = none := by
        rw [List.find?_eq_none]
        intro v hv hvk
        exact hnd.1 (List.mem_map.2 ⟨v, hv, by simpa using hvk⟩)
      simp [hnone]
    · have hb : (id w == k) = false := by simpa using hk
      simp [hb, hk]

omit [Flt F] in
theorem recordWindows_getElem? (snapshot : QuotaSnapshot F) (workers : Nat) (k : String)
    (hnd : (snapshot.windows.map (·.id)).Nodup) :
    (recordWindows snapshot workers)[k]? =
      (snapshot.windows.find? (fun w => w.id == k)).map (windowSample snapshot workers) := by
  unfold recordWindows
  rw [getElem?_foldl_insert _ _ _ _ hnd, Std.ExtTreeMap.getElem?_empty, Option.or_none]

theorem recordHistory_getElem? (history : BTreeMap (WindowHistory F)) (snapshot : QuotaSnapshot F) (workers : Nat)
    (hnd : (snapshot.windows.map (·.id)).Nodup) (k : String) :
    (recordHistory history snapshot workers)[k]? =
      (snapshot.windows.find? (fun w => w.id == k)).map (extendHistory snapshot workers history[k]?) :=
  rebuild_getElem? _ _ _ _ hnd k

omit [Flt F] in
theorem recordAggregate_getElem? (histories : BTreeMap (List (AggregateBurnSample F))) (snapshot : QuotaSnapshot F)
    (workers : Nat) (hnd : (snapshot.windows.map (·.id)).Nodup) (k : String) :
    (recordAggregate histories snapshot workers)[k]? =
      (snapshot.windows.find? (fun w => w.id == k)).map (extendAggregate snapshot workers histories[k]?) :=
  rebuild_getElem? _ _ _ _ hnd k

end Subgov
