import Mathlib.Data.List.Sort
import Subgov.WorkerFreeze
/-!
# FleetReconcile — `reconcile_items` of `zai-fleet`

The roster's units are brought to a desired number: which of them stay, the marker and the drop-in that keep a retired
unit from being started again, one reload, then the starts and the attempts to stop.
-/
namespace Subgov
namespace Freeze
namespace ZaiFleet

open Procfs Python
open Script (perform ofExcept)

/-! ## The roster -/

def unitOf (workerId : String) : String := "needle-worker@" ++ workerId ++ ".service"

/-- A roster that `roster_read` lets through, with where its governor keeps its files. -/
structure Roster where
  owner : String
  /-- The digest of the roster that marks what is its own. -/
  identity : String
  statePath : String
  unitDir : String
  workers : List Worker
  unit_eq : ∀ worker ∈ workers, worker.unit = unitOf worker.workerId
  nodup : (workers.map Worker.unit).Nodup

namespace Roster

variable (roster : Roster) (worker : Worker)

def marker : String := roster.statePath ++ ".retired/" ++ worker.unit

def markerText : String := roster.identity ++ "\n"

def dropinPath : String := roster.unitDir ++ "/" ++ worker.unit ++ ".d/90-subgov-zai.conf"

def dropin : String :=
  "# subgov-zai owner=" ++ roster.owner ++ " state=" ++ roster.statePath ++
    "\n[Unit]\nConditionPathExists=!" ++ roster.marker worker ++ "\n[Service]\nRestart=no\n"

end Roster

section Owned

variable (roster : Roster)

/-- `validate_owned_files` -/
def validateOwnedFiles : List Worker → Script Op Err Unit
  | [] => return ()
  | worker :: rest => do
    checkOwned (roster.dropinPath worker) (roster.dropin worker)
    checkOwned (roster.marker worker) roster.markerText
    validateOwnedFiles rest

end Owned

/-! ## Which units stay -/

structure Item where
  worker : Worker
  info : UnitInfo

/-- `info["masked"]` -/
def masked (info : UnitInfo) : Bool := info.loadState == "masked" || info.unitFileState.toList.take 6 == "masked".toList

section Reconcile

variable (fromisoformat : String → Except Err ℤ) (staleAfter : ℤ) (roster : Roster)

/-- A busy worker before an idle one before an inactive unit. -/
def retention (item : Item) : Script Op Err ℕ := do
  if item.info.mainPid = 0 then return 2
  else if ← ofExcept (← heartbeat fromisoformat staleAfter item.worker item.info.mainPid).idle then return 1
  else return 0

def retentions : List Item → Script Op Err (List ℕ)
  | [] => return []
  | item :: rest => do
    let key ← retention fromisoformat staleAfter item
    return key :: (← retentions rest)

/-- The units that stay, of those that are not masked with what ranks them. -/
def keepUnits (desired : ℕ) (permitted : List Item) (keys : List ℕ) : List String :=
  (((permitted.zip keys).insertionSort fun a b => a.2 ≤ b.2).take desired).map fun ranked => ranked.1.worker.unit

/-! ## The run -/

/-- A unit that stays has neither file. -/
def release (path : String) : Script Op Err Unit := do
  if ← perform (.exists path) then perform (.unlink path) else return ()

def install (path text : String) : Script Op Err Unit := do
  if ← perform (.exists path) then return () else perform (.atomicText path text)

def guardFiles (keep : List String) : List Item → Script Op Err Unit
  | [] => return ()
  | item :: rest => do
    if item.worker.unit ∈ keep then do
      release (roster.marker item.worker)
      release (roster.dropinPath item.worker)
      guardFiles keep rest
    else do
      install (roster.marker item.worker) roster.markerText
      install (roster.dropinPath item.worker) (roster.dropin item.worker)
      guardFiles keep rest

/-- Masking is looked at again before a start, and nothing is unmasked. -/
def startKept (item : Item) : Script Op Err Unit := do
  let current ← status item.worker
  if !masked current && current.mainPid = 0 && ["inactive", "failed"].contains current.activeState then
    perform (.startUnit item.worker.unit)
  else return ()

def act (keep : List String) : List Item → Script Op Err Unit
  | [] => return ()
  | item :: rest => do
    if item.worker.unit ∈ keep then do
      startKept item
      act keep rest
    else if item.info.mainPid ≠ 0 then do
      let _ ← stopIdle fromisoformat staleAfter item.worker item.info.mainPid
      act keep rest
    else act keep rest

/-- The retirees whose process is still there. -/
def pendingRetirees (keep : List String) : List Item → Script Op Err (List String)
  | [] => return []
  | item :: rest => do
    if item.worker.unit ∈ keep then pendingRetirees keep rest
    else do
      let info ← status item.worker
      let others ← pendingRetirees keep rest
      return if info.mainPid = 0 then others else item.worker.unit :: others

/-- `reconcile_items` -/
def reconcileItems (desired : ℕ) (items : List Item) : Script Op Err (List String) := do
  let permitted := items.filter fun item => !masked item.info
  if permitted.length < desired then .raise .value
  else do
    let keys ← retentions fromisoformat staleAfter permitted
    let keep := keepUnits desired permitted keys
    perform (.saveState ⟨desired, (items.map fun item => item.worker.unit).filter fun unit => unit ∉ keep⟩)
    guardFiles roster keep items
    perform .daemonReload
    act fromisoformat staleAfter keep items
    let pending ← pendingRetirees keep items
    perform (.saveState ⟨desired, pending⟩)
    return keep

end Reconcile

end ZaiFleet
end Freeze
end Subgov
