import Subgov.FleetReconcile
import Subgov.SeedSelectors
/-!
# PoolReconcile — `reconcile` of `codex-productive`

The pool is brought to a desired number of workers: surplus ones are marked and each is asked to stop if it is idle,
missing ones are started, an adopted slot first and then a slot of the pool's own at the next of the seeds.
-/
namespace Subgov
namespace Freeze
namespace CodexPool

open Procfs Python
open Script (perform ofExcept)
open ZaiFleet (unitOf masked)

/-! ## The pool -/

def isIdentifierChar (c : Char) : Bool := c.isAlphanum || c == '_' || c == '.' || c == '-'

/-- `[A-Za-z0-9][A-Za-z0-9_.-]*` -/
def isIdentifier (s : String) : Bool :=
  match s.toList with
  | [] => false
  | c :: rest => c.isAlphanum && rest.all isIdentifierChar

def agentStem : List Char := "codex-".toList

/-- `codex-[A-Za-z0-9_.-]+` -/
def isAgent (s : String) : Bool :=
  agentStem.isPrefixOf s.toList && s.toList.length > agentStem.length &&
    (s.toList.drop agentStem.length).all isIdentifierChar

def startsWith (s start : String) : Prop := start.toList.isPrefixOf s.toList = true

instance (s start : String) : Decidable (startsWith s start) := inferInstanceAs (Decidable (_ = true))

/-- Settings that `settings_read` lets through. -/
structure Pool extends Settings where
  ownPrefix : String
  maxWorkers : ℕ
  actuatorState : String
  /-- `Path.resolve` -/
  resolve : String → String
  ids : (adopted.map Adopted.workerId).Nodup
  foreign : ∀ entry ∈ adopted, ¬ startsWith entry.workerId ownPrefix
  units : ∀ entry ∈ adopted, ∀ unit ∈ entry.unit, unit = unitOf entry.workerId

def settingsRead (settings : Settings) (ownPrefix : String) (maxWorkers : ℤ) (actuatorState : String)
    (resolve : String → String) : Except Err Pool :=
  if ownPrefix ≠ "sg-codex-" ∨ ¬ (1 ≤ maxWorkers ∧ maxWorkers ≤ 12) then .error .value
  else if !isAgent settings.agent then .error .value
  else if !(settings.adopted.all fun entry =>
      isIdentifier entry.workerId && isAgent entry.agent && ['/'].isPrefixOf entry.workspace.toList) then .error .value
  else if h : (settings.adopted.map Adopted.workerId).Nodup ∧
      (∀ entry ∈ settings.adopted, ¬ startsWith entry.workerId ownPrefix) ∧
      ∀ entry ∈ settings.adopted, ∀ unit ∈ entry.unit, unit = unitOf entry.workerId then
    if settings.adopted.length ≤ maxWorkers then
      .ok ⟨settings, ownPrefix, maxWorkers.toNat, actuatorState, resolve, h.1, h.2.1, h.2.2⟩
    else .error .value
  else .error .value

section Pool

variable (pool : Pool)

def Pool.marker (unit : String) : String := pool.actuatorState ++ ".retired/" ++ unit

def markerText : String := "subgov-codex\n"

/-- The unit of a worker that is an adopted one with a unit. -/
def Pool.unitFor (worker : Worker) : Option String := (adoptedAs pool.toSettings worker).bind Adopted.unit

/-- `marker.unlink(missing_ok=True)` -/
def discard (path : String) : Script Op Err Unit :=
  (perform (.unlink path)).rescue fun e => if e = .fileNotFound then pure () else .raise e

/-! ## Which workers stay -/

def taskChildren (pid : ℕ) : Script Op Err Bool := do
  let tasks ← perform (.tasks pid)
  if tasks.isEmpty then return true else anyLiveChild pid tasks

/-- Whether a worker has children, which it has where they cannot be looked for. -/
def childBearing (worker : Worker) : Script Op Err Bool :=
  (taskChildren worker.pid).rescue fun e => if e.isOs = true ∨ e = .key then pure true else .raise e

/-- `retention_order(worker)[0]`: a busy worker, then one with children, then the others. -/
def retention (worker : Worker) : Script Op Err ℕ := do
  if !(← ofExcept (idle worker.beat)) then return 0
  else if ← childBearing worker then return 1
  else return 2

def retentions : List Worker → Script Op Err (List ℕ)
  | [] => return []
  | worker :: rest => do
    let key ← retention worker
    return key :: (← retentions rest)

/-- One worker stays rather than another. -/
def retainedBefore (a b : Worker × ℕ) : Prop := toLex (a.2, a.1.workerId) ≤ toLex (b.2, b.1.workerId)

instance : DecidableRel retainedBefore := fun _ _ => inferInstanceAs (Decidable (toLex _ ≤ toLex _))

def keepOf (desired : ℕ) (live : List Worker) (keys : List ℕ) : List String :=
  (((live.zip keys).insertionSort retainedBefore).take desired).map fun ranked => ranked.1.workerId

/-! ## The surplus -/

def unmark : Option String → Script Op Err Unit
  | some unit => discard (pool.marker unit)
  | none => return ()

def mark : Option String → Script Op Err Unit
  | some unit => perform (.atomicText (pool.marker unit) markerText)
  | none => return ()

/-- A worker that stays has no marker. -/
def releaseKept (keep : List String) : List Worker → Script Op Err Unit
  | [] => return ()
  | worker :: rest =>
    if worker.workerId ∈ keep then do
      unmark pool (pool.unitFor worker)
      releaseKept keep rest
    else releaseKept keep rest

/-- The surplus in the order of the names, with those returned that are still there. -/
def shrink (keep : List String) : List Worker → Script Op Err (List String)
  | [] => return []
  | worker :: rest => do
    if worker.workerId ∈ keep then shrink keep rest
    else do
      mark pool (pool.unitFor worker)
      let stopped ← stopIdle pool.toSettings worker
      let pending ← shrink keep rest
      return if stopped.isSome then pending else worker.workerId :: pending

/-! ## The missing workers -/

/-- `worker.get("workspace")` where it says one. -/
def routeOf (worker : Worker) : Except Err (Option String) :=
  match worker.beat.get "workspace" with
  | none => .ok none
  | some (.str route) => .ok (if route.isEmpty then none else some route)
  | some v => if v.truthy then .error .other else .ok none

/-- `running[route] = running.get(route, 0) + 1` -/
def bump (route : String) : List (String × ℕ) → List (String × ℕ)
  | [] => [(route, 1)]
  | (other, n) :: rest => if other = route then (other, n + 1) :: rest else (other, n) :: bump route rest

/-- The live workers of each workspace. -/
def runningAt (live : List Worker) : Except Err (List (String × ℕ)) :=
  live.foldlM (fun running worker => do
    match ← routeOf worker with
    | none => return running
    | some route => return bump (pool.resolve route) running) []

/-- The adopted slots that nobody holds and that are not masked. -/
def candidates (taken : List String) : List Adopted → Script Op Err (List Adopted)
  | [] => return []
  | entry :: rest => do
    if entry.workerId ∈ taken then candidates taken rest
    else
      match entry.unit with
      | none => return entry :: (← candidates taken rest)
      | some unit => do
        let info ← unitInfo unit
        let others ← candidates taken rest
        return if masked info then others else entry :: others

/-- The first number that names no worker. -/
def Pool.freeNumber (taken : List String) : Option ℕ :=
  (List.range' 1 pool.maxWorkers).find? fun i => pool.ownPrefix ++ toString i ∉ taken

/-- Where a worker starts, with the seeds left. -/
def routeFor : Option Adopted → List String → Option (String × List String)
  | some entry, seeds => some (entry.workspace, seeds)
  | none, route :: seeds => some (route, seeds)
  | none, [] => none

def exhausted {α : Type} : Script Op Err α := do
  perform .exhausted
  .raise .stopIteration

def launchOf (binary agent route name : String) : Launch where
  name := name
  agent := agent
  workspace := route
  session := "needle-" ++ agent.replace "." "_" ++ "-" ++ name
  argv := [binary, "run", "--agent", agent, "--workspace", route, "--identifier", name, "--count", "1"]

/-- A worker in a session of its own, with its name and the seeds left. -/
def launch (entry : Option Adopted) (seeds taken : List String) : Script Op Err (String × List String) := do
  match pool.freeNumber taken with
  | none => exhausted
  | some number => do
    let name := entry.elim (pool.ownPrefix ++ toString number) Adopted.workerId
    match ← perform .which with
    | none => .raise .value
    | some binary =>
      match routeFor entry seeds with
      | none => exhausted
      | some (route, seeds) => do
        perform (.newSession (launchOf binary (entry.elim pool.agent Adopted.agent) route name))
        return (name, seeds)

/-- One worker for each of so many jobs, unless its unit has been masked meanwhile. -/
def grow : ℕ → List Adopted → List String → List String → Script Op Err Unit
  | 0, _, _, _ => return ()
  | jobs + 1, entries, seeds, taken =>
    match entries.head?.bind fun entry => entry.unit.map fun unit => (entry, unit) with
    | some (entry, unit) => do
      if masked (← unitInfo unit) then grow jobs entries.tail seeds taken
      else do
        discard (pool.marker unit)
        perform (.startUnit unit)
        grow jobs entries.tail seeds (entry.workerId :: taken)
    | none => do
      let (name, seeds) ← launch pool entries.head? seeds taken
      grow jobs entries.tail seeds (name :: taken)

def expand (missing : ℕ) (live : List Worker) : Script Op Err Unit := do
  let ready ← perform .readyJobs
  let running ← ofExcept (runningAt pool live)
  let seeds ← ofExcept ((ReadyBeads.seedOrder pool.resolve ready running).mapError fun _ => Err.value)
  let taken := live.map Worker.workerId
  let entries ← candidates taken pool.adopted
  grow pool (ready.take missing).length entries (seeds.take missing) taken

/-! ## The run -/

def byName (live : List Worker) : List Worker := live.insertionSort fun a b => a.workerId ≤ b.workerId

def settle (desired : ℕ) (live : List Worker) (keep : List String) : Script Op Err Unit := do
  releaseKept pool keep live
  if desired < live.length then do
    let pending ← shrink pool keep (byName live)
    perform (.saveState ⟨desired, pending⟩)
  else if live.length < desired then do
    expand pool (desired - live.length) live
    perform (.saveState ⟨desired, []⟩)
  else perform (.saveState ⟨desired, []⟩)

/-- `reconcile` -/
def reconcile (desired : ℕ) (live : List Worker) : Script Op Err Unit := do
  let keys ← retentions live
  settle pool desired live (keepOf desired live keys)

end Pool

end CodexPool
end Freeze
end Subgov
