import Subgov.Lib.Interleave
import Subgov.Lib.Procfs
import Subgov.Lib.Python
/-!
# WorkerFreeze — `stop_idle` of the three adapters

A worker that is to go is identified, frozen, looked over and only then told to end.  `stopFrozen` is the part that
`zai-takeover`, `zai-fleet` and `codex-productive` share, and `Steps` is what each does its own way.  Every operation
is one step, so that the workers and the machine go on between any two of them.
-/
namespace Subgov
namespace Freeze

open Procfs Python
open Script (perform ofExcept)

/-! ## The world -/

/-- A heartbeat file: the members of its JSON object. -/
abbrev Beat := List (String × Value)

def Beat.get (beat : Beat) (key : String) : Option Value := beat.lookup key

/-- What `systemctl show` tells of a unit. -/
structure UnitInfo where
  id : String
  mainPid : ℕ
  activeState : String
  loadState : String
  unitFileState : String

inductive Err
  | fileNotFound
  | processLookup
  | os
  | value
  | runtime
  | key
  | stopIteration
  /-- What no handler of `stop_idle` is for. -/
  | other
  deriving DecidableEq

def Err.isOs : Err → Bool
  | fileNotFound | processLookup | os => true
  | value | runtime | key | stopIteration | other => false

/-- `except (OSError, ValueError, RuntimeError, KeyError)` -/
def Err.caught : Err → Bool
  | stopIteration | other => false
  | _ => true

def Err.ofErrno : Errno → Err
  | .noEntry => fileNotFound
  | .noProcess => processLookup

/-- What an actuator saves of a run. -/
structure Saved where
  desired : ℕ
  pendingRetirees : List String

/-- A worker that `codex-productive` starts in a tmux session of its own. -/
structure Launch where
  name : String
  agent : String
  workspace : String
  session : String
  argv : List String
  deriving DecidableEq

/-- What a run has started. -/
inductive Started
  | unit (unit : String)
  | session (launch : Launch)
  deriving DecidableEq

inductive Op : Type → Type
  | glob : Op (List String)
  | readBeat (name : String) : Op Beat
  | now : Op ℤ
  | monotonic : Op ℕ
  | sleep (ms : ℕ) : Op Unit
  | cmdline (pid : ℕ) : Op (List String)
  | startTime (pid : ℕ) : Op ℕ
  | tasks (pid : ℕ) : Op (List ℕ)
  | threadStopped (pid tid : ℕ) : Op Bool
  | children (pid tid : ℕ) : Op (List ℕ)
  | ended (pid : ℕ) : Op Bool
  | procExists (pid : ℕ) : Op Bool
  | pidfdOpen (pid : ℕ) : Op PidFd
  | send (fd : PidFd) (signal : Signal) : Op Unit
  | close (fd : PidFd) : Op Unit
  | showUnit (unit : String) : Op UnitInfo
  | stopUnit (unit : String) : Op Unit
  | startUnit (unit : String) : Op Unit
  | daemonReload : Op Unit
  /-- `shutil.which("needle")` -/
  | which : Op (Option String)
  | newSession (launch : Launch) : Op Unit
  /-- `demand(settings)["ready"]`, as the workspaces of its jobs. -/
  | readyJobs : Op (List String)
  | exists (path : String) : Op Bool
  | readText (path : String) : Op String
  | atomicText (path text : String) : Op Unit
  | unlink (path : String) : Op Unit
  | saveState (saved : Saved) : Op Unit
  /-- `next` of an iterator that has nothing left. -/
  | exhausted : Op Unit
  /-- Where no loop of these scripts comes to. -/
  | unreachable : Op Unit

/-- What a script has looked at, opened and signalled, with the machine as it was then. -/
inductive Seen
  | beat (name : String) (beat : Beat) (machine : Machine)
  | clock (now : ℤ) (machine : Machine)
  | command (pid : ℕ) (command : List String) (machine : Machine)
  | opened (fd : PidFd) (machine : Machine)
  | signalled (fd : PidFd) (signal : Signal) (machine : Machine)
  | threads (pid : ℕ) (listed : List ℕ) (machine : Machine)

structure World where
  machine : Machine
  /-- The heartbeat files by their names without the extension. -/
  beats : String → Option Beat
  heartbeatNames : List String
  wall : ℤ
  clock : ℕ
  units : String → UnitInfo
  needle : Option String
  ready : List String
  /-- What the run has been told is ready. -/
  demanded : Option (List String)
  files : String → Option String
  /-- The files as systemd has read them. -/
  loaded : String → Option String
  saved : Option Saved
  started : List Started
  /-- The processes that a descriptor was asked for. -/
  opened : List ℕ
  seen : List Seen

def readProc {α : Type} (w : World) (r : Except Errno α) : Except Err α × World := (r.mapError Err.ofErrno, w)

theorem readProc_ok {α : Type} {w : World} {r : Except Errno α} {a : α} (h : (readProc w r).1 = .ok a) : r = .ok a := by
  cases r with
  | ok b => exact congrArg Except.ok (Except.ok.inj h)
  | error e => cases h

/-- A look, or a signal, that is noted when it comes to something. -/
def noted {α : Type} (w : World) (r : Except Errno α) (entry : α → Seen) : Except Err α × World :=
  match r with
  | .error e => (.error (.ofErrno e), w)
  | .ok a => (.ok a, { w with seen := entry a :: w.seen })

section Noted

variable {α : Type} {w : World} {r : Except Errno α} {entry : α → Seen}

theorem noted_ok {a : α} (h : (noted w r entry).1 = .ok a) :
    r = .ok a ∧ (noted w r entry).2 = { w with seen := entry a :: w.seen } := by
  cases r with
  | ok b =>
    obtain rfl : b = a := Except.ok.inj h
    exact ⟨rfl, rfl⟩
  | error e => cases h

theorem noted_seen {s : Seen} (h : s ∈ w.seen) : s ∈ (noted w r entry).2.seen := by
  cases r with
  | ok a => exact List.mem_cons_of_mem _ h
  | error e => exact h

variable (w r entry) in
theorem noted_eq : ∃ seen, (noted w r entry).2 = { w with seen := seen } := by
  cases r with
  | ok a => exact ⟨_, rfl⟩
  | error e => exact ⟨w.seen, rfl⟩

theorem noted_machine : (noted w r entry).2.machine = w.machine := by
  obtain ⟨seen, hnoted⟩ := noted_eq w r entry
  rw [hnoted]

end Noted

def exec : {β : Type} → Op β → World → Except Err β × World
  | _, .glob, w => (.ok w.heartbeatNames, w)
  | _, .readBeat name, w =>
    match w.beats name with
    | none => (.error .fileNotFound, w)
    | some beat => (.ok beat, { w with seen := .beat name beat w.machine :: w.seen })
  | _, .now, w => (.ok w.wall, { w with seen := .clock w.wall w.machine :: w.seen })
  | _, .monotonic, w => (.ok w.clock, w)
  | _, .sleep ms, w => (.ok (), { w with clock := w.clock + ms })
  | _, .cmdline pid, w => noted w (w.machine.cmdline pid) fun command => .command pid command w.machine
  | _, .startTime pid, w => readProc w (w.machine.startTime pid)
  | _, .tasks pid, w => noted w (w.machine.tasks pid) fun listed => .threads pid listed w.machine
  | _, .threadStopped pid tid, w => readProc w (w.machine.threadStopped pid tid)
  | _, .children pid tid, w => readProc w (w.machine.children pid tid)
  | _, .ended pid, w => readProc w (w.machine.ended pid)
  | _, .procExists pid, w => (.ok (w.machine.procs pid).isSome, w)
  | _, .pidfdOpen pid, w =>
    noted { w with opened := pid :: w.opened } (w.machine.pidfdOpen pid) fun fd => .opened fd w.machine
  | _, .send fd signal, w =>
    noted { w with machine := (w.machine.send fd signal).2 } (w.machine.send fd signal).1 fun _ =>
      .signalled fd signal w.machine
  | _, .close _, w => (.ok (), w)
  | _, .showUnit unit, w => (.ok (w.units unit), w)
  | _, .stopUnit _, w => (.ok (), w)
  | _, .startUnit unit, w => (.ok (), { w with started := w.started ++ [.unit unit] })
  | _, .daemonReload, w => (.ok (), { w with loaded := w.files })
  | _, .which, w => (.ok w.needle, w)
  | _, .newSession launch, w => (.ok (), { w with started := w.started ++ [.session launch] })
  | _, .readyJobs, w => (.ok w.ready, { w with demanded := some w.ready })
  | _, .exists path, w => (.ok (w.files path).isSome, w)
  | _, .readText path, w =>
    match w.files path with
    | none => (.error .fileNotFound, w)
    | some text => (.ok text, w)
  | _, .atomicText path text, w => (.ok (), { w with files := Function.update w.files path (some text) })
  | _, .unlink path, w =>
    match w.files path with
    | none => (.error .fileNotFound, w)
    | some _ => (.ok (), { w with files := Function.update w.files path none })
  | _, .saveState saved, w => (.ok (), { w with saved := some saved })
  | _, .exhausted, w => (.error .stopIteration, w)
  | _, .unreachable, w => (.error .other, w)

/-! ## Looking a worker over -/

section Common

variable (fromisoformat : String → Except Err ℤ) (staleAfter : ℤ)

/-- `Path(command).name` -/
def pathName (command : String) : List Char :=
  (((command.toList.splitOn '/').filter fun part => part ≠ [] && part ≠ ['.']).getLast?).getD []

/-- `command[command.index(flag) + 1]` -/
def flagValue (command : List String) (flag : String) : Option String := command[command.idxOf flag + 1]?

/-- The command line is that of a NEEDLE supervisor started with these flags. -/
def supervises (flags : List (String × String)) (command : List String) : Bool :=
  command.head?.any (fun name => ["needle".toList, "needle-stable".toList].contains (pathName name)) &&
    command.contains "run" &&
    flags.all fun (flag, expected) => command.contains flag && flagValue command flag == some expected

/-- `process_identity` and `identity`: the start time of the supervisor that `pid` is. -/
def processIdentity (flags : List (String × String)) (pid : ℕ) : Script Op Err ℕ := do
  let command ← perform (.cmdline pid)
  if !supervises flags command then .raise .value
  else perform (.startTime pid)

/-- `heartbeat.get(key) == n` for a number. -/
def numberIs (n : ℕ) : Option Value → Bool
  | some (.int k) => k == n
  | some (.bool b) => b.toNat == n
  | some (.float x) => x.isFinite && x.scaled == n * 2 ^ 1074
  | _ => false

def textIs (s : String) : Option Value → Bool
  | some v => v.eqStr s
  | none => false

/-- `datetime.fromisoformat(heartbeat["last_heartbeat"].replace("Z", "+00:00"))` -/
def stampOf (beat : Beat) : Except Err ℤ :=
  match beat.get "last_heartbeat" with
  | none => .error .key
  | some (.str s) => fromisoformat (s.replace "Z" "+00:00")
  | some _ => .error .other

/-- A heartbeat's age at `now` lets it count. -/
def Fresh (beat : Beat) (now : ℤ) : Prop :=
  match stampOf fromisoformat beat with
  | .error _ => False
  | .ok stamp => 0 ≤ now - stamp ∧ now - stamp ≤ staleAfter

/-- `heartbeat` of `zai-takeover` and `zai-fleet`, with what the second asks besides. -/
def readHeartbeat (agent workerId : String) (asks : Beat → Bool) (pid : ℕ) : Script Op Err Beat := do
  let beat ← perform (.readBeat (agent ++ "-" ++ workerId))
  if !(textIs (agent ++ "-" ++ workerId) (beat.get "qualified_id") && textIs workerId (beat.get "worker_id") &&
      numberIs pid (beat.get "pid") && asks beat) then .raise .value
  else do
    let stamp ← ofExcept (stampOf fromisoformat beat)
    let now ← perform .now
    if !(0 ≤ now - stamp ∧ now - stamp ≤ staleAfter) then .raise .value
    else return beat

def idleStates : List String := ["SELECTING", "IDLE", "WAITING", "BACKOFF", "SLEEPING", "EXHAUSTED"]

/-- `value in` a set of texts. -/
def inTexts (texts : List String) : Option Value → Except Err Bool
  | none => .ok false
  | some v => if v.hashable then .ok (texts.any fun s => v.eqStr s) else .error .other

def isNone : Option Value → Bool
  | some .none => true
  | _ => false

def isTrue : Option Value → Bool
  | some (.bool true) => true
  | _ => false

/-- `heartbeat.get("current_bead", "missing") is None and heartbeat.get("current_task") is None` -/
def Beat.empty (beat : Beat) : Bool :=
  isNone (beat.get "current_bead") && ((beat.get "current_task").isNone || isNone (beat.get "current_task"))

/-- `idle` of `zai-takeover` and `zai-fleet`. -/
def Beat.idle (beat : Beat) : Except Err Bool := do
  if !beat.empty then return false
  if isTrue (beat.get "is_idle") then
    if ← inTexts idleStates (beat.get "state") then return true
  return textIs "ADMISSION_BLOCKED" (beat.get "state")

/-- `any(live_children(task) for task in tasks)`, with the children of each task looked at one by one. -/
def liveChildren (pid tid : ℕ) : Script Op Err (List ℕ) := do
  let children ← perform (.children pid tid)
  go children
where
  go : List ℕ → Script Op Err (List ℕ)
    | [] => return []
    | child :: rest => do
      match ← (perform (.ended child)).attempt with
      | .ok true => go rest
      | .ok false => return child :: (← go rest)
      | .error e => if e.isOs then return child :: (← go rest) else .raise e

def anyLiveChild (pid : ℕ) : List ℕ → Script Op Err Bool
  | [] => return false
  | tid :: rest => do
    let live ← liveChildren pid tid
    if live.isEmpty then anyLiveChild pid rest else return true

/-- `all(State: T for task in tasks)` -/
def allStopped (pid : ℕ) : List ℕ → Script Op Err Bool
  | [] => return true
  | tid :: rest => do
    if ← perform (.threadStopped pid tid) then allStopped pid rest else return false

end Common

/-! ## The shared part -/

/-- What a script does its own way. -/
structure Steps (α : Type) where
  identity : Script Op Err ℕ
  /-- The cleanup continues the worker even when the stop signal failed. -/
  frozenFirst : Bool
  /-- How long the freeze may take, in milliseconds, and whether just as long is too long. -/
  budget : ℕ
  atLimit : Bool
  /-- No task at all ends the attempt, instead of being looked at again. -/
  noTaskEnds : Bool
  verify : ℕ → Script Op Err Bool
  retire : PidFd → Script Op Err α

variable {α : Type}

/-- The loop that waits for the freeze, which so many rounds end. -/
def awaitFrozen (s : Steps α) (pid limit : ℕ) : ℕ → Script Op Err (Option (List ℕ))
  | 0 => do
    perform .unreachable
    return none
  | rounds + 1 => do
    let tasks ← perform (.tasks pid)
    if s.noTaskEnds && tasks.isEmpty then return none
    else do
      let stopped ← (if tasks.isEmpty then pure false else allStopped pid tasks)
      if stopped then return some tasks
      else do
        let now ← perform .monotonic
        if limit < now || (s.atLimit && limit == now) then return none
        else do
          perform (.sleep 10)
          awaitFrozen s pid limit rounds

/-- What happens while the worker is to stand still. -/
def whileFrozen (s : Steps α) (pid generation : ℕ) (fd : PidFd) : Script Op Err (Option α) := do
  let start ← perform .monotonic
  match ← awaitFrozen s pid (start + s.budget) (s.budget / 10 + 2) with
  | none => return none
  | some tasks =>
    if ← anyLiveChild pid tasks then return none
    else if ← s.verify generation then return some (← s.retire fd)
    else return none

def sendCont (fd : PidFd) : Script Op Err Unit :=
  (perform (.send fd .cont)).rescue fun e => if e = .processLookup then pure () else .raise e

/-- What the descriptor is for: the worker is looked at again, since another may have its number, and then frozen. -/
def holdFrozen (s : Steps α) (pid generation : ℕ) (fd : PidFd) : Script Op Err (Option α) := do
  match ← s.identity.attempt with
  | .error e => do
    perform (.close fd)
    .raise e
  | .ok again =>
    if again ≠ generation then do
      perform (.close fd)
      return none
    else if s.frozenFirst then
      (do perform (Op.send fd .stop)
          whileFrozen s pid generation fd).always (do
        sendCont fd
        perform (.close fd))
    else do
      match ← (perform (Op.send fd .stop)).attempt with
      | .error e => do
        perform (.close fd)
        .raise e
      | .ok () =>
        (whileFrozen s pid generation fd).always (do
          sendCont fd
          perform (.close fd))

def stopFrozen (s : Steps α) (pid : ℕ) : Script Op Err (Option α) := do
  let generation ← s.identity
  holdFrozen s pid generation (← perform (.pidfdOpen pid))

/-- A file that is there and holds something else is somebody else's. -/
def checkOwned (path text : String) : Script Op Err Unit := do
  if ← perform (.exists path) then
    if (← perform (.readText path)) ≠ text then .raise .value else return ()
  else return ()

/-! ## `zai-takeover` -/

namespace Takeover

/-- An entry of the takeover list, its unit empty for a straggler. -/
structure Target where
  workerId : String
  agent : String
  unit : String
  deriving DecidableEq

structure Settings where
  fromisoformat : String → Except Err ℤ
  staleAfter : ℤ
  owner : String
  manifest : String
  statePath : String
  unitDir : String

/-- What a retirement leaves in the record. -/
structure Retirement where
  workerId : String
  agent : String
  unit : String
  pid : ℕ
  method : String
  retiredAt : ℤ

variable (settings : Settings) (target : Target)

def flags : List (String × String) := [("--identifier", target.workerId), ("--agent", target.agent)]

def heartbeat (pid : ℕ) : Script Op Err Beat :=
  readHeartbeat settings.fromisoformat settings.staleAfter target.agent target.workerId (fun _ => true) pid

def marker : String := settings.statePath ++ ".retired/" ++ target.workerId ++ ".marker"

def dropinPath : String := settings.unitDir ++ "/" ++ target.unit ++ ".d/91-subgov-zai-takeover.conf"

def dropin : String :=
  "# subgov-zai-takeover owner=" ++ settings.owner ++ " state=" ++ settings.statePath ++
    "\n[Unit]\nConditionPathExists=!" ++ marker settings target ++ "\n[Service]\nRestart=no\n"

def writeMarker : Script Op Err Unit := do
  if ← perform (.exists (marker settings target)) then return ()
  else perform (.atomicText (marker settings target) (settings.manifest ++ "\n"))

def writeDropin : Script Op Err Unit := do
  if ← perform (.exists (dropinPath settings target)) then return ()
  else do
    perform (.atomicText (dropinPath settings target) (dropin settings target))
    perform .daemonReload

/-- `install_guard` -/
def installGuard : Script Op Err Unit := do
  checkOwned (dropinPath settings target) (dropin settings target)
  checkOwned (marker settings target) (settings.manifest ++ "\n")
  writeMarker settings target
  writeDropin settings target

def stopUnit : Script Op Err Unit := do
  installGuard settings target
  perform (.stopUnit target.unit)

def stopStraggler (fd : PidFd) : Script Op Err Unit := do
  perform (.send fd .term)
  sendCont fd

/-- Two seconds in rounds of fifty milliseconds. -/
def awaitExit (pid limit : ℕ) : ℕ → Script Op Err Unit
  | 0 => perform .unreachable
  | rounds + 1 => do
    let now ← perform .monotonic
    if now < limit then do
      if ← perform (.procExists pid) then do
        perform (.sleep 50)
        awaitExit pid limit rounds
      else return ()
    else return ()

def steps (pid : ℕ) : Steps Retirement where
  identity := processIdentity (flags target) pid
  frozenFirst := true
  budget := 300
  atLimit := true
  noTaskEnds := true
  verify := fun generation => do
    let unitHolds ← (if target.unit = "" then pure true else do
      return (← perform (.showUnit target.unit)).mainPid == pid)
    if !unitHolds then return false
    else if !(← ofExcept (← heartbeat settings target pid).idle) then return false
    else return (← processIdentity (flags target) pid) == generation
  retire := fun fd => do
    let method ← (if target.unit ≠ "" then do
        stopUnit settings target
        return "unit"
      else do
        stopStraggler fd
        let start ← perform .monotonic
        awaitExit pid (start + 2000) 42
        return "signal")
    return ⟨target.workerId, target.agent, target.unit, pid, method, ← perform .now⟩

/-- The process that the heartbeat names: `isinstance(pid, int) and pid > 0`. -/
def namedPid : Option Value → Option ℕ
  | some (.int k) => if 0 < k then some k.toNat else none
  | _ => none

/-- `stop_idle` -/
def stopIdle : Script Op Err (Option Retirement) :=
  Script.rescue
    (do
      let beat : Beat ← (perform (.readBeat (target.agent ++ "-" ++ target.workerId))).rescue fun e =>
        if e = .fileNotFound then pure [] else .raise e
      match namedPid (beat.get "pid") with
      | none => return none
      | some pid =>
        if !(← ofExcept (← heartbeat settings target pid).idle) then return none
        else stopFrozen (steps settings target pid) pid)
    fun e => if e.caught then pure none else .raise e

end Takeover

/-! ## `zai-fleet` -/

namespace ZaiFleet

structure Worker where
  workerId : String
  agent : String
  unit : String
  deriving DecidableEq

variable (fromisoformat : String → Except Err ℤ) (staleAfter : ℤ) (worker : Worker)

/-- `status`, which a unit that is not there or is another fails. -/
def status : Script Op Err UnitInfo := do
  let info ← perform (.showUnit worker.unit)
  if info.id ≠ worker.unit || !(info.loadState == "loaded" || info.loadState == "masked") then .raise .value
  else return info

def asks (beat : Beat) : Bool :=
  match beat.get "model" with
  | none => true
  | some v => v.eqStr worker.agent

def heartbeat (pid : ℕ) : Script Op Err Beat :=
  readHeartbeat fromisoformat staleAfter worker.agent worker.workerId (asks worker) pid

def flags : List (String × String) := [("--identifier", worker.workerId), ("--agent", worker.agent)]

def steps (pid : ℕ) : Steps Unit where
  identity := processIdentity (flags worker) pid
  frozenFirst := true
  budget := 300
  atLimit := true
  noTaskEnds := true
  verify := fun generation => do
    if !(← ofExcept (← heartbeat fromisoformat staleAfter worker pid).idle) then return false
    else if (← status worker).mainPid ≠ pid then return false
    else return (← processIdentity (flags worker) pid) == generation
  retire := fun _ => perform (.stopUnit worker.unit)

/-- `stop_idle` of a worker whose unit runs `pid`. -/
def stopIdle (pid : ℕ) : Script Op Err (Option Unit) := do
  if pid = 0 then return none
  else if !(← ofExcept (← heartbeat fromisoformat staleAfter worker pid).idle) then return none
  else stopFrozen (steps fromisoformat staleAfter worker pid) pid

end ZaiFleet

/-! ## `codex-productive` -/

namespace CodexPool

structure Adopted where
  workerId : String
  agent : String
  unit : Option String
  workspace : String
  deriving DecidableEq

structure Settings where
  fromisoformat : String → Except Err ℤ
  agent : String
  adopted : List Adopted

/-- A heartbeat that `workers` listed. -/
structure Worker where
  workerId : String
  agent : String
  pid : ℕ
  beat : Beat

variable (settings : Settings)

/-- `IDLE` -/
def codexIdle : List String := idleStates ++ ["ADMISSION_BLOCKED"]

/-- `idle` -/
def idle (beat : Beat) : Except Err Bool := do
  if !(← inTexts codexIdle (beat.get "state")) then return false
  return beat.empty && (isTrue (beat.get "is_idle") || textIs "ADMISSION_BLOCKED" (beat.get "state"))

def adoptedAs (worker : Worker) : Option Adopted :=
  settings.adopted.find? fun entry => entry.workerId = worker.workerId && entry.agent = worker.agent

def flags (agent identifier : String) : List (String × String) := [("--agent", agent), ("--identifier", identifier)]

/-- A member that has to be a text, with what it is when it is missing. -/
def text (beat : Beat) (key missing : String) : Except Err String :=
  match beat.get key with
  | none => .ok missing
  | some (.str s) => .ok s
  | some _ => .error .other

/-- `identity` of what a heartbeat names as its process. -/
def identity (agent identifier : String) : Option Value → Script Op Err ℕ
  | some (.int k) => if 0 < k then processIdentity (flags agent identifier) k.toNat else .raise .fileNotFound
  | some _ => .raise .fileNotFound
  | none => .raise .key

/-- One heartbeat of `workers`, `none` where it is passed over. -/
def worker (fresh : Bool) (name : String) : Script Op Err (Option Worker) := do
  let beat ← perform (.readBeat name)
  let workerId ← ofExcept (text beat "worker_id" "")
  let agent ← ofExcept (text beat "model" settings.agent)
  if !textIs (agent ++ "-" ++ workerId) (beat.get "qualified_id") then return none
  else do
    let stamp ← ofExcept (stampOf settings.fromisoformat beat)
    let now ← perform .now
    match ← (identity agent workerId (beat.get "pid")).attempt with
    | .error .fileNotFound => return none
    | .error e => .raise e
    | .ok _ =>
      if !fresh || (0 ≤ now - stamp ∧ now - stamp < 60000000) then
        return (Takeover.namedPid (beat.get "pid")).map fun n => ⟨workerId, agent, n, beat⟩
      else return none

/-- `workers` -/
def workers (fresh : Bool) : Script Op Err (List Worker) := do
  go (← perform .glob)
where
  go : List String → Script Op Err (List Worker)
    | [] => return []
    | name :: rest => do
      let one ← worker settings fresh name
      return one.toList ++ (← go rest)

def unitInfo (unit : String) : Script Op Err UnitInfo := do
  let info ← perform (.showUnit unit)
  if info.id ≠ unit || !(info.loadState == "loaded" || info.loadState == "masked") then .raise .value
  else return info

def steps (w : Worker) : Steps Unit where
  identity := processIdentity (flags w.agent w.workerId) w.pid
  frozenFirst := false
  budget := 500
  atLimit := false
  noTaskEnds := false
  verify := fun generation => do
    match (← workers settings true).find? fun value => value.pid = w.pid with
    | none => return false
    | some current =>
      if !(← ofExcept (idle current.beat)) then return false
      else if (← processIdentity (flags w.agent w.workerId) w.pid) ≠ generation then return false
      else match (adoptedAs settings w).bind Adopted.unit with
        | none => return true
        | some unit => return (← unitInfo unit).mainPid == w.pid
  retire := fun fd => perform (.send fd .term)

/-- `stop_idle` -/
def stopIdle (w : Worker) : Script Op Err (Option Unit) := do
  if !(← ofExcept (idle w.beat)) then return none
  else stopFrozen (steps settings w) w.pid

end CodexPool

/-! ## Which operations a script comes to -/

/-- An operation that only looks, or lets time pass. -/
def Op.reads : {β : Type} → Op β → Bool
  | _, .glob | _, .readBeat _ | _, .now | _, .monotonic | _, .sleep _ | _, .cmdline _ | _, .startTime _ | _, .tasks _
  | _, .threadStopped _ _ | _, .children _ _ | _, .ended _ | _, .procExists _ | _, .showUnit _ | _, .which | _, .exists _
  | _, .readText _ => true
  | _, _ => false

/-- One that an attempt comes to before it ends the worker. -/
def Op.attempts : {β : Type} → Op β → Bool
  | _, .pidfdOpen _ | _, .send _ _ | _, .close _ | _, .unreachable => true
  | _, o => o.reads

/-- One that an attempt comes to once it has its descriptor. -/
def Op.attemptsWith (fd : PidFd) : {β : Type} → Op β → Prop
  | _, .send fd' _ => fd' = fd
  | _, .pidfdOpen _ => False
  | _, o => o.attempts = true

section Only

variable {A : ∀ β, Op β → Prop}

theorem processIdentity_only (hA : ∀ {β} (o : Op β), o.reads = true → A β o) (flags : List (String × String)) (pid : ℕ) :
    (processIdentity flags pid).Only A := by
  refine .bind (.perform (hA _ rfl)) fun command => ?_
  split
  · trivial
  · exact .perform (hA _ rfl)

theorem readHeartbeat_only (hA : ∀ {β} (o : Op β), o.reads = true → A β o) (fromisoformat : String → Except Err ℤ)
    (staleAfter : ℤ) (agent workerId : String) (asks : Beat → Bool) (pid : ℕ) :
    (readHeartbeat fromisoformat staleAfter agent workerId asks pid).Only A := by
  refine .bind (.perform (hA _ rfl)) fun beat => ?_
  split
  · trivial
  refine .bind (.ofExcept _) fun stamp => .bind (.perform (hA _ rfl)) fun now => ?_
  split
  · trivial
  · trivial

theorem CodexPool.identity_only (hA : ∀ {β} (o : Op β), o.reads = true → A β o) (agent identifier : String)
    (pid : Option Value) : (CodexPool.identity agent identifier pid).Only A := by
  unfold CodexPool.identity
  split
  · split
    · exact processIdentity_only hA ..
    · trivial
  · trivial
  · trivial

theorem CodexPool.workers_only (hA : ∀ {β} (o : Op β), o.reads = true → A β o) (settings : CodexPool.Settings)
    (fresh : Bool) : (CodexPool.workers settings fresh).Only A := by
  have hworker : ∀ name, (CodexPool.worker settings fresh name).Only A := by
    intro name
    refine .bind (.perform (hA _ rfl)) fun beat => .bind (.ofExcept _) fun workerId => .bind (.ofExcept _) fun agent => ?_
    split
    · trivial
    refine .bind (.ofExcept _) fun stamp => .bind (.perform (hA _ rfl)) fun now =>
      .bind (CodexPool.identity_only hA ..).attempt fun r => ?_
    split
    · trivial
    · trivial
    · split
      · trivial
      · trivial
  refine .bind (.perform (hA _ rfl)) fun names => ?_
  induction names with
  | nil => trivial
  | cons name rest ih => exact .bind (hworker name) fun one => .bind ih fun others => trivial

theorem CodexPool.unitInfo_only (hA : ∀ {β} (o : Op β), o.reads = true → A β o) (unit : String) :
    (CodexPool.unitInfo unit).Only A := by
  refine .bind (.perform (hA _ rfl)) fun info => ?_
  split
  · trivial
  · trivial

theorem allStopped_only (hA : ∀ {β} (o : Op β), o.reads = true → A β o) (pid : ℕ) (ts : List ℕ) :
    (allStopped pid ts).Only A := by
  induction ts with
  | nil => trivial
  | cons t ts ih =>
    refine .bind (.perform (hA _ rfl)) fun stopped => ?_
    split
    · exact ih
    · trivial

theorem anyLiveChild_only (hA : ∀ {β} (o : Op β), o.reads = true → A β o) (pid : ℕ) (ts : List ℕ) :
    (anyLiveChild pid ts).Only A := by
  have hgo : ∀ children : List ℕ, (liveChildren.go children).Only A := by
    intro children
    induction children with
    | nil => trivial
    | cons child rest ih =>
      refine .bind (Script.Only.attempt (.perform (hA _ rfl))) fun r => ?_
      match r with
      | .ok true => exact ih
      | .ok false => exact .bind ih fun _ => trivial
      | .error e =>
        show Script.Only A (if e.isOs then _ else _)
        split
        · exact .bind ih fun _ => trivial
        · trivial
  induction ts with
  | nil => trivial
  | cons t ts ih =>
    refine .bind (.bind (.perform (hA _ rfl)) fun children => hgo children) fun live => ?_
    split
    · exact ih
    · trivial

variable {α : Type} {s : Steps α}

theorem Op.attempts_of_with {β : Type} {o : Op β} {fd : PidFd} (h : o.attemptsWith fd) : o.attempts = true := by
  cases o <;> first | rfl | exact h

theorem Op.attemptsWith_of_reads {β : Type} {o : Op β} {fd : PidFd} (h : o.reads = true) : o.attemptsWith fd := by
  cases o <;> first | rfl | cases h

theorem awaitFrozen_only (hreads : ∀ {β} (o : Op β), o.reads = true → A β o) (hend : A Unit .unreachable)
    (pid limit rounds : ℕ) : (awaitFrozen s pid limit rounds).Only A := by
  induction rounds with
  | zero => exact .bind (.perform hend) fun _ => trivial
  | succ rounds ih =>
    refine .bind (.perform (hreads _ rfl)) fun tasks => ?_
    split
    · trivial
    refine .bind ?_ fun stopped => ?_
    · split
      · trivial
      · exact allStopped_only hreads pid tasks
    split
    · trivial
    refine .bind (.perform (hreads _ rfl)) fun now => ?_
    split
    · trivial
    · exact .bind (.perform (hreads _ rfl)) fun _ => ih

/-- With its descriptor an attempt comes to nothing but its looks, its signals to that process and what its own part
comes to. -/
theorem holdFrozen_only {fd : PidFd} (hA : ∀ {β} (o : Op β), o.attemptsWith fd → A β o) (hidentity : s.identity.Only A)
    (hverify : ∀ generation, (s.verify generation).Only A) (hretire : (s.retire fd).Only A) (pid generation : ℕ) :
    (holdFrozen s pid generation fd).Only A := by
  have hreads : ∀ {β} (o : Op β), o.reads = true → A β o := fun o ho => hA o (Op.attemptsWith_of_reads ho)
  have hclose : (perform (.close fd) : Script Op Err Unit).Only A := .perform (hA _ rfl)
  have hcleanup : (sendCont fd >>= fun _ => perform (.close fd) : Script Op Err Unit).Only A := by
    refine .bind (.rescue (.perform (hA _ rfl)) fun e => ?_) fun _ => hclose
    split
    · trivial
    · trivial
  have hfrozen : (whileFrozen s pid generation fd).Only A := by
    refine .bind (.perform (hreads _ rfl)) fun start =>
      .bind (awaitFrozen_only hreads (hA _ rfl) _ _ _) fun listed => ?_
    cases listed with
    | none => trivial
    | some listed =>
      refine .bind (anyLiveChild_only hreads _ _) fun live => ?_
      split
      · trivial
      refine .bind (hverify generation) fun verified => ?_
      split
      · exact .bind hretire fun _ => trivial
      · trivial
  refine .bind hidentity.attempt fun r => ?_
  cases r with
  | error e => exact .bind hclose fun _ => trivial
  | ok again =>
    show Script.Only A (if again ≠ generation then _ else _)
    split
    · exact .bind hclose fun _ => trivial
    split
    · exact .always (.bind (.perform (hA _ rfl)) fun _ => hfrozen) hcleanup
    · refine .bind (Script.Only.attempt (.perform (hA _ rfl))) fun r => ?_
      cases r with
      | error e => exact .bind hclose fun _ => trivial
      | ok done => exact .always hfrozen hcleanup

theorem stopFrozen_only (hA : ∀ {β} (o : Op β), o.attempts = true → A β o) (hidentity : s.identity.Only A)
    (hverify : ∀ generation, (s.verify generation).Only A) (hretire : ∀ fd, (s.retire fd).Only A) (pid : ℕ) :
    (stopFrozen s pid).Only A :=
  .bind hidentity fun generation => .bind (.perform (hA _ rfl)) fun fd =>
    holdFrozen_only (fun o ho => hA o (Op.attempts_of_with ho)) hidentity hverify (hretire fd) pid generation

end Only

end Freeze
end Subgov
