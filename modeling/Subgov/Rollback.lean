import Mathlib.Logic.Function.Basic
import Subgov.Lib.Interleave
/-!
# Rollback — `rollback.sh`, and the controller it hands over to

The script puts a service into observe-only by a drop-in, and may then start the controller that was there before.  The
manager goes on beside it: it restarts services with the command it has loaded by then, and an activation unit starts
its service.  Whatever fails and wherever the script is killed, two controllers never act at once behind the stop of the
previous one (`rollback_never_overlaps`).
-/
namespace Subgov
namespace Rollback

open Interleave
open Script (perform)

/-! ## The script -/

/-- `fail`, or a command that ends the script under `set -e`. -/
inductive Err
  | failed (text : String)
  | exit

inductive Op : Type → Type
  | findSystemctl : Op Unit
  | isExecutable : Op Bool
  | isFile : Op Bool
  | cat (unit : String) : Op Unit
  | showTriggeredBy (unit : String) : Op String
  | disableNow (unit : String) : Op Unit
  | stop (unit : String) : Op Unit
  | isSymlink : Op Bool
  | installDir : Op Unit
  | mktemp : Op Unit
  | writeTemporary (text : String) : Op Unit
  | chmod : Op Unit
  | move : Op Unit
  | removeTemporary : Op Unit
  | daemonReload : Op Unit
  | restart (unit : String) : Op Unit
  | isActive (unit : String) : Op Unit
  | showExecStart (unit : String) : Op String
  | enableNow (unit : String) : Op Unit

/-- The operations that leave the units alone. -/
def Op.leaves {β : Type} : Op β → Bool
  | .disableNow _ | .stop _ | .daemonReload | .restart _ | .enableNow _ => false
  | _ => true

structure Settings where
  systemctlBin : String
  unitDir : String
  bin : String
  config : String

inductive Mode
  | observeOnly
  | previous (unit : String)

def isWordChar (c : Char) : Bool := c.isAlphanum || c == '_' || c == '.' || c == '-'

def isUnitChar (c : Char) : Bool := isWordChar c || c == '@' || c == ':'

def dotService : List Char := ".service".toList

/-- `^[-A-Za-z0-9_.@:]+\.service$` -/
def validServiceUnit (unit : String) : Bool :=
  let name := unit.toList.take (unit.toList.length - dotService.length)
  dotService.isSuffixOf unit.toList && !name.isEmpty && name.all isUnitChar

/-- `^[-A-Za-z0-9_.@:]+\.[-A-Za-z0-9_.@]+$` -/
def validTriggerUnit (unit : String) : Bool :=
  (List.range unit.toList.length).any fun i =>
    let name := unit.toList.take i
    let suffix := unit.toList.drop (i + 1)
    unit.toList[i]? == some '.' && !name.isEmpty && name.all isUnitChar && !suffix.isEmpty &&
      suffix.all fun c => isWordChar c || c == '@'

/-- An absolute path of letters, digits and a few signs. -/
def validSystemdWord (word : String) : Bool :=
  match word.toList with
  | '/' :: rest => !rest.isEmpty && rest.all fun c => isWordChar c || c == '+' || c == '/'
  | _ => false

/-- `read -r -a`: the words of the first line. -/
def words (text : String) : List String :=
  (((text.toList.takeWhile (· != '\n')).splitOnP fun c => c == ' ' || c == '\t').filter (!·.isEmpty)).map String.ofList

def isSpace (c : Char) : Bool := c == ' ' || (9 ≤ c.toNat && c.toNat ≤ 13)

/-- `(^|[[:space:]])--observe-only([[:space:]]|$)`: one of the words that white space parts. -/
def observes (command : String) : Bool := (command.toList.splitOnP isSpace).contains "--observe-only".toList

def dropinText (settings : Settings) : String :=
  "[Service]\nExecStart=\nExecStart=" ++ settings.bin ++ " --config " ++ settings.config ++ " run --observe-only\n"

section Functions

variable {α : Type} (settings : Settings)

def orFail (p : Script Op Err α) (text : String) : Script Op Err α := p.rescue fun _ => .raise (.failed text)

def require (condition : Bool) (text : String) : Script Op Err Unit :=
  if condition then return () else .raise (.failed text)

/-- The units and the paths, before anything is asked of the manager. -/
def checkNames (mode : Mode) (subgovUnit : String) : Script Op Err Unit := do
  require (validServiceUnit subgovUnit) ("invalid subgov systemd unit: " ++ subgovUnit)
  match mode with
  | .observeOnly => return ()
  | .previous previousUnit =>
    require (validServiceUnit previousUnit) ("invalid previous-controller unit: " ++ previousUnit)
    require (previousUnit != subgovUnit) "the previous controller must use a different unit"

def checkPaths : Script Op Err Unit := do
  orFail (perform .findSystemctl) ("systemctl was not found: " ++ settings.systemctlBin)
  require (validSystemdWord settings.unitDir)
    "SYSTEMD_UNIT_DIR must be an absolute path without whitespace or systemd metacharacters"
  require (validSystemdWord settings.bin)
    "SUBGOV_BIN must be an absolute path without whitespace or systemd metacharacters"
  require (validSystemdWord settings.config)
    "SUBGOV_CONFIG must be an absolute path without whitespace or systemd metacharacters"
  let executable ← perform .isExecutable
  require executable ("subgov binary is missing or not executable: " ++ settings.bin)
  let file ← perform .isFile
  require file ("configuration file is missing: " ++ settings.config)

def disableTriggers (previousUnit subgovUnit : String) : List String → Script Op Err Unit
  | [] => return ()
  | trigger :: rest => do
    require (validTriggerUnit trigger) ("unexpected activation unit for " ++ previousUnit ++ ": " ++ trigger)
    orFail (perform (.disableNow trigger))
      ("could not stop activation unit " ++ trigger ++ " before rollback; " ++ subgovUnit ++ " was not changed")
    disableTriggers previousUnit subgovUnit rest

/-- The previous controller and what activates it are stopped before subgov is changed. -/
def clearPrevious (mode : Mode) (subgovUnit : String) : Script Op Err (List String) :=
  match mode with
  | .observeOnly => return []
  | .previous previousUnit => do
    orFail (perform (.cat previousUnit)) ("previous-controller unit is not installed: " ++ previousUnit)
    let triggeredBy ← orFail (perform (.showTriggeredBy previousUnit))
      ("could not inspect activation units for " ++ previousUnit)
    disableTriggers previousUnit subgovUnit (words triggeredBy)
    orFail (perform (.stop previousUnit))
      ("could not stop " ++ previousUnit ++ " before the rollback; " ++ subgovUnit ++ " was not changed")
    return words triggeredBy

/-- The temporary file is removed on the way out of a failure. -/
def writeDropin (subgovUnit : String) : Script Op Err Unit := do
  let symlink ← perform .isSymlink
  require (!symlink) ("refusing to replace a symlink at " ++ settings.unitDir ++ "/" ++ subgovUnit ++
    ".d/zzzz-subgov-rollback.conf")
  perform .installDir
  perform .mktemp
  Script.rescue (do
    perform (.writeTemporary (dropinText settings))
    perform .chmod
    perform .move) fun e => do
      Script.rescue (perform .removeTemporary) fun _ => return ()
      .raise e

def observeOnly (subgovUnit : String) : Script Op Err Unit := do
  perform .daemonReload
  orFail (perform (.restart subgovUnit)) ("could not restart " ++ subgovUnit ++ " with observe-only enabled")
  orFail (perform (.isActive subgovUnit)) (subgovUnit ++ " is not active after the observe-only restart")
  let resolved ← orFail (perform (.showExecStart subgovUnit))
    ("could not verify the effective ExecStart for " ++ subgovUnit)
  require (observes resolved)
    (subgovUnit ++ "'s effective ExecStart does not contain --observe-only; no previous controller was started")

def enableTriggers (previousUnit subgovUnit : String) : List String → Script Op Err Unit
  | [] => return ()
  | trigger :: rest => do
    orFail (perform (.enableNow trigger)) (previousUnit ++ " is active but its activation unit " ++ trigger ++
      " could not be restored; " ++ subgovUnit ++ " remains observe-only")
    enableTriggers previousUnit subgovUnit rest

def startPrevious (mode : Mode) (subgovUnit : String) (triggers : List String) : Script Op Err String :=
  match mode with
  | .observeOnly => return "Rollback complete: " ++ subgovUnit ++ " is active with --observe-only."
  | .previous previousUnit => do
    orFail (perform (.enableNow previousUnit))
      (previousUnit ++ " could not be enabled and started; " ++ subgovUnit ++ " remains observe-only")
    orFail (perform (.isActive previousUnit)) (previousUnit ++ " is not active; " ++ subgovUnit ++ " remains observe-only")
    enableTriggers previousUnit subgovUnit triggers
    return "Rollback complete: " ++ subgovUnit ++ " is observe-only; " ++ previousUnit ++ " is active."

def rollback (mode : Mode) (subgovUnit : String) : Script Op Err String := do
  checkNames mode subgovUnit
  checkPaths settings
  orFail (perform (.cat subgovUnit)) ("subgov unit is not installed: " ++ subgovUnit)
  let triggers ← clearPrevious mode subgovUnit
  writeDropin settings subgovUnit
  observeOnly subgovUnit
  startPrevious mode subgovUnit triggers

end Functions

/-! ## The manager -/

/-- The commands loaded for the units, the ones of the processes that are up, what activates a unit, and the files of
the drop-in.  `cleared` says whether the script has stopped the previous controller. -/
structure World where
  loaded : String → String
  running : String → Option String
  triggeredBy : String → String
  dropin : Option String
  temporary : Option String
  symlink : Bool
  installed : String → Bool
  executable : Bool
  configured : Bool
  cleared : Bool

def World.up (w : World) (unit : String) : Prop := (w.running unit).isSome = true

/-- A unit comes up with the command loaded for it, and one that is up stays as it is. -/
def World.started (w : World) (unit : String) : World :=
  { w with running := Function.update w.running unit (some ((w.running unit).getD (w.loaded unit))) }

def World.stopped (w : World) (unit : String) : World := { w with running := Function.update w.running unit none }

def World.restarted (w : World) (unit : String) : World :=
  { w with running := Function.update w.running unit (some (w.loaded unit)) }

/-- `effective` gives the command of a unit out of its files, the drop-in among them. -/
def exec (effective : Option String → String → String) : {β : Type} → Op β → World → Except Err β × World
  | _, .findSystemctl, w => (.ok (), w)
  | _, .isExecutable, w => (.ok w.executable, w)
  | _, .isFile, w => (.ok w.configured, w)
  | _, .cat unit, w => (if w.installed unit then .ok () else .error .exit, w)
  | _, .showTriggeredBy unit, w => (.ok (w.triggeredBy unit), w)
  | _, .disableNow unit, w => (.ok (), w.stopped unit)
  | _, .stop unit, w => (.ok (), { w.stopped unit with cleared := true })
  | _, .isSymlink, w => (.ok w.symlink, w)
  | _, .installDir, w => (.ok (), w)
  | _, .mktemp, w => (.ok (), { w with temporary := some "" })
  | _, .writeTemporary text, w => (.ok (), { w with temporary := some text })
  | _, .chmod, w => (.ok (), w)
  | _, .move, w => (.ok (), { w with dropin := w.temporary, temporary := none })
  | _, .removeTemporary, w => (.ok (), { w with temporary := none })
  | _, .daemonReload, w => (.ok (), { w with loaded := effective w.dropin })
  | _, .restart unit, w => (.ok (), w.restarted unit)
  | _, .isActive unit, w => (if (w.running unit).isSome then .ok () else .error .exit, w)
  | _, .showExecStart unit, w => (.ok (w.loaded unit), w)
  | _, .enableNow unit, w => (.ok (), w.started unit)

/-- What the manager does by itself: a unit ends, is restarted, or is activated. -/
inductive Manages : World → World → Prop
  | ends {w : World} (unit : String) : Manages w (w.stopped unit)
  | restarts {w : World} {unit : String} (hup : w.up unit) : Manages w (w.restarted unit)
  | activates {w : World} {unit trigger : String} (htrigger : trigger ∈ words (w.triggeredBy unit)) (hup : w.up trigger) :
      Manages w (w.started unit)

def system (effective : Option String → String → String) : System World Err Op where
  exec := exec effective
  rely := Manages
  fails := fun _ _ => True
  failsLate := fun _ _ => True

/-! ## What the manager leaves alone -/

section Manager

variable (w : World) (unit other : String)

theorem running_stopped : (w.stopped unit).running other = if other = unit then none else w.running other :=
  Function.update_apply ..

theorem running_restarted :
    (w.restarted unit).running other = if other = unit then some (w.loaded unit) else w.running other :=
  Function.update_apply ..

theorem running_started : (w.started unit).running other =
    if other = unit then some ((w.running unit).getD (w.loaded unit)) else w.running other :=
  Function.update_apply ..

theorem up_stopped : (w.stopped unit).up other ↔ other ≠ unit ∧ w.up other := by
  unfold World.up
  rw [running_stopped]
  by_cases h : other = unit <;> simp [h]

theorem up_restarted : (w.restarted unit).up other ↔ other = unit ∨ w.up other := by
  unfold World.up
  rw [running_restarted]
  by_cases h : other = unit <;> simp [h]

theorem up_started : (w.started unit).up other ↔ other = unit ∨ w.up other := by
  unfold World.up
  rw [running_started]
  by_cases h : other = unit <;> simp [h]

variable {w unit} {w' : World}

/-- A unit that comes up was up, or one that activates it is. -/
theorem up_of_manages (h : Manages w w') (hup : w'.up unit) :
    w.up unit ∨ ∃ trigger ∈ words (w.triggeredBy unit), w.up trigger := by
  cases h with
  | ends other => exact .inl ((up_stopped w other unit).1 hup).2
  | @restarts other hother =>
    rcases (up_restarted w other unit).1 hup with rfl | hold
    · exact .inl hother
    · exact .inl hold
  | @activates other trigger htrigger hother =>
    rcases (up_started w other unit).1 hup with rfl | hold
    · exact .inr ⟨trigger, htrigger, hother⟩
    · exact .inl hold

theorem loaded_of_manages (h : Manages w w') : w'.loaded = w.loaded := by cases h <;> rfl

theorem triggeredBy_of_manages (h : Manages w w') : w'.triggeredBy = w.triggeredBy := by cases h <;> rfl

theorem cleared_of_manages (h : Manages w w') : w'.cleared = w.cleared := by cases h <;> rfl

/-- The command of a process is the one it had, or the one loaded now. -/
theorem running_of_manages {command : String} (h : Manages w w') (hrunning : w'.running unit = some command) :
    w.running unit = some command ∨ w.loaded unit = command := by
  cases h with
  | ends other =>
    rw [running_stopped] at hrunning
    split at hrunning
    · cases hrunning
    · exact .inl hrunning
  | @restarts other hother =>
    rw [running_restarted] at hrunning
    split at hrunning
    · rename_i hunit
      subst hunit
      exact .inr (Option.some.inj hrunning)
    · exact .inl hrunning
  | @activates other trigger htrigger hother =>
    rw [running_started] at hrunning
    split at hrunning
    · rename_i hunit
      subst hunit
      cases hold : w.running unit with
      | none =>
        rw [hold] at hrunning
        exact .inr (Option.some.inj hrunning)
      | some old =>
        rw [hold] at hrunning
        exact .inl hrunning
    · exact .inl hrunning

end Manager

/-! ## What holds in every run -/

/-- The previous controller and what activates it are down. -/
structure Cleared (previousUnit : String) (w : World) : Prop where
  previous : ¬ w.up previousUnit
  triggers : ∀ trigger ∈ words (w.triggeredBy previousUnit), ¬ w.up trigger

/-- Subgov is in observe-only, and stays so if it is restarted. -/
structure Quiet (subgovUnit : String) (w : World) : Prop where
  loaded : observes (w.loaded subgovUnit) = true
  running : ∀ command, w.running subgovUnit = some command → observes command = true

/-- Both controllers act. -/
def Overlaps (previousUnit subgovUnit : String) (w : World) : Prop :=
  w.up previousUnit ∧ ∃ command, w.running subgovUnit = some command ∧ observes command = false

/-- What activates the previous controller are units of their own, which nothing activates. -/
structure Plain (previousUnit subgovUnit : String) (triggeredBy : String → String) : Prop where
  subgov : subgovUnit ∉ words (triggeredBy previousUnit)
  triggers : ∀ trigger ∈ words (triggeredBy previousUnit), words (triggeredBy trigger) = []

section Runs

variable {effective : Option String → String → String} {mode : Mode} {previousUnit subgovUnit : String}
  {triggeredBy : String → String} {w w' : World} {α β : Type}

theorem Cleared.manages (hplain : Plain previousUnit subgovUnit w.triggeredBy) (h : Cleared previousUnit w)
    (hrely : Manages w w') : Cleared previousUnit w' := by
  constructor
  · intro hup
    rcases up_of_manages hrely hup with hold | ⟨trigger, htrigger, htriggerUp⟩
    · exact h.previous hold
    · exact h.triggers trigger htrigger htriggerUp
  · rw [triggeredBy_of_manages hrely]
    intro trigger htrigger hup
    rcases up_of_manages hrely hup with hold | ⟨other, hother, -⟩
    · exact h.triggers trigger htrigger hold
    · rw [hplain.triggers trigger htrigger] at hother
      cases hother

theorem Quiet.manages (h : Quiet subgovUnit w) (hrely : Manages w w') : Quiet subgovUnit w' := by
  constructor
  · rw [loaded_of_manages hrely]
    exact h.loaded
  · intro command hcommand
    rcases running_of_manages hrely hcommand with hold | rfl
    · exact h.running command hold
    · exact h.loaded

theorem Cleared.not_overlaps (h : Cleared previousUnit w) : ¬ Overlaps previousUnit subgovUnit w := fun ho => h.previous ho.1

theorem Quiet.not_overlaps (h : Quiet subgovUnit w) : ¬ Overlaps previousUnit subgovUnit w := by
  rintro ⟨-, command, hcommand, hacts⟩
  rw [h.running command hcommand] at hacts
  cases hacts

/-- Behind the stop of the previous controller, it is down still or subgov only observes. -/
structure Underway (previousUnit subgovUnit : String) (triggeredBy : String → String) (w : World) : Prop where
  triggeredBy : w.triggeredBy = triggeredBy
  apart : w.cleared = true → Cleared previousUnit w ∨ Quiet subgovUnit w

/-- Subgov has not been changed yet, or the previous controller is down. -/
structure Ready (mode : Mode) (previousUnit : String) (triggeredBy : String → String) (w : World) : Prop where
  triggeredBy : w.triggeredBy = triggeredBy
  cleared : w.cleared = true ∨ mode ≠ .observeOnly → Cleared previousUnit w

/-- What the script needs of the world where it comes to an operation. -/
def needs (mode : Mode) (previousUnit subgovUnit : String) : ∀ β, Op β → World → Prop
  | _, .daemonReload, w | _, .restart _, w => mode ≠ .observeOnly → Cleared previousUnit w
  | _, .enableNow _, w => Quiet subgovUnit w
  | _, _, _ => True

def guard (mode : Mode) (previousUnit subgovUnit : String) (triggeredBy : String → String) (β : Type) (o : Op β)
    (w : World) : Prop := Underway previousUnit subgovUnit triggeredBy w ∧ needs mode previousUnit subgovUnit β o w

theorem Ready.underway (h : Ready mode previousUnit triggeredBy w) :
    Underway previousUnit subgovUnit triggeredBy w := ⟨h.triggeredBy, fun hcleared => .inl (h.cleared (.inl hcleared))⟩

theorem Quiet.underway (h : Quiet subgovUnit w) (hby : w.triggeredBy = triggeredBy) :
    Underway previousUnit subgovUnit triggeredBy w := ⟨hby, fun _ => .inr h⟩

theorem stable_ready (hplain : Plain previousUnit subgovUnit triggeredBy) :
    Stable (system effective) (Ready mode previousUnit triggeredBy) := by
  intro w w' hrely h
  refine ⟨(triggeredBy_of_manages hrely).trans h.triggeredBy, fun hcleared => ?_⟩
  rw [cleared_of_manages hrely] at hcleared
  exact Cleared.manages (h.triggeredBy ▸ hplain) (h.cleared hcleared) hrely

theorem stable_underway (hplain : Plain previousUnit subgovUnit triggeredBy) :
    Stable (system effective) (Underway previousUnit subgovUnit triggeredBy) := by
  intro w w' hrely h
  refine ⟨(triggeredBy_of_manages hrely).trans h.triggeredBy, fun hcleared => ?_⟩
  rw [cleared_of_manages hrely] at hcleared
  rcases h.apart hcleared with hdown | hquiet
  · exact .inl (Cleared.manages (h.triggeredBy ▸ hplain) hdown hrely)
  · exact .inr (hquiet.manages hrely)

/-- Subgov only observes from here on. -/
def Done (subgovUnit : String) (triggeredBy : String → String) (w : World) : Prop :=
  w.triggeredBy = triggeredBy ∧ Quiet subgovUnit w

theorem stable_done : Stable (system effective) (Done subgovUnit triggeredBy) := fun _ _ hrely h =>
  ⟨(triggeredBy_of_manages hrely).trans h.1, h.2.manages hrely⟩

theorem Done.underway (h : Done subgovUnit triggeredBy w) : Underway previousUnit subgovUnit triggeredBy w :=
  h.2.underway h.1

theorem Ready.leaves {o : Op β} (ho : o.leaves = true) (h : Ready mode previousUnit triggeredBy w) :
    Ready mode previousUnit triggeredBy (exec effective o w).2 := by
  cases o with
  | disableNow _ | stop _ | daemonReload | restart _ | enableNow _ => cases ho
  | _ => exact ⟨h.triggeredBy, fun hneeded => ⟨(h.cleared hneeded).previous, (h.cleared hneeded).triggers⟩⟩

/-- These activation units have been disabled. -/
structure Disabled (previousUnit : String) (triggeredBy : String → String) (done : List String) (w : World) : Prop where
  triggeredBy : w.triggeredBy = triggeredBy
  cleared : w.cleared = true → Cleared previousUnit w
  down : ∀ trigger ∈ done, ¬ w.up trigger

theorem Disabled.underway {done : List String} (h : Disabled previousUnit triggeredBy done w) :
    Underway previousUnit subgovUnit triggeredBy w := ⟨h.triggeredBy, fun hcleared => .inl (h.cleared hcleared)⟩

theorem stable_disabled {done : List String} (hplain : Plain previousUnit subgovUnit triggeredBy)
    (hdone : done ⊆ words (triggeredBy previousUnit)) :
    Stable (system effective) (Disabled previousUnit triggeredBy done) := by
  intro w w' hrely h
  refine ⟨(triggeredBy_of_manages hrely).trans h.triggeredBy, fun hcleared => ?_, fun trigger htrigger hup => ?_⟩
  · rw [cleared_of_manages hrely] at hcleared
    exact Cleared.manages (h.triggeredBy ▸ hplain) (h.cleared hcleared) hrely
  · rcases up_of_manages hrely hup with hold | ⟨other, hother, -⟩
    · exact h.down trigger htrigger hold
    · rw [h.triggeredBy, hplain.triggers trigger (hdone htrigger)] at hother
      cases hother

theorem Cleared.stopped {unit : String} (h : Cleared previousUnit w) : Cleared previousUnit (w.stopped unit) :=
  ⟨fun hup => h.previous ((up_stopped w unit _).1 hup).2,
    fun trigger htrigger hup => h.triggers trigger htrigger ((up_stopped w unit _).1 hup).2⟩

theorem Cleared.restarted (h : Cleared previousUnit w) (hne : previousUnit ≠ subgovUnit)
    (hplain : Plain previousUnit subgovUnit w.triggeredBy) : Cleared previousUnit (w.restarted subgovUnit) := by
  constructor
  · intro hup
    rcases (up_restarted w subgovUnit _).1 hup with hsame | hold
    · exact hne hsame
    · exact h.previous hold
  · intro trigger htrigger hup
    rcases (up_restarted w subgovUnit _).1 hup with rfl | hold
    · exact hplain.subgov htrigger
    · exact h.triggers trigger htrigger hold

theorem Quiet.started {unit : String} (h : Quiet subgovUnit w) : Quiet subgovUnit (w.started unit) := by
  refine ⟨h.loaded, fun command hcommand => ?_⟩
  rw [running_started] at hcommand
  split at hcommand
  · rename_i hunit
    subst hunit
    cases hold : w.running subgovUnit with
    | none =>
      rw [hold] at hcommand
      exact Option.some.inj hcommand ▸ h.loaded
    | some old =>
      rw [hold] at hcommand
      exact h.running command (hold.trans hcommand)
  · exact h.running command hcommand

/-! ### The rules of its operations -/

section Rules

variable {P : World → Prop} {Q : β → World → Prop} {o : Op β}

theorem triple_op (hplain : Plain previousUnit subgovUnit triggeredBy) (hP : Stable (system effective) P)
    (hQ : ∀ a, Stable (system effective) (Q a)) (hguard : ∀ w, P w → needs mode previousUnit subgovUnit β o w)
    (hunder : ∀ w, P w → Underway previousUnit subgovUnit triggeredBy w)
    (hkeep : ∀ w, P w → Underway previousUnit subgovUnit triggeredBy (exec effective o w).2)
    (hok : ∀ w a w', P w → exec effective o w = (.ok a, w') → Q a w') :
    Triple (system effective) (guard mode previousUnit subgovUnit triggeredBy) P (perform o) Q
      (fun _ => Underway previousUnit subgovUnit triggeredBy) := by
  refine .perform hP (fun w h => ⟨hunder w h, hguard w h⟩) (fun w a w' h hstep => hok w a w' h hstep.ok)
    (fun w e w' h hstep => ?_) hQ fun _ => stable_underway hplain
  rcases hstep.error with ⟨rfl, -⟩ | ⟨rfl, -⟩
  · exact hkeep w h
  · exact hunder _ h

/-- An operation that only looks. -/
theorem triple_still (hplain : Plain previousUnit subgovUnit triggeredBy) (hP : Stable (system effective) P)
    (hguard : ∀ w, needs mode previousUnit subgovUnit β o w)
    (hunder : ∀ w, P w → Underway previousUnit subgovUnit triggeredBy w)
    (hstill : ∀ w, (exec effective o w).2 = w) (hQ : ∀ a, Stable (system effective) (Q a))
    (hok : ∀ w a, P w → (exec effective o w).1 = .ok a → Q a w) :
    Triple (system effective) (guard mode previousUnit subgovUnit triggeredBy) P (perform o) Q
      (fun _ => Underway previousUnit subgovUnit triggeredBy) := by
  refine triple_op hplain hP hQ (fun w _ => hguard w) hunder (fun w h => (hstill w).symm ▸ hunder w h)
    fun w a w' h hexec => ?_
  obtain rfl : w' = w := (congrArg Prod.snd hexec).symm.trans (hstill w)
  exact hok w' a h (congrArg Prod.fst hexec)

theorem triple_orFail {p : Script Op Err β} (hplain : Plain previousUnit subgovUnit triggeredBy) (text : String)
    (h : Triple (system effective) (guard mode previousUnit subgovUnit triggeredBy) P p Q
      (fun _ => Underway previousUnit subgovUnit triggeredBy)) (hQ : ∀ a, Stable (system effective) (Q a)) :
    Triple (system effective) (guard mode previousUnit subgovUnit triggeredBy) P (orFail p text) Q
      (fun _ => Underway previousUnit subgovUnit triggeredBy) :=
  h.rescue hQ fun _ => .raise (stable_underway hplain) fun _ h => h

theorem triple_require {condition : Bool} {text : String} (hP : Stable (system effective) P)
    (hunder : ∀ w, P w → Underway previousUnit subgovUnit triggeredBy w) :
    Triple (system effective) (guard mode previousUnit subgovUnit triggeredBy) P (require condition text)
      (fun _ w => condition = true ∧ P w) (fun _ => Underway previousUnit subgovUnit triggeredBy) := by
  unfold require
  split
  · rename_i hcondition
    exact .pure hP fun w h => ⟨hcondition, h⟩
  · exact .raise hP hunder

end Rules

/-! ### The parts of the script -/

section Parts

variable (hplain : Plain previousUnit subgovUnit triggeredBy)

include hplain

theorem triple_checkNames : Triple (system effective) (guard mode previousUnit subgovUnit triggeredBy)
    (Ready .observeOnly previousUnit triggeredBy) (checkNames mode subgovUnit)
    (fun _ w => (mode = .previous previousUnit → previousUnit ≠ subgovUnit) ∧
      Ready .observeOnly previousUnit triggeredBy w)
    (fun _ => Underway previousUnit subgovUnit triggeredBy) := by
  have hready : Stable (system effective) (Ready .observeOnly previousUnit triggeredBy) := stable_ready hplain
  have hunder : ∀ w, Ready .observeOnly previousUnit triggeredBy w → Underway previousUnit subgovUnit triggeredBy w :=
    fun _ h => h.underway
  unfold checkNames
  refine (triple_require hready hunder).bind fun _ => ?_
  cases mode with
  | observeOnly => exact .pure ((Stable.const _).and hready) fun w h => ⟨fun hmode => (nomatch hmode), h.2⟩
  | previous unit =>
    refine ((triple_require hready hunder).pre fun w h => h.2).bind fun _ => ?_
    refine ((triple_require hready hunder).pre fun w h => h.2).weaken (fun w h => h) (fun _ w h => ⟨fun hmode => ?_, h.2⟩)
      fun _ _ h => h
    obtain rfl := Mode.previous.inj hmode
    exact bne_iff_ne.1 h.1

/-- What leaves the units alone, the script may do at any time. -/
theorem triple_leaves {mode' : Mode} {p : Script Op Err α} (hp : p.Only fun _ o => o.leaves = true) :
    Triple (system effective) (guard mode previousUnit subgovUnit triggeredBy) (Ready mode' previousUnit triggeredBy) p
      (fun _ => Ready mode' previousUnit triggeredBy) (fun _ => Underway previousUnit subgovUnit triggeredBy) := by
  suffices hall : Triple (system effective) (guard mode previousUnit subgovUnit triggeredBy)
      (Ready mode' previousUnit triggeredBy) p
      (fun _ => Ready mode' previousUnit triggeredBy) (fun _ => Ready mode' previousUnit triggeredBy) from
    hall.weaken (fun _ h => h) (fun _ _ h => h) fun _ _ h => h.underway
  refine .of_only hp (stable_ready hplain) (fun β o w ho h => ⟨h.underway, ?_⟩) fun β o w r w' ho h hown => ?_
  · cases o with
    | daemonReload | restart _ | enableNow _ => cases ho
    | _ => trivial
  · have hkeep : Ready mode' previousUnit triggeredBy (exec effective o w).2 := h.leaves ho
    cases hown with
    | done => exact hkeep
    | fails => exact h
    | failsLate => exact hkeep

/-- The activation units are disabled one by one. -/
theorem triple_disableTriggers (done rest : List String) (hdone : done ++ rest ⊆ words (triggeredBy previousUnit)) :
    Triple (system effective) (guard mode previousUnit subgovUnit triggeredBy) (Disabled previousUnit triggeredBy done)
      (disableTriggers previousUnit subgovUnit rest) (fun _ => Disabled previousUnit triggeredBy (done ++ rest))
      (fun _ => Underway previousUnit subgovUnit triggeredBy) := by
  induction rest generalizing done with
  | nil =>
    rw [List.append_nil] at hdone ⊢
    exact .pure (stable_disabled hplain hdone) fun _ h => h
  | cons trigger rest ih =>
    have hfirst : done ⊆ words (triggeredBy previousUnit) := fun x hx => hdone (List.mem_append_left _ hx)
    have hnext : done ++ [trigger] ⊆ words (triggeredBy previousUnit) := by
      intro x hx
      rcases List.mem_append.1 hx with hold | hnew
      · exact hfirst hold
      · rw [List.mem_singleton.1 hnew]
        exact hdone (List.mem_append_right _ List.mem_cons_self)
    have hstable : Stable (system effective) (Disabled previousUnit triggeredBy done) := stable_disabled hplain hfirst
    have hstable' : Stable (system effective) (Disabled previousUnit triggeredBy (done ++ [trigger])) :=
      stable_disabled hplain hnext
    have hrest := ih (done ++ [trigger]) (by rwa [List.append_assoc, List.singleton_append])
    rw [List.append_assoc, List.singleton_append] at hrest
    have hstop : ∀ w, Disabled previousUnit triggeredBy done w →
        Disabled previousUnit triggeredBy (done ++ [trigger]) (w.stopped trigger) := by
      intro w h
      refine ⟨h.triggeredBy, fun hcleared => (h.cleared hcleared).stopped, fun other hother hup => ?_⟩
      obtain ⟨hne, hold⟩ := (up_stopped w trigger other).1 hup
      rcases List.mem_append.1 hother with hdone | hnew
      · exact h.down other hdone hold
      · exact hne (List.mem_singleton.1 hnew)
    unfold disableTriggers
    refine ((triple_require hstable fun _ h => h.underway).weaken (fun _ h => h) (fun _ _ h => h.2) fun _ _ h => h).bind
      fun _ => ?_
    refine (triple_orFail hplain _ (triple_op (o := .disableNow trigger) hplain hstable (fun _ => hstable')
      (fun _ _ => trivial) (fun _ h => h.underway) (fun w h => (hstop w h).underway) fun w a w' h hexec => ?_)
      fun _ => hstable').bind fun _ => hrest
    obtain ⟨-, rfl⟩ := Prod.mk.inj hexec
    exact hstop w h

/-- **The previous controller and what activates it are down before subgov is changed.** -/
theorem triple_clearPrevious (hmode : mode = .previous previousUnit ∨ mode = .observeOnly) :
    Triple (system effective) (guard mode previousUnit subgovUnit triggeredBy) (Ready .observeOnly previousUnit triggeredBy)
      (clearPrevious mode subgovUnit) (fun _ => Ready mode previousUnit triggeredBy)
      (fun _ => Underway previousUnit subgovUnit triggeredBy) := by
  have hready : Stable (system effective) (Ready .observeOnly previousUnit triggeredBy) := stable_ready hplain
  have hunder : ∀ w, Ready .observeOnly previousUnit triggeredBy w → Underway previousUnit subgovUnit triggeredBy w :=
    fun _ h => h.underway
  unfold clearPrevious
  rcases hmode with rfl | rfl
  · refine (triple_orFail hplain _ (triple_still (o := .cat previousUnit) hplain hready (fun _ => trivial) hunder
      (fun _ => rfl) (fun _ => hready) fun w _ h _ => h) fun _ => hready).bind fun _ => ?_
    have htext : ∀ text : String, Stable (system effective) (fun w => text = triggeredBy previousUnit ∧
        Ready .observeOnly previousUnit triggeredBy w) := fun text => (Stable.const _).and hready
    refine (triple_orFail hplain _ (triple_still (o := .showTriggeredBy previousUnit) hplain hready (fun _ => trivial)
      hunder (fun _ => rfl) htext fun w text h hexec => ⟨?_, h⟩) htext).bind fun text => .assuming ?_
    · rw [← h.triggeredBy]
      exact (Except.ok.inj hexec).symm
    rintro rfl
    have hdown : Stable (system effective) (Disabled previousUnit triggeredBy (words (triggeredBy previousUnit))) :=
      stable_disabled hplain (List.Subset.refl _)
    have hdisable : Triple (system effective) (guard (.previous previousUnit) previousUnit subgovUnit triggeredBy)
        (Disabled previousUnit triggeredBy [])
        (disableTriggers previousUnit subgovUnit (words (triggeredBy previousUnit)))
        (fun _ => Disabled previousUnit triggeredBy (words (triggeredBy previousUnit)))
        (fun _ => Underway previousUnit subgovUnit triggeredBy) :=
      triple_disableTriggers hplain [] (words (triggeredBy previousUnit)) (List.Subset.refl _)
    refine (hdisable.pre fun w h => ⟨h.triggeredBy, fun hcleared => h.cleared (.inl hcleared), fun _ hx => nomatch hx⟩).bind
      fun _ => ?_
    have hready' : Stable (system effective) (Ready (.previous previousUnit) previousUnit triggeredBy) := stable_ready hplain
    have hstop : ∀ w, Disabled previousUnit triggeredBy (words (triggeredBy previousUnit)) w →
        Ready (.previous previousUnit) previousUnit triggeredBy { w.stopped previousUnit with cleared := true } := by
      intro w h
      refine ⟨h.triggeredBy, fun _ => ⟨fun hup => ((up_stopped w previousUnit previousUnit).1 hup).1 rfl, ?_⟩⟩
      intro trigger htrigger hup
      have hby : trigger ∈ words (w.triggeredBy previousUnit) := htrigger
      rw [h.triggeredBy] at hby
      exact h.down trigger hby ((up_stopped w previousUnit trigger).1 hup).2
    refine (triple_orFail hplain _ (triple_op (o := .stop previousUnit) hplain hdown (fun _ => hready')
      (fun _ _ => trivial) (fun _ h => h.underway) (fun w h => (hstop w h).underway) fun w a w' h hexec => ?_)
      fun _ => hready').bind fun _ => .pure hready' fun _ h => h
    obtain ⟨-, rfl⟩ := Prod.mk.inj hexec
    exact hstop w h
  · exact .pure hready fun _ h => h

omit hplain in
theorem require_only {condition : Bool} {text : String} : (require condition text).Only fun _ o => o.leaves = true := by
  unfold require
  split <;> trivial

omit hplain in
theorem orFail_only {p : Script Op Err α} {text : String} (hp : p.Only fun _ o => o.leaves = true) :
    (orFail p text).Only fun _ o => o.leaves = true := hp.rescue fun _ => trivial

omit hplain in
theorem checkPaths_only (settings : Settings) : (checkPaths settings).Only fun _ o => o.leaves = true := by
  unfold checkPaths
  refine (orFail_only (.perform rfl)).bind fun _ => require_only.bind fun _ => require_only.bind fun _ => ?_
  refine require_only.bind fun _ => (Script.Only.perform rfl).bind fun _ => require_only.bind fun _ => ?_
  exact (Script.Only.perform rfl).bind fun _ => require_only

omit hplain in
theorem writeDropin_only (settings : Settings) : (writeDropin settings subgovUnit).Only fun _ o => o.leaves = true := by
  unfold writeDropin
  refine (Script.Only.perform rfl).bind fun _ => require_only.bind fun _ => (Script.Only.perform rfl).bind fun _ => ?_
  refine (Script.Only.perform rfl).bind fun _ => .rescue ?_ fun _ => ?_
  · exact (Script.Only.perform rfl).bind fun _ => (Script.Only.perform rfl).bind fun _ => .perform rfl
  · exact ((Script.Only.perform rfl).rescue fun _ => .pure ()).bind fun _ => trivial

/-- The commands of the processes are the ones loaded. -/
structure Restarted (mode : Mode) (previousUnit subgovUnit : String) (triggeredBy : String → String) (w : World) :
    Prop where
  ready : Ready mode previousUnit triggeredBy w
  running : ∀ command, w.running subgovUnit = some command → command = w.loaded subgovUnit

theorem stable_restarted : Stable (system effective) (Restarted mode previousUnit subgovUnit triggeredBy) := by
  intro w w' hrely h
  refine ⟨stable_ready hplain w w' hrely h.ready, fun command hcommand => ?_⟩
  rw [loaded_of_manages hrely]
  rcases running_of_manages hrely hcommand with hold | rfl
  · exact h.running command hold
  · rfl

/-- **Subgov only observes where the command that is shown says so**: the one that was started, and the one any restart
would start. -/
theorem triple_observeOnly (hne : previousUnit ≠ subgovUnit) : Triple (system effective)
    (guard mode previousUnit subgovUnit triggeredBy) (Ready mode previousUnit triggeredBy) (observeOnly subgovUnit)
    (fun _ => Done subgovUnit triggeredBy) (fun _ => Underway previousUnit subgovUnit triggeredBy) := by
  have hready : Stable (system effective) (Ready mode previousUnit triggeredBy) := stable_ready hplain
  have hunder : ∀ w, Ready mode previousUnit triggeredBy w → Underway previousUnit subgovUnit triggeredBy w :=
    fun _ h => h.underway
  have hrestarted : Stable (system effective) (Restarted mode previousUnit subgovUnit triggeredBy) :=
    stable_restarted hplain
  have hunder' : ∀ w, Restarted mode previousUnit subgovUnit triggeredBy w →
      Underway previousUnit subgovUnit triggeredBy w := fun _ h => h.ready.underway
  unfold observeOnly
  have hreload : ∀ w, Ready mode previousUnit triggeredBy w →
      Ready mode previousUnit triggeredBy { w with loaded := effective w.dropin } :=
    fun w h => ⟨h.triggeredBy, fun hneeded => ⟨(h.cleared hneeded).previous, (h.cleared hneeded).triggers⟩⟩
  refine (triple_op (o := .daemonReload) hplain hready (fun _ => hready) (fun w h hmode => h.cleared (.inr hmode)) hunder
    (fun w h => (hreload w h).underway) fun w a w' h hexec => ?_).bind fun _ => ?_
  · obtain ⟨-, rfl⟩ := Prod.mk.inj hexec
    exact hreload w h
  have hrestart : ∀ w, Ready mode previousUnit triggeredBy w →
      Restarted mode previousUnit subgovUnit triggeredBy (w.restarted subgovUnit) := by
    intro w h
    refine ⟨⟨h.triggeredBy, fun hneeded => (h.cleared hneeded).restarted hne (h.triggeredBy ▸ hplain)⟩, ?_⟩
    intro command hcommand
    rw [running_restarted, if_pos rfl] at hcommand
    exact (Option.some.inj hcommand).symm
  refine (triple_orFail hplain _ (triple_op (o := .restart subgovUnit) hplain hready (fun _ => hrestarted)
    (fun w h hmode => h.cleared (.inr hmode)) hunder (fun w h => hunder' _ (hrestart w h)) fun w a w' h hexec => ?_)
    fun _ => hrestarted).bind fun _ => ?_
  · obtain ⟨-, rfl⟩ := Prod.mk.inj hexec
    exact hrestart w h
  refine (triple_orFail hplain _ (triple_still (o := .isActive subgovUnit) hplain hrestarted (fun _ => trivial) hunder'
    (fun _ => rfl) (fun _ => hrestarted) fun w _ h _ => h) fun _ => hrestarted).bind fun _ => ?_
  have hshown : ∀ text : String, Stable (system effective) (fun w => text = w.loaded subgovUnit ∧
      Restarted mode previousUnit subgovUnit triggeredBy w) := by
    intro text w w' hrely h
    exact ⟨h.1.trans (congrFun (loaded_of_manages hrely) subgovUnit).symm, hrestarted w w' hrely h.2⟩
  refine (triple_orFail hplain _ (triple_still (o := .showExecStart subgovUnit) hplain hrestarted (fun _ => trivial)
    hunder' (fun _ => rfl) hshown fun w text h hexec => ⟨(Except.ok.inj hexec).symm, h⟩) hshown).bind fun text => ?_
  refine (triple_require (hshown text) fun w h => hunder' w h.2).weaken (fun _ h => h) (fun _ w h => ?_) fun _ _ h => h
  obtain ⟨hobserves, hloaded, hall⟩ := h
  refine ⟨hall.ready.triggeredBy, hloaded ▸ hobserves, fun command hcommand => ?_⟩
  rw [hall.running command hcommand, ← hloaded]
  exact hobserves

/-- Any unit may be started while subgov only observes. -/
theorem triple_enable (unit text : String) : Triple (system effective) (guard mode previousUnit subgovUnit triggeredBy)
    (Done subgovUnit triggeredBy) (orFail (perform (.enableNow unit)) text) (fun _ => Done subgovUnit triggeredBy)
    (fun _ => Underway previousUnit subgovUnit triggeredBy) := by
  have hstart : ∀ w, Done subgovUnit triggeredBy w → Done subgovUnit triggeredBy (w.started unit) :=
    fun w h => ⟨h.1, h.2.started⟩
  refine triple_orFail hplain _ (triple_op (o := .enableNow unit) hplain stable_done (fun _ => stable_done)
    (fun w h => h.2) (fun w h => h.underway) (fun w h => (hstart w h).underway) fun w a w' h hexec => ?_)
    fun _ => stable_done
  obtain ⟨-, rfl⟩ := Prod.mk.inj hexec
  exact hstart w h

theorem triple_enableTriggers (triggers : List String) :
    Triple (system effective) (guard mode previousUnit subgovUnit triggeredBy)
      (Done subgovUnit triggeredBy) (enableTriggers previousUnit subgovUnit triggers)
      (fun _ => Done subgovUnit triggeredBy) (fun _ => Underway previousUnit subgovUnit triggeredBy) := by
  induction triggers with
  | nil => exact .pure stable_done fun _ h => h
  | cons trigger rest ih => exact (triple_enable hplain trigger _).bind fun _ => ih

theorem triple_startPrevious (hmode : mode = .previous previousUnit ∨ mode = .observeOnly) (triggers : List String) :
    Triple (system effective) (guard mode previousUnit subgovUnit triggeredBy) (Done subgovUnit triggeredBy)
      (startPrevious mode subgovUnit triggers) (fun _ => Done subgovUnit triggeredBy)
      (fun _ => Underway previousUnit subgovUnit triggeredBy) := by
  unfold startPrevious
  rcases hmode with rfl | rfl
  · refine (triple_enable hplain previousUnit _).bind fun _ => ?_
    refine (triple_orFail hplain _ (triple_still (o := .isActive previousUnit) hplain stable_done (fun _ => trivial)
      (fun w h => h.underway) (fun _ => rfl) (fun _ => stable_done) fun w _ h _ => h) fun _ => stable_done).bind
      fun _ => ?_
    exact (triple_enableTriggers hplain triggers).bind fun _ => .pure stable_done fun _ h => h
  · exact .pure stable_done fun _ h => h

theorem triple_rollback (settings : Settings)
    (hmode : mode = .previous previousUnit ∨ mode = .observeOnly ∧ previousUnit ≠ subgovUnit) :
    Triple (system effective) (guard mode previousUnit subgovUnit triggeredBy) (Ready .observeOnly previousUnit triggeredBy)
      (rollback settings mode subgovUnit) (fun _ => Done subgovUnit triggeredBy)
      (fun _ => Underway previousUnit subgovUnit triggeredBy) := by
  have hmode' : mode = .previous previousUnit ∨ mode = .observeOnly := hmode.imp_right And.left
  unfold rollback
  refine (triple_checkNames hplain).bind fun _ => .assuming fun hunits => ?_
  have hne : previousUnit ≠ subgovUnit := hmode.elim hunits And.right
  refine (triple_leaves hplain (checkPaths_only settings)).bind fun _ => ?_
  refine (triple_leaves hplain (orFail_only (.perform rfl))).bind fun _ => ?_
  refine (triple_clearPrevious hplain hmode').bind fun triggers => ?_
  refine (triple_leaves hplain (writeDropin_only settings)).bind fun _ => ?_
  exact (triple_observeOnly hplain hne).bind fun _ => triple_startPrevious hplain hmode' triggers

end Parts

/-- What the script meets where it has got to. -/
def Needs (mode : Mode) (previousUnit subgovUnit : String) (w : World) : Script Op Err String → Prop
  | .ret _ => Quiet subgovUnit w
  | .raise _ => True
  | @Script.op _ _ _ β o _ => needs mode previousUnit subgovUnit β o w

/-- **Behind the stop of the previous controller the two never act at once**, wherever the script has got to and
whatever has failed; and it starts nothing before subgov only observes. -/
theorem rollback_never_overlaps (effective : Option String → String → String) (settings : Settings) (mode : Mode)
    (previousUnit subgovUnit : String)
    (hmode : mode = .previous previousUnit ∨ mode = .observeOnly ∧ previousUnit ≠ subgovUnit) (w : World)
    (hplain : Plain previousUnit subgovUnit w.triggeredBy) (hw : w.cleared = true → Cleared previousUnit w)
    (c : World × Script Op Err String) (hreaches : Reaches (system effective) (w, rollback settings mode subgovUnit) c) :
    (c.1.cleared = true → ¬ Overlaps previousUnit subgovUnit c.1) ∧ Needs mode previousUnit subgovUnit c.1 c.2 := by
  have hstart : Ready .observeOnly previousUnit w.triggeredBy w := ⟨rfl, fun h => h.elim hw fun h => absurd rfl h⟩
  have hguarded := guarded_of_reaches (triple_rollback hplain settings hmode w hstart) hreaches
  have hunder : Underway previousUnit subgovUnit w.triggeredBy c.1 ∧ Needs mode previousUnit subgovUnit c.1 c.2 := by
    obtain ⟨w', p⟩ := c
    cases p with
    | ret text => exact ⟨hguarded.ret.underway, hguarded.ret.2⟩
    | raise e => exact ⟨hguarded.raise, trivial⟩
    | op o next => exact hguarded.op
  exact ⟨fun hcleared => (hunder.1.apart hcleared).elim Cleared.not_overlaps Quiet.not_overlaps, hunder.2⟩

/-! ### A controller that a timer activates -/

def sampleSettings : Settings := ⟨"systemctl", "/etc/systemd/system", "/usr/local/bin/subgov", "/etc/subgov/governor.yaml"⟩

def sampleEffective (dropin : Option String) (unit : String) : String :=
  if unit = "subgov.service" then if dropin.isSome then "subgov run --observe-only" else "subgov run" else "cgov"

/-- Subgov acts, and the timer of the previous controller is armed still. -/
def sampleWorld : World where
  loaded := sampleEffective none
  running := fun unit =>
    if unit = "subgov.service" then some "subgov run" else if unit = "cgov.timer" then some "cgov" else none
  triggeredBy := fun unit => if unit = "cgov.service" then "cgov.timer" else ""
  dropin := none
  temporary := none
  symlink := false
  installed := fun _ => true
  executable := true
  configured := true
  cleared := false

def sampleRollback : Script Op Err String := rollback sampleSettings (.previous "cgov.service") "subgov.service"

/-- Subgov has been restarted, and nothing is started yet. -/
def sampleGap : World × Script Op Err String := advance (exec sampleEffective) 18 (sampleWorld, sampleRollback)

def sampleEnd : World × Script Op Err String := advance (exec sampleEffective) 3 sampleGap

theorem plain_sample : Plain "cgov.service" "subgov.service" sampleWorld.triggeredBy := by
  constructor <;> decide +kernel

theorem rollback_never_overlaps_sample : sampleGap.1.running "cgov.service" = none ∧
    sampleEnd.1.running "subgov.service" = some "subgov run --observe-only" ∧
    sampleEnd.1.running "cgov.service" = some "cgov" ∧ sampleEnd.1.running "cgov.timer" = some "cgov" ∧
    (sampleEnd.1.cleared = true → ¬ Overlaps "cgov.service" "subgov.service" sampleEnd.1) ∧
      Needs (.previous "cgov.service") "cgov.service" "subgov.service" sampleEnd.1 sampleEnd.2 := by
  have hreaches : Reaches (system sampleEffective) (sampleWorld, sampleRollback) sampleEnd :=
    (reaches_advance (system sampleEffective) 18 _).trans (reaches_advance (system sampleEffective) 3 _)
  exact ⟨by decide +kernel, by decide +kernel, by decide +kernel, by decide +kernel,
    rollback_never_overlaps sampleEffective sampleSettings (.previous "cgov.service") "cgov.service" "subgov.service"
      (.inl rfl) sampleWorld plain_sample (fun h => nomatch h) sampleEnd hreaches⟩

end Runs

end Rollback
end Subgov
