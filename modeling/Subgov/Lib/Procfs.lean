import Mathlib.Data.List.Basic
import Mathlib.Logic.Function.Basic
import Mathlib.Order.Basic
/-!
# Procfs — processes, their threads and their children, as `/proc` and pidfds show them

A process id names one process after another, told apart by their start times.  A stop signal does not stop a process
at once: each thread comes to its stop by itself, and a fork or clone that a thread is in still ends, but none begins.
The children of a process hang on its threads, and pass to another thread when theirs ends.

`Move` is what happens to the processes meanwhile, with `others` the processes that somebody else may stop or continue.
`Move.watched` says once what a move does to any other process, and the assertions on it are kept because of that.
-/
namespace Procfs

inductive ThreadState
  | absent
  | running
  /-- In a call that makes a process or a thread. -/
  | forking
  | stopped
  | gone
  deriving DecidableEq

namespace ThreadState

def present : ThreadState → Bool
  | running | forking | stopped => true
  | absent | gone => false

def resumed : ThreadState → ThreadState
  | stopped => running
  | s => s

end ThreadState

structure Proc where
  start : ℕ
  cmdline : List String
  zombie : Bool
  /-- A stop signal has come, and no continue signal since. -/
  stopping : Bool
  threads : ℕ → ThreadState
  /-- The process and the thread that it is a child of, unless it was left to the init process. -/
  parent : Option (ℕ × ℕ)

structure Machine where
  /-- Process and thread ids are below it. -/
  pidMax : ℕ
  procs : ℕ → Option Proc
  /-- When the latest process of an id started. -/
  last : ℕ → ℕ

namespace Machine

def set (m : Machine) (pid : ℕ) (p : Option Proc) : Machine := { m with procs := Function.update m.procs pid p }

/-- The children of the processes and threads that `f` changes have the other parent. -/
def reparent (m : Machine) (f : Option (ℕ × ℕ) → Option (ℕ × ℕ)) : Machine :=
  { m with procs := fun pid => (m.procs pid).map fun p => { p with parent := f p.parent } }

def spawn (m : Machine) (pid : ℕ) (p : Proc) : Machine :=
  { m.set pid (some p) with last := Function.update m.last pid p.start }

end Machine

def Proc.setThread (p : Proc) (t : ℕ) (s : ThreadState) : Proc := { p with threads := Function.update p.threads t s }

/-! ## What a program sees and does -/

inductive Errno
  | noEntry
  | noProcess

/-- A process that a file descriptor names, whatever becomes of its id. -/
structure PidFd where
  pid : ℕ
  start : ℕ
  deriving DecidableEq

inductive Signal
  | stop
  | cont
  | term
  deriving DecidableEq

namespace Machine

def find (m : Machine) (pid : ℕ) : Except Errno Proc :=
  match m.procs pid with
  | none => .error .noEntry
  | some p => .ok p

/-- `/proc/<pid>/cmdline` at its zero bytes: every argument ends in one, and an ended process has none. -/
def cmdline (m : Machine) (pid : ℕ) : Except Errno (List String) :=
  (m.find pid).map fun p => (if p.zombie then [] else p.cmdline) ++ [""]

/-- The start time of `/proc/<pid>/stat`. -/
def startTime (m : Machine) (pid : ℕ) : Except Errno ℕ := (m.find pid).map Proc.start

/-- Whether the state of `/proc/<pid>/stat` is that of an ended process. -/
def ended (m : Machine) (pid : ℕ) : Except Errno Bool := (m.find pid).map Proc.zombie

/-- `/proc/<pid>/task` -/
def tasks (m : Machine) (pid : ℕ) : Except Errno (List ℕ) :=
  (m.find pid).map fun p => if p.zombie then [pid] else (List.range m.pidMax).filter fun t => (p.threads t).present

/-- Whether `/proc/<pid>/task/<tid>/status` tells of a stop. -/
def threadStopped (m : Machine) (pid tid : ℕ) : Except Errno Bool :=
  match m.procs pid with
  | none => .error .noEntry
  | some p =>
    if p.zombie then if tid = pid then .ok false else .error .noEntry
    else if (p.threads tid).present then .ok (p.threads tid = .stopped) else .error .noEntry

/-- `/proc/<pid>/task/<tid>/children` -/
def children (m : Machine) (pid tid : ℕ) : Except Errno (List ℕ) :=
  match m.procs pid with
  | none => .error .noEntry
  | some p =>
    if p.zombie then if tid = pid then .ok [] else .error .noEntry
    else if (p.threads tid).present then
      .ok ((List.range m.pidMax).filter fun c => (m.procs c).any fun q => q.parent = some (pid, tid))
    else .error .noEntry

def pidfdOpen (m : Machine) (pid : ℕ) : Except Errno PidFd :=
  match m.procs pid with
  | none => .error .noProcess
  | some p => .ok ⟨pid, p.start⟩

/-- What a signal does at once.  The rest of what a termination does is the process's own. -/
def signalled (p : Proc) : Signal → Proc
  | .stop => if p.zombie then p else { p with stopping := true }
  | .cont => { p with stopping := false, threads := fun t => (p.threads t).resumed }
  | .term => p

/-- `pidfd_send_signal` -/
def send (m : Machine) (fd : PidFd) (signal : Signal) : Except Errno Unit × Machine :=
  match m.procs fd.pid with
  | none => (.error .noProcess, m)
  | some p => if p.start = fd.start then (.ok (), m.set fd.pid (some (signalled p signal))) else (.error .noProcess, m)

end Machine

/-! ## What happens meanwhile -/

/-- What a thread does by itself. -/
inductive ThreadMove (stopping : Bool) : ThreadState → ThreadState → Prop
  | enter (h : stopping = false) : ThreadMove stopping .running .forking
  | leave : ThreadMove stopping .forking .running
  | stop (h : stopping = true) : ThreadMove stopping .running .stopped

inductive Move (others : ℕ → Prop) (m : Machine) : Machine → Prop
  /-- A process of another parent. -/
  | born {pid : ℕ} {p : Proc} (hfree : m.procs pid = none) (hpid : pid < m.pidMax) (hlate : m.last pid < p.start)
      (hparent : p.parent = none) (hstopping : p.stopping = false)
      (hthreads : ∀ t, (p.threads t).present = true → t < m.pidMax) :
      Move others m (m.spawn pid p)
  | forked {pid t child : ℕ} {p q : Proc} (hp : m.procs pid = some p) (halive : p.zombie = false)
      (ht : p.threads t = .forking) (hfree : m.procs child = none) (hpid : child < m.pidMax)
      (hlate : m.last child < q.start) (hparent : q.parent = some (pid, t)) (hstopping : q.stopping = false)
      (hthreads : ∀ t, (q.threads t).present = true → t < m.pidMax) :
      Move others m ((m.set pid (some (p.setThread t .running))).spawn child q)
  | cloned {pid t new : ℕ} {p : Proc} (hp : m.procs pid = some p) (halive : p.zombie = false)
      (ht : p.threads t = .forking) (hnew : p.threads new = .absent) (hpid : new < m.pidMax) :
      Move others m (m.set pid (some ((p.setThread t .running).setThread new .running)))
  | thread {pid t : ℕ} {p : Proc} {s : ThreadState} (hp : m.procs pid = some p) (halive : p.zombie = false)
      (ht : ThreadMove p.stopping (p.threads t) s) : Move others m (m.set pid (some (p.setThread t s)))
  /-- A thread ends, and its children pass to another of the process. -/
  | threadExit {pid t heir : ℕ} {p : Proc} (hp : m.procs pid = some p) (halive : p.zombie = false)
      (ht : p.threads t = .running ∨ p.threads t = .forking) (hheir : (p.threads heir).present = true)
      (hne : heir ≠ t) :
      Move others m ((m.set pid (some (p.setThread t .gone))).reparent fun x =>
        if x = some (pid, t) then some (pid, heir) else x)
  | exit {pid : ℕ} {p : Proc} (hp : m.procs pid = some p) :
      Move others m ((m.set pid (some { p with zombie := true })).reparent fun x =>
        if x.any (fun y => y.1 = pid) then none else x)
  | reap {pid : ℕ} {p : Proc} (hp : m.procs pid = some p) (hzombie : p.zombie = true) : Move others m (m.set pid none)
  | exec {pid : ℕ} {p : Proc} {cmdline : List String} (hp : m.procs pid = some p) (hstopping : p.stopping = false) :
      Move others m (m.set pid (some { p with cmdline := cmdline }))
  /-- Somebody else stops or continues a process. -/
  | signal {pid : ℕ} {p : Proc} {signal : Signal} (hp : m.procs pid = some p) (hother : others pid) :
      Move others m (m.set pid (some (Machine.signalled p signal)))

namespace Machine

variable {m : Machine} {pid c : ℕ} {p : Proc}

theorem set_procs (x : Option Proc) : (m.set pid x).procs c = if c = pid then x else m.procs c :=
  Function.update_apply ..

theorem set_self (x : Option Proc) : (m.set pid x).procs pid = x := Function.update_self ..

theorem set_other (x : Option Proc) (h : c ≠ pid) : (m.set pid x).procs c = m.procs c := Function.update_of_ne h ..

theorem spawn_last : (m.spawn pid p).last c = if c = pid then p.start else m.last c := Function.update_apply ..

theorem reparent_some {f : Option (ℕ × ℕ) → Option (ℕ × ℕ)} {q' : Proc} (h : (m.reparent f).procs c = some q') :
    ∃ q, m.procs c = some q ∧ q' = { q with parent := f q.parent } := by
  obtain ⟨q, hq, rfl⟩ := Option.map_eq_some_iff.1 h
  exact ⟨q, hq, rfl⟩

theorem set_some {x : Option Proc} {q : Proc} (h : (m.set pid x).procs c = some q) :
    c = pid ∧ x = some q ∨ c ≠ pid ∧ m.procs c = some q := by
  rw [set_procs] at h
  split at h
  · exact .inl ⟨‹_›, h⟩
  · exact .inr ⟨‹_›, h⟩

theorem spawn_some {q : Proc} (h : (m.spawn pid p).procs c = some q) :
    c = pid ∧ p = q ∨ c ≠ pid ∧ m.procs c = some q :=
  (set_some h).imp_left (fun ⟨hc, hq⟩ => ⟨hc, Option.some.inj hq⟩)

theorem set_set (x y : Option Proc) : (m.set pid x).set pid y = m.set pid y := by
  unfold set
  rw [Function.update_idem]

@[simp] theorem signalled_start (p : Proc) (signal : Signal) : (signalled p signal).start = p.start := by
  cases signal with
  | stop =>
    simp only [signalled]
    split <;> rfl
  | cont => rfl
  | term => rfl

@[simp] theorem signalled_zombie (p : Proc) (signal : Signal) : (signalled p signal).zombie = p.zombie := by
  cases signal with
  | stop =>
    simp only [signalled]
    split <;> rfl
  | cont => rfl
  | term => rfl

@[simp] theorem signalled_parent (p : Proc) (signal : Signal) : (signalled p signal).parent = p.parent := by
  cases signal with
  | stop =>
    simp only [signalled]
    split <;> rfl
  | cont => rfl
  | term => rfl

end Machine

@[simp] theorem Proc.setThread_threads (p : Proc) (t u : ℕ) (s : ThreadState) :
    (p.setThread t s).threads u = if u = t then s else p.threads u := Function.update_apply ..

/-- What every machine is like that came to be by moves. -/
structure Sound (m : Machine) : Prop where
  start : ∀ {pid p}, m.procs pid = some p → p.start = m.last pid
  bound : ∀ {pid p}, m.procs pid = some p → pid < m.pidMax
  tids : ∀ {pid p t}, m.procs pid = some p → (p.threads t).present = true → t < m.pidMax
  parent : ∀ {c q pid t}, m.procs c = some q → q.parent = some (pid, t) →
    ∃ p, m.procs pid = some p ∧ p.zombie = false ∧ (p.threads t).present = true

/-- A process that has not ended is a child of the thread. -/
def Kid (m : Machine) (c pid t : ℕ) : Prop := ∃ q, m.procs c = some q ∧ q.zombie = false ∧ q.parent = some (pid, t)

/-- What happens to a thread at once. -/
inductive ThreadStep (stopping : Bool) : ThreadState → ThreadState → Prop
  | same {s : ThreadState} : ThreadStep stopping s s
  | move {s s' : ThreadState} (h : ThreadMove stopping s s') : ThreadStep stopping s s'
  | start : ThreadStep stopping .absent .running
  | exit {s : ThreadState} (h : s = .running ∨ s = .forking) : ThreadStep stopping s .gone

/-- What happens at once to a process that nobody else signals. -/
structure Evolves (m m' : Machine) (pid : ℕ) (p p' : Proc) : Prop where
  start : p'.start = p.start
  alive : p.zombie = false
  stopping : p'.stopping = p.stopping
  cmdline : p.stopping = true → p'.cmdline = p.cmdline
  threads : ∀ t, ThreadStep p.stopping (p.threads t) (p'.threads t)
  kids : ∀ {c t}, Kid m' c pid t → p.threads t = .forking ∨ ∃ t₀, Kid m c pid t₀ ∧ (t₀ = t ∨ p'.threads t₀ = .gone)

section Watched

variable {m m' : Machine} {others : ℕ → Prop} {held : ℕ}

/-- A move of other processes that gives the watched one no child. -/
theorem Evolves.of_kids {p : Proc} (halive : p.zombie = false) (hkids : ∀ {c t}, Kid m' c held t → Kid m c held t) :
    Evolves m m' held p p where
  start := rfl
  alive := halive
  stopping := rfl
  cmdline := fun _ => rfl
  threads := fun _ => .same
  kids := fun hkid => .inr ⟨_, hkids hkid, .inl rfl⟩

theorem Kid.of_set {pid c t : ℕ} {p p' : Proc} (h : Kid (m.set pid (some p')) c held t) (hp : m.procs pid = some p)
    (hzombie : p'.zombie = false → p.zombie = false) (hparent : p'.parent = p.parent) : Kid m c held t := by
  obtain ⟨q, hq, hlive, hqp⟩ := h
  rcases Machine.set_some hq with ⟨rfl, hx⟩ | ⟨-, hq⟩
  · obtain rfl := Option.some.inj hx
    exact ⟨p, hp, hzombie hlive, hparent ▸ hqp⟩
  · exact ⟨q, hq, hlive, hqp⟩

/-- A thread of the process itself changes, and no child does. -/
theorem Evolves.of_thread {p p' : Proc} (hp : m.procs held = some p) (halive : p.zombie = false)
    (hsame : { p' with threads := p.threads } = p) (hthreads : ∀ t, ThreadStep p.stopping (p.threads t) (p'.threads t)) :
    Evolves m (m.set held (some p')) held p p' := by
  have hstart := congrArg Proc.start hsame
  have hstopping := congrArg Proc.stopping hsame
  have hcmdline := congrArg Proc.cmdline hsame
  have hparent := congrArg Proc.parent hsame
  exact ⟨hstart, halive, hstopping, fun _ => hcmdline, hthreads,
    fun hkid => .inr ⟨_, hkid.of_set hp (fun _ => halive) hparent, .inl rfl⟩⟩

theorem threadStep_setThread {p : Proc} {t : ℕ} {s : ThreadState} (h : ThreadStep p.stopping (p.threads t) s) (u : ℕ) :
    ThreadStep p.stopping (p.threads u) ((p.setThread t s).threads u) := by
  rw [Proc.setThread_threads]
  split
  · subst u
    exact h
  · exact .same

/-- **What one move does to the process that nobody else signals**, unless it is a new one under the same id. -/
theorem Move.watched (h : Move others m m') (hheld : ¬ others held) {p' : Proc} (hp' : m'.procs held = some p')
    (halive' : p'.zombie = false) :
    (∃ p, m.procs held = some p ∧ Evolves m m' held p p') ∨ m.last held < p'.start ∧ p'.stopping = false := by
  cases h with
  | born hfree _ hlate hparent hstopping _ =>
    rcases Machine.spawn_some hp' with ⟨rfl, rfl⟩ | ⟨-, hp'⟩
    · exact .inr ⟨hlate, hstopping⟩
    · refine .inl ⟨p', hp', .of_kids halive' fun ⟨q, hq, hlive, hqp⟩ => ?_⟩
      rcases Machine.spawn_some hq with ⟨-, rfl⟩ | ⟨-, hq⟩
      · cases hparent.symm.trans hqp
      · exact ⟨q, hq, hlive, hqp⟩
  | @forked pid t child p q hp halive ht hfree _ hlate hparent hstopping _ =>
    rcases Machine.spawn_some hp' with ⟨rfl, rfl⟩ | ⟨-, hp'⟩
    · exact .inr ⟨hlate, hstopping⟩
    · have hkid : ∀ {c u}, Kid ((m.set pid (some (p.setThread t .running))).spawn child q) c held u →
          held = pid ∧ u = t ∨ Kid m c held u := by
        rintro c u ⟨q', hq', hlive, hqp⟩
        rcases Machine.spawn_some hq' with ⟨-, rfl⟩ | ⟨-, hq'⟩
        · cases hparent.symm.trans hqp
          exact .inl ⟨rfl, rfl⟩
        · exact .inr (Kid.of_set ⟨q', hq', hlive, hqp⟩ hp (fun _ => halive) rfl)
      rcases Machine.set_some hp' with ⟨rfl, hx⟩ | ⟨hne, hp'⟩
      · obtain rfl := Option.some.inj hx
        refine .inl ⟨p, hp, rfl, halive, rfl, fun _ => rfl, ?_, fun hk => ?_⟩
        · exact threadStep_setThread (.move (ht ▸ .leave))
        · rcases hkid hk with ⟨-, rfl⟩ | hk
          · exact .inl ht
          · exact .inr ⟨_, hk, .inl rfl⟩
      · exact .inl ⟨p', hp', .of_kids halive' fun hk => (hkid hk).resolve_left fun hx => hne hx.1⟩
  | @cloned pid t new p hp halive ht hnew _ =>
    rcases Machine.set_some hp' with ⟨rfl, hx⟩ | ⟨-, hp'⟩
    · obtain rfl := Option.some.inj hx
      refine .inl ⟨p, hp, .of_thread hp halive rfl fun u => ?_⟩
      rw [Proc.setThread_threads]
      split
      · subst u
        exact hnew ▸ .start
      · exact threadStep_setThread (.move (ht ▸ .leave)) u
    · exact .inl ⟨p', hp', .of_kids halive' fun hk => hk.of_set hp (fun _ => halive) rfl⟩
  | thread hp halive ht =>
    rcases Machine.set_some hp' with ⟨rfl, hx⟩ | ⟨-, hp'⟩
    · obtain rfl := Option.some.inj hx
      exact .inl ⟨_, hp, .of_thread hp halive rfl (threadStep_setThread (.move ht))⟩
    · exact .inl ⟨p', hp', .of_kids halive' fun hk => hk.of_set hp (fun _ => halive) rfl⟩
  | @threadExit pid t heir p hp halive ht hheir hne =>
    obtain ⟨p₁, hp₁, rfl⟩ := Machine.reparent_some hp'
    -- a child is where it was, unless it hung on the thread that ended
    have hkid : ∀ {c u}, Kid ((m.set pid (some (p.setThread t .gone))).reparent fun x =>
        if x = some (pid, t) then some (pid, heir) else x) c held u →
          Kid m c held u ∨ held = pid ∧ Kid m c held t := by
      rintro c u ⟨q', hq', hlive, hqp⟩
      obtain ⟨q, hq, rfl⟩ := Machine.reparent_some hq'
      simp only at hqp hlive
      split at hqp
      · cases hqp
        exact .inr ⟨rfl, Kid.of_set ⟨q, hq, hlive, ‹_›⟩ hp (fun _ => halive) rfl⟩
      · exact .inl (Kid.of_set ⟨q, hq, hlive, hqp⟩ hp (fun _ => halive) rfl)
    rcases Machine.set_some hp₁ with ⟨rfl, hx⟩ | ⟨hother, hp₁⟩
    · obtain rfl := Option.some.inj hx
      refine .inl ⟨p, hp, rfl, halive, rfl, fun _ => rfl, threadStep_setThread (.exit ht), fun hk => .inr ?_⟩
      rcases hkid hk with hk | ⟨-, hk⟩
      · exact ⟨_, hk, .inl rfl⟩
      · refine ⟨t, hk, .inr ?_⟩
        simp
    · refine .inl ⟨p₁, hp₁, rfl, halive', rfl, fun _ => rfl, fun _ => .same, fun hk => .inr ⟨_, ?_, .inl rfl⟩⟩
      exact (hkid hk).resolve_right fun hx => hother hx.1
  | @exit pid p hp =>
    obtain ⟨p₁, hp₁, rfl⟩ := Machine.reparent_some hp'
    have hkid : ∀ {c u}, Kid ((m.set pid (some { p with zombie := true })).reparent fun x =>
        if x.any (fun y => y.1 = pid) then none else x) c held u → Kid m c held u := by
      rintro c u ⟨q', hq', hlive, hqp⟩
      obtain ⟨q, hq, rfl⟩ := Machine.reparent_some hq'
      simp only at hqp hlive
      split at hqp
      · cases hqp
      · exact Kid.of_set ⟨q, hq, hlive, hqp⟩ hp (fun hz => nomatch hz) rfl
    rcases Machine.set_some hp₁ with ⟨rfl, hx⟩ | ⟨-, hp₁⟩
    · obtain rfl := Option.some.inj hx
      cases halive'
    · exact .inl ⟨p₁, hp₁, rfl, halive', rfl, fun _ => rfl, fun _ => .same, fun hk => .inr ⟨_, hkid hk, .inl rfl⟩⟩
  | reap hp hzombie =>
    rcases Machine.set_some hp' with ⟨rfl, hx⟩ | ⟨-, hp'⟩
    · cases hx
    · refine .inl ⟨p', hp', .of_kids halive' fun ⟨q, hq, hlive, hqp⟩ => ?_⟩
      rcases Machine.set_some hq with ⟨-, hx⟩ | ⟨-, hq⟩
      · cases hx
      · exact ⟨q, hq, hlive, hqp⟩
  | @exec pid p cmdline hp hstopping =>
    rcases Machine.set_some hp' with ⟨rfl, hx⟩ | ⟨-, hp'⟩
    · obtain rfl := Option.some.inj hx
      refine .inl ⟨p, hp, rfl, halive', rfl, fun h => ?_, fun _ => .same, fun hk => .inr ⟨_, ?_, .inl rfl⟩⟩
      · cases hstopping.symm.trans h
      · exact hk.of_set hp id rfl
    · exact .inl ⟨p', hp', .of_kids halive' fun hk => hk.of_set hp id rfl⟩
  | @signal pid p signal hp hother =>
    have hne : held ≠ pid := by
      rintro rfl
      exact hheld hother
    rw [Machine.set_other _ hne] at hp'
    refine .inl ⟨p', hp', .of_kids halive' fun hk => hk.of_set hp (fun hz => ?_) (Machine.signalled_parent ..)⟩
    rwa [Machine.signalled_zombie] at hz

end Watched

/-! ## Sound machines -/

section Soundness

variable {m m' : Machine} {others : ℕ → Prop} {pid : ℕ} {p p' : Proc}

/-- A process changes, and stays the parent of what it was the parent of. -/
theorem Sound.set (hs : Sound m) (hp : m.procs pid = some p) (hstart : p'.start = p.start)
    (hparent : p'.parent = p.parent) (hzombie : p.zombie = false → p'.zombie = false)
    (htids : ∀ t, (p'.threads t).present = true → t < m.pidMax)
    (hkeeps : ∀ t, (p.threads t).present = true → (p'.threads t).present = true) : Sound (m.set pid (some p')) where
  start := by
    intro c q hq
    rcases Machine.set_some hq with ⟨rfl, hx⟩ | ⟨-, hq⟩
    · obtain rfl := Option.some.inj hx
      exact hstart.trans (hs.start hp)
    · exact hs.start hq
  bound := by
    intro c q hq
    rcases Machine.set_some hq with ⟨rfl, -⟩ | ⟨-, hq⟩
    · exact hs.bound hp
    · exact hs.bound hq
  tids := by
    intro c q t hq ht
    rcases Machine.set_some hq with ⟨-, hx⟩ | ⟨-, hq⟩
    · obtain rfl := Option.some.inj hx
      exact htids t ht
    · exact hs.tids hq ht
  parent := by
    intro c q par t hq hqp
    have hold : ∃ q₀, m.procs c = some q₀ ∧ q₀.parent = some (par, t) := by
      rcases Machine.set_some hq with ⟨rfl, hx⟩ | ⟨-, hq⟩
      · obtain rfl := Option.some.inj hx
        exact ⟨p, hp, hparent ▸ hqp⟩
      · exact ⟨q, hq, hqp⟩
    obtain ⟨q₀, hq₀, hqp₀⟩ := hold
    obtain ⟨r, hr, hlive, ht⟩ := hs.parent hq₀ hqp₀
    by_cases hpar : par = pid
    · subst par
      obtain rfl := Option.some.inj (hp.symm.trans hr)
      exact ⟨p', Machine.set_self _, hzombie hlive, hkeeps t ht⟩
    · exact ⟨r, (Machine.set_other _ hpar).trans hr, hlive, ht⟩

/-- A new process whose parent is there. -/
theorem Sound.spawn (hs : Sound m) (hfree : m.procs pid = none) (hpid : pid < m.pidMax)
    (htids : ∀ t, (p.threads t).present = true → t < m.pidMax)
    (hparent : ∀ par t, p.parent = some (par, t) →
      ∃ r, m.procs par = some r ∧ r.zombie = false ∧ (r.threads t).present = true) : Sound (m.spawn pid p) where
  start := by
    intro c q hq
    rw [Machine.spawn_last]
    rcases Machine.spawn_some hq with ⟨rfl, rfl⟩ | ⟨hne, hq⟩
    · rw [if_pos rfl]
    · rw [if_neg hne]
      exact hs.start hq
  bound := by
    intro c q hq
    rcases Machine.spawn_some hq with ⟨rfl, -⟩ | ⟨-, hq⟩
    · exact hpid
    · exact hs.bound hq
  tids := by
    intro c q t hq ht
    rcases Machine.spawn_some hq with ⟨-, rfl⟩ | ⟨-, hq⟩
    · exact htids t ht
    · exact hs.tids hq ht
  parent := by
    intro c q par t hq hqp
    have hold : ∃ r, m.procs par = some r ∧ r.zombie = false ∧ (r.threads t).present = true := by
      rcases Machine.spawn_some hq with ⟨-, rfl⟩ | ⟨-, hq⟩
      · exact hparent par t hqp
      · exact hs.parent hq hqp
    obtain ⟨r, hr, hrest⟩ := hold
    have hne : par ≠ pid := by
      rintro rfl
      cases hfree.symm.trans hr
    exact ⟨r, (Machine.set_other _ hne).trans hr, hrest⟩

theorem ThreadMove.present {b : Bool} {s s' : ThreadState} (h : ThreadMove b s s') : s'.present = true := by
  cases h <;> rfl

theorem ThreadMove.present_before {b : Bool} {s s' : ThreadState} (h : ThreadMove b s s') : s.present = true := by
  cases h <;> rfl

/-- A thread of the process comes to a state in which it is there. -/
theorem Sound.setThread {t : ℕ} {s : ThreadState} (hs : Sound m) (hp : m.procs pid = some p) (hbound : t < m.pidMax)
    (hpresent : s.present = true) : Sound (m.set pid (some (p.setThread t s))) := by
  refine hs.set hp rfl rfl id (fun u hu => ?_) (fun u hu => ?_)
  · rw [Proc.setThread_threads] at hu
    split at hu
    · subst u
      exact hbound
    · exact hs.tids hp hu
  · rw [Proc.setThread_threads]
    split
    · exact hpresent
    · exact hu

theorem ThreadState.present_resumed (s : ThreadState) : s.resumed.present = s.present := by
  cases s <;> rfl

theorem Sound.signalled (hs : Sound m) (hp : m.procs pid = some p) (signal : Signal) :
    Sound (m.set pid (some (Machine.signalled p signal))) := by
  have hpresent : ∀ t, ((Machine.signalled p signal).threads t).present = (p.threads t).present := by
    intro t
    cases signal with
    | stop =>
      simp only [Machine.signalled]
      split <;> rfl
    | cont => exact ThreadState.present_resumed _
    | term => rfl
  refine hs.set hp (Machine.signalled_start ..) (Machine.signalled_parent ..) (fun h => ?_) (fun t ht => ?_)
    (fun t ht => ?_)
  · rwa [Machine.signalled_zombie]
  · exact hs.tids hp (hpresent t ▸ ht)
  · rwa [hpresent]

theorem Sound.send (hs : Sound m) (fd : PidFd) (signal : Signal) : Sound (m.send fd signal).2 := by
  unfold Machine.send
  split
  · exact hs
  · split
    · exact hs.signalled ‹_› signal
    · exact hs

/-- A process changes, and every child that there is afterwards has a parent that is there. -/
theorem Sound.setReparent {f : Option (ℕ × ℕ) → Option (ℕ × ℕ)} (hs : Sound m) (hp : m.procs pid = some p)
    (hstart : p'.start = p.start) (hparent : p'.parent = p.parent)
    (htids : ∀ t, (p'.threads t).present = true → (p.threads t).present = true)
    (hparents : ∀ {c q par t}, m.procs c = some q → f q.parent = some (par, t) →
      if par = pid then p'.zombie = false ∧ (p'.threads t).present = true
      else ∃ r, m.procs par = some r ∧ r.zombie = false ∧ (r.threads t).present = true) :
    Sound ((m.set pid (some p')).reparent f) where
  start := by
    intro c q hq
    obtain ⟨q, hq₁, rfl⟩ := Machine.reparent_some hq
    rcases Machine.set_some hq₁ with ⟨rfl, hx⟩ | ⟨-, hq₁⟩
    · obtain rfl := Option.some.inj hx
      exact hstart.trans (hs.start hp)
    · have hlast := hs.start hq₁
      exact hlast
  bound := by
    intro c q hq
    obtain ⟨q, hq₁, rfl⟩ := Machine.reparent_some hq
    rcases Machine.set_some hq₁ with ⟨rfl, -⟩ | ⟨-, hq₁⟩
    · exact hs.bound hp
    · exact hs.bound hq₁
  tids := by
    intro c q t hq ht
    obtain ⟨q, hq₁, rfl⟩ := Machine.reparent_some hq
    rcases Machine.set_some hq₁ with ⟨rfl, hx⟩ | ⟨-, hq₁⟩
    · obtain rfl := Option.some.inj hx
      exact hs.tids hp (htids t ht)
    · exact hs.tids hq₁ ht
  parent := by
    intro c q par t hq hqp
    obtain ⟨q, hq₁, rfl⟩ := Machine.reparent_some hq
    have hold : ∃ q₀, m.procs c = some q₀ ∧ q₀.parent = q.parent := by
      rcases Machine.set_some hq₁ with ⟨rfl, hx⟩ | ⟨-, hq₁⟩
      · obtain rfl := Option.some.inj hx
        exact ⟨p, hp, hparent.symm⟩
      · exact ⟨q, hq₁, rfl⟩
    obtain ⟨q₀, hq₀, hqp₀⟩ := hold
    have hthere := hparents hq₀ (hqp₀ ▸ hqp)
    split at hthere
    · subst par
      exact ⟨_, congrArg (Option.map _) (Machine.set_self _), hthere⟩
    · obtain ⟨r, hr, hrest⟩ := hthere
      exact ⟨_, congrArg (Option.map _) ((Machine.set_other _ ‹_›).trans hr), hrest⟩

theorem Sound.threadExit {t heir : ℕ} (hs : Sound m) (hp : m.procs pid = some p) (halive : p.zombie = false)
    (hheir : (p.threads heir).present = true) (hne : heir ≠ t) :
    Sound ((m.set pid (some (p.setThread t .gone))).reparent fun x =>
      if x = some (pid, t) then some (pid, heir) else x) := by
  refine hs.setReparent hp rfl rfl (fun u hu => ?_) fun {c q par u} hq hqp => ?_
  · rw [Proc.setThread_threads] at hu
    split at hu
    · cases hu
    · exact hu
  · rw [Proc.setThread_threads]
    split at hqp
    · cases hqp
      rw [if_pos rfl, if_neg hne]
      exact ⟨halive, hheir⟩
    · rename_i hother
      obtain ⟨r, hr, hlive, hu⟩ := hs.parent hq hqp
      split
      · subst par
        obtain rfl := Option.some.inj (hp.symm.trans hr)
        have hut : u ≠ t := by
          rintro rfl
          exact hother hqp
        rw [if_neg hut]
        exact ⟨halive, hu⟩
      · exact ⟨r, hr, hlive, hu⟩

theorem Sound.exit (hs : Sound m) (hp : m.procs pid = some p) :
    Sound ((m.set pid (some { p with zombie := true })).reparent fun x =>
      if x.any (fun y => y.1 = pid) then none else x) := by
  refine hs.setReparent hp rfl rfl (fun u hu => hu) fun {c q par u} hq hqp => ?_
  split at hqp
  · cases hqp
  · rename_i hother
    have hpar : par ≠ pid := by
      rintro rfl
      simp [hqp] at hother
    rw [if_neg hpar]
    exact hs.parent hq hqp

theorem Sound.reap (hs : Sound m) (hp : m.procs pid = some p) (hzombie : p.zombie = true) : Sound (m.set pid none) := by
  have hold : ∀ {c q}, (m.set pid none).procs c = some q → m.procs c = some q := by
    intro c q hq
    rcases Machine.set_some hq with ⟨-, hx⟩ | ⟨-, hq⟩
    · cases hx
    · exact hq
  refine ⟨fun hq => hs.start (hold hq), fun hq => hs.bound (hold hq), fun hq ht => hs.tids (hold hq) ht, ?_⟩
  intro c q par t hq hqp
  obtain ⟨r, hr, hlive, ht⟩ := hs.parent (hold hq) hqp
  have hpar : par ≠ pid := by
    rintro rfl
    obtain rfl := Option.some.inj (hp.symm.trans hr)
    cases hzombie.symm.trans hlive
  exact ⟨r, (Machine.set_other _ hpar).trans hr, hlive, ht⟩

theorem Sound.move (hs : Sound m) (h : Move others m m') : Sound m' := by
  cases h with
  | born hfree hpid _ hparent _ hthreads =>
    refine hs.spawn hfree hpid hthreads fun par t h => ?_
    cases hparent.symm.trans h
  | @forked pid t child p q hp halive ht hfree hpid _ hparent _ hthreads =>
    have htid : t < m.pidMax := hs.tids hp (ht ▸ rfl)
    have hne : child ≠ pid := by
      rintro rfl
      cases hfree.symm.trans hp
    refine (hs.setThread hp htid rfl).spawn ((Machine.set_other _ hne).trans hfree) hpid hthreads fun par u h => ?_
    cases hparent.symm.trans h
    refine ⟨_, Machine.set_self _, halive, ?_⟩
    rw [Proc.setThread_threads, if_pos rfl]
    rfl
  | @cloned pid t new p hp halive ht hnew hpid =>
    have hone : Sound (m.set pid (some (p.setThread t .running))) := hs.setThread hp (hs.tids hp (ht ▸ rfl)) rfl
    have hboth : Sound (_ : Machine) := hone.setThread (t := new) (s := .running) (Machine.set_self _) hpid rfl
    rwa [Machine.set_set] at hboth
  | thread hp _ ht =>
    exact hs.setThread hp (hs.tids hp ht.present_before) ht.present
  | @threadExit pid t heir p hp halive ht hheir hne => exact hs.threadExit hp halive hheir hne
  | exit hp => exact hs.exit hp
  | @reap pid p hp hzombie => exact hs.reap hp hzombie
  | exec hp _ => exact hs.set hp rfl rfl id (fun t ht => hs.tids hp ht) fun t ht => ht
  | signal hp _ => exact hs.signalled hp _

end Soundness

/-! ## Assertions on the watched process -/

/-- `Φ` holds of the process `pid` as long as it is the one that started at `start` and has not ended. -/
def During (pid start : ℕ) (Φ : Machine → Proc → Prop) (m : Machine) : Prop :=
  ∀ p, m.procs pid = some p → p.start = start → p.zombie = false → Φ m p

/-- Every thread of `listed` has stopped, the others are in no fork, and only those listed have children. -/
structure Quiet (listed : List ℕ) (pid : ℕ) (m : Machine) (p : Proc) : Prop where
  stopping : p.stopping = true
  stopped : ∀ t ∈ listed, p.threads t = .stopped
  forking : ∀ t, p.threads t ≠ .forking
  kids : ∀ {c t}, t ∉ listed → ¬ Kid m c pid t

/-- Every thread of `listed` has stopped, and no thread is in a fork or has a child. -/
structure Halted (listed : List ℕ) (pid : ℕ) (m : Machine) (p : Proc) : Prop extends Quiet listed pid m p where
  childless : ∀ c t, ¬ Kid m c pid t

/-- What a list of the threads says as long as none of them has ended: whatever came after it is in no fork and has no
children. -/
def Listed (listed : List ℕ) (pid : ℕ) (m : Machine) (p : Proc) : Prop :=
  p.stopping = true ∧ ((∀ t ∈ listed, p.threads t ≠ .gone) →
    ∀ t ∉ listed, p.threads t ≠ .forking ∧ ∀ c, ¬ Kid m c pid t)

/-- The process of the id is not to stop. -/
def Loose (pid : ℕ) (m : Machine) : Prop := ∀ p, m.procs pid = some p → p.zombie = false → p.stopping = false

/-- Nor is it, unless it started at `start`. -/
def StopsOnly (pid start : ℕ) (m : Machine) : Prop :=
  ∀ p, m.procs pid = some p → p.zombie = false → p.start ≠ start → p.stopping = false

section Assertions

variable {m m' : Machine} {others : ℕ → Prop} {held pid start t : ℕ} {p p' : Proc} {listed : List ℕ}
  {Φ Ψ : Machine → Proc → Prop}

theorem During.mono (h : During pid start Φ m) (himp : ∀ p, Φ m p → Ψ m p) : During pid start Ψ m :=
  fun p hp hstart halive => himp p (h p hp hstart halive)

theorem During.and (h : During pid start Φ m) (h' : During pid start Ψ m) :
    During pid start (fun m p => Φ m p ∧ Ψ m p) m :=
  fun p hp hstart halive => ⟨h p hp hstart halive, h' p hp hstart halive⟩

/-- What the moves keep of a process they keep as long as it is that one. -/
theorem During.move (h : During held start Φ m) (hmove : Move others m m') (hheld : ¬ others held)
    (hlast : start ≤ m.last held)
    (hkeep : ∀ {p p'}, Evolves m m' held p p' → Φ m p → Φ m' p') : During held start Φ m' := by
  intro p' hp' hstart halive
  rcases hmove.watched hheld hp' halive with ⟨p, hp, hevolves⟩ | ⟨hlate, -⟩
  · exact hkeep hevolves (h p hp (hevolves.start.symm.trans hstart) hevolves.alive)
  · omega

theorem Move.last (h : Move others m m') (pid : ℕ) : m.last pid ≤ m'.last pid := by
  cases h with
  | born _ _ hlate _ _ _ =>
    rw [Machine.spawn_last]
    split
    · subst pid
      exact Nat.le_of_lt hlate
    · exact Nat.le_refl _
  | @forked _ _ _ _ q _ _ _ _ _ hlate _ _ _ =>
    rw [Machine.spawn_last]
    split
    · subst pid
      exact Nat.le_of_lt hlate
    · exact Nat.le_refl _
  | _ => exact Nat.le_refl _

theorem Evolves.stopped (h : Evolves m m' pid p p') (ht : p.threads t = .stopped) : p'.threads t = .stopped := by
  have hstep := h.threads t
  rw [ht] at hstep
  generalize p'.threads t = s at hstep ⊢
  rcases hstep with _ | hmove | _ | hexit
  · rfl
  · cases hmove
  · rcases hexit with hx | hx <;> cases hx

theorem Evolves.gone (h : Evolves m m' pid p p') (ht : p.threads t = .gone) : p'.threads t = .gone := by
  have hstep := h.threads t
  rw [ht] at hstep
  generalize p'.threads t = s at hstep ⊢
  rcases hstep with _ | hmove | _ | hexit
  · rfl
  · cases hmove
  · rfl

/-- No thread comes into a fork while the process is to stop. -/
theorem Evolves.forking (h : Evolves m m' pid p p') (hstopping : p.stopping = true) (ht : p'.threads t = .forking) :
    p.threads t = .forking := by
  have hstep := h.threads t
  rw [ht, hstopping] at hstep
  generalize p.threads t = s at hstep ⊢
  rcases hstep with _ | hmove | _ | hexit
  · rfl
  · rcases hmove with henter | _ | _
    cases henter

theorem Evolves.keepListed (h : Evolves m m' pid p p') (hl : Listed listed pid m p) : Listed listed pid m' p' := by
  refine ⟨h.stopping.trans hl.1, fun hthere t ht => ?_⟩
  have hbefore := hl.2 fun u hu hgone => hthere u hu (h.gone hgone)
  refine ⟨fun hfork => (hbefore t ht).1 (h.forking hl.1 hfork), fun c hkid => ?_⟩
  rcases h.kids hkid with hfork | ⟨t₀, hkid₀, rfl | hgone⟩
  · exact (hbefore t ht).1 hfork
  · exact (hbefore t₀ ht).2 c hkid₀
  · exact (hbefore t₀ fun hmem => hthere t₀ hmem hgone).2 c hkid₀

/-- A quiet process gets no child. -/
theorem Evolves.kid {c : ℕ} (h : Evolves m m' pid p p') (hq : Quiet listed pid m p) (hkid : Kid m' c pid t) :
    Kid m c pid t := by
  rcases h.kids hkid with hfork | ⟨t₀, hkid₀, rfl | hgone⟩
  · cases hq.forking t hfork
  · exact hkid₀
  · by_cases hmem : t₀ ∈ listed
    · cases hgone.symm.trans (h.stopped (hq.stopped t₀ hmem))
    · cases hq.kids hmem hkid₀

theorem Evolves.quiet (h : Evolves m m' pid p p') (hq : Quiet listed pid m p) : Quiet listed pid m' p' where
  stopping := h.stopping.trans hq.stopping
  stopped := fun t ht => h.stopped (hq.stopped t ht)
  forking := fun t ht => hq.forking t (h.forking hq.stopping ht)
  kids := fun ht hkid => hq.kids ht (h.kid hq hkid)

theorem Evolves.frozen (h : Evolves m m' pid p p') (hf : Halted listed pid m p) : Halted listed pid m' p' :=
  ⟨h.quiet hf.toQuiet, fun c t hkid => hf.childless c t (h.kid hf.toQuiet hkid)⟩

/-! ## What the reads say -/

theorem startTime_ok {s : ℕ} (hs : Sound m) (h : m.startTime pid = .ok s) : m.last pid = s := by
  unfold Machine.startTime Machine.find at h
  split at h
  · cases h
  · rename_i p hp
    exact (hs.start hp).symm.trans (Except.ok.inj h)

theorem pidfdOpen_some {fd : PidFd} (h : m.pidfdOpen pid = .ok fd) : ∃ p, m.procs pid = some p ∧ fd = ⟨pid, p.start⟩ := by
  unfold Machine.pidfdOpen at h
  split at h
  · cases h
  · exact ⟨_, ‹_›, (Except.ok.inj h).symm⟩

theorem pidfdOpen_pid {fd : PidFd} (h : m.pidfdOpen pid = .ok fd) : fd.pid = pid := by
  obtain ⟨p, -, rfl⟩ := pidfdOpen_some h
  rfl

theorem cmdline_some {args : List String} (h : m.cmdline pid = .ok args) : ∃ p, m.procs pid = some p := by
  unfold Machine.cmdline Machine.find at h
  split at h
  · cases h
  · exact ⟨_, ‹_›⟩

theorem cmdline_ok {args : List String} (h : m.cmdline pid = .ok args) :
    During pid start (fun _ p => p.cmdline ++ [""] = args) m := by
  intro p hp _ halive
  simp only [Machine.cmdline, Machine.find, hp, Except.map, halive] at h
  exact Except.ok.inj h

theorem tasks_ok (hs : Sound m) (h : m.tasks pid = .ok listed)
    (hstopping : During pid start (fun _ p => p.stopping = true) m) : During pid start (Listed listed pid) m := by
  intro p hp hstart halive
  simp only [Machine.tasks, Machine.find, hp, Except.map, halive] at h
  obtain rfl := Except.ok.inj h
  refine ⟨hstopping p hp hstart halive, fun _ t ht => ?_⟩
  have habsent : ¬ (p.threads t).present = true := by
    intro hpresent
    exact ht (List.mem_filter.2 ⟨List.mem_range.2 (hs.tids hp hpresent), hpresent⟩)
  refine ⟨fun hfork => habsent (hfork ▸ rfl), ?_⟩
  rintro c ⟨q, hq, -, hparent⟩
  obtain ⟨r, hr, -, hpresent⟩ := hs.parent hq hparent
  obtain rfl := Option.some.inj (hp.symm.trans hr)
  exact habsent hpresent

theorem threadStopped_ok (h : m.threadStopped pid t = .ok true) :
    During pid start (fun _ p => p.threads t = .stopped) m := by
  intro p hp _ halive
  simp only [Machine.threadStopped, hp, halive, Bool.false_eq_true, if_false] at h
  split at h
  · simpa using Except.ok.inj h
  · cases h

theorem quiet_of_stopped (hlisted : Listed listed pid m p) (hstopped : ∀ t ∈ listed, p.threads t = .stopped) :
    Quiet listed pid m p := by
  have hthere : ∀ t ∈ listed, p.threads t ≠ .gone := by
    intro t ht hgone
    cases (hstopped t ht).symm.trans hgone
  refine ⟨hlisted.1, hstopped, fun t ht => ?_, fun ht => (hlisted.2 hthere _ ht).2 _⟩
  by_cases hmem : t ∈ listed
  · cases (hstopped t hmem).symm.trans ht
  · exact (hlisted.2 hthere t hmem).1 ht

theorem children_ok {kids : List ℕ} (hs : Sound m) (h : m.children pid t = .ok kids) :
    During pid start (fun m _ => ∀ c, Kid m c pid t → c ∈ kids) m := by
  rintro p hp - halive c ⟨q, hq, -, hparent⟩
  simp only [Machine.children, hp, halive, Bool.false_eq_true, if_false] at h
  split at h
  · obtain rfl := Except.ok.inj h
    refine List.mem_filter.2 ⟨List.mem_range.2 (hs.bound hq), ?_⟩
    simp [hq, hparent]
  · cases h

theorem ended_ok {c : ℕ} (h : m.ended c = .ok true) : ¬ Kid m c pid t := by
  rintro ⟨q, hq, hlive, -⟩
  simp only [Machine.ended, Machine.find, hq, Except.map] at h
  cases hlive.symm.trans (Except.ok.inj h)

/-! ## What the signals do -/

theorem send_last (fd : PidFd) (signal : Signal) (pid : ℕ) : (m.send fd signal).2.last pid = m.last pid := by
  unfold Machine.send
  split
  · rfl
  · split <;> rfl

/-- A signal that finds no process changes nothing. -/
theorem send_error {fd : PidFd} {signal : Signal} {e : Errno} (h : (m.send fd signal).1 = .error e) :
    (m.send fd signal).2 = m := by
  revert h
  unfold Machine.send
  split
  · exact fun _ => rfl
  · split
    · exact fun h => nomatch h
    · exact fun _ => rfl

theorem send_term (fd : PidFd) : (m.send fd .term).2 = m := by
  unfold Machine.send
  split
  · rfl
  · rename_i p hp
    split
    · simp only [Machine.signalled, Machine.set]
      rw [← hp, Function.update_eq_self]
    · rfl

theorem send_own (fd : PidFd) (signal : Signal) (h : ∀ m p, p.zombie = false → Φ m (Machine.signalled p signal)) :
    During fd.pid fd.start Φ (m.send fd signal).2 := by
  unfold Machine.send
  split
  · rename_i hnone
    intro p hp
    cases hnone.symm.trans hp
  · rename_i q hq
    split
    · intro p hp _ halive
      rw [Machine.set_self] at hp
      obtain rfl := Option.some.inj hp
      rw [Machine.signalled_zombie] at halive
      exact h _ q halive
    · intro p hp hstart
      obtain rfl := Option.some.inj (hq.symm.trans hp)
      contradiction

theorem send_stop (fd : PidFd) : During fd.pid fd.start (fun _ p => p.stopping = true) (m.send fd .stop).2 := by
  refine send_own fd .stop fun _ p halive => ?_
  simp [Machine.signalled, halive]

theorem send_cont (fd : PidFd) : During fd.pid fd.start (fun _ p => p.stopping = false) (m.send fd .cont).2 :=
  send_own fd .cont fun _ _ _ => rfl

theorem Loose.stopsOnly (h : Loose pid m) (start : ℕ) : StopsOnly pid start m := fun p hp halive _ => h p hp halive

theorem Loose.move (h : Loose pid m) (hmove : Move others m m') (hheld : ¬ others pid) : Loose pid m' := by
  intro p' hp' halive
  rcases hmove.watched hheld hp' halive with ⟨p, hp, hevolves⟩ | ⟨-, hnew⟩
  · exact hevolves.stopping.trans (h p hp hevolves.alive)
  · exact hnew

theorem StopsOnly.move (h : StopsOnly pid start m) (hmove : Move others m m') (hheld : ¬ others pid) :
    StopsOnly pid start m' := by
  intro p' hp' halive hstart
  rcases hmove.watched hheld hp' halive with ⟨p, hp, hevolves⟩ | ⟨-, hnew⟩
  · exact hevolves.stopping.trans (h p hp hevolves.alive (hevolves.start ▸ hstart))
  · exact hnew

theorem Loose.send {fd : PidFd} {signal : Signal} (h : Loose pid m) (hne : pid ≠ fd.pid) :
    Loose pid (m.send fd signal).2 := by
  unfold Machine.send
  split
  · exact h
  · split
    · intro p hp
      exact h p ((Machine.set_other _ hne).symm.trans hp)
    · exact h

theorem StopsOnly.send {fd : PidFd} (h : StopsOnly fd.pid fd.start m) (signal : Signal) :
    StopsOnly fd.pid fd.start (m.send fd signal).2 := by
  unfold Machine.send
  split
  · exact h
  · split
    · intro p hp _ hstart
      rw [Machine.set_self] at hp
      obtain rfl := Option.some.inj hp
      rw [Machine.signalled_start] at hstart
      contradiction
    · exact h

/-- The continue signal lets go whatever process has the id. -/
theorem StopsOnly.loose {fd : PidFd} (h : StopsOnly fd.pid fd.start m) : Loose fd.pid (m.send fd .cont).2 := by
  intro p hp halive
  by_cases hstart : p.start = fd.start
  · exact send_cont fd p hp hstart halive
  · exact h.send .cont p hp halive hstart

end Assertions

end Procfs
