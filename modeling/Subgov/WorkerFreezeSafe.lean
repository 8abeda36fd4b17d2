import Subgov.WorkerFreeze
/-!
# WorkerFreezeSafe — what the adapters' `stop_idle` does beside the workers

Between any two operations the machine moves, heartbeats, units and clocks change, and any operation may fail before or
after it was done.  A worker is told to end only while it stands still without a child, identified again and with an
idle heartbeat read meanwhile.  However the attempt ends nothing is left stopped, but for the worker whose continue
signal the hard deadline kept from being sent.
-/
namespace Subgov
namespace Freeze

open Procfs Python Interleave
open Script (perform ofExcept)

/-! ## What goes on meanwhile -/

/-- What the others do: `others` are the processes that somebody else may stop or continue, and no heartbeat file of
`mine` names one of them. -/
structure Rely (others : ℕ → Prop) (mine : String → Prop) (w w' : World) : Prop where
  machine : w'.machine = w.machine ∨ Move others w.machine w'.machine
  clock : w.clock ≤ w'.clock
  /-- A unit gets another main process only once the one it had has ended. -/
  units : ∀ u, (w'.units u).mainPid = (w.units u).mainPid ∨
    ∀ p, w.machine.procs (w.units u).mainPid = some p → p.zombie = true
  beats : ∀ {name beat pid}, mine name → w'.beats name = some beat → Takeover.namedPid (beat.get "pid") = some pid →
    ¬ others pid
  seen : w'.seen = w.seen

/-- What a deadline may do to the two signals: everything else may fail before and after it is done. -/
structure Faults where
  /-- The stop signal fails after it was sent. -/
  lateStop : Bool
  /-- The continue signal fails before it is sent. -/
  lostCont : Bool

namespace Faults

variable (faults : Faults)

def before : {β : Type} → Op β → Err → Prop
  | _, .send _ .cont, e => faults.lostCont = true ∧ e ≠ .processLookup
  | _, _, _ => True

def after : {β : Type} → Op β → Err → Prop
  | _, .send _ .stop, _ => faults.lateStop = true
  | _, _, _ => True

end Faults

/-- The scripts beside the others. -/
def system (others : ℕ → Prop) (mine : String → Prop) (faults : Faults) : System World Err Op where
  exec := exec
  rely := Rely others mine
  fails := faults.before
  failsLate := faults.after

/-! ## When a worker may be told to end -/

/-- What a script asks of the worker it tells to end. -/
structure Spec where
  flags : List (String × String)
  idle : Beat → Except Err Bool
  fresh : Beat → ℤ → Prop
  unit : Option String

/-- The worker, if it is still there, stands still without a child and was started with the flags, its unit runs it, and
an idle and fresh heartbeat of it has been read since it stood still. -/
structure Cleared (spec : Spec) (fd : PidFd) (listed : List ℕ) (w : World) : Prop where
  frozen : During fd.pid fd.start (Halted listed fd.pid) w.machine
  supervises : During fd.pid fd.start (fun _ p => supervises spec.flags (p.cmdline ++ [""]) = true) w.machine
  unit : ∀ u, spec.unit = some u → During fd.pid fd.start (fun _ _ => (w.units u).mainPid = fd.pid) w.machine
  beat : ∃ name beat m m' now, Seen.beat name beat m ∈ w.seen ∧ Seen.clock now m' ∈ w.seen ∧
    During fd.pid fd.start (Halted listed fd.pid) m ∧ During fd.pid fd.start (Halted listed fd.pid) m' ∧
    numberIs fd.pid (beat.get "pid") = true ∧ spec.idle beat = .ok true ∧ spec.fresh beat now

/-- The process of the descriptor itself has been seen to be a supervisor with the flags. -/
def Identified (spec : Spec) (fd : PidFd) (w : World) : Prop :=
  ∃ command m p, Seen.command fd.pid command m ∈ w.seen ∧ supervises spec.flags command = true ∧
    m.procs fd.pid = some p ∧ p.start = fd.start

/-- The descriptor is one that was opened, of a process that was there. -/
def Opened (fd : PidFd) (w : World) : Prop :=
  ∃ m p, Seen.opened fd m ∈ w.seen ∧ m.procs fd.pid = some p ∧ p.start = fd.start

def StopSent (fd : PidFd) (w : World) : Prop := ∃ m, Seen.signalled fd .stop m ∈ w.seen

/-- These are all the threads that the process had when they were listed, while it was to stop. -/
def ThreadsListed (fd : PidFd) (listed : List ℕ) (w : World) : Prop :=
  ∃ m, Seen.threads fd.pid listed m ∈ w.seen ∧ m.tasks fd.pid = .ok listed ∧
    During fd.pid fd.start (fun _ p => p.stopping = true) m

/-- The worker has been frozen through its descriptor, and its threads have been listed since. -/
structure Frozen (fd : PidFd) (listed : List ℕ) (w : World) : Prop where
  opened : Opened fd w
  stopped : StopSent fd w
  threads : ThreadsListed fd listed w
  nonempty : listed ≠ []

def guard (spec : Spec) : ∀ β, Op β → World → Prop
  | _, .send fd .stop, w => Opened fd w ∧ Identified spec fd w
  | _, .send fd .term, w => ∃ listed, Frozen fd listed w ∧ Cleared spec fd listed w
  | _, .stopUnit u, w => spec.unit = some u ∧ ∃ fd listed, Frozen fd listed w ∧ Cleared spec fd listed w
  | _, .unreachable, _ => False
  | _, _, _ => True

/-- No process that is nobody else's is to stop. -/
def AllLoose (others : ℕ → Prop) (w : World) : Prop := Sound w.machine ∧ ∀ pid, ¬ others pid → Loose pid w.machine

/-- Nor is one, but for the process of the descriptor. -/
structure LooseBut (others : ℕ → Prop) (fd : PidFd) (w : World) : Prop where
  opened : Opened fd w
  sound : Sound w.machine
  own : StopsOnly fd.pid fd.start w.machine
  rest : ∀ pid, ¬ others pid → pid ≠ fd.pid → Loose pid w.machine

/-- What an attempt leaves: nothing that is to stop, or the worker that it opened, where the continue signal was lost. -/
def Left (others : ℕ → Prop) (faults : Faults) (w : World) : Prop :=
  AllLoose others w ∨ faults.lostCont = true ∧ ∃ fd, ¬ others fd.pid ∧ LooseBut others fd w

/-! ## Assertions that are kept -/

/-- An operation of a script that signals nothing. -/
structure Calm (w w' : World) : Prop where
  machine : w'.machine = w.machine
  units : w'.units = w.units
  clock : w.clock ≤ w'.clock
  beats : w'.beats = w.beats
  seen : ∀ s ∈ w.seen, s ∈ w'.seen

def Op.signals : {β : Type} → Op β → Bool
  | _, .send _ _ => true
  | _, _ => false

theorem calm_refl (w : World) : Calm w w := ⟨rfl, rfl, Nat.le_refl _, rfl, fun _ h => h⟩

theorem calm_noted {γ : Type} (w : World) (r : Except Errno γ) (entry : γ → Seen) : Calm w (noted w r entry).2 := by
  cases r with
  | ok a => exact ⟨rfl, rfl, Nat.le_refl _, rfl, fun s hs => List.mem_cons_of_mem _ hs⟩
  | error e => exact calm_refl w

theorem calm_exec {β : Type} (o : Op β) (ho : o.signals = false) (w : World) : Calm w (exec o w).2 := by
  cases o with
  | readBeat name =>
    simp only [exec]
    split
    · exact calm_refl w
    · exact ⟨rfl, rfl, Nat.le_refl _, rfl, fun s hs => List.mem_cons_of_mem _ hs⟩
  | now => exact ⟨rfl, rfl, Nat.le_refl _, rfl, fun s hs => List.mem_cons_of_mem _ hs⟩
  | sleep ms => exact ⟨rfl, rfl, Nat.le_add_right _ _, rfl, fun s hs => hs⟩
  | cmdline pid => exact calm_noted w _ _
  | tasks pid => exact calm_noted w _ _
  | pidfdOpen pid =>
    obtain ⟨hmachine, hunits, hclock, hbeats, hseen⟩ :=
      calm_noted { w with opened := pid :: w.opened } (w.machine.pidfdOpen pid) fun fd => .opened fd w.machine
    exact ⟨hmachine, hunits, hclock, hbeats, hseen⟩
  | readText path =>
    simp only [exec]
    split <;> exact calm_refl w
  | unlink path =>
    simp only [exec]
    split
    · exact calm_refl w
    · exact ⟨rfl, rfl, Nat.le_refl _, rfl, fun s hs => hs⟩
  | send fd signal => cases ho
  | _ => exact ⟨rfl, rfl, Nat.le_refl _, rfl, fun s hs => hs⟩

theorem exec_send_machine (fd : PidFd) (signal : Signal) (w : World) :
    (exec (.send fd signal) w).2.machine = (w.machine.send fd signal).2 := noted_machine

theorem exec_seen {β : Type} (o : Op β) (w : World) : ∀ s ∈ w.seen, s ∈ (exec o w).2.seen := by
  cases o with
  | send fd signal => exact fun s hs => noted_seen hs
  | _ => exact (calm_exec _ rfl w).seen

section Kept

variable (others : ℕ → Prop) (mine : String → Prop)

/-- Neither the others nor an operation that signals nothing changes an assertion. -/
structure Kept (P : World → Prop) : Prop where
  others : ∀ w w', Rely others mine w w' → P w → P w'
  calm : ∀ w w', Calm w w' → P w → P w'

variable {others mine} {P P' : World → Prop}

theorem Kept.stable (h : Kept others mine P) (faults : Faults) : Stable (system others mine faults) P := h.others

theorem Kept.and (h : Kept others mine P) (h' : Kept others mine P') : Kept others mine (fun w => P w ∧ P' w) :=
  ⟨fun w w' hr hw => ⟨h.others w w' hr hw.1, h'.others w w' hr hw.2⟩,
    fun w w' hc hw => ⟨h.calm w w' hc hw.1, h'.calm w w' hc hw.2⟩⟩

theorem Kept.const (p : Prop) : Kept others mine (fun _ => p) :=
  ⟨fun _ _ _ h => h, fun _ _ _ h => h⟩

theorem Kept.imp {p : Prop} (h : Kept others mine P) : Kept others mine (fun w => p → P w) :=
  ⟨fun w w' hr hw hp => h.others w w' hr (hw hp), fun w w' hc hw hp => h.calm w w' hc (hw hp)⟩

theorem Kept.all {γ : Sort*} {P : γ → World → Prop} (h : ∀ x, Kept others mine (P x)) :
    Kept others mine (fun w => ∀ x, P x w) :=
  ⟨fun w w' hr hw x => (h x).others w w' hr (hw x), fun w w' hc hw x => (h x).calm w w' hc (hw x)⟩

theorem Kept.ex {γ : Type} {P : γ → World → Prop} (h : ∀ x, Kept others mine (P x)) :
    Kept others mine (fun w => ∃ x, P x w) :=
  ⟨fun w w' hr ⟨x, hx⟩ => ⟨x, (h x).others w w' hr hx⟩, fun w w' hc ⟨x, hx⟩ => ⟨x, (h x).calm w w' hc hx⟩⟩

/-- An assertion on what has been noted, which more notes keep. -/
def Lasting (F : World → Prop) : Prop := ∀ ⦃w w'⦄, (∀ s ∈ w.seen, s ∈ w'.seen) → F w → F w'

theorem Lasting.kept {F : World → Prop} (h : Lasting F) : Kept others mine F :=
  ⟨fun _ _ hr => h (by simp [hr.seen]), fun _ _ hc => h hc.seen⟩

theorem lasting_opened (fd : PidFd) : Lasting (Opened fd) :=
  fun _ _ hseen ⟨m, p, hm, hp⟩ => ⟨m, p, hseen _ hm, hp⟩

theorem lasting_stopSent (fd : PidFd) : Lasting (StopSent fd) := fun _ _ hseen ⟨m, hm⟩ => ⟨m, hseen _ hm⟩

theorem lasting_threadsListed (fd : PidFd) (listed : List ℕ) : Lasting (ThreadsListed fd listed) :=
  fun _ _ hseen ⟨m, hm, hp⟩ => ⟨m, hseen _ hm, hp⟩

theorem lasting_frozen (fd : PidFd) (listed : List ℕ) : Lasting (Frozen fd listed) :=
  fun _ _ hseen h => ⟨lasting_opened fd hseen h.opened, lasting_stopSent fd hseen h.stopped,
    lasting_threadsListed fd listed hseen h.threads, h.nonempty⟩

theorem kept_clock (n : ℕ) : Kept others mine (fun w => n ≤ w.clock) :=
  ⟨fun _ _ hr hw => hw.trans hr.clock, fun _ _ hc hw => hw.trans hc.clock⟩

theorem kept_sound : Kept others mine (fun w => Sound w.machine) where
  others := by
    intro w w' hr hw
    rcases hr.machine with hsame | hmove
    · rwa [hsame]
    · exact hw.move hmove
  calm := fun w w' hc hw => hc.machine ▸ hw

theorem kept_last (pid n : ℕ) : Kept others mine (fun w => n ≤ w.machine.last pid) where
  others := by
    intro w w' hr hw
    rcases hr.machine with hsame | hmove
    · rwa [hsame]
    · exact hw.trans (hmove.last pid)
  calm := fun w w' hc hw => hc.machine ▸ hw

theorem kept_loose {pid : ℕ} (hheld : ¬ others pid) : Kept others mine (fun w => Loose pid w.machine) where
  others := by
    intro w w' hr hw
    rcases hr.machine with hsame | hmove
    · rwa [hsame]
    · exact hw.move hmove hheld
  calm := fun w w' hc hw => hc.machine ▸ hw

theorem kept_allLoose : Kept others mine (AllLoose others) where
  others := fun w w' hr hw =>
    ⟨kept_sound.others w w' hr hw.1, fun pid hheld => (kept_loose hheld).others w w' hr (hw.2 pid hheld)⟩
  calm := by
    intro w w' hc hw
    obtain ⟨hsound, hloose⟩ := hw
    exact ⟨hc.machine ▸ hsound, hc.machine ▸ hloose⟩

theorem kept_looseBut {fd : PidFd} (hheld : ¬ others fd.pid) : Kept others mine (LooseBut others fd) where
  others := by
    intro w w' hr hw
    refine ⟨(lasting_opened fd).kept.others w w' hr hw.opened, kept_sound.others w w' hr hw.sound, ?_,
      fun pid hpid hne => ?_⟩
    · rcases hr.machine with hsame | hmove
      · rw [hsame]
        exact hw.own
      · exact hw.own.move hmove hheld
    · exact (kept_loose hpid).others w w' hr (hw.rest pid hpid hne)
  calm := by
    intro w w' hc hw
    obtain ⟨hopened, hsound, hown, hrest⟩ := hw
    exact ⟨lasting_opened fd hc.seen hopened, hc.machine ▸ hsound, hc.machine ▸ hown, hc.machine ▸ hrest⟩

/-- Both ends of an attempt that may have lost its continue signal. -/
theorem kept_left (faults : Faults) : Kept others mine (Left others faults) where
  others := by
    rintro w w' hr (hw | ⟨hlost, fd, hheld, hw⟩)
    · exact .inl (kept_allLoose.others w w' hr hw)
    · exact .inr ⟨hlost, fd, hheld, (kept_looseBut hheld).others w w' hr hw⟩
  calm := by
    rintro w w' hc (hw | ⟨hlost, fd, hheld, hw⟩)
    · have hloose : Kept others mine (AllLoose others) := kept_allLoose
      exact .inl (hloose.calm w w' hc hw)
    · have hbut : Kept others mine (LooseBut others fd) := kept_looseBut hheld
      exact .inr ⟨hlost, fd, hheld, hbut.calm w w' hc hw⟩

/-! ### The watched process -/

/-- What every move keeps of a process that nobody else signals. -/
def Persistent (pid : ℕ) (Φ : Machine → Proc → Prop) : Prop :=
  ∀ ⦃m m' p p'⦄, Evolves m m' pid p p' → Φ m p → Φ m' p'

/-- The process of the descriptor has been there, and `Φ` holds of it as long as it is. -/
structure Holds (others : ℕ → Prop) (fd : PidFd) (Φ : Machine → Proc → Prop) (w : World) : Prop
    extends LooseBut others fd w where
  last : fd.start ≤ w.machine.last fd.pid
  during : During fd.pid fd.start Φ w.machine

variable {fd : PidFd} {Φ Ψ : Machine → Proc → Prop}

theorem kept_holds (hheld : ¬ others fd.pid) (hΦ : Persistent fd.pid Φ) : Kept others mine (Holds others fd Φ) where
  others := by
    intro w w' hr hw
    refine ⟨(kept_looseBut hheld).others w w' hr hw.toLooseBut, (kept_last _ _).others w w' hr hw.last, ?_⟩
    rcases hr.machine with hsame | hmove
    · rw [hsame]
      exact hw.during
    · exact hw.during.move hmove hheld hw.last (fun hevolves hp => hΦ hevolves hp)
  calm := by
    intro w w' hc hw
    obtain ⟨hw, hlast, hduring⟩ := hw
    have hbut : Kept others mine (LooseBut others fd) := kept_looseBut hheld
    exact ⟨hbut.calm w w' hc hw, hc.machine ▸ hlast, hc.machine ▸ hduring⟩

theorem Holds.add {w : World} (h : Holds others fd Φ w) (hΨ : During fd.pid fd.start Ψ w.machine) :
    Holds others fd (fun m p => Φ m p ∧ Ψ m p) w :=
  ⟨h.toLooseBut, h.last, h.during.and hΨ⟩

theorem Holds.mono {w : World} (h : Holds others fd Φ w) (himp : ∀ p, Φ w.machine p → Ψ w.machine p) :
    Holds others fd Ψ w :=
  ⟨h.toLooseBut, h.last, h.during.mono himp⟩

theorem Persistent.and (h : Persistent fd.pid Φ) (h' : Persistent fd.pid Ψ) :
    Persistent fd.pid (fun m p => Φ m p ∧ Ψ m p) :=
  fun _ _ _ _ hevolves hp => ⟨h hevolves hp.1, h' hevolves hp.2⟩

theorem persistent_stopping : Persistent fd.pid (fun _ p => p.stopping = true) :=
  fun _ _ _ _ hevolves hp => hevolves.stopping.trans hp

theorem persistent_stopped (listed : List ℕ) : Persistent fd.pid (fun _ p => ∀ t ∈ listed, p.threads t = .stopped) :=
  fun _ _ _ _ hevolves hp t ht => hevolves.stopped (hp t ht)

theorem persistent_listed (listed : List ℕ) : Persistent fd.pid (Listed listed fd.pid) :=
  fun _ _ _ _ hevolves hp => hevolves.keepListed hp

theorem persistent_frozen (listed : List ℕ) : Persistent fd.pid (Halted listed fd.pid) :=
  fun _ _ _ _ hevolves hp => hevolves.frozen hp

/-- A quiet process that so many of its children are known of. -/
theorem persistent_kids {listed : List ℕ} (A : ℕ → ℕ → Prop) :
    Persistent fd.pid (fun m p => Quiet listed fd.pid m p ∧ ∀ c t, Kid m c fd.pid t → A c t) :=
  fun _ _ _ _ hevolves hp => ⟨hevolves.quiet hp.1, fun c t hkid => hp.2 c t (hevolves.kid hp.1 hkid)⟩

theorem persistent_cmdline {listed : List ℕ} (A : List String → Prop) :
    Persistent fd.pid (fun m p => Halted listed fd.pid m p ∧ A p.cmdline) :=
  fun _ _ _ _ hevolves hp => ⟨hevolves.frozen hp.1, hevolves.cmdline hp.1.stopping ▸ hp.2⟩

end Kept

/-! ## The operations -/

section Triples

variable {others : ℕ → Prop} {mine : String → Prop} {faults : Faults} {spec : Spec} {β : Type} {P : World → Prop}
  {E : Err → World → Prop}

/-- An operation that signals nothing, from an assertion that is kept. -/
theorem triple_read {o : Op β} {R : β → World → Prop} (hcalm : o.signals = false) (hP : Kept others mine P)
    (hguard : ∀ w, P w → guard spec β o w) (hR : ∀ b, Kept others mine (R b))
    (hok : ∀ w b, P w → (exec o w).1 = .ok b → R b (exec o w).2) (hE : ∀ e, Kept others mine (E e))
    (herror : ∀ e w, P w → E e w) : Triple (system others mine faults) (guard spec) P (perform o) R E := by
  refine .perform (hP.stable faults) hguard (fun w b w' hw hown => ?_) (fun w e w' hw hown => ?_)
    (fun b => (hR b).stable faults) (fun e => (hE e).stable faults)
  · have hexec : exec o w = (.ok b, w') := hown.ok
    have hres := hok w b hw (congrArg Prod.fst hexec)
    rwa [hexec] at hres
  · rcases hown.error with ⟨rfl, -⟩ | ⟨rfl, -⟩
    · exact herror e _ (hP.calm w _ (calm_exec o hcalm w) hw)
    · exact herror e w' hw

/-- One that need say nothing of its value. -/
theorem triple_calm {o : Op β} (hcalm : o.signals = false) (hP : Kept others mine P)
    (hguard : ∀ w, P w → guard spec β o w) (hE : ∀ e, Kept others mine (E e)) (herror : ∀ e w, P w → E e w) :
    Triple (system others mine faults) (guard spec) P (perform o) (fun _ => P) E :=
  triple_read hcalm hP hguard (fun _ => hP) (fun w _ hw _ => hP.calm w _ (calm_exec o hcalm w) hw) hE herror

theorem triple_ofExcept (r : Except Err β) (hP : Kept others mine P)
    (herror : ∀ e w, P w → E e w) :
    Triple (system others mine faults) (guard spec) P (ofExcept r) (fun b w => r = .ok b ∧ P w) E := by
  cases r with
  | ok b => exact .pure (hP.stable faults) fun w hw => ⟨rfl, hw⟩
  | error e => exact .raise (hP.stable faults) fun w hw => herror e w hw

/-- Who a process is: its command line first, then when it started. -/
theorem triple_processIdentity {R : ℕ → World → Prop} {flags : List (String × String)} {pid : ℕ}
    {A : List String → World → Prop} (hP : Kept others mine P) (hA : ∀ command, Kept others mine (A command))
    (hR : ∀ g, Kept others mine (R g))
    (hcmdline : ∀ w command, P w → w.machine.cmdline pid = .ok command →
      A command { w with seen := .command pid command w.machine :: w.seen })
    (hstart : ∀ w command g, P w → A command w → supervises flags command = true → w.machine.startTime pid = .ok g →
      R g w)
    (hE : ∀ e, Kept others mine (E e)) (herror : ∀ e w, P w → E e w) :
    Triple (system others mine faults) (guard spec) P (processIdentity flags pid) R E := by
  refine .bind (R := fun command w => P w ∧ A command w) (triple_read rfl hP (fun _ _ => trivial)
    (fun command => hP.and (hA command)) (fun w command hw h => ⟨hP.calm w _ (calm_exec _ rfl w) hw, ?_⟩) hE herror)
    fun command => ?_
  · obtain ⟨hcommand, hnoted⟩ := noted_ok h
    show A command (noted w _ _).2
    rw [hnoted]
    exact hcmdline w _ hw hcommand
  split
  · exact .raise ((hP.and (hA command)).stable faults) fun w hw => herror _ w hw.1
  · rename_i hsupervises
    refine triple_read rfl (hP.and (hA command)) (fun _ _ => trivial) hR (fun w g hw h => ?_) hE
      fun e w hw => herror e w hw.1
    exact hstart w command g hw.1 hw.2 (by simpa using hsupervises) (readProc_ok h)

/-- What has been noted stays noted. -/
theorem triple_lasting {α : Type} {p : Script Op Err α} {Q : α → World → Prop} {F : World → Prop}
    (h : Triple (system others mine faults) (guard spec) P p Q E) (hF : Lasting F) :
    Triple (system others mine faults) (guard spec) (fun w => P w ∧ F w) p (fun a w => Q a w ∧ F w) E := by
  refine (h.frame (hF.kept.stable faults) fun {β o w r w'} hw hown => ?_).weaken (fun _ hw => hw) (fun _ _ hw => hw)
    fun _ _ hw => hw.1
  cases hown with
  | done => exact hF (exec_seen o w) hw
  | fails => exact hw
  | failsLate => exact hF (exec_seen o w) hw

/-- An operation that signals nothing, ends nothing and is reached. -/
def Op.harmless : {β : Type} → Op β → Prop
  | _, .send _ _ | _, .stopUnit _ | _, .unreachable => False
  | _, _ => True

theorem Op.harmless_of_reads {β : Type} (o : Op β) (h : o.reads = true) : o.harmless := by
  cases o <;> trivial

/-- A program that only looks, or writes files, keeps what is kept. -/
theorem triple_harmless {α : Type} {p : Script Op Err α} (hp : p.Only fun _ o => o.harmless) (hP : Kept others mine P) :
    Triple (system others mine faults) (guard spec) P p (fun _ => P) (fun _ => P) := by
  have hsignals : ∀ {β : Type} (o : Op β), o.harmless → o.signals = false := by
    intro β o ho
    cases o <;> first | rfl | exact ho.elim
  refine .of_only hp (hP.stable faults) (fun β o w ho _ => ?_) fun β o w r w' ho hw hown => ?_
  · cases o <;> first | exact trivial | exact ho.elim
  · cases hown with
    | done => exact hP.calm w _ (calm_exec o (hsignals o ho) w) hw
    | fails => exact hw
    | failsLate => exact hP.calm w _ (calm_exec o (hsignals o ho) w) hw

theorem triple_looks {α : Type} {p : Script Op Err α} (hp : p.Only fun _ o => o.harmless) :
    Triple (system others mine faults) (guard spec) (AllLoose others) p (fun _ => AllLoose others)
      (fun _ => Left others faults) :=
  (triple_harmless hp kept_allLoose).weaken (fun _ hw => hw) (fun _ _ hw => hw) fun _ _ hw => .inl hw

/-! ## Standing still -/

variable {fd : PidFd} {Φ : Machine → Proc → Prop}

theorem kept_clock_lt (limit k : ℕ) : Kept others mine (fun w => limit < w.clock + k) :=
  ⟨fun w w' hr hw => by have := hr.clock; omega, fun w w' hc hw => by have := hc.clock; omega⟩

/-- What is left when an attempt comes to nothing. -/
theorem kept_but (hheld : ¬ others fd.pid) (e : Err) : Kept others mine (fun w => (fun _ => LooseBut others fd w) e) :=
  kept_looseBut hheld

theorem triple_allStopped (hheld : ¬ others fd.pid) (hΦ : Persistent fd.pid Φ) (hP : Kept others mine P)
    (ts : List ℕ) :
    Triple (system others mine faults) (guard spec) (fun w => Holds others fd Φ w ∧ P w) (allStopped fd.pid ts)
      (fun b w => (Holds others fd Φ w ∧ P w) ∧
        (b = true → Holds others fd (fun m p => Φ m p ∧ ∀ t ∈ ts, p.threads t = .stopped) w))
      (fun _ => LooseBut others fd) := by
  have hpre : ∀ {Φ : Machine → Proc → Prop}, Persistent fd.pid Φ →
      Kept others mine (fun w => Holds others fd Φ w ∧ P w) := fun hΦ => (kept_holds hheld hΦ).and hP
  induction ts generalizing Φ with
  | nil =>
    refine .pure ((hpre hΦ).stable faults) fun w hw => ⟨hw, fun _ => hw.1.mono fun p hp => ⟨hp, ?_⟩⟩
    exact fun t ht => nomatch ht
  | cons t ts ih =>
    have hone : Persistent fd.pid (fun m p => Φ m p ∧ p.threads t = .stopped) :=
      hΦ.and fun _ _ _ _ hevolves hp => hevolves.stopped hp
    refine .bind (R := fun b w => (Holds others fd Φ w ∧ P w) ∧
      (b = true → Holds others fd (fun m p => Φ m p ∧ p.threads t = .stopped) w)) ?_ fun b => ?_
    · refine triple_read rfl (hpre hΦ) (fun _ _ => trivial)
        (fun b => (hpre hΦ).and (kept_holds hheld hone).imp) (fun w b hw h => ⟨hw, ?_⟩) (kept_but hheld)
        fun _ w hw => hw.1.toLooseBut
      rintro rfl
      exact hw.1.add (threadStopped_ok (readProc_ok h))
    · split
      · refine ((ih hone).pre fun w hw => ⟨hw.2 ‹_›, hw.1.2⟩).weaken (fun _ hw => hw) (fun b w hw => ?_) fun _ _ hw => hw
        refine ⟨⟨hw.1.1.mono fun p hp => hp.1, hw.1.2⟩, fun hb => (hw.2 hb).mono fun p hp => ⟨hp.1.1, ?_⟩⟩
        intro u hu
        rcases List.mem_cons.1 hu with rfl | hu
        · exact hp.1.2
        · exact hp.2 u hu
      · refine .pure (((hpre hΦ).and (kept_holds hheld hone).imp).stable faults) fun w hw => ⟨hw.1, ?_⟩
        exact fun hb => nomatch hb

variable {α : Type}

/-- What the wait for the stop ends with: the threads it listed, all of them stopped, or nothing. -/
def Awaited (others : ℕ → Prop) (fd : PidFd) : Option (List ℕ) → World → Prop
  | none, w => LooseBut others fd w
  | some listed, w => Holds others fd (Quiet listed fd.pid) w ∧ ThreadsListed fd listed w ∧ listed ≠ []

/-- One round, if the rounds behind it end as they should from a later time. -/
theorem triple_round (s : Steps α) (hheld : ¬ others fd.pid) (limit n : ℕ)
    (hrest : Triple (system others mine faults) (guard spec)
      (fun w => Holds others fd (fun _ p => p.stopping = true) w ∧ limit + 10 < w.clock + 10 * n ∧ 0 < n)
      (awaitFrozen s fd.pid limit n)
      (Awaited others fd)
      (fun _ => LooseBut others fd)) :
    Triple (system others mine faults) (guard spec)
      (fun w => Holds others fd (fun _ p => p.stopping = true) w ∧ limit < w.clock + 10 * n)
      (awaitFrozen s fd.pid limit (n + 1))
      (Awaited others fd)
      (fun _ => LooseBut others fd) := by
  have hbut : Kept others mine (LooseBut others fd) := kept_looseBut hheld
  have hpre : Kept others mine
      (fun w => Holds others fd (fun _ p => p.stopping = true) w ∧ limit < w.clock + 10 * n) :=
    (kept_holds hheld persistent_stopping).and (kept_clock_lt limit _)
  have hlisted : ∀ listed, Kept others mine
      (fun w => Holds others fd (Listed listed fd.pid) w ∧ limit < w.clock + 10 * n ∧ ThreadsListed fd listed w) :=
    fun listed => (kept_holds hheld (persistent_listed listed)).and
      ((kept_clock_lt limit _).and (lasting_threadsListed fd listed).kept)
  -- the wait between two rounds
  have hwait : Triple (system others mine faults) (guard spec)
      (fun w => Holds others fd (fun _ p => p.stopping = true) w ∧ limit < w.clock + 10 * n)
      (do let now ← perform .monotonic
          if limit < now || (s.atLimit && limit == now) then return none
          else do
            perform (.sleep 10)
            awaitFrozen s fd.pid limit n)
      (Awaited others fd)
      (fun _ => LooseBut others fd) := by
    refine .bind (R := fun now w => (Holds others fd (fun _ p => p.stopping = true) w ∧ limit < w.clock + 10 * n) ∧
      limit < now + 10 * n) ?_ fun now => ?_
    · exact triple_read rfl hpre (fun _ _ => trivial) (fun now => hpre.and (.const _))
        (fun w now hw h => ⟨hw, Except.ok.inj h ▸ hw.2⟩) (fun _ => hbut) fun _ w hw => hw.1.toLooseBut
    · split
      · exact .pure ((hpre.and (.const _)).stable faults) fun w hw => hw.1.1.toLooseBut
      · rename_i hearly
        simp only [Bool.or_eq_true, decide_eq_true_eq, not_or] at hearly
        refine .bind (R := fun _ w => Holds others fd (fun _ p => p.stopping = true) w ∧
          limit + 10 < w.clock + 10 * n ∧ 0 < n) ?_ fun _ => hrest
        refine triple_read rfl (hpre.and (.const _)) (fun _ _ => trivial)
          (fun _ => (kept_holds hheld persistent_stopping).and ((kept_clock_lt (limit + 10) _).and (.const _)))
          (fun w _ hw _ => ⟨?_, ?_, ?_⟩) (fun _ => hbut) fun _ w hw => hw.1.1.toLooseBut
        · exact (kept_holds hheld persistent_stopping : Kept others mine _).calm w _ (calm_exec _ rfl w) hw.1.1
        · have hclock := hw.1.2
          show limit + 10 < w.clock + 10 + 10 * n
          omega
        · have hlater := hw.2
          omega
  unfold awaitFrozen
  refine .bind (R := fun listed w => Holds others fd (Listed listed fd.pid) w ∧ limit < w.clock + 10 * n ∧
    ThreadsListed fd listed w) ?_ fun listed => ?_
  · refine triple_read rfl hpre (fun _ _ => trivial) hlisted (fun w listed hw h => ?_) (fun _ => hbut)
      fun _ w hw => hw.1.toLooseBut
    obtain ⟨htasks, hnoted⟩ := noted_ok h
    have hbefore : Holds others fd (Listed listed fd.pid) w :=
      ⟨hw.1.toLooseBut, hw.1.last, tasks_ok hw.1.sound htasks hw.1.during⟩
    have hcalm := calm_noted w (w.machine.tasks fd.pid) fun listed => .threads fd.pid listed w.machine
    refine ⟨(kept_holds hheld (persistent_listed listed) : Kept others mine _).calm w _ hcalm hbefore,
      (kept_clock_lt limit _ : Kept others mine _).calm w _ hcalm hw.2, w.machine, ?_, htasks, hw.1.during⟩
    show _ ∈ (noted w _ _).2.seen
    rw [hnoted]
    exact List.mem_cons_self
  split
  · exact .pure ((hlisted listed).stable faults) fun w hw => hw.1.toLooseBut
  refine .bind (R := fun b w => (Holds others fd (Listed listed fd.pid) w ∧ limit < w.clock + 10 * n ∧
    ThreadsListed fd listed w) ∧ (b = true → listed ≠ [] ∧ Holds others fd
      (fun m p => Listed listed fd.pid m p ∧ ∀ t ∈ listed, p.threads t = .stopped) w)) ?_ fun stopped => ?_
  · split
    · exact .pure ((hlisted listed).stable faults) fun w hw => ⟨hw, fun hb => nomatch hb⟩
    · rename_i hsome
      have hnonempty : listed ≠ [] := fun hnil => hsome (List.isEmpty_iff.2 hnil)
      exact (triple_allStopped hheld (persistent_listed listed)
        ((kept_clock_lt limit _).and (lasting_threadsListed fd listed).kept) listed).weaken (fun _ hw => hw)
        (fun b w hw => ⟨hw.1, fun hb => ⟨hnonempty, hw.2 hb⟩⟩) fun _ _ hw => hw
  split
  · refine .pure (((hlisted listed).and (((Kept.const _).and (kept_holds hheld
      ((persistent_listed listed).and (persistent_stopped listed)))).imp)).stable faults) fun w hw => ?_
    obtain ⟨hnonempty, hstopped⟩ := hw.2 ‹_›
    exact ⟨hstopped.mono fun p hp => quiet_of_stopped hp.1 hp.2, hw.1.2.2, hnonempty⟩
  · exact hwait.pre fun w hw => ⟨hw.1.1.mono fun p hp => hp.1, hw.1.2.1⟩

/-- **The rounds are enough**: the loop ends by itself, and when it ends well every thread it listed has stopped. -/
theorem triple_awaitFrozen (s : Steps α) (hheld : ¬ others fd.pid) (limit rounds : ℕ) :
    Triple (system others mine faults) (guard spec)
      (fun w => Holds others fd (fun _ p => p.stopping = true) w ∧ limit < w.clock + 10 * rounds)
      (awaitFrozen s fd.pid limit (rounds + 1))
      (Awaited others fd)
      (fun _ => LooseBut others fd) := by
  induction rounds with
  | zero =>
    refine triple_round s hheld limit 0 fun w hw => ?_
    omega
  | succ n ih =>
    refine triple_round s hheld limit (n + 1) fun w hw => ih w ⟨hw.1, ?_⟩
    omega

/-! ## Without a child -/

/-- A quiet process, and what is known of its children and the threads they hang on. -/
def Kids (listed : List ℕ) (pid : ℕ) (A : ℕ → ℕ → Prop) (m : Machine) (p : Proc) : Prop :=
  Quiet listed pid m p ∧ ∀ c t, Kid m c pid t → A c t

theorem kept_kids (hheld : ¬ others fd.pid) (listed : List ℕ) (A : ℕ → ℕ → Prop) :
    Kept others mine (Holds others fd (Kids listed fd.pid A)) :=
  kept_holds hheld (persistent_kids A)

/-- Children looked at one by one: if none of them is live then none is among those left. -/
theorem triple_liveChildren_go (hheld : ¬ others fd.pid) (listed : List ℕ) (A : ℕ → ℕ → Prop) (children : List ℕ) :
    Triple (system others mine faults) (guard spec) (Holds others fd (Kids listed fd.pid A))
      (liveChildren.go children)
      (fun live w => Holds others fd (Kids listed fd.pid A) w ∧
        (live = [] → Holds others fd (Kids listed fd.pid fun c t => A c t ∧ c ∉ children) w))
      (fun _ => LooseBut others fd) := by
  have hkids : ∀ A, Kept others mine (Holds others fd (Kids listed fd.pid A)) := kept_kids hheld listed
  induction children generalizing A with
  | nil =>
    refine .pure ((hkids A).stable faults) fun w hw => ⟨hw, fun _ => hw.mono fun p hp => ⟨hp.1, fun c t hk => ?_⟩⟩
    exact ⟨hp.2 c t hk, List.not_mem_nil⟩
  | cons child rest ih =>
    have hmore : ∀ c, Triple (system others mine faults) (guard spec) (Holds others fd (Kids listed fd.pid A))
        (do return c :: (← liveChildren.go rest))
        (fun live w => Holds others fd (Kids listed fd.pid A) w ∧
          (live = [] → Holds others fd (Kids listed fd.pid fun c t => A c t ∧ c ∉ child :: rest) w))
        (fun _ => LooseBut others fd) := by
      intro c
      refine (ih A).bind fun live => .pure (((hkids A).and (hkids _).imp).stable faults) fun w hw => ⟨hw.1, ?_⟩
      exact fun h => nomatch h
    refine .bind (R := fun r w => Holds others fd (Kids listed fd.pid A) w ∧
      (r = .ok true → Holds others fd (Kids listed fd.pid fun c t => A c t ∧ c ≠ child) w)) ?_ fun r => ?_
    · refine (Triple.attempt (triple_read (o := .ended child) (E := fun _ => Holds others fd (Kids listed fd.pid A))
        (R := fun b w => Holds others fd (Kids listed fd.pid A) w ∧
          (b = true → Holds others fd (Kids listed fd.pid fun c t => A c t ∧ c ≠ child) w)) rfl (hkids A)
        (fun _ _ => trivial) (fun b => (hkids A).and (hkids _).imp) (fun w b hw h => ⟨hw, ?_⟩) (fun _ => hkids A)
        fun _ w hw => hw)).weaken (fun _ hw => hw) (fun r w hw => ?_) fun _ _ hw => hw
      · rintro rfl
        refine hw.mono fun p hp => ⟨hp.1, fun c t hk => ⟨hp.2 c t hk, ?_⟩⟩
        rintro rfl
        exact ended_ok (readProc_ok h) hk
      · cases r with
        | ok b => exact ⟨hw.1, fun h => hw.2 (Except.ok.inj h)⟩
        | error e => exact ⟨hw, fun h => nomatch h⟩
    · match r with
      | .ok true =>
        refine ((ih _).pre fun w hw => hw.2 rfl).weaken (fun _ hw => hw) (fun live w hw => ⟨?_, fun h => ?_⟩)
          fun _ _ hw => hw
        · exact hw.1.mono fun p hp => ⟨hp.1, fun c t hk => (hp.2 c t hk).1⟩
        · refine (hw.2 h).mono fun p hp => ⟨hp.1, fun c t hk => ?_⟩
          obtain ⟨⟨hA, hne⟩, hmem⟩ := hp.2 c t hk
          exact ⟨hA, by simp [hne, hmem]⟩
      | .ok false => exact (hmore child).pre fun w hw => hw.1
      | .error e =>
        show Triple _ _ _ (if e.isOs then _ else _) _ _
        split
        · exact (hmore child).pre fun w hw => hw.1
        · exact .raise (((hkids A).and (hkids _).imp).stable faults) fun w hw => hw.1.toLooseBut

theorem triple_liveChildren (hheld : ¬ others fd.pid) (listed : List ℕ) (A : ℕ → ℕ → Prop) (tid : ℕ) :
    Triple (system others mine faults) (guard spec) (Holds others fd (Kids listed fd.pid A))
      (liveChildren fd.pid tid)
      (fun live w => Holds others fd (Kids listed fd.pid A) w ∧
        (live = [] → Holds others fd (Kids listed fd.pid fun c t => A c t ∧ t ≠ tid) w))
      (fun _ => LooseBut others fd) := by
  have hkids : ∀ A, Kept others mine (Holds others fd (Kids listed fd.pid A)) := kept_kids hheld listed
  refine .bind (R := fun children => Holds others fd (Kids listed fd.pid fun c t => A c t ∧ (t = tid → c ∈ children)))
    ?_ fun children => ?_
  · refine triple_read rfl (hkids A) (fun _ _ => trivial) (fun _ => hkids _) (fun w children hw h => ?_)
      (fun _ => kept_looseBut hheld) fun _ w hw => hw.toLooseBut
    refine (hw.add (children_ok hw.sound (readProc_ok h))).mono fun p hp => ⟨hp.1.1, fun c t hk => ⟨hp.1.2 c t hk, ?_⟩⟩
    rintro rfl
    exact hp.2 c hk
  · refine (triple_liveChildren_go hheld listed _ children).weaken (fun _ hw => hw) (fun live w hw => ⟨?_, fun h => ?_⟩)
      fun _ _ hw => hw
    · exact hw.1.mono fun p hp => ⟨hp.1, fun c t hk => (hp.2 c t hk).1⟩
    · refine (hw.2 h).mono fun p hp => ⟨hp.1, fun c t hk => ?_⟩
      obtain ⟨⟨hA, hmem⟩, hnot⟩ := hp.2 c t hk
      exact ⟨hA, fun htid => hnot (hmem htid)⟩

theorem triple_anyLiveChild (hheld : ¬ others fd.pid) (listed : List ℕ) (A : ℕ → ℕ → Prop) (ts : List ℕ) :
    Triple (system others mine faults) (guard spec) (Holds others fd (Kids listed fd.pid A))
      (anyLiveChild fd.pid ts)
      (fun live w => Holds others fd (Kids listed fd.pid A) w ∧
        (live = false → Holds others fd (Kids listed fd.pid fun c t => A c t ∧ t ∉ ts) w))
      (fun _ => LooseBut others fd) := by
  have hkids : ∀ A, Kept others mine (Holds others fd (Kids listed fd.pid A)) := kept_kids hheld listed
  induction ts generalizing A with
  | nil =>
    refine .pure ((hkids A).stable faults) fun w hw => ⟨hw, fun _ => hw.mono fun p hp => ⟨hp.1, fun c t hk => ?_⟩⟩
    exact ⟨hp.2 c t hk, List.not_mem_nil⟩
  | cons tid rest ih =>
    refine (triple_liveChildren hheld listed A tid).bind fun live => ?_
    split
    · rename_i hempty
      refine ((ih _).pre fun w hw => hw.2 (List.isEmpty_iff.1 hempty)).weaken (fun _ hw => hw)
        (fun b w hw => ⟨?_, fun h => ?_⟩) fun _ _ hw => hw
      · exact hw.1.mono fun p hp => ⟨hp.1, fun c t hk => (hp.2 c t hk).1⟩
      · refine (hw.2 h).mono fun p hp => ⟨hp.1, fun c t hk => ?_⟩
        obtain ⟨⟨hA, hne⟩, hmem⟩ := hp.2 c t hk
        exact ⟨hA, by simp [hne, hmem]⟩
    · refine .pure (((hkids A).and (hkids _).imp).stable faults) fun w hw => ⟨hw.1, ?_⟩
      exact fun h => nomatch h

/-- **Nothing of the worker is left to act** once all its threads have been listed, seen to have stopped and seen without
a live child. -/
theorem triple_childless (hheld : ¬ others fd.pid) (listed : List ℕ) :
    Triple (system others mine faults) (guard spec) (Holds others fd (Quiet listed fd.pid))
      (anyLiveChild fd.pid listed)
      (fun live w => LooseBut others fd w ∧ (live = false → Holds others fd (Halted listed fd.pid) w))
      (fun _ => LooseBut others fd) := by
  refine (triple_anyLiveChild hheld listed (fun _ _ => True) listed).weaken
    (fun w hw => hw.mono fun p hp => ⟨hp, fun _ _ _ => trivial⟩) (fun live w hw => ⟨hw.1.toLooseBut, fun h => ?_⟩)
    fun _ _ hw => hw
  refine (hw.2 h).mono fun p hp => ⟨hp.1, fun c t hk => ?_⟩
  exact hp.1.kids (hp.2 c t hk).2 hk

/-! ## The whole attempt -/

/-- A worker that may be told to end, with what keeps it so. -/
structure Ready (others : ℕ → Prop) (spec : Spec) (fd : PidFd) (listed : List ℕ) (w : World) : Prop
    extends LooseBut others fd w where
  last : fd.start ≤ w.machine.last fd.pid
  cleared : Cleared spec fd listed w

theorem kept_unit (hheld : ¬ others fd.pid) (u : String) :
    Kept others mine (fun w => fd.start ≤ w.machine.last fd.pid ∧
      During fd.pid fd.start (fun _ _ => (w.units u).mainPid = fd.pid) w.machine) where
  others := by
    intro w w' hr ⟨hlast, hunit⟩
    refine ⟨(kept_last _ _).others w w' hr hlast, fun p' hp' hstart halive => ?_⟩
    have hbefore : ∃ p, w.machine.procs fd.pid = some p ∧ p.start = fd.start ∧ p.zombie = false := by
      rcases hr.machine with hsame | hmove
      · exact ⟨p', hsame ▸ hp', hstart, halive⟩
      · rcases hmove.watched hheld hp' halive with ⟨p, hp, hevolves⟩ | ⟨hlate, -⟩
        · exact ⟨p, hp, hevolves.start.symm.trans hstart, hevolves.alive⟩
        · omega
    obtain ⟨p, hp, hpstart, hpalive⟩ := hbefore
    have hmain := hunit p hp hpstart hpalive
    rcases hr.units u with hsame | hended
    · exact hsame.trans hmain
    · rw [hmain] at hended
      cases hpalive.symm.trans (hended p hp)
  calm := by
    intro w w' hc ⟨hlast, hunit⟩
    rw [hc.machine, hc.units]
    exact ⟨hlast, hunit⟩

theorem kept_ready (hheld : ¬ others fd.pid) (listed : List ℕ) : Kept others mine (Ready others spec fd listed) := by
  have hunit : ∀ u, Kept others mine (fun w => fd.start ≤ w.machine.last fd.pid ∧
      During fd.pid fd.start (fun _ _ => (w.units u).mainPid = fd.pid) w.machine) := kept_unit hheld
  have hcommand : Kept others mine (Holds others fd (fun m p => Halted listed fd.pid m p ∧
      supervises spec.flags (p.cmdline ++ [""]) = true)) :=
    kept_holds hheld (persistent_cmdline fun command => supervises spec.flags (command ++ [""]) = true)
  have hboth : ∀ {w}, Ready others spec fd listed w → Holds others fd
      (fun m p => Halted listed fd.pid m p ∧ supervises spec.flags (p.cmdline ++ [""]) = true) w :=
    fun hw => ⟨hw.toLooseBut, hw.last, hw.cleared.frozen.and hw.cleared.supervises⟩
  refine ⟨fun w w' hr hw => ?_, fun w w' hc hw => ?_⟩
  · have hnew := hcommand.others w w' hr (hboth hw)
    refine ⟨hnew.toLooseBut, hnew.last, hnew.during.mono fun _ hp => hp.1, hnew.during.mono fun _ hp => hp.2,
      fun u hu => ((hunit u).others w w' hr ⟨hw.last, hw.cleared.unit u hu⟩).2, ?_⟩
    rw [hr.seen]
    exact hw.cleared.beat
  · have hnew := hcommand.calm w w' hc (hboth hw)
    refine ⟨hnew.toLooseBut, hnew.last, hnew.during.mono fun _ hp => hp.1, hnew.during.mono fun _ hp => hp.2,
      fun u hu => ((hunit u).calm w w' hc ⟨hw.last, hw.cleared.unit u hu⟩).2, ?_⟩
    obtain ⟨name, beat, m, m', now, hbeat, hnow, hrest⟩ := hw.cleared.beat
    exact ⟨name, beat, m, m', now, hc.seen _ hbeat, hc.seen _ hnow, hrest⟩

theorem kept_told (hheld : ¬ others fd.pid) (listed : List ℕ) :
    Kept others mine (fun w => Ready others spec fd listed w ∧ Frozen fd listed w) :=
  (kept_ready hheld listed).and (lasting_frozen fd listed).kept

/-- A command line read of some process of the id that is no older than the descriptor's. -/
def ReadSince (fd : PidFd) (command : List String) (w : World) : Prop :=
  ∃ m p, Seen.command fd.pid command m ∈ w.seen ∧ m.procs fd.pid = some p ∧ fd.start ≤ p.start ∧
    p.start ≤ w.machine.last fd.pid

theorem kept_readSince {command : List String} : Kept others mine (ReadSince fd command) where
  others := by
    rintro w w' hr ⟨m, p, hseen, hp, hlow, hhigh⟩
    exact ⟨m, p, hr.seen ▸ hseen, hp, hlow, (kept_last _ _).others w w' hr hhigh⟩
  calm := by
    rintro w w' hc ⟨m, p, hseen, hp, hlow, hhigh⟩
    exact ⟨m, p, hc.seen _ hseen, hp, hlow, hc.machine ▸ hhigh⟩

theorem lasting_identified (spec : Spec) (fd : PidFd) : Lasting (Identified spec fd) :=
  fun _ _ hseen ⟨command, m, p, hm, hrest⟩ => ⟨command, m, p, hseen _ hm, hrest⟩

/-- What the member of the family has to bring along for its own part. -/
structure Steps.Sound (s : Steps α) (spec : Spec) (others : ℕ → Prop) (mine : String → Prop) (faults : Faults)
    (pid : ℕ) : Prop where
  identity : s.identity = processIdentity spec.flags pid
  verify : ∀ fd generation listed, fd.pid = pid → Triple (system others mine faults) (guard spec)
    (Holds others fd (Halted listed fd.pid)) (s.verify generation)
    (fun b w => LooseBut others fd w ∧ (b = true → Ready others spec fd listed w)) (fun _ => LooseBut others fd)
  retire : ∀ fd listed, fd.pid = pid → Triple (system others mine faults) (guard spec)
    (fun w => Ready others spec fd listed w ∧ Frozen fd listed w) (s.retire fd) (fun _ => LooseBut others fd)
    (fun _ => LooseBut others fd)
  /-- A stop signal that failed after all is continued from, or there is none. -/
  late : s.frozenFirst = true ∨ faults.lateStop = false

theorem triple_whileFrozen {s : Steps α} (generation : ℕ) (hheld : ¬ others fd.pid)
    (hs : s.Sound spec others mine faults fd.pid) :
    Triple (system others mine faults) (guard spec)
      (fun w => Holds others fd (fun _ p => p.stopping = true) w ∧ StopSent fd w)
      (whileFrozen s fd.pid generation fd) (fun _ => LooseBut others fd) (fun _ => LooseBut others fd) := by
  have hbut : Kept others mine (LooseBut others fd) := kept_looseBut hheld
  have hsent : Kept others mine (StopSent fd) := (lasting_stopSent fd).kept
  have hpre : Kept others mine (Holds others fd fun _ p => p.stopping = true) := kept_holds hheld persistent_stopping
  refine .bind (R := fun start w => (Holds others fd (fun _ p => p.stopping = true) w ∧ start ≤ w.clock) ∧
    StopSent fd w) ?_ fun start => ?_
  · refine triple_read rfl (hpre.and hsent) (fun _ _ => trivial) (fun start => (hpre.and (kept_clock start)).and hsent)
      (fun w start hw h => ?_) (fun _ => hbut) fun _ w hw => hw.1.toLooseBut
    exact ⟨⟨hw.1, Except.ok.inj h ▸ Nat.le_refl _⟩, hw.2⟩
  refine .bind (triple_lasting ((triple_awaitFrozen s hheld (start + s.budget) (s.budget / 10 + 1)).pre
    fun w hw => ⟨hw.1, ?_⟩) (lasting_stopSent fd)) fun listed => ?_
  · have hstart := hw.2
    omega
  cases listed with
  | none => exact .pure ((hbut.and hsent).stable faults) fun w hw => hw.1
  | some listed =>
    have hlasting := lasting_frozen fd listed
    refine .bind ((triple_lasting (triple_childless hheld listed) hlasting).pre fun w hw => ⟨hw.1.1, ?_⟩) fun live => ?_
    · exact ⟨hw.1.1.opened, hw.2, hw.1.2.1, hw.1.2.2⟩
    have hfrozen : Kept others mine (Holds others fd (Halted listed fd.pid)) := kept_holds hheld (persistent_frozen listed)
    have hchildless : Kept others mine (fun w => (LooseBut others fd w ∧
        (live = false → Holds others fd (Halted listed fd.pid) w)) ∧ Frozen fd listed w) :=
      (hbut.and hfrozen.imp).and hlasting.kept
    split
    · exact .pure (hchildless.stable faults) fun w hw => hw.1.1
    · rename_i hlive
      refine .bind ((triple_lasting (hs.verify fd generation listed rfl) hlasting).pre
        fun w hw => ⟨hw.1.2 (by simpa using hlive), hw.2⟩) fun verified => ?_
      split
      · refine .bind ((hs.retire fd listed rfl).pre fun w hw => ⟨hw.1.2 ‹_›, hw.2⟩) fun a => ?_
        exact .pure (hbut.stable faults) fun w hw => hw
      · exact .pure (((hbut.and (kept_ready hheld listed).imp).and hlasting.kept).stable faults) fun w hw => hw.1.1

theorem AllLoose.but {w : World} (h : AllLoose others w) (hheld : ¬ others fd.pid) (hopened : Opened fd w) :
    LooseBut others fd w :=
  ⟨hopened, h.1, (h.2 _ hheld).stopsOnly _, fun pid hpid _ => h.2 pid hpid⟩

/-- The continue signal lets everything go when it is sent, or meets no process. -/
theorem triple_sendCont (hheld : ¬ others fd.pid) :
    Triple (system others mine faults) (guard spec) (LooseBut others fd) (sendCont fd)
      (fun _ w => LooseBut others fd w ∧ AllLoose others w) (fun _ w => LooseBut others fd w ∧ Left others faults w) := by
  have hloose : Kept others mine (AllLoose others) := kept_allLoose
  have hbut : Kept others mine (LooseBut others fd) := kept_looseBut hheld
  have hmissed : ∀ e : Err, Kept others mine (fun w => LooseBut others fd w ∧ (e = .processLookup → AllLoose others w) ∧
      Left others faults w) := fun _ => hbut.and (hloose.imp.and (kept_left faults))
  have hsent : ∀ w, LooseBut others fd w → LooseBut others fd (exec (.send fd .cont) w).2 ∧
      AllLoose others (exec (.send fd .cont) w).2 := by
    intro w hw
    have hall : AllLoose others (exec (.send fd .cont) w).2 := by
      unfold AllLoose
      rw [exec_send_machine]
      refine ⟨hw.sound.send fd .cont, fun pid hpid => ?_⟩
      by_cases hown : pid = fd.pid
      · subst hown
        exact hw.own.loose
      · exact (hw.rest pid hpid hown).send hown
    exact ⟨hall.but hheld (lasting_opened fd (exec_seen _ w) hw.opened), hall⟩
  refine Triple.rescue (F := fun e w => LooseBut others fd w ∧ (e = .processLookup → AllLoose others w) ∧
    Left others faults w) (.perform (hbut.stable faults) (fun _ _ => trivial) (fun w a w' hw hown => ?_)
    (fun w e w' hw hown => ?_) (fun _ => (hbut.and hloose).stable faults) fun e => (hmissed e).stable faults)
    (fun _ => (hbut.and hloose).stable faults) fun e => ?_
  · have hexec := hsent w hw
    rwa [show exec (.send fd .cont) w = _ from hown.ok] at hexec
  · rcases hown.error with ⟨rfl, -⟩ | ⟨rfl, hlost, hother⟩
    · obtain ⟨hafter, hall⟩ := hsent w hw
      exact ⟨hafter, fun _ => hall, .inl hall⟩
    · exact ⟨hw, fun he => absurd he hother, .inr ⟨hlost, fd, hheld, hw⟩⟩
  · split
    · exact .pure ((hmissed e).stable faults) fun w hw => ⟨hw.1, hw.2.1 ‹_›⟩
    · exact .raise ((hmissed e).stable faults) fun w hw => ⟨hw.1, hw.2.2⟩

/-- The stop signal stops no process but its own, and none at all when it fails before it is sent. -/
theorem triple_sendStop (hheld : ¬ others fd.pid) :
    Triple (system others mine faults) (guard spec)
      (fun w => (AllLoose others w ∧ fd.start ≤ w.machine.last fd.pid) ∧ Opened fd w ∧ Identified spec fd w)
      (perform (.send fd .stop)) (fun _ w => Holds others fd (fun _ p => p.stopping = true) w ∧ StopSent fd w)
      (fun _ w => LooseBut others fd w ∧ (faults.lateStop = false → AllLoose others w)) := by
  have hloose : Kept others mine (AllLoose others) := kept_allLoose
  have hpre : Kept others mine (fun w => (AllLoose others w ∧ fd.start ≤ w.machine.last fd.pid) ∧ Opened fd w ∧
      Identified spec fd w) :=
    (hloose.and (kept_last _ _)).and ((lasting_opened fd).kept.and (lasting_identified spec fd).kept)
  have hsent : ∀ w, AllLoose others w → Opened fd w → LooseBut others fd (exec (.send fd .stop) w).2 := by
    intro w hw hopened
    have hmachine : (exec (.send fd .stop) w).2.machine = (w.machine.send fd .stop).2 := exec_send_machine ..
    refine ⟨lasting_opened fd (exec_seen _ w) hopened, ?_, ?_, ?_⟩
    · rw [hmachine]
      exact hw.1.send fd .stop
    · rw [hmachine]
      exact ((hw.2 _ hheld).stopsOnly _).send .stop
    · rw [hmachine]
      exact fun pid hpid hne => (hw.2 pid hpid).send hne
  refine .perform (hpre.stable faults) (fun w hw => hw.2) (fun w a w' hw hown => ?_) (fun w e w' hw hown => ?_)
    (fun _ => ((kept_holds hheld persistent_stopping).and (lasting_stopSent fd).kept).stable faults)
    fun _ => ((kept_looseBut hheld).and hloose.imp).stable faults
  · have hbut := hsent w hw.1.1 hw.2.1
    obtain ⟨-, hnoted⟩ := noted_ok (congrArg Prod.fst (show exec (.send fd .stop) w = _ from hown.ok))
    obtain rfl : w' = (exec (.send fd .stop) w).2 := (congrArg Prod.snd hown.ok).symm
    refine ⟨⟨hbut, ?_, ?_⟩, w.machine, ?_⟩
    · rw [exec_send_machine]
      exact hw.1.2.trans (send_last fd .stop fd.pid).ge
    · rw [exec_send_machine]
      exact send_stop fd
    · show _ ∈ (noted _ _ _).2.seen
      rw [hnoted]
      exact List.mem_cons_self
  · rcases hown.error with ⟨rfl, hhow⟩ | ⟨rfl, -⟩
    · refine ⟨hsent w hw.1.1 hw.2.1, fun hnolate => ?_⟩
      rcases hhow with herror | hlate
      · have hmachine : (exec (.send fd .stop) w).2.machine = w.machine := by
          rw [exec_send_machine]
          rcases hsend : w.machine.send fd .stop with ⟨_ | _, m⟩
          · have hsame := send_error (congrArg Prod.fst hsend)
            rwa [hsend] at hsame
          · simp only [system, exec, hsend, noted] at herror
            cases herror
        unfold AllLoose
        rw [show ((system others mine faults).exec (.send fd .stop) w).2.machine = w.machine from hmachine]
        exact hw.1.1
      · cases hnolate.symm.trans hlate
    · exact ⟨hw.1.1.but hheld hw.2.1, fun _ => hw.1.1⟩

/-- **However an attempt to retire a worker ends, nothing is left stopped**, but for the worker itself when its continue
signal is lost, and all along the worker is told to end only when it may be. -/
theorem triple_stopFrozen {s : Steps α} {pid : ℕ} (hheld : ¬ others pid)
    (hs : s.Sound spec others mine faults pid) :
    Triple (system others mine faults) (guard spec) (AllLoose others) (stopFrozen s pid) (fun _ => AllLoose others)
      (fun _ => Left others faults) := by
  have hloose : Kept others mine (AllLoose others) := kept_allLoose
  have hleft : Kept others mine (Left others faults) := kept_left faults
  have hsince : ∀ n, Kept others mine (fun w => AllLoose others w ∧ n ≤ w.machine.last pid) :=
    fun n => hloose.and (kept_last pid n)
  have hclose : ∀ fd, Triple (system others mine faults) (guard spec) (AllLoose others) (perform (.close fd))
      (fun _ => AllLoose others) (fun _ => Left others faults) :=
    fun fd => triple_calm rfl hloose (fun _ _ => trivial) (fun _ => hleft) fun _ _ hw => .inl hw
  refine .bind (R := fun g w => AllLoose others w ∧ g ≤ w.machine.last pid) ?_ fun generation => ?_
  · rw [hs.identity]
    refine triple_processIdentity (A := fun _ _ => True) hloose (fun _ => .const _) (fun g => hsince g)
      (fun _ _ _ _ => trivial) (fun w command g hw _ _ h => ⟨hw, ?_⟩) (fun _ => hleft) fun _ _ hw => .inl hw
    exact (startTime_ok hw.1 h).ge
  refine .bind (R := fun fd w => (fd.pid = pid ∧ generation ≤ fd.start) ∧
    (AllLoose others w ∧ fd.start ≤ w.machine.last pid) ∧ Opened fd w) ?_ fun fd => ?_
  · refine triple_read rfl (hsince generation) (fun _ _ => trivial)
      (fun fd => (Kept.const _).and ((hsince fd.start).and (lasting_opened fd).kept)) (fun w fd hw h => ?_)
      (fun _ => hleft) fun _ w hw => .inl hw.1
    obtain ⟨hread, hnoted⟩ := noted_ok h
    obtain ⟨p, hp, rfl⟩ := pidfdOpen_some hread
    have hlast : p.start = w.machine.last pid := hw.1.1.start hp
    refine ⟨⟨rfl, hw.2.trans hlast.ge⟩, (hsince p.start).calm w _ (calm_exec (.pidfdOpen pid) rfl w) ⟨hw.1, hlast.le⟩,
      w.machine, p, ?_, hp, rfl⟩
    show _ ∈ (noted _ _ _).2.seen
    rw [hnoted]
    exact List.mem_cons_self
  by_cases hpid : fd.pid = pid ∧ generation ≤ fd.start
  swap
  · exact fun w hw => absurd hw.1 hpid
  obtain ⟨rfl, hgeneration⟩ := hpid
  have hidentified : Kept others mine (Identified spec fd) := (lasting_identified spec fd).kept
  have hopened : Kept others mine (Opened fd) := (lasting_opened fd).kept
  have hsecond : Triple (system others mine faults) (guard spec)
      (fun w => AllLoose others w ∧ fd.start ≤ w.machine.last fd.pid) s.identity
      (fun again w => (AllLoose others w ∧ fd.start ≤ w.machine.last fd.pid) ∧
        (again ≤ fd.start → Identified spec fd w)) (fun _ => AllLoose others) := by
    rw [hs.identity]
    refine triple_processIdentity (A := ReadSince fd) (hsince fd.start) (fun _ => kept_readSince)
      (fun _ => (hsince fd.start).and hidentified.imp) (fun w command hw h => ?_)
      (fun w command g hw hA hsup h => ⟨hw, fun hg => ?_⟩) (fun _ => hloose) fun _ w hw => hw.1
    · obtain ⟨p, hp⟩ := cmdline_some h
      exact ⟨w.machine, p, List.mem_cons_self, hp, (hw.1.1.start hp).symm ▸ hw.2, (hw.1.1.start hp).le⟩
    · obtain ⟨m, p, hseen, hp, hlow, hhigh⟩ := hA
      refine ⟨command, m, p, hseen, hsup, hp, ?_⟩
      have hlast := startTime_ok hw.1.1 h
      omega
  refine ((triple_lasting hsecond (lasting_opened fd)).attempt.pre fun w hw => hw.2).bind fun r => ?_
  cases r with
  | error e => exact (hclose fd).bind fun _ => .raise (hloose.stable faults) fun w hw => .inl hw
  | ok again =>
    show Triple _ _ (fun w => ((AllLoose others w ∧ fd.start ≤ w.machine.last fd.pid) ∧
      (again ≤ fd.start → Identified spec fd w)) ∧ Opened fd w) (if again ≠ generation then _ else _) _ _
    split
    · exact ((hclose fd).pre fun w hw => hw.1.1.1).bind fun _ => .pure (hloose.stable faults) fun w hw => hw
    rename_i hsame
    have hagain_le : again ≤ fd.start := by omega
    have hcleanup : Triple (system others mine faults) (guard spec) (LooseBut others fd)
        (sendCont fd >>= fun _ => perform (.close fd)) (fun _ => AllLoose others) (fun _ => Left others faults) :=
      ((triple_sendCont hheld).weaken (fun _ hw => hw) (fun _ _ hw => hw.2) fun _ _ hw => hw.2).bind fun _ => hclose fd
    have hfailed : Triple (system others mine faults) (guard spec) (LooseBut others fd)
        (sendCont fd >>= fun _ => perform (.close fd)) (fun _ => Left others faults) (fun _ => Left others faults) :=
      hcleanup.weaken (fun _ hw => hw) (fun _ _ hw => .inl hw) fun _ _ hw => hw
    have hfreeze : Triple (system others mine faults) (guard spec) (fun w => ((AllLoose others w ∧
        fd.start ≤ w.machine.last fd.pid) ∧ (again ≤ fd.start → Identified spec fd w)) ∧ Opened fd w)
        (perform (.send fd .stop)) _ _ := (triple_sendStop hheld).pre fun w hw => ⟨hw.1.1, hw.2, hw.1.2 hagain_le⟩
    have hfrozen := triple_whileFrozen generation hheld hs
    split
    · exact Triple.always (R := fun _ => LooseBut others fd) (F := fun _ => LooseBut others fd)
        ((hfreeze.weaken (fun _ hw => hw) (fun _ _ hw => hw) (fun _ _ hw => hw.1)).bind fun _ => hfrozen)
        (fun _ => hloose.stable faults) (fun _ => hleft.stable faults) (fun _ => hcleanup) fun _ => hfailed
    · have hnolate : faults.lateStop = false := hs.late.resolve_left ‹_›
      refine hfreeze.attempt.bind fun r => ?_
      cases r with
      | error e =>
        exact ((hclose fd).pre fun w hw => hw.2 hnolate).bind fun _ => .raise (hloose.stable faults) fun w hw => .inl hw
      | ok done =>
        exact hfrozen.always (fun _ => hloose.stable faults) (fun _ => hleft.stable faults) (fun _ => hcleanup)
          fun _ => hfailed

/-! ## A heartbeat read meanwhile -/

/-- A heartbeat file and then the clock have been read while the process stood still. -/
def BeatRead (fd : PidFd) (listed : List ℕ) (beat : Beat) (now : ℤ) (w : World) : Prop :=
  ∃ name m m', Seen.beat name beat m ∈ w.seen ∧ Seen.clock now m' ∈ w.seen ∧
    During fd.pid fd.start (Halted listed fd.pid) m ∧ During fd.pid fd.start (Halted listed fd.pid) m'

def BeatFound (fd : PidFd) (listed : List ℕ) (beat : Beat) (w : World) : Prop :=
  ∃ name m, Seen.beat name beat m ∈ w.seen ∧ During fd.pid fd.start (Halted listed fd.pid) m

theorem kept_beatRead {listed : List ℕ} {beat : Beat} {now : ℤ} : Kept others mine (BeatRead fd listed beat now) :=
  Lasting.kept fun _ _ hseen ⟨name, m, m', hbeat, hnow, hrest⟩ => ⟨name, m, m', hseen _ hbeat, hseen _ hnow, hrest⟩

theorem kept_beatFound {listed : List ℕ} {beat : Beat} : Kept others mine (BeatFound fd listed beat) :=
  Lasting.kept fun _ _ hseen ⟨name, m, hbeat, hrest⟩ => ⟨name, m, hseen _ hbeat, hrest⟩

section Beats

variable {listed : List ℕ}

theorem kept_frozen (hheld : ¬ others fd.pid) : Kept others mine (Holds others fd (Halted listed fd.pid)) :=
  kept_holds hheld (persistent_frozen listed)

theorem triple_beat (hheld : ¬ others fd.pid) (hP : Kept others mine P) (name : String) :
    Triple (system others mine faults) (guard spec) (fun w => Holds others fd (Halted listed fd.pid) w ∧ P w)
      (perform (.readBeat name))
      (fun beat w => (Holds others fd (Halted listed fd.pid) w ∧ P w) ∧ BeatFound fd listed beat w)
      (fun _ => LooseBut others fd) := by
  have hpre : Kept others mine (fun w => Holds others fd (Halted listed fd.pid) w ∧ P w) := (kept_frozen hheld).and hP
  refine triple_read rfl hpre (fun _ _ => trivial) (fun _ => hpre.and kept_beatFound)
    (fun w beat hw h => ⟨hpre.calm w _ (calm_exec _ rfl w) hw, ?_⟩) (fun _ => kept_looseBut hheld)
    fun _ w hw => hw.1.toLooseBut
  simp only [exec] at h ⊢
  split at h
  · cases h
  · obtain rfl := Except.ok.inj h
    exact ⟨name, w.machine, List.mem_cons_self, hw.1.during⟩

theorem triple_now (hheld : ¬ others fd.pid) (hP : Kept others mine P) (beat : Beat) :
    Triple (system others mine faults) (guard spec)
      (fun w => (Holds others fd (Halted listed fd.pid) w ∧ P w) ∧ BeatFound fd listed beat w) (perform .now)
      (fun now w => (Holds others fd (Halted listed fd.pid) w ∧ P w) ∧ BeatRead fd listed beat now w)
      (fun _ => LooseBut others fd) := by
  have hpre : Kept others mine (fun w => Holds others fd (Halted listed fd.pid) w ∧ P w) := (kept_frozen hheld).and hP
  refine triple_read rfl (hpre.and kept_beatFound) (fun _ _ => trivial) (fun _ => hpre.and kept_beatRead)
    (fun w now hw h => ⟨hpre.calm w _ (calm_exec .now rfl w) hw.1, ?_⟩) (fun _ => kept_looseBut hheld)
    fun _ w hw => hw.1.1.toLooseBut
  obtain ⟨name, m, hbeat, hm⟩ := hw.2
  obtain rfl := Except.ok.inj h
  exact ⟨name, m, w.machine, List.mem_cons_of_mem _ hbeat, List.mem_cons_self, hm, hw.1.1.during⟩

/-- A heartbeat that says that the worker may go. -/
def BeatClears (spec : Spec) (fd : PidFd) (listed : List ℕ) (w : World) : Prop :=
  ∃ beat now, BeatRead fd listed beat now w ∧ numberIs fd.pid (beat.get "pid") = true ∧ spec.idle beat = .ok true ∧
    spec.fresh beat now

theorem kept_beatClears : Kept others mine (BeatClears spec fd listed) :=
  .ex fun _ => .ex fun _ => kept_beatRead.and ((Kept.const _).and ((Kept.const _).and (.const _)))

/-- The heartbeat of `zai-takeover` and `zai-fleet` looked at again while the worker stands still. -/
theorem triple_idleAgain (spec : Spec) {fromisoformat : String → Except Err ℤ} {staleAfter : ℤ}
    {agent workerId : String} {asks : Beat → Bool} {rest : Script Op Err Bool} {Q : Bool → World → Prop}
    (hheld : ¬ others fd.pid) (hP : Kept others mine P) (hidle : spec.idle = Beat.idle)
    (hfresh : spec.fresh = Fresh fromisoformat staleAfter)
    (hQ : ∀ w, LooseBut others fd w → Q false w)
    (hrest : Triple (system others mine faults) (guard spec)
      (fun w => (Holds others fd (Halted listed fd.pid) w ∧ P w) ∧ BeatClears spec fd listed w) rest Q
      (fun _ => LooseBut others fd)) :
    Triple (system others mine faults) (guard spec) (fun w => Holds others fd (Halted listed fd.pid) w ∧ P w)
      (do if !(← ofExcept (← readHeartbeat fromisoformat staleAfter agent workerId asks fd.pid).idle) then return false
          else rest) Q (fun _ => LooseBut others fd) := by
  have hpre : Kept others mine (fun w => Holds others fd (Halted listed fd.pid) w ∧ P w) := (kept_frozen hheld).and hP
  have hbut : Kept others mine (LooseBut others fd) := kept_looseBut hheld
  have hread : ∀ beat, Kept others mine (fun w => (Holds others fd (Halted listed fd.pid) w ∧ P w) ∧
      ∃ now, BeatRead fd listed beat now w ∧ numberIs fd.pid (beat.get "pid") = true ∧
        Fresh fromisoformat staleAfter beat now) :=
    fun beat => hpre.and (.ex fun now => kept_beatRead.and ((Kept.const _).and (.const _)))
  have hbeat : Triple (system others mine faults) (guard spec)
      (fun w => Holds others fd (Halted listed fd.pid) w ∧ P w)
      (readHeartbeat fromisoformat staleAfter agent workerId asks fd.pid)
      (fun beat w => (Holds others fd (Halted listed fd.pid) w ∧ P w) ∧ ∃ now, BeatRead fd listed beat now w ∧
        numberIs fd.pid (beat.get "pid") = true ∧ Fresh fromisoformat staleAfter beat now)
      (fun _ => LooseBut others fd) := by
    refine (triple_beat hheld hP _).bind fun beat => ?_
    split
    · exact .raise ((hpre.and kept_beatFound).stable faults) fun w hw => hw.1.1.toLooseBut
    rename_i hasked
    have hpid : numberIs fd.pid (beat.get "pid") = true := by
      simp only [Bool.not_eq_true', Bool.not_eq_false, Bool.and_eq_true] at hasked
      exact hasked.1.2
    refine (triple_ofExcept _ (hpre.and kept_beatFound) fun _ w hw => hw.1.1.toLooseBut).bind
      fun stamp => ?_
    by_cases hstamp : stampOf fromisoformat beat = .ok stamp
    swap
    · exact fun w hw => absurd hw.1 hstamp
    refine Triple.bind ((triple_now hheld hP beat).pre fun w hw => hw.2) fun now => ?_
    split
    · exact .raise ((hpre.and kept_beatRead).stable faults) fun w hw => hw.1.1.toLooseBut
    · rename_i hage
      refine .pure ((hpre.and kept_beatRead).stable faults) fun w hw => ⟨hw.1, now, hw.2, hpid, ?_⟩
      unfold Fresh
      rw [hstamp]
      simpa using hage
  refine hbeat.bind fun beat => ?_
  refine (triple_ofExcept beat.idle (hread beat) fun _ w hw => hw.1.1.toLooseBut).bind fun b => ?_
  split
  · exact .pure (((Kept.const _).and (hread beat)).stable faults) fun w hw => hQ w hw.2.1.1.toLooseBut
  · rename_i hb
    have htrue : b = true := by simpa using hb
    refine hrest.pre fun w hw => ⟨hw.2.1, ?_⟩
    obtain ⟨now, hnow, hpid, hage⟩ := hw.2.2
    exact ⟨beat, now, hnow, hpid, by rw [hidle, hw.1, htrue], by rw [hfresh]; exact hage⟩

/-- The last look at who the process is, with what was known before. -/
theorem triple_lastIdentity (spec : Spec) (hheld : ¬ others fd.pid) (hP : Kept others mine P) :
    Triple (system others mine faults) (guard spec) (fun w => Holds others fd (Halted listed fd.pid) w ∧ P w)
      (processIdentity spec.flags fd.pid)
      (fun _ w => Holds others fd (fun m p => Halted listed fd.pid m p ∧
        supervises spec.flags (p.cmdline ++ [""]) = true) w ∧ P w) (fun _ => LooseBut others fd) := by
  have hcommand : ∀ A : List String → Prop, Kept others mine
      (Holds others fd (fun m p => Halted listed fd.pid m p ∧ A p.cmdline)) :=
    fun A => kept_holds hheld (persistent_cmdline A)
  refine triple_processIdentity
    (A := fun command => Holds others fd (fun m p => Halted listed fd.pid m p ∧ p.cmdline ++ [""] = command))
    ((kept_frozen hheld).and hP) (fun command => hcommand (fun args => args ++ [""] = command))
    (fun _ => (hcommand (fun args => supervises spec.flags (args ++ [""]) = true)).and hP)
    (fun w command hw h => ?_) (fun w command g hw hA hsup _ => ⟨hA.mono fun p hp => ⟨hp.1, hp.2 ▸ hsup⟩, hw.2⟩)
    (fun _ => kept_looseBut hheld) fun _ w hw => hw.1.toLooseBut
  have hframe : Kept others mine (Holds others fd (fun m p => Halted listed fd.pid m p ∧ p.cmdline ++ [""] = command)) :=
    hcommand (fun args => args ++ [""] = command)
  refine hframe.calm w _ ⟨rfl, rfl, Nat.le_refl _, rfl, fun s hs => List.mem_cons_of_mem _ hs⟩ ?_
  exact hw.1.add (cmdline_ok h)

/-- The unit runs the process, as long as that is there. -/
def UnitRuns (fd : PidFd) (u : String) (w : World) : Prop :=
  fd.start ≤ w.machine.last fd.pid ∧ During fd.pid fd.start (fun _ _ => (w.units u).mainPid = fd.pid) w.machine

theorem Ready.of {w : World} (hholds : Holds others fd (fun m p => Halted listed fd.pid m p ∧
      supervises spec.flags (p.cmdline ++ [""]) = true) w) (hbeat : BeatClears spec fd listed w)
    (hunit : ∀ u, spec.unit = some u → UnitRuns fd u w) : Ready others spec fd listed w := by
  obtain ⟨beat, now, ⟨name, m, m', hread, hnow, hm, hm'⟩, hpid, hidle, hfresh⟩ := hbeat
  exact ⟨hholds.toLooseBut, hholds.last, hholds.during.mono fun _ hp => hp.1, hholds.during.mono fun _ hp => hp.2,
    fun u hu => (hunit u hu).2, name, beat, m, m', now, hread, hnow, hm, hm', hpid, hidle, hfresh⟩

/-- What `systemctl show` said of the unit's main process. -/
theorem triple_showUnit (hheld : ¬ others fd.pid) (hP : Kept others mine P)
    (hbut : ∀ w, P w → LooseBut others fd w ∧ fd.start ≤ w.machine.last fd.pid) (u : String) :
    Triple (system others mine faults) (guard spec) P (perform (.showUnit u))
      (fun info w => P w ∧ (info.mainPid = fd.pid → UnitRuns fd u w)) (fun _ => LooseBut others fd) := by
  refine triple_read rfl hP (fun _ _ => trivial) (fun _ => hP.and (kept_unit hheld u).imp) (fun w info hw h => ⟨hw, ?_⟩)
    (fun _ => kept_looseBut hheld) fun _ w hw => (hbut w hw).1
  obtain rfl := Except.ok.inj h
  exact fun hmain => ⟨(hbut w hw).2, fun _ _ _ _ => hmain⟩

end Beats

/-! ## `zai-fleet` -/

def ZaiFleet.conditions (fromisoformat : String → Except Err ℤ) (staleAfter : ℤ) (worker : ZaiFleet.Worker) : Spec where
  flags := ZaiFleet.flags worker
  idle := Beat.idle
  fresh := Fresh fromisoformat staleAfter
  unit := some worker.unit

theorem ZaiFleet.sound (fromisoformat : String → Except Err ℤ) (staleAfter : ℤ) (worker : ZaiFleet.Worker) {pid : ℕ}
    (hheld : ¬ others pid) : (ZaiFleet.steps fromisoformat staleAfter worker pid).Sound
      (ZaiFleet.conditions fromisoformat staleAfter worker) others mine faults pid where
  identity := rfl
  late := .inl rfl
  retire := by
    rintro fd listed rfl
    exact triple_read (o := .stopUnit worker.unit) rfl (kept_told hheld listed)
      (fun w hw => ⟨rfl, fd, listed, hw.2, hw.1.cleared⟩) (fun _ => kept_looseBut hheld) (fun w _ hw _ => hw.1.toLooseBut)
      (fun _ => kept_looseBut hheld) fun _ w hw => hw.1.toLooseBut
  verify := by
    rintro fd generation listed rfl
    have hclears : Kept others mine (BeatClears (ZaiFleet.conditions fromisoformat staleAfter worker) fd listed) :=
      kept_beatClears
    have hunit : Kept others mine (UnitRuns fd worker.unit) := kept_unit hheld worker.unit
    have hstand : Kept others mine (fun w => (Holds others fd (Halted listed fd.pid) w ∧ True) ∧
        BeatClears (ZaiFleet.conditions fromisoformat staleAfter worker) fd listed w) :=
      ((kept_frozen hheld).and (.const _)).and hclears
    refine (triple_idleAgain _ (P := fun _ => True) hheld (.const _) rfl rfl (fun w hw => ⟨hw, fun h => nomatch h⟩) ?_).pre
      fun w hw => ⟨hw, trivial⟩
    refine Triple.bind (R := fun info w => ((Holds others fd (Halted listed fd.pid) w ∧ True) ∧
      BeatClears (ZaiFleet.conditions fromisoformat staleAfter worker) fd listed w) ∧
        (info.mainPid = fd.pid → UnitRuns fd worker.unit w)) ?_ fun info => ?_
    · refine (triple_showUnit hheld hstand (fun w hw => ⟨hw.1.1.toLooseBut, hw.1.1.last⟩) worker.unit).bind fun info => ?_
      split
      · exact .raise ((hstand.and hunit.imp).stable faults) fun w hw => hw.1.1.1.toLooseBut
      · exact .pure ((hstand.and hunit.imp).stable faults) fun w hw => hw
    split
    · exact .pure ((hstand.and hunit.imp).stable faults) fun w hw => ⟨hw.1.1.1.toLooseBut, fun h => nomatch h⟩
    rename_i hmain
    refine Triple.bind ((triple_lastIdentity (ZaiFleet.conditions fromisoformat staleAfter worker) hheld
      (hclears.and hunit)).pre fun w hw => ⟨hw.1.1.1, hw.1.2, hw.2 (by simpa using hmain)⟩) fun g => ?_
    refine .pure ?_ fun w hw => ⟨hw.1.toLooseBut, fun _ => .of hw.1 hw.2.1 ?_⟩
    · exact ((kept_holds hheld (persistent_cmdline (fun args => supervises _ (args ++ [""]) = true))).and
        (hclears.and hunit)).stable faults
    · rintro u hu
      cases hu
      exact hw.2.2

/-! ## `zai-takeover` -/

def Takeover.conditions (settings : Takeover.Settings) (target : Takeover.Target) : Spec where
  flags := Takeover.flags target
  idle := Beat.idle
  fresh := Fresh settings.fromisoformat settings.staleAfter
  unit := if target.unit = "" then none else some target.unit

theorem Takeover.installGuard_harmless (settings : Takeover.Settings) (target : Takeover.Target) :
    (Takeover.installGuard settings target).Only fun _ o => o.harmless := by
  have hcheck : ∀ path text, (checkOwned path text).Only fun _ o => o.harmless := by
    intro path text
    refine .bind (.perform trivial) fun there => ?_
    split
    · refine .bind (.perform trivial) fun found => ?_
      split
      · trivial
      · trivial
    · trivial
  have hmarker : (Takeover.writeMarker settings target).Only fun _ o => o.harmless := by
    refine .bind (.perform trivial) fun there => ?_
    split
    · trivial
    · exact .perform trivial
  have hdropin : (Takeover.writeDropin settings target).Only fun _ o => o.harmless := by
    refine .bind (.perform trivial) fun there => ?_
    split
    · trivial
    · exact .bind (.perform trivial) fun _ => .perform trivial
  exact .bind (hcheck _ _) fun _ => .bind (hcheck _ _) fun _ => .bind hmarker fun _ => hdropin

/-- The wait for the exit ends by itself. -/
theorem Takeover.triple_awaitExit {pid : ℕ} (hP : Kept others mine P) (limit rounds : ℕ) :
    Triple (system others mine faults) (guard spec) (fun w => P w ∧ limit < w.clock + 50 * rounds)
      (Takeover.awaitExit pid limit (rounds + 1)) (fun _ => P) (fun _ => P) := by
  have hpre : ∀ n, Kept others mine (fun w => P w ∧ limit < w.clock + 50 * n) := fun n => hP.and (kept_clock_lt limit _)
  suffices hround : ∀ n, Triple (system others mine faults) (guard spec)
      (fun w => P w ∧ limit + 50 < w.clock + 50 * n ∧ 0 < n) (Takeover.awaitExit pid limit n) (fun _ => P) (fun _ => P) by
    refine (hround (rounds + 1)).pre fun w hw => ⟨hw.1, ?_⟩
    omega
  intro n
  induction n with
  | zero => exact fun w hw => absurd hw.2.2 (Nat.lt_irrefl 0)
  | succ n ih =>
    refine Triple.bind (R := fun now w => (P w ∧ limit < w.clock + 50 * n) ∧ limit < now + 50 * n)
      (triple_read (o := .monotonic) rfl (hpre n) (fun _ _ => trivial) (fun now => (hpre n).and (.const _))
        (fun w now hw h => ⟨hw, Except.ok.inj h ▸ hw.2⟩) (fun _ => hP) (fun _ w hw => hw.1) |>.pre fun w hw => ⟨hw.1, ?_⟩)
      fun now => ?_
    · omega
    split
    · refine Triple.bind (triple_calm rfl ((hpre n).and (.const _)) (fun _ _ => trivial) (fun _ => hP)
        fun _ w hw => hw.1.1) fun there => ?_
      split
      · refine Triple.bind (R := fun _ w => P w ∧ limit + 50 < w.clock + 50 * n ∧ 0 < n) ?_ fun _ => ih
        refine triple_read rfl ((hpre n).and (.const _)) (fun _ _ => trivial)
          (fun _ => hP.and ((kept_clock_lt (limit + 50) _).and (.const _)))
          (fun w _ hw _ => ⟨hP.calm w _ (calm_exec _ rfl w) hw.1.1, ?_, ?_⟩) (fun _ => hP) fun _ w hw => hw.1.1
        · have hclock := hw.1.2
          show limit + 50 < w.clock + 50 + 50 * n
          omega
        · have hlater := hw.2
          omega
      · exact .pure (((hpre n).and (.const _)).stable faults) fun w hw => hw.1.1
    · exact .pure (((hpre n).and (.const _)).stable faults) fun w hw => hw.1.1

theorem triple_sendTerm (hheld : ¬ others fd.pid) (listed : List ℕ) :
    Triple (system others mine faults) (guard spec) (fun w => Ready others spec fd listed w ∧ Frozen fd listed w)
      (perform (.send fd .term)) (fun _ => LooseBut others fd) (fun _ => LooseBut others fd) := by
  have hbut : Kept others mine (LooseBut others fd) := kept_looseBut hheld
  have hsame : ∀ w, LooseBut others fd w → LooseBut others fd (exec (.send fd .term) w).2 := by
    intro w ⟨hopened, hsound, hown, hrest⟩
    have hmachine : (exec (.send fd .term) w).2.machine = w.machine := (exec_send_machine ..).trans (send_term fd)
    exact ⟨lasting_opened fd (exec_seen _ w) hopened, hmachine ▸ hsound, hmachine ▸ hown, hmachine ▸ hrest⟩
  refine .perform ((kept_told hheld listed).stable faults) (fun w hw => ⟨listed, hw.2, hw.1.cleared⟩)
    (fun w a w' hw hown => ?_) (fun w e w' hw hown => ?_) (fun _ => hbut.stable faults) fun _ => hbut.stable faults
  · have hexec := hsame w hw.1.toLooseBut
    rwa [show exec (.send fd .term) w = _ from hown.ok] at hexec
  · rcases hown.error with ⟨rfl, -⟩ | ⟨rfl, -⟩
    · exact hsame w hw.1.toLooseBut
    · exact hw.1.toLooseBut

theorem Takeover.sound (settings : Takeover.Settings) (target : Takeover.Target) {pid : ℕ} (hheld : ¬ others pid) :
    (Takeover.steps settings target pid).Sound (Takeover.conditions settings target) others mine faults pid where
  identity := rfl
  late := .inl rfl
  retire := by
    rintro fd listed rfl
    have hbut : Kept others mine (LooseBut others fd) := kept_looseBut hheld
    refine Triple.bind (R := fun _ => LooseBut others fd) ?_ fun method =>
      .bind (triple_calm rfl hbut (fun _ _ => trivial) (fun _ => hbut) fun _ _ hw => hw) fun now =>
        .pure (hbut.stable faults) fun w hw => hw
    split
    · rename_i hunit
      refine .bind (.bind ((triple_harmless (installGuard_harmless settings target) (kept_told hheld listed)).weaken
        (fun _ hw => hw) (fun _ _ hw => hw) fun _ w hw => hw.1.toLooseBut) fun _ => ?_) fun _ =>
          .pure (hbut.stable faults) fun w hw => hw
      refine triple_read (o := .stopUnit target.unit) rfl (kept_told hheld listed)
        (fun w hw => ⟨?_, fd, listed, hw.2, hw.1.cleared⟩) (fun _ => hbut) (fun w _ hw _ => hw.1.toLooseBut) (fun _ => hbut)
        fun _ w hw => hw.1.toLooseBut
      exact if_neg hunit
    · refine .bind (R := fun _ => LooseBut others fd) ((triple_sendTerm hheld listed).bind fun _ =>
        (triple_sendCont hheld).weaken (fun _ hw => hw) (fun _ _ hw => hw.1) fun _ _ hw => hw.1)
        fun _ => ?_
      refine .bind (R := fun start w => LooseBut others fd w ∧ start ≤ w.clock) (triple_read rfl hbut
        (fun _ _ => trivial) (fun start => hbut.and (kept_clock start))
        (fun w start hw h => ⟨hw, Except.ok.inj h ▸ Nat.le_refl _⟩) (fun _ => hbut) fun _ _ hw => hw) fun start => ?_
      refine .bind ((triple_awaitExit hbut (start + 2000) 41).pre fun w hw => ⟨hw.1, ?_⟩) fun _ =>
        .pure (hbut.stable faults) fun w hw => hw
      have hstart := hw.2
      omega
  verify := by
    rintro fd generation listed rfl
    have hfrozen : Kept others mine (Holds others fd (Halted listed fd.pid)) := kept_frozen hheld
    have hunits : Kept others mine (fun w => ∀ u, (conditions settings target).unit = some u → UnitRuns fd u w) :=
      .all fun u => .imp (kept_unit hheld u)
    refine Triple.bind (R := fun b w => Holds others fd (Halted listed fd.pid) w ∧
      (b = true → ∀ u, (conditions settings target).unit = some u → UnitRuns fd u w)) ?_ fun b => ?_
    · split
      · rename_i hnone
        refine .pure (hfrozen.stable faults) fun w hw => ⟨hw, fun _ u hu => ?_⟩
        simp [conditions, hnone] at hu
      · rename_i hsome
        refine (triple_showUnit hheld hfrozen (fun w hw => ⟨hw.toLooseBut, hw.last⟩) target.unit).bind fun info =>
          .pure ((hfrozen.and (Kept.imp (kept_unit hheld target.unit))).stable faults)
            fun w hw => ⟨hw.1, fun hmain u hu => ?_⟩
        obtain rfl : target.unit = u := by simpa [conditions, hsome] using hu
        exact hw.2 (by simpa using hmain)
    split
    · exact .pure ((hfrozen.and hunits.imp).stable faults) fun w hw => ⟨hw.1.toLooseBut, fun h => nomatch h⟩
    rename_i hholds
    refine (triple_idleAgain (conditions settings target) hheld hunits rfl rfl
      (fun w hw => ⟨hw, fun h => nomatch h⟩) ?_).pre fun w hw => ⟨hw.1, hw.2 (by simpa using hholds)⟩
    have hclears : Kept others mine (BeatClears (conditions settings target) fd listed) := kept_beatClears
    refine Triple.bind ((triple_lastIdentity (conditions settings target) hheld
      (hclears.and hunits)).pre fun w hw => ⟨hw.1.1, hw.2, hw.1.2⟩) fun g => ?_
    refine .pure ?_ fun w hw => ⟨hw.1.toLooseBut, fun _ => .of hw.1 hw.2.1 hw.2.2⟩
    exact ((kept_holds hheld (persistent_cmdline (fun args => supervises _ (args ++ [""]) = true))).and
      (hclears.and hunits)).stable faults

/-! ## `codex-productive` -/

def CodexPool.conditions (settings : CodexPool.Settings) (worker : CodexPool.Worker) : Spec where
  flags := CodexPool.flags worker.agent worker.workerId
  idle := CodexPool.idle
  fresh := fun beat now => ∃ stamp, stampOf settings.fromisoformat beat = .ok stamp ∧ 0 ≤ now - stamp ∧
    now - stamp < 60000000
  unit := (CodexPool.adoptedAs settings worker).bind CodexPool.Adopted.unit

theorem numberIs_namedPid {v : Option Value} {n : ℕ} (h : Takeover.namedPid v = some n) : numberIs n v = true := by
  match v with
  | some (.int k) =>
    simp only [Takeover.namedPid] at h
    split at h
    · obtain rfl := Option.some.inj h
      simp only [numberIs, beq_iff_eq]
      omega
    · cases h
  | some .none | some (.bool _) | some (.float _) | some (.str _) | some (.surrogates _) | some (.list _)
  | some (.dict _) | none => cases h

/-- What a listed worker's heartbeat was read as while the process stood still. -/
def CodexPool.ListedAs (settings : CodexPool.Settings) (fd : PidFd) (listed : List ℕ) (worker : CodexPool.Worker)
    (w : World) : Prop :=
  ∃ now, BeatRead fd listed worker.beat now w ∧ numberIs worker.pid (worker.beat.get "pid") = true ∧
    ∃ stamp, stampOf settings.fromisoformat worker.beat = .ok stamp ∧ 0 ≤ now - stamp ∧ now - stamp < 60000000

theorem CodexPool.kept_listedAs {settings : CodexPool.Settings} {listed : List ℕ} {worker : CodexPool.Worker} :
    Kept others mine (CodexPool.ListedAs settings fd listed worker) :=
  .ex fun _ => kept_beatRead.and ((Kept.const _).and (.const _))

theorem CodexPool.triple_worker (settings : CodexPool.Settings) {listed : List ℕ} (hheld : ¬ others fd.pid)
    (hP : Kept others mine P) (name : String) :
    Triple (system others mine faults) (guard spec) (fun w => Holds others fd (Halted listed fd.pid) w ∧ P w)
      (CodexPool.worker settings true name)
      (fun found w => (Holds others fd (Halted listed fd.pid) w ∧ P w) ∧
        ∀ worker ∈ found, CodexPool.ListedAs settings fd listed worker w)
      (fun _ => LooseBut others fd) := by
  have hbut : Kept others mine (LooseBut others fd) := kept_looseBut hheld
  have hpre : Kept others mine (fun w => Holds others fd (Halted listed fd.pid) w ∧ P w) := (kept_frozen hheld).and hP
  have hfound : ∀ beat, Kept others mine (fun w => (Holds others fd (Halted listed fd.pid) w ∧ P w) ∧
      BeatFound fd listed beat w) := fun _ => hpre.and kept_beatFound
  have hread : ∀ beat now, Kept others mine (fun w => (Holds others fd (Halted listed fd.pid) w ∧ P w) ∧
      BeatRead fd listed beat now w) := fun _ _ => hpre.and kept_beatRead
  refine (triple_beat hheld hP name).bind fun beat => ?_
  refine (triple_ofExcept _ (hfound beat) fun _ w hw => hw.1.1.toLooseBut).bind fun workerId => ?_
  refine Triple.bind ((triple_ofExcept _ (hfound beat) fun _ w hw => hw.1.1.toLooseBut).pre
    fun w hw => hw.2) fun agent => ?_
  refine Triple.pre ?_ fun w hw => hw.2
  split
  · exact .pure ((hfound beat).stable faults) fun w hw => ⟨hw.1, fun worker h => nomatch h⟩
  refine (triple_ofExcept _ (hfound beat) fun _ w hw => hw.1.1.toLooseBut).bind fun stamp => ?_
  by_cases hstamp : stampOf settings.fromisoformat beat = .ok stamp
  swap
  · exact fun w hw => absurd hw.1 hstamp
  refine Triple.bind ((triple_now hheld hP beat).pre fun w hw => hw.2) fun now => ?_
  refine Triple.bind (R := fun _ w => (Holds others fd (Halted listed fd.pid) w ∧ P w) ∧
    BeatRead fd listed beat now w) ?_ fun r => ?_
  · refine (triple_harmless (CodexPool.identity_only Op.harmless_of_reads agent workerId (beat.get "pid")).attempt
      (hread beat now)).weaken (fun _ hw => hw) (fun _ _ hw => hw) fun _ w hw => hw.1.1.toLooseBut
  have hnone : Triple (system others mine faults) (guard spec) (fun w => (Holds others fd (Halted listed fd.pid) w ∧
      P w) ∧ BeatRead fd listed beat now w) (pure none : Script Op Err (Option CodexPool.Worker))
      (fun found w => (Holds others fd (Halted listed fd.pid) w ∧ P w) ∧
        ∀ worker ∈ found, CodexPool.ListedAs settings fd listed worker w) (fun _ => LooseBut others fd) :=
    .pure ((hread beat now).stable faults) fun w hw => ⟨hw.1, fun worker h => nomatch h⟩
  match r with
  | .error .fileNotFound => exact hnone
  | .error .processLookup | .error .os | .error .value | .error .runtime | .error .key
  | .error .stopIteration | .error .other =>
    exact .raise ((hread beat now).stable faults) fun w hw => hw.1.1.toLooseBut
  | .ok g =>
    show Triple _ _ _ (if _ then _ else _) _ _
    split
    · rename_i hage
      refine .pure ((hread beat now).stable faults) fun w hw => ⟨hw.1, fun worker hworker => ?_⟩
      obtain ⟨n, hn, rfl⟩ := Option.map_eq_some_iff.1 hworker
      exact ⟨now, hw.2, numberIs_namedPid hn, stamp, hstamp, by simpa using hage⟩
    · exact hnone

theorem CodexPool.kept_allListed (settings : CodexPool.Settings) {listed : List ℕ} (found : List CodexPool.Worker) :
    Kept others mine (fun w => ∀ worker ∈ found, CodexPool.ListedAs settings fd listed worker w) :=
  .all fun _ => .imp CodexPool.kept_listedAs

/-- Every worker that is listed meanwhile is listed by what was read meanwhile. -/
theorem CodexPool.triple_workers (settings : CodexPool.Settings) {listed : List ℕ} (hheld : ¬ others fd.pid) :
    Triple (system others mine faults) (guard spec) (Holds others fd (Halted listed fd.pid))
      (CodexPool.workers settings true)
      (fun found w => Holds others fd (Halted listed fd.pid) w ∧
        ∀ worker ∈ found, CodexPool.ListedAs settings fd listed worker w)
      (fun _ => LooseBut others fd) := by
  have hfrozen : Kept others mine (Holds others fd (Halted listed fd.pid)) := kept_frozen hheld
  have hgo : ∀ (names : List String) {P : World → Prop}, Kept others mine P →
      Triple (system others mine faults) (guard spec) (fun w => Holds others fd (Halted listed fd.pid) w ∧ P w)
        (CodexPool.workers.go settings true names)
        (fun found w => (Holds others fd (Halted listed fd.pid) w ∧ P w) ∧
          ∀ worker ∈ found, CodexPool.ListedAs settings fd listed worker w)
        (fun _ => LooseBut others fd) := by
    intro names
    induction names with
    | nil =>
      exact fun hP => .pure ((hfrozen.and hP).stable faults) fun w hw => ⟨hw, fun worker h => nomatch h⟩
    | cons name rest ih =>
      intro P hP
      refine (CodexPool.triple_worker settings hheld hP name).bind fun one => ?_
      have hone : Kept others mine (fun w => P w ∧ ∀ worker ∈ one, CodexPool.ListedAs settings fd listed worker w) := by
        exact hP.and (.all fun _ => .imp CodexPool.kept_listedAs)
      refine Triple.bind ((ih hone).pre fun w hw => ⟨hw.1.1, hw.1.2, hw.2⟩) fun found => ?_
      refine .pure (((hfrozen.and hone).and (CodexPool.kept_allListed settings found)).stable faults)
        fun w hw => ⟨⟨hw.1.1, hw.1.2.1⟩, fun worker h => ?_⟩
      rcases List.mem_append.1 h with h | h
      · exact hw.1.2.2 worker (Option.mem_toList.1 h)
      · exact hw.2 worker h
  refine (triple_calm (o := .glob) rfl hfrozen (fun _ _ => trivial) (fun _ => kept_looseBut hheld)
    fun _ w hw => hw.toLooseBut).bind fun names => ?_
  exact ((hgo names (.const True)).pre fun w hw => ⟨hw, trivial⟩).weaken (fun _ hw => hw)
    (fun _ w hw => ⟨hw.1.1, hw.2⟩) fun _ _ hw => hw

theorem CodexPool.sound (settings : CodexPool.Settings) (worker : CodexPool.Worker) (hlate : faults.lateStop = false)
    (hheld : ¬ others worker.pid) :
    (CodexPool.steps settings worker).Sound (CodexPool.conditions settings worker) others mine faults worker.pid where
  identity := rfl
  late := .inr hlate
  retire := by
    rintro fd listed hpid
    exact triple_sendTerm (hpid ▸ hheld) listed
  verify := by
    rintro fd generation listed hpid
    rw [← hpid] at hheld
    have hfrozen : Kept others mine (Holds others fd (Halted listed fd.pid)) := kept_frozen hheld
    have hbut : Kept others mine (LooseBut others fd) := kept_looseBut hheld
    refine (CodexPool.triple_workers settings hheld).bind fun found => ?_
    have hlisted : Kept others mine (fun w => Holds others fd (Halted listed fd.pid) w ∧
        ∀ worker ∈ found, ListedAs settings fd listed worker w) := hfrozen.and (kept_allListed settings found)
    generalize hcurrent : found.find? _ = current
    cases current with
    | none => exact .pure (hlisted.stable faults) fun w hw => ⟨hw.1.toLooseBut, fun h => nomatch h⟩
    | some current =>
      have hmem := List.mem_of_find?_eq_some hcurrent
      have hsame : current.pid = fd.pid := by
        have hfound := List.find?_some hcurrent
        simp only [decide_eq_true_eq] at hfound
        rw [hfound, hpid]
      refine (triple_ofExcept _ hlisted fun _ w hw => hw.1.toLooseBut).bind fun b => ?_
      split
      · exact .pure (((Kept.const _).and hlisted).stable faults) fun w hw => ⟨hw.2.1.toLooseBut, fun h => nomatch h⟩
      rename_i hb
      have hclears : Kept others mine (BeatClears (conditions settings worker) fd listed) := kept_beatClears
      refine Triple.bind (R := fun g w => Holds others fd (fun m p => Halted listed fd.pid m p ∧
          supervises (conditions settings worker).flags (p.cmdline ++ [""]) = true) w ∧
          BeatClears (conditions settings worker) fd listed w) ?_ fun g => ?_
      · rw [← hpid]
        refine (triple_lastIdentity (conditions settings worker) hheld hclears).pre fun w hw => ⟨hw.2.1, ?_⟩
        obtain ⟨now, hread, hnumber, hfresh⟩ := hw.2.2 current hmem
        refine ⟨current.beat, now, hread, hsame ▸ hnumber, ?_, hfresh⟩
        exact hw.1.trans (by simpa using hb)
      have hstand : Kept others mine (fun w => Holds others fd (fun m p => Halted listed fd.pid m p ∧
          supervises (conditions settings worker).flags (p.cmdline ++ [""]) = true) w ∧
          BeatClears (conditions settings worker) fd listed w) :=
        (kept_holds hheld (persistent_cmdline
          fun args => supervises (conditions settings worker).flags (args ++ [""]) = true)).and hclears
      split
      · exact .pure (hstand.stable faults) fun w hw => ⟨hw.1.toLooseBut, fun h => nomatch h⟩
      generalize hentry : (adoptedAs settings worker).bind Adopted.unit = unit
      cases unit with
      | none =>
        refine .pure (hstand.stable faults) fun w hw => ⟨hw.1.toLooseBut, fun _ => .of hw.1 hw.2 fun u hu => ?_⟩
        cases hentry.symm.trans hu
      | some unit =>
        have hunit : Kept others mine (UnitRuns fd unit) := kept_unit hheld unit
        refine Triple.bind (R := fun info w => (Holds others fd (fun m p => Halted listed fd.pid m p ∧
            supervises (conditions settings worker).flags (p.cmdline ++ [""]) = true) w ∧
            BeatClears (conditions settings worker) fd listed w) ∧ (info.mainPid = fd.pid → UnitRuns fd unit w))
          ?_ fun info => ?_
        · refine (triple_showUnit hheld hstand (fun w hw => ⟨hw.1.toLooseBut, hw.1.last⟩) unit).bind fun info => ?_
          split
          · exact .raise ((hstand.and hunit.imp).stable faults) fun w hw => hw.1.1.toLooseBut
          · exact .pure ((hstand.and hunit.imp).stable faults) fun w hw => hw
        · refine .pure ((hstand.and hunit.imp).stable faults) fun w hw => ⟨hw.1.1.toLooseBut, fun hmain => ?_⟩
          refine .of hw.1.1 hw.1.2 fun u hu => ?_
          obtain rfl := Option.some.inj (hentry.symm.trans hu)
          exact hw.2 (hpid ▸ by simpa using hmain)

/-! ## The three `stop_idle` -/

/-- The heartbeat file names no process that somebody else may stop or continue. -/
def Claimed (others : ℕ → Prop) (name : String) (w : World) : Prop :=
  ∀ beat pid, w.beats name = some beat → Takeover.namedPid (beat.get "pid") = some pid → ¬ others pid

theorem kept_claimed {name : String} (hmine : mine name) : Kept others mine (Claimed others name) where
  others := fun _ _ hr _ _ _ hbeat hpid => hr.beats hmine hbeat hpid
  calm := fun _ _ hc hw beat pid hbeat => hw beat pid (hc.beats ▸ hbeat)

/-- A worker that is looked over first, and retired if it is idle. -/
theorem triple_idleFirst {s : Steps α} {pid : ℕ} {fromisoformat : String → Except Err ℤ} {staleAfter : ℤ}
    {agent workerId : String} {asks : Beat → Bool} (hheld : ¬ others pid) (hs : s.Sound spec others mine faults pid) :
    Triple (system others mine faults) (guard spec) (AllLoose others)
      (do if !(← ofExcept (← readHeartbeat fromisoformat staleAfter agent workerId asks pid).idle) then return none
          else stopFrozen s pid) (fun _ => AllLoose others) (fun _ => Left others faults) := by
  have hloose : Kept others mine (AllLoose others) := kept_allLoose
  refine Triple.bind (triple_looks (readHeartbeat_only Op.harmless_of_reads ..)) fun beat => ?_
  refine Triple.bind (triple_looks (Script.Only.ofExcept beat.idle)) fun idle => ?_
  split
  · exact .pure (hloose.stable faults) fun w hw => hw
  · exact triple_stopFrozen hheld hs

theorem Takeover.triple_stopIdle (settings : Takeover.Settings) (target : Takeover.Target)
    (hmine : mine (target.agent ++ "-" ++ target.workerId)) :
    Triple (system others mine faults) (guard (Takeover.conditions settings target))
      (fun w => AllLoose others w ∧ Claimed others (target.agent ++ "-" ++ target.workerId) w)
      (Takeover.stopIdle settings target) (fun _ => Left others faults) (fun _ => Left others faults) := by
  have hloose : Kept others mine (AllLoose others) := kept_allLoose
  have hleft : Kept others mine (Left others faults) := kept_left faults
  have hpre : Kept others mine (fun w => AllLoose others w ∧ Claimed others (target.agent ++ "-" ++ target.workerId) w) :=
    hloose.and (kept_claimed hmine)
  have hnamed : ∀ beat : Beat, Kept others mine (fun w => AllLoose others w ∧
      ∀ pid, namedPid (beat.get "pid") = some pid → ¬ others pid) := fun _ => hloose.and (.const _)
  refine Triple.rescue (F := fun _ => Left others faults) ?_ (fun _ => hleft.stable faults) fun e => ?_
  · refine Triple.bind (R := fun beat w => AllLoose others w ∧
      ∀ pid, namedPid (beat.get "pid") = some pid → ¬ others pid) ?_ fun beat => ?_
    · refine Triple.rescue (F := fun _ => AllLoose others) (triple_read rfl hpre (fun _ _ => trivial) hnamed
        (fun w beat hw h => ⟨hloose.calm w _ (calm_exec _ rfl w) hw.1, fun pid hpid => ?_⟩) (fun _ => hloose)
        fun _ w hw => hw.1) (fun beat => (hnamed beat).stable faults) fun e => ?_
      · simp only [exec] at h
        split at h
        · cases h
        · obtain rfl := Except.ok.inj h
          exact hw.2 _ pid ‹_› hpid
      · split
        · exact .pure (hloose.stable faults) fun w hw => ⟨hw, fun pid h => nomatch h⟩
        · exact .raise (hloose.stable faults) fun w hw => .inl hw
    · generalize namedPid (beat.get "pid") = named
      cases named with
      | none => exact .pure ((hloose.and (.const _)).stable faults) fun w hw => .inl hw.1
      | some pid =>
        by_cases hheld : others pid
        · exact fun w hw => absurd hheld (hw.2 pid rfl)
        · exact (triple_idleFirst hheld (Takeover.sound settings target hheld)).weaken (fun w hw => hw.1)
            (fun _ w hw => .inl hw) fun _ _ hw => hw
  · split
    · exact .pure (hleft.stable faults) fun w hw => hw
    · exact .raise (hleft.stable faults) fun w hw => hw

theorem ZaiFleet.triple_stopIdle (fromisoformat : String → Except Err ℤ) (staleAfter : ℤ) (worker : ZaiFleet.Worker)
    {pid : ℕ} (hheld : ¬ others pid) :
    Triple (system others mine faults) (guard (ZaiFleet.conditions fromisoformat staleAfter worker))
      (AllLoose others) (ZaiFleet.stopIdle fromisoformat staleAfter worker pid) (fun _ => AllLoose others)
      (fun _ => Left others faults) := by
  unfold ZaiFleet.stopIdle
  split
  · exact .pure (kept_allLoose.stable faults) fun w hw => hw
  · exact triple_idleFirst hheld (ZaiFleet.sound fromisoformat staleAfter worker hheld)

theorem CodexPool.triple_stopIdle (settings : CodexPool.Settings) (worker : CodexPool.Worker)
    (hlate : faults.lateStop = false) (hheld : ¬ others worker.pid) :
    Triple (system others mine faults) (guard (CodexPool.conditions settings worker)) (AllLoose others)
      (CodexPool.stopIdle settings worker) (fun _ => AllLoose others) (fun _ => Left others faults) := by
  refine Triple.bind (triple_looks (Script.Only.ofExcept _)) fun idle => ?_
  split
  · exact .pure (kept_allLoose.stable faults) fun w hw => hw
  · exact triple_stopFrozen hheld (CodexPool.sound settings worker hlate hheld)

end Triples

/-! ## Every interleaving -/

/-- The operation that comes next meets its guard. -/
def MeetsGuard {α : Type} (spec : Spec) (c : World × Script Op Err α) : Prop :=
  match c.2 with
  | .op o _ => guard spec _ o c.1
  | _ => True

/-- What the program leaves at its end. -/
def EndsLeft {α : Type} (others : ℕ → Prop) (faults : Faults) (c : World × Script Op Err α) : Prop :=
  match c.2 with
  | .op _ _ => True
  | _ => Left others faults c.1

section Reached

variable {α : Type} {others : ℕ → Prop} {mine : String → Prop} {faults : Faults} {spec : Spec} {P : World → Prop}
  {Q : α → World → Prop} {p : Script Op Err α} {w : World} {c : World × Script Op Err α}

theorem meetsGuard_of_triple (h : Triple (system others mine faults) (guard spec) P p Q (fun _ => Left others faults))
    (hw : P w) (hreaches : Reaches (system others mine faults) (w, p) c) : MeetsGuard spec c := by
  have hguarded := guarded_of_reaches (h w hw) hreaches
  obtain ⟨w', p'⟩ := c
  cases p' with
  | ret a => trivial
  | raise e => trivial
  | op o next => exact hguarded.op

theorem endsLeft_of_triple (h : Triple (system others mine faults) (guard spec) P p Q (fun _ => Left others faults))
    (hQ : ∀ a w, Q a w → Left others faults w) (hw : P w) (hreaches : Reaches (system others mine faults) (w, p) c) :
    EndsLeft others faults c := by
  have hguarded := guarded_of_reaches (h w hw) hreaches
  obtain ⟨w', p'⟩ := c
  cases p' with
  | ret a => exact hQ a _ hguarded.ret
  | raise e => exact hguarded.raise
  | op o next => trivial

end Reached

/-- An attempt begins: nothing is to stop, and nothing has been noted. -/
structure Begins (others : ℕ → Prop) (w : World) : Prop where
  loose : AllLoose others w
  unseen : w.seen = []

/-- **A worker is told to end only when it may be**: in every interleaving with the workers, the machine and whatever
fails, each of the three adapters stops only a process it has opened and identified, and tells one to end only while it
stands still without a live child behind the stop signal, and after it has read its idle heartbeat since. -/
theorem told_to_end_only_when_cleared (others : ℕ → Prop) (mine : String → Prop) (lostCont : Bool) (w : World)
    (hw : Begins others w) :
    (∀ settings target c, mine (target.agent ++ "-" ++ target.workerId) →
      Claimed others (target.agent ++ "-" ++ target.workerId) w →
      Reaches (system others mine ⟨true, lostCont⟩) (w, Takeover.stopIdle settings target) c →
      MeetsGuard (Takeover.conditions settings target) c) ∧
    (∀ fromisoformat staleAfter worker pid c, ¬ others pid →
      Reaches (system others mine ⟨true, lostCont⟩) (w, ZaiFleet.stopIdle fromisoformat staleAfter worker pid) c →
      MeetsGuard (ZaiFleet.conditions fromisoformat staleAfter worker) c) ∧
    (∀ settings (worker : CodexPool.Worker) c, ¬ others worker.pid →
      Reaches (system others mine ⟨false, lostCont⟩) (w, CodexPool.stopIdle settings worker) c →
      MeetsGuard (CodexPool.conditions settings worker) c) := by
  refine ⟨fun settings target c hmine hclaimed hreaches => ?_,
    fun fromisoformat staleAfter worker pid c hheld hreaches => ?_,
    fun settings worker c hheld hreaches => ?_⟩
  · exact meetsGuard_of_triple (Takeover.triple_stopIdle settings target hmine) ⟨hw.loose, hclaimed⟩ hreaches
  · exact meetsGuard_of_triple (ZaiFleet.triple_stopIdle fromisoformat staleAfter worker hheld) hw.loose hreaches
  · exact meetsGuard_of_triple (CodexPool.triple_stopIdle settings worker rfl hheld) hw.loose hreaches

/-! ### One idle straggler -/

def sampleProc : Proc where
  start := 3
  cmdline := ["/bin/needle", "run", "--identifier", "w", "--agent", "a"]
  zombie := false
  stopping := false
  threads := fun t => if t = 5 then .running else .absent
  parent := none

def sampleMachine : Machine where
  pidMax := 8
  procs := fun pid => if pid = 5 then some sampleProc else none
  last := fun pid => if pid = 5 then 3 else 0

def sampleBeat : Beat :=
  [("qualified_id", .str "a-w"), ("worker_id", .str "w"), ("pid", .int 5), ("last_heartbeat", .str "t"),
    ("current_bead", .none), ("is_idle", .bool true), ("state", .str "IDLE")]

def sampleWorld : World where
  machine := sampleMachine
  beats := fun name => if name = "a-w" then some sampleBeat else none
  heartbeatNames := ["a-w"]
  wall := 0
  clock := 0
  units := fun _ => ⟨"", 0, "", "", ""⟩
  needle := none
  ready := []
  demanded := none
  files := fun _ => none
  loaded := fun _ => none
  saved := none
  started := []
  opened := []
  seen := []

def sampleSettings : Takeover.Settings := ⟨fun _ => .ok 0, 60, "o", "m", "/s", "/u"⟩

def sampleTarget : Takeover.Target := ⟨"w", "a", ""⟩

theorem sample_begins (others : ℕ → Prop) : Begins others sampleWorld := by
  have honly : ∀ {pid p}, sampleMachine.procs pid = some p → pid = 5 ∧ p = sampleProc := by
    intro pid p hp
    simp only [sampleMachine] at hp
    split at hp
    · exact ⟨‹_›, (Option.some.inj hp).symm⟩
    · cases hp
  refine ⟨⟨⟨fun hp => ?_, fun hp => ?_, fun hp ht => ?_, fun hp hparent => ?_⟩, fun pid _ p hp _ => ?_⟩, rfl⟩
  · obtain ⟨rfl, rfl⟩ := honly hp
    rfl
  · obtain ⟨rfl, rfl⟩ := honly hp
    decide
  · obtain ⟨rfl, rfl⟩ := honly hp
    simp only [sampleProc] at ht
    split at ht
    · subst_vars
      decide
    · cases ht
  · obtain ⟨rfl, rfl⟩ := honly hp
    cases hparent
  · obtain ⟨rfl, rfl⟩ := honly hp
    rfl

def sampleSent : World × Script Op Err (Option Takeover.Retirement) :=
  advance exec 9 (sampleWorld, Takeover.stopIdle sampleSettings sampleTarget)

/-- Its thread has come to its stop. -/
def sampleStopped : World × Script Op Err (Option Takeover.Retirement) :=
  ({ sampleSent.1 with machine :=
    sampleSent.1.machine.set 5 (some (((sampleSent.1.machine.procs 5).get (by decide)).setThread 5 .stopped)) },
    sampleSent.2)

def nextIsTerm {α : Type} : Script Op Err α → Bool
  | .op (.send _ .term) _ => true
  | _ => false

def isEnd {α : Type} : Script Op Err α → Bool
  | .op _ _ => false
  | _ => true

theorem sampleStopped_move : Move (fun _ => False) sampleSent.1.machine sampleStopped.1.machine := by
  have hthere : (sampleSent.1.machine.procs 5).isSome = true := by decide
  have hp : sampleSent.1.machine.procs 5 = some ((sampleSent.1.machine.procs 5).get hthere) :=
    (Option.some_get hthere).symm
  refine .thread hp (by decide) ?_
  rw [show ((sampleSent.1.machine.procs 5).get hthere).threads 5 = .running from rfl]
  exact .stop (by decide)

/-- The straggler of the sample is told to end once its thread has come to its stop. -/
theorem told_to_end_only_when_cleared_sample : ∃ c, Reaches (system (fun _ => False) (fun _ => True) ⟨true, true⟩)
    (sampleWorld, Takeover.stopIdle sampleSettings sampleTarget) c ∧ nextIsTerm c.2 = true ∧
    MeetsGuard (Takeover.conditions sampleSettings sampleTarget) c := by
  have hrely : Rely (fun _ => False) (fun _ => True) sampleSent.1 sampleStopped.1 :=
    ⟨.inr sampleStopped_move, Nat.le_refl _, fun _ => .inl rfl, fun _ _ _ h => h, rfl⟩
  have hreaches : Reaches (system (fun _ => False) (fun _ => True) ⟨true, true⟩)
      (sampleWorld, Takeover.stopIdle sampleSettings sampleTarget) (advance exec 8 sampleStopped) :=
    (reaches_advance (system (fun _ => False) (fun _ => True) ⟨true, true⟩) 9 _).trans
      (.head (.others hrely) (reaches_advance (system (fun _ => False) (fun _ => True) ⟨true, true⟩) 8 _))
  exact ⟨_, hreaches, by decide, (told_to_end_only_when_cleared _ _ _ _ (sample_begins _)).1 sampleSettings sampleTarget _
    trivial (fun _ _ _ _ h => h) hreaches⟩

/-- **Nothing is left stopped**, however an attempt of the three adapters ends and whatever failed in it, but for the one
worker that it opened, and for that one only if its continue signal was lost. -/
theorem nothing_left_stopped (others : ℕ → Prop) (mine : String → Prop) (lostCont : Bool) (w : World)
    (hw : Begins others w) :
    (∀ settings target c, mine (target.agent ++ "-" ++ target.workerId) →
      Claimed others (target.agent ++ "-" ++ target.workerId) w →
      Reaches (system others mine ⟨true, lostCont⟩) (w, Takeover.stopIdle settings target) c →
      EndsLeft others ⟨true, lostCont⟩ c) ∧
    (∀ fromisoformat staleAfter worker pid c, ¬ others pid →
      Reaches (system others mine ⟨true, lostCont⟩) (w, ZaiFleet.stopIdle fromisoformat staleAfter worker pid) c →
      EndsLeft others ⟨true, lostCont⟩ c) ∧
    (∀ settings (worker : CodexPool.Worker) c, ¬ others worker.pid →
      Reaches (system others mine ⟨false, lostCont⟩) (w, CodexPool.stopIdle settings worker) c →
      EndsLeft others ⟨false, lostCont⟩ c) := by
  refine ⟨fun settings target c hmine hclaimed hreaches => ?_,
    fun fromisoformat staleAfter worker pid c hheld hreaches => ?_,
    fun settings worker c hheld hreaches => ?_⟩
  · exact endsLeft_of_triple (Takeover.triple_stopIdle settings target hmine) (fun _ _ hw => hw)
      ⟨hw.loose, hclaimed⟩ hreaches
  · exact endsLeft_of_triple (ZaiFleet.triple_stopIdle fromisoformat staleAfter worker hheld) (fun _ _ hw => .inl hw)
      hw.loose hreaches
  · exact endsLeft_of_triple (CodexPool.triple_stopIdle settings worker rfl hheld) (fun _ _ hw => .inl hw) hw.loose hreaches

/-- The deadline strikes while the straggler of the sample stands still, and lets it go. -/
theorem nothing_left_stopped_sample : ∃ c, Reaches (system (fun _ => False) (fun _ => True) ⟨true, false⟩)
    (sampleWorld, Takeover.stopIdle sampleSettings sampleTarget) c ∧ isEnd c.2 = true ∧
    EndsLeft (fun _ => False) ⟨true, false⟩ c := by
  have hreaches : Reaches (system (fun _ => False) (fun _ => True) ⟨true, false⟩)
      (sampleWorld, Takeover.stopIdle sampleSettings sampleTarget)
      (advance exec 2 (sampleSent.1, interrupt .os sampleSent.2)) :=
    ((reaches_advance (system (fun _ => False) (fun _ => True) ⟨true, false⟩) 9 _).trans
      (reaches_interrupt (system (fun _ => False) (fun _ => True) ⟨true, false⟩) trivial)).trans
        (reaches_advance (system (fun _ => False) (fun _ => True) ⟨true, false⟩) 2 _)
  exact ⟨_, hreaches, by decide, (nothing_left_stopped _ _ _ _ (sample_begins _)).1 sampleSettings sampleTarget _
    trivial (fun _ _ _ _ h => h) hreaches⟩

/-- Its thread has come to its stop, and its heartbeat file is gone. -/
def sampleSilent : World × Script Op Err (Option Takeover.Retirement) :=
  ({ sampleStopped.1 with beats := fun _ => none }, sampleSent.2)

/-- The one exception is real: the deadline strikes between the start of the cleanup and its continue signal, the
handler takes it for a worker that could not be verified, and the worker is left stopped. -/
theorem deadline_leaves_stopped : ∃ w', Reaches (system (fun _ => False) (fun _ => True) ⟨true, true⟩)
    (sampleWorld, Takeover.stopIdle sampleSettings sampleTarget) (w', .ret none) ∧ ¬ AllLoose (fun _ => False) w' := by
  have hrely : Rely (fun _ => False) (fun _ => True) sampleSent.1 sampleSilent.1 :=
    ⟨.inr sampleStopped_move, Nat.le_refl _, fun _ => .inl rfl, fun _ _ _ h => h, rfl⟩
  have hreaches : Reaches (system (fun _ => False) (fun _ => True) ⟨true, true⟩)
      (sampleWorld, Takeover.stopIdle sampleSettings sampleTarget)
      ((advance exec 5 sampleSilent).1, interrupt .os (advance exec 5 sampleSilent).2) :=
    ((reaches_advance (system (fun _ => False) (fun _ => True) ⟨true, true⟩) 9 _).trans
      (.head (.others hrely) (reaches_advance (system (fun _ => False) (fun _ => True) ⟨true, true⟩) 5 _))).trans
        (reaches_interrupt (system (fun _ => False) (fun _ => True) ⟨true, true⟩) ⟨rfl, by decide⟩)
  refine ⟨_, hreaches, fun hloose => ?_⟩
  have hthere : ((advance exec 5 sampleSilent).1.machine.procs 5).isSome = true := by decide
  have hstopping : (((advance exec 5 sampleSilent).1.machine.procs 5).get hthere).stopping = true := rfl
  have hnot := hloose.2 5 id _ (Option.some_get hthere).symm rfl
  exact absurd (hnot.symm.trans hstopping) (by decide)

end Freeze
end Subgov
