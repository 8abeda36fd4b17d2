import Mathlib.Algebra.Group.Nat.Defs
import Mathlib.Data.List.Nodup
import Mathlib.Logic.Function.Basic
/-!
# CodexSupervisor — the sessions that `with_codex_session` keeps

One app-server child for each executable, replaced when a read on it fails, and a capped backoff between the restarts.
The lock on the sessions is held over a whole call, so calls come one after the other, from any number of threads; what
comes between them is time, a child that exits, and the two halves of `shutdown_codex_sessions`.
-/
namespace Subgov
namespace CodexSupervisor

/-! ## The backoff -/

/-- Nanoseconds. -/
def millisecond : ℕ := 1000000

/-- `CODEX_RESTART_BACKOFF_BASE` -/
def codexRestartBackoffBase : ℕ := 5000 * millisecond

/-- `CODEX_RESTART_BACKOFF_MAX` -/
def codexRestartBackoffMax : ℕ := 300000 * millisecond

structure CodexRestartBackoff where
  consecutiveFailures : ℕ
  notBefore : Option ℕ
  deriving DecidableEq

def CodexRestartBackoff.default : CodexRestartBackoff := ⟨0, none⟩

/-- How much longer to wait, where a restart is not allowed yet. -/
def CodexRestartBackoff.check (backoff : CodexRestartBackoff) (now : ℕ) : Except ℕ Unit :=
  match backoff.notBefore with
  | some notBefore => if now < notBefore then .error (notBefore - now) else .ok ()
  | none => .ok ()

/-- The cap that the jitter stays below. -/
def backoffCap (consecutiveFailures : ℕ) : ℕ :=
  min (codexRestartBackoffBase * 2 ^ min (consecutiveFailures - 1) 20) codexRestartBackoffMax

/-- `gen_range` reduces what is drawn to the range. -/
def codexRestartBackoffDelay (consecutiveFailures draw : ℕ) : ℕ :=
  draw % (backoffCap consecutiveFailures / millisecond + 1) * millisecond

/-- The count of failures is a `u32`. -/
def CodexRestartBackoff.record (backoff : CodexRestartBackoff) (succeeded : Bool) (now draw : ℕ) : CodexRestartBackoff :=
  if succeeded then .default
  else
    let failures := (backoff.consecutiveFailures + 1) % 2 ^ 32
    ⟨failures, some (now + codexRestartBackoffDelay failures draw)⟩

/-! ## The sessions -/

/-- A restart that was attempted, with when it was allowed and when its end was recorded. -/
structure Restart where
  checked : ℕ
  recorded : ℕ
  succeeded : Bool
  delay : ℕ
  deriving DecidableEq

section World

variable {P : Type} [DecidableEq P]

variable (P) in
structure World where
  now : ℕ
  sessions : List (P × ℕ)
  backoff : P → Option CodexRestartBackoff
  /-- The executable of each child that lives. -/
  children : ℕ → Option P
  spawned : ℕ
  /-- The restarts since the backoff was last cleared, the last one first. -/
  restarts : P → List Restart

variable (P) in
def World.start : World P := ⟨0, [], fun _ => none, fun _ => none, 0, fun _ => []⟩

def World.pass (w : World P) (time : ℕ) : World P := { w with now := w.now + time }

def World.kill (w : World P) (child : ℕ) : World P := { w with children := Function.update w.children child none }

def World.spawn (w : World P) (executable : P) : World P :=
  { w with children := Function.update w.children w.spawned (some executable), spawned := w.spawned + 1 }

/-- The session of an executable is dropped, which kills its child. -/
def World.remove (w : World P) (executable : P) : World P :=
  { w.sessions.lookup executable |>.elim w w.kill with
    sessions := w.sessions.filter fun session => session.1 ≠ executable }

def World.insert (w : World P) (executable : P) (child : ℕ) : World P :=
  { w.remove executable with sessions := (executable, child) :: (w.remove executable).sessions }

/-- How the attempt of a restart ends. -/
inductive Outcome
  | spawnFailed
  | handshakeFailed
  | readFailed
  | ready
  deriving DecidableEq

/-- One call of `with_codex_session`: what reading on the session it finds gives, how long that takes, and how a restart
would end. -/
structure Poll (P : Type) where
  executable : P
  reads : Bool
  reading : ℕ
  outcome : Outcome
  restarting : ℕ
  draw : ℕ

inductive Answer
  | answered
  | failed
  | refused (retryAfter : ℕ)
  deriving DecidableEq

/-- The child of an attempt, which is killed where its handshake or its first read fails. -/
def World.attempt (w : World P) (executable : P) : Outcome → World P × Option ℕ
  | .spawnFailed => (w, none)
  | .handshakeFailed => ((w.spawn executable).kill w.spawned, none)
  | .readFailed => ((w.spawn executable).kill w.spawned, none)
  | .ready => (w.spawn executable, some w.spawned)

def World.record (w : World P) (executable : P) (checked : ℕ) (succeeded : Bool) (draw : ℕ) : World P :=
  let before := (w.backoff executable).getD .default
  let after := before.record succeeded w.now draw
  { w with
    backoff := Function.update w.backoff executable (some after)
    restarts := Function.update w.restarts executable
      (⟨checked, w.now, succeeded, (after.notBefore.getD w.now) - w.now⟩ :: w.restarts executable) }

def restartCodexSession (w : World P) (poll : Poll P) : World P × Except ℕ (Option ℕ) :=
  match ((w.backoff poll.executable).getD .default).check w.now with
  | .error retryAfter => (w, .error retryAfter)
  | .ok () =>
    let attempted := w.attempt poll.executable poll.outcome
    ((attempted.1.pass poll.restarting).record poll.executable w.now attempted.2.isSome poll.draw, .ok attempted.2)

/-- The restart of a call that has no session to read on. -/
def restarted (w : World P) (poll : Poll P) : World P × Answer :=
  match restartCodexSession w poll with
  | (w', .error retryAfter) => (w', .refused retryAfter)
  | (w', .ok none) => (w', .failed)
  | (w', .ok (some child)) => (w'.insert poll.executable child, .answered)

def withCodexSession (w : World P) (poll : Poll P) : World P × Answer :=
  match w.sessions.lookup poll.executable with
  | some _ =>
    if poll.reads then (w.pass poll.reading, .answered)
    else restarted ((w.pass poll.reading).remove poll.executable) poll
  | none => restarted w poll

/-- What happens, one call or one half of `shutdown_codex_sessions` at a time. -/
inductive Event (P : Type)
  | poll (poll : Poll P)
  | passes (time : ℕ)
  | exits (child : ℕ)
  | clearSessions
  | clearBackoff

def step (w : World P) : Event P → World P
  | .poll poll => (withCodexSession w poll).1
  | .passes time => w.pass time
  | .exits child => w.kill child
  | .clearSessions => { w.sessions.foldl (fun w session => w.kill session.2) w with sessions := [] }
  | .clearBackoff => { w with backoff := fun _ => none, restarts := fun _ => [] }

/-! ## Children and sessions -/

/-- A child that lives is that of the session of its executable. -/
structure Owned (w : World P) : Prop where
  held : ∀ child executable, w.children child = some executable → (executable, child) ∈ w.sessions
  keys : (w.sessions.map Prod.fst).Nodup
  ids : (w.sessions.map Prod.snd).Nodup
  fresh : ∀ session ∈ w.sessions, session.2 < w.spawned

omit [DecidableEq P] in
theorem children_kill {w : World P} {dead child : ℕ} {executable : P}
    (h : (w.kill dead).children child = some executable) : child ≠ dead ∧ w.children child = some executable := by
  have hupdate : Function.update w.children dead none child = some executable := h
  by_cases hchild : child = dead
  · rw [hchild, Function.update_self] at hupdate
    cases hupdate
  · rw [Function.update_of_ne hchild] at hupdate
    exact ⟨hchild, hupdate⟩

omit [DecidableEq P] in
theorem Owned.kill {w : World P} (h : Owned w) (dead : ℕ) : Owned (w.kill dead) :=
  ⟨fun child executable hchild => h.held child executable (children_kill hchild).2, h.keys, h.ids, h.fresh⟩

theorem mem_of_lookup {sessions : List (P × ℕ)} {executable : P} {child : ℕ}
    (h : sessions.lookup executable = some child) : (executable, child) ∈ sessions := by
  induction sessions with
  | nil => cases h
  | cons session rest ih =>
    obtain ⟨key, value⟩ := session
    by_cases hkey : executable = key
    · subst hkey
      rw [List.lookup_cons_self] at h
      rw [Option.some.inj h]
      exact List.mem_cons_self
    · rw [List.lookup_cons, beq_false_of_ne hkey] at h
      exact List.mem_cons_of_mem _ (ih h)

theorem not_mem_of_lookup {sessions : List (P × ℕ)} {executable : P} (h : sessions.lookup executable = none) (child : ℕ) :
    (executable, child) ∉ sessions := fun hmem => by
  have hne := List.lookup_eq_none_iff.1 h _ hmem
  simp at hne

theorem lookup_filter (sessions : List (P × ℕ)) (executable : P) :
    (sessions.filter fun session => session.1 ≠ executable).lookup executable = none := by
  rw [List.lookup_eq_none_iff]
  intro session hsession
  have hne : session.1 ≠ executable := of_decide_eq_true (List.mem_filter.1 hsession).2
  exact bne_iff_ne.2 hne.symm

omit [DecidableEq P] in
theorem eq_of_keys {sessions : List (P × ℕ)} (h : (sessions.map Prod.fst).Nodup) {executable : P} {a b : ℕ}
    (ha : (executable, a) ∈ sessions) (hb : (executable, b) ∈ sessions) : a = b :=
  congrArg Prod.snd (List.inj_on_of_nodup_map h ha hb rfl)

theorem lookup_remove (w : World P) (executable : P) : (w.remove executable).sessions.lookup executable = none :=
  lookup_filter w.sessions executable

theorem remove_rest (w : World P) (executable : P) : (w.remove executable).now = w.now ∧
    (w.remove executable).backoff = w.backoff ∧ (w.remove executable).restarts = w.restarts ∧
      (w.remove executable).spawned = w.spawned := by
  unfold World.remove
  cases w.sessions.lookup executable <;> exact ⟨rfl, rfl, rfl, rfl⟩

theorem children_remove {w : World P} (executable : P) {child : ℕ} {other : P} (hown : Owned w)
    (h : (w.remove executable).children child = some other) : w.children child = some other ∧ other ≠ executable := by
  unfold World.remove at h
  cases hlookup : w.sessions.lookup executable with
  | none =>
    rw [hlookup] at h
    have hold : w.children child = some other := h
    refine ⟨hold, ?_⟩
    rintro rfl
    exact not_mem_of_lookup hlookup child (hown.held child other hold)
  | some dead =>
    rw [hlookup] at h
    obtain ⟨hchild, hold⟩ := @children_kill P w dead child other h
    refine ⟨hold, ?_⟩
    rintro rfl
    exact hchild (eq_of_keys hown.keys (hown.held child other hold) (mem_of_lookup hlookup))

/-- Dropping a session kills no other executable's child. -/
theorem children_remove_other {w : World P} (h : Owned w) {executable owner : P} (hne : owner ≠ executable) (child : ℕ) :
    (w.remove executable).children child = some owner ↔ w.children child = some owner := by
  refine ⟨fun hafter => (children_remove executable h hafter).1, fun hlives => ?_⟩
  unfold World.remove
  cases hlookup : w.sessions.lookup executable with
  | none => exact hlives
  | some dead =>
    have hchild : child ≠ dead := by
      rintro rfl
      have hsame := List.inj_on_of_nodup_map h.ids (h.held child owner hlives) (mem_of_lookup hlookup) rfl
      exact hne (congrArg Prod.fst hsame)
    show Function.update w.children dead none child = some owner
    rw [Function.update_of_ne hchild]
    exact hlives

theorem Owned.remove {w : World P} (h : Owned w) (executable : P) : Owned (w.remove executable) where
  held child other hchild := by
    obtain ⟨hold, hne⟩ := children_remove executable h hchild
    exact List.mem_filter.2 ⟨h.held child other hold, by simpa using hne⟩
  keys := h.keys.sublist (List.filter_sublist.map Prod.fst)
  ids := h.ids.sublist (List.filter_sublist.map Prod.snd)
  fresh session hsession := by
    rw [(remove_rest w executable).2.2.2]
    exact h.fresh session (List.mem_filter.1 hsession).1

theorem children_insert {w : World P} {executable : P} (hnone : w.sessions.lookup executable = none) (child : ℕ) :
    (w.insert executable child).children = w.children := by
  unfold World.insert World.remove
  rw [hnone]
  rfl

/-- The child of a restart that succeeded is that of the session put in. -/
theorem Owned.insert {w w' : World P} (h : Owned w) {executable : P} (hnone : w.sessions.lookup executable = none)
    (hchildren : w'.children = Function.update w.children w.spawned (some executable))
    (hsessions : w'.sessions = w.sessions) (hspawned : w'.spawned = w.spawned + 1) :
    Owned (w'.insert executable w.spawned) := by
  have hput : (w'.insert executable w.spawned).children = Function.update w.children w.spawned (some executable) := by
    rw [children_insert (hsessions ▸ hnone) w.spawned, hchildren]
  have hkept : (w'.insert executable w.spawned).sessions =
      (executable, w.spawned) :: w.sessions.filter fun session => session.1 ≠ executable := by
    rw [← hsessions]
    rfl
  have hnext : (w'.insert executable w.spawned).spawned = w.spawned + 1 := (remove_rest w' executable).2.2.2.trans hspawned
  refine ⟨fun other owner hother => ?_, ?_, ?_, ?_⟩
  · rw [hput] at hother
    rw [hkept]
    by_cases hnew : other = w.spawned
    · rw [hnew, Function.update_self] at hother
      rw [hnew, Option.some.inj hother]
      exact List.mem_cons_self
    · rw [Function.update_of_ne hnew] at hother
      have hmem := h.held other owner hother
      refine List.mem_cons_of_mem _ (List.mem_filter.2 ⟨hmem, ?_⟩)
      have hne : owner ≠ executable := by
        rintro rfl
        exact not_mem_of_lookup hnone other hmem
      simpa using hne
  · rw [hkept, List.map_cons, List.nodup_cons]
    refine ⟨fun hmem => ?_, h.keys.sublist (List.filter_sublist.map Prod.fst)⟩
    obtain ⟨session, hsession, hkey⟩ := List.mem_map.1 hmem
    have hne := (List.mem_filter.1 hsession).2
    simp [hkey] at hne
  · rw [hkept, List.map_cons, List.nodup_cons]
    refine ⟨fun hmem => ?_, h.ids.sublist (List.filter_sublist.map Prod.snd)⟩
    obtain ⟨session, hsession, hid⟩ := List.mem_map.1 hmem
    exact Nat.lt_irrefl _ (hid ▸ h.fresh session (List.mem_filter.1 hsession).1)
  · rw [hkept, hnext]
    exact List.forall_mem_cons.2 ⟨Nat.lt_succ_self _, fun session hsession =>
      Nat.lt_succ_of_lt (h.fresh session (List.mem_filter.1 hsession).1)⟩

/-! ## Restarts -/

def isFailure (restart : Restart) : Bool := !restart.succeeded

/-- The failures since the last success. -/
def streak (restarts : List Restart) : ℕ := (restarts.takeWhile isFailure).length

/-- Restarts that keep their distance: each is allowed only when the delay after the one before it is over, which is a
part of the cap for as many failures in a row. -/
def Spaced : List Restart → Prop
  | [] => True
  | last :: before =>
    last.checked ≤ last.recorded ∧ (last.succeeded = true → last.delay = 0) ∧
      last.delay ≤ backoffCap (streak (last :: before) % 2 ^ 32) ∧
      (∀ previous ∈ before.head?, previous.recorded + previous.delay ≤ last.checked) ∧ Spaced before

/-- What the restarts so far leave as the backoff. -/
def backoffOf : List Restart → CodexRestartBackoff
  | [] => .default
  | last :: before =>
    ⟨streak (last :: before) % 2 ^ 32, if last.succeeded then none else some (last.recorded + last.delay)⟩

theorem backoffOf_cons (last : Restart) (before : List Restart) : backoffOf (last :: before) =
    ⟨streak (last :: before) % 2 ^ 32, if last.succeeded then none else some (last.recorded + last.delay)⟩ := rfl

structure Paced (w : World P) (executable : P) : Prop where
  backoff : (w.backoff executable).getD .default = backoffOf (w.restarts executable)
  spaced : Spaced (w.restarts executable)
  past : ∀ last ∈ (w.restarts executable).head?, last.recorded ≤ w.now

theorem backoffCap_le_max (failures : ℕ) : backoffCap failures ≤ codexRestartBackoffMax := Nat.min_le_right _ _

theorem delay_le_cap (failures draw : ℕ) : codexRestartBackoffDelay failures draw ≤ backoffCap failures := by
  unfold codexRestartBackoffDelay
  have hdraw : draw % (backoffCap failures / millisecond + 1) ≤ backoffCap failures / millisecond :=
    Nat.le_of_lt_succ (Nat.mod_lt _ (Nat.succ_pos _))
  calc draw % (backoffCap failures / millisecond + 1) * millisecond
      ≤ backoffCap failures / millisecond * millisecond := Nat.mul_le_mul_right _ hdraw
    _ ≤ backoffCap failures := Nat.div_mul_le_self _ _

theorem check_backoffOf {restarts : List Restart} {now : ℕ} (hspaced : Spaced restarts)
    (hpast : ∀ last ∈ restarts.head?, last.recorded ≤ now) :
    (backoffOf restarts).check now = .ok () ∧ (∀ last ∈ restarts.head?, last.recorded + last.delay ≤ now) ∨
      ∃ last ∈ restarts.head?, last.succeeded = false ∧ now < last.recorded + last.delay ∧
        (backoffOf restarts).check now = .error (last.recorded + last.delay - now) := by
  cases restarts with
  | nil => exact .inl ⟨rfl, fun _ h => by cases h⟩
  | cons last before =>
    obtain ⟨-, hdelay, -⟩ := hspaced
    cases hlast : last.succeeded with
    | true =>
      refine .inl ⟨by simp [backoffOf, hlast, CodexRestartBackoff.check], ?_⟩
      rintro _ ⟨⟩
      rw [hdelay hlast]
      exact hpast last rfl
    | false =>
      by_cases hnow : now < last.recorded + last.delay
      · exact .inr ⟨last, rfl, hlast, hnow, by simp [backoffOf, hlast, CodexRestartBackoff.check, hnow]⟩
      · refine .inl ⟨by simp [backoffOf, hlast, CodexRestartBackoff.check, hnow], ?_⟩
        rintro _ ⟨⟩
        exact Nat.le_of_not_lt hnow

theorem streak_failed (checked recorded delay : ℕ) (before : List Restart) :
    streak (⟨checked, recorded, false, delay⟩ :: before) % 2 ^ 32 =
      ((backoffOf before).consecutiveFailures + 1) % 2 ^ 32 := by
  have hstreak : streak (⟨checked, recorded, false, delay⟩ :: before) = streak before + 1 := by simp [streak, isFailure]
  rw [hstreak]
  cases before with
  | nil => rfl
  | cons previous rest => rw [backoffOf_cons, Nat.mod_add_mod]

theorem record_succeeded (backoff : CodexRestartBackoff) (now draw : ℕ) :
    backoff.record true now draw = ⟨0, none⟩ := rfl

theorem record_failed (backoff : CodexRestartBackoff) (now draw : ℕ) : backoff.record false now draw =
    ⟨(backoff.consecutiveFailures + 1) % 2 ^ 32,
      some (now + codexRestartBackoffDelay ((backoff.consecutiveFailures + 1) % 2 ^ 32) draw)⟩ := rfl

/-- A restart is recorded that was allowed. -/
theorem Paced.record {w : World P} {executable : P} {checked : ℕ} (h : Paced w executable)
    (hallowed : ∀ last ∈ (w.restarts executable).head?, last.recorded + last.delay ≤ checked) (hchecked : checked ≤ w.now)
    (succeeded : Bool) (draw : ℕ) : Paced (w.record executable checked succeeded draw) executable := by
  have hbackoff : (w.record executable checked succeeded draw).backoff executable =
      some ((backoffOf (w.restarts executable)).record succeeded w.now draw) := by
    simp [World.record, h.backoff]
  have hrestarts : (w.record executable checked succeeded draw).restarts executable =
      ⟨checked, w.now, succeeded,
        (((backoffOf (w.restarts executable)).record succeeded w.now draw).notBefore.getD w.now) - w.now⟩ ::
          w.restarts executable := by
    simp [World.record, h.backoff]
  have hpast : ∀ last ∈ ((w.record executable checked succeeded draw).restarts executable).head?,
      last.recorded ≤ (w.record executable checked succeeded draw).now := by
    rw [hrestarts]
    rintro _ ⟨⟩
    exact Nat.le_refl _
  cases succeeded with
  | true =>
    rw [record_succeeded, Option.getD_none, Nat.sub_self] at hrestarts
    refine ⟨?_, ?_, hpast⟩
    · rw [hbackoff, hrestarts, record_succeeded]
      simp [backoffOf, streak, isFailure]
    · rw [hrestarts]
      exact ⟨hchecked, fun _ => rfl, Nat.zero_le _, hallowed, h.spaced⟩
  | false =>
    rw [record_failed, Option.getD_some, Nat.add_sub_cancel_left] at hrestarts
    refine ⟨?_, ?_, hpast⟩
    · rw [hbackoff, hrestarts, record_failed, Option.getD_some, backoffOf_cons, streak_failed]
      simp
    · rw [hrestarts]
      refine ⟨hchecked, fun htrue => (Bool.false_ne_true htrue).elim, ?_, hallowed, h.spaced⟩
      rw [streak_failed]
      exact delay_le_cap _ draw

/-! ## A call -/

structure Inv (w : World P) : Prop where
  owned : Owned w
  paced : ∀ executable, Paced w executable

omit [DecidableEq P] in
theorem Paced.of_eq {w w' : World P} {executable : P} (h : Paced w executable)
    (hbackoff : w'.backoff executable = w.backoff executable) (hrestarts : w'.restarts executable = w.restarts executable)
    (hnow : w.now ≤ w'.now) : Paced w' executable := by
  refine ⟨?_, ?_, ?_⟩
  · rw [hbackoff, hrestarts]
    exact h.backoff
  · rw [hrestarts]
    exact h.spaced
  · rw [hrestarts]
    exact fun last hlast => Nat.le_trans (h.past last hlast) hnow

omit [DecidableEq P] in
theorem Inv.pass {w : World P} (h : Inv w) (time : ℕ) : Inv (w.pass time) :=
  ⟨⟨h.owned.held, h.owned.keys, h.owned.ids, h.owned.fresh⟩,
    fun executable => (h.paced executable).of_eq rfl rfl (Nat.le_add_right _ _)⟩

omit [DecidableEq P] in
theorem Inv.kill {w : World P} (h : Inv w) (dead : ℕ) : Inv (w.kill dead) :=
  ⟨h.owned.kill dead, fun executable => (h.paced executable).of_eq rfl rfl (Nat.le_refl _)⟩

theorem Inv.remove {w : World P} (h : Inv w) (executable : P) : Inv (w.remove executable) := by
  obtain ⟨hnow, hbackoff, hrestarts, -⟩ := remove_rest w executable
  exact ⟨h.owned.remove executable, fun other =>
    (h.paced other).of_eq (by rw [hbackoff]) (by rw [hrestarts]) (Nat.le_of_eq hnow.symm)⟩

/-- The attempt of a restart, once it is recorded. -/
def World.attempted (w : World P) (poll : Poll P) : World P :=
  ((w.attempt poll.executable poll.outcome).1.pass poll.restarting).record poll.executable w.now
    (w.attempt poll.executable poll.outcome).2.isSome poll.draw

omit [DecidableEq P] in
theorem attempt_rest (w : World P) (executable : P) (outcome : Outcome) :
    (w.attempt executable outcome).1.now = w.now ∧ (w.attempt executable outcome).1.backoff = w.backoff ∧
      (w.attempt executable outcome).1.restarts = w.restarts ∧
      (w.attempt executable outcome).1.sessions = w.sessions ∧ w.spawned ≤ (w.attempt executable outcome).1.spawned := by
  cases outcome
  all_goals exact ⟨rfl, rfl, rfl, rfl, by simp [World.attempt, World.spawn, World.kill]⟩

omit [DecidableEq P] in
theorem attempt_children (w : World P) (executable : P) (outcome : Outcome) :
    (w.attempt executable outcome).2 = none ∧ (∀ child owner, (w.attempt executable outcome).1.children child = some owner →
        w.children child = some owner) ∨
      (w.attempt executable outcome).2 = some w.spawned ∧
        (w.attempt executable outcome).1.children = Function.update w.children w.spawned (some executable) ∧
        (w.attempt executable outcome).1.spawned = w.spawned + 1 := by
  have hkilled : ∀ child owner, ((w.spawn executable).kill w.spawned).children child = some owner →
      w.children child = some owner := fun child owner h => by
    obtain ⟨hne, hspawned⟩ := children_kill h
    have hupdate : Function.update w.children w.spawned (some executable) child = some owner := hspawned
    rwa [Function.update_of_ne hne] at hupdate
  cases outcome with
  | spawnFailed => exact .inl ⟨rfl, fun _ _ h => h⟩
  | handshakeFailed => exact .inl ⟨rfl, hkilled⟩
  | readFailed => exact .inl ⟨rfl, hkilled⟩
  | ready => exact .inr ⟨rfl, rfl, rfl⟩

omit [DecidableEq P] in
theorem attempt_other {w : World P} (h : Owned w) {executable owner : P} (hne : owner ≠ executable) (outcome : Outcome)
    (child : ℕ) : (w.attempt executable outcome).1.children child = some owner ↔ w.children child = some owner := by
  rcases attempt_children w executable outcome with ⟨-, hold⟩ | ⟨-, hchildren, -⟩
  · refine ⟨hold child owner, fun hlives => ?_⟩
    have hchild : child ≠ w.spawned := Nat.ne_of_lt (h.fresh _ (h.held child owner hlives))
    cases outcome with
    | spawnFailed => exact hlives
    | handshakeFailed => simpa [World.attempt, World.spawn, World.kill, hchild] using hlives
    | readFailed => simpa [World.attempt, World.spawn, World.kill, hchild] using hlives
    | ready => simpa [World.attempt, World.spawn, hchild] using hlives
  · rw [hchildren]
    by_cases hchild : child = w.spawned
    · rw [hchild, Function.update_self]
      refine ⟨fun hsame => absurd (Option.some.inj hsame).symm hne, fun hlives => ?_⟩
      exact absurd (h.fresh _ (h.held _ _ hlives)) (Nat.lt_irrefl _)
    · rw [Function.update_of_ne hchild]

theorem paced_attempted {w : World P} (h : ∀ executable, Paced w executable) (poll : Poll P)
    (hallowed : ∀ last ∈ (w.restarts poll.executable).head?, last.recorded + last.delay ≤ w.now) (executable : P) :
    Paced (w.attempted poll) executable := by
  obtain ⟨hnow, hbackoff, hrestarts, -⟩ := attempt_rest w poll.executable poll.outcome
  have hlater : w.now ≤ ((w.attempt poll.executable poll.outcome).1.pass poll.restarting).now := by
    rw [World.pass, hnow]
    exact Nat.le_add_right _ _
  have hpassed : ∀ other, Paced ((w.attempt poll.executable poll.outcome).1.pass poll.restarting) other := fun other =>
    (h other).of_eq (congrFun hbackoff other) (congrFun hrestarts other) hlater
  by_cases hsame : executable = poll.executable
  · rw [hsame]
    refine (hpassed poll.executable).record (fun last hlast => hallowed last ?_) hlater _ poll.draw
    rw [← hrestarts]
    exact hlast
  · exact (hpassed executable).of_eq (Function.update_of_ne hsame _ _) (Function.update_of_ne hsame _ _) (Nat.le_refl _)

/-- A restart is refused before its time, or attempted. -/
theorem restarted_cases {w : World P} (h : Inv w) (poll : Poll P) :
    (∃ last ∈ (w.restarts poll.executable).head?, last.succeeded = false ∧ w.now < last.recorded + last.delay ∧
      restarted w poll = (w, .refused (last.recorded + last.delay - w.now))) ∨
    (∀ last ∈ (w.restarts poll.executable).head?, last.recorded + last.delay ≤ w.now) ∧
      ((w.attempt poll.executable poll.outcome).2 = none ∧ restarted w poll = (w.attempted poll, .failed) ∨
        (w.attempt poll.executable poll.outcome).2 = some w.spawned ∧
          restarted w poll = ((w.attempted poll).insert poll.executable w.spawned, .answered)) := by
  have hpaced := h.paced poll.executable
  rcases check_backoffOf hpaced.spaced hpaced.past with ⟨hcheck, hallowed⟩ | ⟨last, hlast, hfailed, hnow, hcheck⟩
  · rw [← hpaced.backoff] at hcheck
    refine .inr ⟨hallowed, ?_⟩
    rcases attempt_children w poll.executable poll.outcome with ⟨hchild, -⟩ | ⟨hchild, -⟩
    · exact .inl ⟨hchild, by simp [restarted, restartCodexSession, hcheck, hchild, World.attempted]⟩
    · exact .inr ⟨hchild, by simp [restarted, restartCodexSession, hcheck, hchild, World.attempted]⟩
  · rw [← hpaced.backoff] at hcheck
    exact .inl ⟨last, hlast, hfailed, hnow, by simp [restarted, restartCodexSession, hcheck]⟩

theorem Inv.restarted {w : World P} (h : Inv w) (poll : Poll P) (hnone : w.sessions.lookup poll.executable = none) :
    Inv (restarted w poll).1 := by
  have hsessions : (w.attempted poll).sessions = w.sessions := (attempt_rest w poll.executable poll.outcome).2.2.2.1
  rcases restarted_cases h poll with ⟨_, _, _, _, hcall⟩ | ⟨hallowed, ⟨hchild, hcall⟩ | ⟨hchild, hcall⟩⟩
  all_goals rw [hcall]
  · exact h
  · refine ⟨⟨fun child owner hlives => ?_, hsessions ▸ h.owned.keys, hsessions ▸ h.owned.ids, fun session hsession => ?_⟩,
      paced_attempted h.paced poll hallowed⟩
    · rw [hsessions]
      rcases attempt_children w poll.executable poll.outcome with ⟨-, hold⟩ | ⟨hsome, -⟩
      · exact h.owned.held child owner (hold child owner hlives)
      · rw [hchild] at hsome
        cases hsome
    · rw [hsessions] at hsession
      exact Nat.lt_of_lt_of_le (h.owned.fresh session hsession) (attempt_rest w poll.executable poll.outcome).2.2.2.2
  · rcases attempt_children w poll.executable poll.outcome with ⟨hfailed, -⟩ | ⟨-, hchildren, hspawned⟩
    · rw [hchild] at hfailed
      cases hfailed
    · refine ⟨h.owned.insert hnone hchildren hsessions hspawned, fun executable => ?_⟩
      obtain ⟨hnow, hbackoff, hrestarts, -⟩ := remove_rest (w.attempted poll) poll.executable
      exact (paced_attempted h.paced poll hallowed executable).of_eq (congrFun hbackoff executable)
        (congrFun hrestarts executable) (Nat.le_of_eq hnow.symm)

theorem restarted_other {w : World P} (h : Inv w) (poll : Poll P) (hnone : w.sessions.lookup poll.executable = none)
    {owner : P} (hne : owner ≠ poll.executable) (child : ℕ) :
    (restarted w poll).1.children child = some owner ↔ w.children child = some owner := by
  have hattempt := attempt_other h.owned hne poll.outcome child
  rcases restarted_cases h poll with ⟨_, _, _, _, hcall⟩ | ⟨-, ⟨-, hcall⟩ | ⟨-, hcall⟩⟩
  all_goals rw [hcall]
  · exact hattempt
  · have hsame : (w.attempted poll).sessions.lookup poll.executable = none := by
      rw [show (w.attempted poll).sessions = w.sessions from (attempt_rest w poll.executable poll.outcome).2.2.2.1]
      exact hnone
    rw [children_insert hsame]
    exact hattempt

/-- A call is answered on the session it finds, or restarts without one. -/
theorem call_cases {w : World P} (h : Inv w) (poll : Poll P) :
    (∃ child, w.sessions.lookup poll.executable = some child ∧
      withCodexSession w poll = (w.pass poll.reading, .answered)) ∨
    ∃ w', Inv w' ∧ w'.sessions.lookup poll.executable = none ∧ w'.restarts = w.restarts ∧
      (∀ child owner, owner ≠ poll.executable → (w'.children child = some owner ↔ w.children child = some owner)) ∧
      withCodexSession w poll = restarted w' poll := by
  unfold withCodexSession
  cases hlookup : w.sessions.lookup poll.executable with
  | none => exact .inr ⟨w, h, hlookup, rfl, fun _ _ _ => Iff.rfl, rfl⟩
  | some child =>
    cases poll.reads with
    | true => exact .inl ⟨child, rfl, rfl⟩
    | false =>
      exact .inr ⟨_, (h.pass poll.reading).remove poll.executable, lookup_remove (w.pass poll.reading) poll.executable,
        (remove_rest (w.pass poll.reading) poll.executable).2.2.1,
        fun child owner hne => children_remove_other (h.pass poll.reading).owned hne child, rfl⟩

theorem Inv.call {w : World P} (h : Inv w) (poll : Poll P) : Inv (withCodexSession w poll).1 := by
  rcases call_cases h poll with ⟨_, -, hcall⟩ | ⟨w', hinv, hnone, -, -, hcall⟩
  · rw [hcall]
    exact h.pass poll.reading
  · rw [hcall]
    exact hinv.restarted poll hnone

/-! ## Runs -/

omit [DecidableEq P] in
/-- Killing the children of some sessions. -/
theorem kill_sessions (sessions : List (P × ℕ)) (w : World P) :
    (∀ child owner, (sessions.foldl (fun w session => w.kill session.2) w).children child = some owner →
      w.children child = some owner ∧ ∀ session ∈ sessions, child ≠ session.2) ∧
    (sessions.foldl (fun w session => w.kill session.2) w).now = w.now ∧
    (sessions.foldl (fun w session => w.kill session.2) w).backoff = w.backoff ∧
    (sessions.foldl (fun w session => w.kill session.2) w).restarts = w.restarts := by
  induction sessions generalizing w with
  | nil => exact ⟨fun _ _ h => ⟨h, fun _ h => absurd h List.not_mem_nil⟩, rfl, rfl, rfl⟩
  | cons session rest ih =>
    obtain ⟨hchildren, hrest⟩ := ih (w.kill session.2)
    refine ⟨fun child owner h => ?_, hrest⟩
    obtain ⟨hkilled, hothers⟩ := hchildren child owner h
    obtain ⟨hne, hold⟩ := children_kill hkilled
    exact ⟨hold, List.forall_mem_cons.2 ⟨hne, hothers⟩⟩

/-- Once the sessions are cleared no child lives. -/
theorem children_cleared {w : World P} (h : Owned w) (child : ℕ) : (step w .clearSessions).children child = none := by
  cases hchild : (step w .clearSessions).children child with
  | none => rfl
  | some owner =>
    obtain ⟨hold, hothers⟩ := (kill_sessions w.sessions w).1 child owner hchild
    exact absurd rfl (hothers _ (h.held child owner hold))

theorem Inv.next {w : World P} (h : Inv w) (event : Event P) : Inv (step w event) := by
  cases event with
  | poll poll => exact h.call poll
  | passes time => exact h.pass time
  | exits child => exact h.kill child
  | clearSessions =>
    obtain ⟨-, hnow, hbackoff, hrestarts⟩ := kill_sessions w.sessions w
    refine ⟨⟨fun child owner hchild => ?_, List.nodup_nil, List.nodup_nil, fun _ h => absurd h List.not_mem_nil⟩,
      fun executable => ?_⟩
    · rw [children_cleared h.owned child] at hchild
      cases hchild
    · exact (h.paced executable).of_eq (congrFun hbackoff executable) (congrFun hrestarts executable)
        (Nat.le_of_eq hnow.symm)
  | clearBackoff =>
    exact ⟨⟨h.owned.held, h.owned.keys, h.owned.ids, h.owned.fresh⟩, fun _ => ⟨rfl, trivial, fun _ hlast => by cases hlast⟩⟩

variable (P) in
omit [DecidableEq P] in
theorem Inv.start : Inv (World.start P) :=
  ⟨⟨fun _ _ hchild => (Option.some_ne_none _ hchild.symm).elim, List.nodup_nil, List.nodup_nil,
      fun _ h => absurd h List.not_mem_nil⟩,
    fun _ => ⟨rfl, trivial, fun _ hlast => by cases hlast⟩⟩

theorem Inv.run {w : World P} (h : Inv w) (events : List (Event P)) : Inv (events.foldl step w) := by
  induction events generalizing w with
  | nil => exact h
  | cons event rest ih => exact ih (h.next event)

/-- The children and the restarts of a supervisor that is safe. -/
structure Supervised (w : World P) : Prop where
  owned : ∀ child executable, w.children child = some executable → (executable, child) ∈ w.sessions
  alone : ∀ child other executable, w.children child = some executable → w.children other = some executable → child = other
  spaced : ∀ executable, Spaced (w.restarts executable)
  cleared : ∀ child, (step w .clearSessions).children child = none

/-- What a call leaves behind. -/
structure Called (w : World P) (poll : Poll P) : Prop where
  answered : (withCodexSession w poll).2 = .answered →
    ∃ child, (poll.executable, child) ∈ (withCodexSession w poll).1.sessions
  dropped : (withCodexSession w poll).2 ≠ .answered →
    ∀ child, (withCodexSession w poll).1.children child ≠ some poll.executable
  refused : ∀ retryAfter, (withCodexSession w poll).2 = .refused retryAfter →
    0 < retryAfter ∧ retryAfter ≤ codexRestartBackoffMax ∧ (withCodexSession w poll).1.restarts = w.restarts ∧
      ∃ last ∈ (w.restarts poll.executable).head?, last.succeeded = false ∧
        (withCodexSession w poll).1.now + retryAfter = last.recorded + last.delay
  others : ∀ child owner, owner ≠ poll.executable →
    ((withCodexSession w poll).1.children child = some owner ↔ w.children child = some owner)

theorem delay_le_max {restarts : List Restart} (h : Spaced restarts) : ∀ last ∈ restarts.head?,
    last.delay ≤ codexRestartBackoffMax := by
  cases restarts with
  | nil =>
    intro _ hlast
    cases hlast
  | cons last before =>
    rintro _ ⟨⟩
    exact Nat.le_trans h.2.2.1 (backoffCap_le_max _)

theorem Inv.others {w : World P} (h : Inv w) (poll : Poll P) {owner : P} (hne : owner ≠ poll.executable) (child : ℕ) :
    (withCodexSession w poll).1.children child = some owner ↔ w.children child = some owner := by
  rcases call_cases h poll with ⟨_, -, hcall⟩ | ⟨w', hinv, hnone, -, hothers, hcall⟩
  · rw [hcall]
    exact Iff.rfl
  · rw [hcall, restarted_other hinv poll hnone hne child]
    exact hothers child owner hne

theorem Inv.called {w : World P} (h : Inv w) (poll : Poll P) : Called w poll := by
  have hothers : ∀ child owner, owner ≠ poll.executable →
      ((withCodexSession w poll).1.children child = some owner ↔ w.children child = some owner) :=
    fun child _ hne => h.others poll hne child
  -- a call that is answered has a session
  have hanswered : ∀ {w' : World P} {child : ℕ}, withCodexSession w poll = (w', .answered) →
      (poll.executable, child) ∈ w'.sessions → Called w poll := by
    intro w' child hcall hsession
    refine ⟨fun _ => ⟨child, ?_⟩, fun hne => ?_, fun retryAfter hrefused => ?_, hothers⟩
    · rw [hcall]
      exact hsession
    · rw [hcall] at hne
      exact absurd rfl hne
    · rw [hcall] at hrefused
      cases hrefused
  rcases call_cases h poll with ⟨child, hlookup, hcall⟩ | ⟨w', hinv, hnone, hrestarts, -, hcall⟩
  · exact hanswered hcall (mem_of_lookup hlookup)
  have hgone : ∀ after : World P, Inv after → after.sessions = w'.sessions →
      ∀ child, after.children child ≠ some poll.executable := fun after hafter hsame child hlives =>
    not_mem_of_lookup hnone child (hsame ▸ hafter.owned.held child poll.executable hlives)
  rcases restarted_cases hinv poll with ⟨last, hlast, hfailed, hnow, hend⟩ | ⟨-, ⟨-, hend⟩ | ⟨-, hend⟩⟩
  · have hresult := hcall.trans hend
    refine ⟨fun hanswer => ?_, fun _ => ?_, fun retryAfter hrefused => ?_, hothers⟩
    · rw [hresult] at hanswer
      cases hanswer
    · rw [hresult]
      exact hgone w' hinv rfl
    · rw [hresult] at hrefused ⊢
      obtain rfl := Answer.refused.inj hrefused
      have hpaced := hinv.paced poll.executable
      have hpast := hpaced.past last hlast
      have hdelay := delay_le_max hpaced.spaced last hlast
      have hwait : w'.now + (last.recorded + last.delay - w'.now) = last.recorded + last.delay := by omega
      exact ⟨by omega, by omega, hrestarts, last, hrestarts ▸ hlast, hfailed, hwait⟩
  · have hresult := hcall.trans hend
    have hafter : Inv (w'.attempted poll) := by
      have hrun := hinv.restarted poll hnone
      rwa [hend] at hrun
    refine ⟨fun hanswer => ?_, fun _ => ?_, fun retryAfter hrefused => ?_, hothers⟩
    · rw [hresult] at hanswer
      cases hanswer
    · rw [hresult]
      exact hgone _ hafter (attempt_rest w' poll.executable poll.outcome).2.2.2.1
    · rw [hresult] at hrefused
      cases hrefused
  · exact hanswered (hcall.trans hend) List.mem_cons_self

/-- **In every run of the supervisor** (calls, time, children that exit and the halves of a shutdown, in any order) a child
that lives is the one of its executable's session, so that no executable has two and clearing the sessions leaves none;
restarts keep the distance of their backoff, whose cap doubles with each failure in a row; a call that is answered leaves
a session, another one leaves no child, and none touches the child of another executable; and a call is refused only
within the delay of a failure, at most the largest one. -/
theorem codex_sessions_supervised (events : List (Event P)) :
    Supervised (events.foldl step (World.start P)) ∧
      ∀ poll, Called (events.foldl step (World.start P)) poll := by
  have hinv := (Inv.start P).run events
  refine ⟨⟨hinv.owned.held, fun child other executable hchild hother => ?_, fun executable => (hinv.paced executable).spaced,
    children_cleared hinv.owned⟩, hinv.called⟩
  exact eq_of_keys hinv.owned.keys (hinv.owned.held child executable hchild) (hinv.owned.held other executable hother)

/-- A restart that failed keeps the next one away for the delay that was drawn. -/
example : (withCodexSession ([.poll ⟨0, true, 0, .ready, 1, 0⟩, .poll ⟨0, false, 0, .handshakeFailed, 1, 3⟩].foldl step
    (World.start ℕ)) ⟨0, true, 0, .ready, 1, 0⟩).2 = .refused 3000000 := by decide

end World
end CodexSupervisor
end Subgov
