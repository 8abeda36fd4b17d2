import Subgov.Lib.Json
import Subgov.Lib.Trace
import Subgov.Model
/-!
# CodexSession — polls answered from pushed notifications

A session keeps the last rate-limit payload that it took from the app-server's channel, pushed or read in full, and
answers polls from it until a full read is due.  The events are the reader thread's deliveries and the single steps of
the session's thread, in any order.  A payload is stamped when it is taken and not when it is delivered, and the clock
of the full reads starts with the session; an answer is honest where neither shows (`codex_answers_honest`).
-/
namespace Subgov

open Json

variable {F : Type}

/-! ## The session -/

/-- A moment on the wall clock and on the monotonic clock, in nanoseconds. -/
structure Moment where
  wall : DateTime
  mono : Nat
  deriving DecidableEq

def codexReconcileInterval : Nat := 900000000000

structure CodexSession (F : Type) where
  nextId : Int := 1
  lastResult : Option (Value F) := none
  lastReconciledAt : Nat
  lastObservedAt : DateTime

/-- The payload of an `account/rateLimits/updated` notification; a frame with an id is none. -/
def codexNotification (value : Value F) : Option (Value F) :=
  if (value.get "id").isSome then none
  else if (value.get "method").bind Value.asStr ≠ some "account/rateLimits/updated" then none
  else value.get "params"

def captureCodexNotification (session : CodexSession F) (value : Value F) (now : DateTime) : CodexSession F :=
  match codexNotification value with
  | some params => { session with lastResult := some params, lastObservedAt := now }
  | none => session

def codexCacheIsUsable (lastResult : Option (Value F)) (lastReconciledAt now : Nat) : Bool :=
  lastResult.isSome && decide (now - lastReconciledAt < codexReconcileInterval)

/-- The result of an answered full read. -/
def rateLimitsResult (response : Value F) : Option (Value F) :=
  if (response.get "error").isSome then none else response.get "result"

/-! ## Events -/

/-- A poll, with its start and the number of frames delivered before it. -/
structure CodexPoll where
  started : Moment
  delivered : Nat

/-- What the session's thread is doing; it waits for the response to `initialize` on behalf of no poll. -/
inductive CodexPhase
  | idle
  | draining (poll : CodexPoll)
  | waiting (poll : Option CodexPoll) (id : Int) (deadline : Nat)
  | closed

/-- A frame in the channel. -/
structure Delivered (F : Type) where
  frame : Value F
  wall : DateTime

/-- A frame taken from the channel: its place in the order of delivery, and whether it answered a full read. -/
structure Taken (F : Type) extends Delivered F where
  index : Nat
  takenAt : Moment
  answer : Bool := false

/-- What a successful poll returned. -/
structure CodexAnswer (F : Type) where
  poll : CodexPoll
  result : Value F
  observedAt : DateTime
  /-- The poll made a full read itself. -/
  fullRead : Bool

/-- The session with its channel.  `history` is what was taken, the last first, and `answer` what the last event
returned. -/
structure CodexWorld (F : Type) where
  session : CodexSession F
  phase : CodexPhase
  queue : List (Delivered F) := []
  history : List (Taken F) := []
  clock : Nat
  answer : Option (CodexAnswer F) := none

inductive CodexEvent (F : Type)
  /-- The reader thread. -/
  | deliver (frame : Value F) (wall : DateTime)
  | poll (now : Moment)
  /-- One `try_recv` of the drain. -/
  | take (now : Moment)
  /-- The drain has found the channel empty. -/
  | check (now : Moment) (wrote : Bool) (timeout : Nat)
  /-- One `recv_timeout`. -/
  | receive (now : Moment)
  | expire

namespace CodexWorld

/-- A session that was just spawned, its `initialize` written. -/
def start (now : Moment) (timeout : Nat) : CodexWorld F where
  session := { nextId := 2, lastReconciledAt := now.mono, lastObservedAt := now.wall }
  phase := .waiting none 1 (now.mono + timeout)
  clock := now.mono

def takeFrame (w : CodexWorld F) (d : Delivered F) (rest : List (Delivered F)) (now : Moment) (answer : Bool) :
    CodexWorld F :=
  { w with
    queue := rest
    history := { d with index := w.history.length, takenAt := now, answer } :: w.history
    clock := now.mono
    answer := none }

/-- The frame taken is no response that is waited for. -/
def capture (w : CodexWorld F) (d : Delivered F) (rest : List (Delivered F)) (now : Moment) : CodexWorld F :=
  { w.takeFrame d rest now false with session := captureCodexNotification w.session d.frame now.wall }

/-- The response to `initialize`, or to a full read. -/
def respond (w : CodexWorld F) (poll : Option CodexPoll) (d : Delivered F) (rest : List (Delivered F)) (now : Moment) :
    CodexWorld F :=
  match poll with
  | none =>
    { w.takeFrame d rest now false with
      phase := if (d.frame.get "error").isSome then .closed else .idle }
  | some poll =>
    match rateLimitsResult d.frame with
    | none => { w.takeFrame d rest now false with phase := .idle }
    | some result =>
      { w.takeFrame d rest now true with
        phase := .idle
        session := { w.session with
          lastResult := some result, lastReconciledAt := now.mono, lastObservedAt := now.wall }
        answer := some { poll, result, observedAt := now.wall, fullRead := true } }

/-- The poll, or the handshake, ends without an answer. -/
def giveUp (w : CodexWorld F) (poll : Option CodexPoll) : CodexWorld F :=
  { w with phase := if poll.isNone then .closed else .idle, answer := none }

/-- The cached result, or the request of a full read. -/
def conclude (w : CodexWorld F) (poll : CodexPoll) (now : Moment) (wrote : Bool) (timeout : Nat) : CodexWorld F :=
  match w.session.lastResult with
  | some result =>
    if codexCacheIsUsable w.session.lastResult w.session.lastReconciledAt now.mono then
      { w with
        phase := .idle
        clock := now.mono
        answer := some { poll, result, observedAt := w.session.lastObservedAt, fullRead := false } }
    else request
  | none => request
where
  request : CodexWorld F :=
    { w with
      session := { w.session with nextId := w.session.nextId + 1 }
      phase := if wrote then .waiting (some poll) w.session.nextId (now.mono + timeout) else .idle
      clock := now.mono
      answer := none }

/-- What an event does, `none` where it cannot happen; the monotonic clock does not step back. -/
def next (w : CodexWorld F) : CodexEvent F → Option (CodexWorld F)
  | .deliver frame wall => some { w with queue := w.queue ++ [{ frame, wall }], answer := none }
  | .poll now =>
    match w.phase with
    | .idle =>
      if w.clock ≤ now.mono then
        some { w with
          phase := .draining { started := now, delivered := w.history.length + w.queue.length }
          clock := now.mono
          answer := none }
      else none
    | _ => none
  | .take now =>
    match w.phase, w.queue with
    | .draining _, d :: rest => if w.clock ≤ now.mono then some (w.capture d rest now) else none
    | _, _ => none
  | .check now wrote timeout =>
    match w.phase, w.queue with
    | .draining poll, [] => if w.clock ≤ now.mono then some (w.conclude poll now wrote timeout) else none
    | _, _ => none
  | .receive now =>
    match w.phase, w.queue with
    | .waiting poll id deadline, d :: rest =>
      if w.clock ≤ now.mono then
        if deadline < now.mono then some (w.giveUp poll)
        else if (d.frame.get "id").bind Value.asI64 = some id then some (w.respond poll d rest now)
        else some (w.capture d rest now)
      else none
    | _, _ => none
  | .expire =>
    match w.phase with
    | .waiting poll _ _ => some (w.giveUp poll)
    | _ => none

end CodexWorld

/-! ## Honest answers -/

/-- The payload of a frame that was taken, if it has one. -/
def Taken.reading (t : Taken F) : Option (Value F) := if t.answer then t.frame.get "result" else codexNotification t.frame

/-- An answer counts as delivered when it is received. -/
def Taken.deliveredAt (t : Taken F) : DateTime := if t.answer then t.takenAt.wall else t.wall

/-- What a poll may return: the answers of full reads, and the notifications delivered before it started. -/
def CodexPoll.counts (poll : CodexPoll) (t : Taken F) : Bool :=
  t.reading.isSome && (t.answer || decide (t.index < poll.delivered))

/-- The last frame with a payload. -/
def lastReading (history : List (Taken F)) : Option (Taken F) := history.find? (·.reading.isSome)

namespace CodexWorld

variable (w : CodexWorld F)

/-- An answer is honest: it is the last payload in the order of delivery, nothing delivered before the poll being left
in the channel, it is not stamped later than it was delivered, and a full read is recent enough. -/
structure HonestAnswer (a : CodexAnswer F) : Prop where
  complete : a.poll.delivered ≤ w.history.length
  last : ∃ t, w.history.find? a.poll.counts = some t ∧ t.reading = some a.result ∧ a.observedAt ≤ t.deliveredAt
  reconciled : a.fullRead = true ∨
    ∃ t ∈ w.history, t.answer = true ∧ a.poll.started.mono < t.takenAt.mono + codexReconcileInterval

def Honest : Prop := ∀ a, w.answer = some a → w.HonestAnswer a

/-- Every payload that the cache holds is good enough to be handed out by a poll. -/
def cacheMeets (good : CodexPoll → Taken F → Bool) : CodexEvent F → Bool
  | .check now _ _ =>
    match w.phase with
    | .draining poll =>
      !codexCacheIsUsable w.session.lastResult w.session.lastReconciledAt now.mono ||
        (w.history.any (·.answer) && (lastReading w.history).all (good poll))
    | _ => true
  | _ => true

/-- A poll is answered from the cache only after a full read of the session, and with the payload of one, or of a
notification delivered before the poll and taken at a wall time not later than its delivery. -/
def CachesTimely (e : CodexEvent F) : Prop :=
  w.cacheMeets (fun poll t => t.answer || (decide (t.index < poll.delivered) && decide (t.takenAt.wall ≤ t.wall))) e =
    true

/-- The same, but for the notifications delivered while the poll drains the channel. -/
def CachesEarly (e : CodexEvent F) : Prop :=
  w.cacheMeets (fun poll t => t.answer || decide (poll.delivered ≤ t.index) || decide (t.takenAt.wall ≤ t.wall)) e =
    true

instance (e : CodexEvent F) : Decidable (w.CachesTimely e) := inferInstanceAs (Decidable (_ = true))

end CodexWorld

/-! ### What the session keeps -/

/-- What a session knows of the frames that were taken. -/
structure CodexSession.Knows (session : CodexSession F) (history : List (Taken F)) : Prop where
  result : session.lastResult = (lastReading history).bind (·.reading)
  observed : ∀ t, lastReading history = some t → session.lastObservedAt = t.takenAt.wall
  reconciled : ∀ t, history.find? (·.answer) = some t → session.lastReconciledAt = t.takenAt.mono

section Sessions

variable {session : CodexSession F} {history : List (Taken F)} {t : Taken F}

theorem lastReading_cons_some {v : Value F} (h : t.reading = some v) : lastReading (t :: history) = some t :=
  List.find?_cons_of_pos (by rw [h]; rfl)

theorem lastReading_cons_none (h : t.reading = none) : lastReading (t :: history) = lastReading history :=
  List.find?_cons_of_neg (by rw [h]; exact Bool.false_ne_true)

/-- A frame that is no answer: a notification replaces what the session keeps. -/
theorem CodexSession.Knows.capture (h : session.Knows history) (hanswer : t.answer = false) :
    (captureCodexNotification session t.frame t.takenAt.wall).Knows (t :: history) := by
  have hread : t.reading = codexNotification t.frame := by
    unfold Taken.reading
    rw [hanswer]
    rfl
  have hother : (t :: history).find? (·.answer) = history.find? (·.answer) :=
    List.find?_cons_of_neg (by rw [hanswer]; exact Bool.false_ne_true)
  have hreconciled : ∀ s, (t :: history).find? (·.answer) = some s → session.lastReconciledAt = s.takenAt.mono := by
    rw [hother]
    exact h.reconciled
  unfold captureCodexNotification
  cases hnote : codexNotification t.frame with
  | none =>
    rw [hnote] at hread
    refine ⟨?_, ?_, hreconciled⟩
    · rw [lastReading_cons_none hread]
      exact h.result
    · rw [lastReading_cons_none hread]
      exact h.observed
  | some params =>
    rw [hnote] at hread
    refine ⟨?_, ?_, hreconciled⟩
    · rw [lastReading_cons_some hread]
      exact hread.symm
    · rw [lastReading_cons_some hread]
      intro s hs
      rw [← Option.some.inj hs]

/-- A full read's answer replaces it, and starts the interval of the next one. -/
theorem CodexSession.Knows.answer {session' : CodexSession F} {result : Value F} (hanswer : t.answer = true)
    (hresult : t.frame.get "result" = some result) (hlast : session'.lastResult = some result)
    (hobserved : session'.lastObservedAt = t.takenAt.wall) (hreconciled : session'.lastReconciledAt = t.takenAt.mono) :
    session'.Knows (t :: history) := by
  have hread : t.reading = some result := by
    unfold Taken.reading
    rw [hanswer]
    exact hresult
  refine ⟨?_, ?_, ?_⟩
  · rw [lastReading_cons_some hread, hlast]
    exact hread.symm
  · rw [lastReading_cons_some hread]
    intro s hs
    rw [← Option.some.inj hs, hobserved]
  · rw [List.find?_cons_of_pos hanswer]
    intro s hs
    rw [← Option.some.inj hs, hreconciled]

/-- A frame with an id is no reading unless it is an answer. -/
theorem CodexSession.Knows.skip (h : session.Knows history) (hanswer : t.answer = false)
    (hid : (t.frame.get "id").isSome) : session.Knows (t :: history) := by
  have hnone : codexNotification t.frame = none := by
    unfold codexNotification
    rw [if_pos hid]
  have hcapture := h.capture hanswer
  unfold captureCodexNotification at hcapture
  rwa [hnone] at hcapture

end Sessions

/-! ### What a step keeps -/

namespace CodexWorld

variable {w w' : CodexWorld F} {d : Delivered F} {rest : List (Delivered F)} {now : Moment}

/-- What holds between the events. -/
structure Recorded (w : CodexWorld F) : Prop where
  knows : w.session.Knows w.history
  drained : ∀ poll, w.phase = .draining poll →
    poll.started.mono ≤ w.clock ∧ poll.delivered ≤ w.history.length + w.queue.length
  waiting : ∀ poll id deadline, w.phase = .waiting (some poll) id deadline → poll.delivered ≤ w.history.length

theorem recorded_start (now : Moment) (timeout : Nat) : (start now timeout : CodexWorld F).Recorded where
  knows := ⟨rfl, nofun, nofun⟩
  drained _ h := nomatch h
  waiting _ _ _ h := nomatch h

theorem Recorded.capture (h : w.Recorded) (hqueue : w.queue = d :: rest) (hclock : w.clock ≤ now.mono) :
    (w.capture d rest now).Recorded where
  knows := CodexSession.Knows.capture (t := { d with index := w.history.length, takenAt := now }) h.knows rfl
  drained poll hphase := by
    obtain ⟨hstarted, hdelivered⟩ := h.drained poll hphase
    rw [hqueue, List.length_cons] at hdelivered
    refine ⟨Nat.le_trans hstarted hclock, ?_⟩
    show poll.delivered ≤ (w.history.length + 1) + rest.length
    omega
  waiting poll id deadline hphase := Nat.le_succ_of_le (h.waiting poll id deadline hphase)

/-- A world whose session is idle, or closed, needs to know its history only. -/
theorem recorded_of_idle (hknows : w.session.Knows w.history) (hphase : w.phase = .idle ∨ w.phase = .closed) :
    w.Recorded where
  knows := hknows
  drained poll h := by rcases hphase with hp | hp <;> rw [hp] at h <;> cases h
  waiting poll id deadline h := by rcases hphase with hp | hp <;> rw [hp] at h <;> cases h

theorem Recorded.giveUp (h : w.Recorded) (poll : Option CodexPoll) : (w.giveUp poll).Recorded := by
  refine recorded_of_idle h.knows ?_
  cases poll with
  | none => exact Or.inr rfl
  | some poll => exact Or.inl rfl

theorem Recorded.respond (h : w.Recorded) (poll : Option CodexPoll) (hid : (d.frame.get "id").isSome) :
    (w.respond poll d rest now).Recorded := by
  unfold CodexWorld.respond
  cases poll with
  | none =>
    refine recorded_of_idle (h.knows.skip rfl hid) ?_
    dsimp only
    split
    · exact Or.inr rfl
    · exact Or.inl rfl
  | some poll =>
    cases hresult : rateLimitsResult d.frame with
    | none => exact recorded_of_idle (h.knows.skip rfl hid) (Or.inl rfl)
    | some result =>
      refine recorded_of_idle (CodexSession.Knows.answer rfl ?_ rfl rfl rfl) (Or.inl rfl)
      unfold rateLimitsResult at hresult
      split at hresult
      · cases hresult
      · exact hresult

theorem Recorded.request (h : w.Recorded) {poll : CodexPoll} (hdelivered : poll.delivered ≤ w.history.length)
    (wrote : Bool) (timeout : Nat) : (conclude.request w poll now wrote timeout).Recorded where
  knows := ⟨h.knows.result, h.knows.observed, h.knows.reconciled⟩
  drained other hphase := by
    cases wrote <;> cases hphase
  waiting other id deadline hphase := by
    cases wrote with
    | false => cases hphase
    | true =>
      cases hphase
      exact hdelivered

theorem Recorded.conclude (h : w.Recorded) {poll : CodexPoll} (hdelivered : poll.delivered ≤ w.history.length)
    (wrote : Bool) (timeout : Nat) : (w.conclude poll now wrote timeout).Recorded := by
  unfold CodexWorld.conclude
  split
  · split
    · exact recorded_of_idle h.knows (Or.inl rfl)
    · exact h.request hdelivered wrote timeout
  · exact h.request hdelivered wrote timeout

/-- What each event does where it happens. -/
inductive Moved (w : CodexWorld F) : CodexEvent F → CodexWorld F → Prop
  | deliver (frame : Value F) (wall : DateTime) :
      Moved w (.deliver frame wall) { w with queue := w.queue ++ [{ frame, wall }], answer := none }
  | poll (now : Moment) : w.phase = .idle → w.clock ≤ now.mono → Moved w (.poll now)
      { w with
        phase := .draining { started := now, delivered := w.history.length + w.queue.length }
        clock := now.mono
        answer := none }
  | take (now : Moment) (poll : CodexPoll) (d : Delivered F) (rest : List (Delivered F)) :
      w.phase = .draining poll → w.queue = d :: rest → w.clock ≤ now.mono → Moved w (.take now) (w.capture d rest now)
  | check (now : Moment) (wrote : Bool) (timeout : Nat) (poll : CodexPoll) : w.phase = .draining poll →
      w.queue = [] → w.clock ≤ now.mono → Moved w (.check now wrote timeout) (w.conclude poll now wrote timeout)
  | late (now : Moment) (poll : Option CodexPoll) : Moved w (.receive now) (w.giveUp poll)
  | respond (now : Moment) (poll : Option CodexPoll) (id : Int) (deadline : Nat) (d : Delivered F)
      (rest : List (Delivered F)) : w.phase = .waiting poll id deadline → w.queue = d :: rest →
      (d.frame.get "id").isSome → Moved w (.receive now) (w.respond poll d rest now)
  | pass (now : Moment) (d : Delivered F) (rest : List (Delivered F)) : w.queue = d :: rest → w.clock ≤ now.mono →
      Moved w (.receive now) (w.capture d rest now)
  | expire (poll : Option CodexPoll) : Moved w .expire (w.giveUp poll)

theorem moved_of_next {e : CodexEvent F} (h : w.next e = some w') : Moved w e w' := by
  cases e with
  | deliver frame wall =>
    cases h
    exact .deliver frame wall
  | poll now =>
    dsimp only [CodexWorld.next] at h
    split at h
    · rename_i hphase
      split at h
      · rename_i hclock
        cases h
        exact .poll now hphase hclock
      · cases h
    · cases h
  | take now =>
    dsimp only [CodexWorld.next] at h
    split at h
    · rename_i poll d rest hphase hqueue
      split at h
      · rename_i hclock
        cases h
        exact .take now poll d rest hphase hqueue hclock
      · cases h
    · cases h
  | check now wrote timeout =>
    dsimp only [CodexWorld.next] at h
    split at h
    · rename_i poll hphase hqueue
      split at h
      · rename_i hclock
        cases h
        exact .check now wrote timeout poll hphase hqueue hclock
      · cases h
    · cases h
  | receive now =>
    dsimp only [CodexWorld.next] at h
    split at h
    · rename_i poll id deadline d rest hphase hqueue
      split at h
      · rename_i hclock
        split at h
        · cases h
          exact .late now poll
        · split at h
          · rename_i hid
            cases h
            obtain ⟨v, hv, -⟩ := Option.bind_eq_some_iff.1 hid
            exact .respond now poll id deadline d rest hphase hqueue (by rw [hv]; rfl)
          · cases h
            exact .pass now d rest hqueue hclock
      · cases h
    · cases h
  | expire =>
    dsimp only [CodexWorld.next] at h
    split at h
    · cases h
      exact .expire _
    · cases h

theorem Recorded.moved {e : CodexEvent F} (h : w.Recorded) (hmoved : Moved w e w') : w'.Recorded := by
  cases hmoved with
  | deliver frame wall =>
    refine ⟨h.knows, fun poll hphase => ?_, h.waiting⟩
    obtain ⟨hstarted, hdelivered⟩ := h.drained poll hphase
    refine ⟨hstarted, ?_⟩
    dsimp only
    rw [List.length_append]
    omega
  | poll now hphase hclock =>
    refine ⟨h.knows, fun poll hphase => ?_, fun poll id deadline hphase => nomatch hphase⟩
    cases hphase
    exact ⟨Nat.le_refl _, Nat.le_refl _⟩
  | take now poll d rest hphase hqueue hclock => exact h.capture hqueue hclock
  | check now wrote timeout poll hphase hqueue hclock =>
    have hdelivered := (h.drained poll hphase).2
    rw [hqueue] at hdelivered
    exact h.conclude hdelivered wrote timeout
  | late now poll => exact h.giveUp poll
  | respond now poll id deadline d rest hphase hqueue hid => exact h.respond poll hid
  | pass now d rest hqueue hclock => exact h.capture hqueue hclock
  | expire poll => exact h.giveUp poll

/-! ### Honesty -/

/-- The answer of a full read is the last frame taken, and is received as it is stamped. -/
theorem honest_respond (poll : CodexPoll) (hdelivered : poll.delivered ≤ w.history.length) :
    (w.respond (some poll) d rest now).Honest := by
  intro a ha
  unfold CodexWorld.respond at ha ⊢
  cases hresult : rateLimitsResult d.frame with
  | none =>
    rw [hresult] at ha
    cases ha
  | some result =>
    rw [hresult] at ha
    cases ha
    have hread : d.frame.get "result" = some result := by
      unfold rateLimitsResult at hresult
      split at hresult
      · cases hresult
      · exact hresult
    refine ⟨Nat.le_succ_of_le hdelivered, ⟨_, List.find?_cons_of_pos ?_, hread, Int.le_refl _⟩, Or.inl rfl⟩
    unfold CodexPoll.counts Taken.reading
    dsimp only
    rw [if_pos rfl, hread]
    rfl

/-- The first entry that meets one condition is the first that meets a stronger one, if it meets that. -/
theorem find?_of_imp {α : Type} {p q : α → Bool} {xs : List α} {x : α} (h : xs.find? p = some x) (hx : q x = true)
    (himp : ∀ y, q y = true → p y = true) : xs.find? q = some x := by
  rw [List.find?_eq_some_iff_append] at h ⊢
  obtain ⟨-, front, rest, hsplit, hnone⟩ := h
  refine ⟨hx, front, rest, hsplit, fun y hy => ?_⟩
  have hfails := hnone y hy
  rw [Bool.not_eq_true'] at hfails ⊢
  exact Bool.eq_false_iff.2 fun hq => Bool.eq_false_iff.1 hfails (himp y hq)

theorem cacheMeets_check {good : CodexPoll → Taken F → Bool} {poll : CodexPoll} (hphase : w.phase = .draining poll)
    (husable : codexCacheIsUsable w.session.lastResult w.session.lastReconciledAt now.mono = true) (wrote : Bool)
    (timeout : Nat) : w.cacheMeets good (.check now wrote timeout) = true ↔
      (∃ t ∈ w.history, t.answer = true) ∧ ∀ t, lastReading w.history = some t → good poll t = true := by
  unfold cacheMeets
  rw [hphase]
  dsimp only
  rw [husable, Bool.not_true, Bool.false_or, Bool.and_eq_true, List.any_eq_true, Option.all_eq_true]

/-- **A timely cache answers honestly.** -/
theorem honest_conclude (h : w.Recorded) {poll : CodexPoll} (hphase : w.phase = .draining poll) (hqueue : w.queue = [])
    (hclock : w.clock ≤ now.mono) {wrote : Bool} {timeout : Nat}
    (htimely : w.CachesTimely (.check now wrote timeout)) : (w.conclude poll now wrote timeout).Honest := by
  intro a ha
  unfold CodexWorld.conclude at ha ⊢
  cases hlast : w.session.lastResult with
  | none =>
    rw [hlast] at ha
    cases ha
  | some result =>
    rw [hlast] at ha
    dsimp only at ha ⊢
    by_cases husable : codexCacheIsUsable (some result) w.session.lastReconciledAt now.mono = true
    · rw [if_pos husable] at ha ⊢
      cases ha
      rw [← hlast] at husable
      obtain ⟨hread, htime⟩ := (cacheMeets_check hphase husable wrote timeout).1 htimely
      simp only [Bool.or_eq_true, Bool.and_eq_true, decide_eq_true_eq] at htime
      obtain ⟨hstarted, hdelivered⟩ := h.drained poll hphase
      have hresult := h.knows.result
      rw [hlast, eq_comm, Option.bind_eq_some_iff] at hresult
      obtain ⟨t, ht, hpayload⟩ := hresult
      obtain ⟨u, hu⟩ := Option.isSome_iff_exists.1 (List.find?_isSome.2 hread)
      refine ⟨?_, ⟨t, find?_of_imp ht ?_ ?_, hpayload, ?_⟩, Or.inr ⟨u, List.mem_of_find?_eq_some hu,
        List.find?_some hu, ?_⟩⟩
      · rwa [hqueue] at hdelivered
      · unfold CodexPoll.counts
        rw [hpayload, Option.isSome_some, Bool.true_and, Bool.or_eq_true, decide_eq_true_eq]
        exact (htime t ht).imp_right And.left
      · intro y hy
        exact (Bool.and_eq_true_iff.1 hy).1
      · show w.session.lastObservedAt ≤ t.deliveredAt
        rw [h.knows.observed t ht]
        unfold Taken.deliveredAt
        split
        · exact Int.le_refl _
        · rename_i hpushed
          exact ((htime t ht).resolve_left hpushed).2
      · unfold codexCacheIsUsable at husable
        rw [Bool.and_eq_true, decide_eq_true_eq, h.knows.reconciled u hu] at husable
        show poll.started.mono < u.takenAt.mono + codexReconcileInterval
        omega
    · rw [if_neg husable] at ha
      cases ha

theorem honest_of_moved (h : w.Recorded) {e : CodexEvent F} (htimely : w.CachesTimely e) (hmoved : Moved w e w') :
    w'.Honest := by
  cases hmoved with
  | deliver frame wall => exact nofun
  | poll now hphase hclock => exact nofun
  | take now poll d rest hphase hqueue hclock => exact nofun
  | check now wrote timeout poll hphase hqueue hclock => exact honest_conclude h hphase hqueue hclock htimely
  | late now poll => exact nofun
  | respond now poll id deadline d rest hphase hqueue hid =>
    cases poll with
    | none => exact nofun
    | some poll => exact honest_respond poll (h.waiting poll id deadline hphase)
  | pass now d rest hqueue hclock => exact nofun
  | expire poll => exact nofun

/-- **Every answer of a session is honest** along a run whose cached answers are timely. -/
theorem codex_answers_honest (now : Moment) (timeout : Nat) (events : List (CodexEvent F))
    (h : Trace.Each next CachesTimely (start now timeout) events) :
    Trace.Always next Honest (start now timeout) events := by
  refine Trace.Always.of_each (I := fun w => w.Recorded ∧ w.Honest) (fun _ hw => hw.2) ?_
    ⟨recorded_start now timeout, nofun⟩ h
  rintro w e w' ⟨hrecorded, -⟩ htimely hnext
  have hmoved := moved_of_next hnext
  exact ⟨hrecorded.moved hmoved, honest_of_moved hrecorded htimely hmoved⟩

/-- The cache answers a poll that finds it usable. -/
theorem conclude_usable (poll : CodexPoll) (wrote : Bool) (timeout : Nat)
    (husable : codexCacheIsUsable w.session.lastResult w.session.lastReconciledAt now.mono = true) :
    ∃ result, (w.conclude poll now wrote timeout).history = w.history ∧
      (w.conclude poll now wrote timeout).answer =
        some { poll, result, observedAt := w.session.lastObservedAt, fullRead := false } := by
  unfold CodexWorld.conclude
  cases hlast : w.session.lastResult with
  | none =>
    rw [hlast] at husable
    cases husable
  | some result =>
    dsimp only
    rw [← hlast, if_pos husable]
    exact ⟨result, rfl, rfl⟩

theorem early_of_honest (h : w.Recorded) {e : CodexEvent F} (hmoved : Moved w e w') (hhonest : w'.Honest) :
    w.CachesEarly e := by
  cases hmoved with
  | check now wrote timeout poll hphase hqueue hclock =>
    cases husable : codexCacheIsUsable w.session.lastResult w.session.lastReconciledAt now.mono with
    | false =>
      unfold CachesEarly cacheMeets
      rw [hphase]
      dsimp only
      rw [husable]
      rfl
    | true =>
      obtain ⟨result, hhistory, hanswer⟩ := conclude_usable poll wrote timeout husable
      obtain ⟨-, ⟨u, hu, -, hstamp⟩, hreconciled⟩ := hhonest _ hanswer
      rw [hhistory] at hu hreconciled
      refine (cacheMeets_check hphase husable wrote timeout).2 ⟨?_, fun t ht => ?_⟩
      · obtain ⟨s, hs, hfull, -⟩ := hreconciled.resolve_left Bool.false_ne_true
        exact ⟨s, hs, hfull⟩
      · by_contra hbad
        simp only [Bool.or_eq_true, decide_eq_true_eq, not_or, Bool.not_eq_true] at hbad
        obtain ⟨⟨hpushed, hbefore⟩, hlate⟩ := hbad
        have hsame : w.history.find? poll.counts = some t := by
          refine find?_of_imp ht ?_ fun y hy => (Bool.and_eq_true_iff.1 hy).1
          have hread : t.reading.isSome = true := List.find?_some (p := fun s : Taken F => s.reading.isSome) ht
          unfold CodexPoll.counts
          rw [hread, Bool.true_and, Bool.or_eq_true, decide_eq_true_eq]
          exact Or.inr (Nat.lt_of_not_le hbefore)
        rw [hsame] at hu
        rw [← Option.some.inj hu, h.knows.observed t ht] at hstamp
        unfold Taken.deliveredAt at hstamp
        rw [if_neg (Bool.eq_false_iff.1 hpushed)] at hstamp
        exact hlate hstamp
  | deliver frame wall => rfl
  | poll now hphase hclock => rfl
  | take now poll d rest hphase hqueue hclock => rfl
  | late now poll => rfl
  | respond now poll id deadline d rest hphase hqueue hid => rfl
  | pass now d rest hqueue hclock => rfl
  | expire poll => rfl

/-- Where every answer is honest the cached ones are timely, but for what was delivered within a drain. -/
theorem codex_caches_early (now : Moment) (timeout : Nat) (events : List (CodexEvent F))
    (h : Trace.Always next Honest (start now timeout) events) :
    Trace.Each next CachesEarly (start now timeout) events :=
  Trace.Each.of_always (I := Recorded) (fun _ _ _ hw hnext => early_of_honest hw (moved_of_next hnext))
    (fun _ _ _ hw hnext => hw.moved (moved_of_next hnext)) (recorded_start now timeout) h

end CodexWorld

/-! ### A notification that waits for a poll -/

section Waiting

open CodexWorld

def responseFrame (id : UInt64) : Value ℚ := .object [("id", .number (.posInt id)), ("result", .object [])]

def updatedFrame : Value ℚ :=
  .object [("method", .string "account/rateLimits/updated"), ("params", .array [])]

def seconds (n : Nat) : Moment := { wall := n * nanosPerSecond, mono := n * 1000000000 }

/-- The handshake and a poll that reads in full, by the tenth second. -/
def firstRead : List (CodexEvent ℚ) :=
  [.deliver (responseFrame 1) 0, .receive (seconds 0), .poll (seconds 9), .check (seconds 9) true 5000000000,
    .deliver (responseFrame 2) (seconds 10).wall, .receive (seconds 10)]

/-- A notification delivered in the hundredth second, and a poll a minute later. -/
def laterPoll : List (CodexEvent ℚ) :=
  [.deliver updatedFrame (seconds 100).wall, .poll (seconds 160), .take (seconds 160), .check (seconds 160) true 0]

/-- The answer is stamped a minute after its delivery. -/
theorem codex_answer_young : ¬ ∀ (now : Moment) (timeout : Nat) (events : List (CodexEvent ℚ)),
    Trace.Always next Honest (start now timeout) events := by
  intro hall
  have hend := (hall (seconds 0) 5000000000 (firstRead ++ laterPoll)).run rfl
  obtain ⟨-, ⟨t, ht, -, hstamp⟩, -⟩ := hend _ rfl
  cases ht
  exact absurd hstamp (by decide)

/-- A poll within the interval, with nothing pushed. -/
theorem codex_answers_honest_quiet : Trace.Always next Honest (start (seconds 0) 5000000000)
    (firstRead ++ [.poll (seconds 160), .check (seconds 160) true 0] : List (CodexEvent ℚ)) :=
  codex_answers_honest (seconds 0) 5000000000 _ (by decide +kernel)

end Waiting

end Subgov
