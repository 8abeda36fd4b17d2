import Subgov.Lib.Binary64
import Subgov.Lib.FileLock
import Subgov.Lib.Json
import Subgov.Lib.Trace
import Mathlib.Data.Fintype.Basic
/-!
# CredentialsLock — processes that refresh one credentials file

Every call locks the file it opened, and a refresh installs a new file over the path.  The calls of any number of
processes interleave step by step, and each step that reads the path reads the file it names by then.  A step that
takes its lock keeps the section to one process exactly where the path names the file taken and every file held
(`always_protected_iff`), as it does where no rename comes between a process's open and its lock and no process that
renamed is still on its way out (`credentials_protected_of_takesFresh`).
-/
namespace Subgov

open Json

namespace Credentials

variable {P F : Type}

/-! ## One call -/

inductive AnthropicSourceError
  | credentialsUnopenable (path : String)
  | locked (path : String)
  | credentialsUnreadable (path : String)
  | missingField (path field : String)
  | concurrentRefresh (path : String)
  | invalidTimeout
  | refreshRequestFailed
  | refreshRedirectRefused (status : Nat) (url : String)
  | refreshResponseMissingField (field : String)
  | refreshResponseMalformed
  | credentialsWriteFailed (path : String)
  deriving DecidableEq

abbrev Token := Except AnthropicSourceError String

abbrev Oauth (F : Type) := List (String × Value F)

/-- How `write_json_atomic` ends: `unsynced` is an error after the rename. -/
inductive WriteOutcome
  | installed
  | unsynced
  | failed

/-- Where a call stands, named after what it does next or waits for. -/
inductive Phase (F : Type)
  | idle
  | waiting
  | locked
  | requesting (refreshToken : String)
  | refreshed (refreshToken : String) (response : Value F)
  | writing (updated : Value F) (access : String)
  | leaving (result : Token)

def refreshThresholdMillis : Int := 300000

def nonEmpty (value : Option (Value F)) : Option String := (value.bind Value.asStr).filter (!·.isEmpty)

def orMissing {α : Type} (error : String → AnthropicSourceError) (field : String) (value : Option α) :
    Except AnthropicSourceError α := value.elim (.error (error field)) .ok

/-- `read_json` and its `claudeAiOauth`; `credentials` is `none` where the file cannot be read or parsed. -/
def readOauth (path : String) (credentials : Option (Value F)) : Except AnthropicSourceError (Oauth F) := do
  let credentials ← credentials.elim (.error (.credentialsUnreadable path)) .ok
  orMissing (.missingField path) "claudeAiOauth" ((credentials.get "claudeAiOauth").bind Value.asObject)

def freshAccessToken (path : String) (oauth : Oauth F) (now : Int) : Except AnthropicSourceError (Option String) := do
  let expiresAt ← orMissing (.missingField path) "expiresAt" ((oauth.lookup "expiresAt").bind Value.asI64)
  if expiresAt ≤ now + refreshThresholdMillis then return none
  let token ← orMissing (.missingField path) "accessToken" (nonEmpty (oauth.lookup "accessToken"))
  return some token

def requiredRefreshToken (path : String) (oauth : Oauth F) : Except AnthropicSourceError String :=
  orMissing (.missingField path) "refreshToken" (nonEmpty (oauth.lookup "refreshToken"))

/-- The read under the lock: a fresh token is returned, another is refreshed. -/
def readDecide (path : String) (credentials : Option (Value F)) (now : Int) :
    Except AnthropicSourceError (Phase F) := do
  let oauth ← readOauth path credentials
  match ← freshAccessToken path oauth now with
  | some token => return .leaving (.ok token)
  | none => return .requesting (← requiredRefreshToken path oauth)

structure Refreshed where
  access : String
  refresh : String
  expiry : Int

def refreshedFields (response : Value F) : Except AnthropicSourceError Refreshed := do
  let access ← orMissing .refreshResponseMissingField "accessToken" (nonEmpty (response.get "accessToken"))
  let refresh ← orMissing .refreshResponseMissingField "refreshToken" (nonEmpty (response.get "refreshToken"))
  let expiry ← orMissing .refreshResponseMissingField "expiresAt" ((response.get "expiresAt").bind Value.asI64)
  return { access, refresh, expiry }

def currentRefreshToken (oauth : Oauth F) : Option String := (oauth.lookup "refreshToken").bind Value.asStr

/-- The result of a refresh that is discarded for what the file holds now. -/
def discardRefresh (path : String) (oauth : Oauth F) (now : Int) : Token :=
  match (oauth.lookup "accessToken").bind Value.asStr, (oauth.lookup "expiresAt").bind Value.asI64 with
  | some access, some expiry =>
    if !access.isEmpty && decide (now + refreshThresholdMillis < expiry) then .ok access
    else .error (.concurrentRefresh path)
  | _, _ => .error (.concurrentRefresh path)

/-- `Number::from(i64)` -/
def numberOfInt (n : Int) : Number F := if n < 0 then .negInt (Int64.ofInt n) else .posInt (UInt64.ofNat n.toNat)

def installRefresh (credentials : Option (Value F)) (oauth : Oauth F) (fields : Refreshed) : Value F :=
  let oauth := insertMember "accessToken" (.string fields.access) oauth
  let oauth := insertMember "refreshToken" (.string fields.refresh) oauth
  let oauth := insertMember "expiresAt" (.number (numberOfInt fields.expiry)) oauth
  .object (insertMember "claudeAiOauth" (.object oauth) ((credentials.bind Value.asObject).getD []))

/-- `apply_refreshed_credentials` up to the write. -/
def applyRefreshedCredentials (path expected : String) (response : Value F) (credentials : Option (Value F))
    (now : Int) : Except AnthropicSourceError (Phase F) := do
  let fields ← refreshedFields response
  let oauth ← readOauth path credentials
  if currentRefreshToken oauth ≠ some expected then return .leaving (discardRefresh path oauth now)
  return .writing (installRefresh credentials oauth fields) fields.access

/-- `?` returns the error at once. -/
def Phase.orLeave (next : Except AnthropicSourceError (Phase F)) : Phase F :=
  match next with
  | .ok phase => phase
  | .error error => .leaving (.error error)

/-- Between acquiring the lock and returning. -/
def Phase.inSection : Phase F → Bool
  | .idle | .waiting => false
  | _ => true

/-- With its result, and still to return. -/
def Phase.done : Phase F → Bool
  | .leaving _ => true
  | _ => false

/-- In the section, with the result still to come. -/
def Phase.working (phase : Phase F) : Bool := phase.inSection && !phase.done

theorem inSection_of_working {phase : Phase F} (h : phase.working = true) : phase.inSection = true :=
  (Bool.and_eq_true_iff.1 h).1

theorem done_of_working {phase : Phase F} (h : phase.working = true) : ¬ phase.done = true := by
  rw [Bool.not_eq_true]
  exact Bool.not_eq_true' _ ▸ (Bool.and_eq_true_iff.1 h).2

/-- The refresh token of a request in flight or answered. -/
def Phase.request : Phase F → Option String
  | .requesting refreshToken => some refreshToken
  | .refreshed refreshToken _ => some refreshToken
  | _ => none

/-- **What a refresh installs is what the next call reads**: the new tokens, beside every field it had. -/
theorem readOauth_installRefresh (path : String) (credentials : Option (Value F)) (oauth : Oauth F)
    (fields : Refreshed) : ∃ installed, readOauth path (some (installRefresh credentials oauth fields)) = .ok installed ∧
      installed.lookup "accessToken" = some (.string fields.access) ∧
      currentRefreshToken installed = some fields.refresh ∧
      ∀ key, key ∉ ["accessToken", "refreshToken", "expiresAt"] → installed.lookup key = oauth.lookup key := by
  refine ⟨insertMember "expiresAt" (.number (numberOfInt fields.expiry)) (insertMember "refreshToken"
    (.string fields.refresh) (insertMember "accessToken" (.string fields.access) oauth)), ?_, ?_, ?_, fun key hkey => ?_⟩
  · have hget : (installRefresh credentials oauth fields).get "claudeAiOauth" = some _ :=
      lookup_insertMember_self "claudeAiOauth" _ _
    rw [readOauth, Option.elim_some]
    show orMissing _ _ (((installRefresh credentials oauth fields).get "claudeAiOauth").bind Value.asObject) = _
    rw [hget]
    rfl
  · rw [lookup_insertMember_of_ne (by decide), lookup_insertMember_of_ne (by decide), lookup_insertMember_self]
  · rw [currentRefreshToken, lookup_insertMember_of_ne (by decide), lookup_insertMember_self]
    rfl
  · simp only [List.mem_cons, List.not_mem_nil, or_false, not_or] at hkey
    rw [lookup_insertMember_of_ne hkey.2.2, lookup_insertMember_of_ne hkey.2.1, lookup_insertMember_of_ne hkey.1]

/-! ## Interleaved calls -/

structure World (P F : Type) where
  path : String
  locks : FileLock.State P
  /-- The content of the file the path names. -/
  credentials : Option (Value F)
  phase : P → Phase F
  /-- What the last call of a process returned. -/
  returned : P → Option Token

inductive Step (P F : Type)
  | unopenable (p : P)
  | openFile (p : P)
  | acquire (p : P)
  | giveUp (p : P)
  | read (p : P) (now : Int)
  | respond (p : P) (response : Except AnthropicSourceError (Value F))
  | reread (p : P) (now : Int)
  | write (p : P) (outcome : WriteOutcome)
  | finish (p : P)

namespace World

/-- Nobody has the file open. -/
def start (path : String) (credentials : Option (Value F)) : World P F where
  path
  locks := .start
  credentials
  phase _ := .idle
  returned _ := none

variable [DecidableEq P]

def enter (w : World P F) (p : P) (phase : Phase F) : World P F := { w with phase := Function.update w.phase p phase }

@[simp] theorem phase_enter_self (w : World P F) (p : P) (phase : Phase F) : (w.enter p phase).phase p = phase :=
  Function.update_self ..

theorem phase_enter_of_ne (w : World P F) {p q : P} (h : q ≠ p) (phase : Phase F) :
    (w.enter p phase).phase q = w.phase q := Function.update_of_ne h ..

/-- Returning closes the file, and with it the lock. -/
def leave (w : World P F) (p : P) (result : Token) : World P F :=
  { w.enter p .idle with locks := w.locks.closeFile p, returned := Function.update w.returned p (some result) }

/-- A rename installs `updated` over the path. -/
def install (w : World P F) (p : P) (updated : Value F) (result : Token) : World P F :=
  { w.enter p (.leaving result) with locks := w.locks.replace, credentials := some updated }

/-- One step of a call, `none` where the call does not stand there or another process holds the lock it tries. -/
def next (w : World P F) : Step P F → Option (World P F)
  | .unopenable p =>
    match w.phase p with
    | .idle =>
      some { w with returned := Function.update w.returned p (some (.error (.credentialsUnopenable w.path))) }
    | _ => none
  | .openFile p =>
    match w.phase p with
    | .idle => some { w.enter p .waiting with locks := w.locks.openFile p }
    | _ => none
  | .acquire p =>
    match w.phase p with
    | .waiting => (w.locks.tryLock p).map fun locks => { w.enter p .locked with locks }
    | _ => none
  | .giveUp p =>
    match w.phase p with
    | .waiting => some (w.leave p (.error (.locked w.path)))
    | _ => none
  | .read p now =>
    match w.phase p with
    | .locked => some (w.enter p (.orLeave (readDecide w.path w.credentials now)))
    | _ => none
  | .respond p response =>
    match w.phase p with
    | .requesting refreshToken =>
      some (w.enter p (.orLeave (response.map fun response => .refreshed refreshToken response)))
    | _ => none
  | .reread p now =>
    match w.phase p with
    | .refreshed refreshToken response =>
      some (w.enter p (.orLeave (applyRefreshedCredentials w.path refreshToken response w.credentials now)))
    | _ => none
  | .write p outcome =>
    match w.phase p with
    | .writing updated access =>
      match outcome with
      | .installed => some (w.install p updated (.ok access))
      | .unsynced => some (w.install p updated (.error (.credentialsWriteFailed w.path)))
      | .failed => some (w.enter p (.leaving (.error (.credentialsWriteFailed w.path))))
    | _ => none
  | .finish p =>
    match w.phase p with
    | .leaving result => some (w.leave p result)
    | _ => none

end World

/-- The lock protects the section: one process is in it, requests in flight carry different tokens, and a successful
answer would not be discarded on re-reading. -/
structure Protected (w : World P F) : Prop where
  exclusive : ∀ p q, (w.phase p).inSection = true → (w.phase q).inSection = true → p = q
  distinct : ∀ p q refreshToken, w.phase p = .requesting refreshToken → w.phase q = .requesting refreshToken → p = q
  kept : ∀ p refreshToken response fields oauth, w.phase p = .refreshed refreshToken response →
    refreshedFields response = .ok fields → readOauth w.path w.credentials = .ok oauth →
    currentRefreshToken oauth = some refreshToken

/-- A process that takes its lock opened the file the path names, and so did every process that holds a lock. -/
def TakesCurrent (w : World P F) : Step P F → Prop
  | .acquire p => w.locks.Current p
  | _ => True

/-- The process has yet to return, with a file open that a rename has taken from the path. -/
def World.Behind (w : World P F) (p : P) : Prop :=
  (w.phase p).done = true ∧ w.locks.opened p ≠ some w.locks.linked

/-- No rename since the process that takes its lock opened the file, and none by a process that has yet to return. -/
def TakesFresh (w : World P F) : Step P F → Prop
  | .acquire p => w.locks.opened p = some w.locks.linked ∧ ∀ q, ¬ w.Behind q
  | _ => True

instance [Fintype P] (w : World P F) (e : Step P F) : Decidable (TakesFresh w e) := by
  unfold TakesFresh World.Behind
  cases e <;> infer_instance

/-! ## What a step does -/

variable [DecidableEq P]

def storedToken (w : World P F) : Option String := (readOauth w.path w.credentials).toOption.bind currentRefreshToken

/-- The steps by what they change: `going` stays in the section and `leaving` ends a call. -/
inductive Move (w : World P F) : Step P F → World P F → Prop
  | refused {e} (returned : P → Option Token) : Move w e { w with returned }
  | opening (p : P) (hphase : w.phase p = .idle) :
    Move w (.openFile p) { w.enter p .waiting with locks := w.locks.openFile p }
  | acquiring (p : P) (locks : FileLock.State P) (hphase : w.phase p = .waiting)
      (hlock : w.locks.tryLock p = some locks) : Move w (.acquire p) { w.enter p .locked with locks }
  | leaving {e} (p : P) (result : Token) : Move w e (w.leave p result)
  | going {e} (p : P) (phase : Phase F) (hfrom : (w.phase p).working = true) (hto : phase.inSection = true)
      (hrequest : ∀ refreshToken, phase.request = some refreshToken →
        (w.phase p).request = some refreshToken ∨ storedToken w = some refreshToken) : Move w e (w.enter p phase)
  | installing (p : P) (outcome : WriteOutcome) (updated : Value F) (result : Token)
      (hfrom : (w.phase p).inSection = true) : Move w (.write p outcome) (w.install p updated result)

theorem orMissing_ok {α : Type} {error : String → AnthropicSourceError} {field : String} {value : Option α} {a : α}
    (h : orMissing error field value = .ok a) : value = some a := by
  cases value with
  | none => cases h
  | some b =>
    cases h
    rfl

theorem bind_ok {α β : Type} {x : Except AnthropicSourceError α} {f : α → Except AnthropicSourceError β} {b : β}
    (h : x >>= f = .ok b) : ∃ a, x = .ok a ∧ f a = .ok b := by
  cases x with
  | error error => cases h
  | ok a => exact ⟨a, rfl, h⟩

theorem nonEmpty_eq_some {value : Option (Value F)} {text : String} (h : nonEmpty value = some text) :
    value.bind Value.asStr = some text := (Option.filter_eq_some_iff.1 h).1

/-- A request carries the refresh token that was read. -/
theorem readDecide_ok {path : String} {credentials : Option (Value F)} {now : Int} {phase : Phase F}
    (h : readDecide path credentials now = .ok phase) : phase.inSection = true ∧
      ∀ refreshToken, phase.request = some refreshToken →
        (readOauth path credentials).toOption.bind currentRefreshToken = some refreshToken := by
  obtain ⟨oauth, hoauth, h⟩ := bind_ok h
  obtain ⟨fresh, hfresh, h⟩ := bind_ok h
  rw [hoauth]
  cases fresh with
  | some token =>
    cases h
    exact ⟨rfl, nofun⟩
  | none =>
    obtain ⟨token, htoken, h⟩ := bind_ok h
    cases h
    refine ⟨rfl, fun refreshToken hrequest => ?_⟩
    cases hrequest
    exact nonEmpty_eq_some (orMissing_ok htoken)

theorem applyRefreshedCredentials_ok {path expected : String} {response : Value F} {credentials : Option (Value F)}
    {now : Int} {phase : Phase F}
    (h : applyRefreshedCredentials path expected response credentials now = .ok phase) :
    phase.inSection = true ∧ phase.request = none := by
  obtain ⟨fields, hfields, h⟩ := bind_ok h
  obtain ⟨oauth, hoauth, h⟩ := bind_ok h
  by_cases hsame : currentRefreshToken oauth ≠ some expected
  · rw [if_pos hsame] at h
    cases h
    exact ⟨rfl, rfl⟩
  · rw [if_neg hsame] at h
    cases h
    exact ⟨rfl, rfl⟩

/-- A move within the section where each way on is in it. -/
theorem Move.orLeave {w : World P F} {e : Step P F} {p : P} {next : Except AnthropicSourceError (Phase F)}
    (hfrom : (w.phase p).working = true)
    (hnext : ∀ phase, next = .ok phase → phase.inSection = true ∧ ∀ refreshToken,
      phase.request = some refreshToken →
        (w.phase p).request = some refreshToken ∨ storedToken w = some refreshToken) :
    Move w e (w.enter p (.orLeave next)) := by
  cases next with
  | ok phase => exact .going p phase hfrom (hnext phase rfl).1 (hnext phase rfl).2
  | error error => exact .going p _ hfrom rfl nofun

theorem move_of_next {w w' : World P F} {e : Step P F} (h : w.next e = some w') : Move w e w' := by
  cases e with
  | unopenable p =>
    cases hphase : w.phase p with
    | idle =>
      simp only [World.next, hphase, Option.some.injEq] at h
      subst h
      exact .refused _
    | _ => simp [World.next, hphase] at h
  | openFile p =>
    cases hphase : w.phase p with
    | idle =>
      simp only [World.next, hphase, Option.some.injEq] at h
      subst h
      exact .opening p hphase
    | _ => simp [World.next, hphase] at h
  | acquire p =>
    cases hphase : w.phase p with
    | waiting =>
      simp only [World.next, hphase, Option.map_eq_some_iff] at h
      obtain ⟨locks, hlock, rfl⟩ := h
      exact .acquiring p locks hphase hlock
    | _ => simp [World.next, hphase] at h
  | giveUp p =>
    cases hphase : w.phase p with
    | waiting =>
      simp only [World.next, hphase, Option.some.injEq] at h
      subst h
      exact .leaving p _
    | _ => simp [World.next, hphase] at h
  | read p now =>
    cases hphase : w.phase p with
    | locked =>
      simp only [World.next, hphase, Option.some.injEq] at h
      subst h
      have hfrom : (w.phase p).working = true := by rw [hphase]; rfl
      refine .orLeave hfrom fun phase hread => ?_
      obtain ⟨hto, htoken⟩ := readDecide_ok hread
      exact ⟨hto, fun refreshToken hrequest => Or.inr (htoken refreshToken hrequest)⟩
    | _ => simp [World.next, hphase] at h
  | respond p response =>
    cases hphase : w.phase p with
    | requesting sent =>
      simp only [World.next, hphase, Option.some.injEq] at h
      subst h
      have hfrom : (w.phase p).working = true := by rw [hphase]; rfl
      refine .orLeave hfrom fun phase hanswer => ?_
      cases response with
      | error error => cases hanswer
      | ok answer =>
        cases hanswer
        exact ⟨rfl, fun refreshToken hrequest => Or.inl (by rw [hphase]; exact hrequest)⟩
    | _ => simp [World.next, hphase] at h
  | reread p now =>
    cases hphase : w.phase p with
    | refreshed sent response =>
      simp only [World.next, hphase, Option.some.injEq] at h
      subst h
      have hfrom : (w.phase p).working = true := by rw [hphase]; rfl
      refine .orLeave hfrom fun phase happlied => ?_
      obtain ⟨hto, hnone⟩ := applyRefreshedCredentials_ok happlied
      exact ⟨hto, fun refreshToken hrequest => nomatch hnone.symm.trans hrequest⟩
    | _ => simp [World.next, hphase] at h
  | write p outcome =>
    cases hphase : w.phase p with
    | writing updated access =>
      have hfrom : (w.phase p).working = true := by rw [hphase]; rfl
      cases outcome <;> simp only [World.next, hphase, Option.some.injEq] at h <;> subst h
      · exact .installing p _ updated _ (inSection_of_working hfrom)
      · exact .installing p _ updated _ (inSection_of_working hfrom)
      · exact .going p _ hfrom rfl nofun
    | _ => simp [World.next, hphase] at h
  | finish p =>
    cases hphase : w.phase p with
    | leaving result =>
      simp only [World.next, hphase, Option.some.injEq] at h
      subst h
      exact .leaving p result
    | _ => simp [World.next, hphase] at h

/-! ## What the lock keeps -/

/-- One process is in the section, its phase agrees with the lock table, and the token it sent is still the stored one. -/
structure Guarded (w : World P F) : Prop where
  owned : w.locks.Owned
  idle : ∀ p, w.phase p = .idle → w.locks.opened p = none
  inside : ∀ p, (w.phase p).inSection = true ↔ w.locks.Inside p
  exclusive : w.locks.Exclusive
  token : ∀ p refreshToken, (w.phase p).request = some refreshToken → storedToken w = some refreshToken

omit [DecidableEq P] in
theorem guarded_start (path : String) (credentials : Option (Value F)) :
    Guarded (World.start path credentials : World P F) where
  owned := nofun
  idle _ _ := rfl
  inside _ := ⟨nofun, nofun⟩
  exclusive _ _ h := nomatch h
  token _ _ h := nomatch h

theorem inSection_of_request {phase : Phase F} {refreshToken : String} (h : phase.request = some refreshToken) :
    phase.inSection = true := by
  cases phase with
  | requesting _ => rfl
  | refreshed _ _ => rfl
  | _ => cases h

omit [DecidableEq P] in
theorem Guarded.protected {w : World P F} (h : Guarded w) : Protected w where
  exclusive p q hp hq := h.exclusive p q ((h.inside p).1 hp) ((h.inside q).1 hq)
  distinct p q refreshToken hp hq :=
    h.exclusive p q ((h.inside p).1 (by rw [hp]; rfl)) ((h.inside q).1 (by rw [hq]; rfl))
  kept p refreshToken response fields oauth hphase _ hoauth := by
    have hstored := h.token p refreshToken (by rw [hphase]; rfl)
    rw [storedToken, hoauth] at hstored
    exact hstored

/-- A move of `p` alone. -/
theorem Guarded.moved {w w' : World P F} {p : P} {phase : Phase F} (h : Guarded w)
    (hphase : w'.phase = Function.update w.phase p phase) (howned : w'.locks.Owned)
    (hopened : ∀ q, q ≠ p → w'.locks.opened q = w.locks.opened q) (hidle : phase = .idle → w'.locks.opened p = none)
    (hothers : ∀ q, q ≠ p → (w'.locks.Inside q ↔ w.locks.Inside q)) (hself : phase.inSection = true ↔ w'.locks.Inside p)
    (hexclusive : w'.locks.Exclusive)
    (htoken : ∀ refreshToken, phase.request = some refreshToken → storedToken w' = some refreshToken)
    (hstored : ∀ q, q ≠ p → (w.phase q).inSection = true → storedToken w' = storedToken w) : Guarded w' where
  owned := howned
  exclusive := hexclusive
  idle q hq := by
    by_cases hqp : q = p
    · subst hqp
      rw [hphase, Function.update_self] at hq
      exact hidle hq
    · rw [hphase, Function.update_of_ne hqp] at hq
      rw [hopened q hqp, h.idle q hq]
  inside q := by
    by_cases hqp : q = p
    · subst hqp
      rw [hphase, Function.update_self]
      exact hself
    · rw [hphase, Function.update_of_ne hqp, h.inside q, hothers q hqp]
  token q refreshToken hq := by
    by_cases hqp : q = p
    · subst hqp
      rw [hphase, Function.update_self] at hq
      exact htoken refreshToken hq
    · rw [hphase, Function.update_of_ne hqp] at hq
      rw [hstored q hqp (inSection_of_request hq)]
      exact h.token q refreshToken hq

/-- **What the lock keeps, every step keeps that takes its lock on the file the path names.** -/
theorem Guarded.next {w w' : World P F} {e : Step P F} (h : Guarded w) (hcurrent : TakesCurrent w e)
    (hnext : w.next e = some w') : Guarded w' := by
  cases move_of_next hnext with
  | refused returned => exact ⟨h.owned, h.idle, h.inside, h.exclusive, h.token⟩
  | opening p hphase =>
    have houtside : ¬ w.locks.Inside p := by
      rw [← h.inside p, hphase]
      exact Bool.false_ne_true
    exact h.moved rfl (h.owned.openFile (h.idle p hphase)) (fun q hq => Function.update_of_ne hq ..) nofun
      (fun _ _ => Iff.rfl) (iff_of_false Bool.false_ne_true houtside) h.exclusive nofun fun _ _ _ => rfl
  | acquiring p locks hphase hlock =>
    obtain ⟨file, -, -, hopened, -⟩ := FileLock.State.tryLock_eq_some hlock
    have hinside := FileLock.State.inside_tryLock hlock
    refine h.moved rfl (h.owned.tryLock hlock) (fun q _ => by rw [hopened]) nofun (fun q hq => ?_) ?_ ?_ nofun
      fun _ _ _ => rfl
    · rw [hinside q, or_iff_left hq]
    · exact iff_of_true rfl ((hinside p).2 (Or.inr rfl))
    · exact (FileLock.State.exclusive_iff_current h.owned hlock).2 hcurrent
  | leaving p result =>
    have hinside := FileLock.State.inside_closeFile (s := w.locks) (p := p)
    refine h.moved rfl h.owned.closeFile (fun q hq => Function.update_of_ne hq ..) (fun _ => Function.update_self ..)
      (fun q hq => ?_) ?_ ?_ nofun fun _ _ _ => rfl
    · exact (hinside q).trans (and_iff_left hq)
    · exact iff_of_false Bool.false_ne_true fun hp => ((hinside p).1 hp).2 rfl
    · exact fun q r hq hr => h.exclusive q r ((hinside q).1 hq).1 ((hinside r).1 hr).1
  | going p phase hfrom hto hrequest =>
    refine h.moved rfl h.owned (fun _ _ => rfl) (fun hidle => ?_) (fun _ _ => Iff.rfl)
      (iff_of_true hto ((h.inside p).1 (inSection_of_working hfrom))) h.exclusive (fun refreshToken hnew => ?_)
      fun _ _ _ => rfl
    · rw [hidle] at hto
      cases hto
    · exact (hrequest refreshToken hnew).elim (h.token p refreshToken) id
  | installing p outcome updated result hfrom =>
    refine h.moved rfl h.owned (fun _ _ => rfl) nofun (fun _ _ => Iff.rfl) (iff_of_true rfl ((h.inside p).1 hfrom))
      h.exclusive nofun fun q hq hqSection => ?_
    exact absurd (h.exclusive q p ((h.inside q).1 hqSection) ((h.inside p).1 hfrom)) hq

/-- An `acquire` takes a lock. -/
theorem tryLock_of_next {w w' : World P F} {p : P} (h : w.next (.acquire p) = some w') :
    ∃ locks, w.locks.tryLock p = some locks ∧ w' = { w.enter p .locked with locks } := by
  cases hphase : w.phase p with
  | waiting =>
    simp only [World.next, hphase, Option.map_eq_some_iff] at h
    obtain ⟨locks, hlock, hw'⟩ := h
    exact ⟨locks, hlock, hw'.symm⟩
  | _ => simp [World.next, hphase] at h

/-- Taking a lock on another file than the one held puts two processes in the section. -/
theorem not_protected_next {w w' : World P F} {e : Step P F} (h : Guarded w) (hstale : ¬ TakesCurrent w e)
    (hnext : w.next e = some w') : ¬ Protected w' := by
  cases e with
  | acquire p =>
    obtain ⟨locks, hlock, rfl⟩ := tryLock_of_next hnext
    intro hprotected
    refine hstale ((FileLock.State.exclusive_iff_current h.owned hlock).1 ?_)
    have hsection : ∀ q, locks.Inside q → ((w.enter p .locked).phase q).inSection = true := by
      intro q hq
      by_cases hqp : q = p
      · rw [hqp, World.phase_enter_self]
        rfl
      · rw [World.phase_enter_of_ne w hqp, h.inside q]
        exact ((FileLock.State.inside_tryLock hlock q).1 hq).resolve_right hqp
    exact fun q r hq hr => hprotected.exclusive q r (hsection q hq) (hsection r hr)
  | _ => exact absurd trivial hstale

/-- The lock protects the section in every state of a run exactly where each lock is taken on the file the path names
with no other file's lock held. -/
theorem always_protected_iff (path : String) (credentials : Option (Value F)) (steps : List (Step P F)) :
    Trace.Always World.next Protected (World.start path credentials) steps ↔
      Trace.Each World.next TakesCurrent (World.start path credentials) steps :=
  Trace.always_iff_each (I := Guarded) (fun _ h => h.protected) (fun _ _ _ h hcurrent hnext => h.next hcurrent hnext)
    (fun _ _ _ h hstale hnext => not_protected_next h hstale hnext) (guarded_start path credentials) steps

/-! ### Locks taken afresh -/

/-- A process in the section that has the file of before a rename open has its result. -/
def Kept (w : World P F) : Prop :=
  ∀ p, (w.phase p).inSection = true → w.locks.opened p = some w.locks.linked ∨ (w.phase p).done = true

/-- A step of `p` alone that renames nothing. -/
theorem Kept.moved {w w' : World P F} {p : P} {phase : Phase F} (h : Kept w)
    (hphase : w'.phase = Function.update w.phase p phase) (hlinked : w'.locks.linked = w.locks.linked)
    (hopened : ∀ q, q ≠ p → w'.locks.opened q = w.locks.opened q)
    (hself : phase.inSection = true → w'.locks.opened p = some w.locks.linked) : Kept w' := by
  intro q hq
  rw [hphase] at hq ⊢
  rw [hlinked]
  by_cases hqp : q = p
  · subst hqp
    rw [Function.update_self] at hq
    exact Or.inl (hself hq)
  · rw [Function.update_of_ne hqp] at hq ⊢
    rw [hopened q hqp]
    exact h q hq

/-- **A rename leaves nobody else in the section**, and the process that made it has only to return. -/
theorem Kept.next {w w' : World P F} {e : Step P F} (h : Kept w) (hguarded : Guarded w) (hfresh : TakesFresh w e)
    (hnext : w.next e = some w') : Kept w' := by
  cases move_of_next hnext with
  | refused returned => exact h
  | opening p hphase => exact h.moved rfl rfl (fun q hq => Function.update_of_ne hq ..) nofun
  | acquiring p locks hphase hlock =>
    obtain ⟨file, -, -, hopened, -⟩ := FileLock.State.tryLock_eq_some hlock
    refine h.moved rfl (FileLock.State.linked_tryLock hlock) (fun q _ => by rw [hopened]) fun _ => ?_
    rw [hopened]
    exact hfresh.1
  | leaving p result => exact h.moved rfl rfl (fun q hq => Function.update_of_ne hq ..) nofun
  | going p phase hfrom hto hrequest =>
    exact h.moved rfl rfl (fun _ _ => rfl) fun _ =>
      (h p (inSection_of_working hfrom)).resolve_right (done_of_working hfrom)
  | installing p outcome updated result hfrom =>
    intro q hq
    by_cases hqp : q = p
    · refine Or.inr ?_
      rw [hqp]
      exact congrArg Phase.done (World.phase_enter_self w p (.leaving result))
    · have hsection : (w.phase q).inSection = true := by
        rw [← World.phase_enter_of_ne w hqp (.leaving result)]
        exact hq
      exact absurd (hguarded.exclusive q p ((hguarded.inside q).1 hsection) ((hguarded.inside p).1 hfrom)) hqp

omit [DecidableEq P] in
/-- A lock taken afresh is on the file the path names, and so is every lock held. -/
theorem Kept.takesCurrent {w : World P F} {e : Step P F} (h : Kept w) (hguarded : Guarded w)
    (hfresh : TakesFresh w e) : TakesCurrent w e := by
  cases e with
  | acquire p =>
    obtain ⟨hopened, hbehind⟩ := hfresh
    intro file held q hfile hheld
    rw [hopened] at hfile
    cases hfile
    refine ⟨rfl, ?_⟩
    have hsection : (w.phase q).inSection = true := (hguarded.inside q).2 ⟨held, hheld⟩
    have hlinked : w.locks.opened q = some w.locks.linked := by
      rcases h q hsection with hlinked | hdone
      · exact hlinked
      · by_contra hstale
        exact hbehind q ⟨hdone, hstale⟩
    exact (Option.some.inj (hlinked.symm.trans (hguarded.owned held q hheld))).symm
  | _ => trivial

/-- **The lock protects every run in which no rename comes between a process's open and its lock, and no lock is taken
while a process that renamed has yet to return.** -/
theorem credentials_protected_of_takesFresh (path : String) (credentials : Option (Value F))
    (steps : List (Step P F)) (h : Trace.Each World.next TakesFresh (World.start path credentials) steps) :
    Trace.Always World.next Protected (World.start path credentials) steps := by
  rw [always_protected_iff]
  refine Trace.Each.imp (I := fun w => Guarded w ∧ Kept w) ?_ ⟨guarded_start path credentials, nofun⟩ h
  rintro w e w' ⟨hguarded, hkept⟩ hfresh hnext
  have hcurrent : TakesCurrent w e := hkept.takesCurrent hguarded hfresh
  exact ⟨hcurrent, hguarded.next hcurrent hnext, hkept.next hguarded hfresh hnext⟩

/-! ### A run that is protected, and one that is not

The newcomer of the first run opens the file once the holder has returned.  In the second a waiter that opened the
replaced file and a newcomer that opened the new one are in the section together, send the refresh token they both
read, and the answer to the second is thrown away. -/

open FloatArith

inductive Caller
  | holder
  | waiter
  | newcomer
  deriving DecidableEq

instance : Fintype Caller := ⟨{.holder, .waiter, .newcomer}, fun p => by cases p <;> decide⟩

def oauthFields (access refresh : String) (expiresAt : Int) : List (String × Value F64) :=
  [("accessToken", .string access), ("expiresAt", .number (numberOfInt expiresAt)), ("refreshToken", .string refresh)]

def firstCredentials : World Caller F64 :=
  World.start "credentials.json" (some (.object [("claudeAiOauth", .object (oauthFields "a0" "r0" 0))]))

/-- A waiter gives up on the holder that refreshes, and the newcomer reads what the refresh installed. -/
def inTurn : List (Step Caller F64) := [
  .openFile .holder, .openFile .waiter, .acquire .holder, .read .holder 0, .giveUp .waiter,
  .respond .holder (.ok (.object (oauthFields "a1" "r1" 3600000))), .reread .holder 1000, .write .holder .installed,
  .finish .holder, .openFile .newcomer, .acquire .newcomer, .read .newcomer 3500000]

theorem credentials_protected_inTurn :
    Trace.Always World.next Protected firstCredentials inTurn ∧
      ∃ w, Trace.run World.next firstCredentials inTurn = some w ∧ (w.phase .newcomer).request = some "r1" :=
  ⟨credentials_protected_of_takesFresh _ _ inTurn (by decide +kernel), Trace.exists_run (by decide +kernel)⟩

/-- The holder refreshes while the waiter waits; the newcomer opens what the refresh installed. -/
def overlap : List (Step Caller F64) := [
  .openFile .holder, .openFile .waiter, .acquire .holder, .read .holder 0,
  .respond .holder (.ok (.object (oauthFields "a1" "r1" 3600000))), .reread .holder 1000, .write .holder .installed,
  .finish .holder, .acquire .waiter, .openFile .newcomer, .acquire .newcomer]

/-- By the time the two read, the token has come near its expiry. -/
def twoRequests : List (Step Caller F64) := overlap ++ [.read .waiter 3500000, .read .newcomer 3500000]

def lostAnswer : List (Step Caller F64) := twoRequests ++ [
  .respond .waiter (.ok (.object (oauthFields "a2" "r2" 7200000))), .reread .waiter 3501000, .write .waiter .installed,
  .finish .waiter, .respond .newcomer (.ok (.object (oauthFields "a3" "r3" 7200000))), .reread .newcomer 3502000,
  .finish .newcomer]

theorem credentials_lock_shared :
    ¬ Trace.Always World.next Protected firstCredentials overlap ∧
      (∃ w, Trace.run World.next firstCredentials twoRequests = some w ∧
        (w.phase .waiter).request = some "r1" ∧ (w.phase .newcomer).request = some "r1") ∧
      ∃ w, Trace.run World.next firstCredentials lostAnswer = some w ∧
        w.returned .newcomer = some (.ok "a2") ∧ storedToken w = some "r2" := by
  refine ⟨fun halways => ?_, Trace.exists_run (by decide +kernel), Trace.exists_run (by decide +kernel)⟩
  have hboth : ∃ w, Trace.run World.next firstCredentials overlap = some w ∧
      (w.phase .waiter).inSection = true ∧ (w.phase .newcomer).inSection = true := Trace.exists_run (by decide +kernel)
  obtain ⟨w, hrun, hwaiter, hnewcomer⟩ := hboth
  exact nomatch (halways.run hrun).exclusive .waiter .newcomer hwaiter hnewcomer

end Credentials

end Subgov
