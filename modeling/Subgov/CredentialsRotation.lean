import Mathlib.Data.Sum.Basic
import Subgov.CredentialsLock
import Subgov.Lib.Rotation
/-!
# CredentialsRotation — one credentials file under tokens that are honoured once

The lock does not keep two refreshes apart, and a program that does not take it may refresh as well.  Where the issuer
honours a refresh token once, that does no harm: the file never goes back to an older token, no answer is thrown away
for what the file holds by then, and the tokens of two answers are never mixed (`rotation_kept`).  The calls and the
other programs are clients of `Rotation`, and may be killed at any step.
-/
namespace Subgov

open Json

namespace Credentials

namespace Rotating

open Relation (ReflTransGen)

variable {P Q F : Type}

/-! ## Calls, other programs and the issuer -/

/-- A program that refreshes the file without its lock. -/
inductive Outsider (F : Type)
  | idle
  | requesting (refreshToken : String)
  | holding (updated : Value F)

/-- The refresh and access tokens granted together, the last ones first. -/
structure System (P Q F : Type) where
  world : World P F
  outsiders : Q → Outsider F
  grants : List (String × String)

def currentAccessToken (oauth : Oauth F) : Option String := (oauth.lookup "accessToken").bind Value.asStr

def storedIn (path : String) (credentials : Option (Value F)) : Option String :=
  (readOauth path credentials).toOption.bind currentRefreshToken

/-- The file stores these two tokens. -/
def Stores (path : String) (credentials : Option (Value F)) (grant : String × String) : Prop :=
  ∃ oauth, readOauth path credentials = .ok oauth ∧ currentRefreshToken oauth = some grant.1 ∧
    currentAccessToken oauth = some grant.2

def answeredFields (response : Except AnthropicSourceError (Value F)) : Except AnthropicSourceError Refreshed :=
  response >>= refreshedFields

/-- What the issuer makes of a request.  It honours the refresh token it issued last, and its answer may be lost or not
be read; any other request, and one that does not get there, has no answer that can be read. -/
inductive Answered (grants : List (String × String)) (refreshToken : String) :
    Except AnthropicSourceError (Value F) → List (String × String) → Prop
  | refused {response} (hnone : ∀ fields, answeredFields response ≠ .ok fields) :
      Answered grants refreshToken response grants
  | honoured {response} (grant : String × String) (hlive : (grants.map Prod.fst).head? = some refreshToken)
      (hnew : grant.1 ∉ grants.map Prod.fst)
      (hresponse : ∀ fields, answeredFields response = .ok fields → (fields.refresh, fields.access) = grant) :
      Answered grants refreshToken response (grant :: grants)

section Steps

variable [DecidableEq P] [DecidableEq Q]

/-- A process is killed, and its lock ends with it. -/
def kill (w : World P F) (p : P) : World P F := { w.enter p .idle with locks := w.locks.closeFile p }

def System.become (s : System P Q F) (q : Q) (outsider : Outsider F) : System P Q F :=
  { s with outsiders := Function.update s.outsiders q outsider }

inductive Next : System P Q F → System P Q F → Prop
  | call {s : System P Q F} {w : World P F} (e : Step P F) (hother : ∀ p response, e ≠ .respond p response)
      (hnext : s.world.next e = some w) : Next s { s with world := w }
  | respond {s : System P Q F} {w : World P F} {p : P} {refreshToken : String}
      {response : Except AnthropicSourceError (Value F)} {grants : List (String × String)}
      (hphase : s.world.phase p = .requesting refreshToken) (hanswer : Answered s.grants refreshToken response grants)
      (hnext : s.world.next (.respond p response) = some w) : Next s { s with world := w, grants }
  | killed {s : System P Q F} (p : P) : Next s { s with world := kill s.world p }
  | reads {s : System P Q F} {q : Q} {refreshToken : String} (hstored : storedToken s.world = some refreshToken) :
      Next s (s.become q (.requesting refreshToken))
  | answered {s : System P Q F} {q : Q} {refreshToken : String} {response : Except AnthropicSourceError (Value F)}
      {grants : List (String × String)} {updated : Value F} {fields : Refreshed}
      (hq : s.outsiders q = .requesting refreshToken) (hanswer : Answered s.grants refreshToken response grants)
      (hfields : answeredFields response = .ok fields)
      (hupdated : Stores s.world.path (some updated) (fields.refresh, fields.access)) :
      Next s { s.become q (.holding updated) with grants }
  | unanswered {s : System P Q F} {q : Q} {refreshToken : String} {response : Except AnthropicSourceError (Value F)}
      {grants : List (String × String)} (hq : s.outsiders q = .requesting refreshToken)
      (hanswer : Answered s.grants refreshToken response grants) : Next s { s.become q .idle with grants }
  | writes {s : System P Q F} {q : Q} {updated : Value F} {locks : FileLock.State P}
      (hq : s.outsiders q = .holding updated) (hlocks : locks = s.world.locks ∨ locks = s.world.locks.replace) :
      Next s { s.become q .idle with world := { s.world with credentials := some updated, locks } }
  | leaves {s : System P Q F} (q : Q) : Next s (s.become q .idle)

end Steps

/-! ## The clients of the rotation -/

/-- The token of an answer that is not stored yet. -/
def carriedBy (path : String) : Phase F → Option String
  | .refreshed _ response => (refreshedFields response).toOption.map Refreshed.refresh
  | .writing updated _ => storedIn path (some updated)
  | _ => none

namespace Outsider

def request : Outsider F → Option String
  | .requesting refreshToken => some refreshToken
  | _ => none

def carries (path : String) : Outsider F → Option String
  | .holding updated => storedIn path (some updated)
  | _ => none

end Outsider

/-- Calls and outsiders as clients, and the file as the register. -/
def tokens (s : System P Q F) : Rotation.State (P ⊕ Q) String where
  issued := s.grants.map Prod.fst
  stored := storedToken s.world
  known := Sum.elim (fun p => (s.world.phase p).request) fun q => (s.outsiders q).request
  carried := Sum.elim (fun p => carriedBy s.world.path (s.world.phase p)) fun q => (s.outsiders q).carries s.world.path

/-! ## What was granted together -/

/-- What a call holds comes from one answer. -/
def Backed (path : String) (grants : List (String × String)) : Phase F → Prop
  | .refreshed _ response => ∀ fields, refreshedFields response = .ok fields → (fields.refresh, fields.access) ∈ grants
  | .writing updated access => ∃ grant ∈ grants, Stores path (some updated) grant ∧ grant.2 = access
  | .leaving result => ∀ access, result = .ok access → access ∈ grants.map Prod.snd
  | _ => True

structure Granted (s : System P Q F) : Prop where
  file : ∃ grant ∈ s.grants, Stores s.world.path s.world.credentials grant
  calls : ∀ p, Backed s.world.path s.grants (s.world.phase p)
  outsiders : ∀ q updated, s.outsiders q = .holding updated → ∃ grant ∈ s.grants, Stores s.world.path (some updated) grant
  returned : ∀ p access, s.world.returned p = some (.ok access) → access ∈ s.grants.map Prod.snd

theorem Stores.storedIn {path : String} {credentials : Option (Value F)} {grant : String × String}
    (h : Stores path credentials grant) : storedIn path credentials = some grant.1 := by
  obtain ⟨oauth, hoauth, hrefresh, -⟩ := h
  unfold Rotating.storedIn
  rw [hoauth]
  exact hrefresh

/-- An access token that is read from the file was granted. -/
theorem mem_of_file {path : String} {credentials : Option (Value F)} {grants : List (String × String)} {oauth : Oauth F}
    {access : String} (hfile : ∃ grant ∈ grants, Stores path credentials grant)
    (hoauth : readOauth path credentials = .ok oauth) (haccess : currentAccessToken oauth = some access) :
    access ∈ grants.map Prod.snd := by
  obtain ⟨grant, hgrant, stored, hstored, -, hsame⟩ := hfile
  obtain rfl : oauth = stored := Except.ok.inj (hoauth.symm.trans hstored)
  rw [Option.some.inj (haccess.symm.trans hsame)]
  exact List.mem_map_of_mem hgrant

/-! ## What a step does to the tokens -/

/-- What a call is left with behind its read of the file. -/
structure Follows (path : String) (credentials : Option (Value F)) (before after : Phase F) : Prop where
  request : ∀ refreshToken, after.request = some refreshToken → storedIn path credentials = some refreshToken
  carried : ∀ refreshToken, carriedBy path after = some refreshToken → carriedBy path before = some refreshToken
  backed : ∀ grants, (∃ grant ∈ grants, Stores path credentials grant) → Backed path grants before →
    Backed path grants after

theorem follows_error {path : String} {credentials : Option (Value F)} {before : Phase F} (error : AnthropicSourceError) :
    Follows path credentials before (.leaving (.error error)) :=
  ⟨fun _ h => (nomatch h), fun _ h => (nomatch h), fun _ _ _ _ h => nomatch h⟩

theorem Follows.orLeave {path : String} {credentials : Option (Value F)} {before : Phase F}
    {next : Except AnthropicSourceError (Phase F)}
    (h : ∀ phase, next = .ok phase → Follows path credentials before phase) :
    Follows path credentials before (.orLeave next) := by
  cases next with
  | ok phase => exact h phase rfl
  | error error => exact follows_error error

theorem follows_readDecide {path : String} {credentials : Option (Value F)} {now : Int} {before phase : Phase F}
    (h : readDecide path credentials now = .ok phase) : Follows path credentials before phase := by
  have hrequest := (readDecide_ok h).2
  obtain ⟨oauth, hoauth, h⟩ := bind_ok h
  obtain ⟨fresh, hfresh, h⟩ := bind_ok h
  cases fresh with
  | some token =>
    cases h
    obtain ⟨expiresAt, -, hfresh⟩ := bind_ok hfresh
    refine ⟨hrequest, fun _ h => (nomatch h), fun grants hfile _ access haccess => ?_⟩
    obtain rfl := Except.ok.inj haccess
    split at hfresh
    · cases hfresh
    · obtain ⟨fresh, hlookup, hsame⟩ := bind_ok hfresh
      obtain rfl := Option.some.inj (Except.ok.inj hsame)
      exact mem_of_file hfile hoauth (nonEmpty_eq_some (orMissing_ok hlookup))
  | none =>
    obtain ⟨token, htoken, h⟩ := bind_ok h
    cases h
    exact ⟨hrequest, fun _ h => (nomatch h), fun _ _ _ => trivial⟩

theorem discardRefresh_ok {path : String} {oauth : Oauth F} {now : Int} {access : String}
    (h : discardRefresh path oauth now = .ok access) : currentAccessToken oauth = some access := by
  unfold discardRefresh at h
  split at h
  · rename_i stored expiry hstored hexpiry
    split at h
    · rw [← Except.ok.inj h]
      exact hstored
    · cases h
  · cases h

theorem stores_installRefresh (path : String) (credentials : Option (Value F)) (oauth : Oauth F) (fields : Refreshed) :
    Stores path (some (installRefresh credentials oauth fields)) (fields.refresh, fields.access) := by
  obtain ⟨installed, hinstalled, haccess, hrefresh, -⟩ := readOauth_installRefresh path credentials oauth fields
  refine ⟨installed, hinstalled, hrefresh, ?_⟩
  unfold currentAccessToken
  rw [haccess]
  rfl

theorem follows_applyRefreshed {path refreshToken : String} {response : Value F} {credentials : Option (Value F)}
    {now : Int} {phase : Phase F} (h : applyRefreshedCredentials path refreshToken response credentials now = .ok phase) :
    Follows path credentials (.refreshed refreshToken response) phase := by
  have hnone := (applyRefreshedCredentials_ok h).2
  obtain ⟨fields, hfields, h⟩ := bind_ok h
  obtain ⟨oauth, hoauth, h⟩ := bind_ok h
  refine ⟨fun token hrequest => (nomatch hnone.symm.trans hrequest), fun token hcarried => ?_,
    fun grants hfile hbacked => ?_⟩
  · split at h
    · cases h
      cases hcarried
    · cases h
      have hsame := (stores_installRefresh path credentials oauth fields).storedIn
      show (refreshedFields response).toOption.map Refreshed.refresh = some token
      rw [hfields]
      exact hsame.symm.trans hcarried
  · split at h
    · cases h
      exact fun access haccess => mem_of_file hfile hoauth (discardRefresh_ok haccess)
    · cases h
      exact ⟨_, hbacked fields hfields, stores_installRefresh path credentials oauth fields, rfl⟩

/-- What a step besides an answer does: a call returns, goes on, or installs what it holds. -/
inductive Turn [DecidableEq P] (w : World P F) : World P F → Prop
  | goes {w' : World P F} (p : P) (phase : Phase F) (hpath : w'.path = w.path)
      (hcredentials : w'.credentials = w.credentials)
      (hphase : w'.phase = Function.update w.phase p phase) (hfollows : Follows w.path w.credentials (w.phase p) phase)
      (hreturned : ∀ q access, w'.returned q = some (.ok access) →
        w.returned q = some (.ok access) ∨ w.phase q = .leaving (.ok access)) : Turn w w'
  | installs (p : P) {updated : Value F} {access : String} (result : Token) (hphase : w.phase p = .writing updated access)
      (hresult : ∀ returned, result = .ok returned → returned = access) : Turn w (w.install p updated result)

/-- A call that returns, or has no answer yet. -/
theorem follows_idle {path : String} {credentials : Option (Value F)} {before after : Phase F}
    (h : after = .idle ∨ after = .waiting ∨ after = .locked) : Follows path credentials before after := by
  rcases h with rfl | rfl | rfl
  all_goals exact ⟨fun _ h => (nomatch h), fun _ h => (nomatch h), fun _ _ _ => trivial⟩

theorem follows_returning {path : String} {credentials : Option (Value F)} {updated : Value F} {access : String}
    {result : Token} (hresult : ∀ returned, result = .ok returned → returned = access) :
    Follows path credentials (.writing updated access) (.leaving result) := by
  refine ⟨fun _ h => (nomatch h), fun _ h => (nomatch h), fun grants _ hbacked returned hreturned => ?_⟩
  obtain ⟨grant, hgrant, -, haccess⟩ := hbacked
  rw [hresult returned hreturned, ← haccess]
  exact List.mem_map_of_mem hgrant

section Moves

variable [DecidableEq P]

theorem returned_leave {w : World P F} {p : P} {result : Token} {q : P} {access : String}
    (h : (w.leave p result).returned q = some (.ok access)) :
    w.returned q = some (.ok access) ∨ q = p ∧ result = .ok access := by
  rcases Rotation.update_eq_some h with ⟨rfl, hresult⟩ | ⟨-, hold⟩
  · exact .inr ⟨rfl, Option.some.inj hresult⟩
  · exact .inl hold

theorem turn_of_next {w w' : World P F} {e : Step P F} (hother : ∀ p response, e ≠ .respond p response)
    (h : w.next e = some w') : Turn w w' := by
  cases e with
  | unopenable p =>
    cases hphase : w.phase p with
    | idle =>
      simp only [World.next, hphase, Option.some.injEq] at h
      subst h
      refine .goes p .idle rfl rfl ?_ (follows_idle (.inl rfl)) fun q access hq => ?_
      · rw [← hphase, Function.update_eq_self]
      · rcases Rotation.update_eq_some hq with ⟨-, herror⟩ | ⟨-, hold⟩
        · cases herror
        · exact .inl hold
    | _ => simp [World.next, hphase] at h
  | openFile p =>
    cases hphase : w.phase p with
    | idle =>
      simp only [World.next, hphase, Option.some.injEq] at h
      subst h
      exact .goes p .waiting rfl rfl rfl (follows_idle (.inr (.inl rfl))) fun _ _ hq => .inl hq
    | _ => simp [World.next, hphase] at h
  | acquire p =>
    obtain ⟨locks, -, rfl⟩ := tryLock_of_next h
    exact .goes p .locked rfl rfl rfl (follows_idle (.inr (.inr rfl))) fun _ _ hq => .inl hq
  | giveUp p =>
    cases hphase : w.phase p with
    | waiting =>
      simp only [World.next, hphase, Option.some.injEq] at h
      subst h
      refine .goes p .idle rfl rfl rfl (follows_idle (.inl rfl)) fun q access hq => ?_
      rcases returned_leave hq with hold | ⟨-, herror⟩
      · exact .inl hold
      · cases herror
    | _ => simp [World.next, hphase] at h
  | read p now =>
    cases hphase : w.phase p with
    | locked =>
      simp only [World.next, hphase, Option.some.injEq] at h
      subst h
      exact .goes p _ rfl rfl rfl (.orLeave fun phase => follows_readDecide) fun _ _ hq => .inl hq
    | _ => simp [World.next, hphase] at h
  | respond p response => exact absurd rfl (hother p response)
  | reread p now =>
    cases hphase : w.phase p with
    | refreshed sent response =>
      simp only [World.next, hphase, Option.some.injEq] at h
      subst h
      refine .goes p _ rfl rfl rfl (.orLeave fun phase happlied => ?_) fun _ _ hq => .inl hq
      rw [hphase]
      exact follows_applyRefreshed happlied
    | _ => simp [World.next, hphase] at h
  | write p outcome =>
    cases hphase : w.phase p with
    | writing updated access =>
      cases outcome with
      | installed =>
        simp only [World.next, hphase, Option.some.injEq] at h
        subst h
        exact .installs p _ hphase fun _ h => (Except.ok.inj h).symm
      | unsynced =>
        simp only [World.next, hphase, Option.some.injEq] at h
        subst h
        refine .installs p _ hphase fun _ herror => ?_
        cases herror
      | failed =>
        simp only [World.next, hphase, Option.some.injEq] at h
        subst h
        exact .goes p _ rfl rfl rfl (follows_error _) fun _ _ hq => .inl hq
    | _ => simp [World.next, hphase] at h
  | finish p =>
    cases hphase : w.phase p with
    | leaving result =>
      simp only [World.next, hphase, Option.some.injEq] at h
      subst h
      refine .goes p .idle rfl rfl rfl (follows_idle (.inl rfl)) fun q access hq => ?_
      rcases returned_leave hq with hold | ⟨rfl, rfl⟩
      · exact .inl hold
      · exact .inr hphase
    | _ => simp [World.next, hphase] at h

end Moves

/-! ## The rotation is refined -/

section Refines

variable [DecidableEq P] [DecidableEq Q] {s s' : System P Q F}

/-- A call moves, and its client with it. -/
theorem tokens_call (s : System P Q F) (w : World P F) (p : P) (phase : Phase F) (hpath : w.path = s.world.path)
    (hphase : w.phase = Function.update s.world.phase p phase) (grants : List (String × String)) :
    tokens { s with world := w, grants } =
      { issued := grants.map Prod.fst
        stored := storedToken w
        known := Function.update (tokens s).known (.inl p) phase.request
        carried := Function.update (tokens s).carried (.inl p) (carriedBy s.world.path phase) } := by
  have hknown := Function.comp_update Phase.request s.world.phase p phase
  have hcarried := Function.comp_update (carriedBy s.world.path) s.world.phase p phase
  unfold Function.comp at hknown hcarried
  unfold tokens
  dsimp only
  rw [hphase, hpath, hknown, hcarried, Sum.update_elim_inl, Sum.update_elim_inl]

theorem tokens_outsider (s : System P Q F) (q : Q) (outsider : Outsider F) (credentials : Option (Value F))
    (locks : FileLock.State P) (grants : List (String × String)) :
    tokens { s.become q outsider with world := { s.world with credentials, locks }, grants } =
      { issued := grants.map Prod.fst
        stored := storedIn s.world.path credentials
        known := Function.update (tokens s).known (.inr q) outsider.request
        carried := Function.update (tokens s).carried (.inr q) (outsider.carries s.world.path) } := by
  have hknown := Function.comp_update Outsider.request s.outsiders q outsider
  have hcarried := Function.comp_update (Outsider.carries s.world.path) s.outsiders q outsider
  unfold Function.comp at hknown hcarried
  unfold tokens System.become
  dsimp only
  rw [hknown, hcarried, Sum.update_elim_inr, Sum.update_elim_inr]
  rfl

theorem tokens_become (s : System P Q F) (q : Q) (outsider : Outsider F) (grants : List (String × String)) :
    tokens { s.become q outsider with grants } =
      { tokens s with
        issued := grants.map Prod.fst
        known := Function.update (tokens s).known (.inr q) outsider.request
        carried := Function.update (tokens s).carried (.inr q) (outsider.carries s.world.path) } :=
  tokens_outsider s q outsider s.world.credentials s.world.locks grants

/-- A client is left with what it has read, or with less. -/
theorem reaches_read (t : Rotation.State (P ⊕ Q) String) (c : P ⊕ Q) (known carried : Option String)
    (hknown : ∀ r ∈ known, t.stored = some r) (hcarried : ∀ r ∈ carried, t.carried c = some r) :
    ReflTransGen Rotation.Step t
      { t with known := Function.update t.known c known, carried := Function.update t.carried c carried } := by
  refine .tail (.single (.learn c)) ?_
  have hforget := Rotation.Step.forget (s := { t with known := Function.update t.known c t.stored }) c known carried
    (fun r hr => (Function.update_self c _ _).trans (hknown r hr)) hcarried
  rwa [Function.update_idem] at hforget

/-- A client is answered. -/
theorem reaches_answered {grants grants' : List (String × String)} {refreshToken : String}
    {response : Except AnthropicSourceError (Value F)} (hanswer : Answered grants refreshToken response grants')
    (t : Rotation.State (P ⊕ Q) String) (hissued : t.issued = grants.map Prod.fst) (c : P ⊕ Q)
    (hc : t.known c = some refreshToken) (known carried : Option String) (hknown : ∀ r ∈ known, r = refreshToken)
    (hcarried : ∀ r ∈ carried, ∃ fields, answeredFields response = .ok fields ∧ fields.refresh = r) :
    ReflTransGen Rotation.Step t
      { t with
        issued := grants'.map Prod.fst
        known := Function.update t.known c known
        carried := Function.update t.carried c carried } := by
  cases hanswer with
  | refused hnone =>
    rw [← hissued]
    refine .single (.forget c known carried (fun r hr => ?_) fun r hr => ?_)
    · rw [hknown r hr]
      exact hc
    · obtain ⟨fields, hfields, -⟩ := hcarried r hr
      exact absurd hfields (hnone fields)
  | honoured grant hlive hnew hresponse =>
    rw [List.map_cons, ← hissued]
    rw [← hissued] at hlive hnew
    refine .single (.redeem hc hlive hnew known carried hknown fun r hr => ?_)
    obtain ⟨fields, hfields, rfl⟩ := hcarried r hr
    exact congrArg Prod.fst (hresponse fields hfields)

theorem carriedBy_respond {path refreshToken r : String} {response : Except AnthropicSourceError (Value F)}
    (h : carriedBy path (.orLeave (response.map fun response => Phase.refreshed refreshToken response)) = some r) :
    ∃ fields, answeredFields response = .ok fields ∧ fields.refresh = r := by
  cases response with
  | error error => cases h
  | ok answer =>
    cases hfields : refreshedFields answer with
    | error error =>
      simp only [Except.map, Phase.orLeave, carriedBy, hfields] at h
      cases h
    | ok fields =>
      simp only [Except.map, Phase.orLeave, carriedBy, hfields] at h
      exact ⟨fields, hfields, Option.some.inj h⟩

theorem world_respond {w w' : World P F} {p : P} {refreshToken : String}
    {response : Except AnthropicSourceError (Value F)} (hphase : w.phase p = .requesting refreshToken)
    (h : w.next (.respond p response) = some w') :
    w' = w.enter p (.orLeave (response.map fun response => .refreshed refreshToken response)) := by
  simp only [World.next, hphase, Option.some.injEq] at h
  exact h.symm

/-- **Every step is some steps of the rotation.** -/
theorem tokens_next (hgranted : Granted s) (h : Next s s') : ReflTransGen Rotation.Step (tokens s) (tokens s') := by
  cases h with
  | @call w e hother hnext =>
    generalize hw : s.world = world at hnext
    cases turn_of_next hother hnext with
    | goes p phase hpath hcredentials hphase hfollows hreturned =>
      subst hw
      have hsame : storedToken w = storedToken s.world := by
        unfold storedToken
        rw [hpath, hcredentials]
      have htokens := tokens_call s w p phase hpath hphase s.grants
      rw [hsame] at htokens
      rw [htokens]
      exact reaches_read (tokens s) (.inl p) _ _ hfollows.request hfollows.carried
    | @installs p updated access result hphase hresult =>
      subst hw
      have hbacked := hgranted.calls p
      rw [hphase] at hbacked
      obtain ⟨grant, -, hstores, -⟩ := hbacked
      have hcarried : (tokens s).carried (.inl p) = some grant.1 := by
        show carriedBy s.world.path (s.world.phase p) = some grant.1
        rw [hphase]
        exact hstores.storedIn
      have hstored : storedToken (s.world.install p updated result) = some grant.1 := hstores.storedIn
      have htokens := tokens_call s (s.world.install p updated result) p (.leaving result) rfl rfl s.grants
      rw [hstored] at htokens
      exact htokens.symm ▸ .single (.store hcarried)
  | @respond w p refreshToken response grants hphase hanswer hnext =>
    rw [world_respond hphase hnext, tokens_call s (s.world.enter p _) p _ rfl rfl grants]
    have hknown : (tokens s).known (.inl p) = some refreshToken := by
      show (s.world.phase p).request = some refreshToken
      rw [hphase]
      rfl
    refine reaches_answered hanswer (tokens s) rfl (.inl p) hknown _ _ (fun r hr => ?_) fun r hr => carriedBy_respond hr
    cases response with
    | error error => cases hr
    | ok answer => exact (Option.some.inj hr).symm
  | killed p =>
    refine (tokens_call s (kill s.world p) p .idle rfl rfl s.grants).symm ▸ ?_
    exact reaches_read (tokens s) (.inl p) none none (fun _ h => nomatch h) fun _ h => nomatch h
  | @reads q refreshToken hstored =>
    refine (tokens_become s q (.requesting refreshToken) s.grants).symm ▸ ?_
    exact reaches_read (tokens s) (.inr q) (some refreshToken) none (fun r hr => hstored.trans hr) fun _ h => nomatch h
  | @answered q refreshToken response grants updated fields hq hanswer hfields hupdated =>
    have hknown : (tokens s).known (.inr q) = some refreshToken := congrArg Outsider.request hq
    rw [tokens_become s q (.holding updated) grants]
    refine reaches_answered hanswer (tokens s) rfl (.inr q) hknown none _ (fun _ h => nomatch h) fun r hr => ?_
    exact ⟨fields, hfields, Option.some.inj (hupdated.storedIn.symm.trans hr)⟩
  | @unanswered q refreshToken response grants hq hanswer =>
    have hknown : (tokens s).known (.inr q) = some refreshToken := congrArg Outsider.request hq
    rw [tokens_become s q .idle grants]
    exact reaches_answered hanswer (tokens s) rfl (.inr q) hknown none none (fun _ h => nomatch h) fun _ h => nomatch h
  | @writes q updated locks hq hlocks =>
    obtain ⟨grant, -, hstores⟩ := hgranted.outsiders q updated hq
    have hcarried : (tokens s).carried (.inr q) = some grant.1 :=
      (congrArg (Outsider.carries s.world.path) hq).trans hstores.storedIn
    have htokens := tokens_outsider s q .idle (some updated) locks s.grants
    rw [hstores.storedIn] at htokens
    exact htokens.symm ▸ .single (.store hcarried)
  | leaves q =>
    refine (tokens_become s q .idle s.grants).symm ▸ ?_
    exact reaches_read (tokens s) (.inr q) none none (fun _ h => nomatch h) fun _ h => nomatch h

end Refines

/-! ## What holds in every run -/

section Runs

variable {s s' : System P Q F}

structure Kept (s : System P Q F) : Prop where
  granted : Granted s
  rotation : Rotation.Inv (tokens s)

theorem Backed.mono {path : String} {grants grants' : List (String × String)} {phase : Phase F}
    (h : Backed path grants phase) (hgrants : grants ⊆ grants') : Backed path grants' phase := by
  cases phase with
  | refreshed _ response => exact fun fields hfields => hgrants (h fields hfields)
  | writing updated access =>
    obtain ⟨grant, hgrant, hstores, haccess⟩ := h
    exact ⟨grant, hgrants hgrant, hstores, haccess⟩
  | leaving result => exact fun access haccess => List.map_subset Prod.snd hgrants (h access haccess)
  | _ => trivial

/-- Further grants take nothing back. -/
theorem Granted.mono (h : Granted s) {grants : List (String × String)} (hgrants : s.grants ⊆ grants) :
    Granted { s with grants } where
  file := by
    obtain ⟨grant, hgrant, hstores⟩ := h.file
    exact ⟨grant, hgrants hgrant, hstores⟩
  calls p := (h.calls p).mono hgrants
  outsiders q updated hq := by
    obtain ⟨grant, hgrant, hstores⟩ := h.outsiders q updated hq
    exact ⟨grant, hgrants hgrant, hstores⟩
  returned p access hp := List.map_subset Prod.snd hgrants (h.returned p access hp)

theorem Granted.become [DecidableEq Q] (h : Granted s) {q : Q} {outsider : Outsider F}
    (houtsider : ∀ updated, outsider = .holding updated → ∃ grant ∈ s.grants, Stores s.world.path (some updated) grant) :
    Granted (s.become q outsider) where
  file := h.file
  calls := h.calls
  outsiders r updated hr := by
    have hbecome : Function.update s.outsiders q outsider r = .holding updated := hr
    by_cases hrq : r = q
    · rw [hrq, Function.update_self] at hbecome
      exact houtsider updated hbecome
    · rw [Function.update_of_ne hrq] at hbecome
      exact h.outsiders r updated hbecome
  returned := h.returned

/-- A call moves, and what it holds by then is granted. -/
theorem Granted.call [DecidableEq P] (h : Granted s) {w : World P F} {p : P} {phase : Phase F}
    (hpath : w.path = s.world.path) (hphase : w.phase = Function.update s.world.phase p phase)
    (hfile : ∃ grant ∈ s.grants, Stores s.world.path w.credentials grant)
    (hbacked : Backed s.world.path s.grants phase)
    (hreturned : ∀ q access, w.returned q = some (.ok access) →
      s.world.returned q = some (.ok access) ∨ s.world.phase q = .leaving (.ok access)) :
    Granted { s with world := w } where
  file := hpath ▸ hfile
  calls q := by
    show Backed w.path s.grants (w.phase q)
    rw [hpath, hphase]
    by_cases hq : q = p
    · rw [hq, Function.update_self]
      exact hbacked
    · rw [Function.update_of_ne hq]
      exact h.calls q
  outsiders := hpath ▸ h.outsiders
  returned q access hq := by
    rcases hreturned q access hq with hold | hleaving
    · exact h.returned q access hold
    · have hbacked := h.calls q
      rw [hleaving] at hbacked
      exact hbacked access rfl

theorem Answered.subset {grants grants' : List (String × String)} {refreshToken : String}
    {response : Except AnthropicSourceError (Value F)} (h : Answered grants refreshToken response grants') :
    grants ⊆ grants' := by
  cases h with
  | refused hnone => exact List.Subset.refl _
  | honoured grant hlive hnew hresponse => exact List.subset_cons_self _ _

theorem Answered.mem {grants grants' : List (String × String)} {refreshToken : String}
    {response : Except AnthropicSourceError (Value F)} {fields : Refreshed}
    (h : Answered grants refreshToken response grants') (hfields : answeredFields response = .ok fields) :
    (fields.refresh, fields.access) ∈ grants' := by
  cases h with
  | refused hnone => exact absurd hfields (hnone fields)
  | honoured grant hlive hnew hresponse =>
    rw [hresponse fields hfields]
    exact List.mem_cons_self

/-- Nothing is running, and the file stores what was granted last. -/
def System.start (path : String) (credentials : Option (Value F)) (grant : String × String) : System P Q F :=
  ⟨World.start path credentials, fun _ => .idle, [grant]⟩

theorem kept_start {path : String} {credentials : Option (Value F)} {grant : String × String}
    (h : Stores path credentials grant) : Kept (System.start path credentials grant : System P Q F) := by
  have htokens : tokens (System.start path credentials grant : System P Q F) = Rotation.State.start grant.1 := by
    have hstored : storedToken (World.start path credentials : World P F) = some grant.1 := h.storedIn
    unfold tokens System.start Rotation.State.start
    dsimp only
    rw [hstored]
    congr 1
    · funext c
      cases c <;> rfl
    · funext c
      cases c <;> rfl
  refine ⟨?_, htokens ▸ Rotation.inv_start grant.1⟩
  exact ⟨⟨grant, List.mem_singleton_self grant, h⟩, fun _ => trivial, fun _ _ h => (nomatch h), fun _ _ h => nomatch h⟩

theorem Kept.file (h : Kept s) : ∃ grant, Stores s.world.path s.world.credentials grant ∧
    (s.grants.head? = some grant ∨ s.grants.tail.head? = some grant) := by
  obtain ⟨grant, hgrant, hstores⟩ := h.granted.file
  obtain ⟨r, hr, hnear⟩ := h.rotation.near
  obtain rfl : grant.1 = r := Option.some.inj (hstores.storedIn.symm.trans hr)
  have hnodup : (s.grants.map Prod.fst).Nodup := h.rotation.nodup
  have hsame : ∀ other ∈ s.grants, other.1 = grant.1 → other = grant :=
    fun other hother => List.inj_on_of_nodup_map hnodup hother hgrant
  refine ⟨grant, hstores, ?_⟩
  rcases hnear with hhead | ⟨t, rest, hissued⟩
  · obtain ⟨first, hfirst, heq⟩ := Option.map_eq_some_iff.1 (List.head?_map.symm.trans hhead)
    rw [hsame first (List.mem_of_mem_head? hfirst) heq] at hfirst
    exact .inl hfirst
  · obtain ⟨first, others, hgrants, -, htail⟩ := List.map_eq_cons_iff.1 hissued
    obtain ⟨second, rest', hothers, heq, -⟩ := List.map_eq_cons_iff.1 htail
    have hmem : second ∈ s.grants := by
      rw [hgrants, hothers]
      exact List.mem_cons_of_mem _ List.mem_cons_self
    rw [hgrants, hothers]
    exact .inr (congrArg some (hsame second hmem heq))

/-- A call that was answered finds the token it redeemed. -/
theorem Kept.installs (h : Kept s) {p : P} {refreshToken : String} {response : Value F} {fields : Refreshed} (now : Int)
    (hphase : s.world.phase p = .refreshed refreshToken response) (hfields : refreshedFields response = .ok fields) :
    ∃ updated, applyRefreshedCredentials s.world.path refreshToken response s.world.credentials now =
        .ok (.writing updated fields.access) ∧ Stores s.world.path (some updated) (fields.refresh, fields.access) := by
  have hcarried : (tokens s).carried (.inl p) = some fields.refresh := by
    show carriedBy s.world.path (s.world.phase p) = some fields.refresh
    rw [hphase]
    show (refreshedFields response).toOption.map Refreshed.refresh = some fields.refresh
    rw [hfields]
    rfl
  have hknown : (tokens s).known (.inl p) = some refreshToken := by
    show (s.world.phase p).request = some refreshToken
    rw [hphase]
    rfl
  obtain ⟨r, rest, -, hr, hall⟩ := h.rotation.carried _ _ hcarried
  obtain rfl := hall refreshToken hknown
  obtain ⟨-, -, oauth, hoauth, -⟩ := h.granted.file
  have hstored : storedIn s.world.path s.world.credentials = some refreshToken := hr
  unfold storedIn at hstored
  rw [hoauth] at hstored
  refine ⟨_, ?_, stores_installRefresh s.world.path s.world.credentials oauth fields⟩
  unfold applyRefreshedCredentials
  rw [hfields, hoauth]
  exact if_neg (not_not_intro hstored)

variable [DecidableEq P] [DecidableEq Q]

theorem Granted.next (hgranted : Granted s) (hnext : Next s s') : Granted s' := by
  cases hnext with
  | @call w e hother hnext =>
    generalize hw : s.world = world at hnext
    cases turn_of_next hother hnext with
    | goes p phase hpath hcredentials hphase hfollows hreturned =>
      subst hw
      exact hgranted.call hpath hphase (hcredentials ▸ hgranted.file)
        (hfollows.backed s.grants hgranted.file (hgranted.calls p)) hreturned
    | @installs p updated access result hphase hresult =>
      subst hw
      have hbacked := hgranted.calls p
      rw [hphase] at hbacked
      have hleaving := (follows_returning hresult).backed s.grants hgranted.file hbacked
      obtain ⟨grant, hgrant, hstores, -⟩ := hbacked
      exact hgranted.call rfl rfl ⟨grant, hgrant, hstores⟩ hleaving fun _ _ hq => .inl hq
  | @respond w p refreshToken response grants hphase hanswer hnext =>
    rw [world_respond hphase hnext]
    have hmore := hgranted.mono hanswer.subset
    refine hmore.call rfl rfl hmore.file ?_ fun _ _ hq => .inl hq
    cases response with
    | error error => exact fun _ haccess => nomatch haccess
    | ok answer => exact fun fields hfields => hanswer.mem hfields
  | killed p =>
    exact hgranted.call rfl rfl hgranted.file trivial fun _ _ hq => .inl hq
  | reads hstored => exact hgranted.become fun _ h => nomatch h
  | @answered q refreshToken response grants updated fields hq hanswer hfields hupdated =>
    refine (hgranted.mono hanswer.subset).become fun held hheld => ?_
    cases hheld
    exact ⟨_, hanswer.mem hfields, hupdated⟩
  | unanswered hq hanswer => exact (hgranted.mono hanswer.subset).become fun _ h => nomatch h
  | @writes q updated locks hq hlocks =>
    obtain ⟨grant, hgrant, hstores⟩ := hgranted.outsiders q updated hq
    have hidle : Granted (s.become q .idle) := hgranted.become fun _ h => nomatch h
    exact ⟨⟨grant, hgrant, hstores⟩, hidle.calls, hidle.outsiders, hidle.returned⟩
  | leaves q => exact hgranted.become fun _ h => nomatch h

theorem Kept.next (h : Kept s) (hnext : Next s s') : Kept s' :=
  ⟨h.granted.next hnext, h.rotation.reaches (tokens_next h.granted hnext)⟩

/-- A run of the system is a run of the rotation. -/
theorem Kept.reaches (h : Kept s) (hreaches : ReflTransGen Next s s') :
    Kept s' ∧ ReflTransGen Rotation.Step (tokens s) (tokens s') := by
  induction hreaches with
  | refl => exact ⟨h, .refl⟩
  | tail _ hnext ih => exact ⟨ih.1.next hnext, ih.2.trans (tokens_next ih.1.granted hnext)⟩

/-- What is said of a run that comes to `s` and goes on to `s'`. -/
structure Safe (s s' : System P Q F) : Prop where
  /-- The file stores the tokens granted last, or the ones before. -/
  file : ∃ grant, Stores s'.world.path s'.world.credentials grant ∧
    (s'.grants.head? = some grant ∨ s'.grants.tail.head? = some grant)
  forward : ∀ a b, storedToken s.world = some a → storedToken s'.world = some b →
    (s'.grants.map Prod.fst).idxOf b ≤ (s'.grants.map Prod.fst).idxOf a
  /-- The last token is in the file, or at most with one client. -/
  single : ∀ c d, (tokens s').carried c ≠ none → (tokens s').carried d ≠ none → c = d
  /-- No answer is thrown away for what the file holds. -/
  installs : ∀ p refreshToken response fields now, s'.world.phase p = .refreshed refreshToken response →
    refreshedFields response = .ok fields → ∃ updated,
      applyRefreshedCredentials s'.world.path refreshToken response s'.world.credentials now =
        .ok (.writing updated fields.access) ∧ Stores s'.world.path (some updated) (fields.refresh, fields.access)
  returned : ∀ p access, s'.world.returned p = some (.ok access) → access ∈ s'.grants.map Prod.snd

/-- **Where a refresh token is honoured once, the credentials are safe in every run**, though the lock may keep nobody
apart, other programs do not take it, and any of them is killed anywhere. -/
theorem rotation_kept (path : String) (credentials : Option (Value F)) (grant : String × String)
    (hstart : Stores path credentials grant) (s s' : System P Q F)
    (hs : ReflTransGen Next (System.start path credentials grant) s) (hs' : ReflTransGen Next s s') : Safe s s' := by
  obtain ⟨hkept, -⟩ := (kept_start hstart).reaches hs
  obtain ⟨hkept', hrotates⟩ := hkept.reaches hs'
  exact {
    file := hkept'.file
    forward := fun a b ha hb => (hkept.rotation.forward ha hrotates).2 b hb
    single := hkept'.rotation.unique
    installs := fun p refreshToken response fields now hphase hfields => hkept'.installs now hphase hfields
    returned := hkept'.granted.returned }

/-! ### Two requests with one token, of which one is honoured -/

def isAnswer : Step P F → Bool
  | .respond _ _ => true
  | _ => false

/-- The state behind so many steps of calls. -/
def System.after (s : System P Q F) (steps : List (Step P F)) : System P Q F :=
  { s with world := (Trace.run World.next s.world steps).getD s.world }

/-- Calls that nothing answers go on by themselves. -/
theorem reaches_after (steps : List (Step P F)) (hother : steps.all (fun e => !isAnswer e) = true)
    (hrun : (Trace.run World.next s.world steps).isSome = true) : ReflTransGen Next s (s.after steps) := by
  unfold System.after
  obtain ⟨w, hw⟩ := Option.isSome_iff_exists.1 hrun
  rw [hw, Option.getD_some]
  clear hrun
  induction steps generalizing s with
  | nil =>
    cases hw
    exact .refl
  | cons e rest ih =>
    obtain ⟨w', hnext, hrest⟩ := Option.bind_eq_some_iff.1 hw
    obtain ⟨hfirst, hothers⟩ := Bool.and_eq_true_iff.1 ((List.all_cons ..).symm.trans hother)
    have hcall : Next s { s with world := w' } := by
      refine .call e (fun p response he => ?_) hnext
      rw [he] at hfirst
      cases hfirst
    exact .head hcall (@ih { s with world := w' } hothers hrest)

end Runs

open FloatArith

def sampleStart : System Caller Unit F64 := System.start "credentials.json" firstCredentials.credentials ("r0", "a0")

def sampleAnswer (access refresh : String) (expiresAt : Int) : Except AnthropicSourceError (Value F64) :=
  .ok (.object (oauthFields access refresh expiresAt))

/-- The issuer answers a call. -/
def System.respond (s : System Caller Unit F64) (p : Caller) (response : Except AnthropicSourceError (Value F64))
    (grants : List (String × String)) : System Caller Unit F64 :=
  { s.after [.respond p response] with grants }

def sampleFirst : System Caller Unit F64 :=
  sampleStart.after [.openFile .holder, .openFile .waiter, .acquire .holder, .read .holder 0]

/-- The holder has refreshed, and the waiter and the newcomer both request with what it stored. -/
def sampleBoth : System Caller Unit F64 :=
  (sampleFirst.respond .holder (sampleAnswer "a1" "r1" 3600000) [("r1", "a1"), ("r0", "a0")]).after
    [.reread .holder 1000, .write .holder .installed, .finish .holder, .acquire .waiter, .openFile .newcomer,
      .acquire .newcomer, .read .waiter 3500000, .read .newcomer 3500000]

def sampleRefused : System Caller Unit F64 :=
  (sampleBoth.respond .waiter (sampleAnswer "a2" "r2" 7200000) [("r2", "a2"), ("r1", "a1"), ("r0", "a0")]).respond .newcomer
    (.error .refreshRequestFailed) [("r2", "a2"), ("r1", "a1"), ("r0", "a0")]

def sampleEnd : System Caller Unit F64 :=
  sampleRefused.after
    [.reread .waiter 3501000, .write .waiter .installed, .finish .waiter, .finish .newcomer]

theorem stores_sampleStart : Stores "credentials.json" firstCredentials.credentials ("r0", "a0") := ⟨_, rfl, rfl, rfl⟩

/-- An answer that can be read is one grant. -/
theorem reaches_respond {s : System Caller Unit F64} {p : Caller} {refreshToken : String}
    {response : Except AnthropicSourceError (Value F64)} {grants : List (String × String)}
    (hphase : s.world.phase p = .requesting refreshToken) (hanswer : Answered s.grants refreshToken response grants) :
    ReflTransGen Next s (s.respond p response grants) := by
  refine .single (.respond hphase hanswer ?_)
  show s.world.next (.respond p response) = some ((Trace.run World.next s.world [.respond p response]).getD s.world)
  unfold Trace.run
  rw [List.foldlM_cons]
  simp only [World.next, hphase, List.foldlM_nil]
  rfl

theorem answered_sample {grants : List (String × String)} {refreshToken access refresh : String} (expiresAt : Int)
    (hlive : (grants.map Prod.fst).head? = some refreshToken) (hnew : refresh ∉ grants.map Prod.fst)
    (hfields : answeredFields (sampleAnswer access refresh expiresAt) = .ok ⟨access, refresh, expiresAt⟩) :
    Answered grants refreshToken (sampleAnswer access refresh expiresAt) ((refresh, access) :: grants) :=
  .honoured (refresh, access) hlive hnew fun fields h => by rw [← Except.ok.inj (hfields.symm.trans h)]

theorem reaches_sampleBoth : ReflTransGen Next sampleStart sampleBoth := by
  refine (reaches_after _ rfl rfl).trans (.trans (reaches_respond rfl ?_) (reaches_after _ rfl rfl))
  exact answered_sample 3600000 rfl (by decide) rfl

theorem reaches_sampleEnd : ReflTransGen Next sampleBoth sampleEnd := by
  have hfirst : ReflTransGen Next sampleBoth (sampleBoth.respond .waiter (sampleAnswer "a2" "r2" 7200000)
      [("r2", "a2"), ("r1", "a1"), ("r0", "a0")]) :=
    reaches_respond rfl (answered_sample 7200000 rfl (by decide) rfl)
  refine hfirst.trans (.trans (reaches_respond rfl (.refused fun fields h => ?_)) (reaches_after _ rfl rfl))
  cases h

/-- Two calls send one token: the second request is refused, and the file keeps what the first one was granted. -/
theorem rotation_kept_sample : (sampleBoth.world.phase .waiter).request = some "r1" ∧
    (sampleBoth.world.phase .newcomer).request = some "r1" ∧ storedToken sampleEnd.world = some "r2" ∧
    sampleEnd.world.returned .newcomer = some (.error .refreshRequestFailed) ∧ Safe sampleBoth sampleEnd :=
  ⟨rfl, rfl, rfl, rfl, rotation_kept _ _ ("r0", "a0") stores_sampleStart _ _ reaches_sampleBoth reaches_sampleEnd⟩

end Rotating

end Credentials

end Subgov
