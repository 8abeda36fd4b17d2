import Mathlib.Data.List.Induction
import Subgov.Runtime
/-!
# PeerTable — when a peer is fresh, stale or expired

The receiver's state of every configured peer: its last accepted record, when that was received on the receiver's
monotonic clock, and whether its expiry has been announced.  Classifying a peer may queue its `peer_expired` event, and
most queries classify some peers on the way (`PeerCall.classified`).
-/
namespace Subgov

variable {F : Type}

/-- How far a peer has aged. -/
def PeerFreshness.rank : PeerFreshness → Nat
  | .fresh => 0
  | .stale => 1
  | .expired => 2

/-- An instant on both clocks of the receiver, the monotonic one in nanoseconds. -/
structure PeerMoment where
  monotonic : Nat
  wall : DateTime

inductive PeerRejection
  | fetchFailed (source : String)
  | clockSkew (hostId : String) (aheadBySeconds : Int)
  | hostMismatch (expected found : String)
  | unconfigured (hostId : String)
  deriving DecidableEq

structure PeerEntry (F : Type) where
  record : Option (PublishedRecord F) := none
  receivedAt : Option Nat := none
  expiredAnnounced : Bool := false

/-- One `peer_expired` event. -/
structure PeerExpired where
  time : DateTime
  peerHostId : String
  lastRecordSeq : Option Nat
  deriving DecidableEq

/-- The staleness bounds that the configuration's validation lets through. -/
structure PeerTiming where
  peerStaleAfterSeconds : Nat := 120
  peerExpirySeconds : Nat := 1800
  ordered : peerStaleAfterSeconds < peerExpirySeconds := by decide

namespace PeerTiming

def peerStaleAfter (timing : PeerTiming) : Nat := timing.peerStaleAfterSeconds * 1000000000

def peerExpiry (timing : PeerTiming) : Nat := timing.peerExpirySeconds * 1000000000

/-- What an age makes of a peer, heard from or not. -/
def ofAge (timing : PeerTiming) (heard : Bool) (age : Nat) : PeerFreshness :=
  if timing.peerExpiry ≤ age then .expired
  else if heard && decide (age ≤ timing.peerStaleAfter) then .fresh
  else .stale

theorem ofAge_unheard (timing : PeerTiming) (age : Nat) : timing.ofAge false age ≠ .fresh := by
  unfold ofAge
  split
  · exact nofun
  · exact nofun

/-- **Ages only move a peer forward.** -/
theorem ofAge_mono (timing : PeerTiming) (heard : Bool) {age age' : Nat} (h : age ≤ age') :
    (timing.ofAge heard age).rank ≤ (timing.ofAge heard age').rank := by
  unfold ofAge
  by_cases hexpired : timing.peerExpiry ≤ age'
  · rw [if_pos hexpired]
    split
    · exact Nat.le_refl _
    · split <;> decide
  · rw [if_neg hexpired, if_neg (by omega)]
    cases heard with
    | false => exact Nat.le_refl _
    | true =>
      by_cases hfresh : age' ≤ timing.peerStaleAfter
      · simp [hfresh, Nat.le_trans h hfresh]
      · simp only [Bool.true_and, decide_eq_true_eq, if_neg hfresh]
        split <;> decide

end PeerTiming

structure PeerTable (F : Type) where
  entries : BTreeMap (PeerEntry F)
  startedAt : Nat
  staleAfter : Nat
  expiry : Nat
  events : List PeerExpired := []

def peerExpiredEvent (hostId : String) (entry : PeerEntry F) (time : DateTime) : PeerExpired :=
  { time, peerHostId := hostId, lastRecordSeq := entry.record.map (·.recordSeq) }

namespace PeerTable

def new (federation : FederationConfig) (timing : PeerTiming) (startedAt : Nat) : PeerTable F where
  entries := federation.peers.foldl (fun m peer => m.insert peer {}) ∅
  startedAt
  staleAfter := timing.peerStaleAfter
  expiry := timing.peerExpiry

variable (t : PeerTable F)

def configuredPeers : List String := t.entries.keys

def setEntry (hostId : String) (entry : PeerEntry F) : PeerTable F :=
  { t with entries := t.entries.insert hostId entry }

def ingest (peer : String) (fetch : Except String (PublishedRecord F)) (now : PeerMoment) :
    PeerTable F × Except PeerRejection Unit :=
  match fetch with
  | .error source => (t, .error (.fetchFailed source))
  | .ok record =>
    match t.entries[peer]? with
    | none => (t, .error (.unconfigured peer))
    | some _ =>
      if record.hostId ≠ peer then (t, .error (.hostMismatch peer record.hostId))
      else
        let aheadBySeconds := numSeconds (record.observedAt - now.wall)
        if peerClockSkewToleranceSeconds < aheadBySeconds then (t, .error (.clockSkew peer aheadBySeconds))
        else
          (t.setEntry peer
            { record := some record, receivedAt := some now.monotonic, expiredAnnounced := false }, .ok ())

/-- How old the last receipt is, and what that makes of the peer. -/
def classify (receivedAt : Option Nat) (now : Nat) : PeerFreshness :=
  let age := now - receivedAt.getD t.startedAt
  if t.expiry ≤ age then .expired
  else if receivedAt.isNone || decide (t.staleAfter < age) then .stale
  else .fresh

def freshness (hostId : String) (now : PeerMoment) : PeerTable F × Option PeerFreshness :=
  match t.entries[hostId]? with
  | none => (t, none)
  | some entry =>
    let freshness := t.classify entry.receivedAt now.monotonic
    if freshness = .expired ∧ entry.expiredAnnounced = false then
      ({ t.setEntry hostId { entry with expiredAnnounced := true } with
          events := t.events ++ [peerExpiredEvent hostId entry now.wall] }, some freshness)
    else (t, some freshness)

/-- The peers are asked in order, up to the first stale one. -/
def anyStaleAmong (now : PeerMoment) : List String → PeerTable F → PeerTable F × Bool
  | [], t => (t, false)
  | hostId :: hostIds, t =>
    let (t, freshness) := t.freshness hostId now
    if freshness = some .stale then (t, true) else anyStaleAmong now hostIds t

def anyPeerStale (now : PeerMoment) : PeerTable F × Bool := anyStaleAmong now t.entries.keys t

def clampScaleUp (desired current : Nat) (now : PeerMoment) : PeerTable F × Nat :=
  let (t, stale) := t.anyPeerStale now
  (t, if stale then min desired current else desired)

def entryAccount (hostId accountId : String) : Option (PeerAccount F) :=
  (t.entries[hostId]?.bind (·.record)).bind (·.accounts[accountId]?)

def peerAccountWorkers (hostId accountId : String) (now : PeerMoment) : PeerTable F × Option Nat :=
  let (t, freshness) := t.freshness hostId now
  (t, freshness.map (fun freshness =>
    if freshness = .expired then 0
    else (t.entryAccount hostId accountId).elim 0 (fun account =>
      wrapSum (account.pools.values.map (·.governedWorkers)))))

def drainEvents : PeerTable F × List PeerExpired := ({ t with events := [] }, t.events)

variable [FloatArith.Flt F]

def peerAccountSnapshot (hostId accountId : String) (now : PeerMoment) :
    PeerTable F × Option (PeerAccountSnapshot F) :=
  let (t, freshness) := t.freshness hostId now
  (t, freshness.map (fun freshness =>
    if freshness = .expired then {}
    else (t.entryAccount hostId accountId).elim {} (fun account =>
      let pools := account.pools.values
      { workers := wrapSum (pools.map (·.governedWorkers))
        readyDemand := wrapSum (pools.map (·.readyDemand.workerBound))
        quotaSample := freshestSample (pools.filterMap (·.quotaSample)) })))

end PeerTable

/-! ## Calls -/

inductive PeerCall (F : Type)
  | ingest (peer : String) (fetch : Except String (PublishedRecord F))
  | freshness (hostId : String)
  | anyPeerStale
  | clampScaleUp (desired current : Nat)
  | peerAccountWorkers (hostId accountId : String)
  | peerAccountSnapshot (hostId accountId : String)
  | drainEvents

inductive PeerAnswer (F : Type)
  | ingested (result : Except PeerRejection Unit)
  | freshness (freshness : Option PeerFreshness)
  | anyStale (stale : Bool)
  | clamped (desired : Nat)
  | workers (workers : Option Nat)
  | snapshot (snapshot : Option (PeerAccountSnapshot F))
  | events (events : List PeerExpired)

/-- A call with the instant it is made at. -/
abbrev TimedCall (F : Type) := PeerMoment × PeerCall F

namespace PeerTable

section Runs

variable [FloatArith.Flt F]

def apply (t : PeerTable F) (now : PeerMoment) : PeerCall F → PeerTable F × PeerAnswer F
  | .ingest peer fetch => ((t.ingest peer fetch now).1, .ingested (t.ingest peer fetch now).2)
  | .freshness hostId => ((t.freshness hostId now).1, .freshness (t.freshness hostId now).2)
  | .anyPeerStale => ((t.anyPeerStale now).1, .anyStale (t.anyPeerStale now).2)
  | .clampScaleUp desired current =>
    ((t.clampScaleUp desired current now).1, .clamped (t.clampScaleUp desired current now).2)
  | .peerAccountWorkers hostId accountId =>
    ((t.peerAccountWorkers hostId accountId now).1, .workers (t.peerAccountWorkers hostId accountId now).2)
  | .peerAccountSnapshot hostId accountId =>
    ((t.peerAccountSnapshot hostId accountId now).1, .snapshot (t.peerAccountSnapshot hostId accountId now).2)
  | .drainEvents => (t.drainEvents.1, .events t.drainEvents.2)

def after (t : PeerTable F) (calls : List (TimedCall F)) : PeerTable F :=
  calls.foldl (fun t c => (t.apply c.1 c.2).1) t

def answers : PeerTable F → List (TimedCall F) → List (PeerAnswer F)
  | _, [] => []
  | t, c :: calls => (t.apply c.1 c.2).2 :: answers (t.apply c.1 c.2).1 calls

/-- Every event the table holds or queues during the calls, drained or left. -/
def everQueued : PeerTable F → List (TimedCall F) → List PeerExpired
  | t, [] => t.events
  | t, (_, .drainEvents) :: calls => t.events ++ everQueued t.drainEvents.1 calls
  | t, c :: calls => everQueued (t.apply c.1 c.2).1 calls

@[simp] theorem after_nil (t : PeerTable F) : t.after [] = t := rfl

@[simp] theorem after_cons (t : PeerTable F) (c : TimedCall F) (calls : List (TimedCall F)) :
    t.after (c :: calls) = (t.apply c.1 c.2).1.after calls := rfl

theorem after_append (t : PeerTable F) (xs ys : List (TimedCall F)) : t.after (xs ++ ys) = (t.after xs).after ys :=
  List.foldl_append

end Runs

/-! ## What a table knows of a peer -/

/-- The last record and receipt of a configured peer. -/
def receipt (t : PeerTable F) (hostId : String) : Option (Option (PublishedRecord F) × Option Nat) :=
  t.entries[hostId]?.map (fun entry => (entry.record, entry.receivedAt))

def freshnessAt (t : PeerTable F) (hostId : String) (now : PeerMoment) : Option PeerFreshness :=
  (t.receipt hostId).map (fun receipt => t.classify receipt.2 now.monotonic)

def announced (t : PeerTable F) (hostId : String) : Bool := t.entries[hostId]?.any (·.expiredAnnounced)

def queued (t : PeerTable F) (hostId : String) : Nat := t.events.countP (fun event => event.peerHostId == hostId)

/-- The hosts up to the first stale one, which is asked too. -/
def upToStale (t : PeerTable F) (now : PeerMoment) : List String → List String
  | [] => []
  | hostId :: hostIds =>
    hostId :: if t.freshnessAt hostId now = some .stale then [] else t.upToStale now hostIds

/-- The hosts that a call classifies. -/
def classified (t : PeerTable F) (now : PeerMoment) : PeerCall F → List String
  | .freshness hostId => [hostId]
  | .peerAccountWorkers hostId _ => [hostId]
  | .peerAccountSnapshot hostId _ => [hostId]
  | .anyPeerStale => t.upToStale now t.entries.keys
  | .clampScaleUp _ _ => t.upToStale now t.entries.keys
  | .ingest _ _ => []
  | .drainEvents => []

variable {t t' t'' : PeerTable F} {now : PeerMoment}

theorem freshness_snd (hostId : String) : (t.freshness hostId now).2 = t.freshnessAt hostId now := by
  unfold freshness freshnessAt receipt
  cases t.entries[hostId]? with
  | none => rfl
  | some entry =>
    dsimp only
    split <;> rfl

/-- **What classifying some hosts changes**: an expired one that is not announced yet is, with one event. -/
structure Classifies (now : PeerMoment) (hosts : List String) (t t' : PeerTable F) : Prop where
  bounds : t'.startedAt = t.startedAt ∧ t'.staleAfter = t.staleAfter ∧ t'.expiry = t.expiry
  receipts : ∀ hostId, t'.receipt hostId = t.receipt hostId
  announced : ∀ hostId, t'.announced hostId =
    (t.announced hostId || (decide (hostId ∈ hosts) && decide (t.freshnessAt hostId now = some .expired)))
  queued : ∀ hostId, t'.queued hostId = t.queued hostId +
    if hostId ∈ hosts ∧ t.freshnessAt hostId now = some .expired ∧ t.announced hostId = false then 1 else 0

namespace Classifies

theorem refl (now : PeerMoment) (t : PeerTable F) : Classifies now [] t t where
  bounds := ⟨rfl, rfl, rfl⟩
  receipts _ := rfl
  announced _ := by simp
  queued _ := by simp

theorem freshnessAt_eq {hosts : List String} (h : Classifies now hosts t t') (hostId : String) (later : PeerMoment) :
    t'.freshnessAt hostId later = t.freshnessAt hostId later := by
  obtain ⟨hstarted, hstale, hexpiry⟩ := h.bounds
  unfold freshnessAt classify
  rw [h.receipts, hstarted, hstale, hexpiry]

theorem trans {hosts hosts' : List String} (h : Classifies now hosts t t') (h' : Classifies now hosts' t' t'') :
    Classifies now (hosts ++ hosts') t t'' where
  bounds := by
    obtain ⟨h1, h2, h3⟩ := h.bounds
    obtain ⟨h1', h2', h3'⟩ := h'.bounds
    exact ⟨h1'.trans h1, h2'.trans h2, h3'.trans h3⟩
  receipts hostId := (h'.receipts hostId).trans (h.receipts hostId)
  announced hostId := by
    rw [h'.announced, h.announced, h.freshnessAt_eq]
    by_cases hexpired : t.freshnessAt hostId now = some .expired
    · simp [hexpired, Bool.or_assoc]
    · simp [hexpired]
  queued hostId := by
    rw [h'.queued, h.queued, h.announced, h.freshnessAt_eq]
    by_cases hexpired : t.freshnessAt hostId now = some .expired
    · cases hannounced : t.announced hostId with
      | true => simp
      | false =>
        by_cases hmem : hostId ∈ hosts
        · simp [hexpired, hmem]
        · simp [hexpired, hmem]
    · simp [hexpired]

end Classifies

theorem freshness_fst (t : PeerTable F) (hostId : String) (now : PeerMoment) :
    (t.freshness hostId now).1 = match t.entries[hostId]? with
      | none => t
      | some entry =>
        if t.freshnessAt hostId now = some .expired ∧ t.announced hostId = false then
          { t.setEntry hostId { entry with expiredAnnounced := true } with
            events := t.events ++ [peerExpiredEvent hostId entry now.wall] }
        else t := by
  unfold freshness freshnessAt receipt announced
  cases hentry : t.entries[hostId]? with
  | none => rfl
  | some entry =>
    simp only [Option.map_some, Option.any_some, Option.some.injEq]
    split <;> rfl

theorem freshness_classifies (t : PeerTable F) (hostId : String) (now : PeerMoment) :
    Classifies now [hostId] t (t.freshness hostId now).1 := by
  rw [freshness_fst]
  cases hentry : t.entries[hostId]? with
  | none =>
    have hnone : t.freshnessAt hostId now = none := by
      unfold freshnessAt receipt
      rw [hentry]
      rfl
    refine ⟨⟨rfl, rfl, rfl⟩, fun _ => rfl, fun other => ?_, fun other => ?_⟩
    · by_cases hother : other = hostId
      · simp [hother, hnone]
      · simp [hother]
    · by_cases hother : other = hostId
      · simp [hother, hnone]
      · simp [hother]
  | some entry =>
    dsimp only
    by_cases hexpires : t.freshnessAt hostId now = some .expired ∧ t.announced hostId = false
    · rw [if_pos hexpires]
      refine ⟨⟨rfl, rfl, rfl⟩, fun other => ?_, fun other => ?_, fun other => ?_⟩
      · unfold receipt setEntry
        by_cases hother : other = hostId
        · simp [hother, hentry]
        · simp [Std.ExtTreeMap.getElem?_insert, Ne.symm hother]
      · unfold announced setEntry
        by_cases hother : other = hostId
        · simp [hother, hexpires.1]
        · simp [Std.ExtTreeMap.getElem?_insert, Ne.symm hother, hother]
      · unfold queued peerExpiredEvent
        by_cases hother : other = hostId
        · simp [hother, hexpires.1, hexpires.2]
        · simp [hother, Ne.symm hother]
    · rw [if_neg hexpires]
      refine ⟨⟨rfl, rfl, rfl⟩, fun _ => rfl, fun other => ?_, fun other => ?_⟩
      · by_cases hother : other = hostId
        · by_cases hexpired : t.freshnessAt hostId now = some .expired
          · have hannounced : t.announced hostId = true := by
              simpa using fun hfalse => hexpires ⟨hexpired, hfalse⟩
            simp [hother, hannounced]
          · simp [hother, hexpired]
        · simp [hother]
      · rw [if_neg]
        · rfl
        · rintro ⟨hmem, hexpired, hannounced⟩
          rw [List.mem_singleton.1 hmem] at hexpired hannounced
          exact hexpires ⟨hexpired, hannounced⟩

theorem upToStale_congr (h : ∀ hostId, t'.freshnessAt hostId now = t.freshnessAt hostId now) :
    ∀ hostIds, t'.upToStale now hostIds = t.upToStale now hostIds
  | [] => rfl
  | hostId :: hostIds => by
    unfold upToStale
    rw [h, upToStale_congr h hostIds]

theorem anyStaleAmong_classifies (now : PeerMoment) : ∀ (hostIds : List String) (t : PeerTable F),
    Classifies now (t.upToStale now hostIds) t (anyStaleAmong now hostIds t).1
  | [], t => Classifies.refl now t
  | hostId :: hostIds, t => by
    have hone := freshness_classifies t hostId now
    have hrest := anyStaleAmong_classifies now hostIds (t.freshness hostId now).1
    unfold anyStaleAmong upToStale
    dsimp only
    rw [freshness_snd]
    by_cases hstale : t.freshnessAt hostId now = some .stale
    · rw [if_pos hstale, if_pos hstale]
      exact hone
    · rw [if_neg hstale, if_neg hstale]
      rw [upToStale_congr (fun other => hone.freshnessAt_eq other now)] at hrest
      exact hone.trans hrest

theorem anyStaleAmong_snd (now : PeerMoment) : ∀ (hostIds : List String) (t : PeerTable F),
    (anyStaleAmong now hostIds t).2 = true ↔ ∃ hostId ∈ hostIds, t.freshnessAt hostId now = some .stale
  | [], t => by simp [anyStaleAmong]
  | hostId :: hostIds, t => by
    have hone := freshness_classifies t hostId now
    unfold anyStaleAmong
    dsimp only
    rw [freshness_snd]
    by_cases hstale : t.freshnessAt hostId now = some .stale
    · rw [if_pos hstale]
      simp [hstale]
    · rw [if_neg hstale, anyStaleAmong_snd now hostIds]
      simp only [hone.freshnessAt_eq]
      simp [hstale]

/-- **A scale-up survives the clamp only when no configured peer is stale.** -/
theorem not_stale_of_clampScaleUp {desired current : Nat} (h : current < (t.clampScaleUp desired current now).2)
    (hostId : String) : t.freshnessAt hostId now ≠ some .stale := by
  intro hstale
  have hmem : hostId ∈ t.entries.keys := by
    unfold freshnessAt receipt at hstale
    cases hentry : t.entries[hostId]? with
    | none =>
      rw [hentry] at hstale
      cases hstale
    | some entry =>
      rw [Std.ExtTreeMap.mem_keys]
      exact Std.ExtTreeMap.mem_iff_isSome_getElem?.2 (by rw [hentry]; rfl)
  have hany : (t.anyPeerStale now).2 = true := (anyStaleAmong_snd now _ t).2 ⟨hostId, hmem, hstale⟩
  unfold clampScaleUp at h
  dsimp only at h
  rw [hany, if_pos rfl] at h
  omega

section Law

variable [FloatArith.Flt F]

/-- **A query changes nothing but the announcements of the hosts it classifies.** -/
theorem apply_classifies (t : PeerTable F) (now : PeerMoment) {call : PeerCall F}
    (hquery : ∀ peer fetch, call ≠ .ingest peer fetch) (hdrain : call ≠ .drainEvents) :
    Classifies now (t.classified now call) t (t.apply now call).1 := by
  cases call with
  | ingest peer fetch => exact absurd rfl (hquery peer fetch)
  | freshness hostId => exact freshness_classifies t hostId now
  | anyPeerStale => exact anyStaleAmong_classifies now _ t
  | clampScaleUp desired current => exact anyStaleAmong_classifies now _ t
  | peerAccountWorkers hostId accountId => exact freshness_classifies t hostId now
  | peerAccountSnapshot hostId accountId => exact freshness_classifies t hostId now
  | drainEvents => exact absurd rfl hdrain

end Law

/-! ## Accepted records -/

/-- The record of a call that a table with these peers accepts for a host. -/
def accepted (peers : List String) (hostId : String) : TimedCall F → Option (PeerMoment × PublishedRecord F)
  | (now, .ingest peer (.ok record)) =>
    if peer = hostId ∧ hostId ∈ peers ∧ record.hostId = hostId ∧
        numSeconds (record.observedAt - now.wall) ≤ peerClockSkewToleranceSeconds then some (now, record)
    else none
  | _ => none

def lastAccepted (peers : List String) (hostId : String) (calls : List (TimedCall F)) :
    Option (PeerMoment × PublishedRecord F) :=
  calls.foldl (fun last call => (accepted peers hostId call).or last) none

theorem lastAccepted_append (peers : List String) (hostId : String) (xs ys : List (TimedCall F)) :
    lastAccepted peers hostId (xs ++ ys) =
      ys.foldl (fun last call => (accepted peers hostId call).or last) (lastAccepted peers hostId xs) :=
  List.foldl_append

theorem ingest_rejected {peer : String} {fetch : Except String (PublishedRecord F)} {e : PeerRejection}
    (h : (t.ingest peer fetch now).2 = .error e) : (t.ingest peer fetch now).1 = t := by
  unfold ingest at h ⊢
  cases fetch with
  | error source => rfl
  | ok record =>
    dsimp only at h ⊢
    cases hentry : t.entries[peer]? with
    | none => rfl
    | some entry =>
      simp only [hentry] at h ⊢
      by_cases hhost : record.hostId ≠ peer
      · rw [if_pos hhost]
      · rw [if_neg hhost] at h ⊢
        split at h
        · rename_i hskew
          rw [if_pos hskew]
        · cases h

/-- **An ingest takes the record that is accepted**, or leaves the table with a rejection. -/
theorem ingest_cases {peers : List String} (hpeers : ∀ hostId, t.entries[hostId]?.isSome = true ↔ hostId ∈ peers)
    (peer : String) (fetch : Except String (PublishedRecord F)) (now : PeerMoment) :
    (∃ record, accepted peers peer (now, .ingest peer fetch) = some (now, record) ∧ t.ingest peer fetch now =
      (t.setEntry peer { record := some record, receivedAt := some now.monotonic, expiredAnnounced := false },
        .ok ())) ∨
    (accepted peers peer (now, .ingest peer fetch) = none ∧ ∃ e, t.ingest peer fetch now = (t, .error e)) := by
  unfold ingest accepted
  cases fetch with
  | error source => exact Or.inr ⟨rfl, _, rfl⟩
  | ok record =>
    dsimp only
    cases hentry : t.entries[peer]? with
    | none =>
      have hnot : peer ∉ peers := by
        rw [← hpeers, hentry]
        exact Bool.false_ne_true
      refine Or.inr ⟨?_, _, rfl⟩
      simp [hnot]
    | some entry =>
      have hmem : peer ∈ peers := by
        rw [← hpeers, hentry]
        rfl
      by_cases hhost : record.hostId = peer
      · by_cases hskew : peerClockSkewToleranceSeconds < numSeconds (record.observedAt - now.wall)
        · right
          simp [hhost, hskew, Int.not_le.2 hskew]
        · left
          simp [hhost, hskew, hmem, Int.not_lt.1 hskew]
      · right
        simp [hhost]

/-- **An accepted record replaces its host's receipt**, and a rejected one nothing. -/
theorem ingest_fst {peers : List String} (hpeers : ∀ hostId, t.entries[hostId]?.isSome = true ↔ hostId ∈ peers)
    (peer : String) (fetch : Except String (PublishedRecord F)) (now : PeerMoment) :
    (t.ingest peer fetch now).1 = match accepted peers peer (now, .ingest peer fetch) with
      | some (_, record) =>
        t.setEntry peer { record := some record, receivedAt := some now.monotonic, expiredAnnounced := false }
      | none => t := by
  rcases ingest_cases hpeers peer fetch now with ⟨record, haccepted, hingest⟩ | ⟨haccepted, e, hingest⟩
  · rw [haccepted, hingest]
  · rw [haccepted, hingest]

/-- **A record is accepted from a configured peer**, in its own name and without skew. -/
theorem ingest_snd {peers : List String} (hpeers : ∀ hostId, t.entries[hostId]?.isSome = true ↔ hostId ∈ peers)
    (peer : String) (fetch : Except String (PublishedRecord F)) (now : PeerMoment) :
    (t.ingest peer fetch now).2 = .ok () ↔ (accepted peers peer (now, .ingest peer fetch)).isSome = true := by
  rcases ingest_cases hpeers peer fetch now with ⟨record, haccepted, hingest⟩ | ⟨haccepted, e, hingest⟩
  · rw [haccepted, hingest]
    exact iff_of_true rfl rfl
  · rw [haccepted, hingest]
    exact iff_of_false nofun Bool.false_ne_true

theorem accepted_some {peers : List String} {hostId : String} {c : TimedCall F}
    {accept : PeerMoment × PublishedRecord F} (h : accepted peers hostId c = some accept) :
    accept.1 = c.1 ∧ hostId ∈ peers ∧ c.2 = .ingest hostId (.ok accept.2) := by
  obtain ⟨now, call⟩ := c
  unfold accepted at h
  split at h
  · rename_i now' peer record hcall
    cases hcall
    split at h
    · rename_i hcond
      cases h
      exact ⟨rfl, hcond.2.1, by rw [hcond.1]⟩
    · cases h
  · cases h

theorem accepted_other {peers : List String} {peer hostId : String} (hne : peer ≠ hostId)
    (fetch : Except String (PublishedRecord F)) (now : PeerMoment) :
    accepted peers hostId (now, .ingest peer fetch) = none := by
  unfold accepted
  cases fetch with
  | error source => rfl
  | ok record => simp [hne]

/-! ## Runs -/

section Runs

variable [FloatArith.Flt F] {federation : FederationConfig} {timing : PeerTiming} {startedAt : Nat}

/-- What a run has left in the table: the configured bounds, and each peer's last accepted record. -/
structure Tracks (federation : FederationConfig) (timing : PeerTiming) (startedAt : Nat)
    (calls : List (TimedCall F)) (t : PeerTable F) : Prop where
  bounds : t.startedAt = startedAt ∧ t.staleAfter = timing.peerStaleAfter ∧ t.expiry = timing.peerExpiry
  receipts : ∀ hostId, t.receipt hostId = if hostId ∈ federation.peers then
      some ((lastAccepted federation.peers hostId calls).map (·.2),
        (lastAccepted federation.peers hostId calls).map (·.1.monotonic))
    else none

omit [FloatArith.Flt F] in
theorem Tracks.peers {calls : List (TimedCall F)} (h : Tracks federation timing startedAt calls t) (hostId : String) :
    t.entries[hostId]?.isSome = true ↔ hostId ∈ federation.peers := by
  have hreceipt := h.receipts hostId
  unfold receipt at hreceipt
  by_cases hmem : hostId ∈ federation.peers
  · rw [if_pos hmem] at hreceipt
    obtain ⟨entry, hentry, -⟩ := Option.map_eq_some_iff.1 hreceipt
    simp [hentry, hmem]
  · rw [if_neg hmem, Option.map_eq_none_iff] at hreceipt
    simp [hreceipt, hmem]

omit [FloatArith.Flt F] in
theorem new_getElem? (hostId : String) : (new federation timing startedAt : PeerTable F).entries[hostId]? =
    if hostId ∈ federation.peers then some {} else none := by
  have hentries : ∀ (peers : List String) (m : BTreeMap (PeerEntry F)),
      (peers.foldl (fun m peer => m.insert peer {}) m)[hostId]? = if hostId ∈ peers then some {} else m[hostId]? := by
    intro peers
    induction peers with
    | nil => simp
    | cons peer peers ih =>
      intro m
      rw [List.foldl_cons, ih, Std.ExtTreeMap.getElem?_insert]
      by_cases hpeer : peer = hostId
      · simp [hpeer]
      · simp [hpeer, Ne.symm hpeer]
  unfold new
  rw [hentries, Std.ExtTreeMap.getElem?_empty]

omit [FloatArith.Flt F] in
theorem tracks_new : Tracks federation timing startedAt [] (new federation timing startedAt : PeerTable F) := by
  refine ⟨⟨rfl, rfl, rfl⟩, fun hostId => ?_⟩
  unfold receipt
  rw [new_getElem?]
  by_cases hmem : hostId ∈ federation.peers
  · simp [hmem, lastAccepted]
  · simp [hmem]

theorem Tracks.apply {calls : List (TimedCall F)} (h : Tracks federation timing startedAt calls t) (c : TimedCall F) :
    Tracks federation timing startedAt (calls ++ [c]) (t.apply c.1 c.2).1 := by
  obtain ⟨now, call⟩ := c
  have hquiet : ∀ {hosts : List String} {t' : PeerTable F}, Classifies now hosts t t' →
      (∀ hostId, accepted federation.peers hostId (now, call) = none) →
      Tracks federation timing startedAt (calls ++ [(now, call)]) t' := by
    intro hosts t' hclassifies hnone
    obtain ⟨hstarted, hstale, hexpiry⟩ := hclassifies.bounds
    refine ⟨⟨hstarted.trans h.bounds.1, hstale.trans h.bounds.2.1, hexpiry.trans h.bounds.2.2⟩, fun hostId => ?_⟩
    rw [hclassifies.receipts, h.receipts, lastAccepted_append]
    simp [hnone]
  cases call with
  | ingest peer fetch =>
    show Tracks federation timing startedAt _ (t.ingest peer fetch now).1
    rw [ingest_fst h.peers]
    cases haccepted : accepted federation.peers peer (now, .ingest peer fetch) with
    | none =>
      refine hquiet (Classifies.refl now t) fun hostId => ?_
      by_cases hhost : peer = hostId
      · rw [← hhost, haccepted]
      · exact accepted_other hhost fetch now
    | some accept =>
      obtain ⟨hnow, hmem, -⟩ := accepted_some haccepted
      refine ⟨h.bounds, fun hostId => ?_⟩
      rw [lastAccepted_append, List.foldl_cons, List.foldl_nil]
      by_cases hhost : peer = hostId
      · subst hhost
        unfold receipt setEntry
        rw [haccepted, if_pos hmem]
        simp [hnow]
      · rw [accepted_other hhost, Option.none_or, ← h.receipts]
        unfold receipt setEntry
        simp [Std.ExtTreeMap.getElem?_insert, hhost]
  | drainEvents =>
    refine ⟨h.bounds, fun hostId => ?_⟩
    rw [lastAccepted_append]
    exact h.receipts hostId
  | freshness hostId => exact hquiet (apply_classifies t now nofun nofun) fun _ => rfl
  | anyPeerStale => exact hquiet (apply_classifies t now nofun nofun) fun _ => rfl
  | clampScaleUp desired current => exact hquiet (apply_classifies t now nofun nofun) fun _ => rfl
  | peerAccountWorkers hostId accountId => exact hquiet (apply_classifies t now nofun nofun) fun _ => rfl
  | peerAccountSnapshot hostId accountId => exact hquiet (apply_classifies t now nofun nofun) fun _ => rfl

theorem tracks_after (calls : List (TimedCall F)) :
    Tracks federation timing startedAt calls ((new federation timing startedAt).after calls) := by
  induction calls using List.reverseRecOn with
  | nil => exact tracks_new
  | append_singleton calls c ih =>
    rw [after_append]
    exact ih.apply c

/-! ### One episode -/

/-- A call classifies a host as expired. -/
def Expires (t : PeerTable F) (hostId : String) (c : TimedCall F) : Prop :=
  hostId ∈ t.classified c.1 c.2 ∧ t.freshnessAt hostId c.1 = some .expired

instance (t : PeerTable F) (hostId : String) (c : TimedCall F) : Decidable (t.Expires hostId c) :=
  inferInstanceAs (Decidable (_ ∧ _))

/-- Some call of a run classifies a host as expired. -/
def ExpiresIn (hostId : String) : PeerTable F → List (TimedCall F) → Prop
  | _, [] => False
  | t, c :: calls => t.Expires hostId c ∨ ExpiresIn hostId (t.apply c.1 c.2).1 calls

theorem expiresIn_iff {hostId : String} : ∀ {calls : List (TimedCall F)} {t : PeerTable F},
    ExpiresIn hostId t calls ↔ ∃ before c later, calls = before ++ c :: later ∧ (t.after before).Expires hostId c
  | [], t => by simp [ExpiresIn]
  | c :: calls, t => by
    unfold ExpiresIn
    rw [expiresIn_iff]
    constructor
    · rintro (hexpires | ⟨before, c', later, rfl, hexpires⟩)
      · exact ⟨[], c, calls, rfl, hexpires⟩
      · exact ⟨c :: before, c', later, rfl, hexpires⟩
    · rintro ⟨before, c', later, hsplit, hexpires⟩
      cases before with
      | nil =>
        cases hsplit
        exact Or.inl hexpires
      | cons b before =>
        cases hsplit
        exact Or.inr ⟨before, c', later, rfl, hexpires⟩

theorem everQueued_cons {t : PeerTable F} {c : TimedCall F} (hdrain : c.2 ≠ .drainEvents) (calls : List (TimedCall F)) :
    t.everQueued (c :: calls) = (t.apply c.1 c.2).1.everQueued calls := by
  obtain ⟨now, call⟩ := c
  cases call with
  | drainEvents => exact absurd rfl hdrain
  | _ => rfl

def countQueued (hostId : String) (events : List PeerExpired) : Nat :=
  events.countP (fun event => event.peerHostId == hostId)

/-- What a call that is no accepted record of a host changes of its announcement. -/
theorem apply_announced {hostId : String} {before : List (TimedCall F)}
    (htracks : Tracks federation timing startedAt before t) {c : TimedCall F} (hdrain : c.2 ≠ .drainEvents)
    (hnone : accepted federation.peers hostId c = none) :
    (t.apply c.1 c.2).1.announced hostId = (t.announced hostId || decide (t.Expires hostId c)) ∧
      (t.apply c.1 c.2).1.queued hostId =
        t.queued hostId + if t.Expires hostId c ∧ t.announced hostId = false then 1 else 0 := by
  obtain ⟨now, call⟩ := c
  have hquery : ∀ {t' : PeerTable F}, Classifies now (t.classified now call) t t' →
      t'.announced hostId = (t.announced hostId || decide (t.Expires hostId (now, call))) ∧
        t'.queued hostId = t.queued hostId +
          if t.Expires hostId (now, call) ∧ t.announced hostId = false then 1 else 0 := by
    intro t' hclassifies
    have hexpires : decide (t.Expires hostId (now, call)) =
        (decide (hostId ∈ t.classified now call) && decide (t.freshnessAt hostId now = some .expired)) :=
      Bool.decide_and _ _
    rw [hclassifies.announced, hclassifies.queued, hexpires]
    refine ⟨rfl, ?_⟩
    unfold Expires
    simp only [and_assoc]
  cases call with
  | drainEvents => exact absurd rfl hdrain
  | ingest peer fetch =>
    have hquiet : ¬ t.Expires hostId (now, .ingest peer fetch) := fun h => nomatch h.1
    show (t.ingest peer fetch now).1.announced hostId = _ ∧ (t.ingest peer fetch now).1.queued hostId = _
    rw [if_neg (fun h => hquiet h.1), decide_eq_false hquiet, Bool.or_false, Nat.add_zero, ingest_fst htracks.peers]
    cases haccepted : accepted federation.peers peer (now, .ingest peer fetch) with
    | none => exact ⟨rfl, rfl⟩
    | some accept =>
      have hother : peer ≠ hostId := by
        rintro rfl
        rw [hnone] at haccepted
        cases haccepted
      refine ⟨?_, rfl⟩
      unfold announced setEntry
      simp [Std.ExtTreeMap.getElem?_insert, hother]
  | freshness host => exact hquery (apply_classifies t now nofun nofun)
  | anyPeerStale => exact hquery (apply_classifies t now nofun nofun)
  | clampScaleUp desired current => exact hquery (apply_classifies t now nofun nofun)
  | peerAccountWorkers host accountId => exact hquery (apply_classifies t now nofun nofun)
  | peerAccountSnapshot host accountId => exact hquery (apply_classifies t now nofun nofun)

/-- **Between two accepted records of a host one event is queued for it, if it is classified as expired there.** -/
theorem countQueued_everQueued {hostId : String} : ∀ {calls : List (TimedCall F)} {t : PeerTable F}
    {before : List (TimedCall F)}, Tracks federation timing startedAt before t →
    (∀ c ∈ calls, accepted federation.peers hostId c = none) →
    (ExpiresIn hostId t calls ∧ t.announced hostId = false →
      countQueued hostId (t.everQueued calls) = t.queued hostId + 1) ∧
    (¬ ExpiresIn hostId t calls ∨ t.announced hostId = true →
      countQueued hostId (t.everQueued calls) = t.queued hostId)
  | [], t, _, _, _ => by
    refine ⟨fun h => h.1.elim, fun _ => rfl⟩
  | c :: calls, t, before, htracks, hnone => by
    obtain ⟨honce, hnever⟩ := countQueued_everQueued (htracks.apply c)
      (fun c' hc' => hnone c' (List.mem_cons_of_mem _ hc'))
    by_cases hdrain : c.2 = .drainEvents
    · obtain ⟨now, call⟩ := c
      cases hdrain
      have hquiet : ¬ t.Expires hostId (now, .drainEvents) := fun h => nomatch h.1
      have hdrained : countQueued hostId (t.everQueued ((now, .drainEvents) :: calls)) =
          t.queued hostId + countQueued hostId (t.drainEvents.1.everQueued calls) := List.countP_append
      have hempty : (t.apply now .drainEvents).1.queued hostId = 0 := rfl
      unfold ExpiresIn
      simp only [hquiet, false_or]
      rw [hdrained]
      rw [hempty] at honce hnever
      refine ⟨fun h => ?_, fun h => ?_⟩
      · rw [show countQueued hostId (t.drainEvents.1.everQueued calls) = 0 + 1 from honce h]
      · rw [show countQueued hostId (t.drainEvents.1.everQueued calls) = 0 from hnever h, Nat.add_zero]
    · obtain ⟨hannounced, hqueued⟩ := apply_announced htracks hdrain (hnone c List.mem_cons_self)
      rw [everQueued_cons hdrain]
      unfold ExpiresIn
      by_cases hexpires : t.Expires hostId c
      · rw [decide_eq_true hexpires, Bool.or_true] at hannounced
        rw [hnever (Or.inr hannounced), hqueued]
        constructor
        · rintro ⟨-, hfalse⟩
          rw [if_pos ⟨hexpires, hfalse⟩]
        · rintro (hnot | htrue)
          · exact absurd (Or.inl hexpires) hnot
          · rw [if_neg (by simp [htrue]), Nat.add_zero]
      · rw [decide_eq_false hexpires, Bool.or_false] at hannounced
        rw [if_neg (fun h => hexpires h.1), Nat.add_zero] at hqueued
        rw [hannounced, hqueued] at honce hnever
        simp only [hexpires, false_or]
        exact ⟨honce, hnever⟩

/-! ### The law -/

/-- The table of a run, and the instant of a peer's last accepted record in it. -/
def ofRun (federation : FederationConfig) (timing : PeerTiming) (startedAt : Nat) (calls : List (TimedCall F)) :
    PeerTable F :=
  (new federation timing startedAt).after calls

def heardAt (federation : FederationConfig) (hostId : String) (calls : List (TimedCall F)) : Option Nat :=
  (lastAccepted federation.peers hostId calls).map (·.1.monotonic)

theorem freshness_ofRun {hostId : String} (hpeer : hostId ∈ federation.peers) (calls : List (TimedCall F))
    (now : PeerMoment) :
    ((ofRun federation timing startedAt calls).freshness hostId now).2 =
      some (timing.ofAge (heardAt federation hostId calls).isSome
        (now.monotonic - (heardAt federation hostId calls).getD startedAt)) := by
  have htracks : Tracks federation timing startedAt calls (ofRun federation timing startedAt calls) :=
    tracks_after calls
  obtain ⟨hstarted, hstale, hexpiry⟩ := htracks.bounds
  rw [freshness_snd]
  unfold freshnessAt classify PeerTiming.ofAge heardAt
  rw [htracks.receipts, if_pos hpeer, hstarted, hstale, hexpiry]
  cases lastAccepted federation.peers hostId calls with
  | none => simp
  | some last =>
    simp only [Option.map_some, Option.isSome_some, Option.isNone_some, Option.getD_some, Bool.false_or, Bool.true_and,
      decide_eq_true_eq]
    split
    · rfl
    · split
      · rw [if_neg (by omega)]
      · rw [if_pos (by omega)]

omit [FloatArith.Flt F] in
theorem heardAt_append {hostId : String} (calls : List (TimedCall F)) {later : List (TimedCall F)}
    (hnone : ∀ c ∈ later, accepted federation.peers hostId c = none) :
    heardAt federation hostId (calls ++ later) = heardAt federation hostId calls := by
  unfold heardAt
  rw [lastAccepted_append]
  generalize lastAccepted federation.peers hostId calls = last
  induction later with
  | nil => rfl
  | cons c later ih =>
    rw [List.foldl_cons, hnone c List.mem_cons_self, Option.none_or]
    exact ih fun c' hc' => hnone c' (List.mem_cons_of_mem _ hc')

/-- A run ends where a host's episodes start: at the beginning, or with an accepted record of it. -/
def Heard (federation : FederationConfig) (hostId : String) (calls : List (TimedCall F)) : Prop :=
  calls = [] ∨ ∃ before c, calls = before ++ [c] ∧ (accepted federation.peers hostId c).isSome = true

theorem announced_ofRun {hostId : String} {calls : List (TimedCall F)} (h : Heard federation hostId calls) :
    (ofRun federation timing startedAt calls).announced hostId = false := by
  rcases h with rfl | ⟨before, c, rfl, hsome⟩
  · unfold ofRun announced
    rw [after_nil, new_getElem?]
    by_cases hmem : hostId ∈ federation.peers
    · simp [hmem]
    · simp [hmem]
  · obtain ⟨accept, haccepted⟩ := Option.isSome_iff_exists.1 hsome
    obtain ⟨-, -, hcall⟩ := accepted_some haccepted
    have htracks : Tracks federation timing startedAt before (ofRun federation timing startedAt before) :=
      tracks_after before
    have hlast : ofRun federation timing startedAt (before ++ [c]) =
        ((ofRun federation timing startedAt before).ingest hostId (.ok accept.2) c.1).1 := by
      unfold ofRun
      rw [after_append, after_cons, after_nil, hcall]
      rfl
    have hpair : c = (c.1, .ingest hostId (.ok accept.2)) := Prod.ext rfl hcall
    rw [hlast, ingest_fst htracks.peers, ← hpair, haccepted]
    unfold announced setEntry
    simp

/-- **The freshness law** of every run of calls. -/
structure FreshnessLaw (federation : FederationConfig) (timing : PeerTiming) (startedAt : Nat)
    (calls : List (TimedCall F)) : Prop where
  /-- A classification is that of the time since the last accepted record, or since the start. -/
  classification : ∀ hostId ∈ federation.peers, ∀ now,
    ((ofRun federation timing startedAt calls).freshness hostId now).2 =
      some (timing.ofAge (heardAt federation hostId calls).isSome
        (now.monotonic - (heardAt federation hostId calls).getD startedAt))
  /-- A peer never heard from is never fresh. -/
  unheard : ∀ hostId ∈ federation.peers, heardAt federation hostId calls = none → ∀ now,
    ((ofRun federation timing startedAt calls).freshness hostId now).2 ≠ some .fresh
  /-- Without another accepted record a peer only ages. -/
  ages : ∀ hostId ∈ federation.peers, ∀ (later : List (TimedCall F)) (now now' : PeerMoment),
    now.monotonic ≤ now'.monotonic → (∀ c ∈ later, accepted federation.peers hostId c = none) →
    ∃ before after, ((ofRun federation timing startedAt calls).freshness hostId now).2 = some before ∧
      ((ofRun federation timing startedAt (calls ++ later)).freshness hostId now').2 = some after ∧
      before.rank ≤ after.rank
  /-- A record is accepted from a configured peer, in its own name and without skew. -/
  accepts : ∀ (peer : String) (fetch : Except String (PublishedRecord F)) (now : PeerMoment),
    ((ofRun federation timing startedAt calls).ingest peer fetch now).2 = .ok () ↔
      (accepted federation.peers peer (now, .ingest peer fetch)).isSome = true
  /-- A rejected one changes no later answer. -/
  rejected : ∀ (peer : String) (fetch : Except String (PublishedRecord F)) (now : PeerMoment) (e : PeerRejection),
    ((ofRun federation timing startedAt calls).ingest peer fetch now).2 = .error e → ∀ later : List (TimedCall F),
    ((ofRun federation timing startedAt calls).ingest peer fetch now).1.answers later =
      (ofRun federation timing startedAt calls).answers later
  /-- Until the next accepted record one event is queued for a host that some call classifies as expired. -/
  announcedOnce : ∀ hostId, Heard federation hostId calls → ∀ episode : List (TimedCall F),
    (∀ c ∈ episode, accepted federation.peers hostId c = none) →
    ExpiresIn hostId (ofRun federation timing startedAt calls) episode →
    countQueued hostId ((ofRun federation timing startedAt calls).everQueued episode) =
      (ofRun federation timing startedAt calls).queued hostId + 1
  /-- And none for one that no call does. -/
  unannounced : ∀ hostId, ∀ episode : List (TimedCall F),
    (∀ c ∈ episode, accepted federation.peers hostId c = none) →
    ¬ ExpiresIn hostId (ofRun federation timing startedAt calls) episode →
    countQueued hostId ((ofRun federation timing startedAt calls).everQueued episode) =
      (ofRun federation timing startedAt calls).queued hostId
  /-- A target above the count is passed only while no peer is stale. -/
  clamp : ∀ (desired current : Nat) (now : PeerMoment),
    current < ((ofRun federation timing startedAt calls).clampScaleUp desired current now).2 →
    ∀ hostId ∈ federation.peers, ((ofRun federation timing startedAt calls).freshness hostId now).2 ≠ some .stale

theorem freshness_law (federation : FederationConfig) (timing : PeerTiming) (startedAt : Nat)
    (calls : List (TimedCall F)) : FreshnessLaw federation timing startedAt calls := by
  have htracks : Tracks federation timing startedAt calls (ofRun federation timing startedAt calls) :=
    tracks_after calls
  constructor
  · intro hostId hpeer now
    exact freshness_ofRun hpeer calls now
  · intro hostId hpeer hnone now
    rw [freshness_ofRun hpeer, hnone]
    exact fun h => timing.ofAge_unheard _ (Option.some.inj h)
  · intro hostId hpeer later now now' hle hnone
    refine ⟨_, _, freshness_ofRun hpeer calls now, freshness_ofRun hpeer _ now', ?_⟩
    rw [heardAt_append calls hnone]
    apply timing.ofAge_mono
    omega
  · intro peer fetch now
    exact ingest_snd htracks.peers peer fetch now
  · intro peer fetch now e herror later
    rw [ingest_rejected herror]
  · intro hostId hheard episode hnone hexpires
    exact (countQueued_everQueued htracks hnone).1 ⟨hexpires, announced_ofRun hheard⟩
  · intro hostId episode hnone hquiet
    exact (countQueued_everQueued htracks hnone).2 (Or.inl hquiet)
  · intro desired current now hgrow hostId _
    rw [freshness_snd]
    exact not_stale_of_clampScaleUp hgrow hostId

end Runs

/-! ### An unnoticed expiry -/

def secondsIn (seconds : Nat) : PeerMoment := { monotonic := seconds * 1000000000, wall := 0 }

def twoPeers : FederationConfig := { hostId := "c", peers := ["a", "b"] }

def recordOfA : PublishedRecord FloatArith.F64 :=
  { hostId := "a", observedAt := 0, accounts := ∅, hostCeiling := none, recordSeq := 1, workspaceOrigins := ∅ }

/-- One peer is heard from and goes stale, so that the freeze is answered before the other's expiry is noticed. -/
theorem expired_behind_stale :
    ¬ ∀ (federation : FederationConfig) (timing : PeerTiming) (startedAt : Nat)
      (calls episode : List (TimedCall FloatArith.F64)) (hostId : String), hostId ∈ federation.peers →
      Heard federation hostId calls →
      (∀ c ∈ episode, accepted federation.peers hostId c = none) →
      (startedAt :: (calls ++ episode).map (·.1.monotonic)).Pairwise (· ≤ ·) →
      (∃ c ∈ episode, c.2 = .anyPeerStale ∧
        timing.ofAge (heardAt federation hostId calls).isSome
          (c.1.monotonic - (heardAt federation hostId calls).getD startedAt) = .expired) →
      countQueued hostId ((ofRun federation timing startedAt calls).everQueued episode) =
        (ofRun federation timing startedAt calls).queued hostId + 1 := by
  intro hall
  have honce := hall twoPeers {} 0 [] [(secondsIn 1700, .ingest "a" (.ok recordOfA)), (secondsIn 1850, .anyPeerStale)]
    "b" (by decide) (Or.inl rfl) (by decide +kernel) (by decide) ⟨_, List.mem_cons_of_mem _ List.mem_cons_self, rfl,
      by decide +kernel⟩
  exact absurd honce (by decide +kernel)

end PeerTable

end Subgov
