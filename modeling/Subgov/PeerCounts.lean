import Subgov.PeerTable
import Subgov.HostSplit
import Subgov.StateFile
/-!
# PeerCounts — what a parsed record makes the receiver count

`PeerRecord::parse` checks the version, the identifiers and the fractions of a record and bounds none of its counts.
The receiver adds the pools of an account in wrapping 32-bit arithmetic, so a total covers every pool of it exactly when
each count has room over the others, as they wrap (`countsCovered_iff`).
-/
namespace Subgov

open FloatArith

variable {F : Type}

/-! ## Parsing -/

/-- A record as `serde` hands it over, with the fields that its validation reads. -/
structure WireRecord (F : Type) extends PublishedRecord F where
  instanceId : String
  countsU32 : ∀ account ∈ accounts.values, ∀ pool ∈ account.pools.values,
    pool.governedWorkers ≤ u32Max ∧ pool.readyDemand.workerBound ≤ u32Max

inductive PeerRecordError
  | unknownSchemaMajor (found supported : Nat)
  | malformed (error : String)
  | invalid (message : String)

def PeerRecordError.message : PeerRecordError → String
  | unknownSchemaMajor found supported =>
    s!"unknown peer record schema_version {found} (this binary supports major {supported})"
  | malformed error => s!"peer record is not valid JSON: {error}"
  | invalid message => message

/-- The reading of a record's version, and of a whole record. -/
structure RecordDecoder (F : Type) where
  versionProbe : Bytes → Except String Nat
  record : Bytes → Except String (WireRecord F)

def peerRecordSchemaVersion : Nat := 1

def fingerprintHexChars : Nat := 16

def validateIdentifier (field value : String) : Except String Unit :=
  ensure (!isBlank value && !value.toList.any isWhitespace) s!"{field} must be non-empty and free of whitespace"

def isFingerprint (value : String) : Bool :=
  value.utf8ByteSize == fingerprintHexChars &&
    value.toList.all (fun c => ('0' ≤ c && c ≤ '9') || ('a' ≤ c && c ≤ 'f'))

section Validation

variable [Flt F]

def validateQuotaSample (accountId pool : String) (sample : PeerQuotaSample F) : Except String Unit := do
  ensure (!isBlank sample.window) s!"account {accountId} pool {pool}: quota sample window must not be empty"
  ensure (isFraction sample.usedFraction) s!"account {accountId} pool {pool}: used_fraction must be in [0, 1]"

def validatePool (accountId : String) (entry : String × PeerPool F) : Except String Unit := do
  validateIdentifier "pool" entry.1
  entry.2.quotaSample.elim (.ok ()) (validateQuotaSample accountId entry.1)

def validateAccountEntry (entry : String × PeerAccount F) : Except String Unit := do
  validateIdentifier "account_id" entry.1
  ensure (entry.2.accountId == entry.1) s!"account {entry.1}: body carries account_id {entry.2.accountId}"
  ensure (isFingerprint entry.2.accountFingerprint)
    s!"account {entry.1}: account_fingerprint must be {fingerprintHexChars} lowercase hex characters"
  checkAll (validatePool entry.1) entry.2.pools.toList

namespace WireRecord

def validate (record : WireRecord F) : Except String Unit := do
  validateIdentifier "instance_id" record.instanceId
  validateIdentifier "host_id" record.hostId
  checkAll validateAccountEntry record.accounts.toList
  checkAll (fun entry => ensure (!isBlank entry.1 && !isBlank entry.2)
    "workspace_origins must not carry empty paths or origins") record.workspaceOrigins.toList

/-- The version is read first, so that an unknown major is refused on its own terms. -/
def parse (decoder : RecordDecoder F) (bytes : Bytes) : Except PeerRecordError (WireRecord F) :=
  match decoder.versionProbe bytes with
  | .error e => .error (.malformed e)
  | .ok version =>
    if version ≠ peerRecordSchemaVersion then .error (.unknownSchemaMajor version peerRecordSchemaVersion)
    else
      match decoder.record bytes with
      | .error e => .error (.malformed e)
      | .ok record =>
        match record.validate with
        | .error message => .error (.invalid message)
        | .ok () => .ok record

/-- **What is accepted**: a record of the known major that passes its validation. -/
theorem parse_ok_iff {decoder : RecordDecoder F} {bytes : Bytes} {record : WireRecord F} :
    parse decoder bytes = .ok record ↔ decoder.versionProbe bytes = .ok peerRecordSchemaVersion ∧
      decoder.record bytes = .ok record ∧ record.validate = .ok () := by
  unfold parse
  cases decoder.versionProbe bytes with
  | error e => simp
  | ok version =>
    by_cases hversion : version = peerRecordSchemaVersion
    · simp only [hversion, ne_eq, not_true_eq_false, if_false, true_and]
      cases hrecord : decoder.record bytes with
      | error e => simp
      | ok decoded =>
        cases hvalid : decoded.validate with
        | error message =>
          simp only [hvalid, reduceCtorEq, Except.ok.injEq, false_iff, not_and]
          rintro rfl
          rw [hvalid]
          exact nofun
        | ok =>
          simp only [hvalid, Except.ok.injEq]
          exact ⟨fun h => ⟨h, h ▸ hvalid⟩, fun h => h.1⟩
    · simp [hversion]

end WireRecord

end Validation

/-! ## Totals -/

/-- Every count has room over the others, as they wrap. -/
def Room (counts : List Nat) : Prop := ∀ c ∈ counts, (counts.sum - c) % (u32Max + 1) + c ≤ u32Max

instance (counts : List Nat) : Decidable (Room counts) :=
  inferInstanceAs (Decidable (∀ c ∈ counts, (counts.sum - c) % (u32Max + 1) + c ≤ u32Max))

theorem wrapSum_eq (counts : List Nat) : wrapSum counts = counts.sum % (u32Max + 1) := by
  have hfold := foldl_wrapAdd counts 0
  rwa [Nat.zero_mod, Nat.zero_add] at hfold

/-- A count stays under its own sum with the others unless that addition wraps. -/
theorem le_add_mod_iff {s c : Nat} (hc : c ≤ u32Max) :
    c ≤ (s + c) % (u32Max + 1) ↔ s % (u32Max + 1) + c ≤ u32Max := by
  have hlt : s % (u32Max + 1) < u32Max + 1 := Nat.mod_lt _ (Nat.succ_pos _)
  rw [Nat.add_mod, Nat.mod_eq_of_lt (show c < u32Max + 1 by omega)]
  by_cases hwrap : s % (u32Max + 1) + c ≤ u32Max
  · rw [Nat.mod_eq_of_lt (by omega)]
    omega
  · rw [Nat.mod_eq_sub_mod (by omega), Nat.mod_eq_of_lt (by omega)]
    omega

theorem covered_iff_room {counts : List Nat} (hcounts : ∀ c ∈ counts, c ≤ u32Max) :
    (∀ c ∈ counts, c ≤ wrapSum counts) ↔ Room counts := by
  refine forall₂_congr fun c hc => ?_
  have hsum : counts.sum - c + c = counts.sum := Nat.sub_add_cancel (List.le_sum_of_mem hc)
  rw [wrapSum_eq, ← le_add_mod_iff (hcounts c hc), hsum]

theorem room_of_sum_le {counts : List Nat} (h : counts.sum ≤ u32Max) : Room counts := by
  intro c hc
  have hle := List.le_sum_of_mem hc
  rw [Nat.mod_eq_of_lt (by omega)]
  omega

namespace WireRecord

/-- No account's pools wrap past a count of theirs. -/
def CountsFit (record : WireRecord F) : Prop := ∀ account ∈ record.accounts.values,
  Room (account.pools.values.map (·.governedWorkers)) ∧ Room (account.pools.values.map (·.readyDemand.workerBound))

/-- No pool has a worker or a demand. -/
def Idle (record : WireRecord F) : Prop := ∀ account ∈ record.accounts.values, ∀ pool ∈ account.pools.values,
  pool.governedWorkers = 0 ∧ pool.readyDemand.workerBound = 0

theorem Idle.countsFit {record : WireRecord F} (h : record.Idle) : record.CountsFit := by
  intro account haccount
  have hzero : ∀ (count : PeerPool F → Nat), (∀ pool ∈ account.pools.values, count pool = 0) →
      Room (account.pools.values.map count) := by
    intro count hcount
    refine room_of_sum_le (Nat.le_trans (Nat.le_of_eq (List.sum_eq_zero ?_)) (Nat.zero_le _))
    exact List.forall_mem_map.2 hcount
  exact ⟨hzero _ fun pool hpool => (h account haccount pool hpool).1,
    hzero _ fun pool hpool => (h account haccount pool hpool).2⟩

end WireRecord

namespace PeerTable

/-- Two answers cover every pool of an account. -/
def Covers (pools : List (PeerPool F)) (workers : Nat) (snapshot : PeerAccountSnapshot F) : Prop :=
  ∀ pool ∈ pools, pool.governedWorkers ≤ workers ∧ pool.governedWorkers ≤ snapshot.workers ∧
    pool.readyDemand.workerBound ≤ snapshot.readyDemand

variable [Flt F]

/-- Asked at a moment, the table answers for every account with totals that cover each of its pools in the record. -/
def CountsCovered (t : PeerTable F) (hostId : String) (record : WireRecord F) (now : PeerMoment) : Prop :=
  ∀ accountId, ∃ workers snapshot,
    (t.peerAccountWorkers hostId accountId now).2 = some workers ∧
    (t.peerAccountSnapshot hostId accountId now).2 = some snapshot ∧
    Covers (record.accounts[accountId]?.elim [] (·.pools.values)) workers snapshot

omit [Flt F] in
theorem entryAccount_eq (t : PeerTable F) (hostId accountId : String) :
    t.entryAccount hostId accountId = ((t.receipt hostId).bind (·.1)).bind (·.accounts[accountId]?) := by
  unfold entryAccount receipt
  cases t.entries[hostId]? with
  | none => rfl
  | some entry => rfl

omit [Flt F] in
theorem peerAccountWorkers_snd (t : PeerTable F) (hostId accountId : String) (now : PeerMoment) :
    (t.peerAccountWorkers hostId accountId now).2 = (t.freshnessAt hostId now).map (fun freshness =>
      if freshness = .expired then 0
      else (t.entryAccount hostId accountId).elim 0 (fun account =>
        wrapSum (account.pools.values.map (·.governedWorkers)))) := by
  unfold peerAccountWorkers
  dsimp only
  rw [freshness_snd, entryAccount_eq, entryAccount_eq, (freshness_classifies t hostId now).receipts]

theorem peerAccountSnapshot_snd (t : PeerTable F) (hostId accountId : String) (now : PeerMoment) :
    (t.peerAccountSnapshot hostId accountId now).2 = (t.freshnessAt hostId now).map (fun freshness =>
      if freshness = .expired then {}
      else (t.entryAccount hostId accountId).elim {} (fun account =>
        { workers := wrapSum (account.pools.values.map (·.governedWorkers))
          readyDemand := wrapSum (account.pools.values.map (·.readyDemand.workerBound))
          quotaSample := freshestSample (account.pools.values.filterMap (·.quotaSample)) })) := by
  unfold peerAccountSnapshot
  dsimp only
  rw [freshness_snd, entryAccount_eq, entryAccount_eq, (freshness_classifies t hostId now).receipts]

/-! ### A record in force -/

variable {t : PeerTable F} {hostId : String} {record : WireRecord F} {received : Nat} {now : PeerMoment}

omit [Flt F] in
theorem freshnessAt_of_receipt (hreceipt : t.receipt hostId = some (some record.toPublishedRecord, some received)) :
    t.freshnessAt hostId now = some (t.classify (some received) now.monotonic) := by
  unfold freshnessAt
  rw [hreceipt]
  rfl

omit [Flt F] in
theorem classify_expired_iff : t.classify (some received) now.monotonic = .expired ↔
    t.expiry ≤ now.monotonic - received := by
  unfold classify
  dsimp only
  rw [Option.getD_some]
  by_cases hage : t.expiry ≤ now.monotonic - received
  · simp [hage]
  · simp only [hage, if_false, iff_false]
    split <;> exact nofun

/-- The answers by account: those of an account that the record does not have cover nothing. -/
theorem countsCovered_iff_covers {workers : PeerAccount F → Nat} {snapshot : PeerAccount F → PeerAccountSnapshot F}
    (hworkers : ∀ accountId, (t.peerAccountWorkers hostId accountId now).2 =
      some (record.accounts[accountId]?.elim 0 workers))
    (hsnapshot : ∀ accountId, (t.peerAccountSnapshot hostId accountId now).2 =
      some (record.accounts[accountId]?.elim {} snapshot)) :
    t.CountsCovered hostId record now ↔
      ∀ account ∈ record.accounts.values, Covers account.pools.values (workers account) (snapshot account) := by
  constructor
  · intro hcovered account haccount
    obtain ⟨accountId, hentry⟩ := mem_values.1 haccount
    obtain ⟨w, s, hw, hs, hcovers⟩ := hcovered accountId
    rw [hworkers, hentry] at hw
    rw [hsnapshot, hentry] at hs
    rw [hentry] at hcovers
    cases hw
    cases hs
    exact hcovers
  · intro hcovers accountId
    refine ⟨_, _, hworkers accountId, hsnapshot accountId, ?_⟩
    cases hentry : record.accounts[accountId]? with
    | none => exact fun pool hpool => absurd hpool List.not_mem_nil
    | some account => exact hcovers account (mem_values.2 ⟨accountId, hentry⟩)

theorem countsCovered_of_expired (hreceipt : t.receipt hostId = some (some record.toPublishedRecord, some received))
    (hexpired : t.expiry ≤ now.monotonic - received) : t.CountsCovered hostId record now ↔ record.Idle := by
  have hfreshness : t.freshnessAt hostId now = some .expired := by
    rw [freshnessAt_of_receipt hreceipt, classify_expired_iff.2 hexpired]
  have hworkers : ∀ accountId, (t.peerAccountWorkers hostId accountId now).2 =
      some (record.accounts[accountId]?.elim 0 fun _ => 0) := by
    intro accountId
    rw [peerAccountWorkers_snd, hfreshness, Option.map_some, if_pos rfl]
    cases record.accounts[accountId]? <;> rfl
  have hsnapshot : ∀ accountId, (t.peerAccountSnapshot hostId accountId now).2 =
      some (record.accounts[accountId]?.elim {} fun _ => {}) := by
    intro accountId
    rw [peerAccountSnapshot_snd, hfreshness, Option.map_some, if_pos rfl]
    cases record.accounts[accountId]? <;> rfl
  rw [countsCovered_iff_covers hworkers hsnapshot]
  refine forall₂_congr fun account _ => forall₂_congr fun pool _ => ?_
  exact ⟨fun h => ⟨Nat.le_zero.1 h.1, Nat.le_zero.1 h.2.2⟩,
    fun h => ⟨Nat.le_of_eq h.1, Nat.le_of_eq h.1, Nat.le_of_eq h.2⟩⟩

theorem countsCovered_of_inForce (hreceipt : t.receipt hostId = some (some record.toPublishedRecord, some received))
    (hforce : now.monotonic - received < t.expiry) : t.CountsCovered hostId record now ↔ record.CountsFit := by
  have hnot : t.classify (some received) now.monotonic ≠ .expired :=
    fun h => Nat.not_le.2 hforce (classify_expired_iff.1 h)
  have hentry : ∀ accountId, t.entryAccount hostId accountId = record.accounts[accountId]? := by
    intro accountId
    rw [entryAccount_eq, hreceipt]
    rfl
  have hworkers : ∀ accountId, (t.peerAccountWorkers hostId accountId now).2 =
      some (record.accounts[accountId]?.elim 0 fun account => wrapSum (account.pools.values.map (·.governedWorkers))) := by
    intro accountId
    rw [peerAccountWorkers_snd, freshnessAt_of_receipt hreceipt, Option.map_some, if_neg hnot, hentry]
  have hsnapshot : ∀ accountId, (t.peerAccountSnapshot hostId accountId now).2 =
      some (record.accounts[accountId]?.elim {} fun account =>
        { workers := wrapSum (account.pools.values.map (·.governedWorkers))
          readyDemand := wrapSum (account.pools.values.map (·.readyDemand.workerBound))
          quotaSample := freshestSample (account.pools.values.filterMap (·.quotaSample)) }) := by
    intro accountId
    rw [peerAccountSnapshot_snd, freshnessAt_of_receipt hreceipt, Option.map_some, if_neg hnot, hentry]
  rw [countsCovered_iff_covers hworkers hsnapshot]
  refine forall₂_congr fun account haccount => ?_
  have hcounts := record.countsU32 account haccount
  rw [← covered_iff_room (List.forall_mem_map.2 fun pool hpool => (hcounts pool hpool).1),
    ← covered_iff_room (List.forall_mem_map.2 fun pool hpool => (hcounts pool hpool).2), List.forall_mem_map,
    List.forall_mem_map]
  exact ⟨fun h => ⟨fun pool hpool => (h pool hpool).1, fun pool hpool => (h pool hpool).2.2⟩,
    fun h pool hpool => ⟨h.1 pool hpool, h.1 pool hpool, h.2 pool hpool⟩⟩

end PeerTable

/-! ## Ingested bytes -/

section Ingested

variable [Flt F]

/-- What a pull makes of the bytes that its command wrote. -/
def pulled (decoder : RecordDecoder F) (command : String) (bytes : Bytes) : Except String (PublishedRecord F) :=
  match WireRecord.parse decoder bytes with
  | .error source => .error s!"peer pull command `{command}` produced an unusable record: {source.message}"
  | .ok record => .ok record.toPublishedRecord

variable {federation : FederationConfig} {timing : PeerTiming} {startedAt : Nat} {decoder : RecordDecoder F}
  {command : String} {bytes : Bytes} {record : WireRecord F} {before later : List (TimedCall F)} {peer : String}
  {received : PeerMoment}

open PeerTable

omit [Flt F] in
/-- Calls that bring no record of a peer leave the last one. -/
theorem foldl_accepted_of_none {peers : List String} {host : String} {calls : List (TimedCall F)}
    (h : ∀ c ∈ calls, accepted peers host c = none) (last : Option (PeerMoment × PublishedRecord F)) :
    calls.foldl (fun last call => (accepted peers host call).or last) last = last := by
  induction calls generalizing last with
  | nil => rfl
  | cons c calls ih =>
    rw [List.foldl_cons, h c List.mem_cons_self, Option.none_or]
    exact ih (fun c' hc' => h c' (List.mem_cons_of_mem _ hc')) last

/-- The table holds an ingested record until another one of its peer is accepted. -/
theorem receipt_of_ingested (hparse : WireRecord.parse decoder bytes = .ok record)
    (hingested : (((new federation timing startedAt).after before).ingest peer (pulled decoder command bytes)
      received).2 = .ok ())
    (hlater : ∀ c ∈ later, accepted federation.peers peer c = none) :
    ((new federation timing startedAt).after
      (before ++ (received, .ingest peer (pulled decoder command bytes)) :: later)).receipt peer =
        some (some record.toPublishedRecord, some received.monotonic) := by
  have hpulled : pulled decoder command bytes = .ok record.toPublishedRecord := by
    unfold pulled
    rw [hparse]
  have hbefore : Tracks federation timing startedAt before ((new federation timing startedAt).after before) :=
    tracks_after before
  rw [hpulled] at hingested ⊢
  rw [ingest_snd hbefore.peers] at hingested
  obtain ⟨⟨moment, other⟩, haccepted⟩ := Option.isSome_iff_exists.1 hingested
  obtain ⟨hmoment, hmem, hcall⟩ := accepted_some haccepted
  cases hmoment
  cases hcall
  rw [(tracks_after _).receipts, if_pos hmem, lastAccepted_append, List.foldl_cons, haccepted, Option.some_or,
    foldl_accepted_of_none hlater]
  rfl

theorem expiry_of_run (calls : List (TimedCall F)) :
    ((new federation timing startedAt).after calls).expiry = timing.peerExpiry := (tracks_after calls).bounds.2.2

/-- **A record in force**: the totals cover every pool exactly when no account's counts wrap past one of them. -/
theorem countsCovered_while (hparse : WireRecord.parse decoder bytes = .ok record)
    (hingested : (((new federation timing startedAt).after before).ingest peer (pulled decoder command bytes)
      received).2 = .ok ())
    (hlater : ∀ c ∈ later, accepted federation.peers peer c = none) {now : PeerMoment}
    (hforce : now.monotonic - received.monotonic < timing.peerExpiry) :
    ((new federation timing startedAt).after
      (before ++ (received, .ingest peer (pulled decoder command bytes)) :: later)).CountsCovered peer record now ↔
        record.CountsFit := by
  refine countsCovered_of_inForce (receipt_of_ingested hparse hingested hlater) ?_
  rwa [expiry_of_run]

/-- **What the totals cover**: every pool of a record in force exactly when no account's counts wrap past one of them,
and an expired record when it has neither a worker nor a demand. -/
theorem countsCovered_iff (hparse : WireRecord.parse decoder bytes = .ok record)
    (hingested : (((new federation timing startedAt).after before).ingest peer (pulled decoder command bytes)
      received).2 = .ok ())
    (hlater : ∀ c ∈ later, accepted federation.peers peer c = none) (now : PeerMoment) :
    ((new federation timing startedAt).after
      (before ++ (received, .ingest peer (pulled decoder command bytes)) :: later)).CountsCovered peer record now ↔
        (now.monotonic - received.monotonic < timing.peerExpiry ∧ record.CountsFit) ∨ record.Idle := by
  by_cases hforce : now.monotonic - received.monotonic < timing.peerExpiry
  · rw [countsCovered_while hparse hingested hlater hforce]
    exact ⟨fun hfit => Or.inl ⟨hforce, hfit⟩, fun h => h.elim (·.2) (·.countsFit)⟩
  · have hexpired := Nat.not_lt.1 hforce
    rw [← expiry_of_run (before ++ (received, .ingest peer (pulled decoder command bytes)) :: later)] at hexpired
    rw [countsCovered_of_expired (receipt_of_ingested hparse hingested hlater) hexpired]
    exact ⟨Or.inr, fun h => h.resolve_left fun hfit => hforce hfit.1⟩

end Ingested

/-! ### Two pools that wrap to none -/

def countedPool (governedWorkers : Nat) : PeerPool F64 where
  governedWorkers
  pendingLaunches := 0
  desired := 0
  quotaSample := none
  readyDemand := {}

/-- A record of two pools, whose counts are the largest there is and another one. -/
def sparkRecord (second : Fin 2) : WireRecord F64 where
  hostId := "spark"
  observedAt := 0
  accounts := (∅ : BTreeMap (PeerAccount F64)).insert "codex"
    { accountId := "codex"
      accountFingerprint := "0123456789abcdef"
      pools := ((∅ : BTreeMap (PeerPool F64)).insert "a" (countedPool u32Max)).insert "b" (countedPool second) }
  hostCeiling := none
  recordSeq := 1
  workspaceOrigins := ∅
  instanceId := "spark-1"
  countsU32 := by
    revert second
    decide +kernel

def sparkBytes (second : Fin 2) : Bytes :=
  ("\x7b\"schema_version\":1,\"instance_id\":\"spark-1\",\"host_id\":\"spark\",\"record_seq\":1," ++
    "\"observed_at\":\"1970-01-01T00:00:00Z\",\"accounts\":\x7b\"codex\":\x7b\"account_id\":\"codex\"," ++
    "\"account_fingerprint\":\"0123456789abcdef\",\"pools\":\x7b\"a\":\x7b\"governed_workers\":4294967295," ++
    "\"pending_launches\":0,\"desired\":0,\"ready_demand\":\x7b\x7d\x7d,\"b\":\x7b\"governed_workers\":" ++
    toString second ++ ",\"pending_launches\":0,\"desired\":0,\"ready_demand\":\x7b\x7d\x7d\x7d\x7d\x7d\x7d"
    ).toUTF8.data.toList

/-- A decoder that reads these records. -/
def sparkDecoder (second : Fin 2) : RecordDecoder F64 where
  versionProbe bytes := if bytes = sparkBytes second then .ok 1 else .error "expected value at line 1 column 1"
  record bytes :=
    if bytes = sparkBytes second then .ok (sparkRecord second) else .error "expected value at line 1 column 1"

theorem parse_sparkBytes (second : Fin 2) :
    WireRecord.parse (sparkDecoder second) (sparkBytes second) = .ok (sparkRecord second) := by
  have hvalid : ∀ second, (sparkRecord second).validate = .ok () := by decide +kernel
  refine WireRecord.parse_ok_iff.2 ⟨?_, ?_, hvalid second⟩
  · dsimp only [sparkDecoder]
    rw [if_pos rfl]
    rfl
  · dsimp only [sparkDecoder]
    rw [if_pos rfl]

def sparkMoment : PeerMoment := ⟨0, 0⟩

def sparkFederation : FederationConfig := { hostId := "tower", peers := ["spark"] }

theorem ingest_sparkBytes (second : Fin 2) : (((PeerTable.new sparkFederation {} 0).after []).ingest "spark"
    (pulled (sparkDecoder second) "subgov peer-state --json" (sparkBytes second)) sparkMoment).2 = .ok () := by
  have hpulled : pulled (sparkDecoder second) "subgov peer-state --json" (sparkBytes second) =
      .ok (sparkRecord second).toPublishedRecord := by
    unfold pulled
    rw [parse_sparkBytes]
  have haccepted : ∀ second, (PeerTable.accepted sparkFederation.peers "spark"
      (sparkMoment, .ingest "spark" (.ok (sparkRecord second).toPublishedRecord))).isSome = true := by decide +kernel
  rw [hpulled, PeerTable.ingest_snd (PeerTable.tracks_after []).peers]
  exact haccepted second

/-- With counts of `u32::MAX` and 1 the account's total is 0. -/
theorem ingested_counts_wrap :
    ¬ ∀ (federation : FederationConfig) (timing : PeerTiming) (startedAt : Nat) (decoder : RecordDecoder F64)
      (command : String) (bytes : Bytes) (record : WireRecord F64) (before later : List (TimedCall F64))
      (peer : String) (received now : PeerMoment), WireRecord.parse decoder bytes = .ok record →
      (((PeerTable.new federation timing startedAt).after before).ingest peer (pulled decoder command bytes)
        received).2 = .ok () →
      (∀ c ∈ later, PeerTable.accepted federation.peers peer c = none) →
      now.monotonic - received.monotonic < timing.peerExpiry →
      ((PeerTable.new federation timing startedAt).after
        (before ++ (received, .ingest peer (pulled decoder command bytes)) :: later)).CountsCovered peer record
          now := by
  intro hall
  have hforce : sparkMoment.monotonic - sparkMoment.monotonic < ({} : PeerTiming).peerExpiry := by decide
  have hquiet : ∀ c ∈ ([] : List (TimedCall F64)), PeerTable.accepted sparkFederation.peers "spark" c = none := nofun
  have hcovered := hall sparkFederation {} 0 _ _ _ _ _ _ _ _ sparkMoment (parse_sparkBytes 1) (ingest_sparkBytes 1)
    hquiet hforce
  rw [countsCovered_while (parse_sparkBytes 1) (ingest_sparkBytes 1) hquiet hforce] at hcovered
  have hwraps : ¬ (sparkRecord 1).CountsFit := by
    unfold WireRecord.CountsFit
    decide +kernel
  exact hwraps hcovered

/-- With counts of `u32::MAX` and 0 the totals cover both pools. -/
theorem ingested_counts_covered : ((PeerTable.new sparkFederation {} 0).after
    [(sparkMoment, .ingest "spark" (pulled (sparkDecoder 0) "subgov peer-state --json" (sparkBytes 0)))]).CountsCovered
      "spark" (sparkRecord 0) sparkMoment := by
  have hquiet : ∀ c ∈ ([] : List (TimedCall F64)), PeerTable.accepted sparkFederation.peers "spark" c = none := nofun
  have hfit : (sparkRecord 0).CountsFit := by
    unfold WireRecord.CountsFit
    decide +kernel
  exact (countsCovered_iff (parse_sparkBytes 0) (ingest_sparkBytes 0) hquiet sparkMoment).2
    (Or.inl ⟨by decide, hfit⟩)

end Subgov
