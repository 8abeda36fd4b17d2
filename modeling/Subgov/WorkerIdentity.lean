import Subgov.StatusReport
import Subgov.Lib.Numbered
/-!
# WorkerIdentity — whose worker an id names

A pool owns the workers whose id is its prefix with a number behind it.  A configuration is checked as it was written;
an instance that is not the primary one then derives its prefixes from the host id.  At startup an instance refuses a
prefix that the record of a peer claims.  `worker_identity_disjoint_iff` says when that keeps the workers of two pools
apart: the checks compare prefixes for equality, and one prefix may be another with digits behind it.
-/
namespace Subgov

open FloatArith Numbered

variable {F : Type} [Flt F]

/-! ## Prefixes -/

/-- A worker belongs to a prefix when the rest of its id is a number. -/
def matchesWorkerPrefix (workerPrefix workerId : String) : Bool :=
  (stripPrefix workerPrefix workerId).any fun suffix => !suffix.isEmpty && suffix.toList.all Char.isDigit

theorem matchesWorkerPrefix_iff {workerPrefix workerId : String} :
    matchesWorkerPrefix workerPrefix workerId = true ↔ Names Char.isDigit workerPrefix.toList workerId.toList := by
  unfold matchesWorkerPrefix Names
  rw [Option.any_eq_true]
  constructor
  · rintro ⟨suffix, hsuffix, hnumber⟩
    rw [Bool.and_eq_true, List.all_eq_true, Bool.not_eq_true'] at hnumber
    refine ⟨suffix.toList, ?_, hnumber.2, ?_⟩
    · intro hempty
      rw [String.toList_eq_nil_iff.1 hempty] at hnumber
      exact absurd hnumber.1 (by decide)
    · rw [stripPrefix_eq_some.1 hsuffix, String.toList_append]
  · rintro ⟨number, hne, hdigits, hword⟩
    refine ⟨String.ofList number, stripPrefix_eq_some.2 ?_, ?_⟩
    · rw [← String.toList_inj, hword, String.toList_append, String.toList_ofList]
    · rw [Bool.and_eq_true, List.all_eq_true, Bool.not_eq_true', String.toList_ofList]
      refine ⟨?_, hdigits⟩
      rw [Bool.eq_false_iff]
      intro hempty
      refine hne ?_
      simpa using hempty

/-- **Two prefixes have a worker in common** exactly when they are equal or one is a worker id of the other. -/
theorem exists_common_worker_iff {p q : String} :
    (∃ worker, matchesWorkerPrefix p worker = true ∧ matchesWorkerPrefix q worker = true) ↔
      p = q ∨ matchesWorkerPrefix p q = true ∨ matchesWorkerPrefix q p = true := by
  have hcommon : (∃ word, Names Char.isDigit p.toList word ∧ Names Char.isDigit q.toList word) ↔
      Extends Char.isDigit p.toList q.toList ∨ Extends Char.isDigit q.toList p.toList :=
    exists_common_iff (show Char.isDigit '0' = true by decide)
  rw [extends_iff, extends_iff, String.toList_inj, String.toList_inj, ← matchesWorkerPrefix_iff,
    ← matchesWorkerPrefix_iff] at hcommon
  constructor
  · rintro ⟨worker, hp, hq⟩
    rcases hcommon.1 ⟨worker.toList, matchesWorkerPrefix_iff.1 hp, matchesWorkerPrefix_iff.1 hq⟩ with
      (h | h) | (h | h)
    · exact Or.inl h
    · exact Or.inr (Or.inl h)
    · exact Or.inl h.symm
    · exact Or.inr (Or.inr h)
  · intro h
    have hword : (p = q ∨ matchesWorkerPrefix p q = true) ∨ (q = p ∨ matchesWorkerPrefix q p = true) := by
      rcases h with h | h | h
      · exact Or.inl (Or.inl h)
      · exact Or.inl (Or.inr h)
      · exact Or.inr (Or.inr h)
    obtain ⟨word, hp, hq⟩ := hcommon.2 hword
    refine ⟨String.ofList word, matchesWorkerPrefix_iff.2 ?_, matchesWorkerPrefix_iff.2 ?_⟩
    · rwa [String.toList_ofList]
    · rwa [String.toList_ofList]

/-! ## A configuration is loaded -/

def rewriteObserverPrefix (hostId : String) : WorkerObserverConfig → WorkerObserverConfig
  | .needleStatus (some configured) => .needleStatus (some (effectivePrefix configured hostId false))
  | observer => observer

def rewriteActuatorPrefix (hostId : String) : ActuatorConfig → ActuatorConfig
  | .needleRun repo (some configured) demand => .needleRun repo (some (effectivePrefix configured hostId false)) demand
  | actuator => actuator

def rewriteHostPrefix (hostId : String) (host : HostConfig F) : HostConfig F :=
  { host with
    observer := rewriteObserverPrefix hostId host.observer
    actuator := rewriteActuatorPrefix hostId host.actuator }

def rewriteAccountPrefix (hostId : String) (account : AccountConfig F) : AccountConfig F :=
  match account.fleet.hosts with
  | some hosts => { account with fleet := { account.fleet with
      hosts := some (hosts.modify hostId (rewriteHostPrefix hostId)) } }
  | none => { account with fleet := { account.fleet with
      observer := account.fleet.observer.map (rewriteObserverPrefix hostId)
      actuator := rewriteActuatorPrefix hostId account.fleet.actuator } }

def Config.applyFederationPrefixes (config : Config F) : Config F :=
  match config.federation with
  | none => config
  | some federation =>
    if federation.primary || federation.peers.isEmpty then config
    else { config with accounts := config.accounts.map fun _ account => rewriteAccountPrefix federation.hostId account }

theorem needleStatusPrefix_rewrite (hostId : String) (observer : WorkerObserverConfig) :
    needleStatusPrefix (rewriteObserverPrefix hostId observer) =
      (needleStatusPrefix observer).map (effectivePrefix · hostId false) := by
  cases observer with
  | needleStatus configured => cases configured <;> rfl
  | _ => rfl

theorem needleRunPrefix_rewrite (hostId : String) (actuator : ActuatorConfig) :
    needleRunPrefix (rewriteActuatorPrefix hostId actuator) =
      (needleRunPrefix actuator).map (effectivePrefix · hostId false) := by
  cases actuator with
  | needleRun repo configured demand => cases configured <;> rfl
  | _ => rfl

omit [Flt F] in
theorem identifierPrefix_rewrite (hostId : String) (account : AccountConfig F) :
    identifierPrefix (rewriteAccountPrefix hostId account) hostId =
      (identifierPrefix account hostId).map (effectivePrefix · hostId false) := by
  unfold identifierPrefix rewriteAccountPrefix
  cases hhosts : account.fleet.hosts with
  | some hosts =>
    dsimp only
    rw [Std.ExtTreeMap.getElem?_modify_self]
    cases hhost : hosts[hostId]? with
    | none => rfl
    | some host =>
      simp only [Option.map_some, Option.bind_some, rewriteHostPrefix, needleStatusPrefix_rewrite,
        needleRunPrefix_rewrite, Option.map_or]
  | none =>
    dsimp only
    rw [needleRunPrefix_rewrite, hhosts, Option.map_or]
    cases account.fleet.observer with
    | none => rfl
    | some observer => simp only [Option.map_some, Option.bind_some, needleStatusPrefix_rewrite]

omit [Flt F] in
/-- **The loaded prefixes are the effective ones**, where the instance has peers. -/
theorem localWorkerPrefixes_load {config : Config F} {federation : FederationConfig}
    (h : config.federation = some federation) (hpeers : federation.peers ≠ []) (name : String) :
    (localWorkerPrefixes config.applyFederationPrefixes)[name]? =
      (localWorkerPrefixes config)[name]?.map (effectivePrefix · federation.hostId federation.primary) := by
  have hempty : federation.peers.isEmpty = false := by
    rw [List.isEmpty_eq_false_iff]
    exact hpeers
  unfold Config.applyFederationPrefixes
  rw [h]
  dsimp only
  cases hprimary : federation.primary with
  | true =>
    rw [Bool.true_or, if_pos rfl]
    cases (localWorkerPrefixes config)[name]? with
    | none => rfl
    | some configured => rfl
  | false =>
    rw [hempty, Bool.or_false, if_neg Bool.false_ne_true, localWorkerPrefixes_getElem? h,
      localWorkerPrefixes_getElem? rfl]
    dsimp only
    rw [Std.ExtTreeMap.getElem?_map]
    cases config.accounts[name]? with
    | none => rfl
    | some account => exact identifierPrefix_rewrite federation.hostId account

omit [Flt F] in
theorem applyFederationPrefixes_federation (config : Config F) :
    config.applyFederationPrefixes.federation = config.federation := by
  unfold Config.applyFederationPrefixes
  split
  · rfl
  · split <;> rfl

/-- **Two accounts of a valid federated instance with peers have distinct prefixes.** -/
theorem own_prefixes_ne {config : Config F} {federation : FederationConfig} (hvalid : config.validate = .ok ())
    (h : config.federation = some federation) (hpeers : federation.peers ≠ []) {x y p q : String} (hxy : x ≠ y)
    (hp : (localWorkerPrefixes config.applyFederationPrefixes)[x]? = some p)
    (hq : (localWorkerPrefixes config.applyFederationPrefixes)[y]? = some q) : p ≠ q := by
  have hempty : federation.peers.isEmpty = false := by
    rw [List.isEmpty_eq_false_iff]
    exact hpeers
  simp only [Config.validate, andThen_ok, h, Option.elim_some, validateFederation, hempty, Bool.false_eq_true,
    if_false] at hvalid
  have hclaimed : claimPrefixes federation (localWorkerPrefixes config) [] config.accounts.toList = .ok () :=
    hvalid.2.2.2.2.2.2.2.1
  have hdistinct := (claimPrefixes_ok hclaimed).2
  rw [localWorkerPrefixes_load h hpeers] at hp hq
  obtain ⟨p', hp', rfl⟩ := Option.map_eq_some_iff.1 hp
  obtain ⟨q', hq', rfl⟩ := Option.map_eq_some_iff.1 hq
  have hmem : ∀ {name configured : String}, (localWorkerPrefixes config)[name]? = some configured →
      ∃ account, (name, account) ∈ config.accounts.toList := by
    intro name configured hname
    rw [localWorkerPrefixes_getElem? h] at hname
    obtain ⟨account, haccount, -⟩ := Option.bind_eq_some_iff.1 hname
    exact ⟨account, Std.ExtTreeMap.mem_toList_iff_getElem?_eq_some.2 haccount⟩
  obtain ⟨accountX, hx⟩ := hmem hp'
  obtain ⟨accountY, hy⟩ := hmem hq'
  have hdifferent : (x, accountX) ≠ (y, accountY) := fun hsame => hxy (congrArg Prod.fst hsame)
  have hsymm : Std.Symm fun account account' : String × AccountConfig F => ∀ p q,
      (localWorkerPrefixes config)[account.1]? = some p → (localWorkerPrefixes config)[account'.1]? = some q →
      effectivePrefix p federation.hostId federation.primary ≠
        effectivePrefix q federation.hostId federation.primary :=
    ⟨fun _ _ hne p q hp hq => (hne q p hq hp).symm⟩
  exact hdistinct.forall hx hy hdifferent p' q' hp' hq'

/-! ## The record and the startup refusal -/

def claimedPrefixes (record : PeerRecord F) : List String := record.accounts.values.flatMap (·.pools.keys)

def refuseRecord (workerPrefix : String) (record : PeerRecord F) : Except String Unit :=
  ensure (!(claimedPrefixes record).contains workerPrefix)
    (s!"worker prefix {workerPrefix} is already claimed by peer host {record.hostId} (plan.md §28.9: a worker belongs " ++
      "to the instance whose prefix it carries)")

def refusePrefixCollisions (localPrefixes : BTreeMap String) (records : List (PeerRecord F)) : Except String Unit :=
  checkAll (fun workerPrefix => checkAll (refuseRecord workerPrefix) records) localPrefixes.values

omit [Flt F] in
theorem mem_claimedPrefixes {fingerprint : String → String} {config : Config F} {federation : FederationConfig}
    {files : RecordFiles F} {name workerPrefix : String} (h : config.federation = some federation)
    (hname : (localWorkerPrefixes config)[name]? = some workerPrefix) :
    workerPrefix ∈ claimedPrefixes (buildLocalRecord fingerprint config federation files) := by
  rw [localWorkerPrefixes_getElem? h] at hname
  obtain ⟨account, haccount, hconfigured⟩ := Option.bind_eq_some_iff.1 hname
  have hown : (config.accounts.map (localAccount fingerprint federation files))[name]? =
      some (localAccount fingerprint federation files name account) := by
    rw [Std.ExtTreeMap.getElem?_map, haccount]
    rfl
  unfold claimedPrefixes buildLocalRecord
  rw [List.mem_flatMap]
  refine ⟨_, mem_values.2 ⟨name, hown⟩, ?_⟩
  rw [Std.ExtTreeMap.mem_keys]
  unfold localAccount poolStates poolKey
  rw [hconfigured]
  exact Std.ExtTreeMap.mem_insert_self

omit [Flt F] in
/-- **An accepted record claims no prefix of this instance.** -/
theorem refusePrefixCollisions_ok {localPrefixes : BTreeMap String} {record : PeerRecord F}
    (h : refusePrefixCollisions localPrefixes [record] = .ok ()) {name workerPrefix : String}
    (hname : localPrefixes[name]? = some workerPrefix) : workerPrefix ∉ claimedPrefixes record := by
  have hmem : workerPrefix ∈ localPrefixes.values := mem_values.2 ⟨name, hname⟩
  unfold refusePrefixCollisions at h
  have hrecord := checkAll_ok.1 (checkAll_ok.1 h workerPrefix hmem) record List.mem_cons_self
  simpa only [refuseRecord, ensure_ok, Bool.not_eq_true', List.contains_eq_mem, decide_eq_false_iff_not] using hrecord

/-! ## Two instances -/

/-- A federated instance: the configuration as it was written passes its checks, and is then loaded. -/
structure Started (F : Type) [Flt F] where
  written : Config F
  federation : FederationConfig
  federated : written.federation = some federation
  valid : written.validate = .ok ()

namespace Started

def config (a : Started F) : Config F := a.written.applyFederationPrefixes

/-- The prefix each account's workers carry. -/
def prefixes (a : Started F) : BTreeMap String := localWorkerPrefixes a.config

theorem config_federation (a : Started F) : a.config.federation = some a.federation :=
  (applyFederationPrefixes_federation a.written).trans a.federated

/-- The first instance starts with the record of the second one on file. -/
def Accepts (fingerprint : String → String) (a b : Started F) : Prop :=
  ∃ files, refusePrefixCollisions a.prefixes [buildLocalRecord fingerprint b.config b.federation files] = .ok ()

/-- Prefixes of two accounts of one instance, or of accounts of two instances. -/
inductive Rival (a b : Started F) : String → String → Prop
  | first {x y p q : String} (hxy : x ≠ y) (hp : a.prefixes[x]? = some p) (hq : a.prefixes[y]? = some q) : Rival a b p q
  | second {x y p q : String} (hxy : x ≠ y) (hp : b.prefixes[x]? = some p) (hq : b.prefixes[y]? = some q) : Rival a b p q
  | across {x y p q : String} (hp : a.prefixes[x]? = some p) (hq : b.prefixes[y]? = some q) : Rival a b p q
  | back {x y p q : String} (hp : b.prefixes[x]? = some p) (hq : a.prefixes[y]? = some q) : Rival a b p q

/-- The accounts of an instance without peers have distinct prefixes; where it has peers its checks see to that. -/
def DistinctAlone (a : Started F) : Prop :=
  a.federation.peers = [] → ∀ x y p q : String, x ≠ y → a.prefixes[x]? = some p → a.prefixes[y]? = some q → p ≠ q

variable {a b : Started F} {fingerprint : String → String} {p q : String}

theorem Rival.symm (h : Rival a b p q) : Rival a b q p := by
  cases h with
  | first hxy hp hq => exact .first hxy.symm hq hp
  | second hxy hp hq => exact .second hxy.symm hq hp
  | across hp hq => exact .back hq hp
  | back hp hq => exact .across hq hp

theorem own_ne (h : a.DistinctAlone) {x y : String} (hxy : x ≠ y) (hp : a.prefixes[x]? = some p)
    (hq : a.prefixes[y]? = some q) : p ≠ q := by
  by_cases hpeers : a.federation.peers = []
  · exact h hpeers x y p q hxy hp hq
  · exact own_prefixes_ne a.valid a.federated hpeers hxy hp hq

theorem Accepts.ne (h : Accepts fingerprint a b) {x y : String} (hp : a.prefixes[x]? = some p)
    (hq : b.prefixes[y]? = some q) : p ≠ q := by
  rintro rfl
  obtain ⟨files, hfiles⟩ := h
  exact refusePrefixCollisions_ok hfiles hp (mem_claimedPrefixes b.config_federation hq)

theorem Rival.ne (hab : Accepts fingerprint a b) (ha : a.DistinctAlone) (hb : b.DistinctAlone) (h : Rival a b p q) :
    p ≠ q := by
  cases h with
  | first hxy hp hq => exact own_ne ha hxy hp hq
  | second hxy hp hq => exact own_ne hb hxy hp hq
  | across hp hq => exact hab.ne hp hq
  | back hp hq => exact (hab.ne hq hp).symm

/-- **Two started instances share no worker id between their pools** exactly when no prefix of a pool is itself a worker
id of a rival pool, and the accounts of an instance without peers have distinct prefixes. -/
theorem worker_identity_disjoint_iff (a b : Started F) (fingerprint : String → String)
    (hab : Accepts fingerprint a b) :
    (∀ p q, Rival a b p q → ∀ worker, ¬ (matchesWorkerPrefix p worker = true ∧ matchesWorkerPrefix q worker = true)) ↔
      (∀ p q, Rival a b p q → matchesWorkerPrefix p q = false) ∧ a.DistinctAlone ∧ b.DistinctAlone := by
  constructor
  · intro h
    have hnone : ∀ p q, Rival a b p q → ¬ (p = q ∨ matchesWorkerPrefix p q = true ∨ matchesWorkerPrefix q p = true) := by
      intro p q hrival hcommon
      obtain ⟨worker, hworker⟩ := exists_common_worker_iff.2 hcommon
      exact h p q hrival worker hworker
    refine ⟨fun p q hrival => ?_, fun _ x y p q hxy hp hq hsame => ?_, fun _ x y p q hxy hp hq hsame => ?_⟩
    · exact Bool.eq_false_iff.2 fun hmatch => hnone p q hrival (Or.inr (Or.inl hmatch))
    · exact hnone p q (.first hxy hp hq) (Or.inl hsame)
    · exact hnone p q (.second hxy hp hq) (Or.inl hsame)
  · rintro ⟨h, ha, hb⟩ p q hrival worker hworker
    rcases exists_common_worker_iff.1 ⟨worker, hworker⟩ with hsame | hmatch | hmatch
    · exact hrival.ne hab ha hb hsame
    · exact absurd hmatch (Bool.eq_false_iff.1 (h p q hrival))
    · exact absurd hmatch (Bool.eq_false_iff.1 (h q p hrival.symm))

end Started

/-! ## One prefix behind another -/

def numberedAccount (workerPrefix : String) : AccountConfig F64 :=
  { pairAccount with
    fleet := { pairAccount.fleet with
      observer := some (.needleStatus (some workerPrefix))
      actuator := .needleRun "repo" (some workerPrefix) none } }

/-- The primary instance names a second pool of its own `sg-zai-2`. -/
def numberedPrimary : Started F64 where
  written := {
    accounts := ((∅ : BTreeMap (AccountConfig F64)).insert "zai" (numberedAccount "sg-zai-")).insert "zai2"
      (numberedAccount "sg-zai-2")
    federation := some { hostId := "codinghome", peers := ["gmktec"] } }
  federation := { hostId := "codinghome", peers := ["gmktec"] }
  federated := rfl
  valid := by decide +kernel

/-- Its peer derives `sg-zai-gmktec-` from the same written prefix. -/
def numberedPeer : Started F64 where
  written := {
    accounts := (∅ : BTreeMap (AccountConfig F64)).insert "zai" (numberedAccount "sg-zai-")
    federation := some { hostId := "gmktec", peers := ["codinghome"], primary := false } }
  federation := { hostId := "gmktec", peers := ["codinghome"], primary := false }
  federated := rfl
  valid := by decide +kernel

def noFiles : RecordFiles F64 where
  status := ∅
  state := {}
  pending := ∅
  readyDemand _ := {}
  hostCeiling := none
  observedAt := hours 1

theorem numberedPrimary_accepts : Started.Accepts id numberedPrimary numberedPeer := ⟨noFiles, by decide +kernel⟩

theorem numberedPeer_accepts : Started.Accepts id numberedPeer numberedPrimary := ⟨noFiles, by decide +kernel⟩

/-- Worker `sg-zai-21` is a worker of both pools of the primary instance, which start side by side. -/
theorem worker_identity_shared :
    ¬ ∀ (a b : Started F64) (fingerprint : String → String), Started.Accepts fingerprint a b →
      Started.Accepts fingerprint b a → ∀ p q, Started.Rival a b p q →
        ∀ worker, ¬ (matchesWorkerPrefix p worker = true ∧ matchesWorkerPrefix q worker = true) := by
  intro h
  refine h numberedPrimary numberedPeer id numberedPrimary_accepts numberedPeer_accepts "sg-zai-" "sg-zai-2"
    (.first (show "zai" ≠ "zai2" by decide) (by decide +kernel) (by decide +kernel)) "sg-zai-21" ?_
  decide +kernel

theorem worker_identity_disjoint_iff_numbered :
    (∀ p q, Started.Rival numberedPrimary numberedPeer p q →
        ∀ worker, ¬ (matchesWorkerPrefix p worker = true ∧ matchesWorkerPrefix q worker = true)) ↔
      (∀ p q, Started.Rival numberedPrimary numberedPeer p q → matchesWorkerPrefix p q = false) ∧
        numberedPrimary.DistinctAlone ∧ numberedPeer.DistinctAlone :=
  Started.worker_identity_disjoint_iff numberedPrimary numberedPeer id numberedPrimary_accepts

end Subgov
