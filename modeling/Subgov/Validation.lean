import Subgov.Ownership
import Mathlib.Data.List.Pairwise
/-!
# Validation — what a configuration with peers must satisfy

`Config.validate` checks each account and then the federation: the ids of the hosts, the owners of the repositories, the
worker prefixes, the staleness bounds and the overshoot that every host's steps may add up to.  An instance that is not
the primary one derives its prefixes from the host id, and the derived ones are checked as well.
-/
namespace Subgov

open FloatArith

variable {F : Type} [Flt F]

/-! ## Prefixes -/

def stripPrefix (stem s : String) : Option String :=
  if stem.toList <+: s.toList then some (String.ofList (s.toList.drop stem.toList.length)) else none

theorem stripPrefix_eq_some {stem s rest : String} : stripPrefix stem s = some rest ↔ s = stem ++ rest := by
  unfold stripPrefix
  constructor
  · intro h
    split at h
    · rename_i hstem
      obtain ⟨tail, htail⟩ := hstem
      cases h
      rw [← String.toList_inj, String.toList_append, String.toList_ofList, ← htail, List.drop_left]
    · cases h
  · rintro rfl
    rw [String.toList_append, if_pos (List.prefix_append _ _), List.drop_left, String.ofList_toList]

def stripSuffix (c : Char) (s : String) : Option String :=
  if s.toList.getLast? = some c then some (String.ofList s.toList.dropLast) else none

/-- `sg-zai-` is the prefix of pool `zai`. -/
def poolOfPrefix (workerPrefix : String) : String :=
  let stem := (stripPrefix "sg-" workerPrefix).getD workerPrefix
  (stripSuffix '-' stem).getD stem

def effectivePrefix (configured hostId : String) (primary : Bool) : String :=
  if primary || s!"-{hostId}-".toList.isSuffixOf configured.toList then configured
  else s!"sg-{poolOfPrefix configured}-{hostId}-"

/-- The prefix of each account's workers on this instance's host. -/
def localWorkerPrefixes (config : Config F) : BTreeMap String :=
  match config.federation with
  | none => ∅
  | some federation => config.accounts.filterMap fun _ account => identifierPrefix account federation.hostId

omit [Flt F] in
theorem localWorkerPrefixes_getElem? {config : Config F} {federation : FederationConfig}
    (h : config.federation = some federation) (name : String) :
    (localWorkerPrefixes config)[name]? = config.accounts[name]?.bind (identifierPrefix · federation.hostId) := by
  unfold localWorkerPrefixes
  rw [h]
  exact Std.ExtTreeMap.getElem?_filterMap'

/-! ## Validation -/

def validateHostId (hostId context : String) : Except String Unit := do
  ensure (!isBlank hostId && !hostId.toList.any isWhitespace) s!"{context} must be non-empty and free of whitespace"
  ensure (hostId.toList.all fun c => c.isLower || c.isDigit || c == '-')
    s!"{context} must contain only a-z, 0-9 and '-' for worker identity"

def validateIdentifierPrefix (identifierPrefix : Option String) (context : String) : Except String Unit :=
  match identifierPrefix with
  | none => .ok ()
  | some identifierPrefix => do
    ensure (!identifierPrefix.isEmpty && identifierPrefix.utf8ByteSize ≤ 32)
      s!"{context}: identifier_prefix must be 1-32 characters"
    ensure (identifierPrefix.toList.all fun c => c.isLower || c.isDigit || c == '-' || c == '_')
      s!"{context}: identifier_prefix may contain only a-z, 0-9, '-' and '_'"

/-- The prefixes of the account's single fleet; those of per-host fleets are not checked here. -/
def validateFleetPrefixes (fleet : FleetConfig F) (account : String) : Except String Unit := do
  let same (identifierPrefix : Option String) := match fleet.observer with
    | some (.needleStatus observerPrefix) => ensure (observerPrefix == identifierPrefix)
        s!"account {account}: needle_status observer and needle_run actuator must use the same identifier_prefix"
    | _ => .ok ()
  match fleet.actuator with
  | .needleRun _ identifierPrefix _ => do
    validateIdentifierPrefix identifierPrefix s!"account {account} actuator needle_run"
    same identifierPrefix
  | _ => .ok ()
  validateIdentifierPrefix (fleet.observer.bind needleStatusPrefix) s!"account {account} observer needle_status"

def validatePeers (hostId : String) (seen : List String) : List String → Except String Unit
  | [] => .ok ()
  | peer :: peers => do
    validateHostId peer "federation.peers[].host_id"
    ensure (peer != hostId) (s!"federation.peers lists this instance's own host {peer}: a peer is another subgov on a " ++
      "different host (plan.md §28.2)")
    ensure (!seen.contains peer) s!"federation.peers lists host {peer} more than once"
    validatePeers hostId (peer :: seen) peers

/-- The observer and the actuator on this instance's host. -/
def ownFleet (federation : FederationConfig) (name : String) (account : AccountConfig F) :
    Except String (Option WorkerObserverConfig × ActuatorConfig) :=
  match account.fleet.hosts with
  | some hosts => match hosts[federation.hostId]? with
    | some host => .ok (some host.observer, host.actuator)
    | none => .error s!"account {name}: federation host {federation.hostId} is missing from fleet.hosts"
  | none => .ok (account.fleet.observer, account.fleet.actuator)

def requirePrefixes (federation : FederationConfig) (name : String) (account : AccountConfig F) :
    Except String Unit := do
  let (observer, actuator) ← ownFleet federation name account
  ensure (observer != some (.needleStatus none))
    s!"account {name}: federated needle_status requires an identifier_prefix"
  ensure (match actuator with | .needleRun _ none _ => false | _ => true)
    s!"account {name}: federated needle_run requires an identifier_prefix"

/-- One account after another claims its effective prefix. -/
def claimPrefixes (federation : FederationConfig) (prefixMap : BTreeMap String) (claimed : List String) :
    List (String × AccountConfig F) → Except String Unit
  | [] => .ok ()
  | (name, account) :: accounts => do
    requirePrefixes federation name account
    match prefixMap[name]? with
    | none => claimPrefixes federation prefixMap claimed accounts
    | some configured => do
      let effective := effectivePrefix configured federation.hostId federation.primary
      ensure (!claimed.contains effective)
        s!"account {name}: worker prefix {effective} is already claimed by another local account"
      claimPrefixes federation prefixMap (effective :: claimed) accounts

def checkDerivedPrefixes (federation : FederationConfig) (name : String) (account : AccountConfig F) :
    Except String Unit := do
  let check (configured : Option String) := configured.elim (.ok ()) fun configured =>
    validateIdentifierPrefix (some (effectivePrefix configured federation.hostId false))
      s!"account {name} derived worker prefix"
  match account.fleet.hosts with
  | some hosts => hosts[federation.hostId]?.elim (.ok ()) fun host => do
    check (needleStatusPrefix host.observer)
    check (needleRunPrefix host.actuator)
  | none => do
    check (account.fleet.observer.bind needleStatusPrefix)
    check (needleRunPrefix account.fleet.actuator)

def validateRepoOwner (federation : FederationConfig) (origin owner : String) : Except String Unit := do
  ensure (!isBlank origin && !isBlank owner) "federation.repo_owners requires non-empty origin URLs and host ids"
  ensure (owner == federation.hostId || federation.peers.contains owner)
    s!"federation.repo_owners names unconfigured host {owner}"

/-- The first account that every host's step up could take past its workers. -/
def overshootViolation (config : Config F) : Option (String × Nat × Nat) :=
  if config.federation.all (·.peers.isEmpty) then none
  else config.accounts.toList.findSome? fun (name, account) =>
    if account.fleet.maxWorkers < stepUpBound config account
    then some (name, stepUpBound config account, account.fleet.maxWorkers) else none

/-- What `federation:` must satisfy; the pull commands of the peers are left out. -/
def validateFederation (federation : FederationConfig) (config : Config F) : Except String Unit := do
  validateHostId federation.hostId "federation.host_id"
  checkAll (fun owned => validateRepoOwner federation owned.1 owned.2) federation.repoOwners.toList
  checkAll (fun identity => ensure (config.accounts.contains identity.1)
    s!"federation.account_identities names account {identity.1}, which is not configured")
    federation.accountIdentities.toList
  checkAll (fun identity => ensure (!isBlank identity.2)
    s!"federation.account_identities.{identity.1} must be non-empty") federation.accountIdentities.toList
  validatePeers federation.hostId [] federation.peers
  if federation.peers.isEmpty then .ok ()
  else claimPrefixes federation (localWorkerPrefixes config) [] config.accounts.toList
  ensure (federation.peerStaleAfterSeconds != 0)
    "federation.peer_stale_after_seconds must be at least 1 second (plan.md §28.7)"
  ensure (federation.peerStaleAfterSeconds < federation.peerExpirySeconds)
    (s!"federation.peer_expiry_seconds ({federation.peerExpirySeconds}) must exceed peer_stale_after_seconds " ++
      s!"({federation.peerStaleAfterSeconds}): expiry is the recovery path out of a stale freeze (plan.md §28.7)")
  match overshootViolation config with
  | some (account, summed, reserve) => .error (s!"account {account}: federation summed max_step_up {summed} exceeds " ++
      s!"worker reserve {reserve} (plan.md §28.8)")
  | none => .ok ()
  if federation.primary || federation.peers.isEmpty then .ok ()
  else checkAll (fun account => checkDerivedPrefixes federation account.1 account.2) config.accounts.toList

/-- The account checks and the federation's; those on transports, argument vectors and takeover lists are left out. -/
def Config.validate (config : Config F) : Except String Unit := do
  ensure (!config.accounts.isEmpty) "at least one account is required"
  checkAll (fun account => do
    account.2.validate account.1
    validateFleetPrefixes account.2.fleet account.1) config.accounts.toList
  config.federation.elim (.ok ()) (validateFederation · config)

omit [Flt F] in
/-- **The accounts that pass claim distinct prefixes.** -/
theorem claimPrefixes_ok {federation : FederationConfig} {prefixMap : BTreeMap String} :
    ∀ {accounts : List (String × AccountConfig F)} {claimed : List String},
      claimPrefixes federation prefixMap claimed accounts = .ok () →
      (∀ account ∈ accounts, ∀ configured, prefixMap[account.1]? = some configured →
        effectivePrefix configured federation.hostId federation.primary ∉ claimed) ∧
      accounts.Pairwise fun account account' => ∀ p q, prefixMap[account.1]? = some p →
        prefixMap[account'.1]? = some q →
        effectivePrefix p federation.hostId federation.primary ≠ effectivePrefix q federation.hostId federation.primary
  | [], _, _ => ⟨fun _ h => absurd h List.not_mem_nil, List.Pairwise.nil⟩
  | (name, account) :: accounts, claimed, h => by
    rw [claimPrefixes, andThen_ok] at h
    have hrest := h.2
    cases hown : prefixMap[name]? with
    | none =>
      rw [hown] at hrest
      obtain ⟨hfree, hdistinct⟩ := claimPrefixes_ok hrest
      refine ⟨List.forall_mem_cons.2 ⟨fun _ hsome => ?_, hfree⟩, List.pairwise_cons.2 ⟨fun _ _ _ _ hsome => ?_, hdistinct⟩⟩
      · rw [hown] at hsome
        cases hsome
      · rw [hown] at hsome
        cases hsome
    | some configured =>
      rw [hown] at hrest
      simp only [andThen_ok, ensure_ok, Bool.not_eq_true', List.contains_eq_mem, decide_eq_false_iff_not] at hrest
      obtain ⟨hnew, hrest⟩ := hrest
      obtain ⟨hfree, hdistinct⟩ := claimPrefixes_ok hrest
      refine ⟨List.forall_mem_cons.2 ⟨fun p hp => ?_, fun entry hentry p hp hmem => ?_⟩,
        List.pairwise_cons.2 ⟨fun entry hentry p q hp hq hsame => ?_, hdistinct⟩⟩
      · rw [hown] at hp
        cases hp
        exact hnew
      · exact hfree entry hentry p hp (List.mem_cons_of_mem _ hmem)
      · rw [hown] at hp
        cases hp
        refine hfree entry hentry q hq ?_
        rw [← hsame]
        exact List.mem_cons_self

end Subgov
