import Subgov.Federation
/-!
# Workspaces — which host keeps a repository that several hosts list

`resolveWorkspaceOverlap` is one instance's answer: it excludes its own workspaces whose origin another host keeps.
Every instance evaluates alone, its own origins against the others' records; `Federated` is the situation in which they
all see the same hosts, and there they agree (`overlap_agreement`).
-/
namespace Subgov

variable {F : Type}

def workspaceOwner (origin : String) (repoOwners : BTreeMap String) (claimants : List String) : String :=
  match repoOwners[origin]? with
  | some owner => owner
  | none => claimants.min?.getD ""

/-- One `workspace_overlap` event. -/
structure WorkspaceOverlap where
  time : DateTime
  workspace : String
  origin : String
  owner : String
  excludedHost : String
  peerHosts : List String
  deriving DecidableEq

structure OverlapVerdict where
  excluded : BTreeMap String := ∅
  events : List WorkspaceOverlap := []

namespace OverlapVerdict

def isSeedable (verdict : OverlapVerdict) (path : String) : Bool := !verdict.excluded.contains path

def seedable (verdict : OverlapVerdict) (paths : List String) : List String := paths.filter verdict.isSeedable

end OverlapVerdict

def PublishedRecord.lists (record : PublishedRecord F) (origin : String) : Bool :=
  record.workspaceOrigins.values.any (fun peerOrigin => peerOrigin == origin)

/-- The hosts of the records that list an origin. -/
def peersListing (records : List (PublishedRecord F)) (origin : String) : List String :=
  (records.filter (·.lists origin)).map (·.hostId)

/-- The host that keeps an origin of ours, when some record lists it too. -/
def contestedOwner (localHost : String) (records : List (PublishedRecord F)) (repoOwners : BTreeMap String)
    (origin : String) : Option String :=
  let peers := peersListing records origin
  if peers.isEmpty then none else some (workspaceOwner origin repoOwners (localHost :: peers))

def overlapStep (localHost : String) (records : List (PublishedRecord F)) (repoOwners : BTreeMap String)
    (now : DateTime) (verdict : OverlapVerdict) (workspace : String × String) : OverlapVerdict :=
  let (path, origin) := workspace
  match contestedOwner localHost records repoOwners origin with
  | none => verdict
  | some owner =>
    if owner = localHost then verdict
    else
      { excluded := verdict.excluded.insert path origin
        events := verdict.events ++ [
          { time := now
            workspace := path
            origin
            owner
            excludedHost := localHost
            peerHosts := peersListing records origin }] }

def resolveWorkspaceOverlap (localHost : String) (localOrigins : BTreeMap String)
    (records : List (PublishedRecord F)) (repoOwners : BTreeMap String) (now : DateTime) : OverlapVerdict :=
  localOrigins.toList.foldl (overlapStep localHost records repoOwners now) {}

/-! ## One verdict -/

section Verdict

variable {localHost : String} {localOrigins repoOwners : BTreeMap String} {records : List (PublishedRecord F)}
  {now : DateTime}

/-- Whether this host gives up a workspace of an origin. -/
def givesUp (localHost : String) (records : List (PublishedRecord F)) (repoOwners : BTreeMap String)
    (origin : String) : Bool :=
  (contestedOwner localHost records repoOwners origin).any (fun owner => owner != localHost)

theorem overlapStep_excluded (verdict : OverlapVerdict) (workspace : String × String) (path : String) :
    (overlapStep localHost records repoOwners now verdict workspace).excluded.contains path =
      (verdict.excluded.contains path ||
        (workspace.1 == path && givesUp localHost records repoOwners workspace.2)) := by
  unfold overlapStep givesUp
  cases hcontested : contestedOwner localHost records repoOwners workspace.2 with
  | none => simp [hcontested]
  | some owner =>
    by_cases howner : owner = localHost
    · simp [hcontested, howner]
    · have hother : (owner != localHost) = true := by simpa using howner
      by_cases hpath : workspace.1 = path
      · simp [hcontested, howner, hpath]
      · have hcompare : compare workspace.1 path ≠ .eq := fun he => hpath (Std.LawfulEqCmp.eq_of_compare he)
        have hbeq : (workspace.1 == path) = false := by simpa using hpath
        simp [hcontested, howner, hcompare, hbeq]

theorem foldl_overlapStep_excluded (path : String) : ∀ (workspaces : List (String × String)) (verdict : OverlapVerdict),
    (workspaces.foldl (overlapStep localHost records repoOwners now) verdict).excluded.contains path =
      (verdict.excluded.contains path ||
        workspaces.any (fun w => w.1 == path && givesUp localHost records repoOwners w.2))
  | [], verdict => by simp
  | w :: ws, verdict => by
    rw [List.foldl_cons, foldl_overlapStep_excluded path ws, overlapStep_excluded, List.any_cons, Bool.or_assoc]

/-- **A workspace stays seedable exactly when its host does not give its origin up.** -/
theorem isSeedable_iff {path origin : String} (hpath : localOrigins[path]? = some origin) :
    (resolveWorkspaceOverlap localHost localOrigins records repoOwners now).isSeedable path = true ↔
      givesUp localHost records repoOwners origin = false := by
  unfold resolveWorkspaceOverlap OverlapVerdict.isSeedable
  rw [foldl_overlapStep_excluded, Bool.not_eq_true']
  have hany : localOrigins.toList.any (fun w => w.1 == path && givesUp localHost records repoOwners w.2) =
      givesUp localHost records repoOwners origin := by
    rw [Bool.eq_iff_iff, List.any_eq_true]
    constructor
    · rintro ⟨w, hw, hup⟩
      simp only [Bool.and_eq_true, beq_iff_eq] at hup
      have hlookup := Std.ExtTreeMap.mem_toList_iff_getElem?_eq_some.1 (show (w.1, w.2) ∈ localOrigins.toList from hw)
      rw [hup.1, hpath] at hlookup
      rw [Option.some.inj hlookup]
      exact hup.2
    · intro hup
      exact ⟨(path, origin), Std.ExtTreeMap.mem_toList_iff_getElem?_eq_some.2 hpath, by simp [hup]⟩
  rw [hany]
  simp

end Verdict

/-! ## Hosts that see each other -/

/-- The hosts of a federation, each with its own workspaces and the records it holds of the others. -/
structure FederatedHosts (F ι : Type) where
  hostId : ι → String
  origins : ι → BTreeMap String
  records : ι → List (PublishedRecord F)
  distinct : Function.Injective hostId
  /-- Every record a host holds is another host's own. -/
  equal : ∀ i, ∀ r ∈ records i, ∃ j, j ≠ i ∧ r.hostId = hostId j ∧ r.workspaceOrigins = origins j
  /-- Every other host has a record. -/
  complete : ∀ i j, j ≠ i → ∃ r ∈ records i, r.hostId = hostId j ∧ r.workspaceOrigins = origins j

namespace FederatedHosts

variable {ι : Type} (h : FederatedHosts F ι) (repoOwners : BTreeMap String) (now : ι → DateTime)

def Lists (i : ι) (origin : String) : Prop := ∃ path : String, (h.origins i)[path]? = some origin

def verdict (i : ι) : OverlapVerdict :=
  resolveWorkspaceOverlap (h.hostId i) (h.origins i) (h.records i) repoOwners (now i)

/-- A host keeps an origin when some workspace of it stays seedable there. -/
def Keeps (i : ι) (origin : String) : Prop :=
  ∃ path : String, (h.origins i)[path]? = some origin ∧ (h.verdict repoOwners now i).isSeedable path = true

variable {h repoOwners now}

theorem lists_iff {r : PublishedRecord F} {j : ι} (hr : r.workspaceOrigins = h.origins j) (origin : String) :
    r.lists origin = true ↔ h.Lists j origin := by
  unfold PublishedRecord.lists Lists
  rw [hr, List.any_eq_true]
  constructor
  · rintro ⟨listed, hlisted, horigin⟩
    rw [← beq_iff_eq.1 horigin]
    exact mem_values.1 hlisted
  · intro hlists
    exact ⟨origin, mem_values.2 hlists, beq_self_eq_true origin⟩

/-- **A host sees the others that list an origin**, and no one else. -/
theorem mem_peersListing {i : ι} {origin host : String} :
    host ∈ peersListing (h.records i) origin ↔ ∃ j, j ≠ i ∧ h.hostId j = host ∧ h.Lists j origin := by
  unfold peersListing
  rw [List.mem_map]
  constructor
  · rintro ⟨r, hr, rfl⟩
    obtain ⟨hmem, hlists⟩ := List.mem_filter.1 hr
    obtain ⟨j, hne, hid, horigins⟩ := h.equal i r hmem
    exact ⟨j, hne, hid.symm, (lists_iff horigins origin).1 hlists⟩
  · rintro ⟨j, hne, rfl, hlists⟩
    obtain ⟨r, hmem, hid, horigins⟩ := h.complete i j hne
    exact ⟨r, List.mem_filter.2 ⟨hmem, (lists_iff horigins origin).2 hlists⟩, hid⟩

/-- The claimants every listing host compares are the listing hosts. -/
theorem mem_claimants {i : ι} {origin : String} (hi : h.Lists i origin) {host : String} :
    host ∈ h.hostId i :: peersListing (h.records i) origin ↔ ∃ j, h.hostId j = host ∧ h.Lists j origin := by
  rw [List.mem_cons, mem_peersListing]
  constructor
  · rintro (rfl | ⟨j, -, hid, hlists⟩)
    · exact ⟨i, rfl, hi⟩
    · exact ⟨j, hid, hlists⟩
  · rintro ⟨j, hid, hlists⟩
    by_cases hij : j = i
    · exact Or.inl (hij ▸ hid.symm)
    · exact Or.inr ⟨j, hij, hid, hlists⟩

/-- The owner that the listing hosts agree on. -/
def Owner (h : FederatedHosts F ι) (repoOwners : BTreeMap String) (origin owner : String) : Prop :=
  ∀ i, h.Lists i origin →
    workspaceOwner origin repoOwners (h.hostId i :: peersListing (h.records i) origin) = owner

/-- **Every host that lists an origin names the same owner of it.** -/
theorem workspaceOwner_agrees (repoOwners : BTreeMap String) {i : ι} {origin : String} (hi : h.Lists i origin) :
    h.Owner repoOwners origin (workspaceOwner origin repoOwners (h.hostId i :: peersListing (h.records i) origin)) := by
  intro j hj
  unfold workspaceOwner
  cases repoOwners[origin]? with
  | some owner => rfl
  | none =>
    have hsame : ∀ host, host ∈ h.hostId j :: peersListing (h.records j) origin ↔
        host ∈ h.hostId i :: peersListing (h.records i) origin := by
      intro host
      rw [mem_claimants hi, mem_claimants hj]
    simp only [Select.min?_eq_of_mem_iff hsame]

/-- The owner lists the origin itself, unless another host is configured. -/
theorem owner_lists {i : ι} {origin : String} (hi : h.Lists i origin)
    (howners : repoOwners[origin]? = none ∨ ∃ k, repoOwners[origin]? = some (h.hostId k) ∧ h.Lists k origin) :
    ∃ k, h.Lists k origin ∧ h.Owner repoOwners origin (h.hostId k) := by
  have hagrees := workspaceOwner_agrees repoOwners hi
  unfold workspaceOwner at hagrees
  rcases howners with hnone | ⟨k, hsome, hk⟩
  · rw [hnone] at hagrees
    dsimp only at hagrees
    cases hmin : (h.hostId i :: peersListing (h.records i) origin).min? with
    | none => exact absurd (List.min?_eq_none_iff.1 hmin) (List.cons_ne_nil _ _)
    | some owner =>
      obtain ⟨k, hid, hk⟩ := (mem_claimants hi).1 (List.min?_mem hmin)
      rw [hmin, Option.getD_some, ← hid] at hagrees
      exact ⟨k, hk, hagrees⟩
  · rw [hsome] at hagrees
    exact ⟨k, hk, hagrees⟩

/-- **Whether a host gives up an origin** that it and another list is whether it is not the owner. -/
theorem givesUp_iff {i : ι} {origin owner : String} (hi : h.Lists i origin)
    (hother : ∃ j, j ≠ i ∧ h.Lists j origin) (howner : h.Owner repoOwners origin owner) :
    givesUp (h.hostId i) (h.records i) repoOwners origin = false ↔ owner = h.hostId i := by
  obtain ⟨j, hne, hj⟩ := hother
  have hpeer : h.hostId j ∈ peersListing (h.records i) origin := mem_peersListing.2 ⟨j, hne, rfl, hj⟩
  have hsome : (peersListing (h.records i) origin).isEmpty = false := by
    cases hpeers : peersListing (h.records i) origin with
    | nil =>
      rw [hpeers] at hpeer
      cases hpeer
    | cons p ps => rfl
  unfold givesUp contestedOwner
  simp [hsome, howner i hi]

theorem not_givesUp_alone {i : ι} {origin : String} (halone : ∀ j, h.Lists j origin → j = i) :
    givesUp (h.hostId i) (h.records i) repoOwners origin = false := by
  have hnil : peersListing (h.records i) origin = [] := by
    apply List.eq_nil_iff_forall_not_mem.2
    intro host hhost
    obtain ⟨j, hne, -, hj⟩ := mem_peersListing.1 hhost
    exact hne (halone j hj)
  unfold givesUp contestedOwner
  simp [hnil]

theorem keeps_iff {i : ι} {origin : String} :
    h.Keeps repoOwners now i origin ↔
      h.Lists i origin ∧ givesUp (h.hostId i) (h.records i) repoOwners origin = false := by
  unfold Keeps verdict Lists
  constructor
  · rintro ⟨path, hpath, hseedable⟩
    exact ⟨⟨path, hpath⟩, (isSeedable_iff hpath).1 hseedable⟩
  · rintro ⟨⟨path, hpath⟩, hkeeps⟩
    exact ⟨path, hpath, (isSeedable_iff hpath).2 hkeeps⟩

end FederatedHosts

/-- What the hosts of a federation agree on about an origin. -/
structure OverlapAgreement {ι : Type} (h : FederatedHosts F ι) (repoOwners : BTreeMap String) (now : ι → DateTime)
    (origin : String) : Prop where
  /-- Of two hosts that list it, not both keep it. -/
  exclusive : (∃ i j, i ≠ j ∧ h.Lists i origin ∧ h.Lists j origin) →
    ∀ i j, h.Keeps repoOwners now i origin → h.Keeps repoOwners now j origin → i = j
  /-- Some host keeps it, unless a host that does not list it is configured. -/
  kept : (∃ i j, i ≠ j ∧ h.Lists i origin ∧ h.Lists j origin) →
    (repoOwners[origin]? = none ∨ ∃ k, repoOwners[origin]? = some (h.hostId k) ∧ h.Lists k origin) →
    ∃ k, h.Keeps repoOwners now k origin
  /-- The only host that lists it keeps every workspace of it. -/
  uncontested : ∀ i, (∀ j, h.Lists j origin → j = i) → ∀ path : String, (h.origins i)[path]? = some origin →
    (h.verdict repoOwners now i).isSeedable path = true

open FederatedHosts in
/-- **The hosts of a federation agree on who keeps an origin**, each from its own records. -/
theorem overlap_agreement {ι : Type} (h : FederatedHosts F ι) (repoOwners : BTreeMap String) (now : ι → DateTime)
    (origin : String) : OverlapAgreement h repoOwners now origin := by
  have hother : (∃ i j, i ≠ j ∧ h.Lists i origin ∧ h.Lists j origin) →
      ∀ i, ∃ j, j ≠ i ∧ h.Lists j origin := by
    rintro ⟨a, b, hne, ha, hb⟩ i
    by_cases hai : a = i
    · exact ⟨b, fun hbi => hne (hai.trans hbi.symm), hb⟩
    · exact ⟨a, hai, ha⟩
  constructor
  · intro hcontested i j hi hj
    obtain ⟨hilists, hikeeps⟩ := keeps_iff.1 hi
    obtain ⟨hjlists, hjkeeps⟩ := keeps_iff.1 hj
    have hagrees := workspaceOwner_agrees repoOwners hilists
    have hiowner := (givesUp_iff hilists (hother hcontested i) hagrees).1 hikeeps
    have hjowner := (givesUp_iff hjlists (hother hcontested j) hagrees).1 hjkeeps
    exact h.distinct (hiowner.symm.trans hjowner)
  · intro hcontested howners
    have ⟨i, _, _, hi, _⟩ := hcontested
    obtain ⟨k, hk, howner⟩ := owner_lists hi howners
    exact ⟨k, keeps_iff.2 ⟨hk, (givesUp_iff hk (hother hcontested k) howner).2 rfl⟩⟩
  · intro i halone path hpath
    exact (isSeedable_iff hpath).2 (not_givesUp_alone halone)

/-! ### Any number of hosts -/

def ownRecord (F : Type) (hostId : String) (origins : BTreeMap String) : PublishedRecord F where
  hostId
  observedAt := 0
  accounts := ∅
  hostCeiling := none
  recordSeq := 0
  workspaceOrigins := origins

/-- Hosts with distinct ids, each holding every other one's record. -/
def fullyPulled (F : Type) {n : Nat} (hostId : Fin n → String) (distinct : Function.Injective hostId)
    (origins : Fin n → BTreeMap String) : FederatedHosts F (Fin n) where
  hostId
  origins
  records i := ((List.finRange n).filter (fun j => decide (j ≠ i))).map (fun j => ownRecord F (hostId j) (origins j))
  distinct
  equal := by
    intro i r hr
    obtain ⟨j, hj, rfl⟩ := List.mem_map.1 hr
    exact ⟨j, of_decide_eq_true (List.mem_filter.1 hj).2, rfl, rfl⟩
  complete := by
    intro i j hne
    have hj : j ∈ (List.finRange n).filter (fun j => decide (j ≠ i)) :=
      List.mem_filter.2 ⟨List.mem_finRange j, decide_eq_true hne⟩
    exact ⟨_, List.mem_map.2 ⟨j, hj, rfl⟩, rfl, rfl⟩

def pairIds (i : Fin 2) : String := if i.val = 0 then "spark" else "tower"

theorem pairIds_injective : Function.Injective pairIds := by
  unfold Function.Injective
  decide

/-- Two hosts that list one repository under two paths each. -/
def pairHosts : FederatedHosts Nat (Fin 2) :=
  fullyPulled Nat pairIds pairIds_injective
    fun _ => ((∅ : BTreeMap String).insert "/w/one" "git@repo").insert "/w/two" "git@repo"

/-- The lower of the two host ids keeps it. -/
theorem overlap_agreement_pair :
    ((pairHosts.verdict ∅ (fun _ => 0) 0).seedable ["/w/one", "/w/two"] = ["/w/one", "/w/two"] ∧
      (pairHosts.verdict ∅ (fun _ => 0) 1).seedable ["/w/one", "/w/two"] = []) ∧
      OverlapAgreement pairHosts ∅ (fun _ => 0) "git@repo" :=
  ⟨by decide +kernel, overlap_agreement pairHosts ∅ (fun _ => 0) "git@repo"⟩

end Subgov
