import Mathlib.Data.List.Perm.Subperm
import Subgov.Origins
import Subgov.WorkerIdentity
import Subgov.Workspaces
/-!
# OverlapReport — the overlaps that `subgov peers` lists

The report groups the origins of all hosts by `reportOrigin`, which drops a userinfo, a query and a fragment, and looks
that text up in `repo_owners`.  The runtime compares the origins as they are and looks up the local one.  The two agree
on a local origin exactly when it and its reported form have one owner (`report_agrees_iff`).
-/
namespace Subgov

open Split

variable {F : Type}

/-! ## The report -/

def reportChars (origin : List Char) : List Char :=
  let base := origin.takeWhile (fun c => c != '?' && c != '#')
  let cut := splitOnce schemeMark base
  let scheme := cut.elim [] (fun p => p.1 ++ schemeMark)
  let rest := cut.elim base (·.2)
  let authority := rest.takeWhile (· != '/')
  let path := rest.dropWhile (· != '/')
  -- the host follows the last `@`
  let host := (authority.reverse.takeWhile (· != '@')).reverse
  scheme ++ host ++ path

def reportOrigin (origin : String) : String := String.ofList (reportChars origin.toList)

/-- One entry of the report's overlaps. -/
structure ReportedOverlap where
  origin : String
  pathsByHost : BTreeMap (List String)
  owner : String
  excludedHosts : List String

structure PrefixOverlap where
  workerPrefix : String
  hosts : List String

/-- A path listed by a host under an origin. -/
structure Listing where
  origin : String
  host : String
  path : String

def addListing (groups : BTreeMap (BTreeMap (List String))) (l : Listing) : BTreeMap (BTreeMap (List String)) :=
  let hosts := groups[reportOrigin l.origin]?.getD ∅
  groups.insert (reportOrigin l.origin) (hosts.insert l.host (hosts[l.host]?.getD [] ++ [l.path]))

/-- The local workspaces, then those of the records. -/
def listings (localHost : String) (localOrigins : BTreeMap String) (records : List (PublishedRecord F)) :
    List Listing :=
  localOrigins.toList.map (fun w => { origin := w.2, host := localHost, path := w.1 }) ++
    records.flatMap (fun r => r.workspaceOrigins.toList.map (fun w => { origin := w.2, host := r.hostId, path := w.1 }))

def overlapOf (repoOwners : BTreeMap String) (group : String × BTreeMap (List String)) : Option ReportedOverlap :=
  if group.2.keys.length < 2 then none
  else
    let owner := workspaceOwner group.1 repoOwners group.2.keys
    some
      { origin := group.1
        pathsByHost := group.2
        owner
        excludedHosts := group.2.keys.filter (· != owner) }

def addPrefix (groups : BTreeMap (BTreeMap Unit)) (claim : String × String) : BTreeMap (BTreeMap Unit) :=
  groups.insert claim.1 ((groups[claim.1]?.getD ∅).insert claim.2 ())

def peerOverlaps (localHost : String) (localOrigins localPrefixes : BTreeMap String)
    (records : List (PublishedRecord F)) (repoOwners : BTreeMap String) :
    List ReportedOverlap × List PrefixOverlap :=
  let origins := (listings localHost localOrigins records).foldl addListing ∅
  let prefixes := (localPrefixes.values.map (fun p => (p, localHost)) ++
    records.flatMap (fun r => (claimedPrefixes r.toPeerRecord).map (fun p => (p, r.hostId)))).foldl addPrefix ∅
  (origins.toList.filterMap (overlapOf repoOwners),
    prefixes.toList.filterMap (fun group =>
      if 1 < group.2.keys.length then some { workerPrefix := group.1, hosts := group.2.keys } else none))

/-! ## The groups -/

/-- The paths that a host lists under an origin reported as the given text. -/
def pathsListed (ls : List Listing) (key host : String) : List String :=
  (ls.filter (fun l => reportOrigin l.origin == key && l.host == host)).map (·.path)

theorem pathsListed_concat (ls : List Listing) (l : Listing) (key host : String) :
    pathsListed (ls ++ [l]) key host = pathsListed ls key host ++
      if reportOrigin l.origin = key ∧ l.host = host then [l.path] else [] := by
  unfold pathsListed
  rw [List.filter_append, List.map_append]
  by_cases h : reportOrigin l.origin = key ∧ l.host = host
  · rw [if_pos h, List.filter_cons_of_pos (by simp [h])]
    rfl
  · rw [if_neg h, List.filter_cons_of_neg (by simpa using h)]
    rfl

theorem addListing_getElem? (groups : BTreeMap (BTreeMap (List String))) (l : Listing) (key host : String) :
    ((addListing groups l)[key]?.getD ∅)[host]? =
      if reportOrigin l.origin = key ∧ l.host = host then some ((groups[key]?.getD ∅)[host]?.getD [] ++ [l.path])
      else (groups[key]?.getD ∅)[host]? := by
  unfold addListing
  dsimp only
  rw [Std.ExtTreeMap.getElem?_insert]
  by_cases hkey : reportOrigin l.origin = key
  · rw [if_pos (Std.LawfulEqCmp.compare_eq_iff_eq.2 hkey), Option.getD_some, Std.ExtTreeMap.getElem?_insert, hkey]
    by_cases hhost : l.host = host
    · rw [if_pos (Std.LawfulEqCmp.compare_eq_iff_eq.2 hhost), if_pos ⟨rfl, hhost⟩, hhost]
    · rw [if_neg fun he => hhost (Std.LawfulEqCmp.compare_eq_iff_eq.1 he), if_neg fun he => hhost he.2]
  · rw [if_neg fun he => hkey (Std.LawfulEqCmp.compare_eq_iff_eq.1 he), if_neg fun he => hkey he.1]

/-- **A group holds, for each host, the paths it lists.** -/
theorem grouped_paths (ls : List Listing) (key host : String) :
    ((ls.foldl addListing ∅)[key]?.getD ∅)[host]? =
      if pathsListed ls key host = [] then none else some (pathsListed ls key host) := by
  induction ls using List.reverseRecOn with
  | nil =>
    rw [List.foldl_nil, Std.ExtTreeMap.getElem?_empty, Option.getD_none, Std.ExtTreeMap.getElem?_empty]
    rfl
  | append_singleton ls l ih =>
    rw [List.foldl_append, List.foldl_cons, List.foldl_nil, addListing_getElem?, pathsListed_concat, ih]
    by_cases hjoins : reportOrigin l.origin = key ∧ l.host = host
    · have hlong : pathsListed ls key host ++ [l.path] ≠ [] :=
        List.append_ne_nil_of_right_ne_nil _ (List.cons_ne_nil _ _)
      rw [if_pos hjoins, if_pos hjoins, if_neg hlong]
      by_cases hnone : pathsListed ls key host = []
      · rw [if_pos hnone, hnone]
        rfl
      · rw [if_neg hnone]
        rfl
    · rw [if_neg hjoins, if_neg hjoins, List.append_nil]

variable {localHost : String} {localOrigins localPrefixes repoOwners : BTreeMap String}
  {records : List (PublishedRecord F)}

/-- The hosts of the records that list an origin reported as this one. -/
def reportedPeers (records : List (PublishedRecord F)) (origin : String) : List String :=
  (records.filter (fun r => r.workspaceOrigins.values.any (fun o => reportOrigin o == reportOrigin origin))).map
    (·.hostId)

theorem mem_pathsListed {ls : List Listing} {key host path : String} :
    path ∈ pathsListed ls key host ↔ ∃ origin, reportOrigin origin = key ∧ ⟨origin, host, path⟩ ∈ ls := by
  unfold pathsListed
  rw [List.mem_map]
  constructor
  · rintro ⟨l, hl, rfl⟩
    obtain ⟨hmem, hl⟩ := List.mem_filter.1 hl
    rw [Bool.and_eq_true, beq_iff_eq, beq_iff_eq] at hl
    exact ⟨l.origin, hl.1, hl.2 ▸ hmem⟩
  · rintro ⟨origin, rfl, hmem⟩
    exact ⟨_, List.mem_filter.2 ⟨hmem, by simp⟩, rfl⟩

theorem mem_listings {l : Listing} : l ∈ listings localHost localOrigins records ↔
    (l.host = localHost ∧ localOrigins[l.path]? = some l.origin) ∨
      ∃ r ∈ records, r.hostId = l.host ∧ r.workspaceOrigins[l.path]? = some l.origin := by
  unfold listings
  rw [List.mem_append, List.mem_map, List.mem_flatMap]
  constructor
  · rintro (⟨w, hw, rfl⟩ | ⟨r, hr, hl⟩)
    · exact Or.inl ⟨rfl, Std.ExtTreeMap.mem_toList_iff_getElem?_eq_some.1 hw⟩
    · obtain ⟨w, hw, rfl⟩ := List.mem_map.1 hl
      exact Or.inr ⟨r, hr, rfl, Std.ExtTreeMap.mem_toList_iff_getElem?_eq_some.1 hw⟩
  · rintro (⟨hhost, hlookup⟩ | ⟨r, hr, hhost, hlookup⟩)
    · refine Or.inl ⟨(l.path, l.origin), Std.ExtTreeMap.mem_toList_iff_getElem?_eq_some.2 hlookup, ?_⟩
      rw [← hhost]
    · refine Or.inr ⟨r, hr, List.mem_map.2 ⟨(l.path, l.origin),
        Std.ExtTreeMap.mem_toList_iff_getElem?_eq_some.2 hlookup, ?_⟩⟩
      rw [hhost]

/-! ## What the report says of the local host -/

/-- The hosts of one group are those that list an origin reported as its key. -/
theorem mem_group_hosts {ls : List Listing} {key host : String} :
    host ∈ ((ls.foldl addListing ∅)[key]?.getD ∅).keys ↔ ∃ path, path ∈ pathsListed ls key host := by
  rw [Std.ExtTreeMap.mem_keys, Std.ExtTreeMap.mem_iff_isSome_getElem?, grouped_paths]
  by_cases hnone : pathsListed ls key host = []
  · rw [if_pos hnone, hnone]
    simp
  · rw [if_neg hnone]
    exact iff_of_true rfl (List.exists_mem_of_ne_nil _ hnone)

variable (localHost localOrigins records) in
/-- The hosts that the report compares for an origin of ours. -/
theorem mem_claimants_reported {origin path host : String} (hlocal : localOrigins[path]? = some origin) :
    host ∈ (((listings localHost localOrigins records).foldl addListing ∅)[reportOrigin origin]?.getD ∅).keys ↔
      host ∈ localHost :: reportedPeers records origin := by
  rw [mem_group_hosts, List.mem_cons]
  unfold reportedPeers
  rw [List.mem_map]
  simp only [mem_pathsListed, mem_listings, List.mem_filter, List.any_eq_true, mem_values, beq_iff_eq]
  constructor
  · rintro ⟨p, o, hkey, ⟨hhost, -⟩ | ⟨r, hr, hhost, hlookup⟩⟩
    · exact Or.inl hhost
    · exact Or.inr ⟨r, ⟨hr, o, ⟨p, hlookup⟩, hkey⟩, hhost⟩
  · rintro (rfl | ⟨r, ⟨hr, o, ⟨p, hlookup⟩, hkey⟩, rfl⟩)
    · exact ⟨path, origin, rfl, Or.inl ⟨rfl, hlocal⟩⟩
    · exact ⟨p, o, hkey, Or.inr ⟨r, hr, rfl, hlookup⟩⟩

/-- The owner is read off the set of the claimants. -/
theorem workspaceOwner_congr {key : String} {hosts hosts' : List String} (h : ∀ x, x ∈ hosts ↔ x ∈ hosts') :
    workspaceOwner key repoOwners hosts = workspaceOwner key repoOwners hosts' := by
  unfold workspaceOwner
  rw [Select.min?_eq_of_mem_iff h]

/-- Of ids without repeats there are two exactly when there is one other than a given one of them. -/
theorem two_le_length_iff {ids : List String} (hnd : ids.Nodup) {id : String} (hmem : id ∈ ids) :
    2 ≤ ids.length ↔ ∃ other ∈ ids, other ≠ id := by
  constructor
  · intro hlong
    by_contra hnone
    push Not at hnone
    have hsub : ids ⊆ [id] := fun x hx => List.mem_singleton.2 (hnone x hx)
    have hshort := (List.subperm_of_subset hnd hsub).length_le
    rw [List.length_singleton] at hshort
    omega
  · rintro ⟨other, hother, hne⟩
    have hpair : [id, other] ⊆ ids := by
      intro x hx
      rcases List.mem_cons.1 hx with rfl | hx
      · exact hmem
      · exact List.mem_singleton.1 hx ▸ hother
    exact (List.subperm_of_subset (by simpa using hne.symm) hpair).length_le

/-- What the report makes of the listings with one key. -/
def entryOf (repoOwners : BTreeMap String) (key : String) (hosts : BTreeMap (List String)) : ReportedOverlap :=
  { origin := key
    pathsByHost := hosts
    owner := workspaceOwner key repoOwners hosts.keys
    excludedHosts := hosts.keys.filter (· != workspaceOwner key repoOwners hosts.keys) }

/-- The group of a key, empty where nothing is listed. -/
def groupOf (ls : List Listing) (key : String) : BTreeMap (List String) := (ls.foldl addListing ∅)[key]?.getD ∅

theorem mem_peerOverlaps {overlap : ReportedOverlap} :
    overlap ∈ (peerOverlaps localHost localOrigins localPrefixes records repoOwners).1 ↔
      2 ≤ (groupOf (listings localHost localOrigins records) overlap.origin).keys.length ∧
        overlap = entryOf repoOwners overlap.origin
          (groupOf (listings localHost localOrigins records) overlap.origin) := by
  unfold peerOverlaps groupOf
  dsimp only
  generalize (listings localHost localOrigins records).foldl addListing ∅ = groups
  rw [List.mem_filterMap]
  constructor
  · rintro ⟨⟨key, hosts⟩, hgroup, hentry⟩
    have hlookup : groups[key]? = some hosts := Std.ExtTreeMap.mem_toList_iff_getElem?_eq_some.1 hgroup
    unfold overlapOf at hentry
    dsimp only at hentry
    split at hentry
    · cases hentry
    · rename_i hlong
      cases hentry
      dsimp only
      rw [hlookup, Option.getD_some]
      exact ⟨Nat.le_of_not_lt hlong, rfl⟩
  · rintro ⟨hlong, hentry⟩
    cases hlookup : groups[overlap.origin]? with
    | none =>
      rw [hlookup, Option.getD_none] at hlong
      simp at hlong
    | some hosts =>
      rw [hlookup, Option.getD_some] at hlong hentry
      refine ⟨(overlap.origin, hosts), Std.ExtTreeMap.mem_toList_iff_getElem?_eq_some.2 hlookup, ?_⟩
      unfold overlapOf
      dsimp only
      rw [if_neg (Nat.not_lt.2 hlong)]
      exact congrArg some hentry.symm

section Local

variable {path origin : String}

/-- **An origin of ours is reported exactly when a record lists one reported alike**, and with the owner that its
reported form has among those hosts. -/
theorem reported_iff (hothers : ∀ r ∈ records, r.hostId ≠ localHost) (hlocal : localOrigins[path]? = some origin)
    {overlap : ReportedOverlap} (hkey : overlap.origin = reportOrigin origin) :
    overlap ∈ (peerOverlaps localHost localOrigins localPrefixes records repoOwners).1 ↔
      reportedPeers records origin ≠ [] ∧ overlap = entryOf repoOwners (reportOrigin origin)
        (groupOf (listings localHost localOrigins records) (reportOrigin origin)) := by
  have hmem : ∀ host, host ∈ (groupOf (listings localHost localOrigins records) (reportOrigin origin)).keys ↔
      host ∈ localHost :: reportedPeers records origin :=
    fun _ => mem_claimants_reported localHost localOrigins records hlocal
  have hself : localHost ∈ (groupOf (listings localHost localOrigins records) (reportOrigin origin)).keys :=
    (hmem localHost).2 List.mem_cons_self
  rw [mem_peerOverlaps, hkey, two_le_length_iff Std.ExtTreeMap.nodup_keys hself]
  refine and_congr_left fun _ => ?_
  constructor
  · rintro ⟨other, hother, hne⟩ hnil
    rcases List.mem_cons.1 ((hmem other).1 hother) with heq | hpeer
    · exact hne heq
    · rw [hnil] at hpeer
      cases hpeer
  · intro hne
    obtain ⟨host, hhost⟩ := List.exists_mem_of_ne_nil _ hne
    refine ⟨host, (hmem host).2 (List.mem_cons_of_mem _ hhost), ?_⟩
    obtain ⟨r, hr, rfl⟩ := List.mem_map.1 hhost
    exact hothers r (List.mem_of_mem_filter hr)

variable (repoOwners) in
theorem entryOf_owner (hlocal : localOrigins[path]? = some origin) :
    (entryOf repoOwners (reportOrigin origin)
      (groupOf (listings localHost localOrigins records) (reportOrigin origin))).owner =
      workspaceOwner (reportOrigin origin) repoOwners (localHost :: reportedPeers records origin) :=
  workspaceOwner_congr fun _ => mem_claimants_reported localHost localOrigins records hlocal

end Local

/-- The report lists our host as excluded from a workspace. -/
def ReportedExcluded (localHost : String) (report : List ReportedOverlap) (path : String) : Prop :=
  ∃ overlap ∈ report, localHost ∈ overlap.excludedHosts ∧ path ∈ overlap.pathsByHost[localHost]?.getD []

/-- Our paths under a reported origin are those of our origins with that report. -/
theorem mem_localPaths_iff (hothers : ∀ r ∈ records, r.hostId ≠ localHost) {path key : String} :
    path ∈ (groupOf (listings localHost localOrigins records) key)[localHost]?.getD [] ↔
      ∃ origin, reportOrigin origin = key ∧ localOrigins[path]? = some origin := by
  have hlisted : path ∈ pathsListed (listings localHost localOrigins records) key localHost ↔
      ∃ origin, reportOrigin origin = key ∧ localOrigins[path]? = some origin := by
    rw [mem_pathsListed]
    refine exists_congr fun origin => and_congr_right fun _ => ?_
    rw [mem_listings]
    exact ⟨fun h => h.elim (·.2) fun ⟨r, hr, hhost, _⟩ => absurd hhost (hothers r hr), fun h => Or.inl ⟨rfl, h⟩⟩
  unfold groupOf
  rw [grouped_paths, ← hlisted]
  split
  · rename_i hnone
    rw [hnone]
    rfl
  · rfl

theorem reportedExcluded_iff (hothers : ∀ r ∈ records, r.hostId ≠ localHost) {path : String} :
    ReportedExcluded localHost (peerOverlaps localHost localOrigins localPrefixes records repoOwners).1 path ↔
      ∃ origin, localOrigins[path]? = some origin ∧ reportedPeers records origin ≠ [] ∧
        workspaceOwner (reportOrigin origin) repoOwners (localHost :: reportedPeers records origin) ≠ localHost := by
  constructor
  · rintro ⟨overlap, hoverlap, hexcluded, hpath⟩
    obtain ⟨-, hentry⟩ := mem_peerOverlaps.1 hoverlap
    rw [hentry] at hpath
    obtain ⟨origin, hkey, hlocal⟩ := (mem_localPaths_iff hothers).1 hpath
    obtain ⟨hpeers, hentry⟩ := (reported_iff hothers hlocal hkey.symm).1 hoverlap
    refine ⟨origin, hlocal, hpeers, ?_⟩
    rw [hentry] at hexcluded
    have hne := (List.mem_filter.1 hexcluded).2
    rw [bne_iff_ne] at hne
    rw [← entryOf_owner repoOwners hlocal]
    exact hne.symm
  · rintro ⟨origin, hlocal, hpeers, howner⟩
    refine ⟨_, (reported_iff hothers hlocal rfl).2 ⟨hpeers, rfl⟩, List.mem_filter.2 ⟨?_, ?_⟩, ?_⟩
    · exact (mem_claimants_reported localHost localOrigins records hlocal).2 List.mem_cons_self
    · rw [bne_iff_ne]
      exact fun heq => howner ((entryOf_owner repoOwners hlocal).symm.trans heq.symm)
    · exact (mem_localPaths_iff hothers).2 ⟨origin, rfl, hlocal⟩

/-! ## Agreement with the runtime -/

/-- The host that an entry of `repo_owners` names, else the lowest of those listed. -/
def Names (repoOwners : BTreeMap String) (key : String) (hosts : List String) (host : String) : Prop :=
  repoOwners[key]? = some host ∨ (repoOwners[key]? = none ∧ host ∈ hosts ∧ ∀ other ∈ hosts, host ≤ other)

/-- **The owner is the host that is named**, for any claimants. -/
theorem names_iff {key host first : String} {rest : List String} :
    Names repoOwners key (first :: rest) host ↔ workspaceOwner key repoOwners (first :: rest) = host := by
  unfold Names workspaceOwner
  cases repoOwners[key]? with
  | some owner => simp
  | none =>
    dsimp only
    cases hmin : (first :: rest).min? with
    | none => exact absurd (List.min?_eq_none_iff.1 hmin) (List.cons_ne_nil _ _)
    | some least =>
      have hleast := List.min?_eq_some_iff.1 hmin
      rw [Option.getD_some]
      constructor
      · rintro (h | ⟨-, hmem, hle⟩)
        · cases h
        · exact le_antisymm (hleast.2 host hmem) (hle least hleast.1)
      · rintro rfl
        exact Or.inr ⟨rfl, hleast⟩

/-- An origin of ours and its reported form have one owner: where a record lists the origin, some host keeps both, and
where one only lists an origin reported alike, ours keeps the reported form. -/
def OwnerKept (localHost : String) (records : List (PublishedRecord F)) (repoOwners : BTreeMap String)
    (origin : String) : Prop :=
  if peersListing records origin ≠ [] then
    ∃ host, Names repoOwners origin (localHost :: peersListing records origin) host ∧
      Names repoOwners (reportOrigin origin) (localHost :: reportedPeers records origin) host
  else reportedPeers records origin = [] ∨
    Names repoOwners (reportOrigin origin) (localHost :: reportedPeers records origin) localHost

/-- The report tells the operator what the runtime enforces. -/
structure ReportAgrees (localHost : String) (localOrigins localPrefixes repoOwners : BTreeMap String)
    (records : List (PublishedRecord F)) (now : DateTime) : Prop where
  excluded : ∀ path,
    ReportedExcluded localHost (peerOverlaps localHost localOrigins localPrefixes records repoOwners).1 path ↔
      (resolveWorkspaceOverlap localHost localOrigins records repoOwners now).excluded.contains path = true
  owners : ∀ path origin owner : String, localOrigins[path]? = some origin →
    contestedOwner localHost records repoOwners origin = some owner →
    ∃ overlap ∈ (peerOverlaps localHost localOrigins localPrefixes records repoOwners).1,
      overlap.origin = reportOrigin origin ∧ overlap.owner = owner

theorem excluded_iff {now : DateTime} {path : String} :
    (resolveWorkspaceOverlap localHost localOrigins records repoOwners now).excluded.contains path = true ↔
      ∃ origin : String, localOrigins[path]? = some origin ∧ givesUp localHost records repoOwners origin = true := by
  unfold resolveWorkspaceOverlap
  rw [foldl_overlapStep_excluded, Std.ExtTreeMap.contains_empty, Bool.false_or, List.any_eq_true]
  simp only [Bool.and_eq_true, beq_iff_eq]
  constructor
  · rintro ⟨w, hw, rfl, hup⟩
    exact ⟨w.2, Std.ExtTreeMap.mem_toList_iff_getElem?_eq_some.1 hw, hup⟩
  · rintro ⟨origin, hlookup, hup⟩
    exact ⟨(path, origin), Std.ExtTreeMap.mem_toList_iff_getElem?_eq_some.2 hlookup, rfl, hup⟩

theorem contestedOwner_iff {origin owner : String} :
    contestedOwner localHost records repoOwners origin = some owner ↔ peersListing records origin ≠ [] ∧
      workspaceOwner origin repoOwners (localHost :: peersListing records origin) = owner := by
  unfold contestedOwner
  cases peersListing records origin with
  | nil => simp
  | cons peer peers => simp

theorem givesUp_eq_true {origin : String} : givesUp localHost records repoOwners origin = true ↔
    peersListing records origin ≠ [] ∧
      workspaceOwner origin repoOwners (localHost :: peersListing records origin) ≠ localHost := by
  unfold givesUp
  rw [Option.any_eq_true]
  simp only [contestedOwner_iff, bne_iff_ne]
  exact ⟨fun ⟨_, ⟨hne, rfl⟩, hother⟩ => ⟨hne, hother⟩, fun ⟨hne, hother⟩ => ⟨_, ⟨hne, rfl⟩, hother⟩⟩

/-- A host that lists an origin lists one reported alike. -/
theorem reportedPeers_of_listing {origin : String} (h : peersListing records origin ≠ []) :
    reportedPeers records origin ≠ [] := by
  obtain ⟨host, hhost⟩ := List.exists_mem_of_ne_nil _ h
  obtain ⟨r, hr, rfl⟩ := List.mem_map.1 hhost
  obtain ⟨hmem, hlists⟩ := List.mem_filter.1 hr
  obtain ⟨o, ho, heq⟩ := List.any_eq_true.1 hlists
  refine List.ne_nil_of_mem (List.mem_map_of_mem (List.mem_filter.2 ⟨hmem, ?_⟩))
  rw [List.any_eq_true]
  exact ⟨o, ho, by rw [beq_iff_eq.1 heq, beq_self_eq_true]⟩

/-- An origin that records list has the owner of its reported form. -/
theorem OwnerKept.owner_eq {origin : String} (h : OwnerKept localHost records repoOwners origin)
    (hpeers : peersListing records origin ≠ []) :
    workspaceOwner (reportOrigin origin) repoOwners (localHost :: reportedPeers records origin) =
      workspaceOwner origin repoOwners (localHost :: peersListing records origin) := by
  unfold OwnerKept at h
  rw [if_pos hpeers] at h
  obtain ⟨host, hhost, hreported⟩ := h
  exact (names_iff.1 hreported).trans (names_iff.1 hhost).symm

theorem ReportAgrees.ownerKept (hothers : ∀ r ∈ records, r.hostId ≠ localHost) {now : DateTime}
    (h : ReportAgrees localHost localOrigins localPrefixes repoOwners records now) {path origin : String}
    (hlocal : localOrigins[path]? = some origin) : OwnerKept localHost records repoOwners origin := by
  unfold OwnerKept
  by_cases hpeers : peersListing records origin ≠ []
  · rw [if_pos hpeers]
    refine ⟨_, names_iff.2 rfl, names_iff.2 ?_⟩
    obtain ⟨overlap, hoverlap, hkey, howner⟩ := h.owners path origin _ hlocal (contestedOwner_iff.2 ⟨hpeers, rfl⟩)
    rw [← howner, ((reported_iff hothers hlocal hkey).1 hoverlap).2, entryOf_owner repoOwners hlocal]
  · rw [if_neg hpeers]
    by_contra hnot
    rw [not_or, names_iff] at hnot
    have hexcluded := (h.excluded path).1 ((reportedExcluded_iff hothers).2 ⟨origin, hlocal, hnot.1, hnot.2⟩)
    obtain ⟨origin', hlocal', hup⟩ := excluded_iff.1 hexcluded
    cases hlocal.symm.trans hlocal'
    exact hpeers (givesUp_eq_true.1 hup).1

/-- **The report agrees with the runtime exactly when each local origin and its reported form have one owner.** -/
theorem report_agrees_iff (hothers : ∀ r ∈ records, r.hostId ≠ localHost) (now : DateTime) :
    ReportAgrees localHost localOrigins localPrefixes repoOwners records now ↔
      ∀ path origin : String, localOrigins[path]? = some origin → OwnerKept localHost records repoOwners origin := by
  constructor
  · exact fun hagrees path origin hlocal => hagrees.ownerKept hothers hlocal
  · intro hkept
    constructor
    · intro path
      rw [reportedExcluded_iff hothers, excluded_iff]
      refine exists_congr fun origin => and_congr_right fun hlocal => ?_
      have hown := hkept path origin hlocal
      rw [givesUp_eq_true]
      by_cases hpeers : peersListing records origin ≠ []
      · rw [hown.owner_eq hpeers]
        exact and_congr_left fun _ => iff_of_true (reportedPeers_of_listing hpeers) hpeers
      · refine iff_of_false (fun h => ?_) fun h => hpeers h.1
        unfold OwnerKept at hown
        rw [if_neg hpeers] at hown
        exact hown.elim h.1 fun hnames => h.2 (names_iff.1 hnames)
    · intro path origin owner hlocal hcontested
      obtain ⟨hpeers, howner⟩ := contestedOwner_iff.1 hcontested
      refine ⟨_, (reported_iff hothers hlocal rfl).2 ⟨reportedPeers_of_listing hpeers, rfl⟩, rfl, ?_⟩
      rw [entryOf_owner repoOwners hlocal, (hkept path origin hlocal).owner_eq hpeers, howner]

/-! ### One repository, with and without a query -/

def repoAt (path origin : String) : BTreeMap String := (∅ : BTreeMap String).insert path origin

/-- A host's record with one workspace. -/
def listingRecord (host origin : String) : PublishedRecord Nat := ownRecord Nat host (repoAt "/w/peer" origin)

/-- The peer's origin carries a query that the runtime compares and the report drops. -/
theorem report_excludes_kept_workspace :
    ¬ ∀ (localHost : String) (localOrigins localPrefixes repoOwners : BTreeMap String)
      (records : List (PublishedRecord Nat)) (now : DateTime), (∀ r ∈ records, r.hostId ≠ localHost) →
      ReportAgrees localHost localOrigins localPrefixes repoOwners records now := by
  intro hall
  have hothers : ∀ r ∈ [listingRecord "spark" "https://example.test/repo.git?access_key=private"],
      r.hostId ≠ "tower" := by decide
  have hagrees := hall "tower" (repoAt "/w/local" "https://example.test/repo.git") ∅ ∅ _ 0 hothers
  have hreported := (hagrees.excluded "/w/local").1 ((reportedExcluded_iff hothers).2
    ⟨"https://example.test/repo.git", by decide +kernel, by decide +kernel, by decide +kernel⟩)
  exact absurd hreported (by decide +kernel)

/-- Of two hosts that list one origin as it is, the lower keeps it in the report as well. -/
theorem report_agrees_plain : ReportAgrees "tower" (repoAt "/w/local" "https://example.test/repo.git") ∅ ∅
    [listingRecord "spark" "https://example.test/repo.git"] 0 := by
  refine (report_agrees_iff (by decide) 0).2 fun path origin hlocal => ?_
  have horigin : origin = "https://example.test/repo.git" := by
    unfold repoAt at hlocal
    rw [Std.ExtTreeMap.getElem?_insert] at hlocal
    split at hlocal
    · exact (Option.some.inj hlocal).symm
    · simp at hlocal
  rw [horigin]
  unfold OwnerKept
  rw [if_pos (by decide +kernel)]
  exact ⟨"spark", by unfold Names; decide +kernel, by unfold Names; decide +kernel⟩

end Subgov
