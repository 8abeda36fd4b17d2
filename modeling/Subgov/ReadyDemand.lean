import Mathlib.Data.List.Sort
import Subgov.DemandExclusion
import Subgov.NeedlePolicy
/-!
# ReadyDemand — the demand of the ready beads

The script's `observe`: which routes it counts, which of their issues are jobs, how many jobs each route gets a slot
for, and the capacity with the claims in progress.  A claim is counted once, at its route or outside the routes, and
what is listed as ready is no claim, no hold and within the limits (`observe_accounts`).
-/
namespace Subgov

open Python

namespace ReadyBeads

/-! ## Inputs -/

/-- What the script takes from its machine and from the library: paths as texts, and times that have a zone. -/
structure Platform where
  resolve : String → String
  expanduser : String → String
  home : String
  lower : String → String
  fromisoformat : String → Option Int
  now : Int

/-- `str(Path(path).expanduser().resolve())` -/
def Platform.canonical (p : Platform) (path : String) : String := p.resolve (p.expanduser path)

/-- A row of `bead list --ready`.  The labels are what iterating them gives, where they can be iterated and are texts,
and the description and the title are empty where they count as false. -/
structure Issue where
  id : String
  status : Option String := some "open"
  assignee : Bool := false
  manualBlocked : Bool := false
  externalHold : Bool := false
  labels : Except Error (List String) := .ok []
  description : Except Error String := .ok ""
  title : Except Error String := .ok ""

structure Files where
  discover : String → List String
  /-- What `read_text` gives, and for a workspace whether it has the file. -/
  needleConfig : String → Except Error (List Char)
  needleYaml : String → Option (Except Error (List Char))
  beadsConfig : String → Bool
  gateRecord : String → String → Except Error Value
  hasFile : String → String → Bool
  listReady : String → Except Error (List Issue)

/-- An entry of `external_holds` or of `work`. -/
structure HoldRecord where
  workspace : String
  id : String
  reason : Value := .none
  externalHold : Value := .none

structure DemandConfig where
  workspaces : Option (List String) := none
  needleConfig : Option String := none
  homeWorkspaces : List String := []
  workspaceAgents : List (String × List String) := []
  workspaceLimits : List (String × Value) := []
  externalHolds : List HoldRecord := []

structure Settings where
  host : String
  agent : String
  maxWorkers : Value
  gateHealthDir : Option String := none
  work : List HoldRecord := []
  demand : DemandConfig

structure Job where
  id : String
  workspace : String
  deriving DecidableEq

/-! ## Issues -/

def limit : Nat := 999999

def buildMarkers : List String :=
  ["Cargo.toml", "go.mod", "CMakeLists.txt", "pom.xml", "build.gradle", "build.gradle.kts", "Makefile", "package.json"]

def readyIssues (files : Files) (route : String) : Except Error (List Issue) := do
  let issues ← files.listReady route
  if limit ≤ issues.length then throw (.value "invalid or truncated native ready array")
  return issues

def stripped (text : String) : String := String.ofList (strip text.toList)

/-- `marker in text` -/
def contains (text marker : String) : Bool := text.toList.tails.any (marker.toList.isPrefixOf ·)

def startsWith (text start : String) : Bool := start.toList.isPrefixOf text.toList

section Issues

variable (p : Platform)

def internalLabels : List String :=
  ["alert", "crash", "starvation", "knot-starvation", "pluck-starvation", "gate-broken", "generation-ratio",
    "pulse-finding", "unravel-proposal", "worker-failure", "worker-loop", "infra"]

/-- The sections of a report that a worker writes. -/
def reportMarkers : List String :=
  ["## agent crash report", "## gate execution error", "## worker failure", "## live worker loop detected",
    "## scanner finding", "## alternative for:"]

def starvationTitles : List String :=
  ["starvation alert", "beads invisible to worker", "open beads exist but pluck found none"]

def starvationMarkers : List String :=
  ["workspace", "open beads", "ready beads", "pluck", "candidate", "invisible", "starvation"]

def configurationMarkers : List String :=
  ["pluck configuration", "pluck config", "exclude_labels", "exclude labels", "bead discovery", "needle dispatch",
    "strand configuration", "worker configuration", "bead filtering", "candidate exclusion"]

def nativeInternalArtifact (issue : Issue) : Except Error Bool := do
  let labels := (← issue.labels).map fun label => p.lower (stripped label)
  if labels.any internalLabels.contains || labels.any (startsWith · "fingerprint:") then return true
  let body := p.lower (← issue.description)
  if reportMarkers.any (contains body) then return true
  if (stripped body).isEmpty then return false
  let title := p.lower (← issue.title)
  if starvationTitles.any (contains title) && starvationMarkers.any (contains body) then return true
  return configurationMarkers.any (contains body) || contains body "automated alternative proposal" ||
    (startsWith title "[unravel]" && contains body "original bead:")

def holdLabels : List String :=
  ["human", "human-owned", "owner:human", "proposal-pending", "deferred", "blocked", "manual_blocked",
    "manual-blocked", "blocked:manual", "external-hold", "external_hold", "waiting-external"]

def holdPrefixes : List String := ["human:", "external-hold:", "external_hold:", "waiting-external:"]

def timedPrefixes : List String := ["deferred:", "quarantine-until:", "retry-cooldown-until:"]

/-- `raw.split(":", 1)[1].replace("Z", "+00:00")` -/
def untilText (raw : String) : String :=
  String.ofList (((raw.toList.dropWhile (· != ':')).drop 1).flatMap fun c => if c = 'Z' then "+00:00".toList else [c])

/-- A label lets its issue be claimed now. -/
def labelAllows (raw : String) : Bool :=
  let label := p.lower (stripped raw)
  if holdLabels.contains label || holdPrefixes.any (startsWith label) then false
  else if timedPrefixes.any (startsWith label) then
    match p.fromisoformat (untilText raw) with
    | none => false
    | some time => decide (time ≤ p.now)
  else true

def allowed (issue : Issue) : Except Error Bool := do
  if issue.status ≠ some "open" || issue.assignee || issue.manualBlocked then return false
  if ← nativeInternalArtifact p issue then return false
  return (← issue.labels).all (labelAllows p)

/-- `set(labels) & set(excludes)` -/
def excludedLabel (issue : Issue) (excludes : List Value) : Except Error Bool := do
  let labels ← issue.labels
  if !excludes.all Value.hashable then throw .type
  return labels.any fun label => excludes.any (Value.eqStr label)

def claimable (issue : Issue) (excludes : List Value) : Except Error Bool := do
  if !(← allowed p issue) then return false
  return !(← excludedLabel issue excludes)

/-- Why an issue is no job. -/
def issueReason (held : Bool) (excludes : List Value) (issue : Issue) : Except Error (Option String) := do
  if held || issue.externalHold then return some "recorded_external_hold"
  if ← nativeInternalArtifact p issue then return some "native_internal_artifact"
  return if ← claimable p issue excludes then none else some "not_currently_claimable"

end Issues

/-! ## Routes -/

section Routes

variable (p : Platform) (files : Files) (settings : Settings)

/-- A setting that is absent or empty. -/
def unset (setting : Option String) : Bool := setting.all String.isEmpty

def exploreEnabled : Path := ["strands", "explore", "enabled"]

def exploreWorkspaces : Path := ["strands", "explore", "workspaces"]

def exploreRoot : Path := ["strands", "explore", "workspace_root"]

def readNeedleConfig (config : String) (fields : List Path) : Except Error (Path → Option Value) :=
  (files.needleConfig (p.expanduser config)).bind (policyFields fields)

/-- The texts of a list of texts. -/
def textsOf : Value → Except Error (List String)
  | .list items => items.mapM fun
    | .str s => .ok s
    | _ => .error (.value "invalid NEEDLE workspace list")
  | _ => .error (.value "invalid NEEDLE workspace list")

/-- The workspaces that NEEDLE explores. -/
def exploredPaths (config : String) : Except Error (List String) := do
  let values ← readNeedleConfig p files config [exploreWorkspaces, exploreRoot, exploreEnabled]
  match (values exploreEnabled).getD (.bool true) with
  | .bool true =>
    let explicit ← textsOf ((values exploreWorkspaces).getD (.list []))
    if !explicit.isEmpty then return explicit.map p.canonical
    match (values exploreRoot).getD (.str p.home) with
    | .str root => return files.discover root
    | _ => throw .type
  | _ => return []

/-- The value that a `dict` with these paths, each made canonical, has for a route. -/
def lastFor {V : Type} (entries : List (String × V)) (route : String) : Option V :=
  (entries.reverse.find? fun entry => p.canonical entry.1 == route).map (·.2)

/-- The paths in scope. -/
def scopePaths : Except Error (List String) :=
  match settings.demand.workspaces with
  | some workspaces => .ok (workspaces.map p.canonical)
  | none =>
    if unset settings.demand.needleConfig then .error (.value "missing workspace scope")
    else exploredPaths p files (settings.demand.needleConfig.getD "")

def routes : Except Error (List String) := do
  let config := settings.demand
  let scope ← scopePaths p files settings
  let paths := (scope ++ config.homeWorkspaces.map p.canonical).dedup
  return (paths.filter fun path =>
    (lastFor p config.workspaceAgents path).all (·.contains settings.agent)).insertionSort (· ≤ ·)

def gateDegraded (route : String) : Option String :=
  if unset settings.gateHealthDir then none
  else
    match files.gateRecord (settings.gateHealthDir.getD "") route with
    | .ok (.dict entries) =>
      match entries.find? (fun entry => entry.1.eqStr "degraded") with
      | none | some (_, .bool false) => none
      | some _ => some "workspace_gate_degraded"
    | _ => some "gate_state_unreadable"

/-- Why a route is not counted: a policy that cannot be read blocks its own workspace only. -/
def routeReason (route : String) : Except Error (Option String) :=
  match policyOk (files.beadsConfig route) (files.needleYaml route) settings.host with
  | .error e => if e.isValueOrOs then .ok (some "policy_unreadable") else .error e
  | .ok false => .ok (some "backend_or_queue_owner")
  | .ok true => .ok (gateDegraded files settings route)

structure Blocked where
  workspace : String
  id : Option String := none
  reason : String

/-- The routes that are counted, and the others with their reasons. -/
structure Selection where
  selected : List String := []
  blocked : List Blocked := []

def Selection.add (s : Selection) (route : String) : Option String → Selection
  | some reason => { s with blocked := s.blocked ++ [{ workspace := route, reason }] }
  | none => { s with selected := s.selected ++ [route] }

def selectRoutes (paths : List String) : Except Error Selection :=
  paths.foldlM (fun s route => (routeReason files settings route).map (s.add route)) {}

/-! ## Demand -/

def holds : List (String × String) :=
  settings.demand.externalHolds.map (fun item => (p.canonical item.workspace, item.id)) ++
    (settings.work.filter (·.externalHold.truthy)).map fun item => (p.resolve item.workspace, item.id)

def busyKeys (busy : List Job) : List (String × String) :=
  (busy.map fun job => (p.resolve job.workspace, job.id)).dedup

def globalExcludes : Except Error (List Value) :=
  if unset settings.demand.needleConfig then .ok []
  else do
    let values ← readNeedleConfig p files (settings.demand.needleConfig.getD "") [excludeLabelsPath]
    match (values excludeLabelsPath).getD (.list []) with
    | .list excludes => return excludes
    | _ => throw (.value "invalid global excluded labels")

/-- The labels that a workspace leaves out: its own list, or the global one. -/
def excludesOf (policy : WorkspacePolicy) (excludes : List Value) : Except Error (List Value) :=
  match policy.excludeLabels with
  | none => .ok excludes
  | some (.list own) => .ok own
  | some _ => .error (.value "invalid excluded labels")

def buildHeavy (route : String) : Bool := buildMarkers.any (files.hasFile route)

/-- The configured limit of a workspace, or the default. -/
def configuredLimit (maxWorkers : Int) (route : String) : Except Error Int :=
  match lastFor p settings.demand.workspaceLimits route with
  | none => .ok (if buildHeavy files route then 1 else maxWorkers)
  | some (.int n) => if n < 0 then .error (.value "invalid workspace capacity") else .ok n
  | some _ => .error (.value "invalid workspace capacity")

def workerLimit (maxWorkers : Int) (policy : WorkspacePolicy) (route : String) : Except Error Int := do
  let limit ← configuredLimit p files settings maxWorkers route
  let limit := if buildHeavy files route then min limit 1 else limit
  match policy.maxWorkers with
  | .none => .ok limit
  | .int native =>
    if native < 0 then .error (.value "invalid native workspace capacity")
    else .ok (if native = 0 then limit else min limit native)
  | _ => .error (.value "invalid native workspace capacity")

/-- The jobs of a route, each id once, in the order of their first rows. -/
structure RouteJobs where
  jobs : List String := []
  blocked : List Blocked := []

def RouteJobs.add (busy : List (String × String)) (route : String) (s : RouteJobs) (issue : Issue) :
    Option String → RouteJobs
  | some reason => { s with blocked := s.blocked ++ [{ workspace := route, id := some issue.id, reason }] }
  | none =>
    if busy.contains (route, issue.id) || s.jobs.contains issue.id then s
    else { s with jobs := s.jobs ++ [issue.id] }

def routeJobs (busy : List (String × String)) (excludes : List Value) (route : String) (issues : List Issue) :
    Except Error RouteJobs :=
  issues.foldlM (fun s issue =>
    (issueReason p ((holds p settings).contains (route, issue.id)) excludes issue).map (s.add busy route issue)) {}

structure RouteSummary where
  workspace : String
  readyBeads : Nat
  busyClaims : Nat
  workerLimit : Int
  eligibleSlots : Int

/-- What a route adds. -/
structure RouteCount where
  route : String
  found : RouteJobs
  active : Nat
  limit : Int

def RouteCount.slots (c : RouteCount) : Int := min c.found.jobs.length (max 0 (c.limit - c.active))

def RouteCount.jobs (c : RouteCount) : List Job := c.found.jobs.map fun id => { id, workspace := c.route }

/-- `jobs[:slots]` -/
def RouteCount.seeds (c : RouteCount) : List Job := c.jobs.take c.slots.toNat

def RouteCount.summary (c : RouteCount) : RouteSummary where
  workspace := c.route
  readyBeads := c.jobs.length
  busyClaims := c.active
  workerLimit := c.limit
  eligibleSlots := c.slots

def countRoute (maxWorkers : Int) (busy : List (String × String)) (excludes : List Value) (route : String) :
    Except Error RouteCount := do
  let issues ← readyIssues files route
  let policy ← policyOf (files.needleYaml route)
  let excludes ← excludesOf policy excludes
  let found ← routeJobs p settings busy excludes route issues
  let limit ← workerLimit p files settings maxWorkers policy route
  return { route, found, active := busy.countP (·.1 == route), limit }

structure Tally where
  ready : List Job := []
  seeds : List Job := []
  summaries : List RouteSummary := []
  blocked : List Blocked
  capacity : Int

def Tally.add (t : Tally) (c : RouteCount) : Tally where
  ready := t.ready ++ c.jobs
  seeds := t.seeds ++ c.seeds
  summaries := t.summaries ++ [c.summary]
  blocked := t.blocked ++ c.found.blocked
  capacity := t.capacity + (c.active + c.slots)

/-- The document that is published. -/
structure Demand where
  observedAt : Int
  ready : List Job
  readyBeadCount : Nat
  busy : List Job
  blocked : List Blocked
  workspaces : List RouteSummary
  unownedFloor : Int
  eligibleBacklogCapacity : Int

def poolCeiling : Value → Except Error Int
  | .int n => if n < 0 then .error (.value "invalid pool ceiling") else .ok n
  | _ => .error (.value "invalid pool ceiling")

def countRoutes (maxWorkers : Int) (busy : List (String × String)) (excludes : List Value) (selected : List String)
    (t : Tally) : Except Error Tally :=
  selected.foldlM
    (fun (t : Tally) route => (countRoute p files settings maxWorkers busy excludes route).map t.add) t

/-- `files` are read to select the routes, and `counted` to count them. -/
def observe (files counted : Files) (busy : List Job) (unownedFloor : Int) : Except Error Demand := do
  let maxWorkers ← poolCeiling settings.maxWorkers
  if settings.demand.externalHolds.any (!·.reason.truthy) then throw (.value "external hold has no reason")
  let excludes ← globalExcludes p files settings
  let selection ← selectRoutes files settings (← routes p files settings)
  let keys := busyKeys p busy
  let tally ← countRoutes p counted settings maxWorkers keys excludes selection.selected
    { blocked := selection.blocked, capacity := unownedFloor }
  let outside := keys.countP fun key => !selection.selected.contains key.1
  return {
    observedAt := p.now
    ready := tally.seeds
    readyBeadCount := tally.ready.length
    busy
    blocked := tally.blocked
    workspaces := tally.summaries
    unownedFloor
    eligibleBacklogCapacity := min maxWorkers (tally.capacity + outside) }

end Routes

/-! ## Accounting -/

section Accounting

variable {p : Platform} {files : Files} {settings : Settings}

theorem claimable_ok {issue : Issue} {excludes : List Value} (h : claimable p issue excludes = .ok true) :
    allowed p issue = .ok true ∧ ∃ labels, issue.labels = .ok labels ∧
      ∀ label ∈ labels, ∀ e ∈ excludes, e.eqStr label = false := by
  obtain ⟨allow, hallow, hrest⟩ := ok_of_bind h
  cases allow with
  | false => cases hrest
  | true =>
    obtain ⟨hit, hhit, hnone⟩ := ok_of_bind hrest
    obtain ⟨labels, hlabels, hmatch⟩ := ok_of_bind hhit
    refine ⟨hallow, labels, hlabels, fun label hlabel e he => ?_⟩
    by_contra hsame
    have hany : (labels.any fun label => excludes.any (Value.eqStr label)) = true :=
      List.any_eq_true.2 ⟨label, hlabel, List.any_eq_true.2 ⟨e, he, by simpa using hsame⟩⟩
    rw [hany] at hmatch
    split at hmatch
    · cases hmatch
    · cases Except.ok.inj hmatch
      cases hnone

theorem issueReason_none {held : Bool} {excludes : List Value} {issue : Issue}
    (h : issueReason p held excludes issue = .ok none) :
    held = false ∧ claimable p issue excludes = .ok true := by
  unfold issueReason at h
  split at h
  · cases h
  · rename_i hhold
    obtain ⟨internal, -, hrest⟩ := ok_of_bind h
    cases internal with
    | true => cases hrest
    | false =>
      obtain ⟨claim, hclaim, hend⟩ := ok_of_bind hrest
      cases claim with
      | false => cases hend
      | true =>
        rw [Bool.or_eq_true, not_or, Bool.not_eq_true] at hhold
        exact ⟨hhold.1, hclaim⟩

/-! ### One route -/

/-- What the jobs of a route are: no id twice, none claimed, and each of a row that nothing speaks against. -/
structure RouteJobs.Open (p : Platform) (settings : Settings) (busy : List (String × String)) (excludes : List Value)
    (route : String) (issues : List Issue) (s : RouteJobs) : Prop where
  distinct : s.jobs.Nodup
  unclaimed : ∀ id ∈ s.jobs, (route, id) ∉ busy
  claimable : ∀ id ∈ s.jobs, (route, id) ∉ holds p settings ∧
    ∃ issue ∈ issues, issue.id = id ∧ claimable p issue excludes = .ok true

theorem RouteJobs.Open.add {busy : List (String × String)} {excludes : List Value} {route : String}
    {issues : List Issue} {s : RouteJobs} (hopen : s.Open p settings busy excludes route issues) {issue : Issue}
    (hmem : issue ∈ issues) {reason : Option String}
    (hreason : issueReason p ((holds p settings).contains (route, issue.id)) excludes issue = .ok reason) :
    (s.add busy route issue reason).Open p settings busy excludes route issues := by
  cases reason with
  | some reason => exact ⟨hopen.distinct, hopen.unclaimed, hopen.claimable⟩
  | none =>
    unfold RouteJobs.add
    dsimp only
    split
    · exact hopen
    · rename_i hnew
      rw [Bool.or_eq_true, not_or, List.contains_iff_mem, List.contains_iff_mem] at hnew
      obtain ⟨hheld, hclaim⟩ := issueReason_none hreason
      refine ⟨?_, fun id hid => ?_, fun id hid => ?_⟩
      · exact hopen.distinct.append (List.nodup_singleton _) (by simpa using hnew.2)
      · rcases List.mem_append.1 hid with hold | hlast
        · exact hopen.unclaimed id hold
        · rw [List.mem_singleton.1 hlast]
          exact hnew.1
      · rcases List.mem_append.1 hid with hold | hlast
        · exact hopen.claimable id hold
        · rw [List.mem_singleton.1 hlast]
          exact ⟨by simpa using hheld, issue, hmem, rfl, hclaim⟩

theorem routeJobs_open {busy : List (String × String)} {excludes : List Value} {route : String}
    {issues : List Issue} {found : RouteJobs} (h : routeJobs p settings busy excludes route issues = .ok found) :
    found.Open p settings busy excludes route issues := by
  refine foldlM_ok (P := fun _ s => s.Open p settings busy excludes route issues) h
    ⟨List.nodup_nil, fun id hid => absurd hid List.not_mem_nil, fun id hid => absurd hid List.not_mem_nil⟩ ?_
  intro pre issue s s' hmem hopen hstep
  obtain ⟨reason, hreason, rfl⟩ := ok_of_map hstep
  exact hopen.add hmem hreason

/-- A row that nothing speaks against, and that is not claimed. -/
def Issue.Free (p : Platform) (settings : Settings) (busy : List (String × String)) (excludes : List Value)
    (route : String) (issue : Issue) : Prop :=
  issueReason p ((holds p settings).contains (route, issue.id)) excludes issue = .ok none ∧ (route, issue.id) ∉ busy

theorem RouteJobs.mem_add {busy : List (String × String)} {excludes : List Value} {route : String} {s : RouteJobs}
    {issue : Issue} (hfree : issue.Free p settings busy excludes route) {reason : Option String}
    (hreason : issueReason p ((holds p settings).contains (route, issue.id)) excludes issue = .ok reason) :
    issue.id ∈ (s.add busy route issue reason).jobs := by
  obtain rfl : none = reason := Except.ok.inj (hfree.1.symm.trans hreason)
  unfold RouteJobs.add
  dsimp only
  split
  · rename_i hold
    rw [Bool.or_eq_true, List.contains_iff_mem, List.contains_iff_mem] at hold
    exact hold.resolve_left hfree.2
  · exact List.mem_append_right _ (List.mem_singleton_self _)

theorem RouteJobs.jobs_subset_add (busy : List (String × String)) (route : String) (s : RouteJobs) (issue : Issue)
    (reason : Option String) : s.jobs ⊆ (s.add busy route issue reason).jobs := by
  cases reason with
  | some reason => exact List.Subset.refl _
  | none =>
    unfold RouteJobs.add
    dsimp only
    split
    · exact List.Subset.refl _
    · exact List.subset_append_left _ _

/-- Every free row is among the jobs. -/
theorem routeJobs_lists {busy : List (String × String)} {excludes : List Value} {route : String}
    {issues : List Issue} {found : RouteJobs} (h : routeJobs p settings busy excludes route issues = .ok found) :
    ∀ issue ∈ issues, issue.Free p settings busy excludes route → issue.id ∈ found.jobs := by
  refine foldlM_ok (P := fun pre s => ∀ issue ∈ pre, issue.Free p settings busy excludes route → issue.id ∈ s.jobs) h
    (fun issue hissue => absurd hissue List.not_mem_nil) ?_
  intro pre issue s s' _ hlisted hstep row hrow hfree
  obtain ⟨reason, hreason, rfl⟩ := ok_of_map hstep
  rcases List.mem_append.1 hrow with hold | hlast
  · exact s.jobs_subset_add busy route issue reason (hlisted row hold hfree)
  · obtain rfl := List.mem_singleton.1 hlast
    exact RouteJobs.mem_add hfree hreason

/-- The jobs of a route are its free rows. -/
structure RouteJobs.FreeOf (p : Platform) (settings : Settings) (busy : List (String × String)) (excludes : List Value)
    (route : String) (issues : List Issue) (s : RouteJobs) : Prop
    extends s.Open p settings busy excludes route issues where
  listed : ∀ issue ∈ issues, issue.Free p settings busy excludes route → issue.id ∈ s.jobs

/-- What is counted of a route. -/
structure RouteCount.Of (p : Platform) (files : Files) (settings : Settings) (maxWorkers : Int)
    (busy : List (String × String)) (excludes : List Value) (c : RouteCount) : Prop where
  active_eq : c.active = busy.countP (·.1 == c.route)
  limit_eq : (policyOf (files.needleYaml c.route)).bind
    (fun policy => workerLimit p files settings maxWorkers policy c.route) = .ok c.limit
  found : ∃ own issues, (policyOf (files.needleYaml c.route)).bind (fun policy => excludesOf policy excludes) = .ok own ∧
    readyIssues files c.route = .ok issues ∧ c.found.FreeOf p settings busy own c.route issues

theorem countRoute_ok {maxWorkers : Int} {busy : List (String × String)} {excludes : List Value} {route : String}
    {c : RouteCount} (h : countRoute p files settings maxWorkers busy excludes route = .ok c) :
    c.route = route ∧ c.Of p files settings maxWorkers busy excludes := by
  obtain ⟨issues, hissues, h⟩ := ok_of_bind h
  obtain ⟨policy, hpolicy, h⟩ := ok_of_bind h
  obtain ⟨own, hown, h⟩ := ok_of_bind h
  obtain ⟨found, hfound, h⟩ := ok_of_bind h
  obtain ⟨limit, hlimit, h⟩ := ok_of_bind h
  cases Except.ok.inj h
  refine ⟨rfl, rfl, ?_, own, issues, ?_, hissues, routeJobs_open hfound, routeJobs_lists hfound⟩
  · rw [hpolicy]
    exact hlimit
  · rw [hpolicy]
    exact hown

section Count

variable {c : RouteCount}

theorem RouteCount.slots_nonneg : 0 ≤ c.slots := by
  unfold RouteCount.slots
  omega

theorem RouteCount.length_jobs : c.jobs.length = c.found.jobs.length := List.length_map _

theorem RouteCount.length_seeds : (c.seeds.length : Int) = c.slots := by
  have hle : c.slots ≤ c.found.jobs.length := Int.min_le_left _ _
  have hpos := c.slots_nonneg
  unfold RouteCount.seeds
  rw [List.length_take, RouteCount.length_jobs]
  omega

theorem RouteCount.mem_seeds {job : Job} (h : job ∈ c.seeds) : job.workspace = c.route ∧ job.id ∈ c.found.jobs := by
  obtain ⟨id, hid, rfl⟩ := List.mem_map.1 (List.mem_of_mem_take h)
  exact ⟨rfl, hid⟩

theorem RouteCount.seeds_nodup (h : c.found.jobs.Nodup) : c.seeds.Nodup := by
  refine List.Nodup.sublist (List.take_sublist _ _) (h.map fun a b hab => ?_)
  injection hab

end Count

/-! ### All routes -/

theorem foldl_add (counts : List RouteCount) (t : Tally) : counts.foldl Tally.add t =
    { ready := t.ready ++ counts.flatMap RouteCount.jobs
      seeds := t.seeds ++ counts.flatMap RouteCount.seeds
      summaries := t.summaries ++ counts.map RouteCount.summary
      blocked := t.blocked ++ counts.flatMap (·.found.blocked)
      capacity := t.capacity + (counts.map fun c => (c.active : Int) + c.slots).sum } := by
  induction counts generalizing t with
  | nil => simp
  | cons c counts ih =>
    rw [List.foldl_cons, ih]
    simp [Tally.add, Int.add_assoc]

theorem countRoutes_ok {maxWorkers : Int} {busy : List (String × String)} {excludes : List Value}
    {selected : List String} {t t' : Tally}
    (h : countRoutes p files settings maxWorkers busy excludes selected t = .ok t') :
    ∃ counts : List RouteCount, counts.map (·.route) = selected ∧
      (∀ c ∈ counts, c.Of p files settings maxWorkers busy excludes) ∧ t' = counts.foldl Tally.add t := by
  refine foldlM_ok (P := fun pre t' => ∃ counts : List RouteCount, counts.map (·.route) = pre ∧
    (∀ c ∈ counts, c.Of p files settings maxWorkers busy excludes) ∧ t' = counts.foldl Tally.add t) h
    ⟨[], rfl, fun c hc => absurd hc List.not_mem_nil, rfl⟩ ?_
  rintro pre route s s' - ⟨counts, rfl, hcounts, rfl⟩ hstep
  obtain ⟨c, hc, rfl⟩ := ok_of_map hstep
  obtain ⟨rfl, hof⟩ := countRoute_ok hc
  refine ⟨counts ++ [c], by simp, fun d hd => ?_, by rw [List.foldl_append]; rfl⟩
  rcases List.mem_append.1 hd with hold | hlast
  · exact hcounts d hold
  · rw [List.mem_singleton.1 hlast]
    exact hof

section Counts

variable {counts : List RouteCount}

/-- The seeds of a workspace are those of one count. -/
theorem countP_seeds (hnd : (counts.map (·.route)).Nodup) (workspace : String) :
    (counts.flatMap RouteCount.seeds).countP (·.workspace == workspace) = 0 ∨
      ∃ c ∈ counts, c.route = workspace ∧
        (counts.flatMap RouteCount.seeds).countP (·.workspace == workspace) = c.seeds.length := by
  have hnone : ∀ counts : List RouteCount, workspace ∉ counts.map (·.route) →
      (counts.flatMap RouteCount.seeds).countP (·.workspace == workspace) = 0 := by
    intro counts hout
    refine List.countP_eq_zero.2 fun job hjob hsame => hout ?_
    obtain ⟨c, hc, hseed⟩ := List.mem_flatMap.1 hjob
    exact List.mem_map.2 ⟨c, hc, (RouteCount.mem_seeds hseed).1.symm.trans (by simpa using hsame)⟩
  induction counts with
  | nil => exact Or.inl rfl
  | cons c counts ih =>
    rw [List.map_cons, List.nodup_cons] at hnd
    rw [List.flatMap_cons, List.countP_append]
    by_cases hroute : c.route = workspace
    · refine Or.inr ⟨c, List.mem_cons_self, hroute, ?_⟩
      rw [hnone counts (hroute ▸ hnd.1), Nat.add_zero, List.countP_eq_length]
      intro job hjob
      rw [(RouteCount.mem_seeds hjob).1, hroute, beq_self_eq_true]
    · have hhead : c.seeds.countP (·.workspace == workspace) = 0 := by
        refine List.countP_eq_zero.2 fun job hjob hsame => hroute ?_
        rw [← (RouteCount.mem_seeds hjob).1]
        simpa using hsame
      rw [hhead, Nat.zero_add]
      rcases ih hnd.2 with hzero | ⟨d, hd, hsame, hcount⟩
      · exact Or.inl hzero
      · exact Or.inr ⟨d, List.mem_cons_of_mem c hd, hsame, hcount⟩

theorem length_seeds_le {c : RouteCount} (hc : c ∈ counts) :
    c.seeds.length ≤ (counts.flatMap RouteCount.seeds).countP (·.workspace == c.route) := by
  have hall : c.seeds.countP (·.workspace == c.route) = c.seeds.length :=
    List.countP_eq_length.2 fun job hjob => by rw [(RouteCount.mem_seeds hjob).1, beq_self_eq_true]
  obtain ⟨before, after, rfl⟩ := List.append_of_mem hc
  rw [← hall, List.flatMap_append, List.flatMap_cons, List.countP_append, List.countP_append]
  omega

theorem seeds_nodup (hnd : (counts.map (·.route)).Nodup) (hcounts : ∀ c ∈ counts, c.found.jobs.Nodup) :
    (counts.flatMap RouteCount.seeds).Nodup := by
  rw [List.nodup_flatMap]
  refine ⟨fun c hc => c.seeds_nodup (hcounts c hc), (List.pairwise_map.1 hnd).imp fun hne job hc hd => hne ?_⟩
  rw [← (RouteCount.mem_seeds hc).1, ← (RouteCount.mem_seeds hd).1]

theorem sum_capacity (counts : List RouteCount) : (counts.map fun c => (c.active : Int) + c.slots).sum =
    (counts.map (·.active)).sum + (counts.flatMap RouteCount.seeds).length := by
  induction counts with
  | nil => rfl
  | cons c counts ih =>
    have hslots := c.length_seeds
    rw [List.map_cons, List.sum_cons, ih, List.map_cons, List.sum_cons, List.flatMap_cons, List.length_append]
    omega

end Counts

theorem selectRoutes_sublist {paths : List String} {s : Selection} (h : selectRoutes files settings paths = .ok s) :
    s.selected.Sublist paths := by
  refine foldlM_ok (P := fun pre s => s.selected.Sublist pre) h (List.Sublist.refl _) ?_
  intro pre route s s' _ hsub hstep
  obtain ⟨reason, -, rfl⟩ := ok_of_map hstep
  cases reason with
  | some reason => exact hsub.trans (List.sublist_append_left _ _)
  | none => exact hsub.append (List.Sublist.refl _)

theorem routes_nodup {paths : List String} (h : routes p files settings = .ok paths) : paths.Nodup := by
  obtain ⟨scope, -, hend⟩ := ok_of_bind h
  cases Except.ok.inj hend
  exact (List.perm_insertionSort _ _).nodup_iff.2 ((List.nodup_dedup _).filter _)

/-! ### The document -/

theorem poolCeiling_ok {value : Value} {n : Int} (h : poolCeiling value = .ok n) : value = .int n ∧ 0 ≤ n := by
  unfold poolCeiling at h
  split at h
  · split at h
    · cases h
    · cases Except.ok.inj h
      exact ⟨rfl, by omega⟩
  · cases h

/-- **What a document that is published was counted from.** -/
theorem observe_ok {counted : Files} {busy : List Job} {unownedFloor : Int} {d : Demand}
    (h : observe p settings files counted busy unownedFloor = .ok d) :
    ∃ (maxWorkers : Int) (excludes : List Value) (counts : List RouteCount),
      settings.maxWorkers = .int maxWorkers ∧ 0 ≤ maxWorkers ∧ globalExcludes p files settings = .ok excludes ∧
      (counts.map (·.route)).Nodup ∧
      (∀ c ∈ counts, c.Of p counted settings maxWorkers (busyKeys p busy) excludes) ∧
      d.ready = counts.flatMap RouteCount.seeds ∧
      d.readyBeadCount = (counts.flatMap RouteCount.jobs).length ∧
      d.workspaces = counts.map RouteCount.summary ∧ d.unownedFloor = unownedFloor ∧
      d.eligibleBacklogCapacity = min maxWorkers
        (unownedFloor + (counts.map fun c => (c.active : Int) + c.slots).sum +
          (busyKeys p busy).countP fun key => !(counts.map (·.route)).contains key.1) := by
  unfold observe at h
  obtain ⟨maxWorkers, hmax, h⟩ := ok_of_bind h
  dsimp only at h
  split at h
  · cases h
  · obtain ⟨excludes, hexcludes, h⟩ := ok_of_bind h
    obtain ⟨paths, hpaths, h⟩ := ok_of_bind h
    obtain ⟨selection, hselection, h⟩ := ok_of_bind h
    obtain ⟨tally, htally, h⟩ := ok_of_bind h
    obtain ⟨counts, hroutes, hcounts, rfl⟩ := countRoutes_ok htally
    cases Except.ok.inj h
    have hnd : (counts.map (·.route)).Nodup :=
      hroutes ▸ (routes_nodup hpaths).sublist (selectRoutes_sublist hselection)
    rw [foldl_add, ← hroutes]
    exact ⟨maxWorkers, excludes, counts, (poolCeiling_ok hmax).1, (poolCeiling_ok hmax).2, hexcludes, hnd, hcounts,
      rfl, rfl, rfl, rfl, rfl⟩

end Accounting

section Accounts

variable (p : Platform) (settings : Settings) (files counted : Files)

/-- The limit of a workspace, its policy read. -/
def effectiveLimit (maxWorkers : Int) (workspace : String) : Except Error Int :=
  (policyOf (counted.needleYaml workspace)).bind fun policy =>
    workerLimit p counted settings maxWorkers policy workspace

/-- The labels left out at a workspace. -/
def effectiveExcludes (workspace : String) : Except Error (List Value) :=
  (globalExcludes p files settings).bind fun excludes =>
    (policyOf (counted.needleYaml workspace)).bind fun policy => excludesOf policy excludes

/-- A job comes from a row of its workspace that may be claimed and has no excluded label. -/
def Job.Native (job : Job) : Prop :=
  ∃ issues excludes, readyIssues counted job.workspace = .ok issues ∧
    effectiveExcludes p settings files counted job.workspace = .ok excludes ∧
    ∃ issue ∈ issues, issue.id = job.id ∧ allowed p issue = .ok true ∧
      ∃ labels, issue.labels = .ok labels ∧ ∀ label ∈ labels, ∀ e ∈ excludes, e.eqStr label = false

/-- The accounting of a demand document. -/
structure Demand.Accounts (busy : List Job) (unownedFloor maxWorkers : Int) (d : Demand) : Prop where
  capacity : d.eligibleBacklogCapacity =
    min maxWorkers (unownedFloor + (busyKeys p busy).length + d.ready.length)
  distinct : d.ready.Nodup
  unclaimed : ∀ job ∈ d.ready, (job.workspace, job.id) ∉ busyKeys p busy
  unheld : ∀ job ∈ d.ready, (job.workspace, job.id) ∉ holds p settings
  native : ∀ job ∈ d.ready, job.Native p settings files counted
  within : ∀ workspace,
    let entries := d.ready.countP (·.workspace == workspace)
    let claims := (busyKeys p busy).countP (·.1 == workspace)
    entries = 0 ∨ ∃ limit, effectiveLimit p settings counted maxWorkers workspace = .ok limit ∧
      (entries + claims : Int) ≤ max (claims : Int) limit
  heavy : ∀ workspace limit, effectiveLimit p settings counted maxWorkers workspace = .ok limit →
    buildHeavy counted workspace = true → limit ≤ 1
  total : d.readyBeadCount = (d.workspaces.map (·.readyBeads)).sum

end Accounts

section Accounted

variable {p : Platform} {files counted : Files} {settings : Settings}

theorem effectiveLimit_heavy {maxWorkers limit : Int} {workspace : String}
    (h : effectiveLimit p settings counted maxWorkers workspace = .ok limit)
    (hheavy : buildHeavy counted workspace = true) : limit ≤ 1 := by
  obtain ⟨policy, -, h⟩ := ok_of_bind h
  unfold workerLimit at h
  obtain ⟨configured, -, h⟩ := ok_of_bind h
  dsimp only at h
  rw [if_pos hheavy] at h
  split at h
  · cases Except.ok.inj h
    exact Int.min_le_right _ _
  · split at h
    · cases h
    · cases Except.ok.inj h
      split <;> omega
  · cases h

/-- **Every claim and every slot is counted once.** -/
theorem observe_accounts {busy : List Job} {unownedFloor : Int} {d : Demand}
    (h : observe p settings files counted busy unownedFloor = .ok d) :
    ∃ maxWorkers, settings.maxWorkers = .int maxWorkers ∧
      d.Accounts p settings files counted busy unownedFloor maxWorkers := by
  obtain ⟨maxWorkers, excludes, counts, hmax, -, hexcludes, hnd, hcounts, hready, hbeads, hworkspaces, -, hcapacity⟩ :=
    observe_ok h
  have hseed : ∀ job ∈ d.ready, ∃ c ∈ counts, job.workspace = c.route ∧ ∃ own issues,
      (policyOf (counted.needleYaml c.route)).bind (fun policy => excludesOf policy excludes) = .ok own ∧
        readyIssues counted c.route = .ok issues ∧ c.found.FreeOf p settings (busyKeys p busy) own c.route issues ∧
        job.id ∈ c.found.jobs := by
    intro job hjob
    rw [hready] at hjob
    obtain ⟨c, hc, hmem⟩ := List.mem_flatMap.1 hjob
    obtain ⟨hroute, hid⟩ := RouteCount.mem_seeds hmem
    obtain ⟨own, issues, hown, hissues, hopen⟩ := (hcounts c hc).found
    exact ⟨c, hc, hroute, own, issues, hown, hissues, hopen, hid⟩
  refine ⟨maxWorkers, hmax, ?_, ?_, ?_, ?_, ?_, ?_, fun workspace limit => effectiveLimit_heavy, ?_⟩
  · have hclaims := sum_claims hnd (busyKeys p busy)
    have hactive : (counts.map (·.route)).map (fun w => (busyKeys p busy).countP (fun key => key.1 == w)) =
        counts.map (·.active) := by
      rw [List.map_map]
      exact List.map_congr_left fun c hc => ((hcounts c hc).active_eq).symm
    rw [hactive] at hclaims
    rw [hcapacity, sum_capacity, ← hclaims, hready]
    congr 1
    omega
  · rw [hready]
    exact seeds_nodup hnd fun c hc => (hcounts c hc).found.elim fun _ ⟨_, _, _, hopen⟩ => hopen.distinct
  · intro job hjob
    obtain ⟨c, -, hroute, own, issues, -, -, hopen, hid⟩ := hseed job hjob
    rw [hroute]
    exact hopen.unclaimed job.id hid
  · intro job hjob
    obtain ⟨c, -, hroute, own, issues, -, -, hopen, hid⟩ := hseed job hjob
    rw [hroute]
    exact (hopen.claimable job.id hid).1
  · intro job hjob
    obtain ⟨c, -, hroute, own, issues, hown, hissues, hopen, hid⟩ := hseed job hjob
    obtain ⟨-, issue, hmem, hsame, hclaim⟩ := hopen.claimable job.id hid
    unfold Job.Native effectiveExcludes
    rw [hroute, hexcludes]
    exact ⟨issues, own, hissues, hown, issue, hmem, hsame, claimable_ok hclaim⟩
  · intro workspace
    dsimp only
    rw [hready]
    rcases countP_seeds hnd workspace with hzero | ⟨c, hc, rfl, hcount⟩
    · exact Or.inl hzero
    · refine Or.inr ⟨c.limit, (hcounts c hc).limit_eq, ?_⟩
      rw [hcount, ← (hcounts c hc).active_eq]
      have hslots := c.length_seeds
      unfold RouteCount.slots at hslots
      omega
  · rw [hbeads, hworkspaces, List.map_map, List.length_flatMap]
    rfl

/-- **Nothing free is left out**: a free row of a counted workspace is an entry, unless the entries and the claims of
its workspace reach the limit. -/
theorem observe_lists {busy : List Job} {unownedFloor : Int} {d : Demand}
    (h : observe p settings files counted busy unownedFloor = .ok d) {w : RouteSummary} (hw : w ∈ d.workspaces) :
    ∃ issues excludes, readyIssues counted w.workspace = .ok issues ∧
      effectiveExcludes p settings files counted w.workspace = .ok excludes ∧
      ∀ issue ∈ issues, issue.Free p settings (busyKeys p busy) excludes w.workspace →
        ⟨issue.id, w.workspace⟩ ∈ d.ready ∨
          w.workerLimit ≤ d.ready.countP (·.workspace == w.workspace) +
            (busyKeys p busy).countP (·.1 == w.workspace) := by
  obtain ⟨maxWorkers, excludes, counts, -, -, hexcludes, -, hcounts, hready, -, hworkspaces, -, -⟩ := observe_ok h
  rw [hworkspaces] at hw
  obtain ⟨c, hc, rfl⟩ := List.mem_map.1 hw
  obtain ⟨own, issues, hown, hissues, hfree⟩ := (hcounts c hc).found
  refine ⟨issues, own, hissues, ?_, fun issue hissue hissueFree => ?_⟩
  · unfold effectiveExcludes
    rw [hexcludes]
    exact hown
  have hid := hfree.listed issue hissue hissueFree
  have hseeds := c.length_seeds
  have hcounted := length_seeds_le hc
  have hactive := (hcounts c hc).active_eq
  rw [hready]
  by_cases hall : c.slots = c.found.jobs.length
  · refine .inl (List.mem_flatMap.2 ⟨c, hc, ?_⟩)
    unfold RouteCount.seeds
    rw [hall, Int.toNat_natCast, ← c.length_jobs, List.take_length]
    exact List.mem_map_of_mem hid
  · right
    show c.limit ≤ _
    unfold RouteCount.summary
    dsimp only
    unfold RouteCount.slots at hseeds hall
    omega

end Accounted

/-! ### A claim in a full workspace and one outside the scope -/

def plainPlatform : Platform where
  resolve := id
  expanduser := id
  home := "/home"
  lower := id
  fromisoformat := fun _ => none
  now := 0

def twoWorkspaces : Files where
  discover _ := []
  needleConfig _ := .error .os
  needleYaml _ := none
  beadsConfig _ := true
  gateRecord _ _ := .error .os
  hasFile route marker := route == "/w/a" && marker == "Cargo.toml"
  listReady route :=
    if route = "/w/a" then .ok [{ id := "a-1" }, { id := "a-1" }, { id := "a-2" }]
    else .ok [{ id := "b-1" }, { id := "b-2", labels := .ok ["human"] }, { id := "b-1" }]

def twoWorkspaceSettings : Settings where
  host := "here"
  agent := "codex"
  maxWorkers := .int 12
  demand := { workspaces := some ["/w/a", "/w/b", "/w/a"] }

def outsideClaims : List Job :=
  [{ id := "a-0", workspace := "/w/a" }, { id := "x-0", workspace := "/w/x" }, { id := "a-0", workspace := "/w/a" }]

theorem observe_accounts_two : ∃ d,
    observe plainPlatform twoWorkspaceSettings twoWorkspaces twoWorkspaces outsideClaims 1 = .ok d ∧
      (d.ready = [⟨"b-1", "/w/b"⟩] ∧ d.readyBeadCount = 3 ∧ d.eligibleBacklogCapacity = 4) ∧
      ∃ maxWorkers, twoWorkspaceSettings.maxWorkers = .int maxWorkers ∧
        d.Accounts plainPlatform twoWorkspaceSettings twoWorkspaces twoWorkspaces outsideClaims 1 maxWorkers := by
  have hok : (observe plainPlatform twoWorkspaceSettings twoWorkspaces twoWorkspaces outsideClaims 1).toOption.map
      (fun d => (d.ready, d.readyBeadCount, d.eligibleBacklogCapacity)) = some ([⟨"b-1", "/w/b"⟩], 3, 4) := by
    decide +kernel
  cases hd : observe plainPlatform twoWorkspaceSettings twoWorkspaces twoWorkspaces outsideClaims 1 with
  | error e =>
    rw [hd] at hok
    cases hok
  | ok d =>
    rw [hd] at hok
    have hthree := Option.some.inj hok
    simp only [Prod.mk.injEq] at hthree
    exact ⟨d, rfl, hthree, observe_accounts hd⟩

/-! ## The counts alone -/

section Refinement

theorem eraseDups_of_nodup {α : Type} [BEq α] [LawfulBEq α] {xs : List α} (h : xs.Nodup) : xs.eraseDups = xs := by
  induction xs with
  | nil => rfl
  | cons x xs ih =>
    rw [List.nodup_cons] at h
    have hrest : xs.filter (fun y => !y == x) = xs :=
      List.filter_eq_self.2 fun y hy => by
      simpa using fun hsame : y = x => h.1 (hsame ▸ hy)
    rw [List.eraseDups_cons, hrest, ih h.2]

/-- A route as the count of it knows it. -/
def RouteCount.toRoute (c : RouteCount) : DemandRoute String where
  workspace := c.route
  issues := c.found.jobs.map fun id => { id }
  workspaceLimit := some c.limit.toNat

def RouteSummary.toSummary (s : RouteSummary) : WorkspaceSummary String where
  workspace := s.workspace
  readyBeads := s.readyBeads
  busyClaims := s.busyClaims
  workerLimit := s.workerLimit.toNat
  eligibleSlots := s.eligibleSlots.toNat

/-- The document as its readers take it. -/
def Demand.toDocument (d : Demand) : DemandDocument String where
  readyBeadCount := d.readyBeadCount
  workspaces := d.workspaces.map (·.toSummary)
  unownedFloor := d.unownedFloor.toNat
  eligibleBacklogCapacity := d.eligibleBacklogCapacity.toNat

variable {p : Platform} {files counted : Files} {settings : Settings} {maxWorkers : Int}
  {busy : List (String × String)} {excludes : List Value} {c : RouteCount}

theorem RouteCount.Of.jobs_toRoute (hof : c.Of p counted settings maxWorkers busy excludes) :
    c.toRoute.jobs [] busy = c.found.jobs := by
  obtain ⟨own, issues, -, -, hopen⟩ := hof.found
  unfold DemandRoute.jobs RouteCount.toRoute
  have hall : (c.found.jobs.map fun id => ({ id } : ReadyIssue)).filter (fun issue =>
      (blockReason (([] : List (String × String)).contains (c.route, issue.id)) issue).isNone &&
        !busy.contains (c.route, issue.id)) = c.found.jobs.map fun id => { id } := by
    refine List.filter_eq_self.2 fun issue hissue => ?_
    obtain ⟨id, hid, rfl⟩ := List.mem_map.1 hissue
    simpa [blockReason] using hopen.unclaimed id hid
  rw [hall, List.map_map]
  exact (congrArg List.eraseDups (List.map_id _)).trans (eraseDups_of_nodup hopen.distinct)

theorem RouteCount.Of.summary_toRoute (hof : c.Of p counted settings maxWorkers busy excludes) (most : Nat) :
    c.summary.toSummary = c.toRoute.summary most [] busy := by
  have hlimit : c.toRoute.workerLimit most = c.limit.toNat := rfl
  have hactive : c.toRoute.active busy = c.active := hof.active_eq.symm
  unfold RouteCount.summary RouteSummary.toSummary DemandRoute.summary
  rw [hof.jobs_toRoute, hlimit, hactive, RouteCount.length_jobs]
  congr 1
  dsimp only
  unfold RouteCount.slots
  omega

theorem sum_toSummary (counts : List RouteCount) : (counts.map fun c => (c.active : Int) + c.slots).sum =
    ((counts.map (·.summary.toSummary)).map fun w => w.busyClaims + w.eligibleSlots).sum := by
  induction counts with
  | nil => rfl
  | cons c counts ih =>
    have hslots : (c.summary.toSummary.eligibleSlots : Int) = c.slots := Int.toNat_of_nonneg c.slots_nonneg
    have hactive : c.summary.toSummary.busyClaims = c.active := rfl
    rw [List.map_cons, List.sum_cons, ih, List.map_cons, List.map_cons, List.sum_cons, ← hslots, hactive]
    omega

/-- **The document is one of the counts alone**: what holds of every such document holds of it. -/
theorem observe_refines {busy : List Job} {unownedFloor : Int} {d : Demand}
    (h : observe p settings files counted busy unownedFloor = .ok d) (hfloor : 0 ≤ unownedFloor) :
    ∃ most scope, d.toDocument = Subgov.observe most scope [] (busyKeys p busy) unownedFloor.toNat := by
  obtain ⟨maxWorkers, excludes, counts, -, hpos, -, hnd, hcounts, hready, hbeads, hworkspaces, hfloorEq, hcapacity⟩ :=
    observe_ok h
  have hselected : (counts.map RouteCount.toRoute).filter (·.blocked.isNone) = counts.map RouteCount.toRoute :=
    List.filter_eq_self.2 fun route hroute => by
      obtain ⟨c, -, rfl⟩ := List.mem_map.1 hroute
      rfl
  have hsummaries : (counts.map RouteCount.toRoute).map (·.summary maxWorkers.toNat [] (busyKeys p busy)) =
      counts.map (·.summary.toSummary) := by
    rw [List.map_map]
    exact (List.map_congr_left fun c hc => (hcounts c hc).summary_toRoute _).symm
  have hroutes : (counts.map RouteCount.toRoute).map (·.workspace) = counts.map (·.route) := List.map_map
  have hkeys : (busyKeys p busy).eraseDups = busyKeys p busy := eraseDups_of_nodup (List.nodup_dedup _)
  refine ⟨maxWorkers.toNat, ⟨counts.map RouteCount.toRoute, hroutes ▸ hnd⟩, ?_⟩
  unfold Demand.toDocument Subgov.observe
  dsimp only
  rw [hselected, hkeys, hsummaries, hroutes, hworkspaces, hbeads, hfloorEq, hcapacity,
    List.map_map]
  congr 1
  · rw [List.length_flatMap, List.map_map]
    rfl
  · rw [sum_toSummary]
    omega

end Refinement

end ReadyBeads

end Subgov
