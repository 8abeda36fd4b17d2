import Mathlib.Algebra.Order.BigOperators.Group.List
import Mathlib.Data.Finset.Insert
import Mathlib.Data.Fintype.EquivFin
import Subgov.Federation
/-!
# DemandExclusion — published demand without some workspaces

The script's `observe` counts the claims in progress, the unowned workers and the pool ceiling into one capacity, and
lists the slots of each workspace.  The record publisher reads the capacity while no workspace is excluded and adds up
the slots once one is, so excluding even an empty workspace changes the published demand unless the two happen to be
equal (`exclusionLaw_iff`).
-/
namespace Subgov

variable {P : Type} [DecidableEq P]

/-! ## The producer -/

/-- An issue as `bead list --ready` names it; `allowed` is the label and state check. -/
structure ReadyIssue where
  id : String
  externalHold : Bool := false
  internalArtifact : Bool := false
  allowed : Bool := true

/-- A route in scope, with why it is left out, if it is, and its configured limits. -/
structure DemandRoute (P : Type) where
  workspace : P
  blocked : Option String := none
  issues : List ReadyIssue
  buildHeavy : Bool := false
  workspaceLimit : Option Nat := none
  nativeLimit : Option Nat := none

/-- The routes in scope, each once. -/
structure DemandRoutes (P : Type) where
  routes : List (DemandRoute P)
  distinct : (routes.map (·.workspace)).Nodup

structure WorkspaceSummary (P : Type) where
  workspace : P
  readyBeads : Nat
  busyClaims : Nat
  workerLimit : Nat
  eligibleSlots : Nat

structure DemandDocument (P : Type) where
  readyBeadCount : Nat
  workspaces : List (WorkspaceSummary P)
  unownedFloor : Nat
  eligibleBacklogCapacity : Nat

def blockReason (held : Bool) (issue : ReadyIssue) : Option String :=
  if held || issue.externalHold then some "recorded_external_hold"
  else if issue.internalArtifact then some "native_internal_artifact"
  else if !issue.allowed then some "not_currently_claimable"
  else none

namespace DemandRoute

variable (route : DemandRoute P)

/-- The ids of the claimable issues that nobody has claimed. -/
def jobs (holds busyKeys : List (P × String)) : List String :=
  ((route.issues.filter fun issue =>
    (blockReason (holds.contains (route.workspace, issue.id)) issue).isNone &&
      !busyKeys.contains (route.workspace, issue.id)).map (·.id)).eraseDups

def active (busyKeys : List (P × String)) : Nat := busyKeys.countP (fun key => key.1 == route.workspace)

omit [DecidableEq P] in
def workerLimit (maxWorkers : Nat) : Nat :=
  let limit := route.workspaceLimit.getD (if route.buildHeavy then 1 else maxWorkers)
  let limit := if route.buildHeavy then min limit 1 else limit
  match route.nativeLimit with
  | none | some 0 => limit
  | some native => min limit native

def summary (maxWorkers : Nat) (holds busyKeys : List (P × String)) : WorkspaceSummary P where
  workspace := route.workspace
  readyBeads := (route.jobs holds busyKeys).length
  busyClaims := route.active busyKeys
  workerLimit := route.workerLimit maxWorkers
  eligibleSlots := min (route.jobs holds busyKeys).length (route.workerLimit maxWorkers - route.active busyKeys)

end DemandRoute

/-- The demand document; `busy` are the claims in progress, and claims outside the selected routes still count. -/
def observe (maxWorkers : Nat) (scope : DemandRoutes P) (holds busy : List (P × String)) (unownedFloor : Nat) :
    DemandDocument P :=
  let busyKeys := busy.eraseDups
  let selected := scope.routes.filter (·.blocked.isNone)
  let workspaces := selected.map (·.summary maxWorkers holds busyKeys)
  let capacity := unownedFloor + (workspaces.map fun w => w.busyClaims + w.eligibleSlots).sum +
    busyKeys.countP fun key => !(selected.map (·.workspace)).contains key.1
  { readyBeadCount := (workspaces.map (·.readyBeads)).sum
    workspaces
    unownedFloor
    eligibleBacklogCapacity := min maxWorkers capacity }

/-! ## The publisher -/

structure DemandWorkspace (P : Type) where
  workspace : Option P := none
  readyBeads : Option Nat := none
  eligibleSlots : Option Nat := none

structure DemandDigest (P : Type) where
  readyBeadCount : Option Nat := none
  eligibleBacklogCapacity : Option Nat := none
  workspaces : List (DemandWorkspace P) := []

/-- The counts that the publisher reads are `u32`s. -/
def DemandDocument.Fits (doc : DemandDocument P) : Prop :=
  doc.readyBeadCount ≤ u32Max ∧ doc.eligibleBacklogCapacity ≤ u32Max ∧
    ∀ w ∈ doc.workspaces, w.readyBeads ≤ u32Max ∧ w.eligibleSlots ≤ u32Max

instance DemandDocument.decidableFits (doc : DemandDocument P) : Decidable doc.Fits :=
  inferInstanceAs (Decidable (_ ∧ _ ∧ _))

/-- A document that cannot be read is no demand. -/
def readDemand (doc : DemandDocument P) : DemandDigest P :=
  if doc.Fits then
    { readyBeadCount := some doc.readyBeadCount
      eligibleBacklogCapacity := some doc.eligibleBacklogCapacity
      workspaces := doc.workspaces.map fun w =>
        { workspace := some w.workspace, readyBeads := some w.readyBeads, eligibleSlots := some w.eligibleSlots } }
  else {}

def DemandDigest.readyDemand (digest : DemandDigest P) (excluded : Finset P) : PeerReadyDemand :=
  if excluded = ∅ then
    { readyBeads := digest.readyBeadCount.getD 0, eligibleBacklogCapacity := digest.eligibleBacklogCapacity }
  else
    let kept := digest.workspaces.filter (fun w => w.workspace.any (· ∉ excluded))
    { readyBeads := satSum (kept.map (·.readyBeads.getD 0))
      eligibleBacklogCapacity := some (satSum (kept.map (·.eligibleSlots.getD 0))) }

/-- What excluding one more path should change: nothing where it has no demand, else its own demand. -/
structure ExclusionLaw (doc : DemandDocument P) : Prop where
  other : ∀ excluded path,
    (∀ w ∈ doc.workspaces, w.workspace = path → w.readyBeads = 0 ∧ w.eligibleSlots = 0) →
      (readDemand doc).readyDemand (insert path excluded) = (readDemand doc).readyDemand excluded
  one : ∀ excluded, ∀ w ∈ doc.workspaces, w.workspace ∉ excluded →
    ((readDemand doc).readyDemand (insert w.workspace excluded)).readyBeads + w.readyBeads =
        ((readDemand doc).readyDemand excluded).readyBeads ∧
      ((readDemand doc).readyDemand (insert w.workspace excluded)).workerBound ≤
        ((readDemand doc).readyDemand excluded).workerBound ∧
      ((readDemand doc).readyDemand excluded).workerBound ≤
        ((readDemand doc).readyDemand (insert w.workspace excluded)).workerBound + w.eligibleSlots

/-! ## What a document says -/

theorem countP_outside_cons {ws : List P} {w : P} (hw : w ∉ ws) (keys : List (P × String)) :
    keys.countP (fun key => !ws.contains key.1) =
      keys.countP (fun key => key.1 == w) + keys.countP (fun key => !(w :: ws).contains key.1) := by
  induction keys with
  | nil => rfl
  | cons key keys ih =>
    simp only [List.countP_cons, ih]
    by_cases hkey : key.1 = w
    · have hout : key.1 ∉ ws := hkey ▸ hw
      simp [hkey, hw]
      omega
    · simp [hkey]
      omega

/-- Every claim is counted once, at its route or outside them. -/
theorem sum_claims {ws : List P} (hnd : ws.Nodup) (keys : List (P × String)) :
    (ws.map fun w => keys.countP (fun key => key.1 == w)).sum + keys.countP (fun key => !ws.contains key.1) =
      keys.length := by
  induction ws with
  | nil => simp
  | cons w ws ih =>
    rw [List.nodup_cons] at hnd
    rw [← ih hnd.2, countP_outside_cons hnd.1 keys, List.map_cons, List.sum_cons]
    omega

/-- What holds of every document: each workspace is listed once, and its slots are for its own ready beads. -/
structure DemandDocument.WellFormed (doc : DemandDocument P) : Prop where
  distinct : (doc.workspaces.map (·.workspace)).Nodup
  count : doc.readyBeadCount = (doc.workspaces.map (·.readyBeads)).sum
  slots : ∀ w ∈ doc.workspaces, w.eligibleSlots ≤ w.readyBeads

section Observed

variable {maxWorkers unownedFloor : Nat} {scope : DemandRoutes P} {holds busy : List (P × String)}

omit [DecidableEq P] in
theorem selected_distinct (scope : DemandRoutes P) :
    ((scope.routes.filter (·.blocked.isNone)).map (·.workspace)).Nodup :=
  scope.distinct.sublist (List.filter_sublist.map _)

theorem observe_wellFormed : (observe maxWorkers scope holds busy unownedFloor).WellFormed where
  distinct := by
    unfold observe
    dsimp only
    rw [List.map_map]
    exact selected_distinct scope
  count := rfl
  slots w hw := by
    obtain ⟨route, -, rfl⟩ := List.mem_map.1 hw
    exact Nat.min_le_left _ _

/-- The slots of all workspaces together. -/
def DemandDocument.slots (doc : DemandDocument P) : Nat := (doc.workspaces.map (·.eligibleSlots)).sum

/-- **The capacity**: all slots, the claims in progress and the unowned workers, as far as the pool goes. -/
theorem observe_capacity : (observe maxWorkers scope holds busy unownedFloor).eligibleBacklogCapacity =
    min maxWorkers (unownedFloor + busy.eraseDups.length +
      (observe maxWorkers scope holds busy unownedFloor).slots) := by
  have hclaims := sum_claims (selected_distinct scope) busy.eraseDups
  unfold DemandDocument.slots observe
  dsimp only
  generalize hws : (scope.routes.filter (·.blocked.isNone)).map (·.summary maxWorkers holds busy.eraseDups) = ws
  have hbusy : (((scope.routes.filter (·.blocked.isNone)).map (·.workspace)).map fun w =>
      busy.eraseDups.countP (fun key => key.1 == w)) = ws.map (·.busyClaims) := by
    rw [← hws, List.map_map, List.map_map]
    rfl
  have hsplit : (ws.map fun w => w.busyClaims + w.eligibleSlots).sum =
      (ws.map (·.busyClaims)).sum + (ws.map (·.eligibleSlots)).sum := List.sum_map_add
  rw [hsplit, ← hclaims, hbusy]
  congr 1
  omega

/-- The capacity is the slots alone where nothing else is counted, or where they fill the pool. -/
theorem capacity_eq_slots_iff : (observe maxWorkers scope holds busy unownedFloor).eligibleBacklogCapacity =
    (observe maxWorkers scope holds busy unownedFloor).slots ↔
      (busy = [] ∧ unownedFloor = 0 ∧ (observe maxWorkers scope holds busy unownedFloor).slots ≤ maxWorkers) ∨
        (observe maxWorkers scope holds busy unownedFloor).slots = maxWorkers := by
  have hnil : busy.eraseDups.length = 0 ↔ busy = [] := by
    rw [List.length_eq_zero_iff]
    refine ⟨fun h => List.eq_nil_iff_forall_not_mem.2 fun key hkey => ?_, fun h => by rw [h]; rfl⟩
    rw [← List.mem_eraseDups, h] at hkey
    exact List.not_mem_nil hkey
  rw [observe_capacity, ← hnil]
  omega

end Observed

/-! ## Excluding a workspace -/

section Excluding

variable {doc : DemandDocument P} {excluded : Finset P}

/-- What is left of a count once some workspaces are excluded. -/
def kept (count : WorkspaceSummary P → Nat) (workspaces : List (WorkspaceSummary P)) (excluded : Finset P) : Nat :=
  ((workspaces.filter (·.workspace ∉ excluded)).map count).sum

theorem kept_cons (count : WorkspaceSummary P → Nat) (w : WorkspaceSummary P) (ws : List (WorkspaceSummary P))
    (excluded : Finset P) : kept count (w :: ws) excluded =
      (if w.workspace ∈ excluded then 0 else count w) + kept count ws excluded := by
  unfold kept
  by_cases h : w.workspace ∈ excluded
  · rw [if_pos h, List.filter_cons_of_neg (by simpa using h), Nat.zero_add]
  · rw [if_neg h, List.filter_cons_of_pos (by simpa using h), List.map_cons, List.sum_cons]

theorem kept_empty (count : WorkspaceSummary P → Nat) (ws : List (WorkspaceSummary P)) :
    kept count ws ∅ = (ws.map count).sum := by
  unfold kept
  rw [List.filter_eq_self.2 fun w _ => by simp]

theorem kept_le (count : WorkspaceSummary P → Nat) (ws : List (WorkspaceSummary P)) (excluded : Finset P) :
    kept count ws excluded ≤ (ws.map count).sum :=
  List.Sublist.sum_le_sum (List.filter_sublist.map count) fun _ _ => Nat.zero_le _

theorem kept_insert_of_zero {count : WorkspaceSummary P → Nat} {ws : List (WorkspaceSummary P)} {path : P}
    (h : ∀ w ∈ ws, w.workspace = path → count w = 0) :
    kept count ws (insert path excluded) = kept count ws excluded := by
  induction ws with
  | nil => rfl
  | cons w ws ih =>
    rw [List.forall_mem_cons] at h
    rw [kept_cons, kept_cons, ih h.2]
    by_cases hpath : w.workspace = path
    · rw [h.1 hpath]
      simp
    · simp [hpath]

/-- **Excluding one more workspace takes its own count away.** -/
theorem kept_insert (count : WorkspaceSummary P → Nat) {ws : List (WorkspaceSummary P)}
    (hnd : (ws.map (·.workspace)).Nodup) {w : WorkspaceSummary P} (hw : w ∈ ws) (hout : w.workspace ∉ excluded) :
    kept count ws (insert w.workspace excluded) + count w = kept count ws excluded := by
  induction ws with
  | nil => exact absurd hw List.not_mem_nil
  | cons x ws ih =>
    rw [List.map_cons, List.nodup_cons] at hnd
    rw [kept_cons, kept_cons]
    rcases List.mem_cons.1 hw with rfl | hmem
    · have hrest : kept count ws (insert w.workspace excluded) = kept count ws excluded :=
        kept_insert_of_zero fun y hy hsame => absurd (List.mem_map.2 ⟨y, hy, hsame⟩) hnd.1
      rw [hrest, if_pos (Finset.mem_insert_self _ _), if_neg hout]
      omega
    · have hne : x.workspace ≠ w.workspace := fun hsame =>
        hnd.1 (hsame ▸ List.mem_map.2 ⟨w, hmem, rfl⟩)
      have hrest := ih hnd.2 hmem
      simp only [Finset.mem_insert, hne, false_or]
      omega

omit [DecidableEq P] in
theorem slots_le (hdoc : doc.WellFormed) : doc.slots ≤ doc.readyBeadCount := by
  rw [hdoc.count]
  exact List.sum_le_sum hdoc.slots

/-- **What is published of a readable document.** -/
theorem readyDemand_of_fits (hdoc : doc.WellFormed) (hfits : doc.Fits) (excluded : Finset P) :
    (readDemand doc).readyDemand excluded =
      { readyBeads := kept (·.readyBeads) doc.workspaces excluded
        eligibleBacklogCapacity := some (if excluded = ∅ then doc.eligibleBacklogCapacity
          else kept (·.eligibleSlots) doc.workspaces excluded) } := by
  have hcount : (doc.workspaces.map (·.readyBeads)).sum ≤ u32Max := by
    rw [← hdoc.count]
    exact hfits.1
  have hslots : (doc.workspaces.map (·.eligibleSlots)).sum ≤ u32Max :=
    Nat.le_trans (slots_le hdoc) hfits.1
  unfold DemandDigest.readyDemand readDemand
  rw [if_pos hfits]
  by_cases hempty : excluded = ∅
  · rw [if_pos hempty, if_pos hempty, hempty, kept_empty, ← hdoc.count]
    rfl
  · rw [if_neg hempty, if_neg hempty]
    have hready := Nat.le_trans (kept_le (·.readyBeads) doc.workspaces excluded) hcount
    have heligible := Nat.le_trans (kept_le (·.eligibleSlots) doc.workspaces excluded) hslots
    unfold kept at hready heligible ⊢
    dsimp only
    rw [List.filter_map, List.map_map, List.map_map, satSum_eq, satSum_eq, Nat.min_eq_left, Nat.min_eq_left]
    · rfl
    · exact heligible
    · exact hready

/-- **Where the capacity is the slots**, both readings of the document are one. -/
theorem readyDemand_of_capacity (hdoc : doc.WellFormed) (hfits : doc.Fits)
    (hcapacity : doc.eligibleBacklogCapacity = doc.slots) (excluded : Finset P) :
    (readDemand doc).readyDemand excluded =
      { readyBeads := kept (·.readyBeads) doc.workspaces excluded
        eligibleBacklogCapacity := some (kept (·.eligibleSlots) doc.workspaces excluded) } := by
  rw [readyDemand_of_fits hdoc hfits]
  by_cases hempty : excluded = ∅
  · rw [if_pos hempty, hempty, kept_empty _ doc.workspaces, kept_empty, hcapacity]
    rfl
  · rw [if_neg hempty]

theorem exclusionLaw_of_capacity (hdoc : doc.WellFormed) (hfits : doc.Fits)
    (hcapacity : doc.eligibleBacklogCapacity = doc.slots) : ExclusionLaw doc where
  other excluded path hzero := by
    rw [readyDemand_of_capacity hdoc hfits hcapacity, readyDemand_of_capacity hdoc hfits hcapacity,
      kept_insert_of_zero fun w hw hpath => (hzero w hw hpath).1,
      kept_insert_of_zero fun w hw hpath => (hzero w hw hpath).2]
  one excluded w hw hout := by
    have hready := kept_insert (·.readyBeads) hdoc.distinct hw hout
    have hslots := kept_insert (·.eligibleSlots) hdoc.distinct hw hout
    unfold PeerReadyDemand.workerBound
    rw [readyDemand_of_capacity hdoc hfits hcapacity, readyDemand_of_capacity hdoc hfits hcapacity]
    dsimp only [Option.getD_some]
    exact ⟨hready, by omega, by omega⟩

/-- Excluding a path that no workspace has shows which reading the empty exclusion took. -/
theorem capacity_of_unlisted (hdoc : doc.WellFormed) {path : P} (hnone : ∀ w ∈ doc.workspaces, w.workspace ≠ path)
    (hsame : (readDemand doc).readyDemand (insert path ∅) = (readDemand doc).readyDemand ∅) :
    doc.Fits ∧ doc.eligibleBacklogCapacity = doc.slots := by
  have hne : insert path (∅ : Finset P) ≠ ∅ := Finset.insert_ne_empty _ _
  by_cases hfits : doc.Fits
  · rw [readyDemand_of_fits hdoc hfits, readyDemand_of_fits hdoc hfits, if_neg hne, if_pos rfl,
      kept_insert_of_zero fun w hw hw' => absurd hw' (hnone w hw), kept_empty,
      kept_insert_of_zero fun w hw hw' => absurd hw' (hnone w hw), kept_empty] at hsame
    injection hsame with _ hcapacity
    exact ⟨hfits, (Option.some.inj hcapacity).symm⟩
  · unfold readDemand DemandDigest.readyDemand at hsame
    rw [if_neg hfits, if_neg hne, if_pos rfl] at hsame
    injection hsame with _ hcapacity
    cases hcapacity

/-- **The law holds of a document exactly when it can be read and its capacity is its slots.** -/
theorem exclusionLaw_of_wellFormed [Infinite P] (hdoc : doc.WellFormed) :
    ExclusionLaw doc ↔ doc.Fits ∧ doc.eligibleBacklogCapacity = doc.slots := by
  constructor
  · intro hlaw
    obtain ⟨path, hpath⟩ := Infinite.exists_notMem_finset (doc.workspaces.map (·.workspace)).toFinset
    rw [List.mem_toFinset, List.mem_map, not_exists] at hpath
    have hnone : ∀ w ∈ doc.workspaces, w.workspace ≠ path := fun w hw hsame => hpath w ⟨hw, hsame⟩
    exact capacity_of_unlisted hdoc hnone (hlaw.other ∅ path fun w hw hw' => absurd hw' (hnone w hw))
  · rintro ⟨hfits, hcapacity⟩
    exact exclusionLaw_of_capacity hdoc hfits hcapacity

/-- **Published demand follows the exclusions** exactly when the document can be read and either nothing but slots is
counted, within the pool, or the slots fill the pool. -/
theorem exclusionLaw_iff [Infinite P] (maxWorkers : Nat) (scope : DemandRoutes P) (holds busy : List (P × String))
    (unownedFloor : Nat) : ExclusionLaw (observe maxWorkers scope holds busy unownedFloor) ↔
      (observe maxWorkers scope holds busy unownedFloor).Fits ∧
        ((busy = [] ∧ unownedFloor = 0 ∧ (observe maxWorkers scope holds busy unownedFloor).slots ≤ maxWorkers) ∨
          (observe maxWorkers scope holds busy unownedFloor).slots = maxWorkers) := by
  rw [exclusionLaw_of_wellFormed observe_wellFormed, capacity_eq_slots_iff]

end Excluding

/-! ### A claim and an empty workspace -/

def twoRoutes : DemandRoutes String where
  routes := [{ workspace := "/w/a", issues := [{ id := "a-1" }] }, { workspace := "/w/b", issues := [] }]
  distinct := by decide

/-- With one claim in progress the bound is 2, and 1 once the empty workspace is excluded. -/
theorem exclusion_drops_claim : ¬ ∀ (maxWorkers : Nat) (scope : DemandRoutes String)
    (holds busy : List (String × String)) (unownedFloor : Nat),
    ExclusionLaw (observe maxWorkers scope holds busy unownedFloor) := by
  intro hall
  have hsame := (hall 10 twoRoutes [] [("/w/a", "a-0")] 0).other ∅ "/w/b" (by decide +kernel)
  exact absurd (congrArg PeerReadyDemand.workerBound hsame) (by decide +kernel)

/-- Without claims the law holds of the same routes. -/
theorem exclusionLaw_without_claims : ExclusionLaw (observe 10 twoRoutes [] [] 0) :=
  (exclusionLaw_iff 10 twoRoutes [] [] 0).2
    ⟨by decide +kernel, Or.inl ⟨rfl, rfl, by decide +kernel⟩⟩

end Subgov
