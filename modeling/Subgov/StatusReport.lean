import Subgov.CycleGate
import Subgov.HostReading
/-!
# StatusReport — from a cycle's decision to the peers' records

An instance runs the accounts one after another, merges their readiness into the status file, and clears the reservations
it has observed.  `poolStates` publishes what the status file last said of an account.  A completed cycle reports the
count its decision sized and a failed one no count at all, so that the published workers are the ones last observed on
this host only as long as the two agree (`published_agrees`).
-/
namespace Subgov

open FloatArith Effect

variable {F : Type} [Flt F]

/-! ## The status file -/

def mergeStatusReport (recorded updates : BTreeMap AccountReadiness) : BTreeMap AccountReadiness :=
  recorded.insertMany updates.toList

/-- The status file as a peer-state process reads it. -/
def readStatus (recorded : BTreeMap AccountReadiness) : BTreeMap StatusDigest :=
  recorded.map fun _ r => { currentWorkers := r.currentWorkers, desiredWorkers := r.desiredWorkers }

theorem mergeStatusReport_getElem? (recorded updates : BTreeMap AccountReadiness) (name : String) :
    (mergeStatusReport recorded updates)[name]? = updates[name]?.or recorded[name]? := by
  unfold mergeStatusReport
  cases hupdate : updates[name]? with
  | none =>
    have hmem : (updates.toList.map Prod.fst).contains name = false := by
      rw [Std.ExtTreeMap.map_fst_toList_eq_keys, List.contains_eq_mem, decide_eq_false_iff_not,
        Std.ExtTreeMap.mem_keys, ← Std.ExtTreeMap.isSome_getElem?_iff_mem, hupdate]
      exact Bool.false_ne_true
    rw [Std.ExtTreeMap.getElem?_insertMany_list_of_contains_eq_false hmem]
    rfl
  | some r =>
    have hmem : (name, r) ∈ updates.toList := Std.ExtTreeMap.mem_toList_iff_getElem?_eq_some.2 hupdate
    rw [Std.ExtTreeMap.getElem?_insertMany_list_of_mem Std.ReflCmp.compare_self Std.ExtTreeMap.distinct_keys_toList hmem]
    rfl

/-! ## The cycles of an instance -/

/-- What one cycle over the accounts reports to the loop. -/
structure CycleOutcome where
  observationFailures : Nat := 0
  actuationFailures : Nat := 0
  statuses : BTreeMap AccountReadiness := ∅
  observedPending : List String := []

def CycleOutcome.count (outcome : CycleOutcome) (name : String) (readiness : AccountReadiness)
    (result : Except AccountFailure CycleReport) : CycleOutcome :=
  let outcome := { outcome with statuses := outcome.statuses.insert name readiness }
  match result with
  | .ok report => { outcome with observedPending := outcome.observedPending ++ report.observedPool.toList }
  | .error (.observation _) => { outcome with observationFailures := outcome.observationFailures + 1 }
  | .error (.actuation _) => { outcome with actuationFailures := outcome.actuationFailures + 1 }

/-- A running governor: its state, its files, and what it did to each account's fleet. -/
structure Instance (F : Type) where
  state : State F := {}
  pending : PendingMap := ∅
  status : BTreeMap AccountReadiness := ∅
  logs : String → FleetLog := fun _ => {}

/-- One cycle's inputs, and how many accounts it processed before a shutdown was asked for. -/
structure CyclePlan (F : Type) where
  inputs : String → CycleInputs F
  processed : Nat

namespace Instance

def world (s : Instance F) (name : String) : World F := { state := s.state, pending := s.pending, log := s.logs name }

def setWorld (s : Instance F) (name : String) (w : World F) : Instance F :=
  { s with
    state := w.state
    pending := w.pending
    logs := Function.update s.logs name w.log }

def accountCycle (config : Config F) (plan : CyclePlan F) (entry : String × AccountConfig F) : AccountCycle F :=
  { config, name := entry.1, account := entry.2, inputs := plan.inputs entry.1 }

def runAccount (config : Config F) (plan : CyclePlan F) (s : Instance F × CycleOutcome)
    (entry : String × AccountConfig F) : Instance F × CycleOutcome :=
  let c := accountCycle config plan entry
  let (result, w) := run c.cycle (s.1.world entry.1)
  (s.1.setWorld entry.1 w, s.2.count entry.1 (c.status result) result)

def processedAccounts (config : Config F) (plan : CyclePlan F) : List (String × AccountConfig F) :=
  config.accounts.toList.take plan.processed

def runCycle (config : Config F) (plan : CyclePlan F) (s : Instance F) : Instance F × CycleOutcome :=
  (processedAccounts config plan).foldl (runAccount config plan) (s, {})

/-- One pass of the loop: the status file is written before the observed reservations are cleared. -/
def cycle (config : Config F) (plan : CyclePlan F) (s : Instance F) : Instance F :=
  let (s, outcome) := s.runCycle config plan
  { s with
    status := mergeStatusReport s.status outcome.statuses
    pending := if config.federation.isSome then outcome.observedPending.foldl clearPendingLaunchesPool s.pending
      else s.pending }

def publishedWorkers (s : Instance F) (federation : FederationConfig) (name : String) (account : AccountConfig F)
    (demand : PeerReadyDemand) : Option Nat :=
  (poolStates account name federation.hostId (readStatus s.status) s.state s.pending
    demand)[poolKey account name federation.hostId]?.map (·.governedWorkers)

omit [Flt F] in
theorem publishedWorkers_eq (s : Instance F) (federation : FederationConfig) (name : String)
    (account : AccountConfig F) (demand : PeerReadyDemand) :
    s.publishedWorkers federation name account demand = some ((s.status[name]?.bind (·.currentWorkers)).getD 0) := by
  unfold publishedWorkers poolStates readStatus
  rw [Std.ExtTreeMap.getElem?_insert_self, Std.ExtTreeMap.getElem?_map]
  cases s.status[name]? <;> rfl

/-- Every account's published workers are the ones last observed on this host, or none before any were. -/
def Agrees (config : Config F) (federation : FederationConfig) (s : Instance F) : Prop :=
  ∀ name account demand, config.accounts[name]? = some account →
    s.publishedWorkers federation name account demand = some ((s.logs name).observed.getD 0)

end Instance

/-! ## What one account reports -/

theorem applyPolicies_currentWorkers (d : Decision F) (config : AccountConfig F) (snapshot : QuotaSnapshot F)
    (prior : AccountState F) (now : DateTime) :
    (applyPolicies d config snapshot prior now).decision.currentWorkers = d.currentWorkers := by
  have hsaturation : ∀ policy, (applyZaiSaturation d config policy snapshot prior now).1.currentWorkers =
      d.currentWorkers := fun policy => withTotal_currentWorkers _
  have hbrake : ∀ (d : Decision F) policy prior minWorkers,
      (applyBackpressure d policy prior snapshot minWorkers now).1.currentWorkers = d.currentWorkers :=
    fun d policy prior minWorkers => withTotal_currentWorkers _
  unfold applyPolicies
  cases config.utilization.zaiSaturation with
  | none =>
    cases config.utilization.backpressure with
    | none => rfl
    | some policy => exact hbrake d policy _ _
  | some saturation =>
    cases config.utilization.backpressure with
    | none => exact hsaturation saturation
    | some policy => exact (hbrake _ policy _ _).trans (hsaturation saturation)

/-- A pool's decision is about the owned workers, as long as the pool's count fits. -/
theorem evaluatePool_currentWorkers {name : String} {config : AccountConfig F} {snapshot : QuotaSnapshot F}
    {prior : AccountState F} {owned unowned : Nat} {now : DateTime} {d : Decision F}
    (h : evaluatePool name config snapshot prior owned unowned now = .ok d) (hfit : owned + unowned ≤ u32Max) :
    d.currentWorkers = owned := by
  have howned : owned ≤ u32Max := Nat.le_trans (Nat.le_add_right _ _) hfit
  rw [(evaluatePool_counts h howned).1, satAdd_of_le hfit, Nat.add_sub_cancel]

omit [Flt F] in
theorem currentWorkers_strict {fleet : FleetConfig F} {reading : Except String Nat} {log log' : FleetLog} {n : Nat}
    (hstrict : fleet.observerReconciliation = .strict)
    (h : run (currentWorkers fleet reading) log = (.ok n, log')) :
    fleet.observer.bind (fun observer => (observeWith observer reading).toOption) = some n ∧ n ≤ fleet.maxWorkers := by
  unfold currentWorkers at h
  cases hobserver : fleet.observer with
  | none =>
    rw [hobserver] at h
    cases h
  | some observer =>
    rw [hobserver] at h
    obtain ⟨observed, _, robserved, h⟩ := ok_of_run_bind h
    obtain ⟨hobserved, rfl⟩ := ok_of_run_lift robserved
    obtain ⟨_, _, hnote, h⟩ := ok_of_run_bind h
    obtain ⟨hrange, -⟩ := ok_of_run_lift h
    unfold reconcileObservedRange at hrange
    rw [hstrict] at hrange
    split at hrange
    · rename_i hin
      cases hrange
      rw [Option.bind_some, hobserved]
      exact ⟨rfl, hin.2⟩
    · cases hrange

namespace AccountCycle

variable {c : AccountCycle F} {w : World F}

/-- A completed cycle sizes the count last read on its own host, and a failed one leaves no worker known there. -/
structure TracksHost (c : AccountCycle F) (w : World F) : Prop where
  completed : ∀ report, (run c.cycle w).1 = .ok report → ∀ o log, ObservedFrom c w o log →
    c.lastReading o = some o.workers ∧ o.workers + o.unowned ≤ u32Max
  failed : ∀ e, (run c.cycle w).1 = .error e →
    w.log.observed.getD 0 = 0 ∧ c.readBefore.getD 0 = 0 ∧ c.readAfter.getD 0 = 0

/-- The status entry of a cycle that tracks its host is the count last read there. -/
theorem status_currentWorkers (h : c.TracksHost w) :
    (c.status (run c.cycle w).1).currentWorkers.getD 0 = (run c.cycle w).2.log.observed.getD 0 := by
  rcases hrun : run c.cycle w with ⟨e | report, w'⟩
  · obtain ⟨hw, hbefore, hafter⟩ := h.failed e (congrArg Prod.fst hrun)
    have hlog : (run c.cycle w).2.log.observed.getD 0 = 0 := by
      refine cycle_observed (P := fun n => n.getD 0 = 0) (fun n hn => ?_) (fun n hn => ?_) hw
      · rwa [hn] at hbefore
      · rwa [hn] at hafter
    rw [hrun] at hlog
    exact hlog.symm
  · obtain ⟨o, log, hread, hreport, hlast⟩ := cycle_ok hrun
    obtain ⟨hworkers, hfit⟩ := h.completed report (congrArg Prod.fst hrun) o log hread
    show report.readiness.currentWorkers.getD 0 = w'.log.observed.getD 0
    have hdecision : (c.policies o).decision.currentWorkers = o.workers :=
      (applyPolicies_currentWorkers _ _ _ _ _).trans (evaluatePool_currentWorkers hread.decision hfit)
    rw [hlast _ hworkers, hreport, hdecision]

/-- A single fleet's count is the one last read, unless its observer's was clamped or is read again. -/
theorem lastReading_of_single (hhosts : c.account.fleet.hasHosts = false)
    (hstrict : c.account.fleet.observerReconciliation = .strict)
    (honce : reconcileUnchanged c.account.fleet.actuator = false)
    (hfit : ∀ n, unownedWorkers c.account.fleet c.inputs.fleet.unowned = .ok n →
      c.account.fleet.maxWorkers + n ≤ u32Max) {o : Observation F} {log : FleetLog} (hread : ObservedFrom c w o log) :
    c.lastReading o = some o.workers ∧ o.workers + o.unowned ≤ u32Max := by
  have hworkers := hread.workers
  unfold observeWorkers at hworkers
  rw [hhosts, if_neg Bool.false_ne_true] at hworkers
  obtain ⟨n, log', hcurrent, hpair⟩ := ok_of_run_bind hworkers
  obtain ⟨hnone, hcount⟩ := Prod.mk.inj (Except.ok.inj (Prod.mk.inj hpair).1)
  obtain ⟨hread', hmax⟩ := currentWorkers_strict hstrict hcurrent
  have hbefore : c.readBefore = some o.workers := by
    unfold readBefore ownReading
    rw [hhosts, if_neg Bool.false_ne_true, hread', hcount]
  have hagain : c.observesAgain o = false := by
    unfold observesAgain ownActuator
    rw [hhosts, if_neg Bool.false_ne_true, honce, Bool.and_false]
  have hunowned := hread.unowned
  rw [← hnone] at hunowned
  refine ⟨?_, le_trans (Nat.add_le_add_right (hcount ▸ hmax) _) (hfit _ hunowned)⟩
  unfold lastReading
  rw [hagain, if_neg Bool.false_ne_true, hbefore]

end AccountCycle

/-! ## Runs -/

namespace Instance

variable {config : Config F} {plan : CyclePlan F} {s s₀ : Instance F}

def Tracked (config : Config F) (plan : CyclePlan F) : List (String × AccountConfig F) → Instance F × CycleOutcome → Prop
  | [], _ => True
  | entry :: rest, s => (accountCycle config plan entry).TracksHost (s.1.world entry.1) ∧
      Tracked config plan rest (runAccount config plan s entry)

theorem tracked_singleton {entry : String × AccountConfig F} {s : Instance F × CycleOutcome}
    (h : (accountCycle config plan entry).TracksHost (s.1.world entry.1)) : Tracked config plan [entry] s :=
  ⟨h, trivial⟩

inductive TrackedRun (config : Config F) (s₀ : Instance F) : Instance F → Prop where
  | init : TrackedRun config s₀ s₀
  | step {s : Instance F} (plan : CyclePlan F) : TrackedRun config s₀ s →
      Tracked config plan (processedAccounts config plan) (s, {}) → TrackedRun config s₀ (s.cycle config plan)

/-- An account the cycle has reported on has the count last read on its host, and any other has not been read. -/
def Reported (s₀ : Instance F) (s : Instance F × CycleOutcome) : Prop :=
  s.1.status = s₀.status ∧ ∀ name, match s.2.statuses[name]? with
    | some r => r.currentWorkers.getD 0 = (s.1.logs name).observed.getD 0
    | none => s.1.logs name = s₀.logs name

omit [Flt F] in
theorem count_statuses (outcome : CycleOutcome) (name : String) (readiness : AccountReadiness)
    (result : Except AccountFailure CycleReport) :
    (outcome.count name readiness result).statuses = outcome.statuses.insert name readiness := by
  unfold CycleOutcome.count
  rcases result with ⟨_ | _⟩ | _ <;> rfl

theorem reported_runAccount {s : Instance F × CycleOutcome} {entry : String × AccountConfig F} (h : Reported s₀ s)
    (htracks : (accountCycle config plan entry).TracksHost (s.1.world entry.1)) :
    Reported s₀ (runAccount config plan s entry) := by
  refine ⟨h.1, fun name => ?_⟩
  have hstatus := AccountCycle.status_currentWorkers htracks
  have hstatuses : (runAccount config plan s entry).2.statuses = s.2.statuses.insert entry.1
      ((accountCycle config plan entry).status (run (accountCycle config plan entry).cycle (s.1.world entry.1)).1) :=
    count_statuses _ _ _ _
  have hlogs : (runAccount config plan s entry).1.logs = Function.update s.1.logs entry.1
      (run (accountCycle config plan entry).cycle (s.1.world entry.1)).2.log := rfl
  rw [hstatuses, hlogs]
  by_cases hname : entry.1 = name
  · subst hname
    rw [Std.ExtTreeMap.getElem?_insert_self, Function.update_self]
    exact hstatus
  · rw [Function.update_of_ne (Ne.symm hname), Std.ExtTreeMap.getElem?_insert, if_neg (by simpa using hname)]
    exact h.2 name

theorem reported_foldl : ∀ (entries : List (String × AccountConfig F)) (s : Instance F × CycleOutcome), Reported s₀ s →
    Tracked config plan entries s → Reported s₀ (entries.foldl (runAccount config plan) s)
  | [], _, h, _ => h
  | entry :: rest, s, h, ht => by
    rw [List.foldl_cons]
    exact reported_foldl rest _ (reported_runAccount h ht.1) ht.2

variable {federation : FederationConfig}

theorem agrees_cycle (h : s.Agrees config federation)
    (ht : Tracked config plan (processedAccounts config plan) (s, {})) :
    (s.cycle config plan).Agrees config federation := by
  have hinit : Reported s (s, {}) := ⟨rfl, fun _ => rfl⟩
  obtain ⟨hstatus, hreported⟩ := reported_foldl (processedAccounts config plan) (s, {}) hinit ht
  intro name account demand haccount
  have hbefore := h name account demand haccount
  rw [publishedWorkers_eq, Option.some.injEq] at hbefore ⊢
  show ((mergeStatusReport (s.runCycle config plan).1.status (s.runCycle config plan).2.statuses)[name]?.bind
    (·.currentWorkers)).getD 0 = ((s.runCycle config plan).1.logs name).observed.getD 0
  have hname := hreported name
  rw [mergeStatusReport_getElem?]
  unfold runCycle
  cases hentry : ((processedAccounts config plan).foldl (runAccount config plan) (s, {})).2.statuses[name]? with
  | some r =>
    rw [hentry] at hname
    exact hname
  | none =>
    rw [hentry] at hname
    rw [hname, hstatus]
    exact hbefore

/-- **In a run whose cycles all track their hosts, the published workers are the ones last observed.** -/
theorem published_agrees (h0 : s₀.Agrees config federation) (hrun : TrackedRun config s₀ s) :
    s.Agrees config federation := by
  induction hrun with
  | init => exact h0
  | step plan _ ht ih => exact agrees_cycle ih ht

end Instance

/-! ## A failure after a reading -/

def fullConfig : Config F64 := pairConfig pairAccount

/-- Two workers run, and there is work for no third. -/
def fullPlan (source : Except String (QuotaSnapshot F64)) : CyclePlan F64 where
  inputs _ := { (pairCycle (.error "timed out")).inputs with
    source
    fleet := unlaunchable 2
    localRecord := .ok (pairRecord pairAccount (pairFiles 0)) }
  processed := 1

/-- The source fails after a completed cycle: the peers are shown no worker where two were last observed. -/
theorem published_understates :
    ¬ ∀ (config : Config F64) (federation : FederationConfig) (plans : List (CyclePlan F64)),
      config.federation = some federation → config.validate = .ok () →
      Instance.Agrees config federation (plans.foldl (fun s plan => s.cycle config plan) {}) := by
  intro hall
  have hvalid : fullConfig.validate = .ok () := by decide +kernel
  have h := hall fullConfig pairFederation [fullPlan (.ok pairSnapshot), fullPlan (.error "timed out")] rfl hvalid
    "codex" pairAccount { readyBeads := 0 } Std.ExtTreeMap.getElem?_insert_self
  exact absurd h (by decide +kernel)

theorem fullCycle_tracks :
    (Instance.accountCycle fullConfig (fullPlan (.ok pairSnapshot)) ("codex", pairAccount)).TracksHost
      (({} : Instance F64).world "codex") := by
  have hok : (run (Instance.accountCycle fullConfig (fullPlan (.ok pairSnapshot)) ("codex", pairAccount)).cycle
      (({} : Instance F64).world "codex")).1.toBool = true := by decide +kernel
  refine ⟨fun _ _ o log hread => ?_, fun e he => ?_⟩
  · refine AccountCycle.lastReading_of_single rfl rfl rfl (fun n hn => ?_) hread
    cases hn
    decide
  · rw [he] at hok
    cases hok

/-- A completed cycle shows the two workers. -/
theorem published_agrees_full :
    Instance.Agrees fullConfig pairFederation (({} : Instance F64).cycle fullConfig (fullPlan (.ok pairSnapshot))) := by
  have h0 : Instance.Agrees fullConfig pairFederation ({} : Instance F64) := by
    intro name account demand _
    rw [Instance.publishedWorkers_eq]
    rfl
  have haccounts : Instance.processedAccounts fullConfig (fullPlan (.ok pairSnapshot)) = [("codex", pairAccount)] := rfl
  refine Instance.published_agrees h0 (.step _ .init ?_)
  rw [haccounts]
  exact Instance.tracked_singleton fullCycle_tracks

end Subgov
