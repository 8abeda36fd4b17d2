import Subgov.Lib.Numbered
import Subgov.PoolReconcile
/-!
# PoolReconcileSafe — a run of `reconcile`, interrupted anywhere

Whatever fails and whatever else goes on, a run either retires or starts, and never more workers than it was asked to.
Only the surplus is ever signalled, each worker of it behind its marker.  What is started is new and known to the
settings, and the pool's own slots are at the first of the seeds.  No iterator of the run is ever exhausted.
-/
namespace Subgov
namespace Freeze
namespace CodexPool
namespace Reconcile

open Procfs Python Interleave
open Script (perform ofExcept)
open ZaiFleet (unitOf masked)

/-! ## What a run may do -/

section Assertions

variable (pool : Pool) (desired : ℕ) (live : List Worker)

/-- No other governor writes the markers, or what this run has done. -/
structure Rely (w w' : World) : Prop where
  markers : ∀ unit, w'.files (pool.marker unit) = w.files (pool.marker unit)
  saved : w'.saved = w.saved
  started : w'.started = w.started
  opened : w'.opened = w.opened
  demanded : w'.demanded = w.demanded

/-- A file that is said to be missing is missing, and nothing else is known of a failure. -/
def mayFail : {β : Type} → Op β → Err → Prop
  | _, .unlink _, e => e ≠ .fileNotFound
  | _, _, _ => True

def system : System World Err Op where
  exec := exec
  rely := Rely pool
  fails := mayFail
  failsLate := mayFail

/-- The workers split into those that stay and the surplus, which has no busy worker unless all that stay are busy. -/
def Chosen (keep : List String) : Prop :=
  ∃ kept surplus : List Worker, (kept ++ surplus).Perm live ∧ kept.length = min desired live.length ∧
    keep = kept.map Worker.workerId ∧
    ∀ worker ∈ surplus, idle worker.beat = .ok false → ∀ other ∈ kept, idle other.beat = .ok false

/-- The slot of a worker, as the unit of its name. -/
def slot : Started → String
  | .unit unit => unit
  | .session launch => unitOf launch.name

/-- The workspace of one of the pool's own slots. -/
def ownRoute : Started → Option String
  | .unit _ => none
  | .session launch => if startsWith launch.name pool.ownPrefix then some launch.workspace else none

def ownRoutes (started : List Started) : List String := started.filterMap (ownRoute pool)

/-- What is started is an adopted worker or one of the pool's own. -/
def Known : Started → Prop
  | .unit unit => ∃ entry ∈ pool.adopted, entry.unit = some unit
  | .session launch =>
    (∃ binary, launch = launchOf binary launch.agent launch.workspace launch.name) ∧
      (startsWith launch.name pool.ownPrefix ∧ launch.agent = pool.agent ∨
        ∃ entry ∈ pool.adopted, entry.unit = none ∧ launch.name = entry.workerId ∧ launch.agent = entry.agent ∧
          launch.workspace = entry.workspace)

/-- What has been started, one at most for each job of the demand that the run has read. -/
structure Bounded (demanded : Option (List String)) (started : List Started) : Prop where
  count : started.length ≤ desired - live.length
  nodup : (started.map slot).Nodup
  fresh : ∀ s ∈ started, ∀ worker ∈ live, slot s ≠ unitOf worker.workerId
  known : ∀ s ∈ started, Known pool s
  ready : started ≠ [] → ∃ ready running seeds, demanded = some ready ∧ runningAt pool live = .ok running ∧
    ReadyBeads.seedOrder pool.resolve ready running = .ok seeds ∧ ownRoutes pool started <+: seeds ∧
    started.length ≤ ready.length

/-- The marker of a worker, where it has one, is there. -/
def Marked (worker : Worker) (w : World) : Prop :=
  ∀ unit ∈ pool.unitFor worker, w.files (pool.marker unit) = some markerText

def Unmarked (worker : Worker) (w : World) : Prop :=
  ∀ unit ∈ pool.unitFor worker, w.files (pool.marker unit) = none

/-- What holds all along, once it is chosen who stays. -/
structure Holds (keep : List String) (w : World) : Prop where
  bounded : Bounded pool desired live w.demanded w.started
  opened : ∀ pid ∈ w.opened, ∃ worker ∈ live, worker.pid = pid ∧ worker.workerId ∉ keep ∧ Marked pool worker w

/-- What a run leaves when it comes to its end. -/
structure Ends (keep : List String) (w : World) : Prop where
  holds : Holds pool desired live keep w
  unmarked : ∀ worker ∈ live, worker.workerId ∈ keep → Unmarked pool worker w
  marked : ∀ worker ∈ live, worker.workerId ∉ keep → Marked pool worker w
  saved : ∃ pending, w.saved = some ⟨desired, pending⟩ ∧
    ∀ name ∈ pending, ∃ worker ∈ live, worker.workerId = name ∧ name ∉ keep

/-- What an operation needs besides. -/
def Needs (keep : List String) : ∀ β, Op β → World → Prop
  | _, .pidfdOpen pid, w => ∃ worker ∈ live, worker.pid = pid ∧ worker.workerId ∉ keep ∧ Marked pool worker w
  | _, .send fd _, w => fd.pid ∈ w.opened
  | _, .startUnit unit, w => w.files (pool.marker unit) = none
  | _, .stopUnit _, _ | _, .daemonReload, _ | _, .exhausted, _ => False
  | _, _, _ => True

/-- What holds wherever a run has got to. -/
def Underway (w : World) : Prop := ∃ keep, Chosen desired live keep ∧ Holds pool desired live keep w

def guard (β : Type) (o : Op β) (w : World) : Prop :=
  ∃ keep, Chosen desired live keep ∧ Holds pool desired live keep w ∧ Needs pool live keep β o w

end Assertions

/-! ## Names -/

section Names

variable {pool : Pool}

theorem marker_inj {unit unit' : String} (h : pool.marker unit = pool.marker unit') : unit = unit' := by
  have hlists := congrArg String.toList h
  simp only [Pool.marker, String.toList_append, List.append_cancel_left_eq] at hlists
  exact String.toList_inj.1 hlists

theorem unitOf_inj {name name' : String} (h : unitOf name = unitOf name') : name = name' := by
  have hlists := congrArg String.toList h
  simp only [unitOf, String.toList_append, List.append_cancel_left_eq, List.append_cancel_right_eq] at hlists
  exact String.toList_inj.1 hlists

theorem unitFor_eq {worker : Worker} {unit : String} (h : unit ∈ pool.unitFor worker) :
    unit = unitOf worker.workerId := by
  obtain ⟨entry, hentry, hunit⟩ := Option.bind_eq_some_iff.1 h
  have hfound := List.find?_some hentry
  simp only [Bool.and_eq_true, decide_eq_true_eq] at hfound
  rw [pool.units entry (List.mem_of_find?_eq_some hentry) unit hunit, hfound.1]

theorem startsWith_append (start rest : String) : startsWith (start ++ rest) start := by
  unfold startsWith
  rw [List.isPrefixOf_iff_prefix, String.toList_append]
  exact List.prefix_append _ _

/-- **There is always a number left**: the names taken are fewer than the pool has slots. -/
theorem freeNumber_isSome {taken : List String} (h : taken.length < pool.maxWorkers) :
    ∃ number, pool.freeNumber taken = some number ∧ pool.ownPrefix ++ toString number ∉ taken := by
  cases hfound : pool.freeNumber taken with
  | some number => exact ⟨number, rfl, by simpa using List.find?_some hfound⟩
  | none =>
    have hall := List.find?_eq_none.1 hfound
    have hnodup : ((List.range' 1 pool.maxWorkers).map fun i => pool.ownPrefix ++ toString i).Nodup := by
      exact (List.nodup_range' (s := 1)).map (Numbered.name_injective pool.ownPrefix)
    have hsub : ((List.range' 1 pool.maxWorkers).map fun i => pool.ownPrefix ++ toString i) ⊆ taken := by
      intro name hname
      obtain ⟨i, hi, rfl⟩ := List.mem_map.1 hname
      simpa using hall i hi
    have hle := (List.subperm_of_subset hnodup hsub).length_le
    rw [List.length_map, List.length_range'] at hle
    omega

end Names

/-! ## Who stays -/

section Choice

variable {desired : ℕ} {live : List Worker}

theorem idle_retention (worker : Worker) :
    (retention worker).Yields fun key => key = 0 ↔ idle worker.beat = .ok false := by
  unfold retention
  cases hidle : idle worker.beat with
  | error e => trivial
  | ok b =>
    cases b with
    | false => exact ⟨fun _ => rfl, fun _ => rfl⟩
    | true =>
      show (childBearing worker >>= fun bearing => if bearing then pure 1 else pure 2 : Script Op Err ℕ).Yields _
      refine .bind (Script.yields_true _) fun bearing _ => ?_
      cases bearing
      · exact ⟨fun h => (nomatch h), fun h => (nomatch h)⟩
      · exact ⟨fun h => (nomatch h), fun h => (nomatch h)⟩

theorem idle_retentions (live : List Worker) :
    (retentions live).Yields (List.Forall₂ (fun worker key => key = 0 ↔ idle worker.beat = .ok false) live) := by
  induction live with
  | nil => exact .nil
  | cons worker rest ih => exact .bind (idle_retention worker) fun key hkey => .bind ih fun keys hkeys => .cons hkey hkeys

theorem retainedBefore_iff {a b : Worker × ℕ} :
    retainedBefore a b ↔ a.2 < b.2 ∨ a.2 = b.2 ∧ a.1.workerId ≤ b.1.workerId := Prod.Lex.toLex_le_toLex

instance : Std.Total retainedBefore := ⟨fun a b => le_total (toLex (a.2, a.1.workerId)) (toLex (b.2, b.1.workerId))⟩

instance : IsTrans (Worker × ℕ) retainedBefore := ⟨fun _ _ _ hab hbc => le_trans hab hbc⟩

/-- **The choice takes so many workers, and drops no busy one for an idle one.** -/
theorem chosen_keepOf {keys : List ℕ}
    (hkeys : List.Forall₂ (fun worker key => key = 0 ↔ idle worker.beat = .ok false) live keys) :
    Chosen desired live (keepOf desired live keys) := by
  have hperm := List.perm_insertionSort retainedBefore (live.zip keys)
  have hfst : (live.zip keys).map Prod.fst = live := List.map_fst_zip hkeys.length_eq.le
  have hkey : ∀ ranked ∈ live.zip keys, ranked.2 = 0 ↔ idle ranked.1.beat = .ok false :=
    fun ranked h => (List.forall₂_iff_zip.1 hkeys).2 h
  have hsorted : ((live.zip keys).insertionSort retainedBefore).Pairwise retainedBefore :=
    List.pairwise_insertionSort _ _
  unfold keepOf
  generalize (live.zip keys).insertionSort retainedBefore = sorted at hperm hsorted ⊢
  have hsplit : sorted.take desired ++ sorted.drop desired = sorted := List.take_append_drop desired sorted
  refine ⟨(sorted.take desired).map Prod.fst, (sorted.drop desired).map Prod.fst, ?_, ?_, ?_, ?_⟩
  · rw [← List.map_append, hsplit]
    exact hfst ▸ hperm.map Prod.fst
  · rw [List.length_map, List.length_take, hperm.length_eq, ← List.length_map (f := Prod.fst), hfst]
  · rw [List.map_map]
    rfl
  · intro worker hworker hbusy other hother
    obtain ⟨dropped, hdropped, rfl⟩ := List.mem_map.1 hworker
    obtain ⟨kept, hkept, rfl⟩ := List.mem_map.1 hother
    have hboth : retainedBefore kept dropped :=
      (List.pairwise_append.1 (hsplit.symm ▸ hsorted)).2.2 kept hkept dropped hdropped
    have hmem : ∀ ranked, ranked ∈ sorted → ranked ∈ live.zip keys := fun ranked h => hperm.mem_iff.1 h
    have hzero := (hkey dropped (hmem _ (List.mem_of_mem_drop hdropped))).2 hbusy
    refine (hkey kept (hmem _ (List.mem_of_mem_take hkept))).1 ?_
    rw [retainedBefore_iff] at hboth
    omega

end Choice

/-! ## Assertions that are kept -/

section Kept

variable {pool : Pool} {desired : ℕ} {live done : List Worker} {keep : List String} {w w' : World} {worker : Worker}

theorem Rely.marked (hr : Rely pool w w') (h : Marked pool worker w) : Marked pool worker w' :=
  fun unit hunit => (hr.markers unit).trans (h unit hunit)

theorem Rely.unmarked (hr : Rely pool w w') (h : Unmarked pool worker w) : Unmarked pool worker w' :=
  fun unit hunit => (hr.markers unit).trans (h unit hunit)

theorem Rely.holds (hr : Rely pool w w') (h : Holds pool desired live keep w) : Holds pool desired live keep w' where
  bounded := by
    rw [hr.demanded, hr.started]
    exact h.bounded
  opened := by
    intro pid hpid
    obtain ⟨worker, hworker, hsame, hkeep, hmarked⟩ := h.opened pid (hr.opened ▸ hpid)
    exact ⟨worker, hworker, hsame, hkeep, hr.marked hmarked⟩

theorem stable_underway : Stable (system pool) (Underway pool desired live) :=
  fun _ _ hr ⟨keep, hchosen, hw⟩ => ⟨keep, hchosen, hr.holds hw⟩

theorem bounded_nil (demanded : Option (List String)) : Bounded pool desired live demanded [] where
  count := Nat.zero_le _
  nodup := List.nodup_nil
  fresh := fun _ h => nomatch h
  known := fun _ h => nomatch h
  ready := fun h => absurd rfl h

/-- Nothing is started or opened yet, and these have no marker if they stay. -/
structure Begun (pool : Pool) (keep : List String) (done : List Worker) (w : World) : Prop where
  started : w.started = []
  opened : w.opened = []
  unmarked : ∀ worker ∈ done, worker.workerId ∈ keep → Unmarked pool worker w

theorem Begun.holds (h : Begun pool keep done w) : Holds pool desired live keep w where
  bounded := h.started ▸ bounded_nil _
  opened := fun pid hpid => nomatch (h.opened ▸ hpid : pid ∈ [])

theorem stable_begun : Stable (system pool) (Begun pool keep done) :=
  fun _ _ hr h => ⟨hr.started.trans h.started, hr.opened.trans h.opened,
    fun worker hworker hkeep => hr.unmarked (h.unmarked worker hworker hkeep)⟩

/-- The surplus is being retired, these workers so far. -/
structure Retiring (pool : Pool) (desired : ℕ) (live : List Worker) (keep : List String) (done : List Worker)
    (w : World) : Prop where
  holds : Holds pool desired live keep w
  unmarked : ∀ worker ∈ live, worker.workerId ∈ keep → Unmarked pool worker w
  marked : ∀ worker ∈ done, worker.workerId ∉ keep → Marked pool worker w

theorem stable_retiring : Stable (system pool) (Retiring pool desired live keep done) :=
  fun _ _ hr h => ⟨hr.holds h.holds, fun worker hworker hkeep => hr.unmarked (h.unmarked worker hworker hkeep),
    fun worker hworker hkeep => hr.marked (h.marked worker hworker hkeep)⟩

end Kept

/-! ## The operations -/

section Operations

variable {pool : Pool} {desired : ℕ} {live done : List Worker} {keep : List String} {P Q : World → Prop} {α β : Type}

theorem exec_rely {o : Op β} {fd : PidFd} (ho : o.attemptsWith fd) (w : World) : Rely pool w (exec o w).2 := by
  cases o with
  | readBeat name =>
    simp only [exec]
    split <;> exact ⟨fun _ => rfl, rfl, rfl, rfl, rfl⟩
  | cmdline pid | tasks pid | send fd signal =>
    simp only [exec, noted]
    split <;> exact ⟨fun _ => rfl, rfl, rfl, rfl, rfl⟩
  | readText path =>
    simp only [exec]
    split <;> exact ⟨fun _ => rfl, rfl, rfl, rfl, rfl⟩
  | pidfdOpen pid => exact ho.elim
  | stopUnit _ | startUnit _ | daemonReload | newSession _ | readyJobs | atomicText _ _ | unlink _ | saveState _
  | exhausted => cases ho
  | _ => exact ⟨fun _ => rfl, rfl, rfl, rfl, rfl⟩

/-- A program of operations that change nothing of a run keeps what the others keep. -/
theorem triple_only {A : ∀ β, Op β → Prop} {p : Script Op Err α} (hp : p.Only A) (hP : Stable (system pool) P)
    (hA : ∀ β (o : Op β) w, A β o → Rely pool w (exec o w).2)
    (hneeds : ∀ keep β (o : Op β) w, A β o → P w → Needs pool live keep β o w)
    (hw : ∀ w, P w → Underway pool desired live w) :
    Triple (system pool) (guard pool desired live) P p (fun _ => P) (fun _ => P) := by
  refine .of_only hp hP (fun β o w ho h => ?_) fun β o w r w' ho h hstep => ?_
  · obtain ⟨keep, hchosen, hholds⟩ := hw w h
    exact ⟨keep, hchosen, hholds, hneeds keep β o w ho h⟩
  · cases hstep with
    | done => exact hP _ _ (hA β o w ho) h
    | fails => exact h
    | failsLate => exact hP _ _ (hA β o w ho) h

/-- One that signals the process of a descriptor as well, which has been opened. -/
theorem triple_attempts {fd : PidFd} {p : Script Op Err α} (hp : p.Only fun _ o => o.attemptsWith fd)
    (hP : Stable (system pool) P) (hopened : ∀ w, P w → fd.pid ∈ w.opened)
    (hw : ∀ w, P w → Underway pool desired live w) :
    Triple (system pool) (guard pool desired live) P p (fun _ => P) (fun _ => P) := by
  refine triple_only hp hP (fun β o w ho => exec_rely ho w) (fun keep β o w ho h => ?_) hw
  cases o with
  | send fd' signal =>
    cases ho
    exact hopened w h
  | pidfdOpen pid => exact ho.elim
  | stopUnit _ | startUnit _ | daemonReload | exhausted => cases ho
  | _ => trivial

theorem triple_reads {p : Script Op Err α} (hp : p.Only fun _ o => o.reads = true) (hP : Stable (system pool) P)
    (hw : ∀ w, P w → Underway pool desired live w) :
    Triple (system pool) (guard pool desired live) P p (fun _ => P) (fun _ => P) := by
  refine triple_only hp hP (fun β o w ho => exec_rely (Op.attemptsWith_of_reads ho : o.attemptsWith ⟨0, 0⟩) w)
    (fun keep β o w ho _ => ?_) hw
  cases o <;> trivial

/-- A file of a marker is unlinked, or was missing. -/
theorem triple_discard {unit : String} (hP : Stable (system pool) P) (hQ : Stable (system pool) Q)
    (hgone : ∀ w, P w → Q { w with files := Function.update w.files (pool.marker unit) none })
    (hmissing : ∀ w, P w → w.files (pool.marker unit) = none → Q w) (hPw : ∀ w, P w → Underway pool desired live w)
    (hQw : ∀ w, Q w → Underway pool desired live w) :
    Triple (system pool) (guard pool desired live) P (discard (pool.marker unit)) (fun _ => Q)
      (fun _ => Underway pool desired live) := by
  have hunder : Stable (system pool) (Underway pool desired live) := stable_underway
  have hcases : ∀ w, w.files (pool.marker unit) = none ∧ exec (.unlink (pool.marker unit)) w = (.error .fileNotFound, w) ∨
      exec (.unlink (pool.marker unit)) w =
        (.ok (), { w with files := Function.update w.files (pool.marker unit) none }) := by
    intro w
    cases hfile : w.files (pool.marker unit) with
    | none => exact .inl ⟨rfl, by simp only [exec, hfile]⟩
    | some text => exact .inr (by simp only [exec, hfile])
  have hunlink : Triple (system pool) (guard pool desired live) P (perform (.unlink (pool.marker unit))) (fun _ => Q)
      (fun e w => if e = .fileNotFound then Q w else Underway pool desired live w) := by
    refine .perform hP (fun w h => ?_) (fun w _ w' h hstep => ?_) (fun w e w' h hstep => ?_) (fun _ => hQ) fun e => ?_
    · obtain ⟨keep, hchosen, hholds⟩ := hPw w h
      exact ⟨keep, hchosen, hholds, trivial⟩
    · have hok : exec (.unlink (pool.marker unit)) w = (.ok (), w') := hstep.ok
      rcases hcases w with ⟨-, herror⟩ | hdone
      · cases hok.symm.trans herror
      · cases hok.symm.trans hdone
        exact hgone w h
    · rcases hstep.error with ⟨rfl, hhow⟩ | ⟨rfl, hfails⟩
      · show if e = .fileNotFound then Q (exec (.unlink (pool.marker unit)) w).2 else
          Underway pool desired live (exec (.unlink (pool.marker unit)) w).2
        rcases hcases w with ⟨hnone, herror⟩ | hdone
        · rw [herror]
          split
          · exact hmissing w h hnone
          · exact hPw w h
        · rw [hdone]
          split
          · exact hgone w h
          · exact hQw _ (hgone w h)
      · rw [if_neg (show e ≠ .fileNotFound from hfails)]
        exact hPw w' h
    · split
      · exact hQ
      · exact hunder
  refine hunlink.rescue (fun _ => hQ) fun e => ?_
  by_cases he : e = .fileNotFound
  · simp only [if_pos he]
    exact .pure hQ fun w h => h
  · simp only [if_neg he]
    exact .raise hunder fun w h => h

/-- An operation that is done whatever becomes of it, or not at all. -/
theorem triple_done {o : Op β} (hP : Stable (system pool) P)
    (hQ : Stable (system pool) Q) (hdone : ∀ w, P w → Q (exec o w).2)
    (hneeds : ∀ keep w, P w → Needs pool live keep β o w) (hPw : ∀ w, P w → Underway pool desired live w)
    (hQw : ∀ w, Q w → Underway pool desired live w) :
    Triple (system pool) (guard pool desired live) P (perform o) (fun _ => Q) (fun _ => Underway pool desired live) := by
  refine .perform hP (fun w h => ?_) (fun w b w' h hstep => ?_) (fun w e w' h hstep => ?_) (fun _ => hQ)
    fun _ => stable_underway
  · obtain ⟨keep, hchosen, hholds⟩ := hPw w h
    exact ⟨keep, hchosen, hholds, hneeds keep w h⟩
  · obtain rfl : w' = (exec o w).2 := (congrArg Prod.snd hstep.ok).symm
    exact hdone w h
  · rcases hstep.error with ⟨rfl, -⟩ | ⟨rfl, -⟩
    · exact hQw _ (hdone w h)
    · exact hPw w' h

end Operations

/-! ## The surplus -/

section Surplus

variable {pool : Pool} {desired : ℕ} {live done : List Worker} {keep : List String} {w : World} {worker : Worker}

theorem Begun.underway (hchosen : Chosen desired live keep) (h : Begun pool keep done w) : Underway pool desired live w :=
  ⟨keep, hchosen, h.holds⟩

theorem Retiring.underway (hchosen : Chosen desired live keep) (h : Retiring pool desired live keep done w) :
    Underway pool desired live w := ⟨keep, hchosen, h.holds⟩

/-- Markers only go, so that none is there that was not. -/
theorem unmarked_update {unit : String} (h : Unmarked pool worker w) :
    Unmarked pool worker { w with files := Function.update w.files (pool.marker unit) none } := by
  intro other hother
  by_cases hsame : other = unit
  · rw [hsame]
    exact Function.update_self _ _ _
  · exact (Function.update_of_ne (fun hpath => hsame (marker_inj hpath)) _ _).trans (h other hother)

theorem Begun.snoc (h : Begun pool keep done w) (hworker : worker.workerId ∈ keep → Unmarked pool worker w) :
    Begun pool keep (done ++ [worker]) w := by
  refine ⟨h.started, h.opened, fun other hother hkeep => ?_⟩
  rcases List.mem_append.1 hother with hold | hnew
  · exact h.unmarked other hold hkeep
  · obtain rfl := List.mem_singleton.1 hnew
    exact hworker hkeep

/-- **No worker that stays keeps a marker.** -/
theorem triple_releaseKept (hchosen : Chosen desired live keep) (workers : List Worker) :
    Triple (system pool) (guard pool desired live) (Begun pool keep done) (releaseKept pool keep workers)
      (fun _ => Begun pool keep (done ++ workers)) (fun _ => Underway pool desired live) := by
  induction workers generalizing done with
  | nil =>
    rw [List.append_nil]
    exact .pure stable_begun fun w h => h
  | cons worker rest ih =>
    have hrest := @ih (done ++ [worker])
    rw [List.append_assoc, List.singleton_append] at hrest
    unfold releaseKept
    split
    · refine Triple.bind (R := fun _ => Begun pool keep (done ++ [worker])) ?_ fun _ => hrest
      cases hunit : pool.unitFor worker with
      | none =>
        refine .pure stable_begun fun w h => h.snoc fun _ unit hmine => ?_
        cases hunit.symm.trans hmine
      | some unit =>
        have hsame : ∀ unit' ∈ pool.unitFor worker, unit' = unit := fun unit' h => Option.some.inj (h.symm.trans hunit)
        refine triple_discard stable_begun stable_begun (fun w h => ?_) (fun w h hnone => ?_)
          (fun w h => h.underway hchosen) fun w h => h.underway hchosen
        · refine Begun.snoc ⟨h.started, h.opened, fun other hother hkeep => ?_⟩ fun _ unit' hunit' => ?_
          · exact unmarked_update (h.unmarked other hother hkeep)
          · rw [hsame unit' hunit']
            exact Function.update_self _ _ _
        · refine h.snoc fun _ unit' hunit' => ?_
          rw [hsame unit' hunit']
          exact hnone
    · rename_i hout
      exact hrest.pre fun w h => h.snoc fun hkeep => absurd hkeep hout

theorem marked_update {unit : String} (h : Marked pool worker w) :
    Marked pool worker { w with files := Function.update w.files (pool.marker unit) (some markerText) } := by
  intro other hother
  by_cases hsame : other = unit
  · rw [hsame]
    exact Function.update_self _ _ _
  · exact (Function.update_of_ne (fun hpath => hsame (marker_inj hpath)) _ _).trans (h other hother)

theorem Retiring.snoc (h : Retiring pool desired live keep done w) (hworker : Marked pool worker w) :
    Retiring pool desired live keep (done ++ [worker]) w := by
  refine ⟨h.holds, h.unmarked, fun other hother hkeep => ?_⟩
  rcases List.mem_append.1 hother with hold | hnew
  · exact h.marked other hold hkeep
  · obtain rfl := List.mem_singleton.1 hnew
    exact hworker

theorem Retiring.skip (h : Retiring pool desired live keep done w) (hworker : worker.workerId ∈ keep) :
    Retiring pool desired live keep (done ++ [worker]) w := by
  refine ⟨h.holds, h.unmarked, fun other hother hkeep => ?_⟩
  rcases List.mem_append.1 hother with hold | hnew
  · exact h.marked other hold hkeep
  · exact absurd (List.mem_singleton.1 hnew ▸ hworker) hkeep

/-- A marker that is written marks its worker and no worker that stays. -/
theorem triple_mark (hchosen : Chosen desired live keep) (hkeep : worker.workerId ∉ keep) :
    Triple (system pool) (guard pool desired live) (Retiring pool desired live keep done)
      (mark pool (pool.unitFor worker)) (fun _ => Retiring pool desired live keep (done ++ [worker]))
      (fun _ => Underway pool desired live) := by
  cases hunit : pool.unitFor worker with
  | none => exact .pure stable_retiring fun w h => h.snoc fun unit hmine => nomatch (hunit ▸ hmine : unit ∈ none)
  | some unit =>
    refine triple_done stable_retiring stable_retiring (fun w h => ?_) (fun _ _ _ => trivial)
      (fun w h => h.underway hchosen) fun w h => h.underway hchosen
    refine Retiring.snoc ⟨⟨h.holds.bounded, fun pid hpid => ?_⟩, fun other hother hstays => ?_, fun other hother hout => ?_⟩
      fun unit' hunit' => ?_
    · obtain ⟨other, hother, hsame, hout, hmarked⟩ := h.holds.opened pid hpid
      exact ⟨other, hother, hsame, hout, marked_update hmarked⟩
    · intro unit' hunit'
      have hne : unit' ≠ unit := by
        rintro rfl
        have hnames := (unitFor_eq hunit').symm.trans (unitFor_eq hunit)
        exact hkeep (unitOf_inj hnames ▸ hstays)
      exact (Function.update_of_ne (fun hpath => hne (marker_inj hpath)) _ _).trans
        (h.unmarked other hother hstays unit' hunit')
    · exact marked_update (h.marked other hother hout)
    · rw [Option.some.inj (hunit'.symm.trans hunit)]
      exact Function.update_self _ _ _

/-- What an attempt does with its descriptor. -/
theorem attempt_only (settings : Settings) (worker : Worker) (generation : ℕ) (fd : PidFd) :
    (holdFrozen (steps settings worker) worker.pid generation fd).Only fun _ o => o.attemptsWith fd := by
  have hreads : ∀ {β} (o : Op β), o.reads = true → o.attemptsWith fd := fun o ho => Op.attemptsWith_of_reads ho
  have hidentity : (steps settings worker).identity.Only fun _ o => o.attemptsWith fd := processIdentity_only hreads ..
  refine holdFrozen_only (fun o ho => ho) hidentity (fun generation => ?_) (.perform rfl) _ _
  refine .bind (workers_only hreads settings true) fun found => ?_
  split
  · trivial
  refine .bind (.ofExcept _) fun b => ?_
  split
  · trivial
  refine .bind hidentity fun again => ?_
  split
  · trivial
  split
  · trivial
  · exact .bind (unitInfo_only hreads _) fun info => trivial

/-- **An attempt to stop a worker of the surplus opens and signals that worker alone.** -/
theorem triple_stopIdle (hchosen : Chosen desired live keep) (hlive : worker ∈ live) (hkeep : worker.workerId ∉ keep)
    (hdone : worker ∈ done) :
    Triple (system pool) (guard pool desired live) (Retiring pool desired live keep done)
      (stopIdle pool.toSettings worker) (fun _ => Retiring pool desired live keep done)
      (fun _ => Underway pool desired live) := by
  have hstable : Stable (system pool) (Retiring pool desired live keep done) := stable_retiring
  have hunder : ∀ w, Retiring pool desired live keep done w → Underway pool desired live w := fun w h => h.underway hchosen
  have hlook : ∀ {α} {p : Script Op Err α}, p.Only (fun _ o => o.reads = true) →
      Triple (system pool) (guard pool desired live) (Retiring pool desired live keep done) p
        (fun _ => Retiring pool desired live keep done) (fun _ => Underway pool desired live) :=
    fun hp => (triple_reads hp hstable hunder).weaken (fun _ h => h) (fun _ _ h => h) fun _ => hunder
  refine (hlook (.ofExcept _)).bind fun b => ?_
  split
  · exact .pure hstable fun w h => h
  refine (hlook (processIdentity_only (fun _ ho => ho) _ _)).bind fun generation => ?_
  have hopen : Triple (system pool) (guard pool desired live) (Retiring pool desired live keep done)
      (perform (.pidfdOpen worker.pid))
      (fun fd w => fd.pid = worker.pid ∧ Retiring pool desired live keep done w ∧ worker.pid ∈ w.opened)
      (fun _ => Underway pool desired live) := by
    have hopened : ∀ w, Retiring pool desired live keep done w →
        Retiring pool desired live keep done (exec (.pidfdOpen worker.pid) w).2 ∧
          worker.pid ∈ (exec (.pidfdOpen worker.pid) w).2.opened := by
      intro w h
      obtain ⟨seen, hnoted⟩ := noted_eq { w with opened := worker.pid :: w.opened } (w.machine.pidfdOpen worker.pid)
        fun fd => .opened fd w.machine
      show Retiring pool desired live keep done (noted _ _ _).2 ∧ worker.pid ∈ (noted _ _ _).2.opened
      rw [hnoted]
      refine ⟨⟨⟨h.holds.bounded, fun pid hpid => ?_⟩, h.unmarked, h.marked⟩, List.mem_cons_self⟩
      rcases List.mem_cons.1 hpid with rfl | hold
      · exact ⟨worker, hlive, rfl, hkeep, h.marked worker hdone hkeep⟩
      · exact h.holds.opened pid hold
    refine .perform hstable (fun w h => ?_) (fun w fd w' h hstep => ?_) (fun w e w' h hstep => ?_)
      (fun fd => (Stable.const _).and (hstable.and fun w w' hr h => hr.opened ▸ h)) fun _ => stable_underway
    · exact ⟨keep, hchosen, h.holds, worker, hlive, rfl, hkeep, h.marked worker hdone hkeep⟩
    · have hexec : exec (.pidfdOpen worker.pid) w = (.ok fd, w') := hstep.ok
      obtain rfl : (exec (.pidfdOpen worker.pid) w).2 = w' := congrArg Prod.snd hexec
      exact ⟨pidfdOpen_pid (noted_ok (congrArg Prod.fst hexec)).1, hopened w h⟩
    · rcases hstep.error with ⟨rfl, -⟩ | ⟨rfl, -⟩
      · exact hunder _ (hopened w h).1
      · exact hunder w' h
  refine hopen.bind fun fd => ?_
  by_cases hpid : fd.pid = worker.pid
  swap
  · exact fun w h => absurd h.1 hpid
  refine (triple_attempts (attempt_only _ worker generation fd)
    (hstable.and fun w w' hr h => hr.opened ▸ h) (fun w h => h.2) fun w h => hunder w h.1).weaken
    (fun w h => ⟨h.2.1, hpid ▸ h.2.2⟩) (fun _ w h => h.1) fun _ w h => hunder w h.1

/-- **The surplus is retired one by one**, each behind its marker, and what is returned is of it. -/
theorem triple_shrink (hchosen : Chosen desired live keep) (workers : List Worker)
    (hlive : ∀ worker ∈ workers, worker ∈ live) :
    Triple (system pool) (guard pool desired live) (Retiring pool desired live keep done) (shrink pool keep workers)
      (fun pending w => Retiring pool desired live keep (done ++ workers) w ∧
        ∀ name ∈ pending, ∃ worker ∈ live, worker.workerId = name ∧ name ∉ keep)
      (fun _ => Underway pool desired live) := by
  have hpending : ∀ done, ∀ pending : List String, Stable (system pool) (fun w =>
      Retiring pool desired live keep done w ∧ ∀ name ∈ pending, ∃ worker ∈ live, worker.workerId = name ∧ name ∉ keep) :=
    fun done pending => stable_retiring.and (.const _)
  induction workers generalizing done with
  | nil =>
    rw [List.append_nil]
    exact .pure stable_retiring fun w h => ⟨h, fun name hname => nomatch hname⟩
  | cons worker rest ih =>
    have hrest := @ih (done ++ [worker]) fun other hother => hlive other (List.mem_cons_of_mem _ hother)
    rw [List.append_assoc, List.singleton_append] at hrest
    unfold shrink
    split
    · rename_i hkeep
      exact hrest.pre fun w h => h.skip hkeep
    · rename_i hkeep
      refine (triple_mark hchosen hkeep).bind fun _ => ?_
      refine (triple_stopIdle hchosen (hlive worker List.mem_cons_self) hkeep
        (List.mem_append_right _ (List.mem_singleton.2 rfl))).bind fun stopped => ?_
      refine hrest.bind fun pending => .pure (hpending _ pending) fun w h => ⟨h.1, ?_⟩
      split
      · exact h.2
      · intro name hname
        rcases List.mem_cons.1 hname with rfl | hold
        · exact ⟨worker, hlive worker List.mem_cons_self, rfl, hkeep⟩
        · exact h.2 name hold

end Surplus

/-! ## The missing workers -/

section Missing

variable {pool : Pool} {desired : ℕ} {live : List Worker} {keep : List String} {w : World}
variable {ready : List String} {running : List (String × ℕ)} {all : List String}

/-- So many jobs are left, with these seeds, and these names are taken. -/
structure Growing (pool : Pool) (desired : ℕ) (live : List Worker) (keep ready all : List String) (jobs : ℕ)
    (seeds taken : List String) (w : World) : Prop where
  demanded : w.demanded = some ready
  bounded : Bounded pool desired live w.demanded w.started
  opened : w.opened = []
  unmarked : ∀ worker ∈ live, worker.workerId ∈ keep → Unmarked pool worker w
  room : w.started.length + jobs ≤ desired - live.length
  listed : w.started.length + jobs ≤ ready.length
  names : taken.map unitOf = (w.started.map slot).reverse ++ live.map fun worker => unitOf worker.workerId
  seeds : ownRoutes pool w.started ++ seeds <+: all

variable {jobs : ℕ} {seeds seeds' taken : List String}

theorem Growing.holds (h : Growing pool desired live keep ready all jobs seeds taken w) :
    Holds pool desired live keep w := ⟨h.bounded, fun pid hpid => nomatch (h.opened ▸ hpid : pid ∈ [])⟩

theorem Growing.underway (hchosen : Chosen desired live keep)
    (h : Growing pool desired live keep ready all jobs seeds taken w) : Underway pool desired live w :=
  ⟨keep, hchosen, h.holds⟩

theorem stable_growing : Stable (system pool) (Growing pool desired live keep ready all jobs seeds taken) := by
  intro w w' hr h
  obtain ⟨hdemanded, hbounded, hopened, hunmarked, hroom, hlisted, hnames, hseeds⟩ := h
  rw [← hr.started] at hbounded hroom hlisted hnames hseeds
  rw [← hr.demanded] at hdemanded hbounded
  exact ⟨hdemanded, hbounded, hr.opened.trans hopened,
    fun worker hworker hkeep => hr.unmarked (hunmarked worker hworker hkeep), hroom, hlisted, hnames, hseeds⟩

theorem Growing.unlink {unit : String} (h : Growing pool desired live keep ready all jobs seeds taken w) :
    Growing pool desired live keep ready all jobs seeds taken
      { w with files := Function.update w.files (pool.marker unit) none } :=
  ⟨h.demanded, h.bounded, h.opened, fun worker hworker hkeep => unmarked_update (h.unmarked worker hworker hkeep), h.room,
    h.listed, h.names, h.seeds⟩

/-- A job for which nothing is started. -/
theorem Growing.skip (h : Growing pool desired live keep ready all (jobs + 1) seeds taken w) :
    Growing pool desired live keep ready all jobs seeds taken w :=
  ⟨h.demanded, h.bounded, h.opened, h.unmarked, (Nat.le_succ _).trans h.room, (Nat.le_succ _).trans h.listed, h.names,
    h.seeds⟩

/-- A job for which a new worker is started. -/
theorem Growing.start {s : Started} {name : String} (hrunning : runningAt pool live = .ok running)
    (hall : ReadyBeads.seedOrder pool.resolve ready running = .ok all) (hname : name ∉ taken)
    (hslot : slot s = unitOf name) (hknown : Known pool s) (hroutes : ownRoutes pool [s] ++ seeds' = seeds)
    (h : Growing pool desired live keep ready all (jobs + 1) seeds taken w) :
    Growing pool desired live keep ready all jobs seeds' (name :: taken) { w with started := w.started ++ [s] } := by
  have hout : unitOf name ∉ (w.started.map slot).reverse ++ live.map fun worker => unitOf worker.workerId := by
    rw [← h.names]
    intro hmem
    obtain ⟨other, hother, hsame⟩ := List.mem_map.1 hmem
    exact hname (unitOf_inj hsame ▸ hother)
  rw [List.mem_append, not_or, List.mem_reverse] at hout
  have hown : ownRoutes pool (w.started ++ [s]) = ownRoutes pool w.started ++ ownRoutes pool [s] :=
    List.filterMap_append
  have hprefix : ownRoutes pool (w.started ++ [s]) ++ seeds' <+: all := by
    rw [hown, List.append_assoc, hroutes]
    exact h.seeds
  have hlength : (w.started ++ [s]).length = w.started.length + 1 := List.length_append
  have hroom := h.room
  have hlisted := h.listed
  have hmore : (w.started ++ [s]).length ≤ ready.length := by omega
  refine ⟨h.demanded, ⟨?_, ?_, ?_, ?_, ?_⟩, h.opened, h.unmarked, ?_, ?_, ?_, hprefix⟩
  · show (w.started ++ [s]).length ≤ _
    omega
  · rw [List.map_append, List.nodup_append']
    refine ⟨h.bounded.nodup, List.nodup_singleton _, ?_⟩
    rw [List.map_singleton, List.disjoint_singleton, hslot]
    exact hout.1
  · intro t ht worker hworker
    rcases List.mem_append.1 ht with hold | hnew
    · exact h.bounded.fresh t hold worker hworker
    · rw [List.mem_singleton.1 hnew, hslot]
      exact fun hsame => hout.2 (List.mem_map.2 ⟨worker, hworker, hsame.symm⟩)
  · intro t ht
    rcases List.mem_append.1 ht with hold | hnew
    · exact h.bounded.known t hold
    · exact List.mem_singleton.1 hnew ▸ hknown
  · exact fun _ => ⟨ready, running, all, h.demanded, hrunning, hall, (List.prefix_append _ _).trans hprefix, hmore⟩
  · show (w.started ++ [s]).length + jobs ≤ _
    omega
  · show (w.started ++ [s]).length + jobs ≤ _
    omega
  · show (name :: taken).map unitOf = ((w.started ++ [s]).map slot).reverse ++ _
    rw [List.map_cons, h.names, List.map_append, List.reverse_append, List.map_singleton, hslot]
    rfl

theorem ownRoutes_session (launch : Launch) : ownRoutes pool [.session launch] =
    if startsWith launch.name pool.ownPrefix then [launch.workspace] else [] := by
  unfold ownRoutes ownRoute
  by_cases hown : startsWith launch.name pool.ownPrefix
  · simp [hown]
  · simp [hown]

/-- What a session is started with. -/
structure Launches (pool : Pool) (binary : String) (entry : Option Adopted) (seeds taken : List String) (name route : String)
    (seeds' : List String) : Prop where
  found : routeFor entry seeds = some (route, seeds')
  length : seeds.length ≤ seeds'.length + 1
  fresh : name ∉ taken
  known : Known pool (.session (launchOf binary (entry.elim pool.agent Adopted.agent) route name))
  routes : ownRoutes pool [.session (launchOf binary (entry.elim pool.agent Adopted.agent) route name)] ++ seeds' = seeds

theorem launches_own {number : ℕ} (binary : String) (hseeds : 0 < seeds.length)
    (hfree : pool.ownPrefix ++ toString number ∉ taken) :
    ∃ route seeds', Launches pool binary none seeds taken (pool.ownPrefix ++ toString number) route seeds' := by
  obtain ⟨route, seeds', rfl⟩ := List.exists_cons_of_length_pos hseeds
  have hown := startsWith_append pool.ownPrefix (toString number)
  refine ⟨route, seeds', rfl, Nat.le_refl _, hfree, ⟨⟨binary, rfl⟩, .inl ⟨hown, rfl⟩⟩, ?_⟩
  rw [ownRoutes_session]
  exact congrArg (· ++ seeds') (if_pos hown)

theorem launches_adopted {adopted : Adopted} (binary : String) (hadopted : adopted ∈ pool.adopted)
    (hunit : adopted.unit = none) (hfree : adopted.workerId ∉ taken) :
    Launches pool binary (some adopted) seeds taken adopted.workerId adopted.workspace seeds := by
  refine ⟨rfl, Nat.le_succ _, hfree, ⟨⟨binary, rfl⟩, .inr ⟨adopted, hadopted, hunit, rfl, rfl, rfl⟩⟩, ?_⟩
  rw [ownRoutes_session]
  exact congrArg (· ++ seeds) (if_neg (pool.foreign adopted hadopted))

/-- An adopted slot without a unit, or one of the pool's own, with a free name. -/
theorem triple_launch (hchosen : Chosen desired live keep) (hrunning : runningAt pool live = .ok running)
    (hall : ReadyBeads.seedOrder pool.resolve ready running = .ok all) (entry : Option Adopted)
    (hentry : ∀ adopted ∈ entry, adopted ∈ pool.adopted ∧ adopted.unit = none ∧ adopted.workerId ∉ taken)
    (hseeds : jobs + 1 ≤ seeds.length) (htaken : taken.length + (jobs + 1) ≤ pool.maxWorkers) :
    Triple (system pool) (guard pool desired live) (Growing pool desired live keep ready all (jobs + 1) seeds taken)
      (launch pool entry seeds taken)
      (fun r w => (Growing pool desired live keep ready all jobs r.2 (r.1 :: taken) w ∧ jobs ≤ r.2.length) ∧
        ∀ adopted ∈ entry, r.1 = adopted.workerId)
      (fun _ => Underway pool desired live) := by
  have hfewer : taken.length < pool.maxWorkers := by omega
  obtain ⟨number, hnumber, hfree⟩ := freeNumber_isSome hfewer
  unfold launch
  rw [hnumber]
  dsimp only
  refine ((triple_reads (.perform rfl) stable_growing fun w h => h.underway hchosen).weaken (fun _ h => h)
    (fun _ _ h => h) fun _ w h => h.underway hchosen).bind fun binary => ?_
  cases binary with
  | none => exact .raise stable_growing fun w h => h.underway hchosen
  | some binary =>
    have hlaunches : ∃ route seeds', Launches pool binary entry seeds taken
        (entry.elim (pool.ownPrefix ++ toString number) Adopted.workerId) route seeds' := by
      cases entry with
      | none => exact launches_own binary (by omega) hfree
      | some adopted =>
        obtain ⟨hadopted, hunit, hout⟩ := hentry adopted rfl
        exact ⟨_, _, launches_adopted binary hadopted hunit hout⟩
    obtain ⟨route, seeds', hl⟩ := hlaunches
    have hname : ∀ adopted ∈ entry, entry.elim (pool.ownPrefix ++ toString number) Adopted.workerId = adopted.workerId := by
      rintro adopted ⟨⟩
      rfl
    have hlength := hl.length
    rw [hl.found]
    have hjobs : jobs ≤ seeds'.length := by omega
    refine (triple_done (o := .newSession (launchOf binary (entry.elim pool.agent Adopted.agent) route
      (entry.elim (pool.ownPrefix ++ toString number) Adopted.workerId)))
      (Q := Growing pool desired live keep ready all jobs seeds'
        (entry.elim (pool.ownPrefix ++ toString number) Adopted.workerId :: taken)) stable_growing stable_growing
      (fun w h => h.start hrunning hall hl.fresh rfl hl.known hl.routes) (fun _ _ _ => trivial)
      (fun w h => h.underway hchosen) fun w h => h.underway hchosen).bind fun _ => ?_
    exact .pure stable_growing fun w h => ⟨⟨h, hjobs⟩, hname⟩

/-- **Each job starts one worker at most**, and there is a slot and a seed for each. -/
theorem triple_grow (hchosen : Chosen desired live keep) (hrunning : runningAt pool live = .ok running)
    (hall : ReadyBeads.seedOrder pool.resolve ready running = .ok all) (jobs : ℕ) (entries : List Adopted)
    (seeds taken : List String) (hentries : ∀ entry ∈ entries, entry ∈ pool.adopted ∧ entry.workerId ∉ taken)
    (hnodup : (entries.map Adopted.workerId).Nodup) (hseeds : jobs ≤ seeds.length)
    (htaken : taken.length + jobs ≤ pool.maxWorkers) :
    Triple (system pool) (guard pool desired live) (Growing pool desired live keep ready all jobs seeds taken)
      (grow pool jobs entries seeds taken)
      (fun _ w => ∃ seeds taken, Growing pool desired live keep ready all 0 seeds taken w)
      (fun _ => Underway pool desired live) := by
  induction jobs generalizing entries seeds taken with
  | zero =>
    refine .pure stable_growing fun w h => ⟨seeds, taken, h⟩
  | succ jobs ih =>
    -- a session is started, for the first of the slots if there is one
    have hsession : ∀ entry : Option Adopted, (∀ adopted ∈ entry, adopted ∈ pool.adopted ∧ adopted.unit = none ∧
        adopted.workerId ∉ taken) → (∀ other ∈ entries.tail, other ∈ pool.adopted ∧ other.workerId ∉ taken) →
        (∀ adopted ∈ entry, ∀ other ∈ entries.tail, other.workerId ≠ adopted.workerId) →
        (entry = none → entries.tail = []) →
        Triple (system pool) (guard pool desired live) (Growing pool desired live keep ready all (jobs + 1) seeds taken)
          (launch pool entry seeds taken >>= fun r => grow pool jobs entries.tail r.2 (r.1 :: taken))
          (fun _ w => ∃ seeds taken, Growing pool desired live keep ready all 0 seeds taken w)
          (fun _ => Underway pool desired live) := by
      intro entry hentry htail hother hnone
      refine (triple_launch hchosen hrunning hall entry hentry hseeds htaken).bind fun r => ?_
      by_cases hr : jobs ≤ r.2.length ∧ ∀ adopted ∈ entry, r.1 = adopted.workerId
      swap
      · exact fun w h => absurd ⟨h.1.2, h.2⟩ hr
      refine (ih entries.tail r.2 (r.1 :: taken) (fun other hmem => ⟨(htail other hmem).1, ?_⟩) ?_ hr.1 ?_).pre
        fun w h => h.1.1
      · cases entry with
        | none => exact nomatch (hnone rfl ▸ hmem : other ∈ [])
        | some adopted =>
          rw [hr.2 adopted rfl]
          exact List.not_mem_cons_of_ne_of_not_mem (hother adopted rfl other hmem) (htail other hmem).2
      · exact hnodup.sublist ((List.tail_sublist entries).map _)
      · rw [List.length_cons]
        omega
    unfold grow
    cases entries with
    | nil =>
      exact hsession none (fun _ h => nomatch h) (fun _ h => nomatch h) (fun _ h => nomatch h) fun _ => rfl
    | cons entry rest =>
      obtain ⟨hadopted, hout⟩ := hentries entry List.mem_cons_self
      have hrest : ∀ other ∈ rest, other ∈ pool.adopted ∧ other.workerId ∉ taken :=
        fun other h => hentries other (List.mem_cons_of_mem _ h)
      rw [List.map_cons, List.nodup_cons] at hnodup
      have hother : ∀ other ∈ rest, other.workerId ≠ entry.workerId :=
        fun other h hsame => hnodup.1 (List.mem_map.2 ⟨other, h, hsame⟩)
      cases hunit : entry.unit with
      | none =>
        simp only [List.head?_cons, Option.bind_some, hunit, Option.map_none]
        refine hsession (some entry) (fun adopted h => ?_) hrest (fun adopted h => ?_) fun h => nomatch h
        · obtain rfl := Option.some.inj h
          exact ⟨hadopted, hunit, hout⟩
        · obtain rfl := Option.some.inj h
          exact hother
      | some unit =>
        simp only [List.head?_cons, Option.bind_some, hunit, Option.map_some]
        refine ((triple_reads (unitInfo_only (fun _ h => h) unit) stable_growing fun w h => h.underway hchosen).weaken
          (fun _ h => h) (fun _ _ h => h) fun _ w h => h.underway hchosen).bind fun info => ?_
        split
        · exact (ih rest seeds taken hrest hnodup.2 (by omega) (by omega)).pre fun w h => h.skip
        have hgone : Stable (system pool) (fun w => Growing pool desired live keep ready all (jobs + 1) seeds taken w ∧
            w.files (pool.marker unit) = none) := stable_growing.and fun w w' hr h => (hr.markers unit).trans h
        refine (triple_discard stable_growing hgone (fun w h => ⟨h.unlink, Function.update_self _ _ _⟩)
          (fun w h hnone => ⟨h, hnone⟩) (fun w h => h.underway hchosen) fun w h => h.1.underway hchosen).bind fun _ => ?_
        have hslot : slot (.unit unit) = unitOf entry.workerId := pool.units entry hadopted unit hunit
        refine (triple_done (o := .startUnit unit)
          (Q := Growing pool desired live keep ready all jobs seeds (entry.workerId :: taken)) hgone
          stable_growing (fun w h => h.1.start hrunning hall hout hslot ⟨entry, hadopted, hunit⟩ rfl)
          (fun _ w h => h.2) (fun w h => h.1.underway hchosen) fun w h => h.underway hchosen).bind fun _ => ?_
        refine ih rest seeds (entry.workerId :: taken) (fun other h => ⟨(hrest other h).1, ?_⟩) hnodup.2 (by omega) ?_
        · exact List.not_mem_cons_of_ne_of_not_mem (hother other h) (hrest other h).2
        · rw [List.length_cons]
          omega

theorem candidates_only (taken : List String) (entries : List Adopted) :
    (candidates taken entries).Only fun _ o => o.reads = true := by
  induction entries with
  | nil => trivial
  | cons entry rest ih =>
    unfold candidates
    split
    · exact ih
    cases entry.unit with
    | none => exact .bind ih fun others => trivial
    | some unit => exact .bind (unitInfo_only (fun _ h => h) unit) fun info => .bind ih fun others => trivial

theorem candidates_free (taken : List String) (entries : List Adopted) :
    (candidates taken entries).Yields fun found => found.Sublist entries ∧ ∀ entry ∈ found, entry.workerId ∉ taken := by
  induction entries with
  | nil => exact ⟨.slnil, fun entry h => nomatch h⟩
  | cons entry rest ih =>
    unfold candidates
    split
    · exact ih.mono fun found h => ⟨h.1.cons entry, h.2⟩
    rename_i hfree
    have hmore : ∀ found : List Adopted, found.Sublist rest ∧ (∀ entry ∈ found, entry.workerId ∉ taken) →
        (entry :: found).Sublist (entry :: rest) ∧ ∀ other ∈ entry :: found, other.workerId ∉ taken := by
      refine fun found h => ⟨h.1.cons_cons entry, fun other hother => ?_⟩
      rcases List.mem_cons.1 hother with rfl | hold
      · exact hfree
      · exact h.2 other hold
    cases entry.unit with
    | none => exact .bind ih fun others h => hmore others h
    | some unit =>
      refine .bind (Script.yields_true _) fun info _ => .bind ih fun others h => ?_
      split
      · exact ⟨h.1.cons entry, h.2⟩
      · exact hmore others h

/-- **The missing workers are started**, of so many jobs and no more. -/
theorem triple_expand (hchosen : Chosen desired live keep) (hdesired : desired ≤ pool.maxWorkers)
    (hless : live.length < desired) :
    Triple (system pool) (guard pool desired live) (Begun pool keep live) (expand pool (desired - live.length) live)
      (fun _ w => Holds pool desired live keep w ∧ ∀ worker ∈ live, worker.workerId ∈ keep → Unmarked pool worker w)
      (fun _ => Underway pool desired live) := by
  have hunder : ∀ w, Begun pool keep live w → Underway pool desired live w := fun w h => h.underway hchosen
  have hread : ∀ ready, Stable (system pool) (fun w => Begun pool keep live w ∧ w.demanded = some ready) :=
    fun ready => stable_begun.and fun w w' hr h => hr.demanded.trans h
  refine Triple.bind (R := fun ready w => Begun pool keep live w ∧ w.demanded = some ready) ?_ fun ready => ?_
  · refine .perform stable_begun (fun w h => ⟨keep, hchosen, h.holds, trivial⟩) (fun w ready w' h hstep => ?_)
      (fun w e w' h hstep => ?_) hread fun _ => stable_underway
    · obtain ⟨hready, rfl⟩ := Prod.mk.inj (show exec .readyJobs w = _ from hstep.ok)
      exact ⟨⟨h.started, h.opened, h.unmarked⟩, congrArg some (Except.ok.inj hready)⟩
    · rcases hstep.error with ⟨rfl, -⟩ | ⟨rfl, -⟩
      · exact hunder _ ⟨h.started, h.opened, h.unmarked⟩
      · exact hunder w' h
  cases hrunning : runningAt pool live with
  | error e => exact .raise (hread ready) fun w h => hunder w h.1
  | ok running =>
  obtain ⟨all, hall, hgreedy⟩ := ReadyBeads.seedOrder_greedy pool.resolve ready running
  have hlength : all.length = ready.length := by
    rw [hgreedy.perm.length_eq, List.length_map]
  show Triple _ _ _ (ofExcept ((ReadyBeads.seedOrder pool.resolve ready running).mapError fun _ => Err.value) >>=
    fun seeds => candidates (live.map Worker.workerId) pool.adopted >>= fun entries =>
      grow pool (ready.take (desired - live.length)).length entries (seeds.take (desired - live.length))
        (live.map Worker.workerId)) _ _
  rw [hall]
  show Triple _ _ _ (candidates (live.map Worker.workerId) pool.adopted >>= fun entries =>
    grow pool (ready.take (desired - live.length)).length entries (all.take (desired - live.length))
      (live.map Worker.workerId)) _ _
  refine Triple.bind (((triple_reads (candidates_only _ _) (hread ready) fun w h => hunder w h.1).weaken (fun _ h => h)
    (fun _ _ h => h) fun _ w h => hunder w h.1).yields (candidates_free _ _)) fun entries => ?_
  by_cases hentries : entries.Sublist pool.adopted ∧ ∀ entry ∈ entries, entry.workerId ∉ live.map Worker.workerId
  swap
  · exact fun w h => absurd h.1 hentries
  have hjobs : (ready.take (desired - live.length)).length ≤ desired - live.length := List.length_take_le _ _
  have hready : (ready.take (desired - live.length)).length ≤ ready.length := List.length_take_le' _ _
  refine (triple_grow hchosen hrunning hall _ entries _ _
    (fun entry h => ⟨hentries.1.subset h, hentries.2 entry h⟩) (pool.ids.sublist (hentries.1.map _)) ?_ ?_).weaken
    (fun w h => ⟨h.2.2, h.2.1.started ▸ bounded_nil _, h.2.1.opened, h.2.1.unmarked, ?_, ?_, ?_, ?_⟩)
    (fun _ w ⟨seeds, taken, h⟩ => ⟨h.holds, h.unmarked⟩) fun _ _ h => h
  · rw [List.length_take, List.length_take, hlength]
  · rw [List.length_map]
    omega
  · rwa [h.2.1.started, List.length_nil, Nat.zero_add]
  · rwa [h.2.1.started, List.length_nil, Nat.zero_add]
  · rw [h.2.1.started, List.map_map]
    rfl
  · rw [h.2.1.started]
    exact List.take_prefix _ _

/-! ## The run -/

/-- Nobody is surplus unless there are too many. -/
theorem Chosen.all_stay (hchosen : Chosen desired live keep) (hle : live.length ≤ desired) :
    ∀ worker ∈ live, worker.workerId ∈ keep := by
  obtain ⟨kept, surplus, hperm, hlength, rfl, -⟩ := hchosen
  have hnone : surplus = [] := by
    have hboth := hperm.length_eq
    rw [List.length_append] at hboth
    exact List.eq_nil_of_length_eq_zero (by omega)
  rw [hnone, List.append_nil] at hperm
  exact fun worker hworker => List.mem_map_of_mem (hperm.mem_iff.2 hworker)

theorem exists_chosen (desired : ℕ) (live : List Worker) : ∃ keep, Chosen desired live keep := by
  have hkeys : ∃ keys, List.Forall₂ (fun (worker : Worker) key => key = 0 ↔ idle worker.beat = .ok false) live keys := by
    induction live with
    | nil => exact ⟨[], .nil⟩
    | cons worker rest ih =>
      obtain ⟨keys, hkeys⟩ := ih
      by_cases hbusy : idle worker.beat = .ok false
      · exact ⟨0 :: keys, .cons ⟨fun _ => hbusy, fun _ => rfl⟩ hkeys⟩
      · exact ⟨1 :: keys, .cons ⟨fun h => (nomatch h), fun h => absurd h hbusy⟩ hkeys⟩
  obtain ⟨keys, hkeys⟩ := hkeys
  exact ⟨_, chosen_keepOf hkeys⟩

theorem stable_ends : Stable (system pool) (Ends pool desired live keep) := by
  intro w w' hr h
  exact ⟨hr.holds h.holds, fun worker hworker hkeep => hr.unmarked (h.unmarked worker hworker hkeep),
    fun worker hworker hkeep => hr.marked (h.marked worker hworker hkeep), hr.saved ▸ h.saved⟩

/-- The state is saved last, of a run that has done what it was to do. -/
theorem triple_save (hchosen : Chosen desired live keep) {pending : List String}
    (hpending : ∀ name ∈ pending, ∃ worker ∈ live, worker.workerId = name ∧ name ∉ keep) :
    Triple (system pool) (guard pool desired live) (Retiring pool desired live keep live)
      (perform (.saveState ⟨desired, pending⟩)) (fun _ => Ends pool desired live keep)
      (fun _ => Underway pool desired live) :=
  triple_done stable_retiring stable_ends
    (fun _ h => ⟨⟨h.holds.bounded, h.holds.opened⟩, h.unmarked, h.marked, pending, rfl, hpending⟩) (fun _ _ _ => trivial)
    (fun _ h => h.underway hchosen) fun _ h => ⟨keep, hchosen, h.holds⟩

theorem triple_settle (hchosen : Chosen desired live keep) (hdesired : desired ≤ pool.maxWorkers) :
    Triple (system pool) (guard pool desired live) (Begun pool keep []) (settle pool desired live keep)
      (fun _ => Ends pool desired live keep) (fun _ => Underway pool desired live) := by
  have hnone : ∀ name ∈ ([] : List String), ∃ worker ∈ live, worker.workerId = name ∧ name ∉ keep :=
    fun _ h => nomatch h
  have hmem : ∀ {worker}, worker ∈ byName live ↔ worker ∈ live := (List.perm_insertionSort _ live).mem_iff
  refine (triple_releaseKept hchosen live).bind fun _ => ?_
  rw [List.nil_append]
  split
  · have hshrink : Triple (system pool) (guard pool desired live) (Retiring pool desired live keep [])
        (shrink pool keep (byName live))
        (fun pending w => Retiring pool desired live keep (byName live) w ∧
          ∀ name ∈ pending, ∃ worker ∈ live, worker.workerId = name ∧ name ∉ keep)
        (fun _ => Underway pool desired live) := triple_shrink hchosen (byName live) fun worker h => hmem.1 h
    refine (hshrink.pre fun w h => ⟨h.holds, h.unmarked, fun _ h => nomatch h⟩).bind fun pending => ?_
    by_cases hpending : ∀ name ∈ pending, ∃ worker ∈ live, worker.workerId = name ∧ name ∉ keep
    · exact (triple_save hchosen hpending).pre fun w h =>
        ⟨h.1.holds, h.1.unmarked, fun worker hworker => h.1.marked worker (hmem.2 hworker)⟩
    · exact fun w h => absurd h.2 hpending
  have hstay := hchosen.all_stay (Nat.le_of_not_lt ‹_›)
  have hall : ∀ {w}, Holds pool desired live keep w → (∀ worker ∈ live, worker.workerId ∈ keep → Unmarked pool worker w) →
      Retiring pool desired live keep live w :=
    fun hholds hunmarked => ⟨hholds, hunmarked, fun worker hworker hout => absurd (hstay worker hworker) hout⟩
  split
  · exact (triple_expand hchosen hdesired ‹_›).bind fun _ => (triple_save hchosen hnone).pre fun w h => hall h.1 h.2
  · exact (triple_save hchosen hnone).pre fun w h => hall h.holds h.unmarked

theorem retentions_only (live : List Worker) : (retentions live).Only fun _ o => o.reads = true := by
  induction live with
  | nil => trivial
  | cons worker rest ih =>
    have hbearing : (childBearing worker).Only fun _ o => o.reads = true := by
      refine .rescue (.bind (.perform rfl) fun tasks => ?_) fun e => ?_
      · split
        · trivial
        · exact anyLiveChild_only (fun _ h => h) _ _
      · split
        · trivial
        · trivial
    refine .bind (.bind (.ofExcept _) fun b => ?_) fun key => .bind ih fun keys => trivial
    split
    · trivial
    refine .bind hbearing fun bearing => ?_
    split
    · trivial
    · trivial

/-- A run begins: it has started and opened nothing, and read no demand. -/
structure Begins (w : World) : Prop where
  started : w.started = []
  opened : w.opened = []
  demanded : w.demanded = none

/-- Who stays is chosen from what is seen, and the run settles on it. -/
theorem triple_reconcile (hdesired : desired ≤ pool.maxWorkers) :
    Triple (system pool) (guard pool desired live) Begins
      (reconcile pool desired live) (fun _ w => ∃ keep, Chosen desired live keep ∧ Ends pool desired live keep w)
      (fun _ => Underway pool desired live) := by
  have hnew : Stable (system pool) Begins :=
    fun _ _ hr h => ⟨hr.started.trans h.started, hr.opened.trans h.opened, hr.demanded.trans h.demanded⟩
  obtain ⟨some, hsome⟩ := exists_chosen desired live
  have hbegun : ∀ keep w, Begins w → Begun pool keep [] w :=
    fun _ _ h => ⟨h.started, h.opened, fun _ h => nomatch h⟩
  have hunder : ∀ w, Begins w → Underway pool desired live w := fun _ h => (hbegun some _ h).underway hsome
  have hlook := ((triple_reads (retentions_only live) hnew hunder).yields (idle_retentions live)).weaken
    (fun _ h => h) (fun _ _ h => h) fun _ => hunder
  refine hlook.bind fun keys => ?_
  by_cases hkeys : List.Forall₂ (fun (worker : Worker) key => key = 0 ↔ idle worker.beat = .ok false) live keys
  · have hchosen : Chosen desired live (keepOf desired live keys) := chosen_keepOf hkeys
    exact (triple_settle hchosen hdesired).weaken (fun w h => hbegun _ w h.2) (fun _ w h => ⟨_, hchosen, h⟩) fun _ _ h => h
  · exact fun w h => absurd h.1 hkeys

/-- What a run meets where it has got to. -/
def RunHolds (pool : Pool) (desired : ℕ) (live : List Worker) (c : World × Script Op Err Unit) : Prop :=
  ∃ keep, Chosen desired live keep ∧ Holds pool desired live keep c.1 ∧
    match c.2 with
    | .ret _ => Ends pool desired live keep c.1
    | .raise _ => True
    | .op o _ => Needs pool live keep _ o c.1

/-- **A run retires or starts, never both, and never more than it was asked to**, wherever it has got to and whatever
has failed. -/
theorem reconcile_bounded (pool : Pool) (desired : ℕ) (hdesired : desired ≤ pool.maxWorkers) (live : List Worker)
    (w : World) (hw : Begins w) (c : World × Script Op Err Unit)
    (hreaches : Reaches (system pool) (w, reconcile pool desired live) c) : RunHolds pool desired live c := by
  have hguarded := guarded_of_reaches (triple_reconcile hdesired w hw) hreaches
  obtain ⟨w', p⟩ := c
  cases p with
  | ret a =>
    obtain ⟨keep, hchosen, hends⟩ := hguarded.ret
    exact ⟨keep, hchosen, hends.holds, hends⟩
  | raise e =>
    obtain ⟨keep, hchosen, hholds⟩ := hguarded.raise
    exact ⟨keep, hchosen, hholds, trivial⟩
  | op o next => exact hguarded.op

/-! ### Two workers for a pool that has none -/

def samplePool : Pool where
  fromisoformat := fun _ => .ok 0
  agent := "codex-a"
  adopted := [⟨"b", "codex-b", some (unitOf "b"), "/b"⟩]
  ownPrefix := "sg-codex-"
  maxWorkers := 2
  actuatorState := "/s"
  resolve := id
  ids := by decide
  foreign := by decide
  units := by
    intro entry hentry unit hunit
    obtain rfl := List.mem_singleton.1 hentry
    exact (Option.some.inj hunit).symm

def sampleWorld : World where
  machine := ⟨8, fun _ => none, fun _ => 0⟩
  beats := fun _ => none
  heartbeatNames := []
  wall := 0
  clock := 0
  units := fun unit => ⟨unit, 0, "inactive", "loaded", "disabled"⟩
  needle := some "/bin/needle"
  ready := ["/r", "/r"]
  demanded := none
  files := fun _ => none
  loaded := fun _ => none
  saved := none
  started := []
  opened := []
  seen := []

def sampleRun : World × Script Op Err Unit := advance exec 20 (sampleWorld, reconcile samplePool 2 [])

theorem reconcile_bounded_sample : sampleRun.1.started.map slot = [unitOf "b", unitOf "sg-codex-1"] ∧
    ownRoutes samplePool sampleRun.1.started = ["/r"] ∧ RunHolds samplePool 2 [] sampleRun := by
  refine ⟨by decide +kernel, by decide +kernel,
    reconcile_bounded samplePool 2 (by decide) [] sampleWorld ⟨rfl, rfl, rfl⟩ _ ?_⟩
  exact reaches_advance (system samplePool) 20 _

end Missing

end Reconcile
end CodexPool
end Freeze
end Subgov
