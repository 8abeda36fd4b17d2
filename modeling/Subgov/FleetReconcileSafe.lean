import Subgov.FleetReconcile
/-!
# FleetReconcileSafe — a run of `reconcile_items`, interrupted anywhere

Every operation may fail before or after it was done, and everything but the roster's own files may change between any
two.  Whatever is left, the files are the governor's own, so that the next run accepts them.  A unit is told to stop
only behind a guard that systemd has read, and one is started only with no guard left.
-/
namespace Subgov
namespace Freeze
namespace ZaiFleet
namespace Reconcile

open Procfs Python Interleave
open Script (perform ofExcept)

/-! ## The files -/

section Files

variable (roster : Roster)

/-- The paths that a run writes. -/
def Ours (path : String) : Prop :=
  ∃ worker ∈ roster.workers, path = roster.marker worker ∨ path = roster.dropinPath worker

/-- What `validate_owned_files` accepts at a path. -/
def Own (path : String) (content : Option String) : Prop :=
  ∀ text, content = some text → ∀ worker ∈ roster.workers,
    (path = roster.marker worker → text = roster.markerText) ∧
      (path = roster.dropinPath worker → text = roster.dropin worker)

def FilesAre (F : String → Option String → Prop) (w : World) : Prop := ∀ path, Ours roster path → F path (w.files path)

def LoadedAre (F : String → Option String → Prop) (w : World) : Prop := ∀ path, Ours roster path → F path (w.loaded path)

/-- What a worker's two files are once they have been seen to. -/
def Wanted (keep : List String) (worker : Worker) (path : String) (content : Option String) : Prop :=
  (path = roster.marker worker → content = if worker.unit ∈ keep then none else some roster.markerText) ∧
    (path = roster.dropinPath worker → content = if worker.unit ∈ keep then none else some (roster.dropin worker))

/-- The files of these workers have been seen to. -/
def Settled (keep : List String) (done : List Worker) (path : String) (content : Option String) : Prop :=
  Own roster path content ∧ ∀ worker ∈ done, Wanted roster keep worker path content

/-- No other governor writes the roster's files, and systemd reads them whenever anybody asks it to. -/
structure Rely (w w' : World) : Prop where
  files : ∀ path, Ours roster path → w'.files path = w.files path
  loaded : ∀ path, Ours roster path → w'.loaded path = w.loaded path ∨ w'.loaded path = w.files path

def system : System World Err Op where
  exec := exec
  rely := Rely roster
  fails := fun _ _ => True
  failsLate := fun _ _ => True

/-- The guard that keeps a unit from being started again is there, and systemd knows of it. -/
structure Guarded (worker : Worker) (w : World) : Prop where
  marker : w.files (roster.marker worker) = some roster.markerText
  dropin : w.files (roster.dropinPath worker) = some (roster.dropin worker)
  loaded : w.loaded (roster.dropinPath worker) = some (roster.dropin worker)

structure Released (worker : Worker) (w : World) : Prop where
  marker : w.files (roster.marker worker) = none
  dropin : w.files (roster.dropinPath worker) = none
  loaded : w.loaded (roster.dropinPath worker) = none

def guard : ∀ β, Op β → World → Prop
  | _, .stopUnit u, w => FilesAre roster (Own roster) w ∧ ∃ worker ∈ roster.workers, worker.unit = u ∧
      Guarded roster worker w
  | _, .startUnit u, w => FilesAre roster (Own roster) w ∧ ∃ worker ∈ roster.workers, worker.unit = u ∧
      Released roster worker w
  | _, _, w => FilesAre roster (Own roster) w

end Files

/-! ## Paths -/

section Paths

variable {roster : Roster} {worker worker' : Worker}

theorem unit_inj (hworker : worker ∈ roster.workers) (hworker' : worker' ∈ roster.workers)
    (h : worker.unit = worker'.unit) : worker = worker' :=
  List.inj_on_of_nodup_map roster.nodup hworker hworker' h

theorem marker_inj (hworker : worker ∈ roster.workers) (hworker' : worker' ∈ roster.workers)
    (h : roster.marker worker = roster.marker worker') : worker = worker' := by
  have hlists := congrArg String.toList h
  simp only [Roster.marker, String.toList_append, List.append_cancel_left_eq] at hlists
  exact unit_inj hworker hworker' (String.toList_inj.1 hlists)

theorem dropinPath_inj (hworker : worker ∈ roster.workers) (hworker' : worker' ∈ roster.workers)
    (h : roster.dropinPath worker = roster.dropinPath worker') : worker = worker' := by
  have hlists := congrArg String.toList h
  simp only [Roster.dropinPath, String.toList_append, List.append_cancel_left_eq, List.append_cancel_right_eq] at hlists
  exact unit_inj hworker hworker' (String.toList_inj.1 hlists)

/-- A marker ends in the unit's suffix and a drop-in in its own. -/
theorem marker_ne_dropinPath (hworker : worker ∈ roster.workers) : roster.marker worker ≠ roster.dropinPath worker' := by
  intro h
  have hlast := congrArg (fun path : String => path.toList.getLast?) h
  have hservice : (".service".toList).getLast? = some 'e' := by decide
  have hconf : (".d/90-subgov-zai.conf".toList).getLast? = some 'f' := by decide
  simp only [Roster.marker, Roster.dropinPath, roster.unit_eq worker hworker, unitOf, String.toList_append,
    List.getLast?_append, hservice, hconf, Option.some_or] at hlast
  cases hlast

end Paths

/-! ## Assertions -/

section Kept

variable {roster : Roster} {F F' : String → Option String → Prop} {keep : List String} {done : List Worker}

theorem stable_files : Stable (system roster) (FilesAre roster F) :=
  fun _ _ hr hw path hpath => hr.files path hpath ▸ hw path hpath

/-- What systemd reads is what the files are, so that an assertion on both is kept. -/
theorem stable_both : Stable (system roster) (fun w => FilesAre roster F w ∧ LoadedAre roster F w) := by
  intro w w' hr hw
  refine ⟨stable_files w w' hr hw.1, fun path hpath => ?_⟩
  rcases hr.loaded path hpath with hsame | hread
  · exact hsame ▸ hw.2 path hpath
  · exact hread ▸ hw.1 path hpath

theorem Settled.own {path : String} {content : Option String} (h : Settled roster keep done path content) :
    Own roster path content := h.1

theorem ours_marker {worker : Worker} (h : worker ∈ roster.workers) : Ours roster (roster.marker worker) :=
  ⟨worker, h, .inl rfl⟩

theorem ours_dropinPath {worker : Worker} (h : worker ∈ roster.workers) : Ours roster (roster.dropinPath worker) :=
  ⟨worker, h, .inr rfl⟩

theorem own_none (path : String) : Own roster path none := fun _ h => nomatch h

theorem own_marker {worker : Worker} (h : worker ∈ roster.workers) :
    Own roster (roster.marker worker) (some roster.markerText) := by
  intro text htext worker' _
  refine ⟨fun _ => (Option.some.inj htext).symm, fun hpath => ?_⟩
  cases marker_ne_dropinPath h hpath

theorem own_dropin {worker : Worker} (h : worker ∈ roster.workers) :
    Own roster (roster.dropinPath worker) (some (roster.dropin worker)) := by
  intro text htext worker' hworker'
  refine ⟨fun hpath => ?_, fun hpath => ?_⟩
  · cases marker_ne_dropinPath hworker' hpath.symm
  · rw [← dropinPath_inj h hworker' hpath]
    exact (Option.some.inj htext).symm

/-- The files of a worker that has not been seen to are free to change. -/
theorem settled_marker {worker : Worker} (hworker : worker ∈ roster.workers) (hdone : ∀ other ∈ done, other ∈ roster.workers)
    (hnot : worker ∉ done) {content : Option String} (h : Own roster (roster.marker worker) content) :
    Settled roster keep done (roster.marker worker) content := by
  refine ⟨h, fun other hother => ⟨fun hpath => ?_, fun hpath => ?_⟩⟩
  · cases hnot (marker_inj hworker (hdone other hother) hpath ▸ hother)
  · cases marker_ne_dropinPath hworker hpath

theorem settled_dropin {worker : Worker} (hworker : worker ∈ roster.workers) (hdone : ∀ other ∈ done, other ∈ roster.workers)
    (hnot : worker ∉ done) {content : Option String} (h : Own roster (roster.dropinPath worker) content) :
    Settled roster keep done (roster.dropinPath worker) content := by
  refine ⟨h, fun other hother => ⟨fun hpath => ?_, fun hpath => ?_⟩⟩
  · cases marker_ne_dropinPath (hdone other hother) hpath.symm
  · cases hnot (dropinPath_inj hworker (hdone other hother) hpath ▸ hother)

/-- Both files of a worker as they are wanted. -/
theorem settled_snoc {worker : Worker} {path : String} {content : Option String}
    (h : (Settled roster keep done path content ∧
      (path = roster.marker worker → content = if worker.unit ∈ keep then none else some roster.markerText)) ∧
      (path = roster.dropinPath worker → content = if worker.unit ∈ keep then none else some (roster.dropin worker))) :
    Settled roster keep (done ++ [worker]) path content := by
  refine ⟨h.1.1.1, fun other hother => ?_⟩
  rcases List.mem_append.1 hother with hold | hnew
  · exact h.1.1.2 other hold
  · rw [List.mem_singleton.1 hnew]
    exact ⟨h.1.2, h.2⟩

end Kept

/-! ## The operations -/

section Triples

variable {roster : Roster} {F : String → Option String → Prop} {keep : List String} {done : List Worker}

theorem FilesAre.update {w w' : World} {path : String} {content : Option String} (h : FilesAre roster F w)
    (hF : F path content) (hfiles : w'.files = Function.update w.files path content) :
    FilesAre roster (fun q x => F q x ∧ (q = path → x = content)) w' := by
  intro q hq
  rw [hfiles]
  by_cases hqp : q = path
  · subst hqp
    rw [Function.update_self]
    exact ⟨hF, fun _ => rfl⟩
  · rw [Function.update_of_ne hqp]
    exact ⟨h q hq, fun h => absurd h hqp⟩

theorem FilesAre.unlink {w : World} {path : String} (h : FilesAre roster F w) (hF : F path none) :
    FilesAre roster (fun q x => F q x ∧ (q = path → x = none)) (exec (.unlink path) w).2 := by
  simp only [exec]
  split
  · rename_i hnone
    intro q hq
    refine ⟨h q hq, ?_⟩
    rintro rfl
    exact hnone
  · exact h.update hF rfl

/-- A write of ours, from files that allow what it writes. -/
theorem triple_write {o : Op Unit} {path : String} {content : Option String}
    (hguard : ∀ w, FilesAre roster F w → guard roster _ o w)
    (ho : ∀ w, FilesAre roster F w → FilesAre roster (fun q x => F q x ∧ (q = path → x = content)) (exec o w).2) :
    Triple (system roster) (guard roster) (FilesAre roster F) (perform o)
      (fun _ => FilesAre roster fun q x => F q x ∧ (q = path → x = content)) (fun _ => FilesAre roster F) := by
  have hstable : Stable (system roster) (FilesAre roster F) := stable_files
  refine .perform hstable hguard (fun w _ w' hw hstep => ?_) (fun w e w' hw hstep => ?_) (fun _ => stable_files)
    fun _ => hstable
  · have hexec : exec o w = _ := hstep.ok
    have hafter := ho w hw
    rwa [hexec] at hafter
  · rcases hstep.error with ⟨rfl, -⟩ | ⟨rfl, -⟩
    · exact fun q hq => (ho w hw q hq).1
    · exact hw

/-- A look at whether a file is there. -/
theorem triple_exists {path : String} (hpath : Ours roster path) (hown : ∀ q x, F q x → Own roster q x) :
    Triple (system roster) (guard roster) (FilesAre roster F) (perform (.exists path))
      (fun there w => FilesAre roster F w ∧ (w.files path).isSome = there) (fun _ => FilesAre roster F) := by
  have hstable : Stable (system roster) (FilesAre roster F) := stable_files
  have hthere : ∀ there : Bool, Stable (system roster) (fun w => FilesAre roster F w ∧ (w.files path).isSome = there) :=
    fun there => hstable.and fun w w' hr hw => (congrArg Option.isSome (hr.files path hpath)).trans hw
  refine .perform hstable (fun w hw q hq => hown q _ (hw q hq)) (fun w there w' hw hstep => ?_)
    (fun w e w' hw hstep => ?_) hthere fun _ => hstable
  · obtain ⟨hread, rfl⟩ := Prod.mk.inj (show exec (.exists path) w = _ from hstep.ok)
    exact ⟨hw, Except.ok.inj hread⟩
  · rcases hstep.error with ⟨rfl, -⟩ | ⟨rfl, -⟩
    · exact hw
    · exact hw

theorem stable_there {path : String} (hpath : Ours roster path) (there : Bool) :
    Stable (system roster) (fun w => FilesAre roster F w ∧ (w.files path).isSome = there) :=
  stable_files.and fun _ _ hr hw => (congrArg Option.isSome (hr.files path hpath)).trans hw

/-- A file of ours that is not to be there is not there afterwards, and no other has changed. -/
theorem triple_release {path : String} (hpath : Ours roster path) (hown : ∀ q x, F q x → Own roster q x)
    (hF : F path none) :
    Triple (system roster) (guard roster) (FilesAre roster F) (release path)
      (fun _ => FilesAre roster fun q x => F q x ∧ (q = path → x = none)) (fun _ => FilesAre roster F) := by
  refine (triple_exists hpath hown).bind fun there => ?_
  split
  · exact (triple_write (o := .unlink path) (fun w hw q hq => hown q _ (hw q hq)) fun w hw => hw.unlink hF).pre
      fun w hw => hw.1
  · rename_i hthere
    refine .pure (stable_there hpath there) fun w hw q hq => ⟨hw.1 q hq, ?_⟩
    rintro rfl
    exact Option.not_isSome_iff_eq_none.1 fun hsome => hthere (hw.2.symm.trans hsome)

/-- A file of ours that is to be there is there afterwards with its text. -/
theorem triple_install {path text : String} (hpath : Ours roster path) (hown : ∀ q x, F q x → Own roster q x)
    (hF : F path (some text)) (htext : ∀ found, Own roster path (some found) → found = text) :
    Triple (system roster) (guard roster) (FilesAre roster F) (install path text)
      (fun _ => FilesAre roster fun q x => F q x ∧ (q = path → x = some text)) (fun _ => FilesAre roster F) := by
  refine (triple_exists hpath hown).bind fun there => ?_
  split
  · rename_i hthere
    refine .pure (stable_there hpath there) fun w hw q hq => ⟨hw.1 q hq, ?_⟩
    rintro rfl
    obtain ⟨found, hfound⟩ := Option.isSome_iff_exists.1 (hw.2.trans hthere)
    rw [hfound]
    exact congrArg some (htext found (hfound ▸ hown _ _ (hw.1 _ hq)))
  · exact (triple_write (o := .atomicText path text) (fun w hw q hq => hown q _ (hw q hq))
      fun w hw => hw.update hF rfl).pre fun w hw => hw.1

/-- **Every worker's two files come to what they are wanted to be**, one after the other. -/
theorem triple_guardFiles (items : List Item) (hdone : ∀ other ∈ done, other ∈ roster.workers)
    (hitems : ∀ item ∈ items, item.worker ∈ roster.workers) (hnodup : (done ++ items.map Item.worker).Nodup) :
    Triple (system roster) (guard roster) (FilesAre roster (Settled roster keep done)) (guardFiles roster keep items)
      (fun _ => FilesAre roster (Settled roster keep (done ++ items.map Item.worker)))
      (fun _ => FilesAre roster (Own roster)) := by
  induction items generalizing done with
  | nil =>
    rw [List.map_nil, List.append_nil]
    exact .pure stable_files fun w hw => hw
  | cons item rest ih =>
    have hitem := hitems item List.mem_cons_self
    have hrest : ∀ item ∈ rest, item.worker ∈ roster.workers := fun i hi => hitems i (List.mem_cons_of_mem _ hi)
    have hsplit : done ++ (item :: rest).map Item.worker = (done ++ [item.worker]) ++ rest.map Item.worker := by simp
    rw [hsplit] at hnodup ⊢
    have hnot : item.worker ∉ done := by
      have hleft := (List.nodup_append'.1 hnodup).1
      exact fun hmem => (List.disjoint_of_nodup_append hleft) hmem (List.mem_singleton.2 rfl)
    have hdone' : ∀ other ∈ done ++ [item.worker], other ∈ roster.workers := by
      intro other hother
      rcases List.mem_append.1 hother with hold | hnew
      · exact hdone other hold
      · rwa [List.mem_singleton.1 hnew]
    have hown : ∀ q x, Settled roster keep done q x → Own roster q x := fun _ _ h => h.1
    have hown' : ∀ a q x, Settled roster keep done q x ∧ (q = roster.marker item.worker → x = a) → Own roster q x :=
      fun _ _ _ h => h.1.1
    have hE : ∀ {F : String → Option String → Prop}, (∀ q x, F q x → Own roster q x) →
        ∀ (e : Err) w, FilesAre roster F w → FilesAre roster (Own roster) w :=
      fun hF _ w hw q hq => hF q _ (hw q hq)
    have hsnoc : ∀ w, FilesAre roster (fun q x => (Settled roster keep done q x ∧
        (q = roster.marker item.worker → x = if item.worker.unit ∈ keep then none else some roster.markerText)) ∧
        (q = roster.dropinPath item.worker →
          x = if item.worker.unit ∈ keep then none else some (roster.dropin item.worker))) w →
        FilesAre roster (Settled roster keep (done ++ [item.worker])) w := fun w hw q hq => settled_snoc (hw q hq)
    unfold guardFiles
    split
    · rename_i hkeep
      refine ((triple_release (ours_marker hitem) hown (settled_marker hitem hdone hnot (own_none _))).weaken
        (fun _ hw => hw) (fun _ _ hw => hw) (hE hown)).bind fun _ => ?_
      refine ((triple_release (ours_dropinPath hitem) (hown' none) ⟨settled_dropin hitem hdone hnot (own_none _),
        fun _ => rfl⟩).weaken (fun _ hw => hw) (fun _ w hw => hsnoc w ?_) (hE (hown' none))).bind fun _ =>
          ih hdone' hrest hnodup
      simpa only [hkeep, if_true] using hw
    · rename_i hretire
      refine ((triple_install (ours_marker hitem) hown (settled_marker hitem hdone hnot (own_marker hitem)) ?_).weaken
        (fun _ hw => hw) (fun _ _ hw => hw) (hE hown)).bind fun _ => ?_
      · exact fun found h => (h found rfl item.worker hitem).1 rfl
      refine ((triple_install (ours_dropinPath hitem) (hown' (some roster.markerText))
        ⟨settled_dropin hitem hdone hnot (own_dropin hitem), fun h => ?_⟩ ?_).weaken (fun _ hw => hw)
        (fun _ w hw => hsnoc w ?_) (hE (hown' _))).bind fun _ => ih hdone' hrest hnodup
      · cases marker_ne_dropinPath hitem h.symm
      · exact fun found h => (h found rfl item.worker hitem).2 rfl
      · simpa only [hretire, if_false] using hw

/-! ## Behind the reload -/

/-- The files are as they are wanted to be for every worker, and systemd has read them so. -/
def Both (roster : Roster) (keep : List String) (w : World) : Prop :=
  FilesAre roster (Settled roster keep roster.workers) w ∧ LoadedAre roster (Settled roster keep roster.workers) w

/-- What a run comes to once its files are settled. -/
def Allowed (roster : Roster) (keep : List String) : ∀ β, Op β → Prop
  | _, .stopUnit u => ∃ worker ∈ roster.workers, worker.unit = u ∧ u ∉ keep
  | _, .startUnit u => ∃ worker ∈ roster.workers, worker.unit = u ∧ u ∈ keep
  | _, .atomicText _ _ | _, .unlink _ | _, .daemonReload => False
  | _, _ => True

theorem Both.guarded {w : World} {worker : Worker} (h : Both roster keep w) (hworker : worker ∈ roster.workers)
    (hkeep : worker.unit ∉ keep) : Guarded roster worker w := by
  have hmarker := (h.1 _ (ours_marker hworker)).2 worker hworker
  have hdropin := (h.1 _ (ours_dropinPath hworker)).2 worker hworker
  have hloaded := (h.2 _ (ours_dropinPath hworker)).2 worker hworker
  refine ⟨?_, ?_, ?_⟩
  · rw [hmarker.1 rfl, if_neg hkeep]
  · rw [hdropin.2 rfl, if_neg hkeep]
  · rw [hloaded.2 rfl, if_neg hkeep]

theorem Both.released {w : World} {worker : Worker} (h : Both roster keep w) (hworker : worker ∈ roster.workers)
    (hkeep : worker.unit ∈ keep) : Released roster worker w := by
  have hmarker := (h.1 _ (ours_marker hworker)).2 worker hworker
  have hdropin := (h.1 _ (ours_dropinPath hworker)).2 worker hworker
  have hloaded := (h.2 _ (ours_dropinPath hworker)).2 worker hworker
  refine ⟨?_, ?_, ?_⟩
  · rw [hmarker.1 rfl, if_pos hkeep]
  · rw [hdropin.2 rfl, if_pos hkeep]
  · rw [hloaded.2 rfl, if_pos hkeep]

theorem Both.own {w : World} (h : Both roster keep w) : FilesAre roster (Own roster) w := fun q hq => (h.1 q hq).1

theorem exec_both {β : Type} {o : Op β} (ho : Allowed roster keep β o) (w : World) :
    (exec o w).2.files = w.files ∧ (exec o w).2.loaded = w.loaded := by
  cases o with
  | readBeat name =>
    simp only [exec]
    split <;> exact ⟨rfl, rfl⟩
  | cmdline pid | tasks pid | pidfdOpen pid | send fd signal =>
    simp only [exec, noted]
    split <;> exact ⟨rfl, rfl⟩
  | readText path =>
    simp only [exec]
    split <;> exact ⟨rfl, rfl⟩
  | atomicText path text => exact ho.elim
  | unlink path => exact ho.elim
  | daemonReload => exact ho.elim
  | _ => exact ⟨rfl, rfl⟩

/-- Once the files are settled nothing changes them, and units are stopped and started as they say. -/
theorem triple_allowed {α : Type} {p : Script Op Err α} (hp : p.Only (Allowed roster keep)) :
    Triple (system roster) (guard roster) (Both roster keep) p (fun _ => Both roster keep) (fun _ => Both roster keep) := by
  have hkept : ∀ {β} {o : Op β}, Allowed roster keep β o → ∀ w, Both roster keep w → Both roster keep (exec o w).2 := by
    intro β o ho w hw
    obtain ⟨hfiles, hloaded⟩ := exec_both ho w
    refine ⟨fun q hq => ?_, fun q hq => ?_⟩
    · rw [hfiles]
      exact hw.1 q hq
    · rw [hloaded]
      exact hw.2 q hq
  refine .of_only hp stable_both (fun β o w ho hw => ?_) fun β o w r w' ho hw hstep => ?_
  · cases o with
    | stopUnit u =>
      obtain ⟨worker, hworker, rfl, hkeep⟩ := ho
      exact ⟨hw.own, worker, hworker, rfl, hw.guarded hworker hkeep⟩
    | startUnit u =>
      obtain ⟨worker, hworker, rfl, hkeep⟩ := ho
      exact ⟨hw.own, worker, hworker, rfl, hw.released hworker hkeep⟩
    | _ => exact hw.own
  · cases hstep with
    | done => exact hkept ho w hw
    | fails => exact hw
    | failsLate => exact hkept ho w hw

theorem allowed_of_reads {β : Type} (o : Op β) (h : o.reads = true) : Allowed roster keep β o := by
  cases o <;> trivial

theorem allowed_of_attempts {β : Type} (o : Op β) (h : o.attempts = true) : Allowed roster keep β o := by
  cases o <;> trivial

theorem status_only {A : ∀ β, Op β → Prop} (hA : ∀ {β} (o : Op β), o.reads = true → A β o) (worker : Worker) :
    (status worker).Only A := by
  refine .bind (.perform (hA _ rfl)) fun info => ?_
  split
  · trivial
  · trivial

theorem stopIdle_only (fromisoformat : String → Except Err ℤ) (staleAfter : ℤ) {worker : Worker}
    (hworker : worker ∈ roster.workers) (hkeep : worker.unit ∉ keep) (pid : ℕ) :
    (stopIdle fromisoformat staleAfter worker pid).Only (Allowed roster keep) := by
  have hbeat : (heartbeat fromisoformat staleAfter worker pid).Only (Allowed roster keep) :=
    readHeartbeat_only allowed_of_reads ..
  have hidentity : (processIdentity (flags worker) pid).Only (Allowed roster keep) :=
    processIdentity_only allowed_of_reads ..
  unfold stopIdle
  split
  · trivial
  refine .bind hbeat fun beat => .bind (.ofExcept _) fun idle => ?_
  split
  · trivial
  refine stopFrozen_only allowed_of_attempts hidentity (fun generation => ?_) (fun fd => ?_) pid
  · refine .bind hbeat fun beat => .bind (.ofExcept _) fun idle => ?_
    split
    · trivial
    refine .bind (status_only allowed_of_reads worker) fun info => ?_
    split
    · trivial
    · exact .bind hidentity fun again => trivial
  · exact .perform ⟨worker, hworker, rfl, hkeep⟩

theorem act_only (fromisoformat : String → Except Err ℤ) (staleAfter : ℤ) (items : List Item)
    (hitems : ∀ item ∈ items, item.worker ∈ roster.workers) :
    (act fromisoformat staleAfter keep items).Only (Allowed roster keep) := by
  induction items with
  | nil => trivial
  | cons item rest ih =>
    have hitem := hitems item List.mem_cons_self
    have hrest := ih fun i hi => hitems i (List.mem_cons_of_mem _ hi)
    unfold act
    split
    · rename_i hkeep
      refine .bind (.bind (status_only allowed_of_reads _) fun current => ?_) fun _ => hrest
      split
      · exact .perform ⟨item.worker, hitem, rfl, hkeep⟩
      · trivial
    split
    · exact .bind (stopIdle_only fromisoformat staleAfter hitem ‹_› _) fun _ => hrest
    · exact hrest

theorem pendingRetirees_only (items : List Item) : (pendingRetirees keep items).Only (Allowed roster keep) := by
  induction items with
  | nil => trivial
  | cons item rest ih =>
    unfold pendingRetirees
    split
    · exact ih
    · exact .bind (status_only allowed_of_reads _) fun info => .bind ih fun others => trivial

/-- The reload has systemd know what the files are. -/
theorem triple_reload : Triple (system roster) (guard roster) (FilesAre roster (Settled roster keep roster.workers))
    (perform .daemonReload) (fun _ => Both roster keep) (fun _ => FilesAre roster (Own roster)) := by
  have hsettled : Stable (system roster) (FilesAre roster (Settled roster keep roster.workers)) := stable_files
  refine .perform hsettled (fun w hw q hq => (hw q hq).1) (fun w _ w' hw hstep => ?_) (fun w e w' hw hstep => ?_)
    (fun _ => stable_both) fun _ => stable_files
  · obtain ⟨-, rfl⟩ := Prod.mk.inj (show exec .daemonReload w = _ from hstep.ok)
    exact ⟨hw, hw⟩
  · rcases hstep.error with ⟨rfl, -⟩ | ⟨rfl, -⟩
    · exact fun q hq => (hw q hq).1
    · exact fun q hq => (hw q hq).1

/-- What leaves the files alone: looking, and saving the state. -/
def leavesFiles : ∀ β, Op β → Prop
  | _, .saveState _ => True
  | _, o => o.reads = true

theorem leavesFiles_of_reads {β : Type} (o : Op β) (h : o.reads = true) : leavesFiles β o := by
  cases o <;> trivial

theorem allowed_of_leavesFiles {β : Type} {o : Op β} (h : leavesFiles β o) : Allowed roster keep β o := by
  cases o <;> trivial

theorem triple_looks {α : Type} {p : Script Op Err α} (hp : p.Only leavesFiles) :
    Triple (system roster) (guard roster) (FilesAre roster (Own roster)) p (fun _ => FilesAre roster (Own roster))
      (fun _ => FilesAre roster (Own roster)) := by
  have hkept : ∀ {β} {o : Op β}, leavesFiles β o → ∀ w, FilesAre roster (Own roster) w →
      FilesAre roster (Own roster) (exec o w).2 := by
    intro β o ho w hw q hq
    have hallowed : Allowed roster [] β o := allowed_of_leavesFiles ho
    rw [(exec_both hallowed w).1]
    exact hw q hq
  refine .of_only hp stable_files (fun β o w ho hw => ?_) fun β o w r w' ho hw hstep => ?_
  · cases o <;> first | exact hw | cases ho
  · cases hstep with
    | done => exact hkept ho w hw
    | fails => exact hw
    | failsLate => exact hkept ho w hw

theorem retentions_only (fromisoformat : String → Except Err ℤ) (staleAfter : ℤ) (items : List Item) :
    (retentions fromisoformat staleAfter items).Only leavesFiles := by
  induction items with
  | nil => trivial
  | cons item rest ih =>
    refine .bind ?_ fun key => .bind ih fun keys => trivial
    unfold retention
    split
    · trivial
    refine .bind (readHeartbeat_only leavesFiles_of_reads ..) fun beat => .bind (.ofExcept _) fun idle => ?_
    split
    · trivial
    · trivial

end Triples

/-! ## Whole runs -/

section Runs

variable {roster : Roster}

theorem run_checkOwned (path text : String) (w : World) :
    (checkOwned path text).run exec w =
      (if ∀ found, w.files path = some found → found = text then .ok () else .error .value, w) := by
  unfold checkOwned
  rw [Script.run_bind, Script.run_perform]
  cases hfile : w.files path with
  | none => simp [exec, hfile]
  | some found =>
    simp only [exec, hfile, Option.isSome_some, if_true, Script.run_bind, Script.run_perform]
    by_cases hsame : found = text <;> simp [hsame]

/-- **The governor accepts the files exactly when each is missing or its own.** -/
theorem validateOwnedFiles_accepts (workers : List Worker) (w : World) :
    ((validateOwnedFiles roster workers).run exec w).1 = .ok () ↔
      ∀ worker ∈ workers, (∀ found, w.files (roster.marker worker) = some found → found = roster.markerText) ∧
        ∀ found, w.files (roster.dropinPath worker) = some found → found = roster.dropin worker := by
  induction workers with
  | nil => simp [validateOwnedFiles]
  | cons worker rest ih =>
    unfold validateOwnedFiles
    rw [Script.run_bind, run_checkOwned, List.forall_mem_cons, ← ih]
    by_cases hdropin : ∀ found, w.files (roster.dropinPath worker) = some found → found = roster.dropin worker
    · simp only [if_pos hdropin, Script.run_bind, run_checkOwned]
      by_cases hmarker : ∀ found, w.files (roster.marker worker) = some found → found = roster.markerText
      · simp only [if_pos hmarker]
        exact ⟨fun h => ⟨⟨hmarker, hdropin⟩, h⟩, fun h => h.2⟩
      · simp only [if_neg hmarker]
        exact iff_of_false (fun h => nomatch h) fun h => hmarker h.1.1
    · simp only [if_neg hdropin]
      exact iff_of_false (fun h => nomatch h) fun h => hdropin h.1.2

theorem accepts_iff_own (w : World) :
    ((validateOwnedFiles roster roster.workers).run exec w).1 = .ok () ↔ FilesAre roster (Own roster) w := by
  rw [validateOwnedFiles_accepts]
  constructor
  · rintro h path - text htext worker hworker
    refine ⟨?_, ?_⟩
    · rintro rfl
      exact (h worker hworker).1 text htext
    · rintro rfl
      exact (h worker hworker).2 text htext
  · intro h worker hworker
    refine ⟨fun found hfound => ?_, fun found hfound => ?_⟩
    · exact (h _ (ours_marker hworker) found hfound worker hworker).1 rfl
    · exact (h _ (ours_dropinPath hworker) found hfound worker hworker).2 rfl

/-- Which units a run settles on. -/
structure Keeps (desired : ℕ) (items : List Item) (keep : List String) : Prop where
  length : keep.length = desired
  nodup : keep.Nodup
  unmasked : ∀ unit ∈ keep, ∃ item ∈ items, item.worker.unit = unit ∧ masked item.info = false

theorem retentions_length (fromisoformat : String → Except Err ℤ) (staleAfter : ℤ) (items : List Item) :
    (retentions fromisoformat staleAfter items).Yields fun keys => keys.length = items.length := by
  induction items with
  | nil => rfl
  | cons item rest ih => exact .bind (Script.yields_true _) fun key _ => .bind ih fun keys hkeys => congrArg (· + 1) hkeys

theorem keepUnits_keeps {desired : ℕ} {items : List Item} {keys : List ℕ} (hitems : items.map Item.worker = roster.workers)
    (hkeys : keys.length = (items.filter fun item => !masked item.info).length)
    (hdesired : desired ≤ (items.filter fun item => !masked item.info).length) :
    Keeps desired items (keepUnits desired (items.filter fun item => !masked item.info) keys) := by
  generalize hpermitted : (items.filter fun item => !masked item.info) = permitted at hkeys hdesired ⊢
  have hperm := List.perm_insertionSort (fun a b : Item × ℕ => a.2 ≤ b.2) (permitted.zip keys)
  have hfirst : (permitted.zip keys).map Prod.fst = permitted := List.map_fst_zip hkeys.ge
  have hmem : ∀ ranked ∈ (permitted.zip keys).insertionSort fun a b => a.2 ≤ b.2, ranked.1 ∈ permitted :=
    fun ranked h => hfirst ▸ List.mem_map_of_mem (hperm.mem_iff.1 h)
  unfold keepUnits
  refine ⟨?_, ?_, fun unit hunit => ?_⟩
  · rw [List.length_map, List.length_take, List.length_insertionSort, List.length_zip]
    omega
  · have hunits : (permitted.map fun item => item.worker.unit).Nodup := by
      have hall : (items.map fun item => item.worker.unit).Nodup := by
        have hmap : (items.map fun item => item.worker.unit) = roster.workers.map Worker.unit := by
          rw [← hitems, List.map_map]
          rfl
        rw [hmap]
        exact roster.nodup
      exact hall.sublist ((hpermitted ▸ List.filter_sublist).map _)
    have hsorted : (((permitted.zip keys).insertionSort fun a b => a.2 ≤ b.2).map
        fun ranked => ranked.1.worker.unit).Nodup := by
      rw [(hperm.map _).nodup_iff]
      rw [← hfirst, List.map_map] at hunits
      exact hunits
    exact hsorted.sublist ((List.take_sublist _ _).map _)
  · obtain ⟨ranked, hranked, rfl⟩ := List.mem_map.1 hunit
    have hthere := hmem ranked (List.mem_of_mem_take hranked)
    rw [← hpermitted] at hthere
    obtain ⟨hitem, hunmasked⟩ := List.mem_filter.1 hthere
    exact ⟨ranked.1, hitem, rfl, by simpa using hunmasked⟩

theorem triple_reconcileItems (fromisoformat : String → Except Err ℤ) (staleAfter : ℤ) (desired : ℕ) {items : List Item}
    (hitems : items.map Item.worker = roster.workers) :
    Triple (system roster) (guard roster) (FilesAre roster (Own roster))
      (reconcileItems fromisoformat staleAfter roster desired items)
      (fun keep w => Both roster keep w ∧ Keeps desired items keep) (fun _ => FilesAre roster (Own roster)) := by
  have hmem : ∀ item ∈ items, item.worker ∈ roster.workers := fun item h => hitems ▸ List.mem_map_of_mem h
  unfold reconcileItems
  dsimp only
  split
  · exact .raise stable_files fun w hw => hw
  rename_i hdesired
  refine Triple.bind ((triple_looks (retentions_only fromisoformat staleAfter _)).yields
    (retentions_length fromisoformat staleAfter _)) fun keys => ?_
  by_cases hkeys : keys.length = (items.filter fun item => !masked item.info).length
  swap
  · exact fun w hw => absurd hw.1 hkeys
  have hkeeps := keepUnits_keeps hitems hkeys (Nat.le_of_not_lt hdesired)
  generalize keepUnits desired (items.filter fun item => !masked item.info) keys = keep at hkeeps ⊢
  have hboth : Stable (system roster) (Both roster keep) := stable_both
  have hnone : ∀ w, FilesAre roster (Own roster) w → FilesAre roster (Settled roster keep []) w :=
    fun w hw q hq => ⟨hw q hq, fun _ h => nomatch h⟩
  have hnodup : ([] ++ items.map Item.worker).Nodup := by
    rw [List.nil_append, hitems]
    exact .of_map _ roster.nodup
  have hsave : ∀ saved, Triple (system roster) (guard roster) (FilesAre roster (Own roster))
      (perform (.saveState saved)) (fun _ => FilesAre roster (Own roster)) (fun _ => FilesAre roster (Own roster)) :=
    fun saved => triple_looks (.perform trivial)
  refine Triple.bind ((hsave _).pre fun w hw => hw.2) fun _ => ?_
  refine Triple.bind ((triple_guardFiles items (fun _ (h : _ ∈ []) => nomatch h) hmem hnodup).pre hnone) fun _ => ?_
  rw [List.nil_append, hitems]
  refine Triple.bind triple_reload fun _ => ?_
  -- what is left changes no file, and returns the units that stay
  have hrest : (act fromisoformat staleAfter keep items >>= fun _ => pendingRetirees keep items >>= fun pending =>
      perform (.saveState ⟨desired, pending⟩) >>= fun _ => (pure keep : Script Op Err (List String))).Only
      (Allowed roster keep) :=
    .bind (act_only fromisoformat staleAfter items hmem) fun _ => .bind (pendingRetirees_only items) fun pending =>
      .bind (.perform trivial) fun _ => trivial
  have hkeep : (act fromisoformat staleAfter keep items >>= fun _ => pendingRetirees keep items >>= fun pending =>
      perform (.saveState ⟨desired, pending⟩) >>= fun _ => (pure keep : Script Op Err (List String))).Yields
      (· = keep) :=
    .bind (Script.yields_true _) fun _ _ => .bind (Script.yields_true _) fun pending _ =>
      .bind (Script.yields_true _) fun _ _ => rfl
  refine ((triple_allowed hrest).yields hkeep).weaken (fun _ hw => hw) (fun found w hw => ?_) fun _ w hw => hw.own
  rw [hw.1]
  exact ⟨hw.2, hkeeps⟩

/-- What holds wherever a run has got to. -/
def RunHolds (roster : Roster) (desired : ℕ) (items : List Item) (c : World × Script Op Err (List String)) : Prop :=
  ((validateOwnedFiles roster roster.workers).run exec c.1).1 = .ok () ∧
    match c.2 with
    | .op (.stopUnit u) _ => ∃ worker ∈ roster.workers, worker.unit = u ∧ Guarded roster worker c.1
    | .op (.startUnit u) _ => ∃ worker ∈ roster.workers, worker.unit = u ∧ Released roster worker c.1
    | .ret keep => Keeps desired items keep ∧ ∀ worker ∈ roster.workers,
        if worker.unit ∈ keep then Released roster worker c.1 else Guarded roster worker c.1
    | _ => True

/-- **An interrupted run leaves nothing that stops the next one**: wherever a run has got to and whatever failed in it,
the next one accepts the files.  A unit is told to stop only with its guard written and read by systemd, it is started
only with none left, and a run that ends has left every unit one or the other. -/
theorem reconcile_interrupted_anywhere (roster : Roster) (fromisoformat : String → Except Err ℤ) (staleAfter : ℤ)
    (desired : ℕ) (items : List Item) (hitems : items.map Item.worker = roster.workers) (w : World)
    (hw : ((validateOwnedFiles roster roster.workers).run exec w).1 = .ok ())
    (c : World × Script Op Err (List String))
    (hreaches : Reaches (system roster) (w, reconcileItems fromisoformat staleAfter roster desired items) c) :
    RunHolds roster desired items c := by
  have hguarded := guarded_of_reaches (triple_reconcileItems fromisoformat staleAfter desired hitems w
    ((accepts_iff_own w).1 hw)) hreaches
  obtain ⟨w', p⟩ := c
  unfold RunHolds
  rw [accepts_iff_own]
  cases p with
  | ret keep =>
    obtain ⟨hboth, hkeeps⟩ := hguarded.ret
    refine ⟨hboth.own, hkeeps, fun worker hworker => ?_⟩
    split
    · exact hboth.released hworker ‹_›
    · exact hboth.guarded hworker ‹_›
  | raise e => exact ⟨hguarded.raise, trivial⟩
  | op o next =>
    have hop := hguarded.op
    cases o <;> first | exact hop | exact ⟨hop, trivial⟩

/-! ### Two units that are down, and one of them wanted -/

def sampleWorker (workerId : String) : Worker := ⟨workerId, "claude-code-glm-1", unitOf workerId⟩

def sampleRoster : Roster where
  owner := "o"
  identity := "1"
  statePath := "/s"
  unitDir := "/u"
  workers := [sampleWorker "a", sampleWorker "b"]
  unit_eq := by
    intro worker h
    rcases List.mem_pair.1 h with rfl | rfl <;> rfl
  nodup := by decide

def sampleUnit (unit : String) : UnitInfo := ⟨unit, 0, "inactive", "loaded", "disabled"⟩

def sampleItems : List Item := sampleRoster.workers.map fun worker => ⟨worker, sampleUnit worker.unit⟩

def sampleWorld : World where
  machine := ⟨8, fun _ => none, fun _ => 0⟩
  beats := fun _ => none
  heartbeatNames := []
  wall := 0
  clock := 0
  units := sampleUnit
  needle := none
  ready := []
  demanded := none
  files := fun _ => none
  loaded := fun _ => none
  saved := none
  started := []
  opened := []
  seen := []

def sampleReconcile : Script Op Err (List String) := reconcileItems (fun _ => .ok 0) 60 sampleRoster 1 sampleItems

/-- The marker of the unit that goes is there, and its drop-in cannot be written. -/
def brokenRun : World × Script Op Err (List String) :=
  let written := advance exec 6 (sampleWorld, sampleReconcile)
  (written.1, interrupt .os written.2)

/-- The next run, over what the broken one left. -/
def sampleRun : World × Script Op Err (List String) := advance exec 30 (brokenRun.1, sampleReconcile)

theorem reconcile_interrupted_anywhere_sample :
    (brokenRun.2 = .raise .os ∧ brokenRun.1.files (sampleRoster.marker (sampleWorker "b")) = some "1\n" ∧
      brokenRun.1.files (sampleRoster.dropinPath (sampleWorker "b")) = none ∧
      RunHolds sampleRoster 1 sampleItems brokenRun) ∧
    sampleRun.2 = .ret [unitOf "a"] ∧ RunHolds sampleRoster 1 sampleItems sampleRun := by
  have hbroken : RunHolds sampleRoster 1 sampleItems brokenRun :=
    reconcile_interrupted_anywhere sampleRoster (fun _ => .ok 0) 60 1 sampleItems rfl sampleWorld rfl _
      ((reaches_advance (system sampleRoster) 6 _).trans (reaches_interrupt (system sampleRoster) trivial))
  refine ⟨⟨rfl, rfl, rfl, hbroken⟩, rfl, ?_⟩
  exact reconcile_interrupted_anywhere sampleRoster (fun _ => .ok 0) 60 1 sampleItems rfl brokenRun.1 hbroken.1 _
    (reaches_advance (system sampleRoster) 30 _)

end Runs

end Reconcile
end ZaiFleet
end Freeze
end Subgov
