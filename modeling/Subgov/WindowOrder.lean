import Subgov.Redemption
/-!
# WindowOrder — what an additional window does to a decision

The stages after the windows are monotone in the raw count, and every stage of the arbitration reads the windows as a
set: more of them can only lower the raw count.  `evaluate_more_windows` says so of a window that governs no banked
credit, and of every window where no reset is banked.
-/
namespace Subgov

open FloatArith

variable {F : Type} [Flt F]

/-! ## The later stages -/

section Stages

variable {config : AccountConfig F} {snapshot : QuotaSnapshot F} {current raw raw' : Nat}

variable (current) in
omit [Flt F] in
/-- **The step limits keep the order of two requests**, on either side of the current count. -/
theorem applyStepLimits_mono (hrange : config.fleet.minWorkers ≤ config.fleet.maxWorkers) (h : raw ≤ raw') :
    applyStepLimits raw current config ≤ applyStepLimits raw' current config := by
  have hu := config.fleet.maxWorkersU32
  rw [applyStepLimits_eq hrange, applyStepLimits_eq hrange]
  have hbounded : max config.fleet.minWorkers (min raw config.fleet.maxWorkers) ≤
      max config.fleet.minWorkers (min raw' config.fleet.maxWorkers) :=
    max_le_max_left _ (min_le_min_right _ h)
  have hmax : max config.fleet.minWorkers (min raw' config.fleet.maxWorkers) ≤ config.fleet.maxWorkers :=
    max_le hrange (min_le_right _ _)
  dsimp only
  generalize max config.fleet.minWorkers (min raw config.fleet.maxWorkers) = low at hbounded ⊢
  generalize max config.fleet.minWorkers (min raw' config.fleet.maxWorkers) = high at hbounded hmax ⊢
  refine max_le_max_left _ (min_le_min_left _ ?_)
  unfold satAdd
  split
  · split
    · exact min_le_min_right _ hbounded
    · omega
  · split
    · omega
    · exact max_le_max_right _ hbounded

omit [Flt F] in
theorem capDesired_mono (hrange : config.fleet.minWorkers ≤ config.fleet.maxWorkers)
    (banked : Option (BankedResetDecision F)) (h : raw ≤ raw') :
    capDesired config snapshot current raw banked ≤ capDesired config snapshot current raw' banked := by
  have hstep := applyStepLimits_mono current hrange
    (min_le_min_right (snapshot.eligibleBacklogCapacity.getD u32Max) h)
  unfold capDesired
  dsimp only
  refine min_le_min_right _ ?_
  cases banked with
  | none => exact hstep
  | some plan =>
    dsimp only
    split
    · exact min_le_min_right _ hstep
    · exact min_le_min_right _ hstep

end Stages

/-! ## The raw count -/

section Raw

variable {config : AccountConfig F} {snapshot wider : QuotaSnapshot F} {decisions more : List (WindowDecision F)}
  {current : Nat}

/-- The least count of the windows. -/
def ordinaryDesired (decisions : List (WindowDecision F)) (current : Nat) : Nat :=
  ((Select.minByKey (fun d : WindowDecision F => d.desiredWorkers) decisions).map (·.desiredWorkers)).getD current

omit [Flt F] in
theorem ordinaryDesired_anti (hsub : decisions ⊆ more) (hne : decisions ≠ []) :
    ordinaryDesired more current ≤ ordinaryDesired decisions current := by
  obtain ⟨least, hleast⟩ := Select.minByKey_isSome (fun d : WindowDecision F => d.desiredWorkers) hne
  have hmem : least ∈ decisions := Select.minByKey_mem hleast
  have hle := ordinary_le current (hsub hmem)
  have hvalue : ordinaryDesired decisions current = least.desiredWorkers := by
    rw [ordinaryDesired, hleast]
    rfl
  rw [hvalue]
  exact hle

omit [Flt F] in
theorem le_foldl_guards {bound : Nat} (guards : List (WindowDecision F)) (start : Nat) :
    bound ≤ guards.foldl (fun desired guard => min desired guard.desiredWorkers) start ↔
      bound ≤ start ∧ ∀ d ∈ guards, bound ≤ d.desiredWorkers := by
  induction guards generalizing start with
  | nil => simp
  | cons d guards ih =>
    rw [List.foldl_cons, ih, le_min_iff, List.forall_mem_cons, and_assoc]

omit [Flt F] in
theorem isFullSpeedGuard_mono (hwindows : snapshot.windows ⊆ wider.windows) {d : WindowDecision F}
    (h : isFullSpeedGuard snapshot d = true) : isFullSpeedGuard wider d = true := by
  have hshort : isShortWindow snapshot d.id = true → isShortWindow wider d.id = true := by
    intro hshort
    obtain ⟨w, hw, hw'⟩ := List.any_eq_true.1 hshort
    exact List.any_eq_true.2 ⟨w, hwindows hw, hw'⟩
  simp only [isFullSpeedGuard, Bool.or_eq_true, Bool.and_eq_true] at h ⊢
  exact h.imp_right fun h => ⟨h.1, hshort h.2⟩

omit [Flt F] in
theorem shortWindowReached_mono (hwindows : snapshot.windows ⊆ wider.windows)
    (hdistinct : (wider.windows.map (·.id)).Nodup) (hsub : decisions ⊆ more)
    (h : shortWindowReached snapshot decisions = true) : shortWindowReached wider more = true := by
  obtain ⟨d, hd, hreached⟩ := List.any_eq_true.1 h
  rw [Bool.and_eq_true] at hreached
  refine List.any_eq_true.2 ⟨d, hsub hd, ?_⟩
  rw [Bool.and_eq_true]
  refine ⟨hreached.1, ?_⟩
  obtain ⟨w, hfind, hshort⟩ := (Option.any_eq_true _ _).1 hreached.2
  have hsame := List.find?_some hfind
  have hid : w.id = d.id := beq_iff_eq.1 hsame
  have hwider := find?_window hdistinct (hwindows (List.mem_of_find?_eq_some hfind))
  rw [hid] at hwider
  rw [hwider]
  exact hshort

omit [Flt F] in
/-- **More windows never raise the raw count** under the same plan: the least count, the guards and the reached short
window all read the windows as a set. -/
theorem rawDesired_anti (hwindows : snapshot.windows ⊆ wider.windows)
    (hdistinct : (wider.windows.map (·.id)).Nodup) (hsub : decisions ⊆ more) {ordinary ordinary' : Nat}
    (hordinary : ordinary' ≤ ordinary) (banked : Option (BankedResetDecision F)) :
    rawDesired config wider more ordinary' banked ≤ rawDesired config snapshot decisions ordinary banked := by
  cases banked with
  | none => exact hordinary
  | some plan =>
    unfold rawDesired
    dsimp only
    split
    · exact Nat.le_refl _
    · split
      · refine (le_foldl_guards _ _).2 ⟨?_, fun d hd => ?_⟩
        · exact (foldl_guards_le _ _).1
        · obtain ⟨hmem, hguard⟩ := List.mem_filter.1 hd
          exact (foldl_guards_le _ _).2 d (List.mem_filter.2 ⟨hsub hmem, isFullSpeedGuard_mono hwindows hguard⟩)
      · by_cases hbefore : shortWindowReached snapshot decisions = true
        · have hafter := shortWindowReached_mono hwindows hdistinct hsub hbefore
          rw [hbefore, hafter]
          exact hordinary
        · rw [Bool.not_eq_true] at hbefore
          rw [hbefore]
          simp only [Bool.not_false, if_true]
          split
          · exact max_le_max_right _ hordinary
          · exact Nat.le_trans hordinary (Nat.le_max_left _ _)

end Raw

/-! ## One more window -/

section Evaluate

variable {name : String} {config : AccountConfig F} {snapshot : QuotaSnapshot F} {prior : AccountState F}
  {current : Nat} {now : DateTime} {windows : List (QuotaWindow F)}

/-- The snapshot with these windows in place of its own. -/
def QuotaSnapshot.withWindows (snapshot : QuotaSnapshot F) (windows : List (QuotaWindow F)) : QuotaSnapshot F :=
  { snapshot with windows }

variable (config snapshot prior current now) in
theorem windowDecisions_withWindows (windows : List (QuotaWindow F)) :
    windowDecisions config (snapshot.withWindows windows) prior current now =
      windows.filterMap (windowDecision config snapshot prior current now (bankedAvailable config snapshot)) := rfl

variable (config prior current now) in
theorem windowDecisions_subset (hwindows : snapshot.windows ⊆ windows) :
    windowDecisions config snapshot prior current now ⊆
      windowDecisions config (snapshot.withWindows windows) prior current now := by
  intro d hd
  rw [windowDecisions_withWindows]
  obtain ⟨w, hw, hdecision⟩ := List.mem_filterMap.1 hd
  exact List.mem_filterMap.2 ⟨w, hwindows hw, hdecision⟩

section Raw

variable {w : QuotaWindow F} {policy : ResolvedPolicy F} {target : F}

theorem windowRaw_reached (h : w.reached = true ∨ target ≤ w.usedFraction) :
    windowRaw config snapshot prior current now policy target w = (config.fleet.minWorkers, .targetReached, none) := by
  have hswitch : (w.reached || decide (target ≤ w.usedFraction)) = true := by
    rw [Bool.or_eq_true, decide_eq_true_eq]
    exact h
  exact if_pos hswitch

/-- A ceiling asks for everything until it is reached. -/
theorem windowRaw_ceiling (hceiling : policy.strategy = .ceilingOnly) :
    (windowRaw config snapshot prior current now policy target w).1 =
      if w.reached = true ∨ target ≤ w.usedFraction then config.fleet.minWorkers
      else if w.resetsAt ≤ now then current else config.fleet.maxWorkers := by
  by_cases hreached : w.reached = true ∨ target ≤ w.usedFraction
  · rw [if_pos hreached, windowRaw_reached hreached]
  · have hswitch : (w.reached || decide (target ≤ w.usedFraction)) = false := by
      rw [Bool.eq_false_iff, Ne, Bool.or_eq_true, decide_eq_true_eq]
      exact hreached
    unfold windowRaw
    dsimp only
    rw [hceiling, if_neg hreached, hswitch, if_neg Bool.false_ne_true]
    split
    · rfl
    · rfl

end Raw

/-- Without a banked reset every decision is of an enabled window at its own target. -/
theorem mem_windowDecisions (hunbanked : bankedAvailable config snapshot = false) {d : WindowDecision F} :
    d ∈ windowDecisions config snapshot prior current now ↔
      ∃ w ∈ snapshot.windows, windowDecision config snapshot prior current now false w = some d := by
  unfold windowDecisions
  rw [hunbanked]
  exact List.mem_filterMap

variable (name prior current) in
/-- **One window and no banked reset**: its count within the fleet, capped. -/
theorem evaluate_single (hdisabled : config.bankedResets.enabled = false) {w : QuotaWindow F}
    (hwindows : snapshot.windows = [w]) {policy : ResolvedPolicy F}
    (hpolicy : config.utilization.policyFor w.id = some policy) (hfresh : isStale config snapshot now = false) :
    (evaluate name config snapshot prior current now).map (·.desiredWorkers) =
      .ok (capDesired config snapshot current
        (clampNat (windowRaw config snapshot prior current now policy policy.target w).1 config.fleet.minWorkers
          config.fleet.maxWorkers) none) := by
  have hunbanked := bankedAvailable_disabled snapshot hdisabled
  have htarget : windowTarget config false w policy = policy.target := rfl
  have hdecision : ∃ d, windowDecisions config snapshot prior current now = [d] ∧ d.desiredWorkers =
      clampNat (windowRaw config snapshot prior current now policy policy.target w).1 config.fleet.minWorkers
        config.fleet.maxWorkers := by
    unfold windowDecisions windowDecision
    rw [hunbanked, hwindows, List.filterMap_cons, hpolicy, Option.map_some, htarget]
    exact ⟨_, rfl, rfl⟩
  obtain ⟨d, hdecisions, hdesired⟩ := hdecision
  have hplan := bankedResetDecision_none prior current now hunbanked [d]
  rw [evaluate_fresh hfresh (by rw [hdecisions]; rfl), hdecisions, Except.map, freshDecision, hplan, ← hdesired]
  rfl

variable (name) in
/-- **More windows under the same plan never raise a decision.** -/
theorem evaluate_anti (hrange : config.fleet.minWorkers ≤ config.fleet.maxWorkers)
    (hwindows : snapshot.windows ⊆ windows) (hdistinct : (windows.map (·.id)).Nodup)
    (hplan : bankedResetDecision config (snapshot.withWindows windows)
        (windowDecisions config (snapshot.withWindows windows) prior current now) prior current now =
      bankedResetDecision config snapshot (windowDecisions config snapshot prior current now) prior current now)
    {d : Decision F} (h : evaluate name config snapshot prior current now = .ok d) :
    ∃ d', evaluate name config (snapshot.withWindows windows) prior current now = .ok d' ∧
      d'.desiredWorkers ≤ d.desiredWorkers := by
  rcases evaluate_ok h with ⟨hstale, rfl⟩ | ⟨hfresh, hne, rfl⟩
  · exact ⟨_, if_pos hstale, Nat.le_refl _⟩
  · have hsub := windowDecisions_subset config prior current now hwindows
    have hne' : (windowDecisions config (snapshot.withWindows windows) prior current now).isEmpty = false := by
      rw [List.isEmpty_eq_false_iff]
      intro hnil
      rw [hnil, List.subset_nil] at hsub
      exact hne hsub
    refine ⟨_, evaluate_fresh hfresh hne', ?_⟩
    unfold freshDecision
    dsimp only
    rw [hplan]
    exact capDesired_mono hrange _ (rawDesired_anti hwindows hdistinct hsub (ordinaryDesired_anti hsub hne) _)

/-- A window that is no weekly one leaves the governing window as it is. -/
theorem governingWindow_insert {l₁ l₂ : List (QuotaWindow F)} {w : QuotaWindow F}
    (hwindows : snapshot.windows = l₁ ++ l₂) (hshort : isWeeklyWindow w.durationMinutes = false) :
    governingWindow (snapshot.withWindows (l₁ ++ w :: l₂)) = governingWindow snapshot := by
  unfold governingWindow QuotaSnapshot.withWindows
  dsimp only
  rw [hwindows, List.filter_append, List.filter_append, List.filter_cons_of_neg (by rw [hshort]; exact nofun)]

/-- The decision of a window is found among those of more windows too. -/
theorem find?_windowDecisions_insert {l₁ l₂ : List (QuotaWindow F)} {w : QuotaWindow F} {id : String}
    (hwindows : snapshot.windows = l₁ ++ l₂) (hother : w.id ≠ id) :
    (windowDecisions config (snapshot.withWindows (l₁ ++ w :: l₂)) prior current now).find? (fun d => d.id == id) =
      (windowDecisions config snapshot prior current now).find? (fun d => d.id == id) := by
  rw [windowDecisions_withWindows]
  unfold windowDecisions
  rw [hwindows, List.filterMap_append, List.filterMap_append, List.find?_append, List.find?_append,
    List.filterMap_cons]
  cases hdecision : windowDecision config snapshot prior current now (bankedAvailable config snapshot) w with
  | none => rfl
  | some d =>
    have hno : (d.id == id) = false := by
      rw [windowDecision_id hdecision]
      exact beq_eq_false_iff_ne.2 hother
    dsimp only
    rw [List.find?_cons, hno]

/-- **A short window leaves the plan as it is**, and any window does without banked resets. -/
theorem bankedResetDecision_insert {l₁ l₂ : List (QuotaWindow F)} {w : QuotaWindow F}
    (hwindows : snapshot.windows = l₁ ++ l₂) (hdistinct : ((l₁ ++ w :: l₂).map (·.id)).Nodup)
    (hplain : isWeeklyWindow w.durationMinutes = false ∨ config.bankedResets.enabled = false) :
    bankedResetDecision config (snapshot.withWindows (l₁ ++ w :: l₂))
        (windowDecisions config (snapshot.withWindows (l₁ ++ w :: l₂)) prior current now) prior current now =
      bankedResetDecision config snapshot (windowDecisions config snapshot prior current now) prior current now := by
  unfold bankedResetDecision
  rcases hplain with hshort | hdisabled
  · rw [governingWindow_insert hwindows hshort]
    cases hgoverning : governingWindow snapshot with
    | none => rfl
    | some governing =>
      have hmem := (governingWindow_mem hgoverning).1
      have hother : w.id ≠ governing.id := by
        rw [hwindows] at hmem
        rw [List.map_append, List.map_cons, List.nodup_middle, List.nodup_cons, ← List.map_append] at hdistinct
        exact fun hsame => hdistinct.1 (List.mem_map.2 ⟨governing, hmem, hsame.symm⟩)
      dsimp only
      rw [find?_windowDecisions_insert hwindows hother]
      rfl
  · rw [hdisabled]
    rfl

/-- **Observing one more window is never less conservative**, if it is a short one or no reset is banked; and
without banked resets the order of the windows is of no account. -/
theorem evaluate_more_windows (name : String)
    (hrange : config.fleet.minWorkers ≤ config.fleet.maxWorkers) {d : Decision F}
    (h : evaluate name config snapshot prior current now = .ok d) :
    (∀ l₁ l₂ w, snapshot.windows = l₁ ++ l₂ → ((l₁ ++ w :: l₂).map (·.id)).Nodup →
      (isWeeklyWindow w.durationMinutes = false ∨ config.bankedResets.enabled = false) →
      ∃ d', evaluate name config (snapshot.withWindows (l₁ ++ w :: l₂)) prior current now = .ok d' ∧
        d'.desiredWorkers ≤ d.desiredWorkers) ∧
    (∀ windows, windows.Perm snapshot.windows → (windows.map (·.id)).Nodup → config.bankedResets.enabled = false →
      ∃ d', evaluate name config (snapshot.withWindows windows) prior current now = .ok d' ∧
        d'.desiredWorkers = d.desiredWorkers) := by
  constructor
  · intro l₁ l₂ w hwindows hdistinct hplain
    have hsub : snapshot.windows ⊆ l₁ ++ w :: l₂ := by
      rw [hwindows]
      exact fun v hv => List.mem_append.2 ((List.mem_append.1 hv).imp_right (List.mem_cons_of_mem w))
    exact evaluate_anti name hrange hsub hdistinct (bankedResetDecision_insert hwindows hdistinct hplain) h
  · intro windows hperm hdistinct hdisabled
    have hnone : ∀ (snapshot : QuotaSnapshot F) (decisions : List (WindowDecision F)),
        bankedResetDecision config snapshot decisions prior current now = none :=
      fun snapshot => bankedResetDecision_none prior current now (bankedAvailable_disabled snapshot hdisabled)
    obtain ⟨d', h', hle⟩ := evaluate_anti name hrange hperm.symm.subset hdistinct
      ((hnone _ _).trans (hnone _ _).symm) h
    refine ⟨d', h', Nat.le_antisymm hle ?_⟩
    have hback : (snapshot.withWindows windows).windows ⊆ snapshot.windows := hperm.subset
    obtain ⟨d'', h'', hle'⟩ := evaluate_anti name hrange hback ((hperm.map _).nodup_iff.1 hdistinct)
      ((hnone _ _).trans (hnone _ _).symm) h'
    have hsame : d = d'' := Except.ok.inj (h.symm.trans h'')
    rw [hsame]
    exact hle'

end Evaluate

/-! ### A fleet without banked resets -/

def plainAccount : AccountConfig F64 :=
  { pacedAccount with bankedResets := { pacedAccount.bankedResets with enabled := false } }

def plainDecision (windows : List (QuotaWindow F64)) : Decision F64 :=
  freshDecision "codex" plainAccount (pacedSnapshot windows 20) hourAgo 2 (hours 1)
    (windowDecisions plainAccount (pacedSnapshot windows 20) hourAgo 2 (hours 1))

/-- A used-up day between a week and five hours, and the same two the other way round. -/
theorem evaluate_more_windows_plain :
    (∃ d', evaluate "codex" plainAccount
        ((pacedSnapshot [week, fiveHours] 20).withWindows [week, { weekUsed with id := "day" }, fiveHours]) hourAgo 2
          (hours 1) = .ok d' ∧ d'.desiredWorkers ≤ (plainDecision [week, fiveHours]).desiredWorkers) ∧
    (∃ d', evaluate "codex" plainAccount ((pacedSnapshot [week, fiveHours] 20).withWindows [fiveHours, week]) hourAgo 2
        (hours 1) = .ok d' ∧ d'.desiredWorkers = (plainDecision [week, fiveHours]).desiredWorkers) := by
  have hevaluated : evaluate "codex" plainAccount (pacedSnapshot [week, fiveHours] 20) hourAgo 2 (hours 1) =
      .ok (plainDecision [week, fiveHours]) := evaluate_fresh (by decide +kernel) rfl
  obtain ⟨hmore, horder⟩ := evaluate_more_windows "codex" (by decide) hevaluated
  exact ⟨hmore [week] [fiveHours] { weekUsed with id := "day" } rfl (by decide) (Or.inr rfl),
    horder [fiveHours, week] (List.Perm.swap _ _ _) (by decide) rfl⟩

end Subgov
