import Mathlib.Data.List.Chain
import Subgov.Redemption
/-!
# BurnLearning — when a paced window goes on learning

The two-point estimator compares a snapshot with the one recorded just before it, and asks for
`minimum_sample_seconds` between them; an older record is gone by then.  `never_starved_iff` says over whole runs what
spacing of the snapshots that takes.
-/
namespace Subgov

open FloatArith

variable {F : Type} [Flt F]

/-- A window paced to its reset by the two-point estimator. -/
def TwoPoint (config : AccountConfig F) (id : String) (policy : ResolvedPolicy F) : Prop :=
  config.utilization.policyFor id = some policy ∧ policy.strategy = .linearToReset ∧ policy.burnRateWindowSeconds = none

/-- The evaluation of a cycle still learns a window's burn rate. -/
def Learns (name : String) (config : AccountConfig F) (prior : AccountState F) (c : QuotaCycle F) (id : String) :
    Prop :=
  ∃ d, evaluate name config c.snapshot prior c.current c.now = .ok d ∧
    ∃ w ∈ d.windows, w.id = id ∧ w.reason = .learningBurnRate

variable {name : String} {config : AccountConfig F} {id : String} {policy : ResolvedPolicy F}

/-! ## One cycle -/

section Cycle

variable {prior : AccountState F} {c : QuotaCycle F} {w : QuotaWindow F}

/-- The window's own reason decides, in a fresh snapshot. -/
theorem learns_iff_raw (hfresh : isStale config c.snapshot c.now = false)
    (hdistinct : (c.snapshot.windows.map (·.id)).Nodup) (hw : w ∈ c.snapshot.windows)
    (hpolicy : config.utilization.policyFor w.id = some policy) :
    Learns name config prior c w.id ↔
      (windowRaw config c.snapshot prior c.current c.now policy
        (windowTarget config (bankedAvailable config c.snapshot) w policy) w).2.1 = .learningBurnRate := by
  obtain ⟨d, hd⟩ : ∃ d, windowDecision config c.snapshot prior c.current c.now (bankedAvailable config c.snapshot) w =
      some d := by
    unfold windowDecision
    rw [hpolicy]
    exact ⟨_, rfl⟩
  have hreason : d.reason = (windowRaw config c.snapshot prior c.current c.now policy
      (windowTarget config (bankedAvailable config c.snapshot) w policy) w).2.1 := by
    unfold windowDecision at hd
    rw [hpolicy, Option.map_some, Option.some.injEq] at hd
    rw [← hd]
  have hmem : d ∈ windowDecisions config c.snapshot prior c.current c.now := List.mem_filterMap.2 ⟨w, hw, hd⟩
  rw [← hreason]
  constructor
  · rintro ⟨d', heval, w', hw', hid, hlearning⟩
    rcases evaluate_ok heval with ⟨hstale, -⟩ | ⟨-, -, rfl⟩
    · rw [hfresh] at hstale
      cases hstale
    · obtain ⟨v, hv, hv'⟩ := List.mem_filterMap.1 hw'
      have hfound := find?_window hdistinct hv
      rw [← windowDecision_id hv', hid, find?_window hdistinct hw, Option.some.injEq] at hfound
      rw [← hfound, hd, Option.some.injEq] at hv'
      rw [hv']
      exact hlearning
  · intro hlearning
    exact ⟨_, evaluate_fresh hfresh (List.isEmpty_eq_false_iff_exists_mem.2 ⟨d, hmem⟩), d, hmem, windowDecision_id hd,
      hlearning⟩

/-- **A window whose last sample is usable but for its age learns exactly while that sample is too young**, the window
neither reached nor due, and the fleet not empty. -/
theorem raw_learning_iff {sample : WindowSample F} {target : F} (hpolicy : TwoPoint config w.id policy)
    (hsample : prior.windows[w.id]? = some sample)
    (hgeneration : sameResetGeneration sample.resetsAt w.resetsAt = true)
    (hused : sample.usedFraction ≤ w.usedFraction) (hworkers : 0 < sample.workers)
    (hbelow : ¬ target ≤ w.usedFraction) (current : Nat) (now : DateTime) :
    (windowRaw config c.snapshot prior current now policy target w).2.1 = .learningBurnRate ↔
      w.reached = false ∧ now < w.resetsAt ∧ current ≠ 0 ∧
        ¬ asI64 config.utilization.minimumSampleSeconds ≤ numSeconds (c.snapshot.observedAt - sample.observedAt) := by
  obtain ⟨-, hlinear, htwo⟩ := hpolicy
  unfold windowRaw
  dsimp only
  by_cases hreached : w.reached = true
  · simp [hreached]
  · have hopen : (w.reached || decide (target ≤ w.usedFraction)) = false := by simp [hreached, hbelow]
    rw [hopen, if_neg Bool.false_ne_true]
    by_cases hdue : w.resetsAt ≤ now
    · simp [hdue, Int.not_lt.2 hdue]
    · rw [if_neg hdue, hlinear, hsample]
      dsimp only
      by_cases hold : asI64 config.utilization.minimumSampleSeconds ≤
          numSeconds (c.snapshot.observedAt - sample.observedAt)
      · have husable : usableSample config c.snapshot w policy sample = true := by
          simp [usableSample, hgeneration, hold, hused, hworkers]
        rw [Option.filter_some, if_pos husable]
        dsimp only
        split
        · simp [hold]
        · simp [hold]
      · have hyoung : usableSample config c.snapshot w policy sample = false := by
          simp [usableSample, htwo, hold]
        rw [Option.filter_some, if_neg (by rw [hyoung]; exact Bool.false_ne_true)]
        dsimp only
        by_cases hempty : current = 0
        · simp [hempty]
        · simp [hempty, hold, hreached, Int.not_le.1 hdue]

end Cycle

/-! ## Runs -/

def recordAll (prior : AccountState F) (cycles : List (QuotaCycle F)) : AccountState F :=
  cycles.foldl (fun a c => a.record c.snapshot c.workers c.target) prior

/-- A snapshot is as much older than another as the estimator asks for. -/
def Spaced (config : AccountConfig F) (older newer : QuotaCycle F) : Prop :=
  (config.utilization.minimumSampleSeconds : Int) ≤
    numSeconds (newer.snapshot.observedAt - older.snapshot.observedAt)

/-- The window's readings in two successive cycles: of one generation, and rising. -/
def Rises (id : String) (c c' : QuotaCycle F) : Prop :=
  ∀ w ∈ c.snapshot.windows, w.id = id → ∀ w' ∈ c'.snapshot.windows, w'.id = id →
    sameResetGeneration w.resetsAt w'.resetsAt = true ∧ w.usedFraction < w'.usedFraction

instance (config : AccountConfig F) (older newer : QuotaCycle F) : Decidable (Spaced config older newer) :=
  inferInstanceAs (Decidable (_ ≤ _))

instance (id : String) (c c' : QuotaCycle F) : Decidable (Rises id c c') :=
  inferInstanceAs (Decidable (∀ w ∈ c.snapshot.windows, w.id = id → ∀ w' ∈ c'.snapshot.windows, w'.id = id → _ ∧ _))

/-- A run of fresh snapshots in which the window rises below its target, with workers recorded in every cycle. -/
structure RisingRun (config : AccountConfig F) (id : String) (policy : ResolvedPolicy F)
    (cycles : List (QuotaCycle F)) : Prop where
  fresh : ∀ c ∈ cycles, isStale config c.snapshot c.now = false
  distinct : ∀ c ∈ cycles, (c.snapshot.windows.map (·.id)).Nodup
  workers : ∀ c ∈ cycles, 0 < c.workers
  below : ∀ c ∈ cycles, ∃ w ∈ c.snapshot.windows, w.id = id ∧
    w.usedFraction < windowTarget config (bankedAvailable config c.snapshot) w policy
  rises : cycles.IsChain (Rises id)

/-- Where some earlier snapshot is old enough, the window does not learn any more. -/
def NeverStarved (name : String) (config : AccountConfig F) (prior : AccountState F) (id : String)
    (cycles : List (QuotaCycle F)) : Prop :=
  ∀ before c after, cycles = before ++ c :: after → (∃ older ∈ before, Spaced config older c) →
    ¬ Learns name config (recordAll prior before) c id

/-- Where some earlier snapshot is old enough, so is the last, or no estimate is asked for. -/
def LastSpaced (config : AccountConfig F) (id : String) (cycles : List (QuotaCycle F)) : Prop :=
  ∀ before c after, cycles = before ++ c :: after → (∃ older ∈ before, Spaced config older c) →
    ∀ last, before.getLast? = some last → Spaced config last c ∨ c.current = 0 ∨
      ∀ w ∈ c.snapshot.windows, w.id = id → w.reached = true ∨ w.resetsAt ≤ c.now

theorem validate_minimumSample (h : config.validate name = .ok ()) :
    asI64 config.utilization.minimumSampleSeconds = config.utilization.minimumSampleSeconds := by
  simp only [AccountConfig.validate, validateDuration, andThen_ok, ensure_ok, decide_eq_true_eq] at h
  exact if_pos h.2.2.2.1.2

theorem record_windows {prior : AccountState F} {c : QuotaCycle F}
    (hdistinct : (c.snapshot.windows.map (·.id)).Nodup) {w : QuotaWindow F} (hw : w ∈ c.snapshot.windows) :
    (prior.record c.snapshot c.workers c.target).windows[w.id]? = some (windowSample c.snapshot c.workers w) := by
  show (recordWindows c.snapshot c.workers)[w.id]? = _
  rw [recordWindows_getElem? _ _ _ hdistinct, find?_window hdistinct hw]
  rfl

/-- **After a cycle only the spacing to it counts.** -/
theorem learns_after_iff {cycles before after : List (QuotaCycle F64)} {config : AccountConfig F64}
    {policy : ResolvedPolicy F64} {prior : AccountState F64} {last c : QuotaCycle F64}
    (hvalid : config.validate name = .ok ()) (hpolicy : TwoPoint config id policy)
    (hrun : RisingRun config id policy cycles) (hsplit : cycles = before ++ last :: c :: after) :
    Learns name config (recordAll prior (before ++ [last])) c id ↔
      ¬ (Spaced config last c ∨ c.current = 0 ∨
        ∀ w ∈ c.snapshot.windows, w.id = id → w.reached = true ∨ w.resetsAt ≤ c.now) := by
  have hlast : last ∈ cycles := by simp [hsplit]
  have hc : c ∈ cycles := by simp [hsplit]
  obtain ⟨w, hw, hid, hbelow⟩ := hrun.below c hc
  obtain ⟨v, hv, hvid, -⟩ := hrun.below last hlast
  have hrises := hrun.rises
  rw [hsplit] at hrises
  obtain ⟨hgeneration, hless⟩ := (List.isChain_append_cons_cons.1 hrises).2.1 v hv hvid w hw hid
  have hsample : (recordAll prior (before ++ [last])).windows[w.id]? =
      some (windowSample last.snapshot last.workers v) := by
    unfold recordAll
    rw [List.foldl_append, List.foldl_cons, List.foldl_nil, hid, ← hvid]
    exact record_windows (hrun.distinct last hlast) hv
  have hused : v.usedFraction ≤ w.usedFraction := by
    rw [F64.lt_iff] at hless
    exact (F64.le_iff _ _).2 ⟨hless.1, hless.2.1, le_of_lt hless.2.2⟩
  have hnot : ¬ windowTarget config (bankedAvailable config c.snapshot) w policy ≤ w.usedFraction := by
    rw [F64.lt_iff] at hbelow
    rw [F64.le_iff]
    exact fun h => absurd hbelow.2.2 (not_lt.2 h.2.2)
  subst hid
  have hraw := raw_learning_iff (c := c) hpolicy hsample hgeneration hused (hrun.workers last hlast) hnot c.current c.now
  rw [learns_iff_raw (hrun.fresh c hc) (hrun.distinct c hc) hw hpolicy.1, hraw, validate_minimumSample hvalid]
  have honly : (∀ u ∈ c.snapshot.windows, u.id = w.id → u.reached = true ∨ u.resetsAt ≤ c.now) ↔
      (w.reached = true ∨ w.resetsAt ≤ c.now) := by
    constructor
    · exact fun h => h w hw rfl
    · intro h u hu huid
      have hsame := find?_window (hrun.distinct c hc) hu
      rw [huid, find?_window (hrun.distinct c hc) hw, Option.some.injEq] at hsame
      rw [← hsame]
      exact h
  rw [honly]
  show _ ∧ _ ∧ _ ∧ ¬ Spaced config last c ↔ _
  simp only [not_or, Bool.not_eq_true, Int.not_le]
  constructor
  · rintro ⟨hreached, hdue, hcurrent, hyoung⟩
    exact ⟨hyoung, hcurrent, hreached, hdue⟩
  · rintro ⟨hyoung, hcurrent, hreached, hdue⟩
    exact ⟨hreached, hdue, hcurrent, hyoung⟩

/-- **Learning is never starved exactly where the last snapshot is old enough whenever any is.** -/
theorem never_starved_iff {config : AccountConfig F64} {policy : ResolvedPolicy F64} {prior : AccountState F64}
    {cycles : List (QuotaCycle F64)} (hvalid : config.validate name = .ok ()) (hpolicy : TwoPoint config id policy)
    (hrun : RisingRun config id policy cycles) :
    NeverStarved name config prior id cycles ↔ LastSpaced config id cycles := by
  constructor
  · intro hnever before c after hsplit holder last hlast
    obtain ⟨before, rfl⟩ := List.getLast?_eq_some_iff.1 hlast
    have hlearns := hnever _ c after hsplit holder
    rw [learns_after_iff hvalid hpolicy hrun (by rw [hsplit, List.append_assoc]; rfl)] at hlearns
    exact not_not.1 hlearns
  · intro hspaced before c after hsplit holder
    rcases List.eq_nil_or_concat before with rfl | ⟨before, last, rfl⟩
    · obtain ⟨older, hmem, -⟩ := holder
      cases hmem
    · rw [List.concat_eq_append] at hsplit holder ⊢
      rw [learns_after_iff hvalid hpolicy hrun (by rw [hsplit, List.append_assoc]; rfl)]
      exact not_not.2 (hspaced _ c after hsplit holder last (by simp))

omit [Flt F] in
/-- Snapshots that are each old enough for the next. -/
theorem lastSpaced_of_isChain {config : AccountConfig F} {cycles : List (QuotaCycle F)}
    (h : cycles.IsChain (Spaced config)) : LastSpaced config id cycles := by
  intro before c after hsplit _ last hlast
  obtain ⟨before, rfl⟩ := List.getLast?_eq_some_iff.1 hlast
  rw [hsplit, List.append_assoc] at h
  exact Or.inl (List.isChain_append_cons_cons.1 h).2.1

/-! ### Polls half as far apart as a sample must be old -/

/-- Two workers, and a five-hour window that rises by a tenth from poll to poll. -/
def poll (n seconds : Nat) : QuotaCycle F64 where
  snapshot :=
    { observedAt := seconds * nanosPerSecond, fresh := true, eligibleBacklogCapacity := none, resetCredits := none,
      backpressure := none, saturation := none,
      windows := [{ fiveHours with usedFraction := Flt.ofRat (n / 10) }] }
  current := 2
  now := seconds * nanosPerSecond
  workers := 2
  target := 2

def pacedPolicy : ResolvedPolicy F64 :=
  { burnRateWindowSeconds := none, target := Flt.ofRat (9 / 10), strategy := .linearToReset }

theorem pacedAccount_twoPoint : TwoPoint pacedAccount "5h" pacedPolicy := ⟨rfl, rfl, rfl⟩

/-- The third poll is a minute after the first, and half a minute after the one it is compared with. -/
theorem learning_starved :
    ¬ ∀ (name : String) (config : AccountConfig F64) (id : String) (policy : ResolvedPolicy F64)
      (cycles : List (QuotaCycle F64)), config.validate name = .ok () → TwoPoint config id policy →
      RisingRun config id policy cycles → NeverStarved name config {} id cycles := by
  intro hall
  have hrun : RisingRun pacedAccount "5h" pacedPolicy [poll 1 0, poll 2 30, poll 3 60] :=
    ⟨by decide +kernel, by decide +kernel, by decide, by decide +kernel, by decide +kernel⟩
  have hnever := hall "codex" pacedAccount "5h" pacedPolicy _ pacedAccount_valid pacedAccount_twoPoint hrun
  refine hnever [poll 1 0, poll 2 30] (poll 3 60) [] rfl ⟨poll 1 0, by simp, by decide +kernel⟩ ?_
  exact ⟨_, evaluate_fresh (by decide +kernel) (by decide +kernel), by decide +kernel⟩

theorem learning_ends_spaced :
    NeverStarved "codex" pacedAccount {} "5h" [poll 1 0, poll 2 60, poll 3 120] := by
  have hrun : RisingRun pacedAccount "5h" pacedPolicy [poll 1 0, poll 2 60, poll 3 120] :=
    ⟨by decide +kernel, by decide +kernel, by decide, by decide +kernel, by decide +kernel⟩
  exact (never_starved_iff pacedAccount_valid pacedAccount_twoPoint hrun).2
    (lastSpaced_of_isChain (by decide +kernel))

end Subgov
