import Mathlib.Algebra.Order.Field.Basic
import Subgov.BurnLearning
import Subgov.WindowOrder
/-!
# UsageOrder — a higher reading of a paced window

The two-point estimator learns a higher burn from a higher reading while less of the window remains to be burned, so
that the quotient of the two falls.  `evaluate_usage_anti` carries that through the tolerant ceiling, the switch at the
target and the step limits.
-/
namespace Subgov

open FloatArith

/-! ## The tolerant ceiling -/

/-- A quotient rounds to a whole number at most a half away. -/
theorem roundHalfAway_near (x : ℚ) : ∃ k : ℤ, roundHalfAway x = k ∧ (k : ℚ) - 1 / 2 ≤ x ∧ x ≤ k + 1 / 2 := by
  unfold roundHalfAway
  split
  · refine ⟨⌊x + 1 / 2⌋, rfl, ?_, ?_⟩
    · linarith [Int.floor_le (x + 1 / 2)]
    · linarith [Int.lt_floor_add_one (x + 1 / 2)]
  · refine ⟨⌈x - 1 / 2⌉, rfl, ?_, ?_⟩
    · linarith [Int.ceil_lt_add_one (x - 1 / 2)]
    · linarith [Int.le_ceil (x - 1 / 2)]

/-- The quotient rounded up, unless it is a whole number to within `1e-9`. -/
def wholeWorkers (ratio : ℚ) : ℚ :=
  if Flt.abs (ratio - Flt.round ratio) < Flt.ofRat (1 / 1000000000) then Flt.round ratio else Flt.ceil ratio

theorem wholeWorkers_spec (ratio : ℚ) :
    ∃ k : ℤ, wholeWorkers ratio = k ∧ ∀ m : ℤ, k ≤ m ↔ ratio < m + 1 / 1000000000 := by
  obtain ⟨r, hround, hlow, hhigh⟩ := roundHalfAway_near ratio
  have habs : Flt.abs (ratio - Flt.round ratio) = |ratio - r| := by
    show (if 0 ≤ ratio - roundHalfAway ratio then ratio - roundHalfAway ratio else -(ratio - roundHalfAway ratio)) = _
    rw [hround]
    split
    case isTrue h => exact (abs_of_nonneg h).symm
    case isFalse h => exact (abs_of_neg (not_le.1 h)).symm
  have htolerance : (Flt.ofRat (1 / 1000000000) : ℚ) = 1 / 1000000000 := rfl
  unfold wholeWorkers
  rw [habs, htolerance]
  by_cases hnear : |ratio - r| < 1 / 1000000000
  · rw [if_pos hnear]
    refine ⟨r, hround, fun m => ?_⟩
    obtain ⟨hbelow, habove⟩ := abs_lt.1 hnear
    constructor
    · intro hle
      have hcast : (r : ℚ) ≤ m := by exact_mod_cast hle
      linarith
    · intro hlt
      by_contra hgt
      have hcast : (m : ℚ) + 1 ≤ r := by exact_mod_cast not_le.1 hgt
      linarith
  · rw [if_neg hnear]
    refine ⟨⌈ratio⌉, rfl, fun m => ?_⟩
    rw [Int.ceil_le]
    constructor
    · intro hle
      linarith
    · intro hlt
      by_contra hgt
      -- just above a whole number, the quotient would round to it
      have hsame : r = m := by
        have hup : (r : ℚ) < m + 1 := by linarith
        have hdown : (m : ℚ) < r + 1 := by linarith [not_le.1 hgt]
        have hup' : r < m + 1 := by exact_mod_cast hup
        have hdown' : m < r + 1 := by exact_mod_cast hdown
        omega
      refine hnear (abs_lt.2 ⟨?_, ?_⟩)
      · rw [hsame]
        linarith [not_le.1 hgt]
      · rw [hsame]
        linarith

/-- Below the largest count, a count suffices where the quotient exceeds it by less than the tolerance. -/
theorem workersForRate_le_iff (required perWorker : ℚ) {n : Nat} (hn : n < u32Max) :
    workersForRate required perWorker ≤ n ↔ required / perWorker < n + 1 / 1000000000 := by
  obtain ⟨k, hk, hspec⟩ := wholeWorkers_spec (required / perWorker)
  have hworkers : workersForRate required perWorker =
      Flt.toUInt u32Max (Flt.min (Flt.max (wholeWorkers (required / perWorker)) Flt.zero) (Flt.ofNat u32Max : ℚ)) := rfl
  have hmax : Flt.max (k : ℚ) Flt.zero = ((max k 0 : ℤ) : ℚ) := by
    show (if (k : ℚ) ≤ 0 then (0 : ℚ) else k) = _
    split
    case isTrue h => rw [max_eq_right (by exact_mod_cast h), Int.cast_zero]
    case isFalse h => rw [max_eq_left (by exact_mod_cast (not_le.1 h).le)]
  have hmin : Flt.min ((max k 0 : ℤ) : ℚ) (Flt.ofNat u32Max) = ((min (max k 0) u32Max : ℤ) : ℚ) := by
    show (if ((max k 0 : ℤ) : ℚ) ≤ ((u32Max : ℕ) : ℚ) then ((max k 0 : ℤ) : ℚ) else ((u32Max : ℕ) : ℚ)) = _
    split
    case isTrue h => rw [min_eq_left (by exact_mod_cast h)]
    case isFalse h =>
      rw [min_eq_right (by exact_mod_cast (not_le.1 h).le)]
      rfl
  have hcount : workersForRate required perWorker = min u32Max (min (max k 0) u32Max).toNat := by
    rw [hworkers, hk, hmax, hmin]
    show min u32Max ⌊((min (max k 0) u32Max : ℤ) : ℚ)⌋.toNat = _
    rw [Int.floor_intCast]
  have hspec' := hspec n
  rw [Int.cast_natCast] at hspec'
  rw [hcount, ← hspec']
  omega

/-- **A lower quotient never asks for more workers.** -/
theorem workersForRate_mono {required perWorker required' perWorker' : ℚ}
    (h : required' / perWorker' ≤ required / perWorker) :
    workersForRate required' perWorker' ≤ workersForRate required perWorker := by
  by_cases hn : workersForRate required perWorker < u32Max
  · have hbound := (workersForRate_le_iff required perWorker hn).1 (Nat.le_refl _)
    exact (workersForRate_le_iff required' perWorker' hn).2 (lt_of_le_of_lt h hbound)
  · have hall : workersForRate required' perWorker' ≤ u32Max := by
      unfold workersForRate
      dsimp only
      split
      · exact Nat.le_refl _
      · exact Nat.min_le_left _ _
    omega

theorem numMilliseconds_mono {d d' : Duration} (h : d ≤ d') : numMilliseconds d ≤ numMilliseconds d' :=
  Int.tdiv_le_tdiv (by decide) h

theorem hoursOf_pos {d : Duration} (h : 1 ≤ numMilliseconds d) : (0 : ℚ) < hoursOf d :=
  div_pos (Int.cast_pos.2 h) (Nat.cast_pos.2 (by decide))

theorem positiveFinite_exact (rate : ℚ) : positiveFinite rate = if 0 < rate then some rate else none := by
  have hpositive : (Flt.isFinite rate && decide (Flt.zero < rate)) = decide (0 < rate) := Bool.true_and _
  unfold positiveFinite
  rw [hpositive]
  exact if_congr decide_eq_true_iff rfl rfl

/-! ## The raw count of the window -/

/-- The window as another reading has it. -/
def QuotaWindow.atUsage {F : Type} (w : QuotaWindow F) (usage : F) : QuotaWindow F := { w with usedFraction := usage }

section Raw

variable {config : AccountConfig ℚ} {snapshot : QuotaSnapshot ℚ} {prior : AccountState ℚ} {current : Nat}
  {now : DateTime} {w : QuotaWindow ℚ} {policy : ResolvedPolicy ℚ} {sample : WindowSample ℚ} {usage usage' : ℚ}

/-- A sample of the window's generation, with workers, and as old as the estimator asks for. -/
structure Comparable (config : AccountConfig ℚ) (snapshot : QuotaSnapshot ℚ) (w : QuotaWindow ℚ)
    (sample : WindowSample ℚ) : Prop where
  generation : sameResetGeneration sample.resetsAt w.resetsAt = true
  workers : 0 < sample.workers
  old : asI64 config.utilization.minimumSampleSeconds ≤ numSeconds (snapshot.observedAt - sample.observedAt)

theorem Comparable.usable (h : Comparable config snapshot w sample) (hrise : sample.usedFraction ≤ usage) :
    usableSample config snapshot (w.atUsage usage) policy sample = true := by
  unfold usableSample
  simp only [Bool.and_eq_true, Bool.or_eq_true, decide_eq_true_eq]
  exact ⟨⟨⟨h.generation, Or.inr h.old⟩, hrise⟩, h.workers⟩

/-- The burn of a worker between the sample and a reading. -/
def perWorkerBurn (snapshot : QuotaSnapshot ℚ) (sample : WindowSample ℚ) (usage : ℚ) : ℚ :=
  (usage - sample.usedFraction) / hoursOf (snapshot.observedAt - sample.observedAt) / Flt.ofNat sample.workers

/-- **Below its target and before its reset, the window asks for what its pace takes**, or for the current count where
no burn is measured. -/
theorem windowRaw_paced (hpolicy : TwoPoint config w.id policy) (hsample : prior.windows[w.id]? = some sample)
    (hcomparable : Comparable config snapshot w sample) (hrise : sample.usedFraction ≤ usage)
    (hopen : w.reached = false) (hbelow : ¬ policy.target ≤ usage) (hahead : ¬ w.resetsAt ≤ now) :
    (windowRaw config snapshot prior current now policy policy.target (w.atUsage usage)).1 =
      if 0 < perWorkerBurn snapshot sample usage
      then workersForRate ((policy.target - usage) / hoursOf (w.resetsAt - now)) (perWorkerBurn snapshot sample usage)
      else current := by
  obtain ⟨-, hlinear, htwo⟩ := hpolicy
  have hnot : ((w.atUsage usage).reached || decide (policy.target ≤ (w.atUsage usage).usedFraction)) = false := by
    show (w.reached || decide (policy.target ≤ usage)) = false
    rw [hopen, Bool.false_or]
    exact decide_eq_false hbelow
  have hdue : ¬ (w.atUsage usage).resetsAt ≤ now := hahead
  have hkept : prior.windows[(w.atUsage usage).id]?.filter
      (usableSample config snapshot (w.atUsage usage) policy) = some sample := by
    show prior.windows[w.id]?.filter _ = some sample
    rw [hsample, Option.filter_some, if_pos (hcomparable.usable hrise)]
  have hrate : windowBurnRate config snapshot (w.atUsage usage) policy prior current sample =
      positiveFinite (perWorkerBurn snapshot sample usage) := by
    unfold windowBurnRate
    rw [htwo]
    rfl
  unfold windowRaw
  dsimp only
  rw [hnot, if_neg Bool.false_ne_true, if_neg hdue, hlinear]
  dsimp only
  rw [hkept]
  dsimp only
  rw [hrate, positiveFinite_exact]
  by_cases hburn : 0 < perWorkerBurn snapshot sample usage
  · rw [if_pos hburn, if_pos hburn]
    rfl
  · rw [if_neg hburn, if_neg hburn]

variable (current) in
/-- **A higher reading never asks for more**, within the fleet: the rate still to be burned falls and the burn of a
worker rises. -/
theorem boundedRaw_anti (hrange : config.fleet.minWorkers ≤ config.fleet.maxWorkers)
    (hpolicy : TwoPoint config w.id policy) (hsample : prior.windows[w.id]? = some sample)
    (hcomparable : Comparable config snapshot w sample) (hahead : 1 ≤ numMilliseconds (w.resetsAt - now))
    (hrise : sample.usedFraction < usage) (hmore : usage ≤ usage') :
    clampNat (windowRaw config snapshot prior current now policy policy.target (w.atUsage usage')).1
        config.fleet.minWorkers config.fleet.maxWorkers ≤
      clampNat (windowRaw config snapshot prior current now policy policy.target (w.atUsage usage)).1
        config.fleet.minWorkers config.fleet.maxWorkers := by
  by_cases hreached : w.reached = true ∨ policy.target ≤ usage'
  · -- the higher reading has reached the target, and keeps the least count
    have hleast : (windowRaw config snapshot prior current now policy policy.target (w.atUsage usage')).1 =
        config.fleet.minWorkers := congrArg Prod.fst (windowRaw_reached hreached)
    rw [hleast, clampNat_eq hrange, min_eq_left hrange, max_self]
    exact le_clampNat _ _ _ hrange
  · obtain ⟨hopen, hbelow'⟩ := not_or.1 hreached
    rw [Bool.not_eq_true] at hopen
    have hbelow : ¬ policy.target ≤ usage := fun h => hbelow' (h.trans hmore)
    have hnotDue : ¬ w.resetsAt ≤ now := by
      intro hdue
      have hnone : numMilliseconds (w.resetsAt - now) ≤ numMilliseconds 0 := numMilliseconds_mono (sub_nonpos.2 hdue)
      exact absurd (hahead.trans hnone) (by decide)
    rw [windowRaw_paced hpolicy hsample hcomparable hrise.le hopen hbelow hnotDue,
      windowRaw_paced hpolicy hsample hcomparable (hrise.le.trans hmore) hopen hbelow' hnotDue,
      clampNat_eq hrange, clampNat_eq hrange]
    refine max_le_max_left _ (min_le_min_right _ ?_)
    have hworkers : (0 : ℚ) < Flt.ofNat sample.workers := Nat.cast_pos.2 hcomparable.workers
    have hremaining : 0 < hoursOf (F := ℚ) (w.resetsAt - now) := hoursOf_pos hahead
    have hsign : ∀ u, sample.usedFraction < u →
        (0 < perWorkerBurn snapshot sample u ↔ 0 < hoursOf (F := ℚ) (snapshot.observedAt - sample.observedAt)) := by
      intro u hu
      unfold perWorkerBurn
      rw [div_pos_iff_of_pos_right hworkers, div_pos_iff_of_pos_left (sub_pos.2 hu)]
    by_cases helapsed : 0 < hoursOf (F := ℚ) (snapshot.observedAt - sample.observedAt)
    · rw [if_pos ((hsign usage hrise).2 helapsed), if_pos ((hsign usage' (hrise.trans_le hmore)).2 helapsed)]
      have hburn : perWorkerBurn snapshot sample usage ≤ perWorkerBurn snapshot sample usage' :=
        div_le_div_of_nonneg_right (div_le_div_of_nonneg_right (sub_le_sub_right hmore _) helapsed.le) hworkers.le
      have hrate : (policy.target - usage') / hoursOf (w.resetsAt - now) ≤
          (policy.target - usage) / hoursOf (w.resetsAt - now) :=
        div_le_div_of_nonneg_right (sub_le_sub_left hmore _) hremaining.le
      have hrate' : 0 ≤ (policy.target - usage) / hoursOf (w.resetsAt - now) :=
        div_nonneg (sub_nonneg.2 (not_le.1 hbelow).le) hremaining.le
      exact workersForRate_mono (div_le_div₀ hrate' hrate ((hsign usage hrise).2 helapsed) hburn)
    · rw [if_neg (mt (hsign usage hrise).1 helapsed), if_neg (mt (hsign usage' (hrise.trans_le hmore)).1 helapsed)]

end Raw

/-! ## The decision -/

theorem of_map_ok {ε α β : Type} {x : Except ε α} {f : α → β} {b : β} (h : x.map f = .ok b) :
    ∃ a, x = .ok a ∧ f a = b := by
  cases x with
  | error e => cases h
  | ok a => exact ⟨a, rfl, Except.ok.inj h⟩

/-- **More usage never means more workers**: of two readings of a paced window above its last sample, the higher is
given no more. -/
theorem evaluate_usage_anti (name : String) {config : AccountConfig ℚ} {snapshot : QuotaSnapshot ℚ}
    {prior : AccountState ℚ} {w : QuotaWindow ℚ} {policy : ResolvedPolicy ℚ} {sample : WindowSample ℚ}
    {usage usage' : ℚ} {now : DateTime} (current : Nat)
    (hrange : config.fleet.minWorkers ≤ config.fleet.maxWorkers) (hdisabled : config.bankedResets.enabled = false)
    (hpolicy : TwoPoint config w.id policy) (hsample : prior.windows[w.id]? = some sample)
    (hcomparable : Comparable config snapshot w sample) (hahead : 1 ≤ numMilliseconds (w.resetsAt - now))
    (hrise : sample.usedFraction < usage) (hmore : usage ≤ usage') :
    ∃ d d', evaluate name config (snapshot.withWindows [w.atUsage usage]) prior current now = .ok d ∧
      evaluate name config (snapshot.withWindows [w.atUsage usage']) prior current now = .ok d' ∧
      d'.desiredWorkers ≤ d.desiredWorkers := by
  have hsame : ∀ u, isStale config (snapshot.withWindows [w.atUsage u]) now = isStale config snapshot now :=
    fun _ => rfl
  have hwindows : ∀ u, (snapshot.withWindows [w.atUsage u]).windows = [w.atUsage u] := fun _ => rfl
  cases hstale : isStale config snapshot now with
  | true => exact ⟨_, _, if_pos ((hsame usage).trans hstale), if_pos ((hsame usage').trans hstale), Nat.le_refl _⟩
  | false =>
    have hsingle := evaluate_single name prior current hdisabled (hwindows usage) hpolicy.1 ((hsame usage).trans hstale)
    have hsingle' := evaluate_single name prior current hdisabled (hwindows usage') hpolicy.1
      ((hsame usage').trans hstale)
    obtain ⟨d, hd, hdesired⟩ := of_map_ok hsingle
    obtain ⟨d', hd', hdesired'⟩ := of_map_ok hsingle'
    refine ⟨d, d', hd, hd', ?_⟩
    rw [hdesired, hdesired']
    have hraw := boundedRaw_anti current hrange hpolicy hsample hcomparable hahead hrise hmore
    exact capDesired_mono hrange none hraw

/-! ### One hour on three workers -/

/-- `pacedAccount` in exact arithmetic, without banked resets. -/
def exactAccount : AccountConfig ℚ where
  fleet :=
    { minWorkers := 0
      maxWorkers := 10
      bootstrapWorkers := 1
      maxScaleUpPerCycle := 2
      maxScaleDownPerCycle := 1
      observer := some (.static 0)
      actuator := .none
      observerReconciliation := .strict
      hosts := none
      takeover := []
      maxWorkersU32 := pacedFleet.maxWorkersU32 }
  utilization :=
    { targetUtilization := some (9 / 10)
      reserveFraction := none
      strategy := .linearToReset
      staleAfterSeconds := 600
      staleBehavior := .hold
      minimumSampleSeconds := 60
      backpressure := none
      zaiSaturation := none
      windows := ∅
      targetGiven := Or.inl rfl }
  bankedResets :=
    { enabled := false
      fullSpeed := false
      minimumPaceMultiplier := 1
      redeemAtUtilization := 1
      deadlineSafetySeconds := 7200 }

def exactWeek : QuotaWindow ℚ :=
  { id := "week", usedFraction := 3 / 10, resetsAt := hours 9, durationMinutes := some 10080, reached := false }

def exactSnapshot : QuotaSnapshot ℚ where
  observedAt := hours 1
  fresh := true
  windows := [exactWeek]
  eligibleBacklogCapacity := some 20
  resetCredits := none
  backpressure := none
  saturation := none

def exactSample : WindowSample ℚ := { observedAt := 0, usedFraction := 1 / 10, resetsAt := hours 9, workers := 3 }

def exactPrior : AccountState ℚ := { windows := (∅ : BTreeMap (WindowSample ℚ)).insert "week" exactSample }

def exactPolicy : ResolvedPolicy ℚ := { burnRateWindowSeconds := none, target := 9 / 10, strategy := .linearToReset }

/-- At 30 and at 50 percent of the week. -/
theorem evaluate_usage_anti_week :
    ∃ d d', evaluate "codex" exactAccount (exactSnapshot.withWindows [exactWeek.atUsage (3 / 10)]) exactPrior 3
        (hours 1) = .ok d ∧
      evaluate "codex" exactAccount (exactSnapshot.withWindows [exactWeek.atUsage (1 / 2)]) exactPrior 3
        (hours 1) = .ok d' ∧ d'.desiredWorkers ≤ d.desiredWorkers := by
  have hpolicy : TwoPoint exactAccount exactWeek.id exactPolicy := ⟨rfl, rfl, rfl⟩
  have hsample : exactPrior.windows[exactWeek.id]? = some exactSample := rfl
  have hcomparable : Comparable exactAccount exactSnapshot exactWeek exactSample := ⟨by decide, by decide, by decide⟩
  have hrise : exactSample.usedFraction < 3 / 10 := by decide +kernel
  exact evaluate_usage_anti "codex" 3 (by decide) rfl hpolicy hsample hcomparable (by decide) hrise (by decide +kernel)

end Subgov
