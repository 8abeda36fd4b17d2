import Subgov.Arbitration
import Subgov.Lib.Trace
import Subgov.StaleHold
/-!
# SaturationRun — how far one cycle of the experiments can move a fleet

A run of `applyZaiSaturation` starts from the default state.  `Outcome` lists what one consumed sample does, and
`growth_bounded` says of every cycle of a run how far its target is from the observed count, and on what evidence it is
above it.
-/
namespace Subgov

open FloatArith Trace

variable {F : Type} [Flt F]

/-! ## What one sample does -/

/-- The completed rate over the sample's window. -/
def SaturationSnapshot.measured (sample : SaturationSnapshot F) : F :=
  Flt.ofNat sample.completedRequests / Flt.ofNat sample.windowSeconds

namespace SaturationContext

/-- A pending probe is judged: its count is observed, and has been since the whole interval began. -/
structure Judges (ctx : SaturationContext F) (s : SaturationState F) (start : Option DateTime)
    (probe : SaturationProbe F) : Prop where
  pending : s.pending = some probe
  count : ctx.current = probe.toWorkers
  observed : s.observedWorkers = some ctx.current
  ready : intervalReady s start ctx.observedAt ctx.policy.dwellSeconds = true

/-- What a judgement leaves of the state before the verdict. -/
def judged (ctx : SaturationContext F) (s : SaturationState F) (measured : F) : SaturationState F :=
  { s with pending := none, baselineRate := some measured, settledAt := some ctx.observedAt }

/-- A requested launch or drain is still under way at this count. -/
def Between (ctx : SaturationContext F) (probe : SaturationProbe F) : Prop :=
  ctx.current = probe.fromWorkers ∨
    (min probe.fromWorkers probe.toWorkers < ctx.current ∧ ctx.current < max probe.fromWorkers probe.toWorkers)

/-- **What one sample does**, by the reason it gives. -/
inductive Outcome (ctx : SaturationContext F) (s : SaturationState F) (held : Nat) (start : Option DateTime)
    (measured : F) : SaturationStep F → Prop
  | waiting {probe : SaturationProbe F} (hpending : s.pending = some probe) (hbetween : ctx.Between probe) :
      Outcome ctx s held start measured
        { target := probe.toWorkers, state := { s with settledAt := none }, reason := .waitingForWorkers }
  | changed {probe : SaturationProbe F} (hpending : s.pending = some probe) :
      Outcome ctx s held start measured { target := held, state := {}, reason := .workerCountChanged }
  | settling {probe : SaturationProbe F} (hpending : s.pending = some probe) (hcount : ctx.current = probe.toWorkers) :
      Outcome ctx s held start measured
        { target := held
          state := { s with settledAt := some ctx.observedAt, observedWorkers := some ctx.current }
          reason := .probeSettling }
  | dwelling {probe : SaturationProbe F} (hpending : s.pending = some probe) :
      Outcome ctx s held start measured { target := held, state := s, reason := .probeDwell }
  | recovered {probe : SaturationProbe F} (hjudges : ctx.Judges s start probe) (hrecovery : probe.recovery = true) :
      Outcome ctx s held start measured
        { target := held
          state := if s.shrinking then ctx.judged s measured
            else { ctx.judged s measured with plateauRate := some measured }
          reason := .recoverySettled }
  | shrunk {probe : SaturationProbe F} (hjudges : ctx.Judges s start probe) (hrecovery : probe.recovery = false)
      (hsmaller : probe.toWorkers < probe.fromWorkers)
      (hretained : s.plateauRate.getD probe.baselineRate * (Flt.ofNat 1 - ctx.policy.plateauFraction) ≤ measured) :
      Outcome ctx s held start measured
        { target := held
          state := { ctx.judged s measured with shrinking := true }
          reason := .shrinkRetainedThroughput }
  | grown {probe : SaturationProbe F} (hjudges : ctx.Judges s start probe) (hrecovery : probe.recovery = false) :
      Outcome ctx s held start measured
        { target := held
          state := { ctx.judged s measured with plateauRate := some measured, shrinking := ctx.pressured }
          reason := .growthImprovedThroughput }
  | restored {probe : SaturationProbe F} (hjudges : ctx.Judges s start probe) (hrecovery : probe.recovery = false) :
      Outcome ctx s held start measured
        { target := probe.fromWorkers
          state := { ctx.judged s measured with
            pending := some { fromWorkers := ctx.current, toWorkers := probe.fromWorkers, baselineRate := measured,
                              recovery := true }
            shrinking := decide (probe.fromWorkers < probe.toWorkers)
            nextProbeAt := some (reprobeAt ctx.observedAt ctx.policy.reprobeSeconds) }
          reason := .restorePreviousCount }
  | baseline (hpending : s.pending = none)
      (hlost : s.observedWorkers ≠ some ctx.current ∨ s.baselineRate.isNone = true) :
      Outcome ctx s held start measured
        { target := held
          state := { s with
            observedWorkers := some ctx.current
            settledAt := some ctx.observedAt
            baselineRate := some measured
            plateauRate := some measured }
          reason := .baseline }
  | resting (hpending : s.pending = none)
      (hkept : s.observedWorkers = some ctx.current ∧ s.baselineRate.isNone = false) :
      Outcome ctx s held start measured { target := held, state := s, reason := .baselineDwell }
  | probed (hpending : s.pending = none)
      (hkept : s.observedWorkers = some ctx.current ∧ s.baselineRate.isNone = false)
      (hready : intervalReady s start ctx.observedAt ctx.policy.dwellSeconds = true)
      (hcooled : ∀ at_ ∈ s.nextProbeAt, at_ ≤ ctx.observedAt) :
      Outcome ctx s held start measured
        { target := ctx.candidate (s.shrinking || ctx.pressured)
          state := { s with
            baselineRate := some measured
            plateauRate := if s.shrinking then s.plateauRate else some measured
            pending := some { fromWorkers := ctx.current, toWorkers := ctx.candidate (s.shrinking || ctx.pressured),
                              baselineRate := measured, recovery := false }
            settledAt := none }
          reason := if s.shrinking || ctx.pressured then .probeShrink else .probeGrowth }
  | blocked {reason : SaturationReason} (hpending : s.pending = none)
      (hkept : s.observedWorkers = some ctx.current ∧ s.baselineRate.isNone = false)
      (hreason : reason = .workerOrQuotaBound ∨ reason = .insufficientBacklog) :
      Outcome ctx s held start measured
        { target := held
          state := if (s.shrinking || ctx.pressured) && ctx.candidate (s.shrinking || ctx.pressured) == ctx.current then
            { s with
              baselineRate := some measured
              shrinking := false
              nextProbeAt := some (reprobeAt ctx.observedAt ctx.policy.reprobeSeconds) }
            else { s with baselineRate := some measured }
          reason }

variable {ctx : SaturationContext F} {s : SaturationState F} {held : Nat} {start : Option DateTime} {measured : F}

variable (ctx) in
/-- When the sample's own window began. -/
def windowStart (sample : SaturationSnapshot F) : Option DateTime :=
  (trySeconds (asI64 sample.windowSeconds)).bind (fun d => checkedDate (ctx.observedAt - d))

theorem settleProbe_outcome {probe : SaturationProbe F} (hjudges : ctx.Judges s start probe) :
    ctx.Outcome s held start measured (ctx.settleProbe s probe held measured) := by
  unfold settleProbe
  dsimp only
  split
  · rename_i hrecovery
    exact .recovered hjudges hrecovery
  · rename_i hrecovery
    rw [Bool.not_eq_true] at hrecovery
    split
    · rename_i hshrunk
      simp only [Bool.and_eq_true, decide_eq_true_eq] at hshrunk
      exact .shrunk hjudges hrecovery hshrunk.1 hshrunk.2
    · split
      · exact .grown hjudges hrecovery
      · exact .restored hjudges hrecovery

theorem pendingStep_outcome {probe : SaturationProbe F} (hpending : s.pending = some probe) :
    ctx.Outcome s held start measured (ctx.pendingStep s probe held start measured) := by
  unfold pendingStep
  dsimp only
  split
  · split
    · rename_i hbetween
      exact .waiting hpending hbetween
    · exact .changed hpending
  · rename_i hcount
    rw [ne_eq, Decidable.not_not] at hcount
    split
    · exact .settling hpending hcount
    · rename_i hobserved
      simp only [Bool.or_eq_true, bne_iff_ne, ne_eq, not_or, Decidable.not_not] at hobserved
      split
      · rename_i hready
        exact settleProbe_outcome ⟨hpending, hcount, hobserved.2, hready⟩
      · exact .dwelling hpending

theorem searchStep_outcome (hpending : s.pending = none) :
    ctx.Outcome s held start measured (ctx.searchStep s held start measured) := by
  unfold searchStep
  split
  · rename_i hlost
    exact .baseline hpending hlost
  · rename_i hkept
    rw [not_or, ne_eq, Decidable.not_not, Bool.not_eq_true] at hkept
    split
    · rename_i hready
      rw [Bool.and_eq_true] at hready
      have hcooled : ∀ at_ ∈ s.nextProbeAt, at_ ≤ ctx.observedAt := by
        intro at_ hat
        have hall := hready.2
        rw [Option.mem_def.1 hat, Option.all_some, decide_eq_true_eq] at hall
        exact hall
      unfold probeStep
      dsimp only
      split
      · exact .probed hpending hkept hready.1 hcooled
      · refine .blocked hpending hkept ?_
        split
        · exact Or.inl rfl
        · exact Or.inr rfl
    · exact .resting hpending hkept

/-- **A consumed sample is stamped, and then does what its outcome says.** -/
theorem sampleStep_outcome (ctx : SaturationContext F) (s : SaturationState F) (held : Nat)
    (sample : SaturationSnapshot F) :
    ∃ step, ctx.Outcome { s with lastSampleAt := some ctx.observedAt } held (ctx.windowStart sample) sample.measured
        step ∧
      ctx.sampleStep s held sample = { step with rate := some sample.measured } := by
  unfold sampleStep
  dsimp only
  cases s.pending with
  | some probe => exact ⟨_, pendingStep_outcome rfl, rfl⟩
  | none => exact ⟨_, searchStep_outcome rfl, rfl⟩

/-- A sample is the last one afterwards, unless it finds the fleet where no experiment left it. -/
theorem Outcome.lastSampleAt {step : SaturationStep F} (h : ctx.Outcome s held start measured step) :
    step.state = {} ∨ step.state.lastSampleAt = s.lastSampleAt := by
  cases h with
  | changed => exact Or.inl rfl
  | recovered => exact Or.inr (by dsimp only; split <;> rfl)
  | blocked => exact Or.inr (by dsimp only; split <;> rfl)
  | _ => exact Or.inr rfl

/-- Without a probe, a lost count or baseline is taken anew. -/
theorem Outcome.of_lost {step : SaturationStep F} (h : ctx.Outcome s held start measured step)
    (hpending : s.pending = none) (hlost : s.observedWorkers ≠ some ctx.current ∨ s.baselineRate.isNone = true) :
    step.target = held ∧ step.reason = .baseline ∧ step.state.plateauRate = some measured ∧
      step.state.shrinking = s.shrinking := by
  have hnokept : ¬ (s.observedWorkers = some ctx.current ∧ s.baselineRate.isNone = false) := by
    rintro ⟨hobserved, hbaseline⟩
    rcases hlost with hchanged | hnone
    · exact hchanged hobserved
    · rw [hnone] at hbaseline
      cases hbaseline
  cases h with
  | waiting hp => cases hpending.symm.trans hp
  | changed hp => cases hpending.symm.trans hp
  | settling hp => cases hpending.symm.trans hp
  | dwelling hp => cases hpending.symm.trans hp
  | recovered hjudges => cases hpending.symm.trans hjudges.pending
  | shrunk hjudges => cases hpending.symm.trans hjudges.pending
  | grown hjudges => cases hpending.symm.trans hjudges.pending
  | restored hjudges => cases hpending.symm.trans hjudges.pending
  | baseline => exact ⟨rfl, rfl, rfl, rfl⟩
  | resting _ hkept => exact absurd hkept hnokept
  | probed _ hkept => exact absurd hkept hnokept
  | blocked _ hkept => exact absurd hkept hnokept

end SaturationContext

/-! ## One cycle -/

theorem applyZaiSaturation_desired (d : Decision F) (config : AccountConfig F) (policy : ZaiSaturationConfig F)
    (snapshot : QuotaSnapshot F) (prior : AccountState F) (now : DateTime) :
    (applyZaiSaturation d config policy snapshot prior now).1.desiredWorkers =
      min (boundTarget (saturationStep d config policy snapshot prior now).target d.currentWorkers
        (snapshot.eligibleBacklogCapacity.getD d.currentWorkers) config.fleet) (quotaCap d config) := by
  unfold applyZaiSaturation
  exact withTotal_desiredWorkers _

/-- The arguments of a call that change from cycle to cycle; `account` is the rest of the account's record. -/
structure SaturationCycle (F : Type) where
  decision : Decision F
  snapshot : QuotaSnapshot F
  account : AccountState F
  now : DateTime

namespace SaturationCycle

section Definitions

variable (c : SaturationCycle F) (config : AccountConfig F) (policy : ZaiSaturationConfig F) (s : SaturationState F)

def prior : AccountState F := { c.account with zaiSaturation := some s }

def apply : Decision F × SaturationState F :=
  applyZaiSaturation c.decision config policy c.snapshot (c.prior s) c.now

def step : SaturationStep F := saturationStep c.decision config policy c.snapshot (c.prior s) c.now

/-- The target of a pending probe is kept without a sample where it is a drain. -/
def held : Nat := s.pending.elim c.decision.currentWorkers (fun p => min p.toWorkers c.decision.currentWorkers)

def context : SaturationContext F where
  policy
  fleet := config.fleet
  current := c.decision.currentWorkers
  unowned := c.decision.unownedWorkers
  quotaCap := quotaCap c.decision config
  observedAt := c.snapshot.observedAt
  fraction := c.snapshot.saturation.bind (·.upstreamConcurrencyFraction)
  backlog := c.snapshot.eligibleBacklogCapacity

/-- The quota or the freshness of the snapshot discards the experiments. -/
def discards : Bool :=
  c.decision.stale || decide (c.now < c.snapshot.observedAt) || quotaReset c.snapshot c.account ||
    c.decision.windows.any (fun w => w.reason == .resetDue || w.reason == .targetReached)

/-- A stopped fleet with no unowned workers, and work for it. -/
def Stopped : Prop :=
  c.decision.currentWorkers = 0 ∧ c.decision.unownedWorkers = 0 ∧
    c.snapshot.eligibleBacklogCapacity.any (fun cap => decide (0 < cap)) = true

/-- A stopped fleet that may start. -/
def Starts : Prop := c.Stopped ∧ 0 < config.fleet.maxWorkers ∧ 0 < quotaCap c.decision config

/-- The last sample is too long ago, or is not older than this one. -/
def gap : Bool :=
  s.lastSampleAt.any (fun at_ =>
    decide (asI64 config.utilization.staleAfterSeconds < numSeconds (c.snapshot.observedAt - at_)))

def repeated : Bool := s.lastSampleAt.any (fun at_ => decide (c.snapshot.observedAt ≤ at_))

instance : Decidable c.Stopped := inferInstanceAs (Decidable (_ ∧ _ ∧ _))

instance : Decidable (c.Starts config) := inferInstanceAs (Decidable (_ ∧ _ ∧ _))

/-- The sample that the cycle consumes. -/
def sample : Option (SaturationSnapshot F) :=
  if c.discards ∨ c.Starts config ∨ c.gap config s ∨ c.repeated s then none
  else validSaturation policy c.snapshot s c.decision.currentWorkers

end Definitions

variable {c : SaturationCycle F} {config : AccountConfig F} {policy : ZaiSaturationConfig F} {s : SaturationState F}

/-- **A cycle without a sample** discards the experiments, starts a stopped fleet, or leaves them as they are. -/
inductive Unread (c : SaturationCycle F) (config : AccountConfig F) (s : SaturationState F) : SaturationStep F → Prop
  | discarded {reason : SaturationReason} (hreason : reason = .quotaOrFreshnessBound ∨ reason = .signalGap) :
      Unread c config s { target := c.held s, state := {}, reason }
  | started (hstarts : c.Starts config) :
      Unread c config s
        { target := max config.fleet.bootstrapWorkers 1, state := {}, reason := .bootstrapForEvidence }
  | kept {reason : SaturationReason} (hreason : reason = .repeatedSample ∨ reason = .insufficientSignal) :
      Unread c config s { target := c.held s, state := s, reason }

omit [Flt F] in
theorem held_le (c : SaturationCycle F) (s : SaturationState F) : c.held s ≤ c.decision.currentWorkers := by
  unfold held
  cases s.pending with
  | none => exact Nat.le_refl _
  | some p => exact Nat.min_le_right _ _

/-- A cycle that neither discards the experiments nor starts a fleet reads its sample, unless the last one is too long
ago or no older. -/
theorem step_of_moving (hdiscards : ¬ c.discards = true) (hstarts : ¬ c.Starts config) :
    c.step config policy s =
      if c.gap config s then { target := c.held s, state := {}, reason := .signalGap }
      else if c.repeated s then { target := c.held s, state := s, reason := .repeatedSample }
      else match validSaturation policy c.snapshot s c.decision.currentWorkers with
        | some sample => (c.context config policy).sampleStep s (c.held s) sample
        | none => { target := c.held s, state := s, reason := .insufficientSignal } :=
  (if_neg hdiscards).trans (if_neg fun h => hstarts ⟨⟨h.1, h.2.1, h.2.2.1⟩, h.2.2.2⟩)

/-- **A cycle consumes its sample or reads none.** -/
theorem step_cases (c : SaturationCycle F) (config : AccountConfig F) (policy : ZaiSaturationConfig F)
    (s : SaturationState F) :
    (c.sample config policy s = none ∧ Unread c config s (c.step config policy s)) ∨
    (∃ sample step, c.sample config policy s = some sample ∧
      c.step config policy s = { step with rate := some sample.measured } ∧
      (c.context config policy).Outcome { s with lastSampleAt := some c.snapshot.observedAt } (c.held s)
        ((c.context config policy).windowStart sample) sample.measured step) := by
  by_cases hdiscards : c.discards = true
  · have hstep : c.step config policy s =
        { target := c.held s, state := {}, reason := .quotaOrFreshnessBound } := if_pos hdiscards
    rw [hstep]
    exact Or.inl ⟨if_pos (Or.inl hdiscards), .discarded (Or.inl rfl)⟩
  · by_cases hstarts : c.Starts config
    · have hstep : c.step config policy s =
          { target := max config.fleet.bootstrapWorkers 1, state := {}, reason := .bootstrapForEvidence } := by
        obtain ⟨⟨hcurrent, hunowned, hbacklog⟩, hroom⟩ := hstarts
        exact (if_neg hdiscards).trans (if_pos ⟨hcurrent, hunowned, hbacklog, hroom⟩)
      rw [hstep]
      exact Or.inl ⟨if_pos (Or.inr (Or.inl hstarts)), .started hstarts⟩
    · rw [step_of_moving hdiscards hstarts]
      by_cases hgap : c.gap config s = true
      · rw [if_pos hgap]
        exact Or.inl ⟨if_pos (Or.inr (Or.inr (Or.inl hgap))), .discarded (Or.inr rfl)⟩
      · rw [if_neg hgap]
        by_cases hrepeated : c.repeated s = true
        · rw [if_pos hrepeated]
          exact Or.inl ⟨if_pos (Or.inr (Or.inr (Or.inr hrepeated))), .kept (Or.inl rfl)⟩
        · have hsample : c.sample config policy s =
              validSaturation policy c.snapshot s c.decision.currentWorkers :=
            if_neg (by simp [hdiscards, hstarts, hgap, hrepeated])
          rw [if_neg hrepeated, hsample]
          cases validSaturation policy c.snapshot s c.decision.currentWorkers with
          | none => exact Or.inl ⟨rfl, .kept (Or.inr rfl)⟩
          | some sample =>
            obtain ⟨step, houtcome, hsampled⟩ := (c.context config policy).sampleStep_outcome s (c.held s) sample
            exact Or.inr ⟨sample, step, rfl, hsampled, houtcome⟩

theorem sample_fresh {sample : SaturationSnapshot F} (h : c.sample config policy s = some sample) :
    ∀ at_ ∈ s.lastSampleAt, at_ < c.snapshot.observedAt := by
  unfold SaturationCycle.sample at h
  split at h
  · cases h
  · rename_i hopen
    simp only [not_or] at hopen
    intro at_ hat
    have hrepeated := hopen.2.2.2
    rw [repeated, Option.mem_def.1 hat, Option.any_some, decide_eq_true_eq] at hrepeated
    exact Int.not_le.1 hrepeated

theorem sample_not_starts {sample : SaturationSnapshot F} (h : c.sample config policy s = some sample) :
    ¬ c.Starts config := by
  unfold SaturationCycle.sample at h
  split at h
  · cases h
  · rename_i hopen
    exact fun hstarts => hopen (Or.inr (Or.inl hstarts))

/-! ### The caps -/

theorem apply_desired (c : SaturationCycle F) (config : AccountConfig F) (policy : ZaiSaturationConfig F)
    (s : SaturationState F) :
    (c.apply config policy s).1.desiredWorkers =
      min (boundTarget (c.step config policy s).target c.decision.currentWorkers
        (c.snapshot.eligibleBacklogCapacity.getD c.decision.currentWorkers) config.fleet)
        (quotaCap c.decision config) :=
  applyZaiSaturation_desired _ _ _ _ _ _

/-- A cancellation clears the probe and the baseline, and nothing else. -/
theorem apply_state (c : SaturationCycle F) (config : AccountConfig F) (policy : ZaiSaturationConfig F)
    (s : SaturationState F) :
    (c.apply config policy s).2 = (c.step config policy s).state ∨
    (c.apply config policy s).2 =
      { (c.step config policy s).state with pending := none, baselineRate := none, settledAt := none } := by
  unfold SaturationCycle.apply applyZaiSaturation
  dsimp only
  split
  · exact Or.inr rfl
  · exact Or.inl rfl

theorem apply_lastSampleAt (c : SaturationCycle F) (config : AccountConfig F) (policy : ZaiSaturationConfig F)
    (s : SaturationState F) :
    (c.apply config policy s).2.lastSampleAt = (c.step config policy s).state.lastSampleAt := by
  rcases c.apply_state config policy s with h | h <;> rw [h]

/-- Discarded experiments stay discarded. -/
theorem apply_discarded (c : SaturationCycle F) (config : AccountConfig F) (policy : ZaiSaturationConfig F)
    (s : SaturationState F) (h : (c.step config policy s).state = {}) : (c.apply config policy s).2 = {} := by
  rcases c.apply_state config policy s with happly | happly <;> rw [happly, h]

end SaturationCycle

section Bounds

variable {fleet : FleetConfig F}

omit [Flt F] in
theorem boundTarget_le (target current backlogCap : Nat) :
    boundTarget target current backlogCap fleet ≤ max target current := by
  unfold boundTarget
  omega

omit [Flt F] in
theorem boundTarget_le_up (target current backlogCap : Nat) :
    boundTarget target current backlogCap fleet ≤ current + fleet.maxScaleUpPerCycle := by
  have hup := satAdd_le current fleet.maxScaleUpPerCycle
  unfold boundTarget
  omega

omit [Flt F] in
theorem boundTarget_le_max {current : Nat} (target backlogCap : Nat) (h : current ≤ fleet.maxWorkers) :
    boundTarget target current backlogCap fleet ≤ fleet.maxWorkers := by
  unfold boundTarget
  omega

end Bounds

/-! ## The experiments under `evaluatePool` -/

section Pool

variable {name : String} {config : AccountConfig F}

/-- The cycle's decision is the evaluation of the pool for an owned count in the configured range. -/
structure SaturationCycle.Evaluated (name : String) (config : AccountConfig F) (c : SaturationCycle F)
    (owned unowned : Nat) : Prop where
  decision : evaluatePool name config c.snapshot c.account owned unowned c.now = .ok c.decision
  atLeast : config.fleet.minWorkers ≤ owned
  atMost : owned ≤ config.fleet.maxWorkers
  unownedU32 : unowned ≤ u32Max

namespace SaturationCycle.Evaluated

variable {c : SaturationCycle F} {owned unowned : Nat}

/-- The evaluation does not read the state of the experiments. -/
theorem prior (h : c.Evaluated name config owned unowned) (s : SaturationState F) :
    evaluatePool name config c.snapshot (c.prior s) owned unowned c.now = .ok c.decision := h.decision

theorem counts (h : c.Evaluated name config owned unowned) :
    c.decision.currentWorkers = satAdd owned unowned - unowned ∧ c.decision.unownedWorkers = unowned :=
  evaluatePool_counts h.decision (Nat.le_trans h.atMost config.fleet.maxWorkersU32)

theorem current_le (h : c.Evaluated name config owned unowned) :
    c.decision.currentWorkers ≤ config.fleet.maxWorkers := by
  have hsum := satAdd_le owned unowned
  have hmost := h.atMost
  rw [h.counts.1]
  omega

/-- The decision's count keeps the configured floor where the pool's floor does not saturate. -/
theorem le_current (h : c.Evaluated name config owned unowned)
    (hfits : config.fleet.minWorkers + c.decision.unownedWorkers ≤ u32Max) :
    config.fleet.minWorkers ≤ c.decision.currentWorkers := by
  have hleast := h.atLeast
  rw [h.counts.2] at hfits
  rw [h.counts.1]
  unfold satAdd
  omega

end SaturationCycle.Evaluated

end Pool

/-! ## Evidence -/

section Evidence

variable {config : AccountConfig F} {policy : ZaiSaturationConfig F}

/-- A cycle of a run, which remembers when the last consumed sample was taken. -/
def nextConsumed (config : AccountConfig F) (policy : ZaiSaturationConfig F) :
    SaturationState F × Option DateTime → SaturationCycle F → Option (SaturationState F × Option DateTime) :=
  noting (fun s c => (c.apply config policy s).2) (fun s c last =>
    if (c.sample config policy s).isSome then some c.snapshot.observedAt else last)

/-- **The caps of a cycle, and the evidence that growth takes**: a sample newer than the last consumed one. -/
structure GrowthEvidenced (config : AccountConfig F) (policy : ZaiSaturationConfig F)
    (σ : SaturationState F × Option DateTime) (c : SaturationCycle F) : Prop where
  up : (c.apply config policy σ.1).1.desiredWorkers ≤ c.decision.currentWorkers + config.fleet.maxScaleUpPerCycle
  maximum : (c.apply config policy σ.1).1.desiredWorkers ≤ config.fleet.maxWorkers
  startup : c.Stopped → (c.apply config policy σ.1).1.desiredWorkers ≤ max config.fleet.bootstrapWorkers 1
  evidence : ¬ c.Stopped → c.decision.currentWorkers < (c.apply config policy σ.1).1.desiredWorkers →
    ∃ sample last, c.sample config policy σ.1 = some sample ∧ σ.2 = some last ∧ last < c.snapshot.observedAt

/-- The state of a run: the last sample is the last consumed one, unless the experiments were discarded since. -/
def Consumed (σ : SaturationState F × Option DateTime) : Prop :=
  σ.1 = {} ∨ (σ.2.isSome = true ∧ σ.1.lastSampleAt = σ.2)

/-- **What a cycle makes of the last sample**: its own, none after a discard, or the one before. -/
theorem apply_consumed (c : SaturationCycle F) (config : AccountConfig F) (policy : ZaiSaturationConfig F)
    (s : SaturationState F) :
    (c.apply config policy s).2 = {} ∨
    ((c.sample config policy s).isSome = true ∧
      (c.apply config policy s).2.lastSampleAt = some c.snapshot.observedAt) ∨
    ((c.sample config policy s).isSome = false ∧ (c.apply config policy s).2.lastSampleAt = s.lastSampleAt ∧
      (s = {} → (c.apply config policy s).2 = {})) := by
  have hlast := c.apply_lastSampleAt config policy s
  have hdiscarded := c.apply_discarded config policy s
  rcases c.step_cases config policy s with ⟨hnone, hunread⟩ | ⟨sample, step, hsome, hstep, houtcome⟩
  · generalize c.step config policy s = step at hunread hlast hdiscarded
    cases hunread with
    | discarded => exact Or.inl (hdiscarded rfl)
    | started => exact Or.inl (hdiscarded rfl)
    | kept => exact Or.inr (Or.inr ⟨by rw [hnone]; rfl, hlast, hdiscarded⟩)
  · rw [hstep] at hlast hdiscarded
    rcases houtcome.lastSampleAt with hdefault | hstamped
    · exact Or.inl (hdiscarded hdefault)
    · exact Or.inr (Or.inl ⟨by rw [hsome]; rfl, hlast.trans hstamped⟩)

theorem Consumed.step {σ : SaturationState F × Option DateTime} (h : Consumed σ) (c : SaturationCycle F) :
    Consumed ((c.apply config policy σ.1).2,
      if (c.sample config policy σ.1).isSome then some c.snapshot.observedAt else σ.2) := by
  have hcases := apply_consumed c config policy σ.1
  generalize (c.apply config policy σ.1).2 = s' at hcases
  rcases hcases with hdefault | ⟨hsome, hstamped⟩ | ⟨hnone, hsame, hkept⟩
  · exact Or.inl hdefault
  · rw [if_pos hsome]
    exact Or.inr ⟨rfl, hstamped⟩
  · rw [if_neg (by rw [hnone]; exact Bool.false_ne_true)]
    rcases h with hdefault | ⟨hlast, hsame'⟩
    · exact Or.inl (hkept hdefault)
    · exact Or.inr ⟨hlast, hsame.trans hsame'⟩

/-- **One cycle is within its caps, and grows on evidence.** -/
theorem growth_evidenced {σ : SaturationState F × Option DateTime} (h : Consumed σ) {c : SaturationCycle F}
    (hmax : c.decision.currentWorkers ≤ config.fleet.maxWorkers) : GrowthEvidenced config policy σ c := by
  have hdesired := c.apply_desired config policy σ.1
  have hwithin : (c.apply config policy σ.1).1.desiredWorkers ≤
      max (c.step config policy σ.1).target c.decision.currentWorkers := by
    rw [hdesired]
    exact Nat.le_trans (Nat.min_le_left _ _) (boundTarget_le _ _ _)
  have hstays : (c.step config policy σ.1).target ≤ c.decision.currentWorkers →
      (c.apply config policy σ.1).1.desiredWorkers ≤ c.decision.currentWorkers :=
    fun htarget => Nat.le_trans hwithin (Nat.max_le.2 ⟨htarget, Nat.le_refl _⟩)
  have hmaximum : (c.apply config policy σ.1).1.desiredWorkers ≤ config.fleet.maxWorkers := by
    rw [hdesired]
    exact Nat.le_trans (Nat.min_le_left _ _) (boundTarget_le_max _ _ hmax)
  have hheld := c.held_le σ.1
  constructor
  · rw [hdesired]
    exact Nat.le_trans (Nat.min_le_left _ _) (boundTarget_le_up _ _ _)
  · exact hmaximum
  · intro hstopped
    rcases c.step_cases config policy σ.1 with ⟨-, hunread⟩ | ⟨sample, -, hsome, -⟩
    · rw [hstopped.1] at hwithin hstays hheld
      generalize c.step config policy σ.1 = step at hunread hwithin hstays
      cases hunread with
      | discarded => exact Nat.le_trans (hstays hheld) (Nat.zero_le _)
      | started => exact Nat.le_trans hwithin (Nat.max_le.2 ⟨Nat.le_refl _, Nat.zero_le _⟩)
      | kept => exact Nat.le_trans (hstays hheld) (Nat.zero_le _)
    · -- a stopped fleet that does not start has no room at all
      have hcap : (c.apply config policy σ.1).1.desiredWorkers ≤ quotaCap c.decision config := by
        rw [hdesired]
        exact Nat.min_le_right _ _
      have hclosed : ¬ (0 < config.fleet.maxWorkers ∧ 0 < quotaCap c.decision config) :=
        fun hroom => SaturationCycle.sample_not_starts hsome ⟨hstopped, hroom⟩
      omega
  · intro hrunning hgrows
    rcases c.step_cases config policy σ.1 with ⟨-, hunread⟩ | ⟨sample, step, hsome, hstep, houtcome⟩
    · generalize c.step config policy σ.1 = step at hunread hstays
      cases hunread with
      | discarded => exact absurd (hstays hheld) (Nat.not_le.2 hgrows)
      | started hstarts => exact absurd hstarts.1 hrunning
      | kept => exact absurd (hstays hheld) (Nat.not_le.2 hgrows)
    · rcases h with hdefault | ⟨hlast, hsame⟩
      · have htarget : (c.step config policy σ.1).target = c.held σ.1 := by
          rw [hstep]
          rw [hdefault] at houtcome ⊢
          exact (houtcome.of_lost rfl (Or.inr rfl)).1
        exact absurd (hstays (htarget.trans_le hheld)) (Nat.not_le.2 hgrows)
      · obtain ⟨last, hsome'⟩ := Option.isSome_iff_exists.1 hlast
        exact ⟨sample, last, hsome, hsome', SaturationCycle.sample_fresh hsome last (hsame.trans hsome')⟩

end Evidence

/-! ## Distance -/

/-- The counts of a probe are at most one step apart. -/
def SaturationProbe.Near (policy : ZaiSaturationConfig F) (p : SaturationProbe F) : Prop :=
  p.toWorkers ≤ p.fromWorkers + policy.stepWorkers ∧ p.fromWorkers ≤ p.toWorkers + policy.stepWorkers

section Distance

variable {ctx : SaturationContext F} {s : SaturationState F} {held : Nat} {start : Option DateTime} {measured : F}

omit [Flt F] in
theorem candidate_near (hmin : ctx.fleet.minWorkers ≤ ctx.current) (hmax : ctx.current ≤ ctx.fleet.maxWorkers)
    (hstep : 0 < ctx.policy.stepWorkers) (shrinking : Bool) :
    ctx.candidate shrinking ≤ ctx.current + ctx.policy.stepWorkers ∧
      ctx.current ≤ ctx.candidate shrinking + ctx.policy.stepWorkers := by
  cases shrinking with
  | true =>
    have hfloor : (if ctx.unowned = 0 then max ctx.fleet.minWorkers 1 else ctx.fleet.minWorkers) ≤
        max ctx.current 1 := by
      split
      · exact Nat.max_le.2 ⟨Nat.le_trans hmin (Nat.le_max_left _ _), Nat.le_max_right _ _⟩
      · exact Nat.le_trans hmin (Nat.le_max_left _ _)
    show max (ctx.current - ctx.policy.stepWorkers) _ ≤ _ ∧ _ ≤ max (ctx.current - ctx.policy.stepWorkers) _ + _
    omega
  | false =>
    have hsum := satAdd_le ctx.current ctx.policy.stepWorkers
    have hu32 := ctx.fleet.maxWorkersU32
    show min (satAdd ctx.current ctx.policy.stepWorkers) ctx.fleet.maxWorkers ≤ _ ∧
      _ ≤ min (satAdd ctx.current ctx.policy.stepWorkers) ctx.fleet.maxWorkers + _
    unfold satAdd at hsum ⊢
    omega

/-- **One sample keeps every probe within a step, and asks for at most a step more.** -/
theorem SaturationContext.Outcome.near {step : SaturationStep F} (h : ctx.Outcome s held start measured step)
    (hmin : ctx.fleet.minWorkers ≤ ctx.current) (hmax : ctx.current ≤ ctx.fleet.maxWorkers)
    (hstep : 0 < ctx.policy.stepWorkers) (hheld : held ≤ ctx.current) (hnear : ∀ p ∈ s.pending, p.Near ctx.policy) :
    (∀ p ∈ step.state.pending, p.Near ctx.policy) ∧ step.target ≤ ctx.current + ctx.policy.stepWorkers := by
  have hstay : held ≤ ctx.current + ctx.policy.stepWorkers := Nat.le_trans hheld (Nat.le_add_right _ _)
  cases h with
  | waiting hpending hbetween =>
    refine ⟨hnear, ?_⟩
    obtain ⟨hup, -⟩ := hnear _ hpending
    dsimp only
    rcases hbetween with hfrom | ⟨hlow, hhigh⟩
    · omega
    · omega
  | changed => exact ⟨nofun, hstay⟩
  | settling => exact ⟨hnear, hstay⟩
  | dwelling => exact ⟨hnear, hstay⟩
  | recovered =>
    refine ⟨?_, hstay⟩
    dsimp only
    split
    · exact nofun
    · exact nofun
  | shrunk => exact ⟨nofun, hstay⟩
  | grown => exact ⟨nofun, hstay⟩
  | restored hjudges =>
    obtain ⟨hup, hdown⟩ := hnear _ hjudges.pending
    have hcount := hjudges.count
    refine ⟨?_, ?_⟩
    · intro p hp
      rw [← Option.some.inj hp]
      exact ⟨hcount ▸ hdown, hcount ▸ hup⟩
    · exact hcount ▸ hdown
  | baseline hpending => exact ⟨hnear, hstay⟩
  | resting hpending => exact ⟨hnear, hstay⟩
  | probed =>
    obtain ⟨hup, hdown⟩ := candidate_near hmin hmax hstep (s.shrinking || ctx.pressured)
    refine ⟨?_, hup⟩
    intro p hp
    rw [← Option.some.inj hp]
    exact ⟨hup, hdown⟩
  | blocked =>
    refine ⟨?_, hstay⟩
    dsimp only
    split
    · exact hnear
    · exact hnear

variable {config : AccountConfig F} {policy : ZaiSaturationConfig F} {c : SaturationCycle F} {p : SaturationProbe F}

/-- **A cycle moves by at most one step**, and stores no probe longer than that. -/
structure StepBounded (config : AccountConfig F) (policy : ZaiSaturationConfig F) (s : SaturationState F)
    (c : SaturationCycle F) : Prop where
  probe : ∀ p ∈ (c.apply config policy s).2.pending, p.Near policy
  step : ¬ c.Stopped →
    (c.apply config policy s).1.desiredWorkers ≤ c.decision.currentWorkers + policy.stepWorkers

instance : Decidable (p.Near policy) := inferInstanceAs (Decidable (_ ∧ _))

instance : Decidable (StepBounded config policy s c) :=
  decidable_of_iff
    ((∀ p ∈ (c.apply config policy s).2.pending, p.Near policy) ∧ (¬ c.Stopped →
      (c.apply config policy s).1.desiredWorkers ≤ c.decision.currentWorkers + policy.stepWorkers))
    ⟨fun h => ⟨h.1, h.2⟩, fun h => ⟨h.probe, h.step⟩⟩

theorem step_bounded (hmin : config.fleet.minWorkers ≤ c.decision.currentWorkers)
    (hmax : c.decision.currentWorkers ≤ config.fleet.maxWorkers) (hstep : 0 < policy.stepWorkers)
    (hnear : ∀ p ∈ s.pending, p.Near policy) : StepBounded config policy s c := by
  have hheld := c.held_le s
  have hmoved : (∀ p ∈ (c.step config policy s).state.pending, p.Near policy) ∧
      (¬ c.Stopped → (c.step config policy s).target ≤ c.decision.currentWorkers + policy.stepWorkers) := by
    have hstay : c.held s ≤ c.decision.currentWorkers + policy.stepWorkers :=
      Nat.le_trans hheld (Nat.le_add_right _ _)
    rcases c.step_cases config policy s with ⟨-, hunread⟩ | ⟨sample, step, -, hsampled, houtcome⟩
    · generalize c.step config policy s = step at hunread
      cases hunread with
      | discarded => exact ⟨nofun, fun _ => hstay⟩
      | started hstarts => exact ⟨nofun, fun hrunning => absurd hstarts.1 hrunning⟩
      | kept => exact ⟨hnear, fun _ => hstay⟩
    · rw [hsampled]
      obtain ⟨hprobe, htarget⟩ := houtcome.near hmin hmax hstep hheld hnear
      exact ⟨hprobe, fun _ => htarget⟩
  refine ⟨?_, fun hrunning => ?_⟩
  · rcases c.apply_state config policy s with h | h
    · rw [h]
      exact hmoved.1
    · rw [h]
      exact nofun
  · rw [c.apply_desired]
    refine Nat.le_trans (Nat.min_le_left _ _) (Nat.le_trans (boundTarget_le _ _ _) (Nat.max_le.2 ⟨?_, ?_⟩))
    · exact hmoved.2 hrunning
    · exact Nat.le_add_right _ _

end Distance

/-! ## Runs -/

theorem validateZaiSaturation_stepWorkers {policy : ZaiSaturationConfig F} {name : String}
    (h : validateZaiSaturation policy name = .ok ()) : 0 < policy.stepWorkers := by
  simp only [validateZaiSaturation, andThen_ok, ensure_ok, Bool.and_eq_true, bne_iff_ne] at h
  exact Nat.pos_of_ne_zero h.1.1

section Runs

variable {name : String} {config : AccountConfig F} {policy : ZaiSaturationConfig F}

/-- **Growth along a run is capped and takes fresh evidence**, and where the pool's floor does not saturate, no cycle
and no stored probe goes further than a step. -/
theorem growth_bounded (hvalid : config.validate name = .ok ())
    (hpolicy : config.utilization.zaiSaturation = some policy) {cycles : List (SaturationCycle F)}
    (hcycles : ∀ c ∈ cycles, ∃ owned unowned, c.Evaluated name config owned unowned) :
    Each (nextConsumed config policy) (GrowthEvidenced config policy) ({}, none) cycles ∧
      ((∀ c ∈ cycles, config.fleet.minWorkers + c.decision.unownedWorkers ≤ u32Max) →
        Each (nextConsumed config policy) (fun σ => StepBounded config policy σ.1) ({}, none) cycles) := by
  constructor
  · refine each_of_invariant (I := Consumed) ?_ (Or.inl rfl) hcycles
    rintro σ c σ' hconsumed ⟨owned, unowned, heval⟩ hnext
    rw [← Option.some.inj hnext]
    exact ⟨growth_evidenced hconsumed heval.current_le, hconsumed.step c⟩
  · intro hfits
    have hstep := validateZaiSaturation_stepWorkers (AccountConfig.validate_zaiSaturation hvalid hpolicy)
    refine each_of_invariant (I := fun σ => ∀ p ∈ σ.1.pending, p.Near policy)
      (Q := fun c => (∃ owned unowned, c.Evaluated name config owned unowned) ∧
        config.fleet.minWorkers + c.decision.unownedWorkers ≤ u32Max) ?_ nofun fun c hc => ⟨hcycles c hc, hfits c hc⟩
    rintro σ c σ' hnear ⟨⟨owned, unowned, heval⟩, hfit⟩ hnext
    rw [← Option.some.inj hnext]
    have hbounded := step_bounded (heval.le_current hfit) heval.current_le hstep hnear
    exact ⟨hbounded, hbounded.probe⟩

end Runs

/-! ### A fleet of four to ten workers -/

def experimentPolicy : ZaiSaturationConfig F64 where
  stepWorkers := 2
  dwellSeconds := 600
  minimumWindowSeconds := 60
  minimumAttempts := 10
  plateauFraction := Flt.ofRat (1 / 20)
  concurrencyFraction := Flt.ofRat (1 / 10)
  reprobeSeconds := 3600

def experimentAccount : AccountConfig F64 where
  fleet := { pacedFleet with minWorkers := 4 }
  utilization := { pacedUtilization with zaiSaturation := some experimentPolicy }
  bankedResets := { pacedAccount.bankedResets with enabled := false }

theorem experimentAccount_valid : experimentAccount.validate "zai" = .ok () := by decide +kernel

/-- So many of a hundred requests completed in the last hundred seconds, under this pressure. -/
def experimentSnapshot (minutes : Int) (completed backlog : Nat) (pressure : F64) : QuotaSnapshot F64 where
  observedAt := minutes * 60 * nanosPerSecond
  fresh := true
  windows := [week]
  eligibleBacklogCapacity := some backlog
  resetCredits := none
  backpressure := none
  saturation := some
    { completedRequests := completed, windowSeconds := 100, attempts := 100,
      upstreamConcurrencyFraction := some pressure }

def experimentDecision (snapshot : QuotaSnapshot F64) (owned unowned : Nat) : Except String (Decision F64) :=
  evaluatePool "zai" experimentAccount snapshot {} owned unowned snapshot.observedAt

/-- The cycle at this snapshot, with no record but that of the experiments. -/
def experimentCycle (snapshot : QuotaSnapshot F64) (owned unowned : Nat) : SaturationCycle F64 where
  decision := (experimentDecision snapshot owned unowned).toOption.getD
    { account := "zai", observedAt := 0, currentWorkers := 0, desiredWorkers := 0, stale := true }
  snapshot
  account := {}
  now := snapshot.observedAt

theorem experimentCycle_evaluated {snapshot : QuotaSnapshot F64} {owned unowned : Nat}
    (hok : (experimentDecision snapshot owned unowned).toOption.isSome = true)
    (hrange : 4 ≤ owned ∧ owned ≤ 10 ∧ unowned ≤ u32Max) :
    (experimentCycle snapshot owned unowned).Evaluated "zai" experimentAccount owned unowned := by
  refine ⟨?_, hrange.1, hrange.2.1, hrange.2.2⟩
  show experimentDecision snapshot owned unowned = .ok ((experimentDecision snapshot owned unowned).toOption.getD _)
  cases hdecision : experimentDecision snapshot owned unowned with
  | error e =>
    rw [hdecision] at hok
    cases hok
  | ok d => rfl

/-- What a cycle of the run reads. -/
structure ExperimentReading where
  minutes : Int
  completed : Nat
  backlog : Nat
  owned : Nat

def experimentCycles (pressure : F64) (unowned : Nat) (readings : List ExperimentReading) :
    List (SaturationCycle F64) :=
  readings.map (fun r =>
    experimentCycle (experimentSnapshot r.minutes r.completed r.backlog pressure) r.owned unowned)

theorem experimentCycles_evaluated (pressure : F64) (unowned : Nat) (readings : List ExperimentReading)
    (hunowned : unowned ≤ u32Max)
    (hreadings : ∀ r ∈ readings, (experimentDecision (experimentSnapshot r.minutes r.completed r.backlog pressure)
      r.owned unowned).toOption.isSome = true ∧ 4 ≤ r.owned ∧ r.owned ≤ 10) :
    ∀ c ∈ experimentCycles pressure unowned readings,
      ∃ owned unowned, c.Evaluated "zai" experimentAccount owned unowned := by
  refine List.forall_mem_map.2 fun r hr => ?_
  obtain ⟨hok, hleast, hmost⟩ := hreadings r hr
  exact ⟨r.owned, unowned, experimentCycle_evaluated hok ⟨hleast, hmost, hunowned⟩⟩

/-- A baseline, and the first step ten minutes later. -/
def firstStep (owned : Nat) : List ExperimentReading :=
  [{ minutes := 0, completed := 100, backlog := 20, owned },
    { minutes := 10, completed := 100, backlog := 20, owned }]

/-- Four owned workers look like one beside all the others that a `u32` can count, and the floor of four is then three
workers away from it: further than the step of two. -/
theorem saturated_pool_overshoots :
    ¬ ∀ (name : String) (config : AccountConfig F64) (policy : ZaiSaturationConfig F64)
      (cycles : List (SaturationCycle F64)), config.validate name = .ok () →
      config.utilization.zaiSaturation = some policy →
      (∀ c ∈ cycles, ∃ owned unowned, c.Evaluated name config owned unowned) →
      Each (nextConsumed config policy) (fun σ => StepBounded config policy σ.1) ({}, none) cycles := by
  intro hall
  have hrun := hall "zai" experimentAccount experimentPolicy
    (experimentCycles (Flt.ofRat (1 / 5)) 4294967294 (firstStep 4)) experimentAccount_valid rfl
    (experimentCycles_evaluated _ _ _ (by decide) (by decide +kernel))
  have hlong : ¬ Each (nextConsumed experimentAccount experimentPolicy)
      (fun σ => StepBounded experimentAccount experimentPolicy σ.1) ({}, none)
      (experimentCycles (Flt.ofRat (1 / 5)) 4294967294 (firstStep 4)) := by
    decide +kernel
  exact hlong hrun

/-- Five owned and three unowned workers without any pressure, and a first step up to seven. -/
theorem growth_bounded_first :
    Each (nextConsumed experimentAccount experimentPolicy) (GrowthEvidenced experimentAccount experimentPolicy)
      ({}, none) (experimentCycles Flt.zero 3 (firstStep 5)) ∧
    Each (nextConsumed experimentAccount experimentPolicy)
      (fun σ => StepBounded experimentAccount experimentPolicy σ.1) ({}, none)
      (experimentCycles Flt.zero 3 (firstStep 5)) := by
  have hfits : ∀ c ∈ experimentCycles Flt.zero 3 (firstStep 5), 4 + c.decision.unownedWorkers ≤ u32Max := by
    decide +kernel
  obtain ⟨hevidenced, hbounded⟩ := growth_bounded experimentAccount_valid rfl
    (experimentCycles_evaluated Flt.zero 3 (firstStep 5) (by decide) (by decide +kernel))
  exact ⟨hevidenced, hbounded hfits⟩

end Subgov
