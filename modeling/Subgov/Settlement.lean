import Subgov.SaturationRun
/-!
# Settlement — which throughput a judgement credits

A probe settles on one count, and is judged by a sample that begins after it settled.  A run notes the samples consumed
since the settlement: `unmixed_iff` says that the judged interval holds a single worker count exactly when the other
cycles that fall in it do, for these the settlement does not see.
-/
namespace Subgov

open FloatArith Trace

variable {F : Type} [Flt F]

/-! ## Judgements -/

/-- The reasons that end a probe. -/
def SaturationReason.judges : SaturationReason → Bool
  | .growthImprovedThroughput | .shrinkRetainedThroughput | .recoverySettled | .restorePreviousCount => true
  | _ => false

namespace SaturationContext

variable (ctx : SaturationContext F) (s : SaturationState F) (probe : SaturationProbe F) (measured : F)

/-- A judged probe that neither retained nor gained enough is rolled back, a recovery never. -/
def rollsBack : Bool :=
  !probe.recovery &&
    !(decide (probe.toWorkers < probe.fromWorkers) &&
      decide (s.plateauRate.getD probe.baselineRate * (Flt.ofNat 1 - ctx.policy.plateauFraction) ≤ measured)) &&
    !(decide (probe.fromWorkers < probe.toWorkers) &&
      decide (probe.baselineRate * (Flt.ofNat 1 + ctx.policy.plateauFraction) < measured))

/-- The count that a judgement asks for. -/
def verdict : Nat := if ctx.rollsBack s probe measured then probe.fromWorkers else probe.toWorkers

/-- The caps of the cycle undo the judgement. -/
def overrules (backlogCap : Nat) : Bool :=
  decide (ctx.quotaCap < boundTarget (ctx.verdict s probe measured) ctx.current backlogCap ctx.fleet) ||
    (ctx.rollsBack s probe measured &&
      (decide (ctx.quotaCap < probe.fromWorkers) || decide (backlogCap < probe.fromWorkers)))

variable {ctx : SaturationContext F} {s : SaturationState F} {held : Nat} {start : Option DateTime} {measured : F}

theorem settleProbe_verdict (probe : SaturationProbe F) :
    (ctx.settleProbe s probe probe.toWorkers measured).reason.judges = true ∧
      (ctx.settleProbe s probe probe.toWorkers measured).target = ctx.verdict s probe measured ∧
      (ctx.settleProbe s probe probe.toWorkers measured).state.pending.map (·.toWorkers) =
        if ctx.rollsBack s probe measured then some probe.fromWorkers else none := by
  unfold settleProbe verdict rollsBack
  dsimp only
  split
  · rename_i hrecovery
    rw [hrecovery]
    refine ⟨rfl, rfl, ?_⟩
    dsimp only
    split <;> rfl
  · rename_i hrecovery
    rw [Bool.not_eq_true] at hrecovery
    rw [hrecovery]
    split
    · rename_i hshrunk
      rw [hshrunk]
      exact ⟨rfl, rfl, rfl⟩
    · rename_i hshrunk
      rw [Bool.not_eq_true] at hshrunk
      rw [hshrunk]
      split
      · rename_i hgrown
        rw [hgrown]
        exact ⟨rfl, rfl, rfl⟩
      · rename_i hgrown
        rw [Bool.not_eq_true] at hgrown
        rw [hgrown]
        exact ⟨rfl, rfl, rfl⟩

theorem Outcome.judges {step : SaturationStep F} (h : ctx.Outcome s held start measured step)
    (hreason : step.reason.judges = true) : ∃ probe, ctx.Judges s start probe := by
  cases h with
  | recovered hjudges => exact ⟨_, hjudges⟩
  | shrunk hjudges => exact ⟨_, hjudges⟩
  | grown hjudges => exact ⟨_, hjudges⟩
  | restored hjudges => exact ⟨_, hjudges⟩
  | probed =>
    dsimp only at hreason
    split at hreason <;> cases hreason
  | blocked _ _ hnamed =>
    dsimp only at hreason
    rcases hnamed with rfl | rfl <;> cases hreason
  | _ => cases hreason

/-- A probe settled after a sample was settled before it, or the sample was taken at both its and the old count. -/
theorem Outcome.settled {step : SaturationStep F} (h : ctx.Outcome s held start measured step)
    {p : SaturationProbe F} (hp : step.state.pending = some p) (hat : step.state.settledAt.isSome = true)
    (hobserved : step.state.observedWorkers = some p.toWorkers) :
    (s.pending = some p ∧ s.settledAt.isSome = true ∧ s.observedWorkers = some p.toWorkers) ∨
      (∃ probe, s.pending = some probe ∧ ctx.current = probe.toWorkers ∧ ctx.current = p.toWorkers) := by
  cases h with
  | waiting => cases hat
  | changed => cases hp
  | settling hpending hcount => exact Or.inr ⟨_, hpending, hcount, Option.some.inj hobserved⟩
  | dwelling => exact Or.inl ⟨hp, hat, hobserved⟩
  | recovered =>
    dsimp only at hp
    split at hp <;> cases hp
  | shrunk => cases hp
  | grown => cases hp
  | restored hjudges =>
    exact Or.inr ⟨_, hjudges.pending, hjudges.count, Option.some.inj (hjudges.observed.symm.trans hobserved)⟩
  | baseline hpending => cases hpending.symm.trans hp
  | resting hpending => cases hpending.symm.trans hp
  | probed => cases hat
  | blocked hpending =>
    dsimp only at hp
    split at hp <;> cases hpending.symm.trans hp

omit [Flt F] in
theorem Judges.settledAt {probe : SaturationProbe F} (hjudges : ctx.Judges s start probe) :
    s.settledAt.isSome = true := by
  have hready := hjudges.ready
  cases hat : s.settledAt with
  | none =>
    rw [intervalReady, hat] at hready
    cases hready
  | some at_ => rfl

/-- A judged probe takes the branch of its verdict. -/
theorem pendingStep_of_judges {probe : SaturationProbe F} (hjudges : ctx.Judges s start probe) :
    ctx.pendingStep s probe held start measured = ctx.settleProbe s probe held measured := by
  have hsettled : s.settledAt.isNone = false := by
    rw [Option.isNone_eq_false_iff]
    exact hjudges.settledAt
  unfold pendingStep
  dsimp only
  rw [if_neg (not_not_intro hjudges.count), if_neg (by simp [hsettled, hjudges.observed]), if_pos hjudges.ready]

end SaturationContext

/-! ## Cycles -/

namespace SaturationCycle

variable (c : SaturationCycle F) (config : AccountConfig F) (policy : ZaiSaturationConfig F) (s : SaturationState F)

def backlogCap : Nat := c.snapshot.eligibleBacklogCapacity.getD c.decision.currentWorkers

/-- The reason of the published decision ends a probe. -/
def Credits : Prop := ∃ d, (c.apply config policy s).1.saturation = some d ∧ d.reason.judges = true

/-- The consumed sample judges the probe, and the caps of the cycle let the verdict stand. -/
structure Judgement (probe : SaturationProbe F) (sample : SaturationSnapshot F) : Prop where
  sampled : c.sample config policy s = some sample
  judges : (c.context config policy).Judges s ((c.context config policy).windowStart sample) probe
  stands : (c.context config policy).overrules s probe sample.measured c.backlogCap = false

/-- Whether the caps cancel what a step leaves. -/
def cancels (step : SaturationStep F) : Bool :=
  let cap := quotaCap c.decision config
  let target := boundTarget step.target c.decision.currentWorkers c.backlogCap config.fleet
  decide (min target cap ≠ target) ||
    step.state.pending.any (fun p => decide (cap < p.toWorkers) || decide (c.backlogCap < p.toWorkers))

theorem apply_reason :
    (c.apply config policy s).1.saturation.map (·.reason) =
      some (if c.cancels config (c.step config policy s) then .quotaOrBacklogBound
        else (c.step config policy s).reason) := by
  unfold apply applyZaiSaturation cancels step backlogCap
  dsimp only
  rw [Option.map_some]

variable {c config policy s}

omit [Flt F] in
/-- A cycle without a sample judges no probe. -/
theorem Unread.judges {step : SaturationStep F} (h : Unread c config s step) : step.reason.judges = false := by
  cases h with
  | discarded hnamed => rcases hnamed with rfl | rfl <;> rfl
  | started => rfl
  | kept hnamed => rcases hnamed with rfl | rfl <;> rfl

theorem sample_mem {sample : SaturationSnapshot F} (h : c.sample config policy s = some sample) :
    c.snapshot.saturation = some sample := by
  unfold SaturationCycle.sample at h
  split at h
  · cases h
  · exact Option.eq_some_of_filter_eq_some h

theorem step_of_sample {sample : SaturationSnapshot F} (h : c.sample config policy s = some sample) :
    c.step config policy s = (c.context config policy).sampleStep s (c.held s) sample := by
  unfold SaturationCycle.sample at h
  split at h
  · cases h
  · rename_i hopen
    simp only [not_or] at hopen
    obtain ⟨hdiscards, hstarts, hgap, hrepeated⟩ := hopen
    rw [step_of_moving hdiscards hstarts, if_neg hgap, if_neg hrepeated, h]

theorem step_of_judges {probe : SaturationProbe F} {sample : SaturationSnapshot F}
    (hsample : c.sample config policy s = some sample)
    (hjudges : (c.context config policy).Judges s ((c.context config policy).windowStart sample) probe) :
    c.step config policy s =
      { (c.context config policy).settleProbe { s with lastSampleAt := some c.snapshot.observedAt } probe
          probe.toWorkers sample.measured with rate := some sample.measured } := by
  have hheld : c.held s = probe.toWorkers := by
    unfold held
    rw [hjudges.pending]
    show min probe.toWorkers (c.context config policy).current = probe.toWorkers
    rw [hjudges.count, min_self]
  have hstamped : (c.context config policy).Judges { s with lastSampleAt := some c.snapshot.observedAt }
      ((c.context config policy).windowStart sample) probe :=
    ⟨hjudges.pending, hjudges.count, hjudges.observed, hjudges.ready⟩
  rw [step_of_sample hsample, hheld, ← SaturationContext.pendingStep_of_judges hstamped]
  unfold SaturationContext.sampleStep
  dsimp only
  rw [hjudges.pending]
  rfl

theorem cancels_of_judges {probe : SaturationProbe F} {sample : SaturationSnapshot F}
    (hsample : c.sample config policy s = some sample)
    (hjudges : (c.context config policy).Judges s ((c.context config policy).windowStart sample) probe) :
    (c.step config policy s).reason.judges = true ∧
      c.cancels config (c.step config policy s) =
        (c.context config policy).overrules s probe sample.measured c.backlogCap := by
  let ctx := c.context config policy
  let stamped : SaturationState F := { s with lastSampleAt := some c.snapshot.observedAt }
  have hverdict : (ctx.settleProbe stamped probe probe.toWorkers sample.measured).reason.judges = true ∧
      (ctx.settleProbe stamped probe probe.toWorkers sample.measured).target =
        ctx.verdict stamped probe sample.measured ∧
      (ctx.settleProbe stamped probe probe.toWorkers sample.measured).state.pending.map (·.toWorkers) =
        if ctx.rollsBack stamped probe sample.measured then some probe.fromWorkers else none :=
    SaturationContext.settleProbe_verdict probe
  obtain ⟨hreason, htarget, hpending⟩ := hverdict
  have hany : ∀ (pending : Option (SaturationProbe F)) (f : Nat → Bool),
      pending.any (fun p => f p.toWorkers) = (pending.map (·.toWorkers)).any f := fun _ _ => Option.any_map.symm
  rw [step_of_judges hsample hjudges]
  refine ⟨hreason, ?_⟩
  unfold cancels SaturationContext.overrules
  dsimp only
  rw [hany _ (fun n => decide (quotaCap c.decision config < n) || decide (c.backlogCap < n)), hpending, htarget]
  have hmin : ∀ target : Nat, decide (min target (quotaCap c.decision config) ≠ target) =
      decide (quotaCap c.decision config < target) := fun target => decide_eq_decide.2 (by omega)
  rw [hmin]
  show _ = (decide _ || (ctx.rollsBack s probe sample.measured && _))
  have hsame : ctx.rollsBack stamped probe sample.measured = ctx.rollsBack s probe sample.measured := rfl
  rw [hsame]
  cases ctx.rollsBack s probe sample.measured with
  | true => rfl
  | false => rfl

/-- **A published reason ends a probe** exactly when the consumed sample judges one and the verdict stands. -/
theorem credits_iff :
    c.Credits config policy s ↔ ∃ probe sample, c.Judgement config policy s probe sample := by
  have hpublished : c.Credits config policy s ↔
      c.cancels config (c.step config policy s) = false ∧ (c.step config policy s).reason.judges = true := by
    have hreason := c.apply_reason config policy s
    unfold Credits
    cases hsome : (c.apply config policy s).1.saturation with
    | none =>
      rw [hsome] at hreason
      cases hreason
    | some d =>
      rw [hsome, Option.map_some, Option.some_inj] at hreason
      simp only [Option.some_inj, exists_eq_left', hreason]
      cases c.cancels config (c.step config policy s) with
      | true => exact iff_of_false nofun nofun
      | false => exact (and_iff_right rfl).symm
  rw [hpublished]
  constructor
  · rintro ⟨hstands, hreason⟩
    rcases c.step_cases config policy s with ⟨-, hunread⟩ | ⟨sample, step, hsample, hstep, houtcome⟩
    · rw [hunread.judges] at hreason
      cases hreason
    · rw [hstep] at hreason
      obtain ⟨probe, hjudges⟩ := houtcome.judges hreason
      have hbefore : (c.context config policy).Judges s ((c.context config policy).windowStart sample) probe :=
        ⟨hjudges.pending, hjudges.count, hjudges.observed, hjudges.ready⟩
      exact ⟨probe, sample, hsample, hbefore, (cancels_of_judges hsample hbefore).2.symm.trans hstands⟩
  · rintro ⟨probe, sample, hjudged⟩
    obtain ⟨hreason, hcancels⟩ := cancels_of_judges hjudged.sampled hjudged.judges
    exact ⟨hcancels.trans hjudged.stands, hreason⟩

end SaturationCycle

/-! ## The samples of a settlement -/

variable {config : AccountConfig F} {policy : ZaiSaturationConfig F}

/-- The cycles since a probe settled that consumed a sample at its count. -/
def noteSettled (config : AccountConfig F) (policy : ZaiSaturationConfig F) (s : SaturationState F)
    (c : SaturationCycle F) (seen : List (SaturationCycle F)) : List (SaturationCycle F) :=
  if (c.sample config policy s).isSome = true ∧
      s.pending.any (fun p => decide (c.decision.currentWorkers = p.toWorkers)) = true then
    if s.settledAt.isSome = true ∧ s.observedWorkers = some c.decision.currentWorkers then c :: seen else [c]
  else seen

/-- A cycle of a run, which remembers the samples of the last settlement. -/
def nextSettled (config : AccountConfig F) (policy : ZaiSaturationConfig F) :
    SaturationState F × List (SaturationCycle F) → SaturationCycle F →
      Option (SaturationState F × List (SaturationCycle F)) :=
  noting (fun s c => (c.apply config policy s).2) (noteSettled config policy)

/-- The samples since a settlement were all taken at the count of the probe. -/
def Settled (σ : SaturationState F × List (SaturationCycle F)) : Prop :=
  ∀ p ∈ σ.1.pending, σ.1.settledAt.isSome = true → σ.1.observedWorkers = some p.toWorkers →
    ∀ c ∈ σ.2, c.decision.currentWorkers = p.toWorkers

/-- The time lies in the sample's own interval. -/
def SaturationCycle.Covers (c : SaturationCycle F) (sample : SaturationSnapshot F) (at_ : DateTime) : Prop :=
  c.snapshot.observedAt - sample.windowSeconds * nanosPerSecond ≤ at_ ∧ at_ ≤ c.snapshot.observedAt

/-- A published judgement is of an interval in which every cycle of the run observed the probe's count. -/
def Unmixed (clock : SaturationCycle F → DateTime) (cycles : List (SaturationCycle F)) (config : AccountConfig F)
    (policy : ZaiSaturationConfig F) (σ : SaturationState F × List (SaturationCycle F)) (c : SaturationCycle F) :
    Prop :=
  c.Credits config policy σ.1 → ∀ probe ∈ σ.1.pending, ∀ sample ∈ c.snapshot.saturation, ∀ c' ∈ cycles,
    c.Covers sample (clock c') → c'.decision.currentWorkers = probe.toWorkers

/-- Where a sample judges a probe, the cycles of its interval that the settlement did not see observed the probe's
count too. -/
def UnseenUnmixed (clock : SaturationCycle F → DateTime) (cycles : List (SaturationCycle F))
    (config : AccountConfig F) (policy : ZaiSaturationConfig F)
    (σ : SaturationState F × List (SaturationCycle F)) (c : SaturationCycle F) : Prop :=
  ∀ probe sample, c.Judgement config policy σ.1 probe sample → ∀ c' ∈ cycles, c' ∉ σ.2 →
    c.Covers sample (clock c') → c'.decision.currentWorkers = probe.toWorkers

instance (s : SaturationState F) (c : SaturationCycle F) : Decidable (c.Credits config policy s) :=
  decidable_of_iff ((c.apply config policy s).1.saturation.any (·.reason.judges) = true) (Option.any_eq_true _ _)

instance (c : SaturationCycle F) (sample : SaturationSnapshot F) (at_ : DateTime) : Decidable (c.Covers sample at_) :=
  inferInstanceAs (Decidable (_ ∧ _))

instance (clock : SaturationCycle F → DateTime) (cycles : List (SaturationCycle F))
    (σ : SaturationState F × List (SaturationCycle F)) (c : SaturationCycle F) :
    Decidable (Unmixed clock cycles config policy σ c) :=
  inferInstanceAs (Decidable (_ → _))

section Runs

variable {σ : SaturationState F × List (SaturationCycle F)} {c : SaturationCycle F}

omit [Flt F] in
theorem settled_default : Settled (({}, []) : SaturationState F × List (SaturationCycle F)) :=
  fun p hp => nomatch (show none = some p from hp)

theorem noteSettled_count (hsettled : Settled σ) {probe : SaturationProbe F} (hpending : σ.1.pending = some probe)
    (hsample : (c.sample config policy σ.1).isSome = true) (hcount : c.decision.currentWorkers = probe.toWorkers) :
    ∀ c' ∈ noteSettled config policy σ.1 c σ.2, c'.decision.currentWorkers = probe.toWorkers := by
  have hat : (c.sample config policy σ.1).isSome = true ∧
      σ.1.pending.any (fun p => decide (c.decision.currentWorkers = p.toWorkers)) = true :=
    ⟨hsample, (Option.any_eq_true _ _).2 ⟨probe, hpending, decide_eq_true hcount⟩⟩
  unfold noteSettled
  rw [if_pos hat]
  split
  · rename_i hobserved
    refine List.forall_mem_cons.2 ⟨hcount, ?_⟩
    rw [hcount] at hobserved
    exact hsettled probe hpending hobserved.1 hobserved.2
  · exact List.forall_mem_singleton.2 hcount

/-- A cycle adds to the samples of the settlement only at the probe's count. -/
theorem noteSettled_cases (config : AccountConfig F) (policy : ZaiSaturationConfig F) (s : SaturationState F)
    (c : SaturationCycle F) (seen : List (SaturationCycle F)) :
    noteSettled config policy s c seen = seen ∨
      ((c.sample config policy s).isSome = true ∧
        ∃ probe, s.pending = some probe ∧ c.decision.currentWorkers = probe.toWorkers) := by
  by_cases hat : (c.sample config policy s).isSome = true ∧
      s.pending.any (fun p => decide (c.decision.currentWorkers = p.toWorkers)) = true
  · obtain ⟨probe, hpending, hcount⟩ := (Option.any_eq_true _ _).1 hat.2
    exact Or.inr ⟨hat.1, probe, hpending, of_decide_eq_true hcount⟩
  · exact Or.inl (if_neg hat)

theorem Settled.step (hsettled : Settled σ) :
    Settled ((c.apply config policy σ.1).2, noteSettled config policy σ.1 c σ.2) := by
  rcases c.apply_state config policy σ.1 with hkept | hcancelled
  · have hstep : Settled ((c.step config policy σ.1).state, noteSettled config policy σ.1 c σ.2) := by
      rcases c.step_cases config policy σ.1 with ⟨hnone, hunread⟩ | ⟨sample, step, hsample, hsampled, houtcome⟩
      · have hseen : noteSettled config policy σ.1 c σ.2 = σ.2 := if_neg (by rw [hnone]; exact fun h => nomatch h.1)
        rw [hseen]
        generalize c.step config policy σ.1 = step at hunread
        cases hunread with
        | discarded => exact nofun
        | started => exact nofun
        | kept => exact hsettled
      · have hsome : (c.sample config policy σ.1).isSome = true := by rw [hsample]; rfl
        rw [hsampled]
        intro p hp hat hobserved
        rcases houtcome.settled hp hat hobserved with ⟨hbefore, hbeforeAt, hbeforeCount⟩ |
          ⟨probe, hpending, hcount, hsame⟩
        · rcases noteSettled_cases config policy σ.1 c σ.2 with hseen | ⟨-, probe, hpending, hcount⟩
          · rw [hseen]
            exact hsettled p hbefore hbeforeAt hbeforeCount
          · rw [Option.some.inj (hbefore.symm.trans hpending)]
            exact noteSettled_count hsettled hpending hsome hcount
        · rw [← hsame, hcount]
          exact noteSettled_count hsettled hpending hsome hcount
    rw [hkept]
    exact hstep
  · rw [hcancelled]
    exact nofun

theorem unmixed_iff_unseen {clock : SaturationCycle F → DateTime} {cycles : List (SaturationCycle F)}
    (hsettled : Settled σ) :
    Unmixed clock cycles config policy σ c ↔ UnseenUnmixed clock cycles config policy σ c := by
  constructor
  · intro hunmixed probe sample hjudged c' hc' _ hcovers
    exact hunmixed (SaturationCycle.credits_iff.2 ⟨probe, sample, hjudged⟩) probe hjudged.judges.pending sample
      (SaturationCycle.sample_mem hjudged.sampled) c' hc' hcovers
  · intro hunseen hcredits probe hprobe sample hsample c' hc' hcovers
    obtain ⟨judged, taken, hjudged⟩ := SaturationCycle.credits_iff.1 hcredits
    have hsame : judged = probe := Option.some.inj (hjudged.judges.pending.symm.trans hprobe)
    have htaken : taken = sample :=
      Option.some.inj ((SaturationCycle.sample_mem hjudged.sampled).symm.trans hsample)
    subst hsame htaken
    by_cases hseen : c' ∈ σ.2
    · have hobserved : σ.1.observedWorkers = some judged.toWorkers :=
        hjudged.judges.observed.trans (congrArg some hjudged.judges.count)
      exact hsettled judged hprobe hjudged.judges.settledAt hobserved c' hseen
    · exact hunseen judged taken hjudged c' hc' hseen hcovers

/-- **Throughput is credited to a single worker count, over a whole run, exactly where the cycles that the settlement
does not see kept that count**: those without a consumed sample, and those before it. -/
theorem unmixed_iff (clock : SaturationCycle F → DateTime) (config : AccountConfig F)
    (policy : ZaiSaturationConfig F) (cycles : List (SaturationCycle F)) :
    Each (nextSettled config policy) (Unmixed clock cycles config policy) ({}, []) cycles ↔
      Each (nextSettled config policy) (UnseenUnmixed clock cycles config policy) ({}, []) cycles := by
  refine each_congr (I := Settled) ?_ ?_ settled_default cycles
  · intro σ c σ' hsettled _ hnext
    rw [← Option.some.inj hnext]
    exact hsettled.step
  · intro σ c σ' hsettled _
    exact unmixed_iff_unseen hsettled

end Runs

/-! ### A launch that is undone for one cycle -/

/-- A growth step to seven workers that settles at eleven minutes; at 24 minutes five workers are observed, without a
sample, and the minute that follows is credited to seven. -/
def mixedCycles : List (SaturationCycle F64) :=
  experimentCycles Flt.zero 0
    [{ minutes := 0, completed := 50, backlog := 20, owned := 5 },
      { minutes := 10, completed := 50, backlog := 20, owned := 5 },
      { minutes := 11, completed := 50, backlog := 20, owned := 7 },
      { minutes := 20, completed := 50, backlog := 20, owned := 7 }] ++
    [experimentCycle { experimentSnapshot 24 50 20 Flt.zero with saturation := none } 5 0] ++
    experimentCycles Flt.zero 0 [{ minutes := 25, completed := 100, backlog := 20, owned := 7 }]

theorem mixedCycles_credited :
    ¬ Each (nextSettled experimentAccount experimentPolicy)
      (Unmixed (·.snapshot.observedAt) mixedCycles experimentAccount experimentPolicy) ({}, []) mixedCycles ∧
    ¬ Each (nextSettled experimentAccount experimentPolicy)
      (Unmixed (·.now) mixedCycles experimentAccount experimentPolicy) ({}, []) mixedCycles := by
  decide +kernel

end Subgov
