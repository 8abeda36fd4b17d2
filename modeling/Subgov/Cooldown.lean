import Subgov.Settlement
/-!
# Cooldown — how long a failed experiment keeps the search closed

A rollback writes the time of the next probe, and nothing but a discarded state or a later time replaces it.
`cooldown_enforced` says so of a whole run: no probe begins before the interval has passed, up to the last instant that
a date can hold, and a recovery is never rolled back.
-/
namespace Subgov

open FloatArith Trace

variable {F : Type} [Flt F]

/-! ## The next probe -/

/-- The end of the interval, or the last instant where the interval goes past it. -/
theorem le_reprobeAt {seconds : Nat} (hseconds : seconds ≤ i64Max) (at_ : DateTime) :
    min (at_ + seconds * nanosPerSecond) maxUtc ≤ reprobeAt at_ seconds := by
  unfold reprobeAt trySeconds checkedDate asI64
  rw [if_pos hseconds]
  split
  · rw [Option.bind_some]
    split
    · exact Int.min_le_left _ _
    · exact Int.min_le_right _ _
  · exact Int.min_le_right _ _

def SaturationReason.probes : SaturationReason → Bool
  | .probeGrowth | .probeShrink => true
  | _ => false

/-- No probe before this instant. -/
def Closed (until_ : DateTime) (s : SaturationState F) : Prop := ∃ next ∈ s.nextProbeAt, until_ ≤ next

namespace SaturationContext

variable {ctx : SaturationContext F} {s : SaturationState F} {held : Nat} {start : Option DateTime} {measured : F}

/-- **A closed search stays closed**, through settlements, recoveries, baselines and lower bounds. -/
theorem Outcome.closed {step : SaturationStep F} (h : ctx.Outcome s held start measured step) {until_ : DateTime}
    (hclosed : Closed until_ s) (hlater : until_ ≤ reprobeAt ctx.observedAt ctx.policy.reprobeSeconds) :
    step.state = {} ∨ Closed until_ step.state := by
  cases h with
  | changed => exact Or.inl rfl
  | recovered =>
    refine Or.inr ?_
    dsimp only
    split
    · exact hclosed
    · exact hclosed
  | restored => exact Or.inr ⟨_, rfl, hlater⟩
  | blocked =>
    refine Or.inr ?_
    dsimp only
    split
    · exact ⟨_, rfl, hlater⟩
    · exact hclosed
  | _ => exact Or.inr hclosed

theorem Outcome.not_probes {step : SaturationStep F} (h : ctx.Outcome s held start measured step) {until_ : DateTime}
    (hclosed : Closed until_ s) (hearly : ctx.observedAt < until_) : step.reason.probes = false := by
  cases h with
  | probed _ _ _ hcooled =>
    obtain ⟨next, hnext, hle⟩ := hclosed
    exact absurd (hcooled next hnext) (Int.not_le.2 (Int.lt_of_lt_of_le hearly hle))
  | blocked _ _ hnamed =>
    dsimp only
    rcases hnamed with rfl | rfl <;> rfl
  | _ => rfl

theorem Outcome.of_restore {step : SaturationStep F} (h : ctx.Outcome s held start measured step)
    (hreason : step.reason = .restorePreviousCount) :
    (∀ p ∈ s.pending, p.recovery = false) ∧
      step.state.nextProbeAt = some (reprobeAt ctx.observedAt ctx.policy.reprobeSeconds) := by
  cases h with
  | restored hjudges hrecovery =>
    refine ⟨fun p hp => ?_, rfl⟩
    rw [← Option.some.inj (hjudges.pending.symm.trans hp)]
    exact hrecovery
  | probed =>
    dsimp only at hreason
    split at hreason <;> cases hreason
  | blocked _ _ hnamed =>
    dsimp only at hreason
    rcases hnamed with rfl | rfl <;> cases hreason
  | _ => cases hreason

end SaturationContext

/-! ## Cycles -/

section Cycles

variable (c : SaturationCycle F) (config : AccountConfig F) (policy : ZaiSaturationConfig F) (s : SaturationState F)

/-- The reason of the published decision. -/
def SaturationCycle.reports (reason : SaturationReason) : Bool :=
  (c.apply config policy s).1.saturation.any (·.reason == reason)

variable {c config policy s}

/-- A published reason other than the caps' is that of the experiments, which the caps then leave as they are. -/
theorem SaturationCycle.step_of_reports {reason : SaturationReason} (h : c.reports config policy s reason = true)
    (hnot : reason ≠ .quotaOrBacklogBound) : (c.step config policy s).reason = reason := by
  have hreason := c.apply_reason config policy s
  obtain ⟨d, hd, hsame⟩ := (Option.any_eq_true _ _).1 h
  rw [Option.mem_def.1 hd, Option.map_some, Option.some_inj, beq_iff_eq.1 hsame] at hreason
  split at hreason
  · exact absurd hreason hnot
  · exact hreason.symm

theorem SaturationCycle.nextProbeAt_apply :
    (c.apply config policy s).2.nextProbeAt = (c.step config policy s).state.nextProbeAt := by
  rcases c.apply_state config policy s with h | h <;> rw [h]

variable (config) in
/-- **A cycle keeps a closed search closed, and probes only after it**, unless it discards the experiments. -/
theorem closed_step {until_ : DateTime} (hclosed : Closed until_ s)
    (hlater : until_ ≤ reprobeAt c.snapshot.observedAt policy.reprobeSeconds) :
    (c.snapshot.observedAt < until_ → (c.step config policy s).reason.probes = false) ∧
      ((c.apply config policy s).2 = {} ∨ Closed until_ (c.apply config policy s).2) := by
  have hstep : (c.snapshot.observedAt < until_ → (c.step config policy s).reason.probes = false) ∧
      ((c.step config policy s).state = {} ∨ Closed until_ (c.step config policy s).state) := by
    rcases c.step_cases config policy s with ⟨-, hunread⟩ | ⟨sample, step, -, hsampled, houtcome⟩
    · generalize c.step config policy s = step at hunread
      cases hunread with
      | discarded hnamed =>
        refine ⟨fun _ => ?_, Or.inl rfl⟩
        rcases hnamed with rfl | rfl <;> rfl
      | started => exact ⟨fun _ => rfl, Or.inl rfl⟩
      | kept hnamed =>
        refine ⟨fun _ => ?_, Or.inr hclosed⟩
        rcases hnamed with rfl | rfl <;> rfl
    · rw [hsampled]
      exact ⟨houtcome.not_probes hclosed, houtcome.closed hclosed hlater⟩
  refine ⟨hstep.1, hstep.2.imp (c.apply_discarded config policy s) fun ⟨next, hnext, hle⟩ => ⟨next, ?_, hle⟩⟩
  rw [SaturationCycle.nextProbeAt_apply]
  exact hnext

theorem of_restore (h : c.reports config policy s .restorePreviousCount = true) :
    (∀ p ∈ s.pending, p.recovery = false) ∧
      (c.apply config policy s).2.nextProbeAt =
        some (reprobeAt c.snapshot.observedAt policy.reprobeSeconds) := by
  have hreason := SaturationCycle.step_of_reports h nofun
  rw [SaturationCycle.nextProbeAt_apply]
  rcases c.step_cases config policy s with ⟨-, hunread⟩ | ⟨sample, step, -, hsampled, houtcome⟩
  · have hno := hunread.judges
    rw [hreason] at hno
    cases hno
  · rw [hsampled] at hreason ⊢
    exact houtcome.of_restore hreason

end Cycles

/-! ## Runs -/

section Runs

variable (config : AccountConfig F) (policy : ZaiSaturationConfig F)

def nextCycle (s : SaturationState F) (c : SaturationCycle F) : Option (SaturationState F) :=
  some (c.apply config policy s).2

/-- Before `until_` no probe begins, unless the experiments are discarded first. -/
def Rests (until_ : DateTime) : SaturationState F → List (SaturationCycle F) → Prop :=
  Until (nextCycle config policy)
    (fun s c => c.snapshot.observedAt < until_ →
      c.reports config policy s .probeGrowth = false ∧ c.reports config policy s .probeShrink = false)
    (fun s => s = {})

/-- **A failed experiment rests**: nothing is probed before `ends` of its time, and it was no recovery. -/
def FailureRests (ends : DateTime → DateTime) (s : SaturationState F) (c : SaturationCycle F) (s' : SaturationState F)
    (later : List (SaturationCycle F)) : Prop :=
  c.reports config policy s .restorePreviousCount = true →
    (∀ p ∈ s.pending, p.recovery = false) ∧ Rests config policy (ends c.snapshot.observedAt) s' later

instance (until_ : DateTime) (s : SaturationState F) (cycles : List (SaturationCycle F)) [DecidableEq F] :
    Decidable (Rests config policy until_ s cycles) :=
  inferInstanceAs (Decidable (Until _ _ _ _ _))

instance (ends : DateTime → DateTime) (s s' : SaturationState F) (c : SaturationCycle F)
    (later : List (SaturationCycle F)) [DecidableEq F] :
    Decidable (FailureRests config policy ends s c s' later) :=
  inferInstanceAs (Decidable (_ → _ ∧ _))

variable {config policy}

theorem rests_of_closed {until_ : DateTime} {s : SaturationState F} (hclosed : Closed until_ s)
    {later : List (SaturationCycle F)}
    (hlater : ∀ c ∈ later, until_ ≤ reprobeAt c.snapshot.observedAt policy.reprobeSeconds) :
    Rests config policy until_ s later := by
  refine until_of_invariant (I := Closed until_) ?_ hclosed hlater
  intro s c s' hclosed hle hnext
  obtain ⟨hprobes, hkept⟩ := closed_step config hclosed hle
  have hquiet : ∀ reason : SaturationReason, reason.probes = true → c.snapshot.observedAt < until_ →
      c.reports config policy s reason = false := by
    intro reason hprobe hearly
    rw [← Bool.not_eq_true]
    intro hreports
    have hsame := SaturationCycle.step_of_reports hreports (by rintro rfl; cases hprobe)
    rw [← hsame, hprobes hearly] at hprobe
    cases hprobe
  rw [← Option.some.inj hnext]
  exact ⟨fun hearly => ⟨hquiet _ rfl hearly, hquiet _ rfl hearly⟩, hkept⟩

/-- **A failed experiment enforces its cooldown over a whole run**, up to the last instant that a date can hold. -/
theorem cooldown_enforced {name : String} (hpolicy : validateZaiSaturation policy name = .ok ())
    {cycles : List (SaturationCycle F)}
    (hsorted : cycles.Pairwise (fun c c' => c.snapshot.observedAt ≤ c'.snapshot.observedAt)) :
    Follows (nextCycle config policy)
      (FailureRests config policy fun t => min (t + policy.reprobeSeconds * nanosPerSecond) maxUtc) {} cycles := by
  have hseconds : policy.reprobeSeconds ≤ i64Max := by
    simp only [validateZaiSaturation, validateDuration, andThen_ok, ensure_ok, decide_eq_true_eq] at hpolicy
    exact hpolicy.2.2.2.1.2
  refine follows_of_pairwise ?_ hsorted _
  intro s c s' later hlater hnext hrestored
  obtain ⟨hrecovery, hnextProbe⟩ := of_restore hrestored
  refine ⟨hrecovery, rests_of_closed ?_ fun c' hc' => ?_⟩
  · rw [← Option.some.inj hnext]
    exact ⟨_, hnextProbe, le_reprobeAt hseconds _⟩
  · have hle : c.snapshot.observedAt ≤ c'.snapshot.observedAt := hlater c' hc'
    exact Int.le_trans (min_le_min_right maxUtc (Int.add_le_add_right hle _))
      (le_reprobeAt hseconds c'.snapshot.observedAt)

end Runs

/-! ### The end of time -/

section EndOfTime

/-- An interval longer than any date. -/
def endlessPolicy : ZaiSaturationConfig F64 := { experimentPolicy with reprobeSeconds := i64Max }

theorem endlessPolicy_valid : validateZaiSaturation endlessPolicy "zai" = .ok () := by decide +kernel

/-- A cycle so many minutes before the last instant, of a decision that no quota window bounds. -/
def lateCycle (minutes : Int) (owned : Nat) : SaturationCycle F64 where
  decision := { account := "zai", observedAt := maxUtc - minutes * 60 * nanosPerSecond, currentWorkers := owned,
                desiredWorkers := owned, stale := false }
  snapshot := { experimentSnapshot 0 50 20 Flt.zero with observedAt := maxUtc - minutes * 60 * nanosPerSecond }
  account := {}
  now := maxUtc - minutes * 60 * nanosPerSecond

/-- A growth step without gain that is rolled back 29 minutes before the last instant, and the next probe at it. -/
def lateCycles : List (SaturationCycle F64) :=
  [lateCycle 50 5, lateCycle 40 5, lateCycle 39 7, lateCycle 29 7, lateCycle 28 5, lateCycle 18 5, lateCycle 8 5,
    lateCycle 0 5]

theorem lateCycles_probe :
    ¬ Follows (nextCycle experimentAccount endlessPolicy)
      (FailureRests experimentAccount endlessPolicy fun t => t + endlessPolicy.reprobeSeconds * nanosPerSecond) {}
      lateCycles := by
  decide +kernel

/-- The same run rests up to the last instant. -/
theorem cooldown_enforced_late :
    Follows (nextCycle experimentAccount endlessPolicy)
      (FailureRests experimentAccount endlessPolicy
        fun t => min (t + endlessPolicy.reprobeSeconds * nanosPerSecond) maxUtc) {} lateCycles :=
  cooldown_enforced endlessPolicy_valid (by decide +kernel)

end EndOfTime

end Subgov
