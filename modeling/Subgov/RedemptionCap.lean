import Subgov.PolicyRest
import Subgov.Redemption
import Subgov.Settlement
/-!
# RedemptionCap — what the experiments leave of a redemption hold

A pool that waits for a manual redemption is evaluated toward its minimum.  The experiments take the evaluated count for
a cap only where some window gives a reason other than a learning one, and there the hold stays
(`redemption_hold_kept_of_quotaBinds`); elsewhere they ask for their own count, and `applyZaiSaturation_le_iff` says
what that comes to.
-/
namespace Subgov

open FloatArith

variable {F : Type} [Flt F]

/-! ## What the experiments ask for -/

namespace SaturationContext

variable (ctx : SaturationContext F) (s : SaturationState F) (held : Nat) (start : Option DateTime) (measured : F)

/-- A probe may begin: the baseline is that of this count and settled, the cooldown has passed, and the candidate has
backlog and quota. -/
def Probes : Prop :=
  (s.observedWorkers = some ctx.current ∧ s.baselineRate.isSome = true) ∧
    intervalReady s start ctx.observedAt ctx.policy.dwellSeconds = true ∧
    s.nextProbeAt.all (fun at_ => decide (at_ ≤ ctx.observedAt)) = true ∧
    ctx.candidate (s.shrinking || ctx.pressured) ≠ ctx.current ∧
    ctx.backlog.any (fun cap => decide (max (ctx.candidate (s.shrinking || ctx.pressured)) ctx.current ≤ cap)) = true ∧
    ctx.candidate (s.shrinking || ctx.pressured) ≤ ctx.quotaCap ∧
    ((s.shrinking || ctx.pressured) = true ∨ Flt.zero < measured)

instance : Decidable (ctx.Probes s start measured) :=
  inferInstanceAs (Decidable (_ ∧ _ ∧ _ ∧ _ ∧ _ ∧ _ ∧ _))

instance (probe : SaturationProbe F) : Decidable (ctx.Between probe) := inferInstanceAs (Decidable (_ ∨ _))

/-- The count that a sample asks for: the one a probe moves to or is rolled back to, the one a new probe tries, and the
held count otherwise. -/
def asks : Nat :=
  match s.pending with
  | some probe =>
    if ctx.current = probe.toWorkers then
      if s.observedWorkers = some ctx.current ∧
          intervalReady s start ctx.observedAt ctx.policy.dwellSeconds = true ∧ ctx.rollsBack s probe measured = true
      then probe.fromWorkers else held
    else if ctx.Between probe then probe.toWorkers else held
  | none => if ctx.Probes s start measured then ctx.candidate (s.shrinking || ctx.pressured) else held

variable {ctx s held start measured}

theorem pendingStep_target {probe : SaturationProbe F} (hpending : s.pending = some probe)
    (hheld : ctx.current = probe.toWorkers → held = probe.toWorkers) :
    (ctx.pendingStep s probe held start measured).target = ctx.asks s held start measured := by
  unfold asks
  rw [hpending]
  dsimp only
  by_cases hcount : ctx.current = probe.toWorkers
  · rw [if_pos hcount]
    by_cases hready : s.observedWorkers = some ctx.current ∧
        intervalReady s start ctx.observedAt ctx.policy.dwellSeconds = true
    · rw [pendingStep_of_judges ⟨hpending, hcount, hready.1, hready.2⟩, hheld hcount,
        (settleProbe_verdict probe).2.1]
      unfold verdict
      simp only [hready, true_and]
    · rw [if_neg fun h => hready ⟨h.1, h.2.1⟩]
      unfold pendingStep
      dsimp only
      rw [if_neg (not_not_intro hcount)]
      split
      · rfl
      · rename_i hobserved
        simp only [Bool.or_eq_true, bne_iff_ne, ne_eq, not_or, Decidable.not_not] at hobserved
        rw [if_neg fun h => hready ⟨hobserved.2, h⟩]
  · rw [if_neg hcount]
    unfold pendingStep
    dsimp only
    rw [if_pos hcount]
    show (if ctx.Between probe then _ else _ : SaturationStep F).target = _
    split <;> rfl

theorem searchStep_target (hpending : s.pending = none) :
    (ctx.searchStep s held start measured).target = ctx.asks s held start measured := by
  unfold asks
  rw [hpending]
  dsimp only
  by_cases hprobes : ctx.Probes s start measured
  · obtain ⟨hkept, hready, hcooled, hroom⟩ := hprobes
    rw [if_pos ⟨hkept, hready, hcooled, hroom⟩]
    unfold searchStep probeStep
    rw [if_neg (by simp [hkept.1, Option.isSome_iff_ne_none.1 hkept.2]), if_pos (by rw [hready, hcooled]; rfl)]
    dsimp only
    rw [if_pos hroom]
  · rw [if_neg hprobes]
    unfold searchStep
    split
    · rfl
    · rename_i hkept
      rw [not_or, ne_eq, Decidable.not_not, Bool.not_eq_true, Option.isNone_eq_false_iff] at hkept
      split
      · rename_i hready
        rw [Bool.and_eq_true] at hready
        unfold probeStep
        dsimp only
        rw [if_neg fun hroom => hprobes ⟨hkept, hready.1, hready.2, hroom⟩]
      · rfl

end SaturationContext

namespace SaturationCycle

variable (c : SaturationCycle F) (config : AccountConfig F) (policy : ZaiSaturationConfig F) (s : SaturationState F)

/-- The count that the experiments ask for in a cycle, before the caps. -/
def asks : Nat :=
  if c.discards then c.held s
  else if c.Starts config then max config.fleet.bootstrapWorkers 1
  else match c.sample config policy s with
    | some sample => (c.context config policy).asks { s with lastSampleAt := some c.snapshot.observedAt } (c.held s)
        ((c.context config policy).windowStart sample) sample.measured
    | none => c.held s

theorem step_target : (c.step config policy s).target = c.asks config policy s := by
  unfold asks
  by_cases hdiscards : c.discards = true
  · have hstep : c.step config policy s =
        { target := c.held s, state := {}, reason := .quotaOrFreshnessBound } := if_pos hdiscards
    rw [hstep, if_pos hdiscards]
  · rw [if_neg hdiscards]
    by_cases hstarts : c.Starts config
    · have hstep : c.step config policy s =
          { target := max config.fleet.bootstrapWorkers 1, state := {}, reason := .bootstrapForEvidence } :=
        (if_neg hdiscards).trans (if_pos ⟨hstarts.1.1, hstarts.1.2.1, hstarts.1.2.2, hstarts.2⟩)
      rw [hstep, if_pos hstarts]
    · rw [if_neg hstarts]
      cases hsample : c.sample config policy s with
      | some sample =>
        rw [step_of_sample hsample]
        dsimp only
        unfold SaturationContext.sampleStep
        dsimp only
        cases hpending : s.pending with
        | some probe =>
          refine SaturationContext.pendingStep_target rfl ?_
          intro hcount
          unfold held
          rw [hpending]
          show min probe.toWorkers (c.context config policy).current = probe.toWorkers
          rw [hcount, min_self]
        | none => exact SaturationContext.searchStep_target rfl
      | none =>
        rcases c.step_cases config policy s with ⟨-, hunread⟩ | ⟨sample, step, hsome, -⟩
        · generalize c.step config policy s = step at hunread
          cases hunread with
          | discarded => rfl
          | started hopen => exact absurd hopen hstarts
          | kept => rfl
        · rw [hsample] at hsome
          cases hsome

end SaturationCycle

/-! ## The hold -/

variable {name : String} {config : AccountConfig F} {policy : ZaiSaturationConfig F} {snapshot : QuotaSnapshot F}
  {prior : AccountState F} {owned unowned : Nat} {now : DateTime}

/-- Some window's reason is a quota bound, not a learning hold. -/
def QuotaBinds (d : Decision F) : Prop := ∃ w ∈ d.windows, isLearningHold w.reason = false

/-- What the experiments ask for at the decision's snapshot, within the backlog, the fleet and the step limits. -/
def experimentTarget (d : Decision F) (config : AccountConfig F) (policy : ZaiSaturationConfig F)
    (snapshot : QuotaSnapshot F) (prior : AccountState F) (now : DateTime) : Nat :=
  min (boundTarget
    (SaturationCycle.asks ⟨d, snapshot, prior, now⟩ config policy (prior.zaiSaturation.getD {})) d.currentWorkers
    (snapshot.eligibleBacklogCapacity.getD d.currentWorkers) config.fleet) config.fleet.maxWorkers

/-- The count is no higher after the experiments, nor after the brake that follows them. -/
def StaysWithin (d : Decision F) (config : AccountConfig F) (policy : ZaiSaturationConfig F)
    (snapshot : QuotaSnapshot F) (prior : AccountState F) (now : DateTime) : Prop :=
  (applyZaiSaturation d config policy snapshot prior now).1.desiredWorkers ≤ d.desiredWorkers ∧
    (applyPolicies d config snapshot prior now).decision.desiredWorkers ≤ d.desiredWorkers

theorem applyPolicies_le_saturation (d : Decision F) (hpolicy : config.utilization.zaiSaturation = some policy) :
    (applyPolicies d config snapshot prior now).decision.desiredWorkers ≤
      (applyZaiSaturation d config policy snapshot prior now).1.desiredWorkers := by
  unfold applyPolicies
  rw [hpolicy]
  cases config.utilization.backpressure with
  | none => exact Nat.le_refl _
  | some brake =>
    refine (withTotal_desiredWorkers _).trans_le ?_
    exact Nat.min_le_left _ _

/-- The experiments stay within the evaluation exactly where it is their cap, or they ask for no more. -/
theorem applyZaiSaturation_le_iff {d : Decision F} (hfresh : d.stale = false) :
    (applyZaiSaturation d config policy snapshot prior now).1.desiredWorkers ≤ d.desiredWorkers ↔
      QuotaBinds d ∨ experimentTarget d config policy snapshot prior now ≤ d.desiredWorkers := by
  let c : SaturationCycle F := ⟨d, snapshot, prior, now⟩
  have hdesired : (applyZaiSaturation d config policy snapshot prior now).1.desiredWorkers =
      min (boundTarget (c.asks config policy (prior.zaiSaturation.getD {})) d.currentWorkers
        (snapshot.eligibleBacklogCapacity.getD d.currentWorkers) config.fleet) (quotaCap d config) := by
    rw [← SaturationCycle.step_target]
    exact c.apply_desired config policy (prior.zaiSaturation.getD {})
  rw [hdesired]
  by_cases hlearning : d.windows.all (fun w => isLearningHold w.reason) = true
  · have hcap : quotaCap d config = config.fleet.maxWorkers := by
      unfold quotaCap
      rw [hfresh, hlearning]
      rfl
    have hno : ¬ QuotaBinds d := by
      rintro ⟨w, hw, hbinds⟩
      rw [List.all_eq_true.1 hlearning w hw] at hbinds
      cases hbinds
    rw [hcap]
    exact (or_iff_right hno).symm
  · have hcap : quotaCap d config = d.desiredWorkers := by
      unfold quotaCap
      rw [Bool.not_eq_true] at hlearning
      rw [hlearning, Bool.and_false]
      rfl
    have hbinds : QuotaBinds d := by
      simpa [QuotaBinds] using hlearning
    rw [hcap]
    exact iff_of_true (Nat.min_le_right _ _) (Or.inl hbinds)

/-- **A redemption hold survives the later stages** where some window binds the quota by itself. -/
theorem redemption_hold_kept_of_quotaBinds (hpolicy : config.utilization.zaiSaturation = some policy)
    (hfresh : isStale config snapshot now = false) {d : Decision F}
    (h : evaluatePool name config snapshot prior owned unowned now = .ok d) :
    d.awaitsRedemption = true → QuotaBinds d → StaysWithin d config policy snapshot prior now := by
  intro _ hbinds
  have hle : (applyZaiSaturation d config policy snapshot prior now).1.desiredWorkers ≤ d.desiredWorkers :=
    (applyZaiSaturation_le_iff ((evaluatePool_stale_eq h).trans hfresh)).2 (Or.inl hbinds)
  exact ⟨hle, Nat.le_trans (applyPolicies_le_saturation d hpolicy) hle⟩

/-! ### A hold after a lower reading -/

def heldAccount : AccountConfig F64 :=
  { pacedAccount with utilization := { pacedUtilization with zaiSaturation := some experimentPolicy } }

theorem heldAccount_valid : heldAccount.validate "codex" = .ok () := by decide +kernel

/-- The week has been used up, and reads half used now. -/
def weekUsedUp : AccountState F64 :=
  { history := (∅ : BTreeMap (WindowHistory F64)).insert "week"
      { resetsAt := hours 80, samples := [], maxUsedFraction := Flt.ofNat 1 } }

/-- The evaluation of four owned workers. -/
def heldDecision (window : QuotaWindow F64) (prior : AccountState F64) : Decision F64 :=
  freshDecision "codex" heldAccount (pacedSnapshot [window] 20) prior 4 (hours 1)
    (windowDecisions heldAccount (pacedSnapshot [window] 20) prior 4 (hours 1))

theorem heldDecision_evaluated {window : QuotaWindow F64} (hwindow : window = week ∨ window = weekUsed)
    (prior : AccountState F64) :
    isStale heldAccount (pacedSnapshot [window] 20) (hours 1) = false ∧
      evaluatePool "codex" heldAccount (pacedSnapshot [window] 20) prior 4 0 (hours 1) =
        .ok (heldDecision window prior) := by
  have howned : ∀ snapshot, evaluatePool "codex" heldAccount snapshot prior 4 0 (hours 1) =
      evaluate "codex" heldAccount snapshot prior 4 (hours 1) := fun _ => if_pos rfl
  rw [howned]
  rcases hwindow with rfl | rfl
  · exact ⟨by decide +kernel, evaluate_fresh (by decide +kernel) rfl⟩
  · exact ⟨by decide +kernel, evaluate_fresh (by decide +kernel) rfl⟩

/-- The hold takes the fleet from four workers to three, and the experiments, which have no sample, back to four. -/
theorem redemption_hold_undone :
    ¬ ∀ (name : String) (config : AccountConfig F64) (policy : ZaiSaturationConfig F64) (snapshot : QuotaSnapshot F64)
      (prior : AccountState F64) (owned unowned : Nat) (now : DateTime) (d : Decision F64),
      config.validate name = .ok () → config.bankedResets.enabled = true →
      config.utilization.zaiSaturation = some policy → isStale config snapshot now = false →
      evaluatePool name config snapshot prior owned unowned now = .ok d → d.awaitsRedemption = true →
      StaysWithin d config policy snapshot prior now := by
  intro hall
  obtain ⟨hfresh, hevaluated⟩ := heldDecision_evaluated (Or.inl rfl) weekUsedUp
  have hstays := hall "codex" heldAccount experimentPolicy (pacedSnapshot [week] 20) weekUsedUp 4 0 (hours 1)
    (heldDecision week weekUsedUp) heldAccount_valid rfl rfl hfresh hevaluated (by decide +kernel)
  have hraised : (heldDecision week weekUsedUp).desiredWorkers < (applyZaiSaturation (heldDecision week weekUsedUp)
      heldAccount experimentPolicy (pacedSnapshot [week] 20) weekUsedUp (hours 1)).1.desiredWorkers := by
    decide +kernel
  exact absurd hstays.1 (Nat.not_le.2 hraised)

/-- A week at its target binds the quota by itself. -/
theorem redemption_hold_kept_week :
    StaysWithin (heldDecision weekUsed {}) heldAccount experimentPolicy (pacedSnapshot [weekUsed] 20) {} (hours 1) := by
  obtain ⟨hfresh, hevaluated⟩ := heldDecision_evaluated (Or.inr rfl) {}
  have hbinds : QuotaBinds (heldDecision weekUsed {}) := by
    have hany : (heldDecision weekUsed {}).windows.any (fun w => !isLearningHold w.reason) = true := by
      decide +kernel
    obtain ⟨w, hw, hreason⟩ := List.any_eq_true.1 hany
    exact ⟨w, hw, Bool.not_eq_true' _ ▸ hreason⟩
  exact redemption_hold_kept_of_quotaBinds rfl hfresh hevaluated (by decide +kernel) hbinds

end Subgov
