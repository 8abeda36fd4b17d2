import Mathlib.Data.List.Induction
import Subgov.Controller
/-!
# Backpressure — the brake over a whole run

A run of `applyBackpressure` starts from the default state.  `backpressure_law` says of every call of it when the mode
may change, what the quiet count stands for, and how far the target is lowered.
-/
namespace Subgov

open FloatArith

variable {F : Type} [Flt F]

def BackpressureMode.severity : BackpressureMode → Nat
  | .normal => 0
  | .hold => 1
  | .stepDown => 2

/-- The arguments of a call that change from cycle to cycle. -/
structure BackpressureCycle (F : Type) where
  decision : Decision F
  snapshot : QuotaSnapshot F
  minWorkers : Nat
  now : DateTime

namespace BackpressureCycle

variable (c : BackpressureCycle F)

def apply (policy : BackpressureConfig F) (prior : BackpressureState) : Decision F × BackpressureState :=
  applyBackpressure c.decision policy prior c.snapshot c.minWorkers c.now

/-- The fraction of a fresh decision's snapshot. -/
def usableFraction : Option F := if c.decision.stale then none else c.snapshot.backpressure.bind (·.upstream429Fraction)

def released (policy : BackpressureConfig F) (prior : BackpressureState) : Bool :=
  (c.apply policy prior).1.backpressure.any (·.releasedOnSignalLoss)

variable {c} {policy : BackpressureConfig F} {prior : BackpressureState}

/-- **What a call does to the state**: a usable fraction moves the machine, and a lost signal releases it. -/
theorem apply_cases (c : BackpressureCycle F) (policy : BackpressureConfig F) (prior : BackpressureState) :
    (∃ fraction, c.usableFraction = some fraction ∧ c.released policy prior = false ∧
      (c.apply policy prior).2 =
        backpressureNext policy { prior with lastUsableSampleAt := some c.snapshot.observedAt } fraction) ∨
    (c.usableFraction = none ∧ c.released policy prior = true ∧ prior.mode ≠ .normal ∧
      signalLost policy prior c.now = true ∧ (c.apply policy prior).2 = {}) ∨
    (c.usableFraction = none ∧ c.released policy prior = false ∧ (c.apply policy prior).2 = prior) := by
  unfold released apply applyBackpressure
  cases husable : c.usableFraction with
  | some fraction =>
    unfold usableFraction at husable
    simp [husable]
  | none =>
    unfold usableFraction at husable
    by_cases hlost : prior.mode ≠ .normal ∧ signalLost policy prior c.now = true
    · simp [husable, hlost.1, hlost.2]
    · have hkept : (prior.mode != .normal && signalLost policy prior c.now) = false := by
        simpa using hlost
      simp [husable, hkept]

end BackpressureCycle

/-- **What a usable fraction does**: the quiet count starts again in a mode no milder, grows, or pays for a milder one. -/
theorem backpressureNext_cases (policy : BackpressureConfig F) (state : BackpressureState) (fraction : F) :
    (backpressureNext policy state fraction).lastUsableSampleAt = state.lastUsableSampleAt ∧
    (((backpressureNext policy state fraction).quietCycles = 0 ∧
        state.mode.severity ≤ (backpressureNext policy state fraction).mode.severity ∧
        (backpressureNext policy state fraction).mode.severity ≤ state.mode.severity + 1) ∨
      (fraction < policy.recoverBelow ∧ state.mode ≠ .normal ∧
        (backpressureNext policy state fraction).mode = state.mode ∧
        (backpressureNext policy state fraction).quietCycles = satAdd state.quietCycles 1 ∧
        satAdd state.quietCycles 1 < policy.quietCycles) ∨
      (fraction < policy.recoverBelow ∧ policy.quietCycles ≤ satAdd state.quietCycles 1 ∧
        (backpressureNext policy state fraction).quietCycles = 0 ∧
        (backpressureNext policy state fraction).mode.severity + 1 = state.mode.severity)) := by
  obtain ⟨mode, quietCycles, last⟩ := state
  unfold backpressureNext
  cases mode with
  | normal =>
    by_cases hhold : policy.holdAbove < fraction
    · simp [hhold, BackpressureMode.severity]
    · simp [hhold, BackpressureMode.severity]
  | hold =>
    by_cases hstep : policy.stepDownAbove < fraction
    · simp [hstep, BackpressureMode.severity]
    · by_cases hquiet : fraction < policy.recoverBelow
      · by_cases hpaid : policy.quietCycles ≤ satAdd quietCycles 1
        · simp [hstep, hquiet, hpaid, BackpressureMode.severity]
        · simp [hstep, hquiet, hpaid, Nat.lt_of_not_le hpaid]
      · simp [hstep, hquiet]
  | stepDown =>
    by_cases hquiet : fraction < policy.recoverBelow
    · by_cases hpaid : policy.quietCycles ≤ satAdd quietCycles 1
      · simp [hquiet, hpaid, BackpressureMode.severity]
      · simp [hquiet, hpaid, Nat.lt_of_not_le hpaid]
    · simp [hquiet]

/-! ## Runs -/

section Runs

variable (policy : BackpressureConfig F)

def backpressureAfter (cycles : List (BackpressureCycle F)) : BackpressureState :=
  cycles.foldl (fun state c => (c.apply policy state).2) {}

@[simp] theorem backpressureAfter_nil : backpressureAfter policy [] = {} := rfl

theorem backpressureAfter_concat (cycles : List (BackpressureCycle F)) (c : BackpressureCycle F) :
    backpressureAfter policy (cycles ++ [c]) = (c.apply policy (backpressureAfter policy cycles)).2 := by
  unfold backpressureAfter
  rw [List.foldl_append, List.foldl_cons, List.foldl_nil]

/-- The instant of the last usable sample of a run. -/
def lastUsableAt (cycles : List (BackpressureCycle F)) : Option DateTime :=
  (cycles.filter (fun c => c.usableFraction.isSome)).getLast?.map (·.snapshot.observedAt)

omit [Flt F] in
theorem lastUsableAt_concat (cycles : List (BackpressureCycle F)) (c : BackpressureCycle F) :
    lastUsableAt (cycles ++ [c]) =
      if c.usableFraction.isSome then some c.snapshot.observedAt else lastUsableAt cycles := by
  unfold lastUsableAt
  cases husable : c.usableFraction with
  | none => simp [husable]
  | some fraction => simp [husable]

/-- The cycles of `stay` all find the run in one mode, and it is still there after them. -/
def Stays (entry stay : List (BackpressureCycle F)) : Prop :=
  ∀ before after, stay = before ++ after →
    (backpressureAfter policy (entry ++ before)).mode = (backpressureAfter policy (entry ++ stay)).mode

variable {policy}

theorem Stays.concat {entry stay : List (BackpressureCycle F)} {c : BackpressureCycle F}
    (h : Stays policy entry stay)
    (hmode : (backpressureAfter policy (entry ++ stay ++ [c])).mode = (backpressureAfter policy (entry ++ stay)).mode) :
    Stays policy entry (stay ++ [c]) := by
  intro before after hsplit
  rw [← List.append_assoc, hmode]
  rcases List.eq_nil_or_concat after with rfl | ⟨after, last, rfl⟩
  · rw [List.append_nil] at hsplit
    rw [← hsplit, ← List.append_assoc, hmode]
  · rw [List.concat_eq_append, ← List.append_assoc] at hsplit
    exact h before after (List.append_inj_left' hsplit rfl)

/-- A suffix of the run that found one mode throughout, and whose usable samples were all quiet. -/
structure QuietStay (policy : BackpressureConfig F) (cycles entry stay : List (BackpressureCycle F)) : Prop where
  split : cycles = entry ++ stay
  stays : Stays policy entry stay
  quiet : ∀ fraction ∈ stay.filterMap (·.usableFraction), fraction < policy.recoverBelow

/-- What every state of a run is worth. -/
structure Braked (policy : BackpressureConfig F) (cycles : List (BackpressureCycle F)) : Prop where
  bounded : (backpressureAfter policy cycles).quietCycles < policy.quietCycles
  normal : (backpressureAfter policy cycles).mode = .normal → (backpressureAfter policy cycles).quietCycles = 0
  counted : ∃ entry stay, QuietStay policy cycles entry stay ∧
    (backpressureAfter policy cycles).quietCycles ≤ (stay.filterMap (·.usableFraction)).length
  sampled : (backpressureAfter policy cycles).mode ≠ .normal →
    (backpressureAfter policy cycles).lastUsableSampleAt = lastUsableAt cycles
  heard : (backpressureAfter policy cycles).mode ≠ .normal → (lastUsableAt cycles).isSome = true

theorem QuietStay.empty (cycles : List (BackpressureCycle F)) : QuietStay policy cycles cycles [] where
  split := (List.append_nil _).symm
  stays before after hsplit := by
    rw [(List.append_eq_nil_iff.1 hsplit.symm).1]
  quiet _ hmem := nomatch hmem

theorem QuietStay.concat {cycles entry stay : List (BackpressureCycle F)} {c : BackpressureCycle F}
    (h : QuietStay policy cycles entry stay)
    (hmode : (backpressureAfter policy (cycles ++ [c])).mode = (backpressureAfter policy cycles).mode)
    (hquiet : ∀ fraction, c.usableFraction = some fraction → fraction < policy.recoverBelow) :
    QuietStay policy (cycles ++ [c]) entry (stay ++ [c]) := by
  obtain ⟨rfl, hstays, hall⟩ := h
  refine ⟨List.append_assoc _ _ _, hstays.concat hmode, ?_⟩
  intro fraction hmem
  rw [List.filterMap_append, List.mem_append] at hmem
  rcases hmem with hmem | hmem
  · exact hall fraction hmem
  · obtain ⟨c', hc', husable⟩ := List.mem_filterMap.1 hmem
    rw [List.mem_singleton.1 hc'] at husable
    exact hquiet fraction husable

/-- A quiet count of zero stands for an empty stay. -/
theorem Braked.of_zero {cycles : List (BackpressureCycle F)} (hpolicy : 0 < policy.quietCycles)
    (hzero : (backpressureAfter policy cycles).quietCycles = 0)
    (hsampled : (backpressureAfter policy cycles).mode ≠ .normal →
      (backpressureAfter policy cycles).lastUsableSampleAt = lastUsableAt cycles)
    (hheard : (backpressureAfter policy cycles).mode ≠ .normal → (lastUsableAt cycles).isSome = true) :
    Braked policy cycles where
  bounded := by
    rw [hzero]
    exact hpolicy
  normal _ := hzero
  counted := ⟨cycles, [], QuietStay.empty cycles, by rw [hzero]; exact Nat.zero_le _⟩
  sampled := hsampled
  heard := hheard

theorem braked_nil (hpolicy : 0 < policy.quietCycles) : Braked policy ([] : List (BackpressureCycle F)) :=
  Braked.of_zero hpolicy rfl (absurd rfl) (absurd rfl)

theorem Braked.concat {cycles : List (BackpressureCycle F)} (h : Braked policy cycles) (c : BackpressureCycle F) :
    Braked policy (cycles ++ [c]) := by
  have hpositive : 0 < policy.quietCycles := Nat.lt_of_le_of_lt (Nat.zero_le _) h.bounded
  obtain ⟨entry, stay, hstay, hcount⟩ := h.counted
  rcases c.apply_cases policy (backpressureAfter policy cycles) with
    ⟨fraction, husable, -, hnext⟩ | ⟨husable, -, -, -, hnext⟩ | ⟨husable, -, hnext⟩
  · rw [← backpressureAfter_concat] at hnext
    obtain ⟨hlast, hcases⟩ := backpressureNext_cases policy
      { backpressureAfter policy cycles with lastUsableSampleAt := some c.snapshot.observedAt } fraction
    rw [← hnext] at hlast hcases
    have hsampled : (backpressureAfter policy (cycles ++ [c])).lastUsableSampleAt = lastUsableAt (cycles ++ [c]) := by
      rw [hlast, lastUsableAt_concat, husable, Option.isSome_some, if_pos rfl]
    have hheard : (lastUsableAt (cycles ++ [c])).isSome = true := by
      rw [← hsampled, hlast]
      rfl
    rcases hcases with ⟨hzero, -, -⟩ | ⟨hquiet, hnormal, hmode, hgrown, hbelow⟩ | ⟨-, -, hzero, -⟩
    · exact Braked.of_zero hpositive hzero (fun _ => hsampled) fun _ => hheard
    · refine ⟨?_, fun heq => absurd (hmode ▸ heq) hnormal, ⟨entry, stay ++ [c], hstay.concat hmode ?_, ?_⟩,
        fun _ => hsampled, fun _ => hheard⟩
      · rw [hgrown]
        exact hbelow
      · intro fraction' heq
        rw [husable, Option.some.injEq] at heq
        rw [← heq]
        exact hquiet
      · have hone : ([c].filterMap (·.usableFraction)).length = 1 := by simp [husable]
        rw [hgrown, List.filterMap_append, List.length_append, hone]
        exact Nat.le_trans (satAdd_le _ _) (Nat.add_le_add_right hcount 1)
    · exact Braked.of_zero hpositive hzero (fun _ => hsampled) fun _ => hheard
  · rw [← backpressureAfter_concat] at hnext
    have hmode : (backpressureAfter policy (cycles ++ [c])).mode = .normal := by rw [hnext]
    exact Braked.of_zero hpositive (by rw [hnext]) (absurd hmode) (absurd hmode)
  · rw [← backpressureAfter_concat] at hnext
    have hunheard : lastUsableAt (cycles ++ [c]) = lastUsableAt cycles := by
      rw [lastUsableAt_concat, husable, Option.isSome_none, if_neg Bool.false_ne_true]
    refine ⟨?_, ?_, ⟨entry, stay ++ [c], hstay.concat (by rw [hnext]) ?_, ?_⟩, ?_, ?_⟩
    · rw [hnext]
      exact h.bounded
    · rw [hnext]
      exact h.normal
    · intro fraction heq
      rw [husable] at heq
      cases heq
    · rw [hnext, List.filterMap_append, List.length_append]
      exact Nat.le_trans hcount (Nat.le_add_right _ _)
    · rw [hnext, hunheard]
      exact h.sampled
    · rw [hnext, hunheard]
      exact h.heard

theorem braked_run (hpolicy : 0 < policy.quietCycles) (cycles : List (BackpressureCycle F)) : Braked policy cycles := by
  induction cycles using List.reverseRecOn with
  | nil => exact braked_nil hpolicy
  | append_singleton cycles c ih => exact ih.concat c

section Call

variable {cycles : List (BackpressureCycle F)} {c : BackpressureCycle F}

theorem after_unreleased (h : c.released policy (backpressureAfter policy cycles) = false) :
    (∃ fraction, c.usableFraction = some fraction ∧ backpressureAfter policy (cycles ++ [c]) = backpressureNext policy
      { backpressureAfter policy cycles with lastUsableSampleAt := some c.snapshot.observedAt } fraction) ∨
    (c.usableFraction = none ∧ backpressureAfter policy (cycles ++ [c]) = backpressureAfter policy cycles) := by
  rw [backpressureAfter_concat]
  rcases c.apply_cases policy (backpressureAfter policy cycles) with
    ⟨fraction, husable, -, hnext⟩ | ⟨-, hreleased, -⟩ | ⟨husable, -, hnext⟩
  · exact Or.inl ⟨fraction, husable, hnext⟩
  · cases h.symm.trans hreleased
  · exact Or.inr ⟨husable, hnext⟩

theorem after_released (h : c.released policy (backpressureAfter policy cycles) = true) :
    c.usableFraction = none ∧ (backpressureAfter policy cycles).mode ≠ .normal ∧
      signalLost policy (backpressureAfter policy cycles) c.now = true ∧ backpressureAfter policy (cycles ++ [c]) = {} := by
  rw [backpressureAfter_concat]
  rcases c.apply_cases policy (backpressureAfter policy cycles) with
    ⟨-, -, hunreleased, -⟩ | ⟨husable, -, hmode, hlost, hnext⟩ | ⟨-, hunreleased, -⟩
  · cases h.symm.trans hunreleased
  · exact ⟨husable, hmode, hlost, hnext⟩
  · cases h.symm.trans hunreleased

theorem after_oneLevel (h : c.released policy (backpressureAfter policy cycles) = false) :
    (backpressureAfter policy (cycles ++ [c])).mode.severity ≤ (backpressureAfter policy cycles).mode.severity + 1 ∧
      (backpressureAfter policy cycles).mode.severity ≤
        (backpressureAfter policy (cycles ++ [c])).mode.severity + 1 := by
  rcases after_unreleased h with ⟨fraction, -, hnext⟩ | ⟨-, hnext⟩
  · rw [hnext]
    obtain ⟨-, hmoved⟩ := backpressureNext_cases policy
      { backpressureAfter policy cycles with lastUsableSampleAt := some c.snapshot.observedAt } fraction
    rcases hmoved with ⟨-, hle, hge⟩ | ⟨-, -, hmode, -⟩ | ⟨-, -, -, hmilder⟩
    · exact ⟨hge, Nat.le_succ_of_le hle⟩
    · rw [hmode]
      exact ⟨Nat.le_succ _, Nat.le_succ _⟩
    · dsimp only at hmilder ⊢
      omega
  · rw [hnext]
    exact ⟨Nat.le_succ _, Nat.le_succ _⟩

/-- **A milder mode is paid for** by the quiet samples of the stay it ends. -/
theorem Braked.recovers (hbraked : Braked policy cycles)
    (h : c.released policy (backpressureAfter policy cycles) = false)
    (hmilder : (backpressureAfter policy (cycles ++ [c])).mode.severity <
      (backpressureAfter policy cycles).mode.severity) :
    ∃ entry stay, cycles = entry ++ stay ∧ Stays policy entry stay ∧
      policy.quietCycles ≤ ((stay ++ [c]).filterMap (·.usableFraction)).length ∧
      ∀ fraction ∈ (stay ++ [c]).filterMap (·.usableFraction), fraction < policy.recoverBelow := by
  rcases after_unreleased h with ⟨fraction, husable, hnext⟩ | ⟨-, hnext⟩
  · rw [hnext] at hmilder
    obtain ⟨-, hmoved⟩ := backpressureNext_cases policy
      { backpressureAfter policy cycles with lastUsableSampleAt := some c.snapshot.observedAt } fraction
    rcases hmoved with ⟨-, hle, -⟩ | ⟨-, -, hmode, -⟩ | ⟨hquiet, hpaid, -, -⟩
    · exact absurd hmilder (Nat.not_lt.2 hle)
    · rw [hmode] at hmilder
      exact absurd hmilder (Nat.lt_irrefl _)
    · obtain ⟨entry, stay, hstay, hcount⟩ := hbraked.counted
      have hone : [c].filterMap (·.usableFraction) = [fraction] := by simp [husable]
      refine ⟨entry, stay, hstay.split, hstay.stays, ?_, ?_⟩
      · rw [List.filterMap_append, List.length_append, hone]
        exact Nat.le_trans hpaid (Nat.le_trans (satAdd_le _ _) (Nat.add_le_add_right hcount 1))
      · intro fraction' hmem
        rw [List.filterMap_append, hone, List.mem_append, List.mem_singleton] at hmem
        rcases hmem with hmem | rfl
        · exact hstay.quiet fraction' hmem
        · exact hquiet
  · rw [hnext] at hmilder
    exact absurd hmilder (Nat.lt_irrefl _)

end Call

end Runs

/-! ## The law of a run -/

/-- **The law of the brake**, for a run and the call after it. -/
structure BackpressureLaw (policy : BackpressureConfig F) (cycles : List (BackpressureCycle F))
    (c : BackpressureCycle F) : Prop where
  /-- One level at a time. -/
  oneLevel : c.released policy (backpressureAfter policy cycles) = false →
    (backpressureAfter policy (cycles ++ [c])).mode.severity ≤ (backpressureAfter policy cycles).mode.severity + 1 ∧
      (backpressureAfter policy cycles).mode.severity ≤ (backpressureAfter policy (cycles ++ [c])).mode.severity + 1
  /-- A milder mode is paid for by quiet samples, all of which found the machine in the mode it leaves. -/
  recovers : c.released policy (backpressureAfter policy cycles) = false →
    (backpressureAfter policy (cycles ++ [c])).mode.severity < (backpressureAfter policy cycles).mode.severity →
    ∃ entry stay, cycles = entry ++ stay ∧ Stays policy entry stay ∧
      policy.quietCycles ≤ ((stay ++ [c]).filterMap (·.usableFraction)).length ∧
      ∀ fraction ∈ (stay ++ [c]).filterMap (·.usableFraction), fraction < policy.recoverBelow
  /-- Without a usable sample only a release changes anything. -/
  unusable : c.usableFraction = none → c.released policy (backpressureAfter policy cycles) = false →
    backpressureAfter policy (cycles ++ [c]) = backpressureAfter policy cycles
  /-- A release leads to the default state, a long time after the last usable sample. -/
  releases : c.released policy (backpressureAfter policy cycles) = true →
    c.usableFraction = none ∧ (backpressureAfter policy cycles).mode ≠ .normal ∧
      backpressureAfter policy (cycles ++ [c]) = {} ∧
      ∃ last, lastUsableAt cycles = some last ∧ policy.signalLossReleaseSeconds ≤ ageSeconds (c.now - last)
  /-- The quiet count stays below what a milder mode costs, and there is none in the mildest. -/
  count : (backpressureAfter policy cycles).quietCycles < policy.quietCycles ∧
    ((backpressureAfter policy cycles).mode = .normal → (backpressureAfter policy cycles).quietCycles = 0)
  /-- The target is only lowered, to the cap of the mode and not under the floor. -/
  lowered : (c.apply policy (backpressureAfter policy cycles)).1.desiredWorkers ≤ c.decision.desiredWorkers ∧
    min c.decision.desiredWorkers c.minWorkers ≤ (c.apply policy (backpressureAfter policy cycles)).1.desiredWorkers
  hold : (backpressureAfter policy (cycles ++ [c])).mode = .hold →
    (c.apply policy (backpressureAfter policy cycles)).1.desiredWorkers ≤ max c.decision.currentWorkers c.minWorkers
  stepDown : (backpressureAfter policy (cycles ++ [c])).mode = .stepDown →
    (c.apply policy (backpressureAfter policy cycles)).1.desiredWorkers ≤
      max (c.decision.currentWorkers - 1) c.minWorkers
  /-- The total follows the target while other workers are observed. -/
  total : 0 < c.decision.unownedWorkers → (c.apply policy (backpressureAfter policy cycles)).1.desiredTotal =
    some (satAdd (c.apply policy (backpressureAfter policy cycles)).1.desiredWorkers c.decision.unownedWorkers)

theorem validateBackpressure_quietCycles {policy : BackpressureConfig F} {account : String}
    (h : validateBackpressure policy account = .ok ()) : 0 < policy.quietCycles := by
  simp only [validateBackpressure, andThen_ok, ensure_ok, bne_iff_ne] at h
  exact Nat.pos_of_ne_zero h.2.2.2.2.1

theorem apply_desired (c : BackpressureCycle F) (policy : BackpressureConfig F) (prior : BackpressureState) :
    (c.apply policy prior).1.desiredWorkers = min c.decision.desiredWorkers
      (backpressureCap (c.apply policy prior).2.mode c.decision.desiredWorkers c.decision.currentWorkers
        c.minWorkers) := by
  unfold BackpressureCycle.apply applyBackpressure
  exact withTotal_desiredWorkers _

theorem apply_total (c : BackpressureCycle F) (policy : BackpressureConfig F) (prior : BackpressureState)
    (h : 0 < c.decision.unownedWorkers) : (c.apply policy prior).1.desiredTotal =
      some (satAdd (c.apply policy prior).1.desiredWorkers c.decision.unownedWorkers) := by
  rw [apply_desired]
  unfold BackpressureCycle.apply applyBackpressure
  exact withTotal_desiredTotal h

theorem floor_le_cap (mode : BackpressureMode) (desired current minWorkers : Nat) :
    min desired minWorkers ≤ backpressureCap mode desired current minWorkers := by
  cases mode with
  | normal => exact Nat.min_le_left _ _
  | hold => exact Nat.le_trans (Nat.min_le_right _ _) (Nat.le_max_right _ _)
  | stepDown => exact Nat.le_trans (Nat.min_le_right _ _) (Nat.le_max_right _ _)

theorem backpressure_law (policy : BackpressureConfig F) (account : String)
    (hvalid : validateBackpressure policy account = .ok ()) (cycles : List (BackpressureCycle F))
    (c : BackpressureCycle F) : BackpressureLaw policy cycles c := by
  have hbraked : Braked policy cycles := braked_run (validateBackpressure_quietCycles hvalid) cycles
  have hcap := apply_desired c policy (backpressureAfter policy cycles)
  rw [← backpressureAfter_concat] at hcap
  constructor
  · exact after_oneLevel
  · exact hbraked.recovers
  · intro hunusable hunreleased
    rcases after_unreleased hunreleased with ⟨fraction, husable, -⟩ | ⟨-, hnext⟩
    · cases hunusable.symm.trans husable
    · exact hnext
  · intro hreleased
    obtain ⟨hunusable, hmode, hlost, hnext⟩ := after_released hreleased
    obtain ⟨last, hlast⟩ := Option.isSome_iff_exists.1 (hbraked.heard hmode)
    refine ⟨hunusable, hmode, hnext, last, hlast, ?_⟩
    unfold signalLost at hlost
    rw [hbraked.sampled hmode, hlast, Option.all_some, decide_eq_true_eq] at hlost
    exact hlost
  · exact ⟨hbraked.bounded, hbraked.normal⟩
  · rw [hcap]
    exact ⟨Nat.min_le_left _ _, Nat.le_min.2 ⟨Nat.min_le_left _ _, floor_le_cap _ _ _ _⟩⟩
  · intro hmode
    rw [hcap, hmode]
    exact Nat.min_le_right _ _
  · intro hmode
    rw [hcap, hmode]
    exact Nat.min_le_right _ _
  · exact apply_total c policy _

/-! ### One brake and its release -/

def defaultBackpressure : BackpressureConfig F64 where
  holdAbove := Flt.ofRat (1 / 5)
  stepDownAbove := Flt.ofRat (1 / 2)
  recoverBelow := Flt.ofRat (1 / 10)
  quietCycles := 3
  signalLossReleaseSeconds := 1800

/-- Five workers are wanted of four, with this fraction of the requests refused. -/
def pressed (refused : F64) (now : DateTime) : BackpressureCycle F64 where
  decision := { account := "zai", observedAt := now, currentWorkers := 4, desiredWorkers := 5, stale := false }
  snapshot :=
    { observedAt := now, fresh := true, windows := [], eligibleBacklogCapacity := none, resetCredits := none,
      backpressure := some { upstream429Fraction := some refused, attempts := 100, windowSeconds := 300 },
      saturation := none }
  minWorkers := 0
  now

def quietRun : List (BackpressureCycle F64) :=
  [pressed (Flt.ofRat (3 / 10)) 0, pressed Flt.zero (hours 1), pressed Flt.zero (hours 2)]

theorem backpressure_law_default :
    BackpressureLaw defaultBackpressure quietRun (pressed Flt.zero (hours 3)) ∧
      (backpressureAfter defaultBackpressure quietRun).mode = .hold ∧
      (backpressureAfter defaultBackpressure (quietRun ++ [pressed Flt.zero (hours 3)])).mode = .normal :=
  ⟨backpressure_law defaultBackpressure "zai" (by decide +kernel) quietRun _, by decide +kernel, by decide +kernel⟩

end Subgov
