import Subgov.SaturationRun
/-!
# ShrinkSearch — the reference rate of a downward search

While `shrinking` stays true the plateau rate is what the search began with, so that successive shrinks are judged
against one rate.  `reference_kept_iff` says over whole runs that only a new baseline can break this.
-/
namespace Subgov

open FloatArith Trace

variable {F : Type} [Flt F] {config : AccountConfig F} {policy : ZaiSaturationConfig F}

/-! ## The search and its reference -/

section Search

variable (config : AccountConfig F) (policy : ZaiSaturationConfig F)

/-- Useful growth, also where a cancellation hides the reason. -/
def SaturationCycle.grows (c : SaturationCycle F) (s : SaturationState F) : Bool :=
  (c.step config policy s).reason == .growthImprovedThroughput

/-- The plateau rate that the search under way began with, after a cycle: useful growth begins another. -/
def noteReference (s : SaturationState F) (c : SaturationCycle F) (reference : Option F) : Option F :=
  if (c.apply config policy s).2.shrinking = false then none
  else if s.shrinking = true ∧ c.grows config policy s = false then reference
  else (c.apply config policy s).2.plateauRate

/-- A cycle of a run, which remembers the rate that the search under way began with. -/
def nextSearch : SaturationState F × Option F → SaturationCycle F → Option (SaturationState F × Option F) :=
  noting (fun s c => (c.apply config policy s).2) (noteReference config policy)

/-- **The plateau rate is the one the search began with**, and a shrink is accepted against no other. -/
structure KeepsReference (σ : SaturationState F × Option F) (c : SaturationCycle F) : Prop where
  plateau : (c.apply config policy σ.1).2.shrinking = true →
    ∃ rate, noteReference config policy σ.1 c σ.2 = some rate ∧ (c.apply config policy σ.1).2.plateauRate = some rate
  shrink : (c.step config policy σ.1).reason = .shrinkRetainedThroughput →
    ∃ rate measured, noteReference config policy σ.1 c σ.2 = some rate ∧
      (c.step config policy σ.1).rate = some measured ∧ rate * (Flt.ofNat 1 - policy.plateauFraction) ≤ measured

theorem keepsReference_iff_isSome (σ : SaturationState F × Option F) (c : SaturationCycle F) :
    KeepsReference config policy σ c ↔
      ((c.apply config policy σ.1).2.shrinking = true →
        (noteReference config policy σ.1 c σ.2).isSome = true ∧
          (c.apply config policy σ.1).2.plateauRate = noteReference config policy σ.1 c σ.2) ∧
      ((c.step config policy σ.1).reason = .shrinkRetainedThroughput →
        (noteReference config policy σ.1 c σ.2).any (fun rate => (c.step config policy σ.1).rate.any (fun measured =>
          decide (rate * (Flt.ofNat 1 - policy.plateauFraction) ≤ measured))) = true) := by
  constructor
  · intro h
    refine ⟨fun hshrinking => ?_, fun hreason => ?_⟩
    · obtain ⟨rate, hrate, hplateau⟩ := h.plateau hshrinking
      exact ⟨by rw [hrate]; rfl, hplateau.trans hrate.symm⟩
    · simpa [Option.any_eq_true, and_assoc] using h.shrink hreason
  · rintro ⟨hplateau, hshrink⟩
    refine ⟨fun hshrinking => ?_, fun hreason => ?_⟩
    · obtain ⟨rate, hrate⟩ := Option.isSome_iff_exists.1 (hplateau hshrinking).1
      exact ⟨rate, hrate, (hplateau hshrinking).2.trans hrate⟩
    · simpa [Option.any_eq_true, and_assoc] using hshrink hreason

instance [DecidableEq F] (σ : SaturationState F × Option F) (c : SaturationCycle F) :
    Decidable (KeepsReference config policy σ c) :=
  decidable_of_iff _ (keepsReference_iff_isSome config policy σ c).symm

/-- A search without a probe takes a new baseline at another rate: its count changed, or its baseline was cancelled. -/
structure Rebases (s : SaturationState F) (c : SaturationCycle F) : Prop where
  shrinking : s.shrinking = true
  pending : s.pending = none
  lost : s.observedWorkers ≠ some c.decision.currentWorkers ∨ s.baselineRate.isNone = true
  rate : ∃ sample, c.sample config policy s = some sample ∧ s.plateauRate ≠ some sample.measured

end Search

/-- A probe and a downward search have a plateau rate. -/
def HasPlateau (s : SaturationState F) : Prop :=
  s.pending.isSome = true ∨ s.shrinking = true → s.plateauRate.isSome = true

/-! ## One cycle -/

namespace SaturationContext.Outcome

variable {ctx : SaturationContext F} {s : SaturationState F} {held : Nat} {start : Option DateTime} {measured : F}
  {step : SaturationStep F}

theorem hasPlateau (h : ctx.Outcome s held start measured step) (hs : HasPlateau s) : HasPlateau step.state := by
  cases h with
  | waiting hpending => exact hs
  | changed => exact fun h => by simp at h
  | settling => exact hs
  | dwelling => exact hs
  | recovered hjudges =>
    intro _
    dsimp only
    split
    · rename_i hshrinking
      exact hs (Or.inr hshrinking)
    · rfl
  | shrunk hjudges => exact fun _ => hs (Or.inl (by rw [hjudges.pending]; rfl))
  | grown => exact fun _ => rfl
  | restored hjudges => exact fun _ => hs (Or.inl (by rw [hjudges.pending]; rfl))
  | baseline => exact fun _ => rfl
  | resting => exact hs
  | probed =>
    intro _
    dsimp only
    split
    · rename_i hshrinking
      exact hs (Or.inr hshrinking)
    · rfl
  | blocked =>
    dsimp only
    split
    · exact fun h => hs (h.imp_right nofun)
    · exact hs

/-- **What a sample makes of the plateau rate**: nothing, or its own rate where growth, another search or a new baseline
calls for it. -/
theorem plateauRate (h : ctx.Outcome s held start measured step) :
    step.state = {} ∨ step.state.plateauRate = s.plateauRate ∨
    (step.state.plateauRate = some measured ∧ (step.reason = .growthImprovedThroughput ∨ s.shrinking = false ∨
      (s.pending = none ∧ (s.observedWorkers ≠ some ctx.current ∨ s.baselineRate.isNone = true)))) := by
  cases h with
  | changed => exact Or.inl rfl
  | recovered hjudges =>
    right
    dsimp only
    split
    · exact Or.inl rfl
    · rename_i hshrinking
      exact Or.inr ⟨rfl, Or.inr (Or.inl (Bool.not_eq_true _ ▸ hshrinking))⟩
  | grown => exact Or.inr (Or.inr ⟨rfl, Or.inl rfl⟩)
  | baseline hpending hlost => exact Or.inr (Or.inr ⟨rfl, Or.inr (Or.inr ⟨hpending, hlost⟩)⟩)
  | probed =>
    right
    dsimp only
    split
    · exact Or.inl rfl
    · rename_i hshrinking
      exact Or.inr ⟨rfl, Or.inr (Or.inl (Bool.not_eq_true _ ▸ hshrinking))⟩
  | blocked =>
    right
    left
    dsimp only
    split
    · rfl
    · rfl
  | _ => exact Or.inr (Or.inl rfl)

/-- An accepted shrink keeps the plateau rate, and was judged against it. -/
theorem of_shrunk (h : ctx.Outcome s held start measured step) (hreason : step.reason = .shrinkRetainedThroughput) :
    step.state.shrinking = true ∧ step.state.plateauRate = s.plateauRate ∧
      ∀ rate ∈ s.plateauRate, rate * (Flt.ofNat 1 - ctx.policy.plateauFraction) ≤ measured := by
  cases h with
  | shrunk hjudges hrecovery hsmaller hretained =>
    refine ⟨rfl, rfl, fun rate hrate => ?_⟩
    rw [Option.mem_def.1 hrate] at hretained
    exact hretained
  | probed =>
    dsimp only at hreason
    split at hreason
    · cases hreason
    · cases hreason
  | blocked _ _ hblocked =>
    rcases hblocked with rfl | rfl
    · cases hreason
    · cases hreason
  | _ => cases hreason

end SaturationContext.Outcome

namespace SaturationCycle

variable {c : SaturationCycle F} {s : SaturationState F}

theorem apply_plateauRate (c : SaturationCycle F) (config : AccountConfig F) (policy : ZaiSaturationConfig F)
    (s : SaturationState F) :
    (c.apply config policy s).2.plateauRate = (c.step config policy s).state.plateauRate := by
  rcases c.apply_state config policy s with h | h <;> rw [h]

theorem apply_shrinking (c : SaturationCycle F) (config : AccountConfig F) (policy : ZaiSaturationConfig F)
    (s : SaturationState F) :
    (c.apply config policy s).2.shrinking = (c.step config policy s).state.shrinking := by
  rcases c.apply_state config policy s with h | h <;> rw [h]

theorem apply_hasPlateau (hs : HasPlateau s) : HasPlateau (c.apply config policy s).2 := by
  have hstep : HasPlateau (c.step config policy s).state := by
    rcases c.step_cases config policy s with ⟨-, hunread⟩ | ⟨sample, step, -, hsampled, houtcome⟩
    · generalize c.step config policy s = step at hunread
      cases hunread with
      | discarded => exact fun h => by simp at h
      | started => exact fun h => by simp at h
      | kept => exact hs
    · rw [hsampled]
      exact houtcome.hasPlateau hs
  rcases c.apply_state config policy s with h | h
  · rw [h]
    exact hstep
  · rw [h]
    exact fun hshrinking => hstep (hshrinking.imp_left nofun)

/-- **A search that goes on keeps its plateau rate**, unless the cycle rebases it. -/
theorem plateauRate_kept (hnot : ¬ Rebases config policy s c) (hbefore : s.shrinking = true)
    (hafter : (c.apply config policy s).2.shrinking = true) (hgrows : c.grows config policy s = false) :
    (c.apply config policy s).2.plateauRate = s.plateauRate := by
  rw [apply_shrinking] at hafter
  rw [apply_plateauRate]
  unfold grows at hgrows
  rw [beq_eq_false_iff_ne] at hgrows
  rcases c.step_cases config policy s with ⟨-, hunread⟩ | ⟨sample, step, hsome, hsampled, houtcome⟩
  · generalize c.step config policy s = step at hunread hafter
    cases hunread with
    | discarded => cases hafter
    | started => cases hafter
    | kept => rfl
  · rw [hsampled] at hafter hgrows ⊢
    rcases houtcome.plateauRate with hdefault | hsame | ⟨hnew, hgrown | hnone | ⟨hpending, hlost⟩⟩
    · rw [show step.state.shrinking = false by rw [hdefault]] at hafter
      cases hafter
    · exact hsame
    · exact absurd hgrown hgrows
    · cases hbefore.symm.trans hnone
    · by_contra hmoved
      refine hnot ⟨hbefore, hpending, hlost, sample, hsome, fun hsame => hmoved ?_⟩
      exact hnew.trans hsame.symm

/-- A cycle that rebases leaves its own rate, in a search that goes on. -/
theorem of_rebases (h : Rebases config policy s c) :
    (c.apply config policy s).2.shrinking = true ∧ c.grows config policy s = false ∧
      (c.apply config policy s).2.plateauRate ≠ s.plateauRate := by
  obtain ⟨sample, hsome, hrate⟩ := h.rate
  rw [apply_shrinking, apply_plateauRate]
  unfold grows
  rcases c.step_cases config policy s with ⟨hnone, -⟩ | ⟨sample', step, hsome', hsampled, houtcome⟩
  · cases hnone.symm.trans hsome
  · rw [← Option.some.inj (hsome.symm.trans hsome')] at houtcome
    obtain ⟨-, hreason, hplateau, hshrinking⟩ := houtcome.of_lost h.pending h.lost
    rw [hsampled]
    refine ⟨hshrinking.trans h.shrinking, ?_, fun hsame => hrate (hsame.symm.trans hplateau)⟩
    show (step.reason == .growthImprovedThroughput) = false
    rw [hreason]
    rfl

/-- An accepted shrink goes on with the search, and measured enough of its plateau rate. -/
theorem of_shrunk (h : (c.step config policy s).reason = .shrinkRetainedThroughput) :
    (c.apply config policy s).2.shrinking = true ∧ (c.apply config policy s).2.plateauRate = s.plateauRate ∧
      ∃ measured, (c.step config policy s).rate = some measured ∧
        ∀ rate ∈ s.plateauRate, rate * (Flt.ofNat 1 - policy.plateauFraction) ≤ measured := by
  rw [apply_shrinking, apply_plateauRate]
  rcases c.step_cases config policy s with ⟨-, hunread⟩ | ⟨sample, step, -, hsampled, houtcome⟩
  · generalize c.step config policy s = step at hunread h
    cases hunread with
    | discarded hreason =>
      rcases hreason with rfl | rfl
      · cases h
      · cases h
    | started => cases h
    | kept hreason =>
      rcases hreason with rfl | rfl
      · cases h
      · cases h
  · rw [hsampled] at h ⊢
    obtain ⟨hshrinking, hplateau, hretained⟩ := houtcome.of_shrunk h
    exact ⟨hshrinking, hplateau, sample.measured, rfl, hretained⟩

end SaturationCycle

/-! ## Runs -/

/-- The state of a run that has kept its reference so far. -/
structure Kept (σ : SaturationState F × Option F) : Prop where
  hasPlateau : HasPlateau σ.1
  reference : σ.1.shrinking = true → σ.2 = σ.1.plateauRate

variable {σ : SaturationState F × Option F} {c : SaturationCycle F}

theorem noteReference_of_kept (hkept : Kept σ) (hnot : ¬ Rebases config policy σ.1 c)
    (hshrinking : (c.apply config policy σ.1).2.shrinking = true) :
    noteReference config policy σ.1 c σ.2 = (c.apply config policy σ.1).2.plateauRate := by
  unfold noteReference
  rw [if_neg (by rw [hshrinking]; exact Bool.noConfusion)]
  split
  · rename_i hgoesOn
    rw [hkept.reference hgoesOn.1]
    exact (SaturationCycle.plateauRate_kept hnot hgoesOn.1 hshrinking hgoesOn.2).symm
  · rfl

/-- One cycle keeps the reference exactly when it does not rebase the search. -/
theorem keepsReference_iff (hkept : Kept σ) : KeepsReference config policy σ c ↔ ¬ Rebases config policy σ.1 c := by
  constructor
  · intro hkeeps hrebases
    obtain ⟨hshrinking, hgrows, hmoved⟩ := SaturationCycle.of_rebases hrebases
    obtain ⟨rate, hreference, hplateau⟩ := hkeeps.plateau hshrinking
    have hsame : noteReference config policy σ.1 c σ.2 = σ.1.plateauRate := by
      unfold noteReference
      rw [if_neg (by rw [hshrinking]; exact Bool.noConfusion), if_pos ⟨hrebases.shrinking, hgrows⟩]
      exact hkept.reference hrebases.shrinking
    exact hmoved (hplateau.trans (hreference.symm.trans hsame))
  · intro hnot
    have hplateau : (c.apply config policy σ.1).2.shrinking = true →
        ∃ rate, noteReference config policy σ.1 c σ.2 = some rate ∧
          (c.apply config policy σ.1).2.plateauRate = some rate := by
      intro hshrinking
      obtain ⟨rate, hrate⟩ := Option.isSome_iff_exists.1
        (SaturationCycle.apply_hasPlateau hkept.hasPlateau (Or.inr hshrinking))
      exact ⟨rate, (noteReference_of_kept hkept hnot hshrinking).trans hrate, hrate⟩
    refine ⟨hplateau, fun hshrunk => ?_⟩
    obtain ⟨hshrinking, hsame, measured, hmeasured, hretained⟩ := SaturationCycle.of_shrunk hshrunk
    obtain ⟨rate, hreference, hrate⟩ := hplateau hshrinking
    exact ⟨rate, measured, hreference, hmeasured, hretained rate (hsame.symm.trans hrate)⟩

omit [Flt F] in
theorem kept_default : Kept (({}, none) : SaturationState F × Option F) where
  hasPlateau h := by simp at h
  reference h := by cases h

theorem Kept.step (hkept : Kept σ) (hkeeps : KeepsReference config policy σ c) :
    Kept ((c.apply config policy σ.1).2, noteReference config policy σ.1 c σ.2) := by
  have hplateau : HasPlateau (c.apply config policy σ.1).2 := SaturationCycle.apply_hasPlateau hkept.hasPlateau
  have hreference : (c.apply config policy σ.1).2.shrinking = true →
      noteReference config policy σ.1 c σ.2 = (c.apply config policy σ.1).2.plateauRate := by
    intro hshrinking
    obtain ⟨rate, hrate, hsame⟩ := hkeeps.plateau hshrinking
    exact hrate.trans hsame.symm
  generalize (c.apply config policy σ.1).2 = s' at hplateau hreference ⊢
  generalize noteReference config policy σ.1 c σ.2 = reference at hreference ⊢
  exact ⟨hplateau, hreference⟩

/-- **A run keeps the reference of every downward search exactly when no cycle rebases one.** -/
theorem reference_kept_iff (config : AccountConfig F) (policy : ZaiSaturationConfig F)
    (cycles : List (SaturationCycle F)) :
    Each (nextSearch config policy) (KeepsReference config policy) ({}, none) cycles ↔
      Each (nextSearch config policy) (fun σ c => ¬ Rebases config policy σ.1 c) ({}, none) cycles := by
  refine each_congr (I := Kept) ?_ ?_ kept_default cycles
  · intro σ c σ' hkept hkeeps hnext
    rw [← Option.some.inj hnext]
    exact hkept.step hkeeps
  · intro σ c σ' hkept _
    exact keepsReference_iff hkept

/-! ### A search that is rebased -/

/-- From ten workers to eight at 96 requests of 100.  The backlog then has no room for the next step, and 92 of 100
become the reference against which the last shrink is accepted, at 88. -/
def compoundingReadings : List ExperimentReading :=
  [{ minutes := 0, completed := 100, backlog := 20, owned := 10 },
    { minutes := 10, completed := 100, backlog := 20, owned := 10 },
    { minutes := 20, completed := 100, backlog := 20, owned := 8 },
    { minutes := 30, completed := 96, backlog := 20, owned := 8 },
    { minutes := 40, completed := 96, backlog := 20, owned := 8 },
    { minutes := 50, completed := 96, backlog := 5, owned := 8 },
    { minutes := 60, completed := 92, backlog := 20, owned := 7 },
    { minutes := 70, completed := 92, backlog := 20, owned := 7 },
    { minutes := 80, completed := 88, backlog := 20, owned := 5 },
    { minutes := 90, completed := 88, backlog := 20, owned := 5 }]

/-- The seventh cycle takes a lower rate as the reference of the search under way. -/
theorem shrinks_compound :
    ¬ ∀ (name : String) (config : AccountConfig F64) (policy : ZaiSaturationConfig F64)
      (cycles : List (SaturationCycle F64)), config.validate name = .ok () →
      config.utilization.zaiSaturation = some policy →
      (∀ c ∈ cycles, ∃ owned unowned, c.Evaluated name config owned unowned) →
      Each (nextSearch config policy) (KeepsReference config policy) ({}, none) cycles := by
  intro hall
  have hrun := hall "zai" experimentAccount experimentPolicy
    (experimentCycles (Flt.ofRat (1 / 5)) 0 compoundingReadings) experimentAccount_valid rfl
    (experimentCycles_evaluated _ _ _ (by decide) (by decide +kernel))
  have hcompounds : ¬ Each (nextSearch experimentAccount experimentPolicy)
      (KeepsReference experimentAccount experimentPolicy) ({}, none)
      (experimentCycles (Flt.ofRat (1 / 5)) 0 compoundingReadings) := by
    decide +kernel
  exact hcompounds hrun

end Subgov
