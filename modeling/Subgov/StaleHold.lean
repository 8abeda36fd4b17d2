import Subgov.Arbitration
/-!
# StaleHold — a stale snapshot never scales up

Every stage after the stale decision takes a minimum with what it was given, whatever its stored state asks for:
`HeldStale` is what a stale decision satisfies in terms of the owned workers, and every stage keeps it.
-/
namespace Subgov

open FloatArith

variable {F : Type} [Flt F] {name : String} {config : AccountConfig F} {snapshot : QuotaSnapshot F}
  {prior : AccountState F} {owned unowned : Nat} {now : DateTime} {d : Decision F}

/-- A decision over a stale snapshot, in elastic terms: at most the owned count, and a total that is the sum. -/
structure HeldStale (owned unowned : Nat) (d : Decision F) : Prop where
  stale : d.stale = true
  unowned_eq : d.unownedWorkers = unowned
  le_owned : d.desiredWorkers ≤ owned
  total : d.desiredTotal = if unowned = 0 then none else some (d.desiredWorkers + unowned)
  room : 0 < unowned → d.desiredWorkers + unowned ≤ u32Max

namespace HeldStale

omit [Flt F] in
theorem lower (h : HeldStale owned unowned d) {n : Nat} (hn : n ≤ d.desiredWorkers) :
    HeldStale owned unowned (withTotal { d with desiredWorkers := n }) := by
  obtain ⟨hs, hu, hle, htot, hroom⟩ := h
  unfold withTotal
  by_cases h0 : 0 < d.unownedWorkers
  · rw [if_pos h0]
    rw [hu] at h0
    have hfit : n + unowned ≤ u32Max := le_trans (Nat.add_le_add_right hn _) (hroom h0)
    refine ⟨hs, hu, le_trans hn hle, ?_, fun _ => hfit⟩
    rw [if_neg (Nat.ne_of_gt h0)]
    show some (satAdd n d.unownedWorkers) = some (n + unowned)
    rw [hu, satAdd_of_le hfit]
  · rw [if_neg h0]
    have hz : unowned = 0 := by omega
    subst hz
    exact ⟨hs, hu, le_trans hn hle, htot, nofun⟩

omit [Flt F] in
theorem setSaturation (h : HeldStale owned unowned d) (s : Option (SaturationDecision F)) :
    HeldStale owned unowned { d with saturation := s } :=
  ⟨h.stale, h.unowned_eq, h.le_owned, h.total, h.room⟩

omit [Flt F] in
theorem setBackpressure (h : HeldStale owned unowned d) (b : Option (BackpressureDecision F)) :
    HeldStale owned unowned { d with backpressure := b } :=
  ⟨h.stale, h.unowned_eq, h.le_owned, h.total, h.room⟩

theorem applyZaiSaturation (h : HeldStale owned unowned d) (policy : ZaiSaturationConfig F) :
    HeldStale owned unowned (applyZaiSaturation d config policy snapshot prior now).1 := by
  have hcap : quotaCap d config = d.desiredWorkers := by
    unfold quotaCap
    rw [h.stale]
    rfl
  unfold Subgov.applyZaiSaturation
  refine (h.lower ?_).setSaturation _
  rw [hcap]
  exact min_le_right _ _

theorem applyBackpressure (h : HeldStale owned unowned d) (policy : BackpressureConfig F) (prior : BackpressureState)
    (minWorkers : Nat) :
    HeldStale owned unowned (applyBackpressure d policy prior snapshot minWorkers now).1 := by
  unfold Subgov.applyBackpressure
  exact (h.lower (min_le_left _ _)).setBackpressure _

theorem applyPolicies (h : HeldStale owned unowned d) :
    HeldStale owned unowned (applyPolicies d config snapshot prior now).decision := by
  unfold Subgov.applyPolicies
  cases config.utilization.zaiSaturation with
  | none =>
    cases config.utilization.backpressure with
    | none => exact h
    | some brake => exact h.applyBackpressure brake _ _
  | some policy =>
    have hs : HeldStale owned unowned (Subgov.applyZaiSaturation d config policy snapshot prior now).1 :=
      h.applyZaiSaturation policy
    cases config.utilization.backpressure with
    | none => exact hs
    | some brake => exact hs.applyBackpressure brake _ _

end HeldStale

/-- The evaluation of a stale snapshot never fails. -/
theorem evaluatePool_stale (hstale : isStale config snapshot now = true) :
    evaluatePool name config snapshot prior owned unowned now =
      .ok (if unowned = 0 then staleDecision name config snapshot owned
        else (staleDecision name (pooledConfig config unowned) snapshot (satAdd owned unowned)).intoElastic unowned) := by
  have hpool : isStale (pooledConfig config unowned) snapshot now = true := hstale
  unfold evaluatePool evaluate
  rw [if_pos hstale, if_pos hpool]
  split <;> rfl

omit [Flt F] in
theorem le_staleDecision_pooled (hrange : config.fleet.minWorkers ≤ config.fleet.maxWorkers)
    (hu : unowned ≤ u32Max) :
    unowned ≤ (staleDecision name (pooledConfig config unowned) snapshot (satAdd owned unowned)).desiredWorkers := by
  have hbounds : (pooledConfig config unowned).fleet.minWorkers ≤ (pooledConfig config unowned).fleet.maxWorkers := by
    simp only [pooledConfig, satAdd]
    omega
  have hfloor : unowned ≤ (pooledConfig config unowned).fleet.minWorkers := by
    simp only [pooledConfig, satAdd]
    omega
  refine le_min ?_ ?_
  · exact le_trans hfloor (le_clampNat _ _ _ hbounds)
  · simp only [satAdd]
    omega

omit [Flt F] in
theorem heldStale_staleDecision (hrange : config.fleet.minWorkers ≤ config.fleet.maxWorkers)
    (hu : unowned ≤ u32Max) :
    HeldStale owned unowned (if unowned = 0 then staleDecision name config snapshot owned
      else (staleDecision name (pooledConfig config unowned) snapshot (satAdd owned unowned)).intoElastic unowned) := by
  by_cases h0 : unowned = 0
  · subst h0
    rw [if_pos rfl]
    exact ⟨rfl, rfl, min_le_right _ _, rfl, nofun⟩
  · rw [if_neg h0]
    have hge : unowned ≤
        (staleDecision name (pooledConfig config unowned) snapshot (satAdd owned unowned)).desiredWorkers :=
      le_staleDecision_pooled hrange hu
    have hle : (staleDecision name (pooledConfig config unowned) snapshot (satAdd owned unowned)).desiredWorkers ≤
        satAdd owned unowned := min_le_right _ _
    generalize hp : staleDecision name (pooledConfig config unowned) snapshot (satAdd owned unowned) = pooled at hge hle
    have hstale : pooled.stale = true := by rw [← hp]; rfl
    have hsum := satAdd_le owned unowned
    have hmax := satAdd_le_max owned unowned
    unfold Decision.intoElastic
    rw [if_neg h0]
    refine ⟨hstale, rfl, ?_, ?_, fun _ => ?_⟩
    · show pooled.desiredWorkers - unowned ≤ owned
      omega
    · show some pooled.desiredWorkers = if unowned = 0 then none else some (pooled.desiredWorkers - unowned + unowned)
      rw [if_neg h0, Nat.sub_add_cancel hge]
    · show pooled.desiredWorkers - unowned + unowned ≤ u32Max
      omega

/-- **Stale data never scales up**: the whole pipeline returns at most the owned workers, and a total, when it gives one,
that is the sum of what it returns and the unowned. -/
theorem stale_never_scales_up (hv : config.validate name = .ok ()) (hu : unowned ≤ u32Max)
    (hstale : isStale config snapshot now = true) :
    ∃ d, evaluatePool name config snapshot prior owned unowned now = .ok d ∧
      (applyPolicies d config snapshot prior now).decision.desiredWorkers ≤ owned ∧
      ∀ t ∈ (applyPolicies d config snapshot prior now).decision.desiredTotal,
        t = (applyPolicies d config snapshot prior now).decision.desiredWorkers + unowned := by
  refine ⟨_, evaluatePool_stale hstale, ?_⟩
  generalize hd : (if unowned = 0 then staleDecision name config snapshot owned
    else (staleDecision name (pooledConfig config unowned) snapshot (satAdd owned unowned)).intoElastic unowned) = d
  have hheld : HeldStale owned unowned d := hd ▸ heldStale_staleDecision (AccountConfig.validate_bounds hv) hu
  have h : HeldStale owned unowned (applyPolicies d config snapshot prior now).decision := hheld.applyPolicies
  refine ⟨h.le_owned, fun t ht => ?_⟩
  rw [h.total] at ht
  by_cases h0 : unowned = 0
  · rw [if_pos h0] at ht
    cases ht
  · rw [if_neg h0, Option.mem_some_iff] at ht
    exact ht.symm

/-! ### A probe and a brake under way -/

def probingAccount : AccountConfig F64 :=
  { pacedAccount with
    utilization := { pacedUtilization with
      backpressure := some
        { holdAbove := Flt.ofRat (1 / 10)
          stepDownAbove := Flt.ofRat (3 / 10)
          recoverBelow := Flt.ofRat (1 / 20)
          quietCycles := 2
          signalLossReleaseSeconds := 3600 }
      zaiSaturation := some
        { stepWorkers := 2
          dwellSeconds := 600
          minimumWindowSeconds := 60
          minimumAttempts := 10
          plateauFraction := Flt.ofRat (1 / 20)
          concurrencyFraction := Flt.ofRat (1 / 10)
          reprobeSeconds := 3600 } } }

/-- A probe from two workers to eight, and a brake that holds. -/
def probingState : AccountState F64 where
  backpressure := { mode := .hold }
  zaiSaturation := some
    { pending := some { fromWorkers := 2, toWorkers := 8, baselineRate := Flt.ofNat 1, recovery := true } }

/-- Two owned and three unowned workers, and a snapshot an hour old. -/
theorem stale_never_scales_up_probing :
    ∃ d, evaluatePool "codex" probingAccount (pacedSnapshot [week] 20) probingState 2 3 (hours 2) = .ok d ∧
      (applyPolicies d probingAccount (pacedSnapshot [week] 20) probingState (hours 2)).decision.desiredWorkers ≤ 2 ∧
      ∀ t ∈ (applyPolicies d probingAccount (pacedSnapshot [week] 20) probingState (hours 2)).decision.desiredTotal,
        t = (applyPolicies d probingAccount (pacedSnapshot [week] 20) probingState
          (hours 2)).decision.desiredWorkers + 3 :=
  stale_never_scales_up (by decide +kernel) (by decide) (by decide +kernel)

end Subgov
