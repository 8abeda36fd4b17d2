import Subgov.Lib.Deadlines
import Subgov.UsageOrder
/-!
# CreditPace — the pace of the banked resets is the least that meets their deadlines

The plan takes the credits by their expirations, charges the `k`-th of them with `k` full windows and paces the fleet by
the most demanding one.  `bankedResetDecision_pace` says that no other order of the credits would do with less, and that
the pace reads no more of the credits than when they expire.
-/
namespace Subgov

open FloatArith

/-! ## The credits in their order -/

section Credits

/-- The available credits with an expiry, as they are listed. -/
def redeemable (credits : ResetCreditsSnapshot) : List (DateTime × ResetCredit) :=
  (credits.credits.getD []).filterMap (fun c =>
    if c.status = "available" then c.expiresAt.map (fun e => (e, c)) else none)

/-- The order of the plan: by expiry and then by id. -/
def Earlier (a b : DateTime × ResetCredit) : Prop :=
  (decide (a.1 < b.1) || (decide (a.1 = b.1) && compare a.2.id b.2.id != .gt)) = true

instance : DecidableRel Earlier := fun _ _ => inferInstanceAs (Decidable (_ = true))

theorem earlier_iff {a b : DateTime × ResetCredit} :
    Earlier a b ↔ a.1 < b.1 ∨ a.1 = b.1 ∧ (compare a.2.id b.2.id).isLE = true := by
  rw [Ordering.isLE_iff_ne_gt, Earlier, Bool.or_eq_true, Bool.and_eq_true, decide_eq_true_eq, decide_eq_true_eq,
    bne_iff_ne]

instance : Std.Total Earlier where
  total a b := by
    rw [earlier_iff, earlier_iff]
    rcases lt_trichotomy a.1 b.1 with hlt | heq | hgt
    · exact Or.inl (Or.inl hlt)
    · cases hids : compare a.2.id b.2.id with
      | lt => exact Or.inl (Or.inr ⟨heq, rfl⟩)
      | eq => exact Or.inl (Or.inr ⟨heq, rfl⟩)
      | gt =>
        have hswap : compare b.2.id a.2.id = .lt := Std.OrientedCmp.gt_iff_lt.1 hids
        exact Or.inr (Or.inr ⟨heq.symm, by rw [hswap]; rfl⟩)
    · exact Or.inr (Or.inl hgt)

instance : IsTrans (DateTime × ResetCredit) Earlier where
  trans a b c hab hbc := by
    rw [earlier_iff] at hab hbc ⊢
    rcases hab with hab | ⟨hab, hid⟩
    · rcases hbc with hbc | ⟨hbc, -⟩
      · exact Or.inl (hab.trans hbc)
      · exact Or.inl (hbc ▸ hab)
    · rcases hbc with hbc | ⟨hbc, hid'⟩
      · exact Or.inl (hab ▸ hbc)
      · exact Or.inr ⟨hab.trans hbc, Std.TransCmp.isLE_trans hid hid'⟩

theorem knownCredits_eq (credits : ResetCreditsSnapshot) :
    knownCredits credits = (redeemable credits).insertionSort Earlier := rfl

theorem knownCredits_perm (credits : ResetCreditsSnapshot) : (knownCredits credits).Perm (redeemable credits) :=
  List.perm_insertionSort _ _

theorem knownCredits_pairwise (credits : ResetCreditsSnapshot) :
    (knownCredits credits).Pairwise (fun a b => a.1 ≤ b.1) := by
  rw [knownCredits_eq]
  refine (List.pairwise_insertionSort Earlier _).imp fun {a b} h => ?_
  exact (earlier_iff.1 h).elim le_of_lt fun h => h.1.le

/-- The expirations of the plan's order are told by those of the list. -/
theorem knownCredits_expirations {credits credits' : ResetCreditsSnapshot}
    (h : ((redeemable credits').map Prod.fst).Perm ((redeemable credits).map Prod.fst)) :
    (knownCredits credits').map Prod.fst = (knownCredits credits).map Prod.fst := by
  have hperm : ((knownCredits credits').map Prod.fst).Perm ((knownCredits credits).map Prod.fst) :=
    (((knownCredits_perm credits').map _).trans h).trans ((knownCredits_perm credits).map _).symm
  exact hperm.eq_of_pairwise' (List.pairwise_map.2 (knownCredits_pairwise credits'))
    (List.pairwise_map.2 (knownCredits_pairwise credits))

end Credits

/-! ## The pace of a plan -/

/-- The burn that is needed before the next redemption but `k`. -/
def burnNeed (target used : ℚ) (k : Nat) : ℚ := max (target - used) 0 + k * target

/-- The hours until a credit expires, less the safety margin. -/
def expiryHours (config : AccountConfig ℚ) (now expiry : DateTime) : ℚ :=
  hoursOf (expiry - now) - config.bankedResets.deadlineSafetySeconds / 3600

def creditHours (config : AccountConfig ℚ) (now : DateTime) (known : DateTime × ResetCredit) : ℚ :=
  expiryHours config now known.1

/-- The configured pace: so many windows' worth of the target in a window's length. -/
def minimumPace (config : AccountConfig ℚ) (target : ℚ) (minutes : Nat) : ℚ :=
  config.bankedResets.minimumPaceMultiplier * target / (minutes / 60)

/-- The target of the plan: the window's own, raised to the redemption threshold. -/
def redemptionTarget (config : AccountConfig ℚ) (decision : WindowDecision ℚ) : ℚ :=
  max decision.targetUtilization config.bankedResets.redeemAtUtilization

theorem burnNeed_mono {target : ℚ} (htarget : 0 ≤ target) (used : ℚ) : Monotone (burnNeed target used) := by
  intro k l hkl
  have hcast : (k : ℚ) ≤ l := Nat.cast_le.2 hkl
  exact add_le_add_right (mul_le_mul_of_nonneg_right hcast htarget) _

theorem hoursOf_mono {d d' : Duration} (h : d ≤ d') : (hoursOf d : ℚ) ≤ hoursOf d' :=
  div_le_div_of_nonneg_right (Int.cast_le.2 (numMilliseconds_mono h)) (Nat.cast_nonneg 3600000)

theorem flt_max (a b : ℚ) : Flt.max a b = max a b := (max_def a b).symm

theorem flt_ofNat (n : Nat) : (Flt.ofNat n : ℚ) = n := rfl

theorem foldl_assessCredit {ctx : CreditContext ℚ} {known : List (DateTime × ResetCredit)}
    (hahead : ∀ k ∈ known, 0 < hoursOf (k.1 - ctx.now) - ctx.safetyHours) (n : Nat) (pass : CreditPass ℚ) :
    ((known.zipIdx n).foldl (fun pass k => assessCredit ctx pass k.2 k.1) pass).requiredBurnPerHour =
      (known.zipIdx n).foldl (fun rate k => max rate
        (burnNeed ctx.target ctx.window.usedFraction k.2 / (hoursOf (k.1.1 - ctx.now) - ctx.safetyHours)))
        pass.requiredBurnPerHour := by
  induction known generalizing n pass with
  | nil => rfl
  | cons k known ih =>
    have hk : (Flt.zero : ℚ) < hoursOf (k.1 - ctx.now) - ctx.safetyHours := hahead k List.mem_cons_self
    have hstep : (assessCredit ctx pass n k).requiredBurnPerHour = max pass.requiredBurnPerHour
        (burnNeed ctx.target ctx.window.usedFraction n / (hoursOf (k.1 - ctx.now) - ctx.safetyHours)) := by
      unfold assessCredit
      dsimp only
      rw [if_pos hk, Option.elim_some, flt_max, flt_max]
      rfl
    rw [List.zipIdx_cons, List.foldl_cons, List.foldl_cons, ih fun i hi => hahead i (List.mem_cons_of_mem _ hi), hstep]

section Plan

variable {config : AccountConfig ℚ} {snapshot : QuotaSnapshot ℚ} {decisions : List (WindowDecision ℚ)}
  {prior : AccountState ℚ} {current : Nat} {now : DateTime} {credits : ResetCreditsSnapshot} {window : QuotaWindow ℚ}
  {decision : WindowDecision ℚ} {minutes : Nat}

/-- **The plan's rate is the pace of the credits in their order.** -/
theorem bankedPlan_required (hahead : ∀ known ∈ redeemable credits, 0 < creditHours config now known) :
    (bankedPlan config snapshot credits window decision minutes prior current now).requiredBurnPerHour =
      Deadlines.pace (burnNeed (redemptionTarget config decision) window.usedFraction) (creditHours config now)
        (minimumPace config (redemptionTarget config decision) minutes) (knownCredits credits) := by
  have htarget : Flt.max decision.targetUtilization config.bankedResets.redeemAtUtilization =
      redemptionTarget config decision := flt_max _ _
  have hknown : ∀ known ∈ knownCredits credits, 0 < creditHours config now known := fun known h =>
    hahead known ((knownCredits_perm credits).mem_iff.1 h)
  have hhours : ∀ known, hoursOf (known.1 - now) -
      Flt.ofNat config.bankedResets.deadlineSafetySeconds / Flt.ofNat 3600 = creditHours config now known := by
    intro known
    rw [flt_ofNat, flt_ofNat, Nat.cast_ofNat]
    rfl
  have hbase : config.bankedResets.minimumPaceMultiplier * redemptionTarget config decision /
      (Flt.ofNat minutes / Flt.ofNat 60) = minimumPace config (redemptionTarget config decision) minutes := by
    rw [flt_ofNat, flt_ofNat, Nat.cast_ofNat]
    rfl
  unfold bankedPlan
  dsimp only
  unfold assessCredits
  rw [htarget, hbase, foldl_assessCredit fun known h => (hhours known).symm ▸ hknown known h]
  simp only [hhours]
  rfl

variable (decision) in
/-- A target of a checked account is positive. -/
theorem redemptionTarget_pos {name : String} (hvalid : config.validate name = .ok ()) :
    0 < redemptionTarget config decision := by
  have hredeem : 0 < config.bankedResets.redeemAtUtilization := not_le.1 (AccountConfig.redeem_pos hvalid)
  exact lt_max_of_lt_right hredeem

variable (decision minutes) in
theorem minimumPace_nonneg {name : String} (hvalid : config.validate name = .ok ()) :
    0 ≤ minimumPace config (redemptionTarget config decision) minutes := by
  have hmultiplier : 1 ≤ config.bankedResets.minimumPaceMultiplier := by
    have hb := AccountConfig.validate_banked hvalid
    simp only [validateBankedResets, andThen_ok, ensure_ok, Bool.and_eq_true, Bool.not_eq_true',
      decide_eq_false_iff_not] at hb
    exact not_lt.1 hb.1.2
  exact div_nonneg (mul_nonneg (zero_le_one.trans hmultiplier) (redemptionTarget_pos decision hvalid).le)
    (div_nonneg (Nat.cast_nonneg minutes) (by norm_num))

/-- **No other order of the credits would do with less.** -/
theorem bankedPlan_isLeast {name : String} (hvalid : config.validate name = .ok ())
    (hahead : ∀ known ∈ redeemable credits, 0 < creditHours config now known) :
    IsLeast {rate | minimumPace config (redemptionTarget config decision) minutes ≤ rate ∧
        ∃ order, order.Perm (redeemable credits) ∧ Deadlines.Meets
          (burnNeed (redemptionTarget config decision) window.usedFraction) (creditHours config now) rate order}
      (bankedPlan config snapshot credits window decision minutes prior current now).requiredBurnPerHour := by
  have hknown : ∀ known ∈ knownCredits credits, 0 < creditHours config now known := fun known h =>
    hahead known ((knownCredits_perm credits).mem_iff.1 h)
  have hsorted : (knownCredits credits).Pairwise (fun a b => creditHours config now a ≤ creditHours config now b) :=
    (knownCredits_pairwise credits).imp fun h => sub_le_sub_right (hoursOf_mono (Int.sub_le_sub_right h now)) _
  have hleast := Deadlines.pace_isLeast (burnNeed_mono (redemptionTarget_pos decision hvalid).le window.usedFraction)
    (minimumPace_nonneg decision minutes hvalid) hknown hsorted
  rw [bankedPlan_required hahead]
  have horders : ∀ order : List (DateTime × ResetCredit),
      order.Perm (knownCredits credits) ↔ order.Perm (redeemable credits) := fun order =>
    ⟨fun h => h.trans (knownCredits_perm credits), fun h => h.trans (knownCredits_perm credits).symm⟩
  simp only [horders] at hleast
  exact hleast

/-- The plan reads no more of the credits than their expirations. -/
theorem bankedPlan_expirations {credits' : ResetCreditsSnapshot} {snapshot' : QuotaSnapshot ℚ}
    (hahead : ∀ known ∈ redeemable credits, 0 < creditHours config now known)
    (h : ((redeemable credits').map Prod.fst).Perm ((redeemable credits).map Prod.fst)) :
    (bankedPlan config snapshot' credits' window decision minutes prior current now).requiredBurnPerHour =
      (bankedPlan config snapshot credits window decision minutes prior current now).requiredBurnPerHour := by
  have hahead' : ∀ known ∈ redeemable credits', 0 < creditHours config now known := by
    intro known hknown
    obtain ⟨same, hsame, hexpiry⟩ := List.mem_map.1 (h.mem_iff.1 (List.mem_map_of_mem hknown))
    have hhours : creditHours config now same = creditHours config now known := by
      unfold creditHours
      rw [hexpiry]
    exact hhours ▸ hahead same hsame
  have hpace : ∀ known : List (DateTime × ResetCredit),
      Deadlines.pace (burnNeed (redemptionTarget config decision) window.usedFraction) (creditHours config now)
        (minimumPace config (redemptionTarget config decision) minutes) known =
      Deadlines.pace (burnNeed (redemptionTarget config decision) window.usedFraction)
        (expiryHours config now)
        (minimumPace config (redemptionTarget config decision) minutes) (known.map Prod.fst) :=
    fun known => (Deadlines.pace_map _ _ _ Prod.fst known).symm
  rw [bankedPlan_required hahead, bankedPlan_required hahead', hpace, hpace, knownCredits_expirations h]

theorem bankedResetDecision_eq (henabled : config.bankedResets.enabled = true)
    (hcredits : snapshot.resetCredits = some credits) (hcount : 0 < credits.availableCount)
    (hwindow : governingWindow snapshot = some window)
    (hdecision : decisions.find? (fun d => d.id == window.id) = some decision)
    (hminutes : window.durationMinutes = some minutes) :
    bankedResetDecision config snapshot decisions prior current now =
      some (bankedPlan config snapshot credits window decision minutes prior current now) := by
  unfold bankedResetDecision
  rw [henabled, hcredits]
  dsimp only
  rw [if_neg hcount.ne', hwindow]
  dsimp only
  rw [hdecision, hminutes]
  rfl

/-- The snapshot with its credits listed like this. -/
def QuotaSnapshot.withCredits (snapshot : QuotaSnapshot ℚ) (credits : ResetCreditsSnapshot)
    (listed : List ResetCredit) : QuotaSnapshot ℚ :=
  { snapshot with resetCredits := some { credits with credits := some listed } }

/-- **The banked-reset pace is the least that meets every deadline in some order of the credits**, and the order in
which they are listed or told apart at one expiry is of no account. -/
theorem bankedResetDecision_pace {name : String} (prior : AccountState ℚ) (current : Nat)
    (hvalid : config.validate name = .ok ()) (henabled : config.bankedResets.enabled = true)
    (hcredits : snapshot.resetCredits = some credits) (hcount : 0 < credits.availableCount)
    (hwindow : governingWindow snapshot = some window)
    (hdecision : decisions.find? (fun d => d.id == window.id) = some decision)
    (hminutes : window.durationMinutes = some minutes)
    (hahead : ∀ known ∈ redeemable credits, 0 < creditHours config now known) :
    ∃ plan, bankedResetDecision config snapshot decisions prior current now = some plan ∧
      IsLeast {rate | minimumPace config (redemptionTarget config decision) minutes ≤ rate ∧
          ∃ order, order.Perm (redeemable credits) ∧ Deadlines.Meets
            (burnNeed (redemptionTarget config decision) window.usedFraction) (creditHours config now) rate order}
        plan.requiredBurnPerHour ∧
      ∀ listed : List ResetCredit,
        (listed.Perm (credits.credits.getD []) ∨
          ((redeemable { credits with credits := some listed }).map Prod.fst).Perm
            ((redeemable credits).map Prod.fst)) →
        ∃ plan', bankedResetDecision config (snapshot.withCredits credits listed) decisions prior current now =
            some plan' ∧ plan'.requiredBurnPerHour = plan.requiredBurnPerHour := by
  refine ⟨_, bankedResetDecision_eq henabled hcredits hcount hwindow hdecision hminutes,
    bankedPlan_isLeast hvalid hahead, fun listed hlisted => ?_⟩
  refine ⟨_, bankedResetDecision_eq henabled rfl hcount hwindow hdecision hminutes, bankedPlan_expirations hahead ?_⟩
  rcases hlisted with hreordered | hexpirations
  · exact (hreordered.filterMap _).map _
  · exact hexpirations

end Plan

/-! ### Two credits in a fresh week -/

def exactBankedAccount : AccountConfig ℚ :=
  { exactAccount with bankedResets := { exactAccount.bankedResets with enabled := true } }

def exactCredits : ResetCreditsSnapshot :=
  { availableCount := 2
    credits := some [{ id := "b", status := "available", expiresAt := some (hours 50) },
      { id := "a", status := "available", expiresAt := some (hours 30) }] }

def exactDecision : WindowDecision ℚ :=
  { id := "week", usedFraction := 3 / 10, targetUtilization := 1, resetsAt := hours 9, desiredWorkers := 3,
    reason := .learningBurnRate, observedBurnPerWorkerHour := none }

/-- The later of two credits listed first. -/
theorem bankedResetDecision_pace_two :
    ∃ plan, bankedResetDecision exactBankedAccount { exactSnapshot with resetCredits := some exactCredits }
        [exactDecision] {} 3 (hours 1) = some plan ∧
      IsLeast {rate | minimumPace exactBankedAccount (redemptionTarget exactBankedAccount exactDecision) 10080 ≤ rate ∧
          ∃ order, order.Perm (redeemable exactCredits) ∧ Deadlines.Meets
            (burnNeed (redemptionTarget exactBankedAccount exactDecision) exactWeek.usedFraction)
            (creditHours exactBankedAccount (hours 1)) rate order}
        plan.requiredBurnPerHour ∧
      ∀ listed : List ResetCredit,
        (listed.Perm (exactCredits.credits.getD []) ∨
          ((redeemable { exactCredits with credits := some listed }).map Prod.fst).Perm
            ((redeemable exactCredits).map Prod.fst)) →
        ∃ plan', bankedResetDecision exactBankedAccount
            (QuotaSnapshot.withCredits { exactSnapshot with resetCredits := some exactCredits } exactCredits listed)
            [exactDecision] {} 3 (hours 1) = some plan' ∧ plan'.requiredBurnPerHour = plan.requiredBurnPerHour := by
  have hvalid : exactBankedAccount.validate "codex" = .ok () := by decide +kernel
  have hahead : ∀ known ∈ redeemable exactCredits, 0 < creditHours exactBankedAccount (hours 1) known := by
    decide +kernel
  exact bankedResetDecision_pace {} 3 hvalid rfl rfl (by decide) rfl rfl rfl hahead

end Subgov
