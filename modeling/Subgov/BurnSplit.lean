import Mathlib.Algebra.Order.BigOperators.Group.List
import Mathlib.Tactic.FieldSimp
import Mathlib.Tactic.Ring
import Subgov.CreditPace
/-!
# BurnSplit — the baseline split on a history that fits its model

Where every interval of the baseline burns an exogenous rate and a rate for each worker, the bands lie on one line, all
pairwise slopes are its slope and all intercepts its intercept.  `estimateAggregateBurn_exact` carries the two rates
through the baseline's choice, the bands, the medians and the clamps.
-/
namespace Subgov

open FloatArith

/-! ## Bands on a line -/

section Bands

variable {e g : ℚ} {intervals : List (BurnInterval ℚ)}

/-- An interval that burns `e` and `g` for each of its workers. -/
structure OnLine (e g : ℚ) (i : BurnInterval ℚ) : Prop where
  hours : 0 < i.elapsedHours
  burn : i.burnedFraction = i.elapsedHours * (e + g * (i.governedWorkersX2 / 2))
  split : i.splitInterval = true

/-- A band that does so on average. -/
structure BandOnLine (e g : ℚ) (band : Nat × ℚ × ℚ) : Prop where
  hours : 0 < band.2.1
  burn : band.2.2 = band.2.1 * (e + g * (band.1 / 2))

theorem BandOnLine.mean {band : Nat × ℚ × ℚ} (h : BandOnLine e g band) :
    band.2.2 / band.2.1 = e + g * (band.1 / 2) := by
  rw [h.burn, mul_div_cancel_left₀ _ h.hours.ne']

theorem zero_add_exact (x : ℚ) : Flt.zero + x = x := zero_add x

/-- **An interval on the line keeps its band on it.** -/
theorem addBand_onLine {i : BurnInterval ℚ} (hi : OnLine e g i) {bands : List (Nat × ℚ × ℚ)}
    (h : ∀ band ∈ bands, BandOnLine e g band) : ∀ band ∈ workerBands.addBand i bands, BandOnLine e g band := by
  have hnew : BandOnLine e g (i.governedWorkersX2, Flt.zero + i.elapsedHours, Flt.zero + i.burnedFraction) := by
    rw [zero_add_exact, zero_add_exact]
    exact ⟨hi.hours, hi.burn⟩
  induction bands with
  | nil => exact List.forall_mem_singleton.2 hnew
  | cons first bands ih =>
    obtain ⟨hfirst, hrest⟩ := List.forall_mem_cons.1 h
    obtain ⟨w, hours, burned⟩ := first
    unfold workerBands.addBand
    split
    · exact List.forall_mem_cons.2 ⟨hnew, h⟩
    · split
      case isTrue hsame =>
        refine List.forall_mem_cons.2 ⟨⟨add_pos hfirst.hours hi.hours, ?_⟩, hrest⟩
        show burned + i.burnedFraction = (hours + i.elapsedHours) * (e + g * (w / 2))
        have hbefore : burned = hours * (e + g * (w / 2)) := hfirst.burn
        rw [hi.burn, hsame, hbefore, add_mul]
      case isFalse => exact List.forall_mem_cons.2 ⟨hfirst, ih hrest⟩

theorem mem_keys_addBand (i : BurnInterval ℚ) (bands : List (Nat × ℚ × ℚ)) (w : Nat) :
    w ∈ (workerBands.addBand i bands).map Prod.fst ↔ w = i.governedWorkersX2 ∨ w ∈ bands.map Prod.fst := by
  induction bands with
  | nil => simp [workerBands.addBand]
  | cons first bands ih =>
    obtain ⟨v, hours, burned⟩ := first
    unfold workerBands.addBand
    split
    · rw [List.map_cons, List.mem_cons]
    · split
      case isTrue hsame => rw [List.map_cons, List.map_cons, List.mem_cons, hsame, or_self_left]
      case isFalse => rw [List.map_cons, List.map_cons, List.mem_cons, List.mem_cons, ih, or_left_comm]

theorem workerBands_spec (h : ∀ i ∈ intervals, OnLine e g i) :
    (∀ band ∈ workerBands intervals, BandOnLine e g band) ∧
      ∀ w, w ∈ (workerBands intervals).map Prod.fst ↔ ∃ i ∈ intervals, i.governedWorkersX2 = w := by
  have hfold : ∀ (intervals : List (BurnInterval ℚ)) (bands : List (Nat × ℚ × ℚ)),
      (∀ i ∈ intervals, OnLine e g i) → (∀ band ∈ bands, BandOnLine e g band) →
      (∀ band ∈ intervals.foldl (fun bands i => workerBands.addBand i bands) bands, BandOnLine e g band) ∧
        ∀ w, w ∈ (intervals.foldl (fun bands i => workerBands.addBand i bands) bands).map Prod.fst ↔
          (∃ i ∈ intervals, i.governedWorkersX2 = w) ∨ w ∈ bands.map Prod.fst := by
    intro intervals
    induction intervals with
    | nil => exact fun bands _ hbands => ⟨hbands, fun w => by simp⟩
    | cons i intervals ih =>
      intro bands hintervals hbands
      obtain ⟨hi, hrest⟩ := List.forall_mem_cons.1 hintervals
      obtain ⟨honline, hkeys⟩ := ih (workerBands.addBand i bands) hrest (addBand_onLine hi hbands)
      refine ⟨honline, fun w => ?_⟩
      rw [List.foldl_cons, hkeys, mem_keys_addBand, List.exists_mem_cons_iff, ← or_assoc,
        or_comm (a := i.governedWorkersX2 = w), eq_comm (a := w)]
  have hall : intervals.filter (·.splitInterval) = intervals := List.filter_eq_self.2 fun i hi => (h i hi).split
  unfold workerBands
  rw [hall]
  obtain ⟨honline, hkeys⟩ := hfold intervals [] h (by simp)
  exact ⟨honline, fun w => (hkeys w).trans (or_iff_left (by simp))⟩

end Bands

/-! ## Slopes and intercepts -/

section Line

variable {e g : ℚ} {means : List (ℚ × ℚ)}

/-- The middle of a sorted list of equal rates. -/
theorem totalSort_middle {xs : List ℚ} {c : ℚ} (hne : xs ≠ []) (h : ∀ x ∈ xs, x = c) :
    (totalSort xs)[(totalSort xs).length / 2]? = some c := by
  have hlength : (totalSort xs).length = xs.length := List.length_insertionSort _ _
  have hpos := List.length_pos_iff.2 hne
  have hmiddle : (totalSort xs).length / 2 < (totalSort xs).length := by omega
  rw [List.getElem?_eq_getElem hmiddle, Option.some.injEq]
  exact h _ ((List.perm_insertionSort _ xs).mem_iff.1 (List.getElem_mem hmiddle))

theorem mem_bandSlopes_cons {left : ℚ × ℚ} {rest : List (ℚ × ℚ)} {slope : ℚ} :
    slope ∈ bandSlopes (left :: rest) ↔
      (∃ right ∈ rest, right.1 ≠ left.1 ∧ 0 < slope ∧ (right.2 - left.2) / (right.1 - left.1) = slope) ∨
        slope ∈ bandSlopes rest := by
  rw [bandSlopes, List.mem_append, List.mem_filterMap]
  refine or_congr_left (exists_congr fun right => and_congr_right fun _ => ?_)
  have hbeq : Flt.beq (right.1 - left.1) Flt.zero = decide (right.1 = left.1) := by
    show decide (right.1 - left.1 = 0) = _
    exact decide_eq_decide.2 sub_eq_zero
  dsimp only
  rw [hbeq, positiveFinite_exact]
  by_cases hsame : right.1 = left.1
  · simp [hsame]
  · rw [decide_eq_false hsame, if_neg Bool.false_ne_true]
    constructor
    · intro hsome
      split at hsome
      case isTrue hpositive =>
        rw [Option.some.injEq] at hsome
        exact ⟨hsame, hsome ▸ hpositive, hsome⟩
      case isFalse => cases hsome
    · rintro ⟨-, hpositive, rfl⟩
      exact if_pos hpositive

theorem slope_eq {left right : ℚ × ℚ} (hleft : left.2 = e + g * left.1) (hright : right.2 = e + g * right.1)
    (hdistinct : right.1 ≠ left.1) : (right.2 - left.2) / (right.1 - left.1) = g := by
  rw [hleft, hright, add_sub_add_left_eq_sub, ← mul_sub, mul_div_cancel_right₀ _ (sub_ne_zero.2 hdistinct)]

/-- **All pairwise slopes of a line are its slope.** -/
theorem bandSlopes_eq (h : ∀ p ∈ means, p.2 = e + g * p.1) : ∀ slope ∈ bandSlopes means, slope = g := by
  induction means with
  | nil => exact fun _ hslope => nomatch hslope
  | cons left rest ih =>
    obtain ⟨hleft, hrest⟩ := List.forall_mem_cons.1 h
    intro slope hslope
    rcases mem_bandSlopes_cons.1 hslope with ⟨right, hright, hdistinct, -, rfl⟩ | hslope
    · exact slope_eq hleft (hrest right hright) hdistinct
    · exact ih hrest slope hslope

/-- Two points at different counts give a slope. -/
theorem bandSlopes_ne_nil (hg : 0 < g) (h : ∀ p ∈ means, p.2 = e + g * p.1) {p q : ℚ × ℚ} (hp : p ∈ means)
    (hq : q ∈ means) (hdistinct : p.1 ≠ q.1) : bandSlopes means ≠ [] := by
  induction means with
  | nil => cases hp
  | cons left rest ih =>
    obtain ⟨hleft, hrest⟩ := List.forall_mem_cons.1 h
    have hhead : ∀ right ∈ rest, right.1 ≠ left.1 → bandSlopes (left :: rest) ≠ [] := by
      intro right hright hne
      have hslope := slope_eq hleft (hrest right hright) hne
      exact List.ne_nil_of_mem (mem_bandSlopes_cons.2 (Or.inl ⟨right, hright, hne, hg, hslope⟩))
    rcases List.mem_cons.1 hp with rfl | hp'
    · rcases List.mem_cons.1 hq with rfl | hq'
      · exact absurd rfl hdistinct
      · exact hhead q hq' hdistinct.symm
    · rcases List.mem_cons.1 hq with rfl | hq'
      · exact hhead p hp' hdistinct
      · obtain ⟨slope, hslope⟩ := List.exists_mem_of_ne_nil _ (ih hrest hp' hq')
        exact List.ne_nil_of_mem (mem_bandSlopes_cons.2 (Or.inr hslope))

end Line

/-! ## The split of the intervals -/

section Split

variable {e g : ℚ} {intervals : List (BurnInterval ℚ)} {aggregate : ℚ}

theorem clamp_exact {x lo hi : ℚ} (hlo : lo ≤ x) (hhi : x ≤ hi) : Flt.clamp x lo hi = x := by
  unfold Flt.clamp
  dsimp only
  rw [if_neg (not_lt.2 hlo), if_neg (not_lt.2 hhi)]

/-- **The exogenous rate is the line's intercept**, read off the zero-worker band or off the medians. -/
theorem estimateExogenousBurn_onLine (he : 0 ≤ e) (hg : 0 < g) (hwithin : e ≤ aggregate)
    (h : ∀ i ∈ intervals, OnLine e g i) {i j : BurnInterval ℚ} (hi : i ∈ intervals) (hj : j ∈ intervals)
    (hdistinct : i.governedWorkersX2 ≠ j.governedWorkersX2) :
    estimateExogenousBurn intervals aggregate = some e := by
  obtain ⟨honline, hkeys⟩ := workerBands_spec h
  have hclamp : Flt.clamp e Flt.zero aggregate = e := clamp_exact he hwithin
  unfold estimateExogenousBurn
  dsimp only
  cases hzero : (workerBands intervals).find? (fun b => b.1 == 0) with
  | some band =>
    obtain ⟨w, hours, usage⟩ := band
    have hfound := List.find?_some hzero
    have hempty : w = 0 := beq_iff_eq.1 hfound
    have hmean := (honline _ (List.mem_of_find?_eq_some hzero)).mean
    dsimp only at hmean ⊢
    rw [hmean, hempty, Nat.cast_zero, zero_div, mul_zero, add_zero, hclamp]
  | none =>
    dsimp only
    generalize hmeans : (workerBands intervals).filterMap (fun b =>
      if Flt.zero < b.2.1 then some ((Flt.ofNat b.1 / Flt.ofNat 2 : ℚ), b.2.2 / b.2.1) else none) = means
    have hpoint : ∀ p, p ∈ means ↔ ∃ b ∈ workerBands intervals, ((b.1 : ℚ) / 2, e + g * (b.1 / 2)) = p := by
      intro p
      rw [← hmeans, List.mem_filterMap]
      refine exists_congr fun b => and_congr_right fun hb => ?_
      have hhours : (Flt.zero : ℚ) < b.2.1 := (honline b hb).hours
      rw [if_pos hhours, (honline b hb).mean, flt_ofNat, flt_ofNat, Option.some.injEq, Nat.cast_ofNat]
    have hline : ∀ p ∈ means, p.2 = e + g * p.1 := by
      intro p hp
      obtain ⟨b, -, rfl⟩ := (hpoint p).1 hp
      rfl
    have hat : ∀ i ∈ intervals, ∃ p ∈ means, p.1 = (i.governedWorkersX2 : ℚ) / 2 := by
      intro i hi
      obtain ⟨b, hb, hw⟩ := List.mem_map.1 ((hkeys _).2 ⟨i, hi, rfl⟩)
      exact ⟨_, (hpoint _).2 ⟨b, hb, rfl⟩, by rw [hw]⟩
    obtain ⟨p, hp, hpi⟩ := hat i hi
    obtain ⟨q, hq, hqj⟩ := hat j hj
    have hpq : p.1 ≠ q.1 := by
      rw [hpi, hqj]
      intro hsame
      exact hdistinct (Nat.cast_injective ((div_left_inj' two_ne_zero).1 hsame))
    have hslope := totalSort_middle (bandSlopes_ne_nil hg hline hp hq hpq) (bandSlopes_eq hline)
    have hintercepts : ∀ x ∈ (means.map (fun p => p.2 - g * p.1)).filter Flt.isFinite, x = e := by
      intro x hx
      obtain ⟨r, hr, rfl⟩ := List.mem_map.1 (List.mem_filter.1 hx).1
      rw [hline r hr, add_sub_cancel_right]
    have hsome : (means.map (fun p => p.2 - g * p.1)).filter Flt.isFinite ≠ [] :=
      List.ne_nil_of_mem (List.mem_filter.2 ⟨List.mem_map.2 ⟨p, hp, rfl⟩, rfl⟩)
    rw [hslope]
    dsimp only
    rw [totalSort_middle hsome hintercepts, Option.map_some, hclamp]

def workerHours (i : BurnInterval ℚ) : ℚ := i.elapsedHours * i.governedWorkersX2 / 2

/-- The burn of the intervals, by their hours and their worker-hours. -/
theorem sum_burned (h : ∀ i ∈ intervals, OnLine e g i) :
    (intervals.map (·.burnedFraction)).sum = e * (intervals.map (·.elapsedHours)).sum +
      g * (intervals.map workerHours).sum := by
  induction intervals with
  | nil => simp
  | cons i intervals ih =>
    obtain ⟨hi, hrest⟩ := List.forall_mem_cons.1 h
    rw [List.map_cons, List.map_cons, List.map_cons, List.sum_cons, List.sum_cons, List.sum_cons, ih hrest, hi.burn,
      workerHours]
    ring

/-- Two intervals at different loads have worker-hours between them. -/
theorem sum_workerHours_pos (h : ∀ i ∈ intervals, OnLine e g i) {i j : BurnInterval ℚ} (hi : i ∈ intervals)
    (hj : j ∈ intervals) (hdistinct : i.governedWorkersX2 ≠ j.governedWorkersX2) :
    0 < (intervals.map workerHours).sum := by
  have hnonneg : ∀ x ∈ intervals.map workerHours, 0 ≤ x := by
    intro x hx
    obtain ⟨k, hk, rfl⟩ := List.mem_map.1 hx
    exact div_nonneg (mul_nonneg (h k hk).hours.le (Nat.cast_nonneg _)) zero_le_two
  have hpositive : ∀ k ∈ intervals, 0 < k.governedWorkersX2 → 0 < (intervals.map workerHours).sum := by
    intro k hk hworkers
    have hown : 0 < workerHours k := div_pos (mul_pos (h k hk).hours (Nat.cast_pos.2 hworkers)) two_pos
    exact hown.trans_le (List.single_le_sum hnonneg _ (List.mem_map_of_mem hk))
  rcases Nat.eq_zero_or_pos i.governedWorkersX2 with hzero | hworkers
  · exact hpositive j hj (Nat.pos_of_ne_zero fun hzero' => hdistinct (hzero.trans hzero'.symm))
  · exact hpositive i hi hworkers

/-- The rates of a burn made up of both parts. -/
theorem rates_of_burn (he : 0 ≤ e) (hg : 0 < g) {total workerTotal measured : ℚ} (htotal : 0 < total)
    (hworkers : 0 < workerTotal) (hmeasured : measured = e * total + g * workerTotal) :
    0 < measured ∧ e ≤ measured / total ∧ max (measured / total - e) 0 = measured / total - e ∧
      (measured / total - e) * total / workerTotal = g := by
  have hshare : 0 < g * workerTotal := mul_pos hg hworkers
  have hrate : measured / total = e + g * workerTotal / total := by
    rw [hmeasured, add_div, mul_div_cancel_right₀ _ htotal.ne']
  have hwithin : e ≤ measured / total := by
    rw [hrate]
    exact le_add_of_nonneg_right (div_pos hshare htotal).le
  refine ⟨?_, hwithin, max_eq_left (sub_nonneg.2 hwithin), ?_⟩
  · rw [hmeasured]
    exact add_pos_of_nonneg_of_pos (mul_nonneg he htotal.le) hshare
  · rw [hrate, add_sub_cancel_left, div_mul_cancel₀ _ htotal.ne', mul_div_cancel_right₀ _ hworkers.ne']

end Split

/-! ## The baseline -/

section Baseline

/-- The last element with a property, of which the later ones have none. -/
theorem rposition_append {α : Type} {p : α → Bool} (before : List α) {x : α} {after : List α} (hx : p x = true)
    (hafter : ∀ y ∈ after, p y = false) : rposition p (before ++ x :: after) = some before.length := by
  have hnone : after.reverse.findIdx? p = none :=
    List.findIdx?_eq_none_iff.2 fun y hy => hafter y (List.mem_reverse.1 hy)
  have hreverse : (before ++ x :: after).reverse = after.reverse ++ (x :: before.reverse) := by simp
  have hfound : (before ++ x :: after).reverse.findIdx? p = some after.length := by
    rw [hreverse, List.findIdx?_append, hnone, Option.none_or, List.findIdx?_cons, if_pos hx]
    simp
  rw [rposition, hfound, Option.map_some, List.length_append, List.length_cons]
  congr 1
  omega

theorem dedupByKey_of_pairwise {α : Type} {key : α → Int} {xs : List α}
    (h : xs.Pairwise (fun a b => key a < key b)) : dedupByKey key xs = xs := by
  have hfold : ∀ (xs : List α) (x : α) (kept : List α), (x :: xs).Pairwise (fun a b => key a < key b) →
      (xs.foldl (fun (acc : α × List α) y => if key y = key acc.1 then acc else (y, acc.2 ++ [y])) (x, kept)).2 =
        kept ++ xs := by
    intro xs
    induction xs with
    | nil => exact fun x kept _ => (List.append_nil kept).symm
    | cons y xs ih =>
      intro x kept hpairwise
      obtain ⟨hfirst, hrest⟩ := List.pairwise_cons.1 hpairwise
      have hlater : key y ≠ key x := (hfirst y List.mem_cons_self).ne'
      rw [List.foldl_cons, if_neg hlater, ih y (kept ++ [y]) hrest, List.append_assoc, List.singleton_append]
  cases xs with
  | nil => rfl
  | cons x xs => rw [dedupByKey, hfold xs x [] h, List.nil_append]

/-- The recorded samples and, unless the last is no older, the reading itself. -/
def liveSamples (history : Option (List (AggregateBurnSample ℚ))) (current : QuotaWindow ℚ) (observedAt : DateTime)
    (governedWorkers : Nat) : List (AggregateBurnSample ℚ) :=
  let samples := history.getD []
  if samples.getLast?.all (fun s => decide (s.observedAt < observedAt))
  then samples ++ [currentSample current observedAt governedWorkers] else samples

theorem orderedSamples_eq {history : Option (List (AggregateBurnSample ℚ))} {current : QuotaWindow ℚ}
    {observedAt : DateTime} {governedWorkers : Nat}
    (h : (liveSamples history current observedAt governedWorkers).Pairwise (fun a b => a.observedAt < b.observedAt)) :
    orderedSamples history current observedAt governedWorkers =
      liveSamples history current observedAt governedWorkers := by
  have hordered : orderedSamples history current observedAt governedWorkers = dedupByKey (·.observedAt)
      ((liveSamples history current observedAt governedWorkers).insertionSort
        (fun a b => a.observedAt ≤ b.observedAt)) := rfl
  rw [hordered, List.Pairwise.insertionSort_eq (h.imp le_of_lt), dedupByKey_of_pairwise h]

abbrev SamplePair := AggregateBurnSample ℚ × AggregateBurnSample ℚ

def consecutive (samples : List (AggregateBurnSample ℚ)) : List SamplePair := samples.zip samples.tail

def hoursBetween (p : SamplePair) : ℚ := ((p.2.observedAt - p.1.observedAt : Int) : ℚ) / 3600000000000

def burnBetween (p : SamplePair) : ℚ := p.2.usedFraction - p.1.usedFraction

def workersX2 (p : SamplePair) : Nat := p.1.governedWorkers + p.2.governedWorkers

/-- An interval within one generation that burns `e` and, for each worker at its ends on average, `g` an hour. -/
structure Fits (e g : ℚ) (p : SamplePair) : Prop where
  generation : sameResetGeneration p.1.resetsAt p.2.resetsAt = true
  burn : burnBetween p = hoursBetween p * (e + g * (workersX2 p / 2))

/-- What the estimator measures without loss: whole milliseconds, and two counts whose sum is a word. -/
structure Counted (p : SamplePair) : Prop where
  whole : (1000000 : Int) ∣ p.2.observedAt - p.1.observedAt
  word : workersX2 p ≤ u32Max

/-- A day or more of samples up to the observation, every interval of which fits, at two loads or more. -/
structure FittedHistory (e g : ℚ) (observedAt : DateTime) (samples : List (AggregateBurnSample ℚ)) : Prop where
  increasing : samples.Pairwise (fun a b => a.observedAt < b.observedAt)
  ends : samples.getLast?.map (·.observedAt) = some observedAt
  reaches : ∃ s ∈ samples, s.observedAt ≤ observedAt - hours 24
  three : 3 ≤ samples.length
  fits : ∀ p ∈ consecutive samples, Fits e g p
  distinct : ∃ p ∈ consecutive samples, ∃ q ∈ consecutive samples, workersX2 p ≠ workersX2 q

theorem hoursOf_whole {d : Duration} (h : (1000000 : Int) ∣ d) : (hoursOf d : ℚ) = (d : ℚ) / 3600000000000 := by
  obtain ⟨k, rfl⟩ := h
  have hmillis : numMilliseconds (1000000 * k) = k := Int.mul_tdiv_cancel_left k (by decide)
  show ((numMilliseconds (1000000 * k) : ℤ) : ℚ) / ((3600000 : ℕ) : ℚ) = _
  rw [hmillis]
  push_cast
  ring

variable {e g : ℚ} {samples : List (AggregateBurnSample ℚ)}

def intervalOf (p : SamplePair) : BurnInterval ℚ :=
  { elapsedHours := hoursBetween p, burnedFraction := burnBetween p, governedWorkersX2 := workersX2 p,
    splitInterval := true }

theorem hoursBetween_pos {p : SamplePair} (h : p.1.observedAt < p.2.observedAt) : 0 < hoursBetween p :=
  div_pos (Int.cast_pos.2 (Int.sub_pos_of_lt h)) (by norm_num)

theorem intervalOf_onLine {p : SamplePair} (hlater : p.1.observedAt < p.2.observedAt) (hfits : Fits e g p) :
    OnLine e g (intervalOf p) := ⟨hoursBetween_pos hlater, hfits.burn, rfl⟩

theorem consecutive_lt (h : samples.Pairwise (fun a b => a.observedAt < b.observedAt)) :
    ∀ p ∈ consecutive samples, p.1.observedAt < p.2.observedAt := by
  induction samples with
  | nil => exact fun _ hp => nomatch hp
  | cons a samples ih =>
    cases samples with
    | nil => exact fun _ hp => nomatch hp
    | cons b rest =>
      obtain ⟨hfirst, hrest⟩ := List.pairwise_cons.1 h
      have hpairs : consecutive (a :: b :: rest) = (a, b) :: consecutive (b :: rest) := rfl
      rw [hpairs]
      exact List.forall_mem_cons.2 ⟨hfirst b List.mem_cons_self, ih hrest⟩

/-- **The intervals are the consecutive samples**, none dropped and none clipped. -/
theorem burnIntervals_eq (he : 0 ≤ e) (hg : 0 < g)
    (hincreasing : samples.Pairwise (fun a b => a.observedAt < b.observedAt))
    (hfits : ∀ p ∈ consecutive samples, Fits e g p ∧ Counted p) :
    burnIntervals samples = (consecutive samples).map intervalOf := by
  induction samples with
  | nil => rfl
  | cons a samples ih =>
    cases samples with
    | nil => rfl
    | cons b rest =>
      obtain ⟨hfirst, hrest⟩ := List.pairwise_cons.1 hincreasing
      have hpairs : consecutive (a :: b :: rest) = (a, b) :: consecutive (b :: rest) := rfl
      rw [hpairs] at hfits ⊢
      obtain ⟨⟨hfit, hcounted⟩, hmore⟩ := List.forall_mem_cons.1 hfits
      have hhours : (hoursOf (b.observedAt - a.observedAt) : ℚ) = hoursBetween (a, b) := hoursOf_whole hcounted.whole
      have hpositive := hoursBetween_pos (p := (a, b)) (hfirst b List.mem_cons_self)
      have hburn : 0 ≤ burnBetween (a, b) := by
        rw [hfit.burn]
        positivity
      have hclipped : Flt.max (b.usedFraction - a.usedFraction) Flt.zero = burnBetween (a, b) := by
        rw [flt_max]
        exact max_eq_left hburn
      have hword : wrapAdd a.governedWorkers b.governedWorkers = workersX2 (a, b) :=
        Nat.mod_eq_of_lt (Nat.lt_succ_of_le hcounted.word)
      have hzero : ¬ hoursBetween (a, b) ≤ Flt.zero := not_le.2 hpositive
      rw [burnIntervals, hhours, if_neg hzero, hfit.generation, if_pos rfl, hclipped, hword, ih hrest hmore]
      rfl

/-- The hours of the intervals add up to those from the first sample to the last. -/
theorem sum_hoursBetween (start : AggregateBurnSample ℚ) (rest : List (AggregateBurnSample ℚ)) :
    ((consecutive (start :: rest)).map hoursBetween).sum =
      hoursBetween (start, (start :: rest).getLast (List.cons_ne_nil _ _)) := by
  induction rest generalizing start with
  | nil => simp [consecutive, hoursBetween]
  | cons next rest ih =>
    have hpairs : consecutive (start :: next :: rest) = (start, next) :: consecutive (next :: rest) := rfl
    rw [hpairs, List.map_cons, List.sum_cons, ih next, List.getLast_cons (List.cons_ne_nil _ _)]
    unfold hoursBetween
    push_cast
    ring

theorem whole_getLast {start : AggregateBurnSample ℚ} {rest : List (AggregateBurnSample ℚ)}
    (h : ∀ p ∈ consecutive (start :: rest), Counted p) :
    (1000000 : Int) ∣ ((start :: rest).getLast (List.cons_ne_nil _ _)).observedAt - start.observedAt := by
  induction rest generalizing start with
  | nil => simp
  | cons next rest ih =>
    have hpairs : consecutive (start :: next :: rest) = (start, next) :: consecutive (next :: rest) := rfl
    rw [hpairs] at h
    obtain ⟨hfirst, hrest⟩ := List.forall_mem_cons.1 h
    rw [List.getLast_cons (List.cons_ne_nil _ _)]
    have hsum := dvd_add (ih hrest) hfirst.whole
    rw [sub_add_sub_cancel] at hsum
    exact hsum

theorem day_le_hoursBetween {start last : AggregateBurnSample ℚ} {observedAt : DateTime}
    (hend : last.observedAt = observedAt) (hold : start.observedAt ≤ observedAt - hours 24) :
    24 ≤ hoursBetween (start, last) := by
  have hspan : (86400000000000 : Int) ≤ last.observedAt - start.observedAt := by
    rw [hend]
    exact le_sub_comm.1 hold
  have hcast : (86400000000000 : ℚ) ≤ ((last.observedAt - start.observedAt : Int) : ℚ) := by exact_mod_cast hspan
  unfold hoursBetween
  rw [le_div_iff₀ (by norm_num)]
  linarith

theorem flt_sum (xs : List ℚ) : Flt.sum xs = xs.sum := List.sum_eq_foldl.symm

variable {history : Option (List (AggregateBurnSample ℚ))} {window : QuotaWindow ℚ} {observedAt : DateTime}
  {workers : Nat} {older rest : List (AggregateBurnSample ℚ)} {start : AggregateBurnSample ℚ}

/-- The samples of the estimator, from the last that is a day old. -/
structure BaselineFrom (history : Option (List (AggregateBurnSample ℚ))) (window : QuotaWindow ℚ)
    (observedAt : DateTime) (workers : Nat) (older : List (AggregateBurnSample ℚ)) (start : AggregateBurnSample ℚ)
    (rest : List (AggregateBurnSample ℚ)) : Prop where
  samples : liveSamples history window observedAt workers = older ++ start :: rest
  increasing : (older ++ start :: rest).Pairwise (fun a b => a.observedAt < b.observedAt)
  old : start.observedAt ≤ observedAt - hours 24
  young : ∀ s ∈ rest, observedAt - hours 24 < s.observedAt

/-- **The estimate is that of the baseline's intervals.** -/
theorem estimateAggregateBurn_baseline (h : BaselineFrom history window observedAt workers older start rest)
    (hthree : 2 ≤ rest.length) {intervals : List (BurnInterval ℚ)}
    (hintervals : burnIntervals (start :: rest) = intervals) {total : ℚ}
    (htotal : hoursOf (((start :: rest).getLast (List.cons_ne_nil _ _)).observedAt - start.observedAt) = total)
    (hday : 24 ≤ total) (hmeasured : 0 < (intervals.map (·.burnedFraction)).sum) {exogenous : ℚ}
    (hexogenous : estimateExogenousBurn intervals ((intervals.map (·.burnedFraction)).sum / total) = some exogenous)
    (hworkers : 0 < (intervals.map workerHours).sum) :
    estimateAggregateBurn history window observedAt workers =
      some { aggregateBurnPerHour := (intervals.map (·.burnedFraction)).sum / total
             exogenousBurnPerHour := some exogenous
             governedWorkerBurnPerHour := some (max ((intervals.map (·.burnedFraction)).sum / total - exogenous) 0)
             perWorkerBurnPerHour :=
               some (max ((intervals.map (·.burnedFraction)).sum / total - exogenous) 0 * total /
                 (intervals.map workerHours).sum) } := by
  have hordered : orderedSamples history window observedAt workers = older ++ start :: rest := by
    rw [orderedSamples_eq (h.samples.symm ▸ h.increasing), h.samples]
  have hfirst : rposition (fun s : AggregateBurnSample ℚ => decide (s.observedAt ≤ observedAt - hours 24))
      (older ++ start :: rest) = some older.length :=
    rposition_append older (decide_eq_true h.old) fun s hs => decide_eq_false (Int.not_le.2 (h.young s hs))
  have hlength : ¬ (start :: rest).length < 3 := by
    rw [List.length_cons]
    omega
  have hlast := List.getLast?_eq_some_getLast (List.cons_ne_nil start rest)
  have hday' : ¬ total < (Flt.ofNat 24 : ℚ) := not_lt.2 hday
  have hpositive : (!Flt.isFinite (intervals.map (·.burnedFraction)).sum ||
      decide ((intervals.map (·.burnedFraction)).sum ≤ Flt.zero)) = false := by
    rw [Bool.or_eq_false_iff]
    exact ⟨rfl, decide_eq_false (not_le.2 hmeasured)⟩
  have hhours : intervals.map (fun i : BurnInterval ℚ => i.elapsedHours * Flt.ofNat i.governedWorkersX2 / Flt.ofNat 2) =
      intervals.map workerHours := rfl
  have hworkers' : (Flt.zero : ℚ) < (intervals.map workerHours).sum := hworkers
  unfold estimateAggregateBurn
  simp only [hordered, hfirst, Option.bind_eq_bind, Option.bind_some, List.drop_left, if_neg hlength, List.head?_cons,
    hlast, htotal, if_neg hday', hintervals, flt_sum, hpositive, hexogenous, hhours, Option.map_some, if_pos hworkers',
    flt_max]
  rfl

/-- **The split is exact on a baseline that fits**: the exogenous rate, the rate of a worker, what is left for the
workers, and the burn over the hours. -/
theorem estimateAggregateBurn_exact (he : 0 ≤ e) (hg : 0 < g)
    (hbaseline : BaselineFrom history window observedAt workers older start rest)
    (hfitted : FittedHistory e g observedAt (start :: rest)) (hcounted : ∀ p ∈ consecutive (start :: rest), Counted p) :
    ∃ estimate, estimateAggregateBurn history window observedAt workers = some estimate ∧
      estimate.exogenousBurnPerHour = some e ∧ estimate.perWorkerBurnPerHour = some g ∧
      estimate.governedWorkerBurnPerHour = some (estimate.aggregateBurnPerHour - e) ∧
      estimate.aggregateBurnPerHour = ((consecutive (start :: rest)).map burnBetween).sum /
        ((consecutive (start :: rest)).map hoursBetween).sum := by
  have hintervals := burnIntervals_eq he hg hfitted.increasing fun p hp => ⟨hfitted.fits p hp, hcounted p hp⟩
  have hlater := consecutive_lt hfitted.increasing
  have hsum := sum_hoursBetween start rest
  have hwhole := whole_getLast hcounted
  have hthree : 2 ≤ rest.length := Nat.le_of_succ_le_succ hfitted.three
  have hend : ((start :: rest).getLast (List.cons_ne_nil _ _)).observedAt = observedAt := by
    have hends := hfitted.ends
    rw [List.getLast?_eq_some_getLast (List.cons_ne_nil _ _), Option.map_some, Option.some.injEq] at hends
    exact hends
  obtain ⟨p, hp, q, hq, hdistinct⟩ := hfitted.distinct
  generalize hpairs : consecutive (start :: rest) = pairs at *
  generalize hlast : (start :: rest).getLast (List.cons_ne_nil _ _) = last at *
  have honline : ∀ i ∈ pairs.map intervalOf, OnLine e g i := by
    intro i hi
    obtain ⟨r, hr, rfl⟩ := List.mem_map.1 hi
    exact intervalOf_onLine (hlater r hr) (hfitted.fits r (hpairs ▸ hr))
  have hhours : ((pairs.map intervalOf).map (·.elapsedHours)).sum = (pairs.map hoursBetween).sum := by
    rw [List.map_map]
    rfl
  have hburned : ((pairs.map intervalOf).map (·.burnedFraction)).sum = (pairs.map burnBetween).sum := by
    rw [List.map_map]
    rfl
  have htotal : hoursOf (last.observedAt - start.observedAt) = (pairs.map hoursBetween).sum := by
    rw [hsum]
    exact hoursOf_whole hwhole
  have hday : 24 ≤ (pairs.map hoursBetween).sum := by
    rw [hsum]
    exact day_le_hoursBetween hend hbaseline.old
  have hworkers := sum_workerHours_pos honline (List.mem_map_of_mem hp) (List.mem_map_of_mem hq) hdistinct
  have hparts := sum_burned honline
  rw [hhours] at hparts
  obtain ⟨hmeasured, hwithin, hpart, hrate⟩ := rates_of_burn he hg (lt_of_lt_of_le (by norm_num) hday) hworkers hparts
  have hexogenous := estimateExogenousBurn_onLine he hg hwithin honline (List.mem_map_of_mem hp)
    (List.mem_map_of_mem hq) hdistinct
  rw [← hlast] at htotal
  refine ⟨_, estimateAggregateBurn_baseline hbaseline hthree hintervals htotal hday hmeasured hexogenous hworkers, rfl,
    ?_, ?_, ?_⟩
  · rw [hpart, hrate]
  · rw [hpart]
  · rw [hburned]

end Baseline

/-! ### Histories that fit -/

instance (e g : ℚ) (p : SamplePair) : Decidable (Fits e g p) :=
  decidable_of_iff (sameResetGeneration p.1.resetsAt p.2.resetsAt = true ∧
    burnBetween p = hoursBetween p * (e + g * (workersX2 p / 2))) ⟨fun h => ⟨h.1, h.2⟩, fun h => ⟨h.1, h.2⟩⟩

instance (p : SamplePair) : Decidable (Counted p) :=
  decidable_of_iff ((1000000 : Int) ∣ p.2.observedAt - p.1.observedAt ∧ workersX2 p ≤ u32Max)
    ⟨fun h => ⟨h.1, h.2⟩, fun h => ⟨h.1, h.2⟩⟩

/-- The samples at these times and counts that burn `e` and `g` for each worker. -/
def fitted (e g : ℚ) : AggregateBurnSample ℚ → List (DateTime × Nat) → List (AggregateBurnSample ℚ)
  | s, [] => [s]
  | s, (time, count) :: rest =>
    let next : AggregateBurnSample ℚ := { s with observedAt := time, governedWorkers := count }
    s :: fitted e g { next with usedFraction :=
      s.usedFraction + hoursBetween (s, next) * (e + g * (workersX2 (s, next) / 2)) } rest

def firstSample (count : Nat) : AggregateBurnSample ℚ :=
  { observedAt := 0, usedFraction := 0, resetsAt := hours 100, governedWorkers := count }

/-- Two loads, but only two samples from the last that is a day old. -/
def sparseHistory : List (AggregateBurnSample ℚ) :=
  fitted (1 / 100) (1 / 1000) (firstSample 0) [(hours 1, 2), (hours 24, 0), (hours 48, 0)]

/-- Two intervals of half a millisecond more than twelve hours. -/
def fineHistory : List (AggregateBurnSample ℚ) :=
  fitted (1 / 100) (1 / 1000) (firstSample 0) [(hours 12 + 500000, 1), (hours 24 + 1000000, 2)]

/-- Two counts whose sum is no word. -/
def wideHistory : List (AggregateBurnSample ℚ) :=
  fitted (1 / 100) (1 / 1000000000000) (firstSample u32Max) [(hours 12, 1), (hours 24, 0)]

/-- **A history that fits is not enough**: the day's baseline may be too short for an estimate, fractions of a
millisecond are dropped, and the sum of two counts wraps. -/
theorem estimateAggregateBurn_inexact :
    (FittedHistory (1 / 100) (1 / 1000) (hours 48) sparseHistory ∧
      liveSamples (some sparseHistory) exactWeek (hours 48) 0 = sparseHistory ∧
      (estimateAggregateBurn (some sparseHistory) exactWeek (hours 48) 0).isNone = true) ∧
    (FittedHistory (1 / 100) (1 / 1000) (hours 24 + 1000000) fineHistory ∧
      liveSamples (some fineHistory) exactWeek (hours 24 + 1000000) 2 = fineHistory ∧
      (estimateAggregateBurn (some fineHistory) exactWeek (hours 24 + 1000000) 2).bind (·.exogenousBurnPerHour) ≠
        some (1 / 100)) ∧
    (FittedHistory (1 / 100) (1 / 1000000000000) (hours 24) wideHistory ∧
      liveSamples (some wideHistory) exactWeek (hours 24) 0 = wideHistory ∧
      (estimateAggregateBurn (some wideHistory) exactWeek (hours 24) 0).bind (·.exogenousBurnPerHour) ≠
        some (1 / 100)) := by
  refine ⟨⟨⟨?_, ?_, ?_, ?_, ?_, ?_⟩, ?_, ?_⟩, ⟨⟨?_, ?_, ?_, ?_, ?_, ?_⟩, ?_, ?_⟩,
      ⟨⟨?_, ?_, ?_, ?_, ?_, ?_⟩, ?_, ?_⟩⟩ <;>
    decide +kernel

/-- The sample before the last day of `dayRest`. -/
def dayStart : AggregateBurnSample ℚ :=
  { observedAt := hours 12, usedFraction := 132 / 1000, resetsAt := hours 100, governedWorkers := 2 }

def dayRest : List (AggregateBurnSample ℚ) :=
  (fitted (1 / 100) (1 / 1000) dayStart [(hours 24, 4), (hours 36, 1)]).tail

def dayWindow : QuotaWindow ℚ := { exactWeek with usedFraction := 438 / 1000, resetsAt := hours 100 }

/-- Three recorded samples, the first of them older than the baseline, and the reading. -/
theorem estimateAggregateBurn_exact_day :
    ∃ estimate, estimateAggregateBurn (some (firstSample 0 :: dayStart :: dayRest.take 1)) dayWindow (hours 36) 1 =
        some estimate ∧
      estimate.exogenousBurnPerHour = some (1 / 100) ∧ estimate.perWorkerBurnPerHour = some (1 / 1000) ∧
      estimate.governedWorkerBurnPerHour = some (estimate.aggregateBurnPerHour - 1 / 100) ∧
      estimate.aggregateBurnPerHour = ((consecutive (dayStart :: dayRest)).map burnBetween).sum /
        ((consecutive (dayStart :: dayRest)).map hoursBetween).sum := by
  have hbaseline : BaselineFrom (some (firstSample 0 :: dayStart :: dayRest.take 1)) dayWindow (hours 36) 1
      [firstSample 0] dayStart dayRest :=
    ⟨by decide +kernel, by decide +kernel, by decide +kernel, by decide +kernel⟩
  have hfitted : FittedHistory (1 / 100) (1 / 1000) (hours 36) (dayStart :: dayRest) :=
    ⟨by decide +kernel, by decide +kernel, by decide +kernel, by decide +kernel, by decide +kernel, by decide +kernel⟩
  have hcounted : ∀ p ∈ consecutive (dayStart :: dayRest), Counted p := by decide +kernel
  exact estimateAggregateBurn_exact (by decide +kernel) (by decide +kernel) hbaseline hfitted hcounted

end Subgov
