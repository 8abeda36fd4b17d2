import Subgov.Lib.Rounding
import Subgov.SharedTotal
import Subgov.WindowOrder
/-!
# SampleOrder — when the shared derivation depends on who assembled it

The freshest sample is the last of those that none precedes, and the precedence reads no reset.  So the total is the
same for every order of the hosts and the samples exactly when the samples that tie for freshest agree on their reset,
and on their fraction too unless another sample is so far above them that its own is taken.
-/
namespace Subgov

open FloatArith

variable {F : Type} [Flt F]

/-! ## The samples that tie for freshest -/

/-- A sample that none of the list precedes. -/
def Freshest (samples : List (PeerQuotaSample F)) (s : PeerQuotaSample F) : Prop :=
  s ∈ samples ∧ ∀ t ∈ samples, samplePrecedence t s ≠ .gt

/-- The fraction taken from a freshest one: its own, or the largest of the list when that is too far above it. -/
def takenFraction (samples : List (PeerQuotaSample F)) (base : F) : F :=
  let largest := (samples.filter (fun s => Flt.isFinite s.usedFraction)).foldl
    (fun largest s => Flt.max largest s.usedFraction) base
  if (sampleDisagreementFraction : F) < largest - base then largest else base

/-- The samples that tie for freshest have one reset, and one fraction unless another is too far above it. -/
structure TiesAgree (samples : List (PeerQuotaSample F)) : Prop where
  resets : ∀ s t, Freshest samples s → Freshest samples t → s.resetsAt = t.resetsAt
  fraction : ∀ s t, Freshest samples s → Freshest samples t → s.usedFraction = t.usedFraction ∨
    ∃ u ∈ samples, (sampleDisagreementFraction : F) < u.usedFraction - s.usedFraction

/-- The samples that tie for freshest have one reset, and one fraction is taken from them. -/
structure TakenAlike (samples : List (PeerQuotaSample F)) : Prop where
  resets : ∀ s t, Freshest samples s → Freshest samples t → s.resetsAt = t.resetsAt
  fraction : ∀ s t, Freshest samples s → Freshest samples t →
    takenFraction samples s.usedFraction = takenFraction samples t.usedFraction

variable {xs ys : List (PeerQuotaSample F)}

theorem freshestUsedFraction_of {s : PeerQuotaSample F} (h : freshestSample xs = some s) :
    freshestUsedFraction xs = some (takenFraction xs s.usedFraction) := by
  unfold freshestUsedFraction
  rw [h]
  rfl

theorem Freshest.perm {s : PeerQuotaSample F} (hperm : xs.Perm ys) (h : Freshest xs s) : Freshest ys s :=
  ⟨hperm.mem_iff.1 h.1, fun t ht => h.2 t (hperm.mem_iff.2 ht)⟩

/-- The chosen sample is a freshest one. -/
theorem freshest_of_freshestSample [OrderedFlt F] (hfinite : ∀ s ∈ xs, Flt.isFinite s.usedFraction = true)
    {s : PeerQuotaSample F} (h : freshestSample xs = some s) : Freshest xs s := by
  obtain ⟨pos, hpos⟩ := @exists_precedenceBy F _ _
  have hmem : s ∈ xs := Select.maxBy_mem h
  refine ⟨hmem, fun t ht => ?_⟩
  have hcmp : ∀ a ∈ xs, ∀ b ∈ xs, samplePrecedence a b = precedenceBy pos a b :=
    fun a ha b hb => (hpos a b (hfinite a ha) (hfinite b hb)).1
  unfold freshestSample at h
  rw [Select.maxBy_congr hcmp] at h
  rw [hcmp t ht s hmem]
  exact Ordering.isLE_iff_ne_gt.1 (Select.maxBy_isLE h t ht)

/-- Any freshest sample is chosen when it comes last. -/
theorem freshestSample_concat {s : PeerQuotaSample F} {samples : List (PeerQuotaSample F)}
    (hperm : xs.Perm (samples ++ [s])) (h : Freshest xs s) : freshestSample (samples ++ [s]) = some s :=
  Select.maxBy_concat fun t ht => h.2 t (hperm.mem_iff.2 (List.mem_append_left _ ht))

/-- **Samples that tie for freshest are of one instant and one window**, and their fractions compare as equal. -/
theorem Freshest.same [OrderedFlt F] (hfinite : ∀ s ∈ xs, Flt.isFinite s.usedFraction = true) {s t : PeerQuotaSample F}
    (hs : Freshest xs s) (ht : Freshest xs t) :
    s.observedAt = t.observedAt ∧ s.window = t.window ∧ Flt.beq s.usedFraction t.usedFraction = true := by
  obtain ⟨pos, hpos⟩ := @exists_precedenceBy F _ _
  obtain ⟨hprecedence, hbeq⟩ := hpos s t (hfinite s hs.1) (hfinite t ht.1)
  have hst := ht.2 s hs.1
  have hts := hs.2 t ht.1
  rw [hprecedence] at hst
  rw [(hpos t s (hfinite t ht.1) (hfinite s hs.1)).1] at hts
  have htie : precedenceBy pos s t = .eq :=
    Std.OrientedCmp.isLE_antisymm (Ordering.isLE_iff_ne_gt.2 hst) (Ordering.isLE_iff_ne_gt.2 hts)
  unfold precedenceBy at htie
  simp only [compareLex_eq_eq, compareOn] at htie
  exact ⟨Int.compare_eq_eq.1 htie.1, (Std.LawfulEqCmp.compare_eq_iff_eq.1 htie.2.2).symm,
    hbeq.2 (Int.compare_eq_eq.1 htie.2.1)⟩

/-! ## One derivation -/

/-- The snapshot of one sample, with the fraction taken. -/
def sampleSnapshot (s : PeerQuotaSample F) (used : F) : QuotaSnapshot F where
  observedAt := s.observedAt
  fresh := true
  windows :=
    [{ id := s.window, usedFraction := used, resetsAt := s.resetsAt, durationMinutes := none, reached := false }]
  eligibleBacklogCapacity := none
  resetCredits := none
  backpressure := none
  saturation := none

theorem sharedSnapshot_of {s : PeerQuotaSample F} (h : freshestSample xs = some s) (now : DateTime) :
    sharedSnapshot xs now = sampleSnapshot s (takenFraction xs s.usedFraction) := by
  unfold sharedSnapshot
  rw [freshestUsedFraction_of h, h]
  rfl

theorem takenFraction_perm [OrderedFlt F] (hfinite : ∀ s ∈ xs, Flt.isFinite s.usedFraction = true) (hperm : xs.Perm ys)
    {base : F} (hbase : Flt.isFinite base = true) : takenFraction xs base = takenFraction ys base := by
  have hlargest : ∀ zs : List (PeerQuotaSample F), (∀ s ∈ zs, Flt.isFinite s.usedFraction = true) →
      (zs.filter (fun s => Flt.isFinite s.usedFraction)).foldl (fun largest s => Flt.max largest s.usedFraction) base =
        (zs.map (·.usedFraction)).foldl Flt.max base := by
    intro zs hz
    rw [List.filter_eq_self.2 hz, List.foldl_map]
  have hfinite' : ∀ s ∈ ys, Flt.isFinite s.usedFraction = true := fun s hs => hfinite s (hperm.mem_iff.2 hs)
  have hall : ∀ y ∈ base :: xs.map (·.usedFraction), Flt.isFinite y = true := by
    intro y hy
    rcases List.mem_cons.1 hy with rfl | hy
    · exact hbase
    · obtain ⟨s, hs, rfl⟩ := List.mem_map.1 hy
      exact hfinite s hs
  unfold takenFraction
  rw [hlargest xs hfinite, hlargest ys hfinite',
    SameSamples.foldl_max_eq base (fun _ => (hperm.map _).mem_iff) hall]

theorem freshestSample_eq_none : freshestSample xs = none ↔ xs = [] := by
  cases xs with
  | nil => exact iff_of_true rfl rfl
  | cons s xs => exact iff_of_false nofun nofun

/-- Orders of the same samples take one fraction at one instant, window and reset, if the samples that tie agree. -/
theorem TakenAlike.sharedSnapshot_eq [OrderedFlt F] (hagree : TakenAlike xs)
    (hfinite : ∀ s ∈ xs, Flt.isFinite s.usedFraction = true) (hperm : xs.Perm ys) (now : DateTime) :
    sharedSnapshot ys now = sharedSnapshot xs now ∧ freshestUsedFraction ys = freshestUsedFraction xs := by
  have hfinite' : ∀ s ∈ ys, Flt.isFinite s.usedFraction = true := fun s hs => hfinite s (hperm.mem_iff.2 hs)
  cases hxs : freshestSample xs with
  | none =>
    have hempty := freshestSample_eq_none.1 hxs
    rw [hempty] at hperm
    rw [hempty, hperm.symm.eq_nil]
    exact ⟨rfl, rfl⟩
  | some s =>
    cases hys : freshestSample ys with
    | none =>
      have hempty := freshestSample_eq_none.1 hys
      rw [hempty] at hperm
      rw [hperm.eq_nil] at hxs
      cases hxs
    | some t =>
      have hs := freshest_of_freshestSample hfinite hxs
      have ht : Freshest xs t := (freshest_of_freshestSample hfinite' hys).perm hperm.symm
      obtain ⟨hobserved, hwindow, -⟩ := hs.same hfinite ht
      have hreset := hagree.resets s t hs ht
      have hfraction : takenFraction ys t.usedFraction = takenFraction xs s.usedFraction := by
        rw [hagree.fraction s t hs ht, takenFraction_perm hfinite hperm (hfinite t ht.1)]
      rw [sharedSnapshot_of hxs, sharedSnapshot_of hys, freshestUsedFraction_of hxs, freshestUsedFraction_of hys,
        hfraction]
      unfold sampleSnapshot
      rw [hobserved, hwindow, hreset]
      exact ⟨rfl, rfl⟩

/-- The derivation is the same for every order of these samples and of any hosts. -/
def OrderFree (samples : List (PeerQuotaSample F)) : Prop :=
  ∀ (name : String) (config : AccountConfig F) (prior : AccountState F) (now : DateTime)
    (hosts hosts' : List FederationHost) (samples' : List (PeerQuotaSample F)),
    (hosts.map (·.hostId)).Nodup → hosts.Perm hosts' → samples.Perm samples' →
    sharedAccountTotal name config prior hosts' samples' now = sharedAccountTotal name config prior hosts samples now

theorem TakenAlike.orderFree [OrderedFlt F] (hagree : TakenAlike xs)
    (hfinite : ∀ s ∈ xs, Flt.isFinite s.usedFraction = true) : OrderFree xs := by
  intro name config prior now hosts hosts' samples' hdistinct hhosts hsamples
  obtain ⟨hsnapshot, hfraction⟩ := hagree.sharedSnapshot_eq hfinite hsamples now
  have hsame : SameHosts hosts hosts' := ⟨hhosts, hdistinct⟩
  unfold sharedAccountTotal
  rw [hsnapshot, hfraction, hsame.sharedDenominator_eq]
  simp only [hsame.splitAccountTotal_eq]

/-! ## Exactly then -/

section Taken

variable {samples : List (PeerQuotaSample F64)} (hfraction : ∀ s ∈ samples, isFraction s.usedFraction = true)

include hfraction

theorem fraction_finite {s : PeerQuotaSample F64} (hs : s ∈ samples) : s.usedFraction.isFinite = true :=
  isFinite_of_isFraction (hfraction s hs)

theorem fraction_position {s : PeerQuotaSample F64} (hs : s ∈ samples) : 0 ≤ s.usedFraction.position := by
  have hwithin := hfraction s hs
  unfold isFraction Flt.within at hwithin
  simp only [Bool.and_eq_true, decide_eq_true_eq] at hwithin
  exact F64.zero_position ▸ ((F64.le_iff _ _).1 hwithin.2.1).2.2

/-- Two that compare as equal and differ are the two zeros. -/
theorem word_zero_of_tie {s t : PeerQuotaSample F64} (hs : Freshest samples s) (ht : Freshest samples t)
    (hne : s.usedFraction ≠ t.usedFraction) : s.usedFraction.word = 0 ∧ t.usedFraction.word = 0 := by
  obtain ⟨-, -, hbeq⟩ := hs.same (fun u hu => fraction_finite hfraction hu) ht
  have hposition : s.usedFraction.position = t.usedFraction.position := by
    have hbeq : F64.beq s.usedFraction t.usedFraction = true := hbeq
    unfold F64.beq at hbeq
    rw [Bool.and_eq_true, decide_eq_true_eq] at hbeq
    exact hbeq.2
  refine ⟨?_, ?_⟩
  · by_contra hword
    exact hne (F64.eq_of_position (fraction_position hfraction hs.1) hposition hword)
  · by_contra hword
    exact hne (F64.eq_of_position (fraction_position hfraction ht.1) hposition.symm hword).symm

/-- What the largest fraction is compared with: it covers the samples and is one of theirs. -/
theorem largest_spec {s : PeerQuotaSample F64} (hs : s ∈ samples) :
    (∀ t ∈ samples,
      t.usedFraction.totalPosition ≤ ((samples.map (·.usedFraction)).foldl F64.max s.usedFraction).totalPosition) ∧
    ∃ u ∈ samples, u.usedFraction = (samples.map (·.usedFraction)).foldl F64.max s.usedFraction := by
  obtain ⟨-, -, hcovers, hone⟩ := F64.foldl_max_spec (samples.map (·.usedFraction))
    (F64.isNaN_of_isFinite (fraction_finite hfraction hs))
  refine ⟨fun t ht => ?_, ?_⟩
  · rcases hcovers _ (List.mem_map_of_mem ht) with hnan | hle
    · rw [F64.isNaN_of_isFinite (fraction_finite hfraction ht)] at hnan
      cases hnan
    · exact hle
  · rcases hone with hself | hmem
    · exact ⟨s, hs, hself.symm⟩
    · exact List.mem_map.1 hmem

/-- **There is one largest fraction**, whichever of the samples it is looked for from. -/
theorem exists_largest {s₀ : PeerQuotaSample F64} (h₀ : s₀ ∈ samples) : ∃ u ∈ samples, ∀ s ∈ samples,
    s.usedFraction.position ≤ u.usedFraction.position ∧
    takenFraction samples s.usedFraction =
      if (sampleDisagreementFraction : F64) < u.usedFraction - s.usedFraction then u.usedFraction
      else s.usedFraction := by
  obtain ⟨hcovers, u, hu, hlargest⟩ := largest_spec hfraction h₀
  refine ⟨u, hu, fun s hs => ?_⟩
  obtain ⟨hcovers', u', hu', hlargest'⟩ := largest_spec hfraction hs
  rw [← hlargest] at hcovers
  rw [← hlargest'] at hcovers'
  have hsame : u'.usedFraction = u.usedFraction :=
    F64.totalPosition_injective (Int.le_antisymm (hcovers u' hu') (hcovers' u hu))
  refine ⟨F64.position_le_of_totalPosition_le (hcovers s hs), ?_⟩
  have hfinite : samples.filter (fun t => Flt.isFinite t.usedFraction) = samples :=
    List.filter_eq_self.2 fun t ht => fraction_finite hfraction ht
  have hfold : samples.foldl (fun largest t => Flt.max largest t.usedFraction) s.usedFraction = u.usedFraction := by
    rw [← hsame, hlargest', List.foldl_map]
    rfl
  unfold takenFraction
  rw [hfinite, hfold]

/-- **Which fraction is taken does not matter** only where the two are one, or both lie too far below another. -/
theorem takenFraction_eq_iff {s t : PeerQuotaSample F64} (hs : Freshest samples s) (ht : Freshest samples t) :
    takenFraction samples s.usedFraction = takenFraction samples t.usedFraction ↔
      s.usedFraction = t.usedFraction ∨
        ∃ u ∈ samples, (sampleDisagreementFraction : F64) < u.usedFraction - s.usedFraction := by
  by_cases heq : s.usedFraction = t.usedFraction
  · exact iff_of_true (congrArg _ heq) (.inl heq)
  obtain ⟨hszero, htzero⟩ := word_zero_of_tie hfraction hs ht heq
  -- less either zero a fraction is itself, rounded
  have habove : ∀ {z : F64}, z.word = 0 → ∀ u ∈ samples, ((sampleDisagreementFraction : F64) < u.usedFraction - z ↔
      (sampleDisagreementFraction : F64).position < F64.roundWord (F64.magnitude u.usedFraction.word) 1) := by
    intro z hz u hu
    obtain ⟨hnan, hposition⟩ := F64.sub_zero_position (fraction_finite hfraction hu) (fraction_position hfraction hu) hz
    rw [F64.lt_iff, hposition]
    exact ⟨fun h => h.2.2, fun h => ⟨by decide +kernel, hnan, h⟩⟩
  obtain ⟨u, hu, hlargest⟩ := exists_largest hfraction hs.1
  rw [(hlargest s hs.1).2, (hlargest t ht.1).2, if_congr (habove hszero u hu) rfl rfl,
    if_congr (habove htzero u hu) rfl rfl]
  split
  · rename_i hfar
    exact iff_of_true rfl (.inr ⟨u, hu, (habove hszero u hu).2 hfar⟩)
  · rename_i hnear
    refine iff_of_false heq (not_or.2 ⟨heq, ?_⟩)
    rintro ⟨v, hv, hfar⟩
    have hle := (hlargest v hv).1
    rw [F64.word_of_position (fraction_position hfraction hv), F64.word_of_position (fraction_position hfraction hu)] at hle
    have hround := F64.roundWord_mono Nat.one_pos (F64.magnitude_mono (Int.ofNat_le.1 hle))
    have hposition := (habove hszero v hv).1 hfar
    omega

theorem tiesAgree_iff : TiesAgree samples ↔ TakenAlike samples :=
  ⟨fun h => ⟨h.resets, fun s t hs ht => (takenFraction_eq_iff hfraction hs ht).2 (h.fraction s t hs ht)⟩,
    fun h => ⟨h.resets, fun s t hs ht => (takenFraction_eq_iff hfraction hs ht).1 (h.fraction s t hs ht)⟩⟩

end Taken

/-- An account that runs nothing below its ceiling, and two more a cycle until the reset is due. -/
def tieAccount (span : Nat) : AccountConfig F64 :=
  { pacedAccount with
    utilization := { pacedUtilization with
      targetUtilization := some (Flt.ofNat 2)
      strategy := .ceilingOnly
      staleAfterSeconds := span
      targetGiven := Or.inl rfl }
    bankedResets := { pacedAccount.bankedResets with enabled := false } }

theorem isFraction_lt_two {x : F64} (h : isFraction x = true) : ¬ (Flt.ofNat 2 : F64) ≤ x := by
  unfold isFraction Flt.within at h
  simp only [Bool.and_eq_true, decide_eq_true_eq] at h
  obtain ⟨-, -, hone⟩ := h
  intro htwo
  rw [F64.le_iff] at hone htwo
  have hpositions : (Flt.ofNat 1 : F64).position < (Flt.ofNat 2 : F64).position := by decide +kernel
  omega

/-- The fraction taken from fractions is one. -/
theorem isFraction_takenFraction {xs : List (PeerQuotaSample F64)} (h : ∀ s ∈ xs, isFraction s.usedFraction = true)
    {base : F64} (hbase : isFraction base = true) : isFraction (takenFraction xs base) = true := by
  have hnan : base.isNaN = false := F64.isNaN_of_isFinite (isFinite_of_isFraction hbase)
  obtain ⟨-, -, -, hmem⟩ := F64.foldl_max_spec ((xs.filter (fun s => Flt.isFinite s.usedFraction)).map (·.usedFraction))
    hnan
  rw [List.foldl_map] at hmem
  unfold takenFraction
  dsimp only
  split
  · rcases hmem with hsame | hmem
    · exact (congrArg isFraction hsame).trans hbase
    · obtain ⟨s, hs, hused⟩ := List.mem_map.1 hmem
      exact (congrArg isFraction hused).symm.trans (h s (List.mem_of_mem_filter hs))
  · exact hbase

/-- A stopped fleet under that account starts two exactly while the reset is ahead. -/
theorem evaluate_tieAccount (s : PeerQuotaSample F64) {used : F64} (hused : isFraction used = true) (now : DateTime) :
    (evaluate "codex" (tieAccount (ageSeconds (now - s.observedAt))) (sampleSnapshot s used) {} 0 now).map
      (·.desiredWorkers) = .ok (if s.resetsAt ≤ now then 0 else 2) := by
  have hlow : ¬ (Flt.ofNat 2 : F64) ≤ used := isFraction_lt_two hused
  generalize hspan : ageSeconds (now - s.observedAt) = span
  have hfresh : isStale (tieAccount span) (sampleSnapshot s used) now = false := by
    show (!true || decide (span < ageSeconds (now - s.observedAt))) = false
    rw [hspan]
    simp
  have hpolicy : (tieAccount span).utilization.policyFor s.window =
      some { burnRateWindowSeconds := none, target := Flt.ofNat 2, strategy := .ceilingOnly } := by
    unfold UtilizationConfig.policyFor tieAccount pacedUtilization
    dsimp only
    rw [Std.ExtTreeMap.getElem?_empty]
    rfl
  have hraw : (windowRaw (tieAccount span) (sampleSnapshot s used) {} 0 now
      { burnRateWindowSeconds := none, target := Flt.ofNat 2, strategy := .ceilingOnly } (Flt.ofNat 2)
      { id := s.window, usedFraction := used, resetsAt := s.resetsAt, durationMinutes := none, reached := false }).1 =
        if s.resetsAt ≤ now then 0 else 10 := by
    rw [windowRaw_ceiling rfl]
    exact if_neg (not_or.2 ⟨Bool.false_ne_true, hlow⟩)
  rw [evaluate_single "codex" _ _ rfl rfl hpolicy hfresh, hraw]
  split
  · rfl
  · rfl

theorem exists_concat_perm {α : Type} {xs : List α} {x : α} (h : x ∈ xs) : ∃ rest, xs.Perm (rest ++ [x]) := by
  obtain ⟨before, after, rfl⟩ := List.append_of_mem h
  exact ⟨before ++ after, List.perm_middle.trans (List.perm_append_singleton x (before ++ after)).symm⟩

/-- **A derivation for no host shows the freshest sample that comes last.** -/
theorem sharedAccountTotal_concat {xs rest : List (PeerQuotaSample F64)}
    (hfraction : ∀ s ∈ xs, isFraction s.usedFraction = true) {s : PeerQuotaSample F64} (hperm : xs.Perm (rest ++ [s]))
    (hs : Freshest xs s) (now : DateTime) :
    (sharedAccountTotal "codex" (tieAccount (ageSeconds (now - s.observedAt))) {} [] (rest ++ [s]) now).map
        (fun d => (d.total, d.usedFraction)) =
      .ok (if s.resetsAt ≤ now then 0 else 2, some (takenFraction xs s.usedFraction)) := by
  have hfinite : ∀ t ∈ xs, Flt.isFinite t.usedFraction = true := fun t ht => isFinite_of_isFraction (hfraction t ht)
  have hlast := freshestSample_concat hperm hs
  have htaken := takenFraction_perm hfinite hperm (hfinite s hs.1)
  have hevaluated := evaluate_tieAccount s (isFraction_takenFraction hfraction (hfraction s hs.1)) now
  unfold sharedAccountTotal
  rw [sharedSnapshot_of hlast, freshestUsedFraction_of hlast, ← htaken]
  generalize hresult : evaluate "codex" (tieAccount (ageSeconds (now - s.observedAt)))
    (sampleSnapshot s (takenFraction xs s.usedFraction)) {} (sharedDenominator []) now = result
  have hzero : sharedDenominator [] = 0 := rfl
  rw [hzero] at hresult
  rw [hresult] at hevaluated
  cases result with
  | error e => cases hevaluated
  | ok d =>
    have hdesired : d.desiredWorkers = if s.resetsAt ≤ now then 0 else 2 := Except.ok.inj hevaluated
    rw [← hdesired]
    rfl

/-- **The derivation is the same for every order exactly when the samples that tie for freshest agree.** -/
theorem orderFree_iff {samples : List (PeerQuotaSample F64)}
    (hfraction : ∀ s ∈ samples, isFraction s.usedFraction = true) : OrderFree samples ↔ TiesAgree samples := by
  have hfinite : ∀ t ∈ samples, Flt.isFinite t.usedFraction = true :=
    fun t ht => isFinite_of_isFraction (hfraction t ht)
  rw [tiesAgree_iff hfraction]
  refine ⟨fun hfree => ?_, fun hagree => hagree.orderFree hfinite⟩
  -- at the reset of one of two tied samples, either may be the last of the list
  have hboth : ∀ s t, Freshest samples s → Freshest samples t → ∀ now : DateTime,
      (if s.resetsAt ≤ now then 0 else 2, some (takenFraction samples s.usedFraction)) =
        ((if t.resetsAt ≤ now then 0 else 2, some (takenFraction samples t.usedFraction)) : Nat × Option F64) := by
    intro s t hs ht now
    obtain ⟨before, hbefore⟩ := exists_concat_perm hs.1
    obtain ⟨after, hafter⟩ := exists_concat_perm ht.1
    have hshows := sharedAccountTotal_concat hfraction hbefore hs now
    have hshows' := sharedAccountTotal_concat hfraction hafter ht now
    rw [(hs.same hfinite ht).1] at hshows
    rw [hfree _ _ _ _ [] [] _ List.nodup_nil (List.Perm.refl _) hbefore] at hshows
    rw [hfree _ _ _ _ [] [] _ List.nodup_nil (List.Perm.refl _) hafter] at hshows'
    exact Except.ok.inj (hshows.symm.trans hshows')
  have hle : ∀ s t, Freshest samples s → Freshest samples t → t.resetsAt ≤ s.resetsAt := by
    intro s t hs ht
    have htotals := congrArg Prod.fst (hboth s t hs ht s.resetsAt)
    dsimp only at htotals
    rw [if_pos (Int.le_refl _)] at htotals
    by_contra hlater
    rw [if_neg hlater] at htotals
    cases htotals
  exact ⟨fun s t hs ht => Int.le_antisymm (hle t s ht hs) (hle s t hs ht),
    fun s t hs ht => Option.some.inj (congrArg Prod.snd (hboth s t hs ht 0))⟩

/-! ### Two readings of five hours -/

def ceilingAccount : AccountConfig F64 :=
  { tieAccount 600 with utilization := { pacedUtilization with strategy := .ceilingOnly } }

def reading (resetsAt : DateTime) : PeerQuotaSample F64 where
  window := "5h"
  usedFraction := Flt.ofRat (1 / 2)
  resetsAt
  observedAt := hours 1

/-- Two readings of one instant that differ in their reset: with one last the fleet stays stopped, with the other it
starts two. -/
theorem sharedAccountTotal_order_matters :
    ¬ ∀ (name : String) (config : AccountConfig F64) (prior : AccountState F64) (now : DateTime)
      (hosts hosts' : List FederationHost) (samples samples' : List (PeerQuotaSample F64)),
      config.validate name = .ok () → (hosts.map (·.hostId)).Nodup →
      (∀ s ∈ samples, isFraction s.usedFraction = true) → hosts.Perm hosts' → samples.Perm samples' →
      sharedAccountTotal name config prior hosts' samples' now =
        sharedAccountTotal name config prior hosts samples now := by
  intro hall
  have h := hall "codex" ceilingAccount {} (hours 1) [] [] [reading (hours 1), reading (hours 5)]
    [reading (hours 5), reading (hours 1)] (by decide +kernel) List.nodup_nil (by decide +kernel) (List.Perm.refl _)
    (List.Perm.swap _ _ _)
  have hlater : (sharedAccountTotal "codex" ceilingAccount {} [] [reading (hours 1), reading (hours 5)] (hours 1)).map
      (·.total) = .ok 2 := by decide +kernel
  have hdue : (sharedAccountTotal "codex" ceilingAccount {} [] [reading (hours 5), reading (hours 1)] (hours 1)).map
      (·.total) = .ok 0 := by decide +kernel
  rw [h, hlater] at hdue
  cases hdue

/-- One reading is its own freshest. -/
theorem orderFree_reading : OrderFree [reading (hours 5)] := by
  have hone : ∀ s, Freshest [reading (hours 5)] s → s = reading (hours 5) := fun s hs => List.mem_singleton.1 hs.1
  refine (orderFree_iff (by decide +kernel)).2 ⟨fun s t hs ht => ?_, fun s t hs ht => ?_⟩
  · rw [hone s hs, hone t ht]
  · exact .inl (by rw [hone s hs, hone t ht])

end Subgov
