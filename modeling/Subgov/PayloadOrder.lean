import Mathlib.Data.List.Forall2
import Subgov.Lib.Rounding
import Subgov.ProviderPayload
import Subgov.WindowOrder
/-!
# PayloadOrder — a higher reading in a provider's payload

Two payloads that differ only in higher percentages are normalised to the same windows with higher fractions, so that a
fleet of ceilings is given no more workers for the second.  A percentage past a hundred is outside the range of a
fraction: that payload is refused, and a refused payload keeps the current count.
-/
namespace Subgov

open FloatArith Json

/-! ## Windows -/

section Windows

/-- The window at a reading that is no lower. -/
structure RaisedWindow (w w' : QuotaWindow F64) : Prop where
  id : w'.id = w.id
  resetsAt : w'.resetsAt = w.resetsAt
  used : w'.usedFraction = w.usedFraction ∨ Flt.zero ≤ w.usedFraction ∧ w.usedFraction ≤ w'.usedFraction
  reached : w.reached = true → w'.reached = true

theorem RaisedWindow.refl (w : QuotaWindow F64) : RaisedWindow w w := ⟨rfl, rfl, Or.inl rfl, fun h => h⟩

structure RaisedWindows (windows windows' : List (QuotaWindow F64)) : Prop where
  up : ∀ w ∈ windows, ∃ w' ∈ windows', RaisedWindow w w'
  down : ∀ w' ∈ windows', ∃ w ∈ windows, RaisedWindow w w'
  ids : (windows'.map (·.id)).Nodup ↔ (windows.map (·.id)).Nodup

theorem exists_of_forall₂ {α β : Type} {R : α → β → Prop} {xs : List α} {ys : List β} (h : List.Forall₂ R xs ys) :
    ∀ x ∈ xs, ∃ y ∈ ys, R x y := by
  induction h with
  | nil => exact nofun
  | cons hxy _ ih =>
    refine List.forall_mem_cons.2 ⟨⟨_, List.mem_cons_self, hxy⟩, fun x hx => ?_⟩
    obtain ⟨y, hy, hR⟩ := ih x hx
    exact ⟨y, List.mem_cons_of_mem _ hy, hR⟩

theorem RaisedWindows.of_forall₂ {windows windows' : List (QuotaWindow F64)}
    (h : List.Forall₂ RaisedWindow windows windows') : RaisedWindows windows windows' := by
  refine ⟨exists_of_forall₂ h, exists_of_forall₂ (R := fun w' w => RaisedWindow w w') h.flip, ?_⟩
  have hids : windows'.map (·.id) = windows.map (·.id) := by
    induction h with
    | nil => rfl
    | cons hw _ ih => rw [List.map_cons, List.map_cons, hw.id, ih]
  rw [hids]

end Windows

/-! ## Decisions -/

section Decisions

variable {name : String} {config : AccountConfig F64} {snapshot : QuotaSnapshot F64} {prior : AccountState F64}
  {current : Nat} {now : DateTime} {w w' : QuotaWindow F64} {windows : List (QuotaWindow F64)}

/-- Every enabled window is a ceiling. -/
def Ceilings (config : AccountConfig F64) : Prop :=
  ∀ id policy, config.utilization.policyFor id = some policy → policy.strategy = .ceilingOnly

/-- A raised window is enabled where the window is, with no more workers. -/
theorem windowDecision_raised (hrange : config.fleet.minWorkers ≤ config.fleet.maxWorkers) (hceilings : Ceilings config)
    (h : RaisedWindow w w') {d : WindowDecision F64}
    (hd : windowDecision config snapshot prior current now false w = some d) :
    ∃ d', windowDecision config snapshot prior current now false w' = some d' ∧
      d'.desiredWorkers ≤ d.desiredWorkers := by
  unfold windowDecision at hd ⊢
  obtain ⟨policy, hpolicy, rfl⟩ := Option.map_eq_some_iff.1 hd
  rw [h.id, hpolicy, Option.map_some]
  refine ⟨_, rfl, ?_⟩
  have hceiling := hceilings w.id policy hpolicy
  have hfraction : policy.target ≤ w.usedFraction → policy.target ≤ w'.usedFraction := by
    intro htarget
    rcases h.used with hsame | ⟨-, hmore⟩
    · rw [hsame]
      exact htarget
    · exact F64.le_trans htarget hmore
  show clampNat (windowRaw config snapshot prior current now policy policy.target w').1 config.fleet.minWorkers
      config.fleet.maxWorkers ≤ clampNat (windowRaw config snapshot prior current now policy policy.target w).1
      config.fleet.minWorkers config.fleet.maxWorkers
  rw [windowRaw_ceiling hceiling, windowRaw_ceiling hceiling, h.resetsAt]
  by_cases hreached : w'.reached = true ∨ policy.target ≤ w'.usedFraction
  · rw [if_pos hreached, clampNat_eq hrange, min_eq_left hrange, max_self]
    exact le_clampNat _ _ _ hrange
  · have hbefore : ¬ (w.reached = true ∨ policy.target ≤ w.usedFraction) := fun hor =>
      hreached (hor.imp h.reached hfraction)
    rw [if_neg hreached, if_neg hbefore]

/-- An enabled raised window has its window enabled. -/
theorem windowDecision_isSome_of_raised (h : RaisedWindow w w') {d' : WindowDecision F64}
    (hd' : windowDecision config snapshot prior current now false w' = some d') :
    ∃ d, windowDecision config snapshot prior current now false w = some d := by
  unfold windowDecision at hd' ⊢
  obtain ⟨policy, hpolicy, -⟩ := Option.map_eq_some_iff.1 hd'
  rw [h.id] at hpolicy
  rw [hpolicy]
  exact ⟨_, rfl⟩

theorem evaluate_empty (hfresh : isStale config snapshot now = false)
    (hempty : windowDecisions config snapshot prior current now = []) :
    evaluate name config snapshot prior current now =
      .error s!"account {name}: no enabled quota windows were observed" := by
  unfold evaluate
  rw [hfresh, hempty]
  rfl

variable (prior current now) in
/-- **The raised windows decide on no more**, and on nothing only where the windows do. -/
theorem windowDecisions_raised (hrange : config.fleet.minWorkers ≤ config.fleet.maxWorkers)
    (hunbanked : bankedAvailable config snapshot = false) (hceilings : Ceilings config)
    (h : RaisedWindows snapshot.windows windows) :
    (∀ d ∈ windowDecisions config snapshot prior current now,
      ∃ d' ∈ windowDecisions config (snapshot.withWindows windows) prior current now,
        d'.desiredWorkers ≤ d.desiredWorkers) ∧
    (windowDecisions config snapshot prior current now = [] →
      windowDecisions config (snapshot.withWindows windows) prior current now = []) := by
  have hunbanked' : bankedAvailable config (snapshot.withWindows windows) = false := hunbanked
  constructor
  · intro d hd
    obtain ⟨v, hv, hvd⟩ := (mem_windowDecisions hunbanked).1 hd
    obtain ⟨v', hv', hraised⟩ := h.up v hv
    obtain ⟨d', hd', hle⟩ := windowDecision_raised hrange hceilings hraised hvd
    exact ⟨d', (mem_windowDecisions hunbanked').2 ⟨v', hv', hd'⟩, hle⟩
  · intro hempty
    rw [List.eq_nil_iff_forall_not_mem]
    intro d' hd'
    obtain ⟨v', hv', hvd'⟩ := (mem_windowDecisions hunbanked').1 hd'
    obtain ⟨v, hv, hraised⟩ := h.down v' hv'
    obtain ⟨d, hd⟩ := windowDecision_isSome_of_raised hraised hvd'
    exact List.ne_nil_of_mem ((mem_windowDecisions hunbanked).2 ⟨v, hv, hd⟩) hempty

variable (name prior current now) in
/-- **Higher readings never ask for more**, and fail where the lower ones fail. -/
theorem evaluate_raised (hrange : config.fleet.minWorkers ≤ config.fleet.maxWorkers)
    (hdisabled : config.bankedResets.enabled = false) (hceilings : Ceilings config)
    (h : RaisedWindows snapshot.windows windows) :
    (∃ d d', evaluate name config snapshot prior current now = .ok d ∧
      evaluate name config (snapshot.withWindows windows) prior current now = .ok d' ∧
      d'.desiredWorkers ≤ d.desiredWorkers) ∨
    ∃ e e', evaluate name config snapshot prior current now = .error e ∧
      evaluate name config (snapshot.withWindows windows) prior current now = .error e' := by
  obtain ⟨hlower, hnone⟩ := windowDecisions_raised prior current now hrange
    (bankedAvailable_disabled snapshot hdisabled) hceilings h
  have hsame : isStale config (snapshot.withWindows windows) now = isStale config snapshot now := rfl
  have hplan : ∀ (s : QuotaSnapshot F64) (decisions : List (WindowDecision F64)),
      bankedResetDecision config s decisions prior current now = none :=
    fun s => bankedResetDecision_none prior current now (bankedAvailable_disabled s hdisabled)
  cases hstale : isStale config snapshot now with
  | true => exact Or.inl ⟨_, _, if_pos hstale, if_pos (hsame.trans hstale), Nat.le_refl _⟩
  | false =>
    by_cases hempty : windowDecisions config snapshot prior current now = []
    · exact Or.inr ⟨_, _, evaluate_empty hstale hempty, evaluate_empty (hsame.trans hstale) (hnone hempty)⟩
    · obtain ⟨least, hleast⟩ := Select.minByKey_isSome (fun d : WindowDecision F64 => d.desiredWorkers) hempty
      obtain ⟨d', hd', hle⟩ := hlower least (Select.minByKey_mem hleast)
      refine Or.inl ⟨_, _, evaluate_fresh hstale (List.isEmpty_eq_false_iff.2 hempty),
        evaluate_fresh (hsame.trans hstale) (List.isEmpty_eq_false_iff.2 (List.ne_nil_of_mem hd')), ?_⟩
      unfold freshDecision
      dsimp only
      rw [hplan, hplan, hleast]
      exact capDesired_mono hrange none ((ordinary_le current hd').trans hle)

end Decisions

/-! ## The range of a fraction -/

section Range

theorem isFraction_iff {x : F64} : isFraction x = true ↔ Flt.zero ≤ x ∧ x ≤ Flt.ofNat 1 := by
  have hzero : (Flt.zero : F64).isFinite = true := by decide +kernel
  have hone : (Flt.ofNat 1 : F64).isFinite = true := by decide +kernel
  unfold isFraction Flt.within
  rw [Bool.and_eq_true, Bool.and_eq_true, decide_eq_true_eq, decide_eq_true_eq]
  exact ⟨fun h => h.2, fun h => ⟨F64.isFinite_of_le hzero hone h.1 h.2, h⟩⟩

variable {snapshot : QuotaSnapshot F64} {windows : List (QuotaWindow F64)}

/-- A snapshot that is accepted at higher readings is at the lower ones. -/
theorem validateSnapshot_of_raised (h : RaisedWindows snapshot.windows windows)
    (hvalid : validateSnapshot (snapshot.withWindows windows) = .ok ()) : validateSnapshot snapshot = .ok () := by
  unfold validateSnapshot QuotaSnapshot.withWindows at hvalid
  unfold validateSnapshot
  simp only [andThen_ok, ensure_ok, Bool.not_eq_true', List.isEmpty_eq_false_iff_exists_mem] at hvalid ⊢
  obtain ⟨⟨w', hw'⟩, hwindows, hrest⟩ := hvalid
  obtain ⟨hall, hnodup⟩ := (validateWindows_iff _ _ _).1 hwindows
  obtain ⟨w, hw, -⟩ := h.down w' hw'
  refine ⟨⟨w, hw⟩, (validateWindows_iff _ _ _).2 ⟨fun v hv => ?_, h.ids.1 hnodup⟩, hrest⟩
  obtain ⟨v', hv', hraised⟩ := h.up v hv
  obtain ⟨hid, hfraction, -⟩ := hall v' hv'
  refine ⟨hraised.id ▸ hid, ?_, List.not_mem_nil⟩
  rcases hraised.used with hsame | ⟨hzero, hmore⟩
  · rw [← hsame]
    exact hfraction
  · exact isFraction_iff.2 ⟨hzero, F64.le_trans hmore (isFraction_iff.1 hfraction).2⟩

/-- Where it is not, some reading is past one. -/
theorem exists_over_of_raised (h : RaisedWindows snapshot.windows windows) (hvalid : validateSnapshot snapshot = .ok ())
    (hrefused : validateSnapshot (snapshot.withWindows windows) ≠ .ok ()) :
    ∃ w ∈ windows, Flt.ofNat 1 < w.usedFraction := by
  by_contra hnone
  refine hrefused ?_
  unfold validateSnapshot at hvalid
  unfold validateSnapshot QuotaSnapshot.withWindows
  simp only [andThen_ok, ensure_ok, Bool.not_eq_true', List.isEmpty_eq_false_iff_exists_mem] at hvalid ⊢
  obtain ⟨⟨w, hw⟩, hwindows, hrest⟩ := hvalid
  obtain ⟨hall, hnodup⟩ := (validateWindows_iff _ _ _).1 hwindows
  obtain ⟨w', hw', -⟩ := h.up w hw
  refine ⟨⟨w', hw'⟩, (validateWindows_iff _ _ _).2 ⟨fun v' hv' => ?_, h.ids.2 hnodup⟩, hrest⟩
  obtain ⟨v, hv, hraised⟩ := h.down v' hv'
  obtain ⟨hid, hfraction, -⟩ := hall v hv
  refine ⟨hraised.id.symm ▸ hid, ?_, List.not_mem_nil⟩
  rcases hraised.used with hsame | ⟨hzero, hmore⟩
  · rw [hsame]
    exact hfraction
  · have hwithin : v'.usedFraction ≤ Flt.ofNat 1 := by
      refine F64.le_of_not_lt (by decide +kernel) ((F64.le_iff _ _).1 hmore).2.1 ?_
      exact fun hover => hnone ⟨v', hv', hover⟩
    exact isFraction_iff.2 ⟨F64.le_trans hzero hmore, hwithin⟩

end Range

/-! ## Entries -/

section Entries

/-- The percentage of an entry. -/
def percentage (field : String) (value : Value F64) : Option F64 := (value.get field).bind Value.asF64

/-- An entry of no lower percentage, and otherwise the same to the parser. -/
structure RaisedEntry (field : String) (v v' : Value F64) : Prop where
  rest : ∀ key, key ≠ field → v'.get key = v.get key
  percent : ∃ x y, percentage field v = some x ∧ percentage field v' = some y ∧ Flt.zero ≤ x ∧ x ≤ y

/-- The same entry, or one of no lower percentage. -/
def EntryRaised (field : String) (v v' : Value F64) : Prop := v' = v ∨ RaisedEntry field v v'

variable {field : String} {v v' : Value F64}

theorem EntryRaised.get (h : EntryRaised field v v') (key : String) (hkey : key ≠ field) :
    v'.get key = v.get key := by
  rcases h with rfl | h
  · rfl
  · exact h.rest key hkey

theorem isNull_eq_false_of_percentage {x : F64} (h : percentage field v = some x) : v.isNull = false := by
  cases v with
  | null => cases h
  | _ => rfl

theorem EntryRaised.isNull (h : EntryRaised field v v') : v'.isNull = v.isNull := by
  rcases h with rfl | h
  · rfl
  · obtain ⟨x, y, hx, hy, -⟩ := h.percent
    rw [isNull_eq_false_of_percentage hx, isNull_eq_false_of_percentage hy]

theorem EntryRaised.isInactive (h : EntryRaised field v v') (hkey : "is_active" ≠ field) :
    isInactive v' = isInactive v := by
  unfold Subgov.isInactive
  rw [h.get _ hkey]

theorem usage_eq (field : String) (value : Value F64) :
    usage field value = (percentage field value).map fun percent => percent / Flt.ofNat 100 := rfl

/-- A hundredth of a percentage keeps the order. -/
theorem fraction_le {x y : F64} (h : x ≤ y) : x / Flt.ofNat 100 ≤ y / Flt.ofNat 100 :=
  F64.div_le_div h (by decide +kernel) (by decide +kernel) (by decide +kernel)

theorem fraction_nonneg {x : F64} (h : Flt.zero ≤ x) : Flt.zero ≤ x / Flt.ofNat 100 := by
  have hzero : (Flt.zero : F64) / Flt.ofNat 100 = Flt.zero := by decide +kernel
  have hfraction := fraction_le h
  rw [hzero] at hfraction
  exact hfraction

/-- A fraction past one comes of a percentage past a hundred. -/
theorem percent_of_fraction {x : F64} (h : Flt.ofNat 1 < x / Flt.ofNat 100) : Flt.ofNat 100 < x := by
  by_contra hwithin
  have hx : x.isNaN = false := by
    by_contra hnan
    rw [Bool.not_eq_false] at hnan
    have hquotient := ((F64.lt_iff _ _).1 h).2.1
    rw [F64.isNaN_div hnan] at hquotient
    cases hquotient
  have hle : x ≤ Flt.ofNat 100 := F64.le_of_not_lt (by decide +kernel) hx hwithin
  have hone : (Flt.ofNat 100 : F64) / Flt.ofNat 100 = Flt.ofNat 1 := by decide +kernel
  have hfraction := fraction_le hle
  rw [hone] at hfraction
  rw [F64.lt_iff] at h
  rw [F64.le_iff] at hfraction
  exact absurd h.2.2 (Int.not_lt.2 hfraction.2.2)

end Entries

/-! ## Anthropic payloads -/

section Anthropic

variable {parseTimestamp : String → Option DateTime} {payload payload' : Value F64}

/-- Payloads that differ in the percentages of their entries, none lower in the second. -/
structure AnthropicRaised (payload payload' : Value F64) : Prop where
  legacy : ∀ id ∈ legacyIds, Option.Rel (EntryRaised "utilization") (payload.get id) (payload'.get id)
  limits : List.Forall₂ (EntryRaised "percent") (limits payload) (limits payload')

/-- The window of an entry at this usage and reset. -/
def windowAt (id : String) (used : F64) (resetsAt : DateTime) : QuotaWindow F64 :=
  { id, usedFraction := used, resetsAt, durationMinutes := none, reached := decide (Flt.ofNat 1 ≤ used) }

theorem windowAt_raised (id : String) (resetsAt : DateTime) {used used' : F64} (hzero : Flt.zero ≤ used)
    (h : used ≤ used') : RaisedWindow (windowAt id used resetsAt) (windowAt id used' resetsAt) := by
  refine ⟨rfl, rfl, Or.inr ⟨hzero, h⟩, ?_⟩
  unfold windowAt
  rw [decide_eq_true_iff, decide_eq_true_iff]
  exact fun hfull => F64.le_trans hfull h

theorem anthropicWindow_map (field id : String) (v : Value F64) :
    anthropicWindow parseTimestamp field id v =
      (usage field v).bind fun used => (resetTime parseTimestamp v).map (windowAt id used) := by
  unfold anthropicWindow
  cases usage field v with
  | none => rfl
  | some used => cases resetTime parseTimestamp v <;> rfl

variable (parseTimestamp) in
theorem anthropicWindow_raised {field : String} {v v' : Value F64} (h : EntryRaised field v v')
    (hfield : "resets_at" ≠ field) (id : String) :
    Option.Rel RaisedWindow (anthropicWindow parseTimestamp field id v)
      (anthropicWindow parseTimestamp field id v') := by
  have hreset : resetTime parseTimestamp v' = resetTime parseTimestamp v := by
    unfold resetTime
    rw [h.get _ hfield]
  rcases h with rfl | h
  · cases anthropicWindow parseTimestamp field id v' with
    | none => exact .none
    | some w => exact .some (RaisedWindow.refl w)
  · obtain ⟨x, y, hx, hy, hzero, hmore⟩ := h.percent
    have hlow := fraction_nonneg hzero
    have hhigh := fraction_le hmore
    rw [anthropicWindow_map, anthropicWindow_map, hreset, usage_eq, usage_eq, hx, hy, Option.map_some, Option.map_some]
    generalize x / Flt.ofNat 100 = used at hlow hhigh ⊢
    generalize y / Flt.ofNat 100 = used' at hhigh ⊢
    cases resetTime parseTimestamp v with
    | none => exact .none
    | some resetsAt => exact .some (windowAt_raised id resetsAt hlow hhigh)

/-- Entries under one id, the second raised. -/
def KeyedRaised (field : String) (e e' : String × Value F64) : Prop := e'.1 = e.1 ∧ EntryRaised field e.2 e'.2

theorem keyed_raised {field : String} (hfield : "resets_at" ≠ field) {e e' : String × Value F64}
    (h : KeyedRaised field e e') :
    Option.Rel (fun k k' : String × QuotaWindow F64 => k'.1 = k.1 ∧ RaisedWindow k.2 k'.2)
      (keyed parseTimestamp field e) (keyed parseTimestamp field e') := by
  have hwindow := anthropicWindow_raised parseTimestamp h.2 hfield e.1
  unfold keyed
  rw [h.1]
  generalize anthropicWindow parseTimestamp field e.1 e.2 = before at hwindow ⊢
  generalize anthropicWindow parseTimestamp field e.1 e'.2 = after at hwindow ⊢
  cases hwindow with
  | none => exact .none
  | some hw => exact .some ⟨rfl, hw⟩

theorem activeLimits_raised (h : AnthropicRaised payload payload') :
    List.Forall₂ (KeyedRaised "percent") (activeLimits payload) (activeLimits payload') := by
  refine List.rel_filterMap (R := EntryRaised "percent") (fun v v' hv => ?_) h.limits
  have hkind : kind v' = kind v := by
    unfold kind
    rw [hv.get _ (by decide)]
  rw [hv.isInactive (by decide), hkind]
  cases isInactive v with
  | true => exact .none
  | false =>
    cases kind v with
    | none => exact .none
    | some id => exact .some ⟨rfl, hv⟩

theorem activeLegacy_raised (h : AnthropicRaised payload payload') :
    List.Forall₂ (KeyedRaised "utilization") (activeLegacy payload) (activeLegacy payload') := by
  have hids : List.Forall₂ (fun id id' => id' = id ∧ id ∈ legacyIds) legacyIds legacyIds :=
    List.forall₂_same.2 fun id hid => ⟨rfl, hid⟩
  refine List.rel_filterMap (fun id id' hid => ?_) hids
  obtain ⟨rfl, hid⟩ := hid
  have hvalue := h.legacy id' hid
  generalize payload.get id' = before at hvalue ⊢
  generalize payload'.get id' = after at hvalue ⊢
  cases hvalue with
  | none => exact .none
  | @some v v' hv =>
    have hkept : (!(v'.isNull || isInactive v')) = !(v.isNull || isInactive v) := by
      rw [hv.isNull, hv.isInactive (by decide)]
    rw [Option.filter_some, Option.filter_some, hkept]
    split
    · exact .some ⟨rfl, hv⟩
    · exact .none

variable (parseTimestamp) in
theorem anthropicEntries_raised (h : AnthropicRaised payload payload') :
    List.Forall₂ (fun k k' : String × QuotaWindow F64 => k'.1 = k.1 ∧ RaisedWindow k.2 k'.2)
      (anthropicEntries parseTimestamp payload) (anthropicEntries parseTimestamp payload') :=
  List.rel_append (List.rel_filterMap (fun _ _ he => keyed_raised (by decide) he) (activeLegacy_raised h))
    (List.rel_filterMap (fun _ _ he => keyed_raised (by decide) he) (activeLimits_raised h))

theorem lookup_raised {entries entries' : List (String × QuotaWindow F64)}
    (h : List.Forall₂ (fun k k' : String × QuotaWindow F64 => k'.1 = k.1 ∧ RaisedWindow k.2 k'.2) entries entries')
    (id : String) : Option.Rel RaisedWindow (entries.lookup id) (entries'.lookup id) := by
  induction h with
  | nil => exact .none
  | @cons k k' _ _ hk _ ih =>
    obtain ⟨key, w⟩ := k
    obtain ⟨key', w'⟩ := k'
    obtain ⟨hkey, hw⟩ := hk
    dsimp only at hkey hw
    rw [List.lookup_cons, List.lookup_cons, hkey]
    cases id == key with
    | true => exact .some hw
    | false => exact ih

/-- **The windows of the second payload are those of the first, raised.** -/
theorem anthropicWindows_raised (h : AnthropicRaised payload payload') :
    RaisedWindows (anthropicWindows parseTimestamp payload).values
      (anthropicWindows parseTimestamp payload').values := by
  have hget : ∀ id : String, Option.Rel RaisedWindow (anthropicWindows parseTimestamp payload)[id]?
      (anthropicWindows parseTimestamp payload')[id]? := by
    intro id
    rw [anthropicWindows_get, anthropicWindows_get]
    exact lookup_raised (List.rel_reverse (anthropicEntries_raised parseTimestamp h)) id
  refine ⟨fun w hw => ?_, fun w' hw' => ?_, iff_of_true (anthropicWindows_nodup payload')
    (anthropicWindows_nodup payload)⟩
  · have hrel := hget w.id
    rw [mem_anthropicWindows.1 hw] at hrel
    generalize hafter : (anthropicWindows parseTimestamp payload')[w.id]? = after at hrel
    cases hrel with
    | @some _ w' hraised => exact ⟨w', mem_values.2 ⟨w.id, hafter⟩, hraised⟩
  · have hrel := hget w'.id
    rw [mem_anthropicWindows.1 hw'] at hrel
    generalize hbefore : (anthropicWindows parseTimestamp payload)[w'.id]? = before at hrel
    cases hrel with
    | @some w _ hraised => exact ⟨w, mem_values.2 ⟨w'.id, hbefore⟩, hraised⟩

/-- A percentage of an active entry is past a hundred. -/
def AnthropicOver (payload : Value F64) : Prop :=
  (∃ e ∈ activeLegacy payload, ∃ x, percentage "utilization" e.2 = some x ∧ Flt.ofNat 100 < x) ∨
    ∃ e ∈ activeLimits payload, ∃ x, percentage "percent" e.2 = some x ∧ Flt.ofNat 100 < x

theorem percentage_of_usage {field : String} {v : Value F64} {used : F64} (h : usage field v = some used)
    (hover : Flt.ofNat 1 < used) : ∃ x, percentage field v = some x ∧ Flt.ofNat 100 < x := by
  rw [usage_eq] at h
  obtain ⟨x, hx, rfl⟩ := Option.map_eq_some_iff.1 h
  exact ⟨x, hx, percent_of_fraction hover⟩

theorem anthropicOver_of_window {w : QuotaWindow F64} (hw : w ∈ (anthropicWindows parseTimestamp payload).values)
    (hover : Flt.ofNat 1 < w.usedFraction) : AnthropicOver payload := by
  have hget := mem_anthropicWindows.1 hw
  rw [anthropicWindows_get] at hget
  obtain ⟨before, after, hsplit, -⟩ := List.lookup_eq_some_iff.1 hget
  have hmem : (w.id, w) ∈ anthropicEntries parseTimestamp payload := by
    rw [← List.mem_reverse, hsplit]
    exact List.mem_append_right _ List.mem_cons_self
  rcases mem_entries.1 hmem with ⟨e, he, hkeyed⟩ | ⟨e, he, hkeyed⟩
  · exact Or.inl ⟨e, he, percentage_of_usage (anthropicWindow_eq_some (keyed_eq_some hkeyed).2).2.1 hover⟩
  · exact Or.inr ⟨e, he, percentage_of_usage (anthropicWindow_eq_some (keyed_eq_some hkeyed).2).2.1 hover⟩

end Anthropic

/-! ## Codex payloads -/

section Codex

variable {payload payload' : Value F64}

/-- Payloads that differ in the percentages of their buckets' entries, none lower in the second. -/
structure CodexRaised (payload payload' : Value F64) : Prop where
  buckets : List.Forall₂ (fun b b' => b'.1 = b.1 ∧ ∀ name ∈ ["primary", "secondary"],
      Option.Rel (EntryRaised "usedPercent") (b.2.get name) (b'.2.get name))
    (codexBuckets payload) (codexBuckets payload')
  credits : payload'.get "rateLimitResetCredits" = payload.get "rateLimitResetCredits"

/-- The window of an entry at this percentage, reset and duration. -/
def codexWindowAt (id : String) (duration : Option Nat) (percent : F64) (resetsAt : DateTime) : QuotaWindow F64 :=
  { id, usedFraction := percent / Flt.ofNat 100, resetsAt, durationMinutes := duration
    reached := decide (Flt.ofNat 100 ≤ percent) }

theorem codexWindowAt_raised (id : String) (duration : Option Nat) (resetsAt : DateTime) {x y : F64}
    (hzero : Flt.zero ≤ x) (h : x ≤ y) :
    RaisedWindow (codexWindowAt id duration x resetsAt) (codexWindowAt id duration y resetsAt) := by
  refine ⟨rfl, rfl, Or.inr ⟨fraction_nonneg hzero, fraction_le h⟩, ?_⟩
  unfold codexWindowAt
  rw [decide_eq_true_iff, decide_eq_true_iff]
  exact fun hfull => F64.le_trans hfull h

theorem parseCodexWindow_map (id : String) (v : Value F64) :
    parseCodexWindow id v = (percentage "usedPercent" v).bind fun percent =>
      (codexResetTime v).map (codexWindowAt id ((v.get "windowDurationMins").bind Value.asU64) percent) := by
  unfold parseCodexWindow percentage codexResetTime
  cases (v.get "usedPercent").bind Value.asF64 with
  | none => rfl
  | some percent =>
    cases (v.get "resetsAt").bind Value.asI64 with
    | none => rfl
    | some epoch =>
      show ((timestampOpt epoch).bind fun resetsAt => _) = (timestampOpt epoch).map _
      cases timestampOpt epoch <;> rfl

theorem parseCodexWindow_raised {v v' : Value F64} (h : EntryRaised "usedPercent" v v') (id : String) :
    Option.Rel RaisedWindow (parseCodexWindow id v) (parseCodexWindow id v') := by
  have hreset : codexResetTime v' = codexResetTime v := by
    unfold codexResetTime
    rw [h.get _ (by decide)]
  have hduration := h.get "windowDurationMins" (by decide)
  rcases h with rfl | h
  · cases parseCodexWindow id v' with
    | none => exact .none
    | some w => exact .some (RaisedWindow.refl w)
  · obtain ⟨x, y, hx, hy, hzero, hmore⟩ := h.percent
    rw [parseCodexWindow_map, parseCodexWindow_map, hreset, hduration, hx, hy, Option.bind_some, Option.bind_some]
    cases codexResetTime v with
    | none => exact .none
    | some resetsAt => exact .some (codexWindowAt_raised id _ resetsAt hzero hmore)

theorem bucketEntries_raised {b b' : String × Value F64} (hid : b'.1 = b.1)
    (h : ∀ name ∈ ["primary", "secondary"], Option.Rel (EntryRaised "usedPercent") (b.2.get name) (b'.2.get name)) :
    List.Forall₂ (KeyedRaised "usedPercent") (bucketEntries b.1 b.2) (bucketEntries b'.1 b'.2) := by
  have hnames : List.Forall₂ (fun name name' => name' = name ∧ name ∈ ["primary", "secondary"])
      ["primary", "secondary"] ["primary", "secondary"] := List.forall₂_same.2 fun name hname => ⟨rfl, hname⟩
  unfold bucketEntries
  refine List.rel_filterMap (fun name name' hname => ?_) hnames
  obtain ⟨rfl, hname⟩ := hname
  have hvalue := h name' hname
  generalize b.2.get name' = before at hvalue ⊢
  generalize b'.2.get name' = after at hvalue ⊢
  cases hvalue with
  | none => exact .none
  | @some v v' hv =>
    rw [Option.filter_some, Option.filter_some, hv.isNull, hid]
    split
    · exact .some ⟨rfl, hv⟩
    · exact .none

theorem codexWindows_raised (h : CodexRaised payload payload') :
    List.Forall₂ RaisedWindow ((codexEntries payload).filterMap fun e => parseCodexWindow e.1 e.2)
      ((codexEntries payload').filterMap fun e => parseCodexWindow e.1 e.2) := by
  have hentries : List.Forall₂ (KeyedRaised "usedPercent") (codexEntries payload) (codexEntries payload') :=
    List.rel_flatMap h.buckets fun _ _ hb => bucketEntries_raised hb.1 hb.2
  refine List.rel_filterMap (fun e e' he => ?_) hentries
  rw [he.1]
  exact parseCodexWindow_raised he.2 e.1

/-- A percentage of an entry is past a hundred. -/
def CodexOver (payload : Value F64) : Prop :=
  ∃ e ∈ codexEntries payload, ∃ x, percentage "usedPercent" e.2 = some x ∧ Flt.ofNat 100 < x

theorem codexOver_of_window {w : QuotaWindow F64}
    (hw : w ∈ (codexEntries payload).filterMap fun e => parseCodexWindow e.1 e.2)
    (hover : Flt.ofNat 1 < w.usedFraction) : CodexOver payload := by
  obtain ⟨e, he, hparsed⟩ := List.mem_filterMap.1 hw
  exact ⟨e, he, percentage_of_usage (parseCodexWindow_eq_some hparsed).2.1 hover⟩

end Codex

/-! ## The outcome of a payload -/

section Outcome

variable {name : String} {config : AccountConfig F64} {prior : AccountState F64} {current : Nat} {now : DateTime}

/-- The workers of a decision, the current count where there is none. -/
def outcomeOf (current : Nat) : Except String (Decision F64) → Nat
  | .ok d => d.desiredWorkers
  | .error _ => current

/-- The workers after a cycle on a parsed payload: a source that fails in any stage actuates nothing. -/
def nativeOutcome (name : String) (config : AccountConfig F64) (prior : AccountState F64) (current : Nat)
    (now : DateTime) (parsed : Except String (QuotaSnapshot F64)) : Nat :=
  outcomeOf current (do
    let snapshot ← parsed
    validateSnapshot snapshot
    evaluate name config snapshot prior current now)

/-- Both payloads are refused by the parser, or the second is normalised to the first's windows raised. -/
inductive RaisedParse : Except String (QuotaSnapshot F64) → Except String (QuotaSnapshot F64) → Prop
  | refused (e e' : String) : RaisedParse (.error e) (.error e')
  | accepted {snapshot : QuotaSnapshot F64} {windows : List (QuotaWindow F64)}
      (h : RaisedWindows snapshot.windows windows) : RaisedParse (.ok snapshot) (.ok (snapshot.withWindows windows))

theorem nativeOutcome_valid {snapshot : QuotaSnapshot F64} (h : validateSnapshot snapshot = .ok ()) :
    nativeOutcome name config prior current now (.ok snapshot) =
      outcomeOf current (evaluate name config snapshot prior current now) := by
  show outcomeOf current (validateSnapshot snapshot >>= fun _ => evaluate name config snapshot prior current now) = _
  rw [h]
  rfl

theorem nativeOutcome_refused {snapshot : QuotaSnapshot F64} (h : validateSnapshot snapshot ≠ .ok ()) :
    nativeOutcome name config prior current now (.ok snapshot) = current := by
  show outcomeOf current (validateSnapshot snapshot >>= fun _ => evaluate name config snapshot prior current now) = _
  cases hvalid : validateSnapshot snapshot with
  | error e => rfl
  | ok u => exact absurd hvalid h

/-- **The outcome is no more for the second payload**, unless it alone is refused for a fraction past one. -/
theorem nativeOutcome_raised (hrange : config.fleet.minWorkers ≤ config.fleet.maxWorkers)
    (hdisabled : config.bankedResets.enabled = false) (hceilings : Ceilings config)
    {parsed parsed' : Except String (QuotaSnapshot F64)} (h : RaisedParse parsed parsed') :
    nativeOutcome name config prior current now parsed' ≤ nativeOutcome name config prior current now parsed ∨
      nativeOutcome name config prior current now parsed' = current ∧
        ∃ snapshot, parsed' = .ok snapshot ∧ ∃ w ∈ snapshot.windows, Flt.ofNat 1 < w.usedFraction := by
  cases h with
  | refused => exact Or.inl (Nat.le_refl _)
  | @accepted snapshot windows h =>
    by_cases hvalid' : validateSnapshot (snapshot.withWindows windows) = .ok ()
    · refine Or.inl ?_
      rw [nativeOutcome_valid hvalid', nativeOutcome_valid (validateSnapshot_of_raised h hvalid')]
      rcases evaluate_raised name prior current now hrange hdisabled hceilings h with
        ⟨d, d', hd, hd', hle⟩ | ⟨e, e', he, he'⟩
      · rw [hd, hd']
        exact hle
      · rw [he, he']
        exact Nat.le_refl _
    · rw [nativeOutcome_refused hvalid']
      by_cases hvalid : validateSnapshot snapshot = .ok ()
      · exact Or.inr ⟨rfl, _, rfl, exists_over_of_raised h hvalid hvalid'⟩
      · rw [nativeOutcome_refused hvalid]
        exact Or.inl (Nat.le_refl _)

theorem parseAnthropicUsage_raised {payload payload' : Value F64} (parseTimestamp : String → Option DateTime)
    (h : AnthropicRaised payload payload') (observedAt : DateTime) :
    RaisedParse (parseAnthropicUsage parseTimestamp payload observedAt)
      (parseAnthropicUsage parseTimestamp payload' observedAt) := by
  have hentries := anthropicEntries_raised parseTimestamp h
  have hempty : (anthropicWindows parseTimestamp payload').isEmpty =
      (anthropicWindows parseTimestamp payload).isEmpty := by
    rw [Bool.eq_iff_iff, anthropicWindows_isEmpty, anthropicWindows_isEmpty, ← anthropicEntries_eq_nil,
      ← anthropicEntries_eq_nil, ← List.length_eq_zero_iff, ← List.length_eq_zero_iff, hentries.length_eq]
  unfold parseAnthropicUsage
  dsimp only
  rw [hempty]
  split
  · exact .refused _ _
  · exact .accepted (anthropicWindows_raised h)

theorem parseCodexRateLimits_raised {payload payload' : Value F64} (h : CodexRaised payload payload')
    (observedAt : DateTime) :
    RaisedParse (parseCodexRateLimits payload observedAt) (parseCodexRateLimits payload' observedAt) := by
  have hwindows := codexWindows_raised h
  have hcredits : parseResetCredits payload' = parseResetCredits payload := by
    unfold parseResetCredits
    rw [h.credits]
  rw [parseCodexRateLimits_eq, parseCodexRateLimits_eq]
  dsimp only
  rw [hcredits]
  generalize (codexEntries payload).filterMap (fun e => parseCodexWindow e.1 e.2) = windows at hwindows ⊢
  generalize (codexEntries payload').filterMap (fun e => parseCodexWindow e.1 e.2) = windows' at hwindows ⊢
  cases hwindows with
  | nil => exact .refused _ _
  | cons hw hrest => exact .accepted (.of_forall₂ (.cons hw hrest))

end Outcome

/-- **A higher provider reading leaves no more workers running**, of either provider and for a fleet of ceilings, unless
a percentage past a hundred has its payload refused and the current count kept. -/
theorem nativeOutcome_anti {name : String} {config : AccountConfig F64} (parseTimestamp : String → Option DateTime)
    (prior : AccountState F64) (current : Nat) (observedAt now : DateTime)
    (hrange : config.fleet.minWorkers ≤ config.fleet.maxWorkers) (hdisabled : config.bankedResets.enabled = false)
    (hceilings : Ceilings config) (payload payload' : Value F64) :
    (AnthropicRaised payload payload' →
      nativeOutcome name config prior current now (parseAnthropicUsage parseTimestamp payload' observedAt) ≤
          nativeOutcome name config prior current now (parseAnthropicUsage parseTimestamp payload observedAt) ∨
        nativeOutcome name config prior current now (parseAnthropicUsage parseTimestamp payload' observedAt) = current ∧
          AnthropicOver payload') ∧
    (CodexRaised payload payload' →
      nativeOutcome name config prior current now (parseCodexRateLimits payload' observedAt) ≤
          nativeOutcome name config prior current now (parseCodexRateLimits payload observedAt) ∨
        nativeOutcome name config prior current now (parseCodexRateLimits payload' observedAt) = current ∧
          CodexOver payload') := by
  constructor
  · intro h
    have hraised := parseAnthropicUsage_raised parseTimestamp h observedAt
    refine (nativeOutcome_raised hrange hdisabled hceilings hraised).imp_right fun hrefused => ⟨hrefused.1, ?_⟩
    obtain ⟨snapshot, hparsed, w, hw, hover⟩ := hrefused.2
    rw [(parseAnthropicUsage_ok hparsed).2] at hw
    exact anthropicOver_of_window hw hover
  · intro h
    refine (nativeOutcome_raised hrange hdisabled hceilings (parseCodexRateLimits_raised h observedAt)).imp_right
      fun hrefused => ⟨hrefused.1, ?_⟩
    obtain ⟨snapshot, hparsed, w, hw, hover⟩ := hrefused.2
    rw [parseCodexRateLimits_eq] at hparsed
    dsimp only at hparsed
    split at hparsed
    · cases hparsed
    · cases hparsed
      exact codexOver_of_window hw hover

/-! ### Five hours used up and more than used up -/

def ceilingsAccount : AccountConfig F64 :=
  { plainAccount with utilization := { pacedUtilization with strategy := .ceilingOnly } }

theorem ceilingsAccount_ceilings : Ceilings ceilingsAccount := by
  intro id policy hpolicy
  have hwindows : ceilingsAccount.utilization.windows[id]? = none := Std.ExtTreeMap.getElem?_empty
  unfold UtilizationConfig.policyFor at hpolicy
  rw [hwindows] at hpolicy
  cases hpolicy
  rfl

/-- An entry with its percentage under `field` and its reset as given. -/
def entryAt (field resets : String) (reset : Value F64) (percent : UInt64) : Value F64 :=
  .object [(resets, reset), (field, percentNumber percent)]

theorem entryAt_raised {field resets : String} (hne : resets ≠ field) (reset : Value F64) {x y : UInt64}
    (hzero : (Flt.zero : F64) ≤ Flt.ofNat x.toNat) (h : (Flt.ofNat x.toNat : F64) ≤ Flt.ofNat y.toNat) :
    EntryRaised field (entryAt field resets reset x) (entryAt field resets reset y) := by
  have hpercent : ∀ z, percentage field (entryAt field resets reset z) = some (Flt.ofNat z.toNat) := by
    intro z
    have hlookup : (entryAt field resets reset z).get field = some (percentNumber z) := by
      show List.lookup field [(resets, reset), (field, percentNumber z)] = _
      rw [List.lookup_cons, beq_false_of_ne hne.symm]
      exact List.lookup_cons_self
    unfold percentage
    rw [hlookup]
    rfl
  refine Or.inr ⟨fun key hkey => ?_, _, _, hpercent x, hpercent y, hzero, h⟩
  show List.lookup key [(resets, reset), (field, percentNumber y)] =
    List.lookup key [(resets, reset), (field, percentNumber x)]
  simp only [List.lookup_cons, beq_false_of_ne hkey, List.lookup_nil]

def fiveHourUsage (percent : UInt64) : Value F64 :=
  .object [("five_hour", entryAt "utilization" "resets_at" (.string "2026-09-15T00:00:00Z") percent)]

theorem fiveHourUsage_raised {x y : UInt64} (hzero : (Flt.zero : F64) ≤ Flt.ofNat x.toNat)
    (h : (Flt.ofNat x.toNat : F64) ≤ Flt.ofNat y.toNat) : AnthropicRaised (fiveHourUsage x) (fiveHourUsage y) := by
  refine ⟨fun id hid => ?_, .nil⟩
  simp only [legacyIds, List.mem_cons, List.not_mem_nil, or_false] at hid
  rcases hid with rfl | rfl | rfl
  · exact .some (entryAt_raised (by decide) _ hzero h)
  · exact .none
  · exact .none

def primaryUsage (percent : UInt64) : Value F64 :=
  .object [("rateLimits", .object [("primary", entryAt "usedPercent" "resetsAt" (percentNumber 1789430400) percent)])]

theorem primaryUsage_raised {x y : UInt64} (hzero : (Flt.zero : F64) ≤ Flt.ofNat x.toNat)
    (h : (Flt.ofNat x.toNat : F64) ≤ Flt.ofNat y.toNat) : CodexRaised (primaryUsage x) (primaryUsage y) := by
  refine ⟨.cons ⟨rfl, fun entry hentry => ?_⟩ .nil, rfl⟩
  simp only [List.mem_cons, List.not_mem_nil, or_false] at hentry
  rcases hentry with rfl | rfl
  · exact .some (entryAt_raised (by decide) _ hzero h)
  · exact .none

def usageOutcome (percent : UInt64) : Nat :=
  nativeOutcome "claude" ceilingsAccount {} 2 0 (parseAnthropicUsage septemberReset (fiveHourUsage percent) 0)

def primaryOutcome (percent : UInt64) : Nat :=
  nativeOutcome "codex" ceilingsAccount {} 2 0 (parseCodexRateLimits (primaryUsage percent) 0)

/-- From 40 to 95 percent. -/
theorem nativeOutcome_anti_rising :
    (usageOutcome 95 ≤ usageOutcome 40 ∨ usageOutcome 95 = 2 ∧ AnthropicOver (fiveHourUsage 95)) ∧
      (primaryOutcome 95 ≤ primaryOutcome 40 ∨ primaryOutcome 95 = 2 ∧ CodexOver (primaryUsage 95)) := by
  have hzero : (Flt.zero : F64) ≤ Flt.ofNat (40 : UInt64).toNat := by decide +kernel
  have hrise : (Flt.ofNat (40 : UInt64).toNat : F64) ≤ Flt.ofNat (95 : UInt64).toNat := by decide +kernel
  exact ⟨(nativeOutcome_anti septemberReset {} 2 0 0 (by decide) rfl ceilingsAccount_ceilings _ _).1
      (fiveHourUsage_raised hzero hrise),
    (nativeOutcome_anti septemberReset {} 2 0 0 (by decide) rfl ceilingsAccount_ceilings _ _).2
      (primaryUsage_raised hzero hrise)⟩

/-- **A reading past a hundred percent leaves more workers running** than one of a hundred, of either provider. -/
theorem nativeOutcome_not_anti :
    ¬ ∀ (name : String) (config : AccountConfig F64) (prior : AccountState F64) (current : Nat)
      (observedAt now : DateTime) (payload payload' : Value F64),
      config.fleet.minWorkers ≤ config.fleet.maxWorkers → config.bankedResets.enabled = false → Ceilings config →
      config.fleet.minWorkers ≤ current → current ≤ config.fleet.maxWorkers →
      (AnthropicRaised payload payload' →
        nativeOutcome name config prior current now (parseAnthropicUsage septemberReset payload' observedAt) ≤
          nativeOutcome name config prior current now (parseAnthropicUsage septemberReset payload observedAt)) ∧
      (CodexRaised payload payload' →
        nativeOutcome name config prior current now (parseCodexRateLimits payload' observedAt) ≤
          nativeOutcome name config prior current now (parseCodexRateLimits payload observedAt)) := by
  intro h
  have hzero : (Flt.zero : F64) ≤ Flt.ofNat (100 : UInt64).toNat := by decide +kernel
  have hrise : (Flt.ofNat (100 : UInt64).toNat : F64) ≤ Flt.ofNat (101 : UInt64).toNat := by decide +kernel
  have hle : usageOutcome 101 ≤ usageOutcome 100 :=
    (h "claude" ceilingsAccount {} 2 0 0 _ _ (by decide) rfl ceilingsAccount_ceilings (by decide) (by decide)).1
      (fiveHourUsage_raised hzero hrise)
  have hfull : usageOutcome 100 = 1 := by decide +kernel
  have hover : usageOutcome 101 = 2 := by decide +kernel
  rw [hfull, hover] at hle
  exact absurd hle (by decide)

end Subgov
