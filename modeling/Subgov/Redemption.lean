import Mathlib.Data.List.TakeWhile
import Subgov.Arbitration
/-!
# Redemption — the hold that waits for a manual redemption, over runs

The hold is not stored: each cycle derives it from the governing window's flag and reading and from the high-water mark
its generation's history keeps.  `Phase.record` says what one record leaves of that history, and `awaits_eq_heldAlong`
that in a run within one generation the mark is the stored one with the readings so far, or the readings since one was not
of the stored generation, so that the decisions' recommendations are a function of the readings and the stored marks.
-/
namespace Subgov

open FloatArith

variable {F : Type} [Flt F]

structure QuotaCycle (F : Type) where
  snapshot : QuotaSnapshot F
  current : Nat
  now : DateTime
  workers : Nat
  target : Nat

/-- A run alternates an evaluation and a record of the same snapshot. -/
def Runs (name : String) (config : AccountConfig F) : AccountState F → List (QuotaCycle F × Decision F) → Prop
  | _, [] => True
  | prior, (c, d) :: rest => evaluate name config c.snapshot prior c.current c.now = .ok d ∧
      Runs name config (prior.record c.snapshot c.workers c.target) rest

def Decision.awaitsRedemption (d : Decision F) : Bool := d.bankedResets.any (·.manualRedemptionRecommended)

/-- Whether the generation's high-water mark is at the redemption threshold. -/
def dueMark (config : AccountConfig F) (history : Option (WindowHistory F)) (w : QuotaWindow F) : Bool :=
  (history.filter (fun h => sameResetGeneration h.resetsAt w.resetsAt)).any
    (fun h => decide (config.bankedResets.redeemAtUtilization ≤ h.maxUsedFraction))

/-- Whether some snapshot of the run read the window at the threshold. -/
def readsThreshold (config : AccountConfig F) (cycles : List (QuotaCycle F)) (id : String) : Bool :=
  cycles.any (fun c => c.snapshot.windows.any (fun v =>
    v.id == id && decide (config.bankedResets.redeemAtUtilization ≤ v.usedFraction)))

/-- Whether the readings of a window are of its stored history's generation, if it has one. -/
def agrees (prior : AccountState F) (id : String) (c : QuotaCycle F) : Bool :=
  prior.history[id]?.all (fun h => c.snapshot.windows.all (fun v =>
    v.id != id || sameResetGeneration h.resetsAt v.resetsAt))

/-- The cycles that count towards a window's mark: all, or those since one was not of the stored generation. -/
def credited (prior : AccountState F) (id : String) (cycles : List (QuotaCycle F)) : List (QuotaCycle F) :=
  if cycles.all (agrees prior id) then cycles else cycles.dropWhile (agrees prior id)

/-- Whether the window that governs a cycle is enabled, and reached, at the threshold in its stored history while that
lasts, or read there in a cycle that counts. -/
def heldBy (config : AccountConfig F) (prior : AccountState F) (past : List (QuotaCycle F)) (c : QuotaCycle F) : Bool :=
  (governingWindow c.snapshot).any (fun w => (config.utilization.policyFor w.id).isSome &&
    (w.reached || ((past ++ [c]).all (agrees prior w.id) && dueMark config prior.history[w.id]? w) ||
      readsThreshold config (credited prior w.id (past ++ [c])) w.id))

/-- The hold the readings call for, cycle by cycle. -/
def heldAlong (config : AccountConfig F) (prior : AccountState F) (past : List (QuotaCycle F)) :
    List (QuotaCycle F) → List Bool
  | [] => []
  | c :: cs => heldBy config prior past c :: heldAlong config prior (past ++ [c]) cs

/-- Once true, true from then on. -/
def StaysTrue (flags : List Bool) : Prop := flags.Pairwise (fun a b => a = true → b = true)

/-! ## Runs within one generation -/

/-- The ids that are weekly in some snapshot. -/
def WeeklyId (cycles : List (QuotaCycle F)) (id : String) : Prop :=
  ∃ c ∈ cycles, ∃ w ∈ c.snapshot.windows, w.id = id ∧ isWeeklyWindow w.durationMinutes = true

/-- The readings of one id are of one generation. -/
def OneGeneration (cycles : List (QuotaCycle F)) (id : String) : Prop :=
  ∀ c ∈ cycles, ∀ w ∈ c.snapshot.windows, w.id = id →
    ∀ c' ∈ cycles, ∀ w' ∈ c'.snapshot.windows, w'.id = id → sameResetGeneration w.resetsAt w'.resetsAt = true

/-- A run of fresh snapshots with the same windows, credits left, and every weekly window within one generation. -/
structure WithinGeneration (name : String) (config : AccountConfig F) (prior : AccountState F)
    (run : List (QuotaCycle F × Decision F)) : Prop where
  runs : Runs name config prior run
  valid : ∀ c ∈ run.map (·.1), validateSnapshot c.snapshot = .ok ()
  fresh : ∀ c ∈ run.map (·.1), isStale config c.snapshot c.now = false
  credits : ∀ c ∈ run.map (·.1), bankedAvailable config c.snapshot = true
  sameIds : ∀ c ∈ run.map (·.1), ∀ w ∈ c.snapshot.windows, ∀ c' ∈ run.map (·.1), ∃ w' ∈ c'.snapshot.windows, w'.id = w.id
  oneGeneration : ∀ id, WeeklyId (run.map (·.1)) id → OneGeneration (run.map (·.1)) id

variable {name : String} {config : AccountConfig F} {prior : AccountState F}

/-- **One cycle's recommendation**: the governing window is enabled and due. -/
theorem awaits_eq {snapshot : QuotaSnapshot F} {current : Nat} {now : DateTime} {d : Decision F}
    (hfresh : isStale config snapshot now = false) (hcredits : bankedAvailable config snapshot = true)
    (h : evaluate name config snapshot prior current now = .ok d) :
    d.awaitsRedemption = (governingWindow snapshot).any (fun w =>
      (config.utilization.policyFor w.id).isSome && redemptionDue config prior w) := by
  rcases evaluate_ok h with ⟨hstale, -⟩ | ⟨-, -, rfl⟩
  · rw [hfresh] at hstale
    cases hstale
  · have hsome := bankedResetDecision_isSome config snapshot prior current now
    simp only [governsBanked, hcredits, Bool.true_and] at hsome
    simp only [Decision.awaitsRedemption, freshDecision]
    cases hb : bankedResetDecision config snapshot (windowDecisions config snapshot prior current now) prior current
      now with
    | none =>
      rw [hb] at hsome
      cases hg : governingWindow snapshot with
      | none => rfl
      | some w =>
        simp only [hg, Option.any_some] at hsome ⊢
        rw [← hsome]
        rfl
    | some plan =>
      rw [hb] at hsome
      have hdue := bankedResetDecision_due hb
      rw [Option.any_some, hdue]
      cases hg : governingWindow snapshot with
      | none => rfl
      | some w =>
        simp only [hg, Option.any_some] at hsome ⊢
        rw [← hsome]
        rfl

theorem redemptionDue_eq (w : QuotaWindow F) :
    redemptionDue config prior w = (w.reached ||
      decide (config.bankedResets.redeemAtUtilization ≤ w.usedFraction) || dueMark config prior.history[w.id]? w) := rfl

/-! ## What a record leaves -/

omit [Flt F] in
theorem find?_window {ws : List (QuotaWindow F)} (hnd : (ws.map (·.id)).Nodup) {v : QuotaWindow F} (hv : v ∈ ws) :
    ws.find? (fun w => w.id == v.id) = some v := by
  induction ws with
  | nil => cases hv
  | cons w ws ih =>
    rw [List.map_cons, List.nodup_cons] at hnd
    rw [List.find?_cons]
    rcases List.mem_cons.1 hv with rfl | hv
    · simp
    · have hne : w.id ≠ v.id := fun he => hnd.1 (List.mem_map.2 ⟨v, hv, he.symm⟩)
      have hb : (w.id == v.id) = false := by simpa using hne
      rw [hb]
      exact ih hnd.2 hv

theorem record_history {snapshot : QuotaSnapshot F} {workers target : Nat} (hnd : (snapshot.windows.map (·.id)).Nodup)
    {v : QuotaWindow F} (hv : v ∈ snapshot.windows) :
    (prior.record snapshot workers target).history[v.id]? =
      some (extendHistory snapshot workers prior.history[v.id]? v) := by
  show (recordHistory prior.history snapshot workers)[v.id]? = _
  rw [recordHistory_getElem? _ _ _ hnd, find?_window hnd hv]
  rfl

theorem extendHistory_kept (snapshot : QuotaSnapshot F) (workers : Nat) {h : WindowHistory F} {v : QuotaWindow F}
    (hs : sameResetGeneration h.resetsAt v.resetsAt = true) :
    (extendHistory snapshot workers (some h) v).resetsAt = h.resetsAt ∧
      (extendHistory snapshot workers (some h) v).maxUsedFraction = Flt.max h.maxUsedFraction v.usedFraction := by
  unfold extendHistory
  rw [Option.filter_some, if_pos hs]
  exact ⟨rfl, rfl⟩

theorem extendHistory_restarted (snapshot : QuotaSnapshot F) (workers : Nat) {history : Option (WindowHistory F)}
    {v : QuotaWindow F} (hs : ∀ h ∈ history, sameResetGeneration h.resetsAt v.resetsAt = false) :
    (extendHistory snapshot workers history v).resetsAt = v.resetsAt ∧
      (extendHistory snapshot workers history v).maxUsedFraction = Flt.max Flt.zero v.usedFraction := by
  unfold extendHistory
  cases history with
  | none => exact ⟨rfl, rfl⟩
  | some h =>
    rw [Option.filter_some, if_neg (by rw [hs h rfl]; exact Bool.false_ne_true)]
    exact ⟨rfl, rfl⟩

theorem dueMark_some (h : WindowHistory F) (w : QuotaWindow F) :
    dueMark config (some h) w = (sameResetGeneration h.resetsAt w.resetsAt &&
      decide (config.bankedResets.redeemAtUtilization ≤ h.maxUsedFraction)) := by
  unfold dueMark
  rw [Option.filter_some]
  by_cases hs : sameResetGeneration h.resetsAt w.resetsAt = true
  · rw [if_pos hs, hs]
    rfl
  · rw [if_neg hs]
    rw [Bool.not_eq_true] at hs
    rw [hs]
    rfl

theorem readsThreshold_singleton {c : QuotaCycle F} (hnd : (c.snapshot.windows.map (·.id)).Nodup) {v : QuotaWindow F}
    (hv : v ∈ c.snapshot.windows) :
    readsThreshold config [c] v.id = decide (config.bankedResets.redeemAtUtilization ≤ v.usedFraction) := by
  rw [Bool.eq_iff_iff, readsThreshold, List.any_cons, List.any_nil, Bool.or_false, List.any_eq_true, decide_eq_true_eq]
  constructor
  · rintro ⟨u, hu, hup⟩
    rw [Bool.and_eq_true, beq_iff_eq, decide_eq_true_eq] at hup
    have huv : u = v := by
      have hfu := find?_window hnd hu
      rw [hup.1, find?_window hnd hv] at hfu
      exact (Option.some.inj hfu).symm
    exact huv ▸ hup.2
  · intro hle
    exact ⟨v, hv, by rw [Bool.and_eq_true, beq_iff_eq, decide_eq_true_eq]; exact ⟨rfl, hle⟩⟩

/-! ## The run lemma -/

theorem readsThreshold_append (xs ys : List (QuotaCycle F)) (id : String) :
    readsThreshold config (xs ++ ys) id = (readsThreshold config xs id || readsThreshold config ys id) := by
  unfold readsThreshold
  rw [List.any_append]

omit [Flt F] in
/-- One cycle agrees with the stored history where its reading does. -/
theorem agrees_eq {start : AccountState F} {c : QuotaCycle F} (hnd : (c.snapshot.windows.map (·.id)).Nodup)
    {v : QuotaWindow F} (hv : v ∈ c.snapshot.windows) :
    agrees start v.id c = start.history[v.id]?.all (fun h => sameResetGeneration h.resetsAt v.resetsAt) := by
  unfold agrees
  cases start.history[v.id]? with
  | none => rfl
  | some h =>
    rw [Option.all_some, Option.all_some, Bool.eq_iff_iff, List.all_eq_true]
    constructor
    · intro hall
      simpa using hall v hv
    · intro hsame u hu
      by_cases hid : u.id = v.id
      · have huv := find?_window hnd hu
        rw [hid, find?_window hnd hv] at huv
        rw [← Option.some.inj huv, hsame, Bool.or_true]
      · simp [hid]

omit [Flt F] in
theorem agrees_of_none {start : AccountState F} {id : String} (h : start.history[id]? = none)
    (cycles : List (QuotaCycle F)) : cycles.all (agrees start id) = true := by
  simp [agrees, h]

omit [Flt F] in
/-- Once the stored history is gone every cycle counts. -/
theorem credited_concat {start : AccountState F} {id : String} {past : List (QuotaCycle F)}
    (h : start.history[id]? = none ∨ past.all (agrees start id) = false) (c : QuotaCycle F) :
    credited start id (past ++ [c]) = credited start id past ++ [c] := by
  unfold credited
  rcases h with hnone | hgone
  · rw [if_pos (agrees_of_none hnone _), if_pos (agrees_of_none hnone _)]
  · have hleft : (past.dropWhile (agrees start id)).isEmpty = false := by
      rw [List.isEmpty_eq_false_iff, ne_eq, List.dropWhile_eq_nil_iff, ← List.all_eq_true, hgone]
      exact Bool.false_ne_true
    rw [List.all_append, hgone, Bool.false_and, if_neg Bool.false_ne_true, if_neg Bool.false_ne_true,
      List.dropWhile_append, hleft, if_neg Bool.false_ne_true]

omit [Flt F] in
/-- The cycle that ends the stored history is the first that counts. -/
theorem credited_restart {start : AccountState F} {id : String} {past : List (QuotaCycle F)} {c : QuotaCycle F}
    (hpast : past.all (agrees start id) = true) (hc : agrees start id c = false) :
    credited start id (past ++ [c]) = [c] := by
  unfold credited
  rw [List.all_append, List.all_cons, hc, Bool.false_and, Bool.and_false, if_neg Bool.false_ne_true,
    List.dropWhile_append_of_pos (List.all_eq_true.1 hpast),
    List.dropWhile_cons_of_neg (by rw [hc]; exact Bool.false_ne_true)]

/-- **What a window's history is after some cycles**: none yet, the stored one with the readings added, or one of the
readings' own generation with those since. -/
inductive Phase (config : AccountConfig F) (start : AccountState F) (id : String)
    (past upcoming : List (QuotaCycle F)) : Option (WindowHistory F) → Prop
  | unread (hstored : start.history[id]? = none) (hpast : past = []) : Phase config start id past upcoming none
  | stored {stored h : WindowHistory F} (hstored : start.history[id]? = some stored)
      (hanchor : h.resetsAt = stored.resetsAt) (hagrees : past.all (agrees start id) = true)
      (hmark : decide (config.bankedResets.redeemAtUtilization ≤ h.maxUsedFraction) =
        (decide (config.bankedResets.redeemAtUtilization ≤ stored.maxUsedFraction) || readsThreshold config past id)) :
      Phase config start id past upcoming (some h)
  | restarted {h : WindowHistory F} (hgone : start.history[id]? = none ∨ past.all (agrees start id) = false)
      (hanchor : ∀ c ∈ upcoming, ∀ w ∈ c.snapshot.windows, w.id = id → sameResetGeneration h.resetsAt w.resetsAt = true)
      (hmark : decide (config.bankedResets.redeemAtUtilization ≤ h.maxUsedFraction) =
        readsThreshold config (credited start id past) id) :
      Phase config start id past upcoming (some h)

theorem WithinGeneration.tail {c : QuotaCycle F} {d : Decision F} {run : List (QuotaCycle F × Decision F)}
    (h : WithinGeneration name config prior ((c, d) :: run)) :
    WithinGeneration name config (prior.record c.snapshot c.workers c.target) run := by
  have hweek : ∀ id, WeeklyId (run.map (·.1)) id → WeeklyId (((c, d) :: run).map (·.1)) id := by
    rintro id ⟨c', hc', hw⟩
    exact ⟨c', List.mem_cons_of_mem _ hc', hw⟩
  refine ⟨h.runs.2, ?_, ?_, ?_, ?_, ?_⟩
  · exact fun c' hc' => h.valid c' (List.mem_cons_of_mem _ hc')
  · exact fun c' hc' => h.fresh c' (List.mem_cons_of_mem _ hc')
  · exact fun c' hc' => h.credits c' (List.mem_cons_of_mem _ hc')
  · exact fun c₁ h₁ w hw c₂ h₂ =>
      h.sameIds c₁ (List.mem_cons_of_mem _ h₁) w hw c₂ (List.mem_cons_of_mem _ h₂)
  · intro id hid c₁ h₁ w hw hwid c₂ h₂ w' hw' hwid'
    exact h.oneGeneration id (hweek id hid) c₁ (List.mem_cons_of_mem _ h₁) w hw hwid c₂ (List.mem_cons_of_mem _ h₂) w'
      hw' hwid'

section Phase

variable {start : AccountState F} {past cs : List (QuotaCycle F)} {c : QuotaCycle F} {history : Option (WindowHistory F)}
  {w : QuotaWindow F}

/-- A mark is at the threshold when the one before it or the reading is. -/
theorem decide_le_max [LawfulFlt F] (t a b : F) : decide (t ≤ Flt.max a b) = (decide (t ≤ a) || decide (t ≤ b)) := by
  simp only [LawfulFlt.le_max, Bool.decide_or]

/-- **What a record leaves of a window's history.** -/
theorem Phase.record [LawfulFlt F] (hpos : ¬ config.bankedResets.redeemAtUtilization ≤ (Flt.zero : F))
    (h : Phase config start w.id past (c :: cs) history) (hnd : (c.snapshot.windows.map (·.id)).Nodup)
    (hw : w ∈ c.snapshot.windows) (hone : OneGeneration (c :: cs) w.id) :
    Phase config start w.id (past ++ [c]) cs (some (extendHistory c.snapshot c.workers history w)) := by
  have hread : readsThreshold config [c] w.id = decide (config.bankedResets.redeemAtUtilization ≤ w.usedFraction) :=
    readsThreshold_singleton hnd hw
  have hagrees : agrees start w.id c = start.history[w.id]?.all (fun h => sameResetGeneration h.resetsAt w.resetsAt) :=
    agrees_eq hnd hw
  have hlater : ∀ c' ∈ cs, ∀ w' ∈ c'.snapshot.windows, w'.id = w.id →
      sameResetGeneration w.resetsAt w'.resetsAt = true :=
    fun c' hc' => hone c List.mem_cons_self w hw rfl c' (List.mem_cons_of_mem _ hc')
  cases h with
  | unread hstored hpast =>
    have hnone : ∀ h ∈ (none : Option (WindowHistory F)), sameResetGeneration h.resetsAt w.resetsAt = false := by simp
    obtain ⟨hr, hmax⟩ := extendHistory_restarted c.snapshot c.workers hnone
    refine .restarted (.inl hstored) (hr ▸ hlater) ?_
    rw [hmax, decide_le_max, decide_eq_false hpos, Bool.false_or, hpast, credited,
      if_pos (agrees_of_none hstored _), List.nil_append, hread]
  | stored hstored hanchor hpast hmark =>
    rename_i stored h
    rw [hstored, Option.all_some, ← hanchor] at hagrees
    by_cases hsame : sameResetGeneration h.resetsAt w.resetsAt = true
    · obtain ⟨hr, hmax⟩ := extendHistory_kept c.snapshot c.workers hsame
      refine .stored hstored (hr.trans hanchor) ?_ ?_
      · rw [List.all_append, hpast, List.all_cons, hagrees, hsame]; rfl
      · rw [hmax, decide_le_max, hmark, readsThreshold_append, hread, Bool.or_assoc]
    · rw [Bool.not_eq_true] at hsame
      have hother : ∀ g ∈ some h, sameResetGeneration g.resetsAt w.resetsAt = false := by
        rintro _ ⟨⟩
        exact hsame
      obtain ⟨hr, hmax⟩ := extendHistory_restarted c.snapshot c.workers hother
      refine .restarted (.inr ?_) (hr ▸ hlater) ?_
      · rw [List.all_append, hpast, List.all_cons, hagrees, hsame]; rfl
      · rw [hmax, decide_le_max, decide_eq_false hpos, Bool.false_or, credited_restart hpast (hagrees.trans hsame), hread]
  | restarted hgone hanchor hmark =>
    rename_i h
    obtain ⟨hr, hmax⟩ := extendHistory_kept c.snapshot c.workers (hanchor c List.mem_cons_self w hw rfl)
    refine .restarted (hgone.imp id fun hpast => ?_) ?_ ?_
    · rw [List.all_append, hpast, Bool.false_and]
    · exact hr ▸ fun c' hc' => hanchor c' (List.mem_cons_of_mem _ hc')
    · rw [hmax, decide_le_max, hmark, credited_concat hgone, readsThreshold_append, hread]

/-- **What a window's own reading and mark come to** in the cycle that follows. -/
theorem Phase.due (h : Phase config start w.id past (c :: cs) history) (hnd : (c.snapshot.windows.map (·.id)).Nodup)
    (hw : w ∈ c.snapshot.windows) :
    (decide (config.bankedResets.redeemAtUtilization ≤ w.usedFraction) || dueMark config history w) =
      (((past ++ [c]).all (agrees start w.id) && dueMark config start.history[w.id]? w) ||
        readsThreshold config (credited start w.id (past ++ [c])) w.id) := by
  have hread : readsThreshold config [c] w.id = decide (config.bankedResets.redeemAtUtilization ≤ w.usedFraction) :=
    readsThreshold_singleton hnd hw
  have hagrees : agrees start w.id c = start.history[w.id]?.all (fun h => sameResetGeneration h.resetsAt w.resetsAt) :=
    agrees_eq hnd hw
  rw [← hread]
  cases h with
  | unread hstored hpast =>
    rw [hstored, hpast, credited, if_pos (agrees_of_none hstored _)]
    simp [dueMark]
  | stored hstored hanchor hpast hmark =>
    rename_i stored h
    rw [hstored, Option.all_some, ← hanchor] at hagrees
    rw [hstored, dueMark_some, dueMark_some, hmark, hanchor, List.all_append, hpast, List.all_cons, hagrees, hanchor]
    by_cases hsame : sameResetGeneration stored.resetsAt w.resetsAt = true
    · have hall : (past ++ [c]).all (agrees start w.id) = true := by
        rw [List.all_append, hpast, List.all_cons, hagrees, hanchor, hsame]; rfl
      rw [hsame, credited, if_pos hall, readsThreshold_append]
      simp only [Bool.true_and, List.all_nil, Bool.and_true]
      rw [Bool.or_comm, Bool.or_assoc]
    · rw [Bool.not_eq_true] at hsame
      rw [hsame, credited_restart hpast (hagrees.trans (hanchor ▸ hsame))]
      simp
  | restarted hgone hanchor hmark =>
    rename_i h
    have hstored : ((past ++ [c]).all (agrees start w.id) && dueMark config start.history[w.id]? w) = false := by
      rcases hgone with hnone | hpast
      · simp [dueMark, hnone]
      · rw [List.all_append, hpast, Bool.false_and, Bool.false_and]
    rw [hstored, Bool.false_or, dueMark_some, hanchor c List.mem_cons_self w hw rfl, hmark, Bool.true_and,
      credited_concat hgone, readsThreshold_append, Bool.or_comm]

end Phase

/-- The phases of every weekly window still to come. -/
def Phased (config : AccountConfig F) (start prior : AccountState F) (past cycles : List (QuotaCycle F)) : Prop :=
  ∀ id, WeeklyId cycles id → Phase config start id past cycles prior.history[id]?

theorem Phased.record [LawfulFlt F] (hpos : ¬ config.bankedResets.redeemAtUtilization ≤ (Flt.zero : F))
    {start : AccountState F} {past : List (QuotaCycle F)} {c : QuotaCycle F} {d : Decision F}
    {run : List (QuotaCycle F × Decision F)} (h : WithinGeneration name config prior ((c, d) :: run))
    (hphased : Phased config start prior past (c :: run.map (·.1))) :
    Phased config start (prior.record c.snapshot c.workers c.target) (past ++ [c]) (run.map (·.1)) := by
  rintro id ⟨c', hc', w, hw, rfl, hweekly⟩
  have hweek : WeeklyId (((c, d) :: run).map (·.1)) w.id :=
    ⟨c', List.mem_cons_of_mem _ hc', w, hw, rfl, hweekly⟩
  obtain ⟨v, hv, hid⟩ := h.sameIds c' (List.mem_cons_of_mem _ hc') w hw c List.mem_cons_self
  rw [← hid] at hweek ⊢
  have hnd := validateSnapshot_nodup (h.valid c List.mem_cons_self)
  rw [record_history hnd hv]
  exact (hphased v.id hweek).record hpos hnd hv (h.oneGeneration v.id hweek)

/-- **In a run within one generation the recommendations are a function of the readings.** -/
theorem awaits_eq_heldAlong [LawfulFlt F] (hpos : ¬ config.bankedResets.redeemAtUtilization ≤ (Flt.zero : F))
    (start : AccountState F) : ∀ (run : List (QuotaCycle F × Decision F)) (prior : AccountState F)
      (past : List (QuotaCycle F)), WithinGeneration name config prior run →
      Phased config start prior past (run.map (·.1)) →
      run.map (·.2.awaitsRedemption) = heldAlong config start past (run.map (·.1))
  | [], _, _, _, _ => rfl
  | (c, d) :: run, prior, past, h, hm => by
    have hnd := validateSnapshot_nodup (h.valid c List.mem_cons_self)
    have hhead : d.awaitsRedemption = heldBy config start past c := by
      rw [awaits_eq (h.fresh c List.mem_cons_self) (h.credits c List.mem_cons_self) h.runs.1, heldBy]
      cases hg : governingWindow c.snapshot with
      | none => rfl
      | some w =>
        obtain ⟨hw, hweekly⟩ := governingWindow_mem hg
        have hdue := (hm w.id ⟨c, List.mem_cons_self, w, hw, rfl, hweekly⟩).due hnd hw
        rw [Option.any_some, Option.any_some, redemptionDue_eq, Bool.or_assoc, hdue, ← Bool.or_assoc]
    have htail := awaits_eq_heldAlong hpos start run _ (past ++ [c]) h.tail (hm.record hpos h)
    simp only [List.map_cons, heldAlong]
    rw [hhead, htail]

/-- **The hold is sticky in a run exactly when the readings keep calling for it**: once a cycle's governing window is
enabled and reached, or at the threshold in what counts so far, so is the governing window of every later cycle. -/
theorem redemption_sticky_iff [LawfulFlt F] (hv : config.validate name = .ok ())
    {run : List (QuotaCycle F × Decision F)} (h : WithinGeneration name config prior run) :
    StaysTrue (run.map (·.2.awaitsRedemption)) ↔ StaysTrue (heldAlong config prior [] (run.map (·.1))) := by
  have hphased : Phased config prior prior [] (run.map (·.1)) := by
    intro id _
    cases hstored : prior.history[id]? with
    | none => exact .unread hstored rfl
    | some stored => exact .stored hstored rfl rfl (Bool.or_false _).symm
  rw [awaits_eq_heldAlong (AccountConfig.redeem_pos hv) prior run prior [] h hphased]

/-! ### A weekly window read twice -/

def pacedCycle (w : QuotaWindow F64) : QuotaCycle F64 :=
  { snapshot := pacedSnapshot [w] 20, current := 2, now := hours 1, workers := 2, target := 2 }

def pacedRun (first second : QuotaWindow F64) : List (QuotaCycle F64 × Decision F64) :=
  [(pacedCycle first, pacedDecision [first] 20 {} 2),
    (pacedCycle second, pacedDecision [second] 20 (AccountState.record {} (pacedCycle first).snapshot 2 2) 2)]

def weekReached : QuotaWindow F64 := { week with reached := true }

def weekUsed : QuotaWindow F64 := { week with usedFraction := Flt.ofNat 1 }

theorem weekReached_within : WithinGeneration "codex" pacedAccount {} (pacedRun weekReached week) where
  runs := ⟨evaluate_fresh (by decide +kernel) (by decide +kernel),
    evaluate_fresh (by decide +kernel) (by decide +kernel), trivial⟩
  valid := by decide +kernel
  fresh := by decide +kernel
  credits := by decide +kernel
  sameIds := by decide +kernel
  oneGeneration id _ := by
    simp [OneGeneration, pacedRun, pacedCycle, pacedSnapshot, weekReached, week, sameResetGeneration_refl]

theorem weekUsed_within : WithinGeneration "codex" pacedAccount {} (pacedRun weekUsed week) where
  runs := ⟨evaluate_fresh (by decide +kernel) (by decide +kernel),
    evaluate_fresh (by decide +kernel) (by decide +kernel), trivial⟩
  valid := by decide +kernel
  fresh := by decide +kernel
  credits := by decide +kernel
  sameIds := by decide +kernel
  oneGeneration id _ := by
    simp [OneGeneration, pacedRun, pacedCycle, pacedSnapshot, weekUsed, week, sameResetGeneration_refl]

/-- A reached flag that clears while the usage is half way lets the fleet go on. -/
theorem redemption_flag_clears :
    ¬ ∀ (name : String) (config : AccountConfig F64) (prior : AccountState F64)
      (run : List (QuotaCycle F64 × Decision F64)), config.validate name = .ok () →
      WithinGeneration name config prior run → StaysTrue (run.map (·.2.awaitsRedemption)) := by
  intro hall
  have h := hall "codex" pacedAccount {} (pacedRun weekReached week) pacedAccount_valid weekReached_within
  have hflags : (pacedRun weekReached week).map (·.2.awaitsRedemption) = [true, false] := by decide +kernel
  rw [hflags] at h
  exact absurd h (by simp [StaysTrue])

/-- A reading at the threshold outlives the lower one that follows it. -/
theorem redemption_mark_holds : StaysTrue ((pacedRun weekUsed week).map (·.2.awaitsRedemption)) := by
  have hflags : heldAlong pacedAccount {} [] ((pacedRun weekUsed week).map (·.1)) = [true, true] := by decide +kernel
  exact (redemption_sticky_iff pacedAccount_valid weekUsed_within).2 (by rw [hflags]; simp [StaysTrue])

/-- The week's history is stored as redeemed, under a reset 50 seconds before the one now read. -/
def redeemedState : AccountState F64 :=
  { history := (∅ : BTreeMap (WindowHistory F64)).insert "week"
      { resetsAt := hours 80 - 50 * nanosPerSecond, samples := [], maxUsedFraction := Flt.ofNat 1 } }

/-- The readings are of one generation, and the second is no longer of the stored one. -/
example : heldAlong pacedAccount redeemedState []
    [pacedCycle week, pacedCycle { week with resetsAt := hours 80 + 50 * nanosPerSecond }] = [true, false] := by
  decide +kernel

end Subgov
