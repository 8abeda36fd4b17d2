import Mathlib.Data.List.Induction
import Mathlib.Data.List.Infix
import Subgov.Lib.Binary64
import Subgov.StateFile
/-!
# SampleStore — what the three sample stores hold after any run of records

A record rebuilds the latest samples, the generation histories and the aggregate queues of an account.  The stores are
compared here with the readings themselves: `sinceReappeared` lists those since a window was last absent, and
`currentGeneration` those since its generation opened, which is judged by the generation's first `resets_at`.
-/
namespace Subgov

open FloatArith

variable {F : Type}

/-- The arguments of one record, on a snapshot that names no window twice. -/
structure RecordCall (F : Type) where
  snapshot : QuotaSnapshot F
  workers : Nat
  target : Nat
  distinct : (snapshot.windows.map (·.id)).Nodup

/-- What a call records of a window. -/
def RecordCall.reading (c : RecordCall F) (id : String) : Option (WindowSample F) :=
  (c.snapshot.windows.find? (fun w => w.id == id)).map (windowSample c.snapshot c.workers)

def WindowSample.toHistory (r : WindowSample F) : HistorySample F :=
  { observedAt := r.observedAt, usedFraction := r.usedFraction, workers := r.workers }

def WindowSample.toAggregate (r : WindowSample F) : AggregateBurnSample F :=
  { observedAt := r.observedAt, usedFraction := r.usedFraction, resetsAt := r.resetsAt, governedWorkers := r.workers }

/-! ## Generations -/

/-- A reading joins the readings since the window was absent. -/
def joinPresence (since : List (WindowSample F)) : Option (WindowSample F) → List (WindowSample F)
  | none => []
  | some r => since ++ [r]

/-- A reading joins the generation whose anchor is near enough, and else opens one. -/
def joinGeneration : List (WindowSample F) → Option (WindowSample F) → List (WindowSample F)
  | _, none => []
  | [], some r => [r]
  | anchor :: rest, some r =>
    if sameResetGeneration anchor.resetsAt r.resetsAt then anchor :: rest ++ [r] else [r]

def sinceReappeared (id : String) (calls : List (RecordCall F)) : List (WindowSample F) :=
  calls.foldl (fun since c => joinPresence since (c.reading id)) []

def currentGeneration (id : String) (calls : List (RecordCall F)) : List (WindowSample F) :=
  calls.foldl (fun gen c => joinGeneration gen (c.reading id)) []

theorem sinceReappeared_concat (id : String) (calls : List (RecordCall F)) (c : RecordCall F) :
    sinceReappeared id (calls ++ [c]) = joinPresence (sinceReappeared id calls) (c.reading id) := by
  unfold sinceReappeared
  rw [List.foldl_append, List.foldl_cons, List.foldl_nil]

theorem currentGeneration_concat (id : String) (calls : List (RecordCall F)) (c : RecordCall F) :
    currentGeneration id (calls ++ [c]) = joinGeneration (currentGeneration id calls) (c.reading id) := by
  unfold currentGeneration
  rw [List.foldl_append, List.foldl_cons, List.foldl_nil]

/-- The readings of one generation: those of the last calls, each near the first. -/
structure Generation (id : String) (before within : List (RecordCall F)) (anchor : WindowSample F)
    (rest : List (WindowSample F)) : Prop where
  readings : within.map (·.reading id) = (anchor :: rest).map some
  near : ∀ r ∈ rest, sameResetGeneration anchor.resetsAt r.resetsAt = true
  /-- It opens where the window was absent, or its `resets_at` far from the anchor before. -/
  opened : ∀ anchor' rest', currentGeneration id before = anchor' :: rest' →
    sameResetGeneration anchor'.resetsAt anchor.resetsAt = false

/-- **The current generation is a suffix of the run.** -/
theorem currentGeneration_spec {id : String} {calls : List (RecordCall F)} {anchor : WindowSample F}
    {rest : List (WindowSample F)} (h : currentGeneration id calls = anchor :: rest) :
    ∃ before within, calls = before ++ within ∧ Generation id before within anchor rest := by
  induction calls using List.reverseRecOn generalizing anchor rest with
  | nil => cases h
  | append_singleton calls c ih =>
    rw [currentGeneration_concat] at h
    cases hread : c.reading id with
    | none =>
      rw [hread] at h
      cases h
    | some r =>
      rw [hread] at h
      cases hgen : currentGeneration id calls with
      | nil =>
        rw [hgen] at h
        cases h
        exact ⟨calls, [c], rfl, by simp [hread], nofun, fun _ _ h => nomatch hgen.symm.trans h⟩
      | cons anchor' rest' =>
        rw [hgen] at h
        simp only [joinGeneration] at h
        by_cases hnear : sameResetGeneration anchor'.resetsAt r.resetsAt = true
        · rw [if_pos hnear] at h
          cases h
          obtain ⟨before, within, rfl, hwithin⟩ := ih hgen
          refine ⟨before, within ++ [c], List.append_assoc _ _ _, ?_, ?_, hwithin.opened⟩
          · rw [List.map_append, hwithin.readings]
            simp [hread]
          · intro r' hr'
            rcases List.mem_append.1 hr' with hold | hnew
            · exact hwithin.near r' hold
            · rw [List.mem_singleton.1 hnew]
              exact hnear
        · rw [if_neg hnear] at h
          cases h
          refine ⟨calls, [c], rfl, by simp [hread], nofun, fun anchor'' rest'' h => ?_⟩
          cases hgen.symm.trans h
          simpa using hnear

/-- The readings since a window was last absent are those of a suffix of the run. -/
theorem sinceReappeared_spec (id : String) (calls : List (RecordCall F)) :
    ∃ before within, calls = before ++ within ∧ within.map (·.reading id) = (sinceReappeared id calls).map some ∧
      ∀ c, before.getLast? = some c → c.reading id = none := by
  induction calls using List.reverseRecOn with
  | nil => exact ⟨[], [], rfl, rfl, nofun⟩
  | append_singleton calls c ih =>
    rw [sinceReappeared_concat]
    cases hread : c.reading id with
    | none =>
      refine ⟨calls ++ [c], [], by simp, rfl, fun c' hc' => ?_⟩
      rw [List.getLast?_concat, Option.some.injEq] at hc'
      rw [← hc', hread]
    | some r =>
      obtain ⟨before, within, rfl, hwithin, habsent⟩ := ih
      refine ⟨before, within ++ [c], List.append_assoc _ _ _, ?_, habsent⟩
      rw [List.map_append, hwithin]
      simp [joinPresence, hread]

/-! ## Bounded queues -/

theorem keepLast_concat {α : Type} {n : Nat} (hn : 0 < n) (xs : List α) (x : α) :
    keepLast n (keepLast n xs ++ [x]) = keepLast n (xs ++ [x]) := by
  unfold keepLast
  rw [List.length_append, List.length_drop, List.length_append, List.length_singleton]
  rw [← List.drop_append_of_le_length (Nat.sub_le _ _), List.drop_drop]
  congr 1
  omega

theorem length_keepLast_le {α : Type} (n : Nat) (xs : List α) : (keepLast n xs).length ≤ n := by
  unfold keepLast
  rw [List.length_drop]
  omega

theorem keepLast_sublist {α : Type} (n : Nat) (xs : List α) : (keepLast n xs).Sublist xs := List.drop_sublist _ _

theorem keepLast_of_length_le {α : Type} {n : Nat} {xs : List α} (h : xs.length ≤ n) : keepLast n xs = xs := by
  unfold keepLast
  rw [Nat.sub_eq_zero_of_le h, List.drop_zero]

/-! ## The stores of a run -/

section Stores

variable [Flt F]

def recorded (calls : List (RecordCall F)) : AccountState F :=
  calls.foldl (fun a c => a.record c.snapshot c.workers c.target) {}

theorem recorded_concat (calls : List (RecordCall F)) (c : RecordCall F) :
    recorded (calls ++ [c]) = (recorded calls).record c.snapshot c.workers c.target := by
  unfold recorded
  rw [List.foldl_append, List.foldl_cons, List.foldl_nil]

/-- The largest reading, from zero. -/
def highWater (gen : List (WindowSample F)) : F := gen.foldl (fun mark r => Flt.max mark r.usedFraction) Flt.zero

/-- The history of a generation: its first `resets_at`, its last readings and its high-water mark. -/
def historyOf : List (WindowSample F) → Option (WindowHistory F)
  | [] => none
  | anchor :: rest => some
    { resetsAt := anchor.resetsAt
      samples := keepLast maxHistorySamplesPerGeneration ((anchor :: rest).map (·.toHistory))
      maxUsedFraction := highWater (anchor :: rest) }

/-- The history after one more reading is that of the generation it joins. -/
theorem extendHistory_historyOf (snapshot : QuotaSnapshot F) (workers : Nat) (gen : List (WindowSample F))
    (w : QuotaWindow F) : some (extendHistory snapshot workers (historyOf gen) w) =
      historyOf (joinGeneration gen (some (windowSample snapshot workers w))) := by
  cases gen with
  | nil => rfl
  | cons anchor rest =>
    have hfound : historyOf (anchor :: rest) = some
        { resetsAt := anchor.resetsAt
          samples := keepLast maxHistorySamplesPerGeneration ((anchor :: rest).map (·.toHistory))
          maxUsedFraction := highWater (anchor :: rest) } := rfl
    by_cases hnear : sameResetGeneration anchor.resetsAt w.resetsAt = true
    · have hjoined : joinGeneration (anchor :: rest) (some (windowSample snapshot workers w)) =
          anchor :: (rest ++ [windowSample snapshot workers w]) := if_pos hnear
      unfold extendHistory
      rw [hjoined, hfound, Option.filter_some, if_pos hnear, Option.getD_some]
      dsimp only
      rw [keepLast_concat (by decide)]
      simp [historyOf, highWater, WindowSample.toHistory, windowSample]
    · have hopened : joinGeneration (anchor :: rest) (some (windowSample snapshot workers w)) =
          [windowSample snapshot workers w] := if_neg hnear
      unfold extendHistory
      rw [hopened, hfound, Option.filter_some, if_neg hnear, Option.getD_none]
      rfl

/-- **The history of a window is that of its current generation**, evicted readings included in the mark. -/
theorem recorded_history (id : String) (calls : List (RecordCall F)) :
    (recorded calls).history[id]? = historyOf (currentGeneration id calls) := by
  induction calls using List.reverseRecOn with
  | nil => exact Std.ExtTreeMap.getElem?_empty
  | append_singleton calls c ih =>
    rw [recorded_concat, currentGeneration_concat]
    show (recordHistory (recorded calls).history c.snapshot c.workers)[id]? = _
    rw [recordHistory_getElem? _ _ _ c.distinct, ih]
    unfold RecordCall.reading
    cases hfind : c.snapshot.windows.find? (fun w => w.id == id) with
    | none => rfl
    | some w => exact extendHistory_historyOf c.snapshot c.workers _ w

/-- What an aggregate queue keeps of the readings since its window was absent. -/
structure Queued (since : List (WindowSample F)) (queue : Option (List (AggregateBurnSample F))) : Prop where
  present : queue.isSome = !since.isEmpty
  bounded : ∀ samples, queue = some samples → samples.length ≤ maxAggregateBurnSamples
  ordered : ∀ samples, queue = some samples → samples.Sublist (since.map (·.toAggregate))

omit [Flt F] in
theorem Queued.extend {since : List (WindowSample F)} {queue : Option (List (AggregateBurnSample F))}
    (h : Queued since queue) (snapshot : QuotaSnapshot F) (workers : Nat) (w : QuotaWindow F) :
    Queued (since ++ [windowSample snapshot workers w]) (some (extendAggregate snapshot workers queue w)) := by
  have hkept : (queue.getD []).Sublist (since.map (·.toAggregate)) := by
    cases queue with
    | none => exact List.nil_sublist _
    | some samples => exact h.ordered samples rfl
  refine ⟨by simp, fun samples heq => ?_, fun samples heq => ?_⟩
  · rw [← Option.some.inj heq]
    exact length_keepLast_le _ _
  · rw [← Option.some.inj heq]
    refine (keepLast_sublist _ _).trans ?_
    rw [List.map_append]
    split
    · exact hkept.append (List.Sublist.refl _)
    · exact hkept.trans (List.sublist_append_left _ _)

theorem recorded_aggregate (id : String) (calls : List (RecordCall F)) :
    Queued (sinceReappeared id calls) (recorded calls).aggregateBurnHistory[id]? := by
  induction calls using List.reverseRecOn with
  | nil =>
    have hempty : (recorded ([] : List (RecordCall F))).aggregateBurnHistory[id]? = none :=
      Std.ExtTreeMap.getElem?_empty
    rw [hempty]
    exact ⟨rfl, nofun, nofun⟩
  | append_singleton calls c ih =>
    rw [recorded_concat, sinceReappeared_concat]
    show Queued _ (recordAggregate (recorded calls).aggregateBurnHistory c.snapshot c.workers)[id]?
    rw [recordAggregate_getElem? _ _ _ c.distinct]
    unfold RecordCall.reading
    cases hfind : c.snapshot.windows.find? (fun w => w.id == id) with
    | none => exact ⟨rfl, nofun, nofun⟩
    | some w => exact ih.extend c.snapshot c.workers w

theorem recorded_windows (id : String) (calls : List (RecordCall F)) (c : RecordCall F) :
    (recorded (calls ++ [c])).windows[id]? = c.reading id := by
  rw [recorded_concat]
  exact recordWindows_getElem? c.snapshot c.workers id c.distinct

omit [Flt F] in
theorem reading_isSome (c : RecordCall F) (id : String) :
    (c.reading id).isSome = true ↔ id ∈ c.snapshot.windows.map (·.id) := by
  unfold RecordCall.reading
  rw [Option.isSome_map, List.find?_isSome, List.mem_map]
  simp only [beq_iff_eq]

end Stores

/-! ## The high-water mark -/

/-- The mark covers every reading of its generation, and is one of them or zero. -/
theorem mark_spec (gen : List (WindowSample F64)) :
    (highWater gen).isNaN = false ∧
      (∀ r ∈ gen, r.usedFraction.isNaN = true ∨ r.usedFraction.totalPosition ≤ (highWater gen).totalPosition) ∧
      (highWater gen = Flt.zero ∨ ∃ r ∈ gen, highWater gen = r.usedFraction) := by
  have hfold : highWater gen = (gen.map (·.usedFraction)).foldl F64.max Flt.zero := by
    unfold highWater
    rw [List.foldl_map]
    rfl
  rw [hfold]
  obtain ⟨hnan, -, hcovers, hone⟩ := F64.foldl_max_spec (gen.map (·.usedFraction)) (m := Flt.zero) (by decide +kernel)
  refine ⟨hnan, fun r hr => hcovers _ (List.mem_map_of_mem hr), hone.imp id fun hmem => ?_⟩
  obtain ⟨r, hr, heq⟩ := List.mem_map.1 hmem
  exact ⟨r, hr, heq.symm⟩

/-- **The mark of a generation of fractions is the highest of them.** -/
theorem mark_highest {gen : List (WindowSample F64)} (hne : gen ≠ [])
    (hvalid : ∀ r ∈ gen, isFraction r.usedFraction = true) :
    (∀ r ∈ gen, r.usedFraction ≤ highWater gen) ∧
      ∃ r ∈ gen, Flt.beq (highWater gen) r.usedFraction = true := by
  obtain ⟨hnan, hcovers, hone⟩ := mark_spec gen
  have hpositive : ∀ r ∈ gen, r.usedFraction.isNaN = false ∧ (Flt.zero : F64) ≤ r.usedFraction := by
    intro r hr
    have hfraction := hvalid r hr
    simp only [isFraction, Flt.within, Bool.and_eq_true, decide_eq_true_eq] at hfraction
    exact ⟨F64.isNaN_of_isFinite hfraction.1, hfraction.2.1⟩
  have hbelow : ∀ r ∈ gen, r.usedFraction ≤ highWater gen := by
    intro r hr
    have hnumber := (hpositive r hr).1
    have hle : r.usedFraction.totalPosition ≤
        (highWater gen).totalPosition := by
      rcases hcovers r hr with hr' | hle
      · rw [hnumber] at hr'
        cases hr'
      · exact hle
    exact (F64.le_iff _ _).2 ⟨hnumber, hnan, F64.position_le_of_totalPosition_le hle⟩
  refine ⟨hbelow, ?_⟩
  rcases hone with hzero | ⟨r, hr, heq⟩
  · obtain ⟨r, rest, rfl⟩ := List.exists_cons_of_ne_nil hne
    have hr : r ∈ r :: rest := List.mem_cons_self
    refine ⟨r, hr, LawfulFlt.beq_of_le_of_le _ _ ?_ (hbelow r hr)⟩
    rw [hzero]
    exact (hpositive r hr).2
  · refine ⟨r, hr, ?_⟩
    have hself := hbelow r hr
    rw [heq] at hself ⊢
    exact LawfulFlt.beq_of_le_of_le _ _ hself hself

/-! ## Loading what was recorded -/

theorem map_eq_self {V : Type} {m : BTreeMap V} {f : String → V → V} (h : ∀ k v, m[k]? = some v → f k v = v) :
    m.map f = m := by
  apply Std.ExtTreeMap.ext_getElem?
  intro k
  rw [Std.ExtTreeMap.getElem?_map]
  cases hv : m[k]? with
  | none => rfl
  | some v => exact congrArg some (h k v hv)

/-- The retained readings are covered by the mark already. -/
theorem recoverMark_historyOf {gen : List (WindowSample F64)} {h : WindowHistory F64} (hgen : historyOf gen = some h) :
    h.recoverMark = h := by
  cases gen with
  | nil => cases hgen
  | cons anchor rest =>
    obtain ⟨hnan, hcovers, -⟩ := mark_spec (anchor :: rest)
    have hsamples : h.samples = keepLast maxHistorySamplesPerGeneration ((anchor :: rest).map (·.toHistory)) := by
      rw [← Option.some.inj hgen]
    have hmark : h.maxUsedFraction = highWater (anchor :: rest) := by
      rw [← Option.some.inj hgen]
    have hcovered : ∀ x ∈ h.samples.map (·.usedFraction),
        x.isNaN = true ∨ x.totalPosition ≤ h.maxUsedFraction.totalPosition := by
      intro x hx
      obtain ⟨sample, hsample, rfl⟩ := List.mem_map.1 hx
      rw [hsamples] at hsample
      obtain ⟨r, hr, rfl⟩ := List.mem_map.1 ((keepLast_sublist _ _).subset hsample)
      rw [hmark]
      exact hcovers r hr
    have hkept : (h.samples.map (·.usedFraction)).foldl F64.max h.maxUsedFraction = h.maxUsedFraction :=
      F64.foldl_max_eq_self (by rw [hmark]; exact hnan) hcovered
    rw [List.foldl_map] at hkept
    unfold WindowHistory.recoverMark
    rw [show h.samples.foldl (fun mark sample => Flt.max mark sample.usedFraction) h.maxUsedFraction =
      h.maxUsedFraction from hkept]

/-- The sample stores of an account are those of some run. -/
def FromRecords (a : AccountState F64) : Prop :=
  ∃ calls, a.history = (recorded calls).history ∧ a.aggregateBurnHistory = (recorded calls).aggregateBurnHistory

theorem normalise_account {a : AccountState F64} (h : FromRecords a) : a.normalise = a := by
  obtain ⟨calls, hhistory, haggregate⟩ := h
  have hmarks : a.history.map (fun _ h => h.recoverMark) = a.history := by
    refine map_eq_self fun id h hh => ?_
    rw [hhistory, recorded_history] at hh
    exact recoverMark_historyOf hh
  have hqueues : a.aggregateBurnHistory.map (fun _ samples => keepLast maxAggregateBurnSamples samples) =
      a.aggregateBurnHistory := by
    refine map_eq_self fun id samples hsamples => ?_
    rw [haggregate] at hsamples
    exact keepLast_of_length_le ((recorded_aggregate id calls).bounded samples hsamples)
  unfold AccountState.normalise
  rw [hmarks, hqueues]

/-- A state whose stores were recorded. -/
structure Recorded (stored : StoredState F64) : Prop where
  accounts : ∀ (name : String) (a : AccountState F64), stored.accounts[name]? = some a → FromRecords a
  placements : ∀ (name host : String) (hosts : BTreeMap (HostState F64)) (h : HostState F64),
    stored.hostStates[name]? = some hosts → hosts[host]? = some h →
    h.placementHistory.length ≤ maxPlacementHistorySamples

/-- **Loading changes nothing in what was recorded.** -/
theorem normalise_recorded {stored : StoredState F64} (h : Recorded stored)
    (hversion : stored.schemaVersion = stateSchemaVersion) : stored.normalise = stored := by
  have haccounts : stored.accounts.map (fun _ a => a.normalise) = stored.accounts :=
    map_eq_self fun name a ha => normalise_account (h.accounts name a ha)
  have hhosts : stored.hostStates.map (fun _ hosts => hosts.map (fun _ h => h.normalise)) = stored.hostStates := by
    refine map_eq_self fun name hosts hhosts => map_eq_self fun host s hs => ?_
    unfold HostState.normalise
    rw [keepLast_of_length_le (h.placements name host hosts s hhosts hs)]
  unfold StoredState.normalise
  rw [haccounts, hhosts, hversion, Nat.max_self, ← hversion]

/-! ## The law -/

/-- **What the stores hold after a run.** -/
structure SampleStoreLaw (calls : List (RecordCall F64)) : Prop where
  /-- Their keys are the windows of the last snapshot. -/
  keys : ∀ before last, calls = before ++ [last] → ∀ id,
    ((recorded calls).windows[id]?.isSome = true ↔ id ∈ last.snapshot.windows.map (·.id)) ∧
      ((recorded calls).history[id]?.isSome = true ↔ id ∈ last.snapshot.windows.map (·.id)) ∧
      ((recorded calls).aggregateBurnHistory[id]?.isSome = true ↔ id ∈ last.snapshot.windows.map (·.id))
  /-- A history has the first `resets_at` of its generation, its last readings and its highest. -/
  history : ∀ id h, (recorded calls).history[id]? = some h →
    ∃ (before within : List (RecordCall F64)) (anchor : WindowSample F64) (rest : List (WindowSample F64)),
      calls = before ++ within ∧ Generation id before within anchor rest ∧ h.resetsAt = anchor.resetsAt ∧
      h.samples = keepLast maxHistorySamplesPerGeneration ((anchor :: rest).map (·.toHistory)) ∧
      ((∀ r ∈ anchor :: rest, isFraction r.usedFraction = true) →
        (∀ r ∈ anchor :: rest, r.usedFraction ≤ h.maxUsedFraction) ∧
          ∃ r ∈ anchor :: rest, Flt.beq h.maxUsedFraction r.usedFraction = true)
  /-- A queue is bounded, and in the order of the readings since its window was absent. -/
  aggregate : ∀ id samples, (recorded calls).aggregateBurnHistory[id]? = some samples →
    samples.length ≤ maxAggregateBurnSamples ∧
      ∃ (before within : List (RecordCall F64)) (since : List (WindowSample F64)), calls = before ++ within ∧
        within.map (·.reading id) = since.map some ∧ (∀ c, before.getLast? = some c → c.reading id = none) ∧
        samples.Sublist (since.map (·.toAggregate))

theorem joinGeneration_isEmpty (gen : List (WindowSample F)) (reading : Option (WindowSample F)) :
    (joinGeneration gen reading).isEmpty = !reading.isSome := by
  cases reading with
  | none => cases gen <;> rfl
  | some r =>
    cases gen with
    | nil => rfl
    | cons anchor rest =>
      simp only [joinGeneration]
      split
      · rfl
      · rfl

theorem historyOf_isSome [Flt F] (gen : List (WindowSample F)) : (historyOf gen).isSome = !gen.isEmpty := by
  cases gen with
  | nil => rfl
  | cons anchor rest => rfl

theorem sample_stores (calls : List (RecordCall F64)) : SampleStoreLaw calls := by
  constructor
  · rintro before last rfl id
    rw [← reading_isSome, recorded_windows, recorded_history, historyOf_isSome, (recorded_aggregate id _).present,
      currentGeneration_concat, sinceReappeared_concat, joinGeneration_isEmpty, Bool.not_not]
    refine ⟨Iff.rfl, Iff.rfl, ?_⟩
    cases last.reading id with
    | none => simp [joinPresence]
    | some r => simp [joinPresence]
  · intro id h hh
    rw [recorded_history] at hh
    cases hgen : currentGeneration id calls with
    | nil =>
      rw [hgen] at hh
      cases hh
    | cons anchor rest =>
      rw [hgen] at hh
      obtain ⟨before, within, hsplit, hwithin⟩ := currentGeneration_spec hgen
      have hmark : h.maxUsedFraction = highWater (anchor :: rest) := by
        rw [← Option.some.inj hh]
      refine ⟨before, within, anchor, rest, hsplit, hwithin, ?_, ?_, ?_⟩
      · rw [← Option.some.inj hh]
      · rw [← Option.some.inj hh]
      · rw [hmark]
        exact mark_highest (List.cons_ne_nil _ _)
  · intro id samples hsamples
    have hqueued := recorded_aggregate id calls
    obtain ⟨before, within, hsplit, hwithin, habsent⟩ := sinceReappeared_spec id calls
    exact ⟨hqueued.bounded samples hsamples, before, within, _, hsplit, hwithin, habsent,
      hqueued.ordered samples hsamples⟩

/-- A load returns the state that the text reads back as, which is `stored` where the text reads back as it. -/
def LoadsAsRead (codec : StateCodec F64) (path : StatePath) (quarantine : String) (d : Directory UInt8)
    (stored : StoredState F64) : Prop :=
  ∃ text back, codec.toVecPretty stored = .ok text ∧ codec.fromSlice text = .ok back ∧
    (back.schemaVersion ≤ stateSchemaVersion → State.loadFrom codec path quarantine d = .ok (back.normalise, none)) ∧
    (back = stored → State.loadFrom codec path quarantine d = .ok (stored, none))

/-- **A saved state loads as its text reads back.** -/
theorem loadsAsRead_of_saved {codec : StateCodec F64} {path : StatePath} {pid : Nat} {fates : List (Fate UInt8)}
    {d : Directory UInt8} {stored : StoredState F64} (quarantine : String) (hrecorded : Recorded stored)
    (hok : (stored.saveRun codec path pid fates d).1 = .ok ()) :
    LoadsAsRead codec path quarantine (stored.saveRun codec path pid fates d).2.dir stored := by
  obtain ⟨text, back, htext, hback⟩ := saveRun_readable hok
  obtain ⟨_, ⟨hversion, text', htext', rfl⟩, hentry⟩ := (saveRun_spec stored pid fates d).2 hok
  rw [htext, Except.ok.injEq] at htext'
  rw [← htext'] at hentry
  have hloads : back.schemaVersion ≤ stateSchemaVersion →
      State.loadFrom codec path quarantine (stored.saveRun codec path pid fates d).2.dir = .ok (back.normalise, none) :=
    loadFrom_file hentry (codec.fromSlice_newline text back hback)
  refine ⟨text, back, htext, hback, hloads, ?_⟩
  rintro rfl
  rw [hloads (Nat.le_of_eq hversion), normalise_recorded hrecorded hversion]

/-- **The sample stores hold what was recorded**, and what was saved of them loads as its text reads back. -/
theorem sample_store_law : (∀ calls : List (RecordCall F64), SampleStoreLaw calls) ∧
    ∀ (codec : StateCodec F64) (path : StatePath) (pid : Nat) (fates : List (Fate UInt8)) (quarantine : String)
      (d : Directory UInt8) (stored : StoredState F64), Recorded stored →
      (stored.saveRun codec path pid fates d).1 = .ok () →
      LoadsAsRead codec path quarantine (stored.saveRun codec path pid fates d).2.dir stored :=
  ⟨sample_stores, fun _ _ _ _ quarantine _ _ hrecorded hok => loadsAsRead_of_saved quarantine hrecorded hok⟩

/-! ### A fraction that reads back as it is written, and one that does not -/

def epochCall (fraction : F64) : RecordCall F64 where
  snapshot := epochSnapshot fraction
  workers := 1
  target := 1
  distinct := by simp [epochSnapshot]

theorem readingState_recorded (fraction : F64) : Recorded (readingState fraction) where
  accounts name a ha := by
    unfold readingState at ha
    rw [Std.ExtTreeMap.getElem?_insert] at ha
    split at ha
    · cases ha
      exact ⟨[epochCall fraction], rfl, rfl⟩
    · simp at ha
  placements name host hosts h hhosts := by
    simp [readingState] at hhosts

/-- The texts that are written are read as their digits are. -/
theorem readingCodec_back {digits : Digits} (h : digits ∈ [aHalf, onePercent]) {text : Bytes} {back : StoredState F64}
    (htext : readingCodec.toVecPretty (readingState digits.fraction) = .ok text)
    (hback : readingCodec.fromSlice text = .ok back) : back = readingState digits.read := by
  rw [readingCodec_write digits h, Except.ok.injEq] at htext
  rw [← htext, readingCodec_read h, Except.ok.injEq] at hback
  exact hback.symm

theorem sample_store_law_half :
    State.loadFrom readingCodec statePath "state.json.corrupt"
      ((readingState aHalf.fraction).saveRun readingCodec statePath 42 [] Directory.empty).2.dir =
        .ok (readingState aHalf.fraction, none) := by
  have hread : aHalf.read = aHalf.fraction := by decide +kernel
  obtain ⟨text, back, htext, hback, -, hsame⟩ := sample_store_law.2 readingCodec statePath 42 [] "state.json.corrupt"
    Directory.empty _ (readingState_recorded aHalf.fraction) (by decide +kernel)
  exact hsame (by rw [readingCodec_back List.mem_cons_self htext hback, hread])

theorem onePercent_lost : ¬ ∀ stored : StoredState F64, Recorded stored →
    (stored.saveRun readingCodec statePath 42 [] Directory.empty).1 = .ok () →
    State.loadFrom readingCodec statePath "state.json.corrupt"
      (stored.saveRun readingCodec statePath 42 [] Directory.empty).2.dir = .ok (stored, none) := by
  intro hall
  have hrecorded := readingState_recorded onePercent.fraction
  have hok : ((readingState onePercent.fraction).saveRun readingCodec statePath 42 [] Directory.empty).1 = .ok () := by
    decide +kernel
  obtain ⟨text, back, htext, hback, hloads, -⟩ := loadsAsRead_of_saved "state.json.corrupt" hrecorded hok
  have hsame := hall _ hrecorded hok
  rw [readingCodec_back (List.mem_cons_of_mem _ List.mem_cons_self) htext hback] at hloads
  rw [hloads (by decide), Except.ok.injEq, Prod.mk.injEq] at hsame
  have hfraction := congrArg fractionOf hsame.1
  exact absurd hfraction (by decide +kernel)

/-! ### A generation shorter than its readings allow -/

/-- The readings of some last calls, each near the first of them. -/
def NearFirst (id : String) (within : List (RecordCall F)) (first : WindowSample F) (rest : List (WindowSample F)) :
    Prop :=
  within.map (·.reading id) = (first :: rest).map some ∧
    ∀ r ∈ rest, sameResetGeneration first.resetsAt r.resetsAt = true

/-- One window's reading, with its `resets_at` in seconds. -/
def jittered (resetsAt : Int) : RecordCall F64 where
  snapshot :=
    { observedAt := 0, fresh := true, eligibleBacklogCapacity := none, resetCredits := none, backpressure := none,
      saturation := none,
      windows := [{ id := "5h", usedFraction := Flt.zero, resetsAt := resetsAt * nanosPerSecond,
                    durationMinutes := some 300, reached := false }] }
  workers := 1
  target := 1
  distinct := by simp

/-- The third reading is too far from the first and opens a generation, though the second is near all that follow. -/
def drift : List (RecordCall F64) := [jittered 0, jittered 50, jittered 100, jittered 45]

def driftSample (resetsAt : Int) : WindowSample F64 :=
  { observedAt := 0, usedFraction := Flt.zero, resetsAt := resetsAt * nanosPerSecond, workers := 1 }

/-- The stored `resets_at` is not that of the longest generation its readings allow. -/
theorem generation_not_longest :
    ¬ ∀ (calls : List (RecordCall F64)) (id : String) (h : WindowHistory F64) (before within : List (RecordCall F64))
      (first : WindowSample F64) (rest : List (WindowSample F64)), (recorded calls).history[id]? = some h →
      calls = before ++ within → NearFirst id within first rest →
      (∀ (before' within' : List (RecordCall F64)) (first' : WindowSample F64) (rest' : List (WindowSample F64)),
        calls = before' ++ within' → NearFirst id within' first' rest' → within'.length ≤ within.length) →
      h.resetsAt = first.resetsAt := by
  intro hall
  have hgeneration : currentGeneration "5h" drift = [driftSample 100, driftSample 45] := by decide +kernel
  have hhistory := recorded_history "5h" drift
  rw [hgeneration] at hhistory
  have hfirst := hall drift "5h" _ [jittered 0] [jittered 50, jittered 100, jittered 45] (driftSample 50)
    [driftSample 100, driftSample 45] hhistory rfl ⟨by decide +kernel, by decide +kernel⟩ ?_
  · exact absurd hfirst (by decide)
  · intro before' within' first' rest' hsplit hnear
    cases before' with
    | nil =>
      obtain ⟨hreadings, hclose⟩ := hnear
      rw [← show drift = within' from hsplit] at hreadings
      have hall' : drift.map (·.reading "5h") =
          [driftSample 0, driftSample 50, driftSample 100, driftSample 45].map some := by decide +kernel
      rw [hall'] at hreadings
      cases List.map_injective_iff.2 (Option.some_injective _) hreadings
      exact absurd (hclose (driftSample 100) (by decide +kernel)) (by decide)
    | cons c before' =>
      have hlength := congrArg List.length hsplit
      rw [List.length_append, List.length_cons] at hlength
      have hfour : drift.length = 4 := rfl
      have hthree : [jittered 50, jittered 100, jittered 45].length = 3 := rfl
      omega

/-- Neither is the generation the longest one, nor does every recorded state load as it was saved. -/
theorem sample_store_exceptions :
    (¬ ∀ (calls : List (RecordCall F64)) (id : String) (h : WindowHistory F64) (before within : List (RecordCall F64))
      (first : WindowSample F64) (rest : List (WindowSample F64)), (recorded calls).history[id]? = some h →
      calls = before ++ within → NearFirst id within first rest →
      (∀ (before' within' : List (RecordCall F64)) (first' : WindowSample F64) (rest' : List (WindowSample F64)),
        calls = before' ++ within' → NearFirst id within' first' rest' → within'.length ≤ within.length) →
      h.resetsAt = first.resetsAt) ∧
    ¬ ∀ stored : StoredState F64, Recorded stored →
      (stored.saveRun readingCodec statePath 42 [] Directory.empty).1 = .ok () →
      State.loadFrom readingCodec statePath "state.json.corrupt"
        (stored.saveRun readingCodec statePath 42 [] Directory.empty).2.dir = .ok (stored, none) :=
  ⟨generation_not_longest, onePercent_lost⟩

end Subgov
