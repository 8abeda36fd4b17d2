import Subgov.Model
import Mathlib.Data.Rat.Floor
import Mathlib.Algebra.BigOperators.Group.List.Basic
/-!
# Collector — saturation from the counters of the proxy's replicas

A scrape reads every replica's lifetime counters at once.  The collector keeps the last scrape as a baseline and emits
what the counters have gained once the interval is long enough, for one set of replicas that did not restart in between.
-/
namespace Subgov

open FloatArith

namespace Collector

inductive Counter
  | requests
  | completed
  | retries
  | capacity
  | concurrency
  deriving DecidableEq

def counters : List Counter := [.requests, .completed, .retries, .capacity, .concurrency]

/-- What one scrape reads of a replica; a baseline of an older version may lack the 429 counter. -/
structure Reading where
  time : ℚ
  start : ℚ
  classified : Bool
  http429 : Option Nat
  http429Supported : Bool
  count : Counter → Nat

abbrev Readings := BTreeMap Reading

structure Limits where
  minimumInterval : Nat
  maximumInterval : Nat
  minimumAttempts : Int
  positive : 0 < minimumInterval
  ordered : minimumInterval ≤ maximumInterval

/-- Rounding to the nearest integer, halves to the even one. -/
def roundHalfEven (x : ℚ) : Int :=
  let rest := x - ⌊x⌋
  if rest < 1 / 2 then ⌊x⌋ else if 1 / 2 < rest then ⌊x⌋ + 1 else ⌊x⌋ + ⌊x⌋ % 2

theorem roundHalfEven_between {x : ℚ} {lo hi : Int} (hlo : lo ≤ x) (hhi : x ≤ hi) :
    lo ≤ roundHalfEven x ∧ roundHalfEven x ≤ hi := by
  have hfloor : lo ≤ ⌊x⌋ := Int.le_floor.2 hlo
  have hbelow : ⌊x⌋ ≤ hi := Int.cast_le.1 (le_trans (Int.floor_le x) hhi)
  unfold roundHalfEven
  dsimp only
  split
  · exact ⟨hfloor, hbelow⟩
  · rename_i hhalf
    -- a rest of half or more lies below the next integer, which is no larger than `hi`
    have hnext : ⌊x⌋ < hi := by
      refine lt_of_le_of_ne hbelow fun hsame => hhalf ?_
      rw [hsame]
      linarith
    split
    · omega
    · omega

/-! ## The pairs of a baseline and a scrape -/

/-- Each replica's reading in the baseline and now. -/
def pairs (previous readings : Readings) : List (Reading × Reading) :=
  readings.toList.filterMap fun entry => previous[entry.1]?.map fun old => (old, entry.2)

def total (replicas : List (Reading × Reading)) (field : Counter) : Nat :=
  (replicas.map fun pair => pair.2.count field - pair.1.count field).sum

def attempts (replicas : List (Reading × Reading)) : Int :=
  (total replicas .requests : Int) - total replicas .capacity + total replicas .retries

/-- The 429 answers among the attempts: unknown where a reading lacks their counter or it fell. -/
def rejected (replicas : List (Reading × Reading)) : Option Nat :=
  let comparable := replicas.all fun pair => pair.2.http429Supported && pair.1.http429Supported &&
    pair.2.http429.any fun new => pair.1.http429.any fun old => decide (old ≤ new)
  if comparable then some (replicas.map fun pair => pair.2.http429.getD 0 - pair.1.http429.getD 0).sum else none

section Update

-- the difference of two times as the program computes it; a float subtraction may round
variable (minus : ℚ → ℚ → ℚ) (limits : Limits)

def elapsed (replicas : List (Reading × Reading)) : List ℚ := replicas.map fun pair => minus pair.2.time pair.1.time

/-- The replica did not restart, no counter fell, and the interval is one. -/
def pairComparable (pair : Reading × Reading) : Bool :=
  decide (pair.2.start = pair.1.start) && counters.all (fun field => decide (pair.1.count field ≤ pair.2.count field)) &&
    decide (0 < minus pair.2.time pair.1.time) && decide (minus pair.2.time pair.1.time ≤ limits.maximumInterval)

def comparable (previous readings : Readings) : Bool :=
  previous.keys == readings.keys && !readings.isEmpty && (pairs previous readings).all (pairComparable minus limits)

structure Emission (F : Type) where
  saturation : SaturationSnapshot F
  backpressure : BackpressureSnapshot F

variable (F : Type) [Flt F]

/-- The fraction of a count, where there are attempts enough to tell. -/
def fraction (part : Nat) (attempts : Int) : Option F :=
  if limits.minimumAttempts ≤ attempts ∧ 0 < attempts then some (Flt.ofRat (part / attempts)) else none

def windowSeconds (replicas : List (Reading × Reading)) : Nat :=
  (roundHalfEven ((elapsed minus replicas).max?.getD 0)).toNat

def emission (replicas : List (Reading × Reading)) : Emission F where
  saturation :=
    { completedRequests := total replicas .completed
      windowSeconds := windowSeconds minus replicas
      attempts := (attempts replicas).toNat
      upstreamConcurrencyFraction := if replicas.all fun pair => pair.2.classified && pair.1.classified then
        fraction limits F (total replicas .concurrency) (attempts replicas) else none }
  backpressure :=
    { upstream429Fraction := ((rejected replicas).filter fun count : Nat => decide (count ≤ attempts replicas)).bind
        fun count => fraction limits F count (attempts replicas)
      attempts := (attempts replicas).toNat
      windowSeconds := windowSeconds minus replicas }

/-- What is emitted, and the baseline that is left. -/
def updateSaturation (previous readings : Readings) : Option (Emission F) × Readings :=
  let replicas := pairs previous readings
  if !comparable minus limits previous readings then (none, readings)
  else if (elapsed minus replicas).min?.any fun least : ℚ => decide (least < limits.minimumInterval) then (none, previous)
  else if attempts replicas < 0 ∨ attempts replicas < total replicas .concurrency ∨
      attempts replicas < total replicas .completed then (none, readings)
  else (some (emission minus limits F replicas), readings)

/-! ## The baseline between the collections -/

/-- One collection: the membership it proved, whether every replica answered in order, and the readings, all taken at
one time. -/
structure Scrape where
  membership : Option (List String) := none
  healthy : Bool := true
  complete : Bool := true
  time : ℚ
  readings : Readings
  atOnce : ∀ (key : String) (reading : Reading), readings[key]? = some reading → reading.time = time

def Scrape.full (scrape : Scrape) : Bool := scrape.healthy && scrape.complete

structure CollectorState where
  membership : Option (List String) := none
  replicas : Readings := ∅

/-- The baseline a scrape is compared with: none after a change of the membership. -/
def CollectorState.baseline (state : CollectorState) (scrape : Scrape) : Readings :=
  if state.membership = scrape.membership then state.replicas else ∅

/-- The part of a collection under the state's lock. -/
def collect (state : CollectorState) (scrape : Scrape) : Option (Emission F) × CollectorState :=
  if scrape.full then
    let update := updateSaturation minus limits F (state.baseline scrape) scrape.readings
    (update.1, { membership := scrape.membership, replicas := update.2 })
  else (none, { membership := scrape.membership, replicas := ∅ })

/-- An emission with the two scrapes it was computed from. -/
structure Interval where
  baseline : Readings
  current : Readings
  emitted : Emission F

/-- The emissions of a run of collections. -/
def intervals : CollectorState → List Scrape → List (Interval F)
  | _, [] => []
  | state, scrape :: scrapes =>
    let collected := collect minus limits F state scrape
    (collected.1.map fun emitted =>
      { baseline := state.baseline scrape, current := scrape.readings, emitted }).toList ++ intervals collected.2 scrapes

end Update

/-! ## What one update does -/

theorem mem_pairs {previous readings : Readings} {old new : Reading} :
    (old, new) ∈ pairs previous readings ↔ ∃ key : String, previous[key]? = some old ∧ readings[key]? = some new := by
  unfold pairs
  rw [List.mem_filterMap]
  constructor
  · rintro ⟨⟨key, reading⟩, hentry, hpair⟩
    obtain ⟨old', hold, hsame⟩ := Option.map_eq_some_iff.1 hpair
    cases hsame
    exact ⟨key, hold, Std.ExtTreeMap.mem_toList_iff_getElem?_eq_some.1 hentry⟩
  · rintro ⟨key, hold, hnew⟩
    refine ⟨(key, new), Std.ExtTreeMap.mem_toList_iff_getElem?_eq_some.2 hnew, ?_⟩
    rw [hold]
    rfl

section Outcomes

variable {minus : ℚ → ℚ → ℚ} {limits : Limits} {F : Type} [Flt F] {previous readings : Readings}

theorem comparable_keys (h : comparable minus limits previous readings = true) : previous.keys = readings.keys := by
  unfold comparable at h
  rw [Bool.and_eq_true, Bool.and_eq_true, beq_iff_eq] at h
  exact h.1.1

theorem comparable_pair (h : comparable minus limits previous readings = true) {key : String} {old new : Reading}
    (hold : previous[key]? = some old) (hnew : readings[key]? = some new) :
    new.start = old.start ∧ (∀ field, old.count field ≤ new.count field) ∧
      minus new.time old.time ≤ limits.maximumInterval := by
  unfold comparable at h
  rw [Bool.and_eq_true, List.all_eq_true] at h
  have hpair := h.2 (old, new) (mem_pairs.2 ⟨key, hold, hnew⟩)
  unfold pairComparable at hpair
  simp only [Bool.and_eq_true, decide_eq_true_eq, List.all_eq_true] at hpair
  obtain ⟨⟨⟨hstart, hcounts⟩, -⟩, hmost⟩ := hpair
  refine ⟨hstart, fun field => hcounts field ?_, hmost⟩
  cases field <;> decide

/-- Both scrapes of a comparison read the same replicas. -/
theorem comparable_isSome (h : comparable minus limits previous readings = true) (key : String) :
    previous[key]?.isSome = readings[key]?.isSome := by
  have hkeys := comparable_keys h
  rw [Bool.eq_iff_iff, Std.ExtTreeMap.isSome_getElem?_iff_mem, Std.ExtTreeMap.isSome_getElem?_iff_mem,
    ← Std.ExtTreeMap.mem_keys, ← Std.ExtTreeMap.mem_keys, hkeys]

theorem pairs_empty (readings : Readings) : pairs ∅ readings = [] := by
  unfold pairs
  refine List.filterMap_eq_nil_iff.2 fun entry _ => ?_
  rw [Std.ExtTreeMap.getElem?_empty]
  rfl

theorem pairs_ne_nil (h : comparable minus limits previous readings = true) : pairs previous readings ≠ [] := by
  have hread : readings.isEmpty = false := by
    unfold comparable at h
    rw [Bool.and_eq_true, Bool.and_eq_true, Bool.not_eq_true'] at h
    exact h.1.2
  have hentries : readings.toList ≠ [] := by
    intro hnil
    have hempty := Std.ExtTreeMap.isEmpty_toList (t := readings)
    rw [hnil, hread] at hempty
    cases hempty
  obtain ⟨⟨key, new⟩, hentry⟩ := List.exists_mem_of_ne_nil _ hentries
  have hnew := Std.ExtTreeMap.mem_toList_iff_getElem?_eq_some.1 hentry
  have hold := comparable_isSome h key
  rw [hnew, Option.isSome_some, Option.isSome_iff_exists] at hold
  obtain ⟨old, hold⟩ := hold
  exact List.ne_nil_of_mem (mem_pairs.2 ⟨key, hold, hnew⟩)

/-- An update emits, or leaves the readings as the baseline, or keeps a comparable baseline. -/
inductive Updates (minus : ℚ → ℚ → ℚ) (limits : Limits) (F : Type) [Flt F] (previous readings : Readings) :
    Option (Emission F) × Readings → Prop
  | emits (hcomparable : comparable minus limits previous readings = true)
    (hlong : ∀ e ∈ elapsed minus (pairs previous readings), (limits.minimumInterval : ℚ) ≤ e)
    (hattempts : 0 ≤ attempts (pairs previous readings))
    (hconcurrency : (total (pairs previous readings) .concurrency : Int) ≤ attempts (pairs previous readings))
    (hcompleted : (total (pairs previous readings) .completed : Int) ≤ attempts (pairs previous readings)) :
    Updates minus limits F previous readings (some (emission minus limits F (pairs previous readings)), readings)
  | replaces : Updates minus limits F previous readings (none, readings)
  | retains (hcomparable : comparable minus limits previous readings = true) :
    Updates minus limits F previous readings (none, previous)

theorem updateSaturation_updates : Updates minus limits F previous readings
    (updateSaturation minus limits F previous readings) := by
  unfold updateSaturation
  dsimp only
  split
  · exact .replaces
  · rename_i hnot
    have hcomparable : comparable minus limits previous readings = true := by simpa using hnot
    split
    · exact .retains hcomparable
    · rename_i hlong
      split
      · exact .replaces
      · rename_i hconsistent
        simp only [not_or, not_lt] at hconsistent
        refine .emits hcomparable (fun e he => ?_) hconsistent.1 hconsistent.2.1 hconsistent.2.2
        by_contra hshort
        cases hleast : (elapsed minus (pairs previous readings)).min? with
        | none =>
          rw [List.min?_eq_none_iff.1 hleast] at he
          cases he
        | some least =>
          have hle : least ≤ e := (List.min?_eq_some_iff.1 hleast).2 e he
          rw [hleast, Option.any_some, decide_eq_true_eq] at hlong
          exact hlong (lt_of_le_of_lt hle (not_le.1 hshort))

theorem windowSeconds_between (hcomparable : comparable minus limits previous readings = true)
    (hlong : ∀ e ∈ elapsed minus (pairs previous readings), (limits.minimumInterval : ℚ) ≤ e) :
    limits.minimumInterval ≤ windowSeconds minus (pairs previous readings) ∧
      windowSeconds minus (pairs previous readings) ≤ limits.maximumInterval := by
  obtain ⟨e, he⟩ : ∃ e, (elapsed minus (pairs previous readings)).max? = some e := by
    cases hmost : (elapsed minus (pairs previous readings)).max? with
    | none => exact absurd (List.map_eq_nil_iff.1 (List.max?_eq_none_iff.1 hmost)) (pairs_ne_nil hcomparable)
    | some e => exact ⟨e, rfl⟩
  have hmem : e ∈ elapsed minus (pairs previous readings) := (List.max?_eq_some_iff.1 he).1
  have hmost : e ≤ limits.maximumInterval := by
    obtain ⟨⟨old, new⟩, hpair, rfl⟩ := List.mem_map.1 hmem
    obtain ⟨key, hold, hnew⟩ := mem_pairs.1 hpair
    exact (comparable_pair hcomparable hold hnew).2.2
  have hbetween : (limits.minimumInterval : Int) ≤ roundHalfEven e ∧ roundHalfEven e ≤ limits.maximumInterval :=
    roundHalfEven_between (by exact_mod_cast hlong e hmem) (by exact_mod_cast hmost)
  unfold windowSeconds
  rw [he, Option.getD_some]
  omega

theorem fraction_isFraction [UnitFlt F] {part : Nat} {attempts : Int} (h : (part : Int) ≤ attempts) :
    (fraction limits F part attempts).all isFraction = true := by
  unfold fraction
  split
  · rename_i hattempts
    have hpositive : (0 : ℚ) < attempts := by exact_mod_cast hattempts.2
    have hpart : (0 : ℚ) ≤ part := Nat.cast_nonneg part
    have hle : (part : ℚ) ≤ attempts := by exact_mod_cast h
    have hunit := UnitFlt.ofRat_unit (F := F) ((part : ℚ) / attempts) (div_nonneg hpart (le_of_lt hpositive))
      ((div_le_one hpositive).2 hle)
    rw [Option.all_some, isFraction, hunit.1, hunit.2]
    rfl
  · rfl

variable (minus limits F) in
/-- **An emission passes the checks on its snapshots.** -/
theorem emission_valid [UnitFlt F] {replicas : List (Reading × Reading)} (hattempts : 0 ≤ attempts replicas)
    (hconcurrency : (total replicas .concurrency : Int) ≤ attempts replicas)
    (hcompleted : (total replicas .completed : Int) ≤ attempts replicas) :
    (emission minus limits F replicas).saturation.validate = .ok () ∧
      (emission minus limits F replicas).backpressure.validate = .ok () := by
  constructor
  · unfold SaturationSnapshot.validate emission
    rw [andThen_ok, ensure_ok, ensure_ok, decide_eq_true_eq]
    dsimp only
    refine ⟨by omega, ?_⟩
    split
    · exact fraction_isFraction hconcurrency
    · rfl
  · unfold BackpressureSnapshot.validate emission
    rw [ensure_ok]
    dsimp only
    cases hrejected : (rejected replicas).filter fun count : Nat => decide (count ≤ attempts replicas) with
    | none => rfl
    | some count => exact fraction_isFraction (of_decide_eq_true (Option.filter_eq_some_iff.1 hrejected).2)

end Outcomes

/-! ## A run of collections -/

section Run

variable (minus : ℚ → ℚ → ℚ) (limits : Limits) (F : Type) [Flt F]

/-- The emission sums what each counter of one set of replicas gained between the two scrapes, none of which restarted
or lost a count. -/
structure SumsDeltas (I : Interval F) : Prop where
  replicas : I.baseline.keys = I.current.keys
  unbroken : ∀ (key : String) (old new : Reading), I.baseline[key]? = some old → I.current[key]? = some new →
    new.start = old.start ∧ ∀ field, old.count field ≤ new.count field
  completed : I.emitted.saturation.completedRequests = total (pairs I.baseline I.current) .completed
  attempts : (I.emitted.saturation.attempts : Int) = total (pairs I.baseline I.current) .requests -
    total (pairs I.baseline I.current) .capacity + total (pairs I.baseline I.current) .retries
  concurrency : ∀ share, I.emitted.saturation.upstreamConcurrencyFraction = some share →
    share = Flt.ofRat (total (pairs I.baseline I.current) .concurrency / I.emitted.saturation.attempts)
  throttled : ∀ share, I.emitted.backpressure.upstream429Fraction = some share →
    ∃ count, rejected (pairs I.baseline I.current) = some count ∧
      share = Flt.ofRat (count / I.emitted.saturation.attempts)

/-- What the governor's snapshots require, and the length of the interval. -/
structure WithinBounds (I : Interval F) : Prop where
  completed : I.emitted.saturation.completedRequests ≤ I.emitted.saturation.attempts
  saturation : I.emitted.saturation.validate = .ok ()
  backpressure : I.emitted.backpressure.validate = .ok ()
  atLeast : limits.minimumInterval ≤ I.emitted.saturation.windowSeconds
  atMost : I.emitted.saturation.windowSeconds ≤ limits.maximumInterval
  sameInterval : I.emitted.backpressure.windowSeconds = I.emitted.saturation.windowSeconds ∧
    I.emitted.backpressure.attempts = I.emitted.saturation.attempts

/-- The counter of a replica, as long as its process is the one started then. -/
def value (key : String) (start : ℚ) (field : Counter) (readings : Readings) : Option Nat :=
  (readings[key]?.filter fun reading => decide (reading.start = start)).map (·.count field)

/-- What an emission counts of one replica's counter. -/
def Interval.delta (key : String) (start : ℚ) (field : Counter) (I : Interval F) : Nat :=
  match value key start field I.baseline, value key start field I.current with
  | some old, some new => new - old
  | _, _ => 0

/-- What a counter gained over successive readings. -/
def growth : List Nat → Nat
  | first :: next :: rest => (next - first) + growth (next :: rest)
  | _ => 0

/-- The readings of a counter in the full scrapes of a run. -/
def values (key : String) (start : ℚ) (field : Counter) (run : List Scrape) : List Nat :=
  run.filterMap fun scrape => if scrape.full then value key start field scrape.readings else none

/-- The baseline is empty or the readings of a full scrape of the past. -/
def Based (past : List Scrape) (state : CollectorState) : Prop :=
  state.replicas = ∅ ∨ ∃ base ∈ past, base.full = true ∧ base.readings = state.replicas

variable {minus limits F} {past run : List Scrape} {state : CollectorState} {scrape : Scrape}

variable (minus limits F) in
/-- A collection compares full scrapes only, and drops the baseline otherwise. -/
theorem collect_cases (state : CollectorState) (scrape : Scrape) :
    (scrape.full = false ∧ (collect minus limits F state scrape).1 = none ∧
      (collect minus limits F state scrape).2.replicas = ∅) ∨
    (scrape.full = true ∧ Updates minus limits F (state.baseline scrape) scrape.readings
      ((collect minus limits F state scrape).1, (collect minus limits F state scrape).2.replicas)) := by
  unfold collect
  cases hfull : scrape.full with
  | false =>
    refine Or.inl ⟨rfl, ?_, ?_⟩
    · rw [if_neg Bool.false_ne_true]
    · rw [if_neg Bool.false_ne_true]
  | true =>
    rw [if_pos rfl]
    exact Or.inr ⟨rfl, updateSaturation_updates⟩

theorem baseline_of_comparable (h : comparable minus limits (state.baseline scrape) scrape.readings = true) :
    state.baseline scrape = state.replicas := by
  unfold CollectorState.baseline at h ⊢
  split
  · rfl
  · rename_i hmember
    rw [if_neg hmember] at h
    exact absurd (pairs_empty scrape.readings) (pairs_ne_nil h)

theorem Based.collect (h : Based past state) :
    Based (past ++ [scrape]) (collect minus limits F state scrape).2 := by
  have hkept : state.replicas = ∅ ∨ ∃ base ∈ past ++ [scrape], base.full = true ∧ base.readings = state.replicas :=
    h.imp id fun ⟨base, hbase, hsame⟩ => ⟨base, List.mem_append_left _ hbase, hsame⟩
  rcases collect_cases minus limits F state scrape with ⟨-, -, hempty⟩ | ⟨hfull, hupdate⟩
  · exact Or.inl hempty
  · have hscrape : scrape ∈ past ++ [scrape] := List.mem_append_right _ List.mem_cons_self
    unfold Based
    generalize (Collector.collect minus limits F state scrape).1 = emitted at hupdate
    generalize (Collector.collect minus limits F state scrape).2.replicas = left at hupdate ⊢
    cases hupdate with
    | emits => exact Or.inr ⟨scrape, hscrape, hfull, rfl⟩
    | replaces => exact Or.inr ⟨scrape, hscrape, hfull, rfl⟩
    | retains hcomparable =>
      rw [baseline_of_comparable hcomparable]
      exact hkept

/-- What a collection that emits has compared. -/
structure Emits (minus : ℚ → ℚ → ℚ) (limits : Limits) (F : Type) [Flt F] (state : CollectorState) (scrape : Scrape)
    (emitted : Emission F) : Prop where
  full : scrape.full = true
  compared : comparable minus limits state.replicas scrape.readings = true
  baseline : state.baseline scrape = state.replicas
  long : ∀ e ∈ elapsed minus (pairs state.replicas scrape.readings), (limits.minimumInterval : ℚ) ≤ e
  attempts : 0 ≤ attempts (pairs state.replicas scrape.readings)
  concurrency : (total (pairs state.replicas scrape.readings) .concurrency : Int) ≤
    Collector.attempts (pairs state.replicas scrape.readings)
  completed : (total (pairs state.replicas scrape.readings) .completed : Int) ≤
    Collector.attempts (pairs state.replicas scrape.readings)
  emitted : emitted = emission minus limits F (pairs state.replicas scrape.readings)
  left : (collect minus limits F state scrape).2.replicas = scrape.readings

theorem emits_of_collect {emitted : Emission F} (h : (collect minus limits F state scrape).1 = some emitted) :
    Emits minus limits F state scrape emitted := by
  rcases collect_cases minus limits F state scrape with ⟨-, hnone, -⟩ | ⟨hfull, hupdate⟩
  · rw [hnone] at h
    cases h
  · rw [h] at hupdate
    generalize hleft : (collect minus limits F state scrape).2.replicas = left at hupdate
    cases hupdate with
    | emits hcomparable hlong hattempts hconcurrency hcompleted =>
      have hbase := baseline_of_comparable hcomparable
      rw [hbase] at hcomparable hlong hattempts hconcurrency hcompleted ⊢
      exact
        { full := hfull
          compared := hcomparable
          baseline := hbase
          long := hlong
          attempts := hattempts
          concurrency := hconcurrency
          completed := hcompleted
          emitted := rfl
          left := hleft }

/-- An emission of a run: the scrape it was made at, and the state before it. -/
theorem mem_intervals {I : Interval F} :
    ∀ {run : List Scrape} {state : CollectorState}, I ∈ intervals minus limits F state run →
      ∃ before scrape after, run = before ++ scrape :: after ∧
        Emits minus limits F (before.foldl (fun s scrape => (collect minus limits F s scrape).2) state) scrape I.emitted ∧
        I.baseline = (before.foldl (fun s scrape => (collect minus limits F s scrape).2) state).replicas ∧
        I.current = scrape.readings
  | [], _, h => absurd h List.not_mem_nil
  | scrape :: run, state, h => by
    unfold intervals at h
    rcases List.mem_append.1 h with hhead | hrest
    · obtain ⟨emitted, hemitted, rfl⟩ := Option.map_eq_some_iff.1 (Option.mem_toList.1 hhead)
      have hemits := emits_of_collect hemitted
      exact ⟨[], scrape, run, rfl, hemits, hemits.baseline, rfl⟩
    · obtain ⟨before, s, after, hrun, hemits, hbaseline, hcurrent⟩ := mem_intervals hrest
      refine ⟨scrape :: before, s, after, ?_, hemits, hbaseline, hcurrent⟩
      rw [hrun, List.cons_append]

variable (minus limits F) in
/-- The baseline of a run's state is a full scrape of the run. -/
theorem based_foldl (h : Based past state) (run : List Scrape) :
    Based (past ++ run) (run.foldl (fun s scrape => (Collector.collect minus limits F s scrape).2) state) := by
  induction run generalizing past state with
  | nil =>
    rw [List.append_nil]
    exact h
  | cons scrape run ih =>
    rw [List.foldl_cons, List.append_cons]
    exact ih h.collect

/-- **Every emission was computed from two full scrapes of the run**, the baseline the earlier one. -/
theorem interval_scrapes (hbased : Based past state) {I : Interval F} (hI : I ∈ intervals minus limits F state run) :
    ∃ before base middle scrape after, past ++ run = before ++ base :: middle ++ scrape :: after ∧ base.full = true ∧
      scrape.full = true ∧ I.baseline = base.readings ∧ I.current = scrape.readings := by
  obtain ⟨front, scrape, after, rfl, hemits, hbaseline, hcurrent⟩ := mem_intervals hI
  rcases based_foldl minus limits F hbased front with hempty | ⟨base, hbase, hfull, hsame⟩
  · have hcompared := pairs_ne_nil hemits.compared
    rw [hempty] at hcompared
    exact absurd (pairs_empty scrape.readings) hcompared
  · obtain ⟨before, middle, hsplit⟩ := List.append_of_mem hbase
    refine ⟨before, base, middle, scrape, after, ?_, hfull, hemits.full, ?_, hcurrent⟩
    · rw [← List.append_assoc, hsplit]
    · rw [hbaseline, hsame]

theorem time_of_split {all before middle after : List Scrape} {base scrape : Scrape}
    (htimes : all.Pairwise fun s s' => s.time < s'.time) (h : all = before ++ base :: middle ++ scrape :: after) :
    base.time < scrape.time := by
  rw [h, List.append_assoc, List.cons_append] at htimes
  have htail := (List.pairwise_append.1 htimes).2.1
  exact (List.pairwise_cons.1 htail).1 scrape (List.mem_append_right _ List.mem_cons_self)

/-- The first interval ends no later than the second one starts. -/
def Interval.Precedes (I J : Interval F) : Prop :=
  ∀ (key key' : String) (ends starts : Reading), I.current[key]? = some ends → J.baseline[key']? = some starts →
    ends.time ≤ starts.time

/-- **The intervals of a run do not overlap.** -/
theorem intervals_pairwise (htimes : run.Pairwise fun s s' => s.time < s'.time) :
    (intervals minus limits F state run).Pairwise Interval.Precedes := by
  induction run generalizing state with
  | nil => exact List.Pairwise.nil
  | cons scrape run ih =>
    obtain ⟨hfirst, hrest⟩ := List.pairwise_cons.1 htimes
    unfold intervals
    dsimp only
    refine List.pairwise_append.2 ⟨?_, ih hrest, fun I hI J hJ => ?_⟩
    · cases (collect minus limits F state scrape).1 with
      | none => exact List.Pairwise.nil
      | some emitted => exact List.pairwise_singleton _ _
    · obtain ⟨emitted, hemitted, rfl⟩ := Option.map_eq_some_iff.1 (Option.mem_toList.1 hI)
      have hemits := emits_of_collect hemitted
      have hbased : Based [scrape] (collect minus limits F state scrape).2 :=
        Or.inr ⟨scrape, List.mem_cons_self, hemits.full, hemits.left.symm⟩
      obtain ⟨before, base, middle, last, after, hsplit, -, -, hbaseline, -⟩ := interval_scrapes hbased hJ
      -- the baseline is this scrape or a later one
      have hbase : base ∈ [scrape] ++ run := by
        rw [hsplit, List.append_assoc]
        exact List.mem_append_right _ List.mem_cons_self
      intro key key' ends starts hends hstarts
      rw [hbaseline] at hstarts
      rw [scrape.atOnce key ends hends, base.atOnce key' starts hstarts]
      rcases List.mem_append.1 hbase with hsame | hlater
      · rw [List.mem_singleton.1 hsame]
      · exact le_of_lt (hfirst base hlater)

section Growth

variable {key : String} {start : ℚ} {field : Counter}

theorem value_empty : value key start field (∅ : Readings) = none := by
  unfold value
  rw [Std.ExtTreeMap.getElem?_empty]
  rfl

theorem value_of_comparable {previous readings : Readings} (h : comparable minus limits previous readings = true) :
    (value key start field previous = none ∧ value key start field readings = none) ∨
      ∃ old new, value key start field previous = some old ∧ value key start field readings = some new ∧ old ≤ new := by
  have hsome := comparable_isSome h key
  unfold value
  cases hold : previous[key]? with
  | none =>
    rw [hold, Option.isSome_none] at hsome
    rw [Option.isSome_eq_false_iff.1 hsome.symm |> Option.isNone_iff_eq_none.1]
    exact Or.inl ⟨rfl, rfl⟩
  | some old =>
    rw [hold, Option.isSome_some] at hsome
    obtain ⟨new, hnew⟩ := Option.isSome_iff_exists.1 hsome.symm
    obtain ⟨hstart, hcounts, -⟩ := comparable_pair h hold hnew
    rw [hnew]
    by_cases hsame : old.start = start
    · refine Or.inr ⟨old.count field, new.count field, ?_, ?_, hcounts field⟩
      · rw [Option.filter_some, if_pos (decide_eq_true hsame)]
        rfl
      · rw [Option.filter_some, if_pos (decide_eq_true (hstart.trans hsame))]
        rfl
    · refine Or.inl ⟨?_, ?_⟩
      · rw [Option.filter_some, if_neg fun h => hsame (of_decide_eq_true h)]
        rfl
      · rw [Option.filter_some, if_neg fun h => hsame (hstart.symm.trans (of_decide_eq_true h))]
        rfl

/-- What a counter has gained since the baseline, by its last reading. -/
def sinceBaseline (last base : Option Nat) : Nat :=
  match base, last with
  | some base, some last => last - base
  | _, _ => 0

theorem growth_cons (last : Option Nat) (next : Nat) (rest : List Nat) :
    growth (last.toList ++ next :: rest) = (last.elim 0 fun last => next - last) + growth (next :: rest) := by
  cases last with
  | none => exact (Nat.zero_add _).symm
  | some last => rfl

theorem values_cons (scrape : Scrape) (run : List Scrape) : values key start field (scrape :: run) =
    (if scrape.full then value key start field scrape.readings else none).toList ++ values key start field run := by
  unfold values
  rw [List.filterMap_cons]
  cases (if scrape.full then value key start field scrape.readings else none) with
  | none => rfl
  | some n => rfl

/-- A full scrape hands out what the counter gained since the baseline, or nothing: then the baseline stays, or gives
way to the reading. -/
def HandsOut (base reading left : Option Nat) (delta : Nat) : Prop :=
  (delta = 0 ∧ left = reading) ∨ ∃ old new, base = some old ∧ reading = some new ∧ old ≤ new ∧
    ((delta = new - old ∧ left = some new) ∨ (delta = 0 ∧ left = some old))

theorem handsOut {left : Readings} {emitted : Option (Emission F)}
    (h : Updates minus limits F (state.baseline scrape) scrape.readings (emitted, left)) :
    HandsOut (value key start field state.replicas) (value key start field scrape.readings)
      (value key start field left) ((emitted.map fun emitted =>
        ({ baseline := state.baseline scrape, current := scrape.readings, emitted } : Interval F)).toList.map
          (Interval.delta F key start field)).sum := by
  cases h with
  | replaces => exact Or.inl ⟨rfl, rfl⟩
  | emits hcomparable =>
    have hbase := baseline_of_comparable hcomparable
    rw [hbase] at hcomparable ⊢
    rw [Option.map_some, Option.toList_some, List.map_singleton, List.sum_singleton]
    unfold Interval.delta
    rcases value_of_comparable hcomparable with ⟨hold, hnew⟩ | ⟨old, new, hold, hnew, hle⟩
    · rw [hold, hnew]
      exact Or.inl ⟨rfl, rfl⟩
    · rw [hold, hnew]
      exact Or.inr ⟨old, new, rfl, rfl, hle, Or.inl ⟨rfl, rfl⟩⟩
  | retains hcomparable =>
    have hbase := baseline_of_comparable hcomparable
    rw [hbase] at hcomparable ⊢
    rcases value_of_comparable hcomparable with ⟨hold, hnew⟩ | ⟨old, new, hold, hnew, hle⟩
    · exact Or.inl ⟨rfl, hold.trans hnew.symm⟩
    · exact Or.inr ⟨old, new, hold, hnew, hle, Or.inr ⟨rfl, hold⟩⟩

/-- One full scrape: what it emits and what it leaves to hand out are within what there was and what the counter gained. -/
theorem scrape_bound {last base reading left : Option Nat} {delta : Nat} (rest : List Nat)
    (hlast : ∀ old, base = some old → ∃ n, last = some n ∧ old ≤ n) (h : HandsOut base reading left delta) :
    (∀ old, left = some old → ∃ n, reading.or last = some n ∧ old ≤ n) ∧
      delta + (growth ((reading.or last).toList ++ rest) + sinceBaseline (reading.or last) left) ≤
        growth (last.toList ++ (reading.toList ++ rest)) + sinceBaseline last base := by
  rcases h with ⟨rfl, rfl⟩ | ⟨old, new, rfl, rfl, hle, hleft⟩
  · cases left with
    | none =>
      refine ⟨nofun, ?_⟩
      have hzero : sinceBaseline last none = 0 := rfl
      rw [Option.none_or, Option.toList_none, List.nil_append, hzero]
      omega
    | some new =>
      refine ⟨fun old hold => ⟨new, rfl, le_of_eq (Option.some.inj hold).symm⟩, ?_⟩
      have hzero : sinceBaseline (some new) (some new) = 0 := Nat.sub_self new
      rw [Option.some_or, Option.toList_some, List.singleton_append, growth_cons, hzero]
      omega
  · obtain ⟨n, rfl, hn⟩ := hlast old rfl
    rw [Option.some_or, Option.toList_some, List.singleton_append, growth_cons]
    have hbase : sinceBaseline (some n) (some old) = n - old := rfl
    rw [hbase, Option.elim_some]
    rcases hleft with ⟨rfl, rfl⟩ | ⟨rfl, rfl⟩
    · refine ⟨fun old' hold => ⟨new, rfl, le_of_eq (Option.some.inj hold).symm⟩, ?_⟩
      have hzero : sinceBaseline (some new) (some new) = 0 := Nat.sub_self new
      omega
    · refine ⟨fun old' hold => ⟨new, rfl, (Option.some.inj hold) ▸ hle⟩, ?_⟩
      have hnew : sinceBaseline (some new) (some old) = new - old := rfl
      omega

variable (minus limits F key start field) in
/-- The deltas that are still emitted stay within the growth to come and what the baseline has not handed out yet. -/
theorem sum_deltas_le (run : List Scrape) : ∀ (state : CollectorState) (last : Option Nat),
    (∀ old, value key start field state.replicas = some old → ∃ n, last = some n ∧ old ≤ n) →
    ((intervals minus limits F state run).map (Interval.delta F key start field)).sum ≤
      growth (last.toList ++ values key start field run) + sinceBaseline last (value key start field state.replicas) := by
  induction run with
  | nil =>
    intro state last _
    exact Nat.zero_le _
  | cons scrape run ih =>
    intro state last hlast
    unfold intervals
    dsimp only
    rw [List.map_append, List.sum_append, values_cons]
    rcases collect_cases minus limits F state scrape with ⟨hfull, hemitted, hleft⟩ | ⟨hfull, hupdate⟩
    · -- the baseline is dropped, and nothing is emitted
      have hrest := ih (collect minus limits F state scrape).2 last (by rw [hleft, value_empty]; exact nofun)
      have hnone : sinceBaseline last none = 0 := rfl
      rw [hleft, value_empty, hnone] at hrest
      rw [hfull, if_neg Bool.false_ne_true, hemitted, Option.toList_none, List.nil_append, Option.map_none,
        Option.toList_none, List.map_nil, List.sum_nil]
      omega
    · obtain ⟨hinvariant, hbound⟩ := scrape_bound (values key start field run) hlast (handsOut hupdate)
      have hrest := ih (collect minus limits F state scrape).2 _ hinvariant
      rw [if_pos hfull]
      omega

end Growth

theorem eq_of_fraction {part : Nat} {attempts : Int} {share : F} (hattempts : 0 ≤ attempts)
    (h : fraction limits F part attempts = some share) : share = Flt.ofRat (part / attempts.toNat) := by
  unfold fraction at h
  split at h
  · cases h
    rw [← Int.cast_natCast attempts.toNat, Int.toNat_of_nonneg hattempts]
  · cases h

theorem Emits.sumsDeltas {I : Interval F} (h : Emits minus limits F state scrape I.emitted)
    (hbaseline : I.baseline = state.replicas) (hcurrent : I.current = scrape.readings) : SumsDeltas F I := by
  obtain ⟨baseline, current, emitted⟩ := I
  dsimp only at h hbaseline hcurrent
  subst hbaseline
  subst hcurrent
  have hattempts : ((Collector.attempts (pairs state.replicas scrape.readings)).toNat : Int) =
      Collector.attempts (pairs state.replicas scrape.readings) := Int.toNat_of_nonneg h.attempts
  have hemitted := h.emitted
  subst hemitted
  exact
    { replicas := comparable_keys h.compared
      unbroken := fun key old new hold hnew =>
        ⟨(comparable_pair h.compared hold hnew).1, (comparable_pair h.compared hold hnew).2.1⟩
      completed := rfl
      attempts := hattempts
      concurrency := fun share hshare => by
        unfold emission at hshare
        dsimp only at hshare
        split at hshare
        · exact eq_of_fraction h.attempts hshare
        · cases hshare
      throttled := fun share hshare => by
        obtain ⟨count, hcount, hfraction⟩ := Option.bind_eq_some_iff.1 hshare
        exact ⟨count, (Option.filter_eq_some_iff.1 hcount).1, eq_of_fraction h.attempts hfraction⟩ }

theorem Emits.withinBounds [UnitFlt F] {I : Interval F} (h : Emits minus limits F state scrape I.emitted) :
    WithinBounds limits F I := by
  obtain ⟨baseline, current, emitted⟩ := I
  dsimp only at h
  obtain ⟨hsaturation, hbackpressure⟩ := emission_valid minus limits F h.attempts h.concurrency h.completed
  obtain ⟨hleast, hmost⟩ := windowSeconds_between h.compared h.long
  have hcompleted := h.completed
  have hemitted := h.emitted
  subst hemitted
  exact
    { completed := by
        unfold emission
        dsimp only
        omega
      saturation := hsaturation
      backpressure := hbackpressure
      atLeast := hleast
      atMost := hmost
      sameInterval := ⟨rfl, rfl⟩ }

end Run

/-- **The collector never counts twice and never mixes replicas.**  Every emission of a run from an empty state sums the
gains of one set of replicas between two full scrapes and is within bounds, the intervals do not overlap, and so what is
emitted of a replica's counter is within what it gained over the run. -/
theorem collector_counts_once (minus : ℚ → ℚ → ℚ) (limits : Limits) (F : Type) [Flt F] [UnitFlt F] (run : List Scrape)
    (htimes : run.Pairwise fun s s' => s.time < s'.time) :
    (∀ I ∈ intervals minus limits F {} run, SumsDeltas F I ∧ WithinBounds limits F I ∧
      ∃ base ∈ run, ∃ scrape ∈ run, base.full = true ∧ scrape.full = true ∧ base.time < scrape.time ∧
        I.baseline = base.readings ∧ I.current = scrape.readings) ∧
    (intervals minus limits F {} run).Pairwise Interval.Precedes ∧
    ∀ key start field, ((intervals minus limits F {} run).map (Interval.delta F key start field)).sum ≤
      growth (values key start field run) := by
  have hbased : Based [] {} := Or.inl rfl
  refine ⟨fun I hI => ?_, intervals_pairwise htimes, fun key start field => ?_⟩
  · obtain ⟨front, last, rest, -, hemits, hbaseline, hcurrent⟩ := mem_intervals hI
    obtain ⟨before, base, middle, scrape, after, hsplit, hbase, hscrape, hfirst, hsecond⟩ :=
      interval_scrapes hbased hI
    rw [List.nil_append] at hsplit
    refine ⟨hemits.sumsDeltas hbaseline hcurrent, hemits.withinBounds, base, ?_, scrape, ?_, hbase, hscrape,
      time_of_split htimes hsplit, hfirst, hsecond⟩
    · rw [hsplit, List.append_assoc]
      exact List.mem_append_right _ List.mem_cons_self
    · rw [hsplit]
      exact List.mem_append_right _ List.mem_cons_self
  · have hbound := sum_deltas_le minus limits F key start field run {} none (by rw [value_empty]; exact nofun)
    have hzero : sinceBaseline none (value key start field (∅ : Readings)) = 0 := by
      rw [value_empty]
      rfl
    rw [hzero, Option.toList_none, List.nil_append] at hbound
    exact hbound

/-! ## One replica -/

def plainLimits : Limits where
  minimumInterval := 60
  maximumInterval := 900
  minimumAttempts := 30
  positive := by decide
  ordered := by decide

/-- Forty more requests a scrape, thirty of them completed. -/
def plainScrape (round : Nat) (time : ℚ) : Scrape where
  time
  readings := (∅ : Readings).insert "replica"
    { time
      start := 1
      classified := true
      http429 := some round
      http429Supported := true
      count := fun
        | .requests => 40 * round
        | .completed => 30 * round
        | _ => 0 }
  atOnce key reading h := by
    rw [Std.ExtTreeMap.getElem?_insert] at h
    split at h
    · cases h
      rfl
    · rw [Std.ExtTreeMap.getElem?_empty] at h
      cases h

def plainRun : List Scrape := [plainScrape 0 1000, plainScrape 1 1100, plainScrape 2 1130, plainScrape 3 1200]

/-- The third scrape comes too early, and the fourth one emits the gains since the second. -/
theorem collector_counts_once_plain :
    (intervals (· - ·) plainLimits F64 {} plainRun).map (·.emitted.saturation.completedRequests) = [30, 60] ∧
    ((intervals (· - ·) plainLimits F64 {} plainRun).map (Interval.delta F64 "replica" 1 .completed)).sum ≤
      growth (values "replica" 1 .completed plainRun) := by
  refine ⟨by decide +kernel, ?_⟩
  exact (collector_counts_once (· - ·) plainLimits F64 plainRun (by decide +kernel)).2.2 "replica" 1 .completed

end Collector

end Subgov
