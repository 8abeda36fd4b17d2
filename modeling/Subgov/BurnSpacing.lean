import Mathlib.Data.List.Chain
import Mathlib.Data.List.Induction
import Subgov.Lib.Trace
import Subgov.SampleStore
/-!
# BurnSpacing — how far apart the samples of an aggregate queue are

A queue takes a reading a minute after its last sample, and at once when the `resets_at` differ in any way.  Every other
comparison of two readings allows a minute of jitter, so the queue is spaced exactly along the runs in which a reading
that follows within a minute of a sample, in its generation, carries the very same `resets_at`.
-/
namespace Subgov

open FloatArith

variable {F : Type}

/-! ## A spaced queue -/

def Apart (a b : AggregateBurnSample F) : Prop :=
  sameResetGeneration a.resetsAt b.resetsAt = true →
    minAggregateSampleIntervalSeconds ≤ numSeconds (b.observedAt - a.observedAt)

def SameGeneration (a b : AggregateBurnSample F) : Prop := sameResetGeneration a.resetsAt b.resetsAt = true

/-- The samples of a generation are apart, and a full queue within one generation covers more than two days. -/
structure SpacedQueue (samples : List (AggregateBurnSample F)) : Prop where
  apart : samples.IsChain Apart
  spans : samples.length = maxAggregateBurnSamples → samples.IsChain SameGeneration →
    ∀ first last, samples.head? = some first → samples.getLast? = some last →
      2 * 86400 < numSeconds (last.observedAt - first.observedAt)

theorem le_numSeconds {d n : Int} (hn : 0 < n) : n ≤ numSeconds d ↔ n * nanosPerSecond ≤ d := by
  have hpos : (0 : Int) < nanosPerSecond := by decide
  unfold numSeconds
  rcases lt_or_ge d 0 with hneg | hnonneg
  · have hquot : d.tdiv nanosPerSecond ≤ (0 : Int).tdiv nanosPerSecond :=
      Int.tdiv_le_tdiv hpos (le_of_lt hneg)
    rw [Int.zero_tdiv] at hquot
    have hprod : 0 < n * nanosPerSecond := Int.mul_pos hn hpos
    constructor <;> intro h <;> omega
  · rw [Int.tdiv_eq_ediv_of_nonneg hnonneg, Int.le_ediv_iff_mul_le hpos]

/-- Within one generation each sample adds a minute to the span. -/
theorem apart_span {samples : List (AggregateBurnSample F)} {first last : AggregateBurnSample F}
    (h : samples.IsChain Apart) (hsame : samples.IsChain SameGeneration) (hfirst : samples.head? = some first)
    (hlast : samples.getLast? = some last) :
    ((samples.length : Int) - 1) * (60 * nanosPerSecond) ≤ last.observedAt - first.observedAt := by
  induction samples generalizing first with
  | nil => cases hfirst
  | cons a samples ih =>
    cases hfirst
    cases samples with
    | nil =>
      cases hlast
      simp
    | cons b samples =>
      rw [List.isChain_cons_cons] at h hsame
      rw [List.getLast?_cons_cons] at hlast
      have hrest := ih h.2 hsame.2 rfl hlast
      have hstep := (le_numSeconds (by decide)).1 (h.1 hsame.1)
      have hminute : minAggregateSampleIntervalSeconds = 60 := rfl
      rw [hminute] at hstep
      have hlength : ((a :: b :: samples).length : Int) - 1 = ((b :: samples).length : Int) - 1 + 1 := by
        rw [List.length_cons, Int.natCast_add, Int.natCast_one]
        omega
      rw [hlength, Int.add_mul, Int.one_mul]
      omega

/-- **Samples that are apart make a spaced queue.** -/
theorem SpacedQueue.of_apart {samples : List (AggregateBurnSample F)} (h : samples.IsChain Apart) :
    SpacedQueue samples := by
  refine ⟨h, fun hfull hsame first last hfirst hlast => ?_⟩
  have hspan := apart_span h hsame hfirst hlast
  rw [hfull] at hspan
  have hlong : 2 * 86400 + 1 ≤ numSeconds (last.observedAt - first.observedAt) :=
    (le_numSeconds (by decide)).2 (le_trans (by decide) hspan)
  omega

/-! ## One record -/

section Record

/-- The entries a rebuilt map takes out and puts back, followed at one key. -/
theorem rebuild_at {V W : Type} (next : Option V → W → V) (id : W → String) (old : BTreeMap V) (ws : List W)
    (k : String) : (rebuild next id old ws)[k]? =
      ((ws.filter (id · == k)).foldl (fun (st : Option V × Option V) w => (none, some (next st.1 w)))
        (old[k]?, none)).2 := by
  suffices h : ∀ (ws : List W) (o acc : BTreeMap V),
      (ws.foldl (fun (acc : BTreeMap V × BTreeMap V) w =>
        (acc.1.erase (id w), acc.2.insert (id w) (next acc.1[id w]? w))) (o, acc)).2[k]? =
      ((ws.filter (id · == k)).foldl (fun (st : Option V × Option V) w => (none, some (next st.1 w)))
        (o[k]?, acc[k]?)).2 by
    have hempty : (∅ : BTreeMap V)[k]? = none := Std.ExtTreeMap.getElem?_empty
    rw [rebuild, h ws old ∅, hempty]
  intro ws
  induction ws with
  | nil => exact fun _ _ => rfl
  | cons w ws ih =>
    intro o acc
    rw [List.foldl_cons, ih, Std.ExtTreeMap.getElem?_insert, Std.ExtTreeMap.getElem?_erase]
    by_cases hk : id w = k
    · rw [List.filter_cons_of_pos (by simpa using hk), List.foldl_cons, hk]
      simp
    · rw [List.filter_cons_of_neg (by simpa using hk)]
      simp [hk]

variable {s : AccountState F} {snapshot : QuotaSnapshot F} {workers : Nat} {id : String}

/-- **The queue of a window after a record**: extended where the snapshot names it once, started anew where it names it
again, and gone where it does not. -/
theorem recordAggregate_cases (histories : BTreeMap (List (AggregateBurnSample F))) (snapshot : QuotaSnapshot F)
    (workers : Nat) (id : String) {samples : List (AggregateBurnSample F)}
    (h : (recordAggregate histories snapshot workers)[id]? = some samples) :
    (∃ w, snapshot.windows.filter (·.id == id) = [w] ∧
      samples = extendAggregate snapshot workers histories[id]? w) ∨
    (∃ w, samples = extendAggregate snapshot workers none w) := by
  unfold recordAggregate at h
  rw [rebuild_at] at h
  cases hnamed : snapshot.windows.filter (·.id == id) with
  | nil =>
    rw [hnamed] at h
    cases h
  | cons w ws =>
    rw [hnamed] at h
    cases ws using List.reverseRecOn with
    | nil => exact Or.inl ⟨w, rfl, (Option.some.inj h).symm⟩
    | append_singleton ws v =>
      rw [List.foldl_cons, List.foldl_append, List.foldl_cons, List.foldl_nil] at h
      have htaken : ∀ (ws : List (QuotaWindow F)) (st : Option (List (AggregateBurnSample F))),
          (ws.foldl (fun (st : Option (List (AggregateBurnSample F)) × Option (List (AggregateBurnSample F))) w =>
            (none, some (extendAggregate snapshot workers st.1 w))) (none, st)).1 = none := by
        intro ws
        induction ws with
        | nil => exact fun _ => rfl
        | cons w ws ih => exact fun _ => ih _
      rw [htaken] at h
      exact Or.inr ⟨v, (Option.some.inj h).symm⟩

theorem recordAggregate_once (histories : BTreeMap (List (AggregateBurnSample F))) {w : QuotaWindow F}
    (h : snapshot.windows.filter (·.id == id) = [w]) :
    (recordAggregate histories snapshot workers)[id]? = some (extendAggregate snapshot workers histories[id]? w) := by
  unfold recordAggregate
  rw [rebuild_at, h]
  rfl

end Record

/-! ## Runs of records -/

section Runs

variable [Flt F]

/-- The arguments of a record: a snapshot, the workers and the target. -/
abbrev RecordArgs (F : Type) := QuotaSnapshot F × Nat × Nat

def recordNext (s : AccountState F) (c : RecordArgs F) : Option (AccountState F) := some (s.record c.1 c.2.1 c.2.2)

def QueuesSpaced (s : AccountState F) : Prop :=
  ∀ (id : String) (samples : List (AggregateBurnSample F)), s.aggregateBurnHistory[id]? = some samples →
    SpacedQueue samples

/-- A window read within a minute of its last sample, in that sample's generation, has the sample's `resets_at`. -/
def ResetsKept (s : AccountState F) (c : RecordArgs F) : Prop :=
  ∀ (id : String) (w : QuotaWindow F) (samples : List (AggregateBurnSample F)) (last : AggregateBurnSample F),
    c.1.windows.filter (·.id == id) = [w] → s.aggregateBurnHistory[id]? = some samples →
    samples.getLast? = some last → sameResetGeneration last.resetsAt w.resetsAt = true →
    numSeconds (c.1.observedAt - last.observedAt) < minAggregateSampleIntervalSeconds → last.resetsAt = w.resetsAt

/-- What a record takes of a window. -/
def aggregateSample (c : RecordArgs F) (w : QuotaWindow F) : AggregateBurnSample F :=
  { observedAt := c.1.observedAt, usedFraction := w.usedFraction, resetsAt := w.resetsAt, governedWorkers := c.2.1 }

omit [Flt F] in
/-- A queue stays apart when the reading is dropped or is apart from the last sample. -/
theorem extendAggregate_apart {c : RecordArgs F} {existing : Option (List (AggregateBurnSample F))} {w : QuotaWindow F}
    (h : (existing.getD []).IsChain Apart)
    (hlast : ∀ last, (existing.getD []).getLast? = some last →
      last.resetsAt ≠ w.resetsAt → Apart last (aggregateSample c w)) :
    (extendAggregate c.1 c.2.1 existing w).IsChain Apart := by
  unfold extendAggregate
  dsimp only
  refine List.IsChain.drop ?_ _
  split
  · rename_i hrecord
    refine List.isChain_append.2 ⟨h, List.isChain_singleton _, fun last hmem sample hsample => ?_⟩
    rw [List.head?_cons, Option.mem_def, Option.some.injEq] at hsample
    rw [← hsample]
    rw [Option.mem_def.1 hmem, Option.all_some, Bool.or_eq_true, bne_iff_ne, decide_eq_true_eq] at hrecord
    rcases hrecord with hmoved | hlate
    · exact hlast last hmem hmoved
    · exact fun _ => hlate
  · exact h

omit [Flt F] in
theorem extendAggregate_none (c : RecordArgs F) (w : QuotaWindow F) :
    (extendAggregate c.1 c.2.1 none w).IsChain Apart := by
  refine extendAggregate_apart List.isChain_nil fun last hlast => ?_
  rw [Option.getD_none, List.getLast?_nil] at hlast
  cases hlast

theorem record_keeps {s s' : AccountState F} {c : RecordArgs F} (hs : QueuesSpaced s) (hkept : ResetsKept s c)
    (hstep : recordNext s c = some s') : QueuesSpaced s' := by
  cases hstep
  intro id samples hsamples
  refine SpacedQueue.of_apart ?_
  rcases recordAggregate_cases _ _ _ _ hsamples with ⟨w, hnamed, heq⟩ | ⟨w, heq⟩
  · rw [heq]
    cases hold : s.aggregateBurnHistory[id]? with
    | none => exact extendAggregate_none c w
    | some old =>
      refine extendAggregate_apart (hs id old hold).apart ?_
      intro last hlast hmoved hsame
      by_contra hsoon
      exact hmoved (hkept id w old last hnamed hold hlast hsame (Int.not_le.1 hsoon))
  · rw [heq]
    exact extendAggregate_none c w

theorem record_breaks {s s' : AccountState F} {c : RecordArgs F} (hnot : ¬ ResetsKept s c)
    (hstep : recordNext s c = some s') : ¬ QueuesSpaced s' := by
  cases hstep
  unfold ResetsKept at hnot
  push Not at hnot
  obtain ⟨id, w, old, last, hnamed, hold, hlast, hsame, hsoon, hmoved⟩ := hnot
  intro hspaced
  have hqueue : (s.record c.1 c.2.1 c.2.2).aggregateBurnHistory[id]? =
      some (keepLast maxAggregateBurnSamples (old ++ [aggregateSample c w])) := by
    show (recordAggregate s.aggregateBurnHistory c.1 c.2.1)[id]? = _
    rw [recordAggregate_once _ hnamed, hold]
    unfold extendAggregate
    dsimp only
    rw [Option.getD_some, hlast, Option.all_some, bne_iff_ne.2 hmoved, Bool.true_or, if_pos rfl]
    rfl
  -- the last two samples stay in the queue
  obtain ⟨front, rfl⟩ : ∃ front, old = front ++ [last] := List.getLast?_eq_some_iff.1 hlast
  have hkept : [last, aggregateSample c w] <:+
      keepLast maxAggregateBurnSamples (front ++ [last] ++ [aggregateSample c w]) := by
    unfold keepLast
    rw [List.append_assoc, List.singleton_append,
      List.drop_append_of_le_length (by simp [maxAggregateBurnSamples])]
    exact List.suffix_append _ _
  have hpair := (hspaced id _ hqueue).apart.suffix hkept
  rw [List.isChain_pair] at hpair
  exact absurd (hpair hsame) (Int.not_le.2 hsoon)

/-- **The aggregate queues of a run are spaced exactly when every record keeps the `resets_at` of a generation.** -/
theorem queuesSpaced_iff (calls : List (RecordArgs F)) :
    Trace.Always recordNext QueuesSpaced {} calls ↔ Trace.Each recordNext ResetsKept {} calls := by
  have hstart : QueuesSpaced ({} : AccountState F) := by
    intro id samples h
    rw [Std.ExtTreeMap.getElem?_empty] at h
    cases h
  exact Trace.always_iff_each (I := QueuesSpaced) (fun _ h => h) (fun _ _ _ hs hkept => record_keeps hs hkept)
    (fun _ _ _ _ hnot => record_breaks hnot) hstart calls

end Runs

/-! ### A provider that computes `resets_at` on each request -/

def liveWindow (resetsAt : DateTime) : QuotaWindow F64 where
  id := "5h"
  usedFraction := Flt.zero
  resetsAt := resetsAt
  durationMinutes := some 300
  reached := false

def requestAt (observedAt resetsAt : DateTime) : RecordArgs F64 :=
  ({ observedAt := observedAt, fresh := true, eligibleBacklogCapacity := none, resetCredits := none,
     backpressure := none, saturation := none, windows := [liveWindow resetsAt] }, 1, 1)

/-- Two readings a second apart, whose resets are a nanosecond apart, are both kept. -/
theorem queue_not_spaced :
    ¬ ∀ calls : List (RecordArgs F64), calls.IsChain (fun c c' => c.1.observedAt ≤ c'.1.observedAt) →
      Trace.Always recordNext QueuesSpaced {} calls := by
  intro hall
  have hstate := (hall [requestAt 0 (hours 1), requestAt nanosPerSecond (hours 1 + 1)] (by decide)).run rfl
  have hqueue : ((({} : AccountState F64).record (requestAt 0 (hours 1)).1 1 1).record
      (requestAt nanosPerSecond (hours 1 + 1)).1 1 1).aggregateBurnHistory["5h"]? =
        some [aggregateSample (requestAt 0 (hours 1)) (liveWindow (hours 1)),
          aggregateSample (requestAt nanosPerSecond (hours 1 + 1)) (liveWindow (hours 1 + 1))] := by
    decide +kernel
  have happart := (hstate "5h" _ hqueue).apart
  rw [List.isChain_pair] at happart
  exact absurd (happart (by decide)) (by decide)

end Subgov
