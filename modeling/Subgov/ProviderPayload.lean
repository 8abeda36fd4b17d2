import Subgov.Model
import Subgov.Lib.Json
/-!
# ProviderPayload — what normalisation keeps of a provider's limits

Two parsers turn a provider's JSON into a quota snapshot.  An entry they cannot normalise is passed over, and a limit
kind that repeats is reported by its last element, so a snapshot tells of every active limit exactly when the payload
has no such entry and the last element of each kind is the most used.
-/
namespace Subgov

open FloatArith Json

variable {F : Type} [Flt F]

/-! ## Anthropic -/

section Anthropic

-- `DateTime::parse_from_rfc3339`, in UTC
variable (parseTimestamp : String → Option DateTime)

def legacyIds : List String := ["five_hour", "seven_day", "weekly_scoped"]

/-- `is_active` is given as `false`. -/
def isInactive (value : Value F) : Bool := (value.get "is_active").bind Value.asBool == some false

/-- The fraction used, from the percentage under `field`. -/
def usage (field : String) (value : Value F) : Option F :=
  ((value.get field).bind Value.asF64).map fun percent => percent / Flt.ofNat 100

def resetTime (value : Value F) : Option DateTime := ((value.get "resets_at").bind Value.asStr).bind parseTimestamp

/-- The window of an active entry whose percentage is under `field`. -/
def anthropicWindow (field id : String) (value : Value F) : Option (QuotaWindow F) := do
  let used ← usage field value
  let resetsAt ← resetTime parseTimestamp value
  return { id, usedFraction := used, resetsAt, durationMinutes := none, reached := decide (Flt.ofNat 1 ≤ used) }

def parseAnthropicWindow (id : String) (value : Value F) : Option (QuotaWindow F) :=
  if value.isNull || isInactive value then none else anthropicWindow parseTimestamp "utilization" id value

def parseAnthropicLimit (id : String) (value : Value F) : Option (QuotaWindow F) :=
  if isInactive value then none else anthropicWindow parseTimestamp "percent" id value

def limits (payload : Value F) : List (Value F) := ((payload.get "limits").bind Value.asArray).getD []

def kind (limit : Value F) : Option String := (limit.get "kind").bind Value.asStr

def insertLegacy (payload : Value F) (windows : BTreeMap (QuotaWindow F)) (id : String) : BTreeMap (QuotaWindow F) :=
  match (payload.get id).bind (parseAnthropicWindow parseTimestamp id) with
  | some parsed => windows.insert id parsed
  | none => windows

def insertLimit (windows : BTreeMap (QuotaWindow F)) (limit : Value F) : BTreeMap (QuotaWindow F) :=
  match kind limit with
  | none => windows
  | some id =>
    match parseAnthropicLimit parseTimestamp id limit with
    | some parsed => windows.insert id parsed
    | none => windows

def anthropicWindows (payload : Value F) : BTreeMap (QuotaWindow F) :=
  let windows := legacyIds.foldl (insertLegacy parseTimestamp payload) ∅
  (limits payload).foldl (insertLimit parseTimestamp) windows

def parseAnthropicUsage (payload : Value F) (observedAt : DateTime) : Except String (QuotaSnapshot F) :=
  let windows := anthropicWindows parseTimestamp payload
  if windows.isEmpty then .error "Anthropic usage response contained no usable quota windows"
  else .ok {
    observedAt, fresh := true, windows := windows.values, eligibleBacklogCapacity := none, resetCredits := none
    backpressure := none, saturation := none }

end Anthropic

/-! ## Codex -/

/-- `Utc.timestamp_opt(seconds, 0).single()` -/
def timestampOpt (seconds : Int) : Option DateTime := checkedDate (seconds * nanosPerSecond)

def parseCodexWindow (id : String) (window : Value F) : Option (QuotaWindow F) := do
  let usedPercent ← (window.get "usedPercent").bind Value.asF64
  let resetEpoch ← (window.get "resetsAt").bind Value.asI64
  let resetsAt ← timestampOpt resetEpoch
  return {
    id, usedFraction := usedPercent / Flt.ofNat 100, resetsAt
    durationMinutes := (window.get "windowDurationMins").bind Value.asU64
    reached := decide (Flt.ofNat 100 ≤ usedPercent) }

/-- The `primary` and `secondary` entries of a bucket that are not null. -/
def bucketEntries (limitId : String) (bucket : Value F) : List (String × Value F) :=
  ["primary", "secondary"].filterMap fun name =>
    ((bucket.get name).filter (!·.isNull)).map fun window => (s!"{limitId}.{name}", window)

def parseCodexBucket (limitId : String) (bucket : Value F) (output : List (QuotaWindow F)) : List (QuotaWindow F) :=
  output ++ (bucketEntries limitId bucket).filterMap fun (id, window) => parseCodexWindow id window

/-- The buckets of a response: the compatibility bucket is read only where there is no map of them. -/
def codexBuckets (result : Value F) : List (String × Value F) :=
  match (result.get "rateLimitsByLimitId").bind Value.asObject with
  | some byId => byId
  | none =>
    match result.get "rateLimits" with
    | some limit => [(((limit.get "limitId").bind Value.asStr).getD "default", limit)]
    | none => []

def trim (s : String) : String :=
  String.ofList ((s.toList.dropWhile isWhitespace).reverse.dropWhile isWhitespace).reverse

def parseResetCredit (row : Value F) : Option ResetCredit := do
  let id ← ((row.get "id").bind Value.asStr).map trim
  if id.isEmpty then none
  else return {
    id, status := ((row.get "status").bind Value.asStr).getD "unknown"
    expiresAt := ((row.get "expiresAt").bind Value.asI64).bind timestampOpt }

def parseResetCredits (result : Value F) : Option ResetCreditsSnapshot := do
  let summary ← result.get "rateLimitResetCredits"
  let availableCount ← (summary.get "availableCount").bind Value.asU64
  let credits := match summary.get "credits" with
    | some (.array rows) => some (rows.filterMap parseResetCredit)
    | _ => none
  return { availableCount, credits }

def parseCodexRateLimits (result : Value F) (observedAt : DateTime) : Except String (QuotaSnapshot F) :=
  let windows := (codexBuckets result).foldl (fun output bucket => parseCodexBucket bucket.1 bucket.2 output) []
  if windows.isEmpty then .error "Codex rate-limit response contained no usable quota windows"
  else .ok {
    observedAt, fresh := true, windows, eligibleBacklogCapacity := none, resetCredits := parseResetCredits result
    backpressure := none, saturation := none }

/-! ## Anthropic entries -/

section Anthropic

variable (parseTimestamp : String → Option DateTime)

/-- The elements of `limits` with a string kind that are not marked inactive, under their kinds. -/
def activeLimits (payload : Value F) : List (String × Value F) :=
  (limits payload).filterMap fun limit => if isInactive limit then none else (kind limit).map (·, limit)

/-- The legacy fields that are neither null nor marked inactive. -/
def activeLegacy (payload : Value F) : List (String × Value F) :=
  legacyIds.filterMap fun id => ((payload.get id).filter fun value => !(value.isNull || isInactive value)).map (id, ·)

def Normalises (field : String) (value : Value F) : Prop :=
  (usage field value).isSome ∧ (resetTime parseTimestamp value).isSome

/-- An entry with the window it normalises to. -/
def keyed (field : String) (e : String × Value F) : Option (String × QuotaWindow F) :=
  (anthropicWindow parseTimestamp field e.1 e.2).map (e.1, ·)

variable {parseTimestamp}

theorem anthropicWindow_eq_some {field id : String} {value : Value F} {w : QuotaWindow F}
    (h : anthropicWindow parseTimestamp field id value = some w) :
    w.id = id ∧ usage field value = some w.usedFraction ∧ resetTime parseTimestamp value = some w.resetsAt := by
  unfold anthropicWindow at h
  obtain ⟨used, hused, h⟩ := Option.bind_eq_some_iff.1 h
  obtain ⟨resetsAt, hreset, h⟩ := Option.bind_eq_some_iff.1 h
  cases h
  exact ⟨rfl, hused, hreset⟩

theorem anthropicWindow_isSome {field id : String} {value : Value F} :
    (anthropicWindow parseTimestamp field id value).isSome ↔ Normalises parseTimestamp field value := by
  constructor
  · intro h
    obtain ⟨w, hw⟩ := Option.isSome_iff_exists.1 h
    obtain ⟨-, hused, hreset⟩ := anthropicWindow_eq_some hw
    exact ⟨Option.isSome_of_eq_some hused, Option.isSome_of_eq_some hreset⟩
  · rintro ⟨hused, hreset⟩
    obtain ⟨used, hused⟩ := Option.isSome_iff_exists.1 hused
    obtain ⟨resetsAt, hreset⟩ := Option.isSome_iff_exists.1 hreset
    rw [anthropicWindow, hused, Option.bind_eq_bind, Option.bind_some, hreset]
    rfl

/-! ## What the windows hold -/

omit [Flt F] in
/-- Inserting what each item yields, where it yields something. -/
theorem foldl_eq_insert {α : Type} {entry : α → Option (String × QuotaWindow F)}
    {insert : BTreeMap (QuotaWindow F) → α → BTreeMap (QuotaWindow F)}
    (h : ∀ m x, insert m x = (entry x).elim m fun e => m.insert e.1 e.2) (xs : List α) (m : BTreeMap (QuotaWindow F)) :
    xs.foldl insert m = (xs.filterMap entry).foldl (fun m e => m.insert e.1 e.2) m := by
  induction xs generalizing m with
  | nil => rfl
  | cons x xs ih =>
    rw [List.foldl_cons, h, ih]
    cases hx : entry x with
    | none => rw [List.filterMap_cons_none hx, Option.elim_none]
    | some e => rw [List.filterMap_cons_some hx, List.foldl_cons, Option.elim_some]

theorem insertLegacy_eq (payload : Value F) (m : BTreeMap (QuotaWindow F)) (id : String) :
    insertLegacy parseTimestamp payload m id =
      ((((payload.get id).filter fun value => !(value.isNull || isInactive value)).map (id, ·)).bind
        (keyed parseTimestamp "utilization")).elim m fun e => m.insert e.1 e.2 := by
  unfold insertLegacy parseAnthropicWindow keyed
  cases payload.get id with
  | none => rfl
  | some value =>
    rw [Option.bind_some]
    cases hskip : value.isNull || isInactive value with
    | true => simp [hskip, Option.filter]
    | false =>
      simp only [hskip, Option.filter, Bool.not_false, if_true, Option.map_some, Option.bind_some, Bool.false_eq_true,
        if_false]
      cases anthropicWindow parseTimestamp "utilization" id value <;> rfl

theorem insertLimit_eq (m : BTreeMap (QuotaWindow F)) (limit : Value F) :
    insertLimit parseTimestamp m limit =
      (((if isInactive limit then none else (kind limit).map (·, limit)).bind (keyed parseTimestamp "percent")).elim m
        fun e => m.insert e.1 e.2) := by
  unfold insertLimit parseAnthropicLimit keyed
  cases kind limit with
  | none => cases isInactive limit <;> rfl
  | some id =>
    cases isInactive limit with
    | true => rfl
    | false =>
      simp only [Bool.false_eq_true, if_false, Option.map_some, Option.bind_some]
      cases anthropicWindow parseTimestamp "percent" id limit <;> rfl

variable (parseTimestamp) in
/-- The normalised entries of a payload in the order they are inserted. -/
def anthropicEntries (payload : Value F) : List (String × QuotaWindow F) :=
  (activeLegacy payload).filterMap (keyed parseTimestamp "utilization") ++
    (activeLimits payload).filterMap (keyed parseTimestamp "percent")

theorem anthropicWindows_eq (payload : Value F) : anthropicWindows parseTimestamp payload =
    (anthropicEntries parseTimestamp payload).foldl (fun m e => m.insert e.1 e.2) ∅ := by
  unfold anthropicWindows anthropicEntries activeLegacy activeLimits
  rw [List.foldl_append, List.filterMap_filterMap, List.filterMap_filterMap, foldl_eq_insert insertLimit_eq,
    foldl_eq_insert (insertLegacy_eq payload)]

theorem anthropicWindows_get (payload : Value F) (id : String) :
    (anthropicWindows parseTimestamp payload)[id]? = (anthropicEntries parseTimestamp payload).reverse.lookup id := by
  rw [anthropicWindows_eq, getElem?_foldl_insert_pairs]
  exact Option.or_none

theorem keyed_eq_some {field : String} {e : String × Value F} {k : String × QuotaWindow F}
    (h : keyed parseTimestamp field e = some k) :
    k.1 = e.1 ∧ anthropicWindow parseTimestamp field e.1 e.2 = some k.2 := by
  obtain ⟨w, hw, rfl⟩ := Option.map_eq_some_iff.1 h
  exact ⟨rfl, hw⟩

theorem mem_entries {payload : Value F} {k : String × QuotaWindow F} :
    k ∈ anthropicEntries parseTimestamp payload ↔
      (∃ e ∈ activeLegacy payload, keyed parseTimestamp "utilization" e = some k) ∨
        ∃ e ∈ activeLimits payload, keyed parseTimestamp "percent" e = some k := by
  unfold anthropicEntries
  rw [List.mem_append, List.mem_filterMap, List.mem_filterMap]

theorem id_of_get {payload : Value F} {id : String} {w : QuotaWindow F}
    (h : (anthropicWindows parseTimestamp payload)[id]? = some w) : w.id = id := by
  rw [anthropicWindows_get] at h
  obtain ⟨before, after, hsplit, -⟩ := List.lookup_eq_some_iff.1 h
  have hmem : (id, w) ∈ anthropicEntries parseTimestamp payload := by
    rw [← List.mem_reverse, hsplit]
    exact List.mem_append_right _ List.mem_cons_self
  rcases mem_entries.1 hmem with ⟨e, -, he⟩ | ⟨e, -, he⟩
  · obtain ⟨hid, hw⟩ := keyed_eq_some he
    exact (anthropicWindow_eq_some hw).1.trans hid.symm
  · obtain ⟨hid, hw⟩ := keyed_eq_some he
    exact (anthropicWindow_eq_some hw).1.trans hid.symm

/-- **The windows of an accepted payload have distinct ids**, whatever repeats in it. -/
theorem anthropicWindows_nodup (payload : Value F) :
    ((anthropicWindows parseTimestamp payload).values.map (·.id)).Nodup := nodup_map_values fun _ _ h => id_of_get h

theorem mem_anthropicWindows {payload : Value F} {w : QuotaWindow F} :
    w ∈ (anthropicWindows parseTimestamp payload).values ↔
      (anthropicWindows parseTimestamp payload)[w.id]? = some w := by
  rw [mem_values]
  constructor
  · rintro ⟨k, hk⟩
    rw [id_of_get hk]
    exact hk
  · exact fun h => ⟨w.id, h⟩

/-! ## Every active limit -/

section

variable (parseTimestamp)

/-- A snapshot tells of every active limit of its payload: of a legacy field with its own value, unless an element of
`limits` has its id, and of an element with at least its own. -/
structure AnthropicKept (payload : Value F) (s : QuotaSnapshot F) : Prop where
  distinct : (s.windows.map (·.id)).Nodup
  generic : ∀ e ∈ activeLimits payload,
    ∃ w ∈ s.windows, w.id = e.1 ∧ ∃ used, usage "percent" e.2 = some used ∧ used ≤ w.usedFraction
  legacy : ∀ e ∈ activeLegacy payload, (∀ limit ∈ limits payload, kind limit ≠ some e.1) →
    ∃ w ∈ s.windows, w.id = e.1 ∧ usage "utilization" e.2 = some w.usedFraction ∧
      resetTime parseTimestamp e.2 = some w.resetsAt
  legacyNormalised : ∀ e ∈ activeLegacy payload, Normalises parseTimestamp "utilization" e.2
  limitsNormalised : ∀ e ∈ activeLimits payload, Normalises parseTimestamp "percent" e.2

/-- No active entry has both a usage and a reset that can be read. -/
def NothingUsable (payload : Value F) : Prop :=
  (∀ e ∈ activeLegacy payload, ¬ Normalises parseTimestamp "utilization" e.2) ∧
    ∀ e ∈ activeLimits payload, ¬ Normalises parseTimestamp "percent" e.2

/-- Every active entry has its usage and reset, and of the elements of a kind the last one has the largest percentage. -/
structure WellReported (payload : Value F) : Prop where
  legacy : ∀ e ∈ activeLegacy payload, Normalises parseTimestamp "utilization" e.2
  limits : ∀ e ∈ activeLimits payload, Normalises parseTimestamp "percent" e.2
  lastLargest : ∀ e ∈ activeLimits payload, ∀ last, (activeLimits payload).reverse.lookup e.1 = some last →
    ∀ used ∈ usage "percent" e.2, ∀ most ∈ usage "percent" last, used ≤ most

end

theorem lookup_filterMap_keyed {field : String} {entries : List (String × Value F)}
    (h : ∀ e ∈ entries, Normalises parseTimestamp field e.2) (id : String) :
    (entries.filterMap (keyed parseTimestamp field)).lookup id =
      (entries.lookup id).bind (anthropicWindow parseTimestamp field id) := by
  induction entries with
  | nil => rfl
  | cons e rest ih =>
    obtain ⟨key, value⟩ := e
    have hnormal : (anthropicWindow parseTimestamp field key value).isSome :=
      anthropicWindow_isSome.2 (h (key, value) List.mem_cons_self)
    obtain ⟨w, hw⟩ := Option.isSome_iff_exists.1 hnormal
    have hkeyed : keyed parseTimestamp field (key, value) = some (key, w) := by rw [keyed, hw, Option.map_some]
    have hrest := ih fun e he => h e (List.mem_cons_of_mem _ he)
    rw [List.filterMap_cons_some hkeyed]
    by_cases hid : id = key
    · subst hid
      rw [List.lookup_cons_self, List.lookup_cons_self, Option.bind_some, hw]
    · rw [List.lookup_cons, List.lookup_cons, beq_false_of_ne hid]
      exact hrest

/-- The window under an id is that of the last element of the kind, or of the legacy field where there is none. -/
theorem anthropicWindows_get_of_normalised {payload : Value F}
    (hlegacy : ∀ e ∈ activeLegacy payload, Normalises parseTimestamp "utilization" e.2)
    (hlimits : ∀ e ∈ activeLimits payload, Normalises parseTimestamp "percent" e.2) (id : String) :
    (anthropicWindows parseTimestamp payload)[id]? =
      (((activeLimits payload).reverse.lookup id).bind (anthropicWindow parseTimestamp "percent" id)).or
        (((activeLegacy payload).reverse.lookup id).bind (anthropicWindow parseTimestamp "utilization" id)) := by
  rw [anthropicWindows_get, anthropicEntries, List.reverse_append, List.lookup_append, ← List.filterMap_reverse,
    ← List.filterMap_reverse, lookup_filterMap_keyed fun e he => hlimits e (List.mem_reverse.1 he),
    lookup_filterMap_keyed fun e he => hlegacy e (List.mem_reverse.1 he)]

theorem exists_lookup_reverse {V : Type} {entries : List (String × V)} {e : String × V} (h : e ∈ entries) :
    ∃ last, entries.reverse.lookup e.1 = some last ∧ (e.1, last) ∈ entries := by
  obtain ⟨last, hlast⟩ := Option.isSome_iff_exists.1 (List.lookup_isSome_iff.2 ⟨e, List.mem_reverse.2 h, beq_self_eq_true _⟩)
  obtain ⟨before, after, hsplit, -⟩ := List.lookup_eq_some_iff.1 hlast
  refine ⟨last, hlast, ?_⟩
  rw [← List.mem_reverse, hsplit]
  exact List.mem_append_right _ List.mem_cons_self

/-- An element whose kind the windows hold is told of by the last one of its kind. -/
theorem exists_limit_window {payload : Value F}
    (hlegacy : ∀ e ∈ activeLegacy payload, Normalises parseTimestamp "utilization" e.2)
    (hlimits : ∀ e ∈ activeLimits payload, Normalises parseTimestamp "percent" e.2) {e : String × Value F}
    (he : e ∈ activeLimits payload) :
    ∃ last w, (activeLimits payload).reverse.lookup e.1 = some last ∧
      (anthropicWindows parseTimestamp payload)[e.1]? = some w ∧ usage "percent" last = some w.usedFraction := by
  obtain ⟨last, hlast, hmem⟩ := exists_lookup_reverse he
  have hnormal : (anthropicWindow parseTimestamp "percent" e.1 last).isSome :=
    anthropicWindow_isSome.2 (hlimits (e.1, last) hmem)
  obtain ⟨w, hw⟩ := Option.isSome_iff_exists.1 hnormal
  refine ⟨last, w, hlast, ?_, (anthropicWindow_eq_some hw).2.1⟩
  rw [anthropicWindows_get_of_normalised hlegacy hlimits, hlast, Option.bind_some, hw, Option.some_or]

omit [Flt F] in
theorem value_of_mem_legacy {payload : Value F} {e : String × Value F} (h : e ∈ activeLegacy payload) :
    payload.get e.1 = some e.2 := by
  obtain ⟨id, -, he⟩ := List.mem_filterMap.1 h
  obtain ⟨value, hvalue, rfl⟩ := Option.map_eq_some_iff.1 he
  exact (Option.filter_eq_some_iff.1 hvalue).1

omit [Flt F] in
theorem kind_of_mem_limits {payload : Value F} {e : String × Value F} (h : e ∈ activeLimits payload) :
    e.2 ∈ limits payload ∧ kind e.2 = some e.1 := by
  obtain ⟨limit, hlimit, he⟩ := List.mem_filterMap.1 h
  cases hactive : isInactive limit with
  | true =>
    rw [hactive] at he
    cases he
  | false =>
    rw [hactive, if_neg Bool.false_ne_true] at he
    obtain ⟨id, hid, rfl⟩ := Option.map_eq_some_iff.1 he
    exact ⟨hlimit, hid⟩

/-- A legacy field that no element of `limits` carries the id of is told of by its own window. -/
theorem exists_legacy_window {payload : Value F}
    (hlegacy : ∀ e ∈ activeLegacy payload, Normalises parseTimestamp "utilization" e.2)
    (hlimits : ∀ e ∈ activeLimits payload, Normalises parseTimestamp "percent" e.2) {e : String × Value F}
    (he : e ∈ activeLegacy payload) (hnone : ∀ limit ∈ limits payload, kind limit ≠ some e.1) :
    ∃ w, (anthropicWindows parseTimestamp payload)[e.1]? = some w ∧
      anthropicWindow parseTimestamp "utilization" e.1 e.2 = some w := by
  have hnormal : (anthropicWindow parseTimestamp "utilization" e.1 e.2).isSome :=
    anthropicWindow_isSome.2 (hlegacy e he)
  obtain ⟨w, hw⟩ := Option.isSome_iff_exists.1 hnormal
  refine ⟨w, ?_, hw⟩
  have hlimit : (activeLimits payload).reverse.lookup e.1 = none := by
    rw [List.lookup_eq_none_iff]
    intro limit hlimit
    obtain ⟨hmem, hkind⟩ := kind_of_mem_limits (List.mem_reverse.1 hlimit)
    rw [bne_iff_ne]
    intro hid
    exact hnone _ hmem (hid ▸ hkind)
  obtain ⟨value, hvalue, hmem⟩ := exists_lookup_reverse he
  have hsame : value = e.2 := Option.some.inj ((value_of_mem_legacy hmem).symm.trans (value_of_mem_legacy he))
  rw [anthropicWindows_get_of_normalised hlegacy hlimits, hlimit, hvalue, hsame, Option.bind_none, Option.none_or,
    Option.bind_some, hw]

theorem anthropicEntries_eq_nil {payload : Value F} :
    anthropicEntries parseTimestamp payload = [] ↔ NothingUsable parseTimestamp payload := by
  have hpart : ∀ (field : String) (entries : List (String × Value F)),
      entries.filterMap (keyed parseTimestamp field) = [] ↔ ∀ e ∈ entries, ¬ Normalises parseTimestamp field e.2 := by
    intro field entries
    rw [List.filterMap_eq_nil_iff]
    refine forall₂_congr fun e _ => ?_
    have hnormal : (anthropicWindow parseTimestamp field e.1 e.2).isSome ↔ Normalises parseTimestamp field e.2 :=
      anthropicWindow_isSome
    rw [keyed, Option.map_eq_none_iff, ← hnormal, Option.not_isSome_iff_eq_none]
  rw [anthropicEntries, List.append_eq_nil_iff, hpart, hpart]
  exact Iff.rfl

theorem anthropicWindows_isEmpty {payload : Value F} :
    (anthropicWindows parseTimestamp payload).isEmpty = true ↔ NothingUsable parseTimestamp payload := by
  rw [← anthropicEntries_eq_nil, Std.ExtTreeMap.isEmpty_iff]
  constructor
  · intro hempty
    rw [List.eq_nil_iff_forall_not_mem]
    intro k hk
    obtain ⟨w, hw, -⟩ := exists_lookup_reverse hk
    rw [← anthropicWindows_get, hempty] at hw
    cases hw
  · intro hnil
    rw [anthropicWindows_eq, hnil]
    rfl

theorem parseAnthropicUsage_ok {payload : Value F} {observedAt : DateTime} {s : QuotaSnapshot F}
    (h : parseAnthropicUsage parseTimestamp payload observedAt = .ok s) :
    ¬ NothingUsable parseTimestamp payload ∧ s.windows = (anthropicWindows parseTimestamp payload).values := by
  unfold parseAnthropicUsage at h
  dsimp only at h
  split at h
  · cases h
  · rename_i hsome
    cases h
    exact ⟨mt anthropicWindows_isEmpty.2 hsome, rfl⟩

/-- **An accepted payload is told of whole exactly when it is well reported.** -/
theorem anthropicKept_iff (payload : Value F) (observedAt : DateTime) :
    (∀ s, parseAnthropicUsage parseTimestamp payload observedAt = .ok s → AnthropicKept parseTimestamp payload s) ↔
      NothingUsable parseTimestamp payload ∨ WellReported parseTimestamp payload := by
  constructor
  · intro hkept
    by_cases hnothing : NothingUsable parseTimestamp payload
    · exact Or.inl hnothing
    obtain ⟨s, hs⟩ : ∃ s, parseAnthropicUsage parseTimestamp payload observedAt = .ok s := by
      unfold parseAnthropicUsage
      rw [if_neg (mt anthropicWindows_isEmpty.1 hnothing)]
      exact ⟨_, rfl⟩
    have kept := hkept s hs
    refine Or.inr ⟨kept.legacyNormalised, kept.limitsNormalised, fun e he last hlast used hused most hmost => ?_⟩
    obtain ⟨w, hw, hid, used', hused', hle⟩ := kept.generic e he
    obtain ⟨last', v, hlast', hv, hmost'⟩ := exists_limit_window kept.legacyNormalised kept.limitsNormalised he
    -- the window with the element's id is the last element's
    rw [(parseAnthropicUsage_ok hs).2, mem_anthropicWindows, hid, hv] at hw
    cases hw
    rw [hlast] at hlast'
    cases hlast'
    rw [Option.mem_def.1 hused] at hused'
    rw [Option.mem_def.1 hmost] at hmost'
    cases hused'
    cases hmost'
    exact hle
  · intro hcondition s hs
    obtain ⟨hsome, hwindows⟩ := parseAnthropicUsage_ok hs
    have hwell := hcondition.resolve_left hsome
    have hmem : ∀ {id : String} {w : QuotaWindow F},
        (anthropicWindows parseTimestamp payload)[id]? = some w → w ∈ s.windows ∧ w.id = id := by
      intro id w hw
      rw [hwindows]
      exact ⟨mem_values.2 ⟨id, hw⟩, id_of_get hw⟩
    refine ⟨?_, fun e he => ?_, fun e he hnone => ?_, hwell.legacy, hwell.limits⟩
    · rw [hwindows]
      exact anthropicWindows_nodup payload
    · obtain ⟨last, w, hlast, hw, hmost⟩ := exists_limit_window hwell.legacy hwell.limits he
      obtain ⟨used, hused⟩ := Option.isSome_iff_exists.1 (hwell.limits e he).1
      exact ⟨w, (hmem hw).1, (hmem hw).2, used, hused, hwell.lastLargest e he last hlast used hused _ hmost⟩
    · obtain ⟨w, hw, hparsed⟩ := exists_legacy_window hwell.legacy hwell.limits he hnone
      obtain ⟨-, hused, hreset⟩ := anthropicWindow_eq_some hparsed
      exact ⟨w, (hmem hw).1, (hmem hw).2, hused, hreset⟩

end Anthropic

/-! ## Codex entries -/

/-- The non-null entries of every bucket of a response, under the ids of their windows. -/
def codexEntries (result : Value F) : List (String × Value F) :=
  (codexBuckets result).flatMap fun bucket => bucketEntries bucket.1 bucket.2

def codexResetTime (window : Value F) : Option DateTime :=
  ((window.get "resetsAt").bind Value.asI64).bind timestampOpt

def CodexNormalises (window : Value F) : Prop := (usage "usedPercent" window).isSome ∧ (codexResetTime window).isSome

/-- A snapshot tells of every non-null entry of its response, with the entry's own values. -/
def CodexKept (result : Value F) (s : QuotaSnapshot F) : Prop :=
  ∀ e ∈ codexEntries result, ∃ w ∈ s.windows,
    w.id = e.1 ∧ usage "usedPercent" e.2 = some w.usedFraction ∧ codexResetTime e.2 = some w.resetsAt

theorem parseCodexWindow_eq_some {id : String} {window : Value F} {w : QuotaWindow F}
    (h : parseCodexWindow id window = some w) :
    w.id = id ∧ usage "usedPercent" window = some w.usedFraction ∧ codexResetTime window = some w.resetsAt := by
  unfold parseCodexWindow at h
  obtain ⟨usedPercent, hused, h⟩ := Option.bind_eq_some_iff.1 h
  obtain ⟨resetEpoch, hepoch, h⟩ := Option.bind_eq_some_iff.1 h
  obtain ⟨resetsAt, hreset, h⟩ := Option.bind_eq_some_iff.1 h
  cases h
  refine ⟨rfl, ?_, ?_⟩
  · rw [usage, hused, Option.map_some]
  · rw [codexResetTime, hepoch, Option.bind_some, hreset]

theorem parseCodexWindow_isSome {id : String} {window : Value F} :
    (parseCodexWindow id window).isSome ↔ CodexNormalises window := by
  constructor
  · intro h
    obtain ⟨w, hw⟩ := Option.isSome_iff_exists.1 h
    obtain ⟨-, hused, hreset⟩ := parseCodexWindow_eq_some hw
    exact ⟨Option.isSome_of_eq_some hused, Option.isSome_of_eq_some hreset⟩
  · rintro ⟨hused, hreset⟩
    obtain ⟨used, hused⟩ := Option.isSome_iff_exists.1 hused
    obtain ⟨usedPercent, hpercent, -⟩ := Option.map_eq_some_iff.1 hused
    obtain ⟨resetsAt, hreset⟩ := Option.isSome_iff_exists.1 hreset
    obtain ⟨resetEpoch, hepoch, htime⟩ := Option.bind_eq_some_iff.1 hreset
    rw [parseCodexWindow, hpercent, Option.bind_eq_bind, Option.bind_some, hepoch, Option.bind_eq_bind,
      Option.bind_some, htime]
    rfl

theorem foldl_parseCodexBucket (buckets : List (String × Value F)) (output : List (QuotaWindow F)) :
    buckets.foldl (fun output bucket => parseCodexBucket bucket.1 bucket.2 output) output =
      output ++ (buckets.flatMap fun bucket => bucketEntries bucket.1 bucket.2).filterMap
        fun e => parseCodexWindow e.1 e.2 := by
  induction buckets generalizing output with
  | nil => exact (List.append_nil output).symm
  | cons bucket rest ih =>
    rw [List.foldl_cons, ih, List.flatMap_cons, List.filterMap_append, parseCodexBucket, List.append_assoc]

theorem parseCodexRateLimits_eq (result : Value F) (observedAt : DateTime) :
    parseCodexRateLimits result observedAt =
      let windows := (codexEntries result).filterMap fun e => parseCodexWindow e.1 e.2
      if windows.isEmpty then .error "Codex rate-limit response contained no usable quota windows"
      else .ok {
        observedAt, fresh := true, windows, eligibleBacklogCapacity := none, resetCredits := parseResetCredits result
        backpressure := none, saturation := none } := by
  unfold parseCodexRateLimits codexEntries
  rw [foldl_parseCodexBucket]
  rfl

/-- **An accepted response is told of whole exactly when all of its entries normalise.** -/
theorem codexKept_iff (result : Value F) (observedAt : DateTime) :
    (∀ s, parseCodexRateLimits result observedAt = .ok s → CodexKept result s) ↔
      (∀ e ∈ codexEntries result, ¬ CodexNormalises e.2) ∨ ∀ e ∈ codexEntries result, CodexNormalises e.2 := by
  have hempty : ((codexEntries result).filterMap fun e => parseCodexWindow e.1 e.2).isEmpty = true ↔
      ∀ e ∈ codexEntries result, ¬ CodexNormalises e.2 := by
    rw [List.isEmpty_iff, List.filterMap_eq_nil_iff]
    refine forall₂_congr fun e _ => ?_
    have hnormal : (parseCodexWindow e.1 e.2).isSome ↔ CodexNormalises e.2 := parseCodexWindow_isSome
    rw [← hnormal, Option.not_isSome_iff_eq_none]
  rw [parseCodexRateLimits_eq]
  dsimp only
  constructor
  · intro hkept
    refine or_iff_not_imp_left.2 fun hsome e he => ?_
    rw [if_neg (mt hempty.1 hsome)] at hkept
    obtain ⟨w, -, -, hused, hreset⟩ := hkept _ rfl e he
    exact ⟨Option.isSome_of_eq_some hused, Option.isSome_of_eq_some hreset⟩
  · intro hcondition s hs e he
    split at hs
    · cases hs
    · rename_i hsome
      have hall := hcondition.resolve_left (mt hempty.2 hsome)
      have hparsed : (parseCodexWindow e.1 e.2).isSome := parseCodexWindow_isSome.2 (hall e he)
      obtain ⟨w, hw⟩ := Option.isSome_iff_exists.1 hparsed
      cases hs
      exact ⟨w, List.mem_filterMap.2 ⟨e, he, hw⟩, parseCodexWindow_eq_some hw⟩

/-! ## Both providers -/

/-- **No active limit is lost exactly when every one can be normalised** and the elements that share a kind end with
the most used, or nothing of the payload can be used and it is refused. -/
theorem provider_limits_kept_iff (parseTimestamp : String → Option DateTime) (payload : Value F)
    (observedAt : DateTime) :
    ((∀ s, parseAnthropicUsage parseTimestamp payload observedAt = .ok s → AnthropicKept parseTimestamp payload s) ↔
        NothingUsable parseTimestamp payload ∨ WellReported parseTimestamp payload) ∧
      ((∀ s, parseCodexRateLimits payload observedAt = .ok s → CodexKept payload s) ↔
        (∀ e ∈ codexEntries payload, ¬ CodexNormalises e.2) ∨ ∀ e ∈ codexEntries payload, CodexNormalises e.2) :=
  ⟨anthropicKept_iff payload observedAt, codexKept_iff payload observedAt⟩

/-! Three payloads that lose a limit: one that has no reset, one that its kind's last element understates, and a
Codex entry without a reset. -/

/-- The one timestamp of the payloads below. -/
def septemberReset (text : String) : Option DateTime :=
  if text = "2026-09-15T00:00:00Z" then some (1789430400 * nanosPerSecond) else none

def percentNumber (n : UInt64) : Value F64 := .number (.posInt n)

def weeklyScoped (percent : UInt64) : Value F64 := .object [
  ("kind", .string "weekly_scoped"), ("percent", percentNumber percent),
  ("resets_at", .string "2026-09-15T00:00:00Z")]

def unresetLimit : Value F64 := .object [
  ("limits", .array [.object [("kind", .string "seven_day"), ("percent", percentNumber 97)], weeklyScoped 20])]

def repeatedLimit : Value F64 := .object [("limits", .array [weeklyScoped 80, weeklyScoped 20])]

def unresetEntry : Value F64 := .object [("rateLimits", .object [
  ("limitId", .string "codex"), ("primary", .object [("usedPercent", percentNumber 97)]),
  ("secondary", .object [("resetsAt", percentNumber 1789430400), ("usedPercent", percentNumber 20)])])]

theorem provider_limits_lost :
    (¬ ∀ s, parseAnthropicUsage septemberReset unresetLimit 0 = .ok s →
        AnthropicKept septemberReset unresetLimit s) ∧
      (¬ ∀ s, parseAnthropicUsage septemberReset repeatedLimit 0 = .ok s →
        AnthropicKept septemberReset repeatedLimit s) ∧
      ¬ ∀ s, parseCodexRateLimits unresetEntry 0 = .ok s → CodexKept unresetEntry s := by
  rw [anthropicKept_iff, anthropicKept_iff, codexKept_iff]
  have hscoped : Normalises septemberReset "percent" (weeklyScoped 20) := ⟨by decide +kernel, by decide +kernel⟩
  refine ⟨?_, ?_, ?_⟩
  · rintro (hnothing | hwell)
    · exact hnothing.2 ("weekly_scoped", weeklyScoped 20) (List.mem_cons_of_mem _ List.mem_cons_self) hscoped
    · have hreset := (hwell.limits _ List.mem_cons_self).2
      revert hreset
      decide +kernel
  · rintro (hnothing | hwell)
    · exact hnothing.2 ("weekly_scoped", weeklyScoped 20) (List.mem_cons_of_mem _ List.mem_cons_self) hscoped
    · have hless := hwell.lastLargest ("weekly_scoped", weeklyScoped 80) List.mem_cons_self (weeklyScoped 20) rfl
        (Flt.ofNat 80 / Flt.ofNat 100) rfl (Flt.ofNat 20 / Flt.ofNat 100) rfl
      revert hless
      decide +kernel
  · have hsecondary : CodexNormalises (Value.object [
        ("resetsAt", percentNumber 1789430400), ("usedPercent", percentNumber 20)]) :=
      ⟨by decide +kernel, by decide +kernel⟩
    rintro (hnothing | hall)
    · exact hnothing _ (List.mem_cons_of_mem _ List.mem_cons_self) hsecondary
    · have hreset := (hall _ List.mem_cons_self).2
      revert hreset
      decide +kernel

end Subgov
