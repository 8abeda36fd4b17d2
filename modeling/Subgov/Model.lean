import Mathlib.Data.List.Nodup
import Subgov.Lib.Binary64
import Subgov.Lib.Select
/-!
# Model — words, clocks and the normalized quota snapshot

`u32` and `u64` counts are naturals; an operation that saturates, wraps or casts in the source does so here at
`u32Max` and `2⁶³`.  A timestamp is its nanoseconds since the epoch and a duration their difference, so that `chrono`'s
truncating second and millisecond counts are truncating divisions.  Every float field is over an arbitrary `Flt`.
-/
namespace Subgov

open FloatArith

/-! ## Words -/

def u32Max : Nat := 4294967295

def i64Max : Nat := 9223372036854775807

def satAdd (a b : Nat) : Nat := min (a + b) u32Max

/-- The unchecked `u32` sum of a release build. -/
def wrapAdd (a b : Nat) : Nat := (a + b) % (u32Max + 1)

/-- `value as i64` for an unsigned 64-bit value. -/
def asI64 (n : Nat) : Int := if n ≤ i64Max then n else n - 2 ^ 64

def clampNat (x lo hi : Nat) : Nat := if x < lo then lo else if hi < x then hi else x

theorem clampNat_eq {x lo hi : Nat} (h : lo ≤ hi) : clampNat x lo hi = max lo (min x hi) := by
  unfold clampNat
  split
  · omega
  · split <;> omega

theorem le_clampNat (x lo hi : Nat) (h : lo ≤ hi) : lo ≤ clampNat x lo hi := by
  rw [clampNat_eq h]; omega

theorem satAdd_le (a b : Nat) : satAdd a b ≤ a + b := Nat.min_le_left _ _

theorem satAdd_le_max (a b : Nat) : satAdd a b ≤ u32Max := Nat.min_le_right _ _

theorem satAdd_of_le {a b : Nat} (h : a + b ≤ u32Max) : satAdd a b = a + b := Nat.min_eq_left h

/-- A `BTreeMap` keyed by strings: ordered, and equal to another exactly when their lookups are. -/
abbrev BTreeMap (V : Type) := Std.ExtTreeMap String V compare

theorem getElem?_foldl_insert {V W : Type} (key : W → String) (val : W → V) : ∀ (ws : List W) (m : BTreeMap V),
    (ws.map key).Nodup → ∀ k, (ws.foldl (fun m w => m.insert (key w) (val w)) m)[k]? =
      ((ws.find? (fun w => key w == k)).map val).or m[k]?
  | [], _, _, _ => rfl
  | w :: ws, m, hnd, k => by
    rw [List.map_cons, List.nodup_cons] at hnd
    rw [List.foldl_cons, getElem?_foldl_insert key val ws _ hnd.2, List.find?_cons, Std.ExtTreeMap.getElem?_insert]
    by_cases hk : key w = k
    · subst hk
      have hnone : ws.find? (fun v => key v == key w) = none := by
        rw [List.find?_eq_none]
        intro v hv hvk
        exact hnd.1 (List.mem_map.2 ⟨v, hv, beq_iff_eq.1 hvk⟩)
      simp [hnone]
    · have hb : (key w == k) = false := by simpa using hk
      simp [hb, hk]

theorem getElem?_foldl_insert_of_mem {V W : Type} {key : W → String} (val : W → V) {ws : List W} (m : BTreeMap V)
    (hnd : (ws.map key).Nodup) {w : W} (hw : w ∈ ws) :
    (ws.foldl (fun m w => m.insert (key w) (val w)) m)[key w]? = some (val w) := by
  rw [getElem?_foldl_insert key val ws m hnd]
  cases hfind : ws.find? (fun v => key v == key w) with
  | none => exact absurd (List.find?_eq_none.1 hfind w hw) (by simp)
  | some v =>
    have hkey : key v = key w := by simpa using List.find?_some hfind
    have hvw : v = w := List.inj_on_of_nodup_map hnd (List.mem_of_find?_eq_some hfind) hw hkey
    rw [hvw]
    rfl

theorem getElem?_foldl_insert_of_notMem {V W : Type} {key : W → String} (val : W → V) {ws : List W} (m : BTreeMap V)
    (hnd : (ws.map key).Nodup) {k : String} (hk : k ∉ ws.map key) :
    (ws.foldl (fun m w => m.insert (key w) (val w)) m)[k]? = m[k]? := by
  have hnone : ws.find? (fun w => key w == k) = none := by
    rw [List.find?_eq_none]
    intro w hw hwk
    exact hk (List.mem_map.2 ⟨w, hw, beq_iff_eq.1 hwk⟩)
  rw [getElem?_foldl_insert key val ws m hnd, hnone]
  rfl

/-- Inserts in turn leave under each key what was last inserted there. -/
theorem getElem?_foldl_insert_pairs {V : Type} (entries : List (String × V)) (m : BTreeMap V) (k : String) :
    (entries.foldl (fun m e => m.insert e.1 e.2) m)[k]? = (entries.reverse.lookup k).or m[k]? := by
  induction entries generalizing m with
  | nil => rfl
  | cons e rest ih =>
    obtain ⟨key, v⟩ := e
    rw [List.foldl_cons, ih, Std.ExtTreeMap.getElem?_insert, List.reverse_cons, List.lookup_append, Option.or_assoc]
    congr 1
    by_cases hk : key = k
    · subst hk
      rw [if_pos Std.ReflCmp.compare_self, List.lookup_cons_self, Option.some_or]
    · rw [if_neg (fun h => hk (Std.LawfulEqCmp.compare_eq_iff_eq.1 h)), List.lookup_cons, beq_false_of_ne (Ne.symm hk)]
      rfl

theorem values_eq_map_toList {V : Type} (m : BTreeMap V) : m.values = m.toList.map Prod.snd := by
  rcases m with ⟨⟨t⟩⟩
  induction t using Quotient.inductionOn with
  | h t =>
    show Std.DTreeMap.Internal.Impl.values t.inner =
      (Std.DTreeMap.Internal.Impl.Const.toList t.inner).map Prod.snd
    rw [Std.DTreeMap.Internal.Impl.values_eq_map_snd, Std.DTreeMap.Internal.Impl.Const.toList_eq_toListModel_map,
      List.map_map]
    rfl

theorem mem_values {V : Type} {m : BTreeMap V} {v : V} : v ∈ m.values ↔ ∃ k : String, m[k]? = some v := by
  rw [values_eq_map_toList, List.mem_map]
  constructor
  · rintro ⟨e, he, rfl⟩
    exact ⟨e.1, Std.ExtTreeMap.mem_toList_iff_getElem?_eq_some.1 he⟩
  · rintro ⟨k, hk⟩
    exact ⟨(k, v), Std.ExtTreeMap.mem_toList_iff_getElem?_eq_some.2 hk, rfl⟩

/-- Values that carry their own keys are told apart by them. -/
theorem nodup_map_values {V : Type} {key : V → String} {m : BTreeMap V}
    (h : ∀ (k : String) (v : V), m[k]? = some v → key v = k) : (m.values.map key).Nodup := by
  have hkeys : m.values.map key = m.keys := by
    rw [values_eq_map_toList, List.map_map, ← Std.ExtTreeMap.map_fst_toList_eq_keys]
    exact List.map_congr_left fun e he => h e.1 e.2 (Std.ExtTreeMap.mem_toList_iff_getElem?_eq_some.1 he)
  rw [hkeys]
  exact Std.ExtTreeMap.nodup_keys

/-! ## Bytes -/

abbrev Bytes := List UInt8

def newline : UInt8 := 10

/-! ## Clocks -/

abbrev DateTime := Int

abbrev Duration := Int

def nanosPerSecond : Int := 1000000000

def numSeconds (d : Duration) : Int := d.tdiv nanosPerSecond

def numMilliseconds (d : Duration) : Int := d.tdiv 1000000

def minUtc : DateTime := -8334601228800 * nanosPerSecond

def maxUtc : DateTime := 8210266876799 * nanosPerSecond + 999999999

/-- `Duration::try_seconds`: `None` past the milliseconds an `i64` holds. -/
def trySeconds (s : Int) : Option Duration :=
  if s.natAbs ≤ i64Max / 1000 then some (s * nanosPerSecond) else none

def checkedDate (t : DateTime) : Option DateTime :=
  if minUtc ≤ t ∧ t ≤ maxUtc then some t else none

def hours (n : Int) : Duration := n * 3600 * nanosPerSecond

def ageSeconds (d : Duration) : Nat := (numSeconds d).toNat

/-! ## The quota snapshot -/

variable {F : Type} [Flt F]

structure QuotaWindow (F : Type) where
  id : String
  usedFraction : F
  resetsAt : DateTime
  durationMinutes : Option Nat
  reached : Bool

structure ResetCredit where
  id : String
  status : String
  expiresAt : Option DateTime

structure ResetCreditsSnapshot where
  availableCount : Nat
  credits : Option (List ResetCredit)

structure BackpressureSnapshot (F : Type) where
  upstream429Fraction : Option F
  attempts : Nat
  windowSeconds : Nat

structure SaturationSnapshot (F : Type) where
  completedRequests : Nat
  windowSeconds : Nat
  attempts : Nat
  upstreamConcurrencyFraction : Option F

structure QuotaSnapshot (F : Type) where
  observedAt : DateTime
  fresh : Bool
  windows : List (QuotaWindow F)
  eligibleBacklogCapacity : Option Nat
  resetCredits : Option ResetCreditsSnapshot
  backpressure : Option (BackpressureSnapshot F)
  saturation : Option (SaturationSnapshot F)

def ensure (ok : Bool) (message : String) : Except String Unit := if ok then .ok () else .error message

@[simp] theorem ensure_ok {b : Bool} {m : String} : ensure b m = .ok () ↔ b = true := by
  unfold ensure; cases b <;> simp

@[simp] theorem andThen_ok {x : Except String Unit} {f : Unit → Except String Unit} :
    x >>= f = .ok () ↔ x = .ok () ∧ f () = .ok () := by
  cases x with
  | error e => exact ⟨nofun, fun h => nomatch h.1⟩
  | ok u => exact ⟨fun h => ⟨rfl, h⟩, fun h => h.2⟩

def isFraction (x : F) : Bool := Flt.isFinite x && Flt.within Flt.zero (Flt.ofNat 1) x

theorem isFinite_of_isFraction {x : F} (h : isFraction x = true) : Flt.isFinite x = true := by
  unfold isFraction at h
  rw [Bool.and_eq_true] at h
  exact h.1

def SaturationSnapshot.validate (s : SaturationSnapshot F) : Except String Unit := do
  ensure (s.completedRequests ≤ s.attempts) "quota snapshot saturation completed_requests must be <= attempts"
  ensure (s.upstreamConcurrencyFraction.all isFraction)
    "quota snapshot saturation upstream_concurrency_fraction must be in [0, 1]"

def BackpressureSnapshot.validate (s : BackpressureSnapshot F) : Except String Unit :=
  ensure (s.upstream429Fraction.all isFraction)
    "quota snapshot backpressure upstream_429_fraction must be in [0, 1]"

/-- The per-window part of `validate_snapshot`: `seen` carries the ids of the windows before `index`. -/
def validateWindows (seen : List String) (index : Nat) : List (QuotaWindow F) → Except String Unit
  | [] => .ok ()
  | w :: ws => do
    ensure (!w.id.isEmpty) s!"quota snapshot window {index} has an empty id"
    ensure (isFraction w.usedFraction) s!"quota snapshot window {index} used_fraction must be in [0, 1]"
    ensure (!seen.contains w.id)
      s!"quota snapshot window {index} has a duplicate id (already used by an earlier window)"
    validateWindows (w.id :: seen) (index + 1) ws

/-- `char::is_whitespace`: the Unicode `White_Space` property. -/
def isWhitespace (c : Char) : Bool :=
  let n := c.toNat
  (0x09 ≤ n && n ≤ 0x0D) || (0x2000 ≤ n && n ≤ 0x200A) ||
    [0x20, 0x85, 0xA0, 0x1680, 0x2028, 0x2029, 0x202F, 0x205F, 0x3000].contains n

def isBlank (s : String) : Bool := s.toList.all isWhitespace

def validateSnapshot (s : QuotaSnapshot F) : Except String Unit := do
  ensure (!s.windows.isEmpty) "quota snapshot has no windows"
  validateWindows [] 0 s.windows
  ensure ((s.resetCredits.bind (·.credits)).all (fun cs => cs.all (fun c => !isBlank c.id)))
    "quota snapshot has a reset credit with an empty id"
  s.saturation.elim (.ok ()) (·.validate)
  s.backpressure.elim (.ok ()) (·.validate)

/-- The windows are accepted when every id is given and new and every fraction is one. -/
theorem validateWindows_iff : ∀ (ws : List (QuotaWindow F)) (seen : List String) (k : Nat),
    validateWindows seen k ws = .ok () ↔
      (∀ w ∈ ws, w.id.isEmpty = false ∧ isFraction w.usedFraction = true ∧ w.id ∉ seen) ∧ (ws.map (·.id)).Nodup
  | [], _, _ => by simp [validateWindows]
  | w :: ws, seen, k => by
    simp only [validateWindows, andThen_ok, ensure_ok, Bool.not_eq_true', List.contains_eq_mem,
      decide_eq_false_iff_not, validateWindows_iff ws, List.forall_mem_cons, List.map_cons, List.nodup_cons,
      List.mem_map]
    constructor
    · rintro ⟨hid, hw, hnew, hrest, hnd⟩
      refine ⟨⟨⟨hid, hw, hnew⟩, fun v hv => ?_⟩, ?_, hnd⟩
      · exact ⟨(hrest v hv).1, (hrest v hv).2.1, fun hm => (hrest v hv).2.2 (List.mem_cons_of_mem _ hm)⟩
      · rintro ⟨v, hv, hvid⟩
        exact (hrest v hv).2.2 (hvid ▸ List.mem_cons_self)
    · rintro ⟨⟨⟨hid, hw, hnew⟩, hrest⟩, hfirst, hnd⟩
      refine ⟨hid, hw, hnew, fun v hv => ⟨(hrest v hv).1, (hrest v hv).2.1, fun hm => ?_⟩, hnd⟩
      rcases List.mem_cons.1 hm with hvid | hm
      · exact hfirst ⟨v, hv, hvid⟩
      · exact (hrest v hv).2.2 hm

theorem validateWindows_ok (ws : List (QuotaWindow F)) (seen : List String) (k : Nat)
    (h : validateWindows seen k ws = .ok ()) :
    (∀ w ∈ ws, isFraction w.usedFraction = true ∧ w.id ∉ seen) ∧ (ws.map (·.id)).Nodup :=
  ((validateWindows_iff ws seen k).1 h).imp_left fun hall w hw => (hall w hw).2

/-- **The windows of a collected snapshot have distinct ids.** -/
theorem validateSnapshot_nodup {s : QuotaSnapshot F} (h : validateSnapshot s = .ok ()) :
    (s.windows.map (·.id)).Nodup := by
  simp only [validateSnapshot, andThen_ok] at h
  exact (validateWindows_ok _ _ _ h.2.1).2

/-! ## Reset generations -/

def resetGenerationJitterToleranceSeconds : Nat := 60

/-- Whether two `resets_at` values identify one generation: at most a minute of jitter apart. -/
def sameResetGeneration (a b : DateTime) : Bool :=
  decide ((numSeconds (a - b)).natAbs ≤ resetGenerationJitterToleranceSeconds)

theorem sameResetGeneration_refl (a : DateTime) : sameResetGeneration a a = true := by
  simp [sameResetGeneration, numSeconds]

end Subgov
