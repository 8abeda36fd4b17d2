import Subgov.Lib.Float
/-!
# Binary64 — IEEE 754 double precision

A double is a sign and a 63-bit magnitude word: a biased exponent above 52 fraction bits.  Words are ordered as the
magnitudes they encode, so the comparisons read the words alone.  Every finite double is an integer multiple of
`2⁻¹⁰⁷⁴`; an operation is computed exactly over those integers and rounded to nearest, ties to even.
-/
namespace FloatArith

/-- The word of an infinity: the all-ones exponent above a zero fraction. -/
def infWord : Nat := 2047 * 2 ^ 52

structure F64 where
  neg : Bool
  word : Nat
  bounded : word < 2 ^ 63
  deriving DecidableEq

namespace F64

/-- A word cut to 63 bits; the identity on every word the operations build. -/
def ofWord (neg : Bool) (word : Nat) : F64 := ⟨neg, word % 2 ^ 63, Nat.mod_lt _ (by decide)⟩

def nan : F64 := ofWord false (infWord + 2 ^ 51)

def inf (neg : Bool) : F64 := ofWord neg infWord

def isNaN (x : F64) : Bool := decide (infWord < x.word)

def isFinite (x : F64) : Bool := decide (x.word < infWord)

/-- The magnitude of a finite word, in units of `2⁻¹⁰⁷⁴`. -/
def magnitude (w : Nat) : Nat :=
  if w < 2 ^ 52 then w else (2 ^ 52 + w % 2 ^ 52) * 2 ^ (w / 2 ^ 52 - 1)

def scaled (x : F64) : Int := if x.neg then -(magnitude x.word : Int) else magnitude x.word

def roundHalfEven (a d : Nat) : Nat :=
  let q := a / d
  let r := a % d
  if 2 * r < d then q else if d < 2 * r then q + 1 else q + q % 2

/-- The word nearest to `a / d` units of `2⁻¹⁰⁷⁴`, an infinity past the largest finite one. -/
def roundWord (a d : Nat) : Nat :=
  let p := Nat.log2 (a / d) - 52
  Nat.min (p * 2 ^ 52 + roundHalfEven a (d * 2 ^ p)) infWord

def ofRat (q : ℚ) : F64 := ofWord (decide (q < 0)) (roundWord (q.num.natAbs * 2 ^ 1074) q.den)

/-- Position on the number line: the two zeros coincide. -/
def position (x : F64) : Int := if x.neg then -(x.word : Int) else x.word

/-- Position in the total order: `-0` just below `+0`, NaNs at the ends. -/
def totalPosition (x : F64) : Int := if x.neg then -(x.word : Int) - 1 else x.word

def le (a b : F64) : Bool := !a.isNaN && !b.isNaN && decide (a.position ≤ b.position)

def lt (a b : F64) : Bool := !a.isNaN && !b.isNaN && decide (a.position < b.position)

def beq (a b : F64) : Bool := !a.isNaN && !b.isNaN && decide (a.position = b.position)

def negate (x : F64) : F64 := { x with neg := !x.neg }

def abs (x : F64) : F64 := { x with neg := false }

def add (a b : F64) : F64 :=
  if a.isNaN || b.isNaN then nan
  else if !a.isFinite then (if !b.isFinite && a.neg != b.neg then nan else a)
  else if !b.isFinite then b
  else
    let s := a.scaled + b.scaled
    -- an exact zero sum is negative only between two negative zeros
    ofWord (if s = 0 then a.neg && b.neg else decide (s < 0)) (roundWord s.natAbs 1)

def mul (a b : F64) : F64 :=
  let neg := a.neg != b.neg
  if a.isNaN || b.isNaN then nan
  else if !a.isFinite || !b.isFinite then (if a.word = 0 || b.word = 0 then nan else inf neg)
  else ofWord neg (roundWord (magnitude a.word * magnitude b.word) (2 ^ 1074))

def div (a b : F64) : F64 :=
  let neg := a.neg != b.neg
  if a.isNaN || b.isNaN then nan
  else if !a.isFinite then (if !b.isFinite then nan else inf neg)
  else if !b.isFinite then ofWord neg 0
  else if b.word = 0 then (if a.word = 0 then nan else inf neg)
  else ofWord neg (roundWord (magnitude a.word * 2 ^ 1074) (magnitude b.word))

def max (a b : F64) : F64 :=
  if a.isNaN then b else if b.isNaN then a else if a.totalPosition < b.totalPosition then b else a

def min (a b : F64) : F64 :=
  if a.isNaN then b else if b.isNaN then a else if b.totalPosition < a.totalPosition then b else a

/-- Rounding to an integer keeps the operand's sign on a zero, and an operand that is not finite. -/
def toIntegral (r : Int → Int) (x : F64) : F64 :=
  if x.isFinite then ofWord x.neg (roundWord ((r x.scaled).natAbs * 2 ^ 1074) 1) else x

def floor : F64 → F64 := toIntegral (fun s => s.fdiv (2 ^ 1074))

def ceil : F64 → F64 := toIntegral (fun s => -(-s).fdiv (2 ^ 1074))

def round : F64 → F64 := toIntegral (fun s => s.sign * ((s.natAbs + 2 ^ 1073) / 2 ^ 1074 : Nat))

def totalCmp (a b : F64) : Ordering := compare a.totalPosition b.totalPosition

/-- The saturating cast: truncation, zero for a NaN. -/
def toUInt (most : Nat) (x : F64) : Nat :=
  if x.isNaN || x.neg then 0 else if !x.isFinite then most else Nat.min most (magnitude x.word / 2 ^ 1074)

end F64

instance : Flt F64 where
  add := F64.add
  sub a b := F64.add a b.negate
  mul := F64.mul
  div := F64.div
  le a b := F64.le a b = true
  lt a b := F64.lt a b = true
  ofRat := F64.ofRat
  beq := F64.beq
  isFinite := F64.isFinite
  max := F64.max
  min := F64.min
  abs := F64.abs
  ceil := F64.ceil
  floor := F64.floor
  round := F64.round
  totalCmp := F64.totalCmp
  toUInt := F64.toUInt
  decLe _ _ := inferInstanceAs (Decidable (_ = true))
  decLt _ _ := inferInstanceAs (Decidable (_ = true))

theorem F64.le_iff (a b : F64) : a ≤ b ↔ a.isNaN = false ∧ b.isNaN = false ∧ a.position ≤ b.position := by
  show F64.le a b = true ↔ _
  simp only [F64.le, Bool.and_eq_true, Bool.not_eq_true', decide_eq_true_eq, and_assoc]

theorem F64.lt_iff (a b : F64) : a < b ↔ a.isNaN = false ∧ b.isNaN = false ∧ a.position < b.position := by
  show F64.lt a b = true ↔ _
  simp only [F64.lt, Bool.and_eq_true, Bool.not_eq_true', decide_eq_true_eq, and_assoc]

theorem F64.position_le_of_totalPosition_le {a b : F64} (h : a.totalPosition ≤ b.totalPosition) :
    a.position ≤ b.position := by
  obtain ⟨na, wa, ha⟩ := a
  obtain ⟨nb, wb, hb⟩ := b
  simp only [F64.totalPosition, F64.position] at h ⊢
  cases na <;> cases nb <;> simp only [if_true, if_false, Bool.false_eq_true] at h ⊢
  all_goals omega

theorem F64.totalPosition_injective {a b : F64} (h : a.totalPosition = b.totalPosition) : a = b := by
  obtain ⟨na, wa, ha⟩ := a
  obtain ⟨nb, wb, hb⟩ := b
  simp only [F64.totalPosition] at h
  cases na <;> cases nb <;> simp_all
  · omega
  · omega

theorem F64.isNaN_of_isFinite {a : F64} (h : a.isFinite = true) : a.isNaN = false := by
  unfold F64.isFinite at h
  unfold F64.isNaN
  simp only [decide_eq_true_eq, decide_eq_false_iff_not] at h ⊢
  omega

/-- A bound below the larger of two operands is below one of them, and conversely: a NaN bounds nothing. -/
theorem F64.le_max (a b c : F64) : a ≤ F64.max b c ↔ a ≤ b ∨ a ≤ c := by
  unfold F64.max
  by_cases hb : b.isNaN = true
  · rw [if_pos hb]
    simp [F64.le_iff, hb]
  · by_cases hc : c.isNaN = true
    · rw [if_neg hb, if_pos hc]
      simp [F64.le_iff, hc]
    · rw [if_neg hb, if_neg hc]
      simp only [Bool.not_eq_true] at hb hc
      simp only [F64.le_iff, hb, hc, true_and]
      split
      · rename_i h
        have hpos := F64.position_le_of_totalPosition_le h.le
        simp only [hc, true_and]
        exact ⟨Or.inr, fun h' => h'.elim (fun h1 => ⟨h1.1, by omega⟩) id⟩
      · rename_i h
        have hpos := F64.position_le_of_totalPosition_le (not_lt.1 h)
        simp only [hb, true_and]
        exact ⟨Or.inl, fun h' => h'.elim id fun h1 => ⟨h1.1, by omega⟩⟩

instance : LawfulFlt F64 where
  le_max := F64.le_max
  beq_of_le_of_le a b hab hba := by
    rw [F64.le_iff] at hab hba
    have hpos : a.position = b.position := by omega
    show F64.beq a b = true
    simp [F64.beq, hab.1, hab.2.1, hpos]

instance : OrderedFlt F64 where
  position := ⟨F64.position, fun a b ha hb => by
    have hna := F64.isNaN_of_isFinite ha
    have hnb := F64.isNaN_of_isFinite hb
    constructor
    · rw [F64.lt_iff]
      simp only [hna, hnb, true_and]
    · show F64.beq a b = true ↔ _
      simp [F64.beq, hna, hnb]⟩
  rank := ⟨F64.totalPosition, fun a b ha hb => by
    have hmax : Flt.max a b = if a.totalPosition < b.totalPosition then b else a := by
      show F64.max a b = _
      rw [F64.max, if_neg (by simp [F64.isNaN_of_isFinite ha]), if_neg (by simp [F64.isNaN_of_isFinite hb])]
    refine ⟨F64.totalPosition_injective, ?_⟩
    rw [hmax]
    split
    · exact ⟨hb, by omega⟩
    · exact ⟨ha, by omega⟩⟩

/-! ## Rounded fractions -/

theorem F64.roundHalfEven_le {a d m : Nat} (hd : 0 < d) (h : a ≤ m * d) : roundHalfEven a d ≤ m := by
  have hq : a / d ≤ m := Nat.div_le_of_le_mul (Nat.mul_comm m d ▸ h)
  unfold roundHalfEven
  dsimp only
  split
  · exact hq
  · rename_i hhalf
    -- a quotient of `m` leaves no remainder
    have hlt : a / d < m := by
      refine Nat.lt_of_le_of_ne hq fun hsame => hhalf ?_
      have hdiv := Nat.div_add_mod a d
      rw [hsame, Nat.mul_comm] at hdiv
      omega
    split <;> omega

theorem F64.roundHalfEven_le_two_pow {a d : Nat} (p m : Nat) (hd : 0 < d) (h : a ≤ d * 2 ^ (p + m)) :
    roundHalfEven a (d * 2 ^ p) ≤ 2 ^ m := by
  refine roundHalfEven_le (Nat.mul_pos hd (Nat.two_pow_pos _)) (le_trans h (le_of_eq ?_))
  rw [Nat.pow_add, Nat.mul_comm (2 ^ p), Nat.mul_left_comm]

/-- A value of at most a power of two has at most that power's word. -/
theorem F64.roundWord_le {a d e : Nat} (hd : 0 < d) (he : 53 ≤ e) (h : a ≤ d * 2 ^ e) :
    roundWord a d ≤ (e - 51) * 2 ^ 52 := by
  unfold roundWord
  dsimp only
  refine le_trans (Nat.min_le_left _ _) ?_
  by_cases htop : a / d = 2 ^ e
  · rw [htop, Nat.log2_two_pow]
    have hbits : roundHalfEven a (d * 2 ^ (e - 52)) ≤ 2 ^ 52 := by
      refine roundHalfEven_le_two_pow (e - 52) 52 hd ?_
      rwa [Nat.sub_add_cancel (by omega)]
    omega
  · have hbelow : a / d < 2 ^ e := Nat.lt_of_le_of_ne (Nat.div_le_of_le_mul h) htop
    have hlog : Nat.log2 (a / d) < e := by
      by_cases hzero : a / d = 0
      · rw [hzero, Nat.log2_zero]
        omega
      · exact (Nat.log2_lt hzero).2 hbelow
    generalize hp : Nat.log2 (a / d) - 52 = p
    have hquot : a / d < 2 ^ (p + 53) :=
      lt_of_lt_of_le Nat.lt_log2_self (Nat.pow_le_pow_right (by decide) (by omega))
    have hless : a ≤ d * 2 ^ (p + 53) := by
      rw [Nat.mul_comm]
      exact le_of_lt ((Nat.div_lt_iff_lt_mul hd).1 hquot)
    have hbits := roundHalfEven_le_two_pow p 53 hd hless
    omega

theorem F64.ofRat_word_le {q : ℚ} (h0 : 0 ≤ q) (h1 : q ≤ 1) :
    (F64.ofRat q).neg = false ∧ (F64.ofRat q).word ≤ 1023 * 2 ^ 52 := by
  have hnum : q.num.natAbs ≤ q.den := by
    have hle := Rat.num_le_denom_iff.2 h1
    have hpos := Rat.num_nonneg.2 h0
    omega
  have hround : roundWord (q.num.natAbs * 2 ^ 1074) q.den ≤ (1074 - 51) * 2 ^ 52 :=
    roundWord_le q.den_pos (by decide) (Nat.mul_le_mul_right _ hnum)
  refine ⟨decide_eq_false (not_lt.2 h0), ?_⟩
  unfold ofRat ofWord
  dsimp only
  exact le_trans (Nat.mod_le _ _) hround

instance : UnitFlt F64 where
  ofRat_unit q h0 h1 := by
    obtain ⟨hneg, hword⟩ := F64.ofRat_word_le h0 h1
    have hzero : (Flt.zero : F64) = ⟨false, 0, by decide⟩ := by decide +kernel
    have hone : (Flt.ofNat 1 : F64) = ⟨false, 1023 * 2 ^ 52, by decide⟩ := by decide +kernel
    have hfinite : (F64.ofRat q).isFinite = true := decide_eq_true (lt_of_le_of_lt hword (by decide))
    have hnan := F64.isNaN_of_isFinite hfinite
    have hposition : (F64.ofRat q).position = (F64.ofRat q).word := by
      unfold F64.position
      rw [hneg]
      rfl
    refine ⟨hfinite, ?_⟩
    unfold Flt.within
    rw [Bool.and_eq_true, decide_eq_true_eq, decide_eq_true_eq, F64.le_iff, F64.le_iff, hzero, hone]
    refine ⟨⟨by decide, hnan, ?_⟩, hnan, by decide, ?_⟩
    · change (0 : Int) ≤ (F64.ofRat q).position
      omega
    · change (F64.ofRat q).position ≤ ((1023 * 2 ^ 52 : Nat) : Int)
      omega

/-! ## The largest of several -/

namespace F64

theorem max_eq_left {m x : F64} (hm : m.isNaN = false) (h : x.isNaN = true ∨ x.totalPosition ≤ m.totalPosition) :
    F64.max m x = m := by
  unfold F64.max
  rw [if_neg (by simp [hm])]
  rcases h with hx | hle
  · rw [if_pos hx]
  · rw [if_neg (Int.not_lt.2 hle)]
    split
    · rfl
    · rfl

/-- The larger of two covers both, a NaN excepted, and is one of them. -/
theorem max_spec {m : F64} (x : F64) (hm : m.isNaN = false) :
    (F64.max m x).isNaN = false ∧ m.totalPosition ≤ (F64.max m x).totalPosition ∧
      (x.isNaN = true ∨ x.totalPosition ≤ (F64.max m x).totalPosition) ∧ (F64.max m x = m ∨ F64.max m x = x) := by
  by_cases hx : x.isNaN = true
  · rw [max_eq_left hm (Or.inl hx)]
    exact ⟨hm, Int.le_refl _, Or.inl hx, Or.inl rfl⟩
  · by_cases hlt : m.totalPosition < x.totalPosition
    · have hmax : F64.max m x = x := by
        unfold F64.max
        rw [if_neg (by simp [hm]), if_neg hx, if_pos hlt]
      rw [hmax]
      exact ⟨Bool.eq_false_iff.2 hx, Int.le_of_lt hlt, Or.inr (Int.le_refl _), Or.inr rfl⟩
    · rw [max_eq_left hm (Or.inr (Int.not_lt.1 hlt))]
      exact ⟨hm, Int.le_refl _, Or.inr (Int.not_lt.1 hlt), Or.inl rfl⟩

/-- **The largest of a list and a start** covers them all and is one of them. -/
theorem foldl_max_spec {m : F64} (xs : List F64) (hm : m.isNaN = false) :
    (xs.foldl F64.max m).isNaN = false ∧ m.totalPosition ≤ (xs.foldl F64.max m).totalPosition ∧
      (∀ x ∈ xs, x.isNaN = true ∨ x.totalPosition ≤ (xs.foldl F64.max m).totalPosition) ∧
      (xs.foldl F64.max m = m ∨ xs.foldl F64.max m ∈ xs) := by
  induction xs generalizing m with
  | nil => exact ⟨hm, Int.le_refl _, nofun, Or.inl rfl⟩
  | cons x xs ih =>
    obtain ⟨hnan, hle, hcovers, hone⟩ := max_spec x hm
    obtain ⟨hnan', hle', hcovers', hone'⟩ := ih hnan
    rw [List.foldl_cons]
    refine ⟨hnan', Int.le_trans hle hle', fun y hy => ?_, ?_⟩
    · rcases List.mem_cons.1 hy with rfl | hy
      · exact hcovers.imp id fun h => Int.le_trans h hle'
      · exact hcovers' y hy
    · rcases hone' with heq | hmem
      · rw [heq]
        exact hone.imp id fun h => by simp [h]
      · exact Or.inr (List.mem_cons_of_mem _ hmem)

theorem foldl_max_eq_self {m : F64} {xs : List F64} (hm : m.isNaN = false)
    (h : ∀ x ∈ xs, x.isNaN = true ∨ x.totalPosition ≤ m.totalPosition) : xs.foldl F64.max m = m := by
  induction xs with
  | nil => rfl
  | cons x xs ih =>
    rw [List.foldl_cons, max_eq_left hm (h x List.mem_cons_self)]
    exact ih fun y hy => h y (List.mem_cons_of_mem _ hy)

end F64

example : (Flt.ofRat (1 / 10) : F64) + Flt.ofRat (2 / 10) = ⟨false, 0x3FD3333333333334, by decide⟩ := by decide +kernel

end FloatArith
