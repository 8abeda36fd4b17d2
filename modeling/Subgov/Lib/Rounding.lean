import Subgov.Lib.Binary64
/-!
# Rounding — operations on doubles keep the order

Rounding to nearest keeps the order of what it rounds: within one exponent because ties to even do, across exponents
because a power of two lies between.  So do the conversion of an unsigned integer and the division by a positive finite
double (`div_le_div`), and a difference of the smaller from the larger stays on its side of zero (`sub_nonpos`).
-/
namespace FloatArith
namespace F64

/-! ## Words -/

theorem le_roundHalfEven {a d m : Nat} (hd : 0 < d) (h : m * d ≤ a) : m ≤ roundHalfEven a d := by
  have hq : m ≤ a / d := (Nat.le_div_iff_mul_le hd).2 h
  unfold roundHalfEven
  dsimp only
  split
  · exact hq
  · split
    · exact Nat.le_succ_of_le hq
    · exact Nat.le_add_right_of_le hq

theorem roundHalfEven_mono {a b d : Nat} (hd : 0 < d) (h : a ≤ b) : roundHalfEven a d ≤ roundHalfEven b d := by
  have hdivA := Nat.div_add_mod a d
  have hdivB := Nat.div_add_mod b d
  rcases Nat.lt_or_ge (a / d) (b / d) with hless | hsame
  · -- a whole number lies between
    have hbelow : a ≤ (b / d) * d := by
      have hmod := Nat.mod_lt a hd
      have hstep : (a / d + 1) * d ≤ (b / d) * d := Nat.mul_le_mul_right d hless
      rw [Nat.add_mul, Nat.one_mul, Nat.mul_comm] at hstep
      omega
    exact Nat.le_trans (roundHalfEven_le hd hbelow) (le_roundHalfEven hd (Nat.div_mul_le_self b d))
  · have hquotient : a / d = b / d := Nat.le_antisymm (Nat.div_le_div_right h) hsame
    rw [hquotient] at hdivA
    have hremainder : a % d ≤ b % d := by omega
    by_cases hbelow : 2 * (a % d) < d
    · have hdown : roundHalfEven a d = b / d := by
        unfold roundHalfEven
        dsimp only
        rw [if_pos hbelow, hquotient]
      rw [hdown]
      exact le_roundHalfEven hd (Nat.div_mul_le_self b d)
    · have hbelow' : ¬ 2 * (b % d) < d := by omega
      have hparity : b / d % 2 ≤ 1 := Nat.le_of_lt_succ (Nat.mod_lt (b / d) Nat.two_pos)
      unfold roundHalfEven
      dsimp only
      rw [if_neg hbelow, if_neg hbelow', hquotient]
      by_cases habove : d < 2 * (a % d)
      · have habove' : d < 2 * (b % d) := by omega
        rw [if_pos habove, if_pos habove']
      · rw [if_neg habove]
        split
        · exact Nat.add_le_add_left hparity _
        · exact Nat.le_refl _

/-- A quotient of at least a power of two has at least the significand's leading bit. -/
theorem two_pow_le_roundHalfEven {a d p : Nat} (hd : 0 < d) (h : d * 2 ^ (p + 52) ≤ a) :
    2 ^ 52 ≤ roundHalfEven a (d * 2 ^ p) := by
  refine le_roundHalfEven (Nat.mul_pos hd (Nat.two_pow_pos _)) (Nat.le_trans (Nat.le_of_eq ?_) h)
  rw [Nat.pow_add, Nat.mul_comm (2 ^ p), Nat.mul_left_comm]

/-- **A larger fraction has no smaller word.** -/
theorem roundWord_mono {a b d : Nat} (hd : 0 < d) (h : a ≤ b) : roundWord a d ≤ roundWord b d := by
  have hquotient : a / d ≤ b / d := Nat.div_le_div_right h
  have hlog : Nat.log2 (a / d) ≤ Nat.log2 (b / d) := by
    by_cases hzero : a / d = 0
    · rw [hzero, Nat.log2_zero]
      exact Nat.zero_le _
    · have hpos : b / d ≠ 0 := by
        intro hnone
        rw [hnone, Nat.le_zero] at hquotient
        exact hzero hquotient
      exact (Nat.le_log2 hpos).2 (Nat.le_trans (Nat.log2_self_le hzero) hquotient)
  unfold roundWord
  dsimp only
  refine Nat.le_min.2 ⟨Nat.le_trans (Nat.min_le_left _ _) ?_, Nat.min_le_right _ _⟩
  generalize hp : Nat.log2 (a / d) - 52 = p
  generalize hq : Nat.log2 (b / d) - 52 = q
  rcases Nat.lt_or_ge p q with hless | hsame
  · -- the exponents differ, and a power of two lies between
    have hlow : a ≤ d * 2 ^ (p + 53) := by
      rw [Nat.mul_comm]
      refine Nat.le_of_lt ((Nat.div_lt_iff_lt_mul hd).1 ?_)
      exact Nat.lt_of_lt_of_le Nat.lt_log2_self (Nat.pow_le_pow_right (by decide) (by omega))
    have hhigh : d * 2 ^ (q + 52) ≤ b := by
      have hpos : b / d ≠ 0 := by
        intro hzero
        rw [hzero, Nat.log2_zero] at hq
        omega
      have hlead : 2 ^ (q + 52) ≤ b / d := by
        have hexact : q + 52 = Nat.log2 (b / d) := by omega
        rw [hexact]
        exact Nat.log2_self_le hpos
      rw [Nat.mul_comm]
      exact (Nat.le_div_iff_mul_le hd).1 hlead
    have hbits := roundHalfEven_le_two_pow p 53 hd hlow
    have hbits' := two_pow_le_roundHalfEven hd hhigh
    omega
  · have hexponent : p = q := by omega
    rw [hexponent]
    exact Nat.add_le_add_left (roundHalfEven_mono (Nat.mul_pos hd (Nat.two_pow_pos _)) h) _

/-- **A larger word encodes no smaller magnitude.** -/
theorem magnitude_mono {w v : Nat} (h : w ≤ v) : magnitude w ≤ magnitude v := by
  have hfraction := Nat.mod_lt w (Nat.two_pow_pos 52)
  unfold magnitude
  split
  · split
    · exact h
    · exact Nat.le_trans (by omega) (Nat.le_mul_of_pos_right _ (Nat.two_pow_pos _))
  · rw [if_neg (by omega)]
    rcases Nat.lt_or_ge (w / 2 ^ 52) (v / 2 ^ 52) with hless | hsame
    · have hexponent : 2 ^ (w / 2 ^ 52 - 1 + 1) ≤ 2 ^ (v / 2 ^ 52 - 1) :=
        Nat.pow_le_pow_right (by decide) (by omega)
      calc (2 ^ 52 + w % 2 ^ 52) * 2 ^ (w / 2 ^ 52 - 1)
          ≤ (2 * 2 ^ 52) * 2 ^ (w / 2 ^ 52 - 1) := Nat.mul_le_mul_right _ (by omega)
        _ = 2 ^ 52 * 2 ^ (w / 2 ^ 52 - 1 + 1) := by
          rw [Nat.pow_succ _ (_ - 1), Nat.mul_comm 2, Nat.mul_assoc, Nat.mul_comm 2]
        _ ≤ 2 ^ 52 * 2 ^ (v / 2 ^ 52 - 1) := Nat.mul_le_mul_left _ hexponent
        _ ≤ (2 ^ 52 + v % 2 ^ 52) * 2 ^ (v / 2 ^ 52 - 1) := Nat.mul_le_mul_right _ (Nat.le_add_right _ _)
    · have hexponent : w / 2 ^ 52 = v / 2 ^ 52 := by omega
      rw [hexponent]
      exact Nat.mul_le_mul_right _ (by omega)

theorem roundWord_le_infWord (a d : Nat) : roundWord a d ≤ infWord := Nat.min_le_right _ _

theorem roundWord_zero (d : Nat) : roundWord 0 d = 0 := by
  unfold roundWord roundHalfEven
  simp

/-! ## Division -/

/-- The word of the quotient of a word, the infinite one included, by a positive finite double. -/
def quotientWord (c : F64) (w : Nat) : Nat :=
  if w < infWord then roundWord (magnitude w * 2 ^ 1074) (magnitude c.word) else infWord

theorem quotientWord_mono {c : F64} (hc : 0 < magnitude c.word) {w v : Nat} (h : w ≤ v) :
    quotientWord c w ≤ quotientWord c v := by
  unfold quotientWord
  split
  · split
    · exact roundWord_mono hc (Nat.mul_le_mul_right _ (magnitude_mono h))
    · exact roundWord_le_infWord _ _
  · rw [if_neg (by omega)]

theorem quotientWord_zero (c : F64) : quotientWord c 0 = 0 := by
  have hmagnitude : magnitude 0 = 0 := rfl
  unfold quotientWord
  rw [if_pos (by decide), hmagnitude, Nat.zero_mul, roundWord_zero]

theorem quotientWord_le (c : F64) (w : Nat) : quotientWord c w ≤ infWord := by
  unfold quotientWord
  split
  · exact roundWord_le_infWord _ _
  · exact Nat.le_refl _

theorem div_eq_quotientWord {x c : F64} (hx : x.isNaN = false) (hc : c.isFinite = true) (hsign : c.neg = false)
    (hzero : c.word ≠ 0) : x / c = ofWord x.neg (quotientWord c x.word) := by
  have hdiv : x / c = F64.div x c := rfl
  rw [hdiv, F64.div, hx, isNaN_of_isFinite hc, hsign, Bool.bne_false, if_neg (by simp)]
  by_cases hfinite : x.isFinite = true
  · have hword : x.word < infWord := of_decide_eq_true hfinite
    rw [hfinite, hc, if_neg (by simp), if_neg (by simp), if_neg hzero, quotientWord, if_pos hword]
  · have hword : ¬ x.word < infWord := fun h => hfinite (decide_eq_true h)
    rw [Bool.not_eq_true] at hfinite
    rw [hfinite, hc, quotientWord, if_neg hword]
    rfl

theorem isNaN_div {x c : F64} (hx : x.isNaN = true) : (x / c).isNaN = true := by
  have hdiv : x / c = F64.div x c := rfl
  rw [hdiv, F64.div, hx, Bool.true_or, if_pos rfl]
  decide

/-- **A larger dividend has no smaller quotient** by a positive finite divisor. -/
theorem div_le_div {x y c : F64} (h : x ≤ y) (hc : c.isFinite = true) (hsign : c.neg = false)
    (hzero : 0 < magnitude c.word) : x / c ≤ y / c := by
  have hword : c.word ≠ 0 := by
    intro hnone
    rw [hnone] at hzero
    exact absurd hzero (by decide)
  rw [le_iff] at h
  obtain ⟨hx, hy, hposition⟩ := h
  have hmono : ∀ {w v : Nat}, w ≤ v → quotientWord c w ≤ quotientWord c v := quotientWord_mono hzero
  have hbound : ∀ w, quotientWord c w % 2 ^ 63 = quotientWord c w := fun w =>
    Nat.mod_eq_of_lt (Nat.lt_of_le_of_lt (quotientWord_le c w) (by decide))
  have hnan : ∀ neg w, (ofWord neg (quotientWord c w)).isNaN = false := by
    intro neg w
    refine decide_eq_false (Nat.not_lt.2 ?_)
    show quotientWord c w % 2 ^ 63 ≤ infWord
    rw [hbound]
    exact quotientWord_le c w
  have hnone := quotientWord_zero c
  rw [div_eq_quotientWord hx hc hsign hword, div_eq_quotientWord hy hc hsign hword, le_iff]
  refine ⟨hnan _ _, hnan _ _, ?_⟩
  unfold position at hposition ⊢
  show (if x.neg then -((quotientWord c x.word % 2 ^ 63 : Nat) : Int) else (quotientWord c x.word % 2 ^ 63 : Nat)) ≤
    if y.neg then -((quotientWord c y.word % 2 ^ 63 : Nat) : Int) else (quotientWord c y.word % 2 ^ 63 : Nat)
  rw [hbound, hbound]
  cases hxneg : x.neg with
  | true =>
    cases hyneg : y.neg with
    | true =>
      rw [hxneg, hyneg] at hposition
      have hle : y.word ≤ x.word := by simpa using hposition
      have hless := hmono hle
      simpa using hless
    | false =>
      simp only [if_true, Bool.false_eq_true, if_false]
      omega
  | false =>
    cases hyneg : y.neg with
    | true =>
      rw [hxneg, hyneg] at hposition
      simp only [if_true, Bool.false_eq_true, if_false] at hposition ⊢
      have hxword : x.word = 0 := by omega
      have hyword : y.word = 0 := by omega
      rw [hxword, hyword, hnone]
      exact Int.le_refl _
    | false =>
      rw [hxneg, hyneg] at hposition
      have hle : x.word ≤ y.word := by simpa using hposition
      have hless := hmono hle
      simpa using hless

theorem le_trans {x y z : F64} (h : x ≤ y) (h' : y ≤ z) : x ≤ z := by
  rw [le_iff] at h h' ⊢
  exact ⟨h.1, h'.2.1, Int.le_trans h.2.2 h'.2.2⟩

theorem le_of_not_lt {x y : F64} (hx : x.isNaN = false) (hy : y.isNaN = false) (h : ¬ x < y) : y ≤ x := by
  rw [lt_iff, hx, hy] at h
  rw [le_iff, hx, hy]
  exact ⟨rfl, rfl, Int.not_lt.1 fun hlt => h ⟨rfl, rfl, hlt⟩⟩

/-- What lies between two finite doubles is finite. -/
theorem isFinite_of_le {x y z : F64} (hx : x.isFinite = true) (hz : z.isFinite = true) (h : x ≤ y) (h' : y ≤ z) :
    y.isFinite = true := by
  rw [le_iff] at h h'
  have hxword : x.word < infWord := of_decide_eq_true hx
  have hzword : z.word < infWord := of_decide_eq_true hz
  have hlow := h.2.2
  have hhigh := h'.2.2
  unfold position at hlow hhigh
  refine decide_eq_true ?_
  cases hyneg : y.neg with
  | true =>
    rw [hyneg, if_pos rfl] at hlow
    split at hlow <;> omega
  | false =>
    rw [hyneg, if_neg Bool.false_ne_true] at hhigh
    split at hhigh <;> omega

/-! ## Integers, differences and clamped values -/

theorem ofNat_eq (n : Nat) : (Flt.ofNat n : F64) = ofWord false (roundWord (n * 2 ^ 1074) 1) := by
  show ofRat (n : ℚ) = _
  unfold ofRat
  rw [Rat.num_natCast, Rat.den_natCast, Int.natAbs_natCast, decide_eq_false (not_lt.2 (Nat.cast_nonneg n))]

theorem ofNat_word (n : Nat) : (Flt.ofNat n : F64).word = roundWord (n * 2 ^ 1074) 1 := by
  rw [ofNat_eq]
  exact Nat.mod_eq_of_lt (Nat.lt_of_le_of_lt (roundWord_le_infWord _ _) (by decide))

theorem ofNat_neg (n : Nat) : (Flt.ofNat n : F64).neg = false := by
  rw [ofNat_eq]
  rfl

theorem ofNat_word_mono {m n : Nat} (h : m ≤ n) : (Flt.ofNat m : F64).word ≤ (Flt.ofNat n : F64).word := by
  rw [ofNat_word, ofNat_word]
  exact roundWord_mono Nat.one_pos (Nat.mul_le_mul_right _ h)

/-- An unsigned integer of 64 bits converts to a finite double. -/
theorem ofNat_isFinite {n : Nat} (h : n ≤ 2 ^ 64) : (Flt.ofNat n : F64).isFinite = true := by
  refine decide_eq_true ?_
  rw [ofNat_word]
  have hscale : ∀ e : Nat, n * 2 ^ e ≤ 1 * 2 ^ (64 + e) := by
    intro e
    rw [Nat.one_mul, Nat.pow_add]
    exact Nat.mul_le_mul_right _ h
  have hround : roundWord (n * 2 ^ 1074) 1 ≤ (64 + 1074 - 51) * 2 ^ 52 :=
    roundWord_le Nat.one_pos (by decide) (hscale 1074)
  exact Nat.lt_of_le_of_lt hround (by decide)

theorem ofNat_word_pos {n : Nat} (h : 0 < n) : 0 < (Flt.ofNat n : F64).word := by
  have hone : 0 < (Flt.ofNat 1 : F64).word := by decide +kernel
  exact Nat.lt_of_lt_of_le hone (ofNat_word_mono h)

theorem position_of_nonneg {x : F64} (h : x.neg = false) : x.position = x.word := by
  unfold position
  rw [h]
  rfl

theorem position_ofWord_true {w : Nat} (h : w ≤ infWord) : (ofWord true w).position = -(w : Int) := by
  unfold position ofWord
  rw [if_pos rfl]
  dsimp only
  rw [Nat.mod_eq_of_lt (Nat.lt_of_le_of_lt h (by decide))]

theorem isNaN_ofWord {neg : Bool} {w : Nat} (h : w ≤ infWord) : (ofWord neg w).isNaN = false :=
  decide_eq_false (Nat.not_lt.2 (Nat.le_trans (Nat.mod_le _ _) h))

theorem sub_def (a b : F64) : a - b = F64.add a b.negate := rfl

theorem isFinite_negate (x : F64) : x.negate.isFinite = x.isFinite := rfl

/-- A finite sum is the exact one, rounded. -/
theorem add_eq {a b : F64} {s : Int} (ha : a.isFinite = true) (hb : b.isFinite = true)
    (hs : a.scaled + b.scaled = s) :
    F64.add a b = ofWord (if s = 0 then a.neg && b.neg else decide (s < 0)) (roundWord s.natAbs 1) := by
  rw [F64.add, isNaN_of_isFinite ha, isNaN_of_isFinite hb, ha, hb, hs]
  simp only [Bool.or_self, Bool.not_true, Bool.false_eq_true, if_false]

/-- **A number less a larger one is not positive.** -/
theorem sub_nonpos {a b : F64} (ha : a.isFinite = true) (hb : b.isFinite = true) (hna : a.neg = false)
    (hnb : b.neg = false) (h : a.word ≤ b.word) : (a - b).isNaN = false ∧ (a - b).position ≤ 0 := by
  have hdiff : a.scaled + b.negate.scaled = (magnitude a.word : Int) - magnitude b.word := by
    unfold scaled negate
    rw [hna, hnb]
    rfl
  have hmag : magnitude a.word ≤ magnitude b.word := magnitude_mono h
  rw [sub_def, add_eq ha ((isFinite_negate b).trans hb) hdiff, hna, Bool.false_and]
  refine ⟨isNaN_ofWord (roundWord_le_infWord _ _), ?_⟩
  by_cases hzero : (magnitude a.word : Int) - magnitude b.word = 0
  · rw [if_pos hzero, hzero, Int.natAbs_zero, roundWord_zero]
    decide
  · rw [if_neg hzero, decide_eq_true (by omega), position_ofWord_true (roundWord_le_infWord _ _)]
    omega

theorem word_of_position {x : F64} (h : 0 ≤ x.position) : x.position = x.word := by
  unfold position at h ⊢
  split at h
  · rename_i hneg
    rw [if_pos hneg]
    omega
  · rename_i hneg
    rw [if_neg hneg]

/-- Only the zeros have a sign that their position does not show. -/
theorem eq_of_position {x y : F64} (h : 0 ≤ x.position) (hsame : x.position = y.position) (hword : x.word ≠ 0) :
    x = y := by
  have hother := word_of_position (hsame ▸ h)
  have hself := word_of_position h
  have hnonneg : ∀ {z : F64}, 0 ≤ z.position → z.word ≠ 0 → z.totalPosition = z.word := by
    intro z hz hnot
    unfold position at hz
    unfold totalPosition
    split at hz
    · omega
    · rename_i hneg
      rw [if_neg hneg]
  apply totalPosition_injective
  rw [hnonneg h hword, hnonneg (hsame ▸ h) (by omega)]
  omega

/-- **A number less a zero of either sign** is the number, rounded. -/
theorem sub_zero_position {x z : F64} (hx : x.isFinite = true) (hpos : 0 ≤ x.position) (hz : z.word = 0) :
    (x - z).isNaN = false ∧ (x - z).position = roundWord (magnitude x.word) 1 := by
  have hfinite : z.negate.isFinite = true := decide_eq_true (Nat.lt_of_le_of_lt (Nat.le_of_eq hz) (by decide))
  have hnone : z.negate.scaled = 0 := by
    have hword : z.negate.word = 0 := hz
    unfold scaled
    rw [hword]
    split <;> rfl
  have hscaled : x.scaled = magnitude x.word := by
    unfold scaled
    split
    · rename_i hneg
      have hword : x.word = 0 := by
        unfold position at hpos
        rw [if_pos hneg] at hpos
        omega
      rw [hword]
      rfl
    · rfl
  have hsum : x.scaled + z.negate.scaled = magnitude x.word := by rw [hscaled, hnone, Int.add_zero]
  rw [sub_def, add_eq hx hfinite hsum, Int.natAbs_natCast]
  refine ⟨isNaN_ofWord (roundWord_le_infWord _ _), ?_⟩
  by_cases hzero : magnitude x.word = 0
  · rw [if_pos (Int.natCast_eq_zero.2 hzero), hzero, roundWord_zero]
    cases x.neg && z.negate.neg <;> rfl
  · have hcast : (magnitude x.word : Int) ≠ 0 := Int.natCast_ne_zero.2 hzero
    rw [if_neg hcast, decide_eq_false (Int.not_lt.2 (Int.natCast_nonneg _)), position_of_nonneg rfl]
    have hbound : roundWord (magnitude x.word) 1 < 2 ^ 63 :=
      Nat.lt_of_le_of_lt (roundWord_le_infWord _ _) (by decide)
    exact congrArg _ (Nat.mod_eq_of_lt hbound)

theorem zero_word : (Flt.zero : F64) = ⟨false, 0, by decide⟩ := by decide +kernel

theorem zero_position : (Flt.zero : F64).position = 0 := by
  rw [zero_word]
  rfl

/-- What is not positive stays so when a positive finite double divides it. -/
theorem div_nonpos {x c : F64} (hx : x.isNaN = false ∧ x.position ≤ 0) (hc : c.isFinite = true) (hsign : c.neg = false)
    (hword : 0 < c.word) : (x / c).isNaN = false ∧ (x / c).position ≤ 0 := by
  have hmag : 0 < magnitude c.word := Nat.lt_of_lt_of_le (by decide : 0 < magnitude 1) (magnitude_mono hword)
  have hle : x ≤ (Flt.zero : F64) := by
    rw [le_iff, zero_word]
    exact ⟨hx.1, by decide, hx.2⟩
  have hquot := (le_iff _ _).1 (div_le_div hle hc hsign hmag)
  have hzero : ((Flt.zero : F64) / c).position = 0 := by
    rw [zero_word, div_eq_quotientWord (by decide) hc hsign (Nat.ne_of_gt hword), quotientWord_zero]
    decide
  rw [hzero] at hquot
  exact ⟨hquot.1, hquot.2.2⟩

/-- The smaller of two is not positive when the second is not. -/
theorem min_nonpos {x y : F64} (hy : y.isNaN = false ∧ y.position ≤ 0) :
    (Flt.min x y).isNaN = false ∧ (Flt.min x y).position ≤ 0 := by
  show (F64.min x y).isNaN = false ∧ (F64.min x y).position ≤ 0
  unfold min
  cases hx : x.isNaN with
  | true => exact hy
  | false =>
    rw [if_neg Bool.false_ne_true, hy.1, if_neg Bool.false_ne_true]
    split
    · exact hy
    · rename_i hle
      exact ⟨hx, Int.le_trans (position_le_of_totalPosition_le (Int.not_lt.1 hle)) hy.2⟩

theorem toUInt_le (most : Nat) (x : F64) : toUInt most x ≤ most := by
  unfold toUInt
  split
  · exact Nat.zero_le _
  · split
    · exact Nat.le_refl _
    · exact Nat.min_le_left _ _

/-- A value clamped from zero is positive only if it was. -/
theorem not_pos_clamp {x hi : F64} (hx : x.isNaN = false ∧ x.position ≤ 0) (hhi : 0 ≤ hi.position) :
    ¬ (Flt.zero : F64) < Flt.clamp x Flt.zero hi := by
  have hlow : (if x < (Flt.zero : F64) then (Flt.zero : F64) else x).position ≤ 0 := by
    split
    · exact Int.le_of_eq zero_position
    · exact hx.2
  intro hpos
  unfold Flt.clamp at hpos
  dsimp only at hpos
  generalize (if x < (Flt.zero : F64) then (Flt.zero : F64) else x) = y at hpos hlow
  rw [lt_iff, zero_position] at hpos
  by_cases hover : hi < y
  · rw [lt_iff] at hover
    omega
  · rw [if_neg hover] at hpos
    omega

theorem one_word : (Flt.ofNat 1 : F64) = ⟨false, 1023 * 2 ^ 52, by decide⟩ := by decide +kernel

theorem one_position : (Flt.ofNat 1 : F64).position = (1023 * 2 ^ 52 : Nat) := by
  rw [one_word]
  rfl

/-- A positive value clamped to one has at most its word. -/
theorem clamp_word_le {x : F64} (h : (Flt.zero : F64) < Flt.clamp x Flt.zero (Flt.ofNat 1)) :
    (Flt.clamp x Flt.zero (Flt.ofNat 1)).word ≤ 1023 * 2 ^ 52 := by
  unfold Flt.clamp at h ⊢
  dsimp only at h ⊢
  generalize (if x < (Flt.zero : F64) then (Flt.zero : F64) else x) = y at h ⊢
  by_cases hover : (Flt.ofNat 1 : F64) < y
  · rw [if_pos hover, one_word]
  · rw [if_neg hover] at h ⊢
    rw [lt_iff] at h
    have hle : y.position ≤ (Flt.ofNat 1 : F64).position := by
      by_contra hgt
      exact hover ((lt_iff _ _).2 ⟨isNaN_of_isFinite (ofNat_isFinite (by decide)), h.2.1, by omega⟩)
    have hpos := h.2.2
    rw [zero_position] at hpos
    rw [one_position] at hle
    unfold position at hle hpos
    cases hneg : y.neg with
    | true =>
      rw [hneg, if_pos rfl] at hpos
      omega
    | false =>
      rw [hneg, if_neg Bool.false_ne_true] at hle
      omega

theorem zero_div {c : F64} (hc : c.isNaN = false) (hsign : c.neg = false) (hword : c.word ≠ 0) :
    (Flt.zero : F64) / c = Flt.zero := by
  rw [zero_word]
  by_cases hfinite : c.isFinite = true
  · rw [div_eq_quotientWord (by decide) hfinite hsign hword, quotientWord_zero]
    rfl
  · rw [Bool.not_eq_true] at hfinite
    have hdiv : (⟨false, 0, by decide⟩ : F64) / c = F64.div ⟨false, 0, by decide⟩ c := rfl
    have hnan : (⟨false, 0, by decide⟩ : F64).isNaN = false := by decide
    have hzero : (⟨false, 0, by decide⟩ : F64).isFinite = true := by decide
    rw [hdiv, F64.div, hnan, hzero, hc, hfinite, hsign]
    rfl

/-- A double of at most one less zero is finite. -/
theorem isFinite_sub_zero {x : F64} (h : x.word ≤ 1023 * 2 ^ 52) : (x - Flt.zero).isFinite = true := by
  have hx : x.isFinite = true := decide_eq_true (Nat.lt_of_le_of_lt h (by decide))
  have hscaled : x.scaled + (Flt.zero : F64).negate.scaled = x.scaled := by
    rw [zero_word]
    exact Int.add_zero _
  have hmag : magnitude (1023 * 2 ^ 52) ≤ 1 * 2 ^ 1074 := by decide +kernel
  have hround : roundWord x.scaled.natAbs 1 ≤ (1074 - 51) * 2 ^ 52 := by
    refine roundWord_le Nat.one_pos (by decide) (Nat.le_trans ?_ hmag)
    have habs : x.scaled.natAbs = magnitude x.word := by
      unfold scaled
      split
      · rw [Int.natAbs_neg, Int.natAbs_natCast]
      · rw [Int.natAbs_natCast]
    rw [habs]
    exact magnitude_mono h
  rw [sub_def, add_eq hx (by rw [zero_word]; decide) hscaled]
  exact decide_eq_true (Nat.lt_of_le_of_lt (Nat.mod_le _ _) (Nat.lt_of_le_of_lt hround (by decide)))

end F64
end FloatArith
