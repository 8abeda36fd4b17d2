import Mathlib.Data.Rat.Floor
import Mathlib.Algebra.Order.Ring.Unbundled.Rat
/-!
# Float — the operations of a floating-point format, as an interface

A program that computes with floats is modelled over a type `F` with these operations and no law: what is proved so
holds under every rounding.  A result that needs more of the order asks for `LawfulFlt`.  Exact rational arithmetic is
one instance; `Binary64` is the other.
-/
namespace FloatArith

/-- The operations of a float type.  `≤` and `<` are the format's own comparisons (false on a NaN), `beq` its `==`,
and `ofRat` the value nearest to a literal or to a converted integer. -/
class Flt (F : Type) extends Add F, Sub F, Mul F, Div F, LE F, LT F where
  ofRat : ℚ → F
  beq : F → F → Bool
  isFinite : F → Bool
  max : F → F → F
  min : F → F → F
  abs : F → F
  ceil : F → F
  floor : F → F
  round : F → F
  totalCmp : F → F → Ordering
  /-- The saturating cast to an unsigned integer of the given maximum. -/
  toUInt : Nat → F → Nat
  decLe : DecidableLE F
  decLt : DecidableLT F

instance instDecidableLE {F : Type} [Flt F] : DecidableLE F := Flt.decLe

instance instDecidableLT {F : Type} [Flt F] : DecidableLT F := Flt.decLt

/-- What the comparisons of a format satisfy whatever the operands, NaN included. -/
class LawfulFlt (F : Type) [Flt F] : Prop where
  le_max : ∀ a b c : F, a ≤ Flt.max b c ↔ a ≤ b ∨ a ≤ c
  beq_of_le_of_le : ∀ a b : F, a ≤ b → b ≤ a → Flt.beq a b = true

/-- The order of the finite values: each has a position on the number line that the comparisons read, and a rank that
tells any two apart and that `max` takes the larger of. -/
class OrderedFlt (F : Type) [Flt F] : Prop where
  position : ∃ pos : F → Int, ∀ a b : F, Flt.isFinite a = true → Flt.isFinite b = true →
    (a < b ↔ pos a < pos b) ∧ (Flt.beq a b = true ↔ pos a = pos b)
  rank : ∃ rank : F → Int, ∀ a b : F, Flt.isFinite a = true → Flt.isFinite b = true →
    (rank a = rank b → a = b) ∧ Flt.isFinite (Flt.max a b) = true ∧
      rank (Flt.max a b) = Max.max (rank a) (rank b)

namespace Flt

variable {F : Type} [Flt F]

def zero : F := ofRat 0

/-- Conversion of an unsigned integer. -/
def ofNat (n : Nat) : F := ofRat n

/-- Conversion of a signed integer. -/
def ofInt (n : Int) : F := ofRat n

/-- The partial comparison: `none` when an operand is a NaN. -/
def partialCmp (a b : F) : Option Ordering :=
  if a < b then some .lt else if b < a then some .gt else if beq a b then some .eq else none

def clamp (x lo hi : F) : F :=
  let x := if x < lo then lo else x
  if hi < x then hi else x

/-- `lo ≤ x ≤ hi`, the inclusive range test. -/
def within (lo hi x : F) : Bool := decide (lo ≤ x) && decide (x ≤ hi)

def sum (xs : List F) : F := xs.foldl (· + ·) zero

end Flt

/-- The rounding of a fraction is one. -/
class UnitFlt (F : Type) [Flt F] : Prop where
  ofRat_unit : ∀ q : ℚ, 0 ≤ q → q ≤ 1 →
    Flt.isFinite (Flt.ofRat q : F) = true ∧ Flt.within Flt.zero (Flt.ofNat 1) (Flt.ofRat q : F) = true

/-! ## Exact rationals -/

/-- Rounding to the nearest integer, halves away from zero. -/
def roundHalfAway (x : ℚ) : ℚ := if 0 ≤ x then ⌊x + 1 / 2⌋ else ⌈x - 1 / 2⌉

instance : Flt ℚ where
  ofRat := id
  beq a b := decide (a = b)
  isFinite _ := true
  max a b := if a ≤ b then b else a
  min a b := if a ≤ b then a else b
  abs a := if 0 ≤ a then a else -a
  ceil a := ⌈a⌉
  floor a := ⌊a⌋
  round := roundHalfAway
  totalCmp := compare
  toUInt m a := min m ⌊a⌋.toNat
  decLe := inferInstance
  decLt := inferInstance

instance : LawfulFlt ℚ where
  le_max a b c := by
    show a ≤ (if b ≤ c then c else b) ↔ _
    rw [← max_def, le_max_iff]
  beq_of_le_of_le a b h h' := decide_eq_true (le_antisymm h h')

end FloatArith
