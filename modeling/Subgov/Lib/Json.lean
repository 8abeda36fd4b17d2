import Subgov.Lib.Float
/-!
# Json — parsed JSON values

A value as a parser hands it on: a number remembers whether it was written as a 64-bit integer, and an object lists its
members in key order.  An accessor is `none` on a value of another kind.
-/
namespace Json

open FloatArith

inductive Number (F : Type)
  | posInt (n : UInt64)
  | negInt (n : Int64)
  | float (x : F)

inductive Value (F : Type)
  | null
  | bool (b : Bool)
  | number (n : Number F)
  | string (s : String)
  | array (items : List (Value F))
  | object (members : List (String × Value F))

variable {F : Type}

namespace Number

def asF64 [Flt F] : Number F → F
  | posInt n => Flt.ofNat n.toNat
  | negInt n => Flt.ofInt n.toInt
  | float x => x

def asI64 : Number F → Option Int
  | posInt n => if n.toNat < 2 ^ 63 then some n.toNat else none
  | negInt n => some n.toInt
  | float _ => none

def asU64 : Number F → Option Nat
  | posInt n => some n.toNat
  | _ => none

end Number

namespace Value

def isNull : Value F → Bool
  | null => true
  | _ => false

def asBool : Value F → Option Bool
  | bool b => some b
  | _ => none

def asF64 [Flt F] : Value F → Option F
  | number n => some n.asF64
  | _ => none

def asI64 : Value F → Option Int
  | number n => n.asI64
  | _ => none

def asU64 : Value F → Option Nat
  | number n => n.asU64
  | _ => none

def asStr : Value F → Option String
  | string s => some s
  | _ => none

def asArray : Value F → Option (List (Value F))
  | array items => some items
  | _ => none

def asObject : Value F → Option (List (String × Value F))
  | object members => some members
  | _ => none

/-- The member of an object under a key. -/
def get (v : Value F) (key : String) : Option (Value F) := v.asObject.bind (List.lookup key)

end Value

/-! ## Members -/

/-- `insert` into the members of an object, in key order: a member already there is replaced. -/
def insertMember {V : Type} (key : String) (v : V) : List (String × V) → List (String × V)
  | [] => [(key, v)]
  | (k, w) :: rest =>
    if key = k then (key, v) :: rest
    else if key < k then (key, v) :: (k, w) :: rest
    else (k, w) :: insertMember key v rest

theorem lookup_insertMember_self {V : Type} (key : String) (v : V) (members : List (String × V)) :
    (insertMember key v members).lookup key = some v := by
  induction members with
  | nil => exact List.lookup_cons_self
  | cons member rest ih =>
    obtain ⟨k, w⟩ := member
    rw [insertMember]
    split
    · exact List.lookup_cons_self
    · rename_i hne
      split
      · exact List.lookup_cons_self
      · rw [List.lookup_cons, beq_false_of_ne hne]
        exact ih

theorem lookup_insertMember_of_ne {V : Type} {key other : String} (h : other ≠ key) (v : V)
    (members : List (String × V)) : (insertMember key v members).lookup other = members.lookup other := by
  have hother : (other == key) = false := beq_false_of_ne h
  induction members with
  | nil => rw [insertMember, List.lookup_cons, hother]
  | cons member rest ih =>
    obtain ⟨k, w⟩ := member
    rw [insertMember]
    split
    · rename_i heq
      rw [List.lookup_cons, List.lookup_cons, hother, ← heq, hother]
    · split
      · rw [List.lookup_cons, hother]
      · rw [List.lookup_cons, List.lookup_cons, ih]

end Json
