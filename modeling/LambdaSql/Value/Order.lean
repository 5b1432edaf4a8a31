import LambdaSql.Value.Basic

/-!
# Comparing values

## Main definitions

* `Value.compare?` - the order of two values that have one.
* `Value.equals` - equality as expressions see it: a number equals a number of another type with
  the same value.
-/

namespace LambdaSql.Value

/-- The order of two floating-point numbers; none when one of them is no number. -/
def compareFloats? (x y : Float) : Option Ordering :=
  if x < y then some .lt
  else if y < x then some .gt
  else if x == y then some .eq
  else none

/-- The order of two truth values, false first. -/
def compareBools : Bool → Bool → Ordering
  | false, true => .lt
  | true, false => .gt
  | _, _ => .eq

/-- The order of two values. Values of one type are in the order of the type, enum members of one
family in the order of their numbers, and other values in the order of the numbers they are. -/
def compare? : Value → Value → Option Ordering
  | int a, int b => some (Ord.compare a.toInt b.toInt)
  | string a, string b => some (Ord.compare a b)
  | bool a, bool b => some (compareBools a b)
  | date a, date b => some (a.compare b)
  | moment a, moment b => some (a.compare b)
  | time a, time b => some (a.compare b)
  | span a, span b => some (Ord.compare a.nanos b.nanos)
  | guid a, guid b => some (Ord.compare a.toNat b.toNat)
  | a, b =>
    match a, b with
    | enum a, enum b =>
      if a.family = b.family then some (Ord.compare a.number.toInt b.number.toInt) else none
    | _, _ => do
      let x ← a.toFloat?
      let y ← b.toFloat?
      compareFloats? x y

/-- Whether two values are equal: null equals only null, and values without an order are equal
when they are the same. -/
def equals (a b : Value) : Bool :=
  if a.isNull || b.isNull then a.isNull && b.isNull
  else
    match compare? a b with
    | some o => o == .eq
    | none => a == b

end LambdaSql.Value
