import LambdaSql.Number.Binary

/-!
# Fixed decimal places

Writing a floating-point number with a given number of decimal places, rounded from its exact value
with ties going to the even digit.

## Main definitions

* `Number.padLeft` - a number padded with zeros to a width.
* `Number.significantPlaces` - how many places can have other digits than zero.
* `Number.fixed` - the text with a fixed number of places.
-/

namespace LambdaSql.Number

/-- The decimal digits of a natural number, padded with zeros on the left to at least `width`. -/
def padLeft (width n : Nat) : List Char :=
  let ds := Nat.toDigits 10 n
  List.replicate (width - ds.length) '0' ++ ds

/-- A natural number of units of `10 ^ (-places)`, written with a decimal point. -/
private def point (places n : Nat) : List Char :=
  let whole := Nat.toDigits 10 (n / Nat.pow 10 places)
  if places = 0 then whole else whole ++ '.' :: padLeft places (n % Nat.pow 10 places)

/-- The number of decimal places after which every floating-point number has only zeros. -/
def significantPlaces : Nat := 1074

/-- A floating-point number with `places` decimal places. The sign of a negative number stays when
all its digits round to zero. -/
def fixed (places : Nat) (x : Float) : String :=
  match read x with
  | .notANumber => "NaN"
  | .infinite negative => if negative then "-inf" else "inf"
  | .finite v =>
    let kept := min places significantPlaces
    let num := v.mantissa * Nat.pow 10 kept
    let units :=
      if v.exponent < 0 then roundHalfEven num (Nat.pow 2 v.exponent.natAbs)
      else num * Nat.pow 2 v.exponent.toNat
    (if v.negative then "-" else "") ++
      String.ofList (point kept units ++ List.replicate (places - kept) '0')

end LambdaSql.Number
