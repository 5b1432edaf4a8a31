import LambdaSql.Number.Decimal

/-!
# Shortest decimals

The fewest decimal digits that read back as a given floating-point number and, of those, the ones
nearest to it. Where two are equally near, a style of writing numbers says which one it takes.

Every real number strictly between the midpoints to the two neighbouring floats reads back as the
float itself, and the midpoints do too when its mantissa is even. On the grid of multiples of
`10 ^ k` only the two grid points around the float can be nearest to it, so it suffices to try
these two on finer and finer grids; seventeen digits always suffice for double precision.

## Main definitions

* `Number.Decimal` - `digits · 10 ^ exponent`.
* `Number.Tie` - which of two equally near decimals is taken.
* `Number.shortest` - the shortest decimal that reads back.
* `Number.FloatStyle`, `Number.FloatStyle.render` - how a float is written around these digits.
* `Number.plain`, `Number.document` - the two styles in use.
-/

namespace LambdaSql.Number

/-- The decimal `digits · 10 ^ exponent`. -/
structure Decimal where
  digits : Nat
  exponent : Int
deriving DecidableEq, Repr

/-- Which of two equally near decimals is taken: the one whose last digit is even, or the one
farther from zero. -/
inductive Tie where
  | even
  | away
deriving DecidableEq, Repr

/-- The grid point that is taken if the number lies halfway between `c` and `c + 1`. -/
def Tie.pick (tie : Tie) (c : Nat) : Nat :=
  match tie with
  | .even => if c % 2 = 0 then c else c + 1
  | .away => c + 1

/-- The power of ten at or below `num / den`. -/
private def magnitude (num den : Nat) : Int :=
  if den ≤ num then (digitCount (num / den) : Int) - 1
  else
    let l := digitCount (den / num)
    if den ≤ num * Nat.pow 10 (l - 1) then 1 - (l : Int) else -(l : Int)

/-- The grid point nearest to `mantissa · 2 ^ exponent` among the multiples of `10 ^ k` that read
back as it, if any does. All lengths are counted in quarters of the last bit: the float lies at
`4 · mantissa`, the upper midpoint two quarters above it, and the lower one two quarters below, or
one at the start of a binade. -/
private def onGrid (tie : Tie) (mantissa : Nat) (exponent : Int) (k : Int) : Option Nat :=
  let e := exponent - 2
  let p := (if k < 0 then 1 else Nat.pow 10 k.toNat) * (if e < 0 then Nat.pow 2 e.natAbs else 1)
  let q := (if k < 0 then Nat.pow 10 k.natAbs else 1) * (if e < 0 then 1 else Nat.pow 2 e.toNat)
  let here := 4 * mantissa * q
  let high := (4 * mantissa + 2) * q
  let low := (4 * mantissa - if mantissa = hiddenBit ∧ -1074 < exponent then 1 else 2) * q
  let closed := mantissa % 2 = 0
  let inside (x : Nat) : Bool := if closed then low ≤ x ∧ x ≤ high else low < x ∧ x < high
  let c := here / p
  match inside (c * p), inside ((c + 1) * p) with
  | true, true =>
    let down := here - c * p
    let up := (c + 1) * p - here
    some (if down < up then c else if up < down then c + 1 else tie.pick c)
  | true, false => some c
  | false, true => some (c + 1)
  | false, false => none

/-- The first hit on the grids of `n`, `n + 1`, ... digits, at most `fuel` of them. -/
private def scan (tie : Tie) (mantissa : Nat) (exponent top : Int) : Nat → Nat → Decimal
  | 0, n => ⟨0, top - n⟩
  | fuel + 1, n =>
    match onGrid tie mantissa exponent (top - n) with
    | some c => ⟨c, top - n⟩
    | none => scan tie mantissa exponent top fuel (n + 1)

/-- A decimal without trailing zeros, at most `fuel` of which are removed. -/
private def strip : Nat → Decimal → Decimal
  | 0, x => x
  | fuel + 1, x =>
    if x.digits ≠ 0 ∧ x.digits % 10 = 0 then strip fuel ⟨x.digits / 10, x.exponent + 1⟩ else x

/-- The shortest decimal that reads back as `mantissa · 2 ^ exponent`, for a positive mantissa. -/
def shortest (tie : Tie) (mantissa : Nat) (exponent : Int) : Decimal :=
  let num := if exponent < 0 then mantissa else mantissa * Nat.pow 2 exponent.toNat
  let den := if exponent < 0 then Nat.pow 2 exponent.natAbs else 1
  strip 20 (scan tie mantissa exponent (magnitude num den) 18 0)

/-- How a floating-point number is written around its shortest digits. -/
structure FloatStyle where
  /-- Which of two equally near decimals is written. -/
  tie : Tie
  /-- Whether digits whose decimal point stands after `p` of them are written without exponent. -/
  positional : Int → Bool
  /-- What follows the digits of a whole number. -/
  wholeSuffix : String

/-- Digits with the decimal point after `point` of them. -/
def FloatStyle.place (style : FloatStyle) (digits : List Char) (point : Int) : String :=
  let n : Int := digits.length
  if n ≤ point then
    String.ofList (digits ++ List.replicate (point - n).toNat '0') ++ style.wholeSuffix
  else if 0 < point then
    String.ofList (digits.take point.toNat ++ '.' :: digits.drop point.toNat)
  else
    String.ofList ('0' :: '.' :: (List.replicate point.natAbs '0' ++ digits))

/-- Digits in scientific form: a point after the first digit and a power of ten with its sign. -/
private def scientific (digits : List Char) (point : Int) : String :=
  let head := match digits with
    | [] => []
    | [d] => [d]
    | d :: ds => d :: '.' :: ds
  String.ofList head ++ (if point < 1 then "e" else "e+") ++ toString (point - 1)

/-- The text of a floating-point number in a style. -/
def FloatStyle.render (style : FloatStyle) (x : Float) : String :=
  match read x with
  | .notANumber => "NaN"
  | .infinite negative => if negative then "-inf" else "inf"
  | .finite v =>
    let sign := if v.negative then "-" else ""
    if v.mantissa = 0 then sign ++ style.place ['0'] 1
    else
      let d := shortest style.tie v.mantissa v.exponent
      let digits := Nat.toDigits 10 d.digits
      let point := d.exponent + digits.length
      sign ++ if style.positional point then style.place digits point else scientific digits point

/-- Never an exponent, and nothing after a whole number. -/
def plain : FloatStyle where
  tie := .away
  positional _ := true
  wholeSuffix := ""

/-- An exponent for a point more than sixteen digits to the right or four zeros to the left, and
`.0` after a whole number. -/
def document : FloatStyle where
  tie := .even
  positional p := -5 < p && p ≤ 16
  wholeSuffix := ".0"

/-- The plain text of a floating-point number. -/
def text (x : Float) : String := plain.render x

end LambdaSql.Number
