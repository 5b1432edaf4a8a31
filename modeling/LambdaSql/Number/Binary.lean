/-!
# Binary floating-point numbers as exact values

A finite floating-point number is `± mantissa · 2 ^ exponent`. This module reads that form off a
`Float`, and rounds an exact ratio to the nearest number of a binary format.

## Main definitions

* `Number.Dyadic`, `Number.Reading` - the exact value of a `Float`, or which special value it is.
* `Number.read` - the reading of a `Float`.
* `Number.BinaryFormat`, `Number.BinaryFormat.round` - nearest number of a format, ties to even.
* `Number.ofRatio`, `Number.ofDyadic`, `Number.ofInt` - the nearest `Float` of an exact value.
* `Number.remainder` - the exact remainder of a division whose quotient is cut toward zero.
-/

namespace LambdaSql.Number

/-- The exact value `± mantissa · 2 ^ exponent`. -/
structure Dyadic where
  negative : Bool
  mantissa : Nat
  exponent : Int
deriving DecidableEq, Repr

/-- What a floating-point number stands for. -/
inductive Reading where
  | notANumber
  | infinite (negative : Bool)
  | finite (value : Dyadic)
deriving DecidableEq, Repr

/-- The sign bit of a double-precision number. -/
def signBit : Nat := 0x8000000000000000

/-- The hidden bit of a double-precision number, just above its 52 fraction bits. -/
def hiddenBit : Nat := 0x10000000000000

/-- The exact reading of a double-precision number from its 64 bits: one sign bit, eleven exponent
bits, 52 fraction bits with a hidden leading one unless the exponent field is zero. -/
def read (x : Float) : Reading :=
  let bits : Nat := x.toBits.toNat
  let negative : Bool := bits / signBit = 1
  let field : Nat := bits / hiddenBit % 2048
  let fraction : Nat := bits % hiddenBit
  if field = 2047 then
    if fraction = 0 then .infinite negative else .notANumber
  else if field = 0 then .finite ⟨negative, fraction, -1074⟩
  else .finite ⟨negative, hiddenBit + fraction, (field : Int) - 1075⟩

/-- A binary format: the number of significant bits, and the exponents of the last bit of its
smallest and of its largest numbers. -/
structure BinaryFormat where
  precision : Nat
  minExponent : Int
  maxExponent : Int

/-- Double precision. -/
def double : BinaryFormat := ⟨53, -1074, 971⟩

/-- Single precision. -/
def single : BinaryFormat := ⟨24, -149, 104⟩

/-- `num / den` scaled by `2 ^ (-e)`, as a ratio of natural numbers. -/
def scaled (num den : Nat) (e : Int) : Nat × Nat :=
  if e < 0 then (num * Nat.pow 2 e.natAbs, den) else (num, den * Nat.pow 2 e.toNat)

/-- The quotient of two natural numbers rounded to the nearest integer, a tie going to the even
neighbour. -/
def roundHalfEven (num den : Nat) : Nat :=
  let q := num / den
  let twice := 2 * (num % den)
  if twice < den then q
  else if den < twice then q + 1
  else if q % 2 = 0 then q else q + 1

/-- The number of a format nearest to `num / den` as mantissa and exponent, a tie going to the even
mantissa; `none` beyond the largest number. -/
def BinaryFormat.round (f : BinaryFormat) (num den : Nat) : Option (Nat × Int) :=
  if num = 0 then some (0, f.minExponent)
  else
    let guess : Int := (Nat.log2 num : Int) - Nat.log2 den - f.precision
    let (n, d) := scaled num den guess
    let e := max f.minExponent (if n < d * Nat.pow 2 f.precision then guess else guess + 1)
    let (n, d) := scaled num den e
    let m := roundHalfEven n d
    let (m, e) := if m = Nat.pow 2 f.precision then (m / 2, e + 1) else (m, e)
    if f.maxExponent < e then none else some (m, e)

/-- The `Float` with this sign whose magnitude is infinite. -/
def infinity (negative : Bool) : Float :=
  Float.ofBits (UInt64.ofNat ((if negative then signBit else 0) + 2047 * hiddenBit))

/-- The `Float` that is no number. -/
def notANumber : Float := Float.ofBits (UInt64.ofNat (2047 * hiddenBit + hiddenBit / 2))

/-- The `Float` nearest to `± num / den`; a magnitude too large for the format is infinite. -/
def ofRatio (negative : Bool) (num den : Nat) : Float :=
  let sign := if negative then signBit else 0
  match double.round num den with
  | none => infinity negative
  | some (m, e) =>
    if m < hiddenBit then Float.ofBits (UInt64.ofNat (sign + m))
    else Float.ofBits (UInt64.ofNat (sign + (e + 1075).toNat * hiddenBit + (m - hiddenBit)))

/-- The `Float` nearest to an exact value. -/
def ofDyadic (x : Dyadic) : Float :=
  if x.exponent < 0 then ofRatio x.negative x.mantissa (Nat.pow 2 x.exponent.natAbs)
  else ofRatio x.negative (x.mantissa * Nat.pow 2 x.exponent.toNat) 1

/-- The `Float` nearest to an integer. -/
def ofInt (n : Int) : Float := ofRatio (decide (n < 0)) n.natAbs 1

/-- The exact remainder `x - y · q` where `q` is `x / y` cut toward zero. It has the sign of `x`,
and it is `x` itself when `y` is infinite. -/
def remainder (x y : Float) : Float :=
  match read x, read y with
  | .finite a, .finite b =>
    if b.mantissa = 0 then notANumber
    else
      let e := min a.exponent b.exponent
      let m := a.mantissa * Nat.pow 2 (a.exponent - e).toNat
      let n := b.mantissa * Nat.pow 2 (b.exponent - e).toNat
      ofDyadic ⟨a.negative, m % n, e⟩
  | .finite _, .infinite _ => x
  | _, _ => notANumber

end LambdaSql.Number
