import LambdaSql.Number.Binary

/-!
# Decimal numerals

Reading the text of a decimal number as the nearest floating-point number.

A numeral is an optional sign, digits with at most one decimal point among or around them, and an
optional exponent; the words `inf`, `infinity` and `nan` are read in any case.

## Main definitions

* `Number.Numeral`, `Number.Numeral.ofChars?` - sign, coefficient and power of ten of a numeral.
* `Number.parse?` - the nearest double-precision number.
* `Number.parseSingle?` - the nearest single-precision number, widened.
* `Number.parseNat?` - a natural number below `2 ^ 64`, with an optional plus sign.
-/

namespace LambdaSql.Number

/-- The value of an ASCII digit. -/
def digit? (c : Char) : Option Nat :=
  if '0' ≤ c ∧ c ≤ '9' then some (c.toNat - '0'.toNat) else none

/-- Whether a character is an ASCII digit. -/
def isDigit (c : Char) : Bool := (digit? c).isSome

/-- The number that a list of digits spells; other characters are skipped. -/
def ofDigits (cs : List Char) : Nat :=
  cs.foldl (fun n c => match digit? c with
    | some d => 10 * n + d
    | none => n) 0

/-- A decimal numeral `± coefficient · 10 ^ exponent`. -/
structure Numeral where
  negative : Bool
  coefficient : Nat
  exponent : Int
deriving DecidableEq, Repr

/-- An optional sign and the text after it. -/
def splitSign : List Char → Bool × List Char
  | '-' :: cs => (true, cs)
  | '+' :: cs => (false, cs)
  | cs => (false, cs)

/-- The exponent part of a numeral: nothing, or `e` and a signed digit string. -/
private def readExponent? : List Char → Option Int
  | [] => some 0
  | c :: cs =>
    if c = 'e' ∨ c = 'E' then
      let (negative, ds) := splitSign cs
      if ds.isEmpty || !ds.all isDigit then none
      else some (if negative then -(ofDigits ds : Int) else ofDigits ds)
    else none

/-- The numeral that a text spells, sign apart. -/
private def unsigned? (cs : List Char) : Option (Nat × Int) :=
  let whole := cs.takeWhile isDigit
  let rest := cs.dropWhile isDigit
  let (fraction, rest) := match rest with
    | '.' :: r => (r.takeWhile isDigit, r.dropWhile isDigit)
    | r => ([], r)
  if whole.isEmpty && fraction.isEmpty then none
  else (readExponent? rest).map fun e => (ofDigits (whole ++ fraction), e - fraction.length)

/-- The numeral that a text spells. -/
def Numeral.ofChars? (cs : List Char) : Option Numeral :=
  let (negative, cs) := splitSign cs
  (unsigned? cs).map fun (c, e) => ⟨negative, c, e⟩

/-- How many decimal digits a natural number has; one for zero. -/
def digitCount (n : Nat) : Nat := (Nat.toDigits 10 n).length

/-- The magnitude of a numeral as a ratio, with numerals beyond every binary format's range cut
off: `none` above, zero below. -/
private def Numeral.ratio? (x : Numeral) : Option (Nat × Nat) :=
  let size := x.exponent + digitCount x.coefficient
  if x.coefficient = 0 || size < -400 then some (0, 1)
  else if 400 < size then none
  else if x.exponent < 0 then some (x.coefficient, Nat.pow 10 x.exponent.natAbs)
  else some (x.coefficient * Nat.pow 10 x.exponent.toNat, 1)

/-- The double-precision number nearest to a numeral. -/
def Numeral.toFloat (x : Numeral) : Float :=
  match x.ratio? with
  | none => infinity x.negative
  | some (num, den) => ofRatio x.negative num den

/-- The single-precision number nearest to a numeral, widened to double precision. -/
def Numeral.toSingle (x : Numeral) : Float :=
  match x.ratio?.bind fun (num, den) => single.round num den with
  | none => infinity x.negative
  | some (m, e) => ofDyadic ⟨x.negative, m, e⟩

/-- The special value that a word names. -/
private def special? (cs : List Char) : Option Float :=
  let (negative, cs) := splitSign cs
  let word := cs.map Char.toLower
  if word = "inf".toList ∨ word = "infinity".toList then some (infinity negative)
  else if word = "nan".toList then some notANumber
  else none

/-- The double-precision number nearest to what a text spells. -/
def parse? (s : String) : Option Float :=
  (special? s.toList).or ((Numeral.ofChars? s.toList).map Numeral.toFloat)

/-- The single-precision number nearest to what a text spells, widened. -/
def parseSingle? (s : String) : Option Float :=
  (special? s.toList).or ((Numeral.ofChars? s.toList).map Numeral.toSingle)

/-- A natural number below `2 ^ 64`: digits after an optional plus sign. -/
def parseNat? (cs : List Char) : Option Nat :=
  let ds := match cs with
    | '+' :: r => r
    | r => r
  if ds.isEmpty || !ds.all isDigit then none
  else
    let n := ofDigits ds
    if n < 0x10000000000000000 then some n else none

end LambdaSql.Number
