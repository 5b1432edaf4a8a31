import LambdaSql.Calendar.Format
import LambdaSql.Document.Basic
import LambdaSql.Document.Reader

/-!
# Words of TOML

What a word means as a value: a truth value, a number, a date or a time.

## Main definitions

* `Toml.readWhole?`, `Toml.readFloat?` - numbers.
* `Toml.readTemporal?` - dates and times, as their standard text.
* `Toml.readWord?` - any word.
-/

namespace LambdaSql.Toml

/-! ## Numbers -/

/-- The digits of a run in which single underscores may stand between digits. -/
def digitsOf? (isDigit : Char → Bool) : List Char → Option (List Char)
  | [] => none
  | [c] => if isDigit c then some [c] else none
  | c :: '_' :: rest => if isDigit c then (digitsOf? isDigit rest).map (c :: ·) else none
  | c :: rest => if isDigit c then (digitsOf? isDigit rest).map (c :: ·) else none

/-- The number of digits in a base. -/
def ofDigits (base : Nat) (cs : List Char) : Nat :=
  cs.foldl (fun n c => base * n + (Document.hex? c).getD 0) 0

/-- Whether a character is a digit in a base. -/
def isDigitIn (base : Nat) (c : Char) : Bool := (Document.hex? c).any (· < base)

/-- A whole number without sign in a base. -/
def natural? (base : Nat) (cs : List Char) : Option Nat :=
  (digitsOf? (isDigitIn base) cs).map (ofDigits base)

/-- A decimal digit run without a leading zero. -/
def decimalDigits? (cs : List Char) : Option (List Char) :=
  (digitsOf? Number.isDigit cs).filter fun ds => ds.length = 1 || ds.head? != some '0'

/-- A whole number within 64 bits. -/
def readWhole? (cs : List Char) : Option Document :=
  let inRange (n : Int) : Option Document :=
    if -0x8000000000000000 ≤ n ∧ n < 0x8000000000000000 then some (.int n) else none
  match cs with
  | '0' :: 'x' :: rest => (natural? 16 rest).bind (inRange ·)
  | '0' :: 'o' :: rest => (natural? 8 rest).bind (inRange ·)
  | '0' :: 'b' :: rest => (natural? 2 rest).bind (inRange ·)
  | _ =>
    let (negative, ds) := Number.splitSign cs
    (decimalDigits? ds).bind fun ds =>
      let n : Int := ofDigits 10 ds
      inRange (if negative then -n else n)

/-- The digits of an exponent, with its sign. -/
def exponentDigits? (cs : List Char) : Option (List Char) :=
  let (negative, ds) := Number.splitSign cs
  (digitsOf? Number.isDigit ds).map fun ds => if negative then '-' :: ds else ds

/-- The digits of a number before its exponent: a whole number, possibly with a fraction. -/
def mantissaDigits? (cs : List Char) : Option (List Char) :=
  let whole := cs.takeWhile (· != '.')
  match cs.dropWhile (· != '.') with
  | [] => decimalDigits? whole
  | _ :: fraction => do
    let ds ← decimalDigits? whole
    return ds ++ '.' :: (← digitsOf? Number.isDigit fraction)

/-- A floating-point number, which has a fraction or an exponent; one too large is an error. -/
def readFloat? (cs : List Char) : Option Document :=
  let (negative, body) := Number.splitSign cs
  let mantissa := body.takeWhile (!Document.isExponentMark ·)
  let exponent := body.dropWhile (!Document.isExponentMark ·)
  if exponent.isEmpty && !mantissa.contains '.' then none
  else do
    let ds ← mantissaDigits? mantissa
    let ds ← match exponent with
      | [] => some ds
      | _ :: exponent => (exponentDigits? exponent).map fun e => ds ++ 'e' :: e
    let x ← Number.parse? (String.ofList (if negative then '-' :: ds else ds))
    if x.isInf && !negative then none else return .ofFloat x

/-! ## Dates and times -/

/-- A number of exactly some digits, with the text after it. -/
def fixedDigits? (count : Nat) (cs : List Char) : Option (Nat × List Char) :=
  let ds := cs.take count
  if ds.length = count && ds.all Number.isDigit then some (Number.ofDigits ds, cs.drop count)
  else none

/-- A text after a character. -/
def after? (c : Char) : List Char → Option (List Char)
  | [] => none
  | d :: rest => if c = d then some rest else none

/-- A date, with the text after it. -/
def readDate? (cs : List Char) : Option (List Char × List Char) := do
  let (year, cs) ← fixedDigits? 4 cs
  let cs ← after? '-' cs
  let (month, cs) ← fixedDigits? 2 cs
  let cs ← after? '-' cs
  let (day, cs) ← fixedDigits? 2 cs
  if 1 ≤ day ∧ day ≤ Calendar.daysInMonth year month then
    return (Number.padLeft 4 year ++ '-' :: Number.padLeft 2 month ++ '-' ::
      Number.padLeft 2 day, cs)
  else none

/-- The fraction of a second to the nanosecond, without zeros at its end. -/
def fractionText (ds : List Char) : List Char :=
  let kept := ((ds.take 9).reverse.dropWhile (· == '0')).reverse
  if kept.isEmpty then [] else '.' :: kept

/-- A time of day, with the text after it. -/
def readTime? (cs : List Char) : Option (List Char × List Char) := do
  let (hour, cs) ← fixedDigits? 2 cs
  let cs ← after? ':' cs
  let (minute, cs) ← fixedDigits? 2 cs
  let cs ← after? ':' cs
  let (second, cs) ← fixedDigits? 2 cs
  if 23 < hour ∨ 59 < minute ∨ 60 < second then none
  let text := Number.padLeft 2 hour ++ ':' :: Number.padLeft 2 minute ++ ':' ::
    Number.padLeft 2 second
  match cs with
  | '.' :: rest =>
    let ds := rest.takeWhile Number.isDigit
    if ds.isEmpty then none else return (text ++ fractionText ds, rest.dropWhile Number.isDigit)
  | _ => return (text, cs)

/-- The difference to universal time, as nothing else may follow. -/
def readOffset? : List Char → Option (List Char)
  | [] => some []
  | ['Z'] | ['z'] => some ['Z']
  | sign :: cs => do
    if sign ≠ '+' ∧ sign ≠ '-' then none
    let (hour, cs) ← fixedDigits? 2 cs
    let cs ← after? ':' cs
    let (minute, cs) ← fixedDigits? 2 cs
    if !cs.isEmpty ∨ 23 < hour ∨ 59 < minute then none
    let sign := if hour = 0 ∧ minute = 0 then '+' else sign
    return sign :: Number.padLeft 2 hour ++ ':' :: Number.padLeft 2 minute

/-- A time with a difference to universal time. -/
def readZoned? (cs : List Char) : Option (List Char) := do
  let (time, rest) ← readTime? cs
  return time ++ (← readOffset? rest)

/-- A date, a time or both. -/
def readTemporal? (cs : List Char) : Option Document :=
  match readDate? cs with
  | some (date, []) => some (.string (String.ofList date))
  | some (date, c :: rest) =>
    if c = 'T' ∨ c = 't' ∨ c = ' ' then
      (readZoned? rest).map fun time => .string (String.ofList (date ++ 'T' :: time))
    else none
  | none =>
    match readTime? cs with
    | some (time, []) => some (.string (String.ofList time))
    | _ => none

/-! ## Words -/

/-- The words that are values by themselves. Numbers that are not finite have no place in a
document. -/
def words : List (String × Document) :=
  [("true", .bool true), ("false", .bool false), ("inf", .null), ("+inf", .null),
    ("-inf", .null), ("nan", .null), ("+nan", .null), ("-nan", .null)]

/-- The value of a word. -/
def readWord? (cs : List Char) : Option Document :=
  (((words.lookup (String.ofList cs)).or (readWhole? cs)).or (readTemporal? cs)).or
    (readFloat? cs)

/-- Whether a word is just a date, which a time may follow after a space. -/
def isDate (cs : List Char) : Bool :=
  match readDate? cs with
  | some (_, []) => true
  | _ => false

end LambdaSql.Toml
