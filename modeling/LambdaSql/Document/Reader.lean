import LambdaSql.Number.Decimal
import LambdaSql.Document.Basic

/-!
# Reading documents

A text is first cut into tokens. The tokens then drive a machine whose stack holds the arrays and
objects that are open, so that reading is one pass over the tokens.

## Main definitions

* `Document.Token`, `Document.tokens?` - the tokens of a text.
* `Document.readNumber?` - how digits become a number.
* `Document.Progress`, `Document.Progress.step?` - the machine.
* `Document.parse?` - the document that a text spells.
-/

namespace LambdaSql.Document

/-- A token. -/
inductive Token where
  | openArray | closeArray | openObject | closeObject | comma | colon
  | value (d : Document)

/-! ## Numbers -/

/-- The largest whole number without sign that digits may spell. -/
def maxSignificand : Nat := 0xffffffffffffffff

/-- The largest power of ten that one step of scaling reaches. -/
def maxScale : Nat := 308

/-- The digits of a number that count: their value, and the power of ten of the last one. -/
structure Significand where
  value : Nat
  exponent : Int
deriving DecidableEq, Repr

/-- A significand with a further digit, unless it becomes too large. -/
def Significand.push? (s : Significand) (c : Char) : Option Nat :=
  match Number.digit? c with
  | some d => if 10 * s.value + d ≤ maxSignificand then some (10 * s.value + d) else none
  | none => none

/-- The digits before the decimal point. From the first digit that does not fit on, digits only
raise the exponent. -/
def Significand.whole (s : Significand) : List Char → Significand
  | [] => s
  | c :: cs =>
    match s.exponent, s.push? c with
    | 0, some v => Significand.whole ⟨v, 0⟩ cs
    | _, _ => Significand.whole ⟨s.value, s.exponent + 1⟩ cs

/-- The digits after the decimal point. The first digit that does not fit ends them. -/
def Significand.fraction (s : Significand) : List Char → Significand
  | [] => s
  | c :: cs =>
    match s.push? c with
    | some v => Significand.fraction ⟨v, s.exponent - 1⟩ cs
    | none => s

/-- `x · 10 ^ exponent` in floating-point steps of at most `10 ^ 308`; `none` when it is too
large. -/
def scale (exponent : Int) (x : Float) : Nat → Option Float
  | 0 => some x
  | steps + 1 =>
    if exponent.natAbs ≤ maxScale then
      let power := Number.ofRatio false (Nat.pow 10 exponent.natAbs) 1
      if 0 ≤ exponent then
        let y := x * power
        if y.isInf then none else some y
      else some (x / power)
    else if x == 0 then some x
    else if 0 ≤ exponent then none
    else scale (exponent + maxScale) (x / Number.ofRatio false (Nat.pow 10 maxScale) 1) steps

/-- The floating-point number of a sign and a significand. -/
def Significand.toFloat? (negative : Bool) (s : Significand) : Option Float :=
  (scale s.exponent (Number.ofRatio false s.value 1) 4).map fun x => if negative then -x else x

/-- The whole number of a sign and digits; a negative zero or a number out of range is a
floating-point number. -/
def wholeNumber (negative : Bool) (n : Nat) : Document :=
  if !negative then int n
  else if n = 0 ∨ 0x8000000000000000 < n then float (-(Number.ofRatio false n 1))
  else int (-(n : Int))

/-- The largest exponent that is counted. -/
def maxExponent : Nat := 0x7fffffff

/-- The number of a sign, a significand and what follows it: nothing, or an exponent. -/
def withExponent? (negative : Bool) (s : Significand) : List Char → Option Document
  | [] => (s.toFloat? negative).map float
  | _ :: rest =>
    let (down, digits) := Number.splitSign rest
    if digits.isEmpty || !digits.all Number.isDigit then none
    else
      let e := Number.ofDigits digits
      if maxExponent < e then
        if s.value ≠ 0 && !down then none
        else some (float (if negative then -0.0 else 0.0))
      else
        let exponent := s.exponent + if down then -(e : Int) else e
        (Significand.toFloat? negative ⟨s.value, exponent⟩).map float

/-- Whether a character begins an exponent. -/
def isExponentMark (c : Char) : Bool := c == 'e' || c == 'E'

/-- The number that a text spells: an optional minus sign, digits without a leading zero, and
optionally a decimal point with digits and an exponent. -/
def readNumber? (cs : List Char) : Option Document :=
  let (negative, cs) := match cs with
    | '-' :: r => (true, r)
    | r => (false, r)
  let digits := cs.takeWhile Number.isDigit
  let rest := cs.dropWhile Number.isDigit
  if digits.isEmpty || (digits.head? == some '0' && 1 < digits.length) then none
  else
    let s := Significand.whole ⟨0, 0⟩ digits
    match rest with
    | [] =>
      if s.exponent = 0 then some (wholeNumber negative s.value)
      else (s.toFloat? negative).map float
    | '.' :: r =>
      let fraction := r.takeWhile Number.isDigit
      let tail := r.dropWhile Number.isDigit
      if fraction.isEmpty || (tail != [] && !(tail.head?.any isExponentMark)) then none
      else withExponent? negative (s.fraction fraction) tail
    | c :: r => if isExponentMark c then withExponent? negative s (c :: r) else none

/-! ## Texts -/

/-- The value of a hexadecimal digit. -/
def hex? (c : Char) : Option Nat :=
  if '0' ≤ c ∧ c ≤ '9' then some (c.toNat - 48)
  else if 'a' ≤ c ∧ c ≤ 'f' then some (c.toNat - 87)
  else if 'A' ≤ c ∧ c ≤ 'F' then some (c.toNat - 55)
  else none

/-- The number of four hexadecimal digits. -/
def hexUnit? (a b c d : Char) : Option Nat := do
  let a ← hex? a
  let b ← hex? b
  let c ← hex? c
  let d ← hex? d
  return ((a * 16 + b) * 16 + c) * 16 + d

/-- The character of a one-letter escape. -/
def escaped? (c : Char) : Option Char :=
  match c with
  | '"' => some '"'
  | '\\' => some '\\'
  | '/' => some '/'
  | 'b' => some (Char.ofNat 8)
  | 'f' => some (Char.ofNat 12)
  | 'n' => some '\n'
  | 'r' => some '\r'
  | 't' => some '\t'
  | _ => none

/-- A character put in front of a text whose rest took `k` characters to read, itself taking `n`. -/
private def counted (n : Nat) (c : Char) (r : Option (List Char × Nat)) :
    Option (List Char × Nat) :=
  r.map fun (cs, k) => (c :: cs, k + n)

/-- The text up to the closing quotation mark, and the number of characters read. Characters
beyond the first 65536 are escaped as a high and a low surrogate, `high` being the one already
read; a surrogate alone is an error. -/
def readText? (high : Option Nat) : List Char → Option (List Char × Nat)
  | [] => none
  | '\\' :: 'u' :: a :: b :: c :: d :: rest =>
    match hexUnit? a b c d, high with
    | none, _ => none
    | some n, some h =>
      if 0xDC00 ≤ n ∧ n < 0xE000 then
        counted 12 (Char.ofNat (0x10000 + (h - 0xD800) * 0x400 + (n - 0xDC00)))
          (readText? none rest)
      else none
    | some n, none =>
      if 0xD800 ≤ n ∧ n < 0xDC00 then readText? (some n) rest
      else if 0xDC00 ≤ n ∧ n < 0xE000 then none
      else counted 6 (Char.ofNat n) (readText? none rest)
  | '\\' :: c :: rest =>
    match escaped? c, high with
    | some e, none => counted 2 e (readText? none rest)
    | _, _ => none
  | c :: rest =>
    if high.isSome then none
    else if c = '"' then some ([], 1)
    else if c.toNat < 32 ∨ c = '\\' then none
    else counted 1 c (readText? none rest)

/-! ## Tokens -/

/-- Whether a character can stand in a number. -/
def isNumberPart (c : Char) : Bool :=
  Number.isDigit c || c == '-' || c == '+' || c == '.' || isExponentMark c

/-- Whether a character is a blank between tokens. -/
def isSeparator (c : Char) : Bool := c == ' ' || c == '\n' || c == '\r' || c == '\t'

/-- The words that are values. -/
def words : List (List Char × Document) :=
  [("null".toList, null), ("true".toList, bool true), ("false".toList, bool false)]

/-- The token at the start of a text, and its length. -/
def firstToken? : List Char → Option (Token × Nat)
  | [] => none
  | c :: cs =>
    match c with
    | '[' => some (.openArray, 1)
    | ']' => some (.closeArray, 1)
    | '\x7b' => some (.openObject, 1)
    | '\x7d' => some (.closeObject, 1)
    | ',' => some (.comma, 1)
    | ':' => some (.colon, 1)
    | '"' => (readText? none cs).map fun (s, n) => (.value (string (String.ofList s)), n + 1)
    | _ =>
      match words.find? (·.1.isPrefixOf (c :: cs)) with
      | some (word, d) => some (.value d, word.length)
      | none =>
        let number := (c :: cs).takeWhile isNumberPart
        (readNumber? number).map fun d => (.value d, number.length)

/-- The tokens of a text after `skip` characters of a token already read. -/
private def tokensFrom? (skip : Nat) (done : List Token) : List Char → Option (List Token)
  | [] => some done.reverse
  | c :: cs =>
    if 0 < skip then tokensFrom? (skip - 1) done cs
    else if isSeparator c then tokensFrom? 0 done cs
    else
      match firstToken? (c :: cs) with
      | some (t, n) => tokensFrom? (n - 1) (t :: done) cs
      | none => none

/-- The tokens of a text. -/
def tokens? (cs : List Char) : Option (List Token) := tokensFrom? 0 [] cs

/-! ## The machine -/

/-- An array or an object that is still open, its last item or member first. -/
inductive Open where
  | array (items : List Document)
  | object (members : List (String × Document)) (name : String)

/-- How far reading has come. -/
inductive Progress where
  /-- A value must follow. -/
  | value (stack : List Open)
  /-- A value or the end of the array just opened must follow. -/
  | item (stack : List Open)
  /-- A member name must follow, or, if `first`, the end of the object. -/
  | name (first : Bool) (members : List (String × Document)) (stack : List Open)
  /-- A colon must follow. -/
  | colon (members : List (String × Document)) (name : String) (stack : List Open)
  /-- A value is complete. -/
  | done (d : Document) (stack : List Open)

/-- How many arrays and objects may be open at once. -/
def maxDepth : Nat := 127

/-- A value begins. -/
def begin? (stack : List Open) : Token → Option Progress
  | .value d => some (.done d stack)
  | .openArray => if stack.length < maxDepth then some (.item (.array [] :: stack)) else none
  | .openObject => if stack.length < maxDepth then some (.name true [] stack) else none
  | _ => none

/-- One step of reading. -/
def Progress.step? : Progress → Token → Option Progress
  | .value stack, t => begin? stack t
  | .item (.array [] :: stack), .closeArray => some (.done (.array []) stack)
  | .item stack, t => begin? stack t
  | .name true _ stack, .closeObject => some (.done (.object []) stack)
  | .name _ members stack, .value (.string s) => some (.colon members s stack)
  | .name .., _ => none
  | .colon members s stack, .colon => some (.value (.object members s :: stack))
  | .colon .., _ => none
  | .done d (.array items :: stack), .comma => some (.value (.array (d :: items) :: stack))
  | .done d (.array items :: stack), .closeArray =>
    some (.done (.array (d :: items).reverse) stack)
  | .done d (.object members s :: stack), .comma => some (.name false ((s, d) :: members) stack)
  | .done d (.object members s :: stack), .closeObject =>
    some (.done (ofMembers ((s, d) :: members).reverse) stack)
  | .done .., _ => none

/-- The document that a text spells. -/
def parse? (s : String) : Option Document :=
  match (tokens? s.toList).bind (·.foldlM Progress.step? (.value [])) with
  | some (.done d []) => some d
  | _ => none

end LambdaSql.Document
