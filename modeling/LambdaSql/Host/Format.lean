import LambdaSql.Text.Blank
import LambdaSql.Text.Search
import LambdaSql.Number.Fixed
import LambdaSql.Value.Text
import LambdaSql.Host.Evaluation

/-!
# Formatting values

## Main definitions

* `Host.placesOf?` - the number of decimal places that a number format asks for.
* `Host.formatNumber` - a number in a format.
* `Host.format` - a value in a format.
* `Host.composite` - a text with numbered places in braces, filled with values.
-/

namespace LambdaSql.Host

open Calendar

/-- The number of decimal places that a number format asks for: `F` or `N` with a number, which
two stands in for, or a picture of `0`, `#` and a point. -/
def placesOf? (format : String) : Option Nat :=
  match format.toList with
  | c :: rest =>
    if c ∈ ['F', 'f', 'N', 'n'] then if rest.isEmpty then some 2 else Number.parseNat? rest
    else picture? (c :: rest)
  | [] => picture? []
where
  /-- The number of characters behind the first point of a picture. -/
  picture? (cs : List Char) : Option Nat :=
    if cs.all (fun c => c == '0' || c == '#' || c == '.') then
      some ((Text.splitOnce '.' cs).elim 0 fun parts => parts.2.length)
    else none

/-- A date, a time or both in a format. -/
def formatTemporal (date : Option Date) (time : Option Clock) (format : String) :
    Evaluation String := do
  let pieces ← .ofOption (Piece.ofText? format)
  match Calendar.render date time pieces with
  | some text => return text
  | none => throw (.fault .fieldNotThere)

/-- The largest number of decimal places that a number may be written with. -/
def maxPlaces : Nat := 0xffff

/-- A number in a format. Asking for too many decimal places is a fault. -/
def formatNumber (value : Value) (format : String) : Evaluation String := do
  let places ← .ofOption (placesOf? format)
  let x ← .ofOption value.toFloat?
  if maxPlaces < places then throw (.fault .tooManyPlaces)
  return Number.fixed places x

/-- A value in a format. -/
def format (value : Value) (format : String) : Evaluation String :=
  match value with
  | .moment m => formatTemporal (some m.date) (some m.time) format
  | .date d => formatTemporal (some d) none format
  | .time t => formatTemporal none (some t) format
  | .int _ | .float _ | .decimal _ => formatNumber value format
  | _ => .unevaluable

/-- The text for what stands between braces: the number of an argument and possibly, after a
colon, a format. -/
def fill (args : List Value) (spec : List Char) : Evaluation String := do
  let (number, wanted) := match Text.splitOnce ':' spec with
    | some (number, wanted) => (number, some (String.ofList wanted))
    | none => (spec, none)
  let i ← .ofOption (Number.parseNat? (Text.trim number))
  let value ← .ofOption args[i]?
  match wanted with
  | some wanted => format value wanted
  | none => return value.concatText

/-- A text with places from some point on, `place` being the part of an open place already read,
backwards. A brace is written as two; a place that is not closed ends with the text. -/
def compositeFrom (args : List Value) : Option (List Char) → List Char → Evaluation String
  | none, [] => return ""
  | some place, [] => fill args place.reverse
  | some place, c :: cs =>
    if c = '\x7d' then do
      let text ← fill args place.reverse
      return text ++ (← compositeFrom args none cs)
    else compositeFrom args (some (c :: place)) cs
  | none, '\x7b' :: '\x7b' :: cs => do return "\x7b" ++ (← compositeFrom args none cs)
  | none, '\x7d' :: '\x7d' :: cs => do return "\x7d" ++ (← compositeFrom args none cs)
  | none, '\x7b' :: cs => compositeFrom args (some []) cs
  | none, c :: cs => do return String.singleton c ++ (← compositeFrom args none cs)

/-- A text with numbered places in braces, filled with values. -/
def composite (format : String) (args : List Value) : Evaluation String :=
  compositeFrom args none format.toList

end LambdaSql.Host
