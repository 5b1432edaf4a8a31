import LambdaSql.Number.Fixed
import LambdaSql.Calendar.Moment

/-!
# Date and time formats

A format is a list of pieces, each a field of a date or a time, or a character that stands for
itself. Format texts such as `yyyy-MM-dd HH:mm` are split from left to right, the longest field name
first; a letter that starts no field makes the text meaningless.

## Main definitions

* `Calendar.Field`, `Calendar.Piece` - what a format consists of.
* `Calendar.fieldNames`, `Calendar.Piece.ofText?` - reading a format text.
* `Calendar.render` - the text of a date and a time in a format.
* `Calendar.Date.text`, `Calendar.Moment.text`, `Calendar.Clock.text` and their longer forms - the
  standard texts.
-/

namespace LambdaSql.Calendar

/-- A field of a date or of a time of day. -/
inductive Field where
  | year | yearOfCentury
  | monthName | monthShort | monthPadded | month
  | dayName | dayShort | dayPadded | day
  | hourPadded | hour | hourOfHalfPadded | hourOfHalf
  | minute | second | micros | millis | half
deriving DecidableEq, Repr

/-- A piece of a format. -/
inductive Piece where
  | field (f : Field)
  | literal (c : Char)
deriving DecidableEq, Repr

/-- The names of the fields in format texts. Of two names that start alike the longer comes
first. -/
def fieldNames : List (List Char × Field) := [
  ("yyyy".toList, .year), ("yy".toList, .yearOfCentury),
  ("MMMM".toList, .monthName), ("MMM".toList, .monthShort),
  ("MM".toList, .monthPadded), ("M".toList, .month),
  ("dddd".toList, .dayName), ("ddd".toList, .dayShort),
  ("dd".toList, .dayPadded), ("d".toList, .day),
  ("HH".toList, .hourPadded), ("H".toList, .hour),
  ("hh".toList, .hourOfHalfPadded), ("h".toList, .hourOfHalf),
  ("mm".toList, .minute), ("ss".toList, .second),
  ("ffffff".toList, .micros), ("fff".toList, .millis), ("tt".toList, .half)]

/-- Whether a character is an ASCII letter. -/
def isLetter (c : Char) : Bool := ('a' ≤ c && c ≤ 'z') || ('A' ≤ c && c ≤ 'Z')

/-- The first entry of a table of names that starts a text. -/
def firstName? {α : Type} (table : List (List Char × α)) (cs : List Char) :
    Option (List Char × α) :=
  table.find? (·.1.isPrefixOf cs)

/-- The pieces of a format text after `skip` characters of a field name already read. -/
private def piecesFrom (skip : Nat) : List Char → Option (List Piece)
  | [] => some []
  | c :: cs =>
    if 0 < skip then piecesFrom (skip - 1) cs
    else
      match firstName? fieldNames (c :: cs) with
      | some (name, f) => (piecesFrom (name.length - 1) cs).map (.field f :: ·)
      | none => if isLetter c then none else (piecesFrom 0 cs).map (.literal c :: ·)

/-- The pieces of a format text; `none` when a letter starts no field. -/
def Piece.ofText? (format : String) : Option (List Piece) := piecesFrom 0 format.toList

/-- The month names. -/
def monthNames : List String :=
  ["January", "February", "March", "April", "May", "June", "July", "August", "September",
    "October", "November", "December"]

/-- The names of the days of the week, Sunday first. -/
def dayNames : List String :=
  ["Sunday", "Monday", "Tuesday", "Wednesday", "Thursday", "Friday", "Saturday"]

/-- A year with at least four digits, and with a sign outside 0 to 9999. -/
def yearText (year : Int) : List Char :=
  if 0 ≤ year ∧ year ≤ 9999 then Number.padLeft 4 year.toNat
  else (if year < 0 then '-' else '+') :: Number.padLeft 4 year.natAbs

/-- The hour on a twelve-hour dial. -/
def Clock.dialHour (t : Clock) : Nat := if t.hour % 12 = 0 then 12 else t.hour % 12

/-- The text of a field; `none` when it needs a date or a time that is not there. -/
def Field.render (date : Option Date) (time : Option Clock) : Field → Option (List Char)
  | .year => date.map fun d => yearText d.year
  | .yearOfCentury => date.map fun d => Number.padLeft 2 (d.year % 100).toNat
  | .monthName => date.map fun d => (monthNames.getD (d.month - 1) "").toList
  | .monthShort => date.map fun d => (monthNames.getD (d.month - 1) "").toList.take 3
  | .monthPadded => date.map fun d => Number.padLeft 2 d.month
  | .month => date.map fun d => Number.padLeft 1 d.month
  | .dayName => date.map fun d => (dayNames.getD d.dayOfWeek "").toList
  | .dayShort => date.map fun d => (dayNames.getD d.dayOfWeek "").toList.take 3
  | .dayPadded => date.map fun d => Number.padLeft 2 d.day
  | .day => date.map fun d => Number.padLeft 1 d.day
  | .hourPadded => time.map fun t => Number.padLeft 2 t.hour
  | .hour => time.map fun t => Number.padLeft 1 t.hour
  | .hourOfHalfPadded => time.map fun t => Number.padLeft 2 t.dialHour
  | .hourOfHalf => time.map fun t => Number.padLeft 1 t.dialHour
  | .minute => time.map fun t => Number.padLeft 2 t.minute
  | .second => time.map fun t => Number.padLeft 2 (t.second + t.nano / nanosPerSecond)
  | .micros => time.map fun t => Number.padLeft 6 (t.nano % nanosPerSecond / 1000)
  | .millis => time.map fun t => Number.padLeft 3 (t.nano % nanosPerSecond / 1000000)
  | .half => time.map fun t => if t.hour < 12 then "AM".toList else "PM".toList

/-- The text of a piece. -/
def Piece.render (date : Option Date) (time : Option Clock) : Piece → Option (List Char)
  | .field f => f.render date time
  | .literal c => some [c]

/-- The text of a date and a time in a format; `none` when a field needs the one that is not
there. -/
def render (date : Option Date) (time : Option Clock) (format : List Piece) : Option String :=
  (format.mapM (Piece.render date time)).map fun parts => String.ofList parts.flatten

/-- A date as year, month and day. -/
def Date.text (d : Date) : String :=
  String.ofList (yearText d.year ++ '-' :: Number.padLeft 2 d.month ++ '-' ::
    Number.padLeft 2 d.day)

/-- A time as hour, minute and second. -/
def Clock.text (t : Clock) : String :=
  String.ofList (Number.padLeft 2 t.hour ++ ':' :: Number.padLeft 2 t.minute ++ ':' ::
    Number.padLeft 2 (t.second + t.nano / nanosPerSecond))

/-- A time to the microsecond. -/
def Clock.microsText (t : Clock) : String :=
  t.text ++ String.ofList ('.' :: Number.padLeft 6 (t.nano % nanosPerSecond / 1000))

/-- A moment to the second. -/
def Moment.text (m : Moment) : String := m.date.text ++ " " ++ m.time.text

/-- A moment to the millisecond. -/
def Moment.millisText (m : Moment) : String :=
  m.text ++ String.ofList ('.' :: Number.padLeft 3 (m.time.nano % nanosPerSecond / 1000000))

/-- A duration as `[-][days.]hours:minutes:seconds.micros`, cut to whole microseconds. Days are
written only when there are any. -/
def Duration.text (d : Duration) : String :=
  let total := d.nanos.natAbs / nanosPerSecond
  let micros := d.nanos.natAbs % nanosPerSecond / 1000
  let days := total / 86400
  String.ofList (
    (if d.nanos < 0 then ['-'] else []) ++
    (if 0 < days then Nat.toDigits 10 days ++ ['.'] else []) ++
    Number.padLeft 2 (total / 3600 % 24) ++ ':' ::
    Number.padLeft 2 (total / 60 % 60) ++ ':' ::
    Number.padLeft 2 (total % 60) ++ '.' ::
    Number.padLeft 6 micros)

end LambdaSql.Calendar
