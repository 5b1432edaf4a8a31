import LambdaSql.Number.Checked
import LambdaSql.Value.Text

/-!
# Members and conversions of values

## Main definitions

* `Host.convert` - a value as a value of another type.
* `Host.member` - a member of a value.
* `Host.constantOf` - a member of a type that never changes.
-/

namespace LambdaSql.Host

open Calendar

/-- The whole number of a floating-point number: cut toward zero, and to the nearest word beyond
the range. -/
def cutToWord (x : Float) : Int64 :=
  match Number.read x with
  | .notANumber => 0
  | .infinite negative => if negative then Int64.minValue else Int64.maxValue
  | .finite v =>
    let size : Nat :=
      if v.exponent < 0 then v.mantissa / Nat.pow 2 v.exponent.natAbs
      else v.mantissa * Nat.pow 2 v.exponent.toNat
    let n : Int := if v.negative then -(size : Int) else size
    Int64.ofInt (max Int64.minValue.toInt (min Int64.maxValue.toInt n))

/-- A value as a whole number. -/
def convertToWhole : Value → Option Value
  | .int n => some (.int n)
  | .enum e => some (.int e.number)
  | .float x => some (.int (cutToWord x))
  | .decimal s => (Number.parse? s).map fun x => .int (cutToWord x)
  | .bool b => some (.int (if b then 1 else 0))
  | _ => none

/-- A value as a decimal. -/
def convertToDecimal : Value → Option Value
  | .decimal s => some (.decimal s)
  | v => v.toFloat?.map fun x => .decimal (Number.text x)

/-- A value as a value of another type; null stays null, and types without numbers or text change
nothing. -/
def convert (v : Value) (target : HostType) : Option Value :=
  if v.isNull then some v
  else
    match target with
    | .byte | .int16 | .int32 | .int64 => convertToWhole v
    | .double => v.toFloat?.map .float
    | .decimal => convertToDecimal v
    | .string => some (.string v.concatText)
    | _ => some v

/-- A natural number as a value. -/
def whole (n : Nat) : Value := .int (Int64.ofNat n)

/-- A member of a date. -/
def dateMember (d : Date) : String → Option Value
  | "Year" => some (.int (Int64.ofInt d.year))
  | "Month" => some (whole d.month)
  | "Day" => some (whole d.day)
  | "DayOfWeek" => some (whole d.dayOfWeek)
  | "DayOfYear" => some (whole d.dayOfYear)
  | _ => none

/-- A member of a time of day. -/
def timeMember (t : Clock) : String → Option Value
  | "Hour" => some (whole t.hour)
  | "Minute" => some (whole t.minute)
  | "Second" => some (whole t.second)
  | "Millisecond" => some (whole (t.nano / 1000000))
  | _ => none

/-- A member of a moment. -/
def momentMember (m : Moment) (name : String) : Option Value :=
  match name with
  | "Date" => some (.moment ⟨m.date, Clock.midnight⟩)
  | "TimeOfDay" => (Duration.of? (m.time.since Clock.midnight)).map .span
  | _ => (dateMember m.date name).or (timeMember m.time name)

/-- A member of a duration: how many whole units remain beside the larger ones, or the whole
duration in a unit. -/
def spanMember (d : Duration) (name : String) : Option Value :=
  let seconds := Number.ofInt (d.whole Duration.millisecond) / 1000
  let rest (unit count : Int) : Value := .int (Int64.ofInt ((d.whole unit).tmod count))
  match name with
  | "Days" => some (.int (Int64.ofInt (d.whole Duration.day)))
  | "Hours" => some (rest Duration.hour 24)
  | "Minutes" => some (rest Duration.minute 60)
  | "Seconds" => some (rest Duration.second 60)
  | "Milliseconds" => some (rest Duration.millisecond 1000)
  | "TotalDays" => some (.float (seconds / 86400))
  | "TotalHours" => some (.float (seconds / 3600))
  | "TotalMinutes" => some (.float (seconds / 60))
  | "TotalSeconds" => some (.float seconds)
  | "TotalMilliseconds" => some (.float (seconds * 1000))
  | _ => none

/-- The members of a value that depend on its type. -/
def typedMember : Value → String → Option Value
  | .string s, name => if name = "Length" then some (whole s.length) else none
  | .list items, name =>
    if name = "Length" ∨ name = "Count" then some (whole items.length) else none
  | .moment m, name => momentMember m name
  | .date d, name => dateMember d name
  | .time t, name => timeMember t name
  | .span d, name => spanMember d name
  | _, _ => none

/-- A member of a value. Records have just their members; all other values tell whether they are
there and, if so, what they are. -/
def member (v : Value) (name : String) : Option Value :=
  match v with
  | .record members => members.lookup name
  | _ =>
    if name = "HasValue" then some (.bool !v.isNull)
    else if name = "Value" ∧ !v.isNull then some v
    else typedMember v name

/-- The first day of the first year. -/
def firstDate : Date := ⟨1, 1, 1, by decide⟩

/-- The last day of year 9999. -/
def lastDate : Date := ⟨9999, 12, 31, by decide⟩

/-- The first day of 1970. -/
def epochDate : Date := ⟨1970, 1, 1, by decide⟩

/-- The last second of a day with some nanoseconds. -/
def lastSecond (nano : Nat) (h : isClock 86399 nano = true) : Clock := ⟨86399, nano, h⟩

/-- A member of a type that never changes. -/
def constantOf (type name : String) : Option Value :=
  match type, name with
  | "DateTime", "MinValue" => some (.moment ⟨firstDate, Clock.midnight⟩)
  | "DateTime", "MaxValue" => some (.moment ⟨lastDate, lastSecond 999000000 (by decide)⟩)
  | "DateTime", "UnixEpoch" => some (.moment ⟨epochDate, Clock.midnight⟩)
  | "DateOnly", "MinValue" => some (.date firstDate)
  | "DateOnly", "MaxValue" => some (.date lastDate)
  | "TimeOnly", "MinValue" => some (.time Clock.midnight)
  | "TimeOnly", "MaxValue" => some (.time (lastSecond 999999000 (by decide)))
  | "TimeSpan", "Zero" => some (.span Duration.zero)
  | "String", "Empty" | "string", "Empty" => some (.string "")
  | _, _ => none

end LambdaSql.Host
