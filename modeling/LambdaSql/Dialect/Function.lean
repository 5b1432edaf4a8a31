/-!
# Database functions

The functions that expressions are translated to. How a function is written is a matter of the
dialect.

## Main definitions

* `SqlFunction` - the functions, with their families `IntervalUnit`, `DatePart`, `SpanPart`,
  `CastTarget` and `Aggregate`.
* `SqlFunction.all`, `SqlFunction.name` - the list of the functions and their names.
* `SqlFunction.isPredicate`, `SqlFunction.isBarePredicate`, `SqlFunction.isAggregate`.
-/

namespace LambdaSql

/-- A unit in which dates are shifted. -/
inductive IntervalUnit where
  | year | month | day | hour | minute | second | microsecond
deriving DecidableEq, Repr

/-- A part of a date or a time. -/
inductive DatePart where
  | year | month | day | hour | minute | second | millisecond | dayOfWeek | dayOfYear
  | date | timeOfDay
deriving DecidableEq, Repr

/-- A part of a duration, or a duration in a unit. -/
inductive SpanPart where
  | days | hours | minutes | seconds | milliseconds
  | totalDays | totalHours | totalMinutes | totalSeconds | totalMilliseconds
deriving DecidableEq, Repr

/-- What a value can be cast to. -/
inductive CastTarget where
  | signed | double | decimal | char | dateTime | date | time | boolean
deriving DecidableEq, Repr

/-- A function of all rows of a group. -/
inductive Aggregate where
  | countAll | count | countDistinct | sum | avg | max | min
deriving DecidableEq, Repr

/-- A database function. -/
inductive SqlFunction where
  | concat | upper | lower | trim | trimLeft | trimRight | trimBoth | trimLeading | trimTrailing
  | length | substring | substringLength | indexOf | replace | padLeft | padRight
  | contains | startsWith | endsWith | isNullOrEmpty | isNullOrWhiteSpace | compare
  | now | today | utcNow
  | dateAdd (unit : IntervalUnit)
  | dateSub (unit : IntervalUnit)
  | addTime | subTime | timeDiff
  | datePart (part : DatePart)
  | daysInMonth | isLeapYear | dateFormat | secToTime
  | spanPart (part : SpanPart)
  | cast (target : CastTarget)
  | abs | ceiling | floor | round | roundDigits | truncate | pow | sqrt | sign | exp | ln | log10
  | greatest | least
  | coalesce | ifNull
  | aggregate (f : Aggregate)
deriving DecidableEq, Repr

/-- The units. -/
def IntervalUnit.all : List IntervalUnit :=
  [year, month, day, hour, minute, second, microsecond]

/-- The name of a unit. -/
def IntervalUnit.name : IntervalUnit → String
  | year => "Year"
  | month => "Month"
  | day => "Day"
  | hour => "Hour"
  | minute => "Minute"
  | second => "Second"
  | microsecond => "Microsecond"

/-- The keyword of a unit. -/
def IntervalUnit.keyword : IntervalUnit → String
  | year => "YEAR"
  | month => "MONTH"
  | day => "DAY"
  | hour => "HOUR"
  | minute => "MINUTE"
  | second => "SECOND"
  | microsecond => "MICROSECOND"

/-- The parts of a date. -/
def DatePart.all : List DatePart :=
  [year, month, day, hour, minute, second, millisecond, dayOfWeek, dayOfYear, date, timeOfDay]

/-- The name of a part of a date. -/
def DatePart.name : DatePart → String
  | year => "Year"
  | month => "Month"
  | day => "Day"
  | hour => "Hour"
  | minute => "Minute"
  | second => "Second"
  | millisecond => "Millisecond"
  | dayOfWeek => "DayOfWeek"
  | dayOfYear => "DayOfYear"
  | date => "Date"
  | timeOfDay => "TimeOfDay"

/-- The parts of a duration. -/
def SpanPart.all : List SpanPart :=
  [days, hours, minutes, seconds, milliseconds,
    totalDays, totalHours, totalMinutes, totalSeconds, totalMilliseconds]

/-- The name of a part of a duration. -/
def SpanPart.name : SpanPart → String
  | days => "Days"
  | hours => "Hours"
  | minutes => "Minutes"
  | seconds => "Seconds"
  | milliseconds => "Milliseconds"
  | totalDays => "TotalDays"
  | totalHours => "TotalHours"
  | totalMinutes => "TotalMinutes"
  | totalSeconds => "TotalSeconds"
  | totalMilliseconds => "TotalMilliseconds"

/-- The cast targets. -/
def CastTarget.all : List CastTarget :=
  [signed, double, decimal, char, dateTime, date, time, boolean]

/-- The name of a cast target. -/
def CastTarget.name : CastTarget → String
  | signed => "Signed"
  | double => "Double"
  | decimal => "Decimal"
  | char => "Char"
  | dateTime => "DateTime"
  | date => "Date"
  | time => "Time"
  | boolean => "Boolean"

/-- The aggregates. -/
def Aggregate.all : List Aggregate := [countAll, count, countDistinct, sum, avg, max, min]

/-- The name of an aggregate. -/
def Aggregate.name : Aggregate → String
  | countAll => "CountAll"
  | count => "Count"
  | countDistinct => "CountDistinct"
  | sum => "Sum"
  | avg => "Avg"
  | max => "Max"
  | min => "Min"

namespace SqlFunction

/-- The functions. -/
def all : List SqlFunction :=
  [concat, upper, lower, trim, trimLeft, trimRight, trimBoth, trimLeading, trimTrailing,
    length, substring, substringLength, indexOf, replace, padLeft, padRight,
    contains, startsWith, endsWith, isNullOrEmpty, isNullOrWhiteSpace, compare,
    now, today, utcNow, addTime, subTime, timeDiff, daysInMonth, isLeapYear, dateFormat,
    secToTime, abs, ceiling, floor, round, roundDigits, truncate, pow, sqrt, sign, exp, ln,
    log10, greatest, least, coalesce, ifNull] ++
  IntervalUnit.all.map dateAdd ++ IntervalUnit.all.map dateSub ++ DatePart.all.map datePart ++
  SpanPart.all.map spanPart ++ CastTarget.all.map cast ++ Aggregate.all.map aggregate

/-- The name of a function. -/
def name : SqlFunction → String
  | concat => "Concat"
  | upper => "Upper"
  | lower => "Lower"
  | trim => "Trim"
  | trimLeft => "LTrim"
  | trimRight => "RTrim"
  | trimBoth => "TrimBoth"
  | trimLeading => "TrimLeading"
  | trimTrailing => "TrimTrailing"
  | length => "Length"
  | substring => "Substring"
  | substringLength => "SubstringLength"
  | indexOf => "IndexOf"
  | replace => "Replace"
  | padLeft => "PadLeft"
  | padRight => "PadRight"
  | contains => "Contains"
  | startsWith => "StartsWith"
  | endsWith => "EndsWith"
  | isNullOrEmpty => "IsNullOrEmpty"
  | isNullOrWhiteSpace => "IsNullOrWhiteSpace"
  | compare => "Compare"
  | now => "Now"
  | today => "Today"
  | utcNow => "UtcNow"
  | dateAdd unit => "DateAdd(" ++ unit.name ++ ")"
  | dateSub unit => "DateSub(" ++ unit.name ++ ")"
  | addTime => "AddTime"
  | subTime => "SubTime"
  | timeDiff => "TimeDiff"
  | datePart part => "DatePart(" ++ part.name ++ ")"
  | daysInMonth => "DaysInMonth"
  | isLeapYear => "IsLeapYear"
  | dateFormat => "DateFormat"
  | secToTime => "SecToTime"
  | spanPart part => "TimeSpanPart(" ++ part.name ++ ")"
  | cast target => "Cast(" ++ target.name ++ ")"
  | abs => "Abs"
  | ceiling => "Ceiling"
  | floor => "Floor"
  | round => "Round"
  | roundDigits => "RoundDigits"
  | truncate => "Truncate"
  | pow => "Pow"
  | sqrt => "Sqrt"
  | sign => "Sign"
  | exp => "Exp"
  | ln => "Ln"
  | log10 => "Log10"
  | greatest => "Greatest"
  | least => "Least"
  | coalesce => "Coalesce"
  | ifNull => "IfNull"
  | aggregate f => "Aggregate(" ++ f.name ++ ")"

/-- Whether a function is written as a test without parentheses around it. -/
def isBarePredicate : SqlFunction → Bool
  | contains | startsWith | endsWith => true
  | _ => false

/-- Whether a function is a test, as opposed to a truth value that has to be tested. -/
def isPredicate : SqlFunction → Bool
  | contains | startsWith | endsWith | isNullOrEmpty | isNullOrWhiteSpace | isLeapYear
  | cast .boolean => true
  | _ => false

/-- Whether a function is an aggregate. -/
def isAggregate : SqlFunction → Bool
  | aggregate _ => true
  | _ => false

end SqlFunction

end LambdaSql
