import LambdaSql.Calendar.Format
import LambdaSql.Dialect.Basic

/-!
# The MySQL dialect

## Main definitions

* `MySql.quoteIdentifier`, `MySql.quoteText` - quoting.
* `MySql.template` - how functions are written.
* `MySql.dateFormat?` - date formats in the notation of `DATE_FORMAT`.
* `MySql.limitClause` - row limits.
* `MySql.dialect` - the dialect.
-/

namespace LambdaSql.MySql

/-- A name between backticks, a backtick in it written twice. -/
def quoteIdentifier (name : String) : String :=
  String.ofList ('\x60' :: name.toList.flatMap
    (fun c => if c = '\x60' then ['\x60', '\x60'] else [c]) ++ ['\x60'])

/-- A text between single quotes, with backslashes and single quotes in it written twice. -/
def quoteText (s : String) : String :=
  String.ofList ('\'' :: s.toList.flatMap
    (fun c => if c = '\\' then ['\\', '\\'] else if c = '\'' then ['\'', '\''] else [c]) ++ ['\''])

/-- A truth value. -/
def boolLiteral (b : Bool) : String := if b then "1" else "0"

/-- The place of the first argument. -/
def x : String := "\x7b0\x7d"

/-- The place of the second argument. -/
def y : String := "\x7b1\x7d"

/-- The place of the third argument. -/
def z : String := "\x7b2\x7d"

/-- The place of all arguments. -/
def all : String := "\x7b*\x7d"

/-- How a part of a date is written. -/
def datePartTemplate : DatePart → String
  | .year => s!"YEAR({x})"
  | .month => s!"MONTH({x})"
  | .day => s!"DAY({x})"
  | .hour => s!"HOUR({x})"
  | .minute => s!"MINUTE({x})"
  | .second => s!"SECOND({x})"
  | .millisecond => s!"(MICROSECOND({x}) DIV 1000)"
  | .dayOfWeek => s!"(DAYOFWEEK({x})-1)"
  | .dayOfYear => s!"DAYOFYEAR({x})"
  | .date => s!"DATE({x})"
  | .timeOfDay => s!"TIME({x})"

/-- How a part of a duration is written. -/
def spanPartTemplate : SpanPart → String
  | .days => s!"FLOOR(TIME_TO_SEC({x})/86400)"
  | .hours => s!"(FLOOR(TIME_TO_SEC({x})/3600)%24)"
  | .minutes => s!"(FLOOR(TIME_TO_SEC({x})/60)%60)"
  | .seconds => s!"(FLOOR(TIME_TO_SEC({x}))%60)"
  | .milliseconds => s!"(MICROSECOND({x}) DIV 1000)"
  | .totalDays => s!"(TIME_TO_SEC({x})/86400)"
  | .totalHours => s!"(TIME_TO_SEC({x})/3600)"
  | .totalMinutes => s!"(TIME_TO_SEC({x})/60)"
  | .totalSeconds => s!"TIME_TO_SEC({x})"
  | .totalMilliseconds => s!"(TIME_TO_SEC({x})*1000)"

/-- How a cast is written. -/
def castTemplate : CastTarget → String
  | .signed => s!"CAST({x} AS SIGNED)"
  | .double => s!"CAST({x} AS DOUBLE)"
  | .decimal => s!"CAST({x} AS DECIMAL(36,18))"
  | .char => s!"CAST({x} AS CHAR)"
  | .dateTime => s!"CAST({x} AS DATETIME)"
  | .date => s!"CAST({x} AS DATE)"
  | .time => s!"CAST({x} AS TIME)"
  | .boolean => s!"({x}<>0)"

/-- How an aggregate is written. -/
def aggregateTemplate : Aggregate → String
  | .countAll => "COUNT(1)"
  | .count => s!"COUNT({x})"
  | .countDistinct => s!"COUNT(DISTINCT {x})"
  | .sum => s!"SUM({x})"
  | .avg => s!"AVG({x})"
  | .max => s!"MAX({x})"
  | .min => s!"MIN({x})"

/-- How a function is written. -/
def template : SqlFunction → String
  | .concat => s!"CONCAT({all})"
  | .upper => s!"UPPER({x})"
  | .lower => s!"LOWER({x})"
  | .trim => s!"TRIM({x})"
  | .trimLeft => s!"LTRIM({x})"
  | .trimRight => s!"RTRIM({x})"
  | .trimBoth => s!"TRIM(BOTH {y} FROM {x})"
  | .trimLeading => s!"TRIM(LEADING {y} FROM {x})"
  | .trimTrailing => s!"TRIM(TRAILING {y} FROM {x})"
  | .length => s!"CHAR_LENGTH({x})"
  | .substring => s!"SUBSTR({x},{y})"
  | .substringLength => s!"SUBSTR({x},{y},{z})"
  | .indexOf => s!"(LOCATE({y},{x})-1)"
  | .replace => s!"REPLACE({x},{y},{z})"
  | .padLeft => s!"LPAD({x},{y},{z})"
  | .padRight => s!"RPAD({x},{y},{z})"
  | .contains => s!"{x} LIKE CONCAT('%',{y},'%')"
  | .startsWith => s!"{x} LIKE CONCAT({y},'%')"
  | .endsWith => s!"{x} LIKE CONCAT('%',{y})"
  | .isNullOrEmpty => s!"({x} IS NULL OR {x}='')"
  | .isNullOrWhiteSpace => s!"({x} IS NULL OR TRIM({x})='')"
  | .compare => s!"(CASE WHEN {x}={y} THEN 0 WHEN {x}>{y} THEN 1 ELSE -1 END)"
  | .now => "NOW()"
  | .today => "CURDATE()"
  | .utcNow => "UTC_TIMESTAMP()"
  | .addTime => s!"ADDTIME({x},{y})"
  | .subTime => s!"SUBTIME({x},{y})"
  | .timeDiff => s!"TIMEDIFF({x},{y})"
  | .isLeapYear => s!"(({x}%4=0 AND {x}%100<>0) OR {x}%400=0)"
  | .dateFormat => s!"DATE_FORMAT({x},{y})"
  | .secToTime => s!"SEC_TO_TIME({x})"
  | .abs => s!"ABS({x})"
  | .ceiling => s!"CEILING({x})"
  | .floor => s!"FLOOR({x})"
  | .round => s!"ROUND({x})"
  | .roundDigits => s!"ROUND({x},{y})"
  | .truncate => s!"TRUNCATE({x},0)"
  | .pow => s!"POW({x},{y})"
  | .sqrt => s!"SQRT({x})"
  | .sign => s!"SIGN({x})"
  | .exp => s!"EXP({x})"
  | .ln => s!"LN({x})"
  | .log10 => s!"LOG10({x})"
  | .greatest => s!"GREATEST({all})"
  | .least => s!"LEAST({all})"
  | .coalesce => s!"COALESCE({all})"
  | .ifNull => s!"IFNULL({x},{y})"
  | .dateAdd unit => s!"DATE_ADD({x},INTERVAL {y} " ++ unit.keyword ++ ")"
  | .dateSub unit => s!"DATE_SUB({x},INTERVAL {y} " ++ unit.keyword ++ ")"
  | .datePart part => datePartTemplate part
  | .daysInMonth =>
    s!"(CASE WHEN {y}=2 THEN (CASE WHEN ({x}%4=0 AND {x}%100<>0) " ++
    s!"OR {x}%400=0 THEN 29 ELSE 28 END) WHEN {y} IN (4,6,9,11) THEN 30 ELSE 31 END)"
  | .spanPart part => spanPartTemplate part
  | .cast target => castTemplate target
  | .aggregate f => aggregateTemplate f

/-- The notation of a field of a date; milliseconds have none. -/
def fieldCode? : Calendar.Field → Option String
  | .year => some "%Y"
  | .yearOfCentury => some "%y"
  | .monthName => some "%M"
  | .monthShort => some "%b"
  | .monthPadded => some "%m"
  | .month => some "%c"
  | .dayName => some "%W"
  | .dayShort => some "%a"
  | .dayPadded => some "%d"
  | .day => some "%e"
  | .hourPadded => some "%H"
  | .hour => some "%k"
  | .hourOfHalfPadded => some "%h"
  | .hourOfHalf => some "%l"
  | .minute => some "%i"
  | .second => some "%s"
  | .micros => some "%f"
  | .millis => none
  | .half => some "%p"

/-- The notation of a piece of a format. A percent sign is written twice, and line feeds have no
place in a format. -/
def pieceCode? : Calendar.Piece → Option String
  | .field f => fieldCode? f
  | .literal c =>
    some (if c = '%' then "%%" else if c = '\n' then "" else String.singleton c)

/-- A format text in the notation of `DATE_FORMAT`. -/
def dateFormat? (format : String) : Option String :=
  (Calendar.Piece.ofText? format).bind fun pieces => (pieces.mapM pieceCode?).map String.join

/-- The limit that stands for no limit where one is needed. -/
def unlimited : Nat := 0xffffffffffffffff

/-- The clause that limits the number of rows. Skipping no rows is not written, and skipping rows
needs a limit. -/
def limitClause (limit offset : Option Nat) : String :=
  match limit, offset.filter (0 < ·) with
  | some n, some m => s!" LIMIT {n} OFFSET {m}"
  | some n, none => s!" LIMIT {n}"
  | none, some m => s!" LIMIT {unlimited} OFFSET {m}"
  | none, none => ""

/-- The MySQL dialect. -/
def dialect : Dialect where
  name := "mysql"
  quoteIdentifier := quoteIdentifier
  quoteText := quoteText
  boolLiteral := boolLiteral
  template := template
  dateFormat? := dateFormat?
  limitClause := limitClause

end LambdaSql.MySql
