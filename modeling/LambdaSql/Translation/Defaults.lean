import LambdaSql.Host.Members
import LambdaSql.Translation.Basic

/-!
# The default translations

## Main definitions

* `TranslationTable.defaults` - the entries that hold unless others are given.
-/

namespace LambdaSql.TranslationTable

/-- The entries for one type, with one number of arguments each. -/
private def methodsOf (key : TypeKey) (entries : List (String × Nat × Translation)) :
    List ((TypeKey × String × Arity) × Translation) :=
  entries.map fun (method, arity, translation) => ((key, method, .exactly arity), translation)

/-- A function with a result type of its own. -/
private def giving (type : HostType) (f : SqlFunction) : Translation := .function f (.fixed type)

/-- A function whose result has the type of its first operand. -/
private def keeping (f : SqlFunction) : Translation := .function f .operand

/-- The methods of texts. -/
def textMethods : List ((TypeKey × String × Arity) × Translation) :=
  methodsOf .string [
    ("Contains", 1, giving .bool .contains),
    ("StartsWith", 1, giving .bool .startsWith),
    ("EndsWith", 1, giving .bool .endsWith),
    ("Trim", 0, giving .string .trim),
    ("TrimStart", 0, giving .string .trimLeft),
    ("TrimEnd", 0, giving .string .trimRight),
    ("Trim", 1, .trimChars .trimBoth),
    ("TrimStart", 1, .trimChars .trimLeading),
    ("TrimEnd", 1, .trimChars .trimTrailing),
    ("ToUpper", 0, giving .string .upper),
    ("ToUpperInvariant", 0, giving .string .upper),
    ("ToLower", 0, giving .string .lower),
    ("ToLowerInvariant", 0, giving .string .lower),
    ("Substring", 1, .substring),
    ("Substring", 2, .substring),
    ("IndexOf", 1, giving .int32 .indexOf),
    ("Replace", 2, giving .string .replace),
    ("PadLeft", 1, .pad .padLeft),
    ("PadLeft", 2, .pad .padLeft),
    ("PadRight", 1, .pad .padRight),
    ("PadRight", 2, .pad .padRight),
    ("IsNullOrEmpty", 1, giving .bool .isNullOrEmpty),
    ("IsNullOrWhiteSpace", 1, giving .bool .isNullOrWhiteSpace),
    ("Compare", 2, giving .int32 .compare)] ++
  [((.string, "Concat", .variadic), .concat), ((.string, "Format", .variadic), .deferred)]

/-- The methods of all types. -/
def objectMethods : List ((TypeKey × String × Arity) × Translation) :=
  methodsOf .object [
    ("Equals", 1, .equals),
    ("Equals", 2, .equals),
    ("CompareTo", 1, giving .int32 .compare),
    ("ToString", 0, .toText),
    ("ToString", 1, .toText),
    ("IsNull", 1, .orElse)]

/-- The methods that shift dates. -/
def dateShifts : List (String × Nat × Translation) :=
  [("AddYears", 1, .dateAdd .year 1), ("AddMonths", 1, .dateAdd .month 1),
    ("AddDays", 1, .dateAdd .day 1)]

/-- The methods that shift times by hours and minutes. -/
def timeShifts : List (String × Nat × Translation) :=
  [("AddHours", 1, .dateAdd .hour 1), ("AddMinutes", 1, .dateAdd .minute 1)]

/-- The methods that shift times by less than a minute. -/
def fineShifts : List (String × Nat × Translation) :=
  [("AddSeconds", 1, .dateAdd .second 1), ("AddMilliseconds", 1, .dateAdd .microsecond 1000)]

/-- The methods of moments, dates, times and durations. -/
def temporalMethods : List ((TypeKey × String × Arity) × Translation) :=
  methodsOf .dateTime (dateShifts ++ timeShifts ++ fineShifts ++ [
    ("Add", 1, .addSpan),
    ("Subtract", 1, .subtract),
    ("DaysInMonth", 2, giving .int32 .daysInMonth),
    ("IsLeapYear", 1, giving .bool .isLeapYear),
    ("Parse", 1, .cast .dateTime .dateTime),
    ("Compare", 2, giving .int32 .compare)]) ++
  methodsOf .dateOnly (dateShifts ++ [
    ("FromDateTime", 1, giving .dateOnly (.datePart .date)),
    ("Parse", 1, .cast .date .dateOnly)]) ++
  methodsOf .timeOnly (timeShifts ++ [
    ("FromDateTime", 1, giving .timeOnly (.datePart .timeOfDay)),
    ("Parse", 1, .cast .time .timeOnly)]) ++
  methodsOf .timeSpan [
    ("Add", 1, .addSpan),
    ("Subtract", 1, .subtract),
    ("FromDays", 1, .spanFrom 86400),
    ("FromHours", 1, .spanFrom 3600),
    ("FromMinutes", 1, .spanFrom 60),
    ("FromSeconds", 1, .spanFrom 1),
    ("FromMilliseconds", 1, .spanFrom 0.001)]

/-- The conversions and the functions of numbers. -/
def numericMethods : List ((TypeKey × String × Arity) × Translation) :=
  methodsOf .convert [
    ("ToByte", 1, .cast .signed .byte),
    ("ToInt16", 1, .cast .signed .int16),
    ("ToInt32", 1, .cast .signed .int32),
    ("ToInt64", 1, .cast .signed .int64),
    ("ToDouble", 1, .cast .double .double),
    ("ToSingle", 1, .cast .double .double),
    ("ToDecimal", 1, .cast .decimal .decimal),
    ("ToString", 1, .cast .char .string),
    ("ToDateTime", 1, .cast .dateTime .dateTime),
    ("ToBoolean", 1, .cast .boolean .bool)] ++
  methodsOf .math [
    ("Abs", 1, keeping .abs),
    ("Ceiling", 1, keeping .ceiling),
    ("Floor", 1, keeping .floor),
    ("Truncate", 1, keeping .truncate),
    ("Round", 1, .round),
    ("Round", 2, .round),
    ("Pow", 2, giving .double .pow),
    ("Sqrt", 1, giving .double .sqrt),
    ("Exp", 1, giving .double .exp),
    ("Log", 1, giving .double .ln),
    ("Log10", 1, giving .double .log10),
    ("Sign", 1, giving .int32 .sign),
    ("Max", 2, keeping .greatest),
    ("Min", 2, keeping .least)]

/-- Membership, aggregates and tests for rows. -/
def queryMethods : List ((TypeKey × String × Arity) × Translation) :=
  methodsOf .enumerable [("Contains", 1, .membership), ("Contains", 2, .membership)] ++
  methodsOf .sql [
    ("Count", 0, .aggregate .countAll),
    ("Count", 1, .aggregate .count),
    ("CountDistinct", 1, .aggregate .countDistinct),
    ("Sum", 1, .aggregate .sum),
    ("Avg", 1, .aggregate .avg),
    ("Max", 1, .aggregate .max),
    ("Min", 1, .aggregate .min),
    ("In", 2, .isIn false),
    ("NotIn", 2, .isIn true),
    ("Exists", 1, .rowsExist false),
    ("NotExists", 1, .rowsExist true),
    ("IsNull", 2, keeping .ifNull)] ++
  [((.sql, "Coalesce", .variadic), keeping .coalesce)] ++
  methodsOf .grouping [
    ("Count", 0, .aggregate .countAll),
    ("LongCount", 0, .aggregate .countAll),
    ("Sum", 1, .aggregate .sum),
    ("Average", 1, .aggregate .avg),
    ("Max", 1, .aggregate .max),
    ("Min", 1, .aggregate .min)]

/-- The parts of a date as members. -/
def dateParts : List (String × DatePart) :=
  [("Year", .year), ("Month", .month), ("Day", .day), ("DayOfWeek", .dayOfWeek),
    ("DayOfYear", .dayOfYear)]

/-- The parts of a time of day as members. -/
def timeParts : List (String × DatePart) :=
  [("Hour", .hour), ("Minute", .minute), ("Second", .second), ("Millisecond", .millisecond)]

/-- The parts of a duration as members. -/
def spanParts : List (String × SpanPart × HostType) :=
  [("Days", .days, .int32), ("Hours", .hours, .int32), ("Minutes", .minutes, .int32),
    ("Seconds", .seconds, .int32), ("Milliseconds", .milliseconds, .int32),
    ("TotalDays", .totalDays, .double), ("TotalHours", .totalHours, .double),
    ("TotalMinutes", .totalMinutes, .double), ("TotalSeconds", .totalSeconds, .double),
    ("TotalMilliseconds", .totalMilliseconds, .double)]

/-- The members of all types. -/
def defaultMembers : List ((TypeKey × String) × MemberTranslation) :=
  let parts (key : TypeKey) (ps : List (String × DatePart)) :=
    ps.map fun (name, p) => ((key, name), (⟨.datePart p, .int32⟩ : MemberTranslation))
  [((.string, "Length"), ⟨.length, .int32⟩),
    ((.dateTime, "Date"), ⟨.datePart .date, .dateTime⟩),
    ((.dateTime, "TimeOfDay"), ⟨.datePart .timeOfDay, .timeSpan⟩)] ++
  parts .dateTime (dateParts ++ timeParts) ++ parts .dateOnly dateParts ++
  parts .timeOnly timeParts ++
  spanParts.map fun (name, p, type) => ((.timeSpan, name), ⟨.spanPart p, type⟩)

/-- The members of types that never change. -/
def constantStatics : List (TypeKey × String) :=
  [(.string, "Empty"), (.dateTime, "MinValue"), (.dateTime, "MaxValue"),
    (.dateTime, "UnixEpoch"), (.dateOnly, "MinValue"), (.dateOnly, "MaxValue"),
    (.timeOnly, "MinValue"), (.timeOnly, "MaxValue"), (.timeSpan, "Zero")]

/-- The members of types: the clock of the database, and values that never change. -/
def defaultStatics : List ((TypeKey × String) × StaticTranslation) :=
  [((.dateTime, "Now"), .function .now .dateTime),
    ((.dateTime, "Today"), .function .today .dateTime),
    ((.dateTime, "UtcNow"), .function .utcNow .dateTime)] ++
  constantStatics.filterMap fun (key, member) =>
    (Host.constantOf key.name member).map fun v => ((key, member), .value v)

/-- The entries that hold unless others are given. -/
def defaults : TranslationTable where
  methods :=
    textMethods ++ objectMethods ++ temporalMethods ++ numericMethods ++ queryMethods
  members := defaultMembers
  statics := defaultStatics

end LambdaSql.TranslationTable
