import LambdaSql.Text.Case
import LambdaSql.Host.Format
import LambdaSql.Host.Members
import LambdaSql.Host.Operators

/-!
# Calls on values

The methods of values and of types that have a value without a database.

## Main definitions

* `Host.callOn` - a method of a value.
* `Host.callOf` - a method of a type.
-/

namespace LambdaSql.Host

open Calendar

/-- A position or a width: a whole number that is not negative. -/
def natural? (v : Value) : Option Nat :=
  v.toInt?.bind fun n => if 0 ≤ n.toInt then some n.toInt.toNat else none

/-- The natural numbers are the whole numbers that are not negative. -/
theorem natural?_eq_some {v : Value} {i : Nat} : natural? v = some i ↔ ∃ n, v = .int n ∧ n.toInt = i := by
  cases v with
  | int n =>
    change (if 0 ≤ n.toInt then some n.toInt.toNat else none) = some i ↔ _
    simp only [Value.int.injEq, exists_eq_left']
    split
    · rw [Option.some_inj]
      omega
    · simp only [reduceCtorEq, false_iff]
      omega
  | _ => simp [natural?, Value.toInt?]

/-- The duration of a number of seconds, to the microsecond. -/
def spanOfSeconds (seconds : Float) : Duration :=
  Duration.ofMicros (cutToWord (seconds * 1000000).round)

/-- The number of an order: minus one, zero or one. -/
def orderValue : Ordering → Value
  | .lt => .int (-1)
  | .eq => .int 0
  | .gt => .int 1

/-! ## Texts -/

/-- The character that fills a text up: the first one of the text given, or a space. -/
def filler? : List Value → Option Char
  | [] => some ' '
  | .string s :: _ => s.toList.head?
  | _ :: _ => none

/-- The number of bytes that a program can address: half of the addresses of 48 bits. No text is larger, and whether a
smaller one finds room is a matter of the machine. -/
def addressable : Nat := 140737488355328

/-- How many characters fill a text up to a width, and which one. -/
def filling? (cs : List Char) (width : Value) (rest : List Value) : Option (Nat × Char) := do
  if 1 < rest.length then none
  return ((← natural? width) - cs.length, ← filler? rest)

/-- What fills a text up to a width. A padding that no memory has room for is a fault. -/
def padding (cs : List Char) (width : Value) (rest : List Value) : Evaluation (List Char) := do
  let (count, fill) ← .ofOption (filling? cs width rest)
  if addressable < count * fill.utf8Size then throw (.fault .paddingBeyondMemory)
  return List.replicate count fill

/-- A method of a text that does not fill it up. -/
def callOnText? (cs : List Char) (method : String) (args : List Value) : Option Value :=
  let text (r : List Char) : Option Value := some (.string (String.ofList r))
  match method, args with
  | "ToUpper", [] | "ToUpperInvariant", [] => text (Text.toUpper cs)
  | "ToLower", [] | "ToLowerInvariant", [] => text (Text.toLower cs)
  | "Trim", [] => text (Text.trim cs)
  | "TrimStart", [] => text (Text.trimStart cs)
  | "TrimEnd", [] => text (Text.trimEnd cs)
  | "Contains", [.string s] => some (.bool (Text.find? s.toList cs).isSome)
  | "StartsWith", [.string s] => some (.bool (s.toList.isPrefixOf cs))
  | "EndsWith", [.string s] => some (.bool (s.toList.isSuffixOf cs))
  | "IndexOf", [.string s] =>
    match Text.find? s.toList cs with
    | some k => (Checked.ofNat? k).map .int
    | none => some (.int (-1))
  | "Replace", [.string old, .string new] => text (Text.replace old.toList new.toList cs)
  | "Substring", [start] => do text (cs.drop (← natural? start))
  | "Substring", [start, count] => do
    let start ← natural? start
    let count ← natural? count
    text ((cs.drop start).take count)
  | _, _ => none

/-- A method of a text. -/
def callOnText (cs : List Char) (method : String) (args : List Value) : Evaluation Value :=
  match method, args with
  | "PadLeft", width :: rest => return .string (String.ofList ((← padding cs width rest) ++ cs))
  | "PadRight", width :: rest => return .string (String.ofList (cs ++ (← padding cs width rest)))
  | _, _ => .ofOption (callOnText? cs method args)

/-! ## Dates and times -/

/-- The length in seconds of the unit by which a method moves a time. -/
def stepSeconds? : String → Option (Float → Float)
  | "AddDays" => some (· * 86400)
  | "AddHours" => some (· * 3600)
  | "AddMinutes" => some (· * 60)
  | "AddSeconds" => some id
  | "AddMilliseconds" => some (· / 1000)
  | _ => none

/-- A method of a moment. -/
def callOnMoment (m : Moment) (method : String) (arg : Value) : Option Value :=
  match method with
  | "AddYears" => do return .moment (← m.addMonths (12 * (← arg.toInt?).toInt))
  | "AddMonths" => do return .moment (← m.addMonths (← arg.toInt?).toInt)
  | "Add" => add (.moment m) arg
  | "Subtract" => sub (.moment m) arg
  | _ => do
    let seconds ← stepSeconds? method
    let amount ← arg.toFloat?
    return .moment (← m.add (spanOfSeconds (seconds amount)))

/-- A method of a date. Moving it by more days than any duration has is a fault. -/
def callOnDate (d : Date) (method : String) (arg : Value) : Evaluation Value := do
  match method with
  | "AddYears" =>
    let n ← .ofOption arg.toInt?
    return .date (← .ofOption (d.addMonths (12 * n.toInt)))
  | "AddMonths" =>
    let n ← .ofOption arg.toInt?
    return .date (← .ofOption (d.addMonths n.toInt))
  | "AddDays" =>
    let n ← .ofOption arg.toInt?
    match Duration.of? (n.toInt * Duration.day) with
    | some _ => return .date (← .ofOption (d.addDays n.toInt))
    | none => throw (.fault .daysBeyondDuration)
  | _ => .unevaluable

/-- A method of a time of day; midnights passed do not count. -/
def callOnTime (t : Clock) (method : String) (arg : Value) : Option Value := do
  if method ≠ "AddHours" ∧ method ≠ "AddMinutes" then none
  let seconds ← stepSeconds? method
  let amount ← arg.toFloat?
  return .time (t.add (spanOfSeconds (seconds amount))).1

/-! ## Methods of values -/

/-- The methods of a value that depend on its type. -/
def callOnTyped (target : Value) (method : String) (args : List Value) : Evaluation Value :=
  match target, args with
  | .string s, _ => callOnText s.toList method args
  | .list items, [arg] =>
    if method = "Contains" then return .bool (items.any (·.equals arg)) else .unevaluable
  | .moment m, [arg] => .ofOption (callOnMoment m method arg)
  | .date d, [arg] => callOnDate d method arg
  | .time t, [arg] => .ofOption (callOnTime t method arg)
  | .span _, [arg] =>
    if method = "Add" then .ofOption (add target arg)
    else if method = "Subtract" then .ofOption (sub target arg)
    else .unevaluable
  | _, _ => .unevaluable

/-- A method of a value. -/
def callOn (target : Value) (method : String) (args : List Value) : Evaluation Value :=
  match method, args with
  | "ToString", [] => return .string target.concatText
  | "ToString", [wanted] => do
    let wanted ← .ofOption wanted.toText?
    return .string (← format target wanted)
  | "Equals", [other] => return .bool (target.equals other)
  | "CompareTo", [other] => .ofOption ((target.compare? other).map orderValue)
  | "IsNull", [other] => return if target.isNull then other else target
  | _, _ => callOnTyped target method args

/-! ## Methods of types -/

/-- A power of ten by repeated squaring, `base` being the square reached so far. -/
private def powerFrom (base result : Float) : Nat → Nat → Float
  | 0, _ => result
  | fuel + 1, n =>
    let result := if n % 2 = 1 then result * base else result
    if n / 2 = 0 then result else powerFrom (base * base) result fuel (n / 2)

/-- A power of ten with a whole exponent, in floating-point steps. -/
def powerOfTen (n : Int) : Float :=
  let power := powerFrom 10 1 32 n.natAbs
  if n < 0 then 1 / power else power

/-- A number rounded to decimal places; a half goes away from zero. -/
def roundTo (x : Float) (places : Int) : Float :=
  let factor := powerOfTen places
  (x * factor).round / factor

/-- The sign of a number as minus one or one; zero for what is no number. A zero has its sign. -/
def signOf (x : Float) : Int64 :=
  match Number.read x with
  | .notANumber => 0
  | .infinite negative => if negative then -1 else 1
  | .finite v => if v.negative then -1 else 1

/-- The functions of one number. -/
def mathOfOne? : String → Option (Float → Float)
  | "Abs" => some Float.abs
  | "Ceiling" => some Float.ceil
  | "Floor" => some Float.floor
  | "Truncate" => some fun x => if x < 0 then x.ceil else x.floor
  | "Round" => some Float.round
  | "Sqrt" => some Float.sqrt
  | "Exp" => some Float.exp
  | "Log" => some Float.log
  | "Log10" => some Float.log10
  | _ => none

/-- A method of numbers. -/
def callOfMath (method : String) (args : List Value) : Option Value :=
  match method, args with
  | "Abs", [.int n] => (Checked.abs n).map .int
  | "Sign", [arg] => arg.toFloat?.map fun x => .int (signOf x)
  | _, [arg] => do return .float ((← mathOfOne? method) (← arg.toFloat?))
  | "Round", [arg, places] => do
    let n ← places.toInt?
    if n.toInt < -0x80000000 ∨ 0x80000000 ≤ n.toInt then none
    return .float (roundTo (← arg.toFloat?) n.toInt)
  | "Pow", [base, exponent] => do return .float ((← base.toFloat?).pow (← exponent.toFloat?))
  | "Max", [a, b] => (a.compare? b).map fun o => if o == .lt then b else a
  | "Min", [a, b] => (a.compare? b).map fun o => if o == .lt then a else b
  | _, _ => none

/-- The type that a conversion method converts to. -/
def conversionTarget? : String → Option HostType
  | "ToByte" => some .byte
  | "ToInt16" => some .int16
  | "ToInt32" => some .int32
  | "ToInt64" => some .int64
  | "ToDouble" | "ToSingle" => some .double
  | "ToDecimal" => some .decimal
  | "ToString" => some .string
  | _ => none

/-- A conversion method. -/
def callOfConvert (method : String) (arg : Value) : Option Value :=
  if method = "ToBoolean" then
    match arg with
    | .bool b => some (.bool b)
    | v => v.toFloat?.map fun x => .bool (x != 0)
  else (conversionTarget? method).bind (convert arg)

/-- The seconds of the unit in which a method counts. -/
def unitSeconds? : String → Option Float
  | "FromDays" => some 86400
  | "FromHours" => some 3600
  | "FromMinutes" => some 60
  | "FromSeconds" => some 1
  | "FromMilliseconds" => some 0.001
  | _ => none

/-- Whether null or a text has nothing in it that passes a test. -/
def lacks (test : Char → Bool) : Value → Option Value
  | .null => some (.bool true)
  | .string s => some (.bool (!s.toList.any test))
  | _ => none

/-- A method of texts. -/
def callOfText (method : String) (args : List Value) : Evaluation Value :=
  match method, args with
  | "IsNullOrEmpty", [arg] => .ofOption (lacks (fun _ => true) arg)
  | "IsNullOrWhiteSpace", [arg] => .ofOption (lacks (fun c => !Text.isBlank c) arg)
  | "Concat", _ => return .string (String.join (args.map Value.concatText))
  | "Format", wanted :: rest => do
    let wanted ← .ofOption wanted.toText?
    return .string (← composite wanted rest)
  | "Compare", [a, b] => .ofOption ((a.compare? b).map orderValue)
  | _, _ => .unevaluable

/-- The number of days of a month. -/
def daysOfMonth? (year month : Int) : Option Value := do
  if month < 0 then none
  let first ← Date.of? year month.toNat 1
  let next ← first.addMonths 1
  return .int (Int64.ofInt (next.dayNumber - first.dayNumber))

/-- A method of moments. -/
def callOfMoments (method : String) (args : List Value) : Option Value :=
  match method, args with
  | "IsLeapYear", [year] => year.toInt?.map fun y => .bool (isLeapYear y.toInt)
  | "DaysInMonth", [year, month] => do
    daysOfMonth? (← year.toInt?).toInt (← month.toInt?).toInt
  | _, _ => none

/-- The methods of types by type. -/
def callOfTyped (type method : String) (args : List Value) : Evaluation Value :=
  match type, args with
  | "String", _ | "string", _ => callOfText method args
  | "Math", _ => .ofOption (callOfMath method args)
  | "Convert", [arg] => .ofOption (callOfConvert method arg)
  | "TimeSpan", [arg] => .ofOption do
    let unit ← unitSeconds? method
    let amount ← arg.toFloat?
    return .span (spanOfSeconds (amount * unit))
  | "DateTime", _ => .ofOption (callOfMoments method args)
  | "DateOnly", [.moment m] =>
    if method = "FromDateTime" then return .date m.date else .unevaluable
  | "TimeOnly", [.moment m] =>
    if method = "FromDateTime" then return .time m.time else .unevaluable
  | _, _ => .unevaluable

/-- A method of a type. Every type can tell whether two values are equal. -/
def callOf (type method : String) (args : List Value) : Evaluation Value :=
  match method, args with
  | "Equals", [a, b] => return .bool (a.equals b)
  | _, _ => callOfTyped type method args

end LambdaSql.Host
