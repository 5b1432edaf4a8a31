/-!
# Dates

The proleptic Gregorian calendar over the years -262143 to 262142. A date is a valid triple of
year, month and day; the number of days since 0001-01-01 orders dates and carries their
arithmetic.

## Main definitions

* `Calendar.isLeapYear`, `Calendar.daysInMonth` - the calendar's rules.
* `Calendar.Date`, `Calendar.Date.of?` - valid dates.
* `Calendar.Date.dayNumber`, `Calendar.Date.ofDayNumber?` - dates as day counts.
* `Calendar.Date.addDays`, `Calendar.Date.addMonths` - date arithmetic; `none` outside the range.
-/

namespace LambdaSql.Calendar

/-- The first year of the calendar. -/
def minYear : Int := -262143

/-- The last year of the calendar. -/
def maxYear : Int := 262142

/-- Every fourth year is a leap year, except centuries that are no multiple of 400. -/
def isLeapYear (year : Int) : Bool :=
  year % 4 = 0 && (year % 100 ≠ 0 || year % 400 = 0)

/-- The number of days of a month of a year; zero for a month that does not exist. -/
def daysInMonth (year : Int) (month : Nat) : Nat :=
  match month with
  | 1 | 3 | 5 | 7 | 8 | 10 | 12 => 31
  | 4 | 6 | 9 | 11 => 30
  | 2 => if isLeapYear year then 29 else 28
  | _ => 0

/-- Whether a year, a month and a day make a date. -/
def isDate (year : Int) (month day : Nat) : Bool :=
  minYear ≤ year && year ≤ maxYear && 1 ≤ day && day ≤ daysInMonth year month

/-- A date of the calendar. -/
structure Date where
  year : Int
  month : Nat
  day : Nat
  valid : isDate year month day = true
deriving DecidableEq, Repr

/-- The date with these parts, if there is one. -/
def Date.of? (year : Int) (month day : Nat) : Option Date :=
  if h : isDate year month day = true then some ⟨year, month, day, h⟩ else none

/-- The number of days from 0001-01-01 to the first day of a year. -/
def daysBeforeYear (year : Int) : Int :=
  let y := year - 1
  365 * y + y / 4 - y / 100 + y / 400

/-- The number of days of a year before the first day of a month. -/
def daysBeforeMonth (year : Int) : Nat → Nat
  | 0 => 0
  | m + 1 => daysBeforeMonth year m + daysInMonth year m

/-- The position of a date within its year, starting at one. -/
def Date.dayOfYear (d : Date) : Nat := daysBeforeMonth d.year d.month + d.day

/-- The number of days from 0001-01-01 to a date. -/
def Date.dayNumber (d : Date) : Int := daysBeforeYear d.year + d.dayOfYear - 1

/-- The day of the week, counted from Sunday; 0001-01-01 is a Monday. -/
def Date.dayOfWeek (d : Date) : Nat := ((d.dayNumber + 1) % 7).toNat

/-- The year that holds day number `n`. The average year length gives it up to one. -/
def yearOfDay (n : Int) : Int :=
  let guess := 400 * n / 146097 + 1
  if n < daysBeforeYear guess then guess - 1
  else if daysBeforeYear (guess + 1) ≤ n then guess + 1
  else guess

/-- The month and day of the day at zero-based position `n` of a year, from month `m` on. -/
private def monthAndDay (year : Int) : Nat → Nat → Nat → Nat × Nat
  | 0, m, n => (m, n + 1)
  | fuel + 1, m, n =>
    if n < daysInMonth year m then (m, n + 1)
    else monthAndDay year fuel (m + 1) (n - daysInMonth year m)

/-- The date `n` days after 0001-01-01. -/
def Date.ofDayNumber? (n : Int) : Option Date :=
  let year := yearOfDay n
  let (month, day) := monthAndDay year 11 1 (n - daysBeforeYear year).toNat
  Date.of? year month day

/-- The date a number of days later. -/
def Date.addDays (d : Date) (days : Int) : Option Date := Date.ofDayNumber? (d.dayNumber + days)

/-- The date a number of months later. A day past the end of that month becomes its last day. -/
def Date.addMonths (d : Date) (months : Int) : Option Date :=
  let count := 12 * d.year + d.month - 1 + months
  let year := count / 12
  let month := (count % 12).toNat + 1
  Date.of? year month (min d.day (daysInMonth year month))

/-- Dates in the order of time. -/
def Date.compare (a b : Date) : Ordering := Ord.compare a.dayNumber b.dayNumber

end LambdaSql.Calendar
