import LambdaSql.Calendar.Date
import LambdaSql.Calendar.Clock

/-!
# Moments

A moment is a date with a time of day.

## Main definitions

* `Calendar.Moment` - a date and a time.
* `Calendar.Moment.add`, `Calendar.Moment.addMonths` - arithmetic; `none` outside the calendar.
* `Calendar.Moment.since` - the duration between two moments.
-/

namespace LambdaSql.Calendar

/-- A date with a time of day. -/
structure Moment where
  date : Date
  time : Clock
deriving DecidableEq, Repr

namespace Moment

/-- The moment after a duration. -/
def add (m : Moment) (d : Duration) : Option Moment :=
  let (time, days) := m.time.add d
  (m.date.addDays days).map (⟨·, time⟩)

/-- The moment a number of months later at the same time of day. -/
def addMonths (m : Moment) (months : Int) : Option Moment :=
  (m.date.addMonths months).map (⟨·, m.time⟩)

/-- The duration from `b` to `a`. -/
def since (a b : Moment) : Option Duration :=
  Duration.of? ((a.date.dayNumber - b.date.dayNumber) * Duration.day + a.time.since b.time)

/-- Moments in the order of time. -/
def compare (a b : Moment) : Ordering := (a.date.compare b.date).then (a.time.compare b.time)

end Moment

end LambdaSql.Calendar
