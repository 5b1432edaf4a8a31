import LambdaSql.Calendar.Duration

/-!
# Times of day

A time of day is a second of the day and a number of nanoseconds. The nanoseconds of the last second
of a minute may run on to a second `1 000 000 000`: that is the minute's leap second.

## Main definitions

* `Calendar.Clock`, `Calendar.Clock.of?` - valid times.
* `Calendar.Clock.add` - the time after a duration, with the number of midnights passed.
* `Calendar.Clock.since` - the nanoseconds between two times.
-/

namespace LambdaSql.Calendar

/-- The nanoseconds of a second. -/
def nanosPerSecond : Nat := 1000000000

/-- Whether a second of the day and a number of nanoseconds make a time of day. -/
def isClock (second nano : Nat) : Bool :=
  second < 86400 && (nano < nanosPerSecond || (nano < 2 * nanosPerSecond && second % 60 == 59))

/-- A time of day. -/
structure Clock where
  secondOfDay : Nat
  nano : Nat
  valid : isClock secondOfDay nano = true
deriving DecidableEq, Repr

namespace Clock

/-- The time with this second of the day and these nanoseconds, if there is one. -/
def ofSeconds? (second nano : Nat) : Option Clock :=
  if h : isClock second nano = true then some ⟨second, nano, h⟩ else none

/-- The time with these parts, if there is one. -/
def of? (hour minute second nano : Nat) : Option Clock :=
  if hour < 24 ∧ minute < 60 ∧ second < 60 then
    ofSeconds? (hour * 3600 + minute * 60 + second) nano
  else none

/-- The start of the day. -/
def midnight : Clock := ⟨0, 0, by decide⟩

/-- The hour, from 0 to 23. -/
def hour (t : Clock) : Nat := t.secondOfDay / 3600

/-- The minute, from 0 to 59. -/
def minute (t : Clock) : Nat := t.secondOfDay / 60 % 60

/-- The second, from 0 to 59; a leap second counts as part of the second before it. -/
def second (t : Clock) : Nat := t.secondOfDay % 60

/-- Whether a time lies in a leap second. -/
def isLeap (t : Clock) : Bool := nanosPerSecond ≤ t.nano

/-- Quotient and remainder by a second of a nanosecond of the day make a time of day. -/
private theorem isClock_ofDay {n : Nat} (h : n < 86400 * nanosPerSecond) :
    isClock (n / nanosPerSecond) (n % nanosPerSecond) = true := by
  have hs : n / nanosPerSecond < 86400 := Nat.div_lt_of_lt_mul (by rwa [Nat.mul_comm])
  have hn : n % nanosPerSecond < nanosPerSecond := Nat.mod_lt _ (by decide)
  simp [isClock, hs, hn]

/-- A day has 86400 seconds. -/
private theorem toNat_emod_day_lt (n : Int) :
    (n % Duration.day).toNat < 86400 * nanosPerSecond := by
  have hday : Duration.day = 86400000000000 := by decide
  rw [hday]
  simp only [nanosPerSecond]
  omega

/-- The time at a number of nanoseconds after midnight, and the midnights before or after it. -/
def ofNanos (n : Int) : Clock × Int :=
  let inDay := (n % Duration.day).toNat
  (⟨inDay / nanosPerSecond, inDay % nanosPerSecond, isClock_ofDay (toNat_emod_day_lt n)⟩,
    n / Duration.day)

/-- The time after a duration, and the number of midnights passed (negative when going back). A
leap second is left forward as if it were the second before it and backward as if it were the
second after it; a step that stays within it only changes the nanoseconds. -/
def add (t : Clock) (d : Duration) : Clock × Int :=
  let here : Int := (t.secondOfDay : Int) * nanosPerSecond + t.nano
  if t.isLeap then
    let after := t.nano + d.nanos
    if 2 * nanosPerSecond ≤ after then ofNanos (here - nanosPerSecond + d.nanos)
    else if d.nanos ≤ -nanosPerSecond then ofNanos (here + d.nanos)
    else
      match ofSeconds? t.secondOfDay after.toNat with
      | some moved => (moved, 0)
      | none => (t, 0)
  else ofNanos (here + d.nanos)

/-- The nanoseconds from `b` to `a`. A leap second counts when it lies between the two. -/
def since (a b : Clock) : Int :=
  let seconds : Int := (a.secondOfDay : Int) - b.secondOfDay
  let leap : Int :=
    if b.secondOfDay < a.secondOfDay && b.isLeap then 1
    else if a.secondOfDay < b.secondOfDay && a.isLeap then -1
    else 0
  (seconds + leap) * nanosPerSecond + ((a.nano : Int) - b.nano)

/-- Times in the order of the day. -/
def compare (a b : Clock) : Ordering :=
  (Ord.compare a.secondOfDay b.secondOfDay).then (Ord.compare a.nano b.nano)

end Clock

end LambdaSql.Calendar
