import LambdaSql.Calendar.Format
import LambdaSql.Proofs.Reading.Numerals
import Mathlib.Data.List.Basic

/-!
# Durations are read back

The text of a duration is that of its parts: perhaps a sign, perhaps a number of days, hours, minutes, seconds and
microseconds. Reading the text gives back the duration, cut to whole microseconds.

## Main definitions

* `Calendar.SpanText` - the parts of the text of a duration.
* `Calendar.SpanText.read?` - reading a text `[-][D.]HH:MM:SS.ffffff`.
* `Calendar.SpanText.micros` - the microseconds that a text denotes.
* `Calendar.Duration.parts` - the parts of a duration.

## Main results

* `Calendar.Duration.read_text` - the text of a duration is read as its parts.
* `Calendar.Duration.text_exact` - the text of a duration is exact to the microsecond.
-/

namespace LambdaSql

namespace Calendar

/-! ## Reading -/

/-- The parts of the text of a duration. -/
structure SpanText where
  negative : Bool
  days : Option Nat
  hours : Nat
  minutes : Nat
  seconds : Nat
  fraction : Nat
deriving DecidableEq, Repr

namespace SpanText

/-- A number of exactly so many digits. -/
def digits? (width : Nat) (cs : List Char) : Option Nat :=
  if cs.length = width ∧ cs.all Number.isDigit then some (Number.ofDigits cs) else none

/-- A number of one digit or more. -/
def count? (cs : List Char) : Option Nat :=
  if cs ≠ [] ∧ cs.all Number.isDigit then some (Number.ofDigits cs) else none

/-- What stands before the minutes: the days with a point, if there are any, and the hours. -/
def daysAndHours? (cs : List Char) : Option (Option Nat × Nat) :=
  match Text.splitOnce '.' cs with
  | some (days, hours) => do return (some (← count? days), ← digits? 2 hours)
  | none => do return (none, ← digits? 2 cs)

/-- The parts of a text without its sign. -/
def ofUnsigned? (negative : Bool) (cs : List Char) : Option SpanText := do
  let (first, cs) ← Text.splitOnce ':' cs
  let (minutes, cs) ← Text.splitOnce ':' cs
  let (seconds, fraction) ← Text.splitOnce '.' cs
  let (days, hours) ← daysAndHours? first
  return ⟨negative, days, hours, ← digits? 2 minutes, ← digits? 2 seconds, ← digits? 6 fraction⟩

/-- The parts of a text `[-][D.]HH:MM:SS.ffffff`. -/
def read? (text : String) : Option SpanText :=
  match text.toList with
  | '-' :: cs => ofUnsigned? true cs
  | cs => ofUnsigned? false cs

/-- The microseconds that a text denotes. -/
def micros (t : SpanText) : Int :=
  let size := (((t.days.getD 0 * 24 + t.hours) * 60 + t.minutes) * 60 + t.seconds) * 1000000 + t.fraction
  if t.negative then -size else size

/-- A padded number is read as the number. -/
private theorem digits?_padLeft {width n : Nat} (hwidth : 0 < width) (h : n < 10 ^ width) :
    digits? width (Number.padLeft width n) = some n := by
  have hdigits : (Number.padLeft width n).all Number.isDigit = true :=
    List.all_eq_true.mpr fun _ => Number.isDigit_of_mem_padLeft
  rw [digits?, if_pos ⟨Number.length_padLeft hwidth h, hdigits⟩, Number.ofDigits_padLeft]

/-- A number in decimal is read as the number. -/
private theorem count?_toDigits (n : Nat) : count? (Nat.toDigits 10 n) = some n := by
  have hdigits : (Nat.toDigits 10 n).all Number.isDigit = true :=
    List.all_eq_true.mpr fun _ => Number.isDigit_of_mem_toDigits
  rw [count?, if_pos ⟨Nat.toDigits_ne_nil, hdigits⟩, Number.ofDigits_toDigits]

end SpanText

namespace Duration

variable (d : Duration)

/-! ## The parts of a duration -/

/-- The whole seconds of a duration, whatever its direction. -/
def wholeSeconds : Nat := d.nanos.natAbs / nanosPerSecond

/-- The parts of a duration. -/
def parts : SpanText where
  negative := d.nanos < 0
  days := if 0 < d.wholeSeconds / 86400 then some (d.wholeSeconds / 86400) else none
  hours := d.wholeSeconds / 3600 % 24
  minutes := d.wholeSeconds / 60 % 60
  seconds := d.wholeSeconds % 60
  fraction := d.nanos.natAbs % nanosPerSecond / 1000

/-- There are fewer than 24 hours beside the days. -/
private theorem hours_lt : d.parts.hours < 24 := Nat.mod_lt _ (by decide)

/-- There are fewer than 60 minutes beside the hours. -/
private theorem minutes_lt : d.parts.minutes < 60 := Nat.mod_lt _ (by decide)

/-- There are fewer than 60 seconds beside the minutes. -/
private theorem seconds_lt : d.parts.seconds < 60 := Nat.mod_lt _ (by decide)

/-- There is less than a second beside the seconds. -/
private theorem fraction_lt : d.parts.fraction < 10 ^ 6 := by
  simp only [parts, nanosPerSecond]
  omega

/-- There are days if the duration is at least one day long. -/
theorem isSome_days : d.parts.days.isSome = true ↔ day ≤ d.nanos.natAbs := by
  have hday : day = 86400000000000 := by decide
  have hdays : d.parts.days.isSome = true ↔ 0 < d.wholeSeconds / 86400 := by
    rw [parts]
    split <;> simp [*]
  rw [hdays, hday, wholeSeconds, nanosPerSecond]
  omega

/-- The parts denote the duration, cut to whole microseconds.

**Proof sketch.** The parts add up to the size of the duration in whole microseconds, and the sign is put before them.
Cutting towards zero is the same for a duration and its opposite. -/
theorem micros_parts : d.parts.micros = d.nanos.tdiv 1000 := by
  have hdays : d.parts.days.getD 0 = d.wholeSeconds / 86400 := by
    rw [parts]
    split
    · rfl
    · next h => exact (Nat.eq_zero_of_not_pos h).symm
  have hsize : (((d.parts.days.getD 0 * 24 + d.parts.hours) * 60 + d.parts.minutes) * 60 + d.parts.seconds) * 1000000 +
      d.parts.fraction = d.nanos.natAbs / 1000 := by
    rw [hdays]
    simp only [parts, wholeSeconds, nanosPerSecond]
    omega
  have hnegative : d.parts.negative = true ↔ d.nanos < 0 := decide_eq_true_iff
  simp only [SpanText.micros, hsize, hnegative]
  split
  · next h =>
    have hback : d.nanos.tdiv 1000 = -((-d.nanos).tdiv 1000) := by rw [Int.neg_tdiv, Int.neg_neg]
    rw [hback, Int.tdiv_eq_ediv_of_nonneg (by omega)]
    omega
  · next h =>
    rw [Int.tdiv_eq_ediv_of_nonneg (Int.not_lt.mp h)]
    omega

/-! ## Its text -/

/-- The days, if there are any, and the hours as they are written. -/
def front : List Char :=
  (if 0 < d.wholeSeconds / 86400 then Nat.toDigits 10 (d.wholeSeconds / 86400) ++ ['.'] else []) ++
    Number.padLeft 2 d.parts.hours

/-- A duration as it is written, but for its sign. -/
def unsigned : List Char :=
  d.front ++ ':' :: (Number.padLeft 2 d.parts.minutes ++ ':' ::
    (Number.padLeft 2 d.parts.seconds ++ '.' :: Number.padLeft 6 d.parts.fraction))

/-- The text of a duration is its sign and its text without sign. -/
private theorem toList_text : d.text.toList = (if d.nanos < 0 then ['-'] else []) ++ d.unsigned := by
  simp only [text, unsigned, front, String.toList_ofList, List.append_assoc, List.cons_append]
  rfl

/-- What stands before the minutes consists of digits and perhaps a point. -/
theorem not_mem_front {c : Char} (hc : Number.isDigit c = false) (hpoint : c ≠ '.') : c ∉ d.front := by
  have hhours : c ∉ Number.padLeft 2 d.parts.hours :=
    Text.not_mem_digits hc fun _ => Number.isDigit_of_mem_padLeft
  have hdays : c ∉ Nat.toDigits 10 (d.wholeSeconds / 86400) :=
    Text.not_mem_digits hc fun _ => Number.isDigit_of_mem_toDigits
  rw [front]
  split <;> simp [hhours, hdays, hpoint]

/-- The front of a duration is read as its days and hours. -/
private theorem daysAndHours?_front : SpanText.daysAndHours? d.front = some (d.parts.days, d.parts.hours) := by
  have hhours : SpanText.digits? 2 (Number.padLeft 2 d.parts.hours) = some d.parts.hours :=
    SpanText.digits?_padLeft (by decide) (Nat.lt_trans d.hours_lt (by decide))
  by_cases hdays : 0 < d.wholeSeconds / 86400
  · have hparts : d.parts.days = some (d.wholeSeconds / 86400) := if_pos hdays
    have hpoint : '.' ∉ Nat.toDigits 10 (d.wholeSeconds / 86400) :=
      Text.not_mem_digits rfl fun _ => Number.isDigit_of_mem_toDigits
    rw [front, if_pos hdays, List.append_assoc, List.singleton_append, SpanText.daysAndHours?,
      Text.splitOnce_append hpoint, hparts]
    simp only [SpanText.count?_toDigits, hhours]
    rfl
  · have hparts : d.parts.days = none := if_neg hdays
    have hpoint : '.' ∉ Number.padLeft 2 d.parts.hours :=
      Text.not_mem_digits rfl fun _ => Number.isDigit_of_mem_padLeft
    rw [front, if_neg hdays, List.nil_append, SpanText.daysAndHours?, Text.splitOnce_eq_none hpoint, hparts]
    simp only [hhours]
    rfl

/-- The text without sign is read as the parts of the duration. -/
private theorem ofUnsigned?_unsigned (negative : Bool) :
    SpanText.ofUnsigned? negative d.unsigned = some { d.parts with negative } := by
  have hpadded {c : Char} (hc : Number.isDigit c = false) (n : Nat) (rest : List Char) :
      Text.splitOnce c (Number.padLeft 2 n ++ c :: rest) = some (Number.padLeft 2 n, rest) :=
    Text.splitOnce_append (Text.not_mem_digits hc fun _ => Number.isDigit_of_mem_padLeft) rest
  have hminutes : SpanText.digits? 2 (Number.padLeft 2 d.parts.minutes) = some d.parts.minutes :=
    SpanText.digits?_padLeft (by decide) (Nat.lt_trans d.minutes_lt (by decide))
  have hseconds : SpanText.digits? 2 (Number.padLeft 2 d.parts.seconds) = some d.parts.seconds :=
    SpanText.digits?_padLeft (by decide) (Nat.lt_trans d.seconds_lt (by decide))
  have hfraction := SpanText.digits?_padLeft (by decide) d.fraction_lt
  rw [SpanText.ofUnsigned?, unsigned, Text.splitOnce_append (d.not_mem_front rfl (by decide))]
  simp only [Option.bind_eq_bind, Option.bind_some, hpadded (c := ':') rfl, hpadded (c := '.') rfl,
    d.daysAndHours?_front, hminutes, hseconds, hfraction]
  rfl

/-- The text of a duration is read as its parts. -/
theorem read_text : SpanText.read? d.text = some d.parts := by
  have hsign (rest : List Char) (h : d.unsigned = '-' :: rest) : False := by
    cases hfront : d.front with
    | nil =>
      rw [unsigned, hfront] at h
      exact absurd (List.cons.inj h).1 (by decide)
    | cons c cs =>
      rw [unsigned, hfront] at h
      obtain rfl := (List.cons.inj h).1
      exact d.not_mem_front rfl (by decide) (hfront ▸ List.mem_cons_self)
  rw [SpanText.read?, toList_text]
  by_cases hnegative : d.nanos < 0
  · rw [if_pos hnegative, List.singleton_append]
    exact (d.ofUnsigned?_unsigned true).trans (by rw [parts, decide_eq_true hnegative])
  · rw [if_neg hnegative, List.nil_append]
    split
    · next rest h => exact (hsign rest h).elim
    · rw [ofUnsigned?_unsigned, parts, decide_eq_false hnegative]

/-- **The text of a duration is exact to the microsecond.** It is of the form `[-][D.]HH:MM:SS.ffffff`, with days if the
duration is at least one day long and a sign if it is negative, and denotes the duration, cut to whole microseconds. So
no two durations of whole microseconds have the same text.

**Proof sketch.** The parts of the text are quotients and remainders of the magnitude, each below its bound and padded
to its width, so reading gives them back, and put together again they are the duration in microseconds. A duration of
whole microseconds is determined by these. -/
theorem text_exact :
    ∃ t, SpanText.read? d.text = some t ∧ t.hours < 24 ∧ t.minutes < 60 ∧ t.seconds < 60 ∧ t.fraction < 10 ^ 6 ∧
      (t.days.isSome = true ↔ day ≤ d.nanos.natAbs) ∧ (t.negative = true ↔ d.nanos < 0) ∧
      t.micros = d.nanos.tdiv 1000 ∧
      ∀ e : Duration, 1000 ∣ d.nanos → 1000 ∣ e.nanos → d.text = e.text → d = e := by
  refine ⟨d.parts, d.read_text, d.hours_lt, d.minutes_lt, d.seconds_lt, d.fraction_lt, d.isSome_days,
    decide_eq_true_iff, d.micros_parts, fun e hd he htext => ?_⟩
  have hparts : d.parts = e.parts := Option.some.inj (d.read_text.symm.trans (htext ▸ e.read_text))
  have hmicros : d.nanos.tdiv 1000 = e.nanos.tdiv 1000 := by rw [← micros_parts, ← micros_parts, hparts]
  have hnanos : d.nanos = e.nanos := by
    rw [← Int.tdiv_mul_cancel hd, ← Int.tdiv_mul_cancel he, hmicros]
  cases d
  cases e
  cases hnanos
  rfl

/-- A negative span of a day and a microsecond is read back from its text. -/
theorem dayAndMicrosecond_read :
    ∃ t, SpanText.read? (ofMicros (-86400000001)).text = some t ∧ t.days.isSome = true ∧ t.negative = true ∧
      t.micros = -86400000001 ∧
      ∀ e : Duration, 1000 ∣ e.nanos → (ofMicros (-86400000001)).text = e.text → ofMicros (-86400000001) = e := by
  obtain ⟨t, hread, -, -, -, -, hdays, hnegative, hmicros, hinj⟩ := (ofMicros (-86400000001)).text_exact
  exact ⟨t, hread, hdays.mpr (by decide), hnegative.mpr (by decide), hmicros, fun e => hinj e (by decide)⟩

end Duration

end Calendar

end LambdaSql
