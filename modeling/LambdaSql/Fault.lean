/-!
# Faults

Uses that have no answer at all, not even an error: the caller broke a promise.

## Main definitions

* `Fault` - the causes.
-/

namespace LambdaSql

/-- A broken promise. -/
inductive Fault where
  /-- A format asks a date for its time, or a time for its date. -/
  | fieldNotThere
  /-- A format asks for more decimal places than any number is written with. -/
  | tooManyPlaces
  /-- A number of days beyond every duration. -/
  | daysBeyondDuration
  /-- A text filled up to a width that no memory has room for. -/
  | paddingBeyondMemory
  /-- A row with another number of values than columns. -/
  | rowShape
  /-- Settings are read before they are given. -/
  | settingsMissing
  /-- Settings are given twice. -/
  | settingsGivenTwice
deriving DecidableEq, Repr

end LambdaSql
