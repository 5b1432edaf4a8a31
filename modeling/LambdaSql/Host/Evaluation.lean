import LambdaSql.Fault

/-!
# Evaluation

Expressions that read no column have a value before any database is asked. Evaluation either finds
it, or finds that there is none, or comes upon a fault.

## Main definitions

* `Halt`, `Evaluation` - how an evaluation ends without a value, and its results.
* `Evaluation.ofOption` - a value that may be missing.
* `Evaluation.attempt` - a missing value as a result.
-/

namespace LambdaSql

/-- Why an evaluation ends without a value. -/
inductive Halt where
  /-- There is no value. -/
  | unevaluable
  | fault (f : Fault)
deriving DecidableEq, Repr

/-- The result of an evaluation. -/
abbrev Evaluation (α : Type) := Except Halt α

namespace Evaluation

variable {α : Type}

/-- No value. -/
def unevaluable : Evaluation α := .error .unevaluable

/-- A value that may be missing. -/
def ofOption : Option α → Evaluation α
  | some a => .ok a
  | none => unevaluable

/-- An evaluation whose missing value is a result; only a fault is still an end. -/
def attempt : Evaluation α → Except Fault (Option α)
  | .ok a => .ok (some a)
  | .error .unevaluable => .ok none
  | .error (.fault f) => .error f

end Evaluation

end LambdaSql
