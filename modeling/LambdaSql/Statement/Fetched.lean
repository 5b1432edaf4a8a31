import LambdaSql.Host.Evaluate
import LambdaSql.Plan.Scope

/-!
# Fetched rows

## Main definitions

* `Row`, `Row.of`, `Row.get` - a row as it is fetched.
* `Deferred.evaluate` - the value of a projection that was left for evaluation after fetching.
-/

namespace LambdaSql

/-- A row as it is fetched: as many values as columns. -/
structure Row where
  columns : List String
  values : List Value
  shape : columns.length = values.length

namespace Row

/-- The row of columns and values, of which there have to be as many. -/
def of (columns : List String) (values : List Value) : Except Fault Row :=
  if h : columns.length = values.length then return ⟨columns, values, h⟩ else throw .rowShape

/-- The number of columns. -/
def size (r : Row) : Nat := r.columns.length

/-- The value of a column; of two columns of one name the first one counts. -/
def get (r : Row) (column : String) : Except SqlError Value :=
  match (r.columns.zip r.values).lookup column with
  | some v => return v
  | none => throw (.columnNotFound column)

end Row

namespace Deferred

/-- The values of the columns that a projection reads. -/
def bindings (p : Deferred) (r : Row) : Except SqlError Bindings :=
  p.columns.foldlM (fun b c => return b.bind c.param c.member (← r.get c.column)) .none

/-- The value of a projection on a fetched row. -/
def evaluate (p : Deferred) (r : Row) : Compilation Value :=
  match p.bindings r with
  | .error e => throw (.error e)
  | .ok b =>
    match Host.evaluate b p.expr with
    | .ok v => return v
    | .error .unevaluable => throw (.error (.projectionNotEvaluable p.member))
    | .error (.fault f) => throw (.fault f)

end Deferred

end LambdaSql
