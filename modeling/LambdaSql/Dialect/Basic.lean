import LambdaSql.Dialect.Function

/-!
# Dialects

A dialect says how names, texts, functions and limits are written for one database.

## Main definitions

* `Dialect` - the decisions of a dialect.
* `Dialect.qualifiedTable` - the name of a table with its schema.
-/

namespace LambdaSql

/-- The decisions of a dialect. -/
structure Dialect where
  name : String
  quoteIdentifier : String → String
  quoteText : String → String
  boolLiteral : Bool → String
  /-- The text of a call, in which the arguments stand as numbered places in braces. -/
  template : SqlFunction → String
  /-- A format text for dates in the database's own notation. -/
  dateFormat? : String → Option String
  /-- The clause that limits the number of rows and skips some. -/
  limitClause : Option Nat → Option Nat → String

/-- The name of a table with its schema. -/
def Dialect.qualifiedTable (d : Dialect) (table : String) : Option String → String
  | some schema => d.quoteIdentifier schema ++ "." ++ d.quoteIdentifier table
  | none => d.quoteIdentifier table

end LambdaSql
