import LambdaSql.Expr.Basic
import LambdaSql.Translation.Basic

/-!
# Origins

Where the value of an expression comes from decides how it appears in a statement: constants are
written out, captured values are bound, and everything else is computed by the database.

## Main definitions

* `Origin` - the three origins in the order in which they prevail.
* `Expr.origin` - the origin of an expression.
-/

namespace LambdaSql

/-- Where a value comes from. -/
inductive Origin where
  | constant
  | captured
  /-- From the database. -/
  | sql
deriving DecidableEq, Repr

/-- The origin that prevails. -/
def Origin.max : Origin → Origin → Origin
  | .sql, _ | _, .sql => .sql
  | .captured, _ | _, .captured => .captured
  | .constant, .constant => .constant

namespace Expr

/-- The origin of a member of a type. -/
def staticOrigin (t : TranslationTable) (type name : String) : Origin :=
  match t.staticOf? type name with
  | some (.function ..) => .sql
  | _ => .constant

mutual

/-- The origin of an expression: the one that prevails among its parts. -/
def origin (t : TranslationTable) : Expr → Origin
  | constant _ => .constant
  | captured .. => .captured
  | param _ | lambda .. | query _ => .sql
  | static type name => staticOrigin t type name
  | member inner _ | unary _ inner | convert inner _ => origin t inner
  | call (some target) type _ args =>
    if type = some "Sql" then .sql else (origin t target).max (originOfItems t args)
  | call none type _ args => if type = some "Sql" then .sql else originOfItems t args
  | binary _ left right => (origin t left).max (origin t right)
  | conditional test a b => ((origin t test).max (origin t a)).max (origin t b)
  | object members => originOfMembers t members
  | array items => originOfItems t items

/-- The origin that prevails among several expressions. -/
def originOfItems (t : TranslationTable) : List Expr → Origin
  | [] => .constant
  | e :: rest => (origin t e).max (originOfItems t rest)

/-- The origin that prevails among several members. -/
def originOfMembers (t : TranslationTable) : List (String × Expr) → Origin
  | [] => .constant
  | (_, e) :: rest => (origin t e).max (originOfMembers t rest)

end

end Expr

end LambdaSql
