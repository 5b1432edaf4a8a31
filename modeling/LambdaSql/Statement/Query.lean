import LambdaSql.Expr.Basic

/-!
# Building queries

A query starts from a source and takes on clauses one by one.

## Main definitions

* `Query.ofSource` and the functions after it - building a query.
* `Cte.anchored` and the functions after it - building a common table expression.
-/

namespace LambdaSql

namespace Query

/-- The query of all rows of a source. -/
def ofSource (source : Source) : Query where
  source := source
  aliasName := none
  joins := []
  filters := []
  groupBy := none
  having := []
  orderBy := []
  projection := none
  distinct := false
  limit := none
  offset := none

/-- Joins of which the last one gets an alias. -/
def aliasLast (aliasName : String) : List Join → List Join
  | [] => []
  | [j] => [{ j with aliasName := some aliasName }]
  | j :: rest => j :: aliasLast aliasName rest

/-- An alias for the table that came last. -/
def aliased (q : Query) (aliasName : String) : Query :=
  if q.joins.isEmpty then { q with aliasName := some aliasName }
  else { q with joins := aliasLast aliasName q.joins }

/-- A further table. -/
def join (q : Query) (kind : JoinKind) (source : Source) (on : Expr) : Query :=
  { q with joins := q.joins ++ [⟨kind, source, on.toLambda, none⟩] }

/-- A further test of the rows. -/
def filter (q : Query) (test : Expr) : Query :=
  { q with filters := q.filters ++ [test.toLambda] }

/-- The keys by which rows are grouped. -/
def groupedBy (q : Query) (key : Expr) : Query := { q with groupBy := some key.toLambda }

/-- A further test of the groups. -/
def havingTest (q : Query) (test : Expr) : Query :=
  { q with having := q.having ++ [test.toLambda] }

/-- A further sort key. -/
def sortedBy (q : Query) (key : Expr) (downward : Bool) : Query :=
  { q with orderBy := q.orderBy ++ [(key.toLambda, downward)] }

/-- What is returned. -/
def select (q : Query) (projection : Expr) : Query :=
  { q with projection := some (.select projection.toLambda) }

/-- What is returned beside the columns of the first table. -/
def selectFlatten (q : Query) (extra : Expr) : Query :=
  { q with projection := some (.flatten extra.toLambda) }

/-- Each row only once. -/
def distinctRows (q : Query) : Query := { q with distinct := true }

/-- At most `n` rows. -/
def take (q : Query) (n : Nat) : Query := { q with limit := some n }

/-- All but the first `n` rows. -/
def skip (q : Query) (n : Nat) : Query := { q with offset := some n }

end Query

namespace Cte

/-- The common table expression of a query. -/
def anchored (name : String) (anchor : Query) : Cte := ⟨name, [], anchor, none, false⟩

/-- With names for the columns. -/
def withColumns (c : Cte) (columns : List String) : Cte := { c with columns := columns }

/-- United with a second query. -/
def unionAll (c : Cte) (q : Query) : Cte := { c with union := some q, recursive := false }

/-- United with a second query that reads it. -/
def unionAllRecursive (c : Cte) (q : Query) : Cte := { c with union := some q, recursive := true }

/-- The common table expression as its second query reads it. -/
def selfRef (c : Cte) : Source := .selfRef c.name

end Cte

end LambdaSql
