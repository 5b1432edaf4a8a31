import LambdaSql.Statement.Query

/-!
# Statements

## Main definitions

* `Assignment`, `Update` - updates, of one statement or of one for each of several rows.
* `Delete` - deletions.
* `Statement` - any of the statements that a batch consists of.
-/

namespace LambdaSql

/-- What an update assigns. -/
inductive Assignment where
  /-- The members of the object that a lambda returns. -/
  | lambda (l : Lambda)
  | field (member : String) (value : Expr)
  | value (member : String) (value : Value)
  /-- The members of a record, whose key members tell which row is meant. -/
  | object (r : Record)

/-- An update. -/
structure Update where
  entity : String
  assignments : List Assignment := []
  /-- The rows of a bulk update. -/
  rows : Option (List Record) := none
  /-- The only members of records that are assigned; none stands for all. -/
  only : List String := []
  /-- The members of records that are not assigned. -/
  ignored : List String := []
  joins : List Join := []
  filters : List Lambda := []
  /-- The keys of the rows that are updated. -/
  keyRows : List Record := []

namespace Update

/-- Whether each of several rows is updated by a statement of its own. -/
def isBulk (u : Update) : Bool := u.rows.isSome

/-- Whether a member of a record is assigned. -/
def includes (u : Update) (member : String) : Bool :=
  (u.only.isEmpty || u.only.contains member) && !u.ignored.contains member

/-- A further assignment. -/
def assign (u : Update) (a : Assignment) : Update :=
  { u with assignments := u.assignments ++ [a] }

/-- Assignments of the members of the object that a lambda returns. -/
def set (u : Update) (e : Expr) : Update := u.assign (.lambda e.toLambda)

/-- A further table. -/
def innerJoin (u : Update) (source : Source) (on : Expr) : Update :=
  { u with joins := u.joins ++ [⟨.inner, source, on.toLambda, none⟩] }

/-- A further test of the rows. -/
def filter (u : Update) (test : Expr) : Update :=
  { u with filters := u.filters ++ [test.toLambda] }

/-- Further keys of rows. -/
def whereKeys (u : Update) (rows : List Record) : Update :=
  { u with keyRows := u.keyRows ++ rows }

/-- Further members to which the assignments of records are limited. -/
def onlyFields (u : Update) (members : List String) : Update :=
  { u with only := u.only ++ members }

/-- Further members that records do not assign. -/
def ignoreFields (u : Update) (members : List String) : Update :=
  { u with ignored := u.ignored ++ members }

end Update

/-- A deletion. -/
structure Delete where
  entity : String
  filters : List Lambda := []
  /-- The keys of the rows that are deleted. -/
  keyRows : List Record := []

namespace Delete

/-- A further test of the rows. -/
def filter (s : Delete) (test : Expr) : Delete :=
  { s with filters := s.filters ++ [test.toLambda] }

/-- Further keys of rows. -/
def whereKeys (s : Delete) (rows : List Record) : Delete :=
  { s with keyRows := s.keyRows ++ rows }

end Delete

/-- A statement of a batch. -/
inductive Statement where
  | select (q : Query)
  | update (u : Update)
  | delete (s : Delete)

end LambdaSql
