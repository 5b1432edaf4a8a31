import LambdaSql.Dialect.Function
import LambdaSql.Expr.Basic

/-!
# Statement trees

The tree of a statement before it is written: expressions whose columns are resolved and whose
calls are database functions, and the clauses of a selection. Values that will be bound are in the
tree; placeholders for them are chosen when it is written.

As with expressions and queries, nodes and selections contain each other, and the clauses are
described for any type of nodes `N` and of row sources `R`.

## Main definitions

* `SqlOp` - binary operators, with their strength.
* `Deferred` - a projected expression that is evaluated after fetching.
* `SelectOf`, `TableOf`, `JoinedOf`, `SelectedOf` - the clauses.
* `Node`, `Rows` - expressions, and what a selection reads from.
* `Node.type`, `Node.precedence`, `Node.isPredicate`, `Node.containsAggregate`.
-/

namespace LambdaSql

/-- A binary operator of the database. -/
inductive SqlOp where
  | eq | ne | lt | le | gt | ge
  | and | or
  | add | sub | mul | div | intDiv | mod
  | bitAnd | bitOr
deriving DecidableEq, Repr

/-- How strongly an expression holds together that never needs parentheses. -/
def atomPrecedence : Nat := 10

/-- How strongly a minus sign holds. -/
def negatePrecedence : Nat := 9

/-- How strongly a test holds. -/
def predicatePrecedence : Nat := 5

/-- How strongly a negated test holds. -/
def notPrecedence : Nat := 4

namespace SqlOp

/-- The operator as it is written. -/
def text : SqlOp → String
  | eq => "="
  | ne => "<>"
  | lt => "<"
  | le => "<="
  | gt => ">"
  | ge => ">="
  | and => " AND "
  | or => " OR "
  | add => "+"
  | sub => "-"
  | mul => "*"
  | div => "/"
  | intDiv => " DIV "
  | mod => "%"
  | bitAnd => "&"
  | bitOr => "|"

/-- How strongly an operator holds its operands; a larger number holds more strongly. -/
def precedence : SqlOp → Nat
  | mul | div | intDiv | mod => 8
  | add | sub => 7
  | bitAnd | bitOr => 6
  | eq | ne | lt | le | gt | ge => predicatePrecedence
  | and => 3
  | or => 2

/-- Whether operands of an operator may be grouped either way. -/
def isAssociative : SqlOp → Bool
  | add | mul | and | or | bitAnd | bitOr => true
  | _ => false

/-- Whether an operator compares its operands. -/
def isComparison : SqlOp → Bool
  | eq | ne | lt | le | gt | ge => true
  | _ => false

end SqlOp

/-- A unary operator of the database. -/
inductive SqlUnaryOp where
  | not | negate
deriving DecidableEq, Repr

/-! ## Clauses -/

/-- A column of a selection as an enclosing query sees it. -/
structure Output where
  name : String
  type : HostType
deriving DecidableEq, Repr

/-- A member of a lambda parameter that is fetched under a name of its own. -/
structure HiddenColumn where
  param : String
  member : String
  column : String
deriving DecidableEq, Repr

/-- A projected expression that is evaluated on each row after fetching. -/
structure Deferred where
  member : String
  expr : Expr
  columns : List HiddenColumn

/-- A selected expression, with a name when it needs one. -/
structure SelectedOf (N : Type) where
  node : N
  aliasName : Option String

/-- A table in a clause; the alias may be missing where there is only one table. -/
structure TableOf (R : Type) where
  rows : R
  aliasName : Option String

/-- A joined table with its condition. -/
structure JoinedOf (N R : Type) where
  kind : JoinKind
  table : TableOf R
  on : N

/-- A selection. -/
structure SelectOf (N R : Type) where
  distinct : Bool
  columns : List (SelectedOf N)
  table : TableOf R
  joins : List (JoinedOf N R)
  filter : Option N
  groupBy : List N
  having : Option N
  /-- The sort keys, each with whether it sorts downward. -/
  orderBy : List (N × Bool)
  limit : Option Nat
  offset : Option Nat
  /-- The columns as an enclosing query sees them. -/
  shape : List Output
  deferred : List Deferred

mutual

/-- An expression of a statement. -/
inductive Node where
  /-- A literal text, with the value it stands for. -/
  | literal (sql : String) (value : Value) (type : HostType)
  /-- A value to be bound, under a fixed name or a generated one. -/
  | bound (value : Value) (native : NativeType) (name : Option String) (type : HostType)
  | column (aliasName : Option String) (name : String) (type : HostType)
  | binary (op : SqlOp) (left right : Node) (type : HostType)
  | unary (op : SqlUnaryOp) (operand : Node) (type : HostType)
  | call (f : SqlFunction) (args : List Node) (type : HostType)
  | case (branches : List (Node × Node)) (otherwise : Node) (type : HostType)
  | inList (operand : Node) (items : List Node) (negated : Bool)
  | inQuery (operand : Node) (query : SelectOf Node Rows) (negated : Bool)
  | exists (query : SelectOf Node Rows) (negated : Bool)
  | isNull (operand : Node) (negated : Bool)
  /-- The value of a selection of one column. -/
  | subquery (query : SelectOf Node Rows) (type : HostType)
  | group (inner : Node)
  /-- A text that is written as it is. -/
  | raw (text : String) (type : HostType)
  | null

/-- What a selection reads from. -/
inductive Rows where
  | named (name : String) (schema : Option String)
  | derived (query : SelectOf Node Rows)

end

/-- A selected expression. -/
abbrev Selected := SelectedOf Node

/-- A table in a clause. -/
abbrev Table := TableOf Rows

/-- A joined table. -/
abbrev Joined := JoinedOf Node Rows

/-- A selection. -/
abbrev Select := SelectOf Node Rows

instance : Inhabited Node := ⟨.null⟩

/-- A planned common table expression. -/
structure CtePlan where
  name : String
  columns : List String
  anchor : Select
  union : Option Select
  /-- Whether it is declared to read itself, or does. -/
  recursive : Bool

/-! ## Nodes -/

namespace Node

/-- The type of a node. -/
def type : Node → HostType
  | literal _ _ t | bound _ _ _ t | column _ _ t | binary _ _ _ t | unary _ _ t | call _ _ t
  | case _ _ t | subquery _ t | raw _ t => t
  | group inner => type inner
  | inList .. | inQuery .. | .exists .. | isNull .. => .bool
  | null => .unknown

/-- How strongly a node holds together as an operand. -/
def precedence : Node → Nat
  | binary op .. => op.precedence
  | unary .not .. => notPrecedence
  | unary .negate .. => negatePrecedence
  | call f .. => if f.isBarePredicate then predicatePrecedence else atomPrecedence
  | inList .. | inQuery .. | isNull .. => predicatePrecedence
  | .exists _ negated => if negated then notPrecedence else atomPrecedence
  | literal sql .. => if sql.toList.head? = some '-' then negatePrecedence else atomPrecedence
  | _ => atomPrecedence

/-- Whether a node is a test, as opposed to a truth value that has to be tested. -/
def isPredicate : Node → Bool
  | binary op .. => op.isComparison || op == .and || op == .or
  | unary .not .. | inList .. | inQuery .. | .exists .. | isNull .. => true
  | call f .. => f.isPredicate
  | group inner => isPredicate inner
  | raw _ t => t == .bool
  | _ => false

mutual

/-- Whether an aggregate stands in a node, membership tests and selections aside. -/
def containsAggregate : Node → Bool
  | call f args _ => f.isAggregate || anyContainsAggregate args
  | binary _ left right _ => containsAggregate left || containsAggregate right
  | unary _ operand _ | isNull operand _ | group operand => containsAggregate operand
  | case branches otherwise _ =>
    containsAggregate otherwise || branchesContainAggregate branches
  | _ => false

/-- Whether an aggregate stands in one of several nodes. -/
def anyContainsAggregate : List Node → Bool
  | [] => false
  | n :: rest => containsAggregate n || anyContainsAggregate rest

/-- Whether an aggregate stands in one of several branches. -/
def branchesContainAggregate : List (Node × Node) → Bool
  | [] => false
  | (test, value) :: rest =>
    containsAggregate test || containsAggregate value || branchesContainAggregate rest

end

/-- A truth value as a literal. -/
def ofBool (b : Bool) : Node := literal (if b then "1" else "0") (.bool b) .bool

/-- A whole number as a literal. -/
def ofInt (n : Int64) : Node := literal (toString n.toInt) (.int n) .int32

/-- A test that always has the same outcome. -/
def always (b : Bool) : Node := raw (if b then "1=1" else "1=0") .bool

/-- The test that two nodes are equal. -/
def equal (left right : Node) : Node := binary .eq left right .bool

/-- Tests joined by an operator, from the left; `none` when there are none. -/
def joined (op : SqlOp) : List Node → Option Node
  | [] => none
  | n :: rest => some (rest.foldl (fun acc next => binary op acc next .bool) n)

/-- The test that all tests hold. -/
def conjunction (tests : List Node) : Option Node := joined .and tests

end Node

end LambdaSql
