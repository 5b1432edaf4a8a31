import LambdaSql.Value.Basic

/-!
# Expressions and queries

Expressions are trees over lambda parameters; queries are clauses of lambdas over tables. The two
contain each other: a query may stand in an expression, and a table may itself be a query. The
clauses of a query are therefore described for any type of expressions `E` and of sources `S`, and
tied together in `Expr` and `Source`.

## Main definitions

* `LambdaOf`, `JoinOf`, `ProjectionOf`, `QueryOf`, `CteOf` - the clauses.
* `Expr`, `Source` - expressions, and what a query reads from.
* `Lambda`, `Join`, `Projection`, `Query`, `Cte` - the clauses over them.
* `Expr.toLambda` - an expression as a lambda.
* `Expr.isNullValue`, `Expr.isCall` and their neighbours - what an expression is.
-/

namespace LambdaSql

/-- A binary operator. -/
inductive BinaryOp where
  | eq | ne | lt | le | gt | ge
  | and | or
  | add | sub | mul | div | mod
  | coalesce
  | bitAnd | bitOr
deriving DecidableEq, Repr

/-- Whether an operator compares its operands. -/
def BinaryOp.isComparison : BinaryOp → Bool
  | eq | ne | lt | le | gt | ge => true
  | _ => false

/-- A unary operator. -/
inductive UnaryOp where
  | not | negate
deriving DecidableEq, Repr

/-- A body with parameters that are bound by position. -/
structure LambdaOf (E : Type) where
  params : List String
  body : E

/-- Which rows without a partner a join keeps. -/
inductive JoinKind where
  | inner | left | right
deriving DecidableEq, Repr

/-- A joined table with its condition. -/
structure JoinOf (E S : Type) where
  kind : JoinKind
  source : S
  on : LambdaOf E
  aliasName : Option String

/-- What a query returns: the value of a lambda, or the first table's columns and more. -/
inductive ProjectionOf (E : Type) where
  | select (l : LambdaOf E)
  | flatten (l : LambdaOf E)

/-- A query. -/
structure QueryOf (E S : Type) where
  source : S
  aliasName : Option String
  joins : List (JoinOf E S)
  filters : List (LambdaOf E)
  groupBy : Option (LambdaOf E)
  having : List (LambdaOf E)
  /-- The sort keys, each with whether it sorts downward. -/
  orderBy : List (LambdaOf E × Bool)
  projection : Option (ProjectionOf E)
  distinct : Bool
  limit : Option Nat
  offset : Option Nat

/-- A common table expression: an anchor query and possibly a second one united with it. -/
structure CteOf (Q : Type) where
  name : String
  /-- The declared columns; none stands for those of the anchor. -/
  columns : List String
  anchor : Q
  union : Option Q
  /-- Whether it is declared to read itself. -/
  recursive : Bool

mutual

/-- An expression. -/
inductive Expr where
  | lambda (params : List String) (body : Expr)
  /-- A lambda parameter. -/
  | param (name : String)
  | member (target : Expr) (name : String)
  /-- A member of a type. -/
  | static (type name : String)
  /-- A call on a target or, without one, of a type. -/
  | call (target : Option Expr) (type : Option String) (method : String) (args : List Expr)
  | binary (op : BinaryOp) (left right : Expr)
  | unary (op : UnaryOp) (operand : Expr)
  | conditional (test ifTrue ifFalse : Expr)
  /-- An object with named members. -/
  | object (members : List (String × Expr))
  | array (items : List Expr)
  | constant (value : Value)
  /-- A value that was at hand when the expression was built. -/
  | captured (name : String) (value : Value)
  | convert (operand : Expr) (target : HostType)
  | query (q : QueryOf Expr Source)

/-- What a query reads from. -/
inductive Source where
  | entity (name : String)
  | derived (q : QueryOf Expr Source)
  | cte (c : CteOf (QueryOf Expr Source))
  /-- The common table expression in whose second query it stands. -/
  | selfRef (name : String)

end

/-- A lambda over expressions. -/
abbrev Lambda := LambdaOf Expr

/-- A joined table. -/
abbrev Join := JoinOf Expr Source

/-- What a query returns. -/
abbrev Projection := ProjectionOf Expr

/-- A query. -/
abbrev Query := QueryOf Expr Source

/-- A common table expression. -/
abbrev Cte := CteOf Query

instance : Inhabited Expr := ⟨.constant .null⟩

namespace Expr

/-- An expression as a lambda; one that is none has no parameters. -/
def toLambda : Expr → Lambda
  | lambda params body => ⟨params, body⟩
  | e => ⟨[], e⟩

/-- The parameters of a lambda. -/
def lambdaParams? : Expr → Option (List String)
  | lambda params _ => some params
  | _ => none

/-- The value that an expression plainly is: a constant or a captured value. -/
def plainValue? : Expr → Option Value
  | constant v | captured _ v => some v
  | _ => none

/-- An expression without conversions around it. -/
def withoutConversions : Expr → Expr
  | convert operand _ => withoutConversions operand
  | e => e

/-- Whether an expression is null at hand. -/
def isNullValue (e : Expr) : Bool := e.withoutConversions.plainValue?.any Value.isNull

/-- Whether an expression is a value by itself: a constant, a captured value or a member of a
type. -/
def isBare : Expr → Bool
  | constant _ | captured .. | static .. => true
  | _ => false

/-- Whether an expression is a conditional. -/
def isConditional : Expr → Bool
  | conditional .. => true
  | _ => false

/-- The members of an object. -/
def objectMembers? : Expr → Option (List (String × Expr))
  | object members => some members
  | _ => none

mutual

/-- Whether a call stands in an expression, lambdas and queries aside. -/
def containsCall : Expr → Bool
  | call .. => true
  | member target _ => containsCall target
  | unary _ operand | convert operand _ => containsCall operand
  | binary _ left right => containsCall left || containsCall right
  | conditional test a b => containsCall test || containsCall a || containsCall b
  | object members => membersContainCall members
  | array items => itemsContainCall items
  | lambda .. | param _ | static .. | constant _ | captured .. | query _ => false

/-- Whether a call stands in one of several expressions. -/
def itemsContainCall : List Expr → Bool
  | [] => false
  | e :: rest => containsCall e || itemsContainCall rest

/-- Whether a call stands in one of several members. -/
def membersContainCall : List (String × Expr) → Bool
  | [] => false
  | (_, e) :: rest => containsCall e || membersContainCall rest

end

mutual

/-- The parameters' members that an expression reads, from left to right, each once; `seen` are
those already met. -/
def readsAfter (seen : List (String × String)) : Expr → List (String × String)
  | member (param p) name => if seen.contains (p, name) then seen else seen ++ [(p, name)]
  | member target _ => readsAfter seen target
  | call (some target) _ _ args => itemsReadAfter (readsAfter seen target) args
  | call none _ _ args => itemsReadAfter seen args
  | binary _ left right => readsAfter (readsAfter seen left) right
  | unary _ operand | convert operand _ => readsAfter seen operand
  | conditional test a b => readsAfter (readsAfter (readsAfter seen test) a) b
  | object members => membersReadAfter seen members
  | array items => itemsReadAfter seen items
  | lambda _ body => readsAfter seen body
  | param _ | static .. | constant _ | captured .. | query _ => seen

/-- The parameters' members that several expressions read after others. -/
def itemsReadAfter (seen : List (String × String)) : List Expr → List (String × String)
  | [] => seen
  | e :: rest => itemsReadAfter (readsAfter seen e) rest

/-- The parameters' members that several members read after others. -/
def membersReadAfter (seen : List (String × String)) : List (String × Expr) →
    List (String × String)
  | [] => seen
  | (_, e) :: rest => membersReadAfter (readsAfter seen e) rest

end

/-- The parameters' members that an expression reads, from left to right, each once. -/
def reads (e : Expr) : List (String × String) := readsAfter [] e

end Expr

end LambdaSql
