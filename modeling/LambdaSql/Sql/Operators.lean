import LambdaSql.Sql.Literal
import LambdaSql.Sql.Predicate

/-!
# Operators on nodes

How the operators of expressions become operators and functions of the database, depending on the
types of their operands.

## Main definitions

* `Node.comparison` - comparisons, with null as a test of its own.
* `Node.arithmetic`, `Node.difference` - numbers and times.
* `Node.concat` - joined texts.
* `Node.aggregate` - aggregates.
* `Node.retype` - the same node with another type.
* `Node.binaryOperator` - the binary operators that need both operands.
-/

namespace LambdaSql.Node

/-- Whether a node is null, written or bound. -/
def isNullNode : Node → Bool
  | null | bound .null .. => true
  | _ => false

/-- A comparison. Being equal to null and not being equal to it are tests of their own. -/
def comparison (op : SqlOp) (left right : Node) : Except SqlError Node := do
  if op == .eq || op == .ne then
    if right.isNullNode then return isNull left (op == .ne)
    if left.isNullNode then return isNull right (op == .ne)
  left.type.comparable right.type
  return binary op left right .bool

/-- The difference of two times, or of a time and a duration. -/
def difference (left right : Node) : Node :=
  match right.type with
  | .dateTime | .dateOnly => call .timeDiff [left, right] .timeSpan
  | .timeSpan => call .subTime [left, right] left.type
  | _ => binary .sub left right left.type

/-- The type of an arithmetic result. -/
def resultType (left right : HostType) : HostType :=
  if left = .unknown then right else left.widen right

/-- Arithmetic. Times are shifted by functions, and whole numbers have a whole quotient. -/
def arithmetic (op : SqlOp) (left right : Node) : Node :=
  let lt := left.type
  let rt := right.type
  if op = .add ∧ lt.isTemporal ∧ rt = .timeSpan then call .addTime [left, right] lt
  else if op = .sub ∧ lt.isTemporal then difference left right
  else if op = .div ∧ lt.isIntegral ∧ rt.isIntegral then
    binary .intDiv left right (lt.widen rt)
  else binary op left right (resultType lt rt)

/-- The pieces of a text: the arguments of a joined text, or the node itself. -/
def pieces : Node → List Node
  | call .concat args _ => args
  | n => [n]

/-- The literal for a run of texts, if there is one. -/
def runLiteral (d : Dialect) : Option String → Except SqlError (List Node)
  | some s => do return [← constant d (.string s)]
  | none => return []

/-- The pieces of a text with neighbouring literals made one; `run` is the text of those just
passed. Null adds nothing. -/
def mergePieces (d : Dialect) (run : Option String) : List Node → Except SqlError (List Node)
  | [] => runLiteral d run
  | literal _ value _ :: rest => mergePieces d (some (run.getD "" ++ value.concatText)) rest
  | null :: rest => mergePieces d run rest
  | n :: rest => do
    let before ← runLiteral d run
    return before ++ n :: (← mergePieces d none rest)

/-- Joined texts. -/
def concat (d : Dialect) (nodes : List Node) : Except SqlError Node := do
  match ← mergePieces d none (nodes.flatMap pieces) with
  | [] => constant d (.string "")
  | [n] => return if n.type.isString then n else call .concat [n] .string
  | parts => return call .concat parts .string

/-- The type of an aggregate. -/
def aggregateType (f : Aggregate) (argument : HostType) : HostType :=
  match f with
  | .countAll | .count | .countDistinct => .int32
  | .avg => if argument = .decimal then .decimal else .double
  | .sum | .max | .min => argument

/-- An aggregate of its first operand; without operands the rows are counted. -/
def aggregate (f : Aggregate) (operands : List Node) : Node :=
  let f := if operands.isEmpty then .countAll else f
  let argument := (operands.head?.map type).getD .unknown
  call (.aggregate f) (operands.take 1) (aggregateType f argument)

/-- A node with another type; tests keep theirs. -/
def retype (target : HostType) : Node → Node
  | literal sql value _ => literal sql value target
  | bound value native name _ => bound value native name target
  | column aliasName name _ => column aliasName name target
  | call f args _ => call f args target
  | unary op operand _ => unary op operand target
  | binary op left right _ => binary op left right target
  | case branches otherwise _ => case branches otherwise target
  | subquery query _ => subquery query target
  | n => n

/-- The first type of several that is known. -/
def firstKnown : List HostType → HostType
  | [] => .unknown
  | t :: rest => if t = .unknown then firstKnown rest else t

/-- A bit operation; on truth values it is a logical one. -/
def bitwise (onBools onNumbers : SqlOp) (left right : Node) : Node :=
  if left.type = .bool ∧ right.type = .bool then
    binary onBools left.toPredicate right.toPredicate .bool
  else arithmetic onNumbers left right

/-- A sum; with a text it is a joined text. -/
def sum (d : Dialect) (left right : Node) : Except SqlError Node :=
  if left.type.isString || right.type.isString then concat d [left, right]
  else return arithmetic .add left right

/-- A conjunction or a disjunction of two truth values. -/
def logical (op : SqlOp) (left right : Node) : Node :=
  binary op left.toPredicate right.toPredicate .bool

/-- The first value of several that is not null. -/
def firstNotNull (args : List Node) : Node := call .coalesce args (firstKnown (args.map type))

/-- A binary operator on two nodes. -/
def binaryOperator (d : Dialect) (op : BinaryOp) (left right : Node) : Except SqlError Node :=
  match op with
  | .eq => comparison .eq left right
  | .ne => comparison .ne left right
  | .lt => comparison .lt left right
  | .le => comparison .le left right
  | .gt => comparison .gt left right
  | .ge => comparison .ge left right
  | .and => return logical .and left right
  | .or => return logical .or left right
  | .add => sum d left right
  | .sub => return arithmetic .sub left right
  | .mul => return arithmetic .mul left right
  | .div => return arithmetic .div left right
  | .mod => return arithmetic .mod left right
  | .coalesce => return firstNotNull [left, right]
  | .bitAnd => return bitwise .and .bitAnd left right
  | .bitOr => return bitwise .or .bitOr left right

/-- A choice between branches. -/
def choice (branches : List (Node × Node)) (otherwise : Node) : Node :=
  case branches otherwise (firstKnown (branches.map (fun b => b.2.type) ++ [otherwise.type]))

end LambdaSql.Node
