import LambdaSql.Expr.Origin
import LambdaSql.Host.Evaluate
import LambdaSql.Plan.Scope
import LambdaSql.Sql.Operators

/-!
# Lowering

How an expression becomes a node, given what its parts become. A part is an `Operand`: the
expression together with all the ways in which it can be planned. The functions here combine
operands; none of them looks into an expression more deeply than its shape asks for.

## Main definitions

* `Operand` - an expression with the ways to plan it.
* `Lowering.folded` - an expression by its value, if it has one at hand.
* `Lowering.member`, `Lowering.static`, `Lowering.call`, `Lowering.conditional` - the forms of
  expressions.
* `Lowering.apply` - a translated call.
* `Lowering.membership`, `Lowering.exists` - tests against collections and selections.
* `Lowering.assigned` - the right-hand side of an assignment.
-/

namespace LambdaSql

/-- An expression with the ways to plan it. -/
structure Operand where
  source : Expr
  /-- The expression as a value. -/
  value : Planning Node
  /-- The values among which the first one that is not null is taken. -/
  alternatives : Planning (List Node)
  /-- The value of the body, with the parameters of a lambda bound by position. -/
  applied : List Binding → Planning Node
  /-- The selection that the expression is, conversions aside. -/
  selection : Option (Planning Select) := none
  /-- The items of an array. -/
  items : Option (Planning (List Node)) := none

namespace Lowering

open Planning

/-- The dialect in use. -/
def dialect : Planning Dialect := return (← read).compiler.dialect

/-- The translations in use. -/
def translations : Planning TranslationTable := return (← read).compiler.translations

/-- The origin of an expression. -/
def origin (e : Expr) : Planning Origin := return e.origin (← translations)

/-- Whether an expression may be evaluated at compile time. -/
def foldable (e : Expr) : Planning Bool :=
  return (← read).compiler.options.foldCalls || !e.containsCall

/-- The value that an expression has at hand, if any. -/
def valueOf? (e : Expr) : Planning (Option Value) := ofFault (Host.value e).attempt

/-- A value written out. -/
def constant (v : Value) : Planning Node := do ofExcept (Node.constant (← dialect) v)

/-- A value from some origin: constants are written out, others are bound. -/
def atHand (v : Value) (o : Origin) : Planning Node :=
  match v with
  | .list _ | .record _ => fail (.notScalar v.text)
  | _ => if o = .constant then constant v else return .parameter v

/-- An expression by its value at hand, or else as it is lowered. -/
def folded (e : Expr) (lower : Planning Node) : Planning Node := do
  let o ← origin e
  if o = .sql then lower
  else if ← foldable e then
    match ← valueOf? e with
    | some v => atHand v o
    | none => lower
  else lower

/-- A parameter as a value. -/
def parameter (name : String) : Planning Node := do
  match ← lookup name with
  | .grouping g => ofExcept g.singleKey
  | .table t => fail (.wholeRow name t.name)

/-! ## Members -/

/-- A member of a parameter. -/
def parameterMember (param name : String) : Planning Node := do
  match ← lookup param with
  | .table t => ofExcept (t.column name)
  | .grouping g => if isKeyMember name then ofExcept g.singleKey else ofExcept (g.key name)

/-- A member of the key of a grouping, if that is what it is. -/
def keyMember? (target : Expr) (name : String) : Planning (Option Node) := do
  match target with
  | .member (.param p) key =>
    if isKeyMember key then
      match ← lookup p with
      | .grouping g => return g.keys.lookup name
      | .table _ => return none
    else return none
  | _ => return none

/-- A member of a value. -/
def valueMember (target : Operand) (name : String) : Planning Node := do
  match ← keyMember? target.source name with
  | some n => return n
  | none =>
    if name = "HasValue" then return .isNull (← target.value) true
    else if name = "Value" then target.value
    else
      let n ← target.value
      match (← translations).member? (.ofHostType n.type) name with
      | some t => return .call t.f [n] t.returns
      | none => fail (.noTranslation n.type.displayName name 0)

/-- A member. -/
def member (target : Operand) (name : String) : Planning Node :=
  match target.source with
  | .param p => parameterMember p name
  | _ => valueMember target name

/-- A member of a type. -/
def static (type name : String) : Planning Node := do
  match (← translations).staticOf? type name with
  | some (.function f returns) => return .call f [] returns
  | some (.value v) => constant v
  | none => fail (.noTranslation type name 0)

/-! ## Membership and selections -/

/-- Whether an expression is a collection, conversions aside. -/
def isCollection : Expr → Planning Bool
  | .array _ | .query _ => return true
  | .constant v | .captured _ v => return v.isList
  | .convert operand _ => isCollection operand
  | e => do
    if (← origin e) = .sql then return false
    return (← valueOf? e).any Value.isList

/-- The items of a collection at hand. -/
def itemsAtHand (collection : Expr) : Planning (List Node) := do
  let o ← origin collection
  if o = .sql then fail .collectionFromSql
  match ← valueOf? collection with
  | none => fail .collectionNotEvaluable
  | some (.list values) => values.mapM (atHand · o)
  | some v => fail (.notCollection v.text)

/-- A membership test over nothing. -/
def emptyMembership (operand : Node) (negated : Bool) : Planning Node := do
  match (← read).compiler.options.emptyIn with
  | .reject => fail .emptyMembership
  | .alwaysFalse =>
    return if negated then .always true else .inList operand [.null] false

/-- A membership test. -/
def membership (collection item : Operand) (negated : Bool) : Planning Node := do
  let operand ← item.value
  match collection.selection with
  | some selection => return .inQuery operand (← selection) negated
  | none =>
    let items ← match collection.items with
      | some items => items
      | none => itemsAtHand collection.source
    items.forM fun n => ofExcept (operand.type.comparable n.type)
    if items.isEmpty then emptyMembership operand negated
    else return .inList operand items negated

/-- A selection that only has to have rows. -/
def withoutColumns (s : Select) : Select :=
  { s with columns := [⟨.ofInt 1, none⟩] }

/-- A test for rows. -/
def rowsTest (arg : Operand) (declaring method : String) (negated : Bool) : Planning Node :=
  match arg.source, arg.selection with
  | .query q, some selection => do
    let s ← selection
    return .exists (if q.projection.isNone then withoutColumns s else s) negated
  | _, _ => fail (.subqueryExpected declaring method)

/-! ## Calls -/

/-- The operands of a call: its target, if any, and its arguments. -/
def operands (target : Option Node) (args : List Operand) : Planning (List Node) := do
  return target.toList ++ (← args.mapM (·.value))

/-- The type of the first of several nodes. -/
def firstType (nodes : List Node) : HostType := (nodes.head?.map Node.type).getD .unknown

/-- A time shifted by an amount known at compile time. -/
def shiftedByValue (n : Node) (amount : Value) (unit : IntervalUnit) (scale : Int64) :
    Planning Node := do
  let (negative, interval) ← match amount with
    | .int a =>
      match Checked.mul a scale with
      | none => fail (.intervalOverflow a.toInt scale.toInt)
      | some scaled =>
        match Checked.abs scaled with
        | none => fail (.intervalOverflow a.toInt scale.toInt)
        | some size => pure (decide (scaled.toInt < 0), Node.ofInt size)
    | v =>
      match v.toFloat? with
      | none => fail (.amountNotNumeric v.text)
      | some x =>
        let scaled := x * Number.ofInt scale.toInt
        pure (decide (scaled < 0), ← constant (.float scaled.abs))
  return .call (if negative then .dateSub unit else .dateAdd unit) [n, interval] n.type

/-- A constant that may be evaluated at compile time, evaluated. -/
def constantValue? (e : Expr) : Planning (Option Value) := do
  if (← origin e) = .constant then
    if ← foldable e then return ← valueOf? e
  return none

/-- A time shifted by a number of units. -/
def dateAdd (n : Node) (amount : Operand) (unit : IntervalUnit) (scale : Int64) :
    Planning Node := do
  match ← constantValue? amount.source with
  | some v => shiftedByValue n v unit scale
  | none =>
    let a ← amount.value
    let a := if scale = 1 then a else .binary .mul a (.ofInt scale) a.type
    return .call (.dateAdd unit) [n, a] n.type

/-- A position counted from zero as one counted from one. -/
def oneBased (index : Operand) : Planning Node := do
  match ← constantValue? index.source with
  | some (.int n) =>
    match Checked.add n 1 with
    | some shifted => return .ofInt shifted
    | none => fail (.indexOverflow n.toInt)
  | _ => return .binary .add (← index.value) (.ofInt 1) .int32

/-- The text of a format that is at hand. -/
def formatAtHand? (e : Expr) : Planning (Option String) := do
  if (← origin e) = .sql then return none
  return (← valueOf? e).bind Value.toText?

/-- A value as text, possibly in a format. -/
def stringify (n : Node) (args : List Operand) (declaring method : String) : Planning Node := do
  match args with
  | [] => return if n.type.isString then n else .call (.cast .char) [n] .string
  | [wanted] =>
    let text ← formatAtHand? wanted.source
    if n.type = .dateTime ∨ n.type = .dateOnly then
      match text.bind (← dialect).dateFormat? with
      | some converted =>
        return .call .dateFormat [n, ← constant (.string converted)] .string
      | none => defer declaring method 1
    else defer declaring method 1
  | _ => fail (.noTranslation declaring method args.length)

/-- The smallest difference from one that counts. -/
def oneTolerance : Float := 2.220446049250313e-16

/-- A number of units as a number of seconds. -/
def inSeconds (amount : Node) (seconds : Float) : Planning Node := do
  if (seconds - 1).abs < oneTolerance then return amount
  else return .binary .mul amount (← constant (.float seconds)) .double

/-- A call with a translation. The target, if there is one, has already been planned. -/
def apply (t : Translation) (target : Option (Operand × Node)) (args : List Operand)
    (declaring method : String) : Planning Node := do
  let unsupported {α : Type} : Planning α := fail (.noTranslation declaring method args.length)
  let node := target.map Prod.snd
  match t with
  | .function f returns =>
    let nodes ← operands node args
    match returns with
    | .fixed type => return .call f nodes type
    | .operand => return .call f nodes (firstType nodes)
  | .concat => ofExcept (Node.concat (← dialect) (← operands node args))
  | .equals =>
    match ← operands node args with
    | [left, right] => ofExcept (Node.comparison .eq left right)
    | _ => unsupported
  | .membership =>
    match target, args with
    | some (collection, _), [item] => membership collection item false
    | none, [collection, item] => membership collection item false
    | _, _ => unsupported
  | .dateAdd unit scale =>
    match node, args with
    | some n, [amount] => dateAdd n amount unit scale
    | _, _ => unsupported
  | .addSpan =>
    match node, args with
    | some n, span :: _ => return .call .addTime [n, ← span.value] n.type
    | _, _ => unsupported
  | .subtract =>
    match node, args with
    | some n, other :: _ => return .difference n (← other.value)
    | _, _ => unsupported
  | .substring =>
    match node, args with
    | some n, [start] => return .call .substring [n, ← oneBased start] .string
    | some n, start :: length :: _ =>
      let start ← oneBased start
      return .call .substringLength [n, start, ← length.value] .string
    | _, _ => unsupported
  | .pad f =>
    match node, args with
    | some n, [width] => return .call f [n, ← width.value, ← constant (.string " ")] .string
    | some n, width :: fill :: _ =>
      let width ← width.value
      return .call f [n, width, ← fill.value] .string
    | _, _ => unsupported
  | .trimChars f =>
    match node, args with
    | some n, chars :: _ => return .call f [n, ← chars.value] .string
    | _, _ => unsupported
  | .cast cast type =>
    match ← operands node args with
    | [n] => return .call (.cast cast) [n] type
    | _ => unsupported
  | .toText =>
    match node with
    | some n => stringify n args declaring method
    | none => unsupported
  | .spanFrom seconds =>
    match args with
    | amount :: _ => return .call .secToTime [← inSeconds (← amount.value) seconds] .timeSpan
    | [] => unsupported
  | .aggregate f => return .aggregate f (← operands node args)
  | .isIn negated =>
    match args with
    | [item, collection] => membership collection item negated
    | _ => unsupported
  | .rowsExist negated =>
    match args with
    | [arg] => rowsTest arg declaring method negated
    | _ => fail (.subqueryExpected declaring method)
  | .orElse =>
    if (← read).inProjection then defer declaring method args.length
    let nodes ← operands node args
    return .call .ifNull nodes (firstType nodes)
  | .round =>
    let nodes ← operands node args
    return .call (if nodes.length = 2 then .roundDigits else .round) nodes (firstType nodes)
  | .deferred => defer declaring method args.length

/-- A call on a grouping: an aggregate of a selected value over the rows of a group. -/
def groupingCall (g : Grouping) (method : String) (args : List Operand) : Planning Node := do
  match (← translations).method? .grouping method (.exactly args.length) with
  | some (.aggregate f) =>
    match args with
    | [] => return .aggregate f []
    | selector :: _ => return .aggregate f [← selector.applied (tableBindings g.elements)]
  | _ => fail (.noTranslation TypeKey.grouping.name method args.length)

/-- The grouping that a parameter stands for, if it does. -/
def grouping? (e : Expr) : Planning (Option Grouping) := do
  match e with
  | .param p =>
    match ← lookup p with
    | .grouping g => return some g
    | .table _ => return none
  | _ => return none

/-- A call on a target. -/
def callOn (target : Operand) (method : String) (args : List Operand) : Planning Node := do
  match args with
  | [item] =>
    if method = "Contains" then
      if ← isCollection target.source then return ← membership target item false
  | _ => pure ()
  match ← grouping? target.source with
  | some g => groupingCall g method args
  | none =>
    let n ← target.value
    let declaring := n.type.displayName
    match (← translations).method? (.ofHostType n.type) method (.exactly args.length) with
    | some t => apply t (some (target, n)) args declaring method
    | none => fail (.noTranslation declaring method args.length)

/-- A call of a type. -/
def callOf (type : Option String) (method : String) (args : List Operand) : Planning Node := do
  match type with
  | none => fail (.callWithoutTarget method)
  | some type =>
    match (← translations).methodOf? type method (.exactly args.length) with
    | some t => apply t none args type method
    | none => fail (.noTranslation type method args.length)

/-! ## Operators -/

/-- A binary operator; the first value that is not null is taken among all alternatives. -/
def binary (op : BinaryOp) (left right : Operand) : Planning Node := do
  match op with
  | .coalesce =>
    let before ← left.alternatives
    return .firstNotNull (before ++ (← right.alternatives))
  | op =>
    let l ← left.value
    let r ← right.value
    ofExcept (Node.binaryOperator (← dialect) op l r)

/-- A unary operator. -/
def unary (op : UnaryOp) (operand : Operand) : Planning Node := do
  let n ← operand.value
  match op with
  | .not => return n.toPredicate.negation
  | .negate => return .unary .negate n n.type

/-- The branches of a choice, and what it is otherwise. -/
def branchesOf : Node → List (Node × Node) × Node
  | .case branches otherwise _ => (branches, otherwise)
  | n => ([], n)

/-- A conditional. One that stands last in another and is computed by the database adds its
branches to it. -/
def conditional (test ifTrue ifFalse : Operand) : Planning Node := do
  let t ← test.value
  let a ← ifTrue.value
  let b ← ifFalse.value
  let nested := ifFalse.source.isConditional && (← origin ifFalse.source) == .sql
  let (branches, otherwise) := if nested then branchesOf b else ([], b)
  return .choice ((t.toPredicate, a) :: branches) otherwise

/-- A selection as a value. -/
def selection (plan : Planning Select) : Planning Node := do
  let s ← plan
  return .subquery s ((s.shape.head?.map Output.type).getD .unknown)

/-- The right-hand side of an assignment. A value at hand is bound even when it is a constant. -/
def assigned (o : Operand) : Planning Node := do
  if o.source.withoutConversions.isBare then
    if (← origin o.source) ≠ .sql then
      match ← valueOf? o.source with
      | some v => return if v.isNull then .null else .parameter v
      | none => o.value
    else o.value
  else o.value

end Lowering

end LambdaSql
