import LambdaSql.Plan.Projection

/-!
# Planning queries

Expressions and queries are planned together, each by recursion on itself: an expression becomes an
operand, a clause becomes planned nodes, a query becomes a selection, and a source becomes rows with
the columns that can be read from them.

## Main definitions

* `operand` - an expression with the ways to plan it.
* `planQuery` - a query as a selection.
* `planSource`, `Planning.bindTable` - what is read from, and binding it.
* `planCte` - a common table expression, planned once.
-/

namespace LambdaSql

open Planning

/-! ## Tables -/

mutual

/-- The name by which a source is told from others in messages. -/
def Source.name : Source → String
  | .entity name | .selfRef name => name
  | .cte ⟨name, _, _, _, _⟩ => name
  | .derived q => queryName q

/-- The name of what a query reads from first. -/
def queryName : QueryOf Expr Source → String
  | ⟨source, _, _, _, _, _, _, _, _, _, _⟩ => Source.name source

end

/-- Rows with what is needed to read from them. -/
structure PlannedSource where
  rows : Rows
  name : String
  shape : Shape

/-- A source in a clause, under its own alias or a new one. A new alias is used up either way. -/
def Planning.bindTable (override : Option String) (s : PlannedSource) :
    Planning (Table × TableBinding) := do
  let generated ← nextAlias
  let aliasName := some (override.getD generated)
  return (⟨s.rows, aliasName⟩, ⟨s.name, aliasName, s.shape⟩)

/-- A mapped entity. -/
def planEntity (name : String) : Planning PlannedSource := do
  let e ← ofExcept ((← read).compiler.model.entity name)
  return ⟨.named e.table e.schema, name, .entity e⟩

/-! ## Common table expressions -/

/-- The columns of a common table expression. -/
def cteShape (columns : List String) (anchor : List Output) : List Output :=
  (columns.zip anchor).map fun (name, o) => ⟨name, o.type⟩

/-- The columns of a common table expression in whose second query this is, if it is. -/
def selfShape? (name : String) : Planning (Option (List Output)) := do
  match (← read).recursive.lookup name with
  | some shape =>
    modifyThe Progress fun p => { p with selfReads := name :: p.selfReads }
    return some shape
  | none => return none

/-- Planning under a common table expression, with nothing projected. -/
def withinCte {α : Type} (name : String) (act : Planning α) : Planning α :=
  withReader (fun s => { s with underway := name :: s.underway, inProjection := false }) act

/-- Planning of a second query that may read the expression it belongs to. -/
def withSelfRef {α : Type} (name : String) (shape : List Output) (act : Planning α) :
    Planning α :=
  withReader (fun s => { s with recursive := (name, shape) :: s.recursive }) act

/-- The columns of a common table expression. It is planned with aliases of its own unless it has
been planned before; it cannot be planned within itself. -/
def planOnce (name : String) (plan : Planning CtePlan) : Planning (List Output) := do
  match (← getThe Progress).ctes.find? (·.name == name) with
  | some done => return cteShape done.columns done.anchor.shape
  | none =>
    if (← read).underway.contains name then fail (.cteDependsOnItself name)
    let cte ← withOwnAliases (withinCte name plan)
    modifyThe Progress fun p => { p with ctes := p.ctes ++ [cte] }
    return cteShape cte.columns cte.anchor.shape

/-- A common table expression with its queries planned. -/
def assembleCte (name : String) (declared : List String) (declaredRecursive : Bool)
    (anchor : Planning Select) (union : Option (Planning Select)) : Planning CtePlan := do
  let anchor ← anchor
  let columns := if declared.isEmpty then anchor.shape.map Output.name else declared
  if columns.length ≠ anchor.shape.length then
    fail (.cteColumnCount name columns.length anchor.shape.length)
  match union with
  | none => return ⟨name, columns, anchor, none, false⟩
  | some plan =>
    restartAliases 0
    let second ← withSelfRef name (cteShape columns anchor.shape) plan
    if second.shape.length ≠ columns.length then
      fail (.cteUnionCount name second.shape.length columns.length)
    let readsItself := (← getThe Progress).selfReads.contains name
    return ⟨name, columns, anchor, some second, declaredRecursive || readsItself⟩

/-! ## Expressions and queries -/

/-- The name of a grouping key. -/
def keyName : Expr → String
  | .member _ name => name
  | _ => "Key"

/-- The way to plan an expression under the parameters of a lambda. -/
def Operand.under (o : Operand) (params : List String) (bindings : List Binding) :
    Planning Node :=
  withFrame params bindings o.value

/-- An expression that is no lambda and no special operand. -/
def plainOperand (e : Expr) (lower : Planning Node) : Operand where
  source := e
  value := Lowering.folded e lower
  alternatives := return [← Lowering.folded e lower]
  applied := fun bindings => withFrame [] bindings (Lowering.folded e lower)

/-- The planned second query of a common table expression with a name, if there is one. -/
def selfSource (name : String) : Planning PlannedSource := do
  match ← selfShape? name with
  | some shape => return ⟨.named name none, name, .derived shape⟩
  | none => fail (.selfRefOutside name)

mutual

/-- An expression with the ways to plan it. -/
def operand : Expr → Operand
  | e@(.constant v) => plainOperand e (Lowering.atHand v .constant)
  | e@(.captured _ v) => plainOperand e (Lowering.atHand v .captured)
  | e@(.param name) => plainOperand e (Lowering.parameter name)
  | e@(.member target name) => plainOperand e (Lowering.member (operand target) name)
  | e@(.static type name) => plainOperand e (Lowering.static type name)
  | e@(.call (some target) _ method args) =>
    plainOperand e (Lowering.callOn (operand target) method (operands args))
  | e@(.call none type method args) =>
    plainOperand e (Lowering.callOf type method (operands args))
  | e@(.unary op inner) => plainOperand e (Lowering.unary op (operand inner))
  | e@(.conditional test a b) =>
    plainOperand e (Lowering.conditional (operand test) (operand a) (operand b))
  | e@(.binary op left right) =>
    let l := operand left
    let r := operand right
    let plain := plainOperand e (Lowering.binary op l r)
    if op = .coalesce then
      { plain with alternatives := return (← l.alternatives) ++ (← r.alternatives) }
    else plain
  | e@(.convert inner target) =>
    let o := operand inner
    { plainOperand e (return (← o.value).retype target) with selection := o.selection }
  | e@(.query q) =>
    let plan := asSubquery (planQuery q)
    { plainOperand e (Lowering.selection plan) with selection := some plan }
  | e@(.array items) =>
    let items := operands items
    { plainOperand e (fail .constructionAsValue) with items := some (items.mapM (·.value)) }
  | e@(.object _) => plainOperand e (fail .constructionAsValue)
  | e@(.lambda params body) =>
    { plainOperand e (fail .lambdaAsValue) with applied := (operand body).under params }

/-- Several expressions with the ways to plan them. -/
def operands : List Expr → List Operand
  | [] => []
  | e :: rest => operand e :: operands rest

/-- The members of an object with the ways to plan them. -/
def members : List (String × Expr) → List (String × Operand)
  | [] => []
  | (name, e) :: rest => (name, operand e) :: members rest

/-- The tests of a clause. -/
def planTests (bindings : List Binding) : List (LambdaOf Expr) → Planning (List Node)
  | [] => return []
  | ⟨params, body⟩ :: rest => do
    let n ← (operand body).under params bindings
    return n.toPredicate :: (← planTests bindings rest)

/-- The sort keys of a query. -/
def planOrder (bindings : List Binding) : List (LambdaOf Expr × Bool) →
    Planning (List (Node × Bool))
  | [] => return []
  | (⟨params, body⟩, down) :: rest => do
    let n ← (operand body).under params bindings
    return (n, down) :: (← planOrder bindings rest)

/-- The joins of a query, each of whose conditions sees the tables up to its own. -/
def planJoins (tables : List TableBinding) : List (JoinOf Expr Source) →
    Planning (List Joined × List TableBinding)
  | [] => return ([], tables)
  | ⟨kind, source, ⟨params, body⟩, aliasName⟩ :: rest => do
    let (table, binding) ← bindTable aliasName (← planSource source)
    let tables := tables ++ [binding]
    let on ← (operand body).under params (tableBindings tables)
    let (joined, tables) ← planJoins tables rest
    return (⟨kind, table, on.toPredicate⟩ :: joined, tables)

/-- The keys of a grouped query. -/
def planKeys (bindings : List Binding) : Option (LambdaOf Expr) →
    Planning (Option (List (String × Node)))
  | none => return none
  | some ⟨params, .object ms⟩ =>
    let named := members ms
    withFrame params bindings do
      return some (← named.mapM fun (name, o) => do return (name, ← o.value))
  | some ⟨params, body⟩ => do
    let n ← (operand body).under params bindings
    return some [(keyName body, n)]

/-- The projection of a query; its lambda is over the groups of a grouped query. -/
def planProjection (tables : List TableBinding) (bindings : List Binding)
    (grouping : Option Grouping) : Option (ProjectionOf Expr) → Planning Projected
  | none => return .whole tables grouping
  | some (.select ⟨params, .object ms⟩) =>
    let named := members ms
    withFrame params bindings (Projected.object {} named)
  | some (.select ⟨params, body⟩) =>
    let o := operand body
    withFrame params bindings (Projected.body {} o)
  | some (.flatten ⟨params, .object ms⟩) =>
    let named := members ms
    withFrame params (tableBindings tables) ((Projected.whole tables none).overlay named)
  | some (.flatten ⟨params, _⟩) =>
    withFrame params (tableBindings tables) (fail .flattenNotObject)

/-- A query as a selection. -/
def planQuery : QueryOf Expr Source → Planning Select
  | ⟨source, aliasName, joins, filters, groupBy, having, orderBy, projection, distinct, limit,
      offset⟩ => do
    let (table, first) ← bindTable aliasName (← planSource source)
    let (joined, tables) ← planJoins [first] joins
    let inner := tableBindings tables
    let filters ← planTests inner filters
    let keys ← planKeys inner groupBy
    let grouping := keys.map fun ks => (⟨ks, tables⟩ : Grouping)
    let outer := match grouping with
      | some g => [.grouping g]
      | none => inner
    let projected ← planProjection tables outer grouping projection
    let having ← planTests outer having
    let orderBy ← planOrder outer orderBy
    return {
      distinct, table, joins := joined, columns := projected.columns
      filter := Node.conjunction filters
      groupBy := (keys.getD []).map Prod.snd
      having := Node.conjunction having
      orderBy, limit, offset, shape := projected.shape, deferred := projected.deferred }

/-- What a query reads from. -/
def planSource : Source → Planning PlannedSource
  | .entity name => planEntity name
  | .derived q =>
    let name := queryName q
    let plan := planQuery q
    do
      let s ← withOwnAliases (asSubquery plan)
      return ⟨.derived s, name, .derived s.shape⟩
  | .cte c => planCte c
  | .selfRef name => selfSource name

/-- A common table expression to read from. -/
def planCte : CteOf (QueryOf Expr Source) → Planning PlannedSource
  | ⟨name, columns, anchor, union, recursive⟩ => do
    let plan := assembleCte name columns recursive (planQuery anchor) (planUnion union)
    let shape ← match ← selfShape? name with
      | some shape => pure shape
      | none => planOnce name plan
    return ⟨.named name none, name, .derived shape⟩

/-- The second query of a common table expression. -/
def planUnion : Option (QueryOf Expr Source) → Option (Planning Select)
  | none => none
  | some q => some (planQuery q)

end

/-- The value of a lambda whose parameters are bound by position. -/
def planValue (bindings : List Binding) (l : Lambda) : Planning Node :=
  (operand l.body).under l.params bindings

end LambdaSql
