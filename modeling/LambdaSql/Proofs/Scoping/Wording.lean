import LambdaSql.Proofs.Naming.Queries

/-!
# What is written for a query

What may be written for each part of a query follows from the query and from the selections around. A member of a
lambda parameter is a column whose alias means the table that the parameter is bound to, be it the table of an entity, a
derived table or a common table expression. Any other expression is what lowering makes of what is written for its
parts, and each clause of a selection is written for the clause of the query, one node for each of its expressions.

The parameters of lambdas are told apart here without aliases and without scopes: a parameter plays the role of a table
by its place, or that of the groups of a query. A derived table stands by itself, so nothing is said of what is written
in it for parameters of the lambdas around; and nothing is said where an alias has been chosen, which could be that of
any other table.

## Main definitions

* `Wording` - what may be written for a part of a query.
* `Role`, `Roles` - what the parameters of the lambdas around stand for.
* `Binding.Plays`, `Scope.Plays` - bindings, and the parameters of a scope, that play roles in a place.
* `Expr.wording` - what may be written for an expression.
* `queryWritten` - the selections that are written for a query.
-/

namespace LambdaSql

open Planning

/-! ## Tables -/

/-- What may be written for a part of a query: the nodes that may stand for it, given the selections around. -/
abbrev Wording := List Level → List Node → Prop

/-- Anything may be written. -/
def Wording.anything : Wording := fun _ _ => True

/-- Nothing can be written. -/
def Wording.nothing : Wording := fun _ _ => False

namespace TablePlace

/-- A member of a table has a column of some name and type. Derived tables and common table expressions have columns of
the names of their members. -/
def Has (t : TablePlace) (member name : String) (type : HostType) : Prop :=
  match t.entity with
  | some e => ∃ f, e.field? member = some f ∧ name = f.column ∧ type = f.type
  | none => name = member

/-- A member of a table is written as its column, with an alias that means the table. -/
def column (t : TablePlace) (member : String) : Wording := fun around ns =>
  ∃ a name type, seatOf a around = some t.seat ∧ t.Has member name type ∧ ns = [.column (some a) name type]

/-- All columns of a table, by the names of their members, with an alias that means the table. -/
def Row (t : TablePlace) (around : List Level) (columns : List (String × Node)) : Prop :=
  ∃ a, seatOf a around = some t.seat ∧
    match t.entity with
    | some e => columns = e.mappedFields.map fun f => (f.member, .column (some a) f.column f.type)
    | none => ∀ c ∈ columns, ∃ type, c.2 = .column (some a) c.1 type

end TablePlace

/-- A member of a table without an alias is written as the name of its column. -/
def Entity.bareColumn (e : Entity) (member : String) : Wording := fun _ ns =>
  ∃ f, e.field? member = some f ∧ ns = [.column none f.column f.type]

/-- All columns of a table without an alias, by the names of their members. -/
def Entity.bareRow (e : Entity) : List (String × Node) :=
  e.mappedFields.map fun f => (f.member, .column none f.column f.type)

/-! ## Roles -/

/-- What a parameter stands for: a table; the table that a statement changes, if it has no alias; the groups of a query
with their keys and the tables of their rows; or something outside of a derived table, of which nothing is known
inside. -/
inductive Role where
  | table (t : TablePlace)
  | bare (e : Entity)
  | groups (keys : List (String × Wording)) (rows : List TablePlace)
  | outside

/-- The keys of groups are written, each under its name. -/
def KeysWritten (keys : List (String × Wording)) (around : List Level) (written : List (String × Node)) : Prop :=
  List.Forall₂ (fun k w => k.1 = w.1 ∧ w.2 around [k.2]) written keys

/-- The key of groups that have just one. -/
def singleKey (keys : List (String × Wording)) : Wording := fun around ns => ∃ key, keys = [key] ∧ key.2 around ns

/-- A key of groups by name. -/
def keyNamed (keys : List (String × Wording)) (name : String) : Wording := fun around ns =>
  ∃ w, keys.lookup name = some w ∧ w around ns

namespace Role

/-- What may be written for a member of a parameter. -/
def member (name : String) : Role → Wording
  | table t => t.column name
  | bare e => e.bareColumn name
  | groups keys _ => if isKeyMember name then singleKey keys else keyNamed keys name
  | outside => .anything

/-- What may be written for a parameter by itself. -/
def whole : Role → Wording
  | table _ | bare _ => .nothing
  | groups keys _ => singleKey keys
  | outside => .anything

/-- What may be selected for a member of a parameter that is read after fetching. -/
def fetched (name : String) : Role → Wording
  | table t => t.column name
  | bare e => e.bareColumn name
  | groups keys _ => keyNamed keys name
  | outside => .anything

end Role

/-- What the parameters of the lambdas around stand for. -/
abbrev Roles := String → Option Role

namespace Roles

/-- There are no parameters. -/
def none : Roles := fun _ => .none

/-- Nothing is known of any parameter. -/
def unknown : Roles := fun _ => some .outside

/-- Parameters bound by position, in addition to others. Of two parameters of one name the last one counts. There must
not be too many of them. -/
def under (roles : Roles) (params : List String) (bound : List Role) : Roles :=
  if params.length ≤ bound.length then fun name => ((params.zip bound).reverse.lookup name).or (roles name) else none

/-- What may be written for a parameter that is taken in some way. -/
def wording (roles : Roles) (way : Role → Wording) (param : String) : Wording :=
  ((roles param).map way).getD .nothing

end Roles

/-! ## Playing roles -/

/-- The entity that columns belong to, if there is one. -/
def Shape.entity? : Shape → Option Entity
  | .entity e => some e
  | .derived _ => none

/-- A binding plays the role of a table: it has its columns, and its alias, which comes before a position, means the
table at its seat. -/
structure TableBinding.Plays (first : Char) (limit : Nat) (around : List Level) (t : TableBinding)
    (place : TablePlace) : Prop where
  entity : place.entity = t.shape.entity?
  seat : ∃ position < limit, t.aliasName = some (aliasAt first position) ∧
    seatOf (aliasAt first position) around = some place.seat

/-- Keys play the roles of others wherever they are written again, inside selections with aliases from a position
on. -/
def KeysPlay (first : Char) (limit : Nat) (around : List Level) (keys : List (String × Node))
    (wordings : List (String × Wording)) : Prop :=
  List.Forall₂ (fun k w => k.1 = w.1 ∧ ∀ inner, FromOn first limit inner → w.2 (inner ++ around) [k.2]) keys wordings

/-- A binding plays a role. -/
inductive Binding.Plays (first : Char) (limit : Nat) (around : List Level) : Binding → Role → Prop
  | table {t : TableBinding} {place : TablePlace} :
    t.Plays first limit around place → Plays first limit around (.table t) (.table place)
  | bare {t : TableBinding} {e : Entity} :
    t.aliasName = none → t.shape = .entity e → Plays first limit around (.table t) (.bare e)
  | groups {g : Grouping} {keys : List (String × Wording)} {rows : List TablePlace} :
    KeysPlay first limit around g.keys keys →
    List.Forall₂ (TableBinding.Plays first limit around) g.elements rows →
    Plays first limit around (.grouping g) (.groups keys rows)
  | outside {b : Binding} : Plays first limit around b .outside

/-- Bindings by position that play roles. -/
abbrev Cast (first : Char) (limit : Nat) (around : List Level) : List Binding → List Role → Prop :=
  List.Forall₂ (Binding.Plays first limit around)

/-- What a parameter is bound to plays its role. Outside of a derived table it may be bound to anything. -/
inductive Fills (first : Char) (limit : Nat) (around : List Level) : Option Binding → Option Role → Prop
  | unbound : Fills first limit around none none
  | outside {b? : Option Binding} : Fills first limit around b? (some .outside)
  | bound {b : Binding} {role : Role} : b.Plays first limit around role → Fills first limit around (some b) (some role)

/-- The parameters of a scope play their roles. -/
def Scope.Plays (s : Scope) (limit : Nat) (around : List Level) (roles : Roles) : Prop :=
  ∀ name, Fills s.compiler.options.firstAlias limit around (s.binding? name) (roles name)

/-! ## Parts -/

/-- A part of an expression: what may be written for it, and for what it selects from rows that play roles, if it may be
a selector. -/
structure Part where
  source : Expr
  wording : Wording
  selected : Option (List Role → Wording) := none

/-- An operand gives only what may be written for a part, in a scope from some progress on. -/
structure Part.GivenBy (s : Scope) (p : Progress) (around : List Level) (part : Part) (o : Operand) : Prop where
  source : o.source = part.source
  gives : ∀ {q ns q'}, p.nextAlias ≤ q.nextAlias → o.Gives s q ns q' →
    q.nextAlias ≤ q'.nextAlias ∧ part.wording around ns
  selects : ∀ {selected bindings bound q n q'}, part.selected = some selected → p.nextAlias ≤ q.nextAlias →
    Cast s.compiler.options.firstAlias q.nextAlias around bindings bound → (o.applied bindings).Gives s q n q' →
    q.nextAlias ≤ q'.nextAlias ∧ selected bound around [n]

/-- An expression with the ways to plan it, given its parts with theirs. Without parts it is planned by itself. -/
def Expr.compose : Expr → List Operand → Operand
  | e@(.member _ name), [target] => plainOperand e (Lowering.member target name)
  | e@(.call (some _) _ method _), target :: args => plainOperand e (Lowering.callOn target method args)
  | e@(.call none type method _), args => plainOperand e (Lowering.callOf type method args)
  | e@(.binary op _ _), [l, r] =>
    let plain := plainOperand e (Lowering.binary op l r)
    if op = .coalesce then
      { plain with alternatives := return (← l.alternatives) ++ (← r.alternatives) }
    else plain
  | e@(.unary op _), [o] => plainOperand e (Lowering.unary op o)
  | e@(.conditional ..), [test, a, b] => plainOperand e (Lowering.conditional test a b)
  | e@(.convert _ target), [o] =>
    { plainOperand e (return (← o.value).retype target) with selection := o.selection }
  | e@(.array _), items =>
    { plainOperand e (fail .constructionAsValue) with items := some (items.mapM (·.value)) }
  | e, _ => operand e

/-- What may be written for an expression that is made of parts: whatever lowering makes of operands that give only what
may be written for the parts, in a scope whose parameters play their roles. -/
def composed (c : Compiler) (roles : Roles) (e : Expr) (parts : List Part) : Wording := fun around ns =>
  ∃ (s : Scope) (p p' : Progress) (os : List Operand), s.compiler = c ∧ s.Plays p.nextAlias around roles ∧
    List.Forall₂ (Part.GivenBy s p around) parts os ∧ (e.compose os).Gives s p ns p'

/-- What may be written for a member of an expression, given what may be written for the expression. -/
def memberWritten (c : Compiler) (roles : Roles) (target : Expr) (name : String) (w : Wording) : Wording :=
  match target with
  | .param x => roles.wording (Role.member name) x
  | _ => composed c roles (.member target name) [⟨target, w, none⟩]

/-! ## Projections -/

/-- What may be done to a projection, given the selections around its columns. -/
abbrev Projecting := List Level → Projected → Projected → Prop

/-- An expression is selected in some way. -/
def selectedWritten (w : Wording) (push : Projected → Node → Projected) : Projecting := fun around out out' =>
  ∃ n, w around [n] ∧ out' = push out n

/-- An expression is left for evaluation after fetching, with each member of a parameter selected that it reads. -/
def leftWritten (roles : Roles) (name : String) (e : Expr) : Projecting := fun around out out' =>
  let hidden := e.reads.map fun (param, member) => (⟨param, member, name ++ "_" ++ member⟩ : HiddenColumn)
  ∃ nodes, List.Forall₂ (fun h n => roles.wording (Role.fetched h.member) h.param around [n]) hidden nodes ∧
    out' = { out with
      columns := out.columns ++ List.zipWith (fun h n => ⟨n, some (HiddenColumn.column h)⟩) hidden nodes
      deferred := out.deferred ++ [⟨name, e, hidden⟩] }

/-- An expression is selected, or left for evaluation after fetching. -/
def addedWritten (roles : Roles) (name : String) (e : Expr) (w : Wording) (push : Projected → Node → Projected) :
    Projecting := fun around out out' =>
  selectedWritten w push around out out' ∨ leftWritten roles name e around out out'

/-- All keys of groups are selected. -/
def keysSelected (keys : List (String × Wording)) : Projecting := fun around out out' =>
  ∃ columns, KeysWritten keys around columns ∧ out' = out.pushAll columns

/-- All columns of a table are selected. -/
def rowSelected (t : TablePlace) : Projecting := fun around out out' =>
  ∃ columns, t.Row around columns ∧ out' = out.pushAll columns

/-- The parameter that an expression stands for, by itself or by its key. -/
def Expr.keyed? : Expr → Option String
  | .param p => some p
  | .member (.param p) name => if isKeyMember name then some p else none
  | _ => none

/-- A member of a projected object is added. One that stands for several keys of groups becomes these. -/
def memberAdded (roles : Roles) (name : String) (e : Expr) (w : Wording) : Projecting := fun around out out' =>
  match e.keyed?.bind roles with
  | some .outside => True
  | some (.groups keys _) =>
    if 1 < keys.length then keysSelected keys around out out'
    else addedWritten roles name e w (·.push name · false) around out out'
  | _ => addedWritten roles name e w (·.push name · false) around out out'

/-- A projection that builds no object: the keys of groups, a whole row, or an expression. -/
def bodyWritten (roles : Roles) (e : Expr) (w : Wording) : Projecting := fun around out out' =>
  match e.keyed?.bind roles, e with
  | some .outside, _ => True
  | some (.groups keys _), _ => keysSelected keys around out out'
  | some (.table t), .param _ => rowSelected t around out out'
  | some (.bare e), .param _ => out' = out.pushAll e.bareRow
  | _, _ => addedWritten roles (Projected.memberName e) e w Projected.pushScalar around out out'

/-- A selection without projection: the keys of its groups, or the first table's columns. -/
def wholeWritten (tables : List TablePlace) (keys : Option (List (String × Wording))) : Projecting :=
  fun around out out' =>
    match keys with
    | some ks => keysSelected ks around out out'
    | none => ∃ t ∈ tables.head?, rowSelected t around out out'

/-! ## Queries -/

/-- What the later clauses of a query are over: its groups, or else its tables. -/
def outerRoles (tables : List TablePlace) : Option (List (String × Wording)) → List Role
  | some keys => [.groups keys tables]
  | none => tables.map .table

/-- No alias is chosen in joins. -/
def Unnamed (joins : List Join) : Prop := ∀ j ∈ joins, j.aliasName = none

/-- The nodes that a selection is grouped by are its keys, if it has any. -/
def groupingWritten (keys : Option (List (String × Wording))) (around : List Level) (groupBy : List Node) : Prop :=
  match keys with
  | some ks => ∃ columns, KeysWritten ks around columns ∧ groupBy = columns.map Prod.snd
  | none => groupBy = []

section

variable (c : Compiler)

mutual

/-- What may be written for an expression. -/
def Expr.wording (roles : Roles) : Expr → Wording
  | .param name => roles.wording Role.whole name
  | .member target name => memberWritten c roles target name (target.wording roles)
  | .query q => fun around ns => ∃ sel t,
    (ns = [.subquery sel t] ∨ ns = [.subquery (Lowering.withoutColumns sel) t]) ∧ queryWritten roles q around sel
  | .call (some target) type method args =>
    composed c roles (.call (some target) type method args) (⟨target, target.wording roles, none⟩ :: itemParts roles args)
  | .call none type method args => composed c roles (.call none type method args) (itemParts roles args)
  | .binary op l r => composed c roles (.binary op l r) [⟨l, l.wording roles, none⟩, ⟨r, r.wording roles, none⟩]
  | .unary op e => composed c roles (.unary op e) [⟨e, e.wording roles, none⟩]
  | .conditional test a b =>
    composed c roles (.conditional test a b)
      [⟨test, test.wording roles, none⟩, ⟨a, a.wording roles, none⟩, ⟨b, b.wording roles, none⟩]
  | .convert e target => composed c roles (.convert e target) [⟨e, e.wording roles, none⟩]
  | .array items => composed c roles (.array items) (itemParts roles items)
  | .constant v => composed c roles (.constant v) []
  | .captured name v => composed c roles (.captured name v) []
  | .static type name => composed c roles (.static type name) []
  | .object ms => composed c roles (.object ms) []
  | .lambda params body => composed c roles (.lambda params body) []

/-- Several parts of an expression. A lambda among them may select from rows. -/
def itemParts (roles : Roles) : List Expr → List Part
  | [] => []
  | .lambda params body :: rest =>
    ⟨.lambda params body, composed c roles (.lambda params body) [],
      some fun bound => body.wording (roles.under params bound)⟩ :: itemParts roles rest
  | e :: rest => ⟨e, e.wording roles, some fun _ => e.wording roles⟩ :: itemParts roles rest

/-- The tests of a clause are written one by one, as predicates. -/
def testsWritten (roles : Roles) (bound : List Role) : List (LambdaOf Expr) → Wording
  | [] => fun _ ns => ns = []
  | ⟨params, body⟩ :: rest => fun around ns => ∃ n others, ns = n.toPredicate :: others ∧
    body.wording (roles.under params bound) around [n] ∧ testsWritten roles bound rest around others

/-- Sort keys are written one by one. -/
def orderWritten (roles : Roles) (bound : List Role) :
    List (LambdaOf Expr × Bool) → List Level → List (Node × Bool) → Prop
  | [] => fun _ keys => keys = []
  | (⟨params, body⟩, down) :: rest => fun around keys => ∃ n others, keys = (n, down) :: others ∧
    body.wording (roles.under params bound) around [n] ∧ orderWritten roles bound rest around others

/-- Joins are written one by one. Each condition sees the tables up to its own; `seen` tells how many there are before
the first of them. -/
def joinsWritten (roles : Roles) (around inside : List Level) (tables : List TablePlace) (seen : Nat) :
    List (JoinOf Expr Source) → List Joined → Prop
  | [] => fun joined => joined = []
  | ⟨kind, source, ⟨params, body⟩, _⟩ :: rest => fun joined => ∃ table n others,
    joined = ⟨kind, table, n.toPredicate⟩ :: others ∧ sourceWritten around source table.rows ∧
      body.wording (roles.under params ((tables.take (seen + 1)).map .table)) inside [n] ∧
      joinsWritten roles around inside tables (seen + 1) rest others

/-- The parts of a key that is an object. -/
def namedWordings (roles : Roles) : List (String × Expr) → List (String × Wording)
  | [] => []
  | (name, e) :: rest => (name, e.wording roles) :: namedWordings roles rest

/-- The keys of the groups of a query. -/
def groupWordings (roles : Roles) (bound : List Role) : Option (LambdaOf Expr) → Option (List (String × Wording))
  | none => none
  | some ⟨params, .object ms⟩ => some (namedWordings (roles.under params bound) ms)
  | some ⟨params, body⟩ => some [(keyName body, body.wording (roles.under params bound))]

/-- The members of a projected object are added one by one. -/
def objectWritten (roles : Roles) : List (String × Expr) → Projecting
  | [] => fun _ out out' => out' = out
  | (name, e) :: rest => fun around out out' => ∃ mid,
    memberAdded roles name e (e.wording roles) around out mid ∧ objectWritten roles rest around mid out'

/-- The members of an object that is laid over a projection are added, or replace others, one by one. -/
def overlayWritten (roles : Roles) : List (String × Expr) → Projecting
  | [] => fun _ out out' => out' = out
  | (name, e) :: rest => fun around out out' => ∃ mid,
    addedWritten roles name e (e.wording roles) (·.push name · true) around out mid ∧
      overlayWritten roles rest around mid out'

/-- What is projected. -/
def projectionWritten (roles : Roles) (tables : List TablePlace) (bound : List Role)
    (keys : Option (List (String × Wording))) : Option (ProjectionOf Expr) → List Level → Projected → Prop
  | none => fun around out => wholeWritten tables keys around {} out
  | some (.select ⟨params, .object ms⟩) => fun around out => objectWritten (roles.under params bound) ms around {} out
  | some (.select ⟨params, body⟩) => fun around out =>
    bodyWritten (roles.under params bound) body (body.wording (roles.under params bound)) around {} out
  | some (.flatten ⟨params, .object ms⟩) => fun around out => ∃ first, wholeWritten tables none around {} first ∧
    overlayWritten (roles.under params (tables.map .table)) ms around first out
  | some (.flatten _) => fun _ _ => False

/-- What is written for a query: its clauses one by one. Nothing is said where an alias is chosen. -/
def queryWritten (roles : Roles) : QueryOf Expr Source → List Level → Select → Prop
  | ⟨source, aliasName, joins, filters, groupBy, having, orderBy, projection, _, _, _⟩ => fun around sel =>
    aliasName = none → Unnamed joins →
      let tables := tablePlaces around.length (source.entity? c.model :: joins.map (·.source.entity? c.model))
      let inner := tables.map Role.table
      let keys := groupWordings roles inner groupBy
      let outer := outerRoles tables keys
      let inside := ⟨sel.tables, false⟩ :: around
      sourceWritten around source sel.table.rows ∧
      joinsWritten roles around inside tables 1 joins sel.joins ∧
      (∃ ns, testsWritten roles inner filters inside ns ∧ sel.filter = Node.conjunction ns) ∧
      groupingWritten keys inside sel.groupBy ∧
      (∃ out : Projected, projectionWritten roles tables outer keys projection
        (⟨sel.tables, !sel.deferred.isEmpty⟩ :: around) out ∧
        sel.columns = out.columns ∧ sel.shape = out.shape ∧ sel.deferred = out.deferred) ∧
      (∃ ns, testsWritten roles outer having inside ns ∧ sel.having = Node.conjunction ns) ∧
      orderWritten roles outer orderBy inside sel.orderBy

/-- What is written for a source: its name, or a derived table, in which nothing is known of what is around. -/
def sourceWritten (around : List Level) : Source → Rows → Prop
  | .entity name => fun rows => ∃ e, c.model.entity name = .ok e ∧ rows = .named e.table e.schema
  | .derived q => fun rows => ∃ sel, rows = .derived sel ∧ queryWritten Roles.unknown q around sel
  | .cte ⟨name, _, _, _, _⟩ | .selfRef name => fun rows => rows = .named name none

end

end

end LambdaSql
