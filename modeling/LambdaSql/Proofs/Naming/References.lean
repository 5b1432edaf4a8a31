import LambdaSql.Plan.Query
import LambdaSql.Proofs.Naming.Occurrence

/-!
# What a query refers to

The columns that a query refers to, told from the query alone: each member of a lambda parameter is a
column of the table that the parameter stands for, and that table has a place which follows from where
the query stands. There are no aliases here, so nothing can be confused.

## Main definitions

* `Place` - what a parameter stands for: a table at its seat, or the groups of a query.
* `Expr.references`, `queryReferences` - the columns that an expression and a query refer to.
* `Expr.isDirect`, `isDirectQuery` - the expressions and queries that read mapped entities only, under
  aliases that planning chooses.
-/

namespace LambdaSql

/-! ## Places -/

/-- A table at its seat, with its entity if there is one. -/
structure TablePlace where
  seat : Seat
  entity : Option Entity

/-- What a parameter stands for. The key of a group is an expression, and what it refers to depends on
how deeply it stands when it has selections of its own. -/
inductive Place where
  | table (t : TablePlace)
  | grouping (keys : List (String × (Nat → Multiset Reference))) (elements : List TablePlace)

/-- The parameters of the enclosing lambdas, innermost first. -/
abbrev Places := List (List (String × Place))

/-- What a parameter stands for, innermost lambda first. -/
def Places.find? (places : Places) (name : String) : Option Place := places.findSome? (·.lookup name)

/-- Parameters bound by position. Of two parameters of one name the last one counts. -/
def Places.frame (params : List String) (bound : List Place) : List (String × Place) :=
  (params.zip bound).reverse

/-- The column of a field. -/
def TablePlace.reference (t : TablePlace) (f : Field) : Multiset Reference := {⟨t.seat, f.column⟩}

/-- The column of a member of a table. -/
def TablePlace.member (t : TablePlace) (name : String) : Multiset Reference :=
  ((t.entity.bind (·.field? name)).map t.reference).getD 0

/-- All columns of a table. -/
def TablePlace.columns (t : TablePlace) : Multiset Reference :=
  (t.entity.map fun e => (e.mappedFields.map t.reference).sum).getD 0

/-- What several keys refer to. -/
def keysReferences (depth : Nat) (keys : List (String × (Nat → Multiset Reference))) :
    Multiset Reference :=
  (keys.map fun k => k.2 depth).sum

namespace Place

/-- What a member of a parameter refers to. -/
def member (depth : Nat) (name : String) : Place → Multiset Reference
  | table t => t.member name
  | grouping keys _ =>
    if isKeyMember name then keysReferences depth keys else ((keys.lookup name).map (· depth)).getD 0

/-- What a parameter by itself refers to. -/
def whole (depth : Nat) : Place → Multiset Reference
  | table t => t.columns
  | grouping keys _ => keysReferences depth keys

/-- The rows of a group. -/
def elements? : Place → Option (List TablePlace)
  | table _ => none
  | grouping _ elements => some elements

/-- A key of a group by name. -/
def key? (name : String) : Place → Option (Nat → Multiset Reference)
  | table _ => none
  | grouping keys _ => keys.lookup name

end Place

/-- The rows of the group that an expression stands for, if it is a parameter that does. -/
def Places.elements? (places : Places) : Expr → Option (List TablePlace)
  | .param name => (places.find? name).bind Place.elements?
  | _ => none

/-- The part of a key that a member of an expression is, if it is one. -/
def Places.keyPart? (places : Places) (name : String) : Expr → Option (Nat → Multiset Reference)
  | .member (.param param) key =>
    if isKeyMember key then (places.find? param).bind (Place.key? name) else none
  | _ => none

/-- What a member of an expression refers to, given what the expression refers to. -/
def memberReferences (places : Places) (depth : Nat) (name : String) (target : Expr)
    (whole : Multiset Reference) : Multiset Reference :=
  match target with
  | .param param => ((places.find? param).map (Place.member depth name)).getD 0
  | _ => ((places.keyPart? name target).map (· depth)).getD whole

/-! ## References -/

variable (model : Model)

/-- The entity of a source. -/
def Source.entity? : Source → Option Entity
  | .entity name => (model.entity name).toOption
  | _ => none

/-- The tables of a query at some depth. -/
def tablePlaces (depth : Nat) (entities : List (Option Entity)) : List TablePlace :=
  entities.zipIdx.map fun (e, i) => ⟨⟨depth, i⟩, e⟩

/-- What a selection without projection refers to: the keys of its groups, or the first table's
columns. -/
def wholeReferences (depth : Nat) (tables : List TablePlace) :
    Option (List (String × (Nat → Multiset Reference))) → Multiset Reference
  | some keys => keysReferences depth keys
  | none => (tables.head?.map TablePlace.columns).getD 0

mutual

/-- The columns that an expression refers to when it stands inside a number of selections. -/
def Expr.references (places : Places) (depth : Nat) : Expr → Multiset Reference
  | .param name => ((places.find? name).map (Place.whole depth)).getD 0
  | .member target name =>
    memberReferences places depth name target (target.references places depth)
  | .call (some target) _ _ args =>
    match places.elements? target with
    | some elements => selectorReferences places depth (elements.map .table) args
    | none => target.references places depth + itemsReferences places depth args
  | .call none _ _ args => itemsReferences places depth args
  | .binary _ left right => left.references places depth + right.references places depth
  | .unary _ operand | .convert operand _ => operand.references places depth
  | .conditional test ifTrue ifFalse =>
    test.references places depth + ifTrue.references places depth + ifFalse.references places depth
  | .object members => membersReferences places depth members
  | .array items => itemsReferences places depth items
  | .query q => queryReferences places depth q
  | .lambda .. | .static .. | .constant _ | .captured .. => 0

/-- The columns that several expressions refer to. -/
def itemsReferences (places : Places) (depth : Nat) : List Expr → Multiset Reference
  | [] => 0
  | e :: rest => e.references places depth + itemsReferences places depth rest

/-- The columns that the members of an object refer to. -/
def membersReferences (places : Places) (depth : Nat) : List (String × Expr) → Multiset Reference
  | [] => 0
  | (_, e) :: rest => e.references places depth + membersReferences places depth rest

/-- The columns that the value refers to which the first argument of a call selects from rows. -/
def selectorReferences (places : Places) (depth : Nat) (bound : List Place) :
    List Expr → Multiset Reference
  | [] => 0
  | .lambda params body :: _ => body.references (Places.frame params bound :: places) depth
  | e :: _ => e.references (Places.frame [] bound :: places) depth

/-- The columns that the tests of a clause refer to. -/
def testReferences (places : Places) (depth : Nat) (bound : List Place) :
    List (LambdaOf Expr) → Multiset Reference
  | [] => 0
  | ⟨params, body⟩ :: rest =>
    body.references (Places.frame params bound :: places) depth +
      testReferences places depth bound rest

/-- The columns that sort keys refer to. -/
def orderReferences (places : Places) (depth : Nat) (bound : List Place) :
    List (LambdaOf Expr × Bool) → Multiset Reference
  | [] => 0
  | (⟨params, body⟩, _) :: rest =>
    body.references (Places.frame params bound :: places) depth +
      orderReferences places depth bound rest

/-- The columns that the conditions of joins refer to, each of which sees the tables up to its own;
`seen` tells how many there are before the first of them. -/
def joinReferences (places : Places) (depth : Nat) (tables : List TablePlace) (seen : Nat) :
    List (JoinOf Expr Source) → Multiset Reference
  | [] => 0
  | ⟨_, _, ⟨params, body⟩, _⟩ :: rest =>
    body.references (Places.frame params ((tables.take (seen + 1)).map .table) :: places) depth +
      joinReferences places depth tables (seen + 1) rest

/-- The parts of a key that is an object. -/
def namedReferences (places : Places) :
    List (String × Expr) → List (String × (Nat → Multiset Reference))
  | [] => []
  | (name, e) :: rest => (name, fun depth => e.references places depth) :: namedReferences places rest

/-- The keys of the groups of a query. -/
def groupReferences (places : Places) (bound : List Place) :
    Option (LambdaOf Expr) → Option (List (String × (Nat → Multiset Reference)))
  | none => none
  | some ⟨params, .object ms⟩ => some (namedReferences (Places.frame params bound :: places) ms)
  | some ⟨params, body⟩ =>
    some [(keyName body, fun depth => body.references (Places.frame params bound :: places) depth)]

/-- The columns that a projection refers to. -/
def projectionReferences (places : Places) (depth : Nat) (tables : List TablePlace)
    (bound : List Place) (keys : Option (List (String × (Nat → Multiset Reference)))) :
    Option (ProjectionOf Expr) → Multiset Reference
  | none => wholeReferences depth tables keys
  | some (.select ⟨params, body⟩) => body.references (Places.frame params bound :: places) depth
  | some (.flatten ⟨params, body⟩) =>
    wholeReferences depth tables none +
      body.references (Places.frame params (tables.map .table) :: places) depth

/-- The columns that a query refers to when it stands inside a number of selections. -/
def queryReferences (places : Places) (depth : Nat) : QueryOf Expr Source → Multiset Reference
  | ⟨source, _, joins, filters, groupBy, having, orderBy, projection, _, _, _⟩ =>
    let tables := tablePlaces depth (source.entity? model :: joins.map (·.source.entity? model))
    let inner := tables.map Place.table
    let keys := groupReferences places inner groupBy
    let outer := match keys with
      | some ks => [.grouping ks tables]
      | none => inner
    joinReferences places (depth + 1) tables 1 joins + testReferences places (depth + 1) inner filters +
      keysReferences (depth + 1) (keys.getD []) +
      projectionReferences places (depth + 1) tables outer keys projection +
      testReferences places (depth + 1) outer having + orderReferences places (depth + 1) outer orderBy

end

/-! ## Direct queries -/

/-- Whether a source is a mapped entity. -/
def Source.isEntity : Source → Bool
  | .entity _ => true
  | _ => false

mutual

/-- Whether every query in an expression reads mapped entities only, under aliases that planning
chooses. -/
def Expr.isDirect : Expr → Bool
  | .lambda _ body => body.isDirect
  | .member target _ => target.isDirect
  | .call (some target) _ _ args => target.isDirect && areDirect args
  | .call none _ _ args => areDirect args
  | .binary _ left right => left.isDirect && right.isDirect
  | .unary _ operand | .convert operand _ => operand.isDirect
  | .conditional test ifTrue ifFalse => test.isDirect && ifTrue.isDirect && ifFalse.isDirect
  | .object members => areDirectMembers members
  | .array items => areDirect items
  | .query q => isDirectQuery q
  | .param _ | .static .. | .constant _ | .captured .. => true

/-- Whether several expressions are direct. -/
def areDirect : List Expr → Bool
  | [] => true
  | e :: rest => e.isDirect && areDirect rest

/-- Whether the members of an object are direct. -/
def areDirectMembers : List (String × Expr) → Bool
  | [] => true
  | (_, e) :: rest => e.isDirect && areDirectMembers rest

/-- Whether the tests of a clause are direct. -/
def areDirectTests : List (LambdaOf Expr) → Bool
  | [] => true
  | ⟨_, body⟩ :: rest => body.isDirect && areDirectTests rest

/-- Whether sort keys are direct. -/
def areDirectKeys : List (LambdaOf Expr × Bool) → Bool
  | [] => true
  | (⟨_, body⟩, _) :: rest => body.isDirect && areDirectKeys rest

/-- Whether joined tables are mapped entities, and their conditions direct. -/
def areDirectJoins : List (JoinOf Expr Source) → Bool
  | [] => true
  | ⟨_, source, ⟨_, body⟩, aliasName⟩ :: rest =>
    source.isEntity && aliasName.isNone && body.isDirect && areDirectJoins rest

/-- Whether a grouping is direct. -/
def isDirectGrouping : Option (LambdaOf Expr) → Bool
  | none => true
  | some ⟨_, body⟩ => body.isDirect

/-- Whether a projection is direct. -/
def isDirectProjection : Option (ProjectionOf Expr) → Bool
  | none => true
  | some (.select ⟨_, body⟩) | some (.flatten ⟨_, body⟩) => body.isDirect

/-- Whether a query and every query in it read mapped entities only, under aliases that planning
chooses. -/
def isDirectQuery : QueryOf Expr Source → Bool
  | ⟨source, aliasName, joins, filters, groupBy, having, orderBy, projection, _, _, _⟩ =>
    source.isEntity && aliasName.isNone && areDirectJoins joins && areDirectTests filters &&
      isDirectGrouping groupBy && areDirectTests having && areDirectKeys orderBy &&
      isDirectProjection projection

end

end LambdaSql
