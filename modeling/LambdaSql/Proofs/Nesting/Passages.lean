import LambdaSql.Expr.Basic
import LambdaSql.Translation.Basic
import Mathlib.Data.List.Basic

/-!
# Queries within queries

A query may stand in an expression, as what another query reads from, or in a common table expression, to any
depth. Here are all queries and common table expressions that stand in an expression or in a query, each with the
common table expressions in whose second queries it stands. Some calls have to wait until rows have been fetched;
whether an expression may contain one is told from the translations, without knowing the types of targets.

## Main definitions

* `Passage` - a query or a common table expression where it stands.
* `Expr.passages`, `queryPassages` - the passages of an expression and of a query.
* `Expr.MayWait`, `QueryOf.MayWait` - an expression or a projection that may have to wait until rows have been
  fetched.
-/

namespace LambdaSql

/-! ## Passages -/

/-- A query or a common table expression, with the common table expressions in whose second queries it stands,
innermost first. A query may be read as a table, or stand by itself or in an expression. -/
inductive Passage where
  | query (asTable : Bool) (unions : List String) (q : Query)
  | cte (unions : List String) (c : Cte)

mutual

/-- The passages of an expression. -/
def Expr.passages (unions : List String) : Expr → List Passage
  | .lambda _ operand | .member operand _ | .unary _ operand | .convert operand _ => operand.passages unions
  | .call (some target) _ _ args => target.passages unions ++ itemsPassages unions args
  | .call none _ _ args => itemsPassages unions args
  | .binary _ left right => left.passages unions ++ right.passages unions
  | .conditional test ifTrue ifFalse => test.passages unions ++ ifTrue.passages unions ++ ifFalse.passages unions
  | .object members => membersPassages unions members
  | .array items => itemsPassages unions items
  | .query q => queryPassages false unions q
  | .param _ | .static .. | .constant _ | .captured .. => []

/-- The passages of several expressions. -/
def itemsPassages (unions : List String) : List Expr → List Passage
  | [] => []
  | e :: rest => e.passages unions ++ itemsPassages unions rest

/-- The passages of the members of an object. -/
def membersPassages (unions : List String) : List (String × Expr) → List Passage
  | [] => []
  | (_, e) :: rest => e.passages unions ++ membersPassages unions rest

/-- The passages of the tests of a clause. -/
def testsPassages (unions : List String) : List (LambdaOf Expr) → List Passage
  | [] => []
  | ⟨_, body⟩ :: rest => body.passages unions ++ testsPassages unions rest

/-- The passages of sort keys. -/
def orderPassages (unions : List String) : List (LambdaOf Expr × Bool) → List Passage
  | [] => []
  | (⟨_, body⟩, _) :: rest => body.passages unions ++ orderPassages unions rest

/-- The passages of joins. -/
def joinsPassages (unions : List String) : List (JoinOf Expr Source) → List Passage
  | [] => []
  | ⟨_, source, ⟨_, body⟩, _⟩ :: rest =>
    source.passages unions ++ body.passages unions ++ joinsPassages unions rest

/-- The passages of a grouping. -/
def keysPassages (unions : List String) : Option (LambdaOf Expr) → List Passage
  | none => []
  | some ⟨_, body⟩ => body.passages unions

/-- The passages of a projection. -/
def projectionPassages (unions : List String) : Option (ProjectionOf Expr) → List Passage
  | none => []
  | some (.select ⟨_, body⟩) | some (.flatten ⟨_, body⟩) => body.passages unions

/-- The passages of a query, itself included. -/
def queryPassages (asTable : Bool) (unions : List String) : QueryOf Expr Source → List Passage
  | ⟨source, aliasName, joins, filters, groupBy, having, orderBy, projection, distinct, limit, offset⟩ =>
    .query asTable unions ⟨source, aliasName, joins, filters, groupBy, having, orderBy, projection, distinct, limit,
      offset⟩ :: (source.passages unions ++ joinsPassages unions joins ++ testsPassages unions filters ++
        keysPassages unions groupBy ++ testsPassages unions having ++ orderPassages unions orderBy ++
        projectionPassages unions projection)

/-- The passages of what a query reads from. -/
def Source.passages (unions : List String) : Source → List Passage
  | .entity _ | .selfRef _ => []
  | .derived q => queryPassages true unions q
  | .cte ⟨name, columns, anchor, union, recursive⟩ =>
    .cte unions ⟨name, columns, anchor, union, recursive⟩ ::
      (queryPassages true unions anchor ++ unionPassages (name :: unions) union)

/-- The passages of the second query of a common table expression. -/
def unionPassages (unions : List String) : Option (QueryOf Expr Source) → List Passage
  | none => []
  | some q => queryPassages true unions q

end

/-! ## Waiting for rows -/

/-- Whether a call with a translation and a number of arguments may have to wait until rows have been fetched. -/
def Translation.waits (arity : Nat) : Translation → Bool
  | .deferred | .orElse => true
  | .toText => arity == 1
  | _ => false

section Waiting

variable (t : TranslationTable)

mutual

/-- A call that may have to wait until rows have been fetched stands in an expression, queries aside. The type of
a target is not known before it is planned, so a method may be that of any type. -/
def Expr.MayWait : Expr → Prop
  | .lambda _ operand | .member operand _ | .unary _ operand | .convert operand _ => operand.MayWait
  | .call (some target) _ method args =>
    (∃ type tr, t.method? (.ofHostType type) method (.exactly args.length) = some tr ∧
      tr.waits args.length = true) ∨ target.MayWait ∨ ItemsMayWait args
  | .call none type method args =>
    (∃ name tr, type = some name ∧ t.methodOf? name method (.exactly args.length) = some tr ∧
      tr.waits args.length = true) ∨ ItemsMayWait args
  | .binary _ left right => left.MayWait ∨ right.MayWait
  | .conditional test ifTrue ifFalse => test.MayWait ∨ ifTrue.MayWait ∨ ifFalse.MayWait
  | .object members => MembersMayWait members
  | .array items => ItemsMayWait items
  | .param _ | .static .. | .constant _ | .captured .. | .query _ => False

/-- Such a call stands in one of several expressions. -/
def ItemsMayWait : List Expr → Prop
  | [] => False
  | e :: rest => e.MayWait ∨ ItemsMayWait rest

/-- Such a call stands in a member of an object. -/
def MembersMayWait : List (String × Expr) → Prop
  | [] => False
  | (_, e) :: rest => e.MayWait ∨ MembersMayWait rest

end

/-- The projection of a query may have to wait until rows have been fetched. -/
def QueryOf.MayWait (q : Query) : Prop :=
  match q.projection with
  | none => False
  | some (.select l) | some (.flatten l) => l.body.MayWait t

end Waiting

end LambdaSql
