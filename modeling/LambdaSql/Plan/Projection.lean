import LambdaSql.Plan.Lowering

/-!
# Projections

What a selection returns: the columns it selects, the columns an enclosing query sees, and the
expressions that are left for evaluation after fetching.

## Main definitions

* `Projected` - a projection so far.
* `Projected.push`, `Projected.pushScalar` - adding a column.
* `Projected.whole`, `Projected.member`, `Projected.object`, `Projected.body` - the forms of
  projections.
-/

namespace LambdaSql

/-- A projection so far. -/
structure Projected where
  columns : List Selected := []
  shape : List Output := []
  deferred : List Deferred := []

namespace Projected

open Planning

/-- The alias of a selected expression: none for a column that has the name already. -/
def aliasFor (name : String) : Node → Option String
  | .column _ column _ => if column = name then none else some name
  | _ => some name

/-- A projection with a named column added. If `replace`, it takes the place of the first one of
its name. -/
def push (out : Projected) (name : String) (n : Node) (replace : Bool) : Projected :=
  let selected : Selected := ⟨n, aliasFor name n⟩
  let output : Output := ⟨name, n.type⟩
  match out.shape.findIdx? (·.name == name), replace with
  | some i, true =>
    { out with columns := out.columns.set i selected, shape := out.shape.set i output }
  | _, _ => { out with columns := out.columns ++ [selected], shape := out.shape ++ [output] }

/-- A projection with several named columns added. -/
def pushAll (out : Projected) (columns : List (String × Node)) : Projected :=
  columns.foldl (fun acc c => acc.push c.1 c.2 false) out

/-- The name by which the only column of a projection is read. -/
def scalarName : Node → String
  | .column _ column _ => column
  | _ => "Value"

/-- A projection with a column added that is selected as it is. -/
def pushScalar (out : Projected) (n : Node) : Projected :=
  { out with
    columns := out.columns ++ [⟨n, none⟩]
    shape := out.shape ++ [⟨scalarName n, n.type⟩] }

/-- The column of a member of a parameter. -/
def columnOf (param member : String) : Planning Node := do
  match ← lookup param with
  | .table t => ofExcept (t.column member)
  | .grouping g => ofExcept (g.key member)

/-- A projection with an expression left for evaluation after fetching, and the columns it reads
selected under names of their own. -/
def leave (out : Projected) (name : String) (e : Expr) : Planning Projected := do
  let hidden := e.reads.map fun (param, member) =>
    (⟨param, member, name ++ "_" ++ member⟩ : HiddenColumn)
  let columns ← hidden.mapM fun h => do
    return (⟨← columnOf h.param h.member, some h.column⟩ : Selected)
  return { out with
    columns := out.columns ++ columns
    deferred := out.deferred ++ [⟨name, e, hidden⟩] }

/-- The grouping that an expression stands for, by itself or by its key. -/
def grouping? (e : Expr) : Planning (Option Grouping) := do
  let param? := match e with
    | .param p => some p
    | .member (.param p) name => if isKeyMember name then some p else none
    | _ => none
  match param?.bind (← read).binding? with
  | some (.grouping g) => return some g
  | _ => return none

/-- A projection with a named expression added. -/
def member (out : Projected) (name : String) (o : Operand) (replace : Bool) :
    Planning Projected := do
  match ← projected o.value with
  | some n => return out.push name n replace
  | none => out.leave name o.source

/-- A projection with the members of an object added. A member that stands for several grouping
keys becomes these. -/
def object (out : Projected) : List (String × Operand) → Planning Projected
  | [] => return out
  | (name, o) :: rest => do
    match ← grouping? o.source with
    | some g =>
      if 1 < g.keys.length then object (out.pushAll g.keys) rest
      else object (← out.member name o false) rest
    | none => object (← out.member name o false) rest

/-- A projection with the members of an object laid over it. -/
def overlay (out : Projected) : List (String × Operand) → Planning Projected
  | [] => return out
  | (name, o) :: rest => do overlay (← out.member name o true) rest

/-- The name under which an expression is left for evaluation after fetching. -/
def memberName : Expr → String
  | .member _ name => name
  | _ => "Value"

/-- A projection of a single expression. -/
def scalar (out : Projected) (o : Operand) : Planning Projected := do
  match ← projected o.value with
  | some n => return out.pushScalar n
  | none => out.leave (memberName o.source) o.source

/-- A projection of an expression that builds no object: grouping keys, a whole row, or a single
expression. -/
def body (out : Projected) (o : Operand) : Planning Projected := do
  match ← grouping? o.source with
  | some g => return out.pushAll g.keys
  | none =>
    match o.source with
    | .param p =>
      match ← lookup p with
      | .table t => return out.pushAll t.columns
      | .grouping g => return out.pushAll g.keys
    | _ => out.scalar o

/-- The columns of the first of several tables. -/
def firstColumns (tables : List TableBinding) : List (String × Node) :=
  (tables.head?.map TableBinding.columns).getD []

/-- The projection of a selection without one: the grouping keys, or the first table's columns. -/
def whole (tables : List TableBinding) : Option Grouping → Projected
  | some g => pushAll {} g.keys
  | none => pushAll {} (firstColumns tables)

end Projected

end LambdaSql
