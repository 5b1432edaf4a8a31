import LambdaSql.Plan.Query
import LambdaSql.Statement.Basic

/-!
# Assignments and keys

## Main definitions

* `AssignmentPlan`, `planAssignments` - what an update assigns.
* `rowAssignments` - what a row of a bulk update assigns.
* `keyTests`, `keyRowsTest` - tests that rows have certain keys.
-/

namespace LambdaSql

open Planning

/-- A member of a record that has to be there. -/
def Record.require (r : Record) (member : String) : Except SqlError Value :=
  match r.get? member with
  | some v => if v.isNull then throw (.keyMissing member) else return v
  | none => throw (.keyMissing member)

/-- What an update assigns, by member, and the tests that go with it. -/
structure AssignmentPlan where
  sets : List (String × Node) := []
  keys : List Node := []

/-- The plan with the value of a member set. -/
def AssignmentPlan.set (p : AssignmentPlan) (member : String) (n : Node) : AssignmentPlan :=
  { p with sets := Named.set member n p.sets }

/-! ## Records -/

/-- The field of a member of a record that assigns it; none for members that are left out. -/
def assignedField (e : Entity) (u : Update) (member : String) :
    Except SqlError (Option Field) :=
  match e.field? member with
  | some f => return if f.isKey || f.isAutomatic || !u.includes member then none else some f
  | none => if e.declares member then return none else throw (.unknownMember e.name member)

/-- What a record assigns, each value bound under a name made from the member's. -/
def recordAssignments (e : Entity) (u : Update) (nameOf : String → String) :
    List (String × Value) → Except SqlError (List (String × Node))
  | [] => return []
  | (member, v) :: rest => do
    match ← assignedField e u member with
    | none => recordAssignments e u nameOf rest
    | some f =>
      let n ← Node.stored f (nameOf member) v
      return (member, n) :: (← recordAssignments e u nameOf rest)

/-- The tests that the key of a row is that of a record, each value bound under a name made from
the member's. -/
def keyTests (e : Entity) (aliasName : Option String) (nameOf : String → String) (r : Record) :
    Except SqlError (List Node) :=
  e.keys.mapM fun key => do
    let f ← e.field key
    let v ← r.require key
    return .equal (.column aliasName f.column f.type) (← Node.stored f (nameOf key) v)

/-- What a record with a key assigns. -/
def planObject (e : Entity) (u : Update) (aliasName : Option String) (r : Record)
    (p : AssignmentPlan) : Except SqlError AssignmentPlan := do
  if e.keys.isEmpty then throw (.objectWithoutKey e.name)
  let keys ← keyTests e aliasName ("k" ++ ·) r
  let sets ← recordAssignments e u id r.members
  return sets.foldl (fun acc s => acc.set s.1 s.2) { p with keys := p.keys ++ keys }

/-! ## Lambdas -/

/-- The values that the members of an object assign. -/
def assignedMembers (e : Entity) : List (String × Expr) → Planning (List (String × Node))
  | [] => return []
  | (member, value) :: rest => do
    let _ ← ofExcept (e.field member)
    let n ← Lowering.assigned (operand value)
    return (member, n) :: (← assignedMembers e rest)

/-- What a lambda that returns an object assigns. -/
def lambdaAssignments (e : Entity) (bindings : List Binding) (l : Lambda) :
    Planning (List (String × Node)) :=
  withFrame l.params bindings do
    match l.body.objectMembers? with
    | some members => assignedMembers e members
    | none => fail .setNotObject

/-- The value that is assigned to a field. In a bulk update a value at hand is bound once, under
the name of the member. -/
def fieldAssignment (e : Entity) (u : Update) (bindings : List Binding) (member : String)
    (value : Expr) : Planning Node := do
  let f ← ofExcept (e.field member)
  match value.plainValue?, u.isBulk with
  | some v, true => ofExcept (Node.stored f member v)
  | _, _ =>
    let l := value.toLambda
    withFrame l.params bindings (Lowering.assigned (operand l.body))

/-- A plan with an assignment added. -/
def planAssignment (e : Entity) (u : Update) (aliasName : Option String) (bindings : List Binding)
    (p : AssignmentPlan) : Assignment → Planning AssignmentPlan
  | .lambda l => do
    let sets ← lambdaAssignments e bindings l
    return sets.foldl (fun acc s => acc.set s.1 s.2) p
  | .field member value => do
    return p.set member (← fieldAssignment e u bindings member value)
  | .value member v => do
    let f ← ofExcept (e.field member)
    return p.set member (← ofExcept (Node.stored f member v))
  | .object r => ofExcept (planObject e u aliasName r p)

/-- What an update assigns. -/
def planAssignments (e : Entity) (u : Update) (aliasName : Option String)
    (bindings : List Binding) : Planning AssignmentPlan :=
  u.assignments.foldlM (planAssignment e u aliasName bindings) {}

/-! ## Keys -/

/-- The tests for the rows of a key of one member: it is one of the values given. -/
def singleKeyTest (e : Entity) (aliasName : Option String) (key : String) (rows : List Record) :
    Except SqlError Node := do
  let f ← e.field key
  let column := Node.column aliasName f.column f.type
  let items ← rows.zipIdx.mapM fun (r, i) => do
    Node.stored f (key ++ toString i) (← r.require key)
  match items with
  | [n] => return .equal column n
  | items => return .inList column items false

/-- The test that the key of a row is that of one of several records; none without records. -/
def keyRowsTest (e : Entity) (aliasName : Option String) (rows : List Record) :
    Except SqlError (Option Node) := do
  if rows.isEmpty then return none
  match e.keys with
  | [] => throw (.rowsWithoutKey e.name)
  | [key] => return some (← singleKeyTest e aliasName key rows)
  | _ =>
    let tests ← rows.zipIdx.mapM fun (r, i) => do
      return (Node.conjunction (← keyTests e aliasName (· ++ "_" ++ toString i) r)).map Node.group
    return Node.joined .or (tests.filterMap id)

end LambdaSql
