import LambdaSql.Render.Select
import LambdaSql.Statement.Assign

/-!
# Compiling statements

A statement is planned and then written, after the common table expressions it reads. The
statements of a batch share their parameters.

## Main definitions

* `Compiled` - a written statement with its parameters.
* `CompiledUpdate` - an update, which may be several statements.
* `Compiler.select`, `Compiler.update`, `Compiler.delete`, `Compiler.batch` - compiling.
-/

namespace LambdaSql

open Planning

/-- A written statement. -/
structure Compiled where
  phrase : Phrase
  parameters : Parameters
  deferred : List Deferred := []

/-- The text of a statement. -/
def Compiled.sql (c : Compiled) : String := c.phrase.text

/-- A written update: one statement, or one for each row. -/
inductive CompiledUpdate where
  | single (statement : Compiled)
  | bulk (statements : List Compiled)

namespace CompiledUpdate

/-- The statements of an update. -/
def statements : CompiledUpdate → List Compiled
  | single s => [s]
  | bulk ss => ss

/-- The text of all statements. -/
def sql (u : CompiledUpdate) : String := ";".intercalate (u.statements.map Compiled.sql)

/-- The parameters of all statements, those with one placeholder only once. -/
def parameters (u : CompiledUpdate) : Parameters :=
  let start := (u.statements.head?.map fun s => s.parameters.child).getD {}
  u.statements.foldl (fun acc s => acc.merge s.parameters) start

end CompiledUpdate

/-- Compiling, which adds to the parameters. -/
abbrev Emission (α : Type) := StateT Parameters (Except Failure) α

namespace Emission

variable {α : Type}

/-- A result or an error as compiling. -/
def ofExcept : Except SqlError α → Emission α
  | .ok a => pure a
  | .error e => throw (.error e)

/-- Planning as compiling, with the common table expressions met on the way. -/
def ofPlanning (c : Compiler) (act : Planning α) : Emission (α × List CtePlan) :=
  match act.run c with
  | .ok r => pure r
  | .error e => throw e

/-- Writing as compiling. -/
def ofWriting (act : Writing α) : Emission α := fun ps =>
  match act.run ps with
  | .ok r => .ok r
  | .error e => .error (.error e)

/-- Something planned and then written after its common table expressions. -/
def planAndWrite (c : Compiler) (plan : Planning α) (write : α → Writing Phrase) :
    Emission (α × Phrase) := do
  let (a, ctes) ← ofPlanning c plan
  let p ← ofWriting do
    let head ← writeCtes c.dialect ctes
    return head ++ (← write a)
  return (a, p)

end Emission

/-! ## Selections -/

namespace Compiler

/-- New parameters. -/
def newParameters (c : Compiler) : Parameters := { mark := c.options.mark, stem := c.options.stem }

/-- A query, written. -/
def emitSelect (c : Compiler) (q : Query) : Emission (Phrase × List Deferred) := do
  let (plan, p) ← Emission.planAndWrite c (planQuery q) (writeSelect c.dialect)
  return (p, plan.deferred)

end Compiler

/-! ## Updates and deletions -/

/-- A planned update or deletion. -/
structure ChangePlan where
  table : Table
  joins : List Joined := []
  /-- The assigned columns with their values. -/
  sets : List (Node × Node) := []
  filter : Option Node

/-- The table of an entity in a clause. -/
def entityTable (e : Entity) (aliasName : Option String) : Table :=
  ⟨.named e.table e.schema, aliasName⟩

/-- The columns of assigned members. -/
def assignedColumns (target : TableBinding) (sets : List (String × Node)) :
    Except SqlError (List (Node × Node)) :=
  sets.mapM fun (member, n) => do return (← target.column member, n)

/-- The entity of a name, and its table as a binding. -/
def planTarget (entity : String) (aliasName : Option String) :
    Planning (Entity × TableBinding) := do
  let e ← ofExcept ((← read).compiler.model.entity entity)
  return (e, ⟨entity, aliasName, .entity e⟩)

/-- An update of one statement. The table has an alias only beside joined tables. -/
def planUpdate (u : Update) : Planning ChangePlan := do
  let aliasName ← if u.joins.isEmpty then pure none else some <$> nextAlias
  let (e, target) ← planTarget u.entity aliasName
  let (joins, tables) ← planJoins [target] u.joins
  let bindings := tableBindings tables
  let assigned ← planAssignments e u aliasName bindings
  if assigned.sets.isEmpty then fail (.nothingAssigned u.entity)
  let filters ← planTests bindings u.filters
  let keys ← ofExcept (keyRowsTest e aliasName u.keyRows)
  return {
    table := entityTable e aliasName, joins
    sets := ← ofExcept (assignedColumns target assigned.sets)
    filter := Node.conjunction (filters ++ assigned.keys ++ keys.toList) }

/-- A deletion. -/
def planDelete (s : Delete) : Planning ChangePlan := do
  let (e, target) ← planTarget s.entity none
  let filters ← planTests [.table target] s.filters
  let keys ← ofExcept (keyRowsTest e none s.keyRows)
  return { table := entityTable e none, filter := Node.conjunction (filters ++ keys.toList) }

/-- The statement for a row of a bulk update. Assignments for all rows come after those of the row
and hide them. -/
def planRow (u : Update) (index : Nat) (r : Record) : Planning ChangePlan := do
  let (e, target) ← planTarget u.entity none
  let uniform ← planAssignments e u none [.table target]
  let own := r.members.filter fun m => !uniform.sets.any (·.1 == m.1)
  let sets ← ofExcept (recordAssignments e u (· ++ toString index) own)
  let sets := sets ++ uniform.sets
  if sets.isEmpty then fail (.nothingAssignedInRow index u.entity)
  let keys ← ofExcept (keyTests e none (fun key => "k" ++ key ++ toString index) r)
  return {
    table := entityTable e none
    sets := ← ofExcept (assignedColumns target sets)
    filter := Node.conjunction keys }

/-- The assignments of an update. -/
def writeSets (d : Dialect) : List (Node × Node) → Writing (List Phrase)
  | [] => return []
  | (column, value) :: rest => do
    let c ← writeNode d column
    let v ← writeNode d value
    return (c ++ Phrase.ofText "=" ++ v) :: (← writeSets d rest)

/-- A planned update. -/
def writeUpdate (d : Dialect) (p : ChangePlan) : Writing Phrase := do
  let table ← writeTable d p.table
  let joins ← writeJoins d p.joins
  let sets ← writeSets d p.sets
  let filter ← writeOption d p.filter
  return Phrase.ofText "UPDATE " ++ table ++ joins ++ Phrase.ofText " SET " ++
    Phrase.joined "," sets ++ clause " WHERE " filter

/-- A planned deletion. -/
def writeDelete (d : Dialect) (p : ChangePlan) : Writing Phrase := do
  let table ← writeTable d p.table
  let filter ← writeOption d p.filter
  return Phrase.ofText "DELETE FROM " ++ table ++ clause " WHERE " filter

/-- What keeps an update from being one of several rows. -/
def bulkProblem? (u : Update) (rows : List Record) : Option SqlError :=
  if rows.isEmpty then some (.noBulkRows u.entity)
  else if !u.filters.isEmpty || !u.keyRows.isEmpty then some .bulkFiltered
  else if !u.joins.isEmpty then some .bulkJoined
  else if u.assignments.any (fun a => a matches .object _) then some .bulkWithObject
  else none

namespace Compiler

/-- An update of one statement, written. -/
def emitUpdate (c : Compiler) (u : Update) : Emission Phrase := do
  return (← Emission.planAndWrite c (planUpdate u) (writeUpdate c.dialect)).2

/-- A deletion, written. -/
def emitDelete (c : Compiler) (s : Delete) : Emission Phrase := do
  return (← Emission.planAndWrite c (planDelete s) (writeDelete c.dialect)).2

/-- The statement for a row of a bulk update, written with parameters of its own, which are then
added to those around it. -/
def emitRow (c : Compiler) (u : Update) (index : Nat) (r : Record) : Emission Compiled := do
  let outer ← get
  set outer.child
  let (_, p) ← Emission.planAndWrite c (planRow u index r) (writeUpdate c.dialect)
  let own ← get
  set (← Emission.ofExcept (outer.mergeChecked own))
  return { phrase := p, parameters := own }

/-- A bulk update, written. -/
def emitBulk (c : Compiler) (u : Update) (rows : List Record) : Emission (List Compiled) := do
  match bulkProblem? u rows with
  | some e => throw (.error e)
  | none =>
    let e ← Emission.ofExcept (c.model.entity u.entity)
    if e.keys.isEmpty then throw (.error (.bulkWithoutKey e.name))
    rows.zipIdx.mapM fun (r, i) => c.emitRow u i r

/-- A statement of a batch, written: its text, or several ones, and what is left for evaluation
after fetching. -/
def emitStatement (c : Compiler) : Statement → Emission (List Phrase × List Deferred)
  | .select q => do
    let (p, deferred) ← c.emitSelect q
    return ([p], deferred)
  | .update u =>
    match u.rows with
    | some rows => do return ((← c.emitBulk u rows).map (·.phrase), [])
    | none => do return ([← c.emitUpdate u], [])
  | .delete s => do return ([← c.emitDelete s], [])

/-! ## Entry points -/

/-- A compiled query. -/
def select (c : Compiler) (q : Query) : Compilation Compiled := do
  let ((p, deferred), parameters) ← (c.emitSelect q).run c.newParameters
  return { phrase := p, parameters, deferred }

/-- A compiled update. -/
def update (c : Compiler) (u : Update) : Compilation CompiledUpdate := do
  match u.rows with
  | some rows =>
    let (statements, _) ← (c.emitBulk u rows).run c.newParameters
    return .bulk statements
  | none =>
    let (p, parameters) ← (c.emitUpdate u).run c.newParameters
    return .single { phrase := p, parameters }

/-- A compiled deletion. -/
def delete (c : Compiler) (s : Delete) : Compilation Compiled := do
  let (p, parameters) ← (c.emitDelete s).run c.newParameters
  return { phrase := p, parameters }

/-- The statements of a batch, each at its position. -/
def emitBatch (c : Compiler) (statements : List Statement) :
    Emission (List (List Phrase × List Deferred)) :=
  statements.zipIdx.mapM fun (s, i) => do
    modify fun ps => ps.beginStatement i
    c.emitStatement s

/-- A compiled batch. -/
def batch (c : Compiler) (statements : List Statement) : Compilation Compiled := do
  if statements.isEmpty then throw (.error .emptyBatch)
  let (parts, parameters) ← (c.emitBatch statements).run c.newParameters
  return {
    phrase := Phrase.joined ";" (parts.flatMap Prod.fst)
    parameters
    deferred := parts.flatMap Prod.snd }

end Compiler

end LambdaSql
