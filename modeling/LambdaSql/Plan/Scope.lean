import LambdaSql.Fault
import LambdaSql.Plan.Compiler
import LambdaSql.Sql.Node

/-!
# Scopes and planning

Planning turns queries and expressions into statement trees. What an expression may refer to is its
scope, which only grows inward. What planning has used up or found so far is its progress, which
also outlives a projection that turns out to need evaluation after fetching.

## Main definitions

* `Shape`, `TableBinding`, `Grouping`, `Binding` - what lambda parameters stand for.
* `Scope`, `Progress`, `Stop`, `Planning` - the parts of planning.
* `Planning.lookup`, `Planning.withFrame` - reading and extending the scope.
* `Planning.nextAlias` - the aliases `a`, `b`, `c`, ...
* `Planning.run` - the outcome of planning a statement.
-/

namespace LambdaSql

/-! ## Bindings -/

/-- The columns of a table. -/
inductive Shape where
  | entity (e : Entity)
  | derived (columns : List Output)

/-- A table that a lambda parameter stands for. -/
structure TableBinding where
  name : String
  aliasName : Option String
  shape : Shape

namespace TableBinding

/-- The column of a member. -/
def column (t : TableBinding) (member : String) : Except SqlError Node :=
  match t.shape with
  | .entity e => do
    let f ← e.field member
    return .column t.aliasName f.column f.type
  | .derived columns =>
    match columns.find? (·.name == member) with
    | some c => return .column t.aliasName c.name c.type
    | none => throw (.unknownMember t.name member)

/-- All columns, with the names they are read by. -/
def columns (t : TableBinding) : List (String × Node) :=
  match t.shape with
  | .entity e => e.mappedFields.map fun f => (f.member, .column t.aliasName f.column f.type)
  | .derived columns => columns.map fun c => (c.name, .column t.aliasName c.name c.type)

end TableBinding

/-- The groups of a grouped query: the keys by name, and the tables of their rows. -/
structure Grouping where
  keys : List (String × Node)
  elements : List TableBinding

namespace Grouping

/-- The key of a grouping with just one. -/
def singleKey (g : Grouping) : Except SqlError Node :=
  match g.keys with
  | [(_, n)] => return n
  | _ => throw .compositeKey

/-- A key by name. -/
def key (g : Grouping) (name : String) : Except SqlError Node :=
  match g.keys.lookup name with
  | some n => return n
  | none => throw (.unknownMember "IGrouping" name)

end Grouping

/-- What a lambda parameter stands for. -/
inductive Binding where
  | table (t : TableBinding)
  | grouping (g : Grouping)

/-- Tables as bindings. -/
def tableBindings (tables : List TableBinding) : List Binding := tables.map .table

/-- Whether a member of a grouping stands for its key. -/
def isKeyMember (name : String) : Bool := name == "Grouping" || name == "Key"

/-! ## Planning -/

/-- What an expression may refer to, and where it stands. -/
structure Scope where
  compiler : Compiler
  /-- The parameters of the enclosing lambdas, innermost first. -/
  frames : List (List (String × Binding)) := []
  /-- Whether what cannot be translated may be evaluated after fetching. -/
  inProjection : Bool := false
  /-- The common table expressions being planned. -/
  underway : List String := []
  /-- The common table expressions that may be read by their own second query. -/
  recursive : List (String × List Output) := []

/-- What a parameter stands for, innermost lambda first. -/
def Scope.binding? (s : Scope) (name : String) : Option Binding :=
  s.frames.findSome? (·.lookup name)

/-- What planning has used up or found so far. -/
structure Progress where
  nextAlias : Nat := 0
  /-- The common table expressions in the order of their dependencies. -/
  ctes : List CtePlan := []
  /-- The common table expressions that were read by their own second query. -/
  selfReads : List String := []

/-- Why planning ends without a result. -/
inductive Stop where
  | error (e : SqlError)
  | fault (f : Fault)
  /-- A projection has to be evaluated after fetching because of a call. -/
  | deferred (declaring method : String) (arity : Nat)
deriving DecidableEq, Repr

/-- Planning: results depend on the scope and change the progress, which no stop takes back. -/
abbrev Planning (α : Type) := ReaderT Scope (ExceptT Stop (StateM Progress)) α

namespace Planning

variable {α : Type}

/-- Planning that ends with an error. -/
def fail (e : SqlError) : Planning α := throw (.error e)

/-- A result or an error as planning. -/
def ofExcept : Except SqlError α → Planning α
  | .ok a => pure a
  | .error e => fail e

/-- A result or a fault as planning. -/
def ofFault : Except Fault α → Planning α
  | .ok a => pure a
  | .error f => throw (.fault f)

/-- What a parameter stands for. -/
def lookup (name : String) : Planning Binding := do
  match (← read).binding? name with
  | some b => return b
  | none => fail (.unboundParameter name)

/-- Parameters bound by position. Of two parameters of one name the last one counts. -/
def frame (params : List String) (bindings : List Binding) : List (String × Binding) :=
  (params.zip bindings).reverse

/-- Planning under a lambda whose parameters are bound by position. -/
def withFrame (params : List String) (bindings : List Binding) (act : Planning α) : Planning α :=
  match params[bindings.length]? with
  | some extra => fail (.surplusParameter extra)
  | none => withReader (fun s => { s with frames := frame params bindings :: s.frames }) act

/-- Planning of a selection inside an expression, where nothing is projected. -/
def asSubquery (act : Planning α) : Planning α :=
  withReader (fun s => { s with inProjection := false }) act

/-- Whether a code point is an ASCII letter. -/
def isLetterCode (n : Nat) : Bool := (65 ≤ n && n ≤ 90) || (97 ≤ n && n ≤ 122)

/-- The alias of the table at a position: letters from the first alias on, then numbered ones. -/
def aliasAt (first : Char) (position : Nat) : String :=
  let code := first.toNat + position
  if isLetterCode code then String.singleton (Char.ofNat code) else "t" ++ toString position

/-- A new alias. -/
def nextAlias : Planning String := do
  let position := (← getThe Progress).nextAlias
  modifyThe Progress fun p => { p with nextAlias := position + 1 }
  return aliasAt (← read).compiler.options.firstAlias position

/-- Planning with the next alias set to a position. -/
def restartAliases (position : Nat) : Planning Unit :=
  modifyThe Progress fun p => { p with nextAlias := position }

/-- Planning of something with aliases of its own. -/
def withOwnAliases (act : Planning α) : Planning α := do
  let outer := (← getThe Progress).nextAlias
  restartAliases 0
  let a ← act
  restartAliases outer
  return a

/-- A projected expression; none when it has to be evaluated after fetching, in which case the
aliases it used are free again. -/
def projected (act : Planning Node) : Planning (Option Node) := do
  let outer := (← getThe Progress).nextAlias
  tryCatchThe Stop (some <$> withReader (fun s => { s with inProjection := true }) act) fun stop =>
    match stop with
    | .deferred .. => do
      restartAliases outer
      return none
    | stop => throw stop

/-- The end of planning at a call that only can be evaluated after fetching. -/
def defer (declaring method : String) (arity : Nat) : Planning α := do
  if (← read).inProjection then throw (.deferred declaring method arity)
  else fail (.noTranslation declaring method arity)

end Planning

/-- Why compiling ends without a result. -/
inductive Failure where
  | error (e : SqlError)
  | fault (f : Fault)
deriving DecidableEq, Repr

/-- The result of compiling. -/
abbrev Compilation (α : Type) := Except Failure α

/-- A stop as a failure. A call left for after fetching has no translation. -/
def Stop.failure : Stop → Failure
  | error e => .error e
  | fault f => .fault f
  | deferred declaring method arity => .error (.noTranslation declaring method arity)

/-- The outcome of planning a statement, with the common table expressions met on the way. -/
def Planning.run {α : Type} (compiler : Compiler) (act : Planning α) :
    Compilation (α × List CtePlan) :=
  let (result, progress) := StateT.run (ExceptT.run (ReaderT.run act { compiler })) {}
  match result with
  | .ok a => .ok (a, progress.ctes)
  | .error stop => .error stop.failure

end LambdaSql
