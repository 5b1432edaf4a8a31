import LambdaSql.Dialect.Basic
import LambdaSql.Model.Basic
import LambdaSql.Sql.Node

/-!
# Values in statements

A value is either written into a statement as a literal or bound as a parameter.

## Main definitions

* `Value.literal` - a value as a literal text.
* `Value.parameter` - a value as it is bound.
* `Node.constant`, `Node.parameter`, `Node.stored` - the nodes of values.
-/

namespace LambdaSql

/-- A value as a literal text. Lists and records have none. -/
def Value.literal (d : Dialect) : Value → Except SqlError String
  | .null => return "NULL"
  | .bool b => return d.boolLiteral b
  | .int n => return toString n.toInt
  | .float x => return Number.text x
  | .decimal text => return text
  | .string s => return d.quoteText s
  | .bytes bs =>
    return "X'" ++ String.ofList (bs.flatMap fun b => (hexDigits 2 b.toNat).map Char.toUpper) ++ "'"
  | .date v => return d.quoteText v.text
  | .moment v => return d.quoteText v.millisText
  | .time v => return d.quoteText v.microsText
  | .span v => return d.quoteText v.text
  | .guid v => return d.quoteText v.text
  | .enum e => return d.quoteText e.name
  | .document v => return d.quoteText v.text
  | v@(.list _) | v@(.record _) => throw (.noLiteral v.text)

/-- A value as it is bound, with its database type. Enum members are bound by name. -/
def Value.parameter (v : Value) : Value × NativeType :=
  match v with
  | .enum e => (.string e.name, .string)
  | .null => (.null, .string)
  | .document _ => (v, .json)
  | .bytes _ => (v, .binary)
  | _ => (v, v.hostType.native)

/-- The value stored for a member, with the database type of its column. -/
def Field.parameter (f : Field) (v : Value) : Except SqlError (Value × NativeType) := do
  return (← f.toDatabase v, f.native)

namespace Node

/-- The node of a value that is written out. -/
def constant (d : Dialect) (v : Value) : Except SqlError Node :=
  if v.isNull then return null else do return literal (← v.literal d) v v.hostType

/-- The node of a value that is bound. -/
def parameter (v : Value) : Node :=
  let (value, native) := v.parameter
  bound value native .none v.hostType

/-- The node of a value that is stored in a field, bound under a fixed name. -/
def stored (f : Field) (name : String) (v : Value) : Except SqlError Node :=
  if v.isNull then return null
  else do
    let (value, native) ← f.parameter v
    return bound value native (some name) f.type

end Node

/-- Two types that can be compared: all but the enums of two families. -/
def HostType.comparable (a b : HostType) : Except SqlError Unit :=
  match a, b with
  | .enum m, .enum n => if m = n then return () else throw (.enumFamilies m n)
  | _, _ => return ()

end LambdaSql
