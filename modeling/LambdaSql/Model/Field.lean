import LambdaSql.Error
import LambdaSql.Text.Quoted
import LambdaSql.Value.Text

/-!
# Fields

A field maps a member of an entity to a column.

## Main definitions

* `Handler` - a rule of its own by which values become database values; `Handler.enumName` and `Handler.json` are given.
* `Field` - the mapping of a member.
* `Field.toDatabase` - the value stored for a value of the member.
* `Field.describe` - a field, written out.
-/

namespace LambdaSql

/-- A rule of its own by which values become database values. Users may give rules of theirs. -/
structure Handler where
  /-- The name, as it is written out. -/
  name : String
  /-- The value stored for a value in a column of a type. -/
  toDatabase : Value → NativeType → Except SqlError Value

namespace Value

mutual

/-- A value as a document; values without a counterpart become texts, and raw bytes have none. -/
def toDocument : Value → Except SqlError Document
  | null => return .null
  | bool b => return .bool b
  | int n => return .int n.toInt
  | float x => return .ofFloat x
  | document d => return d
  | enum e => return .string e.name
  | list items => do return .array (← itemDocuments items)
  | record members => do return .ofMembers (← memberDocuments members)
  | bytes _ => throw .binaryInDocument
  | v => return .string v.text

/-- The items of a list as documents. -/
def itemDocuments : List Value → Except SqlError (List Document)
  | [] => return []
  | v :: rest => do
    let d ← toDocument v
    return d :: (← itemDocuments rest)

/-- The members of a record as documents. -/
def memberDocuments : List (String × Value) → Except SqlError (List (String × Document))
  | [] => return []
  | (name, v) :: rest => do
    let d ← toDocument v
    return (name, d) :: (← memberDocuments rest)

end

/-- An enum member as its name, and any other value as it is. -/
def nameOfEnum : Value → Value
  | enum e => string e.name
  | v => v

end Value

/-- Enum members are stored by name. -/
def Handler.enumName : Handler where
  name := "enum_name"
  toDatabase v _ := return v.nameOfEnum

/-- Values are stored as the text of a document. -/
def Handler.json : Handler where
  name := "json"
  toDatabase v _ := if v.isNull then return .null else do return .string (← v.toDocument).text

/-- The mapping of a member to a column. -/
structure Field where
  member : String
  column : String
  type : HostType
  native : NativeType
  /-- Whether the field belongs to the key. -/
  isKey : Bool := false
  /-- Whether the database makes the value. -/
  isAutomatic : Bool := false
  /-- Whether the member has no column after all. -/
  isIgnored : Bool := false
  isNullable : Bool := false
  handler : Option Handler := none

namespace Field

/-- The value stored for a value of the member. Without a handler, enum members are stored by
number in numeric columns and by name in others. -/
def toDatabase (f : Field) (v : Value) : Except SqlError Value :=
  match f.handler with
  | some h => h.toDatabase v f.native
  | none =>
    match v with
    | .enum e => return if f.native.isNumeric then .int e.number else .string e.name
    | v => return v

/-- A type, written out. -/
def describeType : HostType → String
  | .bool => "Bool"
  | .enum name => "Enum(" ++ Text.quote name ++ ")"
  | .entity name => "Entity(" ++ Text.quote name ++ ")"
  | .collection item => "Collection(" ++ describeType item ++ ")"
  | .grouping => "Grouping"
  | t => t.displayName

/-- A field, written out. -/
def describe (f : Field) : String :=
  let handler := match f.handler with
    | some h => "Some(" ++ Text.quote h.name ++ ")"
    | none => "None"
  "FieldDef \x7b member: " ++ Text.quote f.member ++ ", column: " ++ Text.quote f.column ++
    ", host_type: " ++ describeType f.type ++ ", native_type: " ++ f.native.text ++
    ", primary_key: " ++ toString f.isKey ++ ", ignore: " ++ toString f.isIgnored ++
    ", type_handler: " ++ handler ++ ", .. \x7d"

end Field

end LambdaSql
