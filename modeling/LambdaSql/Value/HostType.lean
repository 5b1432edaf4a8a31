/-!
# Types

The types of expressions, and the types that columns and parameters are declared with in the
database.

## Main definitions

* `HostType` - the type of an expression.
* `NativeType` - the type a parameter is bound with.
* `HostType.native` - the default binding of a type.
* `HostType.widen` - the type of an arithmetic result.
* `HostType.text`, `NativeType.text` - the constructors, written out.
-/

namespace LambdaSql

/-- The database type of a column or a parameter. -/
inductive NativeType where
  | boolean | byte | int16 | int32 | int64 | double | decimal
  | string | dateTime | date | time | guid | binary | json
deriving DecidableEq, Repr, Inhabited

/-- The type of an expression. -/
inductive HostType where
  | bool | byte | int16 | int32 | int64 | double | decimal
  | string | char
  | dateTime | dateOnly | timeOnly | timeSpan
  | guid
  /-- A named family of enum members. -/
  | enum (name : String)
  /-- A row of a mapped entity. -/
  | entity (name : String)
  | collection (item : HostType)
  /-- What the parameters of a grouped query stand for. -/
  | grouping
  | object
  | unknown
deriving DecidableEq, Repr, Inhabited

/-- Whether a database type holds numbers. -/
def NativeType.isNumeric : NativeType → Bool
  | .byte | .int16 | .int32 | .int64 | .double | .decimal => true
  | _ => false

/-- A database type, written out. -/
def NativeType.text : NativeType → String
  | .boolean => "Boolean"
  | .byte => "Byte"
  | .int16 => "Int16"
  | .int32 => "Int32"
  | .int64 => "Int64"
  | .double => "Double"
  | .decimal => "Decimal"
  | .string => "String"
  | .dateTime => "DateTime"
  | .date => "Date"
  | .time => "Time"
  | .guid => "Guid"
  | .binary => "Binary"
  | .json => "Json"

namespace HostType

/-- Whether a type holds numbers. -/
def isNumeric : HostType → Bool
  | byte | int16 | int32 | int64 | double | decimal => true
  | _ => false

/-- Whether a type holds whole numbers. -/
def isIntegral : HostType → Bool
  | byte | int16 | int32 | int64 => true
  | _ => false

/-- Whether a type holds text. -/
def isString : HostType → Bool
  | string | char => true
  | _ => false

/-- Whether a type holds points or spans of time. -/
def isTemporal : HostType → Bool
  | dateTime | dateOnly | timeOnly | timeSpan => true
  | _ => false

/-- The name of an enum family. -/
def enumName? : HostType → Option String
  | enum name => some name
  | _ => none

/-- The name of a type in signatures and messages. -/
def displayName : HostType → String
  | bool => "Boolean"
  | byte => "Byte"
  | int16 => "Int16"
  | int32 => "Int32"
  | int64 => "Int64"
  | double => "Double"
  | decimal => "Decimal"
  | string => "String"
  | char => "Char"
  | dateTime => "DateTime"
  | dateOnly => "DateOnly"
  | timeOnly => "TimeOnly"
  | timeSpan => "TimeSpan"
  | guid => "Guid"
  | enum name | entity name => name
  | collection item => "IEnumerable<" ++ displayName item ++ ">"
  | grouping => "IGrouping"
  | object => "Object"
  | unknown => "Unknown"

/-- The database type that values of a type are bound with. Enum members are bound by name. -/
def native : HostType → NativeType
  | bool => .boolean
  | byte => .byte
  | int16 => .int16
  | int32 => .int32
  | int64 => .int64
  | double => .double
  | decimal => .decimal
  | dateTime => .dateTime
  | dateOnly => .date
  | timeOnly | timeSpan => .time
  | guid => .guid
  | collection _ | object => .json
  | string | char | enum _ | entity _ | grouping | unknown => .string

/-- How wide the numbers of a type are; zero for other types. -/
def width : HostType → Nat
  | byte => 1
  | int16 => 2
  | int32 => 3
  | int64 => 4
  | decimal => 5
  | double => 6
  | _ => 0

/-- The wider of two types; the first one when they are equally wide. -/
def widen (a b : HostType) : HostType := if a.width < b.width then b else a

end HostType

end LambdaSql
