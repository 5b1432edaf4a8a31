import LambdaSql.Value.HostType
import LambdaSql.Value.Guid
import LambdaSql.Value.Named
import LambdaSql.Calendar.Format
import LambdaSql.Document.Basic
import LambdaSql.Number.Binary

/-!
# Values

The values that expressions, rows and parameters hold.

## Main definitions

* `Value` - the type.
* `Value.hostType` - the type of a value that stands alone.
* `Value.toFloat?` and its neighbours - the views of a value.
* `Record` - members with values, each name once.
-/

namespace LambdaSql

open Calendar

/-- A member of an enum family, with its name and its number. -/
structure EnumValue where
  family : String
  name : String
  number : Int64
deriving DecidableEq, Repr

/-- A value. -/
inductive Value where
  | null
  | bool (b : Bool)
  | int (n : Int64)
  | float (x : Float)
  /-- An exact decimal, kept as it is written. -/
  | decimal (text : String)
  | string (s : String)
  | bytes (bytes : List UInt8)
  | date (d : Date)
  | moment (m : Moment)
  | time (t : Clock)
  | span (d : Duration)
  | guid (g : Guid)
  | enum (e : EnumValue)
  | list (items : List Value)
  | record (members : List (String × Value))
  | document (d : Document)
deriving Inhabited

namespace Value

mutual

/-- Whether two values are the same; floating-point numbers are compared as numbers. -/
protected def beq : Value → Value → Bool
  | null, null => true
  | bool a, bool b => a == b
  | int a, int b => a == b
  | float a, float b => a == b
  | decimal a, decimal b => a == b
  | string a, string b => a == b
  | bytes a, bytes b => a == b
  | date a, date b => a == b
  | moment a, moment b => a == b
  | time a, time b => a == b
  | span a, span b => a == b
  | guid a, guid b => a == b
  | enum a, enum b => a == b
  | list a, list b => Value.beqItems a b
  | record a, record b => Value.beqMembers a b
  | document a, document b => a == b
  | _, _ => false

/-- Whether two lists of values are the same. -/
protected def beqItems : List Value → List Value → Bool
  | [], [] => true
  | a :: as, b :: bs => Value.beq a b && Value.beqItems as bs
  | _, _ => false

/-- Whether two lists of members are the same. -/
protected def beqMembers : List (String × Value) → List (String × Value) → Bool
  | [], [] => true
  | (m, a) :: as, (n, b) :: bs => m == n && Value.beq a b && Value.beqMembers as bs
  | _, _ => false

end

instance : BEq Value := ⟨Value.beq⟩

/-- Whether a value is null. -/
def isNull : Value → Bool
  | null => true
  | _ => false

/-- The truth value that a value is. -/
def toBool? : Value → Option Bool
  | bool b => some b
  | _ => none

/-- The whole number that a value is. -/
def toInt? : Value → Option Int64
  | int n => some n
  | _ => none

/-- The text that a value is. -/
def toText? : Value → Option String
  | string s => some s
  | _ => none

/-- The number that a value is or spells, as a floating-point number. -/
def toFloat? : Value → Option Float
  | float x => some x
  | int n => some (Number.ofInt n.toInt)
  | decimal text => Number.parse? text
  | _ => none

/-- Whether a value is a list. -/
def isList : Value → Bool
  | list _ => true
  | _ => false

/-- The smaller of the two integer types that holds a number. -/
def intType (n : Int64) : HostType :=
  if -0x80000000 ≤ n.toInt ∧ n.toInt < 0x80000000 then .int32 else .int64

mutual

/-- The type of a value that stands alone. -/
def hostType : Value → HostType
  | null | document _ => .unknown
  | bool _ => .bool
  | int n => intType n
  | float _ => .double
  | decimal _ => .decimal
  | string _ => .string
  | bytes _ | record _ => .object
  | date _ => .dateOnly
  | moment _ => .dateTime
  | time _ => .timeOnly
  | span _ => .timeSpan
  | guid _ => .guid
  | enum e => .enum e.family
  | list items => .collection (itemType items)

/-- The type of the first item that is not null. -/
def itemType : List Value → HostType
  | [] => .unknown
  | v :: rest => if v.isNull then itemType rest else hostType v

end

end Value

/-! ## Records -/

/-- Members with values in a fixed order, each name once. -/
structure Record where
  members : List (String × Value)
  distinct : (members.map Prod.fst).Nodup := by decide

namespace Record

/-- The record without members. -/
def empty : Record := ⟨[], .nil⟩

/-- The record with the value of one member set. -/
def set (r : Record) (name : String) (value : Value) : Record where
  members := Named.set name value r.members
  distinct := Named.nodup_set r.distinct

/-- The record of a list of members; the last value of a name counts, at its first place. -/
def ofList (members : List (String × Value)) : Record :=
  members.foldl (fun r m => r.set m.1 m.2) empty

/-- The value of a member. -/
def get? (r : Record) (name : String) : Option Value := r.members.lookup name

/-- The number of members. -/
def size (r : Record) : Nat := r.members.length

/-- A record as a value. -/
def toValue (r : Record) : Value := .record r.members

end Record

end LambdaSql
