import LambdaSql.Dialect.Function
import LambdaSql.Value.Basic

/-!
# Translations

Which database function stands for which method, member or member of a type.

## Main definitions

* `TypeKey` - the types whose methods and members are known.
* `Translation` - what a call becomes.
* `TranslationTable` - methods by type, name and number of arguments, and members by type and name.
* `TranslationTable.method?` and its neighbours - finding an entry.
-/

namespace LambdaSql

/-- A type whose methods and members are known. -/
inductive TypeKey where
  | string | dateTime | dateOnly | timeOnly | timeSpan
  | convert | math | sql
  | enumerable | grouping
  /-- What is known of all types. -/
  | object
deriving DecidableEq, Repr

namespace TypeKey

/-- The entry of the type of an expression. -/
def ofHostType : HostType → TypeKey
  | .string | .char => string
  | .dateTime => dateTime
  | .dateOnly => dateOnly
  | .timeOnly => timeOnly
  | .timeSpan => timeSpan
  | .collection _ => enumerable
  | .grouping => grouping
  | _ => object

/-- The entry of a type that is written out. Groupings are never written out. -/
def ofName? : String → Option TypeKey
  | "String" | "string" => some string
  | "DateTime" => some dateTime
  | "DateOnly" => some dateOnly
  | "TimeOnly" => some timeOnly
  | "TimeSpan" => some timeSpan
  | "Convert" => some convert
  | "Math" => some math
  | "Sql" => some sql
  | "Enumerable" => some enumerable
  | "Object" | "object" => some object
  | _ => none

/-- The name of a type. -/
def name : TypeKey → String
  | string => "String"
  | dateTime => "DateTime"
  | dateOnly => "DateOnly"
  | timeOnly => "TimeOnly"
  | timeSpan => "TimeSpan"
  | convert => "Convert"
  | math => "Math"
  | sql => "Sql"
  | enumerable => "Enumerable"
  | grouping => "IGrouping"
  | object => "Object"

end TypeKey

/-- The type of a translated call. -/
inductive ReturnType where
  | fixed (type : HostType)
  /-- The type of the first operand. -/
  | operand
deriving DecidableEq, Repr

/-- What a call becomes. -/
inductive Translation where
  | function (f : SqlFunction) (returns : ReturnType)
  | concat
  | equals
  | membership
  /-- A time shifted by a number of units, each `scale` of them. -/
  | dateAdd (unit : IntervalUnit) (scale : Int64)
  /-- A time shifted by a duration. -/
  | addSpan
  | subtract
  | substring
  | pad (f : SqlFunction)
  | trimChars (f : SqlFunction)
  | cast (target : CastTarget) (returns : HostType)
  | toText
  /-- A duration of a number of units, each of some seconds. -/
  | spanFrom (seconds : Float)
  | aggregate (f : Aggregate)
  | isIn (negated : Bool)
  | rowsExist (negated : Bool)
  /-- The target, or the argument where the target is null. -/
  | orElse
  | round
  /-- Only after fetching. -/
  | deferred

/-- What a member of an expression becomes. -/
structure MemberTranslation where
  f : SqlFunction
  returns : HostType
deriving DecidableEq, Repr

/-- What a member of a type becomes. -/
inductive StaticTranslation where
  | function (f : SqlFunction) (returns : HostType)
  | value (v : Value)

/-- How many arguments an entry is for. -/
inductive Arity where
  | exactly (n : Nat)
  | variadic
deriving DecidableEq, Repr

/-- The number of arguments that a 64-bit word stands for; the largest word stands for any
number. -/
def Arity.ofWord (n : Nat) : Arity := if n = 0xffffffffffffffff then variadic else exactly n

/-- The entries of all types. Of two entries for the same call, the later one counts. -/
structure TranslationTable where
  methods : List ((TypeKey × String × Arity) × Translation) := []
  members : List ((TypeKey × String) × MemberTranslation) := []
  statics : List ((TypeKey × String) × StaticTranslation) := []

namespace TranslationTable

/-- The table without entries. -/
def empty : TranslationTable := {}

/-- The table with one more method. -/
def registerMethod (t : TranslationTable) (key : TypeKey) (method : String) (arity : Arity)
    (translation : Translation) : TranslationTable :=
  { t with methods := ((key, method, arity), translation) :: t.methods }

/-- The table with one more member. -/
def registerMember (t : TranslationTable) (key : TypeKey) (member : String) (f : SqlFunction)
    (returns : HostType) : TranslationTable :=
  { t with members := ((key, member), ⟨f, returns⟩) :: t.members }

/-- The table with one more member of a type. -/
def registerStatic (t : TranslationTable) (key : TypeKey) (member : String)
    (translation : StaticTranslation) : TranslationTable :=
  { t with statics := ((key, member), translation) :: t.statics }

/-- The entry of a method: for the type and the number of arguments, then for the type and any
number, and then the same for all types. -/
def method? (t : TranslationTable) (key : TypeKey) (method : String) (arity : Arity) :
    Option Translation :=
  (((t.methods.lookup (key, method, arity)).or
    (t.methods.lookup (key, method, .variadic))).or
    (t.methods.lookup (.object, method, arity))).or
    (t.methods.lookup (.object, method, .variadic))

/-- The entry of a member. -/
def member? (t : TranslationTable) (key : TypeKey) (member : String) :
    Option MemberTranslation :=
  t.members.lookup (key, member)

/-- The entry of a member of a type. -/
def static? (t : TranslationTable) (key : TypeKey) (member : String) :
    Option StaticTranslation :=
  t.statics.lookup (key, member)

/-- The entry of a member of a type that is written out. -/
def staticOf? (t : TranslationTable) (type member : String) : Option StaticTranslation :=
  (TypeKey.ofName? type).bind fun key => t.static? key member

/-- The entry of a method of a type that is written out. -/
def methodOf? (t : TranslationTable) (type method : String) (arity : Arity) :
    Option Translation :=
  (TypeKey.ofName? type).bind fun key => t.method? key method arity

end TranslationTable

end LambdaSql
