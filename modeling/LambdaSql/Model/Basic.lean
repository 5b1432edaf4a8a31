import LambdaSql.Model.Field

/-!
# Models

A model tells for each entity which table it is stored in, and how its members map to columns.

## Main definitions

* `Entity` - the mapping of an entity.
* `Entity.field`, `Entity.mappedFields`, `Entity.keys` - its fields.
* `Model` - the entities of a database.
* `Model.register`, `Model.entity` - adding and finding an entity.
-/

namespace LambdaSql

/-- The mapping of an entity to a table. -/
structure Entity where
  name : String
  table : String
  schema : Option String := none
  fields : List Field := []

namespace Entity

/-- The field of a mapped member. -/
def field? (e : Entity) (member : String) : Option Field :=
  e.fields.find? fun f => f.member == member && !f.isIgnored

/-- The field of a member that has to be mapped. -/
def field (e : Entity) (member : String) : Except SqlError Field :=
  match e.field? member with
  | some f => .ok f
  | none => .error (.unknownMember e.name member)

/-- Whether a member is known, mapped or not. -/
def declares (e : Entity) (member : String) : Bool := e.fields.any (·.member == member)

/-- The mapped fields in order. -/
def mappedFields (e : Entity) : List Field := e.fields.filter fun f => !f.isIgnored

/-- The fields of the key in order. -/
def keyFields (e : Entity) : List Field := e.mappedFields.filter (·.isKey)

/-- The members of the key in order. -/
def keys (e : Entity) : List String := e.keyFields.map (·.member)

end Entity

/-- The entities of a database, each name once. -/
structure Model where
  entities : List Entity := []

namespace Model

/-- The model with an entity added or replaced. -/
def register (m : Model) (e : Entity) : Model :=
  ⟨m.entities.filter (·.name != e.name) ++ [e]⟩

/-- The number of entities. -/
def size (m : Model) : Nat := m.entities.length

/-- The mapping of an entity. -/
def entity (m : Model) (name : String) : Except SqlError Entity :=
  match m.entities.find? (·.name == name) with
  | some e => .ok e
  | none => .error (.unknownEntity name)

end Model

end LambdaSql
