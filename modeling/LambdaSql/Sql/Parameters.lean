import LambdaSql.Error
import LambdaSql.Value.Text

/-!
# Parameters

The values that a statement binds, in the order of their placeholders.

## Main definitions

* `Parameter` - a placeholder with its value.
* `Parameters` - the parameters of a statement, and what it takes to name further ones.
* `Parameters.anonymous`, `Parameters.named`, `Parameters.bind` - adding a parameter.
* `Parameters.child`, `Parameters.merge` - parameters of a statement within others.
-/

namespace LambdaSql

/-- A placeholder with its value. -/
structure Parameter where
  name : String
  value : Value
  native : NativeType
  /-- The position among the parameters. -/
  ordinal : Nat
deriving BEq

/-- A parameter as it is listed. -/
def Parameter.text (p : Parameter) : String :=
  p.name ++ "=" ++ p.value.text ++ " (" ++ p.native.text ++ ")"

/-- The parameters of a statement. -/
structure Parameters where
  /-- The character that begins every placeholder. -/
  mark : Char := '@'
  /-- What follows the mark in generated placeholders. -/
  stem : String := "p"
  /-- The number of the next generated placeholder. -/
  next : Nat := 0
  entries : List Parameter := []
  /-- The parameters of the statements around this one. -/
  outer : List Parameter := []
  /-- The position of the statement in its batch. -/
  statement : Option Nat := none
deriving BEq

namespace Parameters

/-- The parameters of a statement within others; it goes on numbering and sees what is bound. -/
def child (ps : Parameters) : Parameters :=
  { ps with entries := [], outer := ps.outer ++ ps.entries }

/-- Parameters for the statement at a position of a batch. -/
def beginStatement (ps : Parameters) (position : Nat) : Parameters :=
  { ps with statement := some position }

/-- The parameter of a placeholder. -/
def get? (ps : Parameters) (token : String) : Option Parameter :=
  ps.entries.find? (·.name == token)

/-- Whether a placeholder is bound. -/
def contains (ps : Parameters) (token : String) : Bool := (ps.get? token).isSome

/-- The parameter of a placeholder, here or in the statements around. -/
def visible? (ps : Parameters) (token : String) : Option Parameter :=
  (ps.get? token).or (ps.outer.find? (·.name == token))

/-- The parameters with one more at the end. -/
def push (ps : Parameters) (name : String) (value : Value) (native : NativeType) : Parameters :=
  { ps with entries := ps.entries ++ [⟨name, value, native, ps.entries.length⟩] }

/-- The parameters with one more unless its placeholder is bound. -/
def pushNew (ps : Parameters) (name : String) (value : Value) (native : NativeType) :
    Parameters :=
  if ps.contains name then ps else ps.push name value native

/-- A fixed name as a placeholder. -/
def token (ps : Parameters) (name : String) : String := String.ofList (ps.mark :: name.toList)

/-- A value bound to a generated placeholder. -/
def anonymous (ps : Parameters) (value : Value) (native : NativeType) : String × Parameters :=
  let name := ps.token (ps.stem ++ toString ps.next)
  (name, { ps.push name value native with next := ps.next + 1 })

/-- A value bound to a fixed placeholder unless something is. -/
def named (ps : Parameters) (name : String) (value : Value) (native : NativeType) :
    String × Parameters :=
  (ps.token name, ps.pushNew (ps.token name) value native)

/-- Whether a placeholder in sight has a value; `none` when there is no such placeholder. -/
def agrees? (ps : Parameters) (token : String) (value : Value) : Option Bool :=
  (ps.visible? token).map fun p => p.value == value

/-- A value bound to a fixed placeholder. If the placeholder has another value, the position of
the statement in its batch tells the two apart; without a batch that is an error. -/
def bind (ps : Parameters) (name : String) (value : Value) (native : NativeType) :
    Except SqlError (String × Parameters) :=
  let token := ps.token name
  match ps.agrees? token value, ps.statement with
  | none, _ | some true, _ => .ok (token, ps.pushNew token value native)
  | some false, none => .error (.placeholderConflict token)
  | some false, some position =>
    let renamed := ps.token (name ++ "_" ++ toString position)
    match ps.agrees? renamed value with
    | some false => .error (.placeholderConflict renamed)
    | none | some true => .ok (renamed, ps.pushNew renamed value native)

/-- Parameters with those of a statement within them that are new. -/
def merge (ps inner : Parameters) : Parameters :=
  let merged := inner.entries.foldl (fun acc p => acc.pushNew p.name p.value p.native) ps
  { merged with next := max ps.next inner.next }

/-- Whether a parameter of a statement within others has the value that is bound there, if any. -/
def conflict? (ps inner : Parameters) : Option Parameter :=
  inner.entries.find? fun p => (ps.get? p.name).any fun q => q.value != p.value

/-- Parameters with those of a statement within them, none of which may have two values. -/
def mergeChecked (ps inner : Parameters) : Except SqlError Parameters :=
  match ps.conflict? inner with
  | some p => .error (.placeholderConflict p.name)
  | none => .ok (ps.merge inner)

/-- The placeholders in order. -/
def names (ps : Parameters) : List String := ps.entries.map (·.name)

/-- The values in order. -/
def values (ps : Parameters) : List Value := ps.entries.map (·.value)

end Parameters

end LambdaSql
