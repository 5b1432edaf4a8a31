import LambdaSql.Dialect.Basic
import LambdaSql.Sql.Parameters

/-!
# Phrases

The text of a statement is written as fragments, which are texts and placeholders. Placeholders get
their names, and their values their places among the parameters, in the order of writing.

## Main definitions

* `Fragment`, `Phrase`, `Phrase.text` - written text.
* `Phrase.joined`, `Phrase.parenthesised` - putting phrases together.
* `Writing` - writing, which adds to the parameters.
* `Writing.bind` - a placeholder for a value.
-/

namespace LambdaSql

/-- A piece of written text. -/
inductive Fragment where
  | text (s : String)
  | placeholder (token : String)
deriving DecidableEq, Repr

/-- The text of a fragment. -/
def Fragment.content : Fragment → String
  | text s => s
  | placeholder token => token

/-- Written text. -/
abbrev Phrase := List Fragment

namespace Phrase

/-- A text as a phrase. -/
def ofText (s : String) : Phrase := [.text s]

instance : Coe String Phrase := ⟨ofText⟩

/-- The text of a phrase. -/
def text (p : Phrase) : String := String.join (p.map Fragment.content)

/-- Phrases with a text between them. -/
def joined (separator : String) : List Phrase → Phrase
  | [] => []
  | [p] => p
  | p :: rest => p ++ ofText separator ++ joined separator rest

/-- A phrase in parentheses. -/
def parenthesised (p : Phrase) : Phrase := ofText "(" ++ p ++ ofText ")"

/-- A phrase in parentheses if they are needed. -/
def parenthesisedIf (needed : Bool) (p : Phrase) : Phrase := if needed then p.parenthesised else p

end Phrase

/-- Writing, which adds to the parameters. -/
abbrev Writing (α : Type) := StateT Parameters (Except SqlError) α

/-- A placeholder for a value, under a fixed name or a generated one. -/
def Writing.bind (name : Option String) (value : Value) (native : NativeType) : Writing Phrase := do
  let ps ← get
  let (token, ps) ← match name with
    | some name => ps.bind name value native
    | none => pure (ps.anonymous value native)
  set ps
  return [.placeholder token]

end LambdaSql
