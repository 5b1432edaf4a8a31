import LambdaSql.Error
import LambdaSql.Text.Blank
import LambdaSql.Text.Case

/-!
# Options

## Main definitions

* `EmptyInPolicy` - what a membership test over nothing becomes.
* `EmptyInPolicy.parse?` - the policy that a word names.
* `Options` - the choices of names and policies that statements are compiled with.
* `Options.check` - what the names have to be.
-/

namespace LambdaSql

/-- What a membership test over nothing becomes. -/
inductive EmptyInPolicy where
  /-- A test that never holds. -/
  | alwaysFalse
  /-- An error. -/
  | reject
deriving DecidableEq, Repr

/-- The policy that a word names, whatever its case. -/
def EmptyInPolicy.parse? (s : String) : Option EmptyInPolicy :=
  match String.ofList (Text.toLower (Text.trim s.toList)) with
  | "always_false" | "alwaysfalse" | "false" => some alwaysFalse
  | "reject" | "error" => some reject
  | _ => none

/-- The choices of names and policies that statements are compiled with. -/
structure Options where
  /-- The character that begins every placeholder. -/
  mark : Char := '@'
  /-- What follows the mark in generated placeholders. -/
  stem : String := "p"
  /-- The alias of the first table. -/
  firstAlias : Char := 'a'
  emptyIn : EmptyInPolicy := .alwaysFalse
  /-- Whether calls on values at hand are evaluated. -/
  foldCalls : Bool := true
deriving DecidableEq, Repr

namespace Options

/-- Whether a character may stand in the stem of placeholders: an ASCII letter, a digit or an
underscore. -/
def isStemPart (c : Char) : Bool := c.isAlphanum || c == '_'

/-- Refuses a first alias that is no lower-case ASCII letter, and a stem that is no identifier. -/
def check (o : Options) : Except SqlError Unit :=
  if !o.firstAlias.isLower then .error (.aliasNotLetter o.firstAlias)
  else if o.stem.isEmpty || !o.stem.toList.all isStemPart then .error (.stemNotIdentifier o.stem)
  else .ok ()

end Options

end LambdaSql
