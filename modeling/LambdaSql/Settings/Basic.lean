import LambdaSql.Document.Basic
import LambdaSql.Settings.Options

/-!
# Settings

What an application chooses for its statements, and the document that these choices are kept in.

## Main definitions

* `Settings` - the choices, each with its default.
* `Settings.toDocument` - settings as a document.
* `Settings.ofDocument?` - the settings that a complete document holds.
-/

namespace LambdaSql

/-- The name of a policy in a document. -/
def EmptyInPolicy.name : EmptyInPolicy → String
  | alwaysFalse => "always_false"
  | reject => "reject"

/-- The policies. -/
def EmptyInPolicy.all : List EmptyInPolicy := [.alwaysFalse, .reject]

/-- What an application chooses for its statements. -/
structure Settings where
  /-- Whether the application is being debugged. -/
  debug : Bool := true
  /-- Which events are logged. -/
  logLevel : String := "info"
  /-- The name of the dialect that statements are written in. -/
  dialect : String := "mysql"
  options : Options := {}
  /-- The members of an object for whatever else the application keeps here. -/
  extra : List (String × Document) := []

namespace Settings

/-! ## Documents -/

/-- Settings as a document. -/
def toDocument (s : Settings) : Document :=
  .ofMembers [
    ("debug", .bool s.debug),
    ("log_level", .string s.logLevel),
    ("dialect", .string s.dialect),
    ("parameter_prefix", .string (String.singleton s.options.mark)),
    ("anonymous_parameter_name", .string s.options.stem),
    ("first_table_alias", .string (String.singleton s.options.firstAlias)),
    ("empty_in_policy", .string s.options.emptyIn.name),
    ("fold_constant_calls", .bool s.options.foldCalls),
    ("extra", .object s.extra)]

/-- A truth value. -/
def bool? : Document → Option Bool
  | .bool b => some b
  | _ => none

/-- A text. -/
def text? : Document → Option String
  | .string s => some s
  | _ => none

/-- A text of one character. -/
def char? (d : Document) : Option Char := do
  match (← text? d).toList with
  | [c] => some c
  | _ => none

/-- The members of an object. -/
def members? : Document → Option (List (String × Document))
  | .object ms => some ms
  | _ => none

/-- A policy: its name, alone or as the only member of an object, with nothing in it. -/
def policy? (d : Document) : Option EmptyInPolicy :=
  let named name := EmptyInPolicy.all.find? (·.name == name)
  match d with
  | .string name => named name
  | .object [(name, .null)] => named name
  | _ => none

/-- The names of the settings, in the order in which an array holds them. -/
def names : List String :=
  ["debug", "log_level", "dialect", "parameter_prefix", "anonymous_parameter_name",
    "first_table_alias", "empty_in_policy", "fold_constant_calls", "extra"]

/-- The members of a complete document: those of an object, or the items of an array with one item
for each setting. -/
def fields? : Document → Option (List (String × Document))
  | .object ms => some ms
  | .array items => if items.length = names.length then some (names.zip items) else none
  | _ => none

/-- The settings that a complete document holds. Members that are no settings do not matter. -/
def ofDocument? (d : Document) : Option Settings := do
  let ms ← fields? d
  return {
    debug := ← bool? (← Document.find? "debug" ms)
    logLevel := ← text? (← Document.find? "log_level" ms)
    dialect := ← text? (← Document.find? "dialect" ms)
    options := {
      mark := ← char? (← Document.find? "parameter_prefix" ms)
      stem := ← text? (← Document.find? "anonymous_parameter_name" ms)
      firstAlias := ← char? (← Document.find? "first_table_alias" ms)
      emptyIn := ← policy? (← Document.find? "empty_in_policy" ms)
      foldCalls := ← bool? (← Document.find? "fold_constant_calls" ms) }
    extra := ← members? (← Document.find? "extra" ms) }

end Settings

end LambdaSql
