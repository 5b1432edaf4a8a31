import LambdaSql.Document.Reader
import LambdaSql.Error
import LambdaSql.Settings.Basic
import LambdaSql.Toml.Reader

/-!
# Loading settings

Settings are read from a text, from a file or from the environment. Whatever is not said there
keeps its default.

## Main definitions

* `Settings.ofText` - the settings of a text.
* `Settings.ofFile` - the settings of a file.
* `Settings.withEnvironment` - settings with those that the environment gives in their place.
-/

namespace LambdaSql.Settings

/-- The document that a text of a format spells. -/
def document? : SettingsFormat → String → Option Document
  | .toml => Toml.parse?
  | .json => Document.parse?

/-- The settings of a document, which may leave some of them out. -/
def ofPartial? (d : Document) : Option Settings :=
  ofDocument? (Document.merge ({} : Settings).toDocument d)

/-- The settings of a text. -/
def ofText (format : SettingsFormat) (text : String) : Except SqlError Settings :=
  match document? format text with
  | none => .error (.malformedSettings format)
  | some d =>
    match ofPartial? d with
    | none => .error (.unfitSettings format)
    | some s => .ok s

/-- The settings of a file, `files` being what can be read. -/
def ofFile (files : String → Option String) (format : SettingsFormat) (path : String) :
    Except SqlError Settings :=
  match files path with
  | none => .error (.unreadableFile format path)
  | some text => ofText format text

/-- Whether a word turns something on, whatever its case. -/
def isYes (word : String) : Bool :=
  ["true", "1", "yes"].contains (String.ofList (Text.toLower word.toList))

/-- Settings with those that the environment gives in their place. The variables are named after
the application; one that cannot be understood changes nothing. -/
def withEnvironment (application : String) (env : String → Option String) (s : Settings) :
    Settings :=
  let value (name : String) := env (application ++ "_" ++ name)
  { s with
    debug := ((value "DEBUG").map isYes).getD s.debug
    logLevel := (value "LOG_LEVEL").getD s.logLevel
    dialect := ((value "DIALECT").map fun v => String.ofList (Text.toLower v.toList)).getD s.dialect
    options := { s.options with
      mark := ((value "PARAMETER_PREFIX").bind fun v => v.toList.head?).getD s.options.mark
      emptyIn :=
        ((value "EMPTY_IN_POLICY").bind EmptyInPolicy.parse?).getD s.options.emptyIn } }

end LambdaSql.Settings
