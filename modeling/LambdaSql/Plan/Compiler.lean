import LambdaSql.Dialect.MySql
import LambdaSql.Model.Basic
import LambdaSql.Settings.Options
import LambdaSql.Translation.Defaults

/-!
# Compilers

A compiler is everything that statements are compiled with.

## Main definitions

* `Compiler` - a dialect, a model, a translation table and options.
-/

namespace LambdaSql

/-- Everything that statements are compiled with. -/
structure Compiler where
  model : Model
  dialect : Dialect := MySql.dialect
  translations : TranslationTable := .defaults
  options : Options := {}

end LambdaSql
