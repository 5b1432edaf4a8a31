import LambdaSql.Plan.Compiler
import LambdaSql.Settings.Basic

/-!
# Compilers from settings

## Main definitions

* `Dialect.named` - the dialect that a name stands for.
* `Compiler.ofSettings` - the compiler that settings describe.
-/

namespace LambdaSql

/-- The dialect that a name stands for, whatever its case and the blanks around it. -/
def Dialect.named (name : String) : Except SqlError Dialect :=
  match String.ofList (Text.toLower (Text.trim name.toList)) with
  | "mysql" | "mariadb" => .ok MySql.dialect
  | other => .error (.unknownDialect other)

/-- The compiler that settings describe. The options are checked before the dialect. -/
def Compiler.ofSettings (model : Model) (s : Settings) : Except SqlError Compiler := do
  s.options.check
  let dialect ← Dialect.named s.dialect
  return { model, dialect, options := s.options }

end LambdaSql
