import LambdaSql.Document.Printer
import LambdaSql.Value.Basic

/-!
# Texts of values

## Main definitions

* `Value.text` - a value as it is shown in messages and listings.
* `Value.concatText` - what a value adds to a text it is joined to.
-/

namespace LambdaSql.Value

mutual

/-- A value as it is shown. -/
def text : Value → String
  | null => "NULL"
  | bool b => if b then "true" else "false"
  | int n => toString n.toInt
  | float x => Number.text x
  | decimal text => text
  | string s => s
  | bytes bs => "<" ++ toString bs.length ++ " bytes>"
  | date d => d.text
  | moment m => m.text
  | time t => t.text
  | span d => d.text
  | guid g => g.text
  | enum e => e.name
  | document d => d.text
  | list items => "[" ++ ", ".intercalate (itemTexts items) ++ "]"
  | record members => "\x7b " ++ ", ".intercalate (memberTexts members) ++ " \x7d"

/-- The items of a list as they are shown. -/
def itemTexts : List Value → List String
  | [] => []
  | v :: rest => text v :: itemTexts rest

/-- The members of a record as they are shown. -/
def memberTexts : List (String × Value) → List String
  | [] => []
  | (name, v) :: rest => (name ++ " = " ++ text v) :: memberTexts rest

end

/-- What a value adds to a text: nothing for null, and otherwise mostly the value as it is shown. -/
def concatText : Value → String
  | null => ""
  | bool b => if b then "True" else "False"
  | v => v.text

end LambdaSql.Value
