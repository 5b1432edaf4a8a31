import LambdaSql.Number.Fixed
import LambdaSql.Number.Shortest
import LambdaSql.Document.Basic

/-!
# Writing documents

The text of a document without any blanks.

## Main definitions

* `Document.quote` - a text in quotation marks.
* `Document.text` - the text of a document.
-/

namespace LambdaSql.Document

/-- A hexadecimal digit. -/
def hexDigit (n : Nat) : Char := (Nat.digitChar n)

/-- A character inside quotation marks. Quotation marks, backslashes and control characters are
escaped. -/
def escape (c : Char) : List Char :=
  if c = '"' then ['\\', '"']
  else if c = '\\' then ['\\', '\\']
  else if c = '\n' then ['\\', 'n']
  else if c = '\r' then ['\\', 'r']
  else if c = '\t' then ['\\', 't']
  else if c.toNat = 8 then ['\\', 'b']
  else if c.toNat = 12 then ['\\', 'f']
  else if c.toNat < 32 then
    ['\\', 'u', '0', '0', hexDigit (c.toNat / 16), hexDigit (c.toNat % 16)]
  else [c]

/-- A text in quotation marks. -/
def quote (s : String) : String := String.ofList ('"' :: s.toList.flatMap escape ++ ['"'])

mutual

/-- The text of a document. -/
def text : Document → String
  | null => "null"
  | bool b => if b then "true" else "false"
  | int n => toString n
  | float x => if x.isFinite then Number.document.render x else "null"
  | string s => quote s
  | array items => "[" ++ ",".intercalate (itemTexts items) ++ "]"
  | object members => "\x7b" ++ ",".intercalate (memberTexts members) ++ "\x7d"

/-- The texts of the items of an array. -/
def itemTexts : List Document → List String
  | [] => []
  | d :: rest => text d :: itemTexts rest

/-- The texts of the members of an object. -/
def memberTexts : List (String × Document) → List String
  | [] => []
  | (name, d) :: rest => (quote name ++ ":" ++ text d) :: memberTexts rest

end

end LambdaSql.Document
