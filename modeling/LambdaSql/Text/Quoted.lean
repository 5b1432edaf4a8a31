import LambdaSql.Text.HiddenTable

/-!
# Quoted texts

A text between quotation marks in which every character shows: those that a reader could not tell
from their picture are written by their numbers.

## Main definitions

* `Text.isHidden` - whether a character does not show by itself.
* `Text.escape` - a character of a quoted text.
* `Text.quote` - a quoted text.
-/

namespace LambdaSql.Text

/-- Whether a character does not show by itself. -/
def isHidden (c : Char) : Bool := hiddenRanges.any fun r => r.1 ≤ c.toNat && c.toNat ≤ r.2

/-- A character of a quoted text. -/
def escape (c : Char) : String :=
  if c = '"' then "\\\""
  else if c = '\\' then "\\\\"
  else if c = '\n' then "\\n"
  else if c = '\r' then "\\r"
  else if c = '\t' then "\\t"
  else if c.toNat = 0 then "\\0"
  else if isHidden c then "\\u\x7b" ++ String.ofList (Nat.toDigits 16 c.toNat) ++ "\x7d"
  else String.singleton c

/-- A text between quotation marks. -/
def quote (s : String) : String := "\"" ++ String.join (s.toList.map escape) ++ "\""

end LambdaSql.Text
