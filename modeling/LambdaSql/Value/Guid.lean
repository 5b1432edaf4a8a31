import LambdaSql.Document.Printer

/-!
# Unique identifiers

## Main definitions

* `Guid` - a number of 128 bits.
* `Guid.text` - thirty-two hexadecimal digits in five groups.
-/

namespace LambdaSql

/-- A number of 128 bits that identifies something. -/
abbrev Guid := BitVec 128

/-- The hexadecimal digits of a number, `width` of them. -/
def hexDigits (width n : Nat) : List Char :=
  (List.range width).map fun i => Document.hexDigit (n / Nat.pow 16 (width - 1 - i) % 16)

/-- The text of an identifier: eight, four, four, four and twelve hexadecimal digits. -/
def Guid.text (g : Guid) : String :=
  let ds := hexDigits 32 g.toNat
  let group (start count : Nat) := String.ofList ((ds.drop start).take count)
  "-".intercalate [group 0 8, group 8 4, group 12 4, group 16 4, group 20 12]

end LambdaSql
