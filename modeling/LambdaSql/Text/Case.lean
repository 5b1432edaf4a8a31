import LambdaSql.Text.CaseTable

/-!
# Upper and lower case

Case conversion of whole texts. A counterpart may be several characters (`ß` becomes `SS`), and a
capital sigma becomes a final sigma at the end of a word.

## Main definitions

* `Text.toUpper`, `Text.toLower` - the case conversions.
-/

namespace LambdaSql.Text

/-- The counterpart of a character in a table of runs and a table of expansions. -/
private def counterpart (runs : List Run) (expansions : List (Nat × List Nat)) (c : Char) :
    List Char :=
  let n := c.toNat
  match expansions.find? (·.1 == n) with
  | some (_, ns) => ns.map Char.ofNat
  | none =>
    match runs.find? (·.covers n) with
    | some r => [Char.ofNat (n + r.shift).toNat]
    | none => [c]

/-- Whether a character has a case. -/
def isCased (c : Char) : Bool := casedRanges.any fun r => r.1 ≤ c.toNat && c.toNat ≤ r.2

/-- Whether a search for the next cased character steps over a character. -/
def isCaseIgnorable (c : Char) : Bool :=
  ignorableRanges.any fun r => r.1 ≤ c.toNat && c.toNat ≤ r.2

/-- Whether the first character that counts is a cased one. -/
private def meetsCased (cs : List Char) : Bool :=
  match cs.dropWhile isCaseIgnorable with
  | [] => false
  | c :: _ => isCased c

/-- The upper-case form of a text. -/
def toUpper (cs : List Char) : List Char := cs.flatMap (counterpart upperRuns upperExpansions)

/-- The lower-case form of a text whose preceding characters, last one first, are `before`. A
capital sigma ends a word when a cased character comes before it and none after it. -/
private def lowerFrom (before : List Char) : List Char → List Char
  | [] => []
  | c :: cs =>
    let lower :=
      if c = 'Σ' then [if meetsCased before && !meetsCased cs then 'ς' else 'σ']
      else counterpart lowerRuns lowerExpansions c
    lower ++ lowerFrom (c :: before) cs

/-- The lower-case form of a text. -/
def toLower (cs : List Char) : List Char := lowerFrom [] cs

end LambdaSql.Text
