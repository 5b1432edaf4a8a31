import LambdaSql.Toml.Scalar
import LambdaSql.Toml.Table
import LambdaSql.Toml.Token

/-!
# Reading TOML

A text is a list of lines: headers, keys with values, and empty lines. Values may themselves run
over several lines.

## Main definitions

* `Toml.readKey?` - a key and the way to it.
* `Toml.readValue?` - a value.
* `Toml.readLine?` - a line.
* `Toml.parse?` - the document that a text spells.
-/

namespace LambdaSql.Toml

/-! ## Keys -/

/-- A part of a key. -/
inductive KeyPart where
  | dot
  | name (s : String)
deriving DecidableEq, Repr

/-- Whether a character stands in a name without quotes. -/
def isNamePart (c : Char) : Bool := c.isAlphanum || c == '_' || c == '-'

/-- The parts of a word in a key, `run` being the characters of a name just read, backwards. -/
def wordParts? (run : List Char) : List Char → Option (List KeyPart)
  | [] => some (if run.isEmpty then [] else [.name (String.ofList run.reverse)])
  | c :: cs =>
    if c = '.' then
      (wordParts? [] cs).map fun parts =>
        (if run.isEmpty then [] else [.name (String.ofList run.reverse)]) ++ .dot :: parts
    else if isNamePart c then wordParts? (c :: run) cs
    else none

/-- The parts of a key, and the tokens from the first one on that belongs to no key. -/
def keyParts? : List Token → Option (List KeyPart × List Token)
  | [] => some ([], [])
  | t :: rest =>
    match t with
    | .blank _ => keyParts? rest
    | .word cs => do
      let parts ← wordParts? [] cs
      let (more, rest) ← keyParts? rest
      return (parts ++ more, rest)
    | .text s false => do
      let (more, rest) ← keyParts? rest
      return (.name s :: more, rest)
    | _ => some ([], t :: rest)

/-- The names of a key, with dots between them. -/
def names? : List KeyPart → Option (List String)
  | [.name s] => some [s]
  | .name s :: .dot :: rest => (names? rest).map (s :: ·)
  | _ => none

/-- How deeply values may be nested, and how many names a key may have. -/
def maxDepth : Nat := 79

/-- A key: the path to the table it is in and its last name; and the tokens after it. -/
def readKey? (ts : List Token) : Option ((List String × String) × List Token) := do
  let (parts, rest) ← keyParts? ts
  let names ← (names? parts).filter (·.length ≤ maxDepth)
  return ((names.dropLast, ← names.getLast?), rest)

/-! ## Values -/

/-- Tokens without blanks at their start. -/
def skipBlanks : List Token → List Token
  | .blank _ :: rest => skipBlanks rest
  | ts => ts

/-- Tokens without blanks and line ends at their start. -/
def skipLines : List Token → List Token
  | .blank _ :: rest | .newline :: rest => skipLines rest
  | ts => ts

/-- A word as a value, possibly with a time after a space. -/
def readWords? (cs : List Char) (rest : List Token) : Option (Document × List Token) :=
  match rest with
  | .blank true :: .word time :: rest' =>
    if isDate cs then (readTemporal? (cs ++ ' ' :: time)).map (·, rest')
    else (readWord? cs).map (·, rest)
  | _ => (readWord? cs).map (·, rest)

mutual

/-- A value, and the tokens after it. The fuel bounds the number of steps, and `depth` the
nesting. -/
def readValue? (depth : Nat) : Nat → List Token → Option (Item × List Token)
  | 0, _ => none
  | fuel + 1, ts =>
    match ts, depth with
    | .text s _ :: rest, _ => some (.quoted s, rest)
    | .word cs :: rest, _ => (readWords? cs rest).map fun (d, rest) => (.word d, rest)
    | .openArray :: rest, depth + 1 => readItems? depth fuel [] rest
    | .openTable :: rest, depth + 1 =>
      match skipBlanks rest with
      | .closeTable :: rest => some (.inline [], rest)
      | _ => readMembers? depth fuel [] rest
    | _, _ => none

/-- The items of an array after those already read, the last one first. -/
def readItems? (depth : Nat) : Nat → List Item → List Token → Option (Item × List Token)
  | 0, _, _ => none
  | fuel + 1, done, ts =>
    match skipLines ts with
    | .closeArray :: rest => some (.array done.reverse, rest)
    | ts => do
      let (item, rest) ← readValue? depth fuel ts
      match skipLines rest with
      | .comma :: rest => readItems? depth fuel (item :: done) rest
      | .closeArray :: rest => return (.array (item :: done).reverse, rest)
      | _ => none

/-- The members of a table within braces after those already read. -/
def readMembers? (depth : Nat) : Nat → Items → List Token → Option (Item × List Token)
  | 0, _, _ => none
  | fuel + 1, done, ts => do
    let ((path, key), rest) ← readKey? ts
    match rest with
    | .equals :: rest =>
      let (item, rest) ← readValue? depth fuel (skipBlanks rest)
      let done ← assign? path key item false done
      match skipBlanks rest with
      | .comma :: rest => readMembers? depth fuel done rest
      | .closeTable :: rest => return (.inline done, rest)
      | _ => none
    | _ => none

end

/-! ## Lines -/

/-- A line. -/
inductive Line where
  | empty
  | assign (path : List String) (key : String) (item : Item)
  | table (path : List String) (key : String)
  | element (path : List String) (key : String)

/-- The tokens after the end of a line. -/
def lineEnd? (ts : List Token) : Option (List Token) :=
  match skipBlanks ts with
  | [] => some []
  | .newline :: rest => some rest
  | _ => none

/-- A line, and the tokens after it. -/
def readLine? (ts : List Token) : Option (Line × List Token) :=
  match skipBlanks ts with
  | [] => some (.empty, [])
  | .newline :: rest => some (.empty, rest)
  | .openArray :: .openArray :: rest => do
    let ((path, key), rest) ← readKey? rest
    match rest with
    | .closeArray :: .closeArray :: rest => return (.element path key, ← lineEnd? rest)
    | _ => none
  | .openArray :: rest => do
    let ((path, key), rest) ← readKey? rest
    match rest with
    | .closeArray :: rest => return (.table path key, ← lineEnd? rest)
    | _ => none
  | ts => do
    let ((path, key), rest) ← readKey? ts
    match rest with
    | .equals :: rest =>
      let (item, rest) ← readValue? maxDepth (2 * rest.length + 2) (skipBlanks rest)
      return (.assign path key item, ← lineEnd? rest)
    | _ => none

/-- The lines of a text; the fuel bounds their number. -/
def readLines? : Nat → List Token → Option (List Line)
  | _, [] => some []
  | 0, _ :: _ => none
  | fuel + 1, ts => do
    let (line, rest) ← readLine? ts
    return line :: (← readLines? fuel rest)

/-- A document so far: its items, and the way to the table that keys now go into. -/
structure Progress where
  items : Items := []
  current : List String := []

/-- One line more. -/
def Progress.step? (p : Progress) : Line → Option Progress
  | .empty => some p
  | .assign path key item => do
    return { p with items := ← change? false (assign? path key item) p.current false p.items }
  | .table path key => do
    return ⟨← openTable? path key false p.items, path ++ [key]⟩
  | .element path key => do
    return ⟨← openElement? path key false p.items, path ++ [key]⟩

/-- The document that a text spells. -/
def parse? (s : String) : Option Document := do
  let ts ← tokens? s.toList
  let lines ← readLines? ts.length ts
  let p ← lines.foldlM Progress.step? {}
  tableDocument? p.items

end LambdaSql.Toml
