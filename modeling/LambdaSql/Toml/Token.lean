import LambdaSql.Document.Reader

/-!
# Tokens of TOML

A text is cut into tokens without knowing what they will mean: a word may be a key or a value.

## Main definitions

* `Toml.Token`, `Toml.tokens?` - the tokens of a text.
* `Toml.readBasic?`, `Toml.readLiteral?` and their versions over several lines - quoted texts.
-/

namespace LambdaSql.Toml

/-- A token. -/
inductive Token where
  | newline
  /-- Spaces and tabs; `single` if it is just one space. -/
  | blank (single : Bool)
  | equals | comma
  | openArray | closeArray | openTable | closeTable
  /-- A quoted text; `lines` if it may run over several lines. -/
  | text (s : String) (lines : Bool)
  /-- Letters, digits and the signs that stand in keys, numbers and dates. -/
  | word (cs : List Char)
deriving DecidableEq, Repr

/-- A text read so far and how many characters it took. -/
abbrev Reading := Option (List Char × Nat)

/-- A text with a character in front that took `n` characters. -/
private def put (n : Nat) (c : Char) (r : Reading) : Reading :=
  r.map fun (cs, k) => (c :: cs, k + n)

/-- A text after `n` characters that are not part of it. -/
private def pass (n : Nat) (r : Reading) : Reading := r.map fun (cs, k) => (cs, k + n)

/-- Whether a character is a control character that no text contains. -/
def isControl (c : Char) : Bool := (c.toNat < 32 && c != '\t') || c.toNat == 127

/-- The character of a number in escaped form, unless it is a surrogate or too large. -/
def scalar? (n : Nat) : Option Char :=
  if n < 0xD800 ∨ (0xE000 ≤ n ∧ n < 0x110000) then some (Char.ofNat n) else none

/-- The character of a one-letter escape. -/
def escaped? (c : Char) : Option Char :=
  if c = '/' then none else Document.escaped? c

/-- The character of four hexadecimal digits. -/
def short? (a b c d : Char) : Option Char := (Document.hexUnit? a b c d).bind scalar?

/-- The character of eight hexadecimal digits. -/
def long? (a b c d e f g h : Char) : Option Char := do
  let high ← Document.hexUnit? a b c d
  let low ← Document.hexUnit? e f g h
  scalar? (high * 0x10000 + low)

/-- A text between quotation marks, from behind the first one on. -/
def readBasic? : List Char → Reading
  | [] => none
  | '"' :: _ => some ([], 1)
  | '\\' :: 'u' :: a :: b :: c :: d :: rest =>
    (short? a b c d).bind fun x => put 6 x (readBasic? rest)
  | '\\' :: 'U' :: a :: b :: c :: d :: e :: f :: g :: h :: rest =>
    (long? a b c d e f g h).bind fun x => put 10 x (readBasic? rest)
  | '\\' :: c :: rest => (escaped? c).bind fun x => put 2 x (readBasic? rest)
  | c :: rest => if isControl c ∨ c = '\\' then none else put 1 c (readBasic? rest)

/-- A text between apostrophes, from behind the first one on. -/
def readLiteral? : List Char → Reading
  | [] => none
  | c :: rest =>
    if c = '\'' then some ([], 1) else if isControl c then none else put 1 c (readLiteral? rest)

/-- Whether only spaces and tabs stand before the end of a line. -/
def restIsBlank (cs : List Char) : Bool :=
  match cs.dropWhile (fun c => c == ' ' || c == '\t') with
  | '\n' :: _ => true
  | '\r' :: '\n' :: _ => true
  | _ => false

/-- A text between three quotation marks each, from behind the first ones on. Up to two more may
end it. A backslash at the end of a line skips all blanks and line ends after it, which is the
case if `skipping`. -/
def readBasicLines? (skipping : Bool) : List Char → Reading
  | [] => none
  | '"' :: '"' :: '"' :: '"' :: '"' :: _ => some (['"', '"'], 5)
  | '"' :: '"' :: '"' :: '"' :: _ => some (['"'], 4)
  | '"' :: '"' :: '"' :: _ => some ([], 3)
  | '\r' :: '\n' :: rest =>
    if skipping then pass 2 (readBasicLines? true rest)
    else put 2 '\n' (readBasicLines? false rest)
  | '\\' :: 'u' :: a :: b :: c :: d :: rest =>
    (short? a b c d).bind fun x => put 6 x (readBasicLines? false rest)
  | '\\' :: 'U' :: a :: b :: c :: d :: e :: f :: g :: h :: rest =>
    (long? a b c d e f g h).bind fun x => put 10 x (readBasicLines? false rest)
  | '\\' :: c :: rest =>
    if restIsBlank (c :: rest) then
      if c = '\r' then pass 1 (readBasicLines? true (c :: rest))
      else pass 2 (readBasicLines? true rest)
    else (escaped? c).bind fun x => put 2 x (readBasicLines? false rest)
  | c :: rest =>
    if skipping && (c == ' ' || c == '\t' || c == '\n') then pass 1 (readBasicLines? true rest)
    else if (isControl c && c != '\n') ∨ c = '\\' then none
    else put 1 c (readBasicLines? false rest)

/-- A text between three apostrophes each, from behind the first ones on. Up to two more may end
it. -/
def readLiteralLines? : List Char → Reading
  | [] => none
  | '\'' :: '\'' :: '\'' :: '\'' :: '\'' :: _ => some (['\'', '\''], 5)
  | '\'' :: '\'' :: '\'' :: '\'' :: _ => some (['\''], 4)
  | '\'' :: '\'' :: '\'' :: _ => some ([], 3)
  | '\r' :: '\n' :: rest => put 2 '\n' (readLiteralLines? rest)
  | c :: rest => if isControl c && c != '\n' then none else put 1 c (readLiteralLines? rest)

/-- A text over several lines without a line end right at its start. -/
def afterLineEnd (read : List Char → Reading) : List Char → Reading
  | '\n' :: rest => pass 1 (read rest)
  | '\r' :: '\n' :: rest => pass 2 (read rest)
  | cs => read cs

/-- A quoted text as a token, and its length. -/
def textToken (lines : Bool) (r : Reading) : Option (Token × Nat) :=
  r.map fun (cs, n) => (.text (String.ofList cs) lines, n)

/-- Whether a character stands in words. -/
def isWordPart (c : Char) : Bool :=
  c.isAlphanum || c == '_' || c == '-' || c == '+' || c == '.' || c == ':'

/-- Whether a character is a blank within a line. -/
def isBlank (c : Char) : Bool := c == ' ' || c == '\t'

/-- A comment: everything up to the end of the line. -/
def comment? (cs : List Char) : Option (List Token × Nat) :=
  let body := cs.takeWhile (· != '\n')
  let ended := (cs.dropWhile (· != '\n')).head? == some '\n'
  let body := if ended && body.getLast? == some '\r' then body.dropLast else body
  if body.any isControl then none else some ([], body.length)

/-- The tokens at the start of a text, and their length. -/
def firstTokens? (cs : List Char) : Option (List Token × Nat) :=
  let one (r : Option (Token × Nat)) : Option (List Token × Nat) := r.map fun (t, n) => ([t], n)
  match cs with
  | [] => none
  | '\n' :: _ => some ([.newline], 1)
  | '\r' :: '\n' :: _ => some ([.newline], 2)
  | '"' :: '"' :: '"' :: rest =>
    one ((textToken true (afterLineEnd (readBasicLines? false) rest)).map
      fun (t, n) => (t, n + 3))
  | '"' :: rest => one ((textToken false (readBasic? rest)).map fun (t, n) => (t, n + 1))
  | '\'' :: '\'' :: '\'' :: rest =>
    one ((textToken true (afterLineEnd readLiteralLines? rest)).map fun (t, n) => (t, n + 3))
  | '\'' :: rest => one ((textToken false (readLiteral? rest)).map fun (t, n) => (t, n + 1))
  | '=' :: _ => some ([.equals], 1)
  | ',' :: _ => some ([.comma], 1)
  | '[' :: _ => some ([.openArray], 1)
  | ']' :: _ => some ([.closeArray], 1)
  | '\x7b' :: _ => some ([.openTable], 1)
  | '\x7d' :: _ => some ([.closeTable], 1)
  | '#' :: rest => (comment? rest).map fun (ts, n) => (ts, n + 1)
  | c :: rest =>
    if isBlank c then
      let run := (c :: rest).takeWhile isBlank
      some ([.blank (run == [' '])], run.length)
    else if isWordPart c then
      let run := (c :: rest).takeWhile isWordPart
      some ([.word run], run.length)
    else none

/-- The tokens of a text after `skip` characters of a token already read. -/
private def tokensFrom? (skip : Nat) (done : List Token) : List Char → Option (List Token)
  | [] => some done.reverse
  | c :: cs =>
    if 0 < skip then tokensFrom? (skip - 1) done cs
    else
      match firstTokens? (c :: cs) with
      | some (ts, n) => tokensFrom? (n - 1) (ts.reverse ++ done) cs
      | none => none

/-- The tokens of a text; a byte order mark at its start does not count. -/
def tokens? (cs : List Char) : Option (List Token) :=
  match cs with
  | [] => some []
  | c :: rest => if c.toNat = 0xFEFF then tokensFrom? 0 [] rest else tokensFrom? 0 [] cs

end LambdaSql.Toml
