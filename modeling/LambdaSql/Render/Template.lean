import LambdaSql.Number.Decimal
import LambdaSql.Render.Phrase
import LambdaSql.Sql.Node

/-!
# Templates

A template is a text with places in braces: a number stands for an argument, an asterisk for all
arguments. Anything else in braces is text.

An argument is put in parentheses unless it holds together by itself, or the place already stands
alone between a parenthesis or comma and the next. However often an argument occurs, it is written
only once, so that its values are bound once.

## Main definitions

* `Template.Piece`, `Template.pieces` - the parts of a template.
* `Template.expand` - a template with its arguments.

## Main results

* `Template.pieces_eq_bytewise` - a template of single bytes is read byte by byte.
-/

namespace LambdaSql.Template

/-- A part of a template. -/
inductive Piece where
  | char (c : Char)
  /-- An argument; `delimited` tells whether its place stands alone. -/
  | argument (index : Nat) (delimited : Bool)
  /-- All arguments. -/
  | arguments
deriving DecidableEq, Repr

/-- Whether a place between two characters stands alone. -/
def isDelimited (before after : Option Char) : Bool :=
  (before == some '(' || before == some ',') && (after == some ')' || after == some ',')

/-- The parts for what stands between braces. -/
def place (before : Option Char) (token : List Char) (after : Option Char) : List Piece :=
  if token = ['*'] then [.arguments]
  else
    match Number.parseNat? token with
    | some i => [.argument i (isDelimited before after)]
    | none => ('\x7b' :: token ++ ['\x7d']).map .char

/-- The parts of a template after a character, `token` being what has been read, backwards, of a
place that is open. -/
def piecesFrom (before : Option Char) : Option (List Char) → List Char → List Piece
  | _, [] => []
  | some token, c :: cs =>
    if c = '\x7d' then place before token.reverse cs.head? ++ piecesFrom (some c) none cs
    else piecesFrom before (some (c :: token)) cs
  | none, c :: cs =>
    if c = '\x7b' ∧ '\x7d' ∈ cs then piecesFrom before (some []) cs
    else .char c :: piecesFrom (some c) none cs

/-- The parts of a template. -/
def pieces (template : String) : List Piece := piecesFrom none none template.toList

/-! ### Reading bytes

To find the characters of a text, its bytes are decoded one after another, each looked up by its number. For the templates
of a dialect, which have characters of one byte only, it is enough to go through the bytes once. -/

/-- Whether every character of a text is a single byte. -/
def isAscii (s : String) : Bool := s.toByteArray.data.toList.all (· < 128)

/-- The bytes of a text, each as a character. -/
def bytewise (s : String) : List Char := s.toByteArray.data.toList.map fun b => Char.ofNat b.toNat

/-- A character whose bytes are below 128 is a single one: the last of several bytes is at least 128. -/
theorem map_utf8EncodeChar {c : Char} (h : ∀ b ∈ String.utf8EncodeChar c, b < 128) :
    (String.utf8EncodeChar c).map (fun b => Char.ofNat b.toNat) = [c] := by
  by_cases hsmall : c.val.toNat ≤ 127
  · have hsize : c.utf8Size = 1 := Char.utf8Size_eq_one_iff.mpr (UInt32.le_iff_toNat_le.mpr hsmall)
    have hbyte : c.val.toUInt8.toNat = c.toNat := by
      rw [UInt32.toNat_toUInt8]
      exact Nat.mod_eq_of_lt (by omega)
    rw [String.utf8EncodeChar_eq_singleton hsize, List.map_singleton, hbyte, Char.ofNat_toNat]
  · have hlast : UInt8.ofNat (c.val.toNat % 64 + 128) ∈ String.utf8EncodeChar c := by
      rw [String.utf8EncodeChar, if_neg hsmall]
      split
      · simp
      · split <;> simp
    have hlow := UInt8.lt_iff_toNat_lt.mp (h _ hlast)
    rw [UInt8.toNat_ofNat', Nat.mod_eq_of_lt (by omega)] at hlow
    exact absurd hlow (by simp)

/-- A text whose characters are single bytes has the characters that it has byte by byte. -/
theorem toList_eq_bytewise {s : String} (h : isAscii s = true) : s.toList = bytewise s := by
  obtain ⟨cs, rfl⟩ : ∃ cs, s = String.ofList cs := ⟨s.toList, String.ofList_toList.symm⟩
  have hbytes : ∀ c ∈ cs, ∀ b ∈ String.utf8EncodeChar c, b < 128 := by
    simpa [isAscii, List.utf8Encode] using h
  have hchars : bytewise (String.ofList cs) =
      cs.flatMap fun c => (String.utf8EncodeChar c).map fun b => Char.ofNat b.toNat := by
    simp [bytewise, List.utf8Encode, List.map_flatMap]
  rw [String.toList_ofList, hchars]
  clear h hchars
  induction cs with
  | nil => rfl
  | cons c cs ih =>
    obtain ⟨hc, hcs⟩ := List.forall_mem_cons.mp hbytes
    rw [List.flatMap_cons, map_utf8EncodeChar hc, List.singleton_append, ← ih hcs]

/-- A template whose characters are single bytes is read byte by byte. -/
theorem pieces_eq_bytewise {template : String} (h : isAscii template = true) :
    pieces template = piecesFrom none none (bytewise template) :=
  congrArg _ (toList_eq_bytewise h)

/-- An argument: how strongly it holds together, and the writing of it. -/
structure Argument where
  precedence : Nat
  write : Writing Phrase

/-- The parts of a template with its arguments; `written` are those written before. -/
def expandPieces (args : List Argument) (written : List (Nat × Phrase)) :
    List Piece → Writing Phrase
  | [] => return []
  | .char c :: rest => do
    return .text (String.singleton c) :: (← expandPieces args written rest)
  | .arguments :: rest => do
    let all ← args.mapM (·.write)
    return Phrase.joined "," all ++ (← expandPieces args written rest)
  | .argument i delimited :: rest => do
    match args[i]? with
    | none => return Phrase.ofText "NULL" ++ (← expandPieces args written rest)
    | some arg =>
      let p ← match written.lookup i with
        | some p => pure p
        | none => arg.write
      let needed := !delimited && arg.precedence < atomPrecedence
      return p.parenthesisedIf needed ++ (← expandPieces args ((i, p) :: written) rest)

/-- A template with its arguments. -/
def expand (template : String) (args : List Argument) : Writing Phrase :=
  expandPieces args [] (pieces template)

end LambdaSql.Template
