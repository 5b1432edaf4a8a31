import LambdaSql.Dialect.MySql
import LambdaSql.Render.Select
import LambdaSql.Sql.Literal
import LambdaSql.Text.Search
import Mathlib.Data.List.Basic

/-!
# Quoted texts are read back

MySQL reads a text between single quotes, in which a quote is written twice and a backslash changes the meaning of
the next character, and a name between backticks, in which a backtick is written twice. As every quote and backslash of
the content is written twice, nothing in it ends the text early, whatever it contains and whatever comes after it.

## Main definitions

* `MySql.Quotes` - the marks around a quoted text, and whether backslashes escape in it.
* `MySql.Quotes.token?` - the scanner: the content of a quoted text, and what follows it.
* `MySql.Quotes.Delimits` - a text is one quoted text with a given content.
* `Value.quoted?` - the content of a value that is written between quotes.

## Main results

* `MySql.quoteText_eq_replace` - quoting replaces backslashes and then quotes.
* `MySql.quotes_delimit` - quoted texts, names, literals and tables.
-/

namespace LambdaSql

namespace MySql

/-! ## The scanner -/

/-- What stands around a quoted text, and whether a backslash changes the meaning of the next character in it. -/
structure Quotes where
  mark : Char
  escapes : Bool

/-- What stands around texts. -/
def Quotes.text : Quotes := ⟨'\'', true⟩

/-- What stands around names. -/
def Quotes.name : Quotes := ⟨'\x60', false⟩

/-- What a character stands for after a backslash. -/
def unescape : Char → List Char
  | '0' => ['\x00']
  | 'b' => ['\x08']
  | 'n' => ['\n']
  | 'r' => ['\r']
  | 't' => ['\t']
  | 'Z' => ['\x1a']
  | '%' => ['\\', '%']
  | '_' => ['\\', '_']
  | c => [c]

namespace Quotes

variable (q : Quotes)

/-- What is left of the content of a quoted text from within it, and what follows the text; none if it does not end. -/
def scan : List Char → Option (List Char × List Char)
  | [] => none
  | [c] => if c = q.mark then some ([], []) else none
  | c :: d :: cs =>
    if c = q.mark then if d = q.mark then (scan cs).map (Prod.map (c :: ·) id) else some ([], d :: cs)
    else if q.escapes && c = '\\' then (scan cs).map (Prod.map (unescape d ++ ·) id)
    else (scan (d :: cs)).map (Prod.map (c :: ·) id)

/-- The content of the quoted text that a text begins with, and what follows it. -/
def token? (text : String) : Option (String × String) :=
  match text.toList with
  | [] => none
  | c :: cs => if c = q.mark then (q.scan cs).map (Prod.map String.ofList String.ofList) else none

/-- Whatever follows a text, unless it goes on with the same mark, the scanner takes exactly this text and yields the
content. -/
def Delimits (text content : String) : Prop :=
  ∀ rest : String, rest.toList.head? ≠ some q.mark → q.token? (text ++ rest) = some (content, rest)

/-- A character of the content as it is written. -/
def write (c : Char) : List Char := if c = q.mark ∨ q.escapes = true ∧ c = '\\' then [c, c] else [c]

/-- A content as it is written. -/
def quote (content : String) : String := String.ofList (q.mark :: content.toList.flatMap q.write ++ [q.mark])

variable {q} {rest : List Char}

/-- The closing mark ends the text, unless the same mark follows. -/
theorem scan_mark (h : rest.head? ≠ some q.mark) : q.scan (q.mark :: rest) = some ([], rest) := by
  cases rest with
  | nil => rw [scan, if_pos rfl]
  | cons d rest => rw [scan, if_pos rfl, if_neg fun hd => h (congrArg some hd)]

/-- The scanner reads a character of the content as it is written, and is still within the text. -/
theorem scan_write (c : Char) (hrest : rest ≠ []) :
    q.scan (q.write c ++ rest) = (q.scan rest).map (Prod.map (c :: ·) id) := by
  unfold write
  by_cases hmark : c = q.mark
  · rw [if_pos (.inl hmark), List.cons_append, List.singleton_append, scan, if_pos hmark, if_pos hmark]
  · by_cases hslash : q.escapes = true ∧ c = '\\'
    · obtain ⟨hescapes, rfl⟩ := hslash
      rw [if_pos (.inr ⟨hescapes, rfl⟩), List.cons_append, List.singleton_append, scan, if_neg hmark,
        if_pos (by simp [hescapes])]
      rfl
    · obtain ⟨d, ds, rfl⟩ := List.exists_cons_of_ne_nil hrest
      rw [if_neg (not_or.mpr ⟨hmark, hslash⟩), List.singleton_append, scan, if_neg hmark,
        if_neg (by simpa using hslash)]

/-- The scanner reads a whole content as it is written. -/
theorem scan_content (cs : List Char) (h : rest.head? ≠ some q.mark) :
    q.scan (cs.flatMap q.write ++ q.mark :: rest) = some (cs, rest) := by
  induction cs with
  | nil => exact scan_mark h
  | cons c cs ih =>
    rw [List.flatMap_cons, List.append_assoc, scan_write c (by simp), ih]
    rfl

/-- A quoted content is delimited by its quotes. -/
private theorem delimits_quote (content : String) : q.Delimits (q.quote content) content := by
  intro rest h
  have htext : (q.quote content ++ rest).toList =
      q.mark :: (content.toList.flatMap q.write ++ q.mark :: rest.toList) := by
    simp [quote]
  rw [token?, htext]
  dsimp only
  rw [if_pos rfl, scan_content _ h, Option.map_some, Prod.map_apply, String.ofList_toList, String.ofList_toList]

end Quotes

/-! ## Quoting -/

/-- Texts are quoted in single quotes. -/
private theorem quoteText_eq_quote (s : String) : quoteText s = Quotes.text.quote s := by
  have hwrite (c : Char) : Quotes.text.write c =
      if c = '\\' then ['\\', '\\'] else if c = '\'' then ['\'', '\''] else [c] := by
    by_cases hslash : c = '\\'
    · simp [Quotes.write, Quotes.text, hslash]
    · by_cases hquote : c = '\''
      · simp [Quotes.write, Quotes.text, hquote]
      · simp [Quotes.write, Quotes.text, hslash, hquote]
  rw [quoteText, Quotes.quote, funext hwrite]
  rfl

/-- Names are quoted in backticks. -/
private theorem quoteIdentifier_eq_quote (name : String) : quoteIdentifier name = Quotes.name.quote name := by
  have hwrite (c : Char) : Quotes.name.write c = if c = '\x60' then ['\x60', '\x60'] else [c] := by
    by_cases hmark : c = '\x60'
    · simp [Quotes.write, Quotes.name, hmark]
    · simp [Quotes.write, Quotes.name, hmark]
  rw [quoteIdentifier, Quotes.quote, funext hwrite]
  rfl

/-- Replacing a character replaces it one by one. -/
private theorem replace_singleton (c : Char) (new cs : List Char) :
    Text.replace [c] new cs = cs.flatMap fun d => if d = c then new else [d] := by
  induction cs with
  | nil => exact Text.replace_nil (List.cons_ne_nil c [])
  | cons d cs ih =>
    rw [List.flatMap_cons, ← ih]
    split
    · next h =>
      exact h ▸ Text.replace_append (List.cons_ne_nil d [])
    · next h =>
      rw [Text.replace_cons (by simpa using Ne.symm h), List.singleton_append]

/-- Quoting replaces first the backslashes and then the quotes of a text, and puts quotes around it. -/
theorem quoteText_eq_replace (s : String) :
    quoteText s = String.ofList
      ('\'' :: Text.replace ['\''] ['\'', '\''] (Text.replace ['\\'] ['\\', '\\'] s.toList) ++ ['\'']) := by
  have hboth (c : Char) : ((if c = '\\' then ['\\', '\\'] else [c]).flatMap fun d =>
      if d = '\'' then ['\'', '\''] else [d]) =
        if c = '\\' then ['\\', '\\'] else if c = '\'' then ['\'', '\''] else [c] := by
    by_cases hslash : c = '\\'
    · rw [if_pos hslash, if_pos hslash]
      rfl
    · rw [if_neg hslash, if_neg hslash, List.flatMap_singleton]
  rw [quoteText, replace_singleton, replace_singleton, List.flatMap_assoc, funext hboth]

end MySql

/-- The content of a value that is written between quotes. -/
def Value.quoted? : Value → Option String
  | string s => some s
  | enum e => some e.name
  | document d => some d.text
  | date d => some d.text
  | moment m => some m.millisText
  | time t => some t.microsText
  | span d => some d.text
  | guid g => some g.text
  | _ => none

namespace MySql

/-- A value with a quoted content is written as this text in quotes. -/
private theorem literal_quoted {v : Value} {content : String} (h : v.quoted? = some content) :
    v.literal dialect = .ok (quoteText content) := by
  unfold Value.quoted? at h
  split at h
  all_goals first
    | exact Option.some.inj h ▸ rfl
    | exact absurd h (Option.some_ne_none _).symm

/-- **Quoted texts and names are read back.** Whatever characters they contain, quoted texts and quoted names are each
one token with their content. So are the literals of texts, enum members, documents and whatever else is written
between quotes, and so are the names of tables and columns behind their schema or alias.

**Proof sketch.** Quoting doubles or escapes exactly the characters that would end the token or change its content, so
scanning a quoted text takes off one character after another until it comes to the closing quote. -/
theorem quotes_delimit :
    (∀ s, Quotes.text.Delimits (quoteText s) s) ∧
    (∀ name, Quotes.name.Delimits (quoteIdentifier name) name) ∧
    (∀ (v : Value) content, v.quoted? = some content →
      ∃ sql, v.literal dialect = .ok sql ∧ Quotes.text.Delimits sql content) ∧
    (∀ table schema, ∃ before after, dialect.qualifiedTable table schema = before ++ after ∧
      before = schema.elim "" (quoteIdentifier · ++ ".") ∧ Quotes.name.Delimits after table) ∧
    ∀ aliasName column, ∃ before after, columnText dialect aliasName column = before ++ after ∧
      before = aliasName.elim "" (· ++ ".") ∧ Quotes.name.Delimits after column := by
  have htext (s : String) : Quotes.text.Delimits (quoteText s) s :=
    quoteText_eq_quote s ▸ Quotes.delimits_quote s
  have hname (name : String) : Quotes.name.Delimits (quoteIdentifier name) name :=
    quoteIdentifier_eq_quote name ▸ Quotes.delimits_quote name
  refine ⟨htext, hname, fun v content h => ⟨_, literal_quoted h, htext content⟩,
    fun table schema => ⟨_, _, ?_, rfl, hname table⟩, fun aliasName column => ⟨_, _, ?_, rfl, hname column⟩⟩
  · cases schema with
    | none => exact String.empty_append.symm
    | some _ => rfl
  · cases aliasName with
    | none => exact String.empty_append.symm
    | some _ => rfl

/-- A text that tries to break out of its quotes is scanned as one literal, and so is such a name. -/
theorem breakout_scanned :
    (∃ sql, (Value.string "\\' OR 1=1 -- ").literal dialect = .ok sql ∧
      Quotes.text.token? (sql ++ " AND") = some ("\\' OR 1=1 -- ", " AND")) ∧
    Quotes.name.token? (quoteIdentifier "a\x60" ++ "=1") = some ("a\x60", "=1") := by
  obtain ⟨-, hname, hliteral, -, -⟩ := quotes_delimit
  obtain ⟨sql, hsql, hdelimits⟩ := hliteral (.string "\\' OR 1=1 -- ") _ rfl
  exact ⟨⟨sql, hsql, hdelimits " AND" (by decide)⟩, hname "a\x60" "=1" (by decide)⟩

end MySql

end LambdaSql
