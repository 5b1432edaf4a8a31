import LambdaSql.Dialect.MySql
import LambdaSql.Proofs.Reading.Parser

/-!
# From characters to tokens

The text of an expression is cut into words and marks, blanks between them being dropped. What is
quoted belongs to the word in which it stands, marks and blanks included. Words and marks are then
put together to tokens: some words are keywords, some marks are written with two characters, and a
parenthesis after a word begins the arguments of a call.

## Main definitions

* `Reading.Keyword`, `Reading.Mark`, `Reading.Piece` - words and marks.
* `Reading.Quoting`, `Reading.cut` - cutting a text.
* `Reading.assemble` - the tokens of words and marks.
* `Reading.IsWord`, `Reading.IsLexeme` - texts that are not cut, and values among them.
* `Reading.read` - the tree of a text.
* `Reading.textOf` - the text of tokens.

## Main results

* `Reading.read_textOf` - the text of the tokens of a settled tree is read as that tree.
-/

namespace LambdaSql.Reading

/-! ## Words and marks -/

/-- A word with a meaning of its own. -/
inductive Keyword where
  | and | or | div | like | not | is | in | null
deriving DecidableEq, Repr

/-- The keywords. -/
def Keyword.all : List Keyword := [and, or, div, like, not, is, .in, null]

/-- A keyword as it is written. -/
def Keyword.text : Keyword → String
  | and => "AND"
  | or => "OR"
  | div => "DIV"
  | like => "LIKE"
  | not => "NOT"
  | is => "IS"
  | .in => "IN"
  | null => "NULL"

/-- The keyword that a word is, if it is one. -/
def Keyword.of? (word : String) : Option Keyword := all.find? fun k => k.text == word

/-- A character that stands for itself. -/
inductive Mark where
  | opening | closing | comma
  | less | greater | equal
  | plus | minus | star | slash | percent | ampersand | bar
deriving DecidableEq, Repr

/-- The mark that a character is, if it is one. -/
def Mark.of? : Char → Option Mark
  | '(' => some opening
  | ')' => some closing
  | ',' => some comma
  | '<' => some less
  | '>' => some greater
  | '=' => some equal
  | '+' => some plus
  | '-' => some minus
  | '*' => some star
  | '/' => some slash
  | '%' => some percent
  | '&' => some ampersand
  | '|' => some bar
  | _ => none

/-- A word or a mark. -/
inductive Piece where
  | keyword (k : Keyword)
  | word (text : String)
  | mark (m : Mark)
deriving DecidableEq, Repr

/-- The piece that a word is. -/
def Piece.ofWord (word : String) : Piece :=
  match Keyword.of? word with
  | some k => keyword k
  | none => .word word

/-! ## Cutting a text -/

/-- Where in a word a character stands. -/
inductive Quoting where
  | plain
  /-- In a text between single quotes. -/
  | quoted
  /-- In such a text, after a backslash. -/
  | escaped
  /-- In a name between backticks. -/
  | name
deriving DecidableEq, Repr

/-- Where the next character of a word stands. -/
def Quoting.next : Quoting → Char → Quoting
  | plain, '\'' => quoted
  | plain, '\x60' => name
  | plain, _ => plain
  | quoted, '\'' => plain
  | quoted, '\\' => escaped
  | quoted, _ => quoted
  | escaped, _ => quoted
  | name, '\x60' => plain
  | name, _ => name

/-- Whether a character ends a word where nothing is quoted. -/
def endsWord (c : Char) : Bool := c.isWhitespace || (Mark.of? c).isSome

/-- A word, if there is one, before other pieces. -/
def withWord (word : List Char) (pieces : List Piece) : List Piece :=
  if word = [] then pieces else .ofWord (String.ofList word) :: pieces

/-- The pieces of a text, `word` being what has been read of a word. -/
def cut : Quoting → List Char → List Char → List Piece
  | _, word, [] => withWord word []
  | q, word, c :: cs =>
    if q = .plain ∧ endsWord c = true then
      withWord word ((Mark.of? c).toList.map .mark ++ cut .plain [] cs)
    else cut (q.next c) (word ++ [c]) cs

/-- Where the character after some characters of a word stands; none if they end the word. -/
def through : Quoting → List Char → Option Quoting
  | q, [] => some q
  | q, c :: cs => if q = .plain ∧ endsWord c = true then none else through (q.next c) cs

/-- Whether characters can stand within a word. -/
def IsWord (cs : List Char) : Prop := through .plain cs = some .plain

instance (cs : List Char) : Decidable (IsWord cs) := inferInstanceAs (Decidable (_ = _))

/-- Whether a text is read as a value. -/
structure IsLexeme (text : String) : Prop where
  word : IsWord text.toList
  nonempty : text ≠ ""
  keyword : Keyword.of? text = none ∨ text = Keyword.null.text

/-! ## Putting pieces together -/

/-- The token of a single mark. -/
def Mark.token : Mark → Token
  | opening => .opening
  | closing => .closing
  | comma => .comma
  | less => .op (.of .lt)
  | greater => .op (.of .gt)
  | equal => .op (.of .eq)
  | plus => .op (.of .add)
  | minus => .op (.of .sub)
  | star => .op (.of .mul)
  | slash => .op (.of .div)
  | percent => .op (.of .mod)
  | ampersand => .op (.of .bitAnd)
  | bar => .op (.of .bitOr)

/-- The tokens of pieces; none if there is a keyword out of place. -/
def assemble : List Piece → Option (List Token)
  | [] => some []
  | .keyword .and :: rest => (assemble rest).map (.op (.of .and) :: ·)
  | .keyword .or :: rest => (assemble rest).map (.op (.of .or) :: ·)
  | .keyword .div :: rest => (assemble rest).map (.op (.of .intDiv) :: ·)
  | .keyword .like :: rest => (assemble rest).map (.op .like :: ·)
  | .keyword .is :: .keyword .null :: rest => (assemble rest).map (.isNull false :: ·)
  | .keyword .is :: .keyword .not :: .keyword .null :: rest => (assemble rest).map (.isNull true :: ·)
  | .keyword .not :: .keyword .in :: .mark .opening :: rest => (assemble rest).map (.isIn true :: ·)
  | .keyword .in :: .mark .opening :: rest => (assemble rest).map (.isIn false :: ·)
  | .keyword .not :: rest => (assemble rest).map (.not :: ·)
  | .keyword .null :: rest => (assemble rest).map (.atom Keyword.null.text :: ·)
  | .keyword .is :: _ | .keyword .in :: _ => none
  | .word name :: .mark .opening :: rest => (assemble rest).map (.call name :: ·)
  | .word text :: rest => (assemble rest).map (.atom text :: ·)
  | .mark .less :: .mark .equal :: rest => (assemble rest).map (.op (.of .le) :: ·)
  | .mark .less :: .mark .greater :: rest => (assemble rest).map (.op (.of .ne) :: ·)
  | .mark .greater :: .mark .equal :: rest => (assemble rest).map (.op (.of .ge) :: ·)
  | .mark m :: rest => (assemble rest).map (m.token :: ·)

/-- The tree of a text, if it is one. -/
def read (text : String) : Option Tree := (assemble (cut .plain [] text.toList)).bind parse

/-! ## The text of tokens -/

/-- A token as it is written. -/
def Token.text : Token → String
  | atom text => text
  | op (.of o) => o.text
  | op .like => " LIKE "
  | not => "NOT "
  | isNull negated => if negated then " IS NOT NULL" else " IS NULL"
  | isIn negated => if negated then " NOT IN (" else " IN ("
  | call name => name ++ "("
  | opening => "("
  | closing => ")"
  | comma => ","

/-- Tokens as they are written. -/
def textOf (ts : List Token) : String := String.join (ts.map Token.text)

/-- Whether the value or the function of a token, if it has one, is read as such. -/
def Token.Spelled : Token → Prop
  | atom text => IsLexeme text
  | call name => IsLexeme name ∧ Keyword.of? name = none
  | _ => True

/-- The pieces of a token. -/
def Token.pieces : Token → List Piece
  | atom text => [.ofWord text]
  | op (.of .and) => [.keyword .and]
  | op (.of .or) => [.keyword .or]
  | op (.of .intDiv) => [.keyword .div]
  | op .like => [.keyword .like]
  | op (.of .eq) => [.mark .equal]
  | op (.of .ne) => [.mark .less, .mark .greater]
  | op (.of .lt) => [.mark .less]
  | op (.of .le) => [.mark .less, .mark .equal]
  | op (.of .gt) => [.mark .greater]
  | op (.of .ge) => [.mark .greater, .mark .equal]
  | op (.of .add) => [.mark .plus]
  | op (.of .sub) => [.mark .minus]
  | op (.of .mul) => [.mark .star]
  | op (.of .div) => [.mark .slash]
  | op (.of .mod) => [.mark .percent]
  | op (.of .bitAnd) => [.mark .ampersand]
  | op (.of .bitOr) => [.mark .bar]
  | not => [.keyword .not]
  | isNull false => [.keyword .is, .keyword .null]
  | isNull true => [.keyword .is, .keyword .not, .keyword .null]
  | isIn false => [.keyword .in, .mark .opening]
  | isIn true => [.keyword .not, .keyword .in, .mark .opening]
  | call name => [.ofWord name, .mark .opening]
  | opening => [.mark .opening]
  | closing => [.mark .closing]
  | comma => [.mark .comma]

/-- The pieces of tokens. -/
def piecesOf (ts : List Token) : List Piece := ts.flatMap Token.pieces

/-! ## Cutting the text of tokens -/

/-- The scanner goes through two texts in turn. -/
theorem through_append (q : Quoting) (v w : List Char) :
    through q (v ++ w) = (through q v).bind (through · w) := by
  induction v generalizing q with
  | nil => rfl
  | cons c cs ih =>
    rw [List.cons_append, through, through]
    split
    · rfl
    · exact ih _

/-- Two words in a row are a word. -/
theorem IsWord.append {v w : List Char} (hv : IsWord v) (hw : IsWord w) : IsWord (v ++ w) := by
  rw [IsWord, through_append, hv]
  exact hw

/-- The characters of a word are read into it. -/
theorem cut_of_through {q q' : Quoting} {w : List Char} (h : through q w = some q')
    (word rest : List Char) : cut q word (w ++ rest) = cut q' (word ++ w) rest := by
  induction w generalizing q word with
  | nil =>
    cases h
    rw [List.append_nil, List.nil_append]
  | cons c cs ih =>
    rw [through] at h
    split at h
    · cases h
    · next hc =>
      rw [List.cons_append, cut, if_neg hc, ih h, List.append_assoc]
      rfl

/-- Whether characters do not go on with a word before them. -/
def Separates (cs : List Char) : Prop := ∀ c ∈ cs.head?, endsWord c = true

/-- A word ends where something separates. -/
theorem cut_of_separates {cs : List Char} (h : Separates cs) (word : List Char) :
    cut .plain word cs = withWord word (cut .plain [] cs) := by
  cases cs with
  | nil => rfl
  | cons c cs =>
    have hc : Quoting.plain = .plain ∧ endsWord c = true := ⟨rfl, h c rfl⟩
    rw [cut, if_pos hc, cut, if_pos hc]
    rfl

/-- A word is cut off whole. -/
theorem cut_word {w rest : List Char} (h : IsWord w) (hne : w ≠ []) (hrest : Separates rest) :
    cut .plain [] (w ++ rest) = .ofWord (String.ofList w) :: cut .plain [] rest := by
  rw [cut_of_through h, List.nil_append, cut_of_separates hrest, withWord, if_neg hne]

/-- Whether an operand is complete after a token. -/
def Token.completes : Token → Bool
  | atom _ | isNull _ | closing => true
  | _ => false

/-- A lexeme is cut off as one word if what follows keeps it apart. -/
private theorem cut_lexeme {text : String} {rest : List Char} (h : IsLexeme text) (hrest : Separates rest) :
    cut .plain [] (text.toList ++ rest) = .ofWord text :: cut .plain [] rest := by
  rw [cut_word h.word (by simpa using h.nonempty) hrest, String.ofList_toList]

/-- The text of a token is cut into its pieces. -/
theorem cut_token {t : Token} {rest : List Char} (h : t.Spelled)
    (hrest : t.completes = true → Separates rest) :
    cut .plain [] (t.text.toList ++ rest) = t.pieces ++ cut .plain [] rest := by
  cases t with
  | atom text => exact cut_lexeme h (hrest rfl)
  | call name =>
    rw [Token.text, String.toList_append, List.append_assoc,
      cut_lexeme h.1 (by rintro _ ⟨⟩; decide)]
    rfl
  | isNull negated =>
    have hnull : cut .plain [] (Keyword.null.text.toList ++ rest) = .keyword .null :: cut .plain [] rest :=
      cut_lexeme ⟨by decide, by decide, .inr rfl⟩ (hrest rfl)
    cases negated with
    | false => exact congrArg (Piece.keyword .is :: ·) hnull
    | true => exact congrArg (Piece.keyword .is :: .keyword .not :: ·) hnull
  | op o =>
    rcases o with op | _
    · cases op <;> rfl
    · rfl
  | isIn negated => cases negated <;> rfl
  | _ => rfl

/-- Whether a token can stand where an operand is complete, or where one is needed. -/
def Token.follows : Bool → Token → Bool
  | true, op _ | true, isNull _ | true, isIn _ | true, comma | true, closing => true
  | false, atom _ | false, op (.of .sub) | false, not | false, opening | false, call _ => true
  | _, _ => false

/-- Whether tokens stand where they can, an operand being complete before them or not. -/
def Alternate : Bool → List Token → Prop
  | _, [] => True
  | complete, t :: ts => t.follows complete = true ∧ Alternate t.completes ts

/-- A token that is read before an operand may stand there. -/
private theorem follows_of_stepBefore {stack : List Frame} {t : Token} {s : State}
    (h : stepBefore stack t = some s) : t.follows false = true ∧ t.completes = s.2.isSome := by
  unfold stepBefore at h
  split at h <;> cases h <;> exact ⟨rfl, rfl⟩

/-- A token that is read after an operand may stand there. -/
private theorem follows_of_stepAfter {stack : List Frame} {u : Tree} {t : Token} {s : State}
    (h : stepAfter stack u t = some s) : t.follows true = true ∧ t.completes = s.2.isSome := by
  unfold stepAfter at h
  split at h
  · cases h
    exact ⟨rfl, rfl⟩
  · cases h
    exact ⟨rfl, rfl⟩
  · cases h
    exact ⟨rfl, rfl⟩
  · unfold nextItem at h
    split at h <;> cases h
    exact ⟨rfl, rfl⟩
  · unfold closePart at h
    split at h <;> cases h <;> exact ⟨rfl, rfl⟩
  · cases h

/-- What the parser reads stands where it can. -/
theorem follows_of_step {s s' : State} {t : Token} (h : step s t = some s') :
    t.follows s.2.isSome = true ∧ t.completes = s'.2.isSome := by
  obtain ⟨stack, _ | u⟩ := s
  · exact follows_of_stepBefore h
  · exact follows_of_stepAfter h

/-- The tokens of a run alternate. -/
private theorem alternate_of_run {s s' : State} {ts : List Token} (h : run s ts = some s') :
    Alternate s.2.isSome ts := by
  induction ts generalizing s with
  | nil => trivial
  | cons t ts ih =>
    rw [run_cons] at h
    obtain ⟨s₁, hstep, hrun⟩ := Option.bind_eq_some_iff.mp h
    obtain ⟨hfollows, hcompletes⟩ := follows_of_step hstep
    exact ⟨hfollows, hcompletes ▸ ih hrun⟩

/-- The tokens of a parsed text alternate. -/
private theorem alternate_of_parse {ts : List Token} {t : Tree} (h : parse ts = some t) :
    Alternate false ts := by
  unfold parse at h
  split at h
  · next hrun => exact alternate_of_run hrun
  · cases h

/-- The text of tokens is that of the first and that of the others. -/
theorem textOf_cons (t : Token) (ts : List Token) : textOf (t :: ts) = t.text ++ textOf ts := by
  simp [textOf, String.join_cons]

/-- What follows an operand begins with the end of a word. -/
theorem endsWord_of_follows {t : Token} (h : t.follows true = true) :
    ∃ c cs, t.text.toList = c :: cs ∧ endsWord c = true := by
  cases t with
  | op o =>
    rcases o with op | _
    · cases op <;> exact ⟨_, _, rfl, by decide⟩
    · exact ⟨_, _, rfl, by decide⟩
  | isNull negated => cases negated <;> exact ⟨_, _, rfl, by decide⟩
  | isIn negated => cases negated <;> exact ⟨_, _, rfl, by decide⟩
  | comma | closing => exact ⟨_, _, rfl, by decide⟩
  | _ => cases h

/-- What may follow an operand keeps it apart. -/
private theorem separates_textOf {ts : List Token} (h : Alternate true ts) :
    Separates (textOf ts).toList := by
  cases ts with
  | nil => exact nofun
  | cons t ts =>
    obtain ⟨c, cs, htext, hends⟩ := endsWord_of_follows h.1
    rw [textOf_cons, String.toList_append, htext]
    rintro _ ⟨⟩
    exact hends

/-- The text of tokens is cut into their pieces. -/
theorem cut_textOf {ts : List Token} {complete : Bool} (h : Alternate complete ts)
    (hs : ∀ t ∈ ts, t.Spelled) : cut .plain [] (textOf ts).toList = piecesOf ts := by
  induction ts generalizing complete with
  | nil => rfl
  | cons t ts ih =>
    rw [textOf_cons, String.toList_append, cut_token (hs t List.mem_cons_self), ih h.2]
    · rfl
    · exact fun u hu => hs u (List.mem_cons_of_mem _ hu)
    · exact fun hc => separates_textOf (hc ▸ h.2)

/-! ## Putting the pieces of tokens together -/

/-- The piece of a value is a word or null. -/
theorem ofWord_of_lexeme {text : String} (h : IsLexeme text) :
    Piece.ofWord text = .word text ∨ text = Keyword.null.text ∧ Piece.ofWord text = .keyword .null := by
  obtain hnone | rfl := h.keyword
  · exact .inl (by rw [Piece.ofWord, hnone])
  · exact .inr ⟨rfl, rfl⟩

/-- After an operand no parenthesis opens. -/
theorem head_piecesOf_of_complete {ts : List Token} (h : Alternate true ts) :
    (piecesOf ts).head? ≠ some (.mark .opening) := by
  cases ts with
  | nil => exact nofun
  | cons t ts =>
    obtain ⟨hfollows, -⟩ := h
    cases t with
    | op o =>
      rcases o with op | _
      · cases op <;> exact nofun
      · exact nofun
    | isNull negated => cases negated <;> exact nofun
    | isIn negated => cases negated <;> exact nofun
    | comma | closing => exact nofun
    | _ => cases hfollows

/-- Where an operand is needed, no second half of a token stands.

**Proof sketch.** By the first token. It can only be one that begins an operand, and none of those is spelled like a
second half. -/
theorem head_piecesOf_of_needed {ts : List Token} (h : Alternate false ts)
    (hs : ∀ t ∈ ts, t.Spelled) : (piecesOf ts).head? ≠ some (.mark .equal) ∧
      (piecesOf ts).head? ≠ some (.mark .greater) ∧ (piecesOf ts).head? ≠ some (.keyword .in) := by
  cases ts with
  | nil => exact ⟨nofun, nofun, nofun⟩
  | cons t ts =>
    obtain ⟨hfollows, -⟩ := h
    have hs := hs t List.mem_cons_self
    cases t with
    | atom text =>
      have hhead : (piecesOf (.atom text :: ts)).head? = some (.ofWord text) := rfl
      obtain hword | ⟨-, hnull⟩ := ofWord_of_lexeme hs
      · rw [hhead, hword]
        exact ⟨nofun, nofun, nofun⟩
      · rw [hhead, hnull]
        exact ⟨nofun, nofun, nofun⟩
    | call name =>
      have hhead : (piecesOf (.call name :: ts)).head? = some (.ofWord name) := rfl
      rw [hhead, Piece.ofWord, hs.2]
      exact ⟨nofun, nofun, nofun⟩
    | op o =>
      rcases o with op | _
      · cases op <;> first | cases hfollows; done | exact ⟨nofun, nofun, nofun⟩
      · cases hfollows
    | not | opening => exact ⟨nofun, nofun, nofun⟩
    | _ => cases hfollows

section

variable {rest : List Piece}

/-- A word that no parenthesis follows is an atom. -/
private theorem assemble_word (h : rest.head? ≠ some (.mark .opening)) (text : String) :
    assemble (.word text :: rest) = (assemble rest).map (.atom text :: ·) := by
  cases rest with
  | nil => rfl
  | cons p ps =>
    cases p with
    | mark m => cases m <;> first | rfl | exact absurd rfl h
    | _ => rfl

/-- A negation is one unless a test against a list follows. -/
private theorem assemble_not (h : rest.head? ≠ some (.keyword .in)) :
    assemble (.keyword .not :: rest) = (assemble rest).map (.not :: ·) := by
  cases rest with
  | nil => rfl
  | cons p ps =>
    cases p with
    | keyword k => cases k <;> first | rfl | exact absurd rfl h
    | _ => rfl

/-- A less-than sign is one unless it begins another operator. -/
private theorem assemble_less (h : rest.head? ≠ some (.mark .equal)) (h' : rest.head? ≠ some (.mark .greater)) :
    assemble (.mark .less :: rest) = (assemble rest).map (.op (.of .lt) :: ·) := by
  cases rest with
  | nil => rfl
  | cons p ps =>
    cases p with
    | mark m => cases m <;> first | rfl | exact absurd rfl h | exact absurd rfl h'
    | _ => rfl

/-- A greater-than sign is one unless it begins another operator. -/
private theorem assemble_greater (h : rest.head? ≠ some (.mark .equal)) :
    assemble (.mark .greater :: rest) = (assemble rest).map (.op (.of .gt) :: ·) := by
  cases rest with
  | nil => rfl
  | cons p ps =>
    cases p with
    | mark m => cases m <;> first | rfl | exact absurd rfl h
    | _ => rfl

end

/-- The pieces of a token are put together to the token, whatever may follow it.

**Proof sketch.** By the kind of token. Those of one piece that may also be a first half are followed by no second
half: after an operator an operand is needed, and after an operand its word is complete. -/
theorem assemble_token {t : Token} {ts : List Token} (ht : t.Spelled)
    (h : Alternate t.completes ts) (hs : ∀ u ∈ ts, u.Spelled) :
    assemble (t.pieces ++ piecesOf ts) = (assemble (piecesOf ts)).map (t :: ·) := by
  cases t with
  | atom text =>
    obtain hword | ⟨rfl, hnull⟩ := ofWord_of_lexeme ht
    · rw [Token.pieces, hword]
      exact assemble_word (head_piecesOf_of_complete h) text
    · rw [Token.pieces, hnull]
      rfl
  | call name =>
    rw [Token.pieces, Piece.ofWord, ht.2]
    rfl
  | op o =>
    obtain ⟨hequal, hgreater, -⟩ := head_piecesOf_of_needed h hs
    rcases o with op | _
    · cases op with
      | lt => exact assemble_less hequal hgreater
      | gt => exact assemble_greater hequal
      | _ => rfl
    · rfl
  | not => exact assemble_not (head_piecesOf_of_needed h hs).2.2
  | isNull negated => cases negated <;> rfl
  | isIn negated => cases negated <;> rfl
  | _ => rfl

/-- The pieces of tokens are put together to the tokens. -/
theorem assemble_piecesOf {ts : List Token} {complete : Bool} (h : Alternate complete ts)
    (hs : ∀ t ∈ ts, t.Spelled) : assemble (piecesOf ts) = some ts := by
  induction ts generalizing complete with
  | nil => rfl
  | cons t ts ih =>
    have hrest : ∀ u ∈ ts, u.Spelled := fun u hu => hs u (List.mem_cons_of_mem _ hu)
    have htoken := assemble_token (hs t List.mem_cons_self) h.2 hrest
    rw [ih h.2 hrest] at htoken
    exact htoken

/-- **The text of the tokens of a settled tree is read as that tree.** -/
theorem read_textOf {t : Tree} (h : t.Settled) (hs : ∀ u ∈ t.tokens, u.Spelled) :
    read (textOf t.tokens) = some t := by
  have hparse := parse_tokens h
  have halternate := alternate_of_parse hparse
  rw [read, cut_textOf halternate hs, assemble_piecesOf halternate hs]
  exact hparse

end LambdaSql.Reading
