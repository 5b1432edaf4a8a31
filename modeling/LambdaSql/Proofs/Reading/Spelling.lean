import LambdaSql.Proofs.Reading.Written
import LambdaSql.Sql.Literal

/-!
# How values are spelled

Names, texts and numbers are written so that each of them is read as one value. In particular, what
is quoted stays in one word whatever it contains.

## Main definitions

* `Parameters.Spelled` - parameters whose placeholders are read as values.
* `Node.placeholders` - the placeholders in a node.

## Main results

* `Value.isLiteral_literal` - a value as a literal text is read as a value.
* `Node.spelled_reading` - the tokens of a plain node are read as such.
-/

namespace LambdaSql

open Reading

/-! ## Words -/

/-- A character that neither ends a word nor quotes anything. -/
structure Reading.IsLetter (c : Char) : Prop where
  ends : endsWord c = false
  single : c ≠ '\''
  back : c ≠ '\x60'

/-- Letters make up a word. -/
private theorem Reading.isWord_of_letters {cs : List Char} (h : ∀ c ∈ cs, IsLetter c) : IsWord cs := by
  induction cs with
  | nil => rfl
  | cons c cs ih =>
    have hc := h c List.mem_cons_self
    have hnext : Quoting.plain.next c = .plain := by
      unfold Quoting.next
      split <;> first | rfl | contradiction | exact absurd rfl hc.single | exact absurd rfl hc.back
    rw [IsWord, through, if_neg (by simp [hc.ends]), hnext]
    exact ih fun d hd => h d (List.mem_cons_of_mem _ hd)

/-- Letters and digits may stand in words. -/
private theorem Reading.isLetter_of_isAlphanum {c : Char} (h : c.isAlphanum = true) : IsLetter c := by
  have hne (d : Char) (hd : d.isAlphanum = false) : c ≠ d := by
    rintro rfl
    rw [hd] at h
    cases h
  refine ⟨?_, hne _ (by decide), hne _ (by decide)⟩
  rw [endsWord, Bool.or_eq_false_iff]
  constructor
  · cases hblank : c.isWhitespace with
    | false => rfl
    | true =>
      simp only [Char.isWhitespace, Bool.or_eq_true, decide_eq_true_eq] at hblank
      obtain ((rfl | rfl) | rfl) | rfl := hblank <;> exact absurd h (by decide)
  · unfold Mark.of?
    split <;> first | rfl | exact absurd h (by decide)

/-- A word with a character that is no capital letter is no keyword. -/
theorem Reading.Keyword.of?_eq_none {word : String} {c : Char} (hc : c ∈ word.toList)
    (hupper : c.isUpper = false) : Keyword.of? word = none := by
  rw [Keyword.of?, List.find?_eq_none]
  intro k _ heq
  obtain rfl := beq_iff_eq.mp heq
  have hall : k.text.toList.all Char.isUpper = true := by cases k <;> decide
  rw [List.all_eq_true.mp hall c hc] at hupper
  cases hupper

/-- A word with a character that is no capital is no keyword. -/
private theorem Reading.isLexeme_of_mem {text : String} {c : Char} (h : IsWord text.toList)
    (hc : c ∈ text.toList) (hupper : c.isUpper = false) : IsLexeme text where
  word := h
  nonempty := by
    rintro rfl
    cases hc
  keyword := .inl (Keyword.of?_eq_none hc hupper)

/-! ## Quoting -/

/-- The scanner leaves a quoted name at its last backtick. -/
private theorem MySql.through_name (cs : List Char) :
    through .name (cs.flatMap (fun c => if c = '\x60' then ['\x60', '\x60'] else [c]) ++ ['\x60']) =
      some .plain := by
  induction cs with
  | nil => rfl
  | cons c cs ih =>
    rw [List.flatMap_cons, List.append_assoc, through_append]
    split
    · exact ih
    · next hc =>
      have hnext : Quoting.name.next c = .name := by
        unfold Quoting.next
        split <;> first | rfl | contradiction
      rw [through, if_neg (by simp), hnext]
      exact ih

/-- A name between backticks is one word. -/
theorem MySql.isWord_quoteIdentifier (name : String) : IsWord (quoteIdentifier name).toList := by
  rw [quoteIdentifier, String.toList_ofList]
  exact through_name name.toList

/-- The scanner leaves a quoted text at its last quote. -/
private theorem MySql.through_text (cs : List Char) :
    through .quoted (cs.flatMap (fun c => if c = '\\' then ['\\', '\\'] else
      if c = '\'' then ['\'', '\''] else [c]) ++ ['\'']) = some .plain := by
  induction cs with
  | nil => rfl
  | cons c cs ih =>
    rw [List.flatMap_cons, List.append_assoc, through_append]
    split
    · exact ih
    · split
      · exact ih
      · next hslash hquote =>
        have hnext : Quoting.quoted.next c = .quoted := by
          unfold Quoting.next
          split <;> first | rfl | contradiction
        rw [through, if_neg (by simp), hnext]
        exact ih

/-- A text between single quotes is one word. -/
theorem MySql.isWord_quoteText (s : String) : IsWord (quoteText s).toList := by
  rw [quoteText, String.toList_ofList]
  exact through_text s.toList

/-- A quoted text is a lexeme. -/
private theorem MySql.isLexeme_quoteText (s : String) : IsLexeme (quoteText s) := by
  refine isLexeme_of_mem (c := '\'') (isWord_quoteText s) ?_ (by decide)
  rw [quoteText, String.toList_ofList]
  exact List.mem_cons_self

/-- A column with an alias that is a word is a lexeme. -/
private theorem Node.isLexeme_columnText {aliasName : Option String} (name : String)
    (h : ∀ x ∈ aliasName, IsWord x.toList) : IsLexeme (columnText MySql.dialect aliasName name) := by
  have hquoted := MySql.isWord_quoteIdentifier name
  have hmem : '\x60' ∈ (MySql.quoteIdentifier name).toList := by
    rw [MySql.quoteIdentifier, String.toList_ofList]
    exact List.mem_cons_self
  cases aliasName with
  | none => exact isLexeme_of_mem hquoted hmem (by decide)
  | some a =>
    have hpoint : IsWord ['.'] := by decide
    have htext : (columnText MySql.dialect (some a) name).toList =
        a.toList ++ (['.'] ++ (MySql.quoteIdentifier name).toList) := by
      rw [columnText, String.toList_append, String.toList_append, List.append_assoc]
      rfl
    refine isLexeme_of_mem (c := '\x60') ?_ ?_ (by decide)
    · rw [htext]
      exact (h a rfl).append (hpoint.append hquoted)
    · rw [htext]
      exact List.mem_append_right _ (List.mem_append_right _ hmem)

/-! ## Literals -/

namespace Node

/-- A lexeme is a literal. -/
private theorem isLiteral_of_isLexeme {sql : String} (h : IsLexeme sql) : IsLiteral sql := by
  unfold IsLiteral
  split
  · next digits heq =>
    have hword := h.word
    rw [heq, IsWord, through, if_pos (by decide)] at hword
    cases hword
  · exact h

/-- A lexeme after a minus sign is a literal. -/
private theorem isLiteral_neg {digits : String} (h : IsLexeme digits) : IsLiteral ("-" ++ digits) := by
  unfold IsLiteral
  split
  · next ds heq =>
    have hds : digits.toList = ds := by simpa using heq
    rw [← hds, String.ofList_toList]
    exact h
  · next hne => exact absurd (by simp) (hne digits.toList)

end Node

/-- A digit is no capital. -/
private theorem Reading.isUpper_of_isDigit {c : Char} (h : c.isDigit = true) : c.isUpper = false := by
  simp only [Char.isDigit, Char.isUpper, Bool.and_eq_true, decide_eq_true_eq,
    decide_eq_false_iff_not, ge_iff_le, UInt32.le_iff_toNat_le] at h ⊢
  rintro ⟨hle, -⟩
  exact absurd (Nat.le_trans hle h.2) (by decide)

/-- Digits, with a point among them or without one, are a value. -/
theorem Reading.isLexeme_of_digits {cs : List Char} (h : ∀ c ∈ cs, c.isDigit = true ∨ c = '.')
    (hne : cs ≠ []) : IsLexeme (String.ofList cs) := by
  have hdot : IsLetter '.' := ⟨by decide, by decide, by decide⟩
  have hletters : ∀ c ∈ cs, IsLetter c := by
    intro c hc
    obtain hd | rfl := h c hc
    · exact isLetter_of_isAlphanum (by rw [Char.isAlphanum, hd, Bool.or_true])
    · exact hdot
  obtain ⟨c, rest, rfl⟩ := List.exists_cons_of_ne_nil hne
  refine isLexeme_of_mem (c := c) ?_ ?_ ?_
  · rw [String.toList_ofList]
    exact isWord_of_letters hletters
  · rw [String.toList_ofList]
    exact List.mem_cons_self
  · obtain hd | rfl := h c List.mem_cons_self
    · exact isUpper_of_isDigit hd
    · decide

/-- A natural number is one lexeme. -/
theorem Number.isLexeme_nat (n : Nat) : IsLexeme (toString n) := by
  rw [Nat.toString_eq_ofList_toDigits]
  refine isLexeme_of_digits (fun c hc => .inl ?_) Nat.toDigits_ne_nil
  exact Nat.isDigit_of_mem_toDigits (by decide) (by decide) hc

/-- Integers are literals. -/
private theorem Number.isLiteral_int (n : Int) : Node.IsLiteral (toString n) := by
  cases n with
  | ofNat n => exact Node.isLiteral_of_isLexeme (isLexeme_nat n)
  | negSucc n => exact Node.isLiteral_neg (isLexeme_nat (n + 1))

/-- The digits of a number with a point among them.

**Proof sketch.** Wherever the point comes to stand, what is written are digits, zeros that fill up and at most the
point. -/
theorem Number.isLexeme_place {style : FloatStyle} (hstyle : style.wholeSuffix = "")
    {digits : List Char} (h : ∀ c ∈ digits, c.isDigit = true) (hne : digits ≠ []) (point : Int) :
    IsLexeme (style.place digits point) := by
  have hzero (k : Nat) : ∀ c ∈ List.replicate k '0', c.isDigit = true := fun c hc =>
    List.eq_of_mem_replicate hc ▸ by decide
  unfold FloatStyle.place
  dsimp only
  split
  · rw [hstyle, String.append_empty]
    refine isLexeme_of_digits (fun c hc => .inl ?_) (by simp [hne])
    exact (List.mem_append.mp hc).elim (h c) (hzero _ c)
  · split
    · refine isLexeme_of_digits (fun c hc => ?_) (by simp)
      obtain hc | hc := List.mem_append.mp hc
      · exact .inl (h c (List.mem_of_mem_take hc))
      · obtain rfl | hc := List.mem_cons.mp hc
        · exact .inr rfl
        · exact .inl (h c (List.mem_of_mem_drop hc))
    · refine isLexeme_of_digits (fun c hc => ?_) (by simp)
      obtain rfl | hc := List.mem_cons.mp hc
      · exact .inl (by decide)
      · obtain rfl | hc := List.mem_cons.mp hc
        · exact .inr rfl
        · exact .inl ((List.mem_append.mp hc).elim (hzero _ c) (h c))

/-- Floats are literals.

**Proof sketch.** By what the number is: one that is none, an infinite one, zero, or one with digits. All but the
first may have a sign before them. -/
private theorem Number.isLiteral_text (x : Float) : Node.IsLiteral (text x) := by
  have signed {negative : Bool} {digits : String} (h : IsLexeme digits) :
      Node.IsLiteral ((if negative then "-" else "") ++ digits) := by
    cases negative with
    | true => exact Node.isLiteral_neg h
    | false =>
      rw [if_neg Bool.false_ne_true, String.empty_append]
      exact Node.isLiteral_of_isLexeme h
  unfold text FloatStyle.render
  split
  · exact Node.isLiteral_of_isLexeme ⟨by decide, by decide, .inl (by decide)⟩
  · have hinf : IsLexeme "inf" := ⟨by decide, by decide, .inl (by decide)⟩
    split
    · exact hinf
    · exact Node.isLiteral_of_isLexeme hinf
  · dsimp only
    split
    · have hzero : ∀ c ∈ ['0'], c.isDigit = true := List.forall_mem_singleton.mpr (by decide)
      exact signed (isLexeme_place rfl hzero (by decide) 1)
    · refine signed (isLexeme_place rfl (fun c hc => ?_) Nat.toDigits_ne_nil _)
      exact Nat.isDigit_of_mem_toDigits (by decide) (by decide) hc

/-- The scanner stays in quotes while nothing ends them. -/
private theorem Reading.through_quoted {cs : List Char} (h : ∀ c ∈ cs, c ≠ '\'' ∧ c ≠ '\\') :
    through .quoted cs = some .quoted := by
  induction cs with
  | nil => rfl
  | cons c cs ih =>
    have hc := h c List.mem_cons_self
    have hnext : Quoting.quoted.next c = .quoted := by
      unfold Quoting.next
      split <;> first | rfl | contradiction
    rw [through, if_neg (by simp), hnext]
    exact ih fun d hd => h d (List.mem_cons_of_mem _ hd)

/-- A hexadecimal digit ends no quotes. -/
private theorem upper_hexDigit (n : Nat) (h : n < 16) :
    (Document.hexDigit n).toUpper ≠ '\'' ∧ (Document.hexDigit n).toUpper ≠ '\\' := by
  revert n
  decide

/-- Bytes in hexadecimal digits are a value. -/
theorem isLexeme_bytes (bs : List UInt8) : IsLexeme
    ("X'" ++ String.ofList (bs.flatMap fun b => (hexDigits 2 b.toNat).map Char.toUpper) ++ "'") := by
  have hdigits : ∀ c ∈ bs.flatMap fun b => (hexDigits 2 b.toNat).map Char.toUpper,
      c ≠ '\'' ∧ c ≠ '\\' := by
    intro c hc
    obtain ⟨b, -, hc⟩ := List.mem_flatMap.mp hc
    obtain ⟨d, hd, rfl⟩ := List.mem_map.mp hc
    obtain ⟨i, -, rfl⟩ := List.mem_map.mp hd
    exact upper_hexDigit _ (Nat.mod_lt _ (by decide))
  refine isLexeme_of_mem (c := '\'') ?_ (by simp) (by decide)
  have hquote : through .plain "X'".toList = some .quoted := by decide
  rw [String.toList_append, String.toList_append, IsWord, List.append_assoc, through_append, hquote,
    Option.bind_some, through_append, String.toList_ofList, through_quoted hdigits]
  decide

attribute [local irreducible] Node.IsLiteral in
/-- **A value as a literal text is read as a value**, exact decimals provided that their texts are.

**Proof sketch.** By the kind of value. Numbers are words of their own, with a sign at most, and all others that have
a literal are written in quotes. -/
theorem Value.isLiteral_literal {v : Value} {sql : String}
    (hdecimal : ∀ text, v = .decimal text → Node.IsLiteral text)
    (h : v.literal MySql.dialect = .ok sql) : Node.IsLiteral sql := by
  have quoted (s : String) : Node.IsLiteral (MySql.dialect.quoteText s) :=
    Node.isLiteral_of_isLexeme (MySql.isLexeme_quoteText s)
  cases v with
  | list | record => cases h
  | null =>
    cases h
    exact Node.isLiteral_of_isLexeme ⟨by decide, by decide, .inr rfl⟩
  | bool b =>
    cases h
    cases b <;> exact Node.isLiteral_of_isLexeme ⟨by decide, by decide, .inl (by decide)⟩
  | int n =>
    cases h
    exact Number.isLiteral_int n.toInt
  | float x =>
    cases h
    exact Number.isLiteral_text x
  | decimal text =>
    cases h
    exact hdecimal _ rfl
  | bytes bs =>
    cases h
    exact Node.isLiteral_of_isLexeme (isLexeme_bytes bs)
  | _ =>
    simp only [Value.literal, pure, Except.pure, Except.ok.injEq] at h
    subst h
    exact quoted _

/-! ## Placeholders -/

/-- Parameters whose placeholders are read as values: the mark that begins them is no capital letter,
and what follows the mark in generated ones is a word. -/
structure Parameters.Spelled (ps : Parameters) : Prop where
  mark : IsWord [ps.mark]
  upper : ps.mark.isUpper = false
  stem : IsWord ps.stem.toList

/-- The placeholder of a word is one lexeme. -/
theorem Parameters.Spelled.isLexeme_token {ps : Parameters} (h : ps.Spelled) {name : String}
    (hname : IsWord name.toList) : IsLexeme (ps.token name) := by
  refine isLexeme_of_mem (c := ps.mark) ?_ ?_ h.upper
  · rw [token, String.toList_ofList]
    exact h.mark.append hname
  · rw [token, String.toList_ofList]
    exact List.mem_cons_self

/-- Binding a value under a fixed name gives a placeholder that is read as a value.

**Proof sketch.** The name is either that asked for or has a number after it, and is a word either way. What is
recorded leaves the spelling of the names as it is. -/
theorem Parameters.Spelled.of_bind {ps qs : Parameters} {name token : String}
    {value : Value} {native : NativeType} (h : ps.Spelled) (hname : IsWord name.toList)
    (hbind : ps.bind name value native = .ok (token, qs)) : IsLexeme token ∧ qs.Spelled := by
  have hpush (x : String) : (ps.pushNew x value native).Spelled := by
    unfold Parameters.pushNew
    split
    · exact h
    · exact ⟨h.mark, h.upper, h.stem⟩
  unfold Parameters.bind at hbind
  dsimp only at hbind
  split at hbind
  · cases hbind
    exact ⟨h.isLexeme_token hname, hpush _⟩
  · cases hbind
    exact ⟨h.isLexeme_token hname, hpush _⟩
  · cases hbind
  · next position _ _ =>
    have hposition : IsWord (name ++ "_" ++ toString position).toList := by
      rw [String.toList_append, String.toList_append]
      exact (hname.append (by decide)).append (Number.isLexeme_nat position).word
    split at hbind <;> cases hbind
    · exact ⟨h.isLexeme_token hposition, hpush _⟩
    · exact ⟨h.isLexeme_token hposition, hpush _⟩

/-! ## Trees -/

namespace Node

/-- Whether the tokens of a tree are read as such. -/
def SpelledTree (t : Tree) : Prop := ∀ u ∈ t.tokens, u.Spelled

/-- A spelled tree is spelled in parentheses. -/
theorem SpelledTree.groupIf {t : Tree} (h : SpelledTree t) (needed : Bool) :
    SpelledTree (t.groupIf needed) := by
  cases needed with
  | false => exact h
  | true =>
    intro u hu
    simp only [Tree.groupIf, if_true, Tree.tokens, List.mem_cons, List.mem_append,
      List.not_mem_nil, or_false] at hu
    obtain rfl | hu | rfl := hu
    · trivial
    · exact h u hu
    · trivial

/-- Two spelled trees are spelled when they are joined. -/
theorem SpelledTree.splice {l r : Tree} (hl : SpelledTree l) (hr : SpelledTree r) (o : Operator) :
    SpelledTree (.splice o l r) := by
  intro u hu
  rw [Tree.tokens_splice, List.mem_append, List.mem_cons] at hu
  obtain hu | rfl | hu := hu
  · exact hl u hu
  · trivial
  · exact hr u hu

/-- The tokens of a negated tree are a sign and those of the tree. -/
@[simp]
theorem tokens_signed (t : Tree) : (signed t).tokens = .op (.of .sub) :: t.tokens := by
  induction t using signed.induct with
  | case1 p a b ih => rw [signed, Tree.tokens, ih, Tree.tokens, List.cons_append]
  | case2 t hne =>
    cases t with
    | binary => exact absurd rfl (hne _ _ _)
    | _ => rfl

/-- A spelled tree is spelled with a sign. -/
theorem SpelledTree.signed {t : Tree} (h : SpelledTree t) : SpelledTree (signed t) := by
  intro u hu
  rw [tokens_signed, List.mem_cons] at hu
  obtain rfl | hu := hu
  · trivial
  · exact h u hu

/-- A lexeme is spelled as an atom. -/
private theorem spelledTree_atom {text : String} (h : IsLexeme text) : SpelledTree (.atom text) := by
  intro u hu
  obtain rfl := List.mem_singleton.mp hu
  exact h

/-- A literal is spelled as its tree. -/
private theorem spelledTree_literal {sql : String} (h : IsLiteral sql) : SpelledTree (literalTree sql) := by
  unfold IsLiteral at h
  unfold literalTree
  split at h
  · exact SpelledTree.signed (spelledTree_atom h)
  · exact spelledTree_atom h

/-- The tokens of a list of spelled trees are spelled. -/
private theorem spelled_listTokens {ts : List Tree} (h : ∀ t ∈ ts, SpelledTree t) :
    ∀ u ∈ Tree.listTokens ts, u.Spelled := by
  induction ts with
  | nil => simp [Tree.listTokens]
  | cons t rest ih =>
    have ih := ih fun v hv => h v (List.mem_cons_of_mem _ hv)
    cases rest with
    | nil => exact h t List.mem_cons_self
    | cons v rest =>
      intro u hu
      rw [Tree.listTokens, List.mem_append, List.mem_cons] at hu
      · obtain hu | rfl | hu := hu
        · exact h t List.mem_cons_self u hu
        · trivial
        · exact ih u hu
      · simp

/-- A list in parentheses after a token that opens them. -/
theorem spelled_list {t : Token} {ts : List Tree} (ht : t.Spelled) (h : ∀ v ∈ ts, SpelledTree v) :
    ∀ u ∈ t :: (Tree.listTokens ts ++ [.closing]), u.Spelled := by
  intro u hu
  simp only [List.mem_cons, List.mem_append, List.not_mem_nil, or_false] at hu
  obtain rfl | hu | rfl := hu
  · exact ht
  · exact spelled_listTokens h u hu
  · trivial

/-- The pattern of a function is spelled if its part is. -/
private theorem spelledTree_pattern (f : SqlFunction) {part : Tree} (h : SpelledTree part) :
    SpelledTree (pattern f part) := by
  have hany : SpelledTree (.atom "'%'") := spelledTree_atom ⟨by decide, by decide, .inl (by decide)⟩
  have hconcat : (Token.call "CONCAT").Spelled :=
    ⟨⟨by decide, by decide, .inl (by decide)⟩, by decide⟩
  unfold pattern
  split <;> exact spelled_list hconcat (by simp [h, hany])

mutual

/-- The placeholders of the bound values in a node. -/
def placeholders : Node → List String
  | bound _ _ name _ => [placeholder name]
  | binary _ left right _ => placeholders left ++ placeholders right
  | unary _ operand _ | isNull operand _ => placeholders operand
  | inList operand items _ => placeholders operand ++ listPlaceholders items
  | call _ args _ => listPlaceholders args
  | _ => []

/-- The placeholders of the bound values in several nodes. -/
def listPlaceholders : List Node → List String
  | [] => []
  | n :: rest => placeholders n ++ listPlaceholders rest

end

/-- The null is a lexeme. -/
private theorem isLexeme_null : IsLexeme "NULL" := ⟨by decide, by decide, .inr rfl⟩

/-- A raw text is spelled as its tree. -/
private theorem spelledTree_raw {text : String} : SpelledTree (rawTree text) := by
  have hone : IsLexeme "1" := ⟨by decide, by decide, .inl (by decide)⟩
  have hzero : IsLexeme "0" := ⟨by decide, by decide, .inl (by decide)⟩
  intro u hu
  simp only [rawTree, Tree.tokens, List.mem_append, List.mem_cons, List.not_mem_nil, or_false] at hu
  obtain rfl | rfl | rfl := hu
  · exact hone
  · trivial
  · show IsLexeme (if text = "1=1" then "1" else "0")
    split
    · exact hone
    · exact hzero

mutual

/-- The tokens of a plain node are read as such if its placeholders are.

**Proof sketch.** By induction on the node. Every operand is spelled by the induction hypothesis, in brackets or not,
and between the operands stand operators and keywords, which always are. -/
theorem spelled_reading : (n : Node) → n.Plain → (∀ t ∈ n.placeholders, IsLexeme t) →
    SpelledTree n.reading
  | literal .., h, _ => spelledTree_literal h
  | bound .., _, hp => spelledTree_atom (hp _ List.mem_cons_self)
  | column _ name _, h, _ => spelledTree_atom (isLexeme_columnText name h)
  | null, _, _ => spelledTree_atom isLexeme_null
  | raw .., _, _ => spelledTree_raw
  | binary op l r t, h, hp => by
    obtain ⟨hpl, hpr⟩ := List.forall_mem_append.mp hp
    have ihl := spelled_reading l h.1 hpl
    have ihr := spelled_reading r h.2 hpr
    exact (ihl.groupIf _).splice (ihr.groupIf _) _
  | unary .negate operand t, h, hp => ((spelled_reading operand h hp).groupIf _).signed
  | unary .not operand t, h, hp => by
    have ih := (spelled_reading operand h hp).groupIf true
    exact List.forall_mem_cons.mpr ⟨trivial, ih⟩
  | isNull operand negated, h, hp => by
    have ih := (spelled_reading operand h hp).groupIf (operand.precedence ≤ predicatePrecedence)
    exact List.forall_mem_append.mpr ⟨ih, List.forall_mem_singleton.mpr trivial⟩
  | inList operand items negated, h, hp => by
    obtain ⟨hpo, hpi⟩ := List.forall_mem_append.mp hp
    have ih := (spelled_reading operand h.1 hpo).groupIf (operand.precedence ≤ predicatePrecedence)
    have ih' := spelled_readings items h.2.2 hpi
    exact List.forall_mem_append.mpr ⟨ih, spelled_list trivial ih'⟩
  | call f [text, part] t, h, hp => by
    obtain ⟨hpt, hpp⟩ := List.forall_mem_append.mp hp
    obtain ⟨hpp, -⟩ := List.forall_mem_append.mp hpp
    have ih := (spelled_reading text h.2.1 hpt).groupIf (text.precedence < atomPrecedence)
    have ih' := spelledTree_pattern f (spelled_reading part h.2.2 hpp)
    exact List.forall_mem_append.mpr ⟨ih, List.forall_mem_cons.mpr ⟨trivial, ih'⟩⟩
  | call _ [] _, h, _ | call _ [_] _, h, _ | call _ (_ :: _ :: _ :: _) _, h, _ | case .., h, _
  | inQuery .., h, _ | .exists .., h, _ | subquery .., h, _ | group .., h, _ => h.elim

/-- The tokens of several plain nodes are read as such if their placeholders are. -/
theorem spelled_readings : (ns : List Node) → AllPlain ns → (∀ t ∈ listPlaceholders ns, IsLexeme t) →
    ∀ u ∈ readings ns, SpelledTree u
  | [], _, _ => nofun
  | n :: rest, h, hp => by
    obtain ⟨hpn, hpr⟩ := List.forall_mem_append.mp hp
    exact List.forall_mem_cons.mpr ⟨spelled_reading n h.1 hpn, spelled_readings rest h.2 hpr⟩

end

end Node

end LambdaSql
