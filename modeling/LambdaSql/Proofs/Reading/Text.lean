import LambdaSql.Proofs.Binding.Writing
import LambdaSql.Proofs.Reading.Spelling
import LambdaSql.Proofs.Reading.Structure

/-!
# The text of a node

A plain node is written as the tokens of its reading, with the placeholders of its bound values among
them. Read back, the text is the node with these placeholders exactly when the node keeps its
structure.

## Main definitions

* `Node.unnamed` - a node without the names of its bound values.

## Main results

* `Node.read_writeNode` - the tree of the text of a node.
-/

namespace LambdaSql

open Reading

/-! ## Texts -/

/-- Tokens in a row are written in a row. -/
@[simp]
theorem Reading.textOf_append (ts us : List Token) : textOf (ts ++ us) = textOf ts ++ textOf us := by
  simp [textOf, String.join_append]

attribute [simp] Reading.textOf_cons

/-- No tokens are written as nothing. -/
@[simp]
theorem Reading.textOf_nil : textOf [] = "" := rfl

/-- Parentheses around a phrase are read as parentheses. -/
theorem Phrase.text_parenthesisedIf {p : Phrase} {t : Tree} (h : p.text = textOf t.tokens)
    (needed : Bool) : (p.parenthesisedIf needed).text = textOf (t.groupIf needed).tokens := by
  cases needed with
  | false => exact h
  | true => simp [parenthesisedIf, parenthesised, Tree.groupIf, Tree.tokens, h, Token.text]

/-- A literal is written as it is. -/
private theorem Node.text_literal (sql : String) : textOf (literalTree sql).tokens = sql := by
  obtain ⟨digits, hsql, htree⟩ | ⟨-, htree⟩ := literalTree_cases sql
  · rw [htree]
    have hdigits : "-" ++ String.ofList digits = sql := by
      rw [← String.toList_inj, hsql]
      simp
    simp [Tree.tokens, unaryToken, Token.text, SqlOp.text, hdigits]
  · rw [htree]
    simp [Tree.tokens, Token.text]

namespace Template

variable {args : List Argument} {written : List (Nat × Phrase)} {rest : List Piece}
variable {ps ps' : Parameters} {p : Phrase}

/-- Characters of a template are written as they are. -/
theorem gives_chars {cs : List Char}
    (h : (expandPieces args written (cs.map .char ++ rest)).Gives ps p ps') :
    ∃ q, (expandPieces args written rest).Gives ps q ps' ∧ p.text = String.ofList cs ++ q.text ∧
      p.placeholders = q.placeholders := by
  induction cs generalizing p with
  | nil => exact ⟨p, h, by simp, rfl⟩
  | cons c cs ih =>
    simp only [List.map_cons, List.cons_append, expandPieces, Writing.gives_bind,
      Writing.gives_pure] at h
    obtain ⟨q, qs, hq, rfl, rfl⟩ := h
    obtain ⟨r, hr, htext, hplace⟩ := ih hq
    refine ⟨r, hr, ?_, ?_⟩
    · have hcons : Phrase.text (.text (String.singleton c) :: q) = String.singleton c ++ Phrase.text q := by
        simp [Phrase.text, Fragment.content, String.join_cons]
      rw [hcons, htext, ← String.append_assoc, String.ofList_cons]
    · simpa [Phrase.placeholders] using hplace

/-- An argument is written in its place. -/
theorem gives_argument {i : Nat} {delimited : Bool} {arg : Argument} (harg : args[i]? = some arg)
    (hnew : written.lookup i = none)
    (h : (expandPieces args written (.argument i delimited :: rest)).Gives ps p ps') :
    ∃ q qs r, arg.write.Gives ps q qs ∧ (expandPieces args ((i, q) :: written) rest).Gives qs r ps' ∧
      p = q.parenthesisedIf (!delimited && arg.precedence < atomPrecedence) ++ r := by
  simp only [expandPieces, harg, hnew, Writing.gives_bind, Writing.gives_pure] at h
  obtain ⟨q, qs, hq, r, rs, hr, rfl, rfl⟩ := h
  exact ⟨q, qs, r, hq, hr, rfl⟩

/-- A template with arguments whose writing does not fail. -/
theorem total_expandPieces (h : ∀ arg ∈ args, arg.write.Total) :
    (pieces : List Piece) → ∀ written, (expandPieces args written pieces).Total
  | [], _ => Writing.total_pure _
  | .char c :: rest, written =>
    (total_expandPieces h rest written).bind fun _ => Writing.total_pure _
  | .arguments :: rest, written =>
    (Writing.Total.mapM h).bind fun _ =>
      (total_expandPieces h rest written).bind fun _ => Writing.total_pure _
  | .argument i delimited :: rest, written => by
    rw [expandPieces]
    split
    · exact (total_expandPieces h rest written).bind fun _ => Writing.total_pure _
    · next arg harg =>
      have hrest (p : Phrase) := total_expandPieces h rest ((i, p) :: written)
      dsimp only
      split
      · next p _ =>
        exact (Writing.total_pure p).bind fun p => (hrest p).bind fun _ => Writing.total_pure _
      · exact (h arg (List.mem_of_getElem? harg)).bind fun p =>
          (hrest p).bind fun _ => Writing.total_pure _

end Template

/-! ## Names of bound values -/

namespace Node

mutual

/-- A node without the names of its bound values. -/
def unnamed : Node → Node
  | bound value native _ t => bound value native none t
  | binary op left right t => binary op (unnamed left) (unnamed right) t
  | unary op operand t => unary op (unnamed operand) t
  | isNull operand negated => isNull (unnamed operand) negated
  | inList operand items negated => inList (unnamed operand) (listUnnamed items) negated
  | call f args t => call f (listUnnamed args) t
  | n => n

/-- Several nodes without the names of their bound values. -/
def listUnnamed : List Node → List Node
  | [] => []
  | n :: rest => unnamed n :: listUnnamed rest

end

/-- Names do not change how tightly a node binds. -/
private theorem precedence_unnamed (n : Node) : n.unnamed.precedence = n.precedence := by
  cases n with
  | unary op => cases op <;> rfl
  | _ => rfl

/-- Names do not change whether a right side is wrapped. -/
private theorem wrapsRight_unnamed (op : SqlOp) (n : Node) : wrapsRight op n.unnamed = wrapsRight op n := by
  unfold wrapsRight
  rw [precedence_unnamed]
  cases n <;> rfl

/-- Names do not change with what a node begins. -/
private theorem beginsWithOther_unnamed (op : SqlOp) : (n : Node) →
    beginsWithOther op n.unnamed = beginsWithOther op n
  | binary o l r t => by
    rw [unnamed, beginsWithOther, beginsWithOther, beginsWithOther_unnamed op l]
  | literal .. | bound .. | column .. | unary .. | call .. | case .. | inList .. | inQuery ..
  | .exists .. | isNull .. | subquery .. | group .. | raw .. | null => rfl

/-- Names do not change which nodes are misplaced. -/
private theorem misplaced_unnamed (op : SqlOp) (l r : Node) :
    Misplaced op l.unnamed r.unnamed ↔ Misplaced op l r := by
  have hraw (n : Node) : n.unnamed.isRaw = n.isRaw := by cases n <;> rfl
  have hbit (n : Node) : n.unnamed.isBitOr = n.isBitOr := by
    cases n with
    | binary op => cases op <;> rfl
    | _ => rfl
  have hrun : (∃ a b t, r.unnamed = binary op a b t ∧ beginsWithOther op a = true) ↔
      ∃ a b t, r = binary op a b t ∧ beginsWithOther op a = true := by
    cases r with
    | binary o a b t =>
      constructor
      · rintro ⟨_, _, _, ⟨⟩, hb⟩
        exact ⟨a, b, t, rfl, (beginsWithOther_unnamed _ a).symm.trans hb⟩
      · rintro ⟨_, _, _, ⟨⟩, hb⟩
        exact ⟨_, _, t, rfl, (beginsWithOther_unnamed _ a).trans hb⟩
    | _ => simp [unnamed]
  unfold Misplaced
  rw [← isBitOr_iff, ← isBitOr_iff, hraw, hraw, hbit, hrun]

mutual

/-- The names of bound values have nothing to do with the structure. -/
theorem keepsStructure_unnamed : (n : Node) → n.Plain →
    (n.unnamed.KeepsStructure ↔ n.KeepsStructure)
  | literal .., _ | bound .., _ | column .., _ | null, _ | raw .., _ => Iff.rfl
  | binary op l r t, h => by
    rw [unnamed, KeepsStructure, KeepsStructure, misplaced_unnamed, keepsStructure_unnamed l h.1,
      keepsStructure_unnamed r h.2]
  | unary .not operand t, h => keepsStructure_unnamed operand h
  | unary .negate operand t, h => by
    have hraw : operand.unnamed.isRaw = operand.isRaw := by cases operand <;> rfl
    rw [unnamed, KeepsStructure, KeepsStructure, hraw, keepsStructure_unnamed operand h]
  | isNull operand negated, h => keepsStructure_unnamed operand h
  | inList operand items negated, h => by
    rw [unnamed, KeepsStructure, KeepsStructure, keepsStructure_unnamed operand h.1,
      listKeepsStructure_unnamed items h.2.2]
  | call f [text, part] t, h => by
    rw [unnamed, listUnnamed, listUnnamed, listUnnamed, KeepsStructure, KeepsStructure,
      keepsStructure_unnamed text h.2.1, keepsStructure_unnamed part h.2.2]
  | call _ [] _, h | call _ [_] _, h | call _ (_ :: _ :: _ :: _) _, h | case .., h
  | inQuery .., h | .exists .., h | subquery .., h | group .., h => h.elim

/-- The names of bound values have nothing to do with the structure of several nodes. -/
theorem listKeepsStructure_unnamed : (ns : List Node) → AllPlain ns →
    (AllKeepStructure (listUnnamed ns) ↔ AllKeepStructure ns)
  | [], _ => Iff.rfl
  | n :: rest, h => by
    rw [listUnnamed, AllKeepStructure, AllKeepStructure, keepsStructure_unnamed n h.1,
      listKeepsStructure_unnamed rest h.2]

end

end Node

/-! ## Writing a node -/

/-- The template of a test with `LIKE`. -/
theorem MySql.pieces_like {f : SqlFunction} (h : f.isBarePredicate = true) :
    ∃ before after : List Char,
      Template.pieces (template f) = Template.Piece.argument 0 false :: (before.map Template.Piece.char ++
        Template.Piece.argument 1 true :: (after.map Template.Piece.char ++ [])) ∧
      ∀ t : Tree, " LIKE " ++ textOf (Node.pattern f t).tokens =
        String.ofList before ++ textOf t.tokens ++ String.ofList after := by
  cases f with
  | contains =>
    refine ⟨" LIKE CONCAT('%',".toList, ",'%')".toList, ?_, fun t => ?_⟩
    · exact (Template.pieces_eq_bytewise (by decide +kernel)).trans (by decide +kernel)
    · rw [← String.toList_inj]
      simp [Node.pattern, Tree.tokens, Tree.listTokens, Token.text]
  | startsWith =>
    refine ⟨" LIKE CONCAT(".toList, ",'%')".toList, ?_, fun t => ?_⟩
    · exact (Template.pieces_eq_bytewise (by decide +kernel)).trans (by decide +kernel)
    · rw [← String.toList_inj]
      simp [Node.pattern, Tree.tokens, Tree.listTokens, Token.text]
  | endsWith =>
    refine ⟨" LIKE CONCAT('%',".toList, ")".toList, ?_, fun t => ?_⟩
    · exact (Template.pieces_eq_bytewise (by decide +kernel)).trans (by decide +kernel)
    · rw [← String.toList_inj]
      simp [Node.pattern, Tree.tokens, Tree.listTokens, Token.text]
  | _ => cases h

namespace Node

/-- A phrase in which a node is written, and the node with the placeholders in the phrase. -/
structure WrittenAs (n : Node) (p : Phrase) (m : Node) : Prop where
  plain : m.Plain
  unnamed : m.unnamed = n.unnamed
  placeholders : m.placeholders = p.placeholders
  lexemes : ∀ t ∈ p.placeholders, IsLexeme t
  text : p.text = textOf m.reading.tokens

/-- What a node is written as has its precedence. -/
theorem WrittenAs.precedence {n m : Node} {p : Phrase} (h : WrittenAs n p m) :
    m.precedence = n.precedence := by
  rw [← precedence_unnamed m, h.unnamed, precedence_unnamed]

/-- What a node is written as is put in parentheses where the node is. -/
theorem WrittenAs.wrapsRight {n m : Node} {p : Phrase} (h : WrittenAs n p m) (op : SqlOp) :
    LambdaSql.wrapsRight op m = LambdaSql.wrapsRight op n := by
  rw [← wrapsRight_unnamed op m, h.unnamed, wrapsRight_unnamed]

/-- A phrase in which several nodes are written with commas between them, and the nodes with the
placeholders in the phrase. -/
structure AllWrittenAs (ns : List Node) (p : Phrase) (ms : List Node) : Prop where
  plain : AllPlain ms
  unnamed : listUnnamed ms = listUnnamed ns
  placeholders : listPlaceholders ms = p.placeholders
  lexemes : ∀ t ∈ p.placeholders, IsLexeme t
  text : p.text = textOf (Tree.listTokens (readings ms))

/-- A single node is written as itself. -/
theorem WrittenAs.singleton {n m : Node} {p : Phrase} (h : WrittenAs n p m) :
    AllWrittenAs [n] p [m] where
  plain := ⟨h.plain, trivial⟩
  unnamed := by rw [listUnnamed, listUnnamed, h.unnamed, listUnnamed, listUnnamed]
  placeholders := by rw [listPlaceholders, listPlaceholders, List.append_nil, h.placeholders]
  lexemes := h.lexemes
  text := h.text

/-- Nodes are written as the first and the others with a comma between. -/
theorem WrittenAs.cons {n m : Node} {ns ms : List Node} {p q : Phrase} (h : WrittenAs n p m)
    (hs : AllWrittenAs ns q ms) (hne : ns ≠ []) :
    AllWrittenAs (n :: ns) (p ++ Phrase.ofText "," ++ q) (m :: ms) where
  plain := ⟨h.plain, hs.plain⟩
  unnamed := by rw [listUnnamed, listUnnamed, h.unnamed, hs.unnamed]
  placeholders := by simp [listPlaceholders, h.placeholders, hs.placeholders]
  lexemes := by simpa using List.forall_mem_append.mpr ⟨h.lexemes, hs.lexemes⟩
  text := by
    obtain ⟨u, us, rfl⟩ := List.exists_cons_of_ne_nil hne
    cases ms with
    | nil => cases hs.unnamed
    | cons v vs =>
      have htext := hs.text
      rw [readings] at htext
      rw [readings, readings, Tree.listTokens]
      · simp [h.text, htext, Token.text]
      · simp

/-- A bound value is written as a placeholder.

**Proof sketch.** By whether the value has a name. Without one it gets the next number after the stem, with one the
name it could be bound under, and both are words. -/
theorem writtenAs_bound {value : Value} {native : NativeType} {name : Option String} {t : HostType}
    {ps ps' : Parameters} {p : Phrase} (h : (bound value native name t).Plain) (hps : ps.Spelled)
    (hw : (Writing.bind name value native).Gives ps p ps') :
    ps'.Spelled ∧ ∃ m, WrittenAs (bound value native name t) p m := by
  have hplaced {token : String} (htoken : IsLexeme token) :
      ∃ m, WrittenAs (bound value native name t) [.placeholder token] m := by
    refine ⟨bound value native (some token) t, ?_, rfl, rfl, ?_, ?_⟩
    · rintro _ ⟨⟩
      exact htoken.word
    · exact List.forall_mem_singleton.mpr htoken
    · simp [Phrase.text, Fragment.content, reading, placeholder, Tree.tokens, Token.text]
  cases name with
  | none =>
    cases hw
    have hnext : IsWord (ps.stem ++ toString ps.next).toList := by
      rw [String.toList_append]
      exact hps.stem.append (Number.isLexeme_nat ps.next).word
    exact ⟨⟨hps.mark, hps.upper, hps.stem⟩, hplaced (hps.isLexeme_token hnext)⟩
  | some name =>
    -- what is written is the placeholder and nothing else
    have hrun : Writing.bind (some name) value native ps =
        (ps.bind name value native).map fun r => ([.placeholder r.1], r.2) := by
      show ((ps.bind name value native).bind fun r => Except.ok (r, ps)).bind _ = _
      rcases ps.bind name value native with _ | _ <;> rfl
    unfold Writing.Gives at hw
    rw [hrun] at hw
    rcases hbind : ps.bind name value native with e | ⟨token, qs⟩
    · rw [hbind] at hw
      cases hw
    · rw [hbind] at hw
      cases hw
      obtain ⟨hlexeme, hspelled⟩ := hps.of_bind (h name rfl) hbind
      exact ⟨hspelled, hplaced hlexeme⟩

/-- A test with `LIKE` is written as its text, in parentheses if they are needed, and the pattern. -/
theorem gives_like {f : SqlFunction} {text part : Node} {t : HostType} {ps ps' : Parameters}
    {p : Phrase} (hf : f.isBarePredicate = true)
    (hw : (writeNode MySql.dialect (call f [text, part] t)).Gives ps p ps') :
    ∃ q qs r, (writeNode MySql.dialect text).Gives ps q qs ∧
      (writeNode MySql.dialect part).Gives qs r ps' ∧
      p.placeholders = q.placeholders ++ r.placeholders ∧
      ∀ u : Tree, r.text = textOf u.tokens → p.text =
        (q.parenthesisedIf (text.precedence < atomPrecedence)).text ++
          (" LIKE " ++ textOf (pattern f u).tokens) := by
  obtain ⟨before, after, hpieces, htext⟩ := MySql.pieces_like hf
  have htemplate : Template.pieces (MySql.dialect.template f) = _ := hpieces
  simp only [writeNode, templateArguments, Template.expand] at hw
  rw [htemplate] at hw
  obtain ⟨q, qs, rest, hq, hrest, rfl⟩ := Template.gives_argument rfl rfl hw
  obtain ⟨rest, hrest, hbefore, hplace⟩ := Template.gives_chars hrest
  obtain ⟨r, rs, last, hr, hlast, rfl⟩ := Template.gives_argument rfl rfl hrest
  obtain ⟨last, hlast, hafter, hplace'⟩ := Template.gives_chars hlast
  simp only [Template.expandPieces, Writing.gives_pure] at hlast
  obtain ⟨rfl, rfl⟩ := hlast
  refine ⟨q, qs, r, hq, hr, ?_, fun u hu => ?_⟩
  · rw [Phrase.placeholders_append, Phrase.placeholders_parenthesisedIf, hplace,
      Phrase.placeholders_append, Phrase.placeholders_parenthesisedIf, hplace']
    simp [Phrase.placeholders]
  · rw [Phrase.text_append, hbefore, Phrase.text_append, hafter, htext,
      Phrase.text_parenthesisedIf hu]
    simp [Phrase.text, Tree.groupIf, String.append_assoc]

mutual

/-- **A plain node is written as the tokens of its reading**, with the placeholders of its bound
values among them.

**Proof sketch.** By induction on the node, along the steps of writing. A node with placeholders binds
as strongly as it does without them, so the same parentheses are written around both. -/
theorem writtenAs : (n : Node) → n.Plain → ∀ {ps ps' : Parameters} {p : Phrase}, ps.Spelled →
    (writeNode MySql.dialect n).Gives ps p ps' → ps'.Spelled ∧ ∃ m, WrittenAs n p m
  | literal sql v t, h, ps, ps', p, hps, hw => by
    simp only [writeNode, Writing.gives_pure] at hw
    obtain ⟨rfl, rfl⟩ := hw
    refine ⟨hps, literal sql v t, h, rfl, rfl, nofun, ?_⟩
    rw [Phrase.text_ofText, reading, text_literal]
  | column a name t, h, ps, ps', p, hps, hw => by
    simp only [writeNode, Writing.gives_pure] at hw
    obtain ⟨rfl, rfl⟩ := hw
    refine ⟨hps, column a name t, h, rfl, rfl, nofun, ?_⟩
    simp [reading, Tree.tokens, Token.text]
  | null, h, ps, ps', p, hps, hw => by
    simp only [writeNode, Writing.gives_pure] at hw
    obtain ⟨rfl, rfl⟩ := hw
    refine ⟨hps, null, h, rfl, rfl, nofun, ?_⟩
    simp [reading, Tree.tokens, Token.text]
  | raw text t, h, ps, ps', p, hps, hw => by
    simp only [writeNode, Writing.gives_pure] at hw
    obtain ⟨rfl, rfl⟩ := hw
    refine ⟨hps, raw text t, h, rfl, rfl, nofun, ?_⟩
    obtain rfl | rfl := h <;> rfl
  | bound value native name t, h, ps, ps', p, hps, hw => writtenAs_bound h hps hw
  | binary op l r t, h, ps, ps', p, hps, hw => by
    simp only [writeNode, Writing.gives_bind, Writing.gives_pure] at hw
    obtain ⟨pl, qs, hl, pr, rs, hr, rfl, rfl⟩ := hw
    obtain ⟨hqs, ml, hml⟩ := writtenAs l h.1 hps hl
    obtain ⟨hrs, mr, hmr⟩ := writtenAs r h.2 hqs hr
    refine ⟨hrs, binary op ml mr t, ⟨hml.plain, hmr.plain⟩, ?_, ?_, ?_, ?_⟩
    · rw [Node.unnamed, Node.unnamed, hml.unnamed, hmr.unnamed]
    · simp [Node.placeholders, hml.placeholders, hmr.placeholders]
    · simpa using List.forall_mem_append.mpr ⟨hml.lexemes, hmr.lexemes⟩
    · rw [reading, Tree.tokens_splice, hml.precedence, hmr.wrapsRight]
      simp [Phrase.text_parenthesisedIf hml.text, Phrase.text_parenthesisedIf hmr.text, Token.text]
  | unary .not operand t, h, ps, ps', p, hps, hw => by
    simp only [writeNode, Writing.gives_bind, Writing.gives_pure] at hw
    obtain ⟨q, qs, hq, rfl, rfl⟩ := hw
    obtain ⟨hqs, m, hm⟩ := writtenAs operand h hps hq
    have hplace := Phrase.placeholders_parenthesisedIf true q
    have htext := Phrase.text_parenthesisedIf hm.text true
    refine ⟨hqs, unary .not m t, hm.plain, ?_, ?_, ?_, ?_⟩
    · rw [Node.unnamed, Node.unnamed, hm.unnamed]
    · rw [Phrase.placeholders_append]
      exact hm.placeholders.trans hplace.symm
    · rw [Phrase.placeholders_append]
      exact hplace ▸ hm.lexemes
    · rw [Phrase.text_append, Phrase.text_ofText, reading, Tree.tokens, textOf_cons]
      exact congrArg ("NOT " ++ ·) htext
  | unary .negate operand t, h, ps, ps', p, hps, hw => by
    simp only [writeNode, Writing.gives_bind, Writing.gives_pure] at hw
    obtain ⟨q, qs, hq, rfl, rfl⟩ := hw
    obtain ⟨hqs, m, hm⟩ := writtenAs operand h hps hq
    refine ⟨hqs, unary .negate m t, hm.plain, ?_, ?_, ?_, ?_⟩
    · rw [Node.unnamed, Node.unnamed, hm.unnamed]
    · simp [Node.placeholders, hm.placeholders]
    · simpa using hm.lexemes
    · rw [reading, tokens_signed, hm.precedence]
      simp [Phrase.text_parenthesisedIf hm.text, Token.text, SqlOp.text]
  | isNull operand negated, h, ps, ps', p, hps, hw => by
    simp only [writeNode, Writing.gives_bind, Writing.gives_pure] at hw
    obtain ⟨q, qs, hq, rfl, rfl⟩ := hw
    obtain ⟨hqs, m, hm⟩ := writtenAs operand h hps hq
    refine ⟨hqs, isNull m negated, hm.plain, ?_, ?_, ?_, ?_⟩
    · rw [Node.unnamed, Node.unnamed, hm.unnamed]
    · simp [Node.placeholders, hm.placeholders]
    · simpa using hm.lexemes
    · rw [reading, Tree.tokens, hm.precedence]
      simp [Phrase.text_parenthesisedIf hm.text, Token.text]
  | inList operand [] negated, h, ps, ps', p, hps, hw => absurd rfl h.2.1
  | inList operand (item :: items) negated, h, ps, ps', p, hps, hw => by
    simp only [writeNode, Writing.gives_bind, Writing.gives_pure] at hw
    obtain ⟨q, qs, hq, r, rs, hr, rfl, rfl⟩ := hw
    obtain ⟨hqs, m, hm⟩ := writtenAs operand h.1 hps hq
    obtain ⟨hrs, ms, hms⟩ := allWrittenAs (item :: items) h.2.2 hqs hr
    have hne : ms ≠ [] := by
      rintro rfl
      exact nomatch hms.unnamed
    refine ⟨hrs, inList m ms negated, ⟨hm.plain, hne, hms.plain⟩, ?_, ?_, ?_, ?_⟩
    · rw [Node.unnamed, Node.unnamed, hm.unnamed, hms.unnamed]
    · simp [Node.placeholders, hm.placeholders, hms.placeholders]
    · simpa using List.forall_mem_append.mpr ⟨hm.lexemes, hms.lexemes⟩
    · rw [reading, Tree.tokens, hm.precedence]
      simp [Phrase.text_parenthesisedIf hm.text, hms.text, Token.text, inKeyword]
  | call f [text, part] t, h, ps, ps', p, hps, hw => by
    obtain ⟨q, qs, r, hq, hr, hplace, htext⟩ := gives_like h.1 hw
    obtain ⟨hqs, mt, hmt⟩ := writtenAs text h.2.1 hps hq
    obtain ⟨hrs, mp, hmp⟩ := writtenAs part h.2.2 hqs hr
    refine ⟨hrs, call f [mt, mp] t, ⟨h.1, hmt.plain, hmp.plain⟩, ?_, ?_, ?_, ?_⟩
    · simp only [Node.unnamed, listUnnamed, hmt.unnamed, hmp.unnamed]
    · simp [Node.placeholders, listPlaceholders, hmt.placeholders, hmp.placeholders, hplace]
    · rw [hplace]
      exact List.forall_mem_append.mpr ⟨hmt.lexemes, hmp.lexemes⟩
    · rw [htext _ hmp.text, reading, Tree.tokens, hmt.precedence, textOf_append, textOf_cons,
        Phrase.text_parenthesisedIf hmt.text]
      rfl
  | call _ [] _, h, _, _, _, _, _ | call _ [_] _, h, _, _, _, _, _ | call _ (_ :: _ :: _ :: _) _, h, _, _, _, _, _ | case .., h, _, _, _, _, _
  | inQuery .., h, _, _, _, _, _ | .exists .., h, _, _, _, _, _ | subquery .., h, _, _, _, _, _ | group .., h, _, _, _, _, _ => h.elim

/-- Several plain nodes are written as the tokens of their readings, with commas between them. -/
theorem allWrittenAs : (ns : List Node) → AllPlain ns → ∀ {ps ps' : Parameters} {qs : List Phrase},
    ps.Spelled → (writeNodes MySql.dialect ns).Gives ps qs ps' →
      ps'.Spelled ∧ ∃ ms, AllWrittenAs ns (Phrase.joined "," qs) ms
  | [], h, ps, ps', qs, hps, hw => by
    simp only [writeNodes, Writing.gives_pure] at hw
    obtain ⟨rfl, rfl⟩ := hw
    exact ⟨hps, [], trivial, rfl, rfl, nofun, rfl⟩
  | n :: rest, h, ps, ps', qs, hps, hw => by
    simp only [writeNodes, Writing.gives_bind, Writing.gives_pure] at hw
    obtain ⟨p, ps₁, hp, qs, ps₂, hqs, rfl, rfl⟩ := hw
    obtain ⟨hps₁, m, hm⟩ := writtenAs n h.1 hps hp
    obtain ⟨hps₂, ms, hms⟩ := allWrittenAs rest h.2 hps₁ hqs
    cases rest with
    | nil =>
      simp only [writeNodes, Writing.gives_pure] at hqs
      obtain ⟨rfl, rfl⟩ := hqs
      exact ⟨hps₂, [m], hm.singleton⟩
    | cons u rest =>
      simp only [writeNodes, Writing.gives_bind, Writing.gives_pure] at hqs
      obtain ⟨_, _, _, _, _, _, rfl, rfl⟩ := hqs
      exact ⟨hps₂, m :: ms, hm.cons hms (List.cons_ne_nil u rest)⟩

end

mutual

/-- Writing a plain node whose bound values have no names of their own does not fail.

**Proof sketch.** By induction on the node. The writings of the operands do not fail, nor does putting them together.
-/
theorem total_writeNode : (n : Node) → n.Plain → n.unnamed = n → (writeNode MySql.dialect n).Total
  | literal .., _, _ | column .., _, _ | null, _, _ | raw .., _, _ => Writing.total_pure _
  | bound value native name t, _, hn => by
    obtain rfl : none = name := (Node.bound.inj hn).2.2.1
    exact fun ps => ⟨_, _, rfl⟩
  | binary op l r t, h, hn => by
    obtain ⟨-, hl, hr, -⟩ := Node.binary.inj hn
    exact (total_writeNode l h.1 hl).bind fun _ => (total_writeNode r h.2 hr).bind fun _ =>
      Writing.total_pure _
  | unary .not operand t, h, hn =>
    (total_writeNode operand h (Node.unary.inj hn).2.1).bind fun _ => Writing.total_pure _
  | unary .negate operand t, h, hn =>
    (total_writeNode operand h (Node.unary.inj hn).2.1).bind fun _ => Writing.total_pure _
  | isNull operand negated, h, hn =>
    (total_writeNode operand h (Node.isNull.inj hn).1).bind fun _ => Writing.total_pure _
  | inList operand [] negated, h, _ => absurd rfl h.2.1
  | inList operand (item :: items) negated, h, hn => by
    obtain ⟨ho, hi, -⟩ := Node.inList.inj hn
    exact (total_writeNode operand h.1 ho).bind fun _ =>
      (total_writeNodes (item :: items) h.2.2 hi).bind fun _ => Writing.total_pure _
  | call f [text, part] t, h, hn => by
    obtain ⟨-, hargs, -⟩ := Node.call.inj hn
    obtain ⟨ht, hargs⟩ := List.cons.inj hargs
    have hp := (List.cons.inj hargs).1
    refine Template.total_expandPieces ?_ _ []
    exact List.forall_mem_cons.mpr ⟨total_writeNode text h.2.1 ht,
      List.forall_mem_singleton.mpr (total_writeNode part h.2.2 hp)⟩
  | call _ [] _, h, _ | call _ [_] _, h, _ | call _ (_ :: _ :: _ :: _) _, h, _ | case .., h, _
  | inQuery .., h, _ | .exists .., h, _ | subquery .., h, _ | group .., h, _ => h.elim

/-- Writing several plain nodes whose bound values have no names of their own does not fail. -/
theorem total_writeNodes : (ns : List Node) → AllPlain ns → listUnnamed ns = ns →
    (writeNodes MySql.dialect ns).Total
  | [], _, _ => Writing.total_pure _
  | n :: rest, h, hn => by
    obtain ⟨hn, hrest⟩ := List.cons.inj hn
    exact (total_writeNode n h.1 hn).bind fun _ => (total_writeNodes rest h.2 hrest).bind fun _ =>
      Writing.total_pure _

end

/-- **The text of a plain node is read as the node, with its placeholders, exactly when the node keeps
its structure**, parentheses and the grouping of runs aside. It is always written, and always read as
some tree.

**Proof sketch.** What is written are the tokens of the reading of the node with its placeholders. The
reading is settled, so it is the tree that is read from its tokens. It is the tree of the node if and
only if no operand is misplaced, and placeholders have nothing to do with that. -/
theorem read_writeNode {n : Node} {ps : Parameters} (h : n.Plain) (hn : n.unnamed = n)
    (hps : ps.Spelled) :
    ∃ (p : Phrase) (ps' : Parameters) (m : Node) (u : Tree),
      writeNode MySql.dialect n ps = .ok (p, ps') ∧ m.unnamed = n ∧
      m.placeholders = p.placeholders ∧ read p.text = some u ∧
      (u.Same m.tree ↔ n.KeepsStructure) := by
  obtain ⟨p, ps', hw⟩ := total_writeNode n h hn ps
  obtain ⟨-, m, hm⟩ := writtenAs n h hps hw
  have hspelled := spelled_reading m hm.plain (hm.placeholders ▸ hm.lexemes)
  refine ⟨p, ps', m, m.reading, hw, hm.unnamed.trans hn, hm.placeholders, ?_, ?_⟩
  · rw [hm.text]
    exact read_textOf (settled_reading hm.plain) hspelled
  · rw [same_reading_iff hm.plain, ← keepsStructure_unnamed m hm.plain, hm.unnamed, hn]

/-- A column of the only table of a query. -/
def quantity (name : String) : Node := column (some "a") name .int32

/-- A product whose right operand is a product that begins with a quotient. -/
def productOfQuotient : Node :=
  binary .mul (quantity "x")
    (binary .mul (binary .intDiv (quantity "y") (quantity "z") .int32) (quantity "w") .int32) .int32

/-- No parentheses are written around the right operand, so that the quotient takes the whole product
before it. -/
theorem productOfQuotient_read :
    ∃ (p : Phrase) (ps' : Parameters) (m : Node) (u : Tree),
      writeNode MySql.dialect productOfQuotient {} = .ok (p, ps') ∧ m.unnamed = productOfQuotient ∧
        read p.text = some u ∧ ¬ u.Same m.tree := by
  have hcolumn (name : String) : (quantity name).Plain := by
    rintro _ ⟨⟩
    decide
  have hplain : productOfQuotient.Plain :=
    ⟨hcolumn _, ⟨hcolumn _, hcolumn _⟩, hcolumn _⟩
  have hparameters : ({} : Parameters).Spelled := ⟨by decide, by decide, by decide⟩
  obtain ⟨p, ps', m, u, hw, hm, -, hu, hsame⟩ :=
    read_writeNode hplain rfl hparameters
  refine ⟨p, ps', m, u, hw, hm, hu, fun h => ?_⟩
  exact (hsame.mp h).1 (.inr (.inr (.inr ⟨.inr rfl, _, _, _, rfl, rfl⟩)))

end Node

end LambdaSql
