import LambdaSql.Dialect.MySql
import LambdaSql.Sql.Operators
import Mathlib

/-!
# Joined texts

`Node.concat` joins texts: it opens those that are joined already, leaves out nulls, and makes neighbouring literals
one. The text that is spelled stays the same, and what comes out has a simple form.

## Main definitions

* `Node.spelled` - the text of a node, where the texts of columns and the like are given.
* `Node.IsFlat` - joined texts in which nothing is left to be done.
* `Node.Merged` - what becomes of pieces of a text, after a run of literals.

## Main results

* `Node.merged_mergePieces` - the pieces of a text.
* `Node.concat_flat` - joined texts spell the texts one after the other, and are a literal, a piece or flat.
-/

namespace LambdaSql.Node

/-! ## Spelling -/

section Spelling

variable (σ : Node → String)

mutual

/-- The text of a node: that of a literal is what its value adds to a text, null has none, and joined texts are spelled
one after the other. The texts of other nodes are given. -/
def spelled : Node → String
  | literal _ value _ => value.concatText
  | null => ""
  | call .concat args _ => spelledAll args
  | n => σ n

/-- The texts of several nodes, one after the other. -/
def spelledAll : List Node → String
  | [] => ""
  | n :: rest => spelled n ++ spelledAll rest

end

/-- Nodes are spelled one after the other. -/
private theorem spelledAll_append (ns ms : List Node) :
    spelledAll σ (ns ++ ms) = spelledAll σ ns ++ spelledAll σ ms := by
  induction ns with
  | nil => simp [spelledAll]
  | cons n rest ih => rw [List.cons_append, spelledAll, ih, spelledAll, String.append_assoc]

/-- A single node is spelled as it is. -/
private theorem spelledAll_singleton (n : Node) : spelledAll σ [n] = n.spelled σ := by
  simp [spelledAll]

/-- A text and its pieces are spelled in the same way. -/
theorem spelledAll_pieces (n : Node) : spelledAll σ n.pieces = n.spelled σ := by
  unfold pieces
  split
  · rw [spelled]
  · exact spelledAll_singleton σ n

/-- Nodes are spelled as all of their pieces are. -/
private theorem spelledAll_flatMap_pieces (nodes : List Node) :
    spelledAll σ (nodes.flatMap pieces) = spelledAll σ nodes := by
  induction nodes with
  | nil => rfl
  | cons n rest ih => rw [List.flatMap_cons, spelledAll_append, spelledAll_pieces, ih, spelledAll]

end Spelling

/-! ## Forms -/

/-- Whether a node is a literal. -/
def isLiteral : Node → Bool
  | literal .. => true
  | _ => false

/-- Whether a node is a joined text. -/
def isConcat : Node → Bool
  | call .concat .. => true
  | _ => false

/-- The literal of a text. -/
def textLiteral (d : Dialect) (s : String) : Node := literal (d.quoteText s) (.string s) .string

/-- A literal text spells itself. -/
private theorem spelled_textLiteral (σ : Node → String) (d : Dialect) (s : String) :
    (textLiteral d s).spelled σ = s := by
  rw [textLiteral, spelled]
  simp [Value.concatText, Value.text]

/-- Texts that can be joined as they are: none is a joined text or null, and no two neighbours are literals. -/
structure IsFlat (parts : List Node) : Prop where
  plain : ∀ n ∈ parts, n.isConcat = false ∧ n ≠ null
  apart : parts.IsChain fun a b => a.isLiteral = false ∨ b.isLiteral = false

/-! ## Pieces -/

/-- What becomes of pieces of a text, after a run of literals that spell some text. -/
structure Merged (d : Dialect) (run : Option String) (nodes parts : List Node) : Prop where
  spelled : ∀ σ, spelledAll σ parts = run.getD "" ++ spelledAll σ nodes
  source : ∀ n ∈ parts, (∃ s, n = textLiteral d s) ∨ n ∈ nodes ∧ n.isLiteral = false ∧ n ≠ null
  apart : parts.IsChain fun a b => a.isLiteral = false ∨ b.isLiteral = false

variable {d : Dialect}

/-- A run of literals, if there is one, becomes one literal. -/
theorem merged_runLiteral (run : Option String) : ∃ parts, runLiteral d run = .ok parts ∧ Merged d run [] parts := by
  cases run with
  | none => exact ⟨[], rfl, fun _ => rfl, nofun, .nil⟩
  | some s =>
    refine ⟨[textLiteral d s], rfl, fun σ => ?_, fun n hn => ?_, .singleton _⟩
    · rw [spelledAll_singleton, spelled_textLiteral]
      simp [spelledAll]
    · exact .inl ⟨s, List.mem_singleton.mp hn⟩

/-- A literal goes into the run. -/
theorem Merged.literal {run : Option String} {value : Value} {rest parts : List Node} (sql : String) (ty : HostType)
    (h : Merged d (some (run.getD "" ++ value.concatText)) rest parts) :
    Merged d run (literal sql value ty :: rest) parts := by
  refine ⟨fun σ => ?_, fun n hn => (h.source n hn).imp_right fun hn => ⟨.tail _ hn.1, hn.2⟩, h.apart⟩
  rw [h.spelled, spelledAll, Node.spelled, Option.getD_some, String.append_assoc]

/-- Null adds nothing. -/
theorem Merged.null {run : Option String} {rest parts : List Node} (h : Merged d run rest parts) :
    Merged d run (null :: rest) parts := by
  refine ⟨fun σ => ?_, fun n hn => (h.source n hn).imp_right fun hn => ⟨.tail _ hn.1, hn.2⟩, h.apart⟩
  rw [h.spelled, spelledAll, Node.spelled, String.empty_append]

/-- Any other node ends the run, and stands between two literals. -/
theorem Merged.other {run : Option String} {n : Node} {rest before after : List Node} (hn : n.isLiteral = false)
    (hnull : n ≠ Node.null) (hbefore : Merged d run [] before) (hafter : Merged d none rest after) :
    Merged d run (n :: rest) (before ++ n :: after) := by
  refine ⟨fun σ => ?_, fun m hm => ?_, ?_⟩
  · rw [spelledAll_append, spelledAll, hbefore.spelled, hafter.spelled, spelledAll, spelledAll]
    simp
  · obtain hm | hm := List.mem_append.mp hm
    · exact .inl ((hbefore.source m hm).resolve_right fun h => nomatch h.1)
    · obtain rfl | hm := List.mem_cons.mp hm
      · exact .inr ⟨.head _, hn, hnull⟩
      · exact (hafter.source m hm).imp_right fun h => ⟨.tail _ h.1, h.2⟩
  · refine List.isChain_append.mpr ⟨hbefore.apart, ?_, fun _ _ m hm => ?_⟩
    · exact List.isChain_cons.mpr ⟨fun _ _ => .inl hn, hafter.apart⟩
    · cases hm
      exact .inr hn

/-- **The pieces of a text**, by induction along the pieces. The invariant is that the literals that were passed last
spell the run.

**Proof sketch.** A literal is added to the run and a null is passed over. Any other piece ends the run, which is
written before it as one literal. -/
theorem merged_mergePieces (run : Option String) (nodes : List Node) :
    ∃ parts, mergePieces d run nodes = .ok parts ∧ Merged d run nodes parts := by
  fun_induction mergePieces d run nodes with
  | case1 run => exact merged_runLiteral run
  | case2 run sql value ty rest ih =>
    obtain ⟨parts, hparts, h⟩ := ih
    exact ⟨parts, hparts, h.literal sql ty⟩
  | case3 run rest ih =>
    obtain ⟨parts, hparts, h⟩ := ih
    exact ⟨parts, hparts, h.null⟩
  | case4 run n rest hliteral hnull ih =>
    obtain ⟨before, hbefore, h⟩ := merged_runLiteral (d := d) run
    obtain ⟨after, hafter, h'⟩ := ih
    have hn : n.isLiteral = false := by
      unfold isLiteral
      split
      · exact (hliteral _ _ _ rfl).elim
      · rfl
    refine ⟨before ++ n :: after, ?_, h.other hn hnull h'⟩
    rw [hbefore, hafter]
    rfl

/-! ## Joined texts -/

/-- What comes of merged pieces: nothing is the empty text, a single text is left alone, and the rest is joined. -/
theorem concat_cases {nodes parts : List Node} (h : mergePieces d none (nodes.flatMap pieces) = .ok parts) :
    ∃ n, concat d nodes = .ok n ∧
      (parts = [] ∧ n = textLiteral d "" ∨ parts = [n] ∧ n.type.isString = true ∨ n = call .concat parts .string) := by
  unfold concat
  rw [h]
  match parts with
  | [] => exact ⟨_, rfl, .inl ⟨rfl, rfl⟩⟩
  | [n] =>
    by_cases hn : n.type.isString = true
    · exact ⟨n, congrArg Except.ok (if_pos hn), .inr (.inl ⟨rfl, hn⟩)⟩
    · exact ⟨_, congrArg Except.ok (if_neg hn), .inr (.inr rfl)⟩
  | _ :: _ :: _ => exact ⟨_, rfl, .inr (.inr rfl)⟩

/-- No piece of a text is a joined text, unless a joined text is joined in it. -/
theorem isConcat_of_mem_pieces {nodes : List Node}
    (hnodes : ∀ args ty, call .concat args ty ∈ nodes → ∀ a ∈ args, a.isConcat = false) {n : Node}
    (hn : n ∈ nodes.flatMap pieces) : n.isConcat = false := by
  obtain ⟨m, hm, hn⟩ := List.mem_flatMap.mp hn
  unfold pieces at hn
  split at hn
  · exact hnodes _ _ hm n hn
  · next hplain =>
    obtain rfl := List.mem_singleton.mp hn
    unfold isConcat
    split
    · exact (hplain _ _ rfl).elim
    · rfl

/-- **Joined texts.** The node that joins some texts always exists. It spells the texts one after the other, whatever
the texts of columns and the like are. If none of the texts is joined from joined texts itself, then it is a literal, or one
of the pieces, which is a text, or it joins texts none of which is a joined text or null, and no two neighbours among
which are literals.

**Proof sketch.** The pieces of the texts are merged from left to right, with the text of the literals that have been
passed kept until another piece comes. By induction on the pieces, what is merged spells the same and has no two
literals beside each other, and its members are literals or pieces. -/
theorem concat_flat (d : Dialect) (nodes : List Node) :
    ∃ n, concat d nodes = .ok n ∧ (∀ σ, n.spelled σ = spelledAll σ nodes) ∧
      ((∀ args ty, call .concat args ty ∈ nodes → ∀ a ∈ args, a.isConcat = false) →
        (∃ s, n = textLiteral d s) ∨
        (n ∈ nodes.flatMap pieces ∧ n.type.isString = true ∧ n.isLiteral = false ∧ n.isConcat = false ∧ n ≠ null) ∨
        ∃ args, n = call .concat args .string ∧ IsFlat args) := by
  obtain ⟨parts, hparts, h⟩ := merged_mergePieces (d := d) none (nodes.flatMap pieces)
  obtain ⟨n, hn, hcases⟩ := concat_cases hparts
  have hspelled (σ : Node → String) : spelledAll σ parts = spelledAll σ nodes := by
    rw [h.spelled, spelledAll_flatMap_pieces, Option.getD_none, String.empty_append]
  refine ⟨n, hn, fun σ => ?_, fun hnodes => ?_⟩
  · rw [← hspelled]
    obtain ⟨rfl, rfl⟩ | ⟨rfl, -⟩ | rfl := hcases
    · exact spelled_textLiteral σ d ""
    · exact (spelledAll_singleton σ n).symm
    · rw [spelled]
  · obtain ⟨-, rfl⟩ | ⟨rfl, hstring⟩ | rfl := hcases
    · exact .inl ⟨"", rfl⟩
    · refine (h.source n (List.mem_singleton_self n)).imp_right fun ⟨hmem, hliteral, hnull⟩ => .inl ?_
      exact ⟨hmem, hstring, hliteral, isConcat_of_mem_pieces hnodes hmem, hnull⟩
    · refine .inr (.inr ⟨parts, rfl, fun m hm => ?_, h.apart⟩)
      obtain ⟨s, rfl⟩ | ⟨hmem, -, hnull⟩ := h.source m hm
      · exact ⟨rfl, nofun⟩
      · exact ⟨isConcat_of_mem_pieces hnodes hmem, hnull⟩

/-- A greeting in which a name is joined with a text already. -/
def greeting : List Node :=
  [literal "'Dear '" (.string "Dear ") .string, null, literal "7" (.int 7) .int32,
    call .concat [literal "' '" (.string " ") .string, column (some "c") "name" .string] .string, ofBool true]

/-- A greeting of texts, a number, a truth value and a column is one flat call. -/
theorem greeting_joined :
    (∀ args ty, call .concat args ty ∈ greeting → ∀ a ∈ args, a.isConcat = false) ∧
    ∃ n, concat MySql.dialect greeting = .ok n ∧
      n = call .concat [textLiteral MySql.dialect "Dear 7 ", column (some "c") "name" .string,
        textLiteral MySql.dialect "True"] .string ∧
      (∀ σ, n.spelled σ = spelledAll σ greeting) ∧
      ((∃ s, n = textLiteral MySql.dialect s) ∨
        (n ∈ greeting.flatMap pieces ∧ n.type.isString = true ∧ n.isLiteral = false ∧ n.isConcat = false ∧ n ≠ null) ∨
        ∃ args, n = call .concat args .string ∧ IsFlat args) := by
  have hnodes : ∀ args ty, call .concat args ty ∈ greeting → ∀ a ∈ args, a.isConcat = false := by
    simp [greeting, ofBool, isConcat]
  obtain ⟨n, hn, hspelled, hform⟩ := concat_flat MySql.dialect greeting
  exact ⟨hnodes, n, hn, Except.ok.inj (hn.symm.trans rfl), hspelled, hform hnodes⟩

end LambdaSql.Node
