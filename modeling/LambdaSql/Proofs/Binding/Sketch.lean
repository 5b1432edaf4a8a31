import LambdaSql.Proofs.Binding.Trace
import LambdaSql.Render.Select

/-!
# Sketches of statements

The sketch of a statement is what its text is written for. It depends on the tree of the statement only, not
on the parameters: the texts are those of the statement, and in the place of each placeholder stands the name
and the value of the node that it is written for.

## Main definitions

* `sketchNode`, `sketchSelect` - what expressions and selections are written for.
* `Written` - a phrase is written for a sketch.

## Main results

* `Template.written_expand` - templates, which may permute, repeat or leave out their arguments.
* `written_writeNode`, `written_writeSelect` - expressions and selections are written for their sketches.
-/

namespace LambdaSql

/-! ## Sketches of clauses -/

namespace Sketch

/-- A text as a sketch. -/
def ofText (s : String) : Sketch := [.text s]

/-- Sketches with a text between them. -/
def joined (separator : String) : List Sketch → Sketch
  | [] => []
  | [sk] => sk
  | sk :: rest => sk ++ ofText separator ++ joined separator rest

/-- A sketch in parentheses. -/
def parenthesised (sk : Sketch) : Sketch := ofText "(" ++ sk ++ ofText ")"

/-- A sketch in parentheses if they are needed. -/
def parenthesisedIf (needed : Bool) (sk : Sketch) : Sketch := if needed then sk.parenthesised else sk

/-- A clause that may be missing. -/
def clause (keyword : String) : Option Sketch → Sketch
  | some sk => ofText keyword ++ sk
  | none => []

/-- A clause with a list that may be empty. -/
def listClause (keyword : String) (items : List Sketch) : Sketch :=
  if items.isEmpty then [] else ofText keyword ++ joined "," items

/-- A table with its alias. -/
def aliased (sk : Sketch) : Option String → Sketch
  | some aliasName => sk ++ ofText (" " ++ aliasName)
  | none => sk

end Sketch

/-- A template with the sketches of its arguments, each with how strongly the argument holds together. -/
def Template.sketch (args : List (Nat × Sketch)) : List Template.Piece → Sketch
  | [] => []
  | .char c :: rest => .text (String.singleton c) :: sketch args rest
  | .arguments :: rest => Sketch.joined "," (args.map Prod.snd) ++ sketch args rest
  | .argument i delimited :: rest =>
    match args[i]? with
    | none => Sketch.ofText "NULL" ++ sketch args rest
    | some arg => arg.2.parenthesisedIf (!delimited && arg.1 < atomPrecedence) ++ sketch args rest

/-! ## Sketches of trees -/

section Trees

variable (d : Dialect)

mutual

/-- What an expression is written for. -/
def sketchNode : Node → Sketch
  | .literal sql _ _ => .ofText sql
  | .bound value native name _ => [.value name value native]
  | .column aliasName name _ => .ofText (columnText d aliasName name)
  | .binary op left right _ =>
    (sketchNode left).parenthesisedIf (left.precedence < op.precedence) ++ .ofText op.text ++
      (sketchNode right).parenthesisedIf (wrapsRight op right)
  | .unary .not operand _ => .ofText "NOT " ++ (sketchNode operand).parenthesised
  | .unary .negate operand _ =>
    .ofText "-" ++ (sketchNode operand).parenthesisedIf (operand.precedence ≤ negatePrecedence)
  | .call f args _ => Template.sketch (sketchArguments args) (Template.pieces (d.template f))
  | .case branches otherwise _ =>
    .ofText "(CASE" ++ sketchBranches branches ++ .ofText " ELSE " ++ sketchNode otherwise ++ .ofText " END)"
  | .inList _ [] negated => .ofText (if negated then "1=1" else "1=0")
  | .inList operand (item :: items) negated =>
    (sketchNode operand).parenthesisedIf (operand.precedence ≤ predicatePrecedence) ++
      .ofText (inKeyword negated) ++ .joined "," (sketchNodes (item :: items)) ++ .ofText ")"
  | .inQuery operand query negated =>
    (sketchNode operand).parenthesisedIf (operand.precedence ≤ predicatePrecedence) ++
      .ofText (inKeyword negated) ++ sketchSelect query ++ .ofText ")"
  | .exists query negated =>
    .ofText (if negated then "NOT EXISTS" else "EXISTS") ++ (sketchSelect query).parenthesised
  | .isNull operand negated =>
    (sketchNode operand).parenthesisedIf (operand.precedence ≤ predicatePrecedence) ++
      .ofText (if negated then " IS NOT NULL" else " IS NULL")
  | .subquery query _ => (sketchSelect query).parenthesised
  | .group inner => (sketchNode inner).parenthesised
  | .raw text _ => .ofText text
  | .null => .ofText "NULL"

/-- What several expressions are written for. -/
def sketchNodes : List Node → List Sketch
  | [] => []
  | n :: rest => sketchNode n :: sketchNodes rest

/-- What the arguments of a template are written for. -/
def sketchArguments : List Node → List (Nat × Sketch)
  | [] => []
  | n :: rest => (n.precedence, sketchNode n) :: sketchArguments rest

/-- What the branches of a choice are written for. -/
def sketchBranches : List (Node × Node) → Sketch
  | [] => []
  | (test, value) :: rest =>
    .ofText " WHEN " ++ sketchNode test ++ .ofText " THEN " ++ sketchNode value ++ sketchBranches rest

/-- What an expression that may be missing is written for. -/
def sketchOption : Option Node → Option Sketch
  | none => none
  | some n => some (sketchNode n)

/-- What the sort keys of a selection are written for. -/
def sketchOrder : List (Node × Bool) → List Sketch
  | [] => []
  | (n, down) :: rest => (if down then sketchNode n ++ .ofText " DESC" else sketchNode n) :: sketchOrder rest

/-- What the selected expressions are written for. -/
def sketchColumns : List (SelectedOf Node) → List Sketch
  | [] => []
  | ⟨n, some aliasName⟩ :: rest =>
    (sketchNode n ++ .ofText (" AS " ++ d.quoteIdentifier aliasName)) :: sketchColumns rest
  | ⟨n, none⟩ :: rest => sketchNode n :: sketchColumns rest

/-- What is written for that which a selection reads from. -/
def sketchRows : Rows → Sketch
  | .named name schema => .ofText (d.qualifiedTable name schema)
  | .derived query => (sketchSelect query).parenthesised

/-- What a table in a clause is written for. -/
def sketchTable : TableOf Rows → Sketch
  | ⟨rows, aliasName⟩ => (sketchRows rows).aliased aliasName

/-- What the joins of a clause are written for. -/
def sketchJoins : List (JoinedOf Node Rows) → Sketch
  | [] => []
  | ⟨kind, table, on⟩ :: rest =>
    .ofText (" " ++ kind.keyword ++ " ") ++ sketchTable table ++ .ofText " ON " ++ sketchNode on ++
      sketchJoins rest

/-- What a selection is written for. -/
def sketchSelect : SelectOf Node Rows → Sketch
  | ⟨distinct, columns, table, joins, filter, groupBy, having, orderBy, limit, offset, _, _⟩ =>
    .ofText (if distinct then "SELECT DISTINCT " else "SELECT ") ++ .joined "," (sketchColumns columns) ++
      .ofText " FROM " ++ sketchTable table ++ sketchJoins joins ++
      .clause " WHERE " (sketchOption filter) ++ .listClause " GROUP BY " (sketchNodes groupBy) ++
      .clause " HAVING " (sketchOption having) ++ .listClause " ORDER BY " (sketchOrder orderBy) ++
      .ofText (d.limitClause limit offset)

end

end Trees

/-! ## Phrases written for sketches -/

/-- Writing goes from some parameters to others, and a phrase is written for a sketch. -/
def Written (ps : Parameters) (p : Phrase) (sk : Sketch) (qs : Parameters) : Prop :=
  ∃ w, Draws ps w qs ∧ w.map Prod.fst = p ∧ w.map Prod.snd = sk

/-- Longer phrases are written for longer sketches when their parts are, and texts for themselves. -/
structure PutTogether (R : Parameters → Phrase → Sketch → Parameters → Prop) : Prop where
  text : ∀ ps s, R ps (Phrase.ofText s) (Sketch.ofText s) ps
  append : ∀ {ps qs rs p q a b}, R ps p a qs → R qs q b rs → R ps (p ++ q) (a ++ b) rs

/-- Phrases are written for sketches, one after the other. -/
inductive InTurn (R : Parameters → Phrase → Sketch → Parameters → Prop) :
    Parameters → List Phrase → List Sketch → Parameters → Prop
  | nil {ps qs : Parameters} : R ps [] [] qs → InTurn R ps [] [] qs
  | cons {ps qs rs : Parameters} {p : Phrase} {sk : Sketch} {rest : List Phrase} {sks : List Sketch} :
    R ps p sk qs → InTurn R qs rest sks rs → InTurn R ps (p :: rest) (sk :: sks) rs

/-- A phrase that may be missing is written for a sketch. -/
inductive OptionWritten : Parameters → Option Phrase → Option Sketch → Parameters → Prop
  | none (ps : Parameters) : OptionWritten ps none none ps
  | some {ps qs : Parameters} {p : Phrase} {sk : Sketch} : Written ps p sk qs →
    OptionWritten ps (some p) (some sk) qs

namespace Written

variable {ps qs rs : Parameters} {p q : Phrase} {sk other : Sketch}

/-- Nothing is written for nothing. -/
theorem nil (ps : Parameters) : Written ps [] [] ps := ⟨[], .nil, rfl, rfl⟩

/-- A text is written for itself. -/
theorem ofText (ps : Parameters) (s : String) : Written ps (Phrase.ofText s) (Sketch.ofText s) ps :=
  ⟨_, Draws.nil.text s, rfl, rfl⟩

/-- What is written in turn is written together. -/
theorem append (h : Written ps p sk qs) (h' : Written qs q other rs) :
    Written ps (p ++ q) (sk ++ other) rs := by
  obtain ⟨w, hw, rfl, rfl⟩ := h
  obtain ⟨u, hu, rfl, rfl⟩ := h'
  exact ⟨w ++ u, hw.append hu, List.map_append, List.map_append⟩

/-- A text before what is written. -/
theorem before (h : Written ps p sk qs) (s : String) :
    Written ps (Phrase.ofText s ++ p) (Sketch.ofText s ++ sk) qs := (ofText ps s).append h

/-- A text after what is written. -/
theorem after (h : Written ps p sk qs) (s : String) :
    Written ps (p ++ Phrase.ofText s) (sk ++ Sketch.ofText s) qs := h.append (ofText qs s)

/-- What is written stands in parentheses where its sketch does. -/
theorem parenthesised (h : Written ps p sk qs) : Written ps p.parenthesised sk.parenthesised qs :=
  (h.before "(").after ")"

/-- Parentheses stand where they are needed in both. -/
theorem parenthesisedIf (h : Written ps p sk qs) (needed : Bool) :
    Written ps (p.parenthesisedIf needed) (sk.parenthesisedIf needed) qs := by
  cases needed with
  | false => exact h
  | true => exact h.parenthesised

/-- What is written has an alias where its sketch has. -/
theorem aliased (h : Written ps p sk qs) (aliasName : Option String) :
    Written ps (LambdaSql.aliased p aliasName) (sk.aliased aliasName) qs := by
  cases aliasName with
  | none => exact h
  | some aliasName => exact h.after _

/-- A value is written as a placeholder for it. -/
theorem bind {name : Option String} {value : Value} {native : NativeType}
    (h : (Writing.bind name value native).Gives ps p qs) : Written ps p [.value name value native] qs := by
  obtain ⟨token, rfl, hbinds⟩ := Writing.binds_of_gives h
  exact ⟨_, Draws.nil.value hbinds, rfl, rfl⟩

end Written

/-- Writing goes by parts. -/
theorem putTogether_written : PutTogether Written := ⟨Written.ofText, Written.append⟩

section Lists

variable {R : Parameters → Phrase → Sketch → Parameters → Prop} {ps qs rs : Parameters}
  {phrases : List Phrase} {sks : List Sketch}

/-- Parts that are written in turn are written with separators between them. -/
theorem InTurn.joined (h : InTurn R ps phrases sks qs) (hR : PutTogether R) (separator : String) :
    R ps (Phrase.joined separator phrases) (Sketch.joined separator sks) qs := by
  induction h with
  | nil h => exact h
  | @cons ps qs rs p sk _ _ hp hrest ih =>
    cases hrest with
    | nil h =>
      have := hR.append hp h
      rwa [List.append_nil, List.append_nil] at this
    | cons => exact hR.append (hR.append hp (hR.text qs separator)) ih

/-- Parts that are written in turn may be followed by further ones. -/
theorem InTurn.append {phrases' : List Phrase} {sks' : List Sketch} (h : InTurn R ps phrases sks qs)
    (hR : PutTogether R) (h' : InTurn R qs phrases' sks' rs) :
    InTurn R ps (phrases ++ phrases') (sks ++ sks') rs := by
  induction h with
  | nil h =>
    cases h' with
    | nil h' => exact .nil (hR.append h h')
    | cons hp hrest => exact .cons (hR.append h hp) hrest
  | cons hp _ ih => exact .cons hp (ih h')

/-- A clause of several parts is written for its sketch, and left out if there are none. -/
theorem InTurn.listClause (h : InTurn Written ps phrases sks qs) (keyword : String) :
    Written ps (LambdaSql.listClause keyword phrases) (Sketch.listClause keyword sks) qs := by
  cases h with
  | nil h => exact h
  | cons hp hrest => exact ((InTurn.cons hp hrest).joined putTogether_written ",").before keyword

/-- A clause is written for its sketch, and left out if there is nothing in it. -/
theorem OptionWritten.clause {p : Option Phrase} {sk : Option Sketch} (h : OptionWritten ps p sk qs)
    (keyword : String) : Written ps (LambdaSql.clause keyword p) (Sketch.clause keyword sk) qs := by
  cases h with
  | none => exact .nil ps
  | some hp => exact hp.before keyword

end Lists

/-! ## Templates -/

namespace Template

variable {ps qs rs : Parameters}

/-- An argument is written for a sketch, and holds together as strongly. -/
def Argument.WrittenFor (a : Argument) (s : Nat × Sketch) : Prop :=
  a.precedence = s.1 ∧ ∀ {ps p qs}, a.write.Gives ps p qs → Written ps p s.2 qs

/-- All arguments are written for their sketches. -/
theorem allWritten_arguments {args : List Argument} {sks : List (Nat × Sketch)}
    (h : List.Forall₂ Argument.WrittenFor args sks) {phrases : List Phrase}
    (hw : (args.mapM Argument.write : Writing (List Phrase)).Gives ps phrases qs) :
    InTurn Written ps phrases (sks.map Prod.snd) qs := by
  induction h generalizing ps phrases with
  | nil =>
    rw [List.mapM_nil, Writing.gives_pure] at hw
    obtain ⟨rfl, rfl⟩ := hw
    exact .nil (.nil _)
  | cons ha _ ih =>
    simp only [List.mapM_cons, Writing.gives_bind, Writing.gives_pure] at hw
    obtain ⟨p, qs, hp, rest, rs, hrest, rfl, rfl⟩ := hw
    exact .cons (ha.2 hp) (ih hrest)

/-- What may follow a trace, in parentheses if they are needed. -/
theorem draws_parenthesisedIf {w u : Trace} (hw : Draws ps w qs)
    (hu : ∀ v, Draws ps v qs → (∀ piece ∈ w, piece ∈ v) → Draws ps (v ++ u) rs) (needed : Bool) :
    ∃ first : Trace, Draws ps (w ++ first) rs ∧ (∀ piece ∈ u, piece ∈ first) ∧
      first.map Prod.fst = Phrase.parenthesisedIf needed (u.map Prod.fst) ∧
      first.map Prod.snd = Sketch.parenthesisedIf needed (u.map Prod.snd) := by
  cases needed with
  | false => exact ⟨u, hu w hw fun _ h => h, fun _ h => h, rfl, rfl⟩
  | true =>
    have hopen := hu _ (hw.text "(") fun piece h => List.mem_append_left _ h
    refine ⟨([(.text "(", .text "(")] : Trace) ++ u ++ ([(.text ")", .text ")")] : Trace), ?_, ?_, ?_, ?_⟩
    · rw [← List.append_assoc, ← List.append_assoc]
      exact hopen.text ")"
    · exact fun piece h => List.mem_append_left _ (List.mem_append_right _ h)
    · rw [List.map_append, List.map_append]
      rfl
    · rw [List.map_append, List.map_append]
      rfl

/-- Phrases written before, each for the sketch of the argument at its index, along a trace. -/
def Cached (w : Trace) (sks : List (Nat × Sketch)) (written : List (Nat × Phrase)) : Prop :=
  ∀ i p, written.lookup i = some p → ∃ (u : Trace) (s : Nat × Sketch),
    sks[i]? = some s ∧ (∀ piece ∈ u, piece ∈ w) ∧ u.map Prod.fst = p ∧ u.map Prod.snd = s.2

/-- What an earlier trace holds is held by a longer one. -/
theorem Cached.later {w : Trace} {sks : List (Nat × Sketch)} {written : List (Nat × Phrase)}
    (h : Cached w sks written) (u : Trace) : Cached (w ++ u) sks written := by
  intro i p hp
  obtain ⟨v, s, hs, hv, hp⟩ := h i p hp
  exact ⟨v, s, hs, fun piece hpiece => List.mem_append_left u (hv piece hpiece), hp⟩

/-- An argument that has just been written is held. -/
theorem Cached.cons {w u : Trace} {sks : List (Nat × Sketch)} {written : List (Nat × Phrase)} {i : Nat}
    {s : Nat × Sketch} (h : Cached w sks written) (hs : sks[i]? = some s) (hu : ∀ piece ∈ u, piece ∈ w)
    (hsk : u.map Prod.snd = s.2) : Cached w sks ((i, u.map Prod.fst) :: written) := by
  intro k p hp
  rw [List.lookup_cons] at hp
  split at hp
  · next hk =>
    cases hp
    rw [beq_iff_eq] at hk
    subst hk
    exact ⟨u, s, hs, hu, rfl, hsk⟩
  · exact h k p hp

/-- **The parts of a template are written for its sketch.** An argument that was written before is repeated,
so its placeholders stand for the same values.

**Proof sketch.** Induction on the parts, along the trace of what is written, which has all fragments of the
arguments written before. -/
theorem draws_expandPieces {args : List Argument} {sks : List (Nat × Sketch)}
    (hargs : List.Forall₂ Argument.WrittenFor args sks) (pieces : List Piece)
    {written : List (Nat × Phrase)} {w : Trace} {p : Phrase} (hw : Draws ps w qs)
    (hcached : Cached w sks written) (h : (expandPieces args written pieces).Gives qs p rs) :
    ∃ u : Trace, Draws ps (w ++ u) rs ∧ u.map Prod.fst = p ∧ u.map Prod.snd = sketch sks pieces := by
  induction pieces generalizing written w p qs with
  | nil =>
    obtain ⟨rfl, rfl⟩ := Writing.gives_pure.mp h
    exact ⟨[], (List.append_nil w).symm ▸ hw, rfl, rfl⟩
  | cons piece rest ih =>
    -- whatever is written first is followed by the rest
    have step {qs : Parameters} {first : Trace} {written : List (Nat × Phrase)} {q : Phrase}
        (hfirst : Draws ps (w ++ first) qs) (hcached : Cached (w ++ first) sks written)
        (h : (expandPieces args written rest).Gives qs q rs) :
        ∃ u : Trace, Draws ps (w ++ u) rs ∧ u.map Prod.fst = first.map Prod.fst ++ q ∧
          u.map Prod.snd = first.map Prod.snd ++ sketch sks rest := by
      obtain ⟨u, hu, rfl, hsk⟩ := ih hfirst hcached h
      refine ⟨first ++ u, List.append_assoc w first u ▸ hu, List.map_append, ?_⟩
      rw [List.map_append, hsk]
    cases piece with
    | char c =>
      simp only [expandPieces, Writing.gives_bind, Writing.gives_pure] at h
      obtain ⟨q, rs, hq, rfl, rfl⟩ := h
      exact step (hw.text _) (hcached.later _) hq
    | arguments =>
      simp only [expandPieces, Writing.gives_bind, Writing.gives_pure] at h
      obtain ⟨all, qs', hall, q, rs, hq, rfl, rfl⟩ := h
      obtain ⟨first, hfirst, hp, hsk⟩ := (allWritten_arguments hargs hall).joined putTogether_written ","
      have := step (hw.append hfirst) (hcached.later _) hq
      rwa [hp, hsk] at this
    | argument i delimited =>
      have hlength := hargs.length_eq
      cases harg : args[i]? with
      | none =>
        have hsk : sks[i]? = none := by
          rw [List.getElem?_eq_none_iff] at harg ⊢
          omega
        simp only [expandPieces, harg, Writing.gives_bind, Writing.gives_pure] at h
        obtain ⟨q, rs, hq, rfl, rfl⟩ := h
        simp only [sketch, hsk]
        exact step (hw.text _) (hcached.later _) hq
      | some arg =>
        obtain ⟨hi, rfl⟩ := List.getElem?_eq_some_iff.mp harg
        have hi' : i < sks.length := by omega
        have hsk : sks[i]? = some sks[i] := List.getElem?_eq_getElem hi'
        obtain ⟨hprecedence, hwrite⟩ := (List.forall₂_iff_get.mp hargs).2 i hi hi'
        simp only [List.get_eq_getElem] at hprecedence hwrite
        -- the argument and then the rest, wherever the argument comes from
        have argued {qs' : Parameters} {u : Trace} {q : Phrase} (hu : ∀ v, Draws ps v qs →
            (∀ piece ∈ w, piece ∈ v) → Draws ps (v ++ u) qs') (hsketch : u.map Prod.snd = sks[i].2)
            (hq : (expandPieces args ((i, u.map Prod.fst) :: written) rest).Gives qs' q rs) :
            ∃ v : Trace, Draws ps (w ++ v) rs ∧ v.map Prod.fst =
                Phrase.parenthesisedIf (!delimited && args[i].precedence < atomPrecedence)
                  (u.map Prod.fst) ++ q ∧
              v.map Prod.snd = sketch sks (.argument i delimited :: rest) := by
          obtain ⟨first, hfirst, hmem, hp, hs⟩ := draws_parenthesisedIf hw hu
            (!delimited && args[i].precedence < atomPrecedence)
          have hcached' := (hcached.later first).cons hsk
            (fun piece h => List.mem_append_right w (hmem piece h)) hsketch
          have := step hfirst hcached' hq
          simp only [sketch, hsk]
          rw [hprecedence]
          rwa [hp, hs, hsketch, hprecedence] at this
        cases hlookup : written.lookup i with
        | none =>
          simp only [expandPieces, harg, hlookup, Writing.gives_bind, Writing.gives_pure] at h
          obtain ⟨a, qs', ha, q, rs, hq, rfl, rfl⟩ := h
          obtain ⟨u, hu, rfl, hsketch⟩ := hwrite ha
          exact argued (fun v hv _ => hv.append hu) hsketch hq
        | some a =>
          simp only [expandPieces, harg, hlookup, Writing.gives_bind, Writing.gives_pure] at h
          obtain ⟨a, qs', ⟨rfl, rfl⟩, q, rs, hq, rfl, rfl⟩ := h
          obtain ⟨u, s, hs, hmem, rfl, hsketch⟩ := hcached i _ hlookup
          cases hsk.symm.trans hs
          exact argued (fun v hv hvw => hv.repeat fun piece h => hvw piece (hmem piece h)) hsketch hq

/-- A template is written for its sketch. -/
theorem written_expand {args : List Argument} {sks : List (Nat × Sketch)}
    (hargs : List.Forall₂ Argument.WrittenFor args sks) {template : String} {p : Phrase}
    (h : (expand template args).Gives ps p qs) : Written ps p (sketch sks (pieces template)) qs :=
  draws_expandPieces hargs (pieces template) .nil (fun _ _ hp => by simp at hp) h

end Template

/-! ## Trees -/

section Trees

variable {d : Dialect}

mutual

/-- **An expression is written for its sketch**, by induction on the expression, along the steps of writing
it. -/
theorem written_writeNode : ∀ n : Node, ∀ {ps p qs}, (writeNode d n).Gives ps p qs →
    Written ps p (sketchNode d n) qs
  | .literal sql _ _, ps, p, qs, h | .raw sql _, ps, p, qs, h => by
    simp only [writeNode, Writing.gives_pure] at h
    obtain ⟨rfl, rfl⟩ := h
    exact .ofText qs sql
  | .null, ps, p, qs, h => by
    simp only [writeNode, Writing.gives_pure] at h
    obtain ⟨rfl, rfl⟩ := h
    exact .ofText qs "NULL"
  | .column aliasName name _, ps, p, qs, h => by
    simp only [writeNode, Writing.gives_pure] at h
    obtain ⟨rfl, rfl⟩ := h
    exact .ofText qs _
  | .bound value native name _, ps, p, qs, h => .bind h
  | .binary op left right _, ps, p, qs, h => by
    simp only [writeNode, Writing.gives_bind, Writing.gives_pure] at h
    obtain ⟨l, qs', hl, r, rs, hr, rfl, rfl⟩ := h
    exact ((((written_writeNode left hl).parenthesisedIf _).after op.text).append
      ((written_writeNode right hr).parenthesisedIf _))
  | .unary .not operand _, ps, p, qs, h => by
    simp only [writeNode, Writing.gives_bind, Writing.gives_pure] at h
    obtain ⟨q, qs', hq, rfl, rfl⟩ := h
    exact (written_writeNode operand hq).parenthesised.before "NOT "
  | .unary .negate operand _, ps, p, qs, h => by
    simp only [writeNode, Writing.gives_bind, Writing.gives_pure] at h
    obtain ⟨q, qs', hq, rfl, rfl⟩ := h
    exact ((written_writeNode operand hq).parenthesisedIf _).before "-"
  | .call f args _, ps, p, qs, h => by
    simp only [writeNode] at h
    exact Template.written_expand (written_templateArguments args) h
  | .case branches otherwise _, ps, p, qs, h => by
    simp only [writeNode, Writing.gives_bind, Writing.gives_pure] at h
    obtain ⟨bs, qs', hbs, q, rs, hq, rfl, rfl⟩ := h
    exact ((((written_writeBranches branches hbs).before "(CASE").after " ELSE ").append
      (written_writeNode otherwise hq)).after " END)"
  | .inList operand [] negated, ps, p, qs, h => by
    simp only [writeNode, Writing.gives_pure] at h
    obtain ⟨rfl, rfl⟩ := h
    cases negated <;> exact .ofText qs _
  | .inList operand (item :: items) negated, ps, p, qs, h => by
    simp only [writeNode, Writing.gives_bind, Writing.gives_pure] at h
    obtain ⟨q, qs', hq, is, rs, his, rfl, rfl⟩ := h
    exact ((((written_writeNode operand hq).parenthesisedIf _).after (inKeyword negated)).append
      ((written_writeNodes (item :: items) his).joined putTogether_written ",")).after ")"
  | .inQuery operand query negated, ps, p, qs, h => by
    simp only [writeNode, Writing.gives_bind, Writing.gives_pure] at h
    obtain ⟨q, qs', hq, s, rs, hs, rfl, rfl⟩ := h
    exact ((((written_writeNode operand hq).parenthesisedIf _).after (inKeyword negated)).append
      (written_writeSelect query hs)).after ")"
  | .exists query negated, ps, p, qs, h => by
    simp only [writeNode, Writing.gives_bind, Writing.gives_pure] at h
    obtain ⟨s, qs', hs, rfl, rfl⟩ := h
    exact (written_writeSelect query hs).parenthesised.before _
  | .isNull operand negated, ps, p, qs, h => by
    simp only [writeNode, Writing.gives_bind, Writing.gives_pure] at h
    obtain ⟨q, qs', hq, rfl, rfl⟩ := h
    exact ((written_writeNode operand hq).parenthesisedIf _).after _
  | .subquery query _, ps, p, qs, h => by
    simp only [writeNode, Writing.gives_bind, Writing.gives_pure] at h
    obtain ⟨s, qs', hs, rfl, rfl⟩ := h
    exact (written_writeSelect query hs).parenthesised
  | .group inner, ps, p, qs, h => by
    simp only [writeNode, Writing.gives_bind, Writing.gives_pure] at h
    obtain ⟨q, qs', hq, rfl, rfl⟩ := h
    exact (written_writeNode inner hq).parenthesised

/-- Nodes are written one by one for their sketches. -/
private theorem written_writeNodes : ∀ ns : List Node, ∀ {ps phrases qs}, (writeNodes d ns).Gives ps phrases qs →
    InTurn Written ps phrases (sketchNodes d ns) qs
  | [], ps, phrases, qs, h => by
    simp only [writeNodes, Writing.gives_pure] at h
    obtain ⟨rfl, rfl⟩ := h
    exact .nil (.nil qs)
  | n :: rest, ps, phrases, qs, h => by
    simp only [writeNodes, Writing.gives_bind, Writing.gives_pure] at h
    obtain ⟨p, qs', hp, ps', rs, hrest, rfl, rfl⟩ := h
    exact .cons (written_writeNode n hp) (written_writeNodes rest hrest)

/-- The arguments of a template are written for their sketches. -/
private theorem written_templateArguments : ∀ ns : List Node,
    List.Forall₂ Template.Argument.WrittenFor (templateArguments d ns) (sketchArguments d ns)
  | [] => .nil
  | n :: rest => .cons ⟨rfl, written_writeNode n⟩ (written_templateArguments rest)

/-- The branches of a choice are written for their sketch. -/
private theorem written_writeBranches : ∀ bs : List (Node × Node), ∀ {ps p qs},
    (writeBranches d bs).Gives ps p qs → Written ps p (sketchBranches d bs) qs
  | [], ps, p, qs, h => by
    simp only [writeBranches, Writing.gives_pure] at h
    obtain ⟨rfl, rfl⟩ := h
    exact .nil qs
  | (test, value) :: rest, ps, p, qs, h => by
    simp only [writeBranches, Writing.gives_bind, Writing.gives_pure] at h
    obtain ⟨t, qs₁, ht, v, qs₂, hv, q, rs, hq, rfl, rfl⟩ := h
    exact ((((written_writeNode test ht).before " WHEN ").after " THEN ").append
      (written_writeNode value hv)).append (written_writeBranches rest hq)

/-- What may be there is written for its sketch if it is. -/
theorem written_writeOption : ∀ n? : Option Node, ∀ {ps p? qs}, (writeOption d n?).Gives ps p? qs →
    OptionWritten ps p? (sketchOption d n?) qs
  | none, ps, p?, qs, h => by
    simp only [writeOption, Writing.gives_pure] at h
    obtain ⟨rfl, rfl⟩ := h
    exact .none qs
  | some n, ps, p?, qs, h => by
    simp only [writeOption, Writing.gives_bind, Writing.gives_pure] at h
    obtain ⟨p, qs', hp, rfl, rfl⟩ := h
    exact .some (written_writeNode n hp)

/-- Sort keys are written one by one for their sketches. -/
private theorem written_writeOrder : ∀ ks : List (Node × Bool), ∀ {ps phrases qs},
    (writeOrder d ks).Gives ps phrases qs → InTurn Written ps phrases (sketchOrder d ks) qs
  | [], ps, phrases, qs, h => by
    simp only [writeOrder, Writing.gives_pure] at h
    obtain ⟨rfl, rfl⟩ := h
    exact .nil (.nil qs)
  | (n, down) :: rest, ps, phrases, qs, h => by
    simp only [writeOrder, Writing.gives_bind, Writing.gives_pure] at h
    obtain ⟨p, qs', hp, ps', rs, hrest, rfl, rfl⟩ := h
    refine .cons ?_ (written_writeOrder rest hrest)
    cases down with
    | false => exact written_writeNode n hp
    | true => exact (written_writeNode n hp).after " DESC"

/-- Selected columns are written one by one for their sketches. -/
private theorem written_writeColumns : ∀ cs : List (SelectedOf Node), ∀ {ps phrases qs},
    (writeColumns d cs).Gives ps phrases qs → InTurn Written ps phrases (sketchColumns d cs) qs
  | [], ps, phrases, qs, h => by
    simp only [writeColumns, Writing.gives_pure] at h
    obtain ⟨rfl, rfl⟩ := h
    exact .nil (.nil qs)
  | ⟨n, none⟩ :: rest, ps, phrases, qs, h => by
    simp only [writeColumns, Writing.gives_bind, Writing.gives_pure] at h
    obtain ⟨p, qs', hp, ps', rs, hrest, rfl, rfl⟩ := h
    exact .cons (written_writeNode n hp) (written_writeColumns rest hrest)
  | ⟨n, some aliasName⟩ :: rest, ps, phrases, qs, h => by
    simp only [writeColumns, Writing.gives_bind, Writing.gives_pure] at h
    obtain ⟨p, qs', hp, ps', rs, hrest, rfl, rfl⟩ := h
    exact .cons ((written_writeNode n hp).after _) (written_writeColumns rest hrest)

/-- The rows of a table are written for their sketch. -/
private theorem written_writeRows : ∀ r : Rows, ∀ {ps p qs}, (writeRows d r).Gives ps p qs →
    Written ps p (sketchRows d r) qs
  | .named name schema, ps, p, qs, h => by
    simp only [writeRows, Writing.gives_pure] at h
    obtain ⟨rfl, rfl⟩ := h
    exact .ofText qs _
  | .derived query, ps, p, qs, h => by
    simp only [writeRows, Writing.gives_bind, Writing.gives_pure] at h
    obtain ⟨s, qs', hs, rfl, rfl⟩ := h
    exact (written_writeSelect query hs).parenthesised

/-- A table is written for its sketch. -/
theorem written_writeTable : ∀ t : TableOf Rows, ∀ {ps p qs}, (writeTable d t).Gives ps p qs →
    Written ps p (sketchTable d t) qs
  | ⟨rows, aliasName⟩, ps, p, qs, h => by
    simp only [writeTable, Writing.gives_bind, Writing.gives_pure] at h
    obtain ⟨q, qs', hq, rfl, rfl⟩ := h
    exact (written_writeRows rows hq).aliased aliasName

/-- Joins are written for their sketches, one after another. -/
theorem written_writeJoins : ∀ js : List (JoinedOf Node Rows), ∀ {ps p qs}, (writeJoins d js).Gives ps p qs →
    Written ps p (sketchJoins d js) qs
  | [], ps, p, qs, h => by
    simp only [writeJoins, Writing.gives_pure] at h
    obtain ⟨rfl, rfl⟩ := h
    exact .nil qs
  | ⟨kind, table, on⟩ :: rest, ps, p, qs, h => by
    simp only [writeJoins, Writing.gives_bind, Writing.gives_pure] at h
    obtain ⟨t, qs₁, ht, c, qs₂, hc, q, rs, hq, rfl, rfl⟩ := h
    exact ((((written_writeTable table ht).before _).after " ON ").append
      (written_writeNode on hc)).append (written_writeJoins rest hq)

/-- **A selection is written for its sketch**: its clauses are written in the order of the text.

**Proof sketch.** The clauses are put together one after the other, each with its keyword. -/
theorem written_writeSelect : ∀ s : SelectOf Node Rows, ∀ {ps p qs}, (writeSelect d s).Gives ps p qs →
    Written ps p (sketchSelect d s) qs
  | ⟨distinct, columns, table, joins, filter, groupBy, having, orderBy, limit, offset, _, _⟩, ps, p, qs, h => by
    simp only [writeSelect, Writing.gives_bind, Writing.gives_pure] at h
    obtain ⟨cs, qs₁, hcs, t, qs₂, ht, js, qs₃, hjs, f, qs₄, hf, gs, qs₅, hgs, hv, qs₆, hhv, os, qs₇, hos,
      rfl, rfl⟩ := h
    have hcolumns := ((written_writeColumns columns hcs).joined putTogether_written ",").before
      (if distinct then "SELECT DISTINCT " else "SELECT ")
    have htables := ((hcolumns.after " FROM ").append (written_writeTable table ht)).append
      (written_writeJoins joins hjs)
    have hgroups := (htables.append ((written_writeOption filter hf).clause " WHERE ")).append
      ((written_writeNodes groupBy hgs).listClause " GROUP BY ")
    have hordered := (hgroups.append ((written_writeOption having hhv).clause " HAVING ")).append
      ((written_writeOrder orderBy hos).listClause " ORDER BY ")
    exact hordered.after (d.limitClause limit offset)

end

end Trees

end LambdaSql
