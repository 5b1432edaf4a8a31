import LambdaSql.Proofs.Binding.Parameters
import LambdaSql.Proofs.Twins.Nodes
import LambdaSql.Render.Select

/-!
# Texts of trees without their values

A placeholder is named by its number or by its fixed name, never by its value. A value matters in one place
only: a fixed placeholder that has another value already is an error, or gets another name within a batch. So
outside of batches a tree whose text can be written has the same text when its values are blanked, and two trees
that differ in bound values only have one text.

## Main definitions

* `Parameters.blank` - parameters with blanked values.
* `Writing.Mirrors` - writing that gives the same with blanked values.

## Main results

* `Writing.mirrors_bind` - placeholders.
* `Template.mirrors_expand` - templates.
* `mirrors_writeNode`, `mirrors_writeSelect`, `mirrors_writeCtes` - statements.
-/

namespace LambdaSql

/-! ## Parameters -/

/-- Of equal values both are null or neither is. -/
private theorem Value.isNull_eq_of_beq {v w : Value} (h : (v == w) = true) : v.isNull = w.isNull := by
  cases v <;> cases w <;> first | rfl | cases h

/-- Equal values are equal when they are blanked. -/
private theorem Value.blank_beq {v w : Value} (h : (v == w) = true) : (v.blank == w.blank) = true := by
  unfold blank
  rw [isNull_eq_of_beq h]
  split <;> rfl

/-- A placeholder with a blanked value. -/
def Parameter.blank (p : Parameter) : Parameter := { p with value := p.value.blank, native := .boolean }

namespace Parameters

variable (ps : Parameters) {v : Value}

/-- Parameters with blanked values. -/
def blank : Parameters :=
  { ps with entries := ps.entries.map Parameter.blank, outer := ps.outer.map Parameter.blank }

/-- A pushed entry is blanked with the others. -/
theorem blank_push (name : String) (v : Value) (native : NativeType) :
    (ps.push name v native).blank = ps.blank.push name v.blank .boolean := by
  simp [push, blank, Parameter.blank]

/-- An entry is found among blanked entries as it is among the others. -/
private theorem find?_blank (entries : List Parameter) (token : String) :
    (entries.map Parameter.blank).find? (·.name == token) =
      (entries.find? (·.name == token)).map Parameter.blank := List.find?_map ..

/-- A blanked table has the blanked entries under their names. -/
private theorem get?_blank (token : String) : ps.blank.get? token = (ps.get? token).map Parameter.blank :=
  find?_blank ps.entries token

/-- Adding an entry and blanking can be exchanged. -/
private theorem blank_pushNew (name : String) (v : Value) (native : NativeType) :
    (ps.pushNew name v native).blank = ps.blank.pushNew name v.blank .boolean := by
  unfold pushNew contains
  rw [get?_blank, Option.isSome_map]
  split
  · rfl
  · exact blank_push ..

/-- A blanked table shows the blanked entries. -/
private theorem visible?_blank (token : String) :
    ps.blank.visible? token = (ps.visible? token).map Parameter.blank := by
  unfold visible?
  rw [get?_blank, show ps.blank.outer = ps.outer.map Parameter.blank from rfl, find?_blank]
  cases ps.get? token <;> rfl

/-- A fixed placeholder that can be bound to a value can be bound to the blanked one. -/
theorem agrees?_blank {token : String} (h : ps.agrees? token v ≠ some false) :
    ps.blank.agrees? token v.blank ≠ some false := by
  unfold agrees? at h ⊢
  rw [visible?_blank]
  cases hp : ps.visible? token with
  | none => simp
  | some p =>
    rw [hp] at h
    have hsame : (p.value == v) = true := by simpa using h
    simpa [Parameter.blank] using Value.blank_beq hsame

end Parameters

namespace Writing

variable {α β : Type}

/-- Outside of batches, what the first writing gives the second gives with blanked values. -/
def Mirrors (w w' : Writing α) : Prop :=
  ∀ ⦃ps a qs⦄, ps.statement = none → w.Gives ps a qs → w'.Gives ps.blank a qs.blank ∧ qs.statement = none

/-- One result mirrors itself. -/
theorem Mirrors.pure (a : α) : Mirrors (Pure.pure a) (Pure.pure a) := by
  intro ps b qs hps h
  obtain ⟨rfl, rfl⟩ := gives_pure.mp h
  exact ⟨gives_pure.mpr ⟨rfl, rfl⟩, hps⟩

/-- Writing in turn mirrors if both steps do. -/
theorem Mirrors.bind {w w' : Writing α} {f f' : α → Writing β} (hw : Mirrors w w')
    (hf : ∀ a, Mirrors (f a) (f' a)) : Mirrors (w >>= f) (w' >>= f') := by
  intro ps b rs hps h
  obtain ⟨a, qs, ha, hb⟩ := gives_bind.mp h
  obtain ⟨ha', hqs⟩ := hw hps ha
  obtain ⟨hb', hrs⟩ := hf a hqs hb
  exact ⟨gives_bind.mpr ⟨a, _, ha', hb'⟩, hrs⟩

/-- What is written is put into another form. -/
theorem Mirrors.map {w w' : Writing α} (hw : Mirrors w w') (f : α → β) :
    Mirrors (do return f (← w)) (do return f (← w')) := hw.bind fun a => .pure (f a)

/-- Writing several things in turn mirrors if each one does. -/
theorem Mirrors.mapM {γ : Type} {f f' : γ → Writing α} {xs xs' : List γ}
    (h : List.Forall₂ (fun x x' => Mirrors (f x) (f' x')) xs xs') : Mirrors (xs.mapM f) (xs'.mapM f') := by
  induction h with
  | nil =>
    rw [List.mapM_nil, List.mapM_nil]
    exact .pure []
  | cons h _ ih =>
    rw [List.mapM_cons, List.mapM_cons]
    exact h.bind fun a => ih.map (a :: ·)

/-- Two writings that give the same with blanked values give the same. -/
theorem Mirrors.unique {w w' u : Writing α} (h : Mirrors w u) (h' : Mirrors w' u) {ps qs qs' : Parameters}
    {a a' : α} (hps : ps.statement = none) (ha : w.Gives ps a qs) (ha' : w'.Gives ps a' qs') : a = a' := by
  have heq := (h hps ha).1.symm.trans (h' hps ha').1
  exact (Prod.mk.inj (Except.ok.inj heq)).1

/-- A placeholder is the same for the blanked value. -/
theorem mirrors_bind (name : Option String) (v : Value) (native : NativeType) :
    Mirrors (Writing.bind name v native) (Writing.bind name v.blank .boolean) := by
  intro ps p qs hps h
  cases name with
  | none =>
    cases h
    refine ⟨?_, hps⟩
    show Except.ok _ = Except.ok _
    simp [Parameters.blank, Parameters.push, Parameter.blank, Parameters.token]
  | some name =>
    obtain ⟨token, hbind, rfl⟩ := gives_named.mp h
    rw [ps.bind_unbatched hps] at hbind
    split at hbind
    · cases hbind
    · next hagrees =>
      cases hbind
      refine ⟨gives_named.mpr ⟨_, ?_, rfl⟩, ?_⟩
      · rw [Parameters.blank_pushNew]
        exact (ps.blank.bind_unbatched hps ..).trans (if_neg (ps.agrees?_blank hagrees))
      · unfold Parameters.pushNew
        split <;> exact hps

end Writing

/-! ## Templates -/

namespace Template

/-- Two arguments that hold together equally strongly and are written alike. -/
structure Argument.Mirrors (a a' : Argument) : Prop where
  precedence : a.precedence = a'.precedence
  write : a.write.Mirrors a'.write

variable {args args' : List Argument}

/-- Arguments that mirror each other do so position by position. -/
private theorem mirrors_getElem? (h : List.Forall₂ Argument.Mirrors args args') (i : Nat) :
    args[i]? = none ∧ args'[i]? = none ∨
      ∃ a a', args[i]? = some a ∧ args'[i]? = some a' ∧ a.Mirrors a' := by
  induction h generalizing i with
  | nil => exact .inl ⟨rfl, rfl⟩
  | cons h _ ih =>
    cases i with
    | zero => exact .inr ⟨_, _, rfl, rfl, h⟩
    | succ i => exact ih i

/-- **Templates are written alike with blanked arguments.** An argument that was written before is repeated,
whatever its value.

**Proof sketch.** By induction on the pieces. A place is there in both lists of arguments or in neither, and the
brackets around it depend on the precedence only. -/
theorem mirrors_expandPieces (h : List.Forall₂ Argument.Mirrors args args') (pieces : List Piece)
    (written : List (Nat × Phrase)) :
    Writing.Mirrors (expandPieces args written pieces) (expandPieces args' written pieces) := by
  induction pieces generalizing written with
  | nil => exact .pure []
  | cons piece rest ih =>
    cases piece with
    | char c => exact (ih written).map _
    | arguments =>
      refine Writing.Mirrors.bind (.mapM (h.imp fun _ _ ha => ha.write)) fun all => ?_
      exact (ih written).map _
    | argument i delimited =>
      simp only [expandPieces]
      obtain ⟨hi, hi'⟩ | ⟨a, a', hi, hi', ha⟩ := mirrors_getElem? h i
      · rw [hi, hi']
        exact (ih written).map _
      · rw [hi, hi']
        simp only [ha.precedence]
        split
        · exact .bind (.pure _) fun p => (ih _).map _
        · exact .bind ha.write fun p => (ih _).map _

/-- A template mirrors if all that is filled into it does. -/
theorem mirrors_expand (h : List.Forall₂ Argument.Mirrors args args') (template : String) :
    Writing.Mirrors (expand template args) (expand template args') :=
  mirrors_expandPieces h (pieces template) []

end Template

/-! ## Trees -/

section Trees

variable {d : Dialect}

/-- Blanking does not change whether a right side is wrapped. -/
private theorem wrapsRight_blank (op : SqlOp) (n : Node) : wrapsRight op n.blank = wrapsRight op n := by
  unfold wrapsRight
  simp only [Node.precedence_blank]
  cases n <;> rfl

mutual

/-- **Expressions are written alike with blanked values**, by induction on the expression, along the steps of
writing it.

**Proof sketch.** What is written around the operands depends on precedences and kinds, which blanking does not
change, and the operands are written alike by the induction hypothesis. -/
theorem mirrors_writeNode : ∀ n : Node, Writing.Mirrors (writeNode d n) (writeNode d n.blank)
  | .literal .. | .column .. | .raw .. | .null => .pure _
  | .bound value native name _ => Writing.mirrors_bind name value native
  | .binary op left right _ => by
    simp only [Node.blank, writeNode, Node.precedence_blank, wrapsRight_blank]
    exact (mirrors_writeNode left).bind fun l => (mirrors_writeNode right).map _
  | .unary .not operand _ => (mirrors_writeNode operand).map _
  | .unary .negate operand _ => by
    simp only [Node.blank, writeNode, Node.precedence_blank]
    exact (mirrors_writeNode operand).map _
  | .call f args _ => Template.mirrors_expand (mirrors_templateArguments args) (d.template f)
  | .case branches otherwise _ =>
    (mirrors_writeBranches branches).bind fun bs => (mirrors_writeNode otherwise).map _
  | .inList _ [] _ => .pure _
  | .inList operand (item :: items) negated => by
    simp only [Node.blank, blankNodes, writeNode, Node.precedence_blank]
    exact (mirrors_writeNode operand).bind fun p => (mirrors_writeNodes (item :: items)).map _
  | .inQuery operand query negated => by
    simp only [Node.blank, writeNode, Node.precedence_blank]
    exact (mirrors_writeNode operand).bind fun p => (mirrors_writeSelect query).map _
  | .exists query _ => (mirrors_writeSelect query).map _
  | .isNull operand negated => by
    simp only [Node.blank, writeNode, Node.precedence_blank]
    exact (mirrors_writeNode operand).map _
  | .subquery query _ => (mirrors_writeSelect query).map _
  | .group inner => (mirrors_writeNode inner).map _

/-- Blanked nodes are written as the nodes are. -/
private theorem mirrors_writeNodes : ∀ ns : List Node,
    Writing.Mirrors (writeNodes d ns) (writeNodes d (blankNodes ns))
  | [] => .pure _
  | n :: rest => (mirrors_writeNode n).bind fun p => (mirrors_writeNodes rest).map (p :: ·)

/-- The blanked arguments of a template are written as the arguments are. -/
private theorem mirrors_templateArguments : ∀ ns : List Node,
    List.Forall₂ Template.Argument.Mirrors (templateArguments d ns) (templateArguments d (blankNodes ns))
  | [] => .nil
  | n :: rest => .cons ⟨n.precedence_blank.symm, mirrors_writeNode n⟩ (mirrors_templateArguments rest)

/-- Blanked branches are written as the branches are. -/
private theorem mirrors_writeBranches : ∀ bs : List (Node × Node),
    Writing.Mirrors (writeBranches d bs) (writeBranches d (blankBranches bs))
  | [] => .pure _
  | (test, value) :: rest =>
    (mirrors_writeNode test).bind fun _ => (mirrors_writeNode value).bind fun _ =>
      (mirrors_writeBranches rest).map _

/-- A blanked node that may be missing is written as the node is. -/
private theorem mirrors_writeOption : ∀ n? : Option Node,
    Writing.Mirrors (writeOption d n?) (writeOption d (blankOption n?))
  | none => .pure _
  | some n => (mirrors_writeNode n).map _

/-- Blanked sort keys are written as the sort keys are. -/
private theorem mirrors_writeOrder : ∀ ks : List (Node × Bool),
    Writing.Mirrors (writeOrder d ks) (writeOrder d (blankOrder ks))
  | [] => .pure _
  | (n, _) :: rest => (mirrors_writeNode n).bind fun _ => (mirrors_writeOrder rest).map _

/-- Blanked columns are written as the columns are. -/
private theorem mirrors_writeColumns : ∀ cs : List (SelectedOf Node),
    Writing.Mirrors (writeColumns d cs) (writeColumns d (blankColumns cs))
  | [] => .pure _
  | ⟨n, _⟩ :: rest => (mirrors_writeNode n).bind fun _ => (mirrors_writeColumns rest).map _

/-- Blanked rows of a table are written as the rows are. -/
private theorem mirrors_writeRows : ∀ r : Rows, Writing.Mirrors (writeRows d r) (writeRows d (blankRows r))
  | .named .. => .pure _
  | .derived query => (mirrors_writeSelect query).map _

/-- A blanked table is written as the table is. -/
private theorem mirrors_writeTable : ∀ t : TableOf Rows,
    Writing.Mirrors (writeTable d t) (writeTable d (blankTable t))
  | ⟨rows, aliasName⟩ => (mirrors_writeRows rows).map (aliased · aliasName)

/-- Blanked joins are written as the joins are. -/
private theorem mirrors_writeJoins : ∀ js : List (JoinedOf Node Rows),
    Writing.Mirrors (writeJoins d js) (writeJoins d (blankJoins js))
  | [] => .pure _
  | ⟨_, table, on⟩ :: rest =>
    (mirrors_writeTable table).bind fun _ => (mirrors_writeNode on).bind fun _ =>
      (mirrors_writeJoins rest).map _

/-- **Selections are written alike with blanked values.** -/
theorem mirrors_writeSelect : ∀ s : SelectOf Node Rows,
    Writing.Mirrors (writeSelect d s) (writeSelect d (blankSelect s))
  | ⟨_, columns, table, joins, filter, groupBy, having, orderBy, _, _, _, _⟩ =>
    (mirrors_writeColumns columns).bind fun _ => (mirrors_writeTable table).bind fun _ =>
      (mirrors_writeJoins joins).bind fun _ => (mirrors_writeOption filter).bind fun _ =>
        (mirrors_writeNodes groupBy).bind fun _ => (mirrors_writeOption having).bind fun _ =>
          (mirrors_writeOrder orderBy).map _

end

/-- A common table expression mirrors its blanked one. -/
theorem mirrors_writeCte (c : CtePlan) : Writing.Mirrors (writeCte d c) (writeCte d c.blank) := by
  unfold writeCte
  refine (mirrors_writeSelect c.anchor).bind fun anchor => ?_
  have union : Writing.Mirrors (writeUnion d c.union) (writeUnion d c.blank.union) := by
    unfold CtePlan.blank
    cases c.union with
    | none => exact .pure _
    | some s => exact (mirrors_writeSelect s).map _
  exact union.map _

/-- Common table expressions mirror their blanked ones. -/
theorem mirrors_writeCtes (ctes : List CtePlan) :
    Writing.Mirrors (writeCtes d ctes) (writeCtes d (ctes.map CtePlan.blank)) := by
  unfold writeCtes
  rw [List.isEmpty_map, List.any_map]
  split
  · exact .pure _
  · exact (Writing.Mirrors.mapM (List.forall₂_map_right_iff.mpr
      (List.forall₂_same.mpr fun c _ => mirrors_writeCte c))).map _

end Trees

end LambdaSql
