import LambdaSql.Proofs.Binding.Statements

/-!
# The steps of writing

However long a statement is, writing it consists of steps of three kinds: something is written without a look at the
parameters, a value is bound, or one step is done after another. So a property of writing that the three kinds of steps
have is one that writing any statement has.

## Main definitions

* `Writing.Stepwise` - a property that the steps of writing have.

## Main results

* `Writing.Stepwise.expand` - templates.
* `Writing.Stepwise.writeNode`, `Writing.Stepwise.writeSelect` - expressions and selections.
* `Writing.Stepwise.writeCtes`, `Writing.Stepwise.writeUpdate`, `Writing.Stepwise.writeDelete` - statements.
-/

namespace LambdaSql

/-- A property of writing that each step has: writing without parameters, binding a value, and one step after
another. -/
structure Writing.Stepwise (P : ∀ ⦃α : Type⦄, Writing α → Prop) : Prop where
  pure : ∀ {α : Type} (a : α), P (pure a : Writing α)
  bind : ∀ {α β : Type} {w : Writing α} {f : α → Writing β}, P w → (∀ a, P (f a)) → P (w >>= f)
  value : ∀ name value native, P (Writing.bind name value native)

namespace Writing.Stepwise

variable {P : ∀ ⦃α : Type⦄, Writing α → Prop} (hP : Stepwise P) {α β γ : Type} {d : Dialect}

include hP

/-- What is written is put into some form. -/
theorem map {w : Writing α} (hw : P w) (f : α → β) : P (do return f (← w) : Writing β) :=
  hP.bind hw fun a => hP.pure (f a)

/-- The property is one of writing several things in turn. -/
theorem mapM {f : γ → Writing α} {xs : List γ} (h : ∀ x ∈ xs, P (f x)) : P (xs.mapM f : Writing (List α)) := by
  induction xs with
  | nil =>
    rw [List.mapM_nil]
    exact hP.pure []
  | cons x xs ih =>
    obtain ⟨hx, hxs⟩ := List.forall_mem_cons.mp h
    rw [List.mapM_cons]
    exact hP.bind hx fun a => hP.map (ih hxs) (a :: ·)

/-! ### Templates -/

/-- An argument is written where it is first mentioned, and then repeated. -/
theorem expandPieces {args : List Template.Argument} (h : ∀ a ∈ args, P a.write) (pieces : List Template.Piece)
    (written : List (Nat × Phrase)) : P (Template.expandPieces args written pieces) := by
  induction pieces generalizing written with
  | nil => exact hP.pure []
  | cons piece rest ih =>
    cases piece with
    | char c => exact hP.map (ih written) _
    | arguments => exact hP.bind (hP.mapM h) fun _ => hP.map (ih written) _
    | argument i delimited =>
      simp only [Template.expandPieces]
      cases ha : args[i]? with
      | none => exact hP.map (ih written) _
      | some a =>
        cases written.lookup i with
        | some p => exact hP.bind (hP.pure p) fun p => hP.map (ih _) _
        | none => exact hP.bind (h a (List.mem_of_getElem? ha)) fun p => hP.map (ih _) _

/-- The property is one of filling a template. -/
theorem expand {args : List Template.Argument} (h : ∀ a ∈ args, P a.write) (template : String) :
    P (Template.expand template args) := hP.expandPieces h _ []

/-! ### Trees -/

-- Arguments need `hP` for their expressions only, which the linter does not see.
set_option linter.unusedSectionVars false in
mutual

/-- **Expressions are written step by step**, by induction on the expression, along the steps of writing it. -/
theorem writeNode : ∀ n : Node, P (LambdaSql.writeNode d n)
  | .literal .. | .column .. | .raw .. | .null => hP.pure _
  | .bound value native name _ => hP.value name value native
  | .binary _ left right _ => hP.bind (writeNode left) fun _ => hP.map (writeNode right) _
  | .unary .not operand _ | .unary .negate operand _ | .isNull operand _ | .group operand =>
    hP.map (writeNode operand) _
  | .call _ args _ => hP.expand (templateArguments args) _
  | .case branches otherwise _ => hP.bind (writeBranches branches) fun _ => hP.map (writeNode otherwise) _
  | .inList _ [] _ => hP.pure _
  | .inList operand (item :: items) _ =>
    hP.bind (writeNode operand) fun _ => hP.map (writeNodes (item :: items)) _
  | .inQuery operand query _ => hP.bind (writeNode operand) fun _ => hP.map (writeSelect query) _
  | .exists query _ | .subquery query _ => hP.map (writeSelect query) _

/-- The property is one of writing nodes. -/
theorem writeNodes : ∀ ns : List Node, P (LambdaSql.writeNodes d ns)
  | [] => hP.pure _
  | n :: rest => hP.bind (writeNode n) fun _ => hP.map (writeNodes rest) _

/-- The property is one of writing the arguments of a template. -/
theorem templateArguments : ∀ ns : List Node, ∀ a ∈ LambdaSql.templateArguments d ns, P a.write
  | [] => nofun
  | n :: rest => List.forall_mem_cons.mpr ⟨writeNode n, templateArguments rest⟩

/-- The property is one of writing branches. -/
theorem writeBranches : ∀ bs : List (Node × Node), P (LambdaSql.writeBranches d bs)
  | [] => hP.pure _
  | (test, value) :: rest =>
    hP.bind (writeNode test) fun _ => hP.bind (writeNode value) fun _ => hP.map (writeBranches rest) _

/-- The property is one of writing what may be there. -/
theorem writeOption : ∀ n? : Option Node, P (LambdaSql.writeOption d n?)
  | none => hP.pure _
  | some n => hP.map (writeNode n) _

/-- The property is one of writing sort keys. -/
theorem writeOrder : ∀ ks : List (Node × Bool), P (LambdaSql.writeOrder d ks)
  | [] => hP.pure _
  | (n, _) :: rest => hP.bind (writeNode n) fun _ => hP.map (writeOrder rest) _

/-- The property is one of writing selected expressions. -/
theorem writeColumns : ∀ cs : List (SelectedOf Node), P (LambdaSql.writeColumns d cs)
  | [] => hP.pure _
  | ⟨n, _⟩ :: rest => hP.bind (writeNode n) fun _ => hP.map (writeColumns rest) _

/-- The property is one of writing what a table consists of. -/
theorem writeRows : ∀ r : Rows, P (LambdaSql.writeRows d r)
  | .named .. => hP.pure _
  | .derived query => hP.map (writeSelect query) _

/-- The property is one of writing tables. -/
theorem writeTable : ∀ t : TableOf Rows, P (LambdaSql.writeTable d t)
  | ⟨rows, _⟩ => hP.map (writeRows rows) _

/-- The property is one of writing joins. -/
theorem writeJoins : ∀ js : List (JoinedOf Node Rows), P (LambdaSql.writeJoins d js)
  | [] => hP.pure _
  | ⟨_, table, on⟩ :: rest =>
    hP.bind (writeTable table) fun _ => hP.bind (writeNode on) fun _ => hP.map (writeJoins rest) _

/-- **Selections are written step by step.** -/
theorem writeSelect : ∀ s : SelectOf Node Rows, P (LambdaSql.writeSelect d s)
  | ⟨_, columns, table, joins, filter, groupBy, having, orderBy, _, _, _, _⟩ =>
    hP.bind (writeColumns columns) fun _ => hP.bind (writeTable table) fun _ =>
      hP.bind (writeJoins joins) fun _ => hP.bind (writeOption filter) fun _ =>
        hP.bind (writeNodes groupBy) fun _ => hP.bind (writeOption having) fun _ => hP.map (writeOrder orderBy) _

end

/-! ### Statements -/

/-- The property is one of writing a common table expression. -/
theorem writeCte (c : CtePlan) : P (LambdaSql.writeCte d c) := by
  have hunion : P (LambdaSql.writeUnion d c.union) := by
    cases c.union with
    | none => exact hP.pure _
    | some s => exact hP.map (hP.writeSelect s) _
  exact hP.bind (hP.writeSelect c.anchor) fun _ => hP.map hunion _

/-- The property is one of writing common table expressions. -/
theorem writeCtes (ctes : List CtePlan) : P (LambdaSql.writeCtes d ctes) := by
  unfold LambdaSql.writeCtes
  split
  · exact hP.pure _
  · exact hP.map (hP.mapM fun c _ => hP.writeCte c) _

/-- The property is one of writing assignments. -/
theorem writeSets : ∀ sets : List (Node × Node), P (LambdaSql.writeSets d sets)
  | [] => hP.pure _
  | (column, value) :: rest =>
    hP.bind (hP.writeNode column) fun _ => hP.bind (hP.writeNode value) fun _ => hP.map (writeSets rest) _

/-- The property is one of writing updates. -/
theorem writeUpdate (p : ChangePlan) : P (LambdaSql.writeUpdate d p) :=
  hP.bind (hP.writeTable p.table) fun _ => hP.bind (hP.writeJoins p.joins) fun _ =>
    hP.bind (hP.writeSets p.sets) fun _ => hP.map (hP.writeOption p.filter) _

/-- The property is one of writing deletions. -/
theorem writeDelete (p : ChangePlan) : P (LambdaSql.writeDelete d p) :=
  hP.bind (hP.writeTable p.table) fun _ => hP.map (hP.writeOption p.filter) _

end Writing.Stepwise

end LambdaSql
