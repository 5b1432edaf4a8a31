import LambdaSql.Proofs.Binding.Wanted
import LambdaSql.Proofs.Plan.Changes

/-!
# Statements that bind values of fields only

Updates that assign values and records, and deletions and updates of rows by their keys, want values under
fixed names only, made from the names of members.

## Main definitions

* `Assignment.IsStored`, `Statement.IsStored` - assignments and statements without computed values.

## Main results

* `isFixed_statementSketches` - such statements want values under fixed names only.
-/

namespace LambdaSql

open Planning

/-- An assignment of values at hand. In a bulk update, a plain value that is assigned to a field is one, too. -/
def Assignment.IsStored (bulk : Bool) : Assignment → Prop
  | .value .. | .object _ => True
  | .field _ assigned => bulk = true ∧ assigned.plainValue?.isSome
  | .lambda _ => False

/-- A statement without computed values: it assigns values at hand, and finds rows by their keys only. -/
def Statement.IsStored : Statement → Prop
  | .select _ => False
  | .update u => (∀ a ∈ u.assignments, a.IsStored u.isBulk) ∧ u.joins = [] ∧ u.filters = []
  | .delete s => s.filters = []

variable {d : Dialect} {e : Entity} {u : Update} {aliasName : Option String} {bindings : List Binding}

/-- The sketch of a node wants values under fixed names only. -/
def Node.IsFixed (d : Dialect) (n : Node) : Prop := (sketchNode d n).IsFixed

/-- A node is fixed if no value in it waits for a name. -/
theorem Node.isFixed_iff {n : Node} : n.IsFixed d ↔ none ∉ (sketchNode d n).wanted := Sketch.isFixed_iff

/-- A stored value has a name. -/
private theorem isFixed_stored {f : Field} {name : String} {v : Value} {n : Node} (h : Node.stored f name v = .ok n) :
    n.IsFixed d := by
  unfold Node.stored at h
  split at h
  · cases h
    simp [Node.isFixed_iff, sketchNode]
  · obtain ⟨⟨value, native⟩, -, h⟩ := Except.bind_eq_ok.mp h
    cases h
    simp [Node.isFixed_iff, sketchNode]

/-- What nodes want is wanted by one of them. -/
private theorem wanted_sketchNodes {name : Option String} {ns : List Node} :
    (∃ sk ∈ sketchNodes d ns, name ∈ sk.wanted) ↔ ∃ n ∈ ns, name ∈ (sketchNode d n).wanted := by
  induction ns with
  | nil => simp [sketchNodes]
  | cons n rest ih => simp [sketchNodes, ih]

/-- A membership among values with names waits for no name. -/
private theorem isFixed_inList {n : Node} {ns : List Node} {negated : Bool} (hn : n.IsFixed d)
    (hns : ∀ m ∈ ns, m.IsFixed d) : (Node.inList n ns negated).IsFixed d := by
  cases ns with
  | nil => simp [Node.isFixed_iff, sketchNode]
  | cons m rest =>
    simp only [Node.isFixed_iff] at hn hns ⊢
    simp only [sketchNode, Sketch.wanted_append, Sketch.wanted_parenthesisedIf, Sketch.wanted_ofText,
      List.append_nil, List.mem_append, Sketch.mem_wanted_joined, wanted_sketchNodes, not_or, not_exists,
      not_and]
    exact ⟨hn, hns⟩

/-- Having all names fixed is a property of fields and of what is made of them. -/
private theorem fieldProperty_isFixed (d : Dialect) (e : Entity) (aliasName : Option String) :
    FieldProperty e aliasName (·.IsFixed d) := by
  refine .of_values (fun name _ type => ?_) isFixed_stored (fun ha hb => ?_) isFixed_inList fun hn => ?_
  · simp [Node.isFixed_iff, sketchNode]
  · simp only [Node.isFixed_iff] at ha hb ⊢
    simp [sketchNode, ha, hb]
  · simpa [Node.isFixed_iff, sketchNode] using hn

/-! ## Plans -/

/-- Planning that meets no common table expressions. -/
abbrev Planning.Alone {α : Type} (c : Compiler) (act : Planning α) (Q : α → Prop) : Prop :=
  act.Keeps (fun s => s.compiler.model = c.model) (·.ctes = []) (fun _ => True) Q

/-- What assigns values at hand assigns what is stored in fields. -/
theorem assignsOnly_stored {c : Compiler} {Q : Node → Prop}
    (hQ : ∀ {f : Field} {name v n}, Node.stored f name v = .ok n → Q n)
    (hu : ∀ a ∈ u.assignments, a.IsStored u.isBulk) :
    u.AssignsOnly (fun s => s.compiler.model = c.model) (·.ctes = []) (fun _ => True) Q e bindings := by
  refine ⟨fun l hl => (hu _ hl).elim, fun member value hmem => ?_⟩
  obtain ⟨hbulk, hvalue⟩ := hu _ hmem
  obtain ⟨v, hv⟩ := Option.isSome_iff_exists.mp hvalue
  unfold fieldAssignment
  rw [hbulk, hv]
  refine (Keeps.ofExcept (Q := fun _ => True) fun _ _ => trivial).bind fun f _ => ?_
  exact .ofExcept fun n hn => hQ hn

/-- The sketch of such a plan wants values under fixed names only. -/
theorem isFixed_sketchPlan {c : Compiler} {plan : Planning ChangePlan} {sketch : ChangePlan → Sketch}
    {sk : Sketch} (hplan : Planning.Alone c plan (ChangePlan.All (·.IsFixed c.dialect)))
    (hsketch : ∀ change, change.All (·.IsFixed c.dialect) → (sketch change).IsFixed)
    (h : c.sketchPlan plan sketch = .ok sk) : sk.IsFixed := by
  obtain ⟨⟨change, ctes⟩, hrun, h⟩ := Except.bind_eq_ok.mp h
  cases h
  obtain ⟨p', hgives, rfl⟩ := gives_of_run hrun
  obtain ⟨hchange, hctes⟩ := hplan.of_gives rfl rfl hgives
  rw [hctes]
  exact hsketch change hchange

/-- The filter of a change with fixed names waits for none. -/
private theorem isFixed_filter {change : ChangePlan} (h : change.All (·.IsFixed d)) :
    none ∉ (Sketch.clause " WHERE " (sketchOption d change.filter)).wanted := by
  cases hf : change.filter with
  | none => simp [sketchOption]
  | some n => simpa [sketchOption] using Node.isFixed_iff.mp (h.filter n hf)

/-- An update of a change with fixed names waits for none. -/
private theorem isFixed_sketchUpdate {change : ChangePlan} (h : change.All (·.IsFixed d)) :
    (sketchUpdate d change).IsFixed := by
  obtain ⟨name, schema, htable⟩ := h.table
  have hsets : ∀ sk ∈ sketchSets d change.sets, none ∉ sk.wanted := by
    refine List.forall_mem_map.mpr fun s hs => ?_
    obtain ⟨hcolumn, hvalue⟩ := h.sets s hs
    simp [Node.isFixed_iff.mp hcolumn, Node.isFixed_iff.mp hvalue]
  rw [Sketch.isFixed_iff, sketchUpdate, htable, h.joins]
  simp only [Sketch.wanted_append, List.mem_append, isFixed_filter h, or_false, not_or]
  simpa [sketchTable, sketchRows, sketchJoins] using hsets

/-- A deletion of a change with fixed names waits for none. -/
private theorem isFixed_sketchDelete {change : ChangePlan} (h : change.All (·.IsFixed d)) :
    (sketchDelete d change).IsFixed := by
  obtain ⟨name, schema, htable⟩ := h.table
  rw [Sketch.isFixed_iff, sketchDelete, htable]
  simp only [Sketch.wanted_append, List.mem_append, isFixed_filter h, or_false, not_or]
  simp [sketchTable, sketchRows]

/-- The statement for a row is fixed if all of its assignments store values. -/
theorem isFixed_row {c : Compiler} (hu : ∀ a ∈ u.assignments, a.IsStored u.isBulk) {index : Nat} {r : Record}
    {sk : Sketch} (h : c.sketchPlan (planRow u index r) (sketchUpdate c.dialect) = .ok sk) : sk.IsFixed :=
  isFixed_sketchPlan (keeps_planRow (fun _ h => h) (fun e _ => fieldProperty_isFixed c.dialect e none)
    (fun _ _ => assignsOnly_stored isFixed_stored hu) index r) (fun _ => isFixed_sketchUpdate) h

/-- **Statements without computed values want values under fixed names only.**

**Proof sketch.** A deletion has just its keys, whose values are bound under the names of keys. An update assigns
stored values and has just its keys as well, in one statement or row by row. -/
theorem isFixed_statementSketches {c : Compiler} {s : Statement} (hs : s.IsStored) {sks : List Sketch}
    (h : c.statementSketches s = .ok sks) : ∀ sk ∈ sks, sk.IsFixed := by
  have hQ (e : Entity) := fieldProperty_isFixed c.dialect e none
  cases s with
  | select q => exact hs.elim
  | delete s =>
    obtain ⟨sk, hsk, h⟩ := Except.bind_eq_ok.mp h
    cases h
    refine List.forall_mem_singleton.mpr (isFixed_sketchPlan ?_ (fun _ => isFixed_sketchDelete) hsk)
    refine keeps_planDelete (fun _ h => h) (fun e _ => hQ e) fun e _ => ?_
    rw [show s.filters = [] from hs]
    exact .pure nofun
  | update u =>
    obtain ⟨hassignments, hjoins, hfilters⟩ := hs
    cases hrows : u.rows with
    | some rows =>
      rw [Compiler.statementSketches_rows hrows] at h
      exact Except.forall_of_mapM h fun row _ sk hsk => isFixed_row hassignments hsk
    | none =>
      rw [Compiler.statementSketches_single hrows] at h
      obtain ⟨sk, hsk, h⟩ := Except.bind_eq_ok.mp h
      cases h
      refine List.forall_mem_singleton.mpr (isFixed_sketchPlan ?_ (fun _ => isFixed_sketchUpdate) hsk)
      refine keeps_planUpdate (fun _ h => h) hjoins (fun e _ => hQ e)
        (fun e _ => assignsOnly_stored isFixed_stored hassignments) fun e _ => ?_
      rw [hfilters]
      exact .pure nofun

end LambdaSql
