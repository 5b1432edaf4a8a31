import LambdaSql.Proofs.Naming.Drawn
import LambdaSql.Proofs.Plan.Stated

/-!
# The leaves of planned expressions

Columns and fixed placeholders come into a statement in few ways, so a property that columns with an alias and
selections have, and that whatever is read from the parameters in scope has, is one that all leaves of planned
expressions have.

## Main definitions

* `Node.LeavesIn`, `Select.LeavesIn` - the leaves of a node and of a selection have a property.
* `Leaf.Usual` - a property that columns with an alias and selections have.

## Main results

* `Select.leavesIn_of_clauses` - the leaves of a selection are those of its clauses.
* `Leaf.feature` - such a property is a feature of what is planned.
-/

namespace LambdaSql

/-! ## Leaves with a property -/

section LeavesIn

variable (P : Leaf → Prop)

/-- All leaves of a node have a property. -/
def Node.LeavesIn (n : Node) : Prop := ∀ around, ∀ o ∈ n.occurrences around, P o.leaf

/-- All leaves of a selection have a property. -/
def Select.LeavesIn (s : Select) : Prop := ∀ around, ∀ o ∈ selectOccurrences around s, P o.leaf

/-- The leaves of what a selection reads from have a property. -/
def Rows.LeavesIn (r : Rows) : Prop := ∀ around, ∀ o ∈ rowsOccurrences around r, P o.leaf

/-- A property that columns with an alias and selections have. -/
structure Leaf.Usual : Prop where
  column : ∀ aliasName name, P (.column (some aliasName) name)
  selection : P .selection

end LeavesIn

variable {P : Leaf → Prop} {n m : Node} {ns : List Node}

/-- A column has its only leaf in what the column is in. -/
theorem Node.leavesIn_column {aliasName : Option String} {name : String} {t : HostType}
    (h : P (.column aliasName name)) : (Node.column aliasName name t).LeavesIn P := by
  intro around o ho
  rw [Multiset.mem_singleton.mp ho]
  exact h

/-- The rows of a named table have no leaves. -/
private theorem Rows.leavesIn_named (name : String) (schema : Option String) :
    (Rows.named name schema).LeavesIn P := fun _ _ h => absurd h (Multiset.notMem_zero _)

/-! ## Operators -/

namespace Node

/-- A node made of others has no leaves but theirs. -/
theorem MadeOf.leavesIn (h : n.MadeOf ns) (hns : ∀ m ∈ ns, m.LeavesIn P) : n.LeavesIn P := by
  intro around o ho
  obtain ⟨m, hm, ho⟩ := mem_nodesOccurrences.mp (Multiset.mem_of_le (h.le around) ho)
  exact hns m hm around o ho

/-- A node that is made of nothing has no leaves outside. -/
theorem MadeOf.leavesIn_nil (h : n.MadeOf []) : n.LeavesIn P := h.leavesIn nofun

/-- What is made of one node has its leaves. -/
private theorem MadeOf.leavesIn_one (h : n.MadeOf [m]) (hm : m.LeavesIn P) : n.LeavesIn P :=
  h.leavesIn (List.forall_mem_singleton.mpr hm)

/-- A node that is made of two has the leaves of both. -/
theorem MadeOf.leavesIn_two {l r : Node} (h : n.MadeOf [l, r]) (hl : l.LeavesIn P)
    (hr : r.LeavesIn P) : n.LeavesIn P :=
  h.leavesIn (List.forall_mem_cons.mpr ⟨hl, List.forall_mem_singleton.mpr hr⟩)

/-- The leaves of a choice are those of its branches and of its last part. -/
private theorem leavesIn_case {bs : List (Node × Node)} {t : HostType} :
    (Node.case bs n t).LeavesIn P ↔ (∀ b ∈ bs, b.1.LeavesIn P ∧ b.2.LeavesIn P) ∧ n.LeavesIn P := by
  simp only [LeavesIn, occurrences, branchOccurrences_eq, Multiset.mem_add, mem_nodesOccurrences, List.mem_flatMap,
    List.mem_cons, List.not_mem_nil, or_false]
  constructor
  · intro h
    exact ⟨fun b hb => ⟨fun around o ho => h around o (.inl ⟨_, ⟨b, hb, .inl rfl⟩, ho⟩),
      fun around o ho => h around o (.inl ⟨_, ⟨b, hb, .inr rfl⟩, ho⟩)⟩, fun around o ho => h around o (.inr ho)⟩
  · rintro ⟨hbs, hn⟩ around o (⟨m, ⟨b, hb, rfl | rfl⟩, ho⟩ | ho)
    · exact (hbs b hb).1 around o ho
    · exact (hbs b hb).2 around o ho
    · exact hn around o ho

/-- Operators have no leaves but those of their operands. -/
theorem composable_leavesIn : Composable (LeavesIn P) where
  literal := (madeOf_literal ..).leavesIn_nil
  raw := (madeOf_raw ..).leavesIn_nil
  null := madeOf_null.leavesIn_nil
  combined _ hl hr := (madeOf_binary ..).leavesIn_two hl hr
  compared _ hl hr := (madeOf_binary ..).leavesIn_two hl hr
  unary hn := (madeOf_unary ..).leavesIn_one hn
  isNull hn := (madeOf_isNull ..).leavesIn_one hn
  call hns := (madeOf_call ..).leavesIn hns
  case hbs hn := leavesIn_case.mpr ⟨hbs, hn⟩
  listed _ hn hns := (madeOf_inList ..).leavesIn (List.forall_mem_cons.mpr ⟨hn, hns⟩)
  negation hn := (madeOf_negation _).leavesIn_one hn
  pieces {n} hn m hm around o ho :=
    hn around o (nodesOccurrences_pieces around n ▸ mem_nodesOccurrences.mpr ⟨m, hm, ho⟩)
  retype t hn := (madeOf_retype t _).leavesIn_one hn

end Node

/-! ## Selections -/

/-- What stands in joined tables stands in what they read from or in their conditions. -/
theorem mem_joinOccurrences {around inside : List Level} {occ : Occurrence} {joins : List Joined}
    (h : occ ∈ joinOccurrences around inside joins) :
    ∃ j ∈ joins, occ ∈ rowsOccurrences around j.table.rows ∨ occ ∈ j.on.occurrences inside := by
  induction joins with
  | nil => exact absurd h (Multiset.notMem_zero _)
  | cons j rest ih =>
    obtain ⟨_, ⟨_, _⟩, _⟩ := j
    simp only [joinOccurrences, tableOccurrences, Multiset.mem_add] at h
    obtain h | h := h
    · exact ⟨_, List.mem_cons_self, h⟩
    · obtain ⟨j, hj, h⟩ := ih h
      exact ⟨j, List.mem_cons_of_mem _ hj, h⟩

/-- The leaves of a selection are those of its clauses. -/
theorem Select.leavesIn_of_clauses (hP : Leaf.Usual P) {sel : Select}
    (h : sel.PartsHave (Node.LeavesIn P) (Rows.LeavesIn P)) : Select.LeavesIn P sel := by
  obtain ⟨_, columns, ⟨rows, _⟩, joins, filter, groupBy, having, orderBy, _, _, _, _⟩ := sel
  have several {around : List Level} {ns : List Node} (hns : ∀ n ∈ ns, n.LeavesIn P) {occ : Occurrence}
      (ho : occ ∈ nodesOccurrences around ns) : P occ.leaf := by
    obtain ⟨n, hn, ho⟩ := mem_nodesOccurrences.mp ho
    exact hns n hn _ _ ho
  intro around occ ho
  simp only [selectOccurrences, columnOccurrences_eq, orderOccurrences_eq, optionOccurrences_eq,
    tableOccurrences, Multiset.mem_add, Multiset.mem_singleton] at ho
  obtain ((((((rfl | ho) | ho) | ho) | ho) | ho) | ho) | ho := ho
  · exact hP.selection
  · exact several (List.forall_mem_map.mpr h.columns) ho
  · exact h.table _ _ ho
  · obtain ⟨j, hj, ho⟩ := mem_joinOccurrences ho
    exact ho.elim ((h.joins j hj).1 _ _) ((h.joins j hj).2 _ _)
  · exact several (fun n hn => h.filter n (Option.mem_toList.mp hn)) ho
  · exact several h.groupBy ho
  · exact several (fun n hn => h.having n (Option.mem_toList.mp hn)) ho
  · exact several (List.forall_mem_map.mpr h.orderBy) ho

/-- **A usual property of leaves is a feature** of what is planned, whatever is planned. -/
def Leaf.feature (hP : Leaf.Usual P) : Feature where
  admits _ := True
  node := Node.LeavesIn P
  select := Select.LeavesIn P
  rows := Rows.LeavesIn P
  fault _ := True
  composable := Node.composable_leavesIn
  branches h := Node.leavesIn_case.mp h
  column := Node.leavesIn_column (hP.column ..)
  captured _ _ := (Node.madeOf_parameter _).leavesIn_nil
  valued hs := hs
  searched hn hs := (Node.madeOf_inQuery _ _ .unknown _).leavesIn_two hn hs
  tested hs := hs
  counted {s _} hs around o ho :=
    hs around o (Multiset.mem_of_le (Lowering.selectOccurrences_withoutColumns around s) ho)
  named := Rows.leavesIn_named _ _
  derived hs := hs
  planned h := Select.leavesIn_of_clauses hP h
  evaluated _ _ := trivial

end LambdaSql
