import LambdaSql.Proofs.Plan.Composed

/-!
# Selections within statements

A selection stands in a statement as a table, as the rows in which a value is looked for, as a value, as rows
that are asked for, or in a common table expression. It may stand in another selection that itself stands in one, to
any depth. Here are all selections that stand in a node or in a selection, and what is needed to tell that they have a
property: what operators make of their operands contains no selections but those of the operands.

## Main definitions

* `Use` - how a selection stands in a statement.
* `Node.selections`, `Select.selections` - the selections within a node and within a selection.
* `Node.Hereditary` - a property of nodes that is one of their parts.

## Main results

* `Node.Hereditary.compositional` - operators preserve such a property.
* `Node.hereditary_selections` - the selections within nodes.
-/

namespace LambdaSql

/-- How a selection stands in a statement. -/
inductive Use where
  /-- It is a table. -/
  | derived
  /-- A value is looked for in its rows. -/
  | searched
  /-- It is a value. -/
  | valued
  /-- It is asked whether it has rows. -/
  | tested
  /-- It is one of the queries of a common table expression. -/
  | common
deriving DecidableEq, Repr

/-- Whether a selection is read as a table. -/
def Use.isTable : Use → Bool
  | derived | common => true
  | searched | valued | tested => false

/-! ## Selections -/

mutual

/-- The selections within a node, and how they stand there. -/
def Node.selections : Node → List (Use × SelectOf Node Rows)
  | .binary _ left right _ => left.selections ++ right.selections
  | .unary _ operand _ | .isNull operand _ | .group operand => operand.selections
  | .call _ args _ => nodesSelections args
  | .case branches otherwise _ => branchSelections branches ++ otherwise.selections
  | .inList operand items _ => operand.selections ++ nodesSelections items
  | .inQuery operand query _ => operand.selections ++ (.searched, query) :: selectSelections query
  | .exists query _ => (.tested, query) :: selectSelections query
  | .subquery query _ => (.valued, query) :: selectSelections query
  | .literal .. | .bound .. | .column .. | .raw .. | .null => []

/-- The selections within several nodes. -/
def nodesSelections : List Node → List (Use × SelectOf Node Rows)
  | [] => []
  | n :: rest => n.selections ++ nodesSelections rest

/-- The selections within the branches of a choice. -/
def branchSelections : List (Node × Node) → List (Use × SelectOf Node Rows)
  | [] => []
  | (test, value) :: rest => test.selections ++ value.selections ++ branchSelections rest

/-- The selections within a node that may be missing. -/
def optionSelections : Option Node → List (Use × SelectOf Node Rows)
  | none => []
  | some n => n.selections

/-- The selections within sort keys. -/
def orderSelections : List (Node × Bool) → List (Use × SelectOf Node Rows)
  | [] => []
  | (n, _) :: rest => n.selections ++ orderSelections rest

/-- The selections within selected expressions. -/
def columnSelections : List (SelectedOf Node) → List (Use × SelectOf Node Rows)
  | [] => []
  | ⟨n, _⟩ :: rest => n.selections ++ columnSelections rest

/-- The selections within what a selection reads from. -/
def rowsSelections : Rows → List (Use × SelectOf Node Rows)
  | .named .. => []
  | .derived query => (.derived, query) :: selectSelections query

/-- The selections within a table. -/
def tableSelections : TableOf Rows → List (Use × SelectOf Node Rows)
  | ⟨rows, _⟩ => rowsSelections rows

/-- The selections within joined tables. -/
def joinSelections : List (JoinedOf Node Rows) → List (Use × SelectOf Node Rows)
  | [] => []
  | ⟨_, table, on⟩ :: rest => tableSelections table ++ on.selections ++ joinSelections rest

/-- The selections within a selection. -/
def selectSelections : SelectOf Node Rows → List (Use × SelectOf Node Rows)
  | ⟨_, columns, table, joins, filter, groupBy, having, orderBy, _, _, _, _⟩ =>
    columnSelections columns ++ tableSelections table ++ joinSelections joins ++ optionSelections filter ++
      nodesSelections groupBy ++ optionSelections having ++ orderSelections orderBy

end

section Membership

variable {x : Use × Select}

/-- The selections within nodes are those within each of them. -/
private theorem mem_nodesSelections {ns : List Node} : x ∈ nodesSelections ns ↔ ∃ n ∈ ns, x ∈ n.selections := by
  induction ns with
  | nil => simp [nodesSelections]
  | cons n rest ih => simp [nodesSelections, ih]

/-- The selections within branches are those within their tests and results. -/
private theorem mem_branchSelections {bs : List (Node × Node)} :
    x ∈ branchSelections bs ↔ ∃ b ∈ bs, x ∈ b.1.selections ∨ x ∈ b.2.selections := by
  induction bs with
  | nil => simp [branchSelections]
  | cons b rest ih => simp [branchSelections, ih, or_assoc]

/-- A selection in an optional node is one in the node. -/
theorem mem_optionSelections {n? : Option Node} : x ∈ optionSelections n? ↔ ∃ n, n? = some n ∧ x ∈ n.selections := by
  cases n? <;> simp [optionSelections]

/-- The selections within sort keys are those within each of them. -/
private theorem mem_orderSelections {ks : List (Node × Bool)} :
    x ∈ orderSelections ks ↔ ∃ k ∈ ks, x ∈ k.1.selections := by
  induction ks with
  | nil => simp [orderSelections]
  | cons k rest ih => simp [orderSelections, ih]

/-- The selections within columns are those within each of them. -/
private theorem mem_columnSelections {cs : List Selected} :
    x ∈ columnSelections cs ↔ ∃ c ∈ cs, x ∈ c.node.selections := by
  induction cs with
  | nil => simp [columnSelections]
  | cons c rest ih => simp [columnSelections, ih]

/-- A table has the selections of its rows. -/
@[simp]
theorem tableSelections_eq (t : Table) : tableSelections t = rowsSelections t.rows := by
  cases t
  rfl

/-- A selection in joins is one in the rows or the condition of one of them. -/
theorem mem_joinSelections {js : List Joined} :
    x ∈ joinSelections js ↔ ∃ j ∈ js, x ∈ rowsSelections j.table.rows ∨ x ∈ j.on.selections := by
  induction js with
  | nil => simp [joinSelections]
  | cons j rest ih => simp [joinSelections, ih, or_assoc]

/-- What stands within a selection stands in one of its clauses. -/
theorem mem_selectSelections {s : Select} : x ∈ selectSelections s ↔
    (∃ c ∈ s.columns, x ∈ c.node.selections) ∨ x ∈ rowsSelections s.table.rows ∨
      (∃ j ∈ s.joins, x ∈ rowsSelections j.table.rows ∨ x ∈ j.on.selections) ∨
      (∃ n, s.filter = some n ∧ x ∈ n.selections) ∨ (∃ n ∈ s.groupBy, x ∈ n.selections) ∨
      (∃ n, s.having = some n ∧ x ∈ n.selections) ∨ ∃ k ∈ s.orderBy, x ∈ k.1.selections := by
  obtain ⟨_, columns, table, joins, filter, groupBy, having, orderBy, _, _, _, _⟩ := s
  simp only [selectSelections, List.mem_append, mem_columnSelections, tableSelections_eq, mem_joinSelections,
    mem_optionSelections, mem_nodesSelections, mem_orderSelections, or_assoc]

end Membership

/-! ## Properties of nodes and of their parts -/

namespace Node

/-- A property that a node has if its parts have it, and that the parts of a node with the property have. Values
have it, whether they are written or bound. -/
structure Hereditary (G : Node → Prop) : Prop where
  literal : ∀ {sql v t}, G (.literal sql v t)
  bound : ∀ {v native name t}, G (.bound v native name t)
  raw : ∀ {text t}, G (.raw text t)
  null : G .null
  binary : ∀ {op l r t}, G (.binary op l r t) ↔ G l ∧ G r
  unary : ∀ {op n t}, G (.unary op n t) ↔ G n
  isNull : ∀ {n negated}, G (.isNull n negated) ↔ G n
  group : ∀ {n}, G (.group n) ↔ G n
  call : ∀ {f ns t}, G (.call f ns t) ↔ ∀ n ∈ ns, G n
  case : ∀ {bs n t}, G (.case bs n t) ↔ (∀ b ∈ bs, G b.1 ∧ G b.2) ∧ G n
  inList : ∀ {n ns negated}, G (.inList n ns negated) ↔ G n ∧ ∀ m ∈ ns, G m
  inQuery : ∀ {n q a} b, G (.inQuery n q a) → G (.inQuery n q b)
  tested : ∀ {q a} b, G (.exists q a) → G (.exists q b)
  retype : ∀ {n} t, G n → G (n.retype t)

namespace Hereditary

variable {G : Node → Prop} (hG : Hereditary G) {n : Node}

include hG

/-- The negation of a node has no selections that the node has not. -/
theorem negation (hn : G n) : G n.negation := by
  unfold Node.negation
  split
  · split
    · exact hG.raw
    · exact hG.inList.mpr (hG.inList.mp hn)
  · exact hG.inList.mpr (hG.inList.mp hn)
  · exact hG.inQuery _ hn
  · exact hG.tested _ hn
  · exact hG.isNull.mpr (hG.isNull.mp hn)
  · split
    · exact hG.raw
    · split
      · exact hG.raw
      · exact hG.unary.mpr hn
  · split
    · exact hG.binary.mpr ⟨(hG.binary.mp hn).1, hG.literal⟩
    · exact hG.unary.mpr hn
  · exact hG.unary.mp hn
  · exact hG.unary.mpr hn

/-- The pieces of a concatenation have no selections that it has not. -/
theorem pieces (hn : G n) : ∀ m ∈ n.pieces, G m := by
  unfold Node.pieces
  split
  · exact hG.call.mp hn
  · exact List.forall_mem_singleton.mpr hn

/-- Operators preserve a hereditary property. -/
theorem compositional : Compositional G where
  literal := hG.literal
  bound := hG.bound
  raw := hG.raw
  null := hG.null
  combined _ hl hr := hG.binary.mpr ⟨hl, hr⟩
  compared _ hl hr := hG.binary.mpr ⟨hl, hr⟩
  binary hl hr := hG.binary.mpr ⟨hl, hr⟩
  unary := hG.unary.mpr
  isNull := hG.isNull.mpr
  call := hG.call.mpr
  case hbs hn := hG.case.mpr ⟨hbs, hn⟩
  listed _ hn hns := hG.inList.mpr ⟨hn, hns⟩
  inList hn hns := hG.inList.mpr ⟨hn, hns⟩
  negation := hG.negation
  pieces := hG.pieces
  retype := hG.retype

end Hereditary

/-- That all selections within a node have a property is hereditary, if it does not matter which rows are asked
for. -/
theorem hereditary_selections (R : Use × Select → Prop) : Hereditary fun n => ∀ x ∈ n.selections, R x where
  literal := by simp [selections]
  bound := by simp [selections]
  raw := by simp [selections]
  null := by simp [selections]
  binary := by simp [selections, or_imp, forall_and]
  unary := by simp [selections]
  isNull := by simp [selections]
  group := by simp [selections]
  call := by
    intro f ns t
    simp only [selections, mem_nodesSelections]
    grind
  case := by
    intro bs n t
    simp only [selections, List.mem_append, mem_branchSelections]
    constructor
    · intro h
      exact ⟨fun b hb => ⟨fun x hx => h x (.inl ⟨b, hb, .inl hx⟩), fun x hx => h x (.inl ⟨b, hb, .inr hx⟩)⟩,
        fun x hx => h x (.inr hx)⟩
    · rintro ⟨hbs, hn⟩ x (⟨b, hb, hx | hx⟩ | hx)
      · exact (hbs b hb).1 x hx
      · exact (hbs b hb).2 x hx
      · exact hn x hx
  inList := by
    intro n ns negated
    simp only [selections, List.mem_append, mem_nodesSelections]
    grind
  inQuery := by simp [selections]
  tested := by simp [selections]
  retype := by
    intro n t h
    cases n <;> exact h

end Node

end LambdaSql
