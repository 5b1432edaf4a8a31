import LambdaSql.Proofs.Naming.Made

/-!
# Columns that are exposed

A grouped selection may read the columns of its rows inside its keys and inside aggregates. Elsewhere they are exposed.
Given which nodes cover what stands in them, here are the columns of a node that are exposed, and what operators do to
them: an operator exposes nothing that its operands do not expose, as long as the opposite of what covers, its pieces,
and the same with another type cover as well.

## Main definitions

* `Node.Exposes`, `selectExposes` - a column is exposed in a node and in a selection.
* `Enduring` - what covers still does so after simplification.
* `Node.ExposesOnly` - only columns with a property are exposed, unless they belong to a selection within the node.

## Main results

* `Node.mem_of_exposes` - what is exposed stands in the node.
* `Enduring.selective` - exposing only columns with a property survives composition.
* `Select.ClausesExposeOnly.exposesOnly` - selections.
-/

namespace LambdaSql

/-! ## Exposed columns -/

mutual

/-- A column is exposed in a node: it is inside no node that covers and inside no argument of an aggregate. -/
def Node.Exposes (covers : Node → Prop) (around : List Level) (o : Occurrence) : Node → Prop
  | n@(.column aliasName name _) => ¬ covers n ∧ o = ⟨around, .column aliasName name⟩
  | n@(.binary _ left right _) =>
    ¬ covers n ∧ (left.Exposes covers around o ∨ right.Exposes covers around o)
  | n@(.unary _ operand _) | n@(.isNull operand _) | n@(.group operand) =>
    ¬ covers n ∧ operand.Exposes covers around o
  | n@(.call f args _) => ¬ covers n ∧ f.isAggregate = false ∧ nodesExpose covers around o args
  | n@(.case branches otherwise _) =>
    ¬ covers n ∧ (branchesExpose covers around o branches ∨ otherwise.Exposes covers around o)
  | n@(.inList operand items _) =>
    ¬ covers n ∧ (operand.Exposes covers around o ∨ nodesExpose covers around o items)
  | n@(.inQuery operand query _) =>
    ¬ covers n ∧ (operand.Exposes covers around o ∨ selectExposes covers around o query)
  | n@(.exists query _) | n@(.subquery query _) => ¬ covers n ∧ selectExposes covers around o query
  | .literal .. | .bound .. | .raw .. | .null => False

/-- A column is exposed in one of several nodes. -/
def nodesExpose (covers : Node → Prop) (around : List Level) (o : Occurrence) : List Node → Prop
  | [] => False
  | n :: rest => n.Exposes covers around o ∨ nodesExpose covers around o rest

/-- A column is exposed in one of the branches of a choice. -/
def branchesExpose (covers : Node → Prop) (around : List Level) (o : Occurrence) : List (Node × Node) → Prop
  | [] => False
  | (test, value) :: rest =>
    (test.Exposes covers around o ∨ value.Exposes covers around o) ∨ branchesExpose covers around o rest

/-- A column is exposed in a node that may be missing. -/
def optionExposes (covers : Node → Prop) (around : List Level) (o : Occurrence) : Option Node → Prop
  | none => False
  | some n => n.Exposes covers around o

/-- A column is exposed in one of several sort keys. -/
def orderExposes (covers : Node → Prop) (around : List Level) (o : Occurrence) : List (Node × Bool) → Prop
  | [] => False
  | (n, _) :: rest => n.Exposes covers around o ∨ orderExposes covers around o rest

/-- A column is exposed in one of several selected expressions. -/
def columnsExpose (covers : Node → Prop) (around : List Level) (o : Occurrence) : List (SelectedOf Node) → Prop
  | [] => False
  | ⟨n, _⟩ :: rest => n.Exposes covers around o ∨ columnsExpose covers around o rest

/-- A column is exposed in what a selection reads from. -/
def rowsExpose (covers : Node → Prop) (around : List Level) (o : Occurrence) : Rows → Prop
  | .named .. => False
  | .derived query => selectExposes covers around o query

/-- A column is exposed in a table. -/
def tableExposes (covers : Node → Prop) (around : List Level) (o : Occurrence) : TableOf Rows → Prop
  | ⟨rows, _⟩ => rowsExpose covers around o rows

/-- A column is exposed in one of several joined tables, whose rows do not see the other tables of the selection. -/
def joinsExpose (covers : Node → Prop) (around inside : List Level) (o : Occurrence) :
    List (JoinedOf Node Rows) → Prop
  | [] => False
  | ⟨_, table, on⟩ :: rest =>
    (tableExposes covers around o table ∨ on.Exposes covers inside o) ∨ joinsExpose covers around inside o rest

/-- A column is exposed in a selection. What covers as a value covers the selection wherever it stands. -/
def selectExposes (covers : Node → Prop) (around : List Level) (o : Occurrence) : SelectOf Node Rows → Prop
  | s@⟨_, columns, table, joins, filter, groupBy, having, orderBy, _, _, _, deferred⟩ =>
    let tables := table :: joins.map (·.table)
    let inside := ⟨tables, false⟩ :: around
    (∀ t, ¬ covers (.subquery s t)) ∧
      ((((((columnsExpose covers (⟨tables, !deferred.isEmpty⟩ :: around) o columns ∨
        tableExposes covers around o table) ∨ joinsExpose covers around inside o joins) ∨
        optionExposes covers inside o filter) ∨ nodesExpose covers inside o groupBy) ∨
        optionExposes covers inside o having) ∨ orderExposes covers inside o orderBy)

end

section Membership

variable {covers : Node → Prop} {around inside : List Level} {o : Occurrence}

/-- Nodes expose what one of them does. -/
private theorem nodesExpose_iff {ns : List Node} :
    nodesExpose covers around o ns ↔ ∃ n ∈ ns, n.Exposes covers around o := by
  induction ns with
  | nil => simp [nodesExpose]
  | cons n rest ih => simp [nodesExpose, ih]

/-- The branches of a choice expose what a test or a result among them does. -/
private theorem branchesExpose_iff {bs : List (Node × Node)} : branchesExpose covers around o bs ↔
    ∃ b ∈ bs, b.1.Exposes covers around o ∨ b.2.Exposes covers around o := by
  induction bs with
  | nil => simp [branchesExpose]
  | cons b rest ih => simp [branchesExpose, ih]

/-- A node that may be missing exposes what it does if it is there. -/
private theorem optionExposes_iff {n? : Option Node} :
    optionExposes covers around o n? ↔ ∃ n, n? = some n ∧ n.Exposes covers around o := by
  cases n? <;> simp [optionExposes]

/-- Sort keys expose what one of them does. -/
private theorem orderExposes_iff {ks : List (Node × Bool)} :
    orderExposes covers around o ks ↔ ∃ k ∈ ks, k.1.Exposes covers around o := by
  induction ks with
  | nil => simp [orderExposes]
  | cons k rest ih => simp [orderExposes, ih]

/-- Selected columns expose what one of them does. -/
private theorem columnsExpose_iff {cs : List Selected} :
    columnsExpose covers around o cs ↔ ∃ c ∈ cs, c.node.Exposes covers around o := by
  induction cs with
  | nil => simp [columnsExpose]
  | cons c rest ih => simp [columnsExpose, ih]

/-- A table exposes what its rows do. -/
@[simp]
theorem tableExposes_iff {t : Table} : tableExposes covers around o t ↔ rowsExpose covers around o t.rows := by
  cases t
  exact Iff.rfl

/-- A selection that is not covered as a value exposes what its columns do. -/
theorem selectExposes_of_column {q : Select} (hq : ∀ t, ¬ covers (.subquery q t)) {c : Selected} (hc : c ∈ q.columns)
    (h : c.node.Exposes covers (⟨q.tables, !q.deferred.isEmpty⟩ :: around) o) : selectExposes covers around o q := by
  cases q
  exact ⟨hq, .inl (.inl (.inl (.inl (.inl (.inl (columnsExpose_iff.mpr ⟨c, hc, h⟩))))))⟩

/-- A selection with exposed columns is not covered as a value. -/
theorem selectExposes_bare {q : Select} (h : selectExposes covers around o q) (t : HostType) :
    ¬ covers (.subquery q t) := by
  cases q
  exact h.1 t

/-- Joins expose what the rows or the condition of one of them do. -/
private theorem joinsExpose_iff {js : List Joined} : joinsExpose covers around inside o js ↔
    ∃ j ∈ js, rowsExpose covers around o j.table.rows ∨ j.on.Exposes covers inside o := by
  induction js with
  | nil => simp [joinsExpose]
  | cons j rest ih => simp [joinsExpose, ih]

end Membership

/-! ## Exposed columns are columns -/

mutual

/-- What is exposed in a node stands in it. -/
theorem Node.mem_of_exposes {covers : Node → Prop} {around : List Level} {o : Occurrence} :
    ∀ n : Node, n.Exposes covers around o → o ∈ n.occurrences around
  | .column .., h => Multiset.mem_singleton.mpr h.2
  | .binary _ left right _, h => Multiset.mem_add.mpr (h.2.imp left.mem_of_exposes right.mem_of_exposes)
  | .unary _ operand _, h | .isNull operand _, h | .group operand, h => operand.mem_of_exposes h.2
  | .call _ args _, h => mem_of_nodesExpose args h.2.2
  | .case branches otherwise _, h =>
    Multiset.mem_add.mpr (h.2.imp (mem_of_branchesExpose branches) otherwise.mem_of_exposes)
  | .inList operand items _, h =>
    Multiset.mem_add.mpr (h.2.imp operand.mem_of_exposes (mem_of_nodesExpose items))
  | .inQuery operand query _, h =>
    Multiset.mem_add.mpr (h.2.imp operand.mem_of_exposes (mem_of_selectExposes query))
  | .exists query _, h | .subquery query _, h => mem_of_selectExposes query h.2
  | .literal .., h | .bound .., h | .raw .., h | .null, h => h.elim

/-- What nodes expose occurs in them. -/
private theorem mem_of_nodesExpose {covers : Node → Prop} {around : List Level} {o : Occurrence} :
    ∀ ns : List Node, nodesExpose covers around o ns → o ∈ nodesOccurrences around ns
  | [], h => h.elim
  | n :: rest, h => Multiset.mem_add.mpr (h.imp n.mem_of_exposes (mem_of_nodesExpose rest))

/-- What the branches of a choice expose occurs in them. -/
private theorem mem_of_branchesExpose {covers : Node → Prop} {around : List Level} {o : Occurrence} :
    ∀ bs : List (Node × Node), branchesExpose covers around o bs → o ∈ branchOccurrences around bs
  | [], h => h.elim
  | (test, value) :: rest, h => Multiset.mem_add.mpr (h.imp
      (fun h => Multiset.mem_add.mpr (h.imp test.mem_of_exposes value.mem_of_exposes)) (mem_of_branchesExpose rest))

/-- What a node that may be missing exposes occurs in it. -/
private theorem mem_of_optionExposes {covers : Node → Prop} {around : List Level} {o : Occurrence} :
    ∀ n? : Option Node, optionExposes covers around o n? → o ∈ optionOccurrences around n?
  | none, h => h.elim
  | some n, h => n.mem_of_exposes h

/-- What sort keys expose occurs in them. -/
private theorem mem_of_orderExposes {covers : Node → Prop} {around : List Level} {o : Occurrence} :
    ∀ ks : List (Node × Bool), orderExposes covers around o ks → o ∈ orderOccurrences around ks
  | [], h => h.elim
  | (n, _) :: rest, h => Multiset.mem_add.mpr (h.imp n.mem_of_exposes (mem_of_orderExposes rest))

/-- What selected columns expose occurs in them. -/
private theorem mem_of_columnsExpose {covers : Node → Prop} {around : List Level} {o : Occurrence} :
    ∀ cs : List (SelectedOf Node), columnsExpose covers around o cs → o ∈ columnOccurrences around cs
  | [], h => h.elim
  | ⟨n, _⟩ :: rest, h => Multiset.mem_add.mpr (h.imp n.mem_of_exposes (mem_of_columnsExpose rest))

/-- What the rows of a table expose occurs in them. -/
private theorem mem_of_rowsExpose {covers : Node → Prop} {around : List Level} {o : Occurrence} :
    ∀ r : Rows, rowsExpose covers around o r → o ∈ rowsOccurrences around r
  | .named .., h => h.elim
  | .derived query, h => mem_of_selectExposes query h

/-- What a table exposes occurs in it. -/
private theorem mem_of_tableExposes {covers : Node → Prop} {around : List Level} {o : Occurrence} :
    ∀ t : TableOf Rows, tableExposes covers around o t → o ∈ tableOccurrences around t
  | ⟨rows, _⟩, h => mem_of_rowsExpose rows h

/-- What joins expose occurs in them. -/
private theorem mem_of_joinsExpose {covers : Node → Prop} {around inside : List Level} {o : Occurrence} :
    ∀ js : List (JoinedOf Node Rows), joinsExpose covers around inside o js → o ∈ joinOccurrences around inside js
  | [], h => h.elim
  | ⟨_, table, on⟩ :: rest, h => Multiset.mem_add.mpr (h.imp
      (fun h => Multiset.mem_add.mpr (h.imp (mem_of_tableExposes table) on.mem_of_exposes)) (mem_of_joinsExpose rest))

/-- What a selection exposes occurs in it. -/
private theorem mem_of_selectExposes {covers : Node → Prop} {around : List Level} {o : Occurrence} :
    ∀ s : SelectOf Node Rows, selectExposes covers around o s → o ∈ selectOccurrences around s
  | ⟨_, columns, table, joins, filter, groupBy, having, orderBy, _, _, _, _⟩, h => by
    simp only [selectOccurrences, Multiset.mem_add]
    refine h.2.imp (Or.imp (Or.imp (Or.imp (Or.imp (Or.imp (fun h => ?_) ?_) ?_) ?_) ?_) ?_) ?_
    · exact .inr (mem_of_columnsExpose columns h)
    · exact mem_of_tableExposes table
    · exact mem_of_joinsExpose joins
    · exact mem_of_optionExposes filter
    · exact mem_of_nodesExpose groupBy
    · exact mem_of_optionExposes having
    · exact mem_of_orderExposes orderBy

end

/-! ## What covers -/

/-- What covers still does so as the opposite of a test, in pieces, and with another type. -/
structure Enduring (covers : Node → Prop) : Prop where
  negation : ∀ {n}, covers n → covers n.negation
  pieces : ∀ {n}, covers n → ∀ m ∈ n.pieces, covers m
  retype : ∀ {n} t, covers n → covers (n.retype t)

variable {covers : Node → Prop} {P P' : Leaf → Prop} {around : List Level} {o : Occurrence} {n : Node}

/-- Nothing is exposed inside what covers. -/
theorem Node.not_exposes_of_covers (hn : covers n) : ¬ n.Exposes covers around o := by
  intro h
  cases n with
  | literal | bound | raw | null => exact h
  | _ => exact h.1 hn

/-- The opposite of a test that does not cover exposes no more than the test. -/
theorem Node.exposes_of_negation (hn : ¬ covers n) (h : n.negation.Exposes covers around o) :
    n.Exposes covers around o := by
  unfold negation at h
  split at h
  · split at h
    · exact h.elim
    · exact ⟨hn, h.2⟩
  · exact ⟨hn, h.2⟩
  · exact ⟨hn, h.2⟩
  · exact ⟨hn, h.2⟩
  · exact ⟨hn, h.2⟩
  · split at h
    · exact h.elim
    · split at h
      · exact h.elim
      · exact h.2
  · split at h
    · exact ⟨hn, h.2.imp id False.elim⟩
    · exact h.2
  · exact ⟨hn, h⟩
  · exact h.2

/-- A node that does not cover exposes no more when it has another type. -/
theorem Node.exposes_of_retype (hn : ¬ covers n) {t : HostType} (h : (n.retype t).Exposes covers around o) :
    n.Exposes covers around o := by
  cases n with
  | literal | bound => exact h
  | column | binary | unary | call | case | subquery => exact ⟨hn, h.2⟩
  | _ => exact h

/-! ## Properties of what is exposed -/

/-- An occurrence inside all that is around a place has a property, unless it is a column with the alias of a table
that is farther inside. -/
def Occurrence.Within (P : Leaf → Prop) (around : List Level) (o : Occurrence) : Prop :=
  ∃ inner, o.around = inner ++ around ∧
    (P o.leaf ∨ ∃ a name, o.leaf = .column (some a) name ∧ a ∈ aliases inner)

/-- A node exposes only columns with a property, and columns of tables that are farther inside. -/
def Node.ExposesOnly (covers : Node → Prop) (P : Leaf → Prop) (n : Node) : Prop :=
  ∀ around o, n.Exposes covers around o → o.Within P around

/-- A selection exposes only columns with a property, and columns of tables that are farther inside. -/
def Select.ExposesOnly (covers : Node → Prop) (P : Leaf → Prop) (s : Select) : Prop :=
  ∀ around o, selectExposes covers around o s → o.Within P around

/-- So do the rows that a selection reads from. -/
def Rows.ExposeOnly (covers : Node → Prop) (P : Leaf → Prop) (r : Rows) : Prop :=
  ∀ around o, rowsExpose covers around o r → o.Within P around

/-- A weaker property holds of as many occurrences. -/
theorem Occurrence.Within.mono (h : o.Within P around) (hP : ∀ l, P l → P' l) : o.Within P' around := by
  obtain ⟨inner, hinner, h⟩ := h
  exact ⟨inner, hinner, h.imp_left (hP _)⟩

/-- A weaker property holds of all that is exposed. -/
theorem Node.ExposesOnly.mono (h : n.ExposesOnly covers P) (hP : ∀ l, P l → P' l) : n.ExposesOnly covers P' :=
  fun around o ho => (h around o ho).mono hP

/-- A node that is covered exposes nothing. -/
theorem Node.exposesOnly_of_covers (hn : covers n) : n.ExposesOnly covers P :=
  fun _ _ h => absurd h (not_exposes_of_covers hn)

/-- A column exposes itself. -/
theorem Node.exposesOnly_column {aliasName : Option String} {name : String} {t : HostType}
    (h : P (.column aliasName name)) : (column aliasName name t).ExposesOnly covers P := by
  rintro around o ⟨-, rfl⟩
  exact ⟨[], rfl, .inl h⟩

/-- An aggregate exposes nothing. -/
theorem Node.exposesOnly_aggregate (f : Aggregate) (ns : List Node) : (aggregate f ns).ExposesOnly covers P :=
  fun _ _ h => absurd h.2.1 Bool.noConfusion

/-- What stands nowhere is not exposed. -/
theorem Node.exposesOnly_of_no_occurrences (h : ∀ around, n.occurrences around = 0) : n.ExposesOnly covers P := by
  intro around o ho
  have hmem := n.mem_of_exposes ho
  rw [h] at hmem
  exact absurd hmem (Multiset.notMem_zero o)

/-- A test against a list exposes what its operand and the items of the list expose. -/
theorem Node.exposesOnly_inList {ns : List Node} {negated : Bool} (hn : n.ExposesOnly covers P)
    (hns : ∀ m ∈ ns, m.ExposesOnly covers P) : (Node.inList n ns negated).ExposesOnly covers P := by
  intro around o h
  obtain h | h := h.2
  · exact hn around o h
  · obtain ⟨m, hm, h⟩ := nodesExpose_iff.mp h
    exact hns m hm around o h

/-- **Exposing only columns with a property survives composition.**

**Proof sketch.** Node by node. Where lowering changes a node, as by negation or by cutting it into pieces, what is
covered stays covered and exposes nothing, and anything else exposes what it did before. -/
theorem Enduring.selective (hc : Enduring covers) : Node.Selective (Node.ExposesOnly covers P) where
  literal := fun _ _ h => h.elim
  bound := fun _ _ h => h.elim
  raw := fun _ _ h => h.elim
  null := fun _ _ h => h.elim
  combined _ hl hr := fun _ _ h => h.2.elim (hl _ _) (hr _ _)
  compared _ hl hr := fun _ _ h => h.2.elim (hl _ _) (hr _ _)
  binary hl hr := fun _ _ h => h.2.elim (hl _ _) (hr _ _)
  unary hn := fun _ _ h => hn _ _ h.2
  isNull hn := fun _ _ h => hn _ _ h.2
  call hns := fun _ _ h => by
    obtain ⟨n, hn, h⟩ := nodesExpose_iff.mp h.2.2
    exact hns n hn _ _ h
  case hbs hn := fun _ _ h => by
    obtain h | h := h.2
    · obtain ⟨b, hb, h⟩ := branchesExpose_iff.mp h
      exact h.elim ((hbs b hb).1 _ _) ((hbs b hb).2 _ _)
    · exact hn _ _ h
  listed _ hn hns := Node.exposesOnly_inList hn hns
  inList hn hns := Node.exposesOnly_inList hn hns
  negation {n} hn := fun around o h => by
    -- what is covered exposes nothing, before and after
    by_cases hcovers : covers n
    · exact absurd h (Node.not_exposes_of_covers (hc.negation hcovers))
    · exact hn _ _ (Node.exposes_of_negation hcovers h)
  pieces {n} hn := fun m hm around o h => by
    by_cases hcovers : covers n
    · exact absurd h (Node.not_exposes_of_covers (hc.pieces hcovers m hm))
    · unfold Node.pieces at hm
      split at hm
      · exact hn _ _ ⟨hcovers, rfl, nodesExpose_iff.mpr ⟨m, hm, h⟩⟩
      · rw [List.mem_singleton.mp hm] at h
        exact hn _ _ h
  retype {n} t hn := fun around o h => by
    by_cases hcovers : covers n
    · exact absurd h (Node.not_exposes_of_covers (hc.retype t hcovers))
    · exact hn _ _ (Node.exposes_of_retype hcovers h)
  searched {n q t negated} hn hq := fun _ _ h => h.2.elim (hn _ _) fun h => hq _ _ ⟨selectExposes_bare h t, h⟩
  tested {q t negated} hq := fun _ _ h => hq _ _ ⟨selectExposes_bare h.2 t, h.2⟩

/-! ## Selections -/

/-- A property of leaves that the columns of several tables have as well. -/
def Leaf.OrOf (P : Leaf → Prop) (tables : List Table) (l : Leaf) : Prop :=
  P l ∨ ∃ t ∈ tables, ∃ a name, t.aliasName = some a ∧ l = .column (some a) name

/-- What is inside a selection is inside what is around it, and the tables of the selection are farther inside. -/
theorem Occurrence.Within.leave {tables : List Table} {deferring : Bool}
    (h : o.Within (Leaf.OrOf P tables) (⟨tables, deferring⟩ :: around)) : o.Within P around := by
  obtain ⟨inner, hinner, h⟩ := h
  refine ⟨inner ++ [⟨tables, deferring⟩], by rw [hinner, List.append_assoc, List.singleton_append], ?_⟩
  rw [aliases_append, aliases_cons]
  obtain (h | ⟨t, ht, a, name, ha, hleaf⟩) | ⟨a, name, hleaf, ha⟩ := h
  · exact .inl h
  · refine .inr ⟨a, name, hleaf, ?_⟩
    exact List.mem_append_right _ (List.mem_append_left _ (List.mem_filterMap.mpr ⟨t, ht, ha⟩))
  · exact .inr ⟨a, name, hleaf, List.mem_append_left _ ha⟩

/-- What a selection returns, how it tests groups, and how it sorts expose only columns with a property. -/
structure Select.OuterExposesOnly (covers : Node → Prop) (P : Leaf → Prop) (s : Select) : Prop where
  columns : ∀ c ∈ s.columns, c.node.ExposesOnly covers P
  having : ∀ n, s.having = some n → n.ExposesOnly covers P
  orderBy : ∀ k ∈ s.orderBy, k.1.ExposesOnly covers P

/-- The clauses of a selection expose only columns with a property, and those of its own tables. -/
structure Select.ClausesExposeOnly (covers : Node → Prop) (P : Leaf → Prop) (s : Select) : Prop
    extends Select.OuterExposesOnly covers (Leaf.OrOf P s.tables) s where
  table : s.table.rows.ExposeOnly covers P
  joins : ∀ j ∈ s.joins, j.table.rows.ExposeOnly covers P ∧ j.on.ExposesOnly covers (Leaf.OrOf P s.tables)
  filter : ∀ n, s.filter = some n → n.ExposesOnly covers (Leaf.OrOf P s.tables)
  groupBy : ∀ n ∈ s.groupBy, n.ExposesOnly covers (Leaf.OrOf P s.tables)

/-- A selection exposes what its clauses do, but for the columns of its own tables. -/
theorem Select.ClausesExposeOnly.exposesOnly {s : Select} (hs : Select.ClausesExposeOnly covers P s) :
    Select.ExposesOnly covers P s := by
  obtain ⟨_, columns, table, joins, filter, groupBy, having, orderBy, _, _, _, _⟩ := s
  rintro around o ⟨-, h⟩
  rw [columnsExpose_iff, tableExposes_iff, joinsExpose_iff, optionExposes_iff, nodesExpose_iff, optionExposes_iff,
    orderExposes_iff] at h
  obtain ((((((⟨c, hc, h⟩ | h) | ⟨j, hj, h | h⟩) | ⟨n, hn, h⟩) | ⟨n, hn, h⟩) | ⟨n, hn, h⟩) | ⟨k, hk, h⟩) := h
  · exact (hs.columns c hc _ _ h).leave
  · exact hs.table _ _ h
  · exact (hs.joins j hj).1 _ _ h
  · exact ((hs.joins j hj).2 _ _ h).leave
  · exact (hs.filter n hn _ _ h).leave
  · exact (hs.groupBy n hn _ _ h).leave
  · exact (hs.having n hn _ _ h).leave
  · exact (hs.orderBy k hk _ _ h).leave

/-- Of a selection only the rows may matter. -/
theorem Select.ClausesExposeOnly.withoutColumns {s : Select} (hs : Select.ClausesExposeOnly covers P s) :
    Select.ClausesExposeOnly covers P { s with columns := [⟨.ofInt 1, none⟩] } :=
  { hs with columns := List.forall_mem_singleton.mpr fun _ _ h => h.elim }

/-- A selection as a value. -/
theorem Select.ClausesExposeOnly.subquery {s : Select} (hs : Select.ClausesExposeOnly covers P s) (t : HostType) :
    (Node.subquery s t).ExposesOnly covers P := fun _ _ h => hs.exposesOnly _ _ h.2

end LambdaSql
