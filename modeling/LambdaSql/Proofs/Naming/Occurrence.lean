import LambdaSql.Sql.Operators
import Mathlib

/-!
# Where columns stand

A column is named in some place of a statement, inside a selection that may itself stand inside other
selections. The tables of all these selections decide what the name means: an alias means the table of
that alias in the innermost selection that has one.

## Main definitions

* `Level` - the tables of a selection around a place.
* `Leaf`, `Occurrence` - a column, a selection or a fixed placeholder, with what is around it.
* `Node.occurrences`, `selectOccurrences` - the occurrences in a node and in a selection.
* `Seat`, `seatOf` - the place of a table, and the one that an alias means.
* `Occurrence.denoted?` - what a column means.

## Main results

* `Node.around_of_mem` - what stands in a node stands inside all that is around the node.
-/

namespace LambdaSql

/-! ## Occurrences -/

/-- The tables of a selection around a place. -/
structure Level where
  tables : List Table
  /-- Whether the place is a column of a selection that leaves projected expressions for evaluation
  after fetching. -/
  deferring : Bool := false

/-- What has a name of its own in a statement. -/
inductive Leaf where
  | column (aliasName : Option String) (name : String)
  /-- A value that is bound under a fixed name. -/
  | fixed (name : String)
  /-- A selection, with the aliases of its tables. -/
  | selection
deriving DecidableEq

/-- A leaf with the selections around it, innermost first. A selection itself comes first among those
around it. -/
structure Occurrence where
  around : List Level
  leaf : Leaf

/-- The tables of a selection. -/
def SelectOf.tables {N R : Type} (s : SelectOf N R) : List (TableOf R) :=
  s.table :: s.joins.map (·.table)

mutual

/-- The columns, the selections and the fixed placeholders in a node. -/
def Node.occurrences (around : List Level) : Node → Multiset Occurrence
  | .column aliasName name _ => {⟨around, .column aliasName name⟩}
  | .bound _ _ name _ => (name.map fun n => {⟨around, .fixed n⟩}).getD 0
  | .binary _ left right _ => left.occurrences around + right.occurrences around
  | .unary _ operand _ | .isNull operand _ | .group operand => operand.occurrences around
  | .call _ args _ => nodesOccurrences around args
  | .case branches otherwise _ => branchOccurrences around branches + otherwise.occurrences around
  | .inList operand items _ => operand.occurrences around + nodesOccurrences around items
  | .inQuery operand query _ => operand.occurrences around + selectOccurrences around query
  | .exists query _ | .subquery query _ => selectOccurrences around query
  | .literal .. | .raw .. | .null => 0

/-- The occurrences in several nodes. -/
def nodesOccurrences (around : List Level) : List Node → Multiset Occurrence
  | [] => 0
  | n :: rest => n.occurrences around + nodesOccurrences around rest

/-- The occurrences in the branches of a choice. -/
def branchOccurrences (around : List Level) : List (Node × Node) → Multiset Occurrence
  | [] => 0
  | (test, value) :: rest =>
    test.occurrences around + value.occurrences around + branchOccurrences around rest

/-- The occurrences in a node that may be missing. -/
def optionOccurrences (around : List Level) : Option Node → Multiset Occurrence
  | none => 0
  | some n => n.occurrences around

/-- The occurrences in sort keys. -/
def orderOccurrences (around : List Level) : List (Node × Bool) → Multiset Occurrence
  | [] => 0
  | (n, _) :: rest => n.occurrences around + orderOccurrences around rest

/-- The occurrences in selected expressions. -/
def columnOccurrences (around : List Level) : List (SelectedOf Node) → Multiset Occurrence
  | [] => 0
  | ⟨n, _⟩ :: rest => n.occurrences around + columnOccurrences around rest

/-- The occurrences in what a selection reads from. -/
def rowsOccurrences (around : List Level) : Rows → Multiset Occurrence
  | .named .. => 0
  | .derived query => selectOccurrences around query

/-- The occurrences in a table. -/
def tableOccurrences (around : List Level) : TableOf Rows → Multiset Occurrence
  | ⟨rows, _⟩ => rowsOccurrences around rows

/-- The occurrences in joined tables, whose rows do not see the other tables of the selection. -/
def joinOccurrences (around inside : List Level) : List (JoinedOf Node Rows) → Multiset Occurrence
  | [] => 0
  | ⟨_, table, on⟩ :: rest =>
    tableOccurrences around table + on.occurrences inside + joinOccurrences around inside rest

/-- The occurrences in a selection, and the selection itself. -/
def selectOccurrences (around : List Level) : SelectOf Node Rows → Multiset Occurrence
  | ⟨_, columns, table, joins, filter, groupBy, having, orderBy, _, _, _, deferred⟩ =>
    let tables := table :: joins.map (·.table)
    let inside := ⟨tables, false⟩ :: around
    {⟨inside, .selection⟩} + columnOccurrences (⟨tables, !deferred.isEmpty⟩ :: around) columns +
      tableOccurrences around table + joinOccurrences around inside joins +
      optionOccurrences inside filter + nodesOccurrences inside groupBy +
      optionOccurrences inside having + orderOccurrences inside orderBy

end

/-! ## Several nodes -/

section Several

variable {around : List Level}

/-- The occurrences in several nodes are those in each of them. -/
theorem nodesOccurrences_eq (ns : List Node) :
    nodesOccurrences around ns = (ns.map (·.occurrences around)).sum := by
  induction ns with
  | nil => rfl
  | cons n rest ih => rw [nodesOccurrences, ih, List.map_cons, List.sum_cons]

/-- No nodes have no occurrences. -/
@[simp]
theorem nodesOccurrences_nil : nodesOccurrences around [] = 0 := rfl

/-- The occurrences of nodes are those of the first and those of the others. -/
@[simp]
theorem nodesOccurrences_cons (n : Node) (ns : List Node) :
    nodesOccurrences around (n :: ns) = n.occurrences around + nodesOccurrences around ns := rfl

/-- The occurrences of two lists of nodes are added. -/
@[simp]
theorem nodesOccurrences_append (ns ms : List Node) :
    nodesOccurrences around (ns ++ ms) = nodesOccurrences around ns + nodesOccurrences around ms := by
  simp only [nodesOccurrences_eq, List.map_append, List.sum_append]

/-- An occurrence in some nodes is one in one of them. -/
theorem mem_nodesOccurrences {ns : List Node} {o : Occurrence} :
    o ∈ nodesOccurrences around ns ↔ ∃ n ∈ ns, o ∈ n.occurrences around := by
  induction ns with
  | nil => simp [nodesOccurrences]
  | cons n rest ih => simp [nodesOccurrences, ih]

/-- Nodes have all the occurrences of each of them. -/
theorem occurrences_le_of_mem {ns : List Node} {n : Node} (h : n ∈ ns) :
    n.occurrences around ≤ nodesOccurrences around ns := by
  obtain ⟨before, after, rfl⟩ := List.append_of_mem h
  rw [nodesOccurrences_append, nodesOccurrences_cons]
  exact le_add_left (le_add_right le_rfl)

/-- Fewer nodes have fewer occurrences. -/
theorem nodesOccurrences_sublist {ns ms : List Node} (h : ns.Sublist ms) :
    nodesOccurrences around ns ≤ nodesOccurrences around ms := by
  induction h with
  | slnil => exact le_rfl
  | cons n _ ih => exact le_add_left ih
  | cons_cons n _ ih => exact add_le_add le_rfl ih

/-- Branches have the occurrences of their conditions and outcomes. -/
theorem branchOccurrences_eq (branches : List (Node × Node)) :
    branchOccurrences around branches =
      nodesOccurrences around (branches.flatMap fun b => [b.1, b.2]) := by
  induction branches with
  | nil => rfl
  | cons b rest ih =>
    rw [branchOccurrences, ih, List.flatMap_cons, nodesOccurrences_append, nodesOccurrences_cons,
      nodesOccurrences_cons, nodesOccurrences_nil, add_zero]

/-- An order has the occurrences of its keys. -/
theorem orderOccurrences_eq (keys : List (Node × Bool)) :
    orderOccurrences around keys = nodesOccurrences around (keys.map Prod.fst) := by
  induction keys with
  | nil => rfl
  | cons k rest ih => rw [orderOccurrences, ih]; rfl

/-- A select list has the occurrences of its nodes. -/
theorem columnOccurrences_eq (columns : List Selected) :
    columnOccurrences around columns = nodesOccurrences around (columns.map (·.node)) := by
  induction columns with
  | nil => rfl
  | cons c rest ih => rw [columnOccurrences, ih]; rfl

/-- An optional node has its occurrences where it is there. -/
theorem optionOccurrences_eq (n? : Option Node) :
    optionOccurrences around n? = nodesOccurrences around n?.toList := by
  cases n? with
  | none => rfl
  | some n => rw [optionOccurrences, Option.toList_some, nodesOccurrences_cons,
      nodesOccurrences_nil, add_zero]

end Several

/-! ## What is around -/

mutual

/-- What stands in a node stands inside all that is around the node. -/
theorem Node.around_of_mem {around : List Level} {o : Occurrence} :
    ∀ n : Node, o ∈ n.occurrences around → ∃ inner, o.around = inner ++ around
  | .column .., h | .bound _ _ (some _) _, h => ⟨[], by rw [Multiset.mem_singleton.mp h]; rfl⟩
  | .binary _ left right _, h => (Multiset.mem_add.mp h).elim left.around_of_mem right.around_of_mem
  | .unary _ operand _, h | .isNull operand _, h | .group operand, h => operand.around_of_mem h
  | .call _ args _, h => around_of_mem_nodes args h
  | .case branches otherwise _, h =>
    (Multiset.mem_add.mp h).elim (around_of_mem_branches branches) otherwise.around_of_mem
  | .inList operand items _, h =>
    (Multiset.mem_add.mp h).elim operand.around_of_mem (around_of_mem_nodes items)
  | .inQuery operand query _, h =>
    (Multiset.mem_add.mp h).elim operand.around_of_mem (around_of_mem_select query)
  | .exists query _, h | .subquery query _, h => around_of_mem_select query h
  | .literal .., h | .bound _ _ none _, h | .raw .., h | .null, h => absurd h (Multiset.notMem_zero _)

/-- An occurrence in nodes stands inside the levels around the nodes. -/
theorem around_of_mem_nodes {around : List Level} {o : Occurrence} :
    ∀ ns : List Node, o ∈ nodesOccurrences around ns → ∃ inner, o.around = inner ++ around
  | [], h => absurd h (Multiset.notMem_zero _)
  | n :: rest, h => (Multiset.mem_add.mp h).elim n.around_of_mem (around_of_mem_nodes rest)

/-- What occurs in branches is inside of what is around the branches. -/
private theorem around_of_mem_branches {around : List Level} {o : Occurrence} :
    ∀ bs : List (Node × Node), o ∈ branchOccurrences around bs → ∃ inner, o.around = inner ++ around
  | [], h => absurd h (Multiset.notMem_zero _)
  | (test, value) :: rest, h => by
    simp only [branchOccurrences, Multiset.mem_add] at h
    obtain (h | h) | h := h
    · exact test.around_of_mem h
    · exact value.around_of_mem h
    · exact around_of_mem_branches rest h

/-- What occurs in a node that may be missing is inside of what is around it. -/
private theorem around_of_mem_option {around : List Level} {o : Occurrence} :
    ∀ n? : Option Node, o ∈ optionOccurrences around n? → ∃ inner, o.around = inner ++ around
  | none, h => absurd h (Multiset.notMem_zero _)
  | some n, h => n.around_of_mem h

/-- What occurs in sort keys is inside of what is around them. -/
private theorem around_of_mem_order {around : List Level} {o : Occurrence} :
    ∀ ks : List (Node × Bool), o ∈ orderOccurrences around ks → ∃ inner, o.around = inner ++ around
  | [], h => absurd h (Multiset.notMem_zero _)
  | (n, _) :: rest, h => (Multiset.mem_add.mp h).elim n.around_of_mem (around_of_mem_order rest)

/-- What occurs in selected columns is inside of what is around them. -/
private theorem around_of_mem_columns {around : List Level} {o : Occurrence} :
    ∀ cs : List (SelectedOf Node), o ∈ columnOccurrences around cs → ∃ inner, o.around = inner ++ around
  | [], h => absurd h (Multiset.notMem_zero _)
  | ⟨n, _⟩ :: rest, h => (Multiset.mem_add.mp h).elim n.around_of_mem (around_of_mem_columns rest)

/-- What occurs in the rows of a table is inside of what is around them. -/
private theorem around_of_mem_rows {around : List Level} {o : Occurrence} :
    ∀ r : Rows, o ∈ rowsOccurrences around r → ∃ inner, o.around = inner ++ around
  | .named .., h => absurd h (Multiset.notMem_zero _)
  | .derived query, h => around_of_mem_select query h

/-- What occurs in a table is inside of what is around it. -/
private theorem around_of_mem_table {around : List Level} {o : Occurrence} :
    ∀ t : TableOf Rows, o ∈ tableOccurrences around t → ∃ inner, o.around = inner ++ around
  | ⟨rows, _⟩, h => around_of_mem_rows rows h

/-- What occurs in joins is inside of what is around the selection. -/
private theorem around_of_mem_joins {around : List Level} {l : Level} {o : Occurrence} :
    ∀ js : List (JoinedOf Node Rows), o ∈ joinOccurrences around (l :: around) js →
      ∃ inner, o.around = inner ++ around
  | [], h => absurd h (Multiset.notMem_zero _)
  | ⟨_, table, on⟩ :: rest, h => by
    simp only [joinOccurrences, Multiset.mem_add] at h
    obtain (h | h) | h := h
    · exact around_of_mem_table table h
    · obtain ⟨inner, h⟩ := on.around_of_mem h
      exact ⟨inner ++ [l], by rw [h, List.append_assoc, List.singleton_append]⟩
    · exact around_of_mem_joins rest h

/-- What occurs in a selection is inside of what is around it. -/
private theorem around_of_mem_select {around : List Level} {o : Occurrence} :
    ∀ s : SelectOf Node Rows, o ∈ selectOccurrences around s → ∃ inner, o.around = inner ++ around
  | ⟨_, columns, table, joins, filter, groupBy, having, orderBy, _, _, _, deferred⟩, h => by
    have deeper {l : Level} (h : ∃ inner, o.around = inner ++ l :: around) :
        ∃ inner, o.around = inner ++ around := by
      obtain ⟨inner, h⟩ := h
      exact ⟨inner ++ [l], by rw [h, List.append_assoc, List.singleton_append]⟩
    simp only [selectOccurrences, Multiset.mem_add, Multiset.mem_singleton] at h
    obtain ((((((h | h) | h) | h) | h) | h) | h) | h := h
    · exact ⟨[_], by rw [h]; rfl⟩
    · exact deeper (around_of_mem_columns columns h)
    · exact around_of_mem_table table h
    · exact around_of_mem_joins joins h
    · exact deeper (around_of_mem_option filter h)
    · exact deeper (around_of_mem_nodes groupBy h)
    · exact deeper (around_of_mem_option having h)
    · exact deeper (around_of_mem_order orderBy h)

end

/-! ## What an alias means -/

/-- The place of a table: how many selections are around its own, and its position among the tables of
that one. -/
structure Seat where
  depth : Nat
  index : Nat
deriving DecidableEq, Repr

/-- A column of the table at a seat. -/
structure Reference where
  seat : Seat
  column : String
deriving DecidableEq, Repr

/-- Whether a table has an alias. -/
def hasAlias (aliasName : String) (t : Table) : Bool := t.aliasName == some aliasName

/-- The table that an alias means: the one of that alias in the innermost selection that has one. -/
def seatOf (aliasName : String) : List Level → Option Seat
  | [] => none
  | l :: outer =>
    match l.tables.findIdx? (hasAlias aliasName) with
    | some i => some ⟨outer.length, i⟩
    | none => seatOf aliasName outer

/-- The aliases of the tables of several selections. -/
def aliases (around : List Level) : List String :=
  around.flatMap fun l => l.tables.filterMap (·.aliasName)

/-- What a column means, if anything; there is no answer for what is no column, and for a column that
is selected beside projected expressions left for evaluation after fetching. -/
def Occurrence.denoted? (o : Occurrence) : Option (Option Reference) :=
  if o.around.any (·.deferring) then none
  else
    match o.leaf with
    | .column aliasName name => some ((aliasName.bind (seatOf · o.around)).map (⟨·, name⟩))
    | .fixed _ | .selection => none

/-- The aliases of a level come before those of the levels around it. -/
@[simp]
theorem aliases_cons (l : Level) (around : List Level) :
    aliases (l :: around) = l.tables.filterMap (·.aliasName) ++ aliases around := rfl

/-- The aliases of inner levels come before those of outer ones. -/
@[simp]
theorem aliases_append (inner around : List Level) :
    aliases (inner ++ around) = aliases inner ++ aliases around := by
  simp only [aliases, List.flatMap_append]

/-- An alias that means a table is the alias of one. -/
theorem mem_aliases_of_seatOf {aliasName : String} {around : List Level} {seat : Seat}
    (h : seatOf aliasName around = some seat) : aliasName ∈ aliases around := by
  induction around with
  | nil => cases h
  | cons l outer ih =>
    rw [aliases_cons, List.mem_append]
    unfold seatOf at h
    split at h
    · next i hi =>
      obtain ⟨hlt, hhas, -⟩ := List.findIdx?_eq_some_iff_getElem.mp hi
      exact .inl (List.mem_filterMap.mpr ⟨l.tables[i], List.getElem_mem hlt, beq_iff_eq.mp hhas⟩)
    · exact .inr (ih h)

/-- An alias that none of the inner selections has means what it means outside of them. -/
theorem seatOf_append {aliasName : String} {inner around : List Level}
    (h : aliasName ∉ aliases inner) : seatOf aliasName (inner ++ around) = seatOf aliasName around := by
  induction inner with
  | nil => rfl
  | cons l outer ih =>
    rw [aliases_cons, List.mem_append, not_or] at h
    rw [List.cons_append, seatOf]
    have hnone : l.tables.findIdx? (hasAlias aliasName) = none := by
      rw [List.findIdx?_eq_none_iff]
      intro t ht
      rw [hasAlias, beq_eq_false_iff_ne]
      intro halias
      exact h.1 (List.mem_filterMap.mpr ⟨t, ht, halias⟩)
    rw [hnone]
    exact ih h.2

end LambdaSql
