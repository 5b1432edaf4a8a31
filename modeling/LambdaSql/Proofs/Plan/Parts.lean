import LambdaSql.Sql.Node
import LambdaSql.Statement.Basic
import Mathlib.Data.List.Basic

/-!
# Parts of expressions and of nodes

Expressions and queries contain each other, and so do nodes and selections. Here are all expressions that stand in an
expression, in a query or in a statement, and all nodes that stand in a node or in a selection, to any depth.

## Main definitions

* `Expr.parts`, `queryParts`, `Statement.parts` - the expressions within an expression, a query and a statement.
* `Node.subnodes`, `selectSubnodes` - the nodes within a node and within a selection.
* `Node.Every`, `SelectOf.Every`, `Rows.Every` - all nodes within have a property.

## Main results

* `Node.every_binary`, `Node.every_call` and their neighbours - a node has what it is made of.
* `SelectOf.every_iff` - the nodes within a selection are those within its clauses.
-/

namespace LambdaSql

/-! ## Expressions -/

mutual

/-- The expressions within an expression, itself included. -/
def Expr.parts : Expr → List Expr
  | e@(.lambda _ operand) | e@(.member operand _) | e@(.unary _ operand) | e@(.convert operand _) => e :: operand.parts
  | e@(.call (some target) _ _ args) => e :: (target.parts ++ itemsParts args)
  | e@(.call none _ _ args) => e :: itemsParts args
  | e@(.binary _ left right) => e :: (left.parts ++ right.parts)
  | e@(.conditional test ifTrue ifFalse) => e :: (test.parts ++ (ifTrue.parts ++ ifFalse.parts))
  | e@(.object members) => e :: membersParts members
  | e@(.array items) => e :: itemsParts items
  | e@(.query q) => e :: queryParts q
  | e@(.param _) | e@(.static ..) | e@(.constant _) | e@(.captured ..) => [e]

/-- The expressions within several expressions. -/
def itemsParts : List Expr → List Expr
  | [] => []
  | e :: rest => e.parts ++ itemsParts rest

/-- The expressions within the members of an object. -/
def membersParts : List (String × Expr) → List Expr
  | [] => []
  | (_, e) :: rest => e.parts ++ membersParts rest

/-- The expressions within the tests of a clause. -/
def testsParts : List (LambdaOf Expr) → List Expr
  | [] => []
  | ⟨_, body⟩ :: rest => body.parts ++ testsParts rest

/-- The expressions within sort keys. -/
def orderParts : List (LambdaOf Expr × Bool) → List Expr
  | [] => []
  | (⟨_, body⟩, _) :: rest => body.parts ++ orderParts rest

/-- The expressions within joins. -/
def joinsParts : List (JoinOf Expr Source) → List Expr
  | [] => []
  | ⟨_, source, ⟨_, body⟩, _⟩ :: rest => source.parts ++ (body.parts ++ joinsParts rest)

/-- The expressions within a grouping. -/
def keysParts : Option (LambdaOf Expr) → List Expr
  | none => []
  | some ⟨_, body⟩ => body.parts

/-- The expressions within a projection. -/
def projectionParts : Option (ProjectionOf Expr) → List Expr
  | none => []
  | some (.select ⟨_, body⟩) | some (.flatten ⟨_, body⟩) => body.parts

/-- The expressions within a query. -/
def queryParts : QueryOf Expr Source → List Expr
  | ⟨source, _, joins, filters, groupBy, having, orderBy, projection, _, _, _⟩ =>
    source.parts ++ (joinsParts joins ++ (testsParts filters ++ (keysParts groupBy ++ (testsParts having ++
      (orderParts orderBy ++ projectionParts projection)))))

/-- The expressions within what a query reads from. -/
def Source.parts : Source → List Expr
  | .entity _ | .selfRef _ => []
  | .derived q => queryParts q
  | .cte ⟨_, _, anchor, union, _⟩ => queryParts anchor ++ unionParts union

/-- The expressions within the second query of a common table expression. -/
def unionParts : Option (QueryOf Expr Source) → List Expr
  | none => []
  | some q => queryParts q

end

namespace Expr

/-- An expression is one of its parts. -/
theorem mem_parts_self (e : Expr) : e ∈ e.parts := by
  cases e with
  | call target _ _ _ => cases target <;> exact List.mem_cons_self
  | _ => exact List.mem_cons_self

/-- What an expression converts is one of its parts. -/
theorem withoutConversions_mem_parts (e : Expr) : e.withoutConversions ∈ e.parts := by
  induction e using withoutConversions.induct with
  | case1 operand _ ih => exact List.mem_cons_of_mem _ ih
  | case2 e h =>
    rw [withoutConversions]
    · exact e.mem_parts_self
    · exact h

/-- The body of an expression as a lambda is a part of it. -/
theorem parts_toLambda_subset (e : Expr) : e.toLambda.body.parts ⊆ e.parts := by
  cases e with
  | lambda params body => exact List.subset_cons_of_subset _ (List.Subset.refl _)
  | _ => exact List.Subset.refl _

end Expr

/-- The expressions within an assignment. -/
def Assignment.parts : Assignment → List Expr
  | .lambda l => l.body.parts
  | .field _ e => e.parts
  | .value .. | .object _ => []

/-- The expressions within a statement. -/
def Statement.parts : Statement → List Expr
  | .select q => queryParts q
  | .update u => u.assignments.flatMap Assignment.parts ++ (joinsParts u.joins ++ testsParts u.filters)
  | .delete s => testsParts s.filters

/-! ## Nodes -/

mutual

/-- The nodes within a node, itself included. -/
def Node.subnodes : Node → List Node
  | n@(.binary _ left right _) => n :: (left.subnodes ++ right.subnodes)
  | n@(.unary _ operand _) | n@(.isNull operand _) | n@(.group operand) => n :: operand.subnodes
  | n@(.call _ args _) => n :: listSubnodes args
  | n@(.case branches otherwise _) => n :: (branchSubnodes branches ++ otherwise.subnodes)
  | n@(.inList operand items _) => n :: (operand.subnodes ++ listSubnodes items)
  | n@(.inQuery operand query _) => n :: (operand.subnodes ++ selectSubnodes query)
  | n@(.exists query _) | n@(.subquery query _) => n :: selectSubnodes query
  | n@(.literal ..) | n@(.bound ..) | n@(.column ..) | n@(.raw ..) | n@(.null) => [n]

/-- The nodes within several nodes. -/
def listSubnodes : List Node → List Node
  | [] => []
  | n :: rest => n.subnodes ++ listSubnodes rest

/-- The nodes within the branches of a choice. -/
def branchSubnodes : List (Node × Node) → List Node
  | [] => []
  | (test, value) :: rest => test.subnodes ++ (value.subnodes ++ branchSubnodes rest)

/-- The nodes within a node that may be missing. -/
def optionSubnodes : Option Node → List Node
  | none => []
  | some n => n.subnodes

/-- The nodes within sort keys. -/
def orderSubnodes : List (Node × Bool) → List Node
  | [] => []
  | (n, _) :: rest => n.subnodes ++ orderSubnodes rest

/-- The nodes within selected expressions. -/
def columnSubnodes : List (SelectedOf Node) → List Node
  | [] => []
  | ⟨n, _⟩ :: rest => n.subnodes ++ columnSubnodes rest

/-- The nodes within what a selection reads from. -/
def rowsSubnodes : Rows → List Node
  | .named .. => []
  | .derived query => selectSubnodes query

/-- The nodes within a table. -/
def tableSubnodes : TableOf Rows → List Node
  | ⟨rows, _⟩ => rowsSubnodes rows

/-- The nodes within joined tables. -/
def joinSubnodes : List (JoinedOf Node Rows) → List Node
  | [] => []
  | ⟨_, table, on⟩ :: rest => tableSubnodes table ++ (on.subnodes ++ joinSubnodes rest)

/-- The nodes within a selection. -/
def selectSubnodes : SelectOf Node Rows → List Node
  | ⟨_, columns, table, joins, filter, groupBy, having, orderBy, _, _, _, _⟩ =>
    columnSubnodes columns ++ (tableSubnodes table ++ (joinSubnodes joins ++ (optionSubnodes filter ++
      (listSubnodes groupBy ++ (optionSubnodes having ++ orderSubnodes orderBy)))))

end

/-- All nodes within a node have a property. -/
def Node.Every (R : Node → Prop) (n : Node) : Prop := ∀ x ∈ n.subnodes, R x

/-- All nodes within what a selection reads from have a property. -/
def Rows.Every (R : Node → Prop) (r : Rows) : Prop := ∀ x ∈ rowsSubnodes r, R x

/-- All nodes within a selection have a property. -/
def SelectOf.Every (R : Node → Prop) (s : Select) : Prop := ∀ x ∈ selectSubnodes s, R x

variable {R : Node → Prop}

attribute [local simp] Node.subnodes listSubnodes branchSubnodes optionSubnodes orderSubnodes columnSubnodes
  tableSubnodes joinSubnodes selectSubnodes

section Lists

/-- All nodes within a list have a property if those within each of it do. -/
private theorem every_list {ns : List Node} : (∀ x ∈ listSubnodes ns, R x) ↔ ∀ n ∈ ns, n.Every R := by
  induction ns with
  | nil => simp [listSubnodes]
  | cons n rest ih => simp only [listSubnodes, List.forall_mem_append, List.forall_mem_cons, ih, Node.Every]

/-- What holds in every part of branches holds in every part of their conditions and outcomes. -/
theorem every_branches {bs : List (Node × Node)} :
    (∀ x ∈ branchSubnodes bs, R x) ↔ ∀ b ∈ bs, b.1.Every R ∧ b.2.Every R := by
  induction bs with
  | nil => simp [branchSubnodes]
  | cons b rest ih =>
    simp only [branchSubnodes, List.forall_mem_append, List.forall_mem_cons, ih, Node.Every, and_assoc]

/-- What holds in every part of an optional node holds in every part of the node. -/
theorem every_option {n? : Option Node} : (∀ x ∈ optionSubnodes n?, R x) ↔ ∀ n, n? = some n → n.Every R := by
  cases n? <;> simp [optionSubnodes, Node.Every]

/-- All nodes within sort keys have a property if those within each key do. -/
private theorem every_order {ks : List (Node × Bool)} : (∀ x ∈ orderSubnodes ks, R x) ↔ ∀ k ∈ ks, k.1.Every R := by
  induction ks with
  | nil => simp [orderSubnodes]
  | cons k rest ih => simp only [orderSubnodes, List.forall_mem_append, List.forall_mem_cons, ih, Node.Every]

/-- All nodes within columns have a property if those within each column do. -/
private theorem every_columns {cs : List Selected} : (∀ x ∈ columnSubnodes cs, R x) ↔ ∀ c ∈ cs, c.node.Every R := by
  induction cs with
  | nil => simp [columnSubnodes]
  | cons c rest ih => simp only [columnSubnodes, List.forall_mem_append, List.forall_mem_cons, ih, Node.Every]

/-- What holds in every part of joins holds in every part of their rows and conditions. -/
theorem every_joins {js : List Joined} :
    (∀ x ∈ joinSubnodes js, R x) ↔ ∀ j ∈ js, j.table.rows.Every R ∧ j.on.Every R := by
  induction js with
  | nil => simp [joinSubnodes]
  | cons j rest ih =>
    obtain ⟨_, ⟨rows, _⟩, on⟩ := j
    simp only [joinSubnodes, tableSubnodes, List.forall_mem_append, List.forall_mem_cons, ih, Node.Every, Rows.Every,
      and_assoc]

end Lists

namespace Node

variable {n l r : Node} {ns : List Node}

section Constructors

/-- A literal is its only part. -/
theorem every_literal {sql : String} {v : Value} {t : HostType} : (literal sql v t).Every R ↔ R (.literal sql v t) := by
  simp [Every, subnodes]

/-- A bound value is its only part. -/
theorem every_bound {v : Value} {native : NativeType} {name : Option String} {t : HostType} :
    (bound v native name t).Every R ↔ R (.bound v native name t) := by simp [Every, subnodes]

/-- A column is its only part. -/
theorem every_column {aliasName : Option String} {name : String} {t : HostType} :
    (column aliasName name t).Every R ↔ R (.column aliasName name t) := by simp [Every, subnodes]

/-- A fixed text is its only part. -/
theorem every_raw {text : String} {t : HostType} : (raw text t).Every R ↔ R (.raw text t) := by simp [Every, subnodes]

/-- The null is its only part. -/
theorem every_null : Node.null.Every R ↔ R .null := by simp [Every, subnodes]

/-- The parts of a binary operation are it and those of its two sides. -/
theorem every_binary {op : SqlOp} {t : HostType} :
    (binary op l r t).Every R ↔ R (.binary op l r t) ∧ l.Every R ∧ r.Every R := by
  simp only [Every, subnodes, List.forall_mem_cons, List.forall_mem_append]

/-- The parts of a unary operation are it and those of its operand. -/
theorem every_unary {op : SqlUnaryOp} {t : HostType} : (unary op n t).Every R ↔ R (.unary op n t) ∧ n.Every R := by
  simp [Every, subnodes]

/-- The parts of a test for null are it and those of what it tests. -/
theorem every_isNull {negated : Bool} : (isNull n negated).Every R ↔ R (.isNull n negated) ∧ n.Every R := by
  simp [Every, subnodes]

/-- The parts of a node in parentheses are it and those of the node. -/
theorem every_group : (group n).Every R ↔ R (.group n) ∧ n.Every R := by simp [Every, subnodes]

/-- The parts of a call are it and those of its arguments. -/
theorem every_call {f : SqlFunction} {t : HostType} :
    (call f ns t).Every R ↔ R (.call f ns t) ∧ ∀ n ∈ ns, n.Every R := by
  simp only [Every, subnodes, List.forall_mem_cons, every_list]

/-- The parts of a choice are it and those of its conditions and outcomes. -/
theorem every_case {bs : List (Node × Node)} {t : HostType} :
    (case bs n t).Every R ↔ R (.case bs n t) ∧ (∀ b ∈ bs, b.1.Every R ∧ b.2.Every R) ∧ n.Every R := by
  simp only [Every, subnodes, List.forall_mem_cons, List.forall_mem_append, every_branches]

/-- The parts of a membership test are it and those of the item and the list. -/
theorem every_inList {negated : Bool} :
    (inList n ns negated).Every R ↔ R (.inList n ns negated) ∧ n.Every R ∧ ∀ m ∈ ns, m.Every R := by
  simp only [Every, subnodes, List.forall_mem_cons, List.forall_mem_append, every_list]

/-- The parts of membership in a query are it and those of the item and the query. -/
theorem every_inQuery {s : Select} {negated : Bool} :
    (inQuery n s negated).Every R ↔ R (.inQuery n s negated) ∧ n.Every R ∧ s.Every R := by
  simp only [Every, SelectOf.Every, subnodes, List.forall_mem_cons, List.forall_mem_append]

/-- The parts of a test for rows are it and those of the query. -/
theorem every_exists {s : Select} {negated : Bool} :
    (Node.exists s negated).Every R ↔ R (.exists s negated) ∧ s.Every R := by
  simp [Every, SelectOf.Every, subnodes]

/-- The parts of a subquery are it and those of the query. -/
theorem every_subquery {s : Select} {t : HostType} : (subquery s t).Every R ↔ R (.subquery s t) ∧ s.Every R := by
  simp [Every, SelectOf.Every, subnodes]

end Constructors

end Node

/-- The parts of derived rows are those of the query. -/
theorem Rows.every_derived {s : Select} : (Rows.derived s).Every R ↔ s.Every R := Iff.rfl

/-- Named rows have no parts. -/
theorem Rows.every_named (name : String) (schema : Option String) : (Rows.named name schema).Every R := nofun

/-- The nodes within a selection are those within its clauses. -/
theorem SelectOf.every_iff {s : Select} : s.Every R ↔
    (∀ c ∈ s.columns, c.node.Every R) ∧ s.table.rows.Every R ∧
      (∀ j ∈ s.joins, j.table.rows.Every R ∧ j.on.Every R) ∧ (∀ n, s.filter = some n → n.Every R) ∧
      (∀ n ∈ s.groupBy, n.Every R) ∧ (∀ n, s.having = some n → n.Every R) ∧ ∀ k ∈ s.orderBy, k.1.Every R := by
  obtain ⟨_, columns, ⟨rows, _⟩, joins, filter, groupBy, having, orderBy, _, _, _, _⟩ := s
  simp only [SelectOf.Every, selectSubnodes, tableSubnodes, List.forall_mem_append, every_columns, every_joins,
    every_option, every_list, every_order, Rows.Every]

end LambdaSql
