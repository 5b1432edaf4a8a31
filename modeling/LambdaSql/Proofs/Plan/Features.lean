import LambdaSql.Proofs.Plan.Composed
import LambdaSql.Proofs.Plan.Keeping
import LambdaSql.Proofs.Plan.Parts

/-!
# Features of what is planned

A node is planned of written values, of bound ones, of columns, and of other nodes, put together by operators. So a
property of nodes that survives what operators do is one of all nodes that are planned, also of those within common
table expressions that were planned for a projection which then was left for evaluation after fetching. Which values
are bound, and which faults evaluation comes upon, depends on the expressions that are planned.

## Main definitions

* `Binding.Reads` - the nodes that are read from a binding.
* `SelectOf.PartsHave` - the parts of a selection have properties.
* `Feature` - properties of nodes, selections and rows that planning spreads.
* `Planning.Spreads`, `Operand.Spreads` - planning of expressions, and all that it gives has a feature.
* `Node.Local`, `Feature.every` - a property of single nodes as a feature: all nodes within have it.

## Main results

* `Feature.scope.binding`, `Feature.scope.under` - what parameters stand for.
* `Node.Local.composable` - operators preserve that all nodes within have a property.
-/

namespace LambdaSql

open Planning

/-! ## Types -/

namespace HostType

/-- Everything can be compared with a truth value. -/
private theorem comparable_bool (t : HostType) : t.comparable .bool = .ok () := by cases t <;> rfl

/-- Each type can be compared with an unknown one. -/
theorem comparable_unknown (t : HostType) : t.comparable .unknown = .ok () := by cases t <;> rfl

/-- Each type can be compared with itself. -/
theorem comparable_self (t : HostType) : t.comparable t = .ok () := by
  cases t with
  | enum name => exact if_pos rfl
  | _ => rfl

end HostType

/-! ## Bindings -/

/-- The nodes that are read from a binding. -/
inductive Binding.Reads : Binding → Node → Prop
  | column {t : TableBinding} {member : String} {n : Node} :
    t.column member = .ok n → Reads (.table t) n
  | row {t : TableBinding} {name : String} {n : Node} : (name, n) ∈ t.columns → Reads (.table t) n
  | key {g : Grouping} {name : String} {n : Node} : (name, n) ∈ g.keys → Reads (.grouping g) n

/-- A key that a grouping gives is found among its keys. -/
theorem Grouping.lookup_of_key {g : Grouping} {name : String} {n : Node} (h : g.key name = .ok n) :
    g.keys.lookup name = some n := by
  unfold Grouping.key at h
  split at h
  · next heq =>
    cases h
    exact heq
  · cases h

/-- A key that is found is one of the keys. -/
theorem Grouping.mem_of_lookup {g : Grouping} {name : String} {n : Node}
    (h : g.keys.lookup name = some n) : (name, n) ∈ g.keys := by
  obtain ⟨before, after, heq, -⟩ := List.lookup_eq_some_iff.mp h
  rw [heq]
  exact List.mem_append_right before List.mem_cons_self

/-- A grouping with a single key has this key only. -/
theorem Grouping.keys_of_singleKey {g : Grouping} {n : Node} (h : g.singleKey = .ok n) :
    ∃ name, g.keys = [(name, n)] := by
  unfold Grouping.singleKey at h
  split at h
  · next name m heq =>
    cases h
    exact ⟨name, heq⟩
  · cases h

/-- Whatever is read from a table is one of its columns. -/
theorem TableBinding.reads_column {t : TableBinding} {n : Node} (h : (Binding.table t).Reads n) :
    ∃ name type, n = .column t.aliasName name type := by
  cases h with
  | @column _ member _ hn =>
    unfold TableBinding.column at hn
    split at hn
    · next e _ =>
      cases hf : e.field member with
      | error err =>
        rw [hf] at hn
        cases hn
      | ok f =>
        rw [hf] at hn
        cases hn
        exact ⟨_, _, rfl⟩
    · split at hn
      · cases hn
        exact ⟨_, _, rfl⟩
      · cases hn
  | @row _ name _ hn =>
    unfold TableBinding.columns at hn
    split at hn
    all_goals
      obtain ⟨_, _, heq⟩ := List.mem_map.mp hn
      cases heq
      exact ⟨_, _, rfl⟩

/-! ## Features -/

/-- The parts of a selection have properties. -/
structure SelectOf.PartsHave (N : Node → Prop) (R : Rows → Prop) (s : Select) : Prop where
  columns : ∀ c ∈ s.columns, N c.node
  table : R s.table.rows
  joins : ∀ j ∈ s.joins, R j.table.rows ∧ N j.on
  filter : ∀ n, s.filter = some n → N n
  groupBy : ∀ n ∈ s.groupBy, N n
  having : ∀ n, s.having = some n → N n
  orderBy : ∀ k ∈ s.orderBy, N k.1

/-- Properties of nodes, of selections and of what they read from that planning spreads, as long as it plans
expressions with a property; and a property of the faults that evaluating these comes upon. -/
structure Feature where
  admits : Expr → Prop
  node : Node → Prop
  select : Select → Prop
  rows : Rows → Prop
  fault : Fault → Prop
  composable : Node.Composable node
  branches : ∀ {bs n t}, node (.case bs n t) → (∀ b ∈ bs, node b.1 ∧ node b.2) ∧ node n
  column : ∀ {aliasName name t}, node (.column (some aliasName) name t)
  captured : ∀ {e : Expr} {t : TranslationTable} {v : Value}, (∀ x ∈ e.parts, admits x) → e.origin t = .captured →
    node (.parameter v)
  valued : ∀ {s t}, select s → node (.subquery s t)
  searched : ∀ {n s negated}, node n → select s → node (.inQuery n s negated)
  tested : ∀ {s negated}, select s → node (.exists s negated)
  counted : ∀ {s negated}, select s → node (.exists (Lowering.withoutColumns s) negated)
  named : ∀ {name schema}, rows (.named name schema)
  derived : ∀ {s}, select s → rows (.derived s)
  planned : ∀ {s}, s.PartsHave node rows → select s
  evaluated : ∀ {e f}, admits e → Host.value e = .error (.fault f) → fault f

namespace Feature

variable (F : Feature)

/-- Whatever is read from a table has the feature. -/
def table (t : TableBinding) : Prop := ∀ n, (Binding.table t).Reads n → F.node n

/-- Whatever is read from a binding has the feature, also inside the aggregates of a grouping. -/
def binding : Binding → Prop
  | .table t => F.table t
  | .grouping g => (∀ k ∈ g.keys, F.node k.2) ∧ ∀ t ∈ g.elements, F.table t

/-- Whatever the parameters of the enclosing lambdas stand for has the feature. -/
def scope (s : Scope) : Prop := ∀ frame ∈ s.frames, ∀ b ∈ frame, F.binding b.2

/-- The queries of a common table expression have the feature. -/
structure cte (c : CtePlan) : Prop where
  anchor : F.select c.anchor
  union : ∀ s, c.union = some s → F.select s

/-- The common table expressions planned so far have the feature. -/
def progress (p : Progress) : Prop := ∀ c ∈ p.ctes, F.cte c

/-- The expressions within an expression may be planned. -/
def Admits (e : Expr) : Prop := ∀ x ∈ e.parts, F.admits x

end Feature

/-- Planning that spreads a feature, and whose results have a property. -/
abbrev Planning.Spreads {α : Type} (F : Feature) (act : Planning α) (Q : α → Prop) : Prop :=
  act.Keeps F.scope F.progress F.fault Q

/-- An operand gives nodes with a feature, in whatever way it is planned. -/
structure Operand.Spreads (F : Feature) (o : Operand) : Prop where
  source : F.Admits o.source
  value : o.value.Spreads F F.node
  alternatives : o.alternatives.Spreads F fun ns => ∀ n ∈ ns, F.node n
  applied : ∀ bindings, (∀ b ∈ bindings, F.binding b) → (o.applied bindings).Spreads F F.node
  selection : ∀ plan, o.selection = some plan → plan.Spreads F F.select
  items : ∀ plan, o.items = some plan → plan.Spreads F fun ns => ∀ n ∈ ns, F.node n

namespace Feature

variable {F : Feature} {s : Scope} {b : Binding} {bindings : List Binding} {e : Expr} {n : Node}

/-- The faults of an admitted expression are allowed. -/
theorem Admits.faults (h : F.Admits e) : Lowering.FaultsHave F.fault e := fun _ => F.evaluated (h e e.mem_parts_self)

/-- What is read from an allowed binding is allowed. -/
theorem binding.reads (h : F.binding b) (hn : b.Reads n) : F.node n := by
  cases hn with
  | column hn => exact h n (.column hn)
  | row hn => exact h n (.row hn)
  | key hn => exact h.1 _ hn

/-- The columns of an allowed table are allowed. -/
theorem table.columns {t : TableBinding} (h : F.table t) : ∀ c ∈ t.columns, F.node c.2 := fun _ hc => h _ (.row hc)

/-- Whatever is read from a table with an alias is one of its columns. -/
theorem table_aliased {t : TableBinding} {aliasName : String} (h : t.aliasName = some aliasName) : F.table t := by
  intro n hn
  obtain ⟨name, type, rfl⟩ := t.reads_column hn
  rw [h]
  exact F.column

/-- What a parameter of an allowed scope is bound to is allowed. -/
theorem scope.binding (h : F.scope s) {name : String} (hb : s.binding? name = some b) : F.binding b := by
  obtain ⟨frame, hframe, hb⟩ := List.exists_of_findSome?_eq_some hb
  obtain ⟨before, after, heq, -⟩ := List.lookup_eq_some_iff.mp hb
  exact h frame hframe (name, b) (heq ▸ List.mem_append_right before List.mem_cons_self)

/-- Under a lambda whose parameters stand for what has the feature. -/
theorem scope.under (h : F.scope s) (hb : ∀ b ∈ bindings, F.binding b) (params : List String) :
    F.scope { s with frames := frame params bindings :: s.frames } := by
  intro f hf b hmem
  obtain rfl | hf := List.mem_cons.mp hf
  · exact hb b.2 (List.of_mem_zip (List.mem_reverse.mp hmem)).2
  · exact h f hf b hmem

/-- Allowed tables are allowed as bindings. -/
theorem bindings_tables {tables : List TableBinding} (h : ∀ t ∈ tables, F.table t) :
    ∀ b ∈ tableBindings tables, F.binding b := by
  intro b hb
  obtain ⟨t, ht, rfl⟩ := List.mem_map.mp hb
  exact h t ht

/-- A parameter that is found is bound to what is allowed. -/
theorem lookup (name : String) : (Planning.lookup name).Spreads F F.binding :=
  Keeps.lookup fun _ _ hs hb => hs.binding hb

/-- An action under a frame of allowed bindings gives what is allowed. -/
theorem withFrame {α : Type} {act : Planning α} {Q : α → Prop} (h : act.Spreads F Q)
    (hb : ∀ b ∈ bindings, F.binding b) (params : List String) :
    (Planning.withFrame params bindings act).Spreads F Q := h.withFrame fun _ hs => hs.under hb params

end Feature

/-- Planning that begins with nothing planned gives what has the feature, and so have its common table expressions. -/
theorem Planning.Spreads.of_run {F : Feature} {c : Compiler} {α : Type} {act : Planning α} {Q : α → Prop}
    (h : act.Spreads F Q) {a : α} {ctes : List CtePlan} (hrun : act.run c = .ok (a, ctes)) :
    Q a ∧ ∀ d ∈ ctes, F.cte d := by
  obtain ⟨p, ha, rfl⟩ := gives_of_run hrun
  exact h.of_gives (fun _ hf => absurd hf List.not_mem_nil) (fun _ hc => absurd hc List.not_mem_nil) ha

/-! ## Properties of all nodes within -/

namespace Node

/-- A property of single nodes that nodes have wherever they come from: only what is compared, and what is bound,
depends on it. Changing a test to its opposite, and the type of a node to another one, makes no difference. -/
structure Local (R : Node → Prop) : Prop where
  literal : ∀ {sql v t}, R (.literal sql v t)
  raw : ∀ {text t}, R (.raw text t)
  null : R .null
  column : ∀ {aliasName name t}, R (.column aliasName name t)
  combined : ∀ {op l r t}, op.isComparison = false → R (.binary op l r t)
  compared : ∀ {op l r t}, l.type.comparable r.type = .ok () → R (.binary op l r t)
  binary_type : ∀ {op l r t} t', R (.binary op l r t) → R (.binary op l r t')
  bound_type : ∀ {v native name t} t', R (.bound v native name t) → R (.bound v native name t')
  unary : ∀ {op n t}, R (.unary op n t)
  isNull : ∀ {n negated}, R (.isNull n negated)
  group : ∀ {n}, R (.group n)
  call : ∀ {f ns t}, R (.call f ns t)
  case : ∀ {bs n t}, R (.case bs n t)
  listed : ∀ {n ns negated}, (∀ m ∈ ns, n.type.comparable m.type = .ok ()) → R (.inList n ns negated)
  inList_opposite : ∀ {n ns negated} negated', R (.inList n ns negated) → R (.inList n ns negated')
  inQuery : ∀ {n s negated}, R (.inQuery n s negated)
  existence : ∀ {s negated}, R (.exists s negated)
  subquery : ∀ {s t}, R (.subquery s t)

namespace Local

variable {R : Node → Prop} (hR : Local R) {n : Node}

include hR

/-- What holds in every part of a node holds in every part of its negation.

**Proof sketch.** By the forms that negation tells apart: it turns a membership, a test for rows or for null, undoes a
negation, compares a truth value with false, and puts `NOT` before anything else. -/
theorem negation (hn : n.Every R) : n.negation.Every R := by
  unfold Node.negation
  split
  · split
    · exact every_raw.mpr hR.raw
    · obtain ⟨h, hparts⟩ := every_inList.mp hn
      exact every_inList.mpr ⟨hR.inList_opposite _ h, hparts⟩
  · obtain ⟨h, hparts⟩ := every_inList.mp hn
    exact every_inList.mpr ⟨hR.inList_opposite _ h, hparts⟩
  · exact every_inQuery.mpr ⟨hR.inQuery, (every_inQuery.mp hn).2⟩
  · exact every_exists.mpr ⟨hR.existence, (every_exists.mp hn).2⟩
  · exact every_isNull.mpr ⟨hR.isNull, (every_isNull.mp hn).2⟩
  · split
    · exact every_raw.mpr hR.raw
    · split
      · exact every_raw.mpr hR.raw
      · exact every_unary.mpr ⟨hR.unary, hn⟩
  · split
    · refine every_binary.mpr ⟨hR.compared (HostType.comparable_bool _), (every_binary.mp hn).2.1, ?_⟩
      exact every_literal.mpr hR.literal
    · exact every_unary.mpr ⟨hR.unary, hn⟩
  · exact (every_unary.mp hn).2
  · exact every_unary.mpr ⟨hR.unary, hn⟩

/-- What holds in every part of a node does so under another type. -/
theorem retype (t : HostType) (hn : n.Every R) : (n.retype t).Every R := by
  cases n with
  | literal => exact every_literal.mpr hR.literal
  | bound => exact every_bound.mpr (hR.bound_type t (every_bound.mp hn))
  | column => exact every_column.mpr hR.column
  | call => exact every_call.mpr ⟨hR.call, (every_call.mp hn).2⟩
  | unary => exact every_unary.mpr ⟨hR.unary, (every_unary.mp hn).2⟩
  | binary => exact every_binary.mpr ((every_binary.mp hn).imp_left (hR.binary_type t))
  | case => exact every_case.mpr ⟨hR.case, (every_case.mp hn).2⟩
  | subquery => exact every_subquery.mpr ⟨hR.subquery, (every_subquery.mp hn).2⟩
  | _ => exact hn

/-- Operators preserve that all nodes within have the property. -/
theorem composable : Composable (Every R) where
  literal := every_literal.mpr hR.literal
  raw := every_raw.mpr hR.raw
  null := every_null.mpr hR.null
  combined ho hl hr := every_binary.mpr ⟨hR.combined ho, hl, hr⟩
  compared hc hl hr := every_binary.mpr ⟨hR.compared hc, hl, hr⟩
  unary hn := every_unary.mpr ⟨hR.unary, hn⟩
  isNull hn := every_isNull.mpr ⟨hR.isNull, hn⟩
  call hns := every_call.mpr ⟨hR.call, hns⟩
  case hbs hn := every_case.mpr ⟨hR.case, hbs, hn⟩
  listed hc hn hns := every_inList.mpr ⟨hR.listed hc, hn, hns⟩
  negation := hR.negation
  pieces {n} hn := by
    unfold Node.pieces
    split
    · exact (every_call.mp hn).2
    · exact List.forall_mem_singleton.mpr hn
  retype := hR.retype

end Local

end Node

/-- That all nodes within have a property is a feature, as long as expressions are planned whose values may be bound,
and whose evaluation comes upon certain faults only. -/
def Feature.every {R : Node → Prop} (hR : Node.Local R) (admits : Expr → Prop) (fault : Fault → Prop)
    (captured : ∀ {e : Expr} {t : TranslationTable} {v : Value}, (∀ x ∈ e.parts, admits x) →
      e.origin t = .captured → R (.parameter v))
    (evaluated : ∀ {e f}, admits e → Host.value e = .error (.fault f) → fault f) : Feature where
  admits := admits
  node := Node.Every R
  select := SelectOf.Every R
  rows := Rows.Every R
  fault := fault
  composable := hR.composable
  branches h := (Node.every_case.mp h).2
  column := Node.every_column.mpr hR.column
  captured he ho := Node.every_bound.mpr (captured he ho)
  valued hs := Node.every_subquery.mpr ⟨hR.subquery, hs⟩
  searched hn hs := Node.every_inQuery.mpr ⟨hR.inQuery, hn, hs⟩
  tested hs := Node.every_exists.mpr ⟨hR.existence, hs⟩
  counted {s negated} hs := by
    obtain ⟨-, hclauses⟩ := SelectOf.every_iff.mp hs
    refine Node.every_exists.mpr ⟨hR.existence, SelectOf.every_iff.mpr ⟨?_, hclauses⟩⟩
    exact List.forall_mem_singleton.mpr (Node.every_literal.mpr hR.literal)
  named := Rows.every_named _ _
  derived hs := hs
  planned h := SelectOf.every_iff.mpr
    ⟨h.columns, h.table, h.joins, h.filter, h.groupBy, h.having, h.orderBy⟩
  evaluated := evaluated

end LambdaSql
