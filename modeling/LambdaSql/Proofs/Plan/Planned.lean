import LambdaSql.Proofs.Plan.Lowered

/-!
# How planning queries spreads features

Expressions, clauses, queries and what they read from are planned together, and a feature spreads from their parts to
all of what is planned, by induction on the expression.

## Main definitions

* `Projected.Has`, `CtePlan` and `PlannedSource` - what is planned has a feature if its nodes and selections have it.
* `Expr.Spreads`, `Query.Spreads`, `Source.Spreads` - an expression, a query and a source spread a feature.

## Main results

* `Projected.spreads_object`, `Projected.spreads_overlay`, `Projected.spreads_body` - projections.
* `Expr.spreads`, `query_spreads`, `source_spreads` - all expressions, queries and sources.
-/

namespace LambdaSql

open Planning

variable {F : Feature}

/-! ## Projections -/

namespace Projected

variable (F) in
/-- All columns have the feature. -/
def Has (out : Projected) : Prop := ∀ c ∈ out.columns, F.node c.node

variable {out : Projected} {o : Operand} {named : List (String × Operand)}

namespace Has

/-- A projection of nothing is allowed. -/
theorem empty : Has F {} := nofun

/-- Allowed columns may be added. -/
theorem append (h : out.Has F) {cs : List Selected} (hcs : ∀ c ∈ cs, F.node c.node) (shape : List Output)
    (deferred : List Deferred) : Has F ⟨out.columns ++ cs, shape, deferred⟩ :=
  fun c hc => (List.mem_append.mp hc).elim (h c) (hcs c)

/-- An allowed column may be pushed. -/
theorem push (h : out.Has F) {n : Node} (hn : F.node n) (name : String) (replace : Bool) :
    (out.push name n replace).Has F := by
  unfold Projected.push
  dsimp only
  split
  · intro c hc
    obtain hc | rfl := List.mem_or_eq_of_mem_set hc
    · exact h c hc
    · exact hn
  · exact h.append (List.forall_mem_singleton.mpr hn) _ _

/-- Allowed columns may be pushed. -/
theorem pushAll (h : out.Has F) {columns : List (String × Node)} (hc : ∀ c ∈ columns, F.node c.2) :
    (out.pushAll columns).Has F :=
  List.foldlRecOn columns _ h fun _ hout c hmem => push hout (hc c hmem) _ _

/-- An allowed scalar may be pushed. -/
theorem pushScalar (h : out.Has F) {n : Node} (hn : F.node n) : (out.pushScalar n).Has F :=
  h.append (List.forall_mem_singleton.mpr hn) _ _

/-- Allowed tables and groupings are projected as a whole as the feature allows. -/
theorem whole {tables : List TableBinding} (ht : ∀ t ∈ tables, F.table t) {grouping : Option Grouping}
    (hg : ∀ g, grouping = some g → F.binding (.grouping g)) : (whole tables grouping).Has F := by
  cases grouping with
  | some g => exact empty.pushAll (hg g rfl).1
  | none =>
    cases tables with
    | nil => exact empty.pushAll nofun
    | cons t rest => exact empty.pushAll (ht t List.mem_cons_self).columns

end Has

/-- The column of a member spreads the feature. -/
private theorem spreads_columnOf (param member : String) : (columnOf param member).Spreads F F.node := by
  unfold columnOf
  refine (F.lookup _).bind fun b hb => ?_
  split
  · exact Lowering.spreads_column hb member
  · exact Lowering.spreads_key hb member

/-- What is left for evaluation after fetching adds the columns it reads. -/
theorem spreads_leave (h : out.Has F) (name : String) (e : Expr) : (out.leave name e).Spreads F (Has F) := by
  unfold leave
  refine (Keeps.mapM (Q := fun c : Selected => F.node c.node) fun c _ => ?_).bind fun columns hc => ?_
  · exact (spreads_columnOf ..).bind fun n hn => .pure hn
  · exact .pure (h.append hc _ _)

/-- A projected expression spreads the feature if it is lowered so. -/
private theorem spreads_projected {act : Planning Node} (h : act.Spreads F F.node) :
    (projected act).Spreads F fun n? => ∀ n, n? = some n → F.node n :=
  h.projected (fun _ _ hp => hp) fun _ hs => hs

/-- A member spreads the feature when it is projected if its value does. -/
theorem spreads_member (h : out.Has F) (ho : o.Spreads F) (name : String) (replace : Bool) :
    (out.member name o replace).Spreads F (Has F) := by
  unfold member
  refine (spreads_projected ho.value).bind fun n? hn => ?_
  split
  · exact .pure (h.push (hn _ rfl) name replace)
  · exact spreads_leave h ..

/-- A single projected expression spreads the feature if it does so as an operand. -/
private theorem spreads_scalar (h : out.Has F) (ho : o.Spreads F) : (out.scalar o).Spreads F (Has F) := by
  unfold scalar
  refine (spreads_projected ho.value).bind fun n? hn => ?_
  split
  · exact .pure (h.pushScalar (hn _ rfl))
  · exact spreads_leave h ..

/-- A grouping that is found is allowed. -/
theorem spreads_grouping? (e : Expr) :
    (grouping? e).Spreads F fun g? => ∀ g, g? = some g → F.binding (.grouping g) := by
  unfold grouping?
  refine Keeps.read.bind fun s hs => ?_
  split
  · next g hg =>
    obtain ⟨param, -, hb⟩ := Option.bind_eq_some_iff.mp hg
    refine .pure fun g' hg' => ?_
    cases hg'
    exact hs.binding hb
  · exact .pure nofun

/-- An object spreads the feature when it is projected if its members do. -/
theorem spreads_object (h : out.Has F) (hn : ∀ m ∈ named, m.2.Spreads F) :
    (out.object named).Spreads F (Has F) := by
  induction named generalizing out with
  | nil => exact .pure h
  | cons m rest ih =>
    obtain ⟨name, o⟩ := m
    have hrest := fun m hm => hn m (List.mem_cons_of_mem _ hm)
    have added := (spreads_member h (hn _ List.mem_cons_self) name false).bind fun _ h' => ih h' hrest
    unfold object
    refine (spreads_grouping? o.source).bind fun g? hg => ?_
    split
    · split
      · exact ih (h.pushAll (hg _ rfl).1) hrest
      · exact added
    · exact added

/-- An object over a table's columns spreads the feature when it is projected if its members do. -/
theorem spreads_overlay (h : out.Has F) (hn : ∀ m ∈ named, m.2.Spreads F) :
    (out.overlay named).Spreads F (Has F) := by
  induction named generalizing out with
  | nil => exact .pure h
  | cons m rest ih =>
    obtain ⟨name, o⟩ := m
    exact (spreads_member h (hn _ List.mem_cons_self) name true).bind fun _ h' =>
      ih h' fun m hm => hn m (List.mem_cons_of_mem _ hm)

/-- A body spreads the feature when it is projected if it does. -/
theorem spreads_body (h : out.Has F) (ho : o.Spreads F) : (out.body o).Spreads F (Has F) := by
  unfold body
  refine (spreads_grouping? o.source).bind fun g? hg => ?_
  split
  · exact .pure (h.pushAll (hg _ rfl).1)
  · split
    · refine (F.lookup _).bind fun b hb => ?_
      split
      · exact .pure (h.pushAll (Feature.table.columns hb))
      · exact .pure (h.pushAll hb.1)
    · exact spreads_scalar h ho

end Projected

/-! ## Expressions -/

section Expressions

variable {e : Expr} {o : Operand} {bindings : List Binding}

/-- A body spreads the feature if what its parameters are bound to is allowed. -/
theorem Operand.Spreads.under (h : o.Spreads F) (hb : ∀ b ∈ bindings, F.binding b) (params : List String) :
    (o.under params bindings).Spreads F F.node := Feature.withFrame h.value hb params

/-- An expression spreads a feature if the rest of the way to plan it does. -/
theorem plainOperand_spreads (he : F.Admits e) {lower : Planning Node} (h : lower.Spreads F F.node) :
    (plainOperand e lower).Spreads F where
  source := he
  value := Lowering.spreads_folded he h
  alternatives := (Lowering.spreads_folded he h).bind fun _ hn => .pure (List.forall_mem_singleton.mpr hn)
  applied _ hb := Feature.withFrame (Lowering.spreads_folded he h) hb []
  selection := nofun
  items := nofun

/-- The alternatives of two operands are alternatives of both together. -/
theorem spreads_alternatives {left right : Operand} (hl : left.Spreads F) (hr : right.Spreads F) :
    (do return (← left.alternatives) ++ (← right.alternatives) : Planning (List Node)).Spreads F
      fun ns => ∀ n ∈ ns, F.node n :=
  hl.alternatives.bind fun _ hls => hr.alternatives.bind fun _ hrs =>
    .pure fun n hn => (List.mem_append.mp hn).elim (hls n) (hrs n)

/-- A subquery spreads the feature if its plan does. -/
private theorem spreads_asSubquery {α : Type} {act : Planning α} {Q : α → Prop} (h : act.Spreads F Q) :
    (asSubquery act).Spreads F Q := h.asSubquery fun _ hs => hs

end Expressions

/-! ## Sources -/

/-- A table gets an alias, so that whatever is read from it has one. -/
theorem spreads_bindTable {source : PlannedSource} (h : F.rows source.rows) (override : Option String) :
    (bindTable override source).Spreads F fun r => F.rows r.1.rows ∧ F.table r.2 := by
  unfold bindTable
  refine (Keeps.nextAlias fun _ _ hp => hp).bind fun generated _ => .pure ⟨h, ?_⟩
  exact Feature.table_aliased rfl

/-- The table of an entity spreads the feature. -/
private theorem spreads_planEntity (name : String) : (planEntity name).Spreads F fun source => F.rows source.rows := by
  unfold planEntity
  refine Keeps.read.bind fun s _ => ?_
  refine (Keeps.ofExcept (Q := fun _ => True) fun _ _ => trivial).bind fun e _ => ?_
  exact .pure F.named

/-- Looking for the columns of a common table expression spreads the feature. -/
private theorem spreads_selfShape? (name : String) : (selfShape? name).Spreads F fun _ => True := by
  unfold selfShape?
  refine Keeps.read.bind fun s _ => ?_
  split
  · refine (Keeps.modifyProgress (Q := fun _ => True) ?_ trivial).bind fun _ _ => .pure trivial
    exact fun _ hp => hp
  · exact .pure trivial

/-- A reference to a common table expression itself spreads the feature. -/
private theorem spreads_selfSource (name : String) : (selfSource name).Spreads F fun source => F.rows source.rows := by
  unfold selfSource
  refine (spreads_selfShape? name).bind fun shape _ => ?_
  split
  · exact .pure F.named
  · exact .fail

/-- A common table expression is planned at most once, and is then among those planned so far. -/
theorem spreads_planOnce {plan : Planning CtePlan} (h : plan.Spreads F F.cte) (name : String) :
    (planOnce name plan).Spreads F fun _ => True := by
  have within : (withinCte name plan).Spreads F F.cte := h.withReader fun _ hs => hs
  unfold planOnce
  refine Keeps.getProgress.bind fun p _ => ?_
  split
  · exact .pure trivial
  · refine Keeps.read.bind fun s _ => .orFail ?_
    refine (within.withOwnAliases fun _ _ hp => hp).bind fun cte hcte => ?_
    refine (Keeps.modifyProgress (Q := fun _ => True) (fun p hp c hc => ?_) trivial).bind fun _ _ => .pure trivial
    obtain hc | hc := List.mem_append.mp hc
    · exact hp c hc
    · rwa [List.mem_singleton.mp hc]

/-- A common table expression spreads the feature if its queries do. -/
private theorem spreads_assembleCte {anchor : Planning Select} {union : Option (Planning Select)}
    (ha : anchor.Spreads F F.select) (hu : ∀ plan, union = some plan → plan.Spreads F F.select) (name : String)
    (declared : List String) (recursive : Bool) :
    (assembleCte name declared recursive anchor union).Spreads F F.cte := by
  unfold assembleCte
  refine ha.bind fun first hfirst => .orFail ?_
  cases union with
  | none => exact .pure ⟨hfirst, nofun⟩
  | some plan =>
    have within (shape : List Output) : (withSelfRef name shape plan).Spreads F F.select :=
      (hu plan rfl).withReader fun _ hs => hs
    refine (Keeps.restartAliases fun _ _ hp => hp).bind fun _ _ => ?_
    refine (within _).bind fun second hsecond => .orFail ?_
    refine Keeps.getProgress.bind fun p _ => .pure ⟨hfirst, fun s hs => ?_⟩
    cases hs
    exact hsecond

/-! ## Clauses -/

variable (F) in
/-- The ways to plan an expression and, if it is an object, its members spread a feature. -/
structure Expr.Spreads (e : Expr) : Prop where
  operand : (operand e).Spreads F
  members : ∀ ms, e = .object ms → ∀ m ∈ members ms, m.2.Spreads F

variable (F) in
/-- A query spreads a feature. -/
def Query.Spreads (q : Query) : Prop := (planQuery q).Spreads F F.select

variable (F) in
/-- What is read from spreads a feature. -/
def Source.Spreads (source : Source) : Prop := (planSource source).Spreads F fun planned => F.rows planned.rows

section Clauses

variable {bindings : List Binding} {tables : List TableBinding}

/-- Tests spread the feature if their bodies do. -/
theorem spreads_planTests {tests : List Lambda} (h : ∀ l ∈ tests, l.body.Spreads F)
    (hb : ∀ b ∈ bindings, F.binding b) : (planTests bindings tests).Spreads F fun ns => ∀ n ∈ ns, F.node n := by
  induction tests with
  | nil => exact .pure nofun
  | cons l rest ih =>
    simp only [planTests]
    refine ((h l List.mem_cons_self).operand.under hb l.params).bind fun n hn => ?_
    refine (ih fun l hl => h l (List.mem_cons_of_mem _ hl)).bind fun ns hns => .pure ?_
    exact List.forall_mem_cons.mpr ⟨F.composable.toPredicate hn, hns⟩

/-- Sort keys spread the feature if their bodies do. -/
private theorem spreads_planOrder {keys : List (Lambda × Bool)} (h : ∀ k ∈ keys, k.1.body.Spreads F)
    (hb : ∀ b ∈ bindings, F.binding b) : (planOrder bindings keys).Spreads F fun ks => ∀ k ∈ ks, F.node k.1 := by
  induction keys with
  | nil => exact .pure nofun
  | cons k rest ih =>
    obtain ⟨l, down⟩ := k
    simp only [planOrder]
    refine ((h _ List.mem_cons_self).operand.under hb l.params).bind fun n hn => ?_
    refine (ih fun l hl => h l (List.mem_cons_of_mem _ hl)).bind fun ns hns => .pure ?_
    exact List.forall_mem_cons.mpr ⟨hn, hns⟩

/-- Joins spread the feature if their sources and conditions do. -/
theorem spreads_planJoins {joins : List Join} (h : ∀ j ∈ joins, j.source.Spreads F ∧ j.on.body.Spreads F)
    (ht : ∀ t ∈ tables, F.table t) : (planJoins tables joins).Spreads F fun r =>
      (∀ j ∈ r.1, F.rows j.table.rows ∧ F.node j.on) ∧ ∀ t ∈ r.2, F.table t := by
  induction joins generalizing tables with
  | nil => exact .pure ⟨nofun, ht⟩
  | cons j rest ih =>
    obtain ⟨kind, source, ⟨params, body⟩, aliasName⟩ := j
    obtain ⟨hsource, hbody⟩ := h _ List.mem_cons_self
    simp only [planJoins]
    refine Keeps.bind hsource fun planned hplanned => ?_
    refine (spreads_bindTable hplanned aliasName).bind fun r hr => ?_
    have htables : ∀ t ∈ tables ++ [r.2], F.table t := fun t hmem =>
      (List.mem_append.mp hmem).elim (ht t) fun hmem => List.mem_singleton.mp hmem ▸ hr.2
    refine (hbody.operand.under (Feature.bindings_tables htables) params).bind fun on hon => ?_
    refine (ih (fun j hj => h j (List.mem_cons_of_mem _ hj)) htables).bind fun joined hjoined => ?_
    refine .pure ⟨List.forall_mem_cons.mpr ⟨⟨hr.1, ?_⟩, hjoined.1⟩, hjoined.2⟩
    exact F.composable.toPredicate hon

/-- The keys of a grouped query, and through them its groups.

**Proof sketch.** By the form of the key. An object has a key for each of its members, any other key is one of its own
name, and either is planned in the scope of the key's parameters. -/
theorem spreads_planKeys {groupBy : Option Lambda} (h : ∀ l, groupBy = some l → l.body.Spreads F)
    (hb : ∀ b ∈ bindings, F.binding b) :
    (planKeys bindings groupBy).Spreads F fun ks? => ∀ ks, ks? = some ks → ∀ k ∈ ks, F.node k.2 := by
  cases groupBy with
  | none => exact .pure nofun
  | some l =>
    obtain ⟨params, body⟩ := l
    have hbody := h _ rfl
    have one : (do
        let n ← (operand body).under params bindings
        return some [(keyName body, n)] : Planning (Option (List (String × Node)))).Spreads F
        fun ks? => ∀ ks, ks? = some ks → ∀ k ∈ ks, F.node k.2 := by
      refine (hbody.operand.under hb params).bind fun n hn => .pure fun ks hks => ?_
      cases hks
      exact List.forall_mem_singleton.mpr hn
    cases body with
    | object ms =>
      simp only [planKeys]
      refine Feature.withFrame ?_ hb params
      refine (Keeps.mapM (Q := fun k => F.node k.2) fun m hm => ?_).bind fun ks hks => .pure fun _ h => ?_
      · exact (hbody.members ms rfl m hm).value.bind fun n hn => .pure hn
      · cases h
        exact hks
    | _ => exact one

/-- A projection spreads the feature if its body does.

**Proof sketch.** By what is selected. Nothing stands for the tables as they are, an object for its members, one laid
over the tables for these as well, and any other body for itself. -/
private theorem spreads_planProjection {grouping : Option Grouping} {projection : Option Projection}
    (h : ∀ l, projection = some (.select l) ∨ projection = some (.flatten l) → l.body.Spreads F)
    (ht : ∀ t ∈ tables, F.table t) (hb : ∀ b ∈ bindings, F.binding b)
    (hg : ∀ g, grouping = some g → F.binding (.grouping g)) :
    (planProjection tables bindings grouping projection).Spreads F (Projected.Has F) := by
  cases projection with
  | none => exact .pure (.whole ht hg)
  | some projection =>
    cases projection with
    | select l =>
      obtain ⟨params, body⟩ := l
      have hbody := h _ (.inl rfl)
      cases body with
      | object ms =>
        simp only [planProjection]
        exact Feature.withFrame (Projected.spreads_object .empty (hbody.members ms rfl)) hb params
      | _ => exact Feature.withFrame (Projected.spreads_body .empty hbody.operand) hb params
    | flatten l =>
      obtain ⟨params, body⟩ := l
      have hbody := h _ (.inr rfl)
      cases body with
      | object ms =>
        simp only [planProjection]
        exact Feature.withFrame (Projected.spreads_overlay (.whole ht (by simp)) (hbody.members ms rfl))
          (Feature.bindings_tables ht) params
      | _ => exact Feature.withFrame .fail (Feature.bindings_tables ht) params

end Clauses

/-! ## Queries -/

/-- What stands for rows behind a grouping, or for rows that are not grouped, has the feature. -/
theorem Feature.outer {tables : List TableBinding} {grouping? : Option Grouping}
    (hinner : ∀ b ∈ tableBindings tables, F.binding b)
    (hgrouping : ∀ g, grouping? = some g → F.binding (.grouping g)) :
    ∀ b ∈ (match grouping? with
      | some g => [Binding.grouping g]
      | none => tableBindings tables), F.binding b := by
  cases grouping? with
  | none => exact hinner
  | some g => exact List.forall_mem_singleton.mpr (hgrouping g rfl)

/-- A query spreads a feature if its clauses do.

**Proof sketch.** Clause after clause. What the tables have, the bindings have that the later clauses see, and so do
the groups that replace them where there are keys. -/
theorem Query.spreads_of_clauses {q : Query} (hsource : q.source.Spreads F)
    (hjoins : ∀ j ∈ q.joins, j.source.Spreads F ∧ j.on.body.Spreads F)
    (hfilters : ∀ l ∈ q.filters, l.body.Spreads F) (hgroupBy : ∀ l, q.groupBy = some l → l.body.Spreads F)
    (hhaving : ∀ l ∈ q.having, l.body.Spreads F) (horder : ∀ k ∈ q.orderBy, k.1.body.Spreads F)
    (hprojection : ∀ l, q.projection = some (.select l) ∨ q.projection = some (.flatten l) → l.body.Spreads F) :
    q.Spreads F := by
  obtain ⟨source, aliasName, joins, filters, groupBy, having, orderBy, projection, _, _, _⟩ := q
  simp only [Query.Spreads, planQuery]
  refine Keeps.bind hsource fun planned hplanned => ?_
  refine (spreads_bindTable hplanned aliasName).bind fun first hfirst => ?_
  refine (spreads_planJoins hjoins (List.forall_mem_singleton.mpr hfirst.2)).bind fun r hr => ?_
  obtain ⟨joined, tables⟩ := r
  have hinner := Feature.bindings_tables hr.2
  refine (spreads_planTests hfilters hinner).bind fun tests htests => ?_
  refine (spreads_planKeys hgroupBy hinner).bind fun keys hkeys => ?_
  have hgrouping : ∀ g, keys.map (fun ks => (⟨ks, tables⟩ : Grouping)) = some g → F.binding (.grouping g) := by
    intro g hg
    obtain ⟨ks, rfl, rfl⟩ := Option.map_eq_some_iff.mp hg
    exact ⟨hkeys ks rfl, hr.2⟩
  have houter := Feature.outer hinner hgrouping
  refine (spreads_planProjection hprojection hr.2 houter hgrouping).bind fun out hout => ?_
  refine (spreads_planTests hhaving houter).bind fun groupTests hgroupTests => ?_
  refine (spreads_planOrder horder houter).bind fun order hordered => .pure (F.planned ⟨hout, hfirst.1, hr.1,
    fun _ hn => F.composable.conjunction htests hn, ?_, fun _ hn => F.composable.conjunction hgroupTests hn, hordered⟩)
  cases keys with
  | none => rintro _ ⟨⟩
  | some ks => exact List.forall_mem_map.mpr (hkeys ks rfl)

mutual

/-- **Expressions spread a feature** if the expressions within may be planned, by induction on the expression.

**Proof sketch.** Each form of expression spreads the feature if its operands do. A node is only ever built from
others by operations that the feature survives. -/
theorem Expr.spreads : ∀ e : Expr, F.Admits e → e.Spreads F
  | .constant v, h => ⟨plainOperand_spreads h (Lowering.spreads_atHand nofun), nofun⟩
  | .captured name v, h => by
    have ho : Expr.origin .empty (.captured name v) = .captured := rfl
    exact ⟨plainOperand_spreads h (Lowering.spreads_atHand fun _ => F.captured h ho), nofun⟩
  | .param name, h => ⟨plainOperand_spreads h (Lowering.spreads_parameter name), nofun⟩
  | .static type name, h => ⟨plainOperand_spreads h (Lowering.spreads_static type name), nofun⟩
  | .member target name, h => by
    have ht := target.spreads (List.forall_mem_of_forall_mem_cons h)
    exact ⟨plainOperand_spreads h (Lowering.spreads_member ht.operand name), nofun⟩
  | .call (some target) type method args, h => by
    obtain ⟨ht, ha⟩ := List.forall_mem_append.mp (List.forall_mem_of_forall_mem_cons h)
    have ho := (target.spreads ht).operand
    exact ⟨plainOperand_spreads h (Lowering.spreads_callOn ho (operands_spread args ha) method), nofun⟩
  | .call none type method args, h => by
    have ha := operands_spread args (List.forall_mem_of_forall_mem_cons h)
    exact ⟨plainOperand_spreads h (Lowering.spreads_callOf ha type method), nofun⟩
  | .unary op inner, h => by
    have hi := inner.spreads (List.forall_mem_of_forall_mem_cons h)
    exact ⟨plainOperand_spreads h (Lowering.spreads_unary hi.operand op), nofun⟩
  | .conditional test a b, h => by
    obtain ⟨ht, h'⟩ := List.forall_mem_append.mp (List.forall_mem_of_forall_mem_cons h)
    obtain ⟨ha, hb⟩ := List.forall_mem_append.mp h'
    exact ⟨plainOperand_spreads h (Lowering.spreads_conditional (test.spreads ht).operand (a.spreads ha).operand
      (b.spreads hb).operand), nofun⟩
  | .binary op left right, h => by
    obtain ⟨hl, hr⟩ := List.forall_mem_append.mp (List.forall_mem_of_forall_mem_cons h)
    have hl := (left.spreads hl).operand
    have hr := (right.spreads hr).operand
    have hplain := plainOperand_spreads h (Lowering.spreads_binary hl hr op)
    refine ⟨?_, nofun⟩
    rw [operand]
    split
    · exact { hplain with alternatives := spreads_alternatives hl hr }
    · exact hplain
  | .convert inner target, h => by
    have hinner := (inner.spreads (List.forall_mem_of_forall_mem_cons h)).operand
    have hplain := plainOperand_spreads h
      (hinner.value.bind (Q := F.node) (f := fun n => return n.retype target) fun n hn =>
        .pure (F.composable.retype target hn))
    exact ⟨{ hplain with selection := hinner.selection }, nofun⟩
  | .query q, h => by
    have hplan := spreads_asSubquery (query_spreads q (List.forall_mem_of_forall_mem_cons h))
    have hplain := plainOperand_spreads h (Lowering.spreads_selection hplan)
    refine ⟨{ hplain with selection := fun plan heq => ?_ }, nofun⟩
    cases heq
    exact hplan
  | .array items, h => by
    have hitems := operands_spread items (List.forall_mem_of_forall_mem_cons h)
    have hplain := plainOperand_spreads h (.fail (e := .constructionAsValue))
    refine ⟨{ hplain with items := fun plan heq => ?_ }, nofun⟩
    cases heq
    exact .mapM fun o ho => (hitems o ho).value
  | .object ms, h => by
    refine ⟨plainOperand_spreads h .fail, fun _ hms => ?_⟩
    cases hms
    exact members_spread ms (List.forall_mem_of_forall_mem_cons h)
  | .lambda params body, h => by
    have hplain := plainOperand_spreads h (.fail (e := .lambdaAsValue))
    have hbody := (body.spreads (List.forall_mem_of_forall_mem_cons h)).operand
    exact ⟨{ hplain with applied := fun _ hb => hbody.under hb params }, nofun⟩

/-- Operands spread the feature if it admits their parts. -/
private theorem operands_spread : ∀ es : List Expr, (∀ x ∈ itemsParts es, F.admits x) → ∀ o ∈ operands es, o.Spreads F
  | [], _ => nofun
  | e :: rest, h =>
    have h := List.forall_mem_append.mp h
    List.forall_mem_cons.mpr ⟨(e.spreads h.1).operand, operands_spread rest h.2⟩

/-- Members spread the feature if it admits their parts. -/
private theorem members_spread :
    ∀ ms : List (String × Expr), (∀ x ∈ membersParts ms, F.admits x) → ∀ m ∈ members ms, m.2.Spreads F
  | [], _ => nofun
  | (_, e) :: rest, h =>
    have h := List.forall_mem_append.mp h
    List.forall_mem_cons.mpr ⟨(e.spreads h.1).operand, members_spread rest h.2⟩

/-- The bodies of admitted tests spread the feature. -/
theorem tests_spread :
    ∀ tests : List (LambdaOf Expr), (∀ x ∈ testsParts tests, F.admits x) → ∀ l ∈ tests, l.body.Spreads F
  | [], _ => nofun
  | ⟨_, body⟩ :: rest, h =>
    have h := List.forall_mem_append.mp h
    List.forall_mem_cons.mpr ⟨body.spreads h.1, tests_spread rest h.2⟩

/-- Sort keys spread the feature if it admits their parts. -/
private theorem order_spreads :
    ∀ keys : List (LambdaOf Expr × Bool), (∀ x ∈ orderParts keys, F.admits x) → ∀ k ∈ keys, k.1.body.Spreads F
  | [], _ => nofun
  | (⟨_, body⟩, _) :: rest, h =>
    have h := List.forall_mem_append.mp h
    List.forall_mem_cons.mpr ⟨body.spreads h.1, order_spreads rest h.2⟩

/-- The sources and the conditions of admitted joins spread the feature. -/
theorem joins_spread : ∀ joins : List (JoinOf Expr Source), (∀ x ∈ joinsParts joins, F.admits x) →
    ∀ j ∈ joins, j.source.Spreads F ∧ j.on.body.Spreads F
  | [], _ => nofun
  | ⟨_, source, ⟨_, body⟩, _⟩ :: rest, h =>
    have h := List.forall_mem_append.mp h
    have h' := List.forall_mem_append.mp h.2
    List.forall_mem_cons.mpr ⟨⟨source_spreads source h.1, body.spreads h'.1⟩, joins_spread rest h'.2⟩

/-- Keys of groups spread the feature if it admits their parts. -/
private theorem keys_spread : ∀ groupBy : Option (LambdaOf Expr), (∀ x ∈ keysParts groupBy, F.admits x) →
    ∀ l : LambdaOf Expr, groupBy = some l → l.body.Spreads F
  | none, _ => nofun
  | some ⟨_, body⟩, h => fun _ heq => by
    cases heq
    exact body.spreads h

/-- A projection spreads the feature if it admits its parts. -/
private theorem projection_spreads :
    ∀ projection : Option (ProjectionOf Expr), (∀ x ∈ projectionParts projection, F.admits x) →
      ∀ l : LambdaOf Expr, projection = some (.select l) ∨ projection = some (.flatten l) → l.body.Spreads F
  | none, _ => by simp
  | some (.select ⟨_, body⟩), h => fun _ heq => by
    obtain heq | heq := heq
    · cases heq
      exact body.spreads h
    · cases heq
  | some (.flatten ⟨_, body⟩), h => fun _ heq => by
    obtain heq | heq := heq
    · cases heq
    · cases heq
      exact body.spreads h

/-- **Queries spread a feature** if the expressions within may be planned.

**Proof sketch.** The parts of a query are those of its clauses in turn, and each clause spreads the feature by
recursion. -/
theorem query_spreads : ∀ q : QueryOf Expr Source, (∀ x ∈ queryParts q, F.admits x) → Query.Spreads F q
  | ⟨source, _, joins, filters, groupBy, having, orderBy, projection, _, _, _⟩, h =>
    have ⟨hsource, h⟩ := List.forall_mem_append.mp h
    have ⟨hjoins, h⟩ := List.forall_mem_append.mp h
    have ⟨hfilters, h⟩ := List.forall_mem_append.mp h
    have ⟨hkeys, h⟩ := List.forall_mem_append.mp h
    have ⟨hhaving, h⟩ := List.forall_mem_append.mp h
    have ⟨horder, hprojection⟩ := List.forall_mem_append.mp h
    Query.spreads_of_clauses (source_spreads source hsource) (joins_spread joins hjoins)
      (tests_spread filters hfilters) (keys_spread groupBy hkeys) (tests_spread having hhaving)
      (order_spreads orderBy horder) (projection_spreads projection hprojection)

/-- An admitted source spreads the feature. -/
theorem source_spreads : ∀ source : Source, (∀ x ∈ source.parts, F.admits x) → source.Spreads F
  | .entity name, _ => spreads_planEntity name
  | .derived q, h => by
    have hquery := spreads_asSubquery (query_spreads q h)
    exact (hquery.withOwnAliases fun _ _ hp => hp).bind fun s hs => .pure (F.derived hs)
  | .cte c, h => cte_spreads c h
  | .selfRef name, _ => spreads_selfSource name

/-- A common table expression spreads the feature if it admits its parts. -/
private theorem cte_spreads : ∀ c : CteOf (QueryOf Expr Source), (∀ x ∈ (Source.cte c).parts, F.admits x) →
    (planCte c).Spreads F fun planned => F.rows planned.rows
  | ⟨name, columns, anchor, union, recursive⟩, h => by
    obtain ⟨ha, hu⟩ := List.forall_mem_append.mp h
    have hplan := spreads_assembleCte (query_spreads anchor ha) (union_spreads union hu) name columns recursive
    unfold planCte
    refine (spreads_selfShape? name).bind fun shape? _ => ?_
    split
    · exact .pure F.named
    · exact (spreads_planOnce hplan name).bind fun _ _ => .pure F.named

/-- A union member spreads the feature if it admits its parts. -/
private theorem union_spreads : ∀ union : Option (QueryOf Expr Source), (∀ x ∈ unionParts union, F.admits x) →
    ∀ plan : Planning Select, planUnion union = some plan → plan.Spreads F F.select
  | none, _ => nofun
  | some q, h => fun _ heq => by
    cases heq
    exact query_spreads q h

end

end LambdaSql
