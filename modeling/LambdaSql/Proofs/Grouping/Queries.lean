import LambdaSql.Proofs.Grouping.Expressions
import LambdaSql.Proofs.Naming.Queries

/-!
# What planned queries expose

The clauses of a selection read its own tables and whatever is around. Behind a grouping they read its keys instead of
the tables, so if the keys cover what stands in them, the tables of the selection are not exposed there.

## Main definitions

* `Expr.ExposesOnly`, `ExposesSource` - expressions with the members of objects, and what queries read from.
* `Query.OverGroups` - a query with keys whose projection is over its groups.

## Main results

* `query_exposes_of_clauses` - a query, given what its clauses expose.
* `exposesQuery`, `outerExposesOnly` - all queries, and what stands behind a grouping whose keys cover.
-/

namespace LambdaSql

open Planning

variable {covers : Node → Prop} {P P' : Leaf → Prop} {s : Scope} {p p' : Progress}

/-! ## Expressions and sources -/

/-- An expression exposes only what is read from parameters, and so do the members of an object. -/
structure Expr.ExposesOnly (covers : Node → Prop) (e : Expr) : Prop where
  operand : (operand e).ExposesOnly covers
  members : ∀ ms, e = .object ms → ∀ m ∈ members ms, m.2.ExposesOnly covers

/-- What is read from exposes only what is read from parameters. -/
def ExposesSource (covers : Node → Prop) (source : Source) : Prop :=
  ∀ {P s p planned p'}, s.ExposesOnly covers P → (planSource source).Gives s p planned p' →
    planned.rows.ExposeOnly covers P

/-- Rows that are only named expose nothing. -/
theorem Rows.exposeOnly_named (name : String) (schema : Option String) : (named name schema).ExposeOnly covers P :=
  fun _ _ h => h.elim

/-- The table of an entity exposes nothing. -/
private theorem source_exposesEntity (name : String) : ExposesSource covers (.entity name) := by
  intro P s p planned p' _ h
  simp only [planSource, planEntity, gives_bind, gives_read, gives_ofExcept, gives_pure] at h
  obtain ⟨_, _, ⟨rfl, rfl⟩, e, _, ⟨-, rfl⟩, rfl, rfl⟩ := h
  exact Rows.exposeOnly_named _ _

/-- A derived table exposes what its query does. -/
private theorem source_exposesDerived {q : Query} (hquery : ExposesQuery covers q) :
    ExposesSource covers (.derived q) := by
  intro P s p planned p' hs h
  simp only [planSource, gives_bind, gives_withOwnAliases, gives_asSubquery, gives_pure] at h
  obtain ⟨sel, _, ⟨q, hsel, rfl⟩, rfl, rfl⟩ := h
  exact (hquery (hs.projecting false) hsel).exposesOnly

/-- A common table expression is read by its name, so that it exposes nothing. -/
private theorem source_exposesCte (c : CteOf (QueryOf Expr Source)) : ExposesSource covers (.cte c) := by
  intro P s p planned p' _ h
  obtain ⟨name, columns, anchor, union, recursive⟩ := c
  simp only [planSource, planCte] at h
  obtain ⟨shape?, q, -, h⟩ := gives_bind.mp h
  split at h
  · obtain ⟨shape, q', -, hsource⟩ := gives_bind.mp h
    obtain ⟨rfl, rfl⟩ := gives_pure.mp hsource
    exact Rows.exposeOnly_named _ _
  · obtain ⟨shape, q', -, hsource⟩ := gives_bind.mp h
    obtain ⟨rfl, rfl⟩ := gives_pure.mp hsource
    exact Rows.exposeOnly_named _ _

/-- A reference to a common table expression itself exposes nothing. -/
private theorem source_exposesSelfRef (name : String) : ExposesSource covers (.selfRef name) := by
  intro P s p planned p' _ h
  simp only [planSource, selfSource, gives_bind] at h
  obtain ⟨shape?, q, -, h⟩ := h
  split at h
  · obtain ⟨rfl, rfl⟩ := gives_pure.mp h
    exact Rows.exposeOnly_named _ _
  · exact absurd h not_gives_fail

/-! ## Clauses -/

section Clauses

variable {bindings : List Binding} {tables : List TableBinding} {ns : List Node}

/-- Tests expose only what their bodies may. -/
private theorem planTests_exposeOnly (hc : Enduring covers) {tests : List Lambda}
    (h : ∀ l ∈ tests, l.body.ExposesOnly covers)
    (hs : s.ExposesOnly covers P) (hb : ∀ b ∈ bindings, b.ExposesOnly covers P)
    (hg : (planTests bindings tests).Gives s p ns p') : ∀ n ∈ ns, n.ExposesOnly covers P := by
  induction tests generalizing p ns with
  | nil =>
    obtain ⟨rfl, rfl⟩ := gives_pure.mp hg
    exact nofun
  | cons l rest ih =>
    simp only [planTests, gives_bind, gives_pure] at hg
    obtain ⟨n, q, hn, others, q', hothers, rfl, rfl⟩ := hg
    have hvalue := (h l List.mem_cons_self).operand.under hs hb hn
    exact List.forall_mem_cons.mpr ⟨(Node.madeOf_toPredicate n).exposesOnly_one hc hvalue,
      ih (fun l hl => h l (List.mem_cons_of_mem _ hl)) hothers⟩

/-- Sort keys expose only what their bodies may. -/
private theorem planOrder_exposesOnly {keys : List (Lambda × Bool)} (h : ∀ k ∈ keys, k.1.body.ExposesOnly covers)
    (hs : s.ExposesOnly covers P) (hb : ∀ b ∈ bindings, b.ExposesOnly covers P) {ks : List (Node × Bool)}
    (hg : (planOrder bindings keys).Gives s p ks p') : ∀ k ∈ ks, k.1.ExposesOnly covers P := by
  induction keys generalizing p ks with
  | nil =>
    obtain ⟨rfl, rfl⟩ := gives_pure.mp hg
    exact nofun
  | cons k rest ih =>
    simp only [planOrder, gives_bind, gives_pure] at hg
    obtain ⟨n, q, hn, others, q', hothers, rfl, rfl⟩ := hg
    exact List.forall_mem_cons.mpr ⟨(h k List.mem_cons_self).operand.under hs hb hn,
      ih (fun k hk => h k (List.mem_cons_of_mem _ hk)) hothers⟩

/-- Joined tables: their rows see only what is around, and their conditions see the tables as well.

**Proof sketch.** By induction on the joins. The condition of a join sees the tables before it and its own. -/
theorem planJoins_exposeOnly (hc : Enduring covers) {joins : List Join}
    (h : ∀ j ∈ joins, ExposesSource covers j.source ∧ j.on.body.ExposesOnly covers)
    (hs : s.ExposesOnly covers P) (hs' : s.ExposesOnly covers P')
    (ht : ∀ t ∈ tables, (Binding.table t).ExposesOnly covers P') {joined : List Joined} {all : List TableBinding}
    (hnew : ∀ j ∈ joined, ∀ a name, j.table.aliasName = some a → P' (.column (some a) name))
    (hg : (planJoins tables joins).Gives s p (joined, all) p') :
    (∀ j ∈ joined, j.table.rows.ExposeOnly covers P ∧ j.on.ExposesOnly covers P') ∧
      ∀ t ∈ all, (Binding.table t).ExposesOnly covers P' := by
  induction joins generalizing p tables joined with
  | nil =>
    obtain ⟨heq, rfl⟩ := gives_pure.mp hg
    cases heq
    exact ⟨nofun, ht⟩
  | cons j rest ih =>
    obtain ⟨kind, source, ⟨params, body⟩, aliasName⟩ := j
    obtain ⟨hsource, hbody⟩ := h _ List.mem_cons_self
    simp only [planJoins] at hg
    obtain ⟨planned, q, hplanned, hg⟩ := gives_bind.mp hg
    obtain ⟨⟨table, binding⟩, q0, hbind, hg⟩ := gives_bind.mp hg
    obtain ⟨on, q1, hon, hg⟩ := gives_bind.mp hg
    obtain ⟨⟨others, all'⟩, q2, hothers, hg⟩ := gives_bind.mp hg
    obtain ⟨heq, rfl⟩ := gives_pure.mp hg
    cases heq
    obtain ⟨rfl, hbinding, rfl⟩ := gives_bindTable.mp hbind
    have hfirst : (Binding.table binding).ExposesOnly covers P' := by
      rw [hbinding]
      exact TableBinding.exposesOnly fun name => hnew _ List.mem_cons_self _ name rfl
    have htables : ∀ t ∈ tables ++ [binding], (Binding.table t).ExposesOnly covers P' :=
      List.forall_mem_append.mpr ⟨ht, List.forall_mem_singleton.mpr hfirst⟩
    have hcondition := hbody.operand.under hs' (tableBindings_exposeOnly htables) hon
    obtain ⟨hjoined, hall⟩ := ih (fun j hj => h j (List.mem_cons_of_mem _ hj)) htables
      (fun j hj => hnew j (List.mem_cons_of_mem _ hj)) hothers
    exact ⟨List.forall_mem_cons.mpr ⟨⟨hsource hs hplanned,
      (Node.madeOf_toPredicate on).exposesOnly_one hc hcondition⟩, hjoined⟩, hall⟩

/-- The parts of a key that is an object. -/
theorem planMembers_exposeOnly {named : List (String × Operand)} (h : ∀ m ∈ named, m.2.ExposesOnly covers)
    (hs : s.ExposesOnly covers P) {ks : List (String × Node)}
    (hg : (named.mapM fun ((name, o) : String × Operand) => do return (name, ← o.value)).Gives s p ks p') :
    ∀ k ∈ ks, k.2.ExposesOnly covers P := by
  induction named generalizing p ks with
  | nil =>
    obtain ⟨rfl, rfl⟩ := gives_mapM_nil.mp hg
    exact nofun
  | cons m rest ih =>
    obtain ⟨k, q, others, hk, hothers, rfl⟩ := gives_mapM_cons.mp hg
    simp only [gives_bind, gives_pure] at hk
    obtain ⟨n, _, hn, rfl, rfl⟩ := hk
    exact List.forall_mem_cons.mpr ⟨(h m List.mem_cons_self).exposes hs (.value hn) n List.mem_cons_self,
      ih (fun m hm => h m (List.mem_cons_of_mem _ hm)) hothers⟩

/-- The keys of groups expose only what their bodies may.

**Proof sketch.** A key that is an object has a key for each member, and any other one is a single key. -/
private theorem planKeys_exposeOnly {groupBy : Option Lambda} (h : ∀ l, groupBy = some l → l.body.ExposesOnly covers)
    (hs : s.ExposesOnly covers P) (hb : ∀ b ∈ bindings, b.ExposesOnly covers P)
    {keys : Option (List (String × Node))} (hg : (planKeys bindings groupBy).Gives s p keys p') :
    ∀ ks, keys = some ks → ∀ k ∈ ks, k.2.ExposesOnly covers P := by
  cases groupBy with
  | none =>
    obtain ⟨rfl, rfl⟩ := gives_pure.mp hg
    exact nofun
  | some l =>
    obtain ⟨params, body⟩ := l
    have hbody := h _ rfl
    have one (hg : (do
        let n ← (operand body).under params bindings
        return some [(keyName body, n)] : Planning (Option (List (String × Node)))).Gives s p keys p') :
        ∀ ks, keys = some ks → ∀ k ∈ ks, k.2.ExposesOnly covers P := by
      simp only [gives_bind, gives_pure] at hg
      obtain ⟨n, q, hn, rfl, rfl⟩ := hg
      intro ks hks
      cases hks
      exact List.forall_mem_singleton.mpr (hbody.operand.under hs hb hn)
    cases body with
    | object ms =>
      simp only [planKeys, gives_withFrame, gives_bind, gives_pure] at hg
      obtain ⟨-, named, q, hnamed, rfl, rfl⟩ := hg
      intro ks hks
      cases hks
      exact planMembers_exposeOnly (hbody.members ms rfl) (hs.under hb params) hnamed
    | _ => exact one hg

/-- A projection exposes only what its parameters do; without one it is over all columns.

**Proof sketch.** By the form of the projection. One that is laid over a table reads the tables, groups or not, and
without a projection of its own a selection is over its groups, or else over its first table. -/
theorem planProjection_exposesOnly {grouping : Option Grouping} {projection : Option Projection}
    (h : ∀ l, projection = some (.select l) ∨ projection = some (.flatten l) → l.body.ExposesOnly covers)
    (hs : s.ExposesOnly covers P) (hb : ∀ b ∈ bindings, b.ExposesOnly covers P)
    (hg : ∀ g, grouping = some g → (Binding.grouping g).ExposesOnly covers P)
    (ht : (∃ l, projection = some (.flatten l)) ∨ grouping = none →
      ∀ t ∈ tables, (Binding.table t).ExposesOnly covers P) {out : Projected}
    (hout : (planProjection tables bindings grouping projection).Gives s p out p') : out.ExposesOnly covers P := by
  cases projection with
  | none =>
    obtain ⟨rfl, rfl⟩ := gives_pure.mp hout
    exact Projected.exposesOnly_whole (fun h => ht (.inr h)) hg
  | some projection =>
    cases projection with
    | select l =>
      obtain ⟨params, body⟩ := l
      have hbody := h _ (.inl rfl)
      cases body with
      | object ms =>
        simp only [planProjection, gives_withFrame] at hout
        exact Projected.exposesOnly_object .empty (hs.under hb params) (hbody.members ms rfl) hout.2
      | _ => exact Projected.exposesOnly_body .empty (hs.under hb params) hbody.operand (gives_withFrame.mp hout).2
    | flatten l =>
      obtain ⟨params, body⟩ := l
      have hbody := h _ (.inr rfl)
      have htables := ht (.inl ⟨_, rfl⟩)
      cases body with
      | object ms =>
        simp only [planProjection, gives_withFrame] at hout
        exact Projected.exposesOnly_overlay (Projected.exposesOnly_whole (fun _ => htables) (by simp))
          (hs.under (tableBindings_exposeOnly htables) params) (hbody.members ms rfl) hout.2
      | _ => exact absurd (gives_withFrame.mp hout).2 not_gives_fail

end Clauses

/-! ## Queries -/

/-- The columns, the tests of groups and the sort keys, given what is read from their parameters. -/
theorem outerClauses_exposeOnly (hc : Enduring covers) {tables : List TableBinding} {bindings : List Binding}
    {grouping : Option Grouping} {projection : Option Projection} {having : List Lambda}
    {orderBy : List (Lambda × Bool)}
    (hprojection : ∀ l, projection = some (.select l) ∨ projection = some (.flatten l) → l.body.ExposesOnly covers)
    (hhaving : ∀ l ∈ having, l.body.ExposesOnly covers) (horder : ∀ k ∈ orderBy, k.1.body.ExposesOnly covers)
    {q q' : Progress} {out : Projected} {tests : List Node} {order : List (Node × Bool)}
    (hout : (planProjection tables bindings grouping projection).Gives s p out q)
    (htests : (planTests bindings having).Gives s q tests q')
    (hordered : (planOrder bindings orderBy).Gives s q' order p')
    (hs : s.ExposesOnly covers P) (hb : ∀ b ∈ bindings, b.ExposesOnly covers P)
    (hg : ∀ g, grouping = some g → (Binding.grouping g).ExposesOnly covers P)
    (ht : (∃ l, projection = some (.flatten l)) ∨ grouping = none →
      ∀ t ∈ tables, (Binding.table t).ExposesOnly covers P) :
    (∀ c ∈ out.columns, c.node.ExposesOnly covers P) ∧
      (∀ n, Node.conjunction tests = some n → n.ExposesOnly covers P) ∧ ∀ k ∈ order, k.1.ExposesOnly covers P :=
  ⟨List.forall_mem_map.mp (planProjection_exposesOnly hprojection hs hb hg ht hout),
    fun _ hn => (Node.madeOf_conjunction hn).exposesOnly hc (planTests_exposeOnly hc hhaving hs hb htests),
    planOrder_exposesOnly horder hs hb hordered⟩

/-- A query that groups has keys. -/
theorem planKeys_isSome {bindings : List Binding} {l : Lambda} {keys : Option (List (String × Node))}
    (h : (planKeys bindings (some l)).Gives s p keys p') : ∃ ks, keys = some ks := by
  obtain ⟨params, body⟩ := l
  have one (h : (do
      let n ← (operand body).under params bindings
      return some [(keyName body, n)] : Planning (Option (List (String × Node)))).Gives s p keys p') :
      ∃ ks, keys = some ks := by
    simp only [gives_bind, gives_pure] at h
    obtain ⟨n, q, -, rfl, -⟩ := h
    exact ⟨_, rfl⟩
  cases body with
  | object ms =>
    simp only [planKeys, gives_withFrame, gives_bind, gives_pure] at h
    obtain ⟨-, named, q, -, rfl, -⟩ := h
    exact ⟨_, rfl⟩
  | _ => exact one h

/-- What is returned is over the groups of a query: it has keys, and it does not lay an object over a row. -/
structure Query.OverGroups (q : Query) : Prop where
  grouped : q.groupBy ≠ none
  projection : ∀ l, q.projection ≠ some (.flatten l)

/-- A query, given what its clauses expose. Behind a grouping whose keys cover what stands in them, not even its own
tables are exposed.

**Proof sketch.** The clauses are planned in a scope in which the tables of the selection are exposed as well. The
outer clauses of a grouped query see its keys only: if these are covered they expose nothing, so that the outer
clauses are planned as if the tables were not there. -/
theorem query_exposes_of_clauses (hc : Enduring covers) {q : Query} (hsource : ExposesSource covers q.source)
    (hjoins : ∀ j ∈ q.joins, ExposesSource covers j.source ∧ j.on.body.ExposesOnly covers)
    (hfilters : ∀ l ∈ q.filters, l.body.ExposesOnly covers)
    (hgroupBy : ∀ l, q.groupBy = some l → l.body.ExposesOnly covers)
    (hhaving : ∀ l ∈ q.having, l.body.ExposesOnly covers) (horder : ∀ k ∈ q.orderBy, k.1.body.ExposesOnly covers)
    (hprojection : ∀ l, q.projection = some (.select l) ∨ q.projection = some (.flatten l) →
      l.body.ExposesOnly covers) {sel : Select} (hs : s.ExposesOnly covers P)
    (h : (planQuery q).Gives s p sel p') :
    Select.ClausesExposeOnly covers P sel ∧
      (q.OverGroups → (∀ k ∈ sel.groupBy, covers k) → Select.OuterExposesOnly covers P sel) := by
  obtain ⟨source, aliasName, joins, filters, groupBy, having, orderBy, projection, _, _, _⟩ := q
  simp only [planQuery] at h
  obtain ⟨planned, q, hplanned, h⟩ := gives_bind.mp h
  obtain ⟨⟨table, first⟩, p0, hbind, h⟩ := gives_bind.mp h
  obtain ⟨⟨joined, tables⟩, p1, hjoined, h⟩ := gives_bind.mp h
  obtain ⟨tests, p2, htests, h⟩ := gives_bind.mp h
  obtain ⟨keys, p3, hkeys, h⟩ := gives_bind.mp h
  obtain ⟨out, p4, hout, h⟩ := gives_bind.mp h
  obtain ⟨groupTests, p5, hgroupTests, h⟩ := gives_bind.mp h
  obtain ⟨order, p6, hordered, h⟩ := gives_bind.mp h
  obtain ⟨rfl, rfl⟩ := gives_pure.mp h
  obtain ⟨htable, hbinding, rfl⟩ := gives_bindTable.mp hbind
  -- inside, there are the tables of the selection as well
  have hs' : s.ExposesOnly covers (Leaf.OrOf P (table :: joined.map (·.table))) := hs.mono fun _ => .inl
  have hfirst : (Binding.table first).ExposesOnly covers (Leaf.OrOf P (table :: joined.map (·.table))) := by
    rw [hbinding]
    exact TableBinding.exposesOnly fun name => .inr ⟨table, List.mem_cons_self, _, name, by rw [htable], rfl⟩
  obtain ⟨hrows, htables⟩ := planJoins_exposeOnly hc hjoins hs hs' (List.forall_mem_singleton.mpr hfirst)
    (fun j hj a name ha => .inr ⟨_, List.mem_cons_of_mem _ (List.mem_map_of_mem hj), a, name, ha, rfl⟩) hjoined
  have hinner := tableBindings_exposeOnly htables
  have hks := planKeys_exposeOnly hgroupBy hs' hinner hkeys
  have hfirstRows : table.rows.ExposeOnly covers P := by
    rw [htable]
    exact hsource hs hplanned
  have hfiltered (n : Node) (hn : Node.conjunction tests = some n) :=
    (Node.madeOf_conjunction hn).exposesOnly hc (planTests_exposeOnly hc hfilters hs' hinner htests)
  have outer {P' : Leaf → Prop} (hs' : s.ExposesOnly covers P') :=
    outerClauses_exposeOnly hc hprojection hhaving horder hout hgroupTests hordered hs'
  cases keys with
  | none =>
    obtain ⟨hcolumns, hhaving, horder⟩ := outer hs' hinner nofun fun _ => htables
    refine ⟨⟨⟨hcolumns, hhaving, horder⟩, hfirstRows, hrows, hfiltered, nofun⟩, fun hgroups => ?_⟩
    obtain ⟨l, hl⟩ := Option.ne_none_iff_exists'.mp hgroups.grouped
    cases hl
    obtain ⟨ks, hks⟩ := planKeys_isSome hkeys
    cases hks
  | some ks =>
    -- a grouping is read by its keys
    have grouped {P' : Leaf → Prop} (hks : ∀ k ∈ ks, k.2.ExposesOnly covers P') :
        (Binding.grouping ⟨ks, tables⟩).ExposesOnly covers P' := by
      intro n hn
      cases hn with
      | key hmem => exact hks _ hmem
    have hgroup := grouped (hks ks rfl)
    obtain ⟨hcolumns, hhaving, horder⟩ := outer hs' (List.forall_mem_singleton.mpr hgroup)
      (fun _ hg => Option.some.inj hg ▸ hgroup) fun _ => htables
    refine ⟨⟨⟨hcolumns, hhaving, horder⟩, hfirstRows, hrows, hfiltered, List.forall_mem_map.mpr (hks ks rfl)⟩,
      fun hgroups hcovers => ?_⟩
    -- keys that are covered expose nothing
    have hcovered : (Binding.grouping ⟨ks, tables⟩).ExposesOnly covers P :=
      grouped fun k hk => Node.exposesOnly_of_covers (hcovers _ (List.mem_map_of_mem hk))
    have hno : ¬ ((∃ l, projection = some (.flatten l)) ∨ (some (⟨ks, tables⟩ : Grouping)) = none) := by
      rintro (⟨l, hl⟩ | hl)
      · exact hgroups.projection l hl
      · cases hl
    obtain ⟨hcolumns, hhaving, horder⟩ := outer hs (List.forall_mem_singleton.mpr hcovered)
      (fun _ hg => Option.some.inj hg ▸ hcovered) fun h => absurd h hno
    exact ⟨hcolumns, hhaving, horder⟩

/-! ## All queries -/

mutual

/-- **Every expression exposes only what is read from parameters**, by induction on the expression. -/
theorem Expr.exposesOnly (hc : Enduring covers) : ∀ e : Expr, e.ExposesOnly covers
  | .constant v => ⟨constant_exposesOnly hc v, nofun⟩
  | .captured name v => ⟨captured_exposesOnly hc name v, nofun⟩
  | .param name => ⟨param_exposesOnly hc name, nofun⟩
  | .static type name => ⟨static_exposesOnly hc type name, nofun⟩
  | .member target name => ⟨member_exposesOnly hc (target.exposesOnly hc).operand name, nofun⟩
  | .call (some target) type method args =>
    ⟨call_exposesOnly hc (target.exposesOnly hc).operand (operands_exposeOnly hc args) type method, nofun⟩
  | .call none type method args => ⟨callOf_exposesOnly hc (operands_exposeOnly hc args) type method, nofun⟩
  | .binary op left right =>
    ⟨binary_exposesOnly hc (left.exposesOnly hc).operand (right.exposesOnly hc).operand op, nofun⟩
  | .unary op inner => ⟨unary_exposesOnly hc (inner.exposesOnly hc).operand op, nofun⟩
  | .conditional test a b =>
    ⟨conditional_exposesOnly hc (test.exposesOnly hc).operand (a.exposesOnly hc).operand
      (b.exposesOnly hc).operand, nofun⟩
  | .convert inner target => ⟨convert_exposesOnly hc (inner.exposesOnly hc).operand target, nofun⟩
  | .query q => ⟨query_exposesOnly hc (exposesQuery hc q), nofun⟩
  | .array items => ⟨array_exposesOnly hc (operands_exposeOnly hc items), nofun⟩
  | .object ms => ⟨object_exposesOnly hc ms, fun _ hms => by
      cases hms
      exact members_exposeOnly hc ms⟩
  | .lambda params body => ⟨lambda_exposesOnly hc params body, nofun⟩

/-- Operands expose only what may be exposed. -/
private theorem operands_exposeOnly (hc : Enduring covers) : ∀ es : List Expr, ∀ o ∈ operands es, o.ExposesOnly covers
  | [] => nofun
  | e :: rest => List.forall_mem_cons.mpr ⟨(e.exposesOnly hc).operand, operands_exposeOnly hc rest⟩

/-- Members expose only what may be exposed. -/
private theorem members_exposeOnly (hc : Enduring covers) :
    ∀ ms : List (String × Expr), ∀ m ∈ members ms, m.2.ExposesOnly covers
  | [] => nofun
  | (_, e) :: rest => List.forall_mem_cons.mpr ⟨(e.exposesOnly hc).operand, members_exposeOnly hc rest⟩

/-- The bodies of tests expose only what may be exposed. -/
private theorem tests_exposeOnly (hc : Enduring covers) :
    ∀ tests : List (LambdaOf Expr), ∀ l ∈ tests, l.body.ExposesOnly covers
  | [] => nofun
  | ⟨_, body⟩ :: rest => List.forall_mem_cons.mpr ⟨body.exposesOnly hc, tests_exposeOnly hc rest⟩

/-- The bodies of sort keys expose only what may be exposed. -/
private theorem order_exposesOnly (hc : Enduring covers) :
    ∀ keys : List (LambdaOf Expr × Bool), ∀ k ∈ keys, k.1.body.ExposesOnly covers
  | [] => nofun
  | (⟨_, body⟩, _) :: rest => List.forall_mem_cons.mpr ⟨body.exposesOnly hc, order_exposesOnly hc rest⟩

/-- Joined sources and the conditions of joins expose only what may be exposed. -/
private theorem joins_exposeOnly (hc : Enduring covers) : ∀ joins : List (JoinOf Expr Source),
    ∀ j ∈ joins, ExposesSource covers j.source ∧ j.on.body.ExposesOnly covers
  | [] => nofun
  | ⟨_, source, ⟨_, body⟩, _⟩ :: rest =>
    List.forall_mem_cons.mpr ⟨⟨exposesSource hc source, body.exposesOnly hc⟩, joins_exposeOnly hc rest⟩

/-- The body of a grouping exposes only what may be exposed. -/
private theorem keys_exposeOnly (hc : Enduring covers) :
    ∀ (groupBy : Option (LambdaOf Expr)) (l : LambdaOf Expr), groupBy = some l → l.body.ExposesOnly covers
  | none => nofun
  | some ⟨_, body⟩ => fun _ h => by
    cases h
    exact body.exposesOnly hc

/-- The body of a projection exposes only what may be exposed. -/
private theorem projection_exposesOnly (hc : Enduring covers) :
    ∀ (projection : Option (ProjectionOf Expr)) (l : LambdaOf Expr),
    projection = some (.select l) ∨ projection = some (.flatten l) → l.body.ExposesOnly covers
  | none => by simp
  | some (.select ⟨_, body⟩) => fun _ h => by
    obtain h | h := h
    · cases h
      exact body.exposesOnly hc
    · cases h
  | some (.flatten ⟨_, body⟩) => fun _ h => by
    obtain h | h := h
    · cases h
    · cases h
      exact body.exposesOnly hc

/-- **Every query exposes only what is read from parameters.** -/
theorem exposesQuery (hc : Enduring covers) : ∀ q : QueryOf Expr Source, ExposesQuery covers q
  | ⟨source, _, joins, filters, groupBy, having, orderBy, projection, _, _, _⟩ => fun hs h =>
    (query_exposes_of_clauses hc (exposesSource hc source) (joins_exposeOnly hc joins) (tests_exposeOnly hc filters)
      (keys_exposeOnly hc groupBy) (tests_exposeOnly hc having) (order_exposesOnly hc orderBy)
      (projection_exposesOnly hc projection) hs h).1

/-- Sources expose only what may be exposed. -/
private theorem exposesSource (hc : Enduring covers) : ∀ source : Source, ExposesSource covers source
  | .entity name => source_exposesEntity name
  | .derived q => source_exposesDerived (exposesQuery hc q)
  | .cte c => source_exposesCte c
  | .selfRef name => source_exposesSelfRef name

end

/-- Behind a grouping whose keys cover what stands in them, a query exposes only what is read from the parameters
around it. -/
theorem outerExposesOnly (hc : Enduring covers) (q : Query) {sel : Select} (hs : s.ExposesOnly covers P)
    (h : (planQuery q).Gives s p sel p') (hq : q.OverGroups) (hcovers : ∀ k ∈ sel.groupBy, covers k) : Select.OuterExposesOnly covers P sel :=
  (query_exposes_of_clauses hc (exposesSource hc q.source) (joins_exposeOnly hc q.joins)
    (tests_exposeOnly hc q.filters) (keys_exposeOnly hc q.groupBy) (tests_exposeOnly hc q.having)
    (order_exposesOnly hc q.orderBy) (projection_exposesOnly hc q.projection) hs h).2 hq hcovers

end LambdaSql
