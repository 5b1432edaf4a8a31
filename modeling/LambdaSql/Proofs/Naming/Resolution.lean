import LambdaSql.Proofs.Naming.Queries
import LambdaSql.Proofs.Scoping.Queries
import LambdaSql.Statement.Query

/-!
# Columns mean what they were written for

In a query that reads mapped entities, every column of the plan means the table that the lambda parameter
stands for through which it was written, in whatever subquery it stands. The columns that a query refers to
also account for those of its plan.

## Main results

* `query_faithful` - a planned query refers to what it should, given that its expressions do.
* `Expr.operand_isFaithful` - every direct expression refers to what it should.
* `Query.columns_denote` - the columns of a plan mean what they should, and the aliases of a selection and
  of those around it are all different.
-/

namespace LambdaSql

open Planning

variable {s : Scope} {places : Places} {p p' : Progress} {around : List Level}

/-! ## Projections -/

/-- Planned projections. -/
def FaithfulProjection (projection : Option Projection) : Prop :=
  ∀ {s tables bindings grouping p out p'},
    (planProjection tables bindings grouping projection).Gives s p out p' →
    p.nextAlias ≤ p'.nextAlias ∧ ∀ {places around seats bound keys}, Apt s places p p' around →
      List.Forall₂ (TableBinding.StandsFor around) tables seats →
      Bound s.compiler.options.firstAlias p.nextAlias around bindings bound →
      Option.Rel (fun g ks => KeysStand s.compiler.options.firstAlias p.nextAlias around
        (Grouping.keys g) ks) grouping keys →
      out.Accounts around
        (projectionReferences s.compiler.model places around.length seats bound keys projection)

/-- A selection without projection refers to what it should. -/
private theorem projection_none : FaithfulProjection none := by
  intro s tables bindings grouping p out p' h
  simp only [planProjection, gives_pure] at h
  obtain ⟨rfl, rfl⟩ := h
  refine ⟨le_rfl, fun ha ht _ hk => ?_⟩
  exact Projected.accounts_whole ha.distinct ht hk

/-- A projected object refers to what it should if its members do. -/
private theorem projection_object {params : List String} {ms : List (String × Expr)}
    (hms : ∀ m ∈ members ms, m.2.IsFaithful) :
    FaithfulProjection (some (.select ⟨params, .object ms⟩)) := by
  intro s tables bindings grouping p out p' h
  simp only [planProjection, gives_withFrame] at h
  have hle := (Projected.accounts_object hms h.2 : _ ∧ ∀ around _, Apt _ [] _ _ around → _).1
  refine ⟨hle, fun ha _ hb _ => ?_⟩
  have haccounts := (Projected.accounts_object hms h.2).2 _ 0 (ha.under hb params) .empty
  rwa [zero_add, sum_members] at haccounts

/-- A projected expression refers to what it should if it does so as a value. -/
private theorem projection_body {params : List String} {body : Expr} (hbody : (operand body).IsFaithful)
    (hne : ∀ ms, body ≠ .object ms) : FaithfulProjection (some (.select ⟨params, body⟩)) := by
  intro s tables bindings grouping p out p' h
  have hplan : planProjection tables bindings grouping (some (.select ⟨params, body⟩)) =
      withFrame params bindings (Projected.body {} (operand body)) := by
    rw [planProjection]
    exact hne
  rw [hplan, gives_withFrame] at h
  have hle := (Projected.accounts_body hbody h.2 : _ ∧ ∀ around _, Apt _ [] _ _ around → _).1
  refine ⟨hle, fun ha _ hb _ => ?_⟩
  have haccounts := (Projected.accounts_body hbody h.2).2 _ 0 (ha.under hb params) .empty
  rwa [zero_add, operand_source] at haccounts

/-- An object that is laid over a table refers to what it should if its members do. -/
private theorem projection_flatten {params : List String} {body : Expr}
    (hms : ∀ ms, body = .object ms → ∀ m ∈ members ms, m.2.IsFaithful) :
    FaithfulProjection (some (.flatten ⟨params, body⟩)) := by
  intro s tables bindings grouping p out p' h
  cases body with
  | object ms =>
    simp only [planProjection, gives_withFrame] at h
    have hle := (Projected.accounts_overlay (hms ms rfl) h.2 :
      _ ∧ ∀ around _, Apt _ [] _ _ around → _).1
    refine ⟨hle, fun {places around seats bound keys} ha ht hb _ => ?_⟩
    have htables : Bound s.compiler.options.firstAlias p.nextAlias around (tableBindings tables)
        (seats.map .table) := by
      unfold tableBindings
      rw [Bound, List.forall₂_map_left_iff, List.forall₂_map_right_iff]
      exact ht.imp fun _ _ h => .table h
    have hwhole : Projected.Accounts _ around (wholeReferences around.length seats none) :=
      Projected.accounts_whole ha.distinct ht
        (.none : Option.Rel (fun g ks => KeysStand 'a' 0 around (Grouping.keys g) ks) none none)
    have haccounts := (Projected.accounts_overlay (hms ms rfl) h.2).2 _ _ (ha.under htables params) hwhole
    rwa [sum_members] at haccounts
  | _ => simp [planProjection] at h

/-! ## Queries -/

/-- Once the tables of a selection have their aliases, the selection's place is apt for what is planned
after them. -/
theorem Opened.apt {q : Progress} {positions : List Nat} {tables : List Table}
    {bindings : List TableBinding} {entities : List (Option Entity)}
    (h : Opened s p q positions tables bindings entities) (ha : Apt s places p p' around)
    (hpq : p.nextAlias ≤ q.nextAlias) (hqp' : q.nextAlias ≤ p'.nextAlias) (deferring : Bool) :
    Apt s places q p' (⟨tables, deferring⟩ :: around) where
  distinct := h.nodup (ha.within le_rfl hqp') deferring
  clear := by
    intro position h1 h2 hmem
    rw [h.aliases_eq, List.mem_append] at hmem
    obtain hmem | hmem := hmem
    · obtain ⟨other, ho, heq⟩ := List.mem_map.mp hmem
      have := (h.within other ho).2
      have := aliasAt_injective _ heq
      omega
    · exact ha.clear position (hpq.trans h1) h2 hmem
  frames := ha.frames.deepen hpq (h.fromOn deferring) (h.nodup (ha.within le_rfl hqp') deferring)

/-- The tables of a selection as bindings stand for its seats. -/
theorem Opened.bound {q : Progress} {positions : List Nat} {tables : List Table}
    {bindings : List TableBinding} {entities : List (Option Entity)}
    (h : Opened s p q positions tables bindings entities) (deferring : Bool) (limit : Nat) :
    Bound s.compiler.options.firstAlias limit (⟨tables, deferring⟩ :: around) (tableBindings bindings)
      ((tablePlaces around.length entities).map .table) := by
  unfold tableBindings
  rw [Bound, List.forall₂_map_left_iff, List.forall₂_map_right_iff]
  exact (h.stands deferring).imp fun _ _ h => .table h

/-- Tests that are accounted for are so when they are joined. -/
theorem Accounts.conjunction {ns : List Node} {rs : Multiset Reference}
    (h : Accounts (nodesOccurrences around ns) rs) :
    Accounts (optionOccurrences around (Node.conjunction ns)) rs := by
  refine h.mono ?_ le_rfl
  cases hc : Node.conjunction ns with
  | none => exact zero_le
  | some n =>
    have hle := (Node.madeOf_conjunction hc).le around
    exact hle

/-- What a grouped query's later clauses are bound to stands for its groups, and otherwise for its
tables. -/
theorem bound_outer {first : Char} {limit : Nat} {tables : List TableBinding} {seats : List TablePlace}
    {keys : Option (List (String × Node))}
    {references : Option (List (String × (Nat → Multiset Reference)))} :
    Option.Rel (KeysStand first limit around) keys references →
    List.Forall₂ (TableBinding.StandsFor around) tables seats →
    Bound first limit around
      (match keys.map fun ks => (⟨ks, tables⟩ : Grouping) with
        | some g => [.grouping g]
        | none => tableBindings tables)
      (match references with
        | some ks => [.grouping ks seats]
        | none => seats.map .table) := by
  intro hk ht
  cases hk with
  | some hk => exact .cons (.grouping hk ht) .nil
  | none =>
    show Bound first limit around (tableBindings tables) (seats.map .table)
    unfold tableBindings
    rw [Bound, List.forall₂_map_left_iff, List.forall₂_map_right_iff]
    exact ht.imp fun _ _ h => .table h

/-- The keys of a grouping are the keys of a grouped query. -/
theorem rel_grouping {first : Char} {limit : Nat} {tables : List TableBinding}
    {keys : Option (List (String × Node))}
    {references : Option (List (String × (Nat → Multiset Reference)))}
    (hk : Option.Rel (KeysStand first limit around) keys references) :
    Option.Rel (fun g ks => KeysStand first limit around (Grouping.keys g) ks)
      (keys.map fun ks => (⟨ks, tables⟩ : Grouping)) references := by
  cases hk with
  | some hk => exact .some hk
  | none => exact .none

/-- The keys of a grouped query are accounted for, and there is nothing to account for without. -/
theorem accounts_keys {first : Char} {limit : Nat} {keys : Option (List (String × Node))}
    {references : Option (List (String × (Nat → Multiset Reference)))}
    (hk : Option.Rel (KeysStand first limit around) keys references) (hd : (aliases around).Nodup) :
    Accounts (nodesOccurrences around ((keys.getD []).map Prod.snd))
      (keysReferences around.length (references.getD [])) := by
  cases hk with
  | some hk => exact hk.accounts hd
  | none => exact .zero

/-- The columns of a projection are accounted for in their own place. -/
theorem Projected.Accounts.whole {out : Projected} {tables : List Table} {rs : Multiset Reference}
    (h : out.Accounts (⟨tables, !out.deferred.isEmpty⟩ :: around) rs) :
    LambdaSql.Accounts (nodesOccurrences (⟨tables, !out.deferred.isEmpty⟩ :: around) out.nodes) rs := by
  cases hd : out.deferred with
  | nil => exact hd ▸ h.denoted hd
  | cons d rest =>
    rw [hd] at h
    have hinner : ∀ o ∈ nodesOccurrences (⟨tables, true⟩ :: around) out.nodes,
        ∃ inner, o.around = inner ++ ⟨tables, true⟩ :: around := by
      intro o ho
      obtain ⟨n, -, ho⟩ := mem_nodesOccurrences.mp ho
      exact n.around_of_mem ho
    exact .of_deferring h.distinct hinner rfl

/-- A selection is accounted for by what accounts for its clauses. -/
theorem accounts_select {sel : Select} {onRefs testRefs keyRefs columnRefs groupRefs orderRefs : Multiset Reference}
    (hd : (aliases (⟨sel.tables, false⟩ :: around)).Nodup)
    (htable : tableOccurrences around sel.table = 0)
    (hjoins : Accounts (joinOccurrences around (⟨sel.tables, false⟩ :: around) sel.joins) onRefs)
    (hfilter : Accounts (optionOccurrences (⟨sel.tables, false⟩ :: around) sel.filter) testRefs)
    (hkeys : Accounts (nodesOccurrences (⟨sel.tables, false⟩ :: around) sel.groupBy) keyRefs)
    (hcolumns : Accounts (nodesOccurrences (⟨sel.tables, !sel.deferred.isEmpty⟩ :: around)
      (sel.columns.map (·.node))) columnRefs)
    (hhaving : Accounts (optionOccurrences (⟨sel.tables, false⟩ :: around) sel.having) groupRefs)
    (horder : Accounts (nodesOccurrences (⟨sel.tables, false⟩ :: around) (sel.orderBy.map Prod.fst))
      orderRefs) :
    Accounts (selectOccurrences around sel)
      (onRefs + testRefs + keyRefs + columnRefs + groupRefs + orderRefs) := by
  have hself : Accounts {⟨⟨sel.tables, false⟩ :: around, .selection⟩} 0 := by
    refine ⟨fun o ho => ?_, ?_⟩
    · rw [Multiset.mem_singleton.mp ho]
      exact hd
    · rw [← Multiset.cons_zero, Multiset.filterMap_cons, Multiset.filterMap_zero]
      unfold Occurrence.denoted?
      split <;> exact zero_le
  obtain ⟨_, columns, table, joins, filter, groupBy, having, orderBy, _, _, _, deferred⟩ := sel
  have hall := (((((hself.add hcolumns).add hjoins).add hfilter).add hkeys).add hhaving).add horder
  refine hall.mono ?_ (le_of_eq (by abel))
  simp only [selectOccurrences, columnOccurrences_eq, orderOccurrences_eq, htable, add_zero,
    SelectOf.tables]
  exact le_rfl

/-- Planned queries. -/
def FaithfulQuery (q : Query) : Prop :=
  ∀ {s : Scope} (places : Places) {p : Progress} {sel : Select} {p' : Progress} (t : HostType),
    (planQuery q).Gives s p sel p' → Faithful s places p [.subquery sel t] p' fun depth =>
      queryReferences s.compiler.model places depth q

/-- **A planned query refers to what it should**, given that its clauses do.

The tables of the selection get the aliases of positions that no selection around uses, so its place is
apt for every clause; its columns are accounted for unless an expression among them is left for evaluation
after fetching. -/
theorem query_faithful {source : Source} {joins : List Join} {filters having : List Lambda}
    {groupBy : Option Lambda} {orderBy : List (Lambda × Bool)} {projection : Option Projection}
    {distinct : Bool} {limit offset : Option Nat} (hsource : source.isEntity = true)
    (hjoins : FaithfulJoins joins) (hfilters : FaithfulTests filters) (hkeys : FaithfulKeys groupBy)
    (hhaving : FaithfulTests having) (horder : FaithfulOrder orderBy)
    (hprojection : FaithfulProjection projection) :
    FaithfulQuery ⟨source, none, joins, filters, groupBy, having, orderBy, projection, distinct,
      limit, offset⟩ := by
  intro s places p sel p' t h
  simp only [planQuery] at h
  obtain ⟨planned, q, hplanned, h⟩ := gives_bind.mp h
  obtain ⟨⟨table, first⟩, p0, hbind, h⟩ := gives_bind.mp h
  obtain ⟨name, schema, rfl, hname, hentity, rfl⟩ :=
    gives_entitySource hsource (gives_bind.mpr ⟨planned, q, hplanned, hbind⟩)
  obtain ⟨⟨joined, tables⟩, p1, hjoined, h⟩ := gives_bind.mp h
  obtain ⟨tests, p2, htests, h⟩ := gives_bind.mp h
  obtain ⟨ks, p3, hks, h⟩ := gives_bind.mp h
  obtain ⟨out, p4, hout, h⟩ := gives_bind.mp h
  obtain ⟨groupTests, p5, hgroupTests, h⟩ := gives_bind.mp h
  obtain ⟨order, p6, hordered, h⟩ := gives_bind.mp h
  obtain ⟨rfl, rfl⟩ := gives_pure.mp h
  obtain ⟨hle1, positions, new, rfl, hopened, hon⟩ := hjoins hjoined
  have htests' := hfilters htests
  obtain ⟨hle3, hkeys'⟩ := hkeys hks
  obtain ⟨hle4, hprojected⟩ := hprojection hout
  have hgroupTests' := hhaving hgroupTests
  have hordered' := horder hordered
  have hle0 : p.nextAlias + 1 ≤ p1.nextAlias := hle1
  have hle2 := htests'.le
  have hle5 := hgroupTests'.le
  have hle6 := hordered'.le
  refine ⟨by omega, fun around ha => ?_⟩
  have hall : Opened s p p1 (p.nextAlias :: positions)
      (⟨.named name schema, some (aliasAt s.compiler.options.firstAlias p.nextAlias)⟩ ::
        joined.map (·.table)) (first :: new) _ :=
    hopened.cons (by exact Nat.lt_succ_self _) hle1 hname hentity
  have apt := hall.apt ha (by omega) (by omega)
  have hstands (deferring : Bool) :
      List.Forall₂ (TableBinding.StandsFor (⟨_, deferring⟩ :: around)) _ _ := hall.stands deferring
  have hbound (deferring : Bool) (limit : Nat) :
      Bound _ limit (⟨_, deferring⟩ :: around) _ _ := hall.bound deferring limit
  -- the conditions of joins
  have hconditions := hon
    ((hall.aptBut (ha.within le_rfl (by omega)) false).later (by exact Nat.lt_succ_self _)
      (by exact Nat.le_succ _)) (hstands false) around
  -- the rows are tested, and grouped by keys
  have hfiltered := htests'.accounts ((apt false).within le_rfl (by omega)) (hbound false _)
  have hgrouped (deferring : Bool) :=
    hkeys' ((apt deferring).within hle2 (by omega)) (hbound deferring _)
  have houter (deferring : Bool) := bound_outer (hgrouped deferring) (hstands deferring)
  -- the columns, which may stand beside deferred expressions
  have hcolumns := hprojected ((apt (!out.deferred.isEmpty)).within (by omega) (by omega))
    (hstands _) (houter _) (rel_grouping (hgrouped _))
  -- the groups are tested and sorted
  have hgroupTested := hgroupTests'.accounts ((apt false).within (by omega) (by omega))
    ((houter false).later hle4 (apt false).distinct)
  have hsorted := hordered'.accounts ((apt false).within (by omega) le_rfl)
    ((houter false).later (by omega) (apt false).distinct)
  rw [nodesOccurrences_cons, nodesOccurrences_nil, add_zero, Node.occurrences]
  simp only [queryReferences]
  refine accounts_select (apt false).distinct rfl hconditions hfiltered.conjunction ?_ ?_
    hgroupTested.conjunction hsorted
  · exact accounts_keys (hgrouped false) (apt false).distinct
  · exact hcolumns.whole

/-! ## All expressions -/

/-- An expression refers to what it should, and so do the body of a lambda and the members of an object,
which clauses plan by themselves. -/
structure Expr.IsFaithful (e : Expr) : Prop where
  value : (operand e).IsFaithful
  body : ∀ params body, e = .lambda params body → (operand body).IsFaithful
  members : ∀ ms, e = .object ms → ∀ m ∈ members ms, m.2.IsFaithful

namespace Expr.IsFaithful

variable {e : Expr}

/-- A faithful expression selects faithfully whatever follows it. -/
theorem selects (h : e.IsFaithful) (rest : List Expr) : SelectsFaithfully (e :: rest) := by
  cases e with
  | lambda params body => exact selects_lambda (h.body params body rfl) rest
  | _ => exact selects_value h.value (by simp) rest

/-- A faithful expression is a faithful key. -/
theorem keys (h : e.IsFaithful) (params : List String) : FaithfulKeys (some ⟨params, e⟩) := by
  cases e with
  | object ms => exact keys_object (h.members ms rfl)
  | _ => exact keys_value h.value nofun

/-- A faithful expression is a faithful projection. -/
theorem projection (h : e.IsFaithful) (params : List String) :
    FaithfulProjection (some (.select ⟨params, e⟩)) := by
  cases e with
  | object ms => exact projection_object (h.members ms rfl)
  | _ => exact projection_body h.value nofun

end Expr.IsFaithful

mutual

/-- **Every direct expression refers to what it should**, by induction on the expression: each form is
faithful when its parts are, and a query when its clauses are. -/
theorem Expr.isFaithful : ∀ e : Expr, e.isDirect = true → e.IsFaithful
  | .constant v, _ => ⟨constant_isFaithful v, nofun, nofun⟩
  | .captured name v, _ => ⟨captured_isFaithful name v, nofun, nofun⟩
  | .param name, _ => ⟨param_isFaithful name, nofun, nofun⟩
  | .static type name, _ => ⟨static_isFaithful type name, nofun, nofun⟩
  | .member target name, h => ⟨member_isFaithful (target.isFaithful h).value name, nofun, nofun⟩
  | .call (some target) type method args, h => by
    simp only [Expr.isDirect, Bool.and_eq_true] at h
    exact ⟨call_isFaithful (target.isFaithful h.1).value (operands_areFaithful args h.2)
      (selects_isFaithful args h.2) type method, nofun, nofun⟩
  | .call none type method args, h =>
    ⟨callOf_isFaithful (operands_areFaithful args h) type method, nofun, nofun⟩
  | .binary op left right, h => by
    simp only [Expr.isDirect, Bool.and_eq_true] at h
    exact ⟨binary_isFaithful (left.isFaithful h.1).value (right.isFaithful h.2).value op, nofun, nofun⟩
  | .unary op operand, h => ⟨unary_isFaithful (operand.isFaithful h).value op, nofun, nofun⟩
  | .conditional test a b, h => by
    simp only [Expr.isDirect, Bool.and_eq_true] at h
    exact ⟨conditional_isFaithful (test.isFaithful h.1.1).value (a.isFaithful h.1.2).value
      (b.isFaithful h.2).value, nofun, nofun⟩
  | .convert inner target, h => ⟨convert_isFaithful (inner.isFaithful h).value target, nofun, nofun⟩
  | .array items, h => ⟨array_isFaithful (operands_areFaithful items h), nofun, nofun⟩
  | .object ms, h => ⟨object_isFaithful ms, nofun, fun _ hms => by
      cases hms
      exact members_areFaithful ms h⟩
  | .lambda params body, h => ⟨lambda_isFaithful params body, fun _ _ hl => by
      cases hl
      exact (body.isFaithful h).value, nofun⟩
  | .query q, h =>
    ⟨query_isFaithful (query_isFaithfulAt q h), nofun, nofun⟩

/-- Direct operands refer to what they should. -/
private theorem operands_areFaithful : ∀ es : List Expr, areDirect es = true → ∀ o ∈ operands es, o.IsFaithful
  | [], _ => nofun
  | e :: rest, h => by
    simp only [areDirect, Bool.and_eq_true] at h
    intro o ho
    obtain rfl | ho := List.mem_cons.mp ho
    · exact (e.isFaithful h.1).value
    · exact operands_areFaithful rest h.2 o ho

/-- Direct arguments refer to what they should, also as selectors. -/
private theorem selects_isFaithful : ∀ es : List Expr, areDirect es = true → SelectsFaithfully es
  | [], _ => ⟨nofun⟩
  | e :: rest, h => by
    simp only [areDirect, Bool.and_eq_true] at h
    exact (e.isFaithful h.1).selects rest

/-- The members of direct objects refer to what they should. -/
private theorem members_areFaithful : ∀ ms : List (String × Expr), areDirectMembers ms = true →
    ∀ m ∈ members ms, m.2.IsFaithful
  | [], _ => nofun
  | (name, e) :: rest, h => by
    simp only [areDirectMembers, Bool.and_eq_true] at h
    intro m hm
    obtain rfl | hm := List.mem_cons.mp hm
    · exact (e.isFaithful h.1).value
    · exact members_areFaithful rest h.2 m hm

/-- Direct tests refer to what they should. -/
private theorem tests_areFaithful : ∀ tests : List (LambdaOf Expr), areDirectTests tests = true →
    FaithfulTests tests
  | [], _ => tests_nil
  | ⟨_, body⟩ :: rest, h => by
    simp only [areDirectTests, Bool.and_eq_true] at h
    exact tests_cons (body.isFaithful h.1).value (tests_areFaithful rest h.2)

/-- Direct sort keys refer to what they should. -/
private theorem order_isFaithful : ∀ keys : List (LambdaOf Expr × Bool), areDirectKeys keys = true →
    FaithfulOrder keys
  | [], _ => order_nil
  | (⟨_, body⟩, _) :: rest, h => by
    simp only [areDirectKeys, Bool.and_eq_true] at h
    exact order_cons (body.isFaithful h.1).value (order_isFaithful rest h.2)

/-- Direct joins refer to what they should. -/
private theorem joins_areFaithful : ∀ joins : List (JoinOf Expr Source), areDirectJoins joins = true →
    FaithfulJoins joins
  | [], _ => joins_nil
  | ⟨kind, source, ⟨params, body⟩, aliasName⟩ :: rest, h => by
    simp only [areDirectJoins, Bool.and_eq_true, Option.isNone_iff_eq_none] at h
    obtain ⟨⟨⟨hsource, rfl⟩, hbody⟩, hrest⟩ := h
    exact joins_cons hsource (body.isFaithful hbody).value (joins_areFaithful rest hrest)

/-- Direct keys of groups refer to what they should. -/
private theorem keys_areFaithful : ∀ groupBy : Option (LambdaOf Expr), isDirectGrouping groupBy = true →
    FaithfulKeys groupBy
  | none, _ => keys_none
  | some ⟨params, body⟩, h => (body.isFaithful h).keys params

/-- Direct projections refer to what they should. -/
private theorem projection_isFaithful : ∀ projection : Option (ProjectionOf Expr),
    isDirectProjection projection = true → FaithfulProjection projection
  | none, _ => projection_none
  | some (.select ⟨params, body⟩), h => (body.isFaithful h).projection params
  | some (.flatten ⟨_, body⟩), h => projection_flatten (body.isFaithful h).members

/-- Direct queries refer to what they should. -/
private theorem query_isFaithfulAt : ∀ q : QueryOf Expr Source, isDirectQuery q = true → FaithfulQuery q
  | ⟨_, _, joins, filters, groupBy, having, orderBy, projection, _, _, _⟩, h => by
    simp only [isDirectQuery, Bool.and_eq_true, Option.isNone_iff_eq_none] at h
    obtain ⟨⟨⟨⟨⟨⟨⟨hsource, rfl⟩, hjoins⟩, hfilters⟩, hgroup⟩, hhaving⟩, horder⟩, hprojection⟩ := h
    exact query_faithful hsource (joins_areFaithful joins hjoins) (tests_areFaithful filters hfilters)
      (keys_areFaithful groupBy hgroup) (tests_areFaithful having hhaving)
      (order_isFaithful orderBy horder) (projection_isFaithful projection hprojection)

end

/-! ## Queries as they are compiled -/

/-- **Columns mean what they were written for.** The plan of a direct query is what is written for the query: node by
node, each member of a lambda parameter is a column whose alias, by the innermost selection that has a table of that
alias, means the table that the parameter is bound to, each key of a group is what is written for the key, and
everything else is what lowering makes of what is written for its parts. The aliases of a selection and of all
selections around it are different. All in all the columns refer to what the query refers to, each no more often;
columns beside projected expressions left for evaluation after fetching are not counted there.

**Proof sketch.** The tables of a selection get the next aliases, which differ from each other and from all aliases
around. So the bindings of the parameters around keep their roles inside the selection, and its own tables play theirs.
By induction on the query, whatever is planned in a scope whose parameters play their roles is what is written for
them. -/
theorem Query.columns_denote {c : Compiler} {q : Query} (hq : isDirectQuery q = true) {sel : Select}
    {ctes : List CtePlan} (h : (planQuery q).run c = .ok (sel, ctes)) :
    queryWritten c Roles.none q [] sel ∧
      (∀ o ∈ selectOccurrences [] sel, (aliases o.around).Nodup) ∧
      (selectOccurrences [] sel).filterMap Occurrence.denoted? ≤
        (queryReferences c.model [] 0 q).map some := by
  obtain ⟨p', hsel, -⟩ := gives_of_run h
  have hf := query_isFaithfulAt q hq [] .unknown hsel
  have haccounts := hf.accounts [] ⟨.nil, fun _ _ _ => List.not_mem_nil, .nil⟩
  rw [nodesOccurrences_cons, nodesOccurrences_nil, add_zero, Node.occurrences] at haccounts
  have hwritten := (query_isWritten q (Scope.plays_none rfl []) hsel).2
  exact ⟨hwritten, haccounts.distinct, haccounts.denoted⟩

/-- A model of customers and their orders. -/
def shop : Compiler where
  model := ⟨[
    { name := "Customer"
      table := "customer"
      fields :=
        [{ member := "Id", column := "id", type := .int32, native := .int32, isKey := true },
          { member := "Age", column := "age", type := .int32, native := .int32 }] },
    { name := "Order"
      table := "orders"
      fields :=
        [{ member := "Id", column := "id", type := .int32, native := .int32, isKey := true },
          { member := "BuyerId", column := "buyer", type := .int32, native := .int32 }] }]⟩

/-- The customers that have an order of the number of their age. -/
def ageOrders : Query :=
  (Query.ofSource (.entity "Customer")).filter (.lambda ["c"]
    (.call none (some "Sql") "Exists" [.query ((Query.ofSource (.entity "Order")).filter (.lambda ["o"]
      (.binary .and
        (.binary .eq (.member (.param "o") "BuyerId") (.member (.param "c") "Id"))
        (.binary .eq (.member (.param "o") "Id") (.member (.param "c") "Age")))))]))

/-- The orders by age are written column by column, under aliases that are all different. -/
theorem ageOrders_columns :
    isDirectQuery ageOrders = true ∧ ∃ sel ctes, (planQuery ageOrders).run shop = .ok (sel, ctes) ∧
      queryWritten shop Roles.none ageOrders [] sel ∧
      (∀ o ∈ selectOccurrences [] sel, (aliases o.around).Nodup) ∧
      (selectOccurrences [] sel).filterMap Occurrence.denoted? ≤
        (queryReferences shop.model [] 0 ageOrders).map some := by
  obtain ⟨⟨sel, ctes⟩, h⟩ : ∃ planned, (planQuery ageOrders).run shop = .ok planned := ⟨_, rfl⟩
  exact ⟨rfl, sel, ctes, h, Query.columns_denote rfl h⟩

/-- The subquery's columns are those of its own table and of the table around it. -/
example : queryReferences shop.model [] 0 ageOrders =
    {⟨⟨1, 0⟩, "buyer"⟩, ⟨⟨0, 0⟩, "id"⟩, ⟨⟨1, 0⟩, "id"⟩, ⟨⟨0, 0⟩, "age"⟩, ⟨⟨1, 0⟩, "id"⟩,
      ⟨⟨1, 0⟩, "buyer"⟩, ⟨⟨0, 0⟩, "id"⟩, ⟨⟨0, 0⟩, "age"⟩} := by decide

end LambdaSql
