import LambdaSql.Proofs.Nesting.Lists
import LambdaSql.Proofs.Scoping.Queries
import LambdaSql.Proofs.Scoping.Unnested
import Mathlib.Data.List.ReduceOption

/-!
# Chosen aliases

A table of a query has the alias that the query chooses for it, or else the next one in turn. The aliases in turn are
told apart by their positions, which go on from table to table; queries within the conditions of joins use up positions,
too. What a query chooses plays no part in this, so a chosen alias may be one that is in turn for another table. The
aliases of a selection differ from each other just if this does not happen.

## Main definitions

* `QueryOf.choices`, `chosen`, `aliasOf` - what a query chooses.
* `TakesTurns` - the positions of joined tables.
* `generated` - the aliases of the tables for which none is chosen.
* `SelectOf.AliasedAs` - a selection whose tables have the aliases of a query.

## Main results

* `aliasedAs_of_gives` - planned queries.
* `SelectOf.AliasedAs.nodup_iff` - where the aliases of a selection differ.
* `Compiler.aliases_differ_iff` - the selections of statements, at any depth.
-/

namespace LambdaSql

open Planning

/-! ## Choices and turns -/

/-- What a query chooses for each of its tables. -/
def QueryOf.choices (q : Query) : List (Option String) := q.aliasName :: q.joins.map (·.aliasName)

/-- The aliases among several choices. -/
def chosen (choices : List (Option String)) : List String := choices.reduceOption

/-- The alias of a table: the chosen one, or else that of its position. -/
def aliasOf (first : Char) (choice : Option String) (position : Nat) : String :=
  choice.getD (aliasAt first position)

/-- The aliases of the positions of tables for which none is chosen. -/
def generated (first : Char) (choices : List (Option String)) (positions : List Nat) : List String :=
  ((choices.zip positions).filter (·.1.isNone)).map fun x => aliasAt first x.2

/-- Joined tables have one position after the other, from some position on. Each uses up its own, and its condition
uses up further ones if there are queries in it. -/
inductive TakesTurns : Nat → List Join → List Nat → Prop
  | nil {p : Nat} : TakesTurns p [] []
  | cons {p q : Nat} {j : Join} {joins : List Join} {positions : List Nat} :
    p < q → (j.on.body.passages [] = [] → q = p + 1) → TakesTurns q joins positions →
      TakesTurns p (j :: joins) (p :: positions)

/-- The tables of a selection have the aliases that a query chooses, or else those of their positions. -/
structure SelectOf.AliasedAs (first : Char) (q : Query) (start : Nat) (positions : List Nat) (sel : Select) : Prop where
  turns : TakesTurns (start + 1) q.joins positions
  aliases : sel.tables.map (·.aliasName) = (List.zipWith (aliasOf first) q.choices (start :: positions)).map some

namespace TakesTurns

variable {p : Nat} {joins : List Join} {positions : List Nat}

/-- The positions that are taken are not before the first one. -/
theorem le (h : TakesTurns p joins positions) : ∀ n ∈ positions, p ≤ n := by
  induction h with
  | nil => nofun
  | cons hlt _ _ ih => exact List.forall_mem_cons.mpr ⟨le_rfl, fun n hn => hlt.le.trans (ih n hn)⟩

/-- The positions that are taken are all different. -/
theorem nodup (h : TakesTurns p joins positions) : positions.Nodup := by
  induction h with
  | nil => exact .nil
  | cons hlt _ hrest ih => exact List.nodup_cons.mpr ⟨fun hp => (hrest.le _ hp).not_gt hlt, ih⟩

/-- As many positions are taken as there are joins. -/
theorem length_eq (h : TakesTurns p joins positions) : positions.length = joins.length := by
  induction h with
  | nil => rfl
  | cons _ _ _ ih => rw [List.length_cons, List.length_cons, ih]

/-- Without queries in their conditions, joined tables have consecutive positions. -/
theorem eq_range' (h : TakesTurns p joins positions) (hj : ∀ j ∈ joins, j.on.body.passages [] = []) :
    positions = List.range' p joins.length := by
  induction h with
  | nil => rfl
  | cons _ hnext _ ih =>
    obtain ⟨hfirst, hrest⟩ := List.forall_mem_cons.mp hj
    rw [ih hrest, hnext hfirst, List.length_cons, List.range'_succ]

end TakesTurns

/-! ## Where aliases differ -/

variable {first : Char} {choices : List (Option String)} {positions : List Nat}

/-- The aliases of tables are the chosen ones and those of the other positions. -/
theorem perm_aliases (h : positions.length = choices.length) :
    (List.zipWith (aliasOf first) choices positions).Perm (chosen choices ++ generated first choices positions) := by
  induction choices generalizing positions with
  | nil => exact .refl _
  | cons choice choices ih =>
    obtain ⟨n, positions, rfl⟩ := List.exists_cons_of_length_eq_add_one h
    have hrest := ih (Nat.succ.inj h)
    cases choice with
    | some a => exact hrest.cons a
    | none => exact (hrest.cons (aliasAt first n)).trans List.perm_middle.symm

/-- Aliases at different positions are different. -/
private theorem nodup_generated (hlength : positions.length = choices.length) (h : positions.Nodup) :
    (generated first choices positions).Nodup := by
  have hpositions : (((choices.zip positions).filter (·.1.isNone)).map Prod.snd).Nodup := by
    refine h.sublist ?_
    conv_rhs => rw [← List.map_snd_zip hlength.le]
    exact List.filter_sublist.map Prod.snd
  have haliases := hpositions.map (aliasAt_injective first)
  rwa [List.map_map] at haliases

namespace SelectOf.AliasedAs

variable {q : Query} {start : Nat} {sel : Select}

/-- **Where the aliases of a selection differ.** If those that its query chooses differ from each other, then all do if
and only if none of them is that of the position of a table for which none is chosen.

**Proof sketch.** The aliases are the chosen ones and those of positions, in some order. Positions increase, so
generated aliases differ from each other. -/
theorem nodup_iff (h : sel.AliasedAs first q start positions) (hq : (chosen q.choices).Nodup) :
    (sel.tables.map (·.aliasName)).Nodup ↔
      ∀ a ∈ chosen q.choices, a ∉ generated first q.choices (start :: positions) := by
  have hlength : (start :: positions).length = q.choices.length := by
    rw [QueryOf.choices, List.length_cons, List.length_cons, List.length_map, h.turns.length_eq]
  have hnodup : (start :: positions).Nodup :=
    List.nodup_cons.mpr ⟨fun hmem => (h.turns.le _ hmem).not_gt (Nat.lt_succ_self start), h.turns.nodup⟩
  rw [h.aliases, List.nodup_map_iff (Option.some_injective _), (perm_aliases hlength).nodup_iff, List.nodup_append']
  exact ⟨fun h a hc hg => h.2.2 hc hg, fun h => ⟨hq, nodup_generated hlength hnodup, fun a hc hg => h a hc hg⟩⟩

end SelectOf.AliasedAs

/-! ## Planned queries -/

variable {s : Scope} {p p' : Progress} {sel : Select}

/-- Planned joins take turns.

**Proof sketch.** By induction on the joins. The table of the first one has the alias of the next position, or its
chosen one; its source and condition can use up further positions, but not if they are idle. -/
theorem takesTurns_of_planJoins {joins : List Join} {tables tables' : List TableBinding} {joined : List Joined}
    (h : (planJoins tables joins).Gives s p (joined, tables') p') :
    ∃ positions, TakesTurns p.nextAlias joins positions ∧ joined.map (·.table.aliasName) =
      (List.zipWith (aliasOf s.compiler.options.firstAlias) (joins.map (·.aliasName)) positions).map some := by
  induction joins generalizing tables p joined with
  | nil =>
    obtain ⟨heq, -⟩ := gives_pure.mp h
    cases heq
    exact ⟨[], .nil, rfl⟩
  | cons j rest ih =>
    obtain ⟨kind, source, ⟨params, body⟩, choice⟩ := j
    simp only [planJoins] at h
    obtain ⟨planned, q, hplanned, h⟩ := gives_bind.mp h
    obtain ⟨⟨table, binding⟩, q1, hbind, h⟩ := gives_bind.mp h
    obtain ⟨n, q2, hn, h⟩ := gives_bind.mp h
    obtain ⟨⟨others, all⟩, q3, hothers, h⟩ := gives_bind.mp h
    obtain ⟨heq, rfl⟩ := gives_pure.mp h
    cases heq
    obtain ⟨hnext, htable, -⟩ := (source_isWritten source).bound hplanned hbind
    have hle := body.isWritten.value.advances hn
    obtain ⟨positions, hturns, haliases⟩ := ih hothers
    refine ⟨p.nextAlias :: positions, .cons (by omega) (fun hnone => ?_) hturns, ?_⟩
    · -- the condition uses up no alias
      obtain ⟨-, hn⟩ := gives_withFrame.mp hn
      rw [(body.idle hnone).value.progress (.value hn), hnext]
    · rw [List.map_cons, haliases, htable]
      rfl

/-- **The aliases of planned queries**: each table has the one that is chosen for it, or else the next one in turn.

**Proof sketch.** The first table takes the next position, and the joins take theirs after it; the clauses that are
planned later name no tables of this selection. -/
theorem aliasedAs_of_gives {q : Query} (h : (planQuery q).Gives s p sel p') :
    ∃ positions, sel.AliasedAs s.compiler.options.firstAlias q p.nextAlias positions := by
  obtain ⟨source, choice, joins, filters, groupBy, having, orderBy, projection, distinct, limit, offset⟩ := q
  simp only [planQuery] at h
  obtain ⟨planned, q, hplanned, h⟩ := gives_bind.mp h
  obtain ⟨⟨table, binding⟩, p₁, hbind, h⟩ := gives_bind.mp h
  obtain ⟨⟨joined, tables⟩, p₂, hjoined, h⟩ := gives_bind.mp h
  simp only [gives_bind, gives_pure] at h
  obtain ⟨_, _, -, _, _, -, _, _, -, _, _, -, _, _, -, rfl, -⟩ := h
  obtain ⟨hnext, htable, -⟩ := (source_isWritten source).bound hplanned hbind
  obtain ⟨positions, hturns, haliases⟩ := takesTurns_of_planJoins hjoined
  refine ⟨positions, hnext ▸ hturns, ?_⟩
  have htables : (joined.map (·.table)).map (·.aliasName) = joined.map (·.table.aliasName) := List.map_map ..
  rw [SelectOf.tables, List.map_cons, htables, haliases, htable]
  rfl

/-! ## Within statements -/

namespace Compiler

variable {c : Compiler} {job : Job} {results : List Compiled} {ts : List TextPlan} {t : TextPlan}
  {site : Passage → Prop}

/-- A selection has the aliases that a query chooses, and those of positions from some one on. If those that the query
chooses differ from each other, then all do if and only if none of them is one that is generated. -/
def TellsApart (c : Compiler) (q : Query) (start : Nat) (sel : Select) : Prop :=
  ∃ positions, sel.AliasedAs c.options.firstAlias q start positions ∧
    ((chosen q.choices).Nodup → ((sel.tables.map (·.aliasName)).Nodup ↔
      ∀ a ∈ chosen q.choices, a ∉ generated c.options.firstAlias q.choices (start :: positions)))

/-- A planned query tells its tables apart as far as the chosen aliases do. -/
private theorem tellsApart_of_gives {q : Query} (hc : s.compiler = c) (h : (planQuery q).Gives s p sel p') :
    c.TellsApart q p.nextAlias sel := by
  subst hc
  obtain ⟨positions, haliased⟩ := aliasedAs_of_gives h
  exact ⟨positions, haliased, haliased.nodup_iff⟩

/-- A selection within a statement has the tables of one that was planned from one of its queries. -/
theorem tellsApart_of_nested (h : t.Sourced c site p) {use : Use} (hmem : (use, sel) ∈ t.nested) :
    ∃ unions q start, site (.query use.isTable unions q) ∧ c.TellsApart q start sel := by
  obtain ⟨around, r, planned, ⟨⟨q, s, p₀, p₁, hsite, hc, hg, -⟩, -⟩, heq⟩ := h.nested _ hmem
  refine ⟨s.unions, q, p₀.nextAlias, hsite, ?_⟩
  obtain rfl | ⟨-, rfl⟩ := heq
  · exact tellsApart_of_gives hc hg
  · -- without its columns, it has the same tables
    obtain ⟨positions, ⟨hturns, haliases⟩, hiff⟩ := tellsApart_of_gives hc hg
    exact ⟨positions, ⟨hturns, haliases⟩, hiff⟩

/-- The text of a selection has aliases from the first one on.

**Proof sketch.** By the kind of statement. A query's plan is a selection whose positions are counted from zero, and
the plans of the other kinds are no selections. -/
theorem tellsApart_of_plans {stmt : Statement} (h : c.plans stmt = .ok ts) :
    ∀ t ∈ ts, ∀ sel, t.body = .select sel → ∃ q, stmt = .select q ∧ c.TellsApart q 0 sel := by
  have none {α : Type} {act : Planning α} {body : α → Body} {t : TextPlan} {P : Select → Prop}
      (h : c.plan act body = .ok t) (hbody : ∀ a sel, body a ≠ .select sel) : ∀ sel, t.body = .select sel → P sel := by
    obtain ⟨a, p, -, rfl⟩ := plan_of_run h
    exact fun sel hsel => absurd hsel (hbody a sel)
  cases stmt with
  | select q =>
    obtain ⟨t, ht, h⟩ := Except.bind_eq_ok.mp h
    cases h
    obtain ⟨sel, p, hg, rfl⟩ := plan_of_run ht
    refine List.forall_mem_singleton.mpr fun _ hsel => ⟨q, rfl, ?_⟩
    cases hsel
    exact tellsApart_of_gives rfl hg
  | delete d =>
    obtain ⟨t, ht, h⟩ := Except.bind_eq_ok.mp h
    cases h
    exact List.forall_mem_singleton.mpr (none ht nofun)
  | update u =>
    unfold plans at h
    dsimp only at h
    split at h
    · exact Except.forall_of_mapM h fun _ _ t ht => none ht nofun
    · obtain ⟨t, ht, h⟩ := Except.bind_eq_ok.mp h
      cases h
      exact List.forall_mem_singleton.mpr (none ht nofun)

/-- **Where the aliases of selections differ.** Each selection of what is compiled, at any depth, has the aliases that
one of the queries chooses for its tables, and for the other tables those of their positions, which go on from table to
table. Where no queries are within the conditions of joins, the positions of tables are consecutive. If the aliases that
the query chooses differ from each other, then those of the selection do if and only if no chosen one is in turn for
another table.

**Proof sketch.** Each selection is planned from a passage of the statement. Table by table, planning takes the next
alias and puts a chosen one in its place, so the aliases that are not chosen are those of increasing positions. These
differ from each other, and so a clash must be with one that is chosen. -/
theorem aliases_differ_iff (h : c.results job = .ok results) :
    ∃ ts, c.texts job = .ok ts ∧ (∀ r ∈ results, ∃ us, us.Sublist ts ∧ c.Composes r us) ∧
      ∀ t ∈ ts, ∃ stmt ∈ job.statements,
        (∀ sel, t.body = .select sel → ∃ q, stmt = .select q ∧ c.TellsApart q 0 sel) ∧
        ∀ use sel, (use, sel) ∈ t.nested →
          ∃ unions q start, .query use.isTable unions q ∈ stmt.passages ∧ c.TellsApart q start sel := by
  obtain ⟨ts, hts, hcomposed⟩ := texts_of_results h
  refine ⟨ts, hts, hcomposed, ?_⟩
  obtain ⟨tss, htss, heq⟩ := Except.bind_eq_ok.mp hts
  cases heq
  have hall := Except.forall_of_mapM
    (Q := fun ts => ∀ t ∈ ts, ∃ stmt ∈ job.statements,
      (∀ sel, t.body = .select sel → ∃ q, stmt = .select q ∧ c.TellsApart q 0 sel) ∧
      ∀ use sel, (use, sel) ∈ t.nested →
        ∃ unions q start, .query use.isTable unions q ∈ stmt.passages ∧ c.TellsApart q start sel) htss
    fun stmt hstmt us hus t ht => by
      obtain ⟨p, hsourced⟩ := sourced_of_plans hus t ht
      exact ⟨stmt, hstmt, tellsApart_of_plans hus t ht, fun use sel hmem => tellsApart_of_nested hsourced hmem⟩
  intro t ht
  obtain ⟨us, hus, ht⟩ := List.mem_flatten.mp ht
  exact hall us hus t ht

end Compiler

/-- Customers under an alias, with their orders. -/
def withOrders (aliasName : String) : Query :=
  ((Query.ofSource (.entity "Customer")).aliased aliasName).join .inner (.entity "Order") (.lambda ["c", "o"]
    (.binary .eq (.member (.param "o") "BuyerId") (.member (.param "c") "Id")))

/-- Two tables of a query have different aliases. -/
theorem withOrders_apart :
    ∃ results t sel, shop.results (.statement (.select (withOrders "c"))) = .ok results ∧
      shop.texts (.statement (.select (withOrders "c"))) = .ok [t] ∧ t.body = .select sel ∧
      sel.tables.length = 2 ∧ (sel.tables.map (·.aliasName)).Nodup := by
  obtain ⟨results, h⟩ : ∃ results, shop.results (.statement (.select (withOrders "c"))) = .ok results := ⟨_, rfl⟩
  obtain ⟨sel, htexts, hlength⟩ : ∃ sel,
      shop.texts (.statement (.select (withOrders "c"))) = .ok [⟨[], .select sel⟩] ∧ sel.tables.length = 2 :=
    ⟨_, rfl, rfl⟩
  obtain ⟨ts, hts, -, hall⟩ := Compiler.aliases_differ_iff h
  cases hts.symm.trans htexts
  obtain ⟨stmt, hstmt, htop, -⟩ := hall _ List.mem_cons_self
  obtain ⟨q, rfl, positions, haliased, hiff⟩ := htop sel rfl
  cases List.mem_singleton.mp hstmt
  obtain rfl := haliased.turns.eq_range' (by decide)
  exact ⟨results, _, sel, h, htexts, rfl, hlength, (hiff (by decide)).mpr (by decide)⟩

/-- An alias that is in turn for the other table. -/
example : (shop.select (withOrders "b")).map (·.sql) =
    .ok "SELECT b.`id` AS `Id`,b.`age` AS `Age` FROM `customer` b INNER JOIN `orders` b ON b.`buyer`=b.`id`" := by rfl

end LambdaSql
