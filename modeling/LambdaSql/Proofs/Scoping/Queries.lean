import LambdaSql.Proofs.Scoping.Expressions

/-!
# Queries are written as they should be

A selection opens a place for its own tables, whatever they are read from. Their aliases are the next ones, so the
parameters of the lambdas around still play their roles there, and each of the tables plays its own. What is read as a
table is planned with aliases of its own, and nothing is known in it of what is around; it may be written in any place.

## Main definitions

* `Opens` - tables with the next aliases.
* `Source.IsWorded`, `KeysAreWorded`, `TestsAreWorded`, `OrderIsWorded`, `JoinsAreWorded`, `ProjectionIsWorded` - the
  clauses of queries.

## Main results

* `Opens.plays` - the bindings of a selection's tables play their roles.
* `isWorded_of_clauses` - a query, given that its clauses are written as they should be.
* `query_isWritten` - all queries.
-/

namespace LambdaSql

open Planning

variable {s : Scope} {roles : Roles} {p q q' p' : Progress} {around : List Level} {bindings : List Binding}

/-! ## Opening a selection -/

/-- Tables that have been given the aliases of different positions between two progresses. -/
structure Opens (s : Scope) (p p' : Progress) (positions : List Nat) (tables : List Table)
    (bindings : List TableBinding) (entities : List (Option Entity)) : Prop where
  within : ∀ position ∈ positions, p.nextAlias ≤ position ∧ position < p'.nextAlias
  distinct : positions.Nodup
  tableAliases : tables.map (·.aliasName) = positions.map fun i => some (aliasAt s.compiler.options.firstAlias i)
  bindingAliases : bindings.map (·.aliasName) = positions.map fun i => some (aliasAt s.compiler.options.firstAlias i)
  entities : bindings.map (·.shape.entity?) = entities

namespace Opens

variable {positions : List Nat} {tables : List Table} {bindings : List TableBinding}
  {entities : List (Option Entity)}

/-- Nothing has been opened at the start. -/
theorem nil : Opens s p p [] [] [] [] where
  within := nofun
  distinct := .nil
  tableAliases := rfl
  bindingAliases := rfl
  entities := rfl

/-- A table with the next alias, and then others. -/
theorem cons (h : Opens s q p' positions tables bindings entities) (hq : p.nextAlias < q.nextAlias)
    (hle : q.nextAlias ≤ p'.nextAlias) {t : Table} {b : TableBinding} {entity : Option Entity}
    (ht : t.aliasName = some (aliasAt s.compiler.options.firstAlias p.nextAlias))
    (hb : b.aliasName = some (aliasAt s.compiler.options.firstAlias p.nextAlias)) (he : b.shape.entity? = entity) :
    Opens s p p' (p.nextAlias :: positions) (t :: tables) (b :: bindings) (entity :: entities) where
  within := by
    refine List.forall_mem_cons.mpr ⟨⟨le_rfl, by omega⟩, fun position hp => ?_⟩
    have := h.within position hp
    omega
  distinct := by
    refine List.nodup_cons.mpr ⟨fun hp => ?_, h.distinct⟩
    have := h.within _ hp
    omega
  tableAliases := by rw [List.map_cons, List.map_cons, h.tableAliases, ht]
  bindingAliases := by rw [List.map_cons, List.map_cons, h.bindingAliases, hb]
  entities := by rw [List.map_cons, h.entities, he]

/-- The aliases of a selection's tables come from where it begins. -/
theorem fromOn (h : Opens s p p' positions tables bindings entities) (deferring : Bool) :
    FromOn s.compiler.options.firstAlias p.nextAlias [⟨tables, deferring⟩] := by
  intro a ha
  rw [aliases_level h.tableAliases, show aliases [] = [] from rfl, List.append_nil] at ha
  obtain ⟨position, hp, rfl⟩ := List.mem_map.mp ha
  exact ⟨position, (h.within position hp).1, rfl⟩

/-- The bindings of a selection's tables play their roles inside it. -/
theorem plays (h : Opens s p p' positions tables bindings entities) (deferring : Bool) :
    List.Forall₂ (TableBinding.Plays s.compiler.options.firstAlias p'.nextAlias (⟨tables, deferring⟩ :: around))
      bindings (tablePlaces around.length entities) := by
  rw [List.forall₂_iff_get]
  refine ⟨by simp [tablePlaces, ← h.entities], fun i hi hi' => ?_⟩
  have hplace : (tablePlaces around.length entities).get ⟨i, hi'⟩ =
      ⟨⟨around.length, i⟩, (bindings.get ⟨i, hi⟩).shape.entity?⟩ := by
    simp [tablePlaces, ← h.entities]
  rw [hplace]
  obtain ⟨position, hp, hb⟩ := alias_of_map h.bindingAliases (List.getElem?_eq_getElem hi)
  exact ⟨rfl, position, (h.within position (List.mem_of_getElem? hp)).2, hb,
    seatOf_level h.tableAliases h.distinct hp deferring⟩

end Opens

/-! ## Sources -/

/-- What is read from is planned with aliases of its own, has the columns of its entity if it is one, and is written as
it should be, wherever that is. -/
def Source.IsWorded (source : Source) : Prop :=
  ∀ ⦃s p planned p'⦄, (planSource source).Gives s p planned p' →
    p'.nextAlias = p.nextAlias ∧ planned.shape.entity? = source.entity? s.compiler.model ∧
      ∀ around, sourceWritten s.compiler around source planned.rows

/-- The table of an entity is written by its name. -/
private theorem source_entity (name : String) : Source.IsWorded (.entity name) := by
  intro s p planned p' h
  simp only [planSource, planEntity, gives_bind, gives_read, gives_ofExcept, gives_pure] at h
  obtain ⟨_, _, ⟨rfl, rfl⟩, e, _, ⟨he, rfl⟩, rfl, rfl⟩ := h
  refine ⟨rfl, ?_, fun _ => ⟨e, he, rfl⟩⟩
  simp [Shape.entity?, Source.entity?, he, Except.toOption]

/-- A derived table is the same in every place, as nothing is known in it of what is around. -/
theorem source_derived {query : Query} (hquery : IsWorded query) : Source.IsWorded (.derived query) := by
  intro s p planned p' h
  simp only [planSource, gives_bind, gives_withOwnAliases, gives_asSubquery, gives_pure] at h
  obtain ⟨sel, _, ⟨q, hsel, rfl⟩, rfl, rfl⟩ := h
  refine ⟨rfl, rfl, ?_⟩
  intro around
  have hw := (hquery (Scope.plays_unknown around) hsel).2
  exact ⟨sel, rfl, hw⟩

/-- Looking for the columns of a common table expression takes no aliases. -/
private theorem nextAlias_selfShape? {name : String} {shape? : Option (List Output)}
    (h : (selfShape? name).Gives s p shape? p') : p'.nextAlias = p.nextAlias := by
  simp only [selfShape?, gives_bind, gives_read] at h
  obtain ⟨_, _, ⟨rfl, rfl⟩, h⟩ := h
  split at h
  · simp only [gives_bind, gives_modifyProgress, gives_pure] at h
    obtain ⟨_, _, rfl, -, rfl⟩ := h
    rfl
  · obtain ⟨-, rfl⟩ := gives_pure.mp h
    rfl

/-- Planning a common table expression once takes no aliases. -/
private theorem nextAlias_planOnce {name : String} {plan : Planning CtePlan} {shape : List Output}
    (h : (planOnce name plan).Gives s p shape p') : p'.nextAlias = p.nextAlias := by
  simp only [planOnce, gives_bind, gives_getProgress] at h
  obtain ⟨_, _, ⟨rfl, rfl⟩, h⟩ := h
  split at h
  · obtain ⟨-, rfl⟩ := gives_pure.mp h
    rfl
  · simp only [gives_bind, gives_read] at h
    obtain ⟨_, _, ⟨rfl, rfl⟩, h⟩ := h
    split at h
    · simp at h
    · simp only [gives_bind, gives_pure, gives_withOwnAliases, gives_modifyProgress] at h
      obtain ⟨cte, _, ⟨q, -, rfl⟩, _, _, rfl, -, rfl⟩ := h
      rfl

/-- What is read from under the name of a common table expression. -/
theorem source_cte (c : CteOf (QueryOf Expr Source)) : Source.IsWorded (.cte c) := by
  intro s p planned p' h
  obtain ⟨name, columns, anchor, union, recursive⟩ := c
  simp only [planSource, planCte] at h
  obtain ⟨shape?, q, hself, h⟩ := gives_bind.mp h
  have hnext := nextAlias_selfShape? hself
  split at h
  · simp only [gives_bind, gives_pure] at h
    obtain ⟨_, _, ⟨rfl, rfl⟩, rfl, rfl⟩ := h
    exact ⟨hnext, rfl, fun _ => rfl⟩
  · obtain ⟨shape, q', hplan, hsource⟩ := gives_bind.mp h
    obtain ⟨rfl, rfl⟩ := gives_pure.mp hsource
    exact ⟨(nextAlias_planOnce hplan).trans hnext, rfl, fun _ => rfl⟩

/-- A reference to a common table expression itself is written by its name. -/
private theorem source_selfRef (name : String) : Source.IsWorded (.selfRef name) := by
  intro s p planned p' h
  simp only [planSource, selfSource, gives_bind] at h
  obtain ⟨shape?, q, hself, h⟩ := h
  split at h
  · obtain ⟨rfl, rfl⟩ := gives_pure.mp h
    exact ⟨nextAlias_selfShape? hself, rfl, fun _ => rfl⟩
  · exact absurd h not_gives_fail

/-- A source in a clause uses up an alias, whether it has it or a chosen one. -/
theorem Source.IsWorded.bound {source : Source} (hsource : source.IsWorded) {override : Option String}
    {table : Table} {binding : TableBinding} {planned : PlannedSource}
    (hplanned : (planSource source).Gives s p planned q)
    (hbind : (bindTable override planned).Gives s q (table, binding) p') :
    p'.nextAlias = p.nextAlias + 1 ∧
      table.aliasName = some (override.getD (aliasAt s.compiler.options.firstAlias p.nextAlias)) ∧
      binding.aliasName = some (override.getD (aliasAt s.compiler.options.firstAlias p.nextAlias)) ∧
      binding.shape.entity? = source.entity? s.compiler.model ∧
      ∀ around, sourceWritten s.compiler around source table.rows := by
  obtain ⟨hnext, hentity, hwritten⟩ := hsource hplanned
  obtain ⟨rfl, rfl, rfl⟩ := gives_bindTable.mp hbind
  rw [hnext]
  exact ⟨rfl, rfl, rfl, hentity, hwritten⟩

/-! ## Under lambdas -/

/-- A lambda without parameters binds nothing. -/
theorem Roles.under_nil (bound : List Role) : roles.under [] bound = roles := by
  funext name
  simp [Roles.under]

/-- The body of a lambda is planned as what may be written for it, among the roles of the parameters. -/
theorem Expr.IsWorded.under {e : Expr} (he : e.IsWorded) {params : List String} {n : Node}
    {bound : List Role} (ha : s.Plays p.nextAlias around roles)
    (hb : Cast s.compiler.options.firstAlias p.nextAlias around bindings bound)
    (h : ((operand e).under params bindings).Gives s p n p') :
    p.nextAlias ≤ p'.nextAlias ∧ e.wording s.compiler (roles.under params bound) around [n] := by
  obtain ⟨hparams, hn⟩ := gives_withFrame.mp h
  have hw := he (ha.under hb hparams) (.value hn)
  exact hw

/-- The body of a lambda uses up aliases. -/
theorem Expr.IsWorded.advances {e : Expr} (he : e.IsWorded) {params : List String} {n : Node}
    (h : ((operand e).under params bindings).Gives s p n p') : p.nextAlias ≤ p'.nextAlias :=
  (he.under (Scope.plays_unknown []) (cast_outside bindings) h).1

/-! ## Keys -/

/-- The parts of a key that is an object. -/
theorem play_named {ms : List (String × Expr)} (hms : ∀ m ∈ ms, m.2.IsWorded) {ks : List (String × Node)}
    (ha : s.Plays p.nextAlias around roles)
    (h : ((members ms).mapM fun ((name, o) : String × Operand) => do return (name, ← o.value)).Gives s p ks p') :
    p.nextAlias ≤ p'.nextAlias ∧
      KeysPlay s.compiler.options.firstAlias p'.nextAlias around ks (namedWordings s.compiler roles ms) := by
  induction ms generalizing p ks with
  | nil =>
    obtain ⟨rfl, rfl⟩ := gives_mapM_nil.mp h
    exact ⟨le_rfl, .nil⟩
  | cons m rest ih =>
    obtain ⟨name, e⟩ := m
    obtain ⟨k, q, others, hk, hothers, rfl⟩ := gives_mapM_cons.mp h
    simp only [gives_bind, gives_pure] at hk
    obtain ⟨n, _, hn, rfl, rfl⟩ := hk
    have he := hms _ List.mem_cons_self
    have hle := (he ha (.value hn)).1
    obtain ⟨hle', hrest⟩ := ih (fun m hm => hms m (List.mem_cons_of_mem _ hm)) (ha.later hle) hothers
    refine ⟨hle.trans hle', .cons ⟨rfl, ?_⟩ hrest⟩
    -- a key may be written again inside selections that are planned later
    intro inner hf
    exact (he (ha.deepen le_rfl (hf.mono (hle.trans hle'))) (.value hn)).2

/-- Planned keys of the groups of a query. -/
def KeysAreWorded (groupBy : Option Lambda) : Prop :=
  ∀ ⦃s bindings roles around bound p ks p'⦄, s.Plays p.nextAlias around roles →
    Cast s.compiler.options.firstAlias p.nextAlias around bindings bound →
    (planKeys bindings groupBy).Gives s p ks p' →
    p.nextAlias ≤ p'.nextAlias ∧ Option.Rel (KeysPlay s.compiler.options.firstAlias p'.nextAlias around) ks
      (groupWordings s.compiler roles bound groupBy)

/-- Without groups there is nothing to write for keys. -/
private theorem keys_wordedNone : KeysAreWorded none := by
  intro s bindings roles around bound p ks p' _ _ h
  obtain ⟨rfl, rfl⟩ := gives_pure.mp h
  exact ⟨le_rfl, .none⟩

/-- A key that is an object is written member by member. -/
private theorem keys_wordedObject {params : List String} {ms : List (String × Expr)} (hms : ∀ m ∈ ms, m.2.IsWorded) :
    KeysAreWorded (some ⟨params, .object ms⟩) := by
  intro s bindings roles around bound p ks p' ha hb h
  simp only [planKeys, gives_withFrame, gives_bind, gives_pure] at h
  obtain ⟨hparams, named, q, hnamed, rfl, rfl⟩ := h
  obtain ⟨hle, hplay⟩ := play_named hms (ha.under hb hparams) hnamed
  exact ⟨hle, .some hplay⟩

/-- A key that is a value is written as the value.

**Proof sketch.** Such a key is planned in the scope of its parameters, where it is written as it is worded. -/
private theorem keys_wordedValue {params : List String} {body : Expr} (hbody : body.IsWorded)
    (hne : ∀ ms, body ≠ .object ms) :
    KeysAreWorded (some ⟨params, body⟩) := by
  intro s bindings roles around bound p ks p' ha hb h
  have hplan : planKeys bindings (some ⟨params, body⟩) =
      (do return some [(keyName body, ← (operand body).under params bindings)]) := by
    rw [planKeys]
    exact hne
  have hwordings : groupWordings s.compiler roles bound (some ⟨params, body⟩) =
      some [(keyName body, body.wording s.compiler (roles.under params bound))] := by
    cases body with
    | object ms => exact absurd rfl (hne ms)
    | _ => rfl
  rw [hplan] at h
  rw [hwordings]
  simp only [gives_bind, gives_pure] at h
  obtain ⟨n, q, hn, rfl, rfl⟩ := h
  obtain ⟨hparams, hvalue⟩ := gives_withFrame.mp hn
  have hunder := ha.under hb hparams
  have hle := hbody.advances hn
  refine ⟨hle, .some (.cons ⟨rfl, ?_⟩ .nil)⟩
  intro inner hf
  exact (hbody (hunder.deepen le_rfl (hf.mono hle)) (.value hvalue)).2

/-! ## Tests and sort keys -/

/-- Planned tests of a clause. -/
def TestsAreWorded (tests : List Lambda) : Prop :=
  ∀ ⦃s bindings roles around bound p ns p'⦄, s.Plays p.nextAlias around roles →
    Cast s.compiler.options.firstAlias p.nextAlias around bindings bound →
    (planTests bindings tests).Gives s p ns p' →
    p.nextAlias ≤ p'.nextAlias ∧ testsWritten s.compiler roles bound tests around ns

/-- Nothing is written for no tests. -/
private theorem tests_wordedNil : TestsAreWorded [] := by
  intro s bindings roles around bound p ns p' _ _ h
  obtain ⟨rfl, rfl⟩ := gives_pure.mp h
  exact ⟨le_rfl, rfl⟩

/-- A further test is written before the others. -/
private theorem tests_wordedCons {params : List String} {body : Expr} {rest : List Lambda} (hbody : body.IsWorded)
    (hrest : TestsAreWorded rest) : TestsAreWorded (⟨params, body⟩ :: rest) := by
  intro s bindings roles around bound p ns p' ha hb h
  simp only [planTests, gives_bind, gives_pure] at h
  obtain ⟨n, q, hn, others, q', hothers, rfl, rfl⟩ := h
  obtain ⟨hle, hw⟩ := hbody.under ha hb hn
  obtain ⟨hle', hws⟩ := hrest (ha.later hle) (hb.later hle) hothers
  exact ⟨hle.trans hle', n, others, rfl, hw, hws⟩

/-- Planned sort keys. -/
def OrderIsWorded (keys : List (Lambda × Bool)) : Prop :=
  ∀ ⦃s bindings roles around bound p ns p'⦄, s.Plays p.nextAlias around roles →
    Cast s.compiler.options.firstAlias p.nextAlias around bindings bound →
    (planOrder bindings keys).Gives s p ns p' →
    p.nextAlias ≤ p'.nextAlias ∧ orderWritten s.compiler roles bound keys around ns

/-- Nothing is written for no sort keys. -/
private theorem order_wordedNil : OrderIsWorded [] := by
  intro s bindings roles around bound p ns p' _ _ h
  obtain ⟨rfl, rfl⟩ := gives_pure.mp h
  exact ⟨le_rfl, rfl⟩

/-- A further sort key is written before the others. -/
private theorem order_wordedCons {params : List String} {body : Expr} {down : Bool} {rest : List (Lambda × Bool)}
    (hbody : body.IsWorded) (hrest : OrderIsWorded rest) : OrderIsWorded ((⟨params, body⟩, down) :: rest) := by
  intro s bindings roles around bound p ns p' ha hb h
  simp only [planOrder, gives_bind, gives_pure] at h
  obtain ⟨n, q, hn, others, q', hothers, rfl, rfl⟩ := h
  obtain ⟨hle, hw⟩ := hbody.under ha hb hn
  obtain ⟨hle', hws⟩ := hrest (ha.later hle) (hb.later hle) hothers
  exact ⟨hle.trans hle', n, others, rfl, hw, hws⟩

/-! ## Joins -/

/-- A table has the alias of a position before another one. -/
def TableBinding.Before (first : Char) (limit : Nat) (t : TableBinding) : Prop :=
  ∃ position < limit, t.aliasName = some (aliasAt first position)

/-- A binding plays its role already where only earlier aliases are in use. -/
theorem TableBinding.Plays.earlier {first : Char} {limit limit' : Nat} {t : TableBinding} {place : TablePlace}
    (h : t.Plays first limit around place) (ht : t.Before first limit') : t.Plays first limit' around place where
  entity := h.entity
  seat := by
    obtain ⟨position, -, ha, hseat⟩ := h.seat
    obtain ⟨other, hlt, ha'⟩ := ht
    obtain rfl := aliasAt_injective first (Option.some.inj (ha.symm.trans ha'))
    exact ⟨position, hlt, ha, hseat⟩

/-- Planned joins: unless an alias is chosen, they are tables with the next aliases, and are written as they should be
where the tables play their roles. -/
def JoinsAreWorded (joins : List Join) : Prop :=
  ∀ ⦃s tables p joined tables' p'⦄, (planJoins tables joins).Gives s p (joined, tables') p' →
    p.nextAlias ≤ p'.nextAlias ∧ (Unnamed joins → ∃ positions new, tables' = tables ++ new ∧
      Opens s p p' positions (joined.map (·.table)) new (joins.map (·.source.entity? s.compiler.model)) ∧
      ∀ {roles around l seats}, s.Plays p.nextAlias (l :: around) roles →
        (∀ t ∈ tables, t.Before s.compiler.options.firstAlias p.nextAlias) →
        List.Forall₂ (TableBinding.Plays s.compiler.options.firstAlias p'.nextAlias (l :: around)) tables' seats →
        joinsWritten s.compiler roles around (l :: around) seats tables.length joins joined)

/-- Nothing is written for no joins. -/
private theorem joins_wordedNil : JoinsAreWorded [] := by
  intro s tables p joined tables' p' h
  obtain ⟨heq, rfl⟩ := gives_pure.mp h
  cases heq
  exact ⟨le_rfl, fun _ => ⟨[], [], (List.append_nil _).symm, .nil, fun _ _ _ => rfl⟩⟩

/-- A join, whose condition sees the tables up to its own.

**Proof sketch.** The table of the join takes the next position, so that it can be seated after those before it. For
its condition the parameters are bound to the tables seated so far, which play their roles although later ones are
still to come. -/
theorem joins_wordedCons {kind : JoinKind} {source : Source} {params : List String} {body : Expr}
    {aliasName : Option String} {rest : List Join} (hsource : source.IsWorded) (hbody : body.IsWorded)
    (hrest : JoinsAreWorded rest) : JoinsAreWorded (⟨kind, source, ⟨params, body⟩, aliasName⟩ :: rest) := by
  intro s tables p joined tables' p' h
  simp only [planJoins] at h
  obtain ⟨planned, q, hplanned, h⟩ := gives_bind.mp h
  obtain ⟨⟨table, binding⟩, q1, hbind, h⟩ := gives_bind.mp h
  obtain ⟨n, q2, hn, h⟩ := gives_bind.mp h
  obtain ⟨⟨others, all⟩, q3, hothers, h⟩ := gives_bind.mp h
  obtain ⟨heq, rfl⟩ := gives_pure.mp h
  cases heq
  obtain ⟨hnext, htable, hbinding, hentity, hrows⟩ := hsource.bound hplanned hbind
  have hle2 := hbody.advances hn
  obtain ⟨hle3, hjoins⟩ := hrest hothers
  refine ⟨by omega, ?_⟩
  intro hnone
  obtain ⟨hfirst, hothersNone⟩ := List.forall_mem_cons.mp hnone
  obtain rfl : aliasName = none := hfirst
  obtain ⟨positions, new, rfl, hopens, hwritten⟩ := hjoins hothersNone
  refine ⟨p.nextAlias :: positions, binding :: new, ?_, hopens.cons (by omega) hle3 htable hbinding hentity, ?_⟩
  · rw [List.append_assoc, List.singleton_append]
  intro roles around l seats ha hbefore hplays
  have hlength : (tables ++ [binding]).length = tables.length + 1 := List.length_append
  have hbefore' {limit : Nat} (hlimit : p.nextAlias < limit) :
      ∀ t ∈ tables ++ [binding], t.Before s.compiler.options.firstAlias limit := by
    intro t ht
    obtain ht | ht := List.mem_append.mp ht
    · obtain ⟨position, hlt, halias⟩ := hbefore t ht
      exact ⟨position, by omega, halias⟩
    · exact ⟨p.nextAlias, hlimit, List.mem_singleton.mp ht ▸ hbinding⟩
  -- the condition sees the tables up to its own, and later ones have no alias yet
  have hcast : Cast s.compiler.options.firstAlias q1.nextAlias (l :: around) (tableBindings (tables ++ [binding]))
      ((seats.take (tables.length + 1)).map .table) := by
    have htake := List.forall₂_take (tables.length + 1) hplays
    rw [List.take_left' hlength] at htake
    refine cast_tables (List.forall₂_iff_get.mpr ⟨htake.length_eq, ?_⟩)
    intro i hi hi'
    exact ((List.forall₂_iff_get.mp htake).2 i hi hi').earlier (hbefore' (by omega) _ (List.get_mem _ _))
  have hcondition := (hbody.under (ha.later (by omega)) hcast hn).2
  have hjoined := hwritten (ha.later (by omega)) (hbefore' (by omega)) hplays
  rw [hlength] at hjoined
  exact ⟨table, n, others, rfl, hrows around, hcondition, hjoined⟩

/-! ## Projections -/

/-- Planned projections. -/
def ProjectionIsWorded (projection : Option Projection) : Prop :=
  ∀ ⦃s tables bindings grouping p out p'⦄, (planProjection tables bindings grouping projection).Gives s p out p' →
    p.nextAlias ≤ p'.nextAlias ∧ ∀ {roles around seats bound keys}, s.Plays p.nextAlias around roles →
      List.Forall₂ (TableBinding.Plays s.compiler.options.firstAlias p.nextAlias around) tables seats → tables ≠ [] →
      Cast s.compiler.options.firstAlias p.nextAlias around bindings bound →
      Option.Rel (fun g ks => KeysPlay s.compiler.options.firstAlias p.nextAlias around (Grouping.keys g) ks)
        grouping keys →
      projectionWritten s.compiler roles seats bound keys projection around out

/-- A selection without projection is written as a whole. -/
private theorem projection_wordedNone : ProjectionIsWorded none := by
  intro s tables bindings grouping p out p' h
  obtain ⟨rfl, rfl⟩ := gives_pure.mp h
  exact ⟨le_rfl, fun _ ht hsome _ hk => Projected.written_whole ht hsome hk⟩

/-- A projected object is written member by member. -/
private theorem projection_wordedObject {params : List String} {ms : List (String × Expr)}
    (hms : ∀ m ∈ ms, m.2.IsWorded) :
    ProjectionIsWorded (some (.select ⟨params, .object ms⟩)) := by
  intro s tables bindings grouping p out p' h
  simp only [planProjection, gives_withFrame] at h
  obtain ⟨hparams, hobject⟩ := h
  have hwritten {roles : Roles} {around : List Level} {bound : List Role} (ha : s.Plays p.nextAlias around roles)
      (hb : Cast s.compiler.options.firstAlias p.nextAlias around bindings bound) :=
    Projected.written_object hms (ha.under hb hparams) hobject
  exact ⟨(hwritten (Scope.plays_unknown []) (cast_outside bindings)).1,
    fun ha _ _ hb _ => (hwritten ha hb).2⟩

/-- A projection that builds no object is written as its body. -/
private theorem projection_wordedBody {params : List String} {body : Expr} (hbody : body.IsWorded)
    (hne : ∀ ms, body ≠ .object ms) : ProjectionIsWorded (some (.select ⟨params, body⟩)) := by
  intro s tables bindings grouping p out p' h
  have hplan : planProjection tables bindings grouping (some (.select ⟨params, body⟩)) =
      withFrame params bindings (Projected.body {} (operand body)) := by
    rw [planProjection]
    exact hne
  rw [hplan, gives_withFrame] at h
  obtain ⟨hparams, hvalue⟩ := h
  have hwritten {roles : Roles} {around : List Level} {bound : List Role} (ha : s.Plays p.nextAlias around roles)
      (hb : Cast s.compiler.options.firstAlias p.nextAlias around bindings bound) :=
    Projected.written_body hbody (ha.under hb hparams) hvalue
  refine ⟨(hwritten (Scope.plays_unknown []) (cast_outside bindings)).1, ?_⟩
  intro roles around seats bound keys ha _ _ hb _
  cases body with
  | object ms => exact absurd rfl (hne ms)
  | _ => exact (hwritten ha hb).2

/-- An object that is laid over a table is written member by member. -/
private theorem projection_wordedFlatten {params : List String} {body : Expr}
    (hms : ∀ ms, body = .object ms → ∀ m ∈ ms, m.2.IsWorded) : ProjectionIsWorded (some (.flatten ⟨params, body⟩)) := by
  intro s tables bindings grouping p out p' h
  cases body with
  | object ms =>
    simp only [planProjection, gives_withFrame] at h
    obtain ⟨hparams, hoverlay⟩ := h
    have hwritten {roles : Roles} {around : List Level} {bound : List Role} (ha : s.Plays p.nextAlias around roles)
        (hb : Cast s.compiler.options.firstAlias p.nextAlias around (tableBindings tables) bound) :=
      Projected.written_overlay (hms ms rfl) (ha.under hb hparams) hoverlay
    refine ⟨(hwritten (Scope.plays_unknown []) (cast_outside _)).1, ?_⟩
    intro roles around seats bound keys ha ht hsome _ _
    exact ⟨_, Projected.written_whole ht hsome .none, (hwritten ha (cast_tables ht)).2⟩
  | _ => simp [planProjection] at h

/-! ## Queries -/

section Outer

variable {first : Char} {limit : Nat} {tables : List TableBinding} {seats : List TablePlace}
  {keys : Option (List (String × Node))} {wordings : Option (List (String × Wording))}

/-- What a grouped query's later clauses are bound to plays the role of its groups, and otherwise those of its
tables. -/
theorem cast_outer :
    Option.Rel (KeysPlay first limit around) keys wordings →
    List.Forall₂ (TableBinding.Plays first limit around) tables seats →
    Cast first limit around
      (match keys.map fun ks => (⟨ks, tables⟩ : Grouping) with
        | some g => [.grouping g]
        | none => tableBindings tables)
      (outerRoles seats wordings) := by
  intro hk ht
  cases hk with
  | some hk => exact .cons (.groups hk ht) .nil
  | none => exact cast_tables ht

/-- The keys of a grouping are the keys of a grouped query. -/
theorem rel_keys (hk : Option.Rel (KeysPlay first limit around) keys wordings) :
    Option.Rel (fun g ks => KeysPlay first limit around (Grouping.keys g) ks)
      (keys.map fun ks => (⟨ks, tables⟩ : Grouping)) wordings := by
  cases hk with
  | some hk => exact .some hk
  | none => exact .none

/-- A selection is grouped by the keys of the groups. -/
theorem groupingWritten_of_play (hk : Option.Rel (KeysPlay first limit around) keys wordings) :
    groupingWritten wordings around ((keys.getD []).map Prod.snd) := by
  cases hk with
  | some hk => exact ⟨_, hk.written, rfl⟩
  | none => rfl

end Outer

/-- **A planned query is written as it should be**, given that its clauses are.

Where no alias is chosen, the tables of the selection get the aliases of positions that no parameter of the lambdas
around has, so inside the selection all of them still play their roles, and the tables play their own.

**Proof sketch.** The tables of the selection take positions of their own and play their roles in it, beside those
around. With them seated, every clause is written as it is worded: the filters and keys over the tables, and what
comes after over the groups, if there are any. -/
theorem isWorded_of_clauses {source : Source} {aliasName : Option String} {joins : List Join}
    {filters having : List Lambda} {groupBy : Option Lambda} {orderBy : List (Lambda × Bool)}
    {projection : Option Projection} {distinct : Bool} {limit offset : Option Nat} (hsource : source.IsWorded)
    (hjoins : JoinsAreWorded joins) (hfilters : TestsAreWorded filters) (hkeys : KeysAreWorded groupBy)
    (hhaving : TestsAreWorded having) (horder : OrderIsWorded orderBy) (hprojection : ProjectionIsWorded projection) :
    IsWorded ⟨source, aliasName, joins, filters, groupBy, having, orderBy, projection, distinct, limit, offset⟩ := by
  intro s roles around p sel p' ha h
  simp only [planQuery] at h
  obtain ⟨planned, q, hplanned, h⟩ := gives_bind.mp h
  obtain ⟨⟨table, first⟩, p0, hbind, h⟩ := gives_bind.mp h
  obtain ⟨⟨joined, tables⟩, p1, hjoined, h⟩ := gives_bind.mp h
  obtain ⟨tests, p2, htests, h⟩ := gives_bind.mp h
  obtain ⟨ks, p3, hks, h⟩ := gives_bind.mp h
  obtain ⟨out, p4, hout, h⟩ := gives_bind.mp h
  obtain ⟨groupTests, p5, hgroupTests, h⟩ := gives_bind.mp h
  obtain ⟨order, p6, hordered, h⟩ := gives_bind.mp h
  obtain ⟨rfl, rfl⟩ := gives_pure.mp h
  obtain ⟨hle0, htable, hfirst, hentity, hrows⟩ := hsource.bound hplanned hbind
  obtain ⟨hle1, hunnamed⟩ := hjoins hjoined
  have hle2 := (hfilters (Scope.plays_unknown []) (cast_outside _) htests).1
  have hle3 := (hkeys (Scope.plays_unknown []) (cast_outside _) hks).1
  obtain ⟨hle4, hprojected⟩ := hprojection hout
  have hle5 := (hhaving (Scope.plays_unknown []) (cast_outside _) hgroupTests).1
  have hle6 := (horder (Scope.plays_unknown []) (cast_outside _) hordered).1
  refine ⟨by omega, ?_⟩
  intro hnone hnames
  subst hnone
  obtain ⟨positions, new, rfl, hopens, hon⟩ := hunnamed hnames
  have hall : Opens s p p1 (p.nextAlias :: positions) (table :: joined.map (·.table)) (first :: new) _ :=
    hopens.cons (by omega) hle1 htable hfirst hentity
  have hplays (deferring : Bool) {limit : Nat} (hle : p.nextAlias ≤ limit) :
      s.Plays limit (⟨table :: joined.map (·.table), deferring⟩ :: around) roles :=
    ha.deepen hle (hall.fromOn deferring)
  have hseats (deferring : Bool) {limit : Nat} (hle : p1.nextAlias ≤ limit) :
      List.Forall₂ (TableBinding.Plays s.compiler.options.firstAlias limit
        (⟨table :: joined.map (·.table), deferring⟩ :: around)) (first :: new) _ :=
    (hall.plays deferring).imp fun _ _ h => h.deepen hle .nil
  have hconditions := hon (hplays false (by omega))
    (List.forall_mem_singleton.mpr ⟨p.nextAlias, by omega, hfirst⟩) (hseats false le_rfl)
  -- the rows are tested, and grouped by keys
  have hfiltered := (hfilters (hplays false (by omega)) (cast_tables (hseats false le_rfl)) htests).2
  have hgrouped (deferring : Bool) :=
    (hkeys (hplays deferring (by omega)) (cast_tables (hseats deferring hle2)) hks).2
  have houter (deferring : Bool) := cast_outer (hgrouped deferring) (hseats deferring (by omega))
  -- the columns, which may stand beside deferred expressions
  have hcolumns := hprojected (hplays (!out.deferred.isEmpty) (by omega)) (hseats _ (by omega)) (List.cons_ne_nil first new)
    (houter _) (rel_keys (hgrouped _))
  -- the groups are tested and sorted
  have hgroupTested := (hhaving (hplays false (by omega)) ((houter false).later hle4) hgroupTests).2
  have hsorted := (horder (hplays false (by omega)) ((houter false).later (by omega)) hordered).2
  exact ⟨hrows around, hconditions, ⟨tests, hfiltered, rfl⟩, groupingWritten_of_play (hgrouped false),
    ⟨out, hcolumns, rfl, rfl, rfl⟩, ⟨groupTests, hgroupTested, rfl⟩, hsorted⟩

/-! ## All queries -/

/-- An expression is planned as what may be written for it, and so are the body of a lambda and the members of an
object, which clauses plan by themselves. -/
structure Expr.IsWritten (e : Expr) : Prop where
  value : e.IsWorded
  body : ∀ params body, e = .lambda params body → body.IsWorded
  members : ∀ ms, e = .object ms → ∀ m ∈ ms, m.2.IsWorded

namespace Expr.IsWritten

variable {e : Expr}

/-- Arguments, of which any may be a lambda over rows, or a value.

**Proof sketch.** A lambda is planned with its parameters bound to rows, any other argument as a value, for which the
bindings do not matter. -/
theorem next (h : e.IsWritten) {rest : List Expr} (hrest : AreWorded rest) : AreWorded (e :: rest) := by
  intro s roles around p ha
  have hgiven := h.value.given ha
  have applied (hne : ∀ params body, e ≠ .lambda params body) {bindings : List Binding} {bound : List Role}
      {q q' : Progress} {n : Node} (hle : p.nextAlias ≤ q.nextAlias)
      (hb : Cast s.compiler.options.firstAlias q.nextAlias around bindings bound)
      (hn : ((operand e).applied bindings).Gives s q n q') :
      q.nextAlias ≤ q'.nextAlias ∧ e.wording s.compiler roles around [n] := by
    have hlambda : e.toLambda = ⟨[], e⟩ := by
      cases e with
      | lambda params body => exact absurd rfl (hne params body)
      | _ => rfl
    rw [operand_applied, hlambda] at hn
    have hw := h.value.under (ha.later hle) hb hn
    rwa [Roles.under_nil] at hw
  cases e with
  | lambda params body =>
    refine .cons ⟨hgiven.source, hgiven.gives, ?_⟩ (hrest ha)
    intro selected bindings bound q n q' hselected hle hb hn
    cases hselected
    exact (h.body params body rfl).under (ha.later hle) hb hn
  | _ =>
    refine .cons ⟨hgiven.source, hgiven.gives, ?_⟩ (hrest ha)
    intro selected bindings bound q n q' hselected hle hb hn
    cases hselected
    exact applied (by simp) hle hb hn

/-- A written expression is a worded key. -/
theorem keys (h : e.IsWritten) (params : List String) : KeysAreWorded (some ⟨params, e⟩) := by
  cases e with
  | object ms => exact keys_wordedObject (h.members ms rfl)
  | _ => exact keys_wordedValue h.value nofun

/-- A written expression is a worded projection. -/
theorem projection (h : e.IsWritten) (params : List String) : ProjectionIsWorded (some (.select ⟨params, e⟩)) := by
  cases e with
  | object ms => exact projection_wordedObject (h.members ms rfl)
  | _ => exact projection_wordedBody h.value nofun

end Expr.IsWritten

mutual

/-- **Every expression is planned as what may be written for it**, by induction on the expression. -/
theorem Expr.isWritten : ∀ e : Expr, e.IsWritten
  | .constant _ => ⟨barren_isWorded rfl, nofun, nofun⟩
  | .captured _ _ => ⟨barren_isWorded rfl, nofun, nofun⟩
  | .param name => ⟨param_isWorded name, nofun, nofun⟩
  | .static _ _ => ⟨barren_isWorded rfl, nofun, nofun⟩
  | .member target name => ⟨member_isWorded target.isWritten.value name, nofun, nofun⟩
  | .call (some target) type method args =>
    ⟨call_isWorded target.isWritten.value (areWorded args) type method, nofun, nofun⟩
  | .call none type method args => ⟨callOf_isWorded (areWorded args) type method, nofun, nofun⟩
  | .binary op left right => ⟨binary_isWorded left.isWritten.value right.isWritten.value op, nofun, nofun⟩
  | .unary op operand => ⟨unary_isWorded operand.isWritten.value op, nofun, nofun⟩
  | .conditional test a b =>
    ⟨conditional_isWorded test.isWritten.value a.isWritten.value b.isWritten.value, nofun, nofun⟩
  | .convert inner target => ⟨convert_isWorded inner.isWritten.value target, nofun, nofun⟩
  | .array items => ⟨array_isWorded (areWorded items), nofun, nofun⟩
  | .object ms => ⟨barren_isWorded rfl, nofun, fun _ hms => by
      cases hms
      exact members_areWorded ms⟩
  | .lambda params body => ⟨barren_isWorded rfl, fun _ _ hl => by
      cases hl
      exact body.isWritten.value, nofun⟩
  | .query q => ⟨query_isWorded (query_isWritten q), nofun, nofun⟩

/-- Items are planned as what may be written for them. -/
private theorem areWorded : ∀ es : List Expr, AreWorded es
  | [] => fun _ _ _ _ _ => .nil
  | e :: rest => e.isWritten.next (areWorded rest)

/-- Members are planned as what may be written for them. -/
private theorem members_areWorded : ∀ ms : List (String × Expr), ∀ m ∈ ms, m.2.IsWorded
  | [] => nofun
  | (_, e) :: rest => List.forall_mem_cons.mpr ⟨e.isWritten.value, members_areWorded rest⟩

/-- Tests are planned as what may be written for them. -/
theorem tests_areWorded : ∀ tests : List (LambdaOf Expr), TestsAreWorded tests
  | [] => tests_wordedNil
  | ⟨_, body⟩ :: rest => tests_wordedCons body.isWritten.value (tests_areWorded rest)

/-- Sort keys are planned as what may be written for them. -/
private theorem order_isWorded : ∀ keys : List (LambdaOf Expr × Bool), OrderIsWorded keys
  | [] => order_wordedNil
  | (⟨_, body⟩, _) :: rest => order_wordedCons body.isWritten.value (order_isWorded rest)

/-- Joins are planned as what may be written for them. -/
private theorem joins_areWorded : ∀ joins : List (JoinOf Expr Source), JoinsAreWorded joins
  | [] => joins_wordedNil
  | ⟨_, source, ⟨_, body⟩, _⟩ :: rest =>
    joins_wordedCons (source_isWritten source) body.isWritten.value (joins_areWorded rest)

/-- Keys of groups are planned as what may be written for them. -/
private theorem keys_areWorded : ∀ groupBy : Option (LambdaOf Expr), KeysAreWorded groupBy
  | none => keys_wordedNone
  | some ⟨params, body⟩ => body.isWritten.keys params

/-- Projections are planned as what may be written for them. -/
private theorem projection_isWorded : ∀ projection : Option (ProjectionOf Expr), ProjectionIsWorded projection
  | none => projection_wordedNone
  | some (.select ⟨params, body⟩) => body.isWritten.projection params
  | some (.flatten ⟨_, body⟩) => projection_wordedFlatten body.isWritten.members

/-- **Every query is written as it should be.** -/
theorem query_isWritten : ∀ q : QueryOf Expr Source, IsWorded q
  | ⟨source, _, joins, filters, groupBy, having, orderBy, projection, _, _, _⟩ =>
    isWorded_of_clauses (source_isWritten source) (joins_areWorded joins) (tests_areWorded filters)
      (keys_areWorded groupBy) (tests_areWorded having) (order_isWorded orderBy) (projection_isWorded projection)

/-- Each source is worded. -/
theorem source_isWritten : ∀ source : Source, source.IsWorded
  | .entity name => source_entity name
  | .derived q => source_derived (query_isWritten q)
  | .cte c => source_cte c
  | .selfRef name => source_selfRef name

end

end LambdaSql
