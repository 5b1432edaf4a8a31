import LambdaSql.Proofs.Twins.Projecting

/-!
# Planning twins

Twins are planned alike, by induction on how they are twins.

## Main definitions

* `PlannedSource.blank` - what is read from, with bound values blanked.
* `Expr.Separate` - what may be assumed of each two corresponding expressions.
* `Expr.PlannedAlike`, `Query.PlannedAlike` - expressions and queries that are planned alike.

## Main results

* `Expr.Twins.alike`, `Query.Twins.alike`, `Source.Twins.alike` - twins are planned alike.
-/

namespace LambdaSql

open Planning

/-! ## Tables -/

section Tables

variable {c : Compiler}

/-- What is read from, with bound values blanked. -/
def PlannedSource.blank (s : PlannedSource) : PlannedSource := { s with rows := blankRows s.rows }

/-- Sources that are alike are bound alike. -/
private theorem alike_bindTable {s s' : PlannedSource} (h : s.blank = s'.blank) (aliasName : Option String) :
    Alike c (Prod.map blankTable id) (bindTable aliasName s) (bindTable aliasName s') := by
  obtain ⟨rows, name, shape⟩ := s
  obtain ⟨rows', _, _⟩ := s'
  obtain ⟨hrows, rfl, rfl⟩ := PlannedSource.mk.inj h
  refine Alike.nextAlias.bind fun generated generated' hgenerated => .pure ?_
  obtain rfl : generated = generated' := hgenerated
  exact congrArg (fun rows => ((⟨rows, _⟩ : Table), (⟨_, _, _⟩ : TableBinding))) hrows

/-- The table of an entity is planned alike. -/
private theorem alike_planEntity (name : String) : Alike c PlannedSource.blank (planEntity name) (planEntity name) := by
  unfold planEntity
  refine Alike.read_bind fun s s' hs hs' _ => ?_
  rw [hs, hs']
  exact Alike.bind (f := id) (.ofExcept rfl) fun e e' he => .pure (by rw [show e = e' from he])

end Tables

/-! ## Common table expressions -/

section Ctes

variable {c : Compiler} {name : String}

/-- Looking for the columns of a common table expression is done alike. -/
private theorem alike_selfShape? (name : String) : Alike c id (selfShape? name) (selfShape? name) := by
  unfold selfShape?
  refine Alike.read_bind fun s s' _ _ hs => ?_
  rw [(Scope.blank_eq_iff.mp hs).2.2.2.2]
  split
  · refine Alike.bind (f := id) (.modifyProgress fun p p' hp => ?_) fun _ _ _ => .pure rfl
    obtain ⟨halias, hctes, hreads⟩ := Progress.blank_eq_iff.mp hp
    exact Progress.blank_eq_iff.mpr ⟨halias, hctes, by rw [hreads]⟩
  · exact .pure rfl

/-- What is planned alike is so within a common table expression. -/
private theorem alike_withinCte {α γ : Type} {f : α → γ} {x x' : Planning α} (h : Alike c f x x') (name : String) :
    Alike c f (withinCte name x) (withinCte name x') := by
  refine h.withReader (fun _ => rfl) fun s s' hs => ?_
  obtain ⟨hcompiler, hframes, -, hunderway, hrecursive⟩ := Scope.blank_eq_iff.mp hs
  exact Scope.blank_eq_iff.mpr ⟨hcompiler, hframes, rfl, congrArg (name :: ·) hunderway, hrecursive⟩

/-- What is planned alike is so where a common table expression may be read. -/
private theorem alike_withSelfRef {α γ : Type} {f : α → γ} {x x' : Planning α} (h : Alike c f x x') (name : String)
    (shape : List Output) : Alike c f (withSelfRef name shape x) (withSelfRef name shape x') := by
  refine h.withReader (fun _ => rfl) fun s s' hs => ?_
  obtain ⟨hcompiler, hframes, hprojection, hunderway, hrecursive⟩ := Scope.blank_eq_iff.mp hs
  exact Scope.blank_eq_iff.mpr ⟨hcompiler, hframes, hprojection, hunderway, congrArg ((name, shape) :: ·) hrecursive⟩

/-- Common table expressions that differ in bound values only have the same columns. -/
theorem cteShape_eq_of_blank {cte cte' : CtePlan} (h : cte.blank = cte'.blank) :
    cteShape cte.columns cte.anchor.shape = cteShape cte'.columns cte'.anchor.shape := by
  have hcolumns : cte.columns = cte'.columns := congrArg (·.columns) h
  rw [hcolumns, shape_eq_of_blank (congrArg (·.anchor) h)]

/-- A common table expression is planned once in both runs.

**Proof sketch.** The table has been planned before in both runs or in neither. If it has not, it is planned alike and
recorded after the same others. -/
private theorem alike_planOnce {plan plan' : Planning CtePlan} (h : Alike c CtePlan.blank plan plan') (name : String) :
    Alike c id (planOnce name plan) (planOnce name plan') := by
  unfold planOnce
  refine Alike.getProgress.bind fun p p' hp => ?_
  have hfound : (p.ctes.find? (·.name == name)).map CtePlan.blank =
      (p'.ctes.find? (·.name == name)).map CtePlan.blank := by
    have hctes := congrArg (List.find? (·.name == name)) (Progress.blank_eq_iff.mp hp).2.1
    rwa [List.find?_map, List.find?_map] at hctes
  dsimp only
  generalize p.ctes.find? (·.name == name) = found at hfound
  generalize p'.ctes.find? (·.name == name) = found' at hfound
  cases rel_of_map_eq hfound with
  | some h => exact .pure (cteShape_eq_of_blank h)
  | none =>
    refine Alike.read_bind fun s s' _ _ hs => ?_
    rw [(Scope.blank_eq_iff.mp hs).2.2.2.1]
    refine Alike.orFail .rfl ?_
    refine (Alike.withOwnAliases (alike_withinCte h name)).bind fun cte cte' hcte => ?_
    refine Alike.bind (f := id) (.modifyProgress fun p p' hp => ?_) fun _ _ _ => ?_
    · obtain ⟨halias, hctes, hreads⟩ := Progress.blank_eq_iff.mp hp
      refine Progress.blank_eq_iff.mpr ⟨halias, ?_, hreads⟩
      rw [List.map_append, List.map_append, hctes, List.map_singleton, hcte, List.map_singleton]
    · exact .pure (cteShape_eq_of_blank hcte)

/-- A common table expression is planned alike if its queries are. -/
private theorem alike_assembleCte {anchor anchor' : Planning Select} {union union' : Option (Planning Select)}
    (ha : Alike c blankSelect anchor anchor') (hu : Option.Rel (Alike c blankSelect) union union') (name : String)
    (declared : List String) (recursive : Bool) :
    Alike c CtePlan.blank (assembleCte name declared recursive anchor union)
      (assembleCte name declared recursive anchor' union') := by
  unfold assembleCte
  refine ha.bind fun first first' hfirst => ?_
  dsimp only
  rw [shape_eq_of_blank hfirst]
  refine Alike.orFail .rfl ?_
  cases hu with
  | none => exact .pure (by simp [CtePlan.blank, hfirst])
  | some hplan =>
    refine Alike.bind (f := id) .restartAliases fun _ _ _ => ?_
    refine (alike_withSelfRef hplan name _).bind fun second second' hsecond => ?_
    rw [shape_eq_of_blank hsecond]
    refine Alike.orFail .rfl (Alike.getProgress.bind fun p p' hp => .pure ?_)
    simp [CtePlan.blank, hfirst, hsecond, (Progress.blank_eq_iff.mp hp).2.2]

/-- A reference to a common table expression itself is planned alike. -/
private theorem alike_selfSource (name : String) : Alike c PlannedSource.blank (selfSource name) (selfSource name) := by
  unfold selfSource
  refine (alike_selfShape? name).bind fun shape? shape?' h => ?_
  obtain rfl : shape? = shape?' := h
  split
  · exact .pure rfl
  · exact .fail

end Ctes

/-! ## Expressions -/

section Operands

variable {C : Expr → Expr → Prop} {c : Compiler} {e e' : Expr} {lower lower' : Planning Node}

/-- An expression that is planned in one way only is planned alike if its values are. -/
private theorem plainOperand_alike (h : e.Twins C e') (harray : ∀ es, e ≠ .array es)
    (hvalue : Alike c Node.blank (Lowering.folded e lower) (Lowering.folded e' lower')) :
    (plainOperand e lower).Alike C c (plainOperand e' lower') where
  source := h
  value := hvalue
  alternatives := hvalue.bind fun _ _ hn => .pure (congrArg (fun n => [n]) hn)
  applied := fun bindings bindings' hb => show Alike c Node.blank (withFrame [] bindings _) (withFrame [] bindings' _)
    from hvalue.withFrame hb
  selection := .none
  items := .none
  listed := fun _ => harray

/-- Bodies of twins under bindings that are alike are planned alike. -/
theorem Operand.Alike.under {o o' : Operand} (h : o.Alike C c o') (params : List String)
    {bindings bindings' : List Binding} (hb : bindings.map Binding.blank = bindings'.map Binding.blank) :
    Planning.Alike c Node.blank (o.under params bindings) (o'.under params bindings') := h.value.withFrame hb

variable (c e e') in
/-- No captured value lies within a larger expression that is evaluated, and formats at hand are the same. -/
structure Expr.Separate : Prop extends Expr.Apart c e e' where
  formats : Expr.FormatsAlike c.translations e e'

variable (c e e') in
/-- Two expressions are planned alike. If they are objects, so are their members. -/
structure Expr.PlannedAlike : Prop where
  operand : (operand e).Alike (Expr.Separate c) c (operand e')
  members : ∀ ms ms', e = .object ms → e' = .object ms' →
    List.Forall₂ (Projected.NamedAlike (Expr.Separate c) c) (members ms) (members ms')

/-- Expressions that are planned alike are twins. -/
private theorem Expr.PlannedAlike.twins (h : Expr.PlannedAlike c e e') : e.Twins (Expr.Separate c) e' := by
  simpa using h.operand.source

variable (c) in
/-- Two lambdas are planned alike. -/
def Lambda.PlannedAlike (l l' : Lambda) : Prop := l.params = l'.params ∧ l.body.PlannedAlike c l'.body

variable (c) in
/-- Two queries are planned alike. -/
def Query.PlannedAlike (q q' : Query) : Prop := Alike c blankSelect (planQuery q) (planQuery q')

variable (c) in
/-- Two sources are planned alike. -/
def Source.PlannedAlike (source source' : Source) : Prop :=
  Alike c PlannedSource.blank (planSource source) (planSource source')

variable (c) in
/-- Two joins are planned alike. -/
structure Join.PlannedAlike (j j' : Join) : Prop where
  kind : j.kind = j'.kind
  aliasName : j.aliasName = j'.aliasName
  source : Source.PlannedAlike c j.source j'.source
  on : Lambda.PlannedAlike c j.on j'.on

variable (c) in
/-- Two projections are planned alike. -/
inductive Projection.PlannedAlike : Projection → Projection → Prop
  | select {l l' : Lambda} : Lambda.PlannedAlike c l l' → PlannedAlike (.select l) (.select l')
  | flatten {l l' : Lambda} : Lambda.PlannedAlike c l l' → PlannedAlike (.flatten l) (.flatten l')

end Operands

/-! ## Clauses -/

section Clauses

variable {c : Compiler} {bindings bindings' : List Binding} {tables : List TableBinding}

/-- Tests are planned alike if their bodies are. -/
private theorem alike_planTests {tests tests' : List Lambda} (h : List.Forall₂ (Lambda.PlannedAlike c) tests tests')
    (hb : bindings.map Binding.blank = bindings'.map Binding.blank) :
    Alike c (List.map Node.blank) (planTests bindings tests) (planTests bindings' tests') := by
  induction h with
  | nil => exact .pure rfl
  | @cons l l' rest rest' hl _ ih =>
    obtain ⟨params, body⟩ := l
    obtain ⟨_, body'⟩ := l'
    obtain ⟨rfl, hbody⟩ := hl
    simp only [planTests]
    exact (hbody.operand.under params hb).bind fun n n' hn => ih.bind fun ns ns' hns =>
      .pure (by simp [hn, hns])

/-- Sort keys are planned alike if their bodies are. -/
private theorem alike_planOrder {keys keys' : List (Lambda × Bool)}
    (h : List.Forall₂ (fun k k' => Lambda.PlannedAlike c k.1 k'.1 ∧ k.2 = k'.2) keys keys')
    (hb : bindings.map Binding.blank = bindings'.map Binding.blank) :
    Alike c (List.map (Prod.map Node.blank id)) (planOrder bindings keys) (planOrder bindings' keys') := by
  induction h with
  | nil => exact .pure rfl
  | @cons k k' rest rest' hk _ ih =>
    obtain ⟨⟨params, body⟩, down⟩ := k
    obtain ⟨⟨_, body'⟩, _⟩ := k'
    obtain ⟨⟨rfl, hbody⟩, rfl⟩ := hk
    simp only [planOrder]
    exact (hbody.operand.under params hb).bind fun n n' hn => ih.bind fun ns ns' hns =>
      .pure (by simp [hn, hns])

/-- Joins are planned alike if their sources and conditions are. -/
private theorem alike_planJoins {joins joins' : List Join} (h : List.Forall₂ (Join.PlannedAlike c) joins joins') :
    Alike c (Prod.map blankJoins id) (planJoins tables joins) (planJoins tables joins') := by
  induction h generalizing tables with
  | nil => exact .pure rfl
  | @cons j j' rest rest' hj _ ih =>
    obtain ⟨kind, source, ⟨params, body⟩, aliasName⟩ := j
    obtain ⟨_, source', ⟨_, body'⟩, _⟩ := j'
    obtain ⟨rfl, rfl, hsource, rfl, hbody⟩ := hj
    simp only [planJoins]
    refine Alike.bind hsource fun planned planned' hplanned => ?_
    refine (alike_bindTable hplanned aliasName).bind fun r r' hr => ?_
    obtain ⟨table, binding⟩ := r
    obtain ⟨table', _⟩ := r'
    obtain ⟨htable, rfl⟩ := Prod.mk.inj hr
    refine (hbody.operand.under params rfl).bind fun on on' hon => ih.bind fun r r' hr => .pure ?_
    obtain ⟨joined, tables⟩ := r
    obtain ⟨joined', _⟩ := r'
    obtain ⟨hjoined, rfl⟩ := Prod.mk.inj hr
    simp [blankJoins, htable, hon, show blankJoins joined = blankJoins joined' from hjoined]

/-- Keys of groups are planned alike if their bodies are.

**Proof sketch.** By the form of the key, which twins have in common: the members of an object are planned one by one,
and any other key by itself. -/
private theorem alike_planKeys {groupBy groupBy' : Option Lambda}
    (h : Option.Rel (Lambda.PlannedAlike c) groupBy groupBy')
    (hb : bindings.map Binding.blank = bindings'.map Binding.blank) :
    Alike c (Option.map blankNamed) (planKeys bindings groupBy) (planKeys bindings' groupBy') := by
  cases h with
  | none => exact .pure rfl
  | @some l l' hl =>
    obtain ⟨params, body⟩ := l
    obtain ⟨_, body'⟩ := l'
    obtain ⟨rfl, hbody⟩ := hl
    have hbodies := hbody.twins
    have one : Alike c (Option.map blankNamed) (do
        let n ← (operand body).under params bindings
        return some [(keyName body, n)]) (do
        let n ← (operand body').under params bindings'
        return some [(keyName body', n)]) := by
      refine (hbody.operand.under params hb).bind fun n n' hn => .pure ?_
      rw [hbodies.keyName]
      simp [blankNamed, hn]
    cases hbodies with
    | object _ =>
      simp only [planKeys]
      refine Alike.withFrame (Alike.bind (f := blankNamed) (.mapM ?_) fun ks ks' hks => .pure (congrArg some hks)) hb
      refine (hbody.members _ _ rfl rfl).imp fun m m' hm => ?_
      obtain ⟨name, o⟩ := m
      obtain ⟨_, o'⟩ := m'
      obtain ⟨rfl, ho⟩ := hm
      exact ho.value.bind fun n n' hn => .pure (congrArg (Prod.mk name) hn)
    | _ => exact one

/-- Projections are planned alike if their bodies are.

**Proof sketch.** By the form of the projection, which twins have in common: nothing, an object, another body, or an
object laid over the tables. -/
private theorem alike_planProjection {grouping? grouping?' : Option Grouping}
    {projection projection' : Option Projection}
    (h : Option.Rel (Projection.PlannedAlike c) projection projection')
    (hb : bindings.map Binding.blank = bindings'.map Binding.blank)
    (hg : grouping?.map Grouping.blank = grouping?'.map Grouping.blank) :
    Alike c Projected.blank (planProjection tables bindings grouping? projection)
      (planProjection tables bindings' grouping?' projection') := by
  cases h with
  | none => exact .pure (Projected.whole_eq_of_blank tables hg)
  | some h =>
    cases h with
    | @select l l' hl =>
      obtain ⟨params, body⟩ := l
      obtain ⟨_, body'⟩ := l'
      obtain ⟨rfl, hbody⟩ := hl
      cases hbody.twins with
      | object _ =>
        simp only [planProjection]
        exact Alike.withFrame (Projected.alike_object rfl (hbody.members _ _ rfl rfl)) hb
      | _ => exact Alike.withFrame (Projected.alike_body rfl hbody.operand) hb
    | @flatten l l' hl =>
      obtain ⟨params, body⟩ := l
      obtain ⟨_, body'⟩ := l'
      obtain ⟨rfl, hbody⟩ := hl
      cases hbody.twins with
      | object _ =>
        simp only [planProjection]
        exact Alike.withFrame (Projected.alike_overlay rfl (hbody.members _ _ rfl rfl)) rfl
      | _ => exact Alike.withFrame .fail rfl

end Clauses

/-! ## Queries -/

section Queries

variable {c : Compiler}

/-- What stands for rows behind a grouping, or for rows that are not grouped. -/
theorem outer_eq_of_blank (tables : List TableBinding) {grouping? grouping?' : Option Grouping}
    (hg : grouping?.map Grouping.blank = grouping?'.map Grouping.blank) :
    (match grouping? with
      | some g => [Binding.grouping g]
      | none => tableBindings tables).map Binding.blank =
    (match grouping?' with
      | some g => [Binding.grouping g]
      | none => tableBindings tables).map Binding.blank := by
  cases rel_of_map_eq hg with
  | none => rfl
  | some h => exact congrArg (fun g => [Binding.grouping g]) h

/-- Two queries are planned alike if their clauses are.

**Proof sketch.** Clause after clause. The bindings that a clause is planned in are those of the tables planned so
far, which are alike as well, and the blanked selection is made of the blanked clauses. -/
theorem Query.alike_of_clauses {source source' : Source} {aliasName : Option String} {joins joins' : List Join}
    {filters filters' having having' : List Lambda} {groupBy groupBy' : Option Lambda}
    {orderBy orderBy' : List (Lambda × Bool)} {projection projection' : Option Projection} {distinct : Bool}
    {limit offset : Option Nat} (hsource : Source.PlannedAlike c source source')
    (hjoins : List.Forall₂ (Join.PlannedAlike c) joins joins')
    (hfilters : List.Forall₂ (Lambda.PlannedAlike c) filters filters')
    (hgroupBy : Option.Rel (Lambda.PlannedAlike c) groupBy groupBy')
    (hhaving : List.Forall₂ (Lambda.PlannedAlike c) having having')
    (horder : List.Forall₂ (fun k k' => Lambda.PlannedAlike c k.1 k'.1 ∧ k.2 = k'.2) orderBy orderBy')
    (hprojection : Option.Rel (Projection.PlannedAlike c) projection projection') :
    Query.PlannedAlike c
      ⟨source, aliasName, joins, filters, groupBy, having, orderBy, projection, distinct, limit, offset⟩
      ⟨source', aliasName, joins', filters', groupBy', having', orderBy', projection', distinct, limit, offset⟩ := by
  simp only [Query.PlannedAlike, planQuery]
  refine Alike.bind hsource fun planned planned' hplanned => ?_
  refine (alike_bindTable hplanned aliasName).bind fun r r' hr => ?_
  obtain ⟨table, first⟩ := r
  obtain ⟨table', _⟩ := r'
  obtain ⟨htable, rfl⟩ := Prod.mk.inj hr
  refine (alike_planJoins hjoins).bind fun r r' hr => ?_
  obtain ⟨joined, tables⟩ := r
  obtain ⟨joined', _⟩ := r'
  obtain ⟨hjoined, rfl⟩ := Prod.mk.inj hr
  refine (alike_planTests hfilters rfl).bind fun tests tests' htests => ?_
  refine (alike_planKeys hgroupBy rfl).bind fun keys keys' hkeys => ?_
  have hgrouping : (keys.map fun ks => (⟨ks, tables⟩ : Grouping)).map Grouping.blank =
      (keys'.map fun ks => (⟨ks, tables⟩ : Grouping)).map Grouping.blank := by
    cases rel_of_map_eq hkeys with
    | none => rfl
    | some h => exact congrArg (fun ks => some (⟨ks, tables⟩ : Grouping)) h
  have houter := outer_eq_of_blank tables hgrouping
  refine (alike_planProjection hprojection houter hgrouping).bind fun out out' hout => ?_
  refine (alike_planTests hhaving houter).bind fun groupTests groupTests' hgroupTests => ?_
  refine (alike_planOrder horder houter).bind fun order order' hordered => .pure ?_
  obtain ⟨hcolumns, hshape⟩ := Projected.blank_eq_iff.mp hout
  have hgroupKeys : ((keys.getD []).map Prod.snd).map Node.blank = ((keys'.getD []).map Prod.snd).map Node.blank := by
    cases rel_of_map_eq hkeys with
    | none => rfl
    | some h => simpa [blankNamed, Function.comp_def] using congrArg (List.map Prod.snd) h
  have hjoined : blankJoins joined = blankJoins joined' := hjoined
  simp only [blankSelect, blankColumns_eq, blankOption_eq, blankNodes_eq, blankOrder_eq, Node.blank_conjunction,
    hcolumns, hshape, htable, hjoined, htests, hgroupKeys, hgroupTests, hordered]

/-- Derived tables are planned alike if their queries are. -/
private theorem derived_alike {q q' : Query} (h : Query.PlannedAlike c q q') (hname : queryName q = queryName q') :
    Source.PlannedAlike c (.derived q) (.derived q') := by
  simp only [Source.PlannedAlike, planSource]
  rw [hname]
  refine (Alike.withOwnAliases (Alike.asSubquery h)).bind fun s s' hs => .pure ?_
  simp [PlannedSource.blank, blankRows, hs, shape_eq_of_blank hs]

/-- Common table expressions are planned alike if their queries are. -/
private theorem cte_alike {anchor anchor' : Query} {union union' : Option Query}
    (ha : Query.PlannedAlike c anchor anchor')
    (hu : Option.Rel (Alike c blankSelect) (planUnion union) (planUnion union')) (name : String)
    (columns : List String) (recursive : Bool) :
    Source.PlannedAlike c (.cte ⟨name, columns, anchor, union, recursive⟩)
      (.cte ⟨name, columns, anchor', union', recursive⟩) := by
  have hplan := alike_planOnce (alike_assembleCte ha hu name columns recursive) name
  simp only [Source.PlannedAlike, planSource, planCte]
  refine (alike_selfShape? name).bind fun shape? shape?' h => ?_
  obtain rfl : shape? = shape?' := h
  split
  · exact .pure rfl
  · refine Alike.bind (f := id) hplan fun shape shape' h => .pure ?_
    rw [show shape = shape' from h]

end Queries

/-! ## Forms -/

section Forms

variable {c : Compiler} {C : Expr → Expr → Prop} {e e' l l' r r' : Expr} {es es' : List Expr}
  {ms ms' : List (String × Expr)} {lower lower' : Planning Node}

open Lowering

/-- An expression that is evaluated as a whole, or else planned from its parts. -/
theorem whole_alike (h : e.Twins C e') (hw : e.isWhole = true)
    (hv : Expr.Untouched (Expr.atHand? { compiler := c }) e e') (hlower : Alike c Node.blank lower lower') :
    (plainOperand e lower).Alike C c (plainOperand e' lower') := by
  refine plainOperand_alike h (fun es heq => ?_) (alike_folded h hw hv hlower)
  subst heq
  cases hw

/-- An expression that only the database computes. -/
theorem computed_alike (h : e.Twins C e') (harray : ∀ es, e ≠ .array es) (ho : e.origin c.translations = .sql)
    (hlower : Alike c Node.blank lower lower') :
    (plainOperand e lower).Alike C c (plainOperand e' lower') := by
  refine plainOperand_alike h harray ?_
  unfold folded
  refine alike_origin_twins h ?_
  rw [if_pos ho, if_pos ho]
  exact hlower

/-- Calls on targets are planned alike if the targets and the arguments are. -/
private theorem callOn_alike {type : Option String} {method : String}
    (hc : Expr.Separate c (.call (some e) type method es) (.call (some e') type method es'))
    (h : (Expr.call (some e) type method es).Twins (Expr.Separate c) (.call (some e') type method es'))
    (ht : (operand e).Alike (Expr.Separate c) c (operand e'))
    (hs : List.Forall₂ (Operand.Alike (Expr.Separate c) c) (operands es) (operands es')) :
    (operand (.call (some e) type method es)).Alike (Expr.Separate c) c
      (operand (.call (some e') type method es')) := by
  have hcall (e : Expr) (es : List Expr) :
      callExpr (some (operand e)) type method (operands es) = .call (some e) type method es := by
    rw [callExpr, Option.map_some, operand_source, operands_source]
  have hapart := hc.toApart
  have hformats := hc.formats
  rw [← hcall, ← hcall] at hapart hformats
  exact whole_alike h rfl hc.value (alike_callOn ht hs hapart hformats)

/-- Calls of a type are planned alike if their arguments are. -/
private theorem callOf_alike {type : Option String} {method : String}
    (hc : Expr.Separate c (.call none type method es) (.call none type method es'))
    (h : (Expr.call none type method es).Twins (Expr.Separate c) (.call none type method es'))
    (hs : List.Forall₂ (Operand.Alike (Expr.Separate c) c) (operands es) (operands es')) :
    (operand (.call none type method es)).Alike (Expr.Separate c) c (operand (.call none type method es')) := by
  have hcall (es : List Expr) : callExpr none type method (operands es) = .call none type method es := by
    rw [callExpr, Option.map_none, operands_source]
  have hapart := hc.toApart
  rw [← hcall, ← hcall] at hapart
  exact whole_alike h rfl hc.value (alike_callOf hs hapart)

/-- Binary operators are planned alike if their sides are. -/
private theorem binary_alike {op : BinaryOp} (hc : Expr.Separate c (.binary op l r) (.binary op l' r'))
    (h : (Expr.binary op l r).Twins C (.binary op l' r')) (hl : (operand l).Alike C c (operand l'))
    (hr : (operand r).Alike C c (operand r')) :
    (operand (.binary op l r)).Alike C c (operand (.binary op l' r')) := by
  have hplain := whole_alike h rfl hc.value (alike_binary hl hr op)
  rw [operand, operand]
  split
  · refine { hplain with alternatives := hl.alternatives.bind fun ns ns' hns => ?_ }
    exact hr.alternatives.bind fun ms ms' hms => .pure (by rw [List.map_append, List.map_append, hns, hms])
  · exact hplain

/-- Conversions are planned alike if what they convert is. -/
private theorem convert_alike {type : HostType} (hc : Expr.Separate c (.convert e type) (.convert e' type))
    (h : (Expr.convert e type).Twins C (.convert e' type)) (ho : (operand e).Alike C c (operand e')) :
    (operand (.convert e type)).Alike C c (operand (.convert e' type)) := by
  have hretyped : Alike c Node.blank (do return (← (operand e).value).retype type)
      (do return (← (operand e').value).retype type) :=
    ho.value.bind fun n n' hn => .pure (by simp [hn])
  exact { whole_alike h rfl hc.value hretyped with selection := ho.selection }

/-- Nested queries are planned alike as operands. -/
private theorem query_alike {q q' : Query} (h : (Expr.query q).Twins C (.query q')) (hq : Query.PlannedAlike c q q') :
    (operand (.query q)).Alike C c (operand (.query q')) := by
  have hplan := Alike.asSubquery hq
  exact { computed_alike h nofun rfl (alike_selection hplan) with selection := .some hplan }

/-- Lambdas are planned alike if their bodies are. -/
private theorem lambda_alike {params : List String} (h : (Expr.lambda params e).Twins C (.lambda params e'))
    (ho : (operand e).Alike C c (operand e')) :
    (operand (.lambda params e)).Alike C c (operand (.lambda params e')) :=
  { computed_alike h nofun rfl .fail with applied := fun _ _ hb => ho.under params hb }

/-- Arrays are planned alike if their items are. -/
private theorem array_alike (h : (Expr.array es).Twins C (.array es'))
    (hs : List.Forall₂ (Operand.Alike C c) (operands es) (operands es')) :
    (operand (.array es)).Alike C c (operand (.array es')) := by
  have hvalue : Alike c Node.blank (folded (.array es) (fail .constructionAsValue))
      (folded (.array es') (fail .constructionAsValue)) := by
    refine alike_unplanned h fun v o hv => ?_
    obtain ⟨vs, -, hlist⟩ := Except.bind_eq_ok.mp hv
    cases hlist
    exact ⟨_, rfl⟩
  exact {
    source := h
    value := hvalue
    alternatives := hvalue.bind fun _ _ hn => .pure (congrArg (fun n => [n]) hn)
    applied := fun bindings bindings' hb => show Alike c Node.blank (withFrame [] bindings _)
      (withFrame [] bindings' _) from hvalue.withFrame hb
    selection := .none
    items := .some (.mapM (hs.imp fun _ _ ho => ho.value))
    listed := nofun }

/-- Objects are planned alike as operands. -/
private theorem object_alike (h : (Expr.object ms).Twins C (.object ms')) :
    (operand (.object ms)).Alike C c (operand (.object ms')) := by
  refine plainOperand_alike h nofun (alike_unplanned h fun v o hv => ?_)
  obtain ⟨vs, -, hrecord⟩ := Except.bind_eq_ok.mp hv
  cases hrecord
  exact ⟨_, rfl⟩

end Forms

/-! ## Twins -/

section Twins

variable {c : Compiler}

open Lowering

mutual

/-- **Twins are planned alike**, by induction on how they are twins.

**Proof sketch.** Wherever planning looks at a value, it is one at hand. Twins have equal values at hand unless they
are captured themselves, and then the values are bound; so each step of planning is taken on both sides. -/
theorem Expr.Twins.alike : ∀ {e e' : Expr}, e.Twins (Expr.Separate c) e' → Expr.PlannedAlike c e e'
  | .constant v, _, .constant _ => ⟨whole_alike (.constant v) rfl (fun _ => .inl rfl) (alike_atHand ..), nofun⟩
  | .captured .., _, .captured name h => ⟨plainOperand_alike (.captured name h) nofun (alike_captured name h), nofun⟩
  | .param name, _, .param _ => ⟨whole_alike (.param name) rfl (fun _ => .inl rfl) (alike_parameter name), nofun⟩
  | .static type name, _, .static _ _ =>
    ⟨whole_alike (.static type name) rfl (fun _ => .inl rfl) (alike_static type name), nofun⟩
  | .member _ name, _, .member hc h =>
    ⟨whole_alike (.member hc h) rfl hc.value (alike_member h.alike.operand name), nofun⟩
  | _, _, .callOn hc h hs => ⟨callOn_alike hc (.callOn hc h hs) h.alike.operand (operands_alike hs), nofun⟩
  | _, _, .callOf hc hs => ⟨callOf_alike hc (.callOf hc hs) (operands_alike hs), nofun⟩
  | _, _, .binary hc hl hr => ⟨binary_alike hc (.binary hc hl hr) hl.alike.operand hr.alike.operand, nofun⟩
  | .unary op _, _, .unary hc h => ⟨whole_alike (.unary hc h) rfl hc.value (alike_unary h.alike.operand op), nofun⟩
  | _, _, .conditional hc ht ha hb =>
    ⟨whole_alike (.conditional hc ht ha hb) rfl hc.value
      (alike_conditional ht.alike.operand ha.alike.operand hb.alike.operand), nofun⟩
  | _, _, .convert hc h => ⟨convert_alike hc (.convert hc h) h.alike.operand, nofun⟩
  | _, _, .object hs => ⟨object_alike (.object hs), fun _ _ h h' => by
    cases h
    cases h'
    exact members_alike hs⟩
  | _, _, .array hs => ⟨array_alike (.array hs) (operands_alike hs), nofun⟩
  | _, _, .lambda h => ⟨lambda_alike (.lambda h) h.alike.operand, nofun⟩
  | _, _, .query h => ⟨query_alike (.query h) h.alike, nofun⟩
termination_by structural e => e

/-- Twin operands are planned alike. -/
private theorem operands_alike : ∀ {es es' : List Expr}, List.Forall₂ (Expr.Twins (Expr.Separate c)) es es' →
    List.Forall₂ (Operand.Alike (Expr.Separate c) c) (operands es) (operands es')
  | _, _, .nil => .nil
  | _, _, .cons h hs => .cons h.alike.operand (operands_alike hs)
termination_by structural es => es

/-- Twin members are planned alike. -/
private theorem members_alike : ∀ {ms ms' : List (String × Expr)},
    List.Forall₂ (Member.Twins (Expr.Separate c)) ms ms' →
    List.Forall₂ (Projected.NamedAlike (Expr.Separate c) c) (members ms) (members ms')
  | _, _, .nil => .nil
  | _, _, .cons (.mk h) hs => .cons ⟨rfl, h.alike.operand⟩ (members_alike hs)
termination_by structural ms => ms

/-- Twin lambdas are planned alike. -/
private theorem lambda_planned :
    ∀ {l l' : LambdaOf Expr}, Lambda.Twins (Expr.Separate c) l l' → Lambda.PlannedAlike c l l'
  | _, _, .mk h => ⟨rfl, h.alike⟩
termination_by structural l => l

/-- Twin tests are planned alike. -/
private theorem tests_planned : ∀ {tests tests' : List (LambdaOf Expr)},
    List.Forall₂ (Lambda.Twins (Expr.Separate c)) tests tests' →
    List.Forall₂ (Lambda.PlannedAlike c) tests tests'
  | _, _, .nil => .nil
  | _, _, .cons h hs => .cons (lambda_planned h) (tests_planned hs)
termination_by structural tests => tests

/-- Twin sort keys are planned alike. -/
private theorem order_planned : ∀ {keys keys' : List (LambdaOf Expr × Bool)},
    List.Forall₂ (SortKey.Twins (Expr.Separate c)) keys keys' →
    List.Forall₂ (fun k k' => Lambda.PlannedAlike c k.1 k'.1 ∧ k.2 = k'.2) keys keys'
  | _, _, .nil => .nil
  | _, _, .cons (.mk h) hs => .cons ⟨lambda_planned h, rfl⟩ (order_planned hs)
termination_by structural keys => keys

/-- Twin joins are planned alike. -/
private theorem joins_planned : ∀ {joins joins' : List (JoinOf Expr Source)},
    List.Forall₂ (Join.Twins (Expr.Separate c)) joins joins' →
    List.Forall₂ (Join.PlannedAlike c) joins joins'
  | _, _, .nil => .nil
  | _, _, .cons (.mk hsource hon) hs => .cons ⟨rfl, rfl, hsource.alike, lambda_planned hon⟩ (joins_planned hs)
termination_by structural joins => joins

/-- Twin keys of groups are planned alike. -/
private theorem keys_planned : ∀ {groupBy groupBy' : Option (LambdaOf Expr)},
    Option.Rel (Lambda.Twins (Expr.Separate c)) groupBy groupBy' →
    Option.Rel (Lambda.PlannedAlike c) groupBy groupBy'
  | _, _, .none => .none
  | _, _, .some h => .some (lambda_planned h)
termination_by structural groupBy => groupBy

/-- Twin projections are planned alike. -/
private theorem projection_planned : ∀ {projection projection' : Option (ProjectionOf Expr)},
    Option.Rel (Projection.Twins (Expr.Separate c)) projection projection' →
    Option.Rel (Projection.PlannedAlike c) projection projection'
  | _, _, .none => .none
  | _, _, .some (.select h) => .some (.select (lambda_planned h))
  | _, _, .some (.flatten h) => .some (.flatten (lambda_planned h))
termination_by structural projection => projection

/-- **Queries that are twins are planned alike.** -/
theorem Query.Twins.alike : ∀ {q q' : QueryOf Expr Source}, Query.Twins (Expr.Separate c) q q' →
    Query.PlannedAlike c q q'
  | _, _, .mk hsource hjoins hfilters hgroupBy hhaving horder hprojection =>
    Query.alike_of_clauses hsource.alike (joins_planned hjoins) (tests_planned hfilters) (keys_planned hgroupBy)
      (tests_planned hhaving) (order_planned horder) (projection_planned hprojection)
termination_by structural q => q

/-- Sources that are twins are planned alike. -/
theorem Source.Twins.alike : ∀ {source source' : Source}, source.Twins (Expr.Separate c) source' →
    Source.PlannedAlike c source source'
  | .entity name, _, .entity _ => alike_planEntity name
  | .selfRef name, _, .selfRef _ => alike_selfSource name
  | _, _, .derived h => derived_alike h.alike (Query.Twins.queryName h)
  | _, _, .cte hanchor hunion => cte_alike hanchor.alike (union_alike hunion) ..
termination_by structural source => source

/-- Twin union members are planned alike. -/
private theorem union_alike : ∀ {union union' : Option (QueryOf Expr Source)},
    Option.Rel (Query.Twins (Expr.Separate c)) union union' →
    Option.Rel (Alike c blankSelect) (planUnion union) (planUnion union')
  | _, _, .none => .none
  | _, _, .some h => .some h.alike
termination_by structural union => union

end

end Twins

end LambdaSql
