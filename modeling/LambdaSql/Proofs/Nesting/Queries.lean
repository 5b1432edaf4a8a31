import LambdaSql.Proofs.Nesting.Projecting
import LambdaSql.Proofs.Plan.AtHand

/-!
# How queries go on

Planning of expressions, of queries and of what they read from keeps an invariant, by induction on their syntax.
Only expressions that may have to wait until rows have been fetched do so; a query leaves what waits in its
projection for evaluation after fetching.

## Main definitions

* `Expr.Ends`, `Query.Ends`, `Source.Ends` - expressions, queries and sources whose planning keeps an invariant.

## Main results

* `ends_planOnce` - a common table expression is planned once, and is then among those planned.
* `Expr.ends`, `query_ends`, `source_ends` - all expressions, queries and sources.
-/

namespace LambdaSql

open Planning

variable {J : Invariant} {D D' : Prop} {unions : List String} {s : Scope} {p q : Progress}

/-! ## Operands -/

section Operands

variable {e : Expr} {o : Operand} {bindings : List Binding}

/-- A body is planned within the invariant if what its parameters are bound to is. -/
theorem Operand.Ends.under (ho : o.Ends J D unions) (h : J.At unions s p)
    (hb : ∀ b ∈ bindings, J.Binds unions p b) (params : List String) :
    Planning.Ends J D s p (o.under params bindings) (J.node unions) :=
  .withFrame (ho.value (h.under hb params))

/-- An expression keeps an invariant if the rest of the way to plan it does. -/
theorem plainOperand_ends {lower : Planning Node}
    (hl : ∀ {s p}, J.At unions s p → Planning.Ends J D s p lower (J.node unions)) :
    (plainOperand e lower).Ends J D unions where
  value h := Lowering.ends_folded h hl
  alternatives h := (Lowering.ends_folded h hl).bind h fun h₁ _ hn =>
    .pure h₁ (List.forall_mem_singleton.mpr hn)
  applied h hb := .withFrame (Lowering.ends_folded (h.under hb []) hl)
  selection := nofun
  items := nofun

/-- The alternatives of two operands are alternatives of both together. -/
theorem ends_alternatives {left right : Operand} (hl : left.Ends J D unions) (hr : right.Ends J D unions)
    (h : J.At unions s p) :
    Planning.Ends J D s p (do return (← left.alternatives) ++ (← right.alternatives))
      fun q ns => ∀ n ∈ ns, J.node unions q n :=
  (hl.alternatives h).bind h fun h₁ _ hls => (hr.alternatives h₁).bind h₁ fun h₂ hle hrs =>
    .pure h₂ fun n hn => (List.mem_append.mp hn).elim (fun hn => J.node_later hle (hls n hn)) (hrs n)

end Operands

/-! ## Notions -/

variable (J D unions) in
/-- An expression and, if it is an object, its members keep an invariant. -/
structure Expr.Ends (e : Expr) : Prop where
  operand : (operand e).Ends J D unions
  members : ∀ ms, e = .object ms → ∀ m ∈ members ms, m.2.Ends J D unions

variable (J unions) in
/-- A query keeps an invariant where nothing is projected, and cannot have to wait. -/
def Query.Ends (asTable : Bool) (q : Query) : Prop :=
  ∀ {s p}, J.At unions s p → s.inProjection = false →
    Planning.Ends J False s p (planQuery q) (J.select asTable unions)

variable (J unions) in
/-- A source keeps an invariant where nothing is projected, and cannot have to wait. -/
def Source.Ends (source : Source) : Prop :=
  ∀ {s p}, J.At unions s p → s.inProjection = false →
    Planning.Ends J False s p (planSource source) fun q planned => J.rows unions q planned.rows

/-- Selections inside expressions are planned with nothing projected. -/
theorem Query.Ends.asSubquery {asTable : Bool} {q : Query} (hq : Query.Ends J unions asTable q) (h : J.At unions s p) :
    Planning.Ends J D s p (asSubquery (planQuery q)) (J.select asTable unions) :=
  .asSubquery (hq (h.projecting false) rfl)

/-! ## Sources -/

/-- Tables are bound within the invariant. -/
theorem binds_tables (tables : List TableBinding) : ∀ b ∈ tableBindings tables, J.Binds unions p b := by
  intro b hb
  obtain ⟨t, -, rfl⟩ := List.mem_map.mp hb
  exact .table t

/-- A source that is bound to an alias keeps its rows. -/
private theorem ends_bindTable (h : J.At unions s p) {source : PlannedSource} (hrows : J.rows unions p source.rows)
    (override : Option String) :
    Planning.Ends J D s p (bindTable override source) fun q r => J.rows unions q r.1.rows := by
  unfold bindTable
  exact (Ends.nextAlias h).bind h fun h₁ hle _ => .pure h₁ (J.rows_later hle hrows)

/-- The table of an entity is planned within the invariant. -/
private theorem ends_planEntity (h : J.At unions s p) (name : String) :
    Planning.Ends J D s p (planEntity name) fun q planned => J.rows unions q planned.rows := by
  unfold planEntity
  refine .read_bind ?_
  rw [h.compiler]
  exact (Ends.ofExcept (Q := fun _ e => J.compiler.model.entity name = .ok e) h fun e he => he).bind h
    fun h₁ _ he => .pure h₁ (J.entity he)

/-- In the second query of a common table expression, its rows may be read. -/
theorem ends_selfShape? (h : J.At unions s p) (name : String) :
    Planning.Ends J D s p (selfShape? name) fun q shape? =>
      shape?.isSome → J.rows unions q (.named name none) := by
  unfold selfShape?
  refine .read_bind ?_
  split
  · next shape hshape =>
    have hmem : name ∈ s.unions := by
      obtain ⟨before, after, heq, -⟩ := List.lookup_eq_some_iff.mp hshape
      rw [Scope.unions, heq]
      simp
    have hunions := h.standing ▸ hmem
    refine (Ends.bind (R := fun q _ => name ∈ q.selfReads) h ?_ fun h₁ _ hread =>
      .pure h₁ fun _ => J.selfRead hunions hread)
    refine ⟨fun hg => ?_, fun hw => absurd hw not_waits_modifyProgress⟩
    cases gives_modifyProgress.mp hg
    exact ⟨J.reread h.progress hmem, .selfRead p name, List.mem_cons_self⟩
  · exact .pure h nofun

/-- A reference to a common table expression itself is planned within the invariant. -/
private theorem ends_selfSource (h : J.At unions s p) (name : String) :
    Planning.Ends J D s p (selfSource name) fun q planned => J.rows unions q planned.rows := by
  unfold selfSource
  refine (ends_selfShape? h name).bind h fun h₁ _ hrows => ?_
  split
  · exact .pure h₁ (hrows rfl)
  · exact .fail

/-! ### Common table expressions -/

section Cte

variable {c : Cte} {cte : CtePlan}

/-- In the second query of a common table expression that is underway. -/
theorem Invariant.At.recursing (h : J.At unions s p) {name : String} (hname : name ∈ s.underway)
    (shape : List Output) :
    J.At (name :: unions) { s with recursive := (name, shape) :: s.recursive } p where
  compiler := h.compiler
  standing := congrArg (name :: ·) h.standing
  underway := List.forall_mem_cons.mpr ⟨hname, h.underway⟩
  frames f hf b hb := (h.frames f hf b hb).within name
  progress := J.recursing h.progress hname

/-- The queries of a planned common table expression, where it is underway. -/
theorem Invariant.At.parts (h : J.At unions s p) (hprojection : s.inProjection = false)
    (hname : c.name ∈ s.underway) (hanchor : Query.Ends J unions true c.anchor)
    (hunion : ∀ u, c.union = some u → Query.Ends J (c.name :: unions) true u)
    (hg : (planParts c).Gives s p cte q) :
    p.Before q ∧ cte.name = c.name ∧ J.select true unions q cte.anchor ∧
      (cte.union = none → J.progress s.unions s.underway q) ∧
      ∀ u, cte.union = some u → J.select true (c.name :: unions) q u ∧
        J.progress (c.name :: s.unions) s.underway q := by
  obtain ⟨hcte, -, r, ha, hrest⟩ := gives_planParts hg
  obtain ⟨hr, hle₁, ha⟩ := (hanchor h hprojection).gives ha
  obtain ⟨-, hnone, rfl⟩ | ⟨u, second, hu, hsome, hsecond, -, -⟩ := hrest
  · refine ⟨hle₁, hcte, ha, fun _ => hr, fun v hv => ?_⟩
    rw [hnone] at hv
    cases hv
  · have h₁ : J.At unions s { r with nextAlias := 0 } := h.later (hle₁.trans (.aliased r 0)) (J.aliased 0 hr)
    obtain ⟨hq, hle₂, hsecond⟩ := (hunion u hu (h₁.recursing hname _) hprojection).gives hsecond
    have hle := (Progress.Before.aliased r 0).trans hle₂
    refine ⟨hle₁.trans hle, hcte, J.select_later hle ha, fun hnone => ?_, fun v hv => ?_⟩
    · rw [hsome] at hnone
      cases hnone
    · rw [hsome] at hv
      cases hv
      exact ⟨hsecond, hq⟩

/-- It does not have to wait there.

**Proof sketch.** Both queries are planned as subqueries, which do not wait for anything, and whatever else is done
fails or goes through. -/
theorem Invariant.At.not_waits_parts (h : J.At unions s p) (hprojection : s.inProjection = false)
    (hname : c.name ∈ s.underway) (hanchor : Query.Ends J unions true c.anchor)
    (hunion : ∀ u, c.union = some u → Query.Ends J (c.name :: unions) true u) :
    ¬ (planParts c).Waits s p q := by
  unfold planParts assembleCte
  intro hw
  obtain hw | ⟨anchor, r, ha, hw⟩ := waits_bind.mp hw
  · exact ((hanchor h hprojection).waits hw).2.2.1
  obtain ⟨hr, hle, -⟩ := (hanchor h hprojection).gives ha
  generalize (if c.columns.isEmpty then anchor.shape.map Output.name else c.columns) = columns at hw
  dsimp only at hw
  split at hw
  · obtain hw | ⟨_, _, hfail, -⟩ := waits_bind.mp hw
    · exact not_waits_fail hw
    · exact not_gives_fail hfail
  · cases hu : c.union with
    | none =>
      rw [hu] at hw
      exact not_waits_pure hw
    | some u =>
      rw [hu] at hw
      obtain hw | ⟨_, _, hrestart, hw⟩ := waits_bind.mp hw
      · exact not_waits_modifyProgress hw
      cases gives_restartAliases.mp hrestart
      have h₁ : J.At unions s { r with nextAlias := 0 } := h.later (hle.trans (.aliased r 0)) (J.aliased 0 hr)
      obtain hw | ⟨second, _, _, hw⟩ := waits_bind.mp hw
      · exact ((hunion u hu (h₁.recursing hname _) hprojection).waits (waits_withReader.mp hw)).2.2.1
      · split at hw
        · obtain hw | ⟨_, _, hfail, -⟩ := waits_bind.mp hw
          · exact not_waits_fail hw
          · exact not_gives_fail hfail
        · obtain hw | ⟨_, _, _, hw⟩ := waits_bind.mp hw
          · exact not_waits_getProgress hw
          · exact (not_waits_pure (s := s)) hw

/-- **A common table expression is planned once**, and is then among those planned.

**Proof sketch.** If it has been planned it is known. Otherwise it is planned in a scope in which its name is
underway, so the invariant that was entered is left again when it is added behind all that its queries have added. -/
theorem ends_planOnce (h : J.At unions s p) (hsite : J.site (.cte unions c))
    (hanchor : Query.Ends J unions true c.anchor)
    (hunion : ∀ u, c.union = some u → Query.Ends J (c.name :: unions) true u) :
    Planning.Ends J D s p (planOnce c.name (planParts c)) fun q _ => J.rows unions q (.named c.name none) := by
  unfold planOnce
  refine .asked rfl ?_
  split
  · next done hdone =>
    have hname : done.name = c.name := beq_iff_eq.mp (List.find?_some (p := fun (d : CtePlan) => d.name == c.name) hdone)
    exact .pure h (hname ▸ J.known (List.mem_of_find?_eq_some hdone))
  · next hnew =>
    refine .read_bind (.orFail fun hunderway => ?_)
    have hfree : c.name ∉ s.underway := by simpa using hunderway
    have hfresh : ∀ done ∈ p.ctes, done.name ≠ c.name := by simpa using hnew
    have h' : J.At unions { s with underway := c.name :: s.underway, inProjection := false }
        { p with nextAlias := 0 } :=
      { compiler := h.compiler
        standing := h.standing
        underway := fun name hmem => List.mem_cons_of_mem _ (h.underway name hmem)
        frames := (h.aliased 0).frames
        progress := J.entered (J.aliased 0 h.progress) hfree hfresh }
    constructor
    · intro shape q hg
      obtain ⟨cte, _, hcte, hg⟩ := gives_bind.mp hg
      obtain ⟨r, hparts, rfl⟩ := gives_withOwnAliases.mp hcte
      obtain ⟨_, _, hadded, hg⟩ := gives_bind.mp hg
      cases gives_modifyProgress.mp hadded
      obtain ⟨-, rfl⟩ := gives_pure.mp hg
      have hparts := gives_withReader.mp hparts
      obtain ⟨hle, hname, hfirst, hnone, hsome⟩ := h'.parts rfl List.mem_cons_self hanchor hunion hparts
      have hleft := J.left (s := { s with underway := c.name :: s.underway, inProjection := false }) h.compiler rfl
        (h.standing ▸ h.underway) hfree (h.standing ▸ hsite) hparts (h.standing ▸ hfirst) hnone
        (h.standing ▸ hsome)
      refine ⟨J.aliased p.nextAlias hleft, ?_, hname ▸ J.known (List.mem_append_right _ List.mem_cons_self)⟩
      exact (((Progress.Before.aliased p 0).trans hle).trans (.aliased r p.nextAlias)).trans (.cte _ cte)
    · intro q hw
      obtain hw | ⟨_, _, _, hw⟩ := waits_bind.mp hw
      · exact absurd (waits_withReader.mp (waits_withOwnAliases hw))
          (h'.not_waits_parts rfl List.mem_cons_self hanchor hunion)
      · obtain hw | ⟨_, _, _, hw⟩ := waits_bind.mp hw
        · exact absurd hw not_waits_modifyProgress
        · exact absurd hw not_waits_pure

/-- A common table expression is planned within the invariant if its queries are. -/
private theorem ends_planCte (h : J.At unions s p) (hsite : J.site (.cte unions c))
    (hanchor : Query.Ends J unions true c.anchor)
    (hunion : ∀ u, c.union = some u → Query.Ends J (c.name :: unions) true u) :
    Planning.Ends J D s p (planCte c) fun q planned => J.rows unions q planned.rows := by
  obtain ⟨name, columns, anchor, union, recursive⟩ := c
  simp only [planCte]
  refine (ends_selfShape? h name).bind h fun h₁ _ hrows => ?_
  split
  · exact .pure h₁ (hrows rfl)
  · exact (ends_planOnce h₁ hsite hanchor hunion).bind h₁ fun h₂ _ hrows => .pure h₂ hrows

end Cte

/-! ## Clauses -/

section Clauses

variable {bindings : List Binding} {tables : List TableBinding}

/-- Tests are planned within the invariant if their bodies are. -/
theorem ends_planTests (h : J.At unions s p) {tests : List Lambda}
    (ht : ∀ l ∈ tests, (operand l.body).Ends J D unions) (hb : ∀ {q}, p.Before q → ∀ b ∈ bindings, J.Binds unions q b) :
    Planning.Ends J D s p (planTests bindings tests) fun q ns => ∀ n ∈ ns, J.node unions q n := by
  induction tests generalizing p with
  | nil => exact .pure h nofun
  | cons l rest ih =>
    simp only [planTests]
    refine ((ht l List.mem_cons_self).under h (hb (.refl p)) l.params).bind h fun h₁ hle₁ hn => ?_
    refine (ih h₁ (fun l hl => ht l (List.mem_cons_of_mem _ hl)) fun hle => hb (hle₁.trans hle)).bind h₁
      fun h₂ hle₂ hns => .pure h₂ ?_
    exact List.forall_mem_cons.mpr ⟨(J.hereditary ..).compositional.toPredicate (J.node_later hle₂ hn), hns⟩

/-- Sort keys are planned within the invariant if their bodies are. -/
private theorem ends_planOrder (h : J.At unions s p) {keys : List (Lambda × Bool)}
    (hk : ∀ k ∈ keys, (operand k.1.body).Ends J D unions)
    (hb : ∀ {q}, p.Before q → ∀ b ∈ bindings, J.Binds unions q b) :
    Planning.Ends J D s p (planOrder bindings keys) fun q ks => ∀ k ∈ ks, J.node unions q k.1 := by
  induction keys generalizing p with
  | nil => exact .pure h nofun
  | cons k rest ih =>
    obtain ⟨l, down⟩ := k
    simp only [planOrder]
    refine ((hk _ List.mem_cons_self).under h (hb (.refl p)) l.params).bind h fun h₁ hle₁ hn => ?_
    refine (ih h₁ (fun k hmem => hk k (List.mem_cons_of_mem _ hmem)) fun hle => hb (hle₁.trans hle)).bind h₁
      fun h₂ hle₂ hns => .pure h₂ ?_
    exact List.forall_mem_cons.mpr ⟨J.node_later hle₂ hn, hns⟩

/-- Joins are planned within the invariant if their sources and conditions are. -/
theorem ends_planJoins (h : J.At unions s p) (hprojection : s.inProjection = false) {joins : List Join}
    (hj : ∀ j ∈ joins, Source.Ends J unions j.source ∧ (operand j.on.body).Ends J D unions) :
    Planning.Ends J D s p (planJoins tables joins) fun q r =>
      ∀ j ∈ r.1, J.rows unions q j.table.rows ∧ J.node unions q j.on := by
  induction joins generalizing tables p with
  | nil => exact .pure h nofun
  | cons j rest ih =>
    obtain ⟨kind, source, ⟨params, body⟩, aliasName⟩ := j
    obtain ⟨hsource, hbody⟩ := hj _ List.mem_cons_self
    simp only [planJoins]
    refine ((hsource h hprojection).of_subquery hprojection).bind h fun h₁ _ hplanned => ?_
    refine (ends_bindTable h₁ hplanned aliasName).bind h₁ fun h₂ _ hr => ?_
    refine (hbody.under h₂ (binds_tables _) params).bind h₂ fun h₃ hle₃ hon => ?_
    refine (ih h₃ fun j hmem => hj j (List.mem_cons_of_mem _ hmem)).bind h₃ fun h₄ hle₄ hjoined => .pure h₄ ?_
    refine List.forall_mem_cons.mpr ⟨⟨J.rows_later (hle₃.trans hle₄) hr, ?_⟩, hjoined⟩
    exact (J.hereditary ..).compositional.toPredicate (J.node_later hle₄ hon)

/-- The keys of a grouped query, and through them its groups.

**Proof sketch.** A key that is an object has a key for each member, and any other one is a single key. -/
theorem ends_planKeys (h : J.At unions s p) {groupBy : Option Lambda}
    (hk : ∀ l, groupBy = some l → l.body.Ends J D unions) (hb : ∀ b ∈ bindings, J.Binds unions p b) :
    Planning.Ends J D s p (planKeys bindings groupBy) fun q ks? =>
      ∀ ks, ks? = some ks → ∀ k ∈ ks, J.node unions q k.2 := by
  cases groupBy with
  | none => exact .pure h nofun
  | some l =>
    obtain ⟨params, body⟩ := l
    have hbody := hk _ rfl
    have one : Planning.Ends J D s p (do
        let n ← (operand body).under params bindings
        return some [(keyName body, n)] : Planning (Option (List (String × Node))))
        fun q ks? => ∀ ks, ks? = some ks → ∀ k ∈ ks, J.node unions q k.2 := by
      refine (hbody.operand.under h hb params).bind h fun h₁ _ hn => .pure h₁ fun ks hks => ?_
      cases hks
      exact List.forall_mem_singleton.mpr hn
    cases body with
    | object ms =>
      simp only [planKeys]
      have h' := h.under hb params
      refine .withFrame ((Ends.mapM (Q := fun q (k : String × Node) => J.node unions q k.2) h' J.node_later
        fun m hm _ h₁ _ => ?_).bind h' fun h₁ _ hks => .pure h₁ fun _ heq => ?_)
      · exact ((hbody.members ms rfl m hm).value h₁).bind h₁ fun h₂ _ hn => .pure h₂ hn
      · cases heq
        exact hks
    | _ => exact one

/-- A projection is planned within the invariant if its body is. -/
private theorem ends_planProjection (h : J.At unions s p) {grouping : Option Grouping} {projection : Option Projection}
    (hl : ∀ l, projection = some (.select l) ∨ projection = some (.flatten l) → l.body.Ends J D unions)
    (hb : ∀ b ∈ bindings, J.Binds unions p b)
    (hg : ∀ g, grouping = some g → J.Binds unions p (.grouping g)) :
    Planning.Ends J D' s p (planProjection tables bindings grouping projection)
      fun q r => Projected.Holds J D unions q r := by
  cases projection with
  | none => exact .pure h (Projected.holds_whole tables hg)
  | some projection =>
    cases projection with
    | select l =>
      obtain ⟨params, body⟩ := l
      have hbody := hl _ (.inl rfl)
      cases body with
      | object ms =>
        simp only [planProjection]
        exact .withFrame (Projected.ends_object (h.under hb params) .empty (hbody.members ms rfl))
      | _ => exact .withFrame (Projected.ends_body (h.under hb params) .empty hbody.operand)
    | flatten l =>
      obtain ⟨params, body⟩ := l
      have hbody := hl _ (.inr rfl)
      cases body with
      | object ms =>
        simp only [planProjection]
        exact .withFrame (Projected.ends_overlay (h.under (binds_tables tables) params)
          (Projected.holds_whole tables nofun) (hbody.members ms rfl))
      | _ => exact .withFrame .fail

end Clauses

/-! ## Queries -/

/-- A grouping, whose rows are tables, in place of what is grouped. -/
theorem binds_outer {tables : List TableBinding} {grouping? : Option Grouping}
    (hg : ∀ g, grouping? = some g → J.Binds unions p (.grouping g)) :
    ∀ b ∈ (match grouping? with
      | some g => [Binding.grouping g]
      | none => tableBindings tables), J.Binds unions p b := by
  cases grouping? with
  | none => exact binds_tables tables
  | some g => exact List.forall_mem_singleton.mpr (hg g rfl)

/-- A query keeps an invariant if its clauses do.

**Proof sketch.** The clauses are planned one after the other, and what has been planned stays allowed while the later
ones are. What is around a grouped query's later clauses is its groups, whose keys are allowed, or else its tables. -/
theorem Query.ends_of_clauses {asTable : Bool} {q : Query} (hsite : J.site (.query asTable unions q))
    (hsource : Source.Ends J unions q.source)
    (hjoins : ∀ j ∈ q.joins, Source.Ends J unions j.source ∧ (operand j.on.body).Ends J True unions)
    (hfilters : ∀ l ∈ q.filters, (operand l.body).Ends J True unions)
    (hgroupBy : ∀ l, q.groupBy = some l → l.body.Ends J True unions)
    (hhaving : ∀ l ∈ q.having, (operand l.body).Ends J True unions)
    (horder : ∀ k ∈ q.orderBy, (operand k.1.body).Ends J True unions)
    (hprojection : ∀ l, q.projection = some (.select l) ∨ q.projection = some (.flatten l) →
      l.body.Ends J (q.MayWait J.compiler.translations) unions) : Query.Ends J unions asTable q := by
  intro s p h hs
  have parts : Planning.Ends J True s p (planQuery q) fun q' sel =>
      sel.PartsHave (J.node unions q') (J.rows unions q') ∧
        (sel.deferred ≠ [] → q.MayWait J.compiler.translations) := by
    obtain ⟨source, aliasName, joins, filters, groupBy, having, orderBy, projection, _, _, _⟩ := q
    simp only [planQuery]
    refine ((hsource h hs).of_subquery hs).bind h fun h₁ _ hplanned => ?_
    refine (ends_bindTable h₁ hplanned aliasName).bind h₁ fun {first _} h₂ hle₂ hfirst => ?_
    refine (ends_planJoins h₂ hs hjoins).bind h₂ fun {r _} h₃ hle₃ hjoined => ?_
    obtain ⟨joined, tables⟩ := r
    refine (ends_planTests h₃ hfilters fun _ => binds_tables tables).bind h₃ fun h₄ hle₄ htests => ?_
    refine (ends_planKeys h₄ hgroupBy (binds_tables tables)).bind h₄ fun {keys q₅} h₅ hle₅ hkeys => ?_
    -- the groups stay allowed while the later clauses are planned
    have hgrouping {q : Progress} (hle : q₅.Before q) :
        ∀ g, keys.map (fun ks => (⟨ks, tables⟩ : Grouping)) = some g → J.Binds unions q (.grouping g) := by
      intro g hg
      obtain ⟨ks, rfl, rfl⟩ := Option.map_eq_some_iff.mp hg
      exact .grouping fun k hk => J.node_later hle (hkeys ks rfl k hk)
    refine (ends_planProjection h₅ hprojection (binds_outer (hgrouping (.refl _))) (hgrouping (.refl _))).bind h₅
      fun {out _} h₆ hle₆ hout => ?_
    refine (ends_planTests h₆ hhaving fun hle => binds_outer (hgrouping (hle₆.trans hle))).bind h₆
      fun h₇ hle₇ hgroupTests => ?_
    refine (ends_planOrder h₇ horder fun hle => binds_outer (hgrouping ((hle₆.trans hle₇).trans hle))).bind h₇
      fun h₈ hle₈ hordered => .pure h₈ ⟨?_, hout.deferred⟩
    have hle₇₈ := hle₇.trans hle₈
    have hle₅₈ := (hle₅.trans hle₆).trans hle₇₈
    exact
      { columns := (hout.later hle₇₈).columns
        table := J.rows_later ((hle₃.trans hle₄).trans hle₅₈) hfirst
        joins := fun j hj =>
          ⟨J.rows_later (hle₄.trans hle₅₈) (hjoined j hj).1, J.node_later (hle₄.trans hle₅₈) (hjoined j hj).2⟩
        filter := fun _ hn =>
          (J.hereditary ..).compositional.conjunction (fun n hmem => J.node_later hle₅₈ (htests n hmem)) hn
        groupBy := by
          cases keys with
          | none => rintro _ ⟨⟩
          | some ks =>
            exact List.forall_mem_map.mpr fun k hk => J.node_later (hle₆.trans hle₇₈) (hkeys ks rfl k hk)
        having := fun _ hn =>
          (J.hereditary ..).compositional.conjunction (fun n hmem => J.node_later hle₈ (hgroupTests n hmem)) hn
        orderBy := hordered }
  refine ⟨fun hg => ?_, (parts.of_subquery hs).waits⟩
  obtain ⟨hq, hle, hparts, hdeferred⟩ := parts.gives hg
  obtain rfl := h.standing
  exact ⟨hq, hle, J.planned h.compiler hsite hg hparts hdeferred⟩

mutual

/-- **Planning of an expression keeps an invariant**, by induction on the expression.

**Proof sketch.** Each form of expression keeps the invariant if its operands do, which the lemmas on lowering state
one by one; what is passed on is where the queries within the expression stand, and that waiting has a reason. -/
theorem Expr.ends {unions : List String} {D : Prop} : ∀ e : Expr, (∀ x ∈ e.passages unions, J.site x) →
    (e.MayWait J.compiler.translations → D) → e.Ends J D unions
  | .constant v => fun _ _ => ⟨plainOperand_ends fun h => Lowering.ends_atHand h .., nofun⟩
  | .captured _ v => fun _ _ => ⟨plainOperand_ends fun h => Lowering.ends_atHand h .., nofun⟩
  | .param name => fun _ _ => ⟨plainOperand_ends fun h => Lowering.ends_parameter h name, nofun⟩
  | .static type name => fun _ _ => ⟨plainOperand_ends fun h => Lowering.ends_static h type name, nofun⟩
  | .member target name => fun hsite hD =>
    ⟨plainOperand_ends fun h => Lowering.ends_member h (target.ends hsite hD).operand name, nofun⟩
  | .call (some target) _ method args => fun hsite hD => by
    have htarget := target.ends (fun x hx => hsite x (List.mem_append_left _ hx)) fun hw => hD (.inr (.inl hw))
    have hargs := operands_end args (fun x hx => hsite x (List.mem_append_right _ hx)) fun hw =>
      hD (.inr (.inr hw))
    refine ⟨plainOperand_ends fun h => Lowering.ends_callOn h htarget.operand hargs method
      fun type t ht hwaits => hD (.inl ?_), nofun⟩
    rw [operands_length] at ht hwaits
    exact ⟨type, t, ht, hwaits⟩
  | .call none type method args => fun hsite hD => by
    have hargs := operands_end args hsite fun hw => hD (.inr hw)
    refine ⟨plainOperand_ends fun h => Lowering.ends_callOf h hargs type method
      fun name t hname ht hwaits => hD (.inl ?_), nofun⟩
    rw [operands_length] at ht hwaits
    exact ⟨name, t, hname, ht, hwaits⟩
  | .unary op inner => fun hsite hD =>
    ⟨plainOperand_ends fun h => Lowering.ends_unary h (inner.ends hsite hD).operand op, nofun⟩
  | .conditional test a b => fun hsite hD => by
    rw [Expr.passages, List.forall_mem_append, List.forall_mem_append] at hsite
    obtain ⟨⟨htest, ha⟩, hb⟩ := hsite
    have htest := test.ends htest fun hw => hD (.inl hw)
    have ha := a.ends ha fun hw => hD (.inr (.inl hw))
    have hb := b.ends hb fun hw => hD (.inr (.inr hw))
    exact ⟨plainOperand_ends fun h => Lowering.ends_conditional h htest.operand ha.operand hb.operand, nofun⟩
  | .binary op left right => fun hsite hD => by
    have hl := (left.ends (fun x hx => hsite x (List.mem_append_left _ hx)) fun hw => hD (.inl hw)).operand
    have hr := (right.ends (fun x hx => hsite x (List.mem_append_right _ hx)) fun hw => hD (.inr hw)).operand
    have hplain : (plainOperand (.binary op left right)
        (Lowering.binary op (operand left) (operand right))).Ends J D unions :=
      plainOperand_ends fun h => Lowering.ends_binary h hl hr op
    refine ⟨?_, nofun⟩
    rw [operand]
    split
    · exact { hplain with alternatives := ends_alternatives hl hr }
    · exact hplain
  | .convert inner target => fun hsite hD => by
    have hinner := (inner.ends hsite hD).operand
    have hplain : (plainOperand (.convert inner target)
        (do return (← (operand inner).value).retype target)).Ends J D unions :=
      plainOperand_ends fun h => (hinner.value h).bind h fun h₁ _ hn => .pure h₁ ((J.hereditary ..).retype target hn)
    exact ⟨{ hplain with selection := hinner.selection }, nofun⟩
  | .query q => fun hsite _ => by
    have hq : Query.Ends J unions false q := query_ends q hsite
    have hplain : (plainOperand (.query q) (Lowering.selection (asSubquery (planQuery q)))).Ends J D unions :=
      plainOperand_ends fun h => Lowering.ends_selection h (hq.asSubquery h)
    refine ⟨{ hplain with selection := fun heq _ _ h => ?_ }, nofun⟩
    cases heq
    exact hq.asSubquery h
  | .array items => fun hsite hD => by
    have hitems := operands_end items hsite hD
    have hplain : (plainOperand (.array items) (fail .constructionAsValue)).Ends J D unions :=
      plainOperand_ends fun _ => .fail
    refine ⟨{ hplain with items := fun heq _ _ h => ?_ }, nofun⟩
    cases heq
    exact .mapM (Q := J.node unions) h J.node_later fun o ho _ h₁ _ => (hitems o ho).value h₁
  | .object ms => fun hsite hD => by
    refine ⟨plainOperand_ends fun _ => .fail, fun _ hms => ?_⟩
    cases hms
    exact members_end ms hsite hD
  | .lambda params body => fun hsite hD => by
    have hplain : (plainOperand (.lambda params body) (fail .lambdaAsValue)).Ends J D unions :=
      plainOperand_ends fun _ => .fail
    exact ⟨{ hplain with applied := fun h hb => (body.ends hsite hD).operand.under h hb params }, nofun⟩

/-- Operands are planned within the invariant if their passages are allowed. -/
private theorem operands_end {unions : List String} {D : Prop} : ∀ es : List Expr,
    (∀ x ∈ itemsPassages unions es, J.site x) → (ItemsMayWait J.compiler.translations es → D) →
    ∀ o ∈ operands es, o.Ends J D unions
  | [] => fun _ _ => nofun
  | e :: rest => fun hsite hD => List.forall_mem_cons.mpr
    ⟨(e.ends (fun x hx => hsite x (List.mem_append_left _ hx)) fun hw => hD (.inl hw)).operand,
      operands_end rest (fun x hx => hsite x (List.mem_append_right _ hx)) fun hw => hD (.inr hw)⟩

/-- Members are planned within the invariant if their passages are allowed. -/
private theorem members_end {unions : List String} {D : Prop} : ∀ ms : List (String × Expr),
    (∀ x ∈ membersPassages unions ms, J.site x) → (MembersMayWait J.compiler.translations ms → D) →
    ∀ m ∈ members ms, m.2.Ends J D unions
  | [] => fun _ _ => nofun
  | (_, e) :: rest => fun hsite hD => List.forall_mem_cons.mpr
    ⟨(e.ends (fun x hx => hsite x (List.mem_append_left _ hx)) fun hw => hD (.inl hw)).operand,
      members_end rest (fun x hx => hsite x (List.mem_append_right _ hx)) fun hw => hD (.inr hw)⟩

/-- The bodies of tests are planned within the invariant. -/
theorem tests_end {unions : List String} : ∀ tests : List (LambdaOf Expr),
    (∀ x ∈ testsPassages unions tests, J.site x) → ∀ l ∈ tests, (operand l.body).Ends J True unions
  | [] => fun _ => nofun
  | ⟨_, body⟩ :: rest => fun hsite => List.forall_mem_cons.mpr
    ⟨(body.ends (fun x hx => hsite x (List.mem_append_left _ hx)) fun _ => trivial).operand,
      tests_end rest fun x hx => hsite x (List.mem_append_right _ hx)⟩

/-- Sort keys are planned within the invariant if their passages are allowed. -/
private theorem order_ends {unions : List String} : ∀ keys : List (LambdaOf Expr × Bool),
    (∀ x ∈ orderPassages unions keys, J.site x) → ∀ k ∈ keys, (operand k.1.body).Ends J True unions
  | [] => fun _ => nofun
  | (⟨_, body⟩, _) :: rest => fun hsite => List.forall_mem_cons.mpr
    ⟨(body.ends (fun x hx => hsite x (List.mem_append_left _ hx)) fun _ => trivial).operand,
      order_ends rest fun x hx => hsite x (List.mem_append_right _ hx)⟩

/-- The sources and the conditions of joins are planned within the invariant. -/
theorem joins_end {unions : List String} : ∀ joins : List (JoinOf Expr Source),
    (∀ x ∈ joinsPassages unions joins, J.site x) →
    ∀ j ∈ joins, Source.Ends J unions j.source ∧ (operand j.on.body).Ends J True unions
  | [] => fun _ => nofun
  | ⟨_, source, ⟨_, body⟩, _⟩ :: rest => fun hsite => by
    rw [joinsPassages, List.forall_mem_append, List.forall_mem_append] at hsite
    obtain ⟨⟨hsource, hbody⟩, hrest⟩ := hsite
    exact List.forall_mem_cons.mpr
      ⟨⟨source_ends source hsource, (body.ends hbody fun _ => trivial).operand⟩, joins_end rest hrest⟩

/-- Keys of groups are planned within the invariant if their passages are allowed. -/
private theorem keys_end {unions : List String} : ∀ groupBy : Option (LambdaOf Expr),
    (∀ x ∈ keysPassages unions groupBy, J.site x) → ∀ l, groupBy = some l → l.body.Ends J True unions
  | none => fun _ => nofun
  | some ⟨_, body⟩ => fun hsite _ h => by
    cases h
    exact body.ends hsite fun _ => trivial

/-- A projection is planned within the invariant if its passages are allowed. -/
private theorem projection_ends {unions : List String} {D : Prop} : ∀ projection : Option (ProjectionOf Expr),
    (∀ x ∈ projectionPassages unions projection, J.site x) →
    (∀ l, projection = some (.select l) ∨ projection = some (.flatten l) →
      l.body.MayWait J.compiler.translations → D) →
    ∀ l, projection = some (.select l) ∨ projection = some (.flatten l) → l.body.Ends J D unions
  | none => fun _ _ _ h => by simp at h
  | some (.select ⟨_, body⟩) => fun hsite hD _ h => by
    obtain h | h := h
    · cases h
      exact body.ends hsite (hD _ (.inl rfl))
    · cases h
  | some (.flatten ⟨_, body⟩) => fun hsite hD _ h => by
    obtain h | h := h
    · cases h
    · cases h
      exact body.ends hsite (hD _ (.inr rfl))

/-- **Planning of a query keeps an invariant**. -/
theorem query_ends {asTable : Bool} {unions : List String} : ∀ q : QueryOf Expr Source,
    (∀ x ∈ queryPassages asTable unions q, J.site x) → Query.Ends J unions asTable q
  | ⟨source, _, joins, filters, groupBy, having, orderBy, projection, _, _, _⟩ => fun hsite => by
    rw [queryPassages, List.forall_mem_cons] at hsite
    obtain ⟨hquery, hparts⟩ := hsite
    simp only [List.forall_mem_append] at hparts
    obtain ⟨⟨⟨⟨⟨⟨hsource, hjoins⟩, hfilters⟩, hkeys⟩, hhaving⟩, horder⟩, hprojection⟩ := hparts
    refine Query.ends_of_clauses hquery (source_ends source hsource) (joins_end joins hjoins)
      (tests_end filters hfilters) (keys_end groupBy hkeys) (tests_end having hhaving) (order_ends orderBy horder)
      (projection_ends projection hprojection ?_)
    rintro l (rfl | rfl) hw
    · exact hw
    · exact hw

/-- A source is planned within the invariant. -/
theorem source_ends {unions : List String} : ∀ source : Source, (∀ x ∈ source.passages unions, J.site x) →
    Source.Ends J unions source
  | .entity name => fun _ _ _ h _ => ends_planEntity h name
  | .derived q => fun hsite s p h hs => by
    have hq : Query.Ends J unions true q := query_ends q hsite
    have hown : Planning.Ends J False s p (withOwnAliases (asSubquery (planQuery q))) (J.select true unions) :=
      .withOwnAliases (hq.asSubquery (h.aliased 0)) fun q _ position _ hsel =>
        J.select_later (.aliased q position) hsel
    exact hown.bind h fun h₁ _ hsel => .pure h₁ (J.derived hsel)
  | .cte c => fun hsite => cte_ends c hsite
  | .selfRef name => fun _ _ _ h _ => ends_selfSource h name

/-- A common table expression is planned within the invariant if its passages are allowed. -/
private theorem cte_ends {unions : List String} : ∀ c : CteOf (QueryOf Expr Source),
    (∀ x ∈ (Source.cte c).passages unions, J.site x) → Source.Ends J unions (.cte c)
  | ⟨name, columns, anchor, union, recursive⟩ => fun hsite s p h _ => by
    rw [Source.passages, List.forall_mem_cons] at hsite
    obtain ⟨hcte, hqueries⟩ := hsite
    rw [List.forall_mem_append] at hqueries
    exact ends_planCte h hcte (query_ends anchor hqueries.1) (union_ends union hqueries.2)

/-- A union member is planned within the invariant if its passages are allowed. -/
private theorem union_ends {unions : List String} : ∀ union : Option (QueryOf Expr Source),
    (∀ x ∈ unionPassages unions union, J.site x) → ∀ u, union = some u → Query.Ends J unions true u
  | none => fun _ => nofun
  | some q => fun hsite _ h => by
    cases h
    exact query_ends q hsite

end

end LambdaSql
