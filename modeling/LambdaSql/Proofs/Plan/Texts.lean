import LambdaSql.Proofs.Nesting.Texts
import LambdaSql.Proofs.Plan.Stated

/-!
# Features of what is compiled

A feature spreads from the expressions of all statements that are compiled at once to the plans that their texts are
written for. Writing comes upon no fault, so every fault is one of evaluating an expression that is planned.

## Main definitions

* `Job.parts` - the expressions within all statements that are compiled at once.
* `Feature.Covers` - a feature of what a statement is planned of.
* `TextPlan.Has` - a plan has a feature.
* `TextPlan.subnodes` - the nodes within a plan.
* `Emission.FaultsIn` - compiling comes upon certain faults only.

## Main results

* `Compiler.texts_have` - the plans of all that is compiled have the feature.
* `TextPlan.Has.every` - all nodes within a plan have a property.
* `Compiler.fault_of_results` - the faults of all that is compiled.
-/

namespace LambdaSql

open Planning

/-! ## Statements -/

/-- The expressions within all statements that are compiled at once. -/
def Job.parts (job : Job) : List Expr := job.statements.flatMap Statement.parts

/-- The entity that a statement changes. -/
def Statement.target? : Statement → Option String
  | .select _ => none
  | .update u => some u.entity
  | .delete s => some s.entity

/-- A feature of what a statement is planned of: the expressions within may be planned, and what it changes has the
feature. -/
structure Feature.Covers (F : Feature) (c : Compiler) (s : Statement) : Prop where
  parts : ∀ x ∈ s.parts, F.admits x
  changes : ∀ name, s.target? = some name → ∀ e, c.model.entity name = .ok e → F.Changes e

/-- What follows the common table expressions has a feature. -/
def Body.Has (F : Feature) : Body → Prop
  | .select s => F.select s
  | .update p | .delete p => p.PartsHave F.node F.rows

/-- A plan has a feature. -/
structure TextPlan.Has (F : Feature) (t : TextPlan) : Prop where
  ctes : ∀ d ∈ t.ctes, F.cte d
  body : t.body.Has F

variable {F : Feature} {c : Compiler} {s : Statement} {ts : List TextPlan} {job : Job}

/-- Planning under a compiler spreads the feature. -/
abbrev Planning.SpreadsUnder {α : Type} (F : Feature) (c : Compiler) (act : Planning α) (Q : α → Prop) : Prop :=
  act.Keeps (fun s => F.scope s ∧ s.compiler.model = c.model) F.progress F.fault Q

namespace Compiler

/-- The scope in which planning starts has the feature. -/
private theorem scope_start : F.scope { compiler := c } ∧ c.model = c.model :=
  ⟨fun _ hf => absurd hf List.not_mem_nil, rfl⟩

/-- There is no common table expression at the start. -/
private theorem progress_start : F.progress {} := fun _ hc => absurd hc List.not_mem_nil

/-- A planned text has a feature that its plan spreads. -/
private theorem plan_has {α : Type} {act : Planning α} {body : α → Body} {t : TextPlan} (h : c.plan act body = .ok t)
    (hact : act.SpreadsUnder F c fun a => (body a).Has F) : t.Has F := by
  obtain ⟨a, p, hg, rfl⟩ := plan_of_run h
  obtain ⟨ha, hp⟩ := hact.of_gives scope_start progress_start hg
  exact ⟨hp, ha⟩

/-- A fault of planning is one that the feature allows. -/
private theorem plan_fault {α : Type} {act : Planning α} {Q : α → Prop} {f : Fault} (h : act.run c = .error (.fault f))
    (hact : act.SpreadsUnder F c Q) : F.fault f :=
  hact.fault scope_start progress_start (outcome_of_run_fault h)

section Plans

variable {q : Query} {u : Update} {d : Delete}

/-- A covered selection spreads the feature. -/
private theorem spreads_select (h : F.Covers c (.select q)) : (planQuery q).SpreadsUnder F c F.select :=
  Keeps.within (query_spreads q h.parts) fun _ hs => hs.1

/-- A covered update spreads the feature. -/
private theorem spreads_update (h : F.Covers c (.update u)) :
    (planUpdate u).SpreadsUnder F c (ChangePlan.PartsHave F.node F.rows) :=
  spreads_planUpdate (h.changes _ rfl) h.parts

/-- A covered deletion spreads the feature. -/
private theorem spreads_delete (h : F.Covers c (.delete d)) :
    (planDelete d).SpreadsUnder F c (ChangePlan.PartsHave F.node F.rows) :=
  spreads_planDelete (h.changes _ rfl) h.parts

/-- A row of a covered update spreads the feature. -/
private theorem spreads_row (h : F.Covers c (.update u)) (index : Nat) (r : Record) :
    (planRow u index r).SpreadsUnder F c (ChangePlan.PartsHave F.node F.rows) :=
  spreads_planRow (h.changes _ rfl)
    (fun _ ha x hx => h.parts x (List.mem_append_left _ (List.mem_flatMap_of_mem ha hx))) index r

end Plans

/-- The texts of a covered statement have the feature. -/
private theorem plans_have (h : c.plans s = .ok ts) (hs : F.Covers c s) : ∀ t ∈ ts, t.Has F := by
  cases s with
  | select q =>
    obtain ⟨t, ht, h⟩ := Except.bind_eq_ok.mp h
    cases h
    exact List.forall_mem_singleton.mpr (plan_has ht (spreads_select hs))
  | delete d =>
    obtain ⟨t, ht, h⟩ := Except.bind_eq_ok.mp h
    cases h
    exact List.forall_mem_singleton.mpr (plan_has ht (spreads_delete hs))
  | update u =>
    unfold plans at h
    dsimp only at h
    split at h
    · exact Except.forall_of_mapM h fun ri _ t ht => plan_has ht (spreads_row hs ri.2 ri.1)
    · obtain ⟨t, ht, h⟩ := Except.bind_eq_ok.mp h
      cases h
      exact List.forall_mem_singleton.mpr (plan_has ht (spreads_update hs))

/-- **The plans of all that is compiled have the feature.** -/
theorem texts_have (h : c.texts job = .ok ts) (hjob : ∀ s ∈ job.statements, F.Covers c s) : ∀ t ∈ ts, t.Has F := by
  obtain ⟨tss, htss, h⟩ := Except.bind_eq_ok.mp h
  cases h
  have hall := Except.forall_of_mapM (Q := fun ts => ∀ t ∈ ts, t.Has F) htss
    fun s hs ts hts => plans_have hts (hjob s hs)
  intro t ht
  obtain ⟨ts, hts, ht⟩ := List.mem_flatten.mp ht
  exact hall ts hts t ht

end Compiler

/-! ## The nodes within a plan -/

/-- The nodes within a change. -/
def ChangePlan.subnodes (p : ChangePlan) : List Node :=
  tableSubnodes p.table ++ (joinSubnodes p.joins ++ (branchSubnodes p.sets ++ optionSubnodes p.filter))

/-- The nodes within a common table expression. -/
def CtePlan.subnodes (d : CtePlan) : List Node := (d.anchor :: d.union.toList).flatMap selectSubnodes

/-- The nodes within what follows the common table expressions. -/
def Body.subnodes : Body → List Node
  | select s => selectSubnodes s
  | update p | delete p => p.subnodes

/-- The nodes within a plan. -/
def TextPlan.subnodes (t : TextPlan) : List Node := t.ctes.flatMap CtePlan.subnodes ++ t.body.subnodes

/-- What holds in every part of a change holds of all its nodes. -/
theorem ChangePlan.PartsHave.every {R : Node → Prop} {p : ChangePlan}
    (h : p.PartsHave (Node.Every R) (Rows.Every R)) : ∀ x ∈ p.subnodes, R x := by
  obtain ⟨⟨_, _⟩, _, _, _⟩ := p
  exact List.forall_mem_append.mpr ⟨h.table, List.forall_mem_append.mpr ⟨every_joins.mpr h.joins,
    List.forall_mem_append.mpr ⟨every_branches.mpr h.sets, every_option.mpr h.filter⟩⟩⟩

/-- All nodes within a plan have a property that is spread as a feature. -/
theorem TextPlan.Has.every {R : Node → Prop} {hR : Node.Local R} {admits fault captured evaluated} {t : TextPlan}
    (h : t.Has (Feature.every hR admits fault captured evaluated)) : ∀ x ∈ t.subnodes, R x := by
  refine List.forall_mem_append.mpr ⟨List.forall_mem_flatMap.mpr fun d hd => ?_, ?_⟩
  · refine List.forall_mem_flatMap.mpr (List.forall_mem_cons.mpr ⟨(h.ctes d hd).anchor, fun s hs => ?_⟩)
    exact (h.ctes d hd).union s (Option.mem_toList.mp hs)
  · obtain ⟨ctes, body⟩ := t
    cases body with
    | select s => exact h.body
    | update p | delete p => exact h.body.every

/-! ## Faults -/

namespace Emission

variable {α β : Type} {E : Fault → Prop}

/-- The faults that compiling comes upon have a property. -/
def FaultsIn (E : Fault → Prop) (act : Emission α) : Prop := ∀ ps f, act ps = .error (.fault f) → E f

/-- A result has no faults. -/
theorem FaultsIn.pure (a : α) : FaultsIn E (pure a) := fun _ _ h => nomatch h

/-- An error is no fault. -/
theorem FaultsIn.throw (e : SqlError) : FaultsIn E (throw (.error e) : Emission α) := fun _ _ h => nomatch h

/-- A result or an error is no fault. -/
theorem FaultsIn.ofExcept (r : Except SqlError α) : FaultsIn E (ofExcept r) := by
  cases r with
  | ok a => exact .pure a
  | error e => exact .throw e

/-- Two emissions in turn have faults as allowed if both have. -/
theorem FaultsIn.bind {act : Emission α} {f : α → Emission β} (h : FaultsIn E act) (hf : ∀ a, FaultsIn E (f a)) :
    FaultsIn E (act >>= f) := by
  intro ps fault hfault
  obtain hfirst | ⟨⟨a, qs⟩, -, hsecond⟩ := Except.bind_eq_error.mp hfault
  · exact h ps fault hfirst
  · exact hf a qs fault hsecond

/-- Reading the parameters has no faults. -/
theorem FaultsIn.get : FaultsIn E (get : Emission Parameters) := fun _ _ h => nomatch h

/-- Setting the parameters has no faults. -/
theorem FaultsIn.set (ps : Parameters) : FaultsIn E (set ps : Emission PUnit) := fun _ _ h => nomatch h

/-- Changing the parameters has no faults. -/
theorem FaultsIn.modify (f : Parameters → Parameters) : FaultsIn E (modify f : Emission PUnit) :=
  fun _ _ h => nomatch h

/-- One emission for each member has faults as allowed if each of them has. -/
theorem FaultsIn.mapM {f : α → Emission β} {as : List α} (h : ∀ a ∈ as, FaultsIn E (f a)) :
    FaultsIn E (as.mapM f) := by
  induction as with
  | nil =>
    rw [List.mapM_nil]
    exact .pure _
  | cons a rest ih =>
    rw [List.mapM_cons]
    refine (h a List.mem_cons_self).bind fun b => ?_
    exact (ih fun a ha => h a (List.mem_cons_of_mem _ ha)).bind fun bs => .pure _

/-- Writing comes upon no fault. -/
theorem FaultsIn.ofWriting (act : Writing α) : FaultsIn E (ofWriting act) := by
  intro ps f h
  simp only [Emission.ofWriting] at h
  split at h <;> cases h

/-- Planning and writing has faults as allowed if planning has. -/
theorem FaultsIn.planAndWrite {c : Compiler} {plan : Planning α} (h : ∀ f, plan.run c = .error (.fault f) → E f)
    (write : α → Writing Phrase) : FaultsIn E (planAndWrite c plan write) := by
  have hplan : FaultsIn E (ofPlanning c plan) := by
    intro ps f hf
    cases hrun : plan.run c with
    | ok r =>
      rw [Emission.ofPlanning, hrun] at hf
      cases hf
    | error e =>
      rw [Emission.ofPlanning, hrun] at hf
      cases hf
      exact h f hrun
  exact hplan.bind fun _ => (FaultsIn.ofWriting _).bind fun _ => .pure _

end Emission

namespace Compiler

open Emission

section Statements

variable {q : Query} {u : Update} {d : Delete}

/-- The faults of a covered selection are allowed. -/
private theorem faultsIn_select (h : F.Covers c (.select q)) : FaultsIn F.fault (c.emitSelect q) :=
  (FaultsIn.planAndWrite (fun _ hf => plan_fault hf (spreads_select h)) _).bind fun _ => .pure _

/-- The faults of a covered update are allowed. -/
private theorem faultsIn_update (h : F.Covers c (.update u)) : FaultsIn F.fault (c.emitUpdate u) :=
  (FaultsIn.planAndWrite (fun _ hf => plan_fault hf (spreads_update h)) _).bind fun _ => .pure _

/-- The faults of a covered deletion are allowed. -/
private theorem faultsIn_delete (h : F.Covers c (.delete d)) : FaultsIn F.fault (c.emitDelete d) :=
  (FaultsIn.planAndWrite (fun _ hf => plan_fault hf (spreads_delete h)) _).bind fun _ => .pure _

/-- The faults of a row of a covered update are allowed. -/
private theorem faultsIn_row (h : F.Covers c (.update u)) (index : Nat) (r : Record) :
    FaultsIn F.fault (c.emitRow u index r) := by
  refine FaultsIn.get.bind fun outer => (FaultsIn.set _).bind fun _ => ?_
  refine (FaultsIn.planAndWrite (fun _ hf => plan_fault hf (spreads_row h index r)) _).bind fun _ => ?_
  exact FaultsIn.get.bind fun own => (FaultsIn.ofExcept _).bind fun _ => (FaultsIn.set _).bind fun _ => .pure _

/-- The faults of a covered bulk update are allowed. -/
private theorem faultsIn_bulk (h : F.Covers c (.update u)) (rows : List Record) :
    FaultsIn F.fault (c.emitBulk u rows) := by
  have hrows : FaultsIn F.fault (rows.zipIdx.mapM fun ri => c.emitRow u ri.2 ri.1) :=
    .mapM fun ri _ => faultsIn_row h ri.2 ri.1
  unfold emitBulk
  split
  · exact .throw _
  · refine (FaultsIn.ofExcept _).bind fun e => ?_
    dsimp only
    split
    · exact (FaultsIn.throw _).bind fun _ => hrows
    · exact hrows

/-- A statement of a batch. -/
theorem faultsIn_statement (h : F.Covers c s) : FaultsIn F.fault (c.emitStatement s) := by
  cases s with
  | select q => exact (faultsIn_select h).bind fun _ => .pure _
  | delete d => exact (faultsIn_delete h).bind fun _ => .pure _
  | update u =>
    unfold emitStatement
    dsimp only
    split
    · exact (faultsIn_bulk h _).bind fun _ => .pure _
    · exact (faultsIn_update h).bind fun _ => .pure _

/-- The faults of a batch of covered statements are allowed. -/
private theorem faultsIn_batch {ss : List Statement} (h : ∀ s ∈ ss, F.Covers c s) : FaultsIn F.fault (c.emitBatch ss) :=
  .mapM fun si hsi => (FaultsIn.modify _).bind fun _ => faultsIn_statement (h si.1 (List.fst_mem_of_mem_zipIdx hsi))

end Statements

/-- **The faults of all that is compiled** are those of evaluating expressions that are planned.

**Proof sketch.** Writing comes upon no fault, so a fault is one of planning, and planning comes upon faults only
where it evaluates an expression. -/
theorem fault_of_results {f : Fault} (h : c.results job = .error (.fault f))
    (hjob : ∀ s ∈ job.statements, F.Covers c s) : F.fault f := by
  match job with
  | .statement (.select q) =>
    have hq := faultsIn_select (hjob _ List.mem_cons_self)
    obtain h | ⟨_, -, h⟩ := Except.bind_eq_error.mp h
    · obtain h | ⟨_, -, h⟩ := Except.bind_eq_error.mp h
      · exact hq _ _ h
      · cases h
    · cases h
  | .statement (.delete d) =>
    have hd := faultsIn_delete (hjob _ List.mem_cons_self)
    obtain h | ⟨_, -, h⟩ := Except.bind_eq_error.mp h
    · obtain h | ⟨_, -, h⟩ := Except.bind_eq_error.mp h
      · exact hd _ _ h
      · cases h
    · cases h
  | .statement (.update u) =>
    have hu := hjob _ List.mem_cons_self
    obtain h | ⟨_, -, h⟩ := Except.bind_eq_error.mp h
    · unfold update at h
      split at h
      · obtain h | ⟨_, -, h⟩ := Except.bind_eq_error.mp h
        · exact faultsIn_bulk hu _ _ _ h
        · cases h
      · obtain h | ⟨_, -, h⟩ := Except.bind_eq_error.mp h
        · exact faultsIn_update hu _ _ h
        · cases h
    · cases h
  | .batch ss =>
    obtain h | ⟨_, -, h⟩ := Except.bind_eq_error.mp h
    · unfold batch at h
      split at h
      · obtain h | ⟨_, h, -⟩ := Except.bind_eq_error.mp h <;> cases h
      · obtain h | ⟨_, -, h⟩ := Except.bind_eq_error.mp h
        · exact faultsIn_batch hjob _ _ h
        · cases h
    · cases h

end Compiler

end LambdaSql
