import LambdaSql.Proofs.Naming.Leaves
import LambdaSql.Proofs.Naming.Resolution

/-!
# The columns of a table without an alias

A deletion, and an update without joined tables, gives its table no alias, so the columns of the table
are written by their names alone, also in subqueries: each member of the parameter that stands for the table
is. There a name means the innermost table that has such a column, which need not be the table that is changed.

## Main definitions

* `ChangePlan.occurrences` - the columns, the selections and the fixed placeholders of a change.
* `Rows.columnNames` - the columns that are seen of what a selection reads from.
* `ownerOf` - the table that a name without an alias means.
* `ChangesAlone` - the plans of deletions and of updates without joined tables.
* `ChangePlan.WritesAlone` - what is written in such plans for the lambdas of their statements.

## Main results

* `wording_bareMember` - a member of the table that is changed.
* `ChangesAlone.leavesIn`, `ChangesAlone.writesAlone` - the leaves of such plans, and what is written in them.
* `ChangesAlone.owner_iff` - when a name without an alias means the table that is changed.
-/

namespace LambdaSql

open Planning

variable {P : Leaf → Prop} {e : Entity}

/-! ## Columns and lambdas -/

/-- A property that the columns of a target have, and fixed placeholders. -/
structure Leaf.Common (P : Leaf → Prop) (e : Entity) : Prop extends Leaf.Usual P where
  fixed : ∀ name, P (.fixed name)
  target : ∀ name ∈ e.columnNames, P (.column none name)

/-- A stored value has no leaf but its fixed name. -/
private theorem leavesIn_stored (hP : ∀ name, P (.fixed name)) {f : Field} {name : String} {v : Value} {n : Node}
    (h : Node.stored f name v = .ok n) : n.LeavesIn P := by
  unfold Node.stored at h
  split at h
  · cases h
    exact Node.MadeOf.leavesIn_nil Node.madeOf_null
  · obtain ⟨⟨value, native⟩, -, h⟩ := Except.bind_eq_ok.mp h
    cases h
    intro around o ho
    rw [Multiset.mem_singleton.mp ho]
    exact hP name

/-- The columns of the target have such leaves, also under an alias. -/
theorem Leaf.Common.changes (hP : Leaf.Common P e) : (Leaf.feature hP.toUsual).Changes e where
  fields aliasName := by
    refine .of_values (fun name hname _ => Node.leavesIn_column ?_) (leavesIn_stored hP.fixed)
      (fun ha hb => (Node.madeOf_binary ..).leavesIn_two ha hb)
      (fun ha hns => (Node.madeOf_inList ..).leavesIn (List.forall_mem_cons.mpr ⟨ha, hns⟩)) fun h => h
    cases aliasName with
    | none => exact hP.target name hname
    | some a => exact hP.column a name
  parameter v := (Node.madeOf_parameter v).leavesIn_nil

/-! ## Changes -/

/-- The columns, the selections and the fixed placeholders of a change. -/
def ChangePlan.occurrences (p : ChangePlan) : Multiset Occurrence :=
  joinOccurrences [] [] p.joins + nodesOccurrences [] (p.sets.flatMap fun s => [s.1, s.2]) +
    optionOccurrences [] p.filter

/-- What holds of the leaves of the parts of a change holds at all of its occurrences. -/
theorem ChangePlan.PartsHave.leavesIn {p : ChangePlan} (h : p.PartsHave (Node.LeavesIn P) (Rows.LeavesIn P)) :
    ∀ o ∈ p.occurrences, P o.leaf := by
  intro o ho
  simp only [occurrences, optionOccurrences_eq, Multiset.mem_add] at ho
  obtain (ho | ho) | ho := ho
  · obtain ⟨j, hj, ho⟩ := mem_joinOccurrences ho
    exact ho.elim ((h.joins j hj).1 _ _) ((h.joins j hj).2 _ _)
  · obtain ⟨n, hn, ho⟩ := mem_nodesOccurrences.mp ho
    obtain ⟨s, hs, hn⟩ := List.mem_flatMap.mp hn
    simp only [List.mem_cons, List.not_mem_nil, or_false] at hn
    obtain rfl | rfl := hn
    · exact (h.sets s hs).1 _ _ ho
    · exact (h.sets s hs).2 _ _ ho
  · obtain ⟨n, hn, ho⟩ := mem_nodesOccurrences.mp ho
    exact h.filter n (Option.mem_toList.mp hn) _ _ ho

/-- The plans of deletions and of updates without joined tables, of one statement or for a row, under
a model. The table they change is that of an entity and has no alias. The lambdas of such a statement are
filters and among what is assigned; for the rows of a bulk update there are no filters. -/
inductive ChangesAlone (m : Model) : Entity → List Lambda → List Assignment → Planning ChangePlan → Prop
  | delete {e : Entity} (s : Delete) : m.entity s.entity = .ok e → ChangesAlone m e s.filters [] (planDelete s)
  | update {e : Entity} (u : Update) : m.entity u.entity = .ok e → u.joins = [] →
    ChangesAlone m e u.filters u.assignments (planUpdate u)
  | row {e : Entity} (u : Update) (index : Nat) (r : Record) : m.entity u.entity = .ok e →
    ChangesAlone m e [] u.assignments (planRow u index r)

/-- **The leaves of a change of one table**: those of its subqueries, and the columns of the table. -/
theorem ChangesAlone.leavesIn {c : Compiler} {filters : List Lambda} {assignments : List Assignment}
    {plan : Planning ChangePlan} (hplan : ChangesAlone c.model e filters assignments plan)
    (hP : Leaf.Common P e) {change : ChangePlan} {ctes : List CtePlan}
    (hrun : plan.run c = .ok (change, ctes)) : ∀ o ∈ change.occurrences, P o.leaf := by
  -- The entity is the one of the name in the model, whatever the plan asks for.
  have hchanges {name : String} (he : c.model.entity name = .ok e) :
      ∀ e', c.model.entity name = .ok e' → (Leaf.feature hP.toUsual).Changes e' := by
    intro e' he'
    cases he.symm.trans he'
    exact hP.changes
  have hall : plan.Keeps (fun s => (Leaf.feature hP.toUsual).scope s ∧ s.compiler.model = c.model)
      (Leaf.feature hP.toUsual).progress (Leaf.feature hP.toUsual).fault
      (ChangePlan.PartsHave (Node.LeavesIn P) (Rows.LeavesIn P)) := by
    cases hplan with
    | delete s he => exact spreads_planDelete (hchanges he) fun _ _ => trivial
    | update u he _ => exact spreads_planUpdate (hchanges he) fun _ _ => trivial
    | row u index r he => exact spreads_planRow (hchanges he) (fun _ _ _ _ => trivial) index r
  obtain ⟨p', h, rfl⟩ := gives_of_run hrun
  exact (hall.of_gives ⟨fun _ hf => absurd hf List.not_mem_nil, rfl⟩
    (fun _ hc => absurd hc List.not_mem_nil) h).1.leavesIn

/-! ## What is written for lambdas -/

/-- A parameter that stands for a table without an alias has the names of its columns as members. -/
theorem wording_bareMember (c : Compiler) (e : Entity) (x member : String) (around : List Level) (ns : List Node) :
    (Expr.member (.param x) member).wording c (Roles.none.under [x] [.bare e]) around ns ↔
      ∃ f, e.field? member = some f ∧ ns = [.column none f.column f.type] := by
  simp [Expr.wording, memberWritten, Roles.wording, Roles.under, Role.member, Entity.bareColumn]

/-- What an expression assigns: its value if that is at hand, or else what may be written for it. -/
def assignedWritten (c : Compiler) (roles : Roles) (e : Expr) (n : Node) : Prop :=
  (∃ v, Host.value e = .ok v ∧ n = if v.isNull then .null else .parameter v) ∨ e.wording c roles [] [n]

/-- What a lambda over the table that is changed sets a member to. -/
def Assignment.Sets (c : Compiler) (e : Entity) (member : String) (n : Node) : Assignment → Prop
  | .lambda l => ∃ ms source, l.body = .object ms ∧ (member, source) ∈ ms ∧
    assignedWritten c (Roles.none.under l.params [.bare e]) source n
  | .field name source => name = member ∧
    assignedWritten c (Roles.none.under source.toLambda.params [.bare e]) source.toLambda.body n
  | .value _ _ | .object _ => False

/-- A member is set to a value that is stored in its field, or to what is written for a lambda. -/
def SetsMember (c : Compiler) (e : Entity) (assignments : List Assignment) (member : String) (n : Node) : Prop :=
  ∃ f, e.field member = .ok f ∧ (n.StoredIn member f ∨ ∃ a ∈ assignments, a.Sets c e member n)

/-- What is written in a change whose lambdas are over the table that is changed, which has no alias: their tests,
before those of keys, and what the columns of the table are set to. -/
structure ChangePlan.WritesAlone (c : Compiler) (e : Entity) (filters : List Lambda) (assignments : List Assignment)
    (p : ChangePlan) : Prop where
  filter : ∃ ns keys, testsWritten c Roles.none [.bare e] filters [] ns ∧ p.filter = Node.conjunction (ns ++ keys)
  sets : ∀ s ∈ p.sets, ∃ member f, e.field? member = some f ∧ s.1 = .column none f.column f.type ∧
    SetsMember c e assignments member s.2

section Written

variable {s : Scope} {p p' : Progress} {name : String} {u : Update} {assignments : List Assignment}

/-- The parameter of a lambda plays the table without an alias, as long as no lambda is around. -/
theorem plays_bare {s : Scope} (hs : s.frames = []) {params : List String} (hparams : params.length ≤ 1) (limit : Nat) :
    Scope.Plays { s with frames := frame params [.table ⟨name, none, .entity e⟩] :: s.frames } limit []
      (Roles.none.under params [.bare e]) :=
  (Scope.plays_none hs []).under (.cons (.bare rfl rfl) .nil) hparams

/-- The right-hand side of an assignment. -/
theorem written_assigned {roles : Roles} {value : Expr} {n : Node} (ha : s.Plays p.nextAlias [] roles)
    (h : (Lowering.assigned (operand value)).Gives s p n p') : assignedWritten s.compiler roles value n := by
  have written {q : Progress} (hv : (operand value).value.Gives s q n p') (hq : q = p) :
      assignedWritten s.compiler roles value n := by
    subst hq
    exact .inr (value.isWritten.value ha (.value hv)).2
  unfold Lowering.assigned at h
  rw [operand_source] at h
  split at h
  · simp only [gives_bind, Lowering.gives_origin] at h
    obtain ⟨_, _, ⟨rfl, rfl⟩, h⟩ := h
    split at h
    · simp only [gives_bind, Lowering.gives_valueOf?] at h
      obtain ⟨v?, _, ⟨hattempt, rfl⟩, h⟩ := h
      split at h
      · next v =>
        obtain ⟨rfl, rfl⟩ := gives_pure.mp h
        exact .inl ⟨v, Evaluation.eq_ok_of_attempt hattempt, rfl⟩
      · exact written h rfl
    · exact written h rfl
  · exact written h rfl

/-- The members of an object that a lambda returns. -/
theorem written_assignedMembers {roles : Roles} (ha : ∀ limit, s.Plays limit [] roles) {ms : List (String × Expr)}
    {sets : List (String × Node)} (h : (assignedMembers e ms).Gives s p sets p') :
    ∀ x ∈ sets, ∃ f value, e.field x.1 = .ok f ∧ (x.1, value) ∈ ms ∧ assignedWritten s.compiler roles value x.2 := by
  induction ms generalizing p p' sets with
  | nil =>
    obtain ⟨rfl, -⟩ := gives_pure.mp h
    exact nofun
  | cons m rest ih =>
    obtain ⟨member, value⟩ := m
    simp only [assignedMembers, gives_bind, gives_ofExcept, gives_pure] at h
    obtain ⟨f, _, ⟨hf, rfl⟩, n, q, hn, others, _, hothers, rfl, -⟩ := h
    refine List.forall_mem_cons.mpr ⟨⟨f, value, hf, List.mem_cons_self, written_assigned (ha _) hn⟩, fun x hx => ?_⟩
    obtain ⟨g, other, hg, hmem, hw⟩ := ih hothers x hx
    exact ⟨g, other, hg, List.mem_cons_of_mem _ hmem, hw⟩

/-- Everything that is assigned so far may be assigned. -/
def AssignmentPlan.Sets (c : Compiler) (e : Entity) (assignments : List Assignment) (p : AssignmentPlan) : Prop :=
  ∀ x ∈ p.sets, SetsMember c e assignments x.1 x.2

/-- A further assigned member keeps what a plan sets. -/
theorem AssignmentPlan.Sets.set {c : Compiler} {p : AssignmentPlan} (h : p.Sets c e assignments) {member : String}
    {n : Node} (hn : SetsMember c e assignments member n) : (p.set member n).Sets c e assignments := by
  intro x hx
  obtain rfl | hx := Named.mem_of_mem_set hx
  · exact hn
  · exact h x hx

/-- Further assigned members keep what a plan sets. -/
theorem AssignmentPlan.Sets.setAll {c : Compiler} {p : AssignmentPlan} (h : p.Sets c e assignments)
    {sets : List (String × Node)} (hs : ∀ x ∈ sets, SetsMember c e assignments x.1 x.2) :
    (sets.foldl (fun acc x => acc.set x.1 x.2) p).Sets c e assignments := by
  induction sets generalizing p with
  | nil => exact h
  | cons x rest ih =>
    obtain ⟨hx, hrest⟩ := List.forall_mem_cons.mp hs
    exact ih (h.set hx) hrest

/-- One assignment, of a lambda or of values that are stored.

**Proof sketch.** By the form of the assignment: a lambda assigns what is written for the members of its object, a
field what is written for its value, and values and records what is stored. -/
theorem sets_planAssignment (hs : s.frames = []) {a : Assignment} (ha : a ∈ assignments) {before after : AssignmentPlan}
    (hbefore : before.Sets s.compiler e assignments)
    (h : (planAssignment e u none [.table ⟨name, none, .entity e⟩] before a).Gives s p after p') :
    after.Sets s.compiler e assignments := by
  cases a with
  | lambda l =>
    simp only [planAssignment, lambdaAssignments, gives_bind, gives_withFrame, gives_pure] at h
    obtain ⟨sets, _, ⟨hparams, hsets⟩, rfl, -⟩ := h
    split at hsets
    · next ms hms =>
      refine hbefore.setAll fun x hx => ?_
      obtain ⟨f, value, hf, hmem, hw⟩ := written_assignedMembers (plays_bare hs hparams) hsets x hx
      exact ⟨f, hf, .inr ⟨_, ha, ms, value, Expr.eq_object hms, hmem, hw⟩⟩
    · exact absurd hsets not_gives_fail
  | field member value =>
    simp only [planAssignment, fieldAssignment, gives_bind, gives_ofExcept, gives_pure] at h
    obtain ⟨n, _, ⟨f, _, ⟨hf, rfl⟩, hn⟩, rfl, -⟩ := h
    refine hbefore.set ⟨f, hf, ?_⟩
    split at hn
    · exact .inl ⟨_, _, .own, (gives_ofExcept.mp hn).1⟩
    · obtain ⟨hparams, hn⟩ := gives_withFrame.mp hn
      have hw := written_assigned (plays_bare hs hparams _) hn
      exact .inr ⟨_, ha, rfl, hw⟩
  | value member v =>
    simp only [planAssignment, gives_bind, gives_ofExcept, gives_pure] at h
    obtain ⟨f, _, ⟨hf, -⟩, n, _, ⟨hn, -⟩, rfl, -⟩ := h
    exact hbefore.set ⟨f, hf, .inl ⟨_, _, .own, hn⟩⟩
  | object r =>
    have hobject : planObject e u none r before = .ok after := (gives_ofExcept.mp h).1
    unfold planObject at hobject
    split at hobject
    · cases hobject
    · simp only [Except.bind_eq_ok, Except.pure_eq_ok] at hobject
      obtain ⟨keys, -, sets, hsets, rfl⟩ := hobject
      have hkeyed : AssignmentPlan.Sets s.compiler e assignments { before with keys := before.keys ++ keys } := hbefore
      refine hkeyed.setAll fun x hx => ?_
      obtain ⟨f, hf, hstored⟩ := storedIn_recordAssignments (fun _ => .own) hsets x hx
      exact ⟨f, hf, .inl hstored⟩

/-- All assignments of an update, one after another. -/
theorem sets_planAssignments (hs : s.frames = []) {assigned : AssignmentPlan}
    (h : (planAssignments e u none [.table ⟨name, none, .entity e⟩]).Gives s p assigned p') :
    assigned.Sets s.compiler e u.assignments := by
  have hall (as : List Assignment) (has : ∀ a ∈ as, a ∈ u.assignments) {before : AssignmentPlan} {q : Progress}
      (hbefore : before.Sets s.compiler e u.assignments)
      (h : (as.foldlM (planAssignment e u none [.table ⟨name, none, .entity e⟩]) before).Gives s q assigned p') :
      assigned.Sets s.compiler e u.assignments := by
    induction as generalizing before q with
    | nil =>
      obtain ⟨rfl, -⟩ := gives_pure.mp h
      exact hbefore
    | cons a rest ih =>
      obtain ⟨ha, hrest⟩ := List.forall_mem_cons.mp has
      rw [List.foldlM_cons, gives_bind] at h
      obtain ⟨after, _, hafter, h⟩ := h
      exact ih hrest (sets_planAssignment hs ha hbefore hafter) h
  exact hall u.assignments (fun _ h => h) (fun _ hx => absurd hx List.not_mem_nil) h

/-- The columns that are set are those of the members. -/
theorem sets_assignedColumns {c : Compiler} {sets : List (String × Node)}
    (hsets : ∀ x ∈ sets, SetsMember c e assignments x.1 x.2) {columns : List (Node × Node)}
    (h : assignedColumns ⟨name, none, .entity e⟩ sets = .ok columns) :
    ∀ x ∈ columns, ∃ member f, e.field? member = some f ∧ x.1 = .column none f.column f.type ∧
      SetsMember c e assignments member x.2 := by
  refine Except.forall_of_mapM h fun x hx column hcolumn => ?_
  simp only [Except.bind_eq_ok, Except.pure_eq_ok] at hcolumn
  obtain ⟨n, hn, rfl⟩ := hcolumn
  obtain ⟨f, hf, rfl⟩ := TableBinding.column_entity rfl hn
  exact ⟨x.1, f, hf, rfl, hsets x hx⟩

/-- The tests of a statement come before those for keys. -/
theorem written_filters (hs : s.frames = []) {filters : List Lambda} {ns : List Node}
    (h : (planTests [.table ⟨name, none, .entity e⟩] filters).Gives s p ns p') :
    testsWritten s.compiler Roles.none [.bare e] filters [] ns :=
  (tests_areWorded filters (Scope.plays_none hs []) (.cons (.bare rfl rfl) .nil) h).2

end Written

/-- **What is written in a change of one table**: each test and each value that is assigned is written for its lambda,
whose parameter has the names of the table's columns as members.

**Proof sketch.** The tests are those of a query whose only parameter is the table without an alias, and no lambda is
around. Assignment by assignment, what a member is set to is a value of its field, or the body of a lambda in the same
scope, unless its value is at hand. -/
theorem ChangesAlone.writesAlone {c : Compiler} {filters : List Lambda} {assignments : List Assignment}
    {plan : Planning ChangePlan} (hplan : ChangesAlone c.model e filters assignments plan) {change : ChangePlan}
    {ctes : List CtePlan} (hrun : plan.run c = .ok (change, ctes)) : change.WritesAlone c e filters assignments := by
  obtain ⟨p', h, -⟩ := gives_of_run hrun
  -- The entity is the one of the name in the model.
  have entity {name : String} (he : c.model.entity name = .ok e) {e' : Entity} (he' : c.model.entity name = .ok e') :
      e' = e := Except.ok.inj (he'.symm.trans he)
  cases hplan with
  | delete s he =>
    simp only [planDelete, gives_bind, gives_ofExcept, gives_pure] at h
    obtain ⟨_, _, htarget, tests, _, htests, key?, _, -, rfl, -⟩ := h
    obtain ⟨e', he', rfl, rfl⟩ := gives_planTarget htarget
    obtain rfl := entity he he'
    exact ⟨⟨tests, _, written_filters rfl htests, rfl⟩, fun _ hs => absurd hs List.not_mem_nil⟩
  | update u he hjoins =>
    unfold planUpdate at h
    simp only [hjoins, List.isEmpty_nil, if_true, pure_bind, planJoins] at h
    simp only [gives_bind, gives_ofExcept, gives_orFail, gives_pure] at h
    obtain ⟨_, _, htarget, assigned, _, hassigned, -, tests, _, htests, key?, _, -, columns, _, ⟨hcolumns, -⟩,
      rfl, -⟩ := h
    obtain ⟨e', he', rfl, rfl⟩ := gives_planTarget htarget
    obtain rfl := entity he he'
    refine ⟨⟨tests, assigned.keys ++ key?.toList, written_filters rfl htests, ?_⟩, ?_⟩
    · rw [← List.append_assoc]
    · exact sets_assignedColumns (sets_planAssignments rfl hassigned) hcolumns
  | row u index r he =>
    simp only [planRow, gives_bind, gives_ofExcept, gives_orFail, gives_pure] at h
    obtain ⟨_, _, htarget, uniform, _, huniform, own, _, ⟨hown, -⟩, -, keys, _, -, columns, _, ⟨hcolumns, -⟩,
      rfl, -⟩ := h
    obtain ⟨e', he', rfl, rfl⟩ := gives_planTarget htarget
    obtain rfl := entity he he'
    refine ⟨⟨[], keys, rfl, rfl⟩, sets_assignedColumns (fun x hx => ?_) hcolumns⟩
    obtain hx | hx := List.mem_append.mp hx
    · obtain ⟨f, hf, hstored⟩ := storedIn_recordAssignments (fun _ => .row _) hown x hx
      exact ⟨f, hf, .inl hstored⟩
    · exact sets_planAssignments rfl huniform x hx

/-! ## Names without an alias -/

/-- The columns that are seen of what a selection reads from: those of the entity that is stored in a
table, or those of a common table expression, which hides a table of its name; or those of a derived
table. -/
def Rows.columnNames (m : Model) (ctes : List CtePlan) : Rows → List String
  | .named name schema =>
    match ctes.find? fun c => schema.isNone && c.name == name with
    | some c => c.columns
    | none => (m.entities.filter fun e => e.table == name && e.schema == schema).flatMap Entity.columnNames
  | .derived query => query.shape.map Output.name

/-- Whether a table has a column of a name. -/
def hasColumn (m : Model) (ctes : List CtePlan) (name : String) (t : Table) : Bool :=
  (t.rows.columnNames m ctes).contains name

/-- The table that a name without an alias means: the one with such a column in the innermost selection
that has one. If there is none, the name means the table that the statement itself is about. -/
def ownerOf (m : Model) (ctes : List CtePlan) (name : String) : List Level → Option Seat
  | [] => none
  | l :: outer =>
    match l.tables.findIdx? (hasColumn m ctes name) with
    | some i => some ⟨outer.length, i⟩
    | none => ownerOf m ctes name outer

/-- A name that no selection around knows means the table of the statement. -/
theorem ownerOf_eq_none {m : Model} {ctes : List CtePlan} {name : String} {around : List Level} :
    ownerOf m ctes name around = none ↔
      ∀ l ∈ around, ∀ t ∈ l.tables, name ∉ t.rows.columnNames m ctes := by
  induction around with
  | nil => exact ⟨fun _ => nofun, fun _ => rfl⟩
  | cons l outer ih =>
    have hlevel : l.tables.findIdx? (hasColumn m ctes name) = none ↔
        ∀ t ∈ l.tables, name ∉ t.rows.columnNames m ctes := by
      simp [List.findIdx?_eq_none_iff, hasColumn]
    rw [List.forall_mem_cons, ← hlevel, ← ih, ownerOf]
    cases l.tables.findIdx? (hasColumn m ctes name) with
    | some i => simp
    | none => simp

/-- **When a name without an alias means the table that is changed.** In a deletion, and in an update
without joined tables, each member of the parameter of a lambda is written as a column without an alias, also in
subqueries; and a column without an alias is one of the table that is changed, as columns of all other tables have
an alias. By the rule of names such a column means that table if and only if no table of a selection around it has
a column of that name.

**Proof sketch.** The tests and the assigned values are planned as what may be written for the lambdas, where their
parameter plays the table without an alias. That a column without an alias is one of the table is a property of the
leaves of a plan, which all queries keep since their own tables have aliases. The rule of names looks through the
selections around one by one, from the innermost one. -/
theorem ChangesAlone.owner_iff {c : Compiler} {filters : List Lambda} {assignments : List Assignment}
    {plan : Planning ChangePlan} (hplan : ChangesAlone c.model e filters assignments plan) {change : ChangePlan}
    {ctes : List CtePlan} (hrun : plan.run c = .ok (change, ctes)) :
    change.WritesAlone c e filters assignments ∧
      ∀ o ∈ change.occurrences, ∀ name, o.leaf = .column none name →
        name ∈ e.columnNames ∧ (ownerOf c.model ctes name o.around = none ↔
          ∀ l ∈ o.around, ∀ t ∈ l.tables, name ∉ t.rows.columnNames c.model ctes) := by
  refine ⟨hplan.writesAlone hrun, fun o ho name hleaf => ⟨?_, ownerOf_eq_none⟩⟩
  have hP : Leaf.Common (fun leaf => ∀ name, leaf = .column none name → name ∈ e.columnNames) e := by
    refine ⟨⟨fun _ _ _ h => ?_, nofun⟩, fun _ => nofun, fun column hcolumn _ h => ?_⟩
    · cases h
    · cases h
      exact hcolumn
  exact hplan.leavesIn hP hrun o ho name hleaf

/-- The deletion of all customers that have an order of their own number. -/
def ownOrderers : Delete :=
  { entity := "Customer" : Delete }.filter (.lambda ["c"]
    (.call none (some "Sql") "Exists" [.query ((Query.ofSource (.entity "Order")).filter (.lambda ["o"]
      (.binary .eq (.member (.param "o") "Id") (.member (.param "c") "Id"))))]))

/-- The customer's number is written by its name alone, and taken for that of an order, which is equal to itself. -/
theorem ownOrderers_captured :
    ∃ e change ctes o, shop.model.entity "Customer" = .ok e ∧
      (planDelete ownOrderers).run shop = .ok (change, ctes) ∧
      change.WritesAlone shop e ownOrderers.filters [] ∧ o ∈ change.occurrences ∧
      o.leaf = .column none "id" ∧ "id" ∈ e.columnNames ∧
      ownerOf shop.model ctes "id" o.around = some ⟨0, 0⟩ ∧
      ¬ ∀ l ∈ o.around, ∀ t ∈ l.tables, "id" ∉ t.rows.columnNames shop.model ctes := by
  obtain ⟨e, he⟩ : ∃ e, shop.model.entity "Customer" = .ok e := ⟨_, rfl⟩
  obtain ⟨change, h, ho⟩ : ∃ change, (planDelete ownOrderers).run shop = .ok (change, []) ∧
      ⟨[⟨[⟨.named "orders" none, some "a"⟩], false⟩], .column none "id"⟩ ∈ change.occurrences := by
    refine ⟨_, rfl, Multiset.mem_add.mpr (.inr ?_)⟩
    refine Multiset.mem_add.mpr (.inl (Multiset.mem_add.mpr (.inl (Multiset.mem_add.mpr (.inl ?_)))))
    refine Multiset.mem_add.mpr (.inr ?_)
    exact Multiset.mem_add.mpr (.inr (Multiset.mem_singleton_self _))
  have hcapture : ownerOf shop.model [] "id" [⟨[⟨.named "orders" none, some "a"⟩], false⟩] = some ⟨0, 0⟩ := by
    rfl
  obtain ⟨hwrites, howner⟩ := (ChangesAlone.delete ownOrderers he).owner_iff h
  obtain ⟨hmem, hiff⟩ := howner _ ho "id" rfl
  exact ⟨e, change, [], _, he, h, hwrites, ho, rfl, hmem, hcapture,
    fun hnone => nomatch hcapture.symm.trans (hiff.mpr hnone)⟩

end LambdaSql
