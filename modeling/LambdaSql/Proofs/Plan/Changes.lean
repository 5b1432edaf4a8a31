import LambdaSql.Proofs.Plan.Keeping
import LambdaSql.Proofs.Plan.Result
import LambdaSql.Statement.Compile

/-!
# Planned changes

A deletion, and an update without joined tables, is made of few kinds of nodes: columns of its table, values
of fields, tests of keys, and whatever its lambdas give. A property of nodes that all of these have is one of
the whole plan.

## Main definitions

* `Entity.columnNames` - the columns of an entity.
* `MadeFrom`, `Node.StoredIn` - values of members, and the names that they are bound under.
* `FieldProperty` - a property that columns and values have, and that tests of keys keep.
* `AssignmentPlan.All`, `ChangePlan.All` - plans whose nodes have a property.
* `ChangePlan.PartsHave` - what is said of the parts of a change.

## Main results

* `keeps_planAssignments` - what an update assigns.
* `keeps_planDelete`, `keeps_planUpdate`, `keeps_planRow` - deletions and updates.
-/

namespace LambdaSql

open Planning

variable {Q : Node → Prop} {e : Entity} {u : Update} {aliasName : Option String} {bindings : List Binding}

/-! ## Columns of an entity -/

/-- The columns of an entity. -/
def Entity.columnNames (e : Entity) : List String := e.mappedFields.map (·.column)

/-- The column of a field is one of the entity's columns. -/
theorem Entity.mem_columnNames {member : String} {f : Field} (h : e.field member = .ok f) :
    f.column ∈ e.columnNames := by
  unfold Entity.field at h
  split at h
  · next g hg =>
    cases h
    unfold Entity.field? at hg
    have hmapped := List.find?_some hg
    rw [Bool.and_eq_true] at hmapped
    exact List.mem_map_of_mem (List.mem_filter.mpr ⟨List.mem_of_find?_eq_some hg, hmapped.2⟩)
  · cases h

/-- A field that is there is found. -/
private theorem Entity.field_of_field? {member : String} {f : Field} (h : e.field? member = some f) :
    e.field member = .ok f := by
  unfold Entity.field
  rw [h]

/-- The field of an assigned member is one of the entity. -/
private theorem Entity.field_of_assigned {member : String} {f : Field} (h : assignedField e u member = .ok (some f)) :
    e.field member = .ok f := by
  unfold assignedField at h
  split at h
  · next g hg =>
    simp only [Except.pure_eq_ok] at h
    split at h
    · cases h
    · cases h
      exact Entity.field_of_field? hg
  · split at h <;> cases h

/-- The names under which the values of a member are bound: its own one, marked as that of a key or not, or with the
position of a record. -/
inductive MadeFrom (member : String) : String → Prop
  | own : MadeFrom member member
  | key : MadeFrom member ("k" ++ member)
  | row (i : Nat) : MadeFrom member (member ++ toString i)
  | rowKey (i : Nat) : MadeFrom member ("k" ++ member ++ toString i)
  | listed (i : Nat) : MadeFrom member (member ++ "_" ++ toString i)

/-- A node that stores a value in the field of a member. -/
def Node.StoredIn (member : String) (f : Field) (n : Node) : Prop :=
  ∃ name v, MadeFrom member name ∧ Node.stored f name v = .ok n

/-- What a record assigns to its members are values of their fields. -/
theorem storedIn_recordAssignments {nameOf : String → String} (hname : ∀ member, MadeFrom member (nameOf member))
    {members : List (String × Value)} {sets : List (String × Node)}
    (h : recordAssignments e u nameOf members = .ok sets) :
    ∀ s ∈ sets, ∃ f, e.field s.1 = .ok f ∧ s.2.StoredIn s.1 f := by
  induction members generalizing sets with
  | nil =>
    cases h
    exact nofun
  | cons m rest ih =>
    obtain ⟨member, v⟩ := m
    obtain ⟨f?, hf, h⟩ := Except.bind_eq_ok.mp h
    split at h
    · exact ih h
    · simp only [Except.bind_eq_ok, Except.pure_eq_ok] at h
      obtain ⟨n, hn, sets, hsets, rfl⟩ := h
      exact List.forall_mem_cons.mpr ⟨⟨_, Entity.field_of_assigned hf, _, _, hname _, hn⟩, ih hsets⟩

/-- A property of nodes that the columns of an entity and the values of its fields have, and that tests of keys
keep: the column of a field is compared with values of the field only. -/
structure FieldProperty (e : Entity) (aliasName : Option String) (Q : Node → Prop) : Prop where
  column : ∀ name ∈ e.columnNames, ∀ type, Q (.column aliasName name type)
  stored : ∀ {member f n}, e.field member = .ok f → n.StoredIn member f → Q n
  test : ∀ {member f n}, e.field member = .ok f → n.StoredIn member f → Q (.equal (.column aliasName f.column f.type) n)
  combined : ∀ {op a b}, op.isComparison = false → Q a → Q b → Q (.binary op a b .bool)
  inList : ∀ {member f ns}, e.field member = .ok f → (∀ n ∈ ns, n.StoredIn member f) →
    Q (.inList (.column aliasName f.column f.type) ns false)
  group : ∀ {n}, Q n → Q (.group n)

namespace FieldProperty

/-- A property that does not depend on what is compared. -/
theorem of_values (column : ∀ name ∈ e.columnNames, ∀ type, Q (.column aliasName name type))
    (stored : ∀ {f : Field} {name v n}, Node.stored f name v = .ok n → Q n)
    (binary : ∀ {op a b}, Q a → Q b → Q (.binary op a b .bool))
    (inList : ∀ {a ns}, Q a → (∀ n ∈ ns, Q n) → Q (.inList a ns false)) (group : ∀ {n}, Q n → Q (.group n)) :
    FieldProperty e aliasName Q where
  column := column
  stored _ h := by
    obtain ⟨_, _, -, hn⟩ := h
    exact stored hn
  test hf h := by
    obtain ⟨_, _, -, hn⟩ := h
    exact binary (column _ (Entity.mem_columnNames hf) _) (stored hn)
  combined _ := binary
  inList hf h := by
    refine inList (column _ (Entity.mem_columnNames hf) _) fun n hn => ?_
    obtain ⟨_, _, -, hn⟩ := h n hn
    exact stored hn
  group := group

/-! ## Values and keys -/

/-- A connective of nodes has the property if all of them have it. -/
theorem joined (hQ : FieldProperty e aliasName Q) {op : SqlOp} (ho : op.isComparison = false) {ns : List Node}
    {n : Node} (hns : ∀ m ∈ ns, Q m) (h : Node.joined op ns = some n) : Q n := by
  cases ns with
  | nil => cases h
  | cons m rest =>
    cases h
    obtain ⟨hm, hrest⟩ := List.forall_mem_cons.mp hns
    exact List.foldlRecOn rest _ hm fun acc hacc next hnext => hQ.combined ho hacc (hrest next hnext)

/-- What a record assigns has the property. -/
theorem recordAssignments (hQ : FieldProperty e aliasName Q) {nameOf : String → String}
    (hname : ∀ member, MadeFrom member (nameOf member)) {members : List (String × Value)} {sets : List (String × Node)}
    (h : recordAssignments e u nameOf members = .ok sets) : ∀ s ∈ sets, Q s.2 := by
  intro s hs
  obtain ⟨f, hf, hstored⟩ := storedIn_recordAssignments hname h s hs
  exact hQ.stored hf hstored

/-- The tests of a record's keys have the property. -/
theorem keyTests (hQ : FieldProperty e aliasName Q) {nameOf : String → String}
    (hname : ∀ member, MadeFrom member (nameOf member)) {r : Record} {tests : List Node}
    (h : keyTests e aliasName nameOf r = .ok tests) : ∀ n ∈ tests, Q n := by
  refine Except.forall_of_mapM h fun key _ n hn => ?_
  simp only [Except.bind_eq_ok, Except.pure_eq_ok] at hn
  obtain ⟨f, hf, v, -, m, hm, rfl⟩ := hn
  exact hQ.test hf ⟨_, _, hname _, hm⟩

/-- The test of a single key has the property. -/
theorem singleKeyTest (hQ : FieldProperty e aliasName Q) {key : String} {rows : List Record}
    {n : Node} (h : singleKeyTest e aliasName key rows = .ok n) : Q n := by
  unfold LambdaSql.singleKeyTest at h
  obtain ⟨f, hf, h⟩ := Except.bind_eq_ok.mp h
  obtain ⟨items, hitems, h⟩ := Except.bind_eq_ok.mp h
  have hall : ∀ m ∈ items, m.StoredIn key f := by
    refine Except.forall_of_mapM hitems fun row _ m hm => ?_
    obtain ⟨v, -, hm⟩ := Except.bind_eq_ok.mp hm
    exact ⟨_, _, .row _, hm⟩
  split at h
  · cases h
    exact hQ.test hf (hall _ List.mem_cons_self)
  · cases h
    exact hQ.inList hf hall

/-- The test of the rows by their keys has the property. -/
theorem keyRowsTest (hQ : FieldProperty e aliasName Q) {rows : List Record} {n? : Option Node}
    (h : keyRowsTest e aliasName rows = .ok n?) : ∀ n, n? = some n → Q n := by
  unfold LambdaSql.keyRowsTest at h
  rintro n rfl
  split at h
  · cases h
  · split at h
    · cases h
    · obtain ⟨m, hm, h⟩ := Except.bind_eq_ok.mp h
      cases h
      exact hQ.singleKeyTest hm
    · obtain ⟨tests, htests, h⟩ := Except.bind_eq_ok.mp h
      refine hQ.joined rfl (fun m hm => ?_) (Except.pure_eq_ok.mp h)
      obtain ⟨m?, hmem, rfl⟩ := List.mem_filterMap.mp hm
      refine Except.forall_of_mapM (Q := fun m? => ∀ m, m? = some m → Q m) htests
        (fun row _ b hb => ?_) _ hmem m rfl
      simp only [Except.bind_eq_ok, Except.pure_eq_ok] at hb
      obtain ⟨keys, hkeys, rfl⟩ := hb
      intro k hk
      obtain ⟨inner, hinner, rfl⟩ := Option.map_eq_some_iff.mp hk
      exact hQ.group (hQ.joined rfl (hQ.keyTests (fun _ => .listed _) hkeys) hinner)

/-- Assigned columns are columns of the entity. -/
theorem assignedColumns (hQ : FieldProperty e aliasName Q) {name : String} {sets : List (String × Node)}
    (hs : ∀ s ∈ sets, Q s.2) {assigned : List (Node × Node)}
    (h : assignedColumns ⟨name, aliasName, .entity e⟩ sets = .ok assigned) :
    ∀ a ∈ assigned, Q a.1 ∧ Q a.2 := by
  refine Except.forall_of_mapM h fun s hmem a ha => ?_
  simp only [Except.bind_eq_ok, Except.pure_eq_ok] at ha
  obtain ⟨n, hn, rfl⟩ := ha
  obtain ⟨f, hf, hn⟩ := Except.bind_eq_ok.mp hn
  cases hn
  exact ⟨hQ.column _ (Entity.mem_columnNames hf) _, hs s hmem⟩

end FieldProperty

/-! ## Assignments -/

/-- What has members as an object is the object of them. -/
theorem Expr.eq_object {e : Expr} {ms : List (String × Expr)} (h : e.objectMembers? = some ms) : e = .object ms := by
  unfold Expr.objectMembers? at h
  split at h
  · cases h
    rfl
  · cases h

/-- The nodes of what an update assigns, and of the tests that go with it, have a property. -/
structure AssignmentPlan.All (Q : Node → Prop) (p : AssignmentPlan) : Prop where
  sets : ∀ s ∈ p.sets, Q s.2
  keys : ∀ n ∈ p.keys, Q n

/-- Setting a node that has the property keeps it. -/
theorem AssignmentPlan.All.set {p : AssignmentPlan} (h : p.All Q) {n : Node} (hn : Q n) (member : String) :
    (p.set member n).All Q := by
  refine ⟨fun s hs => ?_, h.keys⟩
  obtain rfl | hs := Named.mem_of_mem_set hs
  · exact hn
  · exact h.sets s hs

/-- Setting nodes that have the property keeps it. -/
theorem AssignmentPlan.All.setAll {p : AssignmentPlan} (h : p.All Q) {sets : List (String × Node)}
    (hs : ∀ s ∈ sets, Q s.2) : (sets.foldl (fun acc s => acc.set s.1 s.2) p).All Q := by
  induction sets generalizing p with
  | nil => exact h
  | cons s rest ih =>
    exact ih (h.set (hs s List.mem_cons_self) s.1) fun s hs' => hs s (List.mem_cons_of_mem _ hs')

/-- Assigning an object keeps the property. -/
theorem FieldProperty.planObject (hQ : FieldProperty e aliasName Q) {r : Record} {p q : AssignmentPlan}
    (hp : p.All Q) (h : planObject e u aliasName r p = .ok q) : q.All Q := by
  unfold LambdaSql.planObject at h
  split at h
  · cases h
  · simp only [Except.bind_eq_ok, Except.pure_eq_ok] at h
    obtain ⟨keys, hkeys, sets, hsets, rfl⟩ := h
    have hkeyed : AssignmentPlan.All Q { p with keys := p.keys ++ keys } := by
      refine ⟨hp.sets, fun n hn => ?_⟩
      exact (List.mem_append.mp hn).elim (hp.keys n) (hQ.keyTests (fun _ => .key) hkeys n)
    exact hkeyed.setAll (hQ.recordAssignments (fun _ => .own) hsets)

section Keeps

variable {S : Scope → Prop} {I : Progress → Prop} {E : Fault → Prop}

/-- The lambdas that an update assigns the results of give nodes that have a property. -/
structure Update.AssignsOnly (S : Scope → Prop) (I : Progress → Prop) (E : Fault → Prop) (Q : Node → Prop)
    (e : Entity) (u : Update) (bindings : List Binding) : Prop where
  lambda : ∀ l, .lambda l ∈ u.assignments →
    (lambdaAssignments e bindings l).Keeps S I E fun sets => ∀ s ∈ sets, Q s.2
  field : ∀ member value, .field member value ∈ u.assignments →
    (fieldAssignment e u bindings member value).Keeps S I E Q

/-- An update assigns only such nodes in fewer scopes as well. -/
theorem Update.AssignsOnly.within {S' : Scope → Prop} (h : u.AssignsOnly S I E Q e bindings)
    (hS : ∀ s, S' s → S s) : u.AssignsOnly S' I E Q e bindings :=
  ⟨fun l hl => (h.lambda l hl).within hS, fun member value hf => (h.field member value hf).within hS⟩

/-- An assignment keeps the property. -/
theorem keeps_planAssignment (hQ : FieldProperty e aliasName Q) (hu : u.AssignsOnly S I E Q e bindings)
    {p : AssignmentPlan} (hp : p.All Q) {a : Assignment} (ha : a ∈ u.assignments) :
    (planAssignment e u aliasName bindings p a).Keeps S I E (AssignmentPlan.All Q) := by
  cases a with
  | lambda l => exact (hu.lambda l ha).bind fun sets hsets => .pure (hp.setAll hsets)
  | field member value => exact (hu.field member value ha).bind fun n hn => .pure (hp.set hn member)
  | value member v =>
    refine (Keeps.ofExcept fun _ hf => hf).bind fun f hf => ?_
    exact (Keeps.ofExcept fun n hn => hQ.stored hf ⟨_, _, .own, hn⟩).bind fun n hn => .pure (hp.set hn member)
  | object r => exact .ofExcept fun q hq => hQ.planObject hp hq

/-- **What an update assigns**, and the tests that go with it.

**Proof sketch.** Induction on the assignments, each of which sets members to values of fields or to what its lambda
gives. -/
theorem keeps_planAssignments (hQ : FieldProperty e aliasName Q) (hu : u.AssignsOnly S I E Q e bindings) :
    (planAssignments e u aliasName bindings).Keeps S I E (AssignmentPlan.All Q) := by
  have hall (as : List Assignment) (has : ∀ a ∈ as, a ∈ u.assignments) {p : AssignmentPlan} (hp : p.All Q) :
      (as.foldlM (planAssignment e u aliasName bindings) p).Keeps S I E (AssignmentPlan.All Q) := by
    induction as generalizing p with
    | nil => exact .pure hp
    | cons a rest ih =>
      rw [List.foldlM_cons]
      obtain ⟨ha, hrest⟩ := List.forall_mem_cons.mp has
      exact (keeps_planAssignment hQ hu hp ha).bind fun q hq => ih hrest hq
  exact hall u.assignments (fun _ h => h) ⟨nofun, nofun⟩

/-! ## Changes -/

/-- The parts of a change have properties. -/
structure ChangePlan.PartsHave (N : Node → Prop) (R : Rows → Prop) (p : ChangePlan) : Prop where
  table : R p.table.rows
  joins : ∀ j ∈ p.joins, R j.table.rows ∧ N j.on
  sets : ∀ s ∈ p.sets, N s.1 ∧ N s.2
  filter : ∀ n, p.filter = some n → N n

/-- The plan is one of a single table, and its nodes have a property. -/
structure ChangePlan.All (Q : Node → Prop) (p : ChangePlan) : Prop where
  table : ∃ name schema, p.table = ⟨.named name schema, none⟩
  joins : p.joins = []
  sets : ∀ s ∈ p.sets, Q s.1 ∧ Q s.2
  filter : ∀ n, p.filter = some n → Q n

/-- What all nodes of a change have, its parts have. -/
theorem ChangePlan.All.parts {p : ChangePlan} {R : Rows → Prop} (h : p.All Q)
    (hR : ∀ name schema, R (.named name schema)) : p.PartsHave Q R where
  table := by
    obtain ⟨_, _, heq⟩ := h.table
    rw [heq]
    exact hR ..
  joins := by
    rw [h.joins]
    exact nofun
  sets := h.sets
  filter := h.filter

variable {m : Model}

/-- The target of a change is the table of its entity. -/
theorem gives_planTarget {s : Scope} {p p' : Progress} {entity : String} {target : Entity × TableBinding}
    (h : (planTarget entity aliasName).Gives s p target p') :
    ∃ e, s.compiler.model.entity entity = .ok e ∧ target = (e, ⟨entity, aliasName, .entity e⟩) ∧ p' = p := by
  unfold planTarget at h
  simp only [gives_bind, gives_read, gives_ofExcept, gives_pure] at h
  obtain ⟨_, _, ⟨rfl, rfl⟩, e, _, ⟨he, rfl⟩, rfl, rfl⟩ := h
  exact ⟨e, he, rfl, rfl⟩

/-- The target of a change is the entity under its alias. -/
theorem keeps_planTarget (hm : ∀ s, S s → s.compiler.model = m) {entity : String} :
    (planTarget entity aliasName).Keeps S I E fun target =>
      ∃ e, m.entity entity = .ok e ∧ target = (e, ⟨entity, aliasName, .entity e⟩) := by
  refine Keeps.read.bind fun s hs => ?_
  refine (Keeps.ofExcept fun e he => he).bind fun e he => .pure ⟨e, ?_, rfl⟩
  rwa [hm s hs] at he

/-- All nodes of a deletion have the property. -/
theorem keeps_planDelete {s : Delete} (hm : ∀ s, S s → s.compiler.model = m)
    (hQ : ∀ e, m.entity s.entity = .ok e → FieldProperty e none Q)
    (hfilters : ∀ e, m.entity s.entity = .ok e →
      (planTests [.table ⟨s.entity, none, .entity e⟩] s.filters).Keeps S I E fun ns => ∀ n ∈ ns, Q n) :
    (planDelete s).Keeps S I E (ChangePlan.All Q) := by
  refine (keeps_planTarget hm).bind ?_
  rintro _ ⟨e, he, rfl⟩
  refine (hfilters e he).bind fun tests htests => ?_
  refine (Keeps.ofExcept fun _ hk => (hQ e he).keyRowsTest hk).bind fun key? hkey => .pure ?_
  refine ⟨⟨_, _, rfl⟩, rfl, nofun, fun n hn => (hQ e he).joined rfl (fun t ht => ?_) hn⟩
  exact (List.mem_append.mp ht).elim (htests t) fun ht => hkey t (Option.mem_toList.mp ht)

/-- All nodes of an update without joins have the property. -/
theorem keeps_planUpdate (hm : ∀ s, S s → s.compiler.model = m) (hjoins : u.joins = [])
    (hQ : ∀ e, m.entity u.entity = .ok e → FieldProperty e none Q)
    (hu : ∀ e, m.entity u.entity = .ok e → u.AssignsOnly S I E Q e [.table ⟨u.entity, none, .entity e⟩])
    (hfilters : ∀ e, m.entity u.entity = .ok e →
      (planTests [.table ⟨u.entity, none, .entity e⟩] u.filters).Keeps S I E fun ns => ∀ n ∈ ns, Q n) :
    (planUpdate u).Keeps S I E (ChangePlan.All Q) := by
  unfold planUpdate
  simp only [hjoins, List.isEmpty_nil, if_true, pure_bind, planJoins]
  refine (keeps_planTarget hm).bind ?_
  rintro _ ⟨e, he, rfl⟩
  refine (keeps_planAssignments (hQ e he) (hu e he)).bind fun assigned hassigned => .orFail ?_
  refine (hfilters e he).bind fun tests htests => ?_
  refine (Keeps.ofExcept fun _ hk => (hQ e he).keyRowsTest hk).bind fun key? hkey => ?_
  refine (Keeps.ofExcept fun _ hs => (hQ e he).assignedColumns hassigned.sets hs).bind
    fun sets hsets => .pure ⟨⟨_, _, rfl⟩, rfl, hsets, fun n hn => (hQ e he).joined rfl (fun t ht => ?_) hn⟩
  simp only [List.mem_append, Option.mem_toList] at ht
  obtain (ht | ht) | ht := ht
  · exact htests t ht
  · exact hassigned.keys t ht
  · exact hkey t ht

/-- All nodes of a row's update have the property. -/
theorem keeps_planRow (hm : ∀ s, S s → s.compiler.model = m)
    (hQ : ∀ e, m.entity u.entity = .ok e → FieldProperty e none Q)
    (hu : ∀ e, m.entity u.entity = .ok e → u.AssignsOnly S I E Q e [.table ⟨u.entity, none, .entity e⟩])
    (index : Nat) (r : Record) : (planRow u index r).Keeps S I E (ChangePlan.All Q) := by
  refine (keeps_planTarget hm).bind ?_
  rintro _ ⟨e, he, rfl⟩
  refine (keeps_planAssignments (hQ e he) (hu e he)).bind fun uniform huniform => ?_
  refine (Keeps.ofExcept fun _ hs => (hQ e he).recordAssignments (fun _ => .row _) hs).bind fun own hown => .orFail ?_
  refine (Keeps.ofExcept fun _ hk => (hQ e he).keyTests (fun _ => .rowKey _) hk).bind fun keys hkeys => ?_
  have hall : ∀ s ∈ own ++ uniform.sets, Q s.2 := fun s hs =>
    (List.mem_append.mp hs).elim (hown s) (huniform.sets s)
  refine (Keeps.ofExcept fun _ hs => (hQ e he).assignedColumns hall hs).bind fun sets hsets => .pure ?_
  exact ⟨⟨_, _, rfl⟩, rfl, hsets, fun n hn => (hQ e he).joined rfl hkeys hn⟩

end Keeps

end LambdaSql
