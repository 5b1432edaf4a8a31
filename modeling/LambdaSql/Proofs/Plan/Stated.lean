import LambdaSql.Proofs.Plan.Changes
import LambdaSql.Proofs.Plan.Planned

/-!
# How planning statements spreads features

An update and a deletion are planned of the columns of their entity, of values of its fields, of values at hand that
are assigned, and of what their lambdas give. A feature that these have is one of the whole change.

## Main definitions

* `Feature.Changes` - a feature of the columns of an entity and of values that are assigned to them.

## Main results

* `spreads_planUpdate`, `spreads_planDelete`, `spreads_planRow` - updates and deletions.
* `Node.Local.fieldProperty` - the columns of an entity are compared with values of its fields.
-/

namespace LambdaSql

open Planning

variable {F : Feature} {e : Entity} {u : Update} {aliasName : Option String} {bindings : List Binding} {m : Model}

/-- The columns of an entity have a feature, with an alias or without one, and so have the values of its fields and
all values that are assigned. -/
structure Feature.Changes (F : Feature) (e : Entity) : Prop where
  fields : ∀ aliasName, FieldProperty e aliasName F.node
  parameter : ∀ v, F.node (.parameter v)

/-- Whatever is read from the table that is changed has the feature. -/
theorem Feature.Changes.target (h : F.Changes e) (name : String) (aliasName : Option String) :
    F.table ⟨name, aliasName, .entity e⟩ := by
  intro n hn
  cases hn with
  | column hn =>
    obtain ⟨f, hf, hn⟩ := Except.bind_eq_ok.mp hn
    cases hn
    exact (h.fields _).column _ (Entity.mem_columnNames hf) _
  | row hn =>
    obtain ⟨f, hf, hn⟩ := List.mem_map.mp hn
    cases hn
    exact (h.fields _).column _ (List.mem_map_of_mem hf) _

/-! ## Assignments -/

/-- The members of an assigned object spread the feature if it admits their parts. -/
private theorem spreads_assignedMembers (h : F.Changes e) (ms : List (String × Expr))
    (hm : ∀ x ∈ membersParts ms, F.admits x) :
    (assignedMembers e ms).Spreads F fun sets => ∀ s ∈ sets, F.node s.2 := by
  induction ms with
  | nil => exact .pure nofun
  | cons m rest ih =>
    obtain ⟨member, value⟩ := m
    obtain ⟨hvalue, hrest⟩ := List.forall_mem_append.mp hm
    refine (Keeps.ofExcept (Q := fun _ => True) fun _ _ => trivial).bind fun _ _ => ?_
    refine (Lowering.spreads_assigned h.parameter (value.spreads hvalue).operand).bind fun n hn => ?_
    exact (ih hrest).bind fun sets hsets => .pure (List.forall_mem_cons.mpr ⟨hn, hsets⟩)

/-- The lambdas of an update spread the feature where whatever they see has it. -/
theorem spreads_assignments (h : F.Changes e) (hu : ∀ a ∈ u.assignments, ∀ x ∈ a.parts, F.admits x)
    (hb : ∀ b ∈ bindings, F.binding b) : u.AssignsOnly F.scope F.progress F.fault F.node e bindings := by
  constructor
  · intro l hl
    refine Feature.withFrame ?_ hb _
    split
    · next ms hms =>
      refine spreads_assignedMembers h ms fun x hx => hu _ hl x ?_
      rw [Assignment.parts, Expr.eq_object hms]
      exact List.mem_cons_of_mem _ hx
    · exact .fail
  · intro member value hv
    unfold fieldAssignment
    refine (Keeps.ofExcept fun _ hf => hf).bind fun f hf => ?_
    split
    · exact .ofExcept fun n hn => (h.fields none).stored hf ⟨_, _, .own, hn⟩
    · refine Feature.withFrame (Lowering.spreads_assigned h.parameter (Expr.spreads _ fun x hx => ?_).operand) hb _
      exact hu _ hv x (value.parts_toLambda_subset hx)

/-! ## Changes -/

/-- An admitted update spreads the feature.

**Proof sketch.** The parts of the plan are made one after the other: the target, the joins, what is assigned and the
tests. The columns of the target have the feature since the entity is that of the model. -/
theorem spreads_planUpdate (hF : ∀ e, m.entity u.entity = .ok e → F.Changes e)
    (hu : ∀ x ∈ (Statement.update u).parts, F.admits x) :
    (planUpdate u).Keeps (fun s => F.scope s ∧ s.compiler.model = m) F.progress F.fault
      (ChangePlan.PartsHave F.node F.rows) := by
  obtain ⟨hassigned, hclauses⟩ := List.forall_mem_append.mp hu
  obtain ⟨hjoins, hfilters⟩ := List.forall_mem_append.mp hclauses
  replace hassigned : ∀ a ∈ u.assignments, ∀ x ∈ a.parts, F.admits x :=
    fun a ha x hx => hassigned x (List.mem_flatMap_of_mem ha hx)
  unfold planUpdate
  dsimp only
  refine Keeps.either (R := fun _ => True) (.pure trivial)
    ((Keeps.nextAlias fun _ _ hp => hp).map fun _ _ => trivial) fun aliasName _ => ?_
  refine (keeps_planTarget fun s hs => hs.2).bind ?_
  rintro _ ⟨e, he, rfl⟩
  have hquery {α : Type} {act : Planning α} {Q : α → Prop} (h : act.Spreads F Q) :
      act.Keeps (fun s => F.scope s ∧ s.compiler.model = m) F.progress F.fault Q := h.within fun _ hs => hs.1
  refine (hquery (spreads_planJoins (joins_spread u.joins hjoins)
    (List.forall_mem_singleton.mpr ((hF e he).target _ _)))).bind fun r hr => ?_
  obtain ⟨joins, tables⟩ := r
  have hbindings := Feature.bindings_tables hr.2
  refine (keeps_planAssignments ((hF e he).fields aliasName) ((spreads_assignments (hF e he) hassigned
    hbindings).within fun _ hs => hs.1)).bind fun assigned hassigned => .orFail ?_
  refine (hquery (spreads_planTests (tests_spread u.filters hfilters) hbindings)).bind fun tests htests => ?_
  refine (Keeps.ofExcept fun _ hk => ((hF e he).fields aliasName).keyRowsTest hk).bind fun key? hkey => ?_
  refine (Keeps.ofExcept fun _ hs => ((hF e he).fields aliasName).assignedColumns hassigned.sets hs).bind
    fun sets hsets => .pure ⟨F.named, hr.1, hsets, fun n hn => F.composable.conjunction (fun t ht => ?_) hn⟩
  simp only [List.mem_append, Option.mem_toList] at ht
  obtain (ht | ht) | ht := ht
  · exact htests t ht
  · exact hassigned.keys t ht
  · exact hkey t ht

/-- An admitted deletion spreads the feature. -/
theorem spreads_planDelete {s : Delete} (hF : ∀ e, m.entity s.entity = .ok e → F.Changes e)
    (hs : ∀ x ∈ (Statement.delete s).parts, F.admits x) :
    (planDelete s).Keeps (fun s => F.scope s ∧ s.compiler.model = m) F.progress F.fault
      (ChangePlan.PartsHave F.node F.rows) := by
  refine (keeps_planDelete (fun _ hs => hs.2) (fun e he => (hF e he).fields none) fun e he => ?_).mono
    fun _ h => h.parts fun _ _ => F.named
  refine (spreads_planTests (tests_spread s.filters hs) ?_).within fun _ hs => hs.1
  exact Feature.bindings_tables (List.forall_mem_singleton.mpr ((hF e he).target s.entity none))

/-- The statement for a row of a bulk update. -/
theorem spreads_planRow (hF : ∀ e, m.entity u.entity = .ok e → F.Changes e)
    (hu : ∀ a ∈ u.assignments, ∀ x ∈ a.parts, F.admits x) (index : Nat) (r : Record) :
    (planRow u index r).Keeps (fun s => F.scope s ∧ s.compiler.model = m) F.progress F.fault
      (ChangePlan.PartsHave F.node F.rows) := by
  refine (keeps_planRow (fun _ hs => hs.2) (fun e he => (hF e he).fields none) (fun e he => ?_) index r).mono
    fun _ h => h.parts fun _ _ => F.named
  refine (spreads_assignments (hF e he) hu ?_).within fun _ hs => hs.1
  exact Feature.bindings_tables (List.forall_mem_singleton.mpr ((hF e he).target u.entity none))

/-! ## Properties of all nodes within -/

/-- A value of a field is null or bound under a fixed name. -/
theorem Node.StoredIn.null_or_bound {member : String} {f : Field} {n : Node} (h : n.StoredIn member f) :
    n = .null ∨ ∃ v name value, MadeFrom member name ∧ f.toDatabase v = .ok value ∧
      n = .bound value f.native (some name) f.type := by
  obtain ⟨name, v, hname, h⟩ := h
  unfold Node.stored at h
  split at h
  · cases h
    exact .inl rfl
  · obtain ⟨_, hv, h⟩ := Except.bind_eq_ok.mp h
    cases h
    obtain ⟨value, hvalue, hv⟩ := Except.bind_eq_ok.mp hv
    cases hv
    exact .inr ⟨v, name, value, hname, hvalue, rfl⟩

/-- What is stored in a field can be compared with the field's type. -/
theorem Node.StoredIn.comparable {member : String} {f : Field} {n : Node} (h : n.StoredIn member f) :
    f.type.comparable n.type = .ok () := by
  obtain rfl | ⟨_, _, _, -, -, rfl⟩ := h.null_or_bound
  · exact HostType.comparable_unknown _
  · exact HostType.comparable_self _

/-- What holds of a stored node holds in every part of it. -/
theorem Node.StoredIn.every {R : Node → Prop} {member : String} {f : Field} {n : Node} (h : n.StoredIn member f)
    (hn : R n) : n.Every R := by
  obtain rfl | ⟨_, _, _, -, -, rfl⟩ := h.null_or_bound
  · exact Node.every_null.mpr hn
  · exact Node.every_bound.mpr hn

/-- The columns of an entity are compared with values of its fields. -/
theorem Node.Local.fieldProperty {R : Node → Prop} (hR : Node.Local R)
    (stored : ∀ {member f n}, e.field member = .ok f → n.StoredIn member f → R n) :
    FieldProperty e aliasName (Node.Every R) where
  column _ _ _ := Node.every_column.mpr hR.column
  stored hf h := h.every (stored hf h)
  test hf h := Node.every_binary.mpr
    ⟨hR.compared h.comparable, Node.every_column.mpr hR.column, h.every (stored hf h)⟩
  combined ho ha hb := Node.every_binary.mpr ⟨hR.combined ho, ha, hb⟩
  inList hf h := Node.every_inList.mpr ⟨hR.listed fun n hn => (h n hn).comparable,
    Node.every_column.mpr hR.column, fun n hn => (h n hn).every (stored hf (h n hn))⟩
  group hn := Node.every_group.mpr ⟨hR.group, hn⟩

end LambdaSql
