import LambdaSql.Proofs.Nesting.Queries
import LambdaSql.Proofs.Plan.Changes

/-!
# How changes go on

Planning of updates and deletions keeps an invariant, too. What they assign and test is made of columns, of values
of fields, and of what their lambdas give; an update may join tables of any kind.

## Main definitions

* `updatePassages`, `deletePassages` - the passages of an update and of a deletion.

## Main results

* `ends_planUpdate`, `ends_planDelete`, `ends_planRow` - updates and deletions.
-/

namespace LambdaSql

open Planning

variable {J : Invariant} {D : Prop} {unions : List String} {s : Scope} {p q : Progress} {e : Entity} {u : Update}
  {aliasName : Option String} {bindings : List Binding}

/-! ## Passages -/

/-- The passages of an assignment. -/
def Assignment.passages : Assignment → List Passage
  | .lambda l => l.body.passages []
  | .field _ e => e.passages []
  | .value .. | .object _ => []

/-- The passages of an update. -/
def updatePassages (u : Update) : List Passage :=
  joinsPassages [] u.joins ++ u.assignments.flatMap Assignment.passages ++ testsPassages [] u.filters

/-- The passages of a deletion. -/
def deletePassages (s : Delete) : List Passage := testsPassages [] s.filters

/-- An assigned value has the same passages as the lambda for it. -/
private theorem passages_toLambda (value : Expr) : value.toLambda.body.passages unions = value.passages unions := by
  cases value <;> rfl

/-! ## Assignments -/

/-- A value that is stored in a field is a node of the invariant. -/
theorem Invariant.stored (J : Invariant) {f : Field} {name : String} {v : Value} {n : Node}
    (h : Node.stored f name v = .ok n) : J.node unions p n := by
  unfold Node.stored at h
  split at h
  · cases h
    exact (J.hereditary ..).null
  · obtain ⟨_, -, h⟩ := Except.bind_eq_ok.mp h
    cases h
    exact (J.hereditary ..).bound

/-- Columns and values of fields are such nodes, and tests of keys are made of them. -/
theorem Invariant.fieldProperty (J : Invariant) (unions : List String) (p : Progress) :
    FieldProperty e aliasName (J.node unions p) :=
  .of_values (fun _ _ _ => J.column) J.stored (fun hl hr => (J.hereditary ..).binary.mpr ⟨hl, hr⟩)
    (fun hn hns => (J.hereditary ..).inList.mpr ⟨hn, hns⟩) fun hn => (J.hereditary ..).group.mpr hn

/-- What implies more holds of all assigned nodes. -/
theorem AssignmentPlan.All.imp {Q R : Node → Prop} {p : AssignmentPlan} (h : p.All Q) (hQ : ∀ n, Q n → R n) :
    p.All R := ⟨fun s hs => hQ _ (h.sets s hs), fun n hn => hQ _ (h.keys n hn)⟩

/-- The members of an assigned object are planned within the invariant if each is. -/
private theorem ends_assignedMembers (h : J.At unions s p) {ms : List (String × Expr)}
    (hm : ∀ m ∈ members ms, m.2.Ends J D unions) :
    Planning.Ends J D s p (assignedMembers e ms) fun q sets => ∀ s ∈ sets, J.node unions q s.2 := by
  induction ms generalizing p with
  | nil => exact .pure h nofun
  | cons m rest ih =>
    obtain ⟨member, value⟩ := m
    obtain ⟨hvalue, hrest⟩ := List.forall_mem_cons.mp hm
    unfold assignedMembers
    refine (Ends.ofExcept (Q := fun _ _ => True) h fun _ _ => trivial).bind h fun h₁ _ _ => ?_
    refine (Lowering.ends_assigned h₁ hvalue).bind h₁ fun h₂ _ hn => ?_
    exact (ih h₂ hrest).bind h₂ fun h₃ hle₃ hsets => .pure h₃ (List.forall_mem_cons.mpr
      ⟨J.node_later hle₃ hn, hsets⟩)

/-- The assignments of a lambda are planned within the invariant if its body is. -/
private theorem ends_lambdaAssignments (h : J.At unions s p) (hb : ∀ b ∈ bindings, J.Binds unions p b) {l : Lambda}
    (hl : l.body.Ends J D unions) :
    Planning.Ends J D s p (lambdaAssignments e bindings l) fun q sets => ∀ s ∈ sets, J.node unions q s.2 := by
  unfold lambdaAssignments
  refine .withFrame ?_
  split
  · next ms hms =>
    exact ends_assignedMembers (h.under hb l.params) (hl.members ms (Expr.eq_object hms))
  · exact .fail

/-- The assignment of a field is planned within the invariant if its value is. -/
private theorem ends_fieldAssignment (h : J.At unions s p) (hb : ∀ b ∈ bindings, J.Binds unions p b) {value : Expr}
    (hv : value.toLambda.body.Ends J D unions) (member : String) :
    Planning.Ends J D s p (fieldAssignment e u bindings member value) (J.node unions) := by
  have planned {q : Progress} (h : J.At unions s q) (hle : p.Before q) :
      Planning.Ends J D s q
        (withFrame value.toLambda.params bindings (Lowering.assigned (operand value.toLambda.body)))
        (J.node unions) :=
    .withFrame (Lowering.ends_assigned (h.under (fun b hmem => (hb b hmem).later hle) _) hv.operand)
  unfold fieldAssignment
  refine (Ends.ofExcept (Q := fun _ _ => True) h fun _ _ => trivial).bind h fun h₁ hle₁ _ => ?_
  dsimp only
  split
  · exact .ofExcept h₁ fun _ => J.stored
  · exact planned h₁ hle₁

/-- An assignment is planned within the invariant if its passages are allowed. -/
private theorem ends_planAssignment (h : J.At [] s p) (hb : ∀ b ∈ bindings, J.Binds [] p b) {plan : AssignmentPlan}
    (hp : plan.All (J.node [] p)) {a : Assignment} (ha : ∀ x ∈ a.passages, J.site x) :
    Planning.Ends J True s p (planAssignment e u aliasName bindings plan a) fun q plan =>
      plan.All (J.node [] q) := by
  cases a with
  | lambda l =>
    refine (ends_lambdaAssignments h hb (l.body.ends ha fun _ => trivial)).bind h fun h₁ hle₁ hsets => .pure h₁ ?_
    exact (hp.imp fun _ => J.node_later hle₁).setAll hsets
  | field member value =>
    have hv : value.toLambda.body.Ends J True [] := by
      refine Expr.ends _ (fun x hx => ha x ?_) fun _ => trivial
      rwa [passages_toLambda] at hx
    exact (ends_fieldAssignment h hb hv member).bind h fun h₁ hle₁ hn =>
      .pure h₁ ((hp.imp fun _ => J.node_later hle₁).set hn member)
  | value member v =>
    refine (Ends.ofExcept (Q := fun _ _ => True) h fun _ _ => trivial).bind h fun h₁ hle₁ _ => ?_
    refine (Ends.ofExcept (Q := J.node []) h₁ fun _ => J.stored).bind h₁ fun h₂ hle₂ hn => .pure h₂ ?_
    exact (hp.imp fun _ => J.node_later (hle₁.trans hle₂)).set hn member
  | object r => exact .ofExcept h fun plan hplan => (J.fieldProperty [] p).planObject hp hplan

/-- Assignments are planned within the invariant if their passages are allowed. -/
private theorem ends_planAssignments (h : J.At [] s p) (hb : ∀ b ∈ bindings, J.Binds [] p b)
    (hu : ∀ a ∈ u.assignments, ∀ x ∈ a.passages, J.site x) :
    Planning.Ends J True s p (planAssignments e u aliasName bindings) fun q plan => plan.All (J.node [] q) := by
  have hall (as : List Assignment) (has : ∀ a ∈ as, ∀ x ∈ a.passages, J.site x) {q : Progress}
      (h : J.At [] s q) (hle : p.Before q) {plan : AssignmentPlan} (hp : plan.All (J.node [] q)) :
      Planning.Ends J True s q (as.foldlM (planAssignment e u aliasName bindings) plan) fun q plan =>
        plan.All (J.node [] q) := by
    induction as generalizing q plan with
    | nil => exact .pure h hp
    | cons a rest ih =>
      rw [List.foldlM_cons]
      obtain ⟨ha, hrest⟩ := List.forall_mem_cons.mp has
      exact (ends_planAssignment h (fun b hmem => (hb b hmem).later hle) hp ha).bind h fun h₁ hle₁ hp =>
        ih hrest h₁ (hle.trans hle₁) hp
  exact hall u.assignments hu h (.refl p) ⟨nofun, nofun⟩

/-! ## Changes -/

/-- The target of a change is planned within the invariant. -/
private theorem ends_planTarget (h : J.At unions s p) (entity : String) :
    Planning.Ends J D s p (planTarget entity aliasName) fun q target =>
      ∃ e, target = (e, ⟨entity, aliasName, .entity e⟩) ∧ J.rows unions q (.named e.table e.schema) := by
  unfold planTarget
  refine .read_bind ?_
  rw [h.compiler]
  exact (Ends.ofExcept (Q := fun _ e => J.compiler.model.entity entity = .ok e) h fun e he => he).bind h
    fun h₁ _ he => .pure h₁ ⟨_, rfl, J.entity he⟩

/-- An update is planned within the invariant.

**Proof sketch.** The alias of the target, the joins, the assignments, the filters and the keys are planned one after
the other. What was allowed before stays allowed later, so that the plan as a whole is made of allowed parts. -/
theorem ends_planUpdate (h : J.At [] s p) (hs : s.inProjection = false)
    (hu : ∀ x ∈ updatePassages u, J.site x) :
    Planning.Ends J True s p (planUpdate u) fun q plan => plan.PartsHave (J.node [] q) (J.rows [] q) := by
  rw [updatePassages, List.forall_mem_append, List.forall_mem_append] at hu
  obtain ⟨⟨hjoins, hassignments⟩, hfilters⟩ := hu
  unfold planUpdate
  dsimp only
  refine Ends.either (R := fun _ _ => True) h (.pure h trivial) ((Ends.nextAlias h).map h fun _ _ _ _ => trivial)
    fun {aliasName _} h₁ _ _ => ?_
  refine (ends_planTarget h₁ u.entity).bind h₁ fun h₂ _ htarget => ?_
  obtain ⟨e, rfl, hrows⟩ := htarget
  refine (ends_planJoins h₂ hs (joins_end u.joins hjoins)).bind h₂ fun {r _} h₃ hle₃ hjoined => ?_
  obtain ⟨joined, tables⟩ := r
  refine (ends_planAssignments h₃ (binds_tables tables) fun a ha x hx =>
    hassignments x (List.mem_flatMap_of_mem ha hx)).bind h₃ fun h₄ hle₄ hassigned => .orFail fun _ => ?_
  refine (ends_planTests h₄ (tests_end u.filters hfilters) fun _ => binds_tables tables).bind h₄
    fun h₅ hle₅ htests => ?_
  refine (Ends.ofExcept (Q := fun q (n? : Option Node) => ∀ n, n? = some n → J.node [] q n) h₅ fun _ hk =>
    (J.fieldProperty [] _).keyRowsTest hk).bind h₅ fun h₆ hle₆ hkey => ?_
  refine (Ends.ofExcept (Q := fun q (sets : List (Node × Node)) => ∀ s ∈ sets, J.node [] q s.1 ∧ J.node [] q s.2)
    h₆ fun _ hsets => (J.fieldProperty [] _).assignedColumns
      (fun s hmem => J.node_later (hle₅.trans hle₆) (hassigned.sets s hmem)) hsets).bind h₆
    fun h₇ hle₇ hsets => .pure h₇ ⟨?_, ?_, hsets, fun n hn => ?_⟩
  · exact J.rows_later ((((hle₃.trans hle₄).trans hle₅).trans hle₆).trans hle₇) hrows
  · have hle := ((hle₄.trans hle₅).trans hle₆).trans hle₇
    exact fun j hj => ⟨J.rows_later hle (hjoined j hj).1, J.node_later hle (hjoined j hj).2⟩
  · -- the condition joins the filters, the keys of objects and the rows with keys
    refine (J.hereditary ..).compositional.conjunction (fun m hm => ?_) hn
    simp only [List.mem_append, Option.mem_toList] at hm
    obtain (hm | hm) | hm := hm
    · exact J.node_later (hle₆.trans hle₇) (htests m hm)
    · exact J.node_later ((hle₅.trans hle₆).trans hle₇) (hassigned.keys m hm)
    · exact J.node_later hle₇ (hkey m hm)

/-- A deletion is planned within the invariant. -/
theorem ends_planDelete (h : J.At [] s p) {d : Delete} (hd : ∀ x ∈ deletePassages d, J.site x) :
    Planning.Ends J True s p (planDelete d) fun q plan => plan.PartsHave (J.node [] q) (J.rows [] q) := by
  unfold planDelete
  refine (ends_planTarget h d.entity).bind h fun h₁ _ htarget => ?_
  obtain ⟨e, rfl, hrows⟩ := htarget
  refine (ends_planTests h₁ (tests_end d.filters hd) fun _ => binds_tables [_]).bind h₁ fun h₂ hle₂ htests => ?_
  refine (Ends.ofExcept (Q := fun q (n? : Option Node) => ∀ n, n? = some n → J.node [] q n) h₂ fun _ hk =>
    (J.fieldProperty [] _).keyRowsTest hk).bind h₂ fun h₃ hle₃ hkey => .pure h₃ ⟨?_, nofun, nofun, fun n hn => ?_⟩
  · exact J.rows_later (hle₂.trans hle₃) hrows
  · refine (J.hereditary ..).compositional.conjunction (fun m hm => ?_) hn
    obtain hm | hm := List.mem_append.mp hm
    · exact J.node_later hle₃ (htests m hm)
    · exact hkey m (Option.mem_toList.mp hm)

/-- The statement for a row of a bulk update. -/
theorem ends_planRow (h : J.At [] s p) (hu : ∀ a ∈ u.assignments, ∀ x ∈ a.passages, J.site x) (index : Nat)
    (r : Record) :
    Planning.Ends J True s p (planRow u index r) fun q plan => plan.PartsHave (J.node [] q) (J.rows [] q) := by
  unfold planRow
  refine (ends_planTarget h u.entity).bind h fun h₁ _ htarget => ?_
  obtain ⟨e, rfl, hrows⟩ := htarget
  refine (ends_planAssignments h₁ (binds_tables [_]) hu).bind h₁ fun h₂ hle₂ huniform => ?_
  refine (Ends.ofExcept (Q := fun q (sets : List (String × Node)) => ∀ s ∈ sets, J.node [] q s.2) h₂ fun _ hsets =>
    (J.fieldProperty [] _ : FieldProperty e none _).recordAssignments (fun _ => .row _) hsets).bind h₂
      fun h₃ hle₃ hown => .orFail fun _ => ?_
  refine (Ends.ofExcept (Q := fun q (ns : List Node) => ∀ n ∈ ns, J.node [] q n) h₃ fun _ hk =>
    (J.fieldProperty [] _).keyTests (fun _ => .rowKey _) hk).bind h₃ fun h₄ hle₄ hkeys => ?_
  refine (Ends.ofExcept (Q := fun q (sets : List (Node × Node)) => ∀ s ∈ sets, J.node [] q s.1 ∧ J.node [] q s.2)
    h₄ fun _ hsets => (J.fieldProperty [] _).assignedColumns (fun s hmem => ?_) hsets).bind h₄
    fun h₅ hle₅ hsets => .pure h₅ ⟨?_, nofun, hsets, fun n hn => ?_⟩
  · obtain hmem | hmem := List.mem_append.mp hmem
    · exact J.node_later hle₄ (hown s hmem)
    · exact J.node_later (hle₃.trans hle₄) (huniform.sets s hmem)
  · exact J.rows_later (((hle₂.trans hle₃).trans hle₄).trans hle₅) hrows
  · exact (J.hereditary ..).compositional.conjunction (fun m hm => J.node_later hle₅ (hkeys m hm)) hn

end LambdaSql
