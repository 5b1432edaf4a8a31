import LambdaSql.Proofs.Binding.Straight

/-!
# Records under other names

A record changes a row in two ways: as an object, and as one of the rows of a bulk update. The statements are planned
alike but for the names of their placeholders, and whether they can be planned at all has nothing to do with names.

## Main results

* `recordAssignments_congr` - what a record assigns depends on the members that are to be assigned only.
* `RecordChange.renamed` - names do not matter to whether a record can be planned.
* `Compiler.exists_sketchPlan_planRow` - nor to whether a row can.
-/

namespace LambdaSql

open Planning

variable {d : Dialect} {e : Entity} {u : Update} {r : Record} {nameOf nameOf' keyNameOf keyNameOf' : String → String}

/-! ## Names do not matter -/

/-- Whether a value can be stored does not depend on its name. -/
private theorem exists_stored {f : Field} {name : String} {v : Value} {n : Node} (h : Node.stored f name v = .ok n)
    (name' : String) : ∃ n', Node.stored f name' v = .ok n' := by
  unfold Node.stored at h ⊢
  split at h
  · next hnull => exact ⟨_, if_pos hnull⟩
  · next hnull =>
    obtain ⟨⟨value, native⟩, hvalue, -⟩ := Except.bind_eq_ok.mp h
    rw [if_neg hnull, hvalue]
    exact ⟨_, rfl⟩

/-- What a record assigns does not depend on the names under which values are bound. -/
theorem exists_recordAssignments {members : List (String × Value)} {sets : List (String × Node)}
    (h : recordAssignments e u nameOf members = .ok sets) (nameOf' : String → String) :
    ∃ sets', recordAssignments e u nameOf' members = .ok sets' ∧ sets'.map Prod.fst = sets.map Prod.fst := by
  induction members generalizing sets with
  | nil =>
    cases h
    exact ⟨[], rfl, rfl⟩
  | cons m rest ih =>
    obtain ⟨member, v⟩ := m
    obtain ⟨f?, hf, h⟩ := Except.bind_eq_ok.mp h
    unfold recordAssignments
    rw [hf]
    cases f? with
    | none => exact ih h
    | some f =>
      simp only [Except.bind_eq_ok, Except.pure_eq_ok] at h
      obtain ⟨n, hn, sets, hsets, rfl⟩ := h
      obtain ⟨n', hn'⟩ := exists_stored hn (nameOf' member)
      obtain ⟨sets', hsets', hnames⟩ := ih hsets
      refine ⟨(member, n') :: sets', Except.bind_eq_ok.mpr ⟨some f, rfl, ?_⟩, congrArg (member :: ·) hnames⟩
      simp only [Except.bind_eq_ok, Except.pure_eq_ok]
      exact ⟨n', hn', sets', hsets', rfl⟩

/-- Whether a record has a key does not depend on the names under which values are bound. -/
theorem exists_keyTests {aliasName : Option String} {tests : List Node}
    (h : keyTests e aliasName nameOf r = .ok tests) (nameOf' : String → String) :
    ∃ tests', keyTests e aliasName nameOf' r = .ok tests' := by
  refine Except.exists_mapM_eq_ok.mpr fun key hkey => ?_
  obtain ⟨test, htest⟩ := Except.exists_mapM_eq_ok.mp ⟨tests, h⟩ key hkey
  simp only [Except.bind_eq_ok, Except.pure_eq_ok] at htest ⊢
  obtain ⟨f, hf, v, hv, n, hn, -⟩ := htest
  obtain ⟨n', hn'⟩ := exists_stored hn (nameOf' key)
  exact ⟨_, f, hf, v, hv, n', hn', rfl⟩

/-- The columns of members do not depend on what is assigned to them. -/
theorem exists_assignedColumns {target : TableBinding} {sets sets' : List (String × Node)}
    {assigned : List (Node × Node)} (h : assignedColumns target sets = .ok assigned)
    (hnames : sets'.map Prod.fst = sets.map Prod.fst) : ∃ assigned', assignedColumns target sets' = .ok assigned' := by
  have columns {sets : List (String × Node)} :
      (∃ assigned, assignedColumns target sets = .ok assigned) ↔
        ∀ member ∈ sets.map Prod.fst, ∃ column, target.column member = .ok column := by
    rw [List.forall_mem_map]
    refine Except.exists_mapM_eq_ok.trans (forall₂_congr fun s _ => ?_)
    simp only [Except.bind_eq_ok, Except.pure_eq_ok]
    exact ⟨fun ⟨_, column, hcolumn, _⟩ => ⟨column, hcolumn⟩, fun ⟨column, hcolumn⟩ => ⟨_, column, hcolumn, rfl⟩⟩
  rw [columns, hnames, ← columns]
  exact ⟨assigned, h⟩

/-- What a record assigns depends on the members that are to be assigned only. -/
theorem recordAssignments_congr {w : Update} (h : u.includes = w.includes) (nameOf : String → String)
    (members : List (String × Value)) :
    recordAssignments e u nameOf members = recordAssignments e w nameOf members := by
  induction members with
  | nil => rfl
  | cons m rest ih => simp only [recordAssignments, assignedField, h, ih]

/-! ## Changes by a record -/

/-- **Names do not matter** to whether a change by a record can be planned.

**Proof sketch.** Assignments, tests and columns are found by members, never by the names under which the values are
bound. -/
theorem RecordChange.renamed {uniform : List (String × Node)} {change : ChangePlan}
    (h : RecordChange e u uniform nameOf keyNameOf r change) (nameOf' keyNameOf' : String → String) :
    ∃ change', RecordChange e u uniform nameOf' keyNameOf' r change' := by
  obtain ⟨sets, tests, assigned, hsets, hne, htests, hassigned, rfl⟩ := h
  obtain ⟨sets', hsets', hnames⟩ := exists_recordAssignments hsets nameOf'
  obtain ⟨tests', htests'⟩ := exists_keyTests htests keyNameOf'
  have hall : (sets' ++ uniform).map Prod.fst = (sets ++ uniform).map Prod.fst := by
    rw [List.map_append, hnames, List.map_append]
  obtain ⟨assigned', hassigned'⟩ := exists_assignedColumns hassigned hall
  refine ⟨_, sets', tests', assigned', hsets', ?_, htests', hassigned', rfl⟩
  intro hnil
  rw [hnil] at hall
  exact hne (List.map_eq_nil_iff.mp hall.symm)

/-- Whether the statement for a row can be planned does not depend on its position. -/
theorem Compiler.exists_sketchPlan_planRow {c : Compiler} {index : Nat} {sk : Sketch}
    (h : c.sketchPlan (planRow u index r) (sketchUpdate c.dialect) = .ok sk) (index' : Nat) :
    ∃ sk', c.sketchPlan (planRow u index' r) (sketchUpdate c.dialect) = .ok sk' := by
  obtain ⟨⟨change, ctes⟩, hrun, -⟩ := Except.bind_eq_ok.mp h
  obtain ⟨p', hgives, rfl⟩ := gives_of_run hrun
  obtain ⟨e, uniform, he, hassigned, hchange⟩ := gives_planRow.mp hgives
  obtain ⟨change', hchange'⟩ := hchange.renamed (· ++ toString index') fun key => "k" ++ key ++ toString index'
  exact ⟨_, Except.bind_eq_ok.mpr ⟨_, run_of_gives (gives_planRow.mpr ⟨e, uniform, he, hassigned, hchange'⟩), rfl⟩⟩

end LambdaSql
