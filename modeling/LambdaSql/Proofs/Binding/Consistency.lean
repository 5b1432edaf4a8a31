import LambdaSql.Proofs.Binding.Records
import LambdaSql.Proofs.Binding.Visible

/-!
# Bulk updates that compile

The placeholders of a bulk update are named for members and positions, with nothing between the two. Two of them that
are meant to be different may have one name, and then the update does not compile unless they have one value. This is
all that can go wrong: if each row alone compiles, all rows compile if and only if what is bound under one name is the
same value.

## Main definitions

* `Sketch.fixed` - the values of a text that are bound under fixed names.
* `Consistent` - the values that are bound under one name are the same.
* `Parameters.Holds` - what is bound, by name.

## Main results

* `Parameters.Holds.gives_write` - a text with fixed names is written if and only if it is consistent.
* `Compiler.bulk_iff_consistent` - bulk updates of rows that compile alone.
-/

namespace LambdaSql

open Planning

/-! ## Values under names -/

/-- The values of a text that are bound under fixed names, in order. -/
def Sketch.fixed (sk : Sketch) : List (String × Value) :=
  sk.filterMap fun
    | .value (some name) v _ => some (name, v)
    | _ => none

/-- The values that are bound under one name are the same. -/
def Consistent (bindings : List (String × Value)) : Prop :=
  bindings.Pairwise fun a b => a.1 = b.1 → (a.2 == b.2) = true

instance (bindings : List (String × Value)) : Decidable (Consistent bindings) :=
  inferInstanceAs (Decidable (List.Pairwise _ _))

/-- A value more is to be the same as the first one that is bound under its name. -/
theorem consistent_append_singleton {bound : List (String × Value)} {name : String} {v : Value} :
    Consistent (bound ++ [(name, v)]) ↔
      Consistent bound ∧ ∀ w, bound.lookup name = some w → (w == v) = true := by
  simp only [Consistent, List.pairwise_append, List.pairwise_singleton, true_and, List.mem_singleton, forall_eq]
  refine and_congr_right fun hbound => ⟨fun h w hw => ?_, fun h a ha hname => ?_⟩
  · obtain ⟨before, later, rfl, -⟩ := List.lookup_eq_some_iff.mp hw
    exact h (name, w) (by simp) rfl
  · obtain ⟨w, hw⟩ : ∃ w, bound.lookup name = some w := by
      rw [← Option.isSome_iff_exists, List.lookup_isSome_iff]
      exact ⟨a, ha, beq_iff_eq.mpr hname.symm⟩
    obtain ⟨before, later, rfl, hbefore⟩ := List.lookup_eq_some_iff.mp hw
    obtain ha | ha := List.mem_append.mp ha
    · exact absurd hname.symm (bne_iff_ne.mp (hbefore a ha))
    · obtain rfl | ha := List.mem_cons.mp ha
      · exact h w hw
      · have hsame := (List.pairwise_cons.mp (List.pairwise_append.mp hbound).2.1).1 a ha hname.symm
        exact Value.beq_trans (Value.beq_symm hsame) (h w hw)

/-! ## Parameters and what they hold -/

namespace Parameters

variable {ps qs own : Parameters} {bound : List (String × Value)} {name token : String} {v : Value} {native : NativeType}

/-- What is bound outside of batches, by name: the placeholder of a name has the value that was first bound under it, or
the same value once more in a statement within others. -/
structure Holds (ps : Parameters) (bound : List (String × Value)) : Prop where
  statement : ps.statement = none
  visible : ∀ name, Option.Rel (fun p v => p.value.Agrees v) (ps.visible? (ps.token name)) (bound.lookup name)
  vouched : ps.Vouched

/-- A value is not refused for a name if it is equal to the one that is bound there, if any is. -/
private theorem agrees?_eq (h : ps.Holds bound) : ps.agrees? (ps.token name) v ≠ some false ↔
    ∀ w, bound.lookup name = some w → (w == v) = true := by
  unfold agrees?
  have hvisible := h.visible name
  revert hvisible
  generalize ps.visible? (ps.token name) = p?
  generalize bound.lookup name = w?
  rintro (_ | _)
  · next p w hagrees =>
    simp only [Option.map_some, ne_eq, Option.some.injEq, Bool.not_eq_false, forall_eq']
    obtain rfl | hsame := hagrees
    · rfl
    · exact ⟨fun h => Value.beq_trans (Value.beq_symm hsame) h, fun h => Value.beq_trans hsame h⟩
  · simp

/-- A fixed placeholder can be bound if the value is the same as the first one that is bound under its name. -/
theorem Holds.bind_iff (h : ps.Holds bound) (native : NativeType) :
    (∃ token qs, ps.bind name v native = .ok (token, qs)) ↔
      ∀ w, bound.lookup name = some w → (w == v) = true := by
  rw [← agrees?_eq h, ps.bind_unbatched h.statement]
  split <;> simp_all

/-- A value more is held. -/
theorem Holds.bind (h : ps.Holds bound) (hbind : ps.bind name v native = .ok (token, qs)) :
    qs.Holds (bound ++ [(name, v)]) ∧ qs.outer = ps.outer := by
  have hagrees : ps.agrees? (ps.token name) v ≠ some false := (agrees?_eq h).mpr ((h.bind_iff native).mp ⟨token, qs, hbind⟩)
  rw [ps.bind_unbatched h.statement, if_neg hagrees] at hbind
  cases hbind
  obtain ⟨houter, hstatement, -⟩ := ps.pushNew_frame (ps.token name) v native
  refine ⟨⟨hstatement.trans h.statement, fun other => ?_, h.vouched.pushNew hagrees⟩, houter⟩
  have hextends : ps.Extends (ps.pushNew (ps.token name) v native) := extends_pushNew ..
  rw [hextends.token_eq, List.lookup_append]
  by_cases hother : other = name
  · subst hother
    obtain ⟨p, hp, hvalue⟩ := visible?_pushNew_self native hagrees
    rw [hp]
    cases hlookup : bound.lookup other with
    | none => simpa using hvalue
    | some w => exact .some (hvalue.trans (.inr (Value.beq_symm ((agrees?_eq h).mp hagrees w hlookup))))
  · rw [visible?_pushNew_of_ne fun heq => hother (ps.token_injective heq)]
    have hlookup : List.lookup other [(name, v)] = none := by simp [List.lookup, beq_eq_false_iff_ne.mpr hother]
    rw [hlookup, Option.or_none]
    exact h.visible other

/-- What a text binds is held. -/
theorem Holds.write (h : ps.Holds bound) {sk : Sketch} (hsk : sk.IsFixed) {p : Phrase}
    (hwrite : sk.write.Gives ps p qs) : qs.Holds (bound ++ sk.fixed) ∧ qs.outer = ps.outer := by
  induction sk, hsk using Sketch.IsFixed.induction generalizing ps bound p with
  | nil =>
    obtain ⟨-, rfl⟩ := Sketch.gives_write_nil.mp hwrite
    exact ⟨(List.append_nil bound).symm ▸ h, rfl⟩
  | text s rest _ ih =>
    obtain ⟨q, hq, -⟩ := Sketch.gives_write_text.mp hwrite
    exact ih h hq
  | value name v native rest _ ih =>
    obtain ⟨token, rs, q, hbind, hq, -⟩ := Sketch.gives_write_value.mp hwrite
    obtain ⟨hrs, houter⟩ := h.bind hbind
    obtain ⟨hqs, houter'⟩ := ih hrs hq
    exact ⟨by simpa [Sketch.fixed] using hqs, houter'.trans houter⟩

/-- **A text with fixed names is written** if and only if its values are consistent with those before.

**Proof sketch.** By induction on the text. A value is bound if and only if it is consistent with what its name has
had, and what is bound then is what was bound before with the value after it, to which the rest applies. -/
theorem Holds.gives_write (h : ps.Holds bound) (hbound : Consistent bound) {sk : Sketch} (hsk : sk.IsFixed) :
    (∃ p qs, sk.write.Gives ps p qs) ↔ Consistent (bound ++ sk.fixed) := by
  induction sk, hsk using Sketch.IsFixed.induction generalizing ps bound with
  | nil =>
    simp only [Sketch.gives_write_nil, Sketch.fixed, List.filterMap_nil, List.append_nil]
    exact ⟨fun _ => hbound, fun _ => ⟨_, _, rfl, rfl⟩⟩
  | text s rest _ ih =>
    simp only [Sketch.gives_write_text, show Sketch.fixed (.text s :: rest) = Sketch.fixed rest from rfl, ← ih h hbound]
    exact ⟨fun ⟨_, qs, q, hq, _⟩ => ⟨q, qs, hq⟩, fun ⟨q, qs, hq⟩ => ⟨_, qs, q, hq, rfl⟩⟩
  | value name v native rest _ ih =>
    have hfixed : bound ++ Sketch.fixed (.value (some name) v native :: rest) =
        (bound ++ [(name, v)]) ++ Sketch.fixed rest := (List.append_cons ..)
    rw [hfixed]
    simp only [Sketch.gives_write_value]
    constructor
    · rintro ⟨_, rs, token, qs, q, hbind, hq, -⟩
      have hmore := consistent_append_singleton.mpr ⟨hbound, (h.bind_iff native).mp ⟨token, qs, hbind⟩⟩
      exact (ih (h.bind hbind).1 hmore).mp ⟨q, rs, hq⟩
    · intro hall
      have hmore : Consistent (bound ++ [(name, v)]) := (List.pairwise_append.mp hall).1
      obtain ⟨token, qs, hbind⟩ := (h.bind_iff native).mpr (consistent_append_singleton.mp hmore).2
      obtain ⟨q, rs, hq⟩ := (ih (h.bind hbind).1 hmore).mpr hall
      exact ⟨_, rs, token, qs, q, hbind, hq, rfl⟩

/-- A statement within others holds what they hold. -/
theorem Holds.child (h : ps.Holds bound) (houter : ps.outer = []) : ps.child.Holds bound := by
  refine ⟨h.statement, fun name => ?_, nofun⟩
  rw [visible?_child houter]
  exact h.visible name

/-- What a statement within others binds is added to them.

**Proof sketch.** The statement's table has been checked against the entries outside all along, so that merging raises
no objection. A name that the statement sees is found with a value that agrees after merging; one that it does not see
is found nowhere. -/
theorem Holds.merge (houter : ps.outer = []) (hps : ps.Holds bound) {more : List (String × Value)}
    (hown : own.Holds (bound ++ more)) (hownOuter : own.outer = ps.child.outer)
    (htoken : ∀ name, own.token name = ps.token name) :
    ∃ qs, ps.mergeChecked own = .ok qs ∧ qs.Holds (bound ++ more) ∧ qs.outer = [] := by
  have hentries : own.outer = ps.entries := hownOuter.trans (outer_child houter)
  have hmerge := mergeChecked_of_vouched hown.vouched hentries
  obtain ⟨hframe, hstatement⟩ := ps.mergeEntries_frame own.entries
  have hmergeOuter : (ps.merge own).outer = [] := hframe.trans houter
  refine ⟨ps.merge own, hmerge, ⟨hstatement.trans hps.statement, fun name => ?_, fun p _ q hq => ?_⟩, hmergeOuter⟩
  · rw [(ps.extends_merge own).token_eq]
    have hheld := hown.visible name
    rw [htoken] at hheld
    cases hown' : own.visible? (ps.token name) with
    | some p =>
      -- the statement sees the name: the merged table shows a value that agrees
      obtain ⟨q, hq, hagrees⟩ := visible?_merge houter hentries hmerge hown'
      rw [hown'] at hheld
      rw [hq]
      generalize (bound ++ more).lookup name = v? at hheld ⊢
      cases hheld with
      | some h => exact .some (hagrees.trans h)
    | none =>
      -- the statement does not see the name, so neither table has it
      rw [visible?, Option.or_eq_none_iff, hentries] at hown'
      have hnone : (ps.merge own).visible? (ps.token name) = none := by
        rw [visible?, hmergeOuter, List.find?_nil, Option.or_none, Option.eq_none_iff_forall_ne_some]
        intro p hp
        obtain hold | ⟨-, r, hr, -⟩ := get?_merge hp
        · cases hown'.2.symm.trans hold
        · cases hown'.1.symm.trans hr
      rw [visible?, hentries, hown'.1, Option.none_or, hown'.2] at hheld
      rw [hnone]
      exact hheld
  · rw [hmergeOuter] at hq
    cases hq

end Parameters

/-! ## Rows -/

namespace Compiler

variable {c : Compiler} {u : Update} {index : Nat} {r : Record} {sk : Sketch} {ps ps' : Parameters} {s : Compiled}
  {bound : List (String × Value)}

/-- What a row binds is held. -/
theorem holds_emitRow (hu : ∀ a ∈ u.assignments, a.IsStored u.isBulk) (houter : ps.outer = []) (h : ps.Holds bound)
    (hplan : c.sketchPlan (planRow u index r) (sketchUpdate c.dialect) = .ok sk)
    (hrow : (c.emitRow u index r).Gives ps s ps') : ps'.Holds (bound ++ sk.fixed) ∧ ps'.outer = [] := by
  obtain ⟨sk', hplan', hwrite, -, hmerge⟩ := (gives_straightRow hu).mp hrow
  cases hplan.symm.trans hplan'
  obtain ⟨hown, hownOuter⟩ := (h.child houter).write (isFixed_row hu hplan) hwrite
  obtain ⟨w, hw, -⟩ := Sketch.written_write hwrite
  obtain ⟨qs, hqs, hholds⟩ := h.merge houter hown hownOuter hw.grows.token_eq
  cases hmerge.symm.trans hqs
  exact hholds

/-- A row that can be planned is written if and only if its values are consistent with those before. -/
theorem emitRow_iff (hu : ∀ a ∈ u.assignments, a.IsStored u.isBulk) (houter : ps.outer = []) (h : ps.Holds bound)
    (hbound : Consistent bound) (hplan : c.sketchPlan (planRow u index r) (sketchUpdate c.dialect) = .ok sk) :
    (∃ s ps', (c.emitRow u index r).Gives ps s ps') ↔ Consistent (bound ++ sk.fixed) := by
  have hfixed := isFixed_row hu hplan
  rw [← (h.child houter).gives_write hbound hfixed]
  constructor
  · rintro ⟨s, ps', hrow⟩
    obtain ⟨sk', hplan', hwrite, -⟩ := (gives_straightRow hu).mp hrow
    cases hplan.symm.trans hplan'
    exact ⟨_, _, hwrite⟩
  · rintro ⟨p, own, hwrite⟩
    obtain ⟨hown, hownOuter⟩ := (h.child houter).write hfixed hwrite
    obtain ⟨w, hw, -⟩ := Sketch.written_write hwrite
    obtain ⟨qs, hqs, -⟩ := h.merge houter hown hownOuter hw.grows.token_eq
    exact ⟨{ phrase := p, parameters := own }, qs, (gives_straightRow hu).mpr ⟨sk, hplan, hwrite, rfl, hqs⟩⟩

/-- **Rows that can be planned** are written if and only if all their values are consistent.

**Proof sketch.** Induction on the rows, for any parameters that hold what has been bound. A row is written if and
only if its values agree with each other and with those, and afterwards the parameters hold its values as well. -/
theorem emitRows_iff (hu : ∀ a ∈ u.assignments, a.IsStored u.isBulk) {rows : List (Record × Nat)} {sks : List Sketch}
    (hplans : List.Forall₂ (fun row sk => c.sketchPlan (planRow u row.2 row.1) (sketchUpdate c.dialect) = .ok sk) rows sks)
    (houter : ps.outer = []) (h : ps.Holds bound) (hbound : Consistent bound) :
    (∃ ss ps', Emission.Gives (rows.mapM fun (r, i) => c.emitRow u i r) ps ss ps') ↔
      Consistent (bound ++ sks.flatMap Sketch.fixed) := by
  induction hplans generalizing ps bound with
  | nil =>
    simp only [List.mapM_nil, Emission.gives_pure, List.flatMap_nil, List.append_nil]
    exact ⟨fun _ => hbound, fun _ => ⟨_, _, rfl, rfl⟩⟩
  | @cons row sk rows sks hplan _ ih =>
    simp only [List.mapM_cons, Emission.gives_bind, Emission.gives_pure]
    rw [List.flatMap_cons, ← List.append_assoc]
    constructor
    · rintro ⟨_, _, s, qs, hrow, ss, rs, hrows, -⟩
      have hmore := (emitRow_iff hu houter h hbound hplan).mp ⟨s, qs, hrow⟩
      obtain ⟨hqs, hqsOuter⟩ := holds_emitRow hu houter h hplan hrow
      exact (ih hqsOuter hqs hmore).mp ⟨ss, rs, hrows⟩
    · intro hall
      have hmore : Consistent (bound ++ sk.fixed) := (List.pairwise_append.mp hall).1
      obtain ⟨s, qs, hrow⟩ := (emitRow_iff hu houter h hbound hplan).mpr hmore
      obtain ⟨hqs, hqsOuter⟩ := holds_emitRow hu houter h hplan hrow
      obtain ⟨ss, rs, hrows⟩ := (ih hqsOuter hqs hmore).mpr hall
      exact ⟨_, _, s, qs, hrow, ss, rs, hrows, rfl, rfl⟩

end Compiler

/-! ## Bulk updates -/

/-- The rows of a bulk update have nothing to do with how one of them is planned. -/
theorem planRow_rows {u : Update} (hbulk : u.isBulk = true) (rows : List Record) :
    planRow { u with rows := some rows } = planRow u := by
  have hassignment (e : Entity) (bindings : List Binding) (plan : AssignmentPlan) (a : Assignment) :
      planAssignment e { u with rows := some rows } none bindings plan a = planAssignment e u none bindings plan a := by
    cases a with
    | lambda | value => rfl
    | field member value => simp only [planAssignment, fieldAssignment, hbulk, show
        ({ u with rows := some rows } : Update).isBulk = true from rfl]
    | object r =>
      simp only [planAssignment, planObject, recordAssignments_congr (u := { u with rows := some rows }) (w := u) rfl]
  have hassignments (e : Entity) (bindings : List Binding) :
      planAssignments e { u with rows := some rows } none bindings = planAssignments e u none bindings := by
    unfold planAssignments
    congr 1
    funext plan a
    exact hassignment e bindings plan a
  funext index r
  simp only [planRow, hassignments, recordAssignments_congr (u := { u with rows := some rows }) (w := u) rfl]

/-- **A bulk update of rows that compile alone** compiles if and only if the values are the same that its rows bind under
one name. A row at position `i` binds the value of a member `m` under `m` followed by `i` and that of a key `k` under
`"k"` and `k` followed by `i`, and what is assigned in all rows is bound under the name of its member.

**Proof sketch.** The statement of each row is straight, so compiling it binds the values of its sketch in turn, and
fails only where an entry of the name has another value. Induction on the rows: after some of them the entries are
those of their sketches, and the next row fits if and only if it agrees with them. -/
theorem Compiler.bulk_iff_consistent {c : Compiler} {u : Update} {rows : List Record} (hrows : u.rows = some rows)
    (hne : rows ≠ []) (hu : ∀ a ∈ u.assignments, a.given?.isSome)
    (halone : ∀ r ∈ rows, ∃ cu, c.update { u with rows := some [r] } = .ok cu) :
    ∃ e sks, c.model.entity u.entity = .ok e ∧
      (rows.zipIdx.mapM fun row => rowSketch c.dialect e u row.2 row.1) = .ok sks ∧
        ((∃ cu, c.update u = .ok cu) ↔ Consistent (sks.flatMap Sketch.fixed)) := by
  have hbulk : u.isBulk = true := by rw [Update.isBulk, hrows]; rfl
  have hstored : ∀ a ∈ u.assignments, a.IsStored u.isBulk :=
    fun a ha => hbulk ▸ Assignment.isStored_of_given (hu a ha)
  have hlone {r : Record} (hr : r ∈ rows) : bulkProblem? u rows = none ∧ ∃ e, c.model.entity u.entity = .ok e ∧
      e.keys ≠ [] ∧ ∀ index, ∃ sk, c.sketchPlan (planRow u index r) (sketchUpdate c.dialect) = .ok sk := by
    obtain ⟨cu, hcu⟩ := halone r hr
    obtain ⟨ss, qs, hss, -⟩ := (update_rows rfl).mp hcu
    obtain ⟨hproblem, e, he, hkeys, hss⟩ := gives_emitBulk.mp hss
    rw [List.zipIdx_singleton, List.mapM_cons, Emission.gives_bind] at hss
    obtain ⟨s, _, hrow, -⟩ := hss
    obtain ⟨sk, hplan, -⟩ := (gives_straightRow (u := { u with rows := some [r] })
      fun a ha => Assignment.isStored_of_given (hu a ha)).mp hrow
    rw [planRow_rows hbulk] at hplan
    refine ⟨?_, e, he, hkeys, exists_sketchPlan_planRow hplan⟩
    have hempty : rows.isEmpty = false := List.isEmpty_eq_false_iff.mpr hne
    unfold bulkProblem? at hproblem ⊢
    rw [hempty]
    exact hproblem
  obtain ⟨r₀, hr₀⟩ := List.exists_mem_of_ne_nil rows hne
  obtain ⟨hproblem, e, he, hkeys, -⟩ := hlone hr₀
  obtain ⟨sks, hsks⟩ : ∃ sks, (rows.zipIdx.mapM fun row =>
      c.sketchPlan (planRow u row.2 row.1) (sketchUpdate c.dialect)) = .ok sks := by
    refine Except.exists_mapM_eq_ok.mpr fun row hrow => ?_
    obtain ⟨-, -, -, -, hplan⟩ := hlone (List.fst_mem_of_mem_zipIdx hrow)
    exact hplan row.2
  refine ⟨e, sks, he, ?_, ?_⟩
  · rw [Except.mapM_eq_ok] at hsks ⊢
    exact hsks.imp fun row sk hplan => rowSketch_of_plan hbulk hu he hkeys hplan
  · have hnew : c.newParameters.Holds [] := ⟨rfl, fun _ => .none, List.forall_mem_nil _⟩
    have hiff := emitRows_iff hstored (Except.mapM_eq_ok.mp hsks) rfl hnew .nil
    rw [List.nil_append] at hiff
    rw [← hiff]
    constructor
    · rintro ⟨cu, hcu⟩
      obtain ⟨ss, qs, hss, -⟩ := (update_rows hrows).mp hcu
      obtain ⟨-, _, -, -, hss⟩ := gives_emitBulk.mp hss
      exact ⟨ss, qs, hss⟩
    · rintro ⟨ss, qs, hss⟩
      exact ⟨_, (update_rows hrows).mpr ⟨ss, qs, gives_emitBulk.mpr ⟨hproblem, e, he, hkeys, hss⟩, rfl⟩⟩

/-- A model with an entity in which one member is named as another one with a position behind it. -/
def readings : Compiler where
  model := ⟨[
    { name := "Reading"
      table := "reading"
      fields :=
        [{ member := "Id", column := "id", type := .int32, native := .int32, isKey := true },
          { member := "n", column := "n", type := .int32, native := .int32 },
          { member := "n1", column := "n1", type := .int32, native := .int32 }] }]⟩

/-- Two readings and one value for all. The second row binds `n` under the name under which the value for all is
bound. -/
def twoReadings : Update where
  entity := "Reading"
  assignments := [.value "n1" (.int 5)]
  rows := some [⟨[("Id", .int 1), ("n", .int 7)], by decide⟩, ⟨[("Id", .int 2), ("n", .int 8)], by decide⟩]

/-- Each of the two readings compiles alone. -/
theorem twoReadings_alone : ∀ r ∈ twoReadings.rows.getD [],
    ∃ cu, readings.update { twoReadings with rows := some [r] } = .ok cu :=
  List.forall_mem_cons.mpr ⟨⟨_, rfl⟩, List.forall_mem_singleton.mpr ⟨_, rfl⟩⟩

/-- Rows that agree on what they share are compiled together. -/
theorem twoReadings_consistent :
    (∀ r ∈ twoReadings.rows.getD [], ∃ cu, readings.update { twoReadings with rows := some [r] } = .ok cu) ∧
      ∃ e sks, readings.model.entity "Reading" = .ok e ∧
        ((twoReadings.rows.getD []).zipIdx.mapM fun row => rowSketch readings.dialect e twoReadings row.2 row.1) =
          .ok sks ∧ ((∃ cu, readings.update twoReadings = .ok cu) ↔ Consistent (sks.flatMap Sketch.fixed)) := by
  have hu : ∀ a ∈ twoReadings.assignments, a.given?.isSome := List.forall_mem_singleton.mpr rfl
  have hrows : twoReadings.rows = some (twoReadings.rows.getD []) := rfl
  exact ⟨twoReadings_alone, Compiler.bulk_iff_consistent hrows nofun hu twoReadings_alone⟩

/-- Both readings do not compile together. -/
theorem twoReadings_fail :
    (∀ r ∈ twoReadings.rows.getD [], ∃ cu, readings.update { twoReadings with rows := some [r] } = .ok cu) ∧
      readings.update twoReadings = .error (.error (.placeholderConflict "@n1")) :=
  ⟨twoReadings_alone, rfl⟩

end LambdaSql
