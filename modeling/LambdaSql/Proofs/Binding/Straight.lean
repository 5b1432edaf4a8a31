import LambdaSql.Proofs.Binding.Rows

/-!
# Writing what a sketch tells

A template may write an argument once and repeat what it has written. Where there are no templates, a text is written
straight as its sketch tells, one fragment after the other, so that the sketch is all there is to know of the text and
its parameters. The statements that bind values of fields only are written in this way.

## Main definitions

* `Sketch.write` - writing what a sketch tells.
* `Node.IsStraight`, `ChangePlan.IsStraight` - what is written as its sketch tells.

## Main results

* `ChangePlan.IsStraight.write` - straight updates.
* `Compiler.gives_writeChange`, `Compiler.gives_straightRow` - updates of values, and the statement for a row.
-/

namespace LambdaSql

open Planning

/-! ## Writing a sketch -/

/-- Writing a fragment for what it tells. -/
def Mark.write : Mark → Writing Phrase
  | .text s => return Phrase.ofText s
  | .value name v native => Writing.bind name v native

namespace Sketch

/-- Writing what a sketch tells. -/
def write : Sketch → Writing Phrase
  | [] => return []
  | m :: rest => do
    let p ← m.write
    return p ++ (← write rest)

variable {a b : Sketch}

/-- Nothing is written for an empty sketch. -/
@[simp]
theorem write_nil : write [] = pure [] := rfl

/-- A text is written as it is. -/
@[simp]
theorem write_ofText (s : String) : (ofText s).write = pure (Phrase.ofText s) := by
  simp [ofText, write, Mark.write]

/-- Two sketches in a row are written one after the other. -/
private theorem write_append (a b : Sketch) : (a ++ b).write = do
    let p ← a.write
    return p ++ (← b.write) := by
  induction a with
  | nil => simp
  | cons m rest ih => simp [write, ih, ← List.append_assoc]

/-- A sketch in parentheses is written in parentheses. -/
private theorem write_parenthesised (a : Sketch) : a.parenthesised.write = do return (← a.write).parenthesised := by
  simp [parenthesised, write_append, Phrase.parenthesised]

/-- A sketch is written in parentheses if they are needed. -/
private theorem write_parenthesisedIf (needed : Bool) (a : Sketch) :
    (a.parenthesisedIf needed).write = do return (← a.write).parenthesisedIf needed := by
  cases needed with
  | false => simp [parenthesisedIf, Phrase.parenthesisedIf]
  | true => exact write_parenthesised a

/-- Joined sketches are written one by one and then joined. -/
private theorem write_joined (separator : String) (sks : List Sketch) :
    (joined separator sks).write = do return Phrase.joined separator (← sks.mapM write) := by
  induction sks with
  | nil => simp [joined, Phrase.joined]
  | cons sk rest ih =>
    cases rest with
    | nil => simp [joined, Phrase.joined]
    | cons next rest =>
      rw [joined, write_append, write_append, ih]
      · simp [Phrase.joined]
      · exact List.cons_ne_nil next rest

/-- A clause is written if there is something in it. -/
private theorem write_clause (keyword : String) (n? : Option Sketch) :
    (clause keyword n?).write = do return LambdaSql.clause keyword (← n?.mapM write) := by
  cases n? with
  | none => simp [clause, LambdaSql.clause]
  | some sk => simp [clause, LambdaSql.clause, write_append]

/-- What follows a mark of a fixed sketch is fixed. -/
theorem IsFixed.tail {m : Mark} {rest : Sketch} (h : IsFixed (m :: rest)) : IsFixed rest :=
  fun v native hmem => h v native (List.mem_cons_of_mem _ hmem)

/-- Sketches of fixed names, one fragment after the other. -/
@[elab_as_elim]
theorem IsFixed.induction {motive : (sk : Sketch) → sk.IsFixed → Prop} (nil : ∀ h, motive [] h)
    (text : ∀ s rest h, motive rest (IsFixed.tail h) → motive (.text s :: rest) h)
    (value : ∀ name v native rest h, motive rest (IsFixed.tail h) → motive (.value (some name) v native :: rest) h)
    (sk : Sketch) (h : sk.IsFixed) : motive sk h := by
  induction sk with
  | nil => exact nil h
  | cons m rest ih =>
    cases m with
    | text s => exact text s rest h (ih h.tail)
    | value name v native =>
      cases name with
      | none => exact absurd List.mem_cons_self (h v native)
      | some name => exact value name v native rest h (ih h.tail)

/-- Nothing is written for an empty sketch. -/
theorem gives_write_nil {ps qs : Parameters} {p : Phrase} : (write []).Gives ps p qs ↔ p = [] ∧ qs = ps :=
  Writing.gives_pure

/-- A text is written as it is, and then the rest. -/
theorem gives_write_text {s : String} {rest : Sketch} {ps qs : Parameters} {p : Phrase} :
    (write (.text s :: rest)).Gives ps p qs ↔ ∃ q, (write rest).Gives ps q qs ∧ p = .text s :: q := by
  simp only [write, Mark.write, pure_bind, Writing.gives_bind, Writing.gives_pure]
  constructor
  · rintro ⟨q, _, hq, rfl, rfl⟩
    exact ⟨q, hq, rfl⟩
  · rintro ⟨q, hq, rfl⟩
    exact ⟨q, _, hq, rfl, rfl⟩

/-- A value is bound, and its placeholder is written, and then the rest. -/
theorem gives_write_value {name : String} {v : Value} {native : NativeType} {rest : Sketch} {ps rs : Parameters}
    {p : Phrase} : (write (.value (some name) v native :: rest)).Gives ps p rs ↔
      ∃ token qs q, ps.bind name v native = .ok (token, qs) ∧ (write rest).Gives qs q rs ∧
        p = .placeholder token :: q := by
  simp only [write, Mark.write, Writing.gives_bind, Writing.gives_named, Writing.gives_pure]
  constructor
  · rintro ⟨_, qs, ⟨token, hbind, rfl⟩, q, _, hq, rfl, rfl⟩
    exact ⟨token, qs, q, hbind, hq, rfl⟩
  · rintro ⟨token, qs, q, hbind, hq, rfl⟩
    exact ⟨_, qs, ⟨token, hbind, rfl⟩, q, _, hq, rfl, rfl⟩

/-- What a sketch tells is written for it. -/
theorem written_write {sk : Sketch} {ps qs : Parameters} {p : Phrase} (h : sk.write.Gives ps p qs) :
    Written ps p sk qs := by
  induction sk generalizing ps p with
  | nil =>
    obtain ⟨rfl, rfl⟩ := Writing.gives_pure.mp h
    exact .nil _
  | cons m rest ih =>
    simp only [write, Writing.gives_bind, Writing.gives_pure] at h
    obtain ⟨first, rs, hfirst, later, _, hlater, rfl, rfl⟩ := h
    have hone : Written ps first [m] rs := by
      cases m with
      | text s =>
        obtain ⟨rfl, rfl⟩ := Writing.gives_pure.mp hfirst
        exact .ofText _ s
      | value name v native => exact .bind hfirst
    exact hone.append (ih hlater)

end Sketch

/-! ## Straight nodes -/

section Nodes

variable {d : Dialect} {n l r : Node}

/-- A node is written as its sketch tells. -/
def Node.IsStraight (d : Dialect) (n : Node) : Prop := writeNode d n = (sketchNode d n).write

/-- A binary node of nodes that are written straight is written straight. -/
private theorem straight_binary (hl : l.IsStraight d) (hr : r.IsStraight d) (op : SqlOp) (type : HostType) :
    (Node.binary op l r type).IsStraight d := by
  unfold Node.IsStraight at *
  simp [writeNode, sketchNode, hl, hr, Sketch.write_append, Sketch.write_parenthesisedIf]

/-- The value of a field is written straight. -/
theorem straight_stored {f : Field} {name : String} {v : Value} (h : Node.stored f name v = .ok n) :
    n.IsStraight d := by
  unfold Node.stored at h
  unfold Node.IsStraight
  split at h
  · cases h
    simp [writeNode, sketchNode]
  · obtain ⟨⟨value, native⟩, -, h⟩ := Except.bind_eq_ok.mp h
    cases h
    simp [writeNode, sketchNode, Sketch.write, Mark.write]

/-- Nodes that are written straight are written by their sketches. -/
private theorem writeNodes_straight {ns : List Node} (hns : ∀ n ∈ ns, n.IsStraight d) :
    writeNodes d ns = (sketchNodes d ns).mapM Sketch.write := by
  induction ns with
  | nil => rfl
  | cons n rest ih =>
    obtain ⟨hn, hrest⟩ := List.forall_mem_cons.mp hns
    rw [writeNodes, ih hrest, show writeNode d n = _ from hn, sketchNodes, List.mapM_cons]

/-- A membership among nodes that are written straight is written straight. -/
private theorem straight_inList (hn : n.IsStraight d) {items : List Node} (hitems : ∀ m ∈ items, m.IsStraight d) :
    (Node.inList n items false).IsStraight d := by
  cases items with
  | nil => simp [Node.IsStraight, writeNode, sketchNode]
  | cons m rest =>
    have hlist := writeNodes_straight hitems
    unfold Node.IsStraight at *
    rw [writeNode, sketchNode, hn, hlist]
    · simp [Sketch.write_append, Sketch.write_parenthesisedIf, Sketch.write_joined]
    · exact nofun

/-- The nodes of changes that bind values of fields only are straight. -/
theorem fieldProperty_isStraight (d : Dialect) (e : Entity) (aliasName : Option String) :
    FieldProperty e aliasName (·.IsStraight d) := by
  refine .of_values (fun name _ type => ?_) straight_stored (fun ha hb => straight_binary ha hb ..)
    (fun ha hns => straight_inList ha hns) fun hn => ?_
  · simp [Node.IsStraight, writeNode, sketchNode]
  · unfold Node.IsStraight at *
    simp [writeNode, sketchNode, hn, Sketch.write_parenthesised]

end Nodes

/-! ## Straight changes -/

section Changes

variable {d : Dialect} {p : ChangePlan}

/-- A change is made of straight nodes. -/
def ChangePlan.IsStraight (d : Dialect) (p : ChangePlan) : Prop := p.All (·.IsStraight d)

/-- Assigned columns that are written straight are written by their sketches. -/
private theorem writeSets_straight {sets : List (Node × Node)} (h : ∀ s ∈ sets, s.1.IsStraight d ∧ s.2.IsStraight d) :
    writeSets d sets = (sketchSets d sets).mapM Sketch.write := by
  induction sets with
  | nil => rfl
  | cons s rest ih =>
    obtain ⟨column, value⟩ := s
    obtain ⟨⟨hcolumn, hvalue⟩, hrest⟩ := List.forall_mem_cons.mp h
    unfold Node.IsStraight at hcolumn hvalue
    simp only [writeSets, sketchSets, List.map_cons, List.mapM_cons]
    rw [ih hrest, hcolumn, hvalue]
    simp [Sketch.write_append, sketchSets]

/-- A node that may be missing is written by its sketch, if it is written straight. -/
private theorem writeOption_straight {n? : Option Node} (h : ∀ n, n? = some n → n.IsStraight d) :
    writeOption d n? = (sketchOption d n?).mapM Sketch.write := by
  cases n? with
  | none => rfl
  | some n =>
    rw [writeOption, show writeNode d n = _ from h n rfl, sketchOption]
    simp

/-- A straight update is written as its sketch tells. -/
theorem ChangePlan.IsStraight.write (h : p.IsStraight d) : writeUpdate d p = (sketchUpdate d p).write := by
  obtain ⟨name, schema, htable⟩ := h.table
  simp only [writeUpdate, sketchUpdate, htable, h.joins, writeSets_straight h.sets, writeOption_straight h.filter,
    writeTable, writeRows, writeJoins, sketchTable, sketchRows, sketchJoins, Sketch.aliased, aliased]
  simp [Sketch.write_append, Sketch.write_joined, Sketch.write_clause]

end Changes

/-! ## Straight statements -/

namespace Compiler

variable {c : Compiler} {u : Update} {ps ps' : Parameters} {p : Phrase}

/-- A straight plan without common table expressions is written as its sketch tells.

**Proof sketch.** The plan has no common table expressions to be written in front, and a straight change is written by
its sketch, so that both sides speak of one run. -/
theorem gives_writeChange {plan : Planning ChangePlan}
    (hplan : Planning.Alone c plan (ChangePlan.IsStraight c.dialect)) :
    (∃ change, (Emission.planAndWrite c plan (writeUpdate c.dialect)).Gives ps (change, p) ps') ↔
      ∃ sk, c.sketchPlan plan (sketchUpdate c.dialect) = .ok sk ∧ sk.write.Gives ps p ps' := by
  have written {change : ChangePlan} {ctes : List CtePlan} (hrun : plan.run c = .ok (change, ctes)) :
      ctes = [] ∧ (do
        let head ← writeCtes c.dialect ctes
        return head ++ (← writeUpdate c.dialect change) : Writing Phrase) = (sketchUpdate c.dialect change).write := by
    obtain ⟨q, hgives, rfl⟩ := gives_of_run hrun
    obtain ⟨hstraight, hctes⟩ := hplan.of_gives rfl rfl hgives
    refine ⟨hctes, ?_⟩
    rw [hctes, hstraight.write]
    simp [writeCtes]
  simp only [Emission.gives_planAndWrite]
  constructor
  · rintro ⟨change, ctes, hrun, hwrite⟩
    obtain ⟨rfl, heq⟩ := written hrun
    refine ⟨sketchUpdate c.dialect change, ?_, heq ▸ hwrite⟩
    rw [sketchPlan, hrun]
    rfl
  · rintro ⟨sk, hsketch, hwrite⟩
    obtain ⟨⟨change, ctes⟩, hrun, hsketch⟩ := Except.bind_eq_ok.mp hsketch
    obtain ⟨rfl, heq⟩ := written hrun
    cases hsketch
    exact ⟨change, [], hrun, heq.symm ▸ hwrite⟩

/-- The plan of a row needs nothing but the compiler, and is written straight. -/
private theorem alone_planRow (hu : ∀ a ∈ u.assignments, a.IsStored u.isBulk) (index : Nat) (r : Record) :
    Planning.Alone c (planRow u index r) (ChangePlan.IsStraight c.dialect) :=
  keeps_planRow (fun _ h => h) (fun e _ => fieldProperty_isStraight c.dialect e none)
    (fun _ _ => assignsOnly_stored straight_stored hu) index r

/-- The statement for a row that binds values of fields only is written as its sketch tells. -/
theorem gives_straightRow (hu : ∀ a ∈ u.assignments, a.IsStored u.isBulk) {index : Nat} {r : Record} {s : Compiled} :
    (c.emitRow u index r).Gives ps s ps' ↔
      ∃ sk, c.sketchPlan (planRow u index r) (sketchUpdate c.dialect) = .ok sk ∧
        sk.write.Gives ps.child s.phrase s.parameters ∧ s.deferred = [] ∧ ps.mergeChecked s.parameters = .ok ps' := by
  rw [gives_emitRow]
  constructor
  · rintro ⟨change, hown, hdeferred, hmerge⟩
    obtain ⟨sk, hsk, hwritten⟩ := (gives_writeChange (alone_planRow hu index r)).mp ⟨change, hown⟩
    exact ⟨sk, hsk, hwritten, hdeferred, hmerge⟩
  · rintro ⟨sk, hsk, hwritten, hdeferred, hmerge⟩
    obtain ⟨change, hown⟩ := (gives_writeChange (alone_planRow hu index r)).mpr ⟨sk, hsk, hwritten⟩
    exact ⟨change, hown, hdeferred, hmerge⟩

end Compiler

end LambdaSql
