import LambdaSql.Proofs.Binding.Parameters

/-!
# Sinks

The parameters of a statement are collected in a sink. A statement within others has a sink of its own, which goes on
numbering and is merged in the end, so that there may be any number of sinks at a time. Whatever is done with them, and in
whatever order, what has been collected stays, and a placeholder that a value was bound to keeps standing for it.

## Main definitions

* `Parameters.bindInPlace` - binding a value as a change of a sink, of which something may be left when it fails.
* `Parameters.Additive` - a change of a sink that only adds to it.
* `Sinks.Operation`, `Sinks.step`, `Sinks.run` - what is done with any number of sinks.
* `Sinks.Grow` - sinks go on from others.

## Main results

* `Parameters.bindInPlace_eq` - nothing is left of a binding that fails.
* `Sinks.step_cases` - an operation adds to one of the sinks, or opens one without parameters.
* `Sinks.grow_run`, `Sinks.ordered_run` - sinks only grow, and number their parameters.
* `Sinks.placeholders_stand` - a placeholder that a value was bound to keeps standing for it.
-/

namespace LambdaSql

namespace Parameters

variable {ps qs : Parameters} {name token : String} {value : Value} {native : NativeType}

/-! ## Binding in place -/

/-- A value bound to a fixed placeholder, as a change of a sink. Whatever has been added to the sink before an error is
found stays there. -/
def bindInPlace (name : String) (value : Value) (native : NativeType) :
    ExceptT SqlError (StateM Parameters) String := do
  let ps ← get
  let token := ps.token name
  match ps.agrees? token value with
  | none =>
    set (ps.push token value native)
    return token
  | some true =>
    unless ps.contains token do set (ps.push token value native)
    return token
  | some false =>
    match ps.statement with
    | none => throw (.placeholderConflict token)
    | some position =>
      let renamed := ps.token (name ++ "_" ++ toString position)
      match ps.agrees? renamed value with
      | none =>
        set (ps.push renamed value native)
        return renamed
      | some true =>
        unless ps.contains renamed do set (ps.push renamed value native)
        return renamed
      | some false => throw (.placeholderConflict renamed)

/-- A placeholder that is not in sight is no placeholder of the sink. -/
theorem pushNew_of_agrees?_eq_none (h : ps.agrees? token value = none) :
    ps.pushNew token value native = ps.push token value native := by
  have hget : ps.get? token = none := (Option.or_eq_none_iff.mp (Option.map_eq_none_iff.mp h)).1
  rw [pushNew, contains, hget]
  rfl

/-- A run that reads its parameters first goes on with these. -/
private theorem run_get_bind {α : Type} (f : Parameters → ExceptT SqlError (StateM Parameters) α) :
    (get >>= f).run.run ps = (f ps).run.run ps := rfl

/-- One parameter more, unless its placeholder is bound, and then a result. -/
theorem run_pushNew (ps : Parameters) (token : String) (value : Value) (native : NativeType) :
    (do
      unless ps.contains token do set (ps.push token value native)
      return token : ExceptT SqlError (StateM Parameters) String).run.run ps =
      (.ok token, ps.pushNew token value native) := by
  unfold pushNew
  split <;> rfl

/-- **Nothing is left of a binding that fails**, and one that succeeds is a binding.

**Proof sketch.** By what is in sight under the name, and where another value is, under the name with the statement's
position. Nothing is pushed before the last of these questions has been answered. -/
theorem bindInPlace_eq (ps : Parameters) (name : String) (value : Value) (native : NativeType) :
    (bindInPlace name value native).run.run ps =
      match ps.bind name value native with
      | .ok (token, qs) => (.ok token, qs)
      | .error e => (.error e, ps) := by
  rw [bindInPlace, run_get_bind, bind]
  dsimp only
  cases hagrees : ps.agrees? (ps.token name) value with
  | none =>
    rw [pushNew_of_agrees?_eq_none hagrees]
    rfl
  | some same =>
    cases same with
    | true => exact run_pushNew ps _ value native
    | false =>
      -- another value has the name
      cases ps.statement with
      | none => rfl
      | some position =>
        dsimp only
        cases hrenamed : ps.agrees? (ps.token (name ++ "_" ++ toString position)) value with
        | none =>
          rw [pushNew_of_agrees?_eq_none hrenamed]
          rfl
        | some same =>
          cases same with
          | true => exact run_pushNew ps _ value native
          | false => rfl

/-! ## Changes that only add -/

/-- A change of a sink that only adds to it, with each parameter numbered by its position. -/
structure Additive (change : Parameters → Parameters) : Prop where
  grows : ∀ ps : Parameters, ps.Extends (change ps)
  ordered : ∀ ps : Parameters, ps.Ordered → (change ps).Ordered

/-- To do nothing is additive. -/
private theorem additive_id : Additive id := ⟨.refl, fun _ h => h⟩

/-- To begin a statement is additive. -/
private theorem additive_beginStatement (position : Nat) : Additive (·.beginStatement position) :=
  ⟨fun _ => ⟨rfl, rfl, Nat.le_refl _, List.prefix_rfl⟩, fun _ h => h⟩

/-- To merge a table is additive. -/
private theorem additive_merge (inner : Parameters) : Additive (·.merge inner) :=
  ⟨fun ps => ps.extends_merge inner, fun _ h => h.merge inner⟩

/-- To bind a name is additive. -/
private theorem additive_named (name : String) (value : Value) (native : NativeType) :
    Additive fun ps => (ps.named name value native).2 :=
  ⟨fun _ => extends_pushNew .., fun _ h => h.pushNew ..⟩

/-- To bind a value without name is additive. -/
private theorem additive_anonymous (value : Value) (native : NativeType) :
    Additive fun ps => (ps.anonymous value native).2 :=
  ⟨fun _ => Binds.generated.grows, fun _ h => Binds.generated.ordered h⟩

/-- To bind a name in place is additive. -/
private theorem additive_bindInPlace (name : String) (value : Value) (native : NativeType) :
    Additive fun ps => ((bindInPlace name value native).run.run ps).2 := by
  constructor
  · intro ps
    rw [bindInPlace_eq]
    split
    · next hbind => exact (binds_of_bind hbind).grows
    · exact .refl ps
  · intro ps h
    rw [bindInPlace_eq]
    split
    · next hbind => exact (binds_of_bind hbind).ordered h
    · exact h

/-- Parameters that are numbered by their positions, one by one. -/
theorem Ordered.ordinal_eq (h : ps.Ordered) {i : Nat} {p : Parameter} (hp : ps.entries[i]? = some p) :
    p.ordinal = i := by
  have hordinal : (ps.entries.map (·.ordinal))[i]? = some p.ordinal := by rw [List.getElem?_map, hp, Option.map_some]
  rw [h] at hordinal
  exact (List.getElem?_eq_some_iff.mp hordinal).2.symm.trans (List.getElem_range _)

end Parameters

namespace Sinks

open Parameters

/-! ## Any number of sinks -/

/-- What is done with sinks, which are known by the order in which they were opened. -/
inductive Operation where
  /-- A sink is opened for a statement. -/
  | create (mark : Char) (stem : String)
  /-- A sink is opened for a statement within others. -/
  | child (sink : Nat)
  | bind (sink : Nat) (name : String) (value : Value) (native : NativeType)
  | named (sink : Nat) (name : String) (value : Value) (native : NativeType)
  | anonymous (sink : Nat) (value : Value) (native : NativeType)
  | beginStatement (sink position : Nat)
  /-- What one sink has collected is added to another one. -/
  | merge (sink inner : Nat)

/-- Sinks after an operation. With a sink that has not been opened nothing is done. -/
def step (sinks : List Parameters) : Operation → List Parameters
  | .create mark stem => sinks ++ [{ mark, stem }]
  | .child i => sinks ++ (sinks[i]?.map Parameters.child).toList
  | .bind i name value native => sinks.modify i fun ps => ((bindInPlace name value native).run.run ps).2
  | .named i name value native => sinks.modify i fun ps => (ps.named name value native).2
  | .anonymous i value native => sinks.modify i fun ps => (ps.anonymous value native).2
  | .beginStatement i position => sinks.modify i (·.beginStatement position)
  | .merge i j => sinks.modify i (sinks[j]?.elim id fun inner ps => ps.merge inner)

/-- Sinks after several operations. -/
def run (sinks : List Parameters) (ops : List Operation) : List Parameters := ops.foldl step sinks

variable {sinks mid later : List Parameters}

/-- **An operation adds to one of the sinks**, or opens one in which there is nothing.

**Proof sketch.** By the operation. All but those that open a sink modify one of them. -/
theorem step_cases (sinks : List Parameters) (op : Operation) :
    (∃ i change, Additive change ∧ step sinks op = sinks.modify i change) ∨
      ∃ opened : List Parameters, (∀ ps ∈ opened, ps.entries = []) ∧ step sinks op = sinks ++ opened := by
  cases op with
  | create mark stem => exact .inr ⟨_, by simp, rfl⟩
  | child i =>
    refine .inr ⟨_, fun ps hps => ?_, rfl⟩
    obtain ⟨outer, -, rfl⟩ := Option.map_eq_some_iff.mp (Option.mem_toList.mp hps)
    rfl
  | bind i name value native => exact .inl ⟨i, _, additive_bindInPlace name value native, rfl⟩
  | named i name value native => exact .inl ⟨i, _, additive_named name value native, rfl⟩
  | anonymous i value native => exact .inl ⟨i, _, additive_anonymous value native, rfl⟩
  | beginStatement i position => exact .inl ⟨i, _, additive_beginStatement position, rfl⟩
  | merge i j =>
    refine .inl ⟨i, _, ?_, rfl⟩
    cases sinks[j]? with
    | none => exact additive_id
    | some inner => exact additive_merge inner

/-! ## What stays -/

/-- Sinks go on from others: each of those is still there, perhaps with more parameters. -/
def Grow (sinks later : List Parameters) : Prop :=
  ∀ (i : Nat) (ps : Parameters), sinks[i]? = some ps → ∃ qs, later[i]? = some qs ∧ ps.Extends qs

/-- Tables of parameters grow by nothing. -/
theorem Grow.refl (sinks : List Parameters) : Grow sinks sinks := fun _ ps hps => ⟨ps, hps, .refl ps⟩

/-- Growing twice is growing. -/
theorem Grow.trans (h : Grow sinks mid) (h' : Grow mid later) : Grow sinks later := by
  intro i ps hps
  obtain ⟨qs, hqs, hextends⟩ := h i ps hps
  obtain ⟨rs, hrs, hextends'⟩ := h' i qs hqs
  exact ⟨rs, hrs, hextends.trans hextends'⟩

/-- An operation only lets sinks grow. -/
private theorem grow_step (sinks : List Parameters) (op : Operation) : Grow sinks (step sinks op) := by
  intro i ps hps
  obtain ⟨j, change, hchange, heq⟩ | ⟨opened, -, heq⟩ := step_cases sinks op
  · rw [heq, List.getElem?_modify, hps]
    by_cases hj : j = i
    · exact ⟨change ps, by simp [hj], hchange.grows ps⟩
    · exact ⟨ps, by simp [hj], .refl ps⟩
  · rw [heq, List.getElem?_append_left (List.getElem?_eq_some_iff.mp hps).1]
    exact ⟨ps, hps, .refl ps⟩

/-- **Sinks only grow**, whatever is done. -/
theorem grow_run (sinks : List Parameters) (ops : List Operation) : Grow sinks (run sinks ops) := by
  induction ops generalizing sinks with
  | nil => exact .refl sinks
  | cons op rest ih => exact (grow_step sinks op).trans (ih _)

/-- An operation leaves sinks in order. -/
private theorem ordered_step (h : ∀ ps ∈ sinks, ps.Ordered) (op : Operation) : ∀ ps ∈ step sinks op, ps.Ordered := by
  intro qs hqs
  obtain ⟨j, change, hchange, heq⟩ | ⟨opened, hopened, heq⟩ := step_cases sinks op
  · -- whichever sink was changed, the others are as they were
    obtain ⟨i, hi⟩ := List.mem_iff_getElem?.mp (heq ▸ hqs)
    rw [List.getElem?_modify] at hi
    obtain ⟨ps, hps, rfl⟩ := Option.map_eq_some_iff.mp hi
    have hordered := h ps (List.mem_of_getElem? hps)
    split
    · exact hchange.ordered ps hordered
    · exact hordered
  · rw [heq, List.mem_append] at hqs
    obtain hqs | hqs := hqs
    · exact h qs hqs
    · simp [Ordered, hopened qs hqs]

/-- **Parameters are numbered by their positions**, whatever is done. -/
theorem ordered_run (h : ∀ ps ∈ sinks, ps.Ordered) (ops : List Operation) : ∀ ps ∈ run sinks ops, ps.Ordered := by
  induction ops generalizing sinks with
  | nil => exact h
  | cons op rest ih => exact ih (ordered_step h op)

/-- A run of operations can be taken apart anywhere. -/
theorem run_append (sinks : List Parameters) (ops more : List Operation) :
    run sinks (ops ++ more) = run (run sinks ops) more := List.foldl_append

/-! ## Placeholders -/

variable {i : Nat} {ps qs : Parameters} {name token : String} {value : Value} {native : NativeType}

/-- A change that leaves its sink as it is changes nothing. -/
theorem modify_eq_self {change : Parameters → Parameters} (h : ∀ ps, sinks[i]? = some ps → change ps = ps) :
    sinks.modify i change = sinks := by
  refine List.ext_getElem? fun j => ?_
  rw [List.getElem?_modify]
  cases hj : sinks[j]? with
  | none => rfl
  | some ps =>
    by_cases hij : i = j
    · subst hij
      simp [h ps hj]
    · simp [hij]

/-- If a value cannot be bound, no sink is changed. -/
theorem step_of_error (hps : sinks[i]? = some ps) {e : SqlError} (h : ps.bind name value native = .error e) :
    step sinks (.bind i name value native) = sinks := by
  refine modify_eq_self fun qs hqs => ?_
  cases hps.symm.trans hqs
  rw [bindInPlace_eq, h]

/-- Once a value is bound to a placeholder, this is what it stands for in its sink, whatever is done then. -/
theorem get?_of_bound (hps : sinks[i]? = some ps) (h : ps.bind name value native = .ok (token, qs))
    (more : List Operation) :
    ∃ rs p, (run sinks (.bind i name value native :: more))[i]? = some rs ∧ rs.get? token = some p ∧
      p.value.Agrees value := by
  have hbound : (step sinks (.bind i name value native))[i]? = some qs := by
    rw [step, List.getElem?_modify, hps, Option.map_eq_map, Option.map_some, if_pos rfl, bindInPlace_eq, h]
  obtain ⟨p, hp, hagrees⟩ := (binds_of_bind h).get?_fixed
  obtain ⟨rs, hrs, hextends⟩ := grow_run (step sinks (.bind i name value native)) more i qs hbound
  exact ⟨rs, p, hrs, hextends.get? hp, hagrees⟩

/-- **A placeholder that a value was bound to keeps standing for it.** After any operations, on any number of sinks, each
parameter has its position for a number, and whatever is done then, no parameter is changed or taken away. If binding a
value to a fixed name fails, no sink is changed. Otherwise the first parameter of the placeholder has that value, or one
that is the same, from then on.

**Proof sketch.** By induction on the operations: each of them leaves a sink alone, or extends its parameters with
ordinals that go on, or adds a new sink. A value that is bound is found under its placeholder in what binding leaves,
and later extensions only add entries behind it. -/
theorem placeholders_stand (ops : List Operation) :
    (∀ ps ∈ run [] ops, ∀ (i : Nat) (p : Parameter), ps.entries[i]? = some p → p.ordinal = i) ∧
    (∀ more (i : Nat) (ps : Parameters), (run [] ops)[i]? = some ps →
      ∃ qs : Parameters, (run [] (ops ++ more))[i]? = some qs ∧ ps.entries <+: qs.entries) ∧
    ∀ (i : Nat) (ps : Parameters) name value native, (run [] ops)[i]? = some ps →
      match (bindInPlace name value native).run.run ps with
      | (.error _, _) => run [] (ops ++ [.bind i name value native]) = run [] ops
      | (.ok token, _) => ∀ more, ∃ (qs : Parameters) (p : Parameter),
          (run [] (ops ++ .bind i name value native :: more))[i]? = some qs ∧ qs.get? token = some p ∧
            (p.value = value ∨ (p.value == value) = true) := by
  refine ⟨?_, ?_, ?_⟩
  · intro ps hps i p hp
    exact (ordered_run (List.forall_mem_nil _) ops ps hps).ordinal_eq hp
  · intro more i ps hps
    obtain ⟨qs, hqs, hextends⟩ := grow_run (run [] ops) more i ps hps
    rw [run_append]
    exact ⟨qs, hqs, hextends.entries⟩
  · intro i ps name value native hps
    rw [bindInPlace_eq]
    cases hbind : ps.bind name value native with
    | error e =>
      rw [run_append]
      exact step_of_error hps hbind
    | ok bound =>
      intro more
      rw [run_append]
      exact get?_of_bound hps hbind more

/-- A batch that has bound a value for its first statement and goes on to the second one. -/
def secondStatement : List Operation :=
  [.create '@' "p", .beginStatement 0 0, .bind 0 "Id0" (.int 1) .int32, .beginStatement 0 1]

/-- The second statement binds another value to the name, which is renamed, and a statement within it is merged. -/
theorem secondStatement_stands :
    (run [] secondStatement)[0]? =
        some { entries := [⟨"@Id0", .int 1, .int32, 0⟩], statement := some 1 } ∧
      ∃ (qs : Parameters) (p : Parameter),
        (run [] (secondStatement ++ .bind 0 "Id0" (.int 99) .int32 ::
          [.child 0, .anonymous 1 (.int 7) .int32, .merge 0 1]))[0]? = some qs ∧
        qs.get? "@Id0_1" = some p ∧ (p.value = .int 99 ∨ (p.value == .int 99) = true) := by
  have hps : (run [] secondStatement)[0]? =
      some { entries := [⟨"@Id0", .int 1, .int32, 0⟩], statement := some 1 } := by rfl
  exact ⟨hps, (placeholders_stand secondStatement).2.2 0 _ "Id0" (.int 99) .int32 hps
    [.child 0, .anonymous 1 (.int 7) .int32, .merge 0 1]⟩

end Sinks

end LambdaSql
