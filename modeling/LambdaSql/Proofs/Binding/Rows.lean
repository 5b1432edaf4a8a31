import LambdaSql.Proofs.Binding.Reads
import LambdaSql.Proofs.Binding.Stored

/-!
# Bulk updates

What the statement for a row of a bulk update says is told by the row and the assignments for all rows, in
terms of fields and values: no plans, no parameters.

## Main definitions

* `lastGiven` - members with values that are given one after the other, the last value of each.
* `Update.uniform`, `Update.own` - what is assigned in all rows, and what a row assigns itself.
* `rowSketch` - what the statement for a row says.

## Main results

* `rowSketch_of_plan` - the statement for a row is planned as the row says.
* `Compiler.bulk_reads` - the statements of a bulk update say what the rows say.
-/

namespace LambdaSql

open Planning

/-! ## Values given one after the other -/

/-- Members with values that are given one after the other: each member at its first mention, with its last
value. -/
def lastGiven (given : List (String × Value)) : List (String × Value) :=
  (given.map Prod.fst).eraseDups.filterMap fun member => (given.reverse.lookup member).map (member, ·)

namespace Named

variable {α β : Type}

/-- Attaching something to one of several names that have something attached to each. -/
theorem set_filterMap {name : String} {a : α} {names : List String} (hnames : names.Nodup)
    {what : String → Option α} (hwhat : ∀ n ∈ names, (what n).isSome) :
    set name a (names.filterMap fun n => (what n).map (n, ·)) =
      (if name ∈ names then names else names ++ [name]).filterMap fun n =>
        (if n = name then some a else what n).map (n, ·) := by
  induction names with
  | nil => simp [set]
  | cons n rest ih =>
    obtain ⟨hn, hrest⟩ := List.nodup_cons.mp hnames
    obtain ⟨hsome, hwhat⟩ := List.forall_mem_cons.mp hwhat
    obtain ⟨b, hb⟩ := Option.isSome_iff_exists.mp hsome
    rw [List.filterMap_cons, hb]
    by_cases hname : n = name
    · subst hname
      have hsame : rest.filterMap (fun m => (what m).map (m, ·)) =
          rest.filterMap fun m => (if m = n then some a else what m).map (m, ·) := by
        refine List.filterMap_congr fun m hm => ?_
        have hm : m ≠ n := fun heq => hn (heq ▸ hm)
        rw [if_neg hm]
      simp [set, hsame]
    · have ih := ih hrest hwhat
      simp only [Option.map_some, set, if_neg hname, ih, List.mem_cons, Ne.symm hname, false_or]
      split <;> simp [hname, hb]

/-- Attaching related things to the same name. -/
theorem forall₂_set {R : String × α → String × β → Prop} (hR : ∀ a b, R a b → a.1 = b.1) {name : String}
    {a : α} {b : β} (hab : R (name, a) (name, b)) {items : List (String × α)} {items' : List (String × β)}
    (h : List.Forall₂ R items items') : List.Forall₂ R (set name a items) (set name b items') := by
  induction h with
  | nil => exact .cons hab .nil
  | @cons m m' _ _ hm hrest ih =>
    obtain ⟨n, x⟩ := m
    obtain ⟨n', x'⟩ := m'
    obtain rfl : n = n' := hR _ _ hm
    unfold set
    split
    · next heq =>
      subst heq
      exact .cons hab hrest
    · exact .cons hm ih

end Named

/-- Setting members one after the other leaves each at its first mention, with its last value.

**Proof sketch.** By induction from the end of the list. A last member that has been set before keeps its place and
takes the new value, and any other one is added at the end. -/
theorem foldl_set (given : List (String × Value)) :
    given.foldl (fun acc g => Named.set g.1 g.2 acc) [] = lastGiven given := by
  induction given using List.reverseRecOn with
  | nil => rfl
  | append_singleton given g ih =>
    obtain ⟨member, v⟩ := g
    have hlookup : ∀ n ∈ (given.map Prod.fst).eraseDups, (given.reverse.lookup n).isSome := by
      intro n hn
      obtain ⟨g, hg, rfl⟩ := List.mem_map.mp (List.mem_eraseDups.mp hn)
      rw [List.lookup_isSome_iff]
      exact ⟨g, List.mem_reverse.mpr hg, beq_self_eq_true _⟩
    rw [List.foldl_append, ih]
    have hnames : (given.map Prod.fst ++ [member]).eraseDups =
        if member ∈ (given.map Prod.fst).eraseDups then (given.map Prod.fst).eraseDups
        else (given.map Prod.fst).eraseDups ++ [member] := by
      split
      · next h => exact eraseDups_append_of_mem (List.mem_eraseDups.mp h)
      · next h => exact eraseDups_append_of_notMem fun hmem => h (List.mem_eraseDups.mpr hmem)
    have hvalues (n : String) : ((given ++ [(member, v)]).reverse.lookup n) =
        if n = member then some v else given.reverse.lookup n := by
      rw [List.reverse_append, List.reverse_singleton, List.singleton_append, List.lookup_cons]
      by_cases h : n = member
      · simp [h]
      · rw [if_neg h, beq_eq_false_iff_ne.mpr h]
    refine (Named.set_filterMap (nodup_eraseDups _) hlookup).trans ?_
    unfold lastGiven
    rw [List.map_append, List.map_singleton, hnames]
    simp only [hvalues]

/-! ## What rows say -/

/-- The member and the value of an assignment of a value at hand. -/
def Assignment.given? : Assignment → Option (String × Value)
  | .value member v => some (member, v)
  | .field member assigned => assigned.plainValue?.map (member, ·)
  | _ => none

namespace Update

/-- What an update assigns in all rows. -/
def uniform (u : Update) : List (String × Value) := lastGiven (u.assignments.filterMap Assignment.given?)

/-- Whether a row assigns a member: it is mapped to a column that belongs to no key and is not made by the
database, it is one of the members that are to be assigned, and it is not assigned in all rows. -/
def owns (u : Update) (e : Entity) (member : String) : Bool :=
  (e.field? member).any (fun f => !f.isKey && !f.isAutomatic) && u.includes member &&
    !u.uniform.any (·.1 == member)

/-- What a row assigns itself, in its order. -/
def own (u : Update) (e : Entity) (r : Record) : List (String × Value) :=
  r.members.filter fun m => u.owns e m.1

end Update

/-- A value stored in a field: `NULL`, or the value that the field makes of it. -/
def Field.sketch (f : Field) (name : String) (v : Value) : Except SqlError Sketch := do
  if v.isNull then return .ofText "NULL" else return [.value (some name) (← f.toDatabase v) f.native]

/-- The column of a member beside a value stored in it. -/
def sketchStored (d : Dialect) (e : Entity) (name member : String) (v : Value) : Except SqlError Sketch := do
  let f ← e.field member
  return .ofText (d.quoteIdentifier f.column) ++ .ofText "=" ++ (← f.sketch name v)

/-- What a change of the row that has the key of a record says: the members that the record assigns itself are set,
and then those that are assigned in all rows. -/
def recordSketch (d : Dialect) (e : Entity) (u : Update) (nameOf keyNameOf : String → String) (r : Record) :
    Except SqlError Sketch := do
  let own ← (u.own e r).mapM fun m => sketchStored d e (nameOf m.1) m.1 m.2
  let uniform ← u.uniform.mapM fun m => sketchStored d e m.1 m.1 m.2
  let keys ← e.keys.mapM fun key => do sketchStored d e (keyNameOf key) key (← r.require key)
  return .ofText "UPDATE " ++ .ofText (d.qualifiedTable e.table e.schema) ++ .ofText " SET " ++
    .joined "," (own ++ uniform) ++ .ofText " WHERE " ++ .joined " AND " keys

/-- What the statement for a row says: the members that the row assigns itself are set, and then those that
are assigned in all rows, where the key is that of the row. -/
def rowSketch (d : Dialect) (e : Entity) (u : Update) (index : Nat) (r : Record) : Except SqlError Sketch := do
  let own ← (u.own e r).mapM fun m => sketchStored d e (m.1 ++ toString index) m.1 m.2
  let uniform ← u.uniform.mapM fun m => sketchStored d e m.1 m.1 m.2
  let keys ← e.keys.mapM fun key => do
    sketchStored d e ("k" ++ key ++ toString index) key (← r.require key)
  return .ofText "UPDATE " ++ .ofText (d.qualifiedTable e.table e.schema) ++ .ofText " SET " ++
    .joined "," (own ++ uniform) ++ .ofText " WHERE " ++ .joined " AND " keys

/-! ## Nodes of stored values -/

section Nodes

variable {d : Dialect} {e : Entity} {f : Field} {name : String} {v : Value} {n : Node}

/-- A stored value has the sketch of its node. -/
private theorem sketch_stored (h : Node.stored f name v = .ok n) : f.sketch name v = .ok (sketchNode d n) := by
  unfold Node.stored at h
  unfold Field.sketch
  split at h
  · next hnull =>
    cases h
    rw [if_pos hnull]
    rfl
  · next hnull =>
    obtain ⟨⟨w, native⟩, hparameter, h⟩ := Except.bind_eq_ok.mp h
    cases h
    obtain ⟨_, hw, h⟩ := Except.bind_eq_ok.mp hparameter
    cases h
    rw [if_neg hnull, hw]
    rfl

/-- A stored value needs no parentheses. -/
theorem precedence_stored (h : Node.stored f name v = .ok n) : n.precedence = atomPrecedence := by
  unfold Node.stored at h
  split at h
  · cases h
    rfl
  · obtain ⟨_, -, h⟩ := Except.bind_eq_ok.mp h
    cases h
    rfl

/-- A comparison of a column with an atom needs no parentheses. -/
private theorem sketch_equal {aliasName : Option String} {column : String} {type : HostType}
    (hn : n.precedence = atomPrecedence) :
    sketchNode d (.equal (.column aliasName column type) n) =
      .ofText (columnText d aliasName column) ++ .ofText "=" ++ sketchNode d n := by
  have hright : wrapsRight .eq n = false := by
    unfold wrapsRight
    rw [hn]
    rfl
  rw [Node.equal, sketchNode, hright]
  rfl

/-- Two sketches that are joined to one are joined to the others as before. -/
private theorem joined_cons_append (separator : String) (a b : Sketch) (rest : List Sketch) :
    Sketch.joined separator ((a ++ .ofText separator ++ b) :: rest) =
      Sketch.joined separator (a :: b :: rest) := by
  cases rest with
  | nil => rfl
  | cons c rest => simp only [Sketch.joined, List.append_assoc]

/-- What a test is written for as one of several that are joined by `AND`. -/
def sketchOperand (d : Dialect) (n : Node) : Sketch :=
  (sketchNode d n).parenthesisedIf (n.precedence < SqlOp.and.precedence)

/-- What the tests of a clause are written for, all of which have to hold. -/
def sketchTests (d : Dialect) : List Node → Option Sketch
  | [] => none
  | [n] => some (sketchNode d n)
  | ns => some (.joined " AND " (ns.map (sketchOperand d)))

/-- Nothing that holds as strongly as `AND` needs parentheses to its right but itself. -/
theorem wrapsRight_and (n : Node) : wrapsRight .and n = decide (n.precedence < SqlOp.and.precedence) := by
  unfold wrapsRight
  split
  · next r _ _ _ => cases r <;> rfl
  · next hn =>
    have hne : n.precedence ≠ SqlOp.and.precedence := by
      intro h
      unfold Node.precedence at h
      split at h <;> first | exact hn _ _ _ _ rfl | (split at h <;> cases h) | cases h
    simp [hne]

/-- **Tests that are joined by `AND`**: one alone as it is, and several with parentheses around those that hold
less strongly.

**Proof sketch.** The tests are joined from the left, so that only tests on the right, and the first one, may need
parentheses; those that are joined already need none. -/
theorem sketchOption_conjunction (ns : List Node) :
    sketchOption d (Node.conjunction ns) = sketchTests d ns := by
  have hbinary (a m : Node) :
      sketchNode d (.binary .and a m .bool) = sketchOperand d a ++ .ofText " AND " ++ sketchOperand d m := by
    rw [sketchNode, wrapsRight_and]
    rfl
  -- the induction is on the tests that are left to be joined to what has been joined
  have hfold (rest : List Node) (acc : Node) (sk : Sketch)
      (hacc : sketchNode d acc = sk) (hoperand : sketchOperand d acc = sk) :
      sketchNode d (rest.foldl (fun acc next => .binary .and acc next .bool) acc) =
        .joined " AND " (sk :: rest.map (sketchOperand d)) := by
    induction rest generalizing acc sk with
    | nil => exact hacc
    | cons m rest ih =>
      rw [List.foldl_cons, ih _ _ (hbinary acc m) (hbinary acc m), hoperand, List.map_cons, joined_cons_append]
  match ns with
  | [] => rfl
  | [n] => rfl
  | n :: m :: rest =>
    rw [Node.conjunction, Node.joined, List.foldl_cons, sketchOption,
      hfold rest _ _ (hbinary n m) (hbinary n m), joined_cons_append]
    rfl

/-- Comparisons that are joined by `AND` need no parentheses. -/
theorem sketch_conjunction {ns : List Node} (hns : ∀ m ∈ ns, m.precedence = predicatePrecedence)
    (h : Node.conjunction ns = some n) : sketchNode d n = .joined " AND " (ns.map (sketchNode d)) := by
  have hoperand : ∀ m ∈ ns, sketchOperand d m = sketchNode d m := fun m hm => by
    rw [sketchOperand, hns m hm]
    rfl
  have hsketch := sketchOption_conjunction (d := d) ns
  rw [h, sketchOption] at hsketch
  obtain _ | ⟨m, _ | ⟨m', rest⟩⟩ := ns
  · cases h
  · exact Option.some.inj hsketch
  · rw [Option.some.inj hsketch, List.map_congr_left hoperand]

end Nodes

/-! ## Plans of rows -/

/-- A set member has the node of the value that it was given, as it is stored in the field. -/
def StoredAs (e : Entity) (nameOf : String → String) (given : String × Value) (set : String × Node) : Prop :=
  given.1 = set.1 ∧ ∃ f, e.field given.1 = .ok f ∧ Node.stored f (nameOf given.1) given.2 = .ok set.2

/-- A change of the row that has the key of a record: the members of the record are set that are assigned, and then
those that are assigned in all rows. -/
def RecordChange (e : Entity) (u : Update) (uniform : List (String × Node)) (nameOf keyNameOf : String → String)
    (r : Record) (change : ChangePlan) : Prop :=
  ∃ sets tests assigned,
    recordAssignments e u nameOf (r.members.filter fun m => !uniform.any (·.1 == m.1)) = .ok sets ∧
    sets ++ uniform ≠ [] ∧ keyTests e none keyNameOf r = .ok tests ∧
    assignedColumns ⟨u.entity, none, .entity e⟩ (sets ++ uniform) = .ok assigned ∧
    change = { table := entityTable e none, sets := assigned, filter := Node.conjunction tests }

section Plans

variable {d : Dialect} {e : Entity} {u : Update} {nameOf keyNameOf : String → String}

/-- An assignment of a given value is planned by storing the value, whatever the scope. -/
private theorem gives_planAssignment {aliasName : Option String} {bindings : List Binding} (hbulk : u.isBulk = true)
    {a : Assignment} {given : String × Value} (ha : a.given? = some given) {s : Scope} {p p' : Progress}
    {plan plan' : AssignmentPlan}
    (h : (planAssignment e u aliasName bindings plan a).Gives s p plan' p') :
    p' = p ∧ ∃ n, StoredAs e id given (given.1, n) ∧ plan' = plan.set given.1 n := by
  cases a with
  | lambda l => cases ha
  | object r => cases ha
  | value member v =>
    cases ha
    simp only [planAssignment, gives_bind, gives_ofExcept, gives_pure] at h
    obtain ⟨f, _, ⟨hf, rfl⟩, n, _, ⟨hn, rfl⟩, rfl, rfl⟩ := h
    exact ⟨rfl, n, ⟨rfl, f, hf, hn⟩, rfl⟩
  | field member assigned =>
    obtain ⟨v, hv, rfl⟩ := Option.map_eq_some_iff.mp ha
    simp only [planAssignment, fieldAssignment, hv, hbulk, gives_bind, gives_ofExcept, gives_pure] at h
    obtain ⟨n, _, ⟨f, _, ⟨hf, rfl⟩, hn, rfl⟩, rfl, rfl⟩ := h
    exact ⟨rfl, n, ⟨rfl, f, hf, hn⟩, rfl⟩

/-- What is assigned in all rows. -/
theorem gives_planAssignments {aliasName : Option String} {bindings : List Binding} (hbulk : u.isBulk = true)
    (hu : ∀ a ∈ u.assignments, a.given?.isSome) {s : Scope} {p p' : Progress} {plan : AssignmentPlan}
    (h : (planAssignments e u aliasName bindings).Gives s p plan p') :
    p' = p ∧ List.Forall₂ (StoredAs e id) u.uniform plan.sets := by
  have hfold (as : List Assignment) (has : ∀ a ∈ as, a.given?.isSome) {p : Progress} (before : AssignmentPlan)
      {given : List (String × Value)} (hbefore : List.Forall₂ (StoredAs e id) given before.sets)
      (h : (as.foldlM (planAssignment e u aliasName bindings) before).Gives s p plan p') :
      p' = p ∧ List.Forall₂ (StoredAs e id)
        ((as.filterMap Assignment.given?).foldl (fun acc g => Named.set g.1 g.2 acc) given) plan.sets := by
    induction as generalizing p before given with
    | nil =>
      obtain ⟨rfl, rfl⟩ := gives_pure.mp h
      exact ⟨rfl, hbefore⟩
    | cons a rest ih =>
      rw [List.foldlM_cons, gives_bind] at h
      obtain ⟨after, q, ha, h⟩ := h
      obtain ⟨hsome, hrest⟩ := List.forall_mem_cons.mp has
      obtain ⟨g, hg⟩ := Option.isSome_iff_exists.mp hsome
      obtain ⟨rfl, n, hn, rfl⟩ := gives_planAssignment hbulk hg ha
      rw [List.filterMap_cons, hg, List.foldl_cons]
      exact ih hrest _ (Named.forall₂_set (fun _ _ h => h.1) hn hbefore) h
  rw [Update.uniform, ← foldl_set]
  exact hfold u.assignments hu {} .nil h

/-- The field of a member that a record assigns. -/
theorem assignedField_eq_ok {member : String} {f? : Option Field} (h : assignedField e u member = .ok f?) :
    f? = (e.field? member).filter fun f => !f.isKey && !f.isAutomatic && u.includes member := by
  unfold assignedField at h
  cases hf : e.field? member with
  | none =>
    rw [hf] at h
    dsimp only at h
    split at h
    · cases h
      rfl
    · cases h
  | some f =>
    rw [hf] at h
    cases h
    rw [Option.filter_some]
    cases f.isKey <;> cases f.isAutomatic <;> cases u.includes member <;> rfl

/-- What a record assigns.

**Proof sketch.** By induction on the members. A member that is no field, a key, generated by the database or not
included is passed over, and any other one is stored. -/
theorem storedAs_recordAssignments {members : List (String × Value)} {sets : List (String × Node)}
    (h : recordAssignments e u nameOf members = .ok sets) :
    List.Forall₂ (StoredAs e nameOf) (members.filter fun m =>
      (e.field? m.1).any (fun f => !f.isKey && !f.isAutomatic) && u.includes m.1) sets := by
  induction members generalizing sets with
  | nil =>
    cases h
    exact .nil
  | cons m rest ih =>
    obtain ⟨member, v⟩ := m
    obtain ⟨f?, hf, h⟩ := Except.bind_eq_ok.mp h
    obtain rfl := assignedField_eq_ok hf
    cases hfield : e.field? member with
    | none =>
      rw [hfield] at h
      rw [List.filter_cons_of_neg (by simp [hfield])]
      exact ih h
    | some f =>
      rw [hfield] at h
      by_cases hassigned : (!f.isKey && !f.isAutomatic && u.includes member) = true
      · rw [Option.filter_some, if_pos hassigned] at h
        simp only [Except.bind_eq_ok, Except.pure_eq_ok] at h
        obtain ⟨n, hn, sets, hsets, rfl⟩ := h
        rw [List.filter_cons_of_pos (by simpa [hfield] using hassigned)]
        refine .cons ⟨rfl, f, ?_, hn⟩ (ih hsets)
        rw [Entity.field, hfield]
      · rw [Option.filter_some, if_neg hassigned] at h
        rw [List.filter_cons_of_neg (by simpa [hfield] using hassigned)]
        exact ih h

/-- The columns of set members, each beside its value.

**Proof sketch.** Member by member: the column that is assigned is the one of the field under which the value was
stored. -/
theorem mapM_sketchStored {entity : String} {given : List (String × Value)} {sets : List (String × Node)}
    (hsets : List.Forall₂ (StoredAs e nameOf) given sets) {assigned : List (Node × Node)}
    (h : assignedColumns ⟨entity, none, .entity e⟩ sets = .ok assigned) :
    (given.mapM fun m => sketchStored d e (nameOf m.1) m.1 m.2) = .ok (sketchSets d assigned) := by
  replace h := Except.mapM_eq_ok.mp h
  rw [Except.mapM_eq_ok]
  induction hsets generalizing assigned with
  | nil =>
    cases h
    exact .nil
  | @cons g s _ _ hstored _ ih =>
    obtain ⟨a, rest, ha, hrest, rfl⟩ := List.forall₂_cons_left_iff.mp h
    refine .cons ?_ (ih hrest)
    simp only [Except.bind_eq_ok, Except.pure_eq_ok] at ha
    obtain ⟨column, hcolumn, rfl⟩ := ha
    obtain ⟨hname, f, hf, hn⟩ := hstored
    obtain ⟨f', hf', hcolumn⟩ := Except.bind_eq_ok.mp hcolumn
    cases hcolumn
    rw [← hname] at hf'
    cases hf.symm.trans hf'
    rw [sketchStored, hf, Except.bind_eq_ok]
    refine ⟨f, rfl, ?_⟩
    rw [sketch_stored hn]
    rfl

/-- Assignments are given their columns part by part. -/
private theorem assignedColumns_append {target : TableBinding} {a b : List (String × Node)}
    {assigned : List (Node × Node)} (h : assignedColumns target (a ++ b) = .ok assigned) :
    ∃ first second, assignedColumns target a = .ok first ∧ assignedColumns target b = .ok second ∧
      assigned = first ++ second := by
  unfold assignedColumns at h
  rw [List.mapM_append] at h
  simp only [Except.bind_eq_ok, Except.pure_eq_ok] at h
  obtain ⟨first, hfirst, second, hsecond, rfl⟩ := h
  exact ⟨first, second, hfirst, hsecond, rfl⟩

/-- The tests of a key, each a column beside its value. -/
theorem mapM_keyTests {r : Record} {tests : List Node} (h : keyTests e none nameOf r = .ok tests) :
    (e.keys.mapM fun key => do sketchStored d e (nameOf key) key (← r.require key)) =
      .ok (tests.map (sketchNode d)) ∧ ∀ t ∈ tests, t.precedence = predicatePrecedence := by
  replace h := Except.mapM_eq_ok.mp h
  rw [Except.mapM_eq_ok, List.forall₂_map_right_iff]
  refine ⟨h.imp fun key t ht => ?_, ?_⟩
  · simp only [Except.bind_eq_ok, Except.pure_eq_ok] at ht
    obtain ⟨f, hf, v, hv, n, hn, rfl⟩ := ht
    rw [hv, Except.bind_eq_ok]
    refine ⟨v, rfl, ?_⟩
    rw [sketchStored, hf, Except.bind_eq_ok]
    refine ⟨f, rfl, ?_⟩
    rw [sketch_stored hn, sketch_equal (precedence_stored hn)]
    rfl
  · refine Except.forall_of_mapM (Except.mapM_eq_ok.mpr h) fun key _ t ht => ?_
    simp only [Except.bind_eq_ok, Except.pure_eq_ok] at ht
    obtain ⟨f, -, v, -, n, -, rfl⟩ := ht
    rfl

/-- Whether a member is assigned is not changed by storing the values. -/
private theorem any_storedAs {given : List (String × Value)} {sets : List (String × Node)}
    (h : List.Forall₂ (StoredAs e nameOf) given sets) (member : String) :
    given.any (·.1 == member) = sets.any (·.1 == member) := by
  induction h with
  | nil => rfl
  | cons h _ ih => rw [List.any_cons, List.any_cons, h.1, ih]

/-- What a row assigns itself is what it assigns and no assignment for all rows does. -/
theorem own_eq {r : Record} {sets : List (String × Node)} (hsets : List.Forall₂ (StoredAs e id) u.uniform sets) :
    u.own e r = (r.members.filter fun m => !sets.any (·.1 == m.1)).filter fun m =>
      (e.field? m.1).any (fun f => !f.isKey && !f.isAutomatic) && u.includes m.1 := by
  rw [List.filter_filter]
  exact List.filter_congr fun m _ => by rw [Update.owns, any_storedAs hsets]

/-- **The statement for a row** is planned as a change by the row.

**Proof sketch.** Planning a row is finding the entity, planning what all rows assign and reading the record. -/
theorem gives_planRow {index : Nat} {r : Record} {s : Scope} {p p' : Progress} {change : ChangePlan} :
    (planRow u index r).Gives s p change p' ↔ ∃ e uniform, s.compiler.model.entity u.entity = .ok e ∧
      (planAssignments e u none [.table ⟨u.entity, none, .entity e⟩]).Gives s p uniform p' ∧
        RecordChange e u uniform.sets (· ++ toString index) (fun key => "k" ++ key ++ toString index) r change := by
  simp only [planRow, planTarget, bind_assoc, pure_bind, gives_bind, gives_read, gives_ofExcept, gives_orFail, gives_pure,
    List.isEmpty_iff]
  constructor
  · rintro ⟨_, _, ⟨rfl, rfl⟩, e, _, ⟨he, rfl⟩, uniform, _, huniform, sets, _, ⟨hsets, rfl⟩, hne, tests, _, ⟨htests, rfl⟩,
      assigned, _, ⟨hassigned, rfl⟩, rfl, rfl⟩
    exact ⟨e, uniform, he, huniform, sets, tests, assigned, hsets, hne, htests, hassigned, rfl⟩
  · rintro ⟨e, uniform, he, huniform, sets, tests, assigned, hsets, hne, htests, hassigned, rfl⟩
    exact ⟨_, _, ⟨rfl, rfl⟩, e, _, ⟨he, rfl⟩, uniform, _, huniform, sets, _, ⟨hsets, rfl⟩, hne, tests, _, ⟨htests, rfl⟩,
      assigned, _, ⟨hassigned, rfl⟩, rfl, rfl⟩

/-- **A change by a record** says what the record says.

**Proof sketch.** The assignments of a change are its own and then the uniform ones, each with the sketch of what was
stored, and its tests are those of the keys. As there is a key, there is a condition. -/
theorem RecordChange.sketch {uniform : List (String × Node)} {r : Record} {change : ChangePlan}
    (h : RecordChange e u uniform nameOf keyNameOf r change) (hkeys : e.keys ≠ [])
    (hgiven : List.Forall₂ (StoredAs e id) u.uniform uniform) :
    recordSketch d e u nameOf keyNameOf r = .ok (sketchUpdate d change) := by
  obtain ⟨sets, tests, assigned, hsets, -, htests, hassigned, rfl⟩ := h
  obtain ⟨ownSets, uniformSets, hownSets, huniformSets, rfl⟩ := assignedColumns_append hassigned
  obtain ⟨hkeySketches, hprecedence⟩ := mapM_keyTests htests
  obtain ⟨test, htest⟩ : ∃ test, Node.conjunction tests = some test := by
    cases tests with
    | nil => exact absurd (List.forall₂_nil_right_iff.mp (Except.mapM_eq_ok.mp htests)) hkeys
    | cons t rest => exact ⟨_, rfl⟩
  have hstored := storedAs_recordAssignments hsets
  rw [← own_eq hgiven] at hstored
  have hown := mapM_sketchStored (d := d) hstored hownSets
  have huniform : (u.uniform.mapM fun m => sketchStored d e m.1 m.1 m.2) = .ok (sketchSets d uniformSets) :=
    mapM_sketchStored hgiven huniformSets
  simp only [recordSketch, Except.bind_eq_ok, Except.pure_eq_ok]
  refine ⟨_, hown, _, huniform, _, hkeySketches, ?_⟩
  rw [← sketch_conjunction hprecedence htest, htest]
  simp [sketchUpdate, sketchTable, sketchRows, entityTable, sketchJoins, sketchSets, sketchOption, Sketch.clause,
    Sketch.aliased]

/-- The statement for a row says what the row says. -/
theorem rowSketch_of_plan {c : Compiler} (hbulk : u.isBulk = true) (hu : ∀ a ∈ u.assignments, a.given?.isSome)
    (he : c.model.entity u.entity = .ok e) (hkeys : e.keys ≠ []) {index : Nat} {r : Record} {sk : Sketch}
    (h : c.sketchPlan (planRow u index r) (sketchUpdate c.dialect) = .ok sk) :
    rowSketch c.dialect e u index r = .ok sk := by
  obtain ⟨⟨change, ctes⟩, hrun, h⟩ := Except.bind_eq_ok.mp h
  cases h
  obtain ⟨p', hgives, rfl⟩ := gives_of_run hrun
  obtain ⟨e', uniform, he', hassigned, hchange⟩ := gives_planRow.mp hgives
  cases he.symm.trans he'
  obtain ⟨rfl, hgiven⟩ := gives_planAssignments hbulk hu hassigned
  exact hchange.sketch hkeys hgiven

end Plans

/-! ## Bulk updates -/

section Bulk

variable {c : Compiler} {u : Update} {rows : List Record}

/-- An assignment whose value is given stores it. -/
theorem Assignment.isStored_of_given {a : Assignment} (h : a.given?.isSome) : a.IsStored true := by
  cases a with
  | lambda l => cases h
  | field member assigned => exact ⟨rfl, by simpa [given?] using h⟩
  | value | object => trivial

/-- A bulk update is one of an entity with a key, and is written row by row. -/
theorem Compiler.gives_emitBulk {ps ps' : Parameters} {ss : List Compiled} :
    (c.emitBulk u rows).Gives ps ss ps' ↔ bulkProblem? u rows = none ∧ ∃ e, c.model.entity u.entity = .ok e ∧
      e.keys ≠ [] ∧ Emission.Gives (rows.zipIdx.mapM fun (r, i) => c.emitRow u i r) ps ss ps' := by
  unfold Compiler.emitBulk
  cases bulkProblem? u rows with
  | some e => simp
  | none =>
    simp only [Emission.gives_bind, Emission.gives_ofExcept, List.isEmpty_iff, true_and]
    constructor
    · rintro ⟨e, _, ⟨he, rfl⟩, h⟩
      split at h
      · simp at h
      · next hkeys => exact ⟨e, he, hkeys, h⟩
    · rintro ⟨e, he, hkeys, h⟩
      refine ⟨e, _, ⟨he, rfl⟩, ?_⟩
      rwa [if_neg hkeys]

/-- A compiled bulk update is written from new parameters. -/
theorem Compiler.update_rows (hrows : u.rows = some rows) {cu : CompiledUpdate} :
    c.update u = .ok cu ↔ ∃ ss qs, (c.emitBulk u rows).Gives c.newParameters ss qs ∧ cu = .bulk ss := by
  unfold Compiler.update
  rw [hrows]
  simp only [Except.bind_eq_ok, Except.pure_eq_ok]
  constructor
  · rintro ⟨⟨ss, qs⟩, hss, rfl⟩
    exact ⟨ss, qs, hss, rfl⟩
  · rintro ⟨ss, qs, hss, rfl⟩
    exact ⟨(ss, qs), hss, rfl⟩

/-- A bulk update is one of an entity with a key, and has a statement for each row. -/
theorem bulk_of_update (hrows : u.rows = some rows) {cu : CompiledUpdate} (h : c.update u = .ok cu) :
    ∃ e statements, c.model.entity u.entity = .ok e ∧ e.keys ≠ [] ∧ cu = .bulk statements := by
  obtain ⟨ss, qs, hss, rfl⟩ := (Compiler.update_rows hrows).mp h
  obtain ⟨-, e, he, hkeys, -⟩ := Compiler.gives_emitBulk.mp hss
  exact ⟨e, ss, he, hkeys, rfl⟩

/-- **A bulk update means what its rows say.** If a bulk update compiles whose assignments for all rows are
values at hand, then it has one statement for each row, in their order, and each statement says what the row
says, if its placeholders stand for the values among its own parameters, and as well if they stand for those
among the parameters of the update.

**Proof sketch.** Each row is planned as its sketch, in which all values have fixed names since what is assigned for
all rows is at hand. Writing a row for its sketch issues the sketch's values under their names, and what is issued is
read as long as entries are only added, as the rows after it and the parameters of the update do. -/
theorem Compiler.bulk_reads (hrows : u.rows = some rows) (hu : ∀ a ∈ u.assignments, a.given?.isSome)
    {cu : CompiledUpdate} (h : c.update u = .ok cu) :
    ∃ e statements, c.model.entity u.entity = .ok e ∧ cu = .bulk statements ∧
      List.Forall₂ (fun (row : Record × Nat) (s : Compiled) =>
        ∃ sk, rowSketch c.dialect e u row.2 row.1 = .ok sk ∧ s.parameters.Reads s.phrase sk ∧
          cu.parameters.Reads s.phrase sk) rows.zipIdx statements := by
  obtain ⟨e, statements, he, hkeys, rfl⟩ := bulk_of_update hrows h
  obtain ⟨sks, qs, hsks, hchain⟩ := chain_update h
  refine ⟨e, statements, he, rfl, ?_⟩
  have hbulk : u.isBulk = true := by rw [Update.isBulk, hrows]; rfl
  have hstored : ∀ a ∈ u.assignments, a.IsStored u.isBulk :=
    fun a ha => hbulk ▸ Assignment.isStored_of_given (hu a ha)
  rw [statementSketches_rows hrows] at hsks
  have hplans := Except.mapM_eq_ok.mp hsks
  -- The parameters of the update are those that its last statement leaves.
  have hreads := hchain.forall₂ RowWritten.grows (P := fun s sk => sk.IsFixed →
      s.parameters.Reads s.phrase sk ∧ (CompiledUpdate.bulk statements).parameters.Reads s.phrase sk)
    fun _ hrow he hsk => ⟨hrow.own.issued.reads_of_fixed hsk,
      ((hrow.issued.reads_of_fixed hsk).later he).congr (entries_parameters hchain)⟩
  refine forall₂_meet (fun row s sk hplan hreads => ?_) hplans hreads
  obtain ⟨hown, hall⟩ := hreads (isFixed_row hstored hplan)
  exact ⟨sk, rowSketch_of_plan hbulk hu he hkeys hplan, hown, hall⟩

end Bulk

/-- Two points, of which the second one has no `n`, and one value for all. -/
def twoPoints : Update where
  entity := "Point"
  assignments := [.value "p0" (.int 6), .field "p0" (.captured "seven" (.int 7))]
  rows := some [⟨[("Id", .int 1), ("n", .int 5)], by decide⟩, ⟨[("n", .null), ("Id", .int 2)], by decide⟩]

/-- Two rows are read position by position, with parameters of their own and with those of both. -/
theorem twoPoints_reads :
    ∃ cu, points.update twoPoints = .ok cu ∧
      cu.sql = "UPDATE `point` SET `n`=@n0,`p0`=@p0 WHERE `id`=@kId0;" ++
        "UPDATE `point` SET `n`=NULL,`p0`=@p0 WHERE `id`=@kId1" ∧
      ∃ e statements, points.model.entity "Point" = .ok e ∧ cu = .bulk statements ∧
        List.Forall₂ (fun (row : Record × Nat) (s : Compiled) =>
          ∃ sk, rowSketch points.dialect e twoPoints row.2 row.1 = .ok sk ∧ s.parameters.Reads s.phrase sk ∧
            cu.parameters.Reads s.phrase sk) (twoPoints.rows.getD []).zipIdx statements := by
  obtain ⟨cu, h, hsql⟩ : ∃ cu, points.update twoPoints = .ok cu ∧
      cu.sql = "UPDATE `point` SET `n`=@n0,`p0`=@p0 WHERE `id`=@kId0;" ++
        "UPDATE `point` SET `n`=NULL,`p0`=@p0 WHERE `id`=@kId1" := ⟨_, rfl, rfl⟩
  have hu : ∀ a ∈ twoPoints.assignments, a.given?.isSome := by
    simp [twoPoints, Assignment.given?, Expr.plainValue?]
  exact ⟨cu, h, hsql, Compiler.bulk_reads rfl hu h⟩

end LambdaSql
