import LambdaSql.Proofs.Binding.Rows
import LambdaSql.Proofs.Meaning.Node

/-!
# The rows that a change is about

A deletion, and an update of one table that is no bulk update, is made by a chain of calls. Some of them say
which rows it is about: a filter is a test of its own, the key of an assigned record is a test for each of its
members, and the keys that are listed by several calls are one test all together. The tests are joined by `AND`
after `WHERE`, and hold of the rows that meet everything the calls ask for.

Lists of keys are put end to end. When all of them are empty, nothing is left that tells them from no call, and
the rows are not restricted: the calls ask for one of no rows, and the statement is about all of them.

## Main definitions

* `Findings`, `Node.outcome` - what a database finds out about a row, and the outcome of a test.
* `Delete.Call`, `Update.Call`, `Change` - changes as chains of calls.
* `Findings.HasKeyOf` - the key of the row is that of a record.
* `Change.Includes` - the row meets everything that the calls ask for.

## Main results

* `Node.outcome_ofRow` - on rows with given contents, outcomes are the values of tests.
* `Findings.all_keyTests`, `Findings.any_keyRows` - tests of keys.
* `Change.rows_iff` - the tests of a statement hold of the rows that its calls ask for.
-/

namespace LambdaSql

open Planning

/-! ## Outcomes -/

/-- What a database finds out about a row: whether two expressions are the same on it, and the outcomes of
tests that are not put together from others. -/
structure Findings where
  same : Node → Node → Truth
  test : Node → Truth

/-- What a database finds out about a row with given contents. -/
def Findings.ofRow (row : Contents) : Findings where
  same left right := do Cell.test (· == ·) (← left.cell? row) (← right.cell? row)
  test n := do Cell.truth (← n.cell? row)

namespace Node

/-- A value without the name of its placeholder, which does not count. -/
def anonymous : Node → Node
  | bound value native _ type => bound value native none type
  | n => n

/-- The outcome of a test. -/
def outcome (f : Findings) : Node → Truth
  | binary .and left right _ => (outcome f left).and (outcome f right)
  | binary .or left right _ => (outcome f left).or (outcome f right)
  | binary .eq left right _ => f.same left.anonymous right.anonymous
  | unary .not operand _ => (outcome f operand).not
  | inList operand items negated =>
    Truth.flipIf negated (items.foldr (fun n t => (f.same operand.anonymous n.anonymous).or t) (some false))
  | group inner => outcome f inner
  | n => f.test n

/-! ### Rows with given contents -/

/-- A node without names has the cell of the node. -/
private theorem cell?_anonymous (row : Contents) (n : Node) : n.anonymous.cell? row = n.cell? row := by
  cases n <;> rfl

/-- Whether a value is one of several is found out by comparing it with each. -/
theorem foldr_same {row : Contents} {operand : Node} {c : Cell} (hc : operand.cell? row = some c)
    {items : List Node} {cs : List Cell} (hcs : cells? row items = some cs) :
    items.foldr (fun n t => ((Findings.ofRow row).same operand.anonymous n.anonymous).or t) (some false) = c.among cs := by
  induction items generalizing cs with
  | nil =>
    cases hcs
    rfl
  | cons n rest ih =>
    simp only [cells?, Option.bind_eq_bind, Option.bind_eq_some_iff, Option.pure_def,
      Option.some.injEq] at hcs
    obtain ⟨d, hd, ds, hds, rfl⟩ := hcs
    rw [List.foldr_cons, ih hds]
    simp [Findings.ofRow, cell?_anonymous, hc, hd, Cell.among]

/-- **On rows with given contents**, the outcome of a test is its value.

**Proof sketch.** By the recursion of outcomes: connectives, comparisons and memberships have the truth values of
their cells. -/
theorem outcome_ofRow {row : Contents} {n : Node} {c : Cell} (h : n.cell? row = some c) :
    n.outcome (Findings.ofRow row) = c.truth := by
  fun_induction outcome (Findings.ofRow row) n generalizing c
  case case7 => simp [Findings.ofRow, h]
  case case6 inner ih => exact ih h
  all_goals
    simp only [cell?, SqlOp.compute?, Option.bind_eq_bind, Option.bind_eq_some_iff, Option.pure_def,
      Option.some.injEq] at h
  case case1 left right ty ihl ihr | case2 left right ty ihl ihr =>
    obtain ⟨a, ha, b, hb, rfl⟩ := h
    rw [ihl ha, ihr hb, Cell.truth_ofTruth]
  case case3 left right ty =>
    obtain ⟨a, ha, b, hb, rfl⟩ := h
    simp [Findings.ofRow, cell?_anonymous, ha, hb]
  case case4 operand ty ih =>
    obtain ⟨a, ha, rfl⟩ := h
    rw [ih ha, Cell.truth_ofTruth]
  case case5 operand items negated =>
    obtain ⟨a, ha, cs, hcs, rfl⟩ := h
    rw [foldr_same ha hcs, Cell.truth_ofTruth]

/-! ### Tests joined -/

variable {f : Findings}

/-- Tests in conjunction are true if each of them is. -/
private theorem outcome_foldl_and (ns : List Node) (n : Node) :
    (ns.foldl (fun acc next => binary .and acc next .bool) n).outcome f = some true ↔
      n.outcome f = some true ∧ ∀ m ∈ ns, m.outcome f = some true := by
  induction ns generalizing n with
  | nil => simp
  | cons m rest ih => rw [List.foldl_cons, ih, outcome, Truth.and_eq_true, List.forall_mem_cons, and_assoc]

/-- Tests in disjunction are true if one of them is. -/
private theorem outcome_foldl_or (ns : List Node) (n : Node) :
    (ns.foldl (fun acc next => binary .or acc next .bool) n).outcome f = some true ↔
      n.outcome f = some true ∨ ∃ m ∈ ns, m.outcome f = some true := by
  induction ns generalizing n with
  | nil => simp
  | cons m rest ih => rw [List.foldl_cons, ih, outcome, Truth.or_eq_true, List.exists_mem_cons_iff, or_assoc]

/-- A conjunction is true if each of its tests is. -/
theorem outcome_conjunction {ns : List Node} {n : Node} (h : conjunction ns = some n) :
    n.outcome f = some true ↔ ∀ m ∈ ns, m.outcome f = some true := by
  cases ns with
  | nil => cases h
  | cons m rest =>
    cases h
    rw [outcome_foldl_and, List.forall_mem_cons]

/-- A disjunction is true if one of its tests is. -/
theorem outcome_joined_or {ns : List Node} {n : Node} (h : joined .or ns = some n) :
    n.outcome f = some true ↔ ∃ m ∈ ns, m.outcome f = some true := by
  cases ns with
  | nil => cases h
  | cons m rest =>
    cases h
    rw [outcome_foldl_or, List.exists_mem_cons_iff]

/-- A value is one of several if it is the same as one of them. -/
theorem outcome_inList {operand : Node} {items : List Node} :
    (inList operand items false).outcome f = some true ↔
      ∃ n ∈ items, f.same operand.anonymous n.anonymous = some true := by
  rw [outcome, Truth.flipIf, if_neg Bool.false_ne_true]
  induction items with
  | nil => simp
  | cons n rest ih => rw [List.foldr_cons, Truth.or_eq_true, ih, List.exists_mem_cons_iff]

end Node

/-! ## Keys -/

namespace Findings

variable {f : Findings} {e : Entity} {nameOf : String → String} {r : Record} {rows : List Record}

/-- The column of a key member is the same as what is stored for the value that a record has for it. -/
def HasKeyMemberOf (f : Findings) (e : Entity) (r : Record) (key : String) : Prop :=
  ∃ field v stored, e.field key = .ok field ∧ r.require key = .ok v ∧ field.toDatabase v = .ok stored ∧
    f.same (.column none field.column field.type) (.bound stored field.native none field.type) = some true

/-- The key of the row is that of a record. -/
def HasKeyOf (f : Findings) (e : Entity) (r : Record) : Prop := ∀ key ∈ e.keys, f.HasKeyMemberOf e r key

/-- A value that a record has to have is stored as it is bound. -/
theorem same_stored {field : Field} {key name : String} {v : Value} {n : Node} (hfield : e.field key = .ok field)
    (hv : r.require key = .ok v) (hn : Node.stored field name v = .ok n) :
    f.same (.column none field.column field.type) n.anonymous = some true ↔ f.HasKeyMemberOf e r key := by
  have hfilled : v.isNull = false := by
    unfold Record.require at hv
    split at hv
    · split at hv
      · cases hv
      · next w _ hw =>
        cases hv
        simpa using hw
    · cases hv
  rw [Node.stored, hfilled, if_neg Bool.false_ne_true] at hn
  simp only [Field.parameter, Except.bind_eq_ok, Except.pure_eq_ok] at hn
  obtain ⟨_, ⟨stored, hstored, rfl⟩, rfl⟩ := hn
  constructor
  · exact fun h => ⟨field, v, stored, hfield, hv, hstored, h⟩
  · rintro ⟨_, _, _, hfield', hv', hstored', h⟩
    cases hfield.symm.trans hfield'
    cases hv.symm.trans hv'
    cases hstored.symm.trans hstored'
    exact h

/-- The tests for the key of a record. -/
theorem all_keyTests {tests : List Node} (h : keyTests e none nameOf r = .ok tests) :
    (∀ n ∈ tests, n.outcome f = some true) ↔ f.HasKeyOf e r := by
  unfold HasKeyOf
  replace h := Except.mapM_eq_ok.mp h
  generalize e.keys = keys at h
  induction h with
  | nil => simp
  | cons hn _ ih =>
    simp only [Except.bind_eq_ok, Except.pure_eq_ok] at hn
    obtain ⟨field, hfield, v, hv, m, hm, rfl⟩ := hn
    rw [List.forall_mem_cons, List.forall_mem_cons]
    exact and_congr (same_stored hfield hv hm) ih

/-- Of several records that are numbered, one has a property if what becomes of it has another. -/
theorem any_mapM_zipIdx {β : Type} {g : Record × Nat → Except SqlError β} {P : Record → Prop} {Q : β → Prop}
    (hg : ∀ r i b, g (r, i) = .ok b → (Q b ↔ P r)) {bs : List β} {first : Nat}
    (h : (rows.zipIdx first).mapM g = .ok bs) : (∃ b ∈ bs, Q b) ↔ ∃ r ∈ rows, P r := by
  induction rows generalizing bs first with
  | nil =>
    cases h
    simp
  | cons r rest ih =>
    simp only [List.zipIdx_cons, List.mapM_cons, Except.bind_eq_ok, Except.pure_eq_ok] at h
    obtain ⟨b, hb, bs, hbs, rfl⟩ := h
    rw [List.exists_mem_cons_iff, List.exists_mem_cons_iff, hg r first b hb, ih hbs]

/-- The test for one of several keys of one member. -/
theorem any_singleKey {key : String} {n : Node} (h : singleKeyTest e none key rows = .ok n) :
    n.outcome f = some true ↔ ∃ r ∈ rows, f.HasKeyMemberOf e r key := by
  unfold singleKeyTest at h
  obtain ⟨field, hfield, h⟩ := Except.bind_eq_ok.mp h
  obtain ⟨items, hitems, h⟩ := Except.bind_eq_ok.mp h
  have hany : (∃ m ∈ items, f.same (.column none field.column field.type) m.anonymous = some true) ↔
      ∃ r ∈ rows, f.HasKeyMemberOf e r key := by
    refine any_mapM_zipIdx (fun r i m hm => ?_) hitems
    obtain ⟨v, hv, hm⟩ := Except.bind_eq_ok.mp hm
    exact same_stored hfield hv hm
  split at h
  · cases h
    rw [← hany, Node.equal, Node.outcome]
    simp [Node.anonymous]
  · cases h
    rw [← hany, Node.outcome_inList]
    rfl

/-- The key of a record, as one test in parentheses. -/
theorem keyGroup {tests : List Node} (hkeys : e.keys ≠ []) (h : keyTests e none nameOf r = .ok tests) :
    ∃ n, (Node.conjunction tests).map Node.group = some n ∧ (n.outcome f = some true ↔ f.HasKeyOf e r) := by
  rw [← all_keyTests h]
  cases tests with
  | nil => exact absurd (List.length_eq_zero_iff.mp (Except.mapM_eq_ok.mp h).length_eq) hkeys
  | cons m rest =>
    refine ⟨_, rfl, ?_⟩
    rw [Node.outcome]
    exact Node.outcome_conjunction rfl

/-- The keys of several rows, each as one test in parentheses, joined by `OR`.

**Proof sketch.** Each row makes up one test, which holds if the row has its key; there is one, as the entity has a
key. Joined by `OR` they hold if one does. -/
theorem any_keyGroups (hkeys : e.keys ≠ []) {tests : List (Option Node)}
    (h : (rows.zipIdx.mapM fun (r, i) => do
      return (Node.conjunction (← keyTests e none (· ++ "_" ++ toString i) r)).map Node.group) = Except.ok tests) :
    (∀ n, Node.joined .or (tests.filterMap id) = some n → n.outcome f = some true) ↔
      (rows ≠ [] → ∃ r ∈ rows, f.HasKeyOf e r) := by
  have hgroup (r : Record) (i : Nat) (n? : Option Node) (hn : (do
      return (Node.conjunction (← keyTests e none (· ++ "_" ++ toString i) r)).map Node.group) = Except.ok n?) :
      ∃ n, n? = some n ∧ (n.outcome f = some true ↔ f.HasKeyOf e r) := by
    obtain ⟨keys, hk, hn⟩ := Except.bind_eq_ok.mp hn
    cases hn
    exact keyGroup hkeys hk
  have hany : (∃ n? ∈ tests, ∃ n, n? = some n ∧ n.outcome f = some true) ↔ ∃ r ∈ rows, f.HasKeyOf e r := by
    refine any_mapM_zipIdx (fun r i n? hn => ?_) h
    obtain ⟨n, rfl, hiff⟩ := hgroup r i n? hn
    simp [hiff]
  have hsome : ∀ n? ∈ tests, n? ≠ none := Except.forall_of_mapM h fun (r, i) _ n? hn => by
    obtain ⟨n, rfl, -⟩ := hgroup r i n? hn
    exact nofun
  cases hn : Node.joined .or (tests.filterMap id) with
  | some n =>
    have hne : rows ≠ [] := by
      rintro rfl
      cases h
      cases hn
    simp [Node.outcome_joined_or hn, ← hany, hne]
  | none =>
    -- without tests there are no rows
    have hlength := (Except.mapM_eq_ok.mp h).length_eq
    cases tests with
    | nil =>
      have hrows : rows = [] := by simpa using hlength
      simp [hrows]
    | cons n? rest =>
      obtain ⟨n, rfl⟩ := Option.ne_none_iff_exists'.mp (hsome _ List.mem_cons_self)
      cases hn

/-- **The test for the keys of several rows** is true if the key is that of one of them.

**Proof sketch.** By the number of key members: none is refused, one is tested against a list, and several are tested
row by row. -/
theorem any_keyRows {n? : Option Node} (h : keyRowsTest e none rows = .ok n?) :
    (∀ n, n? = some n → n.outcome f = some true) ↔ (rows ≠ [] → ∃ r ∈ rows, f.HasKeyOf e r) := by
  unfold keyRowsTest at h
  split at h
  · next hrows =>
    cases h
    simp [List.isEmpty_iff.mp hrows]
  · next hrows =>
    have hne : rows ≠ [] := fun hnil => hrows (List.isEmpty_iff.mpr hnil)
    split at h
    · cases h
    · next key hkey =>
      obtain ⟨n, hn, h⟩ := Except.bind_eq_ok.mp h
      cases h
      simp [any_singleKey hn, HasKeyOf, hkey, hne]
    · next hnone _ =>
      obtain ⟨tests, htests, h⟩ := Except.bind_eq_ok.mp h
      cases h
      exact any_keyGroups hnone htests

end Findings

/-! ## Changes as chains of calls -/

/-- A call in the making of a deletion. -/
inductive Delete.Call where
  | filter (test : Expr)
  | whereKeys (rows : List Record)

/-- A call in the making of an update of one table. -/
inductive Update.Call where
  | assign (a : Assignment)
  | onlyFields (members : List String)
  | ignoreFields (members : List String)
  | filter (test : Expr)
  | whereKeys (rows : List Record)

/-- The record of an assignment of a whole record. -/
def Assignment.object? : Assignment → Option Record
  | .object r => some r
  | _ => none

namespace Delete

namespace Call

/-- What a call makes of a deletion. -/
def apply (s : Delete) : Call → Delete
  | filter test => s.filter test
  | whereKeys rows => s.whereKeys rows

/-- The test of a filter. -/
def test? : Call → Option Lambda
  | filter test => some test.toLambda
  | whereKeys _ => none

/-- The records whose keys a call lists. -/
def keys? : Call → Option (List Record)
  | filter _ => none
  | whereKeys rows => some rows

end Call

/-- The deletion that several calls make. -/
def ofCalls (entity : String) (calls : List Call) : Delete := calls.foldl Call.apply { entity }

/-- A chain of calls adds its tests to the filters of a deletion, and its keys to the rows with keys. -/
private theorem foldl_apply (calls : List Call) (s : Delete) :
    calls.foldl Call.apply s = { s with
      filters := s.filters ++ calls.filterMap Call.test?
      keyRows := s.keyRows ++ (calls.filterMap Call.keys?).flatten } := by
  induction calls generalizing s with
  | nil => simp
  | cons call rest ih =>
    rw [List.foldl_cons, ih]
    cases call <;> simp [List.filterMap_cons, Call.apply, Call.test?, Call.keys?, filter, whereKeys]

end Delete

namespace Update

namespace Call

/-- What a call makes of an update. -/
def apply (u : Update) : Call → Update
  | assign a => u.assign a
  | onlyFields members => u.onlyFields members
  | ignoreFields members => u.ignoreFields members
  | filter test => u.filter test
  | whereKeys rows => u.whereKeys rows

/-- The test of a filter. -/
def test? : Call → Option Lambda
  | filter test => some test.toLambda
  | _ => none

/-- The record whose members a call assigns. -/
def object? : Call → Option Record
  | assign a => a.object?
  | _ => none

/-- The records whose keys a call lists. -/
def keys? : Call → Option (List Record)
  | whereKeys rows => some rows
  | _ => none

end Call

/-- The update that several calls make. -/
def ofCalls (entity : String) (calls : List Call) : Update := calls.foldl Call.apply { entity }

/-- The records whose members an update assigns. -/
def objects (u : Update) : List Record := u.assignments.filterMap Assignment.object?

/-- A chain of calls adds its tests, objects and keys to an update, whose entity, rows and joins it leaves. -/
private theorem foldl_apply (calls : List Call) (u : Update) :
    (calls.foldl Call.apply u).entity = u.entity ∧ (calls.foldl Call.apply u).rows = u.rows ∧
      (calls.foldl Call.apply u).joins = u.joins ∧
      (calls.foldl Call.apply u).filters = u.filters ++ calls.filterMap Call.test? ∧
      (calls.foldl Call.apply u).objects = u.objects ++ calls.filterMap Call.object? ∧
      (calls.foldl Call.apply u).keyRows = u.keyRows ++ (calls.filterMap Call.keys?).flatten := by
  induction calls generalizing u with
  | nil => simp
  | cons call rest ih =>
    rw [List.foldl_cons]
    obtain ⟨hentity, hrows, hjoins, hfilters, hobjects, hkeys⟩ := ih (call.apply u)
    rw [hentity, hrows, hjoins, hfilters, hobjects, hkeys]
    cases call
    case assign a =>
      cases ha : a.object? <;>
        simp [List.filterMap_cons, Call.apply, Call.test?, Call.object?, Call.keys?, assign, objects, ha]
    all_goals simp [List.filterMap_cons, Call.apply, Call.test?, Call.object?, Call.keys?, onlyFields,
      ignoreFields, filter, whereKeys, objects]

end Update

/-- A deletion, or an update of one table that is no bulk update, made by a chain of calls. -/
inductive Change where
  | delete (entity : String) (calls : List Delete.Call)
  | update (entity : String) (calls : List Update.Call)

namespace Change

def entity : Change → String
  | delete entity _ | update entity _ => entity

/-- The statement that the calls make. -/
def statement : Change → Statement
  | delete entity calls => .delete (.ofCalls entity calls)
  | update entity calls => .update (.ofCalls entity calls)

/-- The plan of the statement. -/
def plan : Change → Planning ChangePlan
  | delete entity calls => planDelete (.ofCalls entity calls)
  | update entity calls => planUpdate (.ofCalls entity calls)

/-- What the statement is written for. -/
def sketch (d : Dialect) : Change → ChangePlan → Sketch
  | delete .. => sketchDelete d
  | update .. => sketchUpdate d

/-- The tests of the filters. -/
def tests : Change → List Lambda
  | delete _ calls => calls.filterMap Delete.Call.test?
  | update _ calls => calls.filterMap Update.Call.test?

/-- The records whose members are assigned. -/
def objects : Change → List Record
  | delete .. => []
  | update _ calls => calls.filterMap Update.Call.object?

/-- The records whose keys are listed, by call. -/
def keyLists : Change → List (List Record)
  | delete _ calls => calls.filterMap Delete.Call.keys?
  | update _ calls => calls.filterMap Update.Call.keys?

end Change

/-! ## Plans -/

section Plans

variable {f : Findings} {e : Entity} {u : Update} {bindings : List Binding} {s : Scope} {q q' : Progress}

/-- A node is what a lambda over some tables gives, as a test. -/
def IsTestOf (s : Scope) (bindings : List Binding) (l : Lambda) (n : Node) : Prop :=
  ∃ p m p', (planValue bindings l).Gives s p m p' ∧ n = m.toPredicate

/-- The tests of a clause are those of its lambdas. -/
theorem gives_planTests {ls : List Lambda} {ns : List Node} (h : (planTests bindings ls).Gives s q ns q') :
    List.Forall₂ (IsTestOf s bindings) ls ns := by
  induction ls generalizing ns q with
  | nil =>
    obtain ⟨rfl, -⟩ := gives_pure.mp h
    exact .nil
  | cons l rest ih =>
    simp only [planTests, gives_bind, gives_pure] at h
    obtain ⟨n, p, hn, ns, _, hns, rfl, rfl⟩ := h
    exact .cons ⟨q, n, p, hn, rfl⟩ (ih hns)

/-- Assigned values do not change the keys. -/
private theorem AssignmentPlan.keys_setAll (sets : List (String × Node)) (p : AssignmentPlan) :
    (sets.foldl (fun acc s => acc.set s.1 s.2) p).keys = p.keys := by
  induction sets generalizing p with
  | nil => rfl
  | cons s rest ih => exact ih (p.set s.1 s.2)

/-- The tests that go with assignments so far hold. -/
def AssignmentPlan.Holds (f : Findings) (p : AssignmentPlan) : Prop := ∀ n ∈ p.keys, n.outcome f = some true

/-- An assigned record adds the tests for its key. -/
theorem holds_planObject {r : Record} {p p' : AssignmentPlan} (h : planObject e u none r p = .ok p') :
    p'.Holds f ↔ p.Holds f ∧ f.HasKeyOf e r := by
  unfold planObject at h
  split at h
  · cases h
  · simp only [Except.bind_eq_ok, Except.pure_eq_ok] at h
    obtain ⟨keys, hkeys, sets, -, rfl⟩ := h
    rw [AssignmentPlan.Holds, AssignmentPlan.keys_setAll, List.forall_mem_append, Findings.all_keyTests hkeys]
    rfl

/-- The tests that go with an assignment are those for the key of an assigned record. -/
theorem holds_planAssignment {a : Assignment} {p p' : AssignmentPlan}
    (h : (planAssignment e u none bindings p a).Gives s q p' q') :
    p'.Holds f ↔ p.Holds f ∧ ∀ r, a.object? = some r → f.HasKeyOf e r := by
  cases a with
  | lambda l =>
    simp only [planAssignment, gives_bind, gives_pure] at h
    obtain ⟨sets, _, -, rfl, -⟩ := h
    rw [AssignmentPlan.Holds, AssignmentPlan.keys_setAll]
    simp [AssignmentPlan.Holds, Assignment.object?]
  | field member value =>
    simp only [planAssignment, gives_bind, gives_pure] at h
    obtain ⟨n, _, -, rfl, -⟩ := h
    simp [AssignmentPlan.Holds, AssignmentPlan.set, Assignment.object?]
  | value member v =>
    simp only [planAssignment, gives_bind, gives_ofExcept, gives_pure] at h
    obtain ⟨_, _, -, n, _, -, rfl, -⟩ := h
    simp [AssignmentPlan.Holds, AssignmentPlan.set, Assignment.object?]
  | object r =>
    rw [holds_planObject (gives_ofExcept.mp h).1]
    simp [Assignment.object?]

/-- **The tests that go with assignments** hold if the key of the row is that of each assigned record.

**Proof sketch.** By induction on the assignments: an object adds the tests of its key, and nothing else adds any. -/
theorem holds_planAssignments {p : AssignmentPlan}
    (h : (planAssignments e u none bindings).Gives s q p q') :
    p.Holds f ↔ ∀ r ∈ u.objects, f.HasKeyOf e r := by
  have hall (as : List Assignment) (before : AssignmentPlan) {q : Progress}
      (h : (as.foldlM (planAssignment e u none bindings) before).Gives s q p q') :
      p.Holds f ↔ before.Holds f ∧ ∀ r ∈ as.filterMap Assignment.object?, f.HasKeyOf e r := by
    induction as generalizing q before with
    | nil =>
      obtain ⟨rfl, -⟩ := gives_pure.mp h
      simp
    | cons a rest ih =>
      rw [List.foldlM_cons, gives_bind] at h
      obtain ⟨after, q₁, ha, h⟩ := h
      rw [ih after h, holds_planAssignment ha, and_assoc]
      refine and_congr_right fun _ => ?_
      cases hr : a.object? <;> simp [hr]
  rw [hall u.assignments {} h]
  simp [AssignmentPlan.Holds, Update.objects]

end Plans

/-! ## The rows of a change -/

namespace Change

/-- The row meets everything that the calls ask for: the tests of all filters, the keys of all assigned
records, and if any keys are listed, one of them. -/
def Includes (f : Findings) (e : Entity) (change : Change) (tests : List Node) : Prop :=
  (∀ n ∈ tests, n.outcome f = some true) ∧ (∀ r ∈ change.objects, f.HasKeyOf e r) ∧
    (change.keyLists.flatten ≠ [] → ∃ r ∈ change.keyLists.flatten, f.HasKeyOf e r)

/-- The tests of a clause, and those for keys, hold together. -/
theorem forall_append_toList {f : Findings} {tests keys : List Node} {key? : Option Node} :
    (∀ n ∈ tests ++ keys ++ key?.toList, n.outcome f = some true) ↔
      (∀ n ∈ tests, n.outcome f = some true) ∧ (∀ n ∈ keys, n.outcome f = some true) ∧
        ∀ n, key? = some n → n.outcome f = some true := by
  simp only [List.forall_mem_append, Option.mem_toList, and_assoc]

/-- **The plan of a change** is about the rows of the table of its entity that meet what the calls ask for.

**Proof sketch.** What calls ask for stands in the statement that they build, in order. The tests of the plan are
those of the filters, of the keys of objects and of the rows with keys, joined by `AND`. -/
theorem gives_plan {change : Change} {s : Scope} {q q' : Progress} {p : ChangePlan}
    (h : change.plan.Gives s q p q') :
    ∃ e tests nodes, s.compiler.model.entity change.entity = .ok e ∧ p.table = entityTable e none ∧
      p.joins = [] ∧ p.filter = Node.conjunction nodes ∧
      List.Forall₂ (IsTestOf s [.table ⟨change.entity, none, .entity e⟩]) change.tests tests ∧
      ∀ f : Findings, (∀ n ∈ nodes, n.outcome f = some true) ↔ change.Includes f e tests := by
  cases change with
  | delete entity calls =>
    simp only [plan, planDelete, Delete.ofCalls, Delete.foldl_apply, gives_bind, gives_ofExcept, gives_pure] at h
    obtain ⟨_, _, htarget, tests, q₂, htests, key?, _, ⟨hkey, rfl⟩, rfl, rfl⟩ := h
    obtain ⟨e, he, rfl, rfl⟩ := gives_planTarget htarget
    refine ⟨e, tests, tests ++ [] ++ key?.toList, he, rfl, rfl, by rw [List.append_nil], gives_planTests htests,
      fun f => ?_⟩
    rw [forall_append_toList, Findings.any_keyRows hkey]
    simp [Includes, objects, keyLists]
  | update entity calls =>
    obtain ⟨hentity, -, hjoins, hfilters, hobjects, hkeys⟩ := Update.foldl_apply calls { entity }
    unfold plan planUpdate Update.ofCalls at h
    simp only [hjoins, hentity, hfilters, hkeys, List.isEmpty_nil, if_true, pure_bind, planJoins] at h
    obtain ⟨target, _, htarget, hassign⟩ := gives_bind.mp h
    obtain ⟨e, he, rfl, rfl⟩ := gives_planTarget htarget
    obtain ⟨assigned, _, hassigned, hrest⟩ := gives_bind.mp hassign
    split at hrest
    · -- without assignments there is no update
      obtain ⟨_, _, hfail, -⟩ := gives_bind.mp hrest
      exact absurd hfail not_gives_fail
    · simp only [gives_bind, gives_ofExcept, gives_pure] at hrest
      obtain ⟨tests, _, htests, key?, _, ⟨hkey, rfl⟩, _, _, -, rfl, -⟩ := hrest
      refine ⟨e, tests, tests ++ assigned.keys ++ key?.toList, he, rfl, rfl, rfl, gives_planTests htests, fun f => ?_⟩
      have hkeyed := holds_planAssignments (f := f) hassigned
      rw [AssignmentPlan.Holds, hobjects] at hkeyed
      rw [forall_append_toList, Findings.any_keyRows hkey, hkeyed]
      rfl

/-- The statement of a change is written for its plan. -/
theorem written_statement {c : Compiler} {change : Change} {results : List Compiled}
    (h : c.alone change.statement = .ok results) :
    ∃ r sk, results = [r] ∧ c.sketchPlan change.plan (change.sketch c.dialect) = .ok sk ∧
      Written c.newParameters r.phrase sk r.parameters := by
  cases change with
  | delete entity calls =>
    obtain ⟨r, hr, h⟩ := Except.bind_eq_ok.mp h
    cases h
    obtain ⟨sk, hsk, hwritten⟩ := Compiler.written_delete hr
    exact ⟨r, sk, rfl, hsk, hwritten⟩
  | update entity calls =>
    obtain ⟨updated, hupdated, h⟩ := Except.bind_eq_ok.mp h
    have hrows : (Update.ofCalls entity calls).rows = none := (Update.foldl_apply calls { entity }).2.1
    unfold Compiler.update at hupdated
    rw [hrows] at hupdated
    obtain ⟨⟨p, parameters⟩, hrun, hsingle⟩ := Except.bind_eq_ok.mp hupdated
    cases hsingle
    cases h
    obtain ⟨sk, hsk, hwritten⟩ := Compiler.written_emitUpdate hrun
    exact ⟨_, sk, rfl, hsk, hwritten⟩

/-- **The rows of a change.** What follows `WHERE` in the one statement of a change are tests, all of which have
to hold, and whatever a database finds out about a row of the entity's table, they all hold of the row if and
only if it meets everything that the calls ask for: the test of each filter is true, the key is that of each
assigned record, and if any keys are listed, it is that of one of the records listed. Calls that list no keys
do not count, also if there are no others.

**Proof sketch.** The calls are collected into filters, records and keys, and planned as tests of each kind, which the
clause joins. The test for the key of a record holds if each of its members has the value, by what a database finds
out about columns, and the one for listed keys if that is so for one of the records. -/
theorem rows_iff {c : Compiler} {change : Change} {results : List Compiled}
    (h : c.alone change.statement = .ok results) :
    ∃ r plan ctes e tests nodes, results = [r] ∧ change.plan.run c = .ok (plan, ctes) ∧
      Written c.newParameters r.phrase (sketchCtes c.dialect ctes ++ change.sketch c.dialect plan) r.parameters ∧
      c.model.entity change.entity = .ok e ∧ plan.table = entityTable e none ∧ plan.joins = [] ∧
      sketchOption c.dialect plan.filter = sketchTests c.dialect nodes ∧
      List.Forall₂ (IsTestOf { compiler := c } [.table ⟨change.entity, none, .entity e⟩]) change.tests tests ∧
      ∀ f : Findings, (∀ n ∈ nodes, n.outcome f = some true) ↔ change.Includes f e tests := by
  obtain ⟨r, sk, rfl, hsk, hwritten⟩ := written_statement h
  obtain ⟨⟨plan, ctes⟩, hplan, hsk⟩ := Except.bind_eq_ok.mp hsk
  cases hsk
  obtain ⟨p', hgives, -⟩ := gives_of_run hplan
  obtain ⟨e, tests, nodes, he, htable, hjoins, hfilter, htests, hiff⟩ := gives_plan hgives
  refine ⟨r, plan, ctes, e, tests, nodes, rfl, hplan, hwritten, he, htable, hjoins, ?_, htests, hiff⟩
  rw [hfilter, sketchOption_conjunction]

end Change

/-- The young customers among those listed by two calls, of which one lists none. -/
def youngListed : Change :=
  .delete "Customer" [.whereKeys [],
    .filter (.lambda ["c"] (.binary .lt (.member (.param "c") "Age") (.constant (.int 30)))),
    .whereKeys [⟨[("Id", .int 1)], List.nodup_singleton "Id"⟩, ⟨[("Id", .int 2)], List.nodup_singleton "Id"⟩]]

/-- The deletion of the young among the listed customers deletes the listed rows that are young. -/
theorem youngListed_rows :
    ∃ r plan ctes e tests nodes, shop.alone youngListed.statement = .ok [r] ∧
      r.sql = "DELETE FROM `customer` WHERE `age`<30 AND `id` IN (@Id0,@Id1)" ∧
      youngListed.plan.run shop = .ok (plan, ctes) ∧
      Written shop.newParameters r.phrase (sketchCtes shop.dialect ctes ++ youngListed.sketch shop.dialect plan)
        r.parameters ∧
      shop.model.entity "Customer" = .ok e ∧ plan.table = entityTable e none ∧ plan.joins = [] ∧
      sketchOption shop.dialect plan.filter = sketchTests shop.dialect nodes ∧
      List.Forall₂ (IsTestOf { compiler := shop } [.table ⟨"Customer", none, .entity e⟩]) youngListed.tests tests ∧
      ∀ f : Findings, (∀ n ∈ nodes, n.outcome f = some true) ↔ youngListed.Includes f e tests := by
  obtain ⟨r, h, hsql⟩ : ∃ r, shop.alone youngListed.statement = .ok [r] ∧
      r.sql = "DELETE FROM `customer` WHERE `age`<30 AND `id` IN (@Id0,@Id1)" := ⟨_, rfl, rfl⟩
  obtain ⟨_, plan, ctes, e, tests, nodes, hr, hrows⟩ := Change.rows_iff h
  cases hr
  exact ⟨r, plan, ctes, e, tests, nodes, h, hsql, hrows⟩

/-- Calls that list no keys ask for no row, but the deletion is of all. -/
example : (shop.alone (Change.delete "Customer" [.whereKeys [], .whereKeys []]).statement).map
    (·.map Compiled.sql) = .ok ["DELETE FROM `customer`"] := by rfl

end LambdaSql
