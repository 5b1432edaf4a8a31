import LambdaSql.Proofs.Faults.Calls
import LambdaSql.Proofs.Plan.Texts
import LambdaSql.Statement.Fetched

/-!
# Faults of evaluation

Evaluating an expression comes to the expressions within in a fixed order, and only as far as they have values: the
arguments of a call before what it is called on, and of a test only the branch that it chooses. It ends by a fault
exactly where one of those that it comes to is a call that has no answer. Whatever is compiled or evaluated after
fetching comes upon no other faults.

## Main definitions

* `Evaluation.truth?` - the truth value that an evaluation gives.
* `Host.visited` - the expressions that evaluating an expression comes to.
* `Host.Misused` - a call that has no answer.

## Main results

* `Host.evaluate_fault_iff` - the faults of evaluating an expression.
* `faults_of_evaluation` - the faults of evaluating, of compiling, and of what is evaluated after fetching.
-/

namespace LambdaSql

namespace Evaluation

variable {α β : Type} {f : Fault}

/-- The truth value that an evaluation gives, if it gives one. -/
def truth? : Evaluation Value → Option Bool
  | .ok v => v.toBool?
  | .error _ => none

/-- There is a result with a property that does not depend on it. -/
private theorem exists_ok_and {x : Evaluation α} {p : Prop} : (∃ a, x = .ok a ∧ p) ↔ x.isOk = true ∧ p := by
  cases x with
  | error h => simp [Except.isOk, Except.toBool]
  | ok a => simp [Except.isOk, Except.toBool]

/-- What may have no value after its parts do comes upon the faults of its parts. -/
theorem bind_ofOption_fault {x : Evaluation α} {g : α → Option β} :
    (x >>= fun a => ofOption (g a)) = .error (.fault f) ↔ x = .error (.fault f) := by
  rw [Except.bind_eq_error]
  simp only [ofOption_ne_fault, and_false, exists_false, or_false]

/-- What goes on by a truth value comes upon the faults of the branch that is chosen. -/
theorem bind_truth_fault {x : Evaluation Value} {g : Bool → Evaluation α} :
    (x >>= fun v => ofOption v.toBool? >>= g) = .error (.fault f) ↔
      x = .error (.fault f) ∨ (x.truth? = some true ∧ g true = .error (.fault f)) ∨
        (x.truth? = some false ∧ g false = .error (.fault f)) := by
  rw [Except.bind_eq_error]
  simp only [ofOption_bind_fault]
  cases x with
  | error h => simp [truth?]
  | ok v => simp [truth?, and_comm, or_comm]

end Evaluation

namespace Host

open Evaluation

variable {b : Bindings} {f : Fault}

/-! ## What evaluation comes to -/

/-- Whether an operator comes to its right operand after its left one. -/
def goesOn : BinaryOp → Evaluation Value → Bool
  | .and, left => left.truth? == some true
  | .or, left => left.truth? == some false
  | .coalesce, .ok v => v.isNull
  | .coalesce, .error _ => false
  | _, left => left.isOk

mutual

/-- The expressions that evaluating an expression comes to, itself included. -/
def visited (b : Bindings) : Expr → List Expr
  | e@(.constant _) | e@(.captured ..) | e@(.static ..) | e@(.lambda ..) | e@(.param _) | e@(.query _) => [e]
  | e@(.member operand _) | e@(.convert operand _) | e@(.unary _ operand) => e :: visited b operand
  | e@(.binary op left right) =>
    e :: (visited b left ++ if goesOn op (evaluate b left) then visited b right else [])
  | e@(.conditional test ifTrue ifFalse) =>
    e :: (visited b test ++ match (evaluate b test).truth? with
      | some true => visited b ifTrue
      | some false => visited b ifFalse
      | none => [])
  | e@(.array items) => e :: visitedItems b items
  | e@(.object members) => e :: visitedMembers b members
  | e@(.call (some target) _ _ args) =>
    e :: (visitedItems b args ++ if (evaluateItems b args).isOk then visited b target else [])
  | e@(.call none _ _ args) => e :: visitedItems b args

/-- The expressions that evaluating several expressions comes to. -/
def visitedItems (b : Bindings) : List Expr → List Expr
  | [] => []
  | e :: rest => visited b e ++ if (evaluate b e).isOk then visitedItems b rest else []

/-- The expressions that evaluating several members comes to. -/
def visitedMembers (b : Bindings) : List (String × Expr) → List Expr
  | [] => []
  | (_, e) :: rest => visited b e ++ if (evaluate b e).isOk then visitedMembers b rest else []

end

/-- A call that has no answer: what it is called on and its arguments have values that do not go together. -/
def Misused (b : Bindings) (f : Fault) : Expr → Prop
  | .call (some target) _ method args =>
    ∃ vs v, evaluateItems b args = .ok vs ∧ evaluate b target = .ok v ∧ NoAnswerOn v method vs f
  | .call none (some type) method args => ∃ vs, evaluateItems b args = .ok vs ∧ NoAnswerOf type method vs f
  | _ => False

/-- A call that has no answer is among several expressions. -/
def AnyMisused (b : Bindings) (f : Fault) (es : List Expr) : Prop := ∃ e ∈ es, Misused b f e

section Misuse

variable {e : Expr} {es rest : List Expr}

/-- Among no expressions none is misused. -/
private theorem anyMisused_nil : ¬ AnyMisused b f [] := nofun

/-- Either the first expression is misused or one of the others. -/
private theorem anyMisused_cons : AnyMisused b f (e :: es) ↔ Misused b f e ∨ AnyMisused b f es := by
  simp only [AnyMisused, List.mem_cons, exists_eq_or_imp]

/-- An expression is misused in one of the two parts. -/
private theorem anyMisused_append : AnyMisused b f (es ++ rest) ↔ AnyMisused b f es ∨ AnyMisused b f rest := by
  simp only [AnyMisused, List.mem_append, or_and_right, exists_or]

/-- Expressions that are visited on a condition. -/
private theorem anyMisused_if {p : Prop} [Decidable p] :
    AnyMisused b f (if p then es else []) ↔ p ∧ AnyMisused b f es := by
  split
  · next hp => simp only [hp, true_and]
  · next hp => simp only [hp, false_and, anyMisused_nil]

/-- What is no call is misused only within. -/
theorem anyMisused_within (h : ¬ Misused b f e) : AnyMisused b f (e :: es) ↔ AnyMisused b f es := by
  rw [anyMisused_cons, or_iff_right h]

end Misuse

/-! ## Faults -/

section Steps

variable {e left right test ifTrue ifFalse : Expr}

/-- A member comes upon the faults of its target. -/
private theorem member_fault {name : String} :
    evaluate b (.member e name) = .error (.fault f) ↔ evaluate b e = .error (.fault f) := by
  cases e with
  | param p =>
    rw [evaluate]
    exact iff_of_false (ofOption_ne_fault _) nofun
  | _ => simp only [evaluate, bind_ofOption_fault]

/-- A unary operator comes upon the faults of its operand. -/
private theorem unary_fault {op : UnaryOp} :
    evaluate b (.unary op e) = .error (.fault f) ↔ evaluate b e = .error (.fault f) := by
  rw [evaluate]
  cases op <;> exact bind_ofOption_fault

/-- A binary operator comes upon the faults of its left side, and of the right side if it goes on.

**Proof sketch.** By the operator. A conjunction goes on from true, a disjunction from false, a choice of the first
known value from null, and every other operator from any value. -/
private theorem binary_fault {op : BinaryOp} :
    evaluate b (.binary op left right) = .error (.fault f) ↔
      evaluate b left = .error (.fault f) ∨
        goesOn op (evaluate b left) = true ∧ evaluate b right = .error (.fault f) := by
  -- the right side of a conjunction or disjunction has to be a truth value, which is no fault
  have htruth : (do
      let r ← evaluate b right
      return Value.bool (← Evaluation.ofOption r.toBool?)) = .error (.fault f) ↔
      evaluate b right = .error (.fault f) :=
    bind_truth_fault.trans (or_iff_left (by rintro (⟨-, h⟩ | ⟨-, h⟩) <;> cases h))
  cases op with
  | and =>
    rw [evaluate]
    refine bind_truth_fault.trans (or_congr_right ?_)
    simp only [goesOn, beq_iff_eq]
    refine (or_iff_left ?_).trans (and_congr_right fun _ => htruth)
    rintro ⟨-, ⟨⟩⟩
  | or =>
    rw [evaluate]
    refine bind_truth_fault.trans (or_congr_right ?_)
    simp only [goesOn, beq_iff_eq]
    refine (or_iff_right ?_).trans (and_congr_right fun _ => htruth)
    rintro ⟨-, ⟨⟩⟩
  | coalesce =>
    rw [evaluate, Except.bind_eq_error]
    refine or_congr_right ?_
    cases evaluate b left with
    | error h => simp [goesOn]
    | ok l =>
      cases hl : l.isNull with
      | true => simp [goesOn, hl]
      | false =>
        refine iff_of_false ?_ (by simp [goesOn, hl])
        rintro ⟨a, ⟨⟩, h⟩
        rw [hl, if_neg Bool.false_ne_true] at h
        cases h
  | _ =>
    rw [evaluate, Except.bind_eq_error]
    · simp only [bind_ofOption_fault]
      exact or_congr_right exists_ok_and
    all_goals rintro ⟨⟩

/-- A choice comes upon the faults of its test and of the side that is chosen. -/
private theorem conditional_fault :
    evaluate b (.conditional test ifTrue ifFalse) = .error (.fault f) ↔
      evaluate b test = .error (.fault f) ∨
        ((evaluate b test).truth? = some true ∧ evaluate b ifTrue = .error (.fault f)) ∨
        ((evaluate b test).truth? = some false ∧ evaluate b ifFalse = .error (.fault f)) := by
  rw [evaluate]
  exact bind_truth_fault

end Steps

mutual

/-- **The faults of evaluating an expression**: it comes to a call that has no answer.

**Proof sketch.** By induction on the expression: the parts are visited in the order in which they are evaluated, up
to the first one that has no value, and the call itself only after all of its operands. -/
theorem evaluate_fault_iff : ∀ e : Expr, evaluate b e = .error (.fault f) ↔ AnyMisused b f (visited b e)
  | .constant _ | .captured .. | .lambda .. | .param _ | .query _ => by
    rw [visited, anyMisused_within id, evaluate]
    exact iff_of_false nofun anyMisused_nil
  | .static .. => by
    rw [visited, anyMisused_within id, evaluate]
    exact iff_of_false (ofOption_ne_fault _) anyMisused_nil
  | .member operand _ => by
    rw [member_fault, visited, anyMisused_within id, evaluate_fault_iff operand]
  | .unary _ operand => by
    rw [unary_fault, visited, anyMisused_within id, evaluate_fault_iff operand]
  | .convert operand _ => by
    rw [evaluate, bind_ofOption_fault, visited, anyMisused_within id, evaluate_fault_iff operand]
  | .binary _ left right => by
    rw [binary_fault, visited, anyMisused_within id, anyMisused_append, anyMisused_if, evaluate_fault_iff left,
      evaluate_fault_iff right]
  | .conditional test ifTrue ifFalse => by
    rw [conditional_fault, visited, anyMisused_within id, anyMisused_append, evaluate_fault_iff test,
      evaluate_fault_iff ifTrue, evaluate_fault_iff ifFalse]
    cases (evaluate b test).truth? with
    | none => simp [anyMisused_nil]
    | some p => cases p <;> simp
  | .array items => by
    rw [evaluate, Except.map_eq_error, visited, anyMisused_within id, evaluateItems_fault_iff items]
  | .object members => by
    rw [evaluate, Except.map_eq_error, visited, anyMisused_within id, evaluateMembers_fault_iff members]
  | .call (some target) type method args => by
    rw [evaluate, visited, anyMisused_cons, anyMisused_append, anyMisused_if, ← evaluateItems_fault_iff args,
      ← evaluate_fault_iff target, Except.bind_eq_error, ← exists_ok_and]
    simp only [Except.bind_eq_error, callOn_fault_iff, Misused, and_or_left, exists_or, exists_and_left]
    rw [← or_assoc, or_comm]
  | .call none (some type) method args => by
    rw [evaluate, visited, anyMisused_cons, ← evaluateItems_fault_iff args, Except.bind_eq_error]
    simp only [callOf_fault_iff, Misused]
    exact or_comm
  | .call none none method args => by
    rw [evaluate, visited, anyMisused_within id, ← evaluateItems_fault_iff args, Except.bind_eq_error]
    refine or_iff_left ?_
    rintro ⟨_, -, h⟩
    cases h

/-- Items come upon the faults of what is visited in them. -/
private theorem evaluateItems_fault_iff : ∀ es : List Expr,
    evaluateItems b es = .error (.fault f) ↔ AnyMisused b f (visitedItems b es)
  | [] => iff_of_false nofun anyMisused_nil
  | e :: rest => by
    rw [evaluateItems, visitedItems, anyMisused_append, anyMisused_if, ← evaluate_fault_iff e,
      ← evaluateItems_fault_iff rest, Except.bind_eq_error, ← exists_ok_and]
    simp only [Except.map_eq_error]

/-- Members come upon the faults of what is visited in them. -/
private theorem evaluateMembers_fault_iff : ∀ ms : List (String × Expr),
    evaluateMembers b ms = .error (.fault f) ↔ AnyMisused b f (visitedMembers b ms)
  | [] => iff_of_false nofun anyMisused_nil
  | (name, e) :: rest => by
    rw [evaluateMembers, visitedMembers, anyMisused_append, anyMisused_if, ← evaluate_fault_iff e,
      ← evaluateMembers_fault_iff rest, Except.bind_eq_error, ← exists_ok_and]
    simp only [Except.map_eq_error]

end

end Host

/-! ## Compiling and fetching -/

/-- What has no property to preserve has it anywhere. -/
theorem Node.local_true : Node.Local fun _ => True := by
  constructor <;> intros <;> trivial

/-- Compiling comes upon a fault only where evaluating an expression of a statement does. -/
theorem Compiler.fault_of_parts {c : Compiler} {job : Job} {f : Fault} (h : c.results job = .error (.fault f)) :
    ∃ e ∈ job.parts, Host.value e = .error (.fault f) := by
  let F := Feature.every Node.local_true (· ∈ job.parts) (fun f => ∃ e ∈ job.parts, Host.value e = .error (.fault f))
    (fun _ _ => trivial) fun he hv => ⟨_, he, hv⟩
  have hchanges : ∀ e, F.Changes e := fun e =>
    { fields := fun _ => Node.local_true.fieldProperty fun _ _ => trivial
      parameter := fun _ => Node.every_bound.mpr trivial }
  exact fault_of_results h (F := F) fun s hs =>
    { parts := fun x hx => List.mem_flatMap.mpr ⟨s, hs, hx⟩
      changes := fun _ _ e _ => hchanges e }

/-- What is left for evaluation after fetching comes upon the faults of its expression on the row. -/
theorem Deferred.evaluate_fault_iff {p : Deferred} {r : Row} {f : Fault} :
    p.evaluate r = .error (.fault f) ↔ ∃ b, p.bindings r = .ok b ∧ Host.evaluate b p.expr = .error (.fault f) := by
  unfold evaluate
  cases p.bindings r with
  | error e => exact iff_of_false nofun (by simp)
  | ok b =>
    constructor
    · intro h
      refine ⟨b, rfl, ?_⟩
      dsimp only at h
      split at h
      · cases h
      · cases h
      · next hfault =>
        cases h
        exact hfault
    · rintro ⟨_, ⟨⟩, hfault⟩
      dsimp only
      rw [hfault]
      rfl

/-- **Faults are calls that have no answer**: evaluating an expression comes upon a fault exactly where it comes to
such a call, whatever the bindings; compiling only where evaluating an expression of a statement does; and what is left
for evaluation after fetching exactly where it comes to such a call with the values of the row.

**Proof sketch.** By induction on the expression, along the order of evaluation: a fault is that of the first part
that has one, or that of the call itself if all of its operands have values, and the calls of each kind come upon
faults exactly where they have no answer. Compiling evaluates nothing but parts of the statements. -/
theorem faults_of_evaluation (f : Fault) :
    (∀ b e, Host.evaluate b e = .error (.fault f) ↔ ∃ x ∈ Host.visited b e, Host.Misused b f x) ∧
    (∀ (c : Compiler) job, c.results job = .error (.fault f) →
      ∃ e ∈ job.parts, ∃ x ∈ Host.visited .none e, Host.Misused .none f x) ∧
    ∀ (p : Deferred) row, p.evaluate row = .error (.fault f) ↔
      ∃ b, p.bindings row = .ok b ∧ ∃ x ∈ Host.visited b p.expr, Host.Misused b f x := by
  refine ⟨fun b e => Host.evaluate_fault_iff e, fun c job h => ?_, fun p row => ?_⟩
  · obtain ⟨e, he, hv⟩ := Compiler.fault_of_parts h
    exact ⟨e, he, (Host.evaluate_fault_iff e).mp hv⟩
  · simp only [Deferred.evaluate_fault_iff, Host.evaluate_fault_iff, Host.AnyMisused]

/-- A model of events on days. -/
def agenda : Compiler where
  model := ⟨[
    { name := "Event"
      table := "event"
      fields :=
        [{ member := "Id", column := "id", type := .int32, native := .int32, isKey := true },
          { member := "Day", column := "day", type := .dateOnly, native := .date }] }]⟩

/-- The first of January 2024, moved by a number of days. -/
def movedBy (n : Int64) : Expr :=
  .call (some (.captured "day" (.date ⟨2024, 1, 1, by decide⟩))) none "AddDays" [.captured "n" (.int n)]

/-- The events after a day. -/
def eventsAfter (day : Expr) : Job := .statement (.select ((Query.ofSource (.entity "Event")).filter
  (.lambda ["e"] (.binary .gt (.member (.param "e") "Day") day))))

/-- Moving a date by the largest number of days comes upon a fault. -/
theorem movedBy_most_fault :
    (∃ x ∈ Host.visited .none (movedBy Int64.maxValue), Host.Misused .none .daysBeyondDuration x) ∧
      agenda.results (eventsAfter (movedBy Int64.maxValue)) = .error (.fault .daysBeyondDuration) ∧
      ∃ e ∈ (eventsAfter (movedBy Int64.maxValue)).parts, ∃ x ∈ Host.visited .none e,
        Host.Misused .none .daysBeyondDuration x := by
  obtain ⟨hevaluate, hresults, -⟩ := faults_of_evaluation .daysBeyondDuration
  have hfault : agenda.results (eventsAfter (movedBy Int64.maxValue)) = .error (.fault .daysBeyondDuration) := rfl
  exact ⟨(hevaluate _ _).mp rfl, hfault, hresults _ _ hfault⟩

/-- A date has no hours. -/
example : Host.value (.call (some (.constant (.date ⟨2024, 1, 1, by decide⟩))) none "ToString"
    [.constant (.string "HH")]) = .error (.fault .fieldNotThere) := rfl

/-- No memory has room for a text of the largest width. -/
example : Host.value (.call (some (.constant (.string "x"))) none "PadLeft" [.constant (.int Int64.maxValue)]) =
    .error (.fault .paddingBeyondMemory) := rfl

end LambdaSql
