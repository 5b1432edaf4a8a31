import LambdaSql.Proofs.Plan.Outcome
import LambdaSql.Plan.Query

/-!
# Values at hand

An expression that reads nothing from the database may have a value when it is planned. It is then planned by
that value, and otherwise as it is lowered.

## Main definitions

* `Evaluation.Faultless` - an evaluation does not come upon a fault.
* `Expr.atHand?` - the value that replaces an expression.

## Main results

* `Expr.operand_value` - every expression is planned by its value at hand, if there is one.
* `Lowering.gives_folded_of_atHand`, `Lowering.gives_folded_of_none` - values at hand come first.
-/

namespace LambdaSql

open Planning

variable {s : Scope} {e : Expr} {p p' : Progress}

/-- Whether an evaluation does not come upon a fault. -/
def Evaluation.Faultless {α : Type} (x : Evaluation α) : Prop := ∀ f, x ≠ .error (.fault f)

namespace Evaluation

variable {α β : Type}

/-- Two evaluations in turn are faultless if both are. -/
theorem Faultless.bind {x : Evaluation α} {f : α → Evaluation β} (hx : x.Faultless)
    (hf : ∀ a, x = .ok a → (f a).Faultless) : (x >>= f).Faultless := by
  rcases x with (_ | g) | a
  · exact nofun
  · exact absurd rfl (hx g)
  · exact hf a rfl

/-- A result is faultless. -/
theorem Faultless.ok (a : α) : Faultless (.ok a) := nofun

/-- Giving up is faultless. -/
theorem Faultless.ofOption (o : Option α) : Faultless (.ofOption o) := by cases o <;> exact nofun

/-- An attempt tells whether there is a value. -/
theorem toOption_of_attempt {x : Evaluation α} {o : Option α} (h : x.attempt = .ok o) : x.toOption = o := by
  rcases x with (_ | _) | a <;> cases h <;> rfl

/-- An attempt that succeeds has the value. -/
theorem eq_ok_of_attempt {x : Evaluation α} {a : α} (h : x.attempt = .ok (some a)) : x = .ok a := by
  rcases x with (_ | _) | a <;> cases h
  rfl

end Evaluation

/-! ## Operands of expressions -/

/-- An operand is made from its expression. -/
@[simp]
theorem operand_source (e : Expr) : (operand e).source = e := by
  cases e with
  | binary op l r =>
    rw [operand]
    split <;> rfl
  | call target type method args => cases target <;> rfl
  | _ => rfl

/-- Operands are made from their expressions. -/
@[simp]
theorem operands_source (es : List Expr) : (operands es).map Operand.source = es := by
  induction es with
  | nil => rfl
  | cons e rest ih => rw [operands, List.map_cons, ih, operand_source]

/-- There are as many operands as expressions. -/
@[simp]
theorem operands_length (es : List Expr) : (operands es).length = es.length := by
  induction es with
  | nil => rfl
  | cons e rest ih => exact congrArg (· + 1) ih

namespace Expr

/-- The value by which an expression is planned, if it is evaluated at compile time. -/
def atHand? (s : Scope) (e : Expr) : Option Value :=
  if e.origin s.compiler.translations = .sql then none
  else if s.compiler.options.foldCalls || !e.containsCall then
    match Host.value e with
    | .ok v => some v
    | .error _ => none
  else none

/-- A value is at hand where the expression needs no column, may be folded and has that value. -/
theorem atHand?_eq_some {v : Value} :
    e.atHand? s = some v ↔ e.origin s.compiler.translations ≠ .sql ∧
      (s.compiler.options.foldCalls || !e.containsCall) = true ∧ Host.value e = .ok v := by
  unfold atHand?
  by_cases ho : e.origin s.compiler.translations = .sql
  · simp [ho]
  · rw [if_neg ho]
    by_cases hc : (s.compiler.options.foldCalls || !e.containsCall) = true
    · rw [if_pos hc]
      cases hv : Host.value e <;> simp [ho, hc]
    · rw [if_neg hc]
      simp [hc]

/-- Every expression is planned by its value at hand, if there is one. -/
theorem operand_value (e : Expr) : ∃ lower, (operand e).value = Lowering.folded e lower := by
  cases e with
  | binary op l r =>
    rw [operand]
    split <;> exact ⟨_, rfl⟩
  | call target type method args => cases target <;> exact ⟨_, rfl⟩
  | _ => exact ⟨_, rfl⟩

end Expr

namespace Lowering

/-- An expression with a value at hand is planned by it. -/
theorem gives_folded_of_atHand {v : Value} (h : e.atHand? s = some v) {lower : Planning Node}
    {n : Node} (hn : (atHand v (e.origin s.compiler.translations)).Gives s p n p') :
    (folded e lower).Gives s p n p' := by
  obtain ⟨ho, hc, hv⟩ := Expr.atHand?_eq_some.mp h
  unfold folded
  simp only [gives_bind, gives_origin]
  refine ⟨_, p, ⟨rfl, rfl⟩, ?_⟩
  rw [if_neg ho]
  simp only [gives_bind, gives_foldable, hc]
  refine ⟨true, p, ⟨rfl, rfl⟩, ?_⟩
  rw [if_pos rfl]
  simp only [gives_bind, gives_valueOf?, hv]
  exact ⟨some v, p, ⟨rfl, rfl⟩, hn⟩

/-- An expression without a value at hand is planned as it is lowered. -/
theorem gives_folded_of_none (h : e.atHand? s = none)
    (hf : e.origin s.compiler.translations ≠ .sql → (Host.value e).Faultless)
    {lower : Planning Node} {n : Node} (hn : lower.Gives s p n p') :
    (folded e lower).Gives s p n p' := by
  unfold folded
  simp only [gives_bind, gives_origin]
  refine ⟨_, p, ⟨rfl, rfl⟩, ?_⟩
  split
  · exact hn
  · next ho =>
    simp only [gives_bind, gives_foldable]
    refine ⟨_, p, ⟨rfl, rfl⟩, ?_⟩
    split
    · next hc =>
      simp only [gives_bind, gives_valueOf?]
      refine ⟨none, p, ⟨?_, rfl⟩, hn⟩
      rcases hv : Host.value e with (_ | f) | v
      · rfl
      · exact absurd hv (hf ho f)
      · exact absurd (Expr.atHand?_eq_some.mpr ⟨ho, hc, hv⟩) (by simp [h])
    · exact hn

end Lowering

end LambdaSql
