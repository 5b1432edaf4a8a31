import LambdaSql.Proofs.Meaning.Folding

/-!
# Calls of types

A call of a type with nothing but values at hand in it is evaluated when it is planned, if calls may be, and the same call
on columns becomes a function of the database. Here is what this means for any method of any type.

## Main definitions

* `Expr.callOf` - a call of a type.

## Main results

* `Expr.value_callOf`, `Expr.atHand?_callOf` - a call with values as arguments is evaluated as the method.
* `Lowering.gives_callOf_function` - a call becomes a function of the values of its arguments.
-/

namespace LambdaSql

open Planning

variable {V : Type} {I : Interpretation V} {s : Scope} {p : Progress} {type method : String} {args : List Expr}
  {vs : List Value}

/-- A call of a type. -/
def Expr.callOf (type method : String) (args : List Expr) : Expr := .call none (some type) method args

namespace Expr

/-- A call with values as arguments is evaluated as the method. -/
theorem value_callOf (h : List.Forall₂ Holds args vs) :
    Host.value (callOf type method args) = Host.callOf type method vs := by
  rw [Host.value, callOf, Host.evaluate, Host.evaluateItems_of_holds h]
  rfl

/-- Such a call is planned by its value, if there is one. -/
theorem atHand?_callOf (hfold : s.compiler.options.foldCalls = true) (htype : type ≠ "Sql")
    (h : List.Forall₂ Holds args vs) {v : Value} (hv : Host.callOf type method vs = .ok v) :
    (callOf type method args).atHand? s = some v := by
  refine atHand?_eq_some.mpr ⟨?_, by rw [hfold, Bool.true_or], by rw [value_callOf h, hv]⟩
  rw [callOf, origin, if_neg (fun heq => htype (Option.some.inj heq))]
  exact originOfItems_of_holds h _

/-- Constants hold their values, position by position. -/
theorem holds_constants (vs : List Value) : List.Forall₂ Holds (vs.map .constant) vs :=
  List.forall₂_map_left_iff.mpr (List.forall₂_same.mpr fun v _ => .constant v)

end Expr

namespace Lowering

/-- A call of a type becomes a function of the values of its arguments. -/
theorem gives_callOf_function {f : SqlFunction} {returns : ReturnType}
    (hmethod : s.compiler.translations.methodOf? type method (.exactly args.length) = some (.function f returns))
    (h : List.Forall₂ (Expr.Denotes I s) args vs) (p : Progress) :
    ∃ ns q t, (callOf (some type) method (LambdaSql.operands args)).Gives s p (.call f ns t) q ∧
      ns.map (Node.eval I) = vs.map I.value := by
  obtain ⟨ns, q, hns, hevals⟩ := gives_args h p
  have hnodes : (Lowering.operands none (LambdaSql.operands args)).Gives s p ns q := by
    unfold Lowering.operands
    simp only [gives_bind, gives_pure]
    exact ⟨ns, q, hns, rfl, rfl⟩
  have hlooked (n : Node) (happly : (apply (.function f returns) none (LambdaSql.operands args) type method).Gives s p n q) :
      (callOf (some type) method (LambdaSql.operands args)).Gives s p n q := by
    unfold callOf
    rw [← operands_length] at hmethod
    simp only [gives_translations.mpr ⟨rfl, rfl⟩ |>.bind_iff, hmethod]
    exact happly
  cases returns with
  | fixed t =>
    exact ⟨ns, q, t, hlooked _ (gives_bind.mpr ⟨ns, q, hnodes, gives_pure.mpr ⟨rfl, rfl⟩⟩), hevals⟩
  | operand =>
    exact ⟨ns, q, firstType ns, hlooked _ (gives_bind.mpr ⟨ns, q, hnodes, gives_pure.mpr ⟨rfl, rfl⟩⟩), hevals⟩

end Lowering

end LambdaSql
