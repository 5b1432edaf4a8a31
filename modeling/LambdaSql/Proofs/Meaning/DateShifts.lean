import LambdaSql.Proofs.Meaning.Folding
import LambdaSql.Proofs.Meaning.Formulas
import LambdaSql.Proofs.Meaning.Numbers

/-!
# Shifted dates

A date is shifted by a number of units, which a method may count in multiples of a scale. If the number is a constant then
it is multiplied when it is planned, and the sign decides between adding and subtracting. If it is captured then it is
multiplied by the database. Both ways shift the date by the same interval, unless the product has no magnitude of 64
bits: then a constant is refused.

## Main definitions

* `Node.Shifts` - a node shifts another one by a number of units.

## Main results

* `DateShift.letters_shift` - how shifts are written.
* `DateShift.gives_constant`, `DateShift.fails_constant` - shifts by a constant.
* `DateShift.gives_captured` - shifts by a captured number.
* `DateShift.constant_eq_captured` - both shift by the same interval.
-/

namespace LambdaSql

open Planning

variable {V : Type} {I : Interpretation V} {ratio : ℚ → V} {s : Scope} {p : Progress} {x : Node} {unit : IntervalUnit}

/-- A node shifts another one by a number of units, which it adds or whose opposite it subtracts. -/
inductive Node.Shifts (I : Interpretation V) (x : Node) (unit : IntervalUnit) : Node → V → Prop
  | add {a : Node} {v : V} (t : HostType) : a.eval I = some v → Shifts I x unit (.call (.dateAdd unit) [x, a] t) v
  | sub {a : Node} {v : V} (t : HostType) : a.eval I = some v →
    Shifts I x unit (.call (.dateSub unit) [x, a] t) (I.minus v)

namespace DateShift

/-! ## What is written -/

/-- What is written for a shift. -/
def text (keyword : String) (x a : Node) (unit : IntervalUnit) : Sketch :=
  Sketch.ofChars (keyword ++ "(").toList ++ ((sketchNode MySql.dialect x).letters ++
    (Sketch.ofChars ",INTERVAL ".toList ++ ((sketchNode MySql.dialect a).letters ++
      Sketch.ofChars (" " ++ unit.keyword ++ ")").toList)))

/-- The template that adds an interval to a date. -/
private theorem pieces_add (unit : IntervalUnit) : Template.pieces (MySql.dialect.template (.dateAdd unit)) =
    Template.layout "DATE_ADD(" [(0, true, ",INTERVAL "), (1, false, " " ++ unit.keyword ++ ")")] := by
  cases unit <;> exact Template.pieces_eq_layout (by decide +kernel)

/-- The template that takes an interval from a date. -/
private theorem pieces_sub (unit : IntervalUnit) : Template.pieces (MySql.dialect.template (.dateSub unit)) =
    Template.layout "DATE_SUB(" [(0, true, ",INTERVAL "), (1, false, " " ++ unit.keyword ++ ")")] := by
  cases unit <;> exact Template.pieces_eq_layout (by decide +kernel)

/-- **How shifts are written**: an interval that does not hold together by itself stands in parentheses. -/
theorem letters_shift (x a : Node) (unit : IntervalUnit) (t : HostType) :
    (sketchNode MySql.dialect (.call (.dateAdd unit) [x, a] t)).letters = text "DATE_ADD" x a.closed unit ∧
      (sketchNode MySql.dialect (.call (.dateSub unit) [x, a] t)).letters = text "DATE_SUB" x a.closed unit := by
  rw [sketchNode, sketchNode, pieces_add, pieces_sub, Template.letters_layout_cons rfl, Template.letters_layout_cons rfl,
    Template.letters_layout_nil, Template.letters_layout_cons rfl, Template.letters_layout_cons rfl,
    Template.letters_layout_nil]
  simp only [Bool.not_true, Bool.false_and, Bool.not_false, Bool.true_and, Sketch.parenthesisedIf_false, Node.sketch_closed]
  exact ⟨rfl, rfl⟩

/-! ## Constants -/

variable {e : Expr} {n scale : Int64}

/-- A constant that is at hand is found. -/
theorem gives_constantValue? (he : e.atHand? s = some (.int n)) (horigin : e.origin s.compiler.translations = .constant) :
    (Lowering.constantValue? e).Gives s p (some (.int n)) p := by
  obtain ⟨-, hfold, hvalue⟩ := Expr.atHand?_eq_some.mp he
  have hattempt : (Host.value e).attempt = .ok (some (.int n)) := by
    rw [hvalue]
    rfl
  unfold Lowering.constantValue?
  rw [(Lowering.gives_origin.mpr ⟨rfl, rfl⟩).bind_iff, if_pos horigin, (Lowering.gives_foldable.mpr ⟨rfl, rfl⟩).bind_iff,
    if_pos hfold]
  exact Lowering.gives_valueOf?.mpr ⟨hattempt, rfl⟩

/-- A product that has a magnitude of 64 bits is computed. -/
theorem exists_magnitude (h : |n.toInt * scale.toInt| < 2 ^ 63) :
    ∃ scaled size, Checked.mul n scale = some scaled ∧ Checked.abs scaled = some size ∧
      scaled.toInt = n.toInt * scale.toInt ∧ size.toInt = |n.toInt * scale.toInt| := by
  obtain ⟨hlower, hupper⟩ := abs_lt.mp h
  have hscaled : (Int64.ofInt (n.toInt * scale.toInt)).toInt = n.toInt * scale.toInt :=
    Int64.toInt_ofInt_of_le hlower.le hupper
  have hsize : (Int64.ofInt |n.toInt * scale.toInt|).toInt = |n.toInt * scale.toInt| :=
    Int64.toInt_ofInt_of_le ((by decide : (-2 ^ 63 : Int) ≤ 0).trans (abs_nonneg _)) h
  exact ⟨_, _, Checked.ofInt?_eq_some_iff.mpr hscaled, Checked.abs_eq_some_iff.mpr (by rw [hsize, hscaled]), hscaled,
    hsize⟩

/-- **A shift by a constant** adds or subtracts the magnitude of the product.

**Proof sketch.** The magnitude of the product is computed without overflow, and a negative product is subtracted:
taking away its magnitude is adding it. -/
theorem gives_constant (x : Node) (unit : IntervalUnit) (hI : I.ReadsNumbers ratio) (he : e.atHand? s = some (.int n))
    (horigin : e.origin s.compiler.translations = .constant) (h : |n.toInt * scale.toInt| < 2 ^ 63) :
    ∃ size : Int64, 0 ≤ size.toInt ∧
      (Lowering.dateAdd x (operand e) unit scale).Gives s p
        (.call (if n.toInt * scale.toInt < 0 then .dateSub unit else .dateAdd unit) [x, .ofInt size] x.type) p ∧
      Node.Shifts I x unit
        (.call (if n.toInt * scale.toInt < 0 then .dateSub unit else .dateAdd unit) [x, .ofInt size] x.type)
        (ratio (n.toInt * scale.toInt : Int)) := by
  obtain ⟨scaled, size, hmul, habs, hscaled, hsize⟩ := exists_magnitude h
  refine ⟨size, hsize ▸ abs_nonneg _, ?_, ?_⟩
  · unfold Lowering.dateAdd
    rw [operand_source, (gives_constantValue? he horigin).bind_iff]
    simp only [Lowering.shiftedByValue, hmul, habs, hscaled]
    exact gives_bind.mpr ⟨_, p, gives_pure.mpr ⟨rfl, rfl⟩, gives_pure.mpr ⟨by simp, rfl⟩⟩
  · split
    · next hneg =>
      have hvalue : (Node.ofInt size).eval I = some (ratio (-(n.toInt * scale.toInt) : Int)) := by
        rw [hI.eval_ofInt, hsize, abs_of_neg hneg]
      have hshift : Node.Shifts I x unit (.call (.dateSub unit) [x, .ofInt size] x.type) _ := .sub x.type hvalue
      rwa [hI.minus, ← Int.cast_neg, neg_neg] at hshift
    · next hneg =>
      refine .add x.type ?_
      rw [hI.eval_ofInt, hsize, abs_of_nonneg (not_lt.mp hneg)]

/-- **A shift by a constant is refused if the product has no magnitude of 64 bits.**

**Proof sketch.** Whether the product overflows or only its magnitude does, there is no number to write. -/
theorem fails_constant (he : e.atHand? s = some (.int n)) (horigin : e.origin s.compiler.translations = .constant)
    (h : 2 ^ 63 ≤ |n.toInt * scale.toInt|) :
    (Lowering.dateAdd x (operand e) unit scale).outcome s p =
      (.error (.error (.intervalOverflow n.toInt scale.toInt)), p) := by
  have hnone : (do Checked.abs (← Checked.mul n scale)) = none := by
    rw [Option.bind_eq_bind, Option.bind_eq_none_iff]
    intro scaled hmul
    refine Option.eq_none_iff_forall_ne_some.mpr fun size habs => ?_
    have hsize := Checked.abs_eq_some_iff.mp habs
    rw [Checked.toInt_mul hmul] at hsize
    exact absurd size.toInt_lt (by omega)
  have hconstant := gives_constantValue? (p := p) he horigin
  unfold Gives at hconstant
  unfold Lowering.dateAdd
  rw [operand_source, outcome_bind, hconstant]
  simp only [Lowering.shiftedByValue]
  -- the product may be out of range itself, or have a magnitude that is
  rcases hmul : Checked.mul n scale with _ | scaled
  · rfl
  · rw [hmul] at hnone
    simp only [show Checked.abs scaled = none from hnone]
    rfl

/-! ## Captured numbers -/

/-- **A shift by a captured number** adds the product of the number and the scale.

**Proof sketch.** A captured number is no constant, so it is bound, and multiplied by the scale in the database unless
that is one. -/
theorem gives_captured (x : Node) (unit : IntervalUnit) (scale : Int64) (hI : I.ReadsNumbers ratio) (he : e.atHand? s = some (.int n))
    (horigin : e.origin s.compiler.translations = .captured) :
    ∃ a, (Lowering.dateAdd x (operand e) unit scale).Gives s p (.call (.dateAdd unit) [x, a] x.type) p ∧
      a.eval I = some (ratio (n.toInt * scale.toInt : Int)) := by
  have hnone : (Lowering.constantValue? e).Gives s p none p := by
    unfold Lowering.constantValue?
    rw [(Lowering.gives_origin.mpr ⟨rfl, rfl⟩).bind_iff, if_neg (by rw [horigin]; exact nofun)]
    exact gives_pure.mpr ⟨rfl, rfl⟩
  obtain ⟨lower, hlower⟩ := e.operand_value
  have hparameter : (operand e).value.Gives s p (.parameter (.int n)) p := by
    rw [hlower]
    exact Lowering.gives_folded_of_atHand he (by rw [horigin]; rfl)
  have hvalue : (Node.parameter (.int n)).eval I = some (ratio n.toInt) := hI.value_int n
  have hgives (a : Node) (ha : a = if scale = 1 then Node.parameter (.int n)
      else .binary .mul (.parameter (.int n)) (.ofInt scale) (Node.parameter (.int n)).type) :
      (Lowering.dateAdd x (operand e) unit scale).Gives s p (.call (.dateAdd unit) [x, a] x.type) p := by
    unfold Lowering.dateAdd
    rw [operand_source, hnone.bind_iff, hparameter.bind_iff, ha]
    exact gives_pure.mpr ⟨rfl, rfl⟩
  refine ⟨_, hgives _ rfl, ?_⟩
  split
  · next hone =>
    rw [hvalue, hone, show (1 : Int64).toInt = 1 from rfl, mul_one]
  · change (do I.compute .mul (← (Node.parameter (.int n)).eval I) (← (Node.ofInt scale).eval I)) = _
    rw [hvalue, hI.eval_ofInt, Int.cast_mul]
    exact hI.mul _ _

/-! ## Both ways -/

/-- **Constant and captured numbers shift by the same interval.** If the product of a constant and the scale has a
magnitude of 64 bits then a time is shifted by the product: its magnitude is written out, and is added or, if the product
is negative, subtracted. If it has none then the constant is refused as an invalid expression. A captured number is bound
and multiplied in the statement, in parentheses, and the time is shifted by the product, too.

**Proof sketch.** Products and magnitudes are computed exactly or not at all, and a product without a magnitude is either
no number of 64 bits or the least one. -/
theorem constant_eq_captured (hI : I.ReadsNumbers ratio) {e e' : Expr} {n : Int64} (he : e.atHand? s = some (.int n))
    (hconstant : e.origin s.compiler.translations = .constant) (he' : e'.atHand? s = some (.int n))
    (hcaptured : e'.origin s.compiler.translations = .captured) (x : Node) (unit : IntervalUnit) (scale : Int64)
    (p : Progress) :
    (|n.toInt * scale.toInt| ≤ 2 ^ 63 - 1 → ∃ size : Int64, 0 ≤ size.toInt ∧
      (Lowering.dateAdd x (operand e) unit scale).Gives s p
        (.call (if n.toInt * scale.toInt < 0 then .dateSub unit else .dateAdd unit) [x, .ofInt size] x.type) p ∧
      Node.Shifts I x unit
        (.call (if n.toInt * scale.toInt < 0 then .dateSub unit else .dateAdd unit) [x, .ofInt size] x.type)
        (ratio (n.toInt * scale.toInt : Int))) ∧
    ((∃ error : SqlError, error.category = .invalidExpression ∧
      (Lowering.dateAdd x (operand e) unit scale).outcome s p = (.error (.error error), p)) ↔
        2 ^ 63 - 1 < |n.toInt * scale.toInt|) ∧
    ∃ a, (Lowering.dateAdd x (operand e') unit scale).Gives s p (.call (.dateAdd unit) [x, a] x.type) p ∧
      (sketchNode MySql.dialect (.call (.dateAdd unit) [x, a] x.type)).letters = text "DATE_ADD" x a.closed unit ∧
      Node.Shifts I x unit (.call (.dateAdd unit) [x, a] x.type) (ratio (n.toInt * scale.toInt : Int)) := by
  refine ⟨fun h => gives_constant x unit hI he hconstant (by omega), ⟨fun ⟨error, _, hfails⟩ => ?_, fun h => ?_⟩, ?_⟩
  · by_contra hle
    obtain ⟨size, -, hgives, -⟩ := gives_constant (p := p) x unit hI he hconstant
      (show |n.toInt * scale.toInt| < 2 ^ 63 by omega)
    cases hgives.symm.trans hfails
  · exact ⟨_, rfl, fails_constant he hconstant (by omega)⟩
  · obtain ⟨a, ha, hvalue⟩ := gives_captured (p := p) x unit scale hI he' hcaptured
    exact ⟨a, ha, (letters_shift x a unit _).1, .add x.type hvalue⟩

/-! ### Milliseconds -/

/-- A scope without parameters. -/
def emptyScope : Scope where
  compiler := { model := {} }
  frames := []

/-- The time at which something was sent. -/
def sent : Node := .column (some "a") "sent" .dateTime

/-- Three milliseconds, which the database counts in microseconds, are taken away in either way. -/
theorem milliseconds_shifted :
    ∃ (I : Interpretation ℚ) (size : Int64) (a : Node), I.ReadsNumbers id ∧ 0 ≤ size.toInt ∧
      (Lowering.dateAdd sent (operand (.constant (.int (-3)))) .microsecond 1000).Gives emptyScope {}
        (.call (.dateSub .microsecond) [sent, .ofInt size] .dateTime) {} ∧
      Node.Shifts I sent .microsecond (.call (.dateSub .microsecond) [sent, .ofInt size] .dateTime) (-3000) ∧
      (Lowering.dateAdd sent (operand (.captured "n" (.int (-3)))) .microsecond 1000).Gives emptyScope {}
        (.call (.dateAdd .microsecond) [sent, a] .dateTime) {} ∧
      Node.Shifts I sent .microsecond (.call (.dateAdd .microsecond) [sent, a] .dateTime) (-3000) := by
  have hnumbers : (Interpretation.exact fun _ _ => none).ReadsNumbers id := Interpretation.exact_readsNumbers
  have hconstant : (Expr.constant (.int (-3))).atHand? emptyScope = some (.int (-3)) := (Expr.Holds.constant _).atHand?
  have hcaptured : (Expr.captured "n" (.int (-3))).atHand? emptyScope = some (.int (-3)) :=
    (Expr.Holds.captured _ _).atHand?
  obtain ⟨hshift, -, a, ha, -, hcapturedShift⟩ := constant_eq_captured hnumbers hconstant rfl hcaptured rfl sent
    .microsecond 1000 {}
  obtain ⟨size, hsize, hgives, hconstantShift⟩ := hshift (by decide)
  have hproduct : (((-3 : Int64).toInt * (1000 : Int64).toInt : Int) : ℚ) = -3000 := by
    rw [show (-3 : Int64).toInt * (1000 : Int64).toInt = -3000 by decide]
    norm_num
  exact ⟨_, size, a, hnumbers, hsize, hgives, hproduct ▸ hconstantShift, ha, hproduct ▸ hcapturedShift⟩

end DateShift

end LambdaSql
