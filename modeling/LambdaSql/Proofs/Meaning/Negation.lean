import LambdaSql.Proofs.Meaning.Interpretation

/-!
# Opposites of tests

`Node.negation` takes the opposite of a test, and prefers forms without a negation: a comparison with true becomes one
with false, and tests for null, for membership and for existence become the other ones of their kind. On every row, the
opposite is true where the test is false, false where it is true, and unknown where it is unknown. Only membership in a
list of just `NULL`, which stands for an empty list, has an opposite that is always true.

## Main definitions

* `Node.Testable` - what is known of the tests that are planned.
* `Node.IsVacuous` - membership in the list of just `NULL`.

## Main results

* `Node.testable_toPredicate` - a truth value as a test.
* `Node.truth_negation` - the opposite of a test.
* `Node.truth_negation_iterate` - opposites of opposites, any number of times.
-/

namespace LambdaSql.Node

variable {V : Type} {I : Interpretation V} {n p : Node}

/-- What is known of the tests that are planned: what stands under a negation is a test, texts are those of the tests
that always have the same outcome, and a value that is compared with true is one, zero or `NULL`. -/
def Testable (I : Interpretation V) : Node → Prop
  | unary .not operand _ => operand.isPredicate = true ∧ operand.Testable I
  | raw text _ => text = "1=1" ∨ text = "1=0"
  | binary .eq left right _ => right.isTrueLiteral = true → left.isPredicate = false → ∃ t, left.eval I = I.ofTruth t
  | _ => True

/-- The test for membership in a list of just `NULL`. -/
def IsVacuous : Node → Prop
  | inList _ [null] false => True
  | _ => False

/-- What is equal to a truth value, as a truth value. -/
theorem truth_equal_ofBool {t : Truth} (h : n.eval I = I.ofTruth t) (b : Bool) (ty : HostType) :
    I.truth ((binary .eq n (ofBool b) ty).eval I) = t.map (· == b) := by
  change I.truth (I.ofTruth (I.test .eq (n.eval I) (I.value (.bool b)))) = _
  rw [h, I.test_ofTruth, I.truth_ofTruth]

/-- A constant truth value is what it says. -/
private theorem truth_always (b : Bool) : I.truth ((always b).eval I) = some b := by
  rw [always, eval, I.raw_always]
  exact I.truth_ofTruth (some b)

/-- A literal for true has the value true. -/
private theorem eval_of_isTrueLiteral (h : n.isTrueLiteral = true) : n.eval I = I.value (.bool true) := by
  unfold isTrueLiteral at h
  split at h
  · rfl
  · cases h

/-- The two forms of a test have opposite outcomes. -/
theorem truth_flipIf_not (negated : Bool) (t : Truth) :
    I.truth (I.ofTruth (t.flipIf !negated)) = (I.truth (I.ofTruth (t.flipIf negated))).not := by
  rw [I.truth_ofTruth, I.truth_ofTruth, flipIf_not]

/-- What stands under a negation has the opposite outcome. -/
theorem truth_not (n : Node) (ty : HostType) : I.truth ((unary .not n ty).eval I) = (I.truth (n.eval I)).not :=
  I.truth_ofTruth _

/-- A truth value as a test has the same outcome. -/
theorem testable_toPredicate (hn : n.isPredicate = true → n.Testable I) {t : Truth} (h : n.eval I = I.ofTruth t) :
    n.toPredicate.isPredicate = true ∧ n.toPredicate.Testable I ∧ I.truth (n.toPredicate.eval I) = t := by
  unfold toPredicate
  split
  · next hp => exact ⟨hp, hn hp, by rw [h, I.truth_ofTruth]⟩
  · split
    · next b _ _ =>
      have ht : t = some b := by
        rw [eval, I.value_bool] at h
        rw [← I.truth_ofTruth t, ← h]
        exact I.truth_ofTruth (some b)
      exact ⟨rfl, by cases b <;> simp [always, Testable], by rw [truth_always, ht]⟩
    · refine ⟨rfl, fun _ _ => ⟨t, h⟩, ?_⟩
      rw [equal, truth_equal_ofBool h]
      rcases t with _ | _ | _ <;> rfl

/-! ## Opposites -/

/-- The opposite of a test is a test. -/
theorem isPredicate_negation (hp : p.isPredicate = true) (h : p.Testable I) : p.negation.isPredicate = true := by
  fun_cases Node.negation p
  case case12 => exact h.1
  all_goals first | rfl | exact hp

/-- The opposite of a test may be taken again. -/
theorem Testable.negation (hp : p.isPredicate = true) (h : p.Testable I) : p.negation.Testable I := by
  fun_cases Node.negation p
  case case1 => exact .inl rfl
  case case7 => exact .inr rfl
  case case8 => exact .inl rfl
  -- the literal of false is not that of true
  case case10 => rintro ⟨⟩
  case case12 => exact h.2
  case case9 | case11 | case13 => exact ⟨hp, h⟩
  all_goals exact trivial

/-- Membership in the list of just `NULL` is unknown, and its opposite is true. -/
theorem truth_of_isVacuous (h : p.IsVacuous) :
    I.truth (p.eval I) = none ∧ I.truth (p.negation.eval I) = some true := by
  unfold IsVacuous at h
  split at h
  · next operand =>
    refine ⟨?_, truth_always true⟩
    change I.truth (I.ofTruth (I.among (operand.eval I) [none])) = none
    rw [I.truth_ofTruth, I.among_null]
  · exact h.elim

/-- **The opposite of a test has the opposite outcome.**

**Proof sketch.** By the form of the test. A test for null, for membership or for existence is turned into the other one
of its kind, and a comparison with true into one with false, which is its opposite for a truth value only; a negation
loses its sign, and any other test gets one. -/
theorem truth_negation (h : p.Testable I) (hv : ¬ p.IsVacuous) :
    I.truth (p.negation.eval I) = (I.truth (p.eval I)).not := by
  fun_cases Node.negation p
  case case1 => exact absurd trivial hv
  case case2 => exact truth_flipIf_not false _
  case case3 => exact truth_flipIf_not true _
  case case4 | case5 | case6 => exact truth_flipIf_not _ _
  case case7 =>
    change I.truth ((always false).eval I) = (I.truth ((always true).eval I)).not
    rw [truth_always, truth_always]
    rfl
  case case8 =>
    change I.truth ((always true).eval I) = (I.truth ((always false).eval I)).not
    rw [truth_always, truth_always]
    rfl
  case case10 left right ty htrue =>
    rw [Bool.and_eq_true, Bool.not_eq_true'] at htrue
    obtain ⟨t, ht⟩ := h htrue.1 htrue.2
    have hright : (binary .eq left right ty).eval I = (binary .eq left (ofBool true) ty).eval I := by
      rw [eval, eval_of_isTrueLiteral htrue.1]
      rfl
    rw [hright, truth_equal_ofBool ht, truth_equal_ofBool ht]
    rcases t with _ | _ | _ <;> rfl
  case case12 operand ty => rw [truth_not, Truth.not_not]
  case case9 | case11 | case13 => exact truth_not _ _

/-- **Opposites of opposites.** However often the opposite of a test is taken, what comes out is a test whose opposite
may be taken once more: it is true where the test is false, false where the test is true, and unknown where the test is
unknown, but for membership in the list of just `NULL`, which is unknown and whose opposite is true.

**Proof sketch.** The opposite of a test is a test whose opposite may be taken as well, so by induction on how often
it is taken there is one step left, which is that of a single test. -/
theorem truth_negation_iterate (hp : p.isPredicate = true) (h : p.Testable I) (k : Nat) :
    (negation^[k] p).isPredicate = true ∧ (negation^[k] p).Testable I ∧
      ((negation^[k] p).IsVacuous →
        I.truth ((negation^[k] p).eval I) = none ∧ I.truth ((negation^[k + 1] p).eval I) = some true) ∧
      (¬ (negation^[k] p).IsVacuous →
        I.truth ((negation^[k + 1] p).eval I) = (I.truth ((negation^[k] p).eval I)).not) := by
  have htest : (negation^[k] p).isPredicate = true ∧ (negation^[k] p).Testable I := by
    induction k with
    | zero => exact ⟨hp, h⟩
    | succ k ih =>
      rw [Function.iterate_succ_apply']
      exact ⟨isPredicate_negation ih.1 ih.2, ih.2.negation ih.1⟩
  rw [Function.iterate_succ_apply']
  exact ⟨htest.1, htest.2, truth_of_isVacuous, truth_negation htest.2⟩

/-- A row with a flag that is set. -/
def flagged : Contents := fun _ name => if name = "flag" then .bool true else .null

/-- The test that the flag is set. -/
def isFlagged : Node := equal (column none "flag" .bool) (ofBool true)

/-- The test that the flag is not in the list of just `NULL`. -/
def notInNothing : Node := unary .not (inList (column none "flag" .bool) [null] false) .bool

/-- A flag that is set, and one that is not among just null, with their opposites. -/
theorem flagged_opposites :
    isFlagged.isPredicate = true ∧ isFlagged.Testable flagged.interpretation ∧
    flagged.interpretation.truth (isFlagged.eval flagged.interpretation) = some true ∧
    flagged.interpretation.truth ((negation^[1] isFlagged).eval flagged.interpretation) = some false ∧
    notInNothing.isPredicate = true ∧ notInNothing.Testable flagged.interpretation ∧
    flagged.interpretation.truth ((negation^[1] notInNothing).eval flagged.interpretation) = none ∧
    flagged.interpretation.truth ((negation^[2] notInNothing).eval flagged.interpretation) = some true := by
  have hflag : isFlagged.Testable flagged.interpretation := fun _ _ => ⟨some true, rfl⟩
  have htrue : flagged.interpretation.truth (isFlagged.eval flagged.interpretation) = some true := rfl
  have hnothing : notInNothing.Testable flagged.interpretation := ⟨rfl, trivial⟩
  obtain ⟨-, -, -, hopposite⟩ := truth_negation_iterate (p := isFlagged) rfl hflag 0
  obtain ⟨-, -, hvacuous, -⟩ := truth_negation_iterate (p := notInNothing) rfl hnothing 1
  refine ⟨rfl, hflag, htrue, ?_, rfl, hnothing, hvacuous trivial⟩
  rw [hopposite id]
  exact congrArg Truth.not htrue

end LambdaSql.Node
