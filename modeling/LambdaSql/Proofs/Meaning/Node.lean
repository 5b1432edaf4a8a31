import LambdaSql.Proofs.Meaning.Datum
import LambdaSql.Sql.Operators

/-!
# What nodes mean to a database

The value that a database computes for a node, on a row whose columns hold given data. Covered are
columns, values, the arithmetic, comparisons and connectives of whole numbers and truth values, the
tests for null and for membership in a list, and the choices `CASE` and `COALESCE`; other nodes have
no value here.

## Main definitions

* `Contents` - what the columns of a row hold.
* `SqlOp.compute?` - a binary operator on cells.
* `Node.cell?` - the value of a node.
* `Node.Tests` - tests with an outcome whose opposite may be taken by `Node.negation`.

## Main results

* `Node.tests_toPredicate` - a truth value as a test has the same outcome.
* `Node.Tests.negation` - the opposite of a test has the opposite outcome.
-/

namespace LambdaSql

/-- What the columns of a row hold, by alias and name. -/
abbrev Contents := Option String → String → Datum

/-- The datum of a value that is null, a truth value or a whole number. -/
def Value.datum? : Value → Option Datum
  | null => some .null
  | bool b => some (.bool b)
  | int n => some (.int n.toInt)
  | _ => none

/-- A binary operator on cells. The quotient of two numbers need not be whole, and bit operations
are left out. -/
def SqlOp.compute? (op : SqlOp) (a b : Cell) : Option Cell :=
  match op with
  | .eq => some (.ofTruth (Cell.test (· == ·) a b))
  | .ne => some (.ofTruth (Cell.test (· != ·) a b))
  | .lt => some (.ofTruth (Cell.test (fun m n => decide (m < n)) a b))
  | .le => some (.ofTruth (Cell.test (fun m n => decide (m ≤ n)) a b))
  | .gt => some (.ofTruth (Cell.test (fun m n => decide (n < m)) a b))
  | .ge => some (.ofTruth (Cell.test (fun m n => decide (n ≤ m)) a b))
  | .and => some (.ofTruth (a.truth.and b.truth))
  | .or => some (.ofTruth (a.truth.or b.truth))
  | .add => some (Cell.lift (· + ·) a b)
  | .sub => some (Cell.lift (· - ·) a b)
  | .mul => some (Cell.lift (· * ·) a b)
  | .intDiv => some (Cell.divided Int.tdiv a b)
  | .mod => some (Cell.divided Int.tmod a b)
  | .div => if a.isSome && b.isSome then none else some none
  | .bitAnd | .bitOr => none

/-- Whether a cell is among several: unknown as soon as a comparison that might decide is. -/
def Cell.among (c : Cell) (items : List Cell) : Truth :=
  items.foldr (fun d t => (Cell.test (· == ·) c d).or t) (some false)

/-- A truth value, or its opposite. -/
def Truth.flipIf (negated : Bool) (t : Truth) : Truth := if negated then t.not else t

namespace Node

mutual

/-- The value that a database computes for a node. -/
def cell? (row : Contents) : Node → Option Cell
  | literal _ v _ | bound v _ _ _ => v.datum?.map Datum.cell
  | column a name _ => some (row a name).cell
  | binary op left right _ => do op.compute? (← cell? row left) (← cell? row right)
  | unary .not operand _ => do return .ofTruth (← cell? row operand).truth.not
  | unary .negate operand _ => do return (← cell? row operand).map (- ·)
  | call .coalesce args _ => do return Cell.firstFilled (← cells? row args)
  | call .. => none
  | case branches otherwise _ => branchCell? row (cell? row otherwise) branches
  | inList operand items negated => do
    return .ofTruth (((← cell? row operand).among (← cells? row items)).flipIf negated)
  | isNull operand negated => do
    return .ofTruth (Truth.flipIf negated (some (← cell? row operand).isNone))
  | group inner => cell? row inner
  | raw text _ => if text = "1=1" then some (some 1) else if text = "1=0" then some (some 0) else none
  | null => some none
  | inQuery .. | .exists .. | subquery .. => none

/-- The values of several nodes. -/
def cells? (row : Contents) : List Node → Option (List Cell)
  | [] => some []
  | n :: rest => do return (← cell? row n) :: (← cells? row rest)

/-- The value of the first branch whose test is true, or else the value given for that. -/
def branchCell? (row : Contents) (otherwise : Option Cell) : List (Node × Node) → Option Cell
  | [] => otherwise
  | (test, value) :: rest => do
    let t ← cell? row test
    let v ← cell? row value
    let r ← branchCell? row otherwise rest
    return if t.truth = some true then v else r

end

/-- The cells of nodes in turn. -/
theorem cells?_append {row : Contents} {ns ms : List Node} {cs ds : List Cell}
    (hn : cells? row ns = some cs) (hm : cells? row ms = some ds) :
    cells? row (ns ++ ms) = some (cs ++ ds) := by
  induction ns generalizing cs with
  | nil =>
    cases hn
    exact hm
  | cons n rest ih =>
    simp only [cells?, Option.bind_eq_bind, Option.bind_eq_some_iff, Option.pure_def,
      Option.some.injEq] at hn
    obtain ⟨c, hc, cs', hcs, rfl⟩ := hn
    simp [cells?, hc, ih hcs]

/-! ## Tests -/

/-- Whether a node, if it has a value, is true, false or unknown: its number is one or zero. -/
def HoldsTruth (row : Contents) (n : Node) : Prop := ∃ t, n.cell? row = some (.ofTruth t)

/-- Whether the opposite of a test may be taken by `Node.negation`: what is compared with true, and
what stands under a negation, is a truth value, and no membership in the list of just null is
tested. -/
def WellTested (row : Contents) : Node → Prop
  | binary .eq left right _ =>
    right.isTrueLiteral = true → left.isPredicate = false → left.HoldsTruth row
  | unary .not operand _ => operand.isPredicate = true ∧ operand.type = .bool ∧
    operand.HoldsTruth row ∧ operand.WellTested row
  | inList _ items _ => items ≠ [null]
  | inQuery .. | .exists .. => False
  | _ => True

/-- A test with an outcome, whose opposite may be taken. -/
structure Tests (row : Contents) (t : Truth) (n : Node) : Prop where
  predicate : n.isPredicate = true
  type : n.type = .bool
  cell : n.cell? row = some (.ofTruth t)
  wellTested : n.WellTested row

/-- The node of a truth value has it in its cell. -/
private theorem cell?_ofBool (row : Contents) (b : Bool) :
    (ofBool b).cell? row = some (.ofTruth (some b)) := by
  cases b <;> rfl

/-- A constant truth value has it in its cell. -/
private theorem cell?_always (row : Contents) (b : Bool) :
    (always b).cell? row = some (.ofTruth (some b)) := by
  cases b <;> rfl

/-- Comparing a truth value with a truth value. -/
theorem cell?_equal_ofBool {row : Contents} {n : Node} {t : Truth}
    (h : n.cell? row = some (.ofTruth t)) (b : Bool) (ty : HostType) :
    (binary .eq n (ofBool b) ty).cell? row = some (.ofTruth (t.map (· == b))) := by
  rw [cell?, h, cell?_ofBool]
  rcases t with _ | _ | _ <;> cases b <;> rfl

/-- A truth value as a test has the same value. -/
theorem cell?_toPredicate {row : Contents} {n : Node} {t : Truth}
    (h : n.cell? row = some (.ofTruth t)) : n.toPredicate.cell? row = some (.ofTruth t) := by
  unfold toPredicate
  split
  · exact h
  · split
    · next b _ _ =>
      rw [cell?_always]
      cases b <;> simpa [cell?, Value.datum?, Datum.cell, Cell.ofTruth] using h
    · rw [equal, cell?_equal_ofBool h]
      rcases t with _ | _ | _ <;> rfl

/-- A truth value as a test has the same outcome. -/
theorem tests_toPredicate {row : Contents} {n : Node} {t : Truth}
    (h : n.cell? row = some (.ofTruth t)) (hw : n.WellTested row)
    (hty : n.isPredicate = true → n.type = .bool) : n.toPredicate.Tests row t := by
  refine ⟨?_, ?_, cell?_toPredicate h, ?_⟩ <;> unfold toPredicate <;> split
  · assumption
  · split <;> rfl
  · next hp => exact hty hp
  · split <;> rfl
  · exact hw
  · split
    · exact trivial
    · exact fun _ _ => ⟨t, h⟩

/-- Under a negation stands the opposite value. -/
theorem cell?_not {row : Contents} {n : Node} {t : Truth} (h : n.cell? row = some (.ofTruth t))
    (ty : HostType) : (unary .not n ty).cell? row = some (.ofTruth t.not) := by
  rw [cell?, h]
  simp

/-- Turning a choice of outcomes around gives the opposite. -/
theorem flipIf_not (negated : Bool) (t : Truth) :
    Truth.flipIf (!negated) t = (t.flipIf negated).not := by
  cases negated <;> simp [Truth.flipIf]

/-- The two forms of a membership test have opposite values. -/
theorem cell?_inList_not {row : Contents} {operand : Node} {items : List Node} {negated : Bool}
    {t : Truth} (h : (inList operand items negated).cell? row = some (.ofTruth t)) :
    (inList operand items !negated).cell? row = some (.ofTruth t.not) := by
  simp only [cell?, Option.bind_eq_bind, Option.bind_eq_some_iff, Option.pure_def,
    Option.some.injEq] at h ⊢
  obtain ⟨c, hc, cs, hcs, ht⟩ := h
  refine ⟨c, hc, cs, hcs, ?_⟩
  rw [flipIf_not, ← Cell.truth_ofTruth (Truth.flipIf negated _), ht, Cell.truth_ofTruth]

/-- The two forms of a test for null have opposite values. -/
theorem cell?_isNull_not {row : Contents} {operand : Node} {negated : Bool} {t : Truth}
    (h : (isNull operand negated).cell? row = some (.ofTruth t)) :
    (isNull operand !negated).cell? row = some (.ofTruth t.not) := by
  simp only [cell?, Option.bind_eq_bind, Option.bind_eq_some_iff, Option.pure_def,
    Option.some.injEq] at h ⊢
  obtain ⟨c, hc, ht⟩ := h
  refine ⟨c, hc, ?_⟩
  rw [flipIf_not, ← Cell.truth_ofTruth (Truth.flipIf negated _), ht, Cell.truth_ofTruth]

/-- The two tests that always have the same outcome have opposite values. -/
theorem cell?_raw_not {row : Contents} {b : Bool} {ty : HostType} {t : Truth}
    (h : (raw (if b then "1=1" else "1=0") ty).cell? row = some (.ofTruth t)) :
    (raw (if b then "1=0" else "1=1") ty).cell? row = some (.ofTruth t.not) := by
  rcases t with _ | _ | _ <;> cases b <;> first | rfl | cases h

/-- A comparison with true and one with false have opposite values. -/
theorem cell?_equal_not {row : Contents} {left right : Node} {ty : HostType} {t : Truth}
    (hl : left.HoldsTruth row) (hr : right.isTrueLiteral = true)
    (h : (binary .eq left right ty).cell? row = some (.ofTruth t)) :
    (binary .eq left (ofBool false) ty).cell? row = some (.ofTruth t.not) := by
  obtain ⟨u, hu⟩ := hl
  have hc : right.cell? row = some (some 1) := by
    unfold isTrueLiteral at hr
    split at hr
    · rfl
    · cases hr
  rw [cell?_equal_ofBool hu]
  rw [cell?, hu, hc] at h
  rcases t with _ | _ | _ <;> rcases u with _ | _ | _ <;> first | rfl | cases h

/-- A test gets a negation. -/
theorem Tests.not {row : Contents} {n : Node} {t : Truth} (h : n.Tests row t) :
    (unary .not n .bool).Tests row t.not :=
  ⟨rfl, rfl, cell?_not h.cell _, h.predicate, h.type, ⟨t, h.cell⟩, h.wellTested⟩

/-- **The opposite of a test has the opposite outcome**, and its own opposite may be taken again.

**Proof sketch.** By the form of the test. A test for null or for membership is turned into the
other one of its kind, and a comparison with true into one with false; a negation loses its sign,
and any other test gets one. -/
theorem Tests.negation {row : Contents} {n : Node} {t : Truth} (h : n.Tests row t) :
    n.negation.Tests row t.not := by
  obtain ⟨hp, hty, hc, hw⟩ := id h
  fun_cases Node.negation n
  · exact absurd rfl hw
  · exact ⟨rfl, rfl, cell?_inList_not hc, hw⟩
  · exact ⟨rfl, rfl, cell?_inList_not hc, hw⟩
  · exact hw.elim
  · exact hw.elim
  · exact ⟨rfl, rfl, cell?_isNull_not hc, trivial⟩
  · exact ⟨hp, hty, cell?_raw_not (b := true) hc, trivial⟩
  · exact ⟨hp, hty, cell?_raw_not (b := false) hc, trivial⟩
  · exact h.not
  · next left right ty htrue =>
    simp only [Bool.and_eq_true, Bool.not_eq_true'] at htrue
    have hl := hw htrue.1 htrue.2
    exact ⟨rfl, hty, cell?_equal_not hl htrue.1 hc, fun _ _ => hl⟩
  · exact h.not
  · next operand ty =>
    obtain ⟨hp', hty', ⟨u, hu⟩, hw'⟩ := hw
    refine ⟨hp', hty', ?_, hw'⟩
    rw [cell?_not hu] at hc
    rw [hu, ← Truth.not_not u, ← Cell.truth_ofTruth u.not, Option.some.inj hc, Cell.truth_ofTruth]
  · exact h.not

end Node

end LambdaSql
