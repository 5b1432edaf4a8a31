import LambdaSql.Value.Basic
import Mathlib

/-!
# Data and cells

What rows hold, seen from two sides. An expression sees *data*: null, truth values and whole numbers
are told apart. A database sees *cells*: a cell is empty (`NULL`) or holds a whole number, and truth
values are the numbers one and zero. Truth has three values on both sides.

## Main definitions

* `Truth` - a truth value that may be unknown, with the connectives of three-valued logic.
* `Cell` - what a database computes with, and its arithmetic.
* `Datum`, `Datum.cell` - what expressions compute with, and how a database holds it.
* `Kind` - whether a datum is meant as a truth value or as a number.

## Main results

* `Cell.truth_ofTruth` - a truth value is read back from its cell.
* `Datum.cell_lift`, `Datum.cell_ofTruth` - operations on data are operations on cells.
-/

namespace LambdaSql

/-! ## Three-valued logic -/

/-- A truth value that may be unknown. -/
abbrev Truth := Option Bool

namespace Truth

/-- The opposite; unknown stays unknown. -/
def not : Truth → Truth := Option.map (!·)

/-- Whether both hold; one that does not hold decides. -/
def and : Truth → Truth → Truth
  | some false, _ | _, some false => some false
  | some true, some true => some true
  | _, _ => none

/-- Whether one holds; one that holds decides. -/
def or : Truth → Truth → Truth
  | some true, _ | _, some true => some true
  | some false, some false => some false
  | _, _ => none

/-- The opposite of the opposite is the outcome itself. -/
@[simp]
theorem not_not (t : Truth) : t.not.not = t := by rcases t with _ | _ | _ <;> rfl

/-- A conjunction is true if both parts are. -/
theorem and_eq_true {t u : Truth} : t.and u = some true ↔ t = some true ∧ u = some true := by
  rcases t with _ | _ | _ <;> rcases u with _ | _ | _ <;> simp [Truth.and]

/-- A disjunction is true if one of its parts is. -/
theorem or_eq_true {t u : Truth} : t.or u = some true ↔ t = some true ∨ u = some true := by
  rcases t with _ | _ | _ <;> rcases u with _ | _ | _ <;> simp [Truth.or]

end Truth

/-! ## Cells -/

/-- What a database computes with: nothing (`NULL`), or a whole number. -/
abbrev Cell := Option Int

namespace Cell

/-- A cell as a truth value: every number but zero is true. -/
def truth : Cell → Truth := Option.map (· != 0)

/-- A truth value as a cell: true is one, and false is zero. -/
def ofTruth : Truth → Cell := Option.map fun b => if b then 1 else 0

/-- A truth value is read back from its cell. -/
@[simp]
theorem truth_ofTruth (t : Truth) : (ofTruth t).truth = t := by rcases t with _ | _ | _ <;> rfl

/-- An operation on numbers; an empty operand empties the result. -/
def lift (f : Int → Int → Int) : Cell → Cell → Cell
  | some a, some b => some (f a b)
  | _, _ => none

/-- A test of two numbers; an empty operand makes it unknown. -/
def test (f : Int → Int → Bool) : Cell → Cell → Truth
  | some a, some b => some (f a b)
  | _, _ => none

/-- Being different is the opposite of being equal. -/
theorem test_bne (a b : Cell) : test (· != ·) a b = (test (· == ·) a b).not := by
  cases a <;> cases b <;> rfl

/-- An operation that has no result for a second operand of zero. -/
def divided (f : Int → Int → Int) : Cell → Cell → Cell
  | some a, some b => if b = 0 then none else some (f a b)
  | _, _ => none

/-- The first cell that is not empty. -/
def firstFilled : List Cell → Cell
  | [] => none
  | c :: rest => c.or (firstFilled rest)

/-- The first filled cell is one of the first cells, or else one of the others. -/
theorem firstFilled_append (cs ds : List Cell) :
    firstFilled (cs ++ ds) = (firstFilled cs).or (firstFilled ds) := by
  induction cs with
  | nil => rfl
  | cons c rest ih => simp only [List.cons_append, firstFilled, ih, Option.or_assoc]

/-- Nothing is computed from an unknown left side. -/
@[simp]
theorem lift_none_left (f : Int → Int → Int) (c : Cell) : lift f none c = none := rfl

/-- Nothing is computed from an unknown right side. -/
@[simp]
theorem lift_none_right (f : Int → Int → Int) (c : Cell) : lift f c none = none := by
  cases c <;> rfl

end Cell

/-! ## Data -/

/-- What an expression is meant as: a truth value, or a whole number. -/
inductive Kind where
  | truth
  | number
deriving DecidableEq, Repr

/-- The kind of the values of a type, if it is one of the two. -/
def HostType.kind? : HostType → Option Kind
  | .bool => some .truth
  | .byte | .int16 | .int32 | .int64 => some .number
  | _ => none

/-- The types of numbers are the integral ones. -/
theorem HostType.kind?_eq_number {t : HostType} : t.kind? = some .number ↔ t.isIntegral = true := by
  cases t <;> simp [kind?, isIntegral]

/-- What expressions compute with. -/
inductive Datum where
  | null
  | bool (b : Bool)
  | int (n : Int)
deriving DecidableEq, Repr

namespace Datum

/-- How a database holds a datum. -/
def cell : Datum → Cell
  | null => none
  | bool b => some (if b then 1 else 0)
  | int n => some n

/-- A truth value as a datum; unknown is null. -/
def ofTruth : Truth → Datum
  | some b => bool b
  | none => null

/-- A datum as a truth value. -/
def truth : Datum → Truth
  | bool b => some b
  | _ => none

/-- Whether a datum is null or of a kind. -/
def HasKind : Kind → Datum → Prop
  | _, null | .truth, bool _ | .number, int _ => True
  | _, _ => False

/-- An operation on numbers; null makes the result null. -/
def lift (f : Int → Int → Int) : Datum → Datum → Datum
  | int a, int b => int (f a b)
  | _, _ => null

/-- An operation on numbers that has no result for a second operand of zero. -/
def divided (f : Int → Int → Int) : Datum → Datum → Datum
  | int a, int b => if b = 0 then null else int (f a b)
  | _, _ => null

/-- A test of two numbers; null makes it unknown. -/
def test (f : Int → Int → Bool) : Datum → Datum → Truth
  | int a, int b => some (f a b)
  | _, _ => none

/-- Whether two data are the same; null makes it unknown. -/
def same : Datum → Datum → Truth
  | int a, int b => some (a == b)
  | bool a, bool b => some (a == b)
  | _, _ => none

/-- The first datum unless it is null. -/
def orElse : Datum → Datum → Datum
  | null, d => d
  | d, _ => d

/-- Only null has an empty cell. -/
@[simp]
theorem cell_eq_none {d : Datum} : d.cell = none ↔ d = null := by cases d <;> simp [cell]

/-- The cell of an outcome. -/
@[simp]
theorem cell_ofTruth (t : Truth) : (ofTruth t).cell = Cell.ofTruth t := by
  rcases t with _ | _ | _ <;> rfl

/-- Null is of every kind. -/
theorem hasKind_null (k : Kind) : null.HasKind k := by cases k <;> trivial

/-- Numbers are null and whole numbers. -/
theorem hasKind_number {d : Datum} : d.HasKind .number ↔ d = null ∨ ∃ n, d = int n := by
  cases d <;> simp [HasKind]

/-- Truth values are outcomes. -/
theorem hasKind_truth {d : Datum} : d.HasKind .truth ↔ ∃ t, d = ofTruth t := by
  rcases d with _ | b | n
  · exact ⟨fun _ => ⟨none, rfl⟩, fun _ => trivial⟩
  · exact ⟨fun _ => ⟨some b, rfl⟩, fun _ => trivial⟩
  · refine ⟨fun h => h.elim, ?_⟩
    rintro ⟨_ | _, h⟩ <;> cases h

/-- An outcome is a truth value. -/
theorem hasKind_ofTruth (t : Truth) : (ofTruth t).HasKind .truth := hasKind_truth.mpr ⟨t, rfl⟩

/-- The outcome of an outcome is itself. -/
@[simp]
theorem truth_ofTruth (t : Truth) : (ofTruth t).truth = t := by cases t <;> rfl

/-- A datum has a known outcome if it is a truth value. -/
theorem truth_eq_some {d : Datum} {b : Bool} : d.truth = some b ↔ d = bool b := by
  cases d <;> simp [truth]

/-- A datum meant as a truth value is held as one. -/
theorem cell_of_truth {d : Datum} (h : d.HasKind .truth) : d.cell = Cell.ofTruth d.truth := by
  obtain ⟨t, rfl⟩ := hasKind_truth.mp h
  rw [cell_ofTruth, truth_ofTruth]

/-- An operation on numbers is one on their cells. -/
theorem cell_lift (f : Int → Int → Int) {a b : Datum} (ha : a.HasKind .number)
    (hb : b.HasKind .number) : (lift f a b).cell = Cell.lift f a.cell b.cell := by
  obtain rfl | ⟨m, rfl⟩ := hasKind_number.mp ha
  · rfl
  · obtain rfl | ⟨n, rfl⟩ := hasKind_number.mp hb <;> rfl

/-- An operation on numbers has a number as its result. -/
theorem hasKind_lift (f : Int → Int → Int) (a b : Datum) : (lift f a b).HasKind .number := by
  cases a <;> cases b <;> trivial

/-- A division of numbers is one of their cells. -/
theorem cell_divided (f : Int → Int → Int) {a b : Datum} (ha : a.HasKind .number)
    (hb : b.HasKind .number) : (divided f a b).cell = Cell.divided f a.cell b.cell := by
  obtain rfl | ⟨m, rfl⟩ := hasKind_number.mp ha
  · rfl
  · obtain rfl | ⟨n, rfl⟩ := hasKind_number.mp hb
    · rfl
    · by_cases h : n = 0 <;> simp [divided, cell, Cell.divided, h]

/-- A division of numbers has a number as its result. -/
theorem hasKind_divided (f : Int → Int → Int) (a b : Datum) : (divided f a b).HasKind .number := by
  unfold divided
  split
  · split <;> trivial
  · trivial

/-- A comparison of numbers is one of their cells. -/
theorem cell_test (f : Int → Int → Bool) {a b : Datum} (ha : a.HasKind .number)
    (hb : b.HasKind .number) : Cell.test f a.cell b.cell = test f a b := by
  obtain rfl | ⟨m, rfl⟩ := hasKind_number.mp ha
  · rfl
  · obtain rfl | ⟨n, rfl⟩ := hasKind_number.mp hb <;> rfl

/-- Data of one kind are the same exactly when their cells are equal numbers. -/
theorem cell_same {k : Kind} {a b : Datum} (ha : a.HasKind k) (hb : b.HasKind k) :
    Cell.test (· == ·) a.cell b.cell = same a b := by
  cases k with
  | number =>
    obtain rfl | ⟨m, rfl⟩ := hasKind_number.mp ha
    · rfl
    · obtain rfl | ⟨n, rfl⟩ := hasKind_number.mp hb <;> rfl
  | truth =>
    obtain ⟨t, rfl⟩ := hasKind_truth.mp ha
    obtain ⟨u, rfl⟩ := hasKind_truth.mp hb
    rcases t with _ | _ | _ <;> rcases u with _ | _ | _ <;> rfl

/-- The first of two data that is not null has the first filled cell. -/
theorem cell_orElse (a b : Datum) : (a.orElse b).cell = a.cell.or b.cell := by cases a <;> rfl

/-- The first of two data of one kind is of that kind. -/
theorem hasKind_orElse {k : Kind} {a b : Datum} (ha : a.HasKind k) (hb : b.HasKind k) :
    (a.orElse b).HasKind k := by
  cases a <;> assumption

end Datum

end LambdaSql
