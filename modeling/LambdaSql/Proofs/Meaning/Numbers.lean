import LambdaSql.Number.Checked
import LambdaSql.Proofs.Meaning.Interpretation

/-!
# Interpretations with exact numbers

What a database documents about its arithmetic and its functions of numbers, and an interpretation of which it is true.

## Main definitions

* `Interpretation.ReadsNumbers` - a database computes exactly with rational numbers.
* `Interpretation.exact` - rational numbers on a row; durations are numbers of seconds.

## Main results

* `Interpretation.ReadsNumbers.eval_ofInt` - the value of a literal.
* `Interpretation.exact_readsNumbers` - exact arithmetic.
-/

namespace LambdaSql

/-- A magnitude is computed if it is in range. -/
theorem Checked.abs_eq_some_iff {n w : Int64} : Checked.abs n = some w ↔ w.toInt = |n.toInt| := by
  unfold Checked.abs
  split
  · next h => rw [neg, ofInt?_eq_some_iff, abs_of_neg h]
  · next h => rw [Option.some_inj, abs_of_nonneg (not_lt.mp h), Int64.toInt_inj, eq_comm]

/-! ## Arithmetic -/

/-- A database has rational numbers among its values, whole ones among them, and tells different ones apart. Products
and quotients are exact, and a remainder has the sign of the dividend. Of its functions of numbers, `FLOOR` rounds toward
minus infinity, `SIGN` is minus one, zero or one, `GREATEST` and `LEAST` choose one of their arguments, and `ABS` is the
magnitude if that is a number of 64 bits. -/
structure Interpretation.ReadsNumbers {V : Type} (I : Interpretation V) (ratio : ℚ → V) : Prop where
  injective : Function.Injective ratio
  number : ∀ n : Int, I.number n = ratio n
  value_int : ∀ n : Int64, I.value (.int n) = some (ratio n.toInt)
  compare_ne : ∀ a b : ℚ, I.compare .ne (ratio a) (ratio b) = decide (a ≠ b)
  minus : ∀ a : ℚ, I.minus (ratio a) = ratio (-a)
  mul : ∀ a b : ℚ, I.compute .mul (ratio a) (ratio b) = some (ratio (a * b))
  div : ∀ a b : ℚ, b ≠ 0 → I.compute .div (ratio a) (ratio b) = some (ratio (a / b))
  mod : ∀ m n : Int, n ≠ 0 → I.compute .mod (ratio m) (ratio n) = some (ratio (m.tmod n))
  floor : ∀ a : ℚ, I.call .floor [some (ratio a)] = some (ratio ⌊a⌋)
  abs : ∀ n : Int, |n| < 2 ^ 63 → I.call .abs [some (ratio n)] = some (ratio |n|)
  sign : ∀ n : Int, I.call .sign [some (ratio n)] = some (ratio n.sign)
  greatest : ∀ m n : Int, I.call .greatest [some (ratio m), some (ratio n)] = some (ratio (max m n))
  least : ∀ m n : Int, I.call .least [some (ratio m), some (ratio n)] = some (ratio (min m n))

namespace Interpretation.ReadsNumbers

variable {V : Type} {I : Interpretation V} {ratio : ℚ → V}

/-- The value of a literal. -/
theorem eval_ofInt (hI : I.ReadsNumbers ratio) (n : Int64) : (Node.ofInt n).eval I = some (ratio n.toInt) :=
  hI.value_int n

/-- Whole numbers are told apart. -/
theorem eq_ratio_iff (hI : I.ReadsNumbers ratio) {m n : Int} : some (ratio m) = some (ratio n) ↔ m = n := by
  rw [Option.some_inj, hI.injective.eq_iff, Int.cast_inj]

/-- Numbers are compared as what they are. -/
theorem compare_eq (hI : I.ReadsNumbers ratio) (m n : Int) : I.compare .eq (ratio m) (ratio n) = decide (m = n) := by
  rw [← hI.number, ← hI.number, I.compare_number]
  rfl

end Interpretation.ReadsNumbers

/-! ## Rational numbers -/

namespace Interpretation

/-- A comparison of rational numbers. -/
def compareExact (op : SqlOp) (a b : ℚ) : Bool :=
  match op with
  | .eq => a = b
  | .ne => a ≠ b
  | .lt => a < b
  | .le => a ≤ b
  | .gt => b < a
  | .ge => b ≤ a
  | _ => false

/-- Arithmetic on rational numbers. Only whole numbers have a remainder, and nothing is divided by zero. -/
def computeExact (op : SqlOp) (a b : ℚ) : Option ℚ :=
  match op with
  | .add => some (a + b)
  | .sub => some (a - b)
  | .mul => some (a * b)
  | .div => if b = 0 then none else some (a / b)
  | .mod => if a.den = 1 ∧ b.den = 1 ∧ b ≠ 0 then some (a.num.tmod b.num) else none
  | _ => none

/-- A function of rational numbers. -/
def ofNumbers (f : SqlFunction) (args : List (Option ℚ)) : Option ℚ :=
  match f, args with
  | .floor, [some a] => some ⌊a⌋
  | .abs, [some a] => some |a|
  | .sign, [some a] => some a.num.sign
  | .greatest, [some a, some b] => some (max a b)
  | .least, [some a, some b] => some (min a b)
  | .spanPart .totalSeconds, [some a] => some a
  | _, _ => none

/-- What is computed exactly with rational numbers on a row. A duration is its number of seconds. -/
def exact (row : Option String → String → Option ℚ) : Interpretation ℚ where
  number n := n
  value
    | .int n => some n.toInt
    | .bool b => some (if b then 1 else 0)
    | .span d => some (d.nanos / 10 ^ 9)
    | _ => none
  column := row
  compare := compareExact
  compute := computeExact
  minus := Neg.neg
  holds a := a ≠ 0
  call := ofNumbers
  rows _ := []
  raw text := if text = "1=1" then some 1 else some 0
  holds_number n := by
    rw [Bool.eq_iff_iff]
    simp
  compare_number m n := by
    rw [Bool.eq_iff_iff]
    simp [compareExact]
  value_bool b := by cases b <;> simp
  raw_always b := by cases b <;> simp

variable {row : Option String → String → Option ℚ}

/-- Rational numbers are computed with exactly. -/
theorem exact_readsNumbers : (exact row).ReadsNumbers id where
  injective := Function.injective_id
  number _ := rfl
  value_int _ := rfl
  compare_ne _ _ := rfl
  minus _ := rfl
  mul _ _ := rfl
  div a b hb := by
    change (if b = 0 then none else some (a / b)) = _
    rw [if_neg hb]
    rfl
  mod m n hn := by
    change (if (m : ℚ).den = 1 ∧ (n : ℚ).den = 1 ∧ (n : ℚ) ≠ 0 then
      some (((m : ℚ).num.tmod (n : ℚ).num : Int) : ℚ) else none) = _
    rw [if_pos ⟨Rat.den_intCast m, Rat.den_intCast n, by exact_mod_cast hn⟩, Rat.num_intCast, Rat.num_intCast]
    rfl
  floor _ := rfl
  abs n _ := by
    change some |(n : ℚ)| = _
    rw [← Int.cast_abs]
    rfl
  sign n := by
    change some (((n : ℚ).num.sign : Int) : ℚ) = _
    rw [Rat.num_intCast]
    rfl
  greatest m n := by
    change some (max (m : ℚ) n) = _
    rw [← Int.cast_max]
    rfl
  least m n := by
    change some (min (m : ℚ) n) = _
    rw [← Int.cast_min]
    rfl

end Interpretation

end LambdaSql
