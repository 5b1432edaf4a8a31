/-!
# Checked 64-bit arithmetic

Integer arithmetic on signed 64-bit words that answers `none` instead of wrapping around. Every
operation computes the exact integer and then asks whether it is a word.

## Main definitions

* `Checked.ofInt?` - the word of an integer, when there is one.
* `Checked.add`, `Checked.sub`, `Checked.mul`, `Checked.neg`, `Checked.abs` - exact results only.
* `Checked.div`, `Checked.rem` - quotient toward zero and its remainder.

## Main results

* `Checked.ofInt?_eq_some_iff` - `ofInt? n` is the word whose value is `n`.
-/

namespace LambdaSql.Checked

/-- The 64-bit word whose value is `n`, when `n` is in range. -/
def ofInt? (n : Int) : Option Int64 :=
  if -0x8000000000000000 ≤ n ∧ n < 0x8000000000000000 then some (Int64.ofInt n) else none

/-- The 64-bit word whose value is the natural number `n`, when `n` is in range. -/
def ofNat? (n : Nat) : Option Int64 := ofInt? n

/-- A whole number that fits is the number with its value. -/
theorem ofInt?_eq_some_iff {n : Int} {w : Int64} : ofInt? n = some w ↔ w.toInt = n := by
  have hw := w.le_toInt
  have hw' := w.toInt_lt
  constructor
  · intro h
    unfold ofInt? at h
    split at h
    · next hn =>
      cases h
      exact Int64.toInt_ofInt_of_le (by omega) (by omega)
    · cases h
  · rintro rfl
    unfold ofInt?
    rw [if_pos (by omega), Int64.ofInt_toInt]

/-- The exact sum, when it is a word. -/
def add (a b : Int64) : Option Int64 := ofInt? (a.toInt + b.toInt)

/-- The exact difference, when it is a word. -/
def sub (a b : Int64) : Option Int64 := ofInt? (a.toInt - b.toInt)

/-- The exact product, when it is a word. -/
def mul (a b : Int64) : Option Int64 := ofInt? (a.toInt * b.toInt)

/-- The exact negation, when it is a word. -/
def neg (a : Int64) : Option Int64 := ofInt? (-a.toInt)

/-- The exact magnitude, when it is a word. -/
def abs (a : Int64) : Option Int64 := if a.toInt < 0 then neg a else some a

/-- The quotient rounded toward zero; `none` for a zero divisor or a quotient that is no word. -/
def div (a b : Int64) : Option Int64 :=
  if b.toInt = 0 then none else ofInt? (a.toInt.tdiv b.toInt)

/-- The remainder of `div`, with the sign of the dividend; `none` exactly when `div` is. -/
def rem (a b : Int64) : Option Int64 :=
  (div a b).bind fun q => ofInt? (a.toInt - q.toInt * b.toInt)

/-- The sum of two words is exact. -/
theorem toInt_add {a b c : Int64} (h : add a b = some c) : c.toInt = a.toInt + b.toInt :=
  ofInt?_eq_some_iff.mp h

/-- The difference of two words is exact. -/
theorem toInt_sub {a b c : Int64} (h : sub a b = some c) : c.toInt = a.toInt - b.toInt :=
  ofInt?_eq_some_iff.mp h

/-- The product of two words is exact. -/
theorem toInt_mul {a b c : Int64} (h : mul a b = some c) : c.toInt = a.toInt * b.toInt :=
  ofInt?_eq_some_iff.mp h

/-- The quotient of two words is cut toward zero. -/
theorem toInt_div {a b c : Int64} (h : div a b = some c) :
    b.toInt ≠ 0 ∧ c.toInt = a.toInt.tdiv b.toInt := by
  unfold div at h
  split at h
  · cases h
  · next hb => exact ⟨hb, ofInt?_eq_some_iff.mp h⟩

/-- The remainder of two words goes with the quotient. -/
theorem toInt_rem {a b c : Int64} (h : rem a b = some c) :
    b.toInt ≠ 0 ∧ c.toInt = a.toInt.tmod b.toInt := by
  obtain ⟨q, hq, hc⟩ := Option.bind_eq_some_iff.mp h
  obtain ⟨hb, hq⟩ := toInt_div hq
  refine ⟨hb, ?_⟩
  rw [ofInt?_eq_some_iff.mp hc, hq, Int.tmod_def, Int.mul_comm]

end LambdaSql.Checked
