import LambdaSql.Number.Decimal
import LambdaSql.Number.Fixed
import LambdaSql.Text.Blank
import LambdaSql.Text.Search
import Mathlib.Algebra.Group.Nat.Defs

/-!
# Reading numerals back

The decimal digits of a natural number, with or without zeros before them, are read as this number, and a character
that is no digit tells them from what follows.

## Main results

* `Number.ofDigits_padLeft` - digits that are padded with zeros.
* `Number.parseNat?_toDigits` - digits as a number below `2 ^ 64`.
* `Text.splitOnce_append` - a text is split at the first occurrence of a character.
-/

namespace LambdaSql.Number

variable {c : Char} {cs : List Char} {width n : Nat}

/-! ## Digits -/

/-- A digit is read as its value. -/
private theorem digit?_of_isDigit (h : c.isDigit = true) : digit? c = some (c.toNat - '0'.toNat) := by
  rw [Char.isDigit, Bool.and_eq_true, decide_eq_true_eq, decide_eq_true_eq] at h
  exact if_pos h

/-- The digits of characters are digits. -/
private theorem isDigit_of_isDigit (h : c.isDigit = true) : isDigit c = true := by
  rw [isDigit, digit?_of_isDigit h, Option.isSome_some]

/-- The digits of a number are digits. -/
theorem isDigit_of_mem_toDigits (h : c ∈ Nat.toDigits 10 n) : isDigit c = true :=
  isDigit_of_isDigit (Nat.isDigit_of_mem_toDigits (by decide) (by decide) h)

/-- The digits of a padded number are digits. -/
theorem isDigit_of_mem_padLeft (h : c ∈ padLeft width n) : isDigit c = true := by
  obtain hzero | h := List.mem_append.mp h
  · rw [List.eq_of_mem_replicate hzero]
    rfl
  · exact isDigit_of_mem_toDigits h

/-- No digit is a blank. -/
theorem isBlank_of_isDigit (h : isDigit c = true) : Text.isBlank c = false := by
  unfold isDigit digit? at h
  split at h
  · next hc =>
    have hlow : 48 ≤ c.toNat := hc.1
    have hhigh : c.toNat ≤ 57 := hc.2
    simp only [Text.isBlank, Bool.or_eq_false_iff, Bool.and_eq_false_iff, decide_eq_false_iff_not, beq_eq_false_iff_ne]
    omega
  · cases h

/-- Digits have no blanks at their ends. -/
theorem trim_of_digits (h : ∀ c ∈ cs, isDigit c = true) : Text.trim cs = cs := by
  have hstays {ds : List Char} (hds : ∀ c ∈ ds, isDigit c = true) : ds.dropWhile Text.isBlank = ds := by
    cases ds with
    | nil => rfl
    | cons d ds => rw [List.dropWhile_cons_of_neg (by simp [isBlank_of_isDigit (hds d List.mem_cons_self)])]
  rw [Text.trim, Text.trimStart, hstays h, Text.trimEnd, hstays fun c hc => h c (List.mem_reverse.mp hc),
    List.reverse_reverse]

/-! ## Numbers -/

/-- Digits are read as the decimal number that they write. -/
private theorem ofDigits_eq_ofDigitChars (h : ∀ c ∈ cs, c.isDigit = true) : ofDigits cs = Nat.ofDigitChars 10 cs 0 := by
  unfold ofDigits Nat.ofDigitChars
  generalize 0 = start
  induction cs generalizing start with
  | nil => rfl
  | cons c cs ih =>
    obtain ⟨hc, hcs⟩ := List.forall_mem_cons.mp h
    rw [List.foldl_cons, List.foldl_cons, digit?_of_isDigit hc]
    exact ih hcs _

/-- The digits of a number are read as the number. -/
theorem ofDigits_toDigits (n : Nat) : ofDigits (Nat.toDigits 10 n) = n := by
  rw [ofDigits_eq_ofDigitChars fun _ hc => Nat.isDigit_of_mem_toDigits (by decide) (by decide) hc]
  exact Nat.ofDigitChars_ten_toDigits

/-- Zeros before a number do not change it. -/
theorem ofDigits_padLeft (width n : Nat) : ofDigits (padLeft width n) = n := by
  have hzeros (k : Nat) : ofDigits (List.replicate k '0') = 0 := by
    induction k with
    | zero => rfl
    | succ k ih => exact ih
  have happend (v w : List Char) (hv : ofDigits v = 0) : ofDigits (v ++ w) = ofDigits w := by
    rw [ofDigits, List.foldl_append]
    exact congrArg (fun start => List.foldl _ start w) hv
  exact (happend _ _ (hzeros _)).trans (ofDigits_toDigits n)

/-- A number that fits in the width is padded to exactly this width. -/
theorem length_padLeft (hwidth : 0 < width) (h : n < 10 ^ width) : (padLeft width n).length = width := by
  have hlength := (Nat.length_toDigits_le_iff (by decide) hwidth).mpr h
  rw [padLeft, List.length_append, List.length_replicate]
  omega

/-- Digits are read as a number if it fits in 64 bits, and otherwise not at all. -/
theorem parseNat?_of_digits (hne : cs ≠ []) (h : ∀ c ∈ cs, isDigit c = true) :
    parseNat? cs = if ofDigits cs < 2 ^ 64 then some (ofDigits cs) else none := by
  have hread : (cs.isEmpty || !cs.all isDigit) = false := by simpa [hne] using h
  unfold parseNat?
  split
  · next rest => exact absurd (h '+' List.mem_cons_self) (by decide)
  · dsimp only
    rw [hread]
    rfl

/-- The digits of a number are parsed as the number, where it fits sixty-four bits. -/
theorem parseNat?_toDigits (n : Nat) : parseNat? (Nat.toDigits 10 n) = if n < 2 ^ 64 then some n else none := by
  rw [parseNat?_of_digits Nat.toDigits_ne_nil fun _ => isDigit_of_mem_toDigits, ofDigits_toDigits]

end LambdaSql.Number

/-! ## Between numbers -/

namespace LambdaSql.Text

variable {c : Char} {cs : List Char}

/-- A text without a character is not split at it. -/
theorem splitOnce_eq_none (h : c ∉ cs) : splitOnce c cs = none :=
  if_neg fun hcontains => h (List.contains_iff_mem.mp hcontains)

/-- A text is split at the first occurrence of a character. -/
theorem splitOnce_append (h : c ∉ cs) (rest : List Char) : splitOnce c (cs ++ c :: rest) = some (cs, rest) := by
  have hall : ∀ d ∈ cs, (d != c) = true := by
    intro d hd
    refine bne_iff_ne.mpr ?_
    rintro rfl
    exact h hd
  rw [splitOnce, if_pos (by simp), List.takeWhile_append_of_pos hall, List.dropWhile_append_of_pos hall]
  simp

/-- What is no digit does not stand among digits. -/
theorem not_mem_digits (hc : Number.isDigit c = false) (h : ∀ d ∈ cs, Number.isDigit d = true) : c ∉ cs := by
  intro hmem
  rw [h c hmem] at hc
  cases hc

end LambdaSql.Text
