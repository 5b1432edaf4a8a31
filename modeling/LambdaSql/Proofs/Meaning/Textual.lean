import LambdaSql.Dialect.MySql
import LambdaSql.Proofs.Meaning.Interpretation
import LambdaSql.Proofs.Meaning.Texts

/-!
# Interpretations with texts

What a database documents about its functions of texts, and an interpretation of which it is true.

## Main definitions

* `Interpretation.Locates` - what a database makes of `LOCATE`.
* `Interpretation.ReadsTexts` - a database has texts among its values, and functions of texts.
* `Interpretation.textual` - whole numbers and texts on a row.

## Main results

* `Interpretation.ReadsTexts.eq_value_iff` - the texts that have some value.
* `Interpretation.textual_readsTexts` - texts among values.
-/

namespace LambdaSql

/-! ## Functions of texts -/

/-- What a database makes of `LOCATE` with a wanted text and the one in which it is looked for. Positions are counted from
one, and zero stands for a text that does not occur. What is written for the position of a text is a difference, and its
value is that of `LOCATE` less one. -/
structure Interpretation.Locates {V : Type} (I : Interpretation V) (text : List Char → V)
    (locate : Option V → Option V → Option V) : Prop where
  first : ∀ wanted cs k, Text.FirstAt wanted cs k →
    locate (some (text wanted)) (some (text cs)) = some (I.number (k + 1))
  absent : ∀ wanted cs, (∀ k, ¬ wanted <+: cs.drop k) → locate (some (text wanted)) (some (text cs)) = some (I.number 0)
  less : ∀ n : Nat, I.compute .sub (I.number n) (I.number 1) = some (I.number (n - 1))
  indexOf : ∀ a b, I.call .indexOf [a, b] = I.operate .sub (locate b a) (I.value (.int 1))

/-- The difference that is written for the position of a text. -/
example : MySql.dialect.template .indexOf = "(LOCATE(\x7b1\x7d,\x7b0\x7d)-1)" := by rfl

/-- A database has texts among its values, which are sequences of characters, and tells different texts apart. Of its
functions of texts, `TRIM`, `LTRIM` and `RTRIM` only trim spaces, `SUBSTR` counts positions from one, and so does
`LOCATE`. `REPLACE` replaces nothing if it is to replace the empty text. `LPAD` and `RPAD` make a text as wide as they
are asked to, and cut a wider one. -/
structure Interpretation.ReadsTexts {V : Type} (I : Interpretation V) (text : List Char → V) : Prop where
  injective : Function.Injective text
  value_string : ∀ s, I.value (.string s) = some (text s.toList)
  value_int : ∀ n, I.value (.int n) = some (I.number n.toInt)
  add : ∀ m n, -2 ^ 63 ≤ m + n → m + n < 2 ^ 63 → I.compute .add (I.number m) (I.number n) = some (I.number (m + n))
  trim : ∀ cs, I.call .trim [some (text cs)] =
    some (text ((cs.dropWhile Text.isSpace).rdropWhile Text.isSpace))
  trimLeft : ∀ cs, I.call .trimLeft [some (text cs)] = some (text (cs.dropWhile Text.isSpace))
  trimRight : ∀ cs, I.call .trimRight [some (text cs)] = some (text (cs.rdropWhile Text.isSpace))
  substring : ∀ cs (i : Nat), I.call .substring [some (text cs), some (I.number (i + 1))] = some (text (cs.drop i))
  substringLength : ∀ cs (i n : Nat), I.call .substringLength
    [some (text cs), some (I.number (i + 1)), some (I.number n)] = some (text ((cs.drop i).take n))
  locates : ∃ locate, I.Locates text locate
  replace : ∀ old new cs rs, old ≠ [] → Text.Replaced old new cs rs →
    I.call .replace [some (text cs), some (text old), some (text new)] = some (text rs)
  replace_empty : ∀ new cs, I.call .replace [some (text cs), some (text []), some (text new)] = some (text cs)
  padLeft : ∀ cs (w : Nat) c, I.call .padLeft [some (text cs), some (I.number w), some (text [c])] =
    some (text (List.replicate (w - cs.length) c ++ cs.take w))
  padRight : ∀ cs (w : Nat) c, I.call .padRight [some (text cs), some (I.number w), some (text [c])] =
    some (text (cs.take w ++ List.replicate (w - cs.length) c))

/-- The position of a text is where it occurs first. -/
theorem Interpretation.ReadsTexts.indexOf_first {V : Type} {I : Interpretation V} {text : List Char → V}
    (hI : I.ReadsTexts text) {cs wanted : List Char} {k : Nat} (h : Text.FirstAt wanted cs k) :
    I.call .indexOf [some (text cs), some (text wanted)] = some (I.number k) := by
  obtain ⟨locate, hlocate⟩ := hI.locates
  have hone : I.value (.int 1) = some (I.number 1) := hI.value_int 1
  rw [hlocate.indexOf, hlocate.first _ _ k h, hone]
  have hless := hlocate.less (k + 1)
  rw [Nat.cast_add, Nat.cast_one, add_sub_cancel_right] at hless
  exact hless

/-- A text that does not occur has the position before the first one. -/
theorem Interpretation.ReadsTexts.indexOf_absent {V : Type} {I : Interpretation V} {text : List Char → V}
    (hI : I.ReadsTexts text) {cs wanted : List Char} (h : ∀ k, ¬ wanted <+: cs.drop k) :
    I.call .indexOf [some (text cs), some (text wanted)] = some (I.number (-1)) := by
  obtain ⟨locate, hlocate⟩ := hI.locates
  have hone : I.value (.int 1) = some (I.number 1) := hI.value_int 1
  rw [hlocate.indexOf, hlocate.absent _ _ h, hone]
  exact hlocate.less 0

/-- The texts that have some value. -/
theorem Interpretation.ReadsTexts.eq_value_iff {V : Type} {I : Interpretation V} {text : List Char → V}
    (hI : I.ReadsTexts text) {cs ds : List Char} :
    some (text cs) = I.value (.string (String.ofList ds)) ↔ ds = cs := by
  rw [hI.value_string, String.toList_ofList, Option.some_inj, hI.injective.eq_iff, eq_comm]

/-! ## Whole numbers and texts -/

namespace Interpretation

/-- A text from a position that is counted from one, or from the end if it is negative. There is nothing at zero. -/
def fromPosition (i : Int) (cs : List Char) : List Char :=
  if 0 < i then cs.drop (i.toNat - 1)
  else if i = 0 ∨ cs.length < i.natAbs then []
  else cs.drop (cs.length - i.natAbs)

/-- From a position on, counted from one, there is what is left after the characters before. -/
private theorem fromPosition_succ (i : Nat) (cs : List Char) : fromPosition (i + 1) cs = cs.drop i := by
  rw [fromPosition, if_pos (by omega)]
  rfl

/-- Where a text occurs first in another one, counted from one; zero if it does not occur. -/
def locate : Option (Int ⊕ List Char) → Option (Int ⊕ List Char) → Option (Int ⊕ List Char)
  | some (.inr wanted), some (.inr cs) => some (.inl (((Text.find? wanted cs).map fun k => (k : Int) + 1).getD 0))
  | _, _ => none

/-- A function of texts, positions and widths. -/
def ofTexts (f : SqlFunction) (args : List (Option (Int ⊕ List Char))) : Option (Int ⊕ List Char) :=
  match f, args with
  | .trim, [some (.inr cs)] => some (.inr ((cs.dropWhile Text.isSpace).rdropWhile Text.isSpace))
  | .trimLeft, [some (.inr cs)] => some (.inr (cs.dropWhile Text.isSpace))
  | .trimRight, [some (.inr cs)] => some (.inr (cs.rdropWhile Text.isSpace))
  | .substring, [some (.inr cs), some (.inl i)] => some (.inr (fromPosition i cs))
  | .substringLength, [some (.inr cs), some (.inl i), some (.inl n)] => some (.inr ((fromPosition i cs).take n.toNat))
  | .indexOf, [a, b] => (locate b a).map (Sum.map (· - 1) id)
  | .replace, [some (.inr cs), some (.inr old), some (.inr new)] =>
    some (.inr (if old = [] then cs else Text.replace old new cs))
  | .padLeft, [some (.inr cs), some (.inl w), some (.inr [c])] =>
    some (.inr (List.replicate (w.toNat - cs.length) c ++ cs.take w.toNat))
  | .padRight, [some (.inr cs), some (.inl w), some (.inr [c])] =>
    some (.inr (cs.take w.toNat ++ List.replicate (w.toNat - cs.length) c))
  | _, _ => none

/-- What is computed with whole numbers. -/
def numbers : Interpretation Int := Contents.interpretation fun _ _ => .null

/-- What is computed with whole numbers and texts on a row. Texts are only compared for being the same. -/
def textual (row : Option String → String → Option (Int ⊕ List Char)) : Interpretation (Int ⊕ List Char) where
  number := .inl
  value
    | .string s => some (.inr s.toList)
    | v => (v.datum?.bind Datum.cell).map .inl
  column := row
  compare
    | op, .inl m, .inl n => numbers.compare op m n
    | .eq, a, b => a == b
    | .ne, a, b => a != b
    | _, _, _ => false
  compute
    | op, .inl m, .inl n => (numbers.compute op m n).map .inl
    | _, _, _ => none
  minus := Sum.map numbers.minus id
  holds := Sum.elim numbers.holds fun _ => false
  call := ofTexts
  rows _ := []
  raw text := (numbers.raw text).map .inl
  holds_number _ := rfl
  compare_number _ _ := rfl
  value_bool b := by cases b <;> rfl
  raw_always b := by cases b <;> rfl

variable {row : Option String → String → Option (Int ⊕ List Char)}

/-- The interpretation by lists of characters reads texts as their documentation says. -/
theorem textual_readsTexts : (textual row).ReadsTexts .inr where
  injective := Sum.inr_injective
  value_string _ := rfl
  value_int _ := rfl
  add _ _ _ _ := rfl
  trim _ := rfl
  trimLeft _ := rfl
  trimRight _ := rfl
  substring cs i := by
    change some (Sum.inr (fromPosition (i + 1) cs)) = _
    rw [fromPosition_succ]
  substringLength cs i n := by
    change some (Sum.inr ((fromPosition (i + 1) cs).take (n : Int).toNat)) = _
    rw [fromPosition_succ, Int.toNat_natCast]
  locates := by
    refine ⟨locate, fun wanted cs k h => ?_, fun wanted cs h => ?_, fun _ => rfl, fun a b => ?_⟩
    · simp only [locate, Text.find?_eq_some_iff.mpr h]
      rfl
    · simp only [locate, Text.find?_eq_none_iff.mpr h]
      rfl
    · change (locate b a).map (Sum.map (· - 1) id) = (textual row).operate .sub (locate b a) (some (.inl 1))
      unfold locate
      split <;> rfl
  replace old new cs rs hold h := by
    change some (Sum.inr (if old = [] then cs else Text.replace old new cs)) = _
    rw [if_neg hold, (Text.replaced_iff hold).mp h]
  replace_empty _ _ := rfl
  padLeft _ _ _ := rfl
  padRight _ _ _ := rfl

end Interpretation

end LambdaSql
