import LambdaSql.Host.Format
import LambdaSql.Proofs.Reading.Numerals
import Mathlib.Data.List.Basic

/-!
# Formats out of segments

A format for `Host.composite` is put together of literal texts and of places for arguments. A brace means three
things in it: two of one kind are a brace that stands for itself, one alone opens or closes a place. If each brace of
the literal texts is written twice, the scanner finds the segments again, whatever stands beside what.

## Main definitions

* `Segment` - a literal text, or the place of an argument.
* `Segment.format` - the format of several segments.

## Main results

* `Host.composite_format` - the format of segments is filled segment by segment.
-/

namespace LambdaSql

/-- A part of a format: a text that stands for itself, or the place of an argument. -/
inductive Segment where
  | literal (text : String)
  | place (index : Nat)
deriving DecidableEq, Repr

namespace Segment

/-- A character of a literal text in a format. A brace is written twice. -/
def double (c : Char) : List Char := if c = '\x7b' ∨ c = '\x7d' then [c, c] else [c]

/-- A segment in a format. -/
def written : Segment → List Char
  | literal text => text.toList.flatMap double
  | place i => '\x7b' :: Nat.toDigits 10 i ++ ['\x7d']

/-- The format of several segments. -/
def format (segments : List Segment) : String := String.ofList (segments.flatMap written)

/-- Whether the argument of a place is there. -/
def fits (args : List Value) : Segment → Bool
  | literal _ => true
  | place i => i < args.length

/-- What stands for a segment in the end. -/
def filled (args : List Value) : Segment → String
  | literal text => text
  | place i => args[i]?.elim "" Value.concatText

end Segment

namespace Host

variable {args : List Value} {rest : List Char} {i : Nat}

/-! ## Literal texts -/

/-- Outside a place, the scanner reads a character of a literal text. -/
theorem compositeFrom_double (c : Char) :
    compositeFrom args none (Segment.double c ++ rest) =
      (String.singleton c ++ ·) <$> compositeFrom args none rest := by
  unfold Segment.double
  split
  · next hc =>
    obtain rfl | rfl := hc
    · rfl
    · rfl
  · next hc =>
    obtain ⟨hopening, hclosing⟩ := not_or.mp hc
    rw [List.singleton_append, compositeFrom]
    · rfl
    · exact fun _ heq _ => hopening heq
    · exact fun _ heq _ => hclosing heq
    · exact hopening

/-- Outside a place, the scanner reads a literal text, and goes on outside a place. -/
theorem compositeFrom_literal (cs : List Char) :
    compositeFrom args none (cs.flatMap Segment.double ++ rest) =
      (String.ofList cs ++ ·) <$> compositeFrom args none rest := by
  induction cs with
  | nil => simp
  | cons c cs ih =>
    rw [List.flatMap_cons, List.append_assoc, compositeFrom_double, ih, ← comp_map]
    refine congrArg (· <$> compositeFrom args none rest) (funext fun text => ?_)
    rw [Function.comp_apply, ← String.append_assoc, String.singleton_eq_ofList, ← String.ofList_append,
      List.singleton_append]

/-! ## Places -/

/-- Outside a place, the scanner reads a brace that stands alone as the beginning of a place. -/
theorem compositeFrom_opening {cs : List Char} (h : cs.head? ≠ some '\x7b') :
    compositeFrom args none ('\x7b' :: cs) = compositeFrom args (some []) cs := by
  rw [compositeFrom]
  rintro _ rfl
  exact h rfl

/-- Within a place, the scanner reads up to the closing brace. -/
theorem compositeFrom_within {cs : List Char} (h : '\x7d' ∉ cs) (place : List Char) :
    compositeFrom args (some place) (cs ++ '\x7d' :: rest) = do
      let text ← fill args (place.reverse ++ cs)
      return text ++ (← compositeFrom args none rest) := by
  induction cs generalizing place with
  | nil =>
    rw [List.nil_append, List.append_nil, compositeFrom, if_pos rfl]
  | cons c cs ih =>
    obtain ⟨hc, hcs⟩ := not_or.mp (mt List.mem_cons.mpr h)
    rw [List.cons_append, compositeFrom, if_neg (Ne.symm hc), ih hcs, List.reverse_cons, List.append_assoc,
      List.singleton_append]

/-- A number in braces is filled with the argument at its position. -/
private theorem fill_toDigits (h : args.length ≤ 2 ^ 64) :
    fill args (Nat.toDigits 10 i) = .ofOption (args[i]?.map Value.concatText) := by
  have hdigits : ∀ c ∈ Nat.toDigits 10 i, Number.isDigit c = true := fun _ => Number.isDigit_of_mem_toDigits
  have hcolon : Text.splitOnce ':' (Nat.toDigits 10 i) = none :=
    Text.splitOnce_eq_none (Text.not_mem_digits rfl hdigits)
  simp only [fill, hcolon, Number.trim_of_digits hdigits, Number.parseNat?_toDigits]
  split
  · change (Evaluation.ofOption args[i]? >>= fun v => pure v.concatText) = _
    cases args[i]? <;> rfl
  · rw [List.getElem?_eq_none (by omega)]
    rfl

/-- Outside a place, the scanner reads a whole place, and goes on outside a place. -/
theorem compositeFrom_place (h : args.length ≤ 2 ^ 64) :
    compositeFrom args none ((Segment.place i).written ++ rest) = do
      let text ← .ofOption (args[i]?.map Value.concatText)
      return text ++ (← compositeFrom args none rest) := by
  have hdigits : ∀ c ∈ Nat.toDigits 10 i, Number.isDigit c = true := fun _ => Number.isDigit_of_mem_toDigits
  have hopening : (Nat.toDigits 10 i ++ '\x7d' :: rest).head? ≠ some '\x7b' := by
    rw [List.head?_append_of_ne_nil _ Nat.toDigits_ne_nil]
    exact fun heq => absurd (hdigits _ (List.mem_of_mem_head? heq)) (by decide)
  have hclosing : '\x7d' ∉ Nat.toDigits 10 i := Text.not_mem_digits rfl hdigits
  rw [Segment.written, List.cons_append, List.cons_append, List.append_assoc, List.singleton_append,
    compositeFrom_opening hopening, compositeFrom_within hclosing, List.reverse_nil, List.nil_append, fill_toDigits h]

/-! ## Formats -/

/-- **Formats out of segments.** The format of several segments is filled with each literal text as it is and each place
by the text of its argument, if there are arguments for all places; otherwise there is no value. (No list has more items
than there are addresses.)

**Proof sketch.** By induction on the segments. A literal text has its braces doubled, which are read back one by one,
and a place is read up to its closing brace as the number of its argument. -/
theorem composite_format (segments : List Segment) (h : args.length ≤ 2 ^ 64) :
    composite (Segment.format segments) args =
      if segments.all (Segment.fits args) then .ok (String.join (segments.map (Segment.filled args)))
      else .unevaluable := by
  rw [composite, Segment.format, String.toList_ofList]
  induction segments with
  | nil => rfl
  | cons s segments ih =>
    rw [List.flatMap_cons, List.all_cons, List.map_cons]
    cases s with
    | literal text =>
      rw [Segment.written, compositeFrom_literal, ih, Segment.fits, Bool.true_and, String.join_cons, Segment.filled,
        String.ofList_toList]
      split <;> rfl
    | place i =>
      rw [compositeFrom_place h, ih, String.join_cons, Segment.filled]
      by_cases hi : i < args.length
      · rw [List.getElem?_eq_getElem hi, Segment.fits, decide_eq_true hi, Bool.true_and]
        split <;> rfl
      · rw [List.getElem?_eq_none (Nat.le_of_not_lt hi), Segment.fits, decide_eq_false hi, Bool.false_and,
          if_neg Bool.false_ne_true]
        rfl

/-- Braces of either kind beside each other and beside places. -/
def bracedSegments : List Segment := [.literal "\x7b", .place 0, .literal "\x7d\x7b", .place 1, .literal "\x7d\x7d"]

/-- Doubled braces are written once, and a missing argument gives no text. -/
theorem braced_filled :
    composite (Segment.format bracedSegments) [.int 7, .null] = .ok "\x7b7\x7d\x7b\x7d\x7d" ∧
      composite (Segment.format bracedSegments) [.int 7] = .unevaluable :=
  ⟨composite_format bracedSegments (by decide), composite_format bracedSegments (by decide)⟩

end Host

end LambdaSql
