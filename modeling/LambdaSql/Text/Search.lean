/-!
# Searching and replacing

Plain search for one text inside another, counted in characters.

## Main definitions

* `Text.find?` - the position of the first occurrence.
* `Text.replace` - every occurrence, from left to right and without overlaps, replaced.
* `Text.splitOnce` - the text around the first occurrence of a character.

## Main results

* `Text.replace_append`, `Text.replace_cons` - replacing goes from left to right.
-/

namespace LambdaSql.Text

/-- The position of the first occurrence of `needle`. The empty text occurs at the start. -/
def find? (needle : List Char) : List Char → Option Nat
  | [] => if needle.isEmpty then some 0 else none
  | c :: cs => if needle.isPrefixOf (c :: cs) then some 0 else (find? needle cs).map (· + 1)

/-- `cs` with the occurrences of `old` replaced by `new`, after `skip` characters that belong to an
occurrence already replaced. -/
private def replaceFrom (old new : List Char) (skip : Nat) : List Char → List Char
  | [] => []
  | c :: cs =>
    if 0 < skip then replaceFrom old new (skip - 1) cs
    else if old.isPrefixOf (c :: cs) then new ++ replaceFrom old new (old.length - 1) cs
    else c :: replaceFrom old new 0 cs

/-- Every occurrence of `old` replaced by `new`. The empty text occurs around every character. -/
def replace (old new cs : List Char) : List Char :=
  if old.isEmpty then new ++ cs.flatMap (· :: new) else replaceFrom old new 0 cs

section Replace

variable {old new rest cs : List Char}

/-- What belongs to an occurrence already replaced is passed over. -/
private theorem replaceFrom_append (passed : List Char) :
    replaceFrom old new passed.length (passed ++ rest) = replaceFrom old new 0 rest := by
  induction passed with
  | nil => rfl
  | cons c passed ih =>
    rw [List.cons_append, replaceFrom, if_pos (by simp)]
    exact ih

/-- There is nothing to replace in an empty text. -/
theorem replace_nil (h : old ≠ []) : replace old new [] = [] := by
  rw [replace, if_neg (by simpa using h)]
  rfl

/-- An occurrence at the start is replaced, and replacing goes on behind it. -/
theorem replace_append (h : old ≠ []) : replace old new (old ++ rest) = new ++ replace old new rest := by
  obtain ⟨c, passed, rfl⟩ := List.exists_cons_of_ne_nil h
  have hprefix : (c :: passed).isPrefixOf (c :: (passed ++ rest)) = true :=
    List.isPrefixOf_iff_prefix.mpr (List.prefix_append (c :: passed) rest)
  rw [replace, replace, if_neg (by simp), if_neg (by simp), List.cons_append, replaceFrom, if_neg (by simp),
    if_pos hprefix]
  exact congrArg (new ++ ·) (replaceFrom_append passed)

/-- A character at which nothing occurs is kept. -/
theorem replace_cons {c : Char} (h : ¬ old <+: c :: cs) : replace old new (c :: cs) = c :: replace old new cs := by
  have hold : old ≠ [] := fun hold => h (hold ▸ List.nil_prefix)
  have hprefix : ¬ old.isPrefixOf (c :: cs) = true := fun hp => h (List.isPrefixOf_iff_prefix.mp hp)
  rw [replace, replace, if_neg (by simpa using hold), if_neg (by simpa using hold), replaceFrom, if_neg (by simp),
    if_neg hprefix]

end Replace

/-- The text before and after the first occurrence of a character. -/
def splitOnce (c : Char) (cs : List Char) : Option (List Char × List Char) :=
  if cs.contains c then some (cs.takeWhile (· != c), (cs.dropWhile (· != c)).tail) else none

end LambdaSql.Text
