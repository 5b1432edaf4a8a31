import LambdaSql.Text.Blank
import LambdaSql.Text.Search
import Mathlib

/-!
# Functions of texts

What the functions of texts say that the host computes, in terms that do not mention how they are computed, and where
they differ from related functions: a text without its outer blanks from one without its outer spaces, and a text in
which nothing is searched for from the text itself.

## Main definitions

* `Text.FirstAt` - a text occurs in another one at some position for the first time.
* `Text.Replaced` - a text with the occurrences of another one replaced.

## Main results

* `Text.outer_eq_outer_iff` - lists without their outer members of two kinds, such as blanks and spaces.
* `Text.find?_eq_some_iff`, `Text.find?_eq_none_iff` - searching.
* `Text.replaced_iff` - replacing.
-/

namespace LambdaSql.Text

/-! ## Outer characters -/

section Outer

variable {α : Type} {p q : α → Bool} {l : List α}

/-- The leading members of two kinds, one of which is among the other. -/
theorem dropWhile_eq_dropWhile_iff (hpq : ∀ a, p a = true → q a = true) :
    l.dropWhile q = l.dropWhile p ↔ ∀ a ∈ l.takeWhile q, p a = true := by
  induction l with
  | nil => simp
  | cons a l ih =>
    by_cases hq : q a = true
    · by_cases hp : p a = true
      · simp [hp, hq, ih]
      · have hlength : (l.dropWhile q).length ≤ l.length := (List.dropWhile_suffix q).length_le
        have hne : l.dropWhile q ≠ a :: l := fun h => by
          have := congrArg List.length h
          simp only [List.length_cons] at this
          omega
        simp [hp, hq, hne]
    · have hp : ¬ p a = true := fun h => hq (hpq a h)
      simp [hp, hq]

/-- The trailing members of two kinds, one of which is among the other. -/
theorem rdropWhile_eq_rdropWhile_iff (hpq : ∀ a, p a = true → q a = true) :
    l.rdropWhile q = l.rdropWhile p ↔ ∀ a ∈ l.rtakeWhile q, p a = true := by
  unfold List.rdropWhile List.rtakeWhile
  rw [List.reverse_inj, dropWhile_eq_dropWhile_iff hpq]
  simp only [List.mem_reverse]

/-- Without its leading members of a kind, a list has the same trailing ones, unless nothing is left. -/
theorem rtakeWhile_dropWhile (h : l.dropWhile q ≠ []) : (l.dropWhile q).rtakeWhile q = l.rtakeWhile q := by
  have hfull : ((l.dropWhile q).reverse.takeWhile q).length ≠ (l.dropWhile q).reverse.length := fun hlength => by
    have hall := List.takeWhile_eq_self_iff.mp ((List.takeWhile_prefix q).eq_of_length hlength)
    have hhead := List.head_dropWhile_not q h
    rw [hall _ (List.mem_reverse.mpr (List.head_mem h))] at hhead
    cases hhead
  conv_rhs => rw [← List.takeWhile_append_dropWhile (p := q) (l := l)]
  unfold List.rtakeWhile
  rw [List.reverse_append, List.takeWhile_append, if_neg hfull]

/-- If all leading members of the larger kind are of the smaller one, then the trailing ones may be sought in the whole
list as well. -/
theorem forall_rtakeWhile_dropWhile (h : ∀ a ∈ l.takeWhile q, p a = true) :
    (∀ a ∈ (l.dropWhile q).rtakeWhile q, p a = true) ↔ ∀ a ∈ l.rtakeWhile q, p a = true := by
  by_cases hnil : l.dropWhile q = []
  · have hall := List.takeWhile_eq_self_iff.mpr (List.dropWhile_eq_nil_iff.mp hnil)
    rw [hall] at h
    simp only [hnil, List.rtakeWhile_nil, List.not_mem_nil, false_implies, implies_true, true_iff]
    exact fun a ha => h a ((List.rtakeWhile_suffix q l).subset ha)
  · rw [rtakeWhile_dropWhile hnil]

/-- Where a list is the same without its outer members of either kind, the leading ones of the larger kind are of the
smaller one: the first that is not would be left by the smaller kind only.

**Proof sketch.** By induction on the list. If its first member is of the larger kind only, the smaller kind leaves it
at the front, while the larger one leaves a member there that is not of it. -/
theorem forall_takeWhile_of_outer (h : (l.dropWhile q).rdropWhile q = (l.dropWhile p).rdropWhile p) :
    ∀ a ∈ l.takeWhile q, p a = true := by
  induction l with
  | nil => simp
  | cons a l ih =>
    by_cases hq : q a = true
    · by_cases hp : p a = true
      · rw [List.dropWhile_cons_of_pos hq, List.dropWhile_cons_of_pos hp] at h
        rw [List.takeWhile_cons_of_pos hq]
        exact List.forall_mem_cons.mpr ⟨hp, ih h⟩
      · exfalso
        rw [List.dropWhile_cons_of_pos hq, List.dropWhile_cons_of_neg hp] at h
        have hne : (a :: l).rdropWhile p ≠ [] := fun hnil =>
          hp (List.rdropWhile_eq_nil_iff.mp hnil a List.mem_cons_self)
        obtain ⟨b, bs, hbs⟩ := List.exists_cons_of_ne_nil hne
        obtain rfl : b = a := (List.cons_prefix_cons.mp (hbs ▸ List.rdropWhile_prefix p (a :: l))).1
        -- the member is at the front of what the larger kind leaves
        have hprefix : b :: bs <+: l.dropWhile q := hbs ▸ h ▸ List.rdropWhile_prefix q (l.dropWhile q)
        obtain ⟨rest, hrest⟩ := hprefix
        have hhead := List.head?_dropWhile_not q l
        rw [← hrest] at hhead
        simp [hq] at hhead
    · simp [hq]

/-- The leading and the trailing members of two kinds, one of which is among the other. -/
theorem outer_eq_outer_iff (hpq : ∀ a, p a = true → q a = true) :
    (l.dropWhile q).rdropWhile q = (l.dropWhile p).rdropWhile p ↔
      (∀ a ∈ l.takeWhile q, p a = true) ∧ ∀ a ∈ l.rtakeWhile q, p a = true := by
  have htrailing (hleading : ∀ a ∈ l.takeWhile q, p a = true) :
      (l.dropWhile q).rdropWhile q = (l.dropWhile p).rdropWhile p ↔ ∀ a ∈ l.rtakeWhile q, p a = true := by
    rw [← (dropWhile_eq_dropWhile_iff hpq).mpr hleading, rdropWhile_eq_rdropWhile_iff hpq,
      forall_rtakeWhile_dropWhile hleading]
  constructor
  · intro h
    have hleading := forall_takeWhile_of_outer h
    exact ⟨hleading, (htrailing hleading).mp h⟩
  · exact fun ⟨hleading, h⟩ => (htrailing hleading).mpr h

end Outer

/-- Whether a character is a space. -/
def isSpace (c : Char) : Bool := c == ' '

/-- A space counts as blank. -/
theorem isBlank_of_isSpace (c : Char) (h : isSpace c = true) : isBlank c = true := by
  obtain rfl := beq_iff_eq.mp h
  rfl

/-! ## Searching -/

/-- A text occurs in another one at some position, and at none before. -/
def FirstAt (wanted cs : List Char) (k : Nat) : Prop := wanted <+: cs.drop k ∧ ∀ j < k, ¬ wanted <+: cs.drop j

/-- A text occurs for the first time at one position at most. -/
theorem FirstAt.unique {wanted cs : List Char} {j k : Nat} (hj : FirstAt wanted cs j) (hk : FirstAt wanted cs k) :
    j = k := by
  obtain h | rfl | h := lt_trichotomy j k
  · exact absurd hj.1 (hk.2 j h)
  · rfl
  · exact absurd hk.1 (hj.2 k h)

/-- Searching finds the first position, or none if there is none.

**Proof sketch.** By induction on the text: the wanted one is at its start, or where it is in the rest, one further.
-/
theorem find?_cases (wanted cs : List Char) :
    (∃ k, find? wanted cs = some k ∧ FirstAt wanted cs k) ∨
      find? wanted cs = none ∧ ∀ k, ¬ wanted <+: cs.drop k := by
  induction cs with
  | nil =>
    unfold find?
    split
    · next hwanted =>
      obtain rfl := List.isEmpty_iff.mp hwanted
      exact .inl ⟨0, rfl, List.nil_prefix, nofun⟩
    · next hwanted =>
      refine .inr ⟨rfl, fun k h => hwanted ?_⟩
      rw [List.drop_nil, List.prefix_nil] at h
      rw [h, List.isEmpty_nil]
  | cons c cs ih =>
    unfold find?
    split
    · next hprefix => exact .inl ⟨0, rfl, List.isPrefixOf_iff_prefix.mp hprefix, nofun⟩
    · next hprefix =>
      have hzero : ¬ wanted <+: c :: cs := fun h => hprefix (List.isPrefixOf_iff_prefix.mpr h)
      obtain ⟨k, hk, hfirst⟩ | ⟨hnone, habsent⟩ := ih
      · refine .inl ⟨k + 1, by rw [hk, Option.map_some], hfirst.1, fun j hj => ?_⟩
        cases j with
        | zero => exact hzero
        | succ j => exact hfirst.2 j (Nat.lt_of_succ_lt_succ hj)
      · refine .inr ⟨by rw [hnone, Option.map_none], fun k => ?_⟩
        cases k with
        | zero => exact hzero
        | succ k => exact habsent k

/-- The search finds the first position of a text. -/
theorem find?_eq_some_iff {wanted cs : List Char} {k : Nat} : find? wanted cs = some k ↔ FirstAt wanted cs k := by
  obtain ⟨j, hj, hfirst⟩ | ⟨hnone, habsent⟩ := find?_cases wanted cs
  · rw [hj, Option.some_inj]
    exact ⟨fun h => h ▸ hfirst, hfirst.unique⟩
  · rw [hnone]
    exact ⟨nofun, fun h => absurd h.1 (habsent k)⟩

/-- The search finds nothing just where the text occurs nowhere. -/
theorem find?_eq_none_iff {wanted cs : List Char} : find? wanted cs = none ↔ ∀ k, ¬ wanted <+: cs.drop k := by
  obtain ⟨j, hj, hfirst⟩ | ⟨hnone, habsent⟩ := find?_cases wanted cs
  · rw [hj]
    exact ⟨nofun, fun h => absurd hfirst.1 (h j)⟩
  · exact ⟨fun _ => habsent, fun _ => hnone⟩

/-! ## Replacing -/

/-- A text with the occurrences of another one replaced, from left to right and without overlaps. -/
inductive Replaced (old new : List Char) : List Char → List Char → Prop
  | nil : Replaced old new [] []
  | occurrence {cs rs : List Char} : Replaced old new cs rs → Replaced old new (old ++ cs) (new ++ rs)
  | other {c : Char} {cs rs : List Char} : ¬ old <+: c :: cs → Replaced old new cs rs →
    Replaced old new (c :: cs) (c :: rs)

variable {old new cs rs : List Char}

/-- Replacing a text that is not empty gives what replacing it is specified to give. -/
theorem replaced_replace (h : old ≠ []) (cs : List Char) : Replaced old new cs (replace old new cs) := by
  induction hn : cs.length using Nat.strong_induction_on generalizing cs with
  | _ n ih =>
    subst hn
    by_cases hprefix : old <+: cs
    · obtain ⟨rest, rfl⟩ := hprefix
      have hshorter : rest.length < (old ++ rest).length := by
        rw [List.length_append]
        exact Nat.lt_add_of_pos_left (List.length_pos_of_ne_nil h)
      rw [replace_append h]
      exact .occurrence (ih _ hshorter rest rfl)
    · cases cs with
      | nil =>
        rw [replace_nil h]
        exact .nil
      | cons c cs =>
        rw [replace_cons hprefix]
        exact .other hprefix (ih _ (Nat.lt_succ_self cs.length) cs rfl)

/-- **Replacing** any text but the empty one. -/
theorem replaced_iff (h : old ≠ []) : Replaced old new cs rs ↔ rs = replace old new cs := by
  refine ⟨fun hr => ?_, fun hr => hr ▸ replaced_replace h cs⟩
  induction hr with
  | nil => exact (replace_nil h).symm
  | occurrence _ ih => rw [replace_append h, ih]
  | other hother _ ih => rw [replace_cons hother, ih]

/-- The empty text is not found, but added around every character. -/
theorem replace_empty_eq_iff : replace [] new cs = cs ↔ new = [] := by
  unfold replace
  rw [if_pos List.isEmpty_nil]
  constructor
  · intro h
    have hlength := congrArg List.length h
    have hlonger : cs.length ≤ (cs.flatMap (· :: new)).length := by
      rw [List.length_flatMap]
      have hsum := List.length_le_sum_of_one_le (cs.map fun c => (c :: new).length) (by simp)
      rwa [List.length_map] at hsum
    rw [List.length_append] at hlength
    exact List.length_eq_zero_iff.mp (by omega)
  · rintro rfl
    simp

end LambdaSql.Text
