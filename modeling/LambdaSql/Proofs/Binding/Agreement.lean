import LambdaSql.Value.Basic
import Mathlib

/-!
# Values that agree

Placeholders of one name are shared by values that are the same, where floating-point numbers are compared as
numbers: zeros of either sign are the same, and what is no number is not the same as itself.

## Main definitions

* `Value.Agrees` - two values are identical or the same.

## Main results

* `Value.beq_symm`, `Value.beq_trans` - sameness is symmetric and transitive.
* `Value.Agrees.refl`, `Value.Agrees.symm`, `Value.Agrees.trans` - agreement is an equivalence.
-/

namespace LambdaSql

/-! ## Numbers -/

section Numbers

open Float.Model

/-- What a floating-point number is compared by: one zero for both, and nothing for what is no number. -/
def comparand? : UnpackedFloat → Option UnpackedFloat
  | .notANumber => none
  | .zero _ => some (.zero .positive)
  | x => some x

/-- Floating-point numbers are the same if they are compared by the same.

**Proof sketch.** By the forms of both numbers. Infinities are told apart by their signs, zeros are all compared by
nothing but being zero, and finite numbers are equal by sign, exponent and significand, whatever the order in which
these are compared. -/
theorem compare_eq_some_eq {a b : UnpackedFloat} :
    a.compare b = some .eq ↔ ∃ x, comparand? a = some x ∧ comparand? b = some x := by
  cases a with
  | notANumber => simp [UnpackedFloat.compare, comparand?]
  | infinity s =>
    cases b with
    | infinity t => cases s <;> cases t <;> simp [UnpackedFloat.compare, comparand?, compare]
    | _ => cases s <;> simp [UnpackedFloat.compare, comparand?]
  | zero s =>
    cases b with
    | infinity t => cases t <;> simp [UnpackedFloat.compare, comparand?]
    | finite t => cases t <;> simp [UnpackedFloat.compare, comparand?]
    | _ => simp [UnpackedFloat.compare, comparand?]
  | finite s m e hm =>
    cases b with
    | infinity t => cases t <;> simp [UnpackedFloat.compare, comparand?]
    | zero t => cases s <;> simp [UnpackedFloat.compare, comparand?]
    | notANumber => simp [UnpackedFloat.compare, comparand?]
    | finite t m' e' hm' =>
      have hthen : (compare e e').then (compare m m') = .eq ↔ e' = e ∧ m' = m := by
        rw [Ordering.then_eq_eq, Std.compare_eq_iff_eq, Std.compare_eq_iff_eq, eq_comm, @eq_comm _ m]
      cases s <;> cases t <;>
        simp [UnpackedFloat.compare, comparand?, hthen, Ordering.swap_eq_eq, and_comm]

/-- Floats are equal if they compare as one number. -/
private theorem float_beq_iff {a b : Float} :
    (a == b) = true ↔
      ∃ x, comparand? a.toModel.unpack = some x ∧ comparand? b.toModel.unpack = some x := by
  rw [← compare_eq_some_eq]
  show (a.toModel.unpack.compare b.toModel.unpack == some .eq) = true ↔ _
  exact beq_iff_eq

/-- Equality of floats is symmetric. -/
private theorem float_beq_symm {a b : Float} (h : (a == b) = true) : (b == a) = true := by
  obtain ⟨x, ha, hb⟩ := float_beq_iff.mp h
  exact float_beq_iff.mpr ⟨x, hb, ha⟩

/-- Equality of floats is transitive. -/
private theorem float_beq_trans {a b c : Float} (h : (a == b) = true) (h' : (b == c) = true) :
    (a == c) = true := by
  obtain ⟨x, ha, hb⟩ := float_beq_iff.mp h
  obtain ⟨y, hb', hc⟩ := float_beq_iff.mp h'
  cases hb.symm.trans hb'
  exact float_beq_iff.mpr ⟨x, ha, hc⟩

end Numbers

/-! ## Documents -/

namespace Document

/-- Whether a document that is the same as another one is identical to it, whatever it contains. -/
def isPlain : Document → Bool
  | float _ | array _ | object _ => false
  | _ => true

/-- Equal documents without floating-point numbers are the same. -/
theorem eq_of_beq {a b : Document} (ha : a.isPlain = true) (h : Document.beq a b = true) : a = b := by
  unfold Document.beq at h
  split at h <;> first | contradiction | simp_all [isPlain]

mutual

/-- Equality of documents is symmetric. -/
theorem beq_symm : ∀ {a b : Document}, Document.beq a b = true → Document.beq b a = true
  | .float x, b, h => by
    cases b with
    | float y => exact float_beq_symm h
    | _ => cases h
  | .array as, b, h => by
    cases b with
    | array bs => exact beqItems_symm h
    | _ => cases h
  | .object as, b, h => by
    cases b with
    | object bs => exact beqMembers_symm h
    | _ => cases h
  | .null, _, h | .bool _, _, h | .int _, _, h | .string _, _, h => by
    have heq := eq_of_beq rfl h
    rwa [← heq] at h ⊢

/-- Equality of the items of documents is symmetric. -/
private theorem beqItems_symm : ∀ {as bs : List Document}, Document.beqItems as bs = true →
    Document.beqItems bs as = true
  | [], [], _ => rfl
  | [], _ :: _, h => by cases h
  | _ :: _, [], h => by cases h
  | a :: as, b :: bs, h => by
    simp only [Document.beqItems, Bool.and_eq_true] at h ⊢
    exact ⟨beq_symm h.1, beqItems_symm h.2⟩

/-- Equality of the members of documents is symmetric. -/
private theorem beqMembers_symm : ∀ {as bs : List (String × Document)}, Document.beqMembers as bs = true →
    Document.beqMembers bs as = true
  | [], [], _ => rfl
  | [], _ :: _, h => by cases h
  | _ :: _, [], h => by cases h
  | (m, a) :: as, (n, b) :: bs, h => by
    simp only [Document.beqMembers, Bool.and_eq_true, beq_iff_eq] at h ⊢
    exact ⟨⟨h.1.1.symm, beq_symm h.1.2⟩, beqMembers_symm h.2⟩

end

mutual

/-- Equality of documents is transitive. -/
theorem beq_trans : ∀ {a b c : Document}, Document.beq a b = true → Document.beq b c = true →
    Document.beq a c = true
  | .float x, b, c, h, h' => by
    cases b with
    | float y =>
      cases c with
      | float z => exact float_beq_trans h h'
      | _ => cases h'
    | _ => cases h
  | .array as, b, c, h, h' => by
    cases b with
    | array bs =>
      cases c with
      | array cs => exact beqItems_trans h h'
      | _ => cases h'
    | _ => cases h
  | .object as, b, c, h, h' => by
    cases b with
    | object bs =>
      cases c with
      | object cs => exact beqMembers_trans h h'
      | _ => cases h'
    | _ => cases h
  | .null, _, _, h, h' | .bool _, _, _, h, h' | .int _, _, _, h, h' | .string _, _, _, h, h' => by
    rwa [← eq_of_beq rfl h] at h'
termination_by structural a => a

/-- Equality of the items of documents is transitive. -/
private theorem beqItems_trans : ∀ {as bs cs : List Document}, Document.beqItems as bs = true →
    Document.beqItems bs cs = true → Document.beqItems as cs = true
  | [], [], _, _, h' => h'
  | [], _ :: _, _, h, _ => by cases h
  | _ :: _, [], _, h, _ => by cases h
  | _ :: _, _ :: _, [], _, h' => by cases h'
  | a :: as, b :: bs, c :: cs, h, h' => by
    simp only [Document.beqItems, Bool.and_eq_true] at h h' ⊢
    exact ⟨beq_trans h.1 h'.1, beqItems_trans h.2 h'.2⟩
termination_by structural as => as

/-- Equality of the members of documents is transitive. -/
private theorem beqMembers_trans : ∀ {as bs cs : List (String × Document)}, Document.beqMembers as bs = true →
    Document.beqMembers bs cs = true → Document.beqMembers as cs = true
  | [], [], _, _, h' => h'
  | [], _ :: _, _, h, _ => by cases h
  | _ :: _, [], _, h, _ => by cases h
  | _ :: _, _ :: _, [], _, h' => by cases h'
  | (m, a) :: as, (n, b) :: bs, (k, c) :: cs, h, h' => by
    simp only [Document.beqMembers, Bool.and_eq_true, beq_iff_eq] at h h' ⊢
    exact ⟨⟨h.1.1.trans h'.1.1, beq_trans h.1.2 h'.1.2⟩, beqMembers_trans h.2 h'.2⟩
termination_by structural as => as

end

end Document

/-! ## Values -/

namespace Value

/-- Whether a value that is the same as another one is identical to it, whatever it contains. -/
def isPlain : Value → Bool
  | float _ | list _ | record _ | document _ => false
  | _ => true

/-- Equal values without floating-point numbers are the same. -/
theorem eq_of_beq {a b : Value} (ha : a.isPlain = true) (h : Value.beq a b = true) : a = b := by
  unfold Value.beq at h
  split at h <;> first | contradiction | simp_all [isPlain]

mutual

/-- Sameness is symmetric. -/
theorem beq_symm : ∀ {a b : Value}, Value.beq a b = true → Value.beq b a = true
  | .float x, b, h => by
    cases b with
    | float y => exact float_beq_symm h
    | _ => cases h
  | .document d, b, h => by
    cases b with
    | document e => exact Document.beq_symm h
    | _ => cases h
  | .list as, b, h => by
    cases b with
    | list bs => exact beqItems_symm h
    | _ => cases h
  | .record as, b, h => by
    cases b with
    | record bs => exact beqMembers_symm h
    | _ => cases h
  | .null, _, h | .bool _, _, h | .int _, _, h | .decimal _, _, h | .string _, _, h | .bytes _, _, h
  | .date _, _, h | .moment _, _, h | .time _, _, h | .span _, _, h | .guid _, _, h | .enum _, _, h => by
    have heq := eq_of_beq rfl h
    rwa [← heq] at h ⊢

/-- Equality of the items of values is symmetric. -/
private theorem beqItems_symm : ∀ {as bs : List Value}, Value.beqItems as bs = true →
    Value.beqItems bs as = true
  | [], [], _ => rfl
  | [], _ :: _, h => by cases h
  | _ :: _, [], h => by cases h
  | a :: as, b :: bs, h => by
    simp only [Value.beqItems, Bool.and_eq_true] at h ⊢
    exact ⟨beq_symm h.1, beqItems_symm h.2⟩

/-- Equality of the members of values is symmetric. -/
private theorem beqMembers_symm : ∀ {as bs : List (String × Value)}, Value.beqMembers as bs = true →
    Value.beqMembers bs as = true
  | [], [], _ => rfl
  | [], _ :: _, h => by cases h
  | _ :: _, [], h => by cases h
  | (m, a) :: as, (n, b) :: bs, h => by
    simp only [Value.beqMembers, Bool.and_eq_true, beq_iff_eq] at h ⊢
    exact ⟨⟨h.1.1.symm, beq_symm h.1.2⟩, beqMembers_symm h.2⟩

end

mutual

/-- Sameness is transitive. -/
theorem beq_trans : ∀ {a b c : Value}, Value.beq a b = true → Value.beq b c = true →
    Value.beq a c = true
  | .float x, b, c, h, h' => by
    cases b with
    | float y =>
      cases c with
      | float z => exact float_beq_trans h h'
      | _ => cases h'
    | _ => cases h
  | .document d, b, c, h, h' => by
    cases b with
    | document e =>
      cases c with
      | document f => exact Document.beq_trans h h'
      | _ => cases h'
    | _ => cases h
  | .list as, b, c, h, h' => by
    cases b with
    | list bs =>
      cases c with
      | list cs => exact beqItems_trans h h'
      | _ => cases h'
    | _ => cases h
  | .record as, b, c, h, h' => by
    cases b with
    | record bs =>
      cases c with
      | record cs => exact beqMembers_trans h h'
      | _ => cases h'
    | _ => cases h
  | .null, _, _, h, h' | .bool _, _, _, h, h' | .int _, _, _, h, h' | .decimal _, _, _, h, h'
  | .string _, _, _, h, h' | .bytes _, _, _, h, h' | .date _, _, _, h, h' | .moment _, _, _, h, h'
  | .time _, _, _, h, h' | .span _, _, _, h, h' | .guid _, _, _, h, h' | .enum _, _, _, h, h' => by
    rwa [← eq_of_beq rfl h] at h'
termination_by structural a => a

/-- Equality of the items of values is transitive. -/
private theorem beqItems_trans : ∀ {as bs cs : List Value}, Value.beqItems as bs = true →
    Value.beqItems bs cs = true → Value.beqItems as cs = true
  | [], [], _, _, h' => h'
  | [], _ :: _, _, h, _ => by cases h
  | _ :: _, [], _, h, _ => by cases h
  | _ :: _, _ :: _, [], _, h' => by cases h'
  | a :: as, b :: bs, c :: cs, h, h' => by
    simp only [Value.beqItems, Bool.and_eq_true] at h h' ⊢
    exact ⟨beq_trans h.1 h'.1, beqItems_trans h.2 h'.2⟩
termination_by structural as => as

/-- Equality of the members of values is transitive. -/
private theorem beqMembers_trans : ∀ {as bs cs : List (String × Value)}, Value.beqMembers as bs = true →
    Value.beqMembers bs cs = true → Value.beqMembers as cs = true
  | [], [], _, _, h' => h'
  | [], _ :: _, _, h, _ => by cases h
  | _ :: _, [], _, h, _ => by cases h
  | _ :: _, _ :: _, [], _, h' => by cases h'
  | (m, a) :: as, (n, b) :: bs, (k, c) :: cs, h, h' => by
    simp only [Value.beqMembers, Bool.and_eq_true, beq_iff_eq] at h h' ⊢
    exact ⟨⟨h.1.1.trans h'.1.1, beq_trans h.1.2 h'.1.2⟩, beqMembers_trans h.2 h'.2⟩
termination_by structural as => as

end

/-- Two values are identical or the same. -/
def Agrees (a b : Value) : Prop := a = b ∨ (a == b) = true

namespace Agrees

variable {a b c : Value}

/-- A value agrees with itself, also where it is no number and not equal to itself. -/
theorem refl (a : Value) : a.Agrees a := .inl rfl

/-- Agreement is symmetric. -/
theorem symm (h : a.Agrees b) : b.Agrees a := h.imp Eq.symm beq_symm

/-- Agreement is transitive. -/
theorem trans (h : a.Agrees b) (h' : b.Agrees c) : a.Agrees c := by
  obtain rfl | h := h
  · exact h'
  · obtain rfl | h' := h'
    · exact .inr h
    · exact .inr (beq_trans h h')

end Agrees

end Value

end LambdaSql
