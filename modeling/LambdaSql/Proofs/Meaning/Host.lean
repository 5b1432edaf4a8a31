import LambdaSql.Proofs.Meaning.Expr

/-!
# Evaluation and meaning

Evaluating an expression that reads no row either finds no value or finds what the expression means.
There is no value where null meets arithmetic or an order, where a truth value is missing, and where
a number leaves the range of words; there the meaning is left to the database.

## Main definitions

* `Evaluation.Agrees` - a value, if there is one, stands for a datum.

## Main results

* `Value.equals_of_datum?`, `Value.ordered_of_datum?`, `Value.computed_of_datum?` - the operators on
  values are those on data.
* `Expr.value_agrees` - evaluation agrees with the meaning.
* `Expr.origin_eq_sql` - what has to be computed by the database is what reads a row.
-/

namespace LambdaSql

/-! ## Values as data -/

namespace Value

/-- The values that stand for an integer. -/
private theorem datum?_eq_int {v : Value} {n : Int} :
    v.datum? = some (.int n) ↔ ∃ w, v = int w ∧ w.toInt = n := by
  cases v <;> simp [datum?]

/-- The values that stand for a truth value. -/
private theorem datum?_eq_bool {v : Value} {b : Bool} : v.datum? = some (.bool b) ↔ v = bool b := by
  cases v <;> simp [datum?]

/-- The value that stands for a null. -/
private theorem datum?_eq_null {v : Value} : v.datum? = some .null ↔ v = null := by
  cases v <;> simp [datum?]

/-- A value for a number is null or a number. -/
theorem number_of_datum? {v : Value} {d : Datum} (hv : v.datum? = some d) (hd : d.HasKind .number) :
    v = null ∧ d = .null ∨ ∃ w, v = int w ∧ d = .int w.toInt := by
  obtain rfl | ⟨n, rfl⟩ := Datum.hasKind_number.mp hd
  · exact .inl ⟨datum?_eq_null.mp hv, rfl⟩
  · obtain ⟨w, rfl, rfl⟩ := datum?_eq_int.mp hv
    exact .inr ⟨w, rfl, rfl⟩

/-- A value for a truth value is null or a truth value. -/
theorem truth_of_datum? {v : Value} {d : Datum} (hv : v.datum? = some d) (hd : d.HasKind .truth) :
    v = null ∧ d = .null ∨ ∃ b, v = bool b ∧ d = .bool b := by
  obtain ⟨t, rfl⟩ := Datum.hasKind_truth.mp hd
  cases t with
  | none => exact .inl ⟨datum?_eq_null.mp hv, rfl⟩
  | some b => exact .inr ⟨b, datum?_eq_bool.mp hv, rfl⟩

/-- A value is as true as the datum that it stands for. -/
private theorem toBool?_eq_truth {v : Value} {d : Datum} (hv : v.datum? = some d) :
    v.toBool? = d.truth := by
  cases v <;> cases hv <;> rfl

/-- A value is null if it stands for a null. -/
private theorem isNull_of_datum? {v : Value} {d : Datum} (hv : v.datum? = some d) :
    v.isNull = decide (d = .null) := by
  cases v <;> cases hv <;> rfl

/-- Two values are equal when they are both null, or the same number or truth value. -/
theorem equals_of_datum? {k : Kind} {v w : Value} {d d' : Datum} (hv : v.datum? = some d)
    (hw : w.datum? = some d') (hd : d.HasKind k) (hd' : d'.HasKind k) :
    BinaryOp.eq.testData (v.isNull || w.isNull) d d' = some (v.equals w) := by
  cases k with
  | number =>
    obtain ⟨rfl, rfl⟩ | ⟨m, rfl, rfl⟩ := number_of_datum? hv hd <;>
      obtain ⟨rfl, rfl⟩ | ⟨n, rfl, rfl⟩ := number_of_datum? hw hd' <;> try rfl
    refine congrArg some ?_
    rw [Bool.eq_iff_iff]
    simp [equals, isNull, compare?]
  | truth =>
    obtain ⟨rfl, rfl⟩ | ⟨a, rfl, rfl⟩ := truth_of_datum? hv hd <;>
      obtain ⟨rfl, rfl⟩ | ⟨b, rfl, rfl⟩ := truth_of_datum? hw hd' <;> try rfl
    cases a <;> cases b <;> rfl

/-- The host's order of two values is the one of their data, if it has an outcome. -/
theorem compared_of_datum? {test : Ordering → Bool} {f : Int → Int → Bool} {v w u : Value}
    {d d' : Datum} (hf : ∀ m n, test (compare m n) = true ↔ f m n = true) (hv : v.datum? = some d)
    (hw : w.datum? = some d') (hd : d.HasKind .number) (hd' : d'.HasKind .number)
    (hu : Host.compared test v w = some u) : u.datum? = some (.ofTruth (Datum.test f d d')) := by
  obtain ⟨rfl, rfl⟩ | ⟨m, rfl, rfl⟩ := number_of_datum? hv hd
  · simp [Host.compared, compare?, toFloat?] at hu
  · obtain ⟨rfl, rfl⟩ | ⟨n, rfl, rfl⟩ := number_of_datum? hw hd'
    · simp [Host.compared, compare?, toFloat?] at hu
    · simp only [Host.compared, compare?, Option.map_some, Option.some.injEq] at hu
      rw [← hu, Bool.eq_iff_iff.mpr (hf m.toInt n.toInt)]
      rfl

/-- The host's test of the order of two values is the one of their data, if it has an outcome. -/
theorem ordered_of_datum? {op : BinaryOp} {v w u : Value} {d d' : Datum}
    (hop : op.isComparison = true) (hne : op ≠ .eq ∧ op ≠ .ne) (hv : v.datum? = some d)
    (hw : w.datum? = some d') (hd : d.HasKind .number) (hd' : d'.HasKind .number)
    (hu : Host.binary op v w = some u) :
    u.datum? = some (.ofTruth (op.compareData d d')) := by
  cases op <;> cases hop
  case eq => exact absurd rfl hne.1
  case ne => exact absurd rfl hne.2
  case lt =>
    refine compared_of_datum? (fun m n => ?_) hv hw hd hd' hu
    simp only [beq_iff_eq, Int.compare_eq_lt, decide_eq_true_iff]
  case le =>
    refine compared_of_datum? (fun m n => ?_) hv hw hd hd' hu
    simp only [bne_iff_ne, Int.compare_ne_gt, decide_eq_true_iff]
  case gt =>
    refine compared_of_datum? (fun m n => ?_) hv hw hd hd' hu
    simp only [beq_iff_eq, Int.compare_eq_gt, decide_eq_true_iff]
  case ge =>
    refine compared_of_datum? (fun m n => ?_) hv hw hd hd' hu
    simp only [bne_iff_ne, Int.compare_ne_lt, decide_eq_true_iff]

/-- Arithmetic on words is exact, if it has an outcome. -/
theorem wholeArithmetic_exact {op : BinaryOp} {m n z : Int64}
    (h : Host.wholeArithmetic op m n = some z) :
    op.computeData (.int m.toInt) (.int n.toInt) = .int z.toInt := by
  cases op <;> try cases h
  case add => exact congrArg Datum.int (Checked.toInt_add h).symm
  case sub => exact congrArg Datum.int (Checked.toInt_sub h).symm
  case mul => exact congrArg Datum.int (Checked.toInt_mul h).symm
  case div =>
    obtain ⟨hn, hz⟩ := Checked.toInt_div h
    simp [BinaryOp.computeData, Datum.divided, hn, hz]
  case mod =>
    obtain ⟨hn, hz⟩ := Checked.toInt_rem h
    simp [BinaryOp.computeData, Datum.divided, hn, hz]

/-- The host's arithmetic on two values is exact, if it has an outcome. -/
theorem computed_of_datum? {op : BinaryOp} {v w u : Value} {d d' : Datum}
    (hop : op.isArithmetic = true) (hv : v.datum? = some d) (hw : w.datum? = some d')
    (hd : d.HasKind .number) (hd' : d'.HasKind .number) (hu : Host.binary op v w = some u) :
    u.datum? = some (op.computeData d d') := by
  have hu : Host.arithmetic op v w = some u := by
    obtain ⟨rfl, -⟩ | ⟨m, rfl, -⟩ := number_of_datum? hv hd <;>
      obtain ⟨rfl, -⟩ | ⟨n, rfl, -⟩ := number_of_datum? hw hd' <;>
      cases op <;> first | exact hu | cases hop
  obtain ⟨rfl, rfl⟩ | ⟨m, rfl, rfl⟩ := number_of_datum? hv hd
  · simp [Host.arithmetic, toFloat?] at hu
  · obtain ⟨rfl, rfl⟩ | ⟨n, rfl, rfl⟩ := number_of_datum? hw hd'
    · simp [Host.arithmetic, toFloat?] at hu
    · obtain ⟨z, hz, rfl⟩ := Option.map_eq_some_iff.mp hu
      exact congrArg some (wholeArithmetic_exact hz).symm

end Value

/-! ## Evaluation -/

/-- A value, if there is one, stands for a datum, and there is no fault. -/
def Evaluation.Agrees (x : Evaluation Value) (d : Datum) : Prop :=
  ∃ o : Option Value, x = .ofOption o ∧ ∀ v, o = some v → v.datum? = some d

namespace Evaluation

/-- A value agrees with the datum that it stands for. -/
private theorem Agrees.of_datum? {v : Value} {d : Datum} (h : v.datum? = some d) : Agrees (.ok v) d :=
  ⟨some v, rfl, fun _ hu => Option.some.inj hu ▸ h⟩

/-- What is not evaluated agrees with anything. -/
theorem Agrees.unevaluable {d : Datum} : Agrees .unevaluable d := ⟨none, rfl, nofun⟩

/-- What may be missing agrees with a datum if it has this datum whenever it is there. -/
theorem Agrees.ofOption {o : Option Value} {d : Datum} (h : ∀ v, o = some v → v.datum? = some d) :
    Agrees (.ofOption o) d := ⟨o, rfl, h⟩

/-- A second step agrees if it does on every value that the first one may find. -/
theorem Agrees.bind {x : Evaluation Value} {f : Value → Evaluation Value} {d d' : Datum}
    (hx : x.Agrees d) (hf : ∀ v, x = .ok v → v.datum? = some d → (f v).Agrees d') :
    Agrees (x >>= f) d' := by
  obtain ⟨_ | v, rfl, hv⟩ := hx
  · exact .unevaluable
  · exact hf v rfl (hv v rfl)

/-- A truth value that is needed is the one of the datum. -/
theorem Agrees.needed {v : Value} {f : Bool → Evaluation Value} {d d' : Datum}
    (hv : v.datum? = some d) (hf : ∀ b, d.truth = some b → (f b).Agrees d') :
    Agrees (Evaluation.ofOption v.toBool? >>= f) d' := by
  rw [Value.toBool?_eq_truth hv]
  cases hd : d.truth with
  | none => exact .unevaluable
  | some b => exact hf b hd

end Evaluation

/-- What is put together comes from the database if one of its parts does. -/
theorem Origin.max_eq_sql {a b : Origin} : a.max b = .sql ↔ a = .sql ∨ b = .sql := by
  cases a <;> cases b <;> simp [Origin.max]

/-- Comparisons and arithmetic need both of their operands. -/
theorem BinaryOp.needsBoth {op : BinaryOp} (hop : op.isComparison = true ∨ op.isArithmetic = true) :
    op ≠ .and ∧ op ≠ .or ∧ op ≠ .coalesce := by
  refine ⟨?_, ?_, ?_⟩ <;> rintro rfl <;> simp [isComparison, isArithmetic] at hop

namespace Expr

variable {s : Scope} {row : Contents} {k : Kind} {e : Expr}

/-- Whether an expression reads something after others do says nothing about these. -/
theorem readsAfter_eq_nil (h : Typed s k e) (seen : List (String × String)) :
    readsAfter seen e = [] ↔ seen = [] ∧ e.reads = [] := by
  induction h generalizing seen with
  | constant _ _ | captured _ _ => simp [readsAfter, reads]
  | @member _ p name =>
    have hne : reads (member (param p) name) ≠ [] := by simp [reads, readsAfter]
    simp only [hne, and_false, iff_false, readsAfter]
    split
    · rintro rfl
      contradiction
    · simp
  | negate _ ih | not _ ih => exact ih seen
  | logical _ _ _ ihl ihr | comparison _ _ _ ihl ihr | equality _ _ _ ihl ihr
  | arithmetic _ _ _ ihl ihr | coalesce _ _ ihl ihr =>
    rw [reads, readsAfter, readsAfter, ihr, ihr, ihl, ihl]
    simp [and_assoc]
  | conditional _ _ _ iht iha ihb =>
    rw [reads, readsAfter, readsAfter, ihb, ihb, iha, iha, iht, iht]
    simp [and_assoc]

/-- A binary operator reads nothing if its sides read nothing. -/
private theorem reads_binary {op : BinaryOp} {l r : Expr} {k k' : Kind} (hl : Typed s k l)
    (hr : Typed s k' r) : (binary op l r).reads = [] ↔ l.reads = [] ∧ r.reads = [] := by
  rw [reads, readsAfter, readsAfter_eq_nil hr, readsAfter_eq_nil hl]
  simp

/-- A choice reads nothing if its test and its sides read nothing. -/
private theorem reads_conditional {test a b : Expr} (ht : Typed s .truth test) (ha : Typed s k a)
    (hb : Typed s k b) :
    (conditional test a b).reads = [] ↔ test.reads = [] ∧ a.reads = [] ∧ b.reads = [] := by
  rw [reads, readsAfter, readsAfter_eq_nil hb, readsAfter_eq_nil ha, readsAfter_eq_nil ht]
  simp [and_assoc]

/-- Numbers and truth values contain no calls. -/
theorem containsCall_of_typed (h : Typed s k e) : e.containsCall = false := by
  induction h with
  | constant _ _ | captured _ _ | member _ _ _ => rfl
  | negate _ ih | not _ ih => exact ih
  | logical _ _ _ ihl ihr | comparison _ _ _ ihl ihr | equality _ _ _ ihl ihr
  | arithmetic _ _ _ ihl ihr | coalesce _ _ ihl ihr =>
    rw [containsCall, ihl, ihr]
    rfl
  | conditional _ _ _ iht iha ihb =>
    rw [containsCall, iht, iha, ihb]
    rfl

/-- What has to be computed by the database is what reads a row. -/
theorem origin_eq_sql (t : TranslationTable) (h : Typed s k e) :
    e.origin t = .sql ↔ e.reads ≠ [] := by
  induction h with
  | constant _ _ | captured _ _ => simp [origin, reads, readsAfter]
  | member _ _ _ => simp [origin, reads, readsAfter]
  | negate _ ih | not _ ih => exact ih
  | logical _ hl hr ihl ihr | comparison _ hl hr ihl ihr | equality _ hl hr ihl ihr
  | arithmetic _ hl hr ihl ihr | coalesce hl hr ihl ihr =>
    rw [origin, Origin.max_eq_sql, ihl, ihr, Ne, Ne, Ne, reads_binary hl hr, Classical.not_and_iff_not_or_not]
  | conditional ht ha hb iht iha ihb =>
    rw [origin, Origin.max_eq_sql, Origin.max_eq_sql, iht, iha, ihb, Ne, Ne, Ne, Ne,
      reads_conditional ht ha hb, Classical.not_and_iff_not_or_not,
      Classical.not_and_iff_not_or_not, or_assoc]

/-- A constant is its value. -/
theorem value_constant (v : Value) : Host.value (constant v) = .ok v := by
  rw [Host.value, Host.evaluate]

/-- A captured value is itself. -/
theorem value_captured (name : String) (v : Value) : Host.value (captured name v) = .ok v := by
  rw [Host.value, Host.evaluate]

/-- Two operands are evaluated before the operator. -/
theorem value_binary {op : BinaryOp} (hop : op ≠ .and ∧ op ≠ .or ∧ op ≠ .coalesce) (l r : Expr) :
    Host.value (binary op l r) = (do
      let v ← Host.value l
      let w ← Host.value r
      .ofOption (Host.binary op v w)) := by
  rw [Host.value, Host.evaluate]
  · rfl
  · exact hop.1
  · exact hop.2.1
  · exact hop.2.2

/-- An operand at hand is null at hand exactly when its value is. -/
theorem isNullAtHand_eq {v : Value} (hr : e.reads = []) (hv : Host.value e = .ok v) :
    e.isNullAtHand = v.isNull := by
  rw [isNullAtHand, hr, hv]
  rfl

/-- An expression that reads a row, or has no value, is not null at hand. -/
theorem isNullAtHand_of_not_ok (h : ∀ v, e.reads = [] → Host.value e ≠ .ok v) :
    e.isNullAtHand = false := by
  by_cases hr : e.reads = []
  · cases hv : Host.value e with
    | ok v => exact absurd hv (h v hr)
    | error halt => simp [isNullAtHand, hv]
  · simp [isNullAtHand, hr]

/-- The equality of two operands at hand is the host's. -/
theorem equality_agrees {op : BinaryOp} {l r : Expr} {v w : Value} (hop : op = .eq ∨ op = .ne)
    (hlr : l.reads = []) (hrr : r.reads = []) (hl : Host.value l = .ok v)
    (hr : Host.value r = .ok w) (hv : v.datum? = some (l.meaning s row))
    (hw : w.datum? = some (r.meaning s row)) (hkl : (l.meaning s row).HasKind k)
    (hkr : (r.meaning s row).HasKind k) {u : Value} (hu : Host.binary op v w = some u) :
    u.datum? = some ((binary op l r).meaning s row) := by
  have heq := Value.equals_of_datum? hv hw hkl hkr
  obtain rfl | rfl := hop
  · cases hu
    rw [meaning_comparison rfl, isNullAtHand_eq hlr hl, isNullAtHand_eq hrr hr, heq]
    rfl
  · cases hu
    rw [meaning_comparison rfl, isNullAtHand_eq hlr hl, isNullAtHand_eq hrr hr,
      BinaryOp.testData_ne, heq]
    rfl

/-- A connective of two operands at hand is decided by the first one, or else needs both. -/
theorem logical_agrees {op : BinaryOp} {l r : Expr} (hop : op = .and ∨ op = .or)
    (hl : (Host.value l).Agrees (l.meaning s row)) (hr : (Host.value r).Agrees (r.meaning s row)) :
    (Host.value (binary op l r)).Agrees ((binary op l r).meaning s row) := by
  obtain rfl | rfl := hop <;>
    rw [Host.value, Host.evaluate, meaning] <;>
    refine hl.bind fun v _ hv => .needed hv fun p hp => ?_ <;>
    cases p <;>
    first
    | exact .of_datum? (by rw [hp]; cases (r.meaning s row).truth <;> rfl)
    | refine hr.bind fun w _ hw => .needed hw fun q hq => .of_datum? ?_
      rw [hp, hq]
      cases q <;> rfl

/-- **Evaluation agrees with the meaning.** An expression that reads no row has no value at hand, or
its value is what it means.

**Proof sketch.** By induction on the typing. The connectives and the choice look at one operand
before another, and what they skip does not count in the meaning either; the other operators
evaluate all operands, and their host versions are those on data. -/
theorem value_agrees (hf : row.Fits s) (h : Typed s k e) (hr : e.reads = []) :
    (Host.value e).Agrees (e.meaning s row) := by
  induction h with
  | constant hv _ =>
    rw [value_constant, meaning, hv]
    exact .of_datum? hv
  | captured hv _ =>
    rw [value_captured, meaning, hv]
    exact .of_datum? hv
  | member _ _ _ => simp [reads, readsAfter] at hr
  | @negate e he ih =>
    have hk := hasKind_meaning hf he
    rw [Host.value, Host.evaluate, meaning]
    refine (ih hr).bind fun v _ hv => .ofOption fun u hu => ?_
    obtain ⟨rfl, -⟩ | ⟨w, rfl, hd⟩ := Value.number_of_datum? hv hk
    · cases hu
    · obtain ⟨z, hz, rfl⟩ := Option.map_eq_some_iff.mp hu
      rw [hd, Value.datum?, Checked.ofInt?_eq_some_iff.mp hz]
      simp [Datum.lift]
  | @not e he ih =>
    rw [Host.value, Host.evaluate, meaning]
    refine (ih hr).bind fun v _ hv => .ofOption fun u hu => ?_
    obtain ⟨b, hb, rfl⟩ := Option.map_eq_some_iff.mp hu
    rw [← Value.toBool?_eq_truth hv, hb]
    rfl
  | logical hop hl hr' ihl ihr =>
    obtain ⟨hlr, hrr⟩ := (reads_binary hl hr').mp hr
    exact logical_agrees hop (ihl hlr) (ihr hrr)
  | @comparison op l r hop hl hr' ihl ihr =>
    obtain ⟨hlr, hrr⟩ := (reads_binary hl hr').mp hr
    rw [value_binary (BinaryOp.needsBoth (.inl hop))]
    refine (ihl hlr).bind fun v hlv hv => (ihr hrr).bind fun w hrw hw => .ofOption fun u hu => ?_
    have hkl := hasKind_meaning hf hl
    have hkr := hasKind_meaning hf hr'
    by_cases heq : op = .eq ∨ op = .ne
    · exact equality_agrees heq hlr hrr hlv hrw hv hw hkl hkr hu
    · rw [not_or] at heq
      rw [Value.ordered_of_datum? hop heq hv hw hkl hkr hu, meaning_comparison hop,
        BinaryOp.testData_ordered heq]
  | @equality op l r hop hl hr' ihl ihr =>
    obtain ⟨hlr, hrr⟩ := (reads_binary hl hr').mp hr
    rw [value_binary (by obtain rfl | rfl := hop <;> simp)]
    refine (ihl hlr).bind fun v hlv hv => (ihr hrr).bind fun w hrw hw => .ofOption fun u hu => ?_
    exact equality_agrees hop hlr hrr hlv hrw hv hw (hasKind_meaning hf hl)
      (hasKind_meaning hf hr') hu
  | @arithmetic op l r hop hl hr' ihl ihr =>
    obtain ⟨hlr, hrr⟩ := (reads_binary hl hr').mp hr
    rw [value_binary (BinaryOp.needsBoth (.inr hop))]
    refine (ihl hlr).bind fun v _ hv => (ihr hrr).bind fun w _ hw => .ofOption fun u hu => ?_
    rw [Value.computed_of_datum? hop hv hw (hasKind_meaning hf hl) (hasKind_meaning hf hr') hu,
      meaning_arithmetic hop]
  | @coalesce k l r hl hr' ihl ihr =>
    obtain ⟨hlr, hrr⟩ := (reads_binary hl hr').mp hr
    rw [Host.value, Host.evaluate, meaning]
    refine (ihl hlr).bind fun v _ hv => ?_
    rw [Value.isNull_of_datum? hv]
    cases hd : l.meaning s row with
    | null => exact ihr hrr
    | bool b | int n => exact .of_datum? (hv.trans (congrArg some hd))
  | @conditional k test a b ht ha hb iht iha ihb =>
    obtain ⟨htr, har, hbr⟩ := (reads_conditional ht ha hb).mp hr
    rw [Host.value, Host.evaluate, meaning]
    refine (iht htr).bind fun v _ hv => .needed hv fun p hp => ?_
    cases p with
    | true =>
      rw [if_pos (Datum.truth_eq_some.mp hp)]
      exact iha har
    | false =>
      have hne : test.meaning s row ≠ .bool true := by
        rw [Datum.truth_eq_some.mp hp]
        simp
      rw [if_neg hne]
      exact ihb hbr

end Expr

end LambdaSql
