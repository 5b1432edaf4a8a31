import LambdaSql.Proofs.Meaning.Nearest
import LambdaSql.Proofs.Meaning.Numbers
import LambdaSql.Proofs.Meaning.StaticCalls

/-!
# Calls of functions of numbers

The magnitude, the sign and the larger and the smaller of whole numbers are computed by the host when they are known, and
by the database otherwise. The host goes through floating-point numbers for a sign, where a zero has one, too: the sign
of zero is one when it is folded, and zero when it is left to the database. Everything else is exact, and the only number
that the host leaves alone is the least one, which has no magnitude of 64 bits.

## Main definitions

* `NumberCall` - a call of a function of whole numbers, with its arguments.
* `NumberCall.exact` - the value that it has in arithmetic.
* `NumberCall.folded` - the value that the host computes.

## Main results

* `NumberCall.callOf_eq` - what the host computes.
* `NumberCall.gives_callOf` - what the database computes.
* `NumberCall.magnitudes_and_signs_agree_iff` - they have the same value, unless it is the sign of zero.
-/

namespace LambdaSql

open Planning

/-- A call of a function of whole numbers. -/
inductive NumberCall where
  | abs (n : Int64)
  | sign (n : Int64)
  | max (m n : Int64)
  | min (m n : Int64)
deriving DecidableEq

namespace NumberCall

/-- The name of the method. -/
def method : NumberCall → String
  | abs _ => "Abs"
  | sign _ => "Sign"
  | max .. => "Max"
  | min .. => "Min"

/-- The values of the arguments. -/
def args : NumberCall → List Value
  | abs n | sign n => [.int n]
  | max m n | min m n => [.int m, .int n]

/-- The function of the database. -/
def function : NumberCall → SqlFunction
  | abs _ => .abs
  | sign _ => .sign
  | max .. => .greatest
  | min .. => .least

/-- How the type of the result is found. -/
def returns : NumberCall → ReturnType
  | sign _ => .fixed .int32
  | _ => .operand

/-- The value of the call in the arithmetic of whole numbers. -/
def exact : NumberCall → Int
  | abs n => |n.toInt|
  | sign n => n.toInt.sign
  | max m n => Max.max m.toInt n.toInt
  | min m n => Min.min m.toInt n.toInt

/-- Whether the value is a number of 64 bits. -/
def InRange (k : NumberCall) : Prop := -2 ^ 63 ≤ k.exact ∧ k.exact < 2 ^ 63

instance (k : NumberCall) : Decidable k.InRange := inferInstanceAs (Decidable (_ ∧ _))

/-- The value that the host computes. A zero has the sign of a positive number. -/
def folded : NumberCall → Int
  | sign n => if n.toInt < 0 then -1 else 1
  | k => k.exact

/-- Signs are in range. -/
private theorem inRange_sign (n : Int64) : (sign n).InRange := by
  obtain h | h | h := Int.sign_trichotomy n.toInt <;> simp [InRange, exact, h]

/-- The larger of two numbers in range is in range. -/
private theorem inRange_max (m n : Int64) : (max m n).InRange :=
  ⟨le_max_of_le_left m.le_toInt, max_lt m.toInt_lt n.toInt_lt⟩

/-- The smaller of two numbers in range is in range. -/
private theorem inRange_min (m n : Int64) : (min m n).InRange :=
  ⟨le_min m.le_toInt n.le_toInt, min_lt_of_left_lt m.toInt_lt⟩

/-- **The value that the host computes is the exact one, unless it is the sign of zero.** -/
theorem folded_eq_exact_iff (k : NumberCall) : k.folded = k.exact ↔ k ≠ .sign 0 := by
  cases k with
  | sign n =>
    have hzero : n = 0 ↔ n.toInt = 0 := by rw [← Int64.toInt_inj, Int64.toInt_zero]
    rw [Ne, NumberCall.sign.injEq, hzero]
    change (if n.toInt < 0 then -1 else 1) = n.toInt.sign ↔ _
    obtain h | h | h := lt_trichotomy n.toInt 0
    · simp [h, h.ne, Int.sign_eq_neg_one_of_neg h]
    · simp [h]
    · simp [h.not_gt, h.ne', Int.sign_eq_one_of_pos h]
  | _ => exact iff_of_true rfl nofun

/-! ## The host -/

/-- The sign of the nearest `Float` of a whole number is that of the number; zero is not negative. -/
theorem signOf_ofInt (n : Int) : Host.signOf (Number.ofInt n) = if n < 0 then -1 else 1 := by
  unfold Host.signOf
  obtain h | ⟨m, e, h⟩ := Number.read_ofRatio (decide (n < 0)) n.natAbs Nat.one_pos <;> rw [Number.ofInt, h] <;> simp

/-- **The host computes the number if it is in range, and nothing otherwise.**

**Proof sketch.** By the call. Only a magnitude may be out of range: that of the smallest number. -/
theorem callOf_eq {k : NumberCall} :
    (k.InRange → ∃ w : Int64, w.toInt = k.folded ∧ Host.callOf "Math" k.method k.args = .ok (.int w)) ∧
      (¬ k.InRange → Host.callOf "Math" k.method k.args = .unevaluable) := by
  cases k with
  | abs n =>
    have hcall : Host.callOf "Math" "Abs" [.int n] = .ofOption ((Checked.abs n).map .int) := rfl
    refine ⟨fun h => ?_, fun h => ?_⟩
    · have hw : (Int64.ofInt |n.toInt|).toInt = |n.toInt| := Int64.toInt_ofInt_of_le h.1 h.2
      exact ⟨_, hw, by rw [method, args, hcall, Checked.abs_eq_some_iff.mpr hw]; rfl⟩
    · cases hn : Checked.abs n with
      | none => rw [method, args, hcall, hn]; rfl
      | some w =>
        have hw : w.toInt = (abs n).exact := Checked.abs_eq_some_iff.mp hn
        exact absurd ⟨hw ▸ w.le_toInt, hw ▸ w.toInt_lt⟩ h
  | sign n =>
    refine ⟨fun _ => ⟨Host.signOf (Number.ofInt n.toInt), ?_, rfl⟩, fun h => absurd (inRange_sign n) h⟩
    rw [signOf_ofInt, folded]
    split <;> rfl
  | max m n =>
    refine ⟨fun _ => ⟨if m.toInt < n.toInt then n else m, ?_, ?_⟩, fun h => absurd (inRange_max m n) h⟩
    · change _ = Max.max m.toInt n.toInt
      split <;> omega
    · change Evaluation.ofOption (some (if Ord.compare m.toInt n.toInt == .lt then Value.int n else .int m)) = _
      simp only [beq_iff_eq, Int.compare_eq_lt, apply_ite Value.int]
      rfl
  | min m n =>
    refine ⟨fun _ => ⟨if m.toInt < n.toInt then m else n, ?_, ?_⟩, fun h => absurd (inRange_min m n) h⟩
    · change _ = Min.min m.toInt n.toInt
      split <;> omega
    · change Evaluation.ofOption (some (if Ord.compare m.toInt n.toInt == .lt then Value.int m else .int n)) = _
      simp only [beq_iff_eq, Int.compare_eq_lt, apply_ite Value.int]
      rfl

/-! ## The database -/

variable {V : Type} {I : Interpretation V} {ratio : ℚ → V} {s : Scope}

/-- The translations by default have an entry for the call. -/
theorem methodOf?_defaults (k : NumberCall) :
    TranslationTable.defaults.methodOf? "Math" k.method (.exactly k.args.length) =
      some (.function k.function k.returns) := by
  cases k <;> rfl

/-- A function of the database has the exact value, if this is in range. -/
theorem call_eq (hI : I.ReadsNumbers ratio) {k : NumberCall} (hk : k.InRange) :
    I.call k.function (k.args.map I.value) = some (ratio k.exact) := by
  cases k with
  | abs n =>
    change I.call .abs [I.value (.int n)] = _
    rw [hI.value_int, hI.abs _ hk.2, ← Int.cast_abs]
    rfl
  | sign n =>
    change I.call .sign [I.value (.int n)] = _
    rw [hI.value_int, hI.sign]
    rfl
  | max m n =>
    change I.call .greatest [I.value (.int m), I.value (.int n)] = _
    rw [hI.value_int, hI.value_int, hI.greatest, ← Int.cast_max]
    rfl
  | min m n =>
    change I.call .least [I.value (.int m), I.value (.int n)] = _
    rw [hI.value_int, hI.value_int, hI.least, ← Int.cast_min]
    rfl

/-- The call becomes a function of the database, applied to the values of the arguments. -/
theorem gives_callOf (hs : s.compiler.translations = .defaults) (k : NumberCall) {args : List Expr}
    (hargs : List.Forall₂ (Expr.Denotes I s) args k.args) (p : Progress) :
    ∃ n q, (Lowering.callOf (some "Math") k.method (operands args)).Gives s p n q ∧
      n.eval I = I.call k.function (k.args.map I.value) := by
  have hmethod := hs ▸ hargs.length_eq ▸ k.methodOf?_defaults
  obtain ⟨ns, q, t, hn, hevals⟩ := Lowering.gives_callOf_function hmethod hargs p
  exact ⟨_, q, hn, by rw [Node.eval, Node.evals_eq_map, hevals]⟩

/-! ## Folding -/

/-- **Folded and translated functions of numbers.** With whole numbers as arguments, a call is evaluated just if its exact
value is a number of 64 bits, and then it is planned by this number, or by one if it is the sign of zero. The same call
on the same numbers, whether they are values or columns, is translated to a function of the database, which has the exact
value. So both are the same unless it is the sign of zero.

**Proof sketch.** The host compares and takes magnitudes exactly, so the only magnitude that is missing is that of the
least number. A sign is read off the nearest `Float`, which keeps the sign that it is rounded with, and zero is rounded as
a number that is not negative. -/
theorem magnitudes_and_signs_agree_iff (hI : I.ReadsNumbers ratio) (hs : s.compiler.translations = .defaults)
    (hfold : s.compiler.options.foldCalls = true) {k : NumberCall} {es args : List Expr}
    (hes : List.Forall₂ Expr.Holds es k.args) (hargs : List.Forall₂ (Expr.Denotes I s) args k.args) (p : Progress) :
    ((∃ v, Host.value (.callOf "Math" k.method es) = .ok v) ↔ k.InRange) ∧
      ∃ n q, (Lowering.callOf (some "Math") k.method (operands args)).Gives s p n q ∧
        (k.InRange → n.eval I = some (ratio k.exact) ∧
          ∃ m, (operand (.callOf "Math" k.method es)).value.Gives s p m p ∧ m.eval I = some (ratio k.folded) ∧
            (m.eval I = n.eval I ↔ k ≠ .sign 0)) := by
  have hvalue : Host.value (.callOf "Math" k.method es) = Host.callOf "Math" k.method k.args := Expr.value_callOf hes
  refine ⟨⟨fun ⟨v, hv⟩ => ?_, fun hk => ?_⟩, ?_⟩
  · by_contra hk
    rw [hvalue, callOf_eq.2 hk] at hv
    cases hv
  · obtain ⟨w, -, hw⟩ := callOf_eq.1 hk
    exact ⟨_, hvalue.trans hw⟩
  · obtain ⟨n, q, hn, hcall⟩ := k.gives_callOf hs hargs p
    refine ⟨n, q, hn, fun hk => ?_⟩
    have hexact : n.eval I = some (ratio k.exact) := hcall.trans (call_eq hI hk)
    obtain ⟨w, hw, hcomputed⟩ := callOf_eq.1 hk
    have hint : (Value.int w).IsTextOrInt := trivial
    obtain ⟨m, hm, heval, -⟩ := hint.gives_atHand (I := I) (s := s)
      ((Expr.callOf "Math" k.method es).origin s.compiler.translations) p
    obtain ⟨lower, hlower⟩ := (Expr.callOf "Math" k.method es).operand_value
    have hfolded : m.eval I = some (ratio k.folded) := by rw [heval, hI.value_int, hw]
    refine ⟨hexact, m, hlower ▸ Lowering.gives_folded_of_atHand
      (Expr.atHand?_callOf hfold (by decide) hes hcomputed) hm, hfolded, ?_⟩
    rw [hfolded, hexact, hI.eq_ratio_iff, folded_eq_exact_iff]

/-! ### Columns of numbers -/

/-- A table with a number. -/
def depthTable : TableBinding where
  name := "Depth"
  aliasName := some "a"
  shape := .entity
    { name := "Depth"
      table := "depth"
      fields := [{ member := "Metres", column := "metres", type := .int64, native := .int64 }] }

/-- The scope in which `x` is a row of the table. -/
def depthScope : Scope where
  compiler := { model := {} }
  frames := [[("x", .table depthTable)]]

/-- A row with a number. -/
def depthRow : Interpretation ℚ := .exact fun _ column => if column = "metres" then some (-7) else none

/-- The depth is seven metres below zero. -/
private theorem metres_denotes : (Expr.member (.param "x") "Metres").Denotes depthRow depthScope (.int (-7)) :=
  .column (t := depthTable) rfl rfl rfl nofun

/-- The folded magnitude and the magnitude of the column have the same value. -/
theorem magnitude_folded :
    ((∃ v, Host.value (.callOf "Math" "Abs" [.constant (.int (-7))]) = .ok v) ↔ (abs (-7)).InRange) ∧
    depthRow.ReadsNumbers id ∧
    ∃ m n q, (operand (.callOf "Math" "Abs" [.constant (.int (-7))])).value.Gives depthScope {} m {} ∧
      (Lowering.callOf (some "Math") "Abs" (operands [.member (.param "x") "Metres"])).Gives depthScope {} n q ∧
      n.eval depthRow = some 7 ∧ m.eval depthRow = n.eval depthRow := by
  obtain ⟨hfolds, n, q, hn, htranslated⟩ := magnitudes_and_signs_agree_iff Interpretation.exact_readsNumbers rfl rfl
    (k := abs (-7)) (Expr.holds_constants [.int (-7)]) (.cons metres_denotes .nil) {}
  obtain ⟨hexact, m, hm, -, hiff⟩ := htranslated (by decide)
  exact ⟨hfolds, Interpretation.exact_readsNumbers, m, n, q, hm, hn, hexact, hiff.mpr (by decide)⟩

/-- The folded sign of zero is one, and for the database it is zero. -/
example :
    ∃ m n, (operand (.callOf "Math" "Sign" [.constant (.int 0)])).value.Gives depthScope {} m {} ∧
      (Lowering.callOf (some "Math") "Sign" (operands [.constant (.int 0)])).Gives depthScope {} n {} ∧
      m.eval depthRow = some 1 ∧ n.eval depthRow = some 0 :=
  ⟨_, _, rfl, rfl, rfl, rfl⟩

end NumberCall

end LambdaSql
