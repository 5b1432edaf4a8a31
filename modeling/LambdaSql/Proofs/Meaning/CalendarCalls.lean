import LambdaSql.Proofs.Meaning.Formulas
import LambdaSql.Proofs.Meaning.Numbers
import LambdaSql.Proofs.Meaning.StaticCalls

/-!
# Calls about the calendar

Whether a year is a leap year and how many days a month has is looked up in the calendar when year and month are known,
and computed by a formula of the database otherwise. The host counts the days from the first of the month to the first
of the next one, so a month has a length if the next one is in the calendar, too.

## Main definitions

* `CalendarCall` - a call about the calendar, with the values of its arguments.
* `CalendarCall.InCalendar` - what the calendar knows.
* `CalendarCall.formula` - the formula of the database.

## Main results

* `Calendar.daysOfMonth?_eq_some_iff` - the host finds the length of a month.
* `CalendarCall.alike_formula` - the function is written as the formula.
* `CalendarCall.eval_formula` - the formula has the length of the month, and knows leap years.
* `CalendarCall.folded_eq_translated` - folded and translated calls have the same value.
-/

namespace LambdaSql

open Planning

/-! ## The calendar -/

namespace Calendar

/-- Leap years by divisibility. -/
private theorem isLeapYear_iff (y : Int) : isLeapYear y = true ↔ 4 ∣ y ∧ ¬ 100 ∣ y ∨ 400 ∣ y := by
  simp only [isLeapYear, Bool.and_eq_true, Bool.or_eq_true, decide_eq_true_eq]
  omega

/-- Every month has a first day. -/
theorem daysInMonth_pos (y : Int) {m : Nat} (h : 1 ≤ m ∧ m ≤ 12) : 1 ≤ daysInMonth y m := by
  obtain ⟨hlow, hhigh⟩ := h
  unfold daysInMonth
  split <;> try decide
  · split <;> decide
  · interval_cases m <;> contradiction

/-- No month has more than 31 days. -/
private theorem daysInMonth_le (y : Int) (m : Nat) : daysInMonth y m ≤ 31 := by
  unfold daysInMonth
  split <;> try decide
  split <;> decide

/-- Only the months of the year have days. -/
private theorem month_of_daysInMonth_pos {y : Int} {m : Nat} (h : 1 ≤ daysInMonth y m) : 1 ≤ m ∧ m ≤ 12 := by
  unfold daysInMonth at h
  split at h <;> omega

/-- The first of a month is a date. -/
theorem isDate_first {y : Int} {m : Nat} :
    isDate y m 1 = true ↔ (minYear ≤ y ∧ y ≤ maxYear) ∧ 1 ≤ m ∧ m ≤ 12 := by
  simp only [isDate, Bool.and_eq_true, decide_eq_true_eq, le_refl, and_true]
  exact and_congr_right fun _ => ⟨month_of_daysInMonth_pos, daysInMonth_pos y⟩

/-- The first day of a month, if there is such a month. -/
private theorem of?_first_eq_some {y : Int} {m : Nat} {d : Date} :
    Date.of? y m 1 = some d ↔ d.year = y ∧ d.month = m ∧ d.day = 1 := by
  unfold Date.of?
  constructor
  · intro h
    split at h
    · obtain rfl := Option.some.inj h
      exact ⟨rfl, rfl, rfl⟩
    · cases h
  · rintro ⟨rfl, rfl, hday⟩
    rw [dif_pos (hday ▸ d.valid)]
    cases d
    cases hday
    rfl

/-- A year has 365 days, and one more if it is a leap year. -/
theorem daysBeforeYear_succ (y : Int) :
    daysBeforeYear (y + 1) = daysBeforeYear y + 365 + if isLeapYear y then 1 else 0 := by
  simp only [daysBeforeYear]
  split
  · next h =>
    rw [isLeapYear_iff] at h
    omega
  · next h =>
    rw [isLeapYear_iff] at h
    omega

/-- The months before December. -/
theorem daysBeforeMonth_december (y : Int) : daysBeforeMonth y 12 = 334 + if isLeapYear y then 1 else 0 := by
  simp only [daysBeforeMonth, daysInMonth]
  split <;> rfl

/-- **From the first of a month to the first of the next one it is as many days as the month has.**

**Proof sketch.** In December the next first is that of January, a year later, and the days before it are those of one
more year. In any other month the days before the next one are those before the month and its own. -/
theorem dayNumber_next {d e : Date} (hday : d.day = 1) (h : d.addMonths 1 = some e) :
    e.dayNumber - d.dayNumber = daysInMonth d.year d.month := by
  have hmonth : 1 ≤ d.month ∧ d.month ≤ 12 := (isDate_first.mp (hday ▸ d.valid)).2
  have hcount : 12 * d.year + d.month - 1 + 1 = 12 * d.year + d.month := by omega
  simp only [Date.addMonths, hcount, hday] at h
  -- the year turns after December only
  by_cases hlast : d.month = 12
  · have hyear : (12 * d.year + d.month) / 12 = d.year + 1 := by omega
    have hnext : ((12 * d.year + d.month) % 12).toNat + 1 = 1 := by omega
    rw [hyear, hnext, Nat.min_eq_left (daysInMonth_pos _ (by decide)), of?_first_eq_some] at h
    obtain ⟨hy, hm, hd⟩ := h
    have hjanuary : daysBeforeMonth (d.year + 1) 1 = 0 := rfl
    rw [Date.dayNumber, Date.dayNumber, Date.dayOfYear, Date.dayOfYear, hy, hm, hd, hday, hlast, hjanuary,
      daysBeforeYear_succ, daysBeforeMonth_december]
    change _ = (31 : Int)
    push_cast
    ring
  · have hyear : (12 * d.year + d.month) / 12 = d.year := by omega
    have hnext : ((12 * d.year + d.month) % 12).toNat + 1 = d.month + 1 := by omega
    rw [hyear, hnext, Nat.min_eq_left (daysInMonth_pos _ (by omega)), of?_first_eq_some] at h
    obtain ⟨hy, hm, hd⟩ := h
    rw [Date.dayNumber, Date.dayNumber, Date.dayOfYear, Date.dayOfYear, hy, hm, hd, hday, daysBeforeMonth]
    push_cast
    ring

/-- The first of the next month is in the calendar if that month is. -/
theorem exists_addMonths_iff {d : Date} (hday : d.day = 1) :
    (∃ e, d.addMonths 1 = some e) ↔ 12 * d.year + d.month < 12 * maxYear + 12 := by
  obtain ⟨⟨hmin, -⟩, hmonth⟩ := isDate_first.mp (hday ▸ d.valid)
  have hcount : 12 * d.year + d.month - 1 + 1 = 12 * d.year + d.month := by omega
  have hnext : 1 ≤ ((12 * d.year + d.month) % 12).toNat + 1 ∧ ((12 * d.year + d.month) % 12).toNat + 1 ≤ 12 := by omega
  simp only [Date.addMonths, hcount, hday, Nat.min_eq_left (daysInMonth_pos _ hnext), Date.of?]
  constructor
  · rintro ⟨e, he⟩
    split at he
    · next h => exact by have := (isDate_first.mp h).1; omega
    · cases he
  · intro h
    exact ⟨_, dif_pos (isDate_first.mpr ⟨⟨by omega, by omega⟩, hnext⟩)⟩

/-- Whether a month and the one after it are in the calendar. -/
def HasNextMonth (y m : Int) : Prop := minYear ≤ y ∧ 1 ≤ m ∧ m ≤ 12 ∧ 12 * y + m < 12 * maxYear + 12

instance (y m : Int) : Decidable (HasNextMonth y m) := inferInstanceAs (Decidable (_ ∧ _))

/-- **The host finds the length of a month if the next month is in the calendar, too**, and of no other month.

**Proof sketch.** The host takes the difference between two firsts, both of which must be in the calendar. The second
one is not only after the last month of the last year. -/
theorem daysOfMonth?_eq_some_iff {y m : Int} {v : Value} :
    Host.daysOfMonth? y m = some v ↔ HasNextMonth y m ∧ v = .int (Int64.ofInt (daysInMonth y m.toNat)) := by
  unfold Host.daysOfMonth? HasNextMonth
  constructor
  · intro h
    by_cases hm : m < 0
    · rw [if_pos hm] at h
      cases h
    · rw [if_neg hm] at h
      obtain ⟨first, hfirst, h⟩ := Option.bind_eq_some_iff.mp h
      obtain ⟨next, hnext, h⟩ := Option.bind_eq_some_iff.mp h
      obtain ⟨hy, hmonth, hday⟩ := of?_first_eq_some.mp hfirst
      obtain ⟨hyears, hmonths⟩ := isDate_first.mp (hday ▸ first.valid)
      have hlast := (exists_addMonths_iff hday).mp ⟨next, hnext⟩
      refine ⟨by omega, ?_⟩
      rw [← hy, ← hmonth, ← dayNumber_next hday hnext]
      exact (Option.some.inj h).symm
  · rintro ⟨⟨hyear, hlow, hhigh, hlast⟩, rfl⟩
    have hm : (m.toNat : Int) = m := Int.toNat_of_nonneg (by omega)
    have hvalid : isDate y m.toNat 1 = true := isDate_first.mpr ⟨⟨hyear, by omega⟩, by omega, by omega⟩
    have hfirst : Date.of? y m.toNat 1 = some ⟨y, m.toNat, 1, hvalid⟩ := dif_pos hvalid
    obtain ⟨next, hnext⟩ := (exists_addMonths_iff (d := ⟨y, m.toNat, 1, hvalid⟩) rfl).mpr (by rw [hm]; exact hlast)
    have hlength := dayNumber_next rfl hnext
    rw [if_neg (by omega)]
    refine Option.bind_eq_some_iff.mpr ⟨_, hfirst, Option.bind_eq_some_iff.mpr ⟨next, hnext, ?_⟩⟩
    rw [hlength]
    rfl

end Calendar

/-! ## Formulas -/

/-- The conjunction of known truth values. -/
private theorem Truth.and_some (b c : Bool) : Truth.and (some b) (some c) = some (b && c) := by
  cases b <;> cases c <;> rfl

/-- The disjunction of known truth values. -/
private theorem Truth.or_some (b c : Bool) : Truth.or (some b) (some c) = some (b || c) := by
  cases b <;> cases c <;> rfl

namespace CalendarFormula

/-- The test that a remainder is zero or that it is not. -/
def remainderTest (op : SqlOp) (y : Node) (n : Int64) : Node :=
  .binary op (.binary .mod y.closed (.ofInt n) .int32) (.ofInt 0) .bool

/-- The test that a year is divisible by four and not by a hundred. -/
def ordinaryLeap (y : Node) : Node := .binary .and (remainderTest .eq y 4) (remainderTest .ne y 100) .bool

/-- The test that a year is a leap year. -/
def leap (y : Node) : Node := .binary .or (.group (ordinaryLeap y)) (remainderTest .eq y 400) .bool

/-- The test that a month is February. -/
def february (m : Node) : Node := .binary .eq m.closed (.ofInt 2) .bool

/-- The length of a month. -/
def monthLength (y m : Node) : Node :=
  .case
    [(february m, .case [(leap y, .ofInt 29)] (.ofInt 28) .int32),
      (.inList m.closed [.ofInt 4, .ofInt 6, .ofInt 9, .ofInt 11] false, .ofInt 30)]
    (.ofInt 31) .int32

section Text

variable (y m : Node)

/-- A test of a remainder is written without parentheses but those of the year. -/
private theorem sketch_remainderTest {op : SqlOp} (hop : op = .eq ∨ op = .ne) {n : Int64} {digits : String}
    (hn : (Node.ofInt n).precedence = atomPrecedence) (hdigits : toString n.toInt = digits) :
    sketchNode MySql.dialect (remainderTest op y n) =
      sketchNode MySql.dialect y.closed ++ (.ofText "%" ++ (.ofText digits ++ (.ofText op.text ++ .ofText "0"))) := by
  have hy : SqlOp.mod.precedence < y.closed.precedence := Nat.lt_of_lt_of_le (by decide) y.le_precedence_closed
  have hmod := Node.sketch_binary MySql.dialect .mod (r := .ofInt n) hy (hn ▸ by decide) .int32
  have hleft : op.precedence < (Node.binary .mod y.closed (.ofInt n) .int32).precedence :=
    show op.precedence < SqlOp.mod.precedence by obtain rfl | rfl := hop <;> decide
  have hright : op.precedence < (Node.ofInt 0).precedence := by obtain rfl | rfl := hop <;> decide
  rw [remainderTest, Node.sketch_binary MySql.dialect op hleft hright, hmod, ← hdigits]
  simp only [List.append_assoc]
  rfl

/-- The formula for leap years, letter by letter. -/
private theorem letters_leap : (sketchNode MySql.dialect (leap y)).letters =
    Sketch.ofChars "(".toList ++ ((sketchNode MySql.dialect y.closed).letters ++ (Sketch.ofChars "%4=0 AND ".toList ++
      ((sketchNode MySql.dialect y.closed).letters ++ (Sketch.ofChars "%100<>0) OR ".toList ++
        ((sketchNode MySql.dialect y.closed).letters ++ Sketch.ofChars "%400=0".toList))))) := by
  have hand := Node.sketch_binary MySql.dialect .and (l := remainderTest .eq y 4) (r := remainderTest .ne y 100)
    (show _ < predicatePrecedence by decide) (show _ < predicatePrecedence by decide) .bool
  have hor := Node.sketch_binary MySql.dialect .or (l := .group (ordinaryLeap y)) (r := remainderTest .eq y 400)
    (show _ < atomPrecedence by decide) (show _ < predicatePrecedence by decide) .bool
  have hfour : toString (4 : Int64).toInt = "4" := by decide
  have hhundred : toString (100 : Int64).toInt = "100" := by decide
  have hfourHundred : toString (400 : Int64).toInt = "400" := by decide
  rw [leap, hor, sketchNode, ordinaryLeap, hand, sketch_remainderTest y (.inl rfl) rfl hfour,
    sketch_remainderTest y (.inr rfl) rfl hhundred, sketch_remainderTest y (.inl rfl) rfl hfourHundred]
  simp only [Sketch.parenthesised, Sketch.letters_append, Sketch.letters_ofText, List.append_assoc]
  simp [Sketch.ofChars, SqlOp.text]

/-- The test for leap years is written like its formula. -/
private theorem alike_leap (t : HostType) :
    Node.WrittenAlike MySql.dialect (.call .isLeapYear [y] t) (.group (leap y)) := by
  have htemplate : Template.pieces (MySql.dialect.template .isLeapYear) =
    Template.layout "((" [(0, false, "%4=0 AND "), (0, false, "%100<>0) OR "), (0, false, "%400=0)")] :=
    Template.pieces_eq_layout (by decide +kernel)
  unfold Node.WrittenAlike
  rw [sketchNode, sketchNode, htemplate, Template.letters_layout_cons rfl, Template.letters_layout_cons rfl,
    Template.letters_layout_cons rfl, Template.letters_layout_nil]
  simp only [Bool.not_false, Bool.true_and, Node.sketch_closed, Sketch.parenthesised, Sketch.letters_append,
    letters_leap, Sketch.letters_ofText, List.append_assoc]
  simp [Sketch.ofChars]

/-- The number of the days of a month is written like its formula.

**Proof sketch.** The template is laid out around its two arguments, and so is the sketch of the formula; letter by
letter they are the same. -/
private theorem alike_monthLength (t : HostType) :
    Node.WrittenAlike MySql.dialect (.call .daysInMonth [y, m] t) (monthLength y m) := by
  have htemplate : Template.pieces (MySql.dialect.template .daysInMonth) =
    Template.layout "(CASE WHEN " [(1, false, "=2 THEN (CASE WHEN ("), (0, false, "%4=0 AND "),
      (0, false, "%100<>0) OR "), (0, false, "%400=0 THEN 29 ELSE 28 END) WHEN "),
      (1, false, " IN (4,6,9,11) THEN 30 ELSE 31 END)")] :=
    Template.pieces_eq_layout (by decide +kernel)
  have hm := m.le_precedence_closed
  have hfebruary : sketchNode MySql.dialect (february m) = _ :=
    Node.sketch_binary MySql.dialect .eq (l := m.closed) (r := .ofInt 2)
      (Nat.lt_of_lt_of_le (by decide) hm) (show _ < atomPrecedence by decide) .bool
  have hin : decide (m.closed.precedence ≤ predicatePrecedence) = false :=
    decide_eq_false (Nat.not_le.mpr (Nat.lt_of_lt_of_le (by decide) hm))
  have hdigits (n : Int64) {digits : String} (h : toString n.toInt = digits) := Node.sketch_ofInt MySql.dialect h
  unfold Node.WrittenAlike
  rw [sketchNode, htemplate, Template.letters_layout_cons rfl, Template.letters_layout_cons rfl,
    Template.letters_layout_cons rfl, Template.letters_layout_cons rfl, Template.letters_layout_cons rfl,
    Template.letters_layout_nil, monthLength]
  simp only [sketchNode, sketchBranches, sketchNodes, hfebruary, hin, hdigits 2 (show _ = "2" by decide),
    hdigits 4 (show _ = "4" by decide), hdigits 6 (show _ = "6" by decide), hdigits 9 (show _ = "9" by decide),
    hdigits 11 (show _ = "11" by decide), hdigits 28 (show _ = "28" by decide), hdigits 29 (show _ = "29" by decide),
    hdigits 30 (show _ = "30" by decide), hdigits 31 (show _ = "31" by decide), Bool.not_false, Bool.true_and,
    Node.sketch_closed, Sketch.parenthesisedIf_false, Sketch.joined, Sketch.letters_append, letters_leap,
    Sketch.letters_ofText, List.append_assoc, inKeyword]
  simp [Sketch.ofChars, SqlOp.text]

end Text

section Value

variable {V : Type} {I : Interpretation V} {ratio : ℚ → V} {y m : Node} {a b : Int}

/-- The outcome of a test as a value. -/
def flag (I : Interpretation V) (b : Bool) : Option V := I.ofTruth (some b)

/-- A test of a remainder tells whether the divisor divides the year. -/
private theorem eval_remainderTest (hI : I.ReadsNumbers ratio) (hy : y.eval I = some (ratio a)) {n : Int64}
    (hn : n.toInt ≠ 0) :
    (remainderTest .eq y n).eval I = flag I (n.toInt ∣ a) ∧
      (remainderTest .ne y n).eval I = flag I (¬ n.toInt ∣ a) := by
  have hmod : (Node.binary .mod y.closed (.ofInt n) .int32).eval I = some (ratio (a.tmod n.toInt : Int)) := by
    change (do I.compute .mod (← y.closed.eval I) (← I.value (.int n))) = _
    rw [Node.eval_closed, hy, hI.value_int]
    exact hI.mod a n.toInt hn
  have hzero : (Node.ofInt 0).eval I = some (ratio (0 : Int)) := hI.eval_ofInt 0
  have hdvd : a.tmod n.toInt = 0 ↔ n.toInt ∣ a := Int.dvd_iff_tmod_eq_zero.symm
  constructor
  · change I.ofTruth (I.test .eq ((Node.binary .mod y.closed (.ofInt n) .int32).eval I) ((Node.ofInt 0).eval I)) = _
    rw [hmod, hzero]
    change I.ofTruth (some (I.compare .eq _ _)) = _
    rw [hI.compare_eq, decide_eq_decide.mpr hdvd]
    rfl
  · change I.ofTruth (I.test .ne ((Node.binary .mod y.closed (.ofInt n) .int32).eval I) ((Node.ofInt 0).eval I)) = _
    rw [hmod, hzero]
    change I.ofTruth (some (I.compare .ne _ _)) = _
    simp only [hI.compare_ne, ne_eq, Int.cast_inj, hdvd]
    rfl

/-- **The test of leap years.**

**Proof sketch.** The test of ordinary leap years is a conjunction of known truth values, and the whole test a
disjunction of it with another one. -/
theorem eval_leap (hI : I.ReadsNumbers ratio) (hy : y.eval I = some (ratio a)) :
    (leap y).eval I = flag I (Calendar.isLeapYear a) := by
  have hfour := (eval_remainderTest hI hy (n := 4) (by decide)).1
  have hhundred := (eval_remainderTest hI hy (n := 100) (by decide)).2
  have hfourHundred := (eval_remainderTest hI hy (n := 400) (by decide)).1
  have hordinary : (ordinaryLeap y).eval I = flag I (decide (4 ∣ a) && decide (¬ 100 ∣ a)) := by
    change I.ofTruth ((I.truth ((remainderTest .eq y 4).eval I)).and (I.truth ((remainderTest .ne y 100).eval I))) = _
    rw [hfour, hhundred, flag, flag, I.truth_ofTruth, I.truth_ofTruth, Truth.and_some]
    rfl
  have hleap : (decide (4 ∣ a) && decide (¬ 100 ∣ a) || decide (400 ∣ a)) = Calendar.isLeapYear a := by
    rw [Bool.eq_iff_iff, Calendar.isLeapYear_iff]
    simp only [Bool.or_eq_true, Bool.and_eq_true, decide_eq_true_eq]
  change I.ofTruth ((I.truth ((ordinaryLeap y).eval I)).or (I.truth ((remainderTest .eq y 400).eval I))) = _
  rw [hordinary, hfourHundred, flag, flag, I.truth_ofTruth, I.truth_ofTruth, Truth.or_some, ← hleap]
  rfl

/-- Equality with a literal. -/
theorem test_ofInt (hI : I.ReadsNumbers ratio) (n : Int64) :
    I.test .eq (some (ratio b)) ((Node.ofInt n).eval I) = some (decide (b = n.toInt)) := by
  rw [hI.eval_ofInt]
  exact congrArg some (hI.compare_eq b n.toInt)

/-- **The formula has the length of the month.**

**Proof sketch.** In February the year is asked for, and otherwise whether the month is among the four short ones; the
months of the year are few enough to be compared one by one. -/
theorem eval_monthLength (hI : I.ReadsNumbers ratio) (hy : y.eval I = some (ratio a)) (hm : m.eval I = some (ratio b))
    (hb : 1 ≤ b ∧ b ≤ 12) : (monthLength y m).eval I = some (ratio (Calendar.daysInMonth a b.toNat : Int)) := by
  have hfebruary : I.truth ((february m).eval I) = some (decide (b = 2)) := by
    change I.truth (I.ofTruth (I.test .eq (m.closed.eval I) ((Node.ofInt 2).eval I))) = _
    rw [I.truth_ofTruth, Node.eval_closed, hm]
    exact test_ofInt hI 2
  have hshort : I.truth ((Node.inList m.closed [.ofInt 4, .ofInt 6, .ofInt 9, .ofInt 11] false).eval I) =
      some (decide (b = 4) || (decide (b = 6) || (decide (b = 9) || (decide (b = 11) || false)))) := by
    change I.truth (I.ofTruth (Truth.flipIf false ((I.test .eq (m.closed.eval I) ((Node.ofInt 4).eval I)).or
      ((I.test .eq (m.closed.eval I) ((Node.ofInt 6).eval I)).or ((I.test .eq (m.closed.eval I) ((Node.ofInt 9).eval I)).or
        ((I.test .eq (m.closed.eval I) ((Node.ofInt 11).eval I)).or (some false))))))) = _
    rw [I.truth_ofTruth, Node.eval_closed, hm, test_ofInt hI, test_ofInt hI, test_ofInt hI, test_ofInt hI, Truth.or_some,
      Truth.or_some, Truth.or_some, Truth.or_some]
    rfl
  have hleap : I.truth ((leap y).eval I) = some (Calendar.isLeapYear a) := by
    rw [eval_leap hI hy, flag, I.truth_ofTruth]
  rw [monthLength, Node.eval, Node.evalBranches, Node.evalBranches, Node.evalBranches, hfebruary, hshort, Node.eval,
    Node.evalBranches, Node.evalBranches, hleap]
  simp only [Option.some_inj, decide_eq_true_eq, Bool.or_eq_true, Bool.false_eq_true, or_false, hI.eval_ofInt]
  obtain ⟨hlow, hhigh⟩ := hb
  -- only in February does the year matter
  interval_cases b <;> simp [Calendar.daysInMonth]
  split <;> rfl

end Value

end CalendarFormula

/-! ## Calls -/

/-- A call about the calendar, with the values of its arguments. -/
inductive CalendarCall where
  | isLeapYear (year : Int64)
  | daysInMonth (year month : Int64)

namespace CalendarCall

/-- The name of the method. -/
def method : CalendarCall → String
  | isLeapYear _ => "IsLeapYear"
  | daysInMonth .. => "DaysInMonth"

/-- The values of the arguments. -/
def args : CalendarCall → List Value
  | isLeapYear year => [.int year]
  | daysInMonth year month => [.int year, .int month]

/-- The function of the database. -/
def function : CalendarCall → SqlFunction
  | isLeapYear _ => .isLeapYear
  | daysInMonth .. => .daysInMonth

/-- The type of the result. -/
def type : CalendarCall → HostType
  | isLeapYear _ => .bool
  | daysInMonth .. => .int32

/-- Whether the calendar has an answer. -/
def InCalendar : CalendarCall → Prop
  | isLeapYear _ => True
  | daysInMonth year month => Calendar.HasNextMonth year.toInt month.toInt

/-- The answer of the calendar. -/
def answer : CalendarCall → Value
  | isLeapYear year => .bool (Calendar.isLeapYear year.toInt)
  | daysInMonth year month => .int (Int64.ofInt (Calendar.daysInMonth year.toInt month.toInt.toNat))

/-- The formula of the database, applied to the nodes of the arguments. -/
def formula : CalendarCall → List Node → Node
  | isLeapYear _, [y] => .group (CalendarFormula.leap y)
  | daysInMonth .., [y, m] => CalendarFormula.monthLength y m
  | _, _ => .null

/-- **The host has the answer of the calendar.** -/
theorem callOf_eq_ok {k : CalendarCall} {v : Value} :
    Host.callOf "DateTime" k.method k.args = .ok v ↔ k.InCalendar ∧ v = k.answer := by
  cases k with
  | isLeapYear year =>
    change Except.ok (Value.bool (Calendar.isLeapYear year.toInt)) = Except.ok v ↔ _
    rw [Except.ok.injEq, eq_comm]
    exact ⟨fun h => ⟨trivial, h⟩, And.right⟩
  | daysInMonth year month =>
    change Evaluation.ofOption (Host.daysOfMonth? year.toInt month.toInt) = .ok v ↔ _
    rw [Evaluation.ofOption_eq_ok, Calendar.daysOfMonth?_eq_some_iff]
    rfl

/-- The answer is written out or bound. -/
theorem gives_answer {V : Type} {I : Interpretation V} {s : Scope} (k : CalendarCall) (o : Origin) (p : Progress) :
    ∃ m, (Lowering.atHand k.answer o).Gives s p m p ∧ m.eval I = I.value k.answer := by
  cases k <;> cases o <;> exact ⟨_, rfl, rfl⟩

/-- The translations by default have an entry for the call. -/
theorem methodOf?_defaults (k : CalendarCall) :
    TranslationTable.defaults.methodOf? "DateTime" k.method (.exactly k.args.length) =
      some (.function k.function (.fixed k.type)) := by
  cases k <;> rfl

variable {V : Type} {I : Interpretation V} {ratio : ℚ → V} {s : Scope}

/-- **The function is written as the formula.** -/
theorem alike_formula {k : CalendarCall} {ns : List Node} (h : ns.length = k.args.length) (t : HostType) :
    Node.WrittenAlike MySql.dialect (.call k.function ns t) (k.formula ns) := by
  cases k with
  | isLeapYear =>
    obtain ⟨y, rfl⟩ := List.length_eq_one_iff.mp h
    exact CalendarFormula.alike_leap y t
  | daysInMonth =>
    obtain ⟨y, m, rfl⟩ := List.length_eq_two.mp h
    exact CalendarFormula.alike_monthLength y m t

/-- **The formula has the answer of the calendar.** -/
theorem eval_formula (hI : I.ReadsNumbers ratio) {k : CalendarCall} (hk : k.InCalendar) {ns : List Node}
    (hns : ns.map (Node.eval I) = k.args.map I.value) : (k.formula ns).eval I = I.value k.answer := by
  cases k with
  | isLeapYear year =>
    obtain ⟨y, rest, rfl, hy, hrest⟩ := List.map_eq_cons_iff.mp hns
    obtain rfl := List.map_eq_nil_iff.mp hrest
    rw [hI.value_int] at hy
    rw [formula, Node.eval, CalendarFormula.eval_leap hI hy, answer, I.value_bool]
    rfl
  | daysInMonth year month =>
    obtain ⟨y, rest, rfl, hy, hrest⟩ := List.map_eq_cons_iff.mp hns
    obtain ⟨m, rest, rfl, hm, hrest⟩ := List.map_eq_cons_iff.mp hrest
    obtain rfl := List.map_eq_nil_iff.mp hrest
    rw [hI.value_int] at hy hm
    have hmonth : 1 ≤ month.toInt ∧ month.toInt ≤ 12 := ⟨hk.2.1, hk.2.2.1⟩
    have hle : Calendar.daysInMonth year.toInt month.toInt.toNat ≤ 31 := Calendar.daysInMonth_le _ _
    rw [formula, CalendarFormula.eval_monthLength hI hy hm hmonth, answer, hI.value_int,
      Int64.toInt_ofInt_of_le (by omega) (by omega)]

/-- **Folded and translated calls about the calendar.** Whether a year is a leap year is evaluated for every year, and
the length of a month if it is in the calendar and so is the next one. Such a call is planned by its value. The same call
on the same numbers, whether they are values or columns, is translated to a function that is written as a formula, and
the formula has this value.

**Proof sketch.** The days from the first of a month to that of the next one are those of the month, by the rule that
says how many days are before a year and before a month in it. The formula tests remainders, which are zero whatever the
sign of the year is. -/
theorem folded_eq_translated (hI : I.ReadsNumbers ratio) (hs : s.compiler.translations = .defaults)
    (hfold : s.compiler.options.foldCalls = true) {k : CalendarCall} {es args : List Expr}
    (hes : List.Forall₂ Expr.Holds es k.args) (hargs : List.Forall₂ (Expr.Denotes I s) args k.args) (p : Progress) :
    ((∃ v, Host.value (.callOf "DateTime" k.method es) = .ok v) ↔ k.InCalendar) ∧
      ∃ ns t q, (Lowering.callOf (some "DateTime") k.method (operands args)).Gives s p (.call k.function ns t) q ∧
        Node.WrittenAlike MySql.dialect (.call k.function ns t) (k.formula ns) ∧
        ∀ v, Host.value (.callOf "DateTime" k.method es) = .ok v →
          ∃ m, (operand (.callOf "DateTime" k.method es)).value.Gives s p m p ∧ m.eval I = I.value v ∧
            (k.formula ns).eval I = m.eval I := by
  have hvalue : Host.value (.callOf "DateTime" k.method es) = Host.callOf "DateTime" k.method k.args :=
    Expr.value_callOf hes
  have hmethod := hs ▸ hargs.length_eq ▸ k.methodOf?_defaults
  obtain ⟨ns, q, t, hn, hevals⟩ := Lowering.gives_callOf_function hmethod hargs p
  have hlength : ns.length = k.args.length := by simpa using congrArg List.length hevals
  refine ⟨⟨fun ⟨v, hv⟩ => ?_, fun hk => ⟨_, hvalue.trans (callOf_eq_ok.mpr ⟨hk, rfl⟩)⟩⟩, ns, t, q, hn,
    alike_formula hlength t, fun v hv => ?_⟩
  · exact (callOf_eq_ok.mp (hvalue.symm.trans hv)).1
  · have hcall := hvalue.symm.trans hv
    obtain ⟨hk, rfl⟩ := callOf_eq_ok.mp hcall
    obtain ⟨m, hm, heval⟩ := k.gives_answer (I := I) (s := s)
      ((Expr.callOf "DateTime" k.method es).origin s.compiler.translations) p
    obtain ⟨lower, hlower⟩ := (Expr.callOf "DateTime" k.method es).operand_value
    exact ⟨m, hlower ▸ Lowering.gives_folded_of_atHand (Expr.atHand?_callOf hfold (by decide) hes hcall) hm, heval,
      heval ▸ eval_formula hI hk hevals⟩

/-! ### Billing periods -/

/-- A table with a year and a month. -/
def periodTable : TableBinding where
  name := "Period"
  aliasName := some "a"
  shape := .entity
    { name := "Period"
      table := "period"
      fields := [
        { member := "Year", column := "year", type := .int32, native := .int32 },
        { member := "Month", column := "month", type := .int32, native := .int32 }] }

/-- The scope in which `x` is a row of the table. -/
def periodScope : Scope where
  compiler := { model := {} }
  frames := [[("x", .table periodTable)]]

/-- A row with February of a leap year before the first year. -/
def periodRow : Interpretation ℚ := .exact fun _ column => if column = "year" then some (-4) else some 2

/-- The year of the period is four years before the first. -/
private theorem year_denotes : (Expr.member (.param "x") "Year").Denotes periodRow periodScope (.int (-4)) :=
  .column (t := periodTable) rfl rfl rfl nofun

/-- The month of the period is February. -/
private theorem month_denotes : (Expr.member (.param "x") "Month").Denotes periodRow periodScope (.int 2) :=
  .column (t := periodTable) rfl rfl rfl nofun

/-- The folded length of the month and that of the columns are the same. -/
theorem february_folded :
    periodRow.ReadsNumbers id ∧
    ((∃ v, Host.value (.callOf "DateTime" "DaysInMonth" [.constant (.int (-4)), .constant (.int 2)]) = .ok v) ↔
      (daysInMonth (-4) 2).InCalendar) ∧
    ∃ ns t q m,
      (Lowering.callOf (some "DateTime") "DaysInMonth"
        (operands [.member (.param "x") "Year", .member (.param "x") "Month"])).Gives periodScope {}
        (.call .daysInMonth ns t) q ∧
      Node.WrittenAlike MySql.dialect (.call .daysInMonth ns t) ((daysInMonth (-4) 2).formula ns) ∧
      (operand (.callOf "DateTime" "DaysInMonth" [.constant (.int (-4)), .constant (.int 2)])).value.Gives periodScope {}
        m {} ∧
      m.eval periodRow = some 29 ∧ ((daysInMonth (-4) 2).formula ns).eval periodRow = m.eval periodRow := by
  obtain ⟨hfolds, ns, t, q, hn, halike, hvalue⟩ := folded_eq_translated Interpretation.exact_readsNumbers rfl rfl
    (k := daysInMonth (-4) 2) (Expr.holds_constants [.int (-4), .int 2])
    (.cons year_denotes (.cons month_denotes .nil)) {}
  have hv : Host.value (.callOf "DateTime" "DaysInMonth" [.constant (.int (-4)), .constant (.int 2)]) =
      .ok (.int 29) := by
    have hmonth : (daysInMonth (-4) 2).InCalendar := show Calendar.HasNextMonth _ _ by decide
    exact (Expr.value_callOf (Expr.holds_constants [.int (-4), .int 2])).trans (callOf_eq_ok.mpr ⟨hmonth, rfl⟩)
  obtain ⟨m, hm, heval, hformula⟩ := hvalue _ hv
  exact ⟨Interpretation.exact_readsNumbers, hfolds, ns, t, q, m, hn, halike, hm, heval, hformula⟩

end CalendarCall

end LambdaSql
