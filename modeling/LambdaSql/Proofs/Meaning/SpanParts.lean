import LambdaSql.Proofs.Meaning.Folding
import LambdaSql.Proofs.Meaning.Formulas
import LambdaSql.Proofs.Meaning.Numbers

/-!
# Parts of durations

How many whole days, hours, minutes and seconds a duration has is computed by the host when the duration is known, and by
a formula of the database otherwise. The host rounds toward zero and the formula toward minus infinity, so they agree on
durations that are not negative and on negative ones that consist of whole units, and on no other ones.

## Main definitions

* `SpanUnit` - a unit that is counted in whole seconds.
* `SpanUnit.truncated`, `SpanUnit.floored` - how often it fits, rounded in either way.
* `SpanUnit.formula` - the formula of the database.
* `Interpretation.CountsSeconds` - a database that turns durations into numbers of seconds.

## Main results

* `SpanUnit.truncated_eq_floored_iff` - where the two ways of rounding agree.
* `SpanUnit.alike_formula` - the function is written as the formula.
* `SpanUnit.parts_agree_iff` - folded and translated parts have the same value on just those durations.
-/

namespace LambdaSql

open Planning Calendar

/-- A unit of time that is counted in whole seconds. -/
inductive SpanUnit where
  | days | hours | minutes | seconds
deriving DecidableEq

namespace SpanUnit

/-- The part of a duration that is counted in the unit. -/
def part : SpanUnit → SpanPart
  | days => .days
  | hours => .hours
  | minutes => .minutes
  | seconds => .seconds

/-- The length of the unit in seconds. -/
def length : SpanUnit → Int
  | days => 86400
  | hours => 3600
  | minutes => 60
  | seconds => 1

/-- What is left of a number of units beside the next larger unit. -/
def rest : SpanUnit → Int → Int
  | days, n => n
  | hours, n => n.tmod 24
  | minutes, n | seconds, n => n.tmod 60

/-- How often the unit fits into a number of seconds beside the next larger unit, rounded toward zero. -/
def truncated (u : SpanUnit) (t : Int) : Int := u.rest (t.tdiv u.length)

/-- How often the unit fits into a number of seconds beside the next larger unit, rounded toward minus infinity. -/
def floored (u : SpanUnit) (t : Int) : Int := u.rest (t / u.length)

/-- Every unit has a length. -/
private theorem length_pos (u : SpanUnit) : 0 < u.length := by
  cases u <;> decide

/-- A number and the one before it leave different rests. -/
theorem rest_ne_rest_sub_one (u : SpanUnit) (n : Int) : u.rest n ≠ u.rest (n - 1) := by
  have hdiv (c : Int) := Int.mul_tdiv_add_tmod n c
  have hdiv' (c : Int) := Int.mul_tdiv_add_tmod (n - 1) c
  cases u with
  | days =>
    change n ≠ n - 1
    omega
  | hours =>
    change n.tmod 24 ≠ (n - 1).tmod 24
    have := hdiv 24
    have := hdiv' 24
    omega
  | minutes | seconds =>
    change n.tmod 60 ≠ (n - 1).tmod 60
    have := hdiv 60
    have := hdiv' 60
    omega

/-- **The two ways of rounding agree on numbers of seconds that are not negative and on multiples of the unit**, and on
no other ones. -/
theorem truncated_eq_floored_iff (u : SpanUnit) (t : Int) : u.truncated t = u.floored t ↔ 0 ≤ t ∨ u.length ∣ t := by
  unfold truncated floored
  rw [Int.tdiv_eq_ediv]
  split
  · next h => simp [h]
  · next h =>
    rw [Int.sign_eq_one_of_pos u.length_pos]
    refine iff_of_false (fun heq => u.rest_ne_rest_sub_one (t / u.length + 1) ?_) h
    rw [heq, add_sub_cancel_right]

/-! ## The host -/

/-- How often a unit fits into a whole number of seconds. -/
theorem whole_eq {d : Duration} {t : Int} (hd : d.nanos = t * 10 ^ 9) (u : SpanUnit) :
    d.whole (u.length * Duration.second) = t.tdiv u.length := by
  rw [Duration.whole, hd]
  exact Int.mul_tdiv_mul_of_pos_left t u.length (by decide)

/-- A duration has fewer seconds than there are numbers of 64 bits. -/
theorem truncated_bounds {d : Duration} {t : Int} (hd : d.nanos = t * 10 ^ 9) (u : SpanUnit) :
    -2 ^ 63 ≤ u.truncated t ∧ u.truncated t < 2 ^ 63 := by
  have hlower := d.lower
  have hupper := d.upper
  rw [hd, maxNanos] at hlower hupper
  have hrest : (u.truncated t).natAbs ≤ (t.tdiv u.length).natAbs := by
    unfold truncated
    cases u <;> simp only [rest, Int.natAbs_tmod] <;> first | exact le_rfl | exact Nat.mod_le _ _
  have hdiv : (t.tdiv u.length).natAbs ≤ t.natAbs := Int.natAbs_tdiv_le_natAbs t u.length
  omega

/-- **The host rounds toward zero.** -/
theorem member_eq {d : Duration} {t : Int} (hd : d.nanos = t * 10 ^ 9) (u : SpanUnit) :
    Host.member (.span d) u.part.name = some (.int (Int64.ofInt (u.truncated t))) := by
  have h := whole_eq hd u
  have hseconds : d.whole Duration.second = t := by
    have h := whole_eq hd seconds
    rwa [length, one_mul, Int.tdiv_one] at h
  cases u with
  | days | hours | minutes =>
    rw [truncated, ← h]
    rfl
  | seconds =>
    rw [truncated, length, Int.tdiv_one, ← hseconds]
    rfl

/-- A part of a duration at hand is at hand. -/
theorem atHand?_member {s : Scope} {e : Expr} {d : Duration} (he : e.Holds (.span d)) {t : Int}
    (hd : d.nanos = t * 10 ^ 9) (u : SpanUnit) :
    (Expr.member e u.part.name).atHand? s = some (.int (Int64.ofInt (u.truncated t))) := by
  have hmember := member_eq hd u
  cases he with
  | constant | captured =>
    refine Expr.atHand?_eq_some.mpr ⟨by simp [Expr.origin], by simp [Expr.containsCall], ?_⟩
    rw [Host.value, Host.evaluate, Host.evaluate]
    · change Evaluation.ofOption (Host.member (.span d) u.part.name) = _
      rw [hmember]
      rfl
    · rintro _ ⟨⟩

/-! ## The database -/

/-- The number of seconds of a node. -/
def total (x : Node) : Node := .call (.spanPart .totalSeconds) [x] .double

/-- How often some seconds fit into the number of seconds of a node, rounded toward minus infinity. -/
def count (x : Node) (n : Int64) : Node := .call .floor [.binary .div (total x) (.ofInt n) .double] .int32

/-- What is left of a number beside a larger unit. -/
def beside (a : Node) (n : Int64) : Node := .group (.binary .mod a (.ofInt n) .int32)

/-- The formula for a part of a node that is a duration. -/
def formula (x : Node) : SpanUnit → Node
  | days => count x 86400
  | hours => beside (count x 3600) 24
  | minutes => beside (count x 60) 60
  | seconds => beside (.call .floor [total x] .int32) 60

/-- The texts around the argument in the template of a part. -/
def around : SpanUnit → String × String
  | days => ("FLOOR(TIME_TO_SEC(", ")/86400)")
  | hours => ("(FLOOR(TIME_TO_SEC(", ")/3600)%24)")
  | minutes => ("(FLOOR(TIME_TO_SEC(", ")/60)%60)")
  | seconds => ("(FLOOR(TIME_TO_SEC(", "))%60)")

section Text

variable (x : Node)

/-- A function of one argument that stands alone in its template. -/
theorem letters_call {f : SqlFunction} {s next : String}
    (h : Template.pieces (MySql.template f) = Template.layout s [(0, true, next)]) (t : HostType) :
    (sketchNode MySql.dialect (.call f [x] t)).letters =
      Sketch.ofChars s.toList ++ ((sketchNode MySql.dialect x).letters ++ Sketch.ofChars next.toList) := by
  have htemplate : Template.pieces (MySql.dialect.template f) = _ := h
  rw [sketchNode, htemplate, Template.letters_layout_cons rfl, Template.letters_layout_nil]
  rfl

/-- The number of seconds, letter by letter. -/
private theorem letters_total : (sketchNode MySql.dialect (total x)).letters =
    Sketch.ofChars "TIME_TO_SEC(".toList ++
      ((sketchNode MySql.dialect x).letters ++ Sketch.ofChars ")".toList) :=
  letters_call x (Template.pieces_eq_layout (by decide +kernel)) _

/-- Rounding toward minus infinity, letter by letter. -/
private theorem letters_floor (t : HostType) : (sketchNode MySql.dialect (.call .floor [x] t)).letters =
    Sketch.ofChars "FLOOR(".toList ++ ((sketchNode MySql.dialect x).letters ++ Sketch.ofChars ")".toList) :=
  letters_call x (Template.pieces_eq_layout (by decide +kernel)) _

/-- The formula that counts how often some seconds fit, letter by letter. -/
private theorem letters_count {n : Int64} {digits : String} (hn : (Node.ofInt n).precedence = atomPrecedence)
    (hdigits : toString n.toInt = digits) :
    (sketchNode MySql.dialect (count x n)).letters = Sketch.ofChars "FLOOR(TIME_TO_SEC(".toList ++
      ((sketchNode MySql.dialect x).letters ++ Sketch.ofChars (")/" ++ digits ++ ")").toList) := by
  have h := Node.sketch_binary MySql.dialect .div (l := total x) (r := .ofInt n)
    (show SqlOp.div.precedence < atomPrecedence by decide) (hn ▸ by decide) .double
  rw [count, letters_floor, h]
  simp only [Sketch.letters_append, letters_total, List.append_assoc, Node.ofInt, sketchNode, Sketch.letters_ofText,
    String.toList_append, hdigits]
  simp [Sketch.ofChars, SqlOp.text]

/-- The formula for what is left beside a larger unit, letter by letter. -/
private theorem letters_beside {a : Node} {n : Int64} {digits : String} (ha : a.precedence = atomPrecedence)
    (hn : (Node.ofInt n).precedence = atomPrecedence) (hdigits : toString n.toInt = digits) :
    (sketchNode MySql.dialect (beside a n)).letters = Sketch.ofChars "(".toList ++
      ((sketchNode MySql.dialect a).letters ++ Sketch.ofChars ("%" ++ digits ++ ")").toList) := by
  have h := Node.sketch_binary MySql.dialect .mod (l := a) (r := .ofInt n) (ha ▸ by decide) (hn ▸ by decide) .int32
  rw [beside, sketchNode, h]
  simp only [Sketch.parenthesised, Sketch.letters_append, List.append_assoc, Node.ofInt, sketchNode, Sketch.letters_ofText,
    String.toList_append, hdigits]
  simp [Sketch.ofChars, SqlOp.text]

/-- **The function is written as the formula.**

**Proof sketch.** Around the place of the span, the template has the characters that the formula is written with
around it, which is checked part by part. -/
theorem alike_formula (u : SpanUnit) (t : HostType) :
    Node.WrittenAlike MySql.dialect (.call (.spanPart u.part) [x] t) (u.formula x) := by
  have hcall : (sketchNode MySql.dialect (.call (.spanPart u.part) [x] t)).letters =
      Sketch.ofChars u.around.1.toList ++
        ((sketchNode MySql.dialect x).letters ++ Sketch.ofChars u.around.2.toList) :=
    letters_call x (by cases u <;> exact Template.pieces_eq_layout (by decide +kernel)) t
  unfold Node.WrittenAlike
  rw [hcall]
  cases u with
  | days =>
    have hcount : toString (86400 : Int64).toInt = "86400" := by decide
    rw [formula, letters_count x rfl hcount]
    simp [around, Sketch.ofChars]
  | hours =>
    have hcount : toString (3600 : Int64).toInt = "3600" := by decide
    have hrest : toString (24 : Int64).toInt = "24" := by decide
    rw [formula, letters_beside rfl rfl hrest, letters_count x rfl hcount]
    simp [around, Sketch.ofChars]
  | minutes =>
    have hcount : toString (60 : Int64).toInt = "60" := by decide
    rw [formula, letters_beside rfl rfl hcount, letters_count x rfl hcount]
    simp [around, Sketch.ofChars]
  | seconds =>
    have hrest : toString (60 : Int64).toInt = "60" := by decide
    rw [formula, letters_beside rfl rfl hrest, letters_floor, letters_total]
    simp [around, Sketch.ofChars]

end Text

section Value

variable {V : Type} {I : Interpretation V} {ratio : ℚ → V} {x : Node} {t : Int}

/-- A quotient is rounded toward minus infinity. -/
theorem eval_count (hI : I.ReadsNumbers ratio) (hx : (total x).eval I = some (ratio t)) {n : Int64} (hn : 0 < n.toInt) :
    (count x n).eval I = some (ratio (t / n.toInt : Int)) := by
  have hdiv : (Node.binary .div (total x) (.ofInt n) .double).eval I = some (ratio (t / n.toInt : ℚ)) := by
    change (do I.compute .div (← (total x).eval I) (← I.value (.int n))) = _
    rw [hx, hI.value_int]
    exact hI.div _ _ (by exact_mod_cast hn.ne')
  have hfloor : ⌊(t / n.toInt : ℚ)⌋ = t / n.toInt := by
    obtain ⟨k, hk⟩ := Int.eq_ofNat_of_zero_le hn.le
    rw [hk]
    exact Rat.floor_intCast_div_natCast t k
  rw [count, Node.eval, Node.evals, Node.evals, hdiv, hI.floor, hfloor]

/-- What is left of a whole number has the sign of the number. -/
theorem eval_beside (hI : I.ReadsNumbers ratio) {a : Node} {m : Int} (ha : a.eval I = some (ratio m)) {n : Int64}
    (hn : n.toInt ≠ 0) : (beside a n).eval I = some (ratio (m.tmod n.toInt : Int)) := by
  change (do I.compute .mod (← a.eval I) (← I.value (.int n))) = _
  rw [ha, hI.value_int]
  exact hI.mod m n.toInt hn

/-- **The formula rounds toward minus infinity.** -/
theorem eval_formula (hI : I.ReadsNumbers ratio) (hx : (total x).eval I = some (ratio t)) (u : SpanUnit) :
    (u.formula x).eval I = some (ratio (u.floored t)) := by
  cases u with
  | days => exact eval_count hI hx (by decide)
  | hours => exact eval_beside hI (eval_count hI hx (by decide)) (by decide)
  | minutes => exact eval_beside hI (eval_count hI hx (by decide)) (by decide)
  | seconds =>
    have hfloor : (Node.call .floor [total x] .int32).eval I = some (ratio t) := by
      rw [Node.eval, Node.evals, Node.evals, hx, hI.floor, Int.floor_intCast]
    have h := eval_beside hI hfloor (n := 60) (by decide)
    rw [floored, length, Int.ediv_one]
    exact h

end Value

/-! ## Folding -/

/-- The parts of durations have their translations in the default table. -/
private theorem member?_defaults (u : SpanUnit) :
    TranslationTable.defaults.member? .timeSpan u.part.name = some ⟨.spanPart u.part, .int32⟩ := by
  cases u <;> rfl

end SpanUnit

/-- A database turns durations of a whole number of seconds into numbers of seconds. -/
def Interpretation.CountsSeconds {V : Type} (I : Interpretation V) (ratio : ℚ → V) : Prop :=
  ∀ (d : Duration) (t : Int), d.nanos = t * 10 ^ 9 → I.call (.spanPart .totalSeconds) [I.value (.span d)] = some (ratio t)

/-- The exact interpretation counts seconds. -/
private theorem Interpretation.exact_countsSeconds {row : Option String → String → Option ℚ} :
    (Interpretation.exact row).CountsSeconds id := by
  intro d t hd
  have hvalue : (d.nanos / 10 ^ 9 : ℚ) = t := by
    rw [hd]
    push_cast
    exact mul_div_cancel_right₀ _ (by norm_num)
  exact congrArg some hvalue

namespace SpanUnit

variable {V : Type} {I : Interpretation V} {ratio : ℚ → V} {s : Scope}

/-- A part of a column becomes a function of the column.

**Proof sketch.** A member of a member is no key of groups and no member of an optional value, so it is the
translation of the part that is looked up. -/
theorem gives_member (hs : s.compiler.translations = .defaults) (u : SpanUnit) {param member column : String}
    {table : TableBinding} {a : Option String} (hparam : s.binding? param = some (.table table))
    (hcolumn : table.column member = .ok (.column a column .timeSpan)) (p : Progress) :
    (operand (.member (.member (.param param) member) u.part.name)).value.Gives s p
      (.call (.spanPart u.part) [.column a column .timeSpan] .int32) p := by
  have hcolumns : (operand (.member (.param param) member)).value.Gives s p (.column a column .timeSpan) p := by
    have hnone : (Expr.member (.param param) member).atHand? s = none := by simp [Expr.atHand?, Expr.origin]
    exact Lowering.gives_folded_of_none hnone (fun ho => absurd rfl ho) (Lowering.gives_member hparam hcolumn)
  have hkey : (Lowering.keyMember? (.member (.param param) member) u.part.name).Gives s p none p := by
    simp only [Lowering.keyMember?]
    split
    · exact gives_bind.mpr ⟨_, p, gives_lookup.mpr ⟨hparam, rfl⟩, gives_pure.mpr ⟨rfl, rfl⟩⟩
    · exact gives_pure.mpr ⟨rfl, rfl⟩
  have hvalue : u.part.name ≠ "HasValue" ∧ u.part.name ≠ "Value" := by cases u <;> decide
  have hnone : (Expr.member (.member (.param param) member) u.part.name).atHand? s = none := by
    simp [Expr.atHand?, Expr.origin]
  refine Lowering.gives_folded_of_none hnone (fun ho => absurd rfl ho) ?_
  change (Lowering.valueMember (operand (.member (.param param) member)) u.part.name).Gives s p _ p
  unfold Lowering.valueMember
  rw [operand_source, hkey.bind_iff]
  simp only [if_neg hvalue.1, if_neg hvalue.2]
  rw [hcolumns.bind_iff]
  have hmember := hs ▸ u.member?_defaults
  simp only [Lowering.gives_translations.mpr ⟨rfl, rfl⟩ |>.bind_iff, Node.type, TypeKey.ofHostType, hmember]
  exact gives_pure.mpr ⟨rfl, rfl⟩

/-- **Folded and translated parts of durations.** The number of days, hours, minutes or seconds of a duration of some
whole number of seconds is planned by its value, which is rounded toward zero. The same part of a column is translated to
a function that is written as a formula, and where the column has this duration the formula is rounded toward minus
infinity. So they have the same value just if the duration is not negative or consists of whole units.

**Proof sketch.** A duration that is cut to units of whole seconds is cut as its number of seconds is. The quotients
differ by one if there is a rest and the number is negative, and no two neighbours leave the same rest beside a larger
unit. -/
theorem parts_agree_iff (hI : I.ReadsNumbers ratio) (hseconds : I.CountsSeconds ratio)
    (hs : s.compiler.translations = .defaults) {d : Duration} {t : Int} (hd : d.nanos = t * 10 ^ 9) {e : Expr}
    (he : e.Holds (.span d)) (u : SpanUnit) {param member column : String} {table : TableBinding} {a : Option String}
    (hparam : s.binding? param = some (.table table)) (hcolumn : table.column member = .ok (.column a column .timeSpan))
    (hv : I.column a column = I.value (.span d)) (p : Progress) :
    ∃ m n, (operand (.member e u.part.name)).value.Gives s p m p ∧ m.eval I = some (ratio (u.truncated t)) ∧
      (operand (.member (.member (.param param) member) u.part.name)).value.Gives s p n p ∧
      n.WrittenAlike MySql.dialect (u.formula (.column a column .timeSpan)) ∧
      (u.formula (.column a column .timeSpan)).eval I = some (ratio (u.floored t)) ∧
      (m.eval I = (u.formula (.column a column .timeSpan)).eval I ↔ 0 ≤ t ∨ u.length ∣ t) := by
  obtain ⟨hlower, hupper⟩ := truncated_bounds hd u
  have hint : (Value.int (Int64.ofInt (u.truncated t))).IsTextOrInt := trivial
  obtain ⟨m, hm, heval, -⟩ := hint.gives_atHand (I := I) (s := s)
    ((Expr.member e u.part.name).origin s.compiler.translations) p
  obtain ⟨lower, hlow⟩ := (Expr.member e u.part.name).operand_value
  have hfolded : m.eval I = some (ratio (u.truncated t)) := by
    rw [heval, hI.value_int, Int64.toInt_ofInt_of_le hlower hupper]
  have htotal : (total (.column a column .timeSpan)).eval I = some (ratio t) := by
    rw [total, Node.eval, Node.evals, Node.evals, Node.eval, hv]
    exact hseconds d t hd
  have hformula := u.eval_formula hI htotal
  refine ⟨m, _, hlow ▸ Lowering.gives_folded_of_atHand (atHand?_member he hd u) hm, hfolded,
    u.gives_member hs hparam hcolumn p, u.alike_formula _ _, hformula, ?_⟩
  rw [hfolded, hformula, hI.eq_ratio_iff, truncated_eq_floored_iff]

/-! ### Delays -/

/-- A table with a duration. -/
def trainTable : TableBinding where
  name := "Train"
  aliasName := some "a"
  shape := .entity
    { name := "Train"
      table := "train"
      fields := [{ member := "Delay", column := "delay", type := .timeSpan, native := .time }] }

/-- The scope in which `x` is a row of the table. -/
def trainScope : Scope where
  compiler := { model := {} }
  frames := [[("x", .table trainTable)]]

/-- A row with a delay of some seconds. -/
def trainRow (delay : Int) : Interpretation ℚ := .exact fun _ column => if column = "delay" then some delay else none

/-- The delay of a train is a column. -/
private theorem delay_column : trainTable.column "Delay" = .ok (.column (some "a") "delay" .timeSpan) := rfl

/-- An hour and a half. -/
def late : Duration := ⟨5400 * 10 ^ 9, by decide, by decide⟩

/-- Half an hour in the other direction. -/
def early : Duration := ⟨-1800 * 10 ^ 9, by decide, by decide⟩

/-- The folded hours of an hour and a half and those of the column have the same value. -/
theorem late_hours :
    (trainRow 5400).ReadsNumbers id ∧ (trainRow 5400).CountsSeconds id ∧
    ∃ m n, (operand (.member (.constant (.span late)) "Hours")).value.Gives trainScope {} m {} ∧
      (operand (.member (.member (.param "x") "Delay") "Hours")).value.Gives trainScope {} n {} ∧
      n.WrittenAlike MySql.dialect (hours.formula (.column (some "a") "delay" .timeSpan)) ∧
      (hours.formula (.column (some "a") "delay" .timeSpan)).eval (trainRow 5400) = some 1 ∧
      m.eval (trainRow 5400) = (hours.formula (.column (some "a") "delay" .timeSpan)).eval (trainRow 5400) := by
  have hrow : (trainRow 5400).column (some "a") "delay" = (trainRow 5400).value (.span late) := by
    change some ((5400 : Int) : ℚ) = some (((5400 * 10 ^ 9 : Int) : ℚ) / 10 ^ 9)
    norm_num
  obtain ⟨m, n, hm, -, hn, halike, hformula, hiff⟩ := parts_agree_iff Interpretation.exact_readsNumbers
    Interpretation.exact_countsSeconds (s := trainScope) rfl (d := late) (t := 5400) rfl (.constant _) hours
    (show trainScope.binding? "x" = some (.table trainTable) from rfl) delay_column hrow {}
  exact ⟨Interpretation.exact_readsNumbers, Interpretation.exact_countsSeconds, m, n, hm, hn, halike,
    hformula.trans (by simp [floored, rest, length]), hiff.mpr (.inl (by decide))⟩

/-- Half an hour in the other direction has no hours when they are folded, and minus one for the database. -/
example :
    ∃ m, (operand (.member (.constant (.span early)) "Hours")).value.Gives trainScope {} m {} ∧
      m.eval (trainRow (-1800)) = some 0 ∧
      (hours.formula (.column (some "a") "delay" .timeSpan)).eval (trainRow (-1800)) = some (-1) := by
  have hrow : (total (.column (some "a") "delay" .timeSpan)).eval (trainRow (-1800)) = some ((-1800 : Int) : ℚ) := rfl
  exact ⟨_, rfl, rfl, (eval_formula Interpretation.exact_readsNumbers hrow hours).trans (by simp [floored, rest, length])⟩

end SpanUnit

end LambdaSql
