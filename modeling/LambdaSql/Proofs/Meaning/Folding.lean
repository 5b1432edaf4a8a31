import LambdaSql.Proofs.Faults.Formats
import LambdaSql.Proofs.Meaning.Lowering
import LambdaSql.Proofs.Meaning.TextCalls

/-!
# Folded and translated calls

A call on a text with nothing but values at hand in it is evaluated when it is planned, and the same call on a column
becomes a function of the database. Whether both have the same value depends on what the host and the database make of
the text.

## Main definitions

* `Expr.Holds` - an expression that is a value.
* `Expr.Denotes` - an expression that is planned to a node with some value.
* `TextCall.translation` - how a call is translated.

## Main results

* `TextCall.gives_callOn` - a call is planned as a function of the database.
* `TextCall.folded_eq_translated_iff` - what is folded has the value of what is translated on just those texts on which
  host and database agree.
-/

namespace LambdaSql

open Planning

/-! ## Operands -/

variable {V : Type} {I : Interpretation V} {s : Scope} {e : Expr} {v : Value} {p : Progress}

/-- An expression that is a value, written out or captured. -/
inductive Expr.Holds : Expr → Value → Prop
  | constant (v : Value) : (Expr.constant v).Holds v
  | captured (name : String) (v : Value) : (Expr.captured name v).Holds v

/-- An expression that is planned, after whatever progress, to a node that has the value of a value at hand, and that
itself has this value if it is a constant. It is not just a parameter, and a text has the type of a text. -/
structure Expr.Denotes (I : Interpretation V) (s : Scope) (e : Expr) (v : Value) : Prop where
  planned : ∀ p, ∃ n q, (operand e).value.Gives s p n q ∧ n.eval I = I.value v ∧
    (v.hostType.isString = true → n.type.isString = true)
  constant : ∀ p, ∃ o, (Lowering.constantValue? e).Gives s p o p ∧ ∀ w, o = some w → w = v
  bare : ∀ name, e ≠ .param name

/-- The values of expressions that are values. -/
theorem Host.evaluateItems_of_holds {args : List Expr} {vs : List Value} (h : List.Forall₂ Expr.Holds args vs) :
    evaluateItems .none args = .ok vs := by
  induction h with
  | nil => rw [evaluateItems]; rfl
  | cons hv _ ih => cases hv <;> (rw [evaluateItems, ih, evaluate]; rfl)

/-- Values do not come from the database. -/
theorem Expr.originOfItems_of_holds {args : List Expr} {vs : List Value} (h : List.Forall₂ Expr.Holds args vs)
    (t : TranslationTable) : originOfItems t args ≠ .sql := by
  induction h with
  | nil => exact nofun
  | cons hv _ ih =>
    rw [originOfItems, Ne, Origin.max_eq_sql, not_or]
    cases hv <;> exact ⟨nofun, ih⟩

/-- Texts and whole numbers are written out or bound. -/
theorem Value.IsTextOrInt.gives_atHand (h : v.IsTextOrInt) (o : Origin) (p : Progress) :
    ∃ n, (Lowering.atHand v o).Gives s p n p ∧ n.eval I = I.value v ∧
      (v.hostType.isString = true → n.type.isString = true) := by
  cases v with
  | string _ | int _ => cases o <;> exact ⟨_, rfl, rfl, id⟩
  | _ => exact h.elim

/-- What holds a value is not left to the database. -/
private theorem Expr.Holds.origin_ne_sql (h : e.Holds v) (t : TranslationTable) : e.origin t ≠ .sql := by
  cases h <;> simp [origin]

/-- A value is at hand. -/
theorem Expr.Holds.atHand? (h : e.Holds v) : e.atHand? s = some v := by
  refine atHand?_eq_some.mpr ⟨h.origin_ne_sql _, ?_, ?_⟩
  · cases h <;> simp [containsCall]
  · cases h with
    | constant => exact value_constant v
    | captured name => exact value_captured name v

/-- A constant has its value. -/
theorem Lowering.gives_constantValue?_constant (v : Value) (p : Progress) :
    (constantValue? (.constant v)).Gives s p (some v) p := by
  unfold constantValue?
  simp only [gives_bind, gives_origin]
  refine ⟨_, p, ⟨rfl, rfl⟩, ?_⟩
  simp [Expr.origin, Expr.containsCall, Expr.value_constant, Evaluation.attempt]

namespace Expr.Denotes

/-- Texts and whole numbers at hand. -/
theorem of_holds (h : e.Holds v) (hv : v.IsTextOrInt) : e.Denotes I s v := by
  refine ⟨fun p => ?_, fun p => ?_, ?_⟩
  · obtain ⟨n, hn, heval, htype⟩ := hv.gives_atHand (I := I) (s := s) (e.origin s.compiler.translations) p
    obtain ⟨lower, hlower⟩ := e.operand_value
    rw [hlower]
    exact ⟨n, p, Lowering.gives_folded_of_atHand h.atHand? hn, heval, htype⟩
  · cases h with
    | constant => exact ⟨some v, Lowering.gives_constantValue?_constant v p, fun _ => Eq.symm ∘ Option.some.inj⟩
    | captured =>
      refine ⟨none, ?_, fun w hw => absurd hw (Option.some_ne_none w).symm⟩
      unfold Lowering.constantValue?
      simp [origin]
  · cases h <;> rintro _ ⟨⟩

/-- Columns. -/
theorem column {param member column : String} {t : TableBinding} {a : Option String} {type : HostType}
    (hparam : s.binding? param = some (.table t)) (hcolumn : t.column member = .ok (.column a column type))
    (hv : I.column a column = I.value v) (htype : v.hostType.isString = true → type.isString = true) :
    (Expr.member (.param param) member).Denotes I s v := by
  refine ⟨fun p => ⟨.column a column type, p, ?_, hv, htype⟩, fun p => ⟨none, ?_, nofun⟩, nofun⟩
  · rw [operand]
    have hnone : (Expr.member (.param param) member).atHand? s = none := by simp [atHand?, origin]
    exact Lowering.gives_folded_of_none hnone (fun ho => absurd rfl ho) (Lowering.gives_member hparam hcolumn)
  · unfold Lowering.constantValue?
    simp [origin]

end Expr.Denotes

namespace Lowering

/-- Arguments are planned to nodes with their values. -/
theorem gives_args {args : List Expr} {vs : List Value} (h : List.Forall₂ (Expr.Denotes I s) args vs) (p : Progress) :
    ∃ ns q, Planning.Gives ((LambdaSql.operands args).mapM (·.value)) s p ns q ∧
      ns.map (Node.eval I) = vs.map I.value := by
  induction h generalizing p with
  | nil => exact ⟨[], p, gives_mapM_nil.mpr ⟨rfl, rfl⟩, rfl⟩
  | cons hv _ ih =>
    obtain ⟨n, q, hn, heval, -⟩ := hv.planned p
    obtain ⟨ns, q', hns, hevals⟩ := ih q
    refine ⟨n :: ns, q', gives_mapM_cons.mpr ⟨n, q, ns, hn, hns, rfl⟩, ?_⟩
    rw [List.map_cons, List.map_cons, heval, hevals]

/-- A position is planned to a node that is one more.

**Proof sketch.** A constant position is increased when planning, which is in range as it is not the last one; any
other position is increased in the database. -/
theorem gives_oneBased {text : List Char → V} (hI : I.ReadsTexts text) {i : Int64} (hi : i ≠ Int64.maxValue)
    (h : e.Denotes I s (.int i)) (p : Progress) :
    ∃ n q, (oneBased (operand e)).Gives s p n q ∧ n.eval I = some (I.number (i.toInt + 1)) := by
  have hlower := i.le_toInt
  have hupper : i.toInt + 1 < 2 ^ 63 := by
    have hlt := i.toInt_lt
    have hne : i.toInt ≠ 2 ^ 63 - 1 := fun heq => hi (Int64.toInt_inj.mp heq)
    omega
  obtain ⟨o, ho, hvalue⟩ := h.constant p
  unfold oneBased
  simp only [gives_bind, operand_source]
  cases o with
  | some w =>
    obtain rfl := hvalue w rfl
    have hnext : Checked.add i 1 = some (Int64.ofInt (i.toInt + 1)) :=
      Checked.ofInt?_eq_some_iff.mpr (Int64.toInt_ofInt_of_le (by omega) (by omega))
    refine ⟨.ofInt (Int64.ofInt (i.toInt + 1)), p, ⟨_, p, ho, by simp [hnext]⟩, ?_⟩
    change I.value (.int (Int64.ofInt (i.toInt + 1))) = _
    rw [hI.value_int, Checked.toInt_add hnext]
    rfl
  | none =>
    obtain ⟨n, q, hn, heval, -⟩ := h.planned p
    refine ⟨.binary .add n (.ofInt 1) .int32, q, ⟨_, p, ho, ?_⟩, ?_⟩
    · simp only [gives_bind, gives_pure]
      exact ⟨n, q, hn, rfl, rfl⟩
    · change (do I.compute .add (← n.eval I) (← I.value (.int 1))) = _
      rw [heval, hI.value_int, hI.value_int]
      exact hI.add i.toInt 1 (by omega) hupper

/-- Nothing is planned for the last position, which is not followed by another one. -/
theorem not_gives_oneBased_last {n : Node} {q : Progress} :
    ¬ (oneBased (operand (.constant (.int Int64.maxValue)))).Gives s p n q := by
  unfold oneBased
  rw [operand_source, (gives_constantValue?_constant _ p).bind_iff]
  exact not_gives_fail

/-- A call on a text looks its method up and applies the translation. -/
theorem gives_callOn_text {target : Expr} {method : String} {args : List Operand} {t : Translation} {m n : Node}
    {q q' : Progress} (hmethod : method ≠ "Contains") (hbare : ∀ name, target ≠ .param name)
    (hm : (operand target).value.Gives s p m q) (htype : m.type.isString = true)
    (ht : s.compiler.translations.method? .string method (.exactly args.length) = some t) :
    (callOn (operand target) method args).Gives s p n q' ↔
      (apply t (some (operand target, m)) args m.type.displayName method).Gives s q n q' := by
  have hkey : TypeKey.ofHostType m.type = .string := by
    generalize m.type = type at htype
    cases type <;> first | rfl | cases htype
  have hgrouping : (grouping? target).Gives s p none p := by
    unfold grouping?
    split
    · next name => exact absurd rfl (hbare name)
    · exact gives_pure.mpr ⟨rfl, rfl⟩
  unfold callOn
  split
  on_goal 1 => rw [if_neg hmethod]
  all_goals
    rw [operand_source, hgrouping.bind_iff, hm.bind_iff]
    simp only [gives_translations.mpr ⟨rfl, rfl⟩ |>.bind_iff, hkey, ht]

/-- A function of the database is applied to the values of its operands. -/
theorem gives_apply_function {args : List Expr} {vs : List Value} (h : List.Forall₂ (Expr.Denotes I s) args vs)
    (f : SqlFunction) (type : HostType) (o : Operand) (m : Node) (declaring method : String) (p : Progress) :
    ∃ n q, (apply (.function f (.fixed type)) (some (o, m)) (LambdaSql.operands args) declaring method).Gives s p n q ∧
      n.eval I = I.call f (m.eval I :: vs.map I.value) := by
  obtain ⟨ns, q, hns, hevals⟩ := gives_args h p
  refine ⟨.call f (m :: ns) type, q, ?_, ?_⟩
  · unfold apply
    simp only [operands, gives_bind, gives_pure]
    exact ⟨_, q, ⟨ns, q, hns, rfl, rfl⟩, rfl, rfl⟩
  · rw [Node.eval, Node.evals_eq_map, List.map_cons, hevals]

/-- A text is filled up to a width with another one. -/
theorem gives_apply_pad {width fill : Expr} {v w : Value} (hwidth : width.Denotes I s v) (hfill : fill.Denotes I s w)
    (f : SqlFunction) (o : Operand) (m : Node) (declaring method : String) (p : Progress) :
    ∃ n q, (apply (.pad f) (some (o, m)) (LambdaSql.operands [width, fill]) declaring method).Gives s p n q ∧
      n.eval I = I.call f [m.eval I, I.value v, I.value w] := by
  obtain ⟨a, q, ha, heval, -⟩ := hwidth.planned p
  obtain ⟨b, q', hb, heval', -⟩ := hfill.planned q
  refine ⟨.call f [m, a, b] .string, q', ?_, ?_⟩
  · change Planning.Gives (do
      let width ← (operand width).value
      return Node.call f [m, width, ← (operand fill).value] .string) s p _ q'
    simp only [gives_bind, gives_pure]
    exact ⟨a, q, ha, b, q', hb, rfl, rfl⟩
  · rw [Node.eval, Node.evals_eq_map]
    simp only [List.map_cons, List.map_nil, heval, heval']

end Lowering

/-! ## Calls on texts -/

namespace TextCall

/-- The translation of the method. -/
def translation : TextCall → Translation
  | substring _ | substringLength .. => .substring
  | padLeft .. => .pad .padLeft
  | padRight .. => .pad .padRight
  | indexOf _ => .function .indexOf (.fixed .int32)
  | k => .function k.function (.fixed .string)

/-- A position can be counted from one. -/
def InRange : TextCall → Prop
  | substring start | substringLength start _ => start ≠ Int64.maxValue
  | _ => True

/-- The call as an expression. -/
def expr (k : TextCall) (target : Expr) (args : List Expr) : Expr := .call (some target) none k.method args

/-- The methods of texts have their translations in the default table. -/
private theorem method?_defaults (k : TextCall) :
    TranslationTable.defaults.method? .string k.method (.exactly k.args.length) = some k.translation := by
  cases k <;> rfl

/-- None of these calls looks for a member of a collection. -/
private theorem method_ne_contains (k : TextCall) : k.method ≠ "Contains" := by
  cases k <;> simp [method]

variable {text : List Char → V}

/-- The translation of a call applies the function to these values. -/
theorem gives_apply (hI : I.ReadsTexts text) {k : TextCall} (hk : k.InRange) {args : List Expr}
    (hargs : List.Forall₂ (Expr.Denotes I s) args k.args) (o : Operand) (m : Node) (declaring : String) (p : Progress) :
    ∃ n q, (Lowering.apply k.translation (some (o, m)) (operands args) declaring k.method).Gives s p n q ∧
      n.eval I = I.call k.function (m.eval I :: k.sqlArgs I) := by
  cases k with
  | trim | trimStart | trimEnd | indexOf _ | replace _ _ => exact Lowering.gives_apply_function hargs _ _ o m _ _ p
  | substring start =>
    obtain _ | ⟨hstart, ⟨⟩⟩ := hargs
    obtain ⟨n, q, hn, heval⟩ := Lowering.gives_oneBased hI hk hstart p
    refine ⟨.call .substring [m, n] .string, q, gives_bind.mpr ⟨n, q, hn, gives_pure.mpr ⟨rfl, rfl⟩⟩, ?_⟩
    rw [Node.eval, Node.evals_eq_map]
    simp only [List.map_cons, List.map_nil, heval, sqlArgs, function]
  | substringLength start length =>
    obtain _ | ⟨hstart, _ | ⟨hlength, ⟨⟩⟩⟩ := hargs
    obtain ⟨n, q, hn, heval⟩ := Lowering.gives_oneBased hI hk hstart p
    obtain ⟨n', q', hn', heval', -⟩ := hlength.planned q
    refine ⟨.call .substringLength [m, n, n'] .string, q', gives_bind.mpr ⟨n, q, hn, gives_bind.mpr ⟨n', q', hn',
      gives_pure.mpr ⟨rfl, rfl⟩⟩⟩, ?_⟩
    rw [Node.eval, Node.evals_eq_map]
    simp only [List.map_cons, List.map_nil, heval, heval', sqlArgs, function]
  | padLeft width fill | padRight width fill =>
    obtain _ | ⟨hwidth, _ | ⟨hfill, ⟨⟩⟩⟩ := hargs
    exact Lowering.gives_apply_pad hwidth hfill _ o m _ _ p

/-- **A call on a text is planned as a function of the database**, applied to the values of the text and of the
arguments. -/
theorem gives_callOn (hI : I.ReadsTexts text) (hs : s.compiler.translations = .defaults) {k : TextCall} (hk : k.InRange)
    {target : Expr} {subject : String} (htarget : target.Denotes I s (.string subject)) {args : List Expr}
    (hargs : List.Forall₂ (Expr.Denotes I s) args k.args) (p : Progress) :
    ∃ n q, (Lowering.callOn (operand target) k.method (operands args)).Gives s p n q ∧
      n.eval I = I.call k.function (I.value (.string subject) :: k.sqlArgs I) := by
  obtain ⟨m, q, hm, heval, htype⟩ := htarget.planned p
  obtain ⟨n, q', hn, hcall⟩ := k.gives_apply hI hk hargs (operand target) m m.type.displayName q
  have hlength : (operands args).length = k.args.length := by rw [operands_length, hargs.length_eq]
  have hmethod := hs ▸ hlength ▸ k.method?_defaults
  refine ⟨n, q', (Lowering.gives_callOn_text k.method_ne_contains htarget.bare hm (htype rfl) hmethod).mpr hn, ?_⟩
  rw [hcall, heval]

/-- Constants are their values. -/
theorem holds_constants (vs : List Value) : List.Forall₂ Expr.Holds (vs.map .constant) vs :=
  List.forall₂_map_left_iff.mpr (List.forall₂_same.mpr fun v _ => .constant v)

/-- Constants have the values of the arguments. -/
theorem denotes_constants (k : TextCall) : List.Forall₂ (Expr.Denotes I s) (k.args.map .constant) k.args :=
  List.forall₂_map_left_iff.mpr <| List.forall₂_same.mpr fun v hv =>
    .of_holds (.constant v) (isTextOrInt_of_mem_args v hv)

/-- Nothing is planned for a position that cannot be counted from one. -/
theorem not_gives_callOn (hs : s.compiler.translations = .defaults) {k : TextCall} (hk : ¬ k.InRange) {target : Expr}
    {subject : String} (htarget : target.Denotes I s (.string subject)) (p : Progress) {n : Node} {q : Progress} :
    ¬ (Lowering.callOn (operand target) k.method (operands (k.args.map .constant))).Gives s p n q := by
  obtain ⟨m, q', hm, -, htype⟩ := htarget.planned p
  have hlength : (operands (k.args.map .constant)).length = k.args.length := by rw [operands_length, List.length_map]
  have hmethod := hs ▸ hlength ▸ k.method?_defaults
  rw [Lowering.gives_callOn_text k.method_ne_contains htarget.bare hm (htype rfl) hmethod]
  intro hn
  cases k with
  | substring start | substringLength start _ =>
    obtain rfl : start = Int64.maxValue := not_not.mp hk
    obtain ⟨_, _, hstart, -⟩ := gives_bind.mp hn
    exact Lowering.not_gives_oneBased_last hstart
  | _ => exact hk trivial

/-! ## Folding -/

/-- A call on a value, with values as arguments, is evaluated as a method of its text. -/
theorem value_expr_eq_ok {k : TextCall} {target : Expr} {subject : String} (htarget : target.Holds (.string subject))
    {args : List Expr} (hargs : List.Forall₂ Expr.Holds args k.args) {v : Value} :
    Host.value (k.expr target args) = .ok v ↔ Host.callOnText subject.toList k.method k.args = .ok v := by
  have hcall : Host.callOn (.string subject) k.method k.args =
      Host.callOnText subject.toList k.method k.args := by
    cases k <;> rfl
  have h : Host.value (k.expr target args) = Host.callOn (.string subject) k.method k.args := by
    rw [Host.value, expr, Host.evaluate, Host.evaluateItems_of_holds hargs]
    cases htarget <;> rw [Host.evaluate] <;> rfl
  rw [h, hcall]

/-- Such a call is planned by its value. -/
theorem atHand?_expr (hfold : s.compiler.options.foldCalls = true) {k : TextCall} {target : Expr} {subject : String}
    (htarget : target.Holds (.string subject)) {args : List Expr} (hargs : List.Forall₂ Expr.Holds args k.args)
    {v : Value} (hv : Host.value (k.expr target args) = .ok v) : (k.expr target args).atHand? s = some v := by
  refine Expr.atHand?_eq_some.mpr ⟨?_, by rw [hfold, Bool.true_or], hv⟩
  rw [expr, Expr.origin, if_neg (Option.some_ne_none "Sql").symm, Ne, Origin.max_eq_sql, not_or]
  exact ⟨htarget.origin_ne_sql _, Expr.originOfItems_of_holds hargs _⟩

/-- **Folded and translated calls.** Where a call on a text with values as arguments can be evaluated, it is planned by
its value. The same call on the same text, with the same arguments, is translated to a function of the database if its
position can be counted from one, whether the text and the arguments are values or columns, and then the function has
the value that is folded just if host and database agree on the text. If its position cannot be counted from one, then
it is not translated.

**Proof sketch.** What the host computes says which value is folded, and it is a text or a whole number, which is
planned to a node with this value. The translated call applies the function to the values of its operands, and the
function has the value of the method on just the texts on which host and database agree. -/
theorem folded_eq_translated_iff (hI : I.ReadsTexts text) (hs : s.compiler.translations = .defaults)
    (hfold : s.compiler.options.foldCalls = true) {k : TextCall} {subject : String} {e target : Expr}
    {es args : List Expr} (he : e.Holds (.string subject)) (hes : List.Forall₂ Expr.Holds es k.args) {v : Value}
    (hv : Host.value (k.expr e es) = .ok v) (htarget : target.Denotes I s (.string subject))
    (hargs : List.Forall₂ (Expr.Denotes I s) args k.args) (p : Progress) :
    ∃ m, (operand (k.expr e es)).value.Gives s p m p ∧ m.eval I = I.value v ∧
      (k.InRange → ∃ n q, (Lowering.callOn (operand target) k.method (operands args)).Gives s p n q ∧
        (n.eval I = m.eval I ↔ k.Agrees subject.toList)) ∧
      (¬ k.InRange → ∀ n q,
        ¬ (Lowering.callOn (operand target) k.method (operands (k.args.map .constant))).Gives s p n q) := by
  have hcomputes := computes_of_callOnText ((value_expr_eq_ok he hes).mp hv)
  obtain ⟨m, hm, heval, -⟩ := hcomputes.isTextOrInt.gives_atHand (I := I) (s := s)
    ((k.expr e es).origin s.compiler.translations) p
  obtain ⟨lower, hlower⟩ := (k.expr e es).operand_value
  refine ⟨m, hlower ▸ Lowering.gives_folded_of_atHand (atHand?_expr hfold he hes hv) hm, heval, fun hk => ?_,
    fun hk _ _ => not_gives_callOn hs hk htarget p⟩
  obtain ⟨n, q, hn, hcall⟩ := gives_callOn hI hs hk htarget hargs p
  exact ⟨n, q, hn, by rw [heval, hcall, hcomputes.call_eq_iff hI]⟩

/-! ### Names of authors -/

/-- A table with a text. -/
def authorTable : TableBinding where
  name := "Author"
  aliasName := some "a"
  shape := .entity
    { name := "Author"
      table := "author"
      fields := [{ member := "Name", column := "name", type := .string, native := .string }] }

/-- The scope in which `x` is a row of the table. -/
def authorScope : Scope where
  compiler := { model := {} }
  frames := [[("x", .table authorTable)]]

/-- A row with a name. -/
def authorRow : Interpretation (Int ⊕ List Char) :=
  .textual fun _ column => if column = "name" then some (.inr "Ada".toList) else none

/-- The author's name is Ada. -/
private theorem name_denotes : (Expr.member (.param "x") "Name").Denotes authorRow authorScope (.string "Ada") :=
  .column (t := authorTable) rfl rfl rfl id

/-- Filling a name up to five characters. -/
def fill : TextCall := padLeft 5 '.'

/-- The folded call and the call on the column have the same value. -/
theorem fill_folded :
    Host.value (fill.expr (.constant (.string "Ada")) (fill.args.map .constant)) = .ok (.string "..Ada") ∧
    ∃ m n q,
      (operand (fill.expr (.constant (.string "Ada")) (fill.args.map .constant))).value.Gives authorScope {} m {} ∧
      (Lowering.callOn (operand (.member (.param "x") "Name")) fill.method
        (operands (fill.args.map .constant))).Gives authorScope {} n q ∧
      m.eval authorRow = some (.inr "..Ada".toList) ∧ n.eval authorRow = m.eval authorRow := by
  have hv : Host.value (fill.expr (.constant (.string "Ada")) (fill.args.map .constant)) = .ok (.string "..Ada") := by
    rw [value_expr_eq_ok (.constant _) (holds_constants _)]
    rfl
  have hagrees : fill.Agrees "Ada".toList := show (3 : Int) ≤ 5 by decide
  obtain ⟨m, hm, heval, htranslated, -⟩ := folded_eq_translated_iff Interpretation.textual_readsTexts rfl rfl
    (.constant _) (holds_constants _) hv name_denotes (denotes_constants _) {}
  obtain ⟨n, q, hn, hiff⟩ := htranslated trivial
  exact ⟨hv, m, n, q, hm, hn, heval, hiff.mpr hagrees⟩

/-- A text that starts with a tab is trimmed when the call is folded, but not by the database. -/
theorem tab_trimmed :
    ∃ m n, (operand (trim.expr (.constant (.string "\tx")) [])).value.Gives authorScope {} m {} ∧
      (Lowering.callOn (operand (.constant (.string "\tx"))) trim.method []).Gives authorScope {} n {} ∧
      authorRow.ReadsTexts .inr ∧ m.eval authorRow = some (.inr "x".toList) ∧
      n.eval authorRow = some (.inr "\tx".toList) ∧ m.eval authorRow ≠ n.eval authorRow := by
  have hfolded : (operand (trim.expr (.constant (.string "\tx")) [])).value.Gives authorScope {}
      (.literal (authorScope.compiler.dialect.quoteText "x") (.string "x") .string) {} := rfl
  have htranslated : (Lowering.callOn (operand (.constant (.string "\tx"))) trim.method []).Gives authorScope {}
      (.call .trim [.literal (authorScope.compiler.dialect.quoteText "\tx") (.string "\tx") .string] .string) {} := rfl
  exact ⟨_, _, hfolded, htranslated, Interpretation.textual_readsTexts, rfl, rfl, by decide⟩

end TextCall

end LambdaSql
