import LambdaSql.Plan.Query
import LambdaSql.Proofs.Meaning.Host
import LambdaSql.Proofs.Meaning.Operators
import LambdaSql.Proofs.Plan.Outcome

/-!
# Planning keeps the meaning

A well-typed expression over whole numbers, truth values and null can be planned, and a database
computes for its node what it means: whether a part is evaluated at compile time or left to the
database, whether a choice or a first value that is not null stands in another one, and whether a
comparison is a test for null.

## Main definitions

* `Expr.Lowers` - how an expression is planned, as a value and as alternatives.

## Main results

* `Expr.lowers_of_typed` - a well-typed expression lowers to what it means.
* `Expr.planned_keeps_meaning` - it is planned, and the value of its node is its meaning.
-/

namespace LambdaSql

open Planning

variable {s : Scope} {row : Contents} {k : Kind} {e : Expr} {p : Progress}

/-! ## Values at hand -/

/-- What a node denotes for an expression. Null is written as null exactly when it is at hand. -/
structure Node.Expresses (s : Scope) (row : Contents) (k : Kind) (e : Expr) (n : Node) :
    Prop where
  denotes : n.Denotes row k (e.meaning s row)
  null : n.isNullNode = e.isNullAtHand

/-- A value at hand is planned to a node with its datum. -/
theorem Lowering.gives_atHand {v : Value} {d : Datum} (hv : v.datum? = some d) (hd : d.HasKind k)
    (o : Origin) :
    ∃ n, (Lowering.atHand v o).Gives s p n p ∧ n.Denotes row k d ∧ n.isNullNode = v.isNull := by
  obtain ⟨n, hn, hden, hnull⟩ : ∃ n, Node.constant s.compiler.dialect v = .ok n ∧
      n.Denotes row k d ∧ n.isNullNode = v.isNull := Node.denotes_constant _ hv hd
  obtain ⟨hden', hnull'⟩ : (Node.parameter v).Denotes row k d ∧
      (Node.parameter v).isNullNode = v.isNull := Node.denotes_parameter hv hd
  have step : Lowering.atHand v o =
      if o = .constant then Lowering.constant v else return .parameter v := by
    cases v <;> first | rfl | cases hv
  rw [step]
  split
  · refine ⟨n, ?_, hden, hnull⟩
    simp [Lowering.constant, Lowering.dialect, hn]
  · exact ⟨_, gives_pure.mpr ⟨rfl, rfl⟩, hden', hnull'⟩

/-- A well-typed expression is planned by its value, if it reads no row and has one, and otherwise
as it is lowered.

**Proof sketch.** An expression that reads a row is left to the database. One that reads none may be evaluated, and
calls have no part in it: its value, if there is one, is written, and without a value it is lowered all the same. -/
theorem Lowering.gives_folded (hf : row.Fits s) (h : e.Typed s k) {lower : Planning Node}
    (hl : (∀ v, e.reads = [] → Host.value e ≠ .ok v) →
      ∃ n, lower.Gives s p n p ∧ n.Denotes row k (e.meaning s row) ∧ n.isNullNode = false) :
    ∃ n, (Lowering.folded e lower).Gives s p n p ∧ n.Expresses s row k e := by
  have lowered : (∀ v, e.reads = [] → Host.value e ≠ .ok v) →
      ∃ n, lower.Gives s p n p ∧ n.Expresses s row k e := by
    intro hno
    obtain ⟨n, hn, hden, hnull⟩ := hl hno
    refine ⟨n, hn, hden, ?_⟩
    rw [hnull, Expr.isNullAtHand_of_not_ok hno]
  unfold Lowering.folded
  simp only [gives_bind, Lowering.gives_origin]
  by_cases hsql : e.origin s.compiler.translations = .sql
  · have hr := (Expr.origin_eq_sql s.compiler.translations h).mp hsql
    obtain ⟨n, hn, hex⟩ := lowered fun v hnil => absurd hnil hr
    exact ⟨n, ⟨_, p, ⟨rfl, rfl⟩, by rw [if_pos hsql]; exact hn⟩, hex⟩
  · have hr : e.reads = [] :=
      Classical.byContradiction fun hne =>
        hsql ((Expr.origin_eq_sql s.compiler.translations h).mpr hne)
    obtain ⟨o, ho, hv⟩ := Expr.value_agrees hf h hr
    have hfold : (s.compiler.options.foldCalls || !e.containsCall) = true := by
      rw [Expr.containsCall_of_typed h]
      simp
    -- folding comes down to the value, or to lowering where there is none
    suffices ∃ n, (o.elim lower fun v => Lowering.atHand v (e.origin s.compiler.translations)).Gives
        s p n p ∧ n.Expresses s row k e by
      obtain ⟨n, hn, hex⟩ := this
      refine ⟨n, ⟨_, p, ⟨rfl, rfl⟩, ?_⟩, hex⟩
      rw [if_neg hsql]
      simp only [gives_bind, Lowering.gives_foldable, hfold]
      refine ⟨true, p, ⟨rfl, rfl⟩, ?_⟩
      rw [if_pos rfl]
      simp only [gives_bind, Lowering.gives_valueOf?]
      refine ⟨o, p, ⟨by rw [ho]; cases o <;> rfl, rfl⟩, ?_⟩
      cases o <;> exact hn
    cases o with
    | none =>
      obtain ⟨n, hn, hex⟩ := lowered fun v _ hv => by
        rw [ho] at hv
        cases hv
      exact ⟨n, hn, hex⟩
    | some v =>
      have hd := Expr.hasKind_meaning hf h
      obtain ⟨n, hn, hden, hnull⟩ := Lowering.gives_atHand (s := s) (p := p) (hv v rfl) hd
        (e.origin s.compiler.translations)
      exact ⟨n, hn, hden, by rw [hnull, Expr.isNullAtHand_eq hr ho]⟩

/-! ## Operators -/

/-- How an expression is planned: as a value, and as the values among which the first one that is
not null is taken. -/
structure Expr.Lowers (s : Scope) (row : Contents) (p : Progress) (k : Kind) (e : Expr) : Prop where
  value : ∃ n, (operand e).value.Gives s p n p ∧ n.Expresses s row k e
  alternatives : ∃ ns, (operand e).alternatives.Gives s p ns p ∧
    Node.Alternatives row k (e.meaning s row) ns

/-- An expression with one way to plan it lowers as that does. -/
theorem Expr.Lowers.of_plain {lower : Planning Node} (hop : operand e = plainOperand e lower)
    (hf : row.Fits s) (h : e.Typed s k)
    (hl : (∀ v, e.reads = [] → Host.value e ≠ .ok v) →
      ∃ n, lower.Gives s p n p ∧ n.Denotes row k (e.meaning s row) ∧ n.isNullNode = false) :
    e.Lowers s row p k := by
  obtain ⟨n, hn, hex⟩ := Lowering.gives_folded hf h hl
  have hval : (operand e).value.Gives s p n p := by
    rw [hop]
    exact hn
  refine ⟨⟨n, hval, hex⟩, [n], ?_, hex.denotes.alternatives⟩
  rw [hop]
  exact gives_bind.mpr ⟨n, p, hn, gives_pure.mpr ⟨rfl, rfl⟩⟩

/-- A member of a parameter that stands for a table is a column of it. -/
theorem Lowering.gives_member {param name c : String} {t : TableBinding} {a : Option String}
    {type : HostType} (hp : s.binding? param = some (.table t))
    (hc : t.column name = .ok (.column a c type)) :
    (Lowering.member (operand (.param param)) name).Gives s p (.column a c type) p := by
  show (Lowering.parameterMember param name).Gives s p _ p
  unfold Lowering.parameterMember
  rw [gives_bind]
  exact ⟨.table t, p, gives_lookup.mpr ⟨hp, rfl⟩, gives_ofExcept.mpr ⟨hc, rfl⟩⟩

/-- A binary operator needs its operands as values, the first value that is not null aside. -/
theorem Lowering.gives_binary {op : BinaryOp} (hop : op ≠ .coalesce) {l r : Operand} {m n o : Node}
    (hl : l.value.Gives s p m p) (hr : r.value.Gives s p n p)
    (ho : Node.binaryOperator s.compiler.dialect op m n = .ok o) :
    (Lowering.binary op l r).Gives s p o p := by
  have step : Lowering.binary op l r = (do
      let m ← l.value
      let n ← r.value
      ofExcept (Node.binaryOperator (← Lowering.dialect) op m n)) := by
    cases op <;> first | rfl | exact absurd rfl hop
  rw [step]
  simp only [gives_bind]
  exact ⟨m, p, hl, n, p, hr, _, p, gives_bind.mpr ⟨s, p, gives_read.mpr ⟨rfl, rfl⟩,
    gives_pure.mpr ⟨rfl, rfl⟩⟩, gives_ofExcept.mpr ⟨ho, rfl⟩⟩

/-- A choice, to which one that stands last in it may add its branches. -/
theorem Lowering.gives_conditional {test ifTrue ifFalse : Operand} {t m n : Node}
    (ht : test.value.Gives s p t p) (hm : ifTrue.value.Gives s p m p)
    (hn : ifFalse.value.Gives s p n p) :
    ∃ nested : Bool, (Lowering.conditional test ifTrue ifFalse).Gives s p
      (.choice ((t.toPredicate, m) :: (if nested then branchesOf n else ([], n)).1)
        (if nested then branchesOf n else ([], n)).2) p := by
  refine ⟨ifFalse.source.isConditional &&
    ifFalse.source.origin s.compiler.translations == .sql, ?_⟩
  unfold Lowering.conditional
  simp only [gives_bind, Lowering.gives_origin]
  exact ⟨t, p, ht, m, p, hm, n, p, hn, _, p, ⟨rfl, rfl⟩, gives_pure.mpr ⟨rfl, rfl⟩⟩

/-- A binary operator that gives no alternatives is planned by itself. -/
theorem operand_binary {op : BinaryOp} (hop : op ≠ .coalesce) (l r : Expr) :
    operand (.binary op l r) =
      plainOperand (.binary op l r) (Lowering.binary op (operand l) (operand r)) := by
  rw [operand, if_neg hop]

/-- A comparison of two expressions that lower to what they mean does so, too. -/
theorem Expr.Lowers.comparison {op : BinaryOp} {l r : Expr} (hop : op.isComparison = true)
    (hk : k = .number ∨ op = .eq ∨ op = .ne) (hf : row.Fits s)
    (h : (Expr.binary op l r).Typed s .truth) (hl : l.Typed s k) (hr : r.Typed s k)
    (ihl : l.Lowers s row p k) (ihr : r.Lowers s row p k) :
    (Expr.binary op l r).Lowers s row p .truth := by
  obtain ⟨⟨m, hm, hexl⟩, -⟩ := ihl
  obtain ⟨⟨n, hn, hexr⟩, -⟩ := ihr
  have hne := (BinaryOp.needsBoth (.inl hop)).2.2
  obtain ⟨o, ho, ht⟩ := Node.denotes_comparison hop hk hexl.denotes hexr.denotes
    (hasKind_meaning hf hl) (hasKind_meaning hf hr)
  refine .of_plain (operand_binary hne l r) hf h fun _ => ?_
  refine ⟨o, Lowering.gives_binary hne hm hn ?_, ?_, ht.isNullNode⟩
  · rw [Node.binaryOperator_comparison _ hop, ho]
  · rw [meaning_comparison hop, ← hexl.null, ← hexr.null]
    exact ht.denotes

/-- The alternatives of a first value that is not null are those of its operands. -/
theorem Expr.Lowers.coalesce {l r : Expr} (hf : row.Fits s)
    (h : (Expr.binary .coalesce l r).Typed s k) (ihl : l.Lowers s row p k)
    (ihr : r.Lowers s row p k) : (Expr.binary .coalesce l r).Lowers s row p k := by
  obtain ⟨ns, hns, hal⟩ := ihl.alternatives
  obtain ⟨ms, hms, har⟩ := ihr.alternatives
  have happ := hal.append har
  have hop : operand (.binary .coalesce l r) =
      { plainOperand (.binary .coalesce l r) (Lowering.binary .coalesce (operand l) (operand r)) with
        alternatives := return (← (operand l).alternatives) ++ (← (operand r).alternatives) } := by
    rw [operand, if_pos rfl]
  have hlow : (Lowering.binary .coalesce (operand l) (operand r)).Gives s p
      (.firstNotNull (ns ++ ms)) p := by
    refine gives_bind.mpr ⟨ns, p, hns, gives_bind.mpr ⟨ms, p, hms, gives_pure.mpr ⟨rfl, rfl⟩⟩⟩
  obtain ⟨n, hn, hex⟩ := Lowering.gives_folded hf h fun _ => ⟨_, hlow, happ.firstNotNull, rfl⟩
  refine ⟨⟨n, by rw [hop]; exact hn, hex⟩, ns ++ ms, ?_, happ⟩
  rw [hop]
  exact gives_bind.mpr ⟨ns, p, hns, gives_bind.mpr ⟨ms, p, hms, gives_pure.mpr ⟨rfl, rfl⟩⟩⟩

/-- A choice between expressions that lower to what they mean does so, too. -/
theorem Expr.Lowers.conditional {test a b : Expr} (hf : row.Fits s)
    (h : (Expr.conditional test a b).Typed s k) (ht : test.Typed s .truth)
    (iht : test.Lowers s row p .truth) (iha : a.Lowers s row p k) (ihb : b.Lowers s row p k) :
    (Expr.conditional test a b).Lowers s row p k := by
  obtain ⟨⟨t, hgt, hext⟩, -⟩ := iht
  obtain ⟨⟨m, hm, hexa⟩, -⟩ := iha
  obtain ⟨⟨n, hn, hexb⟩, -⟩ := ihb
  refine .of_plain (by rw [operand]) hf h fun _ => ?_
  obtain ⟨nested, hc⟩ := Lowering.gives_conditional hgt hm hn
  obtain ⟨hcell, htype⟩ := hexb.denotes.branches nested
  refine ⟨_, hc, ?_, rfl⟩
  have hchoice := Node.denotes_choice (hext.denotes.tests (hasKind_meaning hf ht)) hexa.denotes
    hcell htype
  simpa only [meaning, Datum.truth_eq_some] using hchoice

/-- **A well-typed expression lowers to what it means.**

**Proof sketch.** By induction on the typing, for values and alternatives together: the alternatives
of a first value that is not null are those of its operands, and every other expression is its own
only alternative. An expression that is evaluated at compile time agrees with its meaning; otherwise
the nodes of its parts are combined by the operator on nodes. -/
theorem Expr.lowers_of_typed (hf : row.Fits s) (h : e.Typed s k) : e.Lowers s row p k := by
  induction h with
  | @constant k v d hv hd =>
    refine .of_plain (by rw [operand]) hf (.constant hv hd) fun hno => ?_
    exact absurd (value_constant v) (hno v rfl)
  | @captured k name v d hv hd =>
    refine .of_plain (by rw [operand]) hf (.captured hv hd) fun hno => ?_
    exact absurd (value_captured name v) (hno v rfl)
  | @member k param name t a c type hp hc hk =>
    refine .of_plain (by rw [operand]) hf (.member hp hc hk) fun _ => ?_
    refine ⟨_, Lowering.gives_member hp hc, ?_, rfl⟩
    have hm : (Expr.member (.param param) name).meaning s row = row a c := by
      rw [meaning, memberMeaning, hp]
      simp only [hc]
    rw [hm]
    exact Node.denotes_column hk
  | @negate e he ih =>
    obtain ⟨⟨n, hn, hex⟩, -⟩ := ih
    refine .of_plain (by rw [operand]) hf (.negate he) fun _ => ?_
    refine ⟨.unary .negate n n.type, ?_, hex.denotes.negate (hasKind_meaning hf he), rfl⟩
    exact gives_bind.mpr ⟨n, p, hn, gives_pure.mpr ⟨rfl, rfl⟩⟩
  | @not e he ih =>
    obtain ⟨⟨n, hn, hex⟩, -⟩ := ih
    have ht := (hex.denotes.tests (hasKind_meaning hf he)).negation
    refine .of_plain (by rw [operand]) hf (.not he) fun _ => ?_
    refine ⟨n.toPredicate.negation, ?_, ht.denotes, ht.isNullNode⟩
    exact gives_bind.mpr ⟨n, p, hn, gives_pure.mpr ⟨rfl, rfl⟩⟩
  | @logical op l r hop hl hr ihl ihr =>
    obtain ⟨⟨m, hm, hexl⟩, -⟩ := ihl
    obtain ⟨⟨n, hn, hexr⟩, -⟩ := ihr
    obtain ⟨hand, hor⟩ := (hexl.denotes.tests (hasKind_meaning hf hl)).logical
      (hexr.denotes.tests (hasKind_meaning hf hr))
    have hne : op ≠ .coalesce := by obtain rfl | rfl := hop <;> simp
    refine .of_plain (operand_binary hne l r) hf (.logical hop hl hr) fun _ => ?_
    obtain rfl | rfl := hop
    · exact ⟨_, Lowering.gives_binary hne hm hn rfl, hand.denotes, rfl⟩
    · exact ⟨_, Lowering.gives_binary hne hm hn rfl, hor.denotes, rfl⟩
  | comparison hop hl hr ihl ihr =>
    exact .comparison hop (.inl rfl) hf (.comparison hop hl hr) hl hr ihl ihr
  | equality hop hl hr ihl ihr =>
    exact .comparison (by obtain rfl | rfl := hop <;> rfl) (.inr hop) hf (.equality hop hl hr) hl hr
      ihl ihr
  | @arithmetic op l r hop hl hr ihl ihr =>
    obtain ⟨⟨m, hm, hexl⟩, -⟩ := ihl
    obtain ⟨⟨n, hn, hexr⟩, -⟩ := ihr
    have hne := (BinaryOp.needsBoth (.inr hop)).2.2
    refine .of_plain (operand_binary hne l r) hf (.arithmetic hop hl hr) fun _ => ?_
    refine ⟨_, Lowering.gives_binary hne hm hn
      (Node.binaryOperator_arithmetic _ hop hexl.denotes hexr.denotes), ?_, ?_⟩
    · rw [meaning_arithmetic hop]
      exact hexl.denotes.arithmetic hop hexr.denotes (hasKind_meaning hf hl) (hasKind_meaning hf hr)
    · rw [Node.arithmetic_of_admits hexl.denotes.type]
      split <;> rfl
  | coalesce hl hr ihl ihr => exact .coalesce hf (.coalesce hl hr) ihl ihr
  | conditional ht ha hb iht iha ihb =>
    exact .conditional hf (.conditional ht ha hb) ht iht iha ihb

/-- **Planning keeps the meaning.** A well-typed expression is planned, and what a database computes
for its node on a row is what the expression means on the row.

**Proof sketch.** By induction on the typing an expression is lowered to a node that denotes its meaning. Planning
from one progress gives no more than one node, so whatever is planned is that node. -/
theorem Expr.planned_keeps_meaning (hf : row.Fits s) (h : e.Typed s k) (p : Progress) :
    (∃ n, (operand e).value.Gives s p n p) ∧
      ∀ n p', (operand e).value.Gives s p n p' → n.cell? row = some (e.meaning s row).cell := by
  obtain ⟨n, hn, hex⟩ := (Expr.lowers_of_typed (p := p) hf h).value
  refine ⟨⟨n, hn⟩, fun m p' hm => ?_⟩
  rw [(hm.unique hn).1, hex.denotes.cell]

/-! ### A row of counters -/

/-- A table with a number and a truth value. -/
def counterTable : TableBinding where
  name := "Counter"
  aliasName := some "a"
  shape := .entity
    { name := "Counter"
      table := "counter"
      fields :=
        [{ member := "Total", column := "total", type := .int64, native := .int64 },
          { member := "Active", column := "active", type := .bool, native := .boolean }] }

/-- The scope in which `x` is a row of the table. -/
def counterScope : Scope where
  compiler := { model := {} }
  frames := [[("x", .table counterTable)]]

/-- A row whose number is negative and whose truth value is missing. -/
def counterRow : Contents := fun _ c => if c = "total" then .int (-7) else .null

/-- The row of the counter fits its scope. -/
theorem counterRow_fits : counterRow.Fits counterScope := by
  intro p t name a c type k hp hc hk
  obtain rfl : counterTable = t := by
    by_cases hx : p = "x"
    · subst hx
      cases hp
      rfl
    · have hnone : counterScope.binding? p = none := by
        simp [counterScope, Scope.binding?, List.lookup, beq_eq_false_iff_ne.mpr hx]
      rw [hnone] at hp
      cases hp
  by_cases ht : name = "Total"
  · subst ht
    cases hc
    cases hk
    trivial
  · by_cases ha : name = "Active"
    · subst ha
      cases hc
      exact Datum.hasKind_null k
    · have hnone : counterTable.column name = .error (.unknownMember "Counter" name) := by
        simp only [counterTable, TableBinding.column, Entity.field, Entity.field?, Bool.not_false,
          Bool.and_true, beq_iff_eq, Ne.symm ht, Ne.symm ha, not_false_eq_true,
          List.find?_cons_of_neg, List.find?_nil]
        rfl
      rw [hnone] at hc
      cases hc

/-- Half of the number if the row is active or has a number, and zero otherwise. -/
def halfTotal : Expr :=
  .conditional
    (.binary .or (.member (.param "x") "Active")
      (.unary .not (.binary .eq (.member (.param "x") "Total") (.captured "limit" .null))))
    (.binary .div (.member (.param "x") "Total") (.constant (.int 2)))
    (.constant (.int 0))

/-- Half of the total is a number. -/
private theorem halfTotal_typed : halfTotal.Typed counterScope .number := by
  have total : (Expr.member (.param "x") "Total").Typed counterScope .number := .member rfl rfl rfl
  have active : (Expr.member (.param "x") "Active").Typed counterScope .truth := .member rfl rfl rfl
  exact .conditional
    (.logical (.inr rfl) active
      (.not (.comparison rfl total (.captured rfl (Datum.hasKind_null _)))))
    (.arithmetic rfl total (.constant rfl trivial)) (.constant rfl trivial)

/-- Half of the counter's total is planned, and is minus three on the row. -/
theorem halfTotal_planned :
    (∃ n, (operand halfTotal).value.Gives counterScope {} n {}) ∧
      ∀ n p', (operand halfTotal).value.Gives counterScope {} n p' →
        n.cell? counterRow = some (some (-3)) :=
  Expr.planned_keeps_meaning counterRow_fits halfTotal_typed {}

end LambdaSql
