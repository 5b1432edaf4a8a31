import LambdaSql.Proofs.Meaning.Membership

/-!
# Predicates with tests over empty collections

A predicate is put together by `and`, `or` and `not` from tests of numbers and truth values and from
membership tests. A test over an empty collection should be false, but is emitted as unknown. Under
`and` and `or` this is as good as false, and a `not` right before it is turned into a test that always
holds. Further out, a `not` keeps unknown as it is, and rows are lost.

## Main definitions

* `Expr.Filter` - the predicates.
* `Expr.outcome` - the outcome of a predicate on a row.
* `Expr.settled` - a predicate with constants for its tests over empty collections.
* `Expr.Upright` - an empty test that no `not` stands right before is under an even number of them.
* `Expr.Emits` - what is planned for a predicate.

## Main results

* `Expr.Emits.logical`, `Expr.Emits.not`, `Expr.Emits.not_empty` - the connectives.
* `Expr.Filter.approximates` - what is emitted for a predicate, and what is not.
* `Expr.Filter.outcome_settled` - constants for empty tests do not change the outcome.
* `Expr.empty_tests_settle` - which rows a predicate with empty tests is true of.
-/

namespace LambdaSql

open Planning

variable {s : Scope} {row : Contents} {k : Kind} {e : Expr} {p : Progress}

/-! ## Three-valued logic -/

namespace Truth

/-- A conjunction or a disjunction. -/
def connect (op : BinaryOp) (t u : Truth) : Truth := if op = .or then t.or u else t.and u

/-- An outcome is decided by one operand if it is the one that decides, and otherwise needs both. -/
theorem connect_eq_some {op : BinaryOp} {t u : Truth} {b : Bool} :
    connect op t u = some b ↔
      if (op == .or) = b then t = some b ∨ u = some b else t = some b ∧ u = some b := by
  by_cases h : op = .or <;> rcases t with _ | _ | _ <;> rcases u with _ | _ | _ <;> cases b <;>
    simp [connect, h, Truth.and, Truth.or]

/-- A connective has an outcome if its operands have it whenever those of another one do. -/
theorem connect_mono {op : BinaryOp} {t t' u u' : Truth} {b : Bool} (ht : t = some b → t' = some b)
    (hu : u = some b → u' = some b) (h : connect op t u = some b) : connect op t' u' = some b := by
  rw [connect_eq_some] at h ⊢
  split
  · next hb =>
    rw [if_pos hb] at h
    exact h.imp ht hu
  · next hb =>
    rw [if_neg hb] at h
    exact h.imp ht hu

/-- A negation is known if the opposite is. -/
private theorem not_eq_some {t : Truth} {b : Bool} : t.not = some b ↔ t = some (!b) := by
  rcases t with _ | _ | _ <;> cases b <;> simp [Truth.not]

end Truth

/-! ## Predicates -/

namespace Expr

/-- The outcome of a predicate. A membership test that is evaluated at compile time has the outcome
that it has there. -/
def outcome (s : Scope) (row : Contents) : Expr → Truth
  | unary .not e => (outcome s row e).not
  | binary .and l r => (outcome s row l).and (outcome s row r)
  | binary .or l r => (outcome s row l).or (outcome s row r)
  | e => match e.membership? s, e.atHand? s with
    | none, _ => (e.meaning s row).truth
    | some _, some v => v.toBool?
    | some m, none => m.outcome s row

/-- A predicate in which every test over an empty collection is the constant false, or true if it
asks for an item that is not in it. -/
def settled (s : Scope) : Expr → Expr
  | unary .not e => unary .not (settled s e)
  | binary .and l r => binary .and (settled s l) (settled s r)
  | binary .or l r => binary .or (settled s l) (settled s r)
  | e => match e.membership? s with
    | some m => if m.collection.isEmptyCollection then constant (.bool m.negated) else e
    | none => e

/-- Whether an expression asks a database for an item in an empty collection. -/
def isEmptyTest (s : Scope) (e : Expr) : Bool :=
  (e.atHand? s).isNone && (e.membership? s).any fun m => !m.negated && m.collection.isEmptyCollection

/-- Whether an expression asks a database about a collection of just null, for an item in it or for one that is not. -/
def isNullTest (s : Scope) (negated : Bool) (e : Expr) : Bool :=
  (e.atHand? s).isNone && (e.membership? s).any fun m => m.negated == negated && m.collection.isJustNull

/-- Whether an expression is emitted like a test over nothing although it is about a collection of just null: it asks for
an item in the collection, or it is the negation of the test for one that is not in it. -/
def looksEmpty (s : Scope) : Expr → Bool
  | unary .not e => e.isNullTest s true
  | e => e.isNullTest s false

/-- No `not` stands right before a test over just null that looks like one over nothing. -/
def KeepsNull (s : Scope) : Expr → Prop
  | unary .not e => e.looksEmpty s = false ∧ KeepsNull s e
  | binary .and l r | binary .or l r => KeepsNull s l ∧ KeepsNull s r
  | _ => True

/-- Every empty test that a database is asked has a `not` right before it or an even number of them
around it; `even` tells about those passed. -/
def Upright (s : Scope) : Bool → Expr → Prop
  | even, unary .not e => e.isEmptyTest s = true ∨ Upright s (!even) e
  | even, binary .and l r | even, binary .or l r => Upright s even l ∧ Upright s even r
  | even, e => e.isEmptyTest s = true → even = true

/-- The predicates: tests of numbers and truth values, membership tests, and what the connectives
make of them. -/
inductive Filter (s : Scope) : Expr → Prop
  | test {e : Expr} (h : e.Typed s .truth) : Filter s e
  | not {e : Expr} (h : Filter s e) : Filter s (unary .not e)
  | logical {op : BinaryOp} {l r : Expr} (hop : op = .and ∨ op = .or) (hl : Filter s l)
    (hr : Filter s r) : Filter s (binary op l r)
  | contains {item collection : Expr} {type : Option String} (h : Comparable s item collection) :
    Filter s (call (some collection) type "Contains" [item])
  | isIn {item collection : Expr} {method : String} {negated : Bool}
    (hm : s.compiler.translations.methodOf? "Sql" method (.exactly 2) = some (.isIn negated))
    (h : Comparable s item collection) : Filter s (call none (some "Sql") method [item, collection])

end Expr

/-! ## What is planned for a predicate -/

/-- Whether a database finds that a node is true. -/
def Node.IsTrue (row : Contents) (n : Node) : Prop :=
  n.toPredicate.cell? row = some (.ofTruth (some true))

/-- A node is true if its cell says so. -/
private theorem Node.isTrue_iff {n : Node} {t : Truth} (h : n.cell? row = some (.ofTruth t)) :
    n.IsTrue row ↔ t = some true := by
  rw [Node.IsTrue, Node.cell?_toPredicate h]
  refine ⟨fun heq => ?_, fun ht => by rw [ht]⟩
  rw [← Cell.truth_ofTruth t, Option.some.inj heq, Cell.truth_ofTruth]

/-- A test is a test already. -/
theorem Node.Tests.toPredicate {n : Node} {t : Truth} (h : n.Tests row t) :
    n.toPredicate.Tests row t := by
  unfold Node.toPredicate
  rw [if_pos h.predicate]
  exact h

/-- What is known of the node of an expression: its outcome, that the opposite may be taken of it
unless it looks for something in nothing or in null, and its form if it looks for it in nothing, or for what is
not in null, of which the opposite may be taken once. -/
structure Node.Emitted (s : Scope) (row : Contents) (e : Expr) (t : Truth) (n : Node) : Prop where
  cell : n.cell? row = some (.ofTruth t)
  tests : e.isEmptyTest s = false → e.looksEmpty s = false →
    n.toPredicate.Tests row t ∨ e.isNullTest s true = true ∧ ∃ item, n = .inList item [.null] true
  empty : e.isEmptyTest s = true → ∃ item, n = .inList item [.null] false

/-- An expression is planned as a test with an outcome, and evaluating it comes upon no fault. -/
structure Expr.Emits (s : Scope) (row : Contents) (e : Expr) (t : Truth) : Prop where
  faultless : e.origin s.compiler.translations ≠ .sql → (Host.value e).Faultless
  planned : ∀ p, ∃ n, (operand e).value.Gives s p n p ∧ n.Emitted s row e t

namespace Expr

/-- What is no membership test is planned as a node whose opposite may be taken. -/
theorem Emits.of_tests {t : Truth} (hm : e.membership? s = none)
    (hf : e.origin s.compiler.translations ≠ .sql → (Host.value e).Faultless)
    (h : ∀ p, ∃ n, (operand e).value.Gives s p n p ∧ n.cell? row = some (.ofTruth t) ∧
      n.toPredicate.Tests row t) : e.Emits s row t := by
  refine ⟨hf, fun p => ?_⟩
  obtain ⟨n, hn, hc, ht⟩ := h p
  exact ⟨n, hn, hc, fun _ _ => .inl ht, by simp [isEmptyTest, hm]⟩

/-- A truth value at hand is planned as a test of its own. -/
theorem gives_of_atHand {b : Bool} (h : e.atHand? s = some (.bool b)) (p : Progress) :
    ∃ n, (operand e).value.Gives s p n p ∧ n.cell? row = some (.ofTruth (some b)) ∧
      n.toPredicate.Tests row (some b) := by
  obtain ⟨lower, hlower⟩ := operand_value e
  obtain ⟨n, hn, hden, -⟩ := @Lowering.gives_atHand s row .truth p (.bool b) (.bool b) rfl trivial
    (e.origin s.compiler.translations)
  refine ⟨n, ?_, hden.cell, hden.tests trivial⟩
  rw [hlower]
  exact Lowering.gives_folded_of_atHand h hn

/-- A truth value at hand is emitted. -/
theorem Emits.of_atHand {b : Bool} (h : e.atHand? s = some (.bool b)) : e.Emits s row (some b) := by
  refine ⟨fun _ => ?_, fun p => ?_⟩
  · rw [(atHand?_eq_some.mp h).2.2]
    exact .ok _
  · obtain ⟨n, hn, hc, ht⟩ := @gives_of_atHand _ row _ _ h p
    exact ⟨n, hn, hc, fun _ _ => .inl ht, by simp [isEmptyTest, h]⟩

/-- The outcome of a truth value at hand is that value. -/
theorem Emits.eq_of_atHand {t : Truth} {b : Bool} (h : e.Emits s row t)
    (hv : e.atHand? s = some (.bool b)) : t = some b := by
  obtain ⟨n, hn, hem⟩ := h.planned {}
  obtain ⟨m, hm, hc, -⟩ := @gives_of_atHand _ row _ _ hv {}
  obtain rfl := (hn.unique hm).1
  rw [← Cell.truth_ofTruth t, Option.some.inj (hem.cell.symm.trans hc), Cell.truth_ofTruth]

/-- A test of numbers and truth values has the outcome that it means. -/
theorem Emits.of_typed (hf : row.Fits s) (h : e.Typed s .truth) :
    e.Emits s row (e.meaning s row).truth := by
  have hk := hasKind_meaning hf h
  refine .of_tests (by cases h <;> rfl) (h.faultless hf) fun p => ?_
  obtain ⟨⟨n, hn, hex⟩, -⟩ := lowers_of_typed (p := p) hf h
  exact ⟨n, hn, by rw [hex.denotes.cell, Datum.cell_of_truth hk], hex.denotes.tests hk⟩

/-! ### Connectives -/

/-- A value at hand of a negation is the opposite of the one of its operand. -/
theorem atHand?_not {v : Value} (h : (unary .not e).atHand? s = some v) :
    ∃ b, e.atHand? s = some (.bool b) ∧ v = .bool !b := by
  obtain ⟨ho, hc, hv⟩ := atHand?_eq_some.mp h
  rw [Host.value, Host.evaluate] at hv
  obtain ⟨w, hw, hnot⟩ := Except.bind_eq_ok.mp hv
  cases w <;> cases hnot
  exact ⟨_, atHand?_eq_some.mpr ⟨ho, hc, hw⟩, rfl⟩

/-- A value at hand of a connective is decided by the first operand, or it is that of both.

**Proof sketch.** Evaluation starts with the first operand. It stops there if this one decides, and otherwise the
second one has a value as well, which is at hand as neither operand is left to the database. -/
theorem atHand?_logical {op : BinaryOp} {l r : Expr} {v : Value} (hop : op = .and ∨ op = .or)
    (h : (binary op l r).atHand? s = some v) :
    ∃ a c, l.atHand? s = some (.bool a) ∧ v = .bool c ∧
      ((∀ u, Truth.connect op (some a) u = some c) ∨
        ∃ b, r.atHand? s = some (.bool b) ∧ Truth.connect op (some a) (some b) = some c) := by
  obtain ⟨ho, hc, hv⟩ := atHand?_eq_some.mp h
  obtain ⟨hol, hor⟩ := not_or.mp fun ho' => ho (Origin.max_eq_sql.mpr ho')
  obtain ⟨hcl, hcr⟩ : (s.compiler.options.foldCalls || !l.containsCall) = true ∧
      (s.compiler.options.foldCalls || !r.containsCall) = true := by
    rw [containsCall, Bool.not_or, Bool.or_and_distrib_left, Bool.and_eq_true] at hc
    exact hc
  obtain rfl | rfl := hop <;> rw [Host.value, Host.evaluate] at hv <;>
    obtain ⟨w, hw, hafter⟩ := Except.bind_eq_ok.mp hv <;>
    obtain ⟨a, ha, hchoice⟩ := Except.bind_eq_ok.mp hafter <;>
    cases w <;> cases ha <;>
    have hl := atHand?_eq_some.mpr ⟨hol, hcl, hw⟩ <;>
    cases a
  case inl.bool.refl.false => exact ⟨_, _, hl, (Except.pure_eq_ok.mp hchoice).symm, .inl fun u => rfl⟩
  case inr.bool.refl.true => exact ⟨_, _, hl, (Except.pure_eq_ok.mp hchoice).symm, .inl fun u => rfl⟩
  all_goals
    rw [if_neg (by decide)] at hchoice
    obtain ⟨w', hw', hlast⟩ := Except.bind_eq_ok.mp hchoice
    obtain ⟨b, hb, hresult⟩ := Except.bind_eq_ok.mp hlast
    cases w' <;> cases hb
    refine ⟨_, _, hl, (Except.pure_eq_ok.mp hresult).symm, .inr ⟨b, ?_, ?_⟩⟩
    · exact atHand?_eq_some.mpr ⟨hor, hcr, hw'⟩
    · cases b <;> rfl

/-- A conjunction or disjunction has no faults if its sides have none. -/
private theorem faultless_logical {op : BinaryOp} {l r : Expr} (hop : op = .and ∨ op = .or)
    (hl : (Host.value l).Faultless) (hr : (Host.value r).Faultless) :
    (Host.value (binary op l r)).Faultless := by
  obtain rfl | rfl := hop <;> rw [Host.value, Host.evaluate] <;>
    refine hl.bind fun v _ => (Evaluation.Faultless.ofOption _).bind fun a _ => ?_ <;>
    cases a <;>
    first
    | exact .ok _
    | exact hr.bind fun w _ => (Evaluation.Faultless.ofOption _).bind fun b _ => .ok _

/-- A connective has the outcome of its operands, evaluated at compile time or not.

**Proof sketch.** If the connective has a value at hand, this is that of its operands' outcomes. Otherwise both
operands are planned, and so is the connective of their predicates. -/
theorem Emits.logical {op : BinaryOp} {l r : Expr} {t u : Truth} (hop : op = .and ∨ op = .or)
    (hl : l.Emits s row t) (hr : r.Emits s row u) :
    (binary op l r).Emits s row (Truth.connect op t u) := by
  have hfl : (binary op l r).origin s.compiler.translations ≠ .sql →
      (Host.value (binary op l r)).Faultless := by
    intro ho
    obtain ⟨hol, hor⟩ := not_or.mp fun ho' => ho (Origin.max_eq_sql.mpr ho')
    exact faultless_logical hop (hl.faultless hol) (hr.faultless hor)
  cases hv : (binary op l r).atHand? s with
  | some v =>
    obtain ⟨a, c, ha, rfl, hc⟩ := atHand?_logical hop hv
    obtain rfl := hl.eq_of_atHand ha
    have hout : Truth.connect op (some a) u = some c := by
      obtain hc | ⟨b, hb, hc⟩ := hc
      · exact hc u
      · rw [hr.eq_of_atHand hb, hc]
    rw [hout]
    exact .of_atHand hv
  | none =>
    refine .of_tests rfl hfl fun p => ?_
    obtain ⟨m, hm, hml⟩ := hl.planned p
    obtain ⟨n, hn, hnr⟩ := hr.planned p
    -- neither operand is evaluated away, so both are planned
    have hne : op ≠ .coalesce := by obtain rfl | rfl := hop <;> simp
    have ht : (Node.logical (if op = .or then .or else .and) m n).Tests row (Truth.connect op t u) := by
      obtain rfl | rfl := hop <;> refine ⟨rfl, rfl, ?_, trivial⟩ <;>
        rw [Node.logical, Node.cell?, Node.cell?_toPredicate hml.cell, Node.cell?_toPredicate hnr.cell] <;>
        simp [SqlOp.compute?, Truth.connect]
    refine ⟨_, ?_, ht.cell, ht.toPredicate⟩
    rw [operand_binary hne]
    refine Lowering.gives_folded_of_none hv hfl (Lowering.gives_binary hne hm hn ?_)
    obtain rfl | rfl := hop <;> rfl

/-- A negation has no faults if its operand has none. -/
private theorem faultless_not (h : (Host.value e).Faultless) : (Host.value (unary .not e)).Faultless := by
  rw [Host.value, Host.evaluate]
  exact h.bind fun v _ => .ofOption _

/-- A negation that is left to the database is the opposite of the planned test. -/
theorem gives_not {n : Node} (h : (unary .not e).atHand? s = none)
    (hf : e.origin s.compiler.translations ≠ .sql → (Host.value e).Faultless)
    (hn : (operand e).value.Gives s p n p) :
    (operand (unary .not e)).value.Gives s p n.toPredicate.negation p := by
  rw [operand]
  refine Lowering.gives_folded_of_none h (fun ho => faultless_not (hf ho)) ?_
  exact gives_bind.mpr ⟨n, p, hn, gives_pure.mpr ⟨rfl, rfl⟩⟩

/-- A negation has the opposite outcome, tests aside that are over nothing or look as if they were. -/
theorem Emits.not {t : Truth} (h : e.Emits s row t) (he : e.isEmptyTest s = false)
    (hn : e.looksEmpty s = false) : (unary .not e).Emits s row t.not := by
  cases hv : (unary .not e).atHand? s with
  | some v =>
    obtain ⟨b, hb, rfl⟩ := atHand?_not hv
    obtain rfl := h.eq_of_atHand hb
    exact .of_atHand hv
  | none =>
    refine ⟨fun ho => faultless_not (h.faultless ho), fun p => ?_⟩
    obtain ⟨n, hgn, hem⟩ := h.planned p
    have hempty : (unary .not e).isEmptyTest s = false := by simp [isEmptyTest, membership?]
    refine ⟨_, gives_not hv h.faultless hgn, ?_⟩
    obtain ht | ⟨hnull, item, rfl⟩ := hem.tests he hn
    · have hopposite := ht.negation
      exact ⟨hopposite.cell, fun _ _ => .inl hopposite.toPredicate, fun htest => absurd htest (by simp [hempty])⟩
    · -- its opposite looks like a test over nothing, so no further one is taken
      refine ⟨Node.cell?_inList_not hem.cell, fun _ hlooks => ?_, fun htest => absurd htest (by simp [hempty])⟩
      rw [looksEmpty, hnull] at hlooks
      cases hlooks

/-- A test over nothing is never true, and a `not` right before it makes it one that always is. -/
theorem Emits.not_empty {t : Truth} (h : e.Emits s row t) (he : e.isEmptyTest s = true) :
    (unary .not e).Emits s row (some true) := by
  cases hv : (unary .not e).atHand? s with
  | some v =>
    obtain ⟨b, hb, -⟩ := atHand?_not hv
    simp [isEmptyTest, hb] at he
  | none =>
    refine .of_tests rfl (fun ho => faultless_not (h.faultless ho)) fun p => ?_
    obtain ⟨n, hn, hem⟩ := h.planned p
    obtain ⟨item, rfl⟩ := hem.empty he
    exact ⟨_, gives_not hv h.faultless hn, rfl, rfl, rfl, rfl, trivial⟩

/-! ### Membership tests -/

variable {item collection : Expr}

/-- A membership test looks like one over nothing if it asks for an item in a collection of just null. -/
theorem looksEmpty_of_membership {m : MembershipTest} (hm : e.membership? s = some m) :
    e.looksEmpty s = e.isNullTest s false := by
  unfold looksEmpty
  split
  · cases hm
  · rfl

/-- An expression that is planned as a membership test is emitted as one. -/
theorem Comparable.emits (hpolicy : s.compiler.options.emptyIn = .alwaysFalse) (hf : row.Fits s)
    (h : Comparable s item collection) {negated : Bool}
    (hm : e.membership? s = some ⟨item, collection, negated⟩) (hv : e.atHand? s = none)
    (hfl : e.origin s.compiler.translations ≠ .sql → (Host.value e).Faultless)
    (hop : ∀ p n, (Lowering.membership (operand collection) (operand item) negated).Gives s p n p →
      (operand e).value.Gives s p n p) :
    e.Emits s row (MembershipTest.emitted s row ⟨item, collection, negated⟩) := by
  refine ⟨hfl, fun p => ?_⟩
  obtain ⟨n, hn, hc, ht, hempty⟩ := h.gives_emitted hpolicy hf negated p
  have he : e.isEmptyTest s = (collection.isEmptyCollection && !negated) := by
    simp [isEmptyTest, hv, hm, Bool.and_comm]
  refine ⟨n, hop p n hn, hc, fun hne hlooks => ?_, fun h => hempty (he ▸ h)⟩
  obtain ht | ⟨hjust, i, rfl⟩ := ht (he ▸ hne)
  · exact .inl ht.toPredicate
  · have hnull : e.isNullTest s negated = true := by simp [isNullTest, hv, hm, hjust]
    cases negated with
    | true => exact .inr ⟨hnull, i, rfl⟩
    | false =>
      rw [looksEmpty_of_membership hm, hnull] at hlooks
      cases hlooks

/-! ## Outcomes -/

/-- A test of numbers and truth values has the outcome that it means. -/
theorem outcome_of_typed (h : e.Typed s k) (hk : k = .truth) :
    e.outcome s row = (e.meaning s row).truth := by
  induction h with
  | not _ ih => rw [outcome, ih rfl, meaning, Datum.truth_ofTruth]
  | logical hop _ _ ihl ihr =>
    obtain rfl | rfl := hop <;> rw [outcome, ihl rfl, ihr rfl, meaning, Datum.truth_ofTruth]
  | @comparison op l r hop _ _ _ _ => cases op <;> first | cases hop; done | rfl
  | @equality op l r hop _ _ _ _ => obtain rfl | rfl := hop <;> rfl
  | arithmetic _ _ _ _ _ | negate _ _ => cases hk
  | _ => rfl

/-- The outcome of a conjunction or disjunction is that of its sides' outcomes. -/
private theorem outcome_logical {op : BinaryOp} {l r : Expr} (hop : op = .and ∨ op = .or) :
    (binary op l r).outcome s row = Truth.connect op (l.outcome s row) (r.outcome s row) := by
  obtain rfl | rfl := hop <;> rfl

/-- A membership test is no connective and no test of numbers and truth values. -/
theorem outcome_of_membership {m : MembershipTest} (hm : e.membership? s = some m) :
    e.outcome s row = (e.atHand? s).elim (m.outcome s row) Value.toBool? := by
  unfold outcome
  split
  case _ | _ | _ => cases hm
  next => rw [hm]; cases e.atHand? s <;> rfl

/-- What a predicate looks for something in is a collection. -/
theorem Filter.collects {m : MembershipTest} (h : e.Filter s) (hm : e.membership? s = some m) :
    ∃ k, m.collection.Collects s k := by
  cases h with
  | test h =>
    rw [membership?_of_typed h] at hm
    cases hm
  | not _ | logical _ _ _ => cases hm
  | contains h =>
    cases hm
    exact h.collects
  | isIn hmethod h =>
    rw [membership?_isIn hmethod] at hm
    cases hm
    exact h.collects

/-- The outcome of a test over nothing that a database is asked. -/
theorem Filter.outcome_of_isEmptyTest (h : e.Filter s) (he : e.isEmptyTest s = true) :
    e.outcome s row = some false := by
  simp only [isEmptyTest, Bool.and_eq_true, Option.isNone_iff_eq_none, Option.any_eq_true,
    Bool.not_eq_true'] at he
  obtain ⟨hv, m, hm, hneg, hempty⟩ := he
  obtain ⟨k, hc⟩ := h.collects hm
  rw [outcome_of_membership hm, hv, Option.elim_none,
    MembershipTest.outcome_of_isEmptyCollection hc hempty, hneg]

/-- An expression is emitted with an outcome that it has. If it stands where an outcome matters,
that one is emitted whenever the expression has it. -/
def Approximates (s : Scope) (row : Contents) (e : Expr) : Prop :=
  ∃ t, e.Emits s row t ∧ (∀ b, t = some b → e.outcome s row = some b) ∧
    ∀ even, e.Upright s even → e.outcome s row = some even → t = some even

/-- A membership test is emitted with its outcome, or as unknown where that is false.

**Proof sketch.** A test with a value at hand is emitted as this value. Otherwise it is emitted as it is, and only a
test of an empty collection that is not negated is unknown instead of false, which does no harm under an even number
of negations. -/
theorem Comparable.approximates (hpolicy : s.compiler.options.emptyIn = .alwaysFalse)
    (hf : row.Fits s) (h : Comparable s item collection) {negated : Bool}
    (hm : e.membership? s = some ⟨item, collection, negated⟩)
    (hbool : ∀ v, e.atHand? s = some v → ∃ b, v = .bool b)
    (hfl : e.origin s.compiler.translations ≠ .sql → (Host.value e).Faultless)
    (hop : e.atHand? s = none → ∀ p n,
      (Lowering.membership (operand collection) (operand item) negated).Gives s p n p →
        (operand e).value.Gives s p n p)
    (hup : ∀ even, e.Upright s even → e.isEmptyTest s = true → even = true) :
    e.Approximates s row := by
  have hout := @outcome_of_membership _ row _ _ hm
  cases hv : e.atHand? s with
  | some v =>
    obtain ⟨b, rfl⟩ := hbool v hv
    rw [hv] at hout
    exact ⟨some b, .of_atHand hv, fun _ hb => hb ▸ hout, fun _ _ hb => hb ▸ hout.symm⟩
  | none =>
    rw [hv] at hout
    refine ⟨_, h.emits hpolicy hf hm hv hfl (hop hv), ?_⟩
    have he : e.isEmptyTest s = (collection.isEmptyCollection && !negated) := by
      simp [isEmptyTest, hv, hm, Bool.and_comm]
    rw [hout, Option.elim_none, MembershipTest.emitted]
    split
    · next hempty =>
      refine ⟨nofun, fun even hu hb => ?_⟩
      obtain ⟨k, hc⟩ := h.collects
      obtain ⟨hempty', hneg⟩ := Bool.and_eq_true_iff.mp hempty
      obtain rfl := hup even hu (he.trans hempty)
      rw [MembershipTest.outcome_of_isEmptyCollection hc hempty'] at hb
      rw [Bool.not_eq_true'] at hneg
      exact absurd (hneg.symm.trans (Option.some.inj hb)) Bool.false_ne_true
    · exact ⟨fun _ hb => hb, fun _ _ hb => hb⟩

/-- **What is emitted for a predicate.** It has no outcome that the predicate does not have, and it is
true whenever the predicate is if its empty tests are upright.

**Proof sketch.** By induction on the predicate. What is not known of an empty test is not known
further out, unless another operand decides; and a `not` right before the test is emitted as a test
that always holds, which is the opposite of the outcome over nothing. An upright predicate is
followed to where truth, under an odd number of negations falsehood, is needed of a part: an empty
test is never needed to be false. -/
theorem Filter.approximates (hpolicy : s.compiler.options.emptyIn = .alwaysFalse) (hf : row.Fits s)
    (h : e.Filter s) (hn : e.KeepsNull s) : e.Approximates s row := by
  induction h with
  | test h =>
    have hout := @outcome_of_typed _ row _ _ h rfl
    exact ⟨_, .of_typed hf h, fun _ hb => hout.trans hb, fun _ _ hb => hout.symm.trans hb⟩
  | @not e h ih =>
    obtain ⟨hnull, hkeeps⟩ := hn
    obtain ⟨t, ht, hbelow, hupright⟩ := ih hkeeps
    cases he : e.isEmptyTest s with
    | true =>
      have hout : (unary .not e).outcome s row = some true := by
        rw [outcome, h.outcome_of_isEmptyTest he]
        rfl
      exact ⟨_, ht.not_empty he, fun _ hb => hout.trans hb, fun _ _ hb => hout.symm.trans hb⟩
    | false =>
      refine ⟨_, ht.not he hnull, fun b hb => ?_, fun even hu hb => ?_⟩
      · rw [Truth.not_eq_some] at hb
        rw [outcome, Truth.not_eq_some, hbelow _ hb]
      · rw [outcome, Truth.not_eq_some] at hb
        rw [Truth.not_eq_some]
        exact hupright _ (hu.resolve_left (by simp [he])) hb
  | @logical op l r hop _ _ ihl ihr =>
    obtain ⟨hkl, hkr⟩ : l.KeepsNull s ∧ r.KeepsNull s := by obtain rfl | rfl := hop <;> exact hn
    obtain ⟨t, htl, hbelowl, hul⟩ := ihl hkl
    obtain ⟨u, htr, hbelowr, hur⟩ := ihr hkr
    refine ⟨_, htl.logical hop htr, ?_, fun even hu => ?_⟩ <;> rw [outcome_logical hop]
    · exact fun b => Truth.connect_mono (hbelowl b) (hbelowr b)
    · obtain ⟨hel, her⟩ : l.Upright s even ∧ r.Upright s even := by
        obtain rfl | rfl := hop <;> exact hu
      exact Truth.connect_mono (hul even hel) (hur even her)
  | @contains item collection type h =>
    have hfl := @Comparable.faultless_contains _ _ _ _ hf h type
    obtain ⟨k, hc⟩ := h.collects
    refine h.approximates hpolicy hf rfl (fun v hv => ?_) hfl
      (fun hv _ _ => gives_contains hc hv hfl) fun _ hu => hu
    obtain ⟨b, rfl, -⟩ := h.atHand?_contains hv
    exact ⟨b, rfl⟩
  | @isIn item collection method negated hm h =>
    have ho : (call none (some "Sql") method [item, collection]).origin s.compiler.translations =
        .sql := by
      rw [origin, if_pos rfl]
    exact h.approximates hpolicy hf (membership?_isIn hm) (by simp [atHand?, ho])
      (fun hne => absurd ho hne) (fun _ _ _ => gives_isIn hm) fun _ hu => hu

/-! ## Constants for empty tests -/

/-- Nothing is settled in what tests no membership. -/
private theorem settled_of_typed (h : e.Typed s k) : e.settled s = e := by
  induction h with
  | not _ ih => rw [settled, ih]
  | logical hop _ _ ihl ihr => obtain rfl | rfl := hop <;> rw [settled, ihl, ihr]
  | @comparison op l r hop _ _ _ _ | @arithmetic op l r hop _ _ _ _ =>
    cases op <;> first | cases hop; done | rfl
  | @equality op l r hop _ _ _ _ => obtain rfl | rfl := hop <;> rfl
  | _ => rfl

/-- The sides of a conjunction or disjunction are settled one by one. -/
private theorem settled_logical {op : BinaryOp} {l r : Expr} (hop : op = .and ∨ op = .or) :
    (binary op l r).settled s = binary op (l.settled s) (r.settled s) := by
  obtain rfl | rfl := hop <;> rfl

/-- A membership test of an empty collection is settled as a constant. -/
private theorem settled_of_membership {m : MembershipTest} (hm : e.membership? s = some m) :
    e.settled s =
      if m.collection.isEmptyCollection then constant (.bool m.negated) else e := by
  unfold settled
  split
  case _ | _ | _ => cases hm
  next => rw [hm]

/-- A predicate in which no database is asked about nothing, or about just null below a `not`. -/
structure IsSettled (s : Scope) (e : Expr) : Prop where
  filter : e.Filter s
  keepsNull : e.KeepsNull s
  upright : ∀ even, e.Upright s even

/-- What is no membership test is no test of an empty collection. -/
private theorem isEmptyTest_of_none (h : e.membership? s = none) : e.isEmptyTest s = false := by
  simp [isEmptyTest, h]

/-- What is no membership test is no test of a null alone. -/
private theorem isNullTest_of_none {negated : Bool} (h : e.membership? s = none) : e.isNullTest s negated = false := by
  simp [isNullTest, h]

/-- What tests no membership does not look like a test of an empty collection. -/
private theorem looksEmpty_of_typed (h : e.Typed s k) : e.looksEmpty s = false := by
  cases h with
  | not h => exact isNullTest_of_none (membership?_of_typed h)
  | _ => exact isNullTest_of_none rfl

/-- The opposite of a settled predicate is settled. -/
theorem IsSettled.not (h : e.IsSettled s) (hn : e.looksEmpty s = false) :
    (unary .not e).IsSettled s :=
  ⟨.not h.filter, ⟨hn, h.keepsNull⟩, fun even => .inr (h.upright !even)⟩

/-- A connective of settled predicates is settled. -/
theorem IsSettled.logical {op : BinaryOp} {l r : Expr} (hop : op = .and ∨ op = .or)
    (hl : l.IsSettled s) (hr : r.IsSettled s) : (binary op l r).IsSettled s := by
  refine ⟨.logical hop hl.filter hr.filter, ?_, fun even => ?_⟩ <;> obtain rfl | rfl := hop
  · exact ⟨hl.keepsNull, hr.keepsNull⟩
  · exact ⟨hl.keepsNull, hr.keepsNull⟩
  · exact ⟨hl.upright even, hr.upright even⟩
  · exact ⟨hl.upright even, hr.upright even⟩

/-- What tests no membership keeps its nulls. -/
private theorem Typed.keepsNull (h : e.Typed s k) : e.KeepsNull s := by
  induction h with
  | not he ih => exact ⟨looksEmpty_of_typed he, ih⟩
  | logical hop _ _ ihl ihr => obtain rfl | rfl := hop <;> exact ⟨ihl, ihr⟩
  | @comparison op l r hop _ _ _ _ | @arithmetic op l r hop _ _ _ _ =>
    cases op <;> first | cases hop; done | trivial
  | @equality op l r hop _ _ _ _ => obtain rfl | rfl := hop <;> trivial
  | _ => trivial

/-- What tests no membership stands upright. -/
private theorem Typed.upright (h : e.Typed s k) (even : Bool) : e.Upright s even := by
  have hleaf : ∀ {e' : Expr}, e'.membership? s = none → e'.isEmptyTest s = true → even = true :=
    fun hm he => absurd he (by simp [isEmptyTest_of_none hm])
  induction h generalizing even with
  | not _ ih => exact .inr (ih _ fun hm he => absurd he (by simp [isEmptyTest_of_none hm]))
  | logical hop _ _ ihl ihr =>
    obtain rfl | rfl := hop <;> exact ⟨ihl even hleaf, ihr even hleaf⟩
  | @comparison op l r hop _ _ _ _ | @arithmetic op l r hop _ _ _ _ =>
    cases op <;> first | cases hop; done | exact hleaf rfl
  | @equality op l r hop _ _ _ _ => obtain rfl | rfl := hop <;> exact hleaf rfl
  | _ => exact hleaf rfl

/-- What tests no membership is settled. -/
private theorem IsSettled.of_typed (h : e.Typed s .truth) : e.IsSettled s := ⟨.test h, h.keepsNull, h.upright⟩

/-- A membership test is settled as a constant, or stays as it is. -/
theorem IsSettled.of_membership {m : MembershipTest} (h : e.Filter s) (hm : e.membership? s = some m)
    (hk : e.KeepsNull s) (hu : ∀ even, (e.isEmptyTest s = true → even = true) → e.Upright s even) :
    (e.settled s).IsSettled s := by
  rw [settled_of_membership hm]
  split
  · exact .of_typed (.constant rfl trivial)
  · next he =>
    have hne : e.isEmptyTest s = false := by simp [isEmptyTest, hm, he]
    exact ⟨h, hk, fun even => hu even (by simp [hne])⟩

/-- Settling makes no test of a null alone. -/
private theorem Filter.isNullTest_settled (h : e.Filter s) {negated : Bool} (hn : e.isNullTest s negated = false) :
    (e.settled s).isNullTest s negated = false := by
  cases hm : e.membership? s with
  | some m =>
    rw [settled_of_membership hm]
    split
    · exact isNullTest_of_none rfl
    · exact hn
  | none =>
    cases h with
    | test h => rwa [settled_of_typed h]
    | not _ => exact isNullTest_of_none rfl
    | logical hop _ _ => exact isNullTest_of_none (by rw [settled_logical hop]; rfl)
    | contains _ => cases hm
    | isIn hmethod _ =>
      rw [membership?_isIn hmethod] at hm
      cases hm

/-- Constants for empty tests look like no test. -/
theorem Filter.looksEmpty_settled (h : e.Filter s) (hn : e.looksEmpty s = false) :
    (e.settled s).looksEmpty s = false := by
  have hmembership {m : MembershipTest} (hm : e.membership? s = some m) : (e.settled s).looksEmpty s = false := by
    rw [settled_of_membership hm]
    split
    · exact isNullTest_of_none rfl
    · exact hn
  cases h with
  | test h => rwa [settled_of_typed h]
  | not h => exact h.isNullTest_settled hn
  | logical hop _ _ =>
    rw [settled_logical hop]
    exact isNullTest_of_none rfl
  | contains _ => exact hmembership rfl
  | isIn hmethod _ => exact hmembership (membership?_isIn hmethod)

/-- With constants for its empty tests, a predicate is settled. -/
theorem Filter.isSettled (h : e.Filter s) (hn : e.KeepsNull s) : (e.settled s).IsSettled s := by
  induction h with
  | test h =>
    rw [settled_of_typed h]
    exact .of_typed h
  | not h ih =>
    obtain ⟨hnull, hkeeps⟩ := hn
    exact (ih hkeeps).not (h.looksEmpty_settled hnull)
  | @logical op l r hop _ _ ihl ihr =>
    obtain ⟨hkl, hkr⟩ : l.KeepsNull s ∧ r.KeepsNull s := by obtain rfl | rfl := hop <;> exact hn
    rw [settled_logical hop]
    exact (ihl hkl).logical hop (ihr hkr)
  | contains h => exact .of_membership (.contains h) rfl hn fun _ hu => hu
  | isIn hm h => exact .of_membership (.isIn hm h) (membership?_isIn hm) hn fun _ hu => hu

/-- A constant for a test over nothing has the outcome of the test. -/
theorem Filter.outcome_settled_of_membership {m : MembershipTest} (h : e.Filter s)
    (hm : e.membership? s = some m)
    (hv : m.collection.isEmptyCollection = true → ∀ v, e.atHand? s = some v →
      v = .bool m.negated) : (e.settled s).outcome s row = e.outcome s row := by
  obtain ⟨k, hc⟩ := h.collects hm
  rw [settled_of_membership hm]
  split
  · next he =>
    rw [outcome_of_membership hm]
    cases hvalue : e.atHand? s with
    | some v =>
      rw [hv he v hvalue]
      rfl
    | none => exact (MembershipTest.outcome_of_isEmptyCollection hc he).symm
  · rfl

/-- Constants for its empty tests do not change the outcome of a predicate. -/
theorem Filter.outcome_settled (h : e.Filter s) :
    (e.settled s).outcome s row = e.outcome s row := by
  induction h with
  | test h => rw [settled_of_typed h]
  | not _ ih => rw [settled, outcome, outcome, ih]
  | logical hop _ _ ihl ihr =>
    rw [settled_logical hop, outcome_logical hop, outcome_logical hop, ihl, ihr]
  | contains h =>
    refine Filter.outcome_settled_of_membership (.contains h) rfl fun he v hv => ?_
    obtain ⟨b, rfl, hb⟩ := h.atHand?_contains hv
    rw [hb he]
  | isIn hm h =>
    refine Filter.outcome_settled_of_membership (.isIn hm h) (membership?_isIn hm) fun _ v hv => ?_
    rw [atHand?_eq_some, origin, if_pos rfl] at hv
    exact absurd rfl hv.1

/-- A settled predicate is emitted with its outcome. -/
theorem IsSettled.emits (hpolicy : s.compiler.options.emptyIn = .alwaysFalse) (hf : row.Fits s)
    (h : e.IsSettled s) : e.Emits s row (e.outcome s row) := by
  obtain ⟨t, ht, hbelow, hupright⟩ := h.filter.approximates hpolicy hf h.keepsNull
  obtain rfl : t = e.outcome s row := by
    cases hout : e.outcome s row with
    | some b => exact hupright b (h.upright b) hout
    | none =>
      cases t with
      | none => rfl
      | some b => exact absurd ((hbelow b rfl).symm.trans hout) (by simp)
  exact ht

/-- **A predicate with tests over empty collections** is planned, and so is the predicate with
constants for these tests, of which a database finds the outcome. Only rows that this one is true of
are found to meet the predicate; all of them are if the empty tests are upright.

**Proof sketch.** By induction on the predicate, its node finds no more than the predicate with constants, and no less
where the empty tests are upright. That predicate has no empty tests left, so that its node finds exactly its outcome.
-/
theorem empty_tests_settle (hpolicy : s.compiler.options.emptyIn = .alwaysFalse)
    (hf : row.Fits s) (h : e.Filter s) (hn : e.KeepsNull s) (p : Progress) :
    ∃ n m, (operand e).value.Gives s p n p ∧ (operand (e.settled s)).value.Gives s p m p ∧
      m.toPredicate.cell? row = some (.ofTruth ((e.settled s).outcome s row)) ∧
      (n.IsTrue row → m.IsTrue row) ∧ (e.Upright s true → m.IsTrue row → n.IsTrue row) := by
  obtain ⟨t, ht, hbelow, hupright⟩ := h.approximates hpolicy hf hn
  obtain ⟨n, hgn, hen⟩ := ht.planned p
  obtain ⟨m, hgm, hem⟩ := ((h.isSettled hn).emits hpolicy hf).planned p
  have hout := @Filter.outcome_settled _ row _ h
  refine ⟨n, m, hgn, hgm, Node.cell?_toPredicate hem.cell, fun htrue => ?_, fun hu htrue => ?_⟩
  · rw [Node.isTrue_iff hen.cell] at htrue
    rw [Node.isTrue_iff hem.cell, hout]
    exact hbelow true htrue
  · rw [Node.isTrue_iff hem.cell, hout] at htrue
    rw [Node.isTrue_iff hen.cell]
    exact hupright true hu htrue

/-! ### Counters that are not listed -/

/-- The rows with a negative number that is none of `ids`, which is empty, and that is not in the empty
list that is written out. -/
def unlistedTotal : Expr :=
  .binary .and
    (.unary .not (.call (some (.captured "ids" (.list []))) none "Contains" [.member (.param "x") "Total"]))
    (.binary .and (.binary .lt (.member (.param "x") "Total") (.constant (.int 0)))
      (.call none (some "Sql") "NotIn" [.member (.param "x") "Total", .array []]))

/-- The predicate of the example is one of the filters. -/
private theorem unlistedTotal_filter : unlistedTotal.Filter counterScope := by
  have total : (Expr.member (.param "x") "Total").Typed counterScope .number := .member rfl rfl rfl
  have ids : (Expr.captured "ids" (.list [])).Collects counterScope .number :=
    .atHand (by decide) (value_captured _ _) nofun nofun
  exact .logical (.inl rfl) (.not (.contains (.typed total ids)))
    (.logical (.inl rfl) (.test (.comparison rfl total (.constant rfl trivial)))
      (.isIn rfl (.typed total (.array nofun))))

/-- A counter below zero that is not listed is found. -/
theorem unlistedTotal_isTrue :
    ∃ n, (operand unlistedTotal).value.Gives counterScope {} n {} ∧ n.IsTrue counterRow := by
  have keepsNull : unlistedTotal.KeepsNull counterScope := ⟨⟨rfl, trivial⟩, trivial, trivial⟩
  have upright : unlistedTotal.Upright counterScope true :=
    ⟨.inl rfl, fun _ => rfl, fun _ => rfl⟩
  obtain ⟨n, m, hn, -, hcell, -, hupright⟩ :=
    empty_tests_settle rfl counterRow_fits unlistedTotal_filter keepsNull {}
  have settled : (unlistedTotal.settled counterScope).outcome counterScope counterRow = some true := rfl
  rw [settled] at hcell
  exact ⟨n, hn, hupright upright hcell⟩

/-- Further out, a `not` leaves unknown what should be true. -/
example :
    ∃ n, (operand (.unary .not (.binary .and
        (.call (some (.captured "ids" (.list []))) none "Contains" [.member (.param "x") "Total"])
        (.binary .lt (.member (.param "x") "Total") (.constant (.int 0)))))).value.Gives
      counterScope {} n {} ∧ n.cell? counterRow = some none :=
  ⟨_, rfl, rfl⟩

end Expr

end LambdaSql
