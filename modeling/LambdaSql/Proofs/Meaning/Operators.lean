import LambdaSql.Plan.Lowering
import LambdaSql.Proofs.Meaning.Expr

/-!
# Operators on nodes and meaning

A node denotes a datum when a database computes it and the node's type says as much. The operators
on nodes turn nodes that denote data into a node that denotes the result of the operation.

## Main definitions

* `HostType.Admits` - a type has a kind, or nothing is known and there is no value.
* `Node.Denotes` - a node's value is a datum of a kind.
* `Node.Alternatives` - the first filled one of several nodes is a datum of a kind.

## Main results

* `Node.Denotes.logical`, `Node.denotes_comparison`, `Node.Denotes.arithmetic` - operators.
* `Node.Alternatives.append`, `Node.Alternatives.firstNotNull` - the first value that is not null.
* `Node.denotes_choice` - choices, with the branches of a nested one or without them.
-/

namespace LambdaSql

/-- A type has a kind, or nothing is known about it and the value is null. -/
def HostType.Admits (t : HostType) (k : Kind) (d : Datum) : Prop :=
  t.kind? = some k ∨ t = .unknown ∧ d = .null

namespace HostType

/-- The wider one of two types of numbers is one, and so is what is known of a number. -/
theorem kind?_widen {a b : HostType} (ha : a.kind? = some .number)
    (hb : b.kind? = some .number ∨ b = .unknown) : (a.widen b).kind? = some .number := by
  unfold widen
  split
  · next hlt =>
    obtain hb | rfl := hb
    · exact hb
    · simp [width] at hlt
  · exact ha

/-- The types of numbers and truth values are no types of times. -/
private theorem isTemporal_of_admits {t : HostType} {k : Kind} {d : Datum} (h : t.Admits k d) :
    t.isTemporal = false := by
  obtain h | ⟨rfl, -⟩ := h
  · cases t <;> first | rfl | cases h
  · rfl

/-- The types of numbers and truth values are no types of texts. -/
private theorem isString_of_admits {t : HostType} {k : Kind} {d : Datum} (h : t.Admits k d) :
    t.isString = false := by
  obtain h | ⟨rfl, -⟩ := h
  · cases t <;> first | rfl | cases h
  · rfl

/-- Types of numbers and truth values can be compared with all types. -/
theorem comparable_of_admits {t u : HostType} {k : Kind} {d : Datum} (h : t.Admits k d) :
    t.comparable u = .ok () := by
  obtain h | ⟨rfl, -⟩ := h
  · cases t <;> first | rfl | cases h
  · rfl

/-- The type of a sum, a difference or a product of numbers. -/
theorem admits_resultType {t u : HostType} {a b d : Datum} (ht : t.Admits .number a)
    (hu : u.Admits .number b) (hd : a = .null → d = .null) :
    (Node.resultType t u).Admits .number d := by
  unfold Node.resultType
  obtain ht | ⟨rfl, ha⟩ := ht
  · have hne : t ≠ .unknown := by
      rintro rfl
      cases ht
    rw [if_neg hne]
    exact .inl (kind?_widen ht (hu.imp id And.left))
  · rw [if_pos rfl]
    exact hu.imp id fun h => ⟨h.1, hd ha⟩

/-- The first known type is in the first part, or else in the second. -/
private theorem firstKnown_append (ts us : List HostType) :
    Node.firstKnown (ts ++ us) =
      if Node.firstKnown ts = .unknown then Node.firstKnown us else Node.firstKnown ts := by
  induction ts with
  | nil => rfl
  | cons t rest ih =>
    by_cases h : t = .unknown
    · simpa [Node.firstKnown, h] using ih
    · simp [Node.firstKnown, h]

/-- What is known of the first of two values that is not null. -/
theorem Admits.orElse {t u : HostType} {k : Kind} {a b : Datum} (ht : t.Admits k a)
    (hu : u.Admits k b) : (if t = .unknown then u else t).Admits k (a.orElse b) := by
  obtain ht | ⟨rfl, rfl⟩ := ht
  · have hne : t ≠ .unknown := by
      rintro rfl
      cases ht
    rw [if_neg hne]
    exact .inl ht
  · exact hu

/-- What is known of a value that is one of two. -/
theorem Admits.choose {t u : HostType} {k : Kind} {a b : Datum} (c : Prop) [Decidable c]
    (ht : t.Admits k a) (hu : u.Admits k b) :
    (if t = .unknown then u else t).Admits k (if c then a else b) := by
  obtain ht | ⟨rfl, rfl⟩ := ht
  · have hne : t ≠ .unknown := by
      rintro rfl
      cases ht
    rw [if_neg hne]
    exact .inl ht
  · rw [if_pos rfl]
    refine hu.imp id fun h => ⟨h.1, ?_⟩
    rw [h.2, ite_self]

end HostType

namespace Node

variable {row : Contents} {k : Kind}

/-- A node's value is a datum of a kind; its type, its form as a test and its form as a choice are
those of such a node. -/
structure Denotes (row : Contents) (k : Kind) (d : Datum) (n : Node) : Prop where
  cell : n.cell? row = some d.cell
  type : n.type.Admits k d
  test : n.isPredicate = true → n.type = .bool
  wellTested : k = .truth → n.WellTested row
  notTrue : k = .number → n.isTrueLiteral = false
  choice : ∀ branches otherwise t, n = .case branches otherwise t →
    t = firstKnown (branches.map (fun b => b.2.type) ++ [otherwise.type])

/-- A node that denotes a truth value as a test. -/
theorem Denotes.tests {d : Datum} {n : Node} (h : n.Denotes row .truth d)
    (hd : d.HasKind .truth) : n.toPredicate.Tests row d.truth :=
  tests_toPredicate (by rw [h.cell, Datum.cell_of_truth hd]) (h.wellTested rfl) h.test

/-- A test denotes its outcome. -/
theorem Tests.denotes {t : Truth} {n : Node} (h : n.Tests row t) :
    n.Denotes row .truth (.ofTruth t) where
  cell := by rw [h.cell, Datum.cell_ofTruth]
  type := .inl (by rw [h.type]; rfl)
  test := fun _ => h.type
  wellTested := fun _ => h.wellTested
  notTrue := nofun
  choice := by
    rintro _ _ _ rfl
    exact absurd h.predicate Bool.false_ne_true

/-- A column denotes what the row holds in it. -/
theorem denotes_column {a : Option String} {c : String} {t : HostType} (ht : t.kind? = some k) :
    (column a c t).Denotes row k (row a c) :=
  ⟨rfl, .inl ht, nofun, fun _ => trivial, fun _ => rfl, nofun⟩

/-- The type of a value is of its kind. -/
theorem admits_hostType {v : Value} {d : Datum} (hv : v.datum? = some d) (hd : d.HasKind k) :
    v.hostType.Admits k d := by
  cases v with
  | null => exact .inr ⟨rfl, (Option.some.inj hv).symm⟩
  | bool b =>
    cases hv
    cases k
    · exact .inl rfl
    · exact hd.elim
  | int n =>
    cases hv
    cases k
    · exact hd.elim
    · refine .inl ?_
      rw [Value.hostType, Value.intType]
      split <;> rfl
  | _ => cases hv

/-- A value that is written out denotes its datum. -/
theorem denotes_constant (dialect : Dialect) {v : Value} {d : Datum} (hv : v.datum? = some d)
    (hd : d.HasKind k) :
    ∃ n, constant dialect v = .ok n ∧ n.Denotes row k d ∧ n.isNullNode = v.isNull := by
  have hty := admits_hostType hv hd
  cases v with
  | null =>
    cases hv
    exact ⟨null, rfl, ⟨rfl, hty, nofun, fun _ => trivial, fun _ => rfl, nofun⟩, rfl⟩
  | bool b =>
    cases hv
    refine ⟨_, rfl, ⟨rfl, hty, nofun, fun _ => trivial, ?_, nofun⟩, rfl⟩
    rintro rfl
    exact hd.elim
  | int n =>
    cases hv
    exact ⟨_, rfl, ⟨rfl, hty, nofun, fun _ => trivial, fun _ => rfl, nofun⟩, rfl⟩
  | _ => cases hv

/-- A value that is bound denotes its datum. -/
theorem denotes_parameter {v : Value} {d : Datum} (hv : v.datum? = some d) (hd : d.HasKind k) :
    (parameter v).Denotes row k d ∧ (parameter v).isNullNode = v.isNull := by
  have hty := admits_hostType hv hd
  cases v with
  | null | bool b | int n =>
    cases hv
    exact ⟨⟨rfl, hty, nofun, fun _ => trivial, fun _ => rfl, nofun⟩, rfl⟩
  | _ => cases hv

/-- A node with a minus sign. -/
theorem Denotes.negate {n : Node} {d : Datum} (h : n.Denotes row .number d)
    (hd : d.HasKind .number) :
    (unary .negate n n.type).Denotes row .number (Datum.lift (fun a b => b - a) d (.int 0)) where
  cell := by
    rw [cell?, h.cell]
    obtain rfl | ⟨m, rfl⟩ := Datum.hasKind_number.mp hd
    · rfl
    · simp [Datum.cell, Datum.lift]
  type := h.type.imp id fun ⟨ht, hn⟩ => ⟨ht, by rw [hn]; rfl⟩
  test := nofun
  wellTested := nofun
  notTrue := fun _ => rfl
  choice := nofun

/-- A conjunction or a disjunction of two tests. -/
theorem Tests.logical {l r : Node} {t u : Truth} (hl : l.Tests row t) (hr : r.Tests row u) :
    (binary .and l r .bool).Tests row (t.and u) ∧ (binary .or l r .bool).Tests row (t.or u) := by
  constructor <;>
    refine ⟨rfl, rfl, ?_, trivial⟩ <;>
    rw [cell?, hl.cell, hr.cell] <;>
    simp [SqlOp.compute?]

/-- A test is not null. -/
theorem Tests.isNullNode {n : Node} {t : Truth} (h : n.Tests row t) : n.isNullNode = false := by
  have hp := h.predicate
  unfold Node.isNullNode
  split
  · cases hp
  · cases hp
  · rfl

/-! ## Comparisons -/

/-- The operator that a comparison becomes. -/
def comparisonOp : BinaryOp → SqlOp
  | .ne => .ne
  | .lt => .lt
  | .le => .le
  | .gt => .gt
  | .ge => .ge
  | _ => .eq

/-- A comparison is planned as one. -/
theorem binaryOperator_comparison (dialect : Dialect) {op : BinaryOp} (hop : op.isComparison = true)
    (l r : Node) : binaryOperator dialect op l r = comparison (comparisonOp op) l r := by
  cases op <;> first | rfl | cases hop

/-- A test for null of a node. -/
theorem Denotes.nullTest {n : Node} {d : Datum} (h : n.Denotes row k d) (negated : Bool) :
    (isNull n negated).Tests row (some (if negated then !decide (d = .null) else decide (d = .null))) where
  predicate := rfl
  type := rfl
  cell := by
    rw [cell?, h.cell]
    cases negated <;> cases d <;> rfl
  wellTested := trivial

/-- A comparison of two nodes that are not null.

**Proof sketch.** Data of one kind are the same if their cells are, and numbers are ordered as their cells are. A test
of a truth value against true is well made since the value is one. -/
theorem Denotes.compare {op : BinaryOp} {l r : Node} {a b : Datum} (hop : op.isComparison = true)
    (hk : k = .number ∨ op = .eq ∨ op = .ne) (hl : l.Denotes row k a) (hr : r.Denotes row k b)
    (ha : a.HasKind k) (hb : b.HasKind k) :
    (binary (comparisonOp op) l r .bool).Tests row (op.compareData a b) where
  predicate := by cases op <;> rfl
  type := rfl
  cell := by
    rw [cell?, hl.cell, hr.cell]
    have hsame := Datum.cell_same ha hb
    cases op <;> first | cases hop; done | skip
    case eq => exact congrArg (fun t => some (Cell.ofTruth t)) hsame
    case ne =>
      refine congrArg (fun t => some (Cell.ofTruth t)) ?_
      rw [Cell.test_bne, hsame]
      rfl
    all_goals
      obtain rfl : k = .number := by simpa using hk
      exact congrArg (fun t => some (Cell.ofTruth t)) (Datum.cell_test _ ha hb)
  wellTested := by
    cases op <;> first | cases hop; done | exact trivial | skip
    intro htrue _
    cases k with
    | number => exact absurd (hr.notTrue rfl) (by simp [htrue])
    | truth => exact ⟨a.truth, by rw [hl.cell, Datum.cell_of_truth ha]⟩

/-- A null denotes a null. -/
private theorem Denotes.eq_null {n : Node} {d : Datum} (h : n.Denotes row k d)
    (hn : n.isNullNode = true) : d = .null := by
  have hc := h.cell
  unfold isNullNode at hn
  split at hn
  · exact Datum.cell_eq_none.mp (Option.some.inj hc).symm
  · exact Datum.cell_eq_none.mp (Option.some.inj hc).symm
  · cases hn

/-- Being equal to a node that is null, and not being equal to it. -/
theorem Denotes.testNull {op : BinaryOp} {n : Node} {d : Datum} (h : n.Denotes row k d)
    (hop : op = .eq ∨ op = .ne) :
    (isNull n (comparisonOp op == .ne)).Tests row (op.testData true d .null) ∧
      (isNull n (comparisonOp op == .ne)).Tests row (op.testData true .null d) := by
  have ht := h.nullTest (comparisonOp op == .ne)
  obtain rfl | rfl := hop
  · exact ⟨by simpa [BinaryOp.testData, comparisonOp] using ht,
      by simpa [BinaryOp.testData, comparisonOp] using ht⟩
  · exact ⟨by simpa [BinaryOp.testData, comparisonOp] using ht,
      by simpa [BinaryOp.testData, comparisonOp] using ht⟩

/-- A comparison, which is a test for null when an operand is null.

**Proof sketch.** A test for equality with a null becomes a test for null. Any other comparison is of types that can
be compared. -/
theorem denotes_comparison {op : BinaryOp} {l r : Node} {a b : Datum} (hop : op.isComparison = true)
    (hk : k = .number ∨ op = .eq ∨ op = .ne) (hl : l.Denotes row k a) (hr : r.Denotes row k b)
    (ha : a.HasKind k) (hb : b.HasKind k) :
    ∃ n, comparison (comparisonOp op) l r = .ok n ∧
      n.Tests row (op.testData (l.isNullNode || r.isNullNode) a b) := by
  have plain := Denotes.compare hop hk hl hr ha hb
  have hcomp := HostType.comparable_of_admits (u := r.type) hl.type
  by_cases heq : op = .eq ∨ op = .ne
  · have hcond : (comparisonOp op == .eq || comparisonOp op == .ne) = true := by
      obtain rfl | rfl := heq <;> rfl
    unfold comparison
    cases hrn : r.isNullNode with
    | true =>
      refine ⟨isNull l (comparisonOp op == .ne), by simp [hcond]; rfl, ?_⟩
      rw [hr.eq_null hrn, Bool.or_true]
      exact (hl.testNull heq).1
    | false =>
      cases hln : l.isNullNode with
      | true =>
        refine ⟨isNull r (comparisonOp op == .ne), by simp [hcond]; rfl, ?_⟩
        rw [hl.eq_null hln, Bool.or_false]
        exact (hr.testNull heq).2
      | false =>
        refine ⟨_, by simp [hcond, hcomp]; rfl, ?_⟩
        obtain rfl | rfl := heq <;> exact plain
  · rw [not_or] at heq
    rw [BinaryOp.testData_ordered heq]
    refine ⟨binary (comparisonOp op) l r .bool, ?_, plain⟩
    have hcond : (comparisonOp op == .eq || comparisonOp op == .ne) = false := by
      cases op <;> first | rfl | exact absurd rfl heq.1 | exact absurd rfl heq.2 | cases hop
    simp only [comparison, hcond, Bool.false_eq_true, if_false, hcomp]
    rfl

/-! ## Arithmetic -/

/-- The operator that arithmetic becomes, divisions aside. -/
def arithmeticOp : BinaryOp → SqlOp
  | .add => .add
  | .sub => .sub
  | .mul => .mul
  | .div => .div
  | _ => .mod

/-- An arithmetic operator on numbers is planned as one. -/
theorem binaryOperator_arithmetic (dialect : Dialect) {op : BinaryOp}
    (hop : op.isArithmetic = true) {l r : Node} {a b : Datum} (hl : l.Denotes row .number a)
    (hr : r.Denotes row .number b) :
    binaryOperator dialect op l r = .ok (arithmetic (arithmeticOp op) l r) := by
  cases op <;> first | rfl | cases hop; done | skip
  simp [binaryOperator, sum, HostType.isString_of_admits hl.type,
    HostType.isString_of_admits hr.type, arithmeticOp]
  rfl

/-- Numbers are not shifted as times are: a division of numbers has a whole quotient, and the other
operators stay what they are. -/
theorem arithmetic_of_admits {op : SqlOp} {l r : Node} {a : Datum}
    (hl : l.type.Admits .number a) :
    arithmetic op l r =
      if op = .div ∧ l.type.isIntegral ∧ r.type.isIntegral then
        binary .intDiv l r (l.type.widen r.type)
      else binary op l r (resultType l.type r.type) := by
  simp [arithmetic, HostType.isTemporal_of_admits hl]

/-- Arithmetic on nodes is the one on data. A division by something of which nothing is known is
null, so that it does not matter that its quotient need not be whole.

**Proof sketch.** A quotient of whole numbers is divided and cut off, and other operators are those on numbers. A
division with something of an unknown type is one with a null, whose result is null as well. -/
theorem Denotes.arithmetic {op : BinaryOp} {l r : Node} {a b : Datum}
    (hop : op.isArithmetic = true) (hl : l.Denotes row .number a) (hr : r.Denotes row .number b)
    (ha : a.HasKind .number) (hb : b.HasKind .number) :
    (arithmetic (arithmeticOp op) l r).Denotes row .number (op.computeData a b) := by
  have hnull : a = .null → op.computeData a b = .null := by
    rintro rfl
    cases op <;> rfl
  rw [arithmetic_of_admits hl.type]
  split
  · next h =>
    obtain ⟨hdiv, hli, hri⟩ := h
    obtain rfl : op = .div := by cases op <;> first | rfl | cases hdiv
    refine ⟨?_, .inl ?_, nofun, by simp, fun _ => rfl, by simp⟩
    · rw [cell?, hl.cell, hr.cell, BinaryOp.computeData, Datum.cell_divided _ ha hb]
      rfl
    · exact HostType.kind?_widen (HostType.kind?_eq_number.mpr hli)
        (.inl (HostType.kind?_eq_number.mpr hri))
  · next h =>
    refine ⟨?_, HostType.admits_resultType hl.type hr.type hnull, ?_, by simp, fun _ => rfl, by simp⟩
    · rw [cell?, hl.cell, hr.cell]
      cases op <;> first | cases hop; done | skip
      case add | sub | mul =>
        rw [BinaryOp.computeData, Datum.cell_lift _ ha hb]
        rfl
      case mod =>
        rw [BinaryOp.computeData, Datum.cell_divided _ ha hb]
        rfl
      -- whole operands were dealt with above, so one side is of an unknown type
      case div =>
        obtain hlt | ⟨-, rfl⟩ := hl.type
        · obtain hrt | ⟨-, rfl⟩ := hr.type
          · exact absurd ⟨rfl, HostType.kind?_eq_number.mp hlt, HostType.kind?_eq_number.mp hrt⟩ h
          · cases a <;> rfl
        · rfl
    · intro hp
      cases op <;> cases hp

/-! ## Choices -/

/-- The first filled one of several nodes is a datum of a kind. -/
def Alternatives (row : Contents) (k : Kind) (d : Datum) (ns : List Node) : Prop :=
  ∃ cs, cells? row ns = some cs ∧ Cell.firstFilled cs = d.cell ∧
    (firstKnown (ns.map type)).Admits k d

/-- A node is an alternative by itself. -/
theorem Denotes.alternatives {n : Node} {d : Datum} (h : n.Denotes row k d) :
    Alternatives row k d [n] := by
  refine ⟨[d.cell], by simp [cells?, h.cell], by simp [Cell.firstFilled], ?_⟩
  by_cases hu : n.type = .unknown
  · simpa [firstKnown, hu] using h.type
  · simpa [firstKnown, hu] using h.type

/-- Alternatives after others count when these have no value. -/
theorem Alternatives.append {ns ms : List Node} {a b : Datum} (hn : Alternatives row k a ns)
    (hm : Alternatives row k b ms) : Alternatives row k (a.orElse b) (ns ++ ms) := by
  obtain ⟨cs, hcs, hca, hta⟩ := hn
  obtain ⟨ds, hds, hdb, htb⟩ := hm
  refine ⟨cs ++ ds, cells?_append hcs hds, ?_, ?_⟩
  · rw [Cell.firstFilled_append, hca, hdb, Datum.cell_orElse]
  · rw [List.map_append, HostType.firstKnown_append]
    exact hta.orElse htb

/-- The first value of alternatives that is not null. -/
theorem Alternatives.firstNotNull {ns : List Node} {d : Datum} (h : Alternatives row k d ns) :
    (firstNotNull ns).Denotes row k d := by
  obtain ⟨cs, hcs, hd, ht⟩ := h
  exact ⟨by simp [Node.firstNotNull, cell?, hcs, hd], ht, nofun, fun _ => trivial, fun _ => rfl,
    nofun⟩

/-- The branches of a choice that stands last in another, or none. -/
theorem Denotes.branches {n : Node} {d : Datum} (h : n.Denotes row k d) (nested : Bool) :
    let parts := if nested then Lowering.branchesOf n else ([], n)
    branchCell? row (parts.2.cell? row) parts.1 = some d.cell ∧
      (firstKnown (parts.1.map (fun b => b.2.type) ++ [parts.2.type])).Admits k d := by
  have single : branchCell? row (n.cell? row) [] = some d.cell ∧
      (firstKnown [n.type]).Admits k d := by
    refine ⟨by rw [branchCell?, h.cell], ?_⟩
    by_cases hu : n.type = .unknown
    · simpa [firstKnown, hu] using h.type
    · simpa [firstKnown, hu] using h.type
  cases nested with
  | false => exact single
  | true =>
    cases n with
    | case branches otherwise t =>
      refine ⟨by rw [← h.cell]; rfl, ?_⟩
      have := h.type
      rwa [h.choice _ _ _ rfl] at this
    | _ => exact single

/-- A choice whose first test decides between a node and the other branches. -/
theorem denotes_choice {test n otherwise : Node} {branches : List (Node × Node)} {t : Truth}
    {a b : Datum} (ht : test.Tests row t) (hn : n.Denotes row k a)
    (hb : branchCell? row (otherwise.cell? row) branches = some b.cell)
    (hty : (firstKnown (branches.map (fun b => b.2.type) ++ [otherwise.type])).Admits k b) :
    (choice ((test, n) :: branches) otherwise).Denotes row k (if t = some true then a else b) where
  cell := by
    rw [choice, cell?, branchCell?, ht.cell, hn.cell, hb]
    by_cases h : t = some true <;> simp [h]
  type := by
    have := hn.type.choose (t = some true) hty
    simpa [choice, Node.type, firstKnown] using this
  test := nofun
  wellTested := fun _ => trivial
  notTrue := fun _ => rfl
  choice := by
    rintro _ _ _ hc
    cases hc
    rfl

end Node

end LambdaSql
