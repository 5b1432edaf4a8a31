import LambdaSql.Expr.Origin
import LambdaSql.Host.Evaluate
import LambdaSql.Plan.Scope
import LambdaSql.Proofs.Meaning.Node

/-!
# What expressions mean

The meaning of the expressions over whole numbers, truth values and null: null propagates through
arithmetic and comparisons, the connectives are three-valued, and a choice takes its second branch
unless its test is true. An expression that reads no row and is null at hand turns being equal to it
into a test for null.

## Main definitions

* `Expr.Typed` - the well-typed expressions of the fragment, under a scope.
* `Expr.meaning` - the meaning of an expression on a row.
* `Contents.Fits` - the rows whose columns hold what their types say.

## Main results

* `Expr.hasKind_meaning` - a well-typed expression means a datum of its kind.
-/

namespace LambdaSql

/-- Whether an operator computes a number from two numbers. -/
def BinaryOp.isArithmetic : BinaryOp → Bool
  | add | sub | mul | div | mod => true
  | _ => false

/-- A comparison of two data; null makes it unknown. -/
def BinaryOp.compareData (op : BinaryOp) (a b : Datum) : Truth :=
  match op with
  | eq => a.same b
  | ne => (a.same b).not
  | lt => Datum.test (fun m n => decide (m < n)) a b
  | le => Datum.test (fun m n => decide (m ≤ n)) a b
  | gt => Datum.test (fun m n => decide (n < m)) a b
  | ge => Datum.test (fun m n => decide (n ≤ m)) a b
  | _ => none

/-- A comparison of two data where null may be meant as a test: then being equal is being null
both. -/
def BinaryOp.testData (op : BinaryOp) (nullTest : Bool) (a b : Datum) : Truth :=
  match op, nullTest with
  | eq, true => some (a = .null && b = .null)
  | ne, true => some (!(a = .null && b = .null))
  | op, _ => op.compareData a b

/-- Being different is the opposite of being equal. -/
theorem BinaryOp.testData_ne (nullTest : Bool) (a b : Datum) :
    ne.testData nullTest a b = (eq.testData nullTest a b).not := by
  cases nullTest <;> rfl

/-- Only being equal and being different know a test for null. -/
theorem BinaryOp.testData_ordered {op : BinaryOp} (hne : op ≠ eq ∧ op ≠ ne) (nullTest : Bool)
    (a b : Datum) : op.testData nullTest a b = op.compareData a b := by
  cases op <;> first | exact absurd rfl hne.1 | exact absurd rfl hne.2 | rfl

/-- Arithmetic on data: exact, cut toward zero in divisions, and null for a divisor of zero. -/
def BinaryOp.computeData (op : BinaryOp) (a b : Datum) : Datum :=
  match op with
  | add => Datum.lift (· + ·) a b
  | sub => Datum.lift (· - ·) a b
  | mul => Datum.lift (· * ·) a b
  | div => Datum.divided Int.tdiv a b
  | mod => Datum.divided Int.tmod a b
  | _ => .null

namespace Expr

/-- Whether an expression reads no row and is null when it is evaluated. -/
def isNullAtHand (e : Expr) : Bool :=
  e.reads.isEmpty && match Host.value e with
    | .ok v => v.isNull
    | .error _ => false

/-- What a member of a parameter holds on a row. -/
def memberMeaning (s : Scope) (row : Contents) (param name : String) : Datum :=
  match s.binding? param with
  | some (.table t) =>
    match t.column name with
    | .ok (.column a c _) => row a c
    | _ => .null
  | _ => .null

/-- The meaning of an expression on a row. -/
def meaning (s : Scope) (row : Contents) : Expr → Datum
  | constant v | captured _ v => v.datum?.getD .null
  | member (param p) name => memberMeaning s row p name
  | unary .not e => .ofTruth (meaning s row e).truth.not
  | unary .negate e => Datum.lift (fun a b => b - a) (meaning s row e) (.int 0)
  | binary op l r =>
    let a := meaning s row l
    let b := meaning s row r
    match op with
    | .and => .ofTruth (a.truth.and b.truth)
    | .or => .ofTruth (a.truth.or b.truth)
    | .coalesce => a.orElse b
    | op =>
      if op.isComparison then .ofTruth (op.testData (l.isNullAtHand || r.isNullAtHand) a b)
      else op.computeData a b
  | conditional test a b =>
    if meaning s row test = .bool true then meaning s row a else meaning s row b
  | _ => .null

/-- The well-typed expressions of the fragment. Null is of either kind. -/
inductive Typed (s : Scope) : Kind → Expr → Prop
  | constant {k : Kind} {v : Value} {d : Datum} (hv : v.datum? = some d) (hd : d.HasKind k) :
    Typed s k (constant v)
  | captured {k : Kind} {name : String} {v : Value} {d : Datum} (hv : v.datum? = some d)
    (hd : d.HasKind k) : Typed s k (captured name v)
  | member {k : Kind} {p name : String} {t : TableBinding} {a : Option String} {c : String}
    {type : HostType} (hp : s.binding? p = some (.table t))
    (hc : t.column name = .ok (.column a c type)) (hk : type.kind? = some k) :
    Typed s k (member (param p) name)
  | negate {e : Expr} (he : Typed s .number e) : Typed s .number (unary .negate e)
  | not {e : Expr} (he : Typed s .truth e) : Typed s .truth (unary .not e)
  | logical {op : BinaryOp} {l r : Expr} (hop : op = .and ∨ op = .or) (hl : Typed s .truth l)
    (hr : Typed s .truth r) : Typed s .truth (binary op l r)
  | comparison {op : BinaryOp} {l r : Expr} (hop : op.isComparison = true)
    (hl : Typed s .number l) (hr : Typed s .number r) : Typed s .truth (binary op l r)
  | equality {op : BinaryOp} {l r : Expr} (hop : op = .eq ∨ op = .ne) (hl : Typed s .truth l)
    (hr : Typed s .truth r) : Typed s .truth (binary op l r)
  | arithmetic {op : BinaryOp} {l r : Expr} (hop : op.isArithmetic = true)
    (hl : Typed s .number l) (hr : Typed s .number r) : Typed s .number (binary op l r)
  | coalesce {k : Kind} {l r : Expr} (hl : Typed s k l) (hr : Typed s k r) :
    Typed s k (binary .coalesce l r)
  | conditional {k : Kind} {test a b : Expr} (ht : Typed s .truth test) (ha : Typed s k a)
    (hb : Typed s k b) : Typed s k (conditional test a b)

end Expr

/-- Whether the columns of a row that parameters read hold what their types say. -/
def Contents.Fits (row : Contents) (s : Scope) : Prop :=
  ∀ p t name a c type k, s.binding? p = some (.table t) →
    t.column name = .ok (.column a c type) → type.kind? = some k → (row a c).HasKind k

/-- What is computed from data is a number. -/
private theorem BinaryOp.hasKind_computeData (op : BinaryOp) (a b : Datum) :
    (op.computeData a b).HasKind .number := by
  cases op <;> first | exact Datum.hasKind_lift _ _ _ | exact Datum.hasKind_divided _ _ _ | trivial

namespace Expr

variable {s : Scope} {row : Contents} {k : Kind} {e : Expr}

/-! ## Kinds -/

/-- The meaning of a comparison. -/
theorem meaning_comparison {op : BinaryOp} (hop : op.isComparison = true) (l r : Expr) :
    (binary op l r).meaning s row = .ofTruth
      (op.testData (l.isNullAtHand || r.isNullAtHand) (l.meaning s row) (r.meaning s row)) := by
  cases op <;> first | rfl | cases hop

/-- The meaning of an arithmetic operator. -/
theorem meaning_arithmetic {op : BinaryOp} (hop : op.isArithmetic = true) (l r : Expr) :
    (binary op l r).meaning s row = op.computeData (l.meaning s row) (r.meaning s row) := by
  cases op <;> first | rfl | cases hop

/-- A well-typed expression means a datum of its kind. -/
theorem hasKind_meaning (hf : row.Fits s) (h : Typed s k e) : (e.meaning s row).HasKind k := by
  induction h with
  | constant hv hd | captured hv hd =>
    rw [meaning, hv]
    exact hd
  | member hp hc hk =>
    rw [meaning, memberMeaning, hp]
    simp only [hc]
    exact hf _ _ _ _ _ _ _ hp hc hk
  | negate _ _ => exact Datum.hasKind_lift _ _ _
  | not _ _ => exact Datum.hasKind_ofTruth _
  | logical hop _ _ _ _ => obtain rfl | rfl := hop <;> exact Datum.hasKind_ofTruth _
  | comparison hop _ _ _ _ =>
    rw [meaning_comparison hop]
    exact Datum.hasKind_ofTruth _
  | equality hop _ _ _ _ =>
    rw [meaning_comparison (by obtain rfl | rfl := hop <;> rfl)]
    exact Datum.hasKind_ofTruth _
  | arithmetic hop _ _ _ _ =>
    rw [meaning_arithmetic hop]
    exact BinaryOp.hasKind_computeData _ _ _
  | coalesce _ _ ihl ihr => exact Datum.hasKind_orElse ihl ihr
  | conditional _ _ _ _ iha ihb =>
    rw [meaning]
    split
    · exact iha
    · exact ihb

end Expr

end LambdaSql
