import LambdaSql.Proofs.Meaning.Node

/-!
# Interpretations

The value of a node under an interpretation, which says what a database makes of values, columns, operators, functions
and selections. The connectives and the tests for null, for membership and for existence follow three-valued logic
whatever the interpretation is, so what is proved about them holds of every database and every row.

## Main definitions

* `Interpretation` - what a database computes with, and how.
* `Interpretation.truth`, `Interpretation.ofTruth` - what is computed as a truth value.
* `Node.eval` - the value of a node.
* `Contents.interpretation` - whole numbers and truth values on a row that holds given data.

## Main results

* `Node.eval_of_cell?` - where nodes are known to have a cell, that is their value.
-/

namespace LambdaSql

/-- What a database computes with, and what it makes of columns, operators, functions and selections on a row. A missing
value is `NULL`. A truth value is one of the numbers one and zero, and every number but zero is true. -/
structure Interpretation (V : Type) where
  number : Int → V
  value : Value → Option V
  column : Option String → String → Option V
  /-- Comparisons. -/
  compare : SqlOp → V → V → Bool
  /-- Arithmetic and bit operations, which may have no result. -/
  compute : SqlOp → V → V → Option V
  minus : V → V
  /-- Whether a value is true. -/
  holds : V → Bool
  call : SqlFunction → List (Option V) → Option V
  /-- The rows of a selection, each with its columns. -/
  rows : Select → List (List (Option V))
  /-- The value of a text. -/
  raw : String → Option V
  holds_number : ∀ n, holds (number n) = (n != 0)
  compare_number : ∀ m n, compare .eq (number m) (number n) = (m == n)
  value_bool : ∀ b, value (.bool b) = some (number (if b then 1 else 0))
  raw_always : ∀ b : Bool, raw (if b then "1=1" else "1=0") = some (number (if b then 1 else 0))

namespace Interpretation

variable {V : Type} (I : Interpretation V)

/-- A value as a truth value. -/
def truth (a : Option V) : Truth := a.map I.holds

/-- A truth value as a value: one, zero or `NULL`. -/
def ofTruth (t : Truth) : Option V := t.map fun b => I.number (if b then 1 else 0)

/-- A truth value is read back from its value. -/
@[simp]
theorem truth_ofTruth (t : Truth) : I.truth (I.ofTruth t) = t := by
  rcases t with _ | _ | _ <;> simp [truth, ofTruth, I.holds_number]

/-- A comparison; `NULL` makes it unknown. -/
def test (op : SqlOp) (a b : Option V) : Truth := do return I.compare op (← a) (← b)

/-- A binary operator. -/
def operate (op : SqlOp) (a b : Option V) : Option V :=
  match op with
  | .and => I.ofTruth ((I.truth a).and (I.truth b))
  | .or => I.ofTruth ((I.truth a).or (I.truth b))
  | op => if op.isComparison then I.ofTruth (I.test op a b) else do I.compute op (← a) (← b)

/-- Whether a value is among several. -/
def among (a : Option V) (items : List (Option V)) : Truth :=
  items.foldr (fun b t => (I.test .eq a b).or t) (some false)

/-- The values in the first column of a selection. -/
def firstColumn (query : Select) : List (Option V) := (I.rows query).map (·.headD none)

/-- Comparing a truth value with a truth value. -/
theorem test_ofTruth (t : Truth) (b : Bool) : I.test .eq (I.ofTruth t) (I.value (.bool b)) = t.map (· == b) := by
  rw [I.value_bool]
  rcases t with _ | _ | _ <;> cases b <;> simp [test, ofTruth, I.compare_number]

/-- Nothing is known to be `NULL`. -/
theorem among_null (a : Option V) : I.among a [none] = none := by
  cases a <;> rfl

end Interpretation

namespace Node

variable {V : Type} (I : Interpretation V)

mutual

/-- The value of a node. -/
def eval : Node → Option V
  | literal _ v _ | bound v _ _ _ => I.value v
  | column a name _ => I.column a name
  | binary op left right _ => I.operate op (eval left) (eval right)
  | unary .not operand _ => I.ofTruth (I.truth (eval operand)).not
  | unary .negate operand _ => (eval operand).map I.minus
  | call f args _ => I.call f (evals args)
  | case branches otherwise _ => evalBranches (eval otherwise) branches
  | inList operand items negated => I.ofTruth ((I.among (eval operand) (evals items)).flipIf negated)
  | inQuery operand query negated => I.ofTruth ((I.among (eval operand) (I.firstColumn query)).flipIf negated)
  | .exists query negated => I.ofTruth (Truth.flipIf negated (some !(I.rows query).isEmpty))
  | isNull operand negated => I.ofTruth (Truth.flipIf negated (some (eval operand).isNone))
  | subquery query _ => (I.firstColumn query).headD none
  | group inner => eval inner
  | raw text _ => I.raw text
  | null => none

/-- The values of several nodes. -/
def evals : List Node → List (Option V)
  | [] => []
  | n :: rest => eval n :: evals rest

/-- The value of the first branch whose test is true, or else the value given for that. -/
def evalBranches (otherwise : Option V) : List (Node × Node) → Option V
  | [] => otherwise
  | (test, value) :: rest =>
    if I.truth (eval test) = some true then eval value else evalBranches otherwise rest

end

/-- The values of several nodes are those of each one. -/
theorem evals_eq_map (ns : List Node) : evals I ns = ns.map (eval I) := by
  induction ns with
  | nil => rfl
  | cons n rest ih => rw [evals, ih, List.map_cons]

end Node

/-! ## Whole numbers and truth values -/

namespace Contents

variable (row : Contents)

/-- What is computed with whole numbers and truth values on a row that holds given data. Texts, functions other than
`COALESCE` and selections have no meaning. -/
def interpretation : Interpretation Int where
  number n := n
  value v := v.datum?.bind Datum.cell
  column a name := (row a name).cell
  compare op m n := match op with
    | .eq => m == n
    | .ne => m != n
    | .lt => decide (m < n)
    | .le => decide (m ≤ n)
    | .gt => decide (n < m)
    | .ge => decide (n ≤ m)
    | _ => false
  compute op m n := (op.compute? (some m) (some n)).join
  minus n := -n
  holds n := n != 0
  call f cells := if f matches .coalesce then Cell.firstFilled cells else none
  rows _ := []
  raw text := if text = "1=1" then some 1 else if text = "1=0" then some 0 else none
  holds_number _ := rfl
  compare_number _ _ := rfl
  value_bool b := by cases b <;> rfl
  raw_always b := by cases b <;> rfl

/-- Where an operator computes a cell, the interpretation of the row operates alike. -/
private theorem operate_of_compute? {op : SqlOp} {a b c : Cell} (h : op.compute? a b = some c) :
    row.interpretation.operate op a b = c := by
  cases op with
  | bitAnd | bitOr => cases h
  | div => rcases a with _ | m <;> rcases b with _ | n <;> cases h <;> rfl
  | _ =>
    cases h
    rcases a with _ | m <;> rcases b with _ | n <;> rfl

/-- Membership in a list of cells. -/
theorem among_eq (c : Cell) (cs : List Cell) : row.interpretation.among c cs = c.among cs := by
  induction cs with
  | nil => rfl
  | cons d cs ih =>
    change (row.interpretation.test .eq c d).or (row.interpretation.among c cs) = _
    rw [ih]
    rcases c with _ | m <;> rcases d with _ | n <;> rfl

end Contents

namespace Node

variable {row : Contents}

mutual

/-- **Where nodes are known to have a cell, that is their value.**

**Proof sketch.** By induction on the node: the operations on cells are those of the interpretation by rows. -/
theorem eval_of_cell? : ∀ {n : Node} {c : Cell}, n.cell? row = some c → n.eval row.interpretation = c
  | literal .., _, h | bound .., _, h => by
    rw [cell?, Option.map_eq_some_iff] at h
    obtain ⟨d, hd, rfl⟩ := h
    simp [eval, Contents.interpretation, hd]
  | column .., _, h | null, _, h => by
    cases h
    rfl
  | binary op left right _, _, h => by
    simp only [cell?, Option.bind_eq_bind, Option.bind_eq_some_iff] at h
    obtain ⟨a, ha, b, hb, h⟩ := h
    rw [eval, eval_of_cell? ha, eval_of_cell? hb, row.operate_of_compute? h]
  | unary .not operand _, _, h | unary .negate operand _, _, h | isNull operand _, _, h => by
    simp only [cell?, Option.bind_eq_bind, Option.bind_eq_some_iff, Option.pure_def, Option.some.injEq] at h
    obtain ⟨a, ha, rfl⟩ := h
    rw [eval, eval_of_cell? ha]
    rfl
  | call f args _, _, h => by
    cases f <;> try cases h
    simp only [cell?, Option.bind_eq_bind, Option.bind_eq_some_iff, Option.pure_def, Option.some.injEq] at h
    obtain ⟨cs, hcs, rfl⟩ := h
    rw [eval, evals_of_cells? hcs]
    rfl
  | case branches otherwise _, _, h => evalBranches_of_branchCell? (fun _ hc => eval_of_cell? hc) h
  | inList operand items negated, _, h => by
    simp only [cell?, Option.bind_eq_bind, Option.bind_eq_some_iff, Option.pure_def, Option.some.injEq] at h
    obtain ⟨a, ha, cs, hcs, rfl⟩ := h
    rw [eval, eval_of_cell? ha, evals_of_cells? hcs, row.among_eq]
    rfl
  | group inner, _, h => eval_of_cell? (n := inner) h
  | raw text _, _, h => by
    rw [cell?] at h
    change (if text = "1=1" then some 1 else if text = "1=0" then some 0 else none) = _
    split_ifs at h ⊢ <;> cases h <;> rfl
  | inQuery .., _, h | .exists .., _, h | subquery .., _, h => by cases h

/-- Where nodes have cells, they evaluate to these. -/
private theorem evals_of_cells? : ∀ {ns : List Node} {cs : List Cell}, cells? row ns = some cs →
    evals row.interpretation ns = cs
  | [], _, h => by
    cases h
    rfl
  | n :: rest, _, h => by
    simp only [cells?, Option.bind_eq_bind, Option.bind_eq_some_iff, Option.pure_def, Option.some.injEq] at h
    obtain ⟨c, hc, cs, hcs, rfl⟩ := h
    rw [evals, eval_of_cell? hc, evals_of_cells? hcs]

/-- Where the branches of a choice have a cell, they evaluate to it. -/
private theorem evalBranches_of_branchCell? {otherwise : Option Cell} {a : Option Int}
    (ha : ∀ c, otherwise = some c → a = c) :
    ∀ {bs : List (Node × Node)} {c : Cell}, branchCell? row otherwise bs = some c →
      evalBranches row.interpretation a bs = c
  | [], _, h => ha _ h
  | (test, value) :: rest, _, h => by
    simp only [branchCell?, Option.bind_eq_bind, Option.bind_eq_some_iff, Option.pure_def, Option.some.injEq] at h
    obtain ⟨t, ht, v, hv, r, hr, rfl⟩ := h
    rw [evalBranches, eval_of_cell? ht, eval_of_cell? hv, evalBranches_of_branchCell? ha hr]
    rfl

end

end Node

end LambdaSql
