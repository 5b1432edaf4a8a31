import LambdaSql.Sql.Operators
import Mathlib.Data.List.Basic

/-!
# What operators compose

The operators on nodes put their operands together, sometimes leave one of them out, and simplify what they can: the
opposite of a test is a test, and joined texts are joined again. What they compare they have found to be comparable. A
property that survives these few steps is one that every operator preserves.

## Main definitions

* `Node.Composable` - a property that survives what operators do.
* `Node.Compositional` - a property that nodes have if their parts do, whatever they are compared with.
* `Node.Selective` - such a property that nodes with selections have as well.

## Main results

* `Node.Composable.binaryOperator`, `Node.Composable.concat`, `Node.Composable.choice` and their neighbours -
  what operators make of nodes with such a property.
-/

namespace LambdaSql.Node

/-- A property that written values have, that a node has if its parts have it and can be compared where they are, and
that simplifications preserve. -/
structure Composable (G : Node → Prop) : Prop where
  literal : ∀ {sql v t}, G (.literal sql v t)
  raw : ∀ {text t}, G (.raw text t)
  null : G .null
  combined : ∀ {op l r t}, op.isComparison = false → G l → G r → G (.binary op l r t)
  compared : ∀ {op l r}, l.type.comparable r.type = .ok () → G l → G r → G (.binary op l r .bool)
  unary : ∀ {op n t}, G n → G (.unary op n t)
  isNull : ∀ {n negated}, G n → G (.isNull n negated)
  call : ∀ {f ns t}, (∀ n ∈ ns, G n) → G (.call f ns t)
  case : ∀ {bs n t}, (∀ b ∈ bs, G b.1 ∧ G b.2) → G n → G (.case bs n t)
  listed : ∀ {n ns negated}, (∀ m ∈ ns, n.type.comparable m.type = .ok ()) → G n → (∀ m ∈ ns, G m) →
    G (.inList n ns negated)
  negation : ∀ {n}, G n → G n.negation
  pieces : ∀ {n}, G n → ∀ m ∈ n.pieces, G m
  retype : ∀ {n} t, G n → G (n.retype t)

/-- A property that values have, whether they are written or bound, that a node has if its parts have it, and that
simplifications preserve. -/
structure Compositional (G : Node → Prop) : Prop extends Composable G where
  bound : ∀ {v native t}, G (.bound v native none t)
  binary : ∀ {op l r t}, G l → G r → G (.binary op l r t)
  inList : ∀ {n ns negated}, G n → (∀ m ∈ ns, G m) → G (.inList n ns negated)

/-- A property that survives composition and that what is asked about a selection has if its value does. -/
structure Selective (G : Node → Prop) : Prop extends Compositional G where
  searched : ∀ {n q t negated}, G n → G (.subquery q t) → G (.inQuery n q negated)
  tested : ∀ {q t negated}, G (.subquery q t) → G (.exists q negated)

/-- A bound value has a compositional property. -/
theorem Compositional.parameter {G : Node → Prop} (hG : Compositional G) (v : Value) : G (parameter v) := hG.bound

namespace Composable

variable {G : Node → Prop} (hG : Composable G) {n left right : Node} {ns : List Node} {d : Dialect}

include hG

/-- A call of one argument has the property if the argument has it. -/
theorem call_one (f : SqlFunction) (hn : G n) (t : HostType) : G (.call f [n] t) :=
  hG.call (List.forall_mem_singleton.mpr hn)

/-- A call of two arguments has the property if both have it. -/
theorem call_two (f : SqlFunction) (hl : G left) (hr : G right) (t : HostType) : G (.call f [left, right] t) :=
  hG.call (List.forall_mem_cons.mpr ⟨hl, List.forall_mem_singleton.mpr hr⟩)

/-- A written truth value has the property. -/
theorem ofBool (b : Bool) : G (ofBool b) := hG.literal

/-- A written whole number has the property. -/
theorem ofInt (k : Int64) : G (ofInt k) := hG.literal

/-- A fixed truth value has the property. -/
theorem always (b : Bool) : G (always b) := hG.raw

/-- A constant has the property. -/
theorem constant {v : Value} (h : constant d v = .ok n) : G n := by
  unfold Node.constant at h
  split at h
  · cases h
    exact hG.null
  · cases hv : v.literal d with
    | error e =>
      rw [hv] at h
      cases h
    | ok sql =>
      rw [hv] at h
      cases h
      exact hG.literal

/-! ### Tests -/

/-- The predicate of a node has the property if the node has it. -/
theorem toPredicate (hn : G n) : G n.toPredicate := by
  unfold Node.toPredicate
  split
  · exact hn
  · split
    · exact hG.always _
    · refine hG.compared ?_ hn (hG.ofBool true)
      cases n.type <;> rfl

/-- A comparison has the property if both sides have it. -/
theorem comparison {op : SqlOp} (hl : G left) (hr : G right) (h : comparison op left right = .ok n) : G n := by
  have compared (h : (do left.type.comparable right.type; return .binary op left right .bool) =
      (.ok n : Except SqlError Node)) : G n := by
    cases hc : left.type.comparable right.type with
    | error e =>
      rw [hc] at h
      cases h
    | ok u =>
      rw [hc] at h
      cases h
      exact hG.compared hc hl hr
  unfold Node.comparison at h
  split at h
  · split at h
    · cases h
      exact hG.isNull hl
    · split at h
      · cases h
        exact hG.isNull hr
      · exact compared h
  · exact compared h

/-- A connective of two has the property if both have it. -/
theorem logical {op : SqlOp} (ho : op.isComparison = false) (hl : G left) (hr : G right) :
    G (logical op left right) := hG.combined ho (hG.toPredicate hl) (hG.toPredicate hr)

/-! ### Arithmetic and texts -/

/-- A difference of two times has the property if both have it. -/
theorem difference (hl : G left) (hr : G right) : G (difference left right) := by
  unfold Node.difference
  split
  · exact hG.call_two _ hl hr _
  · exact hG.call_two _ hl hr _
  · exact hG.call_two _ hl hr _
  · exact hG.combined rfl hl hr

/-- An arithmetic operation has the property if both sides have it. -/
theorem arithmetic {op : SqlOp} (ho : op.isComparison = false) (hl : G left) (hr : G right) :
    G (arithmetic op left right) := by
  simp only [Node.arithmetic]
  split
  · exact hG.call_two _ hl hr _
  · split
    · exact hG.difference hl hr
    · split
      · exact hG.combined rfl hl hr
      · exact hG.combined ho hl hr

/-- The text of a run of literals has the property. -/
theorem runLiteral {run : Option String} (h : runLiteral d run = .ok ns) : ∀ m ∈ ns, G m := by
  cases run with
  | none =>
    cases h
    exact nofun
  | some s =>
    simp only [Node.runLiteral] at h
    cases hc : Node.constant d (.string s) with
    | error e =>
      rw [hc] at h
      cases h
    | ok n =>
      rw [hc] at h
      cases h
      exact List.forall_mem_singleton.mpr (hG.constant hc)

/-- Neighbouring literals that are made one leave the other pieces as they are.

**Proof sketch.** By induction on the pieces. Literals have the property, whether they are put together or passed
over, and any other piece is kept as it is. -/
theorem mergePieces (hns : ∀ m ∈ ns, G m) :
    ∀ {run : Option String} {ms : List Node}, mergePieces d run ns = .ok ms → ∀ m ∈ ms, G m := by
  induction ns with
  | nil => exact fun h => hG.runLiteral h
  | cons k rest ih =>
    intro run ms h
    obtain ⟨hk, hrest⟩ := List.forall_mem_cons.mp hns
    unfold Node.mergePieces at h
    split at h
    · next heq => cases heq
    · next heq =>
      cases heq
      exact ih hrest h
    · next heq =>
      cases heq
      exact ih hrest h
    · next m others _ _ heq =>
      cases heq
      cases hb : Node.runLiteral d run with
      | error e =>
        rw [hb] at h
        cases h
      | ok before =>
        cases hm : Node.mergePieces d none rest with
        | error e =>
          rw [hb] at h
          simp only [bind, Except.bind] at h
          rw [hm] at h
          cases h
        | ok merged =>
          rw [hb] at h
          simp only [bind, Except.bind] at h
          rw [hm] at h
          cases h
          intro m hmem
          obtain hmem | hmem := List.mem_append.mp hmem
          · exact hG.runLiteral hb m hmem
          · obtain rfl | hmem := List.mem_cons.mp hmem
            · exact hk
            · exact ih hrest hm m hmem

/-- A concatenation has the property if all that is concatenated has it.

**Proof sketch.** What is concatenated is cut into pieces and put together to parts, all of which have the property.
Of no parts a literal is made, of one part the part itself or a call, and of more a call. -/
theorem concat (hns : ∀ m ∈ ns, G m) (h : concat d ns = .ok n) : G n := by
  have hpieces : ∀ m ∈ ns.flatMap Node.pieces, G m := by
    intro m hm
    obtain ⟨k, hk, hm⟩ := List.mem_flatMap.mp hm
    exact hG.pieces (hns k hk) m hm
  cases hm : Node.mergePieces d none (ns.flatMap Node.pieces) with
  | error e =>
    simp only [Node.concat, hm] at h
    cases h
  | ok parts =>
    have hparts := hG.mergePieces hpieces hm
    simp only [Node.concat, hm, bind, Except.bind] at h
    split at h
    · exact hG.constant h
    · split at h
      · cases h
        exact hparts _ List.mem_cons_self
      · cases h
        exact hG.call hparts
    · cases h
      exact hG.call hparts

/-- A sum has the property if both sides have it, also where it concatenates. -/
theorem sum (hl : G left) (hr : G right) (h : sum d left right = .ok n) : G n := by
  unfold Node.sum at h
  split at h
  · exact hG.concat (List.forall_mem_cons.mpr ⟨hl, List.forall_mem_singleton.mpr hr⟩) h
  · cases h
    exact hG.arithmetic rfl hl hr

/-! ### Other operators -/

/-- An aggregate has the property if its arguments have it. -/
theorem aggregate (f : Aggregate) (hns : ∀ m ∈ ns, G m) : G (aggregate f ns) :=
  hG.call fun m hm => hns m (List.mem_of_mem_take hm)

/-- A bitwise operation has the property if both sides have it. -/
theorem bitwise {onBools onNumbers : SqlOp} (hb : onBools.isComparison = false)
    (hn : onNumbers.isComparison = false) (hl : G left) (hr : G right) :
    G (bitwise onBools onNumbers left right) := by
  unfold Node.bitwise
  split
  · exact hG.logical hb hl hr
  · exact hG.arithmetic hn hl hr

/-- The first that is not null has the property if all candidates have it. -/
theorem firstNotNull (hns : ∀ m ∈ ns, G m) : G (firstNotNull ns) := hG.call hns

/-- A binary operator gives a node that has the property if both sides have it. -/
theorem binaryOperator {op : BinaryOp} (hl : G left) (hr : G right) (h : binaryOperator d op left right = .ok n) :
    G n := by
  cases op with
  | eq | ne | lt | le | gt | ge =>
    simp only [Node.binaryOperator] at h
    exact hG.comparison hl hr h
  | and | or =>
    cases h
    exact hG.logical rfl hl hr
  | add => exact hG.sum hl hr h
  | sub | mul | div | mod =>
    cases h
    exact hG.arithmetic rfl hl hr
  | coalesce =>
    cases h
    exact hG.firstNotNull (List.forall_mem_cons.mpr ⟨hl, List.forall_mem_singleton.mpr hr⟩)
  | bitAnd | bitOr =>
    cases h
    exact hG.bitwise rfl rfl hl hr

/-- A choice has the property if its conditions and outcomes have it. -/
theorem choice {bs : List (Node × Node)} (hbs : ∀ b ∈ bs, G b.1 ∧ G b.2) (hn : G n) : G (choice bs n) :=
  hG.case hbs hn

/-- A connective of nodes has the property if all of them have it. -/
theorem joined {op : SqlOp} (ho : op.isComparison = false) (hns : ∀ m ∈ ns, G m) (h : joined op ns = some n) :
    G n := by
  cases ns with
  | nil => cases h
  | cons m rest =>
    cases h
    obtain ⟨hm, hrest⟩ := List.forall_mem_cons.mp hns
    exact List.foldlRecOn rest _ hm fun acc hacc next hnext => hG.combined ho hacc (hrest next hnext)

/-- A conjunction has the property if all members have it. -/
theorem conjunction (hns : ∀ m ∈ ns, G m) (h : conjunction ns = some n) : G n := hG.joined rfl hns h

end Composable

end LambdaSql.Node
