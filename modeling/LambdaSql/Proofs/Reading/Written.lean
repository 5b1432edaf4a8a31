import LambdaSql.Proofs.Reading.Scanner
import LambdaSql.Proofs.Reading.Splice
import LambdaSql.Render.Select

/-!
# Nodes as they are written

A node of arithmetic and tests stands for a tree. Written down, with parentheses where the writer puts
them, it is read as a tree as well. That tree is settled.

## Main definitions

* `Node.Plain` - the nodes in question.
* `Node.tree` - the tree that a node stands for.
* `Node.reading` - the tree of its text.

## Main results

* `Node.settled_reading` - the tree of the text is settled.
-/

namespace LambdaSql.Node

open Reading

/-! ## The nodes in question -/

/-- Whether a text is that of a literal: a value, with a minus sign before it or without one. -/
def IsLiteral (sql : String) : Prop :=
  match sql.toList with
  | '-' :: digits => IsLexeme (String.ofList digits)
  | _ => IsLexeme sql

mutual

/-- The nodes of values, columns, operators, tests for null, tests for membership in a list, the tests
that always have one outcome and the tests of texts that are written with `LIKE`. The texts that are
written as they are have to be words. -/
def Plain : Node → Prop
  | literal sql _ _ => IsLiteral sql
  | bound _ _ name _ => ∀ x ∈ name, IsWord x.toList
  | column aliasName _ _ => ∀ x ∈ aliasName, IsWord x.toList
  | null => True
  | binary _ left right _ => Plain left ∧ Plain right
  | unary _ operand _ | isNull operand _ => Plain operand
  | inList operand items _ => Plain operand ∧ items ≠ [] ∧ AllPlain items
  | raw text _ => text = "1=1" ∨ text = "1=0"
  | call f [text, part] _ => f.isBarePredicate = true ∧ Plain text ∧ Plain part
  | _ => False

/-- Whether all of several nodes are plain. -/
def AllPlain : List Node → Prop
  | [] => True
  | n :: rest => Plain n ∧ AllPlain rest

end

/-! ## Trees -/

/-- A literal; a minus sign at its beginning is an operator. -/
def literalTree (sql : String) : Tree :=
  match sql.toList with
  | '-' :: digits => .unary .negate (.atom (String.ofList digits))
  | _ => .atom sql

/-- A test that always has one outcome. -/
def rawTree (text : String) : Tree :=
  .binary (.of .eq) (.atom "1") (.atom (if text = "1=1" then "1" else "0"))

/-- The pattern of a test of texts, around the part that is looked for. -/
def pattern (f : SqlFunction) (part : Tree) : Tree :=
  let any := Tree.atom "'%'"
  .call "CONCAT" (match f with
    | .startsWith => [part, any]
    | .endsWith => [any, part]
    | _ => [any, part, any])

/-- The placeholder of a bound value. -/
def placeholder (name : Option String) : String := name.getD "?"

mutual

/-- The tree that a node stands for, the names of bound values being their placeholders. -/
def tree : Node → Tree
  | literal sql _ _ => literalTree sql
  | bound _ _ name _ => .atom (placeholder name)
  | column aliasName name _ => .atom (columnText MySql.dialect aliasName name)
  | binary op left right _ => .binary (.of op) (tree left) (tree right)
  | unary o operand _ => .unary o (tree operand)
  | isNull operand negated => .isNull (tree operand) negated
  | inList operand items negated => .isIn (tree operand) (trees items) negated
  | raw text _ => rawTree text
  | call f [text, part] _ => .binary .like (tree text) (pattern f (tree part))
  | null => .atom "NULL"
  | _ => .atom ""

/-- The trees that several nodes stand for. -/
def trees : List Node → List Tree
  | [] => []
  | n :: rest => tree n :: trees rest

end

/-- The tree of a sign with the tokens of a tree after it. -/
def signed : Tree → Tree
  | .binary p a b => .binary p (signed a) b
  | t => .unary .negate t

mutual

/-- The tree of the text of a node. -/
def reading : Node → Tree
  | literal sql _ _ => literalTree sql
  | bound _ _ name _ => .atom (placeholder name)
  | column aliasName name _ => .atom (columnText MySql.dialect aliasName name)
  | binary op left right _ =>
    .splice (.of op) ((reading left).groupIf (left.precedence < op.precedence))
      ((reading right).groupIf (wrapsRight op right))
  | unary .not operand _ => .unary .not (.group (reading operand))
  | unary .negate operand _ => signed ((reading operand).groupIf (operand.precedence ≤ negatePrecedence))
  | isNull operand negated =>
    .isNull ((reading operand).groupIf (operand.precedence ≤ predicatePrecedence)) negated
  | inList operand items negated =>
    .isIn ((reading operand).groupIf (operand.precedence ≤ predicatePrecedence)) (readings items) negated
  | raw text _ => rawTree text
  | call f [text, part] _ =>
    .binary .like ((reading text).groupIf (text.precedence < atomPrecedence)) (pattern f (reading part))
  | null => .atom "NULL"
  | _ => .atom ""

/-- The trees of the texts of several nodes. -/
def readings : List Node → List Tree
  | [] => []
  | n :: rest => reading n :: readings rest

end

/-! ## Strength -/

/-- How strongly what has a precedence is held together: the tests and what binds less strongly take
the places below those of the operators on numbers. -/
def strength (precedence : Nat) : Nat :=
  if precedence ≤ predicatePrecedence then precedence - 1 else precedence

/-- A higher precedence is no weaker. -/
theorem strength_mono {p q : Nat} (h : p ≤ q) : strength p ≤ strength q := by
  unfold strength
  split <;> split <;> simp only [predicatePrecedence] at * <;> omega

/-- A precedence that is higher is stronger. -/
theorem strength_lt {p q : Nat} (hp : 1 ≤ p) (h : p < q) : strength p < strength q := by
  unfold strength
  split <;> split <;> simp only [predicatePrecedence] at * <;> omega

/-- An operator holds as its precedence tells, a disjunction of bits less strongly than that. -/
theorem level_of_le (op : SqlOp) : (Operator.of op).level ≤ strength op.precedence := by
  cases op <;> decide

/-- Under a test stand the connectives and the tests. -/
theorem level_of_le_test {op : SqlOp} : (Operator.of op).level ≤ testLevel ↔
    op.precedence ≤ predicatePrecedence := by
  cases op <;> decide

/-- An operator binds less tightly than a test just where its precedence is lower than a predicate's. -/
theorem level_of_lt_test {op : SqlOp} : (Operator.of op).level < testLevel ↔
    op.precedence < predicatePrecedence := by
  cases op <;> decide

/-- The precedences of operators are from two to eight. -/
theorem precedence_le (op : SqlOp) : 2 ≤ op.precedence ∧ op.precedence ≤ 8 := by
  cases op <;> decide

/-- How strongly a connective or a comparison holds. -/
theorem level_of_low {op : SqlOp} (h : op.precedence ≤ predicatePrecedence) :
    (Operator.of op).level = op.precedence - 1 := by
  cases op <;> first | rfl | exact absurd h (by decide)

/-- Operators that bind more strongly than a comparison hold more strongly than a test. -/
theorem testLevel_lt_level {op : SqlOp} (h : predicatePrecedence < op.precedence) :
    testLevel < (Operator.of op).level := by
  cases op <;> first | decide | exact absurd h (by decide)

/-- An operator binds less tightly than what is closed. -/
theorem op_level_lt_closed (op : SqlOp) : (Operator.of op).level < closedLevel :=
  Nat.lt_trans (Operator.level_lt_sign _) (by decide)

/-- No associative operator binds as a test does. -/
theorem precedence_ne_of_associative {op : SqlOp} (h : op.isAssociative = true) :
    op.precedence ≠ predicatePrecedence ∧ op.precedence ≠ notPrecedence := by
  cases op <;> first | cases h; done | decide

/-- A right operand stands without parentheses when it binds more strongly than its operator, or goes
on with it. -/
theorem wrapsRight_eq_false {op : SqlOp} {r : Node} (h : wrapsRight op r = false) :
    op.precedence < r.precedence ∨
      op.isAssociative = true ∧ ∃ a b t, r = binary op a b t := by
  simp only [wrapsRight, Bool.or_eq_false_iff, decide_eq_false_iff_not, Nat.not_lt,
    Bool.and_eq_false_iff, beq_eq_false_iff_ne, Bool.not_eq_false', Bool.and_eq_true] at h
  obtain ⟨hle, hne | ⟨hassoc, hsame⟩⟩ := h
  · exact .inl (Nat.lt_of_le_of_ne hle (Ne.symm hne))
  · refine .inr ⟨hassoc, ?_⟩
    split at hsame
    · next o a b t =>
      obtain rfl := beq_iff_eq.mp hsame
      exact ⟨a, b, t, rfl⟩
    · cases hsame

/-- Whether a node is a test that always has one outcome. -/
def isRaw : Node → Bool
  | raw .. => true
  | _ => false

/-- Whether a node is a disjunction of bits. -/
def isBitOr : Node → Bool
  | binary .bitOr .. => true
  | _ => false

/-- A node counts as a bitwise or where it is one. -/
theorem isBitOr_iff {n : Node} : n.isBitOr = true ↔ ∃ l r t, n = binary .bitOr l r t := by
  constructor
  · intro h
    unfold isBitOr at h
    split at h
    · exact ⟨_, _, _, rfl⟩
    · cases h
  · rintro ⟨l, r, t, rfl⟩
    rfl

/-- A literal has a sign before its digits, or it has none. -/
theorem literalTree_cases (sql : String) :
    (∃ digits, sql.toList = '-' :: digits ∧
      literalTree sql = .unary .negate (.atom (String.ofList digits))) ∨
    sql.toList.head? ≠ some '-' ∧ literalTree sql = .atom sql := by
  unfold literalTree
  split
  · next digits heq => exact .inl ⟨digits, heq, rfl⟩
  · next hne =>
    refine .inr ⟨fun hhead => ?_, rfl⟩
    obtain ⟨digits, heq⟩ := List.head?_eq_some_iff.mp hhead
    exact hne digits heq

/-- How strongly the tree of a node holds together: tests that always have one outcome, which have
the precedence of values, as tests, disjunctions of bits below conjunctions, and every other node as
its precedence tells.

**Proof sketch.** By the kind of node. Operators and tests hold as their precedence tells but for the disjunction of
bits, a literal as a negation if it begins with a minus, and a function with two arguments as the match that it is
written as. -/
theorem level_tree {n : Node} (h : n.Plain) :
    n.isRaw = true ∧ n.precedence = atomPrecedence ∧ n.tree.level = testLevel ∨
      n.isRaw = false ∧ n.isBitOr = true ∧ n.precedence = 6 ∧ n.tree.level = 5 ∨
      n.isRaw = false ∧ n.isBitOr = false ∧ n.tree.level = strength n.precedence := by
  cases n with
  | binary op l r t =>
    cases op
    case bitOr => exact .inr (.inl ⟨rfl, rfl, rfl, rfl⟩)
    all_goals exact .inr (.inr ⟨rfl, rfl, rfl⟩)
  | unary o operand t => cases o <;> exact .inr (.inr ⟨rfl, rfl, rfl⟩)
  | raw text t => exact .inl ⟨rfl, rfl, rfl⟩
  | literal sql v t =>
    refine .inr (.inr ⟨rfl, rfl, ?_⟩)
    obtain ⟨digits, hsql, htree⟩ | ⟨hsql, htree⟩ := literalTree_cases sql
    · rw [tree, htree, precedence, hsql, List.head?_cons, if_pos rfl]
      rfl
    · rw [tree, htree, precedence, if_neg hsql]
      rfl
  | call f args t =>
    obtain _ | ⟨text, _ | ⟨part, _ | _⟩⟩ := args
    · exact h.elim
    · exact h.elim
    · refine .inr (.inr ⟨rfl, rfl, ?_⟩)
      rw [precedence, if_pos h.1]
      rfl
    · exact h.elim
  | case | inQuery | «exists» | subquery | group => exact h.elim
  | _ => exact .inr (.inr ⟨rfl, rfl, rfl⟩)

/-! ## The tree of the text -/

/-- What the tree of a node's text is known to be: it is settled, it is simple if the node binds more
strongly than a test, it holds together as its node does or as a test, and an operator that leaves the
node without parentheses finds an operand at its left end. -/
structure Stands (n : Node) (t : Tree) : Prop where
  settled : t.Settled
  simple : predicatePrecedence < n.precedence → t.Simple
  level : min testLevel (n.precedence - 1) ≤ t.level
  leads : ∀ op : SqlOp, op.precedence < n.precedence ∨
    op.isAssociative = true ∧ op.precedence = n.precedence → Tree.Leads (.of op) t

/-- A simple tree of a node that binds more strongly than a test. -/
theorem Stands.of_simple {n : Node} {t : Tree} (hs : t.Settled) (h : t.Simple) : Stands n t where
  settled := hs
  simple := fun _ => h
  level := Nat.le_trans (Nat.min_le_left _ _) h.level
  leads := fun op _ => h.leads (.of op)

/-- A tree of a node that binds as a test does, or less strongly. -/
theorem Stands.of_level {n : Node} {t : Tree} (hs : t.Settled) (hp : n.precedence ≤ predicatePrecedence)
    (hl : n.precedence - 1 ≤ t.level)
    (hleads : ∀ op : SqlOp, op.isAssociative = true → op.precedence = n.precedence →
      Tree.Leads (.of op) t) : Stands n t where
  settled := hs
  simple := fun h => absurd hp (Nat.not_le.mpr h)
  level := Nat.le_trans (Nat.min_le_right _ _) hl
  leads := by
    rintro op (hlt | ⟨hassoc, heq⟩)
    · refine Tree.leads_of_lt (Nat.lt_of_lt_of_le ?_ hl)
      have := precedence_le op
      rw [level_of_low (by omega)]
      omega
    · exact hleads op hassoc heq

/-- In parentheses a tree stands anywhere. -/
theorem simple_group (t : Tree) : (Tree.group t).Simple := by
  show signLevel ≤ closedLevel
  decide

/-- What an operator that leaves a node without parentheses finds. -/
theorem Stands.leads_groupIf {n : Node} {t : Tree} {op : SqlOp} {needed : Bool} (h : Stands n t)
    (hop : needed = false → op.precedence < n.precedence ∨
      op.isAssociative = true ∧ op.precedence = n.precedence) :
    Tree.Leads (.of op) (t.groupIf needed) := by
  cases needed with
  | true => exact (simple_group t).leads _
  | false => exact h.leads op (hop rfl)

/-- A node without parentheses under an operator that binds more strongly than a test. -/
theorem Stands.simple_groupIf {n : Node} {t : Tree} (h : Stands n t) (needed : Bool)
    (hn : needed = false → predicatePrecedence < n.precedence) : (t.groupIf needed).Simple := by
  cases needed with
  | true => exact simple_group t
  | false => exact h.simple (hn rfl)

/-- A node without parentheses under a connective or a comparison. -/
theorem Stands.level_groupIf {n : Node} {t : Tree} {op : SqlOp} {needed : Bool} (h : Stands n t)
    (hop : op.precedence ≤ predicatePrecedence)
    (hn : needed = false → op.precedence ≤ n.precedence) :
    (Operator.of op).level ≤ (t.groupIf needed).level := by
  rw [level_of_low hop]
  simp only [predicatePrecedence] at hop
  cases needed with
  | true =>
    show _ ≤ closedLevel
    simp only [closedLevel]
    omega
  | false =>
    have := hn rfl
    have := h.level
    simp only [testLevel] at this
    show _ ≤ t.level
    omega

/-- A binary operator between the trees of its operands.

**Proof sketch.** By whether the operator binds more strongly than a test. If it does, both operands are simple and
what is put together from them is simple too. If it does not, both hold at least as strongly as the operator, and the
whole holds as the operator does. -/
theorem Stands.binary {op : SqlOp} {l r : Node} {a b : Tree} {t : HostType} (hl : Stands l a)
    (hr : Stands r b) :
    Stands (.binary op l r t) (.splice (.of op) (a.groupIf (l.precedence < op.precedence))
      (b.groupIf (wrapsRight op r))) := by
  have hleft (h : decide (l.precedence < op.precedence) = false) : op.precedence ≤ l.precedence :=
    Nat.not_lt.mp (of_decide_eq_false h)
  have hright (h : wrapsRight op r = false) : op.precedence < r.precedence ∨
      op.isAssociative = true ∧ op.precedence = r.precedence := by
    obtain hlt | ⟨hassoc, c, d, u, rfl⟩ := wrapsRight_eq_false h
    · exact .inl hlt
    · exact .inr ⟨hassoc, rfl⟩
  have hright' (h : wrapsRight op r = false) : op.precedence ≤ r.precedence :=
    (hright h).elim Nat.le_of_lt fun h => Nat.le_of_eq h.2
  have hleads := hr.leads_groupIf hright
  by_cases hop : predicatePrecedence < op.precedence
  · have hsl := hl.simple_groupIf _ fun h => Nat.lt_of_lt_of_le hop (hleft h)
    have hsr := hr.simple_groupIf _ fun h => Nat.lt_of_lt_of_le hop (hright' h)
    have htest := Nat.le_of_lt (testLevel_lt_level hop)
    exact .of_simple (Tree.settled_splice (hl.settled.groupIf _) (hr.settled.groupIf _) hleads
      (.inl ⟨hsl, hsr, htest⟩)).1 (.splice htest hsl hsr)
  · have hop := Nat.not_lt.mp hop
    have hll := hl.level_groupIf hop hleft
    have hlr := hr.level_groupIf hop hright'
    obtain ⟨hs, hlevel⟩ := Tree.settled_splice (hl.settled.groupIf _) (hr.settled.groupIf _) hleads
      (.inr ⟨hll, hlr⟩)
    refine .of_level hs hop ?_ fun op' hassoc heq => Tree.Leads.splice (hl.leads_groupIf fun h => ?_)
    · rw [hlevel hll hlr, level_of_low hop]
      exact Nat.le_refl _
    · have heq : op'.precedence = op.precedence := heq
      have := hleft h
      rcases Nat.lt_or_eq_of_le this with hlt | he
      · exact .inl (by omega)
      · exact .inr ⟨hassoc, by omega⟩

/-- A value needs no parentheses. -/
theorem stands_atom (n : Node) (text : String) : Stands n (.atom text) := by
  refine .of_simple trivial ?_
  show signLevel ≤ closedLevel
  decide

/-- A node that binds most strongly is a value or a test that always has one outcome.

**Proof sketch.** By the kind of node. All operators, tests and matches bind less strongly than a negation, and so
does a literal that begins with a minus. -/
theorem reading_of_closed {n : Node} (h : n.Plain) (hp : negatePrecedence < n.precedence) :
    n.isRaw = false ∧ (∃ text, n.reading = .atom text) ∨
      n.isRaw = true ∧ ∃ text, n.reading = rawTree text := by
  cases n with
  | literal sql v t =>
    refine .inl ⟨rfl, sql, ?_⟩
    obtain ⟨digits, hsql, -⟩ | ⟨-, htree⟩ := literalTree_cases sql
    · simp [precedence, hsql, negatePrecedence] at hp
    · exact htree
  | bound | column | null => exact .inl ⟨rfl, _, rfl⟩
  | raw text t => exact .inr ⟨rfl, text, rfl⟩
  | binary op l r t =>
    have := precedence_le op
    simp only [precedence, negatePrecedence] at hp
    omega
  | unary o operand t => cases o <;> exact absurd hp (by simp [precedence, negatePrecedence, notPrecedence])
  | isNull | inList => exact absurd hp (by simp [precedence, negatePrecedence, predicatePrecedence])
  | call f args t =>
    obtain _ | ⟨text, _ | ⟨part, _ | _⟩⟩ := args
    · exact h.elim
    · exact h.elim
    · simp [precedence, h.1, negatePrecedence, predicatePrecedence] at hp
    · exact h.elim
  | case | inQuery | «exists» | subquery | group => exact h.elim

/-- A raw text is settled, and simple. -/
private theorem settled_rawTree (text : String) : (rawTree text).Settled ∧ (rawTree text).Simple := by
  refine ⟨⟨?_, ?_, trivial, trivial⟩, ?_, ?_, ?_⟩
  · show testLevel ≤ closedLevel
    decide
  · show testLevel < closedLevel
    decide
  · exact Nat.le_refl _
  · show signLevel ≤ closedLevel
    decide
  · show signLevel ≤ closedLevel
    decide

/-- The pattern of a function is settled if its part is. -/
private theorem settled_pattern (f : SqlFunction) {part : Tree} (h : part.Settled) :
    (pattern f part).Settled := by
  unfold pattern
  split <;> simp [Tree.Settled, Tree.AllSettled, h]

/-- A sign before the tree of an operand. -/
theorem Stands.signed {n : Node} {t : HostType} (h : n.Plain) (hn : Stands n n.reading) :
    Stands (.unary .negate n t)
      (signed (n.reading.groupIf (n.precedence ≤ negatePrecedence))) := by
  have closed (u : Tree) (hu : u.level = closedLevel) (hs : u.Settled) :
      (Tree.unary .negate u).Settled ∧ (Tree.unary .negate u).Simple :=
    ⟨⟨by rw [hu]; decide, hs⟩, Nat.le_refl _⟩
  by_cases hp : n.precedence ≤ negatePrecedence
  · rw [Tree.groupIf, if_pos (decide_eq_true hp)]
    obtain ⟨hs, hsimple⟩ := closed (.group n.reading) rfl hn.settled
    exact .of_simple hs hsimple
  · rw [Tree.groupIf, if_neg (by simpa using hp)]
    obtain ⟨-, text, heq⟩ | ⟨-, text, heq⟩ := reading_of_closed h (Nat.not_le.mp hp)
    · rw [heq]
      obtain ⟨hs, hsimple⟩ := closed (.atom text) rfl trivial
      exact .of_simple hs hsimple
    · rw [heq]
      obtain ⟨hs, hsimple⟩ := closed (.atom "1") rfl trivial
      have hraw := settled_rawTree text
      refine .of_simple ⟨?_, hraw.1.2.1, hs, trivial⟩ ⟨Nat.le_refl _, hsimple, hraw.2.2.2⟩
      show testLevel ≤ signLevel
      decide

mutual

/-- **The tree of the text of a plain node is settled**, and stands wherever the writer leaves the
node without parentheses.

**Proof sketch.** By induction on the node: the writer puts an operand in parentheses unless its precedence is higher
than needed at its place, and precedences are ordered as the levels of the parser are. -/
theorem stands_reading : (n : Node) → n.Plain → Stands n n.reading
  | literal sql v t, _ => by
    obtain ⟨digits, -, htree⟩ | ⟨-, htree⟩ := literalTree_cases sql
    · rw [reading, htree]
      refine .of_simple ⟨?_, trivial⟩ (Nat.le_refl _)
      show signLevel < closedLevel
      decide
    · rw [reading, htree]
      exact stands_atom _ sql
  | bound .., _ => stands_atom _ _
  | column .., _ => stands_atom _ _
  | null, _ => stands_atom _ _
  | binary op l r t, h => by
    rw [reading]
    exact (stands_reading l h.1).binary (stands_reading r h.2)
  | unary .negate operand t, h => by
    rw [reading]
    exact (stands_reading operand h).signed h
  | unary .not operand t, h => by
    have ih := stands_reading operand h
    refine .of_level ⟨?_, ih.settled⟩ ?_ (Nat.le_refl _) fun op hassoc heq => ?_
    · show notLevel < closedLevel
      decide
    · show notPrecedence ≤ predicatePrecedence
      decide
    · exact absurd heq (precedence_ne_of_associative hassoc).2
  | isNull operand negated, h => by
    have ih := stands_reading operand h
    have hsimple := ih.simple_groupIf (operand.precedence ≤ predicatePrecedence)
      fun hn => Nat.not_le.mp (of_decide_eq_false hn)
    exact .of_level ⟨hsimple.level, ih.settled.groupIf _⟩ (Nat.le_refl _) (Nat.le_refl _)
      fun op hassoc heq => absurd heq (precedence_ne_of_associative hassoc).1
  | inList operand items negated, h => by
    have ih := stands_reading operand h.1
    have hitems := settled_readings items h.2.2
    have hsimple := ih.simple_groupIf (operand.precedence ≤ predicatePrecedence)
      fun hn => Nat.not_le.mp (of_decide_eq_false hn)
    have hne : readings items ≠ [] := by
      cases items with
      | nil => exact absurd rfl h.2.1
      | cons => exact nofun
    exact .of_level ⟨hsimple.level, hne, ih.settled.groupIf _, hitems⟩ (Nat.le_refl _) (Nat.le_refl _)
      fun op hassoc heq => absurd heq (precedence_ne_of_associative hassoc).1
  | raw text t, _ => .of_simple (settled_rawTree text).1 (settled_rawTree text).2
  | call f [text, part] t, h => by
    have ih := stands_reading text h.2.1
    have ih' := stands_reading part h.2.2
    have hsimple := ih.simple_groupIf (text.precedence < atomPrecedence) fun hn =>
      Nat.lt_of_lt_of_le (by decide) (Nat.not_lt.mp (of_decide_eq_false hn))
    have hp : (call f [text, part] t).precedence = predicatePrecedence := by
      rw [precedence, if_pos h.1]
    refine .of_level ⟨hsimple.level, ?_, ih.settled.groupIf _, settled_pattern f ih'.settled⟩
      (Nat.le_of_eq hp) ?_ fun op hassoc heq => ?_
    · show testLevel < closedLevel
      decide
    · rw [hp]
      exact Nat.le_refl _
    · exact absurd (heq.trans hp) (precedence_ne_of_associative hassoc).1
  | call _ [] _, h | call _ [_] _, h | call _ (_ :: _ :: _ :: _) _, h | case .., h
  | inQuery .., h | .exists .., h | subquery .., h | group .., h => h.elim

/-- The trees of the texts of several plain nodes are settled. -/
theorem settled_readings : (ns : List Node) → AllPlain ns → Tree.AllSettled (readings ns)
  | [], _ => trivial
  | n :: rest, h => ⟨(stands_reading n h.1).settled, settled_readings rest h.2⟩

end

/-- The tree of a plain node's text is settled. -/
theorem settled_reading {n : Node} (h : n.Plain) : n.reading.Settled := (stands_reading n h).settled

end LambdaSql.Node
