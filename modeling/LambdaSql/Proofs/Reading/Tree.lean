import LambdaSql.Sql.Node
import Mathlib

/-!
# Expressions as a database reads them

A database takes the text of an expression as a sequence of tokens and builds a tree from it. How
strongly the operators hold decides which of the trees with these tokens it builds: every operand is
held more strongly than the operator it stands under, and operators that hold equally are taken from
left to right. Trees with that property are called settled.

## Main definitions

* `Reading.Operator`, `Reading.Token` - the symbols of an expression.
* `Reading.Tree` - trees, in which parentheses are kept.
* `Reading.Tree.tokens` - the tokens of a tree.
* `Reading.Tree.level`, `Reading.Tree.Settled` - how strongly a tree holds together, and the trees
  that are built.
-/

namespace LambdaSql.Reading

/-! ## Symbols -/

/-- An operator between two operands. -/
inductive Operator where
  | of (op : SqlOp)
  | like
deriving DecidableEq, Repr

/-- How strongly the tests hold. -/
def testLevel : Nat := 4

/-- How strongly a negated test holds. -/
def notLevel : Nat := 3

/-- How strongly a sign holds. -/
def signLevel : Nat := 9

/-- How strongly a value holds together that needs no operator. -/
def closedLevel : Nat := 10

/-- How strongly an operator holds: multiplications most, then sums, the two bit operations, tests,
and the connectives. -/
def Operator.level : Operator → Nat
  | of .mul | of .div | of .intDiv | of .mod => 8
  | of .add | of .sub => 7
  | of .bitAnd => 6
  | of .bitOr => 5
  | of .eq | of .ne | of .lt | of .le | of .gt | of .ge | like => testLevel
  | of .and => 2
  | of .or => 1

/-- A sign holds more strongly than every operator. -/
theorem Operator.level_lt_sign (o : Operator) : o.level < signLevel := by
  rcases o with op | _
  · cases op <;> decide
  · decide

/-- How strongly an operator before its operand holds. -/
def unaryLevel : SqlUnaryOp → Nat
  | .negate => signLevel
  | .not => notLevel

/-- Whether a run of an operator may be grouped either way. -/
def Operator.isAssociative : Operator → Bool
  | of op => op.isAssociative
  | like => false

/-- A symbol of an expression. The parenthesis that begins a list belongs to the word before it. -/
inductive Token where
  /-- A value: a number, a text, a name or a placeholder. -/
  | atom (text : String)
  | op (o : Operator)
  | not
  | isNull (negated : Bool)
  | isIn (negated : Bool)
  /-- The name of a function with the parenthesis after it. -/
  | call (name : String)
  | opening
  | closing
  | comma
deriving DecidableEq, Repr

/-- The token of an operator before its operand. -/
def unaryToken : SqlUnaryOp → Token
  | .negate => .op (.of .sub)
  | .not => .not

/-! ## Trees -/

/-- An expression as it is read. -/
inductive Tree where
  | atom (text : String)
  | binary (o : Operator) (left right : Tree)
  | unary (o : SqlUnaryOp) (operand : Tree)
  | isNull (operand : Tree) (negated : Bool)
  | isIn (operand : Tree) (items : List Tree) (negated : Bool)
  | call (name : String) (args : List Tree)
  /-- An expression in parentheses. -/
  | group (inner : Tree)

namespace Tree

/-- How strongly a tree holds together as an operand. -/
def level : Tree → Nat
  | binary o _ _ => o.level
  | unary o _ => unaryLevel o
  | isNull .. | isIn .. => testLevel
  | atom _ | call .. | group _ => closedLevel

mutual

/-- The tokens of a tree. -/
def tokens : Tree → List Token
  | atom text => [.atom text]
  | binary o left right => tokens left ++ .op o :: tokens right
  | unary o operand => unaryToken o :: tokens operand
  | isNull operand negated => tokens operand ++ [.isNull negated]
  | isIn operand items negated => tokens operand ++ .isIn negated :: (listTokens items ++ [.closing])
  | call name args => .call name :: (listTokens args ++ [.closing])
  | group inner => .opening :: (tokens inner ++ [.closing])

/-- The tokens of several trees with commas between them. -/
def listTokens : List Tree → List Token
  | [] => []
  | [t] => tokens t
  | t :: rest => tokens t ++ .comma :: listTokens rest

end

mutual

/-- Whether every operand is held more strongly than the operator it stands under, a left operand at
least as strongly. -/
def Settled : Tree → Prop
  | atom _ => True
  | binary o left right => o.level ≤ left.level ∧ o.level < right.level ∧ Settled left ∧ Settled right
  | unary o operand => unaryLevel o < operand.level ∧ Settled operand
  | isNull operand _ => testLevel ≤ operand.level ∧ Settled operand
  | isIn operand items _ =>
    testLevel ≤ operand.level ∧ items ≠ [] ∧ Settled operand ∧ AllSettled items
  | call _ args => args ≠ [] ∧ AllSettled args
  | group inner => Settled inner

/-- Whether all of several trees are settled. -/
def AllSettled : List Tree → Prop
  | [] => True
  | t :: rest => Settled t ∧ AllSettled rest

end

/-- A tree in parentheses if they are needed. -/
def groupIf (needed : Bool) (t : Tree) : Tree := if needed then group t else t

/-- A settled tree is settled in parentheses, too. -/
theorem Settled.groupIf {t : Tree} (h : t.Settled) (needed : Bool) : (t.groupIf needed).Settled := by
  cases needed <;> exact h

end Tree

end LambdaSql.Reading
