import LambdaSql.Sql.Node

/-!
# Tests

Where a statement needs a test, a truth value is compared with true. A test with an opposite form
is negated by taking that form.

## Main definitions

* `Node.toPredicate` - a truth value as a test.
* `Node.negation` - the opposite of a test.
-/

namespace LambdaSql.Node

/-- A truth value as a test. -/
def toPredicate (n : Node) : Node :=
  if n.isPredicate then n
  else
    match n with
    | literal _ (.bool b) _ => always b
    | n => equal n (ofBool true)

/-- Whether a node is the literal for true. -/
def isTrueLiteral : Node → Bool
  | literal _ (.bool true) _ => true
  | _ => false

/-- The opposite of a test. -/
def negation : Node → Node
  | inList operand items false =>
    match items with
    | [null] => always true
    | _ => inList operand items true
  | inList operand items true => inList operand items false
  | inQuery operand query negated => inQuery operand query !negated
  | .exists query negated => .exists query !negated
  | isNull operand negated => isNull operand !negated
  | raw text t =>
    if text = "1=1" then raw "1=0" t
    else if text = "1=0" then raw "1=1" t
    else unary .not (raw text t) .bool
  | binary .eq left right t =>
    if right.isTrueLiteral && !left.isPredicate then binary .eq left (ofBool false) t
    else unary .not (binary .eq left right t) .bool
  | unary .not operand _ => operand
  | n => unary .not n .bool

end LambdaSql.Node
