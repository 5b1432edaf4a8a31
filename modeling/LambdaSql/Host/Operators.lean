import LambdaSql.Number.Checked
import LambdaSql.Value.Text
import LambdaSql.Value.Order
import LambdaSql.Expr.Basic
import LambdaSql.Host.Evaluation

/-!
# Operators on values

## Main definitions

* `Host.arithmetic` - numbers: exact on whole numbers, otherwise floating-point.
* `Host.binary` - the binary operators that need both operands.
* `Host.negate` - the sign turned round.
-/

namespace LambdaSql.Host

open Calendar

/-- Arithmetic on whole numbers, without a value when the result is out of range. -/
def wholeArithmetic (op : BinaryOp) (a b : Int64) : Option Int64 :=
  match op with
  | .add => Checked.add a b
  | .sub => Checked.sub a b
  | .mul => Checked.mul a b
  | .div => Checked.div a b
  | .mod => Checked.rem a b
  | _ => none

/-- Arithmetic on floating-point numbers, without a value for a zero divisor. -/
def floatArithmetic (op : BinaryOp) (x y : Float) : Option Float :=
  match op with
  | .add => some (x + y)
  | .sub => some (x - y)
  | .mul => some (x * y)
  | .div => if y == 0 then none else some (x / y)
  | .mod => if y == 0 then none else some (Number.remainder x y)
  | _ => none

/-- Whether a value is a decimal. -/
def isDecimal : Value → Bool
  | .decimal _ => true
  | _ => false

/-- Whether a value is a floating-point number. -/
def isFloat : Value → Bool
  | .float _ => true
  | _ => false

/-- Arithmetic on numbers. A decimal keeps a result decimal unless the other operand is a
floating-point number. -/
def arithmetic (op : BinaryOp) (a b : Value) : Option Value :=
  match a, b with
  | .int m, .int n => (wholeArithmetic op m n).map .int
  | _, _ => do
    let x ← a.toFloat?
    let y ← b.toFloat?
    let z ← floatArithmetic op x y
    if (isDecimal a || isDecimal b) && !(isFloat a || isFloat b) then
      return .decimal (Number.text z)
    else return .float z

/-- The whole number that stands for a value in a bit operation. -/
def bits? : Value → Option Int64
  | .int n => some n
  | .enum e => some e.number
  | _ => none

/-- The sum of two values: texts are joined, and durations are added. -/
def add (a b : Value) : Option Value :=
  match a, b with
  | .string _, _ | _, .string _ => some (.string (a.concatText ++ b.concatText))
  | .moment m, .span d => (m.add d).map .moment
  | .time t, .span d => some (.time (t.add d).1)
  | .span d, .span e => (d.add e).map .span
  | _, _ => arithmetic .add a b

/-- The difference of two values. -/
def sub (a b : Value) : Option Value :=
  match a, b with
  | .moment m, .span d => (m.add d.neg).map .moment
  | .moment m, .moment n => (m.since n).map .span
  | .span d, .span e => (d.sub e).map .span
  | _, _ => arithmetic .sub a b

/-- A bit operation, on truth values or on whole numbers. -/
def bitwise (onBools : Bool → Bool → Bool) (onWords : Int64 → Int64 → Int64) (a b : Value) :
    Option Value :=
  match a, b with
  | .bool p, .bool q => some (.bool (onBools p q))
  | _, _ => do
    let m ← bits? a
    let n ← bits? b
    return .int (onWords m n)

/-- Whether two values are in an order that passes a test. -/
def compared (test : Ordering → Bool) (a b : Value) : Option Value :=
  (a.compare? b).map fun o => .bool (test o)

/-- A binary operator on two values. The operators that may do without their second operand have
no value here. -/
def binary (op : BinaryOp) (a b : Value) : Option Value :=
  match op with
  | .eq => some (.bool (a.equals b))
  | .ne => some (.bool (!a.equals b))
  | .lt => compared (· == .lt) a b
  | .le => compared (· != .gt) a b
  | .gt => compared (· == .gt) a b
  | .ge => compared (· != .lt) a b
  | .add => add a b
  | .sub => sub a b
  | .mul | .div | .mod => arithmetic op a b
  | .bitAnd => bitwise (· && ·) (· &&& ·) a b
  | .bitOr => bitwise (· || ·) (· ||| ·) a b
  | .and | .or | .coalesce => none

/-- A decimal text with its sign turned round. -/
def negateText (s : String) : String :=
  match s.toList with
  | '-' :: cs => String.ofList cs
  | cs => String.ofList ('-' :: cs)

/-- A value with its sign turned round. -/
def negate : Value → Option Value
  | .int n => (Checked.neg n).map .int
  | .float x => some (.float (-x))
  | .decimal s => some (.decimal (negateText s))
  | .span d => some (.span d.neg)
  | _ => none

end LambdaSql.Host
