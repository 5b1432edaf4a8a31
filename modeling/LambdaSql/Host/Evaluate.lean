import LambdaSql.Host.Call

/-!
# Evaluating expressions

## Main definitions

* `Bindings` - values for the members of lambda parameters.
* `Host.evaluate` - the value of an expression under bindings.
-/

namespace LambdaSql

/-- Values for the members of lambda parameters. -/
abbrev Bindings := String → String → Option Value

/-- No values. -/
def Bindings.none : Bindings := fun _ _ => .none

/-- Bindings with one more value, which hides an earlier one. -/
def Bindings.bind (b : Bindings) (param member : String) (value : Value) : Bindings :=
  fun p m => if p = param ∧ m = member then some value else b p m

namespace Host

mutual

/-- The value of an expression. Calls evaluate their arguments before their target. -/
def evaluate (b : Bindings) : Expr → Evaluation Value
  | .constant v | .captured _ v => .ok v
  | .static type name => .ofOption (constantOf type name)
  | .member (.param p) name => .ofOption (b p name)
  | .member target name => do
    let v ← evaluate b target
    .ofOption (member v name)
  | .convert operand target => do
    let v ← evaluate b operand
    .ofOption (convert v target)
  | .unary op operand => do
    let v ← evaluate b operand
    match op with
    | .not => .ofOption (v.toBool?.map fun p => .bool !p)
    | .negate => .ofOption (negate v)
  | .binary op left right =>
    match op with
    | .and => do
      let l ← evaluate b left
      let p ← .ofOption l.toBool?
      if !p then return .bool false
      let r ← evaluate b right
      return .bool (← .ofOption r.toBool?)
    | .or => do
      let l ← evaluate b left
      let p ← .ofOption l.toBool?
      if p then return .bool true
      let r ← evaluate b right
      return .bool (← .ofOption r.toBool?)
    | .coalesce => do
      let l ← evaluate b left
      if l.isNull then evaluate b right else return l
    | op => do
      let l ← evaluate b left
      let r ← evaluate b right
      .ofOption (binary op l r)
  | .conditional test ifTrue ifFalse => do
    let t ← evaluate b test
    let p ← .ofOption t.toBool?
    if p then evaluate b ifTrue else evaluate b ifFalse
  | .array items => do return .list (← evaluateItems b items)
  | .object members => do return (Record.ofList (← evaluateMembers b members)).toValue
  | .call (some target) _ method args => do
    let args ← evaluateItems b args
    callOn (← evaluate b target) method args
  | .call none (some type) method args => do
    let args ← evaluateItems b args
    callOf type method args
  | .call none none _ args => do
    let _ ← evaluateItems b args
    .unevaluable
  | .lambda .. | .param _ | .query _ => .unevaluable

/-- The values of several expressions, from left to right. -/
def evaluateItems (b : Bindings) : List Expr → Evaluation (List Value)
  | [] => return []
  | e :: rest => do
    let v ← evaluate b e
    return v :: (← evaluateItems b rest)

/-- The values of several members, from left to right. -/
def evaluateMembers (b : Bindings) : List (String × Expr) → Evaluation (List (String × Value))
  | [] => return []
  | (name, e) :: rest => do
    let v ← evaluate b e
    return (name, v) :: (← evaluateMembers b rest)

end

-- Everything about evaluation goes by these equations.
attribute [local simp] evaluate evaluateItems evaluateMembers

/-- The value of an expression that reads nothing. -/
def value (e : Expr) : Evaluation Value := evaluate .none e

end Host

end LambdaSql
