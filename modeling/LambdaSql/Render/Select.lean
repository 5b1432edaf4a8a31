import LambdaSql.Render.Template

/-!
# Writing statements

## Main definitions

* `writeNode` - an expression.
* `writeSelect` - a selection.
* `writeTable`, `writeJoins` - the tables of a clause.
* `writeCtes` - the common table expressions of a statement.
-/

namespace LambdaSql

/-- The keyword of a join. -/
def JoinKind.keyword : JoinKind → String
  | inner => "INNER JOIN"
  | left => "LEFT JOIN"
  | right => "RIGHT JOIN"

/-- A column. -/
def columnText (d : Dialect) (aliasName : Option String) (name : String) : String :=
  match aliasName with
  | some aliasName => aliasName ++ "." ++ d.quoteIdentifier name
  | none => d.quoteIdentifier name

/-- A clause that may be missing. -/
def clause (keyword : String) : Option Phrase → Phrase
  | some p => Phrase.ofText keyword ++ p
  | none => []

/-- A clause with a list that may be empty. -/
def listClause (keyword : String) (items : List Phrase) : Phrase :=
  if items.isEmpty then [] else Phrase.ofText keyword ++ Phrase.joined "," items

/-- Whether a right operand needs parentheses under an operator. -/
def wrapsRight (op : SqlOp) (right : Node) : Bool :=
  let same := match right with
    | .binary r .. => r == op
    | _ => false
  right.precedence < op.precedence ||
    (right.precedence == op.precedence && !(op.isAssociative && same))

/-- The keyword of a membership test. -/
def inKeyword (negated : Bool) : String := if negated then " NOT IN (" else " IN ("

/-- A table with its alias. -/
def aliased (p : Phrase) : Option String → Phrase
  | some aliasName => p ++ Phrase.ofText (" " ++ aliasName)
  | none => p

variable (d : Dialect)

mutual

/-- An expression. -/
def writeNode : Node → Writing Phrase
  | .literal sql _ _ => return sql
  | .bound value native name _ => Writing.bind name value native
  | .column aliasName name _ => return columnText d aliasName name
  | .binary op left right _ => do
    let l ← writeNode left
    let r ← writeNode right
    return l.parenthesisedIf (left.precedence < op.precedence) ++ Phrase.ofText op.text ++
      r.parenthesisedIf (wrapsRight op right)
  | .unary .not operand _ => do
    return Phrase.ofText "NOT " ++ (← writeNode operand).parenthesised
  | .unary .negate operand _ => do
    let p ← writeNode operand
    return Phrase.ofText "-" ++ p.parenthesisedIf (operand.precedence ≤ negatePrecedence)
  | .call f args _ => Template.expand (d.template f) (templateArguments args)
  | .case branches otherwise _ => do
    let branches ← writeBranches branches
    return Phrase.ofText "(CASE" ++ branches ++ Phrase.ofText " ELSE " ++
      (← writeNode otherwise) ++ Phrase.ofText " END)"
  | .inList _ [] negated => return if negated then "1=1" else "1=0"
  | .inList operand items negated => do
    let p ← writeNode operand
    let items ← writeNodes items
    return p.parenthesisedIf (operand.precedence ≤ predicatePrecedence) ++
      Phrase.ofText (inKeyword negated) ++ Phrase.joined "," items ++ Phrase.ofText ")"
  | .inQuery operand query negated => do
    let p ← writeNode operand
    let q ← writeSelect query
    return p.parenthesisedIf (operand.precedence ≤ predicatePrecedence) ++
      Phrase.ofText (inKeyword negated) ++ q ++ Phrase.ofText ")"
  | .exists query negated => do
    let q ← writeSelect query
    return Phrase.ofText (if negated then "NOT EXISTS" else "EXISTS") ++ q.parenthesised
  | .isNull operand negated => do
    let p ← writeNode operand
    return p.parenthesisedIf (operand.precedence ≤ predicatePrecedence) ++
      Phrase.ofText (if negated then " IS NOT NULL" else " IS NULL")
  | .subquery query _ => return (← writeSelect query).parenthesised
  | .group inner => return (← writeNode inner).parenthesised
  | .raw text _ => return text
  | .null => return "NULL"

/-- Several expressions. -/
def writeNodes : List Node → Writing (List Phrase)
  | [] => return []
  | n :: rest => do
    let p ← writeNode n
    return p :: (← writeNodes rest)

/-- The arguments of a template. -/
def templateArguments : List Node → List Template.Argument
  | [] => []
  | n :: rest => ⟨n.precedence, writeNode n⟩ :: templateArguments rest

/-- The branches of a choice. -/
def writeBranches : List (Node × Node) → Writing Phrase
  | [] => return []
  | (test, value) :: rest => do
    let t ← writeNode test
    let v ← writeNode value
    return Phrase.ofText " WHEN " ++ t ++ Phrase.ofText " THEN " ++ v ++ (← writeBranches rest)

/-- An expression that may be missing. -/
def writeOption : Option Node → Writing (Option Phrase)
  | none => return none
  | some n => return some (← writeNode n)

/-- The sort keys of a selection. -/
def writeOrder : List (Node × Bool) → Writing (List Phrase)
  | [] => return []
  | (n, down) :: rest => do
    let p ← writeNode n
    return (if down then p ++ Phrase.ofText " DESC" else p) :: (← writeOrder rest)

/-- The selected expressions. -/
def writeColumns : List (SelectedOf Node) → Writing (List Phrase)
  | [] => return []
  | ⟨n, aliasName⟩ :: rest => do
    let p ← writeNode n
    let p := match aliasName with
      | some aliasName => p ++ Phrase.ofText (" AS " ++ d.quoteIdentifier aliasName)
      | none => p
    return p :: (← writeColumns rest)

/-- What a selection reads from. -/
def writeRows : Rows → Writing Phrase
  | .named name schema => return d.qualifiedTable name schema
  | .derived query => return (← writeSelect query).parenthesised

/-- A table in a clause. -/
def writeTable : TableOf Rows → Writing Phrase
  | ⟨rows, aliasName⟩ => return aliased (← writeRows rows) aliasName

/-- The joins of a clause. -/
def writeJoins : List (JoinedOf Node Rows) → Writing Phrase
  | [] => return []
  | ⟨kind, table, on⟩ :: rest => do
    let t ← writeTable table
    let c ← writeNode on
    return Phrase.ofText (" " ++ kind.keyword ++ " ") ++ t ++ Phrase.ofText " ON " ++ c ++
      (← writeJoins rest)

/-- A selection. -/
def writeSelect : SelectOf Node Rows → Writing Phrase
  | ⟨distinct, columns, table, joins, filter, groupBy, having, orderBy, limit, offset, _, _⟩ => do
    let columns ← writeColumns columns
    let table ← writeTable table
    let joins ← writeJoins joins
    let filter ← writeOption filter
    let groupBy ← writeNodes groupBy
    let having ← writeOption having
    let orderBy ← writeOrder orderBy
    return Phrase.ofText (if distinct then "SELECT DISTINCT " else "SELECT ") ++
      Phrase.joined "," columns ++ Phrase.ofText " FROM " ++ table ++ joins ++
      clause " WHERE " filter ++ listClause " GROUP BY " groupBy ++ clause " HAVING " having ++
      listClause " ORDER BY " orderBy ++ Phrase.ofText (d.limitClause limit offset)

end

/-- The second query of a common table expression. -/
def writeUnion : Option Select → Writing Phrase
  | none => return []
  | some s => return Phrase.ofText " UNION ALL\n" ++ (← writeSelect d s)

/-- A common table expression. -/
def writeCte (c : CtePlan) : Writing Phrase := do
  let head := d.quoteIdentifier c.name ++ "(" ++
    ",".intercalate (c.columns.map d.quoteIdentifier) ++ ") AS \n(\n"
  let anchor ← writeSelect d c.anchor
  return Phrase.ofText head ++ anchor ++ (← writeUnion d c.union) ++ Phrase.ofText "\n)"

/-- The common table expressions of a statement. -/
def writeCtes (ctes : List CtePlan) : Writing Phrase := do
  if ctes.isEmpty then return []
  let blocks ← ctes.mapM (writeCte d)
  let keyword := if ctes.any (·.recursive) then "WITH RECURSIVE " else "WITH "
  return Phrase.ofText keyword ++ Phrase.joined ",\n" blocks ++ Phrase.ofText "\n"

end LambdaSql
