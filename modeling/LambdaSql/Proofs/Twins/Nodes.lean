import LambdaSql.Plan.Query
import LambdaSql.Proofs.Plan.Result

/-!
# Trees without their values

Blanking the bound values of a tree leaves what its text depends on. Two trees differ in bound values only if
they are the same once these are blanked. Every operator on nodes can be applied before or after blanking: it
does not look at bound values, except that null is compared in a form of its own.

## Main definitions

* `Value.blank`, `Node.blank`, `blankSelect` - values, expressions and selections without bound values.

## Main results

* `Node.type_blank`, `Node.precedence_blank` and their neighbours - what nodes show.
* `Node.blank_comparison`, `Node.blank_concat` and their neighbours - operators commute with blanking.
* `Node.blank_binaryOperator` - so do all binary operators.
-/

namespace LambdaSql

/-- What stands for a bound value: null for null, and one and the same value for all others. -/
def Value.blank (v : Value) : Value := if v.isNull then .null else .bool false

mutual

/-- An expression whose bound values are blanked. -/
def Node.blank : Node → Node
  | .bound value _ name type => .bound value.blank .boolean name type
  | .binary op left right type => .binary op left.blank right.blank type
  | .unary op operand type => .unary op operand.blank type
  | .call f args type => .call f (blankNodes args) type
  | .case branches otherwise type => .case (blankBranches branches) otherwise.blank type
  | .inList operand items negated => .inList operand.blank (blankNodes items) negated
  | .inQuery operand query negated => .inQuery operand.blank (blankSelect query) negated
  | .exists query negated => .exists (blankSelect query) negated
  | .isNull operand negated => .isNull operand.blank negated
  | .subquery query type => .subquery (blankSelect query) type
  | .group inner => .group inner.blank
  | .literal sql value type => .literal sql value type
  | .column aliasName name type => .column aliasName name type
  | .raw text type => .raw text type
  | .null => .null

/-- Several expressions whose bound values are blanked. -/
def blankNodes : List Node → List Node
  | [] => []
  | n :: rest => n.blank :: blankNodes rest

/-- Branches whose bound values are blanked. -/
def blankBranches : List (Node × Node) → List (Node × Node)
  | [] => []
  | (test, value) :: rest => (test.blank, value.blank) :: blankBranches rest

/-- An expression that may be missing, with its bound values blanked. -/
def blankOption : Option Node → Option Node
  | none => none
  | some n => some n.blank

/-- Sort keys whose bound values are blanked. -/
def blankOrder : List (Node × Bool) → List (Node × Bool)
  | [] => []
  | (n, down) :: rest => (n.blank, down) :: blankOrder rest

/-- Selected expressions whose bound values are blanked. -/
def blankColumns : List (SelectedOf Node) → List (SelectedOf Node)
  | [] => []
  | ⟨n, aliasName⟩ :: rest => ⟨n.blank, aliasName⟩ :: blankColumns rest

/-- What a selection reads from, with its bound values blanked. -/
def blankRows : Rows → Rows
  | .named name schema => .named name schema
  | .derived query => .derived (blankSelect query)

/-- A table in a clause, with its bound values blanked. -/
def blankTable : TableOf Rows → TableOf Rows
  | ⟨rows, aliasName⟩ => ⟨blankRows rows, aliasName⟩

/-- Joins whose bound values are blanked. -/
def blankJoins : List (JoinedOf Node Rows) → List (JoinedOf Node Rows)
  | [] => []
  | ⟨kind, table, on⟩ :: rest => ⟨kind, blankTable table, on.blank⟩ :: blankJoins rest

/-- A selection whose bound values are blanked, without what is left for evaluation after fetching. -/
def blankSelect : SelectOf Node Rows → SelectOf Node Rows
  | ⟨distinct, columns, table, joins, filter, groupBy, having, orderBy, limit, offset, shape, _⟩ =>
    ⟨distinct, blankColumns columns, blankTable table, blankJoins joins, blankOption filter,
      blankNodes groupBy, blankOption having, blankOrder orderBy, limit, offset, shape, []⟩

end

/-- A common table expression whose bound values are blanked. -/
def CtePlan.blank (c : CtePlan) : CtePlan :=
  { c with anchor := blankSelect c.anchor, union := c.union.map blankSelect }

/-! ## Lists -/

section Lists

/-- Nodes are blanked one by one. -/
@[simp]
theorem blankNodes_eq (ns : List Node) : blankNodes ns = ns.map Node.blank := by
  induction ns with
  | nil => rfl
  | cons n rest ih => rw [blankNodes, ih, List.map_cons]

/-- The branches of a choice are blanked one by one. -/
@[simp]
theorem blankBranches_eq (bs : List (Node × Node)) :
    blankBranches bs = bs.map (Prod.map Node.blank Node.blank) := by
  induction bs with
  | nil => rfl
  | cons b rest ih => rw [blankBranches, ih, List.map_cons, Prod.map]

/-- An optional node is blanked where it is there. -/
@[simp]
theorem blankOption_eq (n? : Option Node) : blankOption n? = n?.map Node.blank := by
  cases n? <;> rfl

/-- The keys of an order are blanked one by one. -/
@[simp]
theorem blankOrder_eq (ks : List (Node × Bool)) : blankOrder ks = ks.map (Prod.map Node.blank id) := by
  induction ks with
  | nil => rfl
  | cons k rest ih =>
    rw [blankOrder, ih, List.map_cons]
    rfl

/-- A selected expression whose bound values are blanked. -/
def Selected.blank (c : Selected) : Selected := ⟨c.node.blank, c.aliasName⟩

/-- Columns are blanked one by one. -/
@[simp]
theorem blankColumns_eq (cs : List Selected) : blankColumns cs = cs.map Selected.blank := by
  induction cs with
  | nil => rfl
  | cons c rest ih =>
    rw [blankColumns, ih, List.map_cons]
    rfl

/-- Blanking keeps what a selection returns. -/
private theorem shape_blankSelect (s : Select) : (blankSelect s).shape = s.shape := by
  obtain ⟨_, _, _, _, _, _, _, _, _, _, _, _⟩ := s
  rfl

/-- Selections that differ in bound values only have one shape. -/
theorem shape_eq_of_blank {s s' : Select} (h : blankSelect s = blankSelect s') : s.shape = s'.shape := by
  rw [← shape_blankSelect, h, shape_blankSelect]

end Lists

namespace Node

variable (n l r : Node) (ns : List Node)

/-! ## What nodes show -/

/-- A bound value keeps its name only. -/
@[simp]
theorem blank_bound (v : Value) (native : NativeType) (name : Option String) (t : HostType) :
    (bound v native name t).blank = bound v.blank .boolean name t := rfl

/-- A binary operation is blanked side by side. -/
@[simp]
theorem blank_binary (op : SqlOp) (t : HostType) :
    (binary op l r t).blank = binary op l.blank r.blank t := rfl

/-- A unary operator is blanked in its operand. -/
@[simp]
theorem blank_unary (op : SqlUnaryOp) (t : HostType) : (unary op n t).blank = unary op n.blank t := rfl

/-- A call is blanked in its arguments. -/
@[simp]
theorem blank_call (f : SqlFunction) (t : HostType) :
    (call f ns t).blank = call f (ns.map blank) t := by rw [blank, blankNodes_eq]

/-- A choice is blanked in its branches and its last part. -/
@[simp]
theorem blank_case (bs : List (Node × Node)) (t : HostType) :
    (case bs n t).blank = case (bs.map (Prod.map blank blank)) n.blank t := by rw [blank, blankBranches_eq]

/-- A membership test is blanked item by item. -/
@[simp]
theorem blank_inList (negated : Bool) :
    (inList n ns negated).blank = inList n.blank (ns.map blank) negated := by rw [blank, blankNodes_eq]

/-- A test for null is blanked in what it tests. -/
@[simp]
theorem blank_isNull (negated : Bool) : (isNull n negated).blank = isNull n.blank negated := rfl

/-- Blanking a node keeps its type. -/
theorem type_blank : ∀ n : Node, n.blank.type = n.type
  | group inner => type_blank inner
  | literal .. | bound .. | column .. | binary .. | unary .. | call .. | case .. | inList .. | inQuery ..
  | .exists .. | isNull .. | subquery .. | raw .. | null => rfl

/-- Blanking does not change whether a node is a predicate. -/
private theorem isPredicate_blank : ∀ n : Node, n.blank.isPredicate = n.isPredicate
  | group inner => isPredicate_blank inner
  | unary .not .. | unary .negate .. => rfl
  | literal .. | bound .. | column .. | binary .. | call .. | case .. | inList .. | inQuery ..
  | .exists .. | isNull .. | subquery .. | raw .. | null => rfl

attribute [simp] type_blank isPredicate_blank

/-- Blanking a node keeps its precedence. -/
@[simp]
theorem precedence_blank : n.blank.precedence = n.precedence := by
  cases n with
  | unary op => cases op <;> rfl
  | _ => rfl

/-- Blanking does not change whether a node is a null. -/
@[simp]
theorem isNullNode_blank : n.blank.isNullNode = n.isNullNode := by
  cases n with
  | bound v => cases v <;> rfl
  | _ => rfl

/-- Blanking does not change whether a node is the literal for true. -/
@[simp]
theorem isTrueLiteral_blank : n.blank.isTrueLiteral = n.isTrueLiteral := by
  cases n <;> rfl

section Equal

variable {n n' : Node} {ns ns' : List Node}

/-- Nodes that are alike have one type. -/
theorem type_eq (h : n.blank = n'.blank) : n.type = n'.type := by rw [← type_blank, h, type_blank]

/-- Nodes that are alike have the same types. -/
theorem types_eq (h : ns.map blank = ns'.map blank) : ns.map type = ns'.map type := by
  simpa [Function.comp_def] using congrArg (List.map type) h

end Equal

/-! ## Tests -/

/-- A constant truth value has nothing to blank. -/
@[simp]
theorem blank_always (b : Bool) : (always b).blank = always b := rfl

/-- The predicate of a node is blanked with the node. -/
@[simp]
theorem blank_toPredicate : n.toPredicate.blank = n.blank.toPredicate := by
  unfold toPredicate
  rw [isPredicate_blank]
  split
  · rfl
  · cases n with
    | literal sql v t => cases v <;> rfl
    | _ => rfl

/-- A negation is blanked in its operand.

**Proof sketch.** By the forms that negation tells apart, none of which depends on a value. -/
@[simp]
theorem blank_negation : n.negation.blank = n.blank.negation := by
  cases n with
  | inList operand items negated =>
    cases negated with
    | true => simp [negation]
    | false =>
      match items with
      | [] => simp [negation]
      | [item] => cases item <;> simp [negation, blank]
      | _ :: _ :: _ => simp [negation]
  | raw text t =>
    simp only [negation, blank]
    split
    · rfl
    · split <;> rfl
  | binary op left right t =>
    cases op with
    | eq =>
      simp only [negation, blank_binary, isTrueLiteral_blank, isPredicate_blank]
      split <;> rfl
    | _ => rfl
  | unary op operand t => cases op <;> rfl
  | call f args t => simp [negation]
  | case bs otherwise t => simp [negation]
  | _ => rfl

/-! ## Operators -/

/-- Joined nodes are blanked one by one. -/
private theorem blank_joined (op : SqlOp) : (joined op ns).map blank = joined op (ns.map blank) := by
  cases ns with
  | nil => rfl
  | cons n rest =>
    simp only [joined, Option.map_some, List.map_cons, List.foldl_map, Option.some.injEq]
    exact (List.foldl_hom blank fun _ _ => rfl).symm

/-- A conjunction is blanked member by member. -/
theorem blank_conjunction : (conjunction ns).map blank = conjunction (ns.map blank) := blank_joined ns .and

/-- A comparison is blanked side by side, and fails alike. -/
theorem blank_comparison (op : SqlOp) :
    blank <$> comparison op l r = comparison op l.blank r.blank := by
  have tested : (blank <$> do
        l.type.comparable r.type
        return binary op l r .bool : Except SqlError Node) = do
      l.type.comparable r.type
      return binary op l.blank r.blank .bool := by
    simp
  unfold comparison
  simp only [isNullNode_blank, type_blank]
  split
  · split
    · rfl
    · split
      · rfl
      · exact tested
  · exact tested

/-- A difference is blanked in its sides. -/
@[simp]
theorem blank_difference : (difference l r).blank = difference l.blank r.blank := by
  unfold difference
  rw [type_blank, type_blank]
  split <;> simp

/-- What is computed from two nodes is blanked in them. -/
@[simp]
theorem blank_arithmetic (op : SqlOp) : (arithmetic op l r).blank = arithmetic op l.blank r.blank := by
  simp only [arithmetic, type_blank]
  split
  · simp
  · split
    · simp
    · split <;> rfl

/-- A conjunction or disjunction is blanked in its sides. -/
@[simp]
theorem blank_logical (op : SqlOp) : (logical op l r).blank = logical op l.blank r.blank := by
  simp [logical]

/-- A bitwise operation is blanked in its sides. -/
@[simp]
theorem blank_bitwise (a b : SqlOp) : (bitwise a b l r).blank = bitwise a b l.blank r.blank := by
  simp only [bitwise, type_blank]
  split
  · simp
  · simp

/-- The first that is not null is blanked candidate by candidate. -/
@[simp]
theorem blank_firstNotNull : (firstNotNull ns).blank = firstNotNull (ns.map blank) := by
  simp [firstNotNull, Function.comp_def]

/-- An aggregate is blanked in its arguments. -/
@[simp]
theorem blank_aggregate (f : Aggregate) : (aggregate f ns).blank = aggregate f (ns.map blank) := by
  simp [aggregate, Function.comp_def]

/-- A node of another type is blanked in that type. -/
@[simp]
theorem blank_retype (t : HostType) : (retype t n).blank = retype t n.blank := by
  cases n <;> simp [retype, blank]

/-- A choice is blanked branch by branch. -/
@[simp]
theorem blank_choice (bs : List (Node × Node)) :
    (choice bs n).blank = choice (bs.map (Prod.map blank blank)) n.blank := by
  simp [choice, Function.comp_def]

/-! ## Joined texts -/

/-- What is written out has no bound values. -/
theorem blank_constant {d : Dialect} {v : Value} {n : Node} (h : constant d v = .ok n) : n.blank = n := by
  unfold constant at h
  split at h
  · cases h
    rfl
  · obtain ⟨sql, -, h⟩ := Except.bind_eq_ok.mp h
    cases h
    rfl

/-- The pieces of a blanked node are the blanked pieces. -/
private theorem pieces_blank : n.blank.pieces = n.pieces.map blank := by
  cases n with
  | call f args t => cases f <;> simp [pieces]
  | _ => rfl

/-- A run of literal texts has nothing to blank. -/
private theorem blank_runLiteral {d : Dialect} {run : Option String} {ns : List Node}
    (h : runLiteral d run = .ok ns) : ns.map blank = ns := by
  cases run with
  | none =>
    cases h
    rfl
  | some s =>
    obtain ⟨n, hn, h⟩ := Except.bind_eq_ok.mp h
    cases h
    rw [List.map_singleton, blank_constant hn]

/-- Neighbouring literals are made one before or after blanking.

**Proof sketch.** By induction on the pieces. Literals are put together by their texts, which are not blanked, and any
other piece is kept. -/
theorem blank_mergePieces (d : Dialect) (run : Option String) :
    List.map blank <$> mergePieces d run ns = mergePieces d run (ns.map blank) := by
  induction ns generalizing run with
  | nil =>
    rw [List.map_nil, mergePieces]
    cases h : runLiteral d run with
    | error e => rfl
    | ok before => exact congrArg Except.ok (blank_runLiteral h)
  | cons n rest ih =>
    have kept : (List.map blank <$> do
          let before ← runLiteral d run
          return before ++ n :: (← mergePieces d none rest) : Except SqlError (List Node)) = do
        let before ← runLiteral d run
        return before ++ n.blank :: (← mergePieces d none (rest.map blank)) := by
      rw [← ih]
      cases h : runLiteral d run with
      | error e => rfl
      | ok before =>
        cases mergePieces d none rest with
        | error e => rfl
        | ok parts =>
          show Except.ok (List.map blank (before ++ n :: parts)) = _
          rw [List.map_append, blank_runLiteral h]
          rfl
    cases n with
    | literal sql v t => exact ih _
    | null => exact ih _
    | _ => exact kept

/-- A concatenation is blanked piece by piece, and fails alike.

**Proof sketch.** Cutting into pieces and putting these together commute with blanking, and how many parts result does
not depend on values. -/
theorem blank_concat (d : Dialect) : blank <$> concat d ns = concat d (ns.map blank) := by
  have merged := blank_mergePieces (ns.flatMap pieces) d none
  have flat : (ns.map blank).flatMap pieces = (ns.flatMap pieces).map blank := by
    simp [List.flatMap_map, List.map_flatMap, pieces_blank]
  unfold concat
  rw [flat, ← merged]
  rcases mergePieces d none (ns.flatMap pieces) with e | parts
  · rfl
  · match parts with
    | [] =>
      show blank <$> constant d (.string "") = constant d (.string "")
      cases h : constant d (.string "") with
      | error e => rfl
      | ok n => exact congrArg Except.ok (blank_constant h)
    | [n] =>
      show Except.ok _ = Except.ok _
      rw [type_blank]
      split
      · rfl
      · exact congrArg _ (blank_call [n] ..)
    | n :: m :: rest => exact congrArg _ (blank_call (n :: m :: rest) ..)

/-- A sum is blanked in its sides. -/
private theorem blank_sum (d : Dialect) : blank <$> sum d l r = sum d l.blank r.blank := by
  unfold sum
  rw [type_blank, type_blank]
  split
  · exact blank_concat [l, r] d
  · simp

/-- **Binary operators commute with blanking.**

**Proof sketch.** By the operator: sums and comparisons are looked at more closely, and all others only make a node.
-/
theorem blank_binaryOperator (d : Dialect) (op : BinaryOp) :
    blank <$> binaryOperator d op l r = binaryOperator d op l.blank r.blank := by
  cases op with
  | add => exact blank_sum l r d
  | eq => exact blank_comparison l r .eq
  | ne => exact blank_comparison l r .ne
  | lt => exact blank_comparison l r .lt
  | le => exact blank_comparison l r .le
  | gt => exact blank_comparison l r .gt
  | ge => exact blank_comparison l r .ge
  | _ => simp [binaryOperator]

end Node

end LambdaSql
