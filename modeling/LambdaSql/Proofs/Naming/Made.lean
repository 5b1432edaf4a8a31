import LambdaSql.Proofs.Naming.Occurrence
import LambdaSql.Proofs.Plan.Composed

/-!
# What operators make of their operands

The operators on nodes arrange their operands in new nodes, and sometimes leave one of them out. They
name no column of their own and repeat none, and they preserve what composition does.

## Main definitions

* `Node.MadeOf` - all that stands in a node stands in one of several others.

## Main results

* `Node.madeOf_toPredicate`, `Node.madeOf_negation` - tests.
* `Node.madeOf_binaryOperator` - the binary operators.
* `Node.madeOf_concat`, `Node.madeOf_choice`, `Node.madeOf_conjunction` - joined texts, choices and
  conjunctions.
-/

namespace LambdaSql.Node

/-- All that stands in a node stands in one of several others, and each of these is used once. A property
that survives composition is one of the node if it is one of the others. -/
structure MadeOf (n : Node) (ns : List Node) : Prop where
  le : ∀ around, n.occurrences around ≤ nodesOccurrences around ns
  keeps : ∀ {G : Node → Prop}, Selective G → (∀ m ∈ ns, G m) → G n

variable {n m left right : Node} {ns ms : List Node}

/-! ## Composition -/

/-- A node with one part. -/
theorem MadeOf.of_eq (h : ∀ around, n.occurrences around = m.occurrences around)
    (hkeeps : ∀ {G : Node → Prop}, Selective G → G m → G n) : n.MadeOf [m] := by
  refine ⟨fun around => ?_, fun hG hns => hkeeps hG (hns m List.mem_cons_self)⟩
  rw [h, nodesOccurrences_cons, nodesOccurrences_nil, add_zero]

/-- A node is made of itself. -/
theorem MadeOf.refl (n : Node) : n.MadeOf [n] := .of_eq (fun _ => rfl) fun _ h => h

/-- A node in which nothing stands. -/
theorem MadeOf.of_eq_zero (h : ∀ around, n.occurrences around = 0)
    (hkeeps : ∀ {G : Node → Prop}, Selective G → G n) : n.MadeOf ns := by
  refine ⟨fun around => ?_, fun hG _ => hkeeps hG⟩
  rw [h]
  exact zero_le

/-- A node is made of nodes among which it is. -/
private theorem MadeOf.of_mem (h : n ∈ ns) : n.MadeOf ns := ⟨fun _ => occurrences_le_of_mem h, fun _ hns => hns n h⟩

/-- A node that is made of some nodes is made of more of them. -/
theorem MadeOf.sublist (h : n.MadeOf ns) (hs : ns.Sublist ms) : n.MadeOf ms :=
  ⟨fun around => (h.le around).trans (nodesOccurrences_sublist hs),
    fun hG hms => h.keeps hG fun m hm => hms m (hs.subset hm)⟩

/-- A node made of several others, one of which is made of further ones. -/
theorem MadeOf.subst {before after : List Node} (h : n.MadeOf (before ++ m :: after))
    (hm : m.MadeOf ms) : n.MadeOf (before ++ ms ++ after) := by
  refine ⟨fun around => (h.le around).trans ?_, fun hG hall => h.keeps hG ?_⟩
  · simp only [nodesOccurrences_append, nodesOccurrences_cons, add_assoc]
    exact add_le_add le_rfl (add_le_add (hm.le around) le_rfl)
  · simp only [List.forall_mem_append, List.forall_mem_cons] at hall ⊢
    exact ⟨hall.1.1, hm.keeps hG hall.1.2, hall.2⟩

/-- A node made of another one and the rest. -/
theorem MadeOf.cons (h : n.MadeOf (m :: ns)) (hm : m.MadeOf ms) : n.MadeOf (ms ++ ns) := by
  have hs := (show n.MadeOf ([] ++ m :: ns) from h).subst hm
  rwa [List.nil_append] at hs

/-- A node made of a single other one. -/
theorem MadeOf.trans (h : n.MadeOf [m]) (hm : m.MadeOf ms) : n.MadeOf ms := by
  have := h.cons hm
  rwa [List.append_nil] at this

/-- A node made of several others, each of which is made of nothing. -/
theorem MadeOf.drop_all (h : n.MadeOf (m :: ns)) (hns : ∀ k ∈ ns, k.MadeOf []) : n.MadeOf [m] := by
  induction ns generalizing n m with
  | nil => exact h
  | cons k rest ih =>
    have hs := (show n.MadeOf ([m] ++ k :: rest) from h).subst (hns k List.mem_cons_self)
    rw [List.append_nil, List.singleton_append] at hs
    exact ih hs fun k hk => hns k (List.mem_cons_of_mem _ hk)

/-- A node made of two others. -/
theorem MadeOf.pair (h : n.MadeOf [left, right]) (hl : left.MadeOf ns) (hr : right.MadeOf ms) :
    n.MadeOf (ns ++ ms) := by
  have hs := (h.cons hl).subst hr
  rwa [List.append_nil] at hs

/-- A node made of another one and of a value. -/
theorem MadeOf.drop (h : n.MadeOf [m, right]) (hr : right.MadeOf []) : n.MadeOf [m] :=
  h.pair (.refl m) hr

/-! ## The forms of nodes -/

/-- A binary operation is made of its two sides. -/
theorem madeOf_binary (op : SqlOp) (left right : Node) (t : HostType) :
    (binary op left right t).MadeOf [left, right] := by
  refine ⟨fun around => ?_, fun hG h => hG.binary (h left (by simp)) (h right (by simp))⟩
  simp [occurrences]

/-- A unary operation is made of its operand. -/
theorem madeOf_unary (op : SqlUnaryOp) (n : Node) (t : HostType) : (unary op n t).MadeOf [n] :=
  .of_eq (fun _ => rfl) fun hG => hG.unary

/-- A test for null is made of what it tests. -/
theorem madeOf_isNull (n : Node) (negated : Bool) : (isNull n negated).MadeOf [n] :=
  .of_eq (fun _ => rfl) fun hG => hG.isNull

/-- A call is made of its arguments. -/
theorem madeOf_call (f : SqlFunction) (ns : List Node) (t : HostType) : (call f ns t).MadeOf ns :=
  ⟨fun _ => le_rfl, fun hG => hG.call⟩

/-- A membership test is made of the item and the list. -/
theorem madeOf_inList (n : Node) (ns : List Node) (negated : Bool) :
    (inList n ns negated).MadeOf (n :: ns) :=
  ⟨fun _ => le_rfl, fun hG h => hG.inList (h n List.mem_cons_self) fun m hm => h m (List.mem_cons_of_mem _ hm)⟩

/-- Membership in a query is made of the item and the query. -/
theorem madeOf_inQuery (n : Node) (s : Select) (t : HostType) (negated : Bool) :
    (inQuery n s negated).MadeOf [n, subquery s t] := by
  refine ⟨fun around => ?_, fun hG h => hG.searched (h n (by simp)) (h (subquery s t) (by simp))⟩
  simp [occurrences]

/-- A choice is made of its branches and its last part. -/
private theorem madeOf_case (branches : List (Node × Node)) (otherwise : Node) (t : HostType) :
    (case branches otherwise t).MadeOf (branches.flatMap (fun b => [b.1, b.2]) ++ [otherwise]) := by
  refine ⟨fun around => ?_, fun hG h => hG.case (fun b hb => ⟨h _ ?_, h _ ?_⟩) (h otherwise (by simp))⟩
  · rw [occurrences, branchOccurrences_eq, nodesOccurrences_append, nodesOccurrences_cons,
      nodesOccurrences_nil, add_zero]
  · exact List.mem_append_left _ (List.mem_flatMap.mpr ⟨b, hb, by simp⟩)
  · exact List.mem_append_left _ (List.mem_flatMap.mpr ⟨b, hb, by simp⟩)

/-- The null is made of nothing. -/
theorem madeOf_null : null.MadeOf ns := .of_eq_zero (fun _ => rfl) fun hG => hG.null

/-- A literal is made of nothing. -/
theorem madeOf_literal (sql : String) (v : Value) (t : HostType) : (literal sql v t).MadeOf ns :=
  .of_eq_zero (fun _ => by rw [occurrences]) fun hG => hG.literal

/-- A fixed text is made of nothing. -/
theorem madeOf_raw (text : String) (t : HostType) : (raw text t).MadeOf ns :=
  .of_eq_zero (fun _ => by rw [occurrences]) fun hG => hG.raw

/-- A written whole number is made of nothing. -/
theorem madeOf_ofInt (k : Int64) : (ofInt k).MadeOf [] := madeOf_literal ..

/-- The node of a truth value is made of nothing. -/
private theorem madeOf_ofBool (b : Bool) : (ofBool b).MadeOf [] := madeOf_literal ..

/-- A node of another type is made of the node. -/
theorem madeOf_retype (t : HostType) (n : Node) : (n.retype t).MadeOf [n] :=
  .of_eq (fun _ => by cases n <;> rfl) fun hG => hG.retype t

/-- A value has no columns. -/
theorem madeOf_constant {d : Dialect} {v : Value} (h : constant d v = .ok n) : n.MadeOf [] := by
  unfold constant at h
  split at h
  · cases h
    exact madeOf_null
  · cases hv : v.literal d with
    | error e =>
      rw [hv] at h
      cases h
    | ok sql =>
      rw [hv] at h
      cases h
      exact madeOf_literal ..

/-- A bound value is made of nothing. -/
theorem madeOf_parameter (v : Value) : (parameter v).MadeOf [] :=
  .of_eq_zero (fun _ => rfl) fun hG => hG.parameter v

/-! ## Tests -/

/-- A fixed truth value is made of nothing. -/
theorem madeOf_always (b : Bool) : (always b).MadeOf ns := madeOf_raw ..

/-- A comparison for equality is made of its sides. -/
private theorem madeOf_equal (left right : Node) : (equal left right).MadeOf [left, right] :=
  madeOf_binary ..

/-- The predicate of a node is made of the node. -/
theorem madeOf_toPredicate (n : Node) : n.toPredicate.MadeOf [n] := by
  unfold toPredicate
  split
  · exact .refl n
  · split
    · exact madeOf_always _
    · exact (madeOf_equal n (ofBool true)).drop (madeOf_ofBool true)

/-- The negation of a node has no occurrences that the node has not. -/
theorem occurrences_negation_le (n : Node) (around : List Level) :
    n.negation.occurrences around ≤ n.occurrences around := by
  unfold negation
  split
  · split
    · exact zero_le
    · exact le_rfl
  · exact le_rfl
  · exact le_rfl
  · exact le_rfl
  · exact le_rfl
  · split
    · exact zero_le
    · split
      · exact zero_le
      · exact le_rfl
  · split
    · simp [occurrences, ofBool]
    · exact le_rfl
  · exact le_rfl
  · exact le_rfl

/-- The negation of a node is made of the node. -/
theorem madeOf_negation (n : Node) : n.negation.MadeOf [n] := by
  refine ⟨fun around => ?_, fun hG h => hG.negation (h n List.mem_cons_self)⟩
  rw [nodesOccurrences_cons, nodesOccurrences_nil, add_zero]
  exact n.occurrences_negation_le around

/-- A comparison is made of its two sides.

**Proof sketch.** A comparison with null for equality is a test of the other side; any other one is made of both
sides. -/
theorem madeOf_comparison {op : SqlOp} (h : comparison op left right = .ok n) :
    n.MadeOf [left, right] := by
  have ofIsNull {m : Node} (negated : Bool) (hm : m ∈ [left, right]) :
      (isNull m negated).MadeOf [left, right] := (madeOf_isNull m negated).trans (.of_mem hm)
  have compared (h : (do left.type.comparable right.type; return binary op left right .bool) =
      (.ok n : Except SqlError Node)) : n.MadeOf [left, right] := by
    cases hc : left.type.comparable right.type with
    | error e =>
      rw [hc] at h
      cases h
    | ok u =>
      rw [hc] at h
      cases h
      exact madeOf_binary ..
  unfold comparison at h
  split at h
  · split at h
    · cases h
      exact ofIsNull _ (by simp)
    · split at h
      · cases h
        exact ofIsNull _ (by simp)
      · exact compared h
  · exact compared h

/-! ## Arithmetic and texts -/

/-- A difference of two times is made of both. -/
theorem madeOf_difference (left right : Node) : (difference left right).MadeOf [left, right] := by
  unfold difference
  split
  · exact madeOf_call ..
  · exact madeOf_call ..
  · exact madeOf_call ..
  · exact madeOf_binary ..

/-- What is computed from two nodes is made of them. -/
private theorem madeOf_arithmetic (op : SqlOp) (left right : Node) :
    (arithmetic op left right).MadeOf [left, right] := by
  simp only [arithmetic]
  split
  · exact madeOf_call ..
  · split
    · exact madeOf_difference ..
    · split
      · exact madeOf_binary ..
      · exact madeOf_binary ..

/-- The pieces of a concatenation have its occurrences. -/
theorem nodesOccurrences_pieces (around : List Level) (n : Node) :
    nodesOccurrences around n.pieces = n.occurrences around := by
  unfold pieces
  split
  · rfl
  · rw [nodesOccurrences_cons, nodesOccurrences_nil, add_zero]

/-- The pieces of nodes have the occurrences of the nodes. -/
private theorem nodesOccurrences_flatMap_pieces (around : List Level) (ns : List Node) :
    nodesOccurrences around (ns.flatMap pieces) = nodesOccurrences around ns := by
  induction ns with
  | nil => rfl
  | cons n rest ih =>
    rw [List.flatMap_cons, nodesOccurrences_append, ih, nodesOccurrences_pieces, nodesOccurrences_cons]

/-- A run of literal texts has no occurrences. -/
private theorem nodesOccurrences_runLiteral {d : Dialect} {run : Option String} {ns : List Node}
    (h : runLiteral d run = .ok ns) (around : List Level) : nodesOccurrences around ns = 0 := by
  cases run with
  | none =>
    cases h
    rfl
  | some s =>
    simp only [runLiteral] at h
    cases hc : constant d (.string s) with
    | error e =>
      rw [hc] at h
      cases h
    | ok n =>
      rw [hc] at h
      cases h
      have := (madeOf_constant hc).le around
      rw [nodesOccurrences_cons, nodesOccurrences_nil, add_zero]
      exact le_antisymm this (zero_le)

/-- Neighbouring literals that are made one leave the other pieces as they are.

**Proof sketch.** By induction on the pieces. Literals have no occurrences, whether they are put together or passed
over, and any other piece is kept as it is. -/
theorem nodesOccurrences_mergePieces {d : Dialect} (around : List Level) (ns : List Node) :
    ∀ {run : Option String} {ms : List Node}, mergePieces d run ns = .ok ms →
      nodesOccurrences around ms ≤ nodesOccurrences around ns := by
  induction ns with
  | nil =>
    intro run ms h
    rw [nodesOccurrences_runLiteral h]
    exact zero_le
  | cons n rest ih =>
    intro run ms h
    unfold mergePieces at h
    split at h
    · next heq => cases heq
    · next heq =>
      cases heq
      exact (ih h).trans (le_add_left le_rfl)
    · next heq =>
      cases heq
      exact (ih h).trans (le_add_left le_rfl)
    · next m others _ _ heq =>
      cases heq
      cases hb : runLiteral d run with
      | error e =>
        rw [hb] at h
        cases h
      | ok before =>
        cases hm : mergePieces d none rest with
        | error e =>
          rw [hb] at h
          simp only [bind, Except.bind] at h
          rw [hm] at h
          cases h
        | ok merged =>
          rw [hb] at h
          simp only [bind, Except.bind] at h
          rw [hm] at h
          cases h
          rw [nodesOccurrences_append, nodesOccurrences_runLiteral hb, zero_add,
            nodesOccurrences_cons, nodesOccurrences_cons]
          exact add_le_add le_rfl (ih hm)

/-- A concatenation is made of what is concatenated.

**Proof sketch.** What is concatenated is cut into pieces and put together to parts, which have no occurrences but
those of the pieces. Of no parts a literal is made, of one part the part itself or a call, and of more a call. -/
theorem madeOf_concat {d : Dialect} (h : concat d ns = .ok n) : n.MadeOf ns := by
  cases hm : mergePieces d none (ns.flatMap pieces) with
  | error e =>
    simp only [concat, hm] at h
    cases h
  | ok parts =>
    have hle (around : List Level) : nodesOccurrences around parts ≤ nodesOccurrences around ns := by
      rw [← nodesOccurrences_flatMap_pieces around ns]
      exact nodesOccurrences_mergePieces around _ hm
    -- what is made of the parts is made of all that is concatenated
    have whole (hp : n.MadeOf parts) : n.MadeOf ns :=
      ⟨fun around => (hp.le around).trans (hle around), fun hG hns => hG.concat hns h⟩
    simp only [concat, hm, bind, Except.bind] at h
    split at h
    · exact (madeOf_constant h).sublist (List.nil_sublist _)
    · next m =>
      split at h
      · cases h
        exact whole (.refl _)
      · cases h
        exact whole (madeOf_call ..)
    · cases h
      exact whole (madeOf_call ..)

/-- A sum is made of its sides. -/
private theorem madeOf_sum {d : Dialect} (h : sum d left right = .ok n) : n.MadeOf [left, right] := by
  unfold sum at h
  split at h
  · exact madeOf_concat h
  · cases h
    exact madeOf_arithmetic ..

/-! ## Other operators -/

/-- An aggregate is made of its arguments. -/
theorem madeOf_aggregate (f : Aggregate) (ns : List Node) : (aggregate f ns).MadeOf ns :=
  (madeOf_call ..).sublist (List.take_sublist 1 ns)

/-- A conjunction or disjunction is made of its sides. -/
private theorem madeOf_logical (op : SqlOp) (left right : Node) : (logical op left right).MadeOf [left, right] :=
  (madeOf_binary ..).pair (madeOf_toPredicate left) (madeOf_toPredicate right)

/-- A bitwise operation is made of its sides. -/
private theorem madeOf_bitwise (onBools onNumbers : SqlOp) (left right : Node) :
    (bitwise onBools onNumbers left right).MadeOf [left, right] := by
  unfold bitwise
  split
  · exact madeOf_logical ..
  · exact madeOf_arithmetic ..

/-- The first that is not null is made of the candidates. -/
theorem madeOf_firstNotNull (ns : List Node) : (firstNotNull ns).MadeOf ns := madeOf_call ..

/-- A binary operator names the columns of its operands and no others. -/
theorem madeOf_binaryOperator {d : Dialect} {op : BinaryOp} (h : binaryOperator d op left right = .ok n) :
    n.MadeOf [left, right] := by
  cases op with
  | eq | ne | lt | le | gt | ge =>
    simp only [binaryOperator] at h
    exact madeOf_comparison h
  | and | or =>
    cases h
    exact madeOf_logical ..
  | add => exact madeOf_sum h
  | sub | mul | div | mod =>
    cases h
    exact madeOf_arithmetic ..
  | coalesce =>
    cases h
    exact madeOf_firstNotNull _
  | bitAnd | bitOr =>
    cases h
    exact madeOf_bitwise ..

/-- A choice is made of its conditions and outcomes. -/
theorem madeOf_choice (branches : List (Node × Node)) (otherwise : Node) :
    (choice branches otherwise).MadeOf (branches.flatMap (fun b => [b.1, b.2]) ++ [otherwise]) :=
  madeOf_case ..

/-- Nodes that are joined by an operator make up what is joined. -/
private theorem madeOf_joined {op : SqlOp} (h : joined op ns = some n) : n.MadeOf ns := by
  cases ns with
  | nil => cases h
  | cons m rest =>
    cases h
    induction rest generalizing m with
    | nil => exact .refl m
    | cons next rest ih =>
      have := (ih (binary op m next .bool)).cons (madeOf_binary op m next .bool)
      exact this

/-- A conjunction is made of its members. -/
theorem madeOf_conjunction (h : conjunction ns = some n) : n.MadeOf ns := madeOf_joined h

end LambdaSql.Node
