import LambdaSql.Proofs.Reading.Written

/-!
# Nodes whose text keeps their structure

The text of a node is read as the tree that the node stands for exactly when no operand stands without
parentheses in a place that does not hold it.

## Main definitions

* `Node.Misplaced` - operands without the parentheses they need.
* `Node.KeepsStructure` - the nodes without such operands.

## Main results

* `Node.same_reading_iff` - the tree of the text is the tree that the node stands for exactly when the
  node keeps its structure.
-/

namespace LambdaSql.Node

open Reading

/-! ## Places that do not hold -/

/-- Whether a run of an operator begins with another operator of the same precedence. -/
def beginsWithOther (op : SqlOp) : Node → Bool
  | binary o left _ _ => if o = op then beginsWithOther op left else o.precedence == op.precedence
  | _ => false

/-- The operands of a binary operator that are written without the parentheses they need: a test that
always has one outcome under an operator that holds more strongly than tests, or at the right of a
comparison; a disjunction of bits at the left of a conjunction of bits; and a sum or a product, at the
right of another one, that begins with another operator of the same precedence. -/
def Misplaced (op : SqlOp) (left right : Node) : Prop :=
  left.isRaw = true ∧ predicatePrecedence < op.precedence ∨
    right.isRaw = true ∧ predicatePrecedence ≤ op.precedence ∨
    op = .bitAnd ∧ (∃ l r t, left = binary .bitOr l r t) ∨
    (op = .add ∨ op = .mul) ∧ ∃ l r t, right = binary op l r t ∧ beginsWithOther op l = true

mutual

/-- Whether no operand in a node is written without the parentheses it needs. -/
def KeepsStructure : Node → Prop
  | binary op left right _ => ¬ Misplaced op left right ∧ KeepsStructure left ∧ KeepsStructure right
  | unary .negate operand _ => operand.isRaw = false ∧ KeepsStructure operand
  | unary .not operand _ | isNull operand _ => KeepsStructure operand
  | inList operand items _ => KeepsStructure operand ∧ AllKeepStructure items
  | call _ [text, part] _ => KeepsStructure text ∧ KeepsStructure part
  | _ => True

/-- Whether no operand in several nodes is written without the parentheses it needs. -/
def AllKeepStructure : List Node → Prop
  | [] => True
  | n :: rest => KeepsStructure n ∧ AllKeepStructure rest

end

/-! ## The values in a text -/

/-- A sign adds no leaves. -/
private theorem leaves_signed (t : Tree) : (signed t).leaves = t.leaves := by
  induction t using signed.induct with
  | case1 p a b ih => rw [signed, Tree.leaves, ih, Tree.leaves]
  | case2 t hne =>
    cases t with
    | binary => exact absurd rfl (hne _ _ _)
    | _ => rfl

/-- Patterns of a function have as many leaves as their parts. -/
private theorem leaves_pattern (f : SqlFunction) {t u : Tree} (h : t.leaves = u.leaves) :
    (pattern f t).leaves = (pattern f u).leaves := by
  unfold pattern
  split <;> simp [Tree.leaves, Tree.listLeaves, h]

mutual

/-- The text of a node has the values of the node.

**Proof sketch.** By induction on the node: neither parentheses nor the way in which operators are grouped change the
values. -/
theorem leaves_reading : (n : Node) → n.Plain → n.reading.leaves = n.tree.leaves
  | literal .., _ | bound .., _ | column .., _ | null, _ | raw .., _ => rfl
  | binary op l r t, h => by
    rw [reading, Tree.leaves_splice, Tree.leaves_groupIf, Tree.leaves_groupIf, leaves_reading l h.1,
      leaves_reading r h.2]
    rfl
  | unary .negate operand t, h => by
    rw [reading, leaves_signed, Tree.leaves_groupIf, leaves_reading operand h]
    rfl
  | unary .not operand t, h => leaves_reading operand h
  | isNull operand negated, h => by
    rw [reading, Tree.leaves, Tree.leaves_groupIf, leaves_reading operand h]
    rfl
  | inList operand items negated, h => by
    rw [reading, Tree.leaves, Tree.leaves_groupIf, leaves_reading operand h.1,
      leaves_readings items h.2.2]
    rfl
  | call f [text, part] t, h => by
    rw [reading, Tree.leaves, Tree.leaves_groupIf, leaves_reading text h.2.1,
      leaves_pattern f (leaves_reading part h.2.2)]
    rfl
  | call _ [] _, h | call _ [_] _, h | call _ (_ :: _ :: _ :: _) _, h | case .., h
  | inQuery .., h | .exists .., h | subquery .., h | group .., h => h.elim

/-- The texts of several nodes have the values of the nodes. -/
theorem leaves_readings : (ns : List Node) → AllPlain ns →
    Tree.listLeaves (readings ns) = Tree.listLeaves (trees ns)
  | [], _ => rfl
  | n :: rest, h => by
    rw [readings, Tree.listLeaves, leaves_reading n h.1, leaves_readings rest h.2]
    rfl

end

/-! ## Keeping the structure -/

/-- The text of a node is not in parentheses.

**Proof sketch.** By the kind of node. What is in parentheses are only operands, and a binary node's tree has a binary
operator on top. -/
theorem reading_ne_group {n : Node} (h : n.Plain) (u : Tree) : n.reading ≠ .group u := by
  cases n with
  | literal sql v t =>
    obtain ⟨digits, -, htree⟩ | ⟨-, htree⟩ := literalTree_cases sql <;> rw [reading, htree] <;> exact nofun
  | binary op l r t =>
    obtain ⟨p, a, b, heq⟩ := Tree.splice_eq_binary (.of op)
      (l.reading.groupIf (l.precedence < op.precedence)) (r.reading.groupIf (wrapsRight op r))
    rw [reading, heq]
    exact nofun
  | unary o operand t =>
    cases o with
    | not => exact nofun
    | negate =>
      rw [reading]
      unfold signed
      split <;> exact nofun
  | call f args t =>
    obtain _ | ⟨text, _ | ⟨part, _ | _⟩⟩ := args
    · exact h.elim
    · exact h.elim
    · exact nofun
    · exact h.elim
  | case | inQuery | «exists» | subquery | group => exact h.elim
  | _ => exact nofun

/-- A plain node is no group. -/
private theorem tree_ne_group {n : Node} (h : n.Plain) (u : Tree) : n.tree ≠ .group u := by
  cases n with
  | literal sql v t =>
    obtain ⟨digits, -, htree⟩ | ⟨-, htree⟩ := literalTree_cases sql <;> rw [tree, htree] <;> simp
  | call f args t =>
    obtain _ | ⟨text, _ | ⟨part, _ | _⟩⟩ := args
    · exact h.elim
    · exact h.elim
    · simp [tree]
    · exact h.elim
  | case | inQuery | «exists» | subquery | group => exact h.elim
  | raw => rw [tree, rawTree]; simp
  | _ => simp [tree]

/-- A text that is read as its node holds together as the node does. -/
theorem level_reading {n : Node} (h : n.Plain) (heq : n.reading.canonical = n.tree.canonical) :
    n.reading.level = n.tree.level := by
  rw [← Tree.level_canonical (reading_ne_group h), heq, Tree.level_canonical (tree_ne_group h)]

/-- Which nodes an operator holds at its left.

**Proof sketch.** An operand in parentheses is held by every operator, and its precedence is too low for the
exceptions. Without parentheses it holds as strongly as its tree, of which there are three kinds: tests with one
outcome, disjunctions of bits, and all others. -/
theorem left_holds_iff {op : SqlOp} {n : Node} (h : n.Plain) (hlevel : n.reading.level = n.tree.level) :
    (Operator.of op).level ≤ (n.reading.groupIf (n.precedence < op.precedence)).level ↔
      ¬ (n.isRaw = true ∧ predicatePrecedence < op.precedence) ∧
        ¬ (op = .bitAnd ∧ n.isBitOr = true) := by
  have hbound := precedence_le op
  -- in parentheses every operand is held
  by_cases hp : n.precedence < op.precedence
  · rw [Tree.groupIf, if_pos (decide_eq_true hp)]
    refine iff_of_true (Nat.le_of_lt (op_level_lt_closed op)) ?_
    obtain ⟨-, hprec, -⟩ | ⟨hraw, -, hprec, -⟩ | ⟨hraw, hbit, -⟩ := level_tree h
    · rw [hprec, atomPrecedence] at hp
      omega
    · refine ⟨by simp [hraw], fun hand => ?_⟩
      rw [hprec, hand.1] at hp
      exact absurd hp (by decide)
    · exact ⟨by simp [hraw], by simp [hbit]⟩
  · rw [Tree.groupIf, if_neg (by simpa using hp), hlevel]
    have hp := Nat.not_lt.mp hp
    obtain ⟨hraw, hprec, hl⟩ | ⟨hraw, hbit, hprec, hl⟩ | ⟨hraw, hbit, hl⟩ := level_tree h
    · have hbit : n.isBitOr = false := by
        cases n <;> first | rfl | cases hraw
      simp [hraw, hbit, hl, level_of_le_test]
    · rw [hprec] at hp
      simp only [hraw, hbit, hl, Bool.false_eq_true, false_and, not_false_eq_true, true_and, and_true]
      cases op <;> first | exact absurd hp (by decide) | decide
    · simp only [hraw, hbit, hl, Bool.false_eq_true, false_and, and_false, not_false_eq_true, and_self,
        iff_true]
      exact Nat.le_trans (level_of_le op) (strength_mono hp)

/-- Whether an operator that leaves a node without parentheses holds what the node's run begins
with, which is the case unless the run of a sum or a product begins with another operator of the same
precedence. -/
def BeginsHeld (n : Node) : Prop :=
  ∀ op : SqlOp, op.isAssociative = true → op.precedence ≤ n.precedence →
    (Operator.of op).level ≤ n.tree.level →
    ((Operator.of op).level < (Tree.lead (.of op) n.reading).level ↔
      ¬ ((op = .add ∨ op = .mul) ∧ beginsWithOther op n = true))

/-- No associative operator holds as a test does. -/
theorem level_ne_test {op : SqlOp} (h : op.isAssociative = true) :
    (Operator.of op).level ≠ testLevel := by
  cases op <;> first | cases h; done | decide

/-- A node whose text holds together as a test does begins with itself. -/
theorem lead_of_level_test {op : SqlOp} {t : Tree} (h : t.level = testLevel) :
    Tree.lead (.of op) t = t := by
  cases hassoc : op.isAssociative with
  | true => exact Tree.lead_of_level_ne fun heq => level_ne_test hassoc (heq.symm.trans h)
  | false => exact Tree.lead_of_not_associative hassoc

/-- Which nodes an operator holds at its right.

**Proof sketch.** An operand in parentheses is held, and is none of the exceptions. Without them it has a higher
precedence, which is decided by the three kinds of trees, or it is a run of the same operator, for which the beginning
of the run decides. -/
theorem right_holds_iff {op : SqlOp} {n : Node} (h : n.Plain) (hlevel : n.reading.level = n.tree.level)
    (hb : BeginsHeld n) :
    (Operator.of op).level <
        (Tree.lead (.of op) (n.reading.groupIf (wrapsRight op n))).level ↔
      ¬ (n.isRaw = true ∧ predicatePrecedence ≤ op.precedence) ∧
        ¬ ((op = .add ∨ op = .mul) ∧ ∃ l r t, n = binary op l r t ∧ beginsWithOther op l = true) := by
  have hclosed := op_level_lt_closed op
  have hbound := precedence_le op
  cases hw : wrapsRight op n with
  | true =>
    have hlead : Tree.lead (.of op) (.group n.reading) = .group n.reading := rfl
    rw [Tree.groupIf, if_pos rfl, hlead]
    refine iff_of_true hclosed ⟨?_, ?_⟩
    · rintro ⟨hraw, -⟩
      have : n.precedence = atomPrecedence := by cases n <;> first | rfl | cases hraw
      have hne : ¬ n.precedence < op.precedence ∧ n.precedence ≠ op.precedence := by
        rw [this, atomPrecedence]
        omega
      simp [wrapsRight, hne.1, hne.2] at hw
    · rintro ⟨hop, l, r, t, rfl, -⟩
      obtain rfl | rfl := hop <;>
        simp [wrapsRight, precedence, SqlOp.precedence, SqlOp.isAssociative] at hw
  | false =>
    rw [Tree.groupIf, if_neg Bool.false_ne_true]
    obtain hlt | ⟨hassoc, a, b, t, rfl⟩ := wrapsRight_eq_false hw
    · -- the operand is no run of the operator, whose precedence it would have
      have hrun : ¬ ((op = .add ∨ op = .mul) ∧
          ∃ l r t, n = binary op l r t ∧ beginsWithOther op l = true) := by
        rintro ⟨-, l, r, t, rfl, -⟩
        exact Nat.lt_irrefl _ hlt
      rw [and_iff_left hrun]
      obtain ⟨hraw, hprec, hl⟩ | ⟨hraw, hbit, hprec, hl⟩ | ⟨hraw, hbit, hl⟩ := level_tree h
      · rw [lead_of_level_test (hlevel.trans hl), hlevel, hl, level_of_lt_test]
        simp [hraw]
      · have hlt' : (Operator.of op).level < 5 := by
          have : op.precedence ≤ predicatePrecedence := by
            rw [hprec] at hlt
            exact Nat.le_of_lt_succ hlt
          exact Nat.lt_succ_of_le (level_of_le_test.mpr this)
        rw [Tree.lead_of_level_ne (by rw [hlevel, hl]; omega), hlevel, hl]
        exact iff_of_true hlt' (by simp [hraw])
      · have hlt' : (Operator.of op).level < strength n.precedence :=
          Nat.lt_of_le_of_lt (level_of_le op) (strength_lt (by omega) hlt)
        rw [Tree.lead_of_level_ne (by rw [hlevel, hl]; omega), hlevel, hl]
        exact iff_of_true hlt' (by simp [hraw])
    · rw [hb op hassoc (Nat.le_refl _) (Nat.le_refl _)]
      have hbegin : beginsWithOther op (binary op a b t) = beginsWithOther op a := by
        rw [beginsWithOther, if_pos rfl]
      have hraw : ¬ ((binary op a b t).isRaw = true ∧ predicatePrecedence ≤ op.precedence) :=
        by simp [isRaw]
      rw [hbegin, and_iff_right hraw]
      refine not_congr (and_congr_right fun _ => ⟨fun hba => ⟨a, b, t, rfl, hba⟩, ?_⟩)
      rintro ⟨_, _, _, heq, hba⟩
      cases heq
      exact hba

/-- **The operands of an operator fit exactly when none of them is misplaced.** -/
theorem fits_iff {op : SqlOp} {l r : Node} (hl : l.Plain) (hr : r.Plain)
    (hll : l.reading.level = l.tree.level) (hlr : r.reading.level = r.tree.level)
    (hb : BeginsHeld r) :
    Tree.Fits (.of op) (l.reading.groupIf (l.precedence < op.precedence))
      (r.reading.groupIf (wrapsRight op r)) ↔ ¬ Misplaced op l r := by
  rw [Tree.Fits, left_holds_iff hl hll, right_holds_iff hr hlr hb, Misplaced, isBitOr_iff]
  simp only [not_or, and_assoc]
  constructor
  · rintro ⟨h₁, h₂, h₃, h₄⟩
    exact ⟨h₁, h₃, h₂, h₄⟩
  · rintro ⟨h₁, h₃, h₂, h₄⟩
    exact ⟨h₁, h₂, h₃, h₄⟩

/-- The operators of runs hold differently from signs, tests and values. -/
theorem level_ne_of_associative {op : SqlOp} (h : op.isAssociative = true) :
    (Operator.of op).level ≠ closedLevel ∧ (Operator.of op).level ≠ signLevel ∧
      (Operator.of op).level ≠ testLevel ∧ (Operator.of op).level ≠ notLevel := by
  cases op <;> first | cases h; done | decide

/-- A plain node without a binary operator on top holds together as a test, a sign or a value does. -/
theorem level_of_ne_binary {n : Node} (h : n.Plain) (hne : ∀ op l r t, n ≠ binary op l r t) :
    n.tree.level = testLevel ∨ n.tree.level = notLevel ∨ n.tree.level = signLevel ∨
      n.tree.level = closedLevel := by
  cases n with
  | binary op l r t => exact absurd rfl (hne op l r t)
  | literal sql v t =>
    obtain ⟨digits, -, htree⟩ | ⟨-, htree⟩ := literalTree_cases sql
    · exact .inr (.inr (.inl (by rw [tree, htree]; rfl)))
    · exact .inr (.inr (.inr (by rw [tree, htree]; rfl)))
  | unary o operand t =>
    cases o with
    | not => exact .inr (.inl rfl)
    | negate => exact .inr (.inr (.inl rfl))
  | bound | column | null => exact .inr (.inr (.inr rfl))
  | isNull | inList | raw => exact .inl rfl
  | call f args t =>
    obtain _ | ⟨text, _ | ⟨part, _ | _⟩⟩ := args
    · exact h.elim
    · exact h.elim
    · exact .inl rfl
    · exact h.elim
  | case | inQuery | «exists» | subquery | group => exact h.elim

/-- A node without a binary operator on top begins with itself. -/
theorem beginsHeld_of_ne_binary {n : Node} (h : n.Plain) (hlevel : n.reading.level = n.tree.level)
    (hne : ∀ op l r t, n ≠ binary op l r t) : BeginsHeld n := by
  intro op hassoc _ hle
  have hdiff : (Operator.of op).level ≠ n.tree.level := by
    obtain ⟨hclosed, hsign, htest, hnot⟩ := level_ne_of_associative hassoc
    obtain heq | heq | heq | heq := level_of_ne_binary h hne <;> rw [heq] <;> assumption
  have hbegin : beginsWithOther op n = false := by
    cases n with
    | binary o l r t => exact absurd rfl (hne o l r t)
    | _ => rfl
  rw [Tree.lead_of_level_ne (by rw [hlevel]; exact hdiff.symm), hlevel]
  exact iff_of_true (Nat.lt_of_le_of_ne hle hdiff) (by simp [hbegin])

/-- Under an operator of runs, what holds as strongly as the operator without being of its run is
another operator of the same precedence. -/
theorem level_lt_iff {op p : SqlOp} (h : op.isAssociative = true) (hne : p ≠ op)
    (hp : op.precedence ≤ p.precedence) (hl : (Operator.of op).level ≤ (Operator.of p).level) :
    (Operator.of op).level < (Operator.of p).level ↔
      ¬ ((op = .add ∨ op = .mul) ∧ p.precedence = op.precedence) := by
  cases op <;> first | cases h; done | skip
  all_goals
    revert hne hp hl
    cases p <;> decide

/-- A run begins where its left operand does.

**Proof sketch.** If the operator is that of the node, the run goes on in the left operand, which is either in
parentheses or holds by assumption. If it is another one, the tree of the node begins with itself, and only the two
levels matter. -/
theorem beginsHeld_binary {p : SqlOp} {l r : Node} {t : HostType} (hl : l.Plain)
    (hll : l.reading.level = l.tree.level) (hb : BeginsHeld l)
    (hfits : Tree.Fits (.of p) (l.reading.groupIf (l.precedence < p.precedence))
      (r.reading.groupIf (wrapsRight p r))) : BeginsHeld (binary p l r t) := by
  intro op hassoc hp hlevel
  by_cases hpo : p = op
  · subst hpo
    have hbegin : beginsWithOther p (binary p l r t) = beginsWithOther p l := by
      rw [beginsWithOther, if_pos rfl]
    rw [reading, Tree.lead_splice (o := .of p) hassoc hfits, hbegin]
    by_cases hlow : l.precedence < p.precedence
    · have hlead : Tree.lead (.of p) (.group l.reading) = .group l.reading := rfl
      rw [Tree.groupIf, if_pos (decide_eq_true hlow), hlead]
      refine iff_of_true (op_level_lt_closed p) ?_
      rintro ⟨-, hother⟩
      unfold beginsWithOther at hother
      split at hother
      · split at hother
        · next heq => exact Nat.lt_irrefl _ (heq ▸ hlow)
        · exact Nat.ne_of_lt hlow (beq_iff_eq.mp hother)
      · cases hother
    · have hheld := hfits.1
      rw [Tree.groupIf, if_neg (by simpa using hlow)] at hheld ⊢
      exact hb p hassoc (Nat.not_lt.mp hlow) (hll ▸ hheld)
  · obtain ⟨-, a, b, hsplice⟩ := Tree.splice_of_fits hfits
    have hlead : Tree.lead (.of op) (.binary (.of p) a b) = .binary (.of p) a b := by
      rw [Tree.lead, if_neg]
      rintro ⟨heq, -⟩
      exact hpo (Operator.of.inj heq)
    rw [reading, hsplice, hlead, beginsWithOther, if_neg hpo, beq_iff_eq]
    exact level_lt_iff hassoc hpo hp hlevel

/-- Patterns of a function are regrouped alike if their parts are. -/
private theorem pattern_canonical_inj (f : SqlFunction) (t u : Tree) :
    (pattern f t).canonical = (pattern f u).canonical ↔ t.canonical = u.canonical := by
  unfold pattern
  split <;> simp [Tree.canonical, Tree.canonicals]

/-- A sign before an operand is read as such unless the operand is a test that always has one
outcome. -/
theorem canonical_signed_iff {n : Node} (h : n.Plain) :
    (signed (n.reading.groupIf (n.precedence ≤ negatePrecedence))).canonical =
        (Tree.unary .negate n.tree).canonical ↔
      n.isRaw = false ∧ n.reading.canonical = n.tree.canonical := by
  by_cases hp : n.precedence ≤ negatePrecedence
  · have hraw : n.isRaw = false := by
      cases n with
      | raw => exact absurd hp (by simp [precedence, atomPrecedence, negatePrecedence])
      | _ => rfl
    rw [Tree.groupIf, if_pos (decide_eq_true hp), and_iff_right hraw, signed, Tree.canonical,
      Tree.canonical, Tree.canonical, Tree.unary.injEq, and_iff_right rfl]
    simp
  · rw [Tree.groupIf, if_neg (by simpa using hp)]
    obtain ⟨hraw, text, heq⟩ | ⟨hraw, text, heq⟩ := reading_of_closed h (Nat.not_le.mp hp)
    · have hsigned : signed (.atom text) = .unary .negate (.atom text) := rfl
      rw [heq, and_iff_right hraw, hsigned]
      simp only [Tree.canonical, Tree.unary.injEq, true_and]
    · rw [heq, hraw]
      refine iff_of_false ?_ (by simp)
      obtain ⟨a, b, hcan⟩ := Tree.canonical_binary (.of .eq) (signed (.atom "1"))
        (.atom (if text = "1=1" then "1" else "0"))
      rw [rawTree, signed, hcan, Tree.canonical]
      simp

mutual

/-- The trees of a node and of its text have the same canonical form exactly when the node keeps its
structure.

**Proof sketch.** By induction on the node. For a binary operator, that the whole is kept is equivalent to both
operands being kept and fitting the operator, and whether they fit is decided by what is misplaced. All other nodes
are kept if their operands are. -/
theorem canonical_reading_iff : (n : Node) → n.Plain →
    (n.reading.canonical = n.tree.canonical ↔ n.KeepsStructure)
  | literal .., _ | bound .., _ | column .., _ | null, _ | raw .., _ => iff_of_true rfl trivial
  | binary op l r t, h => by
    have ihl := canonical_reading_iff l h.1
    have ihr := canonical_reading_iff r h.2
    have hl := stands_reading l h.1
    have hr := stands_reading r h.2
    have hheld : (∀ p a b, l.reading.groupIf (l.precedence < op.precedence) ≠ .binary p a b) →
        (Operator.of op).level ≤ (l.reading.groupIf (l.precedence < op.precedence)).level := by
      intro hne
      have hn (hlow : decide (l.precedence < op.precedence) = false) : op.precedence ≤ l.precedence :=
        Nat.not_lt.mp (of_decide_eq_false hlow)
      by_cases hop : predicatePrecedence < op.precedence
      · have hsimple := hl.simple_groupIf _ fun hlow => Nat.lt_of_lt_of_le hop (hn hlow)
        exact Nat.le_trans (Nat.le_of_lt (Operator.level_lt_sign _)) (hsimple.signLevel_le hne)
      · exact hl.level_groupIf (Nat.not_lt.mp hop) hn
    have hleads : Tree.Leads (.of op) (r.reading.groupIf (wrapsRight op r)) :=
      hr.leads_groupIf fun hw => (wrapsRight_eq_false hw).imp_right fun ⟨hassoc, _, _, _, heq⟩ =>
        ⟨hassoc, by rw [heq]; rfl⟩
    rw [reading, tree, Tree.canonical_splice_iff hheld hleads
      (by rw [Tree.leaves_groupIf, leaves_reading l h.1]), Tree.canonical_groupIf,
      Tree.canonical_groupIf, KeepsStructure, ihl, ihr]
    refine and_congr_left fun ⟨hkl, hkr⟩ => ?_
    exact fits_iff h.1 h.2 (level_reading h.1 (ihl.mpr hkl)) (level_reading h.2 (ihr.mpr hkr))
      (beginsHeld r h.2 hkr (ihr.mpr hkr))
  | unary .negate operand t, h => by
    have ih := canonical_reading_iff operand h
    rw [reading, tree, canonical_signed_iff (n := operand) h, KeepsStructure, ih]
  | unary .not operand t, h => by
    have ih := canonical_reading_iff operand h
    rw [reading, tree, Tree.canonical, Tree.canonical, Tree.canonical, Tree.unary.injEq,
      and_iff_right rfl, KeepsStructure, ih]
  | isNull operand negated, h => by
    have ih := canonical_reading_iff operand h
    rw [reading, tree, Tree.canonical, Tree.canonical, Tree.canonical_groupIf, Tree.isNull.injEq,
      and_iff_left rfl, KeepsStructure, ih]
  | inList operand items negated, h => by
    have ih := canonical_reading_iff operand h.1
    have ih' := canonicals_readings_iff items h.2.2
    rw [reading, tree, Tree.canonical, Tree.canonical, Tree.canonical_groupIf, Tree.isIn.injEq,
      and_iff_left rfl, KeepsStructure, ih, ih']
  | call f [text, part] t, h => by
    have ih := canonical_reading_iff text h.2.1
    have ih' := canonical_reading_iff part h.2.2
    rw [reading, tree, Tree.canonical, Tree.canonical, Tree.canonical_groupIf, Tree.join,
      if_neg (by decide), Tree.join, if_neg (by decide), Tree.binary.injEq, and_iff_right rfl,
      pattern_canonical_inj, KeepsStructure, ih, ih']
  | call _ [] _, h | call _ [_] _, h | call _ (_ :: _ :: _ :: _) _, h | case .., h
  | inQuery .., h | .exists .., h | subquery .., h | group .., h => h.elim

/-- The trees of several nodes and of their texts have the same canonical forms exactly when the
nodes keep their structure. -/
theorem canonicals_readings_iff : (ns : List Node) → AllPlain ns →
    (Tree.canonicals (readings ns) = Tree.canonicals (trees ns) ↔ AllKeepStructure ns)
  | [], _ => iff_of_true rfl trivial
  | n :: rest, h => by
    have ih := canonical_reading_iff n h.1
    have ih' := canonicals_readings_iff rest h.2
    rw [readings, trees, Tree.canonicals, Tree.canonicals, List.cons.injEq, AllKeepStructure, ih, ih']

/-- What the run of a node begins with, if the node keeps its structure. -/
theorem beginsHeld : (n : Node) → n.Plain → n.KeepsStructure → n.reading.canonical = n.tree.canonical → BeginsHeld n
  | binary p l r t, h, hk, _ => by
    have hcl := (canonical_reading_iff l h.1).mpr hk.2.1
    have hcr := (canonical_reading_iff r h.2).mpr hk.2.2
    have hll := level_reading h.1 hcl
    have hlr := level_reading h.2 hcr
    have hfits := (fits_iff h.1 h.2 hll hlr (beginsHeld r h.2 hk.2.2 hcr)).mpr hk.1
    exact beginsHeld_binary h.1 hll (beginsHeld l h.1 hk.2.1 hcl) hfits
  | literal .., h, _, hc | bound .., h, _, hc | column .., h, _, hc | null, h, _, hc | raw .., h, _, hc
  | unary .., h, _, hc | isNull .., h, _, hc | inList .., h, _, hc | call .., h, _, hc =>
    beginsHeld_of_ne_binary h (level_reading h hc) nofun
  | case .., h, _, _ | inQuery .., h, _, _ | .exists .., h, _, _ | subquery .., h, _, _ | group .., h, _, _ => h.elim

end

/-- **The text of a plain node is read as the node exactly when the node keeps its structure**, up to
parentheses and the grouping of runs. -/
theorem same_reading_iff {n : Node} (h : n.Plain) : n.reading.Same n.tree ↔ n.KeepsStructure :=
  Tree.same_iff.trans (canonical_reading_iff n h)
end LambdaSql.Node
