import LambdaSql.Proofs.Reading.Tree

/-!
# Trees that are the same up to grouping

Parentheses mean nothing by themselves, and a run of one associative operator means the same however
it is grouped. Trees that differ in nothing else are the same. Each tree has a canonical form, without
parentheses and with every run grouped from the left, and trees are the same exactly when their
canonical forms are equal.

## Main definitions

* `Reading.Tree.Same` - trees that differ in parentheses and in the grouping of runs.
* `Reading.Tree.canonical` - the canonical form.
* `Reading.Tree.operands` - the operands of a run.
* `Reading.Tree.leaves` - the number of values in a tree.

## Main results

* `Reading.Tree.same_iff` - trees are the same exactly when their canonical forms are equal.
-/

namespace LambdaSql.Reading.Tree

/-! ## Sameness -/

/-- Trees that differ only in parentheses and in the grouping of runs of an associative operator. -/
inductive Same : Tree → Tree → Prop
  | refl (t : Tree) : Same t t
  | symm {t u : Tree} : Same t u → Same u t
  | trans {t u v : Tree} : Same t u → Same u v → Same t v
  | group (t : Tree) : Same (.group t) t
  | regroup {o : Operator} (h : o.isAssociative = true) (a b c : Tree) :
    Same (.binary o (.binary o a b) c) (.binary o a (.binary o b c))
  | binary {o : Operator} {l l' r r' : Tree} : Same l l' → Same r r' →
    Same (.binary o l r) (.binary o l' r')
  | unary {o : SqlUnaryOp} {t t' : Tree} : Same t t' → Same (.unary o t) (.unary o t')
  | isNull {t t' : Tree} {negated : Bool} : Same t t' → Same (.isNull t negated) (.isNull t' negated)
  | isIn {t t' : Tree} {items : List Tree} {negated : Bool} : Same t t' →
    Same (.isIn t items negated) (.isIn t' items negated)
  | item {t u u' : Tree} {before after : List Tree} {negated : Bool} : Same u u' →
    Same (.isIn t (before ++ u :: after) negated) (.isIn t (before ++ u' :: after) negated)
  | arg {name : String} {u u' : Tree} {before after : List Tree} : Same u u' →
    Same (.call name (before ++ u :: after)) (.call name (before ++ u' :: after))

/-! ## Canonical forms -/

/-- A run of an operator with another one after it, grouped from the left. -/
def joinRun (o : Operator) (left : Tree) : Tree → Tree
  | binary p a b => if p = o then binary o (joinRun o left a) b else binary o left (binary p a b)
  | t => binary o left t

/-- An operator on two canonical operands. -/
def join (o : Operator) (left right : Tree) : Tree :=
  if o.isAssociative then joinRun o left right else binary o left right

mutual

/-- A tree without parentheses and with every run grouped from the left. -/
def canonical : Tree → Tree
  | atom text => atom text
  | binary o left right => join o (canonical left) (canonical right)
  | unary o operand => unary o (canonical operand)
  | isNull operand negated => isNull (canonical operand) negated
  | isIn operand items negated => isIn (canonical operand) (canonicals items) negated
  | call name args => call name (canonicals args)
  | group inner => canonical inner

/-- Several trees in their canonical form. -/
def canonicals : List Tree → List Tree
  | [] => []
  | t :: rest => canonical t :: canonicals rest

end

/-- Trees are regrouped one by one. -/
private theorem canonicals_eq_map (ts : List Tree) : canonicals ts = ts.map canonical := by
  induction ts with
  | nil => rfl
  | cons t rest ih => rw [canonicals, ih, List.map_cons]

/-- Parentheses do not matter to the canonical form. -/
@[simp]
theorem canonical_groupIf (needed : Bool) (t : Tree) : (t.groupIf needed).canonical = t.canonical := by
  cases needed <;> rfl

/-- Three runs may be joined in either order. -/
theorem joinRun_assoc (o : Operator) (a b c : Tree) :
    joinRun o (joinRun o a b) c = joinRun o a (joinRun o b c) := by
  induction c using joinRun.induct o with
  | case1 x y ih => simp [joinRun, ih]
  | case2 p x y hp => simp [joinRun, hp]
  | case3 t ht =>
    have (l : Tree) : joinRun o l t = binary o l t := by
      cases t <;> first | rfl | exact absurd rfl (ht _ _ _)
    rw [this, this, joinRun, if_pos rfl]

/-- Same trees have equal canonical forms. -/
theorem Same.canonical_eq {t u : Tree} (h : Same t u) : t.canonical = u.canonical := by
  induction h with
  | refl t => rfl
  | symm _ ih => exact ih.symm
  | trans _ _ ih ih' => exact ih.trans ih'
  | group t => rfl
  | regroup h a b c =>
    simp only [canonical, join, h, if_true]
    exact joinRun_assoc _ _ _ _
  | binary _ _ ihl ihr => rw [canonical, canonical, ihl, ihr]
  | unary _ ih | isNull _ ih | isIn _ ih => rw [canonical, canonical, ih]
  | item _ ih => simp only [canonical, canonicals_eq_map, List.map_append, List.map_cons, ih]
  | arg _ ih => simp only [canonical, canonicals_eq_map, List.map_append, List.map_cons, ih]

/-- Joining runs changes their grouping only. -/
theorem same_join (o : Operator) (l r : Tree) : Same (.binary o l r) (join o l r) := by
  unfold join
  split
  · next h =>
    induction r using joinRun.induct o with
    | case1 a b ih =>
      rw [joinRun, if_pos rfl]
      exact (Same.regroup h l a b).symm.trans (.binary ih (.refl b))
    | case2 p a b hp =>
      rw [joinRun, if_neg hp]
      exact .refl _
    | case3 t ht =>
      have : joinRun o l t = .binary o l t := by
        cases t <;> first | rfl | exact absurd rfl (ht _ _ _)
      rw [this]
      exact .refl _
  · exact .refl _

/-- Each of several items may be replaced by a same one. -/
theorem same_items {t : Tree} {negated : Bool} (before : List Tree) {items : List Tree}
    (h : ∀ u ∈ items, Same u u.canonical) :
    Same (.isIn t (before ++ items) negated) (.isIn t (before ++ canonicals items) negated) := by
  induction items generalizing before with
  | nil => exact .refl _
  | cons u rest ih =>
    have := ih (before ++ [u.canonical]) fun v hv => h v (List.mem_cons_of_mem u hv)
    rw [List.append_assoc, List.append_assoc] at this
    exact (Same.item (h u (List.mem_cons_self ..))).trans this

/-- Each of several arguments may be replaced by a same one. -/
theorem same_args {name : String} (before : List Tree) {args : List Tree}
    (h : ∀ u ∈ args, Same u u.canonical) :
    Same (.call name (before ++ args)) (.call name (before ++ canonicals args)) := by
  induction args generalizing before with
  | nil => exact .refl _
  | cons u rest ih =>
    have := ih (before ++ [u.canonical]) fun v hv => h v (List.mem_cons_of_mem u hv)
    rw [List.append_assoc, List.append_assoc] at this
    exact (Same.arg (h u (List.mem_cons_self ..))).trans this

mutual

/-- A tree is the same as its canonical form. -/
theorem same_canonical : (t : Tree) → Same t t.canonical
  | atom _ => .refl _
  | binary o l r => (Same.binary (same_canonical l) (same_canonical r)).trans (same_join o _ _)
  | unary _ operand => .unary (same_canonical operand)
  | isNull operand _ => .isNull (same_canonical operand)
  | isIn operand items _ =>
    (Same.isIn (same_canonical operand)).trans (same_items [] (same_canonicals items))
  | call _ args => same_args [] (same_canonicals args)
  | group inner => (Same.group inner).trans (same_canonical inner)

/-- Each of several trees is the same as its canonical form. -/
theorem same_canonicals : (ts : List Tree) → ∀ u ∈ ts, Same u u.canonical
  | [], _, hu => nomatch hu
  | t :: rest, u, hu => by
    rcases List.mem_cons.mp hu with h | h
    · rw [h]
      exact same_canonical t
    · exact same_canonicals rest u h

end

/-- **Trees are the same exactly when their canonical forms are equal.** -/
theorem same_iff {t u : Tree} : Same t u ↔ t.canonical = u.canonical := by
  refine ⟨Same.canonical_eq, fun h => ?_⟩
  have := (same_canonical u).symm
  rw [← h] at this
  exact (same_canonical t).trans this

/-! ## Runs -/

/-- The operands of a run that is grouped from the left. -/
def operands (o : Operator) : Tree → List Tree
  | binary p a b => if p = o then operands o a ++ [b] else [binary p a b]
  | t => [t]

/-- Another operation is one operand. -/
theorem operands_of_ne {o p : Operator} (h : p ≠ o) (a b : Tree) :
    operands o (binary p a b) = [binary p a b] := by
  rw [operands, if_neg h]

/-- The operands of two joined runs are those of both. -/
theorem operands_joinRun (o : Operator) (l r : Tree) :
    operands o (joinRun o l r) = operands o l ++ operands o r := by
  induction r using joinRun.induct o with
  | case1 a b ih => simp [joinRun, operands, ih]
  | case2 p a b hp => simp [joinRun, operands, hp]
  | case3 t ht =>
    cases t with
    | binary => exact absurd rfl (ht _ _ _)
    | _ => simp [joinRun, operands]

/-- A run has an operand. -/
private theorem operands_ne_nil (o : Operator) (t : Tree) : operands o t ≠ [] := by
  unfold operands
  split
  · split <;> simp
  · simp

/-- A tree is a run of an operator, or an operand by itself. -/
theorem operands_cases (o : Operator) (t : Tree) :
    (∃ a b, t = binary o a b ∧ operands o t = operands o a ++ [b]) ∨ operands o t = [t] := by
  cases t with
  | binary p a b =>
    by_cases hp : p = o
    · subst hp
      exact .inl ⟨a, b, rfl, by rw [operands, if_pos rfl]⟩
    · exact .inr (operands_of_ne hp a b)
  | _ => exact .inr rfl

/-- A tree is known by the operands of its run.

**Proof sketch.** By induction on the run of the one tree. Where it goes on, so does the other's, whose last operand
is the same; where it ends, it has a single operand, of which no longer run consists. -/
theorem operands_injective {o : Operator} {t u : Tree} (h : operands o t = operands o u) : t = u := by
  -- a run that goes on has two operands at least
  have long {a b v : Tree} (hs : operands o a ++ [b] = [v]) : False := by
    have hlen := congrArg List.length hs
    have hpos := List.length_pos_iff.mpr (operands_ne_nil o a)
    simp only [List.length_append, List.length_singleton] at hlen
    omega
  induction t using operands.induct o generalizing u with
  | case1 a b ih =>
    rw [operands, if_pos rfl] at h
    obtain ⟨c, d, rfl, hu⟩ | hu := operands_cases o u
    · rw [hu] at h
      obtain ⟨ha, hb⟩ := List.append_inj' h rfl
      rw [ih ha, List.singleton_inj.mp hb]
    · exact (long (h.trans hu)).elim
  | case2 p a b hp =>
    rw [operands_of_ne hp] at h
    obtain ⟨c, d, rfl, hu⟩ | hu := operands_cases o u
    · exact (long (hu.symm.trans h.symm)).elim
    · exact List.singleton_inj.mp (h.trans hu)
  | case3 t ht =>
    have single : operands o t = [t] := by
      cases t with
      | binary => exact absurd rfl (ht _ _ _)
      | _ => rfl
    rw [single] at h
    obtain ⟨c, d, rfl, hu⟩ | hu := operands_cases o u
    · exact (long (hu.symm.trans h.symm)).elim
    · exact List.singleton_inj.mp (h.trans hu)

mutual

/-- The number of values in a tree. -/
def leaves : Tree → Nat
  | atom _ => 1
  | binary _ left right => leaves left + leaves right
  | unary _ operand | isNull operand _ | group operand => leaves operand
  | isIn operand items _ => leaves operand + listLeaves items
  | call _ args => 1 + listLeaves args

/-- The number of values in several trees. -/
def listLeaves : List Tree → Nat
  | [] => 0
  | t :: rest => leaves t + listLeaves rest

end

/-- Every tree has a value. -/
theorem leaves_pos (t : Tree) : 0 < t.leaves := by
  induction t using Tree.rec (motive_2 := fun _ => True) <;> simp_all [leaves]

/-- Parentheses do not matter to the leaves. -/
@[simp]
theorem leaves_groupIf (needed : Bool) (t : Tree) : (t.groupIf needed).leaves = t.leaves := by
  cases needed <;> rfl

/-- A joined run has the leaves of its sides. -/
private theorem leaves_joinRun (o : Operator) (l r : Tree) :
    (joinRun o l r).leaves = l.leaves + r.leaves := by
  induction r using joinRun.induct o with
  | case1 a b ih =>
    rw [joinRun, if_pos rfl, leaves, ih, leaves]
    omega
  | case2 p a b hp => simp [joinRun, hp, leaves]
  | case3 t ht =>
    cases t with
    | binary => exact absurd rfl (ht _ _ _)
    | _ => rfl

mutual

/-- Grouping neither adds nor drops a value. -/
theorem leaves_canonical : (t : Tree) → t.canonical.leaves = t.leaves
  | atom _ => rfl
  | binary o l r => by
    rw [canonical, join]
    split
    · rw [leaves_joinRun, leaves_canonical l, leaves_canonical r, leaves]
    · rw [leaves, leaves_canonical l, leaves_canonical r, leaves]
  | unary _ operand => leaves_canonical operand
  | isNull operand _ => leaves_canonical operand
  | isIn operand items _ => by
    rw [canonical, leaves, leaves_canonical operand, listLeaves_canonicals items, leaves]
  | call _ args => by rw [canonical, leaves, listLeaves_canonicals args, leaves]
  | group inner => leaves_canonical inner

/-- Grouping neither adds nor drops a value of several trees. -/
theorem listLeaves_canonicals : (ts : List Tree) → listLeaves (canonicals ts) = listLeaves ts
  | [] => rfl
  | t :: rest => by
    rw [canonicals, listLeaves, leaves_canonical t, listLeaves_canonicals rest, listLeaves]

end

/-- The leaves of two lists are added. -/
theorem listLeaves_append (ts us : List Tree) :
    listLeaves (ts ++ us) = listLeaves ts + listLeaves us := by
  induction ts with
  | nil => simp [listLeaves]
  | cons t rest ih => rw [List.cons_append, listLeaves, ih, listLeaves, Nat.add_assoc]

/-- The values of a tree are those of the operands of its run. -/
theorem listLeaves_operands (o : Operator) (t : Tree) : listLeaves (operands o t) = t.leaves := by
  induction t using operands.induct o with
  | case1 a b ih => simp [operands, listLeaves_append, ih, listLeaves, leaves]
  | case2 p a b hp => simp [operands, hp, listLeaves]
  | case3 t ht =>
    cases t with
    | binary => exact absurd rfl (ht _ _ _)
    | _ => rfl

/-- Two beginnings of a list of trees with equally many values are equal. -/
theorem prefix_unique {as bs cs ds : List Tree} (h : as ++ bs = cs ++ ds)
    (hl : listLeaves as = listLeaves cs) : as = cs ∧ bs = ds := by
  induction as generalizing cs with
  | nil =>
    cases cs with
    | nil => exact ⟨rfl, h⟩
    | cons c rest =>
      have := leaves_pos c
      simp only [listLeaves] at hl
      omega
  | cons a rest ih =>
    cases cs with
    | nil =>
      have := leaves_pos a
      simp only [listLeaves] at hl
      omega
    | cons c rest' =>
      obtain ⟨rfl, htail⟩ := List.cons.inj h
      obtain ⟨rfl, hb⟩ := ih htail (by simpa only [listLeaves, Nat.add_left_cancel_iff] using hl)
      exact ⟨rfl, hb⟩

end LambdaSql.Reading.Tree
