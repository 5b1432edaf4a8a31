import LambdaSql.Proofs.Reading.Regroup

/-!
# Trees put next to each other

When the tokens of two settled trees are written down with an operator between them, the settled tree
with all these tokens need not have that operator on top. The left tree gives up the right end of
what holds less strongly than the operator, and the right tree gives up the left end of what does not
hold more strongly. Only if neither has to give up anything, runs aside, the operator stands between
the two trees.

## Main definitions

* `Reading.Tree.extend`, `Reading.Tree.splice` - the tree of tokens with an operator between them.
* `Reading.Tree.Simple` - trees in which only arithmetic and tests of numbers stand open.
* `Reading.Tree.Fits` - the operands that an operator leaves whole.

## Main results

* `Reading.Tree.tokens_splice`, `Reading.Tree.settled_splice` - its tokens, and that it is settled.
* `Reading.Tree.canonical_splice_iff` - the operator stands between the two trees exactly when they
  fit.
-/

namespace LambdaSql.Reading.Tree

/-- The tree of the tokens of a tree with an operator and a closed right operand after them. -/
def extend (o : Operator) (right : Tree) : Tree → Tree
  | binary p a b =>
    if p.level < o.level then binary p a (extend o right b) else binary o (binary p a b) right
  | t => binary o t right

/-- The tree of the tokens of two trees with an operator between them. -/
def splice (o : Operator) (left : Tree) : Tree → Tree
  | binary p a b =>
    if p.level ≤ o.level then extend p b (splice o left a) else extend o (binary p a b) left
  | t => extend o t left

/-- A tree without an operator on top is taken whole. -/
theorem extend_of_not_binary {t : Tree} (o : Operator) (r : Tree) (h : ∀ p a b, t = binary p a b → False) :
    extend o r t = binary o t r := by
  cases t with
  | binary p a b => exact (h p a b rfl).elim
  | _ => rfl

/-- A tree that is not binary is taken by extension. -/
private theorem splice_of_not_binary {t : Tree} (o : Operator) (l : Tree) (h : ∀ p a b, t = binary p a b → False) :
    splice o l t = extend o t l := by
  cases t with
  | binary p a b => exact (h p a b rfl).elim
  | _ => rfl

/-- A tree takes an operator with a right operand whole, or the operator goes into its right end. -/
theorem extend_cases (o : Operator) (r t : Tree) :
    ((∀ p a b, t = binary p a b → o.level ≤ p.level) ∧ extend o r t = binary o t r) ∨
      ∃ p a b, t = binary p a b ∧ p.level < o.level ∧ extend o r t = binary p a (extend o r b) := by
  cases t with
  | binary p a b =>
    by_cases h : p.level < o.level
    · exact .inr ⟨p, a, b, rfl, h, by rw [extend, if_pos h]⟩
    · refine .inl ⟨?_, by rw [extend, if_neg h]⟩
      rintro _ _ _ ⟨⟩
      exact Nat.not_lt.mp h
  | _ => exact .inl ⟨nofun, rfl⟩

/-- A tree is taken whole after an operator, or it gives up its left end. -/
theorem splice_cases (o : Operator) (l t : Tree) :
    ((∀ p a b, t = binary p a b → o.level < p.level) ∧ splice o l t = extend o t l) ∨
      ∃ p a b, t = binary p a b ∧ p.level ≤ o.level ∧
        splice o l t = extend p b (splice o l a) := by
  cases t with
  | binary p a b =>
    by_cases h : p.level ≤ o.level
    · exact .inr ⟨p, a, b, rfl, h, by rw [splice, if_pos h]⟩
    · refine .inl ⟨?_, by rw [splice, if_neg h]⟩
      rintro _ _ _ ⟨⟩
      exact Nat.not_le.mp h
  | _ => exact .inl ⟨nofun, rfl⟩

/-- An extended tree has the tokens of both, with the operator between them. -/
@[simp]
theorem tokens_extend (o : Operator) (r t : Tree) :
    (extend o r t).tokens = t.tokens ++ .op o :: r.tokens := by
  induction t using extend.induct o with
  | case1 p a b hp ih => rw [extend, if_pos hp, tokens, ih, tokens, List.append_assoc, List.cons_append]
  | case2 p a b hp => rw [extend, if_neg hp, tokens]
  | case3 t ht => rw [extend_of_not_binary o r ht, tokens]

/-- The tokens of both trees stay where they are. -/
@[simp]
theorem tokens_splice (o : Operator) (l r : Tree) :
    (splice o l r).tokens = l.tokens ++ .op o :: r.tokens := by
  induction r using splice.induct o with
  | case1 p a b hp ih => rw [splice, if_pos hp, tokens_extend, ih, tokens, List.append_assoc, List.cons_append]
  | case2 p a b hp => rw [splice, if_neg hp, tokens_extend]
  | case3 t ht => rw [splice_of_not_binary o l ht, tokens_extend]

/-- An extended tree has the leaves of both. -/
private theorem leaves_extend (o : Operator) (r t : Tree) :
    (extend o r t).leaves = t.leaves + r.leaves := by
  induction t using extend.induct o with
  | case1 p a b hp ih => rw [extend, if_pos hp, leaves, ih, leaves, Nat.add_assoc]
  | case2 p a b hp => rw [extend, if_neg hp, leaves]
  | case3 t ht => rw [extend_of_not_binary o r ht, leaves]

/-- The leaves of two joined trees are those of both. -/
@[simp]
theorem leaves_splice (o : Operator) (l r : Tree) :
    (splice o l r).leaves = l.leaves + r.leaves := by
  induction r using splice.induct o with
  | case1 p a b hp ih => rw [splice, if_pos hp, leaves_extend, ih, leaves, Nat.add_assoc]
  | case2 p a b hp => rw [splice, if_neg hp, leaves_extend]
  | case3 t ht => rw [splice_of_not_binary o l ht, leaves_extend]

/-- An extended tree is binary. -/
private theorem extend_eq_binary (o : Operator) (r t : Tree) : ∃ p a b, extend o r t = binary p a b := by
  obtain ⟨-, h⟩ | ⟨p, a, b, -, -, h⟩ := extend_cases o r t <;> exact ⟨_, _, _, h⟩

/-- Two joined trees are a binary operation. -/
theorem splice_eq_binary (o : Operator) (l r : Tree) : ∃ p a b, splice o l r = binary p a b := by
  obtain ⟨-, h⟩ | ⟨p, a, b, -, -, h⟩ := splice_cases o l r
  · rw [h]
    exact extend_eq_binary o r l
  · rw [h]
    exact extend_eq_binary p b (splice o l a)

/-! ## Settled trees -/

/-- The trees in which, parentheses and lists aside, only arithmetic and tests of numbers stand. -/
def Simple : Tree → Prop
  | binary p a b => testLevel ≤ p.level ∧ Simple a ∧ Simple b
  | t => signLevel ≤ t.level

/-- A simple tree binds at least as tightly as a test. -/
theorem Simple.level {t : Tree} (h : t.Simple) : testLevel ≤ t.level := by
  cases t with
  | binary => exact h.1
  | _ => exact Nat.le_trans (by decide) h

/-- In a simple tree only operators hold less strongly than a sign. -/
theorem Simple.signLevel_le {t : Tree} (h : t.Simple) (hne : ∀ p a b, t ≠ binary p a b) :
    signLevel ≤ t.level := by
  cases t with
  | binary p a b => exact absurd rfl (hne p a b)
  | _ => exact h

/-- A simple tree that is extended by a simple one is simple. -/
theorem Simple.extend {o : Operator} {r t : Tree} (ho : testLevel ≤ o.level) (hr : r.Simple)
    (ht : t.Simple) : (extend o r t).Simple := by
  induction t using extend.induct o with
  | case1 p a b hp ih =>
    rw [Tree.extend, if_pos hp]
    exact ⟨ht.1, ht.2.1, ih ht.2.2⟩
  | case2 p a b hp =>
    rw [Tree.extend, if_neg hp]
    exact ⟨ho, ht, hr⟩
  | case3 t hne =>
    rw [extend_of_not_binary o r hne]
    exact ⟨ho, ht, hr⟩

/-- Two simple trees are simple when they are joined. -/
theorem Simple.splice {o : Operator} {l r : Tree} (ho : testLevel ≤ o.level) (hl : l.Simple)
    (hr : r.Simple) : (splice o l r).Simple := by
  induction r using splice.induct o with
  | case1 p a b hp ih =>
    rw [Tree.splice, if_pos hp]
    exact .extend hr.1 hr.2.2 (ih hr.2.1)
  | case2 p a b hp =>
    rw [Tree.splice, if_neg hp]
    exact .extend ho hr hl
  | case3 t hne =>
    rw [splice_of_not_binary o l hne]
    exact .extend ho hr hl

/-- Whether an operator finds an operand at the right end of a tree. -/
def Takes (o : Operator) : Tree → Prop
  | binary p _ b => p.level < o.level → Takes o b
  | t => o.level ≤ t.level

/-- An operator takes a tree that binds at least as tightly. -/
private theorem takes_of_le {o : Operator} {t : Tree} (h : o.level ≤ t.level) : Takes o t := by
  cases t with
  | binary p a b => exact fun hlt => absurd h (Nat.not_le.mpr hlt)
  | _ => exact h

/-- A simple tree takes each operator. -/
theorem Simple.takes {t : Tree} (o : Operator) (h : t.Simple) : Takes o t := by
  induction t using extend.induct o with
  | case1 p a b hp ih => exact fun _ => ih h.2.2
  | case2 p a b hp => exact fun hlt => absurd hlt hp
  | case3 t hne =>
    cases t with
    | binary => exact absurd rfl (hne _ _ _)
    | _ => exact Nat.le_trans (Nat.le_of_lt o.level_lt_sign) h

/-- An operator put after a settled tree that takes it. -/
theorem settled_extend {o : Operator} {r t : Tree} (ht : t.Settled) (hr : r.Settled)
    (hlt : o.level < r.level) (hto : Takes o t) :
    (extend o r t).Settled ∧ (extend o r t).level = min o.level t.level := by
  induction t using extend.induct o with
  | case1 p a b hp ih =>
    obtain ⟨hpa, hpb, hsa, hsb⟩ := ht
    obtain ⟨hs, hlev⟩ := ih hsb (hto hp)
    rw [extend, if_pos hp]
    refine ⟨⟨hpa, ?_, hsa, hs⟩, ?_⟩
    · rw [hlev]
      exact Nat.lt_min.mpr ⟨hp, hpb⟩
    · exact (Nat.min_eq_right (Nat.le_of_lt hp)).symm
  | case2 p a b hp =>
    rw [extend, if_neg hp]
    exact ⟨⟨Nat.not_lt.mp hp, hlt, ht, hr⟩, (Nat.min_eq_left (Nat.not_lt.mp hp)).symm⟩
  | case3 t hne =>
    have h : o.level ≤ t.level := by
      cases t with
      | binary => exact absurd rfl (hne _ _ _)
      | _ => exact hto
    rw [extend_of_not_binary o r hne]
    exact ⟨⟨h, hlt, ht, hr⟩, (Nat.min_eq_left h).symm⟩

/-- Whether what an operator finds at the left end of a tree holds more strongly. -/
def Leads (o : Operator) : Tree → Prop
  | binary p a _ => p.level ≤ o.level → Leads o a
  | t => o.level < t.level

/-- A tree that binds more tightly than an operator leads for it. -/
theorem leads_of_lt {o : Operator} {t : Tree} (h : o.level < t.level) : Leads o t := by
  cases t with
  | binary p a b => exact fun hle => absurd h (Nat.not_lt.mpr hle)
  | _ => exact h

/-- A tree that leads still does so when it is extended. -/
theorem Leads.extend {o q : Operator} {r t : Tree} (h : Leads o t) : Leads o (extend q r t) := by
  obtain ⟨-, heq⟩ | ⟨p, a, b, rfl, -, heq⟩ := extend_cases q r t
  · rw [heq]
    exact fun _ => h
  · rw [heq]
    exact h

/-- The left end of a left tree is the left end of the tree of all tokens. -/
theorem Leads.splice {o q : Operator} {l r : Tree} (h : Leads o l) : Leads o (splice q l r) := by
  induction r using splice.induct q with
  | case1 p a b hp ih =>
    rw [Tree.splice, if_pos hp]
    exact ih.extend
  | case2 p a b hp =>
    rw [Tree.splice, if_neg hp]
    exact h.extend
  | case3 t hne =>
    rw [splice_of_not_binary q l hne]
    exact h.extend

/-- A simple tree leads for each operator. -/
theorem Simple.leads {t : Tree} (o : Operator) (h : t.Simple) : Leads o t := by
  induction t using splice.induct o with
  | case1 p a b hp ih => exact fun _ => ih h.2.1
  | case2 p a b hp => exact fun hle => absurd hle hp
  | case3 t hne =>
    cases t with
    | binary => exact absurd rfl (hne _ _ _)
    | _ => exact Nat.lt_of_lt_of_le o.level_lt_sign h

/-- Two settled trees whose tokens stand next to each other, if the left one takes every operator
that may come to it from the right one.

**Proof sketch.** By induction on the left spine of the right tree, as the two are put together. While an operator of
the right tree is no stronger than the new one, it takes what has been put together so far, which holds as strongly as
it does; then the new operator takes the left tree. -/
theorem settled_splice {o : Operator} {l r : Tree} (hl : l.Settled) (hr : r.Settled)
    (hleads : Leads o r)
    (htakes : l.Simple ∧ r.Simple ∧ testLevel ≤ o.level ∨ o.level ≤ l.level ∧ o.level ≤ r.level) :
    (splice o l r).Settled ∧ (o.level ≤ l.level → o.level ≤ r.level →
      (splice o l r).level = o.level) := by
  induction r using splice.induct o with
  | case1 p a b hp ih =>
    obtain ⟨hpa, hpb, hsa, hsb⟩ := hr
    have ih := ih hsa (hleads hp) (htakes.imp (fun h => ⟨h.1, h.2.1.2.1, h.2.2⟩)
      fun h => ⟨h.1, Nat.le_trans h.2 hpa⟩)
    -- what has been put together so far holds as strongly as the operator after it
    have take : Takes p (splice o l a) := by
      obtain ⟨hsl, hsr, ho⟩ | ⟨hol, hor⟩ := htakes
      · exact (Simple.splice ho hsl hsr.2.1).takes p
      · refine takes_of_le ?_
        rw [ih.2 hol (Nat.le_trans hor hpa)]
        exact hp
    have hext := settled_extend ih.1 hsb hpb take
    rw [splice, if_pos hp]
    refine ⟨hext.1, fun hol hor => ?_⟩
    have hor : o.level ≤ p.level := hor
    rw [hext.2, ih.2 hol (Nat.le_trans hor hpa)]
    omega
  | case2 p a b hp =>
    have take : Takes o l := htakes.elim (fun h => h.1.takes o) fun h => takes_of_le h.1
    have hext := settled_extend hl hr (Nat.not_le.mp hp) take
    rw [splice, if_neg hp]
    refine ⟨hext.1, fun hol _ => ?_⟩
    rw [hext.2]
    exact Nat.min_eq_left hol
  | case3 t hne =>
    have take : Takes o l := htakes.elim (fun h => h.1.takes o) fun h => takes_of_le h.1
    have hlt : o.level < t.level := by
      cases t with
      | binary => exact absurd rfl (hne _ _ _)
      | _ => exact hleads
    have hext := settled_extend hl hr hlt take
    rw [splice_of_not_binary o l hne]
    refine ⟨hext.1, fun hol _ => ?_⟩
    rw [hext.2]
    exact Nat.min_eq_left hol

/-! ## Trees that fit -/

/-- The operand at which a run begins. -/
def lead (o : Operator) : Tree → Tree
  | binary p a b => if p = o ∧ o.isAssociative = true then lead o a else binary p a b
  | t => t

/-- The operands that an operator leaves whole: a left one that holds as strongly, and a right one
that holds more strongly, or a run of the operator that begins with such an operand. -/
def Fits (o : Operator) (l r : Tree) : Prop := o.level ≤ l.level ∧ o.level < (lead o r).level

/-- What is no run of an operator begins with itself. -/
theorem lead_of_level_ne {o : Operator} {t : Tree} (h : t.level ≠ o.level) : lead o t = t := by
  cases t with
  | binary p a b =>
    rw [lead, if_neg]
    rintro ⟨rfl, -⟩
    exact h rfl
  | _ => rfl

/-- For an operator that is not associative, the lead of a tree is the tree. -/
theorem lead_of_not_associative {o : Operator} {t : Tree} (h : o.isAssociative = false) :
    lead o t = t := by
  cases t with
  | binary p a b => rw [lead, if_neg fun hrun => by rw [h] at hrun; exact absurd hrun.2 nofun]
  | _ => rfl

/-- Joined runs have the operands of both. -/
private theorem operands_join (o : Operator) (h : o.isAssociative = true) (l r : Tree) :
    operands o (join o l r) = operands o l ++ operands o r := by
  rw [join, if_pos h, operands_joinRun]

/-- An operator stays on top when its operands get their canonical forms. -/
theorem canonical_binary (p : Operator) (a b : Tree) :
    ∃ a' b', (binary p a b).canonical = binary p a' b' := by
  rw [canonical, join]
  split
  · unfold joinRun
    split
    · split <;> exact ⟨_, _, rfl⟩
    · exact ⟨_, _, rfl⟩
  · exact ⟨_, _, rfl⟩

/-- Parentheses aside, a tree and its canonical form hold together equally. -/
theorem level_canonical {t : Tree} (h : ∀ u, t ≠ group u) : t.canonical.level = t.level := by
  cases t with
  | binary p a b =>
    obtain ⟨a', b', hcan⟩ := canonical_binary p a b
    rw [hcan]
    rfl
  | group u => exact absurd rfl (h u)
  | _ => rfl

/-- Trees that fit stand whole beside the operator, or the right one, a run, goes on with it.

**Proof sketch.** By induction on the left spine of the right tree. An operator there that is no stronger can only be
that of the run, with which the run goes on; otherwise the new operator takes the left tree whole. -/
theorem splice_of_fits {o : Operator} {l r : Tree} (h : Fits o l r) :
    (splice o l r).canonical = join o l.canonical r.canonical ∧
      ∃ a b, splice o l r = binary o a b := by
  obtain ⟨hl, hr⟩ := h
  induction r using splice.induct o with
  | case1 p a b hp ih =>
    by_cases hrun : p = o ∧ o.isAssociative = true
    · obtain ⟨rfl, hassoc⟩ := hrun
      rw [lead, if_pos ⟨rfl, hassoc⟩] at hr
      obtain ⟨hcan, c, d, hsp⟩ := ih hr
      have hext : splice p l (binary p a b) = binary p (splice p l a) b := by
        rw [splice, if_pos hp, hsp, extend, if_neg (Nat.lt_irrefl _)]
      refine ⟨?_, _, _, hext⟩
      rw [hext, canonical, hcan, canonical]
      simp only [join, hassoc, if_true]
      exact joinRun_assoc _ _ _ _
    · rw [lead, if_neg hrun] at hr
      exact absurd hp (Nat.not_le.mpr hr)
  | case2 p a b hp =>
    have hext : splice o l (binary p a b) = binary o l (binary p a b) := by
      rw [splice, if_neg hp]
      obtain ⟨-, h⟩ | ⟨q, c, d, rfl, hq, -⟩ := extend_cases o (binary p a b) l
      · exact h
      · exact absurd hl (Nat.not_le.mpr hq)
    exact ⟨by rw [hext, canonical], _, _, hext⟩
  | case3 t hne =>
    have hext : splice o l t = binary o l t := by
      rw [splice_of_not_binary o l hne]
      obtain ⟨-, h⟩ | ⟨q, c, d, rfl, hq, -⟩ := extend_cases o t l
      · exact h
      · exact absurd hl (Nat.not_le.mpr hq)
    exact ⟨by rw [hext, canonical], _, _, hext⟩

/-- A run that fits begins where its left operand does.

**Proof sketch.** By induction on the left spine of the right tree, along the run of the operator. At its end the left
tree is the left operand of the operator, and the run begins where that tree does. -/
theorem lead_splice {o : Operator} {l r : Tree} (hassoc : o.isAssociative = true) (h : Fits o l r) :
    lead o (splice o l r) = lead o l := by
  obtain ⟨hl, hr⟩ := h
  induction r using splice.induct o with
  | case1 p a b hp ih =>
    by_cases hpo : p = o
    · subst hpo
      rw [lead, if_pos ⟨rfl, hassoc⟩] at hr
      obtain ⟨-, c, d, hsp⟩ := splice_of_fits ⟨hl, hr⟩
      have hext : splice p l (binary p a b) = binary p (splice p l a) b := by
        rw [splice, if_pos hp, hsp, extend, if_neg (Nat.lt_irrefl _)]
      rw [hext, lead, if_pos ⟨rfl, hassoc⟩, ih hr]
    · rw [lead, if_neg fun hrun => hpo hrun.1] at hr
      exact absurd hp (Nat.not_le.mpr hr)
  | case2 p a b hp =>
    have hsp : splice o l (binary p a b) = extend o (binary p a b) l := by rw [splice, if_neg hp]
    obtain ⟨-, hext⟩ | ⟨q, c, d, rfl, hq, -⟩ := extend_cases o (binary p a b) l
    · rw [hsp, hext, lead, if_pos ⟨rfl, hassoc⟩]
    · exact absurd hl (Nat.not_le.mpr hq)
  | case3 t hne =>
    have hsp : splice o l t = extend o t l := splice_of_not_binary o l hne
    obtain ⟨-, hext⟩ | ⟨q, c, d, rfl, hq, -⟩ := extend_cases o t l
    · rw [hsp, hext, lead, if_pos ⟨rfl, hassoc⟩]
    · exact absurd hl (Nat.not_le.mpr hq)

/-- Whether an operator stands on top of a tree with a number of values before it: at its place, or
somewhere in its run. -/
def CutAt (o : Operator) (n : Nat) (t : Tree) : Prop :=
  if o.isAssociative then ∃ before after, operands o t = before ++ after ∧ listLeaves before = n
  else ∃ a b, t = binary o a b ∧ a.leaves = n

/-- A joined tree can be cut where it was joined. -/
private theorem cutAt_join (o : Operator) (l r : Tree) : CutAt o l.leaves (join o l r) := by
  unfold CutAt
  split
  · next h => exact ⟨_, _, operands_join o h l r, listLeaves_operands o l⟩
  · next h => exact ⟨l, r, by rw [join, if_neg h], rfl⟩

/-- A place before the operator of a tree lies in the left part of a run. -/
theorem CutAt.left {o : Operator} {n : Nat} {l r : Tree} (h : CutAt o n (join o l r))
    (hn : n < l.leaves) : o.isAssociative = true ∧ CutAt o n l := by
  unfold CutAt at h ⊢
  split at h
  · next hassoc =>
    obtain ⟨before, after, heq, hb⟩ := h
    rw [operands_join o hassoc] at heq
    refine ⟨hassoc, ?_⟩
    rw [if_pos hassoc]
    obtain ⟨mid, hbefore, -⟩ | ⟨mid, hl, -⟩ := List.append_eq_append_iff.mp heq
    · have := listLeaves_operands o l
      rw [hbefore, listLeaves_append] at hb
      omega
    · exact ⟨before, mid, hl, hb⟩
  · next hassoc =>
    obtain ⟨a, b, heq, ha⟩ := h
    rw [join, if_neg hassoc] at heq
    cases heq
    omega

/-- Under another operator there is no place for an operator on top. -/
theorem CutAt.not_of_ne {o q : Operator} {n : Nat} {c d : Tree} (hq : q ≠ o) (hpos : 0 < n)
    (hn : n < (binary q c d).leaves) : ¬ CutAt o n (binary q c d).canonical := by
  intro h
  have hleaves := leaves_canonical (binary q c d)
  obtain ⟨c', d', hcan⟩ := canonical_binary q c d
  rw [hcan] at h hleaves
  unfold CutAt at h
  split at h
  · obtain ⟨before, after, heq, hb⟩ := h
    rw [operands_of_ne hq] at heq
    obtain ⟨rfl, -⟩ | ⟨rfl, -⟩ := List.singleton_eq_append_iff.mp heq
    · simp only [listLeaves] at hb
      omega
    · simp only [listLeaves, Nat.add_zero] at hb
      omega
  · obtain ⟨a, b, heq, -⟩ := h
    cases heq
    exact hq rfl

/-- An operator that holds less strongly does not come out on top. -/
theorem not_cutAt_of_weaker {o q : Operator} {l r c d : Tree} (heq : splice o l r = binary q c d)
    (hq : q.level < o.level) : ¬ CutAt o l.leaves (splice o l r).canonical := by
  have htotal := leaves_splice o l r
  have hpos := leaves_pos r
  rw [heq] at htotal ⊢
  refine CutAt.not_of_ne ?_ (leaves_pos l) (by omega)
  rintro rfl
  exact Nat.lt_irrefl _ hq

/-- Beside a right tree that is taken whole, an operator that keeps its place holds the left tree. -/
theorem le_level_of_cutAt {o : Operator} {l r : Tree}
    (hl : (∀ p a b, l ≠ binary p a b) → o.level ≤ l.level) (hsp : splice o l r = extend o r l)
    (h : CutAt o l.leaves (splice o l r).canonical) : o.level ≤ l.level := by
  obtain ⟨hbin, -⟩ | ⟨q, c, d, -, hq, hext⟩ := extend_cases o r l
  · by_cases hne : ∃ p a b, l = binary p a b
    · obtain ⟨p, a, b, rfl⟩ := hne
      exact hbin p a b rfl
    · exact hl fun p a b he => hne ⟨p, a, b, he⟩
  · exact absurd h (not_cutAt_of_weaker (hsp.trans hext) hq)

/-- An operator that keeps its place on top of the tree of all tokens has operands that fit.

**Proof sketch.** By induction on the left spine of the right tree. Where an operator is taken on before the new one,
it stays on top only if it is the same one, and then the place lies in the left part of its run. Any other operator on
top contradicts what is assumed. -/
theorem fits_of_cutAt {o : Operator} {l r : Tree}
    (hl : (∀ p a b, l ≠ binary p a b) → o.level ≤ l.level) (hr : Leads o r)
    (h : CutAt o l.leaves (splice o l r).canonical) : Fits o l r := by
  induction r using splice.induct o with
  | case1 p a b hp ih =>
    have hsp : splice o l (binary p a b) = extend p b (splice o l a) := by rw [splice, if_pos hp]
    obtain ⟨-, hext⟩ | ⟨q, c, d, -, hq, hext⟩ := extend_cases p b (splice o l a)
    · have htotal := leaves_splice o l (binary p a b)
      have hposa := leaves_pos a
      rw [hsp, hext] at h htotal
      by_cases hpo : p = o
      · subst hpo
        rw [canonical] at h
        obtain ⟨hassoc, hcut⟩ := h.left (by rw [leaves_canonical, leaves_splice]; omega)
        obtain ⟨hll, hlead⟩ := ih (hr hp) hcut
        exact ⟨hll, by rw [lead, if_pos ⟨rfl, hassoc⟩]; exact hlead⟩
      · have hposr := leaves_pos (binary p a b)
        exact absurd h (CutAt.not_of_ne hpo (leaves_pos l) (by omega))
    · -- a weaker operator of the left tree stays on top
      exact absurd h (not_cutAt_of_weaker (hsp.trans hext) (Nat.lt_of_lt_of_le hq hp))
  | case2 p a b hp =>
    refine ⟨le_level_of_cutAt hl (by rw [splice, if_neg hp]) h, ?_⟩
    have hpo : p ≠ o := by
      rintro rfl
      exact hp (Nat.le_refl _)
    rw [lead, if_neg fun hrun => hpo hrun.1]
    exact Nat.not_le.mp hp
  | case3 t hne =>
    cases t with
    | binary => exact absurd rfl (hne _ _ _)
    | _ => exact ⟨le_level_of_cutAt hl rfl h, hr⟩

/-- Joined trees are equal if their parts are, given where the cut is. -/
private theorem join_injective {o : Operator} {l r l' r' : Tree} (h : join o l r = join o l' r')
    (hl : l.leaves = l'.leaves) : l = l' ∧ r = r' := by
  by_cases hassoc : o.isAssociative = true
  · have hops := congrArg (operands o) h
    rw [operands_join o hassoc, operands_join o hassoc] at hops
    obtain ⟨hol, hor⟩ := prefix_unique hops (by rw [listLeaves_operands, listLeaves_operands, hl])
    exact ⟨operands_injective hol, operands_injective hor⟩
  · rw [join, if_neg hassoc, join, if_neg hassoc] at h
    cases h
    exact ⟨rfl, rfl⟩

/-- **The tree of all tokens is the operator between two given trees exactly when the trees beside the
operator fit and are the given ones**, up to grouping.

**Proof sketch.** If the trees fit, nothing is given up. Conversely, the canonical form shows how many
values stand before each operator of the run on top. An operator that comes out on top in the place of
the given one is that operator, since another one would hold less strongly or have more values before
it; so no tree gives up an end, and what stands before and after the operator is determined. -/
theorem canonical_splice_iff {o : Operator} {l r t u : Tree}
    (hl : (∀ p a b, l ≠ binary p a b) → o.level ≤ l.level) (hr : Leads o r)
    (ht : t.leaves = l.leaves) :
    (splice o l r).canonical = (binary o t u).canonical ↔
      Fits o l r ∧ l.canonical = t.canonical ∧ r.canonical = u.canonical := by
  constructor
  · intro h
    have hfits : Fits o l r := by
      refine fits_of_cutAt hl hr ?_
      rw [h, canonical, ← ht, ← leaves_canonical t]
      exact cutAt_join o _ _
    rw [(splice_of_fits hfits).1, canonical] at h
    exact ⟨hfits, join_injective h (by rw [leaves_canonical, leaves_canonical, ht])⟩
  · rintro ⟨hfits, htl, htr⟩
    rw [(splice_of_fits hfits).1, canonical, htl, htr]

end LambdaSql.Reading.Tree
