import LambdaSql.Plan.Query
import LambdaSql.Proofs.Naming.Made
import LambdaSql.Proofs.Plan.Outcome

/-!
# What lowering draws from its operands

An expression becomes a node that is made of the nodes of its parts. The functions that put them together
plan each part in one of its ways, one part after the other, and may plan a part without using the
outcome. None of them names a column of its own, except for the members and the keys of parameters and
for calls on groupings, which look parameters up.

## Main definitions

* `Operand.Gives` - planning an operand in one of its ways.
* `Drawn` - planning several operands, one after the other.
* `Planning.Draws` - planning that gives a node made of the outcomes of several operands.

## Main results

* `Lowering.gives_apply` - a translated call.
* `Lowering.gives_callOn` - a call on a target.
* `Lowering.draws_binary`, `Lowering.draws_conditional` and their neighbours - the other forms.
-/

namespace LambdaSql

open Planning

/-! ## Planning operands -/

/-- What there is to choose from in a node: the tests and the values of a choice, or the node itself. -/
def Lowering.choices (n : Node) : List Node :=
  (branchesOf n).1.flatMap (fun b => [b.1, b.2]) ++ [(branchesOf n).2]

/-- The nodes that an operand gives when it is planned in one of its ways. Of a selection only the rows may matter,
and a conditional may give what there is to choose from. -/
inductive Operand.Gives (o : Operand) (s : Scope) (p : Progress) : List Node → Progress → Prop
  | value {n : Node} {p' : Progress} : o.value.Gives s p n p' → o.Gives s p [n] p'
  | alternatives {ns : List Node} {p' : Progress} :
    o.alternatives.Gives s p ns p' → o.Gives s p ns p'
  | selection {plan : Planning Select} {q : Select} {p' : Progress} (t : HostType) :
    o.selection = some plan → plan.Gives s p q p' → o.Gives s p [.subquery q t] p'
  | rows {plan : Planning Select} {q : Select} {p' : Progress} (t : HostType) :
    o.selection = some plan → plan.Gives s p q p' → o.Gives s p [.subquery (Lowering.withoutColumns q) t] p'
  | items {plan : Planning (List Node)} {ns : List Node} {p' : Progress} :
    o.items = some plan → plan.Gives s p ns p' → o.Gives s p ns p'
  | choices {n : Node} {p' : Progress} :
    o.source.isConditional = true → o.value.Gives s p n p' → o.Gives s p (Lowering.choices n) p'

/-- The nodes that several operands give when they are planned one after the other. The outcome of an
operand is used at most once; some operands may not be planned at all, and some outcomes not be used. -/
inductive Drawn (s : Scope) : List Operand → Progress → List Node → Progress → Prop
  | done {os : List Operand} {p : Progress} : Drawn s os p [] p
  | drop {o : Operand} {os : List Operand} {p q p' : Progress} {ns ms : List Node} :
    o ∈ os → o.Gives s p ms q → Drawn s os q ns p' → Drawn s os p ns p'
  | take {o : Operand} {os rest : List Operand} {p q p' : Progress} {ns ms : List Node} :
    os.Perm (o :: rest) → o.Gives s p ms q → Drawn s rest q ns p' → Drawn s os p (ms ++ ns) p'

/-- Planning of a node that is made of given nodes and of what several operands give. -/
def Planning.Draws (act : Planning Node) (base : List Node) (os : List Operand) : Prop :=
  ∀ {s p n p'}, act.Gives s p n p' → ∃ ns, Drawn s os p ns p' ∧ n.MadeOf (base ++ ns)

namespace Drawn

variable {s : Scope} {o o' : Operand} {os rest : List Operand} {p q p' : Progress} {n m : Node}
  {ns ms : List Node}

/-- The first operand is planned, and then others. -/
theorem next (h : o.Gives s p ms q) (hd : Drawn s rest q ns p') :
    Drawn s (o :: rest) p (ms ++ ns) p' := .take (.refl _) h hd

/-- The first operand is planned as a value, and then others. -/
theorem value (h : o.value.Gives s p n q) (hd : Drawn s rest q ns p') :
    Drawn s (o :: rest) p (n :: ns) p' := next (.value h) hd

/-- A value of the first operand alone. -/
theorem one (h : o.value.Gives s p n p') : Drawn s (o :: rest) p [n] p' := value h .done

/-- Values of the first two operands. -/
theorem two (h : o.value.Gives s p n q) (h' : o'.value.Gives s q m p') :
    Drawn s (o :: o' :: rest) p [n, m] p' := value h (one h')

/-- Values of several operands. -/
theorem values (h : (os.mapM Operand.value).Gives s p ns p') : Drawn s os p ns p' := by
  induction os generalizing p ns with
  | nil =>
    obtain ⟨rfl, rfl⟩ := gives_mapM_nil.mp h
    exact .done
  | cons o rest ih =>
    obtain ⟨n, q, others, hn, hrest, rfl⟩ := gives_mapM_cons.mp h
    exact value hn (ih hrest)

/-- There may be further operands, and they may come in any order. -/
theorem mono (h : Drawn s os p ns p') {more all : List Operand} (hall : (os ++ more).Perm all) :
    Drawn s all p ns p' := by
  induction h generalizing all with
  | done => exact .done
  | drop hmem hgives _ ih =>
    exact .drop (hall.subset (List.mem_append_left more hmem)) hgives (ih hall)
  | take hperm hgives _ ih =>
    exact .take (hall.symm.trans (hperm.append_right more)) hgives (ih (.refl _))

/-- Operands are planned after others. -/
theorem append (h : Drawn s os p ns q) (h' : Drawn s rest q ms p') :
    Drawn s (os ++ rest) p (ns ++ ms) p' := by
  induction h with
  | done => exact h'.mono List.perm_append_comm
  | drop hmem hgives _ ih => exact .drop (List.mem_append_left rest hmem) hgives (ih h')
  | take hperm hgives _ ih =>
    rw [List.append_assoc]
    exact .take (hperm.append_right rest) hgives (ih h')

end Drawn

namespace Lowering

variable {s : Scope} {p p' : Progress} {n m : Node} {base : List Node} {os args : List Operand}

/-! ## Values at hand -/

/-- What is at hand has no columns. -/
theorem madeOf_atHand {v : Value} {o : Origin} (h : (atHand v o).Gives s p n p') :
    n.MadeOf [] ∧ p' = p := by
  have plain (h : (if o = .constant then constant v else return .parameter v : Planning Node).Gives s p n p') :
      n.MadeOf [] ∧ p' = p := by
    split at h
    · obtain ⟨hn, rfl⟩ := gives_constant.mp h
      exact ⟨Node.madeOf_constant hn, rfl⟩
    · obtain ⟨rfl, rfl⟩ := gives_pure.mp h
      exact ⟨Node.madeOf_parameter v, rfl⟩
  unfold atHand at h
  split at h
  · exact absurd h not_gives_fail
  · exact absurd h not_gives_fail
  · exact plain h

/-- An expression becomes its value, or what it is lowered to. -/
theorem folded_or_lowered {e : Expr} {lower : Planning Node} (h : (folded e lower).Gives s p n p') :
    n.MadeOf [] ∧ p' = p ∨ lower.Gives s p n p' := by
  simp only [folded, gives_bind, gives_origin] at h
  obtain ⟨_, _, ⟨rfl, rfl⟩, h⟩ := h
  split at h
  · exact .inr h
  · simp only [gives_bind, gives_foldable] at h
    obtain ⟨_, _, ⟨rfl, rfl⟩, h⟩ := h
    split at h
    · simp only [gives_bind, gives_valueOf?] at h
      obtain ⟨_, _, ⟨-, rfl⟩, h⟩ := h
      split at h
      · exact .inl (madeOf_atHand h)
      · exact .inr h
    · exact .inr h

/-- Asking for the value of a constant leaves the progress as it was. -/
theorem gives_constantValue? {e : Expr} {v? : Option Value} (h : (constantValue? e).Gives s p v? p') :
    p' = p := by
  simp only [constantValue?, gives_bind, gives_origin] at h
  obtain ⟨_, _, ⟨rfl, rfl⟩, h⟩ := h
  split at h
  · simp only [gives_bind, gives_foldable] at h
    obtain ⟨_, _, ⟨rfl, rfl⟩, h⟩ := h
    split at h
    · exact (gives_valueOf?.mp h).2
    · exact (gives_pure.mp h).2
  · exact (gives_pure.mp h).2

/-- Looking for a format uses up no aliases. -/
private theorem gives_formatAtHand? {e : Expr} {text : Option String}
    (h : (formatAtHand? e).Gives s p text p') : p' = p := by
  simp only [formatAtHand?, gives_bind, gives_origin] at h
  obtain ⟨_, _, ⟨rfl, rfl⟩, h⟩ := h
  split at h
  · exact (gives_pure.mp h).2
  · simp only [gives_bind, gives_valueOf?, gives_pure] at h
    obtain ⟨_, _, ⟨-, rfl⟩, -, rfl⟩ := h
    rfl

/-- Whether an expression is a collection is known without planning it. Parameters are none.

**Proof sketch.** By the recursion of the question, which ends at an array, at a query, or at an expression whose
value is asked for. A parameter has no value without a row. -/
theorem gives_isCollection {e : Expr} {b : Bool} (hc : (isCollection e).Gives s p b p') :
    p' = p ∧ ∀ name, e = .param name → b = false := by
  have other {e : Expr} {b : Bool} (h : (do
      if (← origin e) = .sql then return false
      return (← valueOf? e).any Value.isList : Planning Bool).Gives s p b p') :
      p' = p ∧ ∀ name, e = .param name → b = false := by
    simp only [gives_bind, gives_origin] at h
    obtain ⟨_, _, ⟨rfl, rfl⟩, h⟩ := h
    split at h
    · obtain ⟨rfl, rfl⟩ := gives_pure.mp h
      exact ⟨rfl, fun _ _ => rfl⟩
    · next hsql =>
      simp only [gives_bind, gives_valueOf?, gives_pure] at h
      obtain ⟨_, _, ⟨-, rfl⟩, -, rfl⟩ := h
      refine ⟨rfl, ?_⟩
      rintro name rfl
      exact absurd rfl hsql
  induction e using isCollection.induct with
  | case1 | case2 | case3 | case4 =>
    obtain ⟨-, rfl⟩ := gives_pure.mp hc
    exact ⟨rfl, by simp⟩
  | case5 e t ih => exact ⟨(ih hc).1, by simp⟩
  | case6 e => exact other (by simpa only [isCollection] using hc)

/-! ## Membership and selections -/

/-- Items at hand are made of no nodes. -/
private theorem gives_itemsAtHand {e : Expr} {ns : List Node} (hi : (itemsAtHand e).Gives s p ns p') :
    (∀ n ∈ ns, n.MadeOf []) ∧ p' = p := by
  have all {o : Origin} (vs : List Value) : ∀ {p ns}, (vs.mapM (atHand · o)).Gives s p ns p' →
      (∀ n ∈ ns, n.MadeOf []) ∧ p' = p := by
    induction vs with
    | nil =>
      intro p ns h
      obtain ⟨rfl, rfl⟩ := gives_mapM_nil.mp h
      exact ⟨nofun, rfl⟩
    | cons v vs ih =>
      intro p ns h
      obtain ⟨n, q, rest, hn, hrest, rfl⟩ := gives_mapM_cons.mp h
      obtain ⟨hmade, rfl⟩ := madeOf_atHand hn
      obtain ⟨hall, rfl⟩ := ih hrest
      exact ⟨List.forall_mem_cons.mpr ⟨hmade, hall⟩, rfl⟩
  simp only [itemsAtHand, gives_bind, gives_origin] at hi
  obtain ⟨_, _, ⟨rfl, rfl⟩, hi⟩ := hi
  split at hi
  · simp only [gives_bind, not_gives_fail, false_and, exists_false] at hi
  · simp only [gives_bind, gives_valueOf?] at hi
    obtain ⟨_, _, ⟨-, rfl⟩, hi⟩ := hi
    split at hi
    · exact absurd hi not_gives_fail
    · exact all _ hi
    · exact absurd hi not_gives_fail

/-- A test against an empty list is made of its item. -/
private theorem gives_emptyMembership {negated : Bool} (h : (emptyMembership m negated).Gives s p n p') :
    n.MadeOf [m] ∧ p' = p := by
  simp only [emptyMembership, gives_bind, gives_read] at h
  obtain ⟨_, _, ⟨rfl, rfl⟩, h⟩ := h
  split at h
  · exact absurd h not_gives_fail
  · obtain ⟨rfl, rfl⟩ := gives_pure.mp h
    refine ⟨?_, rfl⟩
    split
    · exact Node.madeOf_always _
    · exact (Node.madeOf_inList m [.null] false).drop Node.madeOf_null

/-- A membership test of items that have been planned. -/
theorem gives_listed {negated : Bool} {ns : List Node}
    (h : (do
      ns.forM fun n => ofExcept (m.type.comparable n.type)
      if ns.isEmpty then emptyMembership m negated else return .inList m ns negated).Gives s p n p') :
    n.MadeOf (m :: ns) ∧ p' = p := by
  obtain ⟨_, q, hcheck, hlist⟩ := gives_bind.mp h
  obtain rfl : q = p := Gives.of_forM (fun _ _ _ _ h => (gives_ofExcept.mp h).2) hcheck
  split at hlist
  · obtain ⟨hmade, rfl⟩ := gives_emptyMembership hlist
    exact ⟨hmade.sublist (by simp), rfl⟩
  · obtain ⟨rfl, rfl⟩ := gives_pure.mp hlist
    exact ⟨Node.madeOf_inList .., rfl⟩

/-- A membership test is made of the item and of the collection's selection or items.

**Proof sketch.** The item is drawn first. Then the collection is a selection, or an array with its items, or a list
at hand, of which nothing is drawn. -/
theorem draws_membership (collection item : Operand) (negated : Bool) :
    (membership collection item negated).Draws [] [collection, item] := by
  intro s p n p' h
  simp only [membership, gives_bind] at h
  obtain ⟨m, q, hm, h⟩ := h
  -- the item comes first in what is drawn, but last among the operands
  have together {ns : List Node} {q' : Progress} (hns : Drawn s [collection] q ns q')
      (h : n.MadeOf (m :: ns) ∧ p' = q') :
      ∃ ns, Drawn s [collection, item] p ns p' ∧ n.MadeOf ([] ++ ns) := by
    obtain ⟨hmade, rfl⟩ := h
    exact ⟨m :: ns, .take (.swap item collection []) (.value hm) hns, hmade⟩
  split at h
  · next plan hplan =>
    simp only [gives_bind, gives_pure] at h
    obtain ⟨sel, q', hsel, rfl, rfl⟩ := h
    exact together (.next (.selection .unknown hplan hsel) .done) ⟨Node.madeOf_inQuery .., rfl⟩
  · split at h
    · next plan hplan =>
      obtain ⟨ns, q', hns, hlist⟩ := gives_bind.mp h
      have hdrawn : Drawn s [collection] q (ns ++ []) q' := .next (.items hplan hns) .done
      rw [List.append_nil] at hdrawn
      exact together hdrawn (gives_listed hlist)
    · obtain ⟨ns, q', hns, hlist⟩ := gives_bind.mp h
      obtain ⟨hall, rfl⟩ := gives_itemsAtHand hns
      obtain ⟨hmade, hq⟩ := gives_listed hlist
      exact together .done ⟨hmade.drop_all hall, hq⟩

/-- A selection of which only the rows matter has no columns but those of its other clauses. -/
theorem selectOccurrences_withoutColumns (around : List Level) (q : Select) :
    selectOccurrences around (withoutColumns q) ≤ selectOccurrences around q := by
  obtain ⟨_, columns, table, joins, filter, groupBy, having, orderBy, _, _, _, deferred⟩ := q
  simp only [withoutColumns, selectOccurrences, columnOccurrences, Node.ofInt, Node.occurrences,
    add_zero]
  gcongr
  exact le_add_right le_rfl

/-- A test for rows is made of its subquery. -/
private theorem madeOf_exists (q : Select) (t : HostType) (negated : Bool) :
    (Node.exists q negated).MadeOf [.subquery q t] :=
  .of_eq (fun _ => rfl) fun hG => hG.tested

/-- A test for rows is made of the selection. -/
theorem draws_rowsTest (arg : Operand) (declaring method : String) (negated : Bool) :
    (rowsTest arg declaring method negated).Draws [] [arg] := by
  intro s p n p' h
  unfold rowsTest at h
  split at h
  · next q selection _ hselection =>
    simp only [gives_bind, gives_pure] at h
    obtain ⟨sel, q', hsel, rfl, rfl⟩ := h
    split
    · exact ⟨_, .next (.rows .unknown hselection hsel) .done, madeOf_exists ..⟩
    · exact ⟨_, .next (.selection .unknown hselection hsel) .done, madeOf_exists ..⟩
  · exact absurd h not_gives_fail

/-! ## Parts of calls -/

/-- The operands of a call are planned from left to right, after its target. -/
theorem gives_operands {target : Option Node} {nodes : List Node}
    (h : (operands target args).Gives s p nodes p') :
    ∃ ns, Drawn s args p ns p' ∧ nodes = target.toList ++ ns := by
  simp only [operands, gives_bind, gives_pure] at h
  obtain ⟨ns, q, hns, rfl, rfl⟩ := h
  exact ⟨ns, .values hns, rfl⟩

/-- A time shifted by a value is made of the time. -/
private theorem gives_shiftedByValue {v : Value} {unit : IntervalUnit} {scale : Int64}
    (h : (shiftedByValue m v unit scale).Gives s p n p') : n.MadeOf [m] ∧ p' = p := by
  have shifted {negative : Bool} {interval : Node} (hi : interval.MadeOf []) :
      (Node.call (if negative then .dateSub unit else .dateAdd unit) [m, interval] m.type).MadeOf [m] :=
    (Node.madeOf_call ..).drop hi
  unfold shiftedByValue at h
  split at h
  · split at h
    · simp only [gives_bind, not_gives_fail, false_and, exists_false] at h
    · split at h
      · simp only [gives_bind, not_gives_fail, false_and, exists_false] at h
      · simp only [gives_bind, gives_pure] at h
        obtain ⟨_, _, ⟨rfl, rfl⟩, rfl, rfl⟩ := h
        exact ⟨shifted (Node.madeOf_ofInt _), rfl⟩
  · split at h
    · simp only [gives_bind, not_gives_fail, false_and, exists_false] at h
    · simp only [gives_bind, gives_constant, gives_pure] at h
      obtain ⟨c, _, ⟨hc, rfl⟩, _, _, ⟨rfl, rfl⟩, rfl, rfl⟩ := h
      exact ⟨shifted (Node.madeOf_constant hc), rfl⟩

/-- A shifted time is made of the time and of the amount. -/
theorem draws_dateAdd (m : Node) (amount : Operand) (unit : IntervalUnit) (scale : Int64) :
    (dateAdd m amount unit scale).Draws [m] [amount] := by
  intro s p n p' hg
  obtain ⟨v?, q, hv, h⟩ := gives_bind.mp hg
  obtain rfl := gives_constantValue? hv
  split at h
  · obtain ⟨hmade, rfl⟩ := gives_shiftedByValue h
    exact ⟨[], .done, hmade⟩
  · simp only [gives_bind, gives_pure] at h
    obtain ⟨a, q', ha, rfl, rfl⟩ := h
    refine ⟨[a], .one ha, (Node.madeOf_call ..).pair (.refl m) ?_⟩
    split
    · exact .refl a
    · exact (Node.madeOf_binary ..).drop (Node.madeOf_ofInt _)

/-- A position counted from one is made of the position counted from zero. -/
theorem draws_oneBased (index : Operand) : (oneBased index).Draws [] [index] := by
  intro s p n p' hg
  obtain ⟨v?, q, hv, h⟩ := gives_bind.mp hg
  obtain rfl := gives_constantValue? hv
  split at h
  · split at h
    · obtain ⟨rfl, rfl⟩ := gives_pure.mp h
      exact ⟨[], .done, Node.madeOf_ofInt _⟩
    · exact absurd h not_gives_fail
  · simp only [gives_bind, gives_pure] at h
    obtain ⟨a, q', ha, rfl, rfl⟩ := h
    exact ⟨[a], .one ha, (Node.madeOf_binary ..).drop (Node.madeOf_ofInt _)⟩

/-- A value as text is made of the value. -/
private theorem gives_stringify {declaring method : String}
    (hg : (stringify m args declaring method).Gives s p n p') : n.MadeOf [m] ∧ p' = p := by
  unfold stringify at hg
  split at hg
  · obtain ⟨rfl, rfl⟩ := gives_pure.mp hg
    refine ⟨?_, rfl⟩
    split
    · exact .refl m
    · exact Node.madeOf_call ..
  · obtain ⟨text, q, htext, h⟩ := gives_bind.mp hg
    obtain rfl := gives_formatAtHand? htext
    split at h
    · simp only [gives_bind, gives_dialect] at h
      obtain ⟨_, _, ⟨rfl, rfl⟩, h⟩ := h
      split at h
      · simp only [gives_bind, gives_constant, gives_pure] at h
        obtain ⟨c, _, ⟨hc, rfl⟩, rfl, rfl⟩ := h
        exact ⟨(Node.madeOf_call ..).drop (Node.madeOf_constant hc), rfl⟩
      · exact absurd h not_gives_defer
    · exact absurd h not_gives_defer
  · exact absurd hg not_gives_fail

/-- An interval in seconds is made of what is counted. -/
private theorem gives_inSeconds {seconds : Float} (h : (inSeconds m seconds).Gives s p n p') :
    n.MadeOf [m] ∧ p' = p := by
  unfold inSeconds at h
  split at h
  · obtain ⟨rfl, rfl⟩ := gives_pure.mp h
    exact ⟨.refl _, rfl⟩
  · simp only [gives_bind, gives_constant, gives_pure] at h
    obtain ⟨c, _, ⟨hc, rfl⟩, rfl, rfl⟩ := h
    exact ⟨(Node.madeOf_binary ..).drop (Node.madeOf_constant hc), rfl⟩

/-! ## Calls -/

section Apply

variable {target : Option (Operand × Node)} {declaring method : String}

/-- How a call is made of its target and its arguments. A membership test in a target plans the target
again and does not use what it gave before. -/
def Applied (s : Scope) (target : Option (Operand × Node)) (args : List Operand) (p : Progress)
    (n : Node) (p' : Progress) : Prop :=
  (∃ ns, Drawn s args p ns p' ∧ n.MadeOf ((target.map Prod.snd).toList ++ ns)) ∨
    ∃ o m ns, target = some (o, m) ∧ Drawn s (o :: args) p ns p' ∧ n.MadeOf ns

/-- A function of all operands. -/
theorem Applied.of_operands {nodes : List Node} {q : Progress}
    (h : (operands (target.map Prod.snd) args).Gives s p nodes q) (hn : n.MadeOf nodes) :
    Applied s target args p n q := by
  obtain ⟨ns, hns, rfl⟩ := gives_operands h
  exact .inl ⟨ns, hns, hn⟩

/-- A function of the target and of what the arguments give. -/
theorem Applied.of_target {o : Operand} {ns : List Node} (hd : Drawn s args p ns p')
    (hn : n.MadeOf (m :: ns)) : Applied s (some (o, m)) args p n p' :=
  .inl ⟨ns, hd, hn⟩

/-- A function of what the arguments give. -/
theorem Applied.of_args {ns : List Node} (hd : Drawn s args p ns p') (hn : n.MadeOf ns) :
    Applied s target args p n p' :=
  .inl ⟨ns, hd, hn.sublist (List.sublist_append_right _ _)⟩

/-- A translated call.

**Proof sketch.** By the translation. Each one plans the arguments that it knows of, in their order, and makes one
node of these and the target; where the arguments are others, it fails. -/
theorem gives_apply {t : Translation} (h : (apply t target args declaring method).Gives s p n p') :
    Applied s target args p n p' := by
  have ofTarget {node : Node} (hnode : target.map Prod.snd = some node) :
      ∃ o, target = some (o, node) := by
    obtain ⟨⟨o, m⟩, rfl, rfl⟩ := Option.map_eq_some_iff.mp hnode
    exact ⟨o, rfl⟩
  cases t with
  | function f returns =>
    obtain ⟨nodes, q, hnodes, h⟩ := gives_bind.mp h
    split at h
    · obtain ⟨rfl, rfl⟩ := gives_pure.mp h
      exact .of_operands hnodes (Node.madeOf_call ..)
    · obtain ⟨rfl, rfl⟩ := gives_pure.mp h
      exact .of_operands hnodes (Node.madeOf_call ..)
  | concat =>
    simp only [apply, gives_bind, gives_dialect, gives_ofExcept] at h
    obtain ⟨_, _, ⟨rfl, rfl⟩, nodes, q, hnodes, hn, rfl⟩ := h
    exact .of_operands hnodes (Node.madeOf_concat hn)
  | equals =>
    obtain ⟨nodes, q, hnodes, h⟩ := gives_bind.mp h
    split at h
    · obtain ⟨hn, rfl⟩ := gives_ofExcept.mp h
      exact .of_operands hnodes (Node.madeOf_comparison hn)
    · exact absurd h not_gives_fail
  | membership =>
    simp only [apply] at h
    split at h
    · next collection m item =>
      obtain ⟨ns, hns, hn⟩ := draws_membership collection item false h
      exact .inr ⟨collection, m, ns, rfl, hns, hn⟩
    · next collection item =>
      obtain ⟨ns, hns, hn⟩ := draws_membership collection item false h
      exact .of_args hns hn
    · exact absurd h not_gives_fail
  | dateAdd unit scale =>
    simp only [apply] at h
    split at h
    · next m amount hm =>
      obtain ⟨o, rfl⟩ := ofTarget hm
      obtain ⟨ns, hns, hn⟩ := draws_dateAdd m amount unit scale h
      exact .of_target hns hn
    · exact absurd h not_gives_fail
  | addSpan =>
    simp only [apply] at h
    split at h
    · next m span rest hm =>
      obtain ⟨o, rfl⟩ := ofTarget hm
      simp only [gives_bind, gives_pure] at h
      obtain ⟨a, q, ha, rfl, rfl⟩ := h
      exact .of_target (.one ha) (Node.madeOf_call ..)
    · exact absurd h not_gives_fail
  | subtract =>
    simp only [apply] at h
    split at h
    · next m other rest hm =>
      obtain ⟨o, rfl⟩ := ofTarget hm
      simp only [gives_bind, gives_pure] at h
      obtain ⟨a, q, ha, rfl, rfl⟩ := h
      exact .of_target (.one ha) (Node.madeOf_difference ..)
    · exact absurd h not_gives_fail
  | substring =>
    simp only [apply] at h
    split at h
    · next m start hm =>
      obtain ⟨o, rfl⟩ := ofTarget hm
      simp only [gives_bind, gives_pure] at h
      obtain ⟨a, q, ha, rfl, rfl⟩ := h
      obtain ⟨ns, hns, hn⟩ := draws_oneBased start ha
      exact .of_target hns ((Node.madeOf_call ..).pair (.refl m) hn)
    · next m start length rest hm =>
      obtain ⟨o, rfl⟩ := ofTarget hm
      simp only [gives_bind, gives_pure] at h
      obtain ⟨a, q, ha, b, q', hb, rfl, rfl⟩ := h
      obtain ⟨ns, hns, hn⟩ := draws_oneBased start ha
      have hcall := (Node.madeOf_call .substringLength ([m] ++ a :: [b]) .string).subst hn
      exact .of_target (hns.append (.one hb)) hcall
    · exact absurd h not_gives_fail
  | pad f =>
    simp only [apply] at h
    split at h
    · next m width hm =>
      obtain ⟨o, rfl⟩ := ofTarget hm
      simp only [gives_bind, gives_constant, gives_pure] at h
      obtain ⟨a, q, ha, c, _, ⟨hc, rfl⟩, rfl, rfl⟩ := h
      have hcall := (Node.madeOf_call f ([m, a] ++ c :: []) .string).subst (Node.madeOf_constant hc)
      exact .of_target (.one ha) hcall
    · next m width fill rest hm =>
      obtain ⟨o, rfl⟩ := ofTarget hm
      simp only [gives_bind, gives_pure] at h
      obtain ⟨a, q, ha, b, q', hb, rfl, rfl⟩ := h
      exact .of_target (.two ha hb) (Node.madeOf_call ..)
    · exact absurd h not_gives_fail
  | trimChars f =>
    simp only [apply] at h
    split at h
    · next m chars rest hm =>
      obtain ⟨o, rfl⟩ := ofTarget hm
      simp only [gives_bind, gives_pure] at h
      obtain ⟨a, q, ha, rfl, rfl⟩ := h
      exact .of_target (.one ha) (Node.madeOf_call ..)
    · exact absurd h not_gives_fail
  | cast c type =>
    obtain ⟨nodes, q, hnodes, h⟩ := gives_bind.mp h
    split at h
    · obtain ⟨rfl, rfl⟩ := gives_pure.mp h
      exact .of_operands hnodes (Node.madeOf_call ..)
    · exact absurd h not_gives_fail
  | toText =>
    simp only [apply] at h
    split at h
    · next m hm =>
      obtain ⟨o, rfl⟩ := ofTarget hm
      obtain ⟨hn, rfl⟩ := gives_stringify h
      exact .of_target .done hn
    · exact absurd h not_gives_fail
  | spanFrom seconds =>
    simp only [apply] at h
    split at h
    · next amount rest =>
      simp only [gives_bind, gives_pure] at h
      obtain ⟨a, q, ha, b, q', hb, rfl, rfl⟩ := h
      obtain ⟨hn, rfl⟩ := gives_inSeconds hb
      exact .of_args (.one ha) ((Node.madeOf_call ..).trans hn)
    · exact absurd h not_gives_fail
  | aggregate f =>
    simp only [apply, gives_bind, gives_pure] at h
    obtain ⟨nodes, q, hnodes, rfl, rfl⟩ := h
    exact .of_operands hnodes (Node.madeOf_aggregate ..)
  | isIn negated =>
    simp only [apply] at h
    split at h
    · next item collection =>
      obtain ⟨ns, hns, hn⟩ := draws_membership collection item negated h
      exact .of_args (hns.mono (.swap item collection [])) hn
    · exact absurd h not_gives_fail
  | rowsExist negated =>
    simp only [apply] at h
    split at h
    · next arg =>
      obtain ⟨ns, hns, hn⟩ := draws_rowsTest arg declaring method negated h
      exact .of_args hns hn
    · exact absurd h not_gives_fail
  | orElse =>
    simp only [apply, gives_bind, gives_read] at h
    obtain ⟨_, _, ⟨rfl, rfl⟩, h⟩ := h
    split at h
    · simp only [gives_bind, not_gives_defer, false_and, exists_false] at h
    · simp only [gives_bind, gives_pure] at h
      obtain ⟨nodes, q, hnodes, rfl, rfl⟩ := h
      exact .of_operands hnodes (Node.madeOf_call ..)
  | round =>
    simp only [apply, gives_bind, gives_pure] at h
    obtain ⟨nodes, q, hnodes, rfl, rfl⟩ := h
    exact .of_operands hnodes (Node.madeOf_call ..)
  | deferred => exact absurd h not_gives_defer

end Apply

/-- A call on a grouping is an aggregate of the rows, or of a value selected from them. -/
theorem gives_groupingCall {g : Grouping} {method : String}
    (h : (groupingCall g method args).Gives s p n p') :
    args = [] ∧ n.MadeOf [] ∧ p' = p ∨
      ∃ selector rest m, args = selector :: rest ∧
        (selector.applied (tableBindings g.elements)).Gives s p m p' ∧ n.MadeOf [m] := by
  simp only [groupingCall, gives_bind, gives_translations] at h
  obtain ⟨_, _, ⟨rfl, rfl⟩, h⟩ := h
  split at h
  · split at h
    · obtain ⟨rfl, rfl⟩ := gives_pure.mp h
      exact .inl ⟨rfl, Node.madeOf_aggregate .., rfl⟩
    · next selector rest _ =>
      simp only [gives_bind, gives_pure] at h
      obtain ⟨m, q, hm, rfl, rfl⟩ := h
      exact .inr ⟨selector, rest, m, rfl, hm, Node.madeOf_aggregate ..⟩
  · exact absurd h not_gives_fail

/-- What stands for a grouping is a parameter that is bound to one. -/
theorem gives_grouping? {e : Expr} {g? : Option Grouping} (h : (grouping? e).Gives s p g? p') :
    p' = p ∧ ∀ g, g? = some g ↔ ∃ name, e = .param name ∧ s.binding? name = some (.grouping g) := by
  unfold grouping? at h
  split at h
  · next name =>
    simp only [gives_bind, gives_lookup] at h
    obtain ⟨b, _, ⟨hb, rfl⟩, h⟩ := h
    split at h
    · next g =>
      obtain ⟨rfl, rfl⟩ := gives_pure.mp h
      refine ⟨rfl, fun g' => ?_⟩
      simp [hb]
    · obtain ⟨rfl, rfl⟩ := gives_pure.mp h
      refine ⟨rfl, fun g' => ?_⟩
      simp [hb]
  · next hne =>
    obtain ⟨rfl, rfl⟩ := gives_pure.mp h
    refine ⟨rfl, fun g => ?_⟩
    simp only [reduceCtorEq, false_iff, not_exists, not_and]
    intro name he
    exact absurd he (hne name)

section Called

variable {target : Operand} {method : String}

/-- How a call on a target is a call on a grouping, or made of the target and the arguments. -/
def Called (s : Scope) (target : Operand) (method : String) (args : List Operand) (p : Progress)
    (n : Node) (p' : Progress) : Prop :=
  (∃ name g, target.source = .param name ∧ s.binding? name = some (.grouping g) ∧
    (groupingCall g method args).Gives s p n p') ∨
  (∀ name g, target.source = .param name → s.binding? name ≠ some (.grouping g)) ∧
    ∃ ns, Drawn s (target :: args) p ns p' ∧ n.MadeOf ns

/-- A call on a target is one on groups if the target stands for groups, and draws from the target and the arguments
otherwise. -/
private theorem gives_called (h : (do
      match ← grouping? target.source with
      | some g => groupingCall g method args
      | none =>
        let n ← target.value
        let declaring := n.type.displayName
        match (← translations).method? (.ofHostType n.type) method (.exactly args.length) with
        | some t => apply t (some (target, n)) args declaring method
        | none => fail (.noTranslation declaring method args.length)).Gives s p n p') :
    Called s target method args p n p' := by
  obtain ⟨g?, q, hg, hcall⟩ := gives_bind.mp h
  obtain ⟨rfl, hiff⟩ := gives_grouping? hg
  split at hcall
  · next g =>
    obtain ⟨name, hsource, hbinding⟩ := (hiff g).mp rfl
    exact .inl ⟨name, g, hsource, hbinding, hcall⟩
  · refine .inr ⟨fun name g hsource hbinding => ?_, ?_⟩
    · cases (hiff g).mpr ⟨name, hsource, hbinding⟩
    simp only [gives_bind, gives_translations] at hcall
    obtain ⟨m, q, hm, _, _, ⟨rfl, rfl⟩, hcall⟩ := hcall
    split at hcall
    · obtain ⟨ns, hns, hn⟩ | ⟨o, m', ns, heq, hns, hn⟩ := gives_apply hcall
      · exact ⟨m :: ns, .value hm hns, hn⟩
      · cases heq
        exact ⟨ns, .drop List.mem_cons_self (.value hm) hns, hn⟩
    · exact absurd hcall not_gives_fail

/-- A call on a target. -/
theorem gives_callOn (h : (callOn target method args).Gives s p n p') :
    Called s target method args p n p' := by
  unfold callOn at h
  split at h
  · next item =>
    split at h
    · obtain ⟨b, q, hb, hcall⟩ := gives_bind.mp h
      obtain ⟨rfl, hparam⟩ := gives_isCollection hb
      split at hcall
      · next htrue =>
        obtain ⟨ns, hns, hn⟩ := draws_membership target item false hcall
        refine .inr ⟨fun name g hsource _ => ?_, ns, hns, hn⟩
        rw [hparam name hsource] at htrue
        cases htrue
      · exact gives_called hcall
    · exact gives_called h
  · exact gives_called h

end Called

/-- A call of a type is made of its arguments. -/
theorem draws_callOf (type : Option String) (method : String) (args : List Operand) :
    (callOf type method args).Draws [] args := by
  intro s p n p' h
  unfold callOf at h
  split at h
  · exact absurd h not_gives_fail
  · simp only [gives_bind, gives_translations] at h
    obtain ⟨_, _, ⟨rfl, rfl⟩, h⟩ := h
    split at h
    · obtain h | ⟨_, _, _, h, -⟩ := gives_apply h
      · exact h
      · cases h
    · exact absurd h not_gives_fail

/-! ## Other forms -/

/-- A binary operator is made of its operands. -/
theorem draws_binary (op : BinaryOp) (left right : Operand) :
    (binary op left right).Draws [] [left, right] := by
  intro s p n p' h
  unfold binary at h
  split at h
  · simp only [gives_bind, gives_pure] at h
    obtain ⟨ls, q, hl, rs, q', hr, rfl, rfl⟩ := h
    refine ⟨ls ++ (rs ++ []), .next (.alternatives hl) (.next (.alternatives hr) .done), ?_⟩
    rw [List.append_nil]
    exact Node.madeOf_firstNotNull _
  · simp only [gives_bind, gives_dialect, gives_ofExcept] at h
    obtain ⟨l, q, hl, r, q', hr, _, _, ⟨rfl, rfl⟩, hn, rfl⟩ := h
    exact ⟨[l, r], .two hl hr, Node.madeOf_binaryOperator hn⟩

/-- A unary operator is made of its operand. -/
theorem draws_unary (op : UnaryOp) (operand : Operand) : (unary op operand).Draws [] [operand] := by
  intro s p n p' h
  obtain ⟨m, q, hm, h⟩ := gives_bind.mp h
  split at h
  · obtain ⟨rfl, rfl⟩ := gives_pure.mp h
    exact ⟨[m], .one hm, (Node.madeOf_negation _).trans (Node.madeOf_toPredicate m)⟩
  · obtain ⟨rfl, rfl⟩ := gives_pure.mp h
    exact ⟨[m], .one hm, Node.madeOf_unary ..⟩

/-- The choices of a node have the occurrences of the node. -/
theorem nodesOccurrences_choices (around : List Level) (m : Node) :
    nodesOccurrences around (choices m) = m.occurrences around := by
  unfold choices branchesOf
  split
  · rw [nodesOccurrences_append, ← branchOccurrences_eq, nodesOccurrences_cons, nodesOccurrences_nil,
      add_zero, Node.occurrences]
  · rw [List.flatMap_nil, List.nil_append, nodesOccurrences_cons, nodesOccurrences_nil, add_zero]

/-- A choice with a branch before others is made of it and of what else there is to choose from. -/
theorem madeOf_choice_cons (t a : Node) (branches : List (Node × Node)) (otherwise : Node) :
    (Node.choice ((t.toPredicate, a) :: branches) otherwise).MadeOf
      (t :: a :: (branches.flatMap (fun b => [b.1, b.2]) ++ [otherwise])) :=
  (Node.madeOf_choice ((t.toPredicate, a) :: branches) otherwise).cons (Node.madeOf_toPredicate t)

/-- A conditional is a choice with one branch before what else there is to choose from. -/
theorem choice_of_conditional {test ifTrue ifFalse : Operand} (h : (conditional test ifTrue ifFalse).Gives s p n p') :
    ∃ t a branches otherwise, n = .choice ((t.toPredicate, a) :: branches) otherwise ∧
      Drawn s [test, ifTrue, ifFalse] p
        (t :: a :: (branches.flatMap (fun b => [b.1, b.2]) ++ [otherwise])) p' := by
  unfold conditional at h
  simp only [gives_bind, gives_origin, gives_pure] at h
  obtain ⟨t, q, ht, a, q', ha, b, q'', hb, _, _, ⟨rfl, rfl⟩, rfl, rfl⟩ := h
  have drawn {ms : List Node} (hms : ifFalse.Gives s q' ms p') :
      Drawn s [test, ifTrue, ifFalse] p (t :: a :: ms) p' := by
    have hlast : Drawn s [ifFalse] q' (ms ++ []) p' := .next hms .done
    rw [List.append_nil] at hlast
    exact .value ht (.value ha hlast)
  cases hnested : ifFalse.source.isConditional && Expr.origin s.compiler.translations ifFalse.source == .sql with
  | true =>
    obtain ⟨hconditional, -⟩ := Bool.and_eq_true_iff.mp hnested
    exact ⟨t, a, _, _, rfl, drawn (.choices hconditional hb)⟩
  | false => exact ⟨t, a, [], b, rfl, drawn (.value hb)⟩

/-- A conditional is made of the test and of what there is to choose from. -/
theorem draws_conditional (test ifTrue ifFalse : Operand) :
    (conditional test ifTrue ifFalse).Draws [] [test, ifTrue, ifFalse] := by
  intro s p n p' h
  obtain ⟨t, a, branches, otherwise, rfl, hdrawn⟩ := choice_of_conditional h
  exact ⟨_, hdrawn, madeOf_choice_cons t a branches otherwise⟩

/-- A key of groups is read by its name through the parameter of the groups. -/
private theorem gives_keyMember? {e : Expr} {name : String} {n? : Option Node}
    (h : (keyMember? e name).Gives s p n? p') :
    p' = p ∧ ∀ m, n? = some m ↔ ∃ param key g, e = .member (.param param) key ∧
      isKeyMember key = true ∧ s.binding? param = some (.grouping g) ∧
      g.keys.lookup name = some m := by
  unfold keyMember? at h
  split at h
  · next param key =>
    split at h
    · next hkey =>
      simp only [gives_bind, gives_lookup] at h
      obtain ⟨b, _, ⟨hb, rfl⟩, h⟩ := h
      split at h
      · obtain ⟨rfl, rfl⟩ := gives_pure.mp h
        refine ⟨rfl, fun m => ?_⟩
        simp [hkey, hb]
      · obtain ⟨rfl, rfl⟩ := gives_pure.mp h
        refine ⟨rfl, fun m => ?_⟩
        simp [hb]
    · next hkey =>
      obtain ⟨rfl, rfl⟩ := gives_pure.mp h
      refine ⟨rfl, fun m => ?_⟩
      simp [hkey]
  · next hne =>
    obtain ⟨rfl, rfl⟩ := gives_pure.mp h
    refine ⟨rfl, fun m => ?_⟩
    simp only [reduceCtorEq, false_iff, not_exists, not_and]
    intro param key g he
    exact absurd he (hne param key)

/-- A member of a value is a part of a grouping's key, or it is made of the value.

**Proof sketch.** The key of groups is looked up first. Otherwise the value is planned and tested for null, taken as
it is, or given to the translation of the member. -/
theorem gives_valueMember {target : Operand} {name : String}
    (h : (valueMember target name).Gives s p n p') :
    (∃ param key g, target.source = .member (.param param) key ∧ isKeyMember key = true ∧
      s.binding? param = some (.grouping g) ∧ g.keys.lookup name = some n ∧ p' = p) ∨
    (∀ param key g, target.source = .member (.param param) key → isKeyMember key = true →
      s.binding? param = some (.grouping g) → g.keys.lookup name = none) ∧
      ∃ ns, Drawn s [target] p ns p' ∧ n.MadeOf ns := by
  unfold valueMember at h
  obtain ⟨n?, q, hn?, hmember⟩ := gives_bind.mp h
  obtain ⟨rfl, hiff⟩ := gives_keyMember? hn?
  split at hmember
  · next m =>
    obtain ⟨rfl, rfl⟩ := gives_pure.mp hmember
    obtain ⟨param, key, g, h1, h2, h3, h4⟩ := (hiff n).mp rfl
    exact .inl ⟨param, key, g, h1, h2, h3, h4, rfl⟩
  · refine .inr ⟨fun param key g hs hk hb => ?_, ?_⟩
    · rw [Option.eq_none_iff_forall_ne_some]
      intro m hm
      cases (hiff m).mpr ⟨param, key, g, hs, hk, hb, hm⟩
    split at hmember
    · simp only [gives_bind, gives_pure] at hmember
      obtain ⟨m, q, hm, rfl, rfl⟩ := hmember
      exact ⟨[m], .one hm, Node.madeOf_isNull ..⟩
    · split at hmember
      · exact ⟨[n], .one hmember, .refl n⟩
      · simp only [gives_bind, gives_translations] at hmember
        obtain ⟨m, q, hm, _, _, ⟨rfl, rfl⟩, hmember⟩ := hmember
        split at hmember
        · obtain ⟨rfl, rfl⟩ := gives_pure.mp hmember
          exact ⟨[m], .one hm, Node.madeOf_call ..⟩
        · exact absurd hmember not_gives_fail

/-- A member of a type has no columns. -/
theorem gives_static {type name : String} (h : (static type name).Gives s p n p') :
    n.MadeOf [] ∧ p' = p := by
  simp only [static, gives_bind, gives_translations] at h
  obtain ⟨_, _, ⟨rfl, rfl⟩, h⟩ := h
  split at h
  · obtain ⟨rfl, rfl⟩ := gives_pure.mp h
    exact ⟨Node.madeOf_call .., rfl⟩
  · obtain ⟨hn, rfl⟩ := gives_constant.mp h
    exact ⟨Node.madeOf_constant hn, rfl⟩
  · exact absurd h not_gives_fail

end Lowering

end LambdaSql
