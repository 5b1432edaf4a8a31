import LambdaSql.Proofs.Grouping.Queries
import LambdaSql.Proofs.Naming.Resolution
import LambdaSql.Proofs.Scoping.Standing

/-!
# Grouped queries read keys and aggregates

What a grouped query returns, how it tests its groups, and how it sorts them is about keys and aggregates of rows: no
column of the query's own tables stands there outside of a key and outside of an aggregate. Keys are not always
written again as they are, though. The opposite of a test is written in its opposite form, and a text that is joined
with others is joined piece by piece.

## Main definitions

* `IsCopy` - a copy of a key.
* `LeftOf` - a copy of a key, or what negation and concatenation leave of it.
* `Select.OuterExposes` - a column is exposed in the clauses over what a selection returns.
* `Occurrence.IsOwn` - a column of a table of a selection.

## Main results

* `groups_read_keys` - grouped queries read keys, or what is left of them, and aggregates.
* `groups_read_parts` - they do not read copies of keys only.
-/

namespace LambdaSql

open Planning

/-! ## Copies of keys -/

/-- Two nodes are the same, whatever types they are taken for. -/
def Node.Alike (n m : Node) : Prop := n.retype .unknown = m.retype .unknown

/-- A node is a copy of a key. -/
def IsCopy (keys : List Node) (n : Node) : Prop := ∃ k ∈ keys, n.Alike k

/-- A node is a copy of a key, perhaps of another type, or what is left of one: the opposite of a test, or a piece of a
joined text. -/
inductive LeftOf (keys : List Node) : Node → Prop
  | key {k : Node} : k ∈ keys → LeftOf keys k
  | typed {n : Node} (t : HostType) : LeftOf keys n → LeftOf keys (n.retype t)
  | opposite {n : Node} : LeftOf keys n → LeftOf keys n.negation
  | piece {n m : Node} : LeftOf keys n → m ∈ n.pieces → LeftOf keys m

/-- What is left of keys stays so as the opposite of a test, in pieces, and with another type. -/
private theorem LeftOf.enduring (keys : List Node) : Enduring (LeftOf keys) where
  negation := .opposite
  pieces hn _ := .piece hn
  retype := .typed

/-- What is left of keys has no columns but theirs. -/
theorem LeftOf.mem_occurrences {keys : List Node} {n : Node} (h : LeftOf keys n) {around : List Level} {o : Occurrence}
    (ho : o ∈ n.occurrences around) : ∃ k ∈ keys, o ∈ k.occurrences around := by
  induction h with
  | key hk => exact ⟨_, hk, ho⟩
  | @typed n t _ ih =>
    have hle := (Node.madeOf_retype t n).le around
    rw [nodesOccurrences_cons, nodesOccurrences_nil, add_zero] at hle
    exact ih (Multiset.mem_of_le hle ho)
  | opposite _ ih => exact ih (Multiset.mem_of_le (Node.occurrences_negation_le _ around) ho)
  | @piece n m _ hm ih =>
    rw [← Node.nodesOccurrences_pieces] at ih
    exact ih (mem_nodesOccurrences.mpr ⟨m, hm, ho⟩)

/-- A selection stands in itself. -/
theorem mem_selectOccurrences_self (around : List Level) (q : Select) :
    ⟨⟨q.tables, false⟩ :: around, .selection⟩ ∈ selectOccurrences around q := by
  cases q
  simp [selectOccurrences, SelectOf.tables]

/-- No selection is left of a column. -/
theorem not_leftOf_subquery {a : Option String} {name : String} {t t' : HostType} (q : Select) :
    ¬ LeftOf [.column a name t] (.subquery q t') := by
  intro h
  obtain ⟨k, hk, ho⟩ := h.mem_occurrences (mem_selectOccurrences_self [] q)
  cases List.mem_singleton.mp hk
  cases Multiset.mem_singleton.mp ho

/-! ## Own columns -/

/-- What is read from the parameters of a scope has a leaf. -/
def Scope.Supplies (s : Scope) (l : Leaf) : Prop :=
  ∃ name b n around, s.binding? name = some b ∧ b.Reads n ∧ ∃ o ∈ n.occurrences around, o.leaf = l

/-- What is read from parameters exposes only what they supply. -/
theorem Scope.exposesOnly_supplies (covers : Node → Prop) (s : Scope) : s.ExposesOnly covers s.Supplies := by
  intro name b hb n hreads around o ho
  have hmem := n.mem_of_exposes ho
  obtain ⟨inner, hinner⟩ := n.around_of_mem hmem
  exact ⟨inner, hinner, .inl ⟨name, b, n, around, hb, hreads, o, hmem, rfl⟩⟩

/-- A column means a table of the selection that has so many selections around it, and it is not read from a parameter
of the lambdas around that selection. -/
def Occurrence.IsOwn (s : Scope) (depth : Nat) (o : Occurrence) : Prop :=
  (∃ index column, o.meant? = some (some ⟨⟨depth, index⟩, column⟩)) ∧ ¬ s.Supplies o.leaf

/-- An alias of a table farther inside does not mean a table of a selection around. -/
theorem length_le_of_seatOf {a : String} {inner around : List Level} {seat : Seat} (ha : a ∈ aliases inner)
    (h : seatOf a (inner ++ around) = some seat) : around.length ≤ seat.depth := by
  induction inner with
  | nil => cases ha
  | cons l outer ih =>
    rw [List.cons_append, seatOf] at h
    split at h
    · cases h
      exact List.length_append ▸ Nat.le_add_left ..
    · next hnone =>
      rw [aliases_cons, List.mem_append] at ha
      obtain ha | ha := ha
      · obtain ⟨t, ht, ht'⟩ := List.mem_filterMap.mp ha
        have := List.findIdx?_eq_none_iff.mp hnone t ht
        rw [hasAlias, ht', beq_self_eq_true] at this
        cases this
      · exact ih ha h

/-- A column inside a selection that is not read from parameters belongs to a table that is farther inside. -/
theorem Occurrence.Within.not_isOwn {s : Scope} {l : Level} {around : List Level} {o : Occurrence}
    (h : o.Within s.Supplies (l :: around)) : ¬ o.IsOwn s around.length := by
  rintro ⟨⟨index, column, hmeant⟩, hsupplies⟩
  obtain ⟨inner, hinner, h | ⟨a, name, hleaf, ha⟩⟩ := h
  · exact hsupplies h
  · simp only [Occurrence.meant?, hleaf, hinner, Option.bind_some, Option.some.injEq, Option.map_eq_some_iff] at hmeant
    obtain ⟨seat, hseat, heq⟩ := hmeant
    have hle := length_le_of_seatOf ha hseat
    cases heq
    exact absurd hle (Nat.not_succ_le_self _)

/-! ## Grouped queries -/

/-- A column is exposed in what a selection returns, in how it tests groups, or in how it sorts. -/
def Select.OuterExposes (covers : Node → Prop) (around : List Level) (o : Occurrence) (s : Select) : Prop :=
  (∃ c ∈ s.columns, c.node.Exposes covers (⟨s.tables, !s.deferred.isEmpty⟩ :: around) o) ∨
    (∃ n, s.having = some n ∧ n.Exposes covers (⟨s.tables, false⟩ :: around) o) ∨
    ∃ k ∈ s.orderBy, k.1.Exposes covers (⟨s.tables, false⟩ :: around) o

/-- **Grouped queries read keys and aggregates.** Wherever a query is planned that groups and does not lay an object
over a row, what it returns, how it tests groups, and how it sorts them has no column of the query's own tables, at any
depth, outside of what is left of a key and outside of aggregates.

**Proof sketch.** By induction on expressions, what is planned under groups exposes only what is bound to their
parameter, which are the keys, and whatever an aggregate covers. A key exposes only what is left of itself, and
nothing of what is left of keys or exposed from outside is an own column. -/
theorem groups_read_keys {q : Query} (hq : q.OverGroups) {s : Scope} {p p' : Progress} {sel : Select}
    (h : (planQuery q).Gives s p sel p') (around : List Level) :
    ¬ ∃ o, sel.OuterExposes (LeftOf sel.groupBy) around o ∧ o.IsOwn s around.length := by
  rintro ⟨o, ho, hown⟩
  have houter := outerExposesOnly (LeftOf.enduring sel.groupBy) q (s.exposesOnly_supplies _) h hq fun _ => .key
  obtain ⟨c, hc, ho⟩ | ⟨n, hn, ho⟩ | ⟨k, hk, ho⟩ := ho
  · exact (houter.columns c hc _ _ ho).not_isOwn hown
  · exact (houter.having n hn _ _ ho).not_isOwn hown
  · exact (houter.orderBy k hk _ _ ho).not_isOwn hown

/-- The customers of the same age. -/
def ages : Query := (Query.ofSource (.entity "Customer")).groupedBy (.lambda ["c"] (.member (.param "c") "Age"))

/-- The ages of customers, how many have each of them, and the buyers of the orders of that number. -/
def orderedAges : Query :=
  ages.select (.lambda ["g"] (.object [
    ("Age", .member (.param "g") "Key"),
    ("Customers", .call (some (.param "g")) none "Count" []),
    ("Buyers", .query (((Query.ofSource (.entity "Order")).filter (.lambda ["o"]
      (.binary .eq (.member (.param "o") "Id") (.member (.param "g") "Key")))).select
        (.lambda ["o"] (.member (.param "o") "BuyerId"))))]))

/-- A selection of ages by age reads nothing but its key. -/
theorem orderedAges_read_keys :
    orderedAges.OverGroups ∧ ∃ sel p', (planQuery orderedAges).Gives { compiler := shop } {} sel p' ∧
      (∃ o, sel.OuterExposes (LeftOf sel.groupBy) [] o) ∧
      ¬ ∃ o, sel.OuterExposes (LeftOf sel.groupBy) [] o ∧ o.IsOwn { compiler := shop } 0 := by
  have hgroups : orderedAges.OverGroups := ⟨nofun, nofun⟩
  obtain ⟨sel, p', buyers, age, number, t, h, hkeys, hcolumns, hbuyers⟩ : ∃ sel p' buyers age number t,
      (planQuery orderedAges).Gives { compiler := shop } {} sel p' ∧
        sel.groupBy = [.column (some "a") "age" .int32] ∧
        sel.columns = [age, number, ⟨.subquery buyers t, some "Buyers"⟩] ∧
        buyers.columns = [⟨.column (some "b") "buyer" .int32, none⟩] := ⟨_, _, _, _, _, _, rfl, rfl, rfl, rfl⟩
  refine ⟨hgroups, sel, p', h, ?_, groups_read_keys hgroups h []⟩
  -- the buyer is a column of the subquery's own table
  have hbuyer : ¬ LeftOf sel.groupBy (.column (some "b") "buyer" .int32) := by
    rw [hkeys]
    intro hleft
    obtain ⟨k, hk, ho⟩ := hleft.mem_occurrences (Multiset.mem_singleton_self (⟨[], _⟩ : Occurrence))
    rw [List.mem_singleton.mp hk, Node.occurrences, Multiset.mem_singleton] at ho
    simp at ho
  have hcolumn : ⟨.column (some "b") "buyer" .int32, none⟩ ∈ buyers.columns := by simp [hbuyers]
  have hmem : ⟨.subquery buyers t, some "Buyers"⟩ ∈ sel.columns := by simp [hcolumns]
  have hbare (t : HostType) : ¬ LeftOf sel.groupBy (.subquery buyers t) := hkeys ▸ not_leftOf_subquery buyers
  exact ⟨_, .inl ⟨_, hmem, hbare t, selectExposes_of_column hbare hcolumn ⟨hbuyer, rfl⟩⟩⟩

/-! ## What is left of keys -/

/-- Grouped customers, with something read from the key of each group. -/
def keyed (key label : Expr) : Query :=
  ((Query.ofSource (.entity "Customer")).groupedBy (.lambda ["c"] key)).select
    (.lambda ["g"] (.object [("Label", label)]))

/-- The age of a customer. -/
def ageOf : Expr := .member (.param "c") "Age"

/-- The key of a group. -/
def keyOf : Expr := .member (.param "g") "Key"

/-- Customers grouped by a text, which is joined with another one. -/
def joinedAgain : Query :=
  keyed (.binary .add ageOf (.constant (.string "!"))) (.binary .add (.constant (.string "x")) keyOf)

/-- Customers grouped by a test, of which the opposite is selected. -/
def testedAgain : Query := keyed (.binary .eq ageOf (.constant .null)) (.unary .not keyOf)

/-- A column of the first table of a selection with nothing around it is its own. -/
theorem isOwn_first {c : Compiler} {sel : Select} {a : String} (h : sel.table.aliasName = some a) (deferring : Bool)
    (name : String) : Occurrence.IsOwn { compiler := c } 0 ⟨[⟨sel.tables, deferring⟩], .column (some a) name⟩ := by
  have hseat : seatOf a [⟨sel.tables, deferring⟩] = some ⟨0, 0⟩ := by
    simp [seatOf, SelectOf.tables, hasAlias, h, List.findIdx?_cons]
  refine ⟨⟨0, name, by simp [Occurrence.meant?, hseat]⟩, ?_⟩
  rintro ⟨param, b, n, around, hb, -⟩
  cases hb

/-- The only column of a selection exposes a column of its first table. -/
theorem exposes_own {covers : Node → Prop} {c : Compiler} {sel : Select} {a name : String} {n : Node}
    {aliasName : Option String} (htable : sel.table.aliasName = some a) (hcolumns : sel.columns = [⟨n, aliasName⟩])
    (h : ∀ around, n.Exposes covers around ⟨around, .column (some a) name⟩) :
    ∃ o, sel.OuterExposes covers [] o ∧ o.IsOwn { compiler := c } 0 := by
  have hmem : ⟨n, aliasName⟩ ∈ sel.columns := by simp [hcolumns]
  exact ⟨_, .inl ⟨_, hmem, h _⟩, isOwn_first htable _ name⟩

/-- **Grouped queries do not read copies of keys only.** A text that is joined with a key is joined with its pieces,
and the opposite of a key that is a test is the opposite test.

**Proof sketch.** In the first query a text is put before a joined key, whose pieces are then joined anew; in the
second one a test is a key and its negation is selected. Neither result has a copy of the key within, so the column of
the age is exposed. -/
theorem groups_read_parts :
    (joinedAgain.OverGroups ∧ ∃ sel p', (planQuery joinedAgain).Gives { compiler := shop } {} sel p' ∧
      ∃ o, sel.OuterExposes (IsCopy sel.groupBy) [] o ∧ o.IsOwn { compiler := shop } 0) ∧
    testedAgain.OverGroups ∧ ∃ sel p', (planQuery testedAgain).Gives { compiler := shop } {} sel p' ∧
      ∃ o, sel.OuterExposes (IsCopy sel.groupBy) [] o ∧ o.IsOwn { compiler := shop } 0 := by
  have notCopy {k n : Node} (h : ¬ n.Alike k) : ¬ IsCopy [k] n := by
    rintro ⟨m, hm, hcopy⟩
    exact h (List.mem_singleton.mp hm ▸ hcopy)
  constructor
  · obtain ⟨sel, p', x, mark, t, h, hkeys, hcolumns, htable⟩ : ∃ sel p' x mark t,
        (planQuery joinedAgain).Gives { compiler := shop } {} sel p' ∧
          sel.groupBy = [.call .concat [.column (some "a") "age" .int32, mark] t] ∧
          sel.columns = [⟨.call .concat [x, .column (some "a") "age" .int32, mark] t, some "Label"⟩] ∧
          sel.table.aliasName = some "a" := ⟨_, _, _, _, _, rfl, rfl, rfl, rfl⟩
    -- neither the text nor the age in it is the joined key
    have hexposes (around : List Level) : (Node.call .concat [x, .column (some "a") "age" .int32, mark] t).Exposes
        (IsCopy sel.groupBy) around ⟨around, .column (some "a") "age"⟩ := by
      rw [hkeys]
      exact ⟨notCopy nofun, rfl, .inr (.inl ⟨notCopy nofun, rfl⟩)⟩
    exact ⟨⟨nofun, nofun⟩, sel, p', h, exposes_own htable hcolumns hexposes⟩
  · obtain ⟨sel, p', h, hkeys, hcolumns, htable⟩ : ∃ sel p',
        (planQuery testedAgain).Gives { compiler := shop } {} sel p' ∧
          sel.groupBy = [.isNull (.column (some "a") "age" .int32) false] ∧
          sel.columns = [⟨.isNull (.column (some "a") "age" .int32) true, some "Label"⟩] ∧
          sel.table.aliasName = some "a" := ⟨_, _, rfl, rfl, rfl, rfl⟩
    -- the opposite test is no copy of the key
    have hexposes (around : List Level) : (Node.isNull (.column (some "a") "age" .int32) true).Exposes
        (IsCopy sel.groupBy) around ⟨around, .column (some "a") "age"⟩ := by
      rw [hkeys]
      exact ⟨notCopy nofun, notCopy nofun, rfl⟩
    exact ⟨⟨nofun, nofun⟩, sel, p', h, exposes_own htable hcolumns hexposes⟩

end LambdaSql
