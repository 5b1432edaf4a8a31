import LambdaSql.Proofs.Meaning.Lowering
import LambdaSql.Proofs.Naming.Operands
import LambdaSql.Proofs.Plan.AtHand
import LambdaSql.Proofs.Plan.Result

/-!
# Membership tests

A membership test asks for an item in a collection that is written item by item or is at hand. It may
be evaluated at compile time; otherwise a database is asked. Over an empty collection this is
`x IN (NULL)`, which is unknown where it should be false, and a test that always holds if the item
should not be there.

## Main definitions

* `Expr.Collects` - collections of data of a kind.
* `Expr.membership?` - the membership test that an expression is.
* `Expr.MembershipTest.outcome`, `Expr.MembershipTest.emitted` - its outcome, and what a database is
  asked for.

## Main results

* `Expr.Collects.gives` - what is planned for a collection.
* `Expr.Comparable.gives_emitted` - what is planned for a membership test.
-/

namespace LambdaSql

open Planning

variable {s : Scope} {row : Contents} {k : Kind} {e : Expr} {p p' : Progress}

/-- What agrees with a datum comes upon no fault. -/
theorem Evaluation.Agrees.faultless {x : Evaluation Value} {d : Datum} (h : x.Agrees d) : x.Faultless := by
  obtain ⟨o, rfl, -⟩ := h
  exact .ofOption o

namespace Expr

/-! ## Collections -/

/-- Whether a collection is empty. -/
def isEmptyCollection : Expr → Bool
  | array items => items.isEmpty
  | e => match Host.value e with
    | .ok (.list values) => values.isEmpty
    | _ => false

/-- Whether null is at hand as the one item of a collection. -/
def isJustNull : Expr → Bool
  | array items => items.map isNullAtHand = [true]
  | e => match Host.value e with
    | .ok (.list values) => values.map Value.isNull = [true]
    | _ => false

/-- The data in a collection. -/
def elements (s : Scope) (row : Contents) : Expr → List Datum
  | array items => items.map (meaning s row)
  | e => match Host.value e with
    | .ok (.list values) => values.map fun v => v.datum?.getD .null
    | _ => []

/-- A collection of data of a kind, written item by item or at hand. -/
inductive Collects (s : Scope) (k : Kind) : Expr → Prop
  | array {items : List Expr} (h : ∀ e ∈ items, Typed s k e) : Collects s k (array items)
  | atHand {e : Expr} {values : List Value} (ho : e.origin s.compiler.translations ≠ .sql)
    (hv : Host.value e = .ok (.list values)) (ha : ∀ items, e ≠ .array items)
    (hd : ∀ v ∈ values, ∃ d, v.datum? = some d ∧ d.HasKind k) : Collects s k e

/-- Evaluating numbers and truth values comes upon no fault. -/
theorem Typed.faultless (hf : row.Fits s) (h : e.Typed s k)
    (ho : e.origin s.compiler.translations ≠ .sql) : (Host.value e).Faultless := by
  have hr : e.reads = [] :=
    Classical.byContradiction fun hne => ho ((origin_eq_sql s.compiler.translations h).mpr hne)
  exact (value_agrees hf h hr).faultless

/-- A whole number is no list. -/
private theorem isList_of_convertToWhole {v w : Value} (h : Host.convertToWhole v = some w) : w.isList = false := by
  cases v with
  | int | enum | float | bool =>
    cases h
    rfl
  | decimal =>
    obtain ⟨_, -, rfl⟩ := Option.map_eq_some_iff.mp h
    rfl
  | _ => cases h

/-- A decimal number is no list. -/
private theorem isList_of_convertToDecimal {v w : Value} (h : Host.convertToDecimal v = some w) : w.isList = false := by
  unfold Host.convertToDecimal at h
  split at h
  · cases h
    rfl
  · obtain ⟨_, -, rfl⟩ := Option.map_eq_some_iff.mp h
    rfl

/-- Only lists are converted to lists. -/
theorem isList_of_convert {v w : Value} {type : HostType} (h : Host.convert v type = some w)
    (hw : w.isList = true) : v.isList = true := by
  unfold Host.convert at h
  split at h
  · cases h
    exact hw
  · cases type with
    | byte | int16 | int32 | int64 => exact absurd hw (Bool.eq_false_iff.mp (isList_of_convertToWhole h))
    | double =>
      obtain ⟨_, -, rfl⟩ := Option.map_eq_some_iff.mp h
      cases hw
    | decimal => exact absurd hw (Bool.eq_false_iff.mp (isList_of_convertToDecimal h))
    | string =>
      cases h
      cases hw
    | _ =>
      cases h
      exact hw

/-- What is a list at hand is known to be a collection. -/
theorem gives_isCollection {v : Value} (ho : e.origin s.compiler.translations ≠ .sql)
    (hv : Host.value e = .ok v) (hl : v.isList = true) :
    (Lowering.isCollection e).Gives s p true p := by
  fun_induction Lowering.isCollection e generalizing v with
  | case1 | case2 => exact gives_pure.mpr ⟨rfl, rfl⟩
  | case3 w | case4 name w =>
    obtain rfl : w = v := by simpa [Host.value, Host.evaluate] using hv
    exact gives_pure.mpr ⟨hl.symm, rfl⟩
  | case5 inner type ih =>
    rw [Host.value, Host.evaluate] at hv
    obtain ⟨w, hw, hconvert⟩ := Except.bind_eq_ok.mp hv
    refine ih ho hw (@isList_of_convert _ _ type ?_ hl)
    cases hc : Host.convert w type <;> rw [hc] at hconvert <;> cases hconvert
    rfl
  | case6 e =>
    refine gives_bind.mpr ⟨_, p, Lowering.gives_origin.mpr ⟨rfl, rfl⟩, ?_⟩
    rw [if_neg ho]
    refine gives_bind.mpr ⟨_, p, Lowering.gives_valueOf?.mpr ⟨by rw [hv]; rfl, rfl⟩, ?_⟩
    exact gives_pure.mpr ⟨by simp [hl], rfl⟩

/-- What has a value at hand is no selection. -/
theorem selection_eq_none {e : Expr} {v : Value} (hv : Host.value e = .ok v) :
    (operand e).selection = none := by
  cases e with
  | convert inner type =>
    rw [Host.value, Host.evaluate] at hv
    obtain ⟨w, hw, -⟩ := Except.bind_eq_ok.mp hv
    rw [operand]
    exact selection_eq_none hw
  | query q =>
    rw [Host.value, Host.evaluate] at hv
    cases hv
  | binary op l r =>
    rw [operand]
    split <;> rfl
  | call target type method args => cases target <;> rfl
  | _ => rfl

/-- Only arrays have items. -/
theorem items_eq_none (ha : ∀ items, e ≠ .array items) : (operand e).items = none := by
  cases e with
  | array items => exact absurd rfl (ha items)
  | binary op l r =>
    rw [operand]
    split <;> rfl
  | call target type method args => cases target <;> rfl
  | _ => rfl

/-- Several data at hand are planned one by one. -/
theorem gives_atHands {values : List Value} (o : Origin)
    (hd : ∀ v ∈ values, ∃ d, v.datum? = some d ∧ d.HasKind k) :
    ∃ ns, (values.mapM (Lowering.atHand · o)).Gives s p ns p ∧
      Node.cells? row ns = some ((values.map fun v => v.datum?.getD .null).map Datum.cell) ∧
      ns.map Node.isNullNode = values.map Value.isNull := by
  induction values with
  | nil => exact ⟨[], gives_mapM_nil.mpr ⟨rfl, rfl⟩, rfl, rfl⟩
  | cons v rest ih =>
    obtain ⟨d, hv, hk⟩ := hd v List.mem_cons_self
    obtain ⟨n, hn, hden, hnull⟩ := @Lowering.gives_atHand s row _ p _ _ hv hk o
    obtain ⟨ns, hns, hcs, hnulls⟩ := ih fun w hw => hd w (List.mem_cons_of_mem _ hw)
    refine ⟨n :: ns, gives_mapM_cons.mpr ⟨n, p, ns, hn, hns, rfl⟩, ?_, by simp [hnull, hnulls]⟩
    simp [Node.cells?, hden.cell, hcs, hv]

/-- The items of an array are planned one by one. -/
theorem gives_items (hf : row.Fits s) {items : List Expr} (h : ∀ e ∈ items, Typed s k e) :
    ∃ ns, ((operands items).mapM Operand.value).Gives s p ns p ∧
      Node.cells? row ns = some ((items.map (meaning s row)).map Datum.cell) ∧
      ns.map Node.isNullNode = items.map isNullAtHand := by
  induction items with
  | nil => exact ⟨[], gives_mapM_nil.mpr ⟨rfl, rfl⟩, rfl, rfl⟩
  | cons e rest ih =>
    obtain ⟨⟨n, hn, hex⟩, -⟩ := lowers_of_typed (p := p) hf (h e List.mem_cons_self)
    obtain ⟨ns, hns, hcs, hnulls⟩ := ih fun e' he' => h e' (List.mem_cons_of_mem _ he')
    rw [operands]
    refine ⟨n :: ns, gives_mapM_cons.mpr ⟨n, p, ns, hn, hns, rfl⟩, ?_, by simp [hex.null, hnulls]⟩
    simp [Node.cells?, hex.denotes.cell, hcs]

/-- The items of a collection, as they are planned. -/
def collected (e : Expr) : Planning (List Node) := (operand e).items.getD (Lowering.itemsAtHand e)

/-- The elements of a collection at hand are those of its value. -/
private theorem elements_of_value {values : List Value} (ha : ∀ items, e ≠ .array items)
    (hv : Host.value e = .ok (.list values)) :
    e.elements s row = values.map (fun v => v.datum?.getD .null) ∧
      e.isEmptyCollection = values.isEmpty ∧
      e.isJustNull = decide (values.map Value.isNull = [true]) := by
  refine ⟨?_, ?_, ?_⟩
  · unfold elements
    split
    · exact absurd rfl (ha _)
    · rw [hv]
  · unfold isEmptyCollection
    split
    · exact absurd rfl (ha _)
    · rw [hv]
  · unfold isJustNull
    split
    · exact absurd rfl (ha _)
    · rw [hv]

/-- What is planned for a collection: its data, none if it is empty, and null alone only if that is
at hand.

**Proof sketch.** An array is planned item by item, and a list at hand from its values. Either way a null is planned
for a null only. -/
theorem Collects.gives (hf : row.Fits s) (h : e.Collects s k) (p : Progress) :
    ∃ ns, (collected e).Gives s p ns p ∧
      Node.cells? row ns = some ((e.elements s row).map Datum.cell) ∧
      ns.isEmpty = e.isEmptyCollection ∧ (ns = [.null] → e.isJustNull = true) := by
  cases h with
  | @array items h =>
    obtain ⟨ns, hns, hcs, hnulls⟩ := gives_items (p := p) hf h
    have hempty : ns.isEmpty = items.isEmpty := by
      rw [← List.isEmpty_map (f := Node.isNullNode), hnulls, List.isEmpty_map]
    refine ⟨ns, hns, hcs, hempty, ?_⟩
    rintro rfl
    exact decide_eq_true hnulls.symm
  | @atHand _ values ho hv ha hd =>
    obtain ⟨ns, hns, hcs, hnulls⟩ := @gives_atHands s row _ p _ (e.origin s.compiler.translations) hd
    obtain ⟨helements, hempty, hnull⟩ := @elements_of_value s row _ _ ha hv
    refine ⟨ns, ?_, by rw [helements, hcs], ?_, ?_⟩
    · rw [collected, items_eq_none ha]
      refine gives_bind.mpr ⟨_, p, Lowering.gives_origin.mpr ⟨rfl, rfl⟩, ?_⟩
      rw [if_neg ho]
      exact gives_bind.mpr ⟨some (.list values), p,
        Lowering.gives_valueOf?.mpr ⟨by rw [hv]; rfl, rfl⟩, hns⟩
    · rw [hempty, ← List.isEmpty_map (f := Node.isNullNode), hnulls, List.isEmpty_map]
    · rintro rfl
      rw [hnull]
      exact decide_eq_true hnulls.symm

/-- Collections select nothing from groups. -/
private theorem Collects.selection_eq_none (h : e.Collects s k) : (operand e).selection = none := by
  cases h with
  | array h => rfl
  | atHand _ hv _ _ => exact Expr.selection_eq_none hv

/-- A collection is recognised as one. -/
theorem Collects.gives_isCollection (h : e.Collects s k) :
    (Lowering.isCollection e).Gives s p true p := by
  cases h with
  | array h => exact gives_pure.mpr ⟨rfl, rfl⟩
  | atHand ho hv _ _ => exact Expr.gives_isCollection ho hv rfl

/-- An empty collection has no elements. -/
private theorem elements_of_isEmptyCollection (h : e.Collects s k) (he : e.isEmptyCollection = true) :
    e.elements s row = [] := by
  cases h with
  | array _ => exact List.map_eq_nil_iff.mpr (List.isEmpty_iff.mp he)
  | atHand _ hv ha _ =>
    obtain ⟨helements, hempty, -⟩ := @elements_of_value s row _ _ ha hv
    rw [hempty] at he
    rw [helements, List.isEmpty_iff.mp he, List.map_nil]

/-- The value that a collection has at hand is a list, and the empty list if nothing is in it. -/
theorem Collects.value {v : Value} (h : e.Collects s k) (hv : Host.value e = .ok v) :
    ∃ values, v = .list values ∧ (e.isEmptyCollection = true → values = []) := by
  cases h with
  | @array items h =>
    rw [Host.value, Host.evaluate] at hv
    obtain ⟨values, hvalues, hresult⟩ := Except.bind_eq_ok.mp hv
    refine ⟨values, (Except.pure_eq_ok.mp hresult).symm, fun he => ?_⟩
    rw [List.isEmpty_iff.mp he, Host.evaluateItems] at hvalues
    exact (Except.pure_eq_ok.mp hvalues).symm
  | @atHand _ values _ hv' ha _ =>
    refine ⟨values, Except.ok.inj (hv.symm.trans hv'), fun he => List.isEmpty_iff.mp ?_⟩
    rwa [(@elements_of_value s (fun _ _ => .null) _ _ ha hv').2.1] at he

/-- Typed items that are not left to the database have no faults. -/
private theorem faultless_items (hf : row.Fits s) {items : List Expr} (h : ∀ e ∈ items, Typed s k e)
    (ho : originOfItems s.compiler.translations items ≠ .sql) :
    (Host.evaluateItems .none items).Faultless := by
  induction items with
  | nil => exact .ok _
  | cons e rest ih =>
    obtain ⟨hoe, hor⟩ := not_or.mp fun ho' => ho (Origin.max_eq_sql.mpr ho')
    rw [Host.evaluateItems]
    refine Evaluation.Faultless.bind ((h e List.mem_cons_self).faultless hf hoe) fun v _ => ?_
    exact (ih (fun e' he' => h e' (List.mem_cons_of_mem _ he')) hor).bind fun vs _ => .ok _

/-- Evaluating a collection comes upon no fault. -/
theorem Collects.faultless (hf : row.Fits s) (h : e.Collects s k)
    (ho : e.origin s.compiler.translations ≠ .sql) : (Host.value e).Faultless := by
  cases h with
  | array h =>
    rw [Host.value, Host.evaluate]
    exact (faultless_items hf h ho).bind fun vs _ => .ok _
  | atHand _ hv _ _ =>
    rw [hv]
    exact .ok _

/-! ## Membership tests -/

/-- A test whether an item is in a collection. -/
structure MembershipTest where
  item : Expr
  collection : Expr
  negated : Bool

/-- The membership test that an expression is, if it is one: a call on a collection, or `In` and its
opposite. -/
def membership? (s : Scope) : Expr → Option MembershipTest
  | call (some collection) _ "Contains" [item] => some ⟨item, collection, false⟩
  | call none (some "Sql") method [item, collection] =>
    match s.compiler.translations.methodOf? "Sql" method (.exactly 2) with
    | some (.isIn negated) => some ⟨item, collection, negated⟩
    | _ => none
  | _ => none

/-- Numbers and truth values are no membership tests. -/
theorem membership?_of_typed (h : e.Typed s k) : e.membership? s = none := by cases h <;> rfl

/-- A call that is translated to a membership test is one. -/
theorem membership?_isIn {method : String} {negated : Bool}
    (hm : s.compiler.translations.methodOf? "Sql" method (.exactly 2) = some (.isIn negated)) :
    (call none (some "Sql") method [item, collection]).membership? s =
      some ⟨item, collection, negated⟩ := by
  rw [membership?, hm]

/-- Whether the item is in the collection, or is not if that is asked for. -/
def MembershipTest.outcome (s : Scope) (row : Contents) (m : MembershipTest) : Truth :=
  ((m.item.meaning s row).cell.among ((m.collection.elements s row).map Datum.cell)).flipIf m.negated

/-- The outcome of a membership test that a database is asked: unknown over nothing, unless it asks
for an item that is not there. -/
def MembershipTest.emitted (s : Scope) (row : Contents) (m : MembershipTest) : Truth :=
  if m.collection.isEmptyCollection && !m.negated then none else m.outcome s row

/-- An item and a collection with data of one kind. A column of any other type may be looked for in
an empty collection. -/
inductive Comparable (s : Scope) (item collection : Expr) : Prop
  | typed {k : Kind} (hi : item.Typed s k) (hc : collection.Collects s k)
  | column {k : Kind} {q name c : String} {t : TableBinding} {a : Option String} {type : HostType}
    (hi : item = member (param q) name) (hq : s.binding? q = some (.table t))
    (ht : t.column name = .ok (.column a c type)) (hc : collection.Collects s k)
    (he : collection.isEmptyCollection = true)

variable {item collection : Expr}

/-- What an item is looked for in is a collection. -/
theorem Comparable.collects (h : Comparable s item collection) :
    ∃ k, collection.Collects s k := by
  cases h with
  | typed _ hc => exact ⟨_, hc⟩
  | column _ _ _ hc _ => exact ⟨_, hc⟩

/-- What is planned for an item. -/
theorem Comparable.gives_item (hf : row.Fits s) (h : Comparable s item collection) (p : Progress) :
    ∃ n, (operand item).value.Gives s p n p ∧ n.cell? row = some (item.meaning s row).cell ∧
      (collection.isEmptyCollection = false → ∀ t, n.type.comparable t = .ok ()) := by
  cases h with
  | typed hi _ =>
    obtain ⟨⟨n, hn, hex⟩, -⟩ := lowers_of_typed (p := p) hf hi
    exact ⟨n, hn, hex.denotes.cell, fun _ t => HostType.comparable_of_admits hex.denotes.type⟩
  | @column _ q name c t a type hi hq ht _ he =>
    subst hi
    refine ⟨.column a c type, ?_, ?_, by simp [he]⟩
    · rw [operand]
      refine Lowering.gives_folded_of_none ?_ (fun ho => absurd rfl ho) (Lowering.gives_member hq ht)
      simp [atHand?, origin]
    · rw [meaning, memberMeaning, hq]
      simp only [ht]
      rfl

/-- A check of each of several nodes that all of them pass. -/
theorem gives_forM {α : Type} {f : α → Except SqlError Unit} {as : List α}
    (h : ∀ a ∈ as, f a = .ok ()) : (as.forM fun a => ofExcept (f a)).Gives s p () p := by
  induction as with
  | nil => exact gives_pure.mpr ⟨rfl, rfl⟩
  | cons a rest ih =>
    refine gives_bind.mpr ⟨(), p, gives_ofExcept.mpr ⟨h a List.mem_cons_self, rfl⟩, ?_⟩
    exact ih fun b hb => h b (List.mem_cons_of_mem _ hb)

/-- What becomes of a membership test, given what its item and its collection become. -/
theorem gives_membership (hpolicy : s.compiler.options.emptyIn = .alwaysFalse) {n : Node}
    {ns : List Node} {negated : Bool} (hsel : (operand collection).selection = none)
    (hn : (operand item).value.Gives s p n p) (hns : (collected collection).Gives s p ns p)
    (hc : ∀ m ∈ ns, n.type.comparable m.type = .ok ()) :
    (Lowering.membership (operand collection) (operand item) negated).Gives s p
      (if ns.isEmpty then if negated then .always true else .inList n [.null] false
        else .inList n ns negated) p := by
  have hlast : (do
      ns.forM fun m => ofExcept (n.type.comparable m.type)
      if ns.isEmpty then Lowering.emptyMembership n negated
      else return .inList n ns negated : Planning Node).Gives s p
        (if ns.isEmpty then if negated then .always true else .inList n [.null] false
          else .inList n ns negated) p := by
    refine gives_bind.mpr ⟨(), p, gives_forM hc, ?_⟩
    split
    · refine gives_bind.mpr ⟨s, p, gives_read.mpr ⟨rfl, rfl⟩, ?_⟩
      rw [hpolicy]
      exact gives_pure.mpr ⟨rfl, rfl⟩
    · exact gives_pure.mpr ⟨rfl, rfl⟩
  unfold Lowering.membership
  rw [hsel, gives_bind, operand_source]
  refine ⟨n, p, hn, ?_⟩
  unfold collected at hns
  cases hi : (operand collection).items <;> rw [hi] at hns <;>
    exact gives_bind.mpr ⟨ns, p, hns, hlast⟩

/-- Over nothing, an item is not there. -/
theorem MembershipTest.outcome_of_isEmptyCollection {m : MembershipTest}
    (h : m.collection.Collects s k) (he : m.collection.isEmptyCollection = true) :
    m.outcome s row = some m.negated := by
  rw [outcome, elements_of_isEmptyCollection h he]
  cases m.negated <;> rfl

/-- **A membership test that is left to the database.** Its node has the outcome of the test; over
nothing it is `x IN (NULL)`, or the test that always holds, and over just null it may be `x IN (NULL)` or its
opposite, too. The opposite may be taken of all other nodes.

**Proof sketch.** The item and the members of the collection are planned, with the cells that they mean, and all types
can be compared. What is left is the node that the lowering of the test picks by whether the collection is empty, and
whether it is just null. -/
theorem Comparable.gives_emitted (hpolicy : s.compiler.options.emptyIn = .alwaysFalse)
    (hf : row.Fits s) (h : Comparable s item collection) (negated : Bool) (p : Progress) :
    ∃ n, (Lowering.membership (operand collection) (operand item) negated).Gives s p n p ∧
      n.cell? row = some (.ofTruth (MembershipTest.emitted s row ⟨item, collection, negated⟩)) ∧
      ((collection.isEmptyCollection && !negated) = false →
        n.Tests row (MembershipTest.emitted s row ⟨item, collection, negated⟩) ∨
          collection.isJustNull = true ∧ ∃ i, n = .inList i [.null] negated) ∧
      ((collection.isEmptyCollection && !negated) = true →
        ∃ i, n = .inList i [.null] false) := by
  obtain ⟨k, hcollects⟩ := h.collects
  obtain ⟨n, hn, hcell, hcomp⟩ := h.gives_item hf p
  obtain ⟨ns, hns, hcells, hempty, hnull⟩ := hcollects.gives hf p
  have hall : ∀ m ∈ ns, n.type.comparable m.type = .ok () := by
    intro m hm
    refine hcomp ?_ _
    rw [← hempty]
    exact List.isEmpty_eq_false_iff_exists_mem.mpr ⟨m, hm⟩
  have hgives := @gives_membership _ _ _ _ hpolicy _ _ negated hcollects.selection_eq_none hn hns hall
  rw [hempty] at hgives
  refine ⟨_, hgives, ?_⟩
  unfold MembershipTest.emitted
  cases he : collection.isEmptyCollection with
  | true =>
    rw [MembershipTest.outcome_of_isEmptyCollection hcollects he]
    cases negated with
    | true => exact ⟨rfl, fun _ => .inl ⟨rfl, rfl, rfl, trivial⟩, nofun⟩
    | false =>
      refine ⟨?_, nofun, fun _ => ⟨n, rfl⟩⟩
      simp only [if_true, Bool.false_eq_true, if_false, Bool.not_false, Bool.and_self]
      rw [Node.cell?, hcell]
      cases (item.meaning s row).cell <;> rfl
  | false =>
    have hc : (Node.inList n ns negated).cell? row =
        some (.ofTruth (MembershipTest.outcome s row ⟨item, collection, negated⟩)) := by
      rw [Node.cell?, hcell, hcells]
      rfl
    refine ⟨hc, fun _ => ?_, nofun⟩
    by_cases hnil : ns = [.null]
    · exact .inr ⟨hnull hnil, n, hnil ▸ rfl⟩
    · exact .inl ⟨rfl, rfl, hc, hnil⟩

/-- What is evaluated before a search: the item, and then the collection. -/
theorem value_contains (type : Option String) :
    Host.value (call (some collection) type "Contains" [item]) = (do
      let v ← Host.value item
      let values ← Host.value collection
      Host.callOn values "Contains" [v]) := by
  simp only [Host.value]
  rw [Host.evaluate, Host.evaluateItems, Host.evaluateItems]
  cases Host.evaluate .none item <;> rfl

/-- A list contains a value if one of its values is equal to it. -/
private theorem callOn_contains (values : List Value) (v : Value) :
    Host.callOn (.list values) "Contains" [v] = .ok (.bool (values.any (·.equals v))) := by
  rfl

/-- A search at hand has a truth value, and finds nothing in nothing. -/
theorem Comparable.atHand?_contains (h : Comparable s item collection) {type : Option String}
    {v : Value} (hv : (call (some collection) type "Contains" [item]).atHand? s = some v) :
    ∃ b, v = .bool b ∧ (collection.isEmptyCollection = true → b = false) := by
  obtain ⟨k, hc⟩ := h.collects
  obtain ⟨-, -, hval⟩ := atHand?_eq_some.mp hv
  rw [value_contains] at hval
  obtain ⟨w, -, hrest⟩ := Except.bind_eq_ok.mp hval
  obtain ⟨l, hl, hresult⟩ := Except.bind_eq_ok.mp hrest
  obtain ⟨values, rfl, hempty⟩ := hc.value hl
  rw [callOn_contains] at hresult
  refine ⟨_, (Except.ok.inj hresult).symm, fun he => ?_⟩
  rw [hempty he, List.any_nil]

/-- The item of a membership test that is not left to the database has no faults. -/
private theorem Comparable.faultless_item (hf : row.Fits s) (h : Comparable s item collection)
    (ho : item.origin s.compiler.translations ≠ .sql) : (Host.value item).Faultless := by
  cases h with
  | typed hi _ => exact hi.faultless hf ho
  | column hi _ _ _ _ =>
    subst hi
    exact absurd rfl ho

/-- Evaluating a search comes upon no fault. -/
theorem Comparable.faultless_contains (hf : row.Fits s) (h : Comparable s item collection)
    {type : Option String}
    (ho : (call (some collection) type "Contains" [item]).origin s.compiler.translations ≠ .sql) :
    (Host.value (call (some collection) type "Contains" [item])).Faultless := by
  obtain ⟨k, hc⟩ := h.collects
  have horigin : collection.origin s.compiler.translations ≠ .sql ∧
      item.origin s.compiler.translations ≠ .sql := by
    rw [origin] at ho
    split at ho
    · exact absurd rfl ho
    · obtain ⟨hoc, hoi⟩ := not_or.mp fun ho' => ho (Origin.max_eq_sql.mpr ho')
      exact ⟨hoc, (not_or.mp fun ho' => hoi (Origin.max_eq_sql.mpr ho')).1⟩
  rw [value_contains]
  refine (h.faultless_item hf horigin.2).bind fun v _ => ?_
  refine (hc.faultless hf horigin.1).bind fun l hl => ?_
  obtain ⟨values, rfl, -⟩ := hc.value hl
  rw [callOn_contains]
  exact .ok _

/-- A search in a collection is planned as a membership test. -/
theorem gives_contains (hc : collection.Collects s k) {type : Option String}
    (hv : (call (some collection) type "Contains" [item]).atHand? s = none)
    (hfl : (call (some collection) type "Contains" [item]).origin s.compiler.translations ≠ .sql →
      (Host.value (call (some collection) type "Contains" [item])).Faultless) {n : Node}
    (hn : (Lowering.membership (operand collection) (operand item) false).Gives s p n p) :
    (operand (call (some collection) type "Contains" [item])).value.Gives s p n p := by
  rw [operand]
  refine Lowering.gives_folded_of_none hv hfl ?_
  rw [operands, operands]
  unfold Lowering.callOn
  simp only [operand_source, if_true, gives_bind]
  exact ⟨true, p, hc.gives_isCollection, by simpa using hn⟩

/-- A method that is translated as a membership test is planned as one. -/
theorem gives_isIn {method : String} {negated : Bool}
    (hm : s.compiler.translations.methodOf? "Sql" method (.exactly 2) = some (.isIn negated))
    {n : Node} (hn : (Lowering.membership (operand collection) (operand item) negated).Gives s p n p) :
    (operand (call none (some "Sql") method [item, collection])).value.Gives s p n p := by
  rw [operand]
  have ho : (call none (some "Sql") method [item, collection]).origin s.compiler.translations = .sql := by
    rw [origin, if_pos rfl]
  refine Lowering.gives_folded_of_none (by simp [atHand?, ho]) (fun h => absurd ho h) ?_
  rw [operands, operands, operands]
  unfold Lowering.callOf
  simp only [gives_bind, Lowering.gives_translations]
  refine ⟨_, p, ⟨rfl, rfl⟩, ?_⟩
  simp only [List.length_cons, List.length_nil, Nat.zero_add, Nat.reduceAdd, hm]
  exact hn

end Expr

end LambdaSql
