import LambdaSql.Proofs.Naming.Resolution
import LambdaSql.Proofs.Nesting.Texts

/-!
# The order of common table expressions

A text begins with its common table expressions. Each has a name of its own, all that are read are there, and each
comes after those it reads, but for itself in its second query, which makes it recursive. There is one exception: what
is first met in the second query of a common table expression and reads it comes before it.

## Main definitions

* `SelectOf.ReadsNamed`, `Body.ReadsNamed` - tables that are read at any depth.
* `CtePlan.StandsIn` - a common table expression in the second query of another one.

## Main results

* `Compiler.Sourced.readable` - what a planned selection reads.
* `Compiler.ctes_ordered` - the order of common table expressions.
-/

namespace LambdaSql

/-! ## Reading -/

/-- A selection, or one within it, reads a table of a name without a schema. -/
def SelectOf.ReadsNamed (sel : Select) (name : String) : Prop :=
  ∃ x ∈ sel :: (selectSelections sel).map Prod.snd, ∃ t ∈ x.tables, t.rows = .named name none

/-- A change, or a selection within it, reads a table of a name without a schema. -/
def ChangePlan.ReadsNamed (p : ChangePlan) (name : String) : Prop :=
  p.table.rows = .named name none ∨ (∃ j ∈ p.joins, j.table.rows = .named name none) ∨
    ∃ x ∈ p.selections, ∃ t ∈ x.2.tables, t.rows = .named name none

/-- What follows the common table expressions reads a table of a name without a schema. -/
def Body.ReadsNamed : Body → String → Prop
  | .select s => s.ReadsNamed
  | .update p | .delete p => p.ReadsNamed

/-- In a statement, a common table expression stands in the second query of one of another name. -/
def CtePlan.StandsIn (s : Statement) (name : String) (d : CtePlan) : Prop :=
  ∃ unions cte, .cte unions cte ∈ s.passages ∧ cte.name = d.name ∧ name ∈ unions

section Readable

variable {c : Compiler} {site : Passage → Prop} {unions : List String} {p : Progress} {sel : Select} {name : String}
  {x : Use × Select}

/-- A selection within another one reads what may be read, also where it is only asked for rows. -/
theorem Compiler.Nested.tables (h : c.Nested site unions p x) : ∀ t ∈ x.2.tables, c.Readable unions p t.rows := by
  obtain ⟨sel, hsel, heq | ⟨-, heq⟩⟩ := h
  · rw [heq]
    exact hsel.tables
  · rw [heq]
    exact hsel.tables

/-- **What a planned selection reads** at any depth is what may be read there. -/
theorem Compiler.Sourced.readable {asTable : Bool} (h : c.Sourced site asTable unions p sel) (hread : sel.ReadsNamed name) :
    c.Readable unions p (.named name none) := by
  obtain ⟨x, hx, t, ht, heq⟩ := hread
  rw [← heq]
  obtain rfl | hx := List.mem_cons.mp hx
  · exact h.planned.tables t ht
  · obtain ⟨y, hy, rfl⟩ := List.mem_map.mp hx
    exact (h.nested y hy).tables t ht

/-- The rows of a common table expression that a body reads are readable. -/
private theorem Body.Sourced.readable {body : Body} (h : body.Sourced c site p) (hread : body.ReadsNamed name) :
    c.Readable [] p (.named name none) := by
  have change {plan : ChangePlan}
      (h : plan.PartsHave ((c.provenance site).node [] p) ((c.provenance site).rows [] p))
      (hread : plan.ReadsNamed name) : c.Readable [] p (.named name none) := by
    obtain heq | ⟨j, hj, heq⟩ | ⟨x, hx, t, ht, heq⟩ := hread
    · exact heq ▸ h.table.1
    · exact heq ▸ (h.joins j hj).1.1
    · exact heq ▸ (h.nested x hx).tables t ht
  cases body with
  | select s => exact Compiler.Sourced.readable h hread
  | update plan => exact change h hread
  | delete plan => exact change h hread

end Readable

/-! ## Order -/

namespace CtePlan

variable {c : Compiler} {s : Statement} {before after ctes : List CtePlan} {d : CtePlan} {name : String}

/-- What a query of a common table expression may read besides the common table expression itself: tables of
entities, common table expressions before it, and recursive ones after it in whose second queries it stands. -/
def Precedes (c : Compiler) (s : Statement) (before after : List CtePlan) (d : CtePlan) (name : String) : Prop :=
  c.OfEntity name none ∨ (∃ e ∈ before, e.name = name) ∨
    (∃ e ∈ after, e.name = name ∧ e.recursive = true) ∧ d.StandsIn s name

/-- A common table expression among all those of a text reads what it may. Its second query may read the common
table expression itself, which is recursive then. -/
structure Ordered (c : Compiler) (s : Statement) (before : List CtePlan) (d : CtePlan) (after : List CtePlan) :
    Prop where
  anchor : ∀ name, d.anchor.ReadsNamed name → Precedes c s before after d name
  union : ∀ u, d.union = some u → ∀ name, u.ReadsNamed name →
    Precedes c s before after d name ∨ name = d.name ∧ d.recursive = true

end CtePlan

namespace Compiler

variable {c : Compiler} {s : Statement} {p : Progress} {before after : List CtePlan} {d : CtePlan} {name : String}

/-- What may be read within the second queries of some common table expressions, after others. -/
theorem Block.precedes (h : c.Block (· ∈ s.passages) [] [] p) (hsplit : p.ctes = before ++ d :: after)
    {around : List String} (hfollows : d.Follows c (· ∈ s.passages) around p.selfReads before)
    (haround : ∀ name ∈ around, name ∈ ([] : List String) ∨ ∃ e ∈ p.ctes, e.name = name)
    (hread : c.Readable around { ctes := before, selfReads := p.selfReads } (.named name none)) :
    d.Precedes c s before after name := by
  obtain hentity | ⟨-, hbefore | ⟨hname, hselfRead⟩⟩ := hread
  · exact .inl hentity
  · exact .inr (.inl hbefore)
  · -- The others around it are planned at last, and after it.
    obtain hnil | ⟨e, he, rfl⟩ := haround name hname
    · cases hnil
    have hrecursive := h.recursive e he hselfRead
    obtain ⟨cte, hstated, hcte⟩ := hfollows.stated
    rw [hsplit, List.mem_append, List.mem_cons] at he
    obtain he | rfl | he := he
    · exact absurd hname (hfollows.free e he)
    · exact absurd hname hfollows.own
    · exact .inr (.inr ⟨⟨e, he, rfl, hrecursive⟩, around, cte, hstated, hcte, hname⟩)

/-- Each common table expression of a block is in order between those before and those after it. -/
theorem Block.ordered (h : c.Block (· ∈ s.passages) [] [] p) (hsplit : p.ctes = before ++ d :: after) :
    d.Ordered c s before after := by
  obtain ⟨around, hfollows, haround⟩ := h.follows before d after hsplit
  refine ⟨fun name hread => ?_, fun u hu name hread => ?_⟩
  · exact h.precedes hsplit hfollows haround (hfollows.anchor.readable hread)
  · obtain hentity | ⟨heq, hbefore | ⟨hname, hselfRead⟩⟩ := (hfollows.union u hu).2.readable hread
    · exact .inl (.inl hentity)
    · exact .inl (.inr (.inl hbefore))
    · obtain rfl | hname := List.mem_cons.mp hname
      · exact .inr ⟨rfl, h.recursive d (hsplit ▸ List.mem_append_right _ List.mem_cons_self) hselfRead⟩
      · exact .inl (h.precedes hsplit hfollows haround (.inr ⟨heq, .inr ⟨hname, hselfRead⟩⟩))

/-- A text with a recursive common table expression says so at its beginning. -/
theorem sketch_recursive {t : TextPlan} (hd : d ∈ t.ctes) (hrecursive : d.recursive = true) :
    ∃ rest, t.sketch c.dialect = .ofText "WITH RECURSIVE " ++ rest := by
  have hne : t.ctes.isEmpty = false := by
    cases hctes : t.ctes with
    | nil =>
      rw [hctes] at hd
      cases hd
    | cons => rfl
  have hany : t.ctes.any (·.recursive) = true := List.any_eq_true.mpr ⟨d, hd, hrecursive⟩
  rw [TextPlan.sketch, sketchCtes, hne, hany]
  exact ⟨_, by rw [if_neg Bool.false_ne_true, if_pos rfl, List.append_assoc, List.append_assoc]⟩

/-- **The order of common table expressions.** They have names of their own, and whatever is read without a schema is
the table of an entity or one of them. Each reads tables of entities and those before it, and in its second query
itself, in which case the text says that there is a recursive one; the exception are those that stand in the second
query of another one, which they may read though it comes after them.

**Proof sketch.** Planning keeps the invariant that the common table expressions so far are a block: their names
differ, each follows those that it reads, and one that stands in a second query was begun before it. The order, and
what may be read of them, is then read off the block at the end. -/
theorem ctes_ordered {job : Job} {results : List Compiled} (h : c.results job = .ok results) :
    ∃ ts, c.texts job = .ok ts ∧ (∀ r ∈ results, ∃ us, us.Sublist ts ∧ c.Composes r us) ∧
      ∀ t ∈ ts, ∃ s ∈ job.statements,
        (t.ctes.map CtePlan.name).Nodup ∧
        (∀ name, t.body.ReadsNamed name → c.OfEntity name none ∨ ∃ d ∈ t.ctes, d.name = name) ∧
        (∀ before d after, t.ctes = before ++ d :: after → d.Ordered c s before after) ∧
        ∀ d ∈ t.ctes, d.recursive = true → ∃ rest, t.sketch c.dialect = .ofText "WITH RECURSIVE " ++ rest := by
  obtain ⟨ts, hts, hcomposed⟩ := texts_of_results h
  refine ⟨ts, hts, hcomposed, fun t ht => ?_⟩
  obtain ⟨s, hs, p, hsourced⟩ := sourced_of_texts hts t ht
  have hblock := hsourced.block
  rw [hsourced.ctes]
  refine ⟨s, hs, hblock.names, fun name hread => ?_, fun before d after hsplit => hblock.ordered hsplit,
    fun d hd hrecursive => sketch_recursive (hsourced.ctes ▸ hd) hrecursive⟩
  obtain hentity | ⟨-, hknown | ⟨hname, -⟩⟩ := hsourced.body.readable hread
  · exact .inl hentity
  · exact .inr hknown
  · cases hname

end Compiler

/-! ## An example -/

/-- The numbers and buyers of orders. -/
def orderPairs (source : Source) : Query :=
  (Query.ofSource source).select (.lambda ["o"]
    (.object [("Id", .member (.param "o") "Id"), ("BuyerId", .member (.param "o") "BuyerId")]))

/-- Orders, and again and again those of their buyers that are among some others. -/
def chain (others : Query) : Query :=
  Query.ofSource (.cte ((Cte.anchored "chain" (orderPairs (.entity "Order"))).unionAllRecursive
    ((orderPairs (.selfRef "chain")).join .inner (.cte (Cte.anchored "others" others)) (.lambda ["o", "other"]
      (.binary .eq (.member (.param "o") "BuyerId") (.member (.param "other") "Id"))))))

/-- The chain of orders lists what it reads before itself, and reads itself. -/
theorem chain_ordered :
    ∃ results t others links, shop.results (.statement (.select (chain (orderPairs (.entity "Order"))))) = .ok results ∧
      shop.texts (.statement (.select (chain (orderPairs (.entity "Order"))))) = .ok [t] ∧ t.ctes = [others, links] ∧
      others.name = "others" ∧ links.name = "chain" ∧
      ∃ s, others.Ordered shop s [] [links] ∧ links.Ordered shop s [others] [] := by
  obtain ⟨results, h⟩ := Except.exists_of_isOk
    (show (shop.results (.statement (.select (chain (orderPairs (.entity "Order")))))).isOk = true by decide +kernel)
  have hnames : (shop.texts (.statement (.select (chain (orderPairs (.entity "Order")))))).map
      (fun ts => ts.map fun t => t.ctes.map (·.name)) = .ok [["others", "chain"]] := by decide +kernel
  obtain ⟨ts, hts, -, hall⟩ := Compiler.ctes_ordered h
  rw [hts] at hnames
  obtain ⟨t, rfl, ht⟩ := List.map_eq_singleton_iff.mp (Except.ok.inj hnames)
  obtain ⟨others, rest, hctes, hothers, hrest⟩ := List.map_eq_cons_iff.mp ht
  obtain ⟨links, rfl, hlinks⟩ := List.map_eq_singleton_iff.mp hrest
  obtain ⟨s, -, -, -, hordered, -⟩ := hall t List.mem_cons_self
  exact ⟨results, t, others, links, h, hts, hctes, hothers, hlinks, s, hordered [] others [links] hctes,
    hordered [others] links [] hctes⟩

/-- What is first met in the second query of `chain` and reads it comes before it. -/
example : (shop.texts (.statement (.select (chain (orderPairs (.selfRef "chain")))))).map
    (fun ts => ts.map fun t => t.ctes.map (·.name)) = .ok [["others", "chain"]] := by decide +kernel

end LambdaSql
