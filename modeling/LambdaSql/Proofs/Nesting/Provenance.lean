import LambdaSql.Proofs.Naming.Occurrence
import LambdaSql.Proofs.Nesting.Ends

/-!
# Where selections come from

Each selection within a planned statement is what some query of the statement was planned as, and each table it
reads is that of an entity or a common table expression: one planned before, or one in whose second query it
stands. Here is the invariant of planning that says so.

## Main definitions

* `Compiler.Readable` - what may be read where something is planned.
* `Compiler.Planned`, `Compiler.Nested` - selections that were planned from a query, and how they stand in others.
* `CtePlan.Follows` - a common table expression that may follow others.
* `Compiler.Block` - common table expressions planned so far.
* `Compiler.provenance` - the invariant.
-/

namespace LambdaSql

open Planning

namespace Compiler

variable (c : Compiler) (site : Passage → Prop)

/-- A table is that of an entity. -/
def OfEntity (name : String) (schema : Option String) : Prop :=
  ∃ entity e, c.model.entity entity = .ok e ∧ e.table = name ∧ e.schema = schema

/-- What may be read within the second queries of some common table expressions: tables of entities, common table
expressions planned before, and those of the second queries. -/
def Readable (unions : List String) (p : Progress) : Rows → Prop
  | .named name schema => c.OfEntity name schema ∨
      schema = none ∧ ((∃ d ∈ p.ctes, d.name = name) ∨ name ∈ unions ∧ name ∈ p.selfReads)
  | .derived _ => True

/-- A selection was planned from a query, which may have to wait if something is left for evaluation after fetching,
and it reads what may be read. -/
structure Planned (asTable : Bool) (unions : List String) (p : Progress) (sel : Select) : Prop where
  origin : ∃ q s p₀ p₁, site (.query asTable s.unions q) ∧ s.compiler = c ∧ (planQuery q).Gives s p₀ sel p₁ ∧
    (sel.deferred ≠ [] → q.MayWait c.translations)
  tables : ∀ t ∈ sel.tables, c.Readable unions p t.rows

/-- A selection within another one was planned. Where it is only asked for rows, it may be without columns. -/
def Nested (unions : List String) (p : Progress) (x : Use × Select) : Prop :=
  ∃ sel, c.Planned site x.1.isTable unions p sel ∧ (x.2 = sel ∨ x.1 = .tested ∧ x.2 = Lowering.withoutColumns sel)

/-- A selection was planned, and so were those within it. -/
structure Sourced (asTable : Bool) (unions : List String) (p : Progress) (sel : Select) : Prop where
  planned : c.Planned site asTable unions p sel
  nested : ∀ x ∈ selectSelections sel, c.Nested site unions p x

variable {c site} {asTable : Bool} {unions : List String} {p q : Progress} {name : String} {x : Use × Select} {r : Rows}
  {sel : Select}

/-! ## Later, and within a second query -/

/-- What may be read may be read later. -/
theorem Readable.later (h : c.Readable unions p r) (hle : p.Before q) : c.Readable unions q r := by
  cases r with
  | derived => trivial
  | named name schema =>
    obtain h | ⟨hs, ⟨d, hd, hname⟩ | ⟨hname, hread⟩⟩ := h
    · exact .inl h
    · exact .inr ⟨hs, .inl ⟨d, hle.ctes.subset hd, hname⟩⟩
    · exact .inr ⟨hs, .inr ⟨hname, hle.selfReads.subset hread⟩⟩

/-- What may be read may be read within a further second query. -/
theorem Readable.within (h : c.Readable unions p r) (name : String) : c.Readable (name :: unions) p r := by
  cases r with
  | derived => trivial
  | named => exact h.imp id fun h => ⟨h.1, h.2.imp id fun h => ⟨List.mem_cons_of_mem _ h.1, h.2⟩⟩

/-- What has been planned counts as planned later. -/
theorem Planned.later (h : c.Planned site asTable unions p sel) (hle : p.Before q) :
    c.Planned site asTable unions q sel :=
  { h with tables := fun t ht => (h.tables t ht).later hle }

/-- What has been planned counts as planned within a further second query. -/
theorem Planned.within (h : c.Planned site asTable unions p sel) (name : String) :
    c.Planned site asTable (name :: unions) p sel :=
  { h with tables := fun t ht => (h.tables t ht).within name }

/-- A selection within another one that was planned counts as planned later. -/
theorem Nested.later (h : c.Nested site unions p x) (hle : p.Before q) : c.Nested site unions q x := by
  obtain ⟨sel, hsel, hx⟩ := h
  exact ⟨sel, hsel.later hle, hx⟩

/-- A selection within another one that was planned counts as planned within a further second query. -/
theorem Nested.within (h : c.Nested site unions p x) (name : String) : c.Nested site (name :: unions) p x := by
  obtain ⟨sel, hsel, hx⟩ := h
  exact ⟨sel, hsel.within name, hx⟩

/-- A query that has been planned counts as planned later. -/
theorem Sourced.later (h : c.Sourced site asTable unions p sel) (hle : p.Before q) :
    c.Sourced site asTable unions q sel :=
  ⟨h.planned.later hle, fun x hx => (h.nested x hx).later hle⟩

/-- A selection that was planned stands in another one with all that is within it. -/
theorem Sourced.mem (use : Use) (h : c.Sourced site use.isTable unions p sel)
    (hx : x ∈ (use, sel) :: selectSelections sel) :
    c.Nested site unions p x := by
  obtain rfl | hx := List.mem_cons.mp hx
  · exact ⟨sel, h.planned, .inl rfl⟩
  · exact h.nested x hx

/-- Without its columns, a selection has no more within it. -/
theorem mem_withoutColumns (hx : x ∈ selectSelections (Lowering.withoutColumns sel)) : x ∈ selectSelections sel := by
  rw [mem_selectSelections] at hx ⊢
  obtain ⟨col, hcol, hx⟩ | hx := hx
  · rw [List.mem_singleton.mp hcol] at hx
    cases hx
  · exact .inr hx

/-! ## Blocks -/

end Compiler

/-- A common table expression follows others: they are none of those in whose second queries it stands, its queries
were planned after them, and they return as many columns as it has. -/
structure CtePlan.Follows (c : Compiler) (site : Passage → Prop) (unions selfReads : List String)
    (before : List CtePlan) (d : CtePlan) : Prop where
  stated : ∃ cte, site (.cte unions cte) ∧ cte.name = d.name
  own : d.name ∉ unions
  free : ∀ e ∈ before, e.name ∉ unions
  columns : d.columns.length = d.anchor.shape.length
  anchor : c.Sourced site true unions { ctes := before, selfReads } d.anchor
  union : ∀ u, d.union = some u →
    u.shape.length = d.columns.length ∧ c.Sourced site true (d.name :: unions) { ctes := before, selfReads } u

/-- What follows others still does so when more has been read. -/
theorem CtePlan.Follows.later {c : Compiler} {site : Passage → Prop} {unions reads reads' : List String} {before : List CtePlan} {d : CtePlan}
    (h : d.Follows c site unions reads before) (hle : reads <:+ reads') :
    d.Follows c site unions reads' before := by
  have hbefore : Progress.Before { ctes := before, selfReads := reads } { ctes := before, selfReads := reads' } :=
    ⟨List.prefix_refl _, hle⟩
  exact { h with
    anchor := h.anchor.later hbefore
    union := fun u hu => ⟨(h.union u hu).1, (h.union u hu).2.later hbefore⟩ }

namespace Compiler

/-- The common table expressions planned so far have names of their own, none of which is underway, they follow each
other, and those that were read by their own second query are recursive. -/
structure Block (c : Compiler) (site : Passage → Prop) (unions under : List String) (p : Progress) : Prop where
  standing : ∀ name ∈ unions, name ∈ under
  names : (p.ctes.map CtePlan.name).Nodup
  free : ∀ d ∈ p.ctes, d.name ∉ under
  selfReads : ∀ name ∈ p.selfReads, name ∈ unions ∨ ∃ d ∈ p.ctes, d.name = name
  recursive : ∀ d ∈ p.ctes, d.name ∈ p.selfReads → d.recursive = true
  follows : ∀ before d after, p.ctes = before ++ d :: after →
    ∃ around, d.Follows c site around p.selfReads before ∧
      ∀ name ∈ around, name ∈ under ∨ ∃ e ∈ p.ctes, e.name = name

namespace Block

variable {c : Compiler} {site : Passage → Prop} {unions under : List String} {p : Progress} {name : String}

/-- No common table expressions at the start are a block. -/
theorem start : Block c site [] [] {} where
  standing := List.forall_mem_nil _
  names := List.nodup_nil
  free := List.forall_mem_nil _
  selfReads := List.forall_mem_nil _
  recursive := List.forall_mem_nil _
  follows _ _ _ h := absurd h.symm (List.append_ne_nil_of_right_ne_nil _ (List.cons_ne_nil _ _))

/-- The aliases that are taken do not matter to a block. -/
theorem aliased (h : Block c site unions under p) (position : Nat) :
    Block c site unions under { p with nextAlias := position } := { h with }

/-- A further read by a second query does not matter to a block. -/
theorem reread (h : Block c site unions under p) (hname : name ∈ unions) :
    Block c site unions under { p with selfReads := name :: p.selfReads } :=
  { h with
    selfReads := List.forall_mem_cons.mpr ⟨.inl hname, h.selfReads⟩
    recursive := fun d hd hread => by
      obtain rfl | hread := List.mem_cons.mp hread
      · exact absurd (h.standing _ hname) (h.free d hd)
      · exact h.recursive d hd hread
    follows := fun before d after heq => by
      obtain ⟨around, hfollows, haround⟩ := h.follows before d after heq
      exact ⟨around, hfollows.later (List.suffix_cons ..), haround⟩ }

/-- A block stays one when the planning of a further name begins. -/
theorem entered (h : Block c site unions under p) (hname : ∀ d ∈ p.ctes, d.name ≠ name) :
    Block c site unions (name :: under) p :=
  { h with
    standing := fun n hn => List.mem_cons_of_mem _ (h.standing n hn)
    free := fun d hd hmem => by
      obtain heq | hmem := List.mem_cons.mp hmem
      · exact hname d hd heq
      · exact h.free d hd hmem
    follows := fun before d after heq => by
      obtain ⟨around, hfollows, haround⟩ := h.follows before d after heq
      exact ⟨around, hfollows, fun n hn => (haround n hn).imp (List.mem_cons_of_mem _) id⟩ }

/-- A block stays one within the second query of a name that is underway. -/
theorem recursing (h : Block c site unions under p) (hname : name ∈ under) :
    Block c site (name :: unions) under p :=
  { h with
    standing := List.forall_mem_cons.mpr ⟨hname, h.standing⟩
    selfReads := fun n hn => (h.selfReads n hn).imp (List.mem_cons_of_mem _) id }

/-- A common table expression that is no longer underway follows those planned before it.

**Proof sketch.** The new common table expression comes last. Reads of its name were reads of one underway and are now
reads of one that is there. -/
theorem left {d : CtePlan} (h : Block c site (d.name :: unions) (d.name :: under) p)
    (hunions : ∀ n ∈ unions, n ∈ under) (hname : d.name ∉ under)
    (hfollows : d.Follows c site unions p.selfReads p.ctes) (hrecursive : d.name ∈ p.selfReads → d.recursive = true) :
    Block c site unions under { p with ctes := p.ctes ++ [d] } where
  standing := hunions
  names := by
    rw [List.map_append, List.map_singleton, List.nodup_append]
    refine ⟨h.names, List.nodup_singleton _, fun n hn m hm => ?_⟩
    obtain ⟨e, he, rfl⟩ := List.mem_map.mp hn
    rw [List.mem_singleton.mp hm]
    exact fun heq => h.free e he (heq ▸ List.mem_cons_self)
  free := by
    rw [List.forall_mem_append]
    exact ⟨fun e he hmem => h.free e he (List.mem_cons_of_mem _ hmem), List.forall_mem_singleton.mpr hname⟩
  selfReads n hn := by
    -- what was underway outside still is
    obtain hmem | ⟨e, he, heq⟩ := h.selfReads n hn
    · obtain rfl | hmem := List.mem_cons.mp hmem
      · exact .inr ⟨d, List.mem_append_right _ List.mem_cons_self, rfl⟩
      · exact .inl hmem
    · exact .inr ⟨e, List.mem_append_left _ he, heq⟩
  recursive := by
    rw [List.forall_mem_append]
    exact ⟨h.recursive, List.forall_mem_singleton.mpr hrecursive⟩
  follows before e after heq := by
    -- The last common table expression is the new one, and the others were there.
    obtain rfl | ⟨after, last, rfl⟩ := List.eq_nil_or_concat after
    · obtain ⟨rfl, hlast⟩ := List.append_inj' heq rfl
      cases hlast
      exact ⟨unions, hfollows, fun n hn => .inl (hunions n hn)⟩
    · have hsplit : p.ctes ++ [d] = (before ++ e :: after) ++ [last] := heq.trans (by simp)
      obtain ⟨hctes, -⟩ := List.append_inj' hsplit rfl
      obtain ⟨around, hfollows, haround⟩ := h.follows before e after hctes
      refine ⟨around, hfollows, fun n hn => ?_⟩
      obtain hmem | ⟨e, he, heq⟩ := haround n hn
      · obtain rfl | hmem := List.mem_cons.mp hmem
        · exact .inr ⟨d, List.mem_append_right _ List.mem_cons_self, rfl⟩
        · exact .inl hmem
      · exact .inr ⟨e, List.mem_append_left _ he, heq⟩

end Block

/-! ## The invariant -/

/-- Planning of the parts of a statement gives selections that come from its queries. -/
def provenance (c : Compiler) (site : Passage → Prop) : Invariant where
  compiler := c
  site := site
  node unions p n := ∀ x ∈ n.selections, c.Nested site unions p x
  select := c.Sourced site
  rows unions p r := c.Readable unions p r ∧ ∀ x ∈ rowsSelections r, c.Nested site unions p x
  progress := Block c site
  hereditary _ _ := Node.hereditary_selections _
  node_later hle h x hx := (h x hx).later hle
  node_within name h x hx := (h x hx).within name
  select_later hle h := h.later hle
  rows_later hle h := ⟨h.1.later hle, fun x hx => (h.2 x hx).later hle⟩
  column := List.forall_mem_nil _
  valued h _ hx := Sourced.mem .valued h hx
  searched hn h _ hx := (List.mem_append.mp hx).elim (hn _) (Sourced.mem .searched h)
  tested h _ hx := Sourced.mem .tested h hx
  counted h x hx := by
    obtain rfl | hx := List.mem_cons.mp hx
    · exact ⟨_, h.planned, .inr ⟨rfl, rfl⟩⟩
    · exact h.nested x (mem_withoutColumns hx)
  entity he := ⟨.inl ⟨_, _, he, rfl, rfl⟩, List.forall_mem_nil _⟩
  derived h := ⟨trivial, fun _ hx => Sourced.mem .derived h hx⟩
  known hd := ⟨.inr ⟨rfl, .inl ⟨_, hd, rfl⟩⟩, List.forall_mem_nil _⟩
  selfRead hname hread := ⟨.inr ⟨rfl, .inr ⟨hname, hread⟩⟩, List.forall_mem_nil _⟩
  planned := by
    intro asTable q s p sel p' hc hsite hg hparts hdeferred
    refine ⟨⟨⟨q, s, p, p', hsite, hc, hg, hdeferred⟩, ?_⟩, fun x hx => ?_⟩
    · exact List.forall_mem_cons.mpr
        ⟨hparts.table.1, List.forall_mem_map.mpr fun j hj => (hparts.joins j hj).1.1⟩
    · obtain ⟨col, hcol, hx⟩ | hx | ⟨j, hj, hx | hx⟩ | ⟨n, hn, hx⟩ | ⟨n, hn, hx⟩ | ⟨n, hn, hx⟩ | ⟨k, hk, hx⟩ :=
        mem_selectSelections.mp hx
      · exact hparts.columns col hcol x hx
      · exact hparts.table.2 x hx
      · exact (hparts.joins j hj).1.2 x hx
      · exact (hparts.joins j hj).2 x hx
      · exact hparts.filter n hn x hx
      · exact hparts.groupBy n hn x hx
      · exact hparts.having n hn x hx
      · exact hparts.orderBy k hk x hx
  aliased position h := h.aliased position
  reread h hname := h.reread hname
  entered h _ hname := h.entered hname
  recursing h hname := h.recursing hname
  left := by
    intro cte under s p d q hc hunder hunions hname hsite hg hanchor hnone hsome
    obtain ⟨hdname, hcolumns, r, -, hunion⟩ := gives_planParts hg
    rw [← hdname] at hname hnone hsome
    have hfirst := hanchor.later (.aliased q 0)
    obtain ⟨-, hu, rfl⟩ | ⟨_, u, -, hu, -, hlength, hrecursive⟩ := hunion
    · have h := hnone hu
      refine (h.recursing List.mem_cons_self).left hunions hname ?_ fun hread => ?_
      · exact ⟨⟨cte, hsite, hdname.symm⟩, fun hmem => hname (hunions _ hmem),
          fun e he hmem => h.free e he (List.mem_cons_of_mem _ (hunions _ hmem)), hcolumns, hfirst,
          fun v hv => by rw [hu] at hv; cases hv⟩
      · -- Without a second query nothing could read it.
        obtain hmem | ⟨e, he, heq⟩ := h.selfReads _ hread
        · exact absurd (hunions _ hmem) hname
        · exact absurd (heq ▸ List.mem_cons_self) (h.free e he)
    · obtain ⟨hsecond, h⟩ := hsome u hu
      refine h.left hunions hname ?_ fun hread => ?_
      · refine ⟨⟨cte, hsite, hdname.symm⟩, fun hmem => hname (hunions _ hmem),
          fun e he hmem => h.free e he (List.mem_cons_of_mem _ (hunions _ hmem)), hcolumns, hfirst, fun v hv => ?_⟩
        rw [hu] at hv
        cases hv
        exact ⟨hlength, hsecond.later (.aliased q 0)⟩
      · rw [hrecursive, ← hdname]
        simp [hread]

end Compiler

end LambdaSql
