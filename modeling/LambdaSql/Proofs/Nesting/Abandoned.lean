import LambdaSql.Proofs.Naming.Resolution
import LambdaSql.Proofs.Nesting.Queries
import LambdaSql.Statement.Compile

/-!
# What giving up a projected expression leaves behind

A projected expression is left for evaluation after fetching where planning comes to a call that has to wait, which may
be after parts of it have been planned. The aliases that were used up are free again. The common table expressions that
were planned stay planned, though what is written then may not read them, and so stays what was found to read itself.
Nothing else is left behind, and nothing at all by an expression that reads no common table expression.

## Main definitions

* `CteOf.PlannedAs` - a common table expression and what it was planned as.
* `Progress.GrownFrom` - what has been added to some progress.
* `Invariant.growth` - the invariant that planning adds nothing else.

## Main results

* `Planning.grown_of_waits` - what has been added where planning waits.
* `Planning.traces_of_giving_up` - what a projected expression leaves behind when it is given up.
-/

namespace LambdaSql

open Planning

/-- Within the second queries of some common table expressions, a common table expression was planned. -/
def CteOf.PlannedAs (c : Compiler) (unions : List String) (cte : Cte) (d : CtePlan) : Prop :=
  ∃ s p q, s.compiler = c ∧ s.unions = unions ∧ (planParts cte).Gives s p d q

/-- What has been added to some progress: common table expressions of a site, and reads of these by themselves and of
those in whose second queries something is planned. -/
structure Progress.GrownFrom (c : Compiler) (site : Passage → Prop) (start : Progress) (unions : List String)
    (p : Progress) (added : List CtePlan) (reads : List String) : Prop where
  ctes : p.ctes = start.ctes ++ added
  selfReads : p.selfReads = reads ++ start.selfReads
  stated : ∀ d ∈ added, ∃ around cte, site (.cte around cte) ∧ cte.PlannedAs c around d
  named : ∀ name ∈ reads, name ∈ unions ∨ ∃ d ∈ added, d.name = name

namespace Progress.GrownFrom

variable {c : Compiler} {site : Passage → Prop} {start p : Progress} {unions : List String} {added : List CtePlan}
  {reads : List String} {name : String}

/-- Nothing has grown at the start. -/
private theorem start_self : GrownFrom c site p unions p [] [] :=
  ⟨(List.append_nil _).symm, rfl, List.forall_mem_nil _, List.forall_mem_nil _⟩

/-- A further read by a second query leaves the growth as it was. -/
theorem reread (h : GrownFrom c site start unions p added reads) (hname : name ∈ unions) :
    GrownFrom c site start unions { p with selfReads := name :: p.selfReads } added (name :: reads) :=
  { h with
    selfReads := congrArg (name :: ·) h.selfReads
    named := List.forall_mem_cons.mpr ⟨.inl hname, h.named⟩ }

/-- What has grown has grown within a further second query. -/
theorem recursing (h : GrownFrom c site start unions p added reads) :
    GrownFrom c site start (name :: unions) p added reads :=
  { h with named := fun n hn => (h.named n hn).imp (List.mem_cons_of_mem _) id }

/-- A common table expression that is no longer underway has been added. -/
theorem left {d : CtePlan} (h : GrownFrom c site start (d.name :: unions) p added reads) {around : List String}
    {cte : Cte} (hsite : site (.cte around cte)) (hd : cte.PlannedAs c around d) :
    GrownFrom c site start unions { p with ctes := p.ctes ++ [d] } (added ++ [d]) reads where
  ctes := by rw [h.ctes, List.append_assoc]
  selfReads := h.selfReads
  stated := by
    rw [List.forall_mem_append]
    exact ⟨h.stated, List.forall_mem_singleton.mpr ⟨around, cte, hsite, hd⟩⟩
  named n hn := by
    obtain hmem | ⟨e, he, heq⟩ := h.named n hn
    · obtain rfl | hmem := List.mem_cons.mp hmem
      · exact .inr ⟨d, List.mem_append_right _ List.mem_cons_self, rfl⟩
      · exact .inl hmem
    · exact .inr ⟨e, List.mem_append_left _ he, heq⟩

end Progress.GrownFrom

/-- Planning adds common table expressions of a site to some progress. -/
def Invariant.growth (c : Compiler) (site : Passage → Prop) (start : Progress) : Invariant where
  compiler := c
  site := site
  node _ _ _ := True
  select _ _ _ _ := True
  rows _ _ _ := True
  progress unions _ p := ∃ added reads, start.GrownFrom c site unions p added reads
  hereditary _ _ := by constructor <;> intros <;> simp
  node_later _ h := h
  node_within _ h := h
  select_later _ h := h
  rows_later _ h := h
  column := trivial
  valued _ := trivial
  searched _ _ := trivial
  tested _ := trivial
  counted _ := trivial
  entity _ := trivial
  derived _ := trivial
  known _ := trivial
  selfRead _ _ := trivial
  planned _ _ _ _ _ := trivial
  aliased _ := fun ⟨added, reads, h⟩ => ⟨added, reads, { h with }⟩
  reread := fun ⟨added, reads, h⟩ hname => ⟨added, _ :: reads, h.reread hname⟩
  entered h _ _ := h
  recursing := fun ⟨added, reads, h⟩ _ => ⟨added, reads, h.recursing⟩
  left := by
    intro cte under s p d q hc _ _ _ hsite hg _ hnone hsome
    obtain ⟨hname, -, r, -, hunion⟩ := gives_planParts hg
    rw [← hname] at hsome
    have hgrown : ∃ added reads, start.GrownFrom c site (d.name :: s.unions) q added reads := by
      obtain ⟨-, hu, -⟩ | ⟨_, u, -, hu, -⟩ := hunion
      · obtain ⟨added, reads, h⟩ := hnone hu
        exact ⟨added, reads, h.recursing⟩
      · exact (hsome u hu).2
    obtain ⟨added, reads, h⟩ := hgrown
    exact ⟨added ++ [d], reads, h.left hsite ⟨s, p, q, hc, rfl, hg⟩⟩

namespace Planning

variable {s : Scope} {p q : Progress} {e : Expr}

/-- Where planning an expression waits, the expression contains a call that may have to, and progress has grown by
common table expressions within the expression.

**Proof sketch.** Where planning waits, it has kept every invariant. The one used here says that whatever is there was
there in the beginning or was added for a common table expression of a site. -/
theorem grown_of_waits (hs : ∀ name ∈ s.unions, name ∈ s.underway) (h : (operand e).value.Waits s p q) :
    e.MayWait s.compiler.translations ∧ ∃ added reads,
      p.GrownFrom s.compiler (· ∈ e.passages s.unions) s.unions q added reads := by
  let J := Invariant.growth s.compiler (· ∈ e.passages s.unions) p
  have hat : J.At s.unions s p :=
    { compiler := rfl
      standing := rfl
      underway := hs
      frames := fun _ _ _ _ _ _ => trivial
      progress := ⟨[], [], .start_self⟩ }
  have hends : e.Ends J (e.MayWait s.compiler.translations) s.unions := e.ends (fun _ hx => hx) id
  obtain ⟨hgrown, -, hwait, -⟩ := (hends.operand.value hat).waits h
  exact ⟨hwait, hgrown⟩

/-- **What a projected expression leaves behind when it is given up**, after any progress. It contains a call that may
have to wait. The aliases it used are free again. The common table expressions that it reads and that were planned
before planning came to the call are there, and so are reads of common table expressions by themselves; these are the
ones that were added or those in whose second queries the expression stands. An expression that reads no common table
expression adds none, and leaves nothing behind unless it stands in a second query.

**Proof sketch.** Induction on the planning up to the call that waits: what has been added by then was planned for
passages of the expression, and nothing is taken away. Giving up restores the aliases only. -/
theorem traces_of_giving_up (hs : ∀ name ∈ s.unions, name ∈ s.underway)
    (h : (projected (operand e).value).Gives s p none q) :
    e.MayWait s.compiler.translations ∧ q.nextAlias = p.nextAlias ∧
      ∃ added reads, q.ctes = p.ctes ++ added ∧ q.selfReads = reads ++ p.selfReads ∧
        (∀ d ∈ added, ∃ unions cte, .cte unions cte ∈ e.passages s.unions ∧ cte.PlannedAs s.compiler unions d) ∧
        (∀ name ∈ reads, name ∈ s.unions ∨ ∃ d ∈ added, d.name = name) ∧
        ((∀ unions cte, .cte unions cte ∉ e.passages s.unions) → added = [] ∧ (s.unions = [] → q = p)) := by
  obtain ⟨n, heq, -⟩ | ⟨-, r, hwaits, rfl⟩ := cases_of_projected h
  · cases heq
  obtain ⟨hwait, added, reads, hgrown⟩ := grown_of_waits (s := { s with inProjection := true }) hs hwaits
  refine ⟨hwait, rfl, added, reads, hgrown.ctes, hgrown.selfReads, hgrown.stated, hgrown.named, fun hnone => ?_⟩
  have hadded : added = [] := by
    refine List.eq_nil_iff_forall_not_mem.mpr fun d hd => ?_
    obtain ⟨unions, cte, hmem, -⟩ := hgrown.stated d hd
    exact hnone unions cte hmem
  refine ⟨hadded, fun hunions => ?_⟩
  have hreads : reads = [] := by
    refine List.eq_nil_iff_forall_not_mem.mpr fun name hname => ?_
    obtain hmem | ⟨d, hd, -⟩ := hgrown.named name hname
    · exact absurd (hunions ▸ hmem) List.not_mem_nil
    · exact absurd (hadded ▸ hd) List.not_mem_nil
  have hctes := hgrown.ctes
  have hselfReads := hgrown.selfReads
  rw [hadded, List.append_nil] at hctes
  rw [hreads, List.nil_append] at hselfReads
  rw [hctes, hselfReads]

end Planning

/-! ## An example -/

/-- There are orders of a common table expression, and a text that has to wait is that of the number of an order. -/
def labelledAmongAll : Expr :=
  .binary .and
    (.call none (some "Sql") "Exists" [.query (Query.ofSource (.cte (Cte.anchored "all"
      (Query.ofSource (.entity "Order")))))])
    (.binary .eq (.call none (some "String") "Format" [.constant (.string "{0}"), .member (.param "o") "Id"])
      (.constant (.string "1")))

/-- A scope in which `o` is an order. -/
def orderScope : Scope where
  compiler := shop
  frames := [[("o", .table ⟨"Order", some "a", .derived [⟨"Id", .int32⟩]⟩)]]

/-- The common table expression stays planned. -/
theorem labelledAmongAll_traces : ∃ q added reads,
    (projected (operand labelledAmongAll).value).Gives orderScope {} none q ∧ q.nextAlias = 0 ∧
      q.ctes = added ∧ added.map (·.name) = ["all"] ∧ q.selfReads = reads ∧
      ∀ d ∈ added, ∃ unions cte, .cte unions cte ∈ labelledAmongAll.passages [] ∧ cte.PlannedAs shop unions d := by
  obtain ⟨q, h, hnames⟩ : ∃ q, (projected (operand labelledAmongAll).value).Gives orderScope {} none q ∧
      q.ctes.map (·.name) = ["all"] := ⟨_, rfl, rfl⟩
  obtain ⟨-, halias, added, reads, hctes, hreads, hstated, -⟩ := Planning.traces_of_giving_up (List.forall_mem_nil _) h
  rw [List.nil_append] at hctes
  rw [List.append_nil] at hreads
  exact ⟨q, added, reads, h, halias, hctes, hctes ▸ hnames, hreads, hstated⟩

/-- Nothing that is written reads the common table expression, which is written all the same. -/
example :
    (shop.select ((Query.ofSource (.entity "Order")).select (.lambda ["o"]
      (.object [("Id", .member (.param "o") "Id"), ("Label", labelledAmongAll)])))).map (·.sql) =
    .ok ("WITH `all`(`Id`,`BuyerId`) AS \n(\nSELECT a.`id` AS `Id`,a.`buyer` AS `BuyerId` FROM `orders` a\n)\n" ++
      "SELECT a.`id` AS `Id`,a.`id` AS `Label_Id` FROM `orders` a") := by
  rfl

end LambdaSql
