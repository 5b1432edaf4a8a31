import LambdaSql.Proofs.Fetching.Deferral
import LambdaSql.Proofs.Nesting.Texts

/-!
# What selections show

A selection has columns, and an enclosing query sees what it returns. Both are put together in several ways, and
agree: position by position they are of one type and, unless a single computed expression is projected, of one name.
Only what is left for evaluation after fetching adds columns that an enclosing query does not see, and it does so in
any selection whose projection may have to wait, also where nobody will fetch anything.

## Main definitions

* `SelectedOf.shown?` - the name that a selected expression has where it is written.
* `SelectOf.Shows`, `SelectOf.Computes` - selections that show what they return, and those of a single computed
  expression.

## Main results

* `Projected.fits_planProjection` - columns and what is returned, for all projections.
* `Compiler.nested_lists_fit` - the columns of all selections within a statement.
* `Compiler.derived_shows_iff` - what derived tables show.
-/

namespace LambdaSql

open Planning

/-! ## Names -/

/-- The name that a selected expression has where it is written: its alias, or the name of its column. -/
def SelectedOf.shown? : Selected → Option String
  | ⟨_, some aliasName⟩ => some aliasName
  | ⟨.column _ name _, none⟩ => some name
  | ⟨_, none⟩ => none

/-- A selected expression is of the type of what is returned. -/
def SelectedOf.Typed (col : Selected) (o : Output) : Prop := col.node.type = o.type

/-- A selected expression is of the type and of the name of what is returned. -/
def SelectedOf.Fits (col : Selected) (o : Output) : Prop := col.node.type = o.type ∧ col.shown? = some o.name

/-- A node is the column of a table. -/
def Node.isColumn : Node → Bool
  | .column .. => true
  | _ => false

/-- A column that is named where it has to be fits its member. -/
private theorem SelectedOf.fits_aliasFor (name : String) (n : Node) :
    SelectedOf.Fits ⟨n, Projected.aliasFor name n⟩ ⟨name, n.type⟩ := by
  refine ⟨rfl, ?_⟩
  unfold Projected.aliasFor
  split
  · next column _ =>
    split
    · next heq => exact congrArg some heq
    · rfl
  · rfl

/-- A computed column without a name shows none. -/
private theorem SelectedOf.shown?_computed {n : Node} (h : n.isColumn = false) :
    SelectedOf.shown? ⟨n, none⟩ = none := by
  cases n with
  | column => cases h
  | _ => rfl

/-! ## Projections -/

namespace Projected

variable {out out' : Projected} {s : Scope} {p p' : Progress} {name : String} {replacing : Prop}

/-- A projection selects what it returns, name by name, as long as nothing is left for evaluation after fetching;
what is left adds the columns that it reads, between those that are returned. If `replacing`, some members may have
taken the places of others. -/
structure Fits (replacing : Prop) (out : Projected) : Prop where
  length : out.columns.length = out.shape.length + (out.deferred.map (·.columns.length)).sum
  named : out.deferred = [] → List.Forall₂ SelectedOf.Fits out.columns out.shape
  returned : ¬ replacing → ∃ kept, kept.Sublist out.columns ∧ List.Forall₂ SelectedOf.Typed kept out.shape

/-- A projection of nothing but one expression that is no column, which is returned under a name that it does not
have. -/
def Computed (out : Projected) : Prop :=
  ∃ n : Node, n.isColumn = false ∧ out = { columns := [⟨n, none⟩], shape := [⟨"Value", n.type⟩] }

/-- A projection of nothing fits. -/
theorem Fits.empty : Fits replacing {} := ⟨rfl, fun _ => .nil, fun _ => ⟨[], .slnil, .nil⟩⟩

/-- Two lists that correspond do so after corresponding members have been set at one position. -/
theorem forall₂_set {α β : Type} {R : α → β → Prop} {as : List α} {bs : List β} (h : List.Forall₂ R as bs) {a : α}
    {b : β} (hab : R a b) (i : Nat) : List.Forall₂ R (as.set i a) (bs.set i b) := by
  induction h generalizing i with
  | nil => exact .nil
  | cons h hrest ih =>
    cases i with
    | zero => exact .cons hab hrest
    | succ i => exact .cons h (ih i)

/-- A pushed column keeps a projection fitting.

**Proof sketch.** A column takes the place of another with the member of the same name, which only an object that is
laid over does, or both are added at the end. -/
theorem Fits.push (h : out.Fits replacing) (name : String) (n : Node) {replace : Bool} (hr : replace = true → replacing) :
    (out.push name n replace).Fits replacing := by
  have hn := SelectedOf.fits_aliasFor name n
  refine ⟨?_, fun hdeferred => ?_, fun hnot => ?_⟩
  · have hlength := h.length
    unfold Projected.push
    dsimp only
    split
    · simpa using hlength
    · simp only [List.length_append, List.length_singleton]
      omega
  · have hnamed := h.named (deferred_push out name n replace ▸ hdeferred)
    unfold Projected.push
    dsimp only
    split
    · exact forall₂_set hnamed hn _
    · exact List.rel_append hnamed (.cons hn .nil)
  · obtain ⟨kept, hkept, htyped⟩ := h.returned hnot
    unfold Projected.push
    dsimp only
    split
    · exact absurd (hr rfl) hnot
    · exact ⟨kept ++ [_], hkept.append_right _, List.rel_append htyped (.cons hn.1 .nil)⟩

/-- Pushed columns keep a projection fitting. -/
theorem Fits.pushAll (h : out.Fits replacing) (columns : List (String × Node)) : (out.pushAll columns).Fits replacing :=
  List.foldlRecOn columns _ h fun _ hout c _ => hout.push c.1 c.2 nofun

/-- What is left for evaluation after fetching adds the columns that it reads. -/
theorem Fits.leave (h : out.Fits replacing) {e : Expr} (hgives : (out.leave name e).Gives s p out' p') :
    out'.Fits replacing := by
  simp only [Projected.leave, gives_bind, gives_pure] at hgives
  obtain ⟨columns, q, hcolumns, rfl, rfl⟩ := hgives
  refine ⟨?_, fun hdeferred => absurd hdeferred (by simp), fun hnot => ?_⟩
  on_goal 2 =>
    obtain ⟨kept, hkept, htyped⟩ := h.returned hnot
    exact ⟨kept, hkept.trans (List.sublist_append_left ..), htyped⟩
  have hlength := h.length
  have hadded := length_of_gives_mapM hcolumns
  simp only [List.length_append, List.map_append, List.sum_append, List.map_cons, List.map_nil, List.sum_cons,
    List.sum_nil, List.length_map] at *
  omega

/-- A member keeps a projection fitting, as a column or deferred. -/
theorem Fits.member (h : out.Fits replacing) {o : Operand} {replace : Bool}
    (hgives : (out.member name o replace).Gives s p out' p') (hr : replace = true → replacing) :
    out'.Fits replacing := by
  obtain ⟨n, rfl⟩ | ⟨q, hleave⟩ := added_or_left hgives
  · exact h.push name n hr
  · exact h.leave hleave

/-- An object keeps a projection fitting, member by member. -/
theorem Fits.object {named : List (String × Operand)} (h : out.Fits replacing)
    (hgives : (out.object named).Gives s p out' p') : out'.Fits replacing := by
  induction named generalizing out p with
  | nil =>
    obtain ⟨rfl, -⟩ := gives_pure.mp hgives
    exact h
  | cons m rest ih =>
    obtain ⟨name, o⟩ := m
    obtain ⟨g?, q, -, hobject⟩ := gives_bind.mp hgives
    split at hobject
    · split at hobject
      · exact ih (h.pushAll _) hobject
      · obtain ⟨mid, _, hmid, hrest⟩ := gives_bind.mp hobject
        exact ih (h.member hmid nofun) hrest
    · obtain ⟨mid, _, hmid, hrest⟩ := gives_bind.mp hobject
      exact ih (h.member hmid nofun) hrest

/-- The members of an object that is laid over a projection take the places of others. -/
theorem Fits.overlay {named : List (String × Operand)} (h : out.Fits True)
    (hgives : (out.overlay named).Gives s p out' p') : out'.Fits True := by
  induction named generalizing out p with
  | nil =>
    obtain ⟨rfl, -⟩ := gives_pure.mp hgives
    exact h
  | cons m rest ih =>
    obtain ⟨name, o⟩ := m
    obtain ⟨mid, q, hmid, hoverlay⟩ := gives_bind.mp hgives
    exact ih (h.member hmid fun _ => trivial) hoverlay

/-- A projection that builds no object is of a single expression, which may be no column. -/
theorem fits_body {o : Operand} (hgives : (body {} o).Gives s p out p') : out.Fits replacing ∨ out.Computed := by
  obtain ⟨g?, q, -, hbody⟩ := gives_bind.mp hgives
  split at hbody
  · obtain ⟨rfl, -⟩ := gives_pure.mp hbody
    exact .inl (Fits.empty.pushAll _)
  · split at hbody
    · obtain ⟨b, _, -, hcolumns⟩ := gives_bind.mp hbody
      split at hcolumns <;> obtain ⟨rfl, -⟩ := gives_pure.mp hcolumns <;> exact .inl (Fits.empty.pushAll _)
    · obtain ⟨n, rfl⟩ | ⟨q, hleave⟩ := added_or_left hbody
      · cases n with
        | column aliasName column type =>
        exact .inl ⟨rfl, fun _ => .cons ⟨rfl, rfl⟩ .nil, fun _ => ⟨_, .refl _, .cons rfl .nil⟩⟩
        | _ => exact .inr ⟨_, rfl, rfl⟩
      · exact .inl (Fits.empty.leave hleave)

/-- A selection without projection fits its shape. -/
private theorem fits_whole (tables : List TableBinding) (grouping : Option Grouping) :
    (whole tables grouping).Fits replacing := by
  cases grouping with
  | some g => exact Fits.empty.pushAll _
  | none => exact Fits.empty.pushAll _

/-- **All projections** select what they return, but for a single computed expression. Only an object that is laid over
another projection takes the places of what is there.

**Proof sketch.** By the form of the projection: columns and members are pushed together from an empty projection on,
or from that of a whole table. Only a single computed expression is selected without a name. -/
theorem fits_planProjection {tables : List TableBinding} {bindings : List Binding} {grouping : Option Grouping}
    {projection : Option Projection} (h : (planProjection tables bindings grouping projection).Gives s p out p') :
    out.Fits (∃ l, projection = some (.flatten l)) ∨ out.Computed := by
  cases projection with
  | none =>
    obtain ⟨rfl, -⟩ := gives_pure.mp h
    exact .inl (fits_whole ..)
  | some projection =>
    cases projection with
    | select l =>
      obtain ⟨params, body⟩ := l
      cases body with
      | object ms => exact .inl (Fits.empty.object (gives_withFrame.mp h).2)
      | _ => exact fits_body (gives_withFrame.mp h).2
    | flatten l =>
      obtain ⟨params, body⟩ := l
      cases body with
      | object ms =>
        have hfits := Fits.overlay (fits_whole ..) (gives_withFrame.mp h).2
        exact .inl ⟨hfits.length, hfits.named, fun hnot => absurd ⟨_, rfl⟩ hnot⟩
      | _ => exact absurd (gives_withFrame.mp h).2 not_gives_fail

end Projected

/-! ## Selections -/

/-- The columns of a selection are of the types and names of what it returns. -/
def SelectOf.Shows (s : Select) : Prop := List.Forall₂ SelectedOf.Fits s.columns s.shape

/-- A selection is one of a single expression without a name. -/
def SelectOf.Computes (s : Select) : Prop := ∃ n : Node, n.isColumn = false ∧ s.columns = [⟨n, none⟩]

/-- A planned selection has the columns of a projection. -/
theorem projected_of_gives {q : Query} {s : Scope} {p p' : Progress} {sel : Select}
    (h : (planQuery q).Gives s p sel p') :
    ∃ out : Projected, (out.Fits (∃ l, q.projection = some (.flatten l)) ∨ out.Computed) ∧ sel.columns = out.columns ∧
      sel.shape = out.shape ∧ sel.deferred = out.deferred := by
  obtain ⟨source, aliasName, joins, filters, groupBy, having, orderBy, projection, distinct, limit, offset⟩ := q
  simp only [planQuery] at h
  obtain ⟨planned, p₁, -, h₁⟩ := gives_bind.mp h
  obtain ⟨⟨table, first⟩, p₂, -, h₂⟩ := gives_bind.mp h₁
  obtain ⟨⟨joined, tables⟩, p₃, -, h₃⟩ := gives_bind.mp h₂
  obtain ⟨tests, p₄, -, h₄⟩ := gives_bind.mp h₃
  obtain ⟨keys, p₅, -, h₅⟩ := gives_bind.mp h₄
  obtain ⟨out, p₆, hout, h₆⟩ := gives_bind.mp h₅
  simp only [gives_bind, gives_pure] at h₆
  obtain ⟨_, _, -, _, _, -, rfl, -⟩ := h₆
  exact ⟨out, Projected.fits_planProjection hout, rfl, rfl, rfl⟩

/-- A planned selection has a column for each of those that an enclosing query sees, and those that are read by what
is left for evaluation after fetching. -/
theorem length_of_gives {q : Query} {s : Scope} {p p' : Progress} {sel : Select}
    (h : (planQuery q).Gives s p sel p') :
    sel.columns.length = sel.shape.length + (sel.deferred.map (·.columns.length)).sum := by
  obtain ⟨out, hout, hcolumns, hshape, hdeferred⟩ := projected_of_gives h
  rw [hcolumns, hshape, hdeferred]
  obtain hfits | ⟨n, -, rfl⟩ := hout
  · exact hfits.length
  · rfl

/-- A planned selection that leaves nothing has columns of the types of what it returns. -/
private theorem typed_of_gives {q : Query} {s : Scope} {p p' : Progress} {sel : Select}
    (h : (planQuery q).Gives s p sel p') (hnone : sel.deferred = []) :
    List.Forall₂ SelectedOf.Typed sel.columns sel.shape := by
  obtain ⟨out, hout, hcolumns, hshape, hdeferred⟩ := projected_of_gives h
  rw [hcolumns, hshape]
  obtain hfits | ⟨n, -, rfl⟩ := hout
  · exact (hfits.named (hdeferred ▸ hnone)).imp fun _ _ h => h.1
  · exact .cons rfl .nil

/-- What a planned selection returns are columns of it, in their order, whatever is left for evaluation after fetching. -/
theorem returned_of_gives {q : Query} {s : Scope} {p p' : Progress} {sel : Select}
    (h : (planQuery q).Gives s p sel p') (hnot : ¬∃ l, q.projection = some (.flatten l)) :
    ∃ kept, kept.Sublist sel.columns ∧ List.Forall₂ SelectedOf.Typed kept sel.shape := by
  obtain ⟨out, hout, hcolumns, hshape, -⟩ := projected_of_gives h
  rw [hcolumns, hshape]
  obtain hfits | ⟨n, -, rfl⟩ := hout
  · exact hfits.returned hnot
  · exact ⟨_, .refl _, .cons rfl .nil⟩

/-- A planned selection shows what it returns unless it is one of a single computed expression. -/
theorem shows_iff_of_gives {q : Query} {s : Scope} {p p' : Progress} {sel : Select}
    (h : (planQuery q).Gives s p sel p') (hnone : sel.deferred = []) : sel.Shows ↔ ¬ sel.Computes := by
  obtain ⟨out, hout, hcolumns, hshape, hdeferred⟩ := projected_of_gives h
  constructor
  · rintro hshows ⟨n, hn, heq⟩
    rw [SelectOf.Shows, heq] at hshows
    obtain ⟨o, _, ⟨-, hshown⟩, -, -⟩ := List.forall₂_cons_left_iff.mp hshows
    rw [SelectedOf.shown?_computed hn] at hshown
    cases hshown
  · intro hcomputes
    rw [SelectOf.Shows, hcolumns, hshape]
    obtain hfits | ⟨n, hn, rfl⟩ := hout
    · exact hfits.named (hdeferred ▸ hnone)
    · exact absurd ⟨n, hn, hcolumns⟩ hcomputes

/-- What is read from a table with columns of a selection is one of these columns. -/
theorem TableBinding.reads_derived {table : TableBinding} {columns : List Output} (hshape : table.shape = .derived columns)
    {n : Node} (h : (Binding.table table).Reads n) : ∃ o ∈ columns, n = .column table.aliasName o.name o.type := by
  cases h with
  | column hn =>
    unfold TableBinding.column at hn
    rw [hshape] at hn
    dsimp only at hn
    split at hn
    · next o ho =>
      cases hn
      exact ⟨o, List.mem_of_find?_eq_some ho, rfl⟩
    · cases hn
  | row hn =>
    unfold TableBinding.columns at hn
    rw [hshape] at hn
    obtain ⟨o, ho, heq⟩ := List.mem_map.mp hn
    cases heq
    exact ⟨o, ho, rfl⟩

/-- What an enclosing query reads from a selection that shows what it returns is there. -/
theorem SelectOf.Shows.reads {sel : Select} (h : sel.Shows) {table : TableBinding}
    (hshape : table.shape = .derived sel.shape) {n : Node} (hn : (Binding.table table).Reads n) :
    ∃ name type, n = .column table.aliasName name type ∧ ∃ col ∈ sel.columns, col.shown? = some name := by
  obtain ⟨o, ho, rfl⟩ := TableBinding.reads_derived hshape hn
  refine ⟨o.name, o.type, rfl, ?_⟩
  obtain ⟨hlength, hget⟩ := List.forall₂_iff_get.mp h
  obtain ⟨i, rfl⟩ := List.get_of_mem ho
  have hi := lt_of_lt_of_eq i.isLt hlength.symm
  exact ⟨_, List.get_mem sel.columns ⟨i, hi⟩, (hget i hi i.isLt).2⟩

/-! ## Within statements -/

namespace Compiler

variable {c : Compiler} {job : Job} {results : List Compiled} {ts : List TextPlan} {t : TextPlan} {sel : Select}
  {site : Passage → Prop} {p : Progress}

/-- Somewhere, a query is planned as a selection. -/
def PlansAs (c : Compiler) (q : Query) (sel : Select) : Prop :=
  ∃ s p p', s.compiler = c ∧ (planQuery q).Gives s p sel p'

/-- A selection within a statement is planned from one of its queries, unless it is only asked for rows. -/
theorem plansAs_of_nested (h : t.Sourced c site p) {use : Use} (hmem : (use, sel) ∈ t.nested) (huse : use ≠ .tested) :
    ∃ unions q, site (.query use.isTable unions q) ∧ c.PlansAs q sel ∧ (sel.deferred ≠ [] → q.MayWait c.translations) := by
  obtain ⟨around, r, sel', ⟨⟨q, s, p₀, p₁, hsite, hc, hg, hwait⟩, -⟩, heq | ⟨htested, -⟩⟩ := h.nested _ hmem
  · cases heq
    exact ⟨s.unions, q, hsite, ⟨s, p₀, p₁, hc, hg⟩, hwait⟩
  · exact absurd htested huse

/-- **The columns of nested selections.** Each derived table, each query of a common table expression, and each
selection that is a value or in which a value is looked for is one of the queries of its statement. If the
projection of this query does not have to wait until rows have been fetched, the selection leaves nothing for
evaluation after fetching. Where nothing is left, its columns are of the types of what it returns, one by one. Otherwise
it has further columns, those that are read by what is left, which nobody fetches; what it returns are the other ones in
their order, unless an object is laid over the columns of a table, whose members may take the places of such columns. A
common table expression has as many columns as its queries return, and a text leaves for evaluation after fetching what
its own selections do.

**Proof sketch.** A nested selection is planned from a passage of the statement, and what a planned selection leaves is
what its projection does. By the recursion of the projection, each step adds a column to what is selected and to what
is returned alike, or only columns to what is selected. -/
theorem nested_lists_fit (h : c.results job = .ok results) :
    ∃ ts, c.texts job = .ok ts ∧ (∀ r ∈ results, ∃ us, us.Sublist ts ∧ c.Composes r us) ∧
      ∀ t ∈ ts,
        (∀ use sel, (use, sel) ∈ t.nested → use ≠ .tested →
          ∃ s ∈ job.statements, ∃ unions q, .query use.isTable unions q ∈ s.passages ∧ c.PlansAs q sel ∧
            (¬ q.MayWait c.translations → sel.deferred = []) ∧
            (sel.deferred = [] → List.Forall₂ SelectedOf.Typed sel.columns sel.shape) ∧
            ((¬∃ l, q.projection = some (.flatten l)) →
              ∃ kept, kept.Sublist sel.columns ∧ List.Forall₂ SelectedOf.Typed kept sel.shape) ∧
            sel.columns.length = sel.shape.length + (sel.deferred.map (·.columns.length)).sum) ∧
        ∀ d ∈ t.ctes, d.columns.length = d.anchor.shape.length ∧
          ∀ u, d.union = some u → u.shape.length = d.columns.length := by
  obtain ⟨ts, hts, hcomposed⟩ := texts_of_results h
  refine ⟨ts, hts, hcomposed, fun t ht => ?_⟩
  obtain ⟨s, hs, p, hsourced⟩ := sourced_of_texts hts t ht
  refine ⟨fun use sel hmem huse => ?_, fun d hd => ?_⟩
  · obtain ⟨unions, q, hsite, ⟨s', p₀, p₁, hc, hg⟩, hwait⟩ := plansAs_of_nested hsourced hmem huse
    have hnone (hnot : ¬ q.MayWait c.translations) : sel.deferred = [] := by_contra fun hne => hnot (hwait hne)
    exact ⟨s, hs, unions, q, hsite, ⟨s', p₀, p₁, hc, hg⟩, hnone, typed_of_gives hg, returned_of_gives hg,
      length_of_gives hg⟩
  · obtain ⟨before, after, hsplit⟩ := List.append_of_mem hd
    obtain ⟨around, hfollows, -⟩ := hsourced.block.follows before d after (hsourced.ctes ▸ hsplit)
    exact ⟨hfollows.columns, fun u hu => (hfollows.union u hu).1⟩

end Compiler

/-- The customers whose number is a value of an order. -/
def numberedBy (value : Expr) : Query :=
  (Query.ofSource (.entity "Customer")).filter (.lambda ["c"]
    (.call none (some "Sql") "In"
      [.member (.param "c") "Id", .query ((Query.ofSource (.entity "Order")).select (.lambda ["o"] value))]))

/-- The numbers in which the customers' ones are looked for are just what their selection returns. -/
theorem buyers_fit :
    ∃ results t, shop.results (.statement (.select (numberedBy (.member (.param "o") "BuyerId")))) = .ok results ∧
      shop.texts (.statement (.select (numberedBy (.member (.param "o") "BuyerId")))) = .ok [t] ∧
      (∃ sel, (.searched, sel) ∈ t.nested) ∧
      ∀ use sel, (use, sel) ∈ t.nested → use ≠ .tested →
        sel.deferred = [] ∧ List.Forall₂ SelectedOf.Typed sel.columns sel.shape ∧
        sel.columns.length = sel.shape.length + (sel.deferred.map (·.columns.length)).sum := by
  obtain ⟨results, h⟩ : ∃ results,
      shop.results (.statement (.select (numberedBy (.member (.param "o") "BuyerId")))) = .ok results := ⟨_, rfl⟩
  obtain ⟨t, htexts, hnested⟩ : ∃ t,
      shop.texts (.statement (.select (numberedBy (.member (.param "o") "BuyerId")))) = .ok [t] ∧
        ∃ sel, t.nested = [(.searched, sel)] := ⟨_, rfl, _, rfl⟩
  obtain ⟨ts, hts, -, hall⟩ := Compiler.nested_lists_fit h
  cases hts.symm.trans htexts
  refine ⟨results, t, h, htexts, ?_, fun use sel hmem huse => ?_⟩
  · obtain ⟨sel, hsel⟩ := hnested
    exact ⟨sel, hsel ▸ List.mem_singleton_self _⟩
  · obtain ⟨s, hs, unions, q, hsite, -, hnone, htyped, -, hlength⟩ := (hall t List.mem_cons_self).1 use sel hmem huse
    obtain rfl := List.mem_singleton.mp hs
    -- neither of the two queries of the statement has to wait
    have hnot : ¬ q.MayWait shop.translations := by
      have hpassages : (Statement.select (numberedBy (.member (.param "o") "BuyerId"))).passages =
          [.query false [] (numberedBy (.member (.param "o") "BuyerId")),
            .query false [] ((Query.ofSource (.entity "Order")).select (.lambda ["o"] (.member (.param "o") "BuyerId")))] :=
        rfl
      rw [hpassages] at hsite
      simp only [List.mem_cons, Passage.query.injEq, List.not_mem_nil, or_false] at hsite
      obtain ⟨-, -, rfl⟩ | ⟨-, -, rfl⟩ := hsite <;> exact id
    exact ⟨hnone hnot, htyped (hnone hnot), hlength⟩

/-- A value that has to wait until rows have been fetched is looked for among what it reads. -/
example : (shop.select (numberedBy (.call none (some "String") "Format"
    [.constant (.string "{0}"), .member (.param "o") "BuyerId"]))).map (fun r => (r.sql, r.deferred.length)) =
    .ok ("SELECT a.`id` AS `Id`,a.`age` AS `Age` FROM `customer` a WHERE a.`id` IN " ++
      "(SELECT b.`buyer` AS `Value_BuyerId` FROM `orders` b)", 0) := by rfl

namespace Compiler

variable {c : Compiler} {job : Job} {results : List Compiled}

/-- **What derived tables show.** At any depth, a derived table that leaves nothing for evaluation after fetching has
the columns that it returns, with their names, unless it selects a single expression that is no column and has no
name. If it does not, whatever an enclosing query reads from the derived table is a column that is there.

**Proof sketch.** A derived table is planned from a passage of the statement by planning a query. Its select list and
its shape are filled side by side, member by member, and differ in a single case: a lone expression that is no column
gets no name in the list. -/
theorem derived_shows_iff (h : c.results job = .ok results) :
    ∃ ts, c.texts job = .ok ts ∧ (∀ r ∈ results, ∃ us, us.Sublist ts ∧ c.Composes r us) ∧
      ∀ t ∈ ts, ∀ sel, (.derived, sel) ∈ t.nested → sel.deferred = [] →
        (sel.Shows ↔ ¬ sel.Computes) ∧
        (¬ sel.Computes → ∀ table : TableBinding, table.shape = .derived sel.shape →
          ∀ n, (Binding.table table).Reads n →
            ∃ name type, n = .column table.aliasName name type ∧ ∃ col ∈ sel.columns, col.shown? = some name) := by
  obtain ⟨ts, hts, hcomposed⟩ := texts_of_results h
  refine ⟨ts, hts, hcomposed, fun t ht sel hmem hnone => ?_⟩
  obtain ⟨s, hs, p, hsourced⟩ := sourced_of_texts hts t ht
  obtain ⟨unions, q, -, ⟨s', p₀, p₁, -, hg⟩, -⟩ := plansAs_of_nested hsourced hmem nofun
  have hiff := shows_iff_of_gives hg hnone
  exact ⟨hiff, fun hnot table hshape n hn => (hiff.mpr hnot).reads hshape hn⟩

end Compiler

/-- What a value of the orders is, as a table. -/
def tableOf (value : Expr) : Query :=
  Query.ofSource (.derived ((Query.ofSource (.entity "Order")).select (.lambda ["o"] value)))

/-- The buyers of orders and the numbers of the next ones. -/
def buyerAndNext : Expr :=
  .object [("Buyer", .member (.param "o") "BuyerId"),
    ("Next", .binary .add (.member (.param "o") "Id") (.constant (.int 1)))]

/-- A buyer and a computed member are projected in nested columns that show the members. -/
theorem buyerAndNext_shows :
    ∃ results t sel, shop.results (.statement (.select (tableOf buyerAndNext))) = .ok results ∧
      shop.texts (.statement (.select (tableOf buyerAndNext))) = .ok [t] ∧ (.derived, sel) ∈ t.nested ∧
      sel.deferred = [] ∧ sel.columns.length = 2 ∧ sel.Shows := by
  obtain ⟨results, h⟩ : ∃ results, shop.results (.statement (.select (tableOf buyerAndNext))) = .ok results :=
    ⟨_, rfl⟩
  obtain ⟨top, sel, htexts, hrows, hnone, hlength⟩ : ∃ top sel,
      shop.texts (.statement (.select (tableOf buyerAndNext))) = .ok [⟨[], .select top⟩] ∧
        top.table.rows = .derived sel ∧ sel.deferred = [] ∧ sel.columns.length = 2 := ⟨_, _, rfl, rfl, rfl, rfl⟩
  obtain ⟨ts, hts, -, hall⟩ := Compiler.derived_shows_iff h
  cases hts.symm.trans htexts
  have hmem : (.derived, sel) ∈ (TextPlan.mk [] (.select top)).nested := by
    refine List.mem_append_left _ (mem_selectSelections.mpr (.inr (.inl ?_)))
    rw [hrows]
    exact List.mem_cons_self
  refine ⟨results, _, sel, h, htexts, hmem, hnone, hlength, (hall _ List.mem_cons_self sel hmem hnone).1.mpr ?_⟩
  rintro ⟨n, -, heq⟩
  rw [heq] at hlength
  cases hlength

/-- A single computed expression is read by a name that it does not have. -/
example : (shop.select (tableOf (.binary .add (.member (.param "o") "Id") (.constant (.int 1))))).map (·.sql) =
    .ok "SELECT a.`Value` FROM (SELECT a.`id`+1 FROM `orders` a) a" := by rfl

end LambdaSql
