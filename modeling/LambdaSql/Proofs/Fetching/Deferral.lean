import LambdaSql.Proofs.Binding.Jobs
import LambdaSql.Proofs.Fetching.Reads
import LambdaSql.Proofs.Naming.Resolution

/-!
# Expressions left for evaluation after fetching

A projected expression without a form in the database is left for evaluation after fetching. The columns that it
reads are selected under names made from its own name and theirs, and evaluating it means looking them up by
these names. Once something else is selected under one of the names, the look-up may find that instead: of two
columns of one name, the first one counts. If all columns of such a name are the same, the value of the
expression is the one that it has on the row.

## Main definitions

* `Scope.columnOf?` - the column or the group key that a member of a lambda parameter is.
* `Projected.Held` - the columns that expressions read are selected.
* `Query.Opens`, `Query.projectionScope` - what the projection of a query sees.
* `Fetches` - a fetched row.

## Main results

* `Projected.held_object`, `Projected.held_overlay`, `Projected.held_body` - the forms of projections.
* `Compiler.deferred_faithful` - projections left for evaluation after fetching have the right value.
-/

namespace LambdaSql

open Planning

/-! ## Columns of members -/

/-- The column or the group key that a member of a lambda parameter is. -/
def Scope.columnOf? (s : Scope) (param member : String) : Option Node :=
  match s.binding? param with
  | some (.table t) => (t.column member).toOption
  | some (.grouping g) => (g.key member).toOption
  | none => none

/-- The columns that an expression reads, under names of their own. -/
def Expr.hiddenColumns (name : String) (e : Expr) : List HiddenColumn :=
  e.reads.map fun read => ⟨read.1, read.2, name ++ "_" ++ read.2⟩

namespace Projected

variable {s : Scope} {p p' : Progress} {out out' : Projected} {name : String} {first : Nat}

/-- The column that is planned for a member of a parameter is the one that the scope has for it. -/
private theorem columnOf?_of_gives {param member : String} {n : Node} (h : (columnOf param member).Gives s p n p') :
    s.columnOf? param member = some n ∧ p' = p := by
  simp only [columnOf, gives_bind, gives_lookup] at h
  obtain ⟨b, _, ⟨hb, rfl⟩, h⟩ := h
  cases b with
  | table t | grouping g =>
    obtain ⟨hn, rfl⟩ := gives_ofExcept.mp h
    simp [Scope.columnOf?, hb, hn, Except.toOption]

/-- The columns that an expression reads are selected. -/
theorem selected_hidden {hidden : List HiddenColumn} {columns : List Selected}
    (h : (hidden.mapM fun h : HiddenColumn => do
      return (⟨← columnOf h.param h.member, some h.column⟩ : Selected)).Gives s p columns p') :
    ∀ h ∈ hidden, ∃ n, s.columnOf? h.param h.member = some n ∧ ⟨n, some h.column⟩ ∈ columns := by
  induction hidden generalizing p columns with
  | nil => exact nofun
  | cons c rest ih =>
    obtain ⟨selected, q, others, hselected, hrest, rfl⟩ := gives_mapM_cons.mp h
    simp only [gives_bind, gives_pure] at hselected
    obtain ⟨n, _, hn, rfl, rfl⟩ := hselected
    refine List.forall_mem_cons.mpr ⟨⟨n, (columnOf?_of_gives hn).1, List.mem_cons_self⟩, fun h' hh' => ?_⟩
    obtain ⟨m, hm, hmem⟩ := ih hrest h' hh'
    exact ⟨m, hm, List.mem_cons_of_mem _ hmem⟩

/-! ## Selecting the columns that are read -/

/-- The columns that expressions read are selected at positions from some one on. -/
structure Held (s : Scope) (first : Nat) (out : Projected) : Prop where
  first_le : first ≤ out.columns.length
  columns : ∀ d ∈ out.deferred, d.columns = d.expr.hiddenColumns d.member ∧
    ∀ h ∈ d.columns, ∃ n i, s.columnOf? h.param h.member = some n ∧ first ≤ i ∧
      out.columns[i]? = some ⟨n, some h.column⟩

/-- A projection that leaves nothing holds all that is left. -/
private theorem held_of_none (h : out.deferred = []) (s : Scope) : Held s out.columns.length out :=
  ⟨Nat.le_refl _, by simp [h]⟩

/-- Columns may be added behind the others. -/
theorem Held.append (h : Held s first out) {columns : List Selected}
    (hcolumns : out'.columns = out.columns ++ columns) (hdeferred : out'.deferred = out.deferred) :
    Held s first out' where
  first_le := by
    rw [hcolumns, List.length_append]
    exact Nat.le_add_right_of_le h.first_le
  columns := by
    rw [hdeferred]
    intro d hd
    obtain ⟨heq, hall⟩ := h.columns d hd
    refine ⟨heq, fun c hc => ?_⟩
    obtain ⟨n, i, hn, hi, hget⟩ := hall c hc
    refine ⟨n, i, hn, hi, ?_⟩
    rw [hcolumns, List.getElem?_append_left (List.getElem?_eq_some_iff.mp hget).1, hget]

/-- A column before the position may be replaced. -/
theorem Held.set (h : Held s first out) {i : Nat} (hi : i < first) {selected : Selected}
    (hcolumns : out'.columns = out.columns.set i selected) (hdeferred : out'.deferred = out.deferred) :
    Held s first out' where
  first_le := by
    rw [hcolumns, List.length_set]
    exact h.first_le
  columns := by
    rw [hdeferred]
    intro d hd
    obtain ⟨heq, hall⟩ := h.columns d hd
    refine ⟨heq, fun c hc => ?_⟩
    obtain ⟨n, j, hn, hj, hget⟩ := hall c hc
    refine ⟨n, j, hn, hj, ?_⟩
    rw [hcolumns, List.getElem?_set_ne (by omega), hget]

/-- An added column replaces none at the positions of columns that are read. -/
theorem Held.push (h : Held s first out) {n : Node} {replace : Bool}
    (hreplace : replace = true → ∀ i, out.shape.findIdx? (·.name == name) = some i → i < first) :
    Held s first (out.push name n replace) := by
  unfold Projected.push
  dsimp only
  split
  · next i hi => exact h.set (hreplace rfl i hi) rfl rfl
  · exact h.append rfl rfl

/-- Further columns leave those that are held where they are. -/
theorem Held.pushAll (h : Held s first out) (columns : List (String × Node)) :
    Held s first (out.pushAll columns) := by
  unfold Projected.pushAll
  induction columns generalizing out with
  | nil => exact h
  | cons c rest ih => exact ih (h.push nofun)

/-- An expression left for evaluation after fetching, with its columns behind the others. -/
theorem Held.leave (h : Held s first out) {e : Expr} (hgives : (out.leave name e).Gives s p out' p') :
    Held s first out' ∧ out'.shape = out.shape := by
  simp only [Projected.leave, gives_bind, gives_pure] at hgives
  obtain ⟨columns, q, hcolumns, rfl, rfl⟩ := hgives
  refine ⟨⟨?_, fun d hd => ?_⟩, rfl⟩
  · rw [List.length_append]
    exact Nat.le_add_right_of_le h.first_le
  · obtain hd | hd := List.mem_append.mp hd
    · exact (@Held.append _ _ { out with columns := out.columns ++ columns } _ h _ rfl rfl).columns d hd
    · obtain rfl := List.mem_singleton.mp hd
      refine ⟨rfl, fun c hc => ?_⟩
      obtain ⟨n, hn, hmem⟩ := selected_hidden hcolumns c hc
      obtain ⟨i, hi⟩ := List.mem_iff_getElem?.mp hmem
      refine ⟨n, out.columns.length + i, hn, Nat.le_add_right_of_le h.first_le, ?_⟩
      rw [List.getElem?_append_right (Nat.le_add_right _ _), Nat.add_sub_cancel_left, hi]

/-- An expression is added as it is planned, or left for evaluation after fetching. -/
theorem added_or_left {act : Planning Node} {e : Expr} {push : Node → Projected}
    (h : (do
      match ← projected act with
      | some n => return push n
      | none => out.leave name e).Gives s p out' p') :
    (∃ n, out' = push n) ∨ ∃ q, (out.leave name e).Gives s q out' p' := by
  obtain ⟨n?, q, -, hout⟩ := gives_bind.mp h
  cases n? with
  | some n => exact .inl ⟨n, (gives_pure.mp hout).1⟩
  | none => exact .inr ⟨q, hout⟩

/-! ## The forms of projections -/

/-- A member of an object keeps what a projection holds. -/
private theorem held_member (h : Held s first out) {o : Operand}
    (hgives : (out.member name o false).Gives s p out' p') : Held s first out' := by
  obtain ⟨n, rfl⟩ | ⟨q, hleave⟩ := added_or_left hgives
  · exact h.push nofun
  · exact (h.leave hleave).1

/-- The members of an object. -/
theorem held_object {named : List (String × Operand)} (h : Held s first out)
    (hgives : (out.object named).Gives s p out' p') : Held s first out' := by
  induction named generalizing out p with
  | nil =>
    obtain ⟨rfl, -⟩ := gives_pure.mp hgives
    exact h
  | cons m rest ih =>
    obtain ⟨name, o⟩ := m
    obtain ⟨g?, q, -, hobject⟩ := gives_bind.mp hgives
    split at hobject
    · split at hobject
      · exact ih (h.pushAll _) hobject
      · obtain ⟨mid, _, hmid, hrest⟩ := gives_bind.mp hobject
        exact ih (held_member h hmid) hrest
    · obtain ⟨mid, _, hmid, hrest⟩ := gives_bind.mp hobject
      exact ih (held_member h hmid) hrest

/-- A projection that builds no object. -/
theorem held_body {o : Operand} (h : Held s first out) (hgives : (out.body o).Gives s p out' p') :
    Held s first out' := by
  obtain ⟨g?, q, -, hbody⟩ := gives_bind.mp hgives
  split at hbody
  · obtain ⟨rfl, -⟩ := gives_pure.mp hbody
    exact h.pushAll _
  · split at hbody
    · obtain ⟨b, _, -, hcolumns⟩ := gives_bind.mp hbody
      split at hcolumns <;> obtain ⟨rfl, -⟩ := gives_pure.mp hcolumns <;> exact h.pushAll _
    · obtain ⟨n, rfl⟩ | ⟨q, hleave⟩ := added_or_left hbody
      · exact h.append rfl rfl
      · exact (h.leave hleave).1

/-- The members laid over a projection so far: what the projection shows from some position on is named by
them. -/
structure Overlaid (first : Nat) (names : List String) (out : Projected) : Prop where
  first_le : first ≤ out.shape.length
  named : ∀ i o, first ≤ i → out.shape[i]? = some o → o.name ∈ names

/-- A member that is laid over for the first time replaces nothing from the position on. -/
theorem Overlaid.lt_of_found {names : List String} (h : Overlaid first names out) (hname : name ∉ names) {i : Nat}
    (hi : out.shape.findIdx? (·.name == name) = some i) : i < first := by
  obtain ⟨hlt, hfound, -⟩ := List.findIdx?_eq_some_iff_getElem.mp hi
  by_contra hge
  refine hname ?_
  rw [← eq_of_beq hfound]
  exact h.named i _ (Nat.not_lt.mp hge) (List.getElem?_eq_getElem hlt)

/-- A member that is laid over a projection for the first time takes a place of the columns below. -/
theorem Overlaid.push {names : List String} (h : Overlaid first names out) (hname : name ∉ names) (n : Node) :
    Overlaid first (name :: names) (out.push name n true) := by
  unfold Projected.push
  dsimp only
  split
  · next i _ hi _ =>
    have hlt := h.lt_of_found hname hi
    refine ⟨by simpa using h.first_le, fun j o hj ho => ?_⟩
    rw [List.getElem?_set_ne (by omega)] at ho
    exact List.mem_cons_of_mem _ (h.named j o hj ho)
  · refine ⟨by simpa using Nat.le_succ_of_le h.first_le, fun j o hj ho => ?_⟩
    rw [List.getElem?_append] at ho
    split at ho
    · exact List.mem_cons_of_mem _ (h.named j o hj ho)
    · obtain rfl := List.mem_singleton.mp (List.mem_of_getElem? ho)
      exact List.mem_cons_self

/-- The members of an object that is laid over a projection, each name once. -/
theorem held_overlay {named : List (String × Operand)} {names : List String} (h : Held s first out)
    (ho : Overlaid first names out) (hnames : (names ++ named.map Prod.fst).Nodup)
    (hgives : (out.overlay named).Gives s p out' p') : Held s first out' := by
  induction named generalizing out names p with
  | nil =>
    obtain ⟨rfl, -⟩ := gives_pure.mp hgives
    exact h
  | cons m rest ih =>
    obtain ⟨name, o⟩ := m
    have hnew : name ∉ names := fun hmem =>
      (List.nodup_append.mp hnames).2.2 name hmem name List.mem_cons_self rfl
    have hrest : (name :: names ++ rest.map Prod.fst).Nodup :=
      List.perm_middle.nodup_iff.mp hnames
    obtain ⟨mid, q, hmid, hoverlay⟩ := gives_bind.mp hgives
    obtain ⟨n, rfl⟩ | ⟨q, hleave⟩ := added_or_left hmid
    · exact ih (h.push fun _ i hi => ho.lt_of_found hnew hi) (ho.push hnew n) hrest hoverlay
    · obtain ⟨hheld, hshape⟩ := h.leave hleave
      refine ih hheld ⟨hshape ▸ ho.first_le, fun i o' hi ho' => ?_⟩ hrest hoverlay
      rw [hshape] at ho'
      exact List.mem_cons_of_mem _ (ho.named i o' hi ho')

/-- As many columns are selected as an enclosing query sees. -/
theorem length_pushAll (h : out.columns.length = out.shape.length) (columns : List (String × Node)) :
    (out.pushAll columns).columns.length = (out.pushAll columns).shape.length := by
  unfold Projected.pushAll
  induction columns generalizing out with
  | nil => exact h
  | cons c rest ih =>
    refine ih ?_
    unfold Projected.push
    dsimp only
    split
    · contradiction
    · simp [h]

/-- A selection without projection leaves nothing. -/
private theorem held_whole (s : Scope) (tables : List TableBinding) (grouping : Option Grouping) :
    ∃ first, Held s first (whole tables grouping) ∧ Overlaid first [] (whole tables grouping) := by
  have hdeferred : (whole tables grouping).deferred = [] := by
    unfold whole
    split <;> exact deferred_pushAll _ _
  have hlength : (whole tables grouping).columns.length = (whole tables grouping).shape.length := by
    unfold whole
    split <;> exact length_pushAll rfl _
  refine ⟨_, held_of_none hdeferred s, hlength.le, fun i o hi ho => ?_⟩
  have hlt := (List.getElem?_eq_some_iff.mp ho).1
  omega

end Projected

/-! ## What the projection of a query sees -/

/-- What the lambda of a projection is over: the groups of a grouped query, or the tables. -/
def projectedBindings (tables : List TableBinding) : Option Grouping → List Binding
  | some g => [.grouping g]
  | none => tableBindings tables

/-- What the parameters of a projection's lambda stand for. -/
def projectionFrame (tables : List TableBinding) (grouping : Option Grouping) :
    Option Projection → List (String × Binding)
  | none => []
  | some (.select l) => frame l.params (projectedBindings tables grouping)
  | some (.flatten l) => frame l.params (tableBindings tables)

namespace Query

/-- The tables and the groups of a query, as they are planned before its projection. -/
def Opens (c : Compiler) (q : Query) (tables : List TableBinding) (grouping : Option Grouping)
    (p : Progress) : Prop :=
  ∃ source table first joined tests keys p₁ p₂ p₃ p₄,
    (planSource q.source).Gives { compiler := c } {} source p₁ ∧
      (bindTable q.aliasName source).Gives { compiler := c } p₁ (table, first) p₂ ∧
      (planJoins [first] q.joins).Gives { compiler := c } p₂ (joined, tables) p₃ ∧
      (planTests (tableBindings tables) q.filters).Gives { compiler := c } p₃ tests p₄ ∧
      (planKeys (tableBindings tables) q.groupBy).Gives { compiler := c } p₄ keys p ∧
      grouping = keys.map fun ks => ⟨ks, tables⟩

/-- What the expressions of the projection may refer to. -/
def projectionScope (c : Compiler) (q : Query) (tables : List TableBinding) (grouping : Option Grouping) : Scope :=
  { compiler := c, frames := [projectionFrame tables grouping q.projection] }

/-- An object that is laid over the columns of the first table has each member once. -/
def OverlaysOnce (q : Query) : Prop :=
  ∀ params ms, q.projection = some (.flatten ⟨params, .object ms⟩) → (ms.map Prod.fst).Nodup

end Query

/-- The members of an object keep their names. -/
private theorem map_fst_members (ms : List (String × Expr)) : (members ms).map Prod.fst = ms.map Prod.fst := by
  induction ms with
  | nil => rfl
  | cons m rest ih => rw [members, List.map_cons, List.map_cons, ih]

/-- **The columns that the expressions of a projection read** are selected.

**Proof sketch.** By the form of the projection. What is left selects what it reads, after the columns that are there;
an object that is laid over a table must not replace one of these, which it does not if it names each member once. -/
theorem held_planProjection {c : Compiler} {q : Query} (hq : q.OverlaysOnce) {tables : List TableBinding}
    {grouping : Option Grouping} {p p' : Progress} {out : Projected}
    (h : (planProjection tables (projectedBindings tables grouping) grouping q.projection).Gives
      { compiler := c } p out p') :
    ∃ first, out.Held (q.projectionScope c tables grouping) first := by
  unfold Query.projectionScope
  have hempty (s : Scope) : Projected.Held s 0 {} := @Projected.held_of_none {} rfl s
  match hprojection : q.projection, h with
  | none, h =>
    simp only [planProjection, gives_pure] at h
    obtain ⟨rfl, -⟩ := h
    obtain ⟨first, hheld, -⟩ := Projected.held_whole _ tables grouping
    exact ⟨first, hheld⟩
  | some (.select ⟨params, body⟩), h =>
    by_cases hbody : ∃ ms, body = .object ms
    · obtain ⟨ms, rfl⟩ := hbody
      simp only [planProjection, gives_withFrame] at h
      exact ⟨0, Projected.held_object (hempty _) h.2⟩
    · -- any other body is projected by itself
      have hplan : planProjection tables (projectedBindings tables grouping) grouping
          (some (.select ⟨params, body⟩)) =
          withFrame params (projectedBindings tables grouping) (Projected.body {} (operand body)) := by
        rw [planProjection]
        exact fun ms hms => hbody ⟨ms, hms⟩
      rw [hplan, gives_withFrame] at h
      exact ⟨0, Projected.held_body (hempty _) h.2⟩
  | some (.flatten ⟨params, body⟩), h =>
    cases body with
    | object ms =>
      simp only [planProjection, gives_withFrame] at h
      obtain ⟨first, hheld, hover⟩ := Projected.held_whole
        { compiler := c, frames := [frame params (tableBindings tables)] } tables none
      refine ⟨first, Projected.held_overlay hheld hover ?_ h.2⟩
      rw [List.nil_append, map_fst_members]
      exact hq params ms hprojection
    | _ => simp [planProjection] at h

/-- The columns of a planned query are those of its projection. -/
theorem gives_planQuery {c : Compiler} {q : Query} {sel : Select} {p' : Progress}
    (h : (planQuery q).Gives { compiler := c } {} sel p') :
    ∃ tables grouping projected p₁ p₂, q.Opens c tables grouping p₁ ∧
      (planProjection tables (projectedBindings tables grouping) grouping q.projection).Gives
        { compiler := c } p₁ projected p₂ ∧
      sel.columns = projected.columns ∧ sel.deferred = projected.deferred := by
  obtain ⟨source, aliasName, joins, filters, groupBy, having, orderBy, projection, distinct, limit, offset⟩ := q
  simp only [planQuery] at h
  obtain ⟨planned, p₁, hplanned, h₁⟩ := gives_bind.mp h
  obtain ⟨⟨table, first⟩, p₂, hbind, h₂⟩ := gives_bind.mp h₁
  obtain ⟨⟨joined, tables⟩, p₃, hjoined, h₃⟩ := gives_bind.mp h₂
  obtain ⟨tests, p₄, htests, h₄⟩ := gives_bind.mp h₃
  obtain ⟨keys, p₅, hkeys, h₅⟩ := gives_bind.mp h₄
  obtain ⟨projected, p₆, hprojected, h₆⟩ := gives_bind.mp h₅
  simp only [gives_bind, gives_pure] at h₆
  obtain ⟨_, _, -, _, _, -, rfl, -⟩ := h₆
  exact ⟨tables, _, projected, p₅, p₆,
    ⟨planned, table, first, joined, tests, keys, p₁, p₂, p₃, p₄, hplanned, hbind, hjoined, htests, hkeys, rfl⟩,
    by cases keys <;> exact hprojected, rfl, rfl⟩

/-! ## Fetched rows -/

/-- The name by which a selected expression is fetched: its alias, or the name of its column; anything else has
a name that the database chooses. -/
def SelectedOf.fetchedAs (chosen : Node → String) : Selected → String
  | ⟨_, some aliasName⟩ => aliasName
  | ⟨.column _ name _, none⟩ => name
  | ⟨n, none⟩ => chosen n

/-- A fetched row: for each selected expression, under its name, the value of the member of a parameter that it is
the column of, and any value if it is the column of none. -/
def Fetches (s : Scope) (chosen : Node → String) (columns : List Selected) (values : String → String → Value)
    (r : Row) : Prop :=
  List.Forall₂ (fun item shown => shown.1 = item.fetchedAs chosen ∧
    ∀ param member, s.columnOf? param member = some item.node → shown.2 = values param member)
    columns (r.columns.zip r.values)

/-- What is selected under the name of a column that an expression reads is that column. -/
def Unambiguous (s : Scope) (chosen : Node → String) (columns : List Selected) (d : Deferred) : Prop :=
  ∀ h ∈ d.columns, ∀ item ∈ columns, item.fetchedAs chosen = h.column →
    s.columnOf? h.param h.member = some item.node

/-- A selected column is found by its name if nothing else has it. -/
theorem lookup_of_fetches {s : Scope} {chosen : Node → String} {param member column : String}
    {values : String → String → Value} {columns : List Selected} {shown : List (String × Value)}
    (h : List.Forall₂ (fun item (shown : String × Value) => shown.1 = item.fetchedAs chosen ∧
      ∀ param member, s.columnOf? param member = some item.node → shown.2 = values param member) columns shown)
    (hsame : ∀ item ∈ columns, item.fetchedAs chosen = column → s.columnOf? param member = some item.node)
    (hmem : ∃ item ∈ columns, item.fetchedAs chosen = column) :
    shown.lookup column = some (values param member) := by
  induction h with
  | nil => simp at hmem
  | @cons item shown columns rest hshown _ ih =>
    obtain ⟨name, v⟩ := shown
    obtain ⟨hname, hvalue⟩ := hshown
    dsimp only at hname hvalue
    obtain ⟨hitem, hcolumns⟩ := List.forall_mem_cons.mp hsame
    by_cases heq : item.fetchedAs chosen = column
    · rw [hname, heq, List.lookup_cons_self, hvalue param member (hitem heq)]
    · rw [List.exists_mem_cons_iff, or_iff_right heq] at hmem
      have hne : (column == name) = false := by
        rw [hname]
        exact beq_eq_false_iff_ne.mpr (Ne.symm heq)
      rw [List.lookup_cons, hne]
      exact ih hcolumns hmem

/-- A fetched row shows what an expression reads. -/
theorem shows_of_fetches {s : Scope} {chosen : Node → String} {first : Nat} {out : Projected}
    {values : String → String → Value} {r : Row} {d : Deferred} (hheld : out.Held s first) (hd : d ∈ out.deferred)
    (hsame : Unambiguous s chosen out.columns d) (h : Fetches s chosen out.columns values r) :
    r.Shows values d.columns := by
  intro c hc
  obtain ⟨n, i, -, -, hget⟩ := (hheld.columns d hd).2 c hc
  have hmem : ∃ item ∈ out.columns, item.fetchedAs chosen = c.column :=
    ⟨_, List.mem_of_getElem? hget, rfl⟩
  rw [Row.get, lookup_of_fetches h (hsame c hc) hmem]
  rfl

/-- A row that has the content of each column is fetched for the contents of the members' columns. -/
theorem fetches_contents (s : Scope) (chosen : Node → String) (columns : List Selected) (content : Node → Value) :
    Fetches s chosen columns (fun p m => ((s.columnOf? p m).map content).getD .null)
      ⟨columns.map (·.fetchedAs chosen), columns.map (content ·.node), by simp⟩ := by
  unfold Fetches
  rw [List.zip_map', List.forall₂_map_right_iff, List.forall₂_same]
  intro item _
  exact ⟨rfl, fun p m h => by simp [h]⟩

/-- Where all columns have different names, what is read is told apart. -/
theorem unambiguous_of_nodup {s : Scope} {chosen : Node → String} {first : Nat} {out : Projected} {d : Deferred}
    (hheld : out.Held s first) (hd : d ∈ out.deferred)
    (hnames : (out.columns.map (·.fetchedAs chosen)).Nodup) : Unambiguous s chosen out.columns d := by
  intro c hc item hitem hname
  obtain ⟨n, i, hn, -, hget⟩ := (hheld.columns d hd).2 c hc
  obtain rfl : item = ⟨n, some c.column⟩ :=
    List.inj_on_of_nodup_map hnames hitem (List.mem_of_getElem? hget) hname
  exact hn

/-- **Projections left for evaluation after fetching have the right value.** A compiled query selects the columns
that the expressions read, however many tables are joined and whatever else is projected. If nothing else is
selected under their names, as where all names are different, then on every row that is fetched for some values
of the members of the lambda's parameters, evaluating such a projection has the outcome of evaluating its
expression on these values: the same value, and no value if there is none. An object that is laid over the columns
of the first table must not have a member twice, since the second one takes the place of a column that stands
somewhere else by then.

**Proof sketch.** By induction on the projection, the hidden columns of each expression that was left are held at
known positions of the select list, and each of them was planned for the member that it is named after. A row that is
fetched shows these members if no other column has their names, and an expression has one value on all bindings that
agree on what it reads. -/
theorem Compiler.deferred_faithful {c : Compiler} {q : Query} (hq : q.OverlaysOnce) {out : Compiled}
    (h : c.select q = .ok out) :
    ∃ sel ctes tables grouping p, (planQuery q).run c = .ok (sel, ctes) ∧
      Written c.newParameters out.phrase (sketchCtes c.dialect ctes ++ sketchSelect c.dialect sel)
        out.parameters ∧
      q.Opens c tables grouping p ∧ out.deferred = sel.deferred ∧ ∀ d ∈ out.deferred, ∀ chosen,
        ((sel.columns.map (·.fetchedAs chosen)).Nodup →
          Unambiguous (q.projectionScope c tables grouping) chosen sel.columns d) ∧
        (Unambiguous (q.projectionScope c tables grouping) chosen sel.columns d →
          ∀ values r, Fetches (q.projectionScope c tables grouping) chosen sel.columns values r →
            d.evaluate r = d.outcome (Host.evaluate (fun p m => some (values p m)) d.expr)) := by
  obtain ⟨sel, ctes, hplan, hdeferred, -⟩ := gives_select h
  obtain ⟨sk, hsk, hwritten⟩ := written_select h
  rw [sketchPlan, hplan] at hsk
  cases hsk
  obtain ⟨p', hgives, -⟩ := gives_of_run hplan
  obtain ⟨tables, grouping, projected, p₁, p₂, hopens, hprojected, hcolumns, hleft⟩ := gives_planQuery hgives
  obtain ⟨first, hheld⟩ := held_planProjection hq hprojected
  refine ⟨sel, ctes, tables, grouping, p₁, hplan, hwritten, hopens, hdeferred, fun d hd chosen => ?_⟩
  rw [hdeferred, hleft] at hd
  rw [hcolumns]
  refine ⟨unambiguous_of_nodup hheld hd, fun hsame values r hr => ?_⟩
  have hread : d.columns.map (fun h => (h.param, h.member)) = d.expr.reads := by
    rw [(hheld.columns d hd).1, Expr.hiddenColumns, List.map_map]
    exact List.map_id _
  exact d.evaluate_eq hread (shows_of_fetches hheld hd hsame hr)

/-- The orders, each labelled with its buyer and the buyer's age. -/
def labelledOrders : Query :=
  ((Query.ofSource (.entity "Order")).join .inner (.entity "Customer") (.lambda ["o", "c"]
    (.binary .eq (.member (.param "o") "BuyerId") (.member (.param "c") "Id")))).select (.lambda ["o", "c"]
      (.object [("Id", .member (.param "o") "Id"),
        ("Label", .call none (some "String") "Format" [.constant (.string "\x7b0\x7d-\x7b1\x7d"),
          .member (.param "o") "BuyerId", .member (.param "c") "Age"])]))

/-- An order of a buyer of thirty years. -/
def orderOfThirty : Row := ⟨["Id", "Label_BuyerId", "Label_Age"], [.int 1, .int 2, .int 30], rfl⟩

/-- What the columns of the order hold. -/
def contentOfThirty : Node → Value
  | .column (some "a") "id" _ => .int 1
  | .column (some "a") "buyer" _ => .int 2
  | .column (some "b") "age" _ => .int 30
  | _ => .null

set_option maxRecDepth 4096 in
/-- A label with the buyer's age is evaluated on a fetched row as on the values that the row stands for. -/
theorem labelledOrders_faithful :
    labelledOrders.OverlaysOnce ∧ ∃ out sel ctes tables grouping p d values,
      shop.select labelledOrders = .ok out ∧
      out.sql = "SELECT a.`id` AS `Id`,a.`buyer` AS `Label_BuyerId`,b.`age` AS `Label_Age` FROM `orders` a INNER JOIN `customer` b ON a.`buyer`=b.`id`" ∧
      (planQuery labelledOrders).run shop = .ok (sel, ctes) ∧
      labelledOrders.Opens shop tables grouping p ∧ out.deferred = [d] ∧
      Unambiguous (labelledOrders.projectionScope shop tables grouping) Projected.scalarName sel.columns d ∧
      Fetches (labelledOrders.projectionScope shop tables grouping) Projected.scalarName sel.columns values
        orderOfThirty ∧
      d.evaluate orderOfThirty = d.outcome (Host.evaluate (fun p m => some (values p m)) d.expr) ∧
      d.evaluate orderOfThirty = .ok (.string "2-30") := by
  have hq : labelledOrders.OverlaysOnce := nofun
  have hresult : (shop.select labelledOrders).map (fun out =>
        (out.sql, out.deferred.map fun d => d.evaluate orderOfThirty)) =
      .ok ("SELECT a.`id` AS `Id`,a.`buyer` AS `Label_BuyerId`,b.`age` AS `Label_Age` FROM `orders` a INNER JOIN `customer` b ON a.`buyer`=b.`id`", [.ok (.string "2-30")]) := by rfl
  obtain ⟨out, h⟩ : ∃ out, shop.select labelledOrders = .ok out := ⟨_, rfl⟩
  rw [h] at hresult
  obtain ⟨hsql, hvalues⟩ := Prod.mk.inj (Except.ok.inj hresult)
  obtain ⟨d, hdeferred, hvalue⟩ := List.map_eq_singleton_iff.mp hvalues
  obtain ⟨sel, ctes, tables, grouping, p, hplan, -, hopens, -, hfaithful⟩ := Compiler.deferred_faithful hq h
  obtain ⟨hnames, hfetched⟩ := hfaithful d (by rw [hdeferred]; exact List.mem_singleton_self d) Projected.scalarName
  obtain ⟨sel', ctes', hplan', hcolumns⟩ : ∃ sel ctes, (planQuery labelledOrders).run shop = .ok (sel, ctes) ∧
      sel.columns = [⟨.column (some "a") "id" .int32, some "Id"⟩,
        ⟨.column (some "a") "buyer" .int32, some "Label_BuyerId"⟩,
        ⟨.column (some "b") "age" .int32, some "Label_Age"⟩] := ⟨_, _, rfl, rfl⟩
  cases hplan.symm.trans hplan'
  have hunambiguous := hnames (by rw [hcolumns]; decide)
  have hrow := fetches_contents (labelledOrders.projectionScope shop tables grouping) Projected.scalarName
    sel.columns contentOfThirty
  have heq : (⟨sel.columns.map (·.fetchedAs Projected.scalarName), sel.columns.map (contentOfThirty ·.node), by simp⟩ :
      Row) = orderOfThirty := by
    simp only [hcolumns]
    rfl
  rw [heq] at hrow
  exact ⟨hq, out, sel, ctes, tables, grouping, p, d, _, h, hsql, hplan, hopens, hdeferred, hunambiguous, hrow,
    hfetched hunambiguous _ _ hrow, hvalue⟩

/-- Of two columns of one name, evaluating finds the first one: the customer's number is lost. -/
example : ((shop.select ((labelledOrders).select (.lambda ["o", "c"] (.object [("Label",
    .call none (some "String") "Format" [.constant (.string "\x7b0\x7d-\x7b1\x7d"),
      .member (.param "o") "Id", .member (.param "c") "Id"])])))).map fun out =>
        (out.sql, out.deferred.map fun d => (d.columns.map (·.column),
          d.evaluate ⟨["Label_Id", "Label_Id"], [.int 1, .int 2], rfl⟩))) =
    .ok ("SELECT a.`id` AS `Label_Id`,b.`id` AS `Label_Id` FROM `orders` a INNER JOIN `customer` b ON a.`buyer`=b.`id`",
      [(["Label_Id", "Label_Id"], .ok (.string "1-1"))]) := by rfl

end LambdaSql
