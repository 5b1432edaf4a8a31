import LambdaSql.Proofs.Naming.Leaves
import LambdaSql.Proofs.Nesting.Lists
import LambdaSql.Proofs.Scoping.Queries

/-!
# Bodies that stand by themselves

Derived tables and the queries of common table expressions are planned with aliases of their own, but under the
parameters of the lambdas around. As long as they mention none of these, their columns mean their own tables; otherwise
a parameter of an enclosing query is written with an alias that may be that of a table of the body.

What a projected expression reads is selected by itself if the expression is left for evaluation after fetching, and
then the parameters of the lambdas within the expression are looked up outside of it. So closed queries come in two
kinds: in one, whatever projected expressions read is known as well.

## Main definitions

* `QueryOf.IsClosed` - a query that mentions parameters of its own lambdas only.
* `Occurrence.Resolves` - columns whose alias is that of a table around them.

## Main results

* `Expr.wording_resolves`, `queryWritten_resolves` - what may be written where all parameters are known.
* `Compiler.bodies_closed` - the columns of all derived tables and common table expressions within statements.
-/

namespace LambdaSql

/-! ## Closed queries -/

/-- An expression reads members of known parameters only, if that matters because it may be left for evaluation after
fetching. -/
def Expr.readsKnown (left : Bool) (known : List String) (e : Expr) : Bool :=
  !left || e.reads.all fun r => known.contains r.1

section

variable (left : Bool)

mutual

/-- Whether the parameters in an expression are known or belong to lambdas in it, and no alias is chosen in it. -/
def Expr.isClosed (known : List String) : Expr → Bool
  | .param name => known.contains name
  | .member target _ => target.isClosed known
  | .call (some target) _ _ args => target.isClosed known && areClosed known args
  | .call none _ _ args => areClosed known args
  | .binary _ l r => l.isClosed known && r.isClosed known
  | .unary _ e | .convert e _ => e.isClosed known
  | .conditional test a b => test.isClosed known && a.isClosed known && b.isClosed known
  | .object ms => membersAreClosed known ms
  | .array items => areClosed known items
  | .query q => queryIsClosed known q
  | .lambda params body => body.isClosed (params ++ known)
  | .static .. | .constant _ | .captured .. => true

/-- Whether several expressions are closed. -/
def areClosed (known : List String) : List Expr → Bool
  | [] => true
  | e :: rest => e.isClosed known && areClosed known rest

/-- Whether the members of an object are closed. -/
def membersAreClosed (known : List String) : List (String × Expr) → Bool
  | [] => true
  | (_, e) :: rest => e.isClosed known && membersAreClosed known rest

/-- Whether the members of a projected object are closed. -/
def columnsAreClosed (known : List String) : List (String × Expr) → Bool
  | [] => true
  | (_, e) :: rest => e.isClosed known && e.readsKnown left known && columnsAreClosed known rest

/-- Whether the tests of a clause are closed. -/
def testsAreClosed (known : List String) : List (LambdaOf Expr) → Bool
  | [] => true
  | ⟨params, body⟩ :: rest => body.isClosed (params ++ known) && testsAreClosed known rest

/-- Whether sort keys are closed. -/
def orderIsClosed (known : List String) : List (LambdaOf Expr × Bool) → Bool
  | [] => true
  | (⟨params, body⟩, _) :: rest => body.isClosed (params ++ known) && orderIsClosed known rest

/-- Whether joins are closed. -/
def joinsAreClosed (known : List String) : List (JoinOf Expr Source) → Bool
  | [] => true
  | ⟨_, source, ⟨params, body⟩, aliasName⟩ :: rest =>
    aliasName.isNone && source.isClosed && body.isClosed (params ++ known) && joinsAreClosed known rest

/-- Whether keys are closed. -/
def groupingIsClosed (known : List String) : Option (LambdaOf Expr) → Bool
  | none => true
  | some ⟨params, body⟩ => body.isClosed (params ++ known)

/-- Whether a projection is closed. -/
def projectionIsClosed (known : List String) : Option (ProjectionOf Expr) → Bool
  | none => true
  | some (.select ⟨params, .object ms⟩) | some (.flatten ⟨params, .object ms⟩) => columnsAreClosed (params ++ known) ms
  | some (.select ⟨params, body⟩) => body.isClosed (params ++ known) && body.readsKnown left (params ++ known)
  | some (.flatten _) => true

/-- Whether a query is closed. -/
def queryIsClosed (known : List String) : QueryOf Expr Source → Bool
  | ⟨source, aliasName, joins, filters, groupBy, having, orderBy, projection, _, _, _⟩ =>
    aliasName.isNone && source.isClosed && joinsAreClosed known joins && testsAreClosed known filters &&
      groupingIsClosed known groupBy && projectionIsClosed known projection && testsAreClosed known having &&
      orderIsClosed known orderBy

/-- Whether a source is closed. A derived table stands by itself. -/
def Source.isClosed : Source → Bool
  | .derived q => queryIsClosed [] q
  | .entity _ | .cte _ | .selfRef _ => true

end

end

/-- A query that stands by itself: its expressions mention parameters of its own lambdas only, so do those of the
derived tables in it, and no alias is chosen in it. If it matters because projected expressions may be left for
evaluation after fetching, then what they read are members of parameters of the query as well. -/
def QueryOf.IsClosed (q : Query) (left : Bool) : Prop := queryIsClosed left [] q = true

/-! ## Columns that mean something -/

/-- If a column, then one whose alias is that of a table around it. If expressions that are left for evaluation after
fetching do not matter, the columns beside them need not be. -/
def Occurrence.Resolves (left : Bool) (x : Occurrence) : Prop :=
  x.meant? ≠ some none ∨ left = false ∧ ∃ l ∈ x.around, l.deferring = true

/-- All that may be written resolves. -/
def Wording.Resolves (left : Bool) (w : Wording) : Prop :=
  ∀ around ns, w around ns → ∀ x ∈ nodesOccurrences around ns, x.Resolves left

/-- What is read from a known parameter resolves. -/
def Role.Resolves (left : Bool) : Role → Prop
  | table _ => True
  | groups keys _ => ∀ k ∈ keys, Wording.Resolves left k.2
  | bare _ | outside => False

/-- What is read from known parameters resolves. -/
def Roles.Know (left : Bool) (roles : Roles) (known : List String) : Prop :=
  ∀ name ∈ known, ∀ role, roles name = some role → role.Resolves left

/-- All columns of a projection resolve, unless an expression has been left for evaluation after fetching and these do
not matter. -/
def Projected.Resolves (left : Bool) (around : List Level) (out : Projected) : Prop :=
  left = true ∨ out.deferred = [] → ∀ x ∈ nodesOccurrences around out.nodes, x.Resolves left

/-- What is done to a projection leaves all of its columns so that they resolve. -/
def Projecting.Keeps (left : Bool) (act : Projecting) : Prop :=
  ∀ ⦃around out out'⦄, act around out out' → out.Resolves left around → out'.Resolves left around

variable {left : Bool} {c : Compiler} {roles : Roles} {known : List String} {around : List Level}

/-! ## Reading known parameters -/

section Reading

/-- Where nothing can be written, all of it resolves. -/
private theorem Wording.resolves_nothing : Wording.nothing.Resolves left := nofun

/-- A column with the alias of a table around it. -/
theorem Occurrence.resolves_column {a name : String} {type : HostType} {seat : Seat}
    (hseat : seatOf a around = some seat) {x : Occurrence}
    (hx : x ∈ (Node.column (some a) name type).occurrences around) : x.Resolves left := by
  refine .inl ?_
  rw [Multiset.mem_singleton.mp hx]
  simp [Occurrence.meant?, hseat]

/-- What is written for a member of a table resolves. -/
private theorem TablePlace.resolves_column (t : TablePlace) (member : String) : (t.column member).Resolves left := by
  rintro around ns ⟨a, name, type, hseat, -, rfl⟩ x hx
  rw [nodesOccurrences_cons, nodesOccurrences_nil, add_zero] at hx
  exact Occurrence.resolves_column hseat hx

/-- All columns of a table resolve. -/
theorem TablePlace.Row.resolves {t : TablePlace} {columns : List (String × Node)} (h : t.Row around columns) :
    ∀ x ∈ nodesOccurrences around (columns.map Prod.snd), x.Resolves left := by
  intro x hx
  obtain ⟨n, hn, hx⟩ := mem_nodesOccurrences.mp hx
  obtain ⟨col, hcol, rfl⟩ := List.mem_map.mp hn
  obtain ⟨a, hseat, hcolumns⟩ := h
  have hcolumn : ∃ name type, col.2 = .column (some a) name type := by
    split at hcolumns
    · subst hcolumns
      obtain ⟨f, -, rfl⟩ := List.mem_map.mp hcol
      exact ⟨f.column, f.type, rfl⟩
    · obtain ⟨type, heq⟩ := hcolumns col hcol
      exact ⟨col.1, type, heq⟩
  obtain ⟨name, type, heq⟩ := hcolumn
  rw [heq] at hx
  exact Occurrence.resolves_column hseat hx

variable {keys : List (String × Wording)}

/-- All keys of groups resolve. -/
theorem KeysWritten.resolves {written : List (String × Node)} (h : KeysWritten keys around written)
    (hkeys : ∀ k ∈ keys, k.2.Resolves left) :
    ∀ x ∈ nodesOccurrences around (written.map Prod.snd), x.Resolves left := by
  induction h with
  | nil => exact nofun
  | cons hk _ ih =>
    obtain ⟨hfirst, hrest⟩ := List.forall_mem_cons.mp hkeys
    intro x hx
    rw [List.map_cons, nodesOccurrences_cons] at hx
    obtain hx | hx := Multiset.mem_add.mp hx
    · exact hfirst around _ hk.2 x (by rwa [nodesOccurrences_cons, nodesOccurrences_nil, add_zero])
    · exact ih hrest x hx

/-- What is written for the key of groups with just one resolves if their keys do. -/
private theorem singleKey_resolves (hkeys : ∀ k ∈ keys, k.2.Resolves left) : (singleKey keys).Resolves left := by
  rintro around ns ⟨key, rfl, hw⟩
  exact hkeys key List.mem_cons_self around ns hw

/-- What is written for a key by its name resolves if the keys do. -/
private theorem keyNamed_resolves (hkeys : ∀ k ∈ keys, k.2.Resolves left) (name : String) :
    (keyNamed keys name).Resolves left := by
  rintro around ns ⟨w, hlookup, hw⟩
  obtain ⟨before, after, rfl, -⟩ := List.lookup_eq_some_iff.mp hlookup
  exact hkeys (name, w) (by simp) around ns hw

variable {role : Role}

/-- A member of a role that resolves does so. -/
theorem Role.Resolves.member (h : role.Resolves left) (name : String) : (role.member name).Resolves left := by
  cases role with
  | table t => exact t.resolves_column name
  | groups keys rows =>
    dsimp only [Role.member]
    split
    · exact singleKey_resolves h
    · exact keyNamed_resolves h name
  | bare _ | outside => cases h

/-- A role that resolves does so as a whole. -/
theorem Role.Resolves.whole (h : role.Resolves left) : role.whole.Resolves left := by
  cases role with
  | table t => exact Wording.resolves_nothing
  | groups keys rows => exact singleKey_resolves h
  | bare _ | outside => cases h

/-- A member that is fetched from a role that resolves does so. -/
theorem Role.Resolves.fetched (h : role.Resolves left) (name : String) : (role.fetched name).Resolves left := by
  cases role with
  | table t => exact t.resolves_column name
  | groups keys rows => exact keyNamed_resolves h name
  | bare _ | outside => cases h

/-- What is written for a known parameter resolves. -/
theorem Roles.Know.wording (h : roles.Know left known) {name : String} (hname : name ∈ known) {way : Role → Wording}
    (hway : ∀ role, role.Resolves left → (way role).Resolves left) : (roles.wording way name).Resolves left := by
  unfold Roles.wording
  cases hrole : roles name with
  | none => exact Wording.resolves_nothing
  | some role => exact hway role (h name hname role hrole)

/-- Under a lambda its parameters are known as well.

**Proof sketch.** The last parameter of a name has a role that resolves, and a name that is no parameter has the role
it had outside, where it was known. -/
theorem Roles.Know.under (h : roles.Know left known) {bound : List Role} (hbound : ∀ role ∈ bound, role.Resolves left)
    (params : List String) : (roles.under params bound).Know left (params ++ known) := by
  intro name hname role hrole
  unfold Roles.under at hrole
  split at hrole
  · next hlength =>
    dsimp only at hrole
    cases hlookup : (params.zip bound).reverse.lookup name with
    | some other =>
      rw [hlookup] at hrole
      cases hrole
      obtain ⟨before, after, hsplit, -⟩ := List.lookup_eq_some_iff.mp hlookup
      have hmem : (name, role) ∈ (params.zip bound).reverse := by simp [hsplit]
      exact hbound role (List.of_mem_zip (List.mem_reverse.mp hmem)).2
    | none =>
      rw [hlookup, Option.none_or] at hrole
      refine h name ((List.mem_append.mp hname).resolve_left ?_) role hrole
      intro hparam
      -- each of the parameters has a role
      have hkeys : (params.zip bound).map Prod.fst = params := List.map_fst_zip hlength
      rw [← hkeys] at hparam
      obtain ⟨pair, hpair, rfl⟩ := List.mem_map.mp hparam
      have hne := List.lookup_eq_none_iff.mp hlookup pair (List.mem_reverse.mpr hpair)
      simp at hne
  · cases hrole

/-- Nothing has to be known of no parameters. -/
private theorem Roles.know_nil : roles.Know left [] := nofun

/-- Tables are known. -/
theorem resolves_tables (tables : List TablePlace) : ∀ role ∈ tables.map Role.table, role.Resolves left := by
  intro role hrole
  obtain ⟨t, -, rfl⟩ := List.mem_map.mp hrole
  trivial

end Reading

/-! ## Expressions -/

section Forms

variable {e target : Expr} {parts : List Part} {s : Scope} {p p' : Progress} {n : Node} {os : List Operand}

/-- All that may be written for several parts resolves, and so does what they select from known rows. -/
def PartsResolve (left : Bool) (parts : List Part) : Prop :=
  ∀ part ∈ parts, part.wording.Resolves left ∧ ∀ selected, part.selected = some selected →
    ∀ bound : List Role, (∀ role ∈ bound, role.Resolves left) → (selected bound).Resolves left

/-- Parts resolve if the first and the others do. -/
theorem PartsResolve.cons {w : Wording} (hw : w.Resolves left) (h : PartsResolve left parts) :
    PartsResolve left (⟨e, w, none⟩ :: parts) :=
  List.forall_mem_cons.mpr ⟨⟨hw, nofun⟩, h⟩

/-- No parts resolve. -/
theorem PartsResolve.nil : PartsResolve left [] := nofun

/-- Operands that give what may be written for parts yield what resolves. -/
theorem PartsResolve.yields (h : PartsResolve left parts) (hos : List.Forall₂ (Part.GivenBy s p around) parts os) :
    ∀ o ∈ os, o.Yields (Occurrence.Resolves left) s p around := by
  induction hos with
  | nil => exact nofun
  | cons hfirst _ ih =>
    obtain ⟨hpart, hrest⟩ := List.forall_mem_cons.mp h
    exact List.forall_mem_cons.mpr ⟨hfirst.yields (hpart.1 around), ih hrest⟩

/-- An expression without parts has no columns. -/
theorem composed_barren (he : e.isBarren = true) : (composed c roles e []).Resolves left := by
  rintro around ns ⟨s, p, p', os, rfl, -, hos, hg⟩
  cases hos
  have hplain : (operand e).Gives s p ns p' := by
    cases e with
    | constant | captured | static | object | lambda => exact hg
    | _ => cases he
  exact (barren_yields he hplain).all

/-- A call on a target: on a known group, or on a value.

**Proof sketch.** The node is made by the call from what its target and its arguments yield. Where a selector is
applied to the rows of groups, the parameter of the groups has a role that is known to resolve, and the selector's
columns are those of its wording. -/
theorem composed_call {type : Option String} {method : String} {args : List Expr} {w : Wording}
    (hknow : roles.Know left known) (htarget : ∀ x, target = .param x → x ∈ known) (hw : w.Resolves left)
    (hparts : PartsResolve left (itemParts c roles args)) :
    (composed c roles (.call (some target) type method args)
      (⟨target, w, none⟩ :: itemParts c roles args)).Resolves left := by
  rintro around ns ⟨s, p, p', os, rfl, ha, hos, hg⟩
  have hyields := (hparts.cons hw).yields hos
  generalize hitems : itemParts s.compiler roles args = parts at hos hparts
  cases hos with
  | @cons _ o _ os hfirst hrest =>
    obtain ⟨ht, hargs⟩ := List.forall_mem_cons.mp hyields
    refine (plain_yields (fun hn => Lowering.callOn_yields ht hargs ?_ hn) hg).all
    intro x g selector rest n hsource hb hcons happlied
    subst hcons
    have hx : target = .param x := hfirst.source.symm.trans hsource
    cases hrest with
    | @cons part _ _ _ hselector _ =>
      obtain ⟨selected, hselected⟩ := selected_of_mem (hitems ▸ List.mem_cons_self)
      have hresolves := (hparts part List.mem_cons_self).2 selected hselected
      have hfills := ha x
      have hrole := hknow x (htarget x hx)
      rw [hb] at hfills
      generalize roles x = role? at hfills hrole
      cases hfills with
      | outside => exact absurd (hrole _ rfl) id
      | bound hplays =>
        cases hplays with
        | groups _ hrows =>
          obtain ⟨hle, hwritten⟩ := hselector.selects hselected le_rfl (cast_tables hrows) happlied
          exact ⟨hle, hresolves _ (resolves_tables _) around _ hwritten⟩
        | outside => exact absurd (hrole _ rfl) id

/-- A member of a value, or of the key of known groups.

**Proof sketch.** The node is a member of what the target yields. Where the target is the key of groups, the member is
one of the keys that the role of the groups has, and these resolve. -/
theorem composed_member {name : String} {w : Wording} (hknow : roles.Know left known)
    (hne : ∀ x, target ≠ .param x) (hkey : ∀ x key, target = .member (.param x) key → x ∈ known)
    (hw : w.Resolves left) : (composed c roles (.member target name) [⟨target, w, none⟩]).Resolves left := by
  rintro around ns ⟨s, p, p', os, rfl, ha, hos, hg⟩
  cases hos with
  | @cons _ o _ _ hfirst hrest =>
    cases hrest
    refine (plain_yields (fun {n} hn => ?_) hg).all
    unfold Lowering.member at hn
    rw [hfirst.source] at hn
    split at hn
    · next x heq => exact absurd heq (hne x)
    · refine Lowering.valueMember_yields (hfirst.yields (hw around)) ?_ hn
      intro x key g m hsource hb hlookup
      have hfills := ha x
      have hrole := hknow x (hkey x key (hfirst.source.symm.trans hsource))
      rw [hb] at hfills
      generalize roles x = role? at hfills hrole
      cases hfills with
      | outside => exact absurd (hrole _ rfl) id
      | bound hplays =>
        cases hplays with
        | groups hkeys _ =>
          have hnamed := keyNamed_resolves (hrole _ rfl) name around _ (hkeys.named hlookup)
          rwa [nodesOccurrences_cons, nodesOccurrences_nil, add_zero] at hnamed
        | outside => exact absurd (hrole _ rfl) id

/-- A call of a type resolves if its arguments do. -/
private theorem composed_callOf {type : Option String} {method : String} {args : List Expr}
    (h : PartsResolve left parts) :
    (composed c roles (.call none type method args) parts).Resolves left := by
  rintro around ns ⟨s, p, p', os, rfl, -, hos, hg⟩
  exact (plain_yields (fun hn => draws_yields (Lowering.draws_callOf type method _) (h.yields hos) hn) hg).all

/-- An array resolves if its items do. -/
private theorem composed_array {items : List Expr} (h : PartsResolve left parts) :
    (composed c roles (.array items) parts).Resolves left := by
  rintro around ns ⟨s, p, p', os, rfl, -, hos, hg⟩
  exact (array_yields (h.yields hos) hg).all

/-- A binary operator resolves if its sides do. -/
private theorem composed_binary {op : BinaryOp} {l r : Expr} {wl wr : Wording} (hl : wl.Resolves left)
    (hr : wr.Resolves left) :
    (composed c roles (.binary op l r) [⟨l, wl, none⟩, ⟨r, wr, none⟩]).Resolves left := by
  rintro around ns ⟨s, p, p', os, rfl, -, hos, hg⟩
  cases hos with
  | cons hfirst hrest =>
    cases hrest with
    | cons hsecond hrest =>
      cases hrest
      exact (binary_yields (hfirst.yields (hl around)) (hsecond.yields (hr around)) hg).all

/-- A unary operator resolves if its operand does. -/
private theorem composed_unary {op : UnaryOp} {w : Wording} (hw : w.Resolves left) :
    (composed c roles (.unary op e) [⟨e, w, none⟩]).Resolves left := by
  rintro around ns ⟨s, p, p', os, rfl, -, hos, hg⟩
  have hyields := (PartsResolve.nil.cons hw).yields hos
  cases hos with
  | cons _ hrest =>
    cases hrest
    exact (plain_yields (fun hn => draws_yields (Lowering.draws_unary op _) hyields hn) hg).all

/-- A choice resolves if its test and its sides do. -/
private theorem composed_conditional {test a b : Expr} {wt wa wb : Wording} (ht : wt.Resolves left)
    (ha : wa.Resolves left)
    (hb : wb.Resolves left) :
    (composed c roles (.conditional test a b) [⟨test, wt, none⟩, ⟨a, wa, none⟩, ⟨b, wb, none⟩]).Resolves left := by
  rintro around ns ⟨s, p, p', os, rfl, -, hos, hg⟩
  have hyields := (((PartsResolve.nil.cons hb).cons ha).cons ht).yields hos
  cases hos with
  | cons _ hrest =>
    cases hrest with
    | cons _ hrest =>
      cases hrest with
      | cons _ hrest =>
        cases hrest
        exact (plain_yields (fun hn => draws_yields (Lowering.draws_conditional _ _ _) hyields hn) hg).all

/-- A conversion resolves if what it converts does. -/
private theorem composed_convert {type : HostType} {w : Wording} (hw : w.Resolves left) :
    (composed c roles (.convert e type) [⟨e, w, none⟩]).Resolves left := by
  rintro around ns ⟨s, p, p', os, rfl, -, hos, hg⟩
  cases hos with
  | cons hfirst hrest =>
    cases hrest
    exact (convert_yields (hfirst.yields (hw around)) hg).all

end Forms

/-! ## Projections -/

namespace Projected

variable {out out' : Projected} {w : Wording} {name : String} {e : Expr} {push : Projected → Node → Projected}

/-- An empty projection resolves. -/
private theorem resolves_empty : ({} : Projected).Resolves left around := fun _ => nofun

/-- A projection with further columns that resolve. -/
theorem Resolves.extend (h : out.Resolves left around) {ns : List Node} (hd : out'.deferred = out.deferred)
    (hle : nodesOccurrences around out'.nodes ≤ nodesOccurrences around out.nodes + nodesOccurrences around ns)
    (hns : ∀ x ∈ nodesOccurrences around ns, x.Resolves left) : out'.Resolves left around := by
  intro hleft x hx
  rw [hd] at hleft
  obtain hx | hx := Multiset.mem_add.mp (Multiset.mem_of_le hle hx)
  · exact h hleft x hx
  · exact hns x hx

/-- Adding one column. -/
structure Adds (push : Projected → Node → Projected) : Prop where
  deferred : ∀ out n, (push out n).deferred = out.deferred
  nodes : ∀ around out n, nodesOccurrences around (push out n).nodes ≤
    nodesOccurrences around out.nodes + nodesOccurrences around [n]

/-- A member that is pushed adds its node. -/
private theorem adds_push (name : String) (replace : Bool) : Adds (·.push name · replace) where
  deferred := fun out n => deferred_push out name n replace
  nodes := fun _ out n => by simpa using nodes_push out name n replace

/-- A single expression that is pushed adds its node. -/
private theorem adds_pushScalar : Adds pushScalar where
  deferred := fun _ _ => rfl
  nodes := fun _ out n => by rw [nodes_pushScalar, nodesOccurrences_append]

/-- A selected expression that resolves keeps a projection resolving. -/
private theorem keeps_selected (hw : w.Resolves left) (hpush : Adds push) : (selectedWritten w push).Keeps left := by
  rintro around out _ ⟨n, hn, rfl⟩ hout
  exact hout.extend (hpush.deferred out n) (hpush.nodes around out n) (hw around [n] hn)

/-- What is selected for members of known parameters resolves, and these are the columns that are added. -/
theorem hidden_resolves (hknow : roles.Know left known) {hidden : List HiddenColumn} {nodes : List Node}
    (h : List.Forall₂ (fun h n => roles.wording (Role.fetched h.member) h.param around [n]) hidden nodes)
    (hhidden : ∀ h ∈ hidden, h.param ∈ known) :
    (List.zipWith (fun h n => (⟨n, some (HiddenColumn.column h)⟩ : Selected)) hidden nodes).map (·.node) = nodes ∧
      ∀ x ∈ nodesOccurrences around nodes, x.Resolves left := by
  induction h with
  | nil => exact ⟨rfl, nofun⟩
  | @cons first n hidden nodes hn _ ih =>
    obtain ⟨hfirst, hrest⟩ := List.forall_mem_cons.mp hhidden
    obtain ⟨hnodes, hresolves⟩ := ih hrest
    refine ⟨by rw [List.zipWith_cons_cons, List.map_cons, hnodes], ?_⟩
    intro x hx
    rw [nodesOccurrences_cons] at hx
    obtain hx | hx := Multiset.mem_add.mp hx
    · refine hknow.wording hfirst (fun role hrole => hrole.fetched first.member) around [n] hn x ?_
      rwa [nodesOccurrences_cons, nodesOccurrences_nil, add_zero]
    · exact hresolves x hx

/-- What is left for evaluation after fetching reads known parameters only, if it matters. -/
theorem keeps_left (hknow : roles.Know left known) (hreads : e.readsKnown left known = true) :
    (leftWritten roles name e).Keeps left := by
  rintro around out _ ⟨nodes, hnodes, rfl⟩ hout hleft x hx
  have hleft : left = true := hleft.resolve_right (by simp)
  have hparams : ∀ r ∈ e.reads, r.1 ∈ known := by simpa [Expr.readsKnown, hleft] using hreads
  obtain ⟨heq, hresolves⟩ := hidden_resolves hknow hnodes (by
    intro h hh
    obtain ⟨r, hr, rfl⟩ := List.mem_map.mp hh
    exact hparams r hr)
  rw [Projected.nodes, List.map_append, heq, nodesOccurrences_append] at hx
  exact (Multiset.mem_add.mp hx).elim (hout (.inl hleft) x) (hresolves x)

/-- An expression that resolves keeps a projection resolving, selected or left, if what it reads is known. -/
private theorem keeps_added (hw : w.Resolves left) (hpush : Adds push) (hknow : roles.Know left known)
    (hreads : e.readsKnown left known = true) : (addedWritten roles name e w push).Keeps left := by
  rintro around out out' (h | h) hout
  · exact keeps_selected hw hpush h hout
  · exact keeps_left hknow hreads h hout

/-- Keys of groups that resolve keep a projection resolving. -/
private theorem keeps_keys {keys : List (String × Wording)} (h : ∀ k ∈ keys, k.2.Resolves left) :
    (keysSelected keys).Keeps left := by
  rintro around out _ ⟨columns, hcolumns, rfl⟩ hout
  exact hout.extend (deferred_pushAll out columns) (nodes_pushAll out columns) (hcolumns.resolves h)

/-- The columns of a table keep a projection resolving. -/
private theorem keeps_row (t : TablePlace) : (rowSelected t).Keeps left := by
  rintro around out _ ⟨columns, hcolumns, rfl⟩ hout
  exact hout.extend (deferred_pushAll out columns) (nodes_pushAll out columns) hcolumns.resolves

/-- What an expression stands for, by itself or by its key, is known if the expression is closed. -/
theorem resolves_keyed (hknow : roles.Know left known) (he : e.isClosed left known = true) {role : Role}
    (hrole : e.keyed?.bind roles = some role) : role.Resolves left := by
  obtain ⟨param, hparam, hrole⟩ := Option.bind_eq_some_iff.mp hrole
  refine hknow param ?_ role hrole
  unfold Expr.keyed? at hparam
  split at hparam
  · cases hparam
    simpa [Expr.isClosed] using he
  · split at hparam
    · cases hparam
      simpa [Expr.isClosed] using he
    · cases hparam
  · cases hparam

/-- A closed member keeps a projection resolving. -/
private theorem keeps_member (hw : w.Resolves left) (hknow : roles.Know left known) (he : e.isClosed left known = true)
    (hreads : e.readsKnown left known = true) : (memberAdded roles name e w).Keeps left := by
  intro around out out' h hout
  have hadded : (addedWritten roles name e w _).Keeps left := keeps_added hw (adds_push name false) hknow hreads
  have hrole {role : Role} (h : e.keyed?.bind roles = some role) := resolves_keyed hknow he h
  unfold memberAdded at h
  generalize e.keyed?.bind roles = role? at h hrole
  split at h
  · exact absurd (hrole rfl) id
  · split at h
    · exact keeps_keys (hrole rfl) h hout
    · exact hadded h hout
  · exact hadded h hout

/-- A closed expression keeps a projection resolving. -/
private theorem keeps_body (hw : w.Resolves left) (hknow : roles.Know left known) (he : e.isClosed left known = true)
    (hreads : e.readsKnown left known = true) : (bodyWritten roles e w).Keeps left := by
  intro around out out' h hout
  have hrole {role : Role} (h : e.keyed?.bind roles = some role) := resolves_keyed hknow he h
  unfold bodyWritten at h
  generalize e.keyed?.bind roles = role? at h hrole
  split at h
  · exact absurd (hrole rfl) id
  · exact keeps_keys (hrole rfl) h hout
  · exact keeps_row _ h hout
  · exact absurd (hrole rfl) id
  · exact keeps_added hw adds_pushScalar hknow hreads h hout

/-- A selection without projection resolves. -/
private theorem keeps_whole {tables : List TablePlace} {keys : Option (List (String × Wording))}
    (h : ∀ ks, keys = some ks → ∀ k ∈ ks, k.2.Resolves left) : (wholeWritten tables keys).Keeps left := by
  intro around out out' hw hout
  unfold wholeWritten at hw
  split at hw
  · exact keeps_keys (h _ rfl) hw hout
  · obtain ⟨t, -, hw⟩ := hw
    exact keeps_row t hw hout

end Projected

/-! ## Queries -/

/-- All columns of a selection resolve if those of its clauses do. -/
theorem selectOccurrences_resolve {sel : Select}
    (hrows : ∀ x ∈ rowsOccurrences around sel.table.rows, x.Resolves left)
    (hjoins : ∀ j ∈ sel.joins, (∀ x ∈ rowsOccurrences around j.table.rows, x.Resolves left) ∧
      ∀ x ∈ j.on.occurrences (⟨sel.tables, false⟩ :: around), x.Resolves left)
    (hfilter : ∀ x ∈ optionOccurrences (⟨sel.tables, false⟩ :: around) sel.filter, x.Resolves left)
    (hkeys : ∀ x ∈ nodesOccurrences (⟨sel.tables, false⟩ :: around) sel.groupBy, x.Resolves left)
    (hcolumns : ∀ x ∈ nodesOccurrences (⟨sel.tables, !sel.deferred.isEmpty⟩ :: around) (sel.columns.map (·.node)),
      x.Resolves left)
    (hhaving : ∀ x ∈ optionOccurrences (⟨sel.tables, false⟩ :: around) sel.having, x.Resolves left)
    (horder : ∀ x ∈ nodesOccurrences (⟨sel.tables, false⟩ :: around) (sel.orderBy.map Prod.fst), x.Resolves left) :
    ∀ x ∈ selectOccurrences around sel, x.Resolves left := by
  obtain ⟨_, columns, ⟨rows, aliasName⟩, joins, filter, groupBy, having, orderBy, _, _, _, deferred⟩ := sel
  intro x hx
  simp only [selectOccurrences, columnOccurrences_eq, orderOccurrences_eq, tableOccurrences, Multiset.mem_add,
    Multiset.mem_singleton] at hx
  obtain ((((((rfl | hx) | hx) | hx) | hx) | hx) | hx) | hx := hx
  · exact .inl nofun
  · exact hcolumns x hx
  · exact hrows x hx
  · obtain ⟨j, hj, hx⟩ := mem_joinOccurrences hx
    exact hx.elim ((hjoins j hj).1 x) ((hjoins j hj).2 x)
  · exact hfilter x hx
  · exact hkeys x hx
  · exact hhaving x hx
  · exact horder x hx

/-- Tests resolve also when they are joined. -/
theorem conjunction_resolves {ns : List Node} (h : ∀ x ∈ nodesOccurrences around ns, x.Resolves left) :
    ∀ x ∈ optionOccurrences around (Node.conjunction ns), x.Resolves left := by
  intro x hx
  cases hc : Node.conjunction ns with
  | none => rw [hc] at hx; exact absurd hx (Multiset.notMem_zero x)
  | some n =>
    rw [hc] at hx
    exact h x (Multiset.mem_of_le ((Node.madeOf_conjunction hc).le around) hx)

/-- A test resolves if the value does that it tests. -/
theorem toPredicate_resolves {n : Node} (h : ∀ x ∈ nodesOccurrences around [n], x.Resolves left) :
    ∀ x ∈ n.toPredicate.occurrences around, x.Resolves left :=
  fun x hx => h x (Multiset.mem_of_le ((Node.madeOf_toPredicate n).le around) hx)

/-- What the later clauses of a query are over is known if its tables and keys are. -/
theorem resolves_outer {tables : List TablePlace} {keys : Option (List (String × Wording))}
    (htables : ∀ role ∈ tables.map Role.table, role.Resolves left)
    (hkeys : ∀ ks, keys = some ks → ∀ k ∈ ks, k.2.Resolves left) :
    ∀ role ∈ outerRoles tables keys, role.Resolves left := by
  cases keys with
  | some ks => exact List.forall_mem_singleton.mpr (hkeys ks rfl)
  | none => exact htables

/-- The nodes that a selection is grouped by resolve. -/
theorem grouping_resolves {keys : Option (List (String × Wording))} {groupBy : List Node}
    (hkeys : ∀ ks, keys = some ks → ∀ k ∈ ks, k.2.Resolves left) (h : groupingWritten keys around groupBy) :
    ∀ x ∈ nodesOccurrences around groupBy, x.Resolves left := by
  unfold groupingWritten at h
  split at h
  · obtain ⟨columns, hcolumns, rfl⟩ := h
    exact hcolumns.resolves (hkeys _ rfl)
  · subst h
    exact nofun

/-- Closed joins choose no aliases. -/
theorem unnamed_of_joinsAreClosed {joins : List Join} (h : joinsAreClosed left known joins = true) :
    Unnamed joins := by
  induction joins with
  | nil => exact nofun
  | cons j rest ih =>
    obtain ⟨kind, source, ⟨params, body⟩, aliasName⟩ := j
    simp only [joinsAreClosed, Bool.and_eq_true, Option.isNone_iff_eq_none] at h
    exact List.forall_mem_cons.mpr ⟨h.1.1.1, ih h.2⟩

/-- The columns of a projection resolve wherever expressions that are left for evaluation after fetching matter, or
where there are none. -/
theorem Projected.Resolves.resolves {out : Projected} {tables : List Table}
    (h : out.Resolves left (⟨tables, !out.deferred.isEmpty⟩ :: around)) :
    ∀ x ∈ nodesOccurrences (⟨tables, !out.deferred.isEmpty⟩ :: around) out.nodes, x.Resolves left := by
  intro x hx
  by_cases hleft : left = true ∨ out.deferred = []
  · exact h hleft x hx
  · obtain ⟨hnot, hdeferred⟩ := not_or.mp hleft
    obtain ⟨inner, haround⟩ := around_of_mem_nodes _ hx
    have hflag : (!out.deferred.isEmpty) = true := by simp [hdeferred]
    refine .inr ⟨Bool.eq_false_of_not_eq_true hnot, ⟨tables, !out.deferred.isEmpty⟩, ?_, hflag⟩
    rw [haround]
    simp

section Closed

variable (left) (c)

mutual

/-- **Where all parameters are known, all that may be written for an expression resolves**, by induction on the
expression.

**Proof sketch.** What is written for a member of a known parameter has an alias that means a table around. Whatever
is composed of parts has the columns of its parts only, and the parameters of a lambda are known in its body since
rows and groups of known queries are what they stand for. -/
theorem Expr.wording_resolves : ∀ (e : Expr) (roles : Roles) (known : List String), roles.Know left known →
    e.isClosed left known = true → (e.wording c roles).Resolves left
  | .param name, roles, known, hknow, he => by
    rw [Expr.isClosed, List.contains_iff_mem] at he
    exact hknow.wording he fun role hrole => hrole.whole
  | .member target name, roles, known, hknow, he => by
    rw [Expr.isClosed] at he
    have hw := target.wording_resolves roles known hknow he
    rw [Expr.wording]
    cases target with
    | param x =>
      rw [Expr.isClosed, List.contains_iff_mem] at he
      exact hknow.wording he fun role hrole => hrole.member name
    | member inner key =>
      refine composed_member hknow nofun ?_ hw
      rintro x key' ⟨⟩
      simpa [Expr.isClosed] using he
    | _ => exact composed_member hknow nofun nofun hw
  | .query q, roles, known, hknow, he => by
    rw [Expr.isClosed] at he
    rintro around ns ⟨sel, t, hns, hw⟩ x hx
    have hall := queryWritten_resolves q roles known hknow he around sel hw
    obtain rfl | rfl := hns
    · rw [nodesOccurrences_cons, nodesOccurrences_nil, add_zero] at hx
      exact hall x hx
    · rw [nodesOccurrences_cons, nodesOccurrences_nil, add_zero] at hx
      exact hall x (Multiset.mem_of_le (Lowering.selectOccurrences_withoutColumns around sel) hx)
  | .call (some target) type method args, roles, known, hknow, he => by
    rw [Expr.isClosed, Bool.and_eq_true] at he
    have htarget := target.wording_resolves roles known hknow he.1
    have hargs := itemParts_resolve args roles known hknow he.2
    rw [Expr.wording]
    refine composed_call hknow ?_ htarget hargs
    rintro x rfl
    simpa [Expr.isClosed] using he.1
  | .call none type method args, roles, known, hknow, he => by
    rw [Expr.isClosed] at he
    rw [Expr.wording]
    exact composed_callOf (itemParts_resolve args roles known hknow he)
  | .binary op l r, roles, known, hknow, he => by
    rw [Expr.isClosed, Bool.and_eq_true] at he
    exact composed_binary (l.wording_resolves roles known hknow he.1) (r.wording_resolves roles known hknow he.2)
  | .unary op e, roles, known, hknow, he => by
    rw [Expr.isClosed] at he
    exact composed_unary (e.wording_resolves roles known hknow he)
  | .conditional test a b, roles, known, hknow, he => by
    rw [Expr.isClosed, Bool.and_eq_true, Bool.and_eq_true] at he
    exact composed_conditional (test.wording_resolves roles known hknow he.1.1)
      (a.wording_resolves roles known hknow he.1.2) (b.wording_resolves roles known hknow he.2)
  | .convert e target, roles, known, hknow, he => by
    rw [Expr.isClosed] at he
    exact composed_convert (e.wording_resolves roles known hknow he)
  | .array items, roles, known, hknow, he => by
    rw [Expr.isClosed] at he
    exact composed_array (itemParts_resolve items roles known hknow he)
  | .constant _, _, _, _, _ => composed_barren rfl
  | .captured _ _, _, _, _, _ => composed_barren rfl
  | .static _ _, _, _, _, _ => composed_barren rfl
  | .object _, _, _, _, _ => composed_barren rfl
  | .lambda _ _, _, _, _, _ => composed_barren rfl

/-- The parts of closed items resolve. -/
private theorem itemParts_resolve : ∀ (es : List Expr) (roles : Roles) (known : List String), roles.Know left known →
    areClosed left known es = true → PartsResolve left (itemParts c roles es)
  | [], _, _, _, _ => nofun
  | e :: rest, roles, known, hknow, hes => by
    rw [areClosed, Bool.and_eq_true] at hes
    have hrest := itemParts_resolve rest roles known hknow hes.2
    have hvalue := e.wording_resolves roles known hknow hes.1
    cases e with
    | lambda params body =>
      refine List.forall_mem_cons.mpr ⟨⟨hvalue, ?_⟩, hrest⟩
      intro selected hselected bound hbound
      cases hselected
      have hbody := hes.1
      rw [Expr.isClosed] at hbody
      exact body.wording_resolves _ _ (hknow.under hbound params) hbody
    | _ =>
      refine List.forall_mem_cons.mpr ⟨⟨hvalue, ?_⟩, hrest⟩
      intro selected hselected bound hbound
      cases hselected
      exact hvalue

/-- The parts of a closed key that is an object resolve. -/
private theorem namedWordings_resolve : ∀ (ms : List (String × Expr)) (roles : Roles) (known : List String),
    roles.Know left known → membersAreClosed left known ms = true →
    ∀ k ∈ namedWordings c roles ms, k.2.Resolves left
  | [], _, _, _, _ => nofun
  | (name, e) :: rest, roles, known, hknow, hms => by
    rw [membersAreClosed, Bool.and_eq_true] at hms
    exact List.forall_mem_cons.mpr ⟨e.wording_resolves roles known hknow hms.1,
      namedWordings_resolve rest roles known hknow hms.2⟩

/-- The members of a closed object keep a projection resolving. -/
private theorem objectWritten_keeps : ∀ (ms : List (String × Expr)) (roles : Roles) (known : List String),
    roles.Know left known → columnsAreClosed left known ms = true → (objectWritten c roles ms).Keeps left
  | [], _, _, _, _ => by
    rintro around out _ rfl hout
    exact hout
  | (name, e) :: rest, roles, known, hknow, hms => by
    rw [columnsAreClosed, Bool.and_eq_true, Bool.and_eq_true] at hms
    have hw := e.wording_resolves roles known hknow hms.1.1
    have hrest := objectWritten_keeps rest roles known hknow hms.2
    rintro around out out' ⟨mid, hmember, hothers⟩ hout
    exact hrest hothers (Projected.keeps_member hw hknow hms.1.1 hms.1.2 hmember hout)

/-- The members of a closed object that is laid over a projection keep it resolving. -/
private theorem overlayWritten_keeps : ∀ (ms : List (String × Expr)) (roles : Roles) (known : List String),
    roles.Know left known → columnsAreClosed left known ms = true → (overlayWritten c roles ms).Keeps left
  | [], _, _, _, _ => by
    rintro around out _ rfl hout
    exact hout
  | (name, e) :: rest, roles, known, hknow, hms => by
    rw [columnsAreClosed, Bool.and_eq_true, Bool.and_eq_true] at hms
    have hw := e.wording_resolves roles known hknow hms.1.1
    have hrest := overlayWritten_keeps rest roles known hknow hms.2
    rintro around out out' ⟨mid, hmember, hothers⟩ hout
    exact hrest hothers (Projected.keeps_added hw (Projected.adds_push name true) hknow hms.1.2 hmember hout)

/-- Closed tests resolve. -/
private theorem testsWritten_resolves : ∀ (tests : List (LambdaOf Expr)) (roles : Roles) (known : List String)
    (bound : List Role), roles.Know left known → (∀ role ∈ bound, role.Resolves left) →
    testsAreClosed left known tests = true → (testsWritten c roles bound tests).Resolves left
  | [], _, _, _, _, _, _ => by
    rintro around _ rfl
    exact nofun
  | ⟨params, body⟩ :: rest, roles, known, bound, hknow, hbound, htests => by
    rw [testsAreClosed, Bool.and_eq_true] at htests
    have hw := body.wording_resolves _ _ (hknow.under hbound params) htests.1
    have hrest := testsWritten_resolves rest roles known bound hknow hbound htests.2
    rintro around _ ⟨n, others, rfl, hn, hothers⟩ x hx
    rw [nodesOccurrences_cons] at hx
    exact (Multiset.mem_add.mp hx).elim (toPredicate_resolves (hw around _ hn) x) (hrest around others hothers x)

/-- Closed sort keys resolve. -/
private theorem orderWritten_resolves : ∀ (keys : List (LambdaOf Expr × Bool)) (roles : Roles) (known : List String)
    (bound : List Role), roles.Know left known → (∀ role ∈ bound, role.Resolves left) →
    orderIsClosed left known keys = true → ∀ around ns, orderWritten c roles bound keys around ns →
      ∀ x ∈ nodesOccurrences around (ns.map Prod.fst), x.Resolves left
  | [], _, _, _, _, _, _ => by
    rintro around _ rfl
    exact nofun
  | (⟨params, body⟩, down) :: rest, roles, known, bound, hknow, hbound, hkeys => by
    rw [orderIsClosed, Bool.and_eq_true] at hkeys
    have hw := body.wording_resolves _ _ (hknow.under hbound params) hkeys.1
    have hrest := orderWritten_resolves rest roles known bound hknow hbound hkeys.2
    rintro around _ ⟨n, others, rfl, hn, hothers⟩ x hx
    rw [List.map_cons, nodesOccurrences_cons] at hx
    refine (Multiset.mem_add.mp hx).elim (fun hx => hw around _ hn x ?_) (hrest around others hothers x)
    rwa [nodesOccurrences_cons, nodesOccurrences_nil, add_zero]

/-- Closed joins resolve, their rows as well as their conditions. -/
private theorem joinsWritten_resolve : ∀ (joins : List (JoinOf Expr Source)) (roles : Roles) (known : List String)
    (tables : List TablePlace) (seen : Nat), roles.Know left known → joinsAreClosed left known joins = true →
    ∀ around inside joined, joinsWritten c roles around inside tables seen joins joined →
      ∀ j ∈ joined, (∀ x ∈ rowsOccurrences around j.table.rows, x.Resolves left) ∧
        ∀ x ∈ j.on.occurrences inside, x.Resolves left
  | [], _, _, _, _, _, _ => by
    rintro around inside _ rfl
    exact nofun
  | ⟨kind, source, ⟨params, body⟩, aliasName⟩ :: rest, roles, known, tables, seen, hknow, hjoins => by
    simp only [joinsAreClosed, Bool.and_eq_true] at hjoins
    obtain ⟨⟨⟨-, hsource⟩, hbody⟩, hothers⟩ := hjoins
    have hrows := sourceWritten_resolves source hsource
    have hw := body.wording_resolves _ _ (hknow.under (resolves_tables (tables.take (seen + 1))) params) hbody
    have hrest := joinsWritten_resolve rest roles known tables (seen + 1) hknow hothers
    rintro around inside _ ⟨table, n, others, rfl, hwritten, hn, hjoined⟩
    exact List.forall_mem_cons.mpr ⟨⟨hrows around _ hwritten, toPredicate_resolves (hw inside _ hn)⟩,
      hrest around inside others hjoined⟩

/-- The keys of a closed grouping resolve. -/
private theorem groupWordings_resolve : ∀ (groupBy : Option (LambdaOf Expr)) (roles : Roles) (known : List String)
    (bound : List Role), roles.Know left known → (∀ role ∈ bound, role.Resolves left) →
    groupingIsClosed left known groupBy = true →
    ∀ ks, groupWordings c roles bound groupBy = some ks → ∀ k ∈ ks, k.2.Resolves left
  | none, _, _, _, _, _, _ => nofun
  | some ⟨params, body⟩, roles, known, bound, hknow, hbound, hkeys => by
    rw [groupingIsClosed] at hkeys
    have hunder := hknow.under hbound params
    intro ks hks
    cases body with
    | object ms =>
      rw [Expr.isClosed] at hkeys
      cases hks
      exact namedWordings_resolve ms _ _ hunder hkeys
    | _ =>
      cases hks
      exact List.forall_mem_singleton.mpr (Expr.wording_resolves _ _ _ hunder hkeys)

/-- A closed projection resolves.

**Proof sketch.** By the form of the projection. Under its lambda all parameters are known, and each part of an
object, and any other body, resolves by what is known of closed expressions. -/
private theorem projectionWritten_keeps :
    ∀ (projection : Option (ProjectionOf Expr)) (roles : Roles) (known : List String)
    (tables : List TablePlace) (bound : List Role) (keys : Option (List (String × Wording))),
    roles.Know left known → (∀ role ∈ bound, role.Resolves left) →
    (∀ ks, keys = some ks → ∀ k ∈ ks, k.2.Resolves left) → projectionIsClosed left known projection = true →
    ∀ around out, projectionWritten c roles tables bound keys projection around out → out.Resolves left around
  | none, _, _, _, _, _, _, _, hkeys, _ => fun _ _ h => Projected.keeps_whole hkeys h Projected.resolves_empty
  | some (.select ⟨params, body⟩), roles, known, tables, bound, keys, hknow, hbound, _, hp => by
    have hunder := hknow.under hbound params
    intro around out h
    cases body with
    | object ms =>
      rw [projectionIsClosed] at hp
      exact objectWritten_keeps ms _ _ hunder hp h Projected.resolves_empty
    | _ =>
      simp only [projectionIsClosed, Bool.and_eq_true] at hp
      exact Projected.keeps_body (Expr.wording_resolves _ _ _ hunder hp.1) hunder hp.1 hp.2 h
        Projected.resolves_empty
  | some (.flatten ⟨params, body⟩), roles, known, tables, bound, keys, hknow, _, _, hp => by
    have hunder := hknow.under (resolves_tables tables) params
    intro around out h
    cases body with
    | object ms =>
      rw [projectionIsClosed] at hp
      obtain ⟨first, hfirst, hoverlay⟩ := h
      exact overlayWritten_keeps ms _ _ hunder hp hoverlay
        (Projected.keeps_whole (by simp) hfirst Projected.resolves_empty)
    | _ => exact absurd h id

/-- **The columns of what is written for a query resolve** if all parameters are known.

**Proof sketch.** Clause by clause. The tables of the selection resolve since it is them that the columns inside are
looked up in; what stands in the clauses after the groups is the groups' keys or their rows, which resolve as well. -/
theorem queryWritten_resolves : ∀ (q : QueryOf Expr Source) (roles : Roles) (known : List String),
    roles.Know left known → queryIsClosed left known q = true →
    ∀ around sel, queryWritten c roles q around sel → ∀ x ∈ selectOccurrences around sel, x.Resolves left
  | ⟨source, aliasName, joins, filters, groupBy, having, orderBy, projection, _, _, _⟩, roles, known, hknow, hq => by
    simp only [queryIsClosed, Bool.and_eq_true] at hq
    obtain ⟨⟨⟨⟨⟨⟨⟨hnone, hsource⟩, hjoins⟩, hfilters⟩, hgroupBy⟩, hprojection⟩, hhaving⟩, horder⟩ := hq
    have hunnamed := unnamed_of_joinsAreClosed hjoins
    intro around sel hwritten
    obtain ⟨hrows, hon, ⟨tests, htests, hfilter⟩, hgrouping, ⟨out, hout, hcolumns, -, hdeferred⟩,
      ⟨groupTests, hgroupTests, hgroupFilter⟩, hsorted⟩ := hwritten (Option.isNone_iff_eq_none.mp hnone) hunnamed
    have hinner : ∀ role ∈ (tablePlaces around.length
        (source.entity? c.model :: joins.map (·.source.entity? c.model))).map Role.table, role.Resolves left :=
      resolves_tables _
    have hkeys := groupWordings_resolve groupBy roles known _ hknow hinner hgroupBy
    have houter := resolves_outer hinner hkeys
    have hsettled := projectionWritten_keeps projection roles known _ _ _ hknow houter hkeys hprojection _ out hout
    rw [hdeferred] at hsettled
    refine selectOccurrences_resolve (sourceWritten_resolves source hsource around _ hrows)
      (joinsWritten_resolve joins roles known _ 1 hknow hjoins around _ _ hon) ?_ ?_ ?_ ?_
      (orderWritten_resolves orderBy roles known _ hknow houter horder _ _ hsorted)
    · rw [hfilter]
      exact conjunction_resolves (testsWritten_resolves filters roles known _ hknow hinner hfilters _ _ htests)
    · exact grouping_resolves hkeys hgrouping
    · rw [hcolumns, hdeferred]
      exact hsettled.resolves
    · rw [hgroupFilter]
      exact conjunction_resolves (testsWritten_resolves having roles known _ hknow houter hhaving _ _ hgroupTests)

/-- A closed source resolves. -/
private theorem sourceWritten_resolves : ∀ source : Source, source.isClosed left = true →
    ∀ around rows, sourceWritten c around source rows → ∀ x ∈ rowsOccurrences around rows, x.Resolves left
  | .entity _, _ => by
    rintro around _ ⟨e, -, rfl⟩
    exact nofun
  | .derived q, hq => by
    rw [Source.isClosed] at hq
    rintro around _ ⟨sel, rfl, hw⟩
    exact queryWritten_resolves q Roles.unknown [] Roles.know_nil hq around sel hw
  | .cte ⟨_, _, _, _, _⟩, _ => by
    rintro around _ rfl
    exact nofun
  | .selfRef _, _ => by
    rintro around _ rfl
    exact nofun

end

end Closed

/-! ## Within statements -/

/-- The columns of a planned query that is closed resolve. -/
theorem columns_resolve {q : Query} {s : Scope} {p p' : Progress} {sel : Select}
    (h : (planQuery q).Gives s p sel p') (hclosed : q.IsClosed left) :
    ∀ o ∈ selectOccurrences [] sel, o.Resolves left := by
  have hwritten := (query_isWritten q (Scope.plays_unknown []) h).2
  exact queryWritten_resolves left s.compiler q Roles.unknown [] Roles.know_nil hclosed [] sel hwritten

namespace Compiler

variable {job : Job} {results : List Compiled}

/-- **Bodies that stand by themselves.** Each derived table and each query of a common table expression, at any depth,
is one of the queries of its statement, and its selection is what is written for that query if nothing is known of the
parameters around: node by node, what is read through the query's own lambda parameters is a column whose alias means
the table that the parameter is bound to. If the query mentions parameters of its own lambdas only and chooses no
aliases, each column within the selection has the alias of a table within it. Where columns are selected beside
expressions that are left for evaluation after fetching, what these read must be known as well.

**Proof sketch.** A passage of the statement is planned in some scope. Whatever that scope binds, its parameters may
play the role of something outside, so the planned selection is what is written for the query in no particular place.
In a closed query all parameters are known, so by induction on the query all columns in it come from known tables and
known keys, whose aliases are those of tables around them. -/
theorem bodies_closed (h : c.results job = .ok results) :
    ∃ ts, c.texts job = .ok ts ∧ (∀ r ∈ results, ∃ us, us.Sublist ts ∧ c.Composes r us) ∧
      ∀ t ∈ ts, ∀ use sel, (use, sel) ∈ t.nested → use.isTable = true →
        ∃ s ∈ job.statements, ∃ unions q, .query true unions q ∈ s.passages ∧ c.PlansAs q sel ∧
          queryWritten c Roles.unknown q [] sel ∧
          (q.IsClosed true → ∀ o ∈ selectOccurrences [] sel, ∀ d, o.meant? = some d → d ≠ none) ∧
          (q.IsClosed false → ∀ o ∈ selectOccurrences [] sel, (∀ l ∈ o.around, l.deferring = false) →
            ∀ d, o.meant? = some d → d ≠ none) := by
  obtain ⟨ts, hts, hcomposed⟩ := texts_of_results h
  refine ⟨ts, hts, hcomposed, ?_⟩
  intro t ht use sel hmem htable
  obtain ⟨s, hs, p, hsourced⟩ := sourced_of_texts hts t ht
  have huse : use ≠ .tested := by
    rintro rfl
    cases htable
  obtain ⟨unions, q, hsite, ⟨s', p₀, p₁, rfl, hg⟩, -⟩ := plansAs_of_nested hsourced hmem huse
  rw [htable] at hsite
  have hwritten := (query_isWritten q (Scope.plays_unknown []) hg).2
  refine ⟨s, hs, unions, q, hsite, ⟨s', p₀, p₁, rfl, hg⟩, hwritten, ?_, ?_⟩
  · intro hclosed o ho d hd hnone
    subst hnone
    obtain hmeant | ⟨hfalse, -⟩ := columns_resolve hg hclosed o ho
    · exact hmeant hd
    · cases hfalse
  · intro hclosed o ho haround d hd hnone
    subst hnone
    obtain hmeant | ⟨-, l, hl, hdeferring⟩ := columns_resolve hg hclosed o ho
    · exact hmeant hd
    · cases (haround l hl).symm.trans hdeferring

end Compiler

/-- The orders that pass a test. -/
def testedOrders (test : Expr) : Query := (Query.ofSource (.entity "Order")).filter (.lambda ["o"] test)

/-- The customers for whom there are such orders, in a derived table. -/
def customersWith (test : Expr) : Query :=
  (Query.ofSource (.entity "Customer")).filter (.lambda ["c"]
    (.call none (some "Sql") "Exists" [.query (Query.ofSource (.derived (testedOrders test)))]))

/-- The buyer of an order has the number of something. -/
def buyerIs (param : String) : Expr := .binary .eq (.member (.param "o") "BuyerId") (.member (.param param) "Id")

/-- The orders of a buyer that the body itself binds read nothing from around it. -/
theorem ownBuyers_closed :
    ∃ results t body, shop.results (.statement (.select (customersWith (buyerIs "o")))) = .ok results ∧
      shop.texts (.statement (.select (customersWith (buyerIs "o")))) = .ok [t] ∧ (.derived, body) ∈ t.nested ∧
      (testedOrders (buyerIs "o")).IsClosed true ∧
      queryWritten shop Roles.unknown (testedOrders (buyerIs "o")) [] body ∧
      (∀ o ∈ selectOccurrences [] body, ∀ d, o.meant? = some d → d ≠ none) := by
  obtain ⟨results, h⟩ : ∃ results,
      shop.results (.statement (.select (customersWith (buyerIs "o")))) = .ok results := ⟨_, rfl⟩
  obtain ⟨t, tested, body, htexts, hnested⟩ : ∃ t tested body,
      shop.texts (.statement (.select (customersWith (buyerIs "o")))) = .ok [t] ∧
        t.nested = [(.tested, tested), (.derived, body)] := ⟨_, _, _, rfl, rfl⟩
  have hmem : (.derived, body) ∈ t.nested := by simp [hnested]
  obtain ⟨ts, hts, -, hall⟩ := Compiler.bodies_closed h
  cases hts.symm.trans htexts
  obtain ⟨s, hs, unions, q, hpassage, -, hwritten, hresolves, -⟩ := hall t List.mem_cons_self .derived body hmem rfl
  -- the only query of the statement that is read as a table
  have hpassages : (Statement.select (customersWith (buyerIs "o"))).passages =
      [.query false [] _, .query false [] _, .query true [] (testedOrders (buyerIs "o"))] := rfl
  obtain rfl := List.mem_singleton.mp hs
  obtain ⟨-, rfl⟩ : unions = [] ∧ q = testedOrders (buyerIs "o") := by
    rw [hpassages] at hpassage
    simpa only [List.mem_cons, List.not_mem_nil, or_false, Passage.query.injEq, Bool.true_eq_false, false_and, true_and,
      false_or] using hpassage
  have hclosed : (testedOrders (buyerIs "o")).IsClosed true := rfl
  exact ⟨results, t, body, h, htexts, hmem, hclosed, hwritten, hresolves hclosed⟩

/-- A column with the alias of the body's own table is not what is written for a parameter that is bound to a table
around it. -/
example : ¬ (buyerIs "c").wording shop (Roles.none.under ["c", "o"] [.table ⟨⟨0, 0⟩, none⟩, .table ⟨⟨1, 0⟩, none⟩])
    [⟨[⟨.named "orders" none, some "b"⟩], false⟩, ⟨[⟨.named "customer" none, some "a"⟩], false⟩]
    [.binary .eq (.column (some "b") "BuyerId" .int32) (.column (some "b") "Id" .int32) .bool] := by
  intro h
  obtain ⟨m, k, hm, hk, hop⟩ := Expr.wording_binary (by decide : BinaryOp.eq ≠ .coalesce) (fun _ => rfl) h
  obtain ⟨_, _, _, -, -, ⟨⟩⟩ := hm
  obtain ⟨a, name, type, hseat, -, ⟨⟩⟩ := hk
  obtain ⟨_, -, heq⟩ := Except.bind_eq_ok.mp hop
  cases heq
  exact absurd hseat (by decide)

set_option maxRecDepth 1000 in
/-- A parameter of an enclosing query is written with the alias of a table of the body. -/
example : (shop.select (customersWith (buyerIs "c"))).map (·.sql) =
    .ok ("SELECT a.`id` AS `Id`,a.`age` AS `Age` FROM `customer` a WHERE EXISTS(SELECT 1 FROM " ++
      "(SELECT a.`id` AS `Id`,a.`buyer` AS `BuyerId` FROM `orders` a WHERE a.`buyer`=a.`id`) b)") := by rfl

end LambdaSql
