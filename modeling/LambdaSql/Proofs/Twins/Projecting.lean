import LambdaSql.Proofs.Twins.Forms

/-!
# Projections of twins

Projections of twins have the same columns but for bound values, and the same shape. What is left for evaluation
after fetching is left in both; it may hold captured values, so it is not compared.

## Main definitions

* `Projected.blank` - a projection without bound values and without what is left.
* `Projected.NamedAlike` - members of one name that are planned alike.

## Main results

* `Projected.whole_eq_of_blank` - projections of whole rows and of groups.
* `Projected.alike_body`, `Projected.alike_object`, `Projected.alike_overlay` - the forms of projections.
-/

namespace LambdaSql

open Planning

namespace Projected

/-- A projection so far with bound values blanked, without what is left for evaluation after fetching. -/
def blank (out : Projected) : Projected :=
  { out with columns := out.columns.map Selected.blank, deferred := [] }

/-- Projections are alike where their columns are and their shapes are the same. -/
theorem blank_eq_iff {out out' : Projected} : out.blank = out'.blank ↔
    out.columns.map Selected.blank = out'.columns.map Selected.blank ∧ out.shape = out'.shape := by
  simp [blank]

/-! ## Columns -/

section Columns

variable (out : Projected) (name : String) (n : Node)

/-- A blanked node has the same name in a projection. -/
private theorem aliasFor_blank : aliasFor name n.blank = aliasFor name n := by cases n <;> rfl

/-- A blanked node has the same name as a single expression. -/
private theorem scalarName_blank : scalarName n.blank = scalarName n := by cases n <;> rfl

/-- A pushed column is blanked with the projection. -/
theorem blank_push (replace : Bool) : (out.push name n replace).blank = out.blank.push name n.blank replace := by
  have hselected : Selected.blank ⟨n, aliasFor name n⟩ = ⟨n.blank, aliasFor name n.blank⟩ := by
    rw [aliasFor_blank]
    rfl
  unfold push
  rw [show out.blank.shape = out.shape from rfl, n.type_blank]
  cases out.shape.findIdx? (·.name == name) with
  | none => simp [blank, hselected]
  | some i =>
    cases replace with
    | true => simp [blank, hselected, List.map_set]
    | false => simp [blank, hselected]

/-- Pushed columns are blanked one by one. -/
private theorem blank_pushAll (columns : List (String × Node)) :
    (out.pushAll columns).blank = out.blank.pushAll (blankNamed columns) := by
  unfold pushAll blankNamed
  induction columns generalizing out with
  | nil => rfl
  | cons c rest ih => rw [List.foldl_cons, ih, blank_push, List.map_cons, List.foldl_cons]; rfl

/-- A single pushed expression is blanked. -/
private theorem blank_pushScalar : (out.pushScalar n).blank = out.blank.pushScalar n.blank := by
  simp [pushScalar, blank, scalarName_blank, Node.type_blank, Selected.blank]

end Columns

section Whole

variable {out out' : Projected} {ks ks' : List (String × Node)} {g? g?' : Option Grouping}

/-- Projections that are alike stay so with columns that are alike. -/
private theorem pushAll_eq_of_blank (hout : out.blank = out'.blank) (hks : blankNamed ks = blankNamed ks') :
    (out.pushAll ks).blank = (out'.pushAll ks').blank := by
  rw [blank_pushAll, blank_pushAll, hout, hks]

/-- Groupings that are alike are projected alike as a whole. -/
theorem whole_eq_of_blank (tables : List TableBinding) (h : g?.map Grouping.blank = g?'.map Grouping.blank) :
    (whole tables g?).blank = (whole tables g?').blank := by
  cases rel_of_map_eq h with
  | none => rfl
  | some hg => exact pushAll_eq_of_blank rfl (Grouping.mk.inj hg).1

end Whole

/-! ## Members -/

section Members

variable {C : Expr → Expr → Prop} {c : Compiler} {out out' : Projected} {o o' : Operand} {e e' : Expr}

/-- The column of a member is planned alike. -/
private theorem alike_columnOf (param member : String) :
    Alike c Node.blank (columnOf param member) (columnOf param member) := by
  unfold columnOf
  refine Alike.lookup.bind fun b b' hb => ?_
  obtain ⟨t, rfl, rfl⟩ | ⟨g, g', rfl, rfl, hg⟩ := Binding.cases_of_blank hb
  · exact .ofExcept rfl
  · exact .ofExcept (by rw [g.key_blank, g'.key_blank, hg])

/-- Twins are left with the same columns: they read the same members. -/
theorem alike_leave (hout : out.blank = out'.blank) (h : e.Twins C e') (name : String) :
    Alike c blank (out.leave name e) (out'.leave name e') := by
  unfold leave
  rw [h.reads]
  refine Alike.bind (f := List.map Selected.blank) (.mapM (List.forall₂_same.mpr fun hidden _ => ?_))
    fun columns columns' hcolumns => .pure ?_
  · exact (alike_columnOf ..).bind fun n n' hn => .pure (congrArg (SelectedOf.mk · _) hn)
  · obtain ⟨hbefore, hshape⟩ := blank_eq_iff.mp hout
    exact blank_eq_iff.mpr ⟨by rw [List.map_append, List.map_append, hbefore, hcolumns], hshape⟩

/-- What a name stands for is a grouping on both sides, of the same keys, or on neither. -/
theorem alike_named {s s' : Scope} (hs : s.blank = s'.blank) (param? : Option String) :
    Alike c (Option.map Grouping.blank)
      (match param?.bind s.binding? with
        | some (.grouping g) => pure (some g)
        | _ => pure none : Planning (Option Grouping))
      (match param?.bind s'.binding? with
        | some (.grouping g) => pure (some g)
        | _ => pure none) := by
  cases param? with
  | none => exact .pure rfl
  | some name =>
    have hb := Scope.binding?_rel hs name
    rw [Option.bind_some, Option.bind_some]
    generalize s.binding? name = b? at hb
    generalize s'.binding? name = b?' at hb
    cases hb with
    | none => exact .pure rfl
    | some hb =>
      obtain ⟨t, rfl, rfl⟩ | ⟨g, g', rfl, rfl, hg⟩ := Binding.cases_of_blank hb
      · exact .pure rfl
      · exact .pure (congrArg some hg)

/-- Twins stand for one parameter, by itself or by its key, or for none. -/
theorem alike_grouping? (h : e.Twins C e') :
    Alike c (Option.map Grouping.blank) (grouping? e) (grouping? e') := by
  unfold grouping?
  refine Alike.read_bind fun s s' _ _ hs => ?_
  cases h with
  | param name => exact alike_named hs (some name)
  | member _ hinner =>
    cases hinner with
    | param p => exact alike_named hs _
    | _ => exact alike_named hs none
  | _ => exact alike_named hs none

/-- Members of twins are projected alike. -/
theorem alike_member (hout : out.blank = out'.blank) (h : o.Alike C c o') (name : String) (replace : Bool) :
    Alike c blank (out.member name o replace) (out'.member name o' replace) := by
  unfold member
  refine (Alike.projected h.value).bind fun n? n?' heq => ?_
  cases rel_of_map_eq heq with
  | none => exact alike_leave hout h.source name
  | some hn => exact .pure (by rw [blank_push, blank_push, hout, hn])

/-- A single expression is projected alike. -/
private theorem alike_scalar (hout : out.blank = out'.blank) (h : o.Alike C c o') :
    Alike c blank (out.scalar o) (out'.scalar o') := by
  unfold scalar
  refine (Alike.projected h.value).bind fun n? n?' heq => ?_
  cases rel_of_map_eq heq with
  | none =>
    dsimp only
    rw [h.source.memberName]
    exact alike_leave hout h.source _
  | some hn => exact .pure (by rw [blank_pushScalar, blank_pushScalar, hout, hn])

/-- Bodies of twins are projected alike. -/
theorem alike_body (hout : out.blank = out'.blank) (h : o.Alike C c o') :
    Alike c blank (out.body o) (out'.body o') := by
  have hscalar := alike_scalar hout h
  have hsource := h.source
  unfold body
  refine (alike_grouping? h.source).bind fun g? g?' heq => ?_
  cases rel_of_map_eq heq with
  | some hg => exact .pure (pushAll_eq_of_blank hout (Grouping.mk.inj hg).1)
  | none =>
    dsimp only
    generalize o.source = e at hsource
    generalize o'.source = e' at hsource
    cases hsource with
    | param p =>
      refine Alike.lookup.bind fun b b' hb => ?_
      obtain ⟨t, rfl, rfl⟩ | ⟨g, g', rfl, rfl, hg⟩ := Binding.cases_of_blank hb
      · exact .pure (pushAll_eq_of_blank hout rfl)
      · exact .pure (pushAll_eq_of_blank hout (Grouping.mk.inj hg).1)
    | _ => exact hscalar

end Members

/-! ## Objects -/

section Objects

variable {C : Expr → Expr → Prop} {c : Compiler} {out out' : Projected} {ms ms' : List (String × Operand)}

/-- Members of one name that are planned alike. -/
def NamedAlike (C : Expr → Expr → Prop) (c : Compiler) (m m' : String × Operand) : Prop :=
  m.1 = m'.1 ∧ m.2.Alike C c m'.2

/-- Objects of twins are projected alike.

**Proof sketch.** By induction on the members. The member is the key of groups with several keys in both runs or in
neither, and is projected alike either way. -/
theorem alike_object (hout : out.blank = out'.blank) (h : List.Forall₂ (NamedAlike C c) ms ms') :
    Alike c blank (out.object ms) (out'.object ms') := by
  induction h generalizing out out' with
  | nil => exact .pure hout
  | @cons m m' rest rest' hm _ ih =>
    obtain ⟨name, o⟩ := m
    obtain ⟨_, o'⟩ := m'
    obtain ⟨rfl, ho⟩ := hm
    have added : Alike c blank (do object (← out.member name o false) rest)
        (do object (← out'.member name o' false) rest') :=
      (alike_member hout ho name false).bind fun out out' hout => ih hout
    simp only [object]
    refine (alike_grouping? ho.source).bind fun g? g?' heq => ?_
    cases rel_of_map_eq heq with
    | none => exact added
    | @some g g' hg =>
      have hkeys := (Grouping.mk.inj hg).1
      have hlength : g.keys.length = g'.keys.length := by simpa [blankNamed] using congrArg List.length hkeys
      dsimp only
      rw [hlength]
      split
      · exact ih (pushAll_eq_of_blank hout hkeys)
      · exact added

/-- Objects of twins over a table's columns are projected alike. -/
theorem alike_overlay (hout : out.blank = out'.blank) (h : List.Forall₂ (NamedAlike C c) ms ms') :
    Alike c blank (out.overlay ms) (out'.overlay ms') := by
  induction h generalizing out out' with
  | nil => exact .pure hout
  | @cons m m' rest rest' hm _ ih =>
    obtain ⟨name, o⟩ := m
    obtain ⟨_, o'⟩ := m'
    obtain ⟨rfl, ho⟩ := hm
    exact (alike_member hout ho name true).bind fun out out' hout => ih hout

end Objects

end Projected

end LambdaSql
