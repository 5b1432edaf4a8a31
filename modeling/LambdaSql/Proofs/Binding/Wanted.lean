import LambdaSql.Proofs.Binding.Statements
import LambdaSql.Proofs.Plan.Stated

/-!
# The values that are wanted

A sketch wants values under fixed names and under generated ones. They are the values that are bound somewhere in the
tree it is a sketch of. Queries want none under a fixed name: fixed names are made for the fields of an update and for
keys only.

## Main definitions

* `Sketch.wanted` - the names that values are wanted under.
* `Sketch.Wants`, `Node.Binds` - the values that are wanted, and that nodes bind, have a property.

## Main results

* `wants_node`, `wants_select` - what is wanted is bound somewhere in the tree.
* `isGenerated_of_query` - queries want values under generated names only.
-/

namespace LambdaSql

variable {a b sk : Sketch} {sks : List Sketch} {name : Option String}

/-! ## Names in sketches -/

namespace Sketch

/-- The names that values are wanted under, where `none` stands for a generated one. -/
def wanted (sk : Sketch) : List (Option String) :=
  sk.filterMap fun
    | .text _ => none
    | .value name _ _ => some name

/-- An empty sketch wants nothing. -/
@[simp]
theorem wanted_nil : wanted [] = [] := rfl

/-- A value wants its name. -/
@[simp]
theorem wanted_value (name : Option String) (value : Value) (native : NativeType) :
    wanted [.value name value native] = [name] := rfl

/-- A text wants no names. -/
@[simp]
theorem wanted_ofText (s : String) : (ofText s).wanted = [] := rfl

/-- Names are wanted in turn. -/
@[simp]
theorem wanted_append (a b : Sketch) : wanted (a ++ b) = a.wanted ++ b.wanted := List.filterMap_append

/-- Parentheses want nothing. -/
@[simp]
theorem wanted_parenthesised (sk : Sketch) : sk.parenthesised.wanted = sk.wanted := by
  simp [parenthesised]

/-- Parentheses want no names. -/
@[simp]
theorem wanted_parenthesisedIf (needed : Bool) (sk : Sketch) :
    (sk.parenthesisedIf needed).wanted = sk.wanted := by
  cases needed <;> simp [parenthesisedIf]

/-- An alias wants nothing. -/
@[simp]
theorem wanted_aliased (sk : Sketch) (aliasName : Option String) :
    (sk.aliased aliasName).wanted = sk.wanted := by
  cases aliasName <;> simp [aliased]

/-- Joined sketches want the names of each of them. -/
@[simp]
theorem mem_wanted_joined (separator : String) (sks : List Sketch) :
    name ∈ (joined separator sks).wanted ↔ ∃ sk ∈ sks, name ∈ sk.wanted := by
  induction sks with
  | nil => simp [joined]
  | cons sk rest ih =>
    cases rest with
    | nil => simp [joined]
    | cons next rest => simp [joined, ih]

/-- A clause wants what the sketch in it wants. -/
@[simp]
theorem mem_wanted_clause (keyword : String) (sk? : Option Sketch) :
    name ∈ (clause keyword sk?).wanted ↔ ∃ sk ∈ sk?, name ∈ sk.wanted := by
  cases sk? <;> simp [clause]

/-- A clause of a list wants what its items want. -/
@[simp]
theorem mem_wanted_listClause (keyword : String) (sks : List Sketch) :
    name ∈ (listClause keyword sks).wanted ↔ ∃ sk ∈ sks, name ∈ sk.wanted := by
  cases sks <;> simp [listClause]

/-- A wanted name is that of a value. -/
theorem mem_wanted : name ∈ sk.wanted ↔ ∃ value native, Mark.value name value native ∈ sk := by
  rw [wanted, List.mem_filterMap]
  constructor
  · rintro ⟨mark, hmem, h⟩
    cases mark with
    | text s => cases h
    | value name value native =>
      cases h
      exact ⟨value, native, hmem⟩
  · rintro ⟨value, native, hmem⟩
    exact ⟨_, hmem, rfl⟩

/-- A sketch is fixed if no value in it waits for a name. -/
theorem isFixed_iff : sk.IsFixed ↔ none ∉ sk.wanted := by
  rw [mem_wanted]
  exact ⟨fun h ⟨value, native, hmem⟩ => h value native hmem, fun h value native hmem => h ⟨value, native, hmem⟩⟩

end Sketch

/-! ## Values in sketches -/

namespace Sketch

/-- The values that a sketch wants, the names it wants them under and their native types have a property. -/
def Wants (W : Option String → Value → NativeType → Prop) (sk : Sketch) : Prop :=
  ∀ name value native, Mark.value name value native ∈ sk → W name value native

variable {W : Option String → Value → NativeType → Prop} {a b sk : Sketch} {sks : List Sketch}

/-- An empty sketch wants nothing but what there is. -/
@[simp]
theorem wants_nil : Wants W [] := nofun

/-- A text wants nothing but what there is. -/
@[simp]
theorem wants_ofText (s : String) : (ofText s).Wants W := by simp [Wants, ofText]

/-- A sketch of one value is right if the value is. -/
@[simp]
theorem wants_value {name : Option String} {value : Value} {native : NativeType} :
    Wants W [.value name value native] ↔ W name value native := by
  refine ⟨fun h => h _ _ _ List.mem_cons_self, fun h _ _ _ hmem => ?_⟩
  cases List.mem_singleton.mp hmem
  exact h

/-- Two sketches in turn are right if both are. -/
@[simp]
theorem wants_append : Wants W (a ++ b) ↔ a.Wants W ∧ b.Wants W := by
  simp only [Wants, List.mem_append, or_imp, forall_and]

/-- Parentheses do not change what is wanted. -/
@[simp]
theorem wants_parenthesised : sk.parenthesised.Wants W ↔ sk.Wants W := by simp [parenthesised]

/-- Parentheses do not change what is wanted, needed or not. -/
@[simp]
theorem wants_parenthesisedIf {needed : Bool} : (sk.parenthesisedIf needed).Wants W ↔ sk.Wants W := by
  cases needed <;> simp [parenthesisedIf]

/-- An alias does not change what is wanted. -/
@[simp]
theorem wants_aliased {aliasName : Option String} : (sk.aliased aliasName).Wants W ↔ sk.Wants W := by
  cases aliasName <;> simp [aliased]

/-- Joined sketches are right if each one is. -/
theorem Wants.joined (h : ∀ sk ∈ sks, sk.Wants W) (separator : String) : (joined separator sks).Wants W := by
  induction sks with
  | nil => exact wants_nil
  | cons sk rest ih =>
    obtain ⟨hsk, hrest⟩ := List.forall_mem_cons.mp h
    cases rest with
    | nil => exact hsk
    | cons next rest => simpa [Sketch.joined, hsk] using ih hrest

/-- A clause is right if what is in it is. -/
theorem Wants.clause {sk? : Option Sketch} (h : ∀ sk ∈ sk?, sk.Wants W) (keyword : String) :
    (clause keyword sk?).Wants W := by
  cases sk? with
  | none => exact wants_nil
  | some sk => simpa [Sketch.clause] using h sk rfl

/-- A clause of several parts is right if each one is. -/
theorem Wants.listClause (h : ∀ sk ∈ sks, sk.Wants W) (keyword : String) : (listClause keyword sks).Wants W := by
  unfold Sketch.listClause
  split
  · exact wants_nil
  · exact wants_append.mpr ⟨wants_ofText _, .joined h _⟩

/-- A template wants the values of its arguments only. -/
theorem Wants.template {args : List (Nat × Sketch)} (h : ∀ arg ∈ args, arg.2.Wants W)
    (pieces : List Template.Piece) : (Template.sketch args pieces).Wants W := by
  induction pieces with
  | nil => exact wants_nil
  | cons piece rest ih =>
    cases piece with
    | char c => exact wants_append.mpr ⟨wants_ofText _, ih⟩
    | arguments => exact wants_append.mpr ⟨.joined (List.forall_mem_map.mpr h) _, ih⟩
    | argument i delimited =>
      simp only [Template.sketch]
      split
      · exact wants_append.mpr ⟨wants_ofText _, ih⟩
      · next arg harg =>
        exact wants_append.mpr ⟨wants_parenthesisedIf.mpr (h arg (List.mem_of_getElem? harg)), ih⟩

end Sketch

/-- A node that binds a value binds it with a property. -/
def Node.Binds (W : Option String → Value → NativeType → Prop) : Node → Prop
  | .bound value native name _ => W name value native
  | _ => True

section Trees

variable {d : Dialect} {W : Option String → Value → NativeType → Prop}

mutual

/-- **What an expression wants is bound somewhere in it**, by induction on the expression. -/
theorem wants_node : ∀ n : Node, n.Every (Node.Binds W) → (sketchNode d n).Wants W
  | .bound .., h => Sketch.wants_value.mpr (Node.every_bound.mp h)
  | .binary _ left right _, h => by
    obtain ⟨-, hl, hr⟩ := Node.every_binary.mp h
    simp [sketchNode, wants_node left hl, wants_node right hr]
  | .unary .not operand _, h | .unary .negate operand _, h => by
    simp [sketchNode, wants_node operand (Node.every_unary.mp h).2]
  | .isNull operand _, h => by simp [sketchNode, wants_node operand (Node.every_isNull.mp h).2]
  | .group operand, h => by simp [sketchNode, wants_node operand (Node.every_group.mp h).2]
  | .call _ args _, h => .template (wants_arguments args (Node.every_call.mp h).2) _
  | .case branches otherwise _, h => by
    obtain ⟨-, hbranches, hotherwise⟩ := Node.every_case.mp h
    simp [sketchNode, wants_branches branches hbranches, wants_node otherwise hotherwise]
  | .inList _ [] _, _ => Sketch.wants_ofText _
  | .inList operand (item :: items) _, h => by
    obtain ⟨-, hoperand, hitems⟩ := Node.every_inList.mp h
    have hlist := Sketch.Wants.joined (wants_nodes (item :: items) hitems) ","
    simp [sketchNode, wants_node operand hoperand, hlist]
  | .inQuery operand query _, h => by
    obtain ⟨-, hoperand, hquery⟩ := Node.every_inQuery.mp h
    simp [sketchNode, wants_node operand hoperand, wants_select query hquery]
  | .exists query _, h => by simp [sketchNode, wants_select query (Node.every_exists.mp h).2]
  | .subquery query _, h => by simp [sketchNode, wants_select query (Node.every_subquery.mp h).2]
  | .literal .., _ | .column .., _ | .raw .., _ | .null, _ => Sketch.wants_ofText _

/-- What nodes want is bound in them. -/
private theorem wants_nodes : ∀ ns : List Node, (∀ n ∈ ns, n.Every (Node.Binds W)) → ∀ sk ∈ sketchNodes d ns, sk.Wants W
  | [], _ => nofun
  | n :: rest, h =>
    have h := List.forall_mem_cons.mp h
    List.forall_mem_cons.mpr ⟨wants_node n h.1, wants_nodes rest h.2⟩

/-- What the arguments of a template want is bound in them. -/
private theorem wants_arguments :
    ∀ ns : List Node, (∀ n ∈ ns, n.Every (Node.Binds W)) → ∀ arg ∈ sketchArguments d ns, arg.2.Wants W
  | [], _ => nofun
  | n :: rest, h =>
    have h := List.forall_mem_cons.mp h
    List.forall_mem_cons.mpr ⟨wants_node n h.1, wants_arguments rest h.2⟩

/-- What the branches of a choice want is bound in them. -/
private theorem wants_branches : ∀ bs : List (Node × Node),
    (∀ b ∈ bs, b.1.Every (Node.Binds W) ∧ b.2.Every (Node.Binds W)) → (sketchBranches d bs).Wants W
  | [], _ => Sketch.wants_nil
  | (test, value) :: rest, h => by
    obtain ⟨⟨htest, hvalue⟩, hrest⟩ := List.forall_mem_cons.mp h
    simp [sketchBranches, wants_node test htest, wants_node value hvalue, wants_branches rest hrest]

/-- What may be there is right if it is bound so. -/
theorem wants_option : ∀ n? : Option Node, (∀ n, n? = some n → n.Every (Node.Binds W)) →
    ∀ sk ∈ sketchOption d n?, sk.Wants W
  | none, _ => nofun
  | some n, h => fun _ hsk => by
    cases hsk
    exact wants_node n (h n rfl)

/-- What sort keys want is bound in them. -/
private theorem wants_order : ∀ ks : List (Node × Bool), (∀ k ∈ ks, k.1.Every (Node.Binds W)) →
    ∀ sk ∈ sketchOrder d ks, sk.Wants W
  | [], _ => nofun
  | (n, down) :: rest, h => by
    obtain ⟨hn, hrest⟩ := List.forall_mem_cons.mp h
    refine List.forall_mem_cons.mpr ⟨?_, wants_order rest hrest⟩
    cases down <;> simp [wants_node n hn]

/-- What selected columns want is bound in them. -/
private theorem wants_columns : ∀ cs : List (SelectedOf Node), (∀ c ∈ cs, c.node.Every (Node.Binds W)) →
    ∀ sk ∈ sketchColumns d cs, sk.Wants W
  | [], _ => nofun
  | ⟨n, none⟩ :: rest, h =>
    have h := List.forall_mem_cons.mp h
    List.forall_mem_cons.mpr ⟨wants_node n h.1, wants_columns rest h.2⟩
  | ⟨n, some aliasName⟩ :: rest, h => by
    obtain ⟨hn, hrest⟩ := List.forall_mem_cons.mp h
    exact List.forall_mem_cons.mpr ⟨by simp [wants_node n hn], wants_columns rest hrest⟩

/-- What the rows of a table want is bound in them. -/
private theorem wants_rows : ∀ r : Rows, r.Every (Node.Binds W) → (sketchRows d r).Wants W
  | .named .., _ => Sketch.wants_ofText _
  | .derived query, h => Sketch.wants_parenthesised.mpr (wants_select query (Rows.every_derived.mp h))

/-- A table is right if all is bound so in it. -/
theorem wants_table : ∀ t : TableOf Rows, t.rows.Every (Node.Binds W) → (sketchTable d t).Wants W
  | ⟨rows, _⟩, h => Sketch.wants_aliased.mpr (wants_rows rows h)

/-- Joins are right if all is bound so in them. -/
theorem wants_joins : ∀ js : List (JoinedOf Node Rows),
    (∀ j ∈ js, j.table.rows.Every (Node.Binds W) ∧ j.on.Every (Node.Binds W)) → (sketchJoins d js).Wants W
  | [], _ => Sketch.wants_nil
  | ⟨_, table, on⟩ :: rest, h => by
    obtain ⟨⟨htable, hon⟩, hrest⟩ := List.forall_mem_cons.mp h
    simp [sketchJoins, wants_table table htable, wants_node on hon, wants_joins rest hrest]

/-- A selection is right if all is bound so in it. -/
theorem wants_select : ∀ s : SelectOf Node Rows, s.Every (Node.Binds W) → (sketchSelect d s).Wants W
  | ⟨_, columns, table, joins, filter, groupBy, having, orderBy, _, _, _, _⟩, h => by
    obtain ⟨hcolumns, htable, hjoins, hfilter, hgroupBy, hhaving, horder⟩ := SelectOf.every_iff.mp h
    simp only [sketchSelect, Sketch.wants_append, Sketch.wants_ofText, and_true, true_and]
    exact ⟨⟨⟨⟨⟨⟨.joined (wants_columns columns hcolumns) _, wants_table table htable⟩, wants_joins joins hjoins⟩,
      .clause (wants_option filter hfilter) _⟩, .listClause (wants_nodes groupBy hgroupBy) _⟩,
      .clause (wants_option having hhaving) _⟩, .listClause (wants_order orderBy horder) _⟩

end

/-- What common table expressions want is bound somewhere in them. -/
theorem wants_ctes {ctes : List CtePlan} (h : ∀ c ∈ ctes, c.anchor.Every (Node.Binds W) ∧
    ∀ s, c.union = some s → s.Every (Node.Binds W)) : (sketchCtes d ctes).Wants W := by
  have hunion (s? : Option Select) (hs : ∀ s, s? = some s → s.Every (Node.Binds W)) :
      (sketchUnion d s?).Wants W := by
    cases s? with
    | none => exact Sketch.wants_nil
    | some s => simp [sketchUnion, wants_select s (hs s rfl)]
  unfold sketchCtes
  split
  · exact Sketch.wants_nil
  · have hall : ∀ sk ∈ ctes.map (sketchCte d), sk.Wants W := by
      refine List.forall_mem_map.mpr fun c hc => ?_
      simp [sketchCte, wants_select _ (h c hc).1, hunion _ (h c hc).2]
    simp [Sketch.Wants.joined hall]

end Trees

/-! ## Queries -/

/-- What is bound does not depend on how it is put together. -/
theorem Node.local_binds (W : Option String → Value → NativeType → Prop) : Node.Local (Node.Binds W) where
  literal := trivial
  raw := trivial
  null := trivial
  column := trivial
  combined _ := trivial
  compared _ := trivial
  binary_type _ _ := trivial
  bound_type _ h := h
  unary := trivial
  isNull := trivial
  group := trivial
  call := trivial
  case := trivial
  listed _ := trivial
  inList_opposite _ _ := trivial
  inQuery := trivial
  existence := trivial
  subquery := trivial

/-- That all values that are bound have a property is a feature, if the values of expressions that may be planned and
are captured have it. -/
def Feature.binds (W : Option String → Value → NativeType → Prop) (admits : Expr → Prop)
    (captured : ∀ {e : Expr} {t : TranslationTable} {v : Value}, (∀ x ∈ e.parts, admits x) →
      e.origin t = .captured → (Node.parameter v).Binds W) : Feature :=
  .every (Node.local_binds W) admits (fun _ => True) captured fun _ _ => trivial

/-- What a query wants is bound somewhere in its plan. -/
theorem wants_of_query {W : Option String → Value → NativeType → Prop} {admits : Expr → Prop}
    (captured : ∀ {e : Expr} {t : TranslationTable} {v : Value}, (∀ x ∈ e.parts, admits x) →
      e.origin t = .captured → (Node.parameter v).Binds W)
    {c : Compiler} {q : Query} (hq : ∀ x ∈ queryParts q, admits x)
    (h : c.sketchPlan (planQuery q) (sketchSelect c.dialect) = .ok sk) : sk.Wants W := by
  obtain ⟨⟨s, ctes⟩, hrun, h⟩ := Except.bind_eq_ok.mp h
  cases h
  have hquery : Query.Spreads (.binds W admits captured) q := query_spreads q hq
  obtain ⟨hs, hctes⟩ := hquery.of_run hrun
  exact Sketch.wants_append.mpr
    ⟨wants_ctes fun d hd => ⟨(hctes d hd).anchor, (hctes d hd).union⟩, wants_select s hs⟩

/-- **Queries want values under generated names only**: fixed names are made for the fields of an update and
for keys. -/
theorem isGenerated_of_query {c : Compiler} {q : Query}
    (h : c.sketchPlan (planQuery q) (sketchSelect c.dialect) = .ok sk) : sk.IsGenerated := by
  have hwants : sk.Wants fun name _ _ => name = none :=
    wants_of_query (fun _ _ => rfl) (fun _ (_ : _ ∈ _) => trivial) h
  exact fun name value native hmem => nomatch hwants (some name) value native hmem

end LambdaSql
