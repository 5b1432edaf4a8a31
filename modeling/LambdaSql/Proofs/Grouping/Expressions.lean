import LambdaSql.Proofs.Grouping.Exposure
import LambdaSql.Proofs.Naming.Projecting
import LambdaSql.Proofs.Plan.AtHand

/-!
# What planned expressions expose

Columns come into expressions through the bindings of parameters only, and a call on a grouping reads the columns of
its rows inside an aggregate. So expressions and projections expose only columns with a property if whatever is read
from a binding does.

## Main definitions

* `Binding.ExposesOnly`, `Scope.ExposesOnly` - what is read from parameters exposes only columns with a property.
* `Operand.ExposesOnly` - so does whatever an operand gives, in whatever way it is planned.
* `Projected.ExposesOnly` - projections.

## Main results

* `member_exposesOnly`, `call_exposesOnly`, `conditional_exposesOnly` and their neighbours - the forms of expressions.
* `Projected.exposesOnly_object`, `Projected.exposesOnly_overlay`, `Projected.exposesOnly_body` - projections.
-/

namespace LambdaSql

open Planning

/-! ## Bindings -/

section Bindings

variable (covers : Node → Prop) (P : Leaf → Prop)

/-- Whatever is read from a binding exposes only columns with a property. -/
def Binding.ExposesOnly (b : Binding) : Prop := ∀ n, b.Reads n → n.ExposesOnly covers P

/-- Whatever is read from a parameter exposes only columns with a property. -/
def Scope.ExposesOnly (s : Scope) : Prop := ∀ name b, s.binding? name = some b → b.ExposesOnly covers P

/-- Whatever an operand gives exposes only columns that are read from parameters, or have the alias of a table that is
farther inside. -/
structure Operand.ExposesOnly (o : Operand) : Prop where
  exposes : ∀ {P s p ns p'}, s.ExposesOnly covers P → o.Gives s p ns p' → ∀ n ∈ ns, n.ExposesOnly covers P
  selects : ∀ {plan P s p sel p'}, o.selection = some plan → s.ExposesOnly covers P → plan.Gives s p sel p' →
    Select.ClausesExposeOnly covers P sel

end Bindings

variable {covers : Node → Prop} {P P' : Leaf → Prop} {s : Scope} {p p' : Progress} {n m : Node} {ns : List Node}

/-- A weaker property holds of all that is exposed by what is bound. -/
theorem Scope.ExposesOnly.mono (h : s.ExposesOnly covers P) (hP : ∀ l, P l → P' l) : s.ExposesOnly covers P' :=
  fun name b hb n hn => (h name b hb n hn).mono hP

/-- Whether expressions may be left for evaluation after fetching plays no role for what is read from parameters. -/
theorem Scope.ExposesOnly.projecting (h : s.ExposesOnly covers P) (b : Bool) :
    Scope.ExposesOnly covers P { s with inProjection := b } := h

/-- Under a lambda, its parameters are bound as well. -/
theorem Scope.ExposesOnly.under (h : s.ExposesOnly covers P) {bindings : List Binding}
    (hb : ∀ b ∈ bindings, b.ExposesOnly covers P) (params : List String) :
    Scope.ExposesOnly covers P { s with frames := frame params bindings :: s.frames } := by
  intro name b hfind
  unfold Scope.binding? at hfind
  rw [List.findSome?_cons] at hfind
  split at hfind
  · next hlookup =>
    cases hfind
    obtain ⟨before, after, heq, -⟩ := List.lookup_eq_some_iff.mp hlookup
    have hmem : (name, b) ∈ frame params bindings := heq ▸ List.mem_append_right before List.mem_cons_self
    exact hb b (List.of_mem_zip (List.mem_reverse.mp hmem)).2
  · exact h name b hfind

/-- The columns of a table with an alias are columns of that alias. -/
theorem TableBinding.exposesOnly {t : TableBinding} (h : ∀ name, P (.column t.aliasName name)) :
    (Binding.table t).ExposesOnly covers P := by
  intro n hn
  obtain ⟨name, type, rfl⟩ := t.reads_column hn
  exact Node.exposesOnly_column (h name)

/-- What tables expose is what their bindings expose. -/
theorem tableBindings_exposeOnly {tables : List TableBinding}
    (h : ∀ t ∈ tables, (Binding.table t).ExposesOnly covers P) :
    ∀ b ∈ tableBindings tables, b.ExposesOnly covers P := List.forall_mem_map.mpr h

/-! ## Parts -/

namespace Node.MadeOf

variable (hc : Enduring covers)

include hc

/-- What is made of nodes exposes what they do. -/
theorem exposesOnly (h : n.MadeOf ns) (hns : ∀ m ∈ ns, m.ExposesOnly covers P) : n.ExposesOnly covers P :=
  h.keeps hc.selective hns

/-- What is made of no nodes exposes nothing. -/
private theorem exposesOnly_nil (h : n.MadeOf []) : n.ExposesOnly covers P := h.exposesOnly hc nofun

/-- What is made of one node exposes what it does. -/
theorem exposesOnly_one (h : n.MadeOf [m]) (hm : m.ExposesOnly covers P) : n.ExposesOnly covers P :=
  h.exposesOnly hc (List.forall_mem_singleton.mpr hm)

end Node.MadeOf

/-- What is drawn from operands exposes only what they may expose. -/
theorem Drawn.exposesOnly {os : List Operand} (h : Drawn s os p ns p') (hos : ∀ o ∈ os, o.ExposesOnly covers)
    (hs : s.ExposesOnly covers P) : ∀ n ∈ ns, n.ExposesOnly covers P := by
  induction h with
  | done => exact nofun
  | drop _ _ _ ih => exact ih hos
  | take hperm hgives _ ih =>
    have hmem := fun o ho => hos o (hperm.symm.subset ho)
    intro n hn
    obtain hn | hn := List.mem_append.mp hn
    · exact (hmem _ List.mem_cons_self).exposes hs hgives n hn
    · exact ih (fun o ho => hmem o (List.mem_cons_of_mem _ ho)) n hn

/-- The body of a lambda. -/
theorem Operand.ExposesOnly.under {o : Operand} (ho : o.ExposesOnly covers) {params : List String}
    {bindings : List Binding} (hs : s.ExposesOnly covers P) (hb : ∀ b ∈ bindings, b.ExposesOnly covers P)
    (h : (o.under params bindings).Gives s p n p') : n.ExposesOnly covers P :=
  ho.exposes (hs.under hb params) (.value (gives_withFrame.mp h).2) n List.mem_cons_self

/-! ## Parameters -/

namespace Lowering

variable {param name : String}

/-- A member of a parameter is read from its binding. -/
theorem reads_parameterMember (h : (parameterMember param name).Gives s p n p') :
    ∃ b, s.binding? param = some b ∧ b.Reads n := by
  simp only [parameterMember, gives_bind, gives_lookup] at h
  obtain ⟨b, _, ⟨hb, rfl⟩, h⟩ := h
  refine ⟨b, hb, ?_⟩
  cases b with
  | table t => exact .column (gives_ofExcept.mp h).1
  | grouping g =>
    dsimp only at h
    split at h
    · obtain ⟨key, hkeys⟩ := Grouping.keys_of_singleKey (gives_ofExcept.mp h).1
      exact .key (hkeys ▸ List.mem_cons_self)
    · exact .key (Grouping.mem_of_lookup (Grouping.lookup_of_key (gives_ofExcept.mp h).1))

/-- A parameter by itself is the key of its groups. -/
theorem reads_parameter (h : (parameter param).Gives s p n p') : ∃ b, s.binding? param = some b ∧ b.Reads n := by
  simp only [parameter, gives_bind, gives_lookup] at h
  obtain ⟨b, _, ⟨hb, rfl⟩, h⟩ := h
  refine ⟨b, hb, ?_⟩
  cases b with
  | table t => exact absurd h not_gives_fail
  | grouping g =>
    obtain ⟨key, hkeys⟩ := Grouping.keys_of_singleKey (gives_ofExcept.mp h).1
    exact .key (hkeys ▸ List.mem_cons_self)

/-- A call on a grouping is an aggregate. -/
theorem aggregate_of_groupingCall {g : Grouping} {method : String} {args : List Operand}
    (h : (groupingCall g method args).Gives s p n p') : ∃ f ns, n = .aggregate f ns := by
  simp only [groupingCall, gives_bind, gives_translations] at h
  obtain ⟨_, _, ⟨rfl, rfl⟩, h⟩ := h
  split at h
  · split at h
    · exact ⟨_, _, (gives_pure.mp h).1⟩
    · simp only [gives_bind, gives_pure] at h
      obtain ⟨m, q, -, rfl, -⟩ := h
      exact ⟨_, _, rfl⟩
  · exact absurd h not_gives_fail

/-- What is chosen from in a conditional exposes what its operands do. -/
theorem exposesOnly_choices (hc : Enduring covers) {test ifTrue ifFalse : Operand}
    (h : (conditional test ifTrue ifFalse).Gives s p n p')
    (hos : ∀ o ∈ [test, ifTrue, ifFalse], o.ExposesOnly covers) (hs : s.ExposesOnly covers P) :
    ∀ m ∈ choices n, m.ExposesOnly covers P := by
  obtain ⟨t, a, branches, otherwise, rfl, hdrawn⟩ := choice_of_conditional h
  obtain ⟨ht, hrest⟩ := List.forall_mem_cons.mp (hdrawn.exposesOnly hos hs)
  exact List.forall_mem_cons.mpr ⟨(Node.madeOf_toPredicate t).exposesOnly_one hc ht, hrest⟩

/-- There is nothing to choose from in a value. -/
theorem exposesOnly_choices_of_madeOf_nil (h : n.MadeOf []) : ∀ m ∈ choices n, m.ExposesOnly covers P := by
  intro m hm
  refine Node.exposesOnly_of_no_occurrences fun around => ?_
  have hle : m.occurrences around ≤ n.occurrences around := by
    rw [← nodesOccurrences_choices around n]
    exact occurrences_le_of_mem hm
  exact le_antisymm (hle.trans (h.le around)) zero_le

end Lowering

/-! ## The forms of expressions -/

section Forms

variable (hc : Enduring covers)

include hc

/-- An expression by its value at hand, or as it is lowered. -/
theorem folded_exposesOnly {e : Expr} {lower : Planning Node}
    (h : ∀ {p p' n}, lower.Gives s p n p' → n.ExposesOnly covers P)
    (hn : (Lowering.folded e lower).Gives s p n p') : n.ExposesOnly covers P := by
  obtain ⟨hmade, rfl⟩ | hn := Lowering.folded_or_lowered hn
  · exact hmade.exposesOnly_nil hc
  · exact h hn

/-- An expression that is no conditional, which may be planned in further ways. -/
theorem ways_exposesOnly {o : Operand} {e : Expr} {lower : Planning Node}
    (h : ∀ {P s p n p'}, s.ExposesOnly covers P → lower.Gives s p n p' → n.ExposesOnly covers P)
    (hsource : o.source.isConditional = false) (hvalue : o.value = (plainOperand e lower).value)
    (ha : ∀ {P s p ns p'}, s.ExposesOnly covers P → o.alternatives.Gives s p ns p' →
      ∀ n ∈ ns, n.ExposesOnly covers P)
    (hq : ∀ {plan P s p sel p'}, o.selection = some plan → s.ExposesOnly covers P → plan.Gives s p sel p' →
      Select.ClausesExposeOnly covers P sel)
    (hi : ∀ {plan P s p ns p'}, o.items = some plan → s.ExposesOnly covers P → plan.Gives s p ns p' →
      ∀ n ∈ ns, n.ExposesOnly covers P) : o.ExposesOnly covers := by
  refine ⟨?_, hq⟩
  intro P s p ns p' hs hg
  cases hg with
  | value hv =>
    rw [hvalue] at hv
    exact List.forall_mem_singleton.mpr (folded_exposesOnly hc (h hs) hv)
  | alternatives h => exact ha hs h
  | selection t hplan h => exact List.forall_mem_singleton.mpr ((hq hplan hs h).subquery t)
  | rows t hplan h => exact List.forall_mem_singleton.mpr ((hq hplan hs h).withoutColumns.subquery t)
  | items hplan h => exact hi hplan hs h
  | choices hconditional => exact absurd (hsource.symm.trans hconditional) Bool.noConfusion

/-- An expression that is planned in one way only. -/
theorem plain_exposesOnly {e : Expr} {lower : Planning Node} (he : e.isConditional = false)
    (h : ∀ {P s p n p'}, s.ExposesOnly covers P → lower.Gives s p n p' → n.ExposesOnly covers P) :
    (plainOperand e lower).ExposesOnly covers := by
  refine ways_exposesOnly hc h he rfl (fun hs ha => ?_) nofun nofun
  simp only [plainOperand, gives_bind, gives_pure] at ha
  obtain ⟨n, q, hn, rfl, rfl⟩ := ha
  exact List.forall_mem_singleton.mpr (folded_exposesOnly hc (h hs) hn)

/-- An expression that draws from its parts. -/
theorem draws_exposesOnly {e : Expr} {lower : Planning Node} {os : List Operand} (he : e.isConditional = false)
    (hd : lower.Draws [] os) (hos : ∀ o ∈ os, o.ExposesOnly covers) : (plainOperand e lower).ExposesOnly covers := by
  refine plain_exposesOnly hc he fun hs hn => ?_
  obtain ⟨ns, hdrawn, hmade⟩ := hd hn
  exact hmade.exposesOnly hc (hdrawn.exposesOnly hos hs)

variable {target : Expr} {args : List Expr}

/-- A constant exposes nothing. -/
theorem constant_exposesOnly (v : Value) : (operand (.constant v)).ExposesOnly covers :=
  plain_exposesOnly hc rfl fun _ hn => (Lowering.madeOf_atHand hn).1.exposesOnly_nil hc

/-- A captured value exposes nothing. -/
theorem captured_exposesOnly (name : String) (v : Value) : (operand (.captured name v)).ExposesOnly covers :=
  plain_exposesOnly hc rfl fun _ hn => (Lowering.madeOf_atHand hn).1.exposesOnly_nil hc

/-- A member of a type exposes nothing. -/
theorem static_exposesOnly (type name : String) : (operand (.static type name)).ExposesOnly covers :=
  plain_exposesOnly hc rfl fun _ hn => (Lowering.gives_static hn).1.exposesOnly_nil hc

/-- A parameter exposes what it is bound to. -/
theorem param_exposesOnly (name : String) : (operand (.param name)).ExposesOnly covers :=
  plain_exposesOnly hc rfl fun hs hn => by
    obtain ⟨b, hb, hreads⟩ := Lowering.reads_parameter hn
    exact hs name b hb _ hreads

/-- A member of an expression: of a parameter, of a group's key, or of a value. -/
theorem member_exposesOnly (ht : (operand target).ExposesOnly covers) (name : String) :
    (operand (.member target name)).ExposesOnly covers := by
  refine plain_exposesOnly hc rfl fun hs hn => ?_
  unfold Lowering.member at hn
  split at hn
  · obtain ⟨b, hb, hreads⟩ := Lowering.reads_parameterMember hn
    exact hs _ b hb _ hreads
  · obtain ⟨param, key, g, -, -, hb, hlookup, -⟩ | ⟨-, ns, hdrawn, hmade⟩ := Lowering.gives_valueMember hn
    · exact hs param _ hb _ (.key (Grouping.mem_of_lookup hlookup))
    · exact hmade.exposesOnly hc (hdrawn.exposesOnly (List.forall_mem_singleton.mpr ht) hs)

/-- A call on a target: on a group, of which nothing is exposed, or on a value. -/
theorem call_exposesOnly (ht : (operand target).ExposesOnly covers)
    (hargs : ∀ o ∈ operands args, o.ExposesOnly covers) (type : Option String) (method : String) :
    (operand (.call (some target) type method args)).ExposesOnly covers := by
  refine plain_exposesOnly hc rfl fun hs hn => ?_
  obtain ⟨name, g, -, -, hcall⟩ | ⟨-, ns, hdrawn, hmade⟩ := Lowering.gives_callOn hn
  · obtain ⟨f, ns, rfl⟩ := Lowering.aggregate_of_groupingCall hcall
    exact Node.exposesOnly_aggregate f ns
  · exact hmade.exposesOnly hc (hdrawn.exposesOnly (List.forall_mem_cons.mpr ⟨ht, hargs⟩) hs)

/-- A call of a type exposes what its arguments do. -/
theorem callOf_exposesOnly (hargs : ∀ o ∈ operands args, o.ExposesOnly covers) (type : Option String)
    (method : String) : (operand (.call none type method args)).ExposesOnly covers :=
  draws_exposesOnly hc rfl (Lowering.draws_callOf type method _) hargs

/-- A binary operator exposes what its operands do. -/
theorem binary_exposesOnly {left right : Expr} (hl : (operand left).ExposesOnly covers)
    (hr : (operand right).ExposesOnly covers) (op : BinaryOp) :
    (operand (.binary op left right)).ExposesOnly covers := by
  have hd : (Lowering.binary op (operand left) (operand right)).Draws [] _ := Lowering.draws_binary op _ _
  have hos : ∀ o ∈ [operand left, operand right], o.ExposesOnly covers := by simp [hl, hr]
  rw [operand]
  split
  · refine ways_exposesOnly (e := .binary op left right) hc (fun hs hn => ?_) rfl rfl (fun hs ha => ?_)
      (fun hplan => by cases hplan) (fun hplan => by cases hplan)
    · obtain ⟨ns, hdrawn, hmade⟩ := hd hn
      exact hmade.exposesOnly hc (hdrawn.exposesOnly hos hs)
    · simp only [gives_bind, gives_pure] at ha
      obtain ⟨ls, q, hls, rs, q', hrs, rfl, rfl⟩ := ha
      exact List.forall_mem_append.mpr ⟨hl.exposes hs (.alternatives hls), hr.exposes hs (.alternatives hrs)⟩
  · exact draws_exposesOnly hc rfl hd hos

/-- A unary operator exposes what its operand does. -/
theorem unary_exposesOnly {inner : Expr} (h : (operand inner).ExposesOnly covers) (op : UnaryOp) :
    (operand (.unary op inner)).ExposesOnly covers :=
  draws_exposesOnly hc rfl (Lowering.draws_unary op _) (List.forall_mem_singleton.mpr h)

/-- A conditional, by itself or among the choices of another one.

**Proof sketch.** Whichever way the conditional is planned, by itself or with its choices for an enclosing one, what
comes out is folded into a constant or made of what its three parts draw. -/
theorem conditional_exposesOnly {test a b : Expr} (ht : (operand test).ExposesOnly covers)
    (ha : (operand a).ExposesOnly covers) (hb : (operand b).ExposesOnly covers) :
    (operand (.conditional test a b)).ExposesOnly covers := by
  have hos : ∀ o ∈ [operand test, operand a, operand b], o.ExposesOnly covers := by simp [ht, ha, hb]
  have lowered {P : Leaf → Prop} {s : Scope} {p p' : Progress} {n : Node} (hs : s.ExposesOnly covers P)
      (hn : (Lowering.conditional (operand test) (operand a) (operand b)).Gives s p n p') :
      n.ExposesOnly covers P := by
    obtain ⟨ns, hdrawn, hmade⟩ := Lowering.draws_conditional _ _ _ hn
    exact hmade.exposesOnly hc (hdrawn.exposesOnly hos hs)
  refine ⟨?_, nofun⟩
  intro P s p ns p' hs hg
  cases hg with
  | value hv => exact List.forall_mem_singleton.mpr (folded_exposesOnly hc (lowered hs) hv)
  | alternatives h =>
    simp only [operand, plainOperand, gives_bind, gives_pure] at h
    obtain ⟨n, q, hn, rfl, rfl⟩ := h
    exact List.forall_mem_singleton.mpr (folded_exposesOnly hc (lowered hs) hn)
  | selection t hplan => cases hplan
  | rows t hplan => cases hplan
  | items hplan => cases hplan
  | choices _ hv =>
    obtain ⟨hmade, rfl⟩ | hn := Lowering.folded_or_lowered hv
    · exact Lowering.exposesOnly_choices_of_madeOf_nil hmade
    · exact Lowering.exposesOnly_choices hc hn hos hs

/-- A conversion exposes what the value does. -/
theorem convert_exposesOnly {inner : Expr} (h : (operand inner).ExposesOnly covers) (target : HostType) :
    (operand (.convert inner target)).ExposesOnly covers := by
  have converted {P : Leaf → Prop} {s : Scope} {p p' : Progress} {n : Node} (hs : s.ExposesOnly covers P)
      (hn : (do return (← (operand inner).value).retype target : Planning Node).Gives s p n p') :
      n.ExposesOnly covers P := by
    simp only [gives_bind, gives_pure] at hn
    obtain ⟨m, q, hm, rfl, rfl⟩ := hn
    exact (Node.madeOf_retype target m).exposesOnly_one hc (h.exposes hs (.value hm) m List.mem_cons_self)
  have hplain := plain_exposesOnly (e := .convert inner target) hc rfl converted
  exact ways_exposesOnly hc converted rfl rfl (fun hs ha => hplain.exposes hs (.alternatives ha)) h.selects
    fun hplan => by cases hplan

/-- An array exposes what its items do. -/
theorem array_exposesOnly {items : List Expr} (h : ∀ o ∈ operands items, o.ExposesOnly covers) :
    (operand (.array items)).ExposesOnly covers := by
  have hplain : (plainOperand (.array items) (fail .constructionAsValue)).ExposesOnly covers :=
    plain_exposesOnly hc rfl fun _ hn => absurd hn not_gives_fail
  refine ways_exposesOnly hc (fun _ hn => absurd hn not_gives_fail) rfl rfl
    (fun hs ha => hplain.exposes hs (.alternatives ha)) nofun (fun hi hs hns => ?_)
  cases hi
  exact (Drawn.values hns).exposesOnly h hs

/-- An object is no value, so that it exposes nothing. -/
theorem object_exposesOnly (ms : List (String × Expr)) : (operand (.object ms)).ExposesOnly covers :=
  plain_exposesOnly hc rfl fun _ hn => absurd hn not_gives_fail

/-- A lambda is no value, so that it exposes nothing. -/
theorem lambda_exposesOnly (params : List String) (body : Expr) :
    (operand (.lambda params body)).ExposesOnly covers := by
  have hplain : (plainOperand (.lambda params body) (fail .lambdaAsValue)).ExposesOnly covers :=
    plain_exposesOnly hc rfl fun _ hn => absurd hn not_gives_fail
  exact ways_exposesOnly hc (fun _ hn => absurd hn not_gives_fail) rfl rfl
    (fun hs ha => hplain.exposes hs (.alternatives ha)) nofun nofun

/-- The clauses of a planned query expose only columns that are read from parameters, and those of its own tables. -/
def ExposesQuery (covers : Node → Prop) (q : Query) : Prop :=
  ∀ {P s p sel p'}, s.ExposesOnly covers P → (planQuery q).Gives s p sel p' → Select.ClausesExposeOnly covers P sel

/-- A query in an expression. -/
theorem query_exposesOnly {q : Query} (h : ExposesQuery covers q) : (operand (.query q)).ExposesOnly covers := by
  have selected {P : Leaf → Prop} {s : Scope} {p p' : Progress} {sel : Select} (hs : s.ExposesOnly covers P)
      (hsel : (asSubquery (planQuery q)).Gives s p sel p') : Select.ClausesExposeOnly covers P sel :=
    h (hs.projecting false) (gives_asSubquery.mp hsel)
  have valued {P : Leaf → Prop} {s : Scope} {p p' : Progress} {n : Node} (hs : s.ExposesOnly covers P)
      (hn : (Lowering.selection (asSubquery (planQuery q))).Gives s p n p') : n.ExposesOnly covers P := by
    simp only [Lowering.selection, gives_bind, gives_pure] at hn
    obtain ⟨sel, q', hsel, rfl, rfl⟩ := hn
    exact (selected hs hsel).subquery _
  have hplain := plain_exposesOnly (e := .query q) hc rfl valued
  refine ways_exposesOnly hc valued rfl rfl (fun hs ha => hplain.exposes hs (.alternatives ha))
    (fun hplan hs hsel => ?_) fun hplan => by cases hplan
  cases hplan
  exact selected hs hsel

end Forms

/-! ## Projections -/

namespace Projected

variable {out out' : Projected} {name : String} {o : Operand}

/-- The columns of a projection expose only columns with a property. -/
def ExposesOnly (covers : Node → Prop) (P : Leaf → Prop) (out : Projected) : Prop :=
  ∀ n ∈ out.nodes, n.ExposesOnly covers P

/-- An empty projection exposes nothing. -/
theorem ExposesOnly.empty : ExposesOnly covers P {} := nofun

/-- A further column exposes what its node does. -/
theorem ExposesOnly.push (h : out.ExposesOnly covers P) (hn : n.ExposesOnly covers P) (name : String)
    (replace : Bool) : (out.push name n replace).ExposesOnly covers P := by
  unfold Projected.push
  dsimp only
  split
  · intro m hm
    simp only [nodes, List.map_set] at hm
    obtain hm | rfl := List.mem_or_eq_of_mem_set hm
    · exact h m hm
    · exact hn
  · intro m hm
    simp only [nodes, List.map_append, List.map_cons, List.map_nil, List.mem_append, List.mem_singleton] at hm
    obtain hm | rfl := hm
    · exact h m hm
    · exact hn

/-- Further columns expose what their nodes do. -/
theorem ExposesOnly.pushAll {columns : List (String × Node)} (h : out.ExposesOnly covers P)
    (hc : ∀ c ∈ columns, c.2.ExposesOnly covers P) : (out.pushAll columns).ExposesOnly covers P :=
  List.foldlRecOn columns _ h fun _ hout c hmem => hout.push (hc c hmem) c.1 false

/-- A single column exposes what its node does. -/
theorem ExposesOnly.pushScalar (h : out.ExposesOnly covers P) (hn : n.ExposesOnly covers P) :
    (out.pushScalar n).ExposesOnly covers P := by
  intro m hm
  rw [nodes_pushScalar] at hm
  obtain hm | hm := List.mem_append.mp hm
  · exact h m hm
  · exact List.mem_singleton.mp hm ▸ hn

/-- What is selected for an expression that is left for evaluation after fetching is read from parameters. -/
theorem ExposesOnly.left (h : out.ExposesOnly covers P) (hs : s.ExposesOnly covers P) (hleft : Left s out out') :
    out'.ExposesOnly covers P := by
  obtain ⟨ns, hns, hreads⟩ := hleft.nodes
  intro n hn
  rw [hns] at hn
  obtain hn | hn := List.mem_append.mp hn
  · exact h n hn
  · obtain ⟨param, b, hb, hread⟩ := hreads n hn
    exact hs param b hb n hread

/-- A named expression. -/
theorem exposesOnly_member (h : out.ExposesOnly covers P) (hs : s.ExposesOnly covers P) (ho : o.ExposesOnly covers)
    {replace : Bool} (hg : (out.member name o replace).Gives s p out' p') : out'.ExposesOnly covers P := by
  obtain ⟨n, hn, rfl⟩ | ⟨hleft, -⟩ := gives_member hg
  · exact h.push (ho.exposes (hs.projecting true) (.value hn) n List.mem_cons_self) name replace
  · exact h.left hs hleft

/-- A single expression. -/
theorem exposesOnly_scalar (h : out.ExposesOnly covers P) (hs : s.ExposesOnly covers P) (ho : o.ExposesOnly covers)
    (hg : (out.scalar o).Gives s p out' p') : out'.ExposesOnly covers P := by
  obtain ⟨n, hn, rfl⟩ | ⟨hleft, -⟩ := gives_scalar hg
  · exact h.pushScalar (ho.exposes (hs.projecting true) (.value hn) n List.mem_cons_self)
  · exact h.left hs hleft

/-- The keys of a group. -/
theorem ExposesOnly.pushKeys (h : out.ExposesOnly covers P) (hs : s.ExposesOnly covers P) {param : String}
    {g : Grouping} (hb : s.binding? param = some (.grouping g)) : (out.pushAll g.keys).ExposesOnly covers P :=
  h.pushAll fun _ hk => hs param _ hb _ (.key hk)

/-- The members of an object.

**Proof sketch.** By induction on the members. One that stands for several keys of groups becomes these keys, and any
other one is added by itself. -/
theorem exposesOnly_object {named : List (String × Operand)} (h : out.ExposesOnly covers P)
    (hs : s.ExposesOnly covers P) (hn : ∀ m ∈ named, m.2.ExposesOnly covers)
    (hg : (out.object named).Gives s p out' p') : out'.ExposesOnly covers P := by
  induction named generalizing out p with
  | nil =>
    obtain ⟨rfl, rfl⟩ := gives_pure.mp hg
    exact h
  | cons m rest ih =>
    obtain ⟨name, o⟩ := m
    have hrest := fun m hm => hn m (List.mem_cons_of_mem _ hm)
    have added {q : Progress} (hq : (do object (← out.member name o false) rest : Planning _).Gives s q out' p') :
        out'.ExposesOnly covers P := by
      obtain ⟨mid, q', hmid, hobject⟩ := gives_bind.mp hq
      exact ih (exposesOnly_member h hs (hn _ List.mem_cons_self) hmid) hrest hobject
    obtain ⟨g?, q, hgrouping, hobject⟩ := gives_bind.mp hg
    obtain ⟨rfl, hbound⟩ := gives_grouping? hgrouping
    split at hobject
    · next g =>
      split at hobject
      · obtain ⟨param, hb, -⟩ := hbound g rfl
        exact ih (h.pushKeys hs hb) hrest hobject
      · exact added hobject
    · exact added hobject

/-- The members of an object that is laid over a projection. -/
theorem exposesOnly_overlay {named : List (String × Operand)} (h : out.ExposesOnly covers P)
    (hs : s.ExposesOnly covers P) (hn : ∀ m ∈ named, m.2.ExposesOnly covers)
    (hg : (out.overlay named).Gives s p out' p') : out'.ExposesOnly covers P := by
  induction named generalizing out p with
  | nil =>
    obtain ⟨rfl, rfl⟩ := gives_pure.mp hg
    exact h
  | cons m rest ih =>
    obtain ⟨mid, q, hmid, hoverlay⟩ := gives_bind.mp hg
    exact ih (exposesOnly_member h hs (hn _ List.mem_cons_self) hmid) (fun m hm => hn m (List.mem_cons_of_mem _ hm))
      hoverlay

/-- A projection that builds no object. -/
theorem exposesOnly_body (h : out.ExposesOnly covers P) (hs : s.ExposesOnly covers P) (ho : o.ExposesOnly covers)
    (hg : (out.body o).Gives s p out' p') : out'.ExposesOnly covers P := by
  obtain ⟨g?, q, hgrouping, hbody⟩ := gives_bind.mp hg
  obtain ⟨rfl, hbound⟩ := gives_grouping? hgrouping
  split at hbody
  · next g =>
    obtain ⟨rfl, rfl⟩ := gives_pure.mp hbody
    obtain ⟨param, hb, -⟩ := hbound g rfl
    exact h.pushKeys hs hb
  · split at hbody
    · next param _ =>
      simp only [gives_bind, gives_lookup] at hbody
      obtain ⟨b, _, ⟨hb, rfl⟩, hbody⟩ := hbody
      split at hbody
      · obtain ⟨rfl, rfl⟩ := gives_pure.mp hbody
        exact h.pushAll fun _ hc => hs param _ hb _ (.row hc)
      · obtain ⟨rfl, rfl⟩ := gives_pure.mp hbody
        exact h.pushKeys hs hb
    · exact exposesOnly_scalar h hs ho hbody

/-- A projection of all columns: the keys of the groups, or the columns of the first table. -/
theorem exposesOnly_whole {tables : List TableBinding} {grouping : Option Grouping}
    (ht : grouping = none → ∀ t ∈ tables, (Binding.table t).ExposesOnly covers P)
    (hg : ∀ g, grouping = some g → (Binding.grouping g).ExposesOnly covers P) :
    (whole tables grouping).ExposesOnly covers P := by
  cases grouping with
  | some g => exact ExposesOnly.empty.pushAll fun _ hk => hg g rfl _ (.key hk)
  | none =>
    refine ExposesOnly.empty.pushAll fun c hc => ?_
    cases tables with
    | nil => cases hc
    | cons t rest => exact ht rfl t List.mem_cons_self _ (.row hc)

end Projected

end LambdaSql
