import LambdaSql.Proofs.Naming.Projecting
import LambdaSql.Proofs.Plan.AtHand

/-!
# Faithful expressions

An expression whose parts are planned faithfully is planned faithfully itself. There is one lemma for each
form of expressions; together they make up the cases of an induction.

## Main definitions

* `FaithfulUnder` - nodes planned under a lambda that refer to what they should.
* `SelectsFaithfully` - arguments whose first one selects a value from rows.

## Main results

* `member_isFaithful`, `call_isFaithful`, `binary_isFaithful` and their neighbours - the forms of
  expressions.
* `Operand.IsFaithful.under` - the body of a lambda.
-/

namespace LambdaSql

open Planning

/-! ## Operands of expressions -/

/-- Applied to bindings, an expression is planned under its parameters. -/
theorem operand_applied (e : Expr) (bindings : List Binding) :
    (operand e).applied bindings =
      withFrame e.toLambda.params bindings (operand e.toLambda.body).value := by
  cases e with
  | binary op l r =>
    show (operand (.binary op l r)).applied bindings =
      withFrame [] bindings (operand (.binary op l r)).value
    rw [operand]
    split <;> rfl
  | call target type method args => cases target <;> rfl
  | _ => rfl

variable {model : Model} {places : Places} {depth : Nat}

/-- The references of operands are those of the items that they plan. -/
private theorem sum_operands (es : List Expr) :
    ((operands es).map fun o => o.source.references model places depth).sum =
      itemsReferences model places depth es := by
  induction es with
  | nil => rfl
  | cons e rest ih => rw [operands, List.map_cons, List.sum_cons, ih, operand_source, itemsReferences]

/-- The references of members are those of their values, added. -/
theorem sum_members (ms : List (String × Expr)) :
    ((members ms).map fun m => m.2.source.references model places depth).sum =
      membersReferences model places depth ms := by
  induction ms with
  | nil => rfl
  | cons m rest ih => rw [members, List.map_cons, List.sum_cons, ih, operand_source, membersReferences]

/-! ## Under lambdas -/

/-- Nodes planned under parameters that are bound by position, which refer to what they should in every
apt place where the bindings stand for places. -/
structure FaithfulUnder (s : Scope) (bindings : List Binding) (p : Progress) (ns : List Node)
    (p' : Progress) (references : Places → List Place → Nat → Multiset Reference) : Prop where
  le : p.nextAlias ≤ p'.nextAlias
  accounts : ∀ {places around bound}, Apt s places p p' around →
    Bound s.compiler.options.firstAlias p.nextAlias around bindings bound →
    Accounts (nodesOccurrences around ns) (references places bound around.length)

variable {s : Scope} {bindings : List Binding} {p q p' : Progress} {n : Node} {ns ms : List Node}
  {around : List Level}

/-- A binding that stands for a place does so with a later position as well. -/
theorem Bound.later {bound : List Place} {first : Char} {limit limit' : Nat}
    (h : Bound first limit around bindings bound) (hle : limit ≤ limit') (hd : (aliases around).Nodup) :
    Bound first limit' around bindings bound := by
  have := h.deepen hle .nil hd
  exact this

namespace FaithfulUnder

variable {r r' : Places → List Place → Nat → Multiset Reference}

/-- No nodes are faithful whatever is bound. -/
theorem nil : FaithfulUnder s bindings p [] p r := ⟨le_rfl, fun _ _ => .zero⟩

/-- Nodes that are planned in turn are faithful if both parts are. -/
theorem append (h : FaithfulUnder s bindings p ns q r) (h' : FaithfulUnder s bindings q ms p' r') :
    FaithfulUnder s bindings p (ns ++ ms) p' fun places bound depth =>
      r places bound depth + r' places bound depth := by
  refine ⟨h.le.trans h'.le, fun ha hb => ?_⟩
  rw [nodesOccurrences_append]
  exact (h.accounts (ha.within le_rfl h'.le) hb).add
    (h'.accounts (ha.within h.le le_rfl) (hb.later h.le ha.distinct))

/-- A test is made of the value that it tests. -/
theorem madeOf (h : FaithfulUnder s bindings p [n] p' r) {m : Node} (hm : m.MadeOf [n]) :
    FaithfulUnder s bindings p [m] p' r := by
  refine ⟨h.le, fun ha hb => (h.accounts ha hb).mono ?_ le_rfl⟩
  rw [nodesOccurrences_cons, nodesOccurrences_nil, add_zero]
  exact hm.le _

end FaithfulUnder

/-- The body of a lambda refers to what it does among the places of the parameters. -/
theorem Operand.IsFaithful.under {o : Operand} (ho : o.IsFaithful) {params : List String}
    (h : (o.under params bindings).Gives s p n p') :
    FaithfulUnder s bindings p [n] p' fun places bound depth =>
      o.source.references s.compiler.model (Places.frame params bound :: places) depth := by
  obtain ⟨-, hn⟩ := gives_withFrame.mp h
  refine ⟨(ho.faithful [] (.value hn)).le, fun ha hb => ?_⟩
  exact (ho.faithful _ (.value hn)).accounts _ (ha.under hb params)

/-- The first of several arguments, applied to the rows of a group, refers to what it should. -/
structure SelectsFaithfully (args : List Expr) : Prop where
  faithful : ∀ {s bindings o rest p n p'}, operands args = o :: rest →
    (o.applied bindings).Gives s p n p' →
    FaithfulUnder s bindings p [n] p' fun places bound depth =>
      selectorReferences s.compiler.model places depth bound args

/-! ## The forms of expressions -/

section Forms

/-- An expression that is planned in one way only. -/
theorem plain_isFaithful {e : Expr} {lower : Planning Node}
    (h : ∀ {s places p n p'}, lower.Gives s p n p' →
      Faithful s places p [n] p' fun depth => e.references s.compiler.model places depth) :
    (plainOperand e lower).IsFaithful := by
  have folded {s : Scope} {places : Places} {p p' : Progress} {n : Node}
      (hn : (Lowering.folded e lower).Gives s p n p') :
      Faithful s places p [n] p' fun depth => e.references s.compiler.model places depth := by
    obtain ⟨hmade, rfl⟩ | hn := Lowering.folded_or_lowered hn
    · exact .of_madeOf_nil hmade
    · exact h hn
  refine ⟨?_⟩
  intro s places p ns p' hg
  cases hg with
  | value hv => exact folded hv
  | alternatives ha =>
    simp only [plainOperand, gives_bind, gives_pure] at ha
    obtain ⟨n, q, hn, rfl, rfl⟩ := ha
    exact folded hn
  | selection t hs => cases hs
  | rows t hs => cases hs
  | items hi => cases hi
  | choices _ hv => exact (folded hv).choices

/-- An expression that is planned in further ways. -/
theorem ways_isFaithful {e : Expr} {o : Operand} {lower : Planning Node}
    (hplain : (plainOperand e lower).IsFaithful) (hsource : o.source = e)
    (hvalue : o.value = (plainOperand e lower).value)
    (ha : ∀ {s places p ns p'}, o.alternatives.Gives s p ns p' →
      Faithful s places p ns p' fun depth => e.references s.compiler.model places depth)
    (hs : ∀ {plan s places p q p'} (t : HostType), o.selection = some plan → plan.Gives s p q p' →
      Faithful s places p [.subquery q t] p' fun depth => e.references s.compiler.model places depth)
    (hi : ∀ {plan s places p ns p'}, o.items = some plan → plan.Gives s p ns p' →
      Faithful s places p ns p' fun depth => e.references s.compiler.model places depth) :
    o.IsFaithful := by
  refine ⟨?_⟩
  intro s places p ns p' hg
  rw [hsource]
  cases hg with
  | value hv => exact hplain.faithful _ (.value (hvalue ▸ hv))
  | alternatives h => exact ha h
  | selection t h hq => exact hs t h hq
  | rows t h hq => exact (hs t h hq).rows
  | items h hns => exact hi h hns
  | choices _ hv => exact Faithful.choices (hplain.faithful _ (.value (hvalue ▸ hv)))

/-- An expression that draws from its parts. -/
theorem draws_isFaithful {e : Expr} {lower : Planning Node} {os : List Operand}
    (hd : lower.Draws [] os) (hos : ∀ o ∈ os, o.IsFaithful)
    (hr : ∀ {model places depth},
      (os.map fun o => o.source.references model places depth).sum ≤ e.references model places depth) :
    (plainOperand e lower).IsFaithful :=
  plain_isFaithful fun hn => (hd.faithful hos _ hn).mono fun _ => hr

variable {e target : Expr} {args : List Expr}

/-- A constant is planned faithfully. -/
theorem constant_isFaithful (v : Value) : (operand (.constant v)).IsFaithful :=
  plain_isFaithful fun hn => by
    obtain ⟨hmade, rfl⟩ := Lowering.madeOf_atHand hn
    exact .of_madeOf_nil hmade

/-- A captured value is planned faithfully. -/
theorem captured_isFaithful (name : String) (v : Value) : (operand (.captured name v)).IsFaithful :=
  plain_isFaithful fun hn => by
    obtain ⟨hmade, rfl⟩ := Lowering.madeOf_atHand hn
    exact .of_madeOf_nil hmade

/-- A static member is planned faithfully. -/
theorem static_isFaithful (type name : String) : (operand (.static type name)).IsFaithful :=
  plain_isFaithful fun hn => by
    obtain ⟨hmade, rfl⟩ := Lowering.gives_static hn
    exact .of_madeOf_nil hmade

/-- A parameter is planned faithfully. -/
theorem param_isFaithful (name : String) : (operand (.param name)).IsFaithful :=
  plain_isFaithful fun hn => by
    simp only [Expr.references]
    exact Lowering.faithful_parameter hn

/-- A member of an expression: of a parameter, of a group's key, or of a value.

**Proof sketch.** A member of a parameter refers to its table or groups, and a member of a key to a part of that key.
Any other one refers to what its target does. -/
theorem member_isFaithful (ht : (operand target).IsFaithful) (name : String) :
    (operand (.member target name)).IsFaithful := by
  refine plain_isFaithful fun {s places p n p'} hn => ?_
  simp only [Expr.references]
  unfold Lowering.member at hn
  rw [operand_source] at hn
  split at hn
  · exact Lowering.faithful_parameterMember hn
  · next hne =>
    have hmember (depth : Nat) (whole : Multiset Reference) :
        memberReferences places depth name target whole =
          ((places.keyPart? name target).map (· depth)).getD whole := by
      cases target with
      | param param => exact absurd rfl (hne param)
      | _ => rfl
    simp only [hmember]
    obtain ⟨param, key, g, hsource, hkey, hb, hlookup, rfl⟩ | ⟨hno, ns, hdrawn, hmade⟩ :=
      Lowering.gives_valueMember hn
    · rw [operand_source] at hsource
      subst hsource
      exact faithful_keyPart hkey hb hlookup _
    · rw [operand_source] at hno
      have hall : ∀ o ∈ [operand target], o.IsFaithful := by
        intro o ho
        rw [List.mem_singleton.mp ho]
        exact ht
      have hf := (hdrawn.faithful hall places).madeOf hmade
      refine ⟨hf.le, fun around ha => ?_⟩
      have haccounts := hf.accounts around ha
      rw [List.map_singleton, List.sum_singleton, operand_source] at haccounts
      rwa [ha.keyPart?_eq_none hno]

/-- A call on a target: on a group, or on a value.

**Proof sketch.** A call on groups refers to what its selector does for the tables of the groups, with an alias for
each of them. Any other one refers to what its target and its arguments do. -/
theorem call_isFaithful (ht : (operand target).IsFaithful)
    (hargs : ∀ o ∈ operands args, o.IsFaithful) (hselect : SelectsFaithfully args)
    (type : Option String) (method : String) :
    (operand (.call (some target) type method args)).IsFaithful := by
  refine plain_isFaithful fun {s places p n p'} hn => ?_
  simp only [Expr.references]
  obtain ⟨name, g, hsource, hb, hcall⟩ | ⟨hno, ns, hdrawn, hmade⟩ := Lowering.gives_callOn hn
  · rw [operand_source] at hsource
    subst hsource
    obtain ⟨hempty, hmade, rfl⟩ | ⟨o, rest, m, hcons, happlied, hmade⟩ :=
      Lowering.gives_groupingCall hcall
    · exact .of_madeOf_nil hmade
    · have hf := (hselect.faithful hcons happlied).madeOf hmade
      refine ⟨hf.le, fun around ha => ?_⟩
      obtain ⟨_, hplace, hstands⟩ := ha.find hb
      cases hstands with
      | @grouping _ keys elements _ helements =>
        rw [show places.elements? (.param name) = some elements by
          simp only [Places.elements?, hplace, Option.bind_some, Place.elements?]]
        refine hf.accounts ha ?_
        unfold tableBindings
        rw [Bound, List.forall₂_map_left_iff, List.forall₂_map_right_iff]
        exact helements.imp fun _ _ h => .table h
  · rw [operand_source] at hno
    have hall : ∀ o ∈ operand target :: operands args, o.IsFaithful := by
      intro o ho
      obtain rfl | ho := List.mem_cons.mp ho
      · exact ht
      · exact hargs o ho
    have hf := (hdrawn.faithful hall places).madeOf hmade
    refine ⟨hf.le, fun around ha => ?_⟩
    have haccounts := hf.accounts around ha
    rw [List.map_cons, List.sum_cons, operand_source, sum_operands] at haccounts
    rwa [ha.elements?_eq_none hno]

/-- A call without a target is planned faithfully if its arguments are. -/
theorem callOf_isFaithful (hargs : ∀ o ∈ operands args, o.IsFaithful) (type : Option String)
    (method : String) : (operand (.call none type method args)).IsFaithful :=
  draws_isFaithful (Lowering.draws_callOf type method _) hargs fun {model places depth} => by
    rw [sum_operands, Expr.references]

/-- A binary operation is planned faithfully if its two sides are. -/
theorem binary_isFaithful {left right : Expr} (hl : (operand left).IsFaithful)
    (hr : (operand right).IsFaithful) (op : BinaryOp) : (operand (.binary op left right)).IsFaithful := by
  have hplain : (plainOperand (.binary op left right)
      (Lowering.binary op (operand left) (operand right))).IsFaithful := by
    refine draws_isFaithful (Lowering.draws_binary op _ _) ?_ fun {model places depth} => ?_
    · simp [hl, hr]
    · simp [Expr.references]
  rw [operand]
  split
  · refine ways_isFaithful hplain rfl rfl (fun {s places p ns p'} ha => ?_)
      (fun _ hs => by cases hs) fun hs => by cases hs
    simp only [gives_bind, gives_pure] at ha
    obtain ⟨ls, q, hls, rs, q', hrs, rfl, rfl⟩ := ha
    have hboth := (hl.faithful places (.alternatives hls)).append
      (hr.faithful places (.alternatives hrs))
    simpa only [operand_source, Expr.references] using hboth
  · exact hplain

/-- A unary operation is planned faithfully if its operand is. -/
theorem unary_isFaithful {inner : Expr} (h : (operand inner).IsFaithful) (op : UnaryOp) :
    (operand (.unary op inner)).IsFaithful := by
  refine draws_isFaithful (Lowering.draws_unary op _) ?_ fun {model places depth} => ?_
  · simp [h]
  · simp [Expr.references]

/-- A conditional is planned faithfully if its three parts are. -/
theorem conditional_isFaithful {test a b : Expr} (ht : (operand test).IsFaithful)
    (ha : (operand a).IsFaithful) (hb : (operand b).IsFaithful) :
    (operand (.conditional test a b)).IsFaithful := by
  refine draws_isFaithful (Lowering.draws_conditional _ _ _) ?_ fun {model places depth} => ?_
  · simp [ht, ha, hb]
  · simp [Expr.references, add_assoc]

/-- A conversion leaves the columns of a value as they are. -/
theorem convert_isFaithful {inner : Expr} (h : (operand inner).IsFaithful) (target : HostType) :
    (operand (.convert inner target)).IsFaithful := by
  have hplain : (plainOperand (.convert inner target)
      (do return (← (operand inner).value).retype target)).IsFaithful := by
    refine plain_isFaithful fun {s places p n p'} hn => ?_
    simp only [gives_bind, gives_pure] at hn
    obtain ⟨m, q, hm, rfl, rfl⟩ := hn
    have hf := h.faithful places (.value hm)
    rw [operand_source] at hf
    simp only [Expr.references]
    exact hf.madeOf (Node.madeOf_retype target m)
  refine ways_isFaithful hplain rfl rfl (fun ha => hplain.faithful _ (.alternatives ha))
    (fun {plan s places p q p'} t hs hq => ?_) fun hs => by cases hs
  have hf := h.faithful places (.selection t hs hq)
  simpa only [operand_source, Expr.references] using hf

/-- An array is planned faithfully if its items are. -/
theorem array_isFaithful {items : List Expr} (h : ∀ o ∈ operands items, o.IsFaithful) :
    (operand (.array items)).IsFaithful := by
  have hplain : (plainOperand (.array items) (fail .constructionAsValue)).IsFaithful :=
    plain_isFaithful fun hn => absurd hn not_gives_fail
  refine ways_isFaithful hplain rfl rfl (fun ha => hplain.faithful _ (.alternatives ha)) nofun
    (fun {plan s places p ns p'} hi hns => ?_)
  cases hi
  have hf := (Drawn.values hns).faithful h places
  simpa only [sum_operands, Expr.references] using hf

/-- An object is no single node, and so is planned faithfully. -/
theorem object_isFaithful (ms : List (String × Expr)) : (operand (.object ms)).IsFaithful :=
  plain_isFaithful fun hn => absurd hn not_gives_fail

/-- A lambda is no single node, and so is planned faithfully. -/
theorem lambda_isFaithful (params : List String) (body : Expr) :
    (operand (.lambda params body)).IsFaithful := by
  have hplain : (plainOperand (.lambda params body) (fail .lambdaAsValue)).IsFaithful :=
    plain_isFaithful fun hn => absurd hn not_gives_fail
  exact ways_isFaithful hplain rfl rfl (fun ha => hplain.faithful _ (.alternatives ha)) nofun nofun

/-- A query in an expression is a selection. -/
theorem query_isFaithful {q : Query}
    (h : ∀ {s} places {p sel p'} (t : HostType), (planQuery q).Gives s p sel p' →
      Faithful s places p [.subquery sel t] p' fun depth =>
        queryReferences s.compiler.model places depth q) :
    (operand (.query q)).IsFaithful := by
  have selected {s : Scope} {places : Places} {p p' : Progress} {sel : Select} (t : HostType)
      (hsel : (asSubquery (planQuery q)).Gives s p sel p') :
      Faithful s places p [.subquery sel t] p' fun depth =>
        (Expr.query q).references s.compiler.model places depth := by
    have hf := h places t (gives_asSubquery.mp hsel)
    simp only [Expr.references]
    exact ⟨hf.le, fun around ha => hf.accounts around (ha.projecting false)⟩
  have hplain : (plainOperand (.query q) (Lowering.selection (asSubquery (planQuery q)))).IsFaithful := by
    refine plain_isFaithful fun {s places p n p'} hn => ?_
    simp only [Lowering.selection, gives_bind, gives_pure] at hn
    obtain ⟨sel, q', hsel, rfl, rfl⟩ := hn
    exact selected _ hsel
  refine ways_isFaithful hplain rfl rfl (fun ha => hplain.faithful _ (.alternatives ha))
    (fun t hs hq => ?_) fun hs => by cases hs
  cases hs
  exact selected t hq

/-- Arguments of which the first one is a lambda over rows, or a value. -/
theorem selects_lambda {params : List String} {body : Expr} (h : (operand body).IsFaithful)
    (rest : List Expr) : SelectsFaithfully (.lambda params body :: rest) := by
  refine ⟨fun {s bindings o others p n p'} hcons happlied => ?_⟩
  rw [operands] at hcons
  cases hcons
  have hf := h.under happlied
  simpa only [operand_source, selectorReferences] using hf

/-- What is no lambda takes no selection, and its value is planned faithfully. -/
theorem selects_value (h : (operand e).IsFaithful) (hne : ∀ params body, e ≠ .lambda params body)
    (rest : List Expr) : SelectsFaithfully (e :: rest) := by
  refine ⟨fun {s bindings o others p n p'} hcons happlied => ?_⟩
  rw [operands] at hcons
  cases hcons
  have hlambda : e.toLambda = ⟨[], e⟩ := by
    cases e with
    | lambda params body => exact absurd rfl (hne params body)
    | _ => rfl
  rw [operand_applied, hlambda] at happlied
  have hf := h.under happlied
  have hselector (model : Model) (places : Places) (depth : Nat) (bound : List Place) :
      selectorReferences model places depth bound (e :: rest) =
        e.references model (Places.frame [] bound :: places) depth := by
    cases e with
    | lambda params body => exact absurd rfl (hne params body)
    | _ =>
      rw [selectorReferences]
      rintro _ _ ⟨⟩
  simpa only [operand_source, hselector] using hf

end Forms

end LambdaSql
