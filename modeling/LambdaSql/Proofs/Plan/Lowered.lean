import LambdaSql.Proofs.Plan.Features
import LambdaSql.Plan.Query

/-!
# How lowering spreads features

An expression becomes a node by its value at hand, by what is read from a binding, or by an operator on what its parts
become. Each of these spreads a feature from the parts of an expression to the expression.

## Main results

* `Lowering.spreads_folded`, `Lowering.spreads_itemsAtHand` - values at hand.
* `Lowering.spreads_membership` - tests against collections and selections.
* `Lowering.spreads_apply` - translated calls.
* `Lowering.spreads_callOn`, `Lowering.spreads_binary` and their neighbours - the forms of expressions.
* `Lowering.spreads_assigned` - the right-hand side of an assignment.
-/

namespace LambdaSql

open Planning

variable {F : Feature} {n m : Node} {ns : List Node}

/-- What is neither left to the database nor constant is captured. -/
private theorem Origin.eq_captured {o : Origin} (hs : o ≠ .sql) (hc : o ≠ .constant) : o = .captured := by
  cases o with
  | constant => exact absurd rfl hc
  | captured => rfl
  | sql => exact absurd rfl hs

namespace Lowering

variable {e : Expr} {o collection item : Operand} {args : List Operand}

/-! ## Values at hand -/

/-- A constant spreads the feature. -/
private theorem spreads_constant (v : Value) : (constant v).Spreads F F.node :=
  keeps_dialect.bind fun _ _ => .ofExcept fun _ h => F.composable.constant h

/-- A value at hand spreads the feature. -/
theorem spreads_atHand {v : Value} {o : Origin} (h : o ≠ .constant → F.node (.parameter v)) :
    (atHand v o).Spreads F F.node := by
  have plain : (if o = .constant then constant v else return .parameter v : Planning Node).Spreads F F.node := by
    split
    · exact spreads_constant v
    · next ho => exact .pure (h ho)
  unfold atHand
  split
  · exact .fail
  · exact .fail
  · exact plain

/-- The value of an expression that may be planned. -/
theorem spreads_valueAtHand (he : F.Admits e) {t : TranslationTable} (ho : e.origin t ≠ .sql) (v : Value) :
    (atHand v (e.origin t)).Spreads F F.node :=
  spreads_atHand fun hc => F.captured he (Origin.eq_captured ho hc)

/-- An expression that may be folded spreads the feature if it does so unfolded. -/
theorem spreads_folded (he : F.Admits e) {lower : Planning Node} (h : lower.Spreads F F.node) :
    (folded e lower).Spreads F F.node := by
  unfold folded
  refine keeps_origin.bind ?_
  rintro _ ⟨t, rfl⟩
  split
  · exact h
  · next ho =>
    refine keeps_foldable.bind fun b _ => ?_
    split
    · refine (keeps_valueOf? he.faults).bind fun v? _ => ?_
      split
      · exact spreads_valueAtHand he ho _
      · exact h
    · exact h

/-! ## Members -/

/-- The key of groups with just one spreads the feature. -/
private theorem spreads_singleKey {g : Grouping} (hg : F.binding (.grouping g)) :
    (ofExcept g.singleKey).Spreads F F.node := by
  refine .ofExcept fun n hn => ?_
  obtain ⟨name, hkeys⟩ := Grouping.keys_of_singleKey hn
  exact hg.reads (.key (hkeys ▸ List.mem_cons_self))

/-- A key of an allowed grouping is allowed. -/
theorem spreads_key {g : Grouping} (hg : F.binding (.grouping g)) (name : String) :
    (ofExcept (g.key name)).Spreads F F.node :=
  .ofExcept fun _ hn => hg.reads (.key (Grouping.mem_of_lookup (Grouping.lookup_of_key hn)))

/-- A column of an allowed table is allowed. -/
theorem spreads_column {t : TableBinding} (ht : F.binding (.table t)) (name : String) :
    (ofExcept (t.column name)).Spreads F F.node := .ofExcept fun _ hn => ht.reads (.column hn)

/-- A parameter spreads the feature. -/
theorem spreads_parameter (name : String) : (parameter name).Spreads F F.node := by
  unfold parameter
  refine (F.lookup name).bind fun b hb => ?_
  split
  · exact spreads_singleKey hb
  · exact .fail

/-- A member of a parameter spreads the feature. -/
private theorem spreads_parameterMember (param name : String) : (parameterMember param name).Spreads F F.node := by
  unfold parameterMember
  refine (F.lookup param).bind fun b hb => ?_
  split
  · exact spreads_column hb name
  · split
    · exact spreads_singleKey hb
    · exact spreads_key hb name

/-- A key that is read by its name spreads the feature. -/
private theorem spreads_keyMember? (target : Expr) (name : String) :
    (keyMember? target name).Spreads F fun n? => ∀ n, n? = some n → F.node n := by
  unfold keyMember?
  split
  · split
    · refine (F.lookup _).bind fun b hb => ?_
      split
      · exact .pure fun n hn => Feature.binding.reads hb (.key (Grouping.mem_of_lookup hn))
      · exact .pure nofun
    · exact .pure nofun
  · exact .pure nofun

/-- A member of a value spreads the feature if the value does. -/
private theorem spreads_valueMember (h : o.Spreads F) (name : String) : (valueMember o name).Spreads F F.node := by
  unfold valueMember
  refine (spreads_keyMember? o.source name).bind fun n? hn? => ?_
  split
  · next n => exact .pure (hn? n rfl)
  · split
    · exact h.value.bind fun n hn => .pure (F.composable.isNull hn)
    · split
      · exact h.value
      · refine h.value.bind fun n hn => ?_
        refine keeps_translations.bind fun _ _ => ?_
        split
        · exact .pure (F.composable.call_one _ hn _)
        · exact .fail

/-- A member spreads the feature if its target does. -/
theorem spreads_member (h : o.Spreads F) (name : String) : (member o name).Spreads F F.node := by
  unfold member
  split
  · exact spreads_parameterMember ..
  · exact spreads_valueMember h name

/-- A static member spreads the feature. -/
theorem spreads_static (type name : String) : (static type name).Spreads F F.node := by
  unfold static
  refine keeps_translations.bind fun _ _ => ?_
  split
  · exact .pure (F.composable.call nofun)
  · exact spreads_constant _
  · exact .fail

/-! ## Membership and selections -/

/-- Items at hand spread the feature. -/
theorem spreads_itemsAtHand (he : F.Admits e) : (itemsAtHand e).Spreads F fun ns => ∀ n ∈ ns, F.node n := by
  unfold itemsAtHand
  refine keeps_origin.bind ?_
  rintro _ ⟨t, rfl⟩
  split
  · exact Keeps.fail.bind (R := fun _ => False) fun _ h => h.elim
  · next ho =>
    refine (keeps_valueOf? he.faults).bind fun v? _ => ?_
    split
    · exact .fail
    · exact .mapM fun v _ => spreads_valueAtHand he ho v
    · exact .fail

/-- A test against an empty list spreads the feature. -/
private theorem spreads_emptyMembership (hm : F.node m) (negated : Bool) :
    (emptyMembership m negated).Spreads F F.node := by
  unfold emptyMembership
  refine Keeps.read.bind fun s _ => ?_
  split
  · exact .fail
  · refine .pure ?_
    split
    · exact F.composable.always true
    · exact F.composable.listed (List.forall_mem_singleton.mpr (HostType.comparable_unknown _)) hm
        (List.forall_mem_singleton.mpr F.composable.null)

/-- A test against a list is made after each of its items is found to be comparable. -/
theorem spreads_listed (hm : F.node m) (hns : ∀ n ∈ ns, F.node n) (negated : Bool) : (do
    ns.forM fun n => ofExcept (m.type.comparable n.type)
    if ns.isEmpty then emptyMembership m negated else return .inList m ns negated :
    Planning Node).Spreads F F.node := by
  refine (Keeps.forM (Q := fun n : Node => m.type.comparable n.type = .ok ()) fun n _ => .ofExcept fun _ h => h).bind
    fun _ hc => ?_
  split
  · exact spreads_emptyMembership hm negated
  · exact .pure (F.composable.listed hc hm hns)

/-- Membership spreads the feature if the collection and the item do. -/
theorem spreads_membership (hc : collection.Spreads F) (hi : item.Spreads F) (negated : Bool) :
    (membership collection item negated).Spreads F F.node := by
  unfold membership
  refine hi.value.bind fun m hm => ?_
  split
  · next plan hplan => exact (hc.selection plan hplan).bind fun s hs => .pure (F.searched hm hs)
  · split
    · next plan hplan => exact (hc.items plan hplan).bind fun ns hns => spreads_listed hm hns negated
    · exact (spreads_itemsAtHand hc.source).bind fun ns hns => spreads_listed hm hns negated

/-- A test for rows spreads the feature if the rows do. -/
private theorem spreads_rowsTest (h : o.Spreads F) (declaring method : String) (negated : Bool) :
    (rowsTest o declaring method negated).Spreads F F.node := by
  unfold rowsTest
  split
  · next q plan _ hplan =>
    refine (h.selection plan hplan).bind fun s hs => .pure ?_
    split
    · exact F.counted hs
    · exact F.tested hs
  · exact .fail

/-! ## Parts of calls -/

/-- A target and arguments spread the feature if each does. -/
private theorem spreads_operands {target : Option Node} (ht : ∀ n, target = some n → F.node n)
    (ha : ∀ o ∈ args, o.Spreads F) : (operands target args).Spreads F fun ns => ∀ n ∈ ns, F.node n := by
  unfold operands
  refine (Keeps.mapM fun o ho => (ha o ho).value).bind fun ns hns => .pure fun n hn => ?_
  obtain hn | hn := List.mem_append.mp hn
  · exact ht n (Option.mem_toList.mp hn)
  · exact hns n hn

/-- A time shifted by what is found to shift it by. -/
theorem spreads_shiftedBy (hn : F.node n) {unit : IntervalUnit} {found : Planning (Bool × Node)}
    (h : found.Spreads F fun r => F.node r.2) : (do
      let (negative, interval) ← found
      return .call (if negative then .dateSub unit else .dateAdd unit) [n, interval] n.type :
      Planning Node).Spreads F F.node :=
  h.bind fun _ hr => .pure (F.composable.call_two _ hn hr _)

/-- A time shifted by a value spreads the feature. -/
private theorem spreads_shiftedByValue (hn : F.node n) (v : Value) (unit : IntervalUnit) (scale : Int64) :
    (shiftedByValue n v unit scale).Spreads F F.node := by
  unfold shiftedByValue
  split
  · split
    · exact spreads_shiftedBy hn .fail
    · split
      · exact spreads_shiftedBy hn .fail
      · exact spreads_shiftedBy hn (.pure (F.composable.ofInt _))
  · split
    · exact spreads_shiftedBy hn .fail
    · exact (spreads_constant _).bind fun m hm => spreads_shiftedBy hn (.pure hm)

/-- A time shifted by an operand spreads the feature if the operand does. -/
private theorem spreads_dateAdd (hn : F.node n) (h : o.Spreads F) (unit : IntervalUnit) (scale : Int64) :
    (dateAdd n o unit scale).Spreads F F.node := by
  unfold dateAdd
  refine (keeps_constantValue? h.source.faults).bind fun v? _ => ?_
  split
  · exact spreads_shiftedByValue hn ..
  · refine h.value.bind fun a ha => .pure (F.composable.call_two _ hn ?_ _)
    split
    · exact ha
    · exact F.composable.combined rfl ha (F.composable.ofInt _)

/-- A position spreads the feature if it does so counted from zero. -/
private theorem spreads_oneBased (h : o.Spreads F) : (oneBased o).Spreads F F.node := by
  unfold oneBased
  refine (keeps_constantValue? h.source.faults).bind fun v? _ => ?_
  split
  · split
    · exact .pure (F.composable.ofInt _)
    · exact .fail
  · exact h.value.bind fun a ha => .pure (F.composable.combined rfl ha (F.composable.ofInt _))

/-- A value as text spreads the feature if its format does. -/
private theorem spreads_stringify (hn : F.node n) (ha : ∀ o ∈ args, o.Spreads F) (declaring method : String) :
    (stringify n args declaring method).Spreads F F.node := by
  unfold stringify
  split
  · refine .pure ?_
    split
    · exact hn
    · exact F.composable.call_one _ hn _
  · refine (keeps_formatAtHand? (ha _ List.mem_cons_self).source.faults).bind fun text _ => ?_
    split
    · refine keeps_dialect.bind fun d _ => ?_
      split
      · exact (spreads_constant _).bind fun c hc => .pure (F.composable.call_two _ hn hc _)
      · exact .defer
    · exact .defer
  · exact .fail

/-- An interval in seconds spreads the feature. -/
private theorem spreads_inSeconds (hn : F.node n) (seconds : Float) : (inSeconds n seconds).Spreads F F.node := by
  unfold inSeconds
  split
  · exact .pure hn
  · exact (spreads_constant _).bind fun c hc => .pure (F.composable.combined rfl hn hc)

/-! ## Calls -/

section Apply

variable {target : Option (Operand × Node)} {declaring method : String}

/-- A function of three allowed nodes is allowed. -/
private theorem spreads_three {f : SqlFunction} {k : Node} {t : HostType} (hn : F.node n) (hm : F.node m)
    (hk : F.node k) :
    F.node (.call f [n, m, k] t) :=
  F.composable.call (List.forall_mem_cons.mpr ⟨hn, List.forall_mem_cons.mpr ⟨hm, List.forall_mem_singleton.mpr hk⟩⟩)

/-- A translated call.

**Proof sketch.** By the translation. Each one plans the arguments that it knows of, in their order, and makes one
node of these and the target; where the arguments are others, it fails. -/
theorem spreads_apply (t : Translation) (ht : ∀ pair, target = some pair → pair.1.Spreads F ∧ F.node pair.2)
    (ha : ∀ o ∈ args, o.Spreads F) : (apply t target args declaring method).Spreads F F.node := by
  have hnode {n : Node} (hn : target.map Prod.snd = some n) : F.node n := by
    obtain ⟨pair, hpair, rfl⟩ := Option.map_eq_some_iff.mp hn
    exact (ht pair hpair).2
  have hops := spreads_operands (fun n hn => hnode hn) ha
  cases t with
  | function f returns =>
    refine hops.bind fun nodes hnodes => ?_
    split <;> exact .pure (F.composable.call hnodes)
  | concat =>
    refine keeps_dialect.bind fun d _ => hops.bind fun nodes hnodes => ?_
    exact .ofExcept fun n hn => F.composable.concat hnodes hn
  | equals =>
    refine hops.bind fun nodes hnodes => ?_
    split
    · exact .ofExcept fun n hn => F.composable.comparison (hnodes _ (by simp)) (hnodes _ (by simp)) hn
    · exact .fail
  | membership =>
    simp only [apply]
    split
    · exact spreads_membership (ht _ rfl).1 (ha _ List.mem_cons_self) false
    · exact spreads_membership (ha _ List.mem_cons_self) (ha _ (by simp)) false
    · exact .fail
  | dateAdd unit scale =>
    simp only [apply]
    split
    · next hn => exact spreads_dateAdd (hnode hn) (ha _ List.mem_cons_self) ..
    · exact .fail
  | addSpan =>
    simp only [apply]
    split
    · next hn =>
      exact (ha _ List.mem_cons_self).value.bind fun m hm => .pure (F.composable.call_two _ (hnode hn) hm _)
    · exact .fail
  | subtract =>
    simp only [apply]
    split
    · next hn =>
      exact (ha _ List.mem_cons_self).value.bind fun m hm => .pure (F.composable.difference (hnode hn) hm)
    · exact .fail
  | substring =>
    simp only [apply]
    split
    · next hn =>
      exact (spreads_oneBased (ha _ List.mem_cons_self)).bind fun m hm =>
        .pure (F.composable.call_two _ (hnode hn) hm _)
    · next hn =>
      refine (spreads_oneBased (ha _ List.mem_cons_self)).bind fun m hm => ?_
      exact (ha _ (by simp)).value.bind fun k hk => .pure (spreads_three (hnode hn) hm hk)
    · exact .fail
  | pad f =>
    simp only [apply]
    split
    · next hn =>
      refine (ha _ List.mem_cons_self).value.bind fun m hm => ?_
      exact (spreads_constant _).bind fun k hk => .pure (spreads_three (hnode hn) hm hk)
    · next hn =>
      refine (ha _ List.mem_cons_self).value.bind fun m hm => ?_
      exact (ha _ (by simp)).value.bind fun k hk => .pure (spreads_three (hnode hn) hm hk)
    · exact .fail
  | trimChars f =>
    simp only [apply]
    split
    · next hn =>
      exact (ha _ List.mem_cons_self).value.bind fun m hm => .pure (F.composable.call_two _ (hnode hn) hm _)
    · exact .fail
  | cast c type =>
    refine hops.bind fun nodes hnodes => ?_
    split
    · exact .pure (F.composable.call hnodes)
    · exact .fail
  | toText =>
    simp only [apply]
    split
    · next hn => exact spreads_stringify (hnode hn) ha ..
    · exact .fail
  | spanFrom seconds =>
    simp only [apply]
    split
    · refine (ha _ List.mem_cons_self).value.bind fun m hm => ?_
      exact (spreads_inSeconds hm seconds).bind fun k hk => .pure (F.composable.call_one _ hk _)
    · exact .fail
  | aggregate f => exact hops.bind fun nodes hnodes => .pure (F.composable.aggregate f hnodes)
  | isIn negated =>
    simp only [apply]
    split
    · exact spreads_membership (ha _ (by simp)) (ha _ List.mem_cons_self) negated
    · exact .fail
  | rowsExist negated =>
    simp only [apply]
    split
    · exact spreads_rowsTest (ha _ List.mem_cons_self) ..
    · exact .fail
  | orElse =>
    have hcall := hops.bind (Q := F.node) (f := fun nodes => return Node.call .ifNull nodes (firstType nodes))
      fun nodes hnodes => .pure (F.composable.call hnodes)
    refine Keeps.read.bind fun s _ => ?_
    dsimp only
    split
    · exact Keeps.defer.bind (R := fun _ => True) fun _ _ => hcall
    · exact hcall
  | round => exact hops.bind fun nodes hnodes => .pure (F.composable.call hnodes)
  | deferred => exact .defer

end Apply

/-- A call on groups spreads the feature if its arguments do. -/
private theorem spreads_groupingCall {g : Grouping} (hg : F.binding (.grouping g)) (method : String)
    (ha : ∀ o ∈ args, o.Spreads F) : (groupingCall g method args).Spreads F F.node := by
  unfold groupingCall
  refine keeps_translations.bind fun t _ => ?_
  split
  · split
    · exact .pure (F.composable.aggregate _ nofun)
    · refine ((ha _ List.mem_cons_self).applied _ (Feature.bindings_tables hg.2)).bind fun n hn => ?_
      exact .pure (F.composable.aggregate _ (List.forall_mem_singleton.mpr hn))
  · exact .fail

/-- A grouping that is found is allowed. -/
theorem spreads_grouping? : (grouping? e).Spreads F fun g? => ∀ g, g? = some g → F.binding (.grouping g) := by
  unfold grouping?
  split
  · refine (F.lookup _).bind fun b hb => ?_
    split
    · refine .pure fun g hg => ?_
      cases hg
      exact hb
    · exact .pure nofun
  · exact .pure nofun

/-- A call on a target that is not a test of the items of a collection. -/
theorem spreads_called (h : o.Spreads F) (ha : ∀ o ∈ args, o.Spreads F) (method : String) : (do
    match ← grouping? o.source with
    | some g => groupingCall g method args
    | none =>
      let n ← o.value
      let declaring := n.type.displayName
      match (← translations).method? (.ofHostType n.type) method (.exactly args.length) with
      | some t => apply t (some (o, n)) args declaring method
      | none => fail (.noTranslation declaring method args.length) : Planning Node).Spreads F F.node := by
  refine spreads_grouping?.bind fun g? hg => ?_
  split
  · exact spreads_groupingCall (hg _ rfl) method ha
  · refine h.value.bind fun n hn => keeps_translations.bind fun _ _ => ?_
    split
    · refine spreads_apply _ (fun pair hpair => ?_) ha
      cases hpair
      exact ⟨h, hn⟩
    · exact .fail

/-- A call on a target spreads the feature if the target and the arguments do. -/
theorem spreads_callOn (h : o.Spreads F) (ha : ∀ o ∈ args, o.Spreads F) (method : String) :
    (callOn o method args).Spreads F F.node := by
  have called := spreads_called h ha method
  have hfaults : FaultsHave F.fault o.source.withoutConversions :=
    fun _ => F.evaluated (h.source _ o.source.withoutConversions_mem_parts)
  unfold callOn
  split
  · split
    · refine (keeps_isCollection hfaults).bind fun b _ => ?_
      split
      · exact spreads_membership h (ha _ List.mem_cons_self) false
      · exact called
    · exact called
  · exact called

/-- A call without a target spreads the feature if its arguments do. -/
theorem spreads_callOf (ha : ∀ o ∈ args, o.Spreads F) (type : Option String) (method : String) :
    (callOf type method args).Spreads F F.node := by
  unfold callOf
  split
  · exact .fail
  · refine keeps_translations.bind fun _ _ => ?_
    split
    · exact spreads_apply _ nofun ha
    · exact .fail

/-! ## Other forms -/

/-- A binary operation spreads the feature if its two sides do. -/
theorem spreads_binary {left right : Operand} (hl : left.Spreads F) (hr : right.Spreads F) (op : BinaryOp) :
    (binary op left right).Spreads F F.node := by
  unfold binary
  split
  · refine hl.alternatives.bind fun ls hls => hr.alternatives.bind fun rs hrs => .pure ?_
    exact F.composable.firstNotNull fun n hn => (List.mem_append.mp hn).elim (hls n) (hrs n)
  · refine hl.value.bind fun l hl => hr.value.bind fun r hr => keeps_dialect.bind fun d _ => ?_
    exact .ofExcept fun n hn => F.composable.binaryOperator hl hr hn

/-- A unary operation spreads the feature if its operand does. -/
theorem spreads_unary (h : o.Spreads F) (op : UnaryOp) : (unary op o).Spreads F F.node := by
  refine h.value.bind fun n hn => ?_
  cases op with
  | not => exact .pure (F.composable.negation (F.composable.toPredicate hn))
  | negate => exact .pure (F.composable.unary hn)

/-- The branches of an allowed choice are allowed. -/
private theorem node_branchesOf (hn : F.node n) :
    (∀ b ∈ (branchesOf n).1, F.node b.1 ∧ F.node b.2) ∧ F.node (branchesOf n).2 := by
  unfold branchesOf
  split
  · exact F.branches hn
  · exact ⟨nofun, hn⟩

/-- A conditional spreads the feature if its three parts do. -/
theorem spreads_conditional {test ifTrue ifFalse : Operand} (ht : test.Spreads F) (ha : ifTrue.Spreads F)
    (hb : ifFalse.Spreads F) : (conditional test ifTrue ifFalse).Spreads F F.node := by
  unfold conditional
  refine ht.value.bind fun t ht => ha.value.bind fun a ha => hb.value.bind fun b hb => ?_
  refine keeps_origin.bind fun o _ => .pure ?_
  have hfirst := And.intro (F.composable.toPredicate ht) ha
  cases ifFalse.source.isConditional && o == .sql with
  | true =>
    obtain ⟨hbranches, hotherwise⟩ := node_branchesOf hb
    exact F.composable.choice (List.forall_mem_cons.mpr ⟨hfirst, hbranches⟩) hotherwise
  | false => exact F.composable.choice (List.forall_mem_singleton.mpr hfirst) hb

/-- A subquery spreads the feature if its selection does. -/
theorem spreads_selection {plan : Planning Select} (h : plan.Spreads F F.select) :
    (selection plan).Spreads F F.node := h.bind fun _ hs => .pure (F.valued hs)

/-- A value at hand that is assigned is bound, whatever its origin. -/
theorem spreads_assigned (hv : ∀ v, F.node (.parameter v)) (h : o.Spreads F) : (assigned o).Spreads F F.node := by
  unfold assigned
  split
  · refine keeps_origin.bind fun _ _ => ?_
    split
    · refine (keeps_valueOf? h.source.faults).bind fun v? _ => ?_
      split
      · refine .pure ?_
        split
        · exact F.composable.null
        · exact hv _
      · exact h.value
    · exact h.value
  · exact h.value

end Lowering

end LambdaSql
