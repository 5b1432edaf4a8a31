import LambdaSql.Proofs.Nesting.Ends

/-!
# How lowering goes on

The forms of expressions, each planned from parts that keep an invariant. Nodes are made of the nodes of the
parts, and selections of planned queries stand in them; a call has to wait only if its translation is one that may.

## Main definitions

* `Operand.Ends` - an operand that keeps an invariant in whatever way it is planned.

## Main results

* `Lowering.ends_apply` - translated calls.
* `Lowering.ends_callOn`, `Lowering.ends_binary` and their neighbours - the forms of expressions.
-/

namespace LambdaSql

open Planning

variable {J : Invariant} {D : Prop} {unions : List String} {s : Scope} {p : Progress}

namespace Planning.Ends

variable {α β : Type} {x : Planning α} {a : α} {k : α → Planning β} {Q : Progress → β → Prop}

/-- What only asks for something goes on with the answer. -/
theorem asked (hx : x.outcome s p = (.ok a, p)) (h : Ends J D s p (k a) Q) : Ends J D s p (x >>= k) Q := by
  have hrun : (x >>= k).outcome s p = (k a).outcome s p := by rw [outcome_bind, hx]
  constructor
  · intro b q hg
    exact h.gives (by rwa [Gives, ← hrun])
  · rintro q ⟨declaring, method, arity, hw⟩
    exact h.waits ⟨declaring, method, arity, hrun ▸ hw⟩

end Planning.Ends

variable (J D unions) in
/-- An operand that keeps an invariant in whatever way it is planned. -/
structure Operand.Ends (o : Operand) : Prop where
  value : ∀ {s p}, J.At unions s p → Planning.Ends J D s p o.value (J.node unions)
  alternatives : ∀ {s p}, J.At unions s p →
    Planning.Ends J D s p o.alternatives fun q ns => ∀ n ∈ ns, J.node unions q n
  applied : ∀ {s p bindings}, J.At unions s p → (∀ b ∈ bindings, J.Binds unions p b) →
    Planning.Ends J D s p (o.applied bindings) (J.node unions)
  selection : ∀ {plan}, o.selection = some plan → ∀ {s p}, J.At unions s p →
    Planning.Ends J D s p plan (J.select false unions)
  items : ∀ {plan}, o.items = some plan → ∀ {s p}, J.At unions s p →
    Planning.Ends J D s p plan fun q ns => ∀ n ∈ ns, J.node unions q n

namespace Lowering

variable {e : Expr} {o collection item : Operand} {args : List Operand} {n m : Node} {ns : List Node}

/-! ## Values at hand -/

/-- A constant is planned within the invariant. -/
private theorem ends_constant (h : J.At unions s p) (v : Value) : Ends J D s p (constant v) (J.node unions) :=
  .asked rfl (.ofExcept h fun _ hn => (J.hereditary unions p).compositional.constant hn)

/-- Evaluating keeps the invariant. -/
private theorem ends_valueOf? (h : J.At unions s p) (e : Expr) : Ends J D s p (valueOf? e) fun _ _ => True :=
  .ofFault h fun _ _ => trivial

/-- A value at hand is planned within the invariant. -/
theorem ends_atHand (h : J.At unions s p) (v : Value) (o : Origin) :
    Ends J D s p (atHand v o) (J.node unions) := by
  have plain : Ends J D s p (if o = .constant then constant v else return .parameter v : Planning Node)
      (J.node unions) := by
    split
    · exact ends_constant h v
    · exact .pure h ((J.hereditary unions p).compositional.parameter v)
  unfold atHand
  split
  · exact .fail
  · exact .fail
  · exact plain

/-- An expression that may be folded is planned within the invariant if it is so unfolded. -/
theorem ends_folded (h : J.At unions s p) {lower : Planning Node}
    (hl : ∀ {q}, J.At unions s q → Ends J D s q lower (J.node unions)) :
    Ends J D s p (folded e lower) (J.node unions) := by
  refine .asked rfl ?_
  split
  · exact hl h
  · refine .asked rfl ?_
    split
    · refine (ends_valueOf? h e).bind h fun h₁ _ _ => ?_
      split
      · exact ends_atHand h₁ ..
      · exact hl h₁
    · exact hl h

/-- Evaluating a constant keeps the invariant. -/
private theorem ends_constantValue? (h : J.At unions s p) : Ends J D s p (constantValue? e) fun _ _ => True := by
  refine .asked rfl ?_
  split
  · refine .asked rfl ?_
    split
    · exact ends_valueOf? h e
    · exact .pure h trivial
  · exact .pure h trivial

/-- Looking for a format keeps the invariant. -/
private theorem ends_formatAtHand? (h : J.At unions s p) : Ends J D s p (formatAtHand? e) fun _ _ => True := by
  refine .asked rfl ?_
  split
  · exact .pure h trivial
  · exact (ends_valueOf? h e).bind h fun h₁ _ _ => .pure h₁ trivial

/-- Looking for a collection keeps the invariant. -/
private theorem ends_isCollection (h : J.At unions s p) : Ends J D s p (isCollection e) fun _ _ => True := by
  induction e using isCollection.induct with
  | case1 | case2 | case3 | case4 => exact .pure h trivial
  | case5 e t ih => exact ih
  | case6 e =>
    simp only [isCollection]
    refine .asked rfl ?_
    split
    · exact .pure h trivial
    · exact (ends_valueOf? h e).bind h fun h₁ _ _ => .pure h₁ trivial

/-! ## Members -/

/-- The key of groups with just one is planned within the invariant. -/
private theorem ends_singleKey (h : J.At unions s p) {g : Grouping} (hg : J.Binds unions p (.grouping g)) :
    Ends J D s p (ofExcept g.singleKey) (J.node unions) := by
  refine .ofExcept h fun n hn => ?_
  obtain ⟨name, hkeys⟩ := Grouping.keys_of_singleKey hn
  exact hg n (.key (hkeys ▸ List.mem_cons_self))

/-- A key of groups is planned within the invariant. -/
private theorem ends_key (h : J.At unions s p) {g : Grouping} (hg : J.Binds unions p (.grouping g)) (name : String) :
    Ends J D s p (ofExcept (g.key name)) (J.node unions) :=
  .ofExcept h fun n hn => hg n (.key (Grouping.mem_of_lookup (Grouping.lookup_of_key hn)))

/-- A column of a table is planned within the invariant. -/
private theorem ends_column (h : J.At unions s p) {t : TableBinding} (ht : J.Binds unions p (.table t))
    (name : String) :
    Ends J D s p (ofExcept (t.column name)) (J.node unions) :=
  .ofExcept h fun n hn => ht n (.column hn)

/-- A parameter is planned within the invariant. -/
theorem ends_parameter (h : J.At unions s p) (name : String) :
    Ends J D s p (parameter name) (J.node unions) := by
  unfold parameter
  refine (Ends.lookup h).bind h fun h₁ _ hb => ?_
  split
  · exact ends_singleKey h₁ hb.1
  · exact .fail

/-- A member of a parameter is planned within the invariant. -/
private theorem ends_parameterMember (h : J.At unions s p) (param name : String) :
    Ends J D s p (parameterMember param name) (J.node unions) := by
  unfold parameterMember
  refine (Ends.lookup h).bind h fun h₁ _ hb => ?_
  split
  · exact ends_column h₁ hb.1 name
  · split
    · exact ends_singleKey h₁ hb.1
    · exact ends_key h₁ hb.1 name

/-- A key that is read by its name is planned within the invariant. -/
private theorem ends_keyMember? (h : J.At unions s p) (target : Expr) (name : String) :
    Ends J D s p (keyMember? target name) fun q n? => ∀ n, n? = some n → J.node unions q n := by
  unfold keyMember?
  split
  · split
    · refine (Ends.lookup h).bind h fun h₁ _ hb => ?_
      split
      · exact .pure h₁ fun n hn => hb.1 n (.key (Grouping.mem_of_lookup hn))
      · exact .pure h₁ nofun
    · exact .pure h nofun
  · exact .pure h nofun

/-- A member of a value is planned within the invariant if the value is. -/
private theorem ends_valueMember (h : J.At unions s p) (ho : o.Ends J D unions) (name : String) :
    Ends J D s p (valueMember o name) (J.node unions) := by
  unfold valueMember
  refine (ends_keyMember? h o.source name).bind h fun h₁ _ hn? => ?_
  split
  · next n => exact .pure h₁ (hn? n rfl)
  · split
    · exact (ho.value h₁).bind h₁ fun h₂ _ hn => .pure h₂ ((J.hereditary ..).isNull.mpr hn)
    · split
      · exact ho.value h₁
      · refine (ho.value h₁).bind h₁ fun h₂ _ hn => .asked rfl ?_
        split
        · exact .pure h₂ ((J.hereditary ..).compositional.call_one _ hn _)
        · exact .fail

/-- A member is planned within the invariant if its target is. -/
theorem ends_member (h : J.At unions s p) (ho : o.Ends J D unions) (name : String) :
    Ends J D s p (member o name) (J.node unions) := by
  unfold member
  split
  · exact ends_parameterMember h ..
  · exact ends_valueMember h ho name

/-- A static member is planned within the invariant. -/
theorem ends_static (h : J.At unions s p) (type name : String) :
    Ends J D s p (static type name) (J.node unions) := by
  refine .asked rfl ?_
  split
  · exact .pure h ((J.hereditary ..).call.mpr nofun)
  · exact ends_constant h _
  · exact .fail

/-! ## Membership and selections -/

/-- Items at hand are planned within the invariant. -/
private theorem ends_itemsAtHand (h : J.At unions s p) :
    Ends J D s p (itemsAtHand e) fun q ns => ∀ n ∈ ns, J.node unions q n := by
  refine .asked rfl (.orFail fun _ => ?_)
  refine (ends_valueOf? h e).bind h fun h₁ _ _ => ?_
  split
  · exact .fail
  · exact .mapM h₁ J.node_later fun v _ _ h₂ _ => ends_atHand h₂ v _
  · exact .fail

/-- A test against an empty list is planned within the invariant. -/
private theorem ends_emptyMembership (h : J.At unions s p) (hm : J.node unions p m) (negated : Bool) :
    Ends J D s p (emptyMembership m negated) (J.node unions) := by
  unfold emptyMembership
  refine .read_bind ?_
  split
  · exact .fail
  · refine .pure h ?_
    split
    · exact (J.hereditary ..).compositional.always _
    · exact (J.hereditary ..).inList.mpr ⟨hm, List.forall_mem_singleton.mpr (J.hereditary ..).null⟩

/-- A membership test is planned within the invariant if the collection and the item are.

**Proof sketch.** The item is planned first, and stays allowed while the collection is: a selection, items, or a list
at hand. -/
private theorem ends_membership (h : J.At unions s p) (hc : collection.Ends J D unions) (hi : item.Ends J D unions)
    (negated : Bool) : Ends J D s p (membership collection item negated) (J.node unions) := by
  have listed {p : Progress} {m : Node} {ns : List Node} (h : J.At unions s p) (hm : J.node unions p m)
      (hns : ∀ n ∈ ns, J.node unions p n) : Ends J D s p (do
        ns.forM fun n => ofExcept (m.type.comparable n.type)
        if ns.isEmpty then emptyMembership m negated else return .inList m ns negated : Planning Node)
      (J.node unions) := by
    refine (Ends.forM h fun n _ _ h₁ => .ofExcept h₁ fun _ _ => trivial).bind h fun h₁ hle _ => ?_
    split
    · exact ends_emptyMembership h₁ (J.node_later hle hm) negated
    · exact .pure h₁ ((J.hereditary ..).inList.mpr
        ⟨J.node_later hle hm, fun n hn => J.node_later hle (hns n hn)⟩)
  unfold membership
  refine (hi.value h).bind h fun h₁ _ hm => ?_
  split
  · next plan hplan =>
    refine (hc.selection hplan h₁).bind h₁ fun h₂ hle hsel => .pure h₂ ?_
    exact J.searched (J.node_later hle hm) hsel
  · split
    · next plan hplan =>
      exact (hc.items hplan h₁).bind h₁ fun h₂ hle hns => listed h₂ (J.node_later hle hm) hns
    · exact (ends_itemsAtHand h₁).bind h₁ fun h₂ hle hns => listed h₂ (J.node_later hle hm) hns

/-- A test for rows is planned within the invariant if the rows are. -/
private theorem ends_rowsTest (h : J.At unions s p) (ho : o.Ends J D unions) (declaring method : String)
    (negated : Bool) : Ends J D s p (rowsTest o declaring method negated) (J.node unions) := by
  unfold rowsTest
  split
  · next q plan _ hplan =>
    refine (ho.selection hplan h).bind h fun h₁ _ hsel => .pure h₁ ?_
    split
    · exact J.counted hsel
    · exact J.tested hsel
  · exact .fail

/-! ## Parts of calls -/

/-- A target and arguments are planned within the invariant if each is. -/
private theorem ends_operands (h : J.At unions s p) {target : Option Node}
    (ht : ∀ n, target = some n → J.node unions p n) (ha : ∀ o ∈ args, o.Ends J D unions) :
    Ends J D s p (operands target args) fun q ns => ∀ n ∈ ns, J.node unions q n := by
  unfold operands
  have hargs : Ends J D s p (args.mapM (·.value)) fun q ns => ∀ n ∈ ns, J.node unions q n :=
    .mapM (Q := J.node unions) h J.node_later fun o ho _ h₁ _ => (ha o ho).value h₁
  refine hargs.bind h fun h₁ hle hns => .pure h₁ fun n hn => ?_
  obtain hn | hn := List.mem_append.mp hn
  · exact J.node_later hle (ht n (Option.mem_toList.mp hn))
  · exact hns n hn

/-- A time shifted by what is found to shift it by. -/
theorem ends_shiftedBy (h : J.At unions s p) (hn : J.node unions p n) {unit : IntervalUnit}
    {found : Planning (Bool × Node)} (hf : Ends J D s p found fun q r => J.node unions q r.2) :
    Ends J D s p (do
      let (negative, interval) ← found
      return .call (if negative then .dateSub unit else .dateAdd unit) [n, interval] n.type : Planning Node)
      (J.node unions) :=
  hf.bind h fun h₁ hle hr => .pure h₁ ((J.hereditary ..).compositional.call_two _ (J.node_later hle hn) hr _)

/-- A time shifted by a value is planned within the invariant. -/
private theorem ends_shiftedByValue (h : J.At unions s p) (hn : J.node unions p n) (v : Value) (unit : IntervalUnit)
    (scale : Int64) : Ends J D s p (shiftedByValue n v unit scale) (J.node unions) := by
  unfold shiftedByValue
  split
  · split
    · exact ends_shiftedBy h hn .fail
    · split
      · exact ends_shiftedBy h hn .fail
      · exact ends_shiftedBy h hn (.pure h ((J.hereditary ..).compositional.ofInt _))
  · split
    · exact ends_shiftedBy h hn .fail
    · refine (ends_constant h _).bind h fun h₁ hle hm => ?_
      exact ends_shiftedBy h₁ (J.node_later hle hn) (.pure h₁ hm)

/-- A time shifted by an operand is planned within the invariant. -/
private theorem ends_dateAdd (h : J.At unions s p) (hn : J.node unions p n) (ho : o.Ends J D unions)
    (unit : IntervalUnit) (scale : Int64) : Ends J D s p (dateAdd n o unit scale) (J.node unions) := by
  unfold dateAdd
  refine (ends_constantValue? h).bind h fun h₁ hle _ => ?_
  split
  · exact ends_shiftedByValue h₁ (J.node_later hle hn) ..
  · refine (ho.value h₁).bind h₁ fun h₂ hle₂ ha => .pure h₂ ?_
    refine (J.hereditary ..).compositional.call_two _ (J.node_later (hle.trans hle₂) hn) ?_ _
    split
    · exact ha
    · exact (J.hereditary ..).binary.mpr ⟨ha, (J.hereditary ..).compositional.ofInt _⟩

/-- A position is planned within the invariant if it is so counted from zero. -/
private theorem ends_oneBased (h : J.At unions s p) (ho : o.Ends J D unions) :
    Ends J D s p (oneBased o) (J.node unions) := by
  unfold oneBased
  refine (ends_constantValue? h).bind h fun h₁ _ _ => ?_
  split
  · split
    · exact .pure h₁ ((J.hereditary ..).compositional.ofInt _)
    · exact .fail
  · refine (ho.value h₁).bind h₁ fun h₂ _ ha => .pure h₂ ?_
    exact (J.hereditary ..).binary.mpr ⟨ha, (J.hereditary ..).compositional.ofInt _⟩

/-- A value as text has to wait for its format only. -/
theorem ends_stringify (h : J.At unions s p) (hn : J.node unions p n) (hD : args.length = 1 → D)
    (declaring method : String) : Ends J D s p (stringify n args declaring method) (J.node unions) := by
  unfold stringify
  split
  · refine .pure h ?_
    split
    · exact hn
    · exact (J.hereditary ..).compositional.call_one _ hn _
  · refine (ends_formatAtHand? h).bind h fun h₁ hle _ => ?_
    split
    · refine .asked rfl ?_
      split
      · exact (ends_constant h₁ _).bind h₁ fun h₂ hle₂ hc =>
          .pure h₂ ((J.hereditary ..).compositional.call_two _ (J.node_later (hle.trans hle₂) hn) hc _)
      · exact .defer h₁ (hD rfl)
    · exact .defer h₁ (hD rfl)
  · exact .fail

/-- An interval in seconds is planned within the invariant. -/
private theorem ends_inSeconds (h : J.At unions s p) (hn : J.node unions p n) (seconds : Float) :
    Ends J D s p (inSeconds n seconds) (J.node unions) := by
  unfold inSeconds
  split
  · exact .pure h hn
  · exact (ends_constant h _).bind h fun h₁ hle hc =>
      .pure h₁ ((J.hereditary ..).binary.mpr ⟨J.node_later hle hn, hc⟩)

/-! ## Calls -/

section Apply

variable {target : Option (Operand × Node)} {declaring method : String}

/-- A translated call has to wait only if its translation is one that may.

**Proof sketch.** By the translation. Its arguments are planned in order, and what is planned before stays allowed;
only the deferred translations, and those that defer by their form, give up the expression. -/
theorem ends_apply (t : Translation) (h : J.At unions s p)
    (ht : ∀ pair, target = some pair → pair.1.Ends J D unions ∧ J.node unions p pair.2)
    (ha : ∀ o ∈ args, o.Ends J D unions) (hD : t.waits args.length = true → D) :
    Ends J D s p (apply t target args declaring method) (J.node unions) := by
  have hnode {n : Node} (hn : target.map Prod.snd = some n) : J.node unions p n := by
    obtain ⟨pair, hpair, rfl⟩ := Option.map_eq_some_iff.mp hn
    exact (ht pair hpair).2
  have hops := ends_operands (D := D) h (fun n hn => hnode hn) ha
  cases t with
  | function f returns =>
    refine hops.bind h fun h₁ _ hnodes => ?_
    split <;> exact .pure h₁ ((J.hereditary ..).call.mpr hnodes)
  | concat =>
    refine .asked rfl (hops.bind h fun h₁ _ hnodes => ?_)
    exact .ofExcept h₁ fun n hn => (J.hereditary ..).compositional.concat hnodes hn
  | equals =>
    refine hops.bind h fun h₁ _ hnodes => ?_
    split
    · refine .ofExcept h₁ fun n hn => (J.hereditary ..).compositional.comparison ?_ ?_ hn
      · exact hnodes _ List.mem_cons_self
      · exact hnodes _ (by simp)
    · exact .fail
  | membership =>
    simp only [apply]
    split
    · exact ends_membership h (ht _ rfl).1 (ha _ List.mem_cons_self) false
    · exact ends_membership h (ha _ List.mem_cons_self) (ha _ (by simp)) false
    · exact .fail
  | dateAdd unit scale =>
    simp only [apply]
    split
    · next hn => exact ends_dateAdd h (hnode hn) (ha _ List.mem_cons_self) ..
    · exact .fail
  | addSpan =>
    simp only [apply]
    split
    · next hn =>
      exact ((ha _ List.mem_cons_self).value h).bind h fun h₁ hle hm =>
        .pure h₁ ((J.hereditary ..).compositional.call_two _ (J.node_later hle (hnode hn)) hm _)
    · exact .fail
  | subtract =>
    simp only [apply]
    split
    · next hn =>
      exact ((ha _ List.mem_cons_self).value h).bind h fun h₁ hle hm =>
        .pure h₁ ((J.hereditary ..).compositional.difference (J.node_later hle (hnode hn)) hm)
    · exact .fail
  | substring =>
    simp only [apply]
    split
    · next hn =>
      exact (ends_oneBased h (ha _ List.mem_cons_self)).bind h fun h₁ hle hm =>
        .pure h₁ ((J.hereditary ..).compositional.call_two _ (J.node_later hle (hnode hn)) hm _)
    · next hn =>
      refine (ends_oneBased h (ha _ List.mem_cons_self)).bind h fun h₁ hle hm => ?_
      refine ((ha _ (by simp)).value h₁).bind h₁ fun h₂ hle₂ hk => .pure h₂ ((J.hereditary ..).call.mpr ?_)
      simp [J.node_later (hle.trans hle₂) (hnode hn), J.node_later hle₂ hm, hk]
    · exact .fail
  | pad f =>
    simp only [apply]
    split
    · next hn =>
      refine ((ha _ List.mem_cons_self).value h).bind h fun h₁ hle hm => ?_
      refine (ends_constant h₁ _).bind h₁ fun h₂ hle₂ hk => .pure h₂ ((J.hereditary ..).call.mpr ?_)
      simp [J.node_later (hle.trans hle₂) (hnode hn), J.node_later hle₂ hm, hk]
    · next hn =>
      refine ((ha _ List.mem_cons_self).value h).bind h fun h₁ hle hm => ?_
      refine ((ha _ (by simp)).value h₁).bind h₁ fun h₂ hle₂ hk => .pure h₂ ((J.hereditary ..).call.mpr ?_)
      simp [J.node_later (hle.trans hle₂) (hnode hn), J.node_later hle₂ hm, hk]
    · exact .fail
  | trimChars f =>
    simp only [apply]
    split
    · next hn =>
      exact ((ha _ List.mem_cons_self).value h).bind h fun h₁ hle hm =>
        .pure h₁ ((J.hereditary ..).compositional.call_two _ (J.node_later hle (hnode hn)) hm _)
    · exact .fail
  | cast c type =>
    refine hops.bind h fun h₁ _ hnodes => ?_
    split
    · exact .pure h₁ ((J.hereditary ..).call.mpr hnodes)
    · exact .fail
  | toText =>
    simp only [apply]
    split
    · next hn => exact ends_stringify h (hnode hn) (fun harity => hD (beq_iff_eq.mpr harity)) ..
    · exact .fail
  | spanFrom seconds =>
    simp only [apply]
    split
    · refine ((ha _ List.mem_cons_self).value h).bind h fun h₁ _ hm => ?_
      exact (ends_inSeconds h₁ hm seconds).bind h₁ fun h₂ _ hk =>
        .pure h₂ ((J.hereditary ..).compositional.call_one _ hk _)
    · exact .fail
  | aggregate f =>
    exact hops.bind h fun h₁ _ hnodes => .pure h₁ ((J.hereditary ..).compositional.aggregate f hnodes)
  | isIn negated =>
    simp only [apply]
    split
    · exact ends_membership h (ha _ (by simp)) (ha _ List.mem_cons_self) negated
    · exact .fail
  | rowsExist negated =>
    simp only [apply]
    split
    · exact ends_rowsTest h (ha _ List.mem_cons_self) ..
    · exact .fail
  | orElse =>
    have hcall {q : Progress} (h : J.At unions s q)
        (hops : Ends J D s q (operands (target.map Prod.snd) args) fun q ns => ∀ n ∈ ns, J.node unions q n) :
        Ends J D s q (do
          let nodes ← operands (target.map Prod.snd) args
          return Node.call .ifNull nodes (firstType nodes)) (J.node unions) :=
      hops.bind h fun h₁ _ hnodes => .pure h₁ ((J.hereditary ..).call.mpr hnodes)
    refine .read_bind ?_
    dsimp only
    split
    · refine (Ends.defer (Q := fun _ _ => False) h (hD rfl)).bind h fun _ _ hfalse => hfalse.elim
    · exact hcall h hops
  | round => exact hops.bind h fun h₁ _ hnodes => .pure h₁ ((J.hereditary ..).call.mpr hnodes)
  | deferred => exact .defer h (hD rfl)

end Apply

/-- A call on groups is planned within the invariant if its arguments are. -/
private theorem ends_groupingCall (h : J.At unions s p) (g : Grouping)
    (method : String) (ha : ∀ o ∈ args, o.Ends J D unions) :
    Ends J D s p (groupingCall g method args) (J.node unions) := by
  unfold groupingCall
  refine .asked rfl ?_
  split
  · split
    · exact .pure h ((J.hereditary ..).compositional.aggregate _ nofun)
    · refine ((ha _ List.mem_cons_self).applied h ?_).bind h fun h₁ _ hn =>
        .pure h₁ ((J.hereditary ..).compositional.aggregate _ (List.forall_mem_singleton.mpr hn))
      intro b hb
      obtain ⟨t, -, rfl⟩ := List.mem_map.mp hb
      exact .table t
  · exact .fail

/-- Looking for a grouping keeps the invariant. -/
theorem ends_grouping? (h : J.At unions s p) :
    Ends J D s p (grouping? e) fun _ _ => True := by
  unfold grouping?
  split
  · refine (Ends.lookup h).bind h fun h₁ _ _ => ?_
    split
    · exact .pure h₁ trivial
    · exact .pure h₁ trivial
  · exact .pure h trivial

/-- A call on a target that is not a test of the items of a collection. -/
theorem ends_called (h : J.At unions s p) (ho : o.Ends J D unions) (ha : ∀ o ∈ args, o.Ends J D unions)
    (method : String)
    (hD : ∀ type t, J.compiler.translations.method? (.ofHostType type) method (.exactly args.length) = some t →
      t.waits args.length = true → D) : Ends J D s p (do
    match ← grouping? o.source with
    | some g => groupingCall g method args
    | none =>
      let n ← o.value
      let declaring := n.type.displayName
      match (← translations).method? (.ofHostType n.type) method (.exactly args.length) with
      | some t => apply t (some (o, n)) args declaring method
      | none => fail (.noTranslation declaring method args.length) : Planning Node)
    (J.node unions) := by
  refine (ends_grouping? h).bind h fun h₁ _ _ => ?_
  split
  · exact ends_groupingCall h₁ _ method ha
  · refine (ho.value h₁).bind h₁ fun h₂ _ hn => .asked rfl ?_
    rw [h₂.compiler]
    split
    · next t ht =>
      refine ends_apply t h₂ (fun pair hpair => ?_) ha (hD _ t ht)
      cases hpair
      exact ⟨ho, hn⟩
    · exact .fail

/-- A call on a target is planned within the invariant if the target and the arguments are. -/
theorem ends_callOn (h : J.At unions s p) (ho : o.Ends J D unions) (ha : ∀ o ∈ args, o.Ends J D unions)
    (method : String)
    (hD : ∀ type t, J.compiler.translations.method? (.ofHostType type) method (.exactly args.length) = some t →
      t.waits args.length = true → D) : Ends J D s p (callOn o method args) (J.node unions) := by
  have called {q : Progress} (h : J.At unions s q) := ends_called h ho ha method hD
  unfold callOn
  split
  · split
    · refine (ends_isCollection h).bind h fun h₁ _ _ => ?_
      split
      · exact ends_membership h₁ ho (ha _ List.mem_cons_self) false
      · exact called h₁
    · exact called h
  · exact called h

/-- A call without a target is planned within the invariant if its arguments are. -/
theorem ends_callOf (h : J.At unions s p) (ha : ∀ o ∈ args, o.Ends J D unions) (type : Option String)
    (method : String)
    (hD : ∀ name t, type = some name →
      J.compiler.translations.methodOf? name method (.exactly args.length) = some t →
      t.waits args.length = true → D) : Ends J D s p (callOf type method args) (J.node unions) := by
  unfold callOf
  split
  · exact .fail
  · refine .asked rfl ?_
    rw [h.compiler]
    split
    · next t ht => exact ends_apply t h nofun ha (hD _ t rfl ht)
    · exact .fail

/-! ## Other forms -/

/-- A binary operation is planned within the invariant if its two sides are. -/
theorem ends_binary (h : J.At unions s p) {left right : Operand} (hl : left.Ends J D unions)
    (hr : right.Ends J D unions) (op : BinaryOp) :
    Ends J D s p (binary op left right) (J.node unions) := by
  unfold binary
  split
  · refine (hl.alternatives h).bind h fun h₁ _ hls => (hr.alternatives h₁).bind h₁ fun h₂ hle hrs =>
      .pure h₂ ((J.hereditary ..).compositional.firstNotNull fun n hn => ?_)
    exact (List.mem_append.mp hn).elim (fun hn => J.node_later hle (hls n hn)) (hrs n)
  · refine (hl.value h).bind h fun h₁ _ hl => (hr.value h₁).bind h₁ fun h₂ hle hr => .asked rfl ?_
    exact .ofExcept h₂ fun n hn => (J.hereditary ..).compositional.binaryOperator (J.node_later hle hl) hr hn

/-- A unary operation is planned within the invariant if its operand is. -/
theorem ends_unary (h : J.At unions s p) (ho : o.Ends J D unions) (op : UnaryOp) :
    Ends J D s p (unary op o) (J.node unions) := by
  refine (ho.value h).bind h fun h₁ _ hn => ?_
  cases op with
  | not => exact .pure h₁ ((J.hereditary ..).compositional.negation ((J.hereditary ..).compositional.toPredicate hn))
  | negate => exact .pure h₁ ((J.hereditary ..).unary.mpr hn)

/-- A conditional is planned within the invariant if its three parts are. -/
theorem ends_conditional (h : J.At unions s p) {test ifTrue ifFalse : Operand} (ht : test.Ends J D unions)
    (ha : ifTrue.Ends J D unions) (hb : ifFalse.Ends J D unions) :
    Ends J D s p (conditional test ifTrue ifFalse) (J.node unions) := by
  unfold conditional
  refine (ht.value h).bind h fun h₁ _ ht => (ha.value h₁).bind h₁ fun h₂ hle₂ ha =>
    (hb.value h₂).bind h₂ fun {b q} h₃ hle₃ hb => .asked rfl (.pure h₃ ?_)
  have hbranches (nested : Bool) : (∀ pair ∈ (if nested then branchesOf b else ([], b)).1,
      J.node unions q pair.1 ∧ J.node unions q pair.2) ∧
      J.node unions q (if nested then branchesOf b else ([], b)).2 := by
    cases nested with
    | true =>
      rw [if_pos rfl]
      unfold branchesOf
      split
      · exact (J.hereditary ..).case.mp hb
      · exact ⟨nofun, hb⟩
    | false => exact ⟨nofun, hb⟩
  refine (J.hereditary ..).compositional.choice (List.forall_mem_cons.mpr ⟨⟨?_, J.node_later hle₃ ha⟩, (hbranches _).1⟩)
    (hbranches _).2
  exact (J.hereditary ..).compositional.toPredicate (J.node_later (hle₂.trans hle₃) ht)

/-- A subquery is planned within the invariant if its selection is. -/
theorem ends_selection (h : J.At unions s p) {plan : Planning Select}
    (hp : Ends J D s p plan (J.select false unions)) : Ends J D s p (selection plan) (J.node unions) :=
  hp.bind h fun h₁ _ hs => .pure h₁ (J.valued hs)

/-- An assigned value is planned within the invariant if its operand is. -/
theorem ends_assigned (h : J.At unions s p) (ho : o.Ends J D unions) :
    Ends J D s p (assigned o) (J.node unions) := by
  unfold assigned
  split
  · refine .asked rfl ?_
    split
    · refine (ends_valueOf? h _).bind h fun h₁ _ _ => ?_
      split
      · refine .pure h₁ ?_
        split
        · exact (J.hereditary ..).null
        · exact (J.hereditary ..).compositional.parameter _
      · exact ho.value h₁
    · exact ho.value h
  · exact ho.value h

end Lowering

end LambdaSql
