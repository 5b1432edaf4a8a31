import LambdaSql.Proofs.Twins.Expr
import LambdaSql.Proofs.Twins.Planning

/-!
# Lowering twins

Twins are lowered alike: each function that combines operands gives nodes that differ in bound values only, if the
operands do. The functions that look at values, in formats, positions, amounts and collections, are the ones where
this needs a reason.

## Main definitions

* `Operand.Alike` - operands that are planned alike, in whatever way.

## Main results

* `Lowering.alike_folded`, `Lowering.alike_captured` - values at hand.
* `Lowering.alike_isCollection`, `Lowering.alike_itemsAtHand` - collections at hand.
* `Lowering.alike_dateAdd`, `Lowering.alike_oneBased`, `Lowering.alike_stringify` - amounts, positions and formats.
* `Lowering.alike_apply` - translated calls.
* `Lowering.alike_callOn`, `Lowering.alike_binary` and their neighbours - the forms of expressions.
-/

namespace LambdaSql

open Planning

variable {C : Expr → Expr → Prop} {c : Compiler} {α β γ : Type} {f : α → γ} {e e' : Expr}

/-- Two operands that are planned alike, in whatever way. -/
structure Operand.Alike (C : Expr → Expr → Prop) (c : Compiler) (o o' : Operand) : Prop where
  source : o.source.Twins C o'.source
  value : Planning.Alike c Node.blank o.value o'.value
  alternatives : Planning.Alike c (List.map Node.blank) o.alternatives o'.alternatives
  applied : ∀ bindings bindings', bindings.map Binding.blank = bindings'.map Binding.blank →
    Planning.Alike c Node.blank (o.applied bindings) (o'.applied bindings')
  selection : Option.Rel (Planning.Alike c blankSelect) o.selection o'.selection
  items : Option.Rel (Planning.Alike c (List.map Node.blank)) o.items o'.items
  listed : o.items = none → ∀ es, o.source ≠ .array es

/-- An expression without a value at hand is evaluated in vain. -/
theorem Expr.eq_none_of_atHand? {s : Scope} (h : e.atHand? s = none)
    (ho : e.origin s.compiler.translations ≠ .sql)
    (hfold : (s.compiler.options.foldCalls || !e.containsCall) = true) {v? : Option Value}
    (hv : (Host.value e).attempt = .ok v?) : v? = none := by
  unfold atHand? at h
  rw [if_neg ho, if_pos hfold] at h
  rcases hvalue : Host.value e with (_ | _) | v <;> rw [hvalue] at h hv <;> cases hv
  · rfl
  · cases h

namespace Lowering

/-! ## Reading expressions -/

section Reading

/-- What follows reading the dialect is planned alike if it is so for the compiler's. -/
theorem alike_dialect {k k' : Dialect → Planning α} (h : Alike c f (k c.dialect) (k' c.dialect)) :
    Alike c f (dialect >>= k) (dialect >>= k') := by
  simp only [dialect, bind_assoc, pure_bind]
  refine Alike.read_bind fun s s' hs hs' _ => ?_
  rwa [hs, hs']

/-- What follows reading the translations is planned alike if it is so for the compiler's. -/
theorem alike_translations {k k' : TranslationTable → Planning α}
    (h : Alike c f (k c.translations) (k' c.translations)) :
    Alike c f (translations >>= k) (translations >>= k') := by
  simp only [translations, bind_assoc, pure_bind]
  refine Alike.read_bind fun s s' hs hs' _ => ?_
  rwa [hs, hs']

/-- What follows the origin of an expression is planned alike if it is so for the origins. -/
private theorem alike_origin {k k' : Origin → Planning α}
    (h : Alike c f (k (e.origin c.translations)) (k' (e'.origin c.translations))) :
    Alike c f (origin e >>= k) (origin e' >>= k') := by
  simp only [origin, bind_assoc, pure_bind]
  exact alike_translations h

/-- What follows the question whether to fold is planned alike if it is so for the answers. -/
private theorem alike_foldable {k k' : Bool → Planning α} (h : Alike c f (k (c.options.foldCalls || !e.containsCall))
      (k' (c.options.foldCalls || !e'.containsCall))) :
    Alike c f (foldable e >>= k) (foldable e' >>= k') := by
  simp only [foldable, bind_assoc, pure_bind]
  refine Alike.read_bind fun s s' hs hs' _ => ?_
  rwa [hs, hs']

/-- Twins come from one place. -/
theorem alike_origin_twins (h : e.Twins C e') {k k' : Origin → Planning α}
    (hk : Alike c f (k (e.origin c.translations)) (k' (e.origin c.translations))) :
    Alike c f (origin e >>= k) (origin e' >>= k') := by
  refine alike_origin ?_
  rwa [← h.origin]

/-- A constant is planned alike. -/
theorem alike_constant (v : Value) : Alike c Node.blank (constant v) (constant v) :=
  alike_dialect (.ofExcept rfl)

/-- The values of constants are the same in both runs. -/
private theorem alike_constantValue? (h : e.Twins C e') : Alike c id (constantValue? e) (constantValue? e') := by
  unfold constantValue?
  refine alike_origin_twins h ?_
  split
  · next ho =>
    rw [h.eq_of_constant ho]
    refine alike_foldable ?_
    split
    · exact Alike.ofFault fun v? v?' hv hv' => Except.ok.inj (hv.symm.trans hv')
    · exact .pure rfl
  · exact .pure rfl

/-- A format is the same in both runs if its text is. -/
theorem alike_formatAtHand? (h : e.Twins C e') (ht : e.hostText? c.translations = e'.hostText? c.translations) :
    Alike c id (formatAtHand? e) (formatAtHand? e') := by
  unfold formatAtHand?
  refine alike_origin_twins h ?_
  split
  · exact .pure rfl
  · next ho =>
    refine Alike.ofFault_bind fun v? v?' hv hv' => .pure ?_
    rw [Expr.hostText?, Expr.hostText?, Expr.hostValue?, Expr.hostValue?, ← h.origin, if_neg ho, if_neg ho,
      Evaluation.toOption_of_attempt hv, Evaluation.toOption_of_attempt hv'] at ht
    exact ht

end Reading

/-! ## Values at hand -/

section AtHand

variable {lower lower' : Planning Node}

/-- A value at hand is planned alike. -/
theorem alike_atHand (v : Value) (o : Origin) : Alike c Node.blank (atHand v o) (atHand v o) := by
  have plain : Alike c Node.blank (if o = .constant then constant v else return .parameter v : Planning Node)
      (if o = .constant then constant v else return .parameter v) := by
    split
    · exact alike_constant v
    · exact .pure rfl
  unfold atHand
  split
  · exact .fail
  · exact .fail
  · exact plain

/-- Twins are planned alike unless a captured value lies within one that is evaluated.

**Proof sketch.** Twins have the same origin and contain the same calls, so that both are evaluated or neither is. If
they are, the values are equal, or there are none and both are planned from their parts. -/
theorem alike_folded (h : e.Twins C e') (hw : e.isWhole = true)
    (hv : Expr.Untouched (Expr.atHand? { compiler := c }) e e') (hlower : Alike c Node.blank lower lower') :
    Alike c Node.blank (folded e lower) (folded e' lower') := by
  unfold folded
  refine alike_origin_twins h ?_
  split
  · exact hlower
  · next ho =>
    refine alike_foldable ?_
    rw [← h.containsCall]
    split
    · next hfold =>
      refine Alike.ofFault_bind fun v? v?' hvalue hvalue' => ?_
      -- either the twins are one expression, or neither has a value
      obtain rfl | ⟨hnone, hnone'⟩ := hv hw
      · cases hvalue.symm.trans hvalue'
        split
        · exact alike_atHand ..
        · exact hlower
      · rw [Expr.eq_none_of_atHand? hnone ho hfold hvalue]
        rw [h.origin] at ho
        rw [h.containsCall] at hfold
        rw [Expr.eq_none_of_atHand? hnone' ho hfold hvalue']
        exact hlower
    · exact hlower

/-- Captured values that may stand for each other are bound alike. -/
theorem alike_captured (name : String) {v v' : Value} (h : v.Like v') :
    Alike c Node.blank (folded (.captured name v) (atHand v .captured))
      (folded (.captured name v') (atHand v' .captured)) := by
  have bound : Alike c Node.blank (atHand v .captured) (atHand v' .captured) := by
    obtain rfl | ⟨hv, hv', htype⟩ := h
    · exact alike_atHand ..
    · cases v <;> cases hv <;> cases v' <;> cases hv' <;> exact .pure (congrArg (Node.bound _ _ _) htype)
  unfold folded
  refine alike_origin ?_
  simp only [Expr.origin, reduceCtorEq, if_false]
  refine alike_foldable ?_
  simp only [Expr.containsCall, Bool.not_false, Bool.or_true, if_true]
  refine Alike.ofFault_bind fun v? v?' hv hv' => ?_
  cases hv
  cases hv'
  exact bound

/-- What can neither be lowered nor written as a value is not planned. -/
theorem alike_unplanned (h : e.Twins C e') {err err' : SqlError}
    (hv : ∀ v o, Host.value e = .ok v → ∃ err, atHand v o = fail err) :
    Alike c Node.blank (folded e (fail err)) (folded e' (fail err')) := by
  unfold folded
  refine alike_origin_twins h ?_
  split
  · exact .fail
  · refine alike_foldable ?_
    rw [← h.containsCall]
    split
    · refine Alike.ofFault_bind fun v? v?' hvalue _ => ?_
      cases v? with
      | none => exact .fail
      | some v =>
        obtain ⟨err, herr⟩ := hv v (e.origin c.translations) (Evaluation.eq_ok_of_attempt hvalue)
        dsimp only
        rw [herr]
        exact .fail
    · exact .fail

end AtHand

/-! ## Members -/

/-- A parameter is planned alike. -/
theorem alike_parameter (name : String) : Alike c Node.blank (parameter name) (parameter name) := by
  unfold parameter
  refine Alike.lookup.bind fun b b' hb => ?_
  obtain ⟨t, rfl, rfl⟩ | ⟨g, g', rfl, rfl, hg⟩ := Binding.cases_of_blank hb
  · exact .fail
  · exact .ofExcept (by rw [g.singleKey_blank, g'.singleKey_blank, hg])

/-- A member of a parameter is planned alike. -/
private theorem alike_parameterMember (param name : String) :
    Alike c Node.blank (parameterMember param name) (parameterMember param name) := by
  unfold parameterMember
  refine Alike.lookup.bind fun b b' hb => ?_
  obtain ⟨t, rfl, rfl⟩ | ⟨g, g', rfl, rfl, hg⟩ := Binding.cases_of_blank hb
  · exact .ofExcept rfl
  · dsimp only
    split
    · exact .ofExcept (by rw [g.singleKey_blank, g'.singleKey_blank, hg])
    · exact .ofExcept (by rw [g.key_blank, g'.key_blank, hg])

/-- A key that is read by its name is planned alike. -/
private theorem alike_keyMember? (h : e.Twins C e') (name : String) :
    Alike c (Option.map Node.blank) (keyMember? e name) (keyMember? e' name) := by
  unfold keyMember?
  cases h with
  | member _ hinner =>
    cases hinner with
    | param p =>
      dsimp only
      split
      · refine Alike.lookup.bind fun b b' hb => ?_
        obtain ⟨t, rfl, rfl⟩ | ⟨g, g', rfl, rfl, hg⟩ := Binding.cases_of_blank hb
        · exact .pure rfl
        · exact .pure (by rw [← g.lookup_blank, ← g'.lookup_blank, hg])
      · exact .pure rfl
    | _ => exact .pure rfl
  | _ => exact .pure rfl

section Operands

variable {o o' : Operand} {args args' : List Operand}

/-- A member of a value is planned alike if the value is. -/
private theorem alike_valueMember (h : o.Alike C c o') (name : String) :
    Alike c Node.blank (valueMember o name) (valueMember o' name) := by
  unfold valueMember
  refine (alike_keyMember? h.source name).bind fun n? n?' heq => ?_
  cases rel_of_map_eq heq with
  | some hn => exact .pure hn
  | none =>
    dsimp only
    split
    · exact h.value.bind fun n n' hn => .pure (by rw [Node.blank_isNull, hn, Node.blank_isNull])
    · split
      · exact h.value
      · refine h.value.bind fun n n' hn => alike_translations ?_
        rw [Node.type_eq hn]
        split
        · exact .pure (by simp [hn])
        · exact .fail

/-- Members of twins are planned alike. -/
theorem alike_member (h : o.Alike C c o') (name : String) :
    Alike c Node.blank (member o name) (member o' name) := by
  have hvalue := alike_valueMember h name
  have hsource := h.source
  unfold member
  generalize o.source = e at hsource
  generalize o'.source = e' at hsource
  cases hsource with
  | param p => exact alike_parameterMember p name
  | _ => exact hvalue

/-- A static member is planned alike. -/
theorem alike_static (type name : String) : Alike c Node.blank (static type name) (static type name) := by
  refine alike_translations ?_
  split
  · exact .pure rfl
  · exact alike_constant _
  · exact .fail

/-! ## Membership and selections -/

section Collections

/-- Twins that no captured value lies within have one value on the host. -/
theorem value_eq_of_untouched (h : e.Twins C e') (hw : e.isWhole = true)
    (hu : Expr.Untouched (Expr.hostValue? c.translations) e e') (ho : e.origin c.translations ≠ .sql)
    {v? v?' : Option Value} (hv : (Host.value e).attempt = .ok v?) (hv' : (Host.value e').attempt = .ok v?') :
    v? = v?' := by
  obtain rfl | ⟨hnone, hnone'⟩ := hu hw
  · exact Except.ok.inj (hv.symm.trans hv')
  · have ho' : e'.origin c.translations ≠ .sql := h.origin ▸ ho
    rw [Expr.hostValue?, if_neg ho, Evaluation.toOption_of_attempt hv] at hnone
    rw [Expr.hostValue?, if_neg ho', Evaluation.toOption_of_attempt hv'] at hnone'
    rw [hnone, hnone']

/-- Whether there is a list at hand. -/
theorem alike_listAtHand (h : e.Twins C e') (hw : e.isWhole = true)
    (hu : Expr.Untouched (Expr.hostValue? c.translations) e e') :
    Alike c id (do
      if (← origin e) = .sql then return false
      return (← valueOf? e).any Value.isList) (do
      if (← origin e') = .sql then return false
      return (← valueOf? e').any Value.isList) := by
  refine alike_origin_twins h ?_
  split
  · exact .pure rfl
  · next ho =>
    refine Alike.ofFault_bind fun v? v?' hv hv' => .pure ?_
    rw [value_eq_of_untouched h hw hu ho hv hv']

/-- Values that may stand for each other are both lists, or neither is. -/
private theorem isList_eq_of_like {v v' : Value} (h : v.Like v') : v.isList = v'.isList := by
  obtain rfl | ⟨hv, hv', -⟩ := h
  · rfl
  · cases v <;> cases hv <;> cases v' <;> cases hv' <;> rfl

/-- Twins with values untouched are collections alike. -/
theorem alike_isCollection : ∀ {e e' : Expr}, e.Twins C e' →
    Expr.Untouched (Expr.hostValue? c.translations) e.withoutConversions e'.withoutConversions →
    Alike c id (isCollection e) (isCollection e')
  | _, _, .convert _ h, hu => (alike_isCollection h :) hu
  | _, _, .constant _, _ | _, _, .array _, _ | _, _, .query _, _ => .pure rfl
  | _, _, .captured _ h, _ => .pure (isList_eq_of_like h)
  | _, _, .param name, hu => alike_listAtHand (C := C) (.param name) rfl hu
  | _, _, .static type name, hu => alike_listAtHand (C := C) (.static type name) rfl hu
  | _, _, .member hc h, hu => alike_listAtHand (.member hc h) rfl hu
  | _, _, .callOn hc h hs, hu => alike_listAtHand (.callOn hc h hs) rfl hu
  | _, _, .callOf hc hs, hu => alike_listAtHand (.callOf hc hs) rfl hu
  | _, _, .binary hc hl hr, hu => alike_listAtHand (.binary hc hl hr) rfl hu
  | _, _, .unary hc h, hu => alike_listAtHand (.unary hc h) rfl hu
  | _, _, .conditional hc ht ha hb, hu => alike_listAtHand (.conditional hc ht ha hb) rfl hu
  | _, _, .object hs, hu => alike_listAtHand (.object hs) rfl hu
  | _, _, .lambda h, hu => alike_listAtHand (.lambda h) rfl hu

/-- Several values at hand are planned alike if they are the same. -/
theorem alike_atHands (vs : List Value) (o : Origin) :
    Alike c (List.map Node.blank) (vs.mapM (atHand · o)) (vs.mapM (atHand · o)) :=
  .mapM (List.forall₂_same.mpr fun v _ => alike_atHand v o)

/-- The values of a collection are the same in both runs, or there is no list: a captured value by itself is a list
only if it is the same in both. -/
theorem values_of_collection (h : e.Twins C e') (ha : ∀ items, e ≠ .array items)
    (hu : Expr.Untouched (Expr.hostValue? c.translations) e e') (ho : e.origin c.translations ≠ .sql)
    {v? v?' : Option Value} (hv : (Host.value e).attempt = .ok v?) (hv' : (Host.value e').attempt = .ok v?') :
    v? = v?' ∨ ∃ v, v? = some v ∧ v.isList = false := by
  cases hw : e.isWhole with
  | true => exact .inl (value_eq_of_untouched h hw hu ho hv hv')
  | false =>
    cases h with
    | captured name hlike =>
      cases hv
      cases hv'
      obtain rfl | ⟨hscalar, -, -⟩ := hlike
      · exact .inl rfl
      · refine .inr ⟨_, rfl, ?_⟩
        rename_i v v'
        cases v <;> first | rfl | cases hscalar
    | array hs => exact absurd rfl (ha _)
    | query hq => exact absurd rfl ho
    | _ => cases hw

/-- **The items of a collection at hand are planned alike.**

**Proof sketch.** Both collections are at hand or neither is. What they hold is the same, or, if it is no collection
of values, both fail. -/
theorem alike_itemsAtHand (h : e.Twins C e') (ha : ∀ items, e ≠ .array items)
    (hu : Expr.Untouched (Expr.hostValue? c.translations) e e') :
    Alike c (List.map Node.blank) (itemsAtHand e) (itemsAtHand e') := by
  unfold itemsAtHand
  refine alike_origin_twins h ?_
  dsimp only
  split
  · exact .fail_bind
  · next ho =>
    refine Alike.ofFault_bind fun v? v?' hv hv' => ?_
    obtain rfl | ⟨v, rfl, hlist⟩ := values_of_collection h ha hu ho hv hv'
    · split
      · exact .fail
      · exact alike_atHands ..
      · exact .fail
    · cases v <;> first | exact .fail | cases hlist

end Collections

section Membership

variable {collection collection' item item' : Operand} {n n' : Node} {ns ns' : List Node}

/-- A test against an empty list is planned alike. -/
private theorem alike_emptyMembership (hn : n.blank = n'.blank) (negated : Bool) :
    Alike c Node.blank (emptyMembership n negated) (emptyMembership n' negated) := by
  unfold emptyMembership
  refine Alike.read_bind fun s s' hs hs' _ => ?_
  rw [hs, hs']
  split
  · exact .fail
  · refine .pure ?_
    split
    · rfl
    · rw [Node.blank_inList, Node.blank_inList, hn]

/-- Membership in items of which each can be compared. -/
theorem alike_listed (hn : n.blank = n'.blank) (hns : ns.map Node.blank = ns'.map Node.blank) (negated : Bool) :
    Alike c Node.blank (do
      ns.forM fun m => ofExcept (n.type.comparable m.type)
      if ns.isEmpty then emptyMembership n negated else return .inList n ns negated) (do
      ns'.forM fun m => ofExcept (n'.type.comparable m.type)
      if ns'.isEmpty then emptyMembership n' negated else return .inList n' ns' negated) := by
  have hsame : List.Forall₂ (fun m m' : Node => m.blank = m'.blank) ns ns' := by
    rw [← List.forall₂_eq_eq_eq, List.forall₂_map_left_iff, List.forall₂_map_right_iff] at hns
    exact hns
  have hempty : ns.isEmpty = ns'.isEmpty := by
    rw [← List.isEmpty_map (f := Node.blank), hns, List.isEmpty_map]
  have compared : Alike c id (ns.forM fun m => ofExcept (n.type.comparable m.type))
      (ns'.forM fun m => ofExcept (n'.type.comparable m.type)) :=
    .forM (hsame.imp fun m m' hm => .ofExcept (by rw [Node.type_eq hn, Node.type_eq hm]))
  refine compared.bind fun _ _ _ => ?_
  rw [hempty]
  split
  · exact alike_emptyMembership hn negated
  · exact .pure (by rw [Node.blank_inList, Node.blank_inList, hn, hns])

/-- Membership among twins is planned alike. -/
theorem alike_membership (hc : collection.Alike C c collection')
    (hu : Expr.Untouched (Expr.hostValue? c.translations) collection.source collection'.source)
    (hi : item.Alike C c item') (negated : Bool) :
    Alike c Node.blank (membership collection item negated) (membership collection' item' negated) := by
  unfold membership
  refine hi.value.bind fun n n' hn => ?_
  obtain ⟨hsource, _, _, _, hselection, hitems, hlisted⟩ := hc
  generalize collection.selection = selection at hselection
  generalize collection'.selection = selection' at hselection
  generalize collection.items = items at hitems hlisted
  generalize collection'.items = items' at hitems
  cases hselection with
  | some hplan => exact hplan.bind fun s s' hs => .pure (by simp only [Node.blank, hn, hs])
  | none =>
    cases hitems with
    | some hplan => exact hplan.bind fun ns ns' hns => alike_listed hn hns negated
    | none =>
      refine (alike_itemsAtHand hsource (hlisted rfl) hu).bind fun ns ns' hns => ?_
      exact alike_listed hn hns negated

/-- Columns can be left out before or after blanking. -/
private theorem blankSelect_withoutColumns (s : Select) :
    blankSelect (withoutColumns s) = withoutColumns (blankSelect s) := by
  obtain ⟨_, _, _, _, _, _, _, _, _, _, _, _⟩ := s
  rfl

/-- Tests for rows of twins are planned alike. -/
theorem alike_rowsTest (h : item.Alike C c item') (declaring declaring' method method' : String)
    (negated : Bool) :
    Alike c Node.blank (rowsTest item declaring method negated) (rowsTest item' declaring' method' negated) := by
  have hsource := h.source
  have hselection := h.selection
  unfold rowsTest
  generalize item.source = e at hsource
  generalize item'.source = e' at hsource
  generalize item.selection = selection at hselection
  generalize item'.selection = selection' at hselection
  cases hsource with
  | query hq =>
    cases hselection with
    | none => exact .fail
    | some hplan =>
      refine hplan.bind fun s s' hs => .pure ?_
      rw [hq.projection]
      split
      · simp only [Node.blank, blankSelect_withoutColumns, hs]
      · simp only [Node.blank, hs]
  | _ => exact .fail

end Membership

/-! ## Parts of calls -/

section Parts

variable {n n' : Node}

/-- Targets and arguments that are alike give operands that are. -/
theorem alike_operands {target target' : Option Node}
    (ht : target.map Node.blank = target'.map Node.blank) (ha : List.Forall₂ (Operand.Alike C c) args args') :
    Alike c (List.map Node.blank) (operands target args) (operands target' args') := by
  unfold operands
  refine Alike.bind (.mapM (ha.imp fun o o' h => h.value)) fun ns ns' hns => .pure ?_
  have hlist : target.toList.map Node.blank = target'.toList.map Node.blank := by
    rw [← Option.toList_map, ht, Option.toList_map]
  rw [List.map_append, List.map_append, hlist, hns]

/-- Nodes that are alike have one first type. -/
theorem firstType_eq {ns ns' : List Node} (h : ns.map Node.blank = ns'.map Node.blank) :
    firstType ns = firstType ns' := by
  unfold firstType
  rw [← List.head?_map, ← List.head?_map, Node.types_eq h]

/-- A time shifted by what is found to shift it by. -/
theorem alike_shiftedBy (hn : n.blank = n'.blank) {unit : IntervalUnit} {found found' : Planning (Bool × Node)}
    (h : Alike c (Prod.map id Node.blank) found found') : Alike c Node.blank (do
      let (negative, interval) ← found
      return .call (if negative then .dateSub unit else .dateAdd unit) [n, interval] n.type) (do
      let (negative, interval) ← found'
      return .call (if negative then .dateSub unit else .dateAdd unit) [n', interval] n'.type) := by
  refine h.bind fun r r' hr => .pure ?_
  obtain ⟨negative, interval⟩ := r
  obtain ⟨negative', interval'⟩ := r'
  obtain ⟨rfl, hinterval⟩ := Prod.mk.inj hr
  simp [hn, hinterval, Node.type_eq hn]

/-- A time shifted by a value is planned alike. -/
private theorem alike_shiftedByValue (hn : n.blank = n'.blank) (v : Value) (unit : IntervalUnit) (scale : Int64) :
    Alike c Node.blank (shiftedByValue n v unit scale) (shiftedByValue n' v unit scale) := by
  unfold shiftedByValue
  split
  · split
    · exact alike_shiftedBy hn .fail
    · split
      · exact alike_shiftedBy hn .fail
      · exact alike_shiftedBy hn (.pure rfl)
  · split
    · exact alike_shiftedBy hn .fail
    · exact (alike_constant _).bind fun m m' hm => alike_shiftedBy hn (.pure (congrArg (Prod.mk _) hm))

/-- An amount is taken by its value only if it is constant, and then it is the same in both runs. -/
theorem alike_dateAdd {o o' : Operand} (hn : n.blank = n'.blank) (h : o.Alike C c o') (unit : IntervalUnit)
    (scale : Int64) :
    Alike c Node.blank (dateAdd n o unit scale) (dateAdd n' o' unit scale) := by
  unfold dateAdd
  refine (alike_constantValue? h.source).bind fun v? v?' hv => ?_
  obtain rfl : v? = v?' := hv
  split
  · exact alike_shiftedByValue hn ..
  · refine h.value.bind fun a a' ha => .pure ?_
    split <;> simp [hn, ha, Node.type_eq hn, Node.type_eq ha]

/-- A position is taken by its value only if it is constant. -/
theorem alike_oneBased {o o' : Operand} (h : o.Alike C c o') :
    Alike c Node.blank (oneBased o) (oneBased o') := by
  unfold oneBased
  refine (alike_constantValue? h.source).bind fun v? v?' hv => ?_
  obtain rfl : v? = v?' := hv
  split
  · split
    · exact .pure rfl
    · exact .fail
  · exact h.value.bind fun a a' ha => .pure (by simp [ha])

/-- A format is taken by its value, so its text has to be the same in both runs.

**Proof sketch.** The number of arguments is the same. Without a format only the type counts, and with one its text,
which is the same in both runs. -/
theorem alike_stringify (hn : n.blank = n'.blank) (ha : List.Forall₂ (Operand.Alike C c) args args')
    (hformat : ∀ o o', args = [o] → args' = [o'] →
      o.source.hostText? c.translations = o'.source.hostText? c.translations)
    (declaring declaring' method method' : String) :
    Alike c Node.blank (stringify n args declaring method) (stringify n' args' declaring' method') := by
  unfold stringify
  cases ha with
  | nil =>
    refine .pure ?_
    rw [Node.type_eq hn]
    split
    · exact hn
    · simp [hn]
  | cons h hrest =>
    cases hrest with
    | nil =>
      refine (alike_formatAtHand? h.source (hformat _ _ rfl rfl)).bind fun text text' ht => ?_
      obtain rfl : text = text' := ht
      rw [Node.type_eq hn]
      split
      · refine alike_dialect ?_
        split
        · exact (alike_constant _).bind fun m m' hm => .pure (by simp [hn, hm])
        · exact .defer
      · exact .defer
    | cons _ _ => exact .fail

/-- Nodes that are alike are so in seconds. -/
theorem alike_inSeconds (hn : n.blank = n'.blank) (seconds : Float) :
    Alike c Node.blank (inSeconds n seconds) (inSeconds n' seconds) := by
  unfold inSeconds
  split
  · exact .pure hn
  · exact (alike_constant _).bind fun m m' hm => .pure (by simp [hn, hm])

end Parts

end Operands

end Lowering

end LambdaSql
