import LambdaSql.Proofs.Twins.Lowering

/-!
# Forms of twins

Each form of expressions is planned alike if its parts are. A call may evaluate two of its parts on the host: the
format of a text, and the collection in which an item is asked for.

## Main results

* `Lowering.alike_apply` - translated calls.
* `Lowering.alike_callOn`, `Lowering.alike_callOf`, `Lowering.alike_binary`, `Lowering.alike_conditional` - the
  forms of expressions.
-/

namespace LambdaSql

open Planning

namespace Lowering

variable {C : Expr → Expr → Prop} {c : Compiler} {e e' : Expr} {o o' : Operand} {args args' : List Operand}

/-! ## Calls -/

section Apply

variable {target target' : Option (Operand × Node)}

/-- A target that is planned alike, with its node. -/
def TargetAlike (C : Expr → Expr → Prop) (c : Compiler) (a a' : Operand × Node) : Prop :=
  a.1.Alike C c a'.1 ∧ a.2.blank = a'.2.blank

/-- **Translated calls are planned alike**, if collections at hand are and if formats are the same.

**Proof sketch.** By the translation. The operands are planned alike, and nodes are made of them alike since these
look at types and not at values. Collections and formats are taken by their values, for which the two assumptions are
made. -/
theorem alike_apply (tr : Translation) (ht : Option.Rel (TargetAlike C c) target target')
    (ha : List.Forall₂ (Operand.Alike C c) args args')
    (hcollection : ∀ o o', tr.collection? (target.map Prod.fst) args = some o →
      tr.collection? (target'.map Prod.fst) args' = some o' →
      Expr.Untouched (Expr.hostValue? c.translations) o.source o'.source)
    (hformat : ∀ pair o o', tr = .toText → target = some pair → args = [o] → args' = [o'] →
      o.source.hostText? c.translations = o'.source.hostText? c.translations)
    (declaring declaring' method : String) :
    Alike c Node.blank (apply tr target args declaring method) (apply tr target' args' declaring' method) := by
  have hnode : (target.map Prod.snd).map Node.blank = (target'.map Prod.snd).map Node.blank := by
    cases ht with
    | none => rfl
    | some h => exact congrArg some h.2
  have hops := alike_operands hnode ha
  cases tr with
  | function g returns =>
    refine hops.bind fun ns ns' hns => ?_
    cases returns with
    | fixed type => exact .pure (by simp [hns])
    | operand => exact .pure (by simp [hns, firstType_eq hns])
  | concat => exact alike_dialect (hops.bind fun ns ns' hns => .ofExcept (by simp [Node.blank_concat, hns]))
  | equals =>
    refine hops.bind fun ns ns' hns => ?_
    match ns, hns with
    | [l, r], hns =>
      obtain ⟨l', rest, rfl, hl, hrest⟩ := List.map_eq_cons_iff.mp hns.symm
      obtain ⟨r', rest, rfl, hr, hrest⟩ := List.map_eq_cons_iff.mp hrest
      obtain rfl := List.map_eq_nil_iff.mp hrest
      exact .ofExcept (by rw [Node.blank_comparison, Node.blank_comparison, hl, hr])
    | [], _ | [_], _ | _ :: _ :: _ :: _, _ => exact .fail
  | membership =>
    cases ht with
    | none =>
      match ha with
      | .cons hc (.cons hi .nil) => exact alike_membership hc (hcollection _ _ rfl rfl) hi false
      | .nil | .cons _ .nil | .cons _ (.cons _ (.cons _ _)) => exact .fail
    | some h =>
      match ha with
      | .cons hi .nil => exact alike_membership h.1 (hcollection _ _ rfl rfl) hi false
      | .nil | .cons _ (.cons _ _) => exact .fail
  | dateAdd unit scale =>
    cases ht with
    | none => exact .fail
    | some h =>
      match ha with
      | .cons hi .nil => exact alike_dateAdd h.2 hi unit scale
      | .nil | .cons _ (.cons _ _) => exact .fail
  | addSpan =>
    cases ht with
    | none => exact .fail
    | some h =>
      match ha with
      | .nil => exact .fail
      | .cons hi _ =>
        exact hi.value.bind fun m m' hm => .pure (by simp [h.2, hm, Node.type_eq h.2])
  | subtract =>
    cases ht with
    | none => exact .fail
    | some h =>
      match ha with
      | .nil => exact .fail
      | .cons hi _ => exact hi.value.bind fun m m' hm => .pure (by simp [h.2, hm])
  | substring =>
    cases ht with
    | none => exact .fail
    | some h =>
      match ha with
      | .nil => exact .fail
      | .cons hi .nil => exact (alike_oneBased hi).bind fun m m' hm => .pure (by simp [h.2, hm])
      | .cons hi (.cons hj _) =>
        refine (alike_oneBased hi).bind fun m m' hm => hj.value.bind fun k k' hk => .pure ?_
        simp [h.2, hm, hk]
  | pad g =>
    cases ht with
    | none => exact .fail
    | some h =>
      match ha with
      | .nil => exact .fail
      | .cons hi .nil =>
        refine hi.value.bind fun m m' hm => (alike_constant _).bind fun k k' hk => .pure ?_
        simp [h.2, hm, hk]
      | .cons hi (.cons hj _) =>
        refine hi.value.bind fun m m' hm => hj.value.bind fun k k' hk => .pure ?_
        simp [h.2, hm, hk]
  | trimChars g =>
    cases ht with
    | none => exact .fail
    | some h =>
      match ha with
      | .nil => exact .fail
      | .cons hi _ => exact hi.value.bind fun m m' hm => .pure (by simp [h.2, hm])
  | cast g type =>
    refine hops.bind fun ns ns' hns => ?_
    match ns, hns with
    | [n], hns =>
      obtain ⟨n', rest, rfl, hn, hrest⟩ := List.map_eq_cons_iff.mp hns.symm
      obtain rfl := List.map_eq_nil_iff.mp hrest
      exact .pure (by simp [hn])
    | [], _ | _ :: _ :: _, _ => exact .fail
  | toText =>
    cases ht with
    | none => exact .fail
    | some h => exact alike_stringify h.2 ha (fun o o' => hformat _ o o' rfl rfl) ..
  | spanFrom seconds =>
    match ha with
    | .nil => exact .fail
    | .cons hi _ =>
      refine hi.value.bind fun m m' hm => ?_
      exact (alike_inSeconds hm seconds).bind fun k k' hk => .pure (by simp [hk])
  | aggregate g => exact hops.bind fun ns ns' hns => .pure (by simp [hns])
  | isIn negated =>
    match ha with
    | .cons hi (.cons hc .nil) => exact alike_membership hc (hcollection _ _ rfl rfl) hi negated
    | .nil | .cons _ .nil | .cons _ (.cons _ (.cons _ _)) => exact .fail
  | rowsExist negated =>
    match ha with
    | .cons hi .nil => exact alike_rowsTest hi ..
    | .nil | .cons _ (.cons _ _) => exact .fail
  | orElse =>
    refine .read_bind fun s s' _ _ hs => ?_
    rw [(Scope.blank_eq_iff.mp hs).2.2.1]
    -- the call, which is made unless it is left for after fetching
    have taken : Alike c Node.blank (do
        let nodes ← operands (target.map Prod.snd) args
        return .call .ifNull nodes (firstType nodes)) (do
        let nodes ← operands (target'.map Prod.snd) args'
        return .call .ifNull nodes (firstType nodes)) :=
      hops.bind fun ns ns' hns => .pure (by simp [hns, firstType_eq hns])
    split
    · exact Alike.bind (f := id) .defer fun _ _ _ => taken
    · exact taken
  | round =>
    refine hops.bind fun ns ns' hns => .pure ?_
    have hlength : ns.length = ns'.length := by simpa using congrArg List.length hns
    simp [hns, hlength, firstType_eq hns]
  | deferred => exact .defer

end Apply

/-! ## Forms -/

/-- A call on groups is planned alike. -/
private theorem alike_groupingCall {g g' : Grouping} (hg : g.blank = g'.blank)
    (ha : List.Forall₂ (Operand.Alike C c) args args') (method : String) :
    Alike c Node.blank (groupingCall g method args) (groupingCall g' method args') := by
  unfold groupingCall
  refine alike_translations ?_
  rw [ha.length_eq, (Grouping.mk.inj hg).2]
  split
  · cases ha with
    | nil => exact .pure rfl
    | cons h _ => exact (h.applied _ _ rfl).bind fun n n' hn => .pure (by simp [hn])
  · exact .fail

/-- Twins stand for groupings alike. -/
theorem alike_grouping? (h : e.Twins C e') :
    Alike c (Option.map Grouping.blank) (grouping? e) (grouping? e') := by
  unfold grouping?
  cases h with
  | param p =>
    refine Alike.lookup.bind fun b b' hb => ?_
    obtain ⟨t, rfl, rfl⟩ | ⟨g, g', rfl, rfl, hg⟩ := Binding.cases_of_blank hb
    · exact .pure rfl
    · exact .pure (congrArg some hg)
  | _ => exact .pure rfl

section Calls

variable {target target' : Operand} {type : Option String} {method : String}

/-- The call that an operand, a method and arguments make up. -/
abbrev callExpr (target : Option Operand) (type : Option String) (method : String) (args : List Operand) : Expr :=
  .call (target.map Operand.source) type method (args.map Operand.source)

/-- The operand in which an item is asked for is the one that the expression asks for it in. -/
theorem asksIn_of_collection? {target : Option Operand} {tr : Translation}
    (htr : (callExpr target type method args).MayBe c.translations tr)
    (hx : tr.collection? target args = some o) :
    (callExpr target type method args).AsksIn c.translations o.source :=
  .translated htr (by rw [Translation.collection?_map, hx]; rfl)

/-- A method that a target has, with its translation. -/
theorem alike_method (ht : target.Alike C c target') (ha : List.Forall₂ (Operand.Alike C c) args args')
    (hapart : Expr.Apart c (callExpr (some target) type method args) (callExpr (some target') type method args'))
    (hformats : Expr.FormatsAlike c.translations (callExpr (some target) type method args)
      (callExpr (some target') type method args'))
    {n n' : Node} (hn : n.blank = n'.blank) {t : HostType} {tr : Translation}
    (htr : c.translations.method? (.ofHostType t) method (.exactly args.length) = some tr) (declaring : String) :
    Alike c Node.blank (apply tr (some (target, n)) args declaring method)
      (apply tr (some (target', n')) args' declaring method) := by
  have hmaybe : (callExpr (some target) type method args).MayBe c.translations tr := ⟨t, by simpa using htr⟩
  rw [ha.length_eq] at htr
  have hmaybe' : (callExpr (some target') type method args').MayBe c.translations tr := ⟨t, by simpa using htr⟩
  refine alike_apply tr (.some ⟨ht, hn⟩) ha (fun o o' ho ho' => ?_) (fun pair o o' htext _ ho ho' => ?_) ..
  · exact (hapart.collection _ _ (asksIn_of_collection? hmaybe ho) (asksIn_of_collection? hmaybe' ho')).1
  · subst ho ho' htext
    exact hformats _ _ _ _ _ _ rfl rfl hmaybe

/-- A call that is no test in a collection at hand. -/
theorem alike_called (ht : target.Alike C c target') (ha : List.Forall₂ (Operand.Alike C c) args args')
    (hapart : Expr.Apart c (callExpr (some target) type method args) (callExpr (some target') type method args'))
    (hformats : Expr.FormatsAlike c.translations (callExpr (some target) type method args)
      (callExpr (some target') type method args')) :
    Alike c Node.blank (do
      match ← grouping? target.source with
      | some g => groupingCall g method args
      | none =>
        let n ← target.value
        match (← translations).method? (.ofHostType n.type) method (.exactly args.length) with
        | some t => apply t (some (target, n)) args n.type.displayName method
        | none => fail (.noTranslation n.type.displayName method args.length)) (do
      match ← grouping? target'.source with
      | some g => groupingCall g method args'
      | none =>
        let n ← target'.value
        match (← translations).method? (.ofHostType n.type) method (.exactly args'.length) with
        | some t => apply t (some (target', n)) args' n.type.displayName method
        | none => fail (.noTranslation n.type.displayName method args'.length)) := by
  refine (alike_grouping? ht.source).bind fun g? g?' heq => ?_
  cases rel_of_map_eq heq with
  | some hg => exact alike_groupingCall hg ha method
  | none =>
    refine ht.value.bind fun n n' hn => alike_translations ?_
    rw [Node.type_eq hn, ← ha.length_eq]
    split
    · next tr htr => exact alike_method ht ha hapart hformats hn htr _
    · exact .fail

/-- **Calls on a target are planned alike.**

**Proof sketch.** A call of `Contains` on what is a collection, which it is for both twins or for neither, tests for
membership. Every other call is looked up, and the entry found is the same. -/
theorem alike_callOn (ht : target.Alike C c target') (ha : List.Forall₂ (Operand.Alike C c) args args')
    (hapart : Expr.Apart c (callExpr (some target) type method args) (callExpr (some target') type method args'))
    (hformats : Expr.FormatsAlike c.translations (callExpr (some target) type method args)
      (callExpr (some target') type method args')) :
    Alike c Node.blank (callOn target method args) (callOn target' method args') := by
  have called := alike_called ht ha hapart hformats
  unfold callOn
  match ha with
  | .nil | .cons _ (.cons _ _) => exact called
  | .cons hi .nil =>
    by_cases hcontains : method = "Contains"
    · subst hcontains
      obtain ⟨hu, hbare⟩ := hapart.collection _ _ .contains .contains
      refine (alike_isCollection ht.source hbare).bind fun b b' hb => ?_
      obtain rfl : b = b' := hb
      cases b with
      | true => exact alike_membership ht hu hi false
      | false => exact called
    · simp only [if_neg hcontains]
      exact called

/-- **Calls of a type are planned alike.**

**Proof sketch.** The entry is looked up by type, method and number of arguments, which twins have in common. -/
theorem alike_callOf (ha : List.Forall₂ (Operand.Alike C c) args args')
    (hapart : Expr.Apart c (callExpr none type method args) (callExpr none type method args')) :
    Alike c Node.blank (callOf type method args) (callOf type method args') := by
  unfold callOf
  have hlength := ha.length_eq
  split
  · exact .fail
  · next name =>
    refine alike_translations ?_
    rw [hlength]
    split
    · next tr htr =>
      have htr' : (callExpr none (some name) method args').MayBe c.translations tr :=
        ⟨_, rfl, by simpa using htr⟩
      rw [← hlength] at htr
      have htr : (callExpr none (some name) method args).MayBe c.translations tr := ⟨_, rfl, by simpa using htr⟩
      refine alike_apply tr .none ha (fun o o' ho ho' => ?_) nofun ..
      exact (hapart.collection _ _ (asksIn_of_collection? htr ho) (asksIn_of_collection? htr' ho')).1
    · exact .fail

end Calls

section Operators

variable {l l' r r' : Operand}

/-- Binary operations of twins are planned alike. -/
theorem alike_binary (hl : l.Alike C c l') (hr : r.Alike C c r') (op : BinaryOp) :
    Alike c Node.blank (binary op l r) (binary op l' r') := by
  unfold binary
  split
  · refine hl.alternatives.bind fun ns ns' hns => hr.alternatives.bind fun ms ms' hms => .pure ?_
    rw [Node.blank_firstNotNull, Node.blank_firstNotNull, List.map_append, List.map_append, hns, hms]
  · refine hl.value.bind fun n n' hn => hr.value.bind fun m m' hm => alike_dialect (.ofExcept ?_)
    rw [Node.blank_binaryOperator, Node.blank_binaryOperator, hn, hm]

/-- Unary operations of twins are planned alike. -/
theorem alike_unary (h : o.Alike C c o') (op : UnaryOp) :
    Alike c Node.blank (unary op o) (unary op o') := by
  refine h.value.bind fun n n' hn => ?_
  cases op with
  | not => exact .pure (by simp [hn])
  | negate => exact .pure (by simp [hn, Node.type_eq hn])

/-- The branches of a blanked choice are the blanked branches. -/
private theorem branchesOf_blank (n : Node) :
    branchesOf n.blank = Prod.map (List.map (Prod.map Node.blank Node.blank)) Node.blank (branchesOf n) := by
  cases n <;> simp [branchesOf, Node.blank]

/-- Conditionals of twins are planned alike. -/
theorem alike_conditional {test test' : Operand} (ht : test.Alike C c test') (hl : l.Alike C c l')
    (hr : r.Alike C c r') : Alike c Node.blank (conditional test l r) (conditional test' l' r') := by
  unfold conditional
  refine ht.value.bind fun t t' ht => hl.value.bind fun a a' ha => hr.value.bind fun b b' hb => ?_
  refine alike_origin_twins hr.source (.pure ?_)
  rw [hr.source.isConditional]
  generalize (r'.source.isConditional && r.source.origin c.translations == .sql) = nested
  have hchosen : Prod.map (List.map (Prod.map Node.blank Node.blank)) Node.blank
        (if nested then branchesOf b else ([], b)) =
      Prod.map (List.map (Prod.map Node.blank Node.blank)) Node.blank
        (if nested then branchesOf b' else ([], b')) := by
    cases nested with
    | false => exact congrArg (Prod.mk []) hb
    | true => exact (branchesOf_blank b).symm.trans (hb ▸ branchesOf_blank b')
  obtain ⟨hbranches, hotherwise⟩ := Prod.mk.inj hchosen
  rw [Node.blank_choice, Node.blank_choice, List.map_cons, List.map_cons, hbranches, hotherwise]
  simp only [Prod.map, Node.blank_toPredicate, ht, ha]

/-- Subqueries of selections that are planned alike are planned alike. -/
theorem alike_selection {plan plan' : Planning Select} (h : Alike c blankSelect plan plan') :
    Alike c Node.blank (selection plan) (selection plan') := by
  refine h.bind fun s s' hs => .pure ?_
  have hshape := shape_eq_of_blank hs
  simp only [Node.blank, hs, hshape]

end Operators

end Lowering

end LambdaSql
