import LambdaSql.Proofs.Naming.Operands
import LambdaSql.Proofs.Nesting.Passages

/-!
# Expressions without queries

Only queries use up aliases, and only what they read from is collected. Where an expression contains no query, planning
it leaves the progress as it was.

## Main definitions

* `Operand.Idle` - planning an operand in any of its ways leaves the progress as it was.

## Main results

* `Expr.idle` - an expression without queries.
-/

namespace LambdaSql

open Planning

/-- In whatever way an operand is planned, the progress stays as it was. -/
structure Operand.Idle (o : Operand) : Prop where
  progress : ∀ {s p ns p'}, o.Gives s p ns p' → p' = p

/-- An expression leaves the progress as it was, and so does its body when it is applied to bindings. -/
structure Expr.Idle (e : Expr) : Prop where
  value : (operand e).Idle
  body : (operand e.toLambda.body).Idle

variable {s : Scope} {p p' : Progress} {n : Node} {ns : List Node} {os : List Operand} {e target : Expr}
  {args : List Expr} {bindings : List Binding}

/-- Operands that leave the progress as it was still do so one after the other. -/
theorem Drawn.idle (h : Drawn s os p ns p') (hos : ∀ o ∈ os, o.Idle) : p' = p := by
  induction h with
  | done => rfl
  | drop hmem hgives _ ih => rw [ih hos, (hos _ hmem).progress hgives]
  | take hperm hgives _ ih =>
    obtain ⟨ho, hrest⟩ := List.forall_mem_cons.mp fun o h => hos o (hperm.symm.subset h)
    rw [ih hrest, ho.progress hgives]

/-! ## The forms of expressions -/

/-- An expression that is planned in one way only. -/
theorem plain_idle {lower : Planning Node} (h : ∀ {s p n p'}, lower.Gives s p n p' → p' = p) :
    (plainOperand e lower).Idle := by
  have folded {s : Scope} {p p' : Progress} {n : Node} (hn : (Lowering.folded e lower).Gives s p n p') : p' = p := by
    obtain ⟨-, rfl⟩ | hn := Lowering.folded_or_lowered hn
    · rfl
    · exact h hn
  refine ⟨fun {s p ns p'} hg => ?_⟩
  cases hg with
  | value hv => exact folded hv
  | alternatives ha =>
    simp only [plainOperand, gives_bind, gives_pure] at ha
    obtain ⟨_, _, hn, -, rfl⟩ := ha
    exact folded hn
  | selection _ hs => cases hs
  | rows _ hs => cases hs
  | items hi => cases hi
  | choices _ hv => exact folded hv

/-- An expression that is planned in further ways. -/
theorem ways_idle {o : Operand} {lower : Planning Node} (hplain : (plainOperand e lower).Idle)
    (hvalue : o.value = (plainOperand e lower).value)
    (ha : ∀ {s p ns p'}, o.alternatives.Gives s p ns p' → p' = p)
    (hs : ∀ {plan s p q p'}, o.selection = some plan → plan.Gives s p q p' → p' = p)
    (hi : ∀ {plan s p ns p'}, o.items = some plan → plan.Gives s p ns p' → p' = p) : o.Idle := by
  refine ⟨fun {s p ns p'} hg => ?_⟩
  cases hg with
  | value hv => exact hplain.progress (.value (hvalue ▸ hv))
  | alternatives h => exact ha h
  | selection _ h hq => exact hs h hq
  | rows _ h hq => exact hs h hq
  | items h hns => exact hi h hns
  | choices _ hv => exact hplain.progress (.value (hvalue ▸ hv))

/-- An expression that draws from its parts. -/
theorem draws_idle {lower : Planning Node} (hd : lower.Draws [] os) (hos : ∀ o ∈ os, o.Idle) :
    (plainOperand e lower).Idle :=
  plain_idle fun hn =>
    have ⟨_, hdrawn, _⟩ := hd hn
    hdrawn.idle hos

/-- Looking a parameter up leaves the progress as it was. -/
theorem gives_parameterMember_progress {param name : String}
    (h : (Lowering.parameterMember param name).Gives s p n p') : p' = p := by
  simp only [Lowering.parameterMember, gives_bind, gives_lookup] at h
  obtain ⟨b, _, ⟨-, rfl⟩, h⟩ := h
  cases b with
  | table t => exact (gives_ofExcept.mp h).2
  | grouping g =>
    dsimp only at h
    split at h
    · exact (gives_ofExcept.mp h).2
    · exact (gives_ofExcept.mp h).2

/-- A parameter is planned without progress. -/
private theorem param_idle (name : String) : (operand (.param name)).Idle := by
  refine plain_idle fun {s p n p'} hn => ?_
  simp only [Lowering.parameter, gives_bind, gives_lookup] at hn
  obtain ⟨b, _, ⟨-, rfl⟩, hn⟩ := hn
  cases b with
  | table t => exact absurd hn not_gives_fail
  | grouping g => exact (gives_ofExcept.mp hn).2

/-- A member is planned without progress if its target is. -/
private theorem member_idle (ht : (operand target).Idle) (name : String) : (operand (.member target name)).Idle := by
  refine plain_idle fun {s p n p'} hn => ?_
  unfold Lowering.member at hn
  split at hn
  · exact gives_parameterMember_progress hn
  · obtain ⟨_, _, _, -, -, -, -, rfl⟩ | ⟨-, _, hdrawn, -⟩ := Lowering.gives_valueMember hn
    · rfl
    · exact hdrawn.idle (List.forall_mem_singleton.mpr ht)

/-- The first of several arguments leaves the progress as it was when it is applied to the rows of a group. -/
theorem applied_idle (h : e.Idle) (hn : ((operand e).applied bindings).Gives s p n p') : p' = p := by
  rw [operand_applied] at hn
  exact h.body.progress (.value (gives_withFrame.mp hn).2)

/-- Operands plan the arguments. -/
private theorem mem_operands {o : Operand} (ho : o ∈ operands args) : ∃ e ∈ args, o = operand e := by
  induction args with
  | nil => cases ho
  | cons e rest ih =>
    obtain rfl | ho := List.mem_cons.mp ho
    · exact ⟨e, List.mem_cons_self, rfl⟩
    · obtain ⟨e', he', rfl⟩ := ih ho
      exact ⟨e', List.mem_cons_of_mem _ he', rfl⟩

/-- Operands are planned without progress if their arguments are. -/
private theorem operands_idle (h : ∀ e ∈ args, e.Idle) : ∀ o ∈ operands args, o.Idle := by
  intro o ho
  obtain ⟨e, he, rfl⟩ := mem_operands ho
  exact (h e he).value

/-- A call is planned without progress if its target and arguments are. -/
private theorem call_idle (ht : (operand target).Idle) (hargs : ∀ e ∈ args, e.Idle) (type : Option String)
    (method : String) :
    (operand (.call (some target) type method args)).Idle := by
  refine plain_idle fun {s p n p'} hn => ?_
  obtain ⟨_, _, -, -, hcall⟩ | ⟨-, _, hdrawn, -⟩ := Lowering.gives_callOn hn
  · obtain ⟨-, -, rfl⟩ | ⟨o, rest, _, hcons, happlied, -⟩ := Lowering.gives_groupingCall hcall
    · rfl
    · obtain ⟨e, he, rfl⟩ := mem_operands (hcons ▸ List.mem_cons_self : o ∈ operands args)
      exact applied_idle (hargs e he) happlied
  · exact hdrawn.idle (List.forall_mem_cons.mpr ⟨ht, operands_idle hargs⟩)

/-- A binary operator is planned without progress if its sides are. -/
private theorem binary_idle {left right : Expr} (hl : (operand left).Idle) (hr : (operand right).Idle) (op : BinaryOp) :
    (operand (.binary op left right)).Idle := by
  have hplain : (plainOperand (.binary op left right)
      (Lowering.binary op (operand left) (operand right))).Idle :=
    draws_idle (Lowering.draws_binary op _ _) (by simp [hl, hr])
  rw [operand]
  split
  · refine ways_idle hplain rfl (fun {s p ns p'} ha => ?_) (fun hs => by cases hs) fun hs => by cases hs
    simp only [gives_bind, gives_pure] at ha
    obtain ⟨_, q, hls, _, _, hrs, -, rfl⟩ := ha
    rw [hr.progress (.alternatives hrs), hl.progress (.alternatives hls)]
  · exact hplain

/-- A conversion is planned without progress if what it converts is. -/
private theorem convert_idle {inner : Expr} (h : (operand inner).Idle) (type : HostType) :
    (operand (.convert inner type)).Idle := by
  have hplain : (plainOperand (.convert inner type) (do return (← (operand inner).value).retype type)).Idle := by
    refine plain_idle fun {s p n p'} hn => ?_
    simp only [gives_bind, gives_pure] at hn
    obtain ⟨_, _, hm, -, rfl⟩ := hn
    exact h.progress (.value hm)
  exact ways_idle hplain rfl (fun ha => hplain.progress (.alternatives ha))
    (fun hs hq => h.progress (.selection type hs hq)) fun hs => by cases hs

/-- An array is planned without progress if its items are. -/
private theorem array_idle {items : List Expr} (h : ∀ e ∈ items, e.Idle) : (operand (.array items)).Idle := by
  have hplain : (plainOperand (.array items) (fail .constructionAsValue)).Idle :=
    plain_idle fun hn => absurd hn not_gives_fail
  refine ways_idle hplain rfl (fun ha => hplain.progress (.alternatives ha)) nofun (fun {plan s p ns p'} hi hns => ?_)
  cases hi
  exact (Drawn.values hns).idle (operands_idle h)

/-- A lambda by itself is planned without progress. -/
private theorem lambda_idle (params : List String) (body : Expr) : (operand (.lambda params body)).Idle := by
  have hplain : (plainOperand (.lambda params body) (fail .lambdaAsValue)).Idle :=
    plain_idle fun hn => absurd hn not_gives_fail
  exact ways_idle hplain rfl (fun ha => hplain.progress (.alternatives ha)) nofun nofun

/-! ## All expressions -/

/-- An expression that is no lambda is planned without progress if it is so as a value. -/
private theorem Expr.Idle.of_value (h : (operand e).Idle) (hno : ∀ params body, e ≠ .lambda params body) : e.Idle := by
  refine ⟨h, ?_⟩
  cases e with
  | lambda params body => exact absurd rfl (hno params body)
  | _ => exact h

mutual

/-- **Planning an expression without queries leaves the progress as it was.** -/
theorem Expr.idle : ∀ e : Expr, e.passages [] = [] → e.Idle
  | .constant _, _ => .of_value (plain_idle fun hn => (Lowering.madeOf_atHand hn).2) nofun
  | .captured _ _, _ => .of_value (plain_idle fun hn => (Lowering.madeOf_atHand hn).2) nofun
  | .static _ _, _ => .of_value (plain_idle fun hn => (Lowering.gives_static hn).2) nofun
  | .param name, _ => .of_value (param_idle name) nofun
  | .member target name, h => .of_value (member_idle (target.idle h).value name) nofun
  | .call (some target) type method args, h =>
    have ⟨htarget, hargs⟩ := List.append_eq_nil_iff.mp h
    .of_value (call_idle (target.idle htarget).value (items_idle args hargs) type method) nofun
  | .call none type method args, h =>
    .of_value (draws_idle (Lowering.draws_callOf type method _) (operands_idle (items_idle args h))) nofun
  | .binary op left right, h =>
    have ⟨hleft, hright⟩ := List.append_eq_nil_iff.mp h
    .of_value (binary_idle (left.idle hleft).value (right.idle hright).value op) nofun
  | .unary op inner, h =>
    .of_value (draws_idle (Lowering.draws_unary op _) (List.forall_mem_singleton.mpr (inner.idle h).value)) nofun
  | .conditional test a b, h =>
    have ⟨hboth, hb⟩ := List.append_eq_nil_iff.mp h
    have ⟨htest, ha⟩ := List.append_eq_nil_iff.mp hboth
    .of_value (draws_idle (Lowering.draws_conditional _ _ _)
      (by simp [(test.idle htest).value, (a.idle ha).value, (b.idle hb).value])) nofun
  | .convert inner type, h => .of_value (convert_idle (inner.idle h).value type) nofun
  | .array items, h => .of_value (array_idle (items_idle items h)) nofun
  | .object _, _ => .of_value (plain_idle fun hn => absurd hn not_gives_fail) nofun
  | .lambda params body, h => ⟨lambda_idle params body, (body.idle h).value⟩
  | .query ⟨_, _, _, _, _, _, _, _, _, _, _⟩, h => absurd h (List.cons_ne_nil _ _)

/-- Items without nested queries are planned without progress. -/
private theorem items_idle : ∀ es : List Expr, itemsPassages [] es = [] → ∀ e ∈ es, e.Idle
  | [], _ => nofun
  | e :: rest, h =>
    have ⟨he, hrest⟩ := List.append_eq_nil_iff.mp h
    List.forall_mem_cons.mpr ⟨e.idle he, items_idle rest hrest⟩

end

end LambdaSql
