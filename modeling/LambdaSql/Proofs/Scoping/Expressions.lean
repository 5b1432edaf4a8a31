import LambdaSql.Proofs.Naming.Operands
import LambdaSql.Proofs.Scoping.Standing

/-!
# Expressions and projections are written as they should be

An expression whose parts are planned as what may be written for them is so itself: members and parameters by what they
are bound to, and all other expressions because their parts are what lowering makes them of. Planning uses up aliases,
and what occurs in the planned nodes occurs in the parts or in a key of groups.

## Main definitions

* `Yields` - planning that uses up aliases, with some property of all that occurs in the nodes.
* `Expr.IsWorded` - expressions that are planned as what may be written for them.

## Main results

* `Lowering.callOn_yields`, `Lowering.valueMember_yields`, `binary_yields` and their neighbours - what occurs in the
  forms of expressions.
* `param_isWorded`, `member_isWorded`, `call_isWorded` and their neighbours - the forms of expressions.
* `Projected.written_object`, `Projected.written_overlay`, `Projected.written_body` - the forms of projections.
-/

namespace LambdaSql

open Planning

/-! ## What occurs in planned nodes -/

/-- Planning that uses up aliases, with some property of all that occurs in the nodes. -/
structure Yields (P : Occurrence → Prop) (around : List Level) (p : Progress) (ns : List Node) (p' : Progress) :
    Prop where
  le : p.nextAlias ≤ p'.nextAlias
  all : ∀ x ∈ nodesOccurrences around ns, P x

/-- An operand that yields nodes with some property from some progress on, in whatever way it is planned. -/
def Operand.Yields (P : Occurrence → Prop) (s : Scope) (p : Progress) (around : List Level) (o : Operand) : Prop :=
  ∀ ⦃q ns q'⦄, p.nextAlias ≤ q.nextAlias → o.Gives s q ns q' → LambdaSql.Yields P around q ns q'

variable {P : Occurrence → Prop} {s : Scope} {roles : Roles} {p q p' : Progress} {around : List Level} {n m : Node}
  {ns ms : List Node}

namespace Yields

/-- No nodes are yielded by nothing. -/
theorem nil : Yields P around p [] p := ⟨le_rfl, nofun⟩

/-- Some of the nodes, or parts of them. -/
theorem of_le (h : Yields P around p ns p') (hle : nodesOccurrences around ms ≤ nodesOccurrences around ns) :
    Yields P around p ms p' :=
  ⟨h.le, fun x hx => h.all x (Multiset.mem_of_le hle hx)⟩

/-- A node made of others. -/
theorem madeOf (h : Yields P around p ns p') (hn : n.MadeOf ns) : Yields P around p [n] p' := by
  refine h.of_le ?_
  rw [nodesOccurrences_cons, nodesOccurrences_nil, add_zero]
  exact hn.le around

/-- A node without columns, like a value. -/
theorem of_madeOf_nil (h : n.MadeOf []) : Yields P around p [n] p := nil.madeOf h

/-- One node, planned without another alias. -/
theorem one (h : ∀ x ∈ n.occurrences around, P x) : Yields P around p [n] p := by
  refine ⟨le_rfl, ?_⟩
  rwa [nodesOccurrences_cons, nodesOccurrences_nil, add_zero]

/-- Planning goes on after what is not used. -/
theorem drop (hle : p.nextAlias ≤ q.nextAlias) (h : Yields P around q ns p') : Yields P around p ns p' :=
  ⟨hle.trans h.le, h.all⟩

/-- What is yielded in turn is yielded together. -/
theorem append (h : Yields P around p ns q) (h' : Yields P around q ms p') : Yields P around p (ns ++ ms) p' := by
  refine ⟨h.le.trans h'.le, ?_⟩
  intro x hx
  rw [nodesOccurrences_append] at hx
  exact (Multiset.mem_add.mp hx).elim (h.all x) (h'.all x)

/-- What there is to choose from in a node. -/
theorem choices (h : Yields P around p [n] p') : Yields P around p (Lowering.choices n) p' := by
  refine h.of_le (le_of_eq ?_)
  rw [Lowering.nodesOccurrences_choices, nodesOccurrences_cons, nodesOccurrences_nil, add_zero]

end Yields

/-- What is drawn from operands occurs in what they yield. -/
theorem Drawn.yields {os : List Operand} (h : Drawn s os q ns p') (hos : ∀ o ∈ os, o.Yields P s p around)
    (hle : p.nextAlias ≤ q.nextAlias) : Yields P around q ns p' := by
  induction h with
  | done => exact .nil
  | drop hmem hgives _ ih =>
    have hdropped := (hos _ hmem hle hgives).le
    exact .drop hdropped (ih hos (hle.trans hdropped))
  | take hperm hgives _ ih =>
    have hmem := fun o ho => hos o (hperm.symm.subset ho)
    have hfirst := hmem _ List.mem_cons_self hle hgives
    exact hfirst.append (ih (fun o ho => hmem o (List.mem_cons_of_mem _ ho)) (hle.trans hfirst.le))

/-- What is drawn from operands is yielded if each operand yields. -/
theorem draws_yields {act : Planning Node} {os : List Operand} (h : act.Draws [] os)
    (hos : ∀ o ∈ os, o.Yields P s p around) (hn : act.Gives s p n p') : LambdaSql.Yields P around p [n] p' := by
  obtain ⟨ns, hdrawn, hmade⟩ := h hn
  exact (hdrawn.yields hos le_rfl).madeOf hmade

/-! ## What occurs in the forms of expressions -/

section Forms

variable {e : Expr} {lower : Planning Node} {o target : Operand} {args : List Operand}

/-- An expression that is planned in one way only. -/
theorem plain_yields (h : ∀ {n}, lower.Gives s p n p' → Yields P around p [n] p')
    (hg : (plainOperand e lower).Gives s p ns p') : Yields P around p ns p' := by
  have folded {n : Node} (hn : (Lowering.folded e lower).Gives s p n p') : Yields P around p [n] p' := by
    obtain ⟨hmade, rfl⟩ | hn := Lowering.folded_or_lowered hn
    · exact .of_madeOf_nil hmade
    · exact h hn
  cases hg with
  | value hv => exact folded hv
  | alternatives ha =>
    simp only [plainOperand, gives_bind, gives_pure] at ha
    obtain ⟨n, q, hn, rfl, rfl⟩ := ha
    exact folded hn
  | selection t hs => cases hs
  | rows t hs => cases hs
  | items hi => cases hi
  | choices _ hv => exact (folded hv).choices

/-- An expression that is planned in one way only uses up aliases. -/
theorem advances_plain (around : List Level)
    (h : ∀ {n}, lower.Gives s p n p' → Yields (fun _ => True) around p [n] p')
    (hg : (plainOperand e lower).Gives s p ns p') : p.nextAlias ≤ p'.nextAlias :=
  (plain_yields h hg).le

/-- A call on a target: on a group, or on a value. -/
theorem Lowering.callOn_yields {method : String} (ht : target.Yields P s p around)
    (hargs : ∀ o ∈ args, o.Yields P s p around)
    (hselect : ∀ {param g o rest n}, target.source = .param param → s.binding? param = some (.grouping g) →
      args = o :: rest → (o.applied (tableBindings g.elements)).Gives s p n p' → Yields P around p [n] p')
    (h : (callOn target method args).Gives s p n p') : Yields P around p [n] p' := by
  obtain ⟨name, g, hsource, hb, hcall⟩ | ⟨-, ns, hdrawn, hmade⟩ := gives_callOn h
  · obtain ⟨-, hmade, rfl⟩ | ⟨o, rest, m, hcons, happlied, hmade⟩ := gives_groupingCall hcall
    · exact .of_madeOf_nil hmade
    · exact (hselect hsource hb hcons happlied).madeOf hmade
  · exact (hdrawn.yields (List.forall_mem_cons.mpr ⟨ht, hargs⟩) le_rfl).madeOf hmade

/-- A member of a value, or of a group's key. -/
theorem Lowering.valueMember_yields {name : String} (ht : target.Yields P s p around)
    (hkeys : ∀ {param key g m}, target.source = .member (.param param) key →
      s.binding? param = some (.grouping g) → g.keys.lookup name = some m → ∀ x ∈ m.occurrences around, P x)
    (h : (valueMember target name).Gives s p n p') : Yields P around p [n] p' := by
  obtain ⟨param, key, g, hsource, -, hb, hlookup, rfl⟩ | ⟨-, ns, hdrawn, hmade⟩ := gives_valueMember h
  · exact .one (hkeys hsource hb hlookup)
  · exact (hdrawn.yields (List.forall_mem_singleton.mpr ht) le_rfl).madeOf hmade

/-- A binary operator, and the alternatives among which the first value that is not null is taken. -/
theorem binary_yields {op : BinaryOp} {left right : Expr} {l r : Operand} (hl : l.Yields P s p around)
    (hr : r.Yields P s p around) (hg : ((Expr.binary op left right).compose [l, r]).Gives s p ns p') :
    Yields P around p ns p' := by
  have both : ∀ o ∈ [l, r], o.Yields P s p around :=
    List.forall_mem_cons.mpr ⟨hl, List.forall_mem_singleton.mpr hr⟩
  have plain {ns : List Node}
      (h : (plainOperand (.binary op left right) (Lowering.binary op l r)).Gives s p ns p') :
      Yields P around p ns p' := plain_yields (fun hn => draws_yields (Lowering.draws_binary op l r) both hn) h
  rw [Expr.compose] at hg
  split at hg
  · cases hg with
    | value hv => exact plain (.value hv)
    | alternatives ha =>
      simp only [gives_bind, gives_pure] at ha
      obtain ⟨ls, q, hls, rs, q', hrs, rfl, rfl⟩ := ha
      have hleft := hl le_rfl (.alternatives hls)
      exact hleft.append (hr hleft.le (.alternatives hrs))
    | selection t hs => cases hs
    | rows t hs => cases hs
    | items hi => cases hi
    | choices hc hv => exact plain (.choices hc hv)
  · exact plain hg

/-- A conversion leaves the columns of a value and of a selection as they are. -/
theorem convert_yields {inner : Expr} {type : HostType} (ho : o.Yields P s p around)
    (hg : ((Expr.convert inner type).compose [o]).Gives s p ns p') : Yields P around p ns p' := by
  have plain {ns : List Node}
      (h : (plainOperand (.convert inner type) (do return (← o.value).retype type)).Gives s p ns p') :
      Yields P around p ns p' := by
    refine plain_yields ?_ h
    intro n hn
    simp only [gives_bind, gives_pure] at hn
    obtain ⟨m, q, hm, rfl, rfl⟩ := hn
    exact (ho le_rfl (.value hm)).madeOf (Node.madeOf_retype type m)
  cases hg with
  | value hv => exact plain (.value hv)
  | alternatives ha => exact plain (.alternatives ha)
  | selection t hs hq => exact ho le_rfl (.selection t hs hq)
  | rows t hs hq => exact ho le_rfl (.rows t hs hq)
  | items hi => cases hi
  | choices hc hv => exact plain (.choices hc hv)

/-- An array yields what its items yield. -/
theorem array_yields {items : List Expr} {os : List Operand} (hos : ∀ o ∈ os, o.Yields P s p around)
    (hg : ((Expr.array items).compose os).Gives s p ns p') : Yields P around p ns p' := by
  have plain {ns : List Node}
      (h : (plainOperand (.array items) (fail .constructionAsValue)).Gives s p ns p') : Yields P around p ns p' :=
    plain_yields (fun hn => absurd hn not_gives_fail) h
  cases hg with
  | value hv => exact plain (.value hv)
  | alternatives ha => exact plain (.alternatives ha)
  | selection t hs => cases hs
  | rows t hs => cases hs
  | items hi hns =>
    cases hi
    exact (Drawn.values hns).yields hos le_rfl
  | choices hc hv => exact plain (.choices hc hv)

/-- An expression without parts has no columns. -/
def Expr.isBarren : Expr → Bool
  | .constant _ | .captured .. | .static .. | .object _ | .lambda .. => true
  | _ => false

/-- An expression without parts yields nothing.

**Proof sketch.** By the form of the expression. Values at hand and static members make a node without parts, and
objects and lambdas make none. -/
theorem barren_yields (he : e.isBarren = true) (hg : (operand e).Gives s p ns p') : Yields P around p ns p' := by
  cases e with
  | constant v =>
    refine plain_yields (fun hn => ?_) hg
    obtain ⟨hmade, rfl⟩ := Lowering.madeOf_atHand hn
    exact .of_madeOf_nil hmade
  | captured name v =>
    refine plain_yields (fun hn => ?_) hg
    obtain ⟨hmade, rfl⟩ := Lowering.madeOf_atHand hn
    exact .of_madeOf_nil hmade
  | static type name =>
    refine plain_yields (fun hn => ?_) hg
    obtain ⟨hmade, rfl⟩ := Lowering.gives_static hn
    exact .of_madeOf_nil hmade
  | object ms => exact plain_yields (fun hn => absurd hn not_gives_fail) hg
  | lambda params body =>
    have plain {ns : List Node} (h : (plainOperand (.lambda params body) (fail .lambdaAsValue)).Gives s p ns p') :
        Yields P around p ns p' := plain_yields (fun hn => absurd hn not_gives_fail) h
    cases hg with
    | value hv => exact plain (.value hv)
    | alternatives ha => exact plain (.alternatives ha)
    | selection t hs => cases hs
    | rows t hs => cases hs
    | items hi => cases hi
    | choices hc hv => exact plain (.choices hc hv)
  | _ => cases he

end Forms

/-! ## Parts -/

/-- What an operand gives has the properties of all that may be written for its part. -/
theorem Part.GivenBy.yields {part : Part} {o : Operand} (h : part.GivenBy s p around o)
    (hP : ∀ ns, part.wording around ns → ∀ x ∈ nodesOccurrences around ns, P x) : o.Yields P s p around := by
  intro q ns q' hle hg
  obtain ⟨hnext, hw⟩ := h.gives hle hg
  exact ⟨hnext, hP ns hw⟩

/-- An operand uses up aliases. -/
theorem Part.GivenBy.advances {part : Part} {o : Operand} (h : part.GivenBy s p around o) :
    o.Yields (fun _ => True) s p around := h.yields fun _ _ _ _ => trivial

/-- Operands that are given by their parts only take aliases. -/
private theorem forall_advances {parts : List Part} {os : List Operand}
    (h : List.Forall₂ (Part.GivenBy s p around) parts os) :
    ∀ o ∈ os, o.Yields (fun _ => True) s p around := by
  induction h with
  | nil => exact nofun
  | cons hfirst _ ih => exact List.forall_mem_cons.mpr ⟨hfirst.advances, ih⟩

/-! ## The forms of expressions -/

/-- An expression is planned as what may be written for it, wherever the parameters of the scope play their roles. -/
def Expr.IsWorded (e : Expr) : Prop :=
  ∀ ⦃s roles around p ns p'⦄, s.Plays p.nextAlias around roles → (operand e).Gives s p ns p' →
    p.nextAlias ≤ p'.nextAlias ∧ e.wording s.compiler roles around ns

/-- An expression that is planned as what may be written for it is given so as a part. -/
theorem Expr.IsWorded.given {e : Expr} (h : e.IsWorded) (ha : s.Plays p.nextAlias around roles) :
    Part.GivenBy s p around ⟨e, e.wording s.compiler roles, none⟩ (operand e) where
  source := operand_source e
  gives := fun hle hg => h (ha.later hle) hg
  selects := nofun

/-- Several arguments are planned as what may be written for them, also as selectors. -/
def AreWorded (es : List Expr) : Prop :=
  ∀ ⦃s roles around p⦄, s.Plays p.nextAlias around roles →
    List.Forall₂ (Part.GivenBy s p around) (itemParts s.compiler roles es) (operands es)

section Worded

variable {e : Expr} {es : List Expr}

/-- Any of several arguments may be a selector. -/
theorem selected_of_mem {c : Compiler} {part : Part} (h : part ∈ itemParts c roles es) :
    ∃ selected, part.selected = some selected := by
  induction es with
  | nil => cases h
  | cons e rest ih =>
    cases e with
    | _ =>
      obtain rfl | h := List.mem_cons.mp h
      · exact ⟨_, rfl⟩
      · exact ih h

/-- The first of several arguments is given as a selector. -/
theorem given_selector {o : Operand} {rest : List Operand}
    (h : List.Forall₂ (Part.GivenBy s p around) (itemParts s.compiler roles es) (operands es))
    (ho : operands es = o :: rest) :
    ∃ (part : Part) (selected : _), part.GivenBy s p around o ∧ part.selected = some selected := by
  rw [ho] at h
  generalize hparts : itemParts s.compiler roles es = parts at h
  cases h with
  | cons hfirst _ =>
    obtain ⟨selected, hselected⟩ := selected_of_mem (hparts ▸ List.mem_cons_self)
    exact ⟨_, selected, hfirst, hselected⟩

/-- An expression that the database computes is planned as it is lowered. -/
theorem gives_plain {lower : Planning Node} (he : ∀ t, e.origin t = .sql) (hc : e.isConditional = false)
    (hg : (plainOperand e lower).Gives s p ns p') : ∃ n, ns = [n] ∧ lower.Gives s p n p' := by
  have lowered {n : Node} (hn : (Lowering.folded e lower).Gives s p n p') : lower.Gives s p n p' := by
    simp only [Lowering.folded, gives_bind, Lowering.gives_origin] at hn
    obtain ⟨_, _, ⟨rfl, rfl⟩, hn⟩ := hn
    rwa [if_pos (he _)] at hn
  cases hg with
  | value hv => exact ⟨_, rfl, lowered hv⟩
  | alternatives ha =>
    simp only [plainOperand, gives_bind, gives_pure] at ha
    obtain ⟨n, q, hn, rfl, rfl⟩ := ha
    exact ⟨n, rfl, lowered hn⟩
  | selection t hs => cases hs
  | rows t hs => cases hs
  | items hi => cases hi
  | choices htrue _ => cases htrue.symm.trans hc

/-- An expression without parts is planned as worded. -/
theorem barren_isWorded (he : e.isBarren = true) : e.IsWorded := by
  intro s roles around p ns p' ha hg
  have hall : Yields (fun _ => True) around p ns p' := barren_yields he hg
  refine ⟨hall.le, ?_⟩
  cases e with
  | constant | captured | static | object | lambda => exact ⟨s, p, p', [], rfl, ha, .nil, hg⟩
  | _ => cases he

/-- A parameter is planned as worded. -/
theorem param_isWorded (name : String) : (Expr.param name).IsWorded := by
  intro s roles around p ns p' ha hg
  obtain ⟨n, rfl, hn⟩ := gives_plain (fun _ => rfl) rfl hg
  obtain ⟨rfl, hw⟩ := Lowering.written_parameter ha hn
  exact ⟨le_rfl, hw⟩

/-- A member of an expression: of a parameter, of a group's key, or of a value. -/
theorem member_isWorded {target : Expr} (ht : target.IsWorded) (name : String) :
    (Expr.member target name).IsWorded := by
  intro s roles around p ns p' ha hg
  have composite (hne : ∀ x, target ≠ .param x) :
      p.nextAlias ≤ p'.nextAlias ∧
        composed s.compiler roles (.member target name) [⟨target, target.wording s.compiler roles, none⟩] around ns := by
    have hpart := ht.given ha
    refine ⟨?_, s, p, p', [operand target], rfl, ha, .cons hpart .nil, hg⟩
    refine advances_plain around (fun hn => ?_) hg
    unfold Lowering.member at hn
    rw [operand_source] at hn
    split at hn
    · next x => exact absurd rfl (hne x)
    · exact Lowering.valueMember_yields hpart.advances (fun _ _ _ _ _ => trivial) hn
  cases target with
  | param x =>
    obtain ⟨n, rfl, hn⟩ := gives_plain (fun _ => rfl) rfl hg
    obtain ⟨rfl, hw⟩ := Lowering.written_parameterMember ha hn
    exact ⟨le_rfl, hw⟩
  | _ => exact composite nofun

/-- A call on a target: on a group, or on a value. -/
theorem call_isWorded {target : Expr} (ht : target.IsWorded) (hes : AreWorded es) (type : Option String)
    (method : String) : (Expr.call (some target) type method es).IsWorded := by
  intro s roles around p ns p' ha hg
  have hpart := ht.given ha
  have hparts := hes ha
  refine ⟨?_, s, p, p', operand target :: operands es, rfl, ha, .cons hpart hparts, hg⟩
  refine advances_plain around (fun hn => ?_) hg
  refine Lowering.callOn_yields hpart.advances (forall_advances hparts) ?_ hn
  intro param g o rest n _ _ hcons happlied
  obtain ⟨part, selected, hpart, hselected⟩ := given_selector hparts hcons
  exact ⟨(hpart.selects hselected le_rfl (cast_outside _) happlied).1, fun _ _ => trivial⟩

/-- A call without a target is planned as worded if its arguments are. -/
theorem callOf_isWorded (hes : AreWorded es) (type : Option String) (method : String) :
    (Expr.call none type method es).IsWorded := by
  intro s roles around p ns p' ha hg
  have hparts := hes ha
  refine ⟨?_, s, p, p', operands es, rfl, ha, hparts, hg⟩
  exact advances_plain around (draws_yields (Lowering.draws_callOf type method _) (forall_advances hparts)) hg

/-- A binary operation is planned as worded if its two sides are. -/
theorem binary_isWorded {left right : Expr} (hl : left.IsWorded) (hr : right.IsWorded) (op : BinaryOp) :
    (Expr.binary op left right).IsWorded := by
  intro s roles around p ns p' ha hg
  have hleft := hl.given ha
  have hright := hr.given ha
  rw [operand] at hg
  exact ⟨(binary_yields hleft.advances hright.advances hg).le, s, p, p', _, rfl, ha,
    .cons hleft (.cons hright .nil), hg⟩

/-- Node by node, a binary operator is written for what is written for its operands. -/
theorem Expr.wording_binary {c : Compiler} {op : BinaryOp} {left right : Expr} (hop : op ≠ .coalesce)
    (he : ∀ t, (Expr.binary op left right).origin t = .sql)
    (h : (Expr.binary op left right).wording c roles around [n]) :
    ∃ m k, left.wording c roles around [m] ∧ right.wording c roles around [k] ∧
      Node.binaryOperator c.dialect op m k = .ok n := by
  obtain ⟨s, p, p', os, rfl, -, hos, hg⟩ := h
  cases hos with
  | @cons _ l _ _ hleft hrest =>
    cases hrest with
    | @cons _ r _ _ hright hrest =>
      cases hrest
      rw [Expr.compose, if_neg hop] at hg
      obtain ⟨_, heq, hn⟩ := gives_plain he rfl hg
      cases heq
      unfold Lowering.binary at hn
      split at hn
      · exact absurd rfl hop
      · simp only [gives_bind, Lowering.gives_dialect, gives_ofExcept] at hn
        obtain ⟨m, q, hm, k, q', hk, _, _, ⟨rfl, rfl⟩, hn, rfl⟩ := hn
        obtain ⟨hle, hwm⟩ := hleft.gives le_rfl (.value hm)
        exact ⟨m, k, hwm, (hright.gives hle (.value hk)).2, hn⟩

/-- A unary operation is planned as worded if its operand is. -/
theorem unary_isWorded {inner : Expr} (h : inner.IsWorded) (op : UnaryOp) : (Expr.unary op inner).IsWorded := by
  intro s roles around p ns p' ha hg
  have hpart := h.given ha
  refine ⟨?_, s, p, p', [operand inner], rfl, ha, .cons hpart .nil, hg⟩
  exact advances_plain around
    (draws_yields (Lowering.draws_unary op _) (List.forall_mem_singleton.mpr hpart.advances)) hg

/-- A conditional is planned as worded if its three parts are. -/
theorem conditional_isWorded {test a b : Expr} (htest : test.IsWorded) (hthen : a.IsWorded) (helse : b.IsWorded) :
    (Expr.conditional test a b).IsWorded := by
  intro s roles around p ns p' ha hg
  have hparts : List.Forall₂ (Part.GivenBy s p around) [⟨test, test.wording s.compiler roles, none⟩,
      ⟨a, a.wording s.compiler roles, none⟩, ⟨b, b.wording s.compiler roles, none⟩]
      [operand test, operand a, operand b] :=
    .cons (htest.given ha) (.cons (hthen.given ha) (.cons (helse.given ha) .nil))
  refine ⟨?_, s, p, p', _, rfl, ha, hparts, hg⟩
  exact advances_plain around (draws_yields (Lowering.draws_conditional _ _ _) (forall_advances hparts)) hg

/-- A conversion is planned as worded if what it converts is. -/
theorem convert_isWorded {inner : Expr} (h : inner.IsWorded) (target : HostType) :
    (Expr.convert inner target).IsWorded := by
  intro s roles around p ns p' ha hg
  have hpart := h.given ha
  exact ⟨(convert_yields hpart.advances hg).le, s, p, p', [operand inner], rfl, ha, .cons hpart .nil, hg⟩

/-- An array is planned as worded if its items are. -/
theorem array_isWorded (hes : AreWorded es) : (Expr.array es).IsWorded := by
  intro s roles around p ns p' ha hg
  have hparts := hes ha
  exact ⟨(array_yields (forall_advances hparts) hg).le, s, p, p', operands es, rfl, ha, hparts, hg⟩

/-- A planned query in an expression, or one that is read as a table, is written as it should be. -/
def IsWorded (q : Query) : Prop :=
  ∀ ⦃s roles around p sel p'⦄, s.Plays p.nextAlias around roles → (planQuery q).Gives s p sel p' →
    p.nextAlias ≤ p'.nextAlias ∧ queryWritten s.compiler roles q around sel

/-- A query in an expression is a selection.

**Proof sketch.** In whatever way the operand is asked for, what is planned is the query as a subquery, with or
without its columns, and that is written as the query is. -/
theorem query_isWorded {q : Query} (h : IsWorded q) : (Expr.query q).IsWorded := by
  intro s roles around p ns p' ha hg
  have selected {sel : Select} {p' : Progress} (hsel : (asSubquery (planQuery q)).Gives s p sel p') :
      p.nextAlias ≤ p'.nextAlias ∧ queryWritten s.compiler roles q around sel := by
    have hsub : Scope.Plays { s with inProjection := false } p.nextAlias around roles := ha
    have hw := h hsub (gives_asSubquery.mp hsel)
    exact hw
  have plain {ns : List Node}
      (hp : (plainOperand (.query q) (Lowering.selection (asSubquery (planQuery q)))).Gives s p ns p') :
      p.nextAlias ≤ p'.nextAlias ∧ ∃ sel t, (ns = [.subquery sel t] ∨
        ns = [.subquery (Lowering.withoutColumns sel) t]) ∧ queryWritten s.compiler roles q around sel := by
    obtain ⟨n, rfl, hn⟩ := gives_plain (fun _ => rfl) rfl hp
    simp only [Lowering.selection, gives_bind, gives_pure] at hn
    obtain ⟨sel, q', hsel, rfl, rfl⟩ := hn
    obtain ⟨hle, hw⟩ := selected hsel
    exact ⟨hle, sel, _, .inl rfl, hw⟩
  cases hg with
  | value hv => exact plain (.value hv)
  | alternatives halt => exact plain (.alternatives halt)
  | selection t hs hq =>
    cases hs
    obtain ⟨hle, hw⟩ := selected hq
    exact ⟨hle, _, t, .inl rfl, hw⟩
  | rows t hs hq =>
    cases hs
    obtain ⟨hle, hw⟩ := selected hq
    exact ⟨hle, _, t, .inr rfl, hw⟩
  | items hi => cases hi
  | choices hc _ => cases hc

end Worded

/-! ## Projections -/

/-- An expression stands for groups if a parameter does, by itself or by its key. -/
theorem gives_keyed {e : Expr} {g? : Option Grouping} (h : (Projected.grouping? e).Gives s p g? p') :
    p' = p ∧ ∀ g, g? = some g ↔ e.keyed?.bind s.binding? = some (.grouping g) := by
  simp only [Projected.grouping?, gives_bind, gives_read] at h
  obtain ⟨scope, _, ⟨rfl, rfl⟩, h⟩ := h
  split at h
  · next g hg =>
    have hkeyed : e.keyed?.bind scope.binding? = some (.grouping g) := hg
    obtain ⟨rfl, rfl⟩ := gives_pure.mp h
    refine ⟨rfl, fun g' => ?_⟩
    rw [hkeyed]
    simp
  · next hne =>
    have hkeyed : ∀ g, e.keyed?.bind scope.binding? ≠ some (.grouping g) := hne
    obtain ⟨rfl, rfl⟩ := gives_pure.mp h
    refine ⟨rfl, fun g' => ?_⟩
    simpa using hkeyed g'

/-- What a parameter that an expression stands for is bound to plays its role. -/
theorem Scope.Plays.keyed {limit : Nat} (ha : s.Plays limit around roles) (e : Expr) :
    Fills s.compiler.options.firstAlias limit around (e.keyed?.bind s.binding?) (e.keyed?.bind roles) := by
  cases e.keyed? with
  | none => exact .unbound
  | some param => exact ha param

namespace Projected

variable {out out' : Projected} {name : String} {e : Expr}

/-- The columns that are selected for what is left for evaluation after fetching. -/
theorem written_hidden {hidden : List HiddenColumn} {columns : List Selected} (ha : s.Plays p.nextAlias around roles)
    (h : (hidden.mapM fun h : HiddenColumn => do
      return (⟨← columnOf h.param h.member, some h.column⟩ : Selected)).Gives s p columns p') :
    p' = p ∧ ∃ nodes, List.Forall₂ (fun h n => roles.wording (Role.fetched h.member) h.param around [n]) hidden nodes ∧
      columns = List.zipWith (fun h n => ⟨n, some (HiddenColumn.column h)⟩) hidden nodes := by
  induction hidden generalizing p columns with
  | nil =>
    obtain ⟨rfl, rfl⟩ := gives_mapM_nil.mp h
    exact ⟨rfl, [], .nil, rfl⟩
  | cons first rest ih =>
    obtain ⟨c, q, others, hc, hrest, rfl⟩ := gives_mapM_cons.mp h
    simp only [gives_bind, gives_pure] at hc
    obtain ⟨n, _, hn, rfl, rfl⟩ := hc
    obtain ⟨rfl, hw⟩ := written_columnOf ha hn
    obtain ⟨rfl, nodes, hnodes, rfl⟩ := ih ha hrest
    exact ⟨rfl, n :: nodes, .cons hw hnodes, rfl⟩

/-- An expression that is left for evaluation after fetching. -/
theorem written_leave (h : (out.leave name e).Gives s p out' p') (ha : s.Plays p.nextAlias around roles) :
    p' = p ∧ leftWritten roles name e around out out' := by
  simp only [leave, gives_bind, gives_pure] at h
  obtain ⟨columns, q, hcolumns, rfl, rfl⟩ := h
  obtain ⟨rfl, nodes, hnodes, rfl⟩ := written_hidden ha hcolumns
  exact ⟨rfl, nodes, hnodes, rfl⟩

/-- An expression is added as it is written, or left for evaluation after fetching. -/
theorem written_added (he : e.IsWorded) (ha : s.Plays p.nextAlias around roles) {push : Projected → Node → Projected}
    (h : (do
      match ← projected (operand e).value with
      | some n => return push out n
      | none => out.leave name (operand e).source).Gives s p out' p') :
    p.nextAlias ≤ p'.nextAlias ∧ addedWritten roles name e (e.wording s.compiler roles) push around out out' := by
  obtain ⟨n?, q, hn, hout⟩ := gives_bind.mp h
  rw [gives_projected] at hn
  obtain ⟨n, rfl, hn⟩ | ⟨rfl, _, _, _, q', -, rfl⟩ := hn
  · obtain ⟨rfl, rfl⟩ := gives_pure.mp hout
    have hprojecting : Scope.Plays { s with inProjection := true } p.nextAlias around roles := ha
    obtain ⟨hle, hw⟩ := he hprojecting (.value hn)
    exact ⟨hle, .inl ⟨n, hw, rfl⟩⟩
  · rw [operand_source] at hout
    have hleave : (out.leave name e).Gives s _ out' p' := hout
    obtain ⟨rfl, hleft⟩ := written_leave hleave ha
    exact ⟨le_rfl, .inr hleft⟩

/-- A member of a projected object is selected, or left for evaluation after fetching. -/
private theorem written_member (he : e.IsWorded) (ha : s.Plays p.nextAlias around roles) {replace : Bool}
    (h : (out.member name (operand e) replace).Gives s p out' p') :
    p.nextAlias ≤ p'.nextAlias ∧
      addedWritten roles name e (e.wording s.compiler roles) (·.push name · replace) around out out' :=
  written_added he ha h

/-- A member of an object that stands for several keys of groups becomes these. -/
theorem memberAdded_keys (ha : s.Plays p.nextAlias around roles) {g : Grouping}
    (hg : e.keyed?.bind s.binding? = some (.grouping g)) (hmany : 1 < g.keys.length) (w : Wording) :
    memberAdded roles name e w around out (out.pushAll g.keys) := by
  have hfills := ha.keyed e
  rw [hg] at hfills
  unfold memberAdded
  generalize e.keyed?.bind roles = role? at hfills
  cases hfills with
  | outside => trivial
  | bound hplays =>
    cases hplays with
    | groups hkeys _ =>
      dsimp only
      rw [if_pos (hkeys.length_eq ▸ hmany)]
      exact ⟨g.keys, hkeys.written, rfl⟩
    | outside => trivial

/-- Any other member of an object is added by itself. -/
theorem memberAdded_of_added (ha : s.Plays p.nextAlias around roles)
    (hg : ∀ g, e.keyed?.bind s.binding? = some (.grouping g) → ¬ 1 < g.keys.length) {w : Wording}
    (h : addedWritten roles name e w (·.push name · false) around out out') :
    memberAdded roles name e w around out out' := by
  have hfills := ha.keyed e
  unfold memberAdded
  generalize e.keyed?.bind s.binding? = b?, e.keyed?.bind roles = role? at hg hfills
  cases hfills with
  | unbound => exact h
  | outside => trivial
  | bound hplays =>
    cases hplays with
    | table _ | bare _ _ => exact h
    | groups hkeys _ =>
      dsimp only
      rw [if_neg (hkeys.length_eq ▸ hg _ rfl)]
      exact h
    | outside => trivial

/-- The members of an object.

**Proof sketch.** By induction on the members. A member that is the key of groups with several keys adds these, and
every other one is added under its name as it is worded. -/
theorem written_object {ms : List (String × Expr)} (hms : ∀ m ∈ ms, m.2.IsWorded)
    (ha : s.Plays p.nextAlias around roles) (h : (out.object (members ms)).Gives s p out' p') :
    p.nextAlias ≤ p'.nextAlias ∧ objectWritten s.compiler roles ms around out out' := by
  induction ms generalizing out p with
  | nil =>
    obtain ⟨rfl, rfl⟩ := gives_pure.mp h
    exact ⟨le_rfl, rfl⟩
  | cons m rest ih =>
    obtain ⟨name, e⟩ := m
    have he : e.IsWorded := hms _ List.mem_cons_self
    have hrest := fun m hm => hms m (List.mem_cons_of_mem _ hm)
    rw [members, object] at h
    obtain ⟨g?, q, hg, hobject⟩ := gives_bind.mp h
    rw [operand_source] at hg
    obtain ⟨rfl, hiff⟩ := gives_keyed hg
    have added (hone : ∀ g, e.keyed?.bind s.binding? = some (.grouping g) → ¬ 1 < g.keys.length)
        (hq : (do object (← out.member name (operand e) false) (members rest) : Planning _).Gives s q out' p') :
        q.nextAlias ≤ p'.nextAlias ∧ objectWritten s.compiler roles ((name, e) :: rest) around out out' := by
      obtain ⟨mid, q', hmid, hothers⟩ := gives_bind.mp hq
      obtain ⟨hle, hadded⟩ := written_member he ha hmid
      obtain ⟨hle', hw⟩ := ih hrest (ha.later hle) hothers
      exact ⟨hle.trans hle', mid, memberAdded_of_added ha hone hadded, hw⟩
    split at hobject
    · next g =>
      have hbound := (hiff g).mp rfl
      split at hobject
      · next hmany =>
        obtain ⟨hle, hw⟩ := ih hrest ha hobject
        exact ⟨hle, _, memberAdded_keys ha hbound hmany _, hw⟩
      · next hone =>
        refine added (fun g' hg' => ?_) hobject
        cases hbound.symm.trans hg'
        exact hone
    · exact added (fun g hg => absurd ((hiff g).mpr hg).symm (Option.some_ne_none g)) hobject

/-- The members of an object that is laid over a projection. -/
theorem written_overlay {ms : List (String × Expr)} (hms : ∀ m ∈ ms, m.2.IsWorded)
    (ha : s.Plays p.nextAlias around roles) (h : (out.overlay (members ms)).Gives s p out' p') :
    p.nextAlias ≤ p'.nextAlias ∧ overlayWritten s.compiler roles ms around out out' := by
  induction ms generalizing out p with
  | nil =>
    obtain ⟨rfl, rfl⟩ := gives_pure.mp h
    exact ⟨le_rfl, rfl⟩
  | cons m rest ih =>
    obtain ⟨name, e⟩ := m
    obtain ⟨mid, q, hmid, hoverlay⟩ := gives_bind.mp h
    obtain ⟨hle, hadded⟩ := written_member (hms _ List.mem_cons_self) ha hmid
    obtain ⟨hle', hw⟩ := ih (fun m hm => hms m (List.mem_cons_of_mem _ hm)) (ha.later hle) hoverlay
    exact ⟨hle.trans hle', mid, hadded, hw⟩

/-- A projection that builds no object: the keys of groups, a whole row, or an expression.

**Proof sketch.** By whether the body is the key of groups, a parameter, or neither. Keys and the columns of a table
are those of the role that the parameter plays, and any other body is added as it is worded. -/
theorem written_body (he : e.IsWorded) (ha : s.Plays p.nextAlias around roles)
    (h : (out.body (operand e)).Gives s p out' p') :
    p.nextAlias ≤ p'.nextAlias ∧ bodyWritten roles e (e.wording s.compiler roles) around out out' := by
  obtain ⟨g?, q, hg, hbody⟩ := gives_bind.mp h
  rw [operand_source] at hg hbody
  obtain ⟨rfl, hiff⟩ := gives_keyed hg
  have hfills := ha.keyed e
  unfold bodyWritten
  cases g? with
  | some g =>
    obtain ⟨rfl, rfl⟩ := gives_pure.mp hbody
    rw [(hiff g).mp rfl] at hfills
    generalize e.keyed?.bind roles = role? at hfills
    refine ⟨le_rfl, ?_⟩
    cases hfills with
    | outside => trivial
    | bound hplays =>
      cases hplays with
      | groups hkeys _ => exact ⟨g.keys, hkeys.written, rfl⟩
      | outside => trivial
  | none =>
    have hnone : ∀ g, e.keyed?.bind s.binding? ≠ some (.grouping g) :=
      fun g hg => absurd ((hiff g).mpr hg).symm (Option.some_ne_none g)
    dsimp only at hbody
    split at hbody
    · next param =>
      simp only [gives_bind, gives_lookup] at hbody
      obtain ⟨b, _, ⟨hb, rfl⟩, hbody⟩ := hbody
      have hkeyed : (Expr.param param).keyed?.bind s.binding? = some b := hb
      rw [hkeyed] at hfills hnone
      cases b with
      | table t =>
        obtain ⟨rfl, rfl⟩ := gives_pure.mp hbody
        refine ⟨le_rfl, ?_⟩
        generalize (Expr.param param).keyed?.bind roles = role? at hfills
        cases hfills with
        | outside => trivial
        | bound hplays =>
          cases hplays with
          | table ht => exact ⟨t.columns, ht.row, rfl⟩
          | bare hnone hshape => exact congrArg out.pushAll (t.columns_bare hnone hshape)
          | outside => trivial
      | grouping g => exact absurd rfl (hnone g)
    · next hne =>
      have hscalar : (out.scalar (operand e)).Gives s q out' p' := hbody
      unfold scalar at hscalar
      obtain ⟨hle, hadded⟩ := written_added he ha hscalar
      refine ⟨hle, ?_⟩
      rw [operand_source] at hadded
      generalize e.keyed?.bind s.binding? = b?, e.keyed?.bind roles = role? at hfills hnone
      cases hfills with
      | unbound => exact hadded
      | outside => trivial
      | bound hplays =>
        cases hplays with
        | table _ | bare _ _ =>
          cases e with
          | param param => exact absurd rfl (hne param)
          | _ => exact hadded
        | groups _ _ => exact absurd rfl (hnone _)
        | outside => trivial

/-- A projection of all columns: the keys of the groups, or the columns of the first table. -/
theorem written_whole {tables : List TableBinding} {places : List TablePlace} {first : Char} {limit : Nat}
    (ht : List.Forall₂ (TableBinding.Plays first limit around) tables places) (hsome : tables ≠ [])
    {grouping : Option Grouping} {keys : Option (List (String × Wording))}
    (hk : Option.Rel (fun g ks => KeysPlay first limit around (Grouping.keys g) ks) grouping keys) :
    wholeWritten places keys around {} (whole tables grouping) := by
  cases hk with
  | some hk => exact ⟨_, hk.written, rfl⟩
  | none =>
    cases ht with
    | nil => exact absurd rfl hsome
    | cons ht _ => exact ⟨_, rfl, _, ht.row, rfl⟩

end Projected

end LambdaSql
