import LambdaSql.Proofs.Fetching.Deferral
import LambdaSql.Proofs.Nesting.Abandoned

/-!
# Expressions left for evaluation that cannot be evaluated

An expression is left for evaluation after fetching at the first call that has to wait, before the rest of it has been
looked at. So it may contain what only the database can evaluate: a query, a whole row, its clock, and the functions
that stand for SQL. Where evaluation is bound to come to one of these, there is a value on no row. What is projected and
contains no call that may have to wait is planned, or the query is not compiled.

## Main definitions

* `Expr.Foreign` - what the host does not evaluate.
* `Expr.constructs` - the constructs of an expression, and those that evaluating it is bound to come to.
* `QueryOf.projected` - the expressions that a query projects.
* `Projected.Settled` - operands that were planned or left.
* `Expr.Planned` - an expression has a form in the database.

## Main results

* `Host.evaluate_certain` - evaluation has no value where it is bound to come to what has none.
* `Projected.settled_planProjection` - all that is projected is planned or left.
* `Compiler.left_expressions` - the expressions that a compiled query leaves for evaluation after fetching.
-/

namespace LambdaSql

open Planning

/-! ## What the host does not evaluate -/

/-- Whether an operator may have a value without its right operand. -/
def BinaryOp.skips : BinaryOp → Bool
  | .and | .or | .coalesce => true
  | _ => false

mutual

/-- The constructs of an expression, queries aside; if `certain`, only those that evaluating it is bound to come to. A
parameter is a construct where it stands by itself, as a whole row, but not where a member of it is read. -/
def Expr.constructs (certain : Bool) : Expr → List Expr
  | e@(.member (.param _) _) => [e]
  | e@(.member operand _) | e@(.unary _ operand) | e@(.convert operand _) => e :: operand.constructs certain
  | e@(.binary op left right) =>
    e :: (left.constructs certain ++ if certain && op.skips then [] else right.constructs certain)
  | e@(.conditional test ifTrue ifFalse) =>
    e :: (test.constructs certain ++
      if certain then [] else ifTrue.constructs certain ++ ifFalse.constructs certain)
  | e@(.array items) => e :: itemsConstructs certain items
  | e@(.object members) => e :: membersConstructs certain members
  | e@(.call (some target) _ _ args) => e :: (target.constructs certain ++ itemsConstructs certain args)
  | e@(.call none _ _ args) => e :: itemsConstructs certain args
  | e@(.lambda ..) | e@(.param _) | e@(.static ..) | e@(.constant _) | e@(.captured ..) | e@(.query _) => [e]

/-- The constructs of several expressions. -/
def itemsConstructs (certain : Bool) : List Expr → List Expr
  | [] => []
  | e :: rest => e.constructs certain ++ itemsConstructs certain rest

/-- The constructs of several members. -/
def membersConstructs (certain : Bool) : List (String × Expr) → List Expr
  | [] => []
  | (_, e) :: rest => e.constructs certain ++ membersConstructs certain rest

end

/-- A construct that the host does not evaluate: a query, a whole row, a lambda, a member of a type that only the
database knows, and a function that stands for SQL. Whether two values are equal is asked of any type. -/
def Expr.Foreign : Expr → Prop
  | .query _ | .param _ | .lambda .. | .call none none _ _ => True
  | .static type name => Host.constantOf type name = none
  | .call none (some type) method args => type = "Sql" ∧ ¬(method = "Equals" ∧ args.length = 2)
  | _ => False

namespace Host

variable {b : Bindings} {α β : Type}

/-- A member of no parameter is a construct beside those of its target. -/
private theorem constructs_member {target : Expr} (h : ∀ p, target ≠ .param p) (certain : Bool) (name : String) :
    (Expr.member target name).constructs certain = .member target name :: target.constructs certain := by
  cases target with
  | param p => exact absurd rfl (h p)
  | _ => rw [Expr.constructs]; exact nofun

/-- Where the second of two steps has a value, the first one has. -/
theorem ok_of_bind {x : Evaluation α} {f : α → Evaluation β} (h : ∃ v, (x >>= f) = .ok v) : ∃ a, x = .ok a := by
  obtain ⟨v, h⟩ := h
  obtain ⟨a, ha, -⟩ := Except.bind_eq_ok.mp h
  exact ⟨a, ha⟩

/-- Evaluated items are as many as the items. -/
private theorem length_evaluateItems {es : List Expr} {vs : List Value} (h : evaluateItems b es = .ok vs) :
    vs.length = es.length := by
  induction es generalizing vs with
  | nil =>
    cases h
    rfl
  | cons e rest ih =>
    obtain ⟨v, -, h⟩ := Except.bind_eq_ok.mp h
    obtain ⟨vs, hrest, heq⟩ := Except.bind_eq_ok.mp h
    cases heq
    exact congrArg (· + 1) (ih hrest)

/-- **What the host does not evaluate** has a value on no row.

**Proof sketch.** By the form of the expression. A call of a type other than those of the host fails whatever its
arguments are. -/
theorem not_ok_of_foreign {x : Expr} (hx : x.Foreign) : ¬∃ v, evaluate b x = .ok v := by
  rintro ⟨v, hv⟩
  cases x with
  | query _ | param _ | lambda _ _ => cases hv
  | static type name =>
    rw [evaluate, show constantOf type name = none from hx] at hv
    cases hv
  | call target type method args =>
    obtain _ | target := target
    · obtain _ | type := type
      · obtain ⟨_, -, h⟩ := Except.bind_eq_ok.mp hv
        cases h
      · obtain ⟨rfl, hequals⟩ := hx
        obtain ⟨vs, hvs, h⟩ := Except.bind_eq_ok.mp hv
        rw [← length_evaluateItems hvs] at hequals
        unfold callOf at h
        split at h
        · exact hequals ⟨rfl, rfl⟩
        · simp [callOfTyped, Evaluation.unevaluable] at h
    · exact hx
  | _ => exact hx

mutual

/-- **Evaluation has no value where it is bound to come to what has none**, by induction on the expression.

**Proof sketch.** An operand is bound to be evaluated where the outcome needs its value whatever the other ones are:
both sides of an operator that skips none, the condition of a choice, and all arguments of a call. -/
theorem evaluate_certain : ∀ e : Expr, (∃ v, evaluate b e = .ok v) →
    ∀ x ∈ e.constructs true, ∃ v, evaluate b x = .ok v
  | .member target name, h => by
    by_cases hp : ∃ p, target = .param p
    · obtain ⟨p, rfl⟩ := hp
      rw [Expr.constructs]
      exact List.forall_mem_singleton.mpr h
    · have hne := fun p hp' => hp ⟨p, hp'⟩
      rw [constructs_member hne]
      rw [evaluate_member hne] at h
      exact List.forall_mem_cons.mpr ⟨by rwa [evaluate_member hne], evaluate_certain target (ok_of_bind h)⟩
  | .unary op operand, h | .convert operand _, h => by
    rw [Expr.constructs]
    refine List.forall_mem_cons.mpr ⟨h, evaluate_certain operand ?_⟩
    rw [evaluate] at h
    exact ok_of_bind h
  | .binary op left right, h => by
    rw [Expr.constructs]
    refine List.forall_mem_cons.mpr ⟨h, List.forall_mem_append.mpr ⟨evaluate_certain left ?_, ?_⟩⟩
    · cases op <;> rw [evaluate] at h <;> first | exact ok_of_bind h | nofun
    · split
      · exact nofun
      · next hskips =>
        refine evaluate_certain right ?_
        obtain ⟨v, h⟩ := h
        cases op with
        | and | or | coalesce => exact absurd rfl hskips
        | _ =>
          rw [evaluate] at h
          · obtain ⟨l, -, h⟩ := Except.bind_eq_ok.mp h
            exact ok_of_bind ⟨v, h⟩
          all_goals nofun
  | .conditional test ifTrue ifFalse, h => by
    rw [Expr.constructs]
    rw [if_pos rfl, List.append_nil]
    refine List.forall_mem_cons.mpr ⟨h, evaluate_certain test ?_⟩
    rw [evaluate] at h
    exact ok_of_bind h
  | .array items, h => by
    rw [Expr.constructs]
    refine List.forall_mem_cons.mpr ⟨h, evaluateItems_certain items ?_⟩
    rw [evaluate] at h
    exact ok_of_bind h
  | .object members, h => by
    rw [Expr.constructs]
    refine List.forall_mem_cons.mpr ⟨h, evaluateMembers_certain members ?_⟩
    rw [evaluate] at h
    exact ok_of_bind h
  | .call (some target) _ _ args, h => by
    rw [Expr.constructs]
    obtain ⟨v, hv⟩ := h
    have hcall := hv
    rw [evaluate] at hcall
    obtain ⟨vs, hvs, hcall⟩ := Except.bind_eq_ok.mp hcall
    exact List.forall_mem_cons.mpr ⟨⟨v, hv⟩, List.forall_mem_append.mpr
      ⟨evaluate_certain target (ok_of_bind ⟨v, hcall⟩), evaluateItems_certain args ⟨vs, hvs⟩⟩⟩
  | .call none (some _) _ args, h | .call none none _ args, h => by
    rw [Expr.constructs]
    refine List.forall_mem_cons.mpr ⟨h, evaluateItems_certain args ?_⟩
    rw [evaluate] at h
    exact ok_of_bind h
  | .lambda .., h | .param _, h | .static .., h | .constant _, h | .captured .., h | .query _, h => by
    rw [Expr.constructs]
    exact List.forall_mem_singleton.mpr h

/-- If items have values, so has every construct in them that is certain to be evaluated. -/
private theorem evaluateItems_certain : ∀ es : List Expr, (∃ vs, evaluateItems b es = .ok vs) →
    ∀ x ∈ itemsConstructs true es, ∃ v, evaluate b x = .ok v
  | [], _ => nofun
  | e :: rest, h => by
    obtain ⟨vs, h⟩ := h
    rw [evaluateItems] at h
    obtain ⟨v, hv, h⟩ := Except.bind_eq_ok.mp h
    rw [itemsConstructs]
    exact List.forall_mem_append.mpr ⟨evaluate_certain e ⟨v, hv⟩, evaluateItems_certain rest (ok_of_bind ⟨vs, h⟩)⟩

/-- If members have values, so has every construct in them that is certain to be evaluated. -/
private theorem evaluateMembers_certain : ∀ ms : List (String × Expr), (∃ vs, evaluateMembers b ms = .ok vs) →
    ∀ x ∈ membersConstructs true ms, ∃ v, evaluate b x = .ok v
  | [], _ => nofun
  | (_, e) :: rest, h => by
    obtain ⟨vs, h⟩ := h
    rw [evaluateMembers] at h
    obtain ⟨v, hv, h⟩ := Except.bind_eq_ok.mp h
    rw [membersConstructs]
    exact List.forall_mem_append.mpr ⟨evaluate_certain e ⟨v, hv⟩, evaluateMembers_certain rest (ok_of_bind ⟨vs, h⟩)⟩

end

end Host

/-- What is left for evaluation after fetching has a value on no row if evaluation is bound to come to what the host
does not evaluate. -/
theorem Deferred.not_ok_of_foreign {d : Deferred} {x : Expr} (hx : x ∈ d.expr.constructs true) (hforeign : x.Foreign)
    (r : Row) : ¬∃ v, d.evaluate r = .ok v := by
  rintro ⟨v, hv⟩
  unfold Deferred.evaluate at hv
  split at hv
  · cases hv
  · next b _ =>
    split at hv
    · next w hw => exact Host.not_ok_of_foreign hforeign (Host.evaluate_certain d.expr ⟨w, hw⟩ x hx)
    · cases hv
    · cases hv

/-! ## What is planned and what is left -/

/-- The expressions that the body of a projection consists of: the members of an object, or a single one. -/
def Expr.members : Expr → List Expr
  | .object ms => ms.map Prod.snd
  | e => [e]

/-- The expressions that a query projects. -/
def QueryOf.projected (q : Query) : List Expr :=
  match q.projection with
  | none => []
  | some (.select l) | some (.flatten l) => l.body.members

/-- An expression that builds no object is its only member. -/
private theorem Expr.members_eq {e : Expr} (h : ∀ ms, e ≠ .object ms) : e.members = [e] := by
  cases e with
  | object ms => exact absurd rfl (h ms)
  | _ => rfl

/-- An expression that may stand for a row or for the keys of a group as a whole. -/
def Expr.Whole : Expr → Prop
  | .param _ => True
  | .member (.param _) name => isKeyMember name = true
  | _ => False

/-- An expression that a query projects as a whole: the keys of its groups, or a row that is all that it projects. -/
def QueryOf.ProjectsWhole (q : Query) (e : Expr) : Prop :=
  e.Whole ∧ (q.groupBy.isSome = true ∨ ∃ params param, q.projection = some (.select ⟨params, .param param⟩))

namespace Projected

variable {whole : Expr → Prop} {s : Scope} {p p' : Progress} {out mid out' : Projected} {o : Operand}
  {os : List Operand} {name : String}

/-- A projection goes on by operands, each of which was planned, unless it stands for all there is, or left because
planning it waits. Nothing else was left. -/
structure Settled (whole : Expr → Prop) (s : Scope) (os : List Operand) (out out' : Projected) : Prop where
  left : ∀ d ∈ out'.deferred, d ∈ out.deferred ∨ ∃ o ∈ os, d.expr = o.source ∧
    ∃ p q, o.value.Waits { s with inProjection := true } p q
  settled : ∀ o ∈ os, whole o.source ∨ (∃ p n q, o.value.Gives { s with inProjection := true } p n q) ∨
    ∃ d ∈ out'.deferred, d.expr = o.source
  kept : out.deferred ⊆ out'.deferred

namespace Settled

/-- Nothing is added by no operands. -/
theorem refl (whole : Expr → Prop) (s : Scope) (out : Projected) : Settled whole s [] out out :=
  ⟨fun _ hd => .inl hd, nofun, fun _ hd => hd⟩

/-- One operand after another. -/
theorem cons (h : Settled whole s [o] out mid) (hrest : Settled whole s os mid out') :
    Settled whole s (o :: os) out out' where
  left d hd := by
    obtain hd | ⟨o', ho', heq⟩ := hrest.left d hd
    · obtain hd | ⟨o', ho', heq⟩ := h.left d hd
      · exact .inl hd
      · exact .inr ⟨o', List.mem_singleton.mp ho' ▸ List.mem_cons_self, heq⟩
    · exact .inr ⟨o', List.mem_cons_of_mem _ ho', heq⟩
  settled := by
    refine List.forall_mem_cons.mpr ⟨?_, hrest.settled⟩
    refine (h.settled o (List.mem_singleton_self o)).imp id (.imp id ?_)
    rintro ⟨d, hd, heq⟩
    exact ⟨d, hrest.kept hd, heq⟩
  kept := List.Subset.trans h.kept hrest.kept

/-- What stands for all there is adds columns. -/
theorem of_whole (ho : whole o.source) (h : out'.deferred = out.deferred) : Settled whole s [o] out out' where
  left _ hd := .inl (h ▸ hd)
  settled := List.forall_mem_singleton.mpr (.inl ho)
  kept _ hd := h ▸ hd

/-- A projected expression is planned, or left because planning it waits. -/
theorem of_gives {push : Node → Projected} (hpush : ∀ n, (push n).deferred = out.deferred)
    (h : Planning.Gives (do
      match ← projected o.value with
      | some n => return push n
      | none => out.leave name o.source) s p out' p') : Settled whole s [o] out out' := by
  obtain ⟨n?, q, hn, hout⟩ := gives_bind.mp h
  obtain ⟨n, rfl, hgives⟩ | ⟨rfl, r, hwaits, rfl⟩ := cases_of_projected hn
  · obtain ⟨rfl, rfl⟩ := gives_pure.mp hout
    exact ⟨fun _ hd => .inl (hpush n ▸ hd), List.forall_mem_singleton.mpr (.inr (.inl ⟨_, n, _, hgives⟩)),
      fun _ hd => hpush n ▸ hd⟩
  · simp only [leave, gives_bind, gives_pure] at hout
    obtain ⟨columns, _, -, rfl, -⟩ := hout
    refine ⟨fun d hd => ?_, List.forall_mem_singleton.mpr (.inr (.inr ⟨_, List.mem_append_right _
      (List.mem_singleton_self _), rfl⟩)), fun d hd => List.mem_append_left _ hd⟩
    obtain hd | hd := List.mem_append.mp hd
    · exact .inl hd
    · obtain rfl := List.mem_singleton.mp hd
      exact .inr ⟨o, List.mem_singleton_self o, rfl, p, r, hwaits⟩

end Settled

/-- A member that is added to a projection is lowered or left. -/
private theorem settled_member {replace : Bool} (h : (out.member name o replace).Gives s p out' p') :
    Settled whole s [o] out out' :=
  .of_gives (fun n => deferred_push out name n replace) h

/-- What stands for the keys of groups is whole. -/
private theorem whole_of_grouping? {e : Expr} {g : Grouping} (h : (grouping? e).Gives s p (some g) p') : e.Whole := by
  obtain ⟨-, hg⟩ := gives_grouping? h
  obtain ⟨param, -, rfl | ⟨key, hkey, rfl⟩⟩ := hg g rfl
  · trivial
  · exact hkey

/-- An expression stands for the keys of groups only under a lambda over groups. -/
theorem isSome_of_grouping? {c : Compiler} {params : List String} {tables : List TableBinding}
    {grouping : Option Grouping} {e : Expr} {g : Grouping}
    (h : (grouping? e).Gives { compiler := c, frames := [frame params (projectedBindings tables grouping)] } p (some g) p') :
    grouping.isSome = true := by
  cases grouping with
  | some _ => rfl
  | none =>
    obtain ⟨-, hg⟩ := gives_grouping? h
    obtain ⟨param, hbinding, -⟩ := hg g rfl
    obtain ⟨f, hf, hlookup⟩ := List.exists_of_findSome?_eq_some hbinding
    obtain rfl := List.mem_singleton.mp hf
    obtain ⟨before, after, heq, -⟩ := List.lookup_eq_some_iff.mp hlookup
    have hmem : (param, Binding.grouping g) ∈ frame params (tableBindings tables) := by
      rw [show frame params (tableBindings tables) = _ from heq]
      exact List.mem_append_right before List.mem_cons_self
    obtain ⟨t, -, ht⟩ := List.mem_map.mp (List.of_mem_zip (List.mem_reverse.mp hmem)).2
    cases ht

/-- The members of a projected object are whole, lowered or left. -/
private theorem settled_object {named : List (String × Operand)}
    (hwhole : ∀ {e g p p'}, (grouping? e).Gives s p (some g) p' → whole e) (h : (out.object named).Gives s p out' p') :
    Settled whole s (named.map Prod.snd) out out' := by
  induction named generalizing out p with
  | nil =>
    obtain ⟨rfl, -⟩ := gives_pure.mp h
    exact .refl whole s _
  | cons m rest ih =>
    obtain ⟨name, o⟩ := m
    obtain ⟨g?, q, hg, hobject⟩ := gives_bind.mp h
    split at hobject
    · split at hobject
      · exact (Settled.of_whole (hwhole hg) (deferred_pushAll ..)).cons (ih hobject)
      · obtain ⟨mid, _, hmid, hrest⟩ := gives_bind.mp hobject
        exact (settled_member hmid).cons (ih hrest)
    · obtain ⟨mid, _, hmid, hrest⟩ := gives_bind.mp hobject
      exact (settled_member hmid).cons (ih hrest)

/-- The members of an object that is laid over a projection are lowered or left. -/
private theorem settled_overlay {named : List (String × Operand)} (h : (out.overlay named).Gives s p out' p') :
    Settled whole s (named.map Prod.snd) out out' := by
  induction named generalizing out p with
  | nil =>
    obtain ⟨rfl, -⟩ := gives_pure.mp h
    exact .refl whole s _
  | cons m rest ih =>
    obtain ⟨name, o⟩ := m
    obtain ⟨mid, q, hmid, hoverlay⟩ := gives_bind.mp h
    exact (settled_member hmid).cons (ih hoverlay)

/-- A projection that builds no object is whole, lowered or left. -/
private theorem settled_body (hwhole : ∀ {e g p p'}, (grouping? e).Gives s p (some g) p' → whole e)
    (hparam : ∀ param, o.source = .param param → whole o.source) (h : (out.body o).Gives s p out' p') :
    Settled whole s [o] out out' := by
  obtain ⟨g?, q, hg, hbody⟩ := gives_bind.mp h
  split at hbody
  · obtain ⟨rfl, -⟩ := gives_pure.mp hbody
    exact .of_whole (hwhole hg) (deferred_pushAll ..)
  · split at hbody
    · next param hsource =>
      obtain ⟨b, _, -, hcolumns⟩ := gives_bind.mp hbody
      split at hcolumns <;> obtain ⟨rfl, -⟩ := gives_pure.mp hcolumns <;>
        exact .of_whole (hparam param hsource) (deferred_pushAll ..)
    · exact @Settled.of_gives whole s _ _ out out' o _ out.pushScalar (fun _ => rfl) hbody

/-- **All that is projected is planned or left.**

**Proof sketch.** The operands of the projection are gone through one by one. A member is planned, or left where
planning gives up at a call that waits; the keys of groups and a row that is projected by itself are selected without
being planned. -/
theorem settled_planProjection {c : Compiler} {q : Query} {tables : List TableBinding} {grouping : Option Grouping}
    (hgroups : grouping.isSome = true → q.groupBy.isSome = true)
    (h : (planProjection tables (projectedBindings tables grouping) grouping q.projection).Gives { compiler := c } p out p') :
    ∃ start frames, start.deferred = [] ∧
      Settled q.ProjectsWhole { compiler := c, frames := frames } (q.projected.map operand) start out := by
  have hmembers (ms : List (String × Expr)) : (members ms).map Prod.snd = (ms.map Prod.snd).map operand := by
    induction ms with
    | nil => rfl
    | cons m rest ih => rw [members, List.map_cons, List.map_cons, List.map_cons, ih]
  have hwhole (params : List String) {e : Expr} {g : Grouping} {p p' : Progress}
      (hg : (grouping? e).Gives
        { compiler := c, frames := [frame params (projectedBindings tables grouping)] } p (some g) p') :
      q.ProjectsWhole e :=
    ⟨whole_of_grouping? hg, .inl (hgroups (isSome_of_grouping? hg))⟩
  unfold QueryOf.projected
  cases hprojection : q.projection with
  | none =>
    rw [hprojection] at h
    obtain ⟨rfl, -⟩ := gives_pure.mp h
    refine ⟨_, [], ?_, .refl _ _ _⟩
    cases grouping <;> exact deferred_pushAll ..
  | some projection =>
    rw [hprojection] at h
    cases projection with
    | select l =>
      obtain ⟨params, body⟩ := l
      by_cases hbody : ∃ ms, body = .object ms
      · obtain ⟨ms, rfl⟩ := hbody
        simp only [planProjection, gives_withFrame] at h
        exact ⟨{}, _, rfl, hmembers ms ▸ settled_object (hwhole params) h.2⟩
      · have hplan : planProjection tables (projectedBindings tables grouping) grouping (some (.select ⟨params, body⟩)) =
            withFrame params (projectedBindings tables grouping) (Projected.body {} (operand body)) := by
          rw [planProjection]
          exact fun ms hms => hbody ⟨ms, hms⟩
        rw [hplan, gives_withFrame] at h
        refine ⟨{}, [frame params (projectedBindings tables grouping)], rfl, ?_⟩
        have hrow (param : String) (hparam : (operand body).source = .param param) :
            q.ProjectsWhole (operand body).source := by
          rw [operand_source] at hparam ⊢
          subst hparam
          exact ⟨trivial, .inr ⟨params, param, hprojection⟩⟩
        show Settled _ _ (body.members.map operand) _ _
        rw [Expr.members_eq fun ms hms => hbody ⟨ms, hms⟩]
        exact settled_body (hwhole params) hrow h.2
    | flatten l =>
      obtain ⟨params, body⟩ := l
      cases body with
      | object ms =>
        simp only [planProjection, gives_withFrame] at h
        exact ⟨.whole tables none, _, deferred_pushAll .., hmembers ms ▸ settled_overlay h.2⟩
      | _ => simp [planProjection] at h

end Projected

/-- Only a query with a grouping has groups. -/
theorem Query.Opens.groupBy {c : Compiler} {q : Query} {tables : List TableBinding} {grouping : Option Grouping}
    {p : Progress} (h : q.Opens c tables grouping p) (hsome : grouping.isSome = true) : q.groupBy.isSome = true := by
  obtain ⟨source, table, first, joined, tests, keys, p₁, p₂, p₃, p₄, -, -, -, -, hkeys, rfl⟩ := h
  cases hgroup : q.groupBy with
  | some _ => rfl
  | none =>
    rw [hgroup] at hkeys
    obtain ⟨rfl, -⟩ := gives_pure.mp hkeys
    cases hsome

/-! ## Compiled queries -/

/-- An expression has a form in the database somewhere in a projection. -/
def Expr.Planned (c : Compiler) (e : Expr) : Prop :=
  ∃ s p n q, s.compiler = c ∧ s.inProjection = true ∧ (operand e).value.Gives s p n q

/-- **What a compiled query leaves for evaluation after fetching.** Each expression is one that the query projects, and
it contains a call that may have to wait. If evaluation is bound to come to what the host does not evaluate, there is a
value on no row. Every other expression that the query projects was planned, unless it stands for all keys of the
query's groups or is a row that is projected by itself. So if the host evaluates all constructs of the projected
expressions with a call that may have to wait, it does those of all that is left, and an expression with anything else
was planned, or the query would not have been compiled.

**Proof sketch.** Member by member, a projection plans an expression or leaves it when planning gives up at a call that
has to wait. An expression stands for keys only where a parameter is bound to groups, and the lambda of a projection is
over groups only if the query has a grouping. -/
theorem Compiler.left_expressions {c : Compiler} {q : Query} {out : Compiled} (h : c.select q = .ok out) :
    (∀ d ∈ out.deferred, d.expr ∈ q.projected ∧ d.expr.MayWait c.translations ∧
      ∀ x ∈ d.expr.constructs true, x.Foreign → ∀ r, ¬∃ v, d.evaluate r = .ok v) ∧
    (∀ e ∈ q.projected, ¬e.MayWait c.translations → q.ProjectsWhole e ∨ e.Planned c) ∧
    ((∀ e ∈ q.projected, e.MayWait c.translations → ∀ x ∈ e.constructs false, ¬x.Foreign) →
      (∀ d ∈ out.deferred, ∀ x ∈ d.expr.constructs false, ¬x.Foreign) ∧
      ∀ e ∈ q.projected, (∃ x ∈ e.constructs false, x.Foreign) → q.ProjectsWhole e ∨ e.Planned c) := by
  obtain ⟨sel, ctes, hplan, hdeferred, -⟩ := gives_select h
  obtain ⟨p', hgives, -⟩ := gives_of_run hplan
  obtain ⟨tables, grouping, projected, p₁, p₂, hopens, hprojected, -, hleft⟩ := gives_planQuery hgives
  obtain ⟨start, frames, hstart, hsettled⟩ := Projected.settled_planProjection hopens.groupBy hprojected
  rw [hdeferred, hleft]
  have hwaits (d) (hd : d ∈ projected.deferred) : d.expr ∈ q.projected ∧ d.expr.MayWait c.translations := by
    obtain hd | ⟨o, ho, heq, p, r, hwaits⟩ := hsettled.left d hd
    · rw [hstart] at hd
      cases hd
    · obtain ⟨e, he, rfl⟩ := List.mem_map.mp ho
      rw [heq, operand_source]
      exact ⟨he, (grown_of_waits (List.forall_mem_nil _) hwaits).1⟩
  have hplanned (e) (he : e ∈ q.projected) (hnot : ¬e.MayWait c.translations) : q.ProjectsWhole e ∨ e.Planned c := by
    obtain hwhole | ⟨p, n, r, hn⟩ | ⟨d, hd, heq⟩ := hsettled.settled (operand e) (List.mem_map_of_mem he)
    · exact .inl (operand_source e ▸ hwhole)
    · exact .inr ⟨_, p, n, r, rfl, rfl, hn⟩
    · rw [operand_source] at heq
      exact absurd (heq ▸ (hwaits d hd).2) hnot
  refine ⟨fun d hd => ⟨(hwaits d hd).1, (hwaits d hd).2, fun x => d.not_ok_of_foreign⟩, hplanned, fun hall => ⟨?_, ?_⟩⟩
  · exact fun d hd => hall d.expr (hwaits d hd).1 (hwaits d hd).2
  · rintro e he ⟨x, hx, hforeign⟩
    exact hplanned e he fun hwait => hall e he hwait x hx hforeign

/-- The orders, each with a text made of its number and of something else. -/
def ordersBeside (e : Expr) : Query :=
  (Query.ofSource (.entity "Order")).select (.lambda ["o"] (.object [
    ("Id", .member (.param "o") "Id"),
    ("Label", .call none (some "String") "Format" [.constant (.string "\x7b0\x7d-\x7b1\x7d"),
      .member (.param "o") "Id", e])]))

/-- The number of an order is planned; the text of an order and its buyer is left, and has a value. -/
theorem buyers_left : ∃ out d, shop.select (ordersBeside (.member (.param "o") "BuyerId")) = .ok out ∧
    (Expr.member (.param "o") "Id").Planned shop ∧
    out.deferred = [d] ∧ d.expr.MayWait shop.translations ∧ (∀ x ∈ d.expr.constructs false, ¬x.Foreign) ∧
    d.evaluate ⟨["Id", "Label_Id", "Label_BuyerId"], [.int 1, .int 1, .int 2], rfl⟩ = .ok (.string "1-2") := by
  have hresult : (shop.select (ordersBeside (.member (.param "o") "BuyerId"))).map (fun out => out.deferred.map fun d =>
      d.evaluate ⟨["Id", "Label_Id", "Label_BuyerId"], [.int 1, .int 1, .int 2], rfl⟩) =
    .ok [.ok (.string "1-2")] := by rfl
  obtain ⟨out, h⟩ : ∃ out, shop.select (ordersBeside (.member (.param "o") "BuyerId")) = .ok out := ⟨_, rfl⟩
  rw [h] at hresult
  obtain ⟨d, hdeferred, hvalue⟩ := List.map_eq_singleton_iff.mp (Except.ok.inj hresult)
  have hd : d ∈ out.deferred := hdeferred ▸ List.mem_singleton_self d
  obtain ⟨hleft, hplanned, hevaluable⟩ := Compiler.left_expressions h
  have hprojected : (ordersBeside (.member (.param "o") "BuyerId")).projected = [.member (.param "o") "Id",
      .call none (some "String") "Format" [.constant (.string "\x7b0\x7d-\x7b1\x7d"), .member (.param "o") "Id",
        .member (.param "o") "BuyerId"]] := rfl
  have hid : (Expr.member (.param "o") "Id").Planned shop := by
    refine (hplanned _ (hprojected ▸ List.mem_cons_self) id).resolve_left ?_
    rintro ⟨hkey, -⟩
    exact absurd (show isKeyMember "Id" = true from hkey) (by decide)
  refine ⟨out, d, h, hid, hdeferred, (hleft d hd).2.1, (hevaluable ?_).1 d hd, hvalue⟩
  rw [hprojected]
  simp [Expr.constructs, itemsConstructs, Expr.Foreign]

/-- The text of an order and the time of the database is left, and has no value on the row that is fetched. -/
example : (shop.select (ordersBeside (.static "DateTime" "Now"))).map (fun out =>
      (out.sql, out.deferred.map fun d => d.evaluate ⟨["Id", "Label_Id"], [.int 1, .int 1], rfl⟩)) =
    .ok ("SELECT a.`id` AS `Id`,a.`id` AS `Label_Id` FROM `orders` a",
      [.error (.error (.projectionNotEvaluable "Label"))]) := by
  rfl

end LambdaSql
