import LambdaSql.Proofs.Plan.AtHand
import Mathlib.Data.List.Forall2

/-!
# Queries with other values

Two expressions are twins if they are the same but for their captured values, which may be replaced by others of
the same type. What planning reads off an expression without evaluating it is the same for both: where it comes
from, whether it contains a call, which members it reads, and how it is named.

## Main definitions

* `Value.Like` - captured values that may stand for each other.
* `Expr.Twins`, `Query.Twins`, `Source.Twins` - expressions, queries and sources that are the same but for
  captured values, with a condition on each pair of composite expressions.

## Main results

* `Expr.Twins.origin`, `Expr.Twins.containsCall`, `Expr.Twins.reads` - what twins have in common.
* `Expr.Twins.eq_of_constant` - twins are equal if they contain no captured value.
-/

namespace LambdaSql

/-- Whether a value is a single one: neither null nor a list or a record. -/
def Value.isScalar : Value → Bool
  | .null | .list _ | .record _ => false
  | _ => true

/-- The values are the same, or both are scalars of one type. -/
def Value.Like (v v' : Value) : Prop :=
  v = v' ∨ v.isScalar = true ∧ v'.isScalar = true ∧ v.hostType = v'.hostType

section Twins

variable (C : Expr → Expr → Prop)

mutual

/-- Two expressions that are the same but for their captured values. Each two composite expressions that
correspond to each other and may be evaluated satisfy `C`. -/
inductive Expr.Twins : Expr → Expr → Prop
  | constant (v : Value) : Expr.Twins (.constant v) (.constant v)
  | captured (name : String) {v v' : Value} : v.Like v' → Expr.Twins (.captured name v) (.captured name v')
  | param (name : String) : Expr.Twins (.param name) (.param name)
  | static (type name : String) : Expr.Twins (.static type name) (.static type name)
  | member {e e' : Expr} {name : String} : C (.member e name) (.member e' name) → Expr.Twins e e' →
    Expr.Twins (.member e name) (.member e' name)
  | callOn {e e' : Expr} {type : Option String} {method : String} {args args' : List Expr} :
    C (.call (some e) type method args) (.call (some e') type method args') → Expr.Twins e e' →
    List.Forall₂ Expr.Twins args args' →
    Expr.Twins (.call (some e) type method args) (.call (some e') type method args')
  | callOf {type : Option String} {method : String} {args args' : List Expr} :
    C (.call none type method args) (.call none type method args') → List.Forall₂ Expr.Twins args args' →
    Expr.Twins (.call none type method args) (.call none type method args')
  | binary {op : BinaryOp} {l l' r r' : Expr} : C (.binary op l r) (.binary op l' r') → Expr.Twins l l' →
    Expr.Twins r r' → Expr.Twins (.binary op l r) (.binary op l' r')
  | unary {op : UnaryOp} {e e' : Expr} : C (.unary op e) (.unary op e') → Expr.Twins e e' →
    Expr.Twins (.unary op e) (.unary op e')
  | conditional {t t' a a' b b' : Expr} : C (.conditional t a b) (.conditional t' a' b') → Expr.Twins t t' →
    Expr.Twins a a' → Expr.Twins b b' → Expr.Twins (.conditional t a b) (.conditional t' a' b')
  | convert {e e' : Expr} {type : HostType} : C (.convert e type) (.convert e' type) → Expr.Twins e e' →
    Expr.Twins (.convert e type) (.convert e' type)
  | object {ms ms' : List (String × Expr)} : List.Forall₂ Member.Twins ms ms' →
    Expr.Twins (.object ms) (.object ms')
  | array {es es' : List Expr} : List.Forall₂ Expr.Twins es es' → Expr.Twins (.array es) (.array es')
  | lambda {params : List String} {e e' : Expr} : Expr.Twins e e' →
    Expr.Twins (.lambda params e) (.lambda params e')
  | query {q q' : QueryOf Expr Source} : Query.Twins q q' → Expr.Twins (.query q) (.query q')

/-- Two members of objects that are the same but for captured values. -/
inductive Member.Twins : String × Expr → String × Expr → Prop
  | mk {name : String} {e e' : Expr} : Expr.Twins e e' → Member.Twins (name, e) (name, e')

/-- Two lambdas that are the same but for captured values. -/
inductive Lambda.Twins : LambdaOf Expr → LambdaOf Expr → Prop
  | mk {params : List String} {e e' : Expr} : Expr.Twins e e' → Lambda.Twins ⟨params, e⟩ ⟨params, e'⟩

/-- Two sort keys that are the same but for captured values. -/
inductive SortKey.Twins : LambdaOf Expr × Bool → LambdaOf Expr × Bool → Prop
  | mk {l l' : LambdaOf Expr} {down : Bool} : Lambda.Twins l l' → SortKey.Twins (l, down) (l', down)

/-- Two joins that are the same but for captured values. -/
inductive Join.Twins : JoinOf Expr Source → JoinOf Expr Source → Prop
  | mk {kind : JoinKind} {source source' : Source} {on on' : LambdaOf Expr} {aliasName : Option String} :
    Source.Twins source source' → Lambda.Twins on on' →
    Join.Twins ⟨kind, source, on, aliasName⟩ ⟨kind, source', on', aliasName⟩

/-- Two projections that are the same but for captured values. -/
inductive Projection.Twins : ProjectionOf Expr → ProjectionOf Expr → Prop
  | select {l l' : LambdaOf Expr} : Lambda.Twins l l' → Projection.Twins (.select l) (.select l')
  | flatten {l l' : LambdaOf Expr} : Lambda.Twins l l' → Projection.Twins (.flatten l) (.flatten l')

/-- Two queries that are the same but for captured values. -/
inductive Query.Twins : QueryOf Expr Source → QueryOf Expr Source → Prop
  | mk {source source' : Source} {aliasName : Option String} {joins joins' : List (JoinOf Expr Source)}
    {filters filters' : List (LambdaOf Expr)} {groupBy groupBy' : Option (LambdaOf Expr)}
    {having having' : List (LambdaOf Expr)} {orderBy orderBy' : List (LambdaOf Expr × Bool)}
    {projection projection' : Option (ProjectionOf Expr)} {distinct : Bool} {limit offset : Option Nat} :
    Source.Twins source source' → List.Forall₂ Join.Twins joins joins' →
    List.Forall₂ Lambda.Twins filters filters' → Option.Rel Lambda.Twins groupBy groupBy' →
    List.Forall₂ Lambda.Twins having having' → List.Forall₂ SortKey.Twins orderBy orderBy' →
    Option.Rel Projection.Twins projection projection' →
    Query.Twins
      ⟨source, aliasName, joins, filters, groupBy, having, orderBy, projection, distinct, limit, offset⟩
      ⟨source', aliasName, joins', filters', groupBy', having', orderBy', projection', distinct, limit, offset⟩

/-- Two sources that are the same but for captured values. -/
inductive Source.Twins : Source → Source → Prop
  | entity (name : String) : Source.Twins (.entity name) (.entity name)
  | selfRef (name : String) : Source.Twins (.selfRef name) (.selfRef name)
  | derived {q q' : QueryOf Expr Source} : Query.Twins q q' → Source.Twins (.derived q) (.derived q')
  | cte {name : String} {columns : List String} {anchor anchor' : QueryOf Expr Source}
    {union union' : Option (QueryOf Expr Source)} {recursive : Bool} :
    Query.Twins anchor anchor' → Option.Rel Query.Twins union union' →
    Source.Twins (.cte ⟨name, columns, anchor, union, recursive⟩) (.cte ⟨name, columns, anchor', union', recursive⟩)

end

end Twins

/-- The stronger of two origins is constant if both are. -/
private theorem Origin.max_eq_constant {a b : Origin} : a.max b = .constant ↔ a = .constant ∧ b = .constant := by
  cases a <;> cases b <;> simp [Origin.max]

namespace Expr.Twins

variable {C : Expr → Expr → Prop} {t : TranslationTable}

mutual

/-- Twins have one origin: all captured values have the same. -/
theorem origin : ∀ {e e' : Expr}, e.Twins C e' → e.origin t = e'.origin t
  | _, _, .constant _ | _, _, .captured _ _ | _, _, .param _ | _, _, .static _ _ | _, _, .lambda _
  | _, _, .query _ => rfl
  | _, _, .member _ h | _, _, .unary _ h | _, _, .convert _ h => by
    simp only [Expr.origin]
    exact h.origin
  | _, _, .callOn _ h hs => by simp only [Expr.origin, h.origin, originOfItems hs]
  | _, _, .callOf _ hs => by simp only [Expr.origin, originOfItems hs]
  | _, _, .binary _ hl hr => by simp only [Expr.origin, hl.origin, hr.origin]
  | _, _, .conditional _ ht ha hb => by simp only [Expr.origin, ht.origin, ha.origin, hb.origin]
  | _, _, .object hs => by simp only [Expr.origin, originOfMembers hs]
  | _, _, .array hs => by simp only [Expr.origin, originOfItems hs]

/-- Items that are twins have one origin. -/
theorem originOfItems : ∀ {es es' : List Expr}, List.Forall₂ (Expr.Twins C) es es' →
    Expr.originOfItems t es = Expr.originOfItems t es'
  | _, _, .nil => rfl
  | _, _, .cons h hs => by simp only [Expr.originOfItems, h.origin, originOfItems hs]

/-- Members that are twins have one origin. -/
theorem originOfMembers : ∀ {ms ms' : List (String × Expr)}, List.Forall₂ (Member.Twins C) ms ms' →
    Expr.originOfMembers t ms = Expr.originOfMembers t ms'
  | _, _, .nil => rfl
  | _, _, .cons (.mk h) hs => by simp only [Expr.originOfMembers, h.origin, originOfMembers hs]

end

mutual

/-- Twins contain calls in the same places. -/
theorem containsCall : ∀ {e e' : Expr}, e.Twins C e' → e.containsCall = e'.containsCall
  | _, _, .constant _ | _, _, .captured _ _ | _, _, .param _ | _, _, .static _ _ | _, _, .lambda _
  | _, _, .query _ | _, _, .callOn _ _ _ | _, _, .callOf _ _ => rfl
  | _, _, .member _ h | _, _, .unary _ h | _, _, .convert _ h => by
    simp only [Expr.containsCall]
    exact h.containsCall
  | _, _, .binary _ hl hr => by simp only [Expr.containsCall, hl.containsCall, hr.containsCall]
  | _, _, .conditional _ ht ha hb => by
    simp only [Expr.containsCall, ht.containsCall, ha.containsCall, hb.containsCall]
  | _, _, .object hs => by simp only [Expr.containsCall, membersContainCall hs]
  | _, _, .array hs => by simp only [Expr.containsCall, itemsContainCall hs]

/-- Items that are twins contain calls alike. -/
theorem itemsContainCall : ∀ {es es' : List Expr}, List.Forall₂ (Expr.Twins C) es es' →
    Expr.itemsContainCall es = Expr.itemsContainCall es'
  | _, _, .nil => rfl
  | _, _, .cons h hs => by simp only [Expr.itemsContainCall, h.containsCall, itemsContainCall hs]

/-- Members that are twins contain calls alike. -/
theorem membersContainCall : ∀ {ms ms' : List (String × Expr)}, List.Forall₂ (Member.Twins C) ms ms' →
    Expr.membersContainCall ms = Expr.membersContainCall ms'
  | _, _, .nil => rfl
  | _, _, .cons (.mk h) hs => by simp only [Expr.membersContainCall, h.containsCall, membersContainCall hs]

end

mutual

/-- Twins read the same members. -/
theorem readsAfter : ∀ {e e' : Expr} (seen : List (String × String)), e.Twins C e' →
    e.readsAfter seen = e'.readsAfter seen
  | _, _, _, .constant _ | _, _, _, .captured _ _ | _, _, _, .param _ | _, _, _, .static _ _
  | _, _, _, .query _ => rfl
  | _, _, seen, .lambda h | _, _, seen, .unary _ h | _, _, seen, .convert _ h => by
    simp only [Expr.readsAfter]
    exact h.readsAfter seen
  | _, _, seen, .member _ h => by
    have hinner := h.readsAfter seen
    cases h with
    | param name => rfl
    | _ => exact hinner
  | _, _, seen, .callOn _ h hs => by simp only [Expr.readsAfter, h.readsAfter seen, itemsReadAfter _ hs]
  | _, _, seen, .callOf _ hs => by simp only [Expr.readsAfter, itemsReadAfter _ hs]
  | _, _, seen, .binary _ hl hr => by simp only [Expr.readsAfter, hl.readsAfter seen, hr.readsAfter]
  | _, _, seen, .conditional _ ht ha hb => by
    simp only [Expr.readsAfter, ht.readsAfter seen, ha.readsAfter, hb.readsAfter]
  | _, _, seen, .object hs => by simp only [Expr.readsAfter, membersReadAfter _ hs]
  | _, _, seen, .array hs => by simp only [Expr.readsAfter, itemsReadAfter _ hs]

/-- Items that are twins read the same members after others. -/
theorem itemsReadAfter : ∀ {es es' : List Expr} (seen : List (String × String)),
    List.Forall₂ (Expr.Twins C) es es' → Expr.itemsReadAfter seen es = Expr.itemsReadAfter seen es'
  | _, _, _, .nil => rfl
  | _, _, seen, .cons h hs => by simp only [Expr.itemsReadAfter, h.readsAfter seen, itemsReadAfter _ hs]

/-- Members that are twins read the same members after others. -/
theorem membersReadAfter : ∀ {ms ms' : List (String × Expr)} (seen : List (String × String)),
    List.Forall₂ (Member.Twins C) ms ms' → Expr.membersReadAfter seen ms = Expr.membersReadAfter seen ms'
  | _, _, _, .nil => rfl
  | _, _, seen, .cons (.mk h) hs => by
    simp only [Expr.membersReadAfter, h.readsAfter seen, membersReadAfter _ hs]

end

/-- Twins read the same members. -/
theorem reads {e e' : Expr} (h : e.Twins C e') : e.reads = e'.reads := h.readsAfter []

mutual

/-- What is constant contains no captured value, so it has no twins but itself.

**Proof sketch.** By induction on the twins. What is constant consists of constant parts, and none of them is
captured, which is where twins differ. -/
theorem eq_of_constant : ∀ {e e' : Expr}, e.Twins C e' → e.origin t = .constant → e = e'
  | _, _, .constant _, _ | _, _, .static _ _, _ => rfl
  | _, _, .captured _ _, ho | _, _, .param _, ho | _, _, .lambda _, ho | _, _, .query _, ho => nomatch ho
  | _, _, .member _ h, ho | _, _, .unary _ h, ho | _, _, .convert _ h, ho => by
    simp only [Expr.origin] at ho
    rw [h.eq_of_constant ho]
  | _, _, .callOn _ h hs, ho => by
    simp only [Expr.origin] at ho
    split at ho
    · cases ho
    · obtain ⟨hotarget, hoargs⟩ := Origin.max_eq_constant.mp ho
      rw [h.eq_of_constant hotarget, items_eq_of_constant hs hoargs]
  | _, _, .callOf _ hs, ho => by
    simp only [Expr.origin] at ho
    split at ho
    · cases ho
    · rw [items_eq_of_constant hs ho]
  | _, _, .binary _ hl hr, ho => by
    obtain ⟨hol, hor⟩ := Origin.max_eq_constant.mp ho
    rw [hl.eq_of_constant hol, hr.eq_of_constant hor]
  | _, _, .conditional _ ht ha hb, ho => by
    obtain ⟨hota, hob⟩ := Origin.max_eq_constant.mp ho
    obtain ⟨hot, hoa⟩ := Origin.max_eq_constant.mp hota
    rw [ht.eq_of_constant hot, ha.eq_of_constant hoa, hb.eq_of_constant hob]
  | _, _, .object hs, ho => by rw [members_eq_of_constant hs ho]
  | _, _, .array hs, ho => by rw [items_eq_of_constant hs ho]

/-- Constant items have no twins but themselves. -/
private theorem items_eq_of_constant : ∀ {es es' : List Expr}, List.Forall₂ (Expr.Twins C) es es' →
    Expr.originOfItems t es = .constant → es = es'
  | _, _, .nil, _ => rfl
  | _, _, .cons h hs, ho => by
    obtain ⟨hohead, horest⟩ := Origin.max_eq_constant.mp ho
    rw [h.eq_of_constant hohead, items_eq_of_constant hs horest]

/-- Constant members have no twins but themselves. -/
private theorem members_eq_of_constant : ∀ {ms ms' : List (String × Expr)}, List.Forall₂ (Member.Twins C) ms ms' →
    Expr.originOfMembers t ms = .constant → ms = ms'
  | _, _, .nil, _ => rfl
  | _, _, .cons (.mk h) hs, ho => by
    obtain ⟨hohead, horest⟩ := Origin.max_eq_constant.mp ho
    rw [h.eq_of_constant hohead, members_eq_of_constant hs horest]

end

variable {e e' : Expr}

/-- Twins are conditionals alike. -/
theorem isConditional (h : e.Twins C e') : e.isConditional = e'.isConditional := by cases h <;> rfl

/-- Twins name keys alike. -/
theorem keyName (h : e.Twins C e') : LambdaSql.keyName e = LambdaSql.keyName e' := by cases h <;> rfl

/-- Twins name members alike. -/
theorem memberName (h : e.Twins C e') : Projected.memberName e = Projected.memberName e' := by cases h <;> rfl

end Expr.Twins

section Names

variable {C : Expr → Expr → Prop}

mutual

/-- Twins have one name. -/
theorem Source.Twins.name : ∀ {s s' : Source}, s.Twins C s' → s.name = s'.name
  | _, _, .entity _ | _, _, .selfRef _ | _, _, .cte _ _ => rfl
  | _, _, .derived h => by
    simp only [Source.name]
    exact Query.Twins.queryName h

/-- Queries that are twins have one name. -/
theorem Query.Twins.queryName : ∀ {q q' : QueryOf Expr Source}, Query.Twins C q q' →
    LambdaSql.queryName q = LambdaSql.queryName q'
  | _, _, .mk h _ _ _ _ _ _ => by
    simp only [LambdaSql.queryName]
    exact h.name

end

/-- Of two related options both are there or neither is. -/
private theorem isNone_eq_of_rel {α β : Type} {R : α → β → Prop} {a? : Option α} {b? : Option β}
    (h : Option.Rel R a? b?) : a?.isNone = b?.isNone := by cases h <;> rfl

/-- Queries that are twins have projections alike. -/
theorem Query.Twins.projection {q q' : QueryOf Expr Source} (h : Query.Twins C q q') :
    q.projection.isNone = q'.projection.isNone := by
  cases h with
  | mk _ _ _ _ _ _ hprojection => exact isNone_eq_of_rel hprojection

end Names

/-! ## What is evaluated on the host -/

/-- The operand of a translated call in which an item is asked for. -/
def Translation.collection? {α : Type} : Translation → Option α → List α → Option α
  | .membership, some collection, [_] => some collection
  | .membership, none, [collection, _] => some collection
  | .isIn _, _, [_, collection] => some collection
  | _, _, _ => none

/-- The collection of a translation is chosen by position, whatever the operands are. -/
theorem Translation.collection?_map {α β : Type} (f : α → β) (tr : Translation) (target : Option α)
    (args : List α) : tr.collection? (target.map f) (args.map f) = (tr.collection? target args).map f := by
  cases tr with
  | membership =>
    match target, args with
    | some _, [] | some _, [_] | some _, _ :: _ :: _ | none, [] | none, [_] | none, [_, _]
    | none, _ :: _ :: _ :: _ => rfl
  | isIn negated =>
    match args with
    | [] | [_] | [_, _] | _ :: _ :: _ :: _ => rfl
  | _ => rfl

namespace Expr

variable (t : TranslationTable)

/-- The translations that a call may have. The type of a target is not known before it is planned. -/
def MayBe : Expr → Translation → Prop
  | .call (some _) _ method args, tr =>
    ∃ type, t.method? (.ofHostType type) method (.exactly args.length) = some tr
  | .call none type method args, tr =>
    ∃ name, type = some name ∧ t.methodOf? name method (.exactly args.length) = some tr
  | _, _ => False

/-- A call may ask for an item in a collection. -/
inductive AsksIn : Expr → Expr → Prop
  | contains {x item : Expr} {type : Option String} : AsksIn (.call (some x) type "Contains" [item]) x
  | translated {target : Option Expr} {type : Option String} {method : String} {args : List Expr} {x : Expr}
    {tr : Translation} (htr : MayBe t (.call target type method args) tr)
    (hx : tr.collection? target args = some x) : AsksIn (.call target type method args) x

/-- The value that an expression has on the host, if it reads nothing from the database. -/
def hostValue? (e : Expr) : Option Value := if e.origin t = .sql then none else (Host.value e).toOption

/-- The text that an expression has on the host. -/
def hostText? (e : Expr) : Option String := (e.hostValue? t).bind Value.toText?

/-- Whether an expression is evaluated as a whole where it is evaluated. A captured value needs no evaluation;
arrays and queries are planned part by part. -/
def isWhole : Expr → Bool
  | captured .. | array _ | query _ => false
  | _ => true

/-- No captured value lies within an expression that is evaluated as a whole: two twins are equal, or neither
has a value. -/
def Untouched (value? : Expr → Option Value) (e e' : Expr) : Prop :=
  e.isWhole = true → e = e' ∨ value? e = none ∧ value? e' = none

/-- **No captured value lies within a larger expression that is evaluated on the host**: neither where twins are
planned, nor where one of their parts is taken as a collection. -/
structure Apart (c : Compiler) (e e' : Expr) : Prop where
  value : Untouched (atHand? { compiler := c }) e e'
  collection : ∀ x x', e.AsksIn c.translations x → e'.AsksIn c.translations x' →
    Untouched (hostValue? c.translations) x x' ∧
      Untouched (hostValue? c.translations) x.withoutConversions x'.withoutConversions

/-- The formats of two twins that may be put into a text are the same, if they are at hand. -/
def FormatsAlike (e e' : Expr) : Prop :=
  ∀ target target' type method format format', e = .call (some target) type method [format] →
    e' = .call (some target') type method [format'] → e.MayBe t .toText → format.hostText? t = format'.hostText? t

end Expr

end LambdaSql
