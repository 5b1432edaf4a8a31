import LambdaSql.Proofs.Binding.Jobs
import LambdaSql.Proofs.Binding.Wanted
import LambdaSql.Proofs.Naming.Resolution

/-!
# Values that are written out

Only values that are captured are bound in a query. All others are written out: constants, static members, and
whatever is computed of these before the query is sent, also as arguments that are not given.

## Main definitions

* `HasCaptured` - a captured value is among several expressions.

## Main results

* `Expr.exists_captured_of_origin` - an expression of captured origin has a captured value within.
* `Draws.eq_of_wants_nothing` - what wants no values leaves the parameters as they are.
* `parameters_of_nothing_captured` - a query in which nothing is captured has no parameters.
-/

namespace LambdaSql

/-! ## Where captured values come from -/

/-- If the stronger of two origins is a captured value, one of them is. -/
private theorem Origin.max_eq_captured {a b : Origin} (h : a.max b = .captured) : a = .captured ∨ b = .captured := by
  cases a <;> cases b <;> simp_all [Origin.max]

/-- No member of a type is captured. -/
private theorem Expr.staticOrigin_ne_captured (t : TranslationTable) (type name : String) :
    staticOrigin t type name ≠ .captured := by
  unfold staticOrigin
  split <;> nofun

section Captured

variable {t : TranslationTable}

/-- A captured value is among several expressions. -/
def HasCaptured (es : List Expr) : Prop := ∃ name v, .captured name v ∈ es

/-- Parts with a captured value among them still have it among more parts. -/
private theorem HasCaptured.of_subset {es rest : List Expr} (h : HasCaptured es) (hs : es ⊆ rest) :
    HasCaptured rest := by
  obtain ⟨name, v, hmem⟩ := h
  exact ⟨name, v, hs hmem⟩

/-- A captured value among some expressions is one among more of them. -/
theorem HasCaptured.left {es rest : List Expr} (h : HasCaptured es) : HasCaptured (es ++ rest) :=
  h.of_subset (List.subset_append_left _ _)

/-- A captured value among further expressions counts as well. -/
theorem HasCaptured.right {es rest : List Expr} (h : HasCaptured rest) : HasCaptured (es ++ rest) :=
  h.of_subset (List.subset_append_right _ _)

/-- A captured value among the parts of an expression counts beside the expression. -/
theorem HasCaptured.within {e : Expr} {es : List Expr} (h : HasCaptured es) : HasCaptured (e :: es) :=
  h.of_subset (List.subset_cons_self _ _)

mutual

/-- **An expression of captured origin has a captured value within**, by induction on the expression.

**Proof sketch.** The origin of an expression is the strongest among those of its parts, and that of a static member
is never captured. -/
theorem Expr.exists_captured_of_origin : ∀ e : Expr, e.origin t = .captured → HasCaptured e.parts
  | .captured name v, _ => ⟨name, v, List.mem_cons_self⟩
  | .static type name, h => absurd h (Expr.staticOrigin_ne_captured t type name)
  | .member inner _, h | .unary _ inner, h | .convert inner _, h => (inner.exists_captured_of_origin h).within
  | .call (some target) type method args, h => by
    rw [Expr.origin] at h
    split at h
    · cases h
    · exact HasCaptured.within ((Origin.max_eq_captured h).elim
        (fun h => (target.exists_captured_of_origin h).left) fun h => (items_captured_of_origin args h).right)
  | .call none type method args, h => by
    rw [Expr.origin] at h
    split at h
    · cases h
    · exact (items_captured_of_origin args h).within
  | .binary _ left right, h => HasCaptured.within ((Origin.max_eq_captured h).elim
      (fun h => (left.exists_captured_of_origin h).left) fun h => (right.exists_captured_of_origin h).right)
  | .conditional test a b, h => by
    refine HasCaptured.within ((Origin.max_eq_captured h).elim (fun h => ?_) fun h =>
      (b.exists_captured_of_origin h).right.right)
    exact (Origin.max_eq_captured h).elim (fun h => (test.exists_captured_of_origin h).left)
      fun h => (a.exists_captured_of_origin h).left.right
  | .object members, h => (members_captured_of_origin members h).within
  | .array items, h => (items_captured_of_origin items h).within

/-- Items of captured origin have a captured value among their parts. -/
private theorem items_captured_of_origin :
    ∀ es : List Expr, Expr.originOfItems t es = .captured → HasCaptured (itemsParts es)
  | e :: rest, h => (Origin.max_eq_captured h).elim (fun h => (e.exists_captured_of_origin h).left)
      fun h => (items_captured_of_origin rest h).right

/-- Members of captured origin have a captured value among their parts. -/
private theorem members_captured_of_origin : ∀ ms : List (String × Expr),
    Expr.originOfMembers t ms = .captured → HasCaptured (membersParts ms)
  | (_, e) :: rest, h => (Origin.max_eq_captured h).elim (fun h => (e.exists_captured_of_origin h).left)
      fun h => (members_captured_of_origin rest h).right

end

end Captured

/-! ## Nothing is bound -/

/-- What wants no values leaves the parameters as they are. -/
theorem Draws.eq_of_wants_nothing {ps qs : Parameters} {w : Trace} (h : Draws ps w qs)
    (hw : Sketch.Wants (fun _ _ _ => False) (w.map Prod.snd)) : qs = ps := by
  induction h with
  | nil => rfl
  | text _ _ ih | again _ _ ih =>
    rw [List.map_append] at hw
    exact ih (Sketch.wants_append.mp hw).1
  | value _ _ _ =>
    rw [List.map_append] at hw
    exact (Sketch.wants_value.mp (Sketch.wants_append.mp hw).2).elim

/-- **A query in which nothing is captured has no parameters**, and no placeholder in its text, whatever the options,
the translations and the model.

**Proof sketch.** A value is bound only where an expression comes from captured values, and such an expression has a
captured value among its parts. So the sketch of the query has no values, and what is written for it adds no entry and
has no placeholder. -/
theorem parameters_of_nothing_captured {c : Compiler} {q : Query} {r : Compiled}
    (hq : ∀ name v, Expr.captured name v ∉ queryParts q) (h : c.select q = .ok r) :
    r.parameters.entries = [] ∧ r.phrase.placeholders = [] := by
  obtain ⟨sk, hsk, w, hw, hphrase, rfl⟩ := Compiler.written_select h
  have hwants : Sketch.Wants (fun _ _ _ => False) (w.map Prod.snd) := by
    have hparts : ∀ x ∈ queryParts q, ∀ name v, x ≠ .captured name v := fun x hx name v heq => hq name v (heq ▸ hx)
    refine wants_of_query (fun he ho => ?_) hparts hsk
    obtain ⟨name, v, hmem⟩ := Expr.exists_captured_of_origin _ ho
    exact he _ hmem name v rfl
  have hsame := hw.eq_of_wants_nothing hwants
  refine ⟨by rw [hsame]; rfl, ?_⟩
  have hnames := hw.eraseDups_names
  rw [hsame, show c.newParameters.names = [] from rfl, List.nil_append, List.eraseDups_nil] at hnames
  rw [← hphrase]
  change Trace.placeholders w = []
  cases hw' : Trace.placeholders w with
  | nil => rfl
  | cons token rest =>
    rw [hw', List.eraseDups_cons] at hnames
    cases hnames

/-- The customers of eighteen years, put as a sum, that have one of two numbers and an order of a number below a
hundred. -/
def adults : Query :=
  (Query.ofSource (.entity "Customer")).filter (.lambda ["c"] (.binary .and
    (.binary .and
      (.binary .ge (.member (.param "c") "Age") (.binary .add (.constant (.int 15)) (.constant (.int 3))))
      (.call (some (.array [.constant (.int 1), .constant (.int 2)])) none "Contains" [.member (.param "c") "Id"]))
    (.call none (some "Sql") "Exists" [.query ((Query.ofSource (.entity "Order")).filter (.lambda ["o"]
      (.binary .lt (.member (.param "o") "Id") (.constant (.int 100)))))])))

/-- A query of constants has neither entries nor placeholders. -/
theorem adults_inlined :
    (∀ name v, Expr.captured name v ∉ queryParts adults) ∧ ∃ r, shop.select adults = .ok r ∧
      r.parameters.entries = [] ∧ r.phrase.placeholders = [] := by
  have hnone : ∀ name v, Expr.captured name v ∉ queryParts adults := fun name v h => by
    simp [adults, Query.filter, Query.ofSource, Expr.toLambda, queryParts, Source.parts, joinsParts, testsParts,
      keysParts, orderParts, projectionParts, Expr.parts, itemsParts] at h
  obtain ⟨r, h⟩ : ∃ r, shop.select adults = .ok r := ⟨_, rfl⟩
  exact ⟨hnone, r, h, parameters_of_nothing_captured hnone h⟩

end LambdaSql
