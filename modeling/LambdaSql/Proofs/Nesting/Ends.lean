import LambdaSql.Proofs.Nesting.Passages
import LambdaSql.Proofs.Nesting.Selections
import LambdaSql.Proofs.Plan.Features
import LambdaSql.Plan.Query

/-!
# How planning goes on

What is planned once stays planned: common table expressions are added to those that are there, also by a
projection that then turns out to have to wait until rows have been fetched. So what is said about a node may
refer to the common table expressions planned by then, and is still true later. Here is what such statements are
like, and how they are told of planning step by step.

## Main definitions

* `Progress.Before` - one progress is later than another.
* `Planning.Waits` - planning stops at a call that has to wait until rows have been fetched.
* `Invariant` - statements about nodes, selections and rows that stay true.
* `Invariant.At` - a scope and a progress with such statements.
* `Planning.Ends` - planning that keeps an invariant, whether it gives a result or has to wait.

## Main results

* `Planning.Ends.bind`, `Planning.Ends.projected` and their neighbours - the building blocks of planning.
-/

namespace LambdaSql

/-! ## Later progress -/

/-- One progress is later than another: nothing that was planned is lost. -/
structure Progress.Before (p q : Progress) : Prop where
  ctes : p.ctes <+: q.ctes
  selfReads : p.selfReads <:+ q.selfReads

namespace Progress.Before

variable {p q r : Progress}

/-- Progress is where it is. -/
theorem refl (p : Progress) : p.Before p := ⟨List.prefix_refl _, List.suffix_refl _⟩

/-- What comes after what comes after comes after. -/
theorem trans (h : p.Before q) (h' : q.Before r) : p.Before r :=
  ⟨h.ctes.trans h'.ctes, h.selfReads.trans h'.selfReads⟩

/-- Taking aliases is progress. -/
theorem aliased (p : Progress) (position : Nat) : p.Before { p with nextAlias := position } :=
  ⟨List.prefix_refl _, List.suffix_refl _⟩

/-- Noting a read of the query under way is progress. -/
theorem selfRead (p : Progress) (name : String) : p.Before { p with selfReads := name :: p.selfReads } :=
  ⟨List.prefix_refl _, List.suffix_cons ..⟩

/-- Collecting a common table expression is progress. -/
theorem cte (p : Progress) (c : CtePlan) : p.Before { p with ctes := p.ctes ++ [c] } :=
  ⟨List.prefix_append .., List.suffix_refl _⟩

end Progress.Before

/-! ## Waiting -/

namespace Planning

variable {α β : Type} {s : Scope} {p q : Progress}

/-- Planning stops at a call that has to wait until rows have been fetched. -/
def Waits (act : Planning α) (s : Scope) (p q : Progress) : Prop :=
  ∃ declaring method arity, act.outcome s p = (.error (.deferred declaring method arity), q)

/-- A result does not wait. -/
@[simp]
theorem not_waits_pure {a : α} : ¬ (pure a : Planning α).Waits s p q := nofun

/-- An error does not wait. -/
@[simp]
theorem not_waits_fail {e : SqlError} : ¬ (fail e : Planning α).Waits s p q := nofun

/-- A result that is given does not wait. -/
@[simp]
theorem not_waits_ofExcept {x : Except SqlError α} : ¬ (ofExcept x).Waits s p q := by
  cases x <;> exact nofun

/-- A result that may be a fault does not wait. -/
@[simp]
theorem not_waits_ofFault {x : Except Fault α} : ¬ (ofFault x).Waits s p q := by
  cases x <;> exact nofun

/-- Reading the scope does not wait. -/
@[simp]
theorem not_waits_read : ¬ (read : Planning Scope).Waits s p q := nofun

/-- Reading the progress does not wait. -/
@[simp]
theorem not_waits_getProgress : ¬ (getThe Progress : Planning Progress).Waits s p q := nofun

/-- Changing the progress does not wait. -/
@[simp]
theorem not_waits_modifyProgress {f : Progress → Progress} :
    ¬ (modifyThe Progress f : Planning Unit).Waits s p q := nofun

/-- The first step of a plan waits, or it gives a result and the second one waits. -/
theorem waits_bind {x : Planning α} {f : α → Planning β} :
    (x >>= f).Waits s p q ↔ x.Waits s p q ∨ ∃ a r, x.Gives s p a r ∧ (f a).Waits s r q := by
  unfold Waits Gives
  rw [outcome_bind]
  rcases hx : x.outcome s p with ⟨e | a, r⟩
  · simp
  · simp

/-- An action waits under another scope where it waits. -/
theorem waits_withReader {f : Scope → Scope} {act : Planning α} :
    (withReader f act).Waits s p q ↔ act.Waits (f s) p q := Iff.rfl

/-- Within a further frame an action waits as it does in the larger scope. -/
private theorem waits_withFrame {params : List String} {bindings : List Binding} {act : Planning α}
    (h : (withFrame params bindings act).Waits s p q) :
    act.Waits { s with frames := frame params bindings :: s.frames } p q := by
  unfold withFrame at h
  split at h
  · exact absurd h not_waits_fail
  · exact h

/-- An action waits with aliases of its own where it waits. -/
theorem waits_withOwnAliases {act : Planning α} (h : (withOwnAliases act).Waits s p q) :
    act.Waits s { p with nextAlias := 0 } q := by
  unfold withOwnAliases at h
  obtain hw | ⟨_, _, hget, hrest⟩ := waits_bind.mp h
  · exact absurd hw not_waits_getProgress
  · obtain ⟨rfl, rfl⟩ := gives_getProgress.mp hget
    obtain hw | ⟨_, _, hrestart, hrest⟩ := waits_bind.mp hrest
    · exact absurd hw not_waits_modifyProgress
    · cases gives_restartAliases.mp hrestart
      obtain hw | ⟨_, _, _, hrest⟩ := waits_bind.mp hrest
      · exact hw
      · obtain hw | ⟨_, _, _, hw⟩ := waits_bind.mp hrest
        · exact absurd hw not_waits_modifyProgress
        · exact absurd hw not_waits_pure

/-- Where a call may have to wait, it waits. -/
theorem waits_defer {declaring method : String} {arity : Nat}
    (h : (defer declaring method arity : Planning α).Waits s p q) : s.inProjection = true ∧ q = p := by
  unfold defer at h
  obtain h | ⟨t, r, hread, hw⟩ := waits_bind.mp h
  · exact absurd h not_waits_read
  · obtain ⟨rfl, rfl⟩ := gives_read.mp hread
    split at hw
    · next hprojection =>
      obtain ⟨_, _, _, hw⟩ := hw
      cases hw
      exact ⟨hprojection, rfl⟩
    · exact absurd hw not_waits_fail

/-- A projected expression does not have to wait: it is left for evaluation after fetching. -/
theorem not_waits_projected {act : Planning Node} : ¬ (projected act).Waits s p q := by
  unfold projected
  rw [waits_bind]
  rintro (h | ⟨_, _, hget, _, _, _, h⟩)
  · exact not_waits_getProgress h
  · obtain ⟨rfl, rfl⟩ := gives_getProgress.mp hget
    rw [outcome_tryCatch] at h
    split at h
    · cases h
    · next e r heq =>
      cases e with
      | deferred declaring method arity => cases h
      | error e => cases h
      | fault f => cases h

/-- What a projected expression is: planned, or left because it waits. -/
theorem cases_of_projected {act : Planning Node} {n? : Option Node} (h : (projected act).Gives s p n? q) :
    (∃ n, n? = some n ∧ act.Gives { s with inProjection := true } p n q) ∨
      n? = none ∧ ∃ r, act.Waits { s with inProjection := true } p r ∧ q = { r with nextAlias := p.nextAlias } := by
  obtain hplanned | ⟨hnone, declaring, method, arity, r, hwaits, hq⟩ := gives_projected.mp h
  · exact .inl hplanned
  · exact .inr ⟨hnone, r, ⟨declaring, method, arity, hwaits⟩, hq⟩

end Planning

/-! ## Invariants -/

open Planning

/-- The names of the common table expressions in whose second queries something is planned. -/
def Scope.unions (s : Scope) : List String := s.recursive.map Prod.fst

/-- The common table expression of a source, assembled. -/
def planParts (c : Cte) : Planning CtePlan :=
  assembleCte c.name c.columns c.recursive (planQuery c.anchor) (planUnion c.union)

/-- A planned common table expression has as many columns as its queries return, and its second query is planned
after the first one with aliases of its own.

**Proof sketch.** A first query of another length than the declared columns is an error, and so is a second one of
another length than the first. -/
theorem gives_planParts {c : Cte} {s : Scope} {p q : Progress} {cte : CtePlan}
    (h : (planParts c).Gives s p cte q) :
    cte.name = c.name ∧ cte.columns.length = cte.anchor.shape.length ∧ ∃ r,
      (planQuery c.anchor).Gives s p cte.anchor r ∧
        (c.union = none ∧ cte.union = none ∧ q = r ∨
          ∃ u second, c.union = some u ∧ cte.union = some second ∧
            (planQuery u).Gives
              { s with recursive := (c.name, cteShape cte.columns cte.anchor.shape) :: s.recursive }
              { r with nextAlias := 0 } second q ∧
            second.shape.length = cte.columns.length ∧
            cte.recursive = (c.recursive || q.selfReads.contains c.name)) := by
  unfold planParts assembleCte at h
  obtain ⟨anchor, r, ha, h⟩ := gives_bind.mp h
  generalize (if c.columns.isEmpty then anchor.shape.map Output.name else c.columns) = columns at h
  dsimp only at h
  split at h
  · simp at h
  · next hlength =>
    rw [not_not] at hlength
    cases hu : c.union with
    | none =>
      rw [hu] at h
      obtain ⟨rfl, rfl⟩ := gives_pure.mp h
      exact ⟨rfl, hlength, q, ha, .inl ⟨rfl, rfl, rfl⟩⟩
    | some u =>
      rw [hu] at h
      obtain ⟨_, _, hrestart, h⟩ := gives_bind.mp h
      cases gives_restartAliases.mp hrestart
      obtain ⟨second, r', hsecond, h⟩ := gives_bind.mp h
      split at h
      · simp at h
      · next hsecondLength =>
        rw [not_not] at hsecondLength
        obtain ⟨_, _, hget, h⟩ := gives_bind.mp h
        obtain ⟨rfl, rfl⟩ := gives_getProgress.mp hget
        obtain ⟨rfl, rfl⟩ := (gives_pure (s := s)).mp h
        exact ⟨rfl, hlength, r, ha, .inr ⟨u, second, rfl, rfl, gives_withReader.mp hsecond, hsecondLength, rfl⟩⟩

/-- Statements about what is planned within the second queries of some common table expressions, which stay true
when planning goes on. What is said about a selection may be concluded from the planning of its query, and what is
said about the progress, while common table expressions are underway, from how they are planned. -/
structure Invariant where
  compiler : Compiler
  /-- The queries and common table expressions that are planned. -/
  site : Passage → Prop
  node : List String → Progress → Node → Prop
  select : Bool → List String → Progress → Select → Prop
  rows : List String → Progress → Rows → Prop
  /-- What is said about the progress, while some common table expressions are planned. -/
  progress : List String → List String → Progress → Prop
  hereditary : ∀ unions p, Node.Hereditary (node unions p)
  node_later : ∀ {unions p q n}, p.Before q → node unions p n → node unions q n
  node_within : ∀ {unions p n} name, node unions p n → node (name :: unions) p n
  select_later : ∀ {asTable unions p q s}, p.Before q → select asTable unions p s → select asTable unions q s
  rows_later : ∀ {unions p q r}, p.Before q → rows unions p r → rows unions q r
  column : ∀ {unions p aliasName name t}, node unions p (.column aliasName name t)
  valued : ∀ {unions p s t}, select false unions p s → node unions p (.subquery s t)
  searched : ∀ {unions p n s negated}, node unions p n → select false unions p s → node unions p (.inQuery n s negated)
  tested : ∀ {unions p s negated}, select false unions p s → node unions p (.exists s negated)
  counted : ∀ {unions p s negated}, select false unions p s →
    node unions p (.exists (Lowering.withoutColumns s) negated)
  entity : ∀ {unions p name e}, compiler.model.entity name = .ok e → rows unions p (.named e.table e.schema)
  derived : ∀ {unions p s}, select true unions p s → rows unions p (.derived s)
  known : ∀ {unions p c}, c ∈ p.ctes → rows unions p (.named c.name none)
  selfRead : ∀ {unions p name}, name ∈ unions → name ∈ p.selfReads → rows unions p (.named name none)
  planned : ∀ {asTable q s p sel p'}, s.compiler = compiler → site (.query asTable s.unions q) →
    (planQuery q).Gives s p sel p' → sel.PartsHave (node s.unions p') (rows s.unions p') →
    (sel.deferred ≠ [] → q.MayWait compiler.translations) → select asTable s.unions p' sel
  aliased : ∀ {unions under p} position, progress unions under p →
    progress unions under { p with nextAlias := position }
  reread : ∀ {unions under p name}, progress unions under p → name ∈ unions →
    progress unions under { p with selfReads := name :: p.selfReads }
  entered : ∀ {unions under p name}, progress unions under p → name ∉ under → (∀ c ∈ p.ctes, c.name ≠ name) →
    progress unions (name :: under) p
  recursing : ∀ {unions under p name}, progress unions under p → name ∈ under → progress (name :: unions) under p
  left : ∀ {c under s p cte p'}, s.compiler = compiler → s.underway = c.name :: under →
    (∀ name ∈ s.unions, name ∈ under) → c.name ∉ under → site (.cte s.unions c) →
    (planParts c).Gives s p cte p' → select true s.unions p' cte.anchor →
    (cte.union = none → progress s.unions (c.name :: under) p') →
    (∀ u, cte.union = some u → select true (c.name :: s.unions) p' u ∧
      progress (c.name :: s.unions) (c.name :: under) p') →
    progress s.unions under { p' with ctes := p'.ctes ++ [cte] }

namespace Invariant

variable (J : Invariant) {unions : List String} {s : Scope} {p q : Progress}

/-- What is said about all that is read from a binding. -/
def Binds (unions : List String) (p : Progress) (b : Binding) : Prop := ∀ n, b.Reads n → J.node unions p n

/-- A scope within the second queries of some common table expressions, and a progress, for which the statements
hold. -/
structure At (unions : List String) (s : Scope) (p : Progress) : Prop where
  compiler : s.compiler = J.compiler
  standing : s.unions = unions
  underway : ∀ name ∈ unions, name ∈ s.underway
  frames : ∀ frame ∈ s.frames, ∀ b ∈ frame, J.Binds unions p b.2
  progress : J.progress s.unions s.underway p

variable {J} {b : Binding} {bindings : List Binding} {n : Node}

namespace Binds

/-- What is bound within the invariant is so later. -/
theorem later (h : J.Binds unions p b) (hle : p.Before q) : J.Binds unions q b :=
  fun n hn => J.node_later hle (h n hn)

/-- What is bound within the invariant is so within a further second query. -/
theorem within (h : J.Binds unions p b) (name : String) : J.Binds (name :: unions) p b :=
  fun n hn => J.node_within name (h n hn)

/-- Columns are what is read from a table. -/
theorem table (t : TableBinding) : J.Binds unions p (.table t) := by
  intro n hn
  obtain ⟨name, type, rfl⟩ := t.reads_column hn
  exact J.column

/-- Keys are what is read from a grouping. -/
theorem grouping {g : Grouping} (hk : ∀ k ∈ g.keys, J.node unions p k.2) : J.Binds unions p (.grouping g) := by
  intro n hn
  cases hn with
  | key hmem => exact hk _ hmem

end Binds

namespace At

/-- The invariant holds later if it holds of the later progress. -/
theorem later (h : J.At unions s p) (hle : p.Before q) (hq : J.progress s.unions s.underway q) : J.At unions s q :=
  { h with frames := fun f hf b hb => (h.frames f hf b hb).later hle, progress := hq }

/-- What a parameter stands for. -/
theorem binding (h : J.At unions s p) {name : String} (hb : s.binding? name = some b) : J.Binds unions p b := by
  obtain ⟨frame, hframe, hb⟩ := List.exists_of_findSome?_eq_some hb
  obtain ⟨before, after, heq, -⟩ := List.lookup_eq_some_iff.mp hb
  exact h.frames frame hframe (name, b) (heq ▸ List.mem_append_right before List.mem_cons_self)

/-- Under a lambda. -/
theorem under (h : J.At unions s p) (hb : ∀ b ∈ bindings, J.Binds unions p b) (params : List String) :
    J.At unions { s with frames := Planning.frame params bindings :: s.frames } p := by
  refine { h with frames := fun f hf b hmem => ?_ }
  obtain rfl | hf := List.mem_cons.mp hf
  · exact hb b.2 (List.of_mem_zip (List.mem_reverse.mp hmem)).2
  · exact h.frames f hf b hmem

/-- The invariant does not depend on whether a projection is planned. -/
theorem projecting (h : J.At unions s p) (inProjection : Bool) :
    J.At unions { s with inProjection := inProjection } p := { h with }

/-- The invariant does not depend on the aliases that are taken. -/
theorem aliased (h : J.At unions s p) (position : Nat) : J.At unions s { p with nextAlias := position } :=
  h.later (.aliased p position) (J.aliased position h.progress)

end At

end Invariant

/-! ## Steps -/

namespace Planning

variable {α β : Type} {J : Invariant} {D : Prop} {unions : List String} {s : Scope} {p q : Progress}
  {act x : Planning α} {Q R : Progress → α → Prop}

variable (J D) in
/-- Planning that keeps an invariant, whether it gives a result, which then has a property, or has to wait, which
is possible in a projection and under a condition only. -/
structure Ends (s : Scope) (p : Progress) (act : Planning α) (Q : Progress → α → Prop) : Prop where
  gives : ∀ {a q}, act.Gives s p a q → J.progress s.unions s.underway q ∧ p.Before q ∧ Q q a
  waits : ∀ {q}, act.Waits s p q → J.progress s.unions s.underway q ∧ p.Before q ∧ D ∧ s.inProjection = true

namespace Ends

/-- Planning that cannot have to wait does not do so under whatever condition. -/
theorem of_subquery {D' : Prop} (h : Ends J D s p act Q) (hs : s.inProjection = false) : Ends J D' s p act Q := by
  refine ⟨h.gives, fun hw => ?_⟩
  obtain ⟨-, -, -, hs'⟩ := h.waits hw
  rw [hs] at hs'
  cases hs'

/-- A result ends as it is. -/
theorem pure {a : α} (h : J.At unions s p) (ha : Q p a) : Ends J D s p (pure a) Q := by
  refine ⟨fun hg => ?_, fun hw => absurd hw not_waits_pure⟩
  obtain ⟨rfl, rfl⟩ := gives_pure.mp hg
  exact ⟨h.progress, .refl _, ha⟩

/-- An error ends without a result. -/
theorem fail {e : SqlError} : Ends J D s p (fail e : Planning α) Q :=
  ⟨fun h => absurd h not_gives_fail, fun h => absurd h not_waits_fail⟩

/-- A result or an error ends as it is. -/
theorem ofExcept {r : Except SqlError α} (h : J.At unions s p) (hr : ∀ a, r = .ok a → Q p a) :
    Ends J D s p (ofExcept r) Q := by
  cases r with
  | ok a => exact pure h (hr a rfl)
  | error e => exact fail

/-- A result or a fault ends as it is. -/
theorem ofFault {r : Except Fault α} (h : J.At unions s p) (hr : ∀ a, r = .ok a → Q p a) :
    Ends J D s p (ofFault r) Q := by
  cases r with
  | ok a => exact pure h (hr a rfl)
  | error f => exact ⟨nofun, nofun⟩

/-- The second step goes on from the progress of the first. -/
theorem bind {f : α → Planning β} {Q : Progress → β → Prop} (h : J.At unions s p) (hx : Ends J D s p x R)
    (hf : ∀ {a q}, J.At unions s q → p.Before q → R q a → Ends J D s q (f a) Q) :
    Ends J D s p (x >>= f) Q := by
  constructor
  · intro b r hb
    obtain ⟨a, q, ha, hb⟩ := gives_bind.mp hb
    obtain ⟨hq, hle, ha⟩ := hx.gives ha
    obtain ⟨hr, hle', hb⟩ := (hf (h.later hle hq) hle ha).gives hb
    exact ⟨hr, hle.trans hle', hb⟩
  · intro r hw
    obtain hw | ⟨a, q, ha, hw⟩ := waits_bind.mp hw
    · exact hx.waits hw
    · obtain ⟨hq, hle, ha⟩ := hx.gives ha
      obtain ⟨hr, hle', hw⟩ := (hf (h.later hle hq) hle ha).waits hw
      exact ⟨hr, hle.trans hle', hw⟩

/-- A function of a result ends as the function says. -/
theorem map {f : α → β} {Q : Progress → β → Prop} (h : J.At unions s p) (hx : Ends J D s p x R)
    (hf : ∀ q a, p.Before q → R q a → Q q (f a)) : Ends J D s p (f <$> x) Q := by
  rw [map_eq_pure_bind]
  exact hx.bind h fun h hle ha => pure h (hf _ _ hle ha)

/-- What is planned unless there is an error. -/
theorem orFail {c : Prop} [Decidable c] {e : SqlError} (h : ¬ c → Ends J D s p act Q) :
    Ends J D s p (do
      if c then Planning.fail e
      act) Q := by
  dsimp only
  split
  · constructor
    · simp only [gives_bind, not_gives_fail, false_and, exists_false, false_imp_iff, implies_true]
    · intro q hw
      obtain hw | ⟨_, _, hg, _⟩ := waits_bind.mp hw
      · exact absurd hw not_waits_fail
      · exact absurd hg not_gives_fail
  · next hc => exact h hc

/-- Either of two first steps, and what goes on from it. -/
theorem either {c : Prop} [Decidable c] {y : Planning α} {f : α → Planning β} {Q : Progress → β → Prop}
    (h : J.At unions s p) (hx : Ends J D s p x R) (hy : Ends J D s p y R)
    (hf : ∀ {a q}, J.At unions s q → p.Before q → R q a → Ends J D s q (f a) Q) :
    Ends J D s p (if c then x >>= f else y >>= f) Q := by
  split
  · exact hx.bind h hf
  · exact hy.bind h hf

/-! ### Scope and progress -/

/-- Reading the scope gives the scope. -/
theorem read_bind {k : Scope → Planning β} {Q : Progress → β → Prop} (h : Ends J D s p (k s) Q) :
    Ends J D s p (read >>= k) Q := ⟨h.gives, h.waits⟩

/-- A parameter that is found is bound within the invariant. -/
theorem lookup (h : J.At unions s p) {name : String} :
    Ends J D s p (lookup name) fun q b => J.Binds unions q b ∧ s.binding? name = some b := by
  unfold Planning.lookup
  refine read_bind ?_
  split
  · next b hb => exact pure h ⟨h.binding hb, hb⟩
  · exact fail

/-- An action ends under a frame as it does with the frame in scope. -/
theorem withFrame {params : List String} {bindings : List Binding}
    (h : Ends J D { s with frames := frame params bindings :: s.frames } p act Q) :
    Ends J D s p (withFrame params bindings act) Q :=
  ⟨fun hg => h.gives (gives_withFrame.mp hg).2, fun hw => h.waits (waits_withFrame hw)⟩

/-- A selection inside an expression does not have to wait. -/
theorem asSubquery {D' : Prop} (h : Ends J D' { s with inProjection := false } p act Q) :
    Ends J D s p (asSubquery act) Q := by
  have h' : Ends J D { s with inProjection := false } p act Q := h.of_subquery rfl
  exact ⟨h'.gives, fun hw => absurd (h'.waits hw).2.2.2 Bool.false_ne_true⟩

/-- A deferral leaves without a node. -/
theorem defer (h : J.At unions s p) (hD : D) {declaring method : String} {arity : Nat} :
    Ends J D s p (defer declaring method arity) Q := by
  refine ⟨fun hg => absurd hg not_gives_defer, fun hw => ?_⟩
  obtain ⟨hs, rfl⟩ := waits_defer hw
  exact ⟨h.progress, .refl _, hD, hs⟩

/-- Taking an alias keeps the invariant. -/
theorem nextAlias (h : J.At unions s p) : Ends J D s p nextAlias fun _ _ => True := by
  refine ⟨fun hg => ?_, nofun⟩
  obtain ⟨-, rfl⟩ := gives_nextAlias.mp hg
  exact ⟨J.aliased _ h.progress, .aliased p _, trivial⟩

/-- An action ends with aliases of its own as it does from the first one. -/
theorem withOwnAliases (hx : Ends J D s { p with nextAlias := 0 } x R)
    (hQ : ∀ q a position, p.Before q → R q a → Q { q with nextAlias := position } a) :
    Ends J D s p (withOwnAliases x) Q := by
  have hbefore : p.Before { p with nextAlias := 0 } := .aliased p 0
  constructor
  · intro a r hg
    obtain ⟨q, ha, rfl⟩ := gives_withOwnAliases.mp hg
    obtain ⟨hq, hle, ha⟩ := hx.gives ha
    exact ⟨J.aliased _ hq, (hbefore.trans hle).trans (.aliased q _), hQ q a _ (hbefore.trans hle) ha⟩
  · intro r hw
    obtain ⟨hq, hle, hD⟩ := hx.waits (waits_withOwnAliases hw)
    exact ⟨hq, hbefore.trans hle, hD⟩

/-- A projected expression is planned, or left because it may have to wait. -/
theorem projected {act : Planning Node} {Q : Progress → Node → Prop} {D' : Prop}
    (hx : Ends J D { s with inProjection := true } p act Q) :
    Ends J D' s p (projected act) fun q n? => (∀ n, n? = some n → Q q n) ∧ (n? = none → D) := by
  refine ⟨fun hg => ?_, fun hw => absurd hw not_waits_projected⟩
  obtain ⟨n, rfl, hn⟩ | ⟨rfl, r, hw, rfl⟩ := cases_of_projected hg
  · obtain ⟨hq, hle, hn⟩ := hx.gives hn
    refine ⟨hq, hle, fun m hm => ?_, nofun⟩
    cases hm
    exact hn
  · obtain ⟨hr, hle, hD, -⟩ := hx.waits hw
    exact ⟨J.aliased _ hr, hle.trans (.aliased r _), nofun, fun _ => hD⟩

/-! ### Lists -/

/-- Several things are planned one after the other, and what is said about them stays true. -/
theorem mapM {f : α → Planning β} {Q : Progress → β → Prop} {as : List α} (h : J.At unions s p)
    (hQ : ∀ {q r b}, q.Before r → Q q b → Q r b)
    (hf : ∀ a ∈ as, ∀ {q}, J.At unions s q → p.Before q → Ends J D s q (f a) Q) :
    Ends J D s p (as.mapM f) fun q bs => ∀ b ∈ bs, Q q b := by
  induction as generalizing p with
  | nil =>
    rw [List.mapM_nil]
    exact pure h nofun
  | cons a rest ih =>
    rw [List.mapM_cons]
    refine (hf a List.mem_cons_self h (.refl _)).bind h fun h₁ hle₁ hb => ?_
    refine (ih h₁ fun a ha _ hq hle => hf a (List.mem_cons_of_mem _ ha) hq (hle₁.trans hle)).bind h₁
      fun h₂ hle₂ hbs => ?_
    refine pure h₂ fun c hc => ?_
    obtain rfl | hc := List.mem_cons.mp hc
    · exact hQ hle₂ hb
    · exact hbs c hc

/-- One action for each member ends if each of them does. -/
theorem forM {f : α → Planning Unit} {as : List α} (h : J.At unions s p)
    (hf : ∀ a ∈ as, ∀ {q}, J.At unions s q → Ends J D s q (f a) fun _ _ => True) :
    Ends J D s p (as.forM f) fun _ _ => True := by
  induction as generalizing p with
  | nil => exact pure h trivial
  | cons a rest ih =>
    exact (hf a List.mem_cons_self h).bind h fun h₁ _ _ => ih h₁ fun a ha => hf a (List.mem_cons_of_mem _ ha)

end Ends

end Planning

end LambdaSql
