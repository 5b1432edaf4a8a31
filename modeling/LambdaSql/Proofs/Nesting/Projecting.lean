import LambdaSql.Proofs.Naming.Projecting
import LambdaSql.Proofs.Nesting.Lowering

/-!
# How projecting goes on

A projection that keeps an invariant has columns with what the invariant says of nodes. Expressions are left for
evaluation after fetching only if the projection may have to wait.

## Main definitions

* `Projected.Holds` - what an invariant says of a projection.

## Main results

* `Projected.ends_object`, `Projected.ends_overlay`, `Projected.ends_body` - the forms of projections.
-/

namespace LambdaSql.Projected

open Planning

variable {J : Invariant} {D D' : Prop} {unions : List String} {s : Scope} {p q : Progress} {out : Projected}
  {o : Operand} {named : List (String × Operand)}

variable (J D unions p out) in
/-- What an invariant says of a projection: its columns are such nodes, and it leaves expressions for evaluation
after fetching under a condition only. -/
structure Holds : Prop where
  columns : ∀ c ∈ out.columns, J.node unions p c.node
  deferred : out.deferred ≠ [] → D

/-! ## Adding columns -/

namespace Holds

/-- A projection of nothing is within the invariant. -/
theorem empty : Holds J D unions p {} := ⟨nofun, fun h => absurd rfl h⟩

/-- A projection is within the invariant later. -/
theorem later (h : Holds J D unions p out) (hle : p.Before q) : Holds J D unions q out :=
  { h with columns := fun c hc => J.node_later hle (h.columns c hc) }

/-- A pushed column is within the invariant if its node is. -/
theorem push (h : Holds J D unions p out) {n : Node} (hn : J.node unions p n) (name : String) (replace : Bool) :
    Holds J D unions p (out.push name n replace) := by
  refine ⟨fun c hc => ?_, by simpa using h.deferred⟩
  unfold Projected.push at hc
  dsimp only at hc
  split at hc
  · obtain hc | rfl := List.mem_or_eq_of_mem_set hc
    · exact h.columns c hc
    · exact hn
  · obtain hc | hc := List.mem_append.mp hc
    · exact h.columns c hc
    · rw [List.mem_singleton.mp hc]
      exact hn

/-- Pushed columns are within the invariant if their nodes are. -/
theorem pushAll (h : Holds J D unions p out) {columns : List (String × Node)}
    (hc : ∀ c ∈ columns, J.node unions p c.2) : Holds J D unions p (out.pushAll columns) :=
  List.foldlRecOn columns _ h fun _ hout c hmem => hout.push (hc c hmem) ..

/-- A scalar is within the invariant if its node is. -/
theorem pushScalar (h : Holds J D unions p out) {n : Node} (hn : J.node unions p n) :
    Holds J D unions p (out.pushScalar n) := by
  refine ⟨fun c hc => ?_, h.deferred⟩
  obtain hc | hc := List.mem_append.mp hc
  · exact h.columns c hc
  · rw [List.mem_singleton.mp hc]
    exact hn

end Holds

/-- The column of a member is planned within the invariant. -/
private theorem ends_columnOf (h : J.At unions s p) (param member : String) :
    Ends J D s p (columnOf param member) (J.node unions) := by
  unfold columnOf
  refine (Ends.lookup h).bind h fun h₁ _ hb => ?_
  split
  · exact .ofExcept h₁ fun n hn => hb.1 n (.column hn)
  · exact .ofExcept h₁ fun n hn => hb.1 n (.key (Grouping.mem_of_lookup (Grouping.lookup_of_key hn)))

/-- What is left for evaluation after fetching adds the columns it reads. -/
theorem ends_leave (h : J.At unions s p) (hout : Holds J D unions p out) (hD : D) (name : String) (e : Expr) :
    Ends J D' s p (out.leave name e) fun q r => Holds J D unions q r := by
  unfold leave
  refine (Ends.mapM (Q := fun q (c : Selected) => J.node unions q c.node) h J.node_later
    fun c _ _ h₁ _ => ?_).bind h fun h₁ hle hcolumns => .pure h₁ ⟨fun c hc => ?_, fun _ => hD⟩
  · exact (ends_columnOf h₁ ..).bind h₁ fun h₂ _ hn => .pure h₂ hn
  · obtain hc | hc := List.mem_append.mp hc
    · exact J.node_later hle (hout.columns c hc)
    · exact hcolumns c hc

/-- A member is projected within the invariant if its value is planned so. -/
theorem ends_member (h : J.At unions s p) (hout : Holds J D unions p out) (ho : o.Ends J D unions)
    (name : String) (replace : Bool) :
    Ends J D' s p (out.member name o replace) fun q r => Holds J D unions q r := by
  unfold member
  refine (Ends.projected (ho.value (h.projecting true))).bind h fun h₁ hle hn? => ?_
  split
  · exact .pure h₁ ((hout.later hle).push (hn?.1 _ rfl) name replace)
  · exact ends_leave h₁ (hout.later hle) (hn?.2 rfl) ..

/-- A single expression is projected within the invariant if it is planned so. -/
private theorem ends_scalar (h : J.At unions s p) (hout : Holds J D unions p out) (ho : o.Ends J D unions) :
    Ends J D' s p (out.scalar o) fun q r => Holds J D unions q r := by
  unfold scalar
  refine (Ends.projected (ho.value (h.projecting true))).bind h fun h₁ hle hn? => ?_
  split
  · exact .pure h₁ ((hout.later hle).pushScalar (hn?.1 _ rfl))
  · exact ends_leave h₁ (hout.later hle) (hn?.2 rfl) ..

/-! ## Forms -/

/-- A grouping that is found is bound within the invariant. -/
theorem ends_grouping? (h : J.At unions s p) (e : Expr) :
    Ends J D s p (grouping? e) fun q g? => ∀ g, g? = some g → J.Binds unions q (.grouping g) := by
  unfold grouping?
  refine .read_bind ?_
  split
  · next g hg =>
    obtain ⟨param, -, hb⟩ := Option.bind_eq_some_iff.mp hg
    refine .pure h fun g' hg' => ?_
    cases hg'
    exact h.binding hb
  · exact .pure h nofun

/-- The keys of allowed groups are allowed. -/
private theorem binds_keys {g : Grouping} (hg : J.Binds unions p (.grouping g)) : ∀ k ∈ g.keys, J.node unions p k.2 :=
  fun _ hk => hg _ (.key hk)

/-- The columns of a table are allowed. -/
private theorem binds_columns (t : TableBinding) : ∀ c ∈ t.columns, J.node unions p c.2 :=
  fun _ hc => Invariant.Binds.table t _ (.row hc)

/-- An object is projected within the invariant if its members are planned so. -/
theorem ends_object (h : J.At unions s p) (hout : Holds J D unions p out)
    (hn : ∀ m ∈ named, m.2.Ends J D unions) :
    Ends J D' s p (out.object named) fun q r => Holds J D unions q r := by
  induction named generalizing out p with
  | nil => exact .pure h hout
  | cons m rest ih =>
    obtain ⟨name, o⟩ := m
    have hrest := fun m hm => hn m (List.mem_cons_of_mem _ hm)
    have added {q : Progress} (h : J.At unions s q) (hout : Holds J D unions q out) :
        Ends J D' s q (do object (← out.member name o false) rest) fun q r => Holds J D unions q r :=
      (ends_member h hout (hn _ List.mem_cons_self) name false).bind h fun h₁ _ hout => ih h₁ hout hrest
    unfold object
    refine (ends_grouping? h o.source).bind h fun h₁ hle hg => ?_
    split
    · split
      · exact ih h₁ ((hout.later hle).pushAll (binds_keys (hg _ rfl))) hrest
      · exact added h₁ (hout.later hle)
    · exact added h₁ (hout.later hle)

/-- An object over a table's columns is projected within the invariant if its members are planned so. -/
theorem ends_overlay (h : J.At unions s p) (hout : Holds J D unions p out)
    (hn : ∀ m ∈ named, m.2.Ends J D unions) :
    Ends J D' s p (out.overlay named) fun q r => Holds J D unions q r := by
  induction named generalizing out p with
  | nil => exact .pure h hout
  | cons m rest ih =>
    obtain ⟨name, o⟩ := m
    exact (ends_member h hout (hn _ List.mem_cons_self) name true).bind h fun h₁ _ hout =>
      ih h₁ hout fun m hm => hn m (List.mem_cons_of_mem _ hm)

/-- A body is projected within the invariant if it is planned so. -/
theorem ends_body (h : J.At unions s p) (hout : Holds J D unions p out) (ho : o.Ends J D unions) :
    Ends J D' s p (out.body o) fun q r => Holds J D unions q r := by
  unfold body
  refine (ends_grouping? h o.source).bind h fun h₁ hle hg => ?_
  split
  · exact .pure h₁ ((hout.later hle).pushAll (binds_keys (hg _ rfl)))
  · split
    · refine (Ends.lookup h₁).bind h₁ fun h₂ hle₂ hb => ?_
      split
      · exact .pure h₂ ((hout.later (hle.trans hle₂)).pushAll (binds_columns _))
      · exact .pure h₂ ((hout.later (hle.trans hle₂)).pushAll (binds_keys hb.1))
    · exact ends_scalar h₁ (hout.later hle) ho

/-- Tables and groupings are projected as a whole within the invariant. -/
theorem holds_whole (tables : List TableBinding) {grouping : Option Grouping}
    (hg : ∀ g, grouping = some g → J.Binds unions p (.grouping g)) :
    Holds J D unions p (whole tables grouping) := by
  cases grouping with
  | some g => exact Holds.empty.pushAll (binds_keys (hg g rfl))
  | none =>
    cases tables with
    | nil => exact Holds.empty.pushAll nofun
    | cons t rest => exact Holds.empty.pushAll (binds_columns t)

end LambdaSql.Projected
