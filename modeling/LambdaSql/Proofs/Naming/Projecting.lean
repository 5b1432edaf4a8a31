import LambdaSql.Proofs.Naming.Reading

/-!
# What projections refer to

The columns of a projection refer to what its expressions do, as long as none of them is left for
evaluation after fetching.

## Main definitions

* `Projected.Accounts` - references that account for the columns of a projection.
* `Projected.Left` - a projection with an expression left for evaluation after fetching.

## Main results

* `Projected.gives_member`, `Projected.gives_scalar` - adding an expression.
* `Projected.accounts_object`, `Projected.accounts_overlay`, `Projected.accounts_body` - the forms of
  projections.
-/

namespace LambdaSql.Projected

open Planning

/-- The nodes of the columns of a projection. -/
def nodes (out : Projected) : List Node := out.columns.map (·.node)

/-! ## Adding columns -/

section Adding

variable {around : List Level}

/-- A node that takes the place of another adds its own occurrences at most. -/
private theorem nodesOccurrences_set (ns : List Node) (i : Nat) (n : Node) :
    nodesOccurrences around (ns.set i n) ≤ nodesOccurrences around ns + n.occurrences around := by
  induction ns generalizing i with
  | nil => exact zero_le
  | cons m rest ih =>
    cases i with
    | zero =>
      rw [List.set_cons_zero, nodesOccurrences_cons, nodesOccurrences_cons, add_comm]
      exact add_le_add (le_add_left le_rfl) le_rfl
    | succ i =>
      rw [List.set_cons_succ, nodesOccurrences_cons, nodesOccurrences_cons, add_assoc]
      exact add_le_add le_rfl (ih i)

/-- Pushing a column defers nothing. -/
@[simp]
theorem deferred_push (out : Projected) (name : String) (n : Node) (replace : Bool) :
    (out.push name n replace).deferred = out.deferred := by
  unfold push
  dsimp only
  split <;> rfl

/-- An added column takes the place of another one or stands after the others. -/
theorem nodes_push (out : Projected) (name : String) (n : Node) (replace : Bool) :
    nodesOccurrences around (out.push name n replace).nodes ≤
      nodesOccurrences around out.nodes + n.occurrences around := by
  have appended : nodesOccurrences around (out.nodes ++ [n]) ≤
      nodesOccurrences around out.nodes + n.occurrences around := by
    rw [nodesOccurrences_append, nodesOccurrences_cons, nodesOccurrences_nil, add_zero]
  unfold push
  dsimp only
  split
  · simp only [nodes, List.map_set]
    exact nodesOccurrences_set _ _ n
  · simpa only [nodes, List.map_append, List.map_cons, List.map_nil] using appended

/-- Pushing columns defers nothing. -/
@[simp]
theorem deferred_pushAll (out : Projected) (columns : List (String × Node)) :
    (out.pushAll columns).deferred = out.deferred := by
  unfold pushAll
  induction columns generalizing out with
  | nil => rfl
  | cons c rest ih => rw [List.foldl_cons, ih, deferred_push]

/-- Pushed columns add no more than their own occurrences, also where they replace others. -/
theorem nodes_pushAll (out : Projected) (columns : List (String × Node)) :
    nodesOccurrences around (out.pushAll columns).nodes ≤
      nodesOccurrences around out.nodes + nodesOccurrences around (columns.map Prod.snd) := by
  unfold pushAll
  induction columns generalizing out with
  | nil => exact le_add_right le_rfl
  | cons c rest ih =>
    rw [List.foldl_cons, List.map_cons, nodesOccurrences_cons, ← add_assoc]
    exact (ih _).trans (add_le_add (nodes_push out c.1 c.2 false) le_rfl)

/-- A scalar is added after the columns there are. -/
theorem nodes_pushScalar (out : Projected) (n : Node) :
    (out.pushScalar n).nodes = out.nodes ++ [n] := by
  simp only [nodes, pushScalar, List.map_append, List.map_cons, List.map_nil]

end Adding

/-! ## Expressions -/

/-- A projection with an expression left for evaluation after fetching: the columns that the expression
reads are selected after the others. -/
structure Left (s : Scope) (out out' : Projected) : Prop where
  deferred : out'.deferred ≠ []
  nodes : ∃ ns, out'.nodes = out.nodes ++ ns ∧
    ∀ n ∈ ns, ∃ param b, s.binding? param = some b ∧ b.Reads n

variable {s : Scope} {p p' : Progress} {out out' : Projected} {name : String}

/-- The column of a member is read from what the parameter is bound to. -/
private theorem gives_columnOf {param member : String} {n : Node} (h : (columnOf param member).Gives s p n p') :
    p' = p ∧ ∃ b, s.binding? param = some b ∧ b.Reads n := by
  simp only [columnOf, gives_bind, gives_lookup] at h
  obtain ⟨b, _, ⟨hb, rfl⟩, h⟩ := h
  cases b with
  | table t =>
    obtain ⟨hn, rfl⟩ := gives_ofExcept.mp h
    exact ⟨rfl, _, hb, .column hn⟩
  | grouping g =>
    obtain ⟨hn, rfl⟩ := gives_ofExcept.mp h
    exact ⟨rfl, _, hb, .key (Grouping.mem_of_lookup (Grouping.lookup_of_key hn))⟩

/-- Hidden columns are read from what their parameters are bound to. -/
private theorem gives_hidden (hidden : List HiddenColumn) : ∀ {p : Progress} {columns : List Selected},
    (hidden.mapM fun h : HiddenColumn => do
      return (⟨← columnOf h.param h.member, some h.column⟩ : Selected)).Gives s p columns p' →
    p' = p ∧ ∀ n ∈ columns.map (·.node), ∃ param b, s.binding? param = some b ∧ b.Reads n := by
  induction hidden with
  | nil =>
    intro p columns h
    obtain ⟨rfl, rfl⟩ := gives_mapM_nil.mp h
    exact ⟨rfl, nofun⟩
  | cons h rest ih =>
    intro p columns hg
    obtain ⟨c, q, others, hc, hrest, rfl⟩ := gives_mapM_cons.mp hg
    simp only [gives_bind, gives_pure] at hc
    obtain ⟨n, _, hn, rfl, rfl⟩ := hc
    obtain ⟨rfl, b, hb, hreads⟩ := gives_columnOf hn
    obtain ⟨rfl, hothers⟩ := ih hrest
    refine ⟨rfl, fun m hm => ?_⟩
    rw [List.map_cons, List.mem_cons] at hm
    obtain rfl | hm := hm
    · exact ⟨h.param, b, hb, hreads⟩
    · exact hothers m hm

/-- Leaving an expression selects what it reads, and uses up no aliases. -/
private theorem gives_leave {e : Expr} (h : (out.leave name e).Gives s p out' p') :
    Left s out out' ∧ p' = p := by
  simp only [leave, gives_bind, gives_pure] at h
  obtain ⟨columns, q, hcolumns, rfl, rfl⟩ := h
  obtain ⟨rfl, hreads⟩ := gives_hidden _ hcolumns
  refine ⟨⟨?_, columns.map (·.node), ?_, hreads⟩, rfl⟩
  · simp
  · simp only [nodes, List.map_append]

/-- An expression is added as it is planned, or left for evaluation after fetching. -/
theorem gives_projected_or {act : Planning Node} {e : Expr} {push : Node → Projected}
    (h : (do
      match ← projected act with
      | some n => return push n
      | none => out.leave name e).Gives s p out' p') :
    (∃ n, act.Gives { s with inProjection := true } p n p' ∧ out' = push n) ∨
      Left s out out' ∧ p'.nextAlias = p.nextAlias := by
  obtain ⟨n?, q, hn, hout⟩ := gives_bind.mp h
  rw [gives_projected] at hn
  obtain ⟨n, rfl, hn⟩ | ⟨rfl, _, _, _, q', -, rfl⟩ := hn
  · obtain ⟨rfl, rfl⟩ := gives_pure.mp hout
    exact .inl ⟨n, hn, rfl⟩
  · obtain ⟨hleft, rfl⟩ := gives_leave hout
    exact .inr ⟨hleft, rfl⟩

/-- A named expression. -/
theorem gives_member {o : Operand} {replace : Bool}
    (h : (out.member name o replace).Gives s p out' p') :
    (∃ n, o.value.Gives { s with inProjection := true } p n p' ∧ out' = out.push name n replace) ∨
      Left s out out' ∧ p'.nextAlias = p.nextAlias := gives_projected_or h

/-- A single expression. -/
theorem gives_scalar {o : Operand} (h : (out.scalar o).Gives s p out' p') :
    (∃ n, o.value.Gives { s with inProjection := true } p n p' ∧ out' = out.pushScalar n) ∨
      Left s out out' ∧ p'.nextAlias = p.nextAlias := gives_projected_or h

/-- An expression that stands for a grouping is a parameter, or the key of one. -/
theorem gives_grouping? {e : Expr} {g? : Option Grouping} (h : (grouping? e).Gives s p g? p') :
    p' = p ∧ ∀ g, g? = some g → ∃ param, s.binding? param = some (.grouping g) ∧
      (e = .param param ∨ ∃ key, isKeyMember key = true ∧ e = .member (.param param) key) := by
  unfold grouping? at h
  extract_lets param? at h
  simp only [gives_bind, gives_read] at h
  obtain ⟨_, _, ⟨rfl, rfl⟩, h⟩ := h
  split at h
  case h_2 =>
    obtain ⟨rfl, rfl⟩ := gives_pure.mp h
    exact ⟨rfl, by simp⟩
  next g' hg' =>
  obtain ⟨rfl, rfl⟩ := gives_pure.mp h
  refine ⟨rfl, fun g hg => ?_⟩
  cases hg
  obtain ⟨param, hparam, hb⟩ := Option.bind_eq_some_iff.mp hg'
  refine ⟨param, hb, ?_⟩
  unfold param? at hparam
  split at hparam
  · cases hparam
    exact .inl rfl
  · next name =>
    split at hparam
    · next hkey =>
      cases hparam
      exact .inr ⟨name, hkey, rfl⟩
    · cases hparam
  · cases hparam

/-! ## Accounting -/

/-- References that account for the columns of a projection, unless an expression is left for evaluation
after fetching. -/
structure Accounts (out : Projected) (around : List Level) (rs : Multiset Reference) : Prop where
  distinct : ∀ o ∈ nodesOccurrences around out.nodes, (aliases o.around).Nodup
  denoted : out.deferred = [] → LambdaSql.Accounts (nodesOccurrences around out.nodes) rs

section Accounts

variable {places : Places} {q : Progress} {around : List Level} {rs rs' : Multiset Reference}

/-- A projection of nothing is accounted for. -/
theorem Accounts.empty : Accounts {} around rs := ⟨nofun, fun _ => .zero⟩

/-- A projection that is accounted for is so by more references as well. -/
theorem Accounts.mono (h : out.Accounts around rs) (hle : rs ≤ rs') : out.Accounts around rs' :=
  ⟨h.distinct, fun hd => (h.denoted hd).mono le_rfl hle⟩

/-- A projection with further columns that are accounted for. -/
theorem Accounts.extend (h : out.Accounts around rs) {os : Multiset Occurrence}
    (hd : out'.deferred = out.deferred)
    (hle : nodesOccurrences around out'.nodes ≤ nodesOccurrences around out.nodes + os)
    (hos : LambdaSql.Accounts os rs') : out'.Accounts around (rs + rs') where
  distinct := by
    intro o ho
    obtain ho | ho := Multiset.mem_add.mp (Multiset.mem_of_le hle ho)
    · exact h.distinct o ho
    · exact hos.distinct o ho
  denoted := by
    intro hnone
    rw [hd] at hnone
    exact ((h.denoted hnone).add hos).mono hle le_rfl

/-- Pushed columns are accounted for by their references and those before. -/
theorem Accounts.pushAll (h : out.Accounts around rs) {columns : List (String × Node)}
    (hc : LambdaSql.Accounts (nodesOccurrences around (columns.map Prod.snd)) rs') :
    (out.pushAll columns).Accounts around (rs + rs') :=
  h.extend (deferred_pushAll out columns) (nodes_pushAll out columns) hc

/-- A projection with an expression left for evaluation after fetching. -/
theorem Accounts.left (h : out.Accounts around rs) (hleft : Left s out out')
    (ha : Apt s places p p' around) : out'.Accounts around rs' where
  distinct := by
    obtain ⟨ns, hns, hreads⟩ := hleft.nodes
    intro o ho
    rw [hns, nodesOccurrences_append, Multiset.mem_add] at ho
    obtain ho | ho := ho
    · exact h.distinct o ho
    · obtain ⟨n, hn, ho⟩ := mem_nodesOccurrences.mp ho
      obtain ⟨param, b, hb, hreads⟩ := hreads n hn
      obtain ⟨_, _, hstands⟩ := ha.find hb
      exact hstands.distinct ha.distinct hreads o ho
  denoted := fun hnone => absurd hnone hleft.deferred

/-- An added expression. -/
theorem accounts_added {o : Operand} (ho : o.IsFaithful) {push : Node → Projected}
    (hd : ∀ n, (push n).deferred = out.deferred)
    (hpush : ∀ around n, nodesOccurrences around (push n).nodes ≤
      nodesOccurrences around out.nodes + n.occurrences around)
    (h : (∃ n, o.value.Gives { s with inProjection := true } p n p' ∧ out' = push n) ∨
      Left s out out' ∧ p'.nextAlias = p.nextAlias) :
    p.nextAlias ≤ p'.nextAlias ∧ ∀ around rs, Apt s places p p' around → out.Accounts around rs →
      out'.Accounts around (rs + o.source.references s.compiler.model places around.length) := by
  obtain ⟨n, hn, rfl⟩ | ⟨hleft, hnext⟩ := h
  · have hf := ho.faithful places (.value hn)
    refine ⟨hf.le, fun around rs ha hout => ?_⟩
    refine hout.extend (hd n) (hpush around n) ?_
    have := hf.accounts around (ha.projecting true)
    rwa [nodesOccurrences_cons, nodesOccurrences_nil, add_zero] at this
  · exact ⟨hnext.ge, fun around rs ha hout => hout.left hleft ha⟩

/-- A member is accounted for by its references and those before. -/
theorem accounts_member {o : Operand} (ho : o.IsFaithful) {replace : Bool}
    (h : (out.member name o replace).Gives s p out' p') :
    p.nextAlias ≤ p'.nextAlias ∧ ∀ around rs, Apt s places p p' around → out.Accounts around rs →
      out'.Accounts around (rs + o.source.references s.compiler.model places around.length) :=
  accounts_added ho (fun n => deferred_push out name n replace)
    (fun _ n => nodes_push out name n replace) (gives_member h)

/-- A single expression that is projected is accounted for by its references. -/
private theorem accounts_scalar {o : Operand} (ho : o.IsFaithful) (h : (out.scalar o).Gives s p out' p') :
    p.nextAlias ≤ p'.nextAlias ∧ ∀ around rs, Apt s places p p' around → out.Accounts around rs →
      out'.Accounts around (rs + o.source.references s.compiler.model places around.length) := by
  have hscalar := gives_scalar h
  refine accounts_added ho (fun _ => ?_) (fun around n => ?_) hscalar
  · rfl
  rw [nodes_pushScalar, nodesOccurrences_append, nodesOccurrences_cons, nodesOccurrences_nil, add_zero]

/-- An expression that stands for a grouping refers to all of its keys. -/
theorem accounts_grouping {e : Expr} {param : String} {g : Grouping} (ha : Apt s places p p' around)
    (hb : s.binding? param = some (.grouping g))
    (he : e = .param param ∨ ∃ key, isKeyMember key = true ∧ e = .member (.param param) key) :
    LambdaSql.Accounts (nodesOccurrences around (g.keys.map Prod.snd))
      (e.references s.compiler.model places around.length) := by
  obtain ⟨_, hplace, hstands⟩ := ha.find hb
  cases hstands with
  | grouping hkeys _ =>
    obtain rfl | ⟨key, hkey, rfl⟩ := he
    · rw [Expr.references, hplace]
      exact hkeys.accounts ha.distinct
    · rw [Expr.references, memberReferences, hplace, Option.map_some, Option.getD_some, Place.member,
        if_pos hkey]
      exact hkeys.accounts ha.distinct

/-- An expression that is added, and then others. -/
theorem accounts_next {o : Operand} {named : List (String × Operand)} {mid : Projected}
    (h : p.nextAlias ≤ q.nextAlias ∧ ∀ around rs, Apt s places p q around → out.Accounts around rs →
      mid.Accounts around (rs + o.source.references s.compiler.model places around.length))
    (h' : q.nextAlias ≤ p'.nextAlias ∧ ∀ around rs, Apt s places q p' around → mid.Accounts around rs →
      out'.Accounts around (rs +
        (named.map fun m => m.2.source.references s.compiler.model places around.length).sum)) :
    p.nextAlias ≤ p'.nextAlias ∧ ∀ around rs, Apt s places p p' around → out.Accounts around rs →
      out'.Accounts around (rs + (((name, o) :: named).map fun m =>
        m.2.source.references s.compiler.model places around.length).sum) := by
  refine ⟨h.1.trans h'.1, fun around rs ha hout => ?_⟩
  rw [List.map_cons, List.sum_cons, ← add_assoc]
  exact h'.2 around _ (ha.within h.1 le_rfl) (h.2 around rs (ha.within le_rfl h'.1) hout)

/-- The members of an object.

**Proof sketch.** By induction on the members: the keys of groups are accounted for by the references of their
parameter, and any other member by its own. -/
theorem accounts_object {named : List (String × Operand)} (hn : ∀ m ∈ named, m.2.IsFaithful)
    (h : (out.object named).Gives s p out' p') :
    p.nextAlias ≤ p'.nextAlias ∧ ∀ around rs, Apt s places p p' around → out.Accounts around rs →
      out'.Accounts around (rs +
        (named.map fun m => m.2.source.references s.compiler.model places around.length).sum) := by
  induction named generalizing out p with
  | nil =>
    obtain ⟨rfl, rfl⟩ := gives_pure.mp h
    exact ⟨le_rfl, fun around rs _ hout => hout.mono (le_add_right le_rfl)⟩
  | cons m rest ih =>
    obtain ⟨name, o⟩ := m
    have ho : o.IsFaithful := hn _ List.mem_cons_self
    have hrest := fun m hm => hn m (List.mem_cons_of_mem _ hm)
    have added {q : Progress} (hq : (do object (← out.member name o false) rest : Planning _).Gives s q out' p') :
        q.nextAlias ≤ p'.nextAlias ∧ ∀ around rs, Apt s places q p' around → out.Accounts around rs →
          out'.Accounts around (rs + (((name, o) :: rest).map fun m =>
            m.2.source.references s.compiler.model places around.length).sum) := by
      obtain ⟨mid, q', hmid, hobject⟩ := gives_bind.mp hq
      exact accounts_next (accounts_member ho hmid) (ih hrest hobject)
    obtain ⟨g?, q, hg, hobject⟩ := gives_bind.mp h
    obtain ⟨rfl, hgrouping⟩ := gives_grouping? hg
    split at hobject
    · next g =>
      split at hobject
      · obtain ⟨param, hb, he⟩ := hgrouping g rfl
        refine accounts_next ⟨le_rfl, fun around rs ha hout => ?_⟩ (ih hrest hobject)
        exact hout.pushAll (accounts_grouping ha hb he)
      · exact added hobject
    · exact added hobject

/-- The members of an object that is laid over a projection. -/
theorem accounts_overlay {named : List (String × Operand)} (hn : ∀ m ∈ named, m.2.IsFaithful)
    (h : (out.overlay named).Gives s p out' p') :
    p.nextAlias ≤ p'.nextAlias ∧ ∀ around rs, Apt s places p p' around → out.Accounts around rs →
      out'.Accounts around (rs +
        (named.map fun m => m.2.source.references s.compiler.model places around.length).sum) := by
  induction named generalizing out p with
  | nil =>
    obtain ⟨rfl, rfl⟩ := gives_pure.mp h
    exact ⟨le_rfl, fun around rs _ hout => hout.mono (le_add_right le_rfl)⟩
  | cons m rest ih =>
    obtain ⟨name, o⟩ := m
    obtain ⟨mid, q, hmid, hoverlay⟩ := gives_bind.mp h
    exact accounts_next (accounts_member (hn _ List.mem_cons_self) hmid)
      (ih (fun m hm => hn m (List.mem_cons_of_mem _ hm)) hoverlay)

/-- A projection that builds no object.

**Proof sketch.** By what the expression stands for: groups with their keys, a whole row with the columns of its
table, or a value. -/
theorem accounts_body {o : Operand} (ho : o.IsFaithful) (h : (out.body o).Gives s p out' p') :
    p.nextAlias ≤ p'.nextAlias ∧ ∀ around rs, Apt s places p p' around → out.Accounts around rs →
      out'.Accounts around (rs + o.source.references s.compiler.model places around.length) := by
  obtain ⟨g?, q, hg, hbody⟩ := gives_bind.mp h
  obtain ⟨rfl, hgrouping⟩ := gives_grouping? hg
  split at hbody
  · next g =>
    obtain ⟨rfl, rfl⟩ := gives_pure.mp hbody
    obtain ⟨param, hb, he⟩ := hgrouping g rfl
    exact ⟨le_rfl, fun around rs ha hout => hout.pushAll (accounts_grouping ha hb he)⟩
  · split at hbody
    · next param hsource =>
      simp only [gives_bind, gives_lookup] at hbody
      obtain ⟨b, _, ⟨hb, rfl⟩, hbody⟩ := hbody
      rw [hsource]
      split at hbody
      · next t =>
        obtain ⟨rfl, rfl⟩ := gives_pure.mp hbody
        refine ⟨le_rfl, fun around rs ha hout => hout.pushAll ?_⟩
        obtain ⟨_, hplace, hstands⟩ := ha.find hb
        cases hstands with
        | table ht =>
          rw [Expr.references, hplace]
          exact ht.accounts_columns ha.distinct
      · next g =>
        obtain ⟨rfl, rfl⟩ := gives_pure.mp hbody
        exact ⟨le_rfl, fun around rs ha hout =>
          hout.pushAll (accounts_grouping ha hb (.inl rfl))⟩
    · exact accounts_scalar ho hbody

/-- A projection of all columns: the keys of the groups, or the columns of the first table. -/
theorem accounts_whole {tables : List TableBinding} {tablePlaces : List TablePlace}
    {first : Char} {limit : Nat} (hd : (aliases around).Nodup)
    (ht : List.Forall₂ (TableBinding.StandsFor around) tables tablePlaces)
    {grouping : Option Grouping} {keys : Option (List (String × (Nat → Multiset Reference)))}
    (hk : Option.Rel (fun g keys => KeysStand first limit around g.keys keys) grouping keys) :
    (whole tables grouping).Accounts around (wholeReferences around.length tablePlaces keys) := by
  have hempty : Accounts {} around 0 := .empty
  rw [← zero_add (wholeReferences _ _ _)]
  cases hk with
  | some hk => exact hempty.pushAll (hk.accounts hd)
  | none =>
    refine hempty.pushAll ?_
    cases ht with
    | nil => exact .zero
    | cons ht _ => exact ht.accounts_columns hd

end Accounts

end LambdaSql.Projected
