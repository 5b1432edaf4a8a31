import LambdaSql.Proofs.Binding.Jobs

/-!
# Writing beside writing

One statement is written twice, beside parameters that need not be the same: alone, and in a batch. The texts may differ
in their placeholders, yet the same values are bound in the same order. So a relation between the two parameters that
each value keeps is kept by the whole statement, and where the first writing succeeds the second one does, too.

## Main definitions

* `Writing.Follows`, `Emission.Follows` - one writing succeeds beside another one.
* `Sketch.Keeps` - the values of a sketch keep a relation between parameters.

## Main results

* `Template.follows_expand` - templates.
* `follows_writeNode`, `follows_writeSelect`, `follows_writeCtes` - statements.
* `Emission.follows_planAndWrite` - what is planned and then written.
-/

namespace LambdaSql

variable {R : Parameters → Parameters → Prop}

namespace Writing

variable {α β γ δ : Type}

/-- Whenever the first writing succeeds, the second one succeeds beside it. -/
def Follows (R : Parameters → Parameters → Prop) (w : Writing α) (w' : Writing β) : Prop :=
  ∀ ⦃ps a ps' qs⦄, R ps qs → w.Gives ps a ps' → ∃ b qs', w'.Gives qs b qs' ∧ R ps' qs'

/-- What writes nothing follows. -/
theorem Follows.pure (a : α) (b : β) : Follows R (Pure.pure a) (Pure.pure b) := by
  intro ps _ ps' qs hR h
  obtain ⟨-, rfl⟩ := gives_pure.mp h
  exact ⟨b, qs, gives_pure.mpr ⟨rfl, rfl⟩, hR⟩

/-- One step after another follows if both do. -/
theorem Follows.bind {w : Writing α} {w' : Writing β} {f : α → Writing γ} {f' : β → Writing δ} (hw : Follows R w w')
    (hf : ∀ a b, Follows R (f a) (f' b)) : Follows R (w >>= f) (w' >>= f') := by
  intro ps c ps' qs hR h
  obtain ⟨a, ps₁, ha, hc⟩ := gives_bind.mp h
  obtain ⟨b, qs₁, hb, hR₁⟩ := hw hR ha
  obtain ⟨c', qs', hc', hR'⟩ := hf a b hR₁ hc
  exact ⟨c', qs', gives_bind.mpr ⟨b, qs₁, hb, hc'⟩, hR'⟩

/-- What is written is put into some form. -/
theorem Follows.map {w : Writing α} {w' : Writing β} (hw : Follows R w w') (f : α → γ) (f' : β → δ) :
    Follows R (do return f (← w)) (do return f' (← w')) := hw.bind fun a b => .pure (f a) (f' b)

/-- Several steps in turn follow if each one does. -/
theorem Follows.mapM {f f' : γ → Writing α} {xs : List γ} (h : ∀ x ∈ xs, Follows R (f x) (f' x)) :
    Follows R (xs.mapM f) (xs.mapM f') := by
  induction xs with
  | nil =>
    rw [List.mapM_nil, List.mapM_nil]
    exact .pure [] []
  | cons x xs ih =>
    obtain ⟨hx, hxs⟩ := List.forall_mem_cons.mp h
    rw [List.mapM_cons, List.mapM_cons]
    exact hx.bind fun a b => (ih hxs).map (a :: ·) (b :: ·)

end Writing

/-! ## The values of a sketch -/

namespace Sketch

/-- The values of a sketch keep a relation between parameters. -/
def Keeps (R : Parameters → Parameters → Prop) (sk : Sketch) : Prop :=
  ∀ name v native, Mark.value name v native ∈ sk →
    Writing.Follows R (Writing.bind name v native) (Writing.bind name v native)

variable {a b : Sketch}

/-- Two sketches in a row keep a relation if both do. -/
@[simp]
theorem keeps_append : Keeps R (a ++ b) ↔ a.Keeps R ∧ b.Keeps R := by
  simp only [Keeps, List.mem_append, or_imp, forall_and]

/-- An empty sketch keeps every relation. -/
@[simp]
theorem keeps_nil : Keeps R [] := nofun

/-- A text binds nothing. -/
@[simp]
theorem keeps_ofText (s : String) : (ofText s).Keeps R := by
  simp [Keeps, ofText]

/-- Parentheses bind nothing. -/
@[simp]
theorem keeps_parenthesised : a.parenthesised.Keeps R ↔ a.Keeps R := by
  simp [parenthesised]

/-- Parentheses bind nothing, needed or not. -/
@[simp]
theorem keeps_parenthesisedIf (needed : Bool) : (a.parenthesisedIf needed).Keeps R ↔ a.Keeps R := by
  cases needed <;> simp [parenthesisedIf]

/-- An alias binds nothing. -/
@[simp]
theorem keeps_aliased (aliasName : Option String) : (a.aliased aliasName).Keeps R ↔ a.Keeps R := by
  cases aliasName <;> simp [aliased]

/-- Joined sketches keep a relation if each does. -/
@[simp]
theorem keeps_joined (separator : String) (sks : List Sketch) :
    (joined separator sks).Keeps R ↔ ∀ sk ∈ sks, sk.Keeps R := by
  induction sks with
  | nil => simp [joined]
  | cons sk rest ih =>
    cases rest with
    | nil => simp [joined]
    | cons next rest => simp [joined, ih]

/-- A clause keeps a relation if what it is about does. -/
@[simp]
theorem keeps_clause (keyword : String) (sk? : Option Sketch) :
    (clause keyword sk?).Keeps R ↔ ∀ sk ∈ sk?, sk.Keeps R := by
  cases sk? <;> simp [clause]

/-- A clause of a list keeps a relation if each item does. -/
@[simp]
theorem keeps_listClause (keyword : String) (sks : List Sketch) :
    (listClause keyword sks).Keeps R ↔ ∀ sk ∈ sks, sk.Keeps R := by
  cases sks <;> simp [listClause]

end Sketch

/-! ## Templates -/

namespace Template

/-- An argument is written beside itself if the values of its sketch keep the relation. -/
def Argument.Follows (R : Parameters → Parameters → Prop) (a : Argument) (s : Nat × Sketch) : Prop :=
  s.2.Keeps R → Writing.Follows R a.write a.write

variable {args : List Argument} {sks : List (Nat × Sketch)}

/-- Arguments that follow sketches do so position by position. -/
private theorem argument_getElem? (h : List.Forall₂ (Argument.Follows R) args sks) (i : Nat) :
    args[i]? = none ∧ sks[i]? = none ∨ ∃ a s, args[i]? = some a ∧ sks[i]? = some s ∧ a.Follows R s := by
  induction h generalizing i with
  | nil => exact .inl ⟨rfl, rfl⟩
  | cons h _ ih =>
    cases i with
    | zero => exact .inr ⟨_, _, rfl, rfl, h⟩
    | succ i => exact ih i

/-- Arguments are written beside themselves one by one. -/
private theorem follows_arguments (h : List.Forall₂ (Argument.Follows R) args sks) (hsks : ∀ s ∈ sks, s.2.Keeps R) :
    Writing.Follows R (args.mapM Argument.write : Writing (List Phrase)) (args.mapM Argument.write) := by
  refine .mapM fun a ha => ?_
  induction h with
  | nil => cases ha
  | cons hfollows _ ih =>
    obtain ⟨hs, hrest⟩ := List.forall_mem_cons.mp hsks
    obtain rfl | ha := List.mem_cons.mp ha
    · exact hfollows hs
    · exact ih hrest ha

/-- **Templates are written beside themselves.** What was written before is the same arguments in both writings, and an
argument is bound at its first mention only.

**Proof sketch.** By induction on the pieces. The two writings differ in the texts of arguments but not in which have
been written, so they mention an argument for the first time at the same piece. -/
theorem follows_expandPieces (h : List.Forall₂ (Argument.Follows R) args sks) (pieces : List Piece)
    (hsk : Sketch.Keeps R (sketch sks pieces)) {written written' : List (Nat × Phrase)}
    (hwritten : ∀ i, (written.lookup i).isSome = (written'.lookup i).isSome) :
    Writing.Follows R (expandPieces args written pieces) (expandPieces args written' pieces) := by
  induction pieces generalizing written written' with
  | nil => exact .pure [] []
  | cons piece rest ih =>
    cases piece with
    | char c =>
      have hrest : Sketch.Keeps R (sketch sks rest) := fun name v native hmem =>
        hsk name v native (List.mem_cons_of_mem _ hmem)
      exact (ih hrest hwritten).map _ _
    | arguments =>
      simp only [sketch, Sketch.keeps_append, Sketch.keeps_joined, List.forall_mem_map] at hsk
      exact (follows_arguments h hsk.1).bind fun _ _ => (ih hsk.2 hwritten).map _ _
    | argument i delimited =>
      simp only [expandPieces]
      obtain ⟨hi, hi'⟩ | ⟨a, s, hi, hi', ha⟩ := argument_getElem? h i
      · simp only [sketch, hi', Sketch.keeps_append] at hsk
        rw [hi]
        exact (ih hsk.2 hwritten).map _ _
      · simp only [sketch, hi', Sketch.keeps_append, Sketch.keeps_parenthesisedIf] at hsk
        rw [hi]
        -- whichever texts are added, the same arguments count as written
        have hmore (p p' : Phrase) (k : Nat) :
            (((i, p) :: written).lookup k).isSome = (((i, p') :: written').lookup k).isSome := by
          rw [List.lookup_cons, List.lookup_cons]
          split
          · rfl
          · exact hwritten k
        have hi := hwritten i
        cases hlookup : written.lookup i with
        | none =>
          rw [hlookup, Option.isSome_none, eq_comm, Option.isSome_eq_false_iff, Option.isNone_iff_eq_none] at hi
          simp only [hi]
          exact (ha hsk.1).bind fun p p' => (ih hsk.2 (hmore p p')).map _ _
        | some p =>
          rw [hlookup, Option.isSome_some, eq_comm, Option.isSome_iff_exists] at hi
          obtain ⟨p', hp'⟩ := hi
          simp only [hp']
          exact (Writing.Follows.pure p p').bind fun p p' => (ih hsk.2 (hmore p p')).map _ _

/-- A template follows if all that is filled into it does. -/
theorem follows_expand (h : List.Forall₂ (Argument.Follows R) args sks) {template : String}
    (hsk : Sketch.Keeps R (sketch sks (pieces template))) :
    Writing.Follows R (expand template args) (expand template args) :=
  follows_expandPieces h (pieces template) hsk fun _ => rfl

end Template

/-! ## Trees -/

section Trees

variable {d : Dialect}

mutual

/-- **Expressions are written beside themselves**, by induction on the expression, along the steps of writing it.

**Proof sketch.** A bound value is one that its sketch keeps. Any other node is written from its parts, in the order
of the sketch. -/
theorem follows_writeNode : ∀ n : Node, (sketchNode d n).Keeps R → Writing.Follows R (writeNode d n) (writeNode d n)
  | .literal .., _ | .column .., _ | .raw .., _ | .null, _ => .pure _ _
  | .bound value native name _, h => h name value native List.mem_cons_self
  | .binary op left right _, h => by
    simp only [sketchNode, Sketch.keeps_append, Sketch.keeps_parenthesisedIf] at h
    exact (follows_writeNode left h.1.1).bind fun _ _ => (follows_writeNode right h.2).map _ _
  | .unary .not operand _, h => by
    simp only [sketchNode, Sketch.keeps_append, Sketch.keeps_parenthesised] at h
    exact (follows_writeNode operand h.2).map _ _
  | .unary .negate operand _, h => by
    simp only [sketchNode, Sketch.keeps_append, Sketch.keeps_parenthesisedIf] at h
    exact (follows_writeNode operand h.2).map _ _
  | .call f args _, h => Template.follows_expand (follows_templateArguments args) h
  | .case branches otherwise _, h => by
    simp only [sketchNode, Sketch.keeps_append] at h
    exact (follows_writeBranches branches h.1.1.1.2).bind fun _ _ => (follows_writeNode otherwise h.1.2).map _ _
  | .inList _ [] _, _ => .pure _ _
  | .inList operand (item :: items) negated, h => by
    simp only [sketchNode, Sketch.keeps_append, Sketch.keeps_parenthesisedIf, Sketch.keeps_joined] at h
    exact (follows_writeNode operand h.1.1.1).bind fun _ _ => (follows_writeNodes (item :: items) h.1.2).map _ _
  | .inQuery operand query negated, h => by
    simp only [sketchNode, Sketch.keeps_append, Sketch.keeps_parenthesisedIf] at h
    exact (follows_writeNode operand h.1.1.1).bind fun _ _ => (follows_writeSelect query h.1.2).map _ _
  | .exists query _, h => by
    simp only [sketchNode, Sketch.keeps_append, Sketch.keeps_parenthesised] at h
    exact (follows_writeSelect query h.2).map _ _
  | .isNull operand negated, h => by
    simp only [sketchNode, Sketch.keeps_append, Sketch.keeps_parenthesisedIf] at h
    exact (follows_writeNode operand h.1).map _ _
  | .subquery query _, h => (follows_writeSelect query (Sketch.keeps_parenthesised.mp h)).map _ _
  | .group inner, h => (follows_writeNode inner (Sketch.keeps_parenthesised.mp h)).map _ _

/-- Nodes are written beside themselves one by one. -/
private theorem follows_writeNodes : ∀ ns : List Node, (∀ sk ∈ sketchNodes d ns, sk.Keeps R) →
    Writing.Follows R (writeNodes d ns) (writeNodes d ns)
  | [], _ => .pure _ _
  | n :: rest, h => by
    obtain ⟨hn, hrest⟩ := List.forall_mem_cons.mp h
    exact (follows_writeNode n hn).bind fun _ _ => (follows_writeNodes rest hrest).map _ _

/-- The arguments of a template follow their sketches. -/
private theorem follows_templateArguments : ∀ ns : List Node,
    List.Forall₂ (Template.Argument.Follows R) (templateArguments d ns) (sketchArguments d ns)
  | [] => .nil
  | n :: rest => .cons (follows_writeNode n) (follows_templateArguments rest)

/-- The branches of a choice are written beside themselves. -/
private theorem follows_writeBranches : ∀ bs : List (Node × Node), (sketchBranches d bs).Keeps R →
    Writing.Follows R (writeBranches d bs) (writeBranches d bs)
  | [], _ => .pure _ _
  | (test, value) :: rest, h => by
    simp only [sketchBranches, Sketch.keeps_append] at h
    exact (follows_writeNode test h.1.1.1.2).bind fun _ _ => (follows_writeNode value h.1.2).bind fun _ _ =>
      (follows_writeBranches rest h.2).map _ _

/-- A node that may be missing is written beside itself. -/
private theorem follows_writeOption : ∀ n? : Option Node, (∀ sk ∈ sketchOption d n?, sk.Keeps R) →
    Writing.Follows R (writeOption d n?) (writeOption d n?)
  | none, _ => .pure _ _
  | some n, h => (follows_writeNode n (h _ rfl)).map _ _

/-- Sort keys are written beside themselves. -/
private theorem follows_writeOrder : ∀ ks : List (Node × Bool), (∀ sk ∈ sketchOrder d ks, sk.Keeps R) →
    Writing.Follows R (writeOrder d ks) (writeOrder d ks)
  | [], _ => .pure _ _
  | (n, down) :: rest, h => by
    obtain ⟨hn, hrest⟩ := List.forall_mem_cons.mp h
    have hn : (sketchNode d n).Keeps R := by
      cases down with
      | false => exact hn
      | true => exact (Sketch.keeps_append.mp hn).1
    exact (follows_writeNode n hn).bind fun _ _ => (follows_writeOrder rest hrest).map _ _

/-- Selected columns are written beside themselves. -/
private theorem follows_writeColumns : ∀ cs : List (SelectedOf Node), (∀ sk ∈ sketchColumns d cs, sk.Keeps R) →
    Writing.Follows R (writeColumns d cs) (writeColumns d cs)
  | [], _ => .pure _ _
  | ⟨n, none⟩ :: rest, h => by
    obtain ⟨hn, hrest⟩ := List.forall_mem_cons.mp h
    exact (follows_writeNode n hn).bind fun _ _ => (follows_writeColumns rest hrest).map _ _
  | ⟨n, some _⟩ :: rest, h => by
    obtain ⟨hn, hrest⟩ := List.forall_mem_cons.mp h
    exact (follows_writeNode n (Sketch.keeps_append.mp hn).1).bind fun _ _ => (follows_writeColumns rest hrest).map _ _

/-- The rows of a table are written beside themselves. -/
private theorem follows_writeRows :
    ∀ r : Rows, (sketchRows d r).Keeps R → Writing.Follows R (writeRows d r) (writeRows d r)
  | .named .., _ => .pure _ _
  | .derived query, h => (follows_writeSelect query (Sketch.keeps_parenthesised.mp h)).map _ _

/-- A table is written beside itself. -/
private theorem follows_writeTable : ∀ t : TableOf Rows, (sketchTable d t).Keeps R →
    Writing.Follows R (writeTable d t) (writeTable d t)
  | ⟨rows, aliasName⟩, h =>
    (follows_writeRows rows ((Sketch.keeps_aliased aliasName).mp h)).map (aliased · aliasName) (aliased · aliasName)

/-- Joins are written beside themselves. -/
private theorem follows_writeJoins : ∀ js : List (JoinedOf Node Rows), (sketchJoins d js).Keeps R →
    Writing.Follows R (writeJoins d js) (writeJoins d js)
  | [], _ => .pure _ _
  | ⟨_, table, on⟩ :: rest, h => by
    simp only [sketchJoins, Sketch.keeps_append] at h
    exact (follows_writeTable table h.1.1.1.2).bind fun _ _ => (follows_writeNode on h.1.2).bind fun _ _ =>
      (follows_writeJoins rest h.2).map _ _

/-- **Selections are written beside themselves.** -/
theorem follows_writeSelect : ∀ s : SelectOf Node Rows, (sketchSelect d s).Keeps R →
    Writing.Follows R (writeSelect d s) (writeSelect d s)
  | ⟨_, columns, table, joins, filter, groupBy, having, orderBy, _, _, _, _⟩, h => by
    simp only [sketchSelect, Sketch.keeps_append, Sketch.keeps_ofText, Sketch.keeps_joined, Sketch.keeps_clause,
      Sketch.keeps_listClause, true_and, and_true] at h
    obtain ⟨⟨⟨⟨⟨⟨hcolumns, htable⟩, hjoins⟩, hfilter⟩, hgroupBy⟩, hhaving⟩, horderBy⟩ := h
    exact (follows_writeColumns columns hcolumns).bind fun _ _ => (follows_writeTable table htable).bind fun _ _ =>
      (follows_writeJoins joins hjoins).bind fun _ _ => (follows_writeOption filter hfilter).bind fun _ _ =>
        (follows_writeNodes groupBy hgroupBy).bind fun _ _ => (follows_writeOption having hhaving).bind fun _ _ =>
          (follows_writeOrder orderBy horderBy).map _ _

end

/-- A common table expression follows. -/
theorem follows_writeCte (c : CtePlan) (h : (sketchCte d c).Keeps R) :
    Writing.Follows R (writeCte d c) (writeCte d c) := by
  simp only [sketchCte, Sketch.keeps_append, Sketch.keeps_ofText, true_and, and_true] at h
  refine (follows_writeSelect c.anchor h.1).bind fun _ _ => ?_
  have hunion : Writing.Follows R (writeUnion d c.union) (writeUnion d c.union) := by
    revert h
    cases c.union with
    | none => exact fun _ => .pure _ _
    | some s => exact fun h => (follows_writeSelect s (Sketch.keeps_append.mp h.2).2).map _ _
  exact hunion.map _ _

/-- Common table expressions follow, one after another. -/
theorem follows_writeCtes (ctes : List CtePlan) (h : (sketchCtes d ctes).Keeps R) :
    Writing.Follows R (writeCtes d ctes) (writeCtes d ctes) := by
  unfold writeCtes
  unfold sketchCtes at h
  split
  · exact .pure _ _
  · next hne =>
    rw [if_neg hne] at h
    simp only [Sketch.keeps_append, Sketch.keeps_joined, List.forall_mem_map] at h
    exact (Writing.Follows.mapM fun c hc => follows_writeCte c (h.1.2 c hc)).map _ _

/-- Assigned columns are written beside themselves. -/
private theorem follows_writeSets {sets : List (Node × Node)} (h : ∀ sk ∈ sketchSets d sets, sk.Keeps R) :
    Writing.Follows R (writeSets d sets) (writeSets d sets) := by
  induction sets with
  | nil => exact .pure _ _
  | cons s rest ih =>
    obtain ⟨column, value⟩ := s
    simp only [sketchSets, List.map_cons, List.forall_mem_cons, Sketch.keeps_append] at h
    exact (follows_writeNode column h.1.1.1).bind fun _ _ => (follows_writeNode value h.1.2).bind fun _ _ =>
      (ih h.2).map _ _

/-- An update follows. -/
theorem follows_writeUpdate (change : ChangePlan) (h : (sketchUpdate d change).Keeps R) :
    Writing.Follows R (writeUpdate d change) (writeUpdate d change) := by
  simp only [sketchUpdate, Sketch.keeps_append, Sketch.keeps_joined, Sketch.keeps_clause, Sketch.keeps_ofText,
    true_and, and_true] at h
  obtain ⟨⟨⟨htable, hjoins⟩, hsets⟩, hfilter⟩ := h
  exact (follows_writeTable change.table htable).bind fun _ _ => (follows_writeJoins change.joins hjoins).bind fun _ _ =>
    (follows_writeSets hsets).bind fun _ _ => (follows_writeOption change.filter hfilter).map _ _

/-- A deletion is written beside itself. -/
private theorem follows_writeDelete (change : ChangePlan) (h : (sketchDelete d change).Keeps R) :
    Writing.Follows R (writeDelete d change) (writeDelete d change) := by
  simp only [sketchDelete, Sketch.keeps_append, Sketch.keeps_clause, Sketch.keeps_ofText, true_and] at h
  exact (follows_writeTable change.table h.1).bind fun _ _ => (follows_writeOption change.filter h.2).map _ _

end Trees

/-! ## Compiling -/

namespace Emission

variable {α : Type}

/-- Whenever something compiles, it compiles beside it. -/
def Follows (R : Parameters → Parameters → Prop) (act : Emission α) : Prop :=
  ∀ ⦃ps a ps' qs⦄, R ps qs → act.Gives ps a ps' → ∃ b qs', act.Gives qs b qs' ∧ R ps' qs'

/-- Compiling several things in turn follows if compiling each one does. -/
theorem Follows.mapM {γ : Type} {f : γ → Emission α} {xs : List γ} (h : ∀ x ∈ xs, Follows R (f x)) :
    Follows R (xs.mapM f) := by
  intro ps as ps' qs hR has
  induction xs generalizing ps as qs with
  | nil =>
    rw [List.mapM_nil, gives_pure] at has
    obtain ⟨-, rfl⟩ := has
    exact ⟨[], qs, rfl, hR⟩
  | cons x xs ih =>
    obtain ⟨hx, hxs⟩ := List.forall_mem_cons.mp h
    simp only [List.mapM_cons, gives_bind, gives_pure] at has ⊢
    obtain ⟨a, ps₁, ha, as, ps₂, has, -, rfl⟩ := has
    obtain ⟨b, qs₁, hb, hR₁⟩ := hx hR ha
    obtain ⟨bs, qs₂, hbs, hR₂⟩ := ih hxs hR₁ has
    exact ⟨_, qs₂, ⟨b, qs₁, hb, bs, qs₂, hbs, rfl, rfl⟩, hR₂⟩

/-- What is planned is the same beside other parameters, and is written beside itself. -/
theorem follows_planAndWrite {c : Compiler} {plan : Planning α} {write : α → Writing Phrase} {sketch : α → Sketch}
    (hwrite : ∀ a, (sketch a).Keeps R → Writing.Follows R (write a) (write a)) {sk : Sketch}
    (hplan : c.sketchPlan plan sketch = .ok sk) (hsk : sk.Keeps R) {ps ps' qs : Parameters} {r : α × Phrase}
    (hR : R ps qs) (h : (planAndWrite c plan write).Gives ps r ps') :
    ∃ p qs', (planAndWrite c plan write).Gives qs (r.1, p) qs' ∧ R ps' qs' := by
  obtain ⟨ctes, hrun, h⟩ := gives_planAndWrite.mp h
  unfold Compiler.sketchPlan at hplan
  rw [hrun] at hplan
  cases hplan
  obtain ⟨hctes, ha⟩ := Sketch.keeps_append.mp hsk
  obtain ⟨p, qs', hp, hR'⟩ := ((follows_writeCtes ctes hctes).bind fun _ _ => (hwrite r.1 ha).map _ _) hR h
  exact ⟨p, qs', gives_planAndWrite.mpr ⟨ctes, hrun, hp⟩, hR'⟩

end Emission

namespace Compiler

variable {c : Compiler} {sk : Sketch}

open Emission

/-- A query follows. -/
theorem follows_emitSelect {q : Query} (hplan : c.sketchPlan (planQuery q) (sketchSelect c.dialect) = .ok sk)
    (hsk : sk.Keeps R) : (c.emitSelect q).Follows R := by
  intro ps a ps' qs hR h
  simp only [emitSelect, gives_bind, gives_pure] at h ⊢
  obtain ⟨r, _, h, -, rfl⟩ := h
  obtain ⟨p, qs', hp, hR'⟩ := follows_planAndWrite follows_writeSelect hplan hsk hR h
  exact ⟨_, qs', ⟨_, _, hp, rfl, rfl⟩, hR'⟩

/-- An update of one statement follows. -/
theorem follows_emitUpdate {u : Update} (hplan : c.sketchPlan (planUpdate u) (sketchUpdate c.dialect) = .ok sk)
    (hsk : sk.Keeps R) : (c.emitUpdate u).Follows R := by
  intro ps a ps' qs hR h
  simp only [emitUpdate, gives_bind, gives_pure] at h ⊢
  obtain ⟨r, _, h, -, rfl⟩ := h
  obtain ⟨p, qs', hp, hR'⟩ := follows_planAndWrite follows_writeUpdate hplan hsk hR h
  exact ⟨_, qs', ⟨_, _, hp, rfl, rfl⟩, hR'⟩

/-- A deletion follows. -/
theorem follows_emitDelete {s : Delete} (hplan : c.sketchPlan (planDelete s) (sketchDelete c.dialect) = .ok sk)
    (hsk : sk.Keeps R) : (c.emitDelete s).Follows R := by
  intro ps a ps' qs hR h
  simp only [emitDelete, gives_bind, gives_pure] at h ⊢
  obtain ⟨r, _, h, -, rfl⟩ := h
  obtain ⟨p, qs', hp, hR'⟩ := follows_planAndWrite follows_writeDelete hplan hsk hR h
  exact ⟨_, qs', ⟨_, _, hp, rfl, rfl⟩, hR'⟩

end Compiler

end LambdaSql
