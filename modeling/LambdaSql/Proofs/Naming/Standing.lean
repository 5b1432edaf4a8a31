import LambdaSql.Proofs.Naming.Drawn
import LambdaSql.Proofs.Naming.References

/-!
# What bindings stand for

A parameter is bound to a table with an alias, or to the keys of a grouping. In the place where a column
is written, the alias has to mean the table that the parameter stands for, however many selections have
been opened in between. Keys are written again wherever a group is used; the selections in them have the
aliases that they had where the key was planned, so the selections around may only have later ones.

## Main definitions

* `Accounts` - references that account for occurrences.
* `Binding.StandsFor`, `FramesStand` - bindings and what they stand for in a place.
* `Apt` - what is known about a place when planning under a scope has come to an end.
* `Faithful` - planned nodes that refer to what they should in every apt place.

## Main results

* `aliasAt_injective` - tables at different positions have different aliases.
* `Binding.StandsFor.deepen` - bindings stand for the same places inside further selections.
* `Drawn.faithful` - what is drawn from faithful operands is faithful.
-/

namespace LambdaSql

open Planning

/-! ## Accounting -/

/-- References that account for occurrences: every place is inside selections with different aliases, and
every column means the column that one of the references is, each of which counts once. -/
structure Accounts (os : Multiset Occurrence) (rs : Multiset Reference) : Prop where
  distinct : ∀ o ∈ os, (aliases o.around).Nodup
  denoted : os.filterMap Occurrence.denoted? ≤ rs.map some

namespace Accounts

variable {os os' : Multiset Occurrence} {rs rs' : Multiset Reference}

/-- No occurrences are accounted for. -/
theorem zero : Accounts 0 rs where
  distinct := fun _ h => absurd h (Multiset.notMem_zero _)
  denoted := zero_le

/-- Occurrences are accounted for together by their references together. -/
theorem add (h : Accounts os rs) (h' : Accounts os' rs') : Accounts (os + os') (rs + rs') where
  distinct := fun o ho => (Multiset.mem_add.mp ho).elim (h.distinct o) (h'.distinct o)
  denoted := by
    rw [Multiset.filterMap_add, Multiset.map_add]
    exact add_le_add h.denoted h'.denoted

/-- Fewer occurrences are accounted for by more references. -/
theorem mono (h : Accounts os rs) (hos : os' ≤ os) (hrs : rs ≤ rs') : Accounts os' rs' where
  distinct := fun o ho => h.distinct o (Multiset.mem_of_le hos ho)
  denoted := (Multiset.filterMap_le_filterMap _ hos).trans (h.denoted.trans (Multiset.map_le_map hrs))

/-- Nothing is to be accounted for among columns selected beside deferred expressions. -/
theorem of_deferring {around : List Level} (hd : ∀ o ∈ os, (aliases o.around).Nodup)
    (ho : ∀ o ∈ os, ∃ inner, o.around = inner ++ around)
    (hl : around.any (·.deferring) = true) : Accounts os rs where
  distinct := hd
  denoted := by
    have hnone : os.filterMap Occurrence.denoted? = 0 := by
      rw [Multiset.eq_zero_iff_forall_notMem]
      intro r hr
      obtain ⟨o, hmem, hr⟩ := (Multiset.mem_filterMap _ _).mp hr
      obtain ⟨inner, hinner⟩ := ho o hmem
      rw [Occurrence.denoted?, hinner, List.any_append, hl, Bool.or_true, if_pos rfl] at hr
      cases hr
    rw [hnone]
    exact zero_le

end Accounts

/-! ## Aliases -/

/-- A letter is known by its code. -/
theorem isLetterCode_injOn {m n : Nat} (hm : isLetterCode m = true) (hn : isLetterCode n = true)
    (h : Char.ofNat m = Char.ofNat n) : m = n := by
  have small {k : Nat} (hk : isLetterCode k = true) : k < 123 := by
    simp only [isLetterCode, Bool.or_eq_true, Bool.and_eq_true, decide_eq_true_eq] at hk
    omega
  have back : ∀ k < 123, (Char.ofNat k).toNat = k := by decide
  rw [← back m (small hm), h, back n (small hn)]

/-- Tables at different positions have different aliases: single letters, or a letter with digits. -/
theorem aliasAt_injective (first : Char) : Function.Injective (aliasAt first) := by
  have mixed (c : Char) (n : Nat) : String.singleton c ≠ "t" ++ toString n := by
    intro h
    have hlen := congrArg (·.toList.length) h
    simp at hlen
  intro m n h
  simp only [aliasAt] at h
  split at h <;> split at h
  · next hm hn =>
    have hc := String.singleton_inj.mp h
    have := isLetterCode_injOn hm hn hc
    omega
  · exact absurd h (mixed _ _)
  · exact absurd h.symm (mixed _ _)
  · have hd := congrArg (fun t => Nat.ofDigitChars 10 (t.toList.drop 1) 0) h
    simpa using hd

/-- Selections whose aliases come from a position on. -/
def FromOn (first : Char) (limit : Nat) (inner : List Level) : Prop :=
  ∀ a ∈ aliases inner, ∃ position, limit ≤ position ∧ a = aliasAt first position

namespace FromOn

variable {first : Char} {limit limit' : Nat} {inner outer : List Level}

/-- No levels have aliases. -/
theorem nil : FromOn first limit [] := nofun

/-- Levels of earlier aliases have aliases before a later position. -/
theorem mono (h : FromOn first limit' inner) (hle : limit ≤ limit') : FromOn first limit inner := by
  intro a ha
  obtain ⟨position, hp, rfl⟩ := h a ha
  exact ⟨position, hle.trans hp, rfl⟩

/-- Inner and outer levels together have aliases in the range of both. -/
theorem append (h : FromOn first limit inner) (h' : FromOn first limit outer) :
    FromOn first limit (inner ++ outer) := by
  intro a ha
  rw [aliases_append, List.mem_append] at ha
  exact ha.elim (h a) (h' a)

/-- An earlier alias is not among them. -/
theorem notMem (h : FromOn first limit inner) {position : Nat} (hp : position < limit) :
    aliasAt first position ∉ aliases inner := by
  intro ha
  obtain ⟨other, ho, heq⟩ := h _ ha
  have := aliasAt_injective first heq
  omega

end FromOn

/-! ## Bindings -/

/-- A table binding stands for a place: it has the columns of the entity, and its alias means the table at
the seat. -/
structure TableBinding.StandsFor (around : List Level) (t : TableBinding) (place : TablePlace) : Prop where
  entity : ∃ e, place.entity = some e ∧ t.shape = .entity e
  seat : ∃ a, t.aliasName = some a ∧ seatOf a around = some place.seat

/-- A key stands for what it refers to wherever it is written again, inside selections with aliases from a
position on. -/
def KeyStands (first : Char) (limit : Nat) (around : List Level) (n : Node)
    (references : Nat → Multiset Reference) : Prop :=
  ∀ inner, FromOn first limit inner → (aliases (inner ++ around)).Nodup →
    Accounts (n.occurrences (inner ++ around)) (references (inner ++ around).length)

/-- Keys by name that stand for what they refer to. -/
def KeysStand (first : Char) (limit : Nat) (around : List Level) (keys : List (String × Node))
    (references : List (String × (Nat → Multiset Reference))) : Prop :=
  List.Forall₂ (fun k r => k.1 = r.1 ∧ KeyStands first limit around k.2 r.2) keys references

/-- A binding stands for a place. -/
inductive Binding.StandsFor (first : Char) (limit : Nat) (around : List Level) : Binding → Place → Prop
  | table {t : TableBinding} {place : TablePlace} :
    t.StandsFor around place → StandsFor first limit around (.table t) (.table place)
  | grouping {g : Grouping} {keys : List (String × (Nat → Multiset Reference))}
    {elements : List TablePlace} :
    KeysStand first limit around g.keys keys →
    List.Forall₂ (TableBinding.StandsFor around) g.elements elements →
    StandsFor first limit around (.grouping g) (.grouping keys elements)

/-- Bindings by position that stand for places. -/
abbrev Bound (first : Char) (limit : Nat) (around : List Level) : List Binding → List Place → Prop :=
  List.Forall₂ (Binding.StandsFor first limit around)

/-- The parameters of the enclosing lambdas stand for places. -/
def FramesStand (first : Char) (limit : Nat) (around : List Level) :
    List (List (String × Binding)) → Places → Prop :=
  List.Forall₂ (List.Forall₂ fun b p => b.1 = p.1 ∧ b.2.StandsFor first limit around p.2)

section StandsFor

variable {first : Char} {limit limit' : Nat} {inner around : List Level}

/-- An alias means the same inside further selections, as long as all aliases are different. -/
theorem seatOf_deepen {a : String} {seat : Seat} (h : seatOf a around = some seat)
    (hd : (aliases (inner ++ around)).Nodup) : seatOf a (inner ++ around) = some seat := by
  rw [seatOf_append, h]
  intro ha
  rw [aliases_append] at hd
  exact (List.disjoint_of_nodup_append hd) ha (mem_aliases_of_seatOf h)

/-- A binding stands for its table inside further levels, under different aliases. -/
theorem TableBinding.StandsFor.deepen {t : TableBinding} {place : TablePlace}
    (h : t.StandsFor around place) (hd : (aliases (inner ++ around)).Nodup) :
    t.StandsFor (inner ++ around) place where
  entity := h.entity
  seat := by
    obtain ⟨a, ha, hseat⟩ := h.seat
    exact ⟨a, ha, seatOf_deepen hseat hd⟩

/-- A key stands for its references inside further levels. -/
theorem KeyStands.deepen {n : Node} {references : Nat → Multiset Reference}
    (h : KeyStands first limit around n references) (hle : limit ≤ limit')
    (hf : FromOn first limit inner) : KeyStands first limit' (inner ++ around) n references := by
  intro more hmore hd
  rw [← List.append_assoc] at hd ⊢
  exact h (more ++ inner) ((hmore.mono hle).append hf) hd

/-- A binding stands for the same place inside further selections, as long as all aliases are different
and those of the further selections come later than the keys of groupings. -/
theorem Binding.StandsFor.deepen {b : Binding} {place : Place}
    (h : b.StandsFor first limit around place) (hle : limit ≤ limit') (hf : FromOn first limit inner)
    (hd : (aliases (inner ++ around)).Nodup) : b.StandsFor first limit' (inner ++ around) place := by
  cases h with
  | table ht => exact .table (ht.deepen hd)
  | grouping hkeys helements =>
    exact .grouping (hkeys.imp fun _ _ h => ⟨h.1, h.2.deepen hle hf⟩)
      (helements.imp fun _ _ h => h.deepen hd)

/-- Bindings stand for their places inside further levels. -/
theorem Bound.deepen {bindings : List Binding} {bound : List Place}
    (h : Bound first limit around bindings bound) (hle : limit ≤ limit') (hf : FromOn first limit inner)
    (hd : (aliases (inner ++ around)).Nodup) : Bound first limit' (inner ++ around) bindings bound :=
  h.imp fun _ _ h => h.deepen hle hf hd

/-- The parameters in scope stand for their places inside further levels. -/
theorem FramesStand.deepen {frames : List (List (String × Binding))} {places : Places}
    (h : FramesStand first limit around frames places) (hle : limit ≤ limit')
    (hf : FromOn first limit inner) (hd : (aliases (inner ++ around)).Nodup) :
    FramesStand first limit' (inner ++ around) frames places :=
  h.imp fun _ _ h => h.imp fun _ _ h => ⟨h.1, h.2.deepen hle hf hd⟩

end StandsFor

/-! ## Looking up -/

/-- Related values are found under one name. -/
theorem lookup_rel {α β : Type} {r : α → β → Prop} {xs : List (String × α)} {ys : List (String × β)}
    (h : List.Forall₂ (fun x y => x.1 = y.1 ∧ r x.2 y.2) xs ys) (name : String) :
    Option.Rel r (xs.lookup name) (ys.lookup name) := by
  induction h with
  | nil => exact .none
  | cons hxy _ ih =>
    obtain ⟨heq, hr⟩ := hxy
    rw [List.lookup_cons, List.lookup_cons, heq]
    split
    · exact .some hr
    · exact ih

/-- A parameter is bound to what stands for its place. -/
theorem FramesStand.find {first : Char} {limit : Nat} {around : List Level} {s : Scope}
    {places : Places} (h : FramesStand first limit around s.frames places) (name : String) :
    Option.Rel (Binding.StandsFor first limit around) (s.binding? name) (places.find? name) := by
  unfold Scope.binding? Places.find?
  unfold FramesStand at h
  generalize s.frames = frames at h
  induction h with
  | nil => exact .none
  | @cons xs ys _ _ hframe _ ih =>
    rw [List.findSome?_cons, List.findSome?_cons]
    have hrel := lookup_rel hframe name
    generalize xs.lookup name = b?, ys.lookup name = place? at hrel ⊢
    cases hrel with
    | none => exact ih
    | some hr => exact .some hr

/-- Parameters bound by position stand for the places of the same positions. -/
theorem Bound.frame {first : Char} {limit : Nat} {around : List Level} {bindings : List Binding}
    {bound : List Place} (h : Bound first limit around bindings bound) (params : List String) :
    List.Forall₂ (fun b p => b.1 = p.1 ∧ b.2.StandsFor first limit around p.2) (frame params bindings)
      (Places.frame params bound) := by
  refine List.rel_reverse ?_
  induction h generalizing params with
  | nil =>
    rw [List.zip_nil_right, List.zip_nil_right]
    exact .nil
  | cons hb _ ih =>
    cases params with
    | nil => exact .nil
    | cons name rest => exact .cons ⟨rfl, hb⟩ (ih rest)

/-! ## Faithful planning -/

/-- What is known about a place in which something planned under a scope is written, from one progress
to another: all aliases are different, those of the selections planned meanwhile are not among them,
and the parameters stand for places. -/
structure Apt (s : Scope) (places : Places) (p p' : Progress) (around : List Level) : Prop where
  distinct : (aliases around).Nodup
  clear : ∀ position, p.nextAlias ≤ position → position < p'.nextAlias →
    aliasAt s.compiler.options.firstAlias position ∉ aliases around
  frames : FramesStand s.compiler.options.firstAlias p.nextAlias around s.frames places

/-- Planned nodes that refer to what they should: in every apt place the references account for what
stands in them. -/
structure Faithful (s : Scope) (places : Places) (p : Progress) (ns : List Node) (p' : Progress)
    (references : Nat → Multiset Reference) : Prop where
  le : p.nextAlias ≤ p'.nextAlias
  accounts : ∀ around, Apt s places p p' around →
    Accounts (nodesOccurrences around ns) (references around.length)

variable {s : Scope} {places : Places} {p q q' p' : Progress} {around : List Level}

/-- A place that is apt for a longer stretch of planning is apt for a part of it. -/
theorem Apt.within (h : Apt s places p p' around) (hq : p.nextAlias ≤ q.nextAlias)
    (hq' : q'.nextAlias ≤ p'.nextAlias) : Apt s places q q' around where
  distinct := h.distinct
  clear := fun position h1 h2 => h.clear position (hq.trans h1) (h2.trans_le hq')
  frames := by
    have := h.frames.deepen hq .nil h.distinct
    exact this

/-- Under a lambda there are further parameters. -/
theorem Apt.under (h : Apt s places p p' around) {bindings : List Binding} {bound : List Place}
    (hb : Bound s.compiler.options.firstAlias p.nextAlias around bindings bound) (params : List String) :
    Apt { s with frames := frame params bindings :: s.frames } (Places.frame params bound :: places)
      p p' around where
  distinct := h.distinct
  clear := h.clear
  frames := .cons (hb.frame params) h.frames

/-- Whether expressions may be left for evaluation after fetching plays no role for what is around. -/
theorem Apt.projecting (h : Apt s places p p' around) (b : Bool) :
    Apt { s with inProjection := b } places p p' around := ⟨h.distinct, h.clear, h.frames⟩

namespace Faithful

variable {ns ms : List Node} {n : Node} {r r' : Nat → Multiset Reference}

/-- No nodes are planned faithfully. -/
theorem nil : Faithful s places p [] p r := ⟨le_rfl, fun _ _ => .zero⟩

/-- A node without columns, like a value. -/
theorem of_madeOf_nil (h : n.MadeOf []) : Faithful s places p [n] p r := by
  refine ⟨le_rfl, fun around _ => Accounts.zero.mono ?_ le_rfl⟩
  rw [nodesOccurrences_cons, nodesOccurrences_nil, add_zero]
  exact h.le around

/-- What is planned faithfully is so with more references. -/
theorem mono (h : Faithful s places p ns p' r) (hr : ∀ depth, r depth ≤ r' depth) :
    Faithful s places p ns p' r' :=
  ⟨h.le, fun around ha => (h.accounts around ha).mono le_rfl (hr _)⟩

/-- Some of the nodes, or parts of them. -/
theorem of_le (h : Faithful s places p ns p' r)
    (hle : ∀ around, nodesOccurrences around ms ≤ nodesOccurrences around ns) : Faithful s places p ms p' r :=
  ⟨h.le, fun around ha => (h.accounts around ha).mono (hle around) le_rfl⟩

/-- A node made of faithful ones. -/
theorem madeOf (h : Faithful s places p ns p' r) (hn : n.MadeOf ns) : Faithful s places p [n] p' r := by
  refine h.of_le fun around => ?_
  rw [nodesOccurrences_cons, nodesOccurrences_nil, add_zero]
  exact hn.le around

/-- What there is to choose from in a faithful node. -/
theorem choices (h : Faithful s places p [n] p' r) : Faithful s places p (Lowering.choices n) p' r := by
  refine h.of_le fun around => ?_
  rw [Lowering.nodesOccurrences_choices, nodesOccurrences_cons, nodesOccurrences_nil, add_zero]

/-- The rows of a faithful selection. -/
theorem rows {sel : Select} {t : HostType} (h : Faithful s places p [.subquery sel t] p' r) :
    Faithful s places p [.subquery (Lowering.withoutColumns sel) t] p' r :=
  h.of_le fun around => add_le_add (Lowering.selectOccurrences_withoutColumns around sel) le_rfl

/-- Planning goes on after what is not used. -/
theorem drop (h : Faithful s places p ms q r') (h' : Faithful s places q ns p' r) :
    Faithful s places p ns p' r :=
  ⟨h.le.trans h'.le, fun around ha => h'.accounts around (ha.within h.le le_rfl)⟩

/-- What is planned in turn is planned faithfully if both parts are. -/
theorem append (h : Faithful s places p ns q r) (h' : Faithful s places q ms p' r') :
    Faithful s places p (ns ++ ms) p' fun depth => r depth + r' depth := by
  refine ⟨h.le.trans h'.le, fun around ha => ?_⟩
  rw [nodesOccurrences_append]
  exact (h.accounts around (ha.within le_rfl h'.le)).add (h'.accounts around (ha.within h.le le_rfl))

end Faithful

/-- An operand that refers to what its expression does, in whatever way it is planned. -/
structure Operand.IsFaithful (o : Operand) : Prop where
  faithful : ∀ {s} places {p ns p'}, o.Gives s p ns p' →
    Faithful s places p ns p' fun depth => o.source.references s.compiler.model places depth

/-- What is drawn from faithful operands refers to what they refer to. -/
theorem Drawn.faithful {os : List Operand} {ns : List Node} (h : Drawn s os p ns p')
    (hos : ∀ o ∈ os, o.IsFaithful) (places : Places) :
    Faithful s places p ns p' fun depth =>
      (os.map fun o => o.source.references s.compiler.model places depth).sum := by
  induction h with
  | done => exact .nil
  | drop hmem hgives _ ih => exact ((hos _ hmem).faithful places hgives).drop (ih hos)
  | take hperm hgives _ ih =>
    have hmem := fun o ho => hos o (hperm.symm.subset ho)
    have hrest := ih fun o ho => hmem o (List.mem_cons_of_mem _ ho)
    refine (((hmem _ List.mem_cons_self).faithful places hgives).append hrest).mono fun depth => ?_
    rw [(hperm.map _).sum_eq, List.map_cons, List.sum_cons]

/-- What draws from faithful operands refers to what they refer to. -/
theorem Planning.Draws.faithful {act : Planning Node} {os : List Operand} (h : act.Draws [] os)
    (hos : ∀ o ∈ os, o.IsFaithful) (places : Places) {n : Node} (hn : act.Gives s p n p') :
    Faithful s places p [n] p' fun depth =>
      (os.map fun o => o.source.references s.compiler.model places depth).sum := by
  obtain ⟨ns, hdrawn, hmade⟩ := h hn
  exact (hdrawn.faithful hos places).madeOf hmade

end LambdaSql
