import LambdaSql.Proofs.Meaning.Operators
import LambdaSql.Proofs.Plan.Texts

/-!
# Families of enums

The members of one enum mean nothing in another one, so values of two enums should not be compared. Operators, tests of
equality and tests against lists look at the types of what they compare and end planning where these are enums of
different names. Tests against a selection and comparisons with three outcomes take whatever they are given.

## Main definitions

* `HostType.OtherFamily` - enums of different names.
* `Node.comparisons` - the types of what a node compares.
* `Node.isUnchecked` - the nodes that are planned whatever they compare.
* `Planning.MeetsFamilies` - planning ends because enums of different names are compared.

## Main results

* `HostType.comparable_iff` - only enums of different names cannot be compared.
* `Lowering.binary_meetsFamilies`, `Lowering.equals_meetsFamilies`, `Lowering.membership_meetsFamilies` - what is
  rejected.
* `Compiler.families_compared` - what is compared in statements that compile.
-/

namespace LambdaSql

open Planning

/-! ## Types -/

namespace HostType

/-- Enums of different names. -/
def OtherFamily (a b : HostType) : Prop := ∃ m n, a = .enum m ∧ b = .enum n ∧ m ≠ n

variable {a b : HostType}

/-- Enums of different families cannot be compared. -/
theorem OtherFamily.comparable (h : a.OtherFamily b) : ∃ m n, a.comparable b = .error (.enumFamilies m n) := by
  obtain ⟨m, n, rfl, rfl, hne⟩ := h
  exact ⟨m, n, if_neg hne⟩

/-- Only enums of different names cannot be compared. -/
theorem comparable_iff : a.comparable b = .ok () ↔ ¬a.OtherFamily b := by
  constructor
  · intro hok hother
    obtain ⟨m, n, h⟩ := hother.comparable
    cases hok.symm.trans h
  · intro h
    unfold HostType.comparable
    split
    · next m n => exact if_pos (Classical.not_not.mp fun hne => h ⟨m, n, rfl, rfl, hne⟩)
    · rfl

end HostType

/-! ## Nodes -/

namespace Node

/-- The types of what a node compares. A test against a selection compares with its columns, and a comparison with
three outcomes its first two operands. -/
def comparisons : Node → List (HostType × HostType)
  | binary op l r _ => if op.isComparison then [(l.type, r.type)] else []
  | inList n items _ => items.map fun m => (n.type, m.type)
  | inQuery n s _ => s.columns.map fun c => (n.type, c.node.type)
  | call .compare (l :: r :: _) _ => [(l.type, r.type)]
  | _ => []

/-- The nodes that are planned whatever they compare. -/
def isUnchecked : Node → Bool
  | inQuery .. | call .compare .. => true
  | _ => false

/-- A node compares enums of different names. -/
def MixesFamilies (n : Node) : Prop := ∃ p ∈ n.comparisons, p.1.OtherFamily p.2

variable {n : Node}

/-- What compares nothing mixes no families. -/
private theorem not_mixesFamilies (h : n.comparisons = []) : ¬n.MixesFamilies := by
  rintro ⟨p, hp, -⟩
  rw [h] at hp
  cases hp

/-- Nothing but what is planned unchecked mixes families.

**Proof sketch.** By the ways in which nodes are made. Comparisons and lists are made of comparable operands only,
tests for membership in queries and calls that compare are unchecked, and all other nodes compare nothing. -/
theorem local_mixesFamilies : Local fun n => n.MixesFamilies → n.isUnchecked = true where
  literal h := absurd h (not_mixesFamilies rfl)
  raw h := absurd h (not_mixesFamilies rfl)
  null h := absurd h (not_mixesFamilies rfl)
  column h := absurd h (not_mixesFamilies rfl)
  combined hop h := absurd h (not_mixesFamilies (if_neg (by simp [hop])))
  compared hc h := by
    obtain ⟨p, hp, hother⟩ := h
    rw [comparisons] at hp
    split at hp
    · obtain rfl := List.mem_singleton.mp hp
      exact absurd hother (HostType.comparable_iff.mp hc)
    · cases hp
  binary_type _ h := h
  bound_type _ _ h := absurd h (not_mixesFamilies rfl)
  unary h := absurd h (not_mixesFamilies rfl)
  isNull h := absurd h (not_mixesFamilies rfl)
  group h := absurd h (not_mixesFamilies rfl)
  call {f ns t} h := by
    by_cases hf : f = .compare
    · rw [hf]
      rfl
    · refine absurd h (not_mixesFamilies ?_)
      unfold comparisons
      split <;> simp_all
  case h := absurd h (not_mixesFamilies rfl)
  listed hc h := by
    obtain ⟨p, hp, hother⟩ := h
    obtain ⟨m, hm, rfl⟩ := List.mem_map.mp hp
    exact absurd hother (HostType.comparable_iff.mp (hc m hm))
  inList_opposite _ h := h
  inQuery _ := rfl
  existence h := absurd h (not_mixesFamilies rfl)
  subquery h := absurd h (not_mixesFamilies rfl)

end Node

/-! ## What is rejected -/

namespace Planning

variable {α β : Type} {s : Scope} {p q : Progress}

/-- Planning ends because enums of different names are compared. -/
def MeetsFamilies (act : Planning α) (s : Scope) (p : Progress) : Prop :=
  ∃ m n q, act.outcome s p = (.error (.error (.enumFamilies m n)), q)

/-- What follows a meeting of families meets them as well. -/
theorem MeetsFamilies.bind {act : Planning α} {f : α → Planning β} (h : act.MeetsFamilies s p) :
    (act >>= f).MeetsFamilies s p := by
  obtain ⟨m, n, q, h⟩ := h
  exact ⟨m, n, q, by rw [outcome_bind, h]⟩

/-- An action that succeeds meets families if what follows it does. -/
private theorem Gives.meetsFamilies {act : Planning α} {f : α → Planning β} {a : α} (h : act.Gives s p a q)
    (hf : (f a).MeetsFamilies s q) : (act >>= f).MeetsFamilies s p := by
  obtain ⟨m, n, q', hf⟩ := hf
  refine ⟨m, n, q', ?_⟩
  rw [outcome_bind, h]
  exact hf

/-- The error of two families is met. -/
private theorem meetsFamilies_ofExcept {r : Except SqlError α} (h : ∃ m n, r = .error (.enumFamilies m n)) :
    (ofExcept r).MeetsFamilies s p := by
  obtain ⟨m, n, rfl⟩ := h
  exact ⟨m, n, p, rfl⟩

/-- A type is not comparable with all of some nodes if one of them is of another family. -/
private theorem meetsFamilies_comparable {t : HostType} {ns : List Node} (h : ∃ n ∈ ns, t.OtherFamily n.type) :
    (ns.forM fun n => ofExcept (t.comparable n.type) : Planning Unit).MeetsFamilies s p := by
  induction ns with
  | nil =>
    obtain ⟨n, hn, -⟩ := h
    cases hn
  | cons m rest ih =>
    show (ofExcept (t.comparable m.type) >>= fun _ => rest.forM fun n =>
      ofExcept (t.comparable n.type) : Planning Unit).MeetsFamilies s p
    by_cases hm : t.OtherFamily m.type
    · exact (meetsFamilies_ofExcept hm.comparable).bind
    · obtain ⟨n, hn, hother⟩ := h
      obtain rfl | hn := List.mem_cons.mp hn
      · exact absurd hother hm
      · exact (gives_ofExcept.mpr ⟨HostType.comparable_iff.mpr hm, rfl⟩).meetsFamilies (ih ⟨n, hn, hother⟩)

end Planning

/-- A comparison of enums of different names is rejected, unless it is a test for null. -/
theorem Node.comparison_otherFamily {l r : Node} (h : l.type.OtherFamily r.type) (hl : l.isNullNode = false)
    (hr : r.isNullNode = false) (op : SqlOp) : ∃ m n, comparison op l r = .error (.enumFamilies m n) := by
  obtain ⟨m, n, h⟩ := h.comparable
  refine ⟨m, n, ?_⟩
  unfold comparison
  rw [hl, hr, h]
  cases op <;> rfl

namespace Lowering

variable {left right : Operand} {l r : Node} {s : Scope} {p p' p'' : Progress}

/-- A comparison of two families meets them. -/
theorem binary_meetsFamilies (hleft : left.value.Gives s p l p') (hright : right.value.Gives s p' r p'')
    (h : l.type.OtherFamily r.type) (hl : l.isNullNode = false) (hr : r.isNullNode = false) {op : BinaryOp}
    (hop : op.isComparison = true) : (binary op left right).MeetsFamilies s p := by
  have hcompared : ∃ m n, Node.binaryOperator s.compiler.dialect op l r = .error (.enumFamilies m n) := by
    rw [Node.binaryOperator_comparison _ hop]
    exact Node.comparison_otherFamily h hl hr _
  cases op
  case coalesce => cases hop
  all_goals
    exact hleft.meetsFamilies (hright.meetsFamilies
      ((gives_dialect.mpr ⟨rfl, rfl⟩).meetsFamilies (meetsFamilies_ofExcept hcompared)))

/-- A test for equality of two families meets them. -/
theorem equals_meetsFamilies {target : Option (Operand × Node)} {args : List Operand}
    (hoperands : (operands (target.map Prod.snd) args).Gives s p [l, r] p') (h : l.type.OtherFamily r.type)
    (hl : l.isNullNode = false) (hr : r.isNullNode = false) (declaring method : String) :
    (apply .equals target args declaring method).MeetsFamilies s p :=
  hoperands.meetsFamilies (meetsFamilies_ofExcept (Node.comparison_otherFamily h hl hr .eq))

/-- The items that a test for membership looks at where there is no selection. -/
def listed (collection : Operand) : Planning (List Node) :=
  match collection.items with
  | some items => items
  | none => itemsAtHand collection.source

/-- A membership test between two families meets them. -/
theorem membership_meetsFamilies {ns : List Node} (hleft : left.value.Gives s p l p')
    (hitems : (listed right).Gives s p' ns p'') (hselection : right.selection = none)
    (h : ∃ n ∈ ns, l.type.OtherFamily n.type) (negated : Bool) : (membership right left negated).MeetsFamilies s p := by
  unfold membership
  refine hleft.meetsFamilies ?_
  rw [hselection]
  unfold listed at hitems
  cases heq : right.items with
  | none | some =>
    rw [heq] at hitems
    exact hitems.meetsFamilies (meetsFamilies_comparable h).bind

end Lowering

/-! ## What is compared -/

namespace Compiler

variable (c : Compiler) (job : Job)

/-- **What is compared.** In statements that compile, no operator and no test against a list compares enums of different
names: wherever two such are compared, it is by a test against a selection or by a comparison with three outcomes.
Whatever would lead to another comparison of them ends planning: operators and tests of equality, unless they are tests
for null, and tests against lists and collections.

**Proof sketch.** That a node mixes no families unless it is unchecked is a property of single nodes, which planning
spreads: comparisons are built after their types have been compared, and values of fields have the types of these. The
other parts follow the ways to plan a comparison up to the comparison of types. -/
theorem families_compared :
    (∀ results, c.results job = .ok results →
      ∃ ts, c.texts job = .ok ts ∧ (∀ r ∈ results, ∃ us, us.Sublist ts ∧ c.Composes r us) ∧
        ∀ t ∈ ts, ∀ n ∈ t.subnodes, n.MixesFamilies → n.isUnchecked = true) ∧
    (∀ {left right s p l p' r p''}, left.value.Gives s p l p' → right.value.Gives s p' r p'' →
      l.type.OtherFamily r.type → l.isNullNode = false → r.isNullNode = false →
      ∀ op : BinaryOp, op.isComparison = true → (Lowering.binary op left right).MeetsFamilies s p) ∧
    (∀ {target : Option (Operand × Node)} {args s p l r p'},
      (Lowering.operands (target.map Prod.snd) args).Gives s p [l, r] p' →
      l.type.OtherFamily r.type → l.isNullNode = false → r.isNullNode = false →
      ∀ declaring method, (Lowering.apply .equals target args declaring method).MeetsFamilies s p) ∧
    ∀ {item collection s p n p' ns p''}, item.value.Gives s p n p' → collection.selection = none →
      (Lowering.listed collection).Gives s p' ns p'' → (∃ m ∈ ns, n.type.OtherFamily m.type) →
      ∀ negated, (Lowering.membership collection item negated).MeetsFamilies s p := by
  refine ⟨fun results h => ?_, fun hl hr h hln hrn _ hop => Lowering.binary_meetsFamilies hl hr h hln hrn hop,
    fun ho h hln hrn => Lowering.equals_meetsFamilies ho h hln hrn,
    fun hn hs hns h => Lowering.membership_meetsFamilies hn hns hs h⟩
  obtain ⟨ts, hts, hcomposed⟩ := texts_of_results h
  have hbound : ∀ {v}, Node.MixesFamilies (.parameter v) → (Node.parameter v).isUnchecked = true :=
    fun h => absurd h (Node.not_mixesFamilies rfl)
  let F := Feature.every Node.local_mixesFamilies (fun _ => True) (fun _ => True) (fun _ _ => hbound) fun _ _ => trivial
  have hchanges : ∀ e, F.Changes e := fun e =>
    { fields := fun _ => Node.local_mixesFamilies.fieldProperty fun _ hn h => by
        obtain rfl | ⟨_, _, _, -, -, rfl⟩ := hn.null_or_bound <;> exact absurd h (Node.not_mixesFamilies rfl)
      parameter := fun _ => Node.every_bound.mpr hbound }
  have hcovers : ∀ s ∈ job.statements, F.Covers c s := fun _ _ =>
    ⟨fun _ _ => trivial, fun _ _ e _ => hchanges e⟩
  exact ⟨ts, hts, hcomposed, fun t ht => (texts_have hts hcovers t ht).every⟩

end Compiler

/-- A model of members and of associations, each with an enum of its own. -/
def registry : Compiler where
  model := ⟨[
    { name := "Member"
      table := "member"
      fields :=
        [{ member := "Id", column := "id", type := .int32, native := .int32, isKey := true },
          { member := "Rank", column := "rank", type := .enum "Rank", native := .string }] },
    { name := "Association"
      table := "association"
      fields :=
        [{ member := "Id", column := "id", type := .int32, native := .int32, isKey := true },
          { member := "Purpose", column := "purpose", type := .enum "Purpose", native := .string }] }]⟩

/-- The purposes of associations. -/
def purposes : Query :=
  (Query.ofSource (.entity "Association")).select (.lambda ["a"] (.member (.param "a") "Purpose"))

/-- The members whose rank is a purpose. -/
def rankedByPurpose : Query :=
  (Query.ofSource (.entity "Member")).filter (.lambda ["m"]
    (.call none (some "Sql") "In" [.member (.param "m") "Rank", .query purposes]))

/-- The rank of a member is looked for among purposes, and nothing else within the statement compares families. -/
theorem rankedByPurpose_compared :
    ∃ results ts, registry.results (.statement (.select rankedByPurpose)) = .ok results ∧
      registry.texts (.statement (.select rankedByPurpose)) = .ok ts ∧
      (∃ t ∈ ts, ∃ n ∈ t.subnodes, n.MixesFamilies) ∧
      ∀ t ∈ ts, ∀ n ∈ t.subnodes, n.MixesFamilies → n.isUnchecked = true := by
  obtain ⟨results, h⟩ : ∃ results,
      registry.results (.statement (.select rankedByPurpose)) = .ok results := ⟨_, rfl⟩
  obtain ⟨ts, hts, -, hall⟩ := (registry.families_compared (.statement (.select rankedByPurpose))).1 results h
  refine ⟨results, ts, h, hts, ?_, hall⟩
  obtain ⟨t, n, hts', hn, hmixes⟩ : ∃ t n, registry.texts (.statement (.select rankedByPurpose)) = .ok [t] ∧
      n ∈ t.subnodes ∧ n.comparisons = [(.enum "Rank", .enum "Purpose")] :=
    ⟨_, .inQuery _ _ _, rfl, .tail _ (.tail _ (.head _)), rfl⟩
  cases hts.symm.trans hts'
  exact ⟨t, List.mem_cons_self, n, hn, _, hmixes ▸ List.mem_cons_self, _, _, rfl, rfl, by decide⟩

end LambdaSql
