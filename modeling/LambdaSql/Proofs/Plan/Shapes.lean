import Mathlib.Data.List.Basic
import LambdaSql.Dialect.MySql
import LambdaSql.Plan.Query
import LambdaSql.Render.Template
import LambdaSql.Translation.Defaults
import LambdaSql.Proofs.Naming.Drawn

/-!
# Shapes of calls

A method is found by the type, its name and the number of arguments, whether the call has a target or not. The function
of the database that stands for it is written by a template, with places for its operands: the target, if there is one,
and the arguments. So a method of values that is called on a type leaves a place empty, which is written as a null, and a
method of types that is called on a value has an operand without a place, which is not written at all. All other calls
fit.

## Main definitions

* `Template.Fits` - a template mentions each of a number of operands and nothing else.
* `SqlFunction.operandCount?` - how many operands a function takes.
* `TranslationTable.valueMethods` - the methods that are called on values.
* `Lowering.Call`, `Lowering.Call.plan`, `Lowering.Call.PlannedBy` - calls, and the entry that plans one.

## Main results

* `SqlFunction.fits_template_iff` - a template fits the number of operands that its function takes.
* `TranslationTable.takes_of_type`, `TranslationTable.takes_on_value` - the calls that fit the function of their entry.
* `Lowering.Call.gives_plan` - how calls are planned.
* `Lowering.Call.operands_written_iff` - each operand of a call is written, and nothing else, if the call fits.
-/

namespace LambdaSql

open Planning

/-! ## Templates -/

namespace Template

/-- The numbers of the arguments that a template has places for. -/
def places (template : String) : List Nat :=
  (pieces template).filterMap fun
    | .argument i _ => some i
    | _ => none

/-- A template with some operands mentions an operand: it has a place for it, or a place for all of them. -/
def Mentions (template : String) (count i : Nat) : Prop :=
  i ∈ places template ∨ i < count ∧ .arguments ∈ pieces template

/-- A template mentions each of a number of operands and nothing else. -/
def Fits (template : String) (count : Nat) : Prop := ∀ i, Mentions template count i ↔ i < count

end Template

namespace SqlFunction

/-- How many operands a function takes; `none` for functions of any number of operands. -/
def operandCount? : SqlFunction → Option Nat
  | .concat | .greatest | .least | .coalesce => none
  | .now | .today | .utcNow | .aggregate .countAll => some 0
  | .trimBoth | .trimLeading | .trimTrailing | .substring | .indexOf | .contains | .startsWith | .endsWith | .compare
  | .dateAdd _ | .dateSub _ | .addTime | .subTime | .timeDiff | .daysInMonth | .dateFormat | .roundDigits | .pow
  | .ifNull => some 2
  | .substringLength | .replace | .padLeft | .padRight => some 3
  | _ => some 1

/-- Whether a function takes a number of operands. -/
def takes (f : SqlFunction) (count : Nat) : Bool := f.operandCount?.all (· = count)

/-- The templates are read byte by byte. -/
theorem isAscii_template (f : SqlFunction) : Template.isAscii (MySql.template f) = true := by
  cases f with
  | dateAdd unit | dateSub unit => cases unit <;> decide +kernel
  | datePart part | spanPart part => cases part <;> decide +kernel
  | cast target => cases target <;> decide +kernel
  | aggregate f => cases f <;> decide +kernel
  | _ => decide +kernel

/-- A template has places for the operands that its function takes. -/
theorem places_template (f : SqlFunction) :
    (∀ k ∈ f.operandCount?,
      (∀ i ∈ Template.places (MySql.template f), i < k) ∧ ∀ i < k, i ∈ Template.places (MySql.template f)) ∧
    (f.operandCount? = none → Template.places (MySql.template f) = []) ∧
    (.arguments ∈ Template.pieces (MySql.template f) ↔ f.operandCount? = none) := by
  rw [Template.places, Template.pieces_eq_bytewise (isAscii_template f)]
  cases f with
  | dateAdd unit | dateSub unit => cases unit <;> decide +kernel
  | datePart part | spanPart part => cases part <;> decide +kernel
  | cast target => cases target <;> decide +kernel
  | aggregate f => cases f <;> decide +kernel
  | _ => decide +kernel

/-- **A template fits the number of operands that its function takes**, and no other number.

**Proof sketch.** A template of a fixed number of operands has just the places below that number, so that counts of
operands that cover the same places are equal. Any other template repeats all of its operands. -/
theorem fits_template_iff (f : SqlFunction) (count : Nat) :
    Template.Fits (MySql.template f) count ↔ f.takes count = true := by
  obtain ⟨hplaces, hnone, hall⟩ := places_template f
  unfold takes Template.Fits Template.Mentions
  cases hk : f.operandCount? with
  | none => simp [hall, hk, hnone hk]
  | some k =>
    obtain ⟨hlt, hmem⟩ := hplaces k hk
    have hiff (i : Nat) : i ∈ Template.places (MySql.template f) ↔ i < k := ⟨hlt i, hmem i⟩
    simp only [hiff, hall, hk, reduceCtorEq, and_false, or_false, Option.all_some, decide_eq_true_eq]
    refine ⟨fun h => ?_, fun h => by simp [h]⟩
    -- the first number not mentioned by the one count, and by the other
    have := h k
    have := h count
    omega

end SqlFunction

/-! ## The default entries -/

/-- The function that an entry turns so many operands into, if it turns them into one without a look at them. -/
def Translation.function? : Translation → Nat → Option SqlFunction
  | .function f _, _ => some f
  | .round, count => some (if count = 2 then .roundDigits else .round)
  | .orElse, _ => some .ifNull
  | _, _ => none

namespace TranslationTable

/-- The methods that become functions and are called on values, with their numbers of arguments. All other ones that
become functions are called on types. -/
def valueMethods : List (String × Nat) :=
  [("Contains", 1), ("StartsWith", 1), ("EndsWith", 1), ("Trim", 0), ("TrimStart", 0), ("TrimEnd", 0), ("ToUpper", 0),
    ("ToUpperInvariant", 0), ("ToLower", 0), ("ToLowerInvariant", 0), ("IndexOf", 1), ("Replace", 2), ("CompareTo", 1),
    ("IsNull", 1)]

/-- The types that no value has. -/
def typesWithoutValues : List TypeKey := [.convert, .math, .sql]

/-- An entry becomes a function that takes the operands of the calls it is for: of calls on a type if it is not for
calls on a value, and of calls on a value if it is. -/
def wellShaped : (TypeKey × String × Arity) × Translation → Bool
  | ((key, method, .exactly n), t) =>
    (t.function? n).all (fun f => f.takes n == !valueMethods.contains (method, n)) &&
      (typesWithoutValues.contains key ||
        (t.function? (n + 1)).all fun f => f.takes (n + 1) == valueMethods.contains (method, n))
  | ((key, method, .variadic), t) =>
    [0, 2].all fun count => (t.function? count).all fun f => typesWithoutValues.contains key &&
      f.operandCount?.isNone && !(valueMethods.map Prod.fst).contains method

/-- The default methods have templates and shapes that go together. -/
private theorem wellShaped_defaults : ∀ e ∈ defaults.methods, wellShaped e = true := by
  decide +kernel

/-- An entry that is found stands in the table, for the type or for all types, and for the number of arguments or for
any number. -/
theorem mem_of_method? {t : TranslationTable} {key : TypeKey} {method : String} {arity : Arity} {entry : Translation}
    (h : t.method? key method arity = some entry) :
    ∃ key' arity', ((key', method, arity'), entry) ∈ t.methods ∧ (key' = key ∨ key' = .object) ∧
      (arity' = arity ∨ arity' = .variadic) := by
  have mem {key' : TypeKey × String × Arity} (h : t.methods.lookup key' = some entry) : (key', entry) ∈ t.methods := by
    obtain ⟨before, after, heq, -⟩ := List.lookup_eq_some_iff.mp h
    rw [heq]
    exact List.mem_append_right before List.mem_cons_self
  unfold method? at h
  simp only [Option.or_eq_some_iff] at h
  obtain ((h | ⟨-, h⟩) | ⟨-, h⟩) | ⟨-, h⟩ := h
  · exact ⟨key, arity, mem h, .inl rfl, .inl rfl⟩
  · exact ⟨key, .variadic, mem h, .inl rfl, .inr rfl⟩
  · exact ⟨.object, arity, mem h, .inr rfl, .inl rfl⟩
  · exact ⟨.object, .variadic, mem h, .inr rfl, .inr rfl⟩

/-- The function of an entry for any number of arguments takes any number of operands. It is for types without values
and not called on values. -/
theorem of_variadic {key : TypeKey} {method : String} {t : Translation}
    (hmem : ((key, method, .variadic), t) ∈ defaults.methods) {count : Nat} {f : SqlFunction}
    (hf : t.function? count = some f) :
    key ∈ typesWithoutValues ∧ (∀ n, f.takes n = true) ∧ ∀ n, (method, n) ∉ valueMethods := by
  have hcount : ∃ k ∈ [0, 2], t.function? k = some f := by
    cases t with
    | round =>
      by_cases htwo : count = 2
      · exact ⟨2, by decide, htwo ▸ hf⟩
      · exact ⟨0, by decide, by simpa [Translation.function?, htwo] using hf⟩
    | _ => exact ⟨0, by decide, hf⟩
  obtain ⟨k, hk, hf⟩ := hcount
  have hshape := List.all_eq_true.mp (wellShaped_defaults _ hmem) k hk
  simp only [hf, Option.all_some, Bool.and_eq_true, Option.isNone_iff_eq_none, Bool.not_eq_true', List.contains_eq_mem,
    decide_eq_false_iff_not, decide_eq_true_eq] at hshape
  obtain ⟨⟨hkey, hany⟩, hmethod⟩ := hshape
  exact ⟨hkey, fun n => by simp [SqlFunction.takes, hany], fun n hn => hmethod (List.mem_map_of_mem hn)⟩

/-- **The calls on a type that fit the function of their entry** are those of methods that are not called on values. -/
theorem takes_of_type {key : TypeKey} {method : String} {n : Nat} {t : Translation} {f : SqlFunction}
    (h : defaults.method? key method (.exactly n) = some t) (hf : t.function? n = some f) :
    f.takes n = true ↔ (method, n) ∉ valueMethods := by
  obtain ⟨key', arity, hmem, -, rfl | rfl⟩ := mem_of_method? h
  · have hshape := wellShaped_defaults _ hmem
    simp only [wellShaped, hf, Option.all_some, Bool.and_eq_true, beq_iff_eq] at hshape
    simp [hshape.1]
  · obtain ⟨-, htakes, hmethod⟩ := of_variadic hmem hf
    simp [htakes, hmethod]

/-- **The calls on a value that fit the function of their entry** are those of methods that are called on values.

**Proof sketch.** The entry found is one of the defaults. All of these that are for values have the shape required but
those for types that have no values, and those for any number of arguments take one operand at least. -/
theorem takes_on_value {type : HostType} {method : String} {n : Nat} {t : Translation} {f : SqlFunction}
    (h : defaults.method? (.ofHostType type) method (.exactly n) = some t) (hf : t.function? (n + 1) = some f) :
    f.takes (n + 1) = true ↔ (method, n) ∈ valueMethods := by
  obtain ⟨key, arity, hmem, hkey, harity⟩ := mem_of_method? h
  have hvalue : key ∉ typesWithoutValues := by
    obtain rfl | rfl := hkey
    · cases type <;> simp [TypeKey.ofHostType, typesWithoutValues]
    · decide
  obtain rfl | rfl := harity
  · have hshape := wellShaped_defaults _ hmem
    simp only [wellShaped, hf, Option.all_some, Bool.and_eq_true, Bool.or_eq_true, beq_iff_eq] at hshape
    obtain hkey | htakes := hshape.2
    · exact absurd (by simpa using hkey) hvalue
    · simp [htakes]
  · exact absurd (of_variadic hmem hf).1 hvalue

end TranslationTable

/-! ## Calls -/

namespace Lowering

variable {s : Scope} {p q : Progress} {n : Node}

/-- A call, with the ways to plan its target, if it has one, and its arguments. -/
structure Call where
  target : Option Operand
  type : Option String
  method : String
  args : List Operand

namespace Call

/-- The call as it is planned. -/
def plan (c : Call) : Planning Node :=
  match c.target with
  | some target => callOn target c.method c.args
  | none => callOf c.type c.method c.args

/-- The operands: the target, if there is one, and the arguments. -/
def operands (c : Call) : List Operand := c.target.toList ++ c.args

/-- An entry plans a call: it is found for the type of the target, or for the type that is written out, and the call is
what the entry makes of it. -/
def PlannedBy (c : Call) (t : Translation) (s : Scope) (p : Progress) (n : Node) (q : Progress) : Prop :=
  match c.target with
  | some target => ∃ m r, target.value.Gives s p m r ∧
    s.compiler.translations.method? (.ofHostType m.type) c.method (.exactly c.args.length) = some t ∧
    (apply t (some (target, m)) c.args m.type.displayName c.method).Gives s r n q
  | none => ∃ type, c.type = some type ∧
    s.compiler.translations.methodOf? type c.method (.exactly c.args.length) = some t ∧
    (apply t none c.args type c.method).Gives s p n q

/-- A call on a target that is not tested for membership: it is a call on a grouping, or an entry plans it. -/
theorem planned_of_target {target : Operand} {type : Option String} {method : String} {args : List Operand}
    (h : Planning.Gives (do
      match ← grouping? target.source with
      | some g => groupingCall g method args
      | none =>
        let n ← target.value
        let declaring := n.type.displayName
        match (← translations).method? (.ofHostType n.type) method (.exactly args.length) with
        | some t => apply t (some (target, n)) args declaring method
        | none => fail (.noTranslation declaring method args.length)) s p n q) :
    (∃ g, (groupingCall g method args).Gives s p n q) ∨ ∃ t, PlannedBy ⟨some target, type, method, args⟩ t s p n q := by
  obtain ⟨g?, _, hg, hcall⟩ := gives_bind.mp h
  obtain ⟨rfl, -⟩ := gives_grouping? hg
  split at hcall
  · next g => exact .inl ⟨g, hcall⟩
  · simp only [gives_bind, gives_translations] at hcall
    obtain ⟨m, _, hm, _, _, ⟨rfl, rfl⟩, hcall⟩ := hcall
    split at hcall
    · next t ht => exact .inr ⟨t, m, _, hm, ht, hcall⟩
    · exact absurd hcall not_gives_fail

/-- **How calls are planned**: as a test for membership in a collection, as a call on a grouping, or by an entry.

**Proof sketch.** By the target and the type that declares the method, as the planning tells them apart. Every branch
tests membership, calls on a grouping, uses an entry that has been found, or fails. -/
theorem gives_plan {c : Call} (h : c.plan.Gives s p n q) :
    (∃ target item, c.target = some target ∧ c.args = [item] ∧ (membership target item false).Gives s p n q) ∨
    (∃ target g, c.target = some target ∧ (groupingCall g c.method c.args).Gives s p n q) ∨
    ∃ t, c.PlannedBy t s p n q := by
  obtain ⟨target, type, method, args⟩ := c
  cases target with
  | none =>
    cases type with
    | none => exact absurd h not_gives_fail
    | some type =>
      simp only [plan, callOf, gives_bind, gives_translations] at h
      obtain ⟨_, _, ⟨rfl, rfl⟩, h⟩ := h
      split at h
      · next t ht => exact .inr (.inr ⟨t, type, rfl, ht, h⟩)
      · exact absurd h not_gives_fail
  | some target =>
    have looked (h : (∃ g, (groupingCall g method args).Gives s p n q) ∨
        ∃ t, PlannedBy ⟨some target, type, method, args⟩ t s p n q) :
        (∃ t' g, some target = some t' ∧ (groupingCall g method args).Gives s p n q) ∨
          ∃ t, PlannedBy ⟨some target, type, method, args⟩ t s p n q :=
      h.imp_left fun hg => ⟨target, hg.choose, rfl, hg.choose_spec⟩
    simp only [plan, callOn] at h
    split at h
    · next item =>
      split at h
      · obtain ⟨b, r, hb, hcall⟩ := gives_bind.mp h
        obtain ⟨rfl, -⟩ := gives_isCollection hb
        split at hcall
        · exact .inl ⟨target, item, rfl, rfl, hcall⟩
        · exact .inr (looked (planned_of_target hcall))
      · exact .inr (looked (planned_of_target h))
    · exact .inr (looked (planned_of_target h))

/-- What an entry for a function makes of a call: the function of the operands. -/
theorem gives_apply_of_function? {t : Translation} {f : SqlFunction} {target : Option (Operand × Node)}
    {args : List Operand} {declaring method : String} (hf : t.function? (target.toList.length + args.length) = some f)
    (h : (apply t target args declaring method).Gives s p n q) :
    ∃ nodes type, n = .call f (target.toList.map Prod.snd ++ nodes) type ∧
      Planning.Gives (args.mapM (·.value)) s p nodes q := by
  have hoperands {nodes : List Node} {r : Progress}
      (h : (Lowering.operands (target.map Prod.snd) args).Gives s p nodes r) :
      ∃ ns, Planning.Gives (args.mapM (·.value)) s p ns r ∧ nodes = target.toList.map Prod.snd ++ ns ∧
        nodes.length = target.toList.length + args.length := by
    simp only [Lowering.operands, gives_bind, gives_pure] at h
    obtain ⟨ns, _, hns, rfl, rfl⟩ := h
    refine ⟨ns, hns, by cases target <;> rfl, ?_⟩
    rw [List.length_append, length_of_gives_mapM hns]
    cases target <;> rfl
  cases t with
  | function g returns =>
    obtain rfl := Option.some.inj hf
    simp only [apply, gives_bind] at h
    obtain ⟨nodes, r, hnodes, h⟩ := h
    obtain ⟨ns, hns, rfl, -⟩ := hoperands hnodes
    cases returns <;> obtain ⟨rfl, rfl⟩ := gives_pure.mp h <;> exact ⟨ns, _, rfl, hns⟩
  | round =>
    simp only [apply, gives_bind, gives_pure] at h
    obtain ⟨nodes, r, hnodes, rfl, rfl⟩ := h
    obtain ⟨ns, hns, rfl, hlength⟩ := hoperands hnodes
    refine ⟨ns, firstType (target.toList.map Prod.snd ++ ns), ?_, hns⟩
    rw [hlength, ← Option.some.inj hf]
  | orElse =>
    obtain rfl := Option.some.inj hf
    simp only [apply, gives_bind, gives_read] at h
    obtain ⟨_, _, ⟨rfl, rfl⟩, h⟩ := h
    split at h
    · simp only [gives_bind, not_gives_defer, false_and, exists_false] at h
    · simp only [gives_bind, gives_pure] at h
      obtain ⟨nodes, r, hnodes, rfl, rfl⟩ := h
      obtain ⟨ns, hns, rfl, -⟩ := hoperands hnodes
      exact ⟨ns, _, rfl, hns⟩
  | _ => cases hf

/-- **A call that an entry turns into a function has each of its operands written, and nothing else, if it is made as
its method is meant to**: on a value if the method is one of values, and on a type otherwise. The function is applied to
the target, if there is one, and the arguments, in either case.

**Proof sketch.** The entry is found by the number of arguments, so the function takes one operand more on a value
than on a type. Its template has a place for each operand that the function takes, so it fits if and only if the call
has as many, which is checked entry by entry for the methods of each type. -/
theorem operands_written_iff {c : Call} {t : Translation} {f : SqlFunction}
    (hs : s.compiler.translations = .defaults) (h : c.PlannedBy t s p n q)
    (hf : t.function? c.operands.length = some f) :
    ∃ nodes type, n = .call f nodes type ∧ Planning.Gives (c.operands.mapM (·.value)) s p nodes q ∧
      nodes.length = c.operands.length ∧
      (Template.Fits (MySql.template f) nodes.length ↔
        (c.target.isSome = true ↔ (c.method, c.args.length) ∈ TranslationTable.valueMethods)) := by
  obtain ⟨target, type, method, args⟩ := c
  cases target with
  | none =>
    obtain ⟨type, rfl, ht, happly⟩ := h
    obtain ⟨key, -, ht⟩ := Option.bind_eq_some_iff.mp ht
    replace hf : t.function? args.length = some f := hf
    have htaken : t.function? ((none : Option (Operand × Node)).toList.length + args.length) = some f := by simpa using hf
    obtain ⟨nodes, result, rfl, hnodes⟩ := gives_apply_of_function? htaken happly
    have hlength : nodes.length = args.length := length_of_gives_mapM hnodes
    have hfits := TranslationTable.takes_of_type (hs ▸ ht) hf
    refine ⟨nodes, result, rfl, hnodes, hlength, ?_⟩
    rw [SqlFunction.fits_template_iff, hlength, hfits]
    simp
  | some target =>
    obtain ⟨m, r, hm, ht, happly⟩ := h
    replace hf : t.function? (args.length + 1) = some f := hf
    have htaken : t.function? ((some (target, m)).toList.length + args.length) = some f := by
      simpa [Nat.add_comm] using hf
    obtain ⟨nodes, result, rfl, hnodes⟩ := gives_apply_of_function? htaken happly
    have hlength : nodes.length = args.length := length_of_gives_mapM hnodes
    have hfits := TranslationTable.takes_on_value (hs ▸ ht) hf
    refine ⟨m :: nodes, result, rfl, gives_mapM_cons.mpr ⟨m, r, nodes, hm, hnodes, rfl⟩, congrArg (· + 1) hlength, ?_⟩
    rw [SqlFunction.fits_template_iff, List.length_cons, hlength, hfits]
    simp

/-- A scope in which `x` is a row with a code. -/
def codeScope : Scope where
  compiler := { model := {} }
  frames := [[("x", .table ⟨"Item", some "a", .derived [⟨"Code", .string⟩]⟩)]]

/-- The code of the row. -/
def code : Operand := operand (.member (.param "x") "Code")

/-- The code starts with a letter: the code and the letter are both written. -/
theorem code_starts_written : ∃ nodes type,
    Node.call .startsWith [.column (some "a") "Code" .string, .literal "'A'" (.string "A") .string] .bool =
      .call .startsWith nodes type ∧
    Planning.Gives ([code, operand (.constant (.string "A"))].mapM (·.value)) codeScope {} nodes {} ∧
    nodes.length = 2 ∧
    (Template.Fits (MySql.template .startsWith) nodes.length ↔
      (true = true ↔ ("StartsWith", 1) ∈ TranslationTable.valueMethods)) :=
  operands_written_iff (c := ⟨some code, none, "StartsWith", [operand (.constant (.string "A"))]⟩)
    (t := .function .startsWith (.fixed .bool)) rfl ⟨.column (some "a") "Code" .string, {}, rfl, rfl, rfl⟩ rfl

/-- A comparison that is called on the type of texts is planned with one operand, and the other one is written as a
null. -/
example :
    (plan ⟨none, some "String", "CompareTo", [code]⟩).Gives codeScope {}
      (.call .compare [.column (some "a") "Code" .string] .int32) {} :=
  rfl

/-- A test of a text for being empty takes an argument when it is called on the text, and does not write it. -/
example :
    (plan ⟨some code, none, "IsNullOrEmpty", [operand (.constant (.string "A"))]⟩).Gives codeScope {}
      (.call .isNullOrEmpty
        [.column (some "a") "Code" .string, .literal "'A'" (.string "A") .string] .bool) {} :=
  rfl

end Call
end Lowering
end LambdaSql
