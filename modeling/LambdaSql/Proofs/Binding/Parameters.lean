import LambdaSql.Proofs.Binding.Agreement
import LambdaSql.Proofs.Binding.Writing

/-!
# Adding parameters

A value is bound to a placeholder in one of two ways. Under a fixed name it shares the placeholder with the
values that it is the same as; under a generated name it gets a placeholder with the next number, whether or
not there is one of that name. Parameters are only ever added at the end, so what a placeholder stands for
does not change later.

## Main definitions

* `Parameters.Extends` - parameters go on from others.
* `Parameters.Binds` - one value is bound.
* `Parameters.Ordered` - parameters are numbered by their positions.
* `Parameters.Within` - placeholders have fixed names of some kind, or numbers that have been used up.

## Main results

* `Parameters.Binds.get?_fixed`, `Parameters.Binds.get?_generated` - the value of a placeholder that has just
  been written.
* `Parameters.Binds.eraseDups_names` - placeholders follow the text.
* `Parameters.get?_mergeChecked` - the parameters of a statement within others have their values there, too.
-/

namespace LambdaSql

/-! ## Lists without repetitions -/

section Repetitions

variable {α : Type} [BEq α] [LawfulBEq α]

/-- A member that is there is no new one. -/
theorem eraseDups_append_of_mem {as : List α} {a : α} (h : a ∈ as) :
    (as ++ [a]).eraseDups = as.eraseDups := by
  rw [List.eraseDups_append]
  simp [List.removeAll, h]

/-- A member that is not there comes last. -/
theorem eraseDups_append_of_notMem {as : List α} {a : α} (h : a ∉ as) :
    (as ++ [a]).eraseDups = as.eraseDups ++ [a] := by
  rw [List.eraseDups_append]
  simp [List.removeAll, h, List.eraseDups_cons]

/-- A list without its repetitions has the first occurrences in their order. -/
theorem pairwise_idxOf_eraseDups (as : List α) : as.eraseDups.Pairwise fun a b => as.idxOf a < as.idxOf b := by
  induction as using List.reverseRecOn with
  | nil => exact .nil
  | append_singleton as c ih =>
    have hstays : as.eraseDups.Pairwise fun a b => (as ++ [c]).idxOf a < (as ++ [c]).idxOf b := by
      refine ih.imp_of_mem fun {a b} ha hb hlt => ?_
      rwa [List.idxOf_append_of_mem (List.mem_eraseDups.mp ha), List.idxOf_append_of_mem (List.mem_eraseDups.mp hb)]
    by_cases h : c ∈ as
    · rwa [eraseDups_append_of_mem h]
    · rw [eraseDups_append_of_notMem h]
      refine List.pairwise_append.mpr ⟨hstays, List.pairwise_singleton .., fun a ha b hb => ?_⟩
      have ha := List.mem_eraseDups.mp ha
      obtain rfl := List.mem_singleton.mp hb
      rw [List.idxOf_append_of_mem ha, List.idxOf_append_of_notMem h]
      exact Nat.lt_of_lt_of_le (List.idxOf_lt_length_of_mem ha) (Nat.le_add_right ..)

/-- Without its repetitions, a list has none. -/
theorem nodup_eraseDups (as : List α) : as.eraseDups.Nodup :=
  (pairwise_idxOf_eraseDups as).imp fun hlt heq => absurd (heq ▸ hlt) (Nat.lt_irrefl _)

/-- What is added to lists with the same members in the same order. -/
theorem eraseDups_append_congr {as bs : List α} (h : as.eraseDups = bs.eraseDups) (cs : List α) :
    (as ++ cs).eraseDups = (bs ++ cs).eraseDups := by
  have hmem (c : α) : c ∈ as ↔ c ∈ bs := by
    rw [← List.mem_eraseDups (l := as), h, List.mem_eraseDups]
  rw [List.eraseDups_append, List.eraseDups_append, h]
  simp [List.removeAll, hmem]

/-- Repetitions may be left out before or after a selection. -/
theorem filter_eraseDups (p : α → Bool) (as : List α) :
    (as.filter p).eraseDups = as.eraseDups.filter p := by
  induction hn : as.length using Nat.strongRecOn generalizing as with
  | ind n ih =>
    cases as with
    | nil => rfl
    | cons a rest =>
      have hlt : (rest.filter fun b => !b == a).length < n := by
        rw [← hn, List.length_cons]
        exact Nat.lt_succ_of_le (List.length_filter_le ..)
      have ih := ih _ hlt (rest.filter fun b => !b == a) rfl
      rw [List.eraseDups_cons, List.filter_cons, List.filter_cons]
      split
      · rw [List.eraseDups_cons, ← ih, List.filter_comm]
      · next hp =>
        rw [← ih, List.filter_filter]
        congr 1
        refine List.filter_congr fun b _ => ?_
        by_cases hb : b = a
        · simp [hb, hp]
        · simp [hb]

/-- Lists with the same members in the same order, added to another one. -/
theorem append_eraseDups_congr {bs cs : List α} (as : List α) (h : bs.eraseDups = cs.eraseDups) :
    (as ++ bs).eraseDups = (as ++ cs).eraseDups := by
  rw [List.eraseDups_append, List.eraseDups_append, List.removeAll, List.removeAll, filter_eraseDups,
    filter_eraseDups, h]

end Repetitions

namespace Parameters

variable {ps qs rs inner : Parameters} {name : Option String} {value : Value} {native : NativeType}
variable {token : String}

/-! ## Going on -/

/-- Parameters go on from others: placeholders are named in the same way, and parameters are added at the
end. -/
structure Extends (ps qs : Parameters) : Prop where
  mark : qs.mark = ps.mark
  stem : qs.stem = ps.stem
  next : ps.next ≤ qs.next
  entries : ps.entries <+: qs.entries

/-- A table of parameters extends itself. -/
theorem Extends.refl (ps : Parameters) : ps.Extends ps := ⟨rfl, rfl, Nat.le_refl _, List.prefix_rfl⟩

/-- An extension of an extension is one. -/
theorem Extends.trans (h : ps.Extends qs) (h' : qs.Extends rs) : ps.Extends rs :=
  ⟨h'.mark.trans h.mark, h'.stem.trans h.stem, Nat.le_trans h.next h'.next, h.entries.trans h'.entries⟩

/-- What a placeholder stands for does not change. -/
theorem Extends.get? (h : ps.Extends qs) {p : Parameter} (hp : ps.get? token = some p) :
    qs.get? token = some p := by
  obtain ⟨later, heq⟩ := h.entries
  rw [Parameters.get?, ← heq, List.find?_append]
  exact Option.or_eq_some_iff.mpr (.inl hp)

/-- Extensions write names alike. -/
theorem Extends.token_eq (h : ps.Extends qs) (text : String) : qs.token text = ps.token text := by
  rw [Parameters.token, Parameters.token, h.mark]

/-- Different names are written differently. -/
theorem token_injective (ps : Parameters) : Function.Injective ps.token := by
  intro a b h
  exact String.toList_inj.mp (List.cons.inj (String.ofList_injective h)).2

/-- There is no entry for what is not among the names. -/
theorem get?_eq_none : ps.get? token = none ↔ token ∉ ps.names := by
  simp [get?, names, List.find?_eq_none]

/-- An entry is found under its own name. -/
private theorem name_of_get? {p : Parameter} (h : ps.get? token = some p) : p.name = token := by
  simpa using List.find?_some h

/-- What is found is an entry. -/
private theorem mem_of_get? {p : Parameter} (h : ps.get? token = some p) : p ∈ ps.entries :=
  List.mem_of_find?_eq_some h

/-! ## One more parameter -/

/-- Parameters are numbered by their positions. -/
def Ordered (ps : Parameters) : Prop := ps.entries.map (·.ordinal) = List.range ps.entries.length

/-- A further entry has the next ordinal. -/
theorem Ordered.push (h : ps.Ordered) (token : String) (value : Value) (native : NativeType) :
    (ps.push token value native).Ordered := by
  unfold Ordered at h ⊢
  simp [Parameters.push, h, List.range_succ]

/-- A further entry extends the table. -/
theorem extends_push (token : String) (value : Value) (native : NativeType) :
    ps.Extends (ps.push token value native) := ⟨rfl, rfl, Nat.le_refl _, List.prefix_append ..⟩

/-- A further entry adds its name at the end. -/
@[simp]
theorem names_push (token : String) (value : Value) (native : NativeType) :
    (ps.push token value native).names = ps.names ++ [token] := by
  simp [push, names]

/-- A table has an entry for each of its names. -/
theorem contains_iff : ps.contains token = true ↔ token ∈ ps.names := by
  rw [contains, Option.isSome_iff_ne_none, ne_eq, get?_eq_none, not_not]

/-- A new entry is found by its name. -/
theorem get?_push_self (h : token ∉ ps.names) (value : Value) (native : NativeType) :
    ∃ p, (ps.push token value native).get? token = some p ∧ p.value = value := by
  refine ⟨⟨token, value, native, ps.entries.length⟩, ?_, rfl⟩
  rw [get?, push, List.find?_append]
  exact Option.or_eq_some_iff.mpr (.inr ⟨get?_eq_none.mpr h, by simp⟩)

/-- A parameter more, unless its placeholder is bound. -/
theorem pushNew_cases (ps : Parameters) (token : String) (value : Value) (native : NativeType) :
    (token ∈ ps.names ∧ ps.pushNew token value native = ps) ∨
      (token ∉ ps.names ∧ ps.pushNew token value native = ps.push token value native) := by
  unfold pushNew
  rw [← contains_iff]
  split
  · next h => exact .inl ⟨h, rfl⟩
  · next h => exact .inr ⟨h, rfl⟩

/-- An entry that is added unless it is there extends the table. -/
theorem extends_pushNew (token : String) (value : Value) (native : NativeType) :
    ps.Extends (ps.pushNew token value native) := by
  obtain ⟨-, h⟩ | ⟨-, h⟩ := ps.pushNew_cases token value native <;> rw [h]
  · exact .refl ps
  · exact extends_push ..

/-- An entry that is added unless it is there leaves ordinals as they should be. -/
theorem Ordered.pushNew (h : ps.Ordered) (token : String) (value : Value) (native : NativeType) :
    (ps.pushNew token value native).Ordered := by
  obtain ⟨-, heq⟩ | ⟨-, heq⟩ := ps.pushNew_cases token value native <;> rw [heq]
  · exact h
  · exact h.push ..

/-- What is added depends on what is bound only. -/
theorem entries_pushNew_congr (h : ps.entries = qs.entries) (token : String) (value : Value)
    (native : NativeType) :
    (ps.pushNew token value native).entries = (qs.pushNew token value native).entries := by
  unfold pushNew contains get? push
  rw [h]
  split
  · exact h
  · rfl

/-- A name that is added unless it is there comes last among the different names. -/
private theorem eraseDups_names_pushNew (token : String) (value : Value) (native : NativeType) :
    (ps.pushNew token value native).names.eraseDups = (ps.names ++ [token]).eraseDups := by
  obtain ⟨hmem, heq⟩ | ⟨-, heq⟩ := ps.pushNew_cases token value native <;> rw [heq]
  · rw [eraseDups_append_of_mem hmem]
  · rw [names_push]

/-- An entry that is added unless it is there repeats no name. -/
theorem nodup_pushNew (h : ps.names.Nodup) (token : String) (value : Value) (native : NativeType) :
    (ps.pushNew token value native).names.Nodup := by
  obtain ⟨-, heq⟩ | ⟨hnew, heq⟩ := ps.pushNew_cases token value native <;> rw [heq]
  · exact h
  · rw [names_push]
    refine List.nodup_append.mpr ⟨h, List.nodup_singleton token, fun t ht u hu => ?_⟩
    rw [List.mem_singleton.mp hu]
    exact fun heq => hnew (heq ▸ ht)

/-! ## Binding a value -/

/-- The names that a fixed name may be written as: itself, and in a batch with the position. -/
def candidates (ps : Parameters) (name : String) : List String :=
  name :: ps.statement.toList.map fun position => name ++ "_" ++ toString position

/-- One value is bound: under a fixed name, to a placeholder that has the same value or none yet, or to the
next generated placeholder. -/
inductive Binds (ps : Parameters) (value : Value) (native : NativeType) :
    Option String → String → Parameters → Prop
  | fixed {name candidate : String} : candidate ∈ ps.candidates name →
    (∀ p, ps.visible? (ps.token candidate) = some p → p.value.Agrees value) →
    Binds ps value native (some name) (ps.token candidate) (ps.pushNew (ps.token candidate) value native)
  | generated : Binds ps value native none (ps.token (ps.stem ++ toString ps.next))
    { ps.push (ps.token (ps.stem ++ toString ps.next)) value native with next := ps.next + 1 }

/-- Without a batch, a fixed placeholder can be bound unless it has another value. -/
theorem bind_unbatched (h : ps.statement = none) (name : String) (value : Value) (native : NativeType) :
    ps.bind name value native =
      if ps.agrees? (ps.token name) value = some false then .error (.placeholderConflict (ps.token name))
      else .ok (ps.token name, ps.pushNew (ps.token name) value native) := by
  unfold bind
  rw [h]
  rcases hagrees : ps.agrees? (ps.token name) value with _ | _ | _ <;> simp [hagrees]

/-- What does not disagree with an entry agrees with it. -/
theorem agrees_of_agrees? (h : ps.agrees? token value ≠ some false) {p : Parameter}
    (hp : ps.visible? token = some p) : p.value.Agrees value := by
  refine .inr ?_
  rw [agrees?, hp] at h
  simpa using h

/-- Binding a value to a name is a way of binding it.

**Proof sketch.** A value is bound under its name if that is free or has an equal value, and otherwise, in a batch,
under the name with the statement's position on the same conditions. -/
theorem binds_of_bind {name : String} (h : ps.bind name value native = .ok (token, qs)) :
    ps.Binds value native (some name) token qs := by
  unfold bind at h
  dsimp only at h
  split at h
  · next hnone =>
    cases h
    exact .fixed List.mem_cons_self fun p hp => agrees_of_agrees? (hnone ▸ nofun) hp
  · next htrue =>
    cases h
    exact .fixed List.mem_cons_self fun p hp => agrees_of_agrees? (htrue ▸ nofun) hp
  · cases h
  · next position hfalse hposition =>
    have hmem : name ++ "_" ++ toString position ∈ ps.candidates name := by
      simp [candidates, hposition]
    split at h
    · cases h
    · next hnone =>
      cases h
      exact .fixed hmem fun p hp => agrees_of_agrees? (hnone ▸ nofun) hp
    · next htrue =>
      cases h
      exact .fixed hmem fun p hp => agrees_of_agrees? (htrue ▸ nofun) hp

namespace Binds

/-- Binding only adds entries. -/
theorem grows (h : ps.Binds value native name token qs) : ps.Extends qs := by
  cases h with
  | fixed => exact extends_pushNew ..
  | generated =>
    have hpush := ps.extends_push (ps.token (ps.stem ++ toString ps.next)) value native
    exact ⟨hpush.mark, hpush.stem, Nat.le_succ _, hpush.entries⟩

/-- Binding leaves ordinals as they should be. -/
theorem ordered (h : ps.Binds value native name token qs) (ho : ps.Ordered) : qs.Ordered := by
  cases h with
  | fixed => exact ho.pushNew ..
  | generated => exact ho.push ..

/-- The placeholder comes next among the parameters, or was there before. -/
theorem eraseDups_names (h : ps.Binds value native name token qs) :
    qs.names.eraseDups = (ps.names ++ [token]).eraseDups := by
  cases h with
  | fixed => exact eraseDups_names_pushNew ..
  | generated => exact congrArg List.eraseDups (names_push ..)

/-- A placeholder with a fixed name has the value that it was written for. -/
theorem get?_fixed {text : String} (h : ps.Binds value native (some text) token qs) :
    ∃ p, qs.get? token = some p ∧ p.value.Agrees value := by
  cases h with
  | fixed _ hvisible =>
    obtain ⟨hmem, heq⟩ | ⟨hnew, heq⟩ := ps.pushNew_cases _ value native <;> rw [heq]
    · obtain ⟨p, hp⟩ := Option.ne_none_iff_exists'.mp (mt get?_eq_none.mp (not_not.mpr hmem))
      refine ⟨p, hp, hvisible p ?_⟩
      rw [visible?, hp]
      rfl
    · obtain ⟨p, hp, hvalue⟩ := get?_push_self hnew value native
      exact ⟨p, hp, hvalue ▸ .refl _⟩

/-- A generated placeholder has the value that it was written for, if there was none of that name. -/
theorem get?_generated (h : ps.Binds value native none token qs) (hnew : token ∉ ps.names) :
    ∃ p, qs.get? token = some p ∧ p.value.Agrees value := by
  cases h with
  | generated =>
    obtain ⟨p, hp, hvalue⟩ := get?_push_self hnew value native
    exact ⟨p, hp, hvalue ▸ .refl _⟩

end Binds

/-! ## Statements within others -/

/-- The parameters of a statement within others, one after the other. -/
def mergeEntries (ps : Parameters) (entries : List Parameter) : Parameters :=
  entries.foldl (fun acc p => acc.pushNew p.name p.value p.native) ps

/-- Merging entries extends a table. -/
private theorem extends_mergeEntries (entries : List Parameter) : ps.Extends (ps.mergeEntries entries) := by
  induction entries generalizing ps with
  | nil => exact .refl ps
  | cons p rest ih => exact (extends_pushNew p.name p.value p.native).trans ih

/-- Merging entries leaves ordinals as they should be. -/
theorem Ordered.mergeEntries (h : ps.Ordered) (entries : List Parameter) :
    (ps.mergeEntries entries).Ordered := by
  induction entries generalizing ps with
  | nil => exact h
  | cons p rest ih => exact ih (h.pushNew p.name p.value p.native)

/-- Merged entries come after those before among the different names. -/
private theorem eraseDups_names_mergeEntries (entries : List Parameter) :
    (ps.mergeEntries entries).names.eraseDups = (ps.names ++ entries.map (·.name)).eraseDups := by
  induction entries generalizing ps with
  | nil => rw [List.map_nil, List.append_nil]; rfl
  | cons p rest ih =>
    refine ih.trans ?_
    rw [eraseDups_append_congr (eraseDups_names_pushNew p.name p.value p.native), List.append_assoc]
    rfl

/-- Merging does not repeat names. -/
private theorem nodup_mergeEntries (h : ps.names.Nodup) (entries : List Parameter) :
    (ps.mergeEntries entries).names.Nodup := by
  induction entries generalizing ps with
  | nil => exact h
  | cons p rest ih => exact ih (nodup_pushNew h p.name p.value p.native)

/-- A new placeholder has the value of its first entry.

**Proof sketch.** By induction on the entries. The first entry of the placeholder is pushed, as the placeholder is
new, and later ones leave it as it is. -/
theorem get?_mergeEntries (hnew : token ∉ ps.names) {entries : List Parameter} {p : Parameter}
    (hp : entries.find? (·.name == token) = some p) :
    ∃ q, (ps.mergeEntries entries).get? token = some q ∧ q.value = p.value := by
  induction entries generalizing ps with
  | nil => cases hp
  | cons r rest ih =>
    rw [List.find?_cons] at hp
    split at hp
    · next hname =>
      cases hp
      rw [beq_iff_eq] at hname
      subst hname
      -- the placeholder is new, so its entry is added as it is
      have hpush : ps.pushNew p.name p.value p.native = ps.push p.name p.value p.native := by
        obtain ⟨hmem, -⟩ | ⟨-, heq⟩ := ps.pushNew_cases p.name p.value p.native
        · exact absurd hmem hnew
        · exact heq
      obtain ⟨q, hq, hvalue⟩ := get?_push_self hnew p.value p.native
      refine ⟨q, (extends_mergeEntries rest).get? ?_, hvalue⟩
      exact (congrArg (·.get? p.name) hpush).trans hq
    · next hname =>
      -- the entry is one of another name
      have hnew : token ∉ (ps.pushNew r.name r.value r.native).names := by
        intro hmem
        rw [← List.mem_eraseDups, eraseDups_names_pushNew, List.mem_eraseDups, List.mem_append,
          List.mem_singleton] at hmem
        obtain hmem | rfl := hmem
        · exact hnew hmem
        · exact absurd (beq_self_eq_true _) (hname ▸ Bool.false_ne_true)
      exact ih hnew hp

/-- Merging adds the entries and takes over the number of the next generated name. -/
theorem merge_eq (ps inner : Parameters) :
    ps.merge inner = { ps.mergeEntries inner.entries with next := max ps.next inner.next } := rfl

/-- Which entries are added depends on the entries alone. -/
theorem entries_mergeEntries_congr (h : ps.entries = qs.entries) (entries : List Parameter) :
    (ps.mergeEntries entries).entries = (qs.mergeEntries entries).entries := by
  induction entries generalizing ps qs with
  | nil => exact h
  | cons p rest ih => exact ih (entries_pushNew_congr h p.name p.value p.native)

/-- Merging extends the table that is merged into. -/
theorem extends_merge (ps inner : Parameters) : ps.Extends (ps.merge inner) := by
  have h := ps.extends_mergeEntries inner.entries
  exact ⟨h.mark, h.stem, Nat.le_max_left .., h.entries⟩

/-- Merging leaves ordinals as they should be. -/
theorem Ordered.merge (h : ps.Ordered) (inner : Parameters) : (ps.merge inner).Ordered :=
  h.mergeEntries inner.entries

/-- Merging adds the names that are not there yet, in their order. -/
theorem eraseDups_names_merge (ps inner : Parameters) :
    (ps.merge inner).names.eraseDups = (ps.names ++ inner.names).eraseDups :=
  eraseDups_names_mergeEntries inner.entries

/-- Merging repeats no name. -/
theorem nodup_merge (h : ps.names.Nodup) (inner : Parameters) : (ps.merge inner).names.Nodup :=
  nodup_mergeEntries h inner.entries

/-- A merge that passes the check is a merge, and entries of one name agree. -/
theorem merge_of_mergeChecked (h : ps.mergeChecked inner = .ok qs) :
    qs = ps.merge inner ∧ ∀ p ∈ inner.entries, ∀ q, ps.get? p.name = some q → q.value.Agrees p.value := by
  unfold mergeChecked at h
  split at h
  · cases h
  · next hnone =>
    cases h
    refine ⟨rfl, fun p hp q hq => .inr ?_⟩
    have hagree := List.find?_eq_none.mp hnone p hp
    rw [hq, Option.any_some, bne, Bool.not_eq_true'] at hagree
    exact Bool.not_eq_false _ ▸ hagree

/-- **The parameters of a statement within others have their values there, too**: a placeholder of that
statement is new to those around it, or has the same value there. -/
theorem get?_mergeChecked (h : ps.mergeChecked inner = .ok qs) {p : Parameter}
    (hp : inner.get? token = some p) : ∃ q, qs.get? token = some q ∧ q.value.Agrees p.value := by
  obtain ⟨rfl, hagrees⟩ := merge_of_mergeChecked h
  cases hq : ps.get? token with
  | some q =>
    refine ⟨q, (ps.extends_merge inner).get? hq, hagrees p (mem_of_get? hp) q ?_⟩
    rwa [name_of_get? hp]
  | none =>
    obtain ⟨q, hq, hvalue⟩ := get?_mergeEntries (get?_eq_none.mp hq) hp
    exact ⟨q, hq, hvalue ▸ .refl _⟩

/-! ## Names that cannot meet -/

/-- Placeholders have fixed names of some kind, or numbers that have been used up. -/
def Within (fixed : String → Prop) (ps : Parameters) : Prop :=
  ∀ t ∈ ps.names, ∃ name, t = ps.token name ∧
    (fixed name ∨ ∃ number < ps.next, name = ps.stem ++ toString number)

/-- Fixed names of some kind cannot be taken for generated ones. -/
def Apart (fixed : String → Prop) (stem : String) : Prop :=
  ∀ name, fixed name → ∀ number : Nat, name ≠ stem ++ toString number

/-- Names that are generated from different numbers differ. -/
theorem generated_injective (stem : String) :
    Function.Injective fun number : Nat => stem ++ toString number := by
  intro m n h
  have hd := congrArg (fun t => Nat.ofDigitChars 10 (t.toList.drop stem.toList.length) 0) h
  simpa using hd

/-- The next generated placeholder is a new one. -/
theorem Within.generated_notMem {fixed : String → Prop} (h : ps.Within fixed) (ha : Apart fixed ps.stem) :
    ps.token (ps.stem ++ toString ps.next) ∉ ps.names := by
  intro hmem
  obtain ⟨name, heq, hname⟩ := h _ hmem
  have heq := (token_injective ps heq).symm
  obtain hname | ⟨number, hlt, rfl⟩ := hname
  · exact ha name hname ps.next heq
  · exact absurd (generated_injective ps.stem heq) (Nat.ne_of_lt hlt)

/-- Parameters that go on from others, with no placeholders but theirs and those of some kind. -/
theorem Within.of_extends {fixed : String → Prop} (h : ps.Within fixed) (he : ps.Extends qs)
    (hnames : ∀ t ∈ qs.names, t ∈ ps.names ∨
      ∃ name, t = qs.token name ∧ (fixed name ∨ ∃ number < qs.next, name = qs.stem ++ toString number)) :
    qs.Within fixed := by
  intro t ht
  obtain ht | ht := hnames t ht
  · obtain ⟨name, rfl, hname⟩ := h t ht
    refine ⟨name, (he.token_eq name).symm, hname.imp_right ?_⟩
    rintro ⟨number, hlt, rfl⟩
    exact ⟨number, Nat.lt_of_lt_of_le hlt he.next, by rw [he.stem]⟩
  · exact ht

/-- Binding under a fixed name or a generated one leaves all names fixed or generated. -/
theorem Binds.within {fixed : String → Prop} (h : ps.Binds value native name token qs)
    (hps : ps.Within fixed) (hname : ∀ text, name = some text → ∀ c ∈ ps.candidates text, fixed c) :
    qs.Within fixed := by
  refine hps.of_extends h.grows fun t ht => ?_
  rw [← List.mem_eraseDups, h.eraseDups_names, List.mem_eraseDups, List.mem_append, List.mem_singleton] at ht
  refine ht.imp_right ?_
  rintro rfl
  cases h with
  | fixed hc => exact ⟨_, ((extends_pushNew ..).token_eq _).symm, .inl (hname _ rfl _ hc)⟩
  | generated => exact ⟨_, rfl, .inr ⟨ps.next, Nat.lt_succ_self _, rfl⟩⟩

/-- Binding repeats no name as long as fixed names cannot be generated. -/
theorem Binds.nodup {fixed : String → Prop} (h : ps.Binds value native name token qs)
    (hps : ps.Within fixed) (ha : Apart fixed ps.stem) (hnodup : ps.names.Nodup) : qs.names.Nodup := by
  cases h with
  | fixed => exact nodup_pushNew hnodup ..
  | generated =>
    have hpush : (ps.pushNew (ps.token (ps.stem ++ toString ps.next)) value native).names.Nodup :=
      nodup_pushNew hnodup ..
    obtain ⟨hmem, -⟩ | ⟨-, heq⟩ := ps.pushNew_cases (ps.token (ps.stem ++ toString ps.next)) value native
    · exact absurd hmem (hps.generated_notMem ha)
    · rw [heq] at hpush
      exact hpush

/-- Statements within others go on numbering, so that their placeholders are of the same kinds. -/
theorem Within.merge {fixed : String → Prop} (h : ps.Within fixed) (hi : inner.Within fixed)
    (hmark : inner.mark = ps.mark) (hstem : inner.stem = ps.stem) : (ps.merge inner).Within fixed := by
  have he := ps.extends_merge inner
  refine h.of_extends he fun t ht => ?_
  rw [← List.mem_eraseDups, eraseDups_names_merge, List.mem_eraseDups, List.mem_append] at ht
  refine ht.imp_right fun ht => ?_
  obtain ⟨name, rfl, hname⟩ := hi t ht
  refine ⟨name, by rw [he.token_eq, token, token, hmark], hname.imp_right ?_⟩
  rintro ⟨number, hlt, rfl⟩
  exact ⟨number, Nat.lt_of_lt_of_le hlt (Nat.le_max_right ..), by rw [he.stem, hstem]⟩

end Parameters

/-- What is written for a value is the placeholder that it is bound to. -/
theorem Writing.binds_of_gives {name : Option String} {value : Value} {native : NativeType}
    {ps qs : Parameters} {p : Phrase} (h : (Writing.bind name value native).Gives ps p qs) :
    ∃ token, p = [.placeholder token] ∧ ps.Binds value native name token qs := by
  cases name with
  | none =>
    cases h
    exact ⟨_, rfl, .generated⟩
  | some name =>
    obtain ⟨token, hbind, rfl⟩ := Writing.gives_named.mp h
    exact ⟨token, rfl, Parameters.binds_of_bind hbind⟩

end LambdaSql
