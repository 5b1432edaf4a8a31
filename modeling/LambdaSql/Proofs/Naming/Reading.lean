import LambdaSql.Proofs.Naming.Standing
import LambdaSql.Proofs.Plan.Features

/-!
# Reading bindings

Columns come into a statement through bindings only: a member or a whole row of a table, or a key of a
grouping. Written in a place where the bindings stand for their tables, they mean what they should. The
same goes for the columns of projections, except for those that are selected beside projected expressions
left for evaluation after fetching.

## Main results

* `Binding.StandsFor.accounts_member`, `Binding.StandsFor.accounts_whole` - members and whole rows.
* `Projected.accounts_object`, `Projected.accounts_overlay`, `Projected.accounts_body` - projections.
-/

namespace LambdaSql

open Planning

/-! ## Columns and keys -/

/-- What a mapped entity's columns are. -/
theorem TableBinding.column_entity {t : TableBinding} {e : Entity} (ht : t.shape = .entity e)
    {member : String} {n : Node} (h : t.column member = .ok n) :
    ∃ f, e.field? member = some f ∧ n = .column t.aliasName f.column f.type := by
  unfold TableBinding.column at h
  rw [ht] at h
  dsimp only at h
  unfold Entity.field at h
  split at h
  · next f hf =>
    cases h
    exact ⟨f, hf, rfl⟩
  · cases h

section Accounts

variable {first : Char} {limit : Nat} {around : List Level}

/-- A column whose alias means a table is a column of that table. -/
theorem accounts_column {a name : String} {seat : Seat} (hd : (aliases around).Nodup)
    (hseat : seatOf a around = some seat) (t : HostType) :
    Accounts ((Node.column (some a) name t).occurrences around) {⟨seat, name⟩} where
  distinct := by
    intro o ho
    rw [Multiset.mem_singleton.mp ho]
    exact hd
  denoted := by
    rw [Node.occurrences, ← Multiset.cons_zero, Multiset.filterMap_cons, Multiset.filterMap_zero]
    unfold Occurrence.denoted?
    split
    · exact zero_le
    · simp [hseat]

/-- A member of a binding that stands for a table is accounted for by the reference to the member. -/
theorem TableBinding.StandsFor.accounts_member {t : TableBinding} {place : TablePlace}
    (h : t.StandsFor around place) (hd : (aliases around).Nodup) {member : String} {n : Node}
    (hn : t.column member = .ok n) : Accounts (n.occurrences around) (place.member member) := by
  obtain ⟨e, he, hshape⟩ := h.entity
  obtain ⟨a, ha, hseat⟩ := h.seat
  obtain ⟨f, hf, rfl⟩ := t.column_entity hshape hn
  have hmember : place.member member = {⟨place.seat, f.column⟩} := by
    simp [TablePlace.member, he, hf, TablePlace.reference]
  rw [hmember, ha]
  exact accounts_column hd hseat f.type

/-- The columns of a binding that stands for a table are accounted for by the table's columns. -/
theorem TableBinding.StandsFor.accounts_columns {t : TableBinding} {place : TablePlace}
    (h : t.StandsFor around place) (hd : (aliases around).Nodup) :
    Accounts (nodesOccurrences around (t.columns.map Prod.snd)) place.columns := by
  obtain ⟨e, he, hshape⟩ := h.entity
  obtain ⟨a, ha, hseat⟩ := h.seat
  have hcolumns : place.columns = (e.mappedFields.map place.reference).sum := by
    simp [TablePlace.columns, he]
  have hnodes : t.columns.map Prod.snd =
      e.mappedFields.map fun f => .column (some a) f.column f.type := by
    simp [TableBinding.columns, hshape, ha]
  rw [hcolumns, hnodes]
  generalize e.mappedFields = fields
  induction fields with
  | nil => exact .zero
  | cons f rest ih =>
    rw [List.map_cons, List.map_cons, List.sum_cons, nodesOccurrences_cons]
    exact (accounts_column hd hseat f.type).add ih

/-- A key is accounted for by its references wherever it is read. -/
theorem KeyStands.accounts {n : Node} {references : Nat → Multiset Reference}
    (h : KeyStands first limit around n references) (hd : (aliases around).Nodup) :
    Accounts (n.occurrences around) (references around.length) := h [] .nil hd

/-- Keys are accounted for by their references wherever they are read. -/
theorem KeysStand.accounts {keys : List (String × Node)}
    {references : List (String × (Nat → Multiset Reference))}
    (h : KeysStand first limit around keys references) (hd : (aliases around).Nodup) :
    Accounts (nodesOccurrences around (keys.map Prod.snd)) (keysReferences around.length references) := by
  induction h with
  | nil => exact .zero
  | cons hk _ ih => exact (hk.2.accounts hd).add ih

/-- A key that is found by its name is accounted for by the references of that name. -/
private theorem KeysStand.accounts_lookup {keys : List (String × Node)}
    {references : List (String × (Nat → Multiset Reference))}
    (h : KeysStand first limit around keys references) (hd : (aliases around).Nodup) {name : String}
    {n : Node} (hn : keys.lookup name = some n) :
    ∃ r, references.lookup name = some r ∧ Accounts (n.occurrences around) (r around.length) := by
  have hrel := lookup_rel h name
  rw [hn] at hrel
  generalize references.lookup name = r? at hrel ⊢
  cases hrel with
  | some hk => exact ⟨_, rfl, hk.accounts hd⟩

/-- What is read from a binding stands inside selections with different aliases. -/
theorem Binding.StandsFor.distinct {b : Binding} {place : Place}
    (h : b.StandsFor first limit around place) (hd : (aliases around).Nodup) {n : Node}
    (hn : b.Reads n) : ∀ o ∈ n.occurrences around, (aliases o.around).Nodup := by
  cases hn with
  | column hn =>
    cases h with
    | table ht => exact (ht.accounts_member hd hn).distinct
  | row hn =>
    cases h with
    | table ht =>
      intro o ho
      refine (ht.accounts_columns hd).distinct o (Multiset.mem_of_le (occurrences_le_of_mem ?_) ho)
      exact List.mem_map.mpr ⟨_, hn, rfl⟩
  | key hn =>
    cases h with
    | grouping hkeys _ =>
      intro o ho
      refine (hkeys.accounts hd).distinct o (Multiset.mem_of_le (occurrences_le_of_mem ?_) ho)
      exact List.mem_map.mpr ⟨_, hn, rfl⟩

/-- The only key of a grouping is all of its keys. -/
theorem KeysStand.accounts_single {g : Grouping}
    {references : List (String × (Nat → Multiset Reference))}
    (h : KeysStand first limit around g.keys references) (hd : (aliases around).Nodup) {n : Node}
    (hn : g.singleKey = .ok n) :
    Accounts (n.occurrences around) (keysReferences around.length references) := by
  obtain ⟨name, hkeys⟩ := Grouping.keys_of_singleKey hn
  have hall := h.accounts hd
  rw [hkeys, List.map_cons, List.map_nil, nodesOccurrences_cons, nodesOccurrences_nil, add_zero] at hall
  exact hall

end Accounts

/-! ## Parameters -/

section Parameters

variable {s : Scope} {places : Places} {p p' : Progress} {n : Node} {param name : String}

/-- What a bound parameter stands for. -/
theorem Apt.find {around : List Level} (h : Apt s places p p' around) {b : Binding}
    (hb : s.binding? param = some b) :
    ∃ place, places.find? param = some place ∧
      b.StandsFor s.compiler.options.firstAlias p.nextAlias around place := by
  have hrel := h.frames.find param
  rw [hb] at hrel
  generalize places.find? param = place? at hrel ⊢
  cases hrel with
  | some h => exact ⟨_, rfl, h⟩

/-- A member of a parameter.

**Proof sketch.** By what the parameter is bound to. A member of a table is its column, and a member of groups the key
by itself or one of its parts, each of which stands for what it refers to. -/
theorem Lowering.faithful_parameterMember (h : (parameterMember param name).Gives s p n p') :
    Faithful s places p [n] p' fun depth =>
      ((places.find? param).map (Place.member depth name)).getD 0 := by
  simp only [parameterMember, gives_bind, gives_lookup] at h
  obtain ⟨b, _, ⟨hb, rfl⟩, h⟩ := h
  cases b with
  | table t =>
    obtain ⟨hn, rfl⟩ := gives_ofExcept.mp h
    refine ⟨le_rfl, fun around ha => ?_⟩
    obtain ⟨_, hplace, hstands⟩ := ha.find hb
    rw [hplace, nodesOccurrences_cons, nodesOccurrences_nil, add_zero]
    cases hstands with
    | table ht => exact ht.accounts_member ha.distinct hn
  | grouping g =>
    dsimp only at h
    split at h
    · next hkey =>
      -- the key by itself, if the groups have just one
      obtain ⟨hn, rfl⟩ := gives_ofExcept.mp h
      refine ⟨le_rfl, fun around ha => ?_⟩
      obtain ⟨_, hplace, hstands⟩ := ha.find hb
      rw [hplace, nodesOccurrences_cons, nodesOccurrences_nil, add_zero]
      cases hstands with
      | grouping hkeys _ =>
        simp only [Option.map_some, Option.getD_some, Place.member, hkey, if_true]
        exact hkeys.accounts_single ha.distinct hn
    · next hkey =>
      obtain ⟨hn, rfl⟩ := gives_ofExcept.mp h
      refine ⟨le_rfl, fun around ha => ?_⟩
      obtain ⟨_, hplace, hstands⟩ := ha.find hb
      rw [hplace, nodesOccurrences_cons, nodesOccurrences_nil, add_zero]
      cases hstands with
      | grouping hkeys _ =>
        obtain ⟨r, hr, haccounts⟩ := hkeys.accounts_lookup ha.distinct (Grouping.lookup_of_key hn)
        simpa [Place.member, hkey, hr] using haccounts

/-- A parameter by itself. -/
theorem Lowering.faithful_parameter (h : (parameter param).Gives s p n p') :
    Faithful s places p [n] p' fun depth =>
      ((places.find? param).map (Place.whole depth)).getD 0 := by
  simp only [parameter, gives_bind, gives_lookup] at h
  obtain ⟨b, _, ⟨hb, rfl⟩, h⟩ := h
  cases b with
  | table t => exact absurd h not_gives_fail
  | grouping g =>
    obtain ⟨hn, rfl⟩ := gives_ofExcept.mp h
    refine ⟨le_rfl, fun around ha => ?_⟩
    obtain ⟨_, hplace, hstands⟩ := ha.find hb
    rw [hplace, nodesOccurrences_cons, nodesOccurrences_nil, add_zero]
    cases hstands with
    | grouping hkeys _ => exact hkeys.accounts_single ha.distinct hn

/-- A part of the key of a group. -/
theorem faithful_keyPart {g : Grouping} {key : String} (hkey : isKeyMember key = true)
    (hb : s.binding? param = some (.grouping g)) (hn : g.keys.lookup name = some n)
    (whole : Nat → Multiset Reference) :
    Faithful s places p [n] p fun depth =>
      ((places.keyPart? name (.member (.param param) key)).map (· depth)).getD (whole depth) := by
  refine ⟨le_rfl, fun around ha => ?_⟩
  obtain ⟨_, hplace, hstands⟩ := ha.find hb
  rw [nodesOccurrences_cons, nodesOccurrences_nil, add_zero]
  cases hstands with
  | grouping hkeys _ =>
    obtain ⟨r, hr, haccounts⟩ := hkeys.accounts_lookup ha.distinct hn
    simpa [Places.keyPart?, hkey, hplace, Place.key?, hr] using haccounts

/-- What is no part of a key in the scope is none among the places.

**Proof sketch.** The places have the same keys as the groups that they stand for, so that a part that is not found in
the scope is not found among the places. -/
theorem Apt.keyPart?_eq_none {around : List Level} (ha : Apt s places p p' around) {target : Expr}
    (hno : ∀ param key g, target = .member (.param param) key → isKeyMember key = true →
      s.binding? param = some (.grouping g) → g.keys.lookup name = none) :
    places.keyPart? name target = none := by
  unfold Places.keyPart?
  split
  · next param key =>
    split
    · next hkey =>
      have hrel := ha.frames.find param
      have hnone : ∀ g, s.binding? param = some (.grouping g) → g.keys.lookup name = none :=
        fun g hb => hno param key g rfl hkey hb
      generalize s.binding? param = b?, places.find? param = place? at hrel hnone ⊢
      cases hrel with
      | none => rfl
      | some h =>
        cases h with
        | table _ => rfl
        | @grouping g keys _ hkeys _ =>
          have hlookup := lookup_rel hkeys name
          rw [hnone g rfl] at hlookup
          rw [Option.bind_some, Place.key?]
          generalize keys.lookup name = r? at hlookup ⊢
          cases hlookup
          rfl
    · rfl
  · rfl

/-- What is no group in the scope is none among the places. -/
theorem Apt.elements?_eq_none {around : List Level} (ha : Apt s places p p' around) {target : Expr}
    (hno : ∀ name g, target = .param name → s.binding? name ≠ some (.grouping g)) :
    places.elements? target = none := by
  unfold Places.elements?
  split
  · next param =>
    have hrel := ha.frames.find param
    have hnot : ∀ g, s.binding? param ≠ some (.grouping g) := fun g => hno param g rfl
    generalize s.binding? param = b?, places.find? param = place? at hrel hnot ⊢
    cases hrel with
    | none => rfl
    | some h =>
      cases h with
      | table _ => rfl
      | @grouping g _ _ _ _ => exact absurd rfl (hnot g)
  · rfl

end Parameters

end LambdaSql
