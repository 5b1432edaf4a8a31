import LambdaSql.Proofs.Naming.Projecting
import LambdaSql.Proofs.Scoping.Wording

/-!
# Playing roles

Wherever a column is written, its alias means a table of some selection around it. A binding plays the role of a
parameter there if what is read from it is what may be written for the parameter. It still does so inside further
selections, as long as their tables have later aliases; nothing is needed to know about the selections outside of those
that the roles are about, and nothing about parameters that are unknown.

## Main results

* `Scope.Plays.deepen` - roles are played inside further selections.
* `Scope.Plays.under` - the parameters of a lambda play the roles that they are bound to.
* `Lowering.written_parameterMember`, `Lowering.written_parameter`, `Projected.written_columnOf` - parameters.
-/

namespace LambdaSql

open Planning

/-- What a column means, if anything; there is no answer for what is no column. -/
def Occurrence.meant? (o : Occurrence) : Option (Option Reference) :=
  match o.leaf with
  | .column aliasName name => some ((aliasName.bind (seatOf · o.around)).map (⟨·, name⟩))
  | .fixed _ | .selection => none

/-! ## Inside further selections -/

section Deepen

variable {first : Char} {limit limit' : Nat} {inner around : List Level} {s : Scope} {roles : Roles}

/-- A binding plays its table inside further levels. -/
theorem TableBinding.Plays.deepen {t : TableBinding} {place : TablePlace} (h : t.Plays first limit around place)
    (hle : limit ≤ limit') (hf : FromOn first limit inner) : t.Plays first limit' (inner ++ around) place where
  entity := h.entity
  seat := by
    obtain ⟨position, hlt, ha, hseat⟩ := h.seat
    exact ⟨position, hlt.trans_le hle, ha, (seatOf_append (hf.notMem hlt)).trans hseat⟩

/-- Keys play their wordings inside further levels. -/
theorem KeysPlay.deepen {keys : List (String × Node)} {wordings : List (String × Wording)}
    (h : KeysPlay first limit around keys wordings) (hle : limit ≤ limit') (hf : FromOn first limit inner) :
    KeysPlay first limit' (inner ++ around) keys wordings := by
  refine h.imp ?_
  intro k w hk
  refine ⟨hk.1, ?_⟩
  intro more hmore
  rw [← List.append_assoc]
  exact hk.2 (more ++ inner) ((hmore.mono hle).append hf)

/-- A binding plays the same role inside further selections with later aliases. -/
theorem Binding.Plays.deepen {b : Binding} {role : Role} (h : b.Plays first limit around role) (hle : limit ≤ limit')
    (hf : FromOn first limit inner) : b.Plays first limit' (inner ++ around) role := by
  cases h with
  | table ht => exact .table (ht.deepen hle hf)
  | bare hnone hshape => exact .bare hnone hshape
  | groups hkeys hrows => exact .groups (hkeys.deepen hle hf) (hrows.imp fun _ _ h => h.deepen hle hf)
  | outside => exact .outside

/-- A binding plays its role with a later position. -/
theorem Binding.Plays.later {b : Binding} {role : Role} (h : b.Plays first limit around role) (hle : limit ≤ limit') :
    b.Plays first limit' around role := by
  have := h.deepen hle .nil
  exact this

/-- Bindings play their roles with a later position. -/
theorem Cast.later {bindings : List Binding} {bound : List Role} (h : Cast first limit around bindings bound)
    (hle : limit ≤ limit') : Cast first limit' around bindings bound :=
  h.imp fun _ _ h => h.later hle

/-- The scope plays the roles inside further levels. -/
theorem Scope.Plays.deepen (h : s.Plays limit around roles) (hle : limit ≤ limit')
    (hf : FromOn s.compiler.options.firstAlias limit inner) : s.Plays limit' (inner ++ around) roles := by
  intro name
  have hfills := h name
  generalize s.binding? name = b?, roles name = role? at hfills
  cases hfills with
  | unbound => exact .unbound
  | outside => exact .outside
  | bound hplays => exact .bound (hplays.deepen hle hf)

/-- The scope plays the roles with a later position. -/
theorem Scope.Plays.later (h : s.Plays limit around roles) (hle : limit ≤ limit') : s.Plays limit' around roles := by
  have := h.deepen hle .nil
  exact this

/-- Where nothing is known, anything may be bound. -/
theorem Scope.plays_unknown (around : List Level) : s.Plays limit around Roles.unknown := fun _ => .outside

/-- Where nothing is bound, there are no roles. -/
theorem Scope.plays_none (h : s.frames = []) (around : List Level) : s.Plays limit around Roles.none := by
  intro name
  have hnone : s.binding? name = none := by rw [Scope.binding?, h, List.findSome?_nil]
  rw [hnone]
  exact .unbound

/-- Under a lambda, its parameters play the roles of the same positions.

**Proof sketch.** Names are looked up among the parameters first, the last one of a name counting, and then outside.
Both lookups end at the same position, since the bindings and the roles are zipped with the same names. -/
theorem Scope.Plays.under (h : s.Plays limit around roles) {bindings : List Binding} {bound : List Role}
    (hb : Cast s.compiler.options.firstAlias limit around bindings bound) {params : List String}
    (hparams : params.length ≤ bindings.length) :
    Scope.Plays { s with frames := frame params bindings :: s.frames } limit around (roles.under params bound) := by
  -- the parameters have bindings and roles in the same order
  have hzip : List.Forall₂ (fun x y => x.1 = y.1 ∧ x.2.Plays s.compiler.options.firstAlias limit around y.2)
      (params.zip bindings) (params.zip bound) := by
    clear hparams
    induction hb generalizing params with
    | nil =>
      rw [List.zip_nil_right, List.zip_nil_right]
      exact .nil
    | cons hb _ ih =>
      cases params with
      | nil => exact .nil
      | cons name rest => exact .cons ⟨rfl, hb⟩ ih
  intro name
  have hrel := lookup_rel (List.rel_reverse hzip) name
  have hother := h name
  rw [Roles.under, if_pos (hb.length_eq ▸ hparams)]
  unfold Scope.binding? frame at *
  rw [List.findSome?_cons]
  generalize (params.zip bindings).reverse.lookup name = b?, (params.zip bound).reverse.lookup name = r? at hrel ⊢
  cases hrel with
  | none => exact hother
  | some hplays => exact .bound hplays

end Deepen

/-- Tables play their roles as bindings. -/
theorem cast_tables {first : Char} {limit : Nat} {around : List Level} {tables : List TableBinding}
    {seats : List TablePlace} (h : List.Forall₂ (TableBinding.Plays first limit around) tables seats) :
    Cast first limit around (tableBindings tables) (seats.map .table) := by
  unfold tableBindings
  rw [Cast, List.forall₂_map_left_iff, List.forall₂_map_right_iff]
  exact h.imp fun _ _ h => .table h

/-- Whatever bindings are, they are something outside. -/
theorem cast_outside {first : Char} {limit : Nat} {around : List Level} (bindings : List Binding) :
    Cast first limit around bindings (List.replicate bindings.length .outside) := by
  induction bindings with
  | nil => exact .nil
  | cons b rest ih => exact .cons .outside ih

/-! ## Reading -/

section Reading

variable {first : Char} {limit : Nat} {around : List Level} {t : TableBinding} {place : TablePlace} {n : Node}

/-- A member of a table is its column.

**Proof sketch.** By the shape of the table. A field of its entity is the column of that member, and a derived column
has the name of the member. -/
theorem TableBinding.Plays.column (h : t.Plays first limit around place) {member : String}
    (hn : t.column member = .ok n) : place.column member around [n] := by
  obtain ⟨position, -, ha, hseat⟩ := h.seat
  have hentity := h.entity
  cases hshape : t.shape with
  | entity e =>
    obtain ⟨f, hf, rfl⟩ := t.column_entity hshape hn
    rw [hshape] at hentity
    have hhas : place.Has member f.column f.type := by
      simp [TablePlace.Has, hentity, Shape.entity?, hf]
    exact ⟨_, f.column, f.type, hseat, hhas, by rw [ha]⟩
  | derived columns =>
    rw [hshape] at hentity
    unfold TableBinding.column at hn
    rw [hshape] at hn
    dsimp only at hn
    split at hn
    · next o ho =>
      cases hn
      have hname : o.name = member := beq_iff_eq.mp (List.find?_some (p := fun o : Output => o.name == member) ho)
      have hhas : place.Has member o.name o.type := by
        simp [TablePlace.Has, hentity, Shape.entity?, hname]
      exact ⟨_, o.name, o.type, hseat, hhas, by rw [ha]⟩
    · cases hn

/-- A row of a table is all of its columns. -/
theorem TableBinding.Plays.row (h : t.Plays first limit around place) : place.Row around t.columns := by
  obtain ⟨position, -, ha, hseat⟩ := h.seat
  refine ⟨_, hseat, ?_⟩
  rw [h.entity]
  cases hshape : t.shape with
  | entity e => simp [Shape.entity?, TableBinding.columns, hshape, ha]
  | derived columns =>
    intro c hc
    rw [TableBinding.columns, hshape] at hc
    obtain ⟨o, -, rfl⟩ := List.mem_map.mp hc
    exact ⟨o.type, by rw [ha]⟩

/-- A member of a table without an alias is the name of its column. -/
theorem TableBinding.bareColumn (t : TableBinding) {e : Entity} (hnone : t.aliasName = none)
    (hshape : t.shape = .entity e) {member : String} (hn : t.column member = .ok n) (around : List Level) :
    e.bareColumn member around [n] := by
  obtain ⟨f, hf, rfl⟩ := t.column_entity hshape hn
  exact ⟨f, hf, by rw [hnone]⟩

/-- A row of a table without an alias is the names of all of its columns. -/
theorem TableBinding.columns_bare (t : TableBinding) {e : Entity} (hnone : t.aliasName = none)
    (hshape : t.shape = .entity e) : t.columns = e.bareRow := by
  rw [TableBinding.columns, hshape, hnone]
  rfl

variable {keys : List (String × Node)} {wordings : List (String × Wording)}

/-- Keys that play their wordings are written as these say. -/
theorem KeysPlay.written (h : KeysPlay first limit around keys wordings) : KeysWritten wordings around keys :=
  h.imp fun _ _ hk => ⟨hk.1, hk.2 [] .nil⟩

/-- A key of a name is written as its wording says. -/
theorem KeysPlay.named (h : KeysPlay first limit around keys wordings) {name : String}
    (hn : keys.lookup name = some n) : keyNamed wordings name around [n] := by
  have hrel := lookup_rel (r := fun (n : Node) (w : Wording) =>
    ∀ inner, FromOn first limit inner → w (inner ++ around) [n]) h name
  rw [hn] at hrel
  generalize hw : wordings.lookup name = w? at hrel
  cases hrel with
  | some hk => exact ⟨_, hw, hk [] .nil⟩

/-- A single key is written as its wording says. -/
theorem KeysPlay.single {g : Grouping} (h : KeysPlay first limit around g.keys wordings) (hn : g.singleKey = .ok n) :
    singleKey wordings around [n] := by
  obtain ⟨name, hkeys⟩ := Grouping.keys_of_singleKey hn
  rw [hkeys] at h
  cases h with
  | cons hk hrest =>
    cases hrest
    exact ⟨_, rfl, hk.2 [] .nil⟩

end Reading

/-! ## Parameters -/

section Parameters

variable {s : Scope} {roles : Roles} {p p' : Progress} {around : List Level} {n : Node} {param name : String}

/-- What is read through a parameter may be written for it, if that holds for all roles that its binding plays. -/
theorem Scope.Plays.wording {limit : Nat} (h : s.Plays limit around roles) {b : Binding}
    (hb : s.binding? param = some b) {way : Role → Wording} {ns : List Node}
    (hway : ∀ role, b.Plays s.compiler.options.firstAlias limit around role → way role around ns) :
    roles.wording way param around ns := by
  have hfills := h param
  rw [hb] at hfills
  unfold Roles.wording
  generalize roles param = role? at hfills
  cases hfills with
  | outside => exact hway _ .outside
  | bound hplays => exact hway _ hplays

/-- A member of a parameter.

**Proof sketch.** By what the parameter is bound to. A table's member is a column of its place; a member of groups is
their single key if it is called `Key`, or else the key of its name. -/
theorem Lowering.written_parameterMember (ha : s.Plays p.nextAlias around roles)
    (h : (parameterMember param name).Gives s p n p') :
    p' = p ∧ roles.wording (Role.member name) param around [n] := by
  simp only [parameterMember, gives_bind, gives_lookup] at h
  obtain ⟨b, _, ⟨hb, rfl⟩, h⟩ := h
  cases b with
  | table t =>
    obtain ⟨hn, rfl⟩ := gives_ofExcept.mp h
    refine ⟨rfl, ha.wording hb ?_⟩
    intro role hrole
    cases hrole with
    | table ht => exact ht.column hn
    | bare hnone hshape => exact t.bareColumn hnone hshape hn around
    | outside => trivial
  | grouping g =>
    dsimp only at h
    split at h
    · next hkey =>
      obtain ⟨hn, rfl⟩ := gives_ofExcept.mp h
      refine ⟨rfl, ha.wording hb ?_⟩
      intro role hrole
      cases hrole with
      | groups hkeys _ =>
        rw [Role.member, if_pos hkey]
        exact hkeys.single hn
      | outside => trivial
    · next hkey =>
      obtain ⟨hn, rfl⟩ := gives_ofExcept.mp h
      refine ⟨rfl, ha.wording hb ?_⟩
      intro role hrole
      cases hrole with
      | groups hkeys _ =>
        rw [Role.member, if_neg hkey]
        exact hkeys.named (Grouping.lookup_of_key hn)
      | outside => trivial

/-- A parameter by itself. -/
theorem Lowering.written_parameter (ha : s.Plays p.nextAlias around roles) (h : (parameter param).Gives s p n p') :
    p' = p ∧ roles.wording Role.whole param around [n] := by
  simp only [parameter, gives_bind, gives_lookup] at h
  obtain ⟨b, _, ⟨hb, rfl⟩, h⟩ := h
  cases b with
  | table t => exact absurd h not_gives_fail
  | grouping g =>
    obtain ⟨hn, rfl⟩ := gives_ofExcept.mp h
    refine ⟨rfl, ha.wording hb ?_⟩
    intro role hrole
    cases hrole with
    | groups hkeys _ => exact hkeys.single hn
    | outside => trivial

/-- The column that is selected for a member of a parameter that is read after fetching. -/
theorem Projected.written_columnOf (ha : s.Plays p.nextAlias around roles)
    (h : (columnOf param name).Gives s p n p') : p' = p ∧ roles.wording (Role.fetched name) param around [n] := by
  simp only [columnOf, gives_bind, gives_lookup] at h
  obtain ⟨b, _, ⟨hb, rfl⟩, h⟩ := h
  cases b with
  | table t =>
    obtain ⟨hn, rfl⟩ := gives_ofExcept.mp h
    refine ⟨rfl, ha.wording hb ?_⟩
    intro role hrole
    cases hrole with
    | table ht => exact ht.column hn
    | bare hnone hshape => exact t.bareColumn hnone hshape hn around
    | outside => trivial
  | grouping g =>
    obtain ⟨hn, rfl⟩ := gives_ofExcept.mp h
    refine ⟨rfl, ha.wording hb ?_⟩
    intro role hrole
    cases hrole with
    | groups hkeys _ => exact hkeys.named (Grouping.lookup_of_key hn)
    | outside => trivial

end Parameters

end LambdaSql
