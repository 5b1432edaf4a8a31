import LambdaSql.Proofs.Naming.Operands

/-!
# The clauses of faithful queries

A selection opens a place for its own tables: their aliases are the next ones, so they differ from each
other and from all aliases around, and each of them means the table at its seat. What the clauses of a
query refer to is then what their expressions refer to among these tables.

## Main definitions

* `Opened` - tables with the next aliases.
* `FaithfulKeys`, `FaithfulTests`, `FaithfulOrder`, `FaithfulJoins` - clauses that are planned faithfully.

## Main results

* `Opened.stands` - the bindings of a selection's tables stand for its seats.
* `joins_cons` - a join, whose condition sees the tables up to its own.
-/

namespace LambdaSql

open Planning

variable {s : Scope} {places : Places} {p q q' p' : Progress} {around : List Level}

/-! ## Opening a selection -/

/-- What has been given the aliases of positions, one by one. -/
theorem alias_of_map {α : Type} {first : Char} {xs : List α} {f : α → Option String}
    {positions : List Nat} (h : xs.map f = positions.map fun i => some (aliasAt first i)) {i : Nat} {x : α}
    (hx : xs[i]? = some x) :
    ∃ position, positions[i]? = some position ∧ f x = some (aliasAt first position) := by
  have hi := congrArg (·[i]?) h
  simp only [List.getElem?_map, hx, Option.map_some] at hi
  obtain ⟨position, hp, heq⟩ := Option.map_eq_some_iff.mp hi.symm
  exact ⟨position, hp, heq.symm⟩

section Named

variable {first : Char} {positions : List Nat} {tables : List Table}

/-- The aliases around inside a selection whose tables have the aliases of positions. -/
theorem aliases_level (h : tables.map (·.aliasName) = positions.map fun i => some (aliasAt first i))
    (deferring : Bool) :
    aliases (⟨tables, deferring⟩ :: around) = positions.map (aliasAt first) ++ aliases around := by
  rw [aliases_cons]
  congr 1
  have hmap : tables.filterMap (·.aliasName) = (tables.map (·.aliasName)).filterMap id := by
    rw [List.filterMap_map]
    rfl
  rw [hmap, h]
  simp [List.filterMap_map]

/-- Of tables that have the aliases of different positions, the alias of a position means the one that
has it. -/
theorem seatOf_level (h : tables.map (·.aliasName) = positions.map fun i => some (aliasAt first i))
    (hd : positions.Nodup) {i position : Nat} (hp : positions[i]? = some position) (deferring : Bool) :
    seatOf (aliasAt first position) (⟨tables, deferring⟩ :: around) = some ⟨around.length, i⟩ := by
  have hi : i < tables.length := by
    have hlength := congrArg List.length h
    rw [List.length_map, List.length_map] at hlength
    exact hlength ▸ (List.getElem?_eq_some_iff.mp hp).1
  have hfind : tables.findIdx? (hasAlias (aliasAt first position)) = some i := by
    refine List.findIdx?_eq_some_iff_getElem.mpr ⟨hi, ?_, fun j hj => ?_⟩
    · obtain ⟨other, ho, ht⟩ := alias_of_map h (List.getElem?_eq_getElem hi)
      rw [hp] at ho
      cases ho
      exact beq_iff_eq.mpr ht
    · obtain ⟨other, ho, ht⟩ := alias_of_map h (List.getElem?_eq_getElem (Nat.lt_trans hj hi))
      rw [hasAlias, ht, beq_iff_eq]
      intro heq
      obtain rfl := aliasAt_injective _ (Option.some.inj heq)
      have := (List.getElem?_inj (List.getElem?_eq_some_iff.mp ho).1 hd).mp (ho.trans hp.symm)
      omega
  rw [seatOf, hfind]

end Named

/-- A table binding for an entity. -/
def TableBinding.HasEntity (t : TableBinding) (entity : Option Entity) : Prop :=
  ∃ e, entity = some e ∧ t.shape = .entity e

/-- Tables that have been given the aliases of different positions between two progresses. -/
structure Opened (s : Scope) (p p' : Progress) (positions : List Nat) (tables : List Table)
    (bindings : List TableBinding) (entities : List (Option Entity)) : Prop where
  within : ∀ position ∈ positions, p.nextAlias ≤ position ∧ position < p'.nextAlias
  distinct : positions.Nodup
  named : ∀ t ∈ tables, ∃ name schema, t.rows = .named name schema
  tableAliases : tables.map (·.aliasName) =
    positions.map fun i => some (aliasAt s.compiler.options.firstAlias i)
  bindingAliases : bindings.map (·.aliasName) =
    positions.map fun i => some (aliasAt s.compiler.options.firstAlias i)
  shapes : List.Forall₂ TableBinding.HasEntity bindings entities

namespace Opened

variable {positions : List Nat} {tables : List Table} {bindings : List TableBinding}
  {entities : List (Option Entity)}

/-- Nothing has been opened at the start. -/
theorem nil : Opened s p p [] [] [] [] where
  within := nofun
  distinct := .nil
  named := nofun
  tableAliases := rfl
  bindingAliases := rfl
  shapes := .nil

/-- A table with the next alias, and then others. -/
theorem cons (h : Opened s q p' positions tables bindings entities)
    (hq : p.nextAlias < q.nextAlias) (hle : q.nextAlias ≤ p'.nextAlias) {name : String}
    {schema : Option String} {b : TableBinding} {entity : Option Entity}
    (hb : b.aliasName = some (aliasAt s.compiler.options.firstAlias p.nextAlias))
    (he : b.HasEntity entity) :
    Opened s p p' (p.nextAlias :: positions)
      (⟨.named name schema, some (aliasAt s.compiler.options.firstAlias p.nextAlias)⟩ :: tables)
      (b :: bindings) (entity :: entities) where
  within := by
    intro position hp
    obtain rfl | hp := List.mem_cons.mp hp
    · omega
    · have := h.within position hp
      omega
  distinct := by
    refine List.nodup_cons.mpr ⟨fun hp => ?_, h.distinct⟩
    have := h.within _ hp
    omega
  named := by
    intro t ht
    obtain rfl | ht := List.mem_cons.mp ht
    · exact ⟨name, schema, rfl⟩
    · exact h.named t ht
  tableAliases := by rw [List.map_cons, List.map_cons, h.tableAliases]
  bindingAliases := by rw [List.map_cons, List.map_cons, h.bindingAliases, hb]
  shapes := .cons he h.shapes

/-- The aliases of a selection's tables are those of their positions. -/
theorem aliases_eq (h : Opened s p p' positions tables bindings entities) (deferring : Bool) :
    aliases (⟨tables, deferring⟩ :: around) =
      positions.map (aliasAt s.compiler.options.firstAlias) ++ aliases around :=
  aliases_level h.tableAliases deferring

/-- In a place that is apt for planning a selection all aliases are different, also with those of the
selection's tables. -/
theorem nodup (h : Opened s p p' positions tables bindings entities)
    (ha : Apt s places p p' around) (deferring : Bool) :
    (aliases (⟨tables, deferring⟩ :: around)).Nodup := by
  rw [h.aliases_eq]
  refine List.Nodup.append (h.distinct.map (aliasAt_injective _)) ha.distinct ?_
  intro a hmem hout
  obtain ⟨position, hp, rfl⟩ := List.mem_map.mp hmem
  exact ha.clear position (h.within position hp).1 (h.within position hp).2 hout

/-- The aliases of a selection's tables come from where it begins. -/
theorem fromOn (h : Opened s p p' positions tables bindings entities) (deferring : Bool) :
    FromOn s.compiler.options.firstAlias p.nextAlias [⟨tables, deferring⟩] := by
  intro a ha
  have heq : aliases [⟨tables, deferring⟩] = _ ++ aliases [] := h.aliases_eq deferring
  rw [heq, show aliases [] = [] from rfl, List.append_nil] at ha
  obtain ⟨position, hp, rfl⟩ := List.mem_map.mp ha
  exact ⟨position, (h.within position hp).1, rfl⟩

/-- Of the positions meanwhile, those of the selection's tables alone have their aliases around. -/
theorem position_mem (h : Opened s p p' positions tables bindings entities)
    (ha : Apt s places p p' around) {deferring : Bool} {position : Nat} (hp : p.nextAlias ≤ position)
    (hp' : position < p'.nextAlias)
    (hmem : aliasAt s.compiler.options.firstAlias position ∈ aliases (⟨tables, deferring⟩ :: around)) :
    position ∈ positions := by
  rw [h.aliases_eq, List.mem_append] at hmem
  obtain hmem | hmem := hmem
  · obtain ⟨other, ho, heq⟩ := List.mem_map.mp hmem
    rwa [← aliasAt_injective _ heq]
  · exact absurd hmem (ha.clear position hp hp')

/-- The bindings of a selection's tables stand for its seats. -/
theorem stands (h : Opened s p p' positions tables bindings entities) (deferring : Bool) :
    List.Forall₂ (TableBinding.StandsFor (⟨tables, deferring⟩ :: around)) bindings
      (tablePlaces around.length entities) := by
  rw [List.forall₂_iff_get]
  have hlength : bindings.length = entities.length := h.shapes.length_eq
  refine ⟨by simp [tablePlaces, hlength], fun i hi hi' => ?_⟩
  have hplace : (tablePlaces around.length entities).get ⟨i, hi'⟩ =
      ⟨⟨around.length, i⟩, entities.get ⟨i, hlength ▸ hi⟩⟩ := by
    simp [tablePlaces]
  rw [hplace]
  refine ⟨(List.forall₂_iff_get.mp h.shapes).2 i hi (hlength ▸ hi), ?_⟩
  obtain ⟨position, hp, hb⟩ := alias_of_map h.bindingAliases (List.getElem?_eq_getElem hi)
  exact ⟨_, hb, seatOf_level h.tableAliases h.distinct hp deferring⟩

end Opened

/-! ## Sources -/

/-- A source is bound to a table of the next alias, or of the one that was chosen for it. -/
theorem gives_bindTable {override : Option String} {source : PlannedSource} {table : Table}
    {binding : TableBinding} :
    (bindTable override source).Gives s p (table, binding) p' ↔
      table = ⟨source.rows, some (override.getD (aliasAt s.compiler.options.firstAlias p.nextAlias))⟩ ∧
      binding = ⟨source.name,
        some (override.getD (aliasAt s.compiler.options.firstAlias p.nextAlias)), source.shape⟩ ∧
      p' = { p with nextAlias := p.nextAlias + 1 } := by
  simp only [bindTable, gives_bind, gives_nextAlias, gives_pure, Prod.mk.injEq]
  constructor
  · rintro ⟨_, _, ⟨rfl, rfl⟩, ⟨rfl, rfl⟩, rfl⟩
    exact ⟨rfl, rfl, rfl⟩
  · rintro ⟨rfl, rfl, rfl⟩
    exact ⟨_, _, ⟨rfl, rfl⟩, ⟨rfl, rfl⟩, rfl⟩

/-- A mapped entity in a clause. -/
theorem gives_entitySource {source : Source} (hs : source.isEntity = true) {table : Table}
    {binding : TableBinding}
    (h : (do bindTable none (← planSource source)).Gives s p (table, binding) p') :
    ∃ name schema, table = ⟨.named name schema,
        some (aliasAt s.compiler.options.firstAlias p.nextAlias)⟩ ∧
      binding.aliasName = some (aliasAt s.compiler.options.firstAlias p.nextAlias) ∧
      binding.HasEntity (source.entity? s.compiler.model) ∧
      p' = { p with nextAlias := p.nextAlias + 1 } := by
  cases source with
  | entity name =>
    obtain ⟨planned, q, hplanned, hbind⟩ := gives_bind.mp h
    simp only [planSource, planEntity, gives_bind, gives_read, gives_ofExcept, gives_pure] at hplanned
    obtain ⟨_, _, ⟨rfl, rfl⟩, e, _, ⟨he, rfl⟩, rfl, rfl⟩ := hplanned
    obtain ⟨rfl, rfl, rfl⟩ := gives_bindTable.mp hbind
    refine ⟨e.table, e.schema, rfl, rfl, ⟨e, ?_, rfl⟩, rfl⟩
    simp [Source.entity?, he, Except.toOption]
  | derived | cte | selfRef => cases hs

/-! ## Keys -/

/-- A planned key stands for what it refers to in every later place. -/
theorem Faithful.keyStands {n : Node} {r : Nat → Multiset Reference} (h : Faithful s places q [n] q' r)
    (hq : p.nextAlias ≤ q.nextAlias) (hq' : q'.nextAlias ≤ p'.nextAlias)
    (ha : Apt s places p p' around) :
    KeyStands s.compiler.options.firstAlias p'.nextAlias around n r := by
  intro inner hf hd
  have hle : p.nextAlias ≤ p'.nextAlias := hq.trans (h.le.trans hq')
  have haccounts := h.accounts (inner ++ around) {
    distinct := hd
    clear := fun position h1 h2 => by
      rw [aliases_append, List.mem_append, not_or]
      exact ⟨hf.notMem (h2.trans_le hq'), ha.clear position (hq.trans h1) (h2.trans_le hq')⟩
    frames := ha.frames.deepen hq (hf.mono hle) hd }
  rwa [nodesOccurrences_cons, nodesOccurrences_nil, add_zero] at haccounts

/-- The parts of a key that is an object. -/
theorem named_keysStand {ms : List (String × Expr)} (hms : ∀ m ∈ members ms, m.2.IsFaithful)
    {ks : List (String × Node)}
    (h : ((members ms).mapM fun ((name, o) : String × Operand) => do
      return (name, ← o.value)).Gives s q ks q') :
    q.nextAlias ≤ q'.nextAlias ∧ ∀ {places p p' around}, p.nextAlias ≤ q.nextAlias →
      q'.nextAlias ≤ p'.nextAlias → Apt s places p p' around →
      KeysStand s.compiler.options.firstAlias p'.nextAlias around ks
        (namedReferences s.compiler.model places ms) := by
  induction ms generalizing q ks with
  | nil =>
    obtain ⟨rfl, rfl⟩ := gives_mapM_nil.mp h
    exact ⟨le_rfl, fun _ _ _ => .nil⟩
  | cons m rest ih =>
    obtain ⟨name, e⟩ := m
    obtain ⟨k, q1, others, hk, hothers, rfl⟩ := gives_mapM_cons.mp h
    simp only [gives_bind, gives_pure] at hk
    obtain ⟨n, _, hn, rfl, rfl⟩ := hk
    have hfirst := fun places => (hms _ List.mem_cons_self).faithful places (.value hn)
    obtain ⟨hle, hrest⟩ := ih (fun m hm => hms m (List.mem_cons_of_mem _ hm)) hothers
    refine ⟨(hfirst []).le.trans hle, fun hp hp' ha => ?_⟩
    refine .cons ⟨rfl, ?_⟩ (hrest (hp.trans (hfirst []).le) hp' ha)
    have hstands := (hfirst _).keyStands hp (hle.trans hp') ha
    simpa only [operand_source] using hstands

/-! ## Clauses -/

/-- Planned keys of the groups of a query. -/
def FaithfulKeys (groupBy : Option Lambda) : Prop :=
  ∀ {s bindings p ks p'}, (planKeys bindings groupBy).Gives s p ks p' →
    p.nextAlias ≤ p'.nextAlias ∧ ∀ {places around bound}, Apt s places p p' around →
      Bound s.compiler.options.firstAlias p.nextAlias around bindings bound →
      Option.Rel (KeysStand s.compiler.options.firstAlias p'.nextAlias around) ks
        (groupReferences s.compiler.model places bound groupBy)

/-- No keys are planned faithfully. -/
theorem keys_none : FaithfulKeys none := by
  intro s bindings p ks p' h
  simp only [planKeys, gives_pure] at h
  obtain ⟨rfl, rfl⟩ := h
  exact ⟨le_rfl, fun _ _ => .none⟩

/-- Keys that are an object are planned faithfully if their members are. -/
theorem keys_object {params : List String} {ms : List (String × Expr)}
    (hms : ∀ m ∈ members ms, m.2.IsFaithful) : FaithfulKeys (some ⟨params, .object ms⟩) := by
  intro s bindings p ks p' h
  simp only [planKeys, gives_withFrame, gives_bind, gives_pure] at h
  obtain ⟨-, named, q, hnamed, rfl, rfl⟩ := h
  obtain ⟨hle, hstand⟩ := named_keysStand hms hnamed
  exact ⟨hle, fun ha hb => .some (hstand le_rfl le_rfl (ha.under hb params))⟩

/-- A single key is planned faithfully if its value is. -/
theorem keys_value {params : List String} {body : Expr} (hbody : (operand body).IsFaithful)
    (hne : ∀ ms, body ≠ .object ms) : FaithfulKeys (some ⟨params, body⟩) := by
  intro s bindings p ks p' h
  have hplan : planKeys bindings (some ⟨params, body⟩) =
      (do return some [(keyName body, ← (operand body).under params bindings)]) := by
    rw [planKeys]
    exact hne
  have hrefs (model : Model) (places : Places) (bound : List Place) :
      groupReferences model places bound (some ⟨params, body⟩) =
        some [(keyName body, fun depth =>
          body.references model (Places.frame params bound :: places) depth)] := by
    rw [groupReferences]
    exact hne
  rw [hplan] at h
  simp only [gives_bind, gives_pure] at h
  obtain ⟨n, q, hn, rfl, rfl⟩ := h
  obtain ⟨-, hvalue⟩ := gives_withFrame.mp hn
  have hf := fun places => hbody.faithful places (.value hvalue)
  refine ⟨(hf []).le, fun ha hb => ?_⟩
  rw [hrefs]
  refine .some (.cons ⟨rfl, ?_⟩ .nil)
  have hstands := (hf _).keyStands le_rfl le_rfl (ha.under hb params)
  simpa only [operand_source] using hstands

/-- Planned tests of a clause. -/
def FaithfulTests (tests : List Lambda) : Prop :=
  ∀ {s bindings p ns p'}, (planTests bindings tests).Gives s p ns p' →
    FaithfulUnder s bindings p ns p' fun places bound depth =>
      testReferences s.compiler.model places depth bound tests

/-- No tests are planned faithfully. -/
theorem tests_nil : FaithfulTests [] := by
  intro s bindings p ns p' h
  simp only [planTests, gives_pure] at h
  obtain ⟨rfl, rfl⟩ := h
  exact .nil

/-- Tests are planned faithfully if each of them is. -/
theorem tests_cons {params : List String} {body : Expr} {rest : List Lambda}
    (hbody : (operand body).IsFaithful) (hrest : FaithfulTests rest) :
    FaithfulTests (⟨params, body⟩ :: rest) := by
  intro s bindings p ns p' h
  simp only [planTests, gives_bind, gives_pure] at h
  obtain ⟨n, q, hn, others, q', hothers, rfl, rfl⟩ := h
  have hfirst := (hbody.under hn).madeOf (Node.madeOf_toPredicate n)
  have hboth := hfirst.append (hrest hothers)
  rw [operand_source] at hboth
  exact hboth

/-- Planned sort keys. -/
def FaithfulOrder (keys : List (Lambda × Bool)) : Prop :=
  ∀ {s bindings p ns p'}, (planOrder bindings keys).Gives s p ns p' →
    FaithfulUnder s bindings p (ns.map Prod.fst) p' fun places bound depth =>
      orderReferences s.compiler.model places depth bound keys

/-- No order is planned faithfully. -/
theorem order_nil : FaithfulOrder [] := by
  intro s bindings p ns p' h
  simp only [planOrder, gives_pure] at h
  obtain ⟨rfl, rfl⟩ := h
  exact .nil

/-- An order is planned faithfully if each of its keys is. -/
theorem order_cons {params : List String} {body : Expr} {down : Bool} {rest : List (Lambda × Bool)}
    (hbody : (operand body).IsFaithful) (hrest : FaithfulOrder rest) :
    FaithfulOrder ((⟨params, body⟩, down) :: rest) := by
  intro s bindings p ns p' h
  simp only [planOrder, gives_bind, gives_pure] at h
  obtain ⟨n, q, hn, others, q', hothers, rfl, rfl⟩ := h
  have hboth := (hbody.under hn).append (hrest hothers)
  rw [operand_source] at hboth
  exact hboth

/-! ## Joins -/

/-- What is known about a place inside a selection while its joins are planned: of the aliases planned
meanwhile, only those of the selection's own tables are around. -/
structure AptBut (s : Scope) (places : Places) (p p' : Progress) (positions : List Nat)
    (around : List Level) : Prop where
  distinct : (aliases around).Nodup
  clear : ∀ position, p.nextAlias ≤ position → position < p'.nextAlias →
    aliasAt s.compiler.options.firstAlias position ∈ aliases around → position ∈ positions
  frames : FramesStand s.compiler.options.firstAlias p.nextAlias around s.frames places

/-- Between the tables of a selection, a place inside it is apt. -/
theorem AptBut.between {positions : List Nat} (h : AptBut s places p p' positions around)
    (hq : p.nextAlias ≤ q.nextAlias) (hq' : q'.nextAlias ≤ p'.nextAlias)
    (hno : ∀ position ∈ positions, position < q.nextAlias ∨ q'.nextAlias ≤ position) :
    Apt s places q q' around where
  distinct := h.distinct
  clear := by
    intro position h1 h2 hmem
    have := hno position (h.clear position (hq.trans h1) (h2.trans_le hq') hmem)
    omega
  frames := h.frames.deepen hq .nil h.distinct

/-- A place inside a selection while only the joins after the first one are planned. -/
theorem AptBut.later {position : Nat} {positions : List Nat}
    (h : AptBut s places p p' (position :: positions) around) (hq : position < q.nextAlias)
    (hpq : p.nextAlias ≤ q.nextAlias) : AptBut s places q p' positions around where
  distinct := h.distinct
  clear := by
    intro other h1 h2 hmem
    obtain rfl | hother := List.mem_cons.mp (h.clear other (hpq.trans h1) h2 hmem)
    · omega
    · exact hother
  frames := h.frames.deepen hpq .nil h.distinct

/-- A selection's own place. -/
theorem Opened.aptBut {positions : List Nat} {tables : List Table} {bindings : List TableBinding}
    {entities : List (Option Entity)} (h : Opened s p p' positions tables bindings entities)
    (ha : Apt s places p p' around) (deferring : Bool) :
    AptBut s places p p' positions (⟨tables, deferring⟩ :: around) where
  distinct := h.nodup ha deferring
  clear := fun _ h1 h2 hmem => h.position_mem ha h1 h2 hmem
  frames := ha.frames.deepen le_rfl (h.fromOn deferring) (h.nodup ha deferring)

/-- Planned joins: tables with the next aliases, and conditions that refer to what they should. -/
def FaithfulJoins (joins : List Join) : Prop :=
  ∀ {s tables p joined tables' p'}, (planJoins tables joins).Gives s p (joined, tables') p' →
    p.nextAlias ≤ p'.nextAlias ∧ ∃ positions new, tables' = tables ++ new ∧
      Opened s p p' positions (joined.map (·.table)) new
        (joins.map (·.source.entity? s.compiler.model)) ∧
      ∀ {places around seats}, AptBut s places p p' positions around →
        List.Forall₂ (TableBinding.StandsFor around) tables' seats →
        ∀ outer, Accounts (joinOccurrences outer around joined)
          (joinReferences s.compiler.model places around.length seats tables.length joins)

/-- No joins are planned faithfully. -/
theorem joins_nil : FaithfulJoins [] := by
  intro s tables p joined tables' p' h
  simp only [planJoins, gives_pure, Prod.mk.injEq] at h
  obtain ⟨⟨rfl, rfl⟩, rfl⟩ := h
  exact ⟨le_rfl, [], [], (List.append_nil _).symm, .nil, fun _ _ _ => .zero⟩

/-- Joins of tables are planned faithfully if their conditions are.

**Proof sketch.** The table of the join takes the next alias before its condition is planned, in a place where the
tables up to it have theirs and the later ones have none that the condition could meet. -/
theorem joins_cons {kind : JoinKind} {source : Source} {params : List String} {body : Expr}
    {rest : List Join} (hsource : source.isEntity = true) (hbody : (operand body).IsFaithful)
    (hrest : FaithfulJoins rest) : FaithfulJoins (⟨kind, source, ⟨params, body⟩, none⟩ :: rest) := by
  intro s tables p joined tables' p' h
  simp only [planJoins] at h
  obtain ⟨planned, q, hplanned, h⟩ := gives_bind.mp h
  obtain ⟨⟨table, binding⟩, q1, hbind, h⟩ := gives_bind.mp h
  obtain ⟨name, schema, rfl, hname, hentity, rfl⟩ :=
    gives_entitySource hsource (gives_bind.mpr ⟨planned, q, hplanned, hbind⟩)
  obtain ⟨n, q2, hn, h⟩ := gives_bind.mp h
  obtain ⟨⟨others, all⟩, q3, hothers, h⟩ := gives_bind.mp h
  obtain ⟨heq, rfl⟩ := gives_pure.mp h
  cases heq
  have hon := (hbody.under hn).madeOf (Node.madeOf_toPredicate n)
  obtain ⟨hle, positions, new, rfl, hopened, haccounts⟩ := hrest hothers
  have hon_le : p.nextAlias + 1 ≤ q2.nextAlias := hon.le
  refine ⟨by omega, p.nextAlias :: positions, binding :: new, ?_, ?_, ?_⟩
  · rw [List.append_assoc, List.singleton_append]
  · exact hopened.cons (by omega) hle hname hentity
  · intro places around seats ha hstands outer
    have hlength : (tables ++ [binding]).length = tables.length + 1 := List.length_append
    rw [hlength] at haccounts
    have hbound : Bound s.compiler.options.firstAlias (p.nextAlias + 1) around
        (tableBindings (tables ++ [binding])) ((seats.take (tables.length + 1)).map .table) := by
      have htake := List.forall₂_take (tables.length + 1) hstands
      rw [List.take_left' hlength] at htake
      unfold tableBindings
      rw [Bound, List.forall₂_map_left_iff, List.forall₂_map_right_iff]
      exact htake.imp fun _ _ h => .table h
    have hcondition := hon.accounts (ha.between (by exact Nat.le_succ _) hle ?_) hbound
    have hrest := haccounts (ha.later (by omega) (by omega)) hstands outer
    · rw [nodesOccurrences_cons, nodesOccurrences_nil, add_zero, operand_source] at hcondition
      simpa only [joinOccurrences, tableOccurrences, rowsOccurrences, zero_add, joinReferences] using
        hcondition.add hrest
    · -- its own position has been taken, and those of later tables have not
      intro position hp
      obtain rfl | hp := List.mem_cons.mp hp
      · exact .inl (Nat.lt_succ_self _)
      · exact .inr (hopened.within position hp).1

end LambdaSql
