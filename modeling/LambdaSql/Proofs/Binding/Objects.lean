import LambdaSql.Proofs.Binding.Records

/-!
# Objects and rows agree

An update by an object and a bulk update by one row are planned and written in two ways. They agree: either both fail,
or both are the same statement, placeholder by placeholder bound to the same value, although the placeholders have
different names. The names of the row are those of the object with its position behind them.

## Main definitions

* `Update.ofObject`, `Update.ofRows` - the two ways to update by records.
* `Sketch.suffixed`, `Phrase.suffixed`, `Parameters.suffixed` - other names.
* `Compiled.filled` - a text in whose placeholders stand the values that they are bound to.

## Main results

* `gives_planUpdate_object` - an update by an object is planned as a change by its record.
* `Sketch.gives_write_suffixed` - writing under other names.
* `Compiler.object_agrees_row` - updates by an object and by one row.
-/

namespace LambdaSql

open Planning

/-! ## Updates by records -/

namespace Update

/-- An update by an object. -/
def ofObject (entity : String) (only ignored : List String) (r : Record) : Update :=
  { entity, assignments := [.object r], only, ignored }

/-- An update by rows. -/
def ofRows (entity : String) (only ignored : List String) (rows : List Record) : Update :=
  { entity, rows := some rows, only, ignored }

end Update

/-! ## Plans -/

section Plans

variable {entity : String} {only ignored : List String} {e : Entity} {r : Record} {s : Scope} {p p' : Progress}
  {change : ChangePlan} {nameOf keyNameOf : String → String}

/-- A member of a new name is added at the end. -/
private theorem Named.set_of_notMem {α : Type} {name : String} {items : List (String × α)}
    (h : name ∉ items.map Prod.fst)
    (a : α) : Named.set name a items = items ++ [(name, a)] := by
  induction items with
  | nil => rfl
  | cons m rest ih =>
    rw [List.map_cons, List.mem_cons, not_or] at h
    rw [Named.set, if_neg (Ne.symm h.1), ih h.2]
    rfl

/-- Setting members that differ leaves them as they are given. -/
theorem sets_setAll {sets : List (String × Node)} {plan : AssignmentPlan}
    (h : (plan.sets.map Prod.fst ++ sets.map Prod.fst).Nodup) :
    sets.foldl (fun acc s => acc.set s.1 s.2) plan = { plan with sets := plan.sets ++ sets } := by
  induction sets generalizing plan with
  | nil => rw [List.append_nil, List.foldl_nil]
  | cons s rest ih =>
    obtain ⟨member, n⟩ := s
    have hnew : member ∉ plan.sets.map Prod.fst := fun hmem =>
      (List.nodup_append.mp h).2.2 _ hmem _ List.mem_cons_self rfl
    have hset : plan.set member n = { plan with sets := plan.sets ++ [(member, n)] } := by
      rw [AssignmentPlan.set, Named.set_of_notMem hnew]
    rw [List.foldl_cons, hset, ih]
    · simp
    · simpa using h

/-- Each member of a record is assigned once. -/
private theorem nodup_recordAssignments {u : Update} {sets : List (String × Node)}
    (h : recordAssignments e u nameOf r.members = .ok sets) : (sets.map Prod.fst).Nodup := by
  have hnames := List.forall₂_map_left_iff.mpr (List.forall₂_map_right_iff.mpr
    ((storedAs_recordAssignments h).imp fun _ _ h => h.1))
  rw [← List.forall₂_eq_eq_eq.le _ _ hnames]
  exact (List.filter_sublist.map Prod.fst).nodup r.distinct

/-- What a record with a key assigns, and the tests for its key. -/
theorem planObject_eq_ok {u : Update} {plan : AssignmentPlan} :
    planObject e u none r {} = .ok plan ↔ e.keys ≠ [] ∧ ∃ tests, keyTests e none ("k" ++ ·) r = .ok tests ∧
      ∃ sets, recordAssignments e u id r.members = .ok sets ∧ plan = ⟨sets, tests⟩ := by
  have hset {sets : List (String × Node)} (h : recordAssignments e u id r.members = .ok sets) (tests : List Node) :
      sets.foldl (fun acc s => acc.set s.1 s.2) ({ keys := tests } : AssignmentPlan) = ⟨sets, tests⟩ :=
    sets_setAll (nodup_recordAssignments h)
  unfold planObject
  by_cases hkeys : e.keys = []
  · rw [hkeys, List.isEmpty_nil, if_pos rfl]
    exact ⟨nofun, fun h => absurd rfl h.1⟩
  · simp only [hkeys, List.isEmpty_iff, if_false, Except.bind_eq_ok, Except.pure_eq_ok, ne_eq, not_false_eq_true,
      true_and, List.nil_append]
    constructor
    · rintro ⟨tests, htests, sets, hsets, rfl⟩
      exact ⟨tests, htests, sets, hsets, hset hsets tests⟩
    · rintro ⟨tests, htests, sets, hsets, rfl⟩
      exact ⟨tests, htests, sets, hsets, hset hsets tests⟩

/-- **An update by an object** is planned as a change by its record.

**Proof sketch.** Without filters, joins and rows, planning is reading the record: its keys make up the tests, and its
other members the assignments. -/
theorem gives_planUpdate_object :
    (planUpdate (.ofObject entity only ignored r)).Gives s p change p' ↔ p' = p ∧ ∃ e,
      s.compiler.model.entity entity = .ok e ∧ e.keys ≠ [] ∧
        RecordChange e (.ofObject entity only ignored r) [] id ("k" ++ ·) r change := by
  have hkeyRows (e : Entity) : keyRowsTest e none [] = .ok none := rfl
  have hall : (r.members.filter fun _ => true) = r.members := List.filter_true ..
  simp only [planUpdate, Update.ofObject, planTarget, planJoins, planAssignments, planAssignment, planTests, hkeyRows,
    List.isEmpty_nil, if_true, List.foldlM_cons, List.foldlM_nil, bind_pure, bind_assoc, pure_bind, gives_bind, gives_read,
    gives_ofExcept, planObject_eq_ok, List.nil_append, gives_orFail, gives_pure, List.isEmpty_iff, RecordChange,
    List.any_nil, Bool.not_false, hall, List.append_nil, Except.ok.injEq]
  constructor
  · rintro ⟨_, _, ⟨rfl, rfl⟩, e, _, ⟨he, rfl⟩, _, _, ⟨⟨hkeys, tests, htests, sets, hsets, rfl⟩, rfl⟩, hne, _, _,
      ⟨rfl, rfl⟩, assigned, _, ⟨hassigned, rfl⟩, rfl, rfl⟩
    exact ⟨rfl, e, he, hkeys, sets, tests, assigned, hsets, hne, htests, hassigned, by simp⟩
  · rintro ⟨rfl, e, he, hkeys, sets, tests, assigned, hsets, hne, htests, hassigned, rfl⟩
    exact ⟨_, _, ⟨rfl, rfl⟩, e, _, ⟨he, rfl⟩, _, _, ⟨⟨hkeys, tests, htests, sets, hsets, rfl⟩, rfl⟩, hne, _, _, ⟨rfl, rfl⟩,
      assigned, _, ⟨hassigned, rfl⟩, by simp, rfl⟩

/-- A record changes the same whether it is an object or a row. -/
theorem recordChange_ofRows {rows : List Record} :
    RecordChange e (.ofRows entity only ignored rows) [] nameOf keyNameOf r =
      RecordChange e (.ofObject entity only ignored r) [] nameOf keyNameOf r := by
  funext change
  simp only [RecordChange, recordAssignments_congr (u := .ofRows entity only ignored rows)
    (w := .ofObject entity only ignored r) rfl]
  rfl

end Plans

/-! ## Other names -/

section Names

variable {x : String} {ps qs : Parameters}

/-- A fragment for what it tells, under a name with something behind it. -/
def Mark.suffixed (x : String) : Mark → Mark
  | .text s => .text s
  | .value name v native => .value (name.map (· ++ x)) v native

/-- A sketch with something behind its names. -/
def Sketch.suffixed (x : String) (sk : Sketch) : Sketch := sk.map (Mark.suffixed x)

/-- A fragment with something behind its placeholder. -/
def Fragment.suffixed (x : String) : Fragment → Fragment
  | .text s => .text s
  | .placeholder token => .placeholder (token ++ x)

/-- A phrase with something behind its placeholders. -/
def Phrase.suffixed (x : String) (p : Phrase) : Phrase := p.map (Fragment.suffixed x)

/-- A parameter with something behind its placeholder. -/
def Parameter.suffixed (x : String) (p : Parameter) : Parameter := { p with name := p.name ++ x }

/-- Parameters with something behind their placeholders. -/
def Parameters.suffixed (x : String) (ps : Parameters) : Parameters :=
  { ps with entries := ps.entries.map (Parameter.suffixed x) }

namespace Parameters

/-- Texts with the same ending are equal if they are without it. -/
private theorem append_beq (a b x : String) : (a ++ x == b ++ x) = (a == b) := by
  rw [Bool.eq_iff_iff, beq_iff_eq, beq_iff_eq, String.append_left_inj]

/-- A suffix of a name is one of its placeholder. -/
private theorem token_suffixed (ps : Parameters) (name : String) :
    (ps.suffixed x).token (name ++ x) = ps.token name ++ x := by
  apply String.toList_inj.mp
  simp [token, suffixed]

/-- Entries are found under names with a suffix as they are without. -/
private theorem get?_suffixed (ps : Parameters) (token : String) :
    (ps.suffixed x).get? (token ++ x) = (ps.get? token).map (Parameter.suffixed x) := by
  unfold get? suffixed
  rw [List.find?_map]
  congr 2
  funext p
  exact append_beq ..

/-- Adding an entry with a suffix is adding it and giving all entries the suffix. -/
private theorem pushNew_suffixed (ps : Parameters) (token : String) (v : Value) (native : NativeType) :
    (ps.suffixed x).pushNew (token ++ x) v native = (ps.pushNew token v native).suffixed x := by
  unfold pushNew contains
  rw [get?_suffixed, Option.isSome_map]
  split
  · rfl
  · simp [push, suffixed, Parameter.suffixed]

/-- Parameters of a statement on its own. -/
def Lone (ps : Parameters) : Prop := ps.statement = none ∧ ps.outer = []

/-- Binding leaves a table of parameters without one around it as it is. -/
theorem Lone.bind (h : ps.Lone) {name token : String} {v : Value} {native : NativeType}
    (hbind : ps.bind name v native = .ok (token, qs)) : qs.Lone := by
  rw [ps.bind_unbatched h.1] at hbind
  split at hbind
  · cases hbind
  · cases hbind
    unfold pushNew
    split <;> exact h

/-- Values are bound under other names as they are under theirs. -/
theorem Lone.bind_suffixed (h : ps.Lone) {name : String} {v : Value} {native : NativeType} {r : String × Parameters} :
    (ps.suffixed x).bind (name ++ x) v native = .ok r ↔
      ∃ token qs, ps.bind name v native = .ok (token, qs) ∧ r = (token ++ x, qs.suffixed x) := by
  have hagrees : (ps.suffixed x).agrees? ((ps.suffixed x).token (name ++ x)) v = ps.agrees? (ps.token name) v := by
    unfold agrees? visible?
    rw [token_suffixed, get?_suffixed, show (ps.suffixed x).outer = [] from h.2, h.2]
    cases ps.get? (ps.token name) <;> rfl
  rw [(ps.suffixed x).bind_unbatched h.1, ps.bind_unbatched h.1, hagrees]
  split
  · exact ⟨nofun, nofun⟩
  · rw [token_suffixed, pushNew_suffixed]
    constructor
    · intro h
      cases h
      exact ⟨_, _, rfl, rfl⟩
    · rintro ⟨_, _, ⟨⟩, rfl⟩
      rfl

end Parameters

/-- **Writing under other names**: a statement on its own gets the same text and the same parameters.

**Proof sketch.** By induction on the text. Binding under the name with the suffix gives the placeholder with the
suffix, and entries are found in the same way, so the rest is written alike. -/
theorem Sketch.gives_write_suffixed (hps : ps.Lone) {sk : Sketch} (hsk : sk.IsFixed) {p' : Phrase} {qs' : Parameters} :
    (sk.suffixed x).write.Gives (ps.suffixed x) p' qs' ↔
      ∃ p qs, sk.write.Gives ps p qs ∧ p' = p.suffixed x ∧ qs' = qs.suffixed x := by
  induction sk, hsk using Sketch.IsFixed.induction generalizing ps p' with
  | nil =>
    simp only [suffixed, List.map_nil, gives_write_nil]
    constructor
    · rintro ⟨rfl, rfl⟩
      exact ⟨_, _, ⟨rfl, rfl⟩, rfl, rfl⟩
    · rintro ⟨_, _, ⟨rfl, rfl⟩, rfl, rfl⟩
      exact ⟨rfl, rfl⟩
  | text s rest _ ih =>
    rw [show suffixed x (.text s :: rest) = .text s :: suffixed x rest from rfl]
    simp only [gives_write_text, ih hps]
    constructor
    · rintro ⟨_, ⟨q, qs, hq, rfl, rfl⟩, rfl⟩
      exact ⟨_, qs, ⟨q, hq, rfl⟩, rfl, rfl⟩
    · rintro ⟨_, qs, ⟨q, hq, rfl⟩, rfl, rfl⟩
      exact ⟨_, ⟨q, qs, hq, rfl, rfl⟩, rfl⟩
  | value name v native rest _ ih =>
    rw [show suffixed x (.value (some name) v native :: rest) = .value (some (name ++ x)) v native :: suffixed x rest
      from rfl]
    simp only [gives_write_value, hps.bind_suffixed]
    constructor
    · rintro ⟨_, _, _, ⟨token, rs, hbind, ⟨⟩⟩, hsuffixed, rfl⟩
      obtain ⟨q, qs, hq, rfl, rfl⟩ := (ih (hps.bind hbind)).mp hsuffixed
      exact ⟨_, qs, ⟨token, rs, q, hbind, hq, rfl⟩, rfl, rfl⟩
    · rintro ⟨_, qs, ⟨token, rs, q, hbind, hq, rfl⟩, rfl, rfl⟩
      exact ⟨_, _, _, ⟨token, rs, hbind, rfl⟩, (ih (hps.bind hbind)).mpr ⟨q, qs, hq, rfl, rfl⟩, rfl⟩

end Names

/-! ## What records say under other names -/

section Sketches

variable {d : Dialect} {e : Entity} {u : Update} {r : Record} {nameOf keyNameOf : String → String} {x : String}

/-- A text has no names that could get a suffix. -/
@[simp]
theorem Sketch.suffixed_ofText (s : String) : (Sketch.ofText s).suffixed x = .ofText s := rfl

/-- Two sketches in a row get a suffix one by one. -/
@[simp]
theorem Sketch.suffixed_append (a b : Sketch) : suffixed x (a ++ b) = a.suffixed x ++ b.suffixed x := List.map_append

/-- Joined sketches get a suffix one by one. -/
@[simp]
theorem Sketch.suffixed_joined (separator : String) (sks : List Sketch) :
    (joined separator sks).suffixed x = joined separator (sks.map (suffixed x)) := by
  induction sks with
  | nil => rfl
  | cons sk rest ih =>
    cases rest with
    | nil => rfl
    | cons next rest => simp [joined, ih]

/-- What is stored under a name with a suffix has the sketch with the suffix. -/
private theorem sketchStored_suffixed {name member : String} {v : Value} {sk : Sketch}
    (h : sketchStored d e name member v = .ok sk) : sketchStored d e (name ++ x) member v = .ok (sk.suffixed x) := by
  simp only [sketchStored, Field.sketch, Except.bind_eq_ok, Except.pure_eq_ok] at h ⊢
  obtain ⟨f, hf, value, hvalue, rfl⟩ := h
  refine ⟨f, hf, value.suffixed x, ?_, by simp⟩
  split at hvalue
  · next hnull =>
    cases hvalue
    rw [if_pos hnull]
    rfl
  · next hnull =>
    simp only [Except.bind_eq_ok, Except.pure_eq_ok] at hvalue
    obtain ⟨w, hw, rfl⟩ := hvalue
    rw [if_neg hnull, hw]
    rfl

/-- Sketches that are made one by one get a suffix one by one. -/
private theorem mapM_suffixed {α : Type} {f g : α → Except SqlError Sketch} {as : List α} {sks : List Sketch}
    (h : as.mapM f = .ok sks) (hfg : ∀ a sk, f a = .ok sk → g a = .ok (sk.suffixed x)) :
    as.mapM g = .ok (sks.map (Sketch.suffixed x)) := by
  rw [Except.mapM_eq_ok, List.forall₂_map_right_iff]
  exact (Except.mapM_eq_ok.mp h).imp hfg

/-- A record says the same under other names, if nothing is assigned to all rows. -/
theorem recordSketch_suffixed (hu : u.uniform = []) {sk : Sketch}
    (h : recordSketch d e u nameOf keyNameOf r = .ok sk) :
    recordSketch d e u (nameOf · ++ x) (keyNameOf · ++ x) r = .ok (sk.suffixed x) := by
  simp only [recordSketch, hu, List.mapM_nil, Except.bind_eq_ok, Except.pure_eq_ok] at h ⊢
  obtain ⟨own, hown, _, rfl, keys, hkeys, rfl⟩ := h
  refine ⟨own.map (Sketch.suffixed x), mapM_suffixed hown fun _ _ => sketchStored_suffixed, [], rfl,
    keys.map (Sketch.suffixed x), mapM_suffixed hkeys fun key sk hsk => ?_, by simp⟩
  simp only [Except.bind_eq_ok] at hsk ⊢
  obtain ⟨v, hv, hsk⟩ := hsk
  exact ⟨v, hv, sketchStored_suffixed hsk⟩

/-- The values of a record are bound under fixed names.

**Proof sketch.** Whatever is stored is bound under a name, be it an assigned value or a key. -/
theorem isFixed_recordSketch {sk : Sketch} (h : recordSketch d e u nameOf keyNameOf r = .ok sk) : sk.IsFixed := by
  have hstored {name member : String} {v : Value} {sk : Sketch} (h : sketchStored d e name member v = .ok sk) :
      none ∉ sk.wanted := by
    simp only [sketchStored, Field.sketch, Except.bind_eq_ok, Except.pure_eq_ok] at h
    obtain ⟨f, -, value, hvalue, rfl⟩ := h
    split at hvalue
    · cases hvalue
      simp
    · simp only [Except.bind_eq_ok, Except.pure_eq_ok] at hvalue
      obtain ⟨w, -, rfl⟩ := hvalue
      simp
  simp only [recordSketch, Except.bind_eq_ok, Except.pure_eq_ok] at h
  obtain ⟨own, hown, uniform, huniform, keys, hkeys, rfl⟩ := h
  have hown := Except.forall_of_mapM hown fun _ _ _ hsk => hstored hsk
  have huniform := Except.forall_of_mapM huniform fun _ _ _ hsk => hstored hsk
  have hkeys : ∀ sk ∈ keys, none ∉ sk.wanted := Except.forall_of_mapM hkeys fun key _ sk hsk => by
    obtain ⟨v, -, hsk⟩ := Except.bind_eq_ok.mp hsk
    exact hstored hsk
  rw [Sketch.isFixed_iff]
  simp only [Sketch.wanted_append, Sketch.wanted_ofText, List.nil_append, List.append_nil, List.mem_append,
    Sketch.mem_wanted_joined]
  rintro (⟨sk, hsk | hsk, h⟩ | ⟨sk, hsk, h⟩)
  · exact hown sk hsk h
  · exact huniform sk hsk h
  · exact hkeys sk hsk h

end Sketches

/-! ## Values in the places of placeholders -/

/-- A fragment in which a value stands in the place of a placeholder. -/
inductive Filling where
  | text (s : String)
  | value (value : Value) (native : NativeType)
  | unbound (token : String)

/-- A fragment with the value that its placeholder is bound to. -/
def Fragment.filled (ps : Parameters) : Fragment → Filling
  | .text s => .text s
  | .placeholder token =>
    match ps.get? token with
    | some p => .value p.value p.native
    | none => .unbound token

/-- A text in whose placeholders stand the values that they are bound to. -/
def Compiled.filled (s : Compiled) : List Filling := s.phrase.map (Fragment.filled s.parameters)

/-- The same values are bound under other names. -/
theorem Phrase.filled_suffixed {ps : Parameters} {p : Phrase} {sk : Sketch} (h : ps.Reads p sk) (x : String) :
    (p.suffixed x).map (Fragment.filled (ps.suffixed x)) = p.map (Fragment.filled ps) := by
  induction h with
  | nil => rfl
  | @cons fragment mark _ _ hresolves _ ih =>
    refine congrArg₂ List.cons ?_ ih
    cases fragment with
    | text s => rfl
    | placeholder token =>
      cases mark with
      | text s => exact hresolves.elim
      | value name v native =>
        obtain ⟨p, hp, -⟩ := hresolves
        simp only [Fragment.suffixed, Fragment.filled, Parameters.get?_suffixed, hp, Option.map_some]
        rfl

/-! ## Updates -/

namespace Compiler

variable {c : Compiler} {entity : String} {only ignored : List String} {r : Record} {ps ps' : Parameters}

/-- What is planned as a change by a record is told by the record. -/
theorem sketchPlan_record {plan : Planning ChangePlan} {u : Update} {e : Entity} {nameOf keyNameOf : String → String}
    (hplan : ∀ {change p'}, plan.Gives { compiler := c } {} change p' ↔
      p' = {} ∧ RecordChange e u [] nameOf keyNameOf r change)
    (hu : u.uniform = []) (hkeys : e.keys ≠ []) {sk : Sketch} :
    c.sketchPlan plan (sketchUpdate c.dialect) = .ok sk ↔
      (∃ change, RecordChange e u [] nameOf keyNameOf r change) ∧
        recordSketch c.dialect e u nameOf keyNameOf r = .ok sk := by
  have hgiven : List.Forall₂ (StoredAs e id) u.uniform [] := hu ▸ .nil
  unfold sketchPlan
  simp only [Except.bind_eq_ok, Except.pure_eq_ok]
  constructor
  · rintro ⟨⟨change, ctes⟩, hrun, rfl⟩
    obtain ⟨p', hgives, rfl⟩ := gives_of_run hrun
    obtain ⟨rfl, hchange⟩ := hplan.mp hgives
    exact ⟨⟨change, hchange⟩, hchange.sketch hkeys hgiven⟩
  · rintro ⟨⟨change, hchange⟩, hsk⟩
    refine ⟨_, run_of_gives (hplan.mpr ⟨rfl, hchange⟩), ?_⟩
    cases (hchange.sketch hkeys hgiven).symm.trans hsk
    rfl

/-- An update by an object of an entity with a key. -/
theorem gives_emitUpdate_object {e : Entity} (he : c.model.entity entity = .ok e) (hkeys : e.keys ≠ []) {p : Phrase} :
    (c.emitUpdate (.ofObject entity only ignored r)).Gives ps p ps' ↔
      ∃ sk, ((∃ change, RecordChange e (.ofObject entity only ignored r) [] id ("k" ++ ·) r change) ∧
        recordSketch c.dialect e (.ofObject entity only ignored r) id ("k" ++ ·) r = .ok sk) ∧
          sk.write.Gives ps p ps' := by
  have hstored : ∀ a ∈ (Update.ofObject entity only ignored r).assignments, a.IsStored false :=
    List.forall_mem_singleton.mpr trivial
  have halone : Planning.Alone c (planUpdate (.ofObject entity only ignored r)) (ChangePlan.IsStraight c.dialect) :=
    keeps_planUpdate (fun _ h => h) rfl (fun e _ => fieldProperty_isStraight c.dialect e none)
      (fun _ _ => assignsOnly_stored straight_stored hstored) fun _ _ => .pure nofun
  have hplan {change : ChangePlan} {p' : Progress} :
      (planUpdate (.ofObject entity only ignored r)).Gives { compiler := c } {} change p' ↔
        p' = {} ∧ RecordChange e (.ofObject entity only ignored r) [] id ("k" ++ ·) r change := by
    rw [gives_planUpdate_object]
    simp only [he, Except.ok.injEq, exists_eq_left', hkeys, ne_eq, not_false_eq_true, true_and]
  simp only [← sketchPlan_record hplan rfl hkeys, ← gives_writeChange halone, emitUpdate, Emission.gives_bind,
    Emission.gives_pure]
  constructor
  · rintro ⟨⟨change, p⟩, _, hwrite, rfl, rfl⟩
    exact ⟨change, hwrite⟩
  · rintro ⟨change, hwrite⟩
    exact ⟨_, _, hwrite, rfl, rfl⟩

/-- A bulk update by one row of an entity with a key.

**Proof sketch.** A bulk update by one row raises no problem, has no keys to compare and merges one table into an
empty one, so only the row's own statement remains. -/
theorem gives_emitBulk_row {e : Entity} (he : c.model.entity entity = .ok e) (hkeys : e.keys ≠ [])
    (hps : ps.entries = []) {ss : List Compiled} :
    (∃ ps', (c.emitBulk (.ofRows entity only ignored [r]) [r]).Gives ps ss ps') ↔
      ∃ s sk, ss = [s] ∧ ((∃ change, RecordChange e (.ofRows entity only ignored [r]) [] (· ++ "0")
          (fun key => "k" ++ key ++ "0") r change) ∧
        recordSketch c.dialect e (.ofRows entity only ignored [r]) (· ++ "0") (fun key => "k" ++ key ++ "0") r = .ok sk) ∧
          sk.write.Gives ps.child s.phrase s.parameters ∧ s.deferred = [] := by
  have hbulk : bulkProblem? (.ofRows entity only ignored [r]) [r] = none := rfl
  have hplan {change : ChangePlan} {p' : Progress} :
      (planRow (.ofRows entity only ignored [r]) 0 r).Gives { compiler := c } {} change p' ↔
        p' = {} ∧ RecordChange e (.ofRows entity only ignored [r]) [] (· ++ "0") (fun key => "k" ++ key ++ "0") r
          change := by
    rw [gives_planRow]
    simp only [Update.ofRows, he, planAssignments, List.foldlM_nil, gives_pure, Except.ok.injEq]
    constructor
    · rintro ⟨_, _, rfl, ⟨rfl, rfl⟩, hchange⟩
      exact ⟨rfl, hchange⟩
    · rintro ⟨rfl, hchange⟩
      exact ⟨_, _, rfl, ⟨rfl, rfl⟩, hchange⟩
  -- nothing can be in conflict with no entries
  have hmerge (own : Parameters) : ps.mergeChecked own = .ok (ps.merge own) := by
    have hnone : ps.conflict? own = none := by
      simp [Parameters.conflict?, Parameters.get?, hps]
    rw [Parameters.mergeChecked, hnone]
  have hrows {ps' : Parameters} : (c.emitBulk (.ofRows entity only ignored [r]) [r]).Gives ps ss ps' ↔
      ∃ s, ss = [s] ∧ (c.emitRow (.ofRows entity only ignored [r]) 0 r).Gives ps s ps' := by
    simp only [gives_emitBulk, hbulk, true_and, show (Update.ofRows entity only ignored [r]).entity = entity from rfl,
      he, List.zipIdx_cons, List.zipIdx_nil, List.mapM_cons, List.mapM_nil, Emission.gives_bind, Emission.gives_pure,
      Except.ok.injEq]
    constructor
    · rintro ⟨_, rfl, -, s, _, hs, _, _, ⟨rfl, rfl⟩, rfl, rfl⟩
      exact ⟨s, rfl, hs⟩
    · rintro ⟨s, rfl, hs⟩
      exact ⟨e, rfl, hkeys, s, _, hs, _, _, ⟨rfl, rfl⟩, rfl, rfl⟩
  simp only [hrows, gives_straightRow (u := .ofRows entity only ignored [r]) (List.forall_mem_nil _), sketchPlan_record hplan rfl hkeys, hmerge,
    Except.ok.injEq]
  constructor
  · rintro ⟨_, s, rfl, sk, hsk, hwrite, hdeferred, -⟩
    exact ⟨s, sk, rfl, hsk, hwrite, hdeferred⟩
  · rintro ⟨s, sk, rfl, hsk, hwrite, hdeferred⟩
    exact ⟨_, s, rfl, sk, hsk, hwrite, hdeferred, rfl⟩

/-- A compiled update by an object is written from new parameters. -/
theorem update_object {cu : CompiledUpdate} : c.update (.ofObject entity only ignored r) = .ok cu ↔
    ∃ p qs, (c.emitUpdate (.ofObject entity only ignored r)).Gives c.newParameters p qs ∧
      cu = .single { phrase := p, parameters := qs } := by
  unfold update
  simp only [Update.ofObject, Except.bind_eq_ok, Except.pure_eq_ok]
  constructor
  · rintro ⟨⟨p, qs⟩, hp, rfl⟩
    exact ⟨p, qs, hp, rfl⟩
  · rintro ⟨p, qs, hp, rfl⟩
    exact ⟨(p, qs), hp, rfl⟩

/-- An update by an object is one of an entity with a key. -/
theorem keyed_of_update_object {cu : CompiledUpdate} (h : c.update (.ofObject entity only ignored r) = .ok cu) :
    ∃ e, c.model.entity entity = .ok e ∧ e.keys ≠ [] := by
  obtain ⟨p, qs, hp, -⟩ := update_object.mp h
  simp only [emitUpdate, Emission.gives_bind, Emission.gives_planAndWrite] at hp
  obtain ⟨⟨change, _⟩, _, ⟨ctes, hrun, -⟩, -⟩ := hp
  obtain ⟨p', hgives, -⟩ := gives_of_run hrun
  obtain ⟨-, e, he, hkeys, -⟩ := gives_planUpdate_object.mp hgives
  exact ⟨e, he, hkeys⟩

/-- What an update by an object is compiled to, under the names of a row. -/
theorem row_of_object {e : Entity} (he : c.model.entity entity = .ok e) (hkeys : e.keys ≠ []) {cu : CompiledUpdate}
    (h : c.update (.ofObject entity only ignored r) = .ok cu) : ∃ s t, cu = .single s ∧
      c.update (.ofRows entity only ignored [r]) = .ok (.bulk [t]) ∧ s.filled = t.filled := by
  obtain ⟨p, qs, hp, rfl⟩ := update_object.mp h
  obtain ⟨sk, ⟨⟨change, hchange⟩, hsk⟩, hwrite⟩ := (gives_emitUpdate_object he hkeys).mp hp
  obtain ⟨change', hchange'⟩ := hchange.renamed (· ++ "0") fun key => "k" ++ key ++ "0"
  have hfixed := isFixed_recordSketch hsk
  have hlone : c.newParameters.Lone := ⟨rfl, rfl⟩
  have hsuffixed := (Sketch.gives_write_suffixed (x := "0") hlone hfixed).mpr ⟨p, qs, hwrite, rfl, rfl⟩
  let t : Compiled := { phrase := p.suffixed "0", parameters := qs.suffixed "0" }
  have hnew : c.newParameters.entries = [] := rfl
  have hrow : ∃ ps', (c.emitBulk (.ofRows entity only ignored [r]) [r]).Gives c.newParameters [t] ps' :=
    (gives_emitBulk_row he hkeys hnew).mpr ⟨t, sk.suffixed "0", rfl,
      ⟨⟨change', recordChange_ofRows ▸ hchange'⟩, recordSketch_suffixed rfl hsk⟩, hsuffixed, rfl⟩
  obtain ⟨ps', hrow⟩ := hrow
  refine ⟨_, t, rfl, (update_rows rfl).mpr ⟨[t], ps', hrow, rfl⟩, ?_⟩
  exact (Phrase.filled_suffixed ((Sketch.written_write hwrite).issued.reads_of_fixed hfixed) "0").symm

/-- What compiles as a row compiles as an object. -/
theorem object_of_row {e : Entity} (he : c.model.entity entity = .ok e) (hkeys : e.keys ≠ []) {cu : CompiledUpdate}
    (h : c.update (.ofRows entity only ignored [r]) = .ok cu) :
    ∃ cu', c.update (.ofObject entity only ignored r) = .ok cu' := by
  obtain ⟨ss, ps', hrow, rfl⟩ := (update_rows rfl).mp h
  obtain ⟨t, sk', rfl, ⟨⟨change', hchange'⟩, hsk'⟩, hwrite', -⟩ := (gives_emitBulk_row he hkeys rfl).mp ⟨ps', hrow⟩
  obtain ⟨change, hchange⟩ := hchange'.renamed id ("k" ++ ·)
  rw [recordChange_ofRows] at hchange
  have hsk := hchange.sketch (d := c.dialect) hkeys .nil
  cases (recordSketch_suffixed (x := "0") rfl hsk).symm.trans hsk'
  have hlone : c.newParameters.Lone := ⟨rfl, rfl⟩
  obtain ⟨p, qs, hwrite, -⟩ := (Sketch.gives_write_suffixed (x := "0") hlone (isFixed_recordSketch hsk)).mp hwrite'
  exact ⟨_, update_object.mpr ⟨p, qs, (gives_emitUpdate_object he hkeys).mpr ⟨_, ⟨⟨change, hchange⟩, hsk⟩, hwrite⟩, rfl⟩⟩

/-- **Objects and rows agree**: an update by an object compiles if and only if the bulk update by the same record as its
only row does, and both are the same statement if the values stand in the places of their placeholders.

**Proof sketch.** Both are planned as the change by one record, with names that differ in a suffix only. The plans are
straight, so each is written by binding its values one after another, and the two runs succeed alike if their fixed
names clash alike, which the suffix does not change. With the values in the places of the placeholders the phrases are
the same. -/
theorem object_agrees_row (c : Compiler) (entity : String) (only ignored : List String) (r : Record) :
    Option.Rel (fun single bulk => ∃ s t, single = .single s ∧ bulk = .bulk [t] ∧ s.filled = t.filled)
      (c.update (.ofObject entity only ignored r)).toOption (c.update (.ofRows entity only ignored [r])).toOption := by
  cases hobject : c.update (.ofObject entity only ignored r) with
  | ok cu =>
    obtain ⟨e, he, hkeys⟩ := keyed_of_update_object hobject
    obtain ⟨s, t, rfl, hrow, hfilled⟩ := row_of_object he hkeys hobject
    rw [hrow]
    exact .some ⟨s, t, rfl, rfl, hfilled⟩
  | error =>
    cases hrow : c.update (.ofRows entity only ignored [r]) with
    | ok cu =>
      obtain ⟨e, _, he, hkeys, -⟩ := bulk_of_update rfl hrow
      obtain ⟨cu', hobject'⟩ := object_of_row he hkeys hrow
      cases hobject.symm.trans hobject'
    | error => exact .none

end Compiler

end LambdaSql
