import LambdaSql.Proofs.Binding.Wanted
import LambdaSql.Proofs.Plan.Texts

/-!
# Native types of stored values

A value of a field is wanted with the native type of the field, under a name made from that of its member. Several such
values share a placeholder if they are equal, and then it is the first one written whose native type the placeholder is
bound with: whether values may share a placeholder is decided by the values alone.

## Main definitions

* `Parameters.native?` - the native type that a placeholder is bound with.
* `Trace.firstNative?` - the native type of the first value that is written under a placeholder.
* `Compiler.Stores` - a value of a field of what a statement changes is bound under a name.

## Main results

* `Draws.native?_eq`, `Emits.native?_eq` - the first value that is written decides.
* `TextPlan.Has.wants` - what a plan wants is bound somewhere in it.
* `Compiler.natives_of_results` - the native types of the values of fields.
-/

namespace LambdaSql

/-! ## The first value under a placeholder -/

namespace Parameters

variable {ps qs rs own : Parameters} {value : Value} {native : NativeType}

/-- The native type that a placeholder is bound with. -/
def native? (ps : Parameters) (token : String) : Option NativeType := (ps.get? token).map (·.native)

/-- Tables with the same entries have the same native types. -/
private theorem native?_congr (h : ps.entries = qs.entries) (token : String) : ps.native? token = qs.native? token := by
  rw [native?, native?, get?, get?, h]

/-- A name has no native type in a table if it is not there. -/
private theorem native?_eq_none {token : String} : ps.native? token = none ↔ token ∉ ps.names := by
  rw [native?, Option.map_eq_none_iff, get?_eq_none]

/-- An added entry gives its native type to a name that has none yet. -/
private theorem native?_push (name : String) (value : Value) (native : NativeType) (token : String) :
    (ps.push name value native).native? token =
      (ps.native? token).or (if name = token then some native else none) := by
  rw [native?, get?, push, List.find?_append, Option.map_or]
  refine congrArg _ ?_
  by_cases h : name = token <;> simp [h]

/-- An entry that is added where its name is new gives its native type to a name that has none yet. -/
private theorem native?_pushNew (name : String) (value : Value) (native : NativeType) (token : String) :
    (ps.pushNew name value native).native? token =
      (ps.native? token).or (if name = token then some native else none) := by
  obtain ⟨hmem, heq⟩ | ⟨-, heq⟩ := ps.pushNew_cases name value native <;> rw [heq]
  · split
    · next h =>
      subst h
      obtain ⟨native', h⟩ := Option.ne_none_iff_exists'.mp (mt native?_eq_none.mp (not_not.mpr hmem))
      rw [h, Option.some_or]
    · rw [Option.or_none]
  · exact native?_push ..

/-- A binding gives its native type to the placeholder that it writes, unless that has one. -/
private theorem Binds.native?_eq {name : Option String} {written : String} (h : ps.Binds value native name written qs)
    (token : String) : qs.native? token = (ps.native? token).or (if written = token then some native else none) := by
  cases h with
  | fixed => exact native?_pushNew ..
  | generated => exact native?_push ..

/-- Parameters that are added keep their native types, unless their placeholders are bound already. -/
theorem native?_merge (ps own : Parameters) (token : String) :
    (ps.merge own).native? token = (ps.native? token).or (own.native? token) := by
  have hentries (entries : List Parameter) : (ps.mergeEntries entries).native? token =
      (ps.native? token).or ((entries.find? (·.name == token)).map (·.native)) := by
    induction entries generalizing ps with
    | nil => rw [List.find?_nil, Option.map_none, Option.or_none]; rfl
    | cons p rest ih =>
      refine (ih (ps.pushNew p.name p.value p.native)).trans ?_
      rw [native?_pushNew, Option.or_assoc, List.find?_cons]
      by_cases h : p.name = token
      · simp [h]
      · rw [beq_eq_false_iff_ne.mpr h, if_neg h, Option.none_or]
  exact hentries own.entries

end Parameters

/-- The native type of the first value that is written under a placeholder. -/
def Trace.firstNative? (w : Trace) (token : String) : Option NativeType :=
  w.findSome? fun
    | (.placeholder written, .value _ _ native) => if written = token then some native else none
    | _ => none

section Traces

variable {ps qs : Parameters} {w u : Trace}

/-- The first native type in a trace is in its first part, or else in the second. -/
private theorem Trace.firstNative?_append (w u : Trace) (token : String) :
    Trace.firstNative? (w ++ u) token = (w.firstNative? token).or (u.firstNative? token) := List.findSome?_append

/-- What is written again is not the first. -/
theorem Trace.firstNative?_again {piece : Fragment × Mark} (h : piece ∈ w) (token : String) :
    Trace.firstNative? (w ++ [piece]) token = w.firstNative? token := by
  rw [firstNative?_append]
  cases hw : w.firstNative? token with
  | some native => rfl
  | none =>
    rw [Option.none_or, firstNative?, List.findSome?_singleton]
    exact List.findSome?_eq_none_iff.mp hw piece h

/-- A placeholder for a value has a first native type. -/
private theorem Trace.firstNative?_of_mem {token : String} {name : Option String} {value : Value} {native : NativeType}
    (h : (.placeholder token, .value name value native) ∈ w) : ∃ first, w.firstNative? token = some first := by
  refine Option.ne_none_iff_exists'.mp fun hnone => ?_
  have hpiece := List.findSome?_eq_none_iff.mp hnone _ h
  simp at hpiece

/-- The native type of an entry is the one that it had, or else the first one that is drawn with it. -/
theorem Draws.native?_eq (h : Draws ps w qs) (token : String) :
    qs.native? token = (ps.native? token).or (w.firstNative? token) := by
  induction h with
  | nil => rw [Trace.firstNative?, List.findSome?_nil, Option.or_none]
  | text s _ ih => rw [Trace.firstNative?_append, ← Option.or_assoc, ← ih]; simp [Trace.firstNative?]
  | value _ hbinds ih =>
    rw [hbinds.native?_eq, ih, Trace.firstNative?_append, ← Option.or_assoc]
    simp [Trace.firstNative?]
  | again _ hmem ih => rw [Trace.firstNative?_again hmem, ih]

/-- **The first value that is written under a placeholder decides on its native type**, also where statements have
parameters of their own that are then added.

**Proof sketch.** By induction on what is emitted. A drawn value adds its own type, unless its name has one, and the
parameters of a statement are added after those before. -/
theorem Emits.native?_eq (h : Emits ps w qs) (token : String) :
    qs.native? token = (ps.native? token).or (w.firstNative? token) := by
  induction h with
  | nil => rw [Trace.firstNative?, List.findSome?_nil, Option.or_none]
  | drawn _ hdrawn ih => rw [hdrawn.native?_eq, ih, Trace.firstNative?_append, Option.or_assoc]
  | statement _ _ ih => exact ih
  | @inner qs own rs w u _ hdrawn hmerge ih =>
    obtain ⟨rfl, -⟩ := Parameters.merge_of_mergeChecked hmerge
    have hchild : qs.child.native? token = none := rfl
    rw [Parameters.native?_merge, hdrawn.native?_eq, hchild, Option.none_or, ih, Trace.firstNative?_append,
      Option.or_assoc]

end Traces

/-! ## The values of a plan -/

section Plans

variable {W : Option String → Value → NativeType → Prop} {d : Dialect}

/-- What assigned columns want is bound in their nodes. -/
private theorem wants_sets {sets : List (Node × Node)}
    (h : ∀ s ∈ sets, s.1.Every (Node.Binds W) ∧ s.2.Every (Node.Binds W)) : ∀ sk ∈ sketchSets d sets, sk.Wants W := by
  refine List.forall_mem_map.mpr fun s hs => ?_
  simp [wants_node _ (h s hs).1, wants_node _ (h s hs).2]

variable {p : ChangePlan} (h : p.PartsHave (Node.Every (Node.Binds W)) (Rows.Every (Node.Binds W)))

include h

/-- What an update wants is bound in its plan. -/
private theorem wants_update : (sketchUpdate d p).Wants W := by
  have hsets := Sketch.Wants.joined (wants_sets (d := d) h.sets) ","
  have hfilter := Sketch.Wants.clause (wants_option (d := d) p.filter h.filter) " WHERE "
  simp [sketchUpdate, wants_table p.table h.table, wants_joins p.joins h.joins, hsets, hfilter]

/-- What a deletion wants is bound in its plan. -/
private theorem wants_delete : (sketchDelete d p).Wants W := by
  have hfilter := Sketch.Wants.clause (wants_option (d := d) p.filter h.filter) " WHERE "
  simp [sketchDelete, wants_table p.table h.table, hfilter]

end Plans

/-- What a plan wants is bound somewhere in it. -/
theorem TextPlan.Has.wants {W : Option String → Value → NativeType → Prop} {admits captured} {t : TextPlan}
    (h : t.Has (Feature.binds W admits captured)) (d : Dialect) : (t.sketch d).Wants W := by
  refine Sketch.wants_append.mpr ⟨wants_ctes fun c hc => ⟨(h.ctes c hc).anchor, (h.ctes c hc).union⟩, ?_⟩
  obtain ⟨ctes, body⟩ := t
  cases body with
  | select s => exact wants_select s h.body
  | update p => exact wants_update h.body
  | delete p => exact wants_delete h.body

/-! ## The values of fields -/

namespace Compiler

variable {c : Compiler} {job : Job} {results : List Compiled}

/-- A value is what the database stores for a value of a field of the entity that a statement changes, under a name made
from that of its member. -/
structure Stores (c : Compiler) (s : Statement) (f : Field) (name : String) (value : Value) : Prop where
  field : ∃ entity e member, s.target? = some entity ∧ c.model.entity entity = .ok e ∧ e.field member = .ok f ∧
    MadeFrom member name
  value : ∃ v, f.toDatabase v = .ok value

/-- **The native types of the values of fields.** A value under a fixed name is that of a field of the entity that a
statement changes, and its placeholder is there. The placeholder is bound with the native type of this field if and only
if so is the first value that is written under it.

**Proof sketch.** That a fixed name is that of a field of the changed entity, with the native type of the field, is a
property of bound nodes that planning spreads. Along the trace of what is written the first value that is drawn under
a placeholder adds its entry, and later ones leave it as it is. -/
theorem natives_of_results (h : c.results job = .ok results) :
    ∃ ts, c.texts job = .ok ts ∧ ∀ r ∈ results, ∃ us, us.Sublist ts ∧ c.Composes r us ∧
      ∃ w : Trace, w.map Prod.fst = r.phrase ∧ w.map Prod.snd = Sketch.joined ";" (us.map (·.sketch c.dialect)) ∧
        ∀ token name value native, (.placeholder token, .value (some name) value native) ∈ w →
          ∃ s ∈ job.statements, ∃ f, c.Stores s f name value ∧ native = f.native ∧
            ∃ p, r.parameters.get? token = some p ∧
              (p.native = f.native ↔ w.firstNative? token = some f.native) := by
  obtain ⟨ts, hts, hcomposed⟩ := texts_of_results h
  let W : Option String → Value → NativeType → Prop := fun name? value native => ∀ name, name? = some name →
    ∃ s ∈ job.statements, ∃ f, c.Stores s f name value ∧ native = f.native
  have hwants : ∀ t ∈ ts, (t.sketch c.dialect).Wants W := by
    let F := Feature.binds W (fun _ => True) fun _ _ => nofun
    have hcovers : ∀ s ∈ job.statements, F.Covers c s := fun s hs =>
      { parts := fun _ _ => trivial
        changes := fun entity htarget e he =>
          { fields := fun _ => (Node.local_binds W).fieldProperty fun {member f n} hf hn => by
              obtain rfl | ⟨v, name, value, hname, hvalue, rfl⟩ := hn.null_or_bound
              · exact trivial
              · rintro _ ⟨⟩
                exact ⟨s, hs, f, ⟨⟨entity, e, member, htarget, he, hf, hname⟩, v, hvalue⟩, rfl⟩
            parameter := fun _ => Node.every_bound.mpr nofun } }
    exact fun t ht => (texts_have hts hcovers t ht).wants c.dialect
  refine ⟨ts, hts, fun r hr => ?_⟩
  obtain ⟨us, hus, hr⟩ := hcomposed r hr
  obtain ⟨start, qs, hstart, -, -, ⟨w, hw, hphrase, hsketch⟩, hentries⟩ := hr.realizes
  refine ⟨us, hus, hr, w, hphrase, hsketch, fun token name value native hmem => ?_⟩
  have hjoined : (Sketch.joined ";" (us.map (·.sketch c.dialect))).Wants W :=
    .joined (List.forall_mem_map.mpr fun t ht => hwants t (hus.subset ht)) _
  obtain ⟨s, hs, f, hstores, hnative⟩ :=
    hjoined (some name) value native (hsketch ▸ List.mem_map_of_mem hmem) name rfl
  refine ⟨s, hs, f, hstores, hnative, ?_⟩
  have hbound : r.parameters.native? token = w.firstNative? token := by
    have hnone : start.native? token = none := by
      rw [Parameters.native?, Parameters.get?, hstart]
      rfl
    rw [Parameters.native?_congr hentries, hw.native?_eq, hnone, Option.none_or]
  obtain ⟨first, hfirst⟩ := Trace.firstNative?_of_mem hmem
  obtain ⟨p, hp, rfl⟩ := Option.map_eq_some_iff.mp (hbound.trans hfirst)
  exact ⟨p, hp, by rw [hfirst, Option.some_inj]⟩

end Compiler

/-- A model of two entities with members of one name, for whole numbers of different sizes. -/
def sizes : Compiler where
  model := ⟨[
    { name := "Small"
      table := "small"
      fields :=
        [{ member := "Id", column := "id", type := .int32, native := .int32, isKey := true },
          { member := "n", column := "n", type := .int32, native := .int32 }] },
    { name := "Large"
      table := "large"
      fields :=
        [{ member := "Id", column := "id", type := .int32, native := .int32, isKey := true },
          { member := "n", column := "n", type := .int64, native := .int64 }] }]⟩

/-- A number is assigned to the members of both entities. -/
def assignBoth (n : Int64) : Job := .batch [
  .update { entity := "Small", assignments := [.value "n" (.int 1)] },
  .update { entity := "Large", assignments := [.value "n" (.int n)] }]

/-- Two assignments of one value share an entry, which has the native type of the first one. -/
theorem assignBoth_natives :
    ∃ r, sizes.results (assignBoth 2) = .ok [r] ∧ ∃ w : Trace, w.map Prod.fst = r.phrase ∧
      ∀ token name value native, (.placeholder token, .value (some name) value native) ∈ w →
        ∃ p, r.parameters.get? token = some p ∧ (p.native = native ↔ w.firstNative? token = some native) := by
  obtain ⟨r, h⟩ : ∃ r, sizes.results (assignBoth 2) = .ok [r] := ⟨_, rfl⟩
  obtain ⟨_, -, hall⟩ := Compiler.natives_of_results h
  obtain ⟨_, -, -, w, hphrase, -, hw⟩ := hall r List.mem_cons_self
  refine ⟨r, h, w, hphrase, fun token name value native hmem => ?_⟩
  obtain ⟨_, -, f, -, rfl, hp⟩ := hw token name value native hmem
  exact hp

/-- Numbers of different sizes share a placeholder if they are equal, and so does their native type. -/
example : (sizes.results (assignBoth 1)).map (·.map fun r => (r.sql, r.parameters.entries.map Parameter.text)) =
    .ok [("UPDATE `small` SET `n`=@n;UPDATE `large` SET `n`=@n", ["@n=1 (Int32)"])] := by rfl

end LambdaSql
