import LambdaSql.Proofs.Binding.Sketch
import LambdaSql.Proofs.Plan.Result
import LambdaSql.Statement.Compile

/-!
# Sketches of statements

The sketch of a statement is known from its plan alone, with the common table expressions that it begins with.
Here, outcomes of compiling are taken apart, down to the writing of one statement.

## Main definitions

* `sketchCtes`, `sketchUpdate`, `sketchDelete` - what the parts of statements are written for.
* `Compiler.sketchPlan`, `Compiler.statementSketches` - what statements are written for.
* `Emission.Gives` - compiling goes from some parameters to others and gives a result.

## Main results

* `Emission.written_planAndWrite` - what is planned and then written is written for its sketch.
* `Compiler.gives_select` - a compiled query taken apart.
-/

namespace LambdaSql

/-! ## Sketches of statements -/

section Sketches

variable (d : Dialect)

/-- What the second query of a common table expression is written for. -/
def sketchUnion : Option Select → Sketch
  | none => []
  | some s => .ofText " UNION ALL\n" ++ sketchSelect d s

/-- What a common table expression is written for. -/
def sketchCte (c : CtePlan) : Sketch :=
  .ofText (d.quoteIdentifier c.name ++ "(" ++ ",".intercalate (c.columns.map d.quoteIdentifier) ++
    ") AS \n(\n") ++ sketchSelect d c.anchor ++ sketchUnion d c.union ++ .ofText "\n)"

/-- What the common table expressions of a statement are written for. -/
def sketchCtes (ctes : List CtePlan) : Sketch :=
  if ctes.isEmpty then []
  else .ofText (if ctes.any (·.recursive) then "WITH RECURSIVE " else "WITH ") ++
    .joined ",\n" (ctes.map (sketchCte d)) ++ .ofText "\n"

/-- What assignments are written for. -/
def sketchSets (sets : List (Node × Node)) : List Sketch :=
  sets.map fun s => sketchNode d s.1 ++ .ofText "=" ++ sketchNode d s.2

/-- What an update is written for. -/
def sketchUpdate (p : ChangePlan) : Sketch :=
  .ofText "UPDATE " ++ sketchTable d p.table ++ sketchJoins d p.joins ++ .ofText " SET " ++
    .joined "," (sketchSets d p.sets) ++ .clause " WHERE " (sketchOption d p.filter)

/-- What a deletion is written for. -/
def sketchDelete (p : ChangePlan) : Sketch :=
  .ofText "DELETE FROM " ++ sketchTable d p.table ++ .clause " WHERE " (sketchOption d p.filter)

end Sketches

namespace Compiler

variable (c : Compiler)

/-- What a plan is written for, after its common table expressions. -/
def sketchPlan {α : Type} (plan : Planning α) (sketch : α → Sketch) : Compilation Sketch := do
  let (a, ctes) ← plan.run c
  return sketchCtes c.dialect ctes ++ sketch a

/-- What the texts of a statement are written for, of which there is one for each row of a bulk update. -/
def statementSketches : Statement → Compilation (List Sketch)
  | .select q => do return [← c.sketchPlan (planQuery q) (sketchSelect c.dialect)]
  | .update u =>
    match u.rows with
    | some rows => rows.zipIdx.mapM fun (r, i) => c.sketchPlan (planRow u i r) (sketchUpdate c.dialect)
    | none => do return [← c.sketchPlan (planUpdate u) (sketchUpdate c.dialect)]
  | .delete s => do return [← c.sketchPlan (planDelete s) (sketchDelete c.dialect)]

variable {c} {u : Update}

/-- A bulk update has a sketch for each of its rows. -/
theorem statementSketches_rows {rows : List Record} (h : u.rows = some rows) :
    c.statementSketches (.update u) =
      rows.zipIdx.mapM fun (r, i) => c.sketchPlan (planRow u i r) (sketchUpdate c.dialect) := by
  unfold statementSketches
  dsimp only
  rw [h]

/-- An update without rows has one sketch. -/
theorem statementSketches_single (h : u.rows = none) :
    c.statementSketches (.update u) = do
      return [← c.sketchPlan (planUpdate u) (sketchUpdate c.dialect)] := by
  unfold statementSketches
  dsimp only
  rw [h]

end Compiler

/-! ## Changes and common table expressions -/

section Changes

variable {d : Dialect} {ps qs : Parameters} {p : Phrase}

/-- A union member is written for its sketch. -/
private theorem written_writeUnion {union : Option Select} (h : (writeUnion d union).Gives ps p qs) :
    Written ps p (sketchUnion d union) qs := by
  cases union with
  | none =>
    obtain ⟨rfl, rfl⟩ := Writing.gives_pure.mp h
    exact .nil qs
  | some s =>
    simp only [writeUnion, Writing.gives_bind, Writing.gives_pure] at h
    obtain ⟨q, qs, hq, rfl, rfl⟩ := h
    exact (written_writeSelect s hq).before _

/-- A common table expression is written for its sketch. -/
private theorem written_writeCte {c : CtePlan} (h : (writeCte d c).Gives ps p qs) :
    Written ps p (sketchCte d c) qs := by
  simp only [writeCte, Writing.gives_bind, Writing.gives_pure] at h
  obtain ⟨a, qs₁, ha, u, qs₂, hu, rfl, rfl⟩ := h
  exact (((written_writeSelect c.anchor ha).before _).append (written_writeUnion hu)).after _

/-- Common table expressions are written one by one for their sketches. -/
private theorem written_mapM_writeCte {ctes : List CtePlan} {phrases : List Phrase}
    (h : (ctes.mapM (writeCte d) : Writing (List Phrase)).Gives ps phrases qs) :
    InTurn Written ps phrases (ctes.map (sketchCte d)) qs := by
  induction ctes generalizing ps phrases with
  | nil =>
    rw [List.mapM_nil, Writing.gives_pure] at h
    obtain ⟨rfl, rfl⟩ := h
    exact .nil (.nil _)
  | cons c rest ih =>
    simp only [List.mapM_cons, Writing.gives_bind, Writing.gives_pure] at h
    obtain ⟨p, qs, hp, rest, rs, hrest, rfl, rfl⟩ := h
    exact .cons (written_writeCte hp) (ih hrest)

/-- The clause of common table expressions is written for its sketch. -/
private theorem written_writeCtes {ctes : List CtePlan} (h : (writeCtes d ctes).Gives ps p qs) :
    Written ps p (sketchCtes d ctes) qs := by
  unfold writeCtes at h
  unfold sketchCtes
  split at h
  · next hempty =>
    obtain ⟨rfl, rfl⟩ := Writing.gives_pure.mp h
    rw [if_pos hempty]
    exact .nil qs
  · next hempty =>
    simp only [Writing.gives_bind, Writing.gives_pure] at h
    obtain ⟨phrases, qs, hphrases, rfl, rfl⟩ := h
    rw [if_neg hempty]
    exact (((written_mapM_writeCte hphrases).joined putTogether_written _).before _).after _

/-- Assigned columns are written one by one for their sketches. -/
private theorem written_writeSets {sets : List (Node × Node)} {phrases : List Phrase}
    (h : (writeSets d sets).Gives ps phrases qs) : InTurn Written ps phrases (sketchSets d sets) qs := by
  induction sets generalizing ps phrases with
  | nil =>
    obtain ⟨rfl, rfl⟩ := Writing.gives_pure.mp h
    exact .nil (.nil _)
  | cons s rest ih =>
    obtain ⟨column, value⟩ := s
    simp only [writeSets, Writing.gives_bind, Writing.gives_pure] at h
    obtain ⟨c, qs₁, hc, v, qs₂, hv, rest, rs, hrest, rfl, rfl⟩ := h
    exact .cons (((written_writeNode column hc).after "=").append (written_writeNode value hv)) (ih hrest)

/-- An update is written for its sketch. -/
theorem written_writeUpdate {change : ChangePlan} (h : (writeUpdate d change).Gives ps p qs) :
    Written ps p (sketchUpdate d change) qs := by
  simp only [writeUpdate, Writing.gives_bind, Writing.gives_pure] at h
  obtain ⟨t, qs₁, ht, js, qs₂, hjs, ss, qs₃, hss, f, qs₄, hf, rfl, rfl⟩ := h
  have htables := ((written_writeTable change.table ht).before "UPDATE ").append
    (written_writeJoins change.joins hjs)
  exact ((htables.after " SET ").append ((written_writeSets hss).joined putTogether_written ",")).append
    ((written_writeOption change.filter hf).clause " WHERE ")

/-- A deletion is written for its sketch. -/
theorem written_writeDelete {change : ChangePlan} (h : (writeDelete d change).Gives ps p qs) :
    Written ps p (sketchDelete d change) qs := by
  simp only [writeDelete, Writing.gives_bind, Writing.gives_pure] at h
  obtain ⟨t, qs₁, ht, f, qs₂, hf, rfl, rfl⟩ := h
  exact ((written_writeTable change.table ht).before "DELETE FROM ").append
    ((written_writeOption change.filter hf).clause " WHERE ")

end Changes

/-! ## Outcomes of compiling -/

namespace Emission

variable {α β : Type} {ps ps' : Parameters}

/-- Compiling goes from some parameters to others and gives a result. -/
def Gives (act : Emission α) (ps : Parameters) (a : α) (ps' : Parameters) : Prop :=
  act ps = .ok (a, ps')

/-- What is returned is given, and nothing is bound. -/
@[simp]
theorem gives_pure {a b : α} : (pure a : Emission α).Gives ps b ps' ↔ b = a ∧ ps' = ps := by
  constructor
  · intro h
    cases h
    exact ⟨rfl, rfl⟩
  · rintro ⟨rfl, rfl⟩
    rfl

/-- Compiling in two steps gives what the second gives after the first. -/
@[simp]
theorem gives_bind {act : Emission α} {f : α → Emission β} {b : β} :
    (act >>= f).Gives ps b ps' ↔ ∃ a qs, act.Gives ps a qs ∧ (f a).Gives qs b ps' := by
  unfold Gives
  show (act ps).bind (fun r => f r.1 r.2) = _ ↔ _
  rcases act ps with e | ⟨a, qs⟩
  · exact ⟨nofun, fun ⟨_, _, h, _⟩ => nomatch h⟩
  · constructor
    · exact fun h => ⟨a, qs, rfl, h⟩
    · rintro ⟨_, _, ⟨⟩, h⟩
      exact h

/-- What is made of a result is given if the result is. -/
@[simp]
theorem gives_map {act : Emission α} {f : α → β} {b : β} :
    (f <$> act).Gives ps b ps' ↔ ∃ a, act.Gives ps a ps' ∧ b = f a := by
  rw [map_eq_pure_bind]
  simp only [gives_bind, gives_pure]
  constructor
  · rintro ⟨a, qs, ha, rfl, rfl⟩
    exact ⟨a, ha, rfl⟩
  · rintro ⟨a, ha, rfl⟩
    exact ⟨a, ps', ha, rfl, rfl⟩

/-- An error gives nothing. -/
@[simp]
theorem not_gives_throw {e : Failure} {a : α} : ¬ (throw e : Emission α).Gives ps a ps' := nofun

/-- A computation without parameters gives its result and binds nothing. -/
@[simp]
theorem gives_ofExcept {x : Except SqlError α} {a : α} :
    (ofExcept x).Gives ps a ps' ↔ x = .ok a ∧ ps' = ps := by
  cases x with
  | ok b => simp [ofExcept, eq_comm]
  | error e => simp [ofExcept]

/-- Planning gives its plan and binds nothing. -/
@[simp]
theorem gives_ofPlanning {c : Compiler} {plan : Planning α} {r : α × List CtePlan} :
    (ofPlanning c plan).Gives ps r ps' ↔ plan.run c = .ok r ∧ ps' = ps := by
  unfold ofPlanning
  cases plan.run c with
  | ok r' => simp [eq_comm]
  | error e => simp

/-- Writing gives what it does by itself. -/
@[simp]
theorem gives_ofWriting {act : Writing α} {a : α} :
    (ofWriting act).Gives ps a ps' ↔ Writing.Gives act ps a ps' := by
  unfold ofWriting Gives Writing.Gives StateT.run
  cases h : act ps with
  | ok r => simp [h]
  | error e => simp [h]

/-- Reading the parameters gives these. -/
@[simp]
theorem gives_get {qs : Parameters} : (get : Emission Parameters).Gives ps qs ps' ↔ qs = ps ∧ ps' = ps := by
  constructor
  · intro h
    cases h
    exact ⟨rfl, rfl⟩
  · rintro ⟨rfl, rfl⟩
    rfl

/-- Writing the parameters replaces them. -/
@[simp]
theorem gives_set {qs : Parameters} {u : PUnit} : (set qs : Emission PUnit).Gives ps u ps' ↔ ps' = qs := by
  constructor
  · intro h
    cases h
    rfl
  · rintro rfl
    rfl

/-- Changing the parameters applies the change to them. -/
@[simp]
theorem gives_modify {f : Parameters → Parameters} {u : PUnit} :
    (modify f : Emission PUnit).Gives ps u ps' ↔ ps' = f ps := by
  constructor
  · intro h
    cases h
    rfl
  · rintro rfl
    rfl

/-- What is planned is written after its common table expressions. -/
theorem gives_planAndWrite {c : Compiler} {plan : Planning α} {write : α → Writing Phrase} {r : α × Phrase} :
    (planAndWrite c plan write).Gives ps r ps' ↔ ∃ ctes, plan.run c = .ok (r.1, ctes) ∧
      Writing.Gives (do
        let head ← writeCtes c.dialect ctes
        return head ++ (← write r.1)) ps r.2 ps' := by
  unfold planAndWrite
  rw [gives_bind]
  constructor
  · rintro ⟨⟨a, ctes⟩, qs, hrun, h⟩
    obtain ⟨hplan, rfl⟩ := gives_ofPlanning.mp hrun
    obtain ⟨p, rs, hwrite, h⟩ := gives_bind.mp h
    obtain ⟨rfl, rfl⟩ := gives_pure.mp h
    exact ⟨ctes, hplan, gives_ofWriting.mp hwrite⟩
  · rintro ⟨ctes, hplan, hwrite⟩
    refine ⟨(r.1, ctes), ps, gives_ofPlanning.mpr ⟨hplan, rfl⟩, gives_bind.mpr ⟨r.2, ps', ?_, ?_⟩⟩
    · exact gives_ofWriting.mpr hwrite
    · exact gives_pure.mpr ⟨rfl, rfl⟩

/-- What is planned and then written is written for its sketch. -/
theorem written_planAndWrite {c : Compiler} {plan : Planning α} {write : α → Writing Phrase}
    {sketch : α → Sketch} (hwrite : ∀ a {ps p qs}, (write a).Gives ps p qs → Written ps p (sketch a) qs)
    {r : α × Phrase} (h : (planAndWrite c plan write).Gives ps r ps') :
    ∃ sk, c.sketchPlan plan sketch = .ok sk ∧ Written ps r.2 sk ps' := by
  obtain ⟨a, phrase⟩ := r
  obtain ⟨ctes, hplan, h⟩ := gives_planAndWrite.mp h
  simp only [Writing.gives_bind, Writing.gives_pure] at h
  obtain ⟨head, qs, hhead, p, rs, hp, rfl, rfl⟩ := h
  refine ⟨_, ?_, (written_writeCtes hhead).append (hwrite a hp)⟩
  rw [Compiler.sketchPlan, hplan]
  rfl

end Emission

/-- A compiled query is planned and then written, and leaves for evaluation after fetching what its plan does. -/
theorem Compiler.gives_select {c : Compiler} {q : Query} {out : Compiled} (h : c.select q = .ok out) :
    ∃ sel ctes, (planQuery q).run c = .ok (sel, ctes) ∧ out.deferred = sel.deferred ∧
      Writing.Gives (do
        let head ← writeCtes c.dialect ctes
        return head ++ (← writeSelect c.dialect sel)) c.newParameters out.phrase out.parameters := by
  unfold Compiler.select at h
  obtain ⟨⟨⟨p, deferred⟩, parameters⟩, hrun, h⟩ := Except.bind_eq_ok.mp h
  cases h
  obtain ⟨⟨sel, _⟩, _, hplan, hresult⟩ := Emission.gives_bind.mp hrun
  obtain ⟨heq, rfl⟩ := Emission.gives_pure.mp hresult
  cases heq
  obtain ⟨ctes, hplan, hwrite⟩ := Emission.gives_planAndWrite.mp hplan
  exact ⟨sel, ctes, hplan, rfl, hwrite⟩

end LambdaSql
