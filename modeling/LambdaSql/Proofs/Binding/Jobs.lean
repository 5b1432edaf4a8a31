import LambdaSql.Proofs.Binding.Statements

/-!
# Texts with their parameters

A statement is compiled alone or in a batch, and a bulk update has a text for each row besides the text of all
rows. However many statements there are: each text is written for its sketch, and its parameters are those at
the end of writing it.

## Main definitions

* `Issued` - a phrase is written for a sketch in the course of several statements.
* `Chain` - several things are done one after the other.
* `Job`, `Compiler.results` - what is compiled at once, and the texts with their parameters that come of it.
* `Compiler.sketches` - what these texts are written for.
* `Compiler.Realizes` - a text with its parameters is what is written for a sketch.

## Main results

* `Compiler.chain_emitBatch` - the statements of a batch, one after the other.
* `Compiler.realizes_alone` - a statement alone.
* `Compiler.realizes_results` - all texts are written for their sketches.
-/

namespace LambdaSql

variable {ps qs rs : Parameters} {p q : Phrase} {sk other : Sketch}

/-! ## Phrases in the course of several statements -/

/-- A phrase is written for a sketch in the course of several statements. -/
def Issued (ps : Parameters) (p : Phrase) (sk : Sketch) (qs : Parameters) : Prop :=
  ∃ w, Emits ps w qs ∧ w.map Prod.fst = p ∧ w.map Prod.snd = sk

/-- What is written for a sketch is issued for it. -/
theorem Written.issued (h : Written ps p sk qs) : Issued ps p sk qs := by
  obtain ⟨w, hw, hp, hsk⟩ := h
  exact ⟨w, hw.emits, hp, hsk⟩

namespace Issued

/-- What is issued in turn is issued together. -/
theorem append (h : Issued ps p sk qs) (h' : Issued qs q other rs) :
    Issued ps (p ++ q) (sk ++ other) rs := by
  obtain ⟨w, hw, rfl, rfl⟩ := h
  obtain ⟨u, hu, rfl, rfl⟩ := h'
  exact ⟨w ++ u, hw.append hu, List.map_append, List.map_append⟩

/-- A statement of a batch begins with its position. -/
theorem statement {position : Nat} (h : Issued (ps.beginStatement position) p sk qs) :
    Issued ps p sk qs := by
  obtain ⟨w, hw, hp, hsk⟩ := h
  exact ⟨w, (Emits.nil.statement position).append hw, hp, hsk⟩

/-- Issuing only adds entries. -/
theorem grows (h : Issued ps p sk qs) : ps.Extends qs := by
  obtain ⟨w, hw, -⟩ := h
  exact hw.grows

end Issued

/-- What is issued can be put together: in turn, with a text before, and in another form. -/
private theorem putTogether_issued : PutTogether Issued :=
  ⟨fun ps s => (Written.ofText ps s).issued, Issued.append⟩

section Lists

variable {phrases : List Phrase} {sks : List Sketch}

/-- The start of a statement adds no entries. -/
theorem InTurn.statement {position : Nat} (h : InTurn Issued (ps.beginStatement position) phrases sks qs) :
    InTurn Issued ps phrases sks qs := by
  cases h with
  | nil h => exact .nil h.statement
  | cons hp hrest => exact .cons hp.statement hrest

/-- A single phrase is issued in turn. -/
private theorem Issued.inTurn (h : Issued ps p sk qs) : InTurn Issued ps [p] [sk] qs :=
  .cons h (.nil (Written.nil qs).issued)

/-- Issuing in turn only adds entries. -/
theorem InTurn.grows (h : InTurn Issued ps phrases sks qs) : ps.Extends qs := by
  induction h with
  | nil h => exact h.grows
  | cons hp _ ih => exact hp.grows.trans ih

end Lists

/-! ## One after the other -/

/-- Several things are done, each from the parameters that the one before it leaves. -/
inductive Chain {α β : Type} (S : Parameters → α → β → Parameters → Prop) :
    Parameters → List α → List β → Parameters → Prop
  | nil (ps : Parameters) : Chain S ps [] [] ps
  | cons {ps qs rs : Parameters} {a : α} {b : β} {as : List α} {bs : List β} :
    S ps a b qs → Chain S qs as bs rs → Chain S ps (a :: as) (b :: bs) rs

namespace Chain

variable {α β : Type} {S : Parameters → α → β → Parameters → Prop} {as : List α} {bs : List β}

/-- A chain of steps only adds entries if each step does. -/
theorem grows (hS : ∀ {ps a b qs}, S ps a b qs → ps.Extends qs) (h : Chain S ps as bs qs) :
    ps.Extends qs := by
  induction h with
  | nil ps => exact .refl ps
  | cons h _ ih => exact (hS h).trans ih

/-- Each thing is done with parameters that go on from those at the beginning, and those at the end go on from
what it leaves. -/
theorem forall₂ (hS : ∀ {ps a b qs}, S ps a b qs → ps.Extends qs) {P : α → β → Prop}
    (h : Chain S ps as bs qs)
    (hP : ∀ {ps' a b qs'}, ps.Extends ps' → S ps' a b qs' → qs'.Extends qs → P a b) :
    List.Forall₂ P as bs := by
  induction h with
  | nil => exact .nil
  | cons h hrest ih =>
    refine .cons (hP (.refl _) h (hrest.grows hS)) (ih fun he h' he' => hP ((hS h).trans he) h' he')

end Chain

/-- The results of a list are those of its members, one after the other. -/
theorem Emission.chain_mapM {α β γ : Type} {S : Parameters → β → γ → Parameters → Prop}
    {f : α → Emission β} {g : α → Compilation γ}
    (hf : ∀ a {ps b qs}, (f a).Gives ps b qs → ∃ k, g a = .ok k ∧ S ps b k qs) {as : List α} {bs : List β}
    (h : (as.mapM f).Gives ps bs qs) : ∃ ks, as.mapM g = .ok ks ∧ Chain S ps bs ks qs := by
  induction as generalizing ps bs with
  | nil =>
    rw [List.mapM_nil, gives_pure] at h
    obtain ⟨rfl, rfl⟩ := h
    exact ⟨[], rfl, .nil _⟩
  | cons a rest ih =>
    simp only [List.mapM_cons, gives_bind, gives_pure] at h
    obtain ⟨b, qs', hb, bs, rs, hrest, rfl, rfl⟩ := h
    obtain ⟨k, hk, hS⟩ := hf a hb
    obtain ⟨ks, hks, hchain⟩ := ih hrest
    refine ⟨k :: ks, ?_, .cons hS hchain⟩
    rw [List.mapM_cons, hk, hks]
    rfl

/-! ## Rows of a bulk update -/

/-- The statement for a row is written with parameters of its own, which are then added. -/
structure RowWritten (ps : Parameters) (r : Compiled) (sk : Sketch) (qs : Parameters) : Prop where
  own : Written ps.child r.phrase sk r.parameters
  merged : ps.mergeChecked r.parameters = .ok qs

namespace RowWritten

variable {r : Compiled} {rows : List Compiled} {sks : List Sketch}

/-- A row that is written adds the parameters of its statement. -/
private theorem eq_merge (h : RowWritten ps r sk qs) : qs = ps.merge r.parameters :=
  (Parameters.merge_of_mergeChecked h.merged).1

/-- Writing a row only adds entries. -/
theorem grows (h : RowWritten ps r sk qs) : ps.Extends qs := h.eq_merge ▸ ps.extends_merge r.parameters

/-- What is written for a row is issued for its sketch. -/
theorem issued (h : RowWritten ps r sk qs) : Issued ps r.phrase sk qs := by
  obtain ⟨w, hw, hp, hsk⟩ := h.own
  exact ⟨w, Emits.nil.inner hw h.merged, hp, hsk⟩

/-- The texts of all rows are written in turn. -/
theorem inTurn (h : Chain RowWritten ps rows sks qs) :
    InTurn Issued ps (rows.map (·.phrase)) sks qs := by
  induction h with
  | nil ps => exact .nil (Written.nil ps).issued
  | cons h _ ih => exact .cons h.issued ih

/-- The parameters of all rows are added. -/
theorem eq_foldl (h : Chain RowWritten ps rows sks qs) :
    qs = rows.foldl (fun acc r => acc.merge r.parameters) ps := by
  induction h with
  | nil => rfl
  | cons h _ ih => rw [ih, h.eq_merge, List.foldl_cons]

end RowWritten

/-! ## Statements -/

/-- The texts of a statement of a batch are written in turn. -/
def PartWritten (ps : Parameters) (part : List Phrase × List Deferred) (sks : List Sketch)
    (qs : Parameters) : Prop := InTurn Issued ps part.1 sks qs

/-- Writing a part of a batch only adds entries. -/
theorem PartWritten.grows {part : List Phrase × List Deferred} {sks : List Sketch}
    (h : PartWritten ps part sks qs) : ps.Extends qs := InTurn.grows h

namespace Compiler

open Emission

variable {c : Compiler}

/-- A selection is written for the sketch of its plan. -/
private theorem written_emitSelect {query : Query} {r : Phrase × List Deferred}
    (h : (c.emitSelect query).Gives ps r qs) :
    ∃ sk, c.sketchPlan (planQuery query) (sketchSelect c.dialect) = .ok sk ∧ Written ps r.1 sk qs := by
  simp only [emitSelect, gives_bind, gives_pure] at h
  obtain ⟨⟨plan, p⟩, _, hplan, rfl, rfl⟩ := h
  exact written_planAndWrite (fun plan => written_writeSelect plan) hplan

/-- An update that is compiled is written for its sketch. -/
theorem written_emitUpdate {u : Update} (h : (c.emitUpdate u).Gives ps p qs) :
    ∃ sk, c.sketchPlan (planUpdate u) (sketchUpdate c.dialect) = .ok sk ∧ Written ps p sk qs := by
  simp only [emitUpdate, gives_bind, gives_pure] at h
  obtain ⟨r, _, hplan, rfl, rfl⟩ := h
  exact written_planAndWrite (fun _ => written_writeUpdate) hplan

/-- A deletion is written for the sketch of its plan. -/
private theorem written_emitDelete {s : Delete} (h : (c.emitDelete s).Gives ps p qs) :
    ∃ sk, c.sketchPlan (planDelete s) (sketchDelete c.dialect) = .ok sk ∧ Written ps p sk qs := by
  simp only [emitDelete, gives_bind, gives_pure] at h
  obtain ⟨r, _, hplan, rfl, rfl⟩ := h
  exact written_planAndWrite (fun _ => written_writeDelete) hplan

/-- The statement for a row is written with parameters of its own, which are then added to those around it. -/
theorem gives_emitRow {u : Update} {index : Nat} {row : Record} {r : Compiled} :
    (c.emitRow u index row).Gives ps r qs ↔
      ∃ change, (planAndWrite c (planRow u index row) (writeUpdate c.dialect)).Gives ps.child (change, r.phrase)
        r.parameters ∧ r.deferred = [] ∧ ps.mergeChecked r.parameters = .ok qs := by
  simp only [emitRow, gives_bind, gives_get, gives_set, gives_ofExcept, gives_pure]
  constructor
  · rintro ⟨_, _, ⟨rfl, rfl⟩, _, _, rfl, ⟨change, p⟩, own, hown, _, _, ⟨rfl, rfl⟩, _, _, ⟨hmerge, rfl⟩, _, _, rfl, rfl,
      rfl⟩
    exact ⟨change, hown, rfl, hmerge⟩
  · rintro ⟨change, hown, hdeferred, hmerge⟩
    refine ⟨ps, ps, ⟨rfl, rfl⟩, ⟨⟩, _, rfl, (change, r.phrase), r.parameters, hown, _, _, ⟨rfl, rfl⟩, qs, _,
      ⟨hmerge, rfl⟩, ⟨⟩, _, rfl, ?_, rfl⟩
    rw [← hdeferred]

/-- A row of a bulk update is written for the sketch of its plan. -/
private theorem rowWritten_emitRow {u : Update} {index : Nat} {row : Record} {r : Compiled}
    (h : (c.emitRow u index row).Gives ps r qs) :
    ∃ sk, c.sketchPlan (planRow u index row) (sketchUpdate c.dialect) = .ok sk ∧ RowWritten ps r sk qs := by
  obtain ⟨change, hplan, -, hmerged⟩ := gives_emitRow.mp h
  obtain ⟨sk, hsk, hwritten⟩ := written_planAndWrite (fun _ => written_writeUpdate) hplan
  exact ⟨sk, hsk, hwritten, hmerged⟩

/-- **The rows of a bulk update** are written one after the other. -/
theorem chain_emitBulk {u : Update} {rows : List Record} {statements : List Compiled}
    (h : (c.emitBulk u rows).Gives ps statements qs) :
    ∃ sks, rows.zipIdx.mapM (fun (r, i) => c.sketchPlan (planRow u i r) (sketchUpdate c.dialect)) = .ok sks ∧
      Chain RowWritten ps statements sks qs := by
  unfold emitBulk at h
  split at h
  · exact absurd h not_gives_throw
  · simp only [gives_bind, gives_ofExcept] at h
    obtain ⟨e, _, ⟨-, rfl⟩, h⟩ := h
    split at h
    · exact absurd h not_gives_throw
    · exact chain_mapM (fun _ => rowWritten_emitRow) h

/-- A statement of a batch is written for its sketches.

**Proof sketch.** By the kind of statement. A bulk update is issued row by row, any other statement at once. -/
theorem inTurn_emitStatement (s : Statement) {r : List Phrase × List Deferred}
    (h : (c.emitStatement s).Gives ps r qs) :
    ∃ sks, c.statementSketches s = .ok sks ∧ InTurn Issued ps r.1 sks qs := by
  cases s with
  | select query =>
    simp only [emitStatement, gives_bind, gives_pure] at h
    obtain ⟨⟨p, deferred⟩, _, hp, rfl, rfl⟩ := h
    obtain ⟨sk, hsk, hwritten⟩ := written_emitSelect hp
    refine ⟨[sk], ?_, hwritten.issued.inTurn⟩
    rw [statementSketches, hsk]
    rfl
  | delete s =>
    simp only [emitStatement, gives_bind, gives_pure] at h
    obtain ⟨p, _, hp, rfl, rfl⟩ := h
    obtain ⟨sk, hsk, hwritten⟩ := written_emitDelete hp
    refine ⟨[sk], ?_, hwritten.issued.inTurn⟩
    rw [statementSketches, hsk]
    rfl
  | update u =>
    unfold emitStatement at h
    dsimp only at h
    split at h
    · next rows hrows =>
      simp only [gives_bind, gives_pure] at h
      obtain ⟨statements, _, hbulk, rfl, rfl⟩ := h
      obtain ⟨sks, hsks, hchain⟩ := chain_emitBulk hbulk
      exact ⟨sks, by rw [statementSketches_rows hrows, hsks], RowWritten.inTurn hchain⟩
    · next hrows =>
      simp only [gives_bind, gives_pure] at h
      obtain ⟨p, _, hp, rfl, rfl⟩ := h
      obtain ⟨sk, hsk, hwritten⟩ := written_emitUpdate hp
      refine ⟨[sk], ?_, hwritten.issued.inTurn⟩
      rw [statementSketches_single hrows, hsk]
      rfl

/-- **The statements of a batch** are written one after the other, each at its position. -/
theorem chain_emitBatch {ss : List Statement} {parts : List (List Phrase × List Deferred)}
    (h : (c.emitBatch ss).Gives ps parts qs) :
    ∃ skss, ss.mapM c.statementSketches = .ok skss ∧
      Chain PartWritten ps parts skss qs := by
  obtain ⟨skss, hskss, hchain⟩ := chain_mapM (g := fun si => c.statementSketches si.1) (fun si ps r qs h => by
    simp only [gives_bind, gives_modify] at h
    obtain ⟨_, _, rfl, h⟩ := h
    obtain ⟨sks, hsks, hturn⟩ := inTurn_emitStatement si.1 h
    exact ⟨sks, hsks, hturn.statement⟩) h
  refine ⟨skss, ?_, hchain⟩
  rw [Except.mapM_eq_ok] at hskss ⊢
  rwa [← List.zipIdx_map_fst 0 ss, List.forall₂_map_left_iff]

/-- The texts of all statements of a batch are written in turn. -/
theorem inTurn_flatMap {parts : List (List Phrase × List Deferred)} {skss : List (List Sketch)}
    (h : Chain PartWritten ps parts skss qs) :
    InTurn Issued ps (parts.flatMap Prod.fst) skss.flatten qs := by
  induction h with
  | nil ps => exact .nil (Written.nil ps).issued
  | cons h _ ih => exact InTurn.append h putTogether_issued ih

end Compiler

/-- The entries after merging statements depend on the entries before only. -/
private theorem entries_foldl_merge (h : ps.entries = qs.entries) (statements : List Compiled) :
    (statements.foldl (fun acc s => acc.merge s.parameters) ps).entries =
      (statements.foldl (fun acc s => acc.merge s.parameters) qs).entries := by
  induction statements generalizing ps qs with
  | nil => exact h
  | cons s rest ih => exact ih (Parameters.entries_mergeEntries_congr h s.parameters.entries)

/-! ## What is compiled at once -/

/-- All statements of an update as one text, with the parameters of all. -/
def CompiledUpdate.whole (u : CompiledUpdate) : Compiled where
  phrase := Phrase.joined ";" (u.statements.map (·.phrase))
  parameters := u.parameters

/-- What is compiled at once. -/
inductive Job where
  | statement (s : Statement)
  | batch (statements : List Statement)

namespace Compiler

variable (c : Compiler)

/-- The texts of a statement that is compiled alone. -/
def alone : Statement → Compilation (List Compiled)
  | .select q => do return [← c.select q]
  | .update u => do return (← c.update u).statements
  | .delete s => do return [← c.delete s]

/-- All texts with their parameters: an update's statements all together and one by one. -/
def results : Job → Compilation (List Compiled)
  | .statement (.update u) => do
    let cu ← c.update u
    return cu.whole :: cu.statements
  | .statement s => c.alone s
  | .batch ss => do return [← c.batch ss]

/-- What all texts are written for. -/
def sketches : Job → Compilation (List Sketch)
  | .statement (.update u) => do
    let sks ← c.statementSketches (.update u)
    return .joined ";" sks :: sks
  | .statement s => c.statementSketches s
  | .batch ss => do return [.joined ";" (← ss.mapM c.statementSketches).flatten]

end Compiler

namespace Compiler

open Emission

/-- A text with its parameters is what is written for a sketch, from parameters without entries. -/
def Realizes (c : Compiler) (r : Compiled) (sk : Sketch) : Prop :=
  ∃ start qs, start.entries = [] ∧ start.mark = c.options.mark ∧ start.stem = c.options.stem ∧
    Issued start r.phrase sk qs ∧ r.parameters.entries = qs.entries

variable {c : Compiler}

/-- A statement realizes the sketch for which it was issued from the first parameters on. -/
private theorem realizes_of_issued {r : Compiled} (h : Issued c.newParameters r.phrase sk qs)
    (hr : r.parameters.entries = qs.entries) : c.Realizes r sk :=
  ⟨c.newParameters, qs, rfl, rfl, rfl, h, hr⟩

/-- A row's statement realizes the sketch for which it was written. -/
private theorem realizes_row {r : Compiled} (he : c.newParameters.Extends ps) (h : RowWritten ps r sk qs) :
    c.Realizes r sk :=
  ⟨ps.child, r.parameters, rfl, he.mark, he.stem, h.own.issued, rfl⟩

/-- A query alone is written for its sketch. -/
theorem written_select {query : Query} {r : Compiled} (h : c.select query = .ok r) :
    ∃ sk, c.sketchPlan (planQuery query) (sketchSelect c.dialect) = .ok sk ∧
      Written c.newParameters r.phrase sk r.parameters := by
  unfold select at h
  obtain ⟨⟨⟨p, deferred⟩, qs⟩, hrun, h⟩ := Except.bind_eq_ok.mp h
  cases h
  exact written_emitSelect hrun

/-- A deletion that is compiled is written for its sketch. -/
theorem written_delete {s : Delete} {r : Compiled} (h : c.delete s = .ok r) :
    ∃ sk, c.sketchPlan (planDelete s) (sketchDelete c.dialect) = .ok sk ∧
      Written c.newParameters r.phrase sk r.parameters := by
  unfold delete at h
  obtain ⟨⟨p, qs⟩, hrun, h⟩ := Except.bind_eq_ok.mp h
  cases h
  exact written_emitDelete hrun

/-- The statements of a batch are written one after the other, and are its text. -/
theorem chain_batch {ss : List Statement} {r : Compiled} (h : c.batch ss = .ok r) :
    ∃ parts skss, ss.mapM c.statementSketches = .ok skss ∧
      Chain PartWritten c.newParameters parts skss r.parameters ∧
      r.phrase = Phrase.joined ";" (parts.flatMap Prod.fst) := by
  unfold batch at h
  split at h
  · obtain ⟨_, h, -⟩ := Except.bind_eq_ok.mp h
    cases h
  · obtain ⟨⟨parts, qs⟩, hrun, h⟩ := Except.bind_eq_ok.mp h
    cases h
    obtain ⟨skss, hskss, hchain⟩ := chain_emitBatch hrun
    exact ⟨parts, skss, hskss, hchain, rfl⟩

/-- A statement without others around it is one within them. -/
theorem rowWritten_of_written {r : Compiled} (h : Written c.newParameters r.phrase sk r.parameters) :
    RowWritten c.newParameters r sk (c.newParameters.merge r.parameters) := by
  refine ⟨h, ?_⟩
  have hnone : c.newParameters.conflict? r.parameters = none := List.find?_eq_none.mpr fun _ _ h => nomatch h
  rw [Parameters.mergeChecked, hnone]

/-- An update alone: its texts are written one after the other, also if there is only one. -/
theorem chain_update {u : Update} {cu : CompiledUpdate} (h : c.update u = .ok cu) :
    ∃ sks qs, c.statementSketches (.update u) = .ok sks ∧
      Chain RowWritten c.newParameters cu.statements sks qs := by
  unfold update at h
  split at h
  · next rows hrows =>
    obtain ⟨⟨statements, qs⟩, hrun, h⟩ := Except.bind_eq_ok.mp h
    cases h
    obtain ⟨sks, hsks, hchain⟩ := chain_emitBulk hrun
    exact ⟨sks, qs, by rw [statementSketches_rows hrows, hsks], hchain⟩
  · next hrows =>
    obtain ⟨⟨p, qs⟩, hrun, h⟩ := Except.bind_eq_ok.mp h
    cases h
    obtain ⟨sk, hsk, hwritten⟩ := written_emitUpdate hrun
    refine ⟨[sk], _, ?_, .cons (rowWritten_of_written hwritten) (.nil _)⟩
    rw [statementSketches_single hrows, hsk]
    rfl

/-- **A statement alone**: each text is written for its sketch.

**Proof sketch.** By the kind of statement. Each statement starts from parameters of its own, to which what it issues
adds the entries that its result has. -/
theorem realizes_alone {s : Statement} {results : List Compiled} (h : c.alone s = .ok results) :
    ∃ sks, c.statementSketches s = .ok sks ∧ List.Forall₂ c.Realizes results sks := by
  cases s with
  | select query =>
    obtain ⟨r, hr, h⟩ := Except.bind_eq_ok.mp h
    cases h
    obtain ⟨sk, hsk, hwritten⟩ := written_select hr
    refine ⟨[sk], ?_, .cons (realizes_of_issued hwritten.issued rfl) .nil⟩
    rw [statementSketches, hsk]
    rfl
  | delete s =>
    obtain ⟨r, hr, h⟩ := Except.bind_eq_ok.mp h
    cases h
    obtain ⟨sk, hsk, hwritten⟩ := written_delete hr
    refine ⟨[sk], ?_, .cons (realizes_of_issued hwritten.issued rfl) .nil⟩
    rw [statementSketches, hsk]
    rfl
  | update u =>
    obtain ⟨cu, hcu, h⟩ := Except.bind_eq_ok.mp h
    cases h
    obtain ⟨sks, qs, hsks, hchain⟩ := chain_update hcu
    exact ⟨sks, hsks, hchain.forall₂ RowWritten.grows fun he h _ => realizes_row he h⟩

/-- The parameters of an update are those that its statements leave. -/
theorem entries_parameters {cu : CompiledUpdate} {sks : List Sketch}
    (h : Chain RowWritten c.newParameters cu.statements sks qs) : cu.parameters.entries = qs.entries := by
  have hnew : ((cu.statements.head?.map fun s : Compiled => s.parameters.child).getD {}).entries =
      c.newParameters.entries := by
    cases cu.statements <;> rfl
  rw [RowWritten.eq_foldl h, CompiledUpdate.parameters]
  exact entries_foldl_merge hnew _

/-- **All texts are written for their sketches**, from parameters without entries.

**Proof sketch.** Statement by statement, what is emitted is written for its sketch from the parameters that the one
before left. Joined by semicolons the texts are written for the joined sketches, and the parameters of the whole are
the last ones. -/
theorem realizes_results {job : Job} {results : List Compiled} (h : c.results job = .ok results) :
    ∃ sks, c.sketches job = .ok sks ∧ List.Forall₂ c.Realizes results sks := by
  match job with
  | .statement (.select query) => exact realizes_alone (s := .select query) h
  | .statement (.delete s) => exact realizes_alone (s := .delete s) h
  | .statement (.update u) =>
    obtain ⟨cu, hcu, h⟩ := Except.bind_eq_ok.mp h
    cases h
    obtain ⟨sks, qs, hsks, hchain⟩ := chain_update hcu
    refine ⟨Sketch.joined ";" sks :: sks, ?_, .cons ?_ ?_⟩
    · rw [sketches, hsks]
      rfl
    · exact realizes_of_issued ((RowWritten.inTurn hchain).joined putTogether_issued ";")
        (entries_parameters hchain)
    · exact hchain.forall₂ RowWritten.grows fun he h _ => realizes_row he h
  | .batch ss =>
    obtain ⟨r, hr, h⟩ := Except.bind_eq_ok.mp h
    cases h
    obtain ⟨parts, skss, hskss, hchain, hr⟩ := chain_batch hr
    refine ⟨[Sketch.joined ";" skss.flatten], ?_, .cons (realizes_of_issued ?_ rfl) .nil⟩
    · rw [sketches, hskss]
      rfl
    · rw [hr]
      exact (inTurn_flatMap hchain).joined putTogether_issued ";"

end Compiler

end LambdaSql
