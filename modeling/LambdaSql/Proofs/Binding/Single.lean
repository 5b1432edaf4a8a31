import LambdaSql.Proofs.Binding.Rows
import LambdaSql.Proofs.Binding.Steps
import LambdaSql.Proofs.Binding.Visible

/-!
# Batches of one statement

The parameters of a batch know the position of the statement that is being written, and those of a statement alone do
not. The position is looked at where a fixed name has another value already, and there writing a statement alone fails.
So what is written alone is written in the same way at any position of a batch, and a batch of one statement is that
statement.

## Main definitions

* `Writing.Placeable`, `Emission.Placeable` - what is done without a position is done in the same way at each.

## Main results

* `stepwise_placeable` - whatever is written step by step is placeable.
* `Compiler.placeable_emitStatement` - statements are.
* `Compiler.batch_singleton` - a batch of one statement is the statement.
-/

namespace LambdaSql

namespace Phrase

/-- The text of phrases with a text between them. -/
theorem text_joined (separator : String) : ∀ ps : List Phrase,
    (joined separator ps).text = separator.intercalate (ps.map text)
  | [] => rfl
  | [p] => by simp [joined]
  | p :: q :: rest => by
    have ih := text_joined separator (q :: rest)
    rw [joined, text_append, text_append, text_ofText, ih]
    · simp only [List.map_cons, String.intercalate_cons_cons]
    · exact nofun

end Phrase

/-! ## Parameters at a position -/

namespace Parameters

variable {ps qs inner : Parameters} {token name : String} {value : Value} {native : NativeType}

/-- Adding an entry and beginning a statement can be exchanged. -/
private theorem pushNew_beginStatement (ps : Parameters) (position : Nat) (token : String) (value : Value)
    (native : NativeType) : (ps.beginStatement position).pushNew token value native =
      (ps.pushNew token value native).beginStatement position :=
  (apply_ite (fun qs : Parameters => qs.beginStatement position) (ps.contains token = true) ps
    (ps.push token value native)).symm

/-- Merging entries and beginning a statement can be exchanged. -/
private theorem mergeEntries_beginStatement (ps : Parameters) (position : Nat) (entries : List Parameter) :
    (ps.beginStatement position).mergeEntries entries = (ps.mergeEntries entries).beginStatement position := by
  induction entries generalizing ps with
  | nil => rfl
  | cons p rest ih =>
    have hpush := ps.pushNew_beginStatement position p.name p.value p.native
    exact (congrArg (mergeEntries · rest) hpush).trans (ih _)

/-- Merging tables and beginning a statement can be exchanged. -/
private theorem merge_beginStatement (ps inner : Parameters) (position : Nat) :
    (ps.beginStatement position).merge (inner.beginStatement position) = (ps.merge inner).beginStatement position := by
  rw [merge_eq, merge_eq]
  exact congrArg (fun qs : Parameters => { qs with next := max ps.next inner.next })
    (ps.mergeEntries_beginStatement position inner.entries)

/-- Parameters of a statement that can be added to those around it can be added to them at each position. -/
theorem mergeChecked_beginStatement (h : ps.mergeChecked inner = .ok qs) (position : Nat) :
    (ps.beginStatement position).mergeChecked (inner.beginStatement position) = .ok (qs.beginStatement position) := by
  obtain ⟨rfl, -⟩ := merge_of_mergeChecked h
  rw [← merge_beginStatement]
  have hconflict : (ps.beginStatement position).conflict? (inner.beginStatement position) = ps.conflict? inner := rfl
  unfold mergeChecked at h ⊢
  rw [hconflict]
  cases hnone : ps.conflict? inner with
  | none => rfl
  | some p =>
    rw [hnone] at h
    cases h

/-- A fixed name that can be bound without a position is bound to the same placeholder at each position. -/
theorem bind_beginStatement (hnone : ps.statement = none) (h : ps.bind name value native = .ok (token, qs)) :
    qs.statement = none ∧
      ∀ position, (ps.beginStatement position).bind name value native = .ok (token, qs.beginStatement position) := by
  rw [bind_unbatched hnone] at h
  split at h
  · cases h
  · next hagrees =>
    cases h
    obtain ⟨-, hstatement, -⟩ := ps.pushNew_frame (ps.token name) value native
    refine ⟨hstatement.trans hnone, fun position => ?_⟩
    have htoken : (ps.beginStatement position).token name = ps.token name := rfl
    have hsame : (ps.beginStatement position).agrees? (ps.token name) value = ps.agrees? (ps.token name) value := rfl
    unfold bind
    rw [htoken, ← pushNew_beginStatement]
    dsimp only
    rw [hsame]
    cases heq : ps.agrees? (ps.token name) value with
    | none => rfl
    | some same =>
      cases same with
      | false => exact absurd heq hagrees
      | true => rfl

end Parameters

/-! ## Writing at a position -/

/-- What is written without a position is written in the same way at each. -/
def Writing.Placeable ⦃α : Type⦄ (w : Writing α) : Prop :=
  ∀ ⦃ps a ps'⦄, ps.statement = none → w.Gives ps a ps' →
    ps'.statement = none ∧ ∀ position, w.Gives (ps.beginStatement position) a (ps'.beginStatement position)

/-- **Whatever is written step by step is placeable**, since each of the steps is: the position is of no account unless
a fixed name has another value. -/
theorem stepwise_placeable : Writing.Stepwise Writing.Placeable where
  pure a := by
    intro ps b ps' hnone h
    obtain ⟨rfl, rfl⟩ := Writing.gives_pure.mp h
    exact ⟨hnone, fun _ => Writing.gives_pure.mpr ⟨rfl, rfl⟩⟩
  bind hw hf := by
    intro ps b ps' hnone h
    obtain ⟨a, qs, ha, hb⟩ := Writing.gives_bind.mp h
    obtain ⟨hqs, ha⟩ := hw hnone ha
    obtain ⟨hps', hb⟩ := hf a hqs hb
    exact ⟨hps', fun position => Writing.gives_bind.mpr ⟨a, _, ha position, hb position⟩⟩
  value name value native := by
    intro ps p ps' hnone h
    cases name with
    | none =>
      cases h
      exact ⟨hnone, fun _ => rfl⟩
    | some name =>
      obtain ⟨token, hbind, rfl⟩ := Writing.gives_named.mp h
      obtain ⟨hps', hbind⟩ := Parameters.bind_beginStatement hnone hbind
      exact ⟨hps', fun position => Writing.gives_named.mpr ⟨token, hbind position, rfl⟩⟩

namespace Emission

variable {α β : Type}

/-- What is compiled without a position is compiled in the same way at each, but for what the result tells of the
position. -/
def Placeable (place : Nat → α → α) (act : Emission α) : Prop :=
  ∀ ⦃ps a ps'⦄, ps.statement = none → act.Gives ps a ps' → ps'.statement = none ∧
    ∀ position, act.Gives (ps.beginStatement position) (place position a) (ps'.beginStatement position)

variable {place : Nat → α → α}

/-- A result of which something is kept that tells nothing of the position. -/
theorem Placeable.map {act : Emission α} (hact : Placeable place act) (f : α → β)
    (hf : ∀ position a, f (place position a) = f a) : Placeable (fun _ => id) (do return f (← act) : Emission β) := by
  intro ps b ps' hnone h
  simp only [gives_bind, gives_pure] at h ⊢
  obtain ⟨a, _, ha, rfl, rfl⟩ := h
  obtain ⟨hps', ha⟩ := hact hnone ha
  exact ⟨hps', fun position => ⟨_, _, ha position, (hf position a).symm, rfl⟩⟩

/-- Compiling several things in turn can be done in a batch if compiling each one can. -/
theorem Placeable.mapM {f : β → Emission α} (hf : ∀ b, Placeable place (f b)) (bs : List β) :
    Placeable (fun position => List.map (place position)) (bs.mapM f) := by
  intro ps as ps' hnone h
  induction bs generalizing ps as with
  | nil =>
    simp only [List.mapM_nil, gives_pure] at h ⊢
    obtain ⟨rfl, rfl⟩ := h
    exact ⟨hnone, fun _ => ⟨rfl, rfl⟩⟩
  | cons b bs ih =>
    simp only [List.mapM_cons, gives_bind, gives_pure] at h ⊢
    obtain ⟨a, qs, ha, as, _, has, rfl, rfl⟩ := h
    obtain ⟨hqs, ha⟩ := hf b hnone ha
    obtain ⟨hps', has⟩ := ih hqs has
    exact ⟨hps', fun position => ⟨_, _, ha position, _, _, has position, rfl, rfl⟩⟩

/-- What holds of whatever the members of a list give. -/
theorem forall_of_mapM {f : β → Emission α} {Q : α → Prop} (hf : ∀ b ps a qs, (f b).Gives ps a qs → Q a) {bs : List β}
    {as : List α} {ps qs : Parameters} (h : (bs.mapM f).Gives ps as qs) : ∀ a ∈ as, Q a := by
  induction bs generalizing ps as qs with
  | nil =>
    obtain ⟨rfl, -⟩ := gives_pure.mp (List.mapM_nil (f := f) ▸ h)
    exact nofun
  | cons b bs ih =>
    simp only [List.mapM_cons, gives_bind, gives_pure] at h
    obtain ⟨a, qs, ha, as, rs, has, rfl, -⟩ := h
    exact List.forall_mem_cons.mpr ⟨hf b ps a qs ha, ih has⟩

/-- Plans are made without a look at parameters. -/
theorem placeable_planAndWrite (c : Compiler) (plan : Planning α) {write : α → Writing Phrase}
    (hwrite : ∀ a, Writing.Placeable (write a)) : Placeable (fun _ => id) (planAndWrite c plan write) := by
  intro ps r ps' hnone h
  obtain ⟨ctes, hrun, h⟩ := gives_planAndWrite.mp h
  have hstatement := stepwise_placeable.bind (stepwise_placeable.writeCtes (d := c.dialect) ctes)
    fun head => stepwise_placeable.map (hwrite r.1) (head ++ ·)
  obtain ⟨hps', h⟩ := hstatement hnone h
  exact ⟨hps', fun position => gives_planAndWrite.mpr ⟨ctes, hrun, h position⟩⟩

end Emission

namespace Compiler

open Emission

variable (c : Compiler)

/-- The statement for a row with its own parameters at a position. -/
private def atPosition (position : Nat) (r : Compiled) : Compiled :=
  { r with parameters := r.parameters.beginStatement position }

/-- The statement of a row is the same at every position, but for the position. -/
private theorem placeable_emitRow (u : Update) (row : Record × Nat) :
    Placeable atPosition (c.emitRow u row.2 row.1) := by
  intro ps r ps' hnone h
  obtain ⟨change, hown, hdeferred, hmerge⟩ := gives_emitRow.mp h
  have hplan := placeable_planAndWrite c (planRow u row.2 row.1) (stepwise_placeable.writeUpdate (d := c.dialect))
  obtain ⟨-, hown⟩ := @hplan ps.child _ _ hnone hown
  refine ⟨?_, fun position => gives_emitRow.mpr
    ⟨change, hown position, hdeferred, Parameters.mergeChecked_beginStatement hmerge position⟩⟩
  obtain ⟨rfl, -⟩ := Parameters.merge_of_mergeChecked hmerge
  exact (ps.mergeEntries_frame r.parameters.entries).2.trans hnone

/-- The statements of a bulk update are the same at every position, but for the position. -/
private theorem placeable_emitBulk (u : Update) (rows : List Record) :
    Placeable (fun position => List.map (atPosition position)) (c.emitBulk u rows) := by
  intro ps ss ps' hnone h
  obtain ⟨hproblem, e, he, hkeys, hss⟩ := gives_emitBulk.mp h
  obtain ⟨hps', hss⟩ := Placeable.mapM (c.placeable_emitRow u) _ hnone hss
  exact ⟨hps', fun position => gives_emitBulk.mpr ⟨hproblem, e, he, hkeys, hss position⟩⟩

/-- **Statements are compiled in the same way at each position** as they are without one.

**Proof sketch.** By the kind of statement: planning knows of no position, and what is written step by step is
placeable. -/
theorem placeable_emitStatement (s : Statement) : Placeable (fun _ => id) (c.emitStatement s) := by
  cases s with
  | select q =>
    have hplan := placeable_planAndWrite c (planQuery q) (stepwise_placeable.writeSelect (d := c.dialect))
    exact (hplan.map (fun r => (r.2, r.1.deferred)) fun _ _ => rfl).map (fun r => ([r.1], r.2)) fun _ _ => rfl
  | delete s =>
    have hplan := placeable_planAndWrite c (planDelete s) (stepwise_placeable.writeDelete (d := c.dialect))
    exact (hplan.map (·.2) fun _ _ => rfl).map (fun p => ([p], [])) fun _ _ => rfl
  | update u =>
    unfold emitStatement
    cases hu : u.rows with
    | none =>
      simp only [hu]
      have hplan := placeable_planAndWrite c (planUpdate u) (stepwise_placeable.writeUpdate (d := c.dialect))
      exact (hplan.map (·.2) fun _ _ => rfl).map (fun p => ([p], [])) fun _ _ => rfl
    | some rows =>
      simp only [hu]
      refine (c.placeable_emitBulk u rows).map (fun ss => (ss.map (·.phrase), [])) fun position ss => ?_
      rw [List.map_map]
      rfl

/-! ## Batches -/

variable {c}

/-- What a statement alone gives is what a batch of it gives. -/
theorem batch_of_gives {s : Statement} (phrases : List Phrase) {deferred : List Deferred} {qs : Parameters}
    (h : (c.emitStatement s).Gives c.newParameters (phrases, deferred) qs) :
    c.batch [s] = .ok ⟨Phrase.joined ";" phrases, qs.beginStatement 0, deferred⟩ := by
  obtain ⟨-, h⟩ := c.placeable_emitStatement s rfl h
  have hbatch : (c.emitBatch [s]).Gives c.newParameters [(phrases, deferred)] (qs.beginStatement 0) := by
    simp only [emitBatch, List.zipIdx_cons, List.zipIdx_nil, List.mapM_cons, List.mapM_nil, gives_bind, gives_modify,
      gives_pure]
    exact ⟨_, _, ⟨⟨⟩, _, rfl, h 0⟩, [], _, ⟨rfl, rfl⟩, rfl, rfl⟩
  refine Except.bind_eq_ok.mpr ⟨_, hbatch, ?_⟩
  simp only [List.flatMap_singleton]
  rfl

/-- A bulk update leaves nothing for evaluation after fetching. -/
theorem deferred_of_emitBulk {u : Update} {rows : List Record} {ps ps' : Parameters} {ss : List Compiled}
    (h : (c.emitBulk u rows).Gives ps ss ps') : ss.flatMap (·.deferred) = [] := by
  obtain ⟨-, -, -, -, hss⟩ := gives_emitBulk.mp h
  refine List.flatMap_eq_nil_iff.mpr (forall_of_mapM (fun row ps r qs hr => ?_) hss)
  obtain ⟨-, -, hdeferred, -⟩ := gives_emitRow.mp hr
  exact hdeferred

/-- An update of one statement is written from new parameters. -/
theorem update_of_no_rows {u : Update} (hu : u.rows = none) {cu : CompiledUpdate} :
    c.update u = .ok cu ↔ ∃ p qs, (c.emitUpdate u).Gives c.newParameters p qs ∧
      cu = .single { phrase := p, parameters := qs } := by
  unfold update
  rw [hu]
  simp only [Except.bind_eq_ok, Except.pure_eq_ok]
  constructor
  · rintro ⟨⟨p, qs⟩, hp, rfl⟩
    exact ⟨p, qs, hp, rfl⟩
  · rintro ⟨p, qs, hp, rfl⟩
    exact ⟨(p, qs), hp, rfl⟩

/-- A batch of one selection is the selection at the first position. -/
private theorem batch_select {q : Query} {r : Compiled} (h : c.select q = .ok r) :
    c.batch [.select q] = .ok { r with parameters := r.parameters.beginStatement 0 } := by
  obtain ⟨⟨⟨p, deferred⟩, qs⟩, hrun, h⟩ := Except.bind_eq_ok.mp h
  cases h
  refine batch_of_gives [p] ?_
  simp only [emitStatement, gives_bind, gives_pure]
  exact ⟨_, _, hrun, rfl, rfl⟩

/-- A batch of one deletion is the deletion at the first position. -/
private theorem batch_delete {s : Delete} {r : Compiled} (h : c.delete s = .ok r) :
    c.batch [.delete s] = .ok { r with parameters := r.parameters.beginStatement 0 } := by
  obtain ⟨⟨p, qs⟩, hrun, h⟩ := Except.bind_eq_ok.mp h
  cases h
  refine batch_of_gives [p] ?_
  simp only [emitStatement, gives_bind, gives_pure]
  exact ⟨_, _, hrun, rfl, rfl⟩

/-- A batch of one update is the update at the first position. -/
private theorem batch_update_single {u : Update} {r : Compiled} (h : c.update u = .ok (.single r)) :
    c.batch [.update u] = .ok { r with parameters := r.parameters.beginStatement 0 } := by
  cases hu : u.rows with
  | none =>
    obtain ⟨p, qs, hp, ⟨⟩⟩ := (update_of_no_rows hu).mp h
    refine batch_of_gives [p] ?_
    unfold emitStatement
    simp only [hu, gives_bind, gives_pure]
    exact ⟨_, _, hp, rfl, rfl⟩
  | some rows =>
    obtain ⟨_, _, -, hbulk⟩ := (update_rows hu).mp h
    cases hbulk

/-- The statements of several rows are written with parameters of their own, which are added to those of the batch one
after the other, as they are when the update is compiled alone. -/
theorem batch_update_bulk {u : Update} {rs : List Compiled} (h : c.update u = .ok (.bulk rs)) :
    ∃ b, c.batch [.update u] = .ok b ∧ b.sql = (CompiledUpdate.bulk rs).sql ∧
      b.deferred = rs.flatMap (·.deferred) ∧ b.parameters.entries = (CompiledUpdate.bulk rs).parameters.entries := by
  cases hu : u.rows with
  | none =>
    obtain ⟨_, _, -, hsingle⟩ := (update_of_no_rows hu).mp h
    cases hsingle
  | some rows =>
    obtain ⟨_, qs, hrs, ⟨⟩⟩ := (update_rows hu).mp h
    have hgives : (c.emitStatement (.update u)).Gives c.newParameters (rs.map (·.phrase), []) qs := by
      unfold emitStatement
      simp only [hu, gives_bind, gives_pure]
      exact ⟨_, _, hrs, rfl, rfl⟩
    obtain ⟨sks, -, hchain⟩ := chain_emitBulk hrs
    refine ⟨_, batch_of_gives _ hgives, ?_, (deferred_of_emitBulk hrs).symm, ?_⟩
    · rw [Compiled.sql, Phrase.text_joined, List.map_map]
      rfl
    · have hentries : (CompiledUpdate.bulk rs).parameters.entries = qs.entries := entries_parameters hchain
      exact hentries.symm

/-- **A batch of one statement is the statement.** Whenever a query, an update or a deletion compiles alone, the batch
that has nothing but this statement compiles. It has the same text, leaves the same for evaluation after fetching, and
has the same parameters in the same order; for an update of several rows, these are the text and the parameters of all
its statements.

**Proof sketch.** Alone and in the batch, compiling starts from parameters without entries, which differ in the position
only, so `Compiler.placeable_emitStatement` applies. -/
theorem batch_singleton (c : Compiler) :
    (∀ q r, c.select q = .ok r → ∃ b, c.batch [.select q] = .ok b ∧ b.sql = r.sql ∧ b.deferred = r.deferred ∧
      b.parameters.entries = r.parameters.entries) ∧
    (∀ u r, c.update u = .ok (.single r) → ∃ b, c.batch [.update u] = .ok b ∧ b.sql = r.sql ∧
      b.deferred = r.deferred ∧ b.parameters.entries = r.parameters.entries) ∧
    (∀ u rs, c.update u = .ok (.bulk rs) → ∃ b, c.batch [.update u] = .ok b ∧ b.sql = (CompiledUpdate.bulk rs).sql ∧
      b.deferred = rs.flatMap (·.deferred) ∧ b.parameters.entries = (CompiledUpdate.bulk rs).parameters.entries) ∧
    (∀ s r, c.delete s = .ok r → ∃ b, c.batch [.delete s] = .ok b ∧ b.sql = r.sql ∧ b.deferred = r.deferred ∧
      b.parameters.entries = r.parameters.entries) :=
  ⟨fun _ _ h => ⟨_, batch_select h, rfl, rfl, rfl⟩, fun _ _ h => ⟨_, batch_update_single h, rfl, rfl, rfl⟩,
    fun _ _ h => batch_update_bulk h, fun _ _ h => ⟨_, batch_delete h, rfl, rfl, rfl⟩⟩

end Compiler

/-- The points of a number. -/
def pointsOfNumber : Query :=
  (Query.ofSource (.entity "Point")).filter (.lambda ["x"] (.binary .eq (.member (.param "x") "n")
    (.captured "n" (.int 5))))

/-- An update that binds two values to placeholders of one name. -/
def pointsShifted : Update where
  entity := "Point"
  assignments := [.value "p0" (.int 1),
    .field "n" (.lambda ["x"] (.binary .add (.member (.param "x") "n") (.captured "d" (.int 2))))]

/-- The first point. -/
def firstPoint : Delete where
  entity := "Point"
  keyRows := [⟨[("Id", .int 1)], List.nodup_singleton "Id"⟩]

/-- A query, an update, a bulk update and a deletion, each alone and as the only statement of a batch. -/
theorem points_batches :
    (∃ r b, points.select pointsOfNumber = .ok r ∧ points.batch [.select pointsOfNumber] = .ok b ∧
      b.sql = r.sql ∧ b.deferred = r.deferred ∧ b.parameters.entries = r.parameters.entries) ∧
    (∃ r b, points.update pointsShifted = .ok (.single r) ∧ points.batch [.update pointsShifted] = .ok b ∧
      r.parameters.names = ["@p0", "@p0"] ∧
      b.sql = r.sql ∧ b.deferred = r.deferred ∧ b.parameters.entries = r.parameters.entries) ∧
    (∃ rs b, points.update twoPoints = .ok (.bulk rs) ∧ points.batch [.update twoPoints] = .ok b ∧
      (CompiledUpdate.bulk rs).parameters.names = ["@n0", "@p0", "@kId0", "@kId1"] ∧
      b.sql = (CompiledUpdate.bulk rs).sql ∧ b.deferred = rs.flatMap (·.deferred) ∧
      b.parameters.entries = (CompiledUpdate.bulk rs).parameters.entries) ∧
    (∃ r b, points.delete firstPoint = .ok r ∧ points.batch [.delete firstPoint] = .ok b ∧
      b.sql = r.sql ∧ b.deferred = r.deferred ∧ b.parameters.entries = r.parameters.entries) := by
  obtain ⟨hselect, hsingle, hbulk, hdelete⟩ := Compiler.batch_singleton points
  refine ⟨?_, ?_, ?_, ?_⟩
  · obtain ⟨r, h⟩ : ∃ r, points.select pointsOfNumber = .ok r := ⟨_, rfl⟩
    obtain ⟨b, hb⟩ := hselect _ r h
    exact ⟨r, b, h, hb⟩
  · obtain ⟨r, h, hnames⟩ : ∃ r, points.update pointsShifted = .ok (.single r) ∧
        r.parameters.names = ["@p0", "@p0"] := ⟨_, rfl, rfl⟩
    obtain ⟨b, hbatch, hb⟩ := hsingle _ r h
    exact ⟨r, b, h, hbatch, hnames, hb⟩
  · obtain ⟨rs, h, hnames⟩ : ∃ rs, points.update twoPoints = .ok (.bulk rs) ∧
        (CompiledUpdate.bulk rs).parameters.names = ["@n0", "@p0", "@kId0", "@kId1"] := ⟨_, rfl, rfl⟩
    obtain ⟨b, hbatch, hb⟩ := hbulk _ rs h
    exact ⟨rs, b, h, hbatch, hnames, hb⟩
  · obtain ⟨r, h⟩ : ∃ r, points.delete firstPoint = .ok r := ⟨_, rfl⟩
    obtain ⟨b, hb⟩ := hdelete _ r h
    exact ⟨r, b, h, hb⟩

end LambdaSql
