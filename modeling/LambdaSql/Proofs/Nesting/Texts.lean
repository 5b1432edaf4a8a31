import LambdaSql.Proofs.Binding.Jobs
import LambdaSql.Proofs.Nesting.Changes
import LambdaSql.Proofs.Nesting.Provenance

/-!
# What texts are planned as

A statement has a text, or one for each row of a bulk update. Each is written for a plan: common table expressions,
and a selection or a change that reads them. Everything within these plans comes from the statement.

## Main definitions

* `TextPlan`, `Compiler.plans`, `Compiler.texts` - what the texts of a statement, and of all that is compiled at once,
  are planned as.
* `TextPlan.nested` - the selections within a plan.
* `Compiler.Composes` - a text is that of several plans.

## Main results

* `Compiler.texts_of_results` - what is compiled is composed of plans.
* `Compiler.sourced_of_plans` - plans come from their statements.
-/

namespace LambdaSql

open Planning

/-! ## Plans -/

/-- What follows the common table expressions of a text. -/
inductive Body where
  | select (s : Select)
  | update (p : ChangePlan)
  | delete (p : ChangePlan)

/-- What a text is planned as. -/
structure TextPlan where
  ctes : List CtePlan
  body : Body

/-- The selections within assignments. -/
def setSelections (sets : List (Node × Node)) : List (Use × Select) :=
  sets.flatMap fun s => s.1.selections ++ s.2.selections

/-- The selections within a change. -/
def ChangePlan.selections (p : ChangePlan) : List (Use × Select) :=
  tableSelections p.table ++ joinSelections p.joins ++ setSelections p.sets ++ optionSelections p.filter

/-- The selections within a common table expression. -/
def CtePlan.selections (d : CtePlan) : List (Use × Select) :=
  (d.anchor :: d.union.toList).flatMap fun s => (.common, s) :: selectSelections s

namespace Body

/-- The selections within what follows the common table expressions. -/
def selections : Body → List (Use × Select)
  | select s => selectSelections s
  | update p | delete p => p.selections

/-- What is left for evaluation after fetching. -/
def deferred : Body → List Deferred
  | select s => s.deferred
  | update _ | delete _ => []

/-- What it is written for. -/
def sketch (d : Dialect) : Body → Sketch
  | select s => sketchSelect d s
  | update p => sketchUpdate d p
  | delete p => sketchDelete d p

end Body

namespace TextPlan

/-- The selections within a plan. -/
def nested (t : TextPlan) : List (Use × Select) := t.body.selections ++ t.ctes.flatMap CtePlan.selections

/-- What a plan is written for. -/
def sketch (d : Dialect) (t : TextPlan) : Sketch := sketchCtes d t.ctes ++ t.body.sketch d

end TextPlan

/-- The passages of a statement. -/
def Statement.passages : Statement → List Passage
  | .select q => queryPassages false [] q
  | .update u => updatePassages u
  | .delete s => deletePassages s

/-- The statements that are compiled at once. -/
def Job.statements : Job → List Statement
  | .statement s => [s]
  | .batch ss => ss

namespace Compiler

variable (c : Compiler)

/-- What a text is planned as, with the common table expressions met on the way. -/
def plan {α : Type} (act : Planning α) (body : α → Body) : Compilation TextPlan := do
  let (a, ctes) ← act.run c
  return ⟨ctes, body a⟩

/-- What the texts of a statement are planned as. -/
def plans : Statement → Compilation (List TextPlan)
  | .select q => do return [← c.plan (planQuery q) .select]
  | .update u =>
    match u.rows with
    | some rows => rows.zipIdx.mapM fun (r, i) => c.plan (planRow u i r) .update
    | none => do return [← c.plan (planUpdate u) .update]
  | .delete s => do return [← c.plan (planDelete s) .delete]

/-- What the texts of all that is compiled at once are planned as. -/
def texts (job : Job) : Compilation (List TextPlan) := do return (← job.statements.mapM c.plans).flatten

/-- A text is that of several plans, one after the other, and leaves for evaluation after fetching what they do. -/
structure Composes (r : Compiled) (ts : List TextPlan) : Prop where
  realizes : c.Realizes r (.joined ";" (ts.map (·.sketch c.dialect)))
  deferred : r.deferred = ts.flatMap (·.body.deferred)

variable {c} {s : Statement} {ts : List TextPlan} {job : Job}

/-- What is sketched from a plan is the sketch of a planned text. -/
private theorem plan_of_sketchPlan {α : Type} {act : Planning α} {body : α → Body} {sketch : α → Sketch} {sk : Sketch}
    (hbody : ∀ a, (body a).sketch c.dialect = sketch a) (h : c.sketchPlan act sketch = .ok sk) :
    ∃ t, c.plan act body = .ok t ∧ sk = t.sketch c.dialect := by
  obtain ⟨⟨a, ctes⟩, hrun, h⟩ := Except.bind_eq_ok.mp h
  cases h
  refine ⟨⟨ctes, body a⟩, ?_, ?_⟩
  · rw [plan, hrun]
    rfl
  · rw [TextPlan.sketch, hbody]

/-- The sketches of a statement are those of its plans.

**Proof sketch.** By the kind of statement. A bulk update has a text for each row, any other statement just one. -/
theorem plans_of_sketches {sks : List Sketch} (h : c.statementSketches s = .ok sks) :
    ∃ ts, c.plans s = .ok ts ∧ sks = ts.map (·.sketch c.dialect) := by
  have one {α : Type} {act : Planning α} {body : α → Body} {sketch : α → Sketch} {sks : List Sketch}
      (hbody : ∀ a, (body a).sketch c.dialect = sketch a)
      (h : (do return [← c.sketchPlan act sketch] : Compilation (List Sketch)) = .ok sks) :
      ∃ ts, (do return [← c.plan act body] : Compilation (List TextPlan)) = .ok ts ∧
        sks = ts.map (·.sketch c.dialect) := by
    obtain ⟨sk, hsk, h⟩ := Except.bind_eq_ok.mp h
    cases h
    obtain ⟨t, ht, rfl⟩ := plan_of_sketchPlan hbody hsk
    exact ⟨[t], by rw [ht]; rfl, rfl⟩
  cases s with
  | select q => exact one (fun _ => rfl) h
  | delete d => exact one (fun _ => rfl) h
  | update u =>
    cases hrows : u.rows with
    | none =>
      rw [statementSketches_single hrows] at h
      simp only [plans, hrows]
      exact one (fun _ => rfl) h
    | some rows =>
      rw [statementSketches_rows hrows, Except.mapM_eq_ok] at h
      simp only [plans, hrows, Except.mapM_eq_ok]
      have hbody (p : ChangePlan) : (Body.update p).sketch c.dialect = sketchUpdate c.dialect p := rfl
      clear hrows
      generalize rows.zipIdx = indexed at h ⊢
      induction h with
      | nil => exact ⟨[], .nil, rfl⟩
      | cons hsk _ ih =>
        obtain ⟨t, ht, rfl⟩ := plan_of_sketchPlan hbody hsk
        obtain ⟨ts, hts, rfl⟩ := ih
        exact ⟨t :: ts, .cons ht hts, rfl⟩

/-! ## What is compiled -/

/-- A text is what its planning gives from the start. -/
theorem plan_of_run {α : Type} {act : Planning α} {body : α → Body} {t : TextPlan} (h : c.plan act body = .ok t) :
    ∃ a p, act.Gives { compiler := c } {} a p ∧ t = ⟨p.ctes, body a⟩ := by
  obtain ⟨⟨a, ctes⟩, hrun, h⟩ := Except.bind_eq_ok.mp h
  cases h
  obtain ⟨p, hg, rfl⟩ := gives_of_run hrun
  exact ⟨a, p, hg, rfl⟩

/-- Only selections leave something for evaluation after fetching. -/
theorem deferred_update {u : Update} (h : c.plans (.update u) = .ok ts) : ts.flatMap (·.body.deferred) = [] := by
  have one {act : Planning ChangePlan} {t : TextPlan} (h : c.plan act .update = .ok t) : t.body.deferred = [] := by
    obtain ⟨a, p, -, rfl⟩ := plan_of_run h
    rfl
  refine List.flatMap_eq_nil_iff.mpr ?_
  unfold plans at h
  dsimp only at h
  split at h
  · exact Except.forall_of_mapM h fun _ _ _ ht => one ht
  · obtain ⟨t, ht, h⟩ := Except.bind_eq_ok.mp h
    cases h
    exact List.forall_mem_singleton.mpr (one ht)

/-- The texts of a selection leave what the selection does. -/
private theorem deferred_select {q : Query} {sel : Select} {ctes : List CtePlan}
    (h : (planQuery q).run c = .ok (sel, ctes))
    (hts : c.plans (.select q) = .ok ts) : ts.flatMap (·.body.deferred) = sel.deferred := by
  rw [plans, plan, h] at hts
  cases hts
  exact List.append_nil _

/-- The texts of a deletion leave nothing. -/
private theorem deferred_delete {d : Delete} (h : c.plans (.delete d) = .ok ts) :
    ts.flatMap (·.body.deferred) = [] := by
  obtain ⟨t, ht, h⟩ := Except.bind_eq_ok.mp h
  cases h
  obtain ⟨a, p, -, rfl⟩ := plan_of_run ht
  rfl

/-- What a statement of a batch leaves for evaluation after fetching. -/
theorem deferred_emitStatement {ps qs : Parameters} {r : List Phrase × List Deferred}
    (h : (c.emitStatement s).Gives ps r qs) (hts : c.plans s = .ok ts) : r.2 = ts.flatMap (·.body.deferred) := by
  cases s with
  | select q =>
    simp only [emitStatement, emitSelect, Emission.gives_bind, Emission.gives_pure] at h
    obtain ⟨_, _, ⟨⟨sel, p⟩, _, hplan, rfl, rfl⟩, rfl, rfl⟩ := h
    obtain ⟨ctes, hrun, -⟩ := Emission.gives_planAndWrite.mp hplan
    exact (deferred_select hrun hts).symm
  | update u =>
    rw [deferred_update hts]
    unfold emitStatement at h
    dsimp only at h
    split at h <;>
    · simp only [Emission.gives_bind, Emission.gives_pure] at h
      obtain ⟨_, _, -, rfl, rfl⟩ := h
      rfl
  | delete d =>
    rw [deferred_delete hts]
    simp only [emitStatement, Emission.gives_bind, Emission.gives_pure] at h
    obtain ⟨_, _, -, rfl, rfl⟩ := h
    rfl

/-- The sketches of a batch are those of the texts that are planned. -/
private theorem plans_of_batchSketches {ss : List Statement} {skss : List (List Sketch)}
    (h : ss.mapM c.statementSketches = .ok skss) :
    ∃ tss, ss.mapM c.plans = .ok tss ∧ skss = tss.map fun ts => ts.map (·.sketch c.dialect) := by
  rw [Except.mapM_eq_ok] at h
  simp only [Except.mapM_eq_ok]
  induction h with
  | nil => exact ⟨[], .nil, rfl⟩
  | cons hsks _ ih =>
    obtain ⟨ts, hts, rfl⟩ := plans_of_sketches hsks
    obtain ⟨tss, htss, rfl⟩ := ih
    exact ⟨ts :: tss, .cons hts htss, rfl⟩

/-- What a batch leaves for evaluation after fetching. -/
theorem deferred_emitBatch {ss : List Statement} {ps qs : Parameters} {parts : List (List Phrase × List Deferred)}
    {tss : List (List TextPlan)} (h : (c.emitBatch ss).Gives ps parts qs) (htss : ss.mapM c.plans = .ok tss) :
    parts.flatMap Prod.snd = tss.flatten.flatMap (·.body.deferred) := by
  obtain ⟨tss', htss', hchain⟩ := Emission.chain_mapM (g := fun si => c.plans si.1)
    (S := fun _ part ts _ => part.2 = ts.flatMap (·.body.deferred)) (fun si ps r qs h => by
      simp only [Emission.gives_bind, Emission.gives_modify] at h
      obtain ⟨_, _, rfl, h⟩ := h
      obtain ⟨sks, hsks, -⟩ := inTurn_emitStatement si.1 h
      obtain ⟨ts, hts, -⟩ := plans_of_sketches hsks
      exact ⟨ts, hts, deferred_emitStatement h hts⟩) h
  have hsame : ss.mapM c.plans = .ok tss' := by
    rw [Except.mapM_eq_ok] at htss' ⊢
    rwa [← List.zipIdx_map_fst 0 ss, List.forall₂_map_left_iff]
  obtain rfl : tss = tss' := Except.ok.inj (htss.symm.trans hsame)
  clear htss htss' hsame h
  induction hchain with
  | nil => rfl
  | cons h _ ih => rw [List.flatMap_cons, List.flatten_cons, List.flatMap_append, ih, h]

/-- Texts of updates leave nothing for evaluation after fetching.

**Proof sketch.** A row's statement has no columns to fetch, nor has an update of one statement. -/
theorem deferred_statements {u : Update} {cu : CompiledUpdate} (h : c.update u = .ok cu) :
    ∀ r ∈ cu.statements, r.deferred = [] := by
  unfold update at h
  split at h
  · next rows _ =>
    obtain ⟨⟨statements, qs⟩, hrun, h⟩ := Except.bind_eq_ok.mp h
    cases h
    replace hrun : (c.emitBulk u rows).Gives c.newParameters statements qs := hrun
    unfold emitBulk at hrun
    split at hrun
    · exact absurd hrun Emission.not_gives_throw
    · simp only [Emission.gives_bind, Emission.gives_ofExcept] at hrun
      obtain ⟨e, _, -, hrun⟩ := hrun
      split at hrun
      · exact absurd hrun Emission.not_gives_throw
      · obtain ⟨_, -, hchain⟩ := Emission.chain_mapM (g := fun _ => .ok ())
          (S := fun _ (r : Compiled) (_ : Unit) _ => r.deferred = []) (fun ri ps r qs h => by
            simp only [emitRow, Emission.gives_bind, Emission.gives_pure] at h
            obtain ⟨_, _, -, _, _, -, _, _, -, _, _, -, _, _, -, _, _, -, rfl, -⟩ := h
            exact ⟨(), rfl, rfl⟩) hrun
        clear hrun h
        change ∀ r ∈ statements, r.deferred = []
        induction hchain with
        | nil => exact List.forall_mem_nil _
        | cons hr _ ih => exact List.forall_mem_cons.mpr ⟨hr, ih⟩
  · obtain ⟨⟨p, qs⟩, -, h⟩ := Except.bind_eq_ok.mp h
    cases h
    exact List.forall_mem_singleton.mpr rfl

/-- A result that realizes a text and returns what it defers is composed of it. -/
theorem Composes.one {r : Compiled} {t : TextPlan} (h : c.Realizes r (t.sketch c.dialect))
    (hdeferred : r.deferred = t.body.deferred) : c.Composes r [t] :=
  ⟨h, hdeferred.trans (List.append_nil _).symm⟩

/-- The texts of a statement by itself are those that are planned for it. -/
private theorem texts_statement (h : c.plans s = .ok ts) : c.texts (.statement s) = .ok ts := by
  simp only [texts, Job.statements, List.mapM_cons, List.mapM_nil, h]
  exact congrArg Except.ok (List.append_nil ts)

/-- **What is compiled is composed of plans.**

**Proof sketch.** The sketches that the results are written for are those of the plans, statement by statement, and
what is returned as left for evaluation is what the outermost plans leave. -/
theorem texts_of_results {results : List Compiled} (h : c.results job = .ok results) :
    ∃ ts, c.texts job = .ok ts ∧ ∀ r ∈ results, ∃ us, us.Sublist ts ∧ c.Composes r us := by
  obtain ⟨sks, hsks, hrealizes⟩ := realizes_results h
  match job with
  | .statement (.select q) =>
    obtain ⟨ts, hts, rfl⟩ := plans_of_sketches (s := .select q) hsks
    obtain ⟨r, hr, h⟩ := Except.bind_eq_ok.mp h
    cases h
    obtain ⟨sel, ctes, hrun, hdeferred, -⟩ := gives_select hr
    have hleft := hdeferred.trans (deferred_select hrun hts).symm
    obtain ⟨t, ht, h⟩ := Except.bind_eq_ok.mp hts
    cases h
    cases hrealizes with
    | cons hr _ => exact ⟨[t], texts_statement hts, List.forall_mem_singleton.mpr ⟨[t], .refl _, hr, hleft⟩⟩
  | .statement (.delete d) =>
    obtain ⟨ts, hts, rfl⟩ := plans_of_sketches (s := .delete d) hsks
    obtain ⟨r, hr, h⟩ := Except.bind_eq_ok.mp h
    cases h
    have hleft : r.deferred = ts.flatMap (·.body.deferred) := by
      rw [deferred_delete hts]
      obtain ⟨_, -, h⟩ := Except.bind_eq_ok.mp hr
      cases h
      rfl
    obtain ⟨t, ht, h⟩ := Except.bind_eq_ok.mp hts
    cases h
    cases hrealizes with
    | cons hr _ => exact ⟨[t], texts_statement hts, List.forall_mem_singleton.mpr ⟨[t], .refl _, hr, hleft⟩⟩
  | .statement (.update u) =>
    obtain ⟨cu, hcu, h⟩ := Except.bind_eq_ok.mp h
    cases h
    obtain ⟨sks, hupdate, h⟩ := Except.bind_eq_ok.mp hsks
    cases h
    obtain ⟨ts, hts, rfl⟩ := plans_of_sketches hupdate
    have hleft := deferred_update hts
    cases hrealizes with
    | cons hwhole hrealizes =>
      refine ⟨ts, texts_statement hts, List.forall_mem_cons.mpr ⟨⟨ts, .refl _, hwhole, hleft.symm⟩, fun r hr => ?_⟩⟩
      have hnone := deferred_statements hcu r hr
      rw [List.forall₂_map_right_iff] at hrealizes
      obtain ⟨hlength, hget⟩ := List.forall₂_iff_get.mp hrealizes
      obtain ⟨i, rfl⟩ := List.get_of_mem hr
      have ht : ts.get ⟨i, hlength ▸ i.isLt⟩ ∈ ts := List.get_mem ..
      refine ⟨[_], List.singleton_sublist.mpr ht, .one (hget i i.isLt (hlength ▸ i.isLt)) (hnone.trans ?_)⟩
      exact (List.flatMap_eq_nil_iff.mp hleft _ ht).symm
  | .batch ss =>
    obtain ⟨r, hr, h⟩ := Except.bind_eq_ok.mp h
    cases h
    obtain ⟨skss, hskss, h⟩ := Except.bind_eq_ok.mp hsks
    cases h
    obtain ⟨tss, htss, rfl⟩ := plans_of_batchSketches hskss
    have hleft : r.deferred = tss.flatten.flatMap (·.body.deferred) := by
      unfold batch at hr
      split at hr
      · obtain ⟨_, h, -⟩ := Except.bind_eq_ok.mp hr
        cases h
      · obtain ⟨⟨parts, qs⟩, hrun, h⟩ := Except.bind_eq_ok.mp hr
        cases h
        exact deferred_emitBatch hrun htss
    refine ⟨tss.flatten, ?_, List.forall_mem_singleton.mpr ⟨tss.flatten, .refl _, ?_, hleft⟩⟩
    · simp only [texts, Job.statements, htss]
      rfl
    · rw [List.map_flatten]
      cases hrealizes with
      | cons hr _ => exact hr

end Compiler

/-! ## Where they come from -/

/-- What follows the common table expressions comes from the statement. -/
def Body.Sourced (c : Compiler) (site : Passage → Prop) (p : Progress) : Body → Prop
  | .select s => c.Sourced site false [] p s
  | .update change | .delete change =>
    change.PartsHave ((c.provenance site).node [] p) ((c.provenance site).rows [] p)

/-- A plan comes from a statement: its common table expressions are a block, and what follows them reads them. -/
structure TextPlan.Sourced (c : Compiler) (site : Passage → Prop) (t : TextPlan) (p : Progress) : Prop where
  ctes : t.ctes = p.ctes
  block : c.Block site [] [] p
  body : t.body.Sourced c site p

namespace Compiler

variable {c : Compiler} {s : Statement} {ts : List TextPlan} {t : TextPlan} {site : Passage → Prop} {p : Progress}

/-- A statement is planned from the beginning. -/
theorem provenance_at (c : Compiler) (site : Passage → Prop) :
    (c.provenance site).At [] { compiler := c } {} where
  compiler := rfl
  standing := rfl
  underway := List.forall_mem_nil _
  frames := List.forall_mem_nil _
  progress := Block.start

/-- A text comes from a statement if its planning ends within the invariant of provenance. -/
theorem sourced_of_plan {α : Type} {D : Prop} {act : Planning α} {body : α → Body} {Q : Progress → α → Prop}
    (h : c.plan act body = .ok t) (hact : Planning.Ends (c.provenance site) D { compiler := c } {} act Q)
    (hbody : ∀ p a, Q p a → (body a).Sourced c site p) :
    ∃ p, t.Sourced c site p := by
  obtain ⟨a, p, hg, rfl⟩ := plan_of_run h
  obtain ⟨hblock, -, ha⟩ := hact.gives hg
  exact ⟨p, rfl, hblock, hbody p a ha⟩

/-- **Plans come from their statements.**

**Proof sketch.** By the kind of statement: planning starts where nothing is known but that the passages of the
statement are, and keeps it so. -/
theorem sourced_of_plans (h : c.plans s = .ok ts) : ∀ t ∈ ts, ∃ p, t.Sourced c (· ∈ s.passages) p := by
  have hat := c.provenance_at (· ∈ s.passages)
  cases s with
  | select q =>
    obtain ⟨t, ht, h⟩ := Except.bind_eq_ok.mp h
    cases h
    exact List.forall_mem_singleton.mpr
      (sourced_of_plan ht (query_ends q (fun _ hx => hx) hat rfl) fun _ _ hs => hs)
  | delete d =>
    obtain ⟨t, ht, h⟩ := Except.bind_eq_ok.mp h
    cases h
    exact List.forall_mem_singleton.mpr
      (sourced_of_plan ht (ends_planDelete hat fun _ hx => hx) fun _ _ hs => hs)
  | update u =>
    unfold plans at h
    dsimp only at h
    split at h
    · refine Except.forall_of_mapM h fun ri _ t ht => ?_
      refine sourced_of_plan ht (ends_planRow hat (fun a ha x hx => ?_) ri.2 ri.1) fun _ _ hs => hs
      exact List.mem_append_left _ (List.mem_append_right _ (List.mem_flatMap_of_mem ha hx))
    · obtain ⟨t, ht, h⟩ := Except.bind_eq_ok.mp h
      cases h
      exact List.forall_mem_singleton.mpr
        (sourced_of_plan ht (ends_planUpdate hat rfl fun _ hx => hx) fun _ _ hs => hs)

/-- Each text of a job comes from one of its statements. -/
theorem sourced_of_texts {job : Job} (h : c.texts job = .ok ts) :
    ∀ t ∈ ts, ∃ s ∈ job.statements, ∃ p, t.Sourced c (· ∈ s.passages) p := by
  obtain ⟨tss, htss, h⟩ := Except.bind_eq_ok.mp h
  cases h
  have hall := Except.forall_of_mapM
    (Q := fun ts => ∀ t ∈ ts, ∃ s ∈ job.statements, ∃ p, t.Sourced c (· ∈ s.passages) p) htss
    fun s hs ts hts t ht => ⟨s, hs, sourced_of_plans hts t ht⟩
  intro t ht
  obtain ⟨ts, hts, ht⟩ := List.mem_flatten.mp ht
  exact hall ts hts t ht

end Compiler

/-! ## Within plans -/

/-- The selections within assigned columns are those within each of them. -/
private theorem mem_setSelections {x : Use × Select} {sets : List (Node × Node)} :
    x ∈ setSelections sets ↔ ∃ s ∈ sets, x ∈ s.1.selections ∨ x ∈ s.2.selections := by
  simp [setSelections]

section Nested

variable {c : Compiler} {site : Passage → Prop} {t : TextPlan} {p : Progress} {d : CtePlan} {x : Use × Select}

/-- Each selection within a change was planned. -/
theorem ChangePlan.PartsHave.nested {change : ChangePlan}
    (h : change.PartsHave ((c.provenance site).node [] p) ((c.provenance site).rows [] p)) :
    ∀ x ∈ change.selections, c.Nested site [] p x := by
  intro x hx
  simp only [selections, tableSelections_eq, List.mem_append, mem_joinSelections, mem_setSelections,
    mem_optionSelections] at hx
  obtain ((hx | ⟨j, hj, hx | hx⟩) | ⟨s, hs, hx | hx⟩) | ⟨n, hn, hx⟩ := hx
  · exact h.table.2 x hx
  · exact (h.joins j hj).1.2 x hx
  · exact (h.joins j hj).2 x hx
  · exact (h.sets s hs).1 x hx
  · exact (h.sets s hs).2 x hx
  · exact h.filter n hn x hx

/-- Each selection within a common table expression was planned. -/
theorem CtePlan.Follows.nested {unions selfReads : List String} {before : List CtePlan}
    (h : d.Follows c site unions selfReads before) (hx : x ∈ d.selections) :
    ∃ around p, c.Nested site around p x := by
  simp only [selections, List.flatMap_cons, List.mem_append, List.mem_flatMap, Option.mem_toList] at hx
  obtain hx | ⟨u, hu, hx⟩ := hx
  · exact ⟨_, _, Compiler.Sourced.mem .common h.anchor hx⟩
  · exact ⟨_, _, Compiler.Sourced.mem .common (h.union u hu).2 hx⟩

/-- Each selection within a text was planned. -/
theorem TextPlan.Sourced.nested (h : t.Sourced c site p) : ∀ x ∈ t.nested, ∃ around p, c.Nested site around p x := by
  intro x hx
  obtain hx | hx := List.mem_append.mp hx
  · refine ⟨[], p, ?_⟩
    obtain ⟨ctes, body⟩ := t
    cases body with
    | select s => exact h.body.nested x hx
    | update change => exact ChangePlan.PartsHave.nested h.body x hx
    | delete change => exact ChangePlan.PartsHave.nested h.body x hx
  · obtain ⟨d, hd, hx⟩ := List.mem_flatMap.mp hx
    obtain ⟨before, after, hsplit⟩ := List.append_of_mem hd
    obtain ⟨around, hfollows, -⟩ := h.block.follows before d after (h.ctes ▸ hsplit)
    exact hfollows.nested hx

end Nested

end LambdaSql
