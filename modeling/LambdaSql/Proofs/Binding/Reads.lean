import LambdaSql.Proofs.Binding.Order

/-!
# What placeholders stand for

A placeholder stands for the value that it was written for, and there is one parameter for it, as long as no
fixed name reads as a generated one: a generated placeholder is added without a look at those that are there.

## Main definitions

* `Parameters.Reads` - each placeholder of a phrase stands for what it was written for.
* `Sketch.Unmistakable` - no fixed name reads as a generated one.

## Main results

* `Compiler.reads_of_results` - placeholders are distinct and stand for their values.
-/

namespace LambdaSql

variable {ps qs : Parameters} {p : Phrase} {sk : Sketch} {c : Compiler}

/-- Lists that are related to the same one, member by member. -/
theorem forall₂_meet {α β γ : Type} {R : α → γ → Prop} {S : β → γ → Prop} {T : α → β → Prop}
    (hT : ∀ a b c, R a c → S b c → T a b) {as : List α} {bs : List β} {cs : List γ}
    (ha : List.Forall₂ R as cs) (hb : List.Forall₂ S bs cs) : List.Forall₂ T as bs := by
  induction ha generalizing bs with
  | nil =>
    cases hb
    exact .nil
  | cons hac _ ih =>
    cases hb with
    | cons hbc hrest => exact .cons (hT _ _ _ hac hbc) (ih hrest)

/-! ## Phrases -/

/-- Each placeholder of a phrase stands for what it was written for, and each text for itself. -/
def Parameters.Reads (ps : Parameters) (p : Phrase) (sk : Sketch) : Prop :=
  List.Forall₂ (fun fragment mark => ps.Resolves (fragment, mark)) p sk

namespace Parameters

/-- A trace reads as what stands in it if all its pieces resolve. -/
private theorem reads_of_trace {w : Trace} (h : ∀ piece ∈ w, ps.Resolves piece) :
    ps.Reads (w.map Prod.fst) (w.map Prod.snd) := by
  rw [Reads, List.forall₂_map_left_iff, List.forall₂_map_right_iff]
  exact List.forall₂_same.mpr h

/-- What a placeholder resolves to is a matter of the entries alone. -/
theorem Resolves.congr {piece : Fragment × Mark} (h : qs.Resolves piece) (he : ps.entries = qs.entries) :
    ps.Resolves piece := by
  obtain ⟨fragment, mark⟩ := piece
  cases fragment <;> cases mark
  · exact h
  · exact h
  · exact h
  · obtain ⟨p, hp, hvalue⟩ := h
    exact ⟨p, by rw [get?, he]; exact hp, hvalue⟩

/-- How a phrase is read is a matter of the entries alone. -/
theorem Reads.congr (h : qs.Reads p sk) (he : ps.entries = qs.entries) : ps.Reads p sk :=
  h.imp fun _ _ h => h.congr he

/-- A phrase is still read in the same way when there are more entries. -/
theorem Reads.later (h : ps.Reads p sk) (he : ps.Extends qs) : qs.Reads p sk :=
  h.imp fun _ _ h => h.later he

end Parameters

/-- Fixed names only: placeholders stand for their values. -/
theorem Issued.reads_of_fixed (h : Issued ps p sk qs) (hsk : sk.IsFixed) : qs.Reads p sk := by
  obtain ⟨w, hw, rfl, rfl⟩ := h
  exact Parameters.reads_of_trace (hw.resolves_of_fixed hsk)

/-! ## Names -/

/-- No fixed name of a sketch, by itself or with the position of a statement, reads as a generated one; or no
value is wanted under a generated one. -/
def Sketch.Unmistakable (stem : String) (sk : Sketch) : Prop :=
  sk.IsFixed ∨ sk.FixedIn fun name => ∀ number : Nat, name ≠ stem ++ toString number

/-- A sketch of generated names cannot be mistaken for one of chosen names. -/
private theorem Sketch.IsGenerated.unmistakable (h : sk.IsGenerated) (stem : String) : sk.Unmistakable stem :=
  .inr fun name value native hmem => absurd hmem (h name value native)

/-- From parameters without entries, placeholders are distinct and stand for their values. -/
theorem Issued.reads (h : Issued ps p sk qs) (hps : ps.entries = []) (hsk : sk.Unmistakable ps.stem) :
    qs.names.Nodup ∧ qs.Reads p sk := by
  have hsound (fixed : String → Prop) : ps.Sound fixed := Parameters.sound_of_entries_eq_nil hps
  obtain ⟨w, hw, rfl, rfl⟩ := h
  obtain hsk | hsk := hsk
  · exact ⟨hw.nodup_of_fixed hsk (hsound fun _ => True).nodup,
      Parameters.reads_of_trace (hw.resolves_of_fixed hsk)⟩
  · obtain ⟨hsound, hresolves⟩ := hw.sound (fun _ h => h) hsk (hsound _)
    exact ⟨hsound.nodup, Parameters.reads_of_trace hresolves⟩

/-- The names of a result are distinct, and its phrase is read as what was to be written. -/
theorem Compiler.Realizes.reads {r : Compiled} (h : c.Realizes r sk) (hsk : sk.Unmistakable c.options.stem) :
    r.parameters.names.Nodup ∧ r.parameters.Reads r.phrase sk := by
  obtain ⟨start, qs, hstart, -, hstem, hissued, hentries⟩ := h
  obtain ⟨hnodup, hreads⟩ := hissued.reads hstart (hstem ▸ hsk)
  exact ⟨Parameters.names_congr hentries ▸ hnodup, hreads.congr hentries⟩

/-- **No placeholder stands for two values**, unless a fixed name reads as a generated one. Whatever is
compiled at once, for each of its texts: placeholders are distinct, and each stands for the value of the node
that it was written for. In a query, no fixed name reads as a generated one since there are none.

**Proof sketch.** What is compiled realizes its sketches, along a trace that tells for each fragment what it was
written for. By induction on the trace, names stay distinct as long as no fixed name can be generated, and each
placeholder resolves to its value, also after more has been written. -/
theorem Compiler.reads_of_results {job : Job} {results : List Compiled} (h : c.results job = .ok results) :
    ∃ sks, c.sketches job = .ok sks ∧
      List.Forall₂ (fun r sk => sk.Unmistakable c.options.stem →
        r.parameters.names.Nodup ∧ r.parameters.Reads r.phrase sk) results sks ∧
      ∀ query, job = .statement (.select query) → ∀ sk ∈ sks, sk.Unmistakable c.options.stem := by
  obtain ⟨sks, hsks, hall⟩ := realizes_results h
  refine ⟨sks, hsks, hall.imp fun _ _ hr hsk => hr.reads hsk, ?_⟩
  rintro query rfl sk hmem
  obtain ⟨sk', hsk', h'⟩ := Except.bind_eq_ok.mp hsks
  cases h'
  rw [List.mem_singleton.mp hmem]
  exact (isGenerated_of_query hsk').unmistakable _

/-- The first customers are thirty years old. -/
def firstAreThirty : Update :=
  ({ entity := "Customer", assignments := [.value "Age" (.int 30)] } : Update).filter
    (.lambda ["c"] (.binary .lt (.member (.param "c") "Id") (.captured "count" (.int 10))))

/-- A statement with a named value and an anonymous one is read with its two entries. -/
theorem firstAreThirty_reads :
    ∃ all r sk, shop.results (.statement (.update firstAreThirty)) = .ok [all, r] ∧
      r.parameters.names = ["@Age", "@p0"] ∧ r.parameters.names.Nodup ∧ r.parameters.Reads r.phrase sk := by
  obtain ⟨all, r, h, hnames⟩ : ∃ all r, shop.results (.statement (.update firstAreThirty)) = .ok [all, r] ∧
      r.parameters.names = ["@Age", "@p0"] := ⟨_, _, rfl, rfl⟩
  obtain ⟨sks, hsks, hall, -⟩ := Compiler.reads_of_results h
  obtain ⟨sk, hsketches, hwanted⟩ : ∃ sk, shop.sketches (.statement (.update firstAreThirty)) = .ok [sk, sk] ∧
      sk.wanted = [some "Age", none] := ⟨_, rfl, rfl⟩
  cases hsks.symm.trans hsketches
  obtain _ | ⟨-, _ | ⟨hr, -⟩⟩ := hall
  have hsk : sk.Unmistakable "p" := by
    refine .inr fun name value native hmem => ?_
    have hmem : some name ∈ sk.wanted := Sketch.mem_wanted.mpr ⟨value, native, hmem⟩
    obtain rfl : name = "Age" := by simpa [hwanted] using hmem
    constructor
    · exact fun number h => by simpa using congrArg String.toList h
    · exact fun position number h => by simpa using congrArg String.toList h
  exact ⟨all, r, sk, h, hnames, hr hsk⟩

/-- A point whose member has a name that reads as a generated one. -/
def points : Compiler where
  model := ⟨[
    { name := "Point"
      table := "point"
      fields :=
        [{ member := "Id", column := "id", type := .int32, native := .int32, isKey := true },
          { member := "p0", column := "p0", type := .int32, native := .int32 },
          { member := "n", column := "n", type := .int32, native := .int32 }] }]⟩

/-- One placeholder stands for two values. -/
example : (points.results (.statement (.update { entity := "Point", assignments := [.value "p0" (.int 1),
    .field "n" (.lambda ["x"] (.binary .add (.member (.param "x") "n") (.captured "d" (.int 2))))] }))).map
      (·.map fun r => (r.sql, r.parameters.names, r.parameters.values.map Value.text)) =
    .ok [("UPDATE `point` SET `p0`=@p0,`n`=`n`+@p0", ["@p0"], ["1"]),
      ("UPDATE `point` SET `p0`=@p0,`n`=`n`+@p0", ["@p0", "@p0"], ["1", "2"])] := by rfl

end LambdaSql
