import LambdaSql.Proofs.Binding.Jobs
import LambdaSql.Proofs.Binding.Wanted
import LambdaSql.Proofs.Naming.Resolution

/-!
# The order of parameters

Databases that bind parameters by position read them in the order of the text. All clauses are written in
that order, and the parameters of a statement within others are added where its text is.

## Main results

* `Compiler.names_of_results` - the parameters follow the text, and those of a query are numbered.
-/

namespace LambdaSql

namespace Parameters

variable {ps qs : Parameters}

/-- Names are those of the entries. -/
theorem names_congr (h : ps.entries = qs.entries) : ps.names = qs.names := by rw [names, names, h]

/-- Whether ordinals count the entries is a matter of the entries alone. -/
theorem Ordered.congr (h : ps.entries = qs.entries) (ho : qs.Ordered) : ps.Ordered := by
  unfold Ordered at ho ⊢
  rw [h]
  exact ho

/-- A table without entries is in order. -/
private theorem ordered_of_entries_eq_nil (h : ps.entries = []) : ps.Ordered := by
  unfold Ordered
  rw [h]
  rfl

end Parameters

variable {ps qs : Parameters} {p : Phrase} {sk : Sketch} {c : Compiler}

/-- Repetitions aside, the parameters are the placeholders of the text. -/
theorem Issued.eraseDups_names (h : Issued ps p sk qs) (hps : ps.entries = []) :
    qs.names.eraseDups = p.placeholders.eraseDups := by
  obtain ⟨w, hw, rfl, -⟩ := h
  rw [hw.eraseDups_names, Parameters.names, hps]
  rfl

/-- The entries of a result come in the order of its placeholders, and their ordinals count them. -/
theorem Compiler.Realizes.follows {r : Compiled} (h : c.Realizes r sk) :
    r.parameters.names.eraseDups = r.phrase.placeholders.eraseDups ∧ r.parameters.Ordered := by
  obtain ⟨start, qs, hstart, -, -, hissued, hentries⟩ := h
  rw [Parameters.names_congr hentries]
  refine ⟨hissued.eraseDups_names hstart, .congr hentries ?_⟩
  obtain ⟨w, hw, -⟩ := hissued
  exact hw.ordered (Parameters.ordered_of_entries_eq_nil hstart)

/-- The parameters of a query have the generated names in their order. -/
theorem Compiler.names_select {query : Query} {r : Compiled} (h : c.select query = .ok r) :
    r.parameters.names = (List.range r.parameters.entries.length).map fun number =>
      c.newParameters.token (c.options.stem ++ toString number) := by
  obtain ⟨sk, hsk, w, hw, -, rfl⟩ := written_select h
  have hnames := hw.names_generated (isGenerated_of_query hsk) rfl
  have hlength : r.parameters.entries.length = r.parameters.next := by
    have := congrArg List.length hnames
    rwa [Parameters.names, List.length_map, List.length_map, List.length_range] at this
  rw [hnames, hlength, hw.grows.stem]
  exact List.map_congr_left fun number _ => hw.grows.token_eq _

/-- **The parameters follow the text.** Whatever is compiled at once, for each of its texts: repetitions
aside, the parameters are the placeholders in the order in which they first come up in the text, and each
parameter has its position as its ordinal. The parameters of a query are moreover the generated names, one
after the other.

**Proof sketch.** Along the trace of what is written an entry is added for each placeholder that has none yet, at the
end and with the next ordinal, so the names follow the placeholders without their repetitions. Nothing in a query has
a fixed name, so each of its values is pushed under the next generated one. -/
theorem Compiler.names_of_results {job : Job} {results : List Compiled} (h : c.results job = .ok results) :
    ∀ r ∈ results,
      r.parameters.names.eraseDups = r.phrase.placeholders.eraseDups ∧
      r.parameters.entries.map (·.ordinal) = List.range r.parameters.entries.length ∧
      ∀ query, job = .statement (.select query) →
        r.parameters.names = (List.range r.parameters.entries.length).map fun number =>
          c.newParameters.token (c.options.stem ++ toString number) := by
  intro r hr
  obtain ⟨sks, -, hall⟩ := realizes_results h
  obtain ⟨hnames, hordered⟩ :=
    ((List.forall₂_and_left _ _).mp (hall.imp fun _ _ h => ⟨h.follows, h⟩)).1 r hr
  refine ⟨hnames, hordered, ?_⟩
  rintro query rfl
  obtain ⟨r', hr', h⟩ := Except.bind_eq_ok.mp h
  cases h
  rw [List.mem_singleton.mp hr]
  exact names_select hr'

/-- The customers in their thirties. -/
def thirties : Query :=
  (Query.ofSource (.entity "Customer")).filter (.lambda ["c"]
    (.binary .and
      (.binary .ge (.member (.param "c") "Age") (.captured "low" (.int 30)))
      (.binary .lt (.member (.param "c") "Age") (.captured "high" (.int 40)))))

/-- Two anonymous values are named by their numbers, in the order in which they are written. -/
theorem thirties_names :
    ∃ r, shop.results (.statement (.select thirties)) = .ok [r] ∧
      r.parameters.names = ["@p0", "@p1"] ∧ r.phrase.placeholders.eraseDups = ["@p0", "@p1"] := by
  obtain ⟨r, h, hnames⟩ : ∃ r, shop.results (.statement (.select thirties)) = .ok [r] ∧
      r.parameters.names = ["@p0", "@p1"] := ⟨_, rfl, rfl⟩
  obtain ⟨hfollows, -⟩ := Compiler.names_of_results h r List.mem_cons_self
  exact ⟨r, h, hnames, by rw [← hfollows, hnames]; rfl⟩

end LambdaSql
