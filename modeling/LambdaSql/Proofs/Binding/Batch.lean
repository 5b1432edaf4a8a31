import LambdaSql.Proofs.Binding.Reads
import LambdaSql.Proofs.Binding.Stored

/-!
# Batches

The statements of a batch share their parameters, so that a fixed name with another value in an earlier
statement is written with the position of the later one. What the statements say is what they say alone.

## Main definitions

* `Fragment.Corresponds` - two fragments are the same text, or placeholders for values that agree.

## Main results

* `Compiler.batch_corresponds` - a batch says what its statements say alone.
-/

namespace LambdaSql

variable {ps qs rs : Parameters} {p q : Phrase} {sk : Sketch} {c : Compiler}

/-! ## Two texts for one sketch -/

/-- Two fragments are the same text, or placeholders for values that agree. -/
def Fragment.Corresponds (ps qs : Parameters) : Fragment → Fragment → Prop
  | .text s, .text t => s = t
  | .placeholder a, .placeholder b =>
    ∃ x y, ps.get? a = some x ∧ qs.get? b = some y ∧ x.value.Agrees y.value
  | _, _ => False

/-- Texts that are written for the same sketch correspond to each other. -/
theorem Parameters.Reads.corresponds (hp : ps.Reads p sk) (hq : qs.Reads q sk) :
    List.Forall₂ (Fragment.Corresponds ps qs) p q := by
  refine forall₂_meet (fun a b mark ha hb => ?_) hp hq
  cases mark with
  | text s =>
    cases a with
    | placeholder a => cases ha
    | text a =>
      cases b with
      | placeholder b => cases hb
      | text b => exact Eq.trans ha (Eq.symm hb)
  | value name value native =>
    cases a with
    | text a => cases ha
    | placeholder a =>
      cases b with
      | text b => cases hb
      | placeholder b =>
        obtain ⟨x, hx, hxv⟩ := ha
        obtain ⟨y, hy, hyv⟩ := hb
        exact ⟨x, y, hx, hy, hxv.trans hyv.symm⟩

/-! ## Statements of a batch -/

/-- Phrases that were written in turn for fixed sketches are read as these, also after more has been written. -/
theorem InTurn.reads_of_fixed {phrases : List Phrase} {sks : List Sketch}
    (h : InTurn Issued ps phrases sks qs) (he : qs.Extends rs) (hsks : ∀ sk ∈ sks, sk.IsFixed) :
    List.Forall₂ rs.Reads phrases sks := by
  induction h with
  | nil => exact .nil
  | cons hp hrest ih =>
    obtain ⟨hsk, hrests⟩ := List.forall_mem_cons.mp hsks
    exact .cons ((hp.reads_of_fixed hsk).later (hrest.grows.trans he)) (ih he hrests)

/-- A statement alone reads as its sketches. -/
theorem Compiler.reads_alone {s : Statement} (hs : s.IsStored) {results : List Compiled} {sks : List Sketch}
    (hsks : c.statementSketches s = .ok sks) (h : c.alone s = .ok results) :
    List.Forall₂ (fun (r : Compiled) sk => r.parameters.Reads r.phrase sk) results sks := by
  obtain ⟨sks', hsks', hall⟩ := realizes_alone h
  cases hsks.symm.trans hsks'
  have hfixed := isFixed_statementSketches hs hsks
  refine List.forall₂_iff_zip.mpr ⟨hall.length_eq, fun hmem => ?_⟩
  have hrealizes := List.forall₂_zip hall hmem
  exact (hrealizes.reads (.inl (hfixed _ (List.of_mem_zip hmem).2))).2

/-- **Batching does not change what a statement binds.** If a batch of statements without computed values
compiles, and so does each of them alone, then the text of the batch consists of the texts of the statements,
joined by semicolons, and each of them corresponds to the one that is compiled alone: texts are the same, and
the value of a placeholder among the parameters of the batch agrees with that of its counterpart among those
of the statement.

**Proof sketch.** The sketches of a statement do not depend on whether it stands in a batch. They are fixed, since all
of its values are stored under names, so both the batch and the statement alone are read as them, and two phrases that
are read as one sketch correspond fragment by fragment. -/
theorem Compiler.batch_corresponds {ss : List Statement} (hss : ∀ s ∈ ss, s.IsStored) {r : Compiled}
    (h : c.batch ss = .ok r) {standing : List (List Compiled)} (halone : ss.mapM c.alone = .ok standing) :
    ∃ parts : List (List Phrase), r.phrase = Phrase.joined ";" parts.flatten ∧
      List.Forall₂ (List.Forall₂ fun p (s : Compiled) =>
        List.Forall₂ (Fragment.Corresponds r.parameters s.parameters) p s.phrase) parts standing := by
  obtain ⟨parts, skss, hskss, hchain, hr⟩ := chain_batch h
  have hsketches := (List.forall₂_and_left _ _).mpr ⟨hss, Except.mapM_eq_ok.mp hskss⟩
  have hfixed : ∀ sks ∈ skss, ∀ sk ∈ sks, sk.IsFixed :=
    Except.forall_of_mapM hskss fun s hs sks hsks => isFixed_statementSketches (hss s hs) hsks
  -- Both the batch and the statements alone read as the sketches of the statements.
  have hbatch : List.Forall₂ (fun part sks => List.Forall₂ r.parameters.Reads part.1 sks) parts skss := by
    have hall := hchain.forall₂ PartWritten.grows
      (P := fun part sks => (∀ sk ∈ sks, sk.IsFixed) → List.Forall₂ r.parameters.Reads part.1 sks)
      fun _ h he => InTurn.reads_of_fixed h he
    refine List.forall₂_iff_zip.mpr ⟨hall.length_eq, fun hmem => ?_⟩
    exact List.forall₂_zip hall hmem (hfixed _ (List.of_mem_zip hmem).2)
  have hstanding : List.Forall₂
      (List.Forall₂ fun (r : Compiled) sk => r.parameters.Reads r.phrase sk) standing skss := by
    refine forall₂_meet (fun results sks s halone hs => ?_) (Except.mapM_eq_ok.mp halone).flip hsketches.flip
    exact reads_alone hs.1 hs.2 halone
  refine ⟨parts.map Prod.fst, by rw [hr, List.flatMap], List.forall₂_map_left_iff.mpr ?_⟩
  refine forall₂_meet (fun part results sks hpart hresults => ?_) hbatch hstanding
  refine forall₂_meet (fun p s sk hp hs => ?_) hpart hresults
  exact hp.corresponds hs

/-- The customers of two numbers, one after the other. -/
def twoDeletions : List Statement :=
  [.delete { entity := "Customer", keyRows := [⟨[("Id", .int 1)], by decide⟩] },
    .delete { entity := "Customer", keyRows := [⟨[("Id", .int 2)], by decide⟩] }]

/-- Each of two deletions of a batch corresponds to the one that stands alone, under another name for its key. -/
theorem twoDeletions_correspond :
    ∃ r standing, shop.batch twoDeletions = .ok r ∧ twoDeletions.mapM shop.alone = .ok standing ∧
      r.sql = "DELETE FROM `customer` WHERE `id`=@Id0;DELETE FROM `customer` WHERE `id`=@Id0_1" ∧
      ∃ parts : List (List Phrase), r.phrase = Phrase.joined ";" parts.flatten ∧
        List.Forall₂ (List.Forall₂ fun p (s : Compiled) =>
          List.Forall₂ (Fragment.Corresponds r.parameters s.parameters) p s.phrase) parts standing := by
  obtain ⟨r, h, hsql⟩ : ∃ r, shop.batch twoDeletions = .ok r ∧
      r.sql = "DELETE FROM `customer` WHERE `id`=@Id0;DELETE FROM `customer` WHERE `id`=@Id0_1" :=
    ⟨_, rfl, rfl⟩
  obtain ⟨standing, halone⟩ : ∃ standing, twoDeletions.mapM shop.alone = .ok standing := ⟨_, rfl⟩
  have hss : ∀ s ∈ twoDeletions, s.IsStored := by simp [twoDeletions, Statement.IsStored]
  exact ⟨r, standing, h, halone, hsql, Compiler.batch_corresponds hss h halone⟩

end LambdaSql
