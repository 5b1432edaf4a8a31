import LambdaSql.Proofs.Binding.Parameters

/-!
# Traces of writing

Writing a text leaves a trace: its fragments one after the other, each with what it was written for. A
fragment is a text, a placeholder for a value that is bound at this moment, or the repetition of a fragment
that was written before. All that is said about the parameters of a statement is said along its trace.

## Main definitions

* `Mark`, `Sketch` - what a fragment and a text are written for.
* `Draws` - writing with a trace.
* `Emits` - writing several statements, some of them with parameters of their own.
* `Parameters.Resolves` - a fragment stands for what it was written for.

## Main results

* `Draws.eraseDups_names`, `Emits.eraseDups_names` - the parameters follow the text.
* `Draws.resolves_of_fixed`, `Emits.resolves_of_fixed` - placeholders with fixed names stand for their values.
* `Draws.sound`, `Emits.sound` - so do all placeholders, and each is there once, if no fixed name can be taken
  for a generated one.
* `Draws.names_generated` - the placeholders of a text without fixed names.
-/

namespace LambdaSql

/-- What a fragment is written for: a text, or a value under a fixed name or a generated one. -/
inductive Mark where
  | text (s : String)
  | value (name : Option String) (value : Value) (native : NativeType)

/-- What a text is written for. -/
abbrev Sketch := List Mark

/-- The fragments of a text, each with what it is written for. -/
abbrev Trace := List (Fragment × Mark)

/-- The placeholders of a trace, in order. -/
def Trace.placeholders (w : Trace) : List String := Phrase.placeholders (w.map Prod.fst)

/-- Writing goes from some parameters to others and leaves a trace. -/
inductive Draws (ps : Parameters) : Trace → Parameters → Prop
  | nil : Draws ps [] ps
  | text {qs : Parameters} {w : Trace} (s : String) :
    Draws ps w qs → Draws ps (w ++ [(.text s, .text s)]) qs
  | value {qs rs : Parameters} {w : Trace} {name : Option String} {value : Value} {native : NativeType}
    {token : String} : Draws ps w qs → qs.Binds value native name token rs →
    Draws ps (w ++ [(.placeholder token, .value name value native)]) rs
  /-- A fragment that was written before is written once more. -/
  | again {qs : Parameters} {w : Trace} {piece : Fragment × Mark} :
    Draws ps w qs → piece ∈ w → Draws ps (w ++ [piece]) qs

/-- Writing several statements: a further text, the beginning of the statement at a position, or a statement
with parameters of its own, which are then added. -/
inductive Emits (ps : Parameters) : Trace → Parameters → Prop
  | nil : Emits ps [] ps
  | drawn {qs rs : Parameters} {w u : Trace} : Emits ps w qs → Draws qs u rs → Emits ps (w ++ u) rs
  | statement {qs : Parameters} {w : Trace} (position : Nat) :
    Emits ps w qs → Emits ps w (qs.beginStatement position)
  | inner {qs own rs : Parameters} {w u : Trace} : Emits ps w qs → Draws qs.child u own →
    qs.mergeChecked own = .ok rs → Emits ps (w ++ u) rs

variable {ps qs rs own : Parameters} {w u : Trace}

/-- The placeholders of what is written in turn. -/
@[simp]
theorem Trace.placeholders_append (w u : Trace) :
    Trace.placeholders (w ++ u) = Trace.placeholders w ++ Trace.placeholders u := by
  simp [placeholders]

/-! ## Longer traces -/

/-- What is drawn in turn is drawn together. -/
theorem Draws.append (h : Draws ps w qs) (h' : Draws qs u rs) : Draws ps (w ++ u) rs := by
  induction h' with
  | nil => rwa [List.append_nil]
  | text s _ ih =>
    rw [← List.append_assoc]
    exact ih.text s
  | value _ hbinds ih =>
    rw [← List.append_assoc]
    exact ih.value hbinds
  | again _ hmem ih =>
    rw [← List.append_assoc]
    exact ih.again (List.mem_append_right w hmem)

/-- Any fragments that were written before may be written once more. -/
theorem Draws.repeat (h : Draws ps w qs) (hu : ∀ piece ∈ u, piece ∈ w) : Draws ps (w ++ u) qs := by
  induction u using List.reverseRecOn with
  | nil => rwa [List.append_nil]
  | append_singleton u piece ih =>
    rw [← List.append_assoc]
    refine (ih fun x hx => hu x (List.mem_append_left _ hx)).again (List.mem_append_left u ?_)
    exact hu piece (List.mem_append_right u List.mem_cons_self)

/-- What is emitted in turn is emitted together. -/
theorem Emits.append (h : Emits ps w qs) (h' : Emits qs u rs) : Emits ps (w ++ u) rs := by
  induction h' with
  | nil => rwa [List.append_nil]
  | drawn _ hdrawn ih =>
    rw [← List.append_assoc]
    exact ih.drawn hdrawn
  | statement position _ ih => exact ih.statement position
  | inner _ hdrawn hmerge ih =>
    rw [← List.append_assoc]
    exact ih.inner hdrawn hmerge

/-- What is drawn is emitted. -/
theorem Draws.emits (h : Draws ps w qs) : Emits ps w qs := Emits.nil.drawn h

/-! ## Parameters follow the text -/

/-- Drawing only adds entries. -/
theorem Draws.grows (h : Draws ps w qs) : ps.Extends qs := by
  induction h with
  | nil => exact .refl _
  | text _ _ ih | again _ _ ih => exact ih
  | value _ hbinds ih => exact ih.trans hbinds.grows

/-- Emitting only adds entries. -/
theorem Emits.grows (h : Emits ps w qs) : ps.Extends qs := by
  induction h with
  | nil => exact .refl _
  | drawn _ hdrawn ih => exact ih.trans hdrawn.grows
  | statement _ _ ih => exact ⟨ih.mark, ih.stem, ih.next, ih.entries⟩
  | inner _ _ hmerge ih =>
    obtain ⟨rfl, -⟩ := Parameters.merge_of_mergeChecked hmerge
    exact ih.trans (Parameters.extends_merge ..)

/-- Drawing leaves ordinals as they should be. -/
theorem Draws.ordered (h : Draws ps w qs) (ho : ps.Ordered) : qs.Ordered := by
  induction h with
  | nil => exact ho
  | text _ _ ih | again _ _ ih => exact ih
  | value _ hbinds ih => exact hbinds.ordered ih

/-- Emitting leaves ordinals as they should be. -/
theorem Emits.ordered (h : Emits ps w qs) (ho : ps.Ordered) : qs.Ordered := by
  induction h with
  | nil => exact ho
  | drawn _ hdrawn ih => exact hdrawn.ordered ih
  | statement _ _ ih => exact ih
  | inner _ _ hmerge ih =>
    obtain ⟨rfl, -⟩ := Parameters.merge_of_mergeChecked hmerge
    exact ih.merge _

/-- **The parameters follow the text**: repetitions aside, they are those that were there before and then
the placeholders in the order of the text.

**Proof sketch.** By induction on what has been drawn. A bound value puts its placeholder last unless it has been
there, and a repeated piece repeats a placeholder. -/
theorem Draws.eraseDups_names (h : Draws ps w qs) :
    qs.names.eraseDups = (ps.names ++ Trace.placeholders w).eraseDups := by
  induction h with
  | nil => exact congrArg List.eraseDups (List.append_nil _).symm
  | text _ _ ih => simpa [Trace.placeholders, Phrase.placeholders] using ih
  | @value qs rs w name value native token _ hbinds ih =>
    have htoken : Trace.placeholders [(.placeholder token, .value name value native)] = [token] := rfl
    rw [hbinds.eraseDups_names, Trace.placeholders_append, htoken, ← List.append_assoc]
    exact eraseDups_append_congr ih _
  | @again qs w piece _ hmem ih =>
    rw [Trace.placeholders_append, ← List.append_assoc]
    obtain ⟨fragment, mark⟩ := piece
    cases fragment with
    | text s =>
      have hnone : Trace.placeholders [(.text s, mark)] = [] := rfl
      rw [hnone, List.append_nil]
      exact ih
    | placeholder token =>
      have htoken : Trace.placeholders [(.placeholder token, mark)] = [token] := rfl
      -- the placeholder has been written before
      have hold : token ∈ Trace.placeholders w :=
        List.mem_filterMap.mpr ⟨.placeholder token, List.mem_map_of_mem hmem, rfl⟩
      rw [htoken, eraseDups_append_of_mem (List.mem_append_right _ hold)]
      exact ih

/-- Emitting adds the names of new placeholders, in the order of their first occurrences. -/
theorem Emits.eraseDups_names (h : Emits ps w qs) :
    qs.names.eraseDups = (ps.names ++ Trace.placeholders w).eraseDups := by
  induction h with
  | nil => exact congrArg List.eraseDups (List.append_nil _).symm
  | drawn _ hdrawn ih =>
    rw [hdrawn.eraseDups_names, Trace.placeholders_append, ← List.append_assoc]
    exact eraseDups_append_congr ih _
  | statement _ _ ih => exact ih
  | inner _ hdrawn hmerge ih =>
    obtain ⟨rfl, -⟩ := Parameters.merge_of_mergeChecked hmerge
    rw [Parameters.eraseDups_names_merge, Trace.placeholders_append, ← List.append_assoc,
      append_eraseDups_congr _ hdrawn.eraseDups_names]
    exact eraseDups_append_congr ih _

/-! ## Placeholders stand for their values -/

/-- A fragment stands for what it was written for. -/
def Parameters.Resolves (ps : Parameters) : Fragment × Mark → Prop
  | (.text s, .text t) => s = t
  | (.placeholder token, .value _ value _) => ∃ p, ps.get? token = some p ∧ p.value.Agrees value
  | _ => False

/-- A piece resolves also when there are more entries. -/
theorem Parameters.Resolves.later {piece : Fragment × Mark} (h : ps.Resolves piece) (he : ps.Extends qs) :
    qs.Resolves piece := by
  obtain ⟨fragment, mark⟩ := piece
  cases fragment <;> cases mark
  · exact h
  · exact h
  · exact h
  · obtain ⟨p, hp, hvalue⟩ := h
    exact ⟨p, he.get? hp, hvalue⟩

/-- What stands for its value in a statement within others does so among these. -/
theorem Parameters.Resolves.outward {piece : Fragment × Mark} (h : own.Resolves piece)
    (hmerge : qs.mergeChecked own = .ok rs) : rs.Resolves piece := by
  obtain ⟨fragment, mark⟩ := piece
  cases fragment <;> cases mark
  · exact h
  · exact h
  · exact h
  · obtain ⟨p, hp, hvalue⟩ := h
    obtain ⟨q, hq, hsame⟩ := Parameters.get?_mergeChecked hmerge hp
    exact ⟨q, hq, hsame.trans hvalue⟩

/-- No value is wanted under a generated name. -/
def Sketch.IsFixed (sk : Sketch) : Prop := ∀ value native, Mark.value none value native ∉ sk

/-- Of two sketches in a row without waiting names, neither has one. -/
private theorem Sketch.IsFixed.of_append {a b : Sketch} (h : IsFixed (a ++ b)) : a.IsFixed ∧ b.IsFixed :=
  ⟨fun v t hv => h v t (List.mem_append_left _ hv), fun v t hv => h v t (List.mem_append_right _ hv)⟩

/-- **Placeholders with fixed names stand for their values.**

**Proof sketch.** By induction on what has been drawn. A value under a fixed name is found under its placeholder, and
stays there as tables only grow. -/
theorem Draws.resolves_of_fixed (h : Draws ps w qs) (hw : Sketch.IsFixed (w.map Prod.snd)) :
    ∀ piece ∈ w, qs.Resolves piece := by
  induction h with
  | nil => exact nofun
  | text s _ ih =>
    rw [List.map_append] at hw
    exact List.forall_mem_append.mpr ⟨ih hw.of_append.1, List.forall_mem_singleton.mpr rfl⟩
  | @value qs rs w name value native token _ hbinds ih =>
    rw [List.map_append] at hw
    refine List.forall_mem_append.mpr ⟨fun x hx => ?_, List.forall_mem_singleton.mpr ?_⟩
    · exact (ih hw.of_append.1 x hx).later hbinds.grows
    · cases name with
      | none => exact absurd List.mem_cons_self (hw.of_append.2 value native)
      | some name => exact hbinds.get?_fixed
  | again _ hmem ih =>
    rw [List.map_append] at hw
    have ih := ih hw.of_append.1
    exact List.forall_mem_append.mpr ⟨ih, List.forall_mem_singleton.mpr (ih _ hmem)⟩

/-- If all names are fixed, each piece that is emitted resolves. -/
theorem Emits.resolves_of_fixed (h : Emits ps w qs) (hw : Sketch.IsFixed (w.map Prod.snd)) :
    ∀ piece ∈ w, qs.Resolves piece := by
  induction h with
  | nil => exact nofun
  | drawn _ hdrawn ih =>
    rw [List.map_append] at hw
    refine List.forall_mem_append.mpr ⟨fun x hx => ?_, hdrawn.resolves_of_fixed hw.of_append.2⟩
    exact (ih hw.of_append.1 x hx).later hdrawn.grows
  | statement position _ ih =>
    exact fun x hx => (ih hw x hx).later ⟨rfl, rfl, Nat.le_refl _, List.prefix_rfl⟩
  | inner _ hdrawn hmerge ih =>
    rw [List.map_append] at hw
    refine List.forall_mem_append.mpr ⟨fun x hx => ?_, fun x hx => ?_⟩
    · obtain ⟨rfl, -⟩ := Parameters.merge_of_mergeChecked hmerge
      exact (ih hw.of_append.1 x hx).later (Parameters.extends_merge ..)
    · exact (hdrawn.resolves_of_fixed hw.of_append.2 x hx).outward hmerge

/-- Placeholders with fixed names are there once. -/
theorem Draws.nodup_of_fixed (h : Draws ps w qs) (hw : Sketch.IsFixed (w.map Prod.snd))
    (hps : ps.names.Nodup) : qs.names.Nodup := by
  induction h with
  | nil => exact hps
  | text _ _ ih | again _ _ ih =>
    rw [List.map_append] at hw
    exact ih hw.of_append.1
  | @value qs rs w name value native token _ hbinds ih =>
    rw [List.map_append] at hw
    cases hbinds with
    | fixed => exact Parameters.nodup_pushNew (ih hw.of_append.1) ..
    | generated => exact absurd List.mem_cons_self (hw.of_append.2 value native)

/-- If all names are fixed, emitting repeats none. -/
theorem Emits.nodup_of_fixed (h : Emits ps w qs) (hw : Sketch.IsFixed (w.map Prod.snd))
    (hps : ps.names.Nodup) : qs.names.Nodup := by
  induction h with
  | nil => exact hps
  | drawn _ hdrawn ih =>
    rw [List.map_append] at hw
    exact hdrawn.nodup_of_fixed hw.of_append.2 (ih hw.of_append.1)
  | statement _ _ ih => exact ih hw
  | inner _ _ hmerge ih =>
    rw [List.map_append] at hw
    obtain ⟨rfl, -⟩ := Parameters.merge_of_mergeChecked hmerge
    exact Parameters.nodup_merge (ih hw.of_append.1) _

/-! ## Fixed and generated names -/

/-- The fixed names that values are wanted under are of some kind, also with the position of a statement. -/
def Sketch.FixedIn (fixed : String → Prop) (sk : Sketch) : Prop :=
  ∀ name value native, Mark.value (some name) value native ∈ sk →
    fixed name ∧ ∀ position : Nat, fixed (name ++ "_" ++ toString position)

/-- Of two sketches in a row with names fixed by a property, both have them fixed by it. -/
private theorem Sketch.FixedIn.of_append {fixed : String → Prop} {a b : Sketch} (h : FixedIn fixed (a ++ b)) :
    a.FixedIn fixed ∧ b.FixedIn fixed :=
  ⟨fun n v t hv => h n v t (List.mem_append_left _ hv), fun n v t hv => h n v t (List.mem_append_right _ hv)⟩

/-- Each placeholder is there once, and is of some kind or has a number that has been used up. -/
structure Parameters.Sound (fixed : String → Prop) (ps : Parameters) : Prop where
  within : ps.Within fixed
  nodup : ps.names.Nodup

section Sound

variable {fixed : String → Prop}

/-- A table without entries is sound. -/
theorem Parameters.sound_of_entries_eq_nil (h : ps.entries = []) : ps.Sound fixed := by
  have hnames : ps.names = [] := congrArg (List.map Parameter.name) h
  refine ⟨fun t ht => ?_, ?_⟩
  · rw [hnames] at ht
    cases ht
  · rw [hnames]
    exact .nil

/-- **All placeholders stand for their values, and each is there once**, if no fixed name can be taken for a
generated one.

**Proof sketch.** Induction on the trace. A fixed name that is new is none of those so far, and neither is a generated
one, because it is apart from all fixed names and its number has not been used; what resolved before still does. -/
theorem Draws.sound (h : Draws ps w qs) (ha : Parameters.Apart fixed ps.stem)
    (hw : Sketch.FixedIn fixed (w.map Prod.snd)) (hps : ps.Sound fixed) :
    qs.Sound fixed ∧ ∀ piece ∈ w, qs.Resolves piece := by
  induction h with
  | nil => exact ⟨hps, nofun⟩
  | text s _ ih =>
    rw [List.map_append] at hw
    obtain ⟨hsound, hresolves⟩ := ih hw.of_append.1
    exact ⟨hsound, List.forall_mem_append.mpr ⟨hresolves, List.forall_mem_singleton.mpr rfl⟩⟩
  | @value qs rs w name value native token hdrawn hbinds ih =>
    rw [List.map_append] at hw
    obtain ⟨hsound, hresolves⟩ := ih hw.of_append.1
    have ha : Parameters.Apart fixed qs.stem := hdrawn.grows.stem ▸ ha
    refine ⟨⟨hbinds.within hsound.within ?_, hbinds.nodup hsound.within ha hsound.nodup⟩,
      List.forall_mem_append.mpr ⟨fun x hx => (hresolves x hx).later hbinds.grows,
        List.forall_mem_singleton.mpr ?_⟩⟩
    · rintro text rfl c hc
      obtain ⟨hname, hposition⟩ := hw.of_append.2 text value native List.mem_cons_self
      obtain rfl | hc := List.mem_cons.mp hc
      · exact hname
      · obtain ⟨position, -, rfl⟩ := List.mem_map.mp hc
        exact hposition position
    · cases name with
      | some name => exact hbinds.get?_fixed
      | none =>
        refine hbinds.get?_generated ?_
        cases hbinds
        exact hsound.within.generated_notMem ha
  | again _ hmem ih =>
    rw [List.map_append] at hw
    obtain ⟨hsound, hresolves⟩ := ih hw.of_append.1
    exact ⟨hsound, List.forall_mem_append.mpr ⟨hresolves, List.forall_mem_singleton.mpr (hresolves _ hmem)⟩⟩

/-- Emitting under fixed names and generated ones that are apart leaves the table sound, and each piece resolves.

**Proof sketch.** By induction on what has been emitted. What a statement draws into a table of its own is sound by
itself, and merging keeps soundness and what resolves. -/
theorem Emits.sound (h : Emits ps w qs) (ha : Parameters.Apart fixed ps.stem)
    (hw : Sketch.FixedIn fixed (w.map Prod.snd)) (hps : ps.Sound fixed) :
    qs.Sound fixed ∧ ∀ piece ∈ w, qs.Resolves piece := by
  induction h with
  | nil => exact ⟨hps, nofun⟩
  | drawn hemits hdrawn ih =>
    rw [List.map_append] at hw
    obtain ⟨hsound, hresolves⟩ := ih hw.of_append.1
    obtain ⟨hsound', hresolves'⟩ := hdrawn.sound (hemits.grows.stem ▸ ha) hw.of_append.2 hsound
    exact ⟨hsound', List.forall_mem_append.mpr
      ⟨fun x hx => (hresolves x hx).later hdrawn.grows, hresolves'⟩⟩
  | statement position _ ih =>
    obtain ⟨hsound, hresolves⟩ := ih hw
    refine ⟨⟨hsound.within, hsound.nodup⟩, fun x hx => (hresolves x hx).later ?_⟩
    exact ⟨rfl, rfl, Nat.le_refl _, List.prefix_rfl⟩
  | inner hemits hdrawn hmerge ih =>
    rw [List.map_append] at hw
    obtain ⟨hsound, hresolves⟩ := ih hw.of_append.1
    have ha : Parameters.Apart fixed _ := hemits.grows.stem ▸ ha
    obtain ⟨hown, hresolves'⟩ := hdrawn.sound ha hw.of_append.2 (Parameters.sound_of_entries_eq_nil rfl)
    refine ⟨?_, List.forall_mem_append.mpr ⟨fun x hx => ?_, fun x hx => (hresolves' x hx).outward hmerge⟩⟩
    · -- the merged table holds what both hold
      obtain ⟨rfl, -⟩ := Parameters.merge_of_mergeChecked hmerge
      exact ⟨hsound.within.merge hown.within hdrawn.grows.mark hdrawn.grows.stem,
        Parameters.nodup_merge hsound.nodup _⟩
    · obtain ⟨rfl, -⟩ := Parameters.merge_of_mergeChecked hmerge
      exact (hresolves x hx).later (Parameters.extends_merge ..)

end Sound

/-! ## Texts without fixed names -/

/-- No value is wanted under a fixed name. -/
def Sketch.IsGenerated (sk : Sketch) : Prop := ∀ name value native, Mark.value (some name) value native ∉ sk

/-- **The placeholders of a text without fixed names are numbered** in the order of the text.

**Proof sketch.** By induction on what has been drawn: each value takes the next number, and nothing else is bound. -/
theorem Draws.names_generated (h : Draws ps w qs) (hw : Sketch.IsGenerated (w.map Prod.snd))
    (hps : ps.names = (List.range ps.next).map fun number => ps.token (ps.stem ++ toString number)) :
    qs.names = (List.range qs.next).map fun number => qs.token (qs.stem ++ toString number) := by
  have hpart {a b : Sketch} (h : Sketch.IsGenerated (a ++ b)) : a.IsGenerated :=
    fun n v t hv => h n v t (List.mem_append_left _ hv)
  induction h with
  | nil => exact hps
  | text s _ ih | again _ _ ih =>
    rw [List.map_append] at hw
    exact ih (hpart hw)
  | @value qs rs w name value native token _ hbinds ih =>
    rw [List.map_append] at hw
    have ih := ih (hpart hw)
    cases hbinds with
    | fixed => exact absurd (List.mem_append_right _ List.mem_cons_self) (hw _ value native)
    | generated =>
      rw [List.range_succ, List.map_append, ← List.map_singleton]
      exact (Parameters.names_push ..).trans (congrArg (· ++ _) ih)

end LambdaSql
