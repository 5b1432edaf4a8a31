import LambdaSql.Render.Phrase

/-!
# Phrases and outcomes of writing

What is written depends on the parameters, and adds to them. As with planning, most statements are about
writing that ends with a result, and a longer text is taken apart along the steps of writing it.

## Main definitions

* `Phrase.placeholders` - the placeholders in a phrase.
* `Writing.Gives` - writing goes from some parameters to others and gives a result.
* `Writing.Total` - writing never fails.

## Main results

* `Writing.gives_bind` - writing in two steps.
* `Writing.gives_named` - placeholders with a fixed name.
-/

namespace LambdaSql

namespace Phrase

/-- The placeholders in a phrase, in order. -/
def placeholders (p : Phrase) : List String :=
  p.filterMap fun
    | .placeholder token => some token
    | .text _ => none

/-- The text of what is written in turn. -/
@[simp]
theorem text_append (p q : Phrase) : (p ++ q).text = p.text ++ q.text := by
  simp [text, String.join_append]

/-- The placeholders of what is written in turn. -/
@[simp]
theorem placeholders_append (p q : Phrase) :
    (p ++ q).placeholders = p.placeholders ++ q.placeholders :=
  List.filterMap_append

/-- The text of a text is itself. -/
@[simp]
theorem text_ofText (s : String) : (ofText s).text = s := by
  simp [text, ofText, Fragment.content]

/-- A text has no placeholders. -/
@[simp]
theorem placeholders_ofText (s : String) : (ofText s).placeholders = [] := rfl

/-- Parentheses have no placeholders. -/
@[simp]
theorem placeholders_parenthesisedIf (needed : Bool) (p : Phrase) :
    (p.parenthesisedIf needed).placeholders = p.placeholders := by
  cases needed <;> simp [parenthesisedIf, parenthesised]

end Phrase

namespace Writing

variable {α β : Type} {ps ps' : Parameters}

/-- Writing goes from some parameters to others and gives a result. -/
def Gives (w : Writing α) (ps : Parameters) (a : α) (ps' : Parameters) : Prop :=
  w ps = .ok (a, ps')

/-- What is returned is given, and nothing is bound. -/
@[simp]
theorem gives_pure {a b : α} : (pure a : Writing α).Gives ps b ps' ↔ b = a ∧ ps' = ps := by
  constructor
  · intro h
    cases h
    exact ⟨rfl, rfl⟩
  · rintro ⟨rfl, rfl⟩
    rfl

/-- Writing in two steps gives what the second gives after the first. -/
@[simp]
theorem gives_bind {w : Writing α} {f : α → Writing β} {b : β} :
    (w >>= f).Gives ps b ps' ↔ ∃ a qs, w.Gives ps a qs ∧ (f a).Gives qs b ps' := by
  unfold Gives
  show (w ps).bind (fun r => f r.1 r.2) = _ ↔ _
  rcases w ps with e | ⟨a, qs⟩
  · exact ⟨nofun, fun ⟨_, _, h, _⟩ => nomatch h⟩
  · constructor
    · exact fun h => ⟨a, qs, rfl, h⟩
    · rintro ⟨_, _, ⟨⟩, h⟩
      exact h

/-- What is written for a value under a fixed name is the placeholder that it is bound to. -/
theorem gives_named {name : String} {value : Value} {native : NativeType} {p : Phrase} :
    (Writing.bind (some name) value native).Gives ps p ps' ↔
      ∃ token, ps.bind name value native = .ok (token, ps') ∧ p = [.placeholder token] := by
  have run : Writing.bind (some name) value native ps =
      (ps.bind name value native).map fun r => ([.placeholder r.1], r.2) := by
    show ((ps.bind name value native).bind fun r => Except.ok (r, ps)).bind _ = _
    rcases ps.bind name value native with _ | _ <;> rfl
  unfold Gives
  rw [run]
  rcases ps.bind name value native with e | ⟨token, qs⟩
  · exact ⟨nofun, nofun⟩
  · constructor
    · intro h
      cases h
      exact ⟨token, rfl, rfl⟩
    · rintro ⟨_, ⟨⟩, rfl⟩
      rfl

/-- Writing never fails. -/
def Total (w : Writing α) : Prop := ∀ ps, ∃ a ps', w.Gives ps a ps'

/-- Writing nothing does not fail. -/
theorem total_pure (a : α) : Total (pure a) := fun ps => ⟨a, ps, gives_pure.mpr ⟨rfl, rfl⟩⟩

/-- Writing in turn does not fail if neither step does. -/
theorem Total.bind {w : Writing α} {f : α → Writing β} (hw : Total w) (hf : ∀ a, Total (f a)) :
    Total (w >>= f) := by
  intro ps
  obtain ⟨a, qs, ha⟩ := hw ps
  obtain ⟨b, rs, hb⟩ := hf a qs
  exact ⟨b, rs, gives_bind.mpr ⟨a, qs, ha, hb⟩⟩

/-- Writing several things in turn does not fail if writing each one does not. -/
theorem Total.mapM {γ : Type} {f : γ → Writing α} {xs : List γ} (h : ∀ x ∈ xs, Total (f x)) :
    Total (xs.mapM f) := by
  induction xs with
  | nil =>
    rw [List.mapM_nil]
    exact total_pure _
  | cons x xs ih =>
    rw [List.mapM_cons]
    refine (h x List.mem_cons_self).bind fun b => Total.bind ?_ fun _ => total_pure _
    exact ih fun y hy => h y (List.mem_cons_of_mem _ hy)

end Writing

end LambdaSql
