import LambdaSql.Proofs.Binding.Parameters

/-!
# Placeholders in sight

A statement within others sees their placeholders besides its own. What it binds under a name that it sees is the same
value, so that its parameters can be added to the others in the end.

## Main definitions

* `Parameters.Vouched` - what a statement binds once more is the same value.

## Main results

* `Parameters.visible?_pushNew_self`, `Parameters.visible?_pushNew_of_visible?` - placeholders in sight after binding.
* `Parameters.mergeChecked_of_vouched`, `Parameters.get?_merge`, `Parameters.visible?_merge` - adding the parameters of a
  statement to those around it.
-/

namespace LambdaSql

/-- A value that agrees with one that is the same as another one is the same as it. -/
theorem Value.Agrees.beq {a b c : Value} (h : a.Agrees b) (h' : (b == c) = true) : (a == c) = true := by
  obtain rfl | h := h
  · exact h'
  · exact Value.beq_trans h h'

namespace Parameters

variable {ps inner : Parameters} {token other : String} {value : Value} {native : NativeType} {p : Parameter}

/-! ## Binding -/

/-- Adding an entry changes neither what is around, nor the statement, nor the number of the next name. -/
theorem pushNew_frame (ps : Parameters) (token : String) (value : Value) (native : NativeType) :
    (ps.pushNew token value native).outer = ps.outer ∧ (ps.pushNew token value native).statement = ps.statement ∧
      (ps.pushNew token value native).next = ps.next := by
  unfold pushNew
  split <;> exact ⟨rfl, rfl, rfl⟩

/-- What does not disagree with a visible entry has an equal value. -/
theorem beq_of_agrees? (h : ps.agrees? token value ≠ some false) (hp : ps.visible? token = some p) :
    (p.value == value) = true := by
  rw [agrees?, hp] at h
  simpa using h

/-- A further entry changes what is visible under its own name only. -/
theorem visible?_push_of_ne (h : other ≠ token) : (ps.push token value native).visible? other = ps.visible? other := by
  have hne : (token == other) = false := by simpa using Ne.symm h
  simp [visible?, get?, push, List.find?_append, hne]

/-- An entry that is added unless it is there changes what is visible under its own name only. -/
theorem visible?_pushNew_of_ne (h : other ≠ token) :
    (ps.pushNew token value native).visible? other = ps.visible? other := by
  unfold pushNew
  split
  · rfl
  · exact visible?_push_of_ne h

/-- A placeholder that has just been bound has its value. -/
theorem visible?_pushNew_self (native : NativeType) (h : ps.agrees? token value ≠ some false) :
    ∃ p, (ps.pushNew token value native).visible? token = some p ∧ p.value.Agrees value := by
  unfold pushNew
  split
  · next hmem =>
    obtain ⟨p, hp⟩ := Option.isSome_iff_exists.mp hmem
    have hvisible : ps.visible? token = some p := by rw [visible?, hp, Option.some_or]
    exact ⟨p, hvisible, agrees_of_agrees? h hvisible⟩
  · next hmem =>
    obtain ⟨p, hp, rfl⟩ := get?_push_self (fun h => hmem (contains_iff.mpr h)) value native
    exact ⟨p, by rw [visible?, hp, Option.some_or], .refl _⟩

/-- What a placeholder in sight stands for does not change. -/
theorem visible?_pushNew_of_visible? (h : ps.agrees? token value ≠ some false) (hp : ps.visible? other = some p) :
    ∃ q, (ps.pushNew token value native).visible? other = some q ∧ q.value.Agrees p.value := by
  by_cases hother : other = token
  · subst hother
    obtain ⟨q, hq, hagrees⟩ := visible?_pushNew_self native h
    exact ⟨q, hq, hagrees.trans (agrees_of_agrees? h hp).symm⟩
  · exact ⟨p, (visible?_pushNew_of_ne hother).trans hp, .refl _⟩

/-! ## Statements within others -/

/-- What is bound although there is a placeholder of that name around the statement is the same value. -/
def Vouched (ps : Parameters) : Prop :=
  ∀ p ∈ ps.entries, ∀ q, ps.outer.find? (·.name == p.name) = some q → (q.value == p.value) = true

/-- A further entry that agrees with those around is vouched for. -/
theorem Vouched.push (h : ps.Vouched)
    (hnew : ∀ q, ps.outer.find? (·.name == token) = some q → (q.value == value) = true) :
    (ps.push token value native).Vouched := by
  intro p hp q hq
  obtain hp | hp := List.mem_append.mp hp
  · exact h p hp q hq
  · obtain rfl := List.mem_singleton.mp hp
    exact hnew q hq

/-- An entry that does not disagree with a visible one is vouched for. -/
theorem Vouched.pushNew (h : ps.Vouched) (hagrees : ps.agrees? token value ≠ some false) :
    (ps.pushNew token value native).Vouched := by
  unfold Parameters.pushNew
  split
  · exact h
  · next hmem =>
    refine h.push fun q hq => beq_of_agrees? hagrees ?_
    have hnone : ps.get? token = none := by simpa [contains] using hmem
    rw [visible?, hnone, Option.none_or, hq]

/-- A statement within others sees what they see. -/
theorem visible?_child (houter : ps.outer = []) : ps.child.visible? token = ps.visible? token := by
  simp [visible?, get?, child, houter]

/-- A child of a table that has none around it sees the entries of this table around it. -/
theorem outer_child (houter : ps.outer = []) : ps.child.outer = ps.entries := by
  rw [child, houter, List.nil_append]

/-- Merging entries changes neither what is around nor the statement. -/
theorem mergeEntries_frame (ps : Parameters) (entries : List Parameter) :
    (ps.mergeEntries entries).outer = ps.outer ∧ (ps.mergeEntries entries).statement = ps.statement := by
  induction entries generalizing ps with
  | nil => exact ⟨rfl, rfl⟩
  | cons p rest ih =>
    obtain ⟨houter, hstatement⟩ := ih (ps.pushNew p.name p.value p.native)
    obtain ⟨houter', hstatement', -⟩ := ps.pushNew_frame p.name p.value p.native
    exact ⟨houter.trans houter', hstatement.trans hstatement'⟩

/-- The parameters of a statement can be added to those around it. -/
theorem mergeChecked_of_vouched (h : inner.Vouched) (houter : inner.outer = ps.entries) :
    ps.mergeChecked inner = .ok (ps.merge inner) := by
  have hnone : ps.conflict? inner = none := by
    refine List.find?_eq_none.mpr fun p hp => ?_
    cases hq : ps.get? p.name with
    | none => simp
    | some q => simp [bne, h p hp q (houter ▸ hq)]
  rw [mergeChecked, hnone]

/-- A placeholder is one of those that were there before, or one of the statement. -/
theorem get?_merge (h : (ps.merge inner).get? token = some p) :
    ps.get? token = some p ∨ ps.get? token = none ∧ ∃ r, inner.get? token = some r ∧ p.value = r.value := by
  cases hps : ps.get? token with
  | some q =>
    have hq := (ps.extends_merge inner).get? hps
    exact .inl (hq.symm.trans h)
  | none =>
    cases hinner : inner.get? token with
    | some r =>
      obtain ⟨q, hq, hvalue⟩ := get?_mergeEntries (get?_eq_none.mp hps) hinner
      cases hq.symm.trans h
      exact .inr ⟨rfl, r, rfl, hvalue⟩
    | none =>
      have hnone : (ps.merge inner).get? token = none := by
        rw [get?_eq_none, ← List.mem_eraseDups, eraseDups_names_merge, List.mem_eraseDups, List.mem_append, not_or]
        exact ⟨get?_eq_none.mp hps, get?_eq_none.mp hinner⟩
      cases hnone.symm.trans h

/-- What a statement sees is seen afterwards. -/
theorem visible?_merge (houter : ps.outer = []) (hinner : inner.outer = ps.entries)
    (hmerge : ps.mergeChecked inner = .ok (ps.merge inner)) (hp : inner.visible? token = some p) :
    ∃ q, (ps.merge inner).visible? token = some q ∧ q.value.Agrees p.value := by
  have hmerged : (ps.merge inner).outer = [] := (ps.mergeEntries_frame inner.entries).1.trans houter
  simp only [visible?, hmerged, List.find?_nil, Option.or_none]
  rw [visible?, hinner] at hp
  cases hget : inner.get? token with
  | some r =>
    rw [hget, Option.some_or] at hp
    cases hp
    exact get?_mergeChecked hmerge hget
  | none =>
    rw [hget, Option.none_or] at hp
    exact ⟨p, (ps.extends_merge inner).get? hp, .refl _⟩

end Parameters

end LambdaSql
